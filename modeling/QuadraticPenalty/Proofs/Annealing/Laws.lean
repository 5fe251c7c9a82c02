import QuadraticPenalty.Proofs.Annealing.Temperatures

namespace QuadraticPenalty

open Scalar Extended

def Cooling.exact : Cooling ℚ → Cooling Extended
  | .geometric alpha => .geometric (finite alpha)
  | .linear => .linear
  | .lundyMees beta => .lundyMees (finite beta)

namespace Schedule

def exact (s : Schedule ℚ) : Schedule Extended :=
  { s with initial := finite s.initial, final := finite s.final, cooling := s.cooling.exact }

def lawAt (s : Schedule ℚ) (k : ℕ) : ℚ :=
  match s.cooling with
  | .geometric alpha => s.initial * alpha ^ k
  | .linear => if k < s.levels then s.initial - k / s.levels * (s.initial - s.final) else s.final
  | .lundyMees beta => s.initial / (1 + k * (beta * s.initial))

variable {s : Schedule ℚ} {a b : ℚ} {k n : ℕ}

lemma exact_movesPerLevel (s : Schedule ℚ) : s.exact.movesPerLevel = s.movesPerLevel := by
  unfold movesPerLevel exact
  cases s.cooling <;> rfl

lemma exact_levels (s : Schedule ℚ) : s.exact.levels = s.levels := by
  rw [levels, levels, exact_movesPerLevel]
  rfl

lemma exact_flaw_eq_none (h : s.exact.flaw = none) :
    0 < s.final ∧ s.final < s.initial ∧ s.cooling.exact.flaw = none := by
  obtain ⟨-, hfinal, horder, hcooling⟩ := flaw_eq_none h
  exact ⟨not_le.mp (of_decide_eq_false hfinal), not_le.mp (of_decide_eq_false horder), hcooling⟩

lemma geometric_bounds (h : (Cooling.geometric a).exact.flaw = none) : 0 < a ∧ a < 1 := by
  obtain habsurd | ⟨x, hpos, hlt, hx⟩ := geometric_cases h
  · cases habsurd
  · obtain rfl := Extended.finite.inj hx
    exact ⟨hpos, hlt⟩

lemma lundyMees_pos (h : (Cooling.lundyMees b).exact.flaw = none) : 0 < b := by
  obtain habsurd | habsurd | ⟨x, hpos, hx⟩ := lundyMees_cases h
  · cases habsurd
  · cases habsurd
  · obtain rfl := Extended.finite.inj hx
    exact hpos

lemma lawAt_geometric (hc : s.cooling = .geometric a) (k : ℕ) : s.lawAt k = s.initial * a ^ k := by
  rw [lawAt, hc]

lemma lawAt_lundyMees (hc : s.cooling = .lundyMees b) (k : ℕ) :
    s.lawAt k = s.initial / (1 + k * (b * s.initial)) := by
  rw [lawAt, hc]

lemma lawAt_linear (hc : s.cooling = .linear) (hk : k ≤ s.levels) :
    s.lawAt k = s.initial - k / s.levels * (s.initial - s.final) := by
  rw [lawAt, hc]
  rcases hk.lt_or_eq with hlt | rfl
  · exact if_pos hlt
  · have hpos : (s.levels : ℚ) ≠ 0 := Nat.cast_ne_zero.mpr s.levels_pos.ne'
    rw [div_self hpos, one_mul, sub_sub_cancel]
    exact if_neg (lt_irrefl _)

lemma temperatureAt_linear (hc : s.cooling = .linear) (k : ℕ) :
    s.exact.temperatureAt k = finite (s.lawAt k) := by
  have hexact : s.exact.cooling = .linear := congrArg Cooling.exact hc
  cases k with
  | zero =>
    rw [lawAt_linear hc (Nat.zero_le _), Nat.cast_zero, zero_div, zero_mul, sub_zero]
    rfl
  | succ k =>
    rw [temperatureAt, next, hexact, lawAt, hc, exact_levels]
    dsimp only
    by_cases hk : s.levels ≤ k + 1
    · rw [if_pos hk, if_neg (not_lt.mpr hk)]
      rfl
    · have hlevels : (s.levels : ℚ) ≠ 0 := Nat.cast_ne_zero.mpr s.levels_pos.ne'
      have hdone : (ofInt (k + 1 : ℕ) / ofInt s.levels : Extended) =
          finite ((k + 1 : ℕ) / s.levels) := if_neg hlevels
      rw [if_neg hk, if_pos (not_le.mp hk), hdone, sub_eq_add_neg, sub_eq_add_neg s.initial s.final]
      rfl

lemma temperatureAt_exact (hs : s.exact.flaw = none) (k : ℕ) :
    s.exact.temperatureAt k = finite (s.lawAt k) := by
  obtain ⟨hfinal, horder, hcooling⟩ := exact_flaw_eq_none hs
  cases hc : s.cooling with
  | geometric a =>
    rw [lawAt_geometric hc]
    exact temperatureAt_geometric rfl (congrArg Cooling.exact hc) k
  | linear => exact temperatureAt_linear hc k
  | lundyMees b =>
    rw [lawAt_lundyMees hc]
    exact temperatureAt_lundyMees rfl (congrArg Cooling.exact hc) (hfinal.trans horder)
      (lundyMees_pos (hc ▸ hcooling)) k

lemma lawAt_strictAntiOn (hs : s.exact.flaw = none) (hn : s.cooling = .linear → n ≤ s.levels) :
    StrictAntiOn s.lawAt (Set.Iic n) := by
  obtain ⟨hfinal, horder, hcooling⟩ := exact_flaw_eq_none hs
  have hinitial : 0 < s.initial := hfinal.trans horder
  intro j hj k hk hjk
  cases hc : s.cooling with
  | geometric a =>
    obtain ⟨hpos, hlt⟩ := geometric_bounds (hc ▸ hcooling)
    rw [lawAt_geometric hc, lawAt_geometric hc]
    exact mul_lt_mul_of_pos_left (pow_lt_pow_right_of_lt_one₀ hpos hlt hjk) hinitial
  | linear =>
    have hlevels : (0 : ℚ) < s.levels := Nat.cast_pos.mpr s.levels_pos
    have hcast : (j : ℚ) < k := Nat.cast_lt.mpr hjk
    rw [lawAt_linear hc (le_trans hj (hn hc)), lawAt_linear hc (le_trans hk (hn hc))]
    have hfall : (j : ℚ) / s.levels * (s.initial - s.final) <
        k / s.levels * (s.initial - s.final) :=
      mul_lt_mul_of_pos_right (div_lt_div_of_pos_right hcast hlevels) (sub_pos.mpr horder)
    exact sub_lt_sub_left hfall _
  | lundyMees b =>
    have hb : 0 < b := lundyMees_pos (hc ▸ hcooling)
    have hrate : 0 < b * s.initial := mul_pos hb hinitial
    have hcast : (j : ℚ) < k := Nat.cast_lt.mpr hjk
    rw [lawAt_lundyMees hc, lawAt_lundyMees hc]
    have hdivisor : 1 + j * (b * s.initial) < 1 + k * (b * s.initial) := by gcongr
    exact div_lt_div_of_pos_left hinitial (by positivity) hdivisor

lemma lawAt_linear_of_le (hc : s.cooling = .linear) (hk : s.levels ≤ k) : s.lawAt k = s.final := by
  rw [lawAt, hc]
  exact if_neg (not_lt.mpr hk)

lemma lawAt_linear_hot (hs : s.exact.flaw = none) (hc : s.cooling = .linear) (hk : k < s.levels) :
    s.final < s.lawAt k := by
  have hanti := lawAt_strictAntiOn hs fun _ => le_rfl (a := s.levels)
  exact lawAt_linear_of_le hc le_rfl ▸ hanti hk.le Set.self_mem_Iic hk

lemma lawAt_pos (hs : s.exact.flaw = none) (k : ℕ) : 0 < s.lawAt k := by
  obtain ⟨hfinal, horder, hcooling⟩ := exact_flaw_eq_none hs
  have hinitial : 0 < s.initial := hfinal.trans horder
  cases hc : s.cooling with
  | geometric a =>
    rw [lawAt_geometric hc]
    exact mul_pos hinitial (pow_pos (geometric_bounds (hc ▸ hcooling)).1 k)
  | linear =>
    rcases lt_or_ge k s.levels with hk | hk
    · exact hfinal.trans (lawAt_linear_hot hs hc hk)
    · exact lawAt_linear_of_le hc hk ▸ hfinal
  | lundyMees b =>
    have hb : 0 < b := lundyMees_pos (hc ▸ hcooling)
    rw [lawAt_lundyMees hc]
    positivity

lemma exists_isLeast_cold (hs : s.exact.flaw = none) : ∃ k, IsLeast {k | s.lawAt k ≤ s.final} k := by
  have hfinite : ¬ s.exact.ScalesInfinity := fun h => by cases h.1
  obtain ⟨k, hk⟩ := exists_cold hs hfinite
  rw [temperatureAt_exact hs] at hk
  have hcold : ∃ k, s.lawAt k ≤ s.final := ⟨k, not_lt.mp (of_decide_eq_false hk)⟩
  exact ⟨Nat.find hcold, Nat.find_spec hcold, fun m hm => Nat.find_min' hcold hm⟩

end Schedule

end QuadraticPenalty
