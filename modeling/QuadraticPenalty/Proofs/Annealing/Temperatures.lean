import Mathlib
import QuadraticPenalty.Annealing.Schedule
import QuadraticPenalty.Scalar.Extended

namespace QuadraticPenalty.Schedule

open Scalar Extended

section AnyScalar

variable {α : Type}

lemma levels_pos (s : Schedule α) : 0 < s.levels := by
  unfold levels
  split
  · decide
  · exact Nat.lt_of_lt_of_le Nat.one_pos (le_max_right _ _)

variable [Scalar α] {s : Schedule α}

def temperatureAt (s : Schedule α) : ℕ → α
  | 0 => s.initial
  | k + 1 => s.next (s.temperatureAt k) k

lemma temperatures_eq (s : Schedule α) (n k : ℕ) :
    s.temperatures n k (s.temperatureAt k) = (List.range' (k + 1) n).map s.temperatureAt := by
  induction n generalizing k with
  | zero => rfl
  | succ n ih =>
    rw [temperatures, List.range'_succ, List.map_cons]
    exact congrArg (s.temperatureAt (k + 1) :: ·) (ih (k + 1))

lemma flaw_eq_none (h : s.flaw = none) : Scalar.le s.initial zero = false ∧
    Scalar.le s.final zero = false ∧ Scalar.le s.initial s.final = false ∧ s.cooling.flaw = none := by
  simp only [flaw, ite_eq_iff, reduceCtorEq, and_false, false_or, Bool.not_eq_true] at h
  obtain ⟨hinitial, hfinal, horder, hcooling⟩ := h
  exact ⟨hinitial, hfinal, horder, hcooling⟩

lemma temperatureAt_levels (hc : s.cooling = .linear) : s.temperatureAt s.levels = s.final := by
  obtain ⟨k, hk⟩ := Nat.exists_eq_add_one_of_ne_zero s.levels_pos.ne'
  rw [hk, temperatureAt, next, hc]
  exact if_pos hk.le

end AnyScalar

variable {s : Schedule Extended} {t x : Extended} {p q a b : ℚ}

lemma positive_cases (h : Scalar.le x zero = false) :
    x = undefined ∨ x = infinity ∨ ∃ q, 0 < q ∧ x = finite q := by
  cases x with
  | undefined => exact .inl rfl
  | infinity => exact .inr (.inl rfl)
  | negInfinity => cases h
  | finite q => exact .inr (.inr ⟨q, not_le.mp (of_decide_eq_false h), rfl⟩)

lemma hot_cases (h : Scalar.lt x t = true) (hx : Scalar.le x zero = false) :
    ∃ p, 0 < p ∧ x = finite p ∧ (t = infinity ∨ ∃ q, p < q ∧ t = finite q) := by
  obtain rfl | rfl | ⟨p, hp, rfl⟩ := positive_cases hx
  · cases h
  · cases h
  · refine ⟨p, hp, rfl, ?_⟩
    cases t with
    | undefined => cases h
    | infinity => exact .inl rfl
    | negInfinity => cases h
    | finite q => exact .inr ⟨q, of_decide_eq_true h, rfl⟩

lemma lt_undefined (x : Extended) : Scalar.lt x undefined = false := by cases x <;> rfl

lemma lt_self (x : Extended) : Scalar.lt x x = false := by
  cases x with
  | finite q => exact decide_eq_false (lt_irrefl q)
  | _ => rfl

lemma geometric_cases (h : (Cooling.geometric x).flaw = none) :
    x = undefined ∨ ∃ a, 0 < a ∧ a < 1 ∧ x = finite a := by
  simp only [Cooling.flaw, ite_eq_right_iff, reduceCtorEq, imp_false, Bool.or_eq_true, not_or,
    Bool.not_eq_true] at h
  obtain rfl | rfl | ⟨a, ha, rfl⟩ := positive_cases h.1
  · exact .inl rfl
  · cases h.2
  · exact .inr ⟨a, ha, not_le.mp (of_decide_eq_false h.2), rfl⟩

lemma lundyMees_cases (h : (Cooling.lundyMees x).flaw = none) :
    x = undefined ∨ x = infinity ∨ ∃ b, 0 < b ∧ x = finite b := by
  simp only [Cooling.flaw, ite_eq_right_iff, reduceCtorEq, imp_false, Bool.not_eq_true] at h
  exact positive_cases h

lemma unbounded_pos (hq : 0 < q) : unbounded q = infinity := by
  rw [unbounded, if_neg hq.ne', if_pos hq]

lemma temperatureAt_geometric (hi : s.initial = finite q) (hc : s.cooling = .geometric (finite a))
    (k : ℕ) : s.temperatureAt k = finite (q * a ^ k) := by
  induction k with
  | zero => rw [temperatureAt, hi, pow_zero, mul_one]
  | succ k ih =>
    rw [temperatureAt, ih, next, hc, pow_succ, ← mul_assoc]
    rfl

lemma temperatureAt_lundyMees (hi : s.initial = finite q) (hc : s.cooling = .lundyMees (finite b))
    (hq : 0 < q) (hb : 0 < b) (k : ℕ) : s.temperatureAt k = finite (q / (1 + k * (b * q))) := by
  induction k with
  | zero => simp [temperatureAt, hi]
  | succ k ih =>
    have hpos : (0 : ℚ) < 1 + k * (b * q) := by positivity
    have hdivisor : 1 + b * (q / (1 + k * (b * q))) = (1 + (k + 1) * (b * q)) / (1 + k * (b * q)) := by
      field_simp
      ring
    have hne : 1 + b * (q / (1 + k * (b * q))) ≠ 0 := by positivity
    have hnext : q / (1 + k * (b * q)) / (1 + b * (q / (1 + k * (b * q)))) =
        q / (1 + (k + 1 : ℕ) * (b * q)) := by
      rw [hdivisor, div_div_div_cancel_right₀ hpos.ne', Nat.cast_succ]
    rw [temperatureAt, ih, next, hc, ← hnext]
    exact if_neg hne

/-- An infinite temperature that is multiplied, and that a rational one has to stop. -/
def ScalesInfinity (s : Schedule Extended) : Prop :=
  s.initial = infinity ∧ (∃ p, s.final = finite p) ∧ ∃ a, s.cooling = .geometric (finite a)

lemma ScalesInfinity.temperatureAt_eq (h : s.ScalesInfinity) (hs : s.flaw = none) (k : ℕ) :
    s.temperatureAt k = infinity := by
  obtain ⟨hi, -, a, hc⟩ := h
  obtain ⟨-, -, -, hcooling⟩ := flaw_eq_none hs
  rw [hc] at hcooling
  have ha : 0 < a := by
    obtain habsurd | ⟨b, hb, -, heq⟩ := geometric_cases hcooling
    · cases habsurd
    · exact Extended.finite.inj heq ▸ hb
  induction k with
  | zero => exact hi
  | succ k ih =>
    rw [temperatureAt, ih, next, hc]
    exact unbounded_pos ha

lemma ScalesInfinity.hot (h : s.ScalesInfinity) (hs : s.flaw = none) (k : ℕ) :
    Scalar.lt s.final (s.temperatureAt k) = true := by
  obtain ⟨p, hp⟩ := h.2.1
  rw [h.temperatureAt_eq hs, hp]
  rfl

lemma geometric_cold (hf : s.final = finite p) (hi : s.initial = finite q)
    (hc : s.cooling = .geometric (finite a)) (hp : 0 < p) (hq : 0 < q) (ha : a < 1) :
    ∃ k, Scalar.lt s.final (s.temperatureAt k) = false := by
  obtain ⟨k, hk⟩ := exists_pow_lt_of_lt_one (div_pos hp hq) ha
  have hle : q * a ^ k ≤ p := by
    rw [mul_comm]
    exact ((lt_div_iff₀ hq).mp hk).le
  rw [hf]
  exact ⟨k, temperatureAt_geometric hi hc k ▸ decide_eq_false (not_lt.mpr hle)⟩

lemma lundyMees_cold (hf : s.final = finite p) (hi : s.initial = finite q)
    (hc : s.cooling = .lundyMees (finite b)) (hp : 0 < p) (hq : 0 < q) (hb : 0 < b) :
    ∃ k, Scalar.lt s.final (s.temperatureAt k) = false := by
  obtain ⟨k, hk⟩ := exists_nat_ge (1 / (b * p))
  have hsteps : 1 ≤ k * (b * p) := (div_le_iff₀ (mul_pos hb hp)).mp hk
  have hle : q / (1 + k * (b * q)) ≤ p := by
    rw [div_le_iff₀ (by positivity)]
    calc q ≤ q * (k * (b * p)) := le_mul_of_one_le_right hq.le hsteps
      _ ≤ p + q * (k * (b * p)) := le_add_of_nonneg_left hp.le
      _ = p * (1 + k * (b * q)) := by ring
  rw [hf]
  exact ⟨k, temperatureAt_lundyMees hi hc hq hb k ▸ decide_eq_false (not_lt.mpr hle)⟩

lemma next_of_undefined_factor (hc : s.cooling = .geometric undefined) (t : Extended) (k : ℕ) :
    s.next t k = undefined := by
  rw [next, hc]
  cases t <;> rfl

lemma next_of_undefined_rate (hc : s.cooling = .lundyMees undefined) (t : Extended) (k : ℕ) :
    s.next t k = undefined := by
  rw [next, hc]
  cases t <;> rfl

lemma next_of_infinite_rate (hc : s.cooling = .lundyMees infinity) (hq : 0 < q) (k : ℕ) :
    s.next (finite q) k = finite 0 := by
  rw [next, hc]
  change div (finite q) (add one (unbounded q)) = finite 0
  rw [unbounded_pos hq]
  rfl

lemma next_infinity_of_lundyMees (hc : s.cooling = .lundyMees x)
    (hx : (Cooling.lundyMees x).flaw = none) (k : ℕ) : s.next infinity k = undefined := by
  rw [next, hc]
  obtain rfl | rfl | ⟨b, hb, rfl⟩ := lundyMees_cases hx
  · rfl
  · rfl
  · change div infinity (add one (unbounded b)) = undefined
    rw [unbounded_pos hb]
    rfl

lemma exists_cold (hs : s.flaw = none) (h : ¬ s.ScalesInfinity) :
    ∃ k, Scalar.lt s.final (s.temperatureAt k) = false := by
  obtain ⟨-, hfinal, -, hcooling⟩ := flaw_eq_none hs
  cases hhot : Scalar.lt s.final s.initial with
  | false => exact ⟨0, hhot⟩
  | true =>
    obtain ⟨p, hp, hf, hinitial⟩ := hot_cases hhot hfinal
    cases hc : s.cooling with
    | linear => exact ⟨s.levels, by rw [temperatureAt_levels hc, lt_self]⟩
    | geometric x =>
      rw [hc] at hcooling
      obtain rfl | ⟨a, -, ha, rfl⟩ := geometric_cases hcooling
      · exact ⟨1, by rw [temperatureAt, next_of_undefined_factor hc, lt_undefined]⟩
      · rcases hinitial with hi | ⟨q, hq, hi⟩
        · exact absurd ⟨hi, ⟨p, hf⟩, a, hc⟩ h
        · exact geometric_cold hf hi hc hp (hp.trans hq) ha
    | lundyMees x =>
      rw [hc] at hcooling
      rcases hinitial with hi | ⟨q, hq, hi⟩
      · refine ⟨1, ?_⟩
        rw [temperatureAt, temperatureAt, hi, next_infinity_of_lundyMees hc hcooling, lt_undefined]
      · obtain rfl | rfl | ⟨b, hb, rfl⟩ := lundyMees_cases hcooling
        · exact ⟨1, by rw [temperatureAt, next_of_undefined_rate hc, lt_undefined]⟩
        · refine ⟨1, ?_⟩
          rw [temperatureAt, temperatureAt, hi, next_of_infinite_rate hc (hp.trans hq), hf]
          exact decide_eq_false (not_lt.mpr hp.le)
        · exact lundyMees_cold hf hi hc hp (hp.trans hq) hb

end QuadraticPenalty.Schedule
