import QuadraticPenalty.Proofs.Annealing.Levels

namespace QuadraticPenalty

open Scalar Extended

lemma Schedule.maxMoves_le_levels {α : Type} {s : Schedule α} (hn : 0 < s.movesPerLevel) :
    s.maxMoves ≤ s.levels * s.movesPerLevel := by
  unfold levels
  split
  · next hmax => exact hmax ▸ Nat.zero_le _
  · have hper : max s.movesPerLevel 1 = s.movesPerLevel := max_eq_left hn
    dsimp only
    rw [hper]
    have hceil := Nat.lt_mul_div_succ (s.maxMoves + s.movesPerLevel - 1) hn
    rw [Nat.mul_succ] at hceil
    calc s.maxMoves ≤ s.movesPerLevel * ((s.maxMoves + s.movesPerLevel - 1) / s.movesPerLevel) := by
          omega
      _ = (s.maxMoves + s.movesPerLevel - 1) / s.movesPerLevel * s.movesPerLevel := Nat.mul_comm _ _
      _ ≤ _ := Nat.mul_le_mul_right _ (le_max_left _ _)

namespace Annealing

lemma movable_ne_nil {levels : List ℕ} (h : ∃ n ∈ levels, 1 < n) :
    movable levels ≠ [] := by
  obtain ⟨n, hn, hchoice⟩ := h
  obtain ⟨k, hk, rfl⟩ := List.getElem_of_mem hn
  exact List.ne_nil_of_mem (mem_movable.mpr ⟨hk, by rwa [List.getD_eq_getElem _ _ hk]⟩)

section AnyScalar

variable {α σ : Type} [ExtendedScalar α] {l : Landscape α} {c : Chance α σ} {s : Schedule α}
  {k n m : ℕ} {t : α} {ts : List α} {w w' : Walk α σ}

lemma Walk.ended_of_level (hl : movable l.levels ≠ []) (h : w.level l c s t n = (w', false)) :
    w'.ended s = true := by
  induction n generalizing w with
  | zero => cases h
  | succ n ih =>
    unfold Walk.level at h
    split at h
    · next hended =>
      obtain ⟨rfl, -⟩ := Prod.mk.inj h
      exact hended
    · obtain ⟨v, hv⟩ := Walk.exists_move (c := c) hl t w
      rw [hv] at h
      exact ih h

lemma Walk.Cools.ended_or_cold (hl : movable l.levels ≠ [])
    (h : Walk.Cools l c s k (s.temperatureAt k) w ts w') : w'.ended s = true ∨
      lt s.final (s.temperatureAt (k + ts.length)) = false ∧
        w'.moves = w.moves + ts.length * s.movesPerLevel := by
  generalize ht : s.temperatureAt k = t at h
  induction h with
  | cold hcold =>
    subst ht
    exact .inr ⟨hcold, by simp⟩
  | broken hot hlevel => exact .inl (Walk.ended_of_level hl hlevel)
  | @next k t w v w' ts hot hlevel _ ih =>
    subst ht
    rcases ih rfl with hended | ⟨hcold, hmoves⟩
    · exact .inl hended
    · have hindex : k + (ts.length + 1) = k + 1 + ts.length := by omega
      refine .inr ⟨by rw [List.length_cons, hindex]; exact hcold, ?_⟩
      rw [hmoves, Walk.level_moves hlevel, List.length_cons, Nat.succ_mul]
      omega

lemma restarts_spend
    (h : ∀ number r, ∃ w, restart l c s number r = some w ∧ (w.record.succeeded = true ∨ w.moves = m))
    (n number : ℕ) (r : Record α) : ∃ out, restarts l c s n number r = some out ∧
      (out.1.succeeded = true ∨ out.1.moves = r.moves + m * n) := by
  obtain ⟨out, hout⟩ := exists_restarts (fun number r => (h number r).imp fun _ hw => hw.1) n number r
  refine ⟨out, hout, ?_⟩
  induction n generalizing number r out with
  | zero =>
    obtain rfl := Option.some.inj hout
    exact .inr rfl
  | succ n ih =>
    obtain ⟨w, hw, ⟨hsucceeded, hrecord⟩ | ⟨hfails, rest, hrest, hrecord⟩⟩ :=
      restarts_succ_eq_some hout
    · exact .inl (hrecord ▸ hsucceeded)
    · obtain ⟨w', hw', hspent⟩ := h number r
      obtain rfl : w = w' := Option.some.inj (hw.symm.trans hw')
      have hmoves : w.moves = m := hspent.resolve_left (Bool.eq_false_iff.mp hfails)
      rw [hrecord]
      refine (ih (number + 1) (r.after w) rest hrest).imp_right fun hrest => ?_
      calc rest.1.moves = r.moves + w.moves + m * n := hrest
        _ = r.moves + m * (n + 1) := by
          rw [hmoves, Nat.mul_succ]
          omega

lemma moves_of_restarts (h : ∀ number r w, restart l c s number r = some w →
      Walk.Path l c (course l c s m number r).start (course l c s m number r).trail w)
    {n number : ℕ} {r : Record α} {out : Record α × List (Event α)}
    (hout : restarts l c s n number r = some out) :
    out.1.moves = r.moves + ((courses l c s m n number r).map fun o => o.trail.length).sum := by
  induction n generalizing number r out with
  | zero =>
    obtain rfl := Option.some.inj hout
    rfl
  | succ n ih =>
    obtain ⟨w, hw, hcases⟩ := restarts_succ_eq_some hout
    have hmoves : w.moves = (course l c s m number r).trail.length :=
      (h number r w hw).moves_eq.trans (Nat.zero_add _)
    rw [courses, hw, List.map_cons, List.sum_cons, ← hmoves, ← Nat.add_assoc]
    dsimp only
    rw [← Record.after]
    obtain ⟨hsucceeded, hrecord⟩ | ⟨hfails, rest, hrest, hrecord⟩ := hcases
    · rw [if_pos hsucceeded, hrecord]
      rfl
    · rw [if_neg (Bool.eq_false_iff.mp hfails), hrecord, ih hrest]
      rfl

end AnyScalar

variable {σ : Type} {l : Landscape Extended} {c : Chance Extended σ} {s : Schedule ℚ}

lemma restart_spends (hs : s.exact.flaw = none) (hc : s.cooling = .linear)
    (hl : ∃ n ∈ l.levels, 1 < n) (hmax : 0 < s.maxMoves) (hn : 0 < s.perLevel) (number : ℕ)
    (r : Record Extended) : ∃ w, restart l c s.exact number r = some w ∧
      Walk.Path l c (course l c s.exact s.levels number r).start
        (course l c s.exact s.levels number r).trail w ∧
      (w.record.succeeded = true ∨ w.moves = s.maxMoves) := by
  have hfinal : s.lawAt s.levels ≤ s.final := (Schedule.lawAt_linear_of_le hc le_rfl).le
  have hcold := (cold_iff hs).mpr hfinal
  obtain ⟨w, ts, hw, hts⟩ := exists_cools hcold l c number r
  have hlength : ts.length ≤ s.levels :=
    (Nat.zero_add _).ge.trans (hts.length_le hcold (Nat.zero_le s.levels))
  refine ⟨w, hw, hts.path hlength, ?_⟩
  have hle : w.moves ≤ s.maxMoves := hts.moves_le_max (s := s.exact) hmax (Nat.zero_le s.maxMoves)
  rcases hts.ended_or_cold (movable_ne_nil hl) with hended | ⟨hcold, hmoves⟩
  · rcases Bool.or_eq_true_iff.mp hended with hsucceeded | hspent
    · exact .inl hsucceeded
    · exact .inr (hle.antisymm (of_decide_eq_true (Bool.and_eq_true_iff.mp hspent).2))
  · have hper : s.movesPerLevel = s.perLevel := by rw [Schedule.movesPerLevel, hc]
    have hlevels : s.levels ≤ ts.length := by
      by_contra hfew
      rw [Nat.zero_add, cold_iff hs] at hcold
      exact (Schedule.lawAt_linear_hot hs hc (not_le.mp hfew)).not_ge hcold
    refine .inr (hle.antisymm ?_)
    calc s.maxMoves ≤ s.levels * s.movesPerLevel := Schedule.maxMoves_le_levels (hper ▸ hn)
      _ ≤ ts.length * s.movesPerLevel := Nat.mul_le_mul_right _ hlevels
      _ = w.moves := by
        rw [hmoves, Schedule.exact_movesPerLevel]
        exact (Nat.zero_add _).symm

/-- With a limit of its moves a linear search succeeds, or makes all of them in every restart. Each move
that it counts is a proposal that it has judged. -/
theorem linear_run_spends {σ : Type} (l : Landscape Extended) (c : Chance Extended σ)
    (s : Schedule ℚ) (hs : s.exact.flaw = none) (hc : s.cooling = .linear)
    (hl : ∃ n ∈ l.levels, 1 < n) (hmax : 0 < s.maxMoves) (hn : 0 < s.perLevel) :
    ∃ out os, run l c s.exact = some out ∧
      (out.1.succeeded = true ∨ out.1.moves = s.maxMoves * max s.restarts 1) ∧
      os = courses l c s.exact s.levels (max s.restarts 1) 0 (.initial l) ∧
      (∀ o ∈ os, ∃ w, Walk.Path l c o.start o.trail w) ∧
      out.1.moves = (os.map fun o => o.trail.length).sum := by
  have hspend := restart_spends (c := c) hs hc hl hmax hn
  obtain ⟨out, hrun, hspent⟩ := restarts_spend
    (fun number r => (hspend number r).imp fun _ hw => ⟨hw.1, hw.2.2⟩) (max s.restarts 1) 0 (.initial l)
  have hmoves := moves_of_restarts (m := s.levels) (fun number r w hw => by
    obtain ⟨w', hw', hpath, -⟩ := hspend number r
    exact Option.some.inj (hw.symm.trans hw') ▸ hpath) hrun
  rw [Record.initial, Nat.zero_add] at hspent hmoves
  exact ⟨out, _, hrun, hspent, rfl, fun o ho => exists_path_of_mem_courses ho, hmoves⟩

lemma bothLow_fails {s : Schedule Extended} {out : Record Extended × List (Event Extended)}
    (h : run bothLowLandscape c s = some out) : out.1.succeeded = false := by
  obtain ⟨a, ha, hout⟩ := run_reached h
  rw [hout]
  exact (ha.sound bothLow_exact).record.fails bothLow_invalid

theorem linear_run_spends_of_fiveLevels : fiveLevels.exact.flaw = none ∧
    (∃ n ∈ bothLowLandscape.levels, 1 < n) ∧
    ∃ out, run bothLowLandscape topmost fiveLevels.exact = some out ∧ out.1.moves = 90 := by
  have hlevels : ∃ n ∈ bothLowLandscape.levels, 1 < n := by
    rw [bothLow_levels]
    decide
  obtain ⟨out, os, hrun, hspent, -⟩ := linear_run_spends bothLowLandscape topmost fiveLevels
    fiveLevels_flaw rfl hlevels (by decide) (by decide)
  refine ⟨fiveLevels_flaw, hlevels, out, hrun, hspent.resolve_left ?_⟩
  rw [bothLow_fails hrun]
  exact Bool.false_ne_true

end Annealing

end QuadraticPenalty
