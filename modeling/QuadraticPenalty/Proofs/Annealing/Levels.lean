import QuadraticPenalty.Proofs.Annealing.Laws
import QuadraticPenalty.Proofs.Annealing.Termination

namespace QuadraticPenalty.Annealing

open Scalar

section AnyScalar

variable {α σ : Type} [ExtendedScalar α] {l : Landscape α} {c : Chance α σ} {s : Schedule α}
  {k n K : ℕ} {t : α} {ts : List α} {w w' : Walk α σ}

lemma Walk.Cools.temperatures_eq (h : Walk.Cools l c s k (s.temperatureAt k) w ts w') :
    ts = (List.range' k ts.length).map s.temperatureAt := by
  generalize ht : s.temperatureAt k = t at h
  induction h with
  | cold => rfl
  | broken => rw [← ht]; rfl
  | next hot hv _ ih =>
    subst ht
    rw [List.length_cons, List.range'_succ, List.map_cons]
    exact congrArg _ (ih rfl)

lemma ne_of_hot (hot : lt s.final (s.temperatureAt k) = true)
    (hcold : lt s.final (s.temperatureAt K) = false) : k ≠ K := by
  rintro rfl
  exact Bool.false_ne_true (hcold.symm.trans hot)

lemma Walk.Cools.length_le (h : Walk.Cools l c s k (s.temperatureAt k) w ts w')
    (hcold : lt s.final (s.temperatureAt K) = false) (hk : k ≤ K) : k + ts.length ≤ K := by
  generalize ht : s.temperatureAt k = t at h
  induction h with
  | cold => exact hk
  | broken hot =>
    subst ht
    exact Nat.lt_of_le_of_ne hk (ne_of_hot hot hcold)
  | next hot _ _ ih =>
    subst ht
    have hle := ih (Nat.lt_of_le_of_ne hk (ne_of_hot hot hcold)) rfl
    rwa [List.length_cons, Nat.add_comm _ 1, ← Nat.add_assoc]

lemma Walk.level_moves_le (n : ℕ) (t : α) (w : Walk α σ) :
    (w.level l c s t n).1.moves ≤ w.moves + n := by
  induction n generalizing w with
  | zero => exact le_rfl
  | succ n ih =>
    unfold Walk.level
    split
    · exact Nat.le_add_right _ _
    · split
      · exact Nat.le_add_right _ _
      · next v hv =>
        have hv' := Walk.move_moves hv
        have hrest := ih v
        omega

lemma Walk.Cools.moves_le (h : Walk.Cools l c s k t w ts w') :
    w'.moves ≤ w.moves + ts.length * s.movesPerLevel := by
  induction h with
  | cold => exact Nat.le_add_right _ _
  | @broken k t w w' hot hw =>
    have hlevel := Walk.level_moves_le (l := l) (c := c) (s := s) s.movesPerLevel t w
    rw [hw] at hlevel
    simpa using hlevel
  | next hot hv _ ih =>
    rw [Walk.level_moves hv] at ih
    rw [List.length_cons, Nat.succ_mul]
    omega

lemma Walk.level_moves_le_max (hmax : 0 < s.maxMoves) (n : ℕ) (t : α) {w : Walk α σ}
    (hw : w.moves ≤ s.maxMoves) : (w.level l c s t n).1.moves ≤ s.maxMoves := by
  induction n generalizing w with
  | zero => exact hw
  | succ n ih =>
    unfold Walk.level
    split
    · exact hw
    · next hgoes =>
      -- the limit is looked at before each move
      have hlt : w.moves < s.maxMoves := by
        by_contra hspent
        exact hgoes (by simp [Walk.ended, hmax, not_lt.mp hspent])
      split
      · exact hw
      · next v hv => exact ih (Walk.move_moves hv ▸ hlt)

lemma Walk.Cools.moves_le_max (hmax : 0 < s.maxMoves) (h : Walk.Cools l c s k t w ts w')
    (hw : w.moves ≤ s.maxMoves) : w'.moves ≤ s.maxMoves := by
  induction h with
  | cold => exact hw
  | @broken k t w w' hot hlevel =>
    have hle := Walk.level_moves_le_max (l := l) (c := c) hmax s.movesPerLevel t hw
    rwa [hlevel] at hle
  | @next k t w v w' ts hot hlevel _ ih =>
    have hle := Walk.level_moves_le_max (l := l) (c := c) hmax s.movesPerLevel t hw
    rw [hlevel] at hle
    exact ih hle

lemma exists_cools (hcold : lt s.final (s.temperatureAt K) = false) (l : Landscape α)
    (c : Chance α σ) (number : ℕ) (r : Record α) : ∃ w ts, restart l c s number r = some w ∧
      Walk.Cools l c s 0 (s.temperatureAt 0) (Walk.start l c number r) ts w := by
  obtain ⟨w, hw⟩ := Walk.cool_of_cold hcold (Nat.zero_le K) (Walk.start l c number r)
  obtain ⟨ts, hts⟩ := Walk.cool_eq_some_iff.mp hw
  exact ⟨w, ts, hw, hts⟩

end AnyScalar

open Extended

lemma cold_iff {s : Schedule ℚ} (hs : s.exact.flaw = none) {k : ℕ} :
    Scalar.lt s.exact.final (s.exact.temperatureAt k) = false ↔ s.lawAt k ≤ s.final := by
  rw [Schedule.temperatureAt_exact hs, ← not_lt]
  exact decide_eq_false_iff_not

/-- The levels of a restart follow the law of their schedule. A linear restart has no more of them than
it was given, one that cools at every move makes no more moves than it takes to come down, and a limit
of the moves holds for each restart. -/
theorem restart_follows_law {σ : Type} (l : Landscape Extended) (c : Chance Extended σ)
    (s : Schedule ℚ) (number : ℕ) (r : Record Extended) (hs : s.exact.flaw = none) :
    (∀ k, s.exact.temperatureAt k = finite (s.lawAt k) ∧ 0 < s.lawAt k) ∧
    ∃ w ts, restart l c s.exact number r = some w ∧
      Walk.Cools l c s.exact 0 s.exact.initial (Walk.start l c number r) ts w ∧
      ts = (List.range ts.length).map (fun k => finite (s.lawAt k)) ∧
      StrictAntiOn s.lawAt (Set.Iic ts.length) ∧
      (s.cooling = .linear → ts.length ≤ s.levels) ∧
      (∀ beta, s.cooling = .lundyMees beta → ∃ k, IsLeast {k | s.lawAt k ≤ s.final} k ∧ w.moves ≤ k) ∧
      (0 < s.maxMoves → w.moves ≤ s.maxMoves) := by
  refine ⟨fun k => ⟨Schedule.temperatureAt_exact hs k, Schedule.lawAt_pos hs k⟩, ?_⟩
  obtain ⟨K, hK⟩ := Schedule.exists_isLeast_cold hs
  obtain ⟨w, ts, hw, hts⟩ := exists_cools ((cold_iff hs).mpr hK.1) l c number r
  have hlength : ∀ k, s.lawAt k ≤ s.final → ts.length ≤ k := fun k hk =>
    (Nat.zero_add _).ge.trans (hts.length_le ((cold_iff hs).mpr hk) (Nat.zero_le k))
  have hlinear : s.cooling = .linear → ts.length ≤ s.levels := fun hc =>
    hlength s.levels (Schedule.lawAt_linear_of_le hc le_rfl).le
  refine ⟨w, ts, hw, hts, ?_, Schedule.lawAt_strictAntiOn hs hlinear, hlinear,
    fun beta hc => ⟨K, hK, ?_⟩, fun hmax => hts.moves_le_max (s := s.exact) hmax (Nat.zero_le s.maxMoves)⟩
  · have hlevels := hts.temperatures_eq
    rw [← List.range_eq_range'] at hlevels
    exact hlevels.trans (List.map_congr_left fun k _ => Schedule.temperatureAt_exact hs k)
  · have hone : s.exact.movesPerLevel = 1 := by
      rw [s.exact_movesPerLevel, Schedule.movesPerLevel, hc]
    calc w.moves ≤ 0 + ts.length * s.exact.movesPerLevel := hts.moves_le
      _ = ts.length := by rw [hone, Nat.mul_one, Nat.zero_add]
      _ ≤ K := hlength K hK.1

def fiveLevels : Schedule ℚ where
  initial := 1
  final := 1 / 100
  cooling := .linear
  perLevel := 10
  maxMoves := 45
  restarts := 2
  seed := 42

lemma fiveLevels_flaw : fiveLevels.exact.flaw = none := by cbv

theorem restart_follows_law_of_fiveLevels : fiveLevels.exact.flaw = none ∧
    fiveLevels.exact.temperatureAt 4 = finite (26 / 125) ∧
    ∃ w ts, restart bothLowLandscape topmost fiveLevels.exact 1 (.initial bothLowLandscape) = some w ∧
      Walk.Cools bothLowLandscape topmost fiveLevels.exact 0 one
        (Walk.start bothLowLandscape topmost 1 (.initial bothLowLandscape)) ts w ∧
      ts.length ≤ 5 ∧ w.moves ≤ 45 := by
  obtain ⟨hlaw, w, ts, hw, hts, -, -, hlinear, -, hmoves⟩ := restart_follows_law bothLowLandscape
    topmost fiveLevels 1 (.initial bothLowLandscape) fiveLevels_flaw
  have hlevels : fiveLevels.levels = 5 := by decide
  have hfourth : fiveLevels.lawAt 4 = 26 / 125 := by
    rw [Schedule.lawAt_linear rfl (by decide), hlevels]
    norm_num [fiveLevels]
  exact ⟨fiveLevels_flaw, hfourth ▸ (hlaw 4).1, w, ts, hw, hts, hlinear rfl, hmoves (by decide)⟩

end QuadraticPenalty.Annealing
