import QuadraticPenalty.Proofs.Annealing.Recomputation
import QuadraticPenalty.Proofs.Annealing.Temperatures

namespace QuadraticPenalty.Annealing

open Scalar

section AnyScalar

variable {α σ : Type} [ExtendedScalar α] {l : Landscape α} {c : Chance α σ} {s : Schedule α}
  {t : α} {n : ℕ} {P : Walk α σ → Prop} {w w' : Walk α σ}

lemma Walk.cool_of_cold {K : ℕ} (hcold : lt s.final (s.temperatureAt K) = false) {k : ℕ} (hk : k ≤ K)
    (w : Walk α σ) : ∃ w', w.cool l c s k (s.temperatureAt k) = some w' := by
  induction hk using Nat.decreasingInduction generalizing w with
  | self =>
    rw [Walk.cool, hcold]
    exact ⟨w, rfl⟩
  | of_succ k hk ih =>
    rw [Walk.cool]
    split
    · split
      · exact ⟨_, rfl⟩
      · exact ih _
    · exact ⟨w, rfl⟩

lemma Walk.move_moves (h : w.move l c t = some w') : w'.moves = w.moves + 1 :=
  (Walk.move_eq_some_iff.mp h).moves_eq

lemma Walk.level_moves (h : w.level l c s t n = (w', true)) : w'.moves = w.moves + n := by
  induction n generalizing w with
  | zero => exact (congrArg (fun v => v.1.moves) h).symm
  | succ n ih =>
    unfold Walk.level at h
    split at h
    · cases h
    · split at h
      · cases h
      · next v hv => rw [ih h, Walk.move_moves hv, Nat.add_right_comm, Nat.add_assoc]

lemma Walk.level_of_spent (hn : 0 < n) (hmax : 0 < s.maxMoves) (hspent : s.maxMoves ≤ w.moves) :
    w.level l c s t n = (w, false) := by
  obtain ⟨m, rfl⟩ := Nat.exists_eq_add_one_of_ne_zero hn.ne'
  have hended : w.ended s = true := by simp [Walk.ended, hmax, hspent]
  rw [Walk.level, if_pos hended]

lemma Walk.cool_of_budget (hmax : 0 < s.maxMoves) (hn : 0 < s.movesPerLevel) (k : ℕ) (t : α)
    (w : Walk α σ) : ∃ w', w.cool l c s k t = some w' := by
  induction hleft : s.maxMoves - w.moves using Nat.strong_induction_on generalizing k t w with
  | _ left ih =>
    rw [Walk.cool]
    split
    · split
      · exact ⟨_, rfl⟩
      · next v hv =>
        have hmoves := Walk.level_moves hv
        by_cases hspent : s.maxMoves ≤ w.moves
        · rw [Walk.level_of_spent hn hmax hspent] at hv
          cases hv
        · exact ih (s.maxMoves - v.moves) (by omega) (k + 1) _ v rfl
    · exact ⟨w, rfl⟩

lemma Walk.cool_eq_none (hhot : ∀ k, lt s.final (s.temperatureAt k) = true)
    (hlevel : ∀ t w, P w → ∃ w', w.level l c s t s.movesPerLevel = (w', true) ∧ P w') (hw : P w) :
    w.cool l c s 0 s.initial = none := by
  rw [Option.eq_none_iff_forall_ne_some]
  intro w' h
  refine Walk.cool.partial_correctness l c s
    (fun k t w _ => t = s.temperatureAt k → P w → False) ?_ 0 s.initial w w' h rfl hw
  rintro cool ih k _ w w' h rfl hw
  obtain ⟨v, hv, hPv⟩ := hlevel (s.temperatureAt k) w hw
  rw [if_pos (hhot k), hv] at h
  exact ih (k + 1) _ v w' h rfl hPv

lemma Walk.level_goes_on (hended : ∀ w, P w → w.ended s = false)
    (hmove : ∀ w, P w → ∃ w', w.move l c t = some w' ∧ P w') (n : ℕ) (hw : P w) :
    ∃ w', w.level l c s t n = (w', true) ∧ P w' := by
  induction n generalizing w with
  | zero => exact ⟨w, rfl, hw⟩
  | succ n ih =>
    obtain ⟨v, hv, hPv⟩ := hmove w hw
    rw [Walk.level, hended w hw, hv]
    exact ih hPv

lemma Walk.exists_move (h : movable l.levels ≠ []) (t : α) (w : Walk α σ) :
    ∃ w', w.move l c t = some w' := by
  obtain ⟨k, ks, hk⟩ := List.exists_cons_of_ne_nil h
  rw [Walk.move, propose, hk]
  dsimp only
  split
  · exact ⟨_, rfl⟩
  · split <;> exact ⟨_, rfl⟩

end AnyScalar

open Extended

variable {σ : Type} {l : Landscape Extended} {c : Chance Extended σ} {s : Schedule Extended}
  {past : List (List ℕ)} {w : Walk Extended σ}

lemma Record.Leads.fails {r : Record Extended} (h : r.Leads l past)
    (hinvalid : ∀ d, Grid.IsPoint l.levels d → (l.qualityAt d).isValid = false) :
    r.succeeded = false := by
  rw [Record.succeeded, h.cost]
  exact hinvalid _ (h.points _ h.best)

lemma Walk.Sound.not_ended (h : w.Sound l past)
    (hinvalid : ∀ d, Grid.IsPoint l.levels d → (l.qualityAt d).isValid = false)
    (hmax : s.maxMoves = 0) : w.ended s = false := by
  simp [Walk.ended, h.record.fails hinvalid, hmax]

lemma Walk.Sound.endless (hl : l.Exact) (h : w.Sound l past) (hmovable : movable l.levels ≠ [])
    (hinvalid : ∀ d, Grid.IsPoint l.levels d → (l.qualityAt d).isValid = false)
    (hhot : ∀ k, Scalar.lt s.final (s.temperatureAt k) = true)
    (hlimit : s.maxMoves = 0 ∨ s.movesPerLevel = 0) : w.cool l c s 0 s.initial = none := by
  rcases hlimit with hmax | hmoves
  · refine Walk.cool_eq_none (P := fun w => ∃ past, w.Sound l past) hhot
      (fun t w hw => Walk.level_goes_on ?_ ?_ _ hw) ⟨past, h⟩
    · rintro w ⟨past, hw⟩
      exact hw.not_ended hinvalid hmax
    · rintro w ⟨past, hw⟩
      obtain ⟨w', hw'⟩ := Walk.exists_move hmovable t w
      exact ⟨w', hw', _, hw.move hl hw'⟩
  · exact Walk.cool_eq_none (P := fun _ => True) hhot
      (fun t w _ => ⟨w, by rw [hmoves, Walk.level], trivial⟩) trivial

/-- One value for two bits: without biases of their own they cannot be told from the other value. -/
def bothLow : Request Extended := { Grid.equalBits with feasible := ⟨[[0, 0]], by decide⟩ }

def bothLowLandscape : Landscape Extended := .ofWellFormed Grid.coarse bothLow

lemma bothLow_wellFormed : bothLow.WellFormed where
  nodes := Grid.equalBits_wellFormed.nodes
  edges := Grid.equalBits_wellFormed.edges
  nodup := Grid.equalBits_wellFormed.nodup
  decision := Grid.equalBits_wellFormed.decision
  nonempty := by decide
  tuples d hd := by
    obtain rfl : d = [0, 0] := List.mem_singleton.mp hd
    exact ⟨rfl, by decide⟩

lemma bothLow_levels : bothLowLandscape.levels = [1, 1, 3] := Grid.coarse_levels_of_graph rfl

lemma bothLow_exact : bothLowLandscape.Exact := by
  refine Landscape.exact_ofWellFormed Grid.coarse_flaw bothLow_wellFormed rfl ?_
  rw [← bothLowLandscape, bothLow_levels]
  decide

lemma bothLow_invalid (d : List ℕ) (hd : Grid.IsPoint bothLowLandscape.levels d) :
    (bothLowLandscape.qualityAt d).isValid = false := by
  have hpoints : Grid.points [1, 1, 3] = [[0, 0, 0], [0, 0, 1], [0, 0, 2]] := by decide
  rw [bothLow_levels, ← Grid.mem_points, hpoints] at hd
  simp only [List.mem_cons, List.not_mem_nil, or_false] at hd
  simp only [bothLowLandscape, Landscape.ofWellFormed, Grid.coarse_levels]
  rcases hd with rfl | rfl | rfl <;> cbv

lemma bothLow_endless (c : Chance Extended σ) (number : ℕ)
    (hhot : ∀ k, Scalar.lt s.final (s.temperatureAt k) = true)
    (hlimit : s.maxMoves = 0 ∨ s.movesPerLevel = 0) :
    (Walk.start bothLowLandscape c number (.initial bothLowLandscape)).cool bothLowLandscape c s 0
      s.initial = none := by
  have hstart := Walk.Sound.start (c := c) bothLow_exact number
    (.inl ⟨rfl, rfl⟩ : (Record.initial bothLowLandscape).Ready bothLowLandscape []) le_rfl le_rfl
  have hmovable : movable bothLowLandscape.levels ≠ [] := by
    rw [bothLow_levels]
    decide
  exact hstart.endless bothLow_exact hmovable bothLow_invalid hhot hlimit

/-- The temperature of a valid schedule comes down unless it is an infinite one that is multiplied. Then
only a limit of the moves makes every restart end. -/
theorem restarts_end_iff (s : Schedule Extended) (hs : s.flaw = none) :
    ((∃ k, Scalar.lt s.final (s.temperatureAt k) = false) ↔ ¬ s.ScalesInfinity) ∧
    ((∀ (σ : Type) (l : Landscape Extended) (c : Chance Extended σ) (number : ℕ) (r : Record Extended),
        ∃ w, (Walk.start l c number r).cool l c s 0 s.initial = some w) ↔
      ¬ s.ScalesInfinity ∨ 0 < s.maxMoves ∧ 0 < s.movesPerLevel) := by
  refine ⟨⟨?_, Schedule.exists_cold hs⟩, ?_, ?_⟩
  · rintro ⟨k, hcold⟩ hinfinity
    exact Bool.false_ne_true (hcold.symm.trans (hinfinity.hot hs k))
  · intro hends
    by_contra hnot
    obtain ⟨hinfinity, hlimit⟩ := not_or.mp hnot
    obtain ⟨w, hw⟩ := hends Unit bothLowLandscape topmost 0 (.initial bothLowLandscape)
    rw [bothLow_endless topmost 0 ((not_not.mp hinfinity).hot hs) (by omega)] at hw
    cases hw
  · rintro (hfinite | ⟨hmax, hn⟩) σ l c number r
    · obtain ⟨K, hcold⟩ := Schedule.exists_cold hs hfinite
      exact Walk.cool_of_cold hcold (Nat.zero_le K) _
    · exact Walk.cool_of_budget hmax hn 0 s.initial _

theorem restarts_end_of_default : (.default : Schedule Extended).flaw = none ∧
    (∃ k, Scalar.lt Schedule.default.final ((.default : Schedule Extended).temperatureAt k) = false) ∧
    ∃ w, (Walk.start bothLowLandscape topmost 0 (.initial bothLowLandscape)).cool bothLowLandscape
      topmost .default 0 one = some w := by
  have hflaw : (.default : Schedule Extended).flaw = none := by cbv
  have hfinite : ¬ (.default : Schedule Extended).ScalesInfinity := fun h => by cases h.1
  obtain ⟨hcold, hends⟩ := restarts_end_iff .default hflaw
  exact ⟨hflaw, hcold.mpr hfinite, hends.mpr (.inl hfinite) Unit _ topmost 0 _⟩

def boundless : Schedule Extended := { Schedule.default with initial := infinity }

theorem boundless_never_ends : boundless.flaw = none ∧
    (∀ k, Scalar.lt boundless.final (boundless.temperatureAt k) = true) ∧
    ∀ (σ : Type) (c : Chance Extended σ) (number : ℕ),
      (Walk.start bothLowLandscape c number (.initial bothLowLandscape)).cool bothLowLandscape c
        boundless 0 boundless.initial = none := by
  have hflaw : boundless.flaw = none := by cbv
  have hinfinity : boundless.ScalesInfinity := ⟨rfl, ⟨_, rfl⟩, _, rfl⟩
  exact ⟨hflaw, hinfinity.hot hflaw,
    fun σ c number => bothLow_endless c number (hinfinity.hot hflaw) (.inl rfl)⟩

end QuadraticPenalty.Annealing
