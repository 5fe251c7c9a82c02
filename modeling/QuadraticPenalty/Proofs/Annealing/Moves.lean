import Mathlib
import QuadraticPenalty.Annealing.Walk
import QuadraticPenalty.Proofs.Grid.Points

namespace QuadraticPenalty.Annealing

open Scalar

section Proposals

variable {σ : Type} {d : Dice σ} {levels digits : List ℕ} {state next : σ} {top digit k : ℕ}

lemma neighbour_le (htop : 0 < top) (h : digit ≤ top) : (neighbour d top digit state).1 ≤ top := by
  unfold neighbour
  split
  · exact htop
  · split
    · exact Nat.sub_le top 1
    · next hne =>
      dsimp only
      split
      · exact Nat.lt_of_le_of_ne h hne
      · exact (Nat.sub_le digit 1).trans h

lemma mem_movable : k ∈ movable levels ↔ k < levels.length ∧ 1 < levels.getD k 0 := by
  simp [movable]

lemma getD_lt (h : Grid.IsPoint levels digits) (hk : k < levels.length) :
    digits.getD k 0 < levels.getD k 0 := by
  have hdigits : k < digits.length := h.length_eq ▸ hk
  rw [List.getD_eq_getElem _ _ hk, List.getD_eq_getElem _ _ hdigits]
  exact List.Forall₂.get h hdigits hk

lemma propose_eq_some (hpoint : Grid.IsPoint levels digits)
    (h : propose d levels digits state = some (k, digit, next)) :
    k < levels.length ∧ digit < levels.getD k 0 := by
  unfold propose at h
  split at h
  · cases h
  · next l ls hmovable =>
    simp only [Option.some.injEq, Prod.mk.injEq] at h
    obtain ⟨hk, hdigit, -⟩ := h
    have hmem : k ∈ movable levels := by
      rw [hmovable, ← hk]
      exact List.getElem_mem _
    rw [hk] at hdigit
    obtain ⟨hlt, hchoice⟩ := mem_movable.mp hmem
    have hle : digits.getD k 0 ≤ levels.getD k 0 - 1 := Nat.le_sub_one_of_lt (getD_lt hpoint hlt)
    have hnext : (neighbour d (levels.getD k 0 - 1) (digits.getD k 0) (d.upTo ls.length state).2).1 ≤
        levels.getD k 0 - 1 := neighbour_le (Nat.sub_pos_of_lt hchoice) hle
    rw [hdigit] at hnext
    exact ⟨hlt, by omega⟩

lemma isPoint_set (h : Grid.IsPoint levels digits) (hk : digit < levels.getD k 0) :
    Grid.IsPoint levels (digits.set k digit) := by
  induction h generalizing k with
  | nil => exact .nil
  | cons hd hs ih =>
    cases k with
    | zero => exact .cons hk hs
    | succ k => exact .cons hd (ih hk)

lemma drawDigits_isPoint (d : Dice σ) (state : σ) (h : ∀ n ∈ levels, 0 < n) :
    Grid.IsPoint levels (drawDigits d levels state).1 := by
  induction levels generalizing state with
  | nil => exact .nil
  | cons n levels ih =>
    obtain ⟨hn, hlevels⟩ := List.forall_mem_cons.mp h
    have hlt := (d.upTo (n - 1) state).1.isLt
    exact .cons (by omega) (ih _ hlevels)

end Proposals

variable {α σ : Type} [ExtendedScalar α] {l : Landscape α} {c : Chance α σ} {t : α}
  {w w' : Walk α σ}

def Walk.shifted (w : Walk α σ) (l : Landscape α) (k digit : ℕ) : List α :=
  l.shift k ((ofInt digit - ofInt (w.digits.getD k 0)) * l.step) w.energies

def Walk.reject (w : Walk α σ) (l : Landscape α) (k digit : ℕ) (chance : σ) : Walk α σ :=
  { w with
    energies := l.shift k (-((ofInt digit - ofInt (w.digits.getD k 0)) * l.step))
      (w.shifted l k digit)
    moves := w.moves + 1
    chance := chance }

def Walk.costAt (w : Walk α σ) (l : Landscape α) (k digit : ℕ) : α := (l.quality (w.shifted l k digit)).cost

/-- A proposal is judged: the walk falls to it, climbs to it by chance, or stays. -/
inductive Walk.Tries (l : Landscape α) (c : Chance α σ) (t : α) (w : Walk α σ) : Walk α σ → Prop
  | falls {k digit : ℕ} {next : σ} :
      propose c.toDice l.levels w.digits w.chance = some (k, digit, next) →
      lt (w.costAt l k digit - w.cost) zero = true →
      Tries l c t w (w.improve.settle k digit (w.shifted l k digit) (w.costAt l k digit) next)
  | climbs {k digit : ℕ} {next state : σ} :
      propose c.toDice l.levels w.digits w.chance = some (k, digit, next) →
      lt (w.costAt l k digit - w.cost) zero = false →
      c.climbs (w.costAt l k digit - w.cost) t next = (true, state) →
      Tries l c t w (w.settle k digit (w.shifted l k digit) (w.costAt l k digit) state)
  | stays {k digit : ℕ} {next state : σ} :
      propose c.toDice l.levels w.digits w.chance = some (k, digit, next) →
      lt (w.costAt l k digit - w.cost) zero = false →
      c.climbs (w.costAt l k digit - w.cost) t next = (false, state) →
      Tries l c t w (w.reject l k digit state)

lemma Walk.move_eq_some_iff : w.move l c t = some w' ↔ w.Tries l c t w' := by
  constructor
  · intro h
    unfold Walk.move at h
    split at h
    · cases h
    · next k digit next hpropose =>
      dsimp only at h
      split at h
      · next hfalls =>
        cases h
        exact .falls hpropose hfalls
      · next hrises =>
        split at h
        · next hclimbs =>
          cases h
          exact .climbs hpropose (Bool.eq_false_iff.mpr hrises) (Prod.ext hclimbs rfl)
        · next hstays =>
          cases h
          exact .stays hpropose (Bool.eq_false_iff.mpr hrises) (Prod.ext (Bool.eq_false_iff.mpr hstays) rfl)
  · intro h
    cases h with
    | falls hpropose hfalls =>
      rw [Walk.move, hpropose]
      exact if_pos hfalls
    | climbs hpropose hrises hchance =>
      rw [Walk.move, hpropose]
      refine (if_neg (Bool.eq_false_iff.mp hrises)).trans ?_
      rw [← Walk.shifted, ← Walk.costAt, hchance]
      rfl
    | stays hpropose hrises hchance =>
      rw [Walk.move, hpropose]
      refine (if_neg (Bool.eq_false_iff.mp hrises)).trans ?_
      rw [← Walk.shifted, ← Walk.costAt, hchance]
      rfl

end QuadraticPenalty.Annealing
