import QuadraticPenalty.Order.Basic

/-!
Finite sets, held as the increasing list of their members, so that two sets with the same members
are equal.
-/

namespace QuadraticPenalty

open Ordered

@[ext]
structure SortedSet (κ : Type) [Ordered κ] where
  toList : List κ
  increasing : toList.Pairwise (fun a b => before a b = true)

namespace SortedSet

variable {κ : Type} [Ordered κ]

instance [DecidableEq κ] : DecidableEq (SortedSet κ) := fun a b =>
  if h : a.toList = b.toList then .isTrue (SortedSet.ext h)
  else .isFalse fun e => h (congrArg toList e)

def empty : SortedSet κ := ⟨[], .nil⟩

def size (s : SortedSet κ) : Nat := s.toList.length

def isEmpty (s : SortedSet κ) : Bool := s.toList.isEmpty

instance : Membership κ (SortedSet κ) := ⟨fun s a => a ∈ s.toList⟩

theorem mem_def {a : κ} {s : SortedSet κ} : a ∈ s ↔ a ∈ s.toList := Iff.rfl

instance [DecidableEq κ] (a : κ) (s : SortedSet κ) : Decidable (a ∈ s) :=
  inferInstanceAs (Decidable (a ∈ s.toList))

def dropRepeats (as : List κ) : List κ :=
  as.foldr (fun a kept =>
    match kept with
    | [] => [a]
    | b :: bs => if before a b then a :: b :: bs else b :: bs) []

theorem mem_dropRepeats {a : κ} {as : List κ}
    (h : as.Pairwise (fun a b => before b a = false)) : a ∈ dropRepeats as ↔ a ∈ as := by
  induction as generalizing a with
  | nil => simp [dropRepeats]
  | cons b as ih =>
    rw [List.pairwise_cons] at h
    have ih : ∀ x, x ∈ dropRepeats as ↔ x ∈ as := fun x => ih h.2
    rw [dropRepeats, List.foldr_cons, ← dropRepeats]
    split
    · next hd => simp [← ih, hd]
    · next c cs hd =>
      rw [hd] at ih
      have hc : before c b = false := h.1 c ((ih c).1 (by simp))
      split
      · rw [List.mem_cons, ih, List.mem_cons]
      · next hb =>
        obtain rfl : b = c := before_connected (by simpa using hb) hc
        rw [ih, List.mem_cons]
        exact ⟨.inr, fun m => m.elim (fun e => (ih a).1 (by simp [e])) id⟩

theorem dropRepeats_increasing {as : List κ}
    (h : as.Pairwise (fun a b => before b a = false)) :
    (dropRepeats as).Pairwise (fun a b => before a b = true) := by
  induction as with
  | nil => exact .nil
  | cons b as ih =>
    rw [List.pairwise_cons] at h
    have ih := ih h.2
    rw [dropRepeats, List.foldr_cons, ← dropRepeats]
    split
    · simp
    · next c cs hd =>
      rw [hd] at ih
      split
      · next hb =>
        refine .cons (fun x hx => ?_) ih
        rcases List.mem_cons.1 hx with rfl | hx
        · exact hb
        · exact before_trans hb (List.rel_of_pairwise_cons ih hx)
      · exact ih

def notAfter (a b : κ) : Bool := !before b a

theorem mergeSort_notAfter (as : List κ) :
    (as.mergeSort notAfter).Pairwise (fun a b => before b a = false) := by
  have h := @List.pairwise_mergeSort κ notAfter ?_ ?_ as
  · simpa [notAfter] using h
  · intro a b c hab hbc
    simp only [notAfter, Bool.not_eq_true'] at hab hbc ⊢
    cases hca : before c a with
    | false => rfl
    | true =>
      cases hbc' : before b c with
      | true => exact (before_trans hbc' hca).symm.trans hab
      | false => exact hca.symm.trans (before_connected hbc' hbc ▸ hab)
  · intro a b
    cases hab : before a b with
    | false => simp [notAfter, hab]
    | true => simp [notAfter, before_asymm hab]

def ofList (as : List κ) : SortedSet κ :=
  ⟨dropRepeats (as.mergeSort notAfter), dropRepeats_increasing (mergeSort_notAfter as)⟩

@[simp]
theorem mem_ofList {a : κ} {as : List κ} : a ∈ ofList as ↔ a ∈ as := by
  simp [mem_def, ofList, mem_dropRepeats (mergeSort_notAfter as), List.mem_mergeSort]

def filter (p : κ → Bool) (s : SortedSet κ) : SortedSet κ :=
  ⟨s.toList.filter p, s.increasing.filter p⟩

@[simp]
theorem mem_filter {a : κ} {p : κ → Bool} {s : SortedSet κ} :
    a ∈ s.filter p ↔ a ∈ s ∧ p a = true := by
  simp [mem_def, filter]

def map {ι : Type} [Ordered ι] (f : κ → ι) (s : SortedSet κ) : SortedSet ι :=
  ofList (s.toList.map f)

@[simp]
theorem mem_map {ι : Type} [Ordered ι] {f : κ → ι} {s : SortedSet κ} {b : ι} :
    b ∈ s.map f ↔ ∃ a ∈ s, f a = b := by
  simp [map, mem_def (s := s)]

theorem eq_of_increasing {as bs : List κ} (ha : as.Pairwise (fun a b => before a b = true))
    (hb : bs.Pairwise (fun a b => before a b = true)) (h : ∀ x, x ∈ as ↔ x ∈ bs) : as = bs := by
  induction as generalizing bs with
  | nil =>
    match bs with
    | [] => rfl
    | b :: _ => simpa using h b
  | cons a as ih =>
    match bs with
    | [] => simpa using h a
    | b :: bs =>
      rw [List.pairwise_cons] at ha hb
      obtain rfl : a = b := by
        rcases List.mem_cons.1 ((h a).1 (by simp)) with e | m
        · exact e
        · rcases List.mem_cons.1 ((h b).2 (by simp)) with e | n
          · exact e.symm
          · exact absurd (before_asymm (hb.1 a m)) (by simp [ha.1 b n])
      congr 1
      refine ih ha.2 hb.2 fun x => ⟨fun m => ?_, fun m => ?_⟩
      · exact ((List.mem_cons.1 ((h x).1 (by simp [m]))).resolve_left
          (ne_of_before (ha.1 x m)).symm)
      · exact ((List.mem_cons.1 ((h x).2 (by simp [m]))).resolve_left
          (ne_of_before (hb.1 x m)).symm)

theorem ext_mem {s t : SortedSet κ} (h : ∀ a, a ∈ s ↔ a ∈ t) : s = t :=
  SortedSet.ext (eq_of_increasing s.increasing t.increasing h)

end SortedSet

end QuadraticPenalty
