import QuadraticPenalty.Order.Basic

/-!
Finite maps, held as the list of their entries by increasing key, so that two maps with the same
value at every key are equal.
-/

namespace QuadraticPenalty

open Ordered

@[ext]
structure SortedMap (κ β : Type) [Ordered κ] where
  entries : List (κ × β)
  increasing : entries.Pairwise (fun a b => before a.1 b.1 = true)

namespace SortedMap

variable {κ β γ : Type} [Ordered κ]

instance [DecidableEq κ] [DecidableEq β] : DecidableEq (SortedMap κ β) := fun a b =>
  if h : a.entries = b.entries then .isTrue (SortedMap.ext h)
  else .isFalse fun e => h (congrArg entries e)

def empty : SortedMap κ β := ⟨[], .nil⟩

def size (m : SortedMap κ β) : Nat := m.entries.length

def keys (m : SortedMap κ β) : List κ := m.entries.map Prod.fst

def findIn (k : κ) : List (κ × β) → Option β
  | [] => none
  | (i, x) :: es => if before i k then findIn k es else if before k i then none else some x

def find? (m : SortedMap κ β) (k : κ) : Option β := findIn k m.entries

def contains (m : SortedMap κ β) (k : κ) : Bool := (m.find? k).isSome

def updateIn (k : κ) (f : Option β → β) : List (κ × β) → List (κ × β)
  | [] => [(k, f none)]
  | (i, x) :: es =>
    if before i k then (i, x) :: updateIn k f es
    else if before k i then (k, f none) :: (i, x) :: es
    else (k, f (some x)) :: es

theorem key_of_mem_updateIn {k : κ} {f : Option β → β} {es : List (κ × β)} {e : κ × β}
    (h : e ∈ updateIn k f es) : e.1 = k ∨ e ∈ es := by
  induction es with
  | nil => simp_all [updateIn]
  | cons c es ih => grind [updateIn]

theorem updateIn_increasing (k : κ) (f : Option β → β) {es : List (κ × β)}
    (h : es.Pairwise (fun a b => before a.1 b.1 = true)) :
    (updateIn k f es).Pairwise (fun a b => before a.1 b.1 = true) := by
  induction es with
  | nil => simp [updateIn]
  | cons c es ih =>
    obtain ⟨i, x⟩ := c
    have ht := List.pairwise_cons.1 h
    simp only [updateIn]
    split
    · next hik =>
      refine .cons (fun e he => ?_) (ih ht.2)
      rcases key_of_mem_updateIn he with hk | he
      · exact hk ▸ hik
      · exact ht.1 e he
    · next hik =>
      split
      · next hki =>
        refine .cons (fun e he => ?_) h
        rcases List.mem_cons.1 he with rfl | he
        · exact hki
        · exact before_trans hki (ht.1 e he)
      · next hki =>
        obtain rfl : i = k := before_connected (by simpa using hik) (by simpa using hki)
        exact .cons ht.1 ht.2

def update (m : SortedMap κ β) (k : κ) (f : Option β → β) : SortedMap κ β :=
  ⟨updateIn k f m.entries, updateIn_increasing k f m.increasing⟩

def erase [DecidableEq κ] (m : SortedMap κ β) (k : κ) : SortedMap κ β :=
  ⟨m.entries.filter (fun e => !decide (e.1 = k)), m.increasing.filter _⟩

def map (f : κ → β → γ) (m : SortedMap κ β) : SortedMap κ γ :=
  ⟨m.entries.map fun e => (e.1, f e.1 e.2), by
    simpa [List.pairwise_map] using m.increasing⟩

def ofEntries (es : List (κ × β)) : SortedMap κ β :=
  es.foldl (fun m e => m.update e.1 fun _ => e.2) empty

theorem find?_empty (k : κ) : (empty : SortedMap κ β).find? k = none := rfl

theorem findIn_updateIn_self (k : κ) (f : Option β → β) (es : List (κ × β)) :
    findIn k (updateIn k f es) = some (f (findIn k es)) := by
  induction es with
  | nil => simp [findIn, updateIn, before_irrefl]
  | cons c es ih => grind [findIn, updateIn, before_irrefl]

theorem findIn_updateIn_ne {k l : κ} (f : Option β → β) (es : List (κ × β)) (h : l ≠ k) :
    findIn l (updateIn k f es) = findIn l es := by
  have hkl : before k l = true ∨ before l k = true := by
    cases hk : before k l with
    | true => exact .inl rfl
    | false =>
      cases hl : before l k with
      | true => exact .inr rfl
      | false => exact absurd (before_connected hl hk) h
  induction es with
  | nil => rcases hkl with hkl | hkl <;> simp [findIn, updateIn, hkl, before_asymm hkl]
  | cons c es ih =>
    obtain ⟨i, x⟩ := c
    simp only [updateIn]
    split
    · simp only [findIn, ih]
    · next hik =>
      split
      · next hki =>
        rcases hkl with hkl | hkl
        · rw [findIn]
          simp [hkl]
        · simp [findIn, hkl, before_asymm hkl, before_trans hkl hki,
            before_asymm (before_trans hkl hki)]
      · next hki =>
        obtain rfl : i = k := before_connected (by simpa using hik) (by simpa using hki)
        simp only [findIn]
        rcases hkl with hkl | hkl <;> simp [hkl, before_asymm hkl]

@[simp]
theorem find?_update_self (m : SortedMap κ β) (k : κ) (f : Option β → β) :
    (m.update k f).find? k = some (f (m.find? k)) :=
  findIn_updateIn_self k f m.entries

theorem find?_update_ne (m : SortedMap κ β) {k l : κ} (f : Option β → β) (h : l ≠ k) :
    (m.update k f).find? l = m.find? l :=
  findIn_updateIn_ne f m.entries h

end SortedMap

end QuadraticPenalty
