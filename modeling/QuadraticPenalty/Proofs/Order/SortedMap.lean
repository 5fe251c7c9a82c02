import Mathlib
import QuadraticPenalty.Order.SortedMap
import QuadraticPenalty.Order.SortedSet

namespace QuadraticPenalty.SortedMap

open Ordered

variable {κ β γ : Type} [Ordered κ]

lemma findIn_eq_some_iff {k : κ} {x : β} {es : List (κ × β)}
    (h : es.Pairwise fun a b => before a.1 b.1 = true) :
    findIn k es = some x ↔ (k, x) ∈ es := by
  induction es with
  | nil => simp [findIn]
  | cons e es ih =>
    obtain ⟨i, y⟩ := e
    have ht := List.pairwise_cons.mp h
    simp only [findIn, List.mem_cons, Prod.mk.injEq]
    split
    · next hik =>
      rw [ih ht.2]
      exact ⟨Or.inr, fun hm => hm.resolve_left fun he => ne_of_before hik he.1.symm⟩
    · next hik =>
      have hnot : before k i = true → (k, x) ∉ es := fun hki hm => by
        simp [before_asymm (ht.1 _ hm)] at hki
      split
      · next hki =>
        have hne : k ≠ i := ne_of_before hki
        simp [hne, hnot hki]
      · next hki =>
        obtain rfl : i = k := before_connected (by simpa using hik) (by simpa using hki)
        have hself : (i, x) ∉ es := fun hm => by simpa [before_irrefl] using ht.1 _ hm
        simp [hself, eq_comm]

lemma find?_eq_some_iff {m : SortedMap κ β} {k : κ} {x : β} :
    m.find? k = some x ↔ (k, x) ∈ m.entries :=
  findIn_eq_some_iff m.increasing

lemma mem_keys_iff {m : SortedMap κ β} {k : κ} : k ∈ m.keys ↔ ∃ x, m.find? k = some x := by
  simp [keys, find?_eq_some_iff]

lemma find?_eq_none {m : SortedMap κ β} {k : κ} (h : k ∉ m.keys) : m.find? k = none :=
  Option.eq_none_iff_forall_ne_some.mpr fun x hx => h (mem_keys_iff.mpr ⟨x, hx⟩)

@[simp] lemma contains_iff {m : SortedMap κ β} {k : κ} : m.contains k = true ↔ k ∈ m.keys := by
  rw [contains, Option.isSome_iff_exists, mem_keys_iff]

lemma keys_nodup (m : SortedMap κ β) : m.keys.Nodup := by
  rw [keys, List.Nodup, List.pairwise_map]
  exact m.increasing.imp fun h => ne_of_before h

@[simp] lemma keys_length (m : SortedMap κ β) : m.keys.length = m.size := by simp [keys, size]

@[simp] lemma keys_empty : (empty : SortedMap κ β).keys = [] := rfl

lemma mem_keys_update {m : SortedMap κ β} {k l : κ} {f : Option β → β} :
    l ∈ (m.update k f).keys ↔ l = k ∨ l ∈ m.keys := by
  by_cases h : l = k
  · subst h
    simp [mem_keys_iff]
  · simp [mem_keys_iff, find?_update_ne m f h, h]

@[simp] lemma keys_map (f : κ → β → γ) (m : SortedMap κ β) : (m.map f).keys = m.keys := by
  simp [keys, map, Function.comp_def]

lemma keys_congr {m : SortedMap κ β} {n : SortedMap κ γ} (h : ∀ k, k ∈ m.keys ↔ k ∈ n.keys) :
    m.keys = n.keys := by
  refine SortedSet.eq_of_increasing ?_ ?_ h
  · simpa [keys, List.pairwise_map] using m.increasing
  · simpa [keys, List.pairwise_map] using n.increasing

lemma find?_erase_self [DecidableEq κ] (m : SortedMap κ β) (k : κ) : (m.erase k).find? k = none := by
  apply Option.eq_none_iff_forall_ne_some.mpr
  intro x hx
  simp [find?_eq_some_iff, erase] at hx

lemma find?_erase_ne [DecidableEq κ] (m : SortedMap κ β) {k l : κ} (h : l ≠ k) :
    (m.erase k).find? l = m.find? l := by
  apply Option.ext
  intro x
  simp [find?_eq_some_iff, erase, h]

lemma mem_keys_erase [DecidableEq κ] {m : SortedMap κ β} {k l : κ} :
    l ∈ (m.erase k).keys ↔ l ≠ k ∧ l ∈ m.keys := by
  by_cases h : l = k
  · subst h
    simp [mem_keys_iff, find?_erase_self]
  · simp [mem_keys_iff, find?_erase_ne m h, h]

lemma map_update (g : κ → β → γ) (m : SortedMap κ β) (k : κ) (f : Option β → β)
    (h : Option γ → γ) (hg : ∀ old, g k (f old) = h (old.map (g k))) :
    (m.update k f).map g = (m.map g).update k h := by
  obtain ⟨es, hes⟩ := m
  apply SortedMap.ext
  simp only [map, update]
  clear hes
  induction es with
  | nil => simp [updateIn, hg]
  | cons e es ih =>
    obtain ⟨i, x⟩ := e
    simp only [updateIn, List.map_cons]
    split
    · simp [ih]
    · next hik =>
      split
      · simp [hg]
      · next hki =>
        obtain rfl : i = k := before_connected (by simpa using hik) (by simpa using hki)
        simp [hg]

def total (w : κ → ℚ) (m : SortedMap κ ℚ) : ℚ := (m.entries.map fun e => e.2 * w e.1).sum

@[simp] lemma total_empty (w : κ → ℚ) : (empty : SortedMap κ ℚ).total w = 0 := rfl

lemma total_update (w : κ → ℚ) (m : SortedMap κ ℚ) (k : κ) (a : ℚ) :
    (m.update k fun old => old.getD 0 + a).total w = m.total w + a * w k := by
  obtain ⟨es, hes⟩ := m
  simp only [total, update]
  clear hes
  induction es with
  | nil => simp [updateIn]
  | cons e es ih =>
    obtain ⟨i, x⟩ := e
    simp only [updateIn]
    split
    · simp only [List.map_cons, List.sum_cons, ih]
      ring
    · next hik =>
      split
      · simp [add_comm]
      · next hki =>
        obtain rfl : i = k := before_connected (by simpa using hik) (by simpa using hki)
        simp only [List.map_cons, List.sum_cons, Option.getD_some]
        ring

lemma total_congr {w z : κ → ℚ} {m : SortedMap κ ℚ} (h : ∀ k ∈ m.keys, w k = z k) :
    m.total w = m.total z := by
  refine congrArg List.sum (List.map_congr_left fun e he => ?_)
  rw [h e.1 (List.mem_map_of_mem he)]

lemma ext_find? {m n : SortedMap κ β} (h : ∀ k, m.find? k = n.find? k) : m = n := by
  apply SortedMap.ext
  have hnodup : ∀ q : SortedMap κ β, q.entries.Nodup := fun q => .of_map Prod.fst q.keys_nodup
  have hperm : m.entries.Perm n.entries := by
    refine (List.perm_ext_iff_of_nodup (hnodup m) (hnodup n)).mpr fun ⟨k, x⟩ => ?_
    rw [← find?_eq_some_iff, ← find?_eq_some_iff, h]
  refine hperm.eq_of_pairwise (fun a b _ _ hab hba => ?_) m.increasing n.increasing
  rw [before_asymm hab] at hba
  cases hba

lemma update_update (m : SortedMap κ β) (k : κ) (f g : Option β → β) :
    (m.update k f).update k g = m.update k fun old => g (some (f old)) := by
  apply ext_find?
  intro i
  by_cases hi : i = k
  · subst hi
    simp only [find?_update_self]
  · simp only [find?_update_ne _ _ hi]

lemma update_comm (m : SortedMap κ β) {k l : κ} (h : k ≠ l) (f g : Option β → β) :
    (m.update k f).update l g = (m.update l g).update k f := by
  apply ext_find?
  intro i
  by_cases hk : i = k
  · subst hk
    simp only [find?_update_ne _ _ h, find?_update_self]
  · by_cases hl : i = l
    · subst hl
      simp only [find?_update_ne _ _ hk, find?_update_self]
    · simp only [find?_update_ne _ _ hk, find?_update_ne _ _ hl]

lemma ext_getD {m n : SortedMap κ ℚ} (hk : ∀ k, k ∈ m.keys ↔ k ∈ n.keys)
    (h : ∀ k ∈ m.keys, (m.find? k).getD 0 = (n.find? k).getD 0) : m = n := by
  apply ext_find?
  intro k
  by_cases hm : k ∈ m.keys
  · have hvalue := h k hm
    obtain ⟨x, hx⟩ := mem_keys_iff.mp hm
    obtain ⟨y, hy⟩ := mem_keys_iff.mp ((hk k).mp hm)
    rw [hx, hy] at hvalue ⊢
    exact congrArg some hvalue
  · rw [find?_eq_none hm, find?_eq_none (mt (hk k).mpr hm)]

lemma total_eq_zero {w : κ → ℚ} {m : SortedMap κ ℚ} (h : ∀ k ∈ m.keys, w k = 0) : m.total w = 0 := by
  rw [total_congr h]
  simp [total]

lemma total_add (w z : κ → ℚ) (m : SortedMap κ ℚ) : m.total (w + z) = m.total w + m.total z := by
  simp [total, mul_add, List.sum_map_add]

lemma total_single [DecidableEq κ] (m : SortedMap κ ℚ) (k : κ) :
    m.total (Pi.single k 1) = (m.find? k).getD 0 := by
  have hout : ∀ q : SortedMap κ ℚ, k ∉ q.keys → q.total (Pi.single k 1) = 0 := fun q hq =>
    total_eq_zero fun l hl => Pi.single_eq_of_ne (ne_of_mem_of_not_mem hl hq) 1
  cases hx : m.find? k with
  | none =>
    refine hout m fun hk => ?_
    obtain ⟨x, hy⟩ := mem_keys_iff.mp hk
    cases hx.symm.trans hy
  | some x =>
    have hm : (m.erase k).update k (fun old => old.getD 0 + x) = m := by
      apply ext_find?
      intro l
      by_cases hl : l = k
      · subst hl
        simp [find?_erase_self, hx]
      · rw [find?_update_ne _ _ hl, find?_erase_ne m hl]
    rw [← hm, total_update, hout _ fun hk => (mem_keys_erase.mp hk).1 rfl]
    simp

end QuadraticPenalty.SortedMap
