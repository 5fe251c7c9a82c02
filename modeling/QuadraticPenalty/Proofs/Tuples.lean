import Mathlib
import QuadraticPenalty.Vartype

namespace QuadraticPenalty.Vartype

variable {t : Vartype} {n : ℕ} {x : List ℤ}

lemma low_ne_high (t : Vartype) : t.low ≠ t.high := by cases t <;> decide

@[simp] lemma mem_values {y : ℤ} : y ∈ t.values ↔ y = t.low ∨ y = t.high := by simp [values]

@[simp] lemma contains_iff {y : ℤ} : t.contains y = true ↔ y ∈ t.values := by simp [contains]

def IsTuple (t : Vartype) (n : ℕ) (x : List ℤ) : Prop := x.length = n ∧ ∀ y ∈ x, y ∈ t.values

def number (t : Vartype) (x : List ℤ) : ℕ := x.foldl (fun n y => 2 * n + if y = t.high then 1 else 0) 0

@[simp] lemma tupleAt_length (t : Vartype) (n i : ℕ) : (t.tupleAt n i).length = n := by simp [tupleAt]

lemma tupleAt_succ (t : Vartype) (n i : ℕ) :
    t.tupleAt (n + 1) i = t.tupleAt n (i / 2) ++ [if i % 2 = 1 then t.high else t.low] := by
  simp only [tupleAt, List.range_succ, List.map_append, List.map_cons, List.map_nil]
  congr 1
  · apply List.map_congr_left
    intro k hk
    have hk' : n + 1 - 1 - k = (n - 1 - k) + 1 := by
      have := List.mem_range.mp hk
      omega
    rw [hk', Nat.testBit_succ]
  · simp [Nat.testBit_zero]

lemma number_concat (t : Vartype) (x : List ℤ) (y : ℤ) :
    t.number (x ++ [y]) = 2 * t.number x + if y = t.high then 1 else 0 := by
  simp [number]

lemma tupleAt_isTuple (t : Vartype) (n i : ℕ) : t.IsTuple n (t.tupleAt n i) := by
  refine ⟨by simp, fun y hy => ?_⟩
  obtain ⟨k, _, rfl⟩ := List.mem_map.mp hy
  split <;> simp

lemma tupleAt_number (h : t.IsTuple n x) : t.tupleAt n (t.number x) = x := by
  obtain ⟨hlen, hx⟩ := h
  induction x using List.reverseRecOn generalizing n with
  | nil =>
    subst hlen
    rfl
  | append_singleton x y ih =>
    obtain rfl : x.length + 1 = n := by simpa using hlen
    have ihx := ih rfl fun z hz => hx z (by simp [hz])
    have hy : y = t.low ∨ y = t.high := mem_values.mp (hx y (by simp))
    rw [tupleAt_succ, number_concat]
    rcases hy with rfl | rfl
    · simp [low_ne_high, ihx]
    · have hdiv : (2 * t.number x + 1) / 2 = t.number x := by omega
      have hmod : (2 * t.number x + 1) % 2 = 1 := by omega
      simp [hdiv, hmod, ihx]

lemma number_lt (t : Vartype) (x : List ℤ) : t.number x < 2 ^ x.length := by
  induction x using List.reverseRecOn with
  | nil => simp [number]
  | append_singleton x y ih =>
    rw [number_concat, List.length_append, List.length_singleton, pow_succ]
    split <;> omega

lemma number_tupleAt {i : ℕ} (h : i < 2 ^ n) : t.number (t.tupleAt n i) = i := by
  induction n generalizing i with
  | zero =>
    obtain rfl : i = 0 := by simpa using h
    rfl
  | succ n ih =>
    rw [tupleAt_succ, number_concat, ih (by rw [pow_succ] at h; omega)]
    by_cases hi : i % 2 = 1
    · simp only [hi, if_true]
      omega
    · simp only [hi, if_false, low_ne_high]
      omega

lemma tuples_eq (t : Vartype) (n : ℕ) : t.tuples n = (List.range (2 ^ n)).map (t.tupleAt n) := by
  simp [tuples, firstTuples, tupleCount]

@[simp] lemma tuples_length (t : Vartype) (n : ℕ) : (t.tuples n).length = 2 ^ n := by simp [tuples_eq]

@[simp] lemma mem_tuples : x ∈ t.tuples n ↔ t.IsTuple n x := by
  rw [tuples_eq, List.mem_map]
  constructor
  · rintro ⟨i, _, rfl⟩
    exact tupleAt_isTuple t n i
  · intro h
    refine ⟨t.number x, List.mem_range.mpr ?_, tupleAt_number h⟩
    simpa only [h.1] using number_lt t x

lemma tuples_nodup (t : Vartype) (n : ℕ) : (t.tuples n).Nodup := by
  rw [tuples_eq]
  refine List.nodup_range.map_on fun i hi j hj h => ?_
  rw [← number_tupleAt (t := t) (List.mem_range.mp hi), h, number_tupleAt (List.mem_range.mp hj)]

lemma number_injective {y : List ℤ} (hx : t.IsTuple n x) (hy : t.IsTuple n y)
    (h : t.number x = t.number y) : x = y := by
  rw [← tupleAt_number hx, h, tupleAt_number hy]

lemma toSpin_mem (t : Vartype) (y : ℤ) : t.toSpin y ∈ spin.values := by
  unfold toSpin
  split <;> simp [low, high]

lemma ofSpin_mem (t : Vartype) (s : ℤ) : t.ofSpin s ∈ t.values := by
  unfold ofSpin
  split <;> simp

lemma toSpin_ofSpin (t : Vartype) {s : ℤ} (h : s ∈ spin.values) : t.toSpin (t.ofSpin s) = s := by
  rcases mem_values.mp h with rfl | rfl <;> cases t <;> rfl

lemma ofSpin_toSpin {y : ℤ} (h : y ∈ t.values) : t.ofSpin (t.toSpin y) = y := by
  rcases mem_values.mp h with rfl | rfl <;> cases t <;> rfl

lemma number_toSpin (t : Vartype) (x : List ℤ) : spin.number (x.map t.toSpin) = t.number x := by
  have hiff : ∀ y, t.toSpin y = spin.high ↔ y = t.high := by
    intro y
    unfold toSpin
    split
    · next h => exact ⟨fun _ => h, fun _ => rfl⟩
    · next h => exact ⟨fun hm => absurd hm (by decide), fun hy => absurd hy h⟩
  simp only [number, List.foldl_map, hiff]

lemma IsTuple.toSpin (h : t.IsTuple n x) : spin.IsTuple n (x.map t.toSpin) := by
  refine ⟨by simpa using h.1, fun y hy => ?_⟩
  obtain ⟨z, _, rfl⟩ := List.mem_map.mp hy
  exact toSpin_mem t z

end QuadraticPenalty.Vartype
