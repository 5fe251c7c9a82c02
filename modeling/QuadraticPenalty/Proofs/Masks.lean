import QuadraticPenalty.Masks
import QuadraticPenalty.Proofs.Tuples

namespace QuadraticPenalty.Vartype

open Ordered

variable {t : Vartype} {n i j : ℕ} {x : List ℤ}

lemma tupleAt_cons (t : Vartype) (n i : ℕ) :
    t.tupleAt (n + 1) i = (if i.testBit n then t.high else t.low) :: t.tupleAt n i := by
  simp only [tupleAt, List.range_succ_eq_map, List.map_cons, List.map_map]
  refine congrArg₂ _ (by simp) (List.map_congr_left fun k _ => ?_)
  simp only [Function.comp_apply, Nat.add_sub_cancel, Nat.sub_sub, Nat.add_comm, Nat.succ_eq_add_one]

lemma tupleAt_add_two_pow (t : Vartype) (n i : ℕ) : t.tupleAt n (2 ^ n + i) = t.tupleAt n i := by
  refine List.map_congr_left fun k hk => ?_
  have hlt : n - 1 - k < n := by
    have := List.mem_range.mp hk
    omega
  rw [Nat.testBit_two_pow_add_gt hlt]

lemma tuples_succ (t : Vartype) (n : ℕ) :
    t.tuples (n + 1) = (t.tuples n).map (t.low :: ·) ++ (t.tuples n).map (t.high :: ·) := by
  rw [tuples_eq, tuples_eq, pow_succ, mul_two, List.range_add, List.map_append, List.map_map,
    List.map_map, List.map_map]
  refine congrArg₂ _ (List.map_congr_left fun i hi => ?_) (List.map_congr_left fun i hi => ?_)
  · rw [tupleAt_cons, Nat.testBit_eq_false_of_lt (List.mem_range.mp hi)]
    rfl
  · rw [Function.comp_apply, Function.comp_apply, tupleAt_cons, tupleAt_add_two_pow,
      Nat.testBit_two_pow_add_eq, Nat.testBit_eq_false_of_lt (List.mem_range.mp hi)]
    rfl

lemma low_before_high (t : Vartype) : before t.low t.high = true := by cases t <;> decide

lemma tuples_increasing (t : Vartype) (n : ℕ) :
    (t.tuples n).Pairwise fun x y => before x y = true := by
  induction n with
  | zero => exact List.pairwise_singleton _ _
  | succ n ih =>
    have hpart : ∀ y, ((t.tuples n).map (y :: ·)).Pairwise fun x y => before x y = true := fun y =>
      List.pairwise_map.mpr (ih.imp fun h => beforeList_cons_iff.mpr (.inr ⟨rfl, h⟩))
    rw [tuples_succ]
    refine List.pairwise_append.mpr ⟨hpart t.low, hpart t.high, fun x hx y hy => ?_⟩
    obtain ⟨x, -, rfl⟩ := List.mem_map.mp hx
    obtain ⟨y, -, rfl⟩ := List.mem_map.mp hy
    exact beforeList_cons_iff.mpr (.inl t.low_before_high)

lemma firstTuples_eq_take (t : Vartype) (n k : ℕ) : t.firstTuples n k = (t.tuples n).take k := by
  rw [tuples_eq, ← List.map_take, List.take_range, firstTuples, tupleCount]
  rfl

lemma mask_bit_iff (hi : i < 2 ^ 64) (hj : j < 64) :
    UInt64.ofNat i >>> UInt64.ofNat j &&& 1 = 1 ↔ i.testBit j = true := by
  have hj' : j % 2 ^ 64 % 64 = j := by omega
  rw [← UInt64.toNat_inj, UInt64.toNat_and, UInt64.toNat_shiftRight, UInt64.toNat_ofNat',
    UInt64.toNat_ofNat', Nat.mod_eq_of_lt hi, hj', Nat.testBit_eq_decide_div_mod_eq,
    decide_eq_true_eq, Nat.shiftRight_eq_div_pow]
  exact (Nat.and_one_is_mod _).congr_left

lemma ofMask_ofNat (hn : n ≤ 63) (hi : i < 2 ^ n) : t.ofMask n (UInt64.ofNat i) = t.tupleAt n i := by
  have hword : i < 2 ^ 64 := hi.trans_le (Nat.pow_le_pow_right (by decide) (by omega))
  refine List.map_congr_left fun k _ => ?_
  simp only [mask_bit_iff hword (show n - 1 - k < 64 by omega)]

lemma ofMask_isTuple (t : Vartype) (n : ℕ) (mask : UInt64) : t.IsTuple n (t.ofMask n mask) := by
  refine ⟨by simp [ofMask], fun y hy => ?_⟩
  obtain ⟨k, -, rfl⟩ := List.mem_map.mp hy
  split <;> simp

lemma isTuple_of_mem_maskedTuples (hx : x ∈ t.maskedTuples n) : t.IsTuple n x := by
  obtain ⟨i, -, rfl⟩ := List.mem_map.mp hx
  exact ofMask_isTuple t n _

lemma maskedTuples_eq (hn : n ≤ 63) : t.maskedTuples n = t.tuples n := by
  have hshift : ((1 : UInt64) <<< UInt64.ofNat n).toNat = 2 ^ n := by
    have hpow : 2 ^ n < 2 ^ 64 := Nat.pow_lt_pow_right (by decide) (by omega)
    rw [UInt64.toNat_shiftLeft, UInt64.toNat_ofNat', show n % 2 ^ 64 % 64 = n by omega,
      UInt64.toNat_one, Nat.one_shiftLeft, Nat.mod_eq_of_lt hpow]
  rw [maskedTuples, hshift, tuples_eq]
  exact List.map_congr_left fun i hi => ofMask_ofNat hn (List.mem_range.mp hi)

/-- The masks of up to 63 bits run through all tuples of the domain, each of them once and in
lexicographic order; a walk that is left early has seen the first of them. -/
theorem maskedTuples_lexicographic (t : Vartype) (n : ℕ) (hn : n ≤ 63) :
    t.maskedTuples n = t.tuples n ∧
    (∀ k, t.firstTuples n k = (t.maskedTuples n).take k) ∧
    (∀ x, x ∈ t.maskedTuples n ↔ x.length = n ∧ ∀ y ∈ x, y ∈ t.values) ∧
    (t.maskedTuples n).Nodup ∧
    (t.maskedTuples n).Pairwise (fun x y => before x y = true) ∧
    (t.maskedTuples n).length = 2 ^ n := by
  rw [maskedTuples_eq hn]
  exact ⟨rfl, firstTuples_eq_take t n, fun x => mem_tuples, tuples_nodup t n, tuples_increasing t n,
    tuples_length t n⟩

theorem maskedTuples_lexicographic_of_widest :
    63 ≤ 63 ∧ (spin.maskedTuples 63).length = 2 ^ 63 ∧
      List.replicate 63 (-1) ∈ spin.maskedTuples 63 ∧ List.replicate 63 0 ∉ spin.maskedTuples 63 := by
  obtain ⟨-, -, hmem, -, -, hlength⟩ := maskedTuples_lexicographic spin 63 (by decide)
  exact ⟨le_rfl, hlength, (hmem _).mpr (by decide), fun h => absurd ((hmem _).mp h) (by decide)⟩

end QuadraticPenalty.Vartype
