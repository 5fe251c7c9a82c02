import QuadraticPenalty.Penalty.Indicator
import QuadraticPenalty.Proofs.Constraint.Factors

/-! A constraint over spins, read over bits: it allows the same tuples, written in the other domain,
and what counts tuples does not see the difference. -/

namespace QuadraticPenalty

namespace Vartype

variable {n : ℕ} {x y : List ℤ}

def bits (x : List ℤ) : List ℤ := x.map binary.ofSpin

@[simp] lemma bits_length (x : List ℤ) : (bits x).length = x.length := List.length_map ..

lemma IsTuple.bits (h : spin.IsTuple n x) : binary.IsTuple n (bits x) := by
  refine ⟨(bits_length x).trans h.1, fun y hy => ?_⟩
  obtain ⟨z, -, rfl⟩ := List.mem_map.mp hy
  exact ofSpin_mem binary z

lemma toSpin_bits (h : spin.IsTuple n x) : (bits x).map binary.toSpin = x := by
  rw [Vartype.bits, List.map_map]
  exact (List.map_congr_left fun z hz => toSpin_ofSpin binary (h.2 z hz)).trans (List.map_id x)

lemma bits_inj (hx : spin.IsTuple n x) (hy : spin.IsTuple n y) (h : bits x = bits y) : x = y := by
  rw [← toSpin_bits hx, h, toSpin_bits hy]

lemma bits_tupleAt (n i : ℕ) : bits (spin.tupleAt n i) = binary.tupleAt n i := by
  rw [Vartype.bits, tupleAt, List.map_map]
  refine List.map_congr_left fun k _ => ?_
  simp only [Function.comp_apply]
  split <;> rfl

lemma map_bits_tuples (n : ℕ) : (spin.tuples n).map bits = binary.tuples n := by
  rw [tuples_eq, tuples_eq, List.map_map]
  exact List.map_congr_left fun i _ => bits_tupleAt n i

end Vartype

open Vartype

variable {n : ℕ} {x : List ℤ} {allowed : SortedSet (List ℤ)}

lemma mem_map_bits (h : ∀ y ∈ allowed, spin.IsTuple n y) (hx : spin.IsTuple n x) :
    bits x ∈ allowed.map bits ↔ x ∈ allowed := by
  rw [SortedSet.mem_map]
  constructor
  · rintro ⟨y, hy, he⟩
    rwa [← bits_inj (h y hy) hx he]
  · exact fun hm => ⟨x, hm, rfl⟩

lemma size_map_bits (h : ∀ y ∈ allowed, spin.IsTuple n y) :
    (allowed.map bits).size = allowed.size := by
  have hinj : Set.InjOn bits (allowed.toList.toFinset : Set (List ℤ)) := fun y hy z hz he =>
    bits_inj (h y (SortedSet.mem_def.mpr (List.mem_toFinset.mp hy)))
      (h z (SortedSet.mem_def.mpr (List.mem_toFinset.mp hz))) he
  rw [SortedSet.size_map, Finset.card_image_of_injOn hinj,
    List.toFinset_card_of_nodup (SortedSet.toList_nodup _), SortedSet.size]

namespace Constraint

variable {c : Constraint} {part : List ℕ}

lemma pick_bits (part : List ℕ) (x : List ℤ) : pick part (bits x) = bits (pick part x) := by
  rw [pick, pick, bits, bits, List.map_map]
  exact List.map_congr_left fun p _ => x.getD_map 0 binary.ofSpin

lemma map_pick_bits (part : List ℕ) (allowed : SortedSet (List ℤ)) :
    (allowed.map bits).map (pick part) = (allowed.map (pick part)).map bits := by
  apply SortedSet.ext_mem
  simp [pick_bits]

lemma pick_isTuple (hpart : ∀ p ∈ part, p < n) (hx : spin.IsTuple n x) :
    spin.IsTuple part.length (pick part x) := by
  refine ⟨List.length_map .., fun y hy => ?_⟩
  obtain ⟨p, hp, rfl⟩ := List.mem_map.mp hy
  have hlt : p < x.length := hx.1 ▸ hpart p hp
  rw [List.getD_eq_getElem _ _ hlt]
  exact hx.2 _ (List.getElem_mem hlt)

lemma mem_map_pick_isTuple (hpart : ∀ p ∈ part, p < n) (h : ∀ y ∈ allowed, spin.IsTuple n y) :
    ∀ y ∈ allowed.map (pick part), spin.IsTuple part.length y := by
  intro y hy
  obtain ⟨z, hz, rfl⟩ := SortedSet.mem_map.mp hy
  exact pick_isTuple hpart (h z hz)

lemma splitsAt_bits (hpart : ∀ p ∈ part, p < n) (h : ∀ y ∈ allowed, spin.IsTuple n y) :
    splitsAt n (allowed.map bits) part = splitsAt n allowed part := by
  -- out of range a position reads zero, which is no spin and would be taken for the bit of one
  have hothers : ∀ p ∈ others n part, p < n := fun p hp =>
    List.mem_range.mp (List.mem_of_mem_filter hp)
  rw [splitsAt, splitsAt, map_pick_bits, map_pick_bits, size_map_bits h,
    size_map_bits (mem_map_pick_isTuple hpart h), size_map_bits (mem_map_pick_isTuple hothers h)]

lemma splitOf_bits (h : ∀ y ∈ allowed, spin.IsTuple n y) :
    splitOf n (allowed.map bits) = splitOf n allowed := by
  unfold splitOf
  congr 1
  funext k
  refine List.find?_congr fun part hpart => splitsAt_bits (fun p hp => ?_) h
  exact List.mem_range.mp ((mem_choose_iff.mp hpart).1.subset hp)

lemma factorsWithin_bits (depth : ℕ) {scope : List String}
    (h : ∀ y ∈ allowed, spin.IsTuple scope.length y) :
    factorsWithin depth (allowed.map bits) scope = factorsWithin depth allowed scope := by
  induction depth generalizing allowed scope with
  | zero => rfl
  | succ depth ih =>
    have hrec : ∀ part : List ℕ, (∀ p ∈ part, p < scope.length) →
        factorsWithin depth ((allowed.map bits).map (pick part)) (labelsAt scope part) =
          factorsWithin depth (allowed.map (pick part)) (labelsAt scope part) := by
      intro part hpart
      rw [map_pick_bits]
      refine ih fun y hy => ?_
      simpa [labelsAt] using mem_map_pick_isTuple hpart h y hy
    unfold factorsWithin
    rw [splitOf_bits h]
    cases hsplit : splitOf scope.length allowed with
    | none => rfl
    | some part =>
      obtain ⟨-, hsub, -, -⟩ := splitOf_eq_some hsplit
      exact congrArg₂ (· ++ ·) (hrec part fun p hp => List.mem_range.mp (hsub.subset hp))
        (hrec (others scope.length part) fun p hp => List.mem_range.mp (List.mem_of_mem_filter hp))

def inBits (c : Constraint) : Constraint :=
  { c with vartype := .binary, configurations := c.configurations.map bits }

lemma WellFormed.spins (hc : c.WellFormed) (hs : c.scope ≠ [] → c.vartype = .spin) {y : List ℤ}
    (hy : y ∈ c.configurations) : spin.IsTuple c.scope.length y := by
  obtain ⟨hlen, hval⟩ := hc.isTuple hy
  refine ⟨hlen, fun z hz => ?_⟩
  have hne : c.scope ≠ [] := by
    apply List.ne_nil_of_length_pos
    rw [← hlen]
    exact List.length_pos_of_mem hz
  exact hs hne ▸ hval z hz

lemma WellFormed.inBits (hc : c.WellFormed) (hs : c.scope ≠ [] → c.vartype = .spin) :
    c.inBits.WellFormed := by
  refine ⟨hc.1, fun y hy => ?_, fun hne => ?_⟩
  · obtain ⟨z, hz, rfl⟩ := SortedSet.mem_map.mp hy
    exact (hc.spins hs hz).bits
  · obtain ⟨y, hy⟩ := List.exists_mem_of_ne_nil _ (hc.2.2 hne)
    exact List.ne_nil_of_mem (SortedSet.mem_def.mp (SortedSet.mem_map.mpr ⟨y, hy, rfl⟩))

section Spins

variable (hc : c.WellFormed) (hs : c.vartype = .spin)

include hc hs

lemma accepts_bits {x : List ℤ} (hx : spin.IsTuple c.scope.length x) :
    c.inBits.accepts (bits x) = c.accepts x := by
  rw [Bool.eq_iff_iff, accepts_iff, accepts_iff]
  exact mem_map_bits (fun _ hy => hc.spins (fun _ => hs) hy) hx

lemma isFull_inBits : c.inBits.isFull = c.isFull := by
  have hsize : c.inBits.configurations.size = c.configurations.size :=
    size_map_bits fun _ hy => hc.spins (fun _ => hs) hy
  rw [isFull, isFull, hsize]
  rfl

lemma factors_inBits : c.inBits.factors = c.factors :=
  factorsWithin_bits c.arity fun _ hy => hc.spins (fun _ => hs) hy

lemma forbidden_inBits : c.inBits.forbidden = c.forbidden.map bits := by
  have htuples : c.inBits.vartype.tuples c.inBits.arity = (c.vartype.tuples c.arity).map bits := by
    rw [hs, map_bits_tuples]
    rfl
  rw [forbidden, forbidden, htuples, List.filter_map]
  congr 1
  refine List.filter_congr fun x hx => ?_
  rw [Function.comp_apply, accepts_bits hc hs (hs ▸ Vartype.mem_tuples.mp hx)]

end Spins

lemma onto_inBits (c : Constraint) (group : List String) :
    (c.onto group).inBits = c.inBits.onto group := by
  have h : (c.configurations.map (restriction c.scope group)).map bits =
      (c.configurations.map bits).map (restriction c.scope group) :=
    (map_pick_bits _ _).symm
  rw [inBits, onto, onto, inBits, h]

end Constraint

end QuadraticPenalty
