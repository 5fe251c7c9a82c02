import QuadraticPenalty.Proofs.Model.Vartype
import QuadraticPenalty.Scalar.Extended

namespace QuadraticPenalty

open Scalar Extended

namespace QuadraticModel

def exact (k : QuadraticModel ℚ) : QuadraticModel Extended where
  vartype := k.vartype
  linear := k.linear.map fun _ => finite
  couplings := k.couplings.map fun _ => finite
  offset := finite k.offset

structure IsFinite (m : QuadraticModel Extended) : Prop where
  offset : isFinite m.offset = true
  linear : ∀ e ∈ m.linear.entries, isFinite e.2 = true
  couplings : ∀ e ∈ m.couplings.entries, isFinite e.2 = true

variable {m k n : QuadraticModel ℚ} {u v : String} {a : ℚ} {t : Vartype}

@[simp] lemma exact_vartype : k.exact.vartype = k.vartype := rfl

@[simp] lemma exact_labels : k.exact.labels = k.labels := SortedMap.keys_map _ _

@[simp] lemma exact_couplings_keys : k.exact.couplings.keys = k.couplings.keys :=
  SortedMap.keys_map _ _

lemma exact_wellFormed : k.exact.WellFormed ↔ k.WellFormed := by
  constructor <;> intro h <;>
    exact ⟨by simpa using h.ordered, by simpa using h.left, by simpa using h.right⟩

lemma exact_empty (t : Vartype) : (empty t : QuadraticModel ℚ).exact = empty t := rfl

lemma exact_addOffset : (k.addOffset a).exact = k.exact.addOffset (finite a) := rfl

lemma map_finite_update {κ : Type} [Ordered κ] (q : SortedMap κ ℚ) (i : κ) :
    (q.update i fun old => old.getD zero + a).map (fun _ => finite) =
      (q.map fun _ => finite).update i fun old => old.getD zero + finite a := by
  apply SortedMap.map_update
  rintro (_ | old) <;> rfl

lemma exact_addBias : (k.addBias v a).exact = k.exact.addBias v (finite a) :=
  QuadraticModel.ext rfl (map_finite_update k.linear v) rfl rfl

lemma exact_addCoupling : (k.addCoupling u v a).exact = k.exact.addCoupling u v (finite a) := by
  by_cases h : u = v
  · simp only [addCoupling, if_pos h, exact_vartype]
    split
    · exact exact_addOffset
    · exact exact_addBias
  · simp only [addCoupling, if_neg h]
    have hb : ((k.addBias u zero).addBias v zero).exact =
        (k.exact.addBias u zero).addBias v zero := by
      rw [exact_addBias, exact_addBias]
      rfl
    rw [← hb]
    exact QuadraticModel.ext rfl rfl (map_finite_update _ _) rfl

lemma exact_addBiases (es : List (String × ℚ)) (k : QuadraticModel ℚ) :
    (es.foldl (fun m e => m.addBias e.1 e.2) k).exact =
      (es.map fun e => (e.1, finite e.2)).foldl (fun m e => m.addBias e.1 e.2) k.exact := by
  induction es generalizing k with
  | nil => rfl
  | cons e es ih => rw [List.foldl_cons, ih, exact_addBias, List.map_cons, List.foldl_cons]

lemma map_finite_plus {κ : Type} [Ordered κ] (q l : SortedMap κ ℚ) :
    (q.plus l).map (fun _ => finite) = (q.map fun _ => finite).plus (l.map fun _ => finite) := by
  have hfold : ∀ (es : List (κ × ℚ)) (q : SortedMap κ ℚ),
      (es.foldl .addAt q).map (fun _ => finite) =
        (es.map fun e => (e.1, finite e.2)).foldl .addAt (q.map fun _ => finite) := by
    intro es
    induction es with
    | nil => exact fun _ => rfl
    | cons e es ih =>
      intro q
      rw [List.foldl_cons, ih, SortedMap.addAt, map_finite_update]
      rfl
  exact hfold l.entries q

lemma exact_merge (h : m.merge k = .ok n) : m.exact.merge k.exact = .ok n.exact := by
  obtain ⟨ht, rfl⟩ := merge_eq_ok_iff.mp h
  exact merge_eq_ok_iff.mpr
    ⟨ht, QuadraticModel.ext rfl (map_finite_plus ..) (map_finite_plus ..) rfl⟩

section Recast

variable {slope constant product single free : ℚ → ℚ}
  {slope' constant' product' single' free' : Extended → Extended}

lemma exact_recast (hs : ∀ a, finite (slope a) = slope' (finite a))
    (hc : ∀ a, finite (constant a) = constant' (finite a))
    (hp : ∀ a, finite (product a) = product' (finite a))
    (hi : ∀ a, finite (single a) = single' (finite a))
    (hf : ∀ a, finite (free a) = free' (finite a)) :
    (k.recast t slope constant product single free).exact =
      k.exact.recast t slope' constant' product' single' free' := by
  have hbias : ∀ (es : List (String × ℚ)) (k : QuadraticModel ℚ),
      (es.foldl (recastBias slope constant) k).exact =
        (es.map fun e => (e.1, finite e.2)).foldl (recastBias slope' constant') k.exact := by
    intro es
    induction es with
    | nil => exact fun _ => rfl
    | cons e es ih =>
      intro k
      rw [List.foldl_cons, ih, recastBias, exact_addOffset, exact_addBias, hs, hc]
      rfl
  have hcoupling : ∀ (es : List ((String × String) × ℚ)) (k : QuadraticModel ℚ),
      (es.foldl (recastCoupling product single free) k).exact =
        (es.map fun e => (e.1, finite e.2)).foldl (recastCoupling product' single' free')
          k.exact := by
    intro es
    induction es with
    | nil => exact fun _ => rfl
    | cons e es ih =>
      intro k
      rw [List.foldl_cons, ih, recastCoupling, exact_addOffset, exact_addBias, exact_addBias,
        exact_addCoupling, hp, hi, hf]
      rfl
  rw [recast, hcoupling, hbias]
  rfl

lemma exact_toVartype : (k.toVartype t).exact = k.exact.toVartype t := by
  unfold toVartype
  rw [exact_vartype]
  split
  · rfl
  · cases t with
    | spin =>
      simp only [toSpin_eq]
      apply exact_recast <;> exact fun _ => rfl
    | binary =>
      simp only [toBinary_eq]
      apply exact_recast <;> exact fun _ => rfl

end Recast

section Energy

def addBiasTerm {α : Type} [Scalar α] (t : Vartype) (x : Assignment) (e : α) (p : String × α) :
    Except Fault α := do
  let y ← valueOf t x p.1
  return e + p.2 * ofInt y

def addCouplingTerm {α : Type} [Scalar α] (t : Vartype) (x : Assignment) (e : α)
    (p : (String × String) × α) : Except Fault α := do
  let y ← valueOf t x p.1.1
  let z ← valueOf t x p.1.2
  return e + p.2 * ofInt y * ofInt z

lemma energy_eq_foldlM {α : Type} [Scalar α] (m : QuadraticModel α) (x : Assignment) :
    m.energy x = m.linear.entries.foldlM (addBiasTerm m.vartype x) m.offset >>=
      m.couplings.entries.foldlM (addCouplingTerm m.vartype x) := rfl

lemma foldlM_finite {ι : Type} {f : ℚ → ι × ℚ → Except Fault ℚ}
    {f' : Extended → ι × Extended → Except Fault Extended}
    (h : ∀ e p, f' (finite e) (p.1, finite p.2) = (f e p).map finite) (es : List (ι × ℚ)) (e : ℚ) :
    (es.map fun p => (p.1, finite p.2)).foldlM f' (finite e) = (es.foldlM f e).map finite := by
  induction es generalizing e with
  | nil => rfl
  | cons p es ih =>
    rw [List.map_cons, List.foldlM_cons, List.foldlM_cons, h]
    cases f e p with
    | error fault => rfl
    | ok e => exact ih e

lemma exact_energy (k : QuadraticModel ℚ) (x : Assignment) :
    k.exact.energy x = (k.energy x).map finite := by
  have hbias : ∀ e p, addBiasTerm k.vartype x (finite e) (p.1, finite p.2) =
      (addBiasTerm k.vartype x e p).map finite := by
    intro e p
    simp only [addBiasTerm]
    cases valueOf k.vartype x p.1 <;> rfl
  have hcoupling : ∀ e p, addCouplingTerm k.vartype x (finite e) (p.1, finite p.2) =
      (addCouplingTerm k.vartype x e p).map finite := by
    intro e p
    simp only [addCouplingTerm]
    cases valueOf k.vartype x p.1.1 with
    | error fault => rfl
    | ok y => cases valueOf k.vartype x p.1.2 <;> rfl
  have hlinear := foldlM_finite hbias k.linear.entries k.offset
  rw [energy_eq_foldlM, energy_eq_foldlM]
  refine (congrArg (· >>= _) hlinear).trans ?_
  cases k.linear.entries.foldlM (addBiasTerm k.vartype x) k.offset with
  | error fault => rfl
  | ok e => exact foldlM_finite hcoupling k.couplings.entries e

end Energy

lemma exists_rational {b : Extended} (h : isFinite b = true) : ∃ q, b = finite q := by
  cases b with
  | finite q => exact ⟨q, rfl⟩
  | infinity => cases h
  | negInfinity => cases h
  | undefined => cases h

lemma exact_isFinite (k : QuadraticModel ℚ) : k.exact.IsFinite := by
  refine ⟨rfl, fun e he => ?_, fun e he => ?_⟩ <;>
  · obtain ⟨d, _, rfl⟩ := List.mem_map.mp he
    rfl

lemma exists_map_finite {κ : Type} [Ordered κ] (q : SortedMap κ Extended)
    (h : ∀ e ∈ q.entries, isFinite e.2 = true) : ∃ r : SortedMap κ ℚ, r.map (fun _ => finite) = q := by
  have hall : ∀ b : Extended, ∃ a, isFinite b = true → b = finite a := fun b => by
    by_cases hb : isFinite b = true
    · obtain ⟨a, ha⟩ := exists_rational hb
      exact ⟨a, fun _ => ha⟩
    · exact ⟨0, fun h => absurd h hb⟩
  choose value hvalue using hall
  refine ⟨q.map fun _ => value, SortedMap.ext ?_⟩
  simp only [SortedMap.map, List.map_map]
  refine (List.map_congr_left fun e he => ?_).trans (List.map_id _)
  exact Prod.ext rfl (hvalue e.2 (h e he)).symm

lemma IsFinite.exists_exact {m : QuadraticModel Extended} (h : m.IsFinite) :
    ∃ k : QuadraticModel ℚ, k.exact = m := by
  obtain ⟨a, ha⟩ := exists_rational h.offset
  obtain ⟨l, hl⟩ := exists_map_finite m.linear h.linear
  obtain ⟨q, hq⟩ := exists_map_finite m.couplings h.couplings
  exact ⟨⟨m.vartype, l, q, a⟩, QuadraticModel.ext rfl hl hq ha.symm⟩

end QuadraticModel

end QuadraticPenalty
