import QuadraticPenalty.Proofs.Model.Value

namespace QuadraticPenalty.QuadraticModel

open Scalar Ordered

section Recast

variable {α : Type} [Scalar α]

def recastBias (slope constant : α → α) (k : QuadraticModel α) (e : String × α) :
    QuadraticModel α :=
  (k.addBias e.1 (slope e.2)).addOffset (constant e.2)

def recastCoupling (product single free : α → α) (k : QuadraticModel α)
    (e : (String × String) × α) : QuadraticModel α :=
  (((k.addCoupling e.1.1 e.1.2 (product e.2)).addBias e.1.1 (single e.2)).addBias e.1.2
    (single e.2)).addOffset (free e.2)

def recast (t : Vartype) (slope constant product single free : α → α) (m : QuadraticModel α) :
    QuadraticModel α :=
  m.couplings.entries.foldl (recastCoupling product single free)
    (m.linear.entries.foldl (recastBias slope constant) { empty t with offset := m.offset })

lemma toBinary_eq (m : QuadraticModel α) :
    m.toBinary = m.recast .binary (two * ·) (- ·) (four * ·) (ofInt (-2) * ·) id := rfl

lemma toSpin_eq (m : QuadraticModel α) :
    m.toSpin = m.recast .spin (half * ·) (half * ·) (quarter * ·) (quarter * ·) (quarter * ·) := rfl

variable {slope constant product single free : α → α} {m : QuadraticModel α} {t : Vartype}

lemma recastBias_frame (slope constant : α → α) (es : List (String × α)) (k : QuadraticModel α) :
    (es.foldl (recastBias slope constant) k).vartype = k.vartype ∧
      (es.foldl (recastBias slope constant) k).couplings = k.couplings ∧
      ∀ w, w ∈ (es.foldl (recastBias slope constant) k).labels ↔
        w ∈ es.map Prod.fst ∨ w ∈ k.labels := by
  induction es generalizing k with
  | nil => simp
  | cons e es ih =>
    obtain ⟨ht, hc, hl⟩ := ih (recastBias slope constant k e)
    refine ⟨ht, hc, fun w => ?_⟩
    rw [List.foldl_cons, hl w, recastBias, labels_addOffset, mem_labels_addBias, List.map_cons,
      List.mem_cons]
    tauto

lemma mem_keys_addCoupling {k : QuadraticModel α} {u v : String} {a : α} (h : before u v = true)
    (d : String × String) :
    d ∈ (k.addCoupling u v a).couplings.keys ↔ d = (u, v) ∨ d ∈ k.couplings.keys := by
  have hp : pair u v = (u, v) := by simp [pair, h]
  rw [mem_keys_addCoupling_pair (ne_of_before h), hp]

lemma recastCoupling_frame (product single free : α → α) (es : List ((String × String) × α))
    (k : QuadraticModel α)
    (ho : ∀ e ∈ es, before e.1.1 e.1.2 = true)
    (hl : ∀ e ∈ es, e.1.1 ∈ k.labels ∧ e.1.2 ∈ k.labels) :
    (es.foldl (recastCoupling product single free) k).vartype = k.vartype ∧
      (∀ w, w ∈ (es.foldl (recastCoupling product single free) k).labels ↔ w ∈ k.labels) ∧
      ∀ d, d ∈ (es.foldl (recastCoupling product single free) k).couplings.keys ↔
        d ∈ es.map Prod.fst ∨ d ∈ k.couplings.keys := by
  induction es generalizing k with
  | nil => simp
  | cons e es ih =>
    have hb := ho e (by simp)
    have hm : ∀ w, w ∈ (recastCoupling product single free k e).labels ↔ w ∈ k.labels := by
      intro w
      obtain ⟨h₁, h₂⟩ := hl e (by simp)
      simp only [recastCoupling, labels_addOffset, mem_labels_addBias,
        mem_labels_addCoupling (ne_of_before hb)]
      constructor
      · rintro (rfl | rfl | rfl | rfl | h) <;> assumption
      · exact fun h => .inr (.inr (.inr (.inr h)))
    obtain ⟨ht, hw, hc⟩ := ih (recastCoupling product single free k e)
      (fun d hd => ho d (by simp [hd])) fun d hd => by simpa only [hm] using hl d (by simp [hd])
    refine ⟨ht.trans (by simp [recastCoupling]), fun w => (hw w).trans (hm w), fun d => ?_⟩
    have hk : d ∈ (recastCoupling product single free k e).couplings.keys ↔
        d = e.1 ∨ d ∈ k.couplings.keys := mem_keys_addCoupling hb d
    rw [List.foldl_cons, hc d, hk, List.map_cons, List.mem_cons]
    tauto

lemma recast_frame (h : m.WellFormed) :
    (m.recast t slope constant product single free).vartype = t ∧
      (∀ w, w ∈ (m.recast t slope constant product single free).labels ↔ w ∈ m.labels) ∧
      ∀ d, d ∈ (m.recast t slope constant product single free).couplings.keys ↔
        d ∈ m.couplings.keys := by
  obtain ⟨hbt, hbc, hbl⟩ := recastBias_frame slope constant
    m.linear.entries { empty t with offset := m.offset }
  have hlabels : ∀ w, w ∈ (m.linear.entries.foldl (recastBias slope constant)
      { empty t with offset := m.offset }).labels ↔ w ∈ m.labels := fun w =>
    (hbl w).trans (or_iff_left (by simp [empty, labels]))
  obtain ⟨hct, hcl, hcc⟩ := recastCoupling_frame product single free
    m.couplings.entries _ (fun e he => h.ordered e.1 (List.mem_map_of_mem he))
    (fun e he => ⟨(hlabels _).mpr (h.left e.1 (List.mem_map_of_mem he)),
      (hlabels _).mpr (h.right e.1 (List.mem_map_of_mem he))⟩)
  refine ⟨hct.trans hbt, fun w => (hcl w).trans (hlabels w), fun d => (hcc d).trans ?_⟩
  rw [hbc]
  exact or_iff_left (by simp [empty])

lemma toVartype_frame (h : m.WellFormed) (t : Vartype) : (m.toVartype t).vartype = t ∧
    (∀ w, w ∈ (m.toVartype t).labels ↔ w ∈ m.labels) ∧
    ∀ d, d ∈ (m.toVartype t).couplings.keys ↔ d ∈ m.couplings.keys := by
  unfold toVartype
  split
  · next ht => exact ⟨ht.symm, fun _ => Iff.rfl, fun _ => Iff.rfl⟩
  · cases t with
    | spin =>
      simp only [toSpin_eq]
      exact recast_frame h
    | binary =>
      simp only [toBinary_eq]
      exact recast_frame h

lemma vartype_recast (m : QuadraticModel α) :
    (m.recast t slope constant product single free).vartype = t := by
  have hcouplings : ∀ (es : List ((String × String) × α)) (k : QuadraticModel α),
      (es.foldl (recastCoupling product single free) k).vartype = k.vartype := by
    intro es
    induction es with
    | nil => exact fun k => rfl
    | cons e es ih =>
      intro k
      rw [List.foldl_cons, ih]
      simp [recastCoupling]
  rw [recast, hcouplings]
  exact (recastBias_frame slope constant m.linear.entries { empty t with offset := m.offset }).1

@[simp] lemma vartype_toVartype (m : QuadraticModel α) (t : Vartype) : (m.toVartype t).vartype = t := by
  unfold toVartype
  split
  · next ht => exact ht.symm
  · cases t with
    | spin => rw [toSpin_eq, vartype_recast]
    | binary => rw [toBinary_eq, vartype_recast]

lemma WellFormed.toVartype (h : m.WellFormed) (t : Vartype) : (m.toVartype t).WellFormed := by
  obtain ⟨-, hl, hc⟩ := toVartype_frame h t
  exact ⟨fun e he => h.ordered e ((hc e).mp he), fun e he => (hl _).mpr (h.left e ((hc e).mp he)),
    fun e he => (hl _).mpr (h.right e ((hc e).mp he))⟩

end Recast

section Value

variable {m : QuadraticModel ℚ} {slope constant product single free : ℚ → ℚ} {x : String → ℚ}

lemma value_recastBias (es : List (String × ℚ)) (k : QuadraticModel ℚ) :
    (es.foldl (recastBias slope constant) k).value x =
      k.value x + (es.map fun e => slope e.2 * x e.1 + constant e.2).sum := by
  induction es generalizing k with
  | nil => simp
  | cons e es ih =>
    rw [List.foldl_cons, ih, recastBias, value_addOffset, value_addBias, List.map_cons,
      List.sum_cons]
    ring

lemma value_recastCoupling (es : List ((String × String) × ℚ)) (k : QuadraticModel ℚ)
    (h : ∀ e ∈ es, e.1.1 ≠ e.1.2) :
    (es.foldl (recastCoupling product single free) k).value x = k.value x +
      (es.map fun e => product e.2 * (x e.1.1 * x e.1.2) +
        single e.2 * (x e.1.1 + x e.1.2) + free e.2).sum := by
  induction es generalizing k with
  | nil => simp
  | cons e es ih =>
    rw [List.foldl_cons, ih _ fun d hd => h d (by simp [hd]), recastCoupling, value_addOffset,
      value_addBias, value_addBias, value_addCoupling (h e (by simp)), List.map_cons, List.sum_cons]
    ring

lemma value_recast (h : m.WellFormed) (t : Vartype) :
    (m.recast t slope constant product single free).value x = m.offset +
      (m.linear.entries.map fun e => slope e.2 * x e.1 + constant e.2).sum +
      (m.couplings.entries.map fun e => product e.2 * (x e.1.1 * x e.1.2) +
        single e.2 * (x e.1.1 + x e.1.2) + free e.2).sum := by
  rw [recast, value_recastCoupling _ _ fun e he =>
    ne_of_before (h.ordered e.1 (List.mem_map_of_mem he)), value_recastBias]
  simp [value, empty]

lemma value_recast_of_terms (h : m.WellFormed) (t : Vartype) (y : String → ℚ)
    (hb : ∀ a v, slope a * x v + constant a = a * y v)
    (hc : ∀ a u v, product a * (x u * x v) + single a * (x u + x v) + free a = a * (y u * y v)) :
    (m.recast t slope constant product single free).value x = m.value y := by
  rw [value_recast h]
  simp only [hb, hc]
  rfl

lemma value_toBinary (h : m.WellFormed) :
    m.toBinary.value x = m.value fun v => 2 * x v - 1 := by
  have h2 : (two : ℚ) = 2 := rfl
  have h4 : (four : ℚ) = 4 := rfl
  have hn : (ofInt (-2) : ℚ) = -2 := rfl
  rw [toBinary_eq]
  apply value_recast_of_terms h
  · intro a v
    simp only [h2]
    ring
  · intro a u v
    simp only [h4, hn, id]
    ring

lemma value_toSpin (h : m.WellFormed) :
    m.toSpin.value x = m.value fun v => (x v + 1) / 2 := by
  have h2 : (half : ℚ) = 1 / 2 := rfl
  have h4 : (quarter : ℚ) = 1 / 4 := rfl
  rw [toSpin_eq]
  apply value_recast_of_terms h
  · intro a v
    simp only [h2]
    ring
  · intro a u v
    simp only [h4]
    ring

end Value

end QuadraticPenalty.QuadraticModel
