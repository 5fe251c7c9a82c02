import QuadraticPenalty.Proofs.Model.Merging
import QuadraticPenalty.Proofs.Tuples

namespace QuadraticPenalty.QuadraticModel

open Scalar Ordered

section Labels

variable {α : Type} {m k n : QuadraticModel α} {u v w : String} {a : α}

structure WellFormed (m : QuadraticModel α) : Prop where
  ordered : ∀ e ∈ m.couplings.keys, before e.1 e.2 = true
  left : ∀ e ∈ m.couplings.keys, e.1 ∈ m.labels
  right : ∀ e ∈ m.couplings.keys, e.2 ∈ m.labels

lemma pair_eq (h : u ≠ v) : pair u v = (u, v) ∧ before u v = true ∨
    pair u v = (v, u) ∧ before v u = true := by
  cases huv : before u v with
  | true => simp [pair, huv]
  | false =>
    cases hvu : before v u with
    | true => simp [pair, huv]
    | false => exact absurd (before_connected huv hvu) h

lemma WellFormed.updateCoupling (h : m.WellFormed) {e : String × String} {f : Option α → α}
    (ho : before e.1 e.2 = true) (hl : e.1 ∈ m.labels) (hr : e.2 ∈ m.labels) :
    ({ m with couplings := m.couplings.update e f } : QuadraticModel α).WellFormed := by
  constructor <;> intro d hd <;> rcases SortedMap.mem_keys_update.mp hd with rfl | hd
  exacts [ho, h.ordered d hd, hl, h.left d hd, hr, h.right d hd]

variable [Scalar α]

lemma wellFormed_empty (t : Vartype) : (empty t : QuadraticModel α).WellFormed := by
  constructor <;> simp [empty]

lemma mem_labels_addBias : w ∈ (m.addBias v a).labels ↔ w = v ∨ w ∈ m.labels :=
  SortedMap.mem_keys_update

@[simp] lemma labels_addOffset : (m.addOffset a).labels = m.labels := rfl

@[simp] lemma vartype_addBias : (m.addBias v a).vartype = m.vartype := rfl

@[simp] lemma vartype_addOffset : (m.addOffset a).vartype = m.vartype := rfl

@[simp] lemma vartype_addCoupling : (m.addCoupling u v a).vartype = m.vartype := by
  unfold addCoupling
  split
  · split <;> rfl
  · rfl

lemma mem_labels_addCoupling (h : u ≠ v) :
    w ∈ (m.addCoupling u v a).labels ↔ w = u ∨ w = v ∨ w ∈ m.labels := by
  simp only [addCoupling, if_neg h]
  change w ∈ ((m.addBias u zero).addBias v zero).labels ↔ _
  rw [mem_labels_addBias, mem_labels_addBias]
  tauto

lemma mem_keys_addCoupling_pair (h : u ≠ v) (d : String × String) :
    d ∈ (m.addCoupling u v a).couplings.keys ↔ d = pair u v ∨ d ∈ m.couplings.keys := by
  simp only [addCoupling, if_neg h]
  exact SortedMap.mem_keys_update

lemma WellFormed.addOffset (h : m.WellFormed) : (m.addOffset a).WellFormed :=
  ⟨h.ordered, h.left, h.right⟩

lemma WellFormed.addBias (h : m.WellFormed) : (m.addBias v a).WellFormed where
  ordered := h.ordered
  left e he := mem_labels_addBias.mpr (.inr (h.left e he))
  right e he := mem_labels_addBias.mpr (.inr (h.right e he))

lemma WellFormed.addCoupling (h : m.WellFormed) : (m.addCoupling u v a).WellFormed := by
  by_cases huv : u = v
  · simp only [QuadraticModel.addCoupling, if_pos huv]
    split
    exacts [h.addOffset, h.addBias]
  · simp only [QuadraticModel.addCoupling, if_neg huv]
    have hb : ((m.addBias u zero).addBias v zero).WellFormed := h.addBias.addBias
    rcases pair_eq huv with ⟨he, ho⟩ | ⟨he, ho⟩ <;> rw [he] <;>
      exact hb.updateCoupling ho (by simp [mem_labels_addBias]) (by simp [mem_labels_addBias])

lemma addBiases_frame (es : List (String × α)) (m : QuadraticModel α) :
    (es.foldl (fun m e => m.addBias e.1 e.2) m).couplings = m.couplings ∧
      (es.foldl (fun m e => m.addBias e.1 e.2) m).offset = m.offset ∧
      (es.foldl (fun m e => m.addBias e.1 e.2) m).vartype = m.vartype ∧
      ∀ w, w ∈ (es.foldl (fun m e => m.addBias e.1 e.2) m).labels ↔
        w ∈ es.map Prod.fst ∨ w ∈ m.labels := by
  rw [addBiases_eq]
  exact ⟨rfl, rfl, rfl, SortedMap.mem_keys_addAll es m.linear⟩

lemma merge_frame (h : m.merge k = .ok n) : k.vartype = m.vartype ∧ n.vartype = m.vartype ∧
    (∀ v, v ∈ n.labels ↔ v ∈ m.labels ∨ v ∈ k.labels) ∧
    ∀ d, d ∈ n.couplings.keys ↔ d ∈ m.couplings.keys ∨ d ∈ k.couplings.keys := by
  obtain ⟨ht, rfl⟩ := merge_eq_ok_iff.mp h
  exact ⟨ht, rfl, fun _ => SortedMap.mem_keys_plus, fun _ => SortedMap.mem_keys_plus⟩

lemma WellFormed.merge (hm : m.WellFormed) (hk : k.WellFormed) (h : m.merge k = .ok n) :
    n.WellFormed := by
  obtain ⟨-, -, hl, hc⟩ := merge_frame h
  constructor <;> intro d hd <;> rcases (hc d).mp hd with hd | hd
  exacts [hm.ordered d hd, hk.ordered d hd, (hl _).mpr (.inl (hm.left d hd)),
    (hl _).mpr (.inr (hk.left d hd)), (hl _).mpr (.inl (hm.right d hd)),
    (hl _).mpr (.inr (hk.right d hd))]

end Labels

section Value

variable {m k n : QuadraticModel ℚ} {u v : String} {a : ℚ} {x y : String → ℚ}

def value (m : QuadraticModel ℚ) (x : String → ℚ) : ℚ :=
  m.offset + m.linear.total x + m.couplings.total fun e => x e.1 * x e.2

lemma value_congr (hm : m.WellFormed) (h : ∀ v ∈ m.labels, x v = y v) : m.value x = m.value y := by
  have hc : ∀ e ∈ m.couplings.keys, x e.1 * x e.2 = y e.1 * y e.2 := fun e he => by
    rw [h _ (hm.left e he), h _ (hm.right e he)]
  rw [value, value, SortedMap.total_congr h, SortedMap.total_congr hc]

@[simp] lemma value_empty (t : Vartype) : (empty t : QuadraticModel ℚ).value x = 0 := by
  have hz : (zero : ℚ) = 0 := rfl
  simp [value, empty, hz]

@[simp] lemma value_addOffset : (m.addOffset a).value x = m.value x + a := by
  simp only [value, addOffset]
  ring

lemma total_addBias : (m.addBias v a).linear.total x = m.linear.total x + a * x v :=
  SortedMap.total_update x m.linear v a

@[simp] lemma value_addBias : (m.addBias v a).value x = m.value x + a * x v := by
  rw [value, total_addBias, value]
  change m.offset + _ + m.couplings.total _ = _
  ring

lemma value_addCoupling (h : u ≠ v) :
    (m.addCoupling u v a).value x = m.value x + a * (x u * x v) := by
  have hb : ((m.addBias u zero).addBias v zero).value x = m.value x := by
    have hz : (zero : ℚ) = 0 := rfl
    simp [hz]
  have hp : x (pair u v).1 * x (pair u v).2 = x u * x v := by
    rcases pair_eq h with ⟨he, -⟩ | ⟨he, -⟩ <;> rw [he]
    exact mul_comm _ _
  simp only [addCoupling, if_neg h]
  rw [← hb, ← hp]
  have ht := SortedMap.total_update (fun e => x e.1 * x e.2)
    ((m.addBias u zero).addBias v zero).couplings (pair u v) a
  simp only [value]
  change _ + _ + ((SortedMap.update _ _ fun old => old.getD 0 + a).total _) = _
  rw [ht]
  ring

lemma value_addCoupling_self (h : x u * x u = match m.vartype with | .spin => 1 | .binary => x u) :
    (m.addCoupling u u a).value x = m.value x + a * (x u * x u) := by
  rw [h]
  simp only [addCoupling, if_true]
  cases m.vartype with
  | spin => rw [value_addOffset, mul_one]
  | binary => exact value_addBias

lemma value_addBiases (es : List (String × ℚ)) (m : QuadraticModel ℚ) :
    (es.foldl (fun m e => m.addBias e.1 e.2) m).value x =
      m.value x + (es.map fun e => e.2 * x e.1).sum := by
  induction es generalizing m with
  | nil => simp
  | cons e es ih => rw [List.foldl_cons, ih, value_addBias, List.map_cons, List.sum_cons, add_assoc]

lemma value_merge (h : m.merge k = .ok n) : n.value x = m.value x + k.value x := by
  obtain ⟨-, rfl⟩ := merge_eq_ok_iff.mp h
  simp only [value, plus, SortedMap.total_plus]
  ring

end Value

end QuadraticPenalty.QuadraticModel
