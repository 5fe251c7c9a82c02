import QuadraticPenalty.Proofs.Grid.Energies

namespace QuadraticPenalty

open Scalar Extended

namespace Landscape

open QuadraticModel

section Frame

variable {α : Type} [Scalar α] {m : QuadraticModel α} {g : Graph} {biases : List α}

def place (m : QuadraticModel α) (e : (String × String) × α) : QuadraticModel α :=
  if isZero e.2 then m else m.addCoupling e.1.1 e.1.2 e.2

lemma place_frame {e : (String × String) × α} (hm : m.WellFormed) (hs : m.vartype = .spin)
    (hu : e.1.1 ∈ m.labels) (hv : e.1.2 ∈ m.labels) : (place m e).WellFormed ∧
      (place m e).vartype = .spin ∧ (∀ w, w ∈ (place m e).labels ↔ w ∈ m.labels) ∧
      ∀ d ∈ (place m e).couplings.keys,
        d ∈ m.couplings.keys ∨ e.1.1 ≠ e.1.2 ∧ d = pair e.1.1 e.1.2 := by
  unfold place
  split
  · exact ⟨hm, hs, fun _ => Iff.rfl, fun d hd => .inl hd⟩
  · refine ⟨hm.addCoupling, by simpa using hs, fun w => ?_, fun d hd => ?_⟩
    · by_cases huv : e.1.1 = e.1.2
      · simp only [addCoupling, if_pos huv, hs, labels_addOffset]
      · rw [mem_labels_addCoupling huv]
        constructor
        · rintro (rfl | rfl | hw) <;> assumption
        · exact fun hw => .inr (.inr hw)
    · by_cases huv : e.1.1 = e.1.2
      · simp only [addCoupling, if_pos huv, hs] at hd
        exact .inl hd
      · simp only [addCoupling, if_neg huv] at hd
        rcases SortedMap.mem_keys_update.mp hd with hd | hd
        exacts [.inr ⟨huv, hd⟩, .inl hd]

lemma places_frame (es : List ((String × String) × α)) (m : QuadraticModel α) (hm : m.WellFormed)
    (hs : m.vartype = .spin) (hl : ∀ e ∈ es, e.1.1 ∈ m.labels ∧ e.1.2 ∈ m.labels) :
    (es.foldl place m).WellFormed ∧ (es.foldl place m).vartype = .spin ∧
      (∀ w, w ∈ (es.foldl place m).labels ↔ w ∈ m.labels) ∧
      ∀ d ∈ (es.foldl place m).couplings.keys,
        d ∈ m.couplings.keys ∨ ∃ e ∈ es, e.1.1 ≠ e.1.2 ∧ d = pair e.1.1 e.1.2 := by
  induction es generalizing m with
  | nil => exact ⟨hm, hs, fun _ => Iff.rfl, fun d hd => .inl hd⟩
  | cons e es ih =>
    obtain ⟨hu, hv⟩ := hl e (by simp)
    obtain ⟨hpw, hps, hpl, hpk⟩ := place_frame hm hs hu hv
    obtain ⟨hw, ht, hlabels, hkeys⟩ := ih (place m e) hpw hps fun d hd => by
      simpa only [hpl] using hl d (by simp [hd])
    refine ⟨hw, ht, fun w => (hlabels w).trans (hpl w), fun d hd => ?_⟩
    rcases hkeys d hd with hd | ⟨f, hf, hne, rfl⟩
    · rcases hpk d hd with hd | ⟨hne, rfl⟩
      exacts [.inl hd, .inr ⟨e, by simp, hne, rfl⟩]
    · exact .inr ⟨f, by simp [hf], hne, rfl⟩

def spinModel (g : Graph) (biases : List α) (ground : α) : QuadraticModel α :=
  ((g.edges.zip (biases.drop g.nodes.length)).foldl place
    ((g.nodes.zip biases).foldl (fun m e => m.addBias e.1 e.2) (empty .spin))).addOffset (-ground)

lemma spinModel_frame (ground : α) (he : ∀ e ∈ g.edges, e.1 ∈ g.nodes ∧ e.2 ∈ g.nodes)
    (hb : g.nodes.length ≤ biases.length) : (spinModel g biases ground).WellFormed ∧
      (spinModel g biases ground).vartype = .spin ∧
      (∀ v, v ∈ (spinModel g biases ground).labels ↔ v ∈ g.nodes) ∧
      ∀ d ∈ (spinModel g biases ground).couplings.keys,
        ∃ e ∈ g.edges, e.1 ≠ e.2 ∧ d = pair e.1 e.2 := by
  let base : QuadraticModel α :=
    (g.nodes.zip biases).foldl (fun m e => m.addBias e.1 e.2) (empty .spin)
  obtain ⟨hc, -, ht, hl⟩ := addBiases_frame (g.nodes.zip biases) (empty .spin : QuadraticModel α)
  have hkeys : base.couplings.keys = [] := congrArg SortedMap.keys hc
  have hlabels : ∀ v, v ∈ base.labels ↔ v ∈ g.nodes := by
    intro v
    rw [hl v, List.map_fst_zip hb]
    exact or_iff_left (by simp [empty, labels])
  have hbase : base.WellFormed := by constructor <;> simp [hkeys]
  obtain ⟨hw, hs, hpl, hpk⟩ := places_frame (g.edges.zip (biases.drop g.nodes.length)) base hbase ht
    fun e hm => by simpa only [hlabels] using he _ (List.of_mem_zip hm).1
  refine ⟨hw.addOffset, hs, fun v => (hpl v).trans (hlabels v), fun d hd => ?_⟩
  rcases hpk d hd with hd | ⟨e, hm, hne, rfl⟩
  · rw [hkeys] at hd
    cases hd
  · exact ⟨e.1, (List.of_mem_zip hm).1, hne, rfl⟩

end Frame

variable {m : QuadraticModel ℚ} {x : String → ℚ} {g : Graph} {biases : List ℚ} {ground : ℚ}

lemma isZero_iff {a : ℚ} : isZero a = true ↔ a = 0 := by
  have h : isZero a = (decide (a ≤ 0) && decide (0 ≤ a)) := rfl
  rw [h, Bool.and_eq_true, decide_eq_true_eq, decide_eq_true_eq]
  exact le_antisymm_iff.symm

lemma exact_places (es : List ((String × String) × ℚ)) (m : QuadraticModel ℚ) :
    (es.foldl place m).exact = (es.map fun e => (e.1, finite e.2)).foldl place m.exact := by
  induction es generalizing m with
  | nil => rfl
  | cons e es ih =>
    have hz : isZero (finite e.2) = isZero e.2 := rfl
    rw [List.foldl_cons, ih, List.map_cons, List.foldl_cons, place, place, hz]
    split
    · rfl
    · rw [exact_addCoupling]

lemma value_place {e : (String × String) × ℚ} (hs : m.vartype = .spin)
    (hx : x e.1.1 * x e.1.1 = 1) :
    (place m e).value x = m.value x + e.2 * (x e.1.1 * x e.1.2) := by
  unfold place
  split
  · next hz => simp [isZero_iff.mp hz]
  · by_cases huv : e.1.1 = e.1.2
    · rw [← huv]
      refine value_addCoupling_self ?_
      rw [hs, hx]
    · exact value_addCoupling huv

lemma value_places (es : List ((String × String) × ℚ)) (m : QuadraticModel ℚ)
    (hs : m.vartype = .spin) (hx : ∀ e ∈ es, x e.1.1 * x e.1.1 = 1) :
    (es.foldl place m).value x =
      m.value x + (es.map fun e => e.2 * (x e.1.1 * x e.1.2)).sum := by
  induction es generalizing m with
  | nil => simp
  | cons e es ih =>
    have ht : (place m e).vartype = .spin := by
      unfold place
      split
      · exact hs
      · simpa using hs
    rw [List.foldl_cons, ih _ ht fun d hd => hx d (by simp [hd]), value_place hs (hx e (by simp)),
      List.map_cons, List.sum_cons, add_assoc]

lemma exact_spinModel {l : Landscape Extended} {digits : List ℕ}
    (hb : l.values digits = biases.map finite) :
    (spinModel g biases ground).exact = l.modelAt g digits (finite ground) := by
  have hzip : ∀ {β : Type} (as : List β) (bs : List ℚ),
      as.zip (bs.map finite) = (as.zip bs).map fun e => (e.1, finite e.2) := fun as bs =>
    List.zip_map_right ..
  rw [modelAt, hb, ← List.map_drop]
  simp only [hzip]
  rw [spinModel, exact_addOffset, exact_places, exact_addBiases, exact_empty]
  rfl

lemma value_spinModel (he : ∀ e ∈ g.edges, e.1 ∈ g.nodes ∧ e.2 ∈ g.nodes)
    (hx : ∀ v ∈ g.nodes, x v * x v = 1) :
    (spinModel g biases ground).value x = stateEnergy g biases x - ground := by
  obtain ⟨-, -, ht, -⟩ := addBiases_frame (g.nodes.zip biases) (empty .spin : QuadraticModel ℚ)
  rw [spinModel, value_addOffset, value_places _ _ ht fun e hm => hx _ (he _ (List.of_mem_zip hm).1).1,
    value_addBiases, value_empty, stateEnergy]
  ring

variable {r : Request Extended}

lemma value_spinModel_toVartype (hr : r.WellFormed) (hb : r.graph.nodes.length ≤ biases.length)
    {x : Assignment} (hx : x.Covers r.vartype r.graph.nodes) :
    ((spinModel r.graph biases ground).toVartype r.vartype).value x.reading =
      stateEnergy r.graph biases (fun v => r.vartype.toSpin ((x v).getD 0)) - ground := by
  obtain ⟨hw, hs, hl, -⟩ := spinModel_frame ground hr.edges hb
  have hsquare : ∀ v ∈ r.graph.nodes, ((r.vartype.toSpin ((x v).getD 0) : ℤ) : ℚ) *
      (r.vartype.toSpin ((x v).getD 0) : ℤ) = 1 := fun v _ => by
    rcases Vartype.mem_values.mp (Vartype.toSpin_mem r.vartype ((x v).getD 0)) with h | h <;>
      norm_num [h, Vartype.low, Vartype.high]
  rw [value_toVartype hw hs fun v hv => hx v ((hl v).mp hv), value_spinModel hr.edges hsquare]

lemma mem_energiesWith_spinModel (hr : r.WellFormed) (hb : r.graph.nodes.length ≤ biases.length)
    {c : List ℤ} {e : ℚ} :
    e ∈ ((spinModel r.graph biases ground).exact.toVartype r.vartype).energiesWith r.decision
      (.ofLists r.decision c) ↔ e + ground ∈ energiesAt r biases c := by
  obtain ⟨hw, hs, hl, -⟩ := spinModel_frame ground hr.edges hb
  obtain ⟨ht, htl, -⟩ := toVartype_frame hw r.vartype
  rw [← exact_toVartype, mem_energiesWith (hw.toVartype r.vartype), ht]
  refine exists_congr fun x => ?_
  have hcover : x.Covers r.vartype ((spinModel r.graph biases ground).toVartype r.vartype).labels ↔
      x.Covers r.vartype r.graph.nodes :=
    forall_congr' fun v => imp_congr_left ((htl v).trans (hl v))
  rw [hcover]
  refine and_congr_right fun hx => and_congr_right fun _ => ?_
  rw [value_spinModel_toVartype hr hb hx, sub_eq_iff_eq_add]

end Landscape

end QuadraticPenalty
