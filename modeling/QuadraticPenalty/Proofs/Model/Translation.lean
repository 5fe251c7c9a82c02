import QuadraticPenalty.Proofs.Model.Uniqueness

namespace QuadraticPenalty

open Scalar

lemma Vartype.eq_or_opposite (s t : Vartype) :
    s = t ∨ s = .spin ∧ t = .binary ∨ s = .binary ∧ t = .spin := by
  cases s <;> cases t <;> decide

namespace Assignment

variable {a : Assignment} {s t : Vartype} {vs : List String} {v : String} {y : ℤ}

def translate (a : Assignment) (s t : Vartype) : Assignment := fun v =>
  (a v).map fun y => t.ofSpin (s.toSpin y)

lemma Covers.translate (h : a.Covers s vs) : (a.translate s t).Covers t vs := by
  intro v hv
  obtain ⟨y, -, hy⟩ := h v hv
  exact ⟨_, t.ofSpin_mem _, congrArg (Option.map _) hy⟩

lemma translate_ofLists (vs : List String) (ys : List ℤ) :
    (ofLists vs ys).translate s t = ofLists vs (ys.map fun y => t.ofSpin (s.toSpin y)) := by
  funext v
  simp only [Assignment.translate, ofLists, setAll, empty]
  induction vs generalizing ys with
  | nil => rfl
  | cons u vs ih =>
    cases ys with
    | nil => rfl
    | cons y ys =>
      simp only [List.map_cons, List.zip_cons_cons, List.lookup_cons]
      split
      · rfl
      · exact ih ys

lemma reading_translate (h : a v = some y) : (a.translate s t).reading v = t.ofSpin (s.toSpin y) := by
  rw [reading, Assignment.translate, h, Option.map_some, Option.getD_some]

lemma Covers.reading_translate_self (h : a.Covers t vs) (hv : v ∈ vs) :
    (a.translate t t).reading v = a.reading v := by
  obtain ⟨y, hy, ha⟩ := h v hv
  rw [reading_translate ha, Vartype.ofSpin_toSpin hy, reading, ha, Option.getD_some]

lemma Covers.spin_reading (h : a.Covers .spin vs) (hv : v ∈ vs) :
    2 * (a.translate .spin .binary).reading v - 1 = a.reading v := by
  obtain ⟨y, hy, ha⟩ := h v hv
  rw [reading_translate ha, reading, ha, Option.getD_some]
  obtain rfl | rfl := Vartype.mem_values.mp hy <;>
    norm_num [Vartype.low, Vartype.high, Vartype.toSpin, Vartype.ofSpin]

lemma Covers.binary_reading (h : a.Covers .binary vs) (hv : v ∈ vs) :
    ((a.translate .binary .spin).reading v + 1) / 2 = a.reading v := by
  obtain ⟨y, hy, ha⟩ := h v hv
  rw [reading_translate ha, reading, ha, Option.getD_some]
  obtain rfl | rfl := Vartype.mem_values.mp hy <;>
    norm_num [Vartype.low, Vartype.high, Vartype.toSpin, Vartype.ofSpin]

end Assignment

namespace QuadraticModel

inductive Reachable {α : Type} [Scalar α] : QuadraticModel α → Prop
  | empty (t : Vartype) : Reachable (empty t)
  | addBias {m : QuadraticModel α} (v : String) (a : α) : Reachable m → Reachable (m.addBias v a)
  | addCoupling {m : QuadraticModel α} (u v : String) (a : α) :
      Reachable m → Reachable (m.addCoupling u v a)
  | addOffset {m : QuadraticModel α} (a : α) : Reachable m → Reachable (m.addOffset a)
  | merge {m k n : QuadraticModel α} :
      Reachable m → Reachable k → m.merge k = .ok n → Reachable n
  | toVartype {m : QuadraticModel α} (t : Vartype) : Reachable m → Reachable (m.toVartype t)

lemma Reachable.wellFormed {α : Type} [Scalar α] {m : QuadraticModel α} (h : m.Reachable) :
    m.WellFormed := by
  induction h with
  | empty t => exact wellFormed_empty t
  | addBias v a _ ih => exact ih.addBias
  | addCoupling u v a _ ih => exact ih.addCoupling
  | addOffset a _ ih => exact ih.addOffset
  | merge _ _ h ihm ihk => exact ihm.merge ihk h
  | toVartype t _ ih => exact ih.toVartype t

section Domains

variable {α : Type} [Scalar α] {m : QuadraticModel α} {t : Vartype}

lemma toVartype_of_eq (h : m.vartype = t) : m.toVartype t = m := if_pos h.symm

lemma toVartype_binary (h : m.vartype = .spin) : m.toVartype .binary = m.toBinary :=
  if_neg fun hb => Vartype.noConfusion (hb.trans h)

lemma toVartype_spin (h : m.vartype = .binary) : m.toVartype .spin = m.toSpin :=
  if_neg fun hs => Vartype.noConfusion (hs.trans h)

end Domains

variable {m : QuadraticModel ℚ} {a : Assignment} {s t : Vartype} {x : String → ℚ}

lemma value_translate (hm : m.WellFormed) (hs : m.vartype = s) (t : Vartype)
    (ha : a.Covers s m.labels) :
    (m.toVartype t).value (a.translate s t).reading = m.value a.reading := by
  obtain rfl | ⟨rfl, rfl⟩ | ⟨rfl, rfl⟩ := Vartype.eq_or_opposite s t
  · rw [toVartype_of_eq hs]
    exact value_congr hm fun v hv => ha.reading_translate_self hv
  · rw [toVartype_binary hs, value_toBinary hm]
    exact value_congr hm fun v hv => ha.spin_reading hv
  · rw [toVartype_spin hs, value_toSpin hm]
    exact value_congr hm fun v hv => ha.binary_reading hv

lemma energy_translate (hm : m.WellFormed) (t : Vartype) (ha : a.Covers m.vartype m.labels) :
    (m.toVartype t).energy (a.translate m.vartype t) = m.energy a := by
  obtain ⟨ht, hl, -⟩ := toVartype_frame hm t
  have hcovers : (a.translate m.vartype t).Covers t (m.toVartype t).labels := fun v hv =>
    ha.translate v ((hl v).mp hv)
  rw [energy_eq (hm.toVartype t) (ht.symm ▸ hcovers), energy_eq hm ha, value_translate hm rfl t ha]

lemma value_toVartype_toVartype (hm : m.WellFormed) (hs : m.vartype = s) (t : Vartype) :
    ((m.toVartype t).toVartype s).value x = m.value x := by
  have hk := hm.toVartype t
  have ht := vartype_toVartype m t
  obtain rfl | ⟨rfl, rfl⟩ | ⟨rfl, rfl⟩ := Vartype.eq_or_opposite s t
  · rw [toVartype_of_eq ht, toVartype_of_eq hs]
  · rw [toVartype_spin ht, value_toSpin hk, toVartype_binary hs, value_toBinary hm]
    congr 1
    funext v
    ring
  · rw [toVartype_binary ht, value_toBinary hk, toVartype_spin hs, value_toSpin hm]
    congr 1
    funext v
    ring

lemma toVartype_toVartype (hm : m.WellFormed) (t : Vartype) :
    (m.toVartype t).toVartype m.vartype = m := by
  have hk := hm.toVartype t
  obtain ⟨-, hl, hc⟩ := toVartype_frame hm t
  obtain ⟨hv', hl', hc'⟩ := toVartype_frame hk m.vartype
  exact eq_of_value (hk.toVartype m.vartype) hm hv' (fun v => (hl' v).trans (hl v))
    (fun d => (hc' d).trans (hc d)) fun x _ => value_toVartype_toVartype hm rfl t

/-- A change of domain keeps the variables and the pairs that are coupled, and gives the energy of each
assignment to its translation; changed back, the model is what it was. -/
theorem toVartype_invertible (m : QuadraticModel ℚ) (t : Vartype) (hm : m.Reachable) :
    (m.toVartype t).vartype = t ∧ (m.toVartype t).labels = m.labels ∧
      (m.toVartype t).couplings.keys = m.couplings.keys ∧
      (∀ a : Assignment, a.Covers m.vartype m.labels → ∃ e, m.energy a = .ok e ∧
        (m.toVartype t).energy (a.translate m.vartype t) = .ok e) ∧
      (m.toVartype t).toVartype m.vartype = m := by
  have hwell := hm.wellFormed
  obtain ⟨ht, hl, hc⟩ := toVartype_frame hwell t
  refine ⟨ht, SortedMap.keys_congr hl, SortedMap.keys_congr hc, fun a ha => ?_,
    toVartype_toVartype hwell t⟩
  exact ⟨_, energy_eq hwell ha, (energy_translate hwell t ha).trans (energy_eq hwell ha)⟩

def coupledSpins : QuadraticModel ℚ := ((empty .spin).addCoupling "b" "a" (-1)).addBias "a" 3

lemma coupledSpins_reachable : coupledSpins.Reachable :=
  .addBias "a" 3 (.addCoupling "b" "a" (-1) (.empty .spin))

theorem toVartype_invertible_of_coupledSpins :
    (coupledSpins.toVartype .binary).energy (.ofLists ["a", "b"] [0, 1]) = .ok (-2) ∧
      (coupledSpins.toVartype .binary).toVartype .spin = coupledSpins := by
  obtain ⟨-, -, -, henergy, hback⟩ := toVartype_invertible coupledSpins .binary coupledSpins_reachable
  have hcovers : Assignment.Covers (.ofLists ["a", "b"] [-1, 1]) coupledSpins.vartype
      coupledSpins.labels := by
    have hlabels : coupledSpins.labels = ["a", "b"] := by decide +kernel
    rw [hlabels]
    exact Assignment.covers_ofLists (by decide) ⟨rfl, by decide⟩
  obtain ⟨e, hspins, hbits⟩ := henergy _ hcovers
  have hvalue : coupledSpins.energy (.ofLists ["a", "b"] [-1, 1]) = .ok (-2) := by
    decide +kernel
  rw [Assignment.translate_ofLists] at hbits
  rw [hspins] at hvalue
  exact ⟨hbits.trans hvalue, hback⟩

end QuadraticModel

end QuadraticPenalty
