import QuadraticPenalty.Assignment
import QuadraticPenalty.Proofs.Model.Exact

namespace QuadraticPenalty

open Scalar Extended

lemma map_getD_idxOf {κ β : Type} [BEq κ] [LawfulBEq κ] {keys : List κ} {xs : List β}
    (hn : keys.Nodup) (h : xs.length = keys.length) (z : κ → β) :
    keys.map (fun k => xs.getD (keys.idxOf k) (z k)) = xs := by
  apply List.ext_getElem (by simpa using h.symm)
  intro i hi hj
  have hlt : i < keys.length := h ▸ hj
  simp only [List.getElem_map, hn.idxOf_getElem i hlt, List.getD_eq_getElem _ _ hj]

namespace Assignment

def Covers (a : Assignment) (t : Vartype) (vs : List String) : Prop :=
  ∀ v ∈ vs, ∃ y ∈ t.values, a v = some y

def reading (a : Assignment) (v : String) : ℚ := ((a v).getD 0 : ℤ)

lemma reading_congr {a b : Assignment} {v : String} (h : a v = b v) :
    a.reading v = b.reading v := by
  rw [reading, h, reading]

lemma lookup_zip_map (vs : List String) (f : String → ℤ) {v : String} (h : v ∈ vs) :
    (vs.zip (vs.map f)).lookup v = some (f v) := by
  induction vs with
  | nil => cases h
  | cons u vs ih =>
    by_cases hv : v = u
    · simp [hv]
    · have hb : (v == u) = false := by simpa using hv
      simp only [List.map_cons, List.zip_cons_cons, List.lookup, hb]
      exact ih ((List.mem_cons.mp h).resolve_left hv)

lemma exists_map_of_length {vs : List String} {xs : List ℤ} (hn : vs.Nodup)
    (h : xs.length = vs.length) : ∃ f : String → ℤ, xs = vs.map f :=
  ⟨_, (map_getD_idxOf hn h fun _ => 0).symm⟩

lemma ofLists_map (vs : List String) (f : String → ℤ) {v : String} (h : v ∈ vs) :
    ofLists vs (vs.map f) v = some (f v) := by
  simp [ofLists, setAll, lookup_zip_map vs f h]

lemma Covers.isTuple {a : Assignment} {t : Vartype} {vs : List String} (h : a.Covers t vs) :
    t.IsTuple vs.length (vs.map fun v => (a v).getD 0) := by
  refine ⟨by simp, fun y hy => ?_⟩
  obtain ⟨v, hv, rfl⟩ := List.mem_map.mp hy
  obtain ⟨y, hy, ha⟩ := h v hv
  simpa [ha] using hy

lemma covers_ofLists {t : Vartype} {vs : List String} {xs : List ℤ} (hn : vs.Nodup)
    (hx : t.IsTuple vs.length xs) : (ofLists vs xs).Covers t vs := by
  obtain ⟨f, rfl⟩ := exists_map_of_length hn hx.1
  exact fun v hv => ⟨f v, hx.2 _ (List.mem_map_of_mem hv), ofLists_map vs f hv⟩

lemma Covers.ofLists_eq {a : Assignment} {t : Vartype} {vs : List String} (h : a.Covers t vs)
    {v : String} (hv : v ∈ vs) : ofLists vs (vs.map fun v => (a v).getD 0) v = a v := by
  rw [ofLists_map vs _ hv]
  obtain ⟨y, -, ha⟩ := h v hv
  simp [ha]

lemma exists_join {ks ps made : List String} {y z : Assignment} (hk : ∀ v ∈ ks, v ∉ made)
    (hp : ∀ v ∈ ps, v ∉ made → y v = z v) :
    ∃ w : Assignment, (∀ v ∈ ks, w v = y v) ∧ ∀ v ∈ ps, w v = z v := by
  refine ⟨fun v => if v ∈ made then z v else y v, fun v hv => if_neg (hk v hv), fun v hv => ?_⟩
  by_cases hm : v ∈ made
  · exact if_pos hm
  · exact (if_neg hm).trans (hp v hv hm)

end Assignment

namespace QuadraticModel

/-- The energies of the assignments of the model that agree with `a` on the labels `vs`. -/
def energiesWith (m : QuadraticModel Extended) (vs : List String) (a : Assignment) : Set ℚ :=
  {e | ∃ x : Assignment, x.Covers m.vartype m.labels ∧ (∀ v ∈ vs, x v = a v) ∧
    m.energy x = .ok (finite e)}

variable {k : QuadraticModel ℚ} {x a : Assignment} {vs : List String} {e : ℚ}

lemma valueOf_eq {t : Vartype} {v : String} {y : ℤ} (hy : y ∈ t.values) (ha : a v = some y) :
    valueOf t a v = .ok y := by
  simp [valueOf, ha, Vartype.contains_iff.mpr hy]

lemma foldlM_biases (t : Vartype) (es : List (String × ℚ)) (e : ℚ)
    (h : ∀ p ∈ es, ∃ y ∈ t.values, a p.1 = some y) :
    es.foldlM (addBiasTerm t a) e = .ok (e + (es.map fun p => p.2 * a.reading p.1).sum) := by
  induction es generalizing e with
  | nil => simp [pure, Except.pure]
  | cons p es ih =>
    obtain ⟨y, hy, ha⟩ := h p (by simp)
    have hr : a.reading p.1 = y := by simp [Assignment.reading, ha]
    have hterm : addBiasTerm t a e p = .ok (e + p.2 * a.reading p.1) := by
      rw [addBiasTerm, valueOf_eq hy ha, hr]
      rfl
    rw [List.foldlM_cons, hterm, List.map_cons, List.sum_cons, ← add_assoc]
    exact ih _ fun q hq => h q (by simp [hq])

lemma foldlM_couplings (t : Vartype) (es : List ((String × String) × ℚ)) (e : ℚ)
    (h : ∀ p ∈ es, (∃ y ∈ t.values, a p.1.1 = some y) ∧ ∃ y ∈ t.values, a p.1.2 = some y) :
    es.foldlM (addCouplingTerm t a) e =
      .ok (e + (es.map fun p => p.2 * (a.reading p.1.1 * a.reading p.1.2)).sum) := by
  induction es generalizing e with
  | nil => simp [pure, Except.pure]
  | cons p es ih =>
    obtain ⟨⟨y, hy, ha⟩, ⟨z, hz, hb⟩⟩ := h p (by simp)
    have hr : a.reading p.1.1 = y := by simp [Assignment.reading, ha]
    have hs : a.reading p.1.2 = z := by simp [Assignment.reading, hb]
    have hterm : addCouplingTerm t a e p = .ok (e + p.2 * (a.reading p.1.1 * a.reading p.1.2)) := by
      rw [addCouplingTerm, valueOf_eq hy ha, valueOf_eq hz hb, hr, hs, ← mul_assoc]
      rfl
    rw [List.foldlM_cons, hterm, List.map_cons, List.sum_cons, ← add_assoc]
    exact ih _ fun q hq => h q (by simp [hq])

lemma energy_eq (hk : k.WellFormed) (hx : x.Covers k.vartype k.labels) :
    k.energy x = .ok (k.value x.reading) := by
  have hbiases := foldlM_biases k.vartype k.linear.entries k.offset fun p hp =>
    hx p.1 (List.mem_map_of_mem hp)
  rw [energy_eq_foldlM, hbiases]
  exact foldlM_couplings k.vartype k.couplings.entries _ fun p hp =>
    ⟨hx _ (hk.left p.1 (List.mem_map_of_mem hp)), hx _ (hk.right p.1 (List.mem_map_of_mem hp))⟩

lemma energy_exact (hk : k.WellFormed) (hx : x.Covers k.vartype k.labels) :
    k.exact.energy x = .ok (finite (k.value x.reading)) := by
  rw [exact_energy, energy_eq hk hx]
  rfl

lemma mem_energiesWith (hk : k.WellFormed) : e ∈ k.exact.energiesWith vs a ↔
    ∃ x : Assignment, x.Covers k.vartype k.labels ∧ (∀ v ∈ vs, x v = a v) ∧
      k.value x.reading = e := by
  constructor
  · rintro ⟨x, hx, ha, he⟩
    rw [exact_labels] at hx
    rw [energy_exact hk hx] at he
    injection he with he
    injection he with he
    exact ⟨x, hx, ha, he⟩
  · rintro ⟨x, hx, ha, rfl⟩
    exact ⟨x, by rwa [exact_labels], ha, energy_exact hk hx⟩

lemma value_toVartype (hk : k.WellFormed) (hs : k.vartype = .spin) {t : Vartype}
    (hx : x.Covers t k.labels) :
    (k.toVartype t).value x.reading = k.value fun v => (t.toSpin ((x v).getD 0) : ℤ) := by
  have hvalue : ∀ v ∈ k.labels, (x v).getD 0 ∈ t.values := fun v hv => by
    obtain ⟨y, hy, hxv⟩ := hx v hv
    simpa [hxv] using hy
  cases t with
  | spin =>
    rw [toVartype, if_pos hs.symm]
    refine value_congr hk fun v hv => ?_
    rcases Vartype.mem_values.mp (hvalue v hv) with h | h <;> rw [Assignment.reading, h] <;> rfl
  | binary =>
    have hne : Vartype.binary ≠ k.vartype := by simp [hs]
    rw [toVartype, if_neg hne, value_toBinary hk]
    refine value_congr hk fun v hv => ?_
    rcases Vartype.mem_values.mp (hvalue v hv) with h | h <;> rw [Assignment.reading, h] <;>
      norm_num [Vartype.low, Vartype.high, Vartype.toSpin]

lemma value_ofLists (hk : k.WellFormed) (hx : x.Covers k.vartype k.labels) :
    k.value (Assignment.ofLists k.labels (k.labels.map fun v => (x v).getD 0)).reading =
      k.value x.reading :=
  value_congr hk fun _ hv => Assignment.reading_congr (hx.ofLists_eq hv)

lemma energiesWith_finite (hk : k.WellFormed) : (k.exact.energiesWith vs a).Finite := by
  let values := (k.vartype.tuples k.labels.length).map fun y =>
    k.value (Assignment.ofLists k.labels y).reading
  refine values.finite_toSet.subset fun e he => ?_
  obtain ⟨x, hx, -, rfl⟩ := (mem_energiesWith hk).mp he
  exact List.mem_map.mpr ⟨_, Vartype.mem_tuples.mpr hx.isTuple, value_ofLists hk hx⟩

lemma energiesWith_nonempty (vs : List String) (a : Assignment) (hk : k.WellFormed)
    (ha : ∀ v ∈ vs, v ∈ k.labels → ∃ y ∈ k.vartype.values, a v = some y) :
    (k.exact.energiesWith vs a).Nonempty := by
  let x : Assignment := fun v => if v ∈ vs then a v else some k.vartype.high
  refine ⟨_, (mem_energiesWith hk).mpr ⟨x, fun v hv => ?_, fun v hv => by simp [x, hv], rfl⟩⟩
  by_cases hvs : v ∈ vs
  · simpa [x, hvs] using ha v hvs hv
  · exact ⟨k.vartype.high, by simp, by simp [x, hvs]⟩

lemma exists_isLeast_energiesWith (vs : List String) (a : Assignment) (hk : k.WellFormed)
    (ha : ∀ v ∈ vs, v ∈ k.labels → ∃ y ∈ k.vartype.values, a v = some y) :
    ∃ e, IsLeast (k.exact.energiesWith vs a) e := by
  obtain ⟨e, he, hle⟩ := Set.exists_min_image _ id (energiesWith_finite hk)
    (energiesWith_nonempty vs a hk ha)
  exact ⟨e, he, hle⟩

end QuadraticModel

end QuadraticPenalty
