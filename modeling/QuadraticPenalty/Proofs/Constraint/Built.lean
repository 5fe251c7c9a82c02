import QuadraticPenalty.Constraint.Algebra
import QuadraticPenalty.Proofs.Constraint.WellFormed

namespace QuadraticPenalty.Constraint

inductive Built : Constraint → Prop
  | configurations {cs : List (List ℤ)} {scope : List String} {t : Vartype} {c : Constraint} :
      ofConfigurations cs scope t = .ok c → Built c
  | predicate {p : List ℤ → Bool} {scope : List String} {t : Vartype} {c : Constraint} :
      ofPredicate p scope t = .ok c → Built c
  | rename {c : Constraint} (name : String) : Built c → Built (c.rename name)
  | union {c d e : Constraint} : Built c → Built d → c.union d = .ok e → Built e
  | intersection {c d e : Constraint} : Built c → Built d → c.intersection d = .ok e → Built e
  | project {c d : Constraint} {labels : List String} : Built c → c.project labels = .ok d → Built d
  | fix {c d : Constraint} {v : String} {x : ℤ} : Built c → c.fix v x = .ok d → Built d
  | flip {c d : Constraint} {v : String} : Built c → c.flip v = .ok d → Built d

variable {c d e : Constraint} {v : String}

lemma combine_wellFormed {op : Bool → Bool → Bool} {name : String} (h : combine op name c d = .ok e) :
    e.WellFormed := by
  rw [combine] at h
  split at h
  · cases h
  · exact (checked_eq_ok_iff.mp h).1 ▸ (checked_eq_ok_iff.mp h).2

lemma project_wellFormed {labels : List String} (h : c.project labels = .ok d) : d.WellFormed := by
  obtain ⟨ps, -, h⟩ := exists_of_bind_ok h
  exact (checked_eq_ok_iff.mp h).1 ▸ (checked_eq_ok_iff.mp h).2

lemma flip_mem {t : Vartype} {x : ℤ} (h : x ∈ t.values) : t.flip x ∈ t.values := by
  rw [Vartype.mem_values] at h ⊢
  cases t with
  | spin =>
    simp only [Vartype.flip, Vartype.low, Vartype.high] at h ⊢
    omega
  | binary =>
    simp only [Vartype.flip, Vartype.low, Vartype.high] at h ⊢
    omega

lemma isTuple_modify {t : Vartype} {n : ℕ} {y : List ℤ} (h : t.IsTuple n y) (p : ℕ) :
    t.IsTuple n (y.modify p t.flip) := by
  refine ⟨(List.length_modify ..).trans h.1, fun x hx => ?_⟩
  obtain ⟨i, hi⟩ := List.mem_iff_getElem?.mp hx
  rw [List.getElem?_modify] at hi
  obtain ⟨z, hz, rfl⟩ := Option.map_eq_some_iff.mp hi
  have hz := h.2 z (List.mem_of_getElem? hz)
  split
  exacts [flip_mem hz, hz]

lemma WellFormed.flip (hc : c.WellFormed) (h : c.flip v = .ok d) : d.WellFormed := by
  obtain ⟨p, -, h⟩ := exists_of_bind_ok h
  cases h
  refine ⟨hc.1, fun y hy => ?_, fun hs => ?_⟩
  · obtain ⟨z, hz, rfl⟩ := SortedSet.mem_map.mp hy
    exact isTuple_modify (hc.isTuple hz) p
  · obtain ⟨z, hz⟩ := List.exists_mem_of_ne_nil _ (hc.2.2 hs)
    exact List.ne_nil_of_mem (SortedSet.mem_map.mpr ⟨z, hz, rfl⟩)

lemma Built.wellFormed (h : Built c) : c.WellFormed := by
  induction h with
  | configurations h => exact (ofConfigurations_wellFormed h).1
  | predicate h => exact (ofPredicate_wellFormed h).1
  | rename name _ ih => exact ih
  | union _ _ h => exact combine_wellFormed h
  | intersection _ _ h => exact combine_wellFormed h
  | project _ h => exact project_wellFormed h
  | fix _ h ih => exact ih.fix h
  | flip _ h ih => exact ih.flip h

end QuadraticPenalty.Constraint
