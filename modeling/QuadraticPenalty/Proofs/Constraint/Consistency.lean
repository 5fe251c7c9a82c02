import QuadraticPenalty.Proofs.Constraint.Built
import QuadraticPenalty.Proofs.Masks

namespace QuadraticPenalty

namespace Constraint

variable {c : Constraint} {t : Vartype} {cs : List (List ℤ)} {scope : List String} {x : List ℤ}

lemma tupleIn_ofLists (hn : c.scope.Nodup) (hx : x.length = c.scope.length) :
    c.tupleIn (.ofLists c.scope x) = x := by
  obtain ⟨f, rfl⟩ := Assignment.exists_map_of_length hn hx
  refine List.map_congr_left fun v hv => ?_
  rw [Assignment.ofLists_map c.scope f hv, Option.getD_some]

lemma holds_ofLists (hn : c.scope.Nodup) (hx : t.IsTuple c.scope.length x) :
    c.holds (.ofLists c.scope x) = .ok (c.accepts x) := by
  rw [holds_eq (Assignment.covers_ofLists hn hx), tupleIn_ofLists hn hx.1]

lemma WellFormed.isConsistent (hc : c.WellFormed) : c.isConsistent = true := by
  simp only [Constraint.isConsistent, Bool.and_eq_true, List.all_eq_true, Option.isNone_iff_eq_none]
  refine ⟨fun x hx => misfit_eq_none_iff.mpr (hc.isTuple hx), fun x hx => ?_⟩
  rw [holds_ofLists hc.1 (Vartype.isTuple_of_mem_maskedTuples hx)]
  exact BEq.rfl

lemma ofConfigurations_isOk_iff : (∃ c, ofConfigurations cs scope t = .ok c) ↔
    scope.Nodup ∧ (∀ x ∈ cs, t.IsTuple scope.length x) ∧ (scope ≠ [] → cs ≠ []) := by
  have hwell : (⟨defaultName, t, scope, .ofList cs⟩ : Constraint).WellFormed ↔
      scope.Nodup ∧ (∀ x ∈ cs, t.IsTuple scope.length x) ∧ (scope ≠ [] → cs ≠ []) := by
    simp only [WellFormed, Vartype.IsTuple, SortedSet.mem_ofList, ne_eq,
      SortedSet.toList_ofList_eq_nil_iff]
  rw [← hwell]
  constructor
  · rintro ⟨c, hc⟩
    exact (checked_eq_ok_iff.mp hc).2
  · exact fun h => ⟨_, checked_eq_ok_iff.mpr ⟨rfl, h⟩⟩

/-- However a constraint is built, its variables are distinct, its configurations are tuples over its
domain, it has one if it has a variable, and all checks over the domain pass. A list of tuples makes a
constraint just where it has these properties. -/
theorem built_consistent : (∀ c : Constraint, c.Built → c.scope.Nodup ∧
      (∀ x ∈ c.configurations, x.length = c.arity ∧ ∀ y ∈ x, y ∈ c.vartype.values) ∧
      (c.scope ≠ [] → ∃ x, x ∈ c.configurations) ∧ c.isConsistent = true) ∧
    ∀ (cs : List (List ℤ)) (scope : List String) (t : Vartype),
      (∃ c, ofConfigurations cs scope t = .ok c) ↔ scope.Nodup ∧
        (∀ x ∈ cs, x.length = scope.length ∧ ∀ y ∈ x, y ∈ t.values) ∧ (scope ≠ [] → ∃ x, x ∈ cs) := by
  refine ⟨fun c hc => ?_, fun cs scope t => ?_⟩
  · have hwell := hc.wellFormed
    exact ⟨hwell.1, hwell.2.1, fun hs => List.exists_mem_of_ne_nil _ (hwell.2.2 hs),
      hwell.isConsistent⟩
  · have hne : (∃ x, x ∈ cs) ↔ cs ≠ [] := by
      rw [ne_eq, List.eq_nil_iff_forall_not_mem, not_forall_not]
    rw [hne]
    exact ofConfigurations_isOk_iff

def settled : Constraint :=
  ⟨"Constraint (b flipped) (a fixed to 1)", .binary, ["b"], .ofList [[1]]⟩

lemma settled_built : settled.Built := by
  have hdiffer : ofPredicate (fun x => x.sum == 1) ["a", "b"] .binary =
      .ok ⟨"Constraint", .binary, ["a", "b"], .ofList [[0, 1], [1, 0]]⟩ := by cbv
  have hflip : (⟨"Constraint", .binary, ["a", "b"], .ofList [[0, 1], [1, 0]]⟩ : Constraint).flip "b" =
      .ok ⟨"Constraint (b flipped)", .binary, ["a", "b"], .ofList [[0, 0], [1, 1]]⟩ := by cbv
  have hfix : (⟨"Constraint (b flipped)", .binary, ["a", "b"], .ofList [[0, 0], [1, 1]]⟩ :
      Constraint).fix "a" 1 = .ok settled := by cbv
  exact .fix (.flip (.predicate hdiffer) hflip) hfix

theorem built_consistent_of_settled : settled.isConsistent = true ∧
    (∃ c, ofConfigurations [] [] .spin = .ok c) ∧ ¬ ∃ c, ofConfigurations [] ["a"] .spin = .ok c := by
  obtain ⟨hbuilt, hlist⟩ := built_consistent
  obtain ⟨-, -, -, hconsistent⟩ := hbuilt settled settled_built
  refine ⟨hconsistent, (hlist [] [] .spin).mpr (by simp), fun h => ?_⟩
  obtain ⟨-, -, hsome⟩ := (hlist [] ["a"] .spin).mp h
  simpa using hsome (by simp)

end Constraint

end QuadraticPenalty
