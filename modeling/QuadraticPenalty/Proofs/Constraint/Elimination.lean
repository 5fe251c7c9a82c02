import QuadraticPenalty.Proofs.Constraint.Combination
import QuadraticPenalty.Proofs.Constraint.Substitution

/-! A value is put in for a variable by a conjunction that forces it there, after which the variable is
projected away. -/

namespace QuadraticPenalty.Constraint

variable {c d e : Constraint} {t : Vartype} {v : String} {x : ℤ} {f : String → ℤ} {fault : Fault}

def unit (v : String) (x : ℤ) (t : Vartype) : Constraint := ⟨defaultName, t, [v], .ofList [[x]]⟩

lemma unit_wellFormed (hx : x ∈ t.values) : (unit v x t).WellFormed := by
  have hmem : [x] ∈ (unit v x t).configurations := SortedSet.mem_ofList.mpr (by simp)
  refine ⟨List.nodup_singleton v, fun y hy => ?_, fun _ => List.ne_nil_of_mem hmem⟩
  obtain rfl : y = [x] := by simpa [unit] using hy
  exact ⟨rfl, fun z hz => List.mem_singleton.mp hz ▸ hx⟩

lemma ofConfigurations_unit (hx : x ∈ t.values) : ofConfigurations [[x]] [v] t = .ok (unit v x t) :=
  checked_eq_ok_iff.mpr ⟨rfl, unit_wellFormed hx⟩

lemma allows_unit : (unit v x t).Allows f ↔ f v = x := by simp [Allows, unit]

lemma jointVariables_unit (hv : v ∈ c.scope) : jointVariables c (unit v x t) = c.scope := by
  have hnone : [v].filter (fun u => decide (u ∉ c.scope)) = [] := by simp [hv]
  rw [jointVariables, unit, hnone, List.append_nil]

def forced (c : Constraint) (v : String) (x : ℤ) : Constraint :=
  combined (· && ·) (c.name ++ " & " ++ defaultName) c (unit v x c.vartype)

lemma not_clashes_unit : ¬ c.Clashes (unit v x c.vartype) := fun h => h.2.2 rfl

section Forcing

variable (hc : c.WellFormed) (hv : v ∈ c.scope)

include hc hv

lemma allows_forced : (c.forced v x).Allows f ↔ c.Allows f ∧ f v = x := by
  rw [forced, allows_combined, Bool.and_eq_true, meets_iff, meets_iff, allows_unit, jointVariables_unit hv,
    jointVartype_left (List.ne_nil_of_mem hv)]
  exact and_iff_right_of_imp fun h => hc.valued h.1

lemma forced_wellFormed_iff (hx : x ∈ c.vartype.values) : (c.forced v x).WellFormed ↔ ¬ c.Excludes v x := by
  have hforced : (c.forced v x).WellFormed ↔ ∃ f, c.Allows f ∧ f v = x := by
    rw [← exists_congr fun f => allows_forced hc hv]
    refine (combined_wellFormed_iff hc.1 (unit_wellFormed hx).1).trans (forall_prop_of_true ?_)
    rw [jointVariables_unit hv]
    exact List.ne_nil_of_mem hv
  rw [hforced]
  refine ⟨?_, exists_of_not_excludes hc hv⟩
  rintro ⟨f, hf, hfx⟩ hexcludes
  exact ((excludes_iff hc).mp hexcludes).2 f hf hfx

lemma intersection_unit_eq_ok_iff (hn : c.arity ≤ 63) (hx : x ∈ c.vartype.values) :
    c.intersection (unit v x c.vartype) = .ok e ↔ ¬ c.Excludes v x ∧ e = c.forced v x := by
  have hjoint : (jointVariables c (unit v x c.vartype)).length ≤ 63 := by
    rwa [jointVariables_unit hv]
  rw [intersection, combine_eq_ok_iff hjoint, ← forced_wellFormed_iff hc hv hx]
  exact and_iff_right not_clashes_unit

lemma intersection_unit_eq_error_iff (hn : c.arity ≤ 63) (hx : x ∈ c.vartype.values) :
    c.intersection (unit v x c.vartype) = .error fault ↔
      c.Excludes v x ∧ fault = .noConfiguration c.arity := by
  have hjoint : (jointVariables c (unit v x c.vartype)).length ≤ 63 := by
    rwa [jointVariables_unit hv]
  rw [intersection, combine_eq_error_iff hc.1 (unit_wellFormed hx).1 hjoint, jointVariables_unit hv,
    ← not_not (a := c.Excludes v x), ← forced_wellFormed_iff hc hv hx]
  simp only [not_clashes_unit, false_and, not_false_eq_true, true_and, false_or]
  exact Iff.rfl

lemma allows_onto_forced (hw : (c.forced v x).WellFormed)
    (hsub : ∀ u ∈ c.scope.filter (· != v), u ∈ (c.forced v x).scope) :
    ((c.forced v x).onto (c.scope.filter (· != v))).Allows f ↔ c.Allows (Function.update f v x) := by
  rw [allows_onto_iff hw hsub]
  constructor
  · rintro ⟨g, hg, he⟩
    -- the assignment that completes the values is forced at the variable and agrees with them elsewhere
    obtain ⟨hcg, rfl⟩ := (allows_forced hc hv).mp hg
    refine hcg.congr fun u hu => ?_
    obtain rfl | huv := eq_or_ne u v
    · rw [Function.update_self]
    · rw [Function.update_of_ne huv]
      exact he u (List.mem_filter.mpr ⟨hu, bne_iff_ne.mpr huv⟩)
  · intro hf
    refine ⟨_, (allows_forced hc hv).mpr ⟨hf, Function.update_self ..⟩, fun u hu => ?_⟩
    exact Function.update_of_ne (bne_iff_ne.mp (List.mem_filter.mp hu).2) x f

lemma project_forced (hx : x ∈ c.vartype.values) (hd : c.fix v x = .ok d) :
    ∃ k, (c.forced v x).project (c.scope.filter (· != v)) = .ok k ∧ d.same k = true := by
  have hw : (c.forced v x).WellFormed :=
    (forced_wellFormed_iff hc hv hx).mpr ((fix_isOk_iff hc hv hx).mp ⟨d, hd⟩)
  have hscope : (c.forced v x).scope = c.scope := jointVariables_unit hv
  have hsub : ∀ u ∈ c.scope.filter (· != v), u ∈ (c.forced v x).scope := fun u hu =>
    hscope ▸ List.mem_of_mem_filter hu
  have hn : (c.scope.filter (· != v)).Nodup := hc.1.filter _
  obtain ⟨-, -, ht, -⟩ := fix_eq_ok hd
  refine ⟨_, project_eq_ok hw hn hsub, (hc.fix hd).same_of_allows (hw.onto hn hsub) (scope_fix hc hd) ?_ ?_⟩
  · exact ht.trans (jointVartype_left (List.ne_nil_of_mem hv)).symm
  · intro f
    rw [allows_fix hc hd, allows_onto_forced hc hv hw hsub]

end Forcing

/-- A value can be put in for a variable just where the constraint that forces it has a conjunction with
this one, and then both leave the same constraint, once the variable is projected away from the
conjunction. No value can be put in where that conjunction is empty. -/
theorem fix_eliminates (c : Constraint) (v : String) (x : ℤ) (hc : c.WellFormed) (hv : v ∈ c.scope)
    (hx : x ∈ c.vartype.values) (hn : c.arity ≤ 63) : ∃ e, ofConfigurations [[x]] [v] c.vartype = .ok e ∧
      ((∃ d, c.fix v x = .ok d) ↔ ∃ k, c.intersection e = .ok k) ∧
      Agree (c.fix v x) (c.intersection e >>= fun k => k.project (c.scope.filter (· != v))) ∧
      ((∃ u y name, c.fix v x = .error (.unsatisfiable u y name)) ↔
        ∃ n, c.intersection e = .error (.noConfiguration n)) := by
  refine ⟨unit v x c.vartype, ofConfigurations_unit hx, ?_, ?_, ?_⟩
  · simp only [fix_isOk_iff hc hv hx, intersection_unit_eq_ok_iff hc hv hn hx, exists_and_left, exists_eq,
      and_true]
  · by_cases hexcludes : c.Excludes v x
    · rw [(fix_eq_error_iff hc hv hx).mpr ⟨hexcludes, rfl⟩,
        (intersection_unit_eq_error_iff hc hv hn hx).mpr ⟨hexcludes, rfl⟩]
      trivial
    · obtain ⟨d, hd⟩ := (fix_isOk_iff hc hv hx).mpr hexcludes
      obtain ⟨k, hk, hsame⟩ := project_forced hc hv hx hd
      rw [hd, (intersection_unit_eq_ok_iff hc hv hn hx).mpr ⟨hexcludes, rfl⟩]
      change Agree (.ok d) ((c.forced v x).project (c.scope.filter (· != v)))
      rw [hk]
      exact hsame
  · constructor
    · rintro ⟨u, y, name, h⟩
      exact ⟨_, (intersection_unit_eq_error_iff hc hv hn hx).mpr ⟨((fix_eq_error_iff hc hv hx).mp h).1, rfl⟩⟩
    · rintro ⟨n, h⟩
      obtain ⟨hexcludes, -⟩ := (intersection_unit_eq_error_iff hc hv hn hx).mp h
      exact ⟨v, x, c.name, (fix_eq_error_iff hc hv hx).mpr ⟨hexcludes, rfl⟩⟩

theorem fix_eliminates_of_bothDown :
    (∃ e k d r, ofConfigurations [[-1]] ["a"] .spin = .ok e ∧ bothDown.intersection e = .ok k ∧
      bothDown.fix "a" (-1) = .ok d ∧ k.project ["b"] = .ok r ∧ d.same r = true) ∧
    ∃ e n, ofConfigurations [[1]] ["a"] .spin = .ok e ∧ bothDown.fix "a" 1 =
      .error (.unsatisfiable "a" 1 "Constraint") ∧ bothDown.intersection e = .error (.noConfiguration n) := by
  have hc : bothDown.WellFormed := flaw_eq_none_iff.mp (by decide)
  obtain ⟨e, he, hok, hagree, -⟩ := fix_eliminates bothDown "a" (-1) hc (by decide) (by decide)
    (by decide)
  obtain ⟨d, hd⟩ : ∃ d, bothDown.fix "a" (-1) = .ok d := by
    apply Exists.intro
    cbv
  obtain ⟨k, hk⟩ := hok.mp ⟨d, hd⟩
  have hkd : (bothDown.intersection e >>= fun k => k.project ["b"]) = k.project ["b"] := by
    rw [hk]
    rfl
  obtain ⟨hiff, hsame⟩ := agree_iff.mp hagree
  obtain ⟨r, hr⟩ := hiff.mp ⟨d, hd⟩
  obtain ⟨e', he', -, -, hfails⟩ := fix_eliminates bothDown "a" 1 hc (by decide) (by decide)
    (by decide)
  have hfault : bothDown.fix "a" 1 = .error (.unsatisfiable "a" 1 "Constraint") := by cbv
  obtain ⟨n, hn⟩ := hfails.mp ⟨"a", 1, "Constraint", hfault⟩
  exact ⟨⟨e, k, d, r, he, hk, hd, hkd.symm.trans hr, hsame d r hd hr⟩, e', n, he', hfault, hn⟩

end QuadraticPenalty.Constraint
