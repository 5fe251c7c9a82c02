import QuadraticPenalty.Proofs.Constraint.Substitution

namespace QuadraticPenalty.Constraint

variable {c d : Constraint} {u : String} {vs : List String} {fault : Fault} {a : Assignment}
  {x y : List ℤ}

section Refusals

lemma project_cases (hc : c.WellFormed) (vs : List String) : c.project vs =
    match vs.find? fun v => decide (v ∉ c.scope) with
    | some u => .error (.unknownVariable u (.constraint c.name))
    | none => match firstRepeat [] vs with
      | some u => .error (.repeatedVariable u)
      | none => .ok (c.onto vs) := by
  cases hfind : vs.find? fun v => decide (v ∉ c.scope) with
  | some u =>
    rw [project, mapM_positionOf_cases, hfind]
    rfl
  | none =>
    have hknown := find?_unknown_eq_none_iff.mp hfind
    cases hrepeat : firstRepeat [] vs with
    | some u =>
      have hflaw : (c.onto vs).flaw = some (.repeatedVariable u) := by
        rw [flaw, onto, hrepeat]
      rw [project, mapM_positionOf hknown]
      change checked (c.onto vs) = _
      rw [checked, hflaw]
    | none => exact project_eq_ok hc (firstRepeat_eq_none_iff.mp hrepeat).1 hknown

lemma project_eq_ok_iff (hc : c.WellFormed) :
    c.project vs = .ok d ↔ (vs.Nodup ∧ ∀ v ∈ vs, v ∈ c.scope) ∧ d = c.onto vs := by
  have hn : vs.Nodup ↔ firstRepeat [] vs = none := by simp [firstRepeat_eq_none_iff]
  rw [project_cases hc, hn, ← find?_unknown_eq_none_iff]
  cases vs.find? fun v => decide (v ∉ c.scope) with
  | some u => simp
  | none => cases firstRepeat [] vs <;> simp [eq_comm]

lemma project_eq_error_iff (hc : c.WellFormed) : c.project vs = .error fault ↔
    (∃ u, vs.find? (· ∉ c.scope) = some u ∧ fault = .unknownVariable u (.constraint c.name)) ∨
    (∀ v ∈ vs, v ∈ c.scope) ∧ ∃ u, Repeats vs u ∧ fault = .repeatedVariable u := by
  rw [project_cases hc, ← find?_unknown_eq_none_iff]
  simp only [← firstRepeat_eq_some_iff]
  cases vs.find? fun v => decide (v ∉ c.scope) with
  | some u => simp [eq_comm]
  | none => cases firstRepeat [] vs <;> simp [eq_comm]

end Refusals

lemma ofLists_eq_iff (hc : c.WellFormed) (hx : x ∈ c.configurations) (h : ∀ v ∈ vs, v ∈ c.scope) :
    vs.map (Assignment.ofLists c.scope x) = y.map some ↔ restriction c.scope vs x = y := by
  obtain ⟨f, rfl, -⟩ := hc.exists_allows hx
  have hvalues : vs.map (Assignment.ofLists c.scope (c.scope.map f)) = (vs.map f).map some := by
    rw [List.map_map]
    exact List.map_congr_left fun v hv => Assignment.ofLists_map c.scope f (h v hv)
  rw [hvalues, restriction_map f h]
  exact (List.map_injective_iff.mpr (Option.some_injective ℤ)).eq_iff

lemma accepts_onto_iff (hc : c.WellFormed) (h : ∀ v ∈ vs, v ∈ c.scope) : (c.onto vs).accepts y = true ↔
    ∃ x ∈ c.configurations, vs.map (Assignment.ofLists c.scope x) = y.map some := by
  rw [accepts_iff, onto, SortedSet.mem_map]
  exact exists_congr fun x => and_congr_right fun hx => (ofLists_eq_iff hc hx h).symm

lemma holds_onto_perm (hc : c.WellFormed) (hvs : vs.Perm c.scope) (ha : ∀ v ∈ c.scope, (a v).isSome) :
    (c.onto vs).holds a = c.holds a := by
  rw [holds_of_assigned ha, holds_of_assigned fun v hv => ha v (hvs.subset hv)]
  refine congrArg Except.ok (Bool.eq_iff_iff.mpr ?_)
  rw [accepts_tupleIn_iff, accepts_tupleIn_iff]
  exact allows_onto_perm hc hvs

/-- Labels can be projected onto if they are variables, and none is repeated. What is left accepts the values
that a configuration has at them; a second projection onto some of them could have been made at once, and
the order of the variables is all that a projection onto all of them changes. -/
theorem project_restricts (c : Constraint) (vs : List String) (hc : c.WellFormed) :
    ((∃ d, c.project vs = .ok d) ↔ vs.Nodup ∧ ∀ v ∈ vs, v ∈ c.scope) ∧
    (∀ fault, c.project vs = .error fault ↔
      (∃ u, vs.find? (· ∉ c.scope) = some u ∧ fault = .unknownVariable u (.constraint c.name)) ∨
      (∀ v ∈ vs, v ∈ c.scope) ∧ ∃ u, Repeats vs u ∧ fault = .repeatedVariable u) ∧
    ∀ d, c.project vs = .ok d →
      (d.scope = vs ∧ d.vartype = c.vartype ∧ ∀ y, d.accepts y = true ↔
        ∃ x ∈ c.configurations, vs.map (Assignment.ofLists c.scope x) = y.map some) ∧
      (∀ ws : List String, ws.Nodup → (∀ w ∈ ws, w ∈ vs) →
        ∃ e, d.project ws = .ok e ∧ c.project ws = .ok e) ∧
      (vs.Perm c.scope → d.project c.scope = .ok c ∧
        ∀ a : Assignment, (∀ v ∈ c.scope, (a v).isSome) → d.holds a = c.holds a) := by
  refine ⟨⟨?_, fun h => ⟨_, (project_eq_ok_iff hc).mpr ⟨h, rfl⟩⟩⟩, fun fault => project_eq_error_iff hc, ?_⟩
  · rintro ⟨d, h⟩
    exact ((project_eq_ok_iff hc).mp h).1
  · intro d h
    obtain ⟨⟨hn, hknown⟩, rfl⟩ := (project_eq_ok_iff hc).mp h
    have hd : (c.onto vs).WellFormed := hc.onto hn hknown
    refine ⟨⟨rfl, rfl, fun y => accepts_onto_iff hc hknown⟩, fun ws hws hsub => ?_, fun hperm => ⟨?_, ?_⟩⟩
    · refine ⟨c.onto ws, ?_, project_eq_ok hc hws fun w hw => hknown w (hsub w hw)⟩
      rw [project_eq_ok hd hws hsub, onto_onto hsub]
    · rw [project_eq_ok hd hc.1 fun v hv => hperm.symm.subset hv, onto_onto fun v hv => hperm.symm.subset hv,
        onto_self hc]
    · exact fun a ha => holds_onto_perm hc hperm ha

def ascending : Constraint :=
  ⟨"Ascending", .binary, ["a", "b", "c"], ⟨[[0, 0, 0], [0, 0, 1], [0, 1, 1], [1, 1, 1]], by decide⟩⟩

theorem project_restricts_of_ascending :
    (∃ d e, ascending.project ["c", "a"] = .ok d ∧ d.accepts [1, 0] = true ∧ d.project ["a"] = .ok e ∧
      ascending.project ["a"] = .ok e) ∧
    (∃ d, ascending.project ["c", "a", "b"] = .ok d ∧ d.project ["a", "b", "c"] = .ok ascending) ∧
    ascending.project ["b", "b", "z"] = .error (.unknownVariable "z" (.constraint "Ascending")) ∧
    ascending.project ["b", "c", "b"] = .error (.repeatedVariable "b") := by
  have hc : ascending.WellFormed := flaw_eq_none_iff.mp (by decide)
  obtain ⟨hok, -, hpair⟩ := project_restricts ascending ["c", "a"] hc
  obtain ⟨d, hd⟩ := hok.mpr (by decide)
  obtain ⟨⟨-, -, haccepts⟩, honto, -⟩ := hpair d hd
  obtain ⟨e, hde, he⟩ := honto ["a"] (by decide) (by decide)
  obtain ⟨hok', -, hall⟩ := project_restricts ascending ["c", "a", "b"] hc
  obtain ⟨d', hd'⟩ := hok'.mpr (by decide)
  obtain ⟨-, -, hperm⟩ := hall d' hd'
  obtain ⟨-, hunknown, -⟩ := project_restricts ascending ["b", "b", "z"] hc
  obtain ⟨-, hrepeat, -⟩ := project_restricts ascending ["b", "c", "b"] hc
  refine ⟨⟨d, e, hd, (haccepts _).mpr ⟨[0, 1, 1], by decide, by decide⟩, hde, he⟩, ⟨d', hd', ?_⟩, ?_, ?_⟩
  · exact (hperm (by decide)).1
  · exact (hunknown _).mpr (.inl ⟨"z", by decide, rfl⟩)
  · exact (hrepeat _).mpr (.inr ⟨by decide, "b", ⟨["b", "c"], [], rfl, by decide, by decide⟩, rfl⟩)

end QuadraticPenalty.Constraint
