import QuadraticPenalty.Proofs.Constraint.Combination

namespace QuadraticPenalty.Constraint

variable {op : Bool → Bool → Bool} {m n : String} {name : Constraint → Constraint → String}
  {c d e r : Constraint} {f : String → ℤ}

section Scopes

lemma scope_combined_eq_nil_iff : (combined op n c d).scope = [] ↔ c.scope = [] ∧ d.scope = [] :=
  jointVariables_eq_nil_iff

lemma jointVariables_assoc : jointVariables (combined op m c d) e = jointVariables c (combined op n d e) := by
  have hnew : e.scope.filter (fun v => decide (v ∉ jointVariables c d)) =
      (e.scope.filter fun v => decide (v ∉ d.scope)).filter fun v => decide (v ∉ c.scope) := by
    rw [List.filter_filter]
    refine List.filter_congr fun v _ => ?_
    rw [← Bool.decide_and, decide_eq_decide, mem_jointVariables, not_or]
  change jointVariables c d ++ e.scope.filter (fun v => decide (v ∉ jointVariables c d)) =
    c.scope ++ (jointVariables d e).filter fun v => decide (v ∉ c.scope)
  rw [hnew, jointVariables, jointVariables, List.filter_append, List.append_assoc]

lemma jointVartype_assoc : jointVartype (combined op m c d) e = jointVartype c (combined op n d e) := by
  by_cases hc : c.scope = []
  · by_cases hd : d.scope = []
    · simp [jointVartype, combined, jointVariables, hc, hd]
    · simp [jointVartype, combined, jointVariables, hc, hd]
  · simp [jointVartype, combined, jointVariables, hc]

lemma clashes_assoc : ¬ c.Clashes d ∧ ¬ (combined op m c d).Clashes e ↔
    ¬ d.Clashes e ∧ ¬ c.Clashes (combined op n d e) := by
  have hleft : (combined op m c d).vartype = jointVartype c d := rfl
  have hright : (combined op n d e).vartype = jointVartype d e := rfl
  simp only [Clashes, ne_eq, scope_combined_eq_nil_iff, hleft, hright, jointVartype, List.isEmpty_iff]
  grind

end Scopes

section Groupings

lemma allows_combined_left : (combined op m (combined op n c d) e).Allows f ↔
    Valued (jointVartype (combined op n c d) e) (jointVariables (combined op n c d) e) f ∧
      op (op (c.meets f) (d.meets f)) (e.meets f) = true := by
  rw [allows_combined]
  refine and_congr_right fun hf => ?_
  rw [meets_combined hf.left]

lemma allows_combined_right (h : ¬ c.Clashes (combined op n d e)) :
    (combined op m c (combined op n d e)).Allows f ↔
      Valued (jointVartype c (combined op n d e)) (jointVariables c (combined op n d e)) f ∧
        op (c.meets f) (op (d.meets f) (e.meets f)) = true := by
  rw [allows_combined]
  refine and_congr_right fun hf => ?_
  rw [meets_combined (hf.right h)]

def join (op : Bool → Bool → Bool) (name : Constraint → Constraint → String) (c d : Constraint) :
    Except Fault Constraint :=
  combine op (name c d) c d

abbrev joined (op : Bool → Bool → Bool) (name : Constraint → Constraint → String) (c d : Constraint) :
    Constraint :=
  combined op (name c d) c d

lemma allows_joined_assoc (hop : ∀ x y z, op (op x y) z = op x (op y z))
    (h : ¬ c.Clashes (joined op name d e)) :
    (joined op name (joined op name c d) e).Allows f ↔ (joined op name c (joined op name d e)).Allows f := by
  rw [allows_combined_left, allows_combined_right h, jointVartype_assoc (n := name d e),
    jointVariables_assoc (n := name d e), hop]

lemma wellFormed_joined_assoc (hop : ∀ x y z, op (op x y) z = op x (op y z)) (hc : c.scope.Nodup)
    (hd : d.scope.Nodup) (he : e.scope.Nodup) (h : ¬ c.Clashes (joined op name d e)) :
    (joined op name (joined op name c d) e).WellFormed ↔
      (joined op name c (joined op name d e)).WellFormed := by
  rw [combined_wellFormed_iff (jointVariables_nodup hc hd) he,
    combined_wellFormed_iff hc (jointVariables_nodup hd he), jointVariables_assoc (n := name d e)]
  exact imp_congr_right fun _ => exists_congr fun _ => allows_joined_assoc hop h

lemma same_joined_assoc (hop : ∀ x y z, op (op x y) z = op x (op y z))
    (h : ¬ c.Clashes (joined op name d e)) (hleft : (joined op name (joined op name c d) e).WellFormed)
    (hright : (joined op name c (joined op name d e)).WellFormed) :
    (joined op name (joined op name c d) e).same (joined op name c (joined op name d e)) = true :=
  hleft.same_of_allows hright jointVariables_assoc jointVartype_assoc fun _ => allows_joined_assoc hop h

def Joinable (op : Bool → Bool → Bool) (name : Constraint → Constraint → String) (c d e : Constraint) :
    Prop :=
  (¬ d.Clashes e ∧ ¬ c.Clashes (joined op name d e)) ∧ (joined op name c (joined op name d e)).WellFormed

def Fits (c d e : Constraint) : Prop :=
  (c.scope.toFinset ∪ d.scope.toFinset ∪ e.scope.toFinset).card ≤ 63

lemma Fits.length_le {vs : List String} (h : Fits c d e) (hvs : vs.Nodup)
    (hmem : ∀ v ∈ vs, v ∈ c.scope ∨ v ∈ d.scope ∨ v ∈ e.scope) : vs.length ≤ 63 := by
  rw [← List.toFinset_card_of_nodup hvs]
  refine (Finset.card_le_card fun v hv => ?_).trans h
  simpa [or_assoc] using hmem v (List.mem_toFinset.mp hv)

lemma join_right_eq_ok_iff (hde : (jointVariables d e).length ≤ 63)
    (hall : (jointVariables c (joined op name d e)).length ≤ 63) (hinner : ¬ d.Clashes e →
      (joined op name c (joined op name d e)).WellFormed → (joined op name d e).WellFormed) :
    (join op name d e >>= fun k => join op name c k) = .ok r ↔
      Joinable op name c d e ∧ r = joined op name c (joined op name d e) := by
  constructor
  · intro h
    obtain ⟨k, hk, h⟩ := exists_of_bind_ok h
    obtain ⟨hno, -, rfl⟩ := (combine_eq_ok_iff hde).mp hk
    obtain ⟨hck, hw, rfl⟩ := (combine_eq_ok_iff hall).mp h
    exact ⟨⟨⟨hno, hck⟩, hw⟩, rfl⟩
  · rintro ⟨⟨⟨hno, hck⟩, hw⟩, rfl⟩
    rw [join, (combine_eq_ok_iff hde).mpr ⟨hno, hinner hno hw, rfl⟩]
    exact (combine_eq_ok_iff hall).mpr ⟨hck, hw, rfl⟩

lemma join_left_eq_ok_iff (hop : ∀ x y z, op (op x y) z = op x (op y z)) (hc : c.scope.Nodup)
    (hd : d.scope.Nodup) (he : e.scope.Nodup) (hcd : (jointVariables c d).length ≤ 63)
    (hall : (jointVariables (joined op name c d) e).length ≤ 63) (hinner : ¬ c.Clashes d →
      (joined op name (joined op name c d) e).WellFormed → (joined op name c d).WellFormed) :
    (join op name c d >>= fun k => join op name k e) = .ok r ↔
      Joinable op name c d e ∧ r = joined op name (joined op name c d) e := by
  constructor
  · intro h
    obtain ⟨k, hk, h⟩ := exists_of_bind_ok h
    obtain ⟨hinno, -, rfl⟩ := (combine_eq_ok_iff hcd).mp hk
    obtain ⟨hke, hw, rfl⟩ := (combine_eq_ok_iff hall).mp h
    have hno := (clashes_assoc (n := name d e)).mp ⟨hinno, hke⟩
    exact ⟨⟨hno, (wellFormed_joined_assoc hop hc hd he hno.2).mp hw⟩, rfl⟩
  · rintro ⟨⟨hno, hw⟩, rfl⟩
    obtain ⟨hinno, hke⟩ := clashes_assoc.mpr hno
    have hw := (wellFormed_joined_assoc hop hc hd he hno.2).mpr hw
    rw [join, (combine_eq_ok_iff hcd).mpr ⟨hinno, hinner hinno hw, rfl⟩]
    exact (combine_eq_ok_iff hall).mpr ⟨hke, hw, rfl⟩

end Groupings

lemma agree_join_assoc (name : Constraint → Constraint → String)
    (hop : ∀ x y z, op (op x y) z = op x (op y z)) (hc : c.WellFormed) (hd : d.WellFormed)
    (he : e.WellFormed) (hn : Fits c d e)
    (hleft : ¬ c.Clashes d → (joined op name (joined op name c d) e).WellFormed →
      (joined op name c d).WellFormed)
    (hright : ¬ d.Clashes e → (joined op name c (joined op name d e)).WellFormed →
      (joined op name d e).WellFormed) :
    Agree (join op name c d >>= fun k => join op name k e)
      (join op name d e >>= fun k => join op name c k) := by
  have hcd : (jointVariables c d).length ≤ 63 := by
    refine hn.length_le (jointVariables_nodup hc.1 hd.1) fun v hv => ?_
    exact (mem_jointVariables.mp hv).imp_right .inl
  have hde : (jointVariables d e).length ≤ 63 :=
    hn.length_le (jointVariables_nodup hd.1 he.1) fun v hv => .inr (mem_jointVariables.mp hv)
  have hright' : (jointVariables c (joined op name d e)).length ≤ 63 := by
    refine hn.length_le (jointVariables_nodup hc.1 (jointVariables_nodup hd.1 he.1)) fun v hv => ?_
    exact (mem_jointVariables.mp hv).imp_right mem_jointVariables.mp
  have hleft' : (jointVariables (joined op name c d) e).length ≤ 63 :=
    (congrArg List.length (jointVariables_assoc (n := name d e))).trans_le hright'
  refine agree_of_iff (fun r => join_left_eq_ok_iff hop hc.1 hd.1 he.1 hcd hleft' hleft)
    (fun r => join_right_eq_ok_iff hde hright' hright) ?_
  rintro ⟨hno, hw⟩
  exact same_joined_assoc hop hno.2 ((wellFormed_joined_assoc hop hc.1 hd.1 he.1 hno.2).mpr hw) hw

lemma exists_allows_of_and (hw : (combined (· && ·) m c d).WellFormed) :
    (c.scope ≠ [] → ∃ f, c.Allows f) ∧ (d.scope ≠ [] → ∃ f, d.Allows f) := by
  have hboth (h : (combined (· && ·) m c d).scope ≠ []) : ∃ f, c.Allows f ∧ d.Allows f := by
    obtain ⟨f, hf⟩ := hw.exists_solution h
    obtain ⟨hcf, hdf⟩ := (Bool.and_eq_true _ _).mp (allows_combined.mp hf).2
    exact ⟨f, meets_iff.mp hcf, meets_iff.mp hdf⟩
  constructor
  · intro hc
    obtain ⟨f, hf, -⟩ := hboth fun h => hc (scope_combined_eq_nil_iff.mp h).1
    exact ⟨f, hf⟩
  · intro hd
    obtain ⟨f, -, hf⟩ := hboth fun h => hd (scope_combined_eq_nil_iff.mp h).2
    exact ⟨f, hf⟩

/-- Both groupings of three constraints are refused, or both give the same constraint. -/
theorem union_and_intersection_assoc (c d e : Constraint) (hc : c.WellFormed) (hd : d.WellFormed)
    (he : e.WellFormed) (hn : Fits c d e) :
    Agree (c.union d >>= fun k => k.union e) (d.union e >>= fun k => c.union k) ∧
      Agree (c.intersection d >>= fun k => k.intersection e)
        (d.intersection e >>= fun k => c.intersection k) := by
  constructor
  · refine agree_join_assoc (fun c d => c.name ++ " | " ++ d.name) Bool.or_assoc hc hd he hn ?_ ?_
    · exact fun hcd _ => combined_or_wellFormed hc hd hcd
    · exact fun hde _ => combined_or_wellFormed hd he hde
  · refine agree_join_assoc (fun c d => c.name ++ " & " ++ d.name) Bool.and_assoc hc hd he hn ?_ ?_
    · exact fun _ hw => (combined_wellFormed_iff hc.1 hd.1).mpr (exists_allows_of_and hw).1
    · exact fun _ hw => (combined_wellFormed_iff hd.1 he.1).mpr (exists_allows_of_and hw).2

def truth : Constraint := ⟨"Constraint", .binary, [], ⟨[[]], by decide⟩⟩

theorem union_and_intersection_assoc_of_oneUp : ∃ r s,
    (oneUp.intersection crossed >>= fun k => k.intersection truth) = .ok r ∧
    (crossed.intersection truth >>= fun k => oneUp.intersection k) = .ok s ∧ r.same s = true := by
  have hone : oneUp.WellFormed := flaw_eq_none_iff.mp (by decide)
  have hcrossed : crossed.WellFormed := flaw_eq_none_iff.mp (by decide)
  have htruth : truth.WellFormed := flaw_eq_none_iff.mp (by decide)
  have hfits : oneUp.Fits crossed truth := by
    unfold Fits
    decide
  obtain ⟨r, hr⟩ : ∃ r, (oneUp.intersection crossed >>= fun k => k.intersection truth) = .ok r := by
    apply Exists.intro
    cbv
  obtain ⟨-, hagree⟩ := union_and_intersection_assoc oneUp crossed truth hone hcrossed htruth hfits
  rw [hr] at hagree
  cases hs : crossed.intersection truth >>= fun k => oneUp.intersection k with
  | error fault =>
    rw [hs] at hagree
    exact hagree.elim
  | ok s =>
    rw [hs] at hagree
    exact ⟨r, s, hr, rfl, hagree⟩

end QuadraticPenalty.Constraint
