import QuadraticPenalty.Proofs.Constraint.Products
import QuadraticPenalty.Proofs.Masks

namespace QuadraticPenalty.Constraint

variable {op : Bool → Bool → Bool} {name : String} {c d e : Constraint} {f g : String → ℤ} {t : Vartype}
  {vs : List String} {v : String} {a : Assignment} {fault : Fault}

def meets (c : Constraint) (f : String → ℤ) : Bool := c.accepts (c.scope.map f)

lemma meets_iff : c.meets f = true ↔ c.Allows f := accepts_iff

def Valued (t : Vartype) (vs : List String) (f : String → ℤ) : Prop := ∀ v ∈ vs, f v ∈ t.values

lemma isTuple_map_iff : t.IsTuple vs.length (vs.map f) ↔ Valued t vs f := by
  simp only [Vartype.IsTuple, List.length_map, true_and, List.forall_mem_map]
  exact Iff.rfl

lemma WellFormed.valued (hc : c.WellFormed) (hf : c.Allows f) : Valued c.vartype c.scope f := fun _ =>
  hc.mem_values hf

section Joint

lemma mem_jointVariables : v ∈ jointVariables c d ↔ v ∈ c.scope ∨ v ∈ d.scope := by
  rw [jointVariables, List.mem_append, List.mem_filter, decide_eq_true_eq]
  tauto

lemma jointVariables_eq_nil_iff : jointVariables c d = [] ↔ c.scope = [] ∧ d.scope = [] := by
  simp only [List.eq_nil_iff_forall_not_mem, mem_jointVariables, not_or, forall_and]

lemma jointVariables_nodup (hc : c.scope.Nodup) (hd : d.scope.Nodup) : (jointVariables c d).Nodup :=
  hc.append (hd.filter _) fun _ hv hm => of_decide_eq_true (List.mem_filter.mp hm).2 hv

def Clashes (c d : Constraint) : Prop := c.scope ≠ [] ∧ d.scope ≠ [] ∧ c.vartype ≠ d.vartype

def jointVartype (c d : Constraint) : Vartype := if c.scope.isEmpty then d.vartype else c.vartype

lemma jointVartype_left (h : c.scope ≠ []) : jointVartype c d = c.vartype := by
  rw [jointVartype, List.isEmpty_eq_false_iff.mpr h]
  rfl

lemma jointVartype_right (h : d.scope ≠ []) (hcd : ¬ c.Clashes d) : jointVartype c d = d.vartype := by
  by_cases hc : c.scope = []
  · rw [jointVartype, hc]
    rfl
  · rw [jointVartype_left hc]
    by_contra hne
    exact hcd ⟨hc, h, hne⟩

lemma Valued.left (h : Valued (jointVartype c d) (jointVariables c d) f) :
    Valued c.vartype c.scope f := by
  intro v hv
  rw [← jointVartype_left (d := d) (List.ne_nil_of_mem hv)]
  exact h v (mem_jointVariables.mpr (.inl hv))

lemma Valued.right (hcd : ¬ c.Clashes d) (h : Valued (jointVartype c d) (jointVariables c d) f) :
    Valued d.vartype d.scope f := by
  intro v hv
  rw [← jointVartype_right (List.ne_nil_of_mem hv) hcd]
  exact h v (mem_jointVariables.mpr (.inr hv))

end Joint

def combined (op : Bool → Bool → Bool) (name : String) (c d : Constraint) : Constraint where
  name := name
  vartype := jointVartype c d
  scope := jointVariables c d
  configurations := .ofList (((jointVartype c d).tuples (jointVariables c d).length).filter fun x =>
    op (c.accepts (x.take c.arity)) (d.accepts (restriction (jointVariables c d) d.scope x)))

lemma combine_of_clashes (h : c.Clashes d) :
    combine op name c d = .error (.vartypeMismatch c.vartype d.vartype) := by
  obtain ⟨hc, hd, ht⟩ := h
  rw [combine, List.isEmpty_eq_false_iff.mpr hc, List.isEmpty_eq_false_iff.mpr hd, decide_eq_true ht]
  rfl

lemma combine_of_not_clashes (hn : (jointVariables c d).length ≤ 63) (h : ¬ c.Clashes d) :
    combine op name c d = checked (combined op name c d) := by
  have hguard : ¬ (!c.scope.isEmpty && !d.scope.isEmpty && decide (c.vartype ≠ d.vartype)) = true := by
    simpa [Clashes] using h
  rw [combine, if_neg hguard]
  dsimp only
  rw [Vartype.maskedTuples_eq hn]
  rfl

lemma allows_combined : (combined op name c d).Allows f ↔
    Valued (jointVartype c d) (jointVariables c d) f ∧ op (c.meets f) (d.meets f) = true := by
  have htake : ((jointVariables c d).map f).take c.arity = c.scope.map f := by
    rw [jointVariables, List.map_append, arity, List.take_left' (List.length_map f)]
  have hpick : restriction (jointVariables c d) d.scope ((jointVariables c d).map f) = d.scope.map f :=
    restriction_map f fun v hv => mem_jointVariables.mpr (.inr hv)
  rw [Allows, combined, SortedSet.mem_ofList, List.mem_filter, Vartype.mem_tuples, isTuple_map_iff, htake,
    hpick]
  exact Iff.rfl

lemma meets_combined (h : Valued (jointVartype c d) (jointVariables c d) f) :
    (combined op name c d).meets f = op (c.meets f) (d.meets f) := by
  rw [Bool.eq_iff_iff, meets_iff, allows_combined]
  exact and_iff_right h

lemma combined_isTuple {y : List ℤ} (hy : y ∈ (combined op name c d).configurations) :
    (jointVartype c d).IsTuple (jointVariables c d).length y :=
  Vartype.mem_tuples.mp (List.mem_of_mem_filter (SortedSet.mem_ofList.mp hy))

lemma combined_eq_nil_iff (hc : c.scope.Nodup) (hd : d.scope.Nodup) :
    (combined op name c d).configurations.toList = [] ↔ ∀ f, ¬ (combined op name c d).Allows f := by
  rw [List.eq_nil_iff_forall_not_mem]
  constructor
  · exact fun h f => h _
  · intro h y hy
    obtain ⟨f, rfl⟩ := Assignment.exists_map_of_length (jointVariables_nodup hc hd)
      (combined_isTuple (SortedSet.mem_def.mpr hy)).1
    exact h f hy

lemma combined_wellFormed_iff (hc : c.scope.Nodup) (hd : d.scope.Nodup) :
    (combined op name c d).WellFormed ↔
      (jointVariables c d ≠ [] → ∃ f, (combined op name c d).Allows f) := by
  have hsome : (combined op name c d).configurations.toList ≠ [] ↔
      ∃ f, (combined op name c d).Allows f := by
    rw [ne_eq, combined_eq_nil_iff hc hd, not_forall_not]
  rw [← hsome]
  exact ⟨fun h => h.2.2, fun h => ⟨jointVariables_nodup hc hd, fun _ => combined_isTuple, h⟩⟩

lemma flaw_combined (hc : c.scope.Nodup) (hd : d.scope.Nodup)
    (h : ¬ (combined op name c d).WellFormed) :
    (combined op name c d).flaw = some (.noConfiguration (jointVariables c d).length) := by
  rw [combined_wellFormed_iff hc hd, Classical.not_imp, not_exists] at h
  exact flaw_of_empty (jointVariables_nodup hc hd) h.1 ((combined_eq_nil_iff hc hd).mpr h.2)

lemma combine_eq_ok_iff (hn : (jointVariables c d).length ≤ 63) : combine op name c d = .ok e ↔
    ¬ c.Clashes d ∧ (combined op name c d).WellFormed ∧ e = combined op name c d := by
  by_cases h : c.Clashes d
  · rw [combine_of_clashes h]
    simp [h]
  · rw [combine_of_not_clashes hn h, checked_eq_ok_iff]
    tauto

lemma combine_eq_error_iff (hc : c.scope.Nodup) (hd : d.scope.Nodup)
    (hn : (jointVariables c d).length ≤ 63) :
    combine op name c d = .error fault ↔
      c.Clashes d ∧ fault = .vartypeMismatch c.vartype d.vartype ∨
      ¬ c.Clashes d ∧ ¬ (combined op name c d).WellFormed ∧
        fault = .noConfiguration (jointVariables c d).length := by
  by_cases h : c.Clashes d
  · rw [combine_of_clashes h]
    simp [h, eq_comm]
  · rw [combine_of_not_clashes hn h, checked]
    by_cases hw : (combined op name c d).WellFormed
    · rw [flaw_eq_none_iff.mpr hw]
      simp [h, hw]
    · rw [flaw_combined hc hd hw]
      simp [h, hw, eq_comm]

lemma combined_or_wellFormed (hc : c.WellFormed) (hd : d.WellFormed) (hcd : ¬ c.Clashes d) :
    (combined (· || ·) name c d).WellFormed := by
  rw [combined_wellFormed_iff hc.1 hd.1]
  intro hne
  let t := jointVartype c d
  have hextend (k : Constraint) (hk : k.WellFormed) (hs : k.scope ≠ []) (ht : k.vartype = t) :
      ∃ f, Valued t (jointVariables c d) f ∧ k.Allows f := by
    obtain ⟨f, hf⟩ := hk.exists_solution hs
    refine ⟨graft k.scope f fun _ => t.low, fun v _ => ?_, hf.congr fun v hv => (if_pos hv).symm⟩
    by_cases hv : v ∈ k.scope
    · rw [graft, if_pos hv, ← ht]
      exact hk.mem_values hf hv
    · rw [graft, if_neg hv]
      exact Vartype.mem_values.mpr (.inl rfl)
  by_cases hcs : c.scope = []
  · have hds : d.scope ≠ [] := fun hds => hne (jointVariables_eq_nil_iff.mpr ⟨hcs, hds⟩)
    obtain ⟨f, hf, hallows⟩ := hextend d hd hds (jointVartype_right hds hcd).symm
    exact ⟨f, allows_combined.mpr ⟨hf, by rw [meets_iff.mpr hallows, Bool.or_true]⟩⟩
  · obtain ⟨f, hf, hallows⟩ := hextend c hc hcs (jointVartype_left hcs).symm
    exact ⟨f, allows_combined.mpr ⟨hf, by rw [meets_iff.mpr hallows, Bool.true_or]⟩⟩

section Checking

/-- The variables of the one, then those that only the other has, and for all values of these the answer
that the operator makes of both answers. -/
structure Joins (op : Bool → Bool → Bool) (c d e : Constraint) : Prop where
  scope : e.scope = c.scope ++ d.scope.filter (· ∉ c.scope)
  left : c.scope ≠ [] → e.vartype = c.vartype
  right : d.scope ≠ [] → e.vartype = d.vartype
  holds : ∀ a : Assignment, a.Covers e.vartype e.scope →
    ∃ x y, c.holds a = .ok x ∧ d.holds a = .ok y ∧ e.holds a = .ok (op x y)

lemma holds_combined (h : a.Covers (jointVartype c d) (jointVariables c d)) :
    ∃ x y, c.holds a = .ok x ∧ d.holds a = .ok y ∧ (combined op name c d).holds a = .ok (op x y) := by
  have hc := holds_eq (c := c) fun v hv => h v (mem_jointVariables.mpr (.inl hv))
  have hd := holds_eq (c := d) fun v hv => h v (mem_jointVariables.mpr (.inr hv))
  refine ⟨_, _, hc, hd, (holds_eq (c := combined op name c d) h).trans (congrArg Except.ok ?_)⟩
  exact meets_combined (isTuple_map_iff.mp h.isTuple)

lemma combined_joins (h : ¬ c.Clashes d) : Joins op c d (combined op name c d) :=
  ⟨rfl, jointVartype_left, fun hd => jointVartype_right hd h, fun _ => holds_combined⟩

lemma exists_allows_combined_iff : (∃ f, (combined op name c d).Allows f) ↔
    ∃ (a : Assignment) (x y : Bool), a.Covers (jointVartype c d) (jointVariables c d) ∧
      c.holds a = .ok x ∧ d.holds a = .ok y ∧ op x y = true := by
  constructor
  · rintro ⟨f, hf⟩
    obtain ⟨hvalued, hop⟩ := allows_combined.mp hf
    have hcovers : Assignment.Covers (fun v => some (f v)) (jointVartype c d) (jointVariables c d) :=
      fun v hv => ⟨f v, hvalued v hv, rfl⟩
    refine ⟨fun v => some (f v), c.meets f, d.meets f, hcovers, ?_, ?_, hop⟩
    · exact holds_eq fun v hv => hcovers v (mem_jointVariables.mpr (.inl hv))
    · exact holds_eq fun v hv => hcovers v (mem_jointVariables.mpr (.inr hv))
  · rintro ⟨a, x, y, hcovers, hx, hy, hop⟩
    refine ⟨fun v => (a v).getD 0, allows_combined.mpr ⟨isTuple_map_iff.mp hcovers.isTuple, ?_⟩⟩
    have hc := holds_eq (c := c) fun v hv => hcovers v (mem_jointVariables.mpr (.inl hv))
    have hd := holds_eq (c := d) fun v hv => hcovers v (mem_jointVariables.mpr (.inr hv))
    obtain rfl : c.accepts (c.tupleIn a) = x := Except.ok.inj (hc.symm.trans hx)
    obtain rfl : d.accepts (d.tupleIn a) = y := Except.ok.inj (hd.symm.trans hy)
    exact hop

lemma combined_and_wellFormed_iff (hc : c.scope.Nodup) (hd : d.scope.Nodup) :
    ¬ (combined (· && ·) name c d).WellFormed ↔ jointVariables c d ≠ [] ∧
      ∀ a : Assignment, a.Covers (jointVartype c d) (jointVariables c d) →
        ¬ (c.holds a = .ok true ∧ d.holds a = .ok true) := by
  rw [combined_wellFormed_iff hc hd, exists_allows_combined_iff, Classical.not_imp, not_exists]
  refine and_congr_right fun _ => forall_congr' fun a => ?_
  constructor
  · exact fun h hcovers ⟨hx, hy⟩ => h ⟨true, true, hcovers, hx, hy, rfl⟩
  · rintro h ⟨x, y, hcovers, hx, hy, hop⟩
    obtain ⟨rfl, rfl⟩ := (Bool.and_eq_true x y).mp hop
    exact h hcovers ⟨hx, hy⟩

end Checking

/-- Two constraints are joined unless both have variables over different domains, and what they are joined
to holds where one of them does, or both. Only an intersection can be empty, and it is refused just where
there are variables and no assignment of them satisfies both sides. -/
theorem union_and_intersection_hold (c d : Constraint) (hc : c.WellFormed) (hd : d.WellFormed)
    (hn : (jointVariables c d).length ≤ 63) :
    (∀ fault, c.union d = .error fault ↔
      c.Clashes d ∧ fault = .vartypeMismatch c.vartype d.vartype) ∧
    (∀ fault, c.intersection d = .error fault ↔
      c.Clashes d ∧ fault = .vartypeMismatch c.vartype d.vartype ∨
      ¬ c.Clashes d ∧ (jointVariables c d ≠ [] ∧
        ∀ a : Assignment, a.Covers (jointVartype c d) (jointVariables c d) →
          ¬ (c.holds a = .ok true ∧ d.holds a = .ok true)) ∧
        fault = .noConfiguration (jointVariables c d).length) ∧
    (∀ e, c.union d = .ok e → Joins (· || ·) c d e) ∧
    ∀ e, c.intersection d = .ok e → Joins (· && ·) c d e := by
  refine ⟨fun fault => ?_, fun fault => ?_, fun e h => ?_, fun e h => ?_⟩
  · rw [union, combine_eq_error_iff hc.1 hd.1 hn]
    refine or_iff_left ?_
    rintro ⟨hcd, hw, -⟩
    exact hw (combined_or_wellFormed hc hd hcd)
  · rw [intersection, combine_eq_error_iff hc.1 hd.1 hn, combined_and_wellFormed_iff hc.1 hd.1]
  · obtain ⟨hcd, -, rfl⟩ := (combine_eq_ok_iff hn).mp h
    exact combined_joins hcd
  · obtain ⟨hcd, -, rfl⟩ := (combine_eq_ok_iff hn).mp h
    exact combined_joins hcd

def oneUp : Constraint :=
  ⟨"Constraint", .spin, ["a", "b"], ⟨[[-1, 1], [1, -1], [1, 1]], by decide⟩⟩

def crossed : Constraint :=
  ⟨"Constraint", .spin, ["b", "c", "a"], ⟨[[1, -1, 1], [1, 1, -1]], by decide⟩⟩

def bothDown : Constraint := ⟨"Constraint", .spin, ["a", "b"], ⟨[[-1, -1]], by decide⟩⟩

theorem union_and_intersection_hold_of_oneUp :
    (∃ e, oneUp.intersection crossed = .ok e ∧ e.scope = ["a", "b", "c"] ∧
      Joins (· && ·) oneUp crossed e) ∧
    (∃ e, bothDown.union oneUp = .ok e ∧ Joins (· || ·) bothDown oneUp e) ∧
    ∀ a : Assignment, a.Covers .spin ["a", "b"] →
      ¬ (oneUp.holds a = .ok true ∧ bothDown.holds a = .ok true) := by
  have hone : oneUp.WellFormed := flaw_eq_none_iff.mp (by decide)
  have hcrossed : crossed.WellFormed := flaw_eq_none_iff.mp (by decide)
  have hdown : bothDown.WellFormed := flaw_eq_none_iff.mp (by decide)
  obtain ⟨e, he⟩ : ∃ e, oneUp.intersection crossed = .ok e := by
    apply Exists.intro
    cbv
  obtain ⟨k, hk⟩ : ∃ k, bothDown.union oneUp = .ok k := by
    apply Exists.intro
    cbv
  have hempty : oneUp.intersection bothDown = .error (.noConfiguration 2) := by cbv
  obtain ⟨-, -, -, hand⟩ := union_and_intersection_hold oneUp crossed hone hcrossed (by decide)
  obtain ⟨-, -, hor, -⟩ := union_and_intersection_hold bothDown oneUp hdown hone (by decide)
  obtain ⟨-, hfails, -, -⟩ := union_and_intersection_hold oneUp bothDown hone hdown (by decide)
  refine ⟨⟨e, he, (hand e he).scope.trans (by decide), hand e he⟩, ⟨k, hk, hor k hk⟩, ?_⟩
  obtain ⟨-, hclash⟩ | ⟨-, ⟨-, hnone⟩, -⟩ := (hfails _).mp hempty
  · cases hclash
  · exact hnone

end QuadraticPenalty.Constraint
