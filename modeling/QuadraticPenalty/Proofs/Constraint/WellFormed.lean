import QuadraticPenalty.Constraint.Algebra
import QuadraticPenalty.Proofs.Model.Completion

namespace QuadraticPenalty

lemma exists_of_bind_ok {ε β γ : Type} {x : Except ε β} {f : β → Except ε γ} {c : γ}
    (h : x >>= f = .ok c) : ∃ b, x = .ok b ∧ f b = .ok c := by
  cases x with
  | error e => cases h
  | ok b => exact ⟨b, rfl, h⟩

lemma mapM_eq_find? {ε β γ : Type} {f : β → Except ε γ} (refused : β → Bool) (fault : β → ε) (g : β → γ)
    (h : ∀ b, f b = if refused b then .error (fault b) else .ok (g b)) (bs : List β) : bs.mapM f =
      match bs.find? refused with
      | some b => .error (fault b)
      | none => .ok (bs.map g) := by
  induction bs with
  | nil => rfl
  | cons b bs ih =>
    rw [List.mapM_cons, h, ih, List.find?_cons, List.map_cons]
    cases refused b with
    | true => rfl
    | false => cases bs.find? refused <;> rfl

lemma SortedSet.toList_nodup {κ : Type} [Ordered κ] (s : SortedSet κ) : s.toList.Nodup :=
  s.increasing.imp fun h => Ordered.ne_of_before h

lemma SortedSet.toList_ofList_eq_nil_iff {κ : Type} [Ordered κ] {as : List κ} :
    (SortedSet.ofList as).toList = [] ↔ as = [] := by
  simp only [List.eq_nil_iff_forall_not_mem, ← SortedSet.mem_def, SortedSet.mem_ofList]

namespace Constraint

variable {c d : Constraint} {t : Vartype} {a : Assignment} {u v : String} {x : ℤ}

lemma firstRepeat_eq_none_iff {seen vs : List String} :
    firstRepeat seen vs = none ↔ vs.Nodup ∧ ∀ v ∈ vs, v ∉ seen := by
  induction vs generalizing seen with
  | nil => simp [firstRepeat]
  | cons u vs ih =>
    by_cases h : u ∈ seen
    · simp [firstRepeat, h]
    · simp only [firstRepeat, if_neg h, ih, List.nodup_cons, List.mem_cons, forall_eq_or_imp]
      constructor
      · rintro ⟨hn, hs⟩
        exact ⟨⟨fun hu => hs u hu (.inl rfl), hn⟩, h, fun v hv hvs => hs v hv (.inr hvs)⟩
      · rintro ⟨⟨hu, hn⟩, -, hs⟩
        refine ⟨hn, fun v hv hvs => ?_⟩
        rcases hvs with rfl | hvs
        exacts [hu hv, hs v hv hvs]

def Repeats (vs : List String) (u : String) : Prop :=
  ∃ before after, vs = before ++ u :: after ∧ before.Nodup ∧ u ∈ before

lemma firstRepeat_append_cons {seen before after : List String} (hn : before.Nodup)
    (hout : ∀ v ∈ before, v ∉ seen) (hu : u ∈ before ∨ u ∈ seen) :
    firstRepeat seen (before ++ u :: after) = some u := by
  -- each label before is new, and the scan goes on with it among those seen
  induction before generalizing seen with
  | nil => exact if_pos (hu.resolve_left List.not_mem_nil)
  | cons w before ih =>
    obtain ⟨hw, hn⟩ := List.nodup_cons.mp hn
    obtain ⟨hws, hout⟩ := List.forall_mem_cons.mp hout
    refine (if_neg hws).trans (ih hn (fun v hv hm => ?_) ?_)
    · obtain rfl | hm := List.mem_cons.mp hm
      exacts [hw hv, hout v hv hm]
    · rw [List.mem_cons] at hu ⊢
      tauto

lemma exists_of_firstRepeat {seen vs : List String} (h : firstRepeat seen vs = some u) :
    ∃ before after, vs = before ++ u :: after ∧ before.Nodup ∧ (∀ v ∈ before, v ∉ seen) ∧
      (u ∈ before ∨ u ∈ seen) := by
  induction vs generalizing seen with
  | nil => cases h
  | cons v vs ih =>
    rw [firstRepeat] at h
    split at h
    · next hv =>
      obtain rfl : v = u := Option.some.inj h
      exact ⟨[], vs, rfl, List.nodup_nil, by simp, .inr hv⟩
    · next hv =>
      obtain ⟨before, after, rfl, hn, hout, hu⟩ := ih h
      refine ⟨v :: before, after, rfl, List.nodup_cons.mpr ⟨fun hm => hout v hm (by simp), hn⟩, ?_, ?_⟩
      · exact List.forall_mem_cons.mpr ⟨hv, fun w hw hs => hout w hw (by simp [hs])⟩
      · rw [List.mem_cons] at hu ⊢
        tauto

lemma firstRepeat_eq_some_iff {vs : List String} : firstRepeat [] vs = some u ↔ Repeats vs u := by
  constructor
  · intro h
    obtain ⟨before, after, he, hn, -, hu⟩ := exists_of_firstRepeat h
    exact ⟨before, after, he, hn, hu.resolve_right List.not_mem_nil⟩
  · rintro ⟨before, after, rfl, hn, hu⟩
    exact firstRepeat_append_cons hn (fun v _ => List.not_mem_nil) (.inl hu)

lemma misfit_eq_none_iff {n : ℕ} {y : List ℤ} : misfit t n y = none ↔ t.IsTuple n y := by
  unfold misfit Vartype.IsTuple
  split
  · next h => simp [h]
  · next h => simp [not_not.mp h]

lemma flaw_eq_none_iff : c.flaw = none ↔ c.WellFormed := by
  unfold flaw WellFormed
  split
  · next v h =>
    have hn : ¬ c.scope.Nodup := fun hn => by
      rw [firstRepeat_eq_none_iff.mpr ⟨hn, by simp⟩] at h
      cases h
    simp [hn]
  · next h =>
    obtain ⟨hn, -⟩ := firstRepeat_eq_none_iff.mp h
    split
    · next he =>
      simp only [Bool.and_eq_true, SortedSet.isEmpty, List.isEmpty_iff, Bool.not_eq_true',
        List.isEmpty_eq_false_iff] at he
      simp [he]
    · next he =>
      simp only [Bool.and_eq_true, SortedSet.isEmpty, List.isEmpty_iff, Bool.not_eq_true',
        List.isEmpty_eq_false_iff, not_and] at he
      have hne : c.scope ≠ [] → c.configurations.toList ≠ [] := fun hs hc => he hc hs
      simp only [List.findSome?_eq_none_iff, misfit_eq_none_iff, hn, true_and]
      exact ⟨fun h => ⟨h, hne⟩, fun h => h.1⟩

lemma flaw_of_empty (hn : c.scope.Nodup) (hs : c.scope ≠ []) (h : c.configurations.toList = []) :
    c.flaw = some (.noConfiguration c.scope.length) := by
  have hrepeat : firstRepeat [] c.scope = none := firstRepeat_eq_none_iff.mpr ⟨hn, by simp⟩
  have hempty : (c.configurations.isEmpty && !c.scope.isEmpty) = true := by
    rw [Bool.and_eq_true, Bool.not_eq_true', List.isEmpty_eq_false_iff, SortedSet.isEmpty,
      List.isEmpty_iff]
    exact ⟨h, hs⟩
  rw [flaw, hrepeat]
  exact if_pos hempty

lemma checked_eq_ok_iff : checked c = .ok d ↔ d = c ∧ c.WellFormed := by
  unfold checked
  rw [← flaw_eq_none_iff]
  cases c.flaw <;> simp [eq_comm]

lemma WellFormed.isTuple (h : c.WellFormed) {y : List ℤ} (hy : y ∈ c.configurations) :
    c.vartype.IsTuple c.scope.length y :=
  h.2.1 y hy

lemma ofConfigurations_wellFormed {cs : List (List ℤ)} {vs : List String}
    (h : ofConfigurations cs vs t = .ok c) : c.WellFormed ∧ c.vartype = t := by
  obtain ⟨rfl, hc⟩ := checked_eq_ok_iff.mp h
  exact ⟨hc, rfl⟩

lemma ofPredicate_wellFormed {p : List ℤ → Bool} {vs : List String}
    (h : ofPredicate p vs t = .ok c) : c.WellFormed ∧ c.vartype = t := by
  unfold ofPredicate at h
  split at h
  · cases h
  · obtain ⟨rfl, hc⟩ := checked_eq_ok_iff.mp h
    exact ⟨hc, rfl⟩

lemma positionOf_eq_ok_iff {p : ℕ} : c.positionOf v = .ok p ↔ c.position v = some p := by
  unfold positionOf
  cases c.position v <;> simp

lemma position_getElem? {p : ℕ} (h : c.position v = some p) : c.scope[p]? = some v := by
  obtain ⟨hp, hv, -⟩ := List.findIdx?_eq_some_iff_getElem.mp h
  rw [List.getElem?_eq_getElem hp]
  simpa using hv

lemma mem_eraseIdx_position {p : ℕ} (hn : c.scope.Nodup) (h : c.position v = some p) :
    u ∈ c.scope.eraseIdx p ↔ u ≠ v ∧ u ∈ c.scope := by
  have hv := position_getElem? h
  rw [List.mem_eraseIdx_iff_getElem?]
  constructor
  · rintro ⟨i, hi, hu⟩
    refine ⟨?_, List.mem_of_getElem? hu⟩
    rintro rfl
    obtain ⟨hlt, hget⟩ := List.getElem?_eq_some_iff.mp hu
    obtain ⟨hplt, hpget⟩ := List.getElem?_eq_some_iff.mp hv
    exact hi (hn.getElem_inj_iff.mp (hget.trans hpget.symm))
  · rintro ⟨hne, hu⟩
    obtain ⟨i, hi⟩ := List.mem_iff_getElem?.mp hu
    refine ⟨i, ?_, hi⟩
    rintro rfl
    exact hne (Option.some.inj (hi.symm.trans hv))

lemma fix_eq_ok (h : c.fix v x = .ok d) : ∃ p, c.position v = some p ∧ d.vartype = c.vartype ∧
    d.scope = c.scope.eraseIdx p ∧ d.configurations.toList ≠ [] ∧
    ∀ y, y ∈ d.configurations ↔ ∃ z ∈ c.configurations, z.getD p 0 = x ∧ z.eraseIdx p = y := by
  obtain ⟨p, hp, h⟩ := exists_of_bind_ok h
  split at h
  · cases h
  · dsimp only at h
    split at h
    · cases h
    · next hne =>
      cases h
      refine ⟨p, positionOf_eq_ok_iff.mp hp, rfl, rfl, ?_, fun y => ?_⟩
      · simpa [SortedSet.isEmpty] using hne
      · simp [SortedSet.mem_map, SortedSet.mem_filter, and_assoc]

lemma WellFormed.fix (hc : c.WellFormed) (h : c.fix v x = .ok d) : d.WellFormed := by
  obtain ⟨p, hp, ht, hs, hne, hd⟩ := fix_eq_ok h
  obtain ⟨hlt, -⟩ := List.getElem?_eq_some_iff.mp (position_getElem? hp)
  refine ⟨hs ▸ hc.1.eraseIdx p, fun y hy => ?_, fun _ => hne⟩
  obtain ⟨z, hz, -, rfl⟩ := (hd y).mp hy
  obtain ⟨hlen, hval⟩ := hc.isTuple hz
  refine ⟨?_, fun y hy => ht ▸ hval y (List.mem_of_mem_eraseIdx hy)⟩
  rw [hs, List.length_eraseIdx_of_lt hlt, List.length_eraseIdx_of_lt (hlen ▸ hlt), hlen]

lemma mem_scope_of_fix (hc : c.WellFormed) (h : c.fix v x = .ok d) :
    u ∈ d.scope ↔ u ≠ v ∧ u ∈ c.scope := by
  obtain ⟨p, hp, -, hs, -, -⟩ := fix_eq_ok h
  rw [hs, mem_eraseIdx_position hc.1 hp]

def tupleIn (c : Constraint) (a : Assignment) : List ℤ := c.scope.map fun v => (a v).getD 0

lemma valuesIn_cases (c : Constraint) (a : Assignment) : c.valuesIn a =
    match c.scope.find? fun u => (a u).isNone with
    | some u => .error (.unassigned u)
    | none => .ok (c.tupleIn a) := by
  rw [valuesIn, mapM_eq_find? (fun v => (a v).isNone) .unassigned (fun v => (a v).getD 0) ?_]
  · cases c.scope.find? fun u => (a u).isNone <;> rfl
  · intro v
    cases a v <;> rfl

lemma holds_cases (c : Constraint) (a : Assignment) : c.holds a =
    match c.scope.find? fun u => (a u).isNone with
    | some u => .error (.unassigned u)
    | none => .ok (c.accepts (c.tupleIn a)) := by
  rw [holds, valuesIn_cases]
  cases c.scope.find? fun u => (a u).isNone <;> rfl

lemma holds_of_assigned (h : ∀ v ∈ c.scope, (a v).isSome) : c.holds a = .ok (c.accepts (c.tupleIn a)) := by
  have hnone : (c.scope.find? fun v => (a v).isNone) = none :=
    List.find?_eq_none.mpr fun v hv => by simpa [Option.isSome_iff_ne_none] using h v hv
  rw [holds_cases, hnone]

lemma holds_eq (h : a.Covers t c.scope) : c.holds a = .ok (c.accepts (c.tupleIn a)) := by
  refine holds_of_assigned fun v hv => ?_
  obtain ⟨y, -, hy⟩ := h v hv
  rw [hy]
  rfl

lemma tupleIn_isTuple (h : a.Covers t c.scope) : t.IsTuple c.scope.length (c.tupleIn a) :=
  h.isTuple

lemma accepts_iff {y : List ℤ} : c.accepts y = true ↔ y ∈ c.configurations := by simp [accepts]

lemma same_iff : c.same d = true ↔
    c.scope = d.scope ∧ c.configurations = d.configurations ∧ c.vartype = d.vartype := by
  simp only [same, Bool.and_eq_true, beq_iff_eq, decide_eq_true_eq, and_assoc]

section Answers

variable {p : Prop} {x y : Except Fault Constraint}

/-- Two answers are both faults, or constraints that differ in their names at most. -/
def Agree : Except Fault Constraint → Except Fault Constraint → Prop
  | .ok c, .ok d => c.same d = true
  | .error _, .error _ => True
  | _, _ => False

lemma agree_iff : Agree x y ↔ ((∃ r, x = .ok r) ↔ ∃ s, y = .ok s) ∧
    ∀ r s, x = .ok r → y = .ok s → r.same s = true := by
  cases x <;> cases y <;> simp [Agree]

lemma agree_of_iff (hx : ∀ r, x = .ok r ↔ p ∧ r = c) (hy : ∀ r, y = .ok r ↔ p ∧ r = d)
    (h : p → c.same d = true) : Agree x y := by
  have hisOk {z : Except Fault Constraint} {k : Constraint} (hz : ∀ r, z = .ok r ↔ p ∧ r = k) :
      (∃ r, z = .ok r) ↔ p := ⟨fun ⟨r, hr⟩ => ((hz r).mp hr).1, fun hp => ⟨k, (hz k).mpr ⟨hp, rfl⟩⟩⟩
  refine agree_iff.mpr ⟨(hisOk hx).trans (hisOk hy).symm, fun r s hr hs => ?_⟩
  obtain ⟨hp, rfl⟩ := (hx r).mp hr
  obtain ⟨-, rfl⟩ := (hy s).mp hs
  exact h hp

end Answers

lemma WellFormed.subperm_tuples (hc : c.WellFormed) :
    c.configurations.toList.Subperm (c.vartype.tuples c.arity) :=
  c.configurations.toList_nodup.subperm fun _ hx => Vartype.mem_tuples.mpr (hc.isTuple hx)

lemma size_eq_two_pow_iff (hc : c.WellFormed) : c.configurations.size = 2 ^ c.arity ↔
    ∀ y, c.vartype.IsTuple c.arity y → c.accepts y = true := by
  have hlength := Vartype.tuples_length c.vartype c.arity
  constructor
  · intro h y hy
    have hperm := hc.subperm_tuples.perm_of_length_le (hlength.trans h.symm).le
    exact accepts_iff.mpr (hperm.mem_iff.mpr (Vartype.mem_tuples.mpr hy))
  · intro h
    have hall : (c.vartype.tuples c.arity).Subperm c.configurations.toList :=
      (Vartype.tuples_nodup _ _).subperm fun y hy => accepts_iff.mp (h y (Vartype.mem_tuples.mp hy))
    exact (hc.subperm_tuples.length_le.antisymm hall.length_le).trans hlength

lemma accepts_of_isFull (hc : c.WellFormed) (h : c.isFull = true) {y : List ℤ}
    (hy : c.vartype.IsTuple c.scope.length y) : c.accepts y = true := by
  simp only [isFull, Bool.and_eq_true, beq_iff_eq] at h
  exact (size_eq_two_pow_iff hc).mp h.2 y hy

end Constraint

end QuadraticPenalty
