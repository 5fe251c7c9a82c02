import QuadraticPenalty.Model.History
import QuadraticPenalty.Proofs.Model.Translation

namespace QuadraticPenalty.QuadraticModel

open Scalar Ordered

section Reading

variable {t : Vartype} {a : Assignment} {v : String} {fault other : Fault}

def Misread (t : Vartype) (a : Assignment) (v : String) (fault : Fault) : Prop :=
  a v = none ∧ fault = .unassigned v ∨ ∃ y, a v = some y ∧ y ∉ t.values ∧ fault = .outOfDomain y t

lemma Misread.not_valued (h : Misread t a v fault) : ¬ ∃ y ∈ t.values, a v = some y := by
  rintro ⟨y, hy, ha⟩
  rcases h with ⟨hnone, -⟩ | ⟨z, hz, hnot, -⟩
  · cases hnone.symm.trans ha
  · obtain rfl : z = y := Option.some.inj (hz.symm.trans ha)
    exact hnot hy

lemma Misread.fault_eq (h : Misread t a v fault) (k : Misread t a v other) : fault = other := by
  rcases h with ⟨ha, rfl⟩ | ⟨y, ha, -, rfl⟩ <;> rcases k with ⟨hb, rfl⟩ | ⟨z, hb, -, rfl⟩
  · rfl
  · cases ha.symm.trans hb
  · cases ha.symm.trans hb
  · rw [Option.some.inj (ha.symm.trans hb)]

lemma valueOf_cases (t : Vartype) (a : Assignment) (v : String) :
    (∃ y ∈ t.values, a v = some y ∧ valueOf t a v = .ok y) ∨
      ∃ fault, Misread t a v fault ∧ valueOf t a v = .error fault := by
  cases ha : a v with
  | none => exact .inr ⟨.unassigned v, .inl ⟨ha, rfl⟩, by simp [valueOf, ha]⟩
  | some y =>
    by_cases hy : y ∈ t.values
    · exact .inl ⟨y, hy, rfl, valueOf_eq hy ha⟩
    · have hc : t.contains y = false := by
        rw [Bool.eq_false_iff]
        exact mt Vartype.contains_iff.mp hy
      exact .inr ⟨.outOfDomain y t, .inr ⟨y, ha, hy, rfl⟩, by simp [valueOf, ha, hc]⟩

variable {α : Type} [Scalar α]

lemma foldlM_biases_cases {es : List (String × α)} (hes : es.Pairwise fun p q => before p.1 q.1 = true)
    (e : α) :
    (∀ p ∈ es, ∃ y ∈ t.values, a p.1 = some y) ∧ (∃ f, es.foldlM (addBiasTerm t a) e = .ok f) ∨
      ∃ p ∈ es, ∃ fault, Misread t a p.1 fault ∧ es.foldlM (addBiasTerm t a) e = .error fault ∧
        ∀ q ∈ es, before q.1 p.1 = true → ∃ y ∈ t.values, a q.1 = some y := by
  induction es generalizing e with
  | nil => exact .inl ⟨by simp, e, rfl⟩
  | cons p es ih =>
    obtain ⟨hp, hes⟩ := List.pairwise_cons.mp hes
    rw [List.foldlM_cons, addBiasTerm]
    rcases valueOf_cases t a p.1 with ⟨y, hy, ha, hvalue⟩ | ⟨fault, hmis, hvalue⟩
    · rw [hvalue]
      rcases ih hes (e + p.2 * ofInt y) with ⟨hall, hok⟩ | ⟨q, hq, fault, hmis, herror, hfirst⟩
      · exact .inl ⟨List.forall_mem_cons.mpr ⟨⟨y, hy, ha⟩, hall⟩, hok⟩
      · exact .inr ⟨q, List.mem_cons_of_mem p hq, fault, hmis, herror,
          List.forall_mem_cons.mpr ⟨fun _ => ⟨y, hy, ha⟩, hfirst⟩⟩
    · rw [hvalue]
      refine .inr ⟨p, List.mem_cons_self, fault, hmis, rfl, List.forall_mem_cons.mpr ⟨?_, ?_⟩⟩
      · intro hself
        rw [before_irrefl] at hself
        cases hself
      · intro q hq hbefore
        rw [before_asymm (hp q hq)] at hbefore
        cases hbefore

lemma foldlM_couplings_isOk (es : List ((String × String) × α)) (e : α)
    (h : ∀ p ∈ es, (∃ y ∈ t.values, a p.1.1 = some y) ∧ ∃ y ∈ t.values, a p.1.2 = some y) :
    ∃ f, es.foldlM (addCouplingTerm t a) e = .ok f := by
  induction es generalizing e with
  | nil => exact ⟨e, rfl⟩
  | cons p es ih =>
    obtain ⟨⟨⟨y, hy, ha⟩, z, hz, hb⟩, hes⟩ := List.forall_mem_cons.mp h
    rw [List.foldlM_cons, addCouplingTerm, valueOf_eq hy ha, valueOf_eq hz hb]
    exact ih (e + p.2 * ofInt y * ofInt z) hes

end Reading

section Energy

variable {α : Type} {m k : QuadraticModel α} {a : Assignment} {u v : String} {fault other : Fault}

structure FirstMisread (m : QuadraticModel α) (a : Assignment) (v : String) (fault : Fault) : Prop where
  mem : v ∈ m.labels
  misread : Misread m.vartype a v fault
  first : ∀ u ∈ m.labels, before u v = true → ∃ y ∈ m.vartype.values, a u = some y

lemma FirstMisread.fault_eq (h : m.FirstMisread a u fault) (k : m.FirstMisread a v other) :
    fault = other := by
  cases huv : before u v with
  | true => exact absurd (k.first u h.mem huv) h.misread.not_valued
  | false =>
    cases hvu : before v u with
    | true => exact absurd (h.first v k.mem hvu) k.misread.not_valued
    | false =>
      obtain rfl := before_connected huv hvu
      exact h.misread.fault_eq k.misread

lemma FirstMisread.not_covers (h : m.FirstMisread a v fault) : ¬ a.Covers m.vartype m.labels :=
  fun ha => h.misread.not_valued (ha v h.mem)

variable [Scalar α]

lemma WellFormed.sumCouplings_isOk (hm : m.WellFormed) (ha : a.Covers m.vartype m.labels) (e : α) :
    ∃ f, m.couplings.entries.foldlM (addCouplingTerm m.vartype a) e = .ok f :=
  foldlM_couplings_isOk _ e fun p hp =>
    ⟨ha _ (hm.left p.1 (List.mem_map_of_mem hp)), ha _ (hm.right p.1 (List.mem_map_of_mem hp))⟩

lemma sumBiases_cases (m : QuadraticModel α) (a : Assignment) :
    a.Covers m.vartype m.labels ∧
        (∃ e, m.linear.entries.foldlM (addBiasTerm m.vartype a) m.offset = .ok e) ∨
      ∃ v fault, m.FirstMisread a v fault ∧
        m.linear.entries.foldlM (addBiasTerm m.vartype a) m.offset = .error fault := by
  rcases foldlM_biases_cases (t := m.vartype) (a := a) m.linear.increasing m.offset with
    ⟨hall, hok⟩ | ⟨p, hp, fault, hmis, herror, hfirst⟩
  · exact .inl ⟨List.forall_mem_map.mpr hall, hok⟩
  · exact .inr ⟨p.1, fault, ⟨List.mem_map_of_mem hp, hmis, List.forall_mem_map.mpr hfirst⟩, herror⟩

lemma WellFormed.energy_cases (hm : m.WellFormed) (a : Assignment) :
    a.Covers m.vartype m.labels ∧ (∃ e, m.energy a = .ok e) ∨
      ∃ v fault, m.FirstMisread a v fault ∧ m.energy a = .error fault := by
  rw [energy_eq_foldlM]
  rcases sumBiases_cases m a with ⟨ha, e, he⟩ | ⟨v, fault, hfirst, herror⟩
  · rw [he]
    exact .inl ⟨ha, hm.sumCouplings_isOk ha e⟩
  · rw [herror]
    exact .inr ⟨v, fault, hfirst, rfl⟩

lemma WellFormed.energy_isOk_iff (hm : m.WellFormed) :
    (∃ e, m.energy a = .ok e) ↔ a.Covers m.vartype m.labels := by
  rcases hm.energy_cases a with ⟨ha, hok⟩ | ⟨v, fault, hfirst, herror⟩
  · exact iff_of_true hok ha
  · refine iff_of_false ?_ hfirst.not_covers
    rintro ⟨e, he⟩
    cases herror.symm.trans he

lemma WellFormed.energy_eq_error_iff (hm : m.WellFormed) :
    m.energy a = .error fault ↔ ∃ v, m.FirstMisread a v fault := by
  rcases hm.energy_cases a with ⟨ha, e, he⟩ | ⟨v, found, hfirst, herror⟩
  · refine iff_of_false (fun h => ?_) ?_
    · cases h.symm.trans he
    · rintro ⟨v, hv⟩
      exact hv.not_covers ha
  · rw [herror, Except.error.injEq]
    constructor
    · rintro rfl
      exact ⟨v, hfirst⟩
    · rintro ⟨u, hu⟩
      exact hfirst.fault_eq hu

lemma pair_comm (u v : String) : pair u v = pair v u := by
  by_cases h : u = v
  · rw [h]
  · rcases pair_eq h with ⟨hp, hb⟩ | ⟨hp, hb⟩ <;> simp [pair, hb, before_asymm hb]

lemma addCouplingEntries_eq (es : List ((String × String) × α)) (m : QuadraticModel α) :
    es.foldl (fun m e => { m with couplings := m.couplings.addAt e }) m =
      { m with couplings := es.foldl .addAt m.couplings } := by
  induction es generalizing m with
  | nil => rfl
  | cons e es ih => exact ih _

lemma absorb_eq (m k : QuadraticModel α) : m.absorb k =
    match m.merge k with
    | .ok n => (.ok (), n)
    | .error fault => (.error fault, m) := by
  rw [absorb, merge]
  split
  · rfl
  · rw [addBiases_eq]
    exact congrArg (fun m => (Except.ok (), m.addOffset k.offset)) (addCouplingEntries_eq ..)

lemma History.reachable (h : History α) : h.model.Reachable := by
  induction h with
  | empty t => exact .empty t
  | addBias h v a ih => exact ih.addBias v a
  | addCoupling h u v a ih => exact ih.addCoupling u v a
  | addOffset h a ih => exact ih.addOffset a
  | merge h other ihh iho =>
    rw [History.model, absorb_eq]
    cases hmerge : h.model.merge other.model with
    | ok n => exact .merge ihh iho hmerge
    | error fault => exact ihh
  | toVartype h t ih => exact ih.toVartype t

end Energy

/-- Whatever calls made a model, its couplings join two of its variables under the labels in order. So
every assignment to all its variables has an energy; any other is refused for the first label that it
misreads, and never for a coupling. -/
theorem energy_total {α : Type} [Scalar α] (h : History α) (a : Assignment) :
    (∀ e ∈ h.model.couplings.keys,
      before e.1 e.2 = true ∧ e.1 ∈ h.model.labels ∧ e.2 ∈ h.model.labels) ∧
    (∀ u v, h.model.coupling? u v = h.model.coupling? v u) ∧
    ((∃ e, h.model.energy a = .ok e) ↔ a.Covers h.model.vartype h.model.labels) ∧
    (∀ fault, h.model.energy a = .error fault ↔ ∃ v, h.model.FirstMisread a v fault) ∧
    ∀ e, h.model.linear.entries.foldlM (addBiasTerm h.model.vartype a) h.model.offset = .ok e →
      ∃ f, h.model.couplings.entries.foldlM (addCouplingTerm h.model.vartype a) e = .ok f := by
  have hm := h.reachable.wellFormed
  refine ⟨fun e he => ⟨hm.ordered e he, hm.left e he, hm.right e he⟩, fun u v => ?_,
    hm.energy_isOk_iff, fun fault => hm.energy_eq_error_iff, fun e he => ?_⟩
  · rw [coupling?, coupling?, pair_comm]
  · rcases sumBiases_cases h.model a with ⟨ha, -⟩ | ⟨v, fault, -, herror⟩
    · exact hm.sumCouplings_isOk ha e
    · cases herror.symm.trans he

def mismatched : History ℚ :=
  .merge (.merge (.addCoupling (.empty .spin) "c" "c" 2) (.addCoupling (.empty .spin) "b" "a" (-1)))
    (.addBias (.empty .binary) "d" 5)

theorem energy_total_of_mismatched :
    mismatched.model.energy (.ofLists ["a"] [1]) = .error (.unassigned "b") ∧
      mismatched.model.coupling? "a" "b" = mismatched.model.coupling? "b" "a" := by
  obtain ⟨-, hsymm, -, herror, -⟩ := energy_total mismatched (.ofLists ["a"] [1])
  have hlabels : mismatched.model.labels = ["a", "b"] := by decide +kernel
  refine ⟨(herror _).mpr ⟨"b", ?_, .inl ⟨rfl, rfl⟩, ?_⟩, hsymm "a" "b"⟩
  · rw [hlabels]
    decide
  · rw [hlabels]
    decide +kernel

end QuadraticPenalty.QuadraticModel
