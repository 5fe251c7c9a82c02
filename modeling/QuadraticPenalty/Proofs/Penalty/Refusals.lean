import QuadraticPenalty.Proofs.Penalty.Requests

/-! How a run ends: with settings that are refused, with a constraint that has no penalty model, or with
a model of the whole problem. No step on the way fails in any other manner, whatever the oracle answers. -/

namespace QuadraticPenalty

namespace Compilation

section Ends

variable {α σ : Type} [Scalar α] {ask : Oracle α σ} {s : Settings α} {p : Problem} {c : Constraint}
  {cs : List Constraint} {o : σ} {r r' : Progress α σ} {m part : QuadraticModel α} {fault : Fault}
  {made : List String} {talk : List (Request α)} {mades : List (List String)}
  {talks : List (List (Request α))}

lemma Course.fault_eq (h : Course ask s c o made talk (some fault)) :
    ∃ attempted, fault = .noPenalty c.name c.arity attempted s.maxNodes := by
  cases h with
  | oversized => exact ⟨c.arity, rfl⟩
  | searched _ hsearch =>
    cases hsearch with
    | exhausted => exact ⟨s.maxNodes, rfl⟩

lemma Conducts.fault_eq (h : Conducts ask s cs o mades talks (some fault)) :
    ∃ c ∈ cs, ∃ attempted, fault = .noPenalty c.name c.arity attempted s.maxNodes := by
  generalize he : some fault = end? at h
  induction h with
  | done => cases he
  | @stops c cs _ _ _ _ hcourse =>
    cases he
    exact ⟨c, by simp, hcourse.fault_eq⟩
  | goes _ _ ih =>
    obtain ⟨d, hd, hfault⟩ := ih he
    exact ⟨d, by simp [hd], hfault⟩

lemma penalty_vartype (hc : c.WellFormed) (hne : c.scope ≠ [])
    (h : penalty ask s p c r = (.ok part, r')) : part.vartype = c.vartype := by
  let recorded : Progress α (List (Request α) × σ) := ⟨r.nextNumber, r.labels, ([], r.oracle), r.events⟩
  obtain ⟨-, -, fault, -, -, hyields⟩ := penalty_course ask s p hc hne recorded
  have hforget := penalty_forget (s := s) (p := p) (c := c) ask.forgets_recorded recorded
  have hpart : (penalty ask.recorded s p c recorded).1 = .ok part :=
    congrArg Prod.fst (hforget.symm.trans h)
  rw [hpart] at hyields
  cases fault with
  | some f => cases hyields
  | none =>
    obtain ⟨k, hk, ht⟩ := hyields
    cases hk
    exact ht

lemma addPenalties_frame
    (h : addPenalties ask s p cs (variablesModel p) ⟨0, [], o, []⟩ = (.ok m, r)) :
    m.vartype = p.vartype ∧ ∀ v ∈ p.labels, v ∈ m.labels := by
  refine addPenalties_induction
    (motive := fun _ m _ => m.vartype = p.vartype ∧ ∀ v ∈ p.labels, v ∈ m.labels)
    (fun _ _ _ _ _ _ hm => hm) (fun _ _ m _ part _ n _ _ hm _ hn => ?_)
    ⟨rfl, fun v hv => (labels_variablesModel (α := α) p).symm ▸ hv⟩ h
  obtain ⟨-, ht, hl, -⟩ := QuadraticModel.merge_frame hn
  exact ⟨ht.trans hm.1, fun v hv => (hl v).mpr (.inl (hm.2 v hv))⟩

lemma closedForm?_ne_error (hc : c.WellFormed) (fault : Fault) :
    c.closedForm? (α := α) ≠ some (.error fault) := by
  intro h
  obtain ⟨k, hk, -⟩ := Constraint.closedForm?_frames (α := α) hc (Constraint.size_of_closedForm? h)
  cases hk.symm.trans h

end Ends

/-- A run is refused exactly for its settings, fails only for want of a penalty model, and otherwise
yields a model of the problem's domain on all of its variables. On the way no closed form fails, no
projection to a factor, and no merge of a part with the sum of those before it. -/
theorem run_ends {α σ : Type} [Scalar α] (ask : Oracle α σ) (s : Settings α) (p : Problem) (o : σ)
    (hp : p.Reachable) :
    (∀ flaw, (run ask s p o).result = .error (.settings flaw) ↔ s.flaw = some flaw) ∧
    (s.flaw = none →
      (∃ m, (run ask s p o).result = .ok m ∧ m.vartype = p.vartype ∧ ∀ v ∈ p.labels, v ∈ m.labels) ∨
      ∃ c ∈ p.constraints, ∃ attempted, (run ask s p o).result =
        .error (.fault (.noPenalty c.name c.arity attempted s.maxNodes))) ∧
    (∀ c ∈ p.constraints, (∀ fault, c.closedForm? (α := α) ≠ some (.error fault)) ∧
      ∀ g ∈ c.factors, ∃ d, c.project g = .ok d) ∧
    ∀ done c rest m r part r', p.constraints = done ++ c :: rest → c.scope ≠ [] →
      addPenalties ask s p done (variablesModel p) ⟨0, [], o, []⟩ = (.ok m, r) →
      penalty ask s p c r = (.ok part, r') → ∃ n, m.merge part = .ok n := by
  have hcoherent := hp.coherent
  have hends (hs : s.flaw = none) := run_conducts ask o hp hs
  refine ⟨fun flaw => ⟨fun h => ?_, fun h => by rw [run, h]⟩, fun hs => ?_, fun c hc => ?_, ?_⟩
  · cases hs : s.flaw with
    | some other =>
      rw [run, hs] at h
      exact congrArg some (Refusal.settings.inj (Except.error.inj h))
    | none =>
      obtain ⟨_, _, _, _, -, -, -, -, -, -, ⟨-, m, hm⟩ | ⟨f, -, hf⟩⟩ := hends hs
      · cases hm.symm.trans h
      · cases hf.symm.trans h
  · obtain ⟨_, _, _, _, -, -, hconducts, -, -, -, ⟨-, m, hm⟩ | ⟨f, rfl, hf⟩⟩ := hends hs
    · obtain ⟨-, r, hadd, -⟩ := run_eq_ok hm
      exact .inl ⟨m, hm, addPenalties_frame hadd⟩
    · obtain ⟨c, hc, attempted, rfl⟩ := hconducts.fault_eq
      exact .inr ⟨c, hc, attempted, hf⟩
  · have hw := hcoherent.wellFormed c hc
    exact ⟨closedForm?_ne_error hw, fun g hg => ⟨_, Constraint.project_eq_ok hw
      (Constraint.nodup_of_mem_factors hw hg) fun v hv => Constraint.mem_scope_of_mem_factors hg hv⟩⟩
  · intro done c rest m r part r' hcs hne hadd hpenalty
    have hc : c ∈ p.constraints := by simp [hcs]
    refine QuadraticModel.merge_isOk ?_
    rw [penalty_vartype (hcoherent.wellFormed c hc) hne hpenalty, hcoherent.vartype c hc hne,
      (addPenalties_frame hadd).1]

def intruder : Oracle Extended Unit := fun _ o =>
  (⟨some ⟨(QuadraticModel.empty .binary).addBias "z" Scalar.one, .finite 5⟩, []⟩, o)

theorem run_ends_of_intruder : ∃ m, (run intruder narrow equalSpins ()).result = .ok m ∧
    m.vartype = .spin ∧ ∀ v ∈ ["a", "b"], v ∈ m.labels := by
  have hsome : (run intruder narrow equalSpins ()).result.toOption.isSome = true := by decide +kernel
  have hlabels : equalSpins.labels = ["a", "b"] := by cbv
  obtain ⟨-, hends, -, -⟩ := run_ends intruder narrow equalSpins () equalSpins_reachable
  obtain ⟨m, hm, ht, hl⟩ | ⟨c, -, attempted, hfault⟩ := hends (by decide)
  · exact ⟨m, hm, ht, hlabels ▸ hl⟩
  · rw [hfault] at hsome
    cases hsome

end Compilation

end QuadraticPenalty
