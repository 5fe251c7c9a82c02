import QuadraticPenalty.Proofs.Model.Biases
import QuadraticPenalty.Proofs.Penalty.Additivity

namespace QuadraticPenalty

open Scalar QuadraticModel Extended

namespace Constraint

variable {c : Constraint} {m n : QuadraticModel Extended} {group : List String}

lemma isHalf_indicator (t : Vartype) (x : ℤ) :
    IsHalf (indicator t x).1 ∧ IsHalf (indicator t x).2 := by
  cases t with
  | spin =>
    refine ⟨⟨1, rfl⟩, x, congrArg finite ?_⟩
    have hhalf : (1 / 2 : ℚ) * x = x / 2 := by ring
    exact hhalf
  | binary =>
    simp only [indicator]
    split
    exacts [⟨isHalf_ofInt 0, isHalf_ofInt 1⟩, ⟨isHalf_ofInt 1, isHalf_ofInt (-1)⟩]

lemma biasesIn_addIndicator (h : m.BiasesIn IsHalf) (t : Vartype) (scope : List String)
    (tuple : List ℤ) : (addIndicator t scope m tuple).BiasesIn IsHalf := by
  have hP := sumClosed_isHalf
  unfold addIndicator
  split
  · next v x =>
    obtain ⟨ha, hb⟩ := isHalf_indicator t x
    exact (h.addOffset hP ha.two_mul).addBias hP hb.two_mul
  · next u v x y =>
    obtain ⟨ha, hb⟩ := isHalf_indicator t x
    obtain ⟨hc, hd⟩ := isHalf_indicator t y
    exact (((h.addOffset hP (ha.two_mul_mul hc)).addBias hP (hb.two_mul_mul hc)).addBias hP
      (ha.two_mul_mul hd)).addCoupling hP (hb.two_mul_mul hd)
  · exact h

lemma biasesIn_blankModel (c : Constraint) :
    (c.blankModel : QuadraticModel Extended).BiasesIn IsHalf := by
  have hP := sumClosed_isHalf
  exact List.foldlRecOn c.scope _ (biasesIn_empty hP c.vartype) fun m hm _ _ => hm.addBias hP hP.zero

lemma biasesIn_exclusionModel (c : Constraint) :
    (c.exclusionModel : QuadraticModel Extended).BiasesIn IsHalf :=
  List.foldlRecOn c.forbidden _ (biasesIn_blankModel c) fun _ hm tuple _ =>
    biasesIn_addIndicator hm c.vartype c.scope tuple

lemma biasesIn_addFactor (hm : m.BiasesIn IsHalf) (h : c.addFactor m group = .ok n) :
    n.BiasesIn IsHalf := by
  obtain ⟨d, -, hmerge⟩ := exists_of_bind_ok h
  exact hm.merge sumClosed_isHalf (biasesIn_exclusionModel d) hmerge

lemma biasesIn_addFactors {groups : List (List String)} (hm : m.BiasesIn IsHalf)
    (h : groups.foldlM c.addFactor m = .ok n) : n.BiasesIn IsHalf := by
  induction groups generalizing m with
  | nil =>
    cases h
    exact hm
  | cons g groups ih =>
    obtain ⟨k, hk, hrest⟩ := exists_of_bind_ok h
    exact ih (biasesIn_addFactor hm hk) hrest

lemma biasesIn_closedForm? (h : c.closedForm? = some (.ok n)) : n.BiasesIn IsHalf := by
  unfold closedForm? at h
  split at h
  · cases h
    exact biasesIn_exclusionModel c
  · rw [Option.some.injEq, pairModel] at h
    split at h
    · cases h
      exact biasesIn_blankModel c
    · split at h
      · cases h
        exact biasesIn_exclusionModel c
      · exact biasesIn_addFactors (biasesIn_empty sumClosed_isHalf c.vartype) h
  · cases h

end Constraint

def missedFactors (cs : List Constraint) (a : Assignment) : ℕ :=
  ((cs.filter fun c => c.scope ≠ []).map fun c => c.factors.countP (c.misses a)).sum

lemma missedFactors_append (cs : List Constraint) (c : Constraint) (a : Assignment) :
    missedFactors (cs ++ [c]) a = missedFactors cs a +
      if c.scope = [] then 0 else c.factors.countP (c.misses a) := by
  simp only [missedFactors, List.filter_append, List.map_append, List.sum_append]
  by_cases hs : c.scope = [] <;> simp [hs]

namespace Compilation

variable {σ : Type} {s : Settings Extended} {p : Problem} {g : ℚ} {c : Constraint}
  {cs : List Constraint} {r : Progress Extended σ} {k n : QuadraticModel ℚ} {o : σ}

lemma penalty_eq_closedForm (ask : Oracle Extended σ) (p : Problem) (r : Progress Extended σ)
    (hg : s.gap = finite g) (hle : g ≤ 2 + tolerance) (hc : c.WellFormed) (hs : c.scope ≠ [])
    (htwo : c.arity ≤ 2) (hmax : c.arity ≤ s.maxNodes) :
    ∃ (es : List (Event Extended)) (k : QuadraticModel ℚ),
      penalty ask s p c r = (.ok k.exact, r.report es) ∧ es.filterMap Event.request? = [] ∧
      c.Frames k ∧ k.exact.BiasesIn IsHalf ∧ ∀ a : Assignment, a.Covers c.vartype c.scope →
        k.value a.reading = 2 * (c.factors.countP (c.misses a) : ℚ) := by
  cases hfull : c.isFull with
  | true =>
    have hframes := Constraint.frames_blankModel (α := ℚ) c
    refine ⟨[.trivial c.name], c.blankModel, ?_, rfl, hframes, ?_, fun a ha => ?_⟩
    · rw [Constraint.exact_blankModel]
      exact penalty_eq_ok_iff.mpr ⟨hmax, .blank hfull⟩
    · rw [Constraint.exact_blankModel]
      exact Constraint.biasesIn_blankModel c
    · rw [Constraint.value_blankModel, Constraint.countP_misses_of_isFull hc hfull ha]
      simp
  | false =>
    have hsmall : Scalar.le s.gap (two + tolerance) = true := by
      rw [hg]
      exact decide_eq_true hle
    have hpos : 0 < c.scope.length := List.length_pos_iff.mpr hs
    obtain ⟨k, hk, hframes, hvalue⟩ := Constraint.closedForm?_eq_some hc
      (by unfold Constraint.arity at htwo; omega)
    refine ⟨splitEvents c ++ [.closedForm c.name c.arity], k,
      penalty_eq_ok_iff.mpr ⟨hmax, .closedForm hfull hsmall hk⟩, ?_, hframes,
      Constraint.biasesIn_closedForm? hk, hvalue⟩
    simp only [splitEvents]
    split <;> rfl

structure Counts (p : Problem) (o : σ) (cs : List Constraint) (r : Progress Extended σ)
    (k : QuadraticModel ℚ) : Prop where
  wellFormed : k.WellFormed
  vartype : k.vartype = p.vartype
  labels : ∀ v, v ∈ k.labels ↔ v ∈ p.labels
  halves : k.exact.BiasesIn IsHalf
  value : ∀ a : Assignment, a.Covers p.vartype p.labels →
    k.value a.reading = 2 * (missedFactors cs a : ℚ)
  oracle : r.oracle = o
  made : r.labels = []
  requests : r.events.filterMap Event.request? = []

lemma biasesIn_variablesModel (p : Problem) :
    (variablesModel p : QuadraticModel Extended).BiasesIn IsHalf := by
  refine ⟨isHalf_ofInt 0, fun e he => ?_, by simp [variablesModel, empty, SortedMap.empty]⟩
  obtain ⟨i, -, rfl⟩ := List.mem_map.mp he
  exact isHalf_ofInt 0

lemma counts_variablesModel (p : Problem) (o : σ) :
    Counts p o [] ⟨0, [], o, []⟩ (variablesModel p) := by
  refine ⟨wellFormed_variablesModel p, rfl, fun v => by rw [labels_variablesModel], ?_, fun a _ => ?_,
    rfl, rfl, rfl⟩
  · rw [exact_variablesModel]
    exact biasesIn_variablesModel p
  · simp [value_variablesModel, missedFactors]

lemma Counts.skip (h : Counts p o cs r k) (hc : c.scope = []) :
    Counts p o (cs ++ [c]) (r.report [.vacuous c.name]) k := by
  refine ⟨h.wellFormed, h.vartype, h.labels, h.halves, fun a ha => ?_, h.oracle, h.made, ?_⟩
  · rw [h.value a ha, missedFactors_append, if_pos hc, Nat.add_zero]
  · rw [Progress.report, List.filterMap_append, h.requests]
    rfl

lemma Counts.add (h : Counts p o cs r k) (hl : ∀ v ∈ c.scope, v ∈ p.labels)
    (ht : c.vartype = p.vartype) (hs : c.scope ≠ []) {es : List (Event Extended)}
    (hes : es.filterMap Event.request? = []) {part : QuadraticModel ℚ} (hpart : c.Frames part)
    (hhalf : part.exact.BiasesIn IsHalf)
    (hvalue : ∀ a : Assignment, a.Covers c.vartype c.scope →
      part.value a.reading = 2 * (c.factors.countP (c.misses a) : ℚ))
    (hn : k.merge part = .ok n) : Counts p o (cs ++ [c]) (r.report es) n := by
  obtain ⟨-, hnt, hnl, -⟩ := merge_frame hn
  refine ⟨h.wellFormed.merge hpart.wellFormed hn, hnt.trans h.vartype, fun v => ?_,
    h.halves.merge sumClosed_isHalf hhalf (exact_merge hn), fun a ha => ?_, h.oracle, h.made, ?_⟩
  · rw [hnl, h.labels, hpart.labels]
    exact or_iff_left_of_imp (hl v)
  · rw [value_merge hn, h.value a ha, hvalue a fun v hv => ht ▸ ha v (hl v hv), missedFactors_append,
      if_neg hs]
    push_cast
    ring
  · rw [Progress.report, List.filterMap_append, h.requests, hes]
    rfl

lemma Counts.energy {cs : List Constraint} {r : Progress Extended σ} {k : QuadraticModel ℚ} {o : σ}
    {a : Assignment} (h : Counts p o cs r k) (ha : a.Covers p.vartype p.labels) :
    k.exact.energy a = .ok (finite (2 * missedFactors cs a)) := by
  rw [energy_exact h.wellFormed fun v hv => h.vartype.symm ▸ ha v ((h.labels v).mp hv), h.value a ha]

/-- Twice the missed factors is the energy of a problem with constraints on at most two variables.
Its model has the variables of the problem alone, and halves for biases. -/
theorem run_closedForm {σ : Type} (ask : Oracle Extended σ) (s : Settings Extended) (p : Problem)
    (o : σ) (g : ℚ) (hp : p.Reachable) (hs : s.flaw = none) (hg : s.gap = finite g)
    (hle : g ≤ 2 + tolerance) (htwo : ∀ c ∈ p.constraints, c.arity ≤ 2)
    (hmax : ∀ c ∈ p.constraints, c.arity ≤ s.maxNodes) :
    ∃ m : QuadraticModel Extended, (run ask s p o).result = .ok m ∧
      (run ask s p o).requests = [] ∧ (run ask s p o).oracle = o ∧ (run ask s p o).labels = [] ∧
      m.vartype = p.vartype ∧ (∀ v, v ∈ m.labels ↔ v ∈ p.labels) ∧
      IsHalf m.offset ∧ (∀ e ∈ m.linear.entries, IsHalf e.2) ∧
      (∀ e ∈ m.couplings.entries, IsHalf e.2) ∧
      ∀ a : Assignment, a.Covers p.vartype p.labels →
        m.energy a = .ok (finite (2 * missedFactors p.constraints a)) := by
  have hcoherent := hp.coherent
  have hadd := addPenalties_eq_ok ask s p p.constraints
    (motive := fun done m r => ∃ k : QuadraticModel ℚ, m = k.exact ∧ Counts p o done r k) ?_ ?_
    ⟨variablesModel p, (exact_variablesModel p).symm, counts_variablesModel p o⟩
  · obtain ⟨_, r, hrun, k, rfl, hk⟩ := hadd
    have hrequests : (r.report [finishedEvent p k.exact r.labels]).events.filterMap Event.request? =
        [] := by
      rw [Progress.report, List.filterMap_append, hk.requests]
      rfl
    rw [run, hs]
    dsimp only
    rw [hrun]
    refine ⟨k.exact, rfl, hrequests, hk.oracle, hk.made, hk.vartype, fun v => ?_, hk.halves.offset,
      hk.halves.linear, hk.halves.couplings, fun a ha => ?_⟩
    · rw [exact_labels, hk.labels]
    · exact hk.energy ha
  · rintro done c _ r _ hempty ⟨k, rfl, hk⟩
    exact ⟨k, rfl, hk.skip hempty⟩
  · rintro done c _ r hc hne ⟨k, rfl, hk⟩
    obtain ⟨es, part, hpenalty, hes, hframes, hhalf, hvalue⟩ := penalty_eq_closedForm ask p r
      hg hle (hcoherent.wellFormed c hc) hne (htwo c hc) (hmax c hc)
    have ht := hcoherent.vartype c hc hne
    obtain ⟨n, hn⟩ := merge_isOk (hframes.vartype.trans (ht.trans hk.vartype.symm))
    exact ⟨_, _, _, hpenalty, exact_merge hn, n, rfl,
      hk.add (hcoherent.labelled c hc) ht hne hes hframes hhalf hvalue hn⟩

def twoOnes : Problem :=
  (Problem.empty .binary).addConstraint
    ⟨"Constraint", .binary, ["u", "v"], ⟨[[1, 1]], by decide⟩⟩

lemma twoOnes_reachable : twoOnes.Reachable := by
  have hadd : (Problem.empty .binary).add (.configurations [[1, 1]] ["u", "v"]) =
      .ok twoOnes := by cbv
  exact .add (.empty .binary) (s := .configurations _ _) trivial hadd

theorem run_closedForm_of_twoOnes : ∃ m, (run Oracle.none .default twoOnes ()).result = .ok m ∧
    m.energy (.ofLists ["u", "v"] [0, 0]) = .ok (finite 4) := by
  have hone : ∀ c ∈ twoOnes.constraints, c.arity = 2 := by
    intro c hc
    obtain rfl := List.mem_singleton.mp hc
    rfl
  have htolerance : (2 : ℚ) ≤ 2 + tolerance := by
    have ht : (tolerance : ℚ) = 1 / 1000000000 := rfl
    norm_num [ht]
  have hlabels : twoOnes.labels = ["u", "v"] := by cbv
  have ha : (Assignment.ofLists ["u", "v"] [0, 0]).Covers .binary twoOnes.labels := by
    rw [hlabels]
    intro v hv
    simp only [List.mem_cons, List.not_mem_nil, or_false] at hv
    rcases hv with rfl | rfl <;> exact ⟨0, by decide, by decide⟩
  obtain ⟨m, hm, -, -, -, -, -, -, -, -, henergy⟩ := run_closedForm Oracle.none .default twoOnes () 2
    twoOnes_reachable (by decide) rfl htolerance (fun c hc => (hone c hc).le)
    fun c hc => (hone c hc).le.trans (by decide)
  have hmissed : missedFactors twoOnes.constraints (.ofLists ["u", "v"] [0, 0]) = 2 := by cbv
  refine ⟨m, hm, (henergy _ ha).trans ?_⟩
  rw [hmissed]
  norm_num

end Compilation

end QuadraticPenalty
