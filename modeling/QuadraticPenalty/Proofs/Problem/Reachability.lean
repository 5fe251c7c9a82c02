import QuadraticPenalty.Proofs.Problem.Coherence

namespace QuadraticPenalty.Problem

variable {p q : Problem} {c : Constraint} {v : String}

lemma Coherent.ext (hp : p.Coherent) (hq : q.Coherent) (ht : p.vartype = q.vartype)
    (hcs : p.constraints = q.constraints) (hl : ∀ v, v ∈ p.labels ↔ v ∈ q.labels) : p = q := by
  have hindex : p.index = q.index := by
    apply SortedMap.ext_find?
    intro v
    by_cases hv : v ∈ p.labels
    · obtain ⟨is, his⟩ := SortedMap.mem_keys_iff.mp hv
      obtain ⟨js, hjs⟩ := SortedMap.mem_keys_iff.mp ((hl v).mp hv)
      have hi := hp.increasing v is his
      have hj := hq.increasing v js hjs
      -- both list the positions of the constraints that mention the label, in order
      have hperm : is.Perm js := by
        refine (List.perm_ext_iff_of_nodup (hi.imp ne_of_lt) (hj.imp ne_of_lt)).mpr fun i => ?_
        rw [hp.indexed v is his, hq.indexed v js hjs, hcs]
      rw [his, hjs, hperm.eq_of_pairwise (fun i j _ _ hij hji => absurd hij hji.asymm) hi hj]
    · rw [SortedMap.find?_eq_none hv, SortedMap.find?_eq_none (mt (hl v).mpr hv)]
  cases p
  cases q
  cases ht
  cases hcs
  cases hindex
  rfl

lemma mem_labels_addConstraint : v ∈ (p.addConstraint c).labels ↔ v ∈ c.scope ∨ v ∈ p.labels := by
  have h : ∀ (vs : List String) (m : SortedMap String (List ℕ)),
      v ∈ (vs.foldl (fun m v => m.update v fun old => old.getD [] ++ [p.constraints.length]) m).keys ↔
        v ∈ vs ∨ v ∈ m.keys := by
    intro vs
    induction vs with
    | nil => simp
    | cons u vs ih =>
      intro m
      rw [List.foldl_cons, ih, SortedMap.mem_keys_update, List.mem_cons]
      tauto
  exact h c.scope p.index

lemma mem_labels_addVariable {u : String} : v ∈ (p.addVariable u).labels ↔ v = u ∨ v ∈ p.labels :=
  SortedMap.mem_keys_update

lemma add_eq_ok (ht : c.scope ≠ [] → c.vartype = p.vartype) :
    p.add (.constraint c) = .ok (p.addConstraint c) := by
  have hbuild : (Source.constraint c).build p.vartype = .ok c := by
    refine if_neg fun h => ?_
    simp only [Bool.and_eq_true, Bool.not_eq_true', List.isEmpty_eq_false_iff, decide_eq_true_eq] at h
    exact h.2 (ht h.1)
  rw [Problem.add, hbuild]
  rfl

lemma Reachable.addConstraint (hp : p.Reachable) (hc : c.WellFormed)
    (ht : c.scope ≠ [] → c.vartype = p.vartype) : (p.addConstraint c).Reachable :=
  .add hp (s := .constraint c) hc (add_eq_ok ht)

def addConstraints (p : Problem) (cs : List Constraint) : Problem := cs.foldl addConstraint p

lemma foldlM_add {cs : List Constraint} (h : ∀ c ∈ cs, c.scope ≠ [] → c.vartype = p.vartype) :
    cs.foldlM (fun p c => p.add (.constraint c)) p = .ok (p.addConstraints cs) := by
  induction cs generalizing p with
  | nil => rfl
  | cons c cs ih =>
    rw [List.foldlM_cons, add_eq_ok (h c (by simp))]
    exact ih (p := p.addConstraint c) fun d hd => h d (by simp [hd])

lemma Reachable.addConstraints (hp : p.Reachable) {cs : List Constraint}
    (h : ∀ c ∈ cs, c.WellFormed ∧ (c.scope ≠ [] → c.vartype = p.vartype)) :
    (p.addConstraints cs).Reachable ∧ (p.addConstraints cs).vartype = p.vartype ∧
      (p.addConstraints cs).constraints = p.constraints ++ cs ∧
      ∀ v, v ∈ (p.addConstraints cs).labels ↔ v ∈ p.labels ∨ ∃ c ∈ cs, v ∈ c.scope := by
  induction cs generalizing p with
  | nil => exact ⟨hp, rfl, (List.append_nil _).symm, by simp [Problem.addConstraints]⟩
  | cons c cs ih =>
    obtain ⟨hc, hct⟩ := h c (by simp)
    obtain ⟨hq, hqt, hqc, hql⟩ := ih (hp.addConstraint hc hct) fun d hd => h d (by simp [hd])
    refine ⟨hq, hqt, hqc.trans (List.append_assoc ..), fun v => ?_⟩
    rw [Problem.addConstraints, List.foldl_cons]
    refine (hql v).trans ?_
    rw [mem_labels_addConstraint, List.exists_mem_cons_iff]
    tauto

lemma exists_reachable (t : Vartype) (cs : List Constraint)
    (h : ∀ c ∈ cs, c.WellFormed ∧ (c.scope ≠ [] → c.vartype = t)) :
    ∃ q : Problem, q.Reachable ∧ q.vartype = t ∧ q.constraints = cs ∧
      ∀ v ∈ q.labels, ∃ c ∈ cs, v ∈ c.scope := by
  obtain ⟨hq, hqt, hqc, hql⟩ := (Reachable.empty t).addConstraints h
  exact ⟨_, hq, hqt, hqc, fun v hv => ((hql v).mp hv).resolve_left (by simp [labels, empty])⟩

lemma Reachable.addVariables (hq : q.Reachable) (vs : List String) :
    (q.addVariables vs).Reachable ∧ (q.addVariables vs).vartype = q.vartype ∧
      (q.addVariables vs).constraints = q.constraints ∧
      ∀ v, v ∈ (q.addVariables vs).labels ↔ v ∈ vs ∨ v ∈ q.labels := by
  have hfold : ∀ us : List String, (us.foldr (fun v p => p.addVariable v) q).Reachable ∧
      (us.foldr (fun v p => p.addVariable v) q).vartype = q.vartype ∧
      (us.foldr (fun v p => p.addVariable v) q).constraints = q.constraints ∧
      ∀ v, v ∈ (us.foldr (fun v p => p.addVariable v) q).labels ↔ v ∈ us ∨ v ∈ q.labels := by
    intro us
    induction us with
    | nil => exact ⟨hq, rfl, rfl, by simp⟩
    | cons u us ih =>
      obtain ⟨hr, hrt, hrc, hrl⟩ := ih
      refine ⟨hr.addVariable u, hrt, hrc, fun v => ?_⟩
      rw [List.foldr_cons, mem_labels_addVariable, hrl, List.mem_cons, or_assoc]
  obtain ⟨hr, hrt, hrc, hrl⟩ := hfold (SortedSet.ofList vs).toList
  refine ⟨hr, hrt, hrc, fun v => (hrl v).trans ?_⟩
  rw [← SortedSet.mem_def, SortedSet.mem_ofList]

lemma Coherent.exists_reordered (hp : p.Coherent) {cs : List Constraint}
    (hcs : cs.Perm p.constraints) : ∃ q : Problem, q.Reachable ∧ q.vartype = p.vartype ∧
      q.constraints = cs ∧ q.labels = p.labels := by
  obtain ⟨q, hq, hqt, hqc, hql⟩ := exists_reachable p.vartype cs fun c hc =>
    ⟨hp.wellFormed c (hcs.subset hc), hp.vartype c (hcs.subset hc)⟩
  obtain ⟨hr, hrt, hrc, hrl⟩ := hq.addVariables p.labels
  refine ⟨q.addVariables p.labels, hr, hrt.trans hqt, hrc.trans hqc, SortedMap.keys_congr fun v => ?_⟩
  refine (hrl v).trans ⟨fun hv => hv.elim id fun hv => ?_, .inl⟩
  obtain ⟨c, hc, hvc⟩ := hql v hv
  exact hp.labelled c (hcs.subset hc) v hvc

theorem reachable_iff_coherent : p.Reachable ↔ p.Coherent := by
  refine ⟨Reachable.coherent, fun hp => ?_⟩
  obtain ⟨q, hq, hqt, hqc, hql⟩ := hp.exists_reordered (.refl p.constraints)
  have hsame : p = q := hp.ext hq.coherent hqt.symm hqc.symm fun v => by rw [hql]
  exact hsame ▸ hq

end QuadraticPenalty.Problem
