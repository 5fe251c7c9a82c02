import QuadraticPenalty.Problem.Basic
import QuadraticPenalty.Proofs.Constraint.WellFormed

namespace QuadraticPenalty

def Source.WellFormed : Source → Prop
  | constraint c => c.WellFormed
  | _ => True

lemma Source.build_wellFormed {s : Source} {t : Vartype} {c : Constraint} (hs : s.WellFormed)
    (h : s.build t = .ok c) : c.WellFormed ∧ (c.scope ≠ [] → c.vartype = t) := by
  cases s with
  | predicate p scope =>
    obtain ⟨hc, ht⟩ := Constraint.ofPredicate_wellFormed h
    exact ⟨hc, fun _ => ht⟩
  | configurations cs scope =>
    obtain ⟨hc, ht⟩ := Constraint.ofConfigurations_wellFormed h
    exact ⟨hc, fun _ => ht⟩
  | constraint c =>
    simp only [build] at h
    split at h
    · cases h
    · next hne =>
      cases h
      refine ⟨hs, fun hscope => ?_⟩
      simpa [hscope] using hne

namespace Problem

inductive Reachable : Problem → Prop
  | empty (t : Vartype) : Reachable (empty t)
  | add {p q : Problem} {s : Source} : Reachable p → s.WellFormed → p.add s = .ok q → Reachable q
  | addVariable {p : Problem} (v : String) : Reachable p → Reachable (p.addVariable v)
  | fix {p q : Problem} {v : String} {x : ℤ} : Reachable p → p.fix v x = .ok q → Reachable q

def Mentions (cs : List Constraint) (v : String) (i : ℕ) : Prop :=
  ∃ c, cs[i]? = some c ∧ v ∈ c.scope

structure Coherent (p : Problem) : Prop where
  wellFormed : ∀ c ∈ p.constraints, c.WellFormed
  vartype : ∀ c ∈ p.constraints, c.scope ≠ [] → c.vartype = p.vartype
  labelled : ∀ c ∈ p.constraints, ∀ v ∈ c.scope, v ∈ p.labels
  increasing : ∀ v is, p.index.find? v = some is → is.Pairwise (· < ·)
  indexed : ∀ v is, p.index.find? v = some is → ∀ i, i ∈ is ↔ Mentions p.constraints v i

variable {p q : Problem} {c : Constraint} {u v : String} {x : ℤ}

lemma coherent_empty (t : Vartype) : (empty t).Coherent := by
  constructor <;> simp [empty, SortedMap.find?_empty]

lemma find?_enter (vs : List String) (hn : vs.Nodup) (n : ℕ) (m : SortedMap String (List ℕ))
    (u : String) :
    (vs.foldl (fun m v => m.update v fun old => old.getD [] ++ [n]) m).find? u =
      if u ∈ vs then some ((m.find? u).getD [] ++ [n]) else m.find? u := by
  induction vs generalizing m with
  | nil => simp
  | cons v vs ih =>
    obtain ⟨hv, hn⟩ := List.nodup_cons.mp hn
    rw [List.foldl_cons, ih hn]
    by_cases huv : u = v
    · subst huv
      simp [hv]
    · simp [huv, SortedMap.find?_update_ne m _ huv]

lemma mentions_append {cs : List Constraint} {i : ℕ} :
    Mentions (cs ++ [c]) v i ↔ Mentions cs v i ∨ i = cs.length ∧ v ∈ c.scope := by
  unfold Mentions
  rcases lt_trichotomy i cs.length with h | rfl | h
  · simp [List.getElem?_append_left h, h.ne]
  · simp
  · have hnone : (cs ++ [c])[i]? = none := List.getElem?_eq_none (by simpa using h)
    simp [hnone, List.getElem?_eq_none h.le, h.ne']

lemma Mentions.lt {cs : List Constraint} {i : ℕ} (h : Mentions cs v i) : i < cs.length := by
  obtain ⟨c, hc, -⟩ := h
  exact (List.getElem?_eq_some_iff.mp hc).1

lemma Coherent.not_mentions (h : p.Coherent) (hv : p.index.find? v = none) (i : ℕ) :
    ¬ Mentions p.constraints v i := by
  rintro ⟨c, hc, hm⟩
  obtain ⟨is, his⟩ := SortedMap.mem_keys_iff.mp (h.labelled c (List.mem_of_getElem? hc) v hm)
  rw [hv] at his
  cases his

lemma Coherent.addConstraint (h : p.Coherent) (hc : c.WellFormed)
    (ht : c.scope ≠ [] → c.vartype = p.vartype) : (p.addConstraint c).Coherent := by
  have hfind : ∀ u, (p.addConstraint c).index.find? u =
      if u ∈ c.scope then some ((p.index.find? u).getD [] ++ [p.constraints.length])
      else p.index.find? u := find?_enter c.scope hc.1 p.constraints.length p.index
  have hpositions : ∀ u, ((p.index.find? u).getD []).Pairwise (· < ·) ∧
      ∀ i, i ∈ (p.index.find? u).getD [] ↔ Mentions p.constraints u i := by
    intro u
    cases hu : p.index.find? u with
    | none => exact ⟨.nil, fun i => by simp [h.not_mentions hu i]⟩
    | some is => exact ⟨h.increasing u is hu, h.indexed u is hu⟩
  constructor
  · intro d hd
    rcases List.mem_append.mp hd with hd | hd
    exacts [h.wellFormed d hd, List.mem_singleton.mp hd ▸ hc]
  · intro d hd
    rcases List.mem_append.mp hd with hd | hd
    exacts [h.vartype d hd, List.mem_singleton.mp hd ▸ ht]
  · intro d hd u hu
    rw [labels, SortedMap.mem_keys_iff, hfind]
    rcases List.mem_append.mp hd with hd | hd
    · obtain ⟨is, his⟩ := SortedMap.mem_keys_iff.mp (h.labelled d hd u hu)
      rw [his]
      split <;> simp
    · obtain rfl := List.mem_singleton.mp hd
      simp [hu]
  · intro u is his
    rw [hfind] at his
    split at his
    · cases his
      refine List.pairwise_append.mpr ⟨(hpositions u).1, by simp, fun i hi j hj => ?_⟩
      rw [List.mem_singleton.mp hj]
      exact (((hpositions u).2 i).mp hi).lt
    · exact h.increasing u is his
  · intro u is his i
    change i ∈ is ↔ Mentions (p.constraints ++ [c]) u i
    rw [hfind] at his
    rw [mentions_append]
    split at his
    · next hu =>
      cases his
      simp [(hpositions u).2 i, hu]
    · next hu =>
      simp [h.indexed u is his i, hu]

lemma Coherent.addVariable (h : p.Coherent) (v : String) : (p.addVariable v).Coherent := by
  have hfind : ∀ u is, (p.addVariable v).index.find? u = some is →
      p.index.find? u = some is ∨ p.index.find? u = none ∧ is = [] := by
    intro u is his
    by_cases huv : u = v
    · subst huv
      have his : some ((p.index.find? u).getD []) = some is :=
        (SortedMap.find?_update_self p.index u (·.getD [])).symm.trans his
      cases hu : p.index.find? u <;> simp_all
    · exact .inl ((SortedMap.find?_update_ne p.index _ huv).symm.trans his)
  refine ⟨h.wellFormed, h.vartype, fun d hd u hu => ?_, fun u is his => ?_, fun u is his i => ?_⟩
  · exact SortedMap.mem_keys_update.mpr (.inr (h.labelled d hd u hu))
  · rcases hfind u is his with his | ⟨-, rfl⟩
    exacts [h.increasing u is his, .nil]
  · change i ∈ is ↔ Mentions p.constraints u i
    rcases hfind u is his with his | ⟨hnone, rfl⟩
    · exact h.indexed u is his i
    · simp [h.not_mentions hnone i]

lemma fixAt_eq_ok {is : List ℕ} (hn : is.Nodup) {cs ds : List Constraint}
    (h : is.foldlM (fixAt v x) cs = .ok ds) (i : ℕ) :
    (i ∉ is → ds[i]? = cs[i]?) ∧ (i ∈ is → cs[i]? = none ∧ ds[i]? = none ∨
      ∃ c d : Constraint, cs[i]? = some c ∧ ds[i]? = some d ∧ c.fix v x = .ok d) := by
  induction is generalizing cs with
  | nil =>
    cases h
    simp
  | cons j is ih =>
    obtain ⟨hj, hn⟩ := List.nodup_cons.mp hn
    rw [List.foldlM_cons] at h
    obtain ⟨es, hes, h⟩ := exists_of_bind_ok h
    obtain ⟨hout, hin⟩ := ih hn h
    have hstep : (i ≠ j → es[i]? = cs[i]?) ∧ (i = j → cs[i]? = none ∧ es[i]? = none ∨
        ∃ c d : Constraint, cs[i]? = some c ∧ es[i]? = some d ∧ c.fix v x = .ok d) := by
      unfold fixAt at hes
      split at hes
      · next c hc =>
        obtain ⟨d, hd, hes⟩ := exists_of_bind_ok hes
        cases hes
        refine ⟨fun hi => List.getElem?_set_ne hi.symm, ?_⟩
        rintro rfl
        exact .inr ⟨c, d, hc, List.getElem?_set_self (List.getElem?_eq_some_iff.mp hc).1, hd⟩
      · next hc =>
        cases hes
        refine ⟨fun _ => rfl, ?_⟩
        rintro rfl
        exact .inl ⟨hc, hc⟩
    refine ⟨fun hi => ?_, fun hi => ?_⟩
    · rw [List.mem_cons, not_or] at hi
      rw [hout hi.2, hstep.1 hi.1]
    · by_cases hij : i = j
      · rw [hout (hij ▸ hj)]
        exact hstep.2 hij
      · rw [← hstep.1 hij]
        exact hin ((List.mem_cons.mp hi).resolve_left hij)

def Fixes (v : String) (x : ℤ) (c d : Constraint) : Prop :=
  v ∉ c.scope ∧ d = c ∨ v ∈ c.scope ∧ c.fix v x = .ok d

lemma Coherent.fix_eq_ok (hp : p.Coherent) (h : p.fix v x = .ok q) :
    q.vartype = p.vartype ∧ q.index = p.index.erase v ∧
      ∀ i : ℕ, p.constraints[i]? = none ∧ q.constraints[i]? = none ∨
        ∃ c d, p.constraints[i]? = some c ∧ q.constraints[i]? = some d ∧ Fixes v x c d := by
  unfold Problem.fix at h
  split at h
  · cases h
  · next is his =>
    split at h
    · cases h
    · obtain ⟨cs, hcs, h⟩ := exists_of_bind_ok h
      cases h
      refine ⟨rfl, rfl, fun i => ?_⟩
      obtain ⟨hout, hin⟩ := fixAt_eq_ok ((hp.increasing v is his).imp ne_of_lt) hcs i
      have hmentions := hp.indexed v is his i
      by_cases hi : i ∈ is
      · obtain ⟨c, hc, hv⟩ := hmentions.mp hi
        rcases hin hi with ⟨hnone, -⟩ | ⟨c', d, hc', hd, hf⟩
        · cases hc.symm.trans hnone
        · obtain rfl : c = c' := Option.some.inj (hc.symm.trans hc')
          exact .inr ⟨c, d, hc, hd, .inr ⟨hv, hf⟩⟩
      · change p.constraints[i]? = none ∧ cs[i]? = none ∨
          ∃ c d, p.constraints[i]? = some c ∧ cs[i]? = some d ∧ Fixes v x c d
        rw [hout hi]
        cases hc : p.constraints[i]? with
        | none => exact .inl ⟨rfl, rfl⟩
        | some c =>
          have hv : v ∉ c.scope := fun hv => hi (hmentions.mpr ⟨c, hc, hv⟩)
          exact .inr ⟨c, c, rfl, rfl, .inl ⟨hv, rfl⟩⟩

lemma Fixes.mem_scope {d : Constraint} (hc : c.WellFormed) (h : Fixes v x c d) :
    u ∈ d.scope ↔ u ≠ v ∧ u ∈ c.scope := by
  rcases h with ⟨hv, rfl⟩ | ⟨-, h⟩
  · exact ⟨fun hu => ⟨fun he => hv (he ▸ hu), hu⟩, And.right⟩
  · exact Constraint.mem_scope_of_fix hc h

lemma Fixes.wellFormed {d : Constraint} (hc : c.WellFormed) (h : Fixes v x c d) :
    d.WellFormed ∧ d.vartype = c.vartype := by
  rcases h with ⟨-, rfl⟩ | ⟨-, h⟩
  · exact ⟨hc, rfl⟩
  · obtain ⟨p, -, ht, -⟩ := Constraint.fix_eq_ok h
    exact ⟨hc.fix h, ht⟩

lemma Coherent.forall₂_fixes (hp : p.Coherent) (h : p.fix v x = .ok q) :
    List.Forall₂ (Fixes v x) p.constraints q.constraints := by
  obtain ⟨-, -, hfixes⟩ := hp.fix_eq_ok h
  clear hp h
  generalize p.constraints = cs at hfixes
  generalize q.constraints = ds at hfixes
  induction cs generalizing ds with
  | nil =>
    cases ds with
    | nil => exact .nil
    | cons d ds => simpa using hfixes 0
  | cons c cs ih =>
    cases ds with
    | nil => simpa using hfixes 0
    | cons d ds => exact .cons (by simpa using hfixes 0) (ih ds fun i => hfixes (i + 1))

lemma Coherent.exists_fixes_left (hp : p.Coherent) (h : p.fix v x = .ok q) (hc : c ∈ p.constraints) :
    ∃ d ∈ q.constraints, Fixes v x c d := by
  obtain ⟨i, hi⟩ := List.mem_iff_getElem?.mp hc
  rcases (hp.fix_eq_ok h).2.2 i with ⟨hnone, -⟩ | ⟨c', d, hc', hd, hf⟩
  · cases hi.symm.trans hnone
  · obtain rfl : c = c' := Option.some.inj (hi.symm.trans hc')
    exact ⟨d, List.mem_of_getElem? hd, hf⟩

lemma Coherent.exists_fixes_right (hp : p.Coherent) (h : p.fix v x = .ok q) {d : Constraint}
    (hd : d ∈ q.constraints) : ∃ c ∈ p.constraints, Fixes v x c d := by
  obtain ⟨i, hi⟩ := List.mem_iff_getElem?.mp hd
  rcases (hp.fix_eq_ok h).2.2 i with ⟨-, hnone⟩ | ⟨c, d', hc, hd', hf⟩
  · cases hi.symm.trans hnone
  · obtain rfl : d = d' := Option.some.inj (hi.symm.trans hd')
    exact ⟨c, List.mem_of_getElem? hc, hf⟩

lemma Coherent.fix (hp : p.Coherent) (h : p.fix v x = .ok q) : q.Coherent := by
  obtain ⟨ht, hi, hc⟩ := hp.fix_eq_ok h
  have hfind : ∀ u is, q.index.find? u = some is → u ≠ v ∧ p.index.find? u = some is := by
    intro u is his
    rw [hi] at his
    by_cases huv : u = v
    · rw [huv, SortedMap.find?_erase_self] at his
      cases his
    · exact ⟨huv, SortedMap.find?_erase_ne p.index huv ▸ his⟩
  constructor
  · intro d hd
    obtain ⟨c, hc, hf⟩ := hp.exists_fixes_right h hd
    exact (hf.wellFormed (hp.wellFormed c hc)).1
  · intro d hd hs
    obtain ⟨c, hc, hf⟩ := hp.exists_fixes_right h hd
    obtain ⟨u, hu⟩ := List.exists_mem_of_ne_nil _ hs
    have hu := (hf.mem_scope (hp.wellFormed c hc)).mp hu
    rw [(hf.wellFormed (hp.wellFormed c hc)).2, ht,
      hp.vartype c hc (List.ne_nil_of_mem hu.2)]
  · intro d hd u hu
    obtain ⟨c, hc, hf⟩ := hp.exists_fixes_right h hd
    have hu := (hf.mem_scope (hp.wellFormed c hc)).mp hu
    rw [labels, hi, SortedMap.mem_keys_erase]
    exact ⟨hu.1, hp.labelled c hc u hu.2⟩
  · intro u is his
    exact hp.increasing u is (hfind u is his).2
  · intro u is his i
    obtain ⟨huv, his⟩ := hfind u is his
    rw [hp.indexed u is his i]
    rcases hc i with ⟨hpn, hqn⟩ | ⟨c, d, hpc, hqd, hf⟩
    · simp [Mentions, hpn, hqn]
    · have hw := hp.wellFormed c (List.mem_of_getElem? hpc)
      simp [Mentions, hpc, hqd, hf.mem_scope hw, huv]

lemma Reachable.coherent (h : p.Reachable) : p.Coherent := by
  induction h with
  | empty t => exact coherent_empty t
  | @add p q s _ hs h ih =>
    obtain ⟨c, hc, h⟩ := exists_of_bind_ok h
    cases h
    obtain ⟨hw, ht⟩ := Source.build_wellFormed hs hc
    exact ih.addConstraint hw ht
  | addVariable v _ ih => exact ih.addVariable v
  | fix _ h ih => exact ih.fix h

variable {a : Assignment}

lemma Coherent.covers (hp : p.Coherent) (ha : a.Covers p.vartype p.labels) (hc : c ∈ p.constraints) :
    a.Covers p.vartype c.scope := fun v hv => ha v (hp.labelled c hc v hv)

lemma holdAll_eq {t : Vartype} {cs : List Constraint} (h : ∀ c ∈ cs, a.Covers t c.scope) :
    holdAll a cs = .ok (cs.all fun c => c.accepts (c.tupleIn a)) := by
  induction cs with
  | nil => rfl
  | cons c cs ih =>
    have ih := ih fun d hd => h d (by simp [hd])
    rw [holdAll, Constraint.holds_eq (h c (by simp)), List.all_cons]
    cases c.accepts (c.tupleIn a)
    · rfl
    · exact ih

lemma Coherent.holds_iff (hp : p.Coherent) (ha : a.Covers p.vartype p.labels) :
    p.holds a = .ok true ↔ ∀ c ∈ p.constraints, c.accepts (c.tupleIn a) = true := by
  rw [holds, holdAll_eq fun c hc => hp.covers ha hc]
  simp

end Problem

end QuadraticPenalty
