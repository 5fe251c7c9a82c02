import QuadraticPenalty.Proofs.Penalty.ExactEnergies
import QuadraticPenalty.Proofs.Problem.Substitution

/-! Constraints on at most two variables may be compiled before or after a variable is substituted: what is
left of each of them misses as many factors as the constraint does with the value put in. -/

namespace QuadraticPenalty

open Scalar QuadraticModel Extended

namespace Constraint

variable {c d : Constraint} {a b : Assignment} {v : String} {x : ℤ} {group : List String}

lemma misses_congr (h : ∀ u ∈ group, a u = b u) : c.misses a group = c.misses b group := by
  have htuple : (c.onto group).tupleIn a = (c.onto group).tupleIn b :=
    List.map_congr_left fun u hu => by rw [h u hu]
  rw [misses, misses, htuple]

lemma factors_eq_of_arity (hs : c.scope.length = 1) : c.factors = [c.scope] := by
  simp [factors, arity, hs, factorsWithin, splitOf]

lemma length_add_length_le_flatten {gs : List (List String)} (h : ∀ g ∈ gs, g ≠ []) (hg : group ∈ gs) :
    gs.length + group.length ≤ gs.flatten.length + 1 := by
  have hperm := List.perm_cons_erase hg
  have hlength := hperm.length_eq
  have hflatten := hperm.flatten.length_eq
  have hrest : (gs.erase group).length ≤ (gs.erase group).flatten.length := by
    rw [List.length_flatten, ← List.length_map List.length]
    refine List.length_le_sum_of_one_le _ fun n hn => ?_
    obtain ⟨k, hk, rfl⟩ := List.mem_map.mp hn
    exact List.length_pos_iff.mpr (h k (List.mem_of_mem_erase hk))
  simp only [List.length_cons, List.flatten_cons, List.length_append] at hlength hflatten
  omega

lemma countP_misses_le_one (htwo : c.arity ≤ 2) (hv : v ∈ c.scope) (hmet : c.misses a [v] = false) :
    c.factors.countP (c.misses a) ≤ 1 := by
  have hle := c.factors.countP_le_length (p := c.misses a)
  have hlength := c.factors_perm.length_eq
  rw [arity] at htwo
  obtain ⟨g, hg, hvg⟩ := List.mem_flatten.mp (c.factors_perm.mem_iff.mpr hv)
  have hsize := length_add_length_le_flatten
    (factorsWithin_ne_nil c.arity c.configurations (List.ne_nil_of_mem hv)) hg
  change c.factors.length + _ ≤ c.factors.flatten.length + 1 at hsize
  by_cases hone : g.length = 1
  · obtain ⟨u, rfl⟩ := List.length_eq_one_iff.mp hone
    obtain rfl := List.mem_singleton.mp hvg
    have hlt : c.factors.countP (c.misses a) < c.factors.length :=
      List.countP_lt_length_iff.mpr ⟨[v], hg, hmet⟩
    omega
  · have hpos := List.length_pos_of_mem hvg
    omega

lemma countP_misses_of_met (hc : c.WellFormed) (htwo : c.arity ≤ 2) (hv : v ∈ c.scope)
    (ha : a.Covers c.vartype c.scope) (hmet : c.misses a [v] = false) :
    c.factors.countP (c.misses a) = if c.accepts (c.tupleIn a) = true then 0 else 1 := by
  have hle := countP_misses_le_one htwo hv hmet
  have hzero := countP_misses_eq_zero_iff hc ha
  split
  · next hacc => exact hzero.mpr hacc
  · next hnot =>
    have hne := mt hzero.mp hnot
    omega

lemma misses_of_fix (h : c.fix v x = .ok d) (ha : a v = some x) : c.misses a [v] = false := by
  obtain ⟨p, hp, -, -, hne, hd⟩ := fix_eq_ok h
  have hv : v ∈ c.scope := List.mem_of_getElem? (position_getElem? hp)
  obtain rfl : c.scope.idxOf v = p := Option.some.inj ((position_eq hv).symm.trans hp)
  obtain ⟨y, hy⟩ := List.exists_mem_of_ne_nil _ hne
  obtain ⟨z, hz, hzx, -⟩ := (hd y).mp hy
  rw [List.getD_eq_getElem?_getD] at hzx
  have hmem : (c.onto [v]).tupleIn a ∈ (c.onto [v]).configurations :=
    SortedSet.mem_map.mpr ⟨z, hz, by simp [restriction, pick, tupleIn, onto, ha, hzx]⟩
  simp [misses, accepts, hmem]

def missed (c : Constraint) (a : Assignment) : ℕ :=
  if c.scope = [] then 0 else c.factors.countP (c.misses a)

lemma missed_of_arity_le_one (hc : c.WellFormed) (hone : c.arity ≤ 1) (hne : c.configurations.toList ≠ [])
    (ha : a.Covers c.vartype c.scope) :
    c.missed a = if c.accepts (c.tupleIn a) = true then 0 else 1 := by
  rw [missed]
  split
  · next hs =>
    obtain ⟨y, hy⟩ := List.exists_mem_of_ne_nil _ hne
    have hlength := (hc.isTuple (SortedSet.mem_def.mpr hy)).1
    have hacc : c.accepts (c.tupleIn a) = true := by
      rw [hs, List.length_nil, List.length_eq_zero_iff] at hlength
      have hnil : c.tupleIn a = [] := by simp [tupleIn, hs]
      rw [accepts_iff, hnil, ← hlength]
      exact hy
    rw [if_pos hacc]
  · next hs =>
    have hlength : c.scope.length = 1 := by
      have := List.length_pos_iff.mpr hs
      rw [arity] at hone
      omega
    exact countP_misses_singleton hc ha (factors_eq_of_arity hlength)

lemma missed_fix (hc : c.WellFormed) (htwo : c.arity ≤ 2) (hx : x ∈ c.vartype.values)
    (h : c.fix v x = .ok d) (ha : a.Covers c.vartype d.scope) : d.missed a = c.missed (a.set v x) := by
  obtain ⟨p, hp, ht, hs, hne, -⟩ := fix_eq_ok h
  have hv : v ∈ c.scope := List.mem_of_getElem? (position_getElem? hp)
  have hput : (a.set v x) v = some x := by simp [Assignment.set]
  have hcovers : (a.set v x).Covers c.vartype c.scope := fun u hu => by
    by_cases huv : u = v
    · exact ⟨x, hx, huv ▸ hput⟩
    · obtain ⟨y, hy, hau⟩ := ha u ((mem_scope_of_fix hc h).mpr ⟨huv, hu⟩)
      exact ⟨y, hy, by rw [Assignment.set, if_neg huv, hau]⟩
  have hsame : d.accepts (d.tupleIn a) = c.accepts (c.tupleIn (a.set v x)) := by
    have hholds := holds_fix hc h a
    rw [holds_eq ha, holds_eq hcovers] at hholds
    exact Except.ok.inj hholds
  have hone : d.arity ≤ 1 := by
    have hlt := (List.getElem?_eq_some_iff.mp (position_getElem? hp)).1
    rw [arity, hs, List.length_eraseIdx_of_lt hlt]
    rw [arity] at htwo
    omega
  rw [missed_of_arity_le_one (hc.fix h) hone hne (ht ▸ ha), missed, if_neg (List.ne_nil_of_mem hv),
    countP_misses_of_met hc htwo hv hcovers (misses_of_fix h hput), hsame]

end Constraint

namespace Problem

variable {p q : Problem} {v : String} {x : ℤ} {a : Assignment}

lemma mem_values_of_fix (h : p.fix v x = .ok q) : x ∈ p.vartype.values := by
  unfold Problem.fix at h
  split at h
  · cases h
  · split at h
    · cases h
    · next hx => simpa using hx

lemma Coherent.covers_set (hp : p.Coherent) (h : p.fix v x = .ok q) (ha : a.Covers q.vartype q.labels) :
    (a.set v x).Covers p.vartype p.labels := by
  obtain ⟨ht, hindex, -⟩ := hp.fix_eq_ok h
  intro u hu
  by_cases huv : u = v
  · exact ⟨x, mem_values_of_fix h, by rw [Assignment.set, if_pos huv]⟩
  · have hu : u ∈ q.labels := by
      rw [labels, hindex, SortedMap.mem_keys_erase]
      exact ⟨huv, hu⟩
    obtain ⟨y, hy, hau⟩ := ha u hu
    exact ⟨y, ht ▸ hy, by rw [Assignment.set, if_neg huv, hau]⟩

lemma missedFactors_eq_sum (cs : List Constraint) (a : Assignment) :
    missedFactors cs a = (cs.map fun c => c.missed a).sum := by
  induction cs with
  | nil => rfl
  | cons c cs ih =>
    rw [List.map_cons, List.sum_cons, ← ih, Constraint.missed]
    by_cases hs : c.scope = [] <;> simp [missedFactors, hs]

lemma Fixes.missed_eq {c d : Constraint} (hc : c.WellFormed) (htwo : c.arity ≤ 2)
    (hx : c.scope ≠ [] → x ∈ c.vartype.values) (hf : Fixes v x c d) (ha : a.Covers c.vartype d.scope) :
    d.missed a = c.missed (a.set v x) := by
  obtain ⟨hv, rfl⟩ | ⟨hv, hfix⟩ := hf
  · have hmisses : ∀ g ∈ d.factors, d.misses a g = d.misses (a.set v x) g := fun g hg =>
      Constraint.misses_congr fun u hu => by
        have huv : u ≠ v := fun he => hv (he ▸ Constraint.mem_scope_of_mem_factors hg hu)
        rw [Assignment.set, if_neg huv]
    rw [Constraint.missed, Constraint.missed, List.countP_congr fun g hg => by rw [hmisses g hg]]
  · exact Constraint.missed_fix hc htwo (hx (List.ne_nil_of_mem hv)) hfix ha

lemma Coherent.missedFactors_fix (hp : p.Coherent) (htwo : ∀ c ∈ p.constraints, c.arity ≤ 2)
    (h : p.fix v x = .ok q) (ha : a.Covers q.vartype q.labels) :
    missedFactors q.constraints a = missedFactors p.constraints (a.set v x) := by
  have hmissed : q.constraints.map (fun d => d.missed a) =
      p.constraints.map fun c => c.missed (a.set v x) := by
    refine List.ext_getElem? fun i => ?_
    obtain ⟨hnone, hqnone⟩ | ⟨c, d, hc, hd, hf⟩ := (hp.fix_eq_ok h).2.2 i
    · rw [List.getElem?_map, List.getElem?_map, hnone, hqnone]
      rfl
    · have hmem := List.mem_of_getElem? hc
      have hw := hp.wellFormed c hmem
      have ht := hp.vartype c hmem
      have hcovers : a.Covers c.vartype d.scope := fun u hu => by
        rw [ht (List.ne_nil_of_mem ((hf.mem_scope hw).mp hu).2), ← (hp.fix_eq_ok h).1]
        exact (hp.fix h).covers ha (List.mem_of_getElem? hd) u hu
      rw [List.getElem?_map, List.getElem?_map, hc, hd, Option.map_some, Option.map_some,
        hf.missed_eq hw (htwo c hmem) (fun hs => ht hs ▸ mem_values_of_fix h) hcovers]
  rw [missedFactors_eq_sum, missedFactors_eq_sum, hmissed]

lemma Coherent.arity_fix (hp : p.Coherent) {n : ℕ} (hn : ∀ c ∈ p.constraints, c.arity ≤ n)
    (h : p.fix v x = .ok q) : ∀ d ∈ q.constraints, d.arity ≤ n := by
  intro d hd
  obtain ⟨c, hc, ⟨-, rfl⟩ | ⟨-, hfix⟩⟩ := hp.exists_fixes_right h hd
  · exact hn d hc
  · obtain ⟨j, -, -, hs, -⟩ := Constraint.fix_eq_ok hfix
    rw [Constraint.arity, hs]
    exact (List.length_eraseIdx_le _ _).trans (hn c hc)

end Problem

namespace Compilation

variable {σ : Type} {s : Settings Extended} {p : Problem} {g : ℚ}

lemma addPenalties_counts (ask : Oracle Extended σ) (o : σ) (hp : p.Coherent) (hg : s.gap = finite g)
    (hle : g ≤ 2 + tolerance) (htwo : ∀ c ∈ p.constraints, c.arity ≤ 2) (hmax : 2 ≤ s.maxNodes) :
    ∃ (k : QuadraticModel ℚ) (r : Progress Extended σ),
      addPenalties ask s p p.constraints (variablesModel p) ⟨0, [], o, []⟩ = (.ok k.exact, r) ∧
        Counts p o p.constraints r k := by
  have hadd := addPenalties_eq_ok ask s p p.constraints
    (motive := fun done m r => ∃ k : QuadraticModel ℚ, m = k.exact ∧ Counts p o done r k) ?_ ?_
    ⟨variablesModel p, (exact_variablesModel p).symm, counts_variablesModel p o⟩
  · obtain ⟨_, r, hrun, k, rfl, hk⟩ := hadd
    exact ⟨k, r, hrun, hk⟩
  · rintro done c _ r _ hempty ⟨k, rfl, hk⟩
    exact ⟨k, rfl, hk.skip hempty⟩
  · rintro done c _ r hc hne ⟨k, rfl, hk⟩
    have ht := hp.vartype c hc hne
    obtain ⟨es, part, hpenalty, hes, hframes, hhalf, hvalue⟩ := penalty_eq_closedForm ask p r
      hg hle (hp.wellFormed c hc) hne (htwo c hc) ((htwo c hc).trans hmax)
    obtain ⟨n, hn⟩ := merge_isOk (hframes.vartype.trans (ht.trans hk.vartype.symm))
    have hadded := hk.add (hp.labelled c hc) ht hne hes hframes hhalf hvalue hn
    exact ⟨_, _, _, hpenalty, exact_merge hn, n, rfl, hadded⟩

/-- A problem with constraints on at most two variables has, after a substitution, the energies that it had
before with the value put in. -/
theorem run_fix (ask : Oracle Extended σ) (s : Settings Extended) (p q : Problem) (o : σ) (g : ℚ)
    (v : String) (x : ℤ) (hp : p.Reachable) (hs : s.flaw = none) (hg : s.gap = finite g)
    (hle : g ≤ 2 + tolerance) (hmax : 2 ≤ s.maxNodes) (htwo : ∀ c ∈ p.constraints, c.arity ≤ 2)
    (hfix : p.fix v x = .ok q) :
    q.vartype = p.vartype ∧ (∀ u, u ∈ q.labels ↔ u ≠ v ∧ u ∈ p.labels) ∧
    ∃ m n : QuadraticModel Extended, (run ask s p o).result = .ok m ∧ (run ask s q o).result = .ok n ∧
      ∀ a : Assignment, a.Covers q.vartype q.labels →
        ∃ e : ℚ, n.energy a = .ok (finite e) ∧ m.energy (a.set v x) = .ok (finite e) := by
  have hcoherent := hp.coherent
  obtain ⟨ht, hindex, -⟩ := hcoherent.fix_eq_ok hfix
  obtain ⟨k, r, hadd, hk⟩ := addPenalties_counts ask o hcoherent hg hle htwo hmax
  obtain ⟨l, t, haddfix, hl⟩ := addPenalties_counts ask o (hcoherent.fix hfix) hg hle
    (hcoherent.arity_fix htwo hfix) hmax
  refine ⟨ht, fun u => ?_, k.exact, l.exact, ?_, ?_, fun a ha => ⟨_, hl.energy ha, ?_⟩⟩
  · rw [Problem.labels, hindex, SortedMap.mem_keys_erase]
    rfl
  · rw [run_of_addPenalties hs hadd]
  · rw [run_of_addPenalties hs haddfix]
  · rw [hk.energy (hcoherent.covers_set hfix ha), hcoherent.missedFactors_fix htwo hfix ha]

theorem run_fix_of_chain : ∃ q m n, Problem.chain.fix "b" 1 = .ok q ∧
    (run Oracle.none .default Problem.chain ()).result = .ok m ∧
    (run Oracle.none .default q ()).result = .ok n ∧
    ∃ e : ℚ, n.energy (.ofLists ["a", "c"] [-1, 1]) = .ok (finite e) ∧
      m.energy ((Assignment.ofLists ["a", "c"] [-1, 1]).set "b" 1) = .ok (finite e) := by
  obtain ⟨q, hq⟩ : ∃ q, Problem.chain.fix "b" 1 = .ok q := by
    apply Exists.intro
    cbv
  have harity : ∀ c ∈ Problem.chain.constraints, c.arity ≤ 2 := by decide
  have htolerance : (2 : ℚ) ≤ 2 + tolerance := by
    have ht : (tolerance : ℚ) = 1 / 1000000000 := rfl
    norm_num [ht]
  obtain ⟨ht, hl, m, n, hm, hn, h⟩ := run_fix Oracle.none .default Problem.chain q () 2 "b" 1
    Problem.chain_reachable (by decide) rfl htolerance (by decide) harity hq
  have hlabels : Problem.chain.labels = ["a", "b", "c"] := by cbv
  refine ⟨q, m, n, hq, hm, hn, h _ fun u hu => ?_⟩
  rw [hl, hlabels] at hu
  simp only [List.mem_cons, List.not_mem_nil, or_false] at hu
  rw [ht]
  obtain ⟨hne, rfl | rfl | rfl⟩ := hu
  · exact ⟨-1, by decide, by decide⟩
  · exact absurd rfl hne
  · exact ⟨1, by decide, by decide⟩

end Compilation

end QuadraticPenalty
