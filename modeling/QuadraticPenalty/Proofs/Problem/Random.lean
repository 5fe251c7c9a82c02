import Mathlib.Data.Nat.Choose.Basic
import QuadraticPenalty.Proofs.Problem.Draws

namespace QuadraticPenalty.RandomProblem

open TwoInFour

variable {σ : Type} {d : Dice σ} {s : Settings} {planted : Option (Array Bool)} {solution : Array Bool}
  {picked : List ℕ} {pattern : List Bool} {k : Constraint} {cs : List Constraint} {p : Problem}

section Budget

def product (n : ℕ) : ℕ := n * (n - 1) * (n - 2) * (n - 3)

lemma choose_four (n : ℕ) : n.choose 4 = product n / 24 := by
  have hfactorial : Nat.factorial 4 = 24 := rfl
  have hproduct : n.descFactorial 4 = product n := by
    simp only [product, Nat.descFactorial_succ, Nat.descFactorial_zero, Nat.sub_zero]
    ring
  rw [Nat.choose_eq_descFactorial_div_factorial, hfactorial, hproduct]

lemma toNat_quadruples (n : ℕ) : (quadruples n).toNat = product n % 2 ^ 128 / 24 := by
  have hdivisor : (24 : BitVec 128).toNat = 24 := rfl
  simp only [quadruples, product, BitVec.toNat_udiv, BitVec.toNat_mul, BitVec.toNat_ofNat, hdivisor,
    Nat.mod_mul_mod, Nat.mul_mod_mod]

def Settings.bound (s : Settings) : ℕ := (if s.satisfiable then 3 else 8) * s.size.choose 4

lemma products_lt {n : ℕ} (hn : n ≤ 2 ^ 32 + 1) : ∀ m ∈ [n, n * (n - 1), n * (n - 1) * (n - 2),
    n * (n - 1) * (n - 2) * (n - 3)], m < 2 ^ 128 := by
  have htwo : n * (n - 1) ≤ (2 ^ 32 + 1) * 2 ^ 32 := Nat.mul_le_mul hn (by omega)
  have hthree : n * (n - 1) * (n - 2) ≤ (2 ^ 32 + 1) * 2 ^ 32 * (2 ^ 32 - 1) :=
    Nat.mul_le_mul htwo (by omega)
  have hfour : n * (n - 1) * (n - 2) * (n - 3) ≤ (2 ^ 32 + 1) * 2 ^ 32 * (2 ^ 32 - 1) * (2 ^ 32 - 2) :=
    Nat.mul_le_mul hthree (by omega)
  simp only [List.mem_cons, List.not_mem_nil, or_false, forall_eq_or_imp, forall_eq]
  exact ⟨by omega, by omega, by omega, by omega⟩

lemma available_eq (s : Settings) : s.available =
    (if s.satisfiable then 3 else 8) * (product s.size % 2 ^ 128 / 24) % 2 ^ 128 := by
  rw [Settings.available, BitVec.toNat_mul, toNat_quadruples]
  split <;> rfl

lemma available_le (s : Settings) : s.available ≤ s.bound := by
  rw [available_eq, Settings.bound, choose_four]
  exact (Nat.mod_le _ _).trans
    (Nat.mul_le_mul_left _ (Nat.div_le_div_right (Nat.mod_le _ _)))

lemma quadruples_eq {n : ℕ} (hn : n ≤ 2 ^ 32 + 1) : (quadruples n).toNat = n.choose 4 := by
  have hlt : product n < 2 ^ 128 := products_lt hn _ (by simp [product])
  rw [toNat_quadruples, Nat.mod_eq_of_lt hlt, choose_four]

lemma bound_lt (hn : s.size ≤ 2 ^ 32 + 1) : s.bound < 2 ^ 128 := by
  have hlt : product s.size < 2 ^ 128 := products_lt hn _ (by simp [product])
  have hdiv := Nat.mul_div_le (product s.size) 24
  rw [Settings.bound, choose_four]
  split <;> omega

lemma available_eq_bound (hn : s.size ≤ 2 ^ 32 + 1) : s.available = s.bound := by
  have hlt := bound_lt hn
  rw [Settings.bound, ← quadruples_eq hn] at hlt ⊢
  rw [Settings.available, BitVec.toNat_mul]
  refine (congrArg (· % 2 ^ 128) ?_).trans (Nat.mod_eq_of_lt hlt)
  split <;> rfl

end Budget

lemma flaw_eq_some_iff {fault : Fault} : s.flaw = some fault ↔
    s.size < 4 ∧ fault = .tooFewVariables s.size ∨ 4 ≤ s.size ∧ s.available < s.clauses ∧
      fault = .tooManyClauses s.clauses s.available s.size s.satisfiable := by
  rw [Settings.flaw]
  split
  · next h => simp [h, eq_comm, not_le.mpr h]
  · next h =>
    split
    · next hb => simp [h, hb, not_lt.mp h, eq_comm]
    · next hb => simp [h, hb]

lemma flaw_eq_none_iff : s.flaw = none ↔ 4 ≤ s.size ∧ s.clauses ≤ s.available := by
  simp only [Option.eq_none_iff_forall_ne_some, ne_eq, flaw_eq_some_iff]
  constructor
  · intro h
    by_contra hbad
    rcases lt_or_ge s.size 4 with hs | hs
    · exact h _ (.inl ⟨hs, rfl⟩)
    · exact h _ (.inr ⟨hs, not_le.mp fun hb => hbad ⟨hs, hb⟩, rfl⟩)
  · rintro ⟨hs, hb⟩ fault (⟨hlt, -⟩ | ⟨-, hlt, -⟩)
    · exact absurd hs (not_le.mpr hlt)
    · exact absurd hb (not_le.mpr hlt)

section Planted

def plantedValue (t : Vartype) (solution : Array Bool) (i : ℕ) : ℤ :=
  if solution.getD i false then t.high else t.low

lemma plantedValue_mem (t : Vartype) (solution : Array Bool) (i : ℕ) :
    plantedValue t solution i ∈ t.values := by
  rw [plantedValue, Vartype.mem_values]
  split <;> simp

lemma literals_negations (t : Vartype) (h : picked.length = pattern.length) :
    literals t (negations solution picked pattern) (picked.map (plantedValue t solution)) = pattern := by
  have hlow := t.low_ne_high
  induction picked generalizing pattern with
  | nil => exact (List.length_eq_zero_iff.mp h.symm).symm
  | cons i picked ih =>
    obtain ⟨b, pattern, rfl⟩ := List.exists_cons_of_length_eq_add_one h.symm
    have ih := ih (Nat.succ.inj h)
    simp only [literals, negations, List.zipWith_cons_cons, List.map_cons] at ih ⊢
    rw [ih]
    cases b <;> cases hi : solution.getD i false <;> simp [plantedValue, hi, hlow]

lemma exists_planted (s : Settings) (solution : Array Bool) : ∃ a : Assignment,
    ∀ i, a (labelOf i) = some (plantedValue s.vartype solution i) :=
  ⟨Function.extend labelOf (fun i => some (plantedValue s.vartype solution i)) fun _ => none,
    labelOf_inj.extend_apply _ _⟩

lemma Drawable.accepts (h : Drawable s (some solution) k) {a : Assignment}
    (ha : ∀ i, a (labelOf i) = some (plantedValue s.vartype solution i)) :
    k.accepts (k.tupleIn a) = true := by
  obtain ⟨picked, negated, hp, hn, hfits, rfl⟩ := h
  obtain ⟨pattern, hpattern, rfl⟩ := hfits solution rfl
  obtain ⟨hlength, hcount⟩ := mem_patterns.mp hpattern
  have htuple : (ofNegated (picked.map labelOf) (negations solution picked pattern) s.vartype).tupleIn a =
      picked.map (plantedValue s.vartype solution) := by
    simp [Constraint.tupleIn, ofNegated, ha]
  rw [Constraint.accepts_iff, mem_ofNegated hn, htuple,
    literals_negations s.vartype (hp.length.trans hlength.symm)]
  refine ⟨⟨(List.length_map _).trans hp.length, fun x hx => ?_⟩, hcount⟩
  obtain ⟨i, -, rfl⟩ := List.mem_map.mp hx
  exact plantedValue_mem s.vartype solution i

end Planted

section Assembly

lemma Drawable.labelled (h : Drawable s planted k) : ∀ v ∈ k.scope, ∃ i < s.size, labelOf i = v := by
  obtain ⟨picked, negated, hp, -, -, rfl⟩ := h
  intro v hv
  obtain ⟨i, hi, rfl⟩ := List.mem_map.mp hv
  exact ⟨i, hp.below i hi, rfl⟩

lemma Collected.assemble_eq_ok (h : Collected s planted cs) :
    ∃ p, assemble s cs = .ok p ∧ p.Reachable ∧ p.vartype = s.vartype ∧ p.constraints = cs ∧
      p.labels.Perm ((List.range s.size).map labelOf) := by
  have hcs : ∀ k ∈ cs, k.WellFormed ∧ (k.scope ≠ [] → k.vartype = s.vartype) := fun k hk =>
    ⟨(h.drawable k hk).wellFormed, fun _ => (h.drawable k hk).vartype⟩
  obtain ⟨hq, hqt, hqc, hql⟩ := (Problem.Reachable.empty s.vartype).addConstraints hcs
  obtain ⟨hp, hpt, hpc, hpl⟩ := hq.addVariables ((List.range s.size).map labelOf)
  refine ⟨_, ?_, hp, hpt.trans hqt, hpc.trans hqc, ?_⟩
  · rw [assemble, Problem.foldlM_add fun k hk => (hcs k hk).2]
    rfl
  · have hnodup : ((List.range s.size).map labelOf).Nodup := List.nodup_range.map labelOf_inj
    refine (List.perm_ext_iff_of_nodup (SortedMap.keys_nodup _) hnodup).mpr fun v => ?_
    refine (hpl v).trans (or_iff_left_of_imp fun hv => ?_)
    obtain ⟨k, hk, hvk⟩ := ((hql v).mp hv).resolve_left (by simp [Problem.labels, Problem.empty])
    obtain ⟨i, hi, rfl⟩ := (h.drawable k hk).labelled v hvk
    exact List.mem_map_of_mem (List.mem_range.mpr hi)

end Assembly

/-- Over four of the first `n` variables in order, and with a polarity of the literals for which two of
them are true in just the tuples that are accepted. -/
def IsClause (n : ℕ) (t : Vartype) (c : Constraint) : Prop :=
  c.vartype = t ∧ ∃ picked negated, Picks n picked ∧ c.scope = picked.map labelOf ∧ negated.length = 4 ∧
    ∀ y, c.accepts y = true ↔ t.IsTuple 4 y ∧ (literals t negated y).count true = 2

structure Meets (s : Settings) (p : Problem) : Prop where
  reachable : p.Reachable
  vartype : p.vartype = s.vartype
  length : p.constraints.length = s.clauses
  distinct : p.constraints.Pairwise fun c d => ¬ (c.scope = d.scope ∧ c.configurations = d.configurations)
  labels : p.labels.Perm ((List.range s.size).map labelOf)
  clauses : ∀ c ∈ p.constraints, IsClause s.size s.vartype c
  planted : s.satisfiable = true → ∃ a : Assignment, a.Covers p.vartype p.labels ∧ p.holds a = .ok true

lemma Drawable.isClause (h : Drawable s planted k) : IsClause s.size s.vartype k := by
  obtain ⟨picked, negated, hp, hn, -, rfl⟩ := h
  exact ⟨rfl, picked, negated, hp, rfl, hn, fun y => Constraint.accepts_iff.trans (mem_ofNegated hn)⟩

lemma Collected.meets (h : Collected s planted cs) (hlength : cs.length = s.clauses)
    (hplanted : s.satisfiable = true → planted.isSome) : ∃ p, assemble s cs = .ok p ∧ Meets s p := by
  obtain ⟨p, hassemble, hp, ht, rfl, hl⟩ := h.assemble_eq_ok
  refine ⟨p, hassemble, hp, ht, hlength, ?_, hl, fun c hc => (h.drawable c hc).isClause, fun hs => ?_⟩
  · refine h.nodup.imp_of_mem fun hc hd hne => ?_
    exact fun ⟨hscope, hconf⟩ => hne ((h.drawable _ hc).ext (h.drawable _ hd) hscope hconf)
  · obtain ⟨solution, rfl⟩ := Option.isSome_iff_exists.mp (hplanted hs)
    obtain ⟨a, ha⟩ := exists_planted s solution
    have hcovers : a.Covers p.vartype p.labels := fun v hv => by
      obtain ⟨i, -, rfl⟩ := List.mem_map.mp (hl.subset hv)
      exact ⟨_, ht ▸ plantedValue_mem s.vartype solution i, ha i⟩
    exact ⟨a, hcovers, (hp.coherent.holds_iff hcovers).mpr fun c hc => (h.drawable c hc).accepts ha⟩

def count (top i : ℕ) : Fin (top + 1) × ℕ := (⟨i % (top + 1), Nat.mod_lt i top.succ_pos⟩, i + 1)

end QuadraticPenalty.RandomProblem
