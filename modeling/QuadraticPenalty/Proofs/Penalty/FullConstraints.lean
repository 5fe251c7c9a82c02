import QuadraticPenalty.Masks
import QuadraticPenalty.Proofs.Constraint.Consistency
import QuadraticPenalty.Proofs.Penalty.Requests

/-! Constraints that allow everything are told by a count of their configurations. They get the blank
model, and no oracle is asked about them. -/

namespace QuadraticPenalty

namespace Constraint

variable {c : Constraint}

lemma size_le_two_pow (hc : c.WellFormed) : c.configurations.size ≤ 2 ^ c.arity :=
  hc.subperm_tuples.length_le.trans_eq (Vartype.tuples_length _ _)

lemma isFull_iff (hc : c.WellFormed) (h : c.arity ≤ 127) :
    c.isFull = true ↔ ∀ x, c.vartype.IsTuple c.arity x → c.accepts x = true := by
  rw [← size_eq_two_pow_iff hc, isFull, decide_eq_true (Nat.lt_succ_of_le h), Bool.true_and, beq_iff_eq]
  rfl

lemma isFull_iff_counted (hc : c.WellFormed) : c.isFull = true ↔
    Vartype.tupleCount? c.arity = some (BitVec.ofNat 128 c.configurations.size) := by
  rw [Vartype.tupleCount?]
  split
  · next h =>
    have hpow : 2 ^ c.arity < 2 ^ 128 := Nat.pow_lt_pow_right (by decide) h
    have hsize := (size_le_two_pow hc).trans_lt hpow
    rw [Option.some_inj, ← BitVec.toNat_inj, BitVec.toNat_shiftLeft, BitVec.toNat_ofNat,
      BitVec.toNat_ofNat, Nat.mod_eq_of_lt hsize, Nat.one_mod_two_pow (by decide), Nat.one_shiftLeft,
      Nat.mod_eq_of_lt hpow, isFull, decide_eq_true h, Bool.true_and, beq_iff_eq]
    exact eq_comm
  · next h => simp [isFull, h]

lemma accepts_all_iff (hc : c.WellFormed) : (∀ x, c.vartype.IsTuple c.arity x → c.accepts x = true) ↔
    ∀ a : Assignment, a.Covers c.vartype c.scope → c.holds a = .ok true := by
  constructor
  · intro h a ha
    rw [holds_eq ha, h _ (tupleIn_isTuple ha)]
  · intro h x hx
    exact Except.ok.inj ((holds_ofLists hc.1 hx).symm.trans (h _ (Assignment.covers_ofLists hc.1 hx)))

end Constraint

namespace Compilation

open Scalar

variable {α σ : Type} [Scalar α] {ask : Oracle α σ} {s : Settings α} {p : Problem} {c : Constraint}

lemma events_refused (r : Progress α σ) (nodes : List String) :
    r.events <+: (r.refused ask s c nodes).events :=
  (List.prefix_append ..).trans (List.prefix_append ..)

lemma grow_events (left : ℕ) (nodes : List String) (r : Progress α σ) :
    r.events <+: (grow ask s p c left nodes r).2.events := by
  induction left generalizing nodes r with
  | zero =>
    cases hf : (ask (requestFor s c nodes) r.oracle).1.penalty?.filter (meetsGap s) with
    | some found =>
      rw [grow_eq_of_some ask p 0 hf]
      exact (List.prefix_append ..).trans (List.prefix_append ..)
    | none =>
      rw [grow_zero_eq ask p hf]
      exact (events_refused r nodes).trans (List.prefix_append ..)
  | succ left ih =>
    cases hf : (ask (requestFor s c nodes) r.oracle).1.penalty?.filter (meetsGap s) with
    | some found =>
      rw [grow_eq_of_some ask p (left + 1) hf]
      exact (List.prefix_append ..).trans (List.prefix_append ..)
    | none =>
      rw [grow_succ_eq ask p left hf]
      have hrest := ih (nodes ++ [((r.refused ask s c nodes).freshLabel p s.stem).1])
        ((r.refused ask s c nodes).freshLabel p s.stem).2
      exact (events_refused r nodes).trans hrest

lemma search_not_trivial (r : Progress α σ) (name : String) :
    (search ask s p c r).2.events ≠ r.events ++ [.trivial name] := by
  intro h
  have hevents : r.events ++ [.searching c.name c.arity s.gap] <+: (search ask s p c r).2.events :=
    grow_events _ c.scope (r.report _)
  rw [h, List.prefix_append_right_inj] at hevents
  cases List.cons_prefix_cons.mp hevents |>.1

lemma penalty_trivial_iff (r : Progress α σ) :
    (penalty ask s p c r).2.events = r.events ++ [.trivial c.name] ↔
      c.arity ≤ s.maxNodes ∧ c.isFull = true := by
  have hreport (es : List (Event α)) (hes : es ≠ [.trivial c.name]) :
      (r.report es).events ≠ r.events ++ [.trivial c.name] := fun h => hes (List.append_cancel_left h)
  rw [penalty]
  split
  · next hlarge => exact iff_of_false (hreport _ (by simp)) fun h => absurd h.1 (Nat.not_le.mpr hlarge)
  · next hfits =>
    have hfits : c.arity ≤ s.maxNodes := Nat.le_of_not_lt hfits
    split
    · next hfull => exact iff_of_true rfl ⟨hfits, hfull⟩
    · next hfull =>
      refine iff_of_false ?_ fun h => hfull h.2
      split
      · split
        · exact search_not_trivial r c.name
        · refine hreport _ ?_
          rw [splitEvents]
          split <;> simp [Event.ofFactors]
        · refine hreport _ ?_
          rw [splitEvents]
          split <;> simp
      · exact search_not_trivial r c.name

lemma penalty_of_isFull (hfits : c.arity ≤ s.maxNodes) (h : c.isFull = true) (r : Progress α σ) :
    penalty ask s p c r = (.ok c.blankModel, r.report [.trivial c.name]) := by
  rw [penalty, if_neg (Nat.not_lt.mpr hfits), if_pos h]

lemma IsSearched.exists_violation (h : IsSearched s c) (hc : c.WellFormed) :
    (∃ x, c.vartype.IsTuple c.arity x ∧ c.accepts x = false) ∨
      128 ≤ c.arity ∧ 2 ^ 128 ≤ c.configurations.size := by
  by_cases hall : ∀ x, c.vartype.IsTuple c.arity x → c.accepts x = true
  · have hlarge : 128 ≤ c.arity := by
      by_contra hlt
      have hfull := (Constraint.isFull_iff hc (by omega)).mpr hall
      cases h.restricts.symm.trans hfull
    rw [(Constraint.size_eq_two_pow_iff hc).mpr hall]
    exact .inr ⟨hlarge, Nat.pow_le_pow_right (by decide) hlarge⟩
  · simp only [not_forall, Bool.not_eq_true] at hall
    obtain ⟨x, hx, hfalse⟩ := hall
    exact .inl ⟨x, hx, hfalse⟩

lemma asked_of_flaw {o : σ} {m : Misconfiguration α} (h : s.flaw = some m) : asked ask s p o = [] := by
  simp only [asked, run, h]

lemma asked_violated {o : σ} (hp : p.Reachable) {q : Request α} (hq : q ∈ asked ask s p o) :
    (∃ x, q.vartype.IsTuple q.decision.length x ∧ x ∉ q.feasible) ∨
      128 ≤ q.decision.length ∧ 2 ^ 128 ≤ q.feasible.size := by
  cases hs : s.flaw with
  | some m =>
    rw [asked_of_flaw hs] at hq
    cases hq
  | none =>
    obtain ⟨r, mades, talks, fault, -, -, hconducts, -, hasked, -⟩ := run_conducts ask o hp hs
    rw [hasked] at hq
    obtain ⟨c, hc, hsearched, aux, -, rfl⟩ := hconducts.exists_searched hq
    refine (hsearched.exists_violation (hp.coherent.wellFormed c hc)).imp_left ?_
    rintro ⟨x, hx, hfalse⟩
    refine ⟨x, hx, fun hmem => ?_⟩
    cases hfalse.symm.trans (Constraint.accepts_iff.mpr hmem)

lemma accepts_of_blank (hc : c.WellFormed)
    (h : c.closedForm? (α := Extended) = some (.ok c.blankModel)) {a : Assignment}
    (ha : a.Covers c.vartype c.scope) : c.accepts (c.tupleIn a) = true := by
  obtain ⟨k, hk, hframes, hvalue⟩ := Constraint.closedForm?_eq_some hc (Constraint.size_of_closedForm? h)
  have hblank : k.exact = (c.blankModel : QuadraticModel ℚ).exact := by
    rw [Constraint.exact_blankModel]
    exact Except.ok.inj (Option.some.inj (hk.symm.trans h))
  have hframe := Constraint.frames_blankModel (α := ℚ) c
  have henergy := QuadraticModel.energy_exact hframes.wellFormed (hframes.covers ha)
  rw [hblank, QuadraticModel.energy_exact hframe.wellFormed (hframe.covers ha),
    Constraint.value_blankModel, hvalue a ha] at henergy
  have htwice := Extended.finite.inj (Except.ok.inj henergy)
  have hnone : c.factors.countP (c.misses a) = 0 := by
    exact_mod_cast (mul_eq_zero.mp htwice.symm).resolve_left two_ne_zero
  exact (Constraint.countP_misses_eq_zero_iff hc ha).mp hnone

/-- Up to 127 variables, the count finds just the constraints that no assignment violates. Only a
constraint that no assignment violates is reported to be trivial or has a blank closed form, however many
variables it has; all those that are counted get the blank model, and no oracle is asked about them. -/
theorem isFull_exact {α σ : Type} [Scalar α] (ask : Oracle α σ) (s : Settings α) :
    (∀ c : Constraint, c.Built →
      (c.isFull = true ↔
        Vartype.tupleCount? c.arity = some (BitVec.ofNat 128 c.configurations.size)) ∧
      (c.arity ≤ 127 →
        (c.isFull = true ↔ ∀ x, c.vartype.IsTuple c.arity x → c.accepts x = true)) ∧
      (c.closedForm? (α := Extended) = some (.ok c.blankModel) →
        ∀ a : Assignment, a.Covers c.vartype c.scope → c.holds a = .ok true) ∧
      ∀ (p : Problem) (r : Progress α σ),
        ((penalty ask s p c r).2.events = r.events ++ [.trivial c.name] →
          penalty ask s p c r = (.ok c.blankModel, r.report [.trivial c.name]) ∧
          ∀ a : Assignment, a.Covers c.vartype c.scope → c.holds a = .ok true) ∧
        (c.arity ≤ 127 → c.arity ≤ s.maxNodes →
          (∀ a : Assignment, a.Covers c.vartype c.scope → c.holds a = .ok true) →
          penalty ask s p c r = (.ok c.blankModel, r.report [.trivial c.name]))) ∧
    ∀ (p : Problem) (o : σ), p.Reachable → ∀ q ∈ asked ask s p o,
      (∃ x, q.vartype.IsTuple q.decision.length x ∧ x ∉ q.feasible) ∨
        128 ≤ q.decision.length ∧ 2 ^ 128 ≤ q.feasible.size := by
  refine ⟨fun c hbuilt => ?_, fun p o hp q hq => asked_violated hp hq⟩
  have hc := hbuilt.wellFormed
  refine ⟨Constraint.isFull_iff_counted hc, Constraint.isFull_iff hc, fun h a ha => ?_,
    fun p r => ⟨fun h => ?_, ?_⟩⟩
  · rw [Constraint.holds_eq ha, accepts_of_blank hc h ha]
  · obtain ⟨hfits, hfull⟩ := (penalty_trivial_iff r).mp h
    exact ⟨penalty_of_isFull hfits hfull r, (Constraint.accepts_all_iff hc).mp fun x hx =>
      Constraint.accepts_of_isFull hc hfull hx⟩
  · intro hcounted hfits hall
    have hfull := (Constraint.isFull_iff hc hcounted).mpr ((Constraint.accepts_all_iff hc).mpr hall)
    exact penalty_of_isFull hfits hfull r

def unrestricted : Constraint :=
  ⟨"Constraint", .binary, ["a", "b", "c"], .ofList (Vartype.binary.tuples 3)⟩

lemma unrestricted_built : unrestricted.Built := by
  have hpredicate : Constraint.ofPredicate (fun _ => true) ["a", "b", "c"] .binary = .ok unrestricted := by
    cbv
  exact .predicate hpredicate

theorem isFull_exact_of_unrestricted : unrestricted.Built ∧ unrestricted.isFull = true ∧
    penalty Oracle.none narrow equalSpins unrestricted ⟨0, [], (), []⟩ =
      (.ok unrestricted.blankModel, ⟨0, [], (), [.trivial "Constraint"]⟩) ∧
    ∃ q ∈ asked Oracle.none narrow equalSpins (),
      ∃ x, q.vartype.IsTuple q.decision.length x ∧ x ∉ q.feasible := by
  have hall : ∀ x, unrestricted.vartype.IsTuple unrestricted.arity x → unrestricted.accepts x = true :=
    fun x hx => Constraint.accepts_iff.mpr (SortedSet.mem_ofList.mpr (Vartype.mem_tuples.mpr hx))
  obtain ⟨hconstraint, hrun⟩ := isFull_exact Oracle.none narrow
  obtain ⟨-, hfull, -, hpenalty⟩ := hconstraint unrestricted unrestricted_built
  refine ⟨unrestricted_built, (hfull (by decide)).mpr hall, ?_, ?_⟩
  · exact (hpenalty equalSpins ⟨0, [], (), []⟩).2 (by decide) (by decide)
      ((Constraint.accepts_all_iff unrestricted_built.wellFormed).mp hall)
  · have hlengths : (asked Oracle.none narrow equalSpins ()).map (·.decision.length) = [2, 2] := by
      decide +kernel
    obtain ⟨q, hq, hlength⟩ : ∃ q ∈ asked Oracle.none narrow equalSpins (), q.decision.length = 2 := by
      rw [← List.mem_map, hlengths]
      simp
    obtain hviolated | ⟨hlarge, -⟩ := hrun equalSpins () equalSpins_reachable q hq
    · exact ⟨q, hq, hviolated⟩
    · omega

end Compilation

end QuadraticPenalty
