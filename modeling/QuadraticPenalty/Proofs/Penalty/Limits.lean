import QuadraticPenalty.Proofs.Penalty.Auxiliaries

namespace QuadraticPenalty.Compilation

section Raise

variable {α σ : Type} [Scalar α] {ask : Oracle α σ} {s : Settings α} {p : Problem} {c : Constraint}
  {r r' : Progress α σ} {part : QuadraticModel α} {left left' n : ℕ} {nodes : List String} {o : σ}

lemma grow_raise (hleft : left ≤ left') (h : grow ask s p c left nodes r = (.ok part, r')) :
    grow ask { s with maxNodes := n } p c left' nodes r = (.ok part, r') := by
  induction left using Nat.strong_induction_on generalizing left' nodes r with
  | _ left ih =>
    cases hf : (ask (requestFor s c nodes) r.oracle).1.penalty?.filter (meetsGap s) with
    | some found =>
      rw [grow_eq_of_some ask p left hf] at h
      exact (grow_eq_of_some (s := { s with maxNodes := n }) ask p left' hf).trans h
    | none =>
      cases left with
      | zero =>
        rw [grow_zero_eq ask p hf] at h
        cases (Prod.mk.inj h).1
      | succ left =>
        obtain ⟨more, rfl⟩ := Nat.exists_eq_succ_of_ne_zero (Nat.ne_zero_of_lt hleft)
        rw [grow_succ_eq ask p left hf] at h
        exact (grow_succ_eq (s := { s with maxNodes := n }) ask p more hf).trans
          (ih left left.lt_succ_self (Nat.le_of_succ_le_succ hleft) h)

lemma penalty_raise (hn : s.maxNodes ≤ n) (h : penalty ask s p c r = (.ok part, r')) :
    penalty ask { s with maxNodes := n } p c r = (.ok part, r') := by
  obtain ⟨hfits, hpart⟩ := penalty_eq_ok_iff.mp h
  refine penalty_eq_ok_iff.mpr ⟨hfits.trans hn, ?_⟩
  cases hpart with
  | blank hfull => exact .blank hfull
  | closedForm hfull hgap hpart => exact .closedForm hfull hgap hpart
  | searched hfull hnone hsearch =>
    exact .searched hfull hnone (grow_raise (Nat.sub_le_sub_right hn _) hsearch)

lemma addPenalties_raise {cs : List Constraint} {m k : QuadraticModel α} (hn : s.maxNodes ≤ n)
    (h : addPenalties ask s p cs m r = (.ok k, r')) :
    addPenalties ask { s with maxNodes := n } p cs m r = (.ok k, r') := by
  induction cs generalizing m r with
  | nil => exact h
  | cons c cs ih =>
    by_cases hs : c.scope = []
    · rw [addPenalties_vacuous hs] at h ⊢
      exact ih h
    · rw [addPenalties_cons_eq_ok_iff hs] at h ⊢
      obtain ⟨part, q, l, hpart, hmerge, hrest⟩ := h
      exact ⟨part, q, l, penalty_raise hn hpart, hmerge, ih hrest⟩

lemma run_raise {m : QuadraticModel α} (hn : s.maxNodes ≤ n) (h : (run ask s p o).result = .ok m) :
    run ask { s with maxNodes := n } p o = run ask s p o := by
  obtain ⟨hs, r, hadd, -⟩ := run_eq_ok h
  rw [run_of_addPenalties hs hadd]
  exact run_of_addPenalties hs (addPenalties_raise hn hadd)

lemma asked_raise {m : QuadraticModel α} (hn : s.maxNodes ≤ n) (h : (run ask s p o).result = .ok m) :
    asked ask { s with maxNodes := n } p o = asked ask s p o := by
  rw [run_recorded] at h
  exact congrArg (·.oracle.1) (run_raise hn h)

end Raise

/-- Larger graphs leave a run that succeeds as it is, with its requests; a run that fails with them
fails with smaller ones. -/
theorem run_raised {α σ : Type} [Scalar α] (ask : Oracle α σ) (s : Settings α) (p : Problem) (o : σ)
    (n : ℕ) (hn : s.maxNodes ≤ n) :
    (∀ m, (run ask s p o).result = .ok m →
      run ask { s with maxNodes := n } p o = run ask s p o ∧
      asked ask { s with maxNodes := n } p o = asked ask s p o) ∧
    ∀ f, (run ask { s with maxNodes := n } p o).result = .error f →
      ∃ f', (run ask s p o).result = .error f' := by
  refine ⟨fun m h => ⟨run_raise hn h, asked_raise hn h⟩, fun f h => ?_⟩
  cases hresult : (run ask s p o).result with
  | error f' => exact ⟨f', rfl⟩
  | ok m =>
    rw [run_raise hn hresult, hresult] at h
    cases h

theorem run_raised_of_threeEqual :
    (run (uniform.oracle Grid.still) { wide with maxNodes := 9 } threeEqual ()).labels = ["aux1"] ∧
      (asked (uniform.oracle Grid.still) { wide with maxNodes := 9 } threeEqual ()).map
        (·.graph.nodes) = [["a", "b", "c"], ["a", "b", "c", "aux1"]] ∧
      ∃ f, (run Oracle.none { narrow with maxNodes := 2 } equalSpins ()).result = .error f := by
  obtain ⟨m, hm⟩ := Outcome.exists_model (o := run (uniform.oracle Grid.still) wide threeEqual ())
    (by decide +kernel)
  have hlabels : (run (uniform.oracle Grid.still) wide threeEqual ()).labels = ["aux1"] := by
    decide +kernel
  have hasked : (asked (uniform.oracle Grid.still) wide threeEqual ()).map (·.graph.nodes) =
      [["a", "b", "c"], ["a", "b", "c", "aux1"]] := by
    decide +kernel
  obtain ⟨f, hf⟩ := Outcome.exists_refusal (o := run Oracle.none narrow equalSpins ())
    (by decide +kernel)
  obtain ⟨hrun, hsame⟩ := (run_raised (uniform.oracle Grid.still) wide threeEqual () 9 (by decide)).1
    m hm
  rw [hrun, hsame]
  exact ⟨hlabels, hasked, (run_raised Oracle.none { narrow with maxNodes := 2 } equalSpins () 3
    (by decide)).2 f hf⟩

end QuadraticPenalty.Compilation
