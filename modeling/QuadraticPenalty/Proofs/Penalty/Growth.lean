import Mathlib
import QuadraticPenalty.Penalty.Compilation

namespace QuadraticPenalty.Compilation

open Scalar

variable {α σ : Type} {s : Settings α} {c : Constraint} {r r' : Progress α σ}

structure Aligned (r r' : Progress α σ) : Prop where
  number : r'.nextNumber = r.nextNumber
  labels : r'.labels = r.labels

lemma Aligned.after {q q' : Progress α σ} (h : Aligned r r') (hq : Aligned r q)
    (hq' : Aligned r' q') : Aligned q q' :=
  ⟨hq'.number.trans (h.number.trans hq.number.symm), hq'.labels.trans (h.labels.trans hq.labels.symm)⟩

lemma Aligned.report (h : Aligned r r') (es es' : List (Event α)) :
    Aligned (r.report es) (r'.report es') := ⟨h.number, h.labels⟩

def Progress.refused [Scalar α] (r : Progress α σ) (ask : Oracle α σ) (s : Settings α)
    (c : Constraint) (nodes : List String) : Progress α σ :=
  (r.ask ask s c nodes).2.report (refusals c (ask (requestFor s c nodes) r.oracle).1.penalty?)

variable [Scalar α] (ask : Oracle α σ) (p : Problem) {nodes : List String}

lemma grow_eq_of_some (left : ℕ) {found : PenaltyModel α}
    (h : (ask (requestFor s c nodes) r.oracle).1.penalty?.filter (meetsGap s) = some found) :
    grow ask s p c left nodes r = (.ok (found.model.toVartype c.vartype),
      (r.ask ask s c nodes).2.report [.found c.name nodes.length found.gap]) := by
  rw [grow.eq_def]
  have hask : ((r.ask ask s c nodes).1.filter (meetsGap s)) = some found := h
  dsimp only
  rw [hask]

lemma grow_zero_eq
    (h : (ask (requestFor s c nodes) r.oracle).1.penalty?.filter (meetsGap s) = none) :
    grow ask s p c 0 nodes r = (.error (.noPenalty c.name c.arity nodes.length s.maxNodes),
      (r.refused ask s c nodes).report [.exhausted c.name nodes.length s.maxNodes]) := by
  rw [grow.eq_def]
  have hask : ((r.ask ask s c nodes).1.filter (meetsGap s)) = none := h
  dsimp only
  rw [hask]
  rfl

lemma grow_succ_eq (left : ℕ)
    (h : (ask (requestFor s c nodes) r.oracle).1.penalty?.filter (meetsGap s) = none) :
    grow ask s p c (left + 1) nodes r =
      grow ask s p c left (nodes ++ [((r.refused ask s c nodes).freshLabel p s.stem).1])
        ((r.refused ask s c nodes).freshLabel p s.stem).2 := by
  rw [grow.eq_def]
  have hask : ((r.ask ask s c nodes).1.filter (meetsGap s)) = none := h
  dsimp only
  rw [hask]
  rfl

lemma grow_of_some (left : ℕ) {found : PenaltyModel α}
    (h : (ask (requestFor s c nodes) r.oracle).1.penalty?.filter (meetsGap s) = some found) :
    ∃ q, grow ask s p c left nodes r = (.ok (found.model.toVartype c.vartype), q) ∧ Aligned r q :=
  ⟨_, grow_eq_of_some ask p left h, rfl, rfl⟩

lemma grow_zero_of_none
    (h : (ask (requestFor s c nodes) r.oracle).1.penalty?.filter (meetsGap s) = none) :
    ∃ q, grow ask s p c 0 nodes r =
      (.error (.noPenalty c.name c.arity nodes.length s.maxNodes), q) ∧ Aligned r q :=
  ⟨_, grow_zero_eq ask p h, rfl, rfl⟩

lemma grow_succ_of_none (left : ℕ)
    (h : (ask (requestFor s c nodes) r.oracle).1.penalty?.filter (meetsGap s) = none) :
    ∃ q, grow ask s p c (left + 1) nodes r =
      grow ask s p c left (nodes ++ [(q.freshLabel p s.stem).1]) (q.freshLabel p s.stem).2 ∧
        Aligned r q :=
  ⟨_, grow_succ_eq ask p left h, rfl, rfl⟩

variable {ask p} {part : QuadraticModel α}

lemma grow_eq_ok {left : ℕ} {nodes : List String} (h : grow ask s p c left nodes r = (.ok part, r')) :
    (∃ found, (ask (requestFor s c nodes) r.oracle).1.penalty? = some found ∧
      meetsGap s found = true ∧ part = found.model.toVartype c.vartype ∧
      r'.labels = r.labels ∧ r'.nextNumber = r.nextNumber) ∨
    ∃ (n : ℕ) (q : Progress α σ), left = n + 1 ∧ q.labels = r.labels ∧
      q.nextNumber = r.nextNumber ∧
      grow ask s p c n (nodes ++ [(q.freshLabel p s.stem).1]) (q.freshLabel p s.stem).2 =
        (.ok part, r') := by
  cases hf : (ask (requestFor s c nodes) r.oracle).1.penalty?.filter (meetsGap s) with
  | some found =>
    obtain ⟨hanswer, hgap⟩ := Option.filter_eq_some_iff.mp hf
    obtain ⟨q, hq, hrq⟩ := grow_of_some ask p left hf
    obtain ⟨hpart, rfl⟩ := Prod.mk.inj (hq.symm.trans h)
    exact .inl ⟨found, hanswer, hgap, (Except.ok.inj hpart).symm, hrq.labels, hrq.number⟩
  | none =>
    cases left with
    | zero =>
      obtain ⟨q, hq, -⟩ := grow_zero_of_none ask p hf
      cases (Prod.mk.inj (hq.symm.trans h)).1
    | succ n =>
      obtain ⟨q, hq, hrq⟩ := grow_succ_of_none ask p n hf
      exact .inr ⟨n, q, rfl, hrq.labels, hrq.number, hq.symm.trans h⟩

inductive Obtains (ask : Oracle α σ) (s : Settings α) (p : Problem) (c : Constraint)
    (r : Progress α σ) : QuadraticModel α → Progress α σ → Prop
  | blank : c.isFull = true → Obtains ask s p c r c.blankModel (r.report [.trivial c.name])
  | closedForm {part : QuadraticModel α} : c.isFull = false → le s.gap (two + tolerance) = true →
      c.closedForm? = some (.ok part) →
      Obtains ask s p c r part (r.report (splitEvents c ++ [.closedForm c.name c.arity]))
  | searched {part : QuadraticModel α} {r' : Progress α σ} : c.isFull = false →
      (le s.gap (two + tolerance) = true → c.closedForm? (α := α) = none) →
      search ask s p c r = (.ok part, r') → Obtains ask s p c r part r'

lemma penalty_eq_ok_iff :
    penalty ask s p c r = (.ok part, r') ↔ c.arity ≤ s.maxNodes ∧ Obtains ask s p c r part r' := by
  constructor
  · intro h
    rw [penalty] at h
    split at h
    · cases (Prod.mk.inj h).1
    · next hfits =>
      refine ⟨Nat.le_of_not_lt hfits, ?_⟩
      split at h
      · next hfull =>
        cases h
        exact .blank hfull
      · next hfull =>
        rw [Bool.not_eq_true] at hfull
        split at h
        · next hgap =>
          split at h
          · next hnone => exact .searched hfull (fun _ => hnone) h
          · cases (Prod.mk.inj h).1
          · next hpart =>
            cases h
            exact .closedForm hfull hgap hpart
        · next hgap => exact .searched hfull (fun hle => absurd hle hgap) h
  · rintro ⟨hfits, h⟩
    rw [penalty, if_neg (Nat.not_lt.mpr hfits)]
    cases h with
    | blank hfull => rw [if_pos hfull]
    | closedForm hfull hgap hpart =>
      rw [if_neg (Bool.eq_false_iff.mp hfull), if_pos hgap, hpart]
    | searched hfull hnone hsearch =>
      rw [if_neg (Bool.eq_false_iff.mp hfull)]
      split
      · next hgap =>
        rw [hnone hgap]
        exact hsearch
      · exact hsearch

section Run

variable {cs : List Constraint} {m n : QuadraticModel α} {o : σ}

lemma addPenalties_vacuous (hs : c.scope = []) : addPenalties ask s p (c :: cs) m r =
    addPenalties ask s p cs m (r.report [.vacuous c.name]) := by
  rw [addPenalties, if_pos (List.isEmpty_iff.mpr hs)]

lemma addPenalties_cons_eq_ok_iff (hs : c.scope ≠ []) :
    addPenalties ask s p (c :: cs) m r = (.ok n, r') ↔ ∃ part q k,
      penalty ask s p c r = (.ok part, q) ∧ m.merge part = .ok k ∧
      addPenalties ask s p cs k q = (.ok n, r') := by
  rw [addPenalties, if_neg (mt List.isEmpty_iff.mp hs)]
  constructor
  · intro h
    split at h
    · cases (Prod.mk.inj h).1
    · next part q hpart =>
      split at h
      · cases (Prod.mk.inj h).1
      · next k hk => exact ⟨part, q, k, hpart, hk, h⟩
  · rintro ⟨part, q, k, hpart, hk, h⟩
    rw [hpart]
    dsimp only
    rw [hk]
    exact h

lemma addPenalties_induction {motive : List Constraint → QuadraticModel α → Progress α σ → Prop}
    (skip : ∀ done c m r, c ∈ cs → c.scope = [] → motive done m r →
      motive (done ++ [c]) m (r.report [.vacuous c.name]))
    (add : ∀ done c m r part r' n, c ∈ cs → c.scope ≠ [] → motive done m r →
      penalty ask s p c r = (.ok part, r') → m.merge part = .ok n → motive (done ++ [c]) n r')
    (h0 : motive [] m r) (h : addPenalties ask s p cs m r = (.ok n, r')) : motive cs n r' := by
  have hsuffix : ∀ (ds done : List Constraint) (m : QuadraticModel α) (r : Progress α σ),
      (∀ d ∈ ds, d ∈ cs) → motive done m r → addPenalties ask s p ds m r = (.ok n, r') →
      motive (done ++ ds) n r' := by
    intro ds
    -- on the constraints that are left, while those that are done grow
    induction ds with
    | nil =>
      intro done m r _ h0 h
      cases h
      rwa [List.append_nil]
    | cons c ds ih =>
      intro done m r hcs h0 h
      have hc := hcs c (by simp)
      have hds : ∀ d ∈ ds, d ∈ cs := fun d hd => hcs d (List.mem_cons_of_mem c hd)
      rw [List.append_cons]
      by_cases hs : c.scope = []
      · rw [addPenalties_vacuous hs] at h
        exact ih _ _ _ hds (skip done c m r hc hs h0) h
      · obtain ⟨part, q, k, hpart, hmerge, hrest⟩ := (addPenalties_cons_eq_ok_iff hs).mp h
        exact ih _ _ _ hds (add done c m r part q k hc hs h0 hpart hmerge) hrest
  exact hsuffix cs [] m r (fun _ hd => hd) h0 h

lemma addPenalties_eq_ok (ask : Oracle α σ) (s : Settings α) (p : Problem) (cs : List Constraint)
    {motive : List Constraint → QuadraticModel α → Progress α σ → Prop}
    (skip : ∀ done c m r, c ∈ cs → c.scope = [] → motive done m r →
      motive (done ++ [c]) m (r.report [.vacuous c.name]))
    (add : ∀ done c m r, c ∈ cs → c.scope ≠ [] → motive done m r → ∃ part r' n,
      penalty ask s p c r = (.ok part, r') ∧ m.merge part = .ok n ∧ motive (done ++ [c]) n r')
    (h0 : motive [] m r) :
    ∃ n r', addPenalties ask s p cs m r = (.ok n, r') ∧ motive cs n r' := by
  have hsuffix : ∀ (ds done : List Constraint) (m : QuadraticModel α) (r : Progress α σ),
      (∀ d ∈ ds, d ∈ cs) → motive done m r →
      ∃ n r', addPenalties ask s p ds m r = (.ok n, r') ∧ motive (done ++ ds) n r' := by
    intro ds
    induction ds with
    | nil =>
      intro done m r _ h
      exact ⟨m, r, rfl, by rwa [List.append_nil]⟩
    | cons c ds ih =>
      intro done m r hcs h
      have hc := hcs c (by simp)
      have hds : ∀ d ∈ ds, d ∈ cs := fun d hd => hcs d (List.mem_cons_of_mem c hd)
      rw [List.append_cons]
      by_cases hs : c.scope = []
      · obtain ⟨n, r', hrun, hn⟩ := ih _ _ _ hds (skip done c m r hc hs h)
        exact ⟨n, r', (addPenalties_vacuous hs).trans hrun, hn⟩
      · obtain ⟨part, q, k, hpart, hmerge, hk⟩ := add done c m r hc hs h
        obtain ⟨n, r', hrun, hn⟩ := ih _ _ _ hds hk
        exact ⟨n, r', (addPenalties_cons_eq_ok_iff hs).mpr ⟨part, q, k, hpart, hmerge, hrun⟩, hn⟩
  exact hsuffix cs [] m r (fun _ hd => hd) h0

section Result

omit [Scalar α]

variable {o : Outcome α σ}

lemma Outcome.exists_model (h : o.result.toOption.isSome = true) : ∃ m, o.result = .ok m := by
  cases hresult : o.result with
  | error f =>
    rw [hresult] at h
    cases h
  | ok m => exact ⟨m, rfl⟩

lemma Outcome.exists_refusal (h : o.result.toOption.isSome = false) : ∃ f, o.result = .error f := by
  cases hresult : o.result with
  | error f => exact ⟨f, rfl⟩
  | ok m =>
    rw [hresult] at h
    cases h

end Result

lemma run_of_addPenalties (hs : s.flaw = none)
    (h : addPenalties ask s p p.constraints (variablesModel p) ⟨0, [], o, []⟩ = (.ok m, r)) :
    run ask s p o =
      ⟨.ok m, r.labels, (r.report [finishedEvent p m r.labels]).events, r.oracle⟩ := by
  rw [run, hs]
  dsimp only
  rw [h]

lemma run_eq_ok (h : (run ask s p o).result = .ok m) : s.flaw = none ∧ ∃ r,
    addPenalties ask s p p.constraints (variablesModel p) ⟨0, [], o, []⟩ = (.ok m, r) ∧
      (run ask s p o).labels = r.labels := by
  cases hs : s.flaw with
  | some flaw =>
    rw [run, hs] at h
    cases h
  | none =>
    obtain ⟨x, r, hadd⟩ : ∃ x r, addPenalties ask s p p.constraints (variablesModel p)
      ⟨0, [], o, []⟩ = (x, r) := ⟨_, _, rfl⟩
    cases x with
    | error fault =>
      rw [run, hs] at h
      dsimp only at h
      rw [hadd] at h
      cases h
    | ok n =>
      rw [run_of_addPenalties hs hadd] at h ⊢
      obtain rfl : n = m := Except.ok.inj h
      exact ⟨rfl, r, hadd, rfl⟩

end Run

end QuadraticPenalty.Compilation
