import QuadraticPenalty.Penalty.Compilation
import QuadraticPenalty.Proofs.Penalty.ClosedForm
import QuadraticPenalty.Proofs.Penalty.Contract
import QuadraticPenalty.Proofs.Penalty.FreshLabels
import QuadraticPenalty.Proofs.Penalty.Growth
import QuadraticPenalty.Proofs.Problem.Coherence

namespace QuadraticPenalty.Compilation

open Scalar QuadraticModel Extended

lemma tolerance_eq : (tolerance : Extended) = finite tolerance := rfl

variable {σ : Type} {ask : Oracle Extended σ} {s : Settings Extended} {p : Problem}
  {c : Constraint} {r r' : Progress Extended σ} {g δ : ℚ} {aux base : List String}
  {part : QuadraticModel Extended}

/-- A part adds nothing where its constraint holds, up to `δ` and for the best values of the
auxiliary labels, and at least `γ` elsewhere. -/
structure Penalizes (c : Constraint) (aux : List String) (γ δ : ℚ) (k : QuadraticModel ℚ) : Prop where
  wellFormed : k.WellFormed
  vartype : k.vartype = c.vartype
  labels : ∀ v ∈ k.labels, v ∈ c.scope ∨ v ∈ aux
  holding : ∀ x : Assignment, x.Covers c.vartype c.scope → x.Covers c.vartype k.labels →
    c.accepts (c.tupleIn x) = true → 0 ≤ k.value x.reading
  violated : ∀ x : Assignment, x.Covers c.vartype c.scope → x.Covers c.vartype k.labels →
    c.accepts (c.tupleIn x) = false → γ ≤ k.value x.reading
  completion : ∀ x : Assignment, x.Covers c.vartype c.scope → c.accepts (c.tupleIn x) = true →
    ∃ y : Assignment, (∀ v ∈ c.scope, y v = x v) ∧ y.Covers c.vartype k.labels ∧
      k.value y.reading ≤ δ

lemma penalizes_blankModel (hc : c.WellFormed) (h : c.isFull = true) (hδ : 0 ≤ δ) :
    Penalizes c [] g δ c.blankModel := by
  obtain ⟨hw, ht, hl⟩ := Constraint.frames_blankModel (α := ℚ) c
  refine ⟨hw, ht, fun v hv => .inl ((hl v).mp hv), fun x _ _ _ => ?_, fun x hx _ hnot => ?_,
    fun x hx _ => ⟨x, fun _ _ => rfl, fun v hv => hx v ((hl v).mp hv), ?_⟩⟩
  · rw [Constraint.value_blankModel]
  · rw [Constraint.accepts_of_isFull hc h (Constraint.tupleIn_isTuple hx)] at hnot
    cases hnot
  · rwa [Constraint.value_blankModel]

lemma penalizes_closedForm (hc : c.WellFormed) {k : QuadraticModel ℚ} (hk : c.Frames k)
    (hv : ∀ a : Assignment, a.Covers c.vartype c.scope →
      k.value a.reading = 2 * (c.factors.countP (c.misses a) : ℚ)) (hg : g ≤ 2) (hδ : 0 ≤ δ) :
    Penalizes c [] g δ k := by
  refine ⟨hk.wellFormed, hk.vartype, fun v hm => .inl ((hk.labels v).mp hm), fun x hx _ _ => ?_,
    fun x hx _ hnot => ?_,
    fun x hx hacc => ⟨x, fun _ _ => rfl, fun v hm => hx v ((hk.labels v).mp hm), ?_⟩⟩
  · rw [hv x hx]
    positivity
  · have hpos : 0 < c.factors.countP (c.misses x) := by
      rw [Nat.pos_iff_ne_zero, ne_eq, Constraint.countP_misses_eq_zero_iff hc hx, hnot]
      exact Bool.false_ne_true
    have hone : (1 : ℚ) ≤ (c.factors.countP (c.misses x) : ℚ) := by exact_mod_cast hpos
    rw [hv x hx]
    linarith
  · have hzero := (Constraint.countP_misses_eq_zero_iff hc hx).mpr hacc
    simpa [hv x hx, hzero] using hδ

lemma isLeast_energiesAt {nodes : List String} {found : PenaltyModel Extended} {k : QuadraticModel ℚ}
    (hk : found.model.toVartype c.vartype = k.exact) (hw : k.WellFormed) (ht : k.vartype = c.vartype)
    {x : Assignment} (hx : x.Covers c.vartype c.scope) {e : ℚ}
    (h : IsLeast (found.energiesAt (requestFor s c nodes) (c.tupleIn x)) e) :
    (∃ y : Assignment, (∀ v ∈ c.scope, y v = x v) ∧ y.Covers c.vartype k.labels ∧
      k.value y.reading = e) ∧
    (x.Covers c.vartype k.labels → e ≤ k.value x.reading) := by
  have hagree : ∀ y : Assignment,
      (∀ v ∈ c.scope, y v = Assignment.ofLists c.scope (c.tupleIn x) v) ↔ ∀ v ∈ c.scope, y v = x v :=
    fun y => forall₂_congr fun v hv => by rw [Constraint.tupleIn, hx.ofLists_eq hv]
  change IsLeast ((found.model.toVartype c.vartype).energiesWith c.scope _) e at h
  rw [hk] at h
  obtain ⟨y, hy, hyx, he⟩ := (mem_energiesWith hw).mp h.1
  refine ⟨⟨y, (hagree y).mp hyx, ht ▸ hy, he⟩, fun hxl => h.2 ((mem_energiesWith hw).mpr ?_)⟩
  exact ⟨x, ht.symm ▸ hxl, (hagree x).mpr fun _ _ => rfl, rfl⟩

lemma le_of_meetsGap (hs : s.gap = finite g) {found : PenaltyModel Extended}
    (hgap : meetsGap s found = true) {e : ℚ} (he : Scalar.le found.gap (finite e) = true) :
    g - tolerance ≤ e := by
  rw [meetsGap, hs, tolerance_eq] at hgap
  cases hfound : found.gap with
  | finite h =>
    rw [hfound] at hgap he
    rw [sub_eq_add_neg]
    exact (of_decide_eq_true hgap).trans (of_decide_eq_true he)
  | infinity =>
    rw [hfound] at he
    cases he
  | negInfinity =>
    rw [hfound] at hgap
    cases hgap
  | undefined =>
    rw [hfound] at hgap
    cases hgap

lemma penalizes_of_realizes (hs : s.gap = finite g) {nodes : List String}
    (hnodes : ∀ v ∈ nodes, v ∈ c.scope ∨ v ∈ aux) {found : PenaltyModel Extended}
    (hf : found.Realizes (requestFor s c nodes) δ) (hgap : meetsGap s found = true) :
    ∃ k : QuadraticModel ℚ, found.model.toVartype c.vartype = k.exact ∧
      Penalizes c aux (g - tolerance) δ k := by
  obtain ⟨m, hm⟩ := hf.isFinite.exists_exact
  have hmw : m.WellFormed := exact_wellFormed.mp (hm ▸ hf.wellFormed)
  have hk : found.model.toVartype c.vartype = (m.toVartype c.vartype).exact := by
    rw [exact_toVartype, hm]
  obtain ⟨ht, hl, -⟩ := toVartype_frame hmw c.vartype
  have hkw := hmw.toVartype c.vartype
  refine ⟨m.toVartype c.vartype, hk, hkw, ht, fun v hv => hnodes v ?_, ?_, ?_, ?_⟩
  · have hmv := (hl v).mp hv
    rw [← exact_labels, hm] at hmv
    exact hf.labels v hmv
  · intro x hx hxl hacc
    obtain ⟨e, he, h0, -⟩ := hf.feasible (c.tupleIn x) (Constraint.accepts_iff.mp hacc)
    exact h0.trans ((isLeast_energiesAt hk hkw ht hx he).2 hxl)
  · intro x hx hxl hnot
    have hinfeasible : c.tupleIn x ∉ c.configurations := by simpa [Constraint.accepts] using hnot
    obtain ⟨e, he, hfe⟩ := hf.infeasible (c.tupleIn x) (Constraint.tupleIn_isTuple hx) hinfeasible
    exact (le_of_meetsGap hs hgap hfe).trans ((isLeast_energiesAt hk hkw ht hx he).2 hxl)
  · intro x hx hacc
    obtain ⟨e, he, -, hδ⟩ := hf.feasible (c.tupleIn x) (Constraint.accepts_iff.mp hacc)
    obtain ⟨y, hyx, hyl, rfl⟩ := (isLeast_energiesAt hk hkw ht hx he).1
    exact ⟨y, hyx, hyl, hδ⟩

lemma requestFor_wellFormed {α : Type} {s : Settings α} (hc : c.WellFormed) (hne : c.scope ≠ [])
    (hn : (c.scope ++ aux).Nodup) : (requestFor s c (c.scope ++ aux)).WellFormed where
  nodes := hn
  edges _ he := Graph.mem_of_mem_pairs he
  nodup := hc.1
  decision _ hv := List.mem_append.mpr (.inl hv)
  nonempty := hc.2.2 hne
  tuples _ hy := hc.isTuple hy

lemma Progress.Minted.of_eq (h : r.Minted p s.stem) (hl : r'.labels = r.labels)
    (hn : r'.nextNumber = r.nextNumber) : r'.Minted p s.stem := by
  rw [Progress.Minted, hl, hn]
  exact h

def Extends (p : Problem) (s : Settings Extended) (base aux : List String)
    (r : Progress Extended σ) : Prop :=
  r.labels = base ++ aux ∧ r.Minted p s.stem

lemma Extends.nodup (h : Extends p s base aux r) (hc : c.scope.Nodup)
    (hl : ∀ v ∈ c.scope, v ∈ p.labels) : (c.scope ++ aux).Nodup := by
  obtain ⟨hr, hm⟩ := h
  have hlabels := hm.nodup
  rw [hr] at hlabels
  refine List.nodup_append.mpr ⟨hc, (List.nodup_append.mp hlabels).2.1, fun u hu v hv he => ?_⟩
  exact hm.not_mem_labels (hr ▸ List.mem_append.mpr (.inr hv)) (he ▸ hl u hu)

lemma grow_sound (hask : ask.Sound δ) (hs : s.gap = finite g) (hc : c.WellFormed) (hne : c.scope ≠ [])
    (hl : ∀ v ∈ c.scope, v ∈ p.labels) {left : ℕ} (hr : Extends p s base aux r)
    (h : grow ask s p c left (c.scope ++ aux) r = (.ok part, r')) :
    ∃ made k, Extends p s base made r' ∧ part = k.exact ∧ Penalizes c made (g - tolerance) δ k := by
  -- a refusal leaves one label more on the nodes and one fewer to add
  induction left using Nat.strong_induction_on generalizing aux r with
  | _ left ih =>
    rcases grow_eq_ok h with ⟨found, hfound, hgap, rfl, hlabels, hnumber⟩ |
      ⟨n, q, rfl, hlabels, hnumber, hgrow⟩
    · have hfinite : isFinite (requestFor s c (c.scope ++ aux)).gap = true := by
        change isFinite s.gap = true
        rw [hs]
        rfl
      obtain ⟨k, hk, hp⟩ := penalizes_of_realizes hs (fun v hv => List.mem_append.mp hv)
        (hask _ _ found (requestFor_wellFormed hc hne (hr.nodup hc.1 hl)) hfinite hfound) hgap
      exact ⟨aux, k, ⟨hlabels.trans hr.1, hr.2.of_eq hlabels hnumber⟩, hk, hp⟩
    · obtain ⟨l, r₁, hfresh, hmade, hminted, -⟩ := (hr.2.of_eq hlabels hnumber).freshLabel
      rw [hfresh, List.append_assoc] at hgrow
      refine ih n (Nat.lt_succ_self n) ⟨?_, hminted⟩ hgrow
      rw [hmade, hlabels, hr.1, List.append_assoc]

lemma penalty_sound (hask : ask.Sound δ) (hδ : 0 ≤ δ) (hs : s.gap = finite g) (hc : c.WellFormed)
    (hne : c.scope ≠ []) (hl : ∀ v ∈ c.scope, v ∈ p.labels) (hr : r.Minted p s.stem)
    (h : penalty ask s p c r = (.ok part, r')) :
    ∃ made k, Extends p s r.labels made r' ∧ part = k.exact ∧
      Penalizes c made (g - tolerance) δ k := by
  obtain ⟨-, hpart⟩ := penalty_eq_ok_iff.mp h
  cases hpart with
  | blank hfull =>
    exact ⟨[], c.blankModel, ⟨(List.append_nil _).symm, hr⟩, (Constraint.exact_blankModel c).symm,
      penalizes_blankModel hc hfull hδ⟩
  | closedForm hfull hgap hpart =>
    have htwo : g - tolerance ≤ 2 := by
      rw [hs] at hgap
      have hle : g ≤ two + tolerance := of_decide_eq_true hgap
      have h2 : (two : ℚ) = 2 := rfl
      rw [h2] at hle
      linarith
    obtain ⟨k, hk, hframes, hvalue⟩ :=
      Constraint.closedForm?_eq_some hc (Constraint.size_of_closedForm? hpart)
    exact ⟨[], k, ⟨(List.append_nil _).symm, hr⟩,
      Except.ok.inj (Option.some.inj (hpart.symm.trans hk)),
      penalizes_closedForm hc hframes hvalue htwo hδ⟩
  | searched hfull hnone hsearch =>
    rw [search, ← List.append_nil c.scope] at hsearch
    exact grow_sound (r := r.report _) hask hs hc hne hl ⟨(List.append_nil _).symm, hr⟩ hsearch

end QuadraticPenalty.Compilation
