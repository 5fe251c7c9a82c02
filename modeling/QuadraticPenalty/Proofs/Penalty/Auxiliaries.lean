import QuadraticPenalty.Proofs.Penalty.Requests

namespace QuadraticPenalty

open Scalar

def Request.auxiliaries {α : Type} (q : Request α) : List String :=
  q.graph.nodes.filter fun v => decide (v ∉ q.decision)

namespace Compilation

section Labels

variable {α σ : Type} {s : Settings α} {p : Problem} {c : Constraint} {stem v : String}
  {aux base : List String}

lemma freeNumber_isLeast (p : Problem) (stem : String) (i : ℕ) :
    IsLeast {j | i ≤ j ∧ isFree p stem j = true} (freeNumber p stem i) := by
  obtain ⟨hle, -⟩ := firstFree_le (fun j => p.index.contains (labelOf stem j)) p.index.size i
  refine ⟨⟨hle, by simp [isFree, freeNumber_free]⟩, fun j hj => ?_⟩
  by_contra hlt
  have htaken := taken_of_lt_firstFree _ p.index.size hj.1 (Nat.lt_of_not_le hlt)
  have hfree := hj.2
  rw [isFree, htaken] at hfree
  cases hfree

lemma mem_auxiliaries (h : v ∈ (requestFor s c (c.scope ++ aux)).auxiliaries) : v ∈ aux := by
  obtain ⟨hnode, hnot⟩ := List.mem_filter.mp h
  exact (List.mem_append.mp hnode).resolve_left (of_decide_eq_true hnot)

def Spans (c : Constraint) (made : List String) (part : QuadraticModel α) : Prop :=
  ∀ v, v ∈ part.labels ↔ v ∈ c.scope ∨ v ∈ made

variable {part : QuadraticModel α}

lemma spans_of_frames (h : c.Frames part) : Spans c [] part := fun v => (h.labels v).trans (by simp)

variable [Scalar α] {ask : Oracle α σ} {cs : List Constraint} {o : σ} {fault : Option Fault}
  {mades : List (List String)} {talks : List (List (Request α))} {r r' : Progress α σ}

lemma Conducts.disjoint (h : Conducts ask s cs o mades talks fault) (hn : mades.flatten.Nodup) :
    talks.Pairwise fun qs rs => ∀ q ∈ qs, ∀ r ∈ rs, q.auxiliaries.Disjoint r.auxiliaries := by
  induction h with
  | done => exact .nil
  | stops => exact List.pairwise_singleton ..
  | goes hcourse hrest ih =>
    obtain ⟨-, hlater, hapart⟩ := List.nodup_append.mp hn
    refine .cons (fun rs hrs q hq r hr v hv hw => ?_) (ih hlater)
    obtain ⟨aux, haux, rfl⟩ := hcourse.exists_request hq
    obtain ⟨d, -, aux', haux', rfl⟩ := hrest.exists_request (List.mem_flatten_of_mem hrs hr)
    exact hapart v (haux.subset (mem_auxiliaries hv)) v (haux'.subset (mem_auxiliaries hw)) rfl

lemma grow_spans (hask : ask.Covers) {left : ℕ} (hr : r.labels = base ++ aux)
    (h : grow ask s p c left (c.scope ++ aux) r = (.ok part, r')) :
    ∃ made, r'.labels = base ++ made ∧ Spans c made part := by
  induction left using Nat.strong_induction_on generalizing aux r with
  | _ left ih =>
    obtain ⟨found, hfound, -, rfl, hlabels, -⟩ | ⟨n, q, rfl, hlabels, -, hgrow⟩ := grow_eq_ok h
    · obtain ⟨hw, hl⟩ := hask _ _ found hfound
      refine ⟨aux, hlabels.trans hr, fun v => ?_⟩
      rw [(QuadraticModel.toVartype_frame hw c.vartype).2.1, hl]
      exact List.mem_append
    · rw [List.append_assoc] at hgrow
      refine ih n (Nat.lt_succ_self n) ?_ hgrow
      change q.labels ++ _ = _
      rw [hlabels, hr, List.append_assoc]
      rfl

lemma penalty_spans (hask : ask.Covers) (hc : c.WellFormed)
    (h : penalty ask s p c r = (.ok part, r')) :
    ∃ made, r'.labels = r.labels ++ made ∧ Spans c made part := by
  obtain ⟨-, hpart⟩ := penalty_eq_ok_iff.mp h
  cases hpart with
  | blank hfull =>
    exact ⟨[], (List.append_nil _).symm, spans_of_frames (Constraint.frames_blankModel c)⟩
  | closedForm hfull hgap hpart =>
    obtain ⟨k, hk, hframes⟩ :=
      Constraint.closedForm?_frames (α := α) hc (Constraint.size_of_closedForm? hpart)
    obtain rfl : k = part := Except.ok.inj (Option.some.inj (hk.symm.trans hpart))
    exact ⟨[], (List.append_nil _).symm, spans_of_frames hframes⟩
  | searched hfull hnone hsearch =>
    rw [search, ← List.append_nil c.scope] at hsearch
    exact grow_spans (r := r.report _) hask (List.append_nil _).symm hsearch

lemma labels_of_run {m : QuadraticModel α} (hask : ask.Covers) (hp : p.Reachable)
    (h : (run ask s p o).result = .ok m) (v : String) :
    v ∈ m.labels ↔ v ∈ p.labels ∨ v ∈ (run ask s p o).labels := by
  have hcoherent := hp.coherent
  obtain ⟨-, r, hadd, hlabels⟩ := run_eq_ok h
  rw [hlabels]
  refine addPenalties_induction
    (motive := fun _ m r => ∀ v, v ∈ m.labels ↔ v ∈ p.labels ∨ v ∈ r.labels)
    (fun _ _ _ _ _ _ h => h) (fun done c m r part r' n hc _ h hpenalty hmerge v => ?_)
    (fun v => ?_) hadd v
  · obtain ⟨made, hlabels, hspans⟩ := penalty_spans hask (hcoherent.wellFormed c hc) hpenalty
    have hscope := hcoherent.labelled c hc v
    rw [(QuadraticModel.merge_frame hmerge).2.2.1, h, hspans v, hlabels, List.mem_append]
    tauto
  · rw [labels_variablesModel]
    simp

omit [Scalar α] in
lemma size_of_labels {m : QuadraticModel α} {labels : List String} (hn : labels.Nodup)
    (hdisjoint : ∀ v ∈ labels, v ∉ p.labels)
    (h : ∀ v, v ∈ m.labels ↔ v ∈ p.labels ∨ v ∈ labels) :
    m.linear.size = p.index.size + labels.length := by
  have hnodup : (p.labels ++ labels).Nodup := by
    refine List.nodup_append.mpr ⟨p.index.keys_nodup, hn, fun u hu v hv he => ?_⟩
    exact hdisjoint v hv (he ▸ hu)
  have hperm : m.labels.Perm (p.labels ++ labels) :=
    (List.perm_ext_iff_of_nodup m.linear.keys_nodup hnodup).mpr fun v =>
      (h v).trans List.mem_append.symm
  simpa [QuadraticModel.labels, Problem.labels] using hperm.length_eq

end Labels

/-- In a whole run, the labels that are made are the first that are no variables, in their order; no two
constraints share one, and with the oracle that searches a grid all of them are labels of the model. -/
theorem run_labels {α σ : Type} [ExtendedScalar α] (ask : Oracle α σ) (s : Settings α) (p : Problem)
    (o : σ) (hp : p.Reachable) (hs : s.flaw = none) :
    (∀ i, IsLeast {j | i ≤ j ∧ isFree p s.stem j = true} (freeNumber p s.stem i)) ∧
    (∃ n, (run ask s p o).labels = ((List.range n).filter (isFree p s.stem)).map (labelOf s.stem)) ∧
    (∀ q ∈ asked ask s p o, ∀ v ∈ q.auxiliaries, v ∈ (run ask s p o).labels ∧ v ∉ p.labels) ∧
    (∃ mades talks fault, Conducts ask s p.constraints o mades talks fault ∧
      mades.flatten = (run ask s p o).labels ∧ talks.flatten = asked ask s p o ∧
      talks.Pairwise fun qs rs => ∀ q ∈ qs, ∀ r ∈ rs, q.auxiliaries.Disjoint r.auxiliaries) ∧
    ∀ {τ : Type} (g : Grid α) (c : Chance α τ) (m : QuadraticModel α),
      (run (g.oracle c) s p ()).result = .ok m →
      (∀ v, v ∈ m.labels ↔ v ∈ p.labels ∨ v ∈ (run (g.oracle c) s p ()).labels) ∧
      m.linear.size = p.index.size + (run (g.oracle c) s p ()).labels.length := by
  obtain ⟨r, mades, talks, fault, hminted, hmades, hconducts, hlabels, hasked, -⟩ :=
    run_conducts ask o hp hs
  have hrun : (run ask s p o).labels = r.labels := hlabels.trans hmades.symm
  refine ⟨freeNumber_isLeast p s.stem, ⟨r.nextNumber, hrun.trans hminted⟩, fun q hq v hv => ?_,
    ⟨mades, talks, fault, hconducts, hlabels.symm, hasked.symm, ?_⟩, fun g c m h => ?_⟩
  · rw [hasked] at hq
    obtain ⟨d, -, aux, haux, rfl⟩ := hconducts.exists_request hq
    have hmade : v ∈ r.labels := hmades ▸ haux.subset (mem_auxiliaries hv)
    exact ⟨hrun ▸ hmade, hminted.not_mem_labels hmade⟩
  · exact hconducts.disjoint (hmades ▸ hminted.nodup)
  · obtain ⟨r, mades, -, -, hminted, hmades, -, hlabels, -⟩ := run_conducts (g.oracle c) () hp hs
    have hrun : (run (g.oracle c) s p ()).labels = r.labels := hlabels.trans hmades.symm
    have hall := labels_of_run (Grid.oracle_covers g c) hp h
    refine ⟨hall, size_of_labels (hrun ▸ hminted.nodup) (fun v hv => ?_) hall⟩
    exact hminted.not_mem_labels (hrun ▸ hv)

def wide : Settings Extended := ⟨.finite 5, 4, "aux"⟩

theorem run_labels_of_threeEqual :
    ∃ m, (run (uniform.oracle Grid.still) wide threeEqual ()).result = .ok m ∧
      (∀ v, v ∈ m.labels ↔ v ∈ ["a", "aux0", "b", "c"] ∨ v ∈ ["aux1"]) ∧ m.linear.size = 5 := by
  have hmade : (run (uniform.oracle Grid.still) wide threeEqual ()).labels = ["aux1"] := by
    decide +kernel
  have hsome : (run (uniform.oracle Grid.still) wide threeEqual ()).result.toOption.isSome = true := by
    decide +kernel
  have hvariables : threeEqual.labels = ["a", "aux0", "b", "c"] := by decide
  obtain ⟨-, -, -, -, hmodel⟩ := run_labels (uniform.oracle Grid.still) wide threeEqual ()
    threeEqual_reachable (by decide)
  obtain ⟨m, hm⟩ : ∃ m, (run (uniform.oracle Grid.still) wide threeEqual ()).result = .ok m := by
    cases hresult : (run (uniform.oracle Grid.still) wide threeEqual ()).result with
    | error refusal =>
      rw [hresult] at hsome
      cases hsome
    | ok m => exact ⟨m, rfl⟩
  obtain ⟨hlabels, hsize⟩ := hmodel uniform Grid.still m hm
  rw [hmade, hvariables] at hlabels
  rw [hmade] at hsize
  exact ⟨m, hm, hlabels, hsize⟩

end Compilation

end QuadraticPenalty
