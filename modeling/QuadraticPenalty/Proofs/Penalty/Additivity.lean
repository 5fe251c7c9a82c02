import QuadraticPenalty.Proofs.Grid.Answer
import QuadraticPenalty.Proofs.Penalty.Soundness

namespace QuadraticPenalty

namespace Compilation

open Scalar QuadraticModel Extended

variable {σ : Type} {ask : Oracle Extended σ} {s : Settings Extended} {p : Problem}
  {r r' : Progress Extended σ} {g γ δ : ℚ} {cs : List Constraint} {k : QuadraticModel ℚ}
  {c : Constraint}

def violations (cs : List Constraint) (x : Assignment) : ℕ :=
  cs.countP fun c => !c.scope.isEmpty && !c.accepts (c.tupleIn x)

lemma violations_append (cs : List Constraint) (c : Constraint) (x : Assignment) :
    violations (cs ++ [c]) x = violations cs x +
      if c.scope = [] ∨ c.accepts (c.tupleIn x) = true then 0 else 1 := by
  rw [violations, List.countP_append, List.countP_singleton, violations]
  congr 1
  by_cases hs : c.scope = []
  · simp [hs]
  · cases c.accepts (c.tupleIn x) <;> simp [hs]

/-- A sum of parts adds at least `γ` for each constraint that is violated, and where none is it adds
no more than `δ` for each constraint and the best values of the auxiliary labels. -/
structure Sums (p : Problem) (stem : String) (γ δ : ℚ) (cs : List Constraint)
    (r : Progress Extended σ) (k : QuadraticModel ℚ) : Prop where
  wellFormed : k.WellFormed
  vartype : k.vartype = p.vartype
  minted : r.Minted p stem
  labels : ∀ v ∈ k.labels, v ∈ p.labels ∨ v ∈ r.labels
  covers : ∀ v ∈ p.labels, v ∈ k.labels
  lower : ∀ x : Assignment, x.Covers p.vartype k.labels →
    (violations cs x : ℚ) * γ ≤ k.value x.reading
  completion : ∀ x : Assignment, x.Covers p.vartype p.labels → violations cs x = 0 →
    ∃ y : Assignment, (∀ v ∈ p.labels, y v = x v) ∧ y.Covers p.vartype k.labels ∧
      k.value y.reading ≤ cs.length * δ

lemma exact_variablesModel (p : Problem) :
    (variablesModel p : QuadraticModel ℚ).exact = variablesModel p := by
  refine QuadraticModel.ext rfl (SortedMap.ext ?_) rfl rfl
  simp only [QuadraticModel.exact, variablesModel, SortedMap.map, List.map_map]
  rfl

lemma labels_variablesModel {α : Type} [Scalar α] (p : Problem) :
    (variablesModel p : QuadraticModel α).labels = p.labels := SortedMap.keys_map _ _

lemma value_variablesModel (p : Problem) (x : String → ℚ) :
    (variablesModel p : QuadraticModel ℚ).value x = 0 := by
  have h0 : (zero : ℚ) = 0 := rfl
  have ht : (p.index.map fun _ _ => (0 : ℚ)).total x = 0 := by
    simp [SortedMap.total, SortedMap.map, Function.comp_def]
  simp only [value, variablesModel, empty, h0, ht]
  simp

lemma wellFormed_variablesModel (p : Problem) :
    (variablesModel p : QuadraticModel ℚ).WellFormed := by
  constructor <;> simp [variablesModel, empty]

lemma sums_variablesModel (p : Problem) (stem : String) (o : σ) :
    Sums p stem γ δ [] ⟨0, [], o, []⟩ (variablesModel p) := by
  have hlabels := labels_variablesModel (α := ℚ) p
  refine ⟨wellFormed_variablesModel p, rfl, Progress.Minted.start p stem o,
    fun v hv => .inl (hlabels ▸ hv), fun v hv => hlabels ▸ hv, fun x _ => ?_,
    fun x hx _ => ⟨x, fun _ _ => rfl, hlabels ▸ hx, ?_⟩⟩ <;> simp [value_variablesModel, violations]

lemma Sums.skip (h : Sums p s.stem γ δ cs r k) (hδ : 0 ≤ δ) (hc : c.scope = []) :
    Sums p s.stem γ δ (cs ++ [c]) (r.report [.vacuous c.name]) k := by
  have hv : ∀ x, violations (cs ++ [c]) x = violations cs x := fun x => by
    simp [violations_append, hc]
  refine ⟨h.wellFormed, h.vartype, h.minted, h.labels, h.covers, fun x hx => ?_, fun x hx h0 => ?_⟩
  · rw [hv]
    exact h.lower x hx
  · rw [hv] at h0
    obtain ⟨y, hyx, hy, hle⟩ := h.completion x hx h0
    refine ⟨y, hyx, hy, hle.trans ?_⟩
    rw [List.length_append, List.length_singleton]
    push_cast
    linarith

lemma Sums.exists_completion (h : Sums p s.stem γ δ cs r k) {made : List String}
    {part : QuadraticModel ℚ} (hl : ∀ v ∈ c.scope, v ∈ p.labels) (ht : c.vartype = p.vartype)
    (hmade : ∀ v ∈ made, v ∉ p.labels ∧ v ∉ r.labels) (hpart : Penalizes c made γ δ part)
    {x : Assignment} (hx : x.Covers p.vartype p.labels) (h0 : violations cs x = 0)
    (hacc : c.accepts (c.tupleIn x) = true) :
    ∃ w : Assignment, (∀ v ∈ p.labels, w v = x v) ∧ w.Covers p.vartype k.labels ∧
      w.Covers p.vartype part.labels ∧ k.value w.reading ≤ cs.length * δ ∧
      part.value w.reading ≤ δ := by
  have hscope : x.Covers c.vartype c.scope := fun v hv => ht ▸ hx v (hl v hv)
  obtain ⟨y, hyx, hy, hyle⟩ := h.completion x hx h0
  obtain ⟨z, hzx, hz, hzle⟩ := hpart.completion x hscope hacc
  have hkm : ∀ v ∈ k.labels, v ∉ made := fun v hv hm =>
    (h.labels v hv).elim (hmade v hm).1 (hmade v hm).2
  have hyz : ∀ v ∈ part.labels, v ∉ made → y v = z v := fun v hv hm => by
    have hvs := (hpart.labels v hv).resolve_right hm
    rw [hyx v (hl v hvs), hzx v hvs]
  obtain ⟨w, hwk, hwp⟩ := Assignment.exists_join hkm hyz
  refine ⟨w, fun v hv => ?_, fun v hv => ?_, fun v hv => ?_, ?_, ?_⟩
  · rw [hwk v (h.covers v hv), hyx v hv]
  · rw [hwk v hv]
    exact hy v hv
  · rw [hwp v hv]
    exact ht ▸ hz v hv
  · rwa [value_congr h.wellFormed fun v hv => Assignment.reading_congr (hwk v hv)]
  · rwa [value_congr hpart.wellFormed fun v hv => Assignment.reading_congr (hwp v hv)]

lemma Sums.add (h : Sums p s.stem γ δ cs r k) {made : List String} {part n : QuadraticModel ℚ}
    (hl : ∀ v ∈ c.scope, v ∈ p.labels) (ht : c.vartype = p.vartype) (hne : c.scope ≠ [])
    (hr : Extends p s r.labels made r') (hpart : Penalizes c made γ δ part)
    (hn : k.merge part = .ok n) : Sums p s.stem γ δ (cs ++ [c]) r' n := by
  obtain ⟨hlabels, hminted⟩ := hr
  obtain ⟨-, hnt, hnl, -⟩ := merge_frame hn
  have hsplit := hminted.nodup
  rw [hlabels] at hsplit
  have hmade : ∀ v ∈ made, v ∉ p.labels ∧ v ∉ r.labels := by
    intro v hv
    refine ⟨hminted.not_mem_labels (hlabels ▸ List.mem_append.mpr (.inr hv)), fun hm => ?_⟩
    exact (List.nodup_append.mp hsplit).2.2 v hm v hv rfl
  refine ⟨h.wellFormed.merge hpart.wellFormed hn, hnt.trans h.vartype, hminted, fun v hv => ?_,
    fun v hv => (hnl v).mpr (.inl (h.covers v hv)), fun x hx => ?_, fun x hx h0 => ?_⟩
  · rw [hlabels, List.mem_append]
    rcases (hnl v).mp hv with hv | hv
    · exact (h.labels v hv).imp_right .inl
    · rcases hpart.labels v hv with hv | hv
      exacts [.inl (hl v hv), .inr (.inr hv)]
  · have hk : x.Covers p.vartype k.labels := fun v hv => hx v ((hnl v).mpr (.inl hv))
    have hscope : x.Covers c.vartype c.scope := ht ▸ fun v hv => hk v (h.covers v (hl v hv))
    have hpl : x.Covers c.vartype part.labels := ht ▸ fun v hv => hx v ((hnl v).mpr (.inr hv))
    have hlow := h.lower x hk
    rw [value_merge hn, violations_append]
    cases hacc : c.accepts (c.tupleIn x) with
    | true =>
      have hpos := hpart.holding x hscope hpl hacc
      simp only [or_true, if_true, Nat.add_zero]
      linarith
    | false =>
      have hgap := hpart.violated x hscope hpl hacc
      simp only [hne, Bool.false_eq_true, or_self, if_false]
      push_cast
      linarith
  · rw [violations_append] at h0
    have hacc : c.accepts (c.tupleIn x) = true := by
      by_contra hnot
      simp [hne, hnot] at h0
    obtain ⟨w, hwx, hwk, hwp, hkle, hple⟩ := h.exists_completion hl ht hmade hpart hx (by omega) hacc
    refine ⟨w, hwx, fun v hv => ((hnl v).mp hv).elim (hwk v) (hwp v), ?_⟩
    rw [value_merge hn, List.length_append, List.length_singleton]
    push_cast
    linarith

lemma exists_gap (hs : s.flaw = none) : ∃ g : ℚ, s.gap = finite g ∧ 0 < g := by
  unfold Settings.flaw at hs
  split at hs
  · cases hs
  · next hok =>
    simp only [Bool.not_eq_true', Bool.not_eq_false, Bool.and_eq_true] at hok
    obtain ⟨g, hg⟩ := exists_rational hok.2
    rw [hg] at hok
    exact ⟨g, hg, of_decide_eq_true hok.1⟩

lemma sums_of_run {m : QuadraticModel Extended} {o : σ} (hp : p.Reachable) (hs : s.flaw = none)
    (hδ : 0 ≤ δ) (hask : ask.Sound δ) (h : (run ask s p o).result = .ok m) :
    ∃ (g : ℚ) (r : Progress Extended σ) (k : QuadraticModel ℚ), s.gap = finite g ∧ 0 < g ∧
      m = k.exact ∧ Sums p s.stem (g - tolerance) δ p.constraints r k := by
  obtain ⟨g, hg, hpos⟩ := exists_gap hs
  have hcoherent := hp.coherent
  obtain ⟨-, r, hrun, -⟩ := run_eq_ok h
  have hinduction := addPenalties_induction
    (motive := fun done m r => ∃ k : QuadraticModel ℚ, m = k.exact ∧
      Sums p s.stem (g - tolerance) δ done r k) ?_ ?_
    ⟨variablesModel p, (exact_variablesModel p).symm, sums_variablesModel p _ o⟩ hrun
  · obtain ⟨k, hk, hsums⟩ := hinduction
    exact ⟨g, r, k, hg, hpos, hk, hsums⟩
  · rintro done c m r hc hempty ⟨k, rfl, hk⟩
    exact ⟨k, rfl, hk.skip hδ hempty⟩
  · rintro done c m r part r' n hc hne ⟨k, rfl, hk⟩ hpenalty hmerge
    obtain ⟨made, k', hext, rfl, hpart⟩ := penalty_sound hask hδ hg (hcoherent.wellFormed c hc) hne
      (hcoherent.labelled c hc) hk.minted hpenalty
    have ht := hcoherent.vartype c hc hne
    obtain ⟨n', hn'⟩ := merge_isOk (hpart.vartype.trans (ht.trans hk.vartype.symm))
    obtain rfl : n = n'.exact := Except.ok.inj (hmerge.symm.trans (exact_merge hn'))
    exact ⟨n', rfl, hk.add (hcoherent.labelled c hc) ht hne hext hpart hn'⟩

end Compilation

def Problem.violationCount (p : Problem) (a : Assignment) : ℕ :=
  p.constraints.countP fun c => decide (c.holds a = .ok false)

namespace Compilation

open Scalar Extended

/-- Every constraint without variables allows the empty tuple. -/
def NoContradiction (p : Problem) : Prop :=
  ∀ c ∈ p.constraints, c.scope = [] → c.accepts [] = true

lemma violations_eq {p : Problem} {a : Assignment} (hp : p.Coherent) (hz : NoContradiction p)
    (ha : a.Covers p.vartype p.labels) : violations p.constraints a = p.violationCount a := by
  refine List.countP_congr fun c hc => ?_
  rw [Constraint.holds_eq (hp.covers ha hc)]
  by_cases hs : c.scope = []
  · have hacc : c.accepts (c.tupleIn a) = true := by
      rw [Constraint.tupleIn, hs]
      exact hz c hc hs
    simp [hs, hacc]
  · simp [hs]

/-- The energy of an assignment, for the best values of the auxiliary labels, is zero up to the error
of the oracle where all constraints hold, and grows by the gap with each that is violated. -/
theorem run_energy_bounds {σ : Type} (ask : Oracle Extended σ) (s : Settings Extended) (p : Problem)
    (o : σ) (δ : ℚ) (m : QuadraticModel Extended) (hp : p.Reachable) (hz : NoContradiction p)
    (hs : s.flaw = none) (hδ : 0 ≤ δ) (hask : ask.Sound δ) (h : (run ask s p o).result = .ok m) :
    m.IsFinite ∧ ∃ g, s.gap = finite g ∧
      ∀ a : Assignment, a.Covers p.vartype p.labels → ∃ e, IsLeast (m.energiesWith p.labels a) e ∧
        (p.holds a = .ok true → 0 ≤ e ∧ e ≤ p.constraints.length * δ) ∧
        (1 ≤ p.violationCount a → p.violationCount a * (g - tolerance) ≤ e) := by
  obtain ⟨g, r, k, hg, -, rfl, hk⟩ := sums_of_run hp hs hδ hask h
  have hcoherent := hp.coherent
  refine ⟨QuadraticModel.exact_isFinite k, g, hg, fun a ha => ?_⟩
  have hviolations := violations_eq hcoherent hz ha
  obtain ⟨e, he⟩ := QuadraticModel.exists_isLeast_energiesWith p.labels a hk.wellFormed
    fun v hv _ => hk.vartype ▸ ha v hv
  obtain ⟨x, hx, hxa, hxe⟩ := (QuadraticModel.mem_energiesWith hk.wellFormed).mp he.1
  rw [hk.vartype] at hx
  -- the violations are those of the completion that takes the least energy
  have hsame : violations p.constraints x = p.violationCount a := by
    rw [← hviolations]
    refine List.countP_congr fun c hc => ?_
    have htuple : c.tupleIn x = c.tupleIn a :=
      List.map_congr_left fun v hv => by rw [hxa v (hcoherent.labelled c hc v hv)]
    rw [htuple]
  have hlower := hk.lower x hx
  rw [hxe, hsame] at hlower
  refine ⟨e, he, fun hholds => ?_, fun _ => hlower⟩
  have hzero : p.violationCount a = 0 := by
    rw [← hviolations, violations, List.countP_eq_zero]
    intro c hc
    simp [(hcoherent.holds_iff ha).mp hholds c hc]
  rw [hzero, Nat.cast_zero, zero_mul] at hlower
  obtain ⟨y, hya, hy, hle⟩ := hk.completion a ha (hviolations.trans hzero)
  have hmem : k.value y.reading ∈ k.exact.energiesWith p.labels a :=
    (QuadraticModel.mem_energiesWith hk.wellFormed).mpr ⟨y, hk.vartype.symm ▸ hy, hya, rfl⟩
  exact ⟨hlower, (he.2 hmem).trans hle⟩

def threeEqual : Problem :=
  ((Problem.empty .spin).addConstraint
    ⟨"Constraint", .spin, ["a", "b", "c"], ⟨[[-1, -1, -1], [1, 1, 1]], by decide⟩⟩).addVariable "aux0"

lemma threeEqual_reachable : threeEqual.Reachable := by
  have hadd : (Problem.empty .spin).add
      (.configurations [[-1, -1, -1], [1, 1, 1]] ["a", "b", "c"]) = .ok
      ((Problem.empty .spin).addConstraint
        ⟨"Constraint", .spin, ["a", "b", "c"], ⟨[[-1, -1, -1], [1, 1, 1]], by decide⟩⟩) := by cbv
  exact .addVariable _ (.add (.empty .spin) (s := .configurations _ _) trivial hadd)

def uniform : Grid Extended where
  linear := (zero, zero)
  coupling := (ofInt (-1), ofInt (-1))
  step := one
  scanLimit := 1
  schedule := .default

def tied (u v : String) : Constraint :=
  ⟨"Constraint", .spin, [u, v], ⟨[[-1, -1], [1, 1]], by decide⟩⟩

def fourEqual : Problem := threeEqual.addConstraint (tied "c" "d")

lemma fourEqual_reachable : fourEqual.Reachable := by
  have hadd : threeEqual.add (.configurations [[-1, -1], [1, 1]] ["c", "d"]) = .ok fourEqual := by cbv
  exact .add threeEqual_reachable (s := .configurations _ _) trivial hadd

def narrow : Settings Extended := ⟨.finite 3, 3, "aux"⟩

theorem run_energy_bounds_of_fourEqual :
    ∃ m, (run (uniform.oracle Grid.still) narrow fourEqual ()).result = .ok m ∧
      (∃ e, IsLeast (m.energiesWith fourEqual.labels (fun _ => some 1)) e ∧
        0 ≤ e ∧ e ≤ 2 * tolerance) ∧
      ∃ e, IsLeast (m.energiesWith fourEqual.labels
        (fun v => if v = "c" then some (-1) else some 1)) e ∧ 2 * (3 - tolerance) ≤ e := by
  obtain ⟨m, hm⟩ := Outcome.exists_model (o := run (uniform.oracle Grid.still) narrow fourEqual ())
    (by decide +kernel)
  have hz : NoContradiction fourEqual := by
    intro c hc hs
    have hne : ∀ c ∈ fourEqual.constraints, c.scope ≠ [] := by decide
    exact absurd hs (hne c hc)
  obtain ⟨-, g, hg, hall⟩ := run_energy_bounds (uniform.oracle Grid.still) narrow fourEqual ()
    tolerance m fourEqual_reachable hz (by decide) (div_nonneg zero_le_one (by decide))
    (Grid.oracle_sound (by cbv) _) hm
  obtain rfl : 3 = g := finite.inj hg
  obtain ⟨e, he, hholds, -⟩ := hall (fun _ => some 1) fun v _ => ⟨1, by decide, rfl⟩
  obtain ⟨f, hf, -, hviolated⟩ := hall (fun v => if v = "c" then some (-1) else some 1) fun v _ => by
    dsimp only
    split
    exacts [⟨-1, by decide, rfl⟩, ⟨1, by decide, rfl⟩]
  have hcount : fourEqual.violationCount (fun v => if v = "c" then some (-1) else some 1) = 2 := by
    decide +kernel
  rw [hcount] at hviolated
  exact ⟨m, hm, ⟨e, he, hholds (by decide +kernel)⟩, f, hf, hviolated (by decide)⟩

end Compilation

end QuadraticPenalty
