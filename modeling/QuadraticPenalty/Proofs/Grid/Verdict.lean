import QuadraticPenalty.Proofs.Grid.Covering
import QuadraticPenalty.Proofs.Grid.Scan

namespace QuadraticPenalty

open Scalar Extended

namespace Grid

variable {g : Grid Extended} {G : Graph} {range : Extended × Extended} {step : Extended} {m n k : ℕ}

/-- The levels of a range, before their number is put into a word. -/
def levelCount (range : Extended × Extended) (step : Extended) : ℕ :=
  ExtendedScalar.floor ((range.2 - range.1) / step + tolerance) + 1

def pointsOver (g : Grid Extended) (G : Graph) : ℕ :=
  levelCount g.linear g.step ^ G.nodes.length * levelCount g.coupling g.step ^ G.edges.length

lemma levelsOf_eq (h : levelCount range step < 2 ^ 64) : levelsOf range step = levelCount range step := by
  have hfloor : ExtendedScalar.floor ((range.2 - range.1) / step + tolerance) ≤ Nat.pow 2 64 - 1 :=
    Nat.le_sub_one_of_lt (Nat.lt_of_succ_lt h)
  rw [levelsOf, min_eq_left hfloor]
  exact Nat.mod_eq_of_lt h

lemma levelCount_lt (hn : n ≠ 0) (hk : 0 < k) (h : levelCount range step ^ n * k < 2 ^ 64) :
    levelCount range step < 2 ^ 64 := calc
  levelCount range step ≤ levelCount range step ^ n := Nat.le_self_pow hn _
  _ ≤ levelCount range step ^ n * k := Nat.le_mul_of_pos_right _ hk
  _ < 2 ^ 64 := h

lemma linearLevels_eq (h : g.pointsOver G < 2 ^ 64) (hn : G.nodes.length ≠ 0) :
    g.linearLevels = levelCount g.linear g.step :=
  levelsOf_eq (levelCount_lt hn (Nat.pow_pos (Nat.succ_pos _)) h)

lemma couplingLevels_eq (h : g.pointsOver G < 2 ^ 64) (hn : G.edges.length ≠ 0) :
    g.couplingLevels = levelCount g.coupling g.step := by
  rw [pointsOver, Nat.mul_comm] at h
  exact levelsOf_eq (levelCount_lt hn (Nat.pow_pos (Nat.succ_pos _)) h)

lemma pow_congr_of_ne_zero (h : n ≠ 0 → m = k) : m ^ n = k ^ n := by
  by_cases hn : n = 0
  · rw [hn, pow_zero, pow_zero]
  · rw [h hn]

lemma levels_pow_mul (h : g.pointsOver G < 2 ^ 64) :
    g.linearLevels ^ G.nodes.length * g.couplingLevels ^ G.edges.length = g.pointsOver G :=
  congrArg₂ _ (pow_congr_of_ne_zero (linearLevels_eq h)) (pow_congr_of_ne_zero (couplingLevels_eq h))

end Grid

namespace Landscape

variable {g : Grid Extended} {r : Request Extended} {γ ground : ℚ} {digits : List ℕ}
  {biases : List ℚ} {e : List ℤ → ℚ}

def infeasible (r : Request Extended) : List (List ℤ) :=
  (r.vartype.tuples r.decision.length).filter fun c => !decide (c ∈ r.feasible)

lemma mem_infeasible {c : List ℤ} :
    c ∈ infeasible r ↔ r.vartype.IsTuple r.decision.length c ∧ c ∉ r.feasible := by
  simp [infeasible]

/-- How a point is judged: by the least energies `e` of the tuples under its biases. -/
structure Judged (g : Grid Extended) (r : Request Extended) (γ : ℚ) (digits : List ℕ)
    (biases : List ℚ) (ground : ℚ) (e : List ℤ → ℚ) : Prop where
  size : r.graph.nodes.length ≤ biases.length
  values : (ofWellFormed g r).values digits = biases.map finite
  isLeast : ∀ c, r.vartype.IsTuple r.decision.length c → IsLeast (energiesAt r biases c) (e c)
  isLeast_ground : IsLeast (e '' {c | c ∈ r.feasible}) ground
  ground_eq : ((ofWellFormed g r).qualityAt digits).ground = finite ground
  gap_eq : ((ofWellFormed g r).qualityAt digits).gap =
    minimum ((infeasible r).map fun c => e c - ground)
  within : ((ofWellFormed g r).qualityAt digits).isValid = true →
    ∀ c ∈ r.feasible, e c ≤ ground + tolerance
  beyond : ((ofWellFormed g r).qualityAt digits).isValid = true →
    ∀ c ∈ infeasible r, ground + γ - tolerance ≤ e c

def feasibleTuples (r : Request Extended) : List (List ℤ) :=
  (r.vartype.tuples r.decision.length).filter fun c => decide (c ∈ r.feasible)

lemma mem_feasibleTuples (hr : r.WellFormed) {c : List ℤ} : c ∈ feasibleTuples r ↔ c ∈ r.feasible := by
  simp only [feasibleTuples, List.mem_filter, Vartype.mem_tuples, decide_eq_true_eq,
    and_iff_right_iff_imp]
  exact hr.tuples c

lemma isLeast_feasibleTuples (hr : r.WellFormed)
    (h : IsLeast {x | x ∈ (feasibleTuples r).map e} ground) :
    IsLeast (e '' {c | c ∈ r.feasible}) ground := by
  have himage : {x | x ∈ (feasibleTuples r).map e} = e '' {c | c ∈ r.feasible} := by
    ext x
    simp only [Set.mem_ofPred_eq, List.mem_map, Set.mem_image, mem_feasibleTuples hr]
  exact himage ▸ h

def loss (r : Request Extended) (γ ground : ℚ) (e : List ℤ → ℚ) : ℚ :=
  ((feasibleTuples r).map fun c => e c - ground).sum +
    ((infeasible r).map fun c => max (ground + γ - e c) 0).sum

lemma exists_quality (hr : r.WellFormed) (hγ : r.gap = finite γ)
    (hvalues : (ofWellFormed g r).values digits = biases.map finite) : ∃ ground e,
      (∀ c, r.vartype.IsTuple r.decision.length c → IsLeast (energiesAt r biases c) (e c)) ∧
      IsLeast (e '' {c | c ∈ r.feasible}) ground ∧
      ((ofWellFormed g r).qualityAt digits).ground = finite ground ∧
      ((ofWellFormed g r).qualityAt digits).gap =
        minimum ((infeasible r).map fun c => e c - ground) ∧
      ((ofWellFormed g r).qualityAt digits).cost = finite (loss r γ ground e) := by
  obtain ⟨e, hleast, hlow⟩ := lowest_energyTable (g := g) hr biases
  have hne : feasibleTuples r ≠ [] := by
    obtain ⟨c, hc⟩ := List.exists_mem_of_ne_nil _ hr.nonempty
    exact List.ne_nil_of_mem ((mem_feasibleTuples hr).mpr hc)
  have hquality := quality_eq (l := ofWellFormed g r) (γ := γ) hlow rfl hγ hne
  rw [← energies_eq hr.nodes hvalues] at hquality
  obtain ⟨ground, hground, hgr, hgap, hcost⟩ := hquality
  exact ⟨ground, e, hleast, isLeast_feasibleTuples hr hground, hgr, hgap, hcost⟩

lemma exists_judged (hg : g.flaw = none) (hr : r.WellFormed) (hγ : r.gap = finite γ)
    (hd : digits.length = (ofWellFormed g r).levels.length) :
    ∃ biases ground e, Judged g r γ digits biases ground e := by
  rw [levels_length] at hd
  obtain ⟨biases, hsize, hvalues⟩ := exists_biases hg hd
  obtain ⟨ground, e, hleast, hground, hgr, hgap, hcost⟩ := exists_quality hr hγ hvalues
  have hbounds : ((ofWellFormed g r).qualityAt digits).isValid = true →
      (∀ c ∈ feasibleTuples r, e c ≤ ground + tolerance) ∧
        ∀ c ∈ infeasible r, ground + γ - tolerance ≤ e c := by
    intro h
    have hle : Scalar.le ((ofWellFormed g r).qualityAt digits).cost tolerance = true := h
    rw [hcost] at hle
    exact bounds_of_sum_le (fun c hc => hground.2 ⟨c, (mem_feasibleTuples hr).mp hc, rfl⟩)
      (of_decide_eq_true hle)
  exact ⟨biases, ground, e, by omega, hvalues, hleast, hground, hgr, hgap,
    fun hv c hc => (hbounds hv).1 c ((mem_feasibleTuples hr).mpr hc), fun hv => (hbounds hv).2⟩

lemma exists_cost (hg : g.flaw = none) (hr : r.WellFormed) (hγ : r.gap = finite γ)
    (hd : digits.length = (ofWellFormed g r).levels.length) :
    ∃ q, ((ofWellFormed g r).qualityAt digits).cost = finite q := by
  rw [levels_length] at hd
  obtain ⟨biases, -, hvalues⟩ := exists_biases hg hd
  obtain ⟨ground, e, -, -, -, -, hcost⟩ := exists_quality hr hγ hvalues
  exact ⟨_, hcost⟩

lemma prod_levels (g : Grid Extended) (r : Request Extended) : (ofWellFormed g r).levels.prod =
    g.linearLevels ^ r.graph.nodes.length * g.couplingLevels ^ r.graph.edges.length := by
  rw [ofWellFormed, List.prod_append, List.prod_replicate, List.prod_replicate]

lemma levels_pos (hlinear : r.graph.nodes.length ≠ 0 → 0 < g.linearLevels)
    (hcoupling : r.graph.edges.length ≠ 0 → 0 < g.couplingLevels) :
    ∀ n ∈ (ofWellFormed g r).levels, 0 < n := by
  intro n hn
  rcases List.mem_append.mp hn with hn | hn <;> obtain ⟨hsome, rfl⟩ := List.mem_replicate.mp hn
  exacts [hlinear hsome, hcoupling hsome]

lemma levels_of_points (h : g.pointsOver r.graph < 2 ^ 64) :
    (∀ n ∈ (ofWellFormed g r).levels, 0 < n) ∧
      (ofWellFormed g r).levels.prod = g.pointsOver r.graph := by
  refine ⟨levels_pos (fun hn => ?_) fun hn => ?_, (prod_levels g r).trans (Grid.levels_pow_mul h)⟩
  · rw [Grid.linearLevels_eq h hn]
    exact Nat.succ_pos _
  · rw [Grid.couplingLevels_eq h hn]
    exact Nat.succ_pos _

lemma haveGaps_points (hg : g.flaw = none) (hr : r.WellFormed) (hγ : r.gap = finite γ) :
    (ofWellFormed g r).HaveGaps (Grid.points (ofWellFormed g r).levels) := by
  intro a ha
  obtain ⟨biases, ground, e, h⟩ := exists_judged hg hr hγ (Grid.length_of_mem_points ha)
  rw [h.gap_eq]
  exact minimum_isGap _

def answerModel (g : Grid Extended) (r : Request Extended) (digits : List ℕ) :
    QuadraticModel Extended :=
  ((ofWellFormed g r).modelAt r.graph digits ((ofWellFormed g r).qualityAt digits).ground).toVartype
    r.vartype

lemma Judged.answerModel_eq (h : Judged g r γ digits biases ground e) :
    answerModel g r digits = (spinModel r.graph biases ground).exact.toVartype r.vartype := by
  rw [answerModel, h.ground_eq, exact_spinModel h.values]

lemma Judged.answerModel_frame (h : Judged g r γ digits biases ground e) (hr : r.WellFormed) :
    (answerModel g r digits).WellFormed ∧ (answerModel g r digits).IsFinite ∧
      (answerModel g r digits).vartype = r.vartype ∧
      (∀ v, v ∈ (answerModel g r digits).labels ↔ v ∈ r.graph.nodes) ∧
      ∀ d ∈ (answerModel g r digits).couplings.keys,
        ∃ f ∈ r.graph.edges, f.1 ≠ f.2 ∧ d = QuadraticModel.pair f.1 f.2 := by
  obtain ⟨hw, -, hl, hk⟩ := spinModel_frame ground hr.edges h.size
  obtain ⟨ht, htl, htk⟩ := QuadraticModel.toVartype_frame hw r.vartype
  rw [h.answerModel_eq, ← QuadraticModel.exact_toVartype]
  refine ⟨QuadraticModel.exact_wellFormed.mpr (hw.toVartype _), QuadraticModel.exact_isFinite _, ht,
    fun v => ?_, fun d hd => ?_⟩
  · rw [QuadraticModel.exact_labels, htl, hl]
  · rw [QuadraticModel.exact_couplings_keys, htk] at hd
    exact hk d hd

/-- A model in the domain of the request, on its graph, with the energies of the states above the
ground. -/
structure Models (r : Request Extended) (biases : List ℚ) (ground : ℚ)
    (m : QuadraticModel Extended) : Prop where
  isFinite : m.IsFinite
  vartype : m.vartype = r.vartype
  labels : ∀ v, v ∈ m.labels ↔ v ∈ r.graph.nodes
  couplings : ∀ d ∈ m.couplings.keys, ∃ f ∈ r.graph.edges, f.1 ≠ f.2 ∧ d = QuadraticModel.pair f.1 f.2
  energy : ∀ x : Assignment, x.Covers r.vartype r.graph.nodes → m.energy x =
    .ok (finite (stateEnergy r.graph biases (fun v => r.vartype.toSpin ((x v).getD 0)) - ground))

lemma Judged.models (h : Judged g r γ digits biases ground e) (hr : r.WellFormed) :
    Models r biases ground (answerModel g r digits) := by
  obtain ⟨-, hfinite, ht, hl, hk⟩ := h.answerModel_frame hr
  refine ⟨hfinite, ht, hl, hk, fun x hx => ?_⟩
  obtain ⟨hw, -, hlabels, -⟩ := spinModel_frame ground hr.edges h.size
  obtain ⟨hvartype, htl, -⟩ := QuadraticModel.toVartype_frame hw r.vartype
  have hcovers : x.Covers ((spinModel r.graph biases ground).toVartype r.vartype).vartype
      ((spinModel r.graph biases ground).toVartype r.vartype).labels := by
    rw [hvartype]
    exact fun v hv => hx v ((hlabels v).mp ((htl v).mp hv))
  rw [h.answerModel_eq, ← QuadraticModel.exact_toVartype,
    QuadraticModel.energy_exact (hw.toVartype _) hcovers, value_spinModel_toVartype hr h.size hx]

lemma Judged.isLeast_model (h : Judged g r γ digits biases ground e) (hr : r.WellFormed)
    {c : List ℤ} (hc : r.vartype.IsTuple r.decision.length c) :
    IsLeast ((answerModel g r digits).energiesWith r.decision (.ofLists r.decision c))
      (e c - ground) := by
  obtain ⟨hmem, hle⟩ := h.isLeast c hc
  rw [h.answerModel_eq]
  refine ⟨(mem_energiesWith_spinModel hr h.size).mpr (by rwa [sub_add_cancel]), fun x hx => ?_⟩
  rw [sub_le_iff_le_add]
  exact hle ((mem_energiesWith_spinModel hr h.size).mp hx)

lemma Judged.gap_ge (h : Judged g r γ digits biases ground e)
    (hv : ((ofWellFormed g r).qualityAt digits).isValid = true) :
    Scalar.lt ((ofWellFormed g r).qualityAt digits).gap (finite (γ - tolerance)) = false := by
  rw [h.gap_eq]
  by_cases hne : (infeasible r).map (fun c => e c - ground) = []
  · rw [hne]
    rfl
  · obtain ⟨m, hm, hmem, -⟩ := exists_minimum hne
    obtain ⟨c, hc, rfl⟩ := List.mem_map.mp hmem
    have hge := h.beyond hv c hc
    rw [hm]
    exact decide_eq_false (not_lt.mpr (by linarith))

lemma Judged.accept_eq (h : Judged g r γ digits biases ground e) (hγ : r.gap = finite γ) :
    Grid.accept (ofWellFormed g r) r digits =
      if ((ofWellFormed g r).qualityAt digits).isValid then
        some ⟨answerModel g r digits, ((ofWellFormed g r).qualityAt digits).gap⟩
      else none := by
  have hsub : finite γ - tolerance = finite (γ - tolerance) := by
    rw [sub_eq_add_neg γ]
    rfl
  unfold Grid.accept
  rw [hγ, hsub]
  cases hv : ((ofWellFormed g r).qualityAt digits).isValid with
  | false => simp [hv]
  | true =>
    simp only [hv, h.gap_ge hv]
    rfl

end Landscape

end QuadraticPenalty
