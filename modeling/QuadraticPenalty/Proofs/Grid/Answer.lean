import QuadraticPenalty.Proofs.Grid.Verdict

namespace QuadraticPenalty

open Scalar Extended

namespace Grid

open Landscape

variable {σ : Type} {g : Grid Extended} {c : Chance Extended σ} {r : Request Extended} {γ : ℚ}
  {digits : List ℕ} {found : PenaltyModel Extended} {events : List (Event Extended)}

lemma exists_judged_of_answer (hg : g.flaw = none) (hγ : r.gap = finite γ)
    (h : g.answer c r = some ⟨some found, events⟩) :
    (r.WellFormed ∧ r.graph.nodes.length ≤ maxNodes) ∧ ∃ digits biases ground e,
      Judged g r γ digits biases ground e ∧
      ((ofWellFormed g r).qualityAt digits).isValid = true ∧
      found = ⟨answerModel g r digits, ((ofWellFormed g r).qualityAt digits).gap⟩ := by
  obtain ⟨hw, digits, hd, hf⟩ := answer_eq_some h
  obtain ⟨biases, ground, e, hj⟩ := exists_judged hg hw.1 hγ (search_length hd)
  rw [hj.accept_eq hγ] at hf
  split at hf
  · next hv => exact ⟨hw, digits, biases, ground, e, hj, hv, (Option.some.inj hf).symm⟩
  · cases hf

lemma search_eq_scan (c : Chance Extended σ) (hpos : ∀ n ∈ (ofWellFormed g r).levels, 0 < n)
    (hlim : (ofWellFormed g r).levels.prod ≤ g.scanLimit) (hu : g.scanLimit < 2 ^ 64) (nodes : ℕ) :
    g.search c (ofWellFormed g r) nodes = some ((ofWellFormed g r).scan,
      [.scanning nodes (ofWellFormed g r).levels.prod]) := by
  rw [search, pointCount_eq hpos (hlim.trans_lt hu)]
  exact if_pos hlim

lemma answer_cases (c : Chance Extended σ) (hg : g.flaw = none) (hr : r.WellFormed)
    (hn : r.graph.nodes.length ≤ maxNodes) (hγ : r.gap = finite γ)
    (hpos : ∀ n ∈ (ofWellFormed g r).levels, 0 < n)
    (hlim : (ofWellFormed g r).levels.prod ≤ g.scanLimit) (hu : g.scanLimit < 2 ^ 64) :
    ∃ reply, g.answer c r = some reply ∧
      ((reply.penalty? = none ∧ ∀ d, IsPoint (ofWellFormed g r).levels d →
        ((ofWellFormed g r).qualityAt d).isValid = false) ∨
      ∃ d, (ofWellFormed g r).IsOptimal d ∧
        reply.penalty? = some ⟨answerModel g r d, ((ofWellFormed g r).qualityAt d).gap⟩) := by
  refine ⟨⟨(ofWellFormed g r).scan.bind (accept (ofWellFormed g r) r),
    [.scanning r.graph.nodes.length (ofWellFormed g r).levels.prod]⟩, ?_, ?_⟩
  · rw [answer, ofRequest_eq_ok_iff.mpr ⟨⟨hr, hn⟩, rfl⟩]
    dsimp only
    rw [search_eq_scan c hpos hlim hu]
    rfl
  rcases scan_eq hpos (haveGaps_points hg hr hγ) with ⟨hscan, hinvalid⟩ | ⟨d, hscan, hopt⟩
  · exact .inl ⟨by rw [hscan, Option.bind_none], hinvalid⟩
  · obtain ⟨biases, ground, e, hj⟩ := exists_judged hg hr hγ hopt.isPoint.length_eq
    exact .inr ⟨d, hopt, by rw [hscan, Option.bind_some, hj.accept_eq hγ, if_pos hopt.isValid]⟩

lemma exists_answer_of_valid (c : Chance Extended σ) (hg : g.flaw = none) (hr : r.WellFormed)
    (hn : r.graph.nodes.length ≤ maxNodes) (hγ : r.gap = finite γ)
    (hpos : ∀ n ∈ (ofWellFormed g r).levels, 0 < n)
    (hlim : (ofWellFormed g r).levels.prod ≤ g.scanLimit) (hu : g.scanLimit < 2 ^ 64)
    (hd : IsPoint (ofWellFormed g r).levels digits)
    (hv : ((ofWellFormed g r).qualityAt digits).isValid = true) :
    ∃ found events, g.answer c r = some ⟨some found, events⟩ ∧
      Scalar.le ((ofWellFormed g r).qualityAt digits).gap found.gap = true := by
  obtain ⟨⟨penalty?, events⟩, hanswer, ⟨-, hinvalid⟩ | ⟨b, hopt, hsome⟩⟩ :=
    answer_cases c hg hr hn hγ hpos hlim hu
  · rw [hinvalid digits hd] at hv
    cases hv
  have hgaps := haveGaps_points hg hr hγ
  have hgap := hgaps digits (mem_points.mpr hd)
  have hbest := hgaps b (mem_points.mpr hopt.isPoint)
  obtain rfl : penalty? = _ := hsome
  refine ⟨_, events, hanswer, (hgap.le_iff hbest).mpr ?_⟩
  rcases hopt.best digits hd hv with hlt | ⟨heq, -⟩
  · exact ((hgap.lt_iff hbest).mp hlt).le
  · rw [heq]

lemma oracle_sound (hg : g.flaw = none) (c : Chance Extended σ) :
    (g.oracle c).Sound (tolerance : ℚ) := by
  intro r s found hr hfinite h
  obtain ⟨γ, hγ⟩ := QuadraticModel.exists_rational hfinite
  obtain ⟨events, h⟩ := answer_of_oracle h
  obtain ⟨-, digits, biases, ground, e, hj, hv, rfl⟩ := exists_judged_of_answer hg hγ h
  obtain ⟨hw, hfin, ht, hl, -⟩ := hj.answerModel_frame hr
  have hleast : ∀ x, r.vartype.IsTuple r.decision.length x →
      IsLeast (PenaltyModel.energiesAt
        ⟨answerModel g r digits, ((ofWellFormed g r).qualityAt digits).gap⟩ r x) (e x - ground) := by
    intro x hx
    have hsame : (answerModel g r digits).toVartype r.vartype = answerModel g r digits :=
      if_pos ht.symm
    rw [PenaltyModel.energiesAt, hsame]
    exact hj.isLeast_model hr hx
  refine ⟨hw, hfin, fun v hv => (hl v).mp hv, fun x hx => ?_, fun x hx hnot => ?_⟩
  · have hlow := hj.isLeast_ground.2 ⟨x, hx, rfl⟩
    have hwithin := hj.within hv x hx
    exact ⟨_, hleast x (hr.tuples x hx), by linarith, by linarith⟩
  · have hmem := List.mem_map_of_mem (f := fun x => e x - ground) (mem_infeasible.mpr ⟨hx, hnot⟩)
    obtain ⟨gap, hgap, hmin⟩ := exists_minimum (List.ne_nil_of_mem hmem)
    refine ⟨_, hleast x hx, ?_⟩
    change Scalar.le ((ofWellFormed g r).qualityAt digits).gap _ = true
    rw [hj.gap_eq, hgap]
    exact decide_eq_true (hmin.2 hmem)

/-- An answer is a model on the graph whose least energies are zero, up to the tolerance, for the
feasible tuples, and its gap is the least of them for the others. Requests that are not well formed
have no answer. -/
theorem answer_sound {σ : Type} (g : Grid Extended) (c : Chance Extended σ) (r : Request Extended)
    (γ : ℚ) (found : PenaltyModel Extended) (events : List (Event Extended)) (hg : g.flaw = none)
    (hγ : r.gap = finite γ) (h : g.answer c r = some ⟨some found, events⟩) :
    (r.WellFormed ∧ r.graph.nodes.length ≤ maxNodes) ∧ found.model.IsFinite ∧
      found.model.vartype = r.vartype ∧ (∀ v, v ∈ found.model.labels ↔ v ∈ r.graph.nodes) ∧
      (∀ d ∈ found.model.couplings.keys,
        ∃ f ∈ r.graph.edges, f.1 ≠ f.2 ∧ d = QuadraticModel.pair f.1 f.2) ∧
      ∃ e : List ℤ → ℚ,
        (∀ x, r.vartype.IsTuple r.decision.length x →
          IsLeast (found.model.energiesWith r.decision (.ofLists r.decision x)) (e x)) ∧
        (∀ x ∈ r.feasible, 0 ≤ e x ∧ e x ≤ tolerance) ∧ IsLeast (e '' {x | x ∈ r.feasible}) 0 ∧
        ((∀ x, r.vartype.IsTuple r.decision.length x → x ∈ r.feasible) ∧ found.gap = infinity ∨
          ∃ gap, found.gap = finite gap ∧ γ - tolerance ≤ gap ∧
            IsLeast (e '' {x | r.vartype.IsTuple r.decision.length x ∧ x ∉ r.feasible}) gap) := by
  obtain ⟨hw, digits, biases, ground, e, hj, hv, rfl⟩ := exists_judged_of_answer hg hγ h
  have hr := hw.1
  obtain ⟨-, hfinite, ht, hl, hk⟩ := hj.answerModel_frame hr
  obtain ⟨⟨x₀, hx₀, he₀⟩, hlow⟩ := hj.isLeast_ground
  refine ⟨hw, hfinite, ht, hl, hk, fun x => e x - ground, fun x hx => hj.isLeast_model hr hx,
    fun x hx => ⟨sub_nonneg.mpr (hlow ⟨x, hx, rfl⟩), ?_⟩,
    ⟨⟨x₀, hx₀, sub_eq_zero.mpr he₀⟩, ?_⟩, ?_⟩
  · have hwithin := hj.within hv x hx
    linarith
  · rintro _ ⟨x, hx, rfl⟩
    exact sub_nonneg.mpr (hlow ⟨x, hx, rfl⟩)
  · by_cases hnone : infeasible r = []
    · left
      refine ⟨fun x hx => ?_, ?_⟩
      · by_contra hnot
        have hmem := mem_infeasible.mpr ⟨hx, hnot⟩
        rw [hnone] at hmem
        cases hmem
      · rw [hj.gap_eq, hnone]
        rfl
    · right
      obtain ⟨gap, hgap, hleast⟩ := exists_minimum (L := (infeasible r).map fun x => e x - ground)
        (by simpa using hnone)
      obtain ⟨x, hx, hxgap⟩ := List.mem_map.mp hleast.1
      have himage : {y | y ∈ (infeasible r).map fun x => e x - ground} =
          (fun x => e x - ground) '' {x | r.vartype.IsTuple r.decision.length x ∧ x ∉ r.feasible} := by
        ext y
        simp only [Set.mem_ofPred_eq, List.mem_map, Set.mem_image, mem_infeasible]
      have hbeyond := hj.beyond hv x hx
      exact ⟨gap, hj.gap_eq.trans hgap, by linarith, himage ▸ hleast⟩

def coarse : Grid Extended where
  linear := (zero, zero)
  coupling := (ofInt (-1), one)
  step := one
  scanLimit := 3
  schedule := .default

def equalBits : Request Extended where
  graph := .complete ["a", "b"]
  decision := ["b", "a"]
  feasible := ⟨[[0, 0], [1, 1]], by decide⟩
  vartype := .binary
  gap := two

def still : Chance Extended Unit where
  upTo _ s := (0, s)
  coin s := (false, s)
  sample _ k s := (List.range k, s)
  start _ := ()
  climbs _ _ s := (false, s)

lemma equalBits_wellFormed : equalBits.WellFormed where
  nodes := by decide
  edges := by decide
  nodup := by decide
  decision := by decide
  nonempty := by decide
  tuples c hc := by
    change c ∈ [[0, 0], [1, 1]] at hc
    simp only [List.mem_cons, List.not_mem_nil, or_false] at hc
    rcases hc with rfl | rfl
    exacts [⟨rfl, by decide⟩, ⟨rfl, by decide⟩]

lemma coarse_flaw : coarse.flaw = none := by cbv

lemma coarse_levels : coarse.linearLevels = 1 ∧ coarse.couplingLevels = 3 := by
  have hlinear : levelCount coarse.linear coarse.step = 1 := by cbv
  have hcoupling : levelCount coarse.coupling coarse.step = 3 := by cbv
  exact ⟨(levelsOf_eq (by rw [hlinear]; decide)).trans hlinear,
    (levelsOf_eq (by rw [hcoupling]; decide)).trans hcoupling⟩

lemma coarse_points : coarse.pointsOver equalBits.graph = 3 := by
  have hlinear : levelCount coarse.linear coarse.step = 1 := by cbv
  have hcoupling : levelCount coarse.coupling coarse.step = 3 := by cbv
  rw [pointsOver, hlinear, hcoupling]
  decide

lemma coarse_levels_of_graph {r : Request Extended} (hr : r.graph = equalBits.graph) :
    (ofWellFormed coarse r).levels = [1, 1, 3] := by
  rw [ofWellFormed, hr]
  change [coarse.linearLevels, coarse.linearLevels, coarse.couplingLevels] = _
  rw [coarse_levels.1, coarse_levels.2]

lemma coarse_valid : IsPoint (ofWellFormed coarse equalBits).levels [0, 0, 0] ∧
    ((ofWellFormed coarse equalBits).qualityAt [0, 0, 0]).isValid = true := by
  refine ⟨by simp [coarse_levels_of_graph, IsPoint], ?_⟩
  simp only [ofWellFormed, coarse_levels]
  cbv

lemma exists_answer_equalBits : ∃ found events,
    coarse.answer still equalBits = some ⟨some found, events⟩ := by
  obtain ⟨hpos, hprod⟩ := levels_of_points (g := coarse) (r := equalBits)
    (by rw [coarse_points]; decide)
  obtain ⟨found, events, hfound, -⟩ := exists_answer_of_valid still coarse_flaw equalBits_wellFormed
    (by decide) rfl hpos (hprod.trans coarse_points).le (by decide) coarse_valid.1 coarse_valid.2
  exact ⟨found, events, hfound⟩

theorem answer_sound_of_equalBits : ∃ found events,
    coarse.answer still equalBits = some ⟨some found, events⟩ ∧
    ∃ e, IsLeast (found.model.energiesWith ["b", "a"] (.ofLists ["b", "a"] [0, 1])) e ∧
      2 - tolerance ≤ e := by
  obtain ⟨found, events, hfound⟩ := exists_answer_equalBits
  obtain ⟨-, -, -, -, -, e, hleast, -, -, hgap⟩ :=
    answer_sound coarse still equalBits 2 found events coarse_flaw rfl hfound
  have htuple : Vartype.binary.IsTuple 2 [0, 1] := ⟨rfl, by decide⟩
  have hnot : [0, 1] ∉ equalBits.feasible := by decide
  rcases hgap with ⟨hall, -⟩ | ⟨gap, -, hge, hmin⟩
  · exact absurd (hall [0, 1] htuple) hnot
  · exact ⟨found, events, hfound, e [0, 1], hleast [0, 1] htuple,
      hge.trans (hmin.2 ⟨[0, 1], ⟨htuple, hnot⟩, rfl⟩)⟩

/-- On a small grid the answer is the valid point of largest gap, the first of those, and there is
none exactly if no point is valid. The model has the energies of the states under the biases of the
point. -/
theorem answer_optimal {σ : Type} (g : Grid Extended) (c : Chance Extended σ) (r : Request Extended)
    (γ : ℚ) (hg : g.flaw = none) (hr : r.WellFormed) (hn : r.graph.nodes.length ≤ maxNodes)
    (hγ : r.gap = finite γ) (hlim : g.pointsOver r.graph ≤ g.scanLimit) (hu : g.scanLimit < 2 ^ 64) :
    ∃ l reply, ofRequest g r = .ok l ∧ g.answer c r = some reply ∧
      (reply.penalty? = none ↔ ∀ d, IsPoint l.levels d → (l.qualityAt d).isValid = false) ∧
      ((∃ d, IsPoint l.levels d ∧ (l.qualityAt d).isValid = true) → ∃ d, l.IsOptimal d) ∧
      ∀ d, l.IsOptimal d → ∃ found, reply.penalty? = some found ∧
        found.model = (l.modelAt r.graph d (l.qualityAt d).ground).toVartype r.vartype ∧
        found.gap = (l.qualityAt d).gap ∧
        ∃ biases ground, l.values d = biases.map finite ∧ (l.qualityAt d).ground = finite ground ∧
          Models r biases ground found.model := by
  obtain ⟨hpos, hprod⟩ := levels_of_points (hlim.trans_lt hu)
  obtain ⟨reply, hreply, hcases⟩ := answer_cases c hg hr hn hγ hpos (hprod.trans_le hlim) hu
  refine ⟨ofWellFormed g r, reply, ofRequest_eq_ok_iff.mpr ⟨⟨hr, hn⟩, rfl⟩, hreply, ?_⟩
  rcases hcases with ⟨hnone, hinvalid⟩ | ⟨a, hopt, hsome⟩
  · refine ⟨⟨fun _ => hinvalid, fun _ => hnone⟩, ?_, fun d hd => ?_⟩
    · rintro ⟨d, hd, hv⟩
      rw [hinvalid d hd] at hv
      cases hv
    · have hv := hd.isValid
      rw [hinvalid d hd.isPoint] at hv
      cases hv
  · rw [hsome]
    refine ⟨⟨fun h => absurd h (Option.some_ne_none _), fun hall => ?_⟩, fun _ => ⟨a, hopt⟩,
      fun d hd => ?_⟩
    · have hv := hopt.isValid
      rw [hall a hopt.isPoint] at hv
      cases hv
    · obtain rfl := hd.unique (haveGaps_points hg hr hγ) hopt
      obtain ⟨biases, ground, e, hj⟩ := exists_judged hg hr hγ hd.isPoint.length_eq
      exact ⟨_, rfl, rfl, rfl, biases, ground, hj.values, hj.ground_eq, hj.models hr⟩

lemma coarse_optimal : (ofWellFormed coarse equalBits).IsOptimal [0, 0, 0] := by
  refine ⟨coarse_valid.1, coarse_valid.2, fun b hb hvalid => .inr ?_⟩
  rw [coarse_levels_of_graph rfl] at hb
  have hpoints : ∀ b ∈ points [1, 1, 3], ((ofWellFormed coarse equalBits).qualityAt b).isValid = true →
      b = [0, 0, 0] := by
    decide +kernel
  obtain rfl := hpoints b (mem_points.mpr hb) hvalid
  exact ⟨rfl, .inl rfl⟩

theorem answer_optimal_of_equalBits : ∃ reply ∈ coarse.answer still equalBits,
    ∃ found ∈ reply.penalty?, found.gap = finite 2 ∧
      found.model.energy (fun _ => some 1) = .ok (finite 0) ∧
      found.model.energy (fun v => some (if v = "a" then 1 else 0)) = .ok (finite 2) := by
  obtain ⟨l, reply, hl, hreply, -, -, hanswer⟩ := answer_optimal coarse still equalBits 2
    coarse_flaw equalBits_wellFormed (by decide) rfl coarse_points.le (by decide)
  obtain ⟨-, rfl⟩ := ofRequest_eq_ok_iff.mp hl
  obtain ⟨found, hfound, -, hgap, biases, ground, hvalues, hground, hmodels⟩ := hanswer _ coarse_optimal
  have hbiases : (ofWellFormed coarse equalBits).values [0, 0, 0] = [0, 0, -1].map finite := by
    decide +kernel
  obtain rfl := (List.map_injective_iff.mpr fun _ _ => finite.inj) (hvalues.symm.trans hbiases)
  have hleast : ((ofWellFormed coarse equalBits).qualityAt [0, 0, 0]).ground = finite (-1) := by
    decide +kernel
  obtain rfl := finite.inj (hground.symm.trans hleast)
  refine ⟨reply, hreply, found, hfound, hgap.trans (by decide +kernel), ?_, ?_⟩
  · rw [hmodels.energy _ fun v _ => ⟨1, by decide, rfl⟩]
    decide +kernel
  · rw [hmodels.energy _ fun v _ => ⟨_, by split <;> decide, rfl⟩]
    decide +kernel

end Grid

end QuadraticPenalty
