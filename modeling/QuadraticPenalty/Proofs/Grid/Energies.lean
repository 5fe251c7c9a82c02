import QuadraticPenalty.Proofs.Grid.Quality
import QuadraticPenalty.Proofs.Grid.Request

namespace QuadraticPenalty.Landscape

open Scalar Extended

/-- The energy of a state under biases of the nodes and then of the edges. -/
def stateEnergy (g : Graph) (biases : List ℚ) (x : String → ℚ) : ℚ :=
  ((g.nodes.zip biases).map fun e => e.2 * x e.1).sum +
    ((g.edges.zip (biases.drop g.nodes.length)).map fun e => e.2 * (x e.1.1 * x e.1.2)).sum

lemma stateEnergy_congr {g : Graph} {biases : List ℚ} {x y : String → ℚ}
    (he : ∀ e ∈ g.edges, e.1 ∈ g.nodes ∧ e.2 ∈ g.nodes) (h : ∀ v ∈ g.nodes, x v = y v) :
    stateEnergy g biases x = stateEnergy g biases y := by
  have hnodes : (g.nodes.zip biases).map (fun e => e.2 * x e.1) =
      (g.nodes.zip biases).map fun e => e.2 * y e.1 :=
    List.map_congr_left fun e hm => by rw [h _ (List.of_mem_zip hm).1]
  have hedges : (g.edges.zip (biases.drop g.nodes.length)).map (fun e => e.2 * (x e.1.1 * x e.1.2)) =
      (g.edges.zip (biases.drop g.nodes.length)).map fun e => e.2 * (y e.1.1 * y e.1.2) :=
    List.map_congr_left fun e hm => by
      obtain ⟨hu, hv⟩ := he _ (List.of_mem_zip hm).1
      rw [h _ hu, h _ hv]
  rw [stateEnergy, hnodes, hedges, stateEnergy]

lemma addSigned_finite (ss : List ℤ) (xs : List ℚ) (a : ℚ) :
    addSigned (finite a) ss (xs.map finite) =
      finite (a + (List.zipWith (fun (s : ℤ) x => (s : ℚ) * x) ss xs).sum) := by
  induction ss generalizing xs a with
  | nil => simp [addSigned]
  | cons s ss ih =>
    cases xs with
    | nil => simp [addSigned]
    | cons x xs =>
      have hstep : finite a + ofInt s * finite x = finite (a + s * x) := rfl
      rw [List.map_cons, addSigned, hstep, ih, List.zipWith_cons_cons, List.sum_cons, add_assoc]

lemma signedSum_finite (ss : List ℤ) (xs : List ℚ) : signedSum (xs.map finite) ss =
    finite (List.zipWith (fun (s : ℤ) x => (s : ℚ) * x) ss xs).sum := by
  cases ss with
  | nil => rfl
  | cons s ss =>
    cases xs with
    | nil => rfl
    | cons x xs =>
      have hstep : ofInt s * finite x = finite (s * x) := rfl
      rw [List.map_cons, signedSum, hstep, addSigned_finite, List.zipWith_cons_cons, List.sum_cons]

lemma zipWith_append_drop {β γ ι : Type} (f : β → γ → ι) (as bs : List β) (xs : List γ) :
    List.zipWith f (as ++ bs) xs =
      List.zipWith f as xs ++ List.zipWith f bs (xs.drop as.length) := by
  induction as generalizing xs with
  | nil => simp
  | cons a as ih => cases xs <;> simp [ih]

def spinAt (g : Graph) (y : List ℤ) (v : String) : ℤ := y.getD (g.nodes.idxOf v) 0

lemma map_spinAt {g : Graph} (hn : g.nodes.Nodup) {y : List ℤ} (hy : y.length = g.nodes.length) :
    g.nodes.map (spinAt g y) = y :=
  map_getD_idxOf hn hy fun _ => 0

lemma spinAt_map {g : Graph} (f : String → ℤ) {v : String} (hv : v ∈ g.nodes) :
    spinAt g (g.nodes.map f) v = f v := by
  have hlt := List.idxOf_lt_length_of_mem hv
  simp [spinAt, List.getD_eq_getElem?_getD, hlt]

lemma signedSum_signsOf {g : Graph} (hn : g.nodes.Nodup) (biases : List ℚ) {y : List ℤ}
    (hy : y.length = g.nodes.length) :
    signedSum (biases.map finite) (signsOf (g.edges.map (edgeIndex g)) y) =
      finite (stateEnergy g biases fun v => spinAt g y v) := by
  have hnodes : List.zipWith (fun (s : ℤ) x => (s : ℚ) * x) y biases =
      (g.nodes.zip biases).map fun e => e.2 * (spinAt g y e.1 : ℚ) := by
    conv_lhs => rw [← map_spinAt hn hy]
    rw [List.zipWith_map_left, ← List.map_uncurry_zip_eq_zipWith]
    exact List.map_congr_left fun e _ => mul_comm _ _
  have hedges : List.zipWith (fun (s : ℤ) x => (s : ℚ) * x)
      ((g.edges.map (edgeIndex g)).map fun e => y.getD e.1 0 * y.getD e.2 0)
      (biases.drop g.nodes.length) = (g.edges.zip (biases.drop g.nodes.length)).map fun e =>
        e.2 * ((spinAt g y e.1.1 : ℚ) * (spinAt g y e.1.2 : ℚ)) := by
    rw [List.map_map, List.zipWith_map_left, ← List.map_uncurry_zip_eq_zipWith]
    refine List.map_congr_left fun e _ => ?_
    simp only [Function.uncurry, Function.comp_apply, edgeIndex, spinAt]
    push_cast
    ring
  rw [signedSum_finite, signsOf, zipWith_append_drop, hy, List.sum_append, hnodes, hedges,
    stateEnergy]

variable {g : Grid Extended} {r : Request Extended} {digits : List ℕ} {biases : List ℚ} {c : List ℤ}

structure HasLevels (l : Landscape Extended) (lows : List ℚ) (step : ℚ) : Prop where
  lows_eq : l.lows = lows.map finite
  step_eq : l.step = finite step

def biasesAt (lows : List ℚ) (step : ℚ) (digits : List ℕ) : List ℚ :=
  List.zipWith (fun (d : ℕ) low => low + d * step) digits lows

lemma HasLevels.values_eq {l : Landscape Extended} {lows : List ℚ} {step : ℚ}
    (h : l.HasLevels lows step) (digits : List ℕ) :
    l.values digits = (biasesAt lows step digits).map finite := by
  rw [values, h.lows_eq, h.step_eq, biasesAt, List.zipWith_map_right, List.map_zipWith]
  rfl

lemma exists_rational_ends (hg : g.flaw = none) : (∃ q, g.step = finite q) ∧
    (∃ q, g.linear.1 = finite q) ∧ ∃ q, g.coupling.1 = finite q := by
  unfold Grid.flaw at hg
  split at hg
  · cases hg
  · next hs =>
    split at hg
    · cases hg
    · next hl =>
      split at hg
      · cases hg
      · next hc =>
        simp only [Grid.isRange, Bool.not_eq_true', Bool.not_eq_false, Bool.and_eq_true] at hs hl hc
        exact ⟨QuadraticModel.exists_rational hs.2, QuadraticModel.exists_rational hl.1.1,
          QuadraticModel.exists_rational hc.1.1⟩

lemma exists_hasLevels (hg : g.flaw = none) (r : Request Extended) : ∃ lows step,
    (ofWellFormed g r).HasLevels lows step ∧
      lows.length = r.graph.nodes.length + r.graph.edges.length := by
  obtain ⟨⟨step, hstep⟩, ⟨a, ha⟩, b, hb⟩ := exists_rational_ends hg
  refine ⟨List.replicate r.graph.nodes.length a ++ List.replicate r.graph.edges.length b, step,
    ⟨?_, hstep⟩, by simp⟩
  simp [ofWellFormed, ha, hb]

lemma exists_biases (hg : g.flaw = none)
    (hd : digits.length = r.graph.nodes.length + r.graph.edges.length) :
    ∃ biases : List ℚ, biases.length = r.graph.nodes.length + r.graph.edges.length ∧
      (ofWellFormed g r).values digits = biases.map finite := by
  obtain ⟨lows, step, h, hlength⟩ := exists_hasLevels hg r
  exact ⟨biasesAt lows step digits, by simp [biasesAt, hlength, hd], h.values_eq digits⟩

def energyTable (r : Request Extended) (biases : List ℚ) : List ℚ :=
  (Vartype.spin.tuples r.graph.nodes.length).map fun y =>
    stateEnergy r.graph biases fun v => spinAt r.graph y v

lemma energies_eq (hn : r.graph.nodes.Nodup)
    (hb : (ofWellFormed g r).values digits = biases.map finite) :
    (ofWellFormed g r).energies digits = (energyTable r biases).map finite := by
  change ((Vartype.spin.tuples r.graph.nodes.length).map
    (signsOf (r.graph.edges.map (edgeIndex r.graph)))).map
      (signedSum ((ofWellFormed g r).values digits)) = _
  rw [hb, energyTable, List.map_map, List.map_map]
  refine List.map_congr_left fun y hy => ?_
  exact signedSum_signsOf hn biases (Vartype.mem_tuples.mp hy).1

/-- The energies of the states whose decision variables form the given tuple. -/
def energiesAt (r : Request Extended) (biases : List ℚ) (c : List ℤ) : Set ℚ :=
  {e | ∃ x : Assignment, x.Covers r.vartype r.graph.nodes ∧
    (∀ v ∈ r.decision, x v = Assignment.ofLists r.decision c v) ∧
    stateEnergy r.graph biases (fun v => r.vartype.toSpin ((x v).getD 0)) = e}

lemma tupleNumber_eq {ps : List ℕ} {n : ℕ} {y : List ℤ} (hy : Vartype.spin.IsTuple n y)
    (hps : ∀ p ∈ ps, p < n) : tupleNumber ps y = Vartype.spin.number (Constraint.pick ps y) := by
  rw [tupleNumber, Vartype.number, Constraint.pick, List.foldl_map]
  refine List.foldl_ext _ _ _ fun k p hp => ?_
  have hlt : p < y.length := hy.1 ▸ hps p hp
  have hmem := hy.2 _ (List.getElem_mem hlt)
  rw [List.getD_eq_getElem _ _ hlt]
  rcases Vartype.mem_values.mp hmem with h | h <;> simp [h, Vartype.low, Vartype.high]

def decisionIndex (r : Request Extended) : List ℕ := r.decision.map fun v => r.graph.nodes.idxOf v

lemma mem_energiesAt_iff (hr : r.WellFormed) (hc : r.vartype.IsTuple r.decision.length c) {e : ℚ} :
    e ∈ energiesAt r biases c ↔ ∃ y, Vartype.spin.IsTuple r.graph.nodes.length y ∧
      Constraint.pick (decisionIndex r) y = c.map r.vartype.toSpin ∧
      stateEnergy r.graph biases (fun v => spinAt r.graph y v) = e := by
  obtain ⟨f, rfl⟩ := Assignment.exists_map_of_length hr.nodup hc.1
  have hpick : ∀ y, Constraint.pick (decisionIndex r) y = r.decision.map (spinAt r.graph y) := by
    intro y
    simp only [Constraint.pick, decisionIndex, List.map_map]
    rfl
  constructor
  · rintro ⟨x, hx, hxc, rfl⟩
    refine ⟨r.graph.nodes.map fun v => r.vartype.toSpin ((x v).getD 0), ⟨by simp, fun z hz => ?_⟩,
      ?_, stateEnergy_congr hr.edges fun v hv => by rw [spinAt_map _ hv]⟩
    · obtain ⟨v, -, rfl⟩ := List.mem_map.mp hz
      exact Vartype.toSpin_mem _ _
    · rw [hpick, List.map_map]
      refine List.map_congr_left fun v hv => ?_
      rw [spinAt_map _ (hr.decision v hv), hxc v hv, Assignment.ofLists_map _ f hv]
      rfl
  · rintro ⟨y, hy, hyc, rfl⟩
    have hspin : ∀ v ∈ r.graph.nodes, spinAt r.graph y v ∈ Vartype.spin.values := fun v hv => by
      have hlt : r.graph.nodes.idxOf v < y.length := hy.1 ▸ List.idxOf_lt_length_of_mem hv
      rw [spinAt, List.getD_eq_getElem _ _ hlt]
      exact hy.2 _ (List.getElem_mem hlt)
    refine ⟨fun v => some (r.vartype.ofSpin (spinAt r.graph y v)), fun v _ =>
      ⟨_, Vartype.ofSpin_mem _ _, rfl⟩, fun v hv => ?_, stateEnergy_congr hr.edges fun v hv => ?_⟩
    · rw [hpick, List.map_map] at hyc
      have hf : f v ∈ r.vartype.values := hc.2 _ (List.mem_map_of_mem hv)
      have hv' : spinAt r.graph y v = r.vartype.toSpin (f v) := List.map_inj_left.mp hyc v hv
      simp only [Assignment.ofLists_map _ f hv, hv', Vartype.ofSpin_toSpin hf]
    · rw [Option.getD_some, Vartype.toSpin_ofSpin _ (hspin v hv)]

lemma energiesAt_nonempty (biases : List ℚ) (hc : r.vartype.IsTuple r.decision.length c)
    (hn : r.decision.Nodup) : (energiesAt r biases c).Nonempty := by
  obtain ⟨f, rfl⟩ := Assignment.exists_map_of_length hn hc.1
  let x : Assignment := fun v => some (if v ∈ r.decision then f v else r.vartype.high)
  refine ⟨_, x, fun v _ => ⟨_, ?_, rfl⟩, fun v hv => ?_, rfl⟩
  · by_cases hv : v ∈ r.decision
    · rw [if_pos hv]
      exact hc.2 _ (List.mem_map_of_mem hv)
    · rw [if_neg hv]
      simp
  · rw [Assignment.ofLists_map _ f hv]
    simp [x, hv]

lemma tupleNumber_eq_iff (hr : r.WellFormed) {i : ℕ} (hi : i < 2 ^ r.decision.length) {y : List ℤ}
    (hy : Vartype.spin.IsTuple r.graph.nodes.length y) : tupleNumber (decisionIndex r) y = i ↔
      Constraint.pick (decisionIndex r) y =
        (r.vartype.tupleAt r.decision.length i).map r.vartype.toSpin := by
  have hps : ∀ p ∈ decisionIndex r, p < r.graph.nodes.length := fun p hp => by
    obtain ⟨v, hv, rfl⟩ := List.mem_map.mp hp
    exact List.idxOf_lt_length_of_mem (hr.decision v hv)
  have hpicked : Vartype.spin.IsTuple r.decision.length (Constraint.pick (decisionIndex r) y) := by
    refine ⟨by simp [Constraint.pick, decisionIndex], fun z hz => ?_⟩
    obtain ⟨p, hp, rfl⟩ := List.mem_map.mp hz
    have hlt : p < y.length := hy.1 ▸ hps p hp
    rw [List.getD_eq_getElem _ _ hlt]
    exact hy.2 _ (List.getElem_mem hlt)
  have htuple := Vartype.tupleAt_isTuple r.vartype r.decision.length i
  have hnumber : Vartype.spin.number ((r.vartype.tupleAt r.decision.length i).map r.vartype.toSpin) =
      i := by
    rw [Vartype.number_toSpin, Vartype.number_tupleAt hi]
  rw [tupleNumber_eq hy hps]
  constructor
  · intro h
    exact Vartype.number_injective hpicked htuple.toSpin (h.trans hnumber.symm)
  · intro h
    rw [h, hnumber]

def stateEnergies (r : Request Extended) (biases : List ℚ) (c : List ℤ) : List ℚ :=
  ((Vartype.spin.tuples r.graph.nodes.length).filter fun y =>
    Constraint.pick (decisionIndex r) y = c.map r.vartype.toSpin).map fun y =>
      stateEnergy r.graph biases fun v => spinAt r.graph y v

lemma exists_minimum_stateEnergies (hr : r.WellFormed) (biases : List ℚ)
    (hc : r.vartype.IsTuple r.decision.length c) :
    ∃ e, minimum (stateEnergies r biases c) = finite e ∧ IsLeast (energiesAt r biases c) e := by
  have hstates : ∀ e, e ∈ stateEnergies r biases c ↔ e ∈ energiesAt r biases c := by
    intro e
    rw [mem_energiesAt_iff hr hc]
    simp [stateEnergies, and_assoc]
  obtain ⟨e, he⟩ := energiesAt_nonempty biases hc hr.nodup
  obtain ⟨m, hm, hleast⟩ := exists_minimum (List.ne_nil_of_mem ((hstates e).mpr he))
  have hset : {x | x ∈ stateEnergies r biases c} = energiesAt r biases c := Set.ext hstates
  exact ⟨m, hm, hset ▸ hleast⟩

lemma lowest_energyTable (hr : r.WellFormed) (biases : List ℚ) : ∃ e : List ℤ → ℚ,
    (∀ c, r.vartype.IsTuple r.decision.length c → IsLeast (energiesAt r biases c) (e c)) ∧
    (ofWellFormed g r).lowest ((energyTable r biases).map finite) =
      (r.vartype.tuples r.decision.length).map fun c => finite (e c) := by
  have hleast := fun c hc => exists_minimum_stateEnergies (c := c) hr biases hc
  choose! e he using hleast
  refine ⟨e, fun c hc => (he c hc).2, ?_⟩
  have hsize : (ofWellFormed g r).feasible.length = 2 ^ r.decision.length := by simp [ofWellFormed]
  have hzip : (ofWellFormed g r).decision.zip (energyTable r biases) =
      (Vartype.spin.tuples r.graph.nodes.length).map fun y => (tupleNumber (decisionIndex r) y,
        stateEnergy r.graph biases fun v => spinAt r.graph y v) := List.zip_map' ..
  rw [lowest_eq, Vartype.tuples_eq, List.map_map, hsize, hzip]
  refine List.map_congr_left fun i hi => ?_
  have htuple := Vartype.tupleAt_isTuple r.vartype r.decision.length i
  rw [Function.comp_apply, ← (he _ htuple).1, List.filter_map, List.map_map]
  refine congrArg minimum (congrArg _ (List.filter_congr fun y hy => ?_))
  have hiff := tupleNumber_eq_iff hr (List.mem_range.mp hi) (Vartype.mem_tuples.mp hy)
  simp only [Function.comp_apply, hiff]

end QuadraticPenalty.Landscape
