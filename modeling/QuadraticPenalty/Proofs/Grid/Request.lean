import QuadraticPenalty.Grid.Landscape
import QuadraticPenalty.Proofs.Penalty.Contract

namespace QuadraticPenalty.Landscape

variable {α : Type} {g : Graph} {r : Request α}

lemma nodePosition_eq_ok_iff {v : String} {i : ℕ} :
    nodePosition g v = .ok i ↔ v ∈ g.nodes ∧ g.nodes.idxOf v = i := by
  unfold nodePosition
  split
  · next j hj =>
    rw [List.findIdx?_eq_some_iff_findIdx_eq] at hj
    have hmem : v ∈ g.nodes := List.idxOf_lt_length_iff.mp (by simpa [List.idxOf, hj.2] using hj.1)
    have hidx : g.nodes.idxOf v = j := hj.2
    simp [hmem, hidx]
  · next hnone =>
    have hmem : v ∉ g.nodes := fun hv => by simpa using List.findIdx?_eq_none_iff.mp hnone v hv
    simp [hmem]

def edgeIndex (g : Graph) (e : String × String) : ℕ × ℕ := (g.nodes.idxOf e.1, g.nodes.idxOf e.2)

lemma edgePosition_eq_ok_iff {e : String × String} {d : ℕ × ℕ} :
    edgePosition g e = .ok d ↔ (e.1 ∈ g.nodes ∧ e.2 ∈ g.nodes) ∧ edgeIndex g e = d := by
  constructor
  · intro h
    obtain ⟨i, hi, h⟩ := exists_of_bind_ok h
    obtain ⟨j, hj, h⟩ := exists_of_bind_ok h
    obtain ⟨hu, rfl⟩ := nodePosition_eq_ok_iff.mp hi
    obtain ⟨hv, rfl⟩ := nodePosition_eq_ok_iff.mp hj
    exact ⟨⟨hu, hv⟩, Except.ok.inj h⟩
  · rintro ⟨⟨hu, hv⟩, rfl⟩
    rw [edgePosition, nodePosition_eq_ok_iff.mpr ⟨hu, rfl⟩, nodePosition_eq_ok_iff.mpr ⟨hv, rfl⟩]
    rfl

lemma mapM_edgePosition_eq_ok_iff {es : List (String × String)} {ds : List (ℕ × ℕ)} :
    es.mapM (edgePosition g) = .ok ds ↔
      (∀ e ∈ es, e.1 ∈ g.nodes ∧ e.2 ∈ g.nodes) ∧ es.map (edgeIndex g) = ds := by
  induction es generalizing ds with
  | nil => simp [pure, Except.pure]
  | cons e es ih =>
    rw [List.mapM_cons]
    constructor
    · intro h
      obtain ⟨d, hd, h⟩ := exists_of_bind_ok h
      obtain ⟨ds, hds, h⟩ := exists_of_bind_ok h
      obtain ⟨he, rfl⟩ := edgePosition_eq_ok_iff.mp hd
      obtain ⟨hes, rfl⟩ := ih.mp hds
      exact ⟨List.forall_mem_cons.mpr ⟨he, hes⟩, Except.ok.inj h⟩
    · rintro ⟨hes, rfl⟩
      obtain ⟨he, hes⟩ := List.forall_mem_cons.mp hes
      rw [edgePosition_eq_ok_iff.mpr ⟨he, rfl⟩, ih.mpr ⟨hes, rfl⟩]
      rfl

lemma decisionPositions_eq_ok_iff {seen vs : List String} {ps : List ℕ} :
    decisionPositions g seen vs = .ok ps ↔
      vs.Nodup ∧ (∀ v ∈ vs, v ∉ seen ∧ v ∈ g.nodes) ∧ vs.map (fun v => g.nodes.idxOf v) = ps := by
  induction vs generalizing seen ps with
  | nil => simp [decisionPositions]
  | cons v vs ih =>
    unfold decisionPositions
    split
    · next hv => simp [hv]
    · next hv =>
      constructor
      · intro h
        obtain ⟨i, hi, h⟩ := exists_of_bind_ok h
        obtain ⟨is, his, h⟩ := exists_of_bind_ok h
        obtain ⟨hmem, rfl⟩ := nodePosition_eq_ok_iff.mp hi
        obtain ⟨hn, hvs, rfl⟩ := ih.mp his
        refine ⟨List.nodup_cons.mpr ⟨fun hm => (hvs v hm).1 (by simp), hn⟩, ?_, Except.ok.inj h⟩
        exact List.forall_mem_cons.mpr ⟨⟨hv, hmem⟩, fun u hu =>
          ⟨fun hs => (hvs u hu).1 (by simp [hs]), (hvs u hu).2⟩⟩
      · rintro ⟨hn, hvs, rfl⟩
        obtain ⟨hnot, hn⟩ := List.nodup_cons.mp hn
        obtain ⟨⟨-, hmem⟩, hvs⟩ := List.forall_mem_cons.mp hvs
        have hrest : decisionPositions g (v :: seen) vs = .ok (vs.map fun v => g.nodes.idxOf v) := by
          refine ih.mpr ⟨hn, fun u hu => ⟨fun hs => ?_, (hvs u hu).2⟩, rfl⟩
          rcases List.mem_cons.mp hs with rfl | hs
          exacts [hnot hu, (hvs u hu).1 hs]
        rw [nodePosition_eq_ok_iff.mpr ⟨hmem, rfl⟩, hrest]
        rfl

lemma positions_eq_ok_iff {ps : List ℕ} {es : List (ℕ × ℕ)} : positions r = .ok (ps, es) ↔
    r.WellFormed ∧ r.graph.nodes.length ≤ maxNodes ∧
      r.decision.map (fun v => r.graph.nodes.idxOf v) = ps ∧
      r.graph.edges.map (edgeIndex r.graph) = es := by
  unfold positions
  split
  · next h => simp [not_le.mpr h]
  · next hsize =>
    split
    · next v h =>
      have hn : ¬ r.graph.nodes.Nodup := fun hn => by
        rw [Constraint.firstRepeat_eq_none_iff.mpr ⟨hn, by simp⟩] at h
        cases h
      simp only [reduceCtorEq, false_iff, not_and]
      exact fun hw => absurd hw.nodes hn
    · next hrepeat =>
      obtain ⟨hnodes, -⟩ := Constraint.firstRepeat_eq_none_iff.mp hrepeat
      constructor
      · intro h
        obtain ⟨ds, hds, h⟩ := exists_of_bind_ok h
        obtain ⟨is, his, h⟩ := exists_of_bind_ok h
        obtain ⟨hedges, rfl⟩ := mapM_edgePosition_eq_ok_iff.mp hds
        obtain ⟨hn, hvs, rfl⟩ := decisionPositions_eq_ok_iff.mp his
        split at h
        · cases h
        · next hfit =>
          split at h
          · cases h
          · next hne =>
            obtain ⟨rfl, rfl⟩ := Prod.mk.inj (Except.ok.inj h)
            refine ⟨⟨hnodes, hedges, hn, fun v hv => (hvs v hv).2, ?_, fun c hc => ?_⟩,
              not_lt.mp hsize, rfl, rfl⟩
            · simpa [SortedSet.isEmpty] using hne
            · have hc := List.findSome?_eq_none_iff.mp hfit c hc
              rw [List.length_map] at hc
              exact Constraint.misfit_eq_none_iff.mp hc
      · rintro ⟨hw, -, rfl, rfl⟩
        have hfit : r.feasible.toList.findSome?
            (Constraint.misfit r.vartype (r.decision.map fun v => r.graph.nodes.idxOf v).length) =
              none :=
          List.findSome?_eq_none_iff.mpr fun c hc => by
            rw [List.length_map]
            exact Constraint.misfit_eq_none_iff.mpr (hw.tuples c hc)
        have hne : r.feasible.isEmpty = false := by simpa [SortedSet.isEmpty] using hw.nonempty
        rw [mapM_edgePosition_eq_ok_iff.mpr ⟨hw.edges, rfl⟩, decisionPositions_eq_ok_iff.mpr
          ⟨hw.nodup, fun v hv => ⟨by simp, hw.decision v hv⟩, rfl⟩]
        simp only [bind, Except.bind, hfit, hne]
        rfl

variable [ExtendedScalar α]

def ofWellFormed (g : Grid α) (r : Request α) : Landscape α :=
  let n := r.graph.nodes.length
  let states := Vartype.spin.tuples n
  { levels := List.replicate n g.linearLevels ++
      List.replicate r.graph.edges.length g.couplingLevels
    lows := List.replicate n g.linear.1 ++ List.replicate r.graph.edges.length g.coupling.1
    step := g.step
    signs := states.map (signsOf (r.graph.edges.map (edgeIndex r.graph)))
    decision := states.map (tupleNumber (r.decision.map fun v => r.graph.nodes.idxOf v))
    feasible := (r.vartype.tuples r.decision.length).map fun c => decide (c ∈ r.feasible)
    gap := r.gap }

lemma ofRequest_eq_ok_iff {g : Grid α} {l : Landscape α} : ofRequest g r = .ok l ↔
    (r.WellFormed ∧ r.graph.nodes.length ≤ maxNodes) ∧ ofWellFormed g r = l := by
  constructor
  · intro h
    obtain ⟨⟨ps, es⟩, hp, h⟩ := exists_of_bind_ok h
    obtain ⟨hw, hn, rfl, rfl⟩ := positions_eq_ok_iff.mp hp
    refine ⟨⟨hw, hn⟩, ?_⟩
    rw [← Except.ok.inj h]
    simp only [ofWellFormed, List.length_map]
  · rintro ⟨⟨hw, hn⟩, rfl⟩
    rw [ofRequest, positions_eq_ok_iff.mpr ⟨hw, hn, rfl, rfl⟩]
    simp only [ofWellFormed, List.length_map, bind, Except.bind, pure, Except.pure]

end QuadraticPenalty.Landscape
