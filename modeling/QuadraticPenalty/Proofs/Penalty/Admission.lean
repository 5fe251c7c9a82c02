import QuadraticPenalty.Proofs.Penalty.Auxiliaries

namespace QuadraticPenalty

namespace Compilation

lemma asked_wellFormed {α σ : Type} [Scalar α] {ask : Oracle α σ} {s : Settings α} {p : Problem}
    {o : σ} (hp : p.Reachable) (hs : s.flaw = none) : ∀ q ∈ asked ask s p o, q.WellFormed := by
  intro q hq
  obtain ⟨r, mades, talks, fault, hminted, hmades, hconducts, -, hasked, -⟩ := run_conducts ask o hp hs
  rw [hasked] at hq
  obtain ⟨hnodes, -⟩ := hconducts.nodes_nodup hp hminted hmades hq
  obtain ⟨c, hc, hsearched, aux, -, rfl⟩ := hconducts.exists_searched hq
  exact requestFor_wellFormed (hp.coherent.wellFormed c hc) hsearched.nonempty hnodes

end Compilation

namespace Grid

open Landscape

variable {α τ : Type} [ExtendedScalar α] {g : Grid α} {c : Chance α τ} {q : Request α} {fault : Fault}

lemma answer_eq_search {l : Landscape α} (h : ofRequest g q = .ok l) :
    g.answer c q = (g.search c l q.graph.nodes.length).map fun out =>
      ⟨out.1.bind (accept l q), out.2⟩ := by
  rw [answer, h]
  dsimp only
  cases g.search c l q.graph.nodes.length <;> rfl

lemma fault_eq_of_wellFormed (hq : q.WellFormed) (h : ofRequest g q = .error fault) :
    fault = .oversizedGraph q.graph.nodes.length maxNodes := by
  by_cases hn : q.graph.nodes.length ≤ maxNodes
  · cases h.symm.trans (ofRequest_eq_ok_iff.mpr ⟨⟨hq, hn⟩, rfl⟩)
  · rw [ofRequest, positions, if_pos (Nat.lt_of_not_le hn)] at h
    exact (Except.error.inj h).symm

end Grid

namespace Compilation

/-- Every request of a run is well formed, whatever was answered before. A grid has a landscape for each
of them, unless the graph is too large, and its answer is what the search of the landscape finds, if it
ends. -/
theorem asked_searched {α σ τ : Type} [ExtendedScalar α] (ask : Oracle α σ) (s : Settings α)
    (p : Problem) (o : σ) (g : Grid α) (c : Chance α τ) (hp : p.Reachable) (hs : s.flaw = none) :
    ∀ q ∈ asked ask s p o, q.WellFormed ∧
      (∀ fault, Landscape.ofRequest g q = .error fault →
        fault = .oversizedGraph q.graph.nodes.length Landscape.maxNodes) ∧
      (q.graph.nodes.length ≤ Landscape.maxNodes → ∃ l, Landscape.ofRequest g q = .ok l ∧
        g.answer c q = (g.search c l q.graph.nodes.length).map fun out =>
          ⟨out.1.bind (Grid.accept l q), out.2⟩) := by
  intro q hq
  have hw := asked_wellFormed hp hs q hq
  refine ⟨hw, fun fault h => Grid.fault_eq_of_wellFormed hw h, fun hn => ?_⟩
  have hl : Landscape.ofRequest g q = .ok (Landscape.ofWellFormed g q) :=
    Landscape.ofRequest_eq_ok_iff.mpr ⟨⟨hw, hn⟩, rfl⟩
  exact ⟨_, hl, Grid.answer_eq_search hl⟩

theorem asked_searched_of_threeEqual :
    ∃ q ∈ asked (uniform.oracle Grid.still) wide threeEqual (),
      q.graph.nodes = ["a", "b", "c", "aux1"] ∧ q.WellFormed ∧
      ∃ l, Landscape.ofRequest uniform q = .ok l := by
  have hnodes : (asked (uniform.oracle Grid.still) wide threeEqual ()).map (·.graph.nodes) =
      [["a", "b", "c"], ["a", "b", "c", "aux1"]] := by decide +kernel
  obtain ⟨q, hq, hgraph⟩ : ∃ q ∈ asked (uniform.oracle Grid.still) wide threeEqual (),
      q.graph.nodes = ["a", "b", "c", "aux1"] := by
    rw [← List.mem_map, hnodes]
    simp
  obtain ⟨hw, -, hadmitted⟩ := asked_searched (uniform.oracle Grid.still) wide threeEqual () uniform
    Grid.still threeEqual_reachable (by decide) q hq
  obtain ⟨l, hl, -⟩ := hadmitted (by simp [hgraph, Landscape.maxNodes])
  exact ⟨q, hq, hgraph, hw, l, hl⟩

end Compilation

end QuadraticPenalty
