import QuadraticPenalty.Proofs.Constraint.Products
import QuadraticPenalty.Proofs.Grid.Alike
import QuadraticPenalty.Proofs.Grid.Answer

namespace QuadraticPenalty

open Scalar Constraint

section Tuples

variable {t : Vartype} {scope vs : List String} {x y : List ℤ}

lemma restriction_back (hn : scope.Nodup) (hvs : vs.Perm scope) (hx : x.length = scope.length) :
    restriction vs scope (restriction scope vs x) = x := by
  rw [restriction_restriction fun v hv => hvs.symm.subset hv, restriction_self hn hx]

lemma restriction_inj (hn : scope.Nodup) (hvs : vs.Perm scope) (hx : x.length = scope.length)
    (hy : y.length = scope.length) : restriction scope vs x = restriction scope vs y ↔ x = y := by
  refine ⟨fun h => ?_, fun h => h ▸ rfl⟩
  rw [← restriction_back hn hvs hx, h, restriction_back hn hvs hy]

lemma restriction_isTuple (hn : scope.Nodup) (hvs : ∀ v ∈ vs, v ∈ scope)
    (hx : t.IsTuple scope.length x) : t.IsTuple vs.length (restriction scope vs x) := by
  obtain ⟨f, rfl⟩ := Assignment.exists_map_of_length hn hx.1
  rw [restriction_map f hvs]
  refine ⟨List.length_map .., fun y hy => ?_⟩
  obtain ⟨v, hv, rfl⟩ := List.mem_map.mp hy
  exact hx.2 _ (List.mem_map_of_mem (hvs v hv))

lemma map_restriction (hn : scope.Nodup) (hvs : ∀ v ∈ vs, v ∈ scope) (hx : x.length = scope.length)
    (g : ℤ → ℤ) : (restriction scope vs x).map g = restriction scope vs (x.map g) := by
  obtain ⟨f, rfl⟩ := Assignment.exists_map_of_length hn hx
  rw [restriction_map f hvs, List.map_map, List.map_map, restriction_map _ hvs]

lemma tuples_relisted (hn : scope.Nodup) (hvs : vs.Perm scope) :
    ((t.tuples scope.length).map (restriction scope vs)).Perm (t.tuples vs.length) := by
  have hinj := (t.tuples_nodup scope.length).map_on fun x hx y hy h =>
    (restriction_inj hn hvs (Vartype.mem_tuples.mp hx).1 (Vartype.mem_tuples.mp hy).1).mp h
  rw [List.perm_ext_iff_of_nodup hinj (t.tuples_nodup vs.length)]
  intro y
  rw [List.mem_map, Vartype.mem_tuples]
  constructor
  · rintro ⟨x, hx, rfl⟩
    exact restriction_isTuple hn (fun v hv => hvs.subset hv) (Vartype.mem_tuples.mp hx)
  · intro hy
    have hn' : vs.Nodup := hvs.nodup_iff.mpr hn
    exact ⟨restriction vs scope y, Vartype.mem_tuples.mpr
      (restriction_isTuple hn' (fun v hv => hvs.symm.subset hv) hy), restriction_back hn' hvs.symm hy.1⟩

end Tuples

def Request.relisted {α : Type} (r : Request α) (vs : List String) : Request α :=
  { r with decision := vs, feasible := r.feasible.map (restriction r.decision vs) }

variable {r : Request Extended} {vs : List String} {c : List ℤ}

lemma Request.mem_relisted (hr : r.WellFormed) (hvs : vs.Perm r.decision)
    (hc : c.length = r.decision.length) :
    restriction r.decision vs c ∈ (r.relisted vs).feasible ↔ c ∈ r.feasible := by
  change _ ∈ r.feasible.map (restriction r.decision vs) ↔ _
  rw [SortedSet.mem_map]
  constructor
  · rintro ⟨d, hd, h⟩
    rwa [← (restriction_inj hr.nodup hvs (hr.tuples d hd).1 hc).mp h]
  · exact fun h => ⟨c, h, rfl⟩

lemma Request.WellFormed.relisted (hr : r.WellFormed) (hvs : vs.Perm r.decision) :
    (r.relisted vs).WellFormed where
  nodes := hr.nodes
  edges := hr.edges
  nodup := hvs.nodup_iff.mpr hr.nodup
  decision v hv := hr.decision v (hvs.subset hv)
  nonempty := by
    obtain ⟨c, hc⟩ := List.exists_mem_of_ne_nil _ hr.nonempty
    exact List.ne_nil_of_mem ((Request.mem_relisted hr hvs (hr.tuples c hc).1).mpr hc)
  tuples d hd := by
    obtain ⟨c, hc, rfl⟩ := SortedSet.mem_map.mp hd
    exact restriction_isTuple hr.nodup (fun v hv => hvs.subset hv) (hr.tuples c hc)

namespace Landscape

variable {g : Grid Extended} {energies : List Extended}

def leastIn (r : Request Extended) (energies : List Extended) (c : List ℤ) : Extended :=
  ((((Vartype.spin.tuples r.graph.nodes.length).zip energies).filter fun e =>
    pick (decisionIndex r) e.1 = c.map r.vartype.toSpin).map Prod.snd).foldl
      (fun old e => if Scalar.lt e old then e else old) ExtendedScalar.infinity

lemma lowest_eq_leastIn (hr : r.WellFormed) (energies : List Extended) :
    (ofWellFormed g r).lowest energies =
      (r.vartype.tuples r.decision.length).map (leastIn r energies) := by
  have hsize : (ofWellFormed g r).feasible.length = 2 ^ r.decision.length := by simp [ofWellFormed]
  apply List.ext_getElem?
  intro i
  rw [lowest, Array.getElem?_toList, lower_getElem?, Array.getElem?_replicate, hsize,
    Vartype.tuples_eq, List.map_map, List.getElem?_map]
  by_cases hi : i < 2 ^ r.decision.length
  · rw [if_pos hi, List.getElem?_range hi, Option.map_some, Option.map_some]
    have hzip : (ofWellFormed g r).decision.zip energies =
        ((Vartype.spin.tuples r.graph.nodes.length).zip energies).map
          fun e => (tupleNumber (decisionIndex r) e.1, e.2) := List.zip_map_left ..
    rw [Function.comp_apply, leastIn, hzip, List.filter_map, List.map_map]
    refine congrArg some (congrArg _ (congrArg _ (List.filter_congr fun e he => ?_)))
    have hstate := Vartype.mem_tuples.mp (List.of_mem_zip he).1
    simp only [Function.comp_apply, tupleNumber_eq_iff hr hi hstate]
  · rw [if_neg hi, List.getElem?_eq_none (by simpa using hi)]
    rfl

lemma leastIn_relisted (hr : r.WellFormed) (hvs : vs.Perm r.decision)
    (hc : c.length = r.decision.length) :
    leastIn (r.relisted vs) energies (restriction r.decision vs c) = leastIn r energies c := by
  have hsub : ∀ v ∈ vs, v ∈ r.decision := fun v hv => hvs.subset hv
  have hpick : ∀ y, pick (decisionIndex (r.relisted vs)) y =
      restriction r.decision vs (pick (decisionIndex r) y) := by
    intro y
    have hdecision : pick (decisionIndex r) y = r.decision.map (spinAt r.graph y) := List.map_map ..
    rw [hdecision, restriction_map _ hsub]
    exact List.map_map ..
  have hstates : ∀ y, (pick (decisionIndex (r.relisted vs)) y =
      (restriction r.decision vs c).map (r.relisted vs).vartype.toSpin) ↔
        pick (decisionIndex r) y = c.map r.vartype.toSpin := by
    intro y
    rw [hpick, map_restriction hr.nodup hsub hc]
    exact restriction_inj hr.nodup hvs (by simp [pick, decisionIndex]) (by simpa using hc)
  simp only [leastIn, hstates]
  rfl

lemma alike_relisted (g : Grid Extended) (hr : r.WellFormed) (hvs : vs.Perm r.decision) :
    (ofWellFormed g (r.relisted vs)).Alike (ofWellFormed g r) := by
  refine ⟨rfl, rfl, rfl, rfl, fun energies => quality_eq_of_perm ?_ rfl⟩
  rw [lowest_eq_leastIn (hr.relisted hvs), lowest_eq_leastIn hr]
  change (((r.vartype.tuples vs.length).map (leastIn (r.relisted vs) energies)).zip
    ((r.vartype.tuples vs.length).map fun c => decide (c ∈ (r.relisted vs).feasible))).Perm
      (((r.vartype.tuples r.decision.length).map (leastIn r energies)).zip
        ((r.vartype.tuples r.decision.length).map fun c => decide (c ∈ r.feasible)))
  rw [List.zip_map', List.zip_map']
  refine ((tuples_relisted hr.nodup hvs).symm.map _).trans (.of_eq ?_)
  rw [List.map_map]
  refine List.map_congr_left fun c hc => ?_
  have hlength := (Vartype.mem_tuples.mp hc).1
  simp only [Function.comp_apply, leastIn_relisted hr hvs hlength, Request.mem_relisted hr hvs hlength]

end Landscape

namespace Grid

open Landscape

lemma answer_oversized {α σ : Type} [ExtendedScalar α] (g : Grid α) (ch : Chance α σ)
    {r : Request α} (h : maxNodes < r.graph.nodes.length) : g.answer ch r =
      some ⟨none, [.malformed (.oversizedGraph r.graph.nodes.length maxNodes)]⟩ := by
  have hpositions : positions r = .error (.oversizedGraph r.graph.nodes.length maxNodes) := if_pos h
  have hrequest : ofRequest g r = .error (.oversizedGraph r.graph.nodes.length maxNodes) := by
    rw [ofRequest, hpositions]
    rfl
  rw [answer, hrequest]

/-- On either way of searching, and with the same draws, the whole answer is the same. -/
theorem answer_relisted {σ : Type} (g : Grid Extended) (ch : Chance Extended σ)
    (r : Request Extended) (vs : List String) (hr : r.WellFormed) (hvs : vs.Perm r.decision) :
    (r.relisted vs).WellFormed ∧ g.answer ch (r.relisted vs) = g.answer ch r := by
  refine ⟨hr.relisted hvs, ?_⟩
  by_cases hn : r.graph.nodes.length ≤ maxNodes
  · have halike := alike_relisted g hr hvs
    rw [answer, answer, ofRequest_eq_ok_iff.mpr ⟨⟨hr.relisted hvs, hn⟩, rfl⟩,
      ofRequest_eq_ok_iff.mpr ⟨⟨hr, hn⟩, rfl⟩]
    dsimp only
    rw [search_congr halike, funext (accept_congr halike)]
    rfl
  · have hlarge : maxNodes < r.graph.nodes.length := not_le.mp hn
    exact (answer_oversized g ch (r := r.relisted vs) hlarge).trans (answer_oversized g ch hlarge).symm

def orderedBits : Request Extended :=
  { equalBits with feasible := ⟨[[0, 0], [1, 0], [1, 1]], by decide⟩ }

lemma orderedBits_wellFormed : orderedBits.WellFormed :=
  { equalBits_wellFormed with
    nonempty := by decide
    tuples := fun c hc => by
      change c ∈ [[0, 0], [1, 0], [1, 1]] at hc
      simp only [List.mem_cons, List.not_mem_nil, or_false] at hc
      rcases hc with rfl | rfl | rfl
      exacts [⟨rfl, by decide⟩, ⟨rfl, by decide⟩, ⟨rfl, by decide⟩] }

theorem answer_relisted_of_orderedBits :
    (orderedBits.relisted ["a", "b"]).feasible.toList = [[0, 0], [0, 1], [1, 1]] ∧
      Grid.default.answer still (orderedBits.relisted ["a", "b"]) =
        Grid.default.answer still orderedBits := by
  have hanswers := answer_relisted Grid.default still orderedBits ["a", "b"] orderedBits_wellFormed
    (.swap ..)
  exact ⟨by cbv, hanswers.2⟩

end Grid

end QuadraticPenalty
