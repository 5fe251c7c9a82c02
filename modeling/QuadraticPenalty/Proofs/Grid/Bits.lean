import QuadraticPenalty.Proofs.Constraint.Bits
import QuadraticPenalty.Proofs.Grid.Answer
import QuadraticPenalty.Proofs.Penalty.Mirror

namespace QuadraticPenalty

open Scalar Landscape

def Request.inBits {α : Type} (r : Request α) : Request α :=
  { r with vartype := .binary, feasible := r.feasible.map Vartype.bits }

def PenaltyModel.inBits {α : Type} [Scalar α] (f : PenaltyModel α) : PenaltyModel α :=
  { f with model := f.model.toVartype .binary }

variable {σ : Type} {g : Grid Extended} {ch : Chance Extended σ} {r : Request Extended}
  {l : Landscape Extended} {found : PenaltyModel Extended}

lemma vartype_modelAt (l : Landscape Extended) (g : Graph) (digits : List ℕ) (ground : Extended) :
    (l.modelAt g digits ground).vartype = .spin := by
  let keepsSpin (m : QuadraticModel Extended) := m.vartype = .spin
  refine List.foldlRecOn (motive := keepsSpin) (g.edges.zip ((l.values digits).drop g.nodes.length)) _
    ?_ fun m hm e _ => ?_
  · exact List.foldlRecOn (motive := keepsSpin) (g.nodes.zip (l.values digits)) _ rfl
      fun m hm e _ => hm
  · split
    · exact hm
    · exact QuadraticModel.vartype_addCoupling.trans hm

section Spins

variable (hs : r.vartype = .spin) (hfit : ∀ c ∈ r.feasible, Vartype.spin.IsTuple r.decision.length c)

include hs hfit

lemma Request.wellFormed_inBits : r.inBits.WellFormed ↔ r.WellFormed := by
  have hnil : r.inBits.feasible.toList ≠ [] ↔ r.feasible.toList ≠ [] := by
    have hsize : r.inBits.feasible.size = r.feasible.size := size_map_bits hfit
    rw [← List.length_pos_iff, ← List.length_pos_iff]
    exact iff_of_eq (congrArg (0 < ·) hsize)
  constructor
  · intro h
    exact ⟨h.nodes, h.edges, h.nodup, h.decision, hnil.mp h.nonempty, hs ▸ hfit⟩
  · intro h
    refine ⟨h.nodes, h.edges, h.nodup, h.decision, hnil.mpr h.nonempty, fun c hc => ?_⟩
    obtain ⟨x, hx, rfl⟩ := SortedSet.mem_map.mp hc
    exact (hfit x hx).bits

lemma Landscape.ofWellFormed_inBits (g : Grid Extended) :
    ofWellFormed g r.inBits = ofWellFormed g r := by
  have hfeasible : (r.inBits.vartype.tuples r.inBits.decision.length).map
      (fun c => decide (c ∈ r.inBits.feasible)) =
        (r.vartype.tuples r.decision.length).map fun c => decide (c ∈ r.feasible) := by
    change (Vartype.binary.tuples r.decision.length).map _ = _
    rw [hs, ← Vartype.map_bits_tuples, List.map_map]
    refine List.map_congr_left fun c hc => decide_eq_decide.mpr ?_
    exact mem_map_bits hfit (Vartype.mem_tuples.mp hc)
  rw [ofWellFormed, hfeasible]
  rfl

lemma Landscape.ofRequest_inBits (g : Grid Extended) :
    (ofRequest g r.inBits).toOption = (ofRequest g r).toOption := by
  have hsome : ∀ (x : Except Fault (Landscape Extended)) l, x.toOption = some l ↔ x = .ok l := by
    rintro (f | m) l <;> simp [Except.toOption]
  apply Option.ext
  intro l
  rw [hsome, hsome, ofRequest_eq_ok_iff, ofRequest_eq_ok_iff, Request.wellFormed_inBits hs hfit,
    ofWellFormed_inBits hs hfit]
  rfl

omit hfit in
lemma Grid.accept_inBits (digits : List ℕ) :
    accept l r.inBits digits = (accept l r digits).map PenaltyModel.inBits := by
  have hspin : (l.modelAt r.graph digits (l.qualityAt digits).ground).toVartype r.vartype =
      l.modelAt r.graph digits (l.qualityAt digits).ground :=
    if_pos (hs.trans (vartype_modelAt ..).symm)
  unfold accept
  dsimp only
  rw [hspin]
  change (if (!(l.qualityAt digits).isValid || lt (l.qualityAt digits).gap (r.gap - tolerance)) = true
    then none else _) = _
  split <;> rfl

omit hs hfit in
lemma Grid.penalty?_oracle (g : Grid Extended) (ch : Chance Extended σ) (r : Request Extended)
    (t : Unit) : (g.oracle ch r t).1.penalty? = (ofRequest g r).toOption.bind fun l =>
      (g.search ch l r.graph.nodes.length).bind fun out => out.1.bind (accept l r) := by
  unfold oracle answer
  cases ofRequest g r with
  | error fault => rfl
  | ok l =>
    dsimp only
    cases hsearch : g.search ch l r.graph.nodes.length <;> simp [hsearch, Except.toOption]

lemma Grid.oracle_inBits (g : Grid Extended) (ch : Chance Extended σ) (t : Unit) :
    (g.oracle ch r.inBits t).1.penalty? = (g.oracle ch r t).1.penalty?.map PenaltyModel.inBits := by
  rw [penalty?_oracle, penalty?_oracle, ofRequest_inBits hs hfit]
  cases (ofRequest g r).toOption with
  | none => rfl
  | some l =>
    change ((g.search ch l r.graph.nodes.length).bind fun out => out.1.bind (accept l r.inBits)) = _
    rw [Option.bind_some, Option.map_bind]
    refine congrArg _ (funext fun out => ?_)
    rw [Function.comp_apply, Option.map_bind]
    exact congrArg _ (funext fun digits => accept_inBits hs digits)

omit hfit in
lemma Grid.mirrors_of_oracle {γ : ℚ} {t : Unit} (hg : g.flaw = none) (hγ : r.gap = .finite γ)
    (h : (g.oracle ch r t).1.penalty? = some found) :
    QuadraticModel.Mirrors (found.model.toVartype .spin) (found.inBits.model.toVartype .binary) := by
  obtain ⟨events, h⟩ := answer_of_oracle h
  obtain ⟨⟨hr, -⟩, digits, biases, ground, e, hj, -, rfl⟩ := exists_judged_of_answer hg hγ h
  obtain ⟨hw, hfin, ht, -⟩ := hj.answerModel_frame hr
  obtain ⟨k, hk⟩ := hfin.exists_exact
  have hkw : k.WellFormed := QuadraticModel.exact_wellFormed.mp (hk ▸ hw)
  have hkt : k.vartype = .spin := (congrArg QuadraticModel.vartype hk).trans (ht.trans hs)
  obtain ⟨hbt, -⟩ := QuadraticModel.toVartype_frame hkw .binary
  refine ⟨k, hkw, hkt, ?_, ?_⟩
  · change (answerModel g r digits).toVartype .spin = k.exact
    rw [← hk]
    exact if_pos hkt.symm
  · change ((answerModel g r digits).toVartype .binary).toVartype .binary = _
    rw [← hk, ← QuadraticModel.exact_toVartype]
    exact if_pos hbt.symm

end Spins

end QuadraticPenalty
