import QuadraticPenalty.Annealing.Walk
import QuadraticPenalty.Grid.Scan
import QuadraticPenalty.Penalty.Oracle

/-!
The oracle that searches a grid of biases: small grids are scanned and large ones annealed. A
point that the search returns is judged again before its model is the answer.
-/

namespace QuadraticPenalty

open Scalar

namespace Grid

variable {α σ : Type} [ExtendedScalar α]

def anneal (l : Landscape α) (c : Chance α σ) (s : Schedule α) (nodes : Nat)
    (points : Option Nat) : Option (Option (List Nat) × List (Event α)) := do
  let (r, events) ← Annealing.run l c s
  return (if r.succeeded then some r.best else none,
    [.annealing nodes points] ++ events ++
      [.annealingEnded r.moves r.accepted r.improving r.bestCost])

def search (g : Grid α) (c : Chance α σ) (l : Landscape α) (nodes : Nat) :
    Option (Option (List Nat) × List (Event α)) :=
  match l.pointCount with
  | some n =>
    if n ≤ g.scanLimit then some (l.scan, [.scanning nodes n])
    else anneal l c g.schedule nodes (some n)
  | none => anneal l c g.schedule nodes none

def accept (l : Landscape α) (r : Request α) (digits : List Nat) : Option (PenaltyModel α) :=
  let e := l.qualityAt digits
  if !e.isValid || lt e.gap (r.gap - tolerance) then none
  else some ⟨(l.modelAt r.graph digits e.ground).toVartype r.vartype, e.gap⟩

def answer (g : Grid α) (c : Chance α σ) (r : Request α) : Option (Reply α) :=
  match Landscape.ofRequest g r with
  | .error fault => some ⟨none, [.malformed fault]⟩
  | .ok l => do
    let (digits, events) ← g.search c l r.graph.nodes.length
    return ⟨digits.bind (accept l r), events⟩

/-- An oracle always replies, so a search that does not end stands for one that finds nothing. -/
def oracle (g : Grid α) (c : Chance α σ) : Oracle α Unit :=
  fun r s => ((g.answer c r).getD ⟨none, []⟩, s)

end Grid

end QuadraticPenalty
