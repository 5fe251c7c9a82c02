import QuadraticPenalty.Constraint.Basic
import QuadraticPenalty.Grid.Settings
import QuadraticPenalty.Penalty.Request

/-!
A request over a grid of spin biases. A point of the grid has a digit for the bias of each node
and then for the coupling of each edge. Its energies, one for each state of the graph, tell how
far it is from an answer to the request.
-/

namespace QuadraticPenalty

open Scalar

structure Quality (α : Type) where
  ground : α
  gap : α
  cost : α

def Quality.isValid {α : Type} [Scalar α] (e : Quality α) : Bool := le e.cost tolerance

structure Landscape (α : Type) where
  levels : List Nat
  lows : List α
  step : α
  /-- For each state the sign that each bias has in its energy. -/
  signs : List (List Int)
  /-- For each state the number of the tuple that its decision variables form. -/
  decision : List Nat
  feasible : List Bool
  gap : α

namespace Landscape

variable {α : Type} [ExtendedScalar α]

def maxNodes : Nat := 20

def nodePosition (g : Graph) (v : String) : Except Fault Nat :=
  match g.nodes.findIdx? (· == v) with
  | some p => .ok p
  | none => .error (.unknownVariable v .graph)

def edgePosition (g : Graph) (e : String × String) : Except Fault (Nat × Nat) := do
  let u ← nodePosition g e.1
  let v ← nodePosition g e.2
  return (u, v)

def decisionPositions (g : Graph) : List String → List String → Except Fault (List Nat)
  | _, [] => .ok []
  | seen, v :: vs =>
    if v ∈ seen then .error (.repeatedVariable v)
    else do
      let p ← nodePosition g v
      return p :: (← decisionPositions g (v :: seen) vs)

def positions (r : Request α) : Except Fault (List Nat × List (Nat × Nat)) :=
  if maxNodes < r.graph.nodes.length then
    .error (.oversizedGraph r.graph.nodes.length maxNodes)
  else
    match Constraint.firstRepeat [] r.graph.nodes with
    | some v => .error (.repeatedVariable v)
    | none => do
      let edges ← r.graph.edges.mapM (edgePosition r.graph)
      let decision ← decisionPositions r.graph [] r.decision
      match r.feasible.toList.findSome? (Constraint.misfit r.vartype decision.length) with
      | some fault => .error fault
      | none =>
        if r.feasible.isEmpty then .error (.noConfiguration decision.length)
        else .ok (decision, edges)

def signsOf (edges : List (Nat × Nat)) (spins : List Int) : List Int :=
  spins ++ edges.map fun e => spins.getD e.1 0 * spins.getD e.2 0

def tupleNumber (positions : List Nat) (spins : List Int) : Nat :=
  positions.foldl (fun n p => 2 * n + if 0 < spins.getD p 0 then 1 else 0) 0

def ofRequest (g : Grid α) (r : Request α) : Except Fault (Landscape α) := do
  let (decision, edges) ← positions r
  let n := r.graph.nodes.length
  let states := Vartype.spin.tuples n
  return {
    levels := List.replicate n g.linearLevels ++ List.replicate edges.length g.couplingLevels
    lows := List.replicate n g.linear.1 ++ List.replicate edges.length g.coupling.1
    step := g.step
    signs := states.map (signsOf edges)
    decision := states.map (tupleNumber decision)
    feasible := (r.vartype.tuples decision.length).map fun c => decide (c ∈ r.feasible)
    gap := r.gap }

/-- There is a count as long as no product on the way to it leaves a word of 64 bits. -/
def pointCount (l : Landscape α) : Option Nat :=
  l.levels.foldlM (fun points n => if points * n < Nat.pow 2 64 then some (points * n) else none) 1

def values (l : Landscape α) (digits : List Nat) : List α :=
  List.zipWith (fun (d : Nat) low => low + ofInt d * l.step) digits l.lows

def addSigned : α → List Int → List α → α
  | e, s :: ss, x :: xs => addSigned (e + ofInt s * x) ss xs
  | e, _, _ => e

def signedSum (values : List α) : List Int → α
  | [] => zero
  | s :: ss =>
    match values with
    | [] => zero
    | x :: xs => addSigned (ofInt s * x) ss xs

def energies (l : Landscape α) (digits : List Nat) : List α :=
  let values := l.values digits
  l.signs.map (signedSum values)

def shift (l : Landscape α) (k : Nat) (delta : α) (energies : List α) : List α :=
  List.zipWith (fun e (row : List Int) => e + delta * ofInt (row.getD k 0)) energies l.signs

def lower : Array α → List Nat → List α → Array α
  | table, d :: ds, e :: es =>
    lower (table.modify d fun old => if lt e old then e else old) ds es
  | table, _, _ => table

def lowest (l : Landscape α) (energies : List α) : List α :=
  (lower (Array.replicate l.feasible.length ExtendedScalar.infinity) l.decision energies).toList

/-- A cost of zero leaves the feasible tuples at the ground and the others above the gap. -/
def quality (l : Landscape α) (energies : List α) : Quality α :=
  let table := (l.lowest energies).zip l.feasible
  let inside := (table.filter (·.2)).map (·.1)
  let outside := (table.filter (!·.2)).map (·.1)
  let ground := inside.foldl least ExtendedScalar.infinity
  let spread := inside.foldl (fun s e => s + (e - ground)) zero
  let shortfall := outside.foldl (fun s e => s + greatest (ground + l.gap - e) zero) zero
  { ground
    gap := outside.foldl (fun g e => least g (e - ground)) ExtendedScalar.infinity
    cost := spread + shortfall }

def qualityAt (l : Landscape α) (digits : List Nat) : Quality α :=
  l.quality (l.energies digits)

def modelAt (l : Landscape α) (g : Graph) (digits : List Nat) (ground : α) : QuadraticModel α :=
  let values := l.values digits
  let m := (g.nodes.zip values).foldl (fun m e => m.addBias e.1 e.2) (QuadraticModel.empty .spin)
  let m := (g.edges.zip (values.drop g.nodes.length)).foldl
    (fun m e => if isZero e.2 then m else m.addCoupling e.1.1 e.1.2 e.2) m
  m.addOffset (-ground)

end Landscape

end QuadraticPenalty
