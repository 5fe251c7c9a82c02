import QuadraticPenalty.Constraint.Factors
import QuadraticPenalty.Penalty.Request

namespace QuadraticPenalty

inductive Event (α : Type) where
  | vacuous (constraint : String)
  | oversized (constraint : String) (arity limit : Nat)
  | trivial (constraint : String)
  | decomposed (constraint : String) (groups : Nat)
  | closedForm (constraint : String) (arity : Nat)
  | searching (constraint : String) (arity : Nat) (gap : α)
  | asked (constraint : String) (request : Request α)
  | malformed (fault : Fault)
  | scanning (nodes points : Nat)
  | annealing (nodes : Nat) (points : Option Nat)
  | restartEnded (restart moves : Nat) (bestCost : α)
  | annealingEnded (moves accepted improving : Nat) (bestCost : α)
  | found (constraint : String) (nodes : Nat) (gap : α)
  | gapTooSmall (constraint : String) (gap : α)
  | exhausted (constraint : String) (attempted limit : Nat)
  | finished (constraints labels auxiliaries couplings : Nat)
  | generated (size clauses : Nat) (satisfiable : Bool) (seed : Nat)

inductive Datum (α : Type) where
  | text (s : String)
  | count (n : Nat)
  | flag (b : Bool)
  | real (a : α)

namespace Event

variable {α : Type}

def level : Event α → String
  | vacuous _ | asked _ _ | gapTooSmall _ _ | restartEnded _ _ _ | annealingEnded _ _ _ _ => "TRACE"
  | oversized _ _ _ | malformed _ | exhausted _ _ _ => "WARN"
  | _ => "DEBUG"

def message : Event α → String
  | vacuous _ => "skipping vacuous constraint"
  | oversized _ _ _ => "constraint does not fit in max_graph_size"
  | trivial _ => "trivial constraint"
  | decomposed _ _ => "decomposed constraint"
  | closedForm _ _ => "closed form"
  | searching _ _ _ => "searching penalty model"
  | asked _ _ => "trying candidate graph"
  | malformed _ => "malformed oracle request"
  | scanning _ _ => "scanning bias lattice"
  | annealing _ _ => "annealing bias lattice"
  | restartEnded _ _ _ => "annealing restart finished"
  | annealingEnded _ _ _ _ => "annealing finished"
  | found _ _ _ => "penalty model found"
  | gapTooSmall _ _ => "gap too small, growing graph"
  | exhausted _ _ _ => "no penalty model found"
  | finished _ _ _ _ => "stitching finished"
  | generated _ _ _ _ => "generated random 2-in-4 problem"

def countText : Option Nat → String
  | some n => "Some(" ++ toString n ++ ")"
  | none => "None"

def fields : Event α → List (String × Datum α)
  | vacuous c => [("constraint", .text c)]
  | oversized c n limit =>
    [("constraint", .text c), ("num_variables", .count n), ("max_graph_size", .count limit)]
  | trivial c => [("constraint", .text c)]
  | decomposed c n => [("constraint", .text c), ("groups", .count n)]
  | closedForm c n => [("constraint", .text c), ("num_variables", .count n)]
  | searching c n gap =>
    [("constraint", .text c), ("num_variables", .count n), ("min_classical_gap", .real gap)]
  | asked c request => [("constraint", .text c), ("nodes", .count request.graph.nodes.length)]
  | malformed fault => [("error", .text fault.message)]
  | scanning nodes points => [("nodes", .count nodes), ("points", .count points)]
  | annealing nodes points => [("nodes", .count nodes), ("points", .text (countText points))]
  | restartEnded restart moves cost =>
    [("restart", .count restart), ("moves", .count moves), ("best_cost", .real cost)]
  | annealingEnded moves accepted improving cost =>
    [("iterations", .count moves), ("accepted", .count accepted), ("improving", .count improving),
      ("best_cost", .real cost)]
  | found c nodes gap =>
    [("constraint", .text c), ("nodes", .count nodes), ("classical_gap", .real gap)]
  | gapTooSmall c gap => [("constraint", .text c), ("classical_gap", .real gap)]
  | exhausted c attempted limit =>
    [("constraint", .text c), ("attempted_graph_size", .count attempted),
      ("max_graph_size", .count limit)]
  | finished constraints labels auxiliaries couplings =>
    [("constraints", .count constraints), ("variables", .count labels),
      ("auxiliaries", .count auxiliaries), ("interactions", .count couplings)]
  | generated size clauses satisfiable seed =>
    [("num_variables", .count size), ("num_clauses", .count clauses),
      ("satisfiable", .flag satisfiable), ("seed", .count seed)]

def ofFactors (c : Constraint) : Event α := decomposed c.name c.factors.length

def request? : Event α → Option (Request α)
  | asked _ request => some request
  | _ => none

end Event

end QuadraticPenalty
