import QuadraticPenalty.Vartype

/-!
What can be wrong with a constraint, a problem or a request, and the sentence that reports it.
-/

namespace QuadraticPenalty

inductive Owner where
  | constraint (name : String)
  | problem
  | graph
deriving DecidableEq

inductive Fault where
  | wrongArity (configuration : List Int) (expected : Nat)
  | outOfDomain (value : Int) (vartype : Vartype)
  | noConfiguration (arity : Nat)
  | repeatedVariable (label : String)
  | wrongCount (name : String) (expected found : Nat)
  | unknownVariable (label : String) (owner : Owner)
  | vartypeMismatch (expected found : Vartype)
  | unsatisfiable (label : String) (value : Int) (constraint : String)
  | unassigned (label : String)
  | noPenalty (constraint : String) (arity attempted limit : Nat)
  | oversizedGraph (nodes limit : Nat)
  | tooFewVariables (found : Nat)
  | tooManyClauses (requested available size : Nat) (satisfiable : Bool)
deriving DecidableEq

namespace Owner

def text : Owner → String
  | constraint name => "constraint '" ++ name ++ "'"
  | problem => "the constraint satisfaction problem"
  | graph => "graph"

end Owner

namespace Fault

def tupleText (c : List Int) : String :=
  "[" ++ ", ".intercalate (c.map toString) ++ "]"

def message : Fault → String
  | wrongArity c expected =>
    "configuration " ++ tupleText c ++ " has " ++ toString c.length ++ " values, expected " ++
      toString expected
  | outOfDomain value vartype =>
    "value " ++ toString value ++ " is not in the " ++ vartype.label ++ " domain"
  | noConfiguration arity =>
    "constraint over " ++ toString arity ++
      " variables must have at least one feasible configuration"
  | repeatedVariable label => "variable '" ++ label ++ "' appears more than once"
  | wrongCount name expected found =>
    name ++ " takes " ++ toString expected ++ " variables, got " ++ toString found
  | unknownVariable label owner => "variable '" ++ label ++ "' is not part of " ++ owner.text
  | vartypeMismatch expected found =>
    "vartype mismatch: expected " ++ expected.label ++ ", found " ++ found.label
  | unsatisfiable label value constraint =>
    "fixing '" ++ label ++ "' to " ++ toString value ++ " makes constraint '" ++ constraint ++
      "' unsatisfiable"
  | unassigned label => "no value assigned to variable '" ++ label ++ "'"
  | noPenalty constraint arity attempted limit =>
    "no penalty model for constraint '" ++ constraint ++ "' (" ++ toString arity ++
      " variables): tried graphs up to " ++ toString attempted ++
      " nodes, max_graph_size is " ++ toString limit
  | oversizedGraph nodes limit =>
    "invalid configuration: graph has " ++ toString nodes ++ " nodes, at most " ++
      toString limit ++ " can be enumerated"
  | tooFewVariables found =>
    "invalid configuration: a 2-in-4 problem needs at least 4 variables, got " ++ toString found
  | tooManyClauses requested available size satisfiable =>
    "invalid configuration: " ++ toString requested ++ " clauses requested, only " ++
      toString available ++ (if satisfiable then " satisfiable" else " distinct") ++
      " 2-in-4 clauses exist over " ++ toString size ++ " variables"

end Fault

end QuadraticPenalty
