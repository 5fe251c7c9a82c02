import QuadraticPenalty.Constraint.Algebra
import QuadraticPenalty.Order.SortedMap

/-!
A constraint satisfaction problem keeps its constraints in the order in which they were added, and
for each of its variables the positions of the constraints that mention it. An operation that
fails leaves no trace.
-/

namespace QuadraticPenalty

inductive Source where
  | predicate (p : List Int → Bool) (scope : List String)
  | configurations (cs : List (List Int)) (scope : List String)
  | constraint (c : Constraint)

def Source.build (vartype : Vartype) : Source → Except Fault Constraint
  | predicate p scope => Constraint.ofPredicate p scope vartype
  | configurations cs scope => Constraint.ofConfigurations cs scope vartype
  | constraint c =>
    if !c.scope.isEmpty && decide (c.vartype ≠ vartype) then
      .error (.vartypeMismatch vartype c.vartype)
    else .ok c

structure Problem where
  vartype : Vartype
  constraints : List Constraint
  index : SortedMap String (List Nat)
deriving DecidableEq

namespace Problem

def empty (vartype : Vartype) : Problem := ⟨vartype, [], .empty⟩

def addConstraint (p : Problem) (c : Constraint) : Problem :=
  { p with
    constraints := p.constraints ++ [c]
    index := c.scope.foldl
      (fun m v => m.update v fun old => old.getD [] ++ [p.constraints.length]) p.index }

def add (p : Problem) (s : Source) : Except Fault Problem := do
  return p.addConstraint (← s.build p.vartype)

def addVariable (p : Problem) (v : String) : Problem :=
  { p with index := p.index.update v (·.getD []) }

/-- Later labels are added first, so that each one is added in front of those before it. -/
def addVariables (p : Problem) (labels : List String) : Problem :=
  (SortedSet.ofList labels).toList.foldr (fun v p => p.addVariable v) p

def labels (p : Problem) : List String := p.index.keys

def mentions (p : Problem) (v : String) : List Constraint :=
  ((p.index.find? v).getD []).filterMap (p.constraints[·]?)

def holdAll (a : Assignment) : List Constraint → Except Fault Bool
  | [] => .ok true
  | c :: cs => do
    if ← c.holds a then holdAll a cs else return false

def holds (p : Problem) (a : Assignment) : Except Fault Bool := holdAll a p.constraints

def fixAt (v : String) (x : Int) (cs : List Constraint) (i : Nat) :
    Except Fault (List Constraint) :=
  match cs[i]? with
  | some c => do return cs.set i (← c.fix v x)
  | none => .ok cs

def fix (p : Problem) (v : String) (x : Int) : Except Fault Problem :=
  match p.index.find? v with
  | none => .error (.unknownVariable v .problem)
  | some positions =>
    if !p.vartype.contains x then
      .error (.outOfDomain x p.vartype)
    else do
      let constraints ← positions.foldlM (fixAt v x) p.constraints
      return { p with constraints, index := p.index.erase v }

end Problem

end QuadraticPenalty
