import QuadraticPenalty.Assignment
import QuadraticPenalty.Fault
import QuadraticPenalty.Masks
import QuadraticPenalty.Order.SortedSet

/-!
A constraint lists the configurations of its variables that are allowed. It is well formed when
its variables are distinct, its configurations are tuples of domain values of its arity, and it
has one if it has a variable; every constraint that `checked` builds is.
-/

namespace QuadraticPenalty

structure Constraint where
  name : String
  vartype : Vartype
  scope : List String
  configurations : SortedSet (List Int)
deriving DecidableEq

namespace Constraint

def firstRepeat : List String → List String → Option String
  | _, [] => none
  | seen, v :: vs => if v ∈ seen then some v else firstRepeat (v :: seen) vs

def misfit (vartype : Vartype) (arity : Nat) (c : List Int) : Option Fault :=
  if c.length ≠ arity then some (.wrongArity c arity)
  else (c.find? fun x => !vartype.contains x).map fun x => .outOfDomain x vartype

def flaw (c : Constraint) : Option Fault :=
  match firstRepeat [] c.scope with
  | some v => some (.repeatedVariable v)
  | none =>
    if c.configurations.isEmpty && !c.scope.isEmpty then
      some (.noConfiguration c.scope.length)
    else c.configurations.toList.findSome? (misfit c.vartype c.scope.length)

def WellFormed (c : Constraint) : Prop :=
  c.scope.Nodup ∧
    (∀ x ∈ c.configurations, x.length = c.scope.length ∧ ∀ y ∈ x, y ∈ c.vartype.values) ∧
    (c.scope ≠ [] → c.configurations.toList ≠ [])

def checked (c : Constraint) : Except Fault Constraint :=
  match c.flaw with
  | some fault => .error fault
  | none => .ok c

def defaultName : String := "Constraint"

def ofConfigurations (configurations : List (List Int)) (scope : List String)
    (vartype : Vartype) : Except Fault Constraint :=
  checked ⟨defaultName, vartype, scope, .ofList configurations⟩

def ofPredicate (p : List Int → Bool) (scope : List String) (vartype : Vartype) :
    Except Fault Constraint :=
  match firstRepeat [] scope with
  | some v => .error (.repeatedVariable v)
  | none =>
    checked ⟨defaultName, vartype, scope, .ofList ((vartype.maskedTuples scope.length).filter p)⟩

def rename (c : Constraint) (name : String) : Constraint := { c with name }

def arity (c : Constraint) : Nat := c.scope.length

def position (c : Constraint) (v : String) : Option Nat := c.scope.findIdx? (· == v)

def accepts (c : Constraint) (values : List Int) : Bool := decide (values ∈ c.configurations)

def valuesIn (c : Constraint) (a : Assignment) : Except Fault (List Int) :=
  c.scope.mapM fun v =>
    match a v with
    | some x => .ok x
    | none => .error (.unassigned v)

def holds (c : Constraint) (a : Assignment) : Except Fault Bool := do
  return c.accepts (← c.valuesIn a)

/-- Every tuple of the domain is allowed. Domains of `2 ^ 128` tuples and more are not counted. -/
def isFull (c : Constraint) : Bool :=
  decide (c.arity < 128) && c.configurations.size == Vartype.tupleCount c.arity

/-- Names do not tell constraints apart. -/
def same (c d : Constraint) : Bool :=
  c.scope == d.scope && decide (c.configurations = d.configurations) &&
    decide (c.vartype = d.vartype)

def isConsistent (c : Constraint) : Bool :=
  c.configurations.toList.all (fun x => (misfit c.vartype c.arity x).isNone) &&
    (c.vartype.maskedTuples c.arity).all fun x =>
      match c.holds (.ofLists c.scope x) with
      | .ok b => b == c.accepts x
      | .error _ => false

def domainText (n : Nat) : String :=
  if n < 128 then toString (Vartype.tupleCount n) else "2^" ++ toString n

def summary (c : Constraint) : String :=
  c.name ++ "(" ++ ", ".intercalate c.scope ++ "; " ++ toString c.configurations.size ++
    " of " ++ domainText c.arity ++ " configurations, " ++ c.vartype.label ++ ")"

end Constraint

end QuadraticPenalty
