import QuadraticPenalty.Constraint.Basic

/-!
Operations on constraints: disjunction, conjunction, projection onto some of the variables, and
the substitution and the complement of a variable.
-/

namespace QuadraticPenalty

namespace Constraint

def pick (positions : List Nat) (c : List Int) : List Int := positions.map fun p => c.getD p 0

def jointVariables (c d : Constraint) : List String :=
  c.scope ++ d.scope.filter fun v => decide (v ∉ c.scope)

def combine (op : Bool → Bool → Bool) (name : String) (c d : Constraint) :
    Except Fault Constraint :=
  if !c.scope.isEmpty && !d.scope.isEmpty && decide (c.vartype ≠ d.vartype) then
    .error (.vartypeMismatch c.vartype d.vartype)
  else
    let vartype := if c.scope.isEmpty then d.vartype else c.vartype
    let scope := jointVariables c d
    let positions := d.scope.map fun v => scope.findIdx (· == v)
    let allowed := (vartype.maskedTuples scope.length).filter fun x =>
      op (c.accepts (x.take c.arity)) (d.accepts (pick positions x))
    checked ⟨name, vartype, scope, .ofList allowed⟩

def union (c d : Constraint) : Except Fault Constraint :=
  combine (· || ·) (c.name ++ " | " ++ d.name) c d

def intersection (c d : Constraint) : Except Fault Constraint :=
  combine (· && ·) (c.name ++ " & " ++ d.name) c d

def positionOf (c : Constraint) (v : String) : Except Fault Nat :=
  match c.position v with
  | some p => .ok p
  | none => .error (.unknownVariable v (.constraint c.name))

def project (c : Constraint) (labels : List String) : Except Fault Constraint := do
  let positions ← labels.mapM c.positionOf
  checked { c with scope := labels, configurations := c.configurations.map (pick positions) }

def fix (c : Constraint) (v : String) (x : Int) : Except Fault Constraint := do
  let p ← c.positionOf v
  if !c.vartype.contains x then
    .error (.outOfDomain x c.vartype)
  else
    let left := (c.configurations.filter fun y => y.getD p 0 == x).map (·.eraseIdx p)
    if left.isEmpty then
      .error (.unsatisfiable v x c.name)
    else
      return {
        name := c.name ++ " (" ++ v ++ " fixed to " ++ toString x ++ ")"
        vartype := c.vartype
        scope := c.scope.eraseIdx p
        configurations := left }

def flip (c : Constraint) (v : String) : Except Fault Constraint := do
  let p ← c.positionOf v
  return { c with
    name := c.name ++ " (" ++ v ++ " flipped)"
    configurations := c.configurations.map (·.modify p c.vartype.flip) }

end Constraint

end QuadraticPenalty
