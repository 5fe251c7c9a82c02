import QuadraticPenalty.Problem.Basic

/-!
The operations on a problem that is changed in place, one write after the other. A call that fails
stops there, and what it has written by then stays.
-/

namespace QuadraticPenalty.Problem

abbrev Edit := ExceptT Fault (StateM Problem)

namespace Edit

variable {β : Type}

def perform (e : Edit β) (p : Problem) : Except Fault β × Problem := StateT.run (ExceptT.run e) p

def ofExcept (x : Except Fault β) : Edit β := ExceptT.mk (pure x)

def enter (position : Nat) (v : String) : Edit Unit :=
  modify fun p => { p with index := p.index.update v fun old => old.getD [] ++ [position] }

def add (s : Source) : Edit Nat := do
  let p ← get
  let c ← ofExcept (s.build p.vartype)
  forM c.scope (enter p.constraints.length)
  modify fun p => { p with constraints := p.constraints ++ [c] }
  return p.constraints.length

def addVariable (v : String) : Edit Unit := modify fun p => p.addVariable v

def reduce (v : String) (x : Int) (position : Nat) : Edit (Option (Nat × Constraint)) := do
  match (← get).constraints[position]? with
  | some c => return some (position, ← ofExcept (c.fix v x))
  | none => return none

def replace : Option (Nat × Constraint) → Edit Unit
  | some (position, c) => modify fun p => { p with constraints := p.constraints.set position c }
  | none => return

def fix (v : String) (x : Int) : Edit Unit := do
  let p ← get
  match p.index.find? v with
  | none => throw (.unknownVariable v .problem)
  | some positions =>
    if !p.vartype.contains x then throw (.outOfDomain x p.vartype)
    else
      let reduced ← positions.mapM (reduce v x)
      forM reduced replace
      modify fun p => { p with index := p.index.erase v }

end Edit

inductive Command where
  | add (s : Source)
  | addVariable (v : String)
  | fix (v : String) (x : Int)

namespace Command

def edit : Command → Edit Unit
  | add s => do let _ ← Edit.add s
  | addVariable v => Edit.addVariable v
  | fix v x => Edit.fix v x

end Command

def performAll (cs : List Command) (p : Problem) : Problem :=
  cs.foldl (fun p c => (c.edit.perform p).2) p

end QuadraticPenalty.Problem
