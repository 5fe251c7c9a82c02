import QuadraticPenalty.Chance.Dice
import QuadraticPenalty.Constraint.TwoInFour
import QuadraticPenalty.Penalty.Event
import QuadraticPenalty.Problem.Basic

/-!
Random problems of distinct 2-in-4 clauses over numbered variables. A planted solution, if one is
asked for, satisfies every clause that is drawn.
-/

namespace QuadraticPenalty

namespace RandomProblem

structure Settings where
  size : Nat
  clauses : Nat
  vartype : Vartype
  satisfiable : Bool

/-- The product wraps in its word. -/
def quadruples (n : Nat) : BitVec 128 :=
  .ofNat 128 n * .ofNat 128 (n - 1) * .ofNat 128 (n - 2) * .ofNat 128 (n - 3) / 24

/-- Complementing every literal leaves a clause as it is: of the polarities half are distinct, and
of those that agree with a planted solution too. -/
def Settings.available (s : Settings) : Nat :=
  ((if s.satisfiable then 3 else 8) * quadruples s.size).toNat

def Settings.flaw (s : Settings) : Option Fault :=
  if s.size < 4 then some (.tooFewVariables s.size)
  else if s.available < s.clauses then
    some (.tooManyClauses s.clauses s.available s.size s.satisfiable)
  else none

def labelOf (i : Nat) : String := "v" ++ toString i

variable {σ : Type}

def drawPlanted (d : Dice σ) (s : Settings) (c : σ) : Option (Array Bool) × σ :=
  if s.satisfiable then
    let (solution, c) := d.coins s.size c
    (some solution, c)
  else (none, c)

def negations (solution : Array Bool) (picked : List Nat) (pattern : List Bool) : List Bool :=
  List.zipWith (fun v literal => literal != solution.getD v false) picked pattern

def drawNegated (d : Dice σ) (planted : Option (Array Bool)) (picked : List Nat) (c : σ) :
    List Bool × σ :=
  match planted with
  | some solution =>
    let (i, c) := d.upTo (TwoInFour.patterns.length - 1) c
    (negations solution picked (TwoInFour.patterns.getD i.val []), c)
  | none =>
    let (negated, c) := d.coins picked.length c
    (negated.toList, c)

def drawClause (d : Dice σ) (s : Settings) (planted : Option (Array Bool)) (c : σ) :
    Except Fault Constraint × σ :=
  let (picked, c) := d.sample s.size 4 c
  let picked := (SortedSet.ofList picked).toList
  let (negated, c) := drawNegated d planted picked c
  (TwoInFour.clause (picked.map labelOf) negated s.vartype, c)

/-- Clauses that were drawn before are drawn again. Without an answer after `fuel` draws there is
none. -/
def drawClauses (d : Dice σ) (s : Settings) (planted : Option (Array Bool)) :
    Nat → List Constraint → σ → Option (Except Fault (List Constraint) × σ)
  | 0, seen, c => if seen.length < s.clauses then none else some (.ok seen, c)
  | fuel + 1, seen, c =>
    if seen.length < s.clauses then
      match drawClause d s planted c with
      | (.error fault, c) => some (.error fault, c)
      | (.ok clause, c) =>
        drawClauses d s planted fuel
          (if seen.any clause.same then seen else seen ++ [clause]) c
    else some (.ok seen, c)

def assemble (s : Settings) (clauses : List Constraint) : Except Fault Problem := do
  let p ← clauses.foldlM (fun p c => p.add (.constraint c)) (Problem.empty s.vartype)
  return p.addVariables ((List.range s.size).map labelOf)

def drawWithin (limit : Nat) (d : Dice σ) (s : Settings) (c : σ) :
    Option (Except Fault Problem) :=
  match s.flaw with
  | some fault => some (.error fault)
  | none =>
    let (planted, c) := drawPlanted d s c
    (drawClauses d s planted limit [] c).map fun r => r.1.bind (assemble s)

def fuel : Nat := Nat.pow 2 62

def draw (d : Dice σ) (s : Settings) (c : σ) : Option (Except Fault Problem) :=
  drawWithin fuel d s c

def Settings.event {α : Type} (s : Settings) (seed : Nat) : Event α :=
  .generated s.size s.clauses s.satisfiable seed

end RandomProblem

end QuadraticPenalty
