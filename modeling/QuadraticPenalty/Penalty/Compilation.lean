import QuadraticPenalty.Penalty.Indicator
import QuadraticPenalty.Penalty.Oracle
import QuadraticPenalty.Penalty.Settings
import QuadraticPenalty.Problem.Basic

/-!
Compilation of a problem into one quadratic model, the sum of a penalty model for each of its
constraints. What has no closed form is asked of an oracle, on complete graphs that grow by one
auxiliary variable at a time.
-/

namespace QuadraticPenalty

open Scalar

namespace Compilation

/-- How far a run has come: the number that the next auxiliary label tries, the labels that were
made, the state of the oracle and the events so far. -/
structure Progress (α σ : Type) where
  nextNumber : Nat
  labels : List String
  oracle : σ
  events : List (Event α)

variable {α σ : Type}

def Progress.report (p : Progress α σ) (events : List (Event α)) : Progress α σ :=
  { p with events := p.events ++ events }

def labelOf (stem : String) (i : Nat) : String := stem ++ toString i

def firstFree (taken : Nat → Bool) : Nat → Nat → Nat
  | 0, i => i
  | fuel + 1, i => if taken i then firstFree taken fuel (i + 1) else i

/-- A problem takes no more numbers than it has variables. -/
def freeNumber (p : Problem) (stem : String) (i : Nat) : Nat :=
  firstFree (fun i => p.index.contains (labelOf stem i)) p.index.size i

def Progress.freshLabel (p : Problem) (stem : String) (r : Progress α σ) :
    String × Progress α σ :=
  let i := freeNumber p stem r.nextNumber
  (labelOf stem i, { r with nextNumber := i + 1, labels := r.labels ++ [labelOf stem i] })

def requestFor (s : Settings α) (c : Constraint) (nodes : List String) : Request α where
  graph := .complete nodes
  decision := c.scope
  feasible := c.configurations
  vartype := c.vartype
  gap := s.gap

variable [Scalar α]

def Progress.ask (ask : Oracle α σ) (s : Settings α) (c : Constraint) (nodes : List String)
    (r : Progress α σ) : Option (PenaltyModel α) × Progress α σ :=
  let request := requestFor s c nodes
  let (reply, oracle) := ask request r.oracle
  (reply.penalty?,
    ({ r with oracle }).report (.asked c.name request :: reply.events))

def meetsGap (s : Settings α) (found : PenaltyModel α) : Bool := le (s.gap - tolerance) found.gap

def refusals (c : Constraint) : Option (PenaltyModel α) → List (Event α)
  | some found => [.gapTooSmall c.name found.gap]
  | none => []

def grow (ask : Oracle α σ) (s : Settings α) (p : Problem) (c : Constraint) :
    Nat → List String → Progress α σ → Except Fault (QuadraticModel α) × Progress α σ
  | left, nodes, r =>
    let (answer, r) := r.ask ask s c nodes
    match answer.filter (meetsGap s) with
    | some found =>
      (.ok (found.model.toVartype c.vartype),
        r.report [.found c.name nodes.length found.gap])
    | none =>
      let r := r.report (refusals c answer)
      match left with
      | 0 =>
        (.error (.noPenalty c.name c.arity nodes.length s.maxNodes),
          r.report [.exhausted c.name nodes.length s.maxNodes])
      | left + 1 =>
        let (label, r) := r.freshLabel p s.stem
        grow ask s p c left (nodes ++ [label]) r

def splitEvents (c : Constraint) : List (Event α) :=
  if c.arity = 2 then [.ofFactors c] else []

def search (ask : Oracle α σ) (s : Settings α) (p : Problem) (c : Constraint)
    (r : Progress α σ) : Except Fault (QuadraticModel α) × Progress α σ :=
  grow ask s p c (s.maxNodes - c.arity) c.scope
    (r.report [.searching c.name c.arity s.gap])

def penalty (ask : Oracle α σ) (s : Settings α) (p : Problem) (c : Constraint)
    (r : Progress α σ) : Except Fault (QuadraticModel α) × Progress α σ :=
  if s.maxNodes < c.arity then
    (.error (.noPenalty c.name c.arity c.arity s.maxNodes),
      r.report [.oversized c.name c.arity s.maxNodes])
  else if c.isFull then
    (.ok c.blankModel, r.report [.trivial c.name])
  else if le s.gap (two + tolerance) then
    match c.closedForm? (α := α) with
    | none => search ask s p c r
    | some (.error fault) => (.error fault, r.report (splitEvents c))
    | some (.ok m) => (.ok m, r.report (splitEvents c ++ [.closedForm c.name c.arity]))
  else search ask s p c r

def addPenalties (ask : Oracle α σ) (s : Settings α) (p : Problem) :
    List Constraint → QuadraticModel α → Progress α σ →
      Except Fault (QuadraticModel α) × Progress α σ
  | [], m, r => (.ok m, r)
  | c :: cs, m, r =>
    if c.scope.isEmpty then
      addPenalties ask s p cs m (r.report [.vacuous c.name])
    else
      match penalty ask s p c r with
      | (.error fault, r) => (.error fault, r)
      | (.ok part, r) =>
        match m.merge part with
        | .error fault => (.error fault, r)
        | .ok m => addPenalties ask s p cs m r

structure Outcome (α σ : Type) where
  result : Except (Refusal α) (QuadraticModel α)
  labels : List String
  events : List (Event α)
  oracle : σ

def Outcome.requests (o : Outcome α σ) : List (Request α) := o.events.filterMap Event.request?

def variablesModel (p : Problem) : QuadraticModel α :=
  { QuadraticModel.empty p.vartype with linear := p.index.map fun _ _ => zero }

def finishedEvent (p : Problem) (m : QuadraticModel α) (labels : List String) : Event α :=
  .finished p.constraints.length m.linear.size labels.length m.couplings.size

def run (ask : Oracle α σ) (s : Settings α) (p : Problem) (oracle : σ) : Outcome α σ :=
  match s.flaw with
  | some m => ⟨.error (.settings m), [], [], oracle⟩
  | none =>
    match addPenalties ask s p p.constraints (variablesModel p) ⟨0, [], oracle, []⟩ with
    | (.error fault, r) => ⟨.error (.fault fault), r.labels, r.events, r.oracle⟩
    | (.ok m, r) => ⟨.ok m, r.labels, (r.report [finishedEvent p m r.labels]).events, r.oracle⟩

end Compilation

end QuadraticPenalty
