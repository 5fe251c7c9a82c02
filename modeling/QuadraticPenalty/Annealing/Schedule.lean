import QuadraticPenalty.Penalty.Misconfiguration
import QuadraticPenalty.Scalar.Basic

/-!
How the temperature of an annealing run falls from level to level, and how many moves it may try.
-/

namespace QuadraticPenalty

open Scalar

inductive Cooling (α : Type) where
  | geometric (alpha : α)
  | linear
  | lundyMees (beta : α)

structure Schedule (α : Type) where
  initial : α
  final : α
  cooling : Cooling α
  perLevel : Nat
  /-- No limit if it is `0`. -/
  maxMoves : Nat
  restarts : Nat
  seed : UInt64

variable {α : Type} [Scalar α]

def Cooling.flaw : Cooling α → Option (Misconfiguration α)
  | .geometric a => if le a zero || le one a then some (.alpha a) else none
  | .lundyMees b => if le b zero then some (.beta b) else none
  | .linear => none

namespace Schedule

def default : Schedule α where
  initial := one
  final := one / ofInt 100
  cooling := .geometric (ofInt 99 / ofInt 100)
  perLevel := 500
  maxMoves := 0
  restarts := 8
  seed := 42

def movesPerLevel (s : Schedule α) : Nat :=
  match s.cooling with
  | .lundyMees _ => 1
  | _ => s.perLevel

def unlimitedLevels : Nat := 500

def levels (s : Schedule α) : Nat :=
  if s.maxMoves = 0 then unlimitedLevels
  else
    let n := max s.movesPerLevel 1
    max ((s.maxMoves + n - 1) / n) 1

def next (s : Schedule α) (t : α) (k : Nat) : α :=
  match s.cooling with
  | .geometric alpha => t * alpha
  | .linear =>
    if s.levels ≤ k + 1 then s.final
    else s.initial - ofInt (k + 1 : Nat) / ofInt s.levels * (s.initial - s.final)
  | .lundyMees beta => t / (one + beta * t)

def temperatures (s : Schedule α) : Nat → Nat → α → List α
  | 0, _, _ => []
  | n + 1, k, t => s.next t k :: s.temperatures n (k + 1) (s.next t k)

def flaw (s : Schedule α) : Option (Misconfiguration α) :=
  if le s.initial zero then some .initialTemperature
  else if le s.final zero then some .finalTemperature
  else if le s.initial s.final then some .temperatureOrder
  else s.cooling.flaw

end Schedule

end QuadraticPenalty
