import QuadraticPenalty.Fault
import QuadraticPenalty.Penalty.Misconfiguration
import QuadraticPenalty.Scalar.Basic

namespace QuadraticPenalty

open Scalar

structure Settings (α : Type) where
  gap : α
  maxNodes : Nat
  stem : String

inductive Refusal (α : Type) where
  | settings (m : Misconfiguration α)
  | fault (f : Fault)

namespace Settings

variable {α : Type} [Scalar α]

def default : Settings α := ⟨two, 8, "aux"⟩

def flaw (s : Settings α) : Option (Misconfiguration α) :=
  if !(lt zero s.gap && isFinite s.gap) then some (.gap s.gap)
  else if s.stem.isEmpty then some .emptyStem
  else none

end Settings

end QuadraticPenalty
