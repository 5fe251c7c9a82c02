
namespace QuadraticPenalty

inductive Misconfiguration (α : Type) where
  | gap (found : α)
  | emptyStem
  | step (found : α)
  | linearRange (low high : α)
  | couplingRange (low high : α)
  | initialTemperature
  | finalTemperature
  | temperatureOrder
  | alpha (found : α)
  | beta (found : α)

namespace Misconfiguration

variable {α : Type}

def rangeText (text : α → String) (name : String) (low high : α) : String :=
  name ++ " must be a finite range with low <= high, got (" ++ text low ++ ", " ++ text high ++ ")"

def reason (text : α → String) : Misconfiguration α → String
  | gap found => "min_classical_gap must be positive and finite, got " ++ text found
  | emptyStem => "aux_prefix must not be empty"
  | step found => "lattice step must be positive, got " ++ text found
  | linearRange low high => rangeText text "linear_range" low high
  | couplingRange low high => rangeText text "quadratic_range" low high
  | initialTemperature => "initial_temperature must be positive"
  | finalTemperature => "min_temperature must be positive"
  | temperatureOrder => "min_temperature must be less than initial_temperature"
  | alpha found => "geometric alpha must be in (0, 1), got " ++ text found
  | beta found => "lundy-mees beta must be positive, got " ++ text found

def message (text : α → String) (m : Misconfiguration α) : String :=
  "invalid configuration: " ++ m.reason text

end Misconfiguration

end QuadraticPenalty
