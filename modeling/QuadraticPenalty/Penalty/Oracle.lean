import QuadraticPenalty.Penalty.Event

/-!
An oracle answers a request with a penalty model, or with none. It may remember what it was asked.
-/

namespace QuadraticPenalty

structure Reply (α : Type) where
  penalty? : Option (PenaltyModel α)
  events : List (Event α)

abbrev Oracle (α σ : Type) := Request α → σ → Reply α × σ

namespace Oracle

def none {α : Type} : Oracle α Unit := fun _ s => (⟨.none, []⟩, s)

end Oracle

end QuadraticPenalty
