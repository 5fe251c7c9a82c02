import QuadraticPenalty.Proofs.Constraint.WellFormed
import QuadraticPenalty.Proofs.Masks

namespace QuadraticPenalty.Constraint

variable {c : Constraint} {p : List ℤ → Bool} {scope : List String} {t : Vartype} {x : List ℤ}

end QuadraticPenalty.Constraint
