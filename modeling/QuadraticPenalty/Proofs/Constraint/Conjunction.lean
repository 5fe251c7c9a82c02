import QuadraticPenalty.Proofs.Constraint.Combination

namespace QuadraticPenalty.Constraint

variable {c d : Constraint}

end QuadraticPenalty.Constraint
