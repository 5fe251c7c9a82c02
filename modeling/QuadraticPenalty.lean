import QuadraticPenalty.Chance.Keystream
import QuadraticPenalty.Constraint.Cursor
import QuadraticPenalty.Constraint.Gates
import QuadraticPenalty.Constraint.TwoInFour
import QuadraticPenalty.Decimal
import QuadraticPenalty.Grid.Oracle
import QuadraticPenalty.Masks
import QuadraticPenalty.Model.Ground
import QuadraticPenalty.Model.Sweep
import QuadraticPenalty.Penalty.Compilation
import QuadraticPenalty.Problem.Random
import QuadraticPenalty.Proofs.Annealing.Budget
import QuadraticPenalty.Proofs.Constraint.Associativity
import QuadraticPenalty.Proofs.Constraint.Consistency
import QuadraticPenalty.Proofs.Constraint.Cursor
import QuadraticPenalty.Proofs.Constraint.Elimination
import QuadraticPenalty.Proofs.Constraint.FinestFactors
import QuadraticPenalty.Proofs.Constraint.Polarity
import QuadraticPenalty.Proofs.Constraint.Predicate
import QuadraticPenalty.Proofs.Constraint.Projection
import QuadraticPenalty.Proofs.Grid.Enlargement
import QuadraticPenalty.Proofs.Grid.Listing
import QuadraticPenalty.Proofs.Masks
import QuadraticPenalty.Proofs.Model.Marginals
import QuadraticPenalty.Proofs.Model.Sum
import QuadraticPenalty.Proofs.Model.Translation
import QuadraticPenalty.Proofs.Penalty.Admission
import QuadraticPenalty.Proofs.Penalty.Auxiliaries
import QuadraticPenalty.Proofs.Penalty.ChangeOfDomain
import QuadraticPenalty.Proofs.Penalty.ExactEnergies
import QuadraticPenalty.Proofs.Penalty.FullConstraints
import QuadraticPenalty.Proofs.Penalty.Limits
import QuadraticPenalty.Proofs.Penalty.PartialEvaluation
import QuadraticPenalty.Proofs.Penalty.Refusals
import QuadraticPenalty.Proofs.Penalty.Reordering
import QuadraticPenalty.Proofs.Penalty.Satisfiability
import QuadraticPenalty.Proofs.Problem.ClauseCount
import QuadraticPenalty.Proofs.Problem.Commutation
import QuadraticPenalty.Scalar.Binary64
import QuadraticPenalty.Scalar.Extended
import QuadraticPenalty.Scalar.Rational
