import QuadraticPenalty.Model.Basic
import QuadraticPenalty.Order.SortedSet
import QuadraticPenalty.Penalty.Graph

/-!
A request for a penalty model: a quadratic model on the nodes of a graph whose least energy over
the other nodes is zero where the decision variables form a feasible configuration, and at least
the gap elsewhere.
-/

namespace QuadraticPenalty

structure Request (α : Type) where
  graph : Graph
  decision : List String
  feasible : SortedSet (List Int)
  vartype : Vartype
  gap : α

structure PenaltyModel (α : Type) where
  model : QuadraticModel α
  gap : α

end QuadraticPenalty
