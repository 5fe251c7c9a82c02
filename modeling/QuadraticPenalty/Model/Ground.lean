import QuadraticPenalty.Model.Basic

namespace QuadraticPenalty

namespace QuadraticModel

variable {α : Type} [ExtendedScalar α]

def freeVariables (m : QuadraticModel α) (pins : Assignment) : List String :=
  m.labels.filter fun v => (pins v).isNone

/-- Pins outside the domain leave no energy to take, and so an infinite least one. -/
def leastEnergy (m : QuadraticModel α) (pins : Assignment) : α :=
  let free := m.freeVariables pins
  (m.vartype.tuples free.length).foldl
    (fun best x =>
      match m.energy (pins.setAll free x) with
      | .ok e => Scalar.least best e
      | .error _ => best)
    ExtendedScalar.infinity

def groundEnergy (m : QuadraticModel α) : α := m.leastEnergy .empty

end QuadraticModel

end QuadraticPenalty
