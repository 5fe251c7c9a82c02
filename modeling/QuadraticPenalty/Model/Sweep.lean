import QuadraticPenalty.Masks
import QuadraticPenalty.Model.Ground

/-!
Least energies from one assignment in place: the free variables are written anew for every tuple, over
the values that the tuple before has left.
-/

namespace QuadraticPenalty

namespace Assignment

def write (a : Assignment) (labels : List String) (values : List Int) : Assignment :=
  (labels.zip values).foldl (fun a (v, x) => a.set v x) a

end Assignment

namespace QuadraticModel

variable {α : Type} [ExtendedScalar α]

def sweepStep (m : QuadraticModel α) (free : List String) (s : Assignment × α) (x : List Int) :
    Assignment × α :=
  let a := s.1.write free x
  match m.energy a with
  | .ok e => (a, Scalar.least s.2 e)
  | .error _ => (a, s.2)

def sweep (m : QuadraticModel α) (pins : Assignment) : α :=
  let free := m.freeVariables pins
  ((m.vartype.maskedTuples free.length).foldl (m.sweepStep free)
    (pins, ExtendedScalar.infinity)).2

end QuadraticModel

end QuadraticPenalty
