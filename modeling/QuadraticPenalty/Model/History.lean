import QuadraticPenalty.Model.Basic

/-!
Models as the calls that make them. A merge in place compares the domains before it writes, so a
merge that fails leaves the model as it was.
-/

namespace QuadraticPenalty

open Scalar

namespace QuadraticModel

variable {α : Type} [Scalar α]

def absorb (m k : QuadraticModel α) : Except Fault Unit × QuadraticModel α :=
  if k.vartype ≠ m.vartype then
    (.error (.vartypeMismatch m.vartype k.vartype), m)
  else
    let m := k.linear.entries.foldl (fun m e => m.addBias e.1 e.2) m
    let m := k.couplings.entries.foldl
      (fun m e =>
        { m with couplings := m.couplings.update e.1 fun old => old.getD zero + e.2 }) m
    (.ok (), m.addOffset k.offset)

inductive History (α : Type) where
  | empty (t : Vartype)
  | addBias (h : History α) (v : String) (a : α)
  | addCoupling (h : History α) (u v : String) (a : α)
  | addOffset (h : History α) (a : α)
  | merge (h other : History α)
  | toVartype (h : History α) (t : Vartype)

def History.model : History α → QuadraticModel α
  | empty t => .empty t
  | addBias h v a => h.model.addBias v a
  | addCoupling h u v a => h.model.addCoupling u v a
  | addOffset h a => h.model.addOffset a
  | merge h other => (h.model.absorb other.model).2
  | toVartype h t => h.model.toVartype t

end QuadraticModel

end QuadraticPenalty
