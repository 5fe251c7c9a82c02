import QuadraticPenalty.Assignment
import QuadraticPenalty.Fault
import QuadraticPenalty.Order.SortedMap
import QuadraticPenalty.Scalar.Basic

/-!
Quadratic models: an offset, a bias for each variable and a coupling for some pairs of them. A
coupling is stored under its labels in order, and its variables always have a bias.
-/

namespace QuadraticPenalty

open Scalar

@[ext]
structure QuadraticModel (α : Type) where
  vartype : Vartype
  linear : SortedMap String α
  couplings : SortedMap (String × String) α
  offset : α

namespace QuadraticModel

variable {α : Type} [Scalar α]

def empty (vartype : Vartype) : QuadraticModel α := ⟨vartype, .empty, .empty, zero⟩

def labels (m : QuadraticModel α) : List String := m.linear.keys

def addOffset (m : QuadraticModel α) (a : α) : QuadraticModel α :=
  { m with offset := m.offset + a }

def addBias (m : QuadraticModel α) (v : String) (a : α) : QuadraticModel α :=
  { m with linear := m.linear.update v fun old => old.getD zero + a }

def pair (u v : String) : String × String := if Ordered.before u v then (u, v) else (v, u)

/-- The square of a spin is one, and the square of a bit is the bit. -/
def addCoupling (m : QuadraticModel α) (u v : String) (a : α) : QuadraticModel α :=
  if u = v then
    match m.vartype with
    | .spin => m.addOffset a
    | .binary => m.addBias u a
  else
    let m := (m.addBias u zero).addBias v zero
    { m with couplings := m.couplings.update (pair u v) fun old => old.getD zero + a }

def coupling? (m : QuadraticModel α) (u v : String) : Option α := m.couplings.find? (pair u v)

def merge (m k : QuadraticModel α) : Except Fault (QuadraticModel α) :=
  if k.vartype ≠ m.vartype then
    .error (.vartypeMismatch m.vartype k.vartype)
  else
    let m := k.linear.entries.foldl (fun m e => m.addBias e.1 e.2) m
    .ok { m with
      couplings := k.couplings.entries.foldl
        (fun q e => q.update e.1 fun old => old.getD zero + e.2) m.couplings
      offset := m.offset + k.offset }

def valueOf (t : Vartype) (a : Assignment) (v : String) : Except Fault Int :=
  match a v with
  | none => .error (.unassigned v)
  | some x => if t.contains x then .ok x else .error (.outOfDomain x t)

/-- Biases are summed before couplings, each in the order of their labels. -/
def energy (m : QuadraticModel α) (a : Assignment) : Except Fault α := do
  let e ← m.linear.entries.foldlM
    (fun e (v, h) => do
      let x ← valueOf m.vartype a v
      return e + h * ofInt x) m.offset
  m.couplings.entries.foldlM
    (fun e ((u, v), j) => do
      let x ← valueOf m.vartype a u
      let y ← valueOf m.vartype a v
      return e + j * ofInt x * ofInt y) e

def toBinary (m : QuadraticModel α) : QuadraticModel α :=
  let k := m.linear.entries.foldl
    (fun k (v, h) => (k.addBias v (two * h)).addOffset (-h))
    { empty .binary with offset := m.offset }
  m.couplings.entries.foldl
    (fun k ((u, v), j) =>
      (((k.addCoupling u v (four * j)).addBias u (ofInt (-2) * j)).addBias v
        (ofInt (-2) * j)).addOffset j) k

def toSpin (m : QuadraticModel α) : QuadraticModel α :=
  let k := m.linear.entries.foldl
    (fun k (v, h) => (k.addBias v (half * h)).addOffset (half * h))
    { empty .spin with offset := m.offset }
  m.couplings.entries.foldl
    (fun k ((u, v), j) =>
      (((k.addCoupling u v (quarter * j)).addBias u (quarter * j)).addBias v
        (quarter * j)).addOffset (quarter * j)) k

def toVartype (m : QuadraticModel α) (t : Vartype) : QuadraticModel α :=
  if t = m.vartype then m
  else
    match t with
    | .spin => m.toSpin
    | .binary => m.toBinary

end QuadraticModel

end QuadraticPenalty
