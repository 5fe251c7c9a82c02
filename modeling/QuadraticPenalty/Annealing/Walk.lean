import QuadraticPenalty.Chance.Dice
import QuadraticPenalty.Grid.Landscape
import QuadraticPenalty.Penalty.Event

/-!
Simulated annealing on a grid. A move shifts one bias by one level; it is kept if it lowers the
cost, and by chance if it does not. The energies are carried along and never summed again within
a restart.
-/

namespace QuadraticPenalty

open Scalar

namespace Annealing

structure Record (α : Type) where
  best : List Nat
  bestCost : α
  moves : Nat
  accepted : Nat
  improving : Nat

structure Walk (α σ : Type) where
  digits : List Nat
  energies : List α
  cost : α
  moves : Nat
  record : Record α
  chance : σ

variable {α σ : Type} [ExtendedScalar α]

def Record.consider (r : Record α) (digits : List Nat) (cost : α) : Record α :=
  if lt cost r.bestCost then { r with best := digits, bestCost := cost } else r

def Record.succeeded (r : Record α) : Bool := le r.bestCost tolerance

def neighbour (d : Dice σ) (top digit : Nat) (s : σ) : Nat × σ :=
  if digit = 0 then (1, s)
  else if digit = top then (top - 1, s)
  else
    let (up, s) := d.coin s
    (if up then digit + 1 else digit - 1, s)

def movable (levels : List Nat) : List Nat :=
  (List.range levels.length).filter fun k => decide (1 < levels.getD k 0)

def propose (d : Dice σ) (levels digits : List Nat) (s : σ) : Option (Nat × Nat × σ) :=
  match movable levels with
  | [] => none
  | k :: ks =>
    let (i, s) := d.upTo ks.length s
    let k := (k :: ks)[i.val]
    let (digit, s) := neighbour d (levels.getD k 0 - 1) (digits.getD k 0) s
    some (k, digit, s)

def Walk.settle (w : Walk α σ) (k digit : Nat) (energies : List α) (cost : α) (chance : σ) :
    Walk α σ :=
  let digits := w.digits.set k digit
  { digits, energies, cost, chance
    moves := w.moves + 1
    record := { w.record with accepted := w.record.accepted + 1 }.consider digits cost }

def Walk.improve (w : Walk α σ) : Walk α σ :=
  { w with record := { w.record with improving := w.record.improving + 1 } }

def Walk.move (l : Landscape α) (c : Chance α σ) (t : α) (w : Walk α σ) : Option (Walk α σ) :=
  match propose c.toDice l.levels w.digits w.chance with
  | none => none
  | some (k, digit, s) =>
    let delta := (ofInt digit - ofInt (w.digits.getD k 0)) * l.step
    let energies := l.shift k delta w.energies
    let cost := (l.quality energies).cost
    let rise := cost - w.cost
    if lt rise zero then
      some (w.improve.settle k digit energies cost s)
    else
      let (climbs, s) := c.climbs rise t s
      if climbs then some (w.settle k digit energies cost s)
      else
        some { w with
          energies := l.shift k (-delta) energies, moves := w.moves + 1, chance := s }

def Walk.ended (s : Schedule α) (w : Walk α σ) : Bool :=
  w.record.succeeded || (decide (0 < s.maxMoves) && decide (s.maxMoves ≤ w.moves))

/-- Up to `n` moves at one temperature, and whether the walk goes on after them. -/
def Walk.level (l : Landscape α) (c : Chance α σ) (s : Schedule α) (t : α) :
    Nat → Walk α σ → Walk α σ × Bool
  | 0, w => (w, true)
  | n + 1, w =>
    if w.ended s then (w, false)
    else
      match w.move l c t with
      | none => (w, false)
      | some w => w.level l c s t n

/-- Level after level, from the number `k` at the temperature `t` on. Only the temperature, or what a
move does, brings the walk to an end, and there is none where neither does. -/
def Walk.cool (l : Landscape α) (c : Chance α σ) (s : Schedule α) (k : Nat) (t : α)
    (w : Walk α σ) : Option (Walk α σ) :=
  if lt s.final t then
    match w.level l c s t s.movesPerLevel with
    | (w, false) => some w
    | (w, true) => w |>.cool l c s (k + 1) (s.next t k)
  else some w
partial_fixpoint

def drawDigits (d : Dice σ) : List Nat → σ → List Nat × σ
  | [], s => ([], s)
  | n :: ns, s =>
    let (digit, s) := d.upTo (n - 1) s
    let (digits, s) := drawDigits d ns s
    (digit.val :: digits, s)

def Walk.start (l : Landscape α) (c : Chance α σ) (restart : Nat) (r : Record α) : Walk α σ :=
  let (digits, s) := drawDigits c.toDice l.levels (c.start restart)
  let energies := l.energies digits
  let cost := (l.quality energies).cost
  { digits, energies, cost, moves := 0, record := r.consider digits cost, chance := s }

def restart (l : Landscape α) (c : Chance α σ) (s : Schedule α) (number : Nat) (r : Record α) :
    Option (Walk α σ) :=
  (Walk.start l c number r).cool l c s 0 s.initial

def restarts (l : Landscape α) (c : Chance α σ) (s : Schedule α) :
    Nat → Nat → Record α → Option (Record α × List (Event α))
  | 0, _, r => some (r, [])
  | n + 1, number, r => do
    let w ← restart l c s number r
    let r := { w.record with moves := r.moves + w.moves }
    let event := .restartEnded number w.moves r.bestCost
    if r.succeeded then return (r, [event])
    else
      let (r, events) ← restarts l c s n (number + 1) r
      return (r, event :: events)

def Record.initial (l : Landscape α) : Record α where
  best := l.levels.map fun _ => 0
  bestCost := ExtendedScalar.infinity
  moves := 0
  accepted := 0
  improving := 0

/-- There is no result if a restart does not end. -/
def run (l : Landscape α) (c : Chance α σ) (s : Schedule α) :
    Option (Record α × List (Event α)) :=
  restarts l c s (max s.restarts 1) 0 (Record.initial l)

end Annealing

end QuadraticPenalty
