/-!
A cursor over the combinations of a number of positions. It keeps the combination that comes next,
and writes the one after it in place: the last position that can still move up does, and those after
it close up behind it.
-/

namespace QuadraticPenalty

namespace Constraint

structure Cursor where
  bound : Nat
  current : Option (List Nat)

namespace Cursor

def start (n k : Nat) : Cursor := ⟨n, if k ≤ n then some (List.range k) else none⟩

def follow (s : List Nat) (j : Nat) : List Nat := s.set j (s.getD (j - 1) 0 + 1)

def closeUp (s : List Nat) (i : Nat) : List Nat := (List.range' i (s.length - i)).foldl follow s

/-- The scan goes down from index `i`. The position there ends `s.length - i` below the bound at most. -/
def moveUp (n : Nat) (s : List Nat) : Nat → Option (List Nat)
  | 0 => none
  | i + 1 =>
    if s.getD i 0 < n - s.length + i then some (closeUp (s.set i (s.getD i 0 + 1)) (i + 1))
    else moveUp n s i

def next (c : Cursor) : Option (List Nat) × Cursor :=
  match c.current with
  | none => (none, c)
  | some s => (some s, { c with current := moveUp c.bound s s.length })

end Cursor

end Constraint

end QuadraticPenalty
