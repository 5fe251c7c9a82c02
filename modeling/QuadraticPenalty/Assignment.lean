/-!
Labelled values. An assignment may be partial, and may name labels that nothing asks for.
-/

namespace QuadraticPenalty

abbrev Assignment := String → Option Int

namespace Assignment

def empty : Assignment := fun _ => none

def set (a : Assignment) (v : String) (x : Int) : Assignment :=
  fun u => if u = v then some x else a u

def setAll (a : Assignment) (labels : List String) (values : List Int) : Assignment :=
  fun u => ((labels.zip values).lookup u).orElse fun _ => a u

def ofLists (labels : List String) (values : List Int) : Assignment :=
  empty.setAll labels values

end Assignment

end QuadraticPenalty
