
namespace QuadraticPenalty

structure Graph where
  nodes : List String
  edges : List (String × String)
deriving DecidableEq

namespace Graph

def pairs : List String → List (String × String)
  | [] => []
  | u :: us => us.map (u, ·) ++ pairs us

def complete (nodes : List String) : Graph := ⟨nodes, pairs nodes⟩

def contains (g : Graph) (v : String) : Bool := decide (v ∈ g.nodes)

end Graph

end QuadraticPenalty
