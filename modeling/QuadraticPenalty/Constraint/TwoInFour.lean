import QuadraticPenalty.Constraint.Basic

namespace QuadraticPenalty

namespace TwoInFour

def label : String := "2-in-4"

def patterns : List (List Bool) :=
  [[false, false, true, true],
    [false, true, false, true],
    [true, false, false, true],
    [false, true, true, false],
    [true, false, true, false],
    [true, true, false, false]]

def configuration (vartype : Vartype) (negated pattern : List Bool) : List Int :=
  List.zipWith (fun literal flip => if literal != flip then vartype.high else vartype.low)
    pattern negated

def clause (scope : List String) (negated : List Bool) (vartype : Vartype) :
    Except Fault Constraint :=
  if scope.length ≠ 4 then
    .error (.wrongCount label 4 scope.length)
  else do
    let c ← Constraint.ofConfigurations (patterns.map (configuration vartype negated)) scope
      vartype
    return c.rename label

def ofLiterals (positive negative : List String) (vartype : Vartype) : Except Fault Constraint :=
  clause (positive ++ negative)
    (List.replicate positive.length false ++ List.replicate negative.length true) vartype

end TwoInFour

end QuadraticPenalty
