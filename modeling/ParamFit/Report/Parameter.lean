import ParamFit.Parameter.State
import ParamFit.Double

/-!
Fixed-width reports of matrices and parameters, in double precision. Numbers stand at the right of
their column, in scientific form except for correlations, which have four places.
-/
namespace ParamFit
open Decimal (padLeft scientific fixed)

namespace Report

def column (x : Double) : String := padLeft 12 (scientific x 5)

def row (xs : List Double) : String := String.join (xs.map fun x => column x ++ " ") ++ "\n"

def small (x : Double) : String := padLeft 8 (fixed x 4)

def cell (width : Nat) (s : String) : String := padLeft width s

end Report

open Report

def Symmetric.render (m : Symmetric Double) : String :=
  String.join (m.rows.toList.map fun r =>
    String.join (r.toList.map fun (x : Double) => padLeft 14 (scientific x 6)) ++ "\n")

def Parameter.render (p : Parameter Double) (eps2 : Double) : String × Bool × Bool :=
  let near (limit : Option Double) := limit.any fun l => Scalar.abs (p.value - l) < eps2
  let head := s!" {cell 5 (toString p.number)} || {cell 10 p.name} || "
  if p.isConstant then (head ++ s!"  const || {column p.value} ||\n", false, false)
  else if p.isFixed then (head ++ s!"  fixed || {column p.value} ||\n", false, false)
  else if p.hasLimits then
    let atLower := near p.lower
    let atUpper := near p.upper
    (head ++ s!"limited || {column p.value}" ++ (if atLower then "*" else "")
      ++ (if atUpper then "**" else "") ++ s!" || {column p.error}\n", atLower, atUpper)
  else if p.error > 0 then
    (head ++ s!"   free || {column p.value} || {column p.error}\n", false, false)
  else (head ++ s!"   free || {column p.value} ||           no\n", false, false)

def Space.render (s : Space Double) : String :=
  let rows := s.parameters.toList.map (·.render s.precision.eps2)
  "\n  ext. ||       name ||    type ||        value ||       error +/-\n\n"
    ++ String.join (rows.map (·.1))
    ++ (if rows.any (·.2.1) then "* parameter is at lower limit\n" else "")
    ++ (if rows.any (·.2.2) then "** parameter is at upper limit\n" else "")

def Covariance.render (c : Covariance Double) : String :=
  let places := List.range c.rows
  "\ncovariance:\n" ++ String.join (places.map fun i => row (places.map (c.element i)))
    ++ "\ncorrelations:\n"
    ++ String.join (places.map fun i =>
      String.join (places.map fun j => small (c.correlation i j) ++ " ") ++ "\n")

def GlobalCorrelation.render (g : GlobalCorrelation Double) : String :=
  "\nglobal correlation coefficients:\n" ++
    if g.valid then
      String.join (g.coefficients.toList.zipIdx.map fun (c, i) =>
        s!" {cell 5 (toString i)} {small c}\n")
    else "  not available\n"

def FitState.render (s : FitState Double) : String :=
  "\n" ++ (if s.valid then "" else "WARNING: parameter state is not valid\n")
    ++ s!"# of function calls: {s.calls}\n"
    ++ s!"function value: {scientific s.value 10}\n"
    ++ s!"expected distance to the minimum (edm): {scientific s.edm 5}\n"
    ++ s.space.render
    ++ (if s.hasCovariance then s.covariance.render else "")
    ++ (if s.hasCorrelation then s.correlation.render else "")

end ParamFit
