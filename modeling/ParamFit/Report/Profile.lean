import ParamFit.Report.Parameter
import ParamFit.Profile.Contour

/-!
The fixed-width reports of intervals and contours.
-/
namespace ParamFit
open Decimal (scientific)
open Report

def Crossing.notes (c : Crossing Double) (word : String) (i : Nat) : String × String :=
  (if c.verdict = .atLimit then
      s!"{word} MINOS error is the {word} limit of parameter {i}\n" else "",
    if c.verdict = .callLimit then s!"call limit exhausted for the {word} error\n" else "")

def Crossing.newMinimum (c : Crossing Double) (way : String) : String :=
  if c.verdict = .lowerMinimum then
    s!"new minimum found in {way} direction:{c.state.render}" else ""

def Interval.render (i : Interval Double) : String :=
  let invalid (c : Crossing Double) (word : String) :=
    if c.isValid then "" else s!"{word} MINOS error is not valid\n"
  let (lowLimit, lowCalls) := i.lower.notes "lower" i.place
  let (highLimit, highCalls) := i.upper.notes "upper" i.place
  let name := (i.lower.state.space.parameters[i.place]?.map (·.name)).getD "?"
  s!"\nMINOS # of function calls: {i.calls}\n"
    ++ invalid i.lower "lower" ++ invalid i.upper "upper"
    ++ lowLimit ++ highLimit ++ lowCalls ++ highCalls
    ++ i.lower.newMinimum "negative" ++ i.upper.newMinimum "positive"
    ++ "  ext. ||       name ||    value@min ||     negative ||     positive\n"
    ++ s!" {cell 5 (toString i.place)} || {cell 10 name} || {column i.center} || "
    ++ s!"{column (i.offset .lower)} || {column (i.offset .upper)}\n"

def Contour.render (c : Contour Double) : String :=
  s!"\ncontour # of function calls: {c.calls}\n"
    ++ s!"MINOS error in x:{c.across.render}MINOS error in y:{c.along.render}"
    ++ s!"contour points around ({scientific c.across.center 5}, {scientific c.along.center 5}):\n"
    ++ String.join (c.points.zipIdx.map fun (p, i) =>
      s!" {cell 3 (toString i)} {column p.x} {column p.y}\n")

end ParamFit
