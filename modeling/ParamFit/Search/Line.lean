import ParamFit.Evaluation
import ParamFit.Minimum.State
import ParamFit.Parabola

/-!
The search for the lowest value along a step. While the values at the start and at the last trial
do not differ visibly, parabolas are laid through them with the slope at the start; then through
three points, of which the worst gives way to each new one. The search remembers the lowest value
it saw, and gives up after some rounds. What a trial should be and what its value means are pure
functions of `Progress`; only the loops ask for values.
-/
namespace ParamFit
variable {α : Type} [Scalar α]

namespace LineSearch

structure Course (α : Type) where
  precision : Precision α
  start : α
  slope : α
  least : α

/- How far a search has come. Trials stay below `high` and above `low`, at most `reach` from the
best, and `tolerance` from the points that are kept. -/
structure Progress (α : Type) where
  best : Sample α
  first : Sample α
  second : Sample α
  third : Sample α
  high : α
  low : α
  tolerance : α
  reach : α
  rounds : Nat

def maxRounds : Nat := 12

namespace Progress

def begin (c : Course α) (value : α) : Progress α where
  best := if value < c.start then ⟨1, value⟩ else ⟨0, c.start⟩
  first := ⟨0, c.start⟩
  second := ⟨1, value⟩
  third := ⟨1, value⟩
  high := 1000.0
  low := -100.0
  tolerance := 0.05
  reach := 5.0
  rounds := 1

def note (s : Progress α) (p : Sample α) : Progress α :=
  if p.y < s.best.y then { s with best := p } else s

/-! ### Two points and a slope -/

def tangentTrial? (c : Course α) (s : Progress α) : Option α :=
  let x := s.second.x
  let bend := 2.0 * (s.second.y - c.start - c.slope * x) / (x * x)
  let t := if bend == 0 then 1 else -c.slope / bend
  let t := if t < 0 ∨ t > s.reach then s.reach else t
  let t := if t < s.tolerance then s.tolerance else t
  if t < c.least then none
  else if Scalar.abs (t - 1) < s.tolerance then
    if s.second.y < s.first.y then none else some (1 + s.tolerance)
  else some t

def afterTangent (s : Progress α) (p : Sample α) : Progress α :=
  { s.note p with third := p, rounds := s.rounds + 1 }

def isFlat (c : Course α) (s : Progress α) : Bool :=
  decide (s.first.y - c.precision.eps < s.best.y) && decide (s.best.y < s.first.y + c.precision.eps)

def closer (s : Progress α) : Progress α :=
  let tolerance := 0.05 * s.third.x
  let high := s.third.x - tolerance
  { s with second := s.third, tolerance, high, reach := high, rounds := s.rounds + 1 }

/-! ### Three points -/

def widen (s : Progress α) : Progress α :=
  { s with reach := Scalar.max s.reach (2.0 * Scalar.abs s.best.x) }

def parabola (s : Progress α) : Parabola α := .through s.first s.second s.third

def hasBounds (c : Course α) (s : Progress α) : Bool :=
  decide (s.parabola.a < c.precision.eps2) || decide (s.best.x - s.reach ≤ s.best.x + s.reach)

def parabolaTrial (c : Course α) (s : Progress α) : α :=
  let p := s.parabola
  let t :=
    if p.a < c.precision.eps2 then
      if 2.0 * p.a * s.best.x + p.b < 0 then s.best.x + s.reach else s.best.x - s.reach
    else Scalar.clamp p.xMin (s.best.x - s.reach) (s.best.x + s.reach)
  if t > 0 then Scalar.min t s.high else Scalar.max t s.low

def isSettled (s : Progress α) (t : α) : Bool :=
  let near := Scalar.max s.tolerance (Scalar.abs (s.tolerance * t))
  let close (p : Sample α) := decide (Scalar.abs (p.x - t) < near)
  close s.first || close s.second || close s.third

def isWorst (s : Progress α) (p : Sample α) : Bool :=
  decide (p.y > s.first.y) && decide (p.y > s.second.y) && decide (p.y > s.third.y)

def bound (s : Progress α) (t : α) : Progress α :=
  { s with
    high := if t > s.best.x then Scalar.min s.high (t - s.tolerance) else s.high
    low := if t < s.best.x then Scalar.max s.low (t + s.tolerance) else s.low }

def exchange (s : Progress α) (p : Sample α) : Progress α :=
  if s.first.y > s.second.y ∧ s.first.y > s.third.y then { s with first := p }
  else if s.second.y > s.first.y ∧ s.second.y > s.third.y then { s with second := p }
  else { s with third := p }

def retreat (s : Progress α) (t : α) : Progress α × α :=
  ({ s.bound t with rounds := s.rounds + 2 }, 0.5 * (t + s.best.x))

def accept (s : Progress α) (p : Sample α) : Progress α :=
  let s := { s.exchange p with rounds := s.rounds + 2 }
  if p.y < s.best.y then { s with best := p } else s.bound p.x

end Progress

open Progress

def refine (probe : α → Eval α α) (c : Course α) (s : Progress α) (t : α) :
    Nat → Eval α (Sample α)
  | 0 => return s.best
  | fuel + 1 => do
    if s.isSettled t then return s.best
    else
      let p : Sample α := ⟨t, ← probe t⟩
      if s.isWorst p then
        let (s, t) := s.retreat t
        if maxRounds ≤ s.rounds then return s.best else refine probe c s t fuel
      else
        let s := s.accept p
        if maxRounds ≤ s.rounds then return s.best
        else
          let s := s.widen
          Eval.expect (s.hasBounds c)
          refine probe c s (s.parabolaTrial c) fuel

def approach (probe : α → Eval α α) (c : Course α) (s : Progress α) : Nat → Eval α (Sample α)
  | 0 => return s.best
  | fuel + 1 => do
    match s.tangentTrial? c with
    | none => return s.best
    | some t =>
      let s := s.afterTangent ⟨t, ← probe t⟩
      if s.isFlat c then
        let s := s.closer
        if maxRounds ≤ s.rounds then return s.best else approach probe c s fuel
      else
        let s := s.widen
        Eval.expect (s.hasBounds c)
        refine probe c s (s.parabolaTrial c) maxRounds

def run (probe : α → Eval α α) (c : Course α) : Eval α (Sample α) := do
  approach probe c (Progress.begin c (← probe 1)) maxRounds

def smallestRatio (x step : Array α) : α :=
  (x.toList.zip step.toList).foldl (fun least (x, s) =>
    if s == 0 then least
    else
      let ratio := Scalar.abs (x / s)
      if least == 0 ∨ ratio < least then ratio else least) 0

def leastMultiple (prec : Precision α) (x step : Array α) : α :=
  let ratio := smallestRatio x step
  (if Scalar.abs ratio < prec.eps then prec.eps else ratio) * prec.eps2

end LineSearch

def Point.along (p : Point α) (step : Array α) (t : α) : Array α :=
  Vector.add p.x (Vector.scale step t)

def Surface.lineSearch (s : Surface α) (p : Point α) (step : Array α) (slope : α)
    (prec : Precision α) : Eval α (Sample α) := do
  Eval.expect (p.x.size == step.size)
  LineSearch.run (fun t => s.value (p.along step t))
    ⟨prec, p.value, slope, LineSearch.leastMultiple prec p.x step⟩

end ParamFit
