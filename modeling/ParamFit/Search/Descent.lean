import ParamFit.Search.Start

/-!
Descent with a variable metric. Each round takes the step to the minimum of the present quadratic
model, searches along it, finds the gradient at the lowest point and updates the model by the
change of the gradient. A model that points uphill or promises a negative distance is forced
positive definite once per round; if that does not help, the search ends.
-/
namespace ParamFit
variable {α : Type}

section
variable [Scalar α]

def Knowledge.learnsNothing (k : Knowledge α) (dx dg : Array α) : Bool :=
  Vector.dot dx dg == 0 || decide (k.error.inverse.quadratic dg ≤ 0)

/- A move to `p`, where the gradient is `g`, is one in the coordinates of the error matrix. If it
shows nothing, there may be fewer of them. -/
def Knowledge.reaches (k : Knowledge α) (p : Point α) (g : Gradient α) : Bool :=
  let n := k.size
  let m := k.error.inverse.size
  p.x.size == n && g.slopes.size == n && k.gradient.slopes.size == n && (m == n || n < m
    && k.learnsNothing (Vector.sub p.x k.point.x) (Vector.sub g.slopes k.gradient.slopes))

/- The error matrix after a move to `p`, where the gradient is `g`: a rank-two correction, and a
further one where the move shows more curvature than the model, so that the change of the gradient
is explained. A move that shows none leaves the matrix as it is. -/
def Knowledge.update (k : Knowledge α) (p : Point α) (g : Gradient α) : ErrorMatrix α :=
  let v := k.error.inverse
  let dx := Vector.sub p.x k.point.x
  let dg := Vector.sub g.slopes k.gradient.slopes
  let moved := Vector.dot dx dg
  let model := v.quadratic dg
  if k.learnsNothing dx dg then k.error
  else
    let vg := v.mulVec dg
    let change := ((Symmetric.outer dx).scale (1 / moved)).sub
      ((Symmetric.outer vg).scale (1 / model))
    let change :=
      if moved > model then
        let tilt := Vector.sub (dx.map (· / moved)) (vg.map (· / model))
        change.add ((Symmetric.outer tilt).scale model)
      else change
    let new := change.add v
    .usable new (0.5 * (k.error.dcovar + change.absSum / new.absSum))

def Knowledge.update? (k : Knowledge α) (p : Point α) (g : Gradient α) : Option (ErrorMatrix α) :=
  if k.reaches p g then some (k.update p g) else none

def Knowledge.newtonStep (k : Knowledge α) : Array α :=
  (k.error.inverse.mulVec k.gradient.slopes).map (- ·)

def Knowledge.slopeAlong (k : Knowledge α) (step : Array α) : α :=
  Vector.dot step k.gradient.slopes

end

namespace Descent

inductive Outcome (α : Type) where
  | moved (k : Knowledge α)
  | stuck
  | stillUphill (k : Knowledge α)
  | stillIndefinite (k : Knowledge α)

inductive Ending where
  | broken
  | finished
  deriving DecidableEq, Repr

section
variable [Spectral α]

def aligned (prec : Precision α) (k : Knowledge α) : Knowledge α :=
  if k.slopeAlong k.newtonStep > 0 then k.makePosDef prec else k

def promising (prec : Precision α) (g : Gradient α) (k : Knowledge α) : Knowledge α :=
  if k.error.edm g < 0 then k.makePosDef prec else k

def arrive (s : Surface α) (m : GradientMethod α) (prec : Precision α) (k : Knowledge α)
    (best : Sample α) : Eval α (Outcome α) := do
  let p := Point.plain (k.point.along k.newtonStep best.x) best.y
  let g ← s.gradientFrom m p k.gradient
  Eval.expect (k.error.covers g)
  let k := promising prec g k
  let edm := k.error.edm g
  if edm < 0 then return .stillIndefinite k
  else
    Eval.expect (k.reaches p g)
    return .moved ⟨p, k.update p g, g, edm, ← Eval.calls⟩

def round (s : Surface α) (m : GradientMethod α) (prec : Precision α) (k : Knowledge α) :
    Eval α (Outcome α) := do
  Eval.expect (k.gradient.slopes.size ≤ k.error.inverse.size)
  let k := aligned prec k
  let step := k.newtonStep
  let slope := k.slopeAlong step
  if slope > 0 then return .stillUphill k
  else
    let best ← s.lineSearch k.point step slope prec
    if Scalar.abs (best.y - k.value) < prec.eps then return .stuck
    else arrive s m prec k best

def cautious (k : Knowledge α) : α := k.edm * (1 + 3.0 * k.error.dcovar)

/- Rounds until the distance is small enough or the calls are spent. `past` holds the points so
far, the last one first; `edm` is the distance that the last test saw. -/
def rounds (s : Surface α) (m : GradientMethod α) (prec : Precision α) (maxCalls : Nat)
    (wanted : α) (past : List (Knowledge α)) (k : Knowledge α) (edm : α) :
    Nat → Eval α (List (Knowledge α) × α × Ending)
  | 0 => return (k :: past, edm, .finished)
  | fuel + 1 => do
    match ← round s m prec k with
    | .stillUphill forced | .stillIndefinite forced => return (forced :: k :: past, edm, .broken)
    | .stuck => return (k :: past, edm, .finished)
    | .moved next =>
      let edm := cautious next
      if edm > wanted ∧ (← Eval.calls) < maxCalls then
        rounds s m prec maxCalls wanted (k :: past) next edm fuel
      else return (next :: k :: past, edm, .finished)

def judge (seed : Seed α) (errorDef : α) (prec : Precision α) (wanted : α)
    (history : List (Knowledge α)) (edm : α) (ending : Ending) (outOfCalls : Bool) : Minimum α :=
  let min := Minimum.ofHistory seed history errorDef
  if ending = .broken then min
  else if outOfCalls then { min with callLimit := true }
  else if edm > wanted then
    if edm < Scalar.abs (prec.eps2 * min.value) then min
    else if edm < 10.0 * wanted then min
    else { min with aboveMaxEdm := true }
  else min

/- A search that ends `wanted` units, in parts of ten thousand, above the minimum. Every round
asks at least once, so the calls bound the rounds. -/
def iterate (s : Surface α) (m : GradientMethod α) (seed : Seed α) (maxCalls : Nat) (edmval : α) :
    Eval α (Minimum α) := do
  let wanted := edmval * 0.0001
  let k := seed.knowledge
  if k.size = 0 ∨ k.edm < 0 then return .ofSeed seed s.errorDef
  else
    let prec := seed.space.precision
    let (past, edm, ending) ← rounds s m prec maxCalls wanted [] k (cautious k) (maxCalls + 1)
    return judge seed s.errorDef prec wanted past.reverse edm ending (maxCalls ≤ (← Eval.calls))

end
end Descent

def Strategy.refines [Scalar α] (st : Strategy α) (k : Knowledge α) : Bool :=
  (st.isHigh || (st.isMedium && decide (k.error.dcovar > 0.05))) && 0 < k.size

namespace Surface
variable [Spectral α]

def descend (s : Surface α) (m : GradientMethod α) (seed : Seed α) (st : Strategy α)
    (maxCalls : Nat) (edmval : α) : Eval α (Minimum α) := do
  let min ← Descent.iterate s m seed maxCalls edmval
  if st.refines min.last then
    return min.add (← s.secondDerivatives st min.last 0)
  else return min

end Surface

def Minimum.refine [Spectral α] (m : Minimum α) (f : Objective α) (st : Strategy α) (limit : Nat) :
    Eval α (Minimum α) := Eval.apart do
  let s : Surface α := ⟨f, m.errorDef, m.seed.space⟩
  return m.add (← s.secondDerivatives st m.last limit)

end ParamFit
