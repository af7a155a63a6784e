import ParamFit.Gradient.Basic
import ParamFit.Minimum.Definite
import ParamFit.Minimum.External
import ParamFit.Config.Basic

/-!
The matrix of second derivatives from differences. Along each coordinate the distance is chosen so
that the value changes by a set amount, and refined for some cycles; mixed derivatives reuse those
distances. The matrix is forced positive definite and inverted. Where that fails, the inverses of
the curvatures found so far stand in for the inverse.
-/
namespace ParamFit
variable {α : Type}

inductive HessianFailure where
  | flat (coordinate : Nat)
  | callLimit (limit : Nat)
  | singular
  deriving DecidableEq, Repr

namespace Hessian

structure Ruler (α : Type) where
  slope : α
  curvature : α
  step : α
  reach : α
  ahead : α
  deriving BEq, Repr

structure Site (α : Type) where
  surface : Surface α
  strategy : Strategy α
  x : Array α
  value : α
  aim : α
  start : Gradient α

structure Rise (α : Type) where
  distance : α
  rise : α
  ahead : α
  behind : α

section
variable [Scalar α]

def precision (h : Site α) : Precision α := h.surface.precision

def leastDistance (h : Site α) (k : Nat) : α :=
  8.0 * (precision h).eps2 * (Scalar.abs (entry h.x k) + (precision h).eps2)

/- Try growing distances along coordinate `k` until the value rises visibly. Coordinates with
limits go no further than half a unit. -/
def findRise (h : Site α) (k : Nat) (d : α) : Nat → Eval α (Option (Rise α))
  | 0 => return none
  | tries + 1 => do
    let v := entry h.x k
    let ahead ← h.surface.valueWith h.x k (v + d)
    let behind ← h.surface.valueWith h.x k (v - d)
    let rise := 0.5 * (ahead + behind - 2.0 * h.value)
    if rise > (precision h).eps2 then return some ⟨d, rise, ahead, behind⟩
    else if h.surface.isLimited k then
      if d > 0.5 then return none else findRise h k (Scalar.min (d * 10.0) 0.51) tries
    else findRise h k (d * 10.0) tries

def Ruler.ofRise (r : Rise α) : Ruler α where
  slope := (r.ahead - r.behind) / (2.0 * r.distance)
  curvature := 2.0 * r.rise / (r.distance * r.distance)
  step := r.distance
  reach := r.distance
  ahead := r.ahead

def aimedDistance (h : Site α) (k : Nat) (curvature : α) : α :=
  let d := Scalar.sqrt (2.0 * h.aim / Scalar.abs curvature)
  let d := if h.surface.isLimited k then Scalar.min d 0.5 else d
  if d < leastDistance h k then leastDistance h k else d

def measure (h : Site α) (k : Nat) (r : Ruler α) (d : α) : Nat → Eval α (Ruler α × Bool)
  | 0 => return (r, true)
  | cycles + 1 => do
    match ← findRise h k d 5 with
    | none => return (r, false)
    | some rise =>
      Eval.expect (k < h.start.curvatures.size && k < h.start.slopes.size)
      let new := Ruler.ofRise rise
      let next := aimedDistance h k new.curvature
      if Scalar.abs ((next - new.reach) / next) < h.strategy.hessianStepTolerance
          ∨ Scalar.abs ((new.curvature - r.curvature) / new.curvature)
            < h.strategy.hessianCurvatureTolerance then return (new, true)
      else
        measure h k new (Scalar.max (Scalar.min next (10.0 * new.reach)) (0.1 * new.reach)) cycles

def measureAll (h : Site α) (limit before : Nat) (rulers : Array (Ruler α)) :
    List Nat → Eval α (Array (Ruler α) × Option HessianFailure)
  | [] => return (rulers, none)
  | k :: rest => do
    Eval.expect (k < h.start.steps.size)
    let r := rulers.getD k ⟨0, 0, 0, 0, 0⟩
    let d := Scalar.max (Scalar.abs r.step) (leastDistance h k)
    let (r, found) ← measure h k r d h.strategy.hessianCycles
    let rulers := rulers.setIfInBounds k r
    if !found then return (rulers, some (.flat k))
    else
      Eval.expect (k < h.start.curvatures.size)
      if limit < (← Eval.calls) - before then return (rulers, some (.callLimit limit))
      else measureAll h limit before rulers rest

def reachOf (rulers : Array (Ruler α)) (k : Nat) : α := ((rulers[k]?).map (·.reach)).getD 0
def aheadOf (rulers : Array (Ruler α)) (k : Nat) : α := ((rulers[k]?).map (·.ahead)).getD 0

def shift (x : Array α) (k : Nat) (d : α) : Array α := x.setIfInBounds k (entry x k + d)

def mixRow (h : Site α) (rulers : Array (Ruler α)) (i : Nat) (x : Array α) (m : Symmetric α) :
    List Nat → Eval α (Array α × Symmetric α)
  | [] => return (x, m)
  | j :: rest => do
    let x := shift x j (reachOf rulers j)
    let value ← h.surface.value x
    let mixed := (value + h.value - aheadOf rulers i - aheadOf rulers j)
      / (reachOf rulers i * reachOf rulers j)
    mixRow h rulers i (x.setIfInBounds j (entry x j - reachOf rulers j)) (m.set i j mixed) rest

def mixAll (h : Site α) (rulers : Array (Ruler α)) (x : Array α) (m : Symmetric α) :
    List Nat → Eval α (Symmetric α)
  | [] => return m
  | i :: rest => do
    let (x, m) ← mixRow h rulers i (shift x i (reachOf rulers i)) m
      ((List.range h.x.size).filter (i < ·))
    mixAll h rulers (x.setIfInBounds i (entry x i - reachOf rulers i)) m rest

def standIn (curvatures : Array α) (prec : Precision α) : Symmetric α :=
  .ofDiagonal (curvatures.map fun c =>
    let d := if c < prec.eps2 then 1 else 1 / c
    if d < prec.eps2 then 1 else d)

def startGradient (s : Surface α) (k : Knowledge α) : Eval α (Gradient α) := do
  let g ← if k.gradient.provided || !k.gradient.valid then s.guessed k.point else pure k.gradient
  return .numerical k.gradient.slopes g.curvatures g.steps

def begin (h : Site α) : Array (Ruler α) :=
  tabulate h.x.size fun i =>
    let step := entry h.start.steps i
    ⟨entry h.start.slopes i, entry h.start.curvatures i, step, step, 0⟩

def gradientOf (h : Site α) (rulers : Array (Ruler α)) : Gradient α :=
  .numerical (Vector.overlay h.start.slopes (rulers.map (·.slope)))
    (Vector.overlay h.start.curvatures (rulers.map (·.curvature)))
    (Vector.overlay h.start.steps (rulers.map (·.step)))

def slopes (h : Site α) (k : Knowledge α) (g : Gradient α) : Eval α (Gradient α) := do
  if k.gradient.provided then return .supplied k.gradient.slopes g.curvatures g.steps
  else if h.strategy.isLow then return g
  else return { g with slopes := (← h.surface.refined h.strategy k.point g).1.slopes }

end

section
variable [Spectral α]

def matrix (s : Surface α) (st : Strategy α) (k : Knowledge α) (limit before : Nat) :
    Eval α (Except (HessianFailure × Array α) (Symmetric α × Gradient α)) := do
  let start ← startGradient s k
  let value ← s.value k.point.x
  let aim := Scalar.sqrt s.precision.eps2 * (Scalar.abs value + s.errorDef)
  let h : Site α := ⟨s, st, k.point.x, value, aim, start⟩
  let (rulers, failure) ← measureAll h limit before (begin h) (List.range k.size)
  let found := gradientOf h rulers
  match failure with
  | some f => return .error (f, found.curvatures)
  | none =>
    let g ← slopes h k found
    let diagonal := Symmetric.ofDiagonal (rulers.map (·.curvature))
    let m ← mixAll h rulers k.point.x diagonal (List.range k.size)
    return .ok (m, g)

def conclude (k : Knowledge α) (prec : Precision α) (calls : Nat) :
    Except (HessianFailure × Array α) (Symmetric α × Gradient α) → Knowledge α
  | .error (_, curvatures) => failed curvatures
  | .ok (m, g) =>
    let tested := (ErrorMatrix.usable m 1).makePosDef prec
    match tested.inverse.invert with
    | .error _ => failed g.curvatures
    | .ok inverse =>
      if tested.isMadePosDef then
        ⟨k.point, .standIn inverse .madePosDef, g, k.edm, k.calls + calls⟩
      else
        let e := ErrorMatrix.usable inverse 0
        ⟨k.point, e, g, e.edm g, k.calls + calls⟩
where
  failed (curvatures : Array α) : Knowledge α :=
    ⟨k.point, .standIn (standIn curvatures prec) .hessianFailed, k.gradient, k.edm, k.calls + calls⟩

end
end Hessian

namespace Surface
variable [Spectral α]

def secondDerivatives (s : Surface α) (st : Strategy α) (k : Knowledge α) (limit : Nat) :
    Eval α (Knowledge α) := do
  if k.size = 0 then return k
  else
    let limit := if limit = 0 then defaultBudget k.size else limit
    let before ← Eval.calls
    let found ← Hessian.matrix s st k limit before
    let calls ← Eval.calls
    Eval.expect (Count.fits (k.calls + calls))
    let next := Hessian.conclude k s.precision (calls - before) found
    Eval.expect (!next.error.isValid || next.error.covers next.gradient)
    return next

end Surface

/-! ### From and to a state of the parameters -/

namespace FitState
variable [Scalar α]

def knownCurvature (s : FitState α) (value errorDef : α) : Option (ErrorMatrix α × Gradient α) :=
  let n := s.space.dimension
  if !s.hasCovariance || s.inner.rows != n then none
  else
    let v := s.inner.toMatrix
    if v.diagonal.any fun d => decide (d ≤ 0) then none
    else
      let aim := Scalar.sqrt s.space.precision.eps2 * (Scalar.abs value + errorDef)
      some (.usable v 1, .numerical (Array.replicate n 0) (v.diagonal.map (1 / ·))
        (v.diagonal.map fun d => Scalar.sqrt (2.0 * aim * d)))

end FitState

def FitState.refine [Spectral α] (s : FitState α) (f : Objective α) (st : Strategy α) (errorDef : α)
    (limit : Nat) : Eval α (FitState α) := Eval.apart do
  let surface : Surface α := ⟨f, errorDef, s.space⟩
  let x := s.space.internal
  let value ← surface.value x
  let p := Point.plain x value
  let (e, g) ← match s.knownCurvature value errorDef with
    | some known => pure known
    | none => do
      let g ← surface.gradient (.differences st) p
      pure (ErrorMatrix.missing s.space.dimension, g)
  let calls ← Eval.calls
  let k ← surface.secondDerivatives st ⟨p, e, g, s.edm, s.calls + calls⟩ limit
  return FitState.ofKnowledge k errorDef s.space

end ParamFit
