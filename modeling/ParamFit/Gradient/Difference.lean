import ParamFit.Gradient.Guess
import ParamFit.Strategy

/-!
Gradients from differences of two values, on either side of a point. `differences` chooses each step
so that rounding and curvature disturb the slope equally, and refines slope and curvature for some
cycles. `refined` keeps curvatures and steps and shrinks the distance until the slope settles; it
also says how far each slope can be trusted.
-/
namespace ParamFit
variable {α : Type} [Scalar α]

namespace Surface

def visible (s : Surface α) (factor : α) (p : Point α) : α :=
  factor * s.precision.eps2 * (Scalar.abs p.value + s.errorDef)

def slopeNoise (s : Surface α) (slope : α) : α :=
  s.precision.eps2 + Scalar.abs (slope * s.precision.eps2)

/-! ### Two-point differences -/

def chooseStep (s : Surface α) (p : Point α) (k : Nat) (noise : α) (a : Axis α) : α :=
  let best := Scalar.sqrt (s.visible 8.0 p / (Scalar.abs a.curvature + noise))
  let step := Scalar.max best (Scalar.abs (0.1 * a.step))
  let step := if s.isLimited k ∧ step > 0.5 then 0.5 else step
  let most := 10.0 * Scalar.abs a.step
  let step := if step > most then most else step
  let least := Scalar.max (8.0 * s.precision.eps * s.precision.eps)
    (8.0 * Scalar.abs (s.precision.eps2 * entry p.x k))
  if step < least then least else step

def differenceAxis (p : Point α) (step ahead behind : α) : Axis α :=
  ⟨0.5 * (ahead - behind) / step, (ahead + behind - 2.0 * p.value) / step / step, step⟩

/- Cycles of differences along coordinate `k`, until the step or the slope no longer changes.
`last` is the step of the cycle before. -/
def differenceCycles (s : Surface α) (st : Strategy α) (p : Point α) (k : Nat) (noise : α)
    (a : Axis α) (last : α) : Nat → Eval α (Axis α)
  | 0 => return a
  | cycles + 1 => do
    let step := s.chooseStep p k noise a
    if Scalar.abs ((step - last) / step) < st.gradientStepTolerance then return a
    else
      let v := entry p.x k
      let ahead ← s.valueWith p.x k (v + step)
      let behind ← s.valueWith p.x k (v - step)
      let next := differenceAxis p step ahead behind
      if Scalar.abs (a.slope - next.slope) / (Scalar.abs next.slope + s.visible 8.0 p / step)
          < st.gradientTolerance then return next
      else s.differenceCycles st p k noise next step cycles

def differences (s : Surface α) (st : Strategy α) (p : Point α) (g : Gradient α) :
    Eval α (Gradient α) := do
  let n := p.x.size
  Eval.expect (n ≤ s.space.dimension && n ≤ g.slopes.size)
  Eval.expect (st.gradientCycles == 0 || n ≤ g.curvatures.size && n ≤ g.steps.size)
  let axes ← Eval.tabulate (fun k =>
    let a := Axis.ofGradient g k
    s.differenceCycles st p k (s.slopeNoise a.slope) a 0 st.gradientCycles) p.x.size
  return Axis.replace g axes

/-! ### Shrinking differences -/

structure Settling (α : Type) where
  slope : α
  older : α
  newer : α
  rounding : α

def Settling.doubt (r : Settling α) : α :=
  Scalar.max r.rounding (Scalar.abs (r.older - r.newer))

def settleDistance (s : Surface α) (p : Point α) (k : Nat) (a : Axis α) : α × α :=
  let least := 4.0 * s.precision.eps2 * (entry p.x k + s.precision.eps2)
  let best := Scalar.sqrt
    (s.visible 4.0 p / (Scalar.abs a.curvature + s.slopeNoise a.slope))
  let d := Scalar.min (0.2 * Scalar.abs a.step) best
  (if d < least then least else d, least)

/- Cycles of differences at a shrinking distance `d`, until the slope settles. `change` is the
relative change of the cycle before, `round` counts the cycles done. -/
def settle (s : Surface α) (p : Point α) (k : Nat) (least : α) (r : Settling α) (d change : α)
    (round : Nat) : Nat → Eval α (Settling α)
  | 0 => return r
  | cycles + 1 => do
    let v := entry p.x k
    let ahead ← s.valueWith p.x k (v + d)
    let behind ← s.valueWith p.x k (v - d)
    let older := r.slope
    let newer := (ahead - behind) / (2.0 * d)
    let rounding := s.precision.eps * (Scalar.abs ahead + Scalar.abs behind) / d
    let r := { r with older, newer, rounding }
    if Scalar.abs newer < s.precision.eps then return r
    else
      let moved := Scalar.abs ((older - newer) / newer)
      if moved > change ∧ 1 < round then return r
      else
        let r := { r with slope := newer }
        if moved < 0.05 ∨ Scalar.abs (older - newer) < rounding ∨ d < least then return r
        else s.settle p k least r (d * 0.2) moved (round + 1) cycles

def settleAxis (s : Surface α) (st : Strategy α) (p : Point α) (a : Axis α) (k : Nat) :
    Eval α (Settling α) :=
  let (d, least) := s.settleDistance p k a
  s.settle p k least ⟨a.slope, 0, 0, 0⟩ d 10000.0 0 st.hessianGradientCycles

def refined (s : Surface α) (st : Strategy α) (p : Point α) (g : Gradient α) :
    Eval α (Gradient α × Array α) := do
  let n := p.x.size
  Eval.expect (n ≤ g.slopes.size && n ≤ g.curvatures.size && n ≤ g.steps.size)
  let settled ← Eval.tabulate (fun k => s.settleAxis st p (Axis.ofGradient g k) k) p.x.size
  let slopes := Vector.overlay g.slopes (settled.map (·.slope))
  return (.numerical slopes g.curvatures g.steps, settled.map Settling.doubt)

end Surface
end ParamFit
