import ParamFit.Search.Hessian
import ParamFit.Search.Line
import ParamFit.Minimum.Basic

/-!
Where searches begin. A simplex begins at the declared values with the guessed gradient, for one
call. A descent needs a gradient and an error matrix: derivatives that the objective provides are
compared with differences, a covariance that is known is used, and a point where the value curves
down is left along the coordinates that curve down.
-/
namespace ParamFit
variable {α : Type}

section
variable [Scalar α]

namespace Surface

def startPoint (s : Surface α) (state : FitState α) : Eval α (Point α) := do
  let x := state.space.internal
  return .plain x (← s.value x)

def diagonalError (g : Gradient α) (prec : Precision α) : ErrorMatrix α :=
  .usable (.ofDiagonal (g.inverseCurvatures prec)) 1

def know (p : Point α) (e : ErrorMatrix α) (g : Gradient α) : Eval α (Knowledge α) := do
  Eval.expect (e.covers g)
  return ⟨p, e, g, e.edm g, ← Eval.calls⟩

def simplexSeed (s : Surface α) (state : FitState α) : Eval α (Seed α) := do
  let p ← s.startPoint state
  let g := s.guess p
  return ⟨← know p (diagonalError g state.space.precision) g, state.space⟩

/-! ### Leaving a point that curves down -/

def downhill (g : Gradient α) (i n : Nat) (prec : Precision α) : Array α :=
  let slope := entry g.slopes i
  let d := entry g.steps i * slope
  (Array.replicate n 0).setIfInBounds i
    (if Scalar.abs slope > prec.eps2 then d * (-1 / Scalar.abs slope) else d)

def climbDown (s : Surface α) (m : GradientMethod α) (prec : Precision α) (p : Point α)
    (g : Gradient α) : Nat → Eval α (Point α × Gradient α)
  | 0 => return (p, g)
  | tries + 1 => do
    match g.curvatures.findIdx? fun c => decide (c ≤ 0) with
    | none => return (p, g)
    | some i =>
      Eval.expect (i < p.x.size && i < g.slopes.size && i < g.steps.size)
      let step := downhill g i p.x.size prec
      let best ← s.lineSearch p step (entry step i * entry g.slopes i) prec
      let q := Point.plain (p.along step best.x) best.y
      let g ← s.gradientFrom m q g
      s.climbDown m prec q g tries

def leaveDownward (s : Surface α) (m : GradientMethod α) (k : Knowledge α) (prec : Precision α) :
    Eval α (Knowledge α) := do
  if !k.gradient.curvesDown then return k
  else
    let (p, g) ← s.climbDown m prec k.point k.gradient (2 * k.size + 1)
    know p (diagonalError g prec) g

/-! ### Provided derivatives -/

def disagrees (s : Surface α) (p : Point α) (provided guessed : Gradient α) : Eval α Bool := do
  let (found, doubt) ← s.refined .high p guessed
  return (List.range provided.slopes.size).any fun i =>
    decide (Scalar.abs (entry found.slopes i - entry provided.slopes i) > entry doubt i)

def startGradient (s : Surface α) (m : GradientMethod α) (st : Strategy α) (check : GradientCheck)
    (p : Point α) : Eval α (Gradient α) := do
  if !m.isProvided then s.gradient m p
  else
    let guessed := s.guess p
    let g ← s.gradient m p
    let provided := Gradient.supplied g.slopes guessed.curvatures guessed.steps
    let wrong ← if check = .off then pure false else s.disagrees p provided guessed
    if wrong && check == .reject then s.gradient (.differences st) p else return provided

def startError (state : FitState α) (g : Gradient α) : ErrorMatrix α :=
  if state.hasCovariance ∧ state.inner.rows = state.space.dimension then
    .usable state.inner.toMatrix 0
  else diagonalError g state.space.precision

def settleStart (s : Surface α) (m : GradientMethod α) (st : Strategy α) (k : Knowledge α)
    (prec : Precision α) : Eval α (Knowledge α) := do
  if !k.gradient.curvesDown then return k
  else if !k.gradient.provided then s.leaveDownward m k prec
  else
    let k ← s.leaveDownward (.differences st) k prec
    let g ← s.gradient m k.point
    let g := Gradient.supplied g.slopes k.gradient.curvatures k.gradient.steps
    know k.point k.error g

end Surface
end

namespace Surface
variable [Spectral α]

def descentSeedAt (s : Surface α) (m : GradientMethod α) (st : Strategy α) (check : GradientCheck)
    (state : FitState α) (p : Point α) : Eval α (Seed α) := do
  let g ← s.startGradient m st check p
  let k ← know p (startError state g) g
  let k ← s.settleStart m st k state.space.precision
  let k ← if st.isHigh && !state.hasCovariance && 0 < state.space.dimension then
      s.secondDerivatives st k 0
    else pure k
  return ⟨k, state.space⟩

def descentSeed (s : Surface α) (m : GradientMethod α) (st : Strategy α) (check : GradientCheck)
    (state : FitState α) : Eval α (Seed α) := do
  s.descentSeedAt m st check state (← s.startPoint state)

end Surface
end ParamFit
