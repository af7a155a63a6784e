import ParamFit.Evaluation
import ParamFit.Minimum.State

/-!
A gradient from the errors of the parameters alone. Each coordinate is taken for a parabola that
rises by the error definition over the width of one error; that costs no call and gives steps to
begin with.
-/
namespace ParamFit
variable {α : Type} [Scalar α]

structure Axis (α : Type) where
  slope : α
  curvature : α
  step : α
  deriving BEq, Repr

namespace Axis

def ofGradient (g : Gradient α) (k : Nat) : Axis α :=
  ⟨entry g.slopes k, entry g.curvatures k, entry g.steps k⟩

def toGradient (axes : Array (Axis α)) : Gradient α :=
  .numerical (axes.map (·.slope)) (axes.map (·.curvature)) (axes.map (·.step))

def replace (g : Gradient α) (axes : Array (Axis α)) : Gradient α :=
  let found := toGradient axes
  .numerical (Vector.overlay g.slopes found.slopes)
    (Vector.overlay g.curvatures found.curvatures) (Vector.overlay g.steps found.steps)

end Axis

namespace Surface

def errorWidth (s : Surface α) (k : Nat) (v : α) : α :=
  let place := s.space.place k
  let p := s.space.parameterAt place
  let here := s.space.toExternal k v
  let above := here + p.error
  let below := here - p.error
  let ahead := s.space.toInternal place (p.upper.elim above (Scalar.min above)) - v
  let behind := s.space.toInternal place (p.lower.elim below (Scalar.max below)) - v
  0.5 * (Scalar.abs ahead + Scalar.abs behind)

def guessAxis (s : Surface α) (k : Nat) (v : α) : Axis α :=
  let width := s.errorWidth k v
  let curvature := 2.0 * s.errorDef / (width * width)
  let least := 8.0 * s.precision.eps2 * (Scalar.abs v + s.precision.eps2)
  let step := Scalar.max least (0.1 * width)
  ⟨curvature * width, curvature, if s.isLimited k ∧ step > 0.5 then 0.5 else step⟩

def guess (s : Surface α) (p : Point α) : Gradient α :=
  Axis.toGradient (tabulate s.space.dimension fun k => s.guessAxis k (entry p.x k))

def guessed (s : Surface α) (p : Point α) : Eval α (Gradient α) := do
  Eval.expect (p.x.size == s.space.dimension)
  return s.guess p

end Surface
end ParamFit
