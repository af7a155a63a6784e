import ParamFit.Gradient.Difference

/-!
The ways to a gradient: two-point differences, the derivatives that the objective provides, and
settled differences. A gradient can be found from scratch, or with the curvatures and steps of one
that was found nearby.
-/
namespace ParamFit
variable {α : Type} [Scalar α]

inductive GradientMethod (α : Type) where
  | differences (st : Strategy α)
  | provided
  | refined (st : Strategy α)

def GradientMethod.isProvided : GradientMethod α → Bool
  | provided => true
  | _ => false

namespace Surface

def providesAll (s : Surface α) : Bool := s.space.free.all s.objective.provides

def providedSlopes (s : Surface α) (p : Point α) : Eval α (Array α) := do
  Eval.expect (p.x.size ≤ s.space.dimension)
  let external := s.space.external p.x
  Eval.tabulate (fun k => do
    let slope ← s.externalSlope (s.space.place k) external
    return if s.isLimited k then s.space.slope k (entry p.x k) * slope else slope) p.x.size

def gradientFrom (s : Surface α) (m : GradientMethod α) (p : Point α) (g : Gradient α) :
    Eval α (Gradient α) :=
  match m with
  | .differences st => s.differences st p g
  | .provided => do return .supplied (← s.providedSlopes p) g.curvatures g.steps
  | .refined st => do return (← s.refined st p g).1

def gradient (s : Surface α) (m : GradientMethod α) (p : Point α) : Eval α (Gradient α) :=
  match m with
  | .provided => do return .bare (← s.providedSlopes p)
  | m => do s.gradientFrom m p (← s.guessed p)

end Surface
end ParamFit
