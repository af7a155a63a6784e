import ParamFit.Minimum.State
import ParamFit.Parameter.State

/-!
The external view of what a search knows at a point: the parameters with values and errors in
external units, and the covariance where there is a usable one.
-/
namespace ParamFit
variable {α : Type} [Scalar α]

namespace Knowledge

def internalError (k : Knowledge α) (up : α) (i : Nat) : α :=
  if k.hasCovariance then Scalar.sqrt (2.0 * up * k.error.inverse.element i i)
  else entry k.point.step i

/- A space in which something is known of every coordinate, and in which a covariance holds no
others. -/
def fitsIn (k : Knowledge α) (space : Space α) : Bool :=
  let n := space.dimension
  let m := k.error.inverse.size
  n ≤ k.size && n ≤ (if k.hasCovariance then m else k.point.step.size)
    && (!k.error.isValid || k.size ≤ n && k.size ≤ m)

def setParameters (k : Knowledge α) (up : α) (space : Space α) : Space α :=
  space.free.zipIdx.foldl (fun s (place, i) =>
    let v := entry k.point.x i
    (s.setValueAt place (space.toExternal i v)).setErrorAt place
      (space.externalError i v (k.internalError up i))) space

end Knowledge

def FitState.ofKnowledge (k : Knowledge α) (up : α) (space : Space α) : FitState α :=
  let base : FitState α :=
    { space := k.setParameters up space, valid := k.isValid, value := k.value, edm := k.edm
      calls := k.calls }
  if k.error.isValid then
    { base with
      hasCovariance := true
      hasCorrelation := true
      covariance := (space.externalCovariance k.point.x k.error.inverse).scale (2.0 * up)
      inner := .ofMatrix k.error.inverse
      correlation := .ofMatrix k.error.inverse }
  else base

end ParamFit
