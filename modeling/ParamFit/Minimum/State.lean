import ParamFit.Parameter.Covariance
import ParamFit.Precision

/-!
What a search knows at one point of the internal coordinates: the point with its value, an estimate
of the inverse of the matrix of second derivatives, the gradient, and from the last two an estimate
of how far the value lies above the minimum.
-/
namespace ParamFit
variable {α : Type}

structure Point (α : Type) where
  x : Array α
  value : α
  step : Array α
  hasStep : Bool
  deriving BEq, Repr

namespace Point

def plain [Zero α] (x : Array α) (value : α) : Point α :=
  ⟨x, value, Array.replicate x.size 0, false⟩

def withStep (x step : Array α) (value : α) : Point α := ⟨x, value, step, true⟩

end Point

structure Gradient (α : Type) where
  slopes : Array α
  curvatures : Array α
  steps : Array α
  valid : Bool
  provided : Bool
  deriving BEq, Repr

namespace Gradient

def numerical (slopes curvatures steps : Array α) : Gradient α :=
  ⟨slopes, curvatures, steps, true, false⟩

def supplied (slopes curvatures steps : Array α) : Gradient α :=
  ⟨slopes, curvatures, steps, true, true⟩

def bare [Zero α] (slopes : Array α) : Gradient α :=
  supplied slopes (Array.replicate slopes.size 0) (Array.replicate slopes.size 0)

def missing [Zero α] (n : Nat) : Gradient α :=
  ⟨Array.replicate n 0, Array.replicate n 0, Array.replicate n 0, false, false⟩

def curvesDown [Scalar α] (g : Gradient α) : Bool := g.curvatures.any fun c => decide (c ≤ 0)

def inverseCurvatures [Scalar α] (g : Gradient α) (prec : Precision α) : Array α :=
  g.curvatures.map fun c => if Scalar.abs c > prec.eps2 then 1 / c else 1

end Gradient

/- Where an error matrix comes from. The last four are stand-ins for one that was not found. -/
inductive ErrorStatus where
  | notAvailable
  | valid
  | madePosDef
  | hessianFailed
  | invertFailed
  | notPosDef
  deriving DecidableEq, Repr

/- An estimate of the inverse of the matrix of second derivatives. `dcovar` is how much of it the
last update changed. -/
structure ErrorMatrix (α : Type) where
  inverse : Symmetric α
  dcovar : α
  status : ErrorStatus
  deriving BEq

namespace ErrorMatrix
variable [Scalar α]

def usable (m : Symmetric α) (dcovar : α) : ErrorMatrix α := ⟨m, dcovar, .valid⟩

def standIn (m : Symmetric α) (status : ErrorStatus) : ErrorMatrix α := ⟨m, 1, status⟩

def missing (n : Nat) : ErrorMatrix α := standIn (.zero n) .notAvailable

def covariance (e : ErrorMatrix α) : Symmetric α := e.inverse.scale 2.0

def hessian (e : ErrorMatrix α) : Symmetric α :=
  match e.inverse.invert with
  | .ok m => m
  | .error _ => .ofDiagonal (e.inverse.diagonal.map (1 / ·))

def isAccurate (e : ErrorMatrix α) : Bool := decide (e.dcovar < 0.1)
def isValid (e : ErrorMatrix α) : Bool := e.status == .valid
def isAvailable (e : ErrorMatrix α) : Bool := e.status != .notAvailable
def isPosDef (e : ErrorMatrix α) : Bool := e.status == .valid || e.status == .invertFailed
def isMadePosDef (e : ErrorMatrix α) : Bool := e.status == .madePosDef
def isHessianFailed (e : ErrorMatrix α) : Bool := e.status == .hessianFailed
def isInvertFailed (e : ErrorMatrix α) : Bool := e.status == .invertFailed

def squeeze (e : ErrorMatrix α) (k : Nat) : ErrorMatrix α :=
  let rest := e.hessian.squeeze k
  match rest.invert with
  | .ok m => usable m e.dcovar
  | .error _ => standIn (.ofDiagonal (rest.diagonal.map (1 / ·))) .invertFailed

/- The slopes that a distance can be estimated from: at most one for each row, and for a single row
at least one. -/
def covers (e : ErrorMatrix α) (g : Gradient α) : Bool :=
  if e.inverse.size = 1 then 0 < g.slopes.size else g.slopes.size ≤ e.inverse.size

def edm (e : ErrorMatrix α) (g : Gradient α) : α :=
  if e.inverse.size = 1 then
    let d := entry g.slopes 0
    0.5 * d * d * e.inverse.element 0 0
  else 0.5 * e.inverse.quadratic g.slopes

end ErrorMatrix

structure Knowledge (α : Type) where
  point : Point α
  error : ErrorMatrix α
  gradient : Gradient α
  edm : α
  calls : Nat
  deriving BEq

namespace Knowledge
variable [Scalar α]

def ofPoint (point : Point α) (edm : α) (calls : Nat) : Knowledge α :=
  ⟨point, .missing point.x.size, .missing point.x.size, edm, calls⟩

def size (k : Knowledge α) : Nat := k.point.x.size
def value (k : Knowledge α) : α := k.point.value
def hasCovariance (k : Knowledge α) : Bool := k.error.isAvailable

def isValid (k : Knowledge α) : Bool := if k.hasCovariance then k.error.isValid else true

end Knowledge
end ParamFit
