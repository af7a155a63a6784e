import ParamFit.Parameter.Space

/-!
Parameters with what a fit knows about them: a function value, an estimated distance to the
minimum, covariances in external and internal units and global correlations. It is what a fit
starts from and what it ends with. Knowledge that a change of the parameters makes stale is marked
so: fixing a parameter squeezes the covariances, releasing one or changing limits drops them.
-/
namespace ParamFit
variable {α : Type}

structure FitState (α : Type) where
  space : Space α
  valid : Bool := true
  hasCovariance : Bool := false
  hasCorrelation : Bool := false
  value : α
  edm : α
  calls : Nat := 0
  covariance : Covariance α := .empty
  inner : Covariance α := .empty
  correlation : GlobalCorrelation α := {}

namespace FitState
variable [Scalar α]

def ofSpace (space : Space α) : FitState α := { space, value := 0, edm := 0 }

def takeErrors (c : Covariance α) (space : Space α) (k : Nat) :
    List Nat → Except (FitError α) (Space α)
  | [] => .ok space
  | place :: rest =>
    let variance := c.element k k
    if variance ≤ 0 then .error (.misfit (.variance variance k))
    else takeErrors c (space.setErrorAt place (Scalar.sqrt variance)) (k + 1) rest

def ofCovariance (space : Space α) (c : Covariance α) : Except (FitError α) (FitState α) :=
  if c.rows = space.dimension then do
    let space ← takeErrors c space 0 space.free
    return { ofSpace space with hasCovariance := true, covariance := c, inner := c.scale 0.5 }
  else .error (.misfit (.rowCount c.rows space.dimension))

def dropCovariance (s : FitState α) : FitState α :=
  { s with hasCovariance := false, hasCorrelation := false }

def declare (s : FitState α) (space : Except (FitError α) (Space α)) :
    Except (FitError α) (FitState α) :=
  space.map fun space => { s with space, valid := true }

def fix (s : FitState α) (p : Address) : Except (FitError α) (FitState α) := do
  let i ← s.space.indexOf p
  let space ← s.space.fix (.index i)
  let kept := { s with space, hasCorrelation := false }
  match s.hasCovariance, s.space.coordinate? i with
  | true, some k =>
    return { kept with covariance := s.covariance.squeeze k, inner := s.inner.squeeze k }
  | _, _ => return kept

def pullInside (s : FitState α) (i : Nat) (outside : α → Bool) (value : α) : FitState α :=
  if i ∈ s.space.free ∧ outside (s.space.parameterAt i).value then
    { s with space := s.space.setValueAt i value }
  else s

def setLimits (s : FitState α) (p : Address) (a b : α) : Except (FitError α) (FitState α) := do
  let i ← s.space.indexOf p
  let space ← s.space.setLimits (.index i) a b
  let lower := (space.parameterAt i).lower.getD a
  let upper := (space.parameterAt i).upper.getD b
  return ({ s with space }.dropCovariance).pullInside i
    (fun v => !(decide (lower < v) && decide (v < upper))) (0.5 * (lower + upper))

def setLower (s : FitState α) (p : Address) (lower : α) : Except (FitError α) (FitState α) := do
  let i ← s.space.indexOf p
  let space ← s.space.setLower (.index i) lower
  return ({ s with space }.dropCovariance).pullInside i
    (fun v => decide (v ≤ lower)) (lower + 0.5 * Scalar.abs (lower + 1))

def setUpper (s : FitState α) (p : Address) (upper : α) : Except (FitError α) (FitState α) := do
  let i ← s.space.indexOf p
  let space ← s.space.setUpper (.index i) upper
  return ({ s with space }.dropCovariance).pullInside i
    (fun v => decide (upper ≤ v)) (upper - 0.5 * Scalar.abs (upper + 1))

def perform (s : FitState α) : Action α → Except (FitError α) (FitState α)
  | .add name value error => (s.declare (s.space.add name value error)).map dropCovariance
  | .addLimited name value error lower upper =>
    (s.declare (s.space.addLimited name value error lower upper)).map dropCovariance
  | .addConstant name value => s.declare (s.space.addConstant name value)
  | .fix p => s.fix p
  | .release p => do return { s with space := ← s.space.release p }.dropCovariance
  | .setValue p value => do return { s with space := ← s.space.setValue p value }
  | .setError p error => do return { s with space := ← s.space.setError p error }
  | .setLimits p a b => s.setLimits p a b
  | .setLower p lower => s.setLower p lower
  | .setUpper p upper => s.setUpper p upper
  | .removeLimits p => do return { s with space := ← s.space.removeLimits p }.dropCovariance
  | .setPrecision eps => .ok { s with space := s.space.setPrecision eps }

def step (s : FitState α) (a : Action α) : FitState α := (s.perform a).toOption.getD s

def run (s : FitState α) (actions : List (Action α)) : FitState α := actions.foldl step s

end FitState
end ParamFit
