import ParamFit.Search.Descent
import ParamFit.Search.Simplex
import ParamFit.Search.Scan

/-!
A fit: an objective, the state of its parameters, settings and an algorithm. Minimizing and scanning
move the state and count calls; a request that fails changes nothing of it.
-/
namespace ParamFit
variable {α : Type}

inductive Algorithm where
  | descent
  | simplex
  | combined
  | scan
  deriving DecidableEq, Repr

def Algorithm.needsDerivatives : Algorithm → Bool
  | descent | combined => true
  | simplex | scan => false

namespace Surface
variable [Spectral α]

def seedAgain (f : Surface α) (m : GradientMethod α) (coarse : Minimum α) : Eval α (Seed α) := do
  Eval.expect coarse.isSound
  f.descentSeed m .high .off coarse.state

def descendAgain (f : Surface α) (m : GradientMethod α) (coarse : Minimum α) (maxCalls : Nat)
    (edmval : α) : Eval α (Minimum α) := do
  f.descend m (← f.seedAgain m coarse) .high maxCalls edmval

/- Descend; where that fails, contract a simplex and descend again from there with much work. The
second descent counts only if it is valid. -/
def descendTwice (f : Surface α) (m : GradientMethod α) (seed : Seed α) (st : Strategy α)
    (maxCalls : Nat) (edmval : α) : Eval α (Minimum α) := do
  let first ← f.descend m seed st maxCalls edmval
  if first.isValid then return first
  else
    let coarse ← f.contract seed maxCalls edmval
    if !coarse.isValid then return coarse
    else
      let second ← f.descendAgain m coarse maxCalls edmval
      return if second.isValid then second else coarse

def seed (f : Surface α) (a : Algorithm) (m : GradientMethod α) (st : Strategy α)
    (check : GradientCheck) (state : FitState α) : Eval α (Seed α) :=
  if a.needsDerivatives then f.descentSeed m st check state else f.simplexSeed state

def search (f : Surface α) (a : Algorithm) (m : GradientMethod α) (seed : Seed α) (st : Strategy α)
    (maxCalls : Nat) (edmval : α) : Eval α (Minimum α) :=
  match a with
  | .descent => f.descend m seed st maxCalls edmval
  | .simplex => f.contract seed maxCalls edmval
  | .combined => f.descendTwice m seed st maxCalls edmval
  | .scan => f.scanAxes seed

end Surface

structure Fit (α : Type) where
  objective : Objective α
  state : FitState α
  settings : Settings α
  algorithm : Algorithm
  calls : Nat := 0

namespace Fit

section
variable [Scalar α]

def new (objective : Objective α) (state : FitState α) (algorithm : Algorithm) : Fit α :=
  { objective, state, settings := .default, algorithm }

def configure (f : Fit α) (settings : Settings α) : Fit α :=
  let state := match settings.precision with
    | some eps => { f.state with space := f.state.space.setPrecision eps }
    | none => f.state
  { f with state, settings }

def ofSetup (objective : Objective α) (setup : Setup α) (algorithm : Algorithm) :
    Except (FitError α) (Fit α) := do
  return (new objective (← setup.state) algorithm).configure setup.settings

def perform (f : Fit α) (a : Action α) : Except (FitError α) (Fit α) :=
  (f.state.perform a).map fun state => { f with state }

def surface (f : Fit α) : Surface α := ⟨f.objective, f.settings.errorDef, f.state.space⟩

end

section
variable [Spectral α]

def strategy (f : Fit α) : Strategy α := .ofLevel f.settings.strategy

def method (f : Fit α) : GradientMethod α :=
  if f.settings.useDerivatives && f.surface.providesAll then .provided else .differences f.strategy

def methodFrom (f : Fit α) (seed : Seed α) : GradientMethod α :=
  let rejected := f.algorithm.needsDerivatives && !seed.knowledge.gradient.provided
  if f.method.isProvided && rejected then .differences f.strategy else f.method

def distance (f : Fit α) (tolerance : α) : α :=
  Scalar.max (tolerance * f.settings.errorDef) f.surface.precision.eps2

def seed (f : Fit α) : Eval α (Seed α) :=
  f.surface.seed f.algorithm f.method f.strategy f.settings.check f.state

/- One search with a budget of `maxCalls` calls. A budget that the beginning spends leaves nothing
to search with. -/
def searchFrom (f : Fit α) (maxCalls : Nat) (tolerance : α) : Eval α (Minimum α) := do
  let seed ← f.seed
  if maxCalls ≤ (← Eval.calls) then
    return { Minimum.ofSeed seed f.settings.errorDef with callLimit := true }
  else
    f.surface.search f.algorithm (f.methodFrom seed) seed f.strategy maxCalls (f.distance tolerance)

/- The budget of a search; zero asks for the default. -/
def allowance (f : Fit α) (maxCalls : Nat) : Nat :=
  if maxCalls = 0 then defaultBudget f.state.space.dimension else maxCalls

def minimizeWith (f : Fit α) (maxCalls : Nat) (tolerance : α) :
    Eval α (Except (FitError α) (Fit α × Minimum α)) := do
  if !f.state.valid then return .error (.unusable .notMinimizable)
  else
    let min ← Eval.apart (f.searchFrom (f.allowance maxCalls) tolerance)
    return .ok ({ f with state := min.state, calls := f.calls + min.calls }, min)

def minimize (f : Fit α) : Eval α (Except (FitError α) (Fit α × Minimum α)) :=
  f.minimizeWith f.settings.maxCalls f.settings.tolerance

end

section
variable [Scalar α]

def scan (f : Fit α) (p : Address) (steps : Nat) (low high : α) :
    Eval α (Except (FitError α) (Fit α × List (Sample α))) := do
  match f.state.space.indexOf p with
  | .error e => return .error e
  | .ok i => Eval.apart do
    let s := f.surface
    let start ← Scan.start s f.state.space
    match ← start.run s (.index i) steps low high with
    | .error e => return .error e
    | .ok (found, samples) =>
      let state :=
        if found.best < start.best then
          { f.state with space := f.state.space.setValueAt i (found.space.parameterAt i).value }
        else f.state
      return .ok ({ f with state, calls := f.calls + (← Eval.calls) }, samples)

end
end Fit

inductive Request (α : Type) where
  | minimize (maxCalls : Nat) (tolerance : α)
  | scan (p : Address) (steps : Nat) (low high : α)

namespace Fit

def after {β : Type} (f : Fit α) : Except (FitError α) (Fit α × β) → Fit α
  | .ok (served, _) => served
  | .error _ => f

variable [Spectral α]

def serve (f : Fit α) : Request α → Eval α (Fit α)
  | .minimize maxCalls tolerance => do return f.after (← f.minimizeWith maxCalls tolerance)
  | .scan p steps low high => do return f.after (← f.scan p steps low high)

def serveAll (f : Fit α) : List (Request α) → Eval α (Fit α)
  | [] => return f
  | r :: rest => do (← f.serve r).serveAll rest

end Fit
end ParamFit
