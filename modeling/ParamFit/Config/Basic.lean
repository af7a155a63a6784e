import ParamFit.Parameter.State
import ParamFit.Strategy

/-!
The setup of a fit as a user declares it: settings of the search and one declaration per parameter.
`violations` lists every rule that a setup breaks, in the order of its parts; a setup without any
can be built, and `space` builds what it says.
-/
namespace ParamFit
variable {α : Type} [Scalar α]

inductive GradientCheck where
  | off
  | warn
  | reject
  deriving DecidableEq, Repr

structure Settings (α : Type) where
  strategy : Nat
  maxCalls : Nat
  tolerance : α
  errorDef : α
  precision : Option α
  useDerivatives : Bool
  check : GradientCheck
  deriving BEq, Repr

def defaultBudget (n : Nat) : Nat := 200 + 100 * n + 5 * n * n

def defaultBudget? (n : Nat) : Option Nat :=
  if Count.fits (defaultBudget n) then some (defaultBudget n) else none

namespace Settings

def default : Settings α := ⟨1, 0, 0.1, 1, none, true, .warn⟩

def budget (s : Settings α) (n : Nat) : Nat :=
  if s.maxCalls = 0 then defaultBudget n else s.maxCalls

def isPositive (x : α) : Bool := Scalar.isFinite x && !decide (x ≤ 0)

def violations (s : Settings α) : List (Violation α) :=
  (if 2 < s.strategy then [.strategyTooHigh s.strategy] else [])
    ++ (if isPositive s.tolerance then [] else [.toleranceNotPositive])
    ++ (if isPositive s.errorDef then [] else [.errorDefNotPositive])
    ++ (match s.precision with
      | some eps => if 0 < eps ∧ eps < 1 then [] else [.precisionOutside eps]
      | none => [])

end Settings

structure Declaration (α : Type) where
  name : String
  value : α
  error : α
  lower : Option α := none
  upper : Option α := none
  fixed : Bool := false
  constant : Bool := false
  deriving BEq, Repr

namespace Declaration

def violations (d : Declaration α) : List (Violation α) :=
  (if d.name.isEmpty then [.unnamed] else [])
    ++ (if Scalar.isFinite d.value then [] else [.valueNotFinite d.name])
    ++ (if !d.constant && (!Scalar.isFinite d.error || decide (d.error < 0)) then
        [.errorNegative d.name]
      else [])
    ++ (match d.lower, d.upper with
      | some lo, some hi => if lo == hi then [.limitsEqual d.name lo] else []
      | _, _ => [])
    ++ (if d.constant && (d.lower.isSome || d.upper.isSome) then [.constantLimited d.name] else [])

def declare (d : Declaration α) (s : Space α) : Except (FitError α) (Space α) :=
  if d.constant then s.addConstant d.name d.value
  else do
    let p := Address.name d.name
    let s ← match d.lower, d.upper with
      | some lo, some hi => s.addLimited d.name d.value d.error lo hi
      | some lo, none => do (← s.add d.name d.value d.error).setLower p lo
      | none, some hi => do (← s.add d.name d.value d.error).setUpper p hi
      | none, none => s.add d.name d.value d.error
    if d.fixed then s.fix p else return s

end Declaration

structure Setup (α : Type) where
  settings : Settings α
  parameters : List (Declaration α)
  deriving BEq, Repr

namespace Setup

def declarationViolations (seen : List String) : List (Declaration α) → List (Violation α)
  | [] => []
  | d :: rest =>
    d.violations ++ (if seen.contains d.name then [.nameRepeated d.name] else [])
      ++ declarationViolations (d.name :: seen) rest

def violations (s : Setup α) : List (Violation α) :=
  s.settings.violations ++ declarationViolations [] s.parameters

def space (s : Setup α) : Except (FitError α) (Space α) := do
  let space ← s.parameters.foldlM (fun space d => d.declare space) Space.empty
  return match s.settings.precision with
    | some eps => space.setPrecision eps
    | none => space

def state (s : Setup α) : Except (FitError α) (FitState α) := s.space.map FitState.ofSpace

end Setup

def checked {β : Type} (value : β) (violations : List (Violation α)) : Except (FitError α) β :=
  if violations.isEmpty then .ok value else .error (.invalid violations)

end ParamFit
