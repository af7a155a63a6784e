import ParamFit.Config.Basic
import ParamFit.Text.Toml

/-!
Setups as documents. A setup is a table of its settings and a list of its declarations; members
that are missing take their defaults, unknown ones are skipped. What is read is also checked: a
reader gives a setup that breaks no rule. The text of a setup names every member, and a number that
is missing or not finite is written as nothing.
-/
namespace ParamFit
variable {α : Type} [Scalar α]

def GradientCheck.name : GradientCheck → String
  | off => "off"
  | warn => "warn"
  | reject => "reject"

def GradientCheck.ofName? : String → Option GradientCheck
  | "off" => some off
  | "warn" => some warn
  | "reject" => some reject
  | _ => none

/-! ### Reading -/

def Settings.ofDocument? (strict : Bool) (d : Document) : Option (Settings α) := do
  if !d.fits 7 strict then none
  let base : Settings α := Settings.default
  return {
    strategy := ← d.optional "strategy" 0 (Document.count? (Nat.pow 2 32 - 1)) base.strategy
    maxCalls := ← d.optional "max_fcn" 1 (Document.count? (Nat.pow 2 64 - 1)) base.maxCalls
    tolerance := ← d.optional "tolerance" 2 Document.scalar? base.tolerance
    errorDef := ← d.optional "error_def" 3 Document.scalar? base.errorDef
    precision := ← d.optional "precision" 4 Document.scalarOrNull? base.precision
    useDerivatives := ←
      d.optional "use_analytical_derivatives" 5 Document.bool? base.useDerivatives
    check := ←
      d.optional "gradient_check" 6 (fun v => (v.choice? strict).bind GradientCheck.ofName?)
        base.check }

def Declaration.ofDocument? (strict : Bool) (d : Document) : Option (Declaration α) := do
  if !d.fits 7 strict then none
  return {
    name := ← d.required "name" 0 Document.text?
    value := ← d.required "value" 1 Document.scalar?
    error := ← d.optional "error" 2 Document.scalar? 0
    lower := ← d.optional "lower" 3 Document.scalarOrNull? none
    upper := ← d.optional "upper" 4 Document.scalarOrNull? none
    fixed := ← d.optional "fixed" 5 Document.bool? false
    constant := ← d.optional "constant" 6 Document.bool? false }

def Setup.ofDocument? (strict : Bool) (d : Document) : Option (Setup α) := do
  if !d.fits 2 strict then none
  return {
    settings := ← d.optional "minimizer" 0 (Settings.ofDocument? strict) Settings.default
    parameters := ← d.optional "parameters" 1
      (fun v => v.list?.bind (·.mapM (Declaration.ofDocument? strict))) [] }

inductive Notation where
  | json
  | toml
  deriving DecidableEq, Repr

/- The document of a text, and whether it is to be read strictly: a list that stands for a record
is no longer than the record, and a choice says nothing only by null. -/
def Notation.parse? : Notation → String → Option (Document × Bool)
  | json, s => do return (← Document.ofJson? (← Json.parse? s), true)
  | toml, s => do return (← Toml.parse? s, false)

def read {β : Type} (n : Notation) (s : String) (f : Bool → Document → Option β) :
    Except (FitError α) β :=
  match do let (d, strict) ← n.parse? s; f strict d with
  | some v => .ok v
  | none => .error .unreadable

def Settings.read (n : Notation) (s : String) : Except (FitError α) (Settings α) := do
  let v : Settings α ← ParamFit.read n s Settings.ofDocument?
  checked v v.violations

def Setup.read (n : Notation) (s : String) : Except (FitError α) (Setup α) := do
  let v : Setup α ← ParamFit.read n s Setup.ofDocument?
  checked v v.violations

/-! ### Writing -/

section
variable [NumberText α]

def numberJson (x : α) : Json :=
  if Scalar.isFinite x then .number (NumberText.text x) else .null

def countJson (n : Nat) : Json := .number (Nat.toDigits 10 n)

def optionJson (x : Option α) : Json := (x.map numberJson).getD .null

def Settings.toJson (s : Settings α) : Json := .object [
  ("strategy", countJson s.strategy),
  ("max_fcn", countJson s.maxCalls),
  ("tolerance", numberJson s.tolerance),
  ("error_def", numberJson s.errorDef),
  ("precision", optionJson s.precision),
  ("use_analytical_derivatives", .bool s.useDerivatives),
  ("gradient_check", .text s.check.name)]

def Declaration.toJson (d : Declaration α) : Json := .object [
  ("name", .text d.name),
  ("value", numberJson d.value),
  ("error", numberJson d.error),
  ("lower", optionJson d.lower),
  ("upper", optionJson d.upper),
  ("fixed", .bool d.fixed),
  ("constant", .bool d.constant)]

def Setup.toJson (s : Setup α) : Json := .object [
  ("minimizer", s.settings.toJson),
  ("parameters", .list (s.parameters.map Declaration.toJson))]

def Setup.toText (s : Setup α) : String := s.toJson.toPretty

end
end ParamFit
