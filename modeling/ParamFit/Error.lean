import ParamFit.Double

/-!
What can go wrong with a fit before it runs. Errors are causes; the wording stands beside them in
`message`, for double precision numbers.
-/
namespace ParamFit

inductive Violation (α : Type) where
  | strategyTooHigh (level : Nat)
  | toleranceNotPositive
  | errorDefNotPositive
  | precisionOutside (eps : α)
  | unnamed
  | valueNotFinite (name : String)
  | errorNegative (name : String)
  | limitsEqual (name : String) (limit : α)
  | constantLimited (name : String)
  | nameRepeated (name : String)
  deriving BEq, Repr

namespace Violation

def field {α : Type} : Violation α → String
  | strategyTooHigh _ => "strategy"
  | toleranceNotPositive => "tolerance"
  | errorDefNotPositive => "error_def"
  | precisionOutside _ => "precision"
  | unnamed => "parameters.name"
  | valueNotFinite name => s!"parameters.{name}.value"
  | errorNegative name => s!"parameters.{name}.error"
  | limitsEqual name _ => s!"parameters.{name}.limits"
  | constantLimited name => s!"parameters.{name}.constant"
  | nameRepeated _ => "parameters"

def rule {α : Type} : Violation α → Option String
  | strategyTooHigh _ => "valid_strategy"
  | toleranceNotPositive | errorDefNotPositive => "positive"
  | precisionOutside _ => "valid_precision"
  | errorNegative _ => "non_negative"
  | limitsEqual _ _ => "distinct_limits"
  | nameRepeated _ => "unique_names"
  | unnamed | valueNotFinite _ | constantLimited _ => none

def message : Violation Double → String
  | strategyTooHigh level => s!"Strategy {level} must be 0, 1 or 2"
  | toleranceNotPositive => "Tolerance must be positive"
  | errorDefNotPositive => "Error definition must be positive"
  | precisionOutside eps => s!"Precision {Decimal.plain eps} must lie in (0, 1)"
  | unnamed => "Name cannot be empty"
  | valueNotFinite _ => "Value must be finite"
  | errorNegative _ => "Error must be a non-negative number"
  | limitsEqual _ limit => s!"Lower and upper limit are equal ({Decimal.plain limit})"
  | constantLimited _ => "A constant parameter cannot have limits"
  | nameRepeated name => "Duplicate parameter name '" ++ name ++ "'"

def describe (v : Violation Double) : String :=
  v.field ++ ": " ++ v.message ++ (v.rule.map fun r => s!" (rule: {r})").getD ""

end Violation

inductive Refusal (α : Type) where
  | notVariable
  | notReleasable
  | intervalOutside (low high : α)
  | profileNeedsVariable
  deriving BEq, Repr

inductive Unusable where
  | countsDiffer (values errors : Nat)
  | notMinimizable
  | sameParameter
  | tooFewPoints
  | notSearched
  deriving DecidableEq, Repr

inductive Misfit (α : Type) where
  | elements (count rows : Nat)
  | columns (row count expected : Nat)
  | rowCount (count expected : Nat)
  | variance (value : α) (row : Nat)
  deriving BEq, Repr

inductive FitError (α : Type) where
  | duplicateName (name : String)
  | unknownName (name : String)
  | indexOutOfRange (index count : Nat)
  | equalLimits (name : String) (limit : α)
  | refused (name : String) (why : Refusal α)
  | unusable (why : Unusable)
  | misfit (why : Misfit α)
  | invalid (violations : List (Violation α))
  | unreadable
  | linear (why : LinearError)
  deriving BEq, Repr

def Refusal.message : Refusal Double → String
  | notVariable => "cannot fix a fixed or constant parameter"
  | notReleasable => "only a fixed parameter can be released"
  | intervalOutside low high =>
    s!"scan interval [{Decimal.plain low}, {Decimal.plain high}] lies outside the limits"
  | profileNeedsVariable => "MINOS needs a variable parameter"

def Unusable.message : Unusable → String
  | countsDiffer values errors => s!"{values} values but {errors} errors"
  | notMinimizable => "the parameter state is not valid for minimization"
  | sameParameter => "contour needs two distinct parameters"
  | tooFewPoints => "contour needs at least four points"
  | notSearched => "MINOS parameter has no internal index"

def Misfit.message : Misfit Double → String
  | elements count rows => s!"{count} elements do not form a packed {rows}x{rows} matrix"
  | columns row count expected => s!"row {row} has {count} columns, expected {expected}"
  | rowCount count expected =>
    s!"covariance has {count} rows but there are {expected} variable parameters"
  | variance value row => s!"non-positive variance {Decimal.plain value} at row {row}"

def FitError.message : FitError Double → String
  | duplicateName name => s!"Duplicate parameter name: {name}"
  | unknownName name => s!"Unknown parameter: {name}"
  | indexOutOfRange index count =>
    s!"Parameter index {index} out of range (have {count} parameters)"
  | equalLimits name limit =>
    s!"Parameter {name}: lower and upper limit are equal ({Decimal.plain limit})"
  | refused name why => s!"Parameter {name}: {why.message}"
  | unusable why => s!"Invalid parameter state: {why.message}"
  | misfit why => s!"Invalid covariance: {why.message}"
  | invalid violations =>
    "Invalid configuration: " ++ String.intercalate "; " (violations.map Violation.describe)
  | unreadable => "Configuration parse error"
  | linear why => s!"Math error: {why.message}"

end ParamFit
