import ParamFit.Error

/-!
One declared parameter: a value with an error, up to two limits, and whether it may vary. Two
limits are kept in ascending order and never coincide.
-/
namespace ParamFit
variable {α : Type}

inductive Address where
  | index (i : Nat)
  | name (s : String)
  deriving DecidableEq, Repr

structure Parameter (α : Type) where
  number : Nat
  name : String
  value : α
  error : α
  lower : Option α := none
  upper : Option α := none
  isConstant : Bool := false
  isFixed : Bool := false
  deriving BEq, Repr

namespace Parameter

def constant [Zero α] (number : Nat) (name : String) (value : α) : Parameter α :=
  { number, name, value, error := 0, isConstant := true }

def hasLower (p : Parameter α) : Bool := p.lower.isSome
def hasUpper (p : Parameter α) : Bool := p.upper.isSome
def hasLimits (p : Parameter α) : Bool := p.hasLower || p.hasUpper
def hasBothLimits (p : Parameter α) : Bool := p.hasLower && p.hasUpper

def setValue (p : Parameter α) (value : α) : Parameter α := { p with value }

def setError (p : Parameter α) (error : α) : Parameter α := { p with error, isConstant := false }

def setLimits [Scalar α] (p : Parameter α) (a b : α) : Except (FitError α) (Parameter α) :=
  if a == b then .error (.equalLimits p.name a)
  else if a > b then .ok { p with lower := some b, upper := some a }
  else .ok { p with lower := some a, upper := some b }

def setLower (p : Parameter α) (a : α) : Parameter α := { p with lower := some a, upper := none }
def setUpper (p : Parameter α) (b : α) : Parameter α := { p with lower := none, upper := some b }
def removeLimits (p : Parameter α) : Parameter α := { p with lower := none, upper := none }
def fix (p : Parameter α) : Parameter α := { p with isFixed := true }
def release (p : Parameter α) : Parameter α := { p with isFixed := false }

def limited [Scalar α] (number : Nat) (name : String) (value error a b : α) :
    Except (FitError α) (Parameter α) :=
  { number, name, value, error : Parameter α }.setLimits a b

end Parameter
end ParamFit
