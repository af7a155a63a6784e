import ParamFit.Parameter.Basic
import ParamFit.Precision

/-!
A search moves freely in internal coordinates; limits map them to the external values an objective
sees. Two limits fold the line into an interval by a sine, one limit folds it into a half-line by a
hyperbola, no limit leaves it as it is. An external value at or beyond a limit, or so close that
the fold is flat there, has the internal value of a point just inside.
-/
namespace ParamFit
variable {α : Type}

inductive Limits (α : Type) where
  | free
  | both (lower upper : α)
  | lower (lower : α)
  | upper (upper : α)
  deriving BEq, Repr

def Parameter.limits (p : Parameter α) : Limits α :=
  match p.lower, p.upper with
  | some lo, some hi => .both lo hi
  | some lo, none => .lower lo
  | none, some hi => .upper hi
  | none, none => .free

namespace Limits
variable [Scalar α]

def hyperbola (v : α) : α := Scalar.sqrt (v * v + 1)

def toExternal (l : Limits α) (v : α) : α :=
  match l with
  | .free => v
  | .both lo hi => lo + 0.5 * (hi - lo) * (Scalar.sin v + 1)
  | .lower lo => lo - 1 + hyperbola v
  | .upper hi => hi + 1 - hyperbola v

def margin (prec : Precision α) : α := 8.0 * Scalar.sqrt prec.eps2

def ofHeight (prec : Precision α) (h : α) : α :=
  let square := h * h
  if square < 1 + prec.eps2 then margin prec else Scalar.sqrt (square - 1)

def toInternal (l : Limits α) (prec : Precision α) (v : α) : α :=
  match l with
  | .free => v
  | .both lo hi =>
    let y := 2.0 * (v - lo) / (hi - lo) - 1
    if y * y > 1 - prec.eps2 then
      if y < 0 then -Scalar.halfPi + margin prec else Scalar.halfPi - margin prec
    else Scalar.arcsin y
  | .lower lo => ofHeight prec (v - lo + 1)
  | .upper hi => ofHeight prec (hi - v + 1)

def slope (l : Limits α) (v : α) : α :=
  match l with
  | .free => 1
  | .both lo hi => 0.5 * (hi - lo) * Scalar.cos v
  | .lower _ => v / hyperbola v
  | .upper _ => -v / hyperbola v

end Limits
end ParamFit
