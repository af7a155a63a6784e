import ParamFit.Scalar

/-!
Numbers as texts write them. A numeral is a sign, decimal digits and a power of ten, and it becomes
the nearest scalar in one rounding; or it is a significand of sixty-four bits that is scaled by
powers of ten in steps, each of which rounds. The grammar of both is the same.
-/
namespace ParamFit

inductive Numeral where
  | decimal (negative : Bool) (digits : Nat) (exponent : Int) (whole : Bool)
  | scaled (negative : Bool) (significand : Nat) (exponent : Int)
  | infinite (negative : Bool)
  | undefined
  deriving DecidableEq, Repr

namespace Numeral

def digitValue (c : Char) : Nat :=
  if c.isDigit then c.toNat - '0'.toNat
  else if c.isUpper then c.toNat - 'A'.toNat + 10
  else c.toNat - 'a'.toNat + 10

def ofDigits (base : Nat) (cs : List Char) : Nat :=
  cs.foldl (fun n c => base * n + digitValue c) 0

/-! ### Scalars -/

section
variable {α : Type} [Scalar α]

def nearest? (digits : Nat) (exponent : Int) : Option α :=
  let magnitude := exponent + (Nat.toDigits 10 digits).length
  if digits = 0 ∨ magnitude < -400 then some 0
  else if magnitude > 400 then none
  else
    let x : α := OfScientific.ofScientific digits (decide (exponent < 0)) exponent.natAbs
    if Scalar.isFinite x then some x else none

def largestStep : Nat := 308

def powerOfTen (n : Nat) : α := OfScientific.ofScientific 1 false n

def shrink (x : α) (n : Nat) : α :=
  if n ≤ largestStep then x / powerOfTen n
  else if x == 0 then x
  else shrink (x / powerOfTen largestStep) (n - largestStep)
termination_by n
decreasing_by simp only [largestStep] at *; omega

def grow? (x : α) (n : Nat) : Option α :=
  if n ≤ largestStep then
    let y := x * powerOfTen n
    if Scalar.isFinite y then some y else none
  else if x == 0 then some x
  else none

def scale? (significand : Nat) (exponent : Int) : Option α :=
  let x : α := Scalar.ofNat significand
  if exponent < 0 then some (shrink x exponent.natAbs) else grow? x exponent.natAbs

def toScalar? : Numeral → Option α
  | undefined => some (-(0 / 0))
  | infinite negative => some (if negative then -(1 / 0) else 1 / 0)
  | decimal negative digits exponent _ =>
    (nearest? digits exponent).map fun x => if negative then -x else x
  | scaled negative significand exponent =>
    (scale? significand exponent).map fun x => if negative then -x else x

end

def toCount? (bound : Nat) : Numeral → Option Nat
  | decimal false digits 0 true => if digits ≤ bound then some digits else none
  | _ => none

/-! ### Texts -/

def exponent? : List Char → Option Int
  | [] => some 0
  | mark :: rest =>
    let (negative, digits) := match rest with
      | '-' :: r => (true, r)
      | '+' :: r => (false, r)
      | r => (false, r)
    if (mark == 'e' || mark == 'E') && !digits.isEmpty && digits.all Char.isDigit then
      let size : Int := ofDigits 10 digits
      some (if negative then -size else size)
    else none

def fraction? : List Char → Option (List Char × List Char)
  | '.' :: rest =>
    let digits := rest.takeWhile Char.isDigit
    if digits.isEmpty then none else some (digits, rest.dropWhile Char.isDigit)
  | rest => some ([], rest)

structure Pieces where
  negative : Bool
  whole : List Char
  fraction : List Char
  exponent : Int
  plain : Bool

def Pieces.read? (cs : List Char) : Option Pieces := do
  let (negative, cs) := match cs with
    | '-' :: r => (true, r)
    | r => (false, r)
  let whole := cs.takeWhile Char.isDigit
  if whole.isEmpty || (whole.length > 1 && whole.head? == some '0') then none
  let rest := cs.dropWhile Char.isDigit
  let (fraction, tail) ← fraction? rest
  return ⟨negative, whole, fraction, ← exponent? tail, rest.isEmpty⟩

/- The number that pieces write. A negative zero counts as no whole number. -/
def Pieces.exact (p : Pieces) : Numeral :=
  let digits := ofDigits 10 (p.whole ++ p.fraction)
  decimal p.negative digits (p.exponent - p.fraction.length)
    (p.plain && !(p.negative && digits == 0))

def fill (n : Nat) : List Char → Nat × List Char
  | [] => (n, [])
  | c :: rest =>
    let next := 10 * n + digitValue c
    if next < Nat.pow 2 64 then fill next rest else (n, c :: rest)

/- The number that pieces write with a bounded significand. Whole digits that do not fit raise the
power of ten, digits of the fraction that do not fit are lost. A whole number that fits is
exact. -/
def Pieces.bounded (p : Pieces) : Numeral :=
  let (high, dropped) := fill 0 p.whole
  let (significand, lost) := fill high p.fraction
  if p.plain && dropped.isEmpty then p.exact
  else scaled p.negative significand
    (p.exponent + dropped.length - (p.fraction.length - lost.length : Nat))

def read? (cs : List Char) : Option Numeral := (Pieces.read? cs).map Pieces.exact

def readBounded? (cs : List Char) : Option Numeral := (Pieces.read? cs).map Pieces.bounded

end Numeral

class NumberText (α : Type) where
  text : α → List Char

end ParamFit
