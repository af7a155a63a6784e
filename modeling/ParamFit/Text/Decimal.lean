/-!
Decimal text of double precision numbers, computed exactly from the binary value. A number is a
sign, a whole mantissa and a power of two; texts differ in how many digits they keep, in where they
write the point and in which of two equally near decimals they prefer.
-/
namespace ParamFit.Decimal

inductive Halfway where
  | even
  | away
  deriving DecidableEq, Repr

def roundDiv (halfway : Halfway) (num den : Nat) : Nat :=
  let q := num / den
  let r := num % den
  if 2 * r < den then q
  else if den < 2 * r then q + 1
  else match halfway with
    | .even => if q % 2 = 0 then q else q + 1
    | .away => q + 1

structure Binary where
  negative : Bool
  mantissa : Nat
  exponent : Int
  deriving DecidableEq, Repr

def Binary.ofFloat? (x : Float) : Option Binary :=
  let bits := x.toBits.toNat
  let biased : Nat := bits / Nat.pow 2 52 % Nat.pow 2 11
  let fraction := bits % Nat.pow 2 52
  if biased = 2047 then none
  else if biased = 0 then some ⟨bits ≥ Nat.pow 2 63, fraction, -1074⟩
  else some ⟨bits ≥ Nat.pow 2 63, Nat.pow 2 52 + fraction, (biased : Int) - 1075⟩

structure Ratio where
  num : Nat
  den : Nat

def Ratio.ofPower (mantissa : Nat) (exponent : Int) : Ratio :=
  if 0 ≤ exponent then ⟨mantissa * Nat.pow 2 exponent.toNat, 1⟩ else ⟨mantissa, Nat.pow 2 (-exponent).toNat⟩

def Ratio.shift (r : Ratio) (power : Int) : Ratio :=
  if 0 ≤ power then ⟨r.num * Nat.pow 10 power.toNat, r.den⟩ else ⟨r.num, r.den * Nat.pow 10 (-power).toNat⟩

def Ratio.le (a b : Ratio) : Bool := a.num * b.den ≤ b.num * a.den
def Ratio.lt (a b : Ratio) : Bool := a.num * b.den < b.num * a.den

def Ratio.magnitude (r : Ratio) : Int :=
  let guess := ((Nat.toDigits 10 r.num).length : Int) - (Nat.toDigits 10 r.den).length
  if Ratio.le ((⟨1, 1⟩ : Ratio).shift guess) r then guess else guess - 1

structure Digits where
  digits : Nat
  magnitude : Int
  deriving DecidableEq, Repr

def Ratio.rounded (r : Ratio) (count : Nat) : Digits :=
  let scaled := r.shift ((count : Int) - 1 - r.magnitude)
  let digits := roundDiv .even scaled.num scaled.den
  if digits = Nat.pow 10 count then ⟨Nat.pow 10 (count - 1), r.magnitude + 1⟩ else ⟨digits, r.magnitude⟩

structure Interval where
  lower : Ratio
  upper : Ratio
  closed : Bool

def Binary.interval (b : Binary) : Interval where
  lower :=
    if b.mantissa = Nat.pow 2 52 ∧ -1074 < b.exponent then
      Ratio.ofPower (4 * b.mantissa - 1) (b.exponent - 2)
    else Ratio.ofPower (2 * b.mantissa - 1) (b.exponent - 1)
  upper := Ratio.ofPower (2 * b.mantissa + 1) (b.exponent - 1)
  closed := b.mantissa % 2 = 0

def Interval.contains (i : Interval) (r : Ratio) : Bool :=
  if i.closed then Ratio.le i.lower r && Ratio.le r i.upper
  else Ratio.lt i.lower r && Ratio.lt r i.upper

def Interval.decimal? (i : Interval) (halfway : Halfway) (value : Ratio) (count : Nat) :
    Option Digits :=
  let power := value.magnitude - ((count : Int) - 1)
  let scaled := value.shift (-power)
  let below := scaled.num / scaled.den
  let hit k := i.contains ((⟨k, 1⟩ : Ratio).shift power)
  let finish k : Digits :=
    if k = Nat.pow 10 count then ⟨Nat.pow 10 (count - 1), value.magnitude + 1⟩ else ⟨k, value.magnitude⟩
  match hit below, hit (below + 1) with
  | true, true => some (finish (roundDiv halfway scaled.num scaled.den))
  | true, false => some (finish below)
  | false, true => some (finish (below + 1))
  | false, false => none

/- The fewest digits that read back as the positive number, and the nearest to it of these. Of two
that are equally near, `halfway` tells which. -/
def Binary.shortest (b : Binary) (halfway : Halfway) : Digits :=
  let value := Ratio.ofPower b.mantissa b.exponent
  ((List.range' 1 17).findSome? fun count => b.interval.decimal? halfway value count).getD
    (value.rounded 17)

def Digits.text (d : Digits) : List Char := Nat.toDigits 10 d.digits

def Digits.positional (d : Digits) : String :=
  let ds := d.text
  if d.magnitude < 0 then
    "0." ++ String.ofList (List.replicate ((-d.magnitude).toNat - 1) '0' ++ ds)
  else
    let whole := d.magnitude.toNat + 1
    if ds.length ≤ whole then String.ofList (ds ++ List.replicate (whole - ds.length) '0')
    else String.ofList (ds.take whole) ++ "." ++ String.ofList (ds.drop whole)

def Digits.exponential (d : Digits) (mark : String) : String :=
  match d.text with
  | [] => ""
  | [c] => s!"{c}{mark}{d.magnitude}"
  | c :: rest => s!"{c}.{String.ofList rest}{mark}{d.magnitude}"

def Digits.scientific (d : Digits) : String := d.exponential "e"

def render (x : Float) (body : Binary → String) : String :=
  match Binary.ofFloat? x with
  | none => if x.isNaN then "NaN" else if x < 0 then "-inf" else "inf"
  | some b => (if b.negative then "-" else "") ++ body b

def plain (x : Float) : String :=
  render x fun b => if b.mantissa = 0 then "0" else (b.shortest .away).positional

/- The shortest decimal that reads back, as documents write it: with a point as long as the first
digit stands less than sixteen places before it or five behind it, with an exponent and its sign
beyond. Of two that are equally near it is the even one. -/
def document (x : Float) : String :=
  render x fun b =>
    if b.mantissa = 0 then "0.0"
    else
      let d := b.shortest .even
      if d.magnitude < -5 then d.scientific
      else if 15 < d.magnitude then d.exponential "e+"
      else if (d.text.length : Int) ≤ d.magnitude + 1 then d.positional ++ ".0"
      else d.positional

def scientific (x : Float) (places : Nat) : String :=
  render x fun b =>
    if b.mantissa = 0 then
      if places = 0 then "0e0" else "0." ++ String.ofList (List.replicate places '0') ++ "e0"
    else ((Ratio.ofPower b.mantissa b.exponent).rounded (places + 1)).scientific

def fixed (x : Float) (places : Nat) : String :=
  render x fun b =>
    let r := (Ratio.ofPower b.mantissa b.exponent).shift places
    let ds := Nat.toDigits 10 (roundDiv .even r.num r.den)
    let ds := List.replicate (places + 1 - ds.length) '0' ++ ds
    let whole := ds.length - places
    String.ofList (ds.take whole) ++
      (if places = 0 then "" else "." ++ String.ofList (ds.drop whole))

def padLeft (width : Nat) (s : String) : String :=
  String.ofList (List.replicate (width - s.length) ' ') ++ s

def toPlaces (x : Float) (places : Nat) : Float :=
  match Binary.ofFloat? x with
  | none => x
  | some b =>
    let r := (Ratio.ofPower b.mantissa b.exponent).shift places
    let nearest := Float.ofScientific (roundDiv .even r.num r.den) true places
    if b.negative then -nearest else nearest

end ParamFit.Decimal
