import ParamFit.Linear.Spectrum
import ParamFit.Text.Decimal
import ParamFit.Text.Numeral

/-!
Double precision numbers as scalars. An undefined number has a sign: an operation passes on that of
its first undefined operand, and one that has none to pass on gives a negative number. Comparisons
do not see the sign; only a list in ascending order does, for it has undefined numbers at both ends.
The resolution of the numbers is found by halving: the first step whose addition to one is partly
lost, times eight.
-/
namespace ParamFit

structure Double where
  value : Float
  negative : Bool := false

namespace Double

instance : Coe Double Float := ⟨Double.value⟩

def lift (f : Float → Float) (a : Double) : Double :=
  let v := f a.value
  ⟨v, v.isNaN && (a.negative || !a.value.isNaN)⟩

def lift₂ (f : Float → Float → Float) (a b : Double) : Double :=
  let v := f a.value b.value
  ⟨v, v.isNaN && if a.value.isNaN then a.negative else b.negative || !b.value.isNaN⟩

def neg (a : Double) : Double := ⟨-a.value, a.value.isNaN && !a.negative⟩

def precedes (a b : Double) : Bool :=
  if a.value.isNaN then a.negative || (b.value.isNaN && !b.negative)
  else if b.value.isNaN then !b.negative
  else a.value ≤ b.value

def lostStep (step : Float) : Nat → Option Float
  | 0 => none
  | fuel + 1 =>
      let half := step * 0.5
      if (1.0 + half) - 1.0 < half then some half else lostStep half fuel

def resolution : Float := ((lostStep 0.5 100).map (8.0 * ·)).getD 4.0e-7

instance : Scalar Double where
  add := lift₂ (· + ·)
  sub := lift₂ (· - ·)
  mul := lift₂ (· * ·)
  div := lift₂ (· / ·)
  neg := neg
  zero := ⟨0.0, false⟩
  one := ⟨1.0, false⟩
  lt a b := a.value < b.value
  le a b := a.value ≤ b.value
  beq a b := a.value == b.value
  ofScientific m s e := ⟨OfScientific.ofScientific m s e, false⟩
  decidableLT a b := inferInstanceAs (Decidable (a.value < b.value))
  decidableLE a b := inferInstanceAs (Decidable (a.value ≤ b.value))
  abs a := ⟨a.value.abs, false⟩
  sqrt := lift Float.sqrt
  sin := lift Float.sin
  cos := lift Float.cos
  arcsin := lift Float.asin
  halfPi := ⟨1.5707963267948966, false⟩
  resolution := ⟨resolution, false⟩

instance : Spectral Double where
  eigenvalues := Symmetric.spectrum precedes

instance : NumberText Double where
  text x := (Decimal.document x).toList

end Double
end ParamFit
