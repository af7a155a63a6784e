/-!
Numbers that a fit computes with. Every algorithm of the library is written once over a `Scalar`,
in a fixed order of operations: on double precision numbers it runs, on exact real numbers it is
reasoned about. Comparisons may all be false at once, as they are on a number that is not a number;
so a negated comparison is never replaced by the opposite one.
-/
namespace ParamFit

/- The arithmetic a fit needs. `resolution` is the smallest relative change the numbers can be
trusted to show, with a safety factor of eight. -/
class Scalar (α : Type) extends Add α, Sub α, Mul α, Div α, Neg α, Zero α, One α,
    LT α, LE α, BEq α, OfScientific α where
  decidableLT : DecidableLT α
  decidableLE : DecidableLE α
  abs : α → α
  sqrt : α → α
  sin : α → α
  cos : α → α
  arcsin : α → α
  halfPi : α
  resolution : α

instance lessDecidable {α : Type} [Scalar α] : DecidableLT α := Scalar.decidableLT
instance notMoreDecidable {α : Type} [Scalar α] : DecidableLE α := Scalar.decidableLE

namespace Scalar
variable {α : Type} [Scalar α]

def ofNat (n : Nat) : α := OfScientific.ofScientific n false 0

def isNaN (a : α) : Bool := !(a == a)

def isFinite (a : α) : Bool := a - a == 0

def max (a b : α) : α := if a < b || isNaN a then b else a

def min (a b : α) : α := if b < a || isNaN a then b else a

def clamp (a lo hi : α) : α := if a < lo then lo else if hi < a then hi else a

/- The sum of a list, from the front. It begins with the negative zero, which alters nothing that
it is added to; so negative zeros add up to a negative one. -/
def sum (l : List α) : α := l.foldl (· + ·) (-0)

end Scalar
end ParamFit
