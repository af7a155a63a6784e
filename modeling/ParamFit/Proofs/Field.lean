import ParamFit.Exact

/-! Scalars that compute in an ordered field. Their arithmetic and their comparisons are those of the
field. Of the square root no more is known than that it does not vanish on what is positive; the
other functions may be any. -/
namespace ParamFit

-- Two arithmetics stand side by side until the laws say that they are one.
set_option linter.overlappingInstances false

class OrderedScalar (K : Type) [Field K] [LinearOrder K] [Scalar K] : Prop where
  add (a b : K) : @HAdd.hAdd K K K (@instHAdd K Scalar.toAdd) a b = a + b
  sub (a b : K) : @HSub.hSub K K K (@instHSub K Scalar.toSub) a b = a - b
  mul (a b : K) : @HMul.hMul K K K (@instHMul K Scalar.toMul) a b = a * b
  div (a b : K) : @HDiv.hDiv K K K (@instHDiv K Scalar.toDiv) a b = a / b
  neg (a : K) : @Neg.neg K Scalar.toNeg a = -a
  zero : @OfNat.ofNat K 0 (@Zero.toOfNat0 K Scalar.toZero) = 0
  one : @OfNat.ofNat K 1 (@One.toOfNat1 K Scalar.toOne) = 1
  lt (a b : K) : @LT.lt K Scalar.toLT a b ↔ a < b
  le (a b : K) : @LE.le K Scalar.toLE a b ↔ a ≤ b
  beq (a b : K) : @BEq.beq K Scalar.toBEq a b = decide (a = b)
  root {a : K} : 0 < a → Scalar.sqrt a ≠ 0

instance : OrderedScalar ℝ where
  add _ _ := rfl
  sub _ _ := rfl
  mul _ _ := rfl
  div _ _ := rfl
  neg _ := rfl
  zero := rfl
  one := rfl
  lt _ _ := .rfl
  le _ _ := .rfl
  beq a b := by rw [Exact.beq, decide_eq_decide]
  root positive := (Real.sqrt_pos.mpr positive).ne'

namespace OrderedScalar
variable {K : Type} [Field K] [LinearOrder K] [Scalar K] [OrderedScalar K]

theorem isFinite (a : K) : Scalar.isFinite a = true := by
  simp [Scalar.isFinite, sub, zero, beq]

theorem positive {a : K} :
    ¬ @LE.le K Scalar.toLE a (@OfNat.ofNat K 0 (@Zero.toOfNat0 K Scalar.toZero)) ↔ 0 < a := by
  rw [le, zero, not_le]

end OrderedScalar
end ParamFit
