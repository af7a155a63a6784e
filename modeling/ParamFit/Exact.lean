import Mathlib
import ParamFit.Linear.Spectrum

/-! Exact numbers. The scalars are the real numbers with their own operations; comparisons are
decided classically. A symmetric matrix knows its eigenvalues: the roots of its characteristic
polynomial. The resolution is the one that double precision finds for itself. -/
namespace ParamFit

noncomputable instance exactScalar : Scalar ℝ where
  decidableLT := Classical.decRel _
  decidableLE := Classical.decRel _
  beq a b := decide (a = b)
  abs a := |a|
  sqrt := Real.sqrt
  sin := Real.sin
  cos := Real.cos
  arcsin := Real.arcsin
  halfPi := Real.pi / 2
  resolution := 2⁻¹ ^ 50

/- Statements about real numbers are written with the operations of the mathematics, not with those
of the class; the rules below take the second to the first. -/
attribute [instance (low)] Scalar.toAdd Scalar.toSub Scalar.toMul Scalar.toDiv Scalar.toNeg
  Scalar.toZero Scalar.toOne Scalar.toLT Scalar.toLE Scalar.toBEq Scalar.toOfScientific

/- The full square of a stored matrix. -/
noncomputable def Symmetric.square (m : Symmetric ℝ) : Matrix (Fin m.size) (Fin m.size) ℝ :=
  .of fun i j => m.element i j

noncomputable instance exactSpectral : Spectral ℝ where
  eigenvalues m := m.square.charpoly.roots.sort

namespace Exact
variable (a b : ℝ)

@[simp] theorem add : @HAdd.hAdd ℝ ℝ ℝ (@instHAdd ℝ Scalar.toAdd) a b = a + b := rfl
@[simp] theorem sub : @HSub.hSub ℝ ℝ ℝ (@instHSub ℝ Scalar.toSub) a b = a - b := rfl
@[simp] theorem mul : @HMul.hMul ℝ ℝ ℝ (@instHMul ℝ Scalar.toMul) a b = a * b := rfl
@[simp] theorem div : @HDiv.hDiv ℝ ℝ ℝ (@instHDiv ℝ Scalar.toDiv) a b = a / b := rfl
@[simp] theorem neg : @Neg.neg ℝ Scalar.toNeg a = -a := rfl
@[simp] theorem zero : @OfNat.ofNat ℝ 0 (@Zero.toOfNat0 ℝ Scalar.toZero) = 0 := rfl
@[simp] theorem one : @OfNat.ofNat ℝ 1 (@One.toOfNat1 ℝ Scalar.toOne) = 1 := rfl
@[simp] theorem lt : @LT.lt ℝ Scalar.toLT a b = (a < b) := rfl
@[simp] theorem le : @LE.le ℝ Scalar.toLE a b = (a ≤ b) := rfl
@[simp] theorem beq : @BEq.beq ℝ Scalar.toBEq a b = decide (a = b) := rfl
@[simp] theorem scientific (m : ℕ) (s : Bool) (e : ℕ) :
    @OfScientific.ofScientific ℝ Scalar.toOfScientific m s e = OfScientific.ofScientific m s e := rfl
@[simp] theorem abs : Scalar.abs a = |a| := rfl
@[simp] theorem sqrt : Scalar.sqrt a = √a := rfl

@[simp] theorem max : Scalar.max a b = Max.max a b := by
  by_cases h : a < b
  · simp [Scalar.max, h, h.le]
  · simp [Scalar.max, Scalar.isNaN, h, not_lt.mp h]

@[simp] theorem min : Scalar.min a b = Min.min a b := by
  by_cases h : b < a
  · simp [Scalar.min, h, h.le]
  · simp [Scalar.min, Scalar.isNaN, h, not_lt.mp h]

@[simp] theorem finite : Scalar.isFinite a = true := by simp [Scalar.isFinite]

end Exact
end ParamFit
