import ParamFit.Proofs.Definite
import ParamFit.Proofs.Fitting
import ParamFit.Proofs.Minors

/-! What forcing positive definite leaves over exact numbers. The smallest eigenvalue of the scaled
matrix decides whether its diagonal is stretched, and stretching adds to every eigenvalue what is missing
from the smallest. So where a forced matrix has an inverse, both are positive definite, and so is every
matrix that stands in for one of second derivatives. -/
namespace ParamFit
open Finset Matrix
variable {n : ℕ}

namespace Symmetric

theorem matrixDiagonal {d : Array ℝ} (size : d.size = n) :
    (ofDiagonal d).matrix n = Matrix.diagonal fun i : Fin n => entry d i := by
  have comm (i j : ℕ) : (if i = j then entry d i else (0 : ℝ)) = if j = i then entry d j else 0 := by
    by_cases same : i = j
    · rw [same]
    · rw [if_neg same, if_neg (Ne.symm same)]
  rw [ofDiagonal, size, matrixBuild comm]
  ext i j
  rw [of_apply, diagonal_apply]
  exact if_congr Fin.ext_iff.symm rfl rfl

theorem diagonalDefinite {d : Array ℝ} (size : d.size = n) (positive : ∀ i < n, 0 < entry d i) :
    ((ofDiagonal d).matrix n).PosDef := by
  rw [matrixDiagonal size]
  exact .diagonal fun i => positive i i.isLt

theorem onlyDefinite {m : Symmetric ℝ} (positive : 0 < m.element 0 0) : (m.matrix 1).PosDef := by
  have same : m.matrix 1 = Matrix.diagonal fun _ => m.element 0 0 := by
    ext i j
    rw [Subsingleton.elim i 0, Subsingleton.elim j 0, diagonal_apply_eq]
    rfl
  rw [same]
  exact .diagonal fun _ => positive

end Symmetric

namespace ErrorMatrix
variable {m : Symmetric ℝ}

theorem liftDiagonal (amount : ℝ) {i : ℕ} (inside : i < m.size) : 0 ≤ (lift m amount).element i i := by
  rw [lift, Symmetric.elementBuild _ le_rfl inside, if_pos rfl]
  dsimp only
  split
  case isTrue => exact zero_le_one
  case isFalse kept => exact not_lt.mp kept

theorem stretchDiagonal (factor : ℝ) {i : ℕ} (inside : i < m.size) :
    (stretch m factor).element i i = m.element i i * factor := by
  rw [stretch, Symmetric.elementBuild _ le_rfl inside, if_pos rfl]

theorem stretchMatrix (size : m.size = n) (factor : ℝ) : (stretch m factor).matrix n =
    m.matrix n + Matrix.diagonal fun i : Fin n => (factor - 1) * m.element i i := by
  have comm (i j : ℕ) : (if i = j then m.element i i * factor else m.element i j) =
      if j = i then m.element j j * factor else m.element j i := by
    by_cases same : i = j
    · rw [same]
    · rw [if_neg same, if_neg (Ne.symm same), m.elementComm]
  rw [stretch, size, Symmetric.matrixBuild comm]
  ext i j
  rw [of_apply, Matrix.add_apply, diagonal_apply]
  by_cases same : i = j
  · rw [same, if_pos rfl, if_pos rfl, Symmetric.matrix, of_apply]
    ring
  · rw [if_neg (Fin.val_ne_of_ne same), if_neg same, add_zero]
    rfl

/- Seen with a unit diagonal, a stretched matrix has more on its diagonal and nothing else. -/
theorem stretchRaises (size : m.size = n) (positive : ∀ i < m.size, 0 < m.element i i) (factor : ℝ) :
    ((stretch m factor).rescale m.unitScale).matrix n =
      (unitDiagonal m).matrix n + algebraMap ℝ (Matrix (Fin n) (Fin n) ℝ) (factor - 1) := by
  have unit : unitDiagonal m = m.rescale m.unitScale := rfl
  have width : (stretch m factor).size = n := size
  rw [unit, Symmetric.matrixRescale size.ge, Symmetric.matrixRescale width.ge, stretchMatrix size,
    mul_add, add_mul, Symmetric.scaling, diagonal_mul_diagonal, diagonal_mul_diagonal,
    algebraMap_eq_diagonal]
  refine congrArg _ (congrArg _ (funext fun i => ?_))
  have inside : (i : ℕ) < m.size := size.symm ▸ i.isLt
  have root := Real.mul_self_sqrt (positive i inside).le
  have nonzero := (Real.sqrt_pos.mpr (positive i inside)).ne'
  rw [Symmetric.unitScaleEntry inside]
  change 1 / √(m.element i i) * ((factor - 1) * m.element i i) * (1 / √(m.element i i)) = factor - 1
  nth_rewrite 2 [← root]
  field_simp

theorem acceptedDefinite (size : m.size = n) (positive : ∀ i < m.size, 0 < m.element i i)
    (least : 0 < (Spectral.eigenvalues (unitDiagonal m)).headD 0) : (m.matrix n).PosDef := by
  subst size
  refine (Symmetric.rescaleDefinite le_rfl (Symmetric.scalingUnit le_rfl positive)).mp ?_
  exact Symmetric.eigenvaluesPositive least

theorem stretchedDefinite (size : m.size = n) (positive : ∀ i < m.size, 0 < m.element i i)
    {factor : ℝ} (enough : 0 < (Spectral.eigenvalues (unitDiagonal m)).headD 0 + (factor - 1)) :
    ((stretch m factor).matrix n).PosDef := by
  subst size
  have width : (stretch m factor).size = m.size := rfl
  refine (Symmetric.rescaleDefinite width.ge (Symmetric.scalingUnit le_rfl positive)).mp ?_
  rw [stretchRaises rfl positive]
  exact Symmetric.raisedDefinite enough

/- Whatever is done to a matrix, if its diagonal is positive afterwards then all of it is. -/
theorem makePosDefDefinite {e : ErrorMatrix ℝ} {prec : Precision ℝ} (size : e.inverse.size = n)
    (positive : ∀ i < n, 0 < (e.makePosDef prec).inverse.element i i) :
    ((e.makePosDef prec).inverse.matrix n).PosDef := by
  have one (same : n = 1) : ((e.makePosDef prec).inverse.matrix n).PosDef := by
    subst same
    exact Symmetric.onlyDefinite (positive 0 Nat.one_pos)
  by_cases single : e.inverse.size = 1
  · exact one (size.symm.trans single)
  · rw [makePosDef, if_neg single] at positive ⊢
    dsimp only at positive ⊢
    have width : (lift e.inverse (shift e.inverse prec)).size = n := size
    split at positive
    case isTrue accepted =>
      rw [if_pos accepted]
      have least := lt_trans (mul_pos (floorPositive prec) (largestPositive _)) accepted
      split at positive
      case isTrue shifted =>
        rw [if_pos shifted]
        exact acceptedDefinite width (fun i inside => positive i (width ▸ inside)) least
      case isFalse kept =>
        rw [if_neg kept]
        obtain ⟨none, _⟩ := (shiftCases e.inverse prec).resolve_left kept
        rw [none, liftSame fun i inside => (positive i (size ▸ inside)).le] at least
        exact acceptedDefinite size (fun i inside => positive i (size ▸ inside)) least
    case isFalse refused =>
      rw [if_neg refused]
      refine stretchedDefinite width (fun i inside => ?_) ?_
      · have here := (positive i (width ▸ inside)).trans_eq (stretchDiagonal _ inside)
        refine lt_of_le_of_ne (liftDiagonal _ inside) fun zero => ?_
        rw [← zero, zero_mul] at here
        exact lt_irrefl _ here
      · have missing (least largest : ℝ) (some : 0 < largest) :
            0 < least + (1 + (0.001 * largest - least) - 1) := by
          have same : least + (1 + (0.001 * largest - least) - 1) = 0.001 * largest := by ring
          rw [same]
          positivity
        exact missing _ _ (largestPositive _)

end ErrorMatrix

/-! ### Definite estimates -/

def ErrorMatrix.Definite (e : ErrorMatrix ℝ) : Prop := e.inverse.square.PosDef

namespace ErrorMatrix
variable {e : ErrorMatrix ℝ}

theorem definiteMatrix (size : e.inverse.size = n) :
    e.Definite ↔ (e.inverse.matrix n).PosDef := by
  subst size
  exact Iff.rfl

namespace Definite

theorem empty (size : e.inverse.size = 0) : e.Definite := by
  have empty : IsEmpty (Fin e.inverse.size) := by
    rw [size]
    infer_instance
  refine .of_dotProduct_mulVec_pos e.inverse.squareHermitian fun z nonzero => ?_
  exact absurd (Subsingleton.elim z 0) nonzero

variable (definite : e.Definite)
include definite

theorem notNegative {v : Array ℝ} (short : v.size ≤ e.inverse.size) : 0 ≤ e.inverse.quadratic v := by
  rw [Symmetric.quadraticSquare short]
  exact definite.posSemidef.dotProduct_mulVec_nonneg _

theorem diagonal {i : ℕ} (inside : i < e.inverse.size) : 0 < e.inverse.element i i :=
  definite.diag_pos (i := ⟨i, inside⟩)

theorem correlations : (GlobalCorrelation.ofMatrix e.inverse).valid = true := by
  obtain ⟨inverse, done⟩ := Symmetric.invertFound (m := e.inverse) rfl definite
  rw [GlobalCorrelation.ofMatrix, done]

end Definite
end ErrorMatrix

/-! ### Second derivatives -/

namespace Hessian
variable {k : Knowledge ℝ} {prec : Precision ℝ}

theorem standInDefinite (eps2 : 0 < prec.eps2) {curvatures : Array ℝ} (size : curvatures.size = n) :
    ((standIn curvatures prec).matrix n).PosDef := by
  refine Symmetric.diagonalDefinite ((Array.size_map ..).trans size) fun i inside => ?_
  have instead (d : ℝ) (positive : 0 < d) : 0 < if d < prec.eps2 then 1 else d := by
    split
    · exact one_pos
    · exact positive
  rw [Vector.entryMap _ (size.symm ▸ inside)]
  refine instead _ ?_
  split
  case isTrue => exact (one_pos : (0 : ℝ) < 1)
  case isFalse large => exact one_div_pos.mpr (eps2.trans_le (not_lt.mp large))

/- What is concluded is definite: the inverse of a matrix that was forced, or what stands in for it. -/
theorem concludeDefinite (eps2 : 0 < prec.eps2) (calls : ℕ)
    (found : Except (HessianFailure × Array ℝ) (Symmetric ℝ × Gradient ℝ)) :
    (conclude k prec calls found).error.Definite := by
  have failed (curvatures : Array ℝ) : (conclude.failed k prec calls curvatures).error.Definite :=
    (ErrorMatrix.definiteMatrix (Array.size_map ..)).mpr (standInDefinite eps2 rfl)
  cases found with
  | error failure => exact failed failure.2
  | ok found =>
    obtain ⟨m, g⟩ := found
    unfold conclude
    dsimp only
    split
    case h_1 => exact failed g.curvatures
    case h_2 inverse inverted =>
      have size : ((ErrorMatrix.usable m 1).makePosDef prec).inverse.size = m.size :=
        ErrorMatrix.sizeMakePosDef _ _
      have positive (i : ℕ) (inside : i < m.size) :
          0 < ((ErrorMatrix.usable m 1).makePosDef prec).inverse.element i i :=
        Symmetric.invertDiagonal inverted i (size.symm ▸ inside)
      have whole : (ErrorMatrix.usable m 1).inverse.size = m.size := rfl
      have tested := ErrorMatrix.makePosDefDefinite whole positive
      have definite := Symmetric.invertDefinite size tested inverted
      have rows : inverse.size = m.size := (Symmetric.sizeInvert inverted).trans size
      split
      · exact (ErrorMatrix.definiteMatrix rows).mpr definite
      · exact (ErrorMatrix.definiteMatrix rows).mpr definite

end Hessian

theorem Knowledge.Sized.emptyDefinite {k : Knowledge ℝ} (sized : k.Sized n) (none : k.size = 0) :
    k.error.Definite :=
  .empty (sized.error.trans (sized.point.symm.trans none))

/- Second derivatives leave a positive definite matrix, whether they were found or not. -/
theorem Surface.secondDerivativesDefinite {s : Surface ℝ} (eps2 : 0 < s.precision.eps2)
    (st : Strategy ℝ) {k : Knowledge ℝ} (start : k.size = 0 → k.error.Definite) (limit : ℕ) :
    Gives (s.secondDerivatives st k limit) (·.error.Definite) := by
  refine .ite (fun none => .pure (start none)) fun _ => .counting fun before => ?_
  refine .bindAny (givesAny _) fun found => .counting fun calls => ?_
  exact .expect (.expect (.pure (Hessian.concludeDefinite eps2 (calls - before) found)))

end ParamFit
