import ParamFit.Minimum.Definite
import ParamFit.Proofs.Sums

/-! Forcing positive definite over exact numbers. An estimate that comes back unchanged has no
direction in which it is negative; one that was changed says so by its status. -/
namespace ParamFit
open Finset

namespace Symmetric

theorem squareHermitian (m : Symmetric ℝ) : m.square.IsHermitian := by
  ext i j
  simp [square, elementComm m j i]

/- A vector that is too short stands for one that ends in zeros. -/
theorem quadraticPadded {m : Symmetric ℝ} {v : Array ℝ} (short : v.size ≤ m.size) :
    m.quadratic v = ∑ i ∈ range m.size, ∑ j ∈ range m.size,
      entry v i * m.element i j * entry v j := by
  have within : range v.size ⊆ range m.size := range_subset_range.mpr short
  rw [quadraticExact]
  refine (Finset.sum_congr rfl fun i _ => ?_).trans (sum_subset within fun i _ outside => ?_)
  · refine sum_subset within fun j _ outside => ?_
    have zero : entry v j = 0 := entry_outside (by simpa using outside)
    rw [zero, mul_zero]
  · have zero : entry v i = 0 := entry_outside (by simpa using outside)
    simp [zero]

theorem quadraticSquare {m : Symmetric ℝ} {v : Array ℝ} (short : v.size ≤ m.size) :
    m.quadratic v = (fun i : Fin m.size => entry v i) ⬝ᵥ
      m.square.mulVec fun i : Fin m.size => entry v i := by
  rw [quadraticPadded short, Finset.sum_range]
  simp only [dotProduct, Matrix.mulVec, square, Matrix.of_apply, Finset.mul_sum]
  refine Finset.sum_congr rfl fun i _ => ?_
  rw [Finset.sum_range]
  exact Finset.sum_congr rfl fun j _ => by ring

/- No eigenvalue lies below the first one. -/
theorem leastEigenvalue (m : Symmetric ℝ) {x : ℝ} (root : m.square.charpoly.IsRoot x) :
    (Spectral.eigenvalues m).headD 0 ≤ x := by
  have listed : x ∈ Spectral.eigenvalues m :=
    (Multiset.mem_sort _).mpr (Polynomial.mem_roots'.mpr ⟨m.square.charpoly_monic.ne_zero, root⟩)
  have ordered : (Spectral.eigenvalues m).Pairwise (· ≤ ·) :=
    Multiset.pairwise_sort m.square.charpoly.roots _
  cases spectrum : Spectral.eigenvalues m with
  | nil =>
    rw [spectrum] at listed
    cases listed
  | cons first rest =>
    rw [spectrum] at listed ordered
    rcases List.mem_cons.mp listed with same | later
    · exact same.ge
    · exact List.rel_of_pairwise_cons ordered later

/- What is added to the diagonal is added to every eigenvalue. -/
theorem raisedDefinite {m : Symmetric ℝ} {c : ℝ}
    (enough : 0 < (Spectral.eigenvalues m).headD 0 + c) :
    (m.square + algebraMap ℝ (Matrix (Fin m.size) (Fin m.size) ℝ) c).PosDef := by
  have hermitian : (m.square + algebraMap ℝ (Matrix (Fin m.size) (Fin m.size) ℝ) c).IsHermitian := by
    rw [Algebra.algebraMap_eq_smul_one]
    exact m.squareHermitian.add (Matrix.isHermitian_one.smul (.all c))
  rw [hermitian.posDef_iff_eigenvalues_pos]
  intro i
  have shifted := hermitian.eigenvalues_mem_spectrum_real i
  rw [← spectrum.add_singleton_eq, Set.add_singleton] at shifted
  obtain ⟨x, among, same⟩ := shifted
  have least := m.leastEigenvalue (Matrix.mem_spectrum_iff_isRoot_charpoly.mp among)
  rw [← same]
  exact enough.trans_le (add_le_add_left least c)

theorem eigenvaluesPositive {m : Symmetric ℝ} (least : 0 < (Spectral.eigenvalues m).headD 0) :
    m.square.PosDef := by
  have raised := raisedDefinite (c := 0) (least.trans_eq (add_zero _).symm)
  rwa [map_zero, add_zero] at raised

theorem entryDiagonal {m : Symmetric ℝ} {i : ℕ} (inside : i < m.size) :
    entry m.diagonal i = m.element i i := entry_tabulate _ inside

theorem elementUnit {m : Symmetric ℝ} {i j : ℕ} (left : i < m.size) (right : j < m.size) :
    (ErrorMatrix.unitDiagonal m).element i j =
      m.element i j * (√(m.element i i))⁻¹ * (√(m.element j j))⁻¹ := by
  have scale {k : ℕ} (inside : k < m.size) :
      entry (m.diagonal.map fun d => 1 / Scalar.sqrt d) k = (√(m.element k k))⁻¹ := by
    rw [Vector.entryMap _ (by simpa [diagonal] using inside), entryDiagonal inside]
    simp
  rw [ErrorMatrix.unitDiagonal, elementBuildComm _ left right]
  · rw [scale left, scale right]
  · intro k l
    rw [elementComm]
    exact mul_right_comm _ _ _

theorem quadraticNonneg {m : Symmetric ℝ} (diagonal : ∀ i < m.size, 0 < m.element i i)
    (definite : (ErrorMatrix.unitDiagonal m).square.PosDef) {v : Array ℝ}
    (short : v.size ≤ m.size) : 0 ≤ m.quadratic v := by
  -- The same form, seen from the vector that the scaling takes to `v`.
  let w := tabulate v.size fun i => entry v i * √(m.element i i)
  have width : w.size = v.size := size_tabulate _ _
  have scaled : (ErrorMatrix.unitDiagonal m).quadratic w = m.quadratic v := by
    rw [quadraticExact, quadraticExact, width]
    refine Finset.sum_congr rfl fun i outer => Finset.sum_congr rfl fun j inner => ?_
    have left : i < v.size := mem_range.mp outer
    have right : j < v.size := mem_range.mp inner
    have root := (Real.sqrt_pos.mpr (diagonal i (by omega))).ne'
    have root' := (Real.sqrt_pos.mpr (diagonal j (by omega))).ne'
    rw [entry_tabulate _ left, entry_tabulate _ right, elementUnit (by omega) (by omega)]
    field_simp
  rw [← scaled, quadraticSquare (by rw [width]; exact short)]
  exact definite.posSemidef.dotProduct_mulVec_nonneg _

theorem diagonalNonzero {m : Symmetric ℝ} (definite : (ErrorMatrix.unitDiagonal m).square.PosDef)
    {i : ℕ} (inside : i < m.size) : 0 ≠ m.element i i := by
  intro zero
  have positive := definite.diag_pos (i := ⟨i, inside⟩)
  rw [square, Matrix.of_apply, elementUnit inside inside, ← zero] at positive
  simp at positive

end Symmetric

namespace ErrorMatrix

theorem foldMin (l : List ℝ) (a : ℝ) :
    l.foldl Scalar.min a ≤ a ∧ ∀ x ∈ l, l.foldl Scalar.min a ≤ x := by
  induction l generalizing a with
  | nil => exact ⟨le_refl a, by simp⟩
  | cons x l ih =>
    obtain ⟨below, least⟩ := ih (Scalar.min a x)
    rw [Exact.min] at below least
    rw [List.foldl_cons, Exact.min]
    refine ⟨below.trans (min_le_left _ _), ?_⟩
    intro y among
    rcases List.mem_cons.mp among with rfl | later
    · exact below.trans (min_le_right _ _)
    · exact least y later

theorem floorPositive (prec : Precision ℝ) : 0 < floor prec := by
  rw [floor, Exact.max]
  exact lt_max_of_lt_left (by norm_num)

/- Either something is missing from a diagonal, or all of it is large enough. -/
theorem shiftCases (m : Symmetric ℝ) (prec : Precision ℝ) :
    0 < shift m prec ∨ shift m prec = 0 ∧ ∀ i < m.size, prec.eps2 ≤ m.element i i := by
  obtain ⟨_, least⟩ := foldMin m.diagonal.toList (m.element 0 0)
  rw [shift, ← Array.foldl_toList]
  by_cases low : m.diagonal.toList.foldl Scalar.min (m.element 0 0) < prec.eps2
  · left
    have enough : prec.eps2 ≤ floor prec := by
      rw [floor, Exact.max]
      exact le_max_right _ _
    rw [if_pos low]
    have positive : 0 < 1 + floor prec - m.diagonal.toList.foldl Scalar.min (m.element 0 0) := by
      linarith
    exact positive
  · right
    refine ⟨if_neg low, fun i inside => (not_lt.mp low).trans (least _ ?_)⟩
    rw [← Symmetric.entryDiagonal inside]
    have within : i < m.diagonal.size := by simpa [Symmetric.diagonal] using inside
    rw [entry, Array.getD, dif_pos within]
    exact Array.getElem_mem_toList _

theorem liftSame {m : Symmetric ℝ} (diagonal : ∀ i < m.size, 0 ≤ m.element i i) : lift m 0 = m := by
  refine Symmetric.sameElements rfl fun i j col (row : i < m.size) => ?_
  rw [lift, Symmetric.elementBuild _ col row]
  split
  case isTrue same =>
    subst same
    have kept : ¬ m.element i i + 0 < 0 := by
      rw [add_zero]
      exact not_lt.mpr (diagonal i row)
    exact (if_neg kept).trans (add_zero _)
  case isFalse => rfl

theorem largestPositive (x : ℝ) : 0 < Scalar.max (Scalar.abs x) 1 := by
  rw [Exact.max]
  exact lt_max_of_lt_right one_pos

theorem makePosDefCases (e : ErrorMatrix ℝ) {prec : Precision ℝ} (eps : 0 ≤ prec.eps)
    (eps2 : 0 ≤ prec.eps2) :
    (e.makePosDef prec).status = .madePosDef ∧ (e.makePosDef prec).dcovar = 1 ∨
      e.makePosDef prec = e ∧ ∀ v : Array ℝ, v.size ≤ e.inverse.size → 0 ≤ e.inverse.quadratic v := by
  rw [makePosDef]
  split
  case isTrue one =>
    split
    case isTrue small => exact .inl ⟨rfl, rfl⟩
    case isFalse large =>
      refine .inr ⟨rfl, fun v short => ?_⟩
      have square : 0 ≤ entry v 0 * e.inverse.element 0 0 * entry v 0 := by
        rw [mul_right_comm]
        exact mul_nonneg (mul_self_nonneg _) (eps.trans (not_lt.mp large))
      rw [Symmetric.quadraticPadded short, one]
      simpa using square
  case isFalse =>
    dsimp only
    split
    case isFalse => exact .inl ⟨rfl, rfl⟩
    case isTrue accepted =>
      split
      case isTrue => exact .inl ⟨rfl, rfl⟩
      case isFalse unshifted =>
        obtain ⟨none, large⟩ := (shiftCases e.inverse prec).resolve_left unshifted
        have lifted : lift e.inverse 0 = e.inverse :=
          liftSame fun i inside => eps2.trans (large i inside)
        rw [none, lifted] at accepted
        have least := lt_trans (mul_pos (floorPositive prec) (largestPositive _)) accepted
        exact .inr ⟨rfl, fun v short => Symmetric.quadraticNonneg
          (fun i inside => lt_of_le_of_ne (eps2.trans (large i inside))
            (Symmetric.diagonalNonzero (Symmetric.eigenvaluesPositive least) inside))
          (Symmetric.eigenvaluesPositive least) short⟩

end ErrorMatrix
end ParamFit
