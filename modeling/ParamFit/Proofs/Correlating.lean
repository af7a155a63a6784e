import ParamFit.Proofs.Conditioning

/-! Global correlations are multiple correlations. The part of one row that the others foretell is found by
taking its own column of the inverse out of it. What is left over shares nothing with the other rows; so no
combination of them is closer to the row than the one that foretells it, and the coefficient is the
correlation with that one. With two rows there is one other, and the coefficient is that of the pair. -/
namespace ParamFit
open Finset Matrix
variable {n : ℕ}

/-! ### The combination that foretells a row -/

section
variable {v : Matrix (Fin n) (Fin n) ℝ} (definite : v.PosDef) (i : Fin n)

/- The combination of the other rows that is closest to a row. -/
noncomputable def foretold (v : Matrix (Fin n) (Fin n) ℝ) (i : Fin n) : Fin n → ℝ :=
  Pi.single i 1 - (1 / v⁻¹ i i) • v⁻¹ *ᵥ Pi.single i 1

/- The variance of a row that the other rows explain. -/
noncomputable def explained (v : Matrix (Fin n) (Fin n) ℝ) (i : Fin n) : ℝ := v i i - 1 / v⁻¹ i i

include definite

theorem formCauchy (x y : Fin n → ℝ) : (x ⬝ᵥ v *ᵥ y) ^ 2 ≤ (x ⬝ᵥ v *ᵥ x) * (y ⬝ᵥ v *ᵥ y) := by
  have symmetric : LinearMap.IsSymm (toBilin' v) := ⟨fun x y => by
    simpa only [toBilin'_apply', RingHom.id_apply] using formSwap definite.isHermitian x y⟩
  have positive (x : Fin n → ℝ) : 0 ≤ toBilin' v x x := by
    rw [toBilin'_apply']
    exact definite.posSemidef.dotProduct_mulVec_nonneg x
  have bound := (toBilin' v).apply_sq_le_of_symm positive symmetric x y
  simpa only [toBilin'_apply'] using bound

theorem foretoldOther : foretold v i i = 0 := by
  have positive : 0 < v⁻¹ i i := definite.inv.diag_pos
  simp [foretold, positive.ne']

theorem foretoldForm (y : Fin n → ℝ) : foretold v i ⬝ᵥ v *ᵥ y = (v *ᵥ y) i - y i / v⁻¹ i i := by
  have column : (v⁻¹ *ᵥ Pi.single i 1) ⬝ᵥ v *ᵥ y = y i := by
    rw [formSwap definite.isHermitian, mulVec_mulVec, mul_nonsing_inv _ definite.det_pos.ne'.isUnit,
      one_mulVec, dotProduct_single_one]
  rw [foretold, sub_dotProduct, smul_dotProduct, column, single_one_dotProduct, smul_eq_mul,
    one_div_mul_eq_div]

theorem foretoldRow : (v *ᵥ foretold v i) i = explained v i := by
  have column : v *ᵥ v⁻¹ *ᵥ Pi.single i 1 = Pi.single i 1 := by
    rw [mulVec_mulVec, mul_nonsing_inv _ definite.det_pos.ne'.isUnit, one_mulVec]
  rw [foretold, mulVec_sub, mulVec_smul, column, Pi.sub_apply, mulVec_single_one, Pi.smul_apply,
    Pi.single_eq_same, smul_eq_mul, mul_one]
  rfl

theorem foretoldVariance : foretold v i ⬝ᵥ v *ᵥ foretold v i = explained v i := by
  rw [foretoldForm definite, foretoldOther definite, foretoldRow definite, zero_div, sub_zero]

theorem explainedNonneg : 0 ≤ explained v i := by
  rw [← foretoldVariance definite]
  exact definite.posSemidef.dotProduct_mulVec_nonneg _

/- Other combinations share with a row no more than what they share with the one that foretells it. -/
theorem combinationBound {x : Fin n → ℝ} (other : x i = 0) :
    (v *ᵥ x) i ^ 2 ≤ explained v i * (x ⬝ᵥ v *ᵥ x) := by
  have bound := formCauchy definite (foretold v i) x
  rwa [foretoldForm definite, foretoldVariance definite, other, zero_div, sub_zero] at bound

end

/-! ### The coefficients -/

namespace GlobalCorrelation
variable {m : Symmetric ℝ} (definite : m.square.PosDef)
include definite

theorem inverted : ∃ h, m.invert = .ok h ∧ ∀ i : Fin m.size, h.element i i = m.square⁻¹ i i := by
  obtain ⟨h, done⟩ := Symmetric.invertFound (m := m) rfl definite
  have inverse : m.square⁻¹ = h.matrix m.size := inv_eq_left_inv (Symmetric.invertExact rfl done)
  exact ⟨h, done, fun i => by rw [inverse]; rfl⟩

/- The share of its variance that the others explain. -/
theorem shareExplained (i : Fin m.size) :
    1 - 1 / (m.element i i * m.square⁻¹ i i) = explained m.square i / m.element i i := by
  have variance : 0 < m.element i i := definite.diag_pos (i := i)
  have inverse : 0 < m.square⁻¹ i i := definite.inv.diag_pos
  have here : m.square i i = m.element i i := rfl
  rw [explained, here]
  field_simp

/- The branch for denominators below one is never taken. -/
theorem coefficientAt (i : Fin m.size) :
    entry (ofMatrix m).coefficients i = √(explained m.square i / m.element i i) := by
  obtain ⟨h, done, diagonal⟩ := inverted definite
  have variance : 0 < m.element i i := definite.diag_pos (i := i)
  have inverse : 0 < m.square⁻¹ i i := definite.inv.diag_pos
  have high : 1 ≤ m.square⁻¹ i i * m.element i i := by
    have nonneg : 1 / m.square⁻¹ i i ≤ m.element i i := sub_nonneg.mp (explainedNonneg definite i)
    rwa [div_le_iff₀' inverse] at nonneg
  rw [ofMatrix, done]
  dsimp only
  rw [entry_tabulate _ i.isLt, diagonal, if_neg fun guard => not_lt.mpr high guard.1,
    ← shareExplained definite, mul_comm]
  rfl

theorem coefficientSquare (i : Fin m.size) :
    entry (ofMatrix m).coefficients i ^ 2 = explained m.square i / m.element i i := by
  have variance : 0 < m.element i i := definite.diag_pos (i := i)
  rw [coefficientAt definite, Real.sq_sqrt (div_nonneg (explainedNonneg definite i) variance.le)]

theorem coefficientLess (i : Fin m.size) : entry (ofMatrix m).coefficients i < 1 := by
  have variance : 0 < m.element i i := definite.diag_pos (i := i)
  have inverse : 0 < m.square⁻¹ i i := definite.inv.diag_pos
  rw [coefficientAt definite, Real.sqrt_lt' one_pos, one_pow, ← shareExplained definite]
  exact sub_lt_self 1 (one_div_pos.mpr (mul_pos variance inverse))

theorem coefficientBounds (i : Fin m.size) {x : Fin m.size → ℝ} (other : x i = 0) :
    |(m.square *ᵥ x) i| ≤
      entry (ofMatrix m).coefficients i * √(m.element i i * (x ⬝ᵥ m.square *ᵥ x)) := by
  have variance : 0 < m.element i i := definite.diag_pos (i := i)
  have share : 0 ≤ explained m.square i / m.element i i :=
    div_nonneg (explainedNonneg definite i) variance.le
  rw [coefficientAt definite, ← Real.sqrt_mul share, ← mul_assoc, div_mul_cancel₀ _ variance.ne']
  exact Real.abs_le_sqrt (combinationBound definite i other)

/- The combination that foretells a row is as close as the coefficient says; where it is none, no other
combination shares anything with the row. -/
theorem coefficientReached (i : Fin m.size) (several : 1 < m.size) :
    ∃ x ≠ 0, x i = 0 ∧ |(m.square *ᵥ x) i| =
      entry (ofMatrix m).coefficients i * √(m.element i i * (x ⬝ᵥ m.square *ᵥ x)) := by
  have variance : 0 < m.element i i := definite.diag_pos (i := i)
  have nonneg := explainedNonneg definite i
  by_cases none : foretold m.square i = 0
  · have nothing : explained m.square i = 0 := by
      rw [← foretoldVariance definite, none, zero_dotProduct]
    have coefficient : entry (ofMatrix m).coefficients i = 0 := by
      rw [coefficientAt definite, nothing, zero_div, Real.sqrt_zero]
    have : Nontrivial (Fin m.size) := Fin.nontrivial_iff_two_le.mpr several
    obtain ⟨j, other⟩ := exists_ne i
    have apart : (Pi.single j 1 : Fin m.size → ℝ) i = 0 := Pi.single_eq_of_ne other.symm 1
    refine ⟨Pi.single j 1, by simp, apart, le_antisymm (coefficientBounds definite i apart) ?_⟩
    rw [coefficient, zero_mul]
    exact abs_nonneg _
  · refine ⟨foretold m.square i, none, foretoldOther definite i, ?_⟩
    rw [foretoldRow definite, foretoldVariance definite, coefficientAt definite,
      ← Real.sqrt_mul (div_nonneg nonneg variance.le), ← mul_assoc, div_mul_cancel₀ _ variance.ne',
      Real.sqrt_mul_self nonneg, abs_of_nonneg nonneg]

theorem spreadPositive (i j : Fin m.size) : 0 < √(m.element i i * m.element j j) := by
  have left : 0 < m.element i i := definite.diag_pos (i := i)
  have right : 0 < m.element j j := definite.diag_pos (i := j)
  exact Real.sqrt_pos.mpr (mul_pos left right)

theorem correlationAt (i j : Fin m.size) : (Covariance.ofMatrix m).correlation i j =
    m.element i j / √(m.element i i * m.element j j) := by
  simp only [Covariance.correlation, Covariance.elementOfMatrix]
  exact if_pos (spreadPositive definite i j)

theorem correlationComm (i j : Fin m.size) :
    (Covariance.ofMatrix m).correlation i j = (Covariance.ofMatrix m).correlation j i := by
  rw [correlationAt definite, correlationAt definite, m.elementComm i j, mul_comm (m.element i i)]

theorem correlationSpread (i j : Fin m.size) :
    |(Covariance.ofMatrix m).correlation i j| * √(m.element i i * m.element j j) = |m.element i j| := by
  have positive := spreadPositive definite i j
  rw [correlationAt definite, abs_div, abs_of_pos positive, div_mul_cancel₀ _ positive.ne']

/- What a single other row tells is its correlation. -/
theorem singleSpread (i j : Fin m.size) (b : ℝ) :
    √(m.element i i * (Pi.single j b ⬝ᵥ m.square *ᵥ Pi.single j b)) =
      √(m.element i i * m.element j j) * |b| := by
  have left : 0 < m.element i i := definite.diag_pos (i := i)
  have right : 0 < m.element j j := definite.diag_pos (i := j)
  rw [← Real.sqrt_mul_self_eq_abs, ← Real.sqrt_mul (mul_pos left right).le, single_dotProduct, mulVec_single]
  congr 1
  change m.element i i * (b * (m.element j j * b)) = _
  ring

theorem pairBound (i j : Fin m.size) (other : j ≠ i) :
    |(Covariance.ofMatrix m).correlation i j| ≤ entry (ofMatrix m).coefficients i := by
  have apart : (Pi.single j 1 : Fin m.size → ℝ) i = 0 := Pi.single_eq_of_ne other.symm 1
  have bound := coefficientBounds definite i apart
  rw [singleSpread definite, abs_one, mul_one, mulVec_single_one] at bound
  refine le_of_mul_le_mul_right ?_ (spreadPositive definite i j)
  rw [correlationSpread definite]
  exact bound

/- Of two rows one has only the other. -/
theorem pairExact (two : m.size = 2) (i j : Fin m.size) (other : j ≠ i) :
    entry (ofMatrix m).coefficients i = |(Covariance.ofMatrix m).correlation i j| := by
  obtain ⟨x, nonzero, apart, equal⟩ := coefficientReached definite i (two.symm ▸ one_lt_two)
  have single : x = Pi.single j (x j) := by
    funext k
    have only : k = i ∨ k = j := by
      have apart := Fin.val_ne_of_ne other
      omega
    rcases only with rfl | rfl
    · rw [apart, Pi.single_eq_of_ne other.symm]
    · rw [Pi.single_eq_same]
  have some : 0 < |x j| := by
    refine abs_pos.mpr fun zero => nonzero ?_
    rw [single, zero, Pi.single_zero]
  have row : (m.square *ᵥ Pi.single j (x j)) i = m.element i j * x j := by
    rw [mulVec_single]
    rfl
  rw [single, singleSpread definite, row, abs_mul, ← mul_assoc] at equal
  refine mul_right_cancel₀ (spreadPositive definite i j).ne' ?_
  rw [correlationSpread definite]
  exact (mul_right_cancel₀ some.ne' equal).symm

omit definite in
/- Each coefficient is the correlation of a row with that combination of the others that is closest to it. -/
structure Multiple (g : GlobalCorrelation ℝ) (m : Symmetric ℝ) : Prop where
  valid : g.valid = true
  size : g.coefficients.size = m.size
  unit (i : Fin m.size) : 0 ≤ entry g.coefficients i ∧ entry g.coefficients i < 1
  share (i : Fin m.size) : 1 - entry g.coefficients i ^ 2 = 1 / (m.element i i * m.square⁻¹ i i)
  others (i j : Fin m.size) (other : j ≠ i) :
    |(Covariance.ofMatrix m).correlation i j| ≤ entry g.coefficients i
  combinations (i : Fin m.size) {x : Fin m.size → ℝ} (other : x i = 0) :
    |(m.square *ᵥ x) i| ≤ entry g.coefficients i * √(m.element i i * (x ⬝ᵥ m.square *ᵥ x))
  closest (i : Fin m.size) (several : 1 < m.size) : ∃ x ≠ 0, x i = 0 ∧
    |(m.square *ᵥ x) i| = entry g.coefficients i * √(m.element i i * (x ⬝ᵥ m.square *ᵥ x))
  pair (two : m.size = 2) (i : Fin m.size) :
    entry g.coefficients i = |(Covariance.ofMatrix m).correlation 0 1|

theorem multipleCorrelations : (ofMatrix m).Multiple m where
  valid := by
    obtain ⟨h, done, -⟩ := inverted definite
    rw [ofMatrix, done]
  size := by
    obtain ⟨h, done, -⟩ := inverted definite
    rw [ofMatrix, done]
    exact size_tabulate _ _
  unit i := ⟨coefficientAt definite i ▸ Real.sqrt_nonneg _, coefficientLess definite i⟩
  share i := by rw [coefficientSquare definite, ← shareExplained definite, sub_sub_cancel]
  others := pairBound definite
  combinations := coefficientBounds definite
  closest := coefficientReached definite
  pair two i := by
    let first : Fin m.size := ⟨0, two.symm ▸ two_pos⟩
    let second : Fin m.size := ⟨1, two.symm ▸ one_lt_two⟩
    have only : i = first ∨ i = second := by
      simp only [Fin.ext_iff, first, second]
      omega
    have apart : second ≠ first := Fin.ne_of_val_ne one_ne_zero
    rcases only with rfl | rfl
    · exact pairExact definite two first second apart
    · rw [pairExact definite two second first apart.symm, correlationComm definite second first]

omit definite in
/- Two rows that share half of their variance. -/
theorem multipleCorrelationsPair :
    let m : Symmetric ℝ := .build 2 fun i j => if i = j then 2 else 1
    m.square.PosDef ∧ m.size = 2 ∧ (ofMatrix m).valid = true ∧ (ofMatrix m).coefficients.size = 2 ∧
      entry (ofMatrix m).coefficients 0 = 1 / 2 ∧ entry (ofMatrix m).coefficients 1 = 1 / 2 := by
  intro m
  have element {i j : ℕ} (row : i < 2) (col : j < 2) : m.element i j = if i = j then 2 else 1 :=
    Symmetric.elementBuildComm (fun _ _ => if_congr eq_comm rfl rfl) row col
  have definite : m.square.PosDef := Symmetric.overlapDefinite fun _ row _ col => element row col
  have multiple : (ofMatrix m).Multiple m := multipleCorrelations definite
  have share : |(Covariance.ofMatrix m).correlation 0 1| = 1 / 2 := by
    have known := correlationAt definite (0 : Fin 2) (1 : Fin 2)
    simp only [Fin.val_zero, Fin.val_one, element two_pos one_lt_two, element two_pos two_pos,
      element one_lt_two one_lt_two] at known
    rw [known]
    norm_num
  exact ⟨definite, rfl, multiple.valid, multiple.size, (multiple.pair rfl (0 : Fin 2)).trans share,
    (multiple.pair rfl (1 : Fin 2)).trans share⟩

end GlobalCorrelation
end ParamFit
