import ParamFit.Proofs.Definite

/-! Multiples of the identity. They scale what they are multiplied with; a positive one is positive
definite already, and its inverse is the multiple by the inverse number. -/
namespace ParamFit
open Finset

namespace Symmetric

noncomputable def multiple (n : ℕ) (a : ℝ) : Symmetric ℝ := (identity n).scale a

def onDiagonal (a : ℝ) (i j : ℕ) : ℝ := if i = j then a else 0

variable {n : ℕ} {a : ℝ}

theorem sizeMultiple : (multiple n a).size = n := rfl

theorem elementMultiple {i j : ℕ} (row : i < n) (col : j < n) :
    (multiple n a).element i j = if i = j then a else 0 := by
  have scaled : (multiple n a).element i j = (identity n).element i j * a :=
    elementMap (· * a) row col
  have comm : ∀ i j : ℕ, (if i = j then (1 : ℝ) else 0) = if j = i then 1 else 0 := by
    intro i j
    simp only [eq_comm]
  have one : (identity n : Symmetric ℝ).element i j = if i = j then 1 else 0 :=
    elementBuildComm comm row col
  rw [scaled, one, ite_mul, one_mul, zero_mul]

theorem isMultiple {m : Symmetric ℝ} (size : m.size = n)
    (elements : ∀ i j, j ≤ i → i < n → m.element i j = if i = j then a else 0) :
    m = multiple n a := by
  refine sameElements size fun i j col row => ?_
  rw [size] at row
  rw [elements i j col row, elementMultiple row (by omega)]

theorem buildOnDiagonal (n : ℕ) (a : ℝ) : build n (onDiagonal a) = multiple n a :=
  isMultiple rfl fun i j order row => by rw [elementBuild _ order row, onDiagonal]

theorem mulVecMultiple {v : Array ℝ} (size : v.size = n) : (multiple n a).mulVec v = v.map (a * ·) := by
  refine Vector.sameEntries (by rw [sizeMulVec, Array.size_map]) fun i inside => ?_
  rw [sizeMulVec] at inside
  rw [mulVecExact inside, Vector.entryMap _ inside, size]
  rw [size] at inside
  rw [Finset.sum_eq_single_of_mem i (mem_range.mpr inside)]
  · rw [elementMultiple inside inside, if_pos rfl]
  · intro j col other
    rw [elementMultiple inside (mem_range.mp col), if_neg other.symm, zero_mul]

theorem quadraticMultiple {v : Array ℝ} (size : v.size = n) :
    (multiple n a).quadratic v = a * ∑ i ∈ range n, entry v i ^ 2 := by
  rw [quadraticExact, size, Finset.mul_sum]
  refine Finset.sum_congr rfl fun i row => ?_
  rw [Finset.sum_eq_single_of_mem i row]
  · rw [elementMultiple (mem_range.mp row) (mem_range.mp row), if_pos rfl]
    ring
  · intro j col other
    rw [elementMultiple (mem_range.mp row) (mem_range.mp col), if_neg other.symm, mul_zero, zero_mul]

/-! ### Forcing positive definite -/

theorem unitMultiple (positive : 0 < a) : ErrorMatrix.unitDiagonal (multiple n a) = multiple n 1 := by
  refine isMultiple rfl fun i j order row => ?_
  have col : j < n := by omega
  rw [elementUnit row col, elementMultiple row col, elementMultiple row row, elementMultiple col col,
    if_pos rfl, if_pos rfl]
  split
  case isTrue =>
    rw [mul_assoc, ← mul_inv, Real.mul_self_sqrt positive.le, mul_inv_cancel₀ positive.ne']
  case isFalse => rw [zero_mul, zero_mul]

theorem squareOne : (multiple n 1).square = 1 := by
  refine Matrix.ext fun (i j : Fin n) => ?_
  have one : (1 : Matrix (Fin n) (Fin n) ℝ) i j = if (i : ℕ) = j then 1 else 0 := by
    simp only [Matrix.one_apply, Fin.ext_iff]
  exact (elementMultiple i.isLt j.isLt).trans one.symm

theorem eigenvaluesOne : Spectral.eigenvalues (multiple n 1) = List.replicate n 1 := by
  have roots : (multiple n 1).square.charpoly.roots = Multiset.replicate n 1 := by
    rw [squareOne, Matrix.charpoly_one, ← Polynomial.C_1, Polynomial.roots_pow,
      Polynomial.roots_X_sub_C, Fintype.card_fin, Multiset.nsmul_singleton]
    rfl
  change (multiple n 1).square.charpoly.roots.sort = _
  rw [roots, ← Multiset.coe_replicate, Multiset.coe_sort]
  refine List.mergeSort_of_pairwise ?_
  simp

/-! ### The inverse -/

theorem entryReplicate {i : ℕ} (inside : i < n) : entry (Array.replicate n a) i = a := by
  simp [entry, inside]

theorem diagonalMultiple : (multiple n a).diagonal = Array.replicate n a := by
  have size : (multiple n a).diagonal.size = n := size_tabulate _ _
  refine Vector.sameEntries (by rw [size, Array.size_replicate]) fun i inside => ?_
  rw [size] at inside
  rw [entryDiagonal inside, elementMultiple inside inside, if_pos rfl, entryReplicate inside]

theorem eliminateOne {k : ℕ} (inside : k < n) : (multiple n 1).eliminate k = some (multiple n 1) := by
  have pivot : (multiple n 1).element k k = 1 := (elementMultiple inside inside).trans (if_pos rfl)
  rw [eliminate, pivot]
  dsimp only
  rw [if_neg (by simp)]
  refine congrArg some (isMultiple rfl fun i j order row => ?_)
  have col : j < n := by omega
  rw [sizeMultiple, elementBuild _ order row, entry_tabulate _ col, entry_tabulate _ row,
    elementMultiple row col, elementMultiple col inside, elementMultiple row inside]
  by_cases atRow : i = k <;> by_cases atCol : j = k <;> by_cases same : i = j <;>
    simp [atRow, atCol, same]
  all_goals omega

theorem sweepOne (rows : List ℕ) (inside : ∀ k ∈ rows, k < n) :
    (multiple n 1).sweep rows = some (multiple n 1) := by
  induction rows with
  | nil => rfl
  | cons k rest ih =>
    rw [sweep, eliminateOne (inside k (List.mem_cons_self ..))]
    exact ih fun j later => inside j (List.mem_cons_of_mem _ later)

theorem rescaleMultiple (positive : 0 < a) :
    (multiple n a).rescale (Array.replicate n (√a)⁻¹) = multiple n 1 := by
  refine isMultiple rfl fun i j order row => ?_
  have col : j < n := by omega
  rw [rescale, sizeMultiple, elementBuild _ order row, elementMultiple row col, entryReplicate row,
    entryReplicate col]
  split
  case isTrue =>
    rw [mul_assoc, ← mul_inv, Real.mul_self_sqrt positive.le, mul_inv_cancel₀ positive.ne']
  case isFalse => rw [zero_mul, zero_mul]

theorem scaleBackOne (positive : 0 < a) :
    (multiple n 1).scaleBack (Array.replicate n (√a)⁻¹) = multiple n a⁻¹ := by
  refine isMultiple rfl fun i j order row => ?_
  have col : j < n := by omega
  rw [scaleBack, sizeMultiple, elementBuild _ order row, elementMultiple row col, entryReplicate row,
    entryReplicate col]
  split
  case isTrue => rw [one_mul, ← mul_inv, Real.mul_self_sqrt positive.le]
  case isFalse => rw [zero_mul, zero_mul]

theorem invertScaledMultiple (positive : 0 < a) :
    (multiple n a).invertScaled = some (multiple n a⁻¹) := by
  have accepted : ¬ (Array.replicate n a).any (fun d => decide (d ≤ 0)) = true := by
    rw [Array.any_eq_true]
    rintro ⟨i, inside, low⟩
    rw [Array.getElem_replicate] at low
    exact absurd (of_decide_eq_true low) (not_le.mpr positive)
  have roots : (Array.replicate n a).map (fun d => 1 / Scalar.sqrt d) = Array.replicate n (√a)⁻¹ := by
    simp
  have swept : (multiple n 1).sweep (List.range n) = some (multiple n 1) :=
    sweepOne _ fun k among => List.mem_range.mp among
  have finite : (multiple n a⁻¹).hasUndefined = false := by
    rw [hasUndefined, Array.any_eq_false]
    intro i _
    rw [Exact.finite]
    decide
  rw [invertScaled, diagonalMultiple, if_neg accepted]
  dsimp only
  rw [roots, rescaleMultiple positive, sizeMultiple, swept]
  change (if (scaleBack _ _).hasUndefined then none else some _) = _
  rw [scaleBackOne positive, finite]
  rfl

theorem invertMultiple (positive : 0 < a) (nonempty : 0 < n) :
    (multiple n a).invert = .ok (multiple n a⁻¹) := by
  rw [invert, sizeMultiple]
  split
  case h_1 => exact absurd nonempty (lt_irrefl 0)
  case h_2 =>
    have only : (multiple 1 a).element 0 0 = a := elementMultiple one_pos one_pos
    have single : (multiple 1 a).set 0 0 a⁻¹ = multiple 1 a⁻¹ := by
      refine isMultiple rfl fun i j order row => ?_
      obtain rfl : i = 0 := by omega
      obtain rfl : j = 0 := by omega
      exact elementSet _ _ one_pos one_pos
    dsimp only
    rw [only, if_neg (not_le.mpr positive)]
    refine congrArg Except.ok ?_
    rw [← single]
    exact congrArg _ (one_div a)
  case h_3 =>
    rw [invertScaledMultiple positive]
    rfl

end Symmetric

namespace ErrorMatrix
variable {n : ℕ} {a : ℝ} {prec : Precision ℝ}

theorem foldMinAbove {l : List ℝ} {a c : ℝ} (start : c ≤ a) (rest : ∀ x ∈ l, c ≤ x) :
    c ≤ l.foldl Scalar.min a := by
  induction l generalizing a with
  | nil => exact start
  | cons x l ih =>
    rw [List.foldl_cons, Exact.min]
    exact ih (le_min start (rest x (List.mem_cons_self ..))) fun y later =>
      rest y (List.mem_cons_of_mem _ later)

theorem shiftMultiple (nonempty : 0 < n) (eps2 : prec.eps2 ≤ a) : shift (.multiple n a) prec = 0 := by
  have enough : prec.eps2 ≤
      (Array.replicate n a).foldl Scalar.min ((Symmetric.multiple n a).element 0 0) := by
    rw [← Array.foldl_toList]
    refine foldMinAbove ?_ fun x among => ?_
    · rw [Symmetric.elementMultiple nonempty nonempty, if_pos rfl]
      exact eps2
    · rw [Array.toList_replicate] at among
      rw [List.eq_of_mem_replicate among]
      exact eps2
  rw [shift, Symmetric.diagonalMultiple]
  exact if_neg (not_lt.mpr enough)

/- A multiple that is large enough is accepted as it is. -/
theorem makePosDefMultiple (dcovar : ℝ) (nonempty : 0 < n) (positive : 0 < a) (eps : prec.eps ≤ a)
    (eps2 : prec.eps2 ≤ a) (fine : prec.eps2 < 1) :
    (usable (.multiple n a) dcovar).makePosDef prec = usable (.multiple n a) dcovar := by
  have matrix : (usable (.multiple n a) dcovar).inverse = .multiple n a := rfl
  have same : lift (.multiple n a) 0 = .multiple n a := by
    refine liftSame fun i (inside : i < n) => ?_
    rw [Symmetric.elementMultiple inside inside, if_pos rfl]
    exact positive.le
  have small : floor prec < 1 := by
    rw [floor, Exact.max]
    exact max_lt (by norm_num) fine
  obtain ⟨m, rfl⟩ := Nat.exists_eq_succ_of_ne_zero nonempty.ne'
  have least : (List.replicate (m + 1) (1 : ℝ)).headD 0 = 1 := rfl
  have largest : (List.replicate (m + 1) (1 : ℝ)).getLastD 0 = 1 := by
    rw [List.getLastD_eq_getLast?, List.getLast?_replicate, if_neg (Nat.succ_ne_zero m)]
    rfl
  rw [makePosDef, matrix, Symmetric.sizeMultiple]
  dsimp only
  split
  case isTrue one =>
    rw [Symmetric.elementMultiple nonempty nonempty, if_pos rfl]
    exact if_neg (not_lt.mpr eps)
  case isFalse =>
    rw [shiftMultiple nonempty eps2, same, Symmetric.unitMultiple positive, Symmetric.eigenvaluesOne,
      least, largest]
    have one : Scalar.max (Scalar.abs (1 : ℝ)) 1 = 1 := by rw [Exact.max, Exact.abs, abs_one, max_self]
    rw [one, if_pos (lt_of_eq_of_lt (mul_one _) small)]
    exact if_neg (lt_irrefl _)

theorem edmMultiple {g : Gradient ℝ} (size : g.slopes.size = n) (dcovar : ℝ) :
    (usable (.multiple n a) dcovar).edm g = a / 2 * ∑ i ∈ range n, entry g.slopes i ^ 2 := by
  have matrix : (usable (.multiple n a) dcovar).inverse = .multiple n a := rfl
  rw [edm, matrix, Symmetric.sizeMultiple]
  split
  case isTrue one =>
    subst one
    rw [Symmetric.elementMultiple one_pos one_pos, if_pos rfl, Finset.sum_range_one]
    change (0.5 : ℝ) * entry g.slopes 0 * entry g.slopes 0 * a = _
    ring
  case isFalse =>
    rw [Symmetric.quadraticMultiple size]
    change (0.5 : ℝ) * (a * _) = _
    ring

end ErrorMatrix
end ParamFit
