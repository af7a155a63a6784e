import ParamFit.Proofs.Inverse

/-! Where the inverse is found. The sweep stops at a pivot that vanishes, and a pivot vanishes exactly
where the leading minor that ends in its row does: both say that some vector of the leading rows,
taken by the matrix, leaves nothing there. Scaling to a unit diagonal alters no minor but by a factor.
So a matrix is inverted exactly when its diagonal is positive and no leading minor vanishes. -/
namespace ParamFit.Symmetric
open Finset Matrix
set_option linter.overlappingInstances false
variable {n : ℕ} {K : Type}

/-! ### Leading minors -/

section
variable [Field K] [Scalar K]

theorem minorNone (m : Symmetric K) : (m.matrix 0).det = 1 := det_isEmpty

theorem minorOne (m : Symmetric K) : (m.matrix 1).det = m.element 0 0 := det_fin_one _

/- A vector that vanishes from row `l` on meets the leading columns alone. -/
theorem mulVecLeading (m : Symmetric K) {l : ℕ} (le : l ≤ n) {x : Fin n → K}
    (rest : ∀ i : Fin n, l ≤ i → x i = 0) (i : Fin l) :
    (m.matrix n *ᵥ x) (i.castLE le) = (m.matrix l *ᵥ fun j => x (j.castLE le)) i := by
  obtain ⟨r, rfl⟩ := Nat.exists_eq_add_of_le le
  have outside (j : Fin r) : x (Fin.natAdd l j) = 0 := rest _ (Nat.le_add_right l j)
  refine (Fin.sum_univ_add _).trans ?_
  simp only [outside, mul_zero, sum_const_zero, add_zero]
  rfl

theorem minorVanishes (m : Symmetric K) {l : ℕ} (le : l ≤ n) :
    (m.matrix l).det = 0 ↔ ∃ x : Fin n → K, x ≠ 0 ∧ (∀ i : Fin n, l ≤ i → x i = 0) ∧
      ∀ i : Fin n, i < l → (m.matrix n *ᵥ x) i = 0 := by
  rw [← exists_mulVec_eq_zero_iff]
  constructor
  · rintro ⟨w, nonzero, kernel⟩
    let x : Fin n → K := fun i => if inside : i < l then w ⟨i, inside⟩ else 0
    have leading : (fun j : Fin l => x (j.castLE le)) = w := funext fun j => dif_pos j.isLt
    have rest (i : Fin n) (outside : l ≤ i) : x i = 0 := dif_neg outside.not_gt
    refine ⟨x, fun zero => nonzero ?_, rest, fun i inside => ?_⟩
    · rw [← leading, zero]
      rfl
    · have row := m.mulVecLeading le rest ⟨i, inside⟩
      rw [leading, kernel] at row
      exact row
  · rintro ⟨x, nonzero, rest, kernel⟩
    refine ⟨fun j => x (j.castLE le), fun zero => nonzero (funext fun i => ?_), funext fun i => ?_⟩
    · by_cases inside : i < l
      · exact congrFun zero ⟨i, inside⟩
      · exact rest i (not_lt.mp inside)
    · rw [← m.mulVecLeading le rest]
      exact kernel _ i.isLt

/-! ### Pivots -/

variable {a m : Symmetric K} {k : Fin n}
  (gives : ∀ x y, blend k x y = m.signed n k *ᵥ blend k y x ↔ y = a.matrix n *ᵥ x)
include gives

/- After the exchange of the rows before `k`, the vector that is one in row `k` shows its pivot: where
that vanishes, the rows before `k` of what it is taken to, followed by it, are taken to nothing. -/
theorem pivotKernel (vanishes : m.element k k = 0) :
    ∃ x : Fin n → K, x ≠ 0 ∧ (∀ i : Fin n, k + 1 ≤ (i : ℕ) → x i = 0) ∧
      ∀ i : Fin n, (i : ℕ) < k + 1 → (a.matrix n *ᵥ x) i = 0 := by
  let u : Fin n → K := Pi.single k 1
  let v := m.signed n k *ᵥ u
  have image : blend k u v = a.matrix n *ᵥ blend k v u :=
    (gives _ _).mp (by rw [blendBack, blendBack])
  have apart {i : Fin n} (other : (i : ℕ) ≠ k) : u i = 0 :=
    Pi.single_eq_of_ne (Fin.ne_of_val_ne other) 1
  refine ⟨blend k v u, fun zero => ?_, fun i after => ?_, fun i before => ?_⟩
  · have one : blend k v u k = 1 := (if_neg (lt_irrefl _)).trans (Pi.single_eq_same k 1)
    rw [zero] at one
    exact zero_ne_one one
  · rw [blend, if_neg (by omega)]
    exact apart (by omega)
  · rw [← image, blend]
    split
    case isTrue inside => exact apart inside.ne
    case isFalse outside =>
      obtain rfl : i = k := Fin.ext (by omega)
      exact (m.signedColumn i 1 i).trans (by rw [vanishes, zero_mul])

/- A vector of the rows up to `k` that is taken to nothing there is a multiple of that one. With a pivot
it would vanish in row `k`, and so before it. -/
theorem kernelPivot {x : Fin n → K} (nonzero : x ≠ 0) (rest : ∀ i : Fin n, k + 1 ≤ (i : ℕ) → x i = 0)
    (kernel : ∀ i : Fin n, (i : ℕ) < k + 1 → (a.matrix n *ᵥ x) i = 0) : m.element k k = 0 := by
  by_contra pivot
  have exchange := (gives x _).mpr rfl
  have taken : blend k (a.matrix n *ᵥ x) x = Pi.single k (x k) := by
    funext i
    rw [blend]
    split
    case isTrue before =>
      rw [kernel i (by omega), Pi.single_eq_of_ne (Fin.ne_of_val_ne before.ne)]
    case isFalse outside =>
      by_cases same : i = k
      · rw [same, Pi.single_eq_same]
      · rw [rest i (by have := Fin.val_ne_of_ne same; omega), Pi.single_eq_of_ne same]
  rw [taken] at exchange
  have here : x k = 0 := by
    have row := congrFun exchange k
    rw [signedColumn, blend, if_neg (lt_irrefl _), kernel k (Nat.lt_succ_self _)] at row
    exact (mul_eq_zero.mp row.symm).resolve_left pivot
  refine nonzero (funext fun i => ?_)
  rcases lt_trichotomy (i : ℕ) k with before | same | after
  · have row := congrFun exchange i
    rwa [signedColumn, here, mul_zero, blend, if_pos before] at row
  · rw [Fin.ext same, here]
    rfl
  · exact rest i after

theorem pivotVanishes : m.element k k = 0 ↔ (a.matrix (k + 1)).det = 0 := by
  rw [a.minorVanishes k.isLt]
  constructor
  · exact pivotKernel gives
  · rintro ⟨x, nonzero, rest, kernel⟩
    exact kernelPivot gives nonzero rest kernel

end

variable [Field K] [LinearOrder K] [Scalar K]

/- A form that is positive has neither a row that is not nor a minor that vanishes. -/
theorem positiveDiagonal {m : Symmetric K}
    (positive : ∀ x : Fin n → K, x ≠ 0 → 0 < x ⬝ᵥ m.matrix n *ᵥ x) (i : Fin n) :
    0 < m.element i i := by
  have unit := positive (Pi.single i 1) (by simp)
  rwa [mulVec_single_one, single_one_dotProduct] at unit

theorem positiveMinor {m : Symmetric K}
    (positive : ∀ x : Fin n → K, x ≠ 0 → 0 < x ⬝ᵥ m.matrix n *ᵥ x) {l : ℕ} (le : l ≤ n) :
    (m.matrix l).det ≠ 0 := by
  intro vanishes
  obtain ⟨x, nonzero, rest, kernel⟩ := (m.minorVanishes le).mp vanishes
  refine (positive x nonzero).ne' (sum_eq_zero fun i _ => ?_)
  by_cases inside : i < l
  · rw [kernel i inside, mul_zero]
  · rw [rest i (not_lt.mp inside), zero_mul]

/-! ### The sweep -/

variable [OrderedScalar K]

theorem sweepFound {a m : Symmetric K} {k l : ℕ} (rows : k + l = n) (size : m.size = n)
    (gives : ∀ x y, blend k x y = m.signed n k *ᵥ blend k y x ↔ y = a.matrix n *ᵥ x) :
    (∃ swept, m.sweep (List.range' k l) = some swept) ↔
      ∀ i, k < i → i ≤ n → (a.matrix i).det ≠ 0 := by
  induction l generalizing k m with
  | zero => exact iff_of_true ⟨m, rfl⟩ fun i after inside => by omega
  | succ l ih =>
    let row : Fin n := ⟨k, by omega⟩
    have minor : m.element k k = 0 ↔ (a.matrix (k + 1)).det = 0 := pivotVanishes (k := row) gives
    by_cases pivot : m.element k k = 0
    · refine iff_of_false ?_ fun found => found (k + 1) (by omega) (by omega) (minor.mp pivot)
      rintro ⟨swept, done⟩
      obtain ⟨next, eliminated, -⟩ := Option.bind_eq_some_iff.mp done
      exact eliminatePivot eliminated pivot
    · obtain ⟨next, eliminated⟩ := eliminateFound pivot
      have step (x y : Fin n → K) := (eliminateGives size (k := row) eliminated x y).symm.trans
        (gives x y)
      have later := ih (k := k + 1) (by omega) ((sizeEliminate eliminated).trans size) step
      have first : m.sweep (List.range' k (l + 1)) = next.sweep (List.range' (k + 1) l) := by
        rw [List.range'_succ, sweep, eliminated]
        rfl
      rw [first, later]
      refine ⟨fun found i after inside => ?_, fun found i after => found i (by omega)⟩
      rcases Nat.lt_or_eq_of_le after with beyond | rfl
      · exact found i beyond inside
      · exact fun vanishes => pivot (minor.mpr vanishes)

theorem minorRescale {m : Symmetric K} (le : n ≤ m.size) {s : Array K}
    (unit : IsUnit (scaling n s)) :
    ((m.rescale s).matrix n).det ≠ 0 ↔ (m.matrix n).det ≠ 0 := by
  have nonzero := ((isUnit_iff_isUnit_det _).mp unit).ne_zero
  rw [matrixRescale le, det_mul, det_mul]
  simp [nonzero]

/-! ### The inverse found -/

theorem neverUndefined (m : Symmetric K) : m.hasUndefined = false := by
  simp [hasUndefined, OrderedScalar.isFinite]

/- The sweep decides; what it leaves is never refused. -/
theorem invertScaledSwept {m : Symmetric K} (positive : ∀ i < m.size, 0 < m.element i i) :
    (∃ inverse, m.invertScaled = some inverse) ↔
      ∃ swept, (m.rescale m.unitScale).sweep (List.range m.size) = some swept := by
  have tested := diagonalTested.mpr fun i inside => OrderedScalar.positive.mpr (positive i inside)
  constructor
  · rintro ⟨inverse, done⟩
    obtain ⟨-, swept, done, -⟩ := invertScaledCases done
    exact ⟨swept, done⟩
  · rintro ⟨swept, done⟩
    refine ⟨swept.scaleBack m.unitScale, ?_⟩
    rw [invertScaled, if_neg (by rw [tested]; exact Bool.false_ne_true)]
    exact Option.bind_eq_some_iff.mpr ⟨swept, done, if_neg (by simp [neverUndefined])⟩

theorem invertScaledFound {m : Symmetric K} :
    (∃ inverse, m.invertScaled = some inverse) ↔
      (∀ i < m.size, 0 < m.element i i) ∧ ∀ l ≤ m.size, (m.matrix l).det ≠ 0 := by
  by_cases positive : ∀ i < m.size, 0 < m.element i i
  · have gives (x y : Fin m.size → K) :
        blend 0 x y = (m.rescale m.unitScale).signed m.size 0 *ᵥ blend 0 y x ↔
          y = (m.rescale m.unitScale).matrix m.size *ᵥ x := by
      rw [blendNone, blendNone, signedNone]
    have fits : (m.rescale m.unitScale).size = m.size := rfl
    rw [invertScaledSwept positive, and_iff_right positive, List.range_eq_range',
      sweepFound (zero_add _) fits gives]
    refine forall_congr' fun l => ?_
    rcases Nat.eq_zero_or_pos l with rfl | some
    · simp
    · rw [forall_prop_of_true some]
      exact forall_congr' fun inside => minorRescale inside (scalingUnit inside positive)
  · refine iff_of_false ?_ fun both => positive both.1
    rintro ⟨inverse, done⟩
    exact positive fun i inside => OrderedScalar.positive.mp ((invertScaledCases done).1 i inside)

theorem invertFoundIff {m : Symmetric K} :
    (∃ inverse, m.invert = .ok inverse) ↔
      (∀ i < m.size, 0 < m.element i i) ∧ ∀ l ≤ m.size, (m.matrix l).det ≠ 0 := by
  rw [invert]
  split
  case h_1 none =>
    refine iff_of_true ⟨m, rfl⟩ ⟨fun i inside => by omega, fun l inside => ?_⟩
    obtain rfl : l = 0 := by omega
    rw [minorNone]
    exact one_ne_zero
  case h_2 one =>
    dsimp only
    split
    case isTrue tested =>
      refine iff_of_false ?_ fun both => ?_
      · rintro ⟨inverse, done⟩
        cases done
      · exact OrderedScalar.positive.mpr (both.1 0 (by omega)) tested
    case isFalse tested =>
      have positive := OrderedScalar.positive.mp tested
      refine iff_of_true ⟨_, rfl⟩ ⟨fun i inside => ?_, fun l inside => ?_⟩
      · obtain rfl : i = 0 := by omega
        exact positive
      · obtain rfl | rfl : l = 0 ∨ l = 1 := by omega
        · rw [minorNone]
          exact one_ne_zero
        · rw [minorOne]
          exact positive.ne'
  case h_3 =>
    rw [← invertScaledFound]
    cases m.invertScaled with
    | none => simp
    | some scaled => simp

theorem invertPositive {m : Symmetric K} (size : m.size = n)
    (positive : ∀ x : Fin n → K, x ≠ 0 → 0 < x ⬝ᵥ m.matrix n *ᵥ x) :
    ∃ inverse, m.invert = .ok inverse := by
  subst size
  refine invertFoundIff.mpr ⟨fun i inside => ?_, fun l inside => ?_⟩
  · exact positiveDiagonal positive ⟨i, inside⟩
  · exact positiveMinor positive inside

theorem invertFound {m : Symmetric ℝ} (size : m.size = n) (definite : (m.matrix n).PosDef) :
    ∃ inverse, m.invert = .ok inverse := by
  refine invertPositive size fun x nonzero => ?_
  have positive := definite.dotProduct_mulVec_pos nonzero
  rwa [star_trivial] at positive

/- Rows that all lean on each other, by half of the diagonal. -/
theorem overlapDefinite {m : Symmetric ℝ}
    (elements : ∀ i < n, ∀ j < n, m.element i j = if i = j then 2 else 1) : (m.matrix n).PosDef := by
  have square : m.matrix n = 1 + vecMulVec 1 1 := by
    ext i j
    refine (elements i i.isLt j j.isLt).trans ?_
    rw [Matrix.add_apply, one_apply, vecMulVec_apply, Pi.one_apply, Pi.one_apply, mul_one]
    by_cases same : i = j
    · rw [if_pos same, if_pos (congrArg Fin.val same)]
      exact one_add_one_eq_two.symm
    · rw [if_neg same, if_neg (Fin.val_ne_of_ne same), zero_add]
  rw [square]
  exact PosDef.one.add_posSemidef (posSemidef_vecMulVec_self_star 1)

/- A matrix times the inverse that is answered is one. An inverse is answered exactly for a positive
diagonal and leading minors none of which vanishes; so for every matrix whose form is positive. -/
theorem inverseExact (m : Symmetric K) :
    (∀ inverse, m.invert = .ok inverse →
      inverse.size = m.size ∧ m.matrix m.size * inverse.matrix m.size = 1) ∧
    ((∃ inverse, m.invert = .ok inverse) ↔
      (∀ i < m.size, 0 < m.element i i) ∧ ∀ l ≤ m.size, (m.matrix l).det ≠ 0) ∧
    ((∀ x : Fin m.size → K, x ≠ 0 → 0 < x ⬝ᵥ m.matrix m.size *ᵥ x) →
      ∃ inverse, m.invert = .ok inverse) :=
  ⟨fun _ done => ⟨sizeInvert done, mul_eq_one_comm.mp (invertExact rfl done)⟩, invertFoundIff,
    invertPositive rfl⟩

/- Two rows that lean on each other. -/
theorem inverseExactLeaning : ∃ inverse,
    (build 2 fun i j => if i = j then 2 else 1 : Symmetric ℝ).invert = .ok inverse ∧
      !![2, 1; 1, 2] * inverse.matrix 2 = (1 : Matrix (Fin 2) (Fin 2) ℝ) := by
  let m : Symmetric ℝ := build 2 fun i j => if i = j then 2 else 1
  have square : m.matrix 2 = !![2, 1; 1, 2] := by
    rw [matrixBuild fun i j => if_congr eq_comm rfl rfl]
    ext i j
    fin_cases i <;> fin_cases j <;> rfl
  have diagonal (i : ℕ) (inside : i < 2) : 0 < m.element i i := by
    rw [elementBuild _ le_rfl inside, if_pos rfl]
    exact two_pos
  have minors (l : ℕ) (inside : l ≤ 2) : (m.matrix l).det ≠ 0 := by
    interval_cases l
    · exact (minorNone m).trans_ne one_ne_zero
    · exact (minorOne m).trans_ne (diagonal 0 two_pos).ne'
    · rw [square, det_fin_two_of]
      norm_num
  obtain ⟨exact, found, -⟩ := inverseExact m
  obtain ⟨inverse, done⟩ := found.mpr ⟨diagonal, minors⟩
  exact ⟨inverse, done, square ▸ (exact inverse done).2⟩

end ParamFit.Symmetric
