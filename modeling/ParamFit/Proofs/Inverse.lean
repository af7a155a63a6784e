import ParamFit.Linear.Inverse
import ParamFit.Proofs.Field
import ParamFit.Proofs.Sums

/-! The inverse over exact numbers. A matrix takes a vector and gives one. An elimination step
exchanges one row: what was given there is taken now, and what was taken is given. The stored triangle
holds the exchanged matrix with a sign: a row that was not exchanged yet has the opposite one in the
columns that were. Once every row is exchanged, the matrix takes what the first one gave. -/
namespace ParamFit
open Finset Matrix
set_option linter.overlappingInstances false
variable {n : ℕ}

namespace Symmetric
variable {α : Type} [Scalar α]

/-! ### Rows -/

theorem sizeEliminate {m next : Symmetric α} {k : ℕ} (done : m.eliminate k = some next) :
    next.size = m.size := by
  rw [eliminate] at done
  dsimp only at done
  split at done
  · cases done
  · cases done
    rfl

theorem sizeSweep {m swept : Symmetric α} {ks : List ℕ} (done : m.sweep ks = some swept) :
    swept.size = m.size := by
  induction ks generalizing m with
  | nil =>
    cases done
    rfl
  | cons k rest ih =>
    obtain ⟨next, eliminated, done⟩ := Option.bind_eq_some_iff.mp done
    exact (ih done).trans (sizeEliminate eliminated)

/- The inverse roots of the diagonal. -/
def unitScale (m : Symmetric α) : Array α := m.diagonal.map fun d => 1 / Scalar.sqrt d

theorem diagonalTested {m : Symmetric α} :
    m.diagonal.any (fun d => decide (d ≤ 0)) = false ↔ ∀ i < m.size, ¬ m.element i i ≤ 0 := by
  rw [Array.any_eq_false]
  simp [diagonal, tabulate]

/- What is inverted had its diagonal tested, was swept, and is scaled back. -/
theorem invertScaledCases {m inverse : Symmetric α} (done : m.invertScaled = some inverse) :
    (∀ i < m.size, ¬ m.element i i ≤ 0) ∧ ∃ swept,
      (m.rescale m.unitScale).sweep (List.range m.size) = some swept ∧
        inverse = swept.scaleBack m.unitScale := by
  rw [invertScaled] at done
  split at done
  case isTrue => cases done
  case isFalse tested =>
    obtain ⟨swept, sweeping, done⟩ := Option.bind_eq_some_iff.mp done
    dsimp only at done
    split at done
    case isTrue => cases done
    case isFalse =>
      cases done
      exact ⟨diagonalTested.mp (Bool.of_not_eq_true tested), swept, sweeping, rfl⟩

theorem invertCases {m inverse : Symmetric α} (done : m.invert = .ok inverse) :
    m.size = 0 ∧ inverse = m ∨
      (m.size = 1 ∧ ¬ m.element 0 0 ≤ 0) ∧ inverse = m.set 0 0 (1 / m.element 0 0) ∨
      m.invertScaled = some inverse := by
  rw [invert] at done
  split at done
  case h_1 none =>
    cases done
    exact .inl ⟨none, rfl⟩
  case h_2 one =>
    dsimp only at done
    split at done
    case isTrue => cases done
    case isFalse positive =>
      cases done
      exact .inr (.inl ⟨⟨one, positive⟩, rfl⟩)
  case h_3 =>
    cases found : m.invertScaled with
    | none =>
      rw [found] at done
      cases done
    | some scaled =>
      rw [found] at done
      cases done
      exact .inr (.inr rfl)

theorem sizeInvert {m inverse : Symmetric α} (done : m.invert = .ok inverse) :
    inverse.size = m.size := by
  rcases invertCases done with ⟨-, rfl⟩ | ⟨-, rfl⟩ | scaled
  · rfl
  · rfl
  · obtain ⟨-, swept, sweeping, rfl⟩ := invertScaledCases scaled
    have size := sizeSweep sweeping
    exact size

end Symmetric

/-! ### Exchanging a row -/

section
variable {K : Type} [Field K]

/- What a row gives is taken in its place, and the other way round. -/
def exchanged (t : Matrix (Fin n) (Fin n) K) (k : Fin n) : Matrix (Fin n) (Fin n) K :=
  .of fun i j =>
    if i = k then if j = k then 1 / t k k else -t k j / t k k
    else if j = k then t i k / t k k else t i j - t i k * t k j / t k k

theorem mulVecSplit (t : Matrix (Fin n) (Fin n) K) (u : Fin n → K) (k i : Fin n) :
    (t *ᵥ u) i = t i k * u k + ∑ j ∈ univ.erase k, t i j * u j :=
  (add_sum_erase _ (fun j => t i j * u j) (mem_univ k)).symm

theorem exchangedRow (t : Matrix (Fin n) (Fin n) K) (k : Fin n) (u : Fin n → K) (v : K) :
    (exchanged t k *ᵥ Function.update u k v) k =
      (v - ∑ j ∈ univ.erase k, t k j * u j) / t k k := by
  have others : ∑ j ∈ univ.erase k, exchanged t k k j * Function.update u k v j =
      -(∑ j ∈ univ.erase k, t k j * u j) / t k k := by
    rw [← sum_neg_distrib, sum_div]
    refine sum_congr rfl fun j among => ?_
    have other := ne_of_mem_erase among
    rw [Function.update_of_ne other, exchanged, of_apply, if_pos rfl, if_neg other]
    ring
  rw [mulVecSplit _ _ k, others, Function.update_self, exchanged, of_apply, if_pos rfl, if_pos rfl]
  ring

theorem exchangedOther (t : Matrix (Fin n) (Fin n) K) {k i : Fin n} (other : i ≠ k) (u : Fin n → K)
    (v : K) : (exchanged t k *ᵥ Function.update u k v) i =
      t i k * ((v - ∑ j ∈ univ.erase k, t k j * u j) / t k k) + ∑ j ∈ univ.erase k, t i j * u j := by
  have others : ∑ j ∈ univ.erase k, exchanged t k i j * Function.update u k v j =
      ∑ j ∈ univ.erase k, t i j * u j - t i k / t k k * ∑ j ∈ univ.erase k, t k j * u j := by
    rw [mul_sum, ← sum_sub_distrib]
    refine sum_congr rfl fun j among => ?_
    have apart := ne_of_mem_erase among
    rw [Function.update_of_ne apart, exchanged, of_apply, if_neg other, if_neg apart]
    ring
  rw [mulVecSplit _ _ k, others, Function.update_self, exchanged, of_apply, if_neg other, if_pos rfl]
  ring

theorem exchangedGives {t : Matrix (Fin n) (Fin n) K} {k : Fin n} (pivot : t k k ≠ 0)
    (u v : Fin n → K) :
    v = t *ᵥ u ↔ Function.update v k (u k) = exchanged t k *ᵥ Function.update u k (v k) := by
  have row : v k = (t *ᵥ u) k ↔ u k = (v k - ∑ j ∈ univ.erase k, t k j * u j) / t k k := by
    rw [mulVecSplit t u k, eq_div_iff pivot, eq_sub_iff_add_eq, mul_comm, eq_comm]
  constructor
  · intro gives
    have here := row.mp (congrFun gives k)
    funext i
    by_cases same : i = k
    · rw [same, Function.update_self, exchangedRow]
      exact here
    · rw [Function.update_of_ne same, exchangedOther t same, ← here, ← mulVecSplit t u k]
      exact congrFun gives i
  · intro gives
    have here : u k = (v k - ∑ j ∈ univ.erase k, t k j * u j) / t k k := by
      have at_k := congrFun gives k
      rwa [Function.update_self, exchangedRow] at at_k
    funext i
    by_cases same : i = k
    · rw [same]
      exact row.mpr here
    · have there := congrFun gives i
      rwa [Function.update_of_ne same, exchangedOther t same, ← here, ← mulVecSplit t u k] at there

end

namespace Symmetric

section
variable {α : Type} [Scalar α]

/- The leading rows and columns, as a square. -/
def matrix (m : Symmetric α) (n : ℕ) : Matrix (Fin n) (Fin n) α := .of fun i j => m.element i j

theorem matrixBuild {f : ℕ → ℕ → α} (comm : ∀ i j, f i j = f j i) :
    (build n f).matrix n = .of fun i j : Fin n => f i j := by
  ext i j
  exact elementBuildComm comm i.isLt j.isLt

end

/-! ### The sweep -/

/- One vector in the rows before `k`, the other in those that follow. -/
def blend {β : Type} (k : ℕ) (x y : Fin n → β) : Fin n → β := fun i => if (i : ℕ) < k then x i else y i

theorem blendNone {β : Type} (x y : Fin n → β) : blend 0 x y = y := rfl

theorem blendAll {β : Type} (x y : Fin n → β) : blend n x y = x := funext fun i => if_pos i.isLt

theorem blendBack {β : Type} (k : ℕ) (x y : Fin n → β) : blend k (blend k x y) (blend k y x) = x := by
  funext i
  simp only [blend]
  split <;> rfl

theorem blendMore {β : Type} (k : Fin n) (x y : Fin n → β) :
    Function.update (blend k x y) k (blend k y x k) = blend (k + 1) x y := by
  funext i
  by_cases same : i = k
  · rw [same, Function.update_self, blend, blend, if_neg (lt_irrefl _), if_pos (Nat.lt_succ_self _)]
  · have apart : (i : ℕ) ≠ k := Fin.val_ne_of_ne same
    rw [Function.update_of_ne same, blend, blend]
    exact if_congr (by omega) rfl rfl

section
variable {K : Type} [Field K] [Scalar K]

/- The rows before `k` are exchanged; the others have the opposite sign in those columns. -/
def signed (m : Symmetric K) (n k : ℕ) : Matrix (Fin n) (Fin n) K :=
  .of fun i j => if k ≤ i ∧ j < k then -m.element i j else m.element i j

theorem signedSame (m : Symmetric K) {k : ℕ} {i j : Fin n} (same : i < k ∨ k ≤ j) :
    m.signed n k i j = m.element i j := if_neg (by omega)

theorem signedMixed (m : Symmetric K) {k : ℕ} {i j : Fin n} (row : k ≤ i) (col : j < k) :
    m.signed n k i j = -m.element i j := if_pos ⟨row, col⟩

theorem signedColumn (m : Symmetric K) (k : Fin n) (c : K) (i : Fin n) :
    (m.signed n k *ᵥ Pi.single k c) i = m.element i k * c := by
  rw [mulVec_single, Pi.smul_apply, col_apply, m.signedSame (.inr le_rfl), op_smul_eq_mul]

theorem signedAll (m : Symmetric K) : m.signed n n = m.matrix n := by
  ext i j
  exact m.signedSame (.inl i.isLt)

theorem signedNone (m : Symmetric K) : m.signed n 0 = m.matrix n := by
  ext i j
  exact m.signedSame (.inr (Nat.zero_le _))

end

variable {K : Type} [Field K] [LinearOrder K] [Scalar K] [OrderedScalar K]

theorem eliminateElement {m next : Symmetric K} {k : ℕ} (done : m.eliminate k = some next) {i j : ℕ}
    (col : j ≤ i) (row : i < m.size) : next.element i j =
      (if i = k ∨ j = k then 0 else m.element i j) + (if j = k then 1 else m.element j k) *
        (if i = k then 1 / m.element k k else
          if i < k then m.element i k / m.element k k else -m.element i k / m.element k k) := by
  rw [eliminate] at done
  dsimp only at done
  split at done
  case isTrue => cases done
  case isFalse =>
    cases done
    rw [elementBuild _ col row, entry_tabulate _ row, entry_tabulate _ (by omega)]
    simp only [OrderedScalar.add, OrderedScalar.mul, OrderedScalar.div, OrderedScalar.neg,
      OrderedScalar.one, OrderedScalar.zero, mul_one_div]

theorem eliminatePivot {m next : Symmetric K} {k : ℕ} (done : m.eliminate k = some next) :
    m.element k k ≠ 0 := by
  rw [eliminate] at done
  dsimp only at done
  split at done
  case isTrue => cases done
  case isFalse pivot => simpa [OrderedScalar.beq, OrderedScalar.zero] using pivot

theorem eliminateFound {m : Symmetric K} {k : ℕ} (pivot : m.element k k ≠ 0) :
    ∃ next, m.eliminate k = some next := by
  rw [eliminate]
  exact ⟨_, if_neg (by simpa [OrderedScalar.beq, OrderedScalar.zero] using pivot)⟩

section
variable {m next : Symmetric K} {k : ℕ}

theorem eliminatedPivot (done : m.eliminate k = some next) (inside : k < m.size) :
    next.element k k = 1 / m.element k k := by
  rw [eliminateElement done le_rfl inside]
  simp

theorem eliminatedRow (done : m.eliminate k = some next) (inside : k < m.size) {i : ℕ} (other : i ≠ k)
    (row : i < m.size) : next.element i k =
      if i < k then m.element i k / m.element k k else -m.element i k / m.element k k := by
  rcases lt_or_gt_of_ne other with before | after
  · rw [elementComm, eliminateElement done before.le inside, if_pos before, if_pos (.inl rfl),
      if_neg other, if_pos rfl, zero_add, mul_one_div]
  · rw [eliminateElement done after.le row, if_neg after.not_gt, if_pos (.inr rfl), if_pos rfl,
      if_neg other, zero_add, one_mul]

theorem eliminatedOther (done : m.eliminate k = some next) {i j : ℕ} (row : i ≠ k) (col : j ≠ k)
    (left : i < m.size) (right : j < m.size) : next.element i j =
      if i < k ∧ j < k then m.element i j + m.element i k * m.element j k / m.element k k
      else m.element i j - m.element i k * m.element j k / m.element k k := by
  have lower {i j : ℕ} (le : j ≤ i) (row : i ≠ k) (col : j ≠ k) (left : i < m.size) :
      next.element i j =
        if i < k ∧ j < k then m.element i j + m.element i k * m.element j k / m.element k k
        else m.element i j - m.element i k * m.element j k / m.element k k := by
    rw [eliminateElement done le left, if_neg (by simp [row, col]), if_neg col, if_neg row]
    by_cases before : i < k
    · rw [if_pos before, if_pos ⟨before, le.trans_lt before⟩]
      ring
    · rw [if_neg before, if_neg fun both => before both.1]
      ring
  rcases Nat.le_total j i with le | le
  · exact lower le row col left
  · rw [elementComm, lower le col row right, elementComm m j i, mul_comm (m.element j k)]
    simp only [and_comm]

end

theorem eliminateExchanges {m next : Symmetric K} (size : m.size = n) {k : Fin n}
    (done : m.eliminate k = some next) : next.signed n (k + 1) = exchanged (m.signed n k) k := by
  have inside (i : Fin n) : (i : ℕ) < m.size := size.symm ▸ i.isLt
  have column (i : Fin n) : m.signed n k i k = m.element i k := m.signedSame (.inr le_rfl)
  ext i j
  rw [exchanged, of_apply, column, column]
  by_cases row : i = k
  · subst row
    rw [next.signedSame (.inl (Nat.lt_succ_self _)), if_pos rfl]
    by_cases col : j = i
    · rw [col, if_pos rfl]
      exact eliminatedPivot done (inside i)
    · have apart : (j : ℕ) ≠ i := Fin.val_ne_of_ne col
      rw [if_neg col, elementComm, eliminatedRow done (inside i) apart (inside j)]
      rcases lt_or_gt_of_ne apart with before | after
      · rw [if_pos before, m.signedMixed le_rfl before, neg_neg, elementComm]
      · rw [if_neg after.not_gt, m.signedSame (.inr after.le), elementComm]
  · have other : (i : ℕ) ≠ k := Fin.val_ne_of_ne row
    rw [if_neg row]
    by_cases col : j = k
    · subst col
      rw [if_pos rfl]
      rcases lt_or_gt_of_ne other with before | after
      · rw [next.signedSame (.inl (by omega)), eliminatedRow done (inside j) other (inside i),
          if_pos before]
      · rw [next.signedMixed after (Nat.lt_succ_self _),
          eliminatedRow done (inside j) other (inside i), if_neg after.not_gt]
        ring
    · have apart : (j : ℕ) ≠ k := Fin.val_ne_of_ne col
      have element := eliminatedOther done other apart (inside i) (inside j)
      rw [if_neg col]
      rcases lt_or_gt_of_ne other with before | after <;>
        rcases lt_or_gt_of_ne apart with first | last
      · rw [next.signedSame (.inl (by omega)), m.signedSame (.inl before),
          m.signedMixed le_rfl first, element, if_pos ⟨before, first⟩, elementComm m j]
        ring
      · rw [next.signedSame (.inl (by omega)), m.signedSame (.inl before),
          m.signedSame (.inr last.le), element, if_neg (by omega), elementComm m j]
      · rw [next.signedMixed after (by omega), m.signedMixed after.le first,
          m.signedMixed le_rfl first, element, if_neg (by omega), elementComm m j]
        ring
      · rw [next.signedSame (.inr last), m.signedSame (.inr last.le), m.signedSame (.inr last.le),
          element, if_neg (by omega), elementComm m j]

/- What was taken and given before the exchange of row `k` is so afterwards. -/
theorem eliminateGives {m next : Symmetric K} (size : m.size = n) {k : Fin n}
    (done : m.eliminate k = some next) (x y : Fin n → K) :
    blend k x y = m.signed n k *ᵥ blend k y x ↔
      blend (k + 1) x y = next.signed n (k + 1) *ᵥ blend (k + 1) y x := by
  have pivot : m.signed n k k k ≠ 0 := by
    rw [m.signedSame (.inr le_rfl)]
    exact eliminatePivot done
  rw [eliminateExchanges size done, ← blendMore k x y, ← blendMore k y x]
  exact exchangedGives pivot _ _

theorem sweepGives {m swept : Symmetric K} {k l : ℕ} (rows : k + l = n) (size : m.size = n)
    (done : m.sweep (List.range' k l) = some swept) (x y : Fin n → K) :
    blend k x y = m.signed n k *ᵥ blend k y x ↔ x = swept.matrix n *ᵥ y := by
  induction l generalizing k m with
  | zero =>
    obtain rfl : k = n := rows
    cases done
    rw [blendAll, blendAll, signedAll]
  | succ l ih =>
    obtain ⟨next, eliminated, done⟩ := Option.bind_eq_some_iff.mp done
    have step := eliminateGives size (k := ⟨k, by omega⟩) eliminated x y
    exact step.trans (ih (k := k + 1) (by omega) ((sizeEliminate eliminated).trans size) done)

/-! ### The inverse -/

def scaling (n : ℕ) (s : Array K) : Matrix (Fin n) (Fin n) K :=
  Matrix.diagonal fun i : Fin n => entry s i

theorem matrixRescale {m : Symmetric K} (le : n ≤ m.size) (s : Array K) :
    (m.rescale s).matrix n = scaling n s * m.matrix n * scaling n s := by
  ext i j
  rw [scaling, mul_diagonal, diagonal_mul, mul_comm (entry s i), rescale]
  refine (elementBuildComm (fun i j => ?_) (i.isLt.trans_le le) (j.isLt.trans_le le)).trans ?_
  · simp only [OrderedScalar.mul, elementComm m i j]
    exact mul_right_comm _ _ _
  · simp only [OrderedScalar.mul]
    rfl

theorem scaleBackSame (m : Symmetric K) (s : Array K) : m.scaleBack s = m.rescale s := by
  simp only [scaleBack, rescale, OrderedScalar.mul, mul_right_comm]

theorem sweepExact {m swept : Symmetric K} (size : m.size = n)
    (done : m.sweep (List.range n) = some swept) : swept.matrix n * m.matrix n = 1 := by
  refine mulVec_injective (funext fun x => ?_)
  rw [List.range_eq_range'] at done
  have gives := sweepGives (zero_add n) size done x (m.matrix n *ᵥ x)
  rw [blendNone, blendNone, signedNone] at gives
  rw [← mulVec_mulVec, one_mulVec]
  exact (gives.mp rfl).symm

theorem unitScaleEntry {m : Symmetric K} {i : ℕ} (inside : i < m.size) :
    entry m.unitScale i = 1 / Scalar.sqrt (m.element i i) := by
  rw [unitScale, Vector.entryMap _ (by simpa [diagonal] using inside), diagonal,
    entry_tabulate _ inside, OrderedScalar.div, OrderedScalar.one]

/- The scales vanish nowhere where an inverse is looked for at all. -/
theorem scalingUnit {m : Symmetric K} (le : n ≤ m.size)
    (positive : ∀ i < m.size, 0 < m.element i i) : IsUnit (scaling n m.unitScale) := by
  rw [scaling, isUnit_diagonal, Pi.isUnit_iff]
  intro i
  have inside : (i : ℕ) < m.size := i.isLt.trans_le le
  rw [unitScaleEntry inside, isUnit_iff_ne_zero]
  exact one_div_ne_zero (OrderedScalar.root (positive i inside))

theorem rescaleDefinite {m : Symmetric ℝ} (le : n ≤ m.size) {s : Array ℝ}
    (unit : IsUnit (scaling n s)) : ((m.rescale s).matrix n).PosDef ↔ (m.matrix n).PosDef := by
  have same : star (scaling n s) = scaling n s := by
    simp [scaling, star_eq_conjTranspose]
  rw [matrixRescale le]
  nth_rewrite 1 [← same]
  exact unit.posDef_star_left_conjugate_iff

/- A matrix that was inverted has a positive diagonal. -/
theorem invertDiagonal {m inverse : Symmetric K} (done : m.invert = .ok inverse) :
    ∀ i < m.size, 0 < m.element i i := by
  intro i inside
  rcases invertCases done with ⟨none, -⟩ | ⟨⟨one, positive⟩, -⟩ | scaled
  · omega
  · obtain rfl : i = 0 := by omega
    exact OrderedScalar.positive.mp positive
  · exact OrderedScalar.positive.mp ((invertScaledCases scaled).1 i inside)

theorem invertScaledExact {m inverse : Symmetric K} (size : m.size = n)
    (done : m.invertScaled = some inverse) : inverse.matrix n * m.matrix n = 1 := by
  obtain ⟨tested, swept, sweeping, rfl⟩ := invertScaledCases done
  have positive (i : ℕ) (inside : i < m.size) := OrderedScalar.positive.mp (tested i inside)
  have fits : (m.rescale m.unitScale).size = n := size
  rw [size] at sweeping
  have inverse := sweepExact fits sweeping
  rw [matrixRescale size.ge] at inverse
  have unit := scalingUnit size.ge positive
  rw [scaleBackSame, matrixRescale ((sizeSweep sweeping).trans fits).ge]
  refine unit.mul_right_cancel ?_
  rw [one_mul, mul_assoc, mul_assoc, mul_assoc, ← mul_assoc (scaling n m.unitScale) (m.matrix n),
    inverse, mul_one]

theorem invertExact {m inverse : Symmetric K} (size : m.size = n) (done : m.invert = .ok inverse) :
    inverse.matrix n * m.matrix n = 1 := by
  rcases invertCases done with ⟨none, -⟩ | ⟨⟨one, tested⟩, rfl⟩ | scaled
  · obtain rfl : 0 = n := none.symm.trans size
    exact Subsingleton.elim _ _
  · obtain rfl : 1 = n := one.symm.trans size
    have first : 0 < m.size := one.symm ▸ Nat.one_pos
    have positive := OrderedScalar.positive.mp tested
    ext i j
    rw [Subsingleton.elim i 0, Subsingleton.elim j 0, mul_apply, Fin.sum_univ_one, matrix, matrix,
      of_apply, of_apply, one_apply_eq, Fin.val_zero, elementSet m _ first first, OrderedScalar.div,
      OrderedScalar.one]
    exact one_div_mul_cancel positive.ne'
  · exact invertScaledExact size scaled

theorem invertDefinite {m inverse : Symmetric ℝ} (size : m.size = n)
    (definite : (m.matrix n).PosDef) (done : m.invert = .ok inverse) :
    (inverse.matrix n).PosDef := by
  rw [← inv_eq_left_inv (invertExact size done)]
  exact definite.inv

end Symmetric
end ParamFit
