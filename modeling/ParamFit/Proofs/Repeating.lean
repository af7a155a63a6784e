import ParamFit.Proofs.Bowl
import ParamFit.Proofs.Repair

/-! Forcing positive definite once more. What is stretched is stretched until its smallest eigenvalue, seen
with a unit diagonal, would be a fixed part of the largest one; but the stretch moves the largest one too,
and the next look compares with the precision. Whether the stretch was enough depends on how far it had to
go, so on the number of rows: all the diagonal together bounds how small the smallest eigenvalue can be. -/
namespace ParamFit
open Finset Matrix

namespace Symmetric
variable {m : Symmetric ℝ}

/-! ### The trace -/

theorem traceEigenvalues (m : Symmetric ℝ) :
    m.square.trace = ∑ i, m.squareHermitian.eigenvalues i :=
  m.squareHermitian.trace_eq_sum_eigenvalues

theorem eigenvalueBelow (rows : 0 < m.size) (i : Fin m.size) :
    m.squareHermitian.eigenvalues i ≤ m.highest :=
  (highestGreatest rows).2 (eigenvalueIndexed.mpr ⟨i, rfl⟩)

theorem traceBelowHighest (rows : 0 < m.size) : m.square.trace ≤ m.size * m.highest := by
  have all := sum_le_card_nsmul univ _ _ fun i _ => eigenvalueBelow rows i
  rwa [card_univ, Fintype.card_fin, nsmul_eq_mul, ← m.traceEigenvalues] at all

/- All eigenvalues but the smallest one are at most the largest one. -/
theorem traceBelowEnds (rows : 0 < m.size) :
    m.square.trace ≤ m.lowest + (m.size - 1) * m.highest := by
  obtain ⟨i, least⟩ := eigenvalueIndexed.mp (lowestLeast rows).1
  have others := sum_le_card_nsmul (univ.erase i) _ _ fun j _ => eigenvalueBelow rows j
  rw [card_erase_of_mem (mem_univ i), card_univ, Fintype.card_fin, nsmul_eq_mul,
    Nat.cast_pred rows] at others
  rw [m.traceEigenvalues, ← add_sum_erase _ _ (mem_univ i), least]
  exact add_le_add_right others _

end Symmetric

namespace ErrorMatrix
variable {m : Symmetric ℝ} {prec : Precision ℝ}

/-! ### Seen with a unit diagonal -/

section
variable (positive : ∀ i < m.size, 0 < m.element i i)
include positive

theorem unitOnes {i : ℕ} (inside : i < m.size) : (unitDiagonal m).element i i = 1 := by
  have root := (Real.sqrt_pos.mpr (positive i inside)).ne'
  rw [Symmetric.elementUnit inside inside]
  nth_rewrite 1 [← Real.mul_self_sqrt (positive i inside).le]
  field_simp

theorem unitTrace : (unitDiagonal m).square.trace = m.size := by
  have ones (i : Fin m.size) (_ : i ∈ univ) : (unitDiagonal m).square i i = 1 :=
    unitOnes positive i.isLt
  refine (sum_congr rfl ones).trans ?_
  rw [sum_const, card_univ, Fintype.card_fin, nsmul_eq_mul, mul_one]

theorem largestHighest (rows : 0 < m.size) : largest m = (unitDiagonal m).highest := by
  have above := Symmetric.traceBelowHighest (m := unitDiagonal m) rows
  rw [unitTrace positive] at above
  have one : 1 ≤ (unitDiagonal m).highest :=
    le_of_mul_le_mul_left ((mul_one _).trans_le above) (Nat.cast_pos.mpr rows)
  rw [largest, abs_of_pos (one_pos.trans_le one), max_eq_left one]

/- How small the smallest eigenvalue can be. -/
theorem leastAbove (rows : 0 < m.size) : m.size - (m.size - 1) * largest m ≤ least m := by
  have ends := Symmetric.traceBelowEnds (m := unitDiagonal m) rows
  rw [unitTrace positive, ← largestHighest positive rows] at ends
  exact sub_le_iff_le_add.mpr ends

/-! ### Seen after a stretch -/

variable {f : ℝ} (some : 0 < f)
include some

theorem stretchedPositive (k : ℕ) (inside : k < m.size) : 0 < (stretch m f).element k k :=
  (mul_pos (positive k inside) some).trans_eq (stretchDiagonal f inside).symm

theorem unitStretched {i j : ℕ} (left : i < m.size) (right : j < m.size) :
    (unitDiagonal (stretch m f)).element i j =
      f⁻¹ * ((unitDiagonal m).element i j + if i = j then f - 1 else 0) := by
  by_cases same : i = j
  · subst same
    rw [if_pos rfl, unitOnes positive left,
      unitOnes (m := stretch m f) (stretchedPositive positive some) left]
    field_simp
    ring
  · have split : f⁻¹ = (√f)⁻¹ * (√f)⁻¹ := by
      rw [← mul_inv, Real.mul_self_sqrt some.le]
    rw [if_neg same, add_zero, Symmetric.elementUnit (m := stretch m f) left right,
      Symmetric.elementUnit left right, stretchOther f left right same, stretchDiagonal f left,
      stretchDiagonal f right, Real.sqrt_mul (positive i left).le, Real.sqrt_mul (positive j right).le,
      mul_inv, mul_inv, split]
    ring

/- A stretch moves every eigenvalue towards one in the same measure. -/
theorem eigenvalueStretched {x : ℝ} : (unitDiagonal (stretch m f)).Eigenvalue x ↔
    (unitDiagonal m).Eigenvalue (f * x - (f - 1)) := by
  have same : (unitDiagonal (stretch m f)).matrix m.size = f⁻¹ •
      ((unitDiagonal m).matrix m.size + (f - 1) • (1 : Matrix (Fin m.size) (Fin m.size) ℝ)) := by
    ext i j
    refine (unitStretched positive some i.isLt j.isLt).trans ?_
    rw [Matrix.smul_apply, Matrix.add_apply, Matrix.smul_apply, one_apply, smul_eq_mul, smul_eq_mul,
      mul_ite, mul_one, mul_zero]
    exact congrArg _ (congrArg _ (if_congr Fin.ext_iff.symm rfl rfl))
  have applied (v : Fin m.size → ℝ) : (unitDiagonal (stretch m f)).matrix m.size *ᵥ v =
      f⁻¹ • ((unitDiagonal m).matrix m.size *ᵥ v + (f - 1) • v) := by
    rw [same, smul_mulVec, add_mulVec, smul_mulVec, one_mulVec]
  refine exists_congr fun (v : Fin m.size → ℝ) => and_congr_right fun _ => ?_
  change (unitDiagonal (stretch m f)).matrix m.size *ᵥ v = x • v ↔
    (unitDiagonal m).matrix m.size *ᵥ v = (f * x - (f - 1)) • v
  rw [applied, inv_smul_eq_iff₀ some.ne', ← eq_sub_iff_add_eq, smul_smul, ← sub_smul]

theorem leastStretched (rows : 0 < m.size) : least (stretch m f) = (least m + (f - 1)) / f := by
  have lowest := Symmetric.lowestLeast (m := unitDiagonal m) rows
  refine (Symmetric.lowestLeast (m := unitDiagonal (stretch m f)) rows).unique ⟨?_, fun x among => ?_⟩
  · refine (eigenvalueStretched positive some).mpr ?_
    rw [mul_div_cancel₀ _ some.ne', add_sub_cancel_right]
    exact lowest.1
  · have above := lowest.2 ((eigenvalueStretched positive some).mp among)
    rw [div_le_iff₀' some]
    exact le_sub_iff_add_le.mp above

theorem largestStretched (rows : 0 < m.size) :
    largest (stretch m f) = (largest m + (f - 1)) / f := by
  have highest := Symmetric.highestGreatest (m := unitDiagonal m) rows
  rw [largestHighest positive rows,
    largestHighest (m := stretch m f) (stretchedPositive positive some) rows]
  refine (Symmetric.highestGreatest (m := unitDiagonal (stretch m f)) rows).unique
    ⟨?_, fun x among => ?_⟩
  · refine (eigenvalueStretched positive some).mpr ?_
    rw [mul_div_cancel₀ _ some.ne', add_sub_cancel_right]
    exact highest.1
  · have below := highest.2 ((eigenvalueStretched positive some).mp among)
    rw [le_div_iff₀' some]
    exact sub_le_iff_le_add.mp below

end

/-! ### Once more -/

/- The stretch of a matrix is long enough to be accepted. -/
def Lasting (m : Symmetric ℝ) (prec : Precision ℝ) : Prop :=
  floor prec * (largest m + shortfall m) < 0.001 * largest m

section
variable (eps2 : 0 < prec.eps2) (large : ∀ i < m.size, prec.eps2 ≤ m.element i i)
  (some : 0 < shortfall m)
include eps2 large some

theorem stretchedLarge {i : ℕ} (inside : i < m.size) :
    prec.eps2 ≤ (stretch m (1 + shortfall m)).element i i := by
  have here := large i inside
  rw [stretchDiagonal _ inside]
  exact here.trans (le_mul_of_one_le_right (eps2.le.trans here) (by linarith))

variable (many : 1 < m.size)
include many

/- The ends of the spectrum after a stretch, and what is missing then. -/
theorem stretchedEnds : least (stretch m (1 + shortfall m)) = 0.001 * largest m / (1 + shortfall m) ∧
    largest (stretch m (1 + shortfall m)) = (largest m + shortfall m) / (1 + shortfall m) := by
  have positive (i : ℕ) (inside : i < m.size) : 0 < m.element i i := eps2.trans_le (large i inside)
  have longer : 0 < 1 + shortfall m := add_pos one_pos some
  rw [leastStretched positive longer (by omega), largestStretched positive longer (by omega),
    add_sub_cancel_left]
  refine ⟨congrArg (· / _) ?_, rfl⟩
  rw [shortfall, add_sub_cancel]

theorem stretchedShortfall :
    shortfall (stretch m (1 + shortfall m)) = 0.001 * shortfall m / (1 + shortfall m) := by
  obtain ⟨least, largest⟩ := stretchedEnds eps2 large some many
  rw [shortfall, least, largest]
  ring

theorem stretchedAccepted : Accepted (stretch m (1 + shortfall m)) prec ↔ Lasting m prec := by
  obtain ⟨least, largest⟩ := stretchedEnds eps2 large some many
  have longer : 0 < 1 + shortfall m := add_pos one_pos some
  have size : (stretch m (1 + shortfall m)).size = m.size := rfl
  have compared : floor prec * ErrorMatrix.largest (stretch m (1 + shortfall m)) <
      ErrorMatrix.least (stretch m (1 + shortfall m)) ↔ Lasting m prec := by
    rw [least, largest, ← mul_div_assoc, div_lt_div_iff_of_pos_right longer]
    rfl
  refine ⟨fun accepted => compared.mp (accepted.spectrum many), fun lasting => ?_⟩
  exact ⟨fun one => by omega, fun _ i inside => stretchedLarge eps2 large some inside,
    fun _ => compared.mpr lasting⟩

/- A stretch that was not long enough is followed by another one. -/
theorem stretchedFurther (short : ¬ Lasting m prec) :
    (standIn (stretch m (1 + shortfall m)) .madePosDef).makePosDef prec ≠
      standIn (stretch m (1 + shortfall m)) .madePosDef := by
  let e : ErrorMatrix ℝ := standIn (stretch m (1 + shortfall m)) .madePosDef
  have rows : 0 < e.inverse.size := Nat.zero_lt_of_lt many
  have refused : ¬ Accepted e.inverse prec := fun accepted =>
    short ((stretchedAccepted eps2 large some many).mp accepted)
  have covers (i : ℕ) (inside : i < e.inverse.size) : prec.eps2 ≤ e.inverse.element i i :=
    stretchedLarge eps2 large some inside
  have missing : 0 < shortfall e.inverse := by
    rw [show shortfall e.inverse = _ from stretchedShortfall eps2 large some many]
    exact div_pos (mul_pos (by norm_num) some) (add_pos one_pos some)
  have again : e.makePosDef prec = standIn (stretch e.inverse (1 + shortfall e.inverse)) .madePosDef :=
    (makePosDefForced rows eps2.le).stretches eps2.le refused covers many
  intro same
  have diagonal := stretchDiagonal (m := e.inverse) (1 + shortfall e.inverse) rows
  have grown : e.inverse.element 0 0 < e.inverse.element 0 0 * (1 + shortfall e.inverse) :=
    lt_mul_of_one_lt_right (eps2.trans_le (covers 0 rows)) (lt_add_of_pos_right 1 missing)
  rw [← diagonal] at grown
  exact grown.ne (congrArg (fun r => r.inverse.element 0 0) (again.symm.trans same)).symm

end

/- With few enough rows for the precision a stretch is always long enough. -/
theorem fewLasting (positive : ∀ i < m.size, 0 < m.element i i) (many : 1 < m.size)
    (refused : least m ≤ floor prec * largest m) (few : floor prec * (1000 * m.size + 1) ≤ 1) :
    0 < shortfall m ∧ Lasting m prec := by
  have rows : (2 : ℝ) ≤ m.size := Nat.ofNat_le_cast.mpr many
  have some := floorPositive prec
  have largest := largestAtLeast m
  have low : floor prec < 0.001 := by nlinarith
  have above := leastAbove positive (by omega)
  have reach : ErrorMatrix.largest m + shortfall m ≤
      (m.size + 0.001) * ErrorMatrix.largest m - m.size := by
    rw [shortfall]
    linarith
  have measured : floor prec * (m.size + 0.001) ≤ 0.001 := by linarith
  constructor
  · have less := mul_lt_mul_of_pos_right low (one_pos.trans_le largest)
    exact sub_pos.mpr (refused.trans_lt less)
  · calc floor prec * (ErrorMatrix.largest m + shortfall m)
        ≤ floor prec * ((m.size + 0.001) * ErrorMatrix.largest m - m.size) :=
          mul_le_mul_of_nonneg_left reach some.le
      _ = floor prec * (m.size + 0.001) * ErrorMatrix.largest m - floor prec * m.size := by ring
      _ < floor prec * (m.size + 0.001) * ErrorMatrix.largest m :=
          sub_lt_self _ (mul_pos some (by linarith))
      _ ≤ 0.001 * ErrorMatrix.largest m := mul_le_mul_of_nonneg_right measured (by linarith)

theorem Forced.settled {e r : ErrorMatrix ℝ} (forced : Forced e prec r) (fine : prec.eps ≤ 1)
    (eps2 : 0 < prec.eps2)
    (few : 1 < e.inverse.size → floor prec * (1000 * e.inverse.size + 1) ≤ 1) :
    Accepted r.inverse prec := by
  have large (i : ℕ) (inside : i < e.inverse.size) :
      prec.eps2 ≤ (lifted e.inverse prec).element i i := liftedDiagonal eps2.le inside
  have size : (lifted e.inverse prec).size = e.inverse.size := rfl
  cases forced with
  | accepted accepted => exact accepted
  | reset one =>
    have here : (e.inverse.set 0 0 1).element 0 0 = 1 :=
      e.inverse.elementSet 1 (by omega) (by omega)
    have single : (e.inverse.set 0 0 1).size = 1 := one
    exact ⟨fun _ => fine.trans_eq here.symm, fun many => absurd single many.ne',
      fun many => absurd single many.ne'⟩
  | shifted many some enough => exact ⟨fun one => absurd one many.ne', fun _ => large, fun _ => enough⟩
  | stretched many refused =>
    have positive (i : ℕ) (inside : i < (lifted e.inverse prec).size) :
        0 < (lifted e.inverse prec).element i i := eps2.trans_le (large i inside)
    obtain ⟨some, lasting⟩ := fewLasting positive many refused (few many)
    exact (stretchedAccepted (m := lifted e.inverse prec) eps2 large some many).mpr lasting

/-! ### Rows that cross -/

/- All rows equally long, and each leaning away from all others. -/
noncomputable def crossed (n : ℕ) (k c : ℝ) : Symmetric ℝ :=
  .build n fun i j => if i = j then k else -(k * c)

section
variable {n : ℕ} {k c : ℝ}

theorem crossedElement (k c : ℝ) {i j : ℕ} (left : i < n) (right : j < n) :
    (crossed n k c).element i j = if i = j then k else -(k * c) :=
  Symmetric.elementBuildComm (fun _ _ => if_congr eq_comm rfl rfl) left right

theorem crossedDiagonal (k c : ℝ) {i : ℕ} (inside : i < n) : (crossed n k c).element i i = k :=
  (crossedElement k c inside inside).trans (if_pos rfl)

theorem crossedUnit (long : 0 < k) : (unitDiagonal (crossed n k c)).matrix n =
    (1 + c) • (1 : Matrix (Fin n) (Fin n) ℝ) - c • vecMulVec 1 1 := by
  ext i j
  have unit := Symmetric.elementUnit (m := crossed n k c) i.isLt j.isLt
  rw [crossedElement k c i.isLt j.isLt, crossedDiagonal k c i.isLt, crossedDiagonal k c j.isLt,
    mul_assoc, ← mul_inv, Real.mul_self_sqrt long.le] at unit
  refine Eq.trans unit ?_
  rw [Matrix.sub_apply, Matrix.smul_apply, Matrix.smul_apply, vecMulVec_apply, one_apply]
  by_cases same : i = j
  · rw [if_pos (congrArg Fin.val same), if_pos same, mul_inv_cancel₀ long.ne']
    simp
  · rw [if_neg (Fin.val_ne_of_ne same), if_neg same]
    field_simp
    simp

/- A direction sees the same rows as all the others, or the sum of all of them. -/
theorem crossedEigenvalue (long : 0 < k) (many : 1 < n) {x : ℝ} :
    (unitDiagonal (crossed n k c)).Eigenvalue x ↔ x = 1 + c ∨ x = 1 + c - n * c := by
  have applied (v : Fin n → ℝ) : (unitDiagonal (crossed n k c)).matrix n *ᵥ v =
      (1 + c) • v - (c * (1 ⬝ᵥ v)) • 1 := by
    rw [crossedUnit long, sub_mulVec, smul_mulVec, one_mulVec, smul_mulVec, vecMulVec_mulVec,
      op_smul_eq_smul, smul_smul]
  have eigenvalue : (unitDiagonal (crossed n k c)).Eigenvalue x ↔
      ∃ v : Fin n → ℝ, v ≠ 0 ∧ (1 + c) • v - (c * (1 ⬝ᵥ v)) • 1 = x • v :=
    exists_congr fun (v : Fin n → ℝ) => and_congr_right fun _ => by
      rw [← applied]
      rfl
  have total : (1 : Fin n → ℝ) ⬝ᵥ 1 = n := by simp
  rw [eigenvalue]
  constructor
  · rintro ⟨v, nonzero, same⟩
    by_cases none : 1 ⬝ᵥ v = 0
    · left
      obtain ⟨i, seen⟩ := Function.ne_iff.mp nonzero
      have here := congrFun same i
      rw [none, mul_zero, zero_smul, sub_zero] at here
      exact (mul_right_cancel₀ seen here).symm
    · right
      have all := congrArg (1 ⬝ᵥ ·) same
      simp only [dotProduct_sub, dotProduct_smul, total, smul_eq_mul] at all
      refine mul_right_cancel₀ none (all.symm.trans ?_)
      ring
  · rintro (rfl | rfl)
    · let first : Fin n := ⟨0, by omega⟩
      let second : Fin n := ⟨1, many⟩
      have apart : first ≠ second := Fin.ne_of_val_ne zero_ne_one
      refine ⟨Pi.single first 1 - Pi.single second 1, fun zero => ?_, ?_⟩
      · have here := congrFun zero first
        rw [Pi.sub_apply, Pi.single_eq_same, Pi.single_eq_of_ne apart] at here
        norm_num at here
      · rw [dotProduct_sub, dotProduct_single, dotProduct_single]
        simp
    · refine ⟨1, fun zero => ?_, ?_⟩
      · have here := congrFun zero ⟨0, by omega⟩
        exact one_ne_zero here
      · rw [total, ← sub_smul]
        ring_nf

theorem crossedEnds (long : 0 < k) (many : 1 < n) (lean : 0 ≤ c) :
    least (crossed n k c) = 1 + c - n * c ∧ largest (crossed n k c) = 1 + c := by
  have rows : 0 < (crossed n k c).size := Nat.zero_lt_of_lt many
  have positive (i : ℕ) (inside : i < (crossed n k c).size) : 0 < (crossed n k c).element i i :=
    long.trans_eq (crossedDiagonal k c inside).symm
  have below : 1 + c - n * c ≤ 1 + c := sub_le_self _ (mul_nonneg n.cast_nonneg lean)
  have either {x : ℝ} := crossedEigenvalue (c := c) (x := x) long many
  constructor
  · refine (Symmetric.lowestLeast (m := unitDiagonal (crossed n k c)) rows).unique
      ⟨either.mpr (.inr rfl), fun x among => ?_⟩
    rcases either.mp among with rfl | rfl
    · exact below
    · exact le_rfl
  · rw [largestHighest positive rows]
    refine (Symmetric.highestGreatest (m := unitDiagonal (crossed n k c)) rows).unique
      ⟨either.mpr (.inl rfl), fun x among => ?_⟩
    rcases either.mp among with rfl | rfl
    · exact le_rfl
    · exact below

/- Rows that lean far enough are stretched twice. -/
theorem crossedFurther (eps2 : 0 < prec.eps2) (long : prec.eps2 ≤ k) (many : 1 < n) (lean : 1 ≤ c)
    (far : 0.001 ≤ (floor prec * (n + 0.001) - 0.001) * c) :
    ((usable (crossed n k c) 0).makePosDef prec).makePosDef prec ≠
      (usable (crossed n k c) 0).makePosDef prec := by
  have rows : (2 : ℝ) ≤ n := Nat.ofNat_le_cast.mpr many
  have some := floorPositive prec
  obtain ⟨least, largest⟩ := crossedEnds (k := k) (c := c) (eps2.trans_le long) many (by linarith)
  have large (i : ℕ) (inside : i < n) : prec.eps2 ≤ (crossed n k c).element i i :=
    long.trans_eq (crossedDiagonal k c inside).symm
  have deep : (2 : ℝ) * c ≤ n * c := mul_le_mul_of_nonneg_right rows (by linarith)
  have missing : shortfall (crossed n k c) = n * c - 0.999 * (1 + c) := by
    rw [shortfall, least, largest]
    ring
  have stretched : 0 < shortfall (crossed n k c) := by
    rw [missing]
    linarith
  have short : ¬ Lasting (crossed n k c) prec := by
    rw [Lasting, largest, missing]
    nlinarith
  have refused : ¬ Accepted (crossed n k c) prec := fun accepted => by
    have enough := accepted.spectrum many
    rw [least, largest] at enough
    nlinarith
  have once : (usable (crossed n k c) 0).makePosDef prec =
      standIn (stretch (crossed n k c) (1 + shortfall (crossed n k c))) .madePosDef :=
    (makePosDefForced (e := usable (crossed n k c) 0) (Nat.zero_lt_of_lt many) eps2.le).stretches
      eps2.le refused large many
  rw [once]
  exact stretchedFurther eps2 large stretched many short

end

/- Forcing twice is forcing once for all matrices with one row, and for all with few enough rows for the
precision; for more there is a matrix that is stretched a second time. -/
theorem makePosDefTwice {eps : ℝ} (positive : 0 < eps) (fine : eps < 1) {n : ℕ} (rows : 0 < n) :
    (∀ e : ErrorMatrix ℝ, e.inverse.size = n →
      (e.makePosDef (.ofEps eps)).makePosDef (.ofEps eps) = e.makePosDef (.ofEps eps)) ↔
    n = 1 ∨ floor (.ofEps eps) * (1000 * n + 1) ≤ 1 := by
  have eps2 := coarsePositive positive
  constructor
  · intro settles
    by_contra! apart
    obtain ⟨several, beyond⟩ := apart
    have many : 1 < n := by omega
    have beyond : 0 < floor (.ofEps eps) * (n + 0.001) - 0.001 := by linarith
    have coarse : (Precision.ofEps eps).eps2 ≤ 2 := by
      have root : √eps ≤ 1 := Real.sqrt_le_one.mpr fine.le
      change 2.0 * √eps ≤ 2
      linarith
    refine crossedFurther (k := 2) (c := max 1 (0.001 / (floor (.ofEps eps) * (n + 0.001) - 0.001)))
      eps2 coarse many (le_max_left _ _) ?_ (settles (usable (crossed n 2 _) 0) rfl)
    rw [← div_le_iff₀' beyond]
    exact le_max_right _ _
  · rintro few e rfl
    have forced := makePosDefForced (e := e) rows eps2.le
    refine (forced.settled fine.le eps2 fun many => ?_).kept (forced.size.symm ▸ rows) eps2.le
    exact few.resolve_left many.ne'

/- With the precision of the machine, up to 999 rows are few. -/
theorem makePosDefTwiceMachine : (0 : ℝ) < 2⁻¹ ^ 50 ∧ (2⁻¹ ^ 50 : ℝ) < 1 ∧
    (∀ e : ErrorMatrix ℝ, e.inverse.size = 999 →
      (e.makePosDef .machine).makePosDef .machine = e.makePosDef .machine) ∧
    ∃ e : ErrorMatrix ℝ, e.inverse.size = 1000 ∧
      (e.makePosDef .machine).makePosDef .machine ≠ e.makePosDef .machine := by
  have positive : (0 : ℝ) < 2⁻¹ ^ 50 := by positivity
  have fine : (2⁻¹ ^ 50 : ℝ) < 1 := by norm_num
  have least : floor (.machine : Precision ℝ) = 1.0e-6 := by
    rw [floor, Exact.max, machineEps2]
    exact max_eq_left (by norm_num)
  have twice {n : ℕ} (rows : 0 < n) : (∀ e : ErrorMatrix ℝ, e.inverse.size = n →
      (e.makePosDef .machine).makePosDef .machine = e.makePosDef .machine) ↔
        n = 1 ∨ floor (.machine : Precision ℝ) * (1000 * n + 1) ≤ 1 :=
    makePosDefTwice positive fine rows
  refine ⟨positive, fine, (twice (by decide)).mpr (.inr ?_), ?_⟩
  · rw [least]
    norm_num
  · by_contra! settles
    have few := ((twice (n := 1000) (by decide)).mp settles).resolve_left (by decide)
    rw [least] at few
    norm_num at few

/- With a precision of a hundredth, two rows that cross are too many. -/
theorem makePosDefTwiceApart :
    ¬ ∀ (eps : ℝ) (e : ErrorMatrix ℝ), 0 < eps → eps < 1 → 0 < e.inverse.size →
      (e.makePosDef (.ofEps eps)).makePosDef (.ofEps eps) = e.makePosDef (.ofEps eps) := by
  intro always
  have coarse : (Precision.ofEps (0.01 : ℝ)).eps2 = 0.2 := by
    have root : √(0.01 : ℝ) = 0.1 := by
      rw [Real.sqrt_eq_iff_mul_self_eq (by norm_num) (by norm_num)]
      norm_num
    change 2.0 * √0.01 = 0.2
    rw [root]
    norm_num
  have high := floorCovers (.ofEps (0.01 : ℝ))
  rw [coarse] at high
  refine crossedFurther (n := 2) (k := 1) (c := 2) (coarse ▸ by norm_num) (coarse ▸ by norm_num)
    one_lt_two one_le_two ?_ (always 0.01 _ (by norm_num) (by norm_num) two_pos)
  norm_num
  linarith

end ErrorMatrix
end ParamFit
