import ParamFit.Proofs.Forced

/-! What forcing a matrix positive definite does to it. A matrix whose diagonal is large enough and whose
smallest eigenvalue, seen with a unit diagonal, is large enough against the largest one is accepted, and
its estimate comes back as it was. Any other has its diagonal raised, or stretched, or both; whatever is
done, the result is positive definite, has the old elements beside its diagonal, and says that it was
forced. -/
namespace ParamFit
open Finset Matrix
variable {n : ℕ}

/-! ### The ends of a spectrum -/

namespace Symmetric

def Eigenvalue (m : Symmetric ℝ) (x : ℝ) : Prop := ∃ v, v ≠ 0 ∧ m.square *ᵥ v = x • v

noncomputable def lowest (m : Symmetric ℝ) : ℝ := (Spectral.eigenvalues m).headD 0

noncomputable def highest (m : Symmetric ℝ) : ℝ := (Spectral.eigenvalues m).getLastD 0

variable {m : Symmetric ℝ}

theorem eigenvalueRoot {x : ℝ} : m.square.charpoly.IsRoot x ↔ m.Eigenvalue x := by
  rw [Polynomial.IsRoot, Matrix.eval_charpoly, ← exists_mulVec_eq_zero_iff]
  refine exists_congr fun v => and_congr_right fun _ => ?_
  rw [sub_mulVec, sub_eq_zero, scalar_apply, ← smul_one_eq_diagonal, smul_mulVec, one_mulVec, eq_comm]

theorem eigenvalueListed {x : ℝ} : x ∈ Spectral.eigenvalues m ↔ m.Eigenvalue x := by
  rw [← eigenvalueRoot]
  refine (Multiset.mem_sort _).trans (Polynomial.mem_roots'.trans (and_iff_right ?_))
  exact m.square.charpoly_monic.ne_zero

theorem eigenvalueIndexed {x : ℝ} :
    m.Eigenvalue x ↔ ∃ i, m.squareHermitian.eigenvalues i = x := by
  rw [← eigenvalueListed]
  refine (Multiset.mem_sort _).trans ?_
  rw [m.squareHermitian.roots_charpoly_eq_eigenvalues]
  simp

theorem eigenvaluesSome (rows : 0 < m.size) : Spectral.eigenvalues m ≠ [] :=
  List.ne_nil_of_mem (eigenvalueListed.mpr (eigenvalueIndexed.mpr ⟨⟨0, rows⟩, rfl⟩))

theorem lowestLeast (rows : 0 < m.size) : IsLeast {x | m.Eigenvalue x} m.lowest := by
  have first : m.lowest = (Spectral.eigenvalues m).head (eigenvaluesSome rows) := by
    rw [lowest, List.headD_eq_head?_getD, List.head?_eq_some_head (eigenvaluesSome rows)]
    rfl
  rw [first]
  refine ⟨eigenvalueListed.mp (List.head_mem _), fun x among => ?_⟩
  rw [← first]
  exact m.leastEigenvalue (eigenvalueRoot.mpr among)

theorem highestGreatest (rows : 0 < m.size) : IsGreatest {x | m.Eigenvalue x} m.highest := by
  have ordered : (Spectral.eigenvalues m).Pairwise (· ≤ ·) :=
    Multiset.pairwise_sort m.square.charpoly.roots _
  have last : m.highest = (Spectral.eigenvalues m).getLast (eigenvaluesSome rows) := by
    rw [highest, List.getLastD_eq_getLast?, List.getLast?_eq_some_getLast (eigenvaluesSome rows)]
    rfl
  rw [last]
  refine ⟨eigenvalueListed.mp (List.getLast_mem _), fun x among => ?_⟩
  exact ordered.rel_getLast (eigenvalueListed.mpr among)

end Symmetric

/-! ### Diagonals -/

namespace ErrorMatrix
variable {m : Symmetric ℝ} {prec : Precision ℝ}

theorem floorCovers (prec : Precision ℝ) : prec.eps2 ≤ floor prec := by
  rw [floor, Exact.max]
  exact le_max_right _ _

theorem foldAbove {l : List ℝ} {a c : ℝ} (start : c ≤ a) (all : ∀ x ∈ l, c ≤ x) :
    c ≤ l.foldl Scalar.min a := by
  induction l generalizing a with
  | nil => exact start
  | cons x l ih =>
    rw [List.foldl_cons, Exact.min]
    exact ih (le_min start (all x (.head _))) fun y later => all y (.tail _ later)

theorem diagonalListed {i : ℕ} (inside : i < m.size) : m.element i i ∈ m.diagonal.toList := by
  have within : i < m.diagonal.size := by simpa [Symmetric.diagonal] using inside
  rw [← Symmetric.entryDiagonal inside, entry, Array.getD, dif_pos within]
  exact Array.getElem_mem_toList _

theorem unshifted (rows : 0 < m.size) (large : ∀ i < m.size, prec.eps2 ≤ m.element i i) :
    shift m prec = 0 := by
  rw [shift, ← Array.foldl_toList]
  refine if_neg (not_lt.mpr (foldAbove (large 0 rows) fun x among => ?_))
  obtain ⟨i, inside, rfl⟩ := List.getElem_of_mem among
  have row : i < m.size := by simpa [Symmetric.diagonal] using inside
  have here := large i row
  rw [← Symmetric.entryDiagonal row] at here
  simpa [entry, Symmetric.diagonal, row] using here

/- What is lifted has enough on its diagonal afterwards: what was there and what is added. -/
theorem liftRaises (eps2 : 0 ≤ prec.eps2) {i : ℕ} (inside : i < m.size) :
    (lift m (shift m prec)).element i i = m.element i i + shift m prec ∧
      prec.eps2 ≤ m.element i i + shift m prec := by
  have enough : prec.eps2 ≤ m.element i i + shift m prec := by
    rcases shiftCases m prec with raised | ⟨none, large⟩
    · rw [shift, ← Array.foldl_toList] at raised ⊢
      have least := (foldMin m.diagonal.toList (m.element 0 0)).2 _ (diagonalListed inside)
      have covers := floorCovers prec
      split at raised
      case isFalse => exact absurd raised (lt_irrefl _)
      case isTrue low =>
        rw [if_pos low]
        change prec.eps2 ≤ m.element i i + (1 + floor prec - m.diagonal.toList.foldl _ _)
        linarith
    · rw [none, add_zero]
      exact large i inside
  refine ⟨?_, enough⟩
  rw [lift, Symmetric.elementBuild _ le_rfl inside, if_pos rfl]
  exact if_neg (not_lt.mpr (eps2.trans enough))

/- A matrix that was given another diagonal. -/
theorem replacedOther (f : ℕ → ℝ) {i j : ℕ} (left : i < m.size) (right : j < m.size) (other : i ≠ j) :
    (Symmetric.build m.size fun i j => if i = j then f i else m.element i j).element i j =
      m.element i j := by
  have below {i j : ℕ} (col : j ≤ i) (row : i < m.size) (other : i ≠ j) :
      (Symmetric.build m.size fun i j => if i = j then f i else m.element i j).element i j =
        m.element i j := by
    rw [Symmetric.elementBuild _ col row, if_neg other]
  rcases Nat.le_total j i with col | row
  · exact below col left other
  · rw [Symmetric.elementComm, m.elementComm]
    exact below row right other.symm

theorem liftOther (amount : ℝ) {i j : ℕ} (left : i < m.size) (right : j < m.size) (other : i ≠ j) :
    (lift m amount).element i j = m.element i j :=
  replacedOther _ left right other

theorem stretchOther (factor : ℝ) {i j : ℕ} (left : i < m.size) (right : j < m.size) (other : i ≠ j) :
    (stretch m factor).element i j = m.element i j :=
  replacedOther _ left right other

/-! ### What is accepted -/

/- The ends of the spectrum of a matrix, seen with a unit diagonal; the upper one is at least one. -/
noncomputable def least (m : Symmetric ℝ) : ℝ := (unitDiagonal m).lowest

noncomputable def largest (m : Symmetric ℝ) : ℝ := max |(unitDiagonal m).highest| 1

structure Accepted (m : Symmetric ℝ) (prec : Precision ℝ) : Prop where
  single : m.size = 1 → prec.eps ≤ m.element 0 0
  diagonal : 1 < m.size → ∀ i < m.size, prec.eps2 ≤ m.element i i
  spectrum : 1 < m.size → floor prec * largest m < least m

/- What is missing from the smallest eigenvalue. -/
noncomputable def shortfall (m : Symmetric ℝ) : ℝ := 0.001 * largest m - least m

noncomputable def lifted (m : Symmetric ℝ) (prec : Precision ℝ) : Symmetric ℝ := lift m (shift m prec)

theorem liftedSame (eps2 : 0 ≤ prec.eps2) (rows : 0 < m.size)
    (large : ∀ i < m.size, prec.eps2 ≤ m.element i i) : lifted m prec = m := by
  rw [lifted, unshifted rows large]
  exact liftSame fun i inside => eps2.trans (large i inside)

/- What an estimate becomes. -/
inductive Forced (e : ErrorMatrix ℝ) (prec : Precision ℝ) : ErrorMatrix ℝ → Prop where
  | accepted (accepted : Accepted e.inverse prec) : Forced e prec e
  | reset (one : e.inverse.size = 1) (small : e.inverse.element 0 0 < prec.eps) :
    Forced e prec (standIn (e.inverse.set 0 0 1) .madePosDef)
  | shifted (many : 1 < e.inverse.size) (some : 0 < shift e.inverse prec)
    (enough : floor prec * largest (lifted e.inverse prec) < least (lifted e.inverse prec)) :
    Forced e prec (standIn (lifted e.inverse prec) .madePosDef)
  | stretched (many : 1 < e.inverse.size)
    (refused : least (lifted e.inverse prec) ≤ floor prec * largest (lifted e.inverse prec)) :
    Forced e prec
      (standIn (stretch (lifted e.inverse prec) (1 + shortfall (lifted e.inverse prec))) .madePosDef)

theorem makePosDefForced {e : ErrorMatrix ℝ} (rows : 0 < e.inverse.size) (eps2 : 0 ≤ prec.eps2) :
    Forced e prec (e.makePosDef prec) := by
  have ends : Scalar.max (Scalar.abs ((Spectral.eigenvalues (unitDiagonal
      (lift e.inverse (shift e.inverse prec)))).getLastD 0)) 1 =
        largest (lifted e.inverse prec) := Exact.max _ _
  rw [makePosDef]
  split
  case isTrue one =>
    split
    case isTrue small => exact .reset one small
    case isFalse large => exact .accepted ⟨fun _ => not_lt.mp large, by omega, by omega⟩
  case isFalse other =>
    have many : 1 < e.inverse.size := by omega
    dsimp only
    rw [ends]
    split
    case isTrue enough =>
      split
      case isTrue some => exact .shifted many some enough
      case isFalse unraised =>
        obtain ⟨none, large⟩ := (shiftCases e.inverse prec).resolve_left unraised
        have same : lifted e.inverse prec = e.inverse := by
          rw [lifted, none]
          exact liftSame fun i inside => eps2.trans (large i inside)
        have enough : floor prec * largest (lifted e.inverse prec) < least (lifted e.inverse prec) :=
          enough
        rw [same] at enough
        exact .accepted ⟨by omega, fun _ => large, fun _ => enough⟩
    case isFalse refused => exact .stretched many (not_lt.mp refused)

section
variable {e r : ErrorMatrix ℝ}

/- What is accepted needs no lift. -/
theorem Accepted.unlifted (accepted : Accepted m prec) (eps2 : 0 ≤ prec.eps2) (many : 1 < m.size) :
    lifted m prec = m :=
  liftedSame eps2 (by omega) (accepted.diagonal many)

namespace Forced
variable (forced : Forced e prec r)
include forced

theorem size : r.inverse.size = e.inverse.size := by
  cases forced <;> rfl

theorem kept (eps2 : 0 ≤ prec.eps2) (accepted : Accepted e.inverse prec) : r = e := by
  cases forced with
  | accepted => rfl
  | reset one small => exact absurd small (not_lt.mpr (accepted.single one))
  | shifted many some =>
    exact absurd some (unshifted (by omega) (accepted.diagonal many)).not_gt
  | stretched many refused =>
    rw [accepted.unlifted eps2 many] at refused
    exact absurd refused (not_le.mpr (accepted.spectrum many))

theorem marked (refused : ¬ Accepted e.inverse prec) : r.status = .madePosDef ∧ r.dcovar = 1 := by
  cases forced with
  | accepted accepted => exact absurd accepted refused
  | reset | shifted | stretched => exact ⟨rfl, rfl⟩

theorem beside {i j : ℕ} (left : i < e.inverse.size) (right : j < e.inverse.size) (other : i ≠ j) :
    r.inverse.element i j = e.inverse.element i j := by
  cases forced with
  | accepted => rfl
  | reset one => omega
  | shifted => exact liftOther _ left right other
  | stretched =>
    have outer := stretchOther (m := lifted e.inverse prec)
      (1 + shortfall (lifted e.inverse prec)) left right other
    exact outer.trans (liftOther _ left right other)

/- What is refused with enough on its diagonal is stretched. -/
theorem stretches (eps2 : 0 ≤ prec.eps2) (refused : ¬ Accepted e.inverse prec)
    (large : ∀ i < e.inverse.size, prec.eps2 ≤ e.inverse.element i i) (many : 1 < e.inverse.size) :
    r = standIn (stretch e.inverse (1 + shortfall e.inverse)) .madePosDef := by
  cases forced with
  | accepted accepted => exact absurd accepted refused
  | reset one => omega
  | shifted _ some => exact absurd some (unshifted (by omega) large).not_gt
  | stretched => rw [liftedSame eps2 (by omega) large]

end Forced

theorem Accepted.kept (accepted : Accepted e.inverse prec) (rows : 0 < e.inverse.size)
    (eps2 : 0 ≤ prec.eps2) : e.makePosDef prec = e :=
  (makePosDefForced rows eps2).kept eps2 accepted

theorem liftedDiagonal (eps2 : 0 ≤ prec.eps2) {i : ℕ} (inside : i < m.size) :
    prec.eps2 ≤ (lifted m prec).element i i := by
  obtain ⟨raised, enough⟩ := liftRaises eps2 inside
  exact enough.trans_eq raised.symm

theorem largestAtLeast (m : Symmetric ℝ) : 1 ≤ largest m := le_max_right _ _

theorem spectrumDefinite (positive : ∀ i < m.size, 0 < m.element i i)
    (enough : floor prec * largest m < least m) : m.square.PosDef := by
  refine acceptedDefinite (m := m) rfl positive (lt_trans ?_ enough)
  exact mul_pos (floorPositive prec) (one_pos.trans_le (largestAtLeast m))

theorem shortfallDefinite (positive : ∀ i < m.size, 0 < m.element i i) :
    (stretch m (1 + shortfall m)).square.PosDef := by
  have left : least m + (1 + shortfall m - 1) = 0.001 * largest m := by
    rw [shortfall]
    ring
  refine stretchedDefinite (m := m) rfl positive (lt_of_lt_of_eq ?_ left.symm)
  exact mul_pos (by norm_num) (one_pos.trans_le (largestAtLeast m))

theorem Forced.definite (forced : Forced e prec r) (rows : 0 < e.inverse.size) (eps : 0 < prec.eps)
    (eps2 : 0 < prec.eps2) : r.inverse.square.PosDef := by
  have positive (i : ℕ) (inside : i < e.inverse.size) : 0 < (lifted e.inverse prec).element i i :=
    eps2.trans_le (liftedDiagonal eps2.le inside)
  have single {m : Symmetric ℝ} (one : m.size = 1) (positive : 0 < m.element 0 0) :
      m.square.PosDef := by
    have whole := Symmetric.onlyDefinite positive
    rw [← one] at whole
    exact whole
  cases forced with
  | accepted accepted =>
    by_cases one : e.inverse.size = 1
    · exact single one (eps.trans_le (accepted.single one))
    · have many : 1 < e.inverse.size := by omega
      exact spectrumDefinite (fun i inside => eps2.trans_le (accepted.diagonal many i inside))
        (accepted.spectrum many)
  | reset one small =>
    refine single one ?_
    exact one_pos.trans_eq (e.inverse.elementSet 1 (by omega) (by omega)).symm
  | shifted many some enough => exact spectrumDefinite (m := lifted e.inverse prec) positive enough
  | stretched => exact shortfallDefinite (m := lifted e.inverse prec) positive

/- Where the least that is accepted is below what is aimed at, forcing makes a diagonal larger. -/
theorem Forced.grows (forced : Forced e prec r) (refused : ¬ Accepted e.inverse prec)
    (eps : prec.eps ≤ 1) (eps2 : 0 < prec.eps2) (low : floor prec < 0.001) :
    e.inverse.element 0 0 < r.inverse.element 0 0 := by
  cases forced with
  | accepted accepted => exact absurd accepted refused
  | reset one small =>
    have here := e.inverse.elementSet 1 (i := 0) (j := 0) (by omega) (by omega)
    exact (small.trans_le eps).trans_eq here.symm
  | shifted many some =>
    obtain ⟨raised, -⟩ := liftRaises (m := e.inverse) eps2.le (i := 0) (by omega)
    exact (lt_add_of_pos_right _ some).trans_eq raised.symm
  | stretched many refused =>
    obtain ⟨raised, -⟩ := liftRaises (m := e.inverse) eps2.le (i := 0) (by omega)
    have positive := eps2.trans_le (liftedDiagonal (m := e.inverse) eps2.le (i := 0) (by omega))
    have some : 0 < shortfall (lifted e.inverse prec) := by
      have more := mul_lt_mul_of_pos_right low
        (one_pos.trans_le (largestAtLeast (lifted e.inverse prec)))
      exact sub_pos.mpr (refused.trans_lt more)
    have unlowered : 0 ≤ shift e.inverse prec := by
      rcases shiftCases e.inverse prec with raised | ⟨none, -⟩
      · exact raised.le
      · exact none.ge
    have stretched := stretchDiagonal (m := lifted e.inverse prec) (i := 0)
      (1 + shortfall (lifted e.inverse prec)) (by exact Nat.zero_lt_of_lt many)
    refine lt_of_lt_of_eq ?_ stretched.symm
    calc e.inverse.element 0 0 ≤ (lifted e.inverse prec).element 0 0 :=
          (le_add_of_nonneg_right unlowered).trans_eq raised.symm
      _ < (lifted e.inverse prec).element 0 0 * (1 + shortfall (lifted e.inverse prec)) :=
          lt_mul_of_one_lt_right positive (lt_add_of_pos_right 1 some)

end

/-! ### What is delivered -/

theorem coarsePositive {eps : ℝ} (positive : 0 < eps) : 0 < (Precision.ofEps eps).eps2 :=
  mul_pos (by norm_num) (Real.sqrt_pos.mpr positive)

/- Forcing delivers a positive definite matrix that differs on the diagonal alone. What is accepted comes
back as it was; what is refused comes back marked. So an estimate comes back unchanged exactly when it is
accepted, unless it bore the mark before: then its diagonal tells, if the precision lets it grow. -/
theorem makePosDefDelivers {eps : ℝ} (positive : 0 < eps) {e : ErrorMatrix ℝ}
    (rows : 0 < e.inverse.size) :
    let prec := Precision.ofEps eps
    let r := e.makePosDef prec
    (r.inverse.size = e.inverse.size ∧ r.inverse.square.PosDef ∧
      ∀ i < e.inverse.size, ∀ j < e.inverse.size, i ≠ j →
        r.inverse.element i j = e.inverse.element i j) ∧
    (Accepted e.inverse prec → r = e) ∧
    (¬ Accepted e.inverse prec → r.status = .madePosDef ∧ r.dcovar = 1) ∧
    (e.status ≠ .madePosDef ∨ e.dcovar ≠ 1 ∨ eps ≤ 1 ∧ floor prec < 0.001 →
      (r = e ↔ Accepted e.inverse prec)) := by
  intro prec r
  have eps2 : 0 < prec.eps2 := coarsePositive positive
  have forced : Forced e prec r := makePosDefForced rows eps2.le
  refine ⟨⟨forced.size, forced.definite rows positive eps2, fun i left j right other =>
    forced.beside left right other⟩, forced.kept eps2.le, forced.marked, fun tells => ?_⟩
  refine ⟨fun same => ?_, forced.kept eps2.le⟩
  by_contra refused
  obtain ⟨status, dcovar⟩ := forced.marked refused
  rcases tells with unmarked | apart | ⟨fine, low⟩
  · exact unmarked (same ▸ status)
  · exact apart (same ▸ dcovar)
  · have grown := forced.grows refused fine eps2 low
    rw [same] at grown
    exact lt_irrefl _ grown

/- Two rows of which no matrix that is positive definite can be made without a longer diagonal. -/
theorem makePosDefDeliversCrossed :
    let e : ErrorMatrix ℝ := .usable (.build 2 fun i j => if i = j then 1 else 2) 0
    let r := e.makePosDef (.ofEps (2⁻¹ ^ 50))
    (0 : ℝ) < 2⁻¹ ^ 50 ∧ 0 < e.inverse.size ∧ r.inverse.square.PosDef ∧
      r.inverse.element 1 0 = 2 ∧ r.status = .madePosDef ∧ r ≠ e := by
  intro e r
  have positive : (0 : ℝ) < 2⁻¹ ^ 50 := by positivity
  obtain ⟨⟨-, definite, beside⟩, kept, marked, exactly⟩ :=
    makePosDefDelivers positive (e := e) two_pos
  have square : e.inverse.matrix 2 = !![1, 2; 2, 1] := by
    refine (Symmetric.matrixBuild fun i j => if_congr eq_comm rfl rfl).trans ?_
    ext i j
    fin_cases i <;> fin_cases j <;> rfl
  have refused : ¬ Accepted e.inverse (.ofEps (2⁻¹ ^ 50)) := fun accepted => by
    rw [kept accepted] at definite
    have minor : 0 < (e.inverse.matrix 2).det := definite.det_pos
    rw [square, det_fin_two_of] at minor
    norm_num at minor
  have unmarked : e.status ≠ .madePosDef := nofun
  exact ⟨positive, two_pos, definite, beside 1 one_lt_two 0 two_pos one_ne_zero,
    (marked refused).1, fun same => refused ((exactly (.inl unmarked)).mp same)⟩

/- The one that stands in for a number too small for the precision is too small itself, where the
precision is no better than two: an estimate that was forced before stays, and was not accepted. -/
theorem makePosDefKeepsRefused :
    ¬ ∀ (eps : ℝ) (e : ErrorMatrix ℝ), 0 < eps → 0 < e.inverse.size →
      (e.makePosDef (.ofEps eps) = e ↔ Accepted e.inverse (.ofEps eps)) := by
  intro exactly
  let e : ErrorMatrix ℝ := .standIn (.identity 1) .madePosDef
  have one : e.inverse.size = 1 := rfl
  have small : e.inverse.element 0 0 < (Precision.ofEps 2).eps := one_lt_two (α := ℝ)
  have unchanged : e.makePosDef (.ofEps 2) = e := by
    rw [makePosDef, if_pos one, if_pos small]
    rfl
  have accepted := (exactly 2 e two_pos one_pos).mp unchanged
  exact absurd (accepted.single one) (not_le.mpr small)

end ErrorMatrix
end ParamFit
