import ParamFit.Proofs.Convergence
import ParamFit.Proofs.Fitting

/-! The metric of a descent over exact numbers. A correction by a move and the change of the gradient
along it takes the change to the move; so where the gradient fell along the move, the corrected matrix
is not positive definite, and where it rose, it is as definite as the matrix before. A move that shows
no curvature corrects nothing. -/
namespace ParamFit
open Finset Matrix
variable {n : ℕ}

/-! ### Corrections -/

section
variable (v : Matrix (Fin n) (Fin n) ℝ) (dx dg : Fin n → ℝ)

/- The correction of rank two. -/
noncomputable def corrected : Matrix (Fin n) (Fin n) ℝ :=
  v + ((1 / (dx ⬝ᵥ dg)) • vecMulVec dx dx - (1 / (dg ⬝ᵥ v *ᵥ dg)) • vecMulVec (v *ᵥ dg) (v *ᵥ dg))

/- The direction of the further correction, which the change of the gradient does not see. -/
noncomputable def tilt : Fin n → ℝ := (1 / (dx ⬝ᵥ dg)) • dx - (1 / (dg ⬝ᵥ v *ᵥ dg)) • v *ᵥ dg

noncomputable def updated : Matrix (Fin n) (Fin n) ℝ :=
  if dx ⬝ᵥ dg > dg ⬝ᵥ v *ᵥ dg then
    corrected v dx dg + (dg ⬝ᵥ v *ᵥ dg) • vecMulVec (tilt v dx dg) (tilt v dx dg)
  else corrected v dx dg

variable {v dx dg}

theorem outerMulVec (a z : Fin n → ℝ) : vecMulVec a a *ᵥ z = (a ⬝ᵥ z) • a := by
  rw [vecMulVec_mulVec, op_smul_eq_smul]

theorem outerForm (a z : Fin n → ℝ) : z ⬝ᵥ vecMulVec a a *ᵥ z = (a ⬝ᵥ z) * (a ⬝ᵥ z) := by
  rw [outerMulVec, dotProduct_smul, smul_eq_mul, dotProduct_comm z]

theorem outerHermitian (a : Fin n → ℝ) : (vecMulVec a a).IsHermitian := by
  ext i j
  exact mul_comm _ _

theorem formSwap (hermitian : v.IsHermitian) (y z : Fin n → ℝ) : y ⬝ᵥ v *ᵥ z = z ⬝ᵥ v *ᵥ y := by
  rw [dotProduct_mulVec, ← mulVec_transpose, dotProduct_comm,
    ← conjTranspose_eq_transpose_of_trivial, hermitian]

theorem correctedForm (z : Fin n → ℝ) : z ⬝ᵥ corrected v dx dg *ᵥ z =
    z ⬝ᵥ v *ᵥ z + 1 / (dx ⬝ᵥ dg) * ((dx ⬝ᵥ z) * (dx ⬝ᵥ z)) -
      1 / (dg ⬝ᵥ v *ᵥ dg) * ((z ⬝ᵥ v *ᵥ dg) * (z ⬝ᵥ v *ᵥ dg)) := by
  simp only [corrected, add_mulVec, sub_mulVec, smul_mulVec, dotProduct_add, dotProduct_sub,
    dotProduct_smul, outerForm, smul_eq_mul, dotProduct_comm (v *ᵥ dg) z]
  ring

theorem correctedHermitian (hermitian : v.IsHermitian) : (corrected v dx dg).IsHermitian :=
  hermitian.add (((outerHermitian dx).smul (.all _)).sub ((outerHermitian _).smul (.all _)))

/- What is left of a vector without its part along the change of the gradient. -/
theorem remainderForm (definite : v.PosDef) (changed : dg ≠ 0) (z : Fin n → ℝ) :
    let c := (z ⬝ᵥ v *ᵥ dg) / (dg ⬝ᵥ v *ᵥ dg)
    (z - c • dg) ⬝ᵥ v *ᵥ (z - c • dg) =
      z ⬝ᵥ v *ᵥ z - 1 / (dg ⬝ᵥ v *ᵥ dg) * ((z ⬝ᵥ v *ᵥ dg) * (z ⬝ᵥ v *ᵥ dg)) := by
  intro c
  have model : dg ⬝ᵥ v *ᵥ dg ≠ 0 := (definite.dotProduct_mulVec_pos changed).ne'
  simp only [mulVec_sub, mulVec_smul, dotProduct_sub, sub_dotProduct, dotProduct_smul, smul_dotProduct,
    smul_eq_mul, formSwap definite.isHermitian dg z]
  have whole : c * (dg ⬝ᵥ v *ᵥ dg) = z ⬝ᵥ v *ᵥ dg := div_mul_cancel₀ _ model
  rw [whole, sub_self, mul_zero, sub_zero, one_div_mul_eq_div, ← div_mul_eq_mul_div]

theorem correctedDefinite (definite : v.PosDef) (moved : 0 < dx ⬝ᵥ dg) :
    (corrected v dx dg).PosDef := by
  have changed : dg ≠ 0 := fun zero => by simp [zero] at moved
  refine .of_dotProduct_mulVec_pos (correctedHermitian definite.isHermitian) fun z nonzero => ?_
  let c := (z ⬝ᵥ v *ᵥ dg) / (dg ⬝ᵥ v *ᵥ dg)
  have form : z ⬝ᵥ corrected v dx dg *ᵥ z = (z - c • dg) ⬝ᵥ v *ᵥ (z - c • dg) +
      1 / (dx ⬝ᵥ dg) * ((dx ⬝ᵥ z) * (dx ⬝ᵥ z)) := by
    rw [correctedForm, remainderForm definite changed z]
    ring
  have gained : 0 ≤ 1 / (dx ⬝ᵥ dg) * ((dx ⬝ᵥ z) * (dx ⬝ᵥ z)) :=
    mul_nonneg (one_div_pos.mpr moved).le (mul_self_nonneg _)
  rw [star_trivial, form]
  by_cases along : z - c • dg = 0
  · -- all of it lies along the change, and there the move counts
    have same : z = c • dg := sub_eq_zero.mp along
    have some : dx ⬝ᵥ z ≠ 0 := by
      rw [same, dotProduct_smul, smul_eq_mul]
      refine mul_ne_zero (fun none => nonzero ?_) moved.ne'
      rw [same, none, zero_smul]
    rw [along, mulVec_zero, dotProduct_zero, zero_add]
    exact mul_pos (one_div_pos.mpr moved) (mul_self_pos.mpr some)
  · exact add_pos_of_pos_of_nonneg (definite.dotProduct_mulVec_pos along) gained

theorem updatedDefinite (definite : v.PosDef) (moved : 0 < dx ⬝ᵥ dg) : (updated v dx dg).PosDef := by
  have corrected := correctedDefinite definite moved
  rw [updated]
  split
  · have changed : dg ≠ 0 := fun zero => by simp [zero] at moved
    refine corrected.add_posSemidef (.smul ?_ (definite.dotProduct_mulVec_pos changed).le)
    exact posSemidef_vecMulVec_self_star (tilt v dx dg)
  · exact corrected

theorem correctedSecant (moved : dx ⬝ᵥ dg ≠ 0) (model : dg ⬝ᵥ v *ᵥ dg ≠ 0) :
    corrected v dx dg *ᵥ dg = dx := by
  rw [corrected, add_mulVec, sub_mulVec, smul_mulVec, smul_mulVec, outerMulVec, outerMulVec, smul_smul,
    smul_smul, dotProduct_comm (v *ᵥ dg), one_div_mul_cancel moved, one_div_mul_cancel model, one_smul,
    one_smul, add_sub_cancel]

/- The corrected matrix takes the change of the gradient to the move; the further correction does not
see that change. -/
theorem updatedSecant (moved : dx ⬝ᵥ dg ≠ 0) (model : dg ⬝ᵥ v *ᵥ dg ≠ 0) :
    updated v dx dg *ᵥ dg = dx := by
  have unseen : tilt v dx dg ⬝ᵥ dg = 0 := by
    rw [tilt, sub_dotProduct, smul_dotProduct, smul_dotProduct, dotProduct_comm (v *ᵥ dg), smul_eq_mul,
      smul_eq_mul, one_div_mul_cancel moved, one_div_mul_cancel model, sub_self]
  rw [updated]
  split
  · rw [add_mulVec, correctedSecant moved model, smul_mulVec, outerMulVec, unseen, zero_smul, smul_zero,
      add_zero]
  · exact correctedSecant moved model

theorem updatedIndefinite (moved : dx ⬝ᵥ dg < 0) (model : dg ⬝ᵥ v *ᵥ dg ≠ 0) :
    ¬ (updated v dx dg).PosDef := by
  intro definite
  have changed : dg ≠ 0 := fun zero => by simp [zero] at moved
  have positive := definite.dotProduct_mulVec_pos changed
  rw [star_trivial, updatedSecant moved.ne model, dotProduct_comm] at positive
  exact absurd moved positive.not_gt

end

/-! ### Stored vectors and matrices -/

namespace Vector
variable {x y : Array ℝ}

/- The first entries, as a vector. -/
noncomputable def column (x : Array ℝ) (n : ℕ) : Fin n → ℝ := fun i => entry x i

theorem dotColumn (left : x.size = n) (right : y.size = n) : dot x y = column x n ⬝ᵥ column y n := by
  rw [dotExact, left, right, min_self, Finset.sum_range]
  rfl

theorem columnSub (left : x.size = n) (right : y.size = n) :
    column (sub x y) n = column x n - column y n :=
  funext fun i => entrySub (left.symm ▸ i.isLt) (right.symm ▸ i.isLt)

theorem columnDivided (size : x.size = n) (c : ℝ) :
    column (x.map (· / c)) n = (1 / c) • column x n := by
  funext i
  rw [column, entryMap _ (size.symm ▸ i.isLt), Pi.smul_apply, smul_eq_mul, one_div_mul_eq_div]
  rfl

theorem columnApart (left : x.size = n) (right : y.size = n) (c d : ℝ) :
    (sub (x.map (· / c)) (y.map (· / d))).size = n ∧
      column (sub (x.map (· / c)) (y.map (· / d))) n =
        (1 / c) • column x n - (1 / d) • column y n := by
  have across : (x.map (· / c)).size = n := (Array.size_map ..).trans left
  have down : (y.map (· / d)).size = n := (Array.size_map ..).trans right
  refine ⟨by rw [sizeSub, across, down, Nat.min_self], ?_⟩
  rw [columnSub across down, columnDivided left, columnDivided right]

end Vector

namespace Symmetric
variable {m a b : Symmetric ℝ} {x y : Array ℝ}

theorem columnMulVec (size : x.size = n) :
    Vector.column (m.mulVec x) n = m.matrix n *ᵥ Vector.column x n := by
  funext i
  rw [Vector.column, mulVecExact (size.symm ▸ i.isLt), size, Finset.sum_range]
  rfl

theorem quadraticColumn (size : x.size = n) :
    m.quadratic x = Vector.column x n ⬝ᵥ m.matrix n *ᵥ Vector.column x n := by
  rw [quadratic, Vector.dotColumn size ((sizeMulVec m x).trans size), columnMulVec size]

theorem matrixOuter (size : x.size = n) :
    (outer x).matrix n = vecMulVec (Vector.column x n) (Vector.column x n) := by
  rw [outer, size, matrixBuild fun _ _ => mul_comm _ _]
  rfl

theorem matrixScale (size : m.size = n) (c : ℝ) : (m.scale c).matrix n = c • m.matrix n := by
  ext i j
  exact (elementMap (· * c) (size.symm ▸ i.isLt) (size.symm ▸ j.isLt)).trans (mul_comm _ _)

theorem matrixCombine (size : a.size = n) (f : ℝ → ℝ → ℝ) :
    (combine f a b).matrix n = .of fun i j => f (a.matrix n i j) (b.matrix n i j) := by
  rw [combine, size, matrixBuild fun i j => by rw [a.elementComm, b.elementComm]]
  rfl

theorem matrixAdd (size : a.size = n) : (a.add b).matrix n = a.matrix n + b.matrix n :=
  matrixCombine size _

theorem matrixSub (size : a.size = n) : (a.sub b).matrix n = a.matrix n - b.matrix n :=
  matrixCombine size _

theorem matrixApart (left : x.size = n) (right : y.size = n) (c d : ℝ) :
    (((outer x).scale c).sub ((outer y).scale d)).matrix n =
      c • vecMulVec (Vector.column x n) (Vector.column x n) -
        d • vecMulVec (Vector.column y n) (Vector.column y n) := by
  rw [matrixSub left, matrixScale left, matrixScale right, matrixOuter left, matrixOuter right]

end Symmetric

/-! ### Updates -/

namespace Knowledge
variable {k : Knowledge ℝ} {p : Point ℝ} {g : Gradient ℝ}

noncomputable def moveTo (k : Knowledge ℝ) (p : Point ℝ) (n : ℕ) : Fin n → ℝ :=
  Vector.column p.x n - Vector.column k.point.x n

noncomputable def changeTo (k : Knowledge ℝ) (g : Gradient ℝ) (n : ℕ) : Fin n → ℝ :=
  Vector.column g.slopes n - Vector.column k.gradient.slopes n

theorem moveColumn (width : k.point.x.size = n) (size : p.x.size = n) :
    (Vector.sub p.x k.point.x).size = n ∧
      Vector.column (Vector.sub p.x k.point.x) n = k.moveTo p n :=
  ⟨by rw [Vector.sizeSub, size, width, Nat.min_self], Vector.columnSub size width⟩

theorem changeColumn (height : k.gradient.slopes.size = n) (full : g.slopes.size = n) :
    (Vector.sub g.slopes k.gradient.slopes).size = n ∧
      Vector.column (Vector.sub g.slopes k.gradient.slopes) n = k.changeTo g n :=
  ⟨by rw [Vector.sizeSub, full, height, Nat.min_self], Vector.columnSub full height⟩

/- By how much the slope along a move grows. -/
theorem slopeGrows (width : k.point.x.size = n) (height : k.gradient.slopes.size = n)
    (size : p.x.size = n) (full : g.slopes.size = n) :
    Vector.dot (Vector.sub p.x k.point.x) (Vector.sub g.slopes k.gradient.slopes) =
      k.moveTo p n ⬝ᵥ k.changeTo g n := by
  obtain ⟨across, move⟩ := moveColumn width size
  obtain ⟨down, change⟩ := changeColumn height full
  rw [Vector.dotColumn across down, move, change]

/- What an update is, in the coordinates of the error matrix. -/
theorem updateCases (width : k.point.x.size = n) (height : k.gradient.slopes.size = n)
    (size : p.x.size = n) (full : g.slopes.size = n) :
    let v := k.error.inverse.matrix n
    let dx := k.moveTo p n
    let dg := k.changeTo g n
    (dx ⬝ᵥ dg = 0 ∨ dg ⬝ᵥ v *ᵥ dg ≤ 0) ∧ k.update p g = k.error ∨
      dx ⬝ᵥ dg ≠ 0 ∧ 0 < dg ⬝ᵥ v *ᵥ dg ∧ (k.update p g).isValid ∧
        (k.update p g).inverse.size = n ∧ (k.update p g).inverse.matrix n = updated v dx dg := by
  intro v dx dg
  let x := Vector.sub p.x k.point.x
  let y := Vector.sub g.slopes k.gradient.slopes
  let vy := k.error.inverse.mulVec y
  obtain ⟨across, move⟩ : x.size = n ∧ Vector.column x n = dx := moveColumn width size
  obtain ⟨down, change⟩ : y.size = n ∧ Vector.column y n = dg := changeColumn height full
  have spread : vy.size = n := (Symmetric.sizeMulVec _ _).trans down
  have image : Vector.column vy n = v *ᵥ dg := by rw [Symmetric.columnMulVec down, change]
  have moved : Vector.dot x y = dx ⬝ᵥ dg := slopeGrows width height size full
  have model : k.error.inverse.quadratic y = dg ⬝ᵥ v *ᵥ dg := by
    rw [Symmetric.quadraticColumn down, change]
  rw [update, learnsNothing]
  dsimp only
  rw [moved, model]
  split
  case isTrue nothing =>
    refine .inl ⟨?_, rfl⟩
    simpa using nothing
  case isFalse something =>
    simp only [Exact.beq, Exact.zero, Exact.le, Bool.or_eq_true, decide_eq_true_eq, not_or, not_le]
      at something
    obtain ⟨still, seen⟩ := something
    refine .inr ⟨still, seen, rfl, ?_⟩
    let two := ((Symmetric.outer x).scale (1 / (dx ⬝ᵥ dg))).sub
      ((Symmetric.outer vy).scale (1 / (dg ⬝ᵥ v *ᵥ dg)))
    have rank : two.matrix n = (1 / (dx ⬝ᵥ dg)) • vecMulVec dx dx -
        (1 / (dg ⬝ᵥ v *ᵥ dg)) • vecMulVec (v *ᵥ dg) (v *ᵥ dg) := by
      rw [Symmetric.matrixApart across spread, move, image]
    let t := Vector.sub (x.map (· / (dx ⬝ᵥ dg))) (vy.map (· / (dg ⬝ᵥ v *ᵥ dg)))
    obtain ⟨reach, direction⟩ : t.size = n ∧ Vector.column t n = tilt v dx dg := by
      have apart := Vector.columnApart across spread (dx ⬝ᵥ dg) (dg ⬝ᵥ v *ᵥ dg)
      rwa [move, image] at apart
    change (Symmetric.add (if dx ⬝ᵥ dg > dg ⬝ᵥ v *ᵥ dg then
      two.add ((Symmetric.outer t).scale (dg ⬝ᵥ v *ᵥ dg)) else two) k.error.inverse).size = n ∧
        (Symmetric.add _ k.error.inverse).matrix n = _
    rw [updated, corrected, ← rank]
    split
    case isTrue =>
      refine ⟨across, ?_⟩
      rw [Symmetric.matrixAdd across, Symmetric.matrixAdd across, Symmetric.matrixScale reach,
        Symmetric.matrixOuter reach, direction]
      abel
    case isFalse =>
      refine ⟨across, ?_⟩
      rw [Symmetric.matrixAdd across]
      exact add_comm _ _

/- A move that ends where there are coordinates for it is one in all of them. -/
theorem reachesSizes (reaches : k.reaches p g) :
    k.gradient.slopes.size = k.size ∧ p.x.size = k.size ∧ g.slopes.size = k.size := by
  simp only [Knowledge.reaches, Bool.and_eq_true, beq_iff_eq] at reaches
  obtain ⟨⟨⟨size, full⟩, height⟩, -⟩ := reaches
  exact ⟨height, size, full⟩

/- Where a move has coordinates at all, its update is found. If it shows curvature, then the matrix
afterwards takes the change of the gradient to the move, and is positive definite if it was so before
and the slope rose along the move. If it shows none, nothing is altered. -/
theorem updateExplains (reaches : k.reaches p g) :
    let n := k.size
    let v := k.error.inverse.matrix n
    let dx := k.moveTo p n
    let dg := k.changeTo g n
    k.update? p g = some (k.update p g) ∧
    (dx ⬝ᵥ dg ≠ 0 → 0 < dg ⬝ᵥ v *ᵥ dg →
      (k.update p g).inverse.size = n ∧ (k.update p g).inverse.matrix n *ᵥ dg = dx) ∧
    (v.PosDef → 0 < dx ⬝ᵥ dg →
      (k.update p g).inverse.size = n ∧ ((k.update p g).inverse.matrix n).PosDef) ∧
    (dx ⬝ᵥ dg = 0 ∨ dg ⬝ᵥ v *ᵥ dg ≤ 0 → k.update p g = k.error) := by
  intro n v dx dg
  obtain ⟨height, size, full⟩ := reachesSizes reaches
  refine ⟨if_pos reaches, fun moved model => ?_, fun definite rose => ?_, fun nothing => ?_⟩ <;>
    rcases updateCases rfl height size full with ⟨shown, kept⟩ | ⟨still, seen, -, rows, explained⟩
  · exact absurd shown (not_or.mpr ⟨moved, not_le.mpr model⟩)
  · exact ⟨rows, explained ▸ updatedSecant moved model.ne'⟩
  · have changed : dg ≠ 0 := fun zero => by simp [zero] at rose
    have model := definite.dotProduct_mulVec_pos changed
    exact absurd shown (not_or.mpr ⟨rose.ne', not_le.mpr model⟩)
  · exact ⟨rows, explained ▸ updatedDefinite definite rose⟩
  · exact kept
  · exact absurd nothing (not_or.mpr ⟨still, not_le.mpr seen⟩)

/- A leap across the slope, from a model of unit curvature: the further correction is needed. -/
theorem updateExplainsLeap : ∃ next,
    (⟨.plain #[0, 0] 0, .usable (.identity 2) 0, .bare #[0, 0], 0, 0⟩ : Knowledge ℝ).update?
      (.plain #[1, 1] 0) (.bare #[2⁻¹, 0]) = some next ∧
        next.inverse.matrix 2 *ᵥ ![2⁻¹, 0] = ![1, 1] := by
  let k : Knowledge ℝ := ⟨.plain #[0, 0] 0, .usable (.identity 2) 0, .bare #[0, 0], 0, 0⟩
  let p : Point ℝ := .plain #[1, 1] 0
  let g : Gradient ℝ := .bare #[2⁻¹, 0]
  have reaches : k.reaches p g := rfl
  have model : k.error.inverse.matrix 2 = 1 := by
    ext i j
    fin_cases i <;> fin_cases j <;> rfl
  have move : k.moveTo p 2 = ![1, 1] := by
    funext i
    fin_cases i <;> exact sub_zero _
  have change : k.changeTo g 2 = ![2⁻¹, 0] := by
    funext i
    fin_cases i <;> exact sub_zero _
  obtain ⟨found, explained, -⟩ := updateExplains reaches
  change k.moveTo p 2 ⬝ᵥ k.changeTo g 2 ≠ 0 →
    0 < k.changeTo g 2 ⬝ᵥ k.error.inverse.matrix 2 *ᵥ k.changeTo g 2 →
      (k.update p g).inverse.size = 2 ∧
        (k.update p g).inverse.matrix 2 *ᵥ k.changeTo g 2 = k.moveTo p 2 at explained
  rw [model, move, change, one_mulVec] at explained
  exact ⟨_, found, (explained (by simp) (by simp)).2⟩

end Knowledge
end ParamFit
