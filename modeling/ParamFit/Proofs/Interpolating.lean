import ParamFit.Exact
import ParamFit.Parabola

/-! Parabolas over exact numbers. Through three samples with different abscissae goes one parabola, and
one through two samples with a slope at the first; they are the ones that are computed, for the shift to
the mean of the abscissae cancels. A parabola is a square around its extremum, so a level that it reaches
is met at the same distance on either side, and nowhere else. -/
namespace ParamFit.Parabola
variable {p q : Parabola ℝ} {p₁ p₂ p₃ : Sample ℝ} {slope level : ℝ}

theorem yExact (p : Parabola ℝ) (x : ℝ) : p.y x = p.a * x ^ 2 + p.b * x + p.c := by
  simp only [y, Exact.add, Exact.mul]
  ring

/-! ### Samples -/

/- What a parabola through three samples adds up from: each sample counts as far as the other two are. -/
theorem throughShares (first : p₁.x ≠ p₂.x) (second : p₁.x ≠ p₃.x) (third : p₂.x ≠ p₃.x) (x : ℝ) :
    (through p₁ p₂ p₃).y x =
      p₁.y * ((x - p₂.x) * (x - p₃.x)) / ((p₁.x - p₂.x) * (p₁.x - p₃.x)) -
      p₂.y * ((x - p₁.x) * (x - p₃.x)) / ((p₁.x - p₂.x) * (p₂.x - p₃.x)) +
      p₃.y * ((x - p₁.x) * (x - p₂.x)) / ((p₁.x - p₃.x) * (p₂.x - p₃.x)) := by
  have d₁₂ : p₁.x - p₂.x ≠ 0 := sub_ne_zero.mpr first
  have d₁₃ : p₁.x - p₃.x ≠ 0 := sub_ne_zero.mpr second
  have d₂₃ : p₂.x - p₃.x ≠ 0 := sub_ne_zero.mpr third
  have two : (2.0 : ℝ) = 2 := by norm_num
  have three : (3.0 : ℝ) = 3 := by norm_num
  rw [yExact, through]
  simp only [Exact.add, Exact.sub, Exact.mul, Exact.div, Exact.neg, two, three]
  field_simp
  ring

theorem throughMeets (first : p₁.x ≠ p₂.x) (second : p₁.x ≠ p₃.x) (third : p₂.x ≠ p₃.x) :
    (through p₁ p₂ p₃).y p₁.x = p₁.y ∧ (through p₁ p₂ p₃).y p₂.x = p₂.y ∧
      (through p₁ p₂ p₃).y p₃.x = p₃.y := by
  have d₁₂ : p₁.x - p₂.x ≠ 0 := sub_ne_zero.mpr first
  have d₁₃ : p₁.x - p₃.x ≠ 0 := sub_ne_zero.mpr second
  have d₂₃ : p₂.x - p₃.x ≠ 0 := sub_ne_zero.mpr third
  refine ⟨?_, ?_, ?_⟩
  · rw [throughShares first second third, sub_self]
    field_simp
    ring
  · rw [throughShares first second third, sub_self]
    field_simp
    ring
  · rw [throughShares first second third, sub_self]
    field_simp
    ring

theorem yDerivative (p : Parabola ℝ) (x : ℝ) : HasDerivAt p.y (2 * p.a * x + p.b) x := by
  have whole : p.y = fun x => p.a * x ^ 2 + p.b * x + p.c := funext p.yExact
  rw [whole]
  have square := ((hasDerivAt_id x).pow 2).const_mul p.a
  have line := (hasDerivAt_id x).const_mul p.b
  refine ((square.add line).add_const p.c).congr_deriv ?_
  simp only [id]
  ring

theorem tangentMeets (apart : p₁.x ≠ p₂.x) :
    (tangent p₁ slope p₂).y p₁.x = p₁.y ∧ (tangent p₁ slope p₂).y p₂.x = p₂.y ∧
      HasDerivAt (tangent p₁ slope p₂).y slope p₁.x := by
  have d : p₂.x - p₁.x ≠ 0 := sub_ne_zero.mpr apart.symm
  have two : (2.0 : ℝ) = 2 := by norm_num
  refine ⟨?_, ?_, (yDerivative _ _).congr_deriv ?_⟩
  all_goals
    simp only [yExact, tangent, Exact.sub, Exact.mul, Exact.div, two]
    field_simp
    ring

/-! ### Crossings -/

theorem xMinExact (p : Parabola ℝ) : p.xMin = -p.b / (2 * p.a) := by
  have two : (2.0 : ℝ) = 2 := by norm_num
  simp only [xMin, Exact.mul, Exact.div, Exact.neg, two]

theorem yMinExact (p : Parabola ℝ) : p.yMin = p.c - p.b ^ 2 / (4 * p.a) := by
  have four : (4.0 : ℝ) = 4 := by norm_num
  simp only [yMin, Exact.sub, Exact.mul, Exact.div, four]
  ring

/- A parabola rises from its extremum, or falls, by the square of the distance. -/
theorem yCompleted (curved : p.a ≠ 0) (x : ℝ) : p.y x = p.a * (x - p.xMin) ^ 2 + p.yMin := by
  rw [yExact, xMinExact, yMinExact]
  field_simp
  ring

theorem reachSquare (curved : p.a ≠ 0) (level : ℝ) :
    level / p.a + p.xMin ^ 2 - p.c / p.a = (level - p.yMin) / p.a := by
  rw [xMinExact, yMinExact]
  field_simp
  ring

theorem crossIff (curved : p.a ≠ 0) (reached : 0 ≤ level / p.a + p.xMin ^ 2 - p.c / p.a) (x : ℝ) :
    p.y x = level ↔ x = p.xBefore level ∨ x = p.xAfter level := by
  have reach : p.reach level ^ 2 = (level - p.yMin) / p.a := by
    rw [← reachSquare curved]
    refine (congrArg (· ^ 2) (?_ : p.reach level = _)).trans (Real.sq_sqrt reached)
    simp only [Parabola.reach, Exact.add, Exact.sub, Exact.mul, Exact.div, Exact.sqrt, sq]
  have square : p.y x = level ↔ (x - p.xMin) ^ 2 = p.reach level ^ 2 := by
    rw [reach, yCompleted curved, eq_div_iff curved]
    constructor <;> intro same <;> linarith
  have before : x = p.xBefore level ↔ x - p.xMin = -p.reach level := sub_eq_iff_eq_add.symm
  have after : x = p.xAfter level ↔ x - p.xMin = p.reach level := sub_eq_iff_eq_add.symm
  rw [square, sq_eq_sq_iff_eq_or_eq_neg, before, after, or_comm]

theorem crossOrder (p : Parabola ℝ) (level : ℝ) :
    p.xBefore level ≤ p.xMin ∧ p.xMin ≤ p.xAfter level := by
  have distance : 0 ≤ p.reach level := Real.sqrt_nonneg _
  exact ⟨add_le_iff_nonpos_left.mpr (neg_nonpos.mpr distance), le_add_of_nonneg_left distance⟩

theorem extremum (curved : p.a ≠ 0) : p.yMin = p.y p.xMin ∧ (0 < p.a → ∀ x, p.yMin ≤ p.y x) ∧
    (p.a < 0 → ∀ x, p.y x ≤ p.yMin) := by
  refine ⟨?_, fun opens x => ?_, fun closes x => ?_⟩
  · rw [yCompleted curved, sub_self]
    ring
  · rw [yCompleted curved]
    exact le_add_of_nonneg_left (mul_nonneg opens.le (sq_nonneg _))
  · rw [yCompleted curved]
    exact add_le_iff_nonpos_left.mpr (mul_nonpos_of_nonpos_of_nonneg closes.le (sq_nonneg _))

/- A parabola through samples meets them, with the slope that was asked for. Where it is curved, it meets a
level that it reaches before and after its extremum and nowhere else; no value lies beyond the extremum. -/
theorem interpolates :
    (∀ p₁ p₂ p₃ : Sample ℝ, p₁.x ≠ p₂.x → p₁.x ≠ p₃.x → p₂.x ≠ p₃.x →
      let p := through p₁ p₂ p₃
      p.y p₁.x = p₁.y ∧ p.y p₂.x = p₂.y ∧ p.y p₃.x = p₃.y) ∧
    (∀ (p₁ p₂ : Sample ℝ) (slope : ℝ), p₁.x ≠ p₂.x →
      let p := tangent p₁ slope p₂
      p.y p₁.x = p₁.y ∧ p.y p₂.x = p₂.y ∧ HasDerivAt p.y slope p₁.x) ∧
    ∀ p : Parabola ℝ, p.a ≠ 0 →
      (∀ level, 0 ≤ level / p.a + p.xMin ^ 2 - p.c / p.a →
        (∀ x, p.y x = level ↔ x = p.xBefore level ∨ x = p.xAfter level) ∧
          p.xBefore level ≤ p.xMin ∧ p.xMin ≤ p.xAfter level) ∧
      p.yMin = p.y p.xMin ∧ (0 < p.a → ∀ x, p.yMin ≤ p.y x) ∧ (p.a < 0 → ∀ x, p.y x ≤ p.yMin) :=
  ⟨fun _ _ _ => throughMeets, fun _ _ _ => tangentMeets, fun p curved =>
    ⟨fun level reached => ⟨crossIff curved reached, p.crossOrder level⟩, extremum curved⟩⟩

/- A parabola with its minimum at one, from three samples and from two with the slope at the first; the
level of the two outer samples. -/
theorem interpolatesCup :
    let p₁ : Sample ℝ := ⟨-1, 7⟩
    let p₂ : Sample ℝ := ⟨1 / 2, -1 / 2⟩
    let p₃ : Sample ℝ := ⟨3, 7⟩
    let p : Parabola ℝ := ⟨2, -4, 1⟩
    (p₁.x ≠ p₂.x ∧ p₁.x ≠ p₃.x ∧ p₂.x ≠ p₃.x ∧ p.a ≠ 0 ∧
        0 ≤ 7 / p.a + p.xMin ^ 2 - p.c / p.a ∧ 0 < p.a) ∧
      (through p₁ p₂ p₃).y (1 / 2) = -1 / 2 ∧ HasDerivAt (tangent p₁ (-8) p₃).y (-8) (-1) ∧
      p.y (p.xBefore 7) = 7 ∧ p.y (p.xAfter 7) = 7 ∧ p.yMin ≤ p.y 0 := by
  intro p₁ p₂ p₃ p
  have first : p₁.x ≠ p₂.x := by norm_num [p₁, p₂]
  have second : p₁.x ≠ p₃.x := by norm_num [p₁, p₃]
  have third : p₂.x ≠ p₃.x := by norm_num [p₂, p₃]
  have curved : p.a ≠ 0 := two_ne_zero
  have opens : 0 < p.a := two_pos
  have reached : 0 ≤ 7 / p.a + p.xMin ^ 2 - p.c / p.a := by
    rw [xMinExact]
    norm_num [p]
  obtain ⟨threes, twos, all⟩ := interpolates
  obtain ⟨crosses, -, low, -⟩ := all p curved
  have here := (crosses 7 reached).1
  exact ⟨⟨first, second, third, curved, reached, opens⟩, (threes p₁ p₂ p₃ first second third).2.1,
    (twos p₁ p₃ (-8) second).2.2, (here _).mpr (.inl rfl), (here _).mpr (.inr rfl), low opens 0⟩

end ParamFit.Parabola
