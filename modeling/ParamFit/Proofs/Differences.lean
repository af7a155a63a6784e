import ParamFit.Proofs.Dividing
import ParamFit.Proofs.Tilt

/-! Two-point differences of a quadratic objective. However long the steps of the gradient before were,
none is shorter than the precision allows, so nothing is divided by zero, whatever the objective is. The
first cycle along each coordinate shows the slope and the curvature of a parabola, and no cycle after it
loses them. -/
namespace ParamFit

/-! ### Divisions under a check -/

namespace Checked
section
variable {α β : Type}

def tabulate (f : Nat → Checked α β) : Nat → Checked α (Array β)
  | 0 => return #[]
  | n + 1 => do
    let before ← tabulate f n
    return before.push (← f n)

variable [Scalar α]

def chooseStep (s : Surface α) (p : Point α) (k : Nat) (noise : α) (a : Axis α) : Checked α α := do
  let square ← divide (s.visible 8.0 p) (Scalar.abs a.curvature + noise)
  let best := Scalar.sqrt square
  let step := Scalar.max best (Scalar.abs (0.1 * a.step))
  let step := if s.isLimited k ∧ step > 0.5 then 0.5 else step
  let most := 10.0 * Scalar.abs a.step
  let step := if step > most then most else step
  let least := Scalar.max (8.0 * s.precision.eps * s.precision.eps)
    (8.0 * Scalar.abs (s.precision.eps2 * entry p.x k))
  return if step < least then least else step

def differenceAxis (p : Point α) (step ahead behind : α) : Checked α (Axis α) := do
  let slope ← divide (0.5 * (ahead - behind)) step
  let rise ← divide (ahead + behind - 2.0 * p.value) step
  let curvature ← divide rise step
  return ⟨slope, curvature, step⟩

def differenceCycles (s : Surface α) (st : Strategy α) (p : Point α) (k : Nat) (noise : α) (a : Axis α)
    (last : α) : Nat → Checked α (Axis α)
  | 0 => return a
  | cycles + 1 => do
    let step ← chooseStep s p k noise a
    let moved ← divide (step - last) step
    if Scalar.abs moved < st.gradientStepTolerance then return a
    else
      let v := entry p.x k
      let ahead ← free (s.valueWith p.x k (v + step))
      let behind ← free (s.valueWith p.x k (v - step))
      let next ← differenceAxis p step ahead behind
      let rounding ← divide (s.visible 8.0 p) step
      let change ← divide (Scalar.abs (a.slope - next.slope)) (Scalar.abs next.slope + rounding)
      if change < st.gradientTolerance then return next
      else differenceCycles s st p k noise next step cycles

def differences (s : Surface α) (st : Strategy α) (p : Point α) (g : Gradient α) :
    Checked α (Gradient α) := do
  let n := p.x.size
  free (Eval.expect (n ≤ s.space.dimension && n ≤ g.slopes.size))
  free (Eval.expect (st.gradientCycles == 0 || n ≤ g.curvatures.size && n ≤ g.steps.size))
  let axes ← tabulate (fun k =>
    let a := Axis.ofGradient g k
    differenceCycles s st p k (s.slopeNoise a.slope) a 0 st.gradientCycles) p.x.size
  return Axis.replace g axes

end
end Checked

theorem Agrees.tabulate {α β : Type} {c : ℕ → Checked α β} {m : ℕ → Eval α β}
    (each : ∀ k, Agrees (c k) (m k)) (n : ℕ) : Agrees (Checked.tabulate c n) (Eval.tabulate m n) := by
  induction n with
  | zero => exact .pure _
  | succ n ih => exact .bindAny ih fun before => .bindAny (each n) fun _ => .pure _

/-! ### No step is too short -/

/- A precision that shows something. -/
structure Precision.Fine (prec : Precision ℝ) : Prop where
  eps : 0 < prec.eps
  eps2 : 0 < prec.eps2

theorem Precision.ofEpsFine {eps : ℝ} (positive : 0 < eps) : (ofEps eps : Precision ℝ).Fine :=
  ⟨positive, ErrorMatrix.coarsePositive positive⟩

namespace Surface
variable {s : Surface ℝ} {p : Point ℝ} {k : ℕ}

theorem stepLeast (noise : ℝ) (a : Axis ℝ) :
    8 * s.precision.eps * s.precision.eps ≤ s.chooseStep p k noise a := by
  let least : ℝ := Scalar.max (8.0 * s.precision.eps * s.precision.eps)
    (8.0 * Scalar.abs (s.precision.eps2 * entry p.x k))
  have short : 8 * s.precision.eps * s.precision.eps ≤ least := by
    change _ ≤ Scalar.max _ _
    rw [Exact.max, show (8.0 : ℝ) = 8 by norm_num]
    exact le_max_left _ _
  have held (step : ℝ) :
      8 * s.precision.eps * s.precision.eps ≤ if step < least then least else step := by
    split
    case isTrue => exact short
    case isFalse long => exact short.trans (not_lt.mp long)
  exact held _

section
variable (fine : s.precision.Fine)
include fine

theorem stepPositive (noise : ℝ) (a : Axis ℝ) : 0 < s.chooseStep p k noise a := by
  have eps := fine.eps
  exact lt_of_lt_of_le (by positivity) (stepLeast noise a)

theorem slopeNoisePositive (slope : ℝ) : 0 < s.slopeNoise slope :=
  add_pos_of_pos_of_nonneg fine.eps2 (abs_nonneg _)

variable (up : 0 < s.errorDef)
include up

theorem visiblePositive {factor : ℝ} (some : 0 < factor) : 0 < s.visible factor p :=
  mul_pos (mul_pos some fine.eps2) (add_pos_of_nonneg_of_pos (abs_nonneg _) up)

theorem differenceCyclesAgrees (st : Strategy ℝ) {noise : ℝ} (disturbed : 0 < noise) (a : Axis ℝ)
    (last : ℝ) (cycles : ℕ) : Agrees (Checked.differenceCycles s st p k noise a last cycles)
      (s.differenceCycles st p k noise a last cycles) := by
  induction cycles generalizing a last with
  | zero => exact .pure _
  | succ cycles ih =>
    have long : s.chooseStep p k noise a ≠ 0 := (stepPositive fine noise a).ne'
    have bent : Scalar.abs a.curvature + noise ≠ 0 :=
      (add_pos_of_nonneg_of_pos (abs_nonneg _) disturbed).ne'
    have step : Agrees (Checked.chooseStep s p k noise a) (pure (s.chooseStep p k noise a)) :=
      .settled (.divide _ bent) (.pure _)
    refine .settled step (.settled (.divide _ long) (.ite (fun _ => .pure _) fun _ => ?_))
    refine .bindAny (.free _) fun ahead => .bindAny (.free _) fun behind => ?_
    have next : Agrees (Checked.differenceAxis p (s.chooseStep p k noise a) ahead behind)
        (pure (differenceAxis p (s.chooseStep p k noise a) ahead behind)) :=
      .settled (.divide _ long) (.settled (.divide _ long) (.settled (.divide _ long) (.pure _)))
    have rounding : 0 < s.visible 8.0 p / s.chooseStep p k noise a :=
      div_pos (visiblePositive fine up (by norm_num)) (stepPositive fine noise a)
    refine .settled next (.settled (.divide _ long) (.settled (.divide _ ?_) ?_))
    · exact (add_pos_of_nonneg_of_pos (abs_nonneg _) rounding).ne'
    · exact .ite (fun _ => .pure _) fun _ => ih _ _

/- Differences never divide by zero. -/
theorem differencesAgrees (st : Strategy ℝ) (g : Gradient ℝ) :
    Agrees (Checked.differences s st p g) (s.differences st p g) := by
  refine .bindAny (.free _) fun _ => .bindAny (.free _) fun _ => .bindAny (.tabulate (fun k => ?_) _) ?_
  · exact differenceCyclesAgrees fine up st (slopeNoisePositive fine _) _ _ _
  · exact fun axes => .pure _

end

/-! ### A quadratic objective -/

section
variable {h : Symmetric ℝ} {b : Array ℝ} {c : ℝ} (quadratic : s.Quadratic h b c)
  (size : p.x.size = s.space.dimension) (known : p.value = s.worth p.x)
include quadratic size known

theorem Quadratic.differencesShow {fits : Prop} (fine : s.precision.Fine) {st : Strategy ℝ}
    (sensible : st.Sensible) {g : Gradient ℝ} (full : g.Full s.space.dimension) (t : Trace ℝ) :
    Yields fits (s.differences st p g) t (s.space.dimension * 4)
      (·.Shows s.space.dimension (s.tilt p.x) (s.bend p.x) (8 * s.precision.eps * s.precision.eps)) := by
  have eps := fine.eps
  exact Surface.differencesShow sensible size (by positivity) (le_refl _)
    (fun _ y width => quadratic.answers size width) known (fun k inside => quadratic.arc size inside) full
    (fun _ _ _ => stepLeast _ _) (fun _ _ _ _ _ => stepLeast _ _) t

/- Two-point differences of a quadratic objective, begun with any gradient: nothing is divided by zero, the
slopes and the curvatures are the derivatives, each step leads somewhere, and four calls a coordinate are
enough. -/
theorem differencesQuadratic {eps : ℝ} (positive : 0 < eps) (precise : s.precision = .ofEps eps)
    (up : 0 < s.errorDef) {g : Gradient ℝ} (full : g.Full s.space.dimension) (level : ℕ) (t : Trace ℝ) :
    ∃ found u, (s.differences (.ofLevel level) p g).run t = (found, u) ∧
      (Checked.differences s (.ofLevel level) p g).run.run t = (some found, u) ∧ u.sound = t.sound ∧
      found.slopes = tabulate s.space.dimension (s.tilt p.x) ∧
      found.curvatures = tabulate s.space.dimension (s.bend p.x) ∧
      (found.steps.size = s.space.dimension ∧ ∀ k < s.space.dimension, 0 < entry found.steps k) ∧
      u.calls ≤ t.calls + s.space.dimension * 4 := by
  have fine : s.precision.Fine := precise ▸ Precision.ofEpsFine positive
  have divided := (differencesAgrees (p := p) fine up (.ofLevel level) g).run t
  obtain ⟨found, u, run, shown, calls, sound⟩ :=
    (quadratic.differencesShow size known fine (Strategy.ofLevelSensible level) full t).ends
  rw [run] at divided
  refine ⟨found, u, run, divided, sound, shown.slopes, shown.curvatures, ⟨shown.size, ?_⟩, calls⟩
  intro k inside
  have eps := fine.eps
  exact lt_of_lt_of_le (by positivity) (shown.steps k inside)

end

/- The valley seen from its side, after a gradient without curvatures and steps. -/
theorem differencesQuadraticValley :
    let p : Point ℝ := .plain #[3] (valley.worth #[3])
    let g : Gradient ℝ := .numerical #[7] #[0] #[0]
    p.x.size = valley.space.dimension ∧ p.value = valley.worth p.x ∧ (0 : ℝ) < 2⁻¹ ^ 50 ∧
    valley.precision = .ofEps (2⁻¹ ^ 50) ∧ 0 < valley.errorDef ∧ g.Full valley.space.dimension ∧
    ∃ found u, (valley.differences (.ofLevel 0) p g).run? {} = some (found, u) ∧
      (Checked.differences valley (.ofLevel 0) p g).run.run {} = (some found, u) ∧
      found.slopes = #[4] ∧ found.curvatures = #[2] ∧ 0 < entry found.steps 0 := by
  intro p g
  have positive : (0 : ℝ) < 2⁻¹ ^ 50 := by positivity
  have full : g.Full valley.space.dimension := ⟨rfl, rfl, rfl⟩
  obtain ⟨found, u, run, divided, sound, slopes, curvatures, ⟨-, steps⟩, -⟩ :=
    differencesQuadratic valleyQuadratic (p := p) rfl rfl positive rfl one_pos full 0 {}
  have arc := valleyArc 3
  have slope : valley.tilt p.x 0 = 4 := arc.tilt.trans (by norm_num)
  have curvature : valley.bend p.x 0 = 2 := arc.bend
  refine ⟨rfl, rfl, positive, rfl, one_pos, full, found, u, Eval.runAnswers.mpr ⟨run, sound⟩, divided, ?_, ?_,
    steps 0 one_pos⟩
  · rw [slopes, ← slope]
    exact tabulateOne _
  · rw [curvatures, ← curvature]
    exact tabulateOne _

end Surface
end ParamFit
