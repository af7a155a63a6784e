import ParamFit.Proofs.Declaring
import ParamFit.Proofs.Differences
import ParamFit.Proofs.Transport
import ParamFit.Proofs.Valid

/-! The gradient that is guessed from the errors. It divides by the width of one error inside, and that
is zero just where the error is: a setup may declare such an error, and does so where it declares none.
Limits do not flatten any other error, as no internal value is so close to a limit that the points one
error away could not be told from it. Between two limits that takes a precision that is not too coarse:
the margin at each of them has to be narrower than a branch of their fold. -/
namespace ParamFit

namespace Limits
variable {prec : Precision ℝ} {v : ℝ}

/-! ### Internal values are found again -/

theorem marginSquare (positive : 0 < prec.eps2) : margin prec * margin prec = 64 * prec.eps2 := by
  have root : √prec.eps2 * √prec.eps2 = prec.eps2 := Real.mul_self_sqrt positive.le
  have whole : margin prec = 8 * √prec.eps2 := by norm_num [margin]
  rw [whole]
  linear_combination 64 * root

theorem marginPositive (positive : 0 < prec.eps2) : 0 < margin prec :=
  mul_pos (by norm_num) (Real.sqrt_pos.mpr positive)

/- The sine of the margin is not below an eighth of it, as long as the margin is not wider than a
branch. -/
theorem marginSine (positive : 0 < prec.eps2) (narrow : margin prec ≤ Real.pi / 2) :
    prec.eps2 ≤ Real.sin (margin prec) ^ 2 := by
  have margin := marginPositive positive
  have chord := Real.mul_le_sin margin.le narrow
  have eighth : Limits.margin prec / 8 ≤ 2 / Real.pi * Limits.margin prec := by
    have pi := Real.pi_pos
    rw [div_mul_eq_mul_div, div_le_div_iff₀ (by norm_num) pi]
    nlinarith [Real.pi_le_four]
  have square := pow_le_pow_left₀ (by positivity) (eighth.trans chord) 2
  have whole := marginSquare positive
  nlinarith

theorem heightPrincipal (positive : 0 < prec.eps2) (h : ℝ) :
    0 ≤ ofHeight prec h ∧ prec.eps2 ≤ ofHeight prec h * ofHeight prec h := by
  by_cases clear : 1 + prec.eps2 ≤ h * h
  · rw [ofHeightClear clear, Real.mul_self_sqrt (by linarith)]
    exact ⟨Real.sqrt_nonneg _, by linarith⟩
  · have close : ofHeight prec h = margin prec := if_pos (not_le.mp clear)
    rw [close, marginSquare positive]
    exact ⟨(marginPositive positive).le, by linarith⟩

theorem bothFlat {lo hi : ℝ} (flat : 1 - prec.eps2 < share lo hi v * share lo hi v) :
    (both lo hi).toInternal prec v =
      if share lo hi v < 0 then -(Real.pi / 2) + margin prec else Real.pi / 2 - margin prec :=
  if_pos flat

theorem shareBound {y : ℝ} (positive : 0 < prec.eps2) (clear : y * y ≤ 1 - prec.eps2) :
    -1 < y ∧ y < 1 := by
  refine abs_lt.mp ?_
  rw [← abs_one, ← sq_lt_sq, one_pow, sq]
  linarith

theorem internalPrincipal {l : Limits ℝ} (positive : 0 < prec.eps2)
    (narrow : ∀ lo hi, l = .both lo hi → margin prec ≤ Real.pi / 2) (v : ℝ) :
    l.Principal prec (l.toInternal prec v) := by
  cases l with
  | free => trivial
  | both lo hi =>
    have margin := marginPositive positive
    have sine := marginSine positive (narrow lo hi rfl)
    have branch : Scalar.halfPi = Real.pi / 2 := rfl
    have short := narrow lo hi rfl
    have whole := Real.sin_sq_add_cos_sq (Limits.margin prec)
    rw [Principal, branch]
    by_cases clear : share lo hi v * share lo hi v ≤ 1 - prec.eps2
    · obtain ⟨least, most⟩ := shareBound positive clear
      rw [bothInternal clear, Real.sin_arcsin least.le most.le]
      exact ⟨abs_le.mpr ⟨Real.neg_pi_div_two_le_arcsin _, Real.arcsin_le_pi_div_two _⟩, clear⟩
    · rw [bothFlat (not_le.mp clear)]
      split
      · rw [neg_add_eq_sub, ← neg_sub, Real.sin_neg, Real.sin_pi_div_two_sub, abs_neg,
          abs_of_nonneg (by linarith)]
        constructor <;> nlinarith
      · rw [Real.sin_pi_div_two_sub, abs_of_nonneg (by linarith)]
        constructor <;> nlinarith
  | lower lo => exact heightPrincipal positive _
  | upper hi => exact heightPrincipal positive _

/-! ### One error away -/

theorem heightMoves {e : ℝ} (clear : prec.eps2 ≤ v * v) (some : 0 < e) :
    v < ofHeight prec (hyperbola v + e) := by
  have square := hyperbolaSquare v
  have high := hyperbolaLeast v
  have more : v * v + 1 < (hyperbola v + e) * (hyperbola v + e) := by nlinarith
  rw [ofHeightClear (by linarith)]
  exact Real.lt_sqrt_of_sq_lt (by nlinarith)

theorem shareRises {lo hi a b : ℝ} (ordered : lo < hi) (before : a < b) :
    share lo hi a < share lo hi b := by
  have wide : 0 < hi - lo := sub_pos.mpr ordered
  rw [shareTwice, shareTwice]
  have part : 2 * (a - lo) / (hi - lo) < 2 * (b - lo) / (hi - lo) :=
    div_lt_div_of_pos_right (by linarith) wide
  linarith

/- A point with the internal value of another one is as close to a limit as the fold is flat, and on the
side of that limit. -/
theorem flatAway {lo hi a : ℝ} (positive : 0 < prec.eps2) (principal : (both lo hi).Principal prec v)
    (same : (both lo hi).toInternal prec a = v) (other : share lo hi a ≠ Real.sin v) :
    (share lo hi a < Real.sin v ∧ v = -(Real.pi / 2) + margin prec) ∨
      (Real.sin v < share lo hi a ∧ v = Real.pi / 2 - margin prec) := by
  by_cases clear : share lo hi a * share lo hi a ≤ 1 - prec.eps2
  · obtain ⟨least, most⟩ := shareBound positive clear
    rw [bothInternal clear] at same
    exact absurd (same ▸ Real.sin_arcsin least.le most.le).symm other
  · rw [bothFlat (not_le.mp clear)] at same
    have farther : |Real.sin v| < |share lo hi a| := by
      rw [← sq_lt_sq, sq, sq]
      exact principal.2.trans_lt (not_le.mp clear)
    split at same
    case isTrue negative =>
      rw [abs_of_neg negative] at farther
      exact .inl ⟨by linarith [(abs_lt.mp farther).1], same.symm⟩
    case isFalse positive =>
      rw [abs_of_nonneg (not_lt.mp positive)] at farther
      exact .inr ⟨(abs_lt.mp farther).2, same.symm⟩

/- The points one error above and one below, cut at the limits, are not both taken for the one between
them. -/
theorem bothMove {lo hi e : ℝ} (positive : 0 < prec.eps2) (ordered : lo < hi)
    (principal : (both lo hi).Principal prec v) (narrow : margin prec < Real.pi / 2) (some : 0 < e) :
    ¬ ((both lo hi).toInternal prec (min ((both lo hi).toExternal v + e) hi) = v ∧
      (both lo hi).toInternal prec (max ((both lo hi).toExternal v - e) lo) = v) := by
  rintro ⟨ahead, behind⟩
  have wide : 0 < hi - lo := sub_pos.mpr ordered
  obtain ⟨low, high⟩ := shareBound positive principal.2
  have outside : (both lo hi).toExternal v = lo + 0.5 * (hi - lo) * (Real.sin v + 1) := rfl
  have above : (both lo hi).toExternal v < min ((both lo hi).toExternal v + e) hi := by
    refine lt_min (by linarith) ?_
    rw [outside]
    nlinarith
  have below : max ((both lo hi).toExternal v - e) lo < (both lo hi).toExternal v := by
    refine max_lt (by linarith) ?_
    rw [outside]
    nlinarith
  have more := shareRises ordered above
  have less := shareRises ordered below
  rw [shareOutside ordered] at more less
  rcases flatAway positive principal ahead more.ne' with ⟨wrong, _⟩ | ⟨_, right⟩
  · exact lt_asymm wrong more
  rcases flatAway positive principal behind less.ne with ⟨_, left⟩ | ⟨wrong, _⟩
  · linarith
  · exact lt_asymm wrong less

end Limits

theorem Parameter.bothLimits {p : Parameter ℝ} {lo hi : ℝ} (both : p.limits = .both lo hi) :
    p.lower = some lo ∧ p.upper = some hi := by
  rw [limits] at both
  split at both <;> cases both
  exact ⟨‹_›, ‹_›⟩

theorem Parameter.Ordered.apart {p : Parameter ℝ} (ordered : p.Ordered) {lo hi : ℝ}
    (both : p.limits = .both lo hi) : lo < hi :=
  ordered lo hi (bothLimits both).1 (bothLimits both).2

/- The points one error away have the same internal value as the one between them only where there is no
error. -/
theorem Parameter.awayMoves {p : Parameter ℝ} {prec : Precision ℝ} {v : ℝ} (positive : 0 < prec.eps2)
    (ordered : p.Ordered) (principal : p.limits.Principal prec v)
    (narrow : ∀ lo hi, p.limits = .both lo hi → Limits.margin prec < Real.pi / 2)
    (some : 0 < p.error) :
    let here := p.limits.toExternal v
    ¬ (p.limits.toInternal prec (p.upper.elim (here + p.error) (Scalar.min (here + p.error))) = v ∧
      p.limits.toInternal prec (p.lower.elim (here - p.error) (Scalar.max (here - p.error))) = v) := by
  intro here
  rintro ⟨ahead, behind⟩
  cases lower : p.lower with
  | none =>
    cases upper : p.upper with
    | none =>
      have limits : p.limits = .free := by rw [Parameter.limits, lower, upper]
      simp only [here, limits, upper, Option.elim_none] at ahead
      exact some.ne' (left_eq_add.mp ahead.symm)
    | some hi =>
      have limits : p.limits = .upper hi := by rw [Parameter.limits, lower, upper]
      rw [limits] at principal
      have height : hi - (hi + 1 - Limits.hyperbola v - p.error) + 1 = Limits.hyperbola v + p.error := by
        ring
      have less := Limits.heightMoves principal.2 some
      simp only [here, limits, lower, Option.elim_none] at behind
      exact less.ne' ((congrArg (Limits.ofHeight prec) height).symm.trans behind)
  | some lo =>
    cases upper : p.upper with
    | none =>
      have limits : p.limits = .lower lo := by rw [Parameter.limits, lower, upper]
      rw [limits] at principal
      have height : lo - 1 + Limits.hyperbola v + p.error - lo + 1 = Limits.hyperbola v + p.error := by
        ring
      have more := Limits.heightMoves principal.2 some
      simp only [here, limits, upper, Option.elim_none] at ahead
      exact more.ne' ((congrArg (Limits.ofHeight prec) height).symm.trans ahead)
    | some hi =>
      have limits : p.limits = .both lo hi := by rw [Parameter.limits, lower, upper]
      rw [limits] at principal
      simp only [here, limits, lower, upper, Option.elim_some, Exact.min, Exact.max] at ahead behind
      exact Limits.bothMove positive (ordered lo hi lower upper) principal (narrow lo hi limits) some
        ⟨ahead, behind⟩

theorem Parameter.awayStill {p : Parameter ℝ} {prec : Precision ℝ} {v : ℝ} (ordered : p.Ordered)
    (principal : p.limits.Principal prec v) (none : p.error = 0) :
    let here := p.limits.toExternal v
    p.limits.toInternal prec (p.upper.elim (here + p.error) (Scalar.min (here + p.error))) = v ∧
      p.limits.toInternal prec (p.lower.elim (here - p.error) (Scalar.max (here - p.error))) = v := by
  intro here
  have allowed := toExternalAllowed ordered v
  have again : p.limits.toInternal prec here = v := Limits.internalAgain (fun _ _ => ordered.apart) principal
  have ahead : p.upper.elim (here + p.error) (Scalar.min (here + p.error)) = here := by
    rw [none, add_zero]
    cases upper : p.upper with
    | none => rfl
    | some hi => exact (Exact.min here hi).trans (min_eq_left (allowed.below hi upper))
  have behind : p.lower.elim (here - p.error) (Scalar.max (here - p.error)) = here := by
    rw [none, sub_zero]
    cases lower : p.lower with
    | none => rfl
    | some lo => exact (Exact.max here lo).trans (max_eq_left (allowed.above lo lower))
  rw [ahead, behind]
  exact ⟨again, again⟩

namespace Surface
variable {s : Surface ℝ} {k : ℕ} {v : ℝ}

theorem errorWidthZero (s : Surface ℝ) (k : ℕ) (v : ℝ) :
    let p := s.space.parameterAt (s.space.place k)
    let above := s.space.toExternal k v + p.error
    let below := s.space.toExternal k v - p.error
    s.errorWidth k v = 0 ↔
      s.space.toInternal (s.space.place k) (p.upper.elim above (Scalar.min above)) = v ∧
      s.space.toInternal (s.space.place k) (p.lower.elim below (Scalar.max below)) = v := by
  intro p above below
  have whole : s.errorWidth k v = 0.5 *
      (|s.space.toInternal (s.space.place k) (p.upper.elim above (Scalar.min above)) - v| +
        |s.space.toInternal (s.space.place k) (p.lower.elim below (Scalar.max below)) - v|) := rfl
  have half : (0.5 : ℝ) ≠ 0 := by norm_num
  rw [whole, mul_eq_zero_iff_left half, add_eq_zero_iff_of_nonneg (abs_nonneg _) (abs_nonneg _),
    abs_eq_zero, abs_eq_zero, sub_eq_zero, sub_eq_zero]

/- One error is of no width only where it is zero. -/
theorem errorWidthVanishes (positive : 0 < s.space.precision.eps2)
    (ordered : (s.space.parameterAt (s.space.place k)).Ordered)
    (principal : (s.space.limits k).Principal s.space.precision v)
    (narrow : ∀ lo hi, s.space.limits k = .both lo hi →
      Limits.margin s.space.precision < Real.pi / 2)
    (error : 0 ≤ (s.space.parameterAt (s.space.place k)).error) :
    s.errorWidth k v = 0 ↔ (s.space.parameterAt (s.space.place k)).error = 0 := by
  refine (errorWidthZero s k v).trans ⟨fun still => ?_, Parameter.awayStill ordered principal⟩
  by_contra other
  exact Parameter.awayMoves positive ordered principal narrow (lt_of_le_of_ne error (Ne.symm other))
    still

end Surface

/-! ### Divisions under a check -/

namespace Checked
section
variable {α : Type} [Scalar α]

def toInternal (l : Limits α) (prec : Precision α) (v : α) : Checked α α :=
  match l with
  | .both lo hi => do
    let part ← divide (2.0 * (v - lo)) (hi - lo)
    let y := part - 1
    if y * y > 1 - prec.eps2 then
      return if y < 0 then -Scalar.halfPi + Limits.margin prec else Scalar.halfPi - Limits.margin prec
    else return Scalar.arcsin y
  | l => return l.toInternal prec v

def errorWidth (s : Surface α) (k : Nat) (v : α) : Checked α α := do
  let p := s.space.parameterAt (s.space.place k)
  let here := s.space.toExternal k v
  let above := here + p.error
  let below := here - p.error
  let ahead ← toInternal p.limits s.space.precision (p.upper.elim above (Scalar.min above))
  let behind ← toInternal p.limits s.space.precision (p.lower.elim below (Scalar.max below))
  return 0.5 * (Scalar.abs (ahead - v) + Scalar.abs (behind - v))

def guessAxis (s : Surface α) (k : Nat) (v : α) : Checked α (Axis α) := do
  let width ← errorWidth s k v
  let curvature ← divide (2.0 * s.errorDef) (width * width)
  let least := 8.0 * s.precision.eps2 * (Scalar.abs v + s.precision.eps2)
  let step := Scalar.max least (0.1 * width)
  return ⟨curvature * width, curvature, if s.isLimited k ∧ step > 0.5 then 0.5 else step⟩

def guess (s : Surface α) (p : Point α) : Checked α (Gradient α) := do
  return Axis.toGradient
    (← tabulate (fun k => guessAxis s k (entry p.x k)) s.space.dimension)

end
end Checked

theorem Agrees.tabulateBelow {α β : Type} {c : ℕ → Checked α β} {f : ℕ → β} {n : ℕ}
    (each : ∀ k < n, Agrees (c k) (Pure.pure (f k))) :
    Agrees (Checked.tabulate c n) (Pure.pure (ParamFit.tabulate n f)) := by
  induction n with
  | zero =>
    have empty : ParamFit.tabulate 0 f = #[] := by simp [ParamFit.tabulate]
    rw [empty]
    exact .pure _
  | succ n ih =>
    have longer : ParamFit.tabulate (n + 1) f = (ParamFit.tabulate n f).push (f n) := by
      simp [ParamFit.tabulate, Array.range_succ]
    rw [longer]
    exact .settled (ih fun k below => each k (Nat.lt_succ_of_lt below))
      (.settled (each n (Nat.lt_succ_self n)) (.pure _))

theorem toInternalAgrees {l : Limits ℝ} (ordered : ∀ lo hi, l = .both lo hi → lo < hi)
    (prec : Precision ℝ) (v : ℝ) : Agrees (Checked.toInternal l prec v) (pure (l.toInternal prec v)) := by
  cases l with
  | both lo hi =>
    refine .settled (.divide _ (sub_pos.mpr (ordered lo hi rfl)).ne') ?_
    dsimp only [Limits.toInternal]
    split
    case isTrue => exact .pure _
    case isFalse => exact .pure _
  | free => exact .pure _
  | lower lo => exact .pure _
  | upper hi => exact .pure _

namespace Surface
variable {s : Surface ℝ} {k : ℕ} {v : ℝ}

section
variable (ordered : ∀ lo hi, s.space.limits k = .both lo hi → lo < hi)
include ordered

theorem errorWidthAgrees : Agrees (Checked.errorWidth s k v) (pure (s.errorWidth k v)) :=
  .settled (toInternalAgrees ordered _ _) (.settled (toInternalAgrees ordered _ _) (.pure _))

theorem guessAxisAgrees (some : s.errorWidth k v ≠ 0) :
    Agrees (Checked.guessAxis s k v) (pure (s.guessAxis k v)) :=
  .settled (errorWidthAgrees ordered) (.settled (.divide _ (mul_ne_zero some some)) (.pure _))

/- Without a width there is no answer. -/
theorem guessAxisFails (none : s.errorWidth k v = 0) (t : Trace ℝ) :
    (Checked.guessAxis s k v).run.run t = (Option.none, t) := by
  have square : (s.errorWidth k v * s.errorWidth k v == 0) = true := by simp [none]
  rw [Checked.guessAxis, (errorWidthAgrees ordered).runBind]
  change ((Checked.divide (2.0 * s.errorDef) (s.errorWidth k v * s.errorWidth k v) >>= _).run).run t = _
  rw [Checked.divide, if_pos square]
  rfl

theorem guessAxisAnswers :
    Agrees (Checked.guessAxis s k v) (pure (s.guessAxis k v)) ↔ s.errorWidth k v ≠ 0 := by
  refine ⟨fun agrees none => ?_, guessAxisAgrees ordered⟩
  have answer := agrees.run {}
  rw [guessAxisFails ordered none] at answer
  cases answer

end

theorem guessAgrees {p : Point ℝ}
    (ordered : ∀ k < s.space.dimension, ∀ lo hi, s.space.limits k = .both lo hi → lo < hi)
    (some : ∀ k < s.space.dimension, s.errorWidth k (entry p.x k) ≠ 0) :
    Agrees (Checked.guess s p) (pure (s.guess p)) :=
  .settled (.tabulateBelow fun k inside => guessAxisAgrees (ordered k inside) (some k inside)) (.pure _)

/- What is guessed with a width is positive. -/
theorem guessAxisPositive (up : 0 < s.errorDef)
    (some : s.errorWidth k v ≠ 0) :
    0 < (s.guessAxis k v).slope ∧ 0 < (s.guessAxis k v).curvature ∧ 0 < (s.guessAxis k v).step := by
  have whole : 0 ≤ s.errorWidth k v :=
    mul_nonneg (by norm_num) (add_nonneg (abs_nonneg _) (abs_nonneg _))
  have width : 0 < s.errorWidth k v := lt_of_le_of_ne whole some.symm
  have curvature : 0 < (s.guessAxis k v).curvature :=
    div_pos (mul_pos (by norm_num) up) (mul_pos width width)
  refine ⟨mul_pos curvature width, curvature, ?_⟩
  change 0 < if _ then (0.5 : ℝ) else _
  split
  case isTrue => norm_num
  case isFalse =>
    rw [Exact.max]
    exact lt_max_of_lt_right (mul_pos (by norm_num) width)

end Surface

/-! ### The variances of a seed -/

/- No variance is zero. -/
def ErrorMatrix.Spread (n : ℕ) (e : ErrorMatrix ℝ) : Prop := ∀ k < n, e.inverse.element k k ≠ 0

theorem ErrorMatrix.Definite.spread {n : ℕ} {e : ErrorMatrix ℝ} (definite : e.Definite)
    (rows : e.inverse.size = n) : e.Spread n := fun k inside =>
  (((definiteMatrix rows).mp definite).diag_pos (i := ⟨k, inside⟩)).ne'

namespace Surface
variable {s : Surface ℝ} {n : ℕ} {prec : Precision ℝ} (fine : prec.Fine)

section
include fine

theorem diagonalErrorSpread {g : Gradient ℝ} (full : g.Full n) : (diagonalError g prec).Spread n := by
  intro k inside
  have within : k < g.curvatures.size := full.curvatures.symm ▸ inside
  have rows : k < (g.inverseCurvatures prec).size := (Array.size_map ..).symm ▸ within
  have variance : (diagonalError g prec).inverse.element k k = entry (g.inverseCurvatures prec) k :=
    (Symmetric.elementBuild _ (le_refl k) rows).trans (if_pos rfl)
  rw [variance, Gradient.inverseCurvatures, Vector.entryMap _ within]
  split
  case isTrue steep =>
    have nonzero : entry g.curvatures k ≠ 0 := abs_pos.mp (fine.eps2.trans steep)
    exact one_div_ne_zero nonzero
  case isFalse => exact one_ne_zero

theorem knowSpread (p : Point ℝ) {g : Gradient ℝ} (full : g.Full n) :
    Gives (know p (diagonalError g prec) g) (·.error.Spread n) :=
  .expect (.counting fun _ => .pure (diagonalErrorSpread fine full))

theorem leaveDownwardSpread (m : GradientMethod ℝ) {k : Knowledge ℝ} (sized : k.Sized n)
    (spread : k.error.Spread n) : Gives (s.leaveDownward m k prec) (·.error.Spread n) := by
  refine .ite (fun _ => .pure spread) fun _ => ?_
  exact .bind (climbDownSized m prec sized.point sized.gradient _) fun r found =>
    knowSpread fine r.1 found.2

theorem settleStartSpread (m : GradientMethod ℝ) (st : Strategy ℝ) {k : Knowledge ℝ}
    (sized : k.Sized s.space.dimension) (spread : k.error.Spread s.space.dimension) :
    Gives (s.settleStart m st k prec) (·.error.Spread s.space.dimension) := by
  refine .ite (fun _ => .pure spread) fun _ => ?_
  refine .ite (fun _ => leaveDownwardSpread fine m sized spread) fun _ => ?_
  refine .bind (leaveDownwardSpread fine _ sized spread) fun k spread => ?_
  exact .bindAny (givesAny _) fun g => .expect (.counting fun _ => .pure spread)

end

/- No search that is not told a covariance begins with a variance of zero. -/
theorem seedSpread (fine : s.precision.Fine) (a : Algorithm) (m : GradientMethod ℝ) (st : Strategy ℝ)
    (check : GradientCheck) {state : FitState ℝ} (here : state.space = s.space)
    (unknown : state.hasCovariance = false) :
    Gives (s.seed a m st check state) (·.knowledge.error.Spread s.space.dimension) := by
  have same : state.space.dimension = s.space.dimension := congrArg Space.dimension here
  have precise : state.space.precision.Fine := here.symm ▸ fine
  have start (g : Gradient ℝ) : startError state g = diagonalError g state.space.precision :=
    if_neg (by simp [unknown])
  refine .ite (fun _ => ?_) fun _ => ?_
  · refine .bind (startPointSize same) fun p size => ?_
    refine .bind (startGradientFull m st check size) fun g full => ?_
    rw [start]
    refine .bind ((knowSized size (sizeDiagonalError full _) full).both (knowSpread precise p full))
      fun k first => ?_
    refine .bind ((settleStartSized m st first.1 _).both (settleStartSpread precise m st first.1 first.2))
      fun k second => ?_
    refine .ite (fun _ => ?_) fun _ => .bind (.pure second.2) fun k spread => .pure spread
    refine .bind ((secondDerivativesSized st second.1 0).both
      (secondDerivativesDefinite fine.eps2 st second.1.emptyDefinite 0)) fun k found => .pure ?_
    exact found.2.spread found.1.error
  · refine .bindAny (givesAny _) fun p => ?_
    exact .map (knowSpread precise p (s.guessFull p))

end Surface

/-! ### What a setup declares -/

namespace Declaration
variable {d : Declaration ℝ} {number : ℕ} {lo hi : ℝ}

theorem varied (varies : d.varies) : d.constant = false := by
  rw [Declaration.varies] at varies
  simpa using And.left (Bool.and_eq_true_iff.mp varies)

theorem parameterError (varies : d.varies) (number : ℕ) : (d.parameter number).error = d.error := by
  rw [parameter, if_neg (by simp [varied varies])]

/- A parameter has two limits where its declaration gives two, and they are these in ascending order. -/
theorem parameterBoth (lower : (d.parameter number).lower = some lo)
    (upper : (d.parameter number).upper = some hi) : ∃ a b, d.lower = some a ∧ d.upper = some b ∧
      (a > b ∧ lo = b ∧ hi = a ∨ ¬ a > b ∧ lo = a ∧ hi = b) := by
  rw [parameter] at lower upper
  split at lower
  case isTrue => cases lower
  case isFalse varied =>
    rw [if_neg varied] at upper
    have limits : d.ordered = (some lo, some hi) := Prod.ext lower upper
    rw [ordered] at limits
    split at limits
    case h_1 a b first second =>
      refine ⟨a, b, first, second, ?_⟩
      split at limits
      case isTrue reversed =>
        cases limits
        exact .inl ⟨reversed, rfl, rfl⟩
      case isFalse straight =>
        cases limits
        exact .inr ⟨straight, rfl, rfl⟩
    case h_2 one =>
      obtain ⟨first, second⟩ := Prod.ext_iff.mp limits
      exact (one lo hi first second).elim

theorem parameterOrdered (valid : d.violations = []) (number : ℕ) : (d.parameter number).Ordered := by
  intro lo hi lower upper
  obtain ⟨a, b, first, second, cases⟩ := parameterBoth lower upper
  obtain ⟨reversed, rfl, rfl⟩ | ⟨straight, rfl, rfl⟩ := cases
  · exact reversed
  · have apart : lo ≠ hi := by simpa using limitsApart valid first second
    exact lt_of_le_of_ne (not_lt.mp straight) apart

theorem errorLeast (valid : d.violations = []) (varies : d.varies) : 0 ≤ d.error := by
  simp only [violations, List.append_eq_nil_iff, varied varies] at valid
  obtain ⟨⟨⟨_, error⟩, _⟩, _⟩ := valid
  split at error
  case isTrue => cases error
  case isFalse other => simpa [Scalar.isFinite] using other

end Declaration

namespace Setup
variable {setup : Setup ℝ}

variable (valid : setup.violations = [])
include valid

theorem precisionFine : setup.precision.Fine := by
  have settings := settingsValid valid
  simp only [Settings.violations, List.append_eq_nil_iff] at settings
  obtain ⟨_, given⟩ := settings
  rw [precision]
  revert given
  cases setup.settings.precision with
  | some eps =>
    intro given
    dsimp only at given
    split at given
    case isTrue within => exact Precision.ofEpsFine within.1
    case isFalse => cases given
  | none => exact fun _ => ⟨by rw [machineEps]; positivity, by rw [machineEps2]; positivity⟩

theorem errorDefPositive : 0 < setup.settings.errorDef := by
  have settings := settingsValid valid
  simp only [Settings.violations, List.append_eq_nil_iff] at settings
  obtain ⟨⟨_, up⟩, _⟩ := settings
  split at up
  case isTrue positive => simpa [Settings.isPositive, Scalar.isFinite] using positive
  case isFalse => cases up

/- The space that is declared. -/
noncomputable def declared (setup : Setup ℝ) : Space ℝ := .declaring setup.precision setup.parameters

end Setup

namespace Setup
variable {setup : Setup ℝ} {k : ℕ} (inside : k < setup.declared.dimension)
include inside

theorem coordinateDeclared : ∃ d ∈ setup.parameters,
    setup.parameters[setup.declared.place k]? = some d ∧ d.varies ∧
      setup.declared.parameterAt (setup.declared.place k) = d.parameter (setup.declared.place k) := by
  have free := List.mem_of_getElem? (Space.placed inside)
  obtain ⟨d, here, varies⟩ := (Space.declaringFree _).mp free
  exact ⟨d, List.mem_of_getElem? here, here, varies, Space.declaringAt here⟩

variable (valid : setup.violations = [])
include valid

theorem orderedDeclared :
    (setup.declared.parameterAt (setup.declared.place k)).Ordered := by
  obtain ⟨d, among, _, _, same⟩ := coordinateDeclared inside
  rw [same]
  exact Declaration.parameterOrdered (declarationValid valid among) _

/- Every internal value that a search begins with is one that is found again. -/
theorem startPrincipal
    (narrow : ∀ lo hi, setup.declared.limits k = .both lo hi →
      Limits.margin setup.precision ≤ Real.pi / 2) :
    (setup.declared.limits k).Principal setup.precision (entry setup.declared.internal k) := by
  rw [Space.entryInternal _ (Space.placed inside)]
  exact Limits.internalPrincipal (precisionFine valid).eps2 narrow _

theorem apartDeclared {lo hi : ℝ} (both : setup.declared.limits k = .both lo hi) : lo < hi :=
  (orderedDeclared inside valid).apart both

/- One error is of no width where a search begins only if no error is declared. -/
theorem widthDeclared (objective : Objective ℝ)
    (narrow : ∀ d ∈ setup.parameters, d.varies → d.lower.isSome → d.upper.isSome →
      Limits.margin setup.precision < Real.pi / 2) :
    let s : Surface ℝ := ⟨objective, setup.settings.errorDef, setup.declared⟩
    ∃ d ∈ setup.parameters, setup.parameters[s.space.place k]? = some d ∧ d.varies ∧
      (s.errorWidth k (entry s.space.internal k) ≠ 0 ↔ d.error ≠ 0) := by
  intro s
  obtain ⟨d, among, here, varies, same⟩ := coordinateDeclared inside
  have short (lo hi : ℝ) (both : s.space.limits k = .both lo hi) :
      Limits.margin setup.precision < Real.pi / 2 := by
    obtain ⟨lower, upper⟩ := Parameter.bothLimits both
    rw [same] at lower upper
    obtain ⟨a, b, first, second, _⟩ := Declaration.parameterBoth lower upper
    exact narrow d among varies (first ▸ rfl) (second ▸ rfl)
  have error : (s.space.parameterAt (s.space.place k)).error = d.error :=
    (congrArg Parameter.error same).trans (Declaration.parameterError varies _)
  have principal := startPrincipal inside valid fun lo hi both => (short lo hi both).le
  have least : 0 ≤ (s.space.parameterAt (s.space.place k)).error :=
    error.symm ▸ Declaration.errorLeast (declarationValid valid among) varies
  have zero := Surface.errorWidthVanishes (s := s) (precisionFine valid).eps2
    (orderedDeclared inside valid) principal short least
  exact ⟨d, among, here, varies, not_congr (error ▸ zero)⟩

end Setup

namespace Fit

/- The fit that a setup without violations begins with. -/
theorem setupDeclared {setup : Setup ℝ} (valid : setup.violations = []) (objective : Objective ℝ)
    (algorithm : Algorithm) : ofSetup objective setup algorithm = .ok {
      objective, algorithm, settings := setup.settings
      state := .ofSpace setup.declared } := by
  rw [ofSetup, Setup.stateDeclared valid, Setup.declared, Setup.precision]
  change Except.ok ((new objective _ algorithm).configure setup.settings) = _
  rw [configure]
  cases setup.settings.precision <;> rfl

/- A fit that a setup without violations begins with guesses its gradient without a division by zero where
every parameter that varies has an error, and only there. A margin at the limits that is wider than a branch
of their fold is no margin, so two limits need a precision that leaves it narrow. -/
theorem guessDivides {setup : Setup ℝ} (valid : setup.violations = [])
    (narrow : ∀ d ∈ setup.parameters, d.varies → d.lower.isSome → d.upper.isSome →
      Limits.margin setup.precision < Real.pi / 2)
    (objective : Objective ℝ) (algorithm : Algorithm) :
    ∃ f, ofSetup objective setup algorithm = .ok f ∧
      (∀ k < f.surface.space.dimension, ∃ d ∈ setup.parameters,
        setup.parameters[f.surface.space.place k]? = some d ∧ d.varies ∧
        (f.surface.errorWidth k (entry f.surface.space.internal k) ≠ 0 ↔ d.error ≠ 0) ∧
        (Agrees (Checked.guessAxis f.surface k (entry f.surface.space.internal k))
          (pure (f.surface.guessAxis k (entry f.surface.space.internal k))) ↔ d.error ≠ 0)) ∧
      ((∀ d ∈ setup.parameters, d.varies → d.error ≠ 0) →
        (∀ p, p.x = f.surface.space.internal →
          Agrees (Checked.guess f.surface p) (pure (f.surface.guess p)) ∧
          ∀ k < f.surface.space.dimension, 0 < entry (f.surface.guess p).slopes k ∧
            0 < entry (f.surface.guess p).curvatures k ∧ 0 < entry (f.surface.guess p).steps k) ∧
        ∀ t, (f.seed.run t).1.knowledge.error.Spread f.surface.space.dimension) := by
  refine ⟨_, setupDeclared valid objective algorithm, ?_⟩
  let s : Surface ℝ := ⟨objective, setup.settings.errorDef, setup.declared⟩
  have apart (k : ℕ) (inside : k < s.space.dimension) (lo hi : ℝ) :
      s.space.limits k = .both lo hi → lo < hi := Setup.apartDeclared inside valid
  refine ⟨fun k inside => ?_, fun some => ⟨fun p here => ?_, fun t => ?_⟩⟩
  · obtain ⟨d, among, place, varies, wide⟩ := Setup.widthDeclared inside valid objective narrow
    exact ⟨d, among, place, varies, wide, (Surface.guessAxisAnswers (apart k inside)).trans wide⟩
  · have wide (k : ℕ) (inside : k < s.space.dimension) : s.errorWidth k (entry p.x k) ≠ 0 := by
      obtain ⟨d, among, _, varies, wide⟩ := Setup.widthDeclared inside valid objective narrow
      rw [here]
      exact wide.mpr (some d among varies)
    refine ⟨Surface.guessAgrees apart wide, fun k inside => ?_⟩
    have positive := Surface.guessAxisPositive (Setup.errorDefPositive valid) (wide k inside)
    rwa [← Surface.guessAt (s := s) p inside] at positive
  · have fine : s.precision.Fine := Setup.precisionFine valid
    exact (Surface.seedSpread fine algorithm _ _ _ rfl rfl).answer t

/- A setup of one parameter and no settings of its own. -/
noncomputable def lone (d : Declaration ℝ) : Setup ℝ := ⟨.default, [d]⟩

theorem loneValid {d : Declaration ℝ} (valid : d.violations = []) : (lone d).violations = [] := by
  have settings : (Settings.default : Settings ℝ).violations = [] := by
    norm_num [Settings.violations, Settings.default, Settings.isPositive, Scalar.isFinite]
  simp [Setup.violations, lone, settings, Setup.declarationViolations, valid]

theorem loneDimension {d : Declaration ℝ} (varies : d.varies) : (lone d).declared.dimension = 1 := by
  simp [Space.dimension, Setup.declared, Space.declaring, lone, varies]

theorem loneNarrow (d : Declaration ℝ) : Limits.margin (lone d).precision < Real.pi / 2 := by
  have root : √(2⁻¹ ^ 24 : ℝ) = 2⁻¹ ^ 12 := by
    rw [show (2⁻¹ ^ 24 : ℝ) = (2⁻¹ ^ 12) ^ 2 by norm_num, Real.sqrt_sq (by positivity)]
  have margin : Limits.margin (lone d).precision = 8.0 * √(2⁻¹ ^ 24 : ℝ) := by
    rw [← machineEps2]
    rfl
  rw [margin, root]
  linarith [Real.pi_gt_three, show (8.0 * 2⁻¹ ^ 12 : ℝ) < 1 by norm_num]

/- On the upper one of two limits. -/
noncomputable def pressed : Declaration ℝ :=
  { name := "x", value := 3.0, error := 1, lower := some 0, upper := some 3.0 }

theorem pressedValid : pressed.violations = [] := by
  have named : "x" ≠ "" := by decide
  norm_num [Declaration.violations, pressed, Scalar.isFinite, named]

theorem guessDividesPressed :
    (lone pressed).violations = [] ∧ Limits.margin (lone pressed).precision < Real.pi / 2 ∧
    pressed.lower.isSome ∧ pressed.upper.isSome ∧ pressed.varies ∧ pressed.error ≠ 0 ∧
    ∃ f, ofSetup (.bowl #[0]) (lone pressed) .simplex = .ok f ∧ f.surface.space.dimension = 1 ∧
      f.surface.errorWidth 0 (entry f.surface.space.internal 0) ≠ 0 ∧
      ∀ t, (f.seed.run t).1.knowledge.error.inverse.element 0 0 ≠ 0 := by
  have valid := loneValid pressedValid
  have narrow := loneNarrow pressed
  have error : pressed.error ≠ 0 := one_ne_zero
  obtain ⟨f, made, widths, spread⟩ :=
    guessDivides valid (fun _ _ _ _ _ => narrow) (.bowl #[0]) .simplex
  have some : ∀ d ∈ (lone pressed).parameters, d.varies → d.error ≠ 0 := by
    simpa [lone] using fun _ => error
  have dimension : f.surface.space.dimension = 1 := by
    rw [setupDeclared valid] at made
    cases made
    exact loneDimension rfl
  have inside : 0 < f.surface.space.dimension := dimension ▸ one_pos
  obtain ⟨d, among, _, varies, wide, _⟩ := widths 0 inside
  exact ⟨valid, narrow, rfl, rfl, rfl, error, f, made, dimension, wide.mpr (some d among varies),
    fun t => (spread some).2 t 0 inside⟩

noncomputable def errorless : Declaration ℝ := { name := "x", value := 1, error := 0 }

/- An error of zero is no violation, and nothing can be guessed from it. -/
theorem errorlessUndivided :
    (lone errorless).violations = [] ∧
    ∃ f, ofSetup (.bowl #[0]) (lone errorless) .simplex = .ok f ∧ f.surface.space.dimension = 1 ∧
      f.surface.errorWidth 0 (entry f.surface.space.internal 0) = 0 ∧
      ∀ t, (Checked.guessAxis f.surface 0 (entry f.surface.space.internal 0)).run.run t = (none, t) := by
  have named : "x" ≠ "" := by decide
  have valid : (lone errorless).violations = [] :=
    loneValid (by norm_num [Declaration.violations, errorless, Scalar.isFinite, named])
  have dimension := loneDimension (d := errorless) rfl
  have inside : 0 < (lone errorless).declared.dimension := dimension ▸ one_pos
  obtain ⟨d, among, _, _, wide⟩ := Setup.widthDeclared inside valid (.bowl #[0]) fun _ _ _ _ _ =>
    loneNarrow errorless
  have same : d = errorless := List.mem_singleton.mp among
  have none := not_not.mp (mt wide.mp (by simp [same, errorless]))
  exact ⟨valid, _, setupDeclared valid _ _, dimension, none,
    Surface.guessAxisFails (fun _ _ => Setup.apartDeclared inside valid) none⟩

end Fit
end ParamFit
