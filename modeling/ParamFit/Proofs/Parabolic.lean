import ParamFit.Proofs.Frozen
import ParamFit.Proofs.Overstep

/-! An interval on a parabola. Where one parameter varies and the objective is a parabola in it, the
value has risen by the error definition one error away from the minimum, and the first guess for a
crossing is where the parabola meets its level. The trial there hits the level, so that the secant
through both trials does not move it. Counted in errors, both crossings are as far from the minimum as
the root of the multiple. -/
namespace ParamFit

/- A crossing that was found at a step, while the parameter that is led keeps its error. -/
structure Crossing.At (c : Crossing ℝ) (place : ℕ) (a error : ℝ) : Prop where
  found : c.verdict = .found
  value : c.value = a
  inside : place < c.state.space.parameters.size
  error : (c.state.space.parameterAt place).error = error

theorem Crossing.At.valid {c : Crossing ℝ} {place : ℕ} {a error : ℝ} (there : c.At place a error) :
    c.isValid := by
  rw [Crossing.isValid, there.found]
  rfl

/- A profile that rises is not climbed. -/
theorem Approach.ascendEnd {h : Hunt ℝ} {s : Approach ℝ} (rises : 0 ≤ s.slope) (tr : Tracker ℝ)
    (t : Trace ℝ) : ((Approach.ascend h s).run.run tr).run t = ((.ok s, tr), t) := by
  rw [Approach.ascend, if_neg (not_lt.mpr rises)]
  rfl

/-! ### The search -/

/- A chase along one line on which the objective is a parabola: at the step zero it has risen once. -/
structure Hunt.Parabolic (h : Hunt ℝ) (l : Lead ℝ) (up multiple : ℝ) : Prop where
  line : h.line = [l]
  room : 1 < h.maxCalls
  tolerance : 0 < h.tolerance
  most : h.tolerance ≤ h.limit
  far : 1 ≤ h.limit
  positive : 0 < up
  rise : h.profile.rise = multiple * up
  inside : 1 / 4 ≤ multiple ∧ multiple ≤ 4

def Hunt.parabola (h : Hunt ℝ) (up a : ℝ) : ℝ := h.profile.base + up * (1 + a) ^ 2

namespace Hunt.Parabolic
variable {h : Hunt ℝ} {l : Lead ℝ} {up multiple error : ℝ} (shape : h.Parabolic l up multiple)
include shape

theorem rootStep : -(1 / 2) ≤ √multiple - 1 ∧ √multiple - 1 ≤ 1 := by
  have low : 1 / 2 ≤ √multiple := Real.le_sqrt_of_sq_le (by norm_num; exact shape.inside.1)
  have high : √multiple ≤ 2 := Real.sqrt_le_iff.mpr ⟨by norm_num, by linarith [shape.inside.2]⟩
  exact ⟨by linarith, by linarith⟩

theorem aim : h.aim = h.parabola up (√multiple - 1) := by
  have nonnegative : 0 ≤ multiple := by linarith [shape.inside.1]
  rw [Hunt.aim, Hunt.parabola, add_sub_cancel, Real.sq_sqrt nonnegative, shape.rise, mul_comm up]

theorem high (a : ℝ) : h.profile.base - h.valueTolerance ≤ h.parabola up a := by
  have risen : 0 ≤ up * (1 + a) ^ 2 := mul_nonneg shape.positive.le (sq_nonneg _)
  have gap : 0 < h.valueTolerance := mul_pos (by norm_num) shape.tolerance
  rw [Hunt.parabola]
  linarith

theorem trial {tr : Tracker ℝ} (alone : l.Alone (h.parabola up) error tr.fit) (a : ℝ)
    (t : Trace ℝ) : ∃ m tr' u, ((h.probe a false).run.run tr).run t = ((.ok m, tr'), u) ∧
      l.Alone (h.parabola up) error tr'.fit ∧ tr'.fit.state = m.state ∧
        m.value = h.parabola up a ∧ u.sound = t.sound :=
  Hunt.probeAlone shape.line shape.room alone (fun never => absurd never Bool.false_ne_true)
    (shape.high a) t

theorem top : Scalar.max (h.parabola up 0) (h.profile.base + 0.1 * h.profile.rise) =
    h.parabola up 0 := by
  rw [Exact.max, shape.rise, Hunt.parabola]
  refine max_eq_left ?_
  nlinarith [shape.positive, shape.inside.2]

theorem guess : Approach.quadraticGuess h (h.parabola up 0) = √multiple - 1 := by
  have ratio : h.profile.rise / (h.parabola up 0 - h.profile.base) = multiple := by
    rw [shape.rise, Hunt.parabola, add_sub_cancel_left, add_zero, one_pow, mul_one,
      mul_div_cancel_right₀ _ shape.positive.ne']
  rw [Approach.quadraticGuess]
  exact congrArg (√· - 1) ratio

theorem held : h.cap (Scalar.clamp (√multiple - 1) (-0.5) 1) = (√multiple - 1, false) := by
  obtain ⟨low, high⟩ := shape.rootStep
  have clamped : Scalar.clamp (√multiple - 1) (-0.5) 1 = √multiple - 1 := by
    rw [Scalar.clamp, if_neg (by norm_num at low ⊢; linarith), if_neg (not_lt.mpr high)]
  rw [clamped, Hunt.cap, if_neg (not_lt.mpr (high.trans shape.far))]

/- Between two trials of which the second met the level, the profile rises. -/
theorem chordRises (apart : √multiple - 1 ≠ 0) :
    0 < Approach.chord
      ⟨⟨0, h.parabola up 0⟩, ⟨√multiple - 1, h.parabola up (√multiple - 1)⟩, ⟨0, 0⟩⟩ := by
  have slope : (h.parabola up (√multiple - 1) - h.parabola up 0) / (√multiple - 1 - 0) =
      up * (√multiple + 1) := by
    rw [Hunt.parabola, Hunt.parabola]
    field_simp
    ring
  change 0 < (h.parabola up (√multiple - 1) - h.parabola up 0) / (√multiple - 1 - 0)
  rw [slope]
  exact mul_pos shape.positive (by linarith [Real.sqrt_nonneg multiple])

/- A secant through a trial that met the level does not move it. -/
theorem secantsEnd {s : Approach ℝ} (rises : 0 < s.slope) (met : s.trio.second.y = h.aim) (fuel : ℕ)
    (tr : Tracker ℝ) (t : Trace ℝ) : ((Approach.secants h s (fuel + 1)).run.run tr).run t =
      ((.error ⟨s.trio.second.x, s.latest.state, tr.calls, .found⟩, tr), t) := by
  have step : Approach.secantStep h s = s.trio.second.x := by
    simp [Approach.secantStep, met]
  have near : 0 < h.stepTolerance s.trio.second.x := by
    rw [Hunt.stepTolerance]
    split
    case isTrue wide => exact mul_pos shape.tolerance (zero_lt_one.trans wide)
    case isFalse => exact shape.tolerance
  have close : 0 < h.valueTolerance := mul_pos (by norm_num) shape.tolerance
  have arrived : Approach.secantArrived h s s.trio.second.x = true := by
    simp [Approach.secantArrived, met, near, close]
  rw [Approach.secants, if_neg (by simp [rises.ne']), step]
  dsimp only
  rw [if_pos arrived]
  exact Chase.runEnd (Chase.runStop ..)

theorem search {tr : Tracker ℝ} (alone : l.Alone (h.parabola up) error tr.fit) (t : Trace ℝ) :
    ∃ c tr' u, ((Approach.search h).run.run tr).run t = ((.error c, tr'), u) ∧
      c.At l.place (√multiple - 1) error ∧ u.sound = t.sound := by
  have unlimited : decide (h.limit < 0 + h.tolerance) = false :=
    decide_eq_false (by simpa using shape.most)
  obtain ⟨m, one, u, first, alone, state, value, sound⟩ := shape.trial alone 0 t
  rw [Approach.search, unlimited, Chase.runAnswer first]
  dsimp only
  rw [value, shape.top, shape.guess]
  by_cases near : Scalar.abs (h.parabola up 0 - h.aim) < h.valueTolerance
  case pos =>
    rw [if_pos near]
    refine ⟨_, one, u, Chase.runEnd (Chase.runStop ..), ⟨rfl, rfl, ?_, ?_⟩, sound⟩
    · exact state ▸ alone.inside
    · exact state ▸ alone.error
  case neg =>
    have apart : √multiple - 1 ≠ 0 := fun none => near (by
      rw [shape.aim, none, sub_self, Exact.abs, abs_zero]
      exact mul_pos (by norm_num) shape.tolerance)
    obtain ⟨m, two, v, second, alone, state, value, still⟩ :=
      shape.trial alone (√multiple - 1) u
    rw [if_neg near, shape.held]
    refine ⟨⟨√multiple - 1, m.state, two.calls, .found⟩, two, v, (Chase.runAnswer second).trans ?_,
      ⟨rfl, rfl, state ▸ alone.inside, state ▸ alone.error⟩, still.trans sound⟩
    have rises := shape.chordRises apart
    rw [value, Chase.runAnswer (Approach.ascendEnd rises.le two v)]
    exact Chase.runEnd (shape.secantsEnd rises shape.aim.symm _ two v)

end Hunt.Parabolic

namespace Hunt

/- Without limits, a line is followed for a hundred errors. -/
theorem longestStepFree {space : Space ℝ} {line : List (Lead ℝ)} (free : ∀ l ∈ line,
    l.place < space.parameters.size ∧ (space.parameterAt l.place).limits = .free) :
    longestStep space line = some 100.0 := by
  rw [longestStep]
  generalize (100.0 : ℝ) = longest
  induction line with
  | nil => rfl
  | cons l line ih =>
    obtain ⟨inside, unlimited⟩ := free l (.head _)
    have ahead : limitAhead (space.parameterAt l.place) l.direction = none := by
      obtain ⟨lower, upper⟩ := Parameter.freeLimits.mp unlimited
      rw [limitAhead, lower, upper, ite_self]
    rw [List.foldlM_cons, if_pos inside]
    dsimp only
    rw [ahead, ite_self]
    exact ih fun l later => free l (.tail _ later)

end Hunt

theorem Profile.chaseEnd {p : Profile ℝ} {line : List (Lead ℝ)} {tolerance limit : ℝ} {maxCalls : ℕ}
    {c : Crossing ℝ} {tr : Tracker ℝ} {t u : Trace ℝ}
    (longest : Hunt.longestStep p.state.space line = some limit)
    (ended : ((Approach.search ⟨p, line, tolerance, maxCalls, limit⟩).run.run
      ⟨p.inner, 0, []⟩).run t = ((.error c, tr), u)) :
    (p.chase line tolerance maxCalls).run t = ((c, tr.trials), u) := by
  rw [chase, longest]
  dsimp only
  rw [Eval.runBind]
  change StateT.run ((Approach.search _).run ⟨p.inner, 0, []⟩) t = _ at ended
  rw [ended]
  rfl

namespace Surroundings

/- The declarations a search begins from: the parameter that is led no longer varies, and stands one
error away from the minimum. -/
noncomputable def begun (s : Surroundings ℝ) (side : Side) (i : ℕ) : Space ℝ :=
  { s.state.space.update i Parameter.fix with free := s.state.space.free.erase i }.setValueAt i
    (s.start side i)

theorem besideRun {s : Surroundings ℝ} {side : Side} {i k : ℕ} {rise : ℝ}
    (consistent : s.state.space.Consistent) (varies : i ∈ s.state.space.free)
    (stays : s.follow side i k rise = s.state) : ∃ t, s.beside side i k rise = .ok t ∧
      t.valid = s.state.valid ∧ t.space = s.begun side i := by
  obtain ⟨t, done, valid, fixed⟩ := FitState.fixVarying consistent varies
  rw [Space.fixVarying consistent varies] at fixed
  refine ⟨{ t with space := t.space.setValueAt i (s.start side i) }, ?_, valid, ?_⟩
  · rw [beside, stays, done]
    rfl
  · exact congrArg (·.setValueAt i (s.start side i)) (Except.ok.inj fixed).symm

/- The minimum of a parabola in the only parameter that varies, of which the curvature is known. -/
structure Parabolic (s : Surroundings ℝ) (i : ℕ) (k c m : ℝ) : Prop where
  consistent : s.minimum.seed.space.Consistent
  only : s.minimum.seed.space.free = [i]
  unlimited : (s.minimum.seed.space.parameterAt i).limits = .free
  opens : 0 < k
  curve (v : ℝ) : s.objective.value (s.minimum.seed.space.values.setIfInBounds i v) =
    k * (v - c) ^ 2 + m
  reads (v : ℝ) : s.objective.reads (s.minimum.seed.space.values.setIfInBounds i v) ≤
    s.minimum.seed.space.values.size
  point : s.minimum.last.point.x = #[c]
  value : s.minimum.last.point.value = m
  status : s.minimum.last.error.status = .valid
  size : s.minimum.last.error.inverse.size = 1
  inverse : s.minimum.last.error.inverse.element 0 0 = 1 / (2 * k)
  level : 0 < s.minimum.errorDef

namespace Parabolic
variable {s : Surroundings ℝ} {i : ℕ} {k c m : ℝ} (shape : s.Parabolic i k c m)
include shape

theorem inside : i < s.minimum.seed.space.parameters.size :=
  shape.consistent.within (by rw [shape.only]; exact .head _)

theorem internalError :
    s.minimum.last.internalError s.minimum.errorDef 0 = √(s.minimum.errorDef / k) := by
  have available : s.minimum.last.hasCovariance := by
    rw [Knowledge.hasCovariance, ErrorMatrix.isAvailable, shape.status]
    rfl
  rw [Knowledge.internalError, if_pos available, shape.inverse]
  change √(2.0 * s.minimum.errorDef * (1 / (2 * k))) = _
  have apart := shape.opens.ne'
  have two : (2.0 : ℝ) = 2 := by norm_num
  rw [two]
  congr 1
  field_simp

/- The minimum has the parameter at the vertex, with the error at which the value has risen once. -/
theorem space : s.state.space =
    (s.minimum.seed.space.setValueAt i c).setErrorAt i √(s.minimum.errorDef / k) := by
  have limits : s.minimum.seed.space.limits 0 = .free := by
    rw [Space.limits, Space.place, shape.only]
    exact shape.unlimited
  rw [state, Minimum.state, FitState.ofKnowledgeSpace, Knowledge.setParameters, shape.only]
  change (s.minimum.seed.space.setValueAt i (s.minimum.seed.space.toExternal 0
    (entry s.minimum.last.point.x 0))).setErrorAt i (s.minimum.seed.space.externalError 0 _
      (s.minimum.last.internalError s.minimum.errorDef 0)) = _
  rw [Space.toExternal, Space.externalError, limits, shape.point, shape.internalError]
  rfl

theorem free : s.state.space.free = [i] := by
  rw [shape.space]
  exact shape.only

theorem minimumConsistent : s.state.space.Consistent :=
  s.minimum.stateMoved.consistent shape.consistent

theorem varies : i ∈ s.state.space.free := by
  rw [shape.free]
  exact .head _

theorem index : s.state.space.indexOf (.index i) = .ok i :=
  if_pos (shape.minimumConsistent.within shape.varies)

theorem searched {p : Address} (here : s.state.space.indexOf p = .ok i) :
    s.searched p = .ok (i, 0) := by
  refine searchedPlaced shape.minimumConsistent here ?_
  rw [Space.place?, shape.free]
  rfl

theorem followStays (side : Side) (rise : ℝ) : s.follow side i 0 rise = s.state := by
  have one : s.minimum.last.error.covariance.size = 1 := shape.size
  rw [follow, one]
  rfl

theorem parameter : s.state.space.parameterAt i =
    ((s.minimum.seed.space.parameterAt i).setValue c).setError √(s.minimum.errorDef / k) := by
  have inside : i < (s.minimum.seed.space.setValueAt i c).parameters.size :=
    (Array.size_modify ..).symm ▸ shape.inside
  have set := Space.parameterHere shape.inside (·.setValue c)
  rw [shape.space, Space.setErrorAt, Space.parameterHere inside]
  exact congrArg (·.setError √(s.minimum.errorDef / k)) set

theorem spotValue (side : Side) (a : ℝ) :
    k * ((s.lead side i).spot a - c) ^ 2 + m =
      s.minimum.value + s.minimum.errorDef * (1 + a) ^ 2 := by
  have square : √(s.minimum.errorDef / k) ^ 2 = s.minimum.errorDef / k :=
    Real.sq_sqrt (div_nonneg shape.level.le shape.opens.le)
  have base : s.minimum.value = m := shape.value
  have there : (s.lead side i).spot a - c = side.sign * (√(s.minimum.errorDef / k) * (1 + a)) := by
    rw [s.leadSpot, shape.parameter]
    exact add_sub_cancel_left c _
  rw [there, mul_pow, mul_pow, side.signSquare, square, base]
  field_simp [shape.opens.ne']
  ring

theorem begunParameter (side : Side) : (s.begun side i).parameterAt i =
    (s.state.space.parameterAt i).fix.setValue (s.start side i) := by
  have inside := shape.minimumConsistent.within shape.varies
  have fixed := Space.parameterHere inside Parameter.fix
  rw [← fixed]
  exact Space.parameterHere ((Array.size_modify ..).symm ▸ inside) (·.setValue (s.start side i))

theorem begunValues (side : Side) (v : ℝ) : (s.begun side i).values.setIfInBounds i v =
    s.minimum.seed.space.values.setIfInBounds i v := by
  rw [begun, shape.space]
  exact (Array.setIfInBounds_setIfInBounds ..).trans (Array.setIfInBounds_setIfInBounds ..)

theorem begunStill (side : Side) : (s.begun side i).free = [] := by
  change s.state.space.free.erase i = []
  rw [shape.free, List.erase_cons_head]

theorem usable : s.state.valid := by
  rw [state, Minimum.stateValidLast, Knowledge.isValid, ErrorMatrix.isValid, shape.status,
    beq_self_eq_true, ite_self]

/- Beside the parameter that is led nothing varies, and along it the objective is a parabola that has
risen once where the search starts. -/
theorem beside (side : Side) (rise : ℝ) : ∃ t, s.beside side i 0 rise = .ok t ∧
    (t.space.parameterAt i).limits = .free ∧
    (s.lead side i).Alone (fun a => s.minimum.value + s.minimum.errorDef * (1 + a) ^ 2)
      √(s.minimum.errorDef / k) (s.profile t rise).inner := by
  obtain ⟨t, put, valid, space⟩ :=
    besideRun shape.minimumConsistent shape.varies (shape.followStays side rise)
  have here := shape.begunParameter side
  have values := shape.begunValues side
  have still := shape.begunStill side
  rw [← space] at here values still
  have size : s.minimum.seed.space.values.size = t.space.values.size := by
    simp [space, begun, shape.space, Space.setValueAt, Space.setErrorAt, Space.update]
  have inside : i < t.space.parameters.size := by
    rw [space]
    exact (Array.size_modify ..).symm ▸ (Array.size_modify ..).symm ▸
      shape.minimumConsistent.within shape.varies
  refine ⟨t, put, ?_, rfl, rfl, valid.trans shape.usable, still, inside, fun a => ?_, fun a => ?_, ?_⟩
  · rw [here, shape.parameter]
    exact shape.unlimited
  · refine (congrArg s.objective.value (values _)).trans ?_
    exact (shape.curve _).trans (shape.spotValue side a)
  · exact (congrArg s.objective.reads (values _)).trans_le ((shape.reads _).trans_eq size)
  · exact (congrArg Parameter.error here).trans (congrArg Parameter.error shape.parameter)

theorem room {maxCalls : ℕ} (room : maxCalls = 0 ∨ 2 ≤ maxCalls) : 1 < s.budget maxCalls := by
  have one : s.state.space.dimension = 1 := by rw [Space.dimension, shape.free]; rfl
  rw [budget, one]
  obtain rfl | most := room
  · decide
  · rwa [if_neg (by omega)]

theorem crossingAt {p : Address} (here : s.state.space.indexOf p = .ok i) {multiple : ℝ}
    (inside : 1 / 4 ≤ multiple ∧ multiple ≤ 4) {maxCalls : ℕ}
    (room : maxCalls = 0 ∨ 2 ≤ maxCalls) (side : Side) (t : Trace ℝ) :
    ∃ x u, (s.crossing side p multiple maxCalls).run.run t = (.ok x, u) ∧
      x.At i (√multiple - 1) √(s.minimum.errorDef / k) ∧ u.sound = t.sound := by
  obtain ⟨start, put, free, alone⟩ := shape.beside side (s.rise multiple)
  have longest := Hunt.longestStepFree (List.forall_mem_singleton.mpr ⟨alone.inside, free⟩)
  let h : Hunt ℝ :=
    ⟨s.profile start (s.rise multiple), [s.lead side i], tolerance, s.budget maxCalls, 100.0⟩
  have tenth : h.tolerance = 1 / 10 := by
    change (0.1 : ℝ) = 1 / 10
    norm_num
  have hundred : h.limit = 100 := by
    change (100.0 : ℝ) = 100
    norm_num
  have parabolic : h.Parabolic (s.lead side i) s.minimum.errorDef multiple := {
    line := rfl
    room := shape.room room
    tolerance := by norm_num [tenth]
    most := by norm_num [tenth, hundred]
    far := by norm_num [hundred]
    positive := shape.level
    rise := rfl
    inside }
  let tr : Tracker ℝ := ⟨h.profile.inner, 0, []⟩
  have led : (s.lead side i).Alone (h.parabola s.minimum.errorDef) √(s.minimum.errorDef / k) tr.fit :=
    alone
  obtain ⟨x, tr', u, ended, there, sound⟩ := parabolic.search led t
  refine ⟨x, u, ?_, there, sound⟩
  rw [crossingRun (shape.searched here) put, Profile.chaseEnd longest ended]

end Parabolic

theorem intervalRun {s : Surroundings ℝ} {p : Address} {i : ℕ} {multiple : ℝ} {maxCalls : ℕ}
    {upper lower : Crossing ℝ} {t u v : Trace ℝ} (here : s.state.space.indexOf p = .ok i)
    (above : (s.crossing .upper (.index i) multiple maxCalls).run.run t = (.ok upper, u))
    (below : (s.crossing .lower (.index i) multiple maxCalls).run.run u = (.ok lower, v)) :
    (s.interval p multiple maxCalls).run.run t =
      (.ok ⟨i, (s.state.space.parameterAt i).value, lower, upper⟩, v) := by
  rw [interval, here]
  exact (Attempt.runAnswer above).trans ((Attempt.runAnswer below).trans rfl)

end Surroundings

namespace Interval

theorem rangeAt {n : Interval ℝ} {a error : ℝ} (lower : n.lower.At n.place a error)
    (upper : n.upper.At n.place a error) : n.range = (-(error * (1 + a)), error * (1 + a)) := by
  have known {c : Crossing ℝ} (there : c.At n.place a error) : n.error c = error := by
    rw [Interval.error, Space.declaredHere there.inside, ← there.error]
    rfl
  have unlimited (side : Side) (found : (n.crossing side).verdict = .found) :
      n.limit? side = none := by
    rw [Interval.limit?, found]
    rfl
  rw [Interval.range, Interval.offset, Interval.offset, unlimited .lower lower.found,
    unlimited .upper upper.found]
  dsimp only [Interval.crossing]
  rw [known lower, known upper, lower.value, upper.value, neg_mul]

end Interval

namespace Surroundings

/- Where one parameter varies without limits and the objective is a parabola in it, both crossings are
found where the parabola meets the level. -/
theorem intervalExact {s : Surroundings ℝ} {i : ℕ} {k c m : ℝ} (shape : s.Parabolic i k c m)
    {p : Address} (here : s.state.space.indexOf p = .ok i) {multiple : ℝ}
    (inside : 1 / 4 ≤ multiple ∧ multiple ≤ 4) {maxCalls : ℕ}
    (room : maxCalls = 0 ∨ 2 ≤ maxCalls) :
    (∀ side, ∃ x asked, (s.crossing side p multiple maxCalls).run.run? {} = some (.ok x, asked) ∧
      x.isValid ∧ x.value = √multiple - 1) ∧
    ∃ n asked, (s.interval p multiple maxCalls).run.run? {} = some (.ok n, asked) ∧ n.isValid ∧
      let reach := √(multiple * s.minimum.errorDef / k)
      n.range = (-reach, reach) := by
  refine ⟨fun side => ?_, ?_⟩
  · obtain ⟨x, u, run, there, sound⟩ := shape.crossingAt here inside room side {}
    exact ⟨x, u, Eval.runAnswers.mpr ⟨run, sound⟩, there.valid, there.value⟩
  obtain ⟨upper, u, above, high, sound⟩ := shape.crossingAt shape.index inside room .upper {}
  obtain ⟨lower, v, below, low, still⟩ := shape.crossingAt shape.index inside room .lower u
  have reach : √(s.minimum.errorDef / k) * (1 + (√multiple - 1)) =
      √(multiple * s.minimum.errorDef / k) := by
    rw [add_sub_cancel, mul_comm, mul_div_assoc]
    exact (Real.sqrt_mul (by linarith [inside.1]) _).symm
  refine ⟨_, v, Eval.runAnswers.mpr ⟨intervalRun here above below, still.trans sound⟩, ?_, ?_⟩
  · rw [Interval.isValid, low.valid, high.valid]
    rfl
  · rw [Interval.rangeAt low high, reach]

/- The minimum of a parabola in one of two parameters, of which the other one is a constant. -/
noncomputable def vertex : Surroundings ℝ :=
  let known : Knowledge ℝ :=
    ⟨.plain #[1] 3, .usable (.ofDiagonal #[0.5]) 0, .numerical #[0] #[2.0] #[0.01], 0, 1⟩
  let space : Space ℝ := Space.empty.run [.add "x" 0 1, .addConstant "y" 3]
  ⟨.plain fun x => 1 * (entry x 0 - 1) ^ 2 + entry x 1, .ofSeed ⟨known, space⟩ 1, .medium⟩

theorem vertexParabolic : vertex.Parabolic 0 1 1 3 where
  consistent := Space.emptyConsistent.run fun a _ => Space.comparableExact a
  only := rfl
  unlimited := rfl
  opens := one_pos
  curve _ := rfl
  reads _ := Nat.zero_le _
  point := rfl
  value := rfl
  status := rfl
  size := rfl
  inverse := by
    change (0.5 : ℝ) = 1 / (2 * 1)
    norm_num
  level := one_pos

theorem intervalExactVertex :
    vertex.Parabolic 0 1 1 3 ∧ vertex.state.space.indexOf (.index 0) = .ok 0 ∧
    (∀ side, ∃ x asked, (vertex.crossing side (.index 0) 4 0).run.run? {} = some (.ok x, asked) ∧
      x.isValid ∧ x.value = √4 - 1) ∧
    ∃ n asked, (vertex.interval (.index 0) 4 0).run.run? {} = some (.ok n, asked) ∧ n.isValid ∧
      n.range = (-2, 2) := by
  have two : √(4 * vertex.minimum.errorDef / 1) = 2 := by
    change √(4 * 1 / 1) = 2
    rw [show (4 * 1 / 1 : ℝ) = 2 * 2 by norm_num]
    exact Real.sqrt_mul_self two_pos.le
  have inside : (1 / 4 : ℝ) ≤ 4 ∧ (4 : ℝ) ≤ 4 := by norm_num
  obtain ⟨crossings, n, asked, run, valid, range⟩ :=
    intervalExact vertexParabolic vertexParabolic.index inside (.inl rfl)
  rw [two] at range
  exact ⟨vertexParabolic, vertexParabolic.index, crossings, n, asked, run, valid, range⟩

end Surroundings
end ParamFit
