import ParamFit.Proofs.Dividing
import ParamFit.Proofs.Line

/-! A line search under checks. The program is the one that searches freely, but it ends without an
answer where two of three points share their abscissa, where a divisor is zero, and where the bounds of a
trial are out of order. None of it happens. Among three points, a trial is kept at a distance from all of
them before it takes the place of one. With two points and a slope it may come back to where the last
trial was; but there it sees the value that it saw before, so the values are as flat as they were and no
parabola is laid. -/
namespace ParamFit

/-! ### The search under checks -/

namespace Checked
open LineSearch
section
variable {α : Type} [Scalar α]

/- The parabola through three samples, none of them above or below another one. -/
def through (p₁ p₂ p₃ : Sample α) : Checked α (Parabola α) :=
  if p₁.x == p₂.x || p₁.x == p₃.x || p₂.x == p₃.x then failure else pure (.through p₁ p₂ p₃)

def clamp (a lo hi : α) : Checked α α := if lo ≤ hi then pure (Scalar.clamp a lo hi) else failure

/- Where a slope vanishes that changes by `bend` along a step. -/
def turning (slope bend : α) : Checked α α := if bend == 0 then pure 1 else divide (-slope) bend

def tangentTrial? (c : Course α) (s : Progress α) : Checked α (Option α) := do
  let x := s.second.x
  let bend ← divide (2.0 * (s.second.y - c.start - c.slope * x)) (x * x)
  let t ← turning c.slope bend
  let t := if t < 0 ∨ t > s.reach then s.reach else t
  let t := if t < s.tolerance then s.tolerance else t
  return if t < c.least then none
    else if Scalar.abs (t - 1) < s.tolerance then
      if s.second.y < s.first.y then none else some (1 + s.tolerance)
    else some t

def parabolaTrial (c : Course α) (s : Progress α) : Checked α α := do
  let p ← through s.first s.second s.third
  let t ←
    if p.a < c.precision.eps2 then
      pure (if 2.0 * p.a * s.best.x + p.b < 0 then s.best.x + s.reach else s.best.x - s.reach)
    else clamp p.xMin (s.best.x - s.reach) (s.best.x + s.reach)
  return if t > 0 then Scalar.min t s.high else Scalar.max t s.low

def refine (probe : α → Eval α α) (c : Course α) (s : Progress α) (t : α) :
    Nat → Checked α (Sample α)
  | 0 => return s.best
  | fuel + 1 => do
    if s.isSettled t then return s.best
    else
      let p : Sample α := ⟨t, ← free (probe t)⟩
      if s.isWorst p then
        let (s, t) := s.retreat t
        if maxRounds ≤ s.rounds then return s.best else refine probe c s t fuel
      else
        let s := s.accept p
        if maxRounds ≤ s.rounds then return s.best
        else
          let s := s.widen
          free (Eval.expect (s.hasBounds c))
          let t ← parabolaTrial c s
          refine probe c s t fuel

def approach (probe : α → Eval α α) (c : Course α) (s : Progress α) : Nat → Checked α (Sample α)
  | 0 => return s.best
  | fuel + 1 => do
    match ← tangentTrial? c s with
    | none => return s.best
    | some t =>
      let s := s.afterTangent ⟨t, ← free (probe t)⟩
      if s.isFlat c then
        let s := s.closer
        if maxRounds ≤ s.rounds then return s.best else approach probe c s fuel
      else
        let s := s.widen
        free (Eval.expect (s.hasBounds c))
        let t ← parabolaTrial c s
        refine probe c s t maxRounds

def lineSearch (s : Surface α) (p : Point α) (step : Array α) (slope : α) (prec : Precision α) :
    Checked α (Sample α) := do
  free (Eval.expect (p.x.size == step.size))
  let probe (t : α) : Eval α α := s.value (p.along step t)
  let c : Course α := ⟨prec, p.value, slope, leastMultiple prec p.x step⟩
  approach probe c (Progress.begin c (← free (probe 1))) maxRounds

end
end Checked

namespace LineSearch
variable {f : ℝ → ℝ} {probe : ℝ → Eval ℝ ℝ} {c : Course ℝ} {s : Progress ℝ}

/-! ### Three points -/

namespace Progress

/- Three points with different abscissae, and a distance at which trials are kept from them. -/
structure Apart (s : Progress ℝ) : Prop where
  tolerance : 0 < s.tolerance
  firstSecond : s.first.x ≠ s.second.x
  firstThird : s.first.x ≠ s.third.x
  secondThird : s.second.x ≠ s.third.x

theorem Apart.fromTrial (apart : s.Apart) {t : ℝ} (unsettled : ¬ s.isSettled t = true) :
    s.first.x ≠ t ∧ s.second.x ≠ t ∧ s.third.x ≠ t := by
  let near : ℝ := Scalar.max s.tolerance (Scalar.abs (s.tolerance * t))
  have positive : 0 < near := by
    change 0 < Scalar.max s.tolerance _
    rw [Exact.max]
    exact lt_max_of_lt_left apart.tolerance
  have away {x : ℝ} (far : ¬ |x - t| < near) : x ≠ t := by
    rintro rfl
    rw [sub_self, abs_zero] at far
    exact far positive
  have far : ¬ (|s.first.x - t| < near ∨ |s.second.x - t| < near ∨ |s.third.x - t| < near) := by
    refine fun close => unsettled ?_
    rw [isSettled, Bool.or_eq_true, Bool.or_eq_true, or_assoc]
    exact close.imp decide_eq_true (.imp decide_eq_true decide_eq_true)
  rw [not_or, not_or] at far
  exact ⟨away far.1, away far.2.1, away far.2.2⟩

/- Whichever point gives way, the trial is apart from the two that stay. -/
theorem Apart.accept (apart : s.Apart) {t : ℝ} (unsettled : ¬ s.isSettled t = true) (y : ℝ) :
    (s.accept ⟨t, y⟩).Apart := by
  obtain ⟨first, second, third⟩ := apart.fromTrial unsettled
  have exchanged : (s.exchange ⟨t, y⟩).Apart := by
    rw [exchange]
    split
    · exact ⟨apart.tolerance, second.symm, third.symm, apart.secondThird⟩
    · split
      · exact ⟨apart.tolerance, first, apart.firstThird, third.symm⟩
      · exact ⟨apart.tolerance, apart.firstSecond, first, second⟩
  rw [Progress.accept]
  dsimp only
  split
  · exact ⟨exchanged.tolerance, exchanged.firstSecond, exchanged.firstThird, exchanged.secondThird⟩
  · exact ⟨exchanged.tolerance, exchanged.firstSecond, exchanged.firstThird, exchanged.secondThird⟩

theorem Apart.widen (apart : s.Apart) : s.widen.Apart :=
  ⟨apart.tolerance, apart.firstSecond, apart.firstThird, apart.secondThird⟩

theorem Apart.trialAgrees (apart : s.Apart) (reach : 0 ≤ s.reach) (c : Course ℝ) :
    Agrees (Checked.parabolaTrial c s) (pure (s.parabolaTrial c)) := by
  have laid : Agrees (Checked.through s.first s.second s.third) (pure s.parabola) := by
    rw [Checked.through, if_neg]
    · exact .pure _
    · simp [apart.firstSecond, apart.firstThird, apart.secondThird]
  have bounds : s.best.x - s.reach ≤ s.best.x + s.reach := by linarith
  have clamped : Agrees
      (Checked.clamp s.parabola.xMin (s.best.x - s.reach) (s.best.x + s.reach))
      (pure (Scalar.clamp s.parabola.xMin (s.best.x - s.reach) (s.best.x + s.reach))) := by
    rw [Checked.clamp, if_pos bounds]
    exact .pure _
  refine .settled laid ?_
  unfold parabolaTrial
  dsimp only
  split
  · exact .settled (.pure _) (.pure _)
  · exact .settled clamped (.pure _)

end Progress

theorem refineAgrees (apart : s.Apart) (t : ℝ) (fuel : ℕ) :
    Agrees (Checked.refine probe c s t fuel) (refine probe c s t fuel) := by
  induction fuel generalizing s t with
  | zero => exact .pure _
  | succ fuel ih =>
    refine .ite (fun _ => .pure _) fun unsettled => ?_
    refine .bindAny (.free _) fun y => .ite (fun _ => ?_) fun _ => ?_
    · refine .ite (fun _ => .pure _) fun _ => ih ?_ _
      exact ⟨apart.tolerance, apart.firstSecond, apart.firstThird, apart.secondThird⟩
    · have accepted := (apart.accept unsettled y).widen
      refine .ite (fun _ => .pure _) fun _ => .bindAny (.free _) fun _ => ?_
      exact .settled (accepted.trialAgrees (Progress.widenReach _) c) (ih accepted _)

/-! ### Two points and a slope -/

namespace Progress

/- The start and a trial ahead of it. Either that trial is the whole step, which no later one comes back
to, or its value has left the search flat. -/
structure Leaning (f : ℝ → ℝ) (c : Course ℝ) (s : Progress ℝ) : Prop where
  tolerance : 0 < s.tolerance
  start : s.first.x = 0
  ahead : 0 < s.second.x
  value : s.second.y = f s.second.x
  again : s.second.x = 1 ∨ s.isFlat c = true ∧ s.best.y ≤ s.second.y

theorem beginLeaning (f : ℝ → ℝ) (c : Course ℝ) : (begin c (f 1)).Leaning f c where
  tolerance := by norm_num [begin]
  start := rfl
  ahead := one_pos
  value := rfl
  again := .inl rfl

theorem raised (a b : ℝ) : a ≤ if b < a then a else b := by
  split
  case isTrue => exact le_refl a
  case isFalse notLess => exact not_lt.mp notLess

/- A trial is ahead of the start, and it is never the whole step. -/
theorem tangentAhead (tolerance : 0 < s.tolerance) {x : ℝ} (trial : s.tangentTrial? c = some x) :
    0 < x ∧ x ≠ 1 := by
  obtain ⟨t, far, found⟩ : ∃ t, s.tolerance ≤ t ∧ (if t < c.least then none
      else if Scalar.abs (t - 1) < s.tolerance then
        if s.second.y < s.first.y then none else some (1 + s.tolerance)
      else some t) = some x := ⟨_, raised s.tolerance _, trial⟩
  split at found
  case isTrue => cases found
  case isFalse =>
    split at found
    case isTrue =>
      split at found
      · cases found
      · cases found
        exact ⟨add_pos one_pos tolerance, (lt_add_of_pos_right 1 tolerance).ne'⟩
    case isFalse off =>
      cases found
      refine ⟨tolerance.trans_le far, ?_⟩
      rintro rfl
      rw [sub_self, Exact.abs, abs_zero] at off
      exact off tolerance

theorem Leaning.trialAgrees (leaning : s.Leaning f c) :
    Agrees (Checked.tangentTrial? c s) (pure (s.tangentTrial? c)) := by
  have square : s.second.x * s.second.x ≠ 0 := (mul_pos leaning.ahead leaning.ahead).ne'
  have turns (bend : ℝ) : Agrees (Checked.turning c.slope bend)
      (pure (if bend == 0 then 1 else -c.slope / bend)) := by
    rw [Checked.turning]
    split
    case isTrue => exact .pure _
    case isFalse bent => exact .divide _ (by simpa using bent)
  exact .settled (.divide _ square) (.settled (turns _) (.pure _))

/- A trial that is not flat is not where the last one was: there it would have seen the same value. -/
theorem Leaning.apart (leaning : s.Leaning f c) {x : ℝ} (trial : s.tangentTrial? c = some x)
    (bent : ¬ (s.afterTangent ⟨x, f x⟩).isFlat c = true) : (s.afterTangent ⟨x, f x⟩).Apart := by
  obtain ⟨ahead, moved⟩ := tangentAhead leaning.tolerance trial
  have start : s.first.x = 0 := leaning.start
  have kept : (s.afterTangent ⟨x, f x⟩).tolerance = s.tolerance ∧
      (s.afterTangent ⟨x, f x⟩).first = s.first ∧ (s.afterTangent ⟨x, f x⟩).second = s.second := by
    rw [afterTangent, note]
    split <;> exact ⟨rfl, rfl, rfl⟩
  have elsewhere : s.second.x ≠ x := by
    rintro rfl
    rcases leaning.again with whole | ⟨flat, low⟩
    · exact moved whole
    · rw [← leaning.value] at bent
      have same : s.note ⟨s.second.x, s.second.y⟩ = s := if_neg (not_lt.mpr low)
      rw [afterTangent, same] at bent
      exact bent flat
  refine ⟨kept.1 ▸ leaning.tolerance, ?_, ?_, ?_⟩
  · rw [kept.2.1, kept.2.2, start]
    exact leaning.ahead.ne
  · rw [kept.2.1, start]
    exact ahead.ne
  · rw [kept.2.2]
    exact elsewhere

/- A flat trial is the last one of the next round. -/
theorem Leaning.closer (leaning : s.Leaning f c) {x : ℝ} (trial : s.tangentTrial? c = some x)
    (flat : (s.afterTangent ⟨x, f x⟩).isFlat c = true) :
    (s.afterTangent ⟨x, f x⟩).closer.Leaning f c := by
  obtain ⟨ahead, _⟩ := tangentAhead leaning.tolerance trial
  have noted : (s.note ⟨x, f x⟩).first = s.first ∧ (s.note ⟨x, f x⟩).best.y ≤ f x := by
    rw [note]
    split
    case isTrue => exact ⟨rfl, le_refl _⟩
    case isFalse higher => exact ⟨rfl, not_lt.mp higher⟩
  refine ⟨mul_pos (by norm_num) ahead, ?_, ahead, rfl, .inr ⟨flat, noted.2⟩⟩
  exact (congrArg Sample.x noted.1).trans leaning.start

end Progress

theorem approachAgrees (probes : ∀ x, Gives (probe x) (· = f x)) (leaning : s.Leaning f c) (fuel : ℕ) :
    Agrees (Checked.approach probe c s fuel) (approach probe c s fuel) := by
  induction fuel generalizing s with
  | zero => exact .pure _
  | succ fuel ih =>
    rw [LineSearch.approach]
    refine .settled leaning.trialAgrees ?_
    cases trial : s.tangentTrial? c with
    | none => exact .pure _
    | some x =>
      refine .bind (.free _) (probes x) fun y known => ?_
      cases known
      refine .ite (fun flat => .ite (fun _ => .pure _) fun _ => ih (leaning.closer trial flat)) ?_
      intro bent
      have apart := (leaning.apart trial bent).widen
      refine .bindAny (.free _) fun _ => .settled ?_ (refineAgrees apart _ _)
      exact apart.trialAgrees (Progress.widenReach _) c

end LineSearch

namespace Surface

/- A line search never lays a parabola through coinciding abscissae, never divides by the multiple zero and
never holds a trial between bounds that are out of order, whatever the objective, the point, the step, the
slope and the precision are: the checks change neither what it finds nor what it asks. -/
theorem lineSearchApart (s : Surface ℝ) (p : Point ℝ) (step : Array ℝ) (slope : ℝ) (prec : Precision ℝ)
    (t : Trace ℝ) : (Checked.lineSearch s p step slope prec).run.run t =
      (some ((s.lineSearch p step slope prec).run t).1, ((s.lineSearch p step slope prec).run t).2) := by
  have probes (x : ℝ) : Gives (s.value (p.along step x)) (· = s.worth (p.along step x)) :=
    valueStays trivial
  have agrees : Agrees (Checked.lineSearch s p step slope prec) (s.lineSearch p step slope prec) := by
    refine .bindAny (.free _) fun _ => .bind (.free _) (probes 1) fun y known => ?_
    cases known
    exact LineSearch.approachAgrees (f := fun x => s.worth (p.along step x)) probes
      (LineSearch.Progress.beginLeaning ..) _
  exact agrees.run t

end Surface
end ParamFit
