import ParamFit.Proofs.Meeting
import ParamFit.Proofs.Staging

/-! Along which line a secant aims. Its slope is that of both samples at hand after every trial along the
line and after every exchange of the worst sample. Where the third of three samples below the level takes
the place of the second, the slope stays as it was; only if it falls does a trial along the line follow.
Otherwise the next secant goes through the new sample in the old direction. -/
namespace ParamFit
open Approach

/-! ### What a secant goes through -/

namespace Approach

section
variable [Scalar α]

/- One sample surveyed after others. -/
def surveyNext (aim : α) (t : Trio α) (s : Survey α) (i : Fin 3) : Survey α :=
  let y := (t.get i).y
  let gap := Scalar.abs (y - aim)
  let s := if gap > s.most then { s with most := gap, worst := i } else s
  let s := if gap < s.least then { s with least := gap, best := i } else s
  if y < aim then { s with below := s.below + 1 } else s

theorem surveyFold (aim : α) (t : Trio α) : survey aim t =
    Trio.places.foldl (surveyNext aim t) ⟨Scalar.abs (t.third.y - aim), 0, 2, 0, 0⟩ := rfl

theorem surveyBelow (aim : α) (t : Trio α) (v : Survey α) (i : Fin 3) :
    (surveyNext aim t v i).below = if (t.get i).y < aim then v.below + 1 else v.below := by
  simp only [surveyNext]
  split_ifs <;> rfl

theorem surveyBest (aim : α) (t : Trio α) (v : Survey α) (i : Fin 3) :
    ((surveyNext aim t v i).least, (surveyNext aim t v i).best) =
      if Scalar.abs ((t.get i).y - aim) < v.least then (Scalar.abs ((t.get i).y - aim), i)
      else (v.least, v.best) := by
  simp only [surveyNext]
  split_ifs <;> simp_all

end

variable {aim : ℝ} {t : Trio ℝ} {h : Hunt ℝ} {s u : Approach ℝ}

/- What a survey knows of some samples that were seen: whether all of them are below the level, and which
one is nearest to it. The third sample is the nearest one unless another one is nearer. -/
structure Surveyed (aim : ℝ) (t : Trio ℝ) (seen : List (Fin 3)) (v : Survey ℝ) : Prop where
  few : v.below ≤ seen.length
  below : v.below = seen.length ↔ ∀ i ∈ seen, (t.get i).y < aim
  least : v.least = |(t.get v.best).y - aim|
  nearest : ∀ i ∈ seen, v.least ≤ |(t.get i).y - aim|
  best : v.best ≠ 2 → v.least < |t.third.y - aim|

theorem Surveyed.most {seen : List (Fin 3)} {v : Survey ℝ} (surveyed : Surveyed aim t seen v) :
    v.least ≤ |t.third.y - aim| := by
  by_cases third : v.best = 2
  · exact (surveyed.least.trans (by rw [third]; rfl)).le
  · exact (surveyed.best third).le

theorem Surveyed.next {seen : List (Fin 3)} {v : Survey ℝ} (surveyed : Surveyed aim t seen v) (i : Fin 3) :
    Surveyed aim t (i :: seen) (surveyNext aim t v i) := by
  have counted := surveyBelow aim t v i
  have chosen := surveyBest aim t v i
  have most := surveyed.most
  generalize surveyNext aim t v i = w at counted chosen
  obtain ⟨few, below, least, nearest, best⟩ := surveyed
  have lower : w.below ≤ (i :: seen).length ∧
      (w.below = (i :: seen).length ↔ ∀ j ∈ i :: seen, (t.get j).y < aim) := by
    rw [counted, List.length_cons, List.forall_mem_cons, ← below]
    split
    case isTrue low => exact ⟨by omega, fun all => ⟨low, by omega⟩, fun all => by omega⟩
    case isFalse high => exact ⟨by omega, fun all => by omega, fun all => absurd all.1 high⟩
  split at chosen
  case isTrue nearer =>
    obtain ⟨distance, here⟩ := Prod.mk.inj chosen
    have less : w.least < v.least := distance ▸ nearer
    refine ⟨lower.1, lower.2, distance.trans (by rw [here]; rfl), fun j among => ?_, fun _ =>
      less.trans_le most⟩
    rcases List.mem_cons.mp among with rfl | among
    · exact distance.le
    · exact less.le.trans (nearest j among)
  case isFalse farther =>
    obtain ⟨distance, here⟩ := Prod.mk.inj chosen
    refine ⟨lower.1, lower.2, by rw [distance, here, least], fun j among => ?_, fun other => ?_⟩
    · rw [distance]
      rcases List.mem_cons.mp among with rfl | among
      · exact not_lt.mp farther
      · exact nearest j among
    · exact distance ▸ best (here ▸ other)

theorem surveyed (aim : ℝ) (t : Trio ℝ) : Surveyed aim t [2, 1, 0] (survey aim t) := by
  have start : Surveyed aim t [] ⟨Scalar.abs (t.third.y - aim), 0, 2, 0, 0⟩ :=
    ⟨le_rfl, iff_of_true rfl (fun _ => nofun), rfl, fun _ => nofun, fun other => absurd rfl other⟩
  rw [surveyFold]
  exact ((start.next 0).next 1).next 2

theorem everyPlace (i : Fin 3) : i ∈ [2, 1, 0] := by
  fin_cases i <;> simp

/- All three samples are below the level, and the third one is farther from it than another one. -/
structure Overtaken (h : Hunt ℝ) (u : Approach ℝ) : Prop where
  below (i : Fin 3) : (u.trio.get i).y < h.aim
  farther : ∃ i, |(u.trio.get i).y - h.aim| < |u.trio.third.y - h.aim|

theorem overtaken (aside : ¬ ((survey h.aim u.trio).below = 1 ∨ (survey h.aim u.trio).below = 2))
    (below : (survey h.aim u.trio).below ≠ 0) (best : (survey h.aim u.trio).best ≠ 2) :
    u.Overtaken h := by
  have known := surveyed h.aim u.trio
  have three : (survey h.aim u.trio).below = 3 := by
    have few : (survey h.aim u.trio).below ≤ 3 := known.few
    omega
  exact ⟨fun i => known.below.mp three i (everyPlace i), _, known.least ▸ known.best best⟩

/- The step of a secant is where the straight line through both samples at hand meets the level. -/
structure Straight (h : Hunt ℝ) (s : Approach ℝ) : Prop where
  apart : s.trio.first.x ≠ s.trio.second.x
  meets (m b : ℝ) (first : s.trio.first.y = m * s.trio.first.x + b)
    (second : s.trio.second.y = m * s.trio.second.x + b) : m * secantStep h s + b = h.aim

theorem straight (steep : s.slope ≠ 0) (drawn : s.slope = chord s.trio) : s.Straight h := by
  have run := chordRun (drawn ▸ steep)
  refine ⟨fun same => run (sub_eq_zero.mpr same.symm), fun m b first second => ?_⟩
  have slope : s.slope = m := by
    refine drawn.trans (mul_right_cancel₀ run ?_)
    rw [← chordRise run, first, second]
    ring
  have here : secantStep h s = s.trio.second.x + (h.aim - s.trio.second.y) / s.slope := rfl
  rw [here, slope, second]
  rw [slope] at steep
  field_simp
  ring

/- Between samples of which the second is below the level, no other slope leads there. -/
theorem straightIff (low : s.trio.second.y < h.aim) (steep : s.slope ≠ 0) :
    s.Straight h ↔ s.slope = chord s.trio := by
  refine ⟨fun aims => ?_, straight steep⟩
  have rise := chordRise (sub_ne_zero.mpr (Ne.symm aims.apart))
  have gap : h.aim - s.trio.second.y ≠ 0 := (sub_pos.mpr low).ne'
  have here : secantStep h s = s.trio.second.x + (h.aim - s.trio.second.y) / s.slope := rfl
  have met := aims.meets (chord s.trio) (s.trio.second.y - chord s.trio * s.trio.second.x)
    (by linarith) (by ring)
  have along : chord s.trio * ((h.aim - s.trio.second.y) / s.slope) = h.aim - s.trio.second.y := by
    rw [here] at met
    linarith
  rw [mul_div_assoc', div_eq_iff steep, mul_comm] at along
  exact (mul_left_cancel₀ gap along).symm

end Approach

/-! ### Where a slope comes from -/

/- A sample shows a trial, with the value that the trial came to. -/
def Sample.Drawn (trials : List (Trial ℝ)) (q : Sample ℝ) : Prop := ∃ r ∈ trials, q = ⟨r.step, r.value⟩

/- The second sample shows a trial, and the slope goes from the first sample to a trial. -/
structure Approach.Leans (trials : List (Trial ℝ)) (s : Approach ℝ) : Prop where
  second : s.trio.second.Drawn trials
  slope : ∃ q, q.Drawn trials ∧ s.slope = Sample.slope s.trio.first q

def Stage.Leans (trials : List (Trial ℝ)) : Stage ℝ → Prop
  | start | begun _ | bracketed _ _ => True
  | climbing s _ | seeking s => s.Leans trials
  | sighted s => s.Leans trials ∧ s.trio.third.Drawn trials

section
variable {trials : List (Trial ℝ)} {r : Trial ℝ} {s : Approach ℝ}

theorem Sample.drawnHere (a : ℝ) (m : Minimum ℝ) :
    Sample.Drawn (⟨a, m.value, m.calls⟩ :: trials) ⟨a, m.value⟩ := ⟨_, .head _, rfl⟩

theorem Sample.Drawn.more {q : Sample ℝ} (drawn : q.Drawn trials) : q.Drawn (r :: trials) :=
  have ⟨p, among, same⟩ := drawn
  ⟨p, .tail _ among, same⟩

theorem Approach.Leans.more (leans : s.Leans trials) : s.Leans (r :: trials) :=
  have ⟨q, drawn, slope⟩ := leans.slope
  ⟨leans.second.more, q, drawn.more, slope⟩

theorem Approach.leansChord (drawn : s.trio.second.Drawn trials) (slope : s.slope = chord s.trio) :
    s.Leans trials := ⟨drawn, _, drawn, slope⟩

end

namespace Stage
variable {h : Hunt ℝ} {trials : List (Trial ℝ)} {stage next : Stage ℝ}

theorem Tries.leans {trial : ℝ × Bool} {next : Minimum ℝ → Stage ℝ} (tries : stage.Tries h trial next)
    (m : Minimum ℝ) (leans : stage.Leans trials) :
    (next m).Leans (⟨trial.1, m.value, m.calls⟩ :: trials) := by
  have here : Sample.Drawn (⟨trial.1, m.value, m.calls⟩ :: trials) ⟨trial.1, m.value⟩ :=
    Sample.drawnHere trial.1 m
  cases tries with
  | begins => trivial
  | opens | climbs => exact leansChord here rfl
  | sights => exact ⟨⟨leans.1.more, leans.more.slope⟩, here⟩
  | refines => trivial

/- After a trial along the line, the slope is that of the samples at hand. -/
theorem Tries.climbing {trial : ℝ × Bool} {next : Minimum ℝ → Stage ℝ}
    (tries : stage.Tries h trial next) {m : Minimum ℝ} {s : Approach ℝ} {made : ℕ}
    (here : next m = .climbing s made) : s.slope = chord s.trio := by
  cases tries with
  | opens | climbs => cases here; rfl
  | begins | sights | refines => cases here

theorem Tries.notSeeking {trial : ℝ × Bool} {next : Minimum ℝ → Stage ℝ}
    (tries : stage.Tries h trial next) (m : Minimum ℝ) (s : Approach ℝ) : next m ≠ .seeking s := by
  cases tries <;> nofun

theorem Turns.leans (turns : stage.Turns h next) (leans : stage.Leans trials) : next.Leans trials := by
  cases turns with
  | risen => exact leans
  | brackets => trivial
  | @replaces s _ _ =>
    refine leansChord ?_ rfl
    have known : Sample.Drawn trials ((s.trio.set (survey h.aim s.trio).worst s.trio.third).get 1) := by
      rw [Trio.getSet]
      split
      · exact leans.2
      · exact leans.1.second
    exact known
  | restarts => exact ⟨leans.2, leans.1.slope⟩

end Stage

namespace Hunt.Passes
variable {h : Hunt ℝ} {trials : List (Trial ℝ)} {stage : Stage ℝ} {s : Approach ℝ}

theorem leans (passes : h.Passes trials stage) : stage.Leans trials := by
  induction passes with
  | start => trivial
  | tries m _ tries _ leans => exact tries.leans m leans
  | turns _ turns leans => exact turns.leans leans

/- Along the line, the slope is that of the samples at hand, except where a search begins again. -/
theorem climbing {made : ℕ} (passes : h.Passes trials (.climbing s made)) : s.slope = chord s.trio ∨
    made = 0 ∧ ∃ u, h.Passes trials (.sighted u) ∧ u.Overtaken h ∧ s = u.restart := by
  generalize here : Stage.climbing s made = stage at passes
  cases passes with
  | start => cases here
  | tries m _ tries _ => exact .inl (tries.climbing here.symm)
  | turns before turns =>
    cases turns with
    | restarts aside below best =>
      cases here
      exact .inr ⟨rfl, _, before, overtaken aside below best, rfl⟩
    | risen | brackets | replaces => cases here

end Hunt.Passes

namespace Approach

/- A search has begun again: the third of three samples below the level has taken the place of the
second, though another one is nearer, and no step along the line has followed. The slope still goes from
the first sample to a trial from before. -/
structure Restarted (h : Hunt ℝ) (trials : List (Trial ℝ)) (s : Approach ℝ) : Prop where
  begun : ∃ u, h.Passes trials (.sighted u) ∧ u.Overtaken h ∧ s = u.restart
  stays : ¬ s.slope < 0 ∨ s.count = maxCount
  slope : ∃ q, q.Drawn trials ∧ s.slope = Sample.slope s.trio.first q

end Approach

theorem Hunt.Passes.seeking {h : Hunt ℝ} {trials : List (Trial ℝ)} {s : Approach ℝ}
    (passes : h.Passes trials (.seeking s)) : s.slope = chord s.trio ∨ s.Restarted h trials := by
  have leans : s.Leans trials := passes.leans
  generalize here : Stage.seeking s = stage at passes
  cases passes with
  | start => cases here
  | tries m _ tries _ => exact absurd here.symm (tries.notSeeking m s)
  | turns before turns =>
    cases turns with
    | replaces => cases here; exact .inl rfl
    | risen done =>
      cases here
      rcases before.climbing with drawn | ⟨rfl, begun⟩
      · exact .inl drawn
      · refine .inr ⟨begun, ?_, leans.slope⟩
        rcases done with ⟨-, rises⟩ | ⟨positive, -⟩ | most
        · exact .inl rises
        · exact absurd positive (lt_irrefl 0)
        · exact .inr most
    | brackets | restarts => cases here

/-! ### A search that has begun again -/

namespace Hunt
variable {h : Hunt ℝ} {l : Lead ℝ} {curve : ℝ → ℝ} {error a : ℝ} {stage : Stage ℝ} {tr : Tracker ℝ}
  {next : Minimum ℝ → Stage ℝ}

/- Where nothing varies, a stage is left for the one to which the value at the next step leads. -/
theorem Passes.trial (before : h.Passes tr.trials stage) (tries : stage.Tries h (a, false) next)
    (line : h.line = [l]) (room : 1 < h.maxCalls) (alone : l.Alone curve error tr.fit)
    (high : h.profile.base - h.valueTolerance ≤ curve a) (t : Trace ℝ) :
    ∃ m tr' u, ((h.probe a false).run.run tr).run t = ((.ok m, tr'), u) ∧
      l.Alone curve error tr'.fit ∧ m.value = curve a ∧ h.Passes tr'.trials (next m) := by
  obtain ⟨m, tr', u, run, left, -, value, -⟩ :=
    probeAlone line room alone (fun never => absurd never Bool.false_ne_true) high t
  have passed := probePasses tries tr t before
  rw [run] at passed
  exact ⟨m, tr', u, run, left, value, passed⟩

/- Trials are added to those made before. -/
theorem movesAdd (h : Hunt ℝ) (made : List (Trial ℝ)) :
    Keeps h (fun _ tr _ => made <:+ tr.trials) fun _ tr _ => made <:+ tr.trials := by
  have adds {a : ℝ} {limited : Bool} : Chase.Ensures (fun tr _ => made <:+ tr.trials)
      (h.probe a limited) (fun _ tr _ => made <:+ tr.trials) fun _ tr _ => made <:+ tr.trials :=
    probeEnsures (fun _ _ => id) (fun _ _ _ _ _ among _ _ _ _ => among.trans (List.suffix_cons ..))
      fun _ _ _ _ _ among _ _ => among.trans (List.suffix_cons ..)
  exact {
    expects := fun _ => id
    lost := id
    begins := adds
    decided := fun _ => id
    opens := fun _ => adds
    climbs := fun _ _ _ => adds
    risen := fun _ => id
    arrives := fun _ _ => id
    sights := fun _ _ => adds
    brackets := fun _ => id
    replaces := fun _ _ => id
    restarts := fun _ _ _ => id
    crosses := fun _ _ _ => id
    refines := fun _ _ _ => adds }

end Hunt

namespace Approach
variable {h : Hunt ℝ} {s : Approach ℝ} {a : ℝ} {limited : Bool} {tr tr' tr'' : Tracker ℝ}
  {t u v : Trace ℝ} {m n : Minimum ℝ}

/- After two trials, of which the first one did not decide, and no step along the line, a search follows
secants. -/
theorem searchOpened
    (first : ((h.probe 0 (decide (h.limit < 0 + h.tolerance))).run.run tr).run t = ((.ok m, tr'), u))
    (apart : ¬ Scalar.abs (floored h m - h.aim) < h.valueTolerance)
    (ahead : secondTrial h m = (a, limited))
    (second : ((h.probe a limited).run.run tr').run u = ((.ok n, tr''), v))
    (rises : 0 ≤ (opened h m a n).slope) :
    ((search h).run.run tr).run t =
      ((do
        let (s, best) ← secants h (opened h m a n) (maxCount + 1)
        parabolas h s best (maxCount - s.count)).run.run tr'').run v := by
  rw [floored] at apart
  rw [secondTrial, floored] at ahead
  rw [search, Chase.runAnswer first]
  dsimp only
  rw [if_neg apart, ahead]
  exact (Chase.runAnswer second).trans (Chase.runAnswer (ascendEnd rises tr'' v))

/- A secant step after which a search begins again, without a step along the line. -/
theorem secantsRestarted (steep : s.slope ≠ 0) (apart : ¬ secantArrived h s (secantStep h s))
    (left : s.count ≤ maxCount) (ahead : secantTrial h s = (a, limited))
    (sighted : ((h.probe a limited).run.run tr).run t = ((.ok m, tr'), u))
    (three : (survey h.aim (s.sight a m).trio).below = 3)
    (other : (survey h.aim (s.sight a m).trio).best ≠ 2) (rises : 0 ≤ s.slope) (fuel : ℕ) :
    ((secants h s (fuel + 1)).run.run tr).run t =
      ((secants h (s.sight a m).restart fuel).run.run tr').run u := by
  have aside : ¬ ((survey h.aim (s.sight a m).trio).below = 1 ∨
      (survey h.aim (s.sight a m).trio).below = 2) := by omega
  have some : (survey h.aim (s.sight a m).trio).below ≠ 0 := by omega
  rw [secantTrial] at ahead
  rw [sight] at aside other some
  rw [secants, if_neg (by simp [steep])]
  dsimp only
  rw [if_neg apart, if_neg (not_lt.mpr left), ahead]
  refine (Chase.runAnswer sighted).trans ?_
  dsimp only
  rw [if_neg aside, if_neg other, if_neg some]
  have risen : 0 ≤ (s.sight a m).restart.slope := rises
  exact Chase.runAnswer (ascendEnd risen tr' u)

end Approach

/- A profile that rises from a quarter of the way to the level, and not evenly. -/
noncomputable def ledge : Profile ℝ :=
  reading (fun a => if a < 0.5 then 0.25 else if a < 1.25 then 0.75 else
    if a < 2.4 then 0.625 else a - 1.5) 0 1

namespace ledge

noncomputable def lead : Lead ℝ := ⟨0, 0, 1⟩

noncomputable def hunt : Hunt ℝ := ⟨ledge, [lead], 0.1, 1000, 100.0⟩

/- The first secant goes through both trials that were made. -/
noncomputable def drawn (m : Minimum ℝ) : Approach ℝ :=
  ⟨⟨⟨0, 0.25⟩, ⟨1, 0.75⟩, ⟨0, 0⟩⟩, 0.5, 1, m⟩

/- The second one goes on from the third trial with the slope of the first one. -/
noncomputable def kept (m : Minimum ℝ) : Approach ℝ :=
  ⟨⟨⟨0, 0.25⟩, ⟨1.5, 0.625⟩, ⟨1.5, 0.625⟩⟩, 0.5, 2, m⟩

theorem aim : hunt.aim = 1 := by
  change (0 + 1 : ℝ) = 1
  norm_num

theorem valueTolerance : hunt.valueTolerance = 0.01 := by
  change (0.1 * 0.1 : ℝ) = 0.01
  norm_num

theorem within {a : ℝ} (short : a ≤ 100) : hunt.cap a = (a, false) := by
  rw [Hunt.cap]
  refine if_neg (not_lt.mpr ?_)
  change a ≤ 100.0
  norm_num
  exact short

section
variable {m n : Minimum ℝ}

theorem unlifted (value : m.value = 0.25) : floored hunt m = 0.25 := by
  refine (Exact.max ..).trans ?_
  rw [value]
  change Max.max (0.25 : ℝ) (0 + 0.1 * 1) = 0.25
  norm_num

theorem second (value : m.value = 0.25) : secondTrial hunt m = (1, false) := by
  have root : √(1 / (0.25 - 0) : ℝ) = 2 := by
    rw [show (1 / (0.25 - 0) : ℝ) = 2 * 2 by norm_num]
    exact Real.sqrt_mul_self two_pos.le
  have guess : quadraticGuess hunt 0.25 = 1 := by
    change √(1 / (0.25 - 0) : ℝ) - 1 = 1
    rw [root]
    norm_num
  have held : Scalar.clamp (1 : ℝ) (-0.5) 1 = 1 := by
    rw [Scalar.clamp, if_neg (by norm_num), if_neg (lt_irrefl _)]
  rw [secondTrial, unlifted value, guess, held]
  exact within (by norm_num)

theorem openedDrawn (first : m.value = 0.25) (value : n.value = 0.75) : opened hunt m 1 n = drawn n := by
  rw [opened, unlifted first, value]
  have slope : chord (⟨⟨0, 0.25⟩, ⟨1, 0.75⟩, ⟨0, 0⟩⟩ : Trio ℝ) = 0.5 := by
    change ((0.75 - 0.25) / (1 - 0) : ℝ) = 0.5
    norm_num
  exact congrArg (Approach.mk _ · 1 n) slope

theorem step (m : Minimum ℝ) : secantStep hunt (drawn m) = 1.5 := by
  rw [secantStep, aim]
  change (1 + (1 - 0.75) / 0.5 : ℝ) = 1.5
  norm_num

theorem unarrived (m : Minimum ℝ) : ¬ secantArrived hunt (drawn m) (secantStep hunt (drawn m)) := by
  rw [secantArrived, Bool.and_eq_true, decide_eq_true_eq, decide_eq_true_eq, aim, valueTolerance]
  rintro ⟨-, value⟩
  simp only [Exact.min, Exact.abs] at value
  change Min.min |(1 : ℝ) - 0.25| |1 - 0.75| < 0.01 at value
  norm_num at value

theorem third (m : Minimum ℝ) : secantTrial hunt (drawn m) = (1.5, false) := by
  have held : (drawn m).holdSecant 1.5 = 1.5 := by
    rw [holdSecant, Scalar.clamp, Exact.min, Exact.max]
    change (if (1.5 : ℝ) < Min.min 0 1 - 1 then _ else if Max.max (0 : ℝ) 1 + 1 < 1.5 then _ else _) = _
    rw [if_neg (by norm_num), if_neg (by norm_num)]
  rw [secantTrial, step, held]
  exact within (by norm_num)

/- All three trials are below the level, the second one is the nearest. -/
theorem nearest (value : n.value = 0.625) :
    (survey hunt.aim ((drawn m).sight 1.5 n).trio).below = 3 ∧
      (survey hunt.aim ((drawn m).sight 1.5 n).trio).best ≠ 2 := by
  let t : Trio ℝ := ⟨⟨0, 0.25⟩, ⟨1, 0.75⟩, ⟨1.5, 0.625⟩⟩
  rw [sight, value, aim]
  change (survey 1 t).below = 3 ∧ (survey 1 t).best ≠ 2
  have known := Approach.surveyed 1 t
  refine ⟨known.below.mpr ?_, fun third => ?_⟩
  · simp only [List.forall_mem_cons, List.not_mem_nil, IsEmpty.forall_iff, implies_true, and_true]
    change (0.625 : ℝ) < 1 ∧ (0.75 : ℝ) < 1 ∧ (0.25 : ℝ) < 1
    norm_num
  · have least := known.least ▸ known.nearest 1 (everyPlace 1)
    rw [third] at least
    change |(0.625 : ℝ) - 1| ≤ |(0.75 : ℝ) - 1| at least
    norm_num [abs_of_neg] at least

theorem restartKept (value : n.value = 0.625) : ((drawn m).sight 1.5 n).restart = kept n := by
  rw [sight, restart, value]
  rfl

end

theorem trial {stage : Stage ℝ} {tr : Tracker ℝ} {a y : ℝ} {next : Minimum ℝ → Stage ℝ} {curve : ℝ → ℝ}
    (before : hunt.Passes tr.trials stage) (tries : stage.Tries hunt (a, false) next)
    (alone : lead.Alone curve 0.1 tr.fit) (value : curve a = y) (positive : 0 < y) (t : Trace ℝ) :
    ∃ m tr' u, ((hunt.probe a false).run.run tr).run t = ((.ok m, tr'), u) ∧
      lead.Alone curve 0.1 tr'.fit ∧ m.value = y ∧ hunt.Passes tr'.trials (next m) := by
  have room : 1 < hunt.maxCalls := by decide
  have high : hunt.profile.base - hunt.valueTolerance ≤ curve a := by
    rw [valueTolerance, value]
    change 0 - 0.01 ≤ y
    linarith
  obtain ⟨m, tr', u, run, left, here, passes⟩ := before.trial tries rfl room alone high t
  exact ⟨m, tr', u, run, left, here.trans value, passes⟩

section
variable {m : Minimum ℝ}

theorem uncut : decide (hunt.limit < 0 + hunt.tolerance) = false := by
  refine decide_eq_false (not_lt.mpr ?_)
  change (0 + 0.1 : ℝ) ≤ 100.0
  norm_num

theorem undecided (value : m.value = 0.25) :
    ¬ Scalar.abs (floored hunt m - hunt.aim) < hunt.valueTolerance := by
  rw [unlifted value, aim, valueTolerance]
  change ¬ |(0.25 : ℝ) - 1| < 0.01
  norm_num [abs_of_neg]

theorem begins : Stage.Tries hunt .start (0, false) .begun := by
  have tries := Stage.Tries.begins (h := hunt)
  rwa [uncut] at tries

theorem opens (value : m.value = 0.25) :
    Stage.Tries hunt (.begun m) (1, false) fun n => .climbing (opened hunt m 1 n) 0 := by
  have tries := Stage.Tries.opens (undecided value)
  rwa [second value] at tries

theorem left (m : Minimum ℝ) : (drawn m).count ≤ maxCount := Nat.le_of_ble_eq_true rfl

theorem sights (m : Minimum ℝ) :
    Stage.Tries hunt (.seeking (drawn m)) (1.5, false) fun n => .sighted ((drawn m).sight 1.5 n) := by
  have tries := Stage.Tries.sights (unarrived m) (left m)
  rwa [third] at tries

end

theorem longest : Hunt.longestStep ledge.state.space [lead] = some 100.0 :=
  Hunt.longestStepFree (List.forall_mem_singleton.mpr ⟨one_pos, rfl⟩)

/- Both secants are taken on the way of one chase. -/
theorem passes : ∃ m n before later, hunt.Passes before (.seeking (drawn m)) ∧
    hunt.Passes later (.seeking (kept n)) ∧ later <:+ ((ledge.chase [lead] 0.1 1000).run {}).1.2 := by
  have rises : ¬ (0.5 : ℝ) < 0 := by norm_num
  let start : Tracker ℝ := ⟨ledge.inner, 0, []⟩
  have passes : hunt.Passes start.trials .start := .start
  obtain ⟨m₁, tr₁, u₁, run₁, alone₁, value₁, passes₁⟩ :=
    trial passes begins (reading.alone _ 0 1) (if_pos (by norm_num)) (by norm_num) {}
  obtain ⟨m₂, tr₂, u₂, run₂, alone₂, value₂, passes₂⟩ :=
    trial passes₁ (opens value₁) alone₁ ((if_neg (by norm_num)).trans (if_pos (by norm_num)))
      (by norm_num) u₁
  rw [openedDrawn value₁ value₂] at passes₂
  have begun : hunt.Passes tr₂.trials (.seeking (drawn m₂)) := passes₂.turns (.risen (.inl ⟨rfl, rises⟩))
  obtain ⟨m₃, tr₃, u₃, run₃, alone₃, value₃, passes₃⟩ :=
    trial begun (sights m₂) alone₂
      ((if_neg (by norm_num)).trans ((if_neg (by norm_num)).trans (if_pos (by norm_num))))
      (by norm_num) u₂
  obtain ⟨three, other⟩ := nearest (m := m₂) value₃
  have aside : ¬ ((survey hunt.aim ((drawn m₂).sight 1.5 m₃).trio).below = 1 ∨
      (survey hunt.aim ((drawn m₂).sight 1.5 m₃).trio).below = 2) := by omega
  have again : hunt.Passes tr₃.trials (.climbing (kept m₃) 0) :=
    restartKept (m := m₂) value₃ ▸ passes₃.turns (.restarts aside (by omega) other)
  refine ⟨m₂, m₃, _, _, begun, again.turns (.risen (.inl ⟨rfl, rises⟩)), ?_⟩
  have risen : (0 : ℝ) ≤ 0.5 := by norm_num
  rw [← uncut] at run₁
  have opened := Approach.searchOpened run₁ (undecided value₁) (second value₁) run₂
    ((openedDrawn value₁ value₂).symm ▸ risen)
  have restarted := Approach.secantsRestarted (by norm_num [drawn]) (unarrived m₂) (left m₂) (third m₂)
    run₃ three other risen maxCount
  rw [openedDrawn value₁ value₂, Chase.runBind, restarted, ← Chase.runBind, restartKept value₃] at opened
  have keeps := Hunt.movesAdd hunt tr₃.trials
  have adds := Chase.Ensures.bind (keeps.secants (kept m₃) maxCount) (fun r => keeps.parabolas r.1 r.2 rfl)
    tr₃ u₃ (List.suffix_refl _)
  rw [← opened] at adds
  generalize ended : ((Approach.search hunt).run.run start).run {} = r at adds
  obtain ⟨⟨c | _, tr⟩, u⟩ := r
  · rw [Profile.chaseEnd longest ended]
    exact adds
  · exact adds.elim

theorem slopes (m : Minimum ℝ) : (drawn m).slope ≠ 0 ∧ (kept m).slope ≠ 0 ∧
    (drawn m).slope = chord (drawn m).trio ∧ (kept m).slope ≠ chord (kept m).trio := by
  have first : chord (drawn m).trio = 0.5 := by
    change ((0.75 - 0.25) / (1 - 0) : ℝ) = 0.5
    norm_num
  have second : chord (kept m).trio = 0.25 := by
    change ((0.625 - 0.25) / (1.5 - 0) : ℝ) = 0.25
    norm_num
  rw [first, second]
  norm_num [drawn, kept]

end ledge

namespace Profile

/- A search for a crossing aims along the straight line through both samples at hand whenever it takes a
secant, except where it has begun again without a step along the line: there it aims along the line only
if the slope from before happens to be the line's. -/
theorem secantsAimed (p : Profile ℝ) (line : List (Lead ℝ)) (tolerance : ℝ) (maxCalls : ℕ)
    (t : Trace ℝ) :
    let r := ((p.chase line tolerance maxCalls).run t).1
    Hunt.longestStep p.state.space line = none ∧ r.2 = [] ∧ r.1.verdict = .missing ∨
      ∃ limit, let h : Hunt ℝ := ⟨p, line, tolerance, maxCalls, limit⟩
        Hunt.longestStep p.state.space line = some limit ∧ h.Ends r.2 r.1 ∧
        ∀ trials s, h.Passes trials (.seeking s) → s.slope ≠ 0 →
          s.slope = chord s.trio ∧ s.Straight h ∨
          s.Restarted h trials ∧ (s.Straight h ↔ s.slope = chord s.trio) := by
  rcases p.chasePasses line tolerance maxCalls t with none | ⟨limit, longest, ends⟩
  · exact .inl none
  · refine .inr ⟨limit, longest, ends, fun trials s passes steep => ?_⟩
    rcases passes.seeking with drawn | restarted
    · exact .inl ⟨drawn, straight steep drawn⟩
    · obtain ⟨u, -, overtaken, rfl⟩ := restarted.begun
      exact .inr ⟨restarted, straightIff (overtaken.below 2) steep⟩

/- The first secant on the ledge is one through both samples at hand, the second one is not. -/
theorem secantsAimedLedge : ∃ m n before later,
    ledge.hunt.Passes before (.seeking (ledge.drawn m)) ∧ (ledge.drawn m).Straight ledge.hunt ∧
      ledge.hunt.Passes later (.seeking (ledge.kept n)) ∧ (ledge.kept n).Restarted ledge.hunt later ∧
      ¬ (ledge.kept n).Straight ledge.hunt := by
  obtain ⟨m, n, before, later, first, second, -⟩ := ledge.passes
  obtain ⟨steep, -, straight, -⟩ := ledge.slopes m
  obtain ⟨-, still, -, bent⟩ := ledge.slopes n
  rcases secantsAimed ledge [ledge.lead] 0.1 1000 {} with ⟨none, -, -⟩ | ⟨limit, some, -, aimed⟩
  · rw [ledge.longest] at none
    cases none
  · obtain rfl : 100.0 = limit := Option.some.inj (ledge.longest.symm.trans some)
    refine ⟨m, n, before, later, first, ?_, second, ?_⟩
    · rcases aimed before _ first steep with ⟨-, aims⟩ | ⟨-, aims⟩
      · exact aims
      · exact aims.mpr straight
    · rcases aimed later _ second still with ⟨drawn, -⟩ | ⟨restarted, aims⟩
      · exact absurd drawn bent
      · exact ⟨restarted, fun straight => bent (aims.mp straight)⟩

/- A search can aim along the slope of samples that are no longer at hand. -/
theorem secantsMisled : ¬ ∀ (p : Profile ℝ) (line : List (Lead ℝ)) (tolerance : ℝ) (maxCalls : ℕ)
    (t : Trace ℝ) (limit : ℝ) (trials : List (Trial ℝ)) (s : Approach ℝ),
    Hunt.longestStep p.state.space line = some limit →
    trials <:+ ((p.chase line tolerance maxCalls).run t).1.2 →
    Hunt.Passes ⟨p, line, tolerance, maxCalls, limit⟩ trials (.seeking s) → s.slope ≠ 0 →
      s.slope = chord s.trio := by
  intro aimed
  obtain ⟨-, n, -, later, -, passes, among⟩ := ledge.passes
  obtain ⟨-, steep, -, bent⟩ := ledge.slopes n
  exact bent (aimed ledge [ledge.lead] 0.1 1000 {} 100.0 later _ ledge.longest among passes steep)

end Profile
end ParamFit
