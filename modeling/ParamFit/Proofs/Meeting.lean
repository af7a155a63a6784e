import ParamFit.Proofs.Hunting
import ParamFit.Proofs.Parabolic

/-! Which crossings a search finds. One that a secant or a parabola leads to lies next to a trial that
met the level, as long as the secant goes through the two samples that are at hand. A slope can outlive
its samples, though; then the trial that lies near and the one that met the level may be two. And the
first trial alone decides on a guess that is made for its value, whether or not the guess is near. -/
namespace ParamFit

/- A sample of a trial. The first trial counts as a tenth of the way up at least; a value that was lifted
so far is not near the level. -/
structure Profile.Sampled (p : Profile ℝ) (tolerance : ℝ) (trials : List (Trial ℝ)) (s : Sample ℝ) :
    Prop where
  drawn : ∃ r ∈ trials, s.x = r.step ∧ (s.y = r.value ∨
    r.step = 0 ∧ s.y = p.base + 0.1 * p.rise ∧ ¬ |s.y - (p.base + p.rise)| < 0.1 * tolerance)

noncomputable def Sample.slope (a b : Sample ℝ) : ℝ := (b.y - a.y) / (b.x - a.x)

namespace Profile
variable (p : Profile ℝ) (tolerance : ℝ) (trials : List (Trial ℝ)) (v : ℝ)

/- A step lies near `v`, as the tolerance counts. -/
def Near (a : ℝ) : Prop := |a - v| < tolerance * Max.max 1 |v|

/- A value lies at the level, up to a tenth of the tolerance. -/
def Level (y : ℝ) : Prop := |y - (p.base + p.rise)| < 0.1 * tolerance

/- A trial next to `v` met the level. -/
def Crosses : Prop := ∃ r ∈ trials, Near tolerance v r.step ∧ p.Level tolerance r.value

/- The first trial decided, and `v` is where a parabola through it meets the level. -/
def Guesses : Prop :=
  ∃ r, trials = [r] ∧ r.step = 0 ∧
    let y := Max.max r.value (p.base + 0.1 * p.rise)
    p.Level tolerance y ∧ v = √(p.rise / (y - p.base)) - 1

/- A secant from one of two samples led to `v` along a slope that is not theirs: one of them lies near,
the other one met the level. -/
def Outlives : Prop :=
  ∃ a b c d, (∀ s ∈ [a, b, c, d], p.Sampled tolerance trials s) ∧ Sample.slope c d ≠ Sample.slope a b ∧
    v = b.x + (p.base + p.rise - b.y) / Sample.slope c d ∧
    (Near tolerance v a.x ∧ p.Level tolerance b.y ∨ Near tolerance v b.x ∧ p.Level tolerance a.y)

end Profile

namespace Hunt
variable {h : Hunt ℝ} {trials : List (Trial ℝ)} {r : Trial ℝ} {s : Sample ℝ}

theorem nearIff (h : Hunt ℝ) (v a : ℝ) : Profile.Near h.tolerance v a ↔ |v - a| < h.stepTolerance v := by
  have reach : h.stepTolerance v = h.tolerance * Max.max 1 |v| := by
    rw [stepTolerance]
    split
    case isTrue far => exact congrArg _ (max_eq_right (le_of_lt far)).symm
    case isFalse close =>
      have short : |v| ≤ 1 := not_lt.mp close
      rw [max_eq_left short, mul_one]
  rw [Profile.Near, abs_sub_comm, reach]

abbrev Sampled (h : Hunt ℝ) (trials : List (Trial ℝ)) (s : Sample ℝ) : Prop :=
  h.profile.Sampled h.tolerance trials s

theorem Sampled.more (sampled : h.Sampled trials s) (r : Trial ℝ) : h.Sampled (r :: trials) s :=
  have ⟨q, among, drawn⟩ := sampled.drawn
  ⟨q, .tail _ among, drawn⟩

/- A sample that is near the level shows the value of its trial. -/
theorem Sampled.crosses (sampled : h.Sampled trials s) {v : ℝ} (near : Profile.Near h.tolerance v s.x)
    (level : h.profile.Level h.tolerance s.y) : h.profile.Crosses h.tolerance trials v := by
  obtain ⟨r, among, step, same | ⟨_, _, apart⟩⟩ := sampled.drawn
  · exact ⟨r, among, step ▸ near, same ▸ level⟩
  · exact absurd level apart

theorem sampledHere {a y : ℝ} (here : r.step = a) (value : r.value = y) :
    h.Sampled (r :: trials) ⟨a, y⟩ := ⟨r, .head _, here.symm, .inl value.symm⟩

/- The sample that stands for the first trial. -/
theorem sampledFirst {m : Minimum ℝ} (zero : r.step = 0) (value : r.value = m.value)
    (apart : ¬ |Approach.floored h m - h.aim| < h.valueTolerance) :
    h.Sampled [r] ⟨0, Approach.floored h m⟩ := by
  refine ⟨r, .head _, zero.symm, ?_⟩
  have floored : Approach.floored h m = Max.max m.value (h.profile.base + 0.1 * h.profile.rise) :=
    Exact.max ..
  rcases max_choice m.value (h.profile.base + 0.1 * h.profile.rise) with own | lifted
  · exact .inl (floored.trans (own.trans value.symm))
  · exact .inr ⟨zero, floored.trans lifted, apart⟩

end Hunt

/- The samples at hand, and a slope of two samples, which need not be the last ones. -/
structure Approach.Sampled (h : Hunt ℝ) (trials : List (Trial ℝ)) (s : Approach ℝ) : Prop where
  first : h.Sampled trials s.trio.first
  second : h.Sampled trials s.trio.second
  slope : ∃ c d, h.Sampled trials c ∧ h.Sampled trials d ∧ s.slope = Sample.slope c d

def Stage.Sampled (h : Hunt ℝ) (trials : List (Trial ℝ)) : Stage ℝ → Prop
  | start => trials = []
  | begun m => ∃ r, trials = [r] ∧ r.step = 0 ∧ r.value = m.value
  | climbing s _ | seeking s => s.Sampled h trials
  | sighted s => s.Sampled h trials ∧ h.Sampled trials s.trio.third
  | bracketed s _ => ∀ i, h.Sampled trials (s.trio.get i)

namespace Approach
variable {h : Hunt ℝ} {trials : List (Trial ℝ)} {s : Approach ℝ}

theorem Sampled.more (sampled : s.Sampled h trials) (r : Trial ℝ) : s.Sampled h (r :: trials) :=
  have ⟨c, d, known, too, same⟩ := sampled.slope
  ⟨sampled.first.more r, sampled.second.more r, c, d, known.more r, too.more r, same⟩

/- The slope between the samples at hand. -/
theorem sampledChord (first : h.Sampled trials s.trio.first) (second : h.Sampled trials s.trio.second)
    (slope : s.slope = chord s.trio) : s.Sampled h trials :=
  ⟨first, second, _, _, first, second, slope⟩

/- A chord that is not level joins samples at different steps. -/
theorem chordRun {t : Trio ℝ} (steep : chord t ≠ 0) : t.second.x - t.first.x ≠ 0 := fun none =>
  steep (by
    rw [chord]
    exact (congrArg _ none).trans (div_zero _))

theorem chordRise {t : Trio ℝ} (run : t.second.x - t.first.x ≠ 0) :
    t.second.y - t.first.y = chord t * (t.second.x - t.first.x) := by
  rw [chord]
  exact (div_mul_cancel₀ _ run).symm

/- A secant through two samples meets the level where it does from either of them. -/
theorem chordArrives {v aim : ℝ} {t : Trio ℝ} (steep : chord t ≠ 0)
    (here : v = t.second.x + (aim - t.second.y) / chord t) :
    v - t.first.x = (aim - t.first.y) / chord t := by
  have rise := chordRise (chordRun steep)
  rw [here, eq_div_iff steep]
  field_simp
  linarith

/- Along one slope the gaps in step and in value keep one ratio, so the nearest step and the nearest value
belong to one sample. -/
theorem sameNearest {p q d e k step value : ℝ} (first : p = d / k) (second : q = e / k)
    (near : Min.min |p| |q| < step) (level : Min.min |d| |e| < value) :
    |p| < step ∧ |d| < value ∨ |q| < step ∧ |e| < value := by
  have sizes : |p| = |d| / |k| ∧ |q| = |e| / |k| := by
    rw [first, second, abs_div, abs_div]
    exact ⟨rfl, rfl⟩
  rcases le_total |d| |e| with less | less
  · have nearer : |p| ≤ |q| := by
      rw [sizes.1, sizes.2]
      exact div_le_div_of_nonneg_right less (abs_nonneg k)
    exact .inl ⟨min_eq_left nearer ▸ near, min_eq_left less ▸ level⟩
  · have nearer : |q| ≤ |p| := by
      rw [sizes.1, sizes.2]
      exact div_le_div_of_nonneg_right less (abs_nonneg k)
    exact .inr ⟨min_eq_right nearer ▸ near, min_eq_right less ▸ level⟩

theorem sampledAll (sampled : s.Sampled h trials) (third : h.Sampled trials s.trio.third) (i : Fin 3) :
    h.Sampled trials (s.trio.get i) := by
  fin_cases i
  · exact sampled.first
  · exact sampled.second
  · exact third

/- A secant that arrives meets the level, unless its slope has outlived the samples that it was drawn
through. -/
theorem Sampled.arrives (sampled : s.Sampled h trials) (steep : s.slope ≠ 0)
    (arrived : secantArrived h s (secantStep h s)) :
    h.profile.Crosses h.tolerance trials (secantStep h s) ∨
      h.profile.Outlives h.tolerance trials (secantStep h s) := by
  let v := secantStep h s
  let a := s.trio.first
  let b := s.trio.second
  have here : v = b.x + (h.aim - b.y) / s.slope := rfl
  rw [secantArrived, Bool.and_eq_true, decide_eq_true_eq, decide_eq_true_eq] at arrived
  obtain ⟨step, value⟩ := arrived
  simp only [Exact.min] at step value
  have near {x : ℝ} (close : |v - x| < h.stepTolerance v) : Profile.Near h.tolerance v x :=
    (h.nearIff v x).mpr close
  have level {y : ℝ} (close : |h.aim - y| < h.valueTolerance) : h.profile.Level h.tolerance y := by
    rw [Profile.Level, abs_sub_comm]
    exact close
  by_cases straight : s.slope = chord s.trio
  case pos =>
    have first : v - a.x = (h.aim - a.y) / s.slope :=
      straight ▸ chordArrives (straight ▸ steep) (straight ▸ here)
    have second : v - b.x = (h.aim - b.y) / s.slope := by rw [here, add_sub_cancel_left]
    rcases sameNearest first second step value with ⟨one, two⟩ | ⟨one, two⟩
    · exact .inl (sampled.first.crosses (near one) (level two))
    · exact .inl (sampled.second.crosses (near one) (level two))
  case neg =>
    obtain ⟨c, d, known, too, same⟩ := sampled.slope
    have all : ∀ s ∈ [a, b, c, d], h.Sampled trials s := by
      simpa using ⟨sampled.first, sampled.second, known, too⟩
    have outlives (apart : Profile.Near h.tolerance v a.x ∧ h.profile.Level h.tolerance b.y ∨
        Profile.Near h.tolerance v b.x ∧ h.profile.Level h.tolerance a.y) :
        h.profile.Outlives h.tolerance trials v :=
      ⟨a, b, c, d, all, fun straightened => straight (same.trans straightened), same ▸ here, apart⟩
    rcases min_lt_iff.mp step with one | one
    · rcases min_lt_iff.mp value with two | two
      · exact .inl (sampled.first.crosses (near one) (level two))
      · exact .inr (outlives (.inl ⟨near one, level two⟩))
    · rcases min_lt_iff.mp value with two | two
      · exact .inr (outlives (.inr ⟨near one, level two⟩))
      · exact .inl (sampled.second.crosses (near one) (level two))

end Approach

namespace Hunt
variable {h : Hunt ℝ} {stage : Stage ℝ} {next : Minimum ℝ → Stage ℝ} {a : ℝ}

/- How a crossing that is found comes about. -/
def Meets (h : Hunt ℝ) (c : Crossing ℝ) (tr : Tracker ℝ) (_ : Trace ℝ) : Prop :=
  c.verdict = .found → h.profile.Crosses h.tolerance tr.trials c.value ∨
    h.profile.Guesses h.tolerance tr.trials c.value ∨ h.profile.Outlives h.tolerance tr.trials c.value

def Samples (h : Hunt ℝ) (stage : Stage ℝ) (tr : Tracker ℝ) (_ : Trace ℝ) : Prop :=
  stage.Sampled h tr.trials

theorem probeSamples (stage : Stage ℝ) {limited : Bool}
    (samples : ∀ trials m r, r.step = a → r.value = m.value → stage.Sampled h trials →
      (next m).Sampled h (r :: trials)) :
    Chase.Ensures (h.Samples stage) (h.probe a limited) (fun m => h.Samples (next m)) h.Meets := by
  refine probeEnsures (fun tr t _ => nofun) (fun tr t g m u _ _ state v stops => ?_)
    fun tr t g m u sampled _ _ => samples tr.trials m _ rfl rfl sampled
  cases stops
  all_goals exact nofun

/- Whatever a search does next, its samples come from its trials. -/
theorem movesSample (h : Hunt ℝ) : Approach.Keeps h h.Samples h.Meets where
  expects _ sampled := sampled
  lost _ := nofun
  begins := by
    refine probeSamples .start fun trials m r here value none => ⟨r, ?_, here, value⟩
    rw [show trials = [] from none]
  decided {m tr t} near sampled := fun _ => by
    obtain ⟨r, only, zero, value⟩ := sampled
    have floored : Approach.floored h m = Max.max r.value (h.profile.base + 0.1 * h.profile.rise) :=
      (Exact.max ..).trans (by rw [value])
    refine .inr (.inl ⟨r, only, zero, ?_⟩)
    dsimp only
    rw [← floored]
    exact ⟨near, rfl⟩
  opens {m} apart := by
    refine probeSamples (.begun m) fun trials n r here value begun => ?_
    obtain ⟨q, rfl, zero, same⟩ := begun
    exact Approach.sampledChord ((sampledFirst zero same apart).more r) (sampledHere here value) rfl
  climbs {s made} _ _ _ := by
    refine probeSamples (.climbing s made) fun trials m r here value sampled => ?_
    exact Approach.sampledChord (sampled.second.more r) (sampledHere here value) rfl
  risen _ sampled := sampled
  arrives steep arrived sampled := fun _ => by
    rcases sampled.arrives (by simpa using steep) arrived with met | apart
    · exact .inl met
    · exact .inr (.inr apart)
  sights {s} _ _ := by
    refine probeSamples (.seeking s) fun trials m r here value sampled => ?_
    have ⟨first, second, slope⟩ := sampled.more r
    exact ⟨⟨first, second, slope⟩, sampledHere here value⟩
  brackets _ sampled := (Approach.sampledAll sampled.1 sampled.2)
  replaces _ _ sampled :=
    have all := Trio.allSet _ (Approach.sampledAll sampled.1 sampled.2) _ sampled.2
    Approach.sampledChord (all 0) (all 1) rfl
  restarts _ _ _ sampled := ⟨sampled.1.first, sampled.2, sampled.1.slope⟩
  crosses {s best a slope tr t} _ close level sampled := fun _ =>
    .inl ((sampled best).crosses ((h.nearIff ..).mpr close) level)
  refines {s best a slope left right out} _ _ _ := by
    refine probeSamples (.bracketed s best) fun trials m r here value sampled => ?_
    exact Trio.allSet _ (fun i => (sampled i).more r) out (sampledHere here value)

end Hunt

namespace Profile
variable {p : Profile ℝ} {tolerance : ℝ} (positive : 0 < tolerance) (small : tolerance ≤ 1)
include positive small

/- Within a tenth of the tolerance around the level, a parabola meets the level within the tolerance, if
the level is high enough. -/
theorem guessNear {rise q : ℝ} (enough : 0.1 * (1 + tolerance) ^ 2 ≤ rise * (2 + tolerance))
    (above : 0 < q) (close : |q - rise| < 0.1 * tolerance) : |√(rise / q) - 1| < tolerance := by
  obtain ⟨low, high⟩ := abs_lt.mp close
  have below : rise < (1 + tolerance) ^ 2 * q := by
    have square : 0 < (1 + tolerance) ^ 2 := by positivity
    have least : (1 + tolerance) ^ 2 * (rise - 0.1 * tolerance) < (1 + tolerance) ^ 2 * q :=
      mul_lt_mul_of_pos_left (by linarith) square
    nlinarith [mul_le_mul_of_nonneg_left enough positive.le]
  -- the side below needs less than the side above, which is why one bound is enough
  have beyond : (1 - tolerance) ^ 2 * q < rise := by
    have other : 0.1 * (1 - tolerance) ^ 2 < rise * (2 - tolerance) := by
      have both : 0.1 * (1 - tolerance) ^ 2 * (2 + tolerance) <
          rise * (2 - tolerance) * (2 + tolerance) := by
        nlinarith [mul_le_mul_of_nonneg_right enough (by linarith : 0 ≤ 2 - tolerance),
          mul_nonneg positive.le (by linarith : 0 ≤ 1 - tolerance), mul_pos positive positive]
      exact lt_of_mul_lt_mul_right both (by linarith)
    have most : (1 - tolerance) ^ 2 * q ≤ (1 - tolerance) ^ 2 * (rise + 0.1 * tolerance) :=
      mul_le_mul_of_nonneg_left (by linarith) (sq_nonneg _)
    nlinarith [mul_lt_mul_of_pos_left other positive]
  rw [abs_lt]
  constructor
  · have root : 1 - tolerance < √(rise / q) :=
      Real.lt_sqrt_of_sq_lt ((lt_div_iff₀ above).mpr beyond)
    linarith
  · have root : √(rise / q) < 1 + tolerance :=
      (Real.sqrt_lt' (by linarith)).mpr ((div_lt_iff₀ above).mpr below)
    linarith

/- The guess from the first trial can be wrong only where the level is low. -/
theorem guessCrosses {trials : List (Trial ℝ)} {v : ℝ} (rises : 0 < p.rise)
    (enough : 0.1 * (1 + tolerance) ^ 2 ≤ p.rise * (2 + tolerance))
    (guesses : p.Guesses tolerance trials v) : p.Crosses tolerance trials v := by
  obtain ⟨r, only, zero, level, same⟩ := guesses
  let y := Max.max r.value (p.base + 0.1 * p.rise)
  have lifted : p.base + 0.1 * p.rise ≤ y := le_max_right _ _
  have own : y = r.value := by
    rcases max_choice r.value (p.base + 0.1 * p.rise) with own | low
    · exact own
    · have gap : |y - (p.base + p.rise)| < 0.1 * tolerance := level
      rw [show y = _ from low] at gap
      have tenth := (abs_lt.mp gap).1
      nlinarith
  have close : |y - p.base - p.rise| < 0.1 * tolerance := by
    rw [sub_sub]
    exact level
  have near := guessNear positive small enough (by linarith : 0 < y - p.base) close
  refine ⟨r, only ▸ .head _, ?_, own ▸ level⟩
  rw [Near, zero, zero_sub, abs_neg, same]
  exact near.trans_le (le_mul_of_one_le_right positive.le (le_max_left _ _))

end Profile

/-! ### A first trial that decides -/

theorem Hunt.probeNoted {h : Hunt ℝ} {a : ℝ} {limited : Bool} {tr tr' : Tracker ℝ} {t u : Trace ℝ}
    {m : Minimum ℝ} (run : ((h.probe a limited).run.run tr).run t = ((.ok m, tr'), u)) :
    ∃ g, tr' = tr.note g a m := by
  have noted : Chase.Ensures (fun x _ => x = tr) (h.probe a limited)
      (fun m x _ => ∃ g, x = tr.note g a m) fun _ _ _ => True :=
    probeEnsures (fun _ _ _ => trivial) (fun _ _ _ _ _ _ _ _ _ _ => trivial)
      fun x _ g _ _ same _ _ => ⟨g, by rw [same]⟩
  have answer := noted tr t rfl
  rwa [run] at answer

/- A function of one parameter that is fixed at zero. -/
noncomputable def reading (curve : ℝ → ℝ) (base rise : ℝ) : Profile ℝ :=
  let x : Parameter ℝ := { number := 0, name := "x", value := 0, error := 0.1, isFixed := true }
  ⟨.plain fun x => curve (entry x 0), .ofSpace ⟨.machine, #[x], [], [("x", 0)], #[0]⟩, base, .medium,
    1, rise⟩

theorem reading.alone (curve : ℝ → ℝ) (base rise : ℝ) :
    Lead.Alone ⟨0, 0, 1⟩ curve 0.1 (reading curve base rise).inner where
  descends := rfl
  uses := rfl
  valid := rfl
  still := rfl
  inside := one_pos
  value a := by
    have here : entry ((#[0] : Array ℝ).setIfInBounds 0 (0 + a * 1)) 0 = a := by simp [entry]
    exact congrArg curve here
  reads _ := Nat.zero_le _
  error := rfl

/- A square over one parameter that is fixed at zero, above a base. -/
noncomputable def gauge (base rise : ℝ) : Profile ℝ :=
  let x : Parameter ℝ := { number := 0, name := "x", value := 0, error := 0.1, isFixed := true }
  ⟨.plain fun x => entry x 0 * entry x 0, .ofSpace ⟨.machine, #[x], [], [("x", 0)], #[0]⟩, base, .medium,
    1, rise⟩

namespace gauge

theorem alone (base rise : ℝ) :
    Lead.Alone ⟨0, 0, 1⟩ (fun a => a * a) 0.1 (gauge base rise).inner :=
  reading.alone (fun a => a * a) base rise

/- Where the value zero is near the level, or is lifted to it, the first trial is the only one. -/
theorem decided (base rise : ℝ) (high : base ≤ 0)
    (near : |Max.max 0 (base + 0.1 * rise) - (base + rise)| < 0.01) :
    let r := ((gauge base rise).chase [⟨0, 0, 1⟩] 0.1 1000).run {}
    r.1.1.verdict = .found ∧
      r.1.1.value = √(rise / (Max.max 0 (base + 0.1 * rise) - base)) - 1 ∧
      ∃ calls, r.1.2 = [⟨0, 0, calls⟩] := by
  let p := gauge base rise
  let l : Lead ℝ := ⟨0, 0, 1⟩
  have longest : Hunt.longestStep p.state.space [l] = some 100.0 :=
    Hunt.longestStepFree (List.forall_mem_singleton.mpr ⟨one_pos, rfl⟩)
  let h : Hunt ℝ := ⟨p, [l], 0.1, 1000, 100.0⟩
  have tolerance : h.valueTolerance = 0.01 := by
    change (0.1 * 0.1 : ℝ) = 0.01
    norm_num
  have far : decide (h.limit < 0 + h.tolerance) = false := by
    refine decide_eq_false (not_lt.mpr ?_)
    change (0 + 0.1 : ℝ) ≤ 100.0
    norm_num
  have above : h.profile.base - h.valueTolerance ≤ (0 : ℝ) * 0 := by
    rw [tolerance, mul_zero]
    change base - 0.01 ≤ 0
    linarith
  let begun : Tracker ℝ := ⟨p.inner, 0, []⟩
  have led : l.Alone (fun a => a * a) 0.1 begun.fit := alone base rise
  have never (limited : (false : Bool)) : h.aim ≤ (0 : ℝ) * 0 := absurd limited Bool.false_ne_true
  obtain ⟨m, tr, u, run, -, -, value, -⟩ :=
    Hunt.probeAlone (h := h) rfl (Nat.one_lt_succ_succ 998) led never above {}
  obtain ⟨g, rfl⟩ := Hunt.probeNoted run
  have floored : Approach.floored h m = Max.max 0 (base + 0.1 * rise) := by
    refine (Exact.max ..).trans ?_
    rw [value, mul_zero]
    rfl
  have ended : ((Approach.search h).run.run begun).run {} =
      ((.error ⟨Approach.quadraticGuess h (Approach.floored h m), m.state, begun.calls + m.calls,
        .found⟩, begun.note g 0 m), u) := by
    rw [← far] at run
    refine Approach.searchDecided run ?_
    rw [floored, tolerance]
    exact near
  dsimp only
  rw [Profile.chaseEnd longest ended]
  refine ⟨rfl, ?_, m.calls, ?_⟩
  · dsimp only
    rw [floored]
    rfl
  · rw [Tracker.note, value, mul_zero]

end gauge

theorem Profile.outlivesNone {p : Profile ℝ} {tolerance v : ℝ} {r : Trial ℝ} :
    ¬ p.Outlives tolerance [r] v := by
  rintro ⟨a, b, c, d, sampled, apart, -⟩
  have here {s : Sample ℝ} (among : s ∈ [a, b, c, d]) : s.x = r.step := by
    obtain ⟨q, only, step, -⟩ := (sampled s among).drawn
    rw [step, List.mem_singleton.mp only]
  refine apart ?_
  simp [Sample.slope, here]

/- A crossing that is found lies next to a trial that met the level. Otherwise it was guessed from the
first trial at a low level, or a slope outlived the samples that it was drawn through. -/
theorem Profile.crossingMet (p : Profile ℝ) (places : List ℕ) (middles directions : List ℝ)
    {tolerance : ℝ} (positive : 0 < tolerance) (small : tolerance ≤ 1) (rises : 0 < p.rise)
    (maxCalls : ℕ) (t : Trace ℝ) :
    let trials := ((p.chase (Lead.list places middles directions) tolerance maxCalls).run t).1.2
    let c := ((p.crossing places middles directions tolerance maxCalls).run t).1
    c.isValid → p.Crosses tolerance trials c.value ∨
      p.Guesses tolerance trials c.value ∧
        p.rise * (2 + tolerance) < 0.1 * (1 + tolerance) ^ 2 ∨
      p.Outlives tolerance trials c.value := by
  intro trials c valid
  have found : c.verdict = .found := eq_of_beq valid
  rcases p.crossingKeeps tolerance maxCalls t places middles directions with
    same | ⟨limit, d, tr, u, chased, same, keeps⟩
  · have missing : c.verdict = .missing := congrArg (Crossing.verdict ·.1) same
    rw [missing] at found
    cases found
  · have here : c = d := congrArg Prod.fst same
    have listed : trials = tr.trials := congrArg (·.1.2) chased
    rw [here] at found ⊢
    rw [listed]
    rcases keeps _ _ (Hunt.movesSample _) rfl found with crosses | guesses | outlives
    · exact .inl crosses
    · refine or_iff_not_imp_left.mpr fun misses => .inl ⟨guesses, not_le.mp fun enough => misses ?_⟩
      exact guessCrosses positive small rises enough guesses
    · exact .inr (.inr outlives)

theorem Profile.crossingMetGauge :
    let p := gauge (-1) 1
    (0 : ℝ) < 0.1 ∧ (0.1 : ℝ) ≤ 1 ∧ 0 < p.rise ∧
      let trials := ((p.chase (Lead.list [0] [0] [1]) 0.1 1000).run {}).1.2
      let c := ((p.crossing [0] [0] [1] 0.1 1000).run {}).1
      c.isValid ∧ p.Crosses 0.1 trials c.value := by
  have positive : (0 : ℝ) < 0.1 := by norm_num
  have small : (0.1 : ℝ) ≤ 1 := by norm_num
  obtain ⟨found, -, calls, only⟩ := gauge.decided (-1) 1 (by norm_num) (by norm_num)
  have valid : (((gauge (-1) 1).crossing [0] [0] [1] 0.1 1000).run {}).1.isValid := beq_of_eq found
  refine ⟨positive, small, one_pos, valid, ?_⟩
  rcases Profile.crossingMet (gauge (-1) 1) [0] [0] [1] positive small one_pos 1000 {} valid with
    crosses | ⟨-, low⟩ | outlives
  · exact crosses
  · have high : ¬ (1 : ℝ) * (2 + 0.1) < 0.1 * (1 + 0.1) ^ 2 := by norm_num
    exact absurd low high
  · exact absurd (only ▸ outlives) outlivesNone

/- A crossing need not lie near any trial: what the first trial makes of a value next to a low level is
not tried. -/
theorem Profile.crossingMissed :
    ¬ ∀ (p : Profile ℝ) (places : List ℕ) (middles directions : List ℝ) (tolerance : ℝ) (maxCalls : ℕ)
      (t : Trace ℝ), 0 < tolerance → tolerance ≤ 1 → 0 < p.rise →
      let trials := ((p.chase (Lead.list places middles directions) tolerance maxCalls).run t).1.2
      let c := ((p.crossing places middles directions tolerance maxCalls).run t).1
      c.isValid → ∃ r ∈ trials, |r.step - c.value| < tolerance * Max.max 1 |c.value| ∧
        |r.value - (p.base + p.rise)| < 0.1 * tolerance := by
  intro crosses
  have lifted : Max.max (0 : ℝ) (0 + 0.1 * 0.01) = 0.001 := by norm_num
  obtain ⟨found, value, calls, only⟩ :=
    gauge.decided 0 0.01 le_rfl (by rw [lifted]; norm_num [abs_lt])
  obtain ⟨r, among, near, -⟩ := crosses (gauge 0 0.01) [0] [0] [1] 0.1 1000 {} (by norm_num)
    (by norm_num) (by norm_num [gauge]) (beq_of_eq found)
  have here : r ∈ [(⟨0, 0, calls⟩ : Trial ℝ)] := by
    rw [← only]
    exact among
  have first : r.step = 0 := by rw [List.mem_singleton.mp here]
  have reached : (((gauge 0 0.01).crossing [0] [0] [1] 0.1 1000).run {}).1.value =
      √(0.01 / (0.001 - 0)) - 1 := lifted ▸ value
  have far : (1 : ℝ) ≤ √(0.01 / (0.001 - 0)) - 1 := by
    have two : (2 : ℝ) ≤ √(0.01 / (0.001 - 0)) := Real.le_sqrt_of_sq_le (by norm_num)
    linarith
  rw [reached, first, zero_sub, abs_neg, abs_of_pos (one_pos.trans_le far), max_eq_right far] at near
  linarith

end ParamFit
