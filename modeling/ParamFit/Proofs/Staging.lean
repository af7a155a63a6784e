import ParamFit.Proofs.Hunting

/-! The stages that a search for a crossing can pass, whatever its trials answer. A stage tries a step,
turns into another one without a trial, or finds a crossing; a path of such moves comes with its trials.
Every search goes such a path, so what each move keeps holds at each stage of every search. -/
namespace ParamFit
open Approach
variable {α : Type}

namespace Stage
variable [Spectral α]

/- The trial to which a stage leads, with whether it is cut at the limit, and what its answer leads to. -/
inductive Tries (h : Hunt α) : Stage α → α × Bool → (Minimum α → Stage α) → Prop where
  | begins : Tries h .start (0, decide (h.limit < 0 + h.tolerance)) .begun
  | opens {m : Minimum α} (apart : ¬ Scalar.abs (floored h m - h.aim) < h.valueTolerance) :
      Tries h (.begun m) (secondTrial h m) fun n => .climbing (opened h m (secondTrial h m).1 n) 0
  | climbs {s : Approach α} {made : ℕ} (falls : made = 0 → s.slope < 0)
      (still : 0 < made → ¬ s.slope > 0) (left : s.count < maxCount) :
      Tries h (.climbing s made) (climbTrial h s made) fun m =>
        .climbing (s.advance (climbTrial h s made).1 m) (made + 1)
  | sights {s : Approach α} (apart : ¬ secantArrived h s (secantStep h s)) (left : s.count ≤ maxCount) :
      Tries h (.seeking s) (secantTrial h s) fun m => .sighted (s.sight (secantTrial h s).1 m)
  | refines {s : Approach α} {best left right out : Fin 3} {a slope : α}
      (rises : rising? h.profile.state.space.precision h.aim s.trio = some (a, slope))
      (sorted : sides h.aim s.trio = ⟨some left, some right, some out⟩) (less : s.count < maxCount) :
      Tries h (.bracketed s best) (insideTrial h s left right out a slope) fun m =>
        .bracketed (s.refine out (insideTrial h s left right out a slope).1 m) out

/- What a stage leads to without a trial. -/
inductive Turns (h : Hunt α) : Stage α → Stage α → Prop where
  | risen {s : Approach α} {made : ℕ}
      (done : made = 0 ∧ ¬ s.slope < 0 ∨ 0 < made ∧ s.slope > 0 ∨ s.count = maxCount) :
      Turns h (.climbing s made) (.seeking s)
  | brackets {s : Approach α}
      (between : (survey h.aim s.trio).below = 1 ∨ (survey h.aim s.trio).below = 2) :
      Turns h (.sighted s) (.bracketed s (survey h.aim s.trio).best)
  | replaces {s : Approach α}
      (aside : ¬ ((survey h.aim s.trio).below = 1 ∨ (survey h.aim s.trio).below = 2))
      (best : (survey h.aim s.trio).best = 2) :
      Turns h (.sighted s) (.seeking (s.replace (survey h.aim s.trio).worst))
  | restarts {s : Approach α}
      (aside : ¬ ((survey h.aim s.trio).below = 1 ∨ (survey h.aim s.trio).below = 2))
      (below : (survey h.aim s.trio).below ≠ 0) (best : (survey h.aim s.trio).best ≠ 2) :
      Turns h (.sighted s) (.climbing s.restart 0)

/- The step at which a stage finds a crossing. -/
inductive Finds (h : Hunt α) : Stage α → α → Prop where
  | guess {m : Minimum α} (near : Scalar.abs (floored h m - h.aim) < h.valueTolerance) :
      Finds h (.begun m) (quadraticGuess h (floored h m))
  | secant {s : Approach α} (steep : (s.slope == 0) = false)
      (arrived : secantArrived h s (secantStep h s)) : Finds h (.seeking s) (secantStep h s)
  | parabola {s : Approach α} {best : Fin 3} {a slope : α}
      (rises : rising? h.profile.state.space.precision h.aim s.trio = some (a, slope))
      (close : Scalar.abs (a - (s.trio.get best).x) < h.stepTolerance a)
      (level : Scalar.abs ((s.trio.get best).y - h.aim) < h.valueTolerance) :
      Finds h (.bracketed s best) a

end Stage

namespace Hunt
variable [Spectral α] {h : Hunt α} {stage : Stage α} {trials : List (Trial α)}

/- The stages that a search passes, with the trials made so far, the latest first. A trial may answer
anything that does not end the search. -/
inductive Passes (h : Hunt α) : List (Trial α) → Stage α → Prop where
  | start : Passes h [] .start
  | tries {trials : List (Trial α)} {stage : Stage α} {a : α} {limited : Bool}
      {next : Minimum α → Stage α} (m : Minimum α) (before : Passes h trials stage)
      (tries : stage.Tries h (a, limited) next) (goesOn : ∀ state v, ¬ h.Stops limited m state v) :
      Passes h (⟨a, m.value, m.calls⟩ :: trials) (next m)
  | turns {trials : List (Trial α)} {stage next : Stage α} (before : Passes h trials stage)
      (turns : stage.Turns h next) : Passes h trials next

/- How a search ends: with a crossing where a stage finds one, without one at a stage, or by a trial that
does not let it go on. -/
inductive Ends (h : Hunt α) : List (Trial α) → Crossing α → Prop where
  | found {trials : List (Trial α)} {stage : Stage α} {c : Crossing α} (before : h.Passes trials stage)
      (finds : stage.Finds h c.value) (verdict : c.verdict = .found) : Ends h trials c
  | lost {trials : List (Trial α)} {stage : Stage α} {c : Crossing α} (before : h.Passes trials stage)
      (verdict : c.verdict = .missing) : Ends h trials c
  | halted {trials : List (Trial α)} {stage : Stage α} {a : α} {limited : Bool}
      {next : Minimum α → Stage α} {c : Crossing α} (m : Minimum α) (before : h.Passes trials stage)
      (tries : stage.Tries h (a, limited) next) (stops : h.Stops limited m c.state c.verdict) :
      Ends h (⟨a, m.value, m.calls⟩ :: trials) c

theorem probePasses {a : α} {limited : Bool} {next : Minimum α → Stage α}
    (tries : stage.Tries h (a, limited) next) :
    Chase.Ensures (fun tr _ => h.Passes tr.trials stage) (h.probe a limited)
      (fun m tr _ => h.Passes tr.trials (next m)) fun c tr _ => h.Ends tr.trials c :=
  probeEnsures (fun _ _ before => .lost before rfl)
    (fun _ _ _ m _ before _ _ _ stops => .halted m before tries stops)
    fun _ _ _ m _ before _ goesOn => .tries m before tries goesOn

/- A search goes from stage to stage, and ends as its last one lets it. -/
theorem movesPass (h : Hunt α) :
    Keeps h (fun stage tr _ => h.Passes tr.trials stage) fun c tr _ => h.Ends tr.trials c where
  expects _ before := before
  lost before := .lost before rfl
  begins := probePasses .begins
  decided near before := .found before (.guess near) rfl
  opens apart := probePasses (.opens apart)
  climbs falls still left := probePasses (.climbs falls still left)
  risen done before := .turns before (.risen done)
  arrives steep arrived before := .found before (.secant steep arrived) rfl
  sights apart left := probePasses (.sights apart left)
  brackets between before := .turns before (.brackets between)
  replaces aside best before := .turns before (.replaces aside best)
  restarts aside below best before := .turns before (.restarts aside below best)
  crosses rises close level before := .found before (.parabola rises close level) rfl
  refines rises sorted less := probePasses (.refines rises sorted less)

end Hunt

theorem Profile.chasePasses [Spectral α] (p : Profile α) (line : List (Lead α)) (tolerance : α)
    (maxCalls : ℕ) (t : Trace α) :
    let r := ((p.chase line tolerance maxCalls).run t).1
    Hunt.longestStep p.state.space line = none ∧ r.2 = [] ∧ r.1.verdict = .missing ∨
      ∃ limit, Hunt.longestStep p.state.space line = some limit ∧
        Hunt.Ends ⟨p, line, tolerance, maxCalls, limit⟩ r.2 r.1 := by
  intro r
  rcases p.chaseKeeps tolerance maxCalls t line with ⟨free, run⟩ | ⟨limit, c, tr, u, longest, run, keeps⟩
  · have here : r = (⟨0, p.state, 0, .missing⟩, []) := congrArg Prod.fst run
    rw [here]
    exact .inl ⟨free, rfl, rfl⟩
  · have here : r = (c, tr.trials) := congrArg Prod.fst run
    rw [here]
    exact .inr ⟨limit, longest, keeps _ _ (Hunt.movesPass _) .start⟩

end ParamFit
