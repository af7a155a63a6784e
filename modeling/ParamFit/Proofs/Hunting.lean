import ParamFit.Proofs.Chasing

/-! The search for a crossing as moves from stage to stage. A move makes one trial at most. `Keeps` lists
the moves, each with the tests that lead to it, and the ways in which a search ends; what every move
keeps is kept by a whole search. -/
namespace ParamFit
variable {α β γ : Type}

namespace Chase

/- From a tracker and a trace as they are `before`, a chase comes to an answer and leaves them as they
are `after`, or it ends and leaves them `ended`. -/
def Ensures (before : Tracker α → Trace α → Prop) (m : Chase α β)
    (after : β → Tracker α → Trace α → Prop) (ended : Crossing α → Tracker α → Trace α → Prop) : Prop :=
  ∀ tr t, before tr t → match (m.run.run tr).run t with
    | ((.ok b, u), v) => after b u v
    | ((.error c, u), v) => ended c u v

namespace Ensures
variable {before : Tracker α → Trace α → Prop} {after : β → Tracker α → Trace α → Prop}
  {ended : Crossing α → Tracker α → Trace α → Prop}

theorem pure {b : β} (holds : ∀ tr t, before tr t → after b tr t) :
    Ensures before (Pure.pure b) after ended := holds

/- A run from a tracker and a trace that are known. -/
theorem run {m : Chase α β} {tr : Tracker α} {t : Trace α}
    (ensures : Ensures (fun x y => x = tr ∧ y = t) m after ended) :
    match (m.run.run tr).run t with
    | ((.ok b, u), v) => after b u v
    | ((.error c, u), v) => ended c u v := ensures tr t ⟨rfl, rfl⟩

theorem bind {m : Chase α β} {f : β → Chase α γ} {last : γ → Tracker α → Trace α → Prop}
    (first : Ensures before m after ended) (rest : ∀ b, Ensures (after b) (f b) last ended) :
    Ensures before (m >>= f) last ended := by
  intro tr t holds
  have begun := first tr t holds
  rw [runBind]
  generalize (m.run.run tr).run t = r at begun
  obtain ⟨⟨_ | b, u⟩, v⟩ := r
  · exact begun
  · exact rest b u v begun

/- What ends at once needs nothing of what would follow. -/
theorem leave {m : Chase α β} {f : β → Chase α γ} {last : γ → Tracker α → Trace α → Prop}
    (ends : Ensures before m (fun _ _ _ => False) ended) : Ensures before (m >>= f) last ended :=
  ends.bind fun _ _ _ never => never.elim

theorem ite {c : Prop} [Decidable c] {m₁ m₂ : Chase α β} (yes : c → Ensures before m₁ after ended)
    (no : ¬ c → Ensures before m₂ after ended) :
    Ensures before (if c then m₁ else m₂) after ended := by
  split
  case isTrue holds => exact yes holds
  case isFalse fails => exact no fails

theorem weaken {m : Chase α β} {more : β → Tracker α → Trace α → Prop}
    (ensures : Ensures before m after ended) (answers : ∀ b tr t, after b tr t → more b tr t) :
    Ensures before m more ended := by
  intro tr t holds
  have known := ensures tr t holds
  generalize (m.run.run tr).run t = r at known
  obtain ⟨⟨_ | b, u⟩, v⟩ := r
  · exact known
  · exact answers b u v known

theorem anything (m : Chase α β) :
    Ensures before m (fun _ _ _ => True) fun _ _ _ => True := by
  intro tr t _
  split <;> trivial

theorem expect {holds : Bool} {after : Unit → Tracker α → Trace α → Prop}
    (kept : ∀ tr t, before tr t → after () tr ((Eval.expect holds).run t).2) :
    Ensures before (liftM (Eval.expect holds : Eval α Unit)) after ended := kept

variable [Spectral α]

theorem giveUp {h : Hunt α}
    (missing : ∀ tr t, before tr t → ended ⟨0, h.profile.state, tr.calls, .missing⟩ tr t) :
    Ensures before (h.giveUp : Chase α β) after ended := missing

theorem stop {m : Minimum α} {value : α} {v : Verdict}
    (holds : ∀ tr t, before tr t → ended ⟨value, m.state, tr.calls, v⟩ tr t) :
    Ensures before (Hunt.stop m value v : Chase α β) after ended := holds

end Ensures
end Chase

namespace Hunt
section
variable [Spectral α]

/- How a minimization at a step ends a search: with which state and for which reason. -/
inductive Stops (h : Hunt α) (limited : Bool) (m : Minimum α) : FitState α → Verdict → Prop where
  | spent (calls : m.callLimit) : Stops h limited m m.state .callLimit
  | unsound (invalid : ¬ m.isValid) : Stops h limited m h.profile.state .missing
  | cut (ahead : limited) (low : m.value < h.aim) : Stops h limited m m.state .atLimit
  | lower (low : m.value < h.profile.base - h.valueTolerance) : Stops h limited m m.state .lowerMinimum

/- With the leads put at a step, a fit is minimized; `asked` is what that asks. -/
def Minimizes (h : Hunt α) (f : Fit α) (a : α) (g : Fit α) (m : Minimum α) (asked : Trace α) : Prop :=
  ∃ placed, h.place f a = .ok placed ∧
    (placed.minimizeWith h.maxCalls h.tolerance).run {} = (.ok (g, m), asked)

end
end Hunt

def Tracker.note [Scalar α] (tr : Tracker α) (f : Fit α) (a : α) (m : Minimum α) : Tracker α :=
  ⟨f, tr.calls + m.calls, ⟨a, m.value, m.calls⟩ :: tr.trials⟩

/- A minimization is refused at once, or it adds to a trace what it asks without knowing the trace. -/
theorem Fit.minimizeApart [Spectral α] (f : Fit α) (maxCalls : ℕ) (tolerance : α) :
    (∀ t, (f.minimizeWith maxCalls tolerance).run t = (.error (.unusable .notMinimizable), t)) ∨
      ∃ g m u, ∀ t, (f.minimizeWith maxCalls tolerance).run t = (.ok (g, m), t.append u) := by
  by_cases valid : f.state.valid
  · exact .inr ⟨_, _, _, Fit.minimizeRun valid maxCalls tolerance⟩
  · refine .inl fun t => ?_
    rw [minimizeWith, if_pos (by simp [valid])]
    rfl

section
variable [Spectral α] {h : Hunt α} {before : Tracker α → Trace α → Prop}
  {after : Minimum α → Tracker α → Trace α → Prop} {ended : Crossing α → Tracker α → Trace α → Prop}

/- A trial minimizes once, unless it is refused. Then it ends the search or is answered. -/
theorem Hunt.probeEnsures {a : α} {limited : Bool}
    (refused : ∀ tr t, before tr t → ended ⟨0, h.profile.state, tr.calls, .missing⟩ tr t)
    (stopped : ∀ tr t g m u, before tr t → h.Minimizes tr.fit a g m u → ∀ state v,
      h.Stops limited m state v →
        ended ⟨0, state, tr.calls + m.calls, v⟩ (tr.note g a m) (t.append u))
    (answered : ∀ tr t g m u, before tr t → h.Minimizes tr.fit a g m u →
      (∀ state v, ¬ h.Stops limited m state v) → after m (tr.note g a m) (t.append u)) :
    Chase.Ensures before (h.probe a limited) after ended := by
  intro tr t holds
  rw [probe, Chase.runGet]
  cases placed : h.place tr.fit a with
  | error e => exact refused tr t holds
  | ok f =>
    dsimp only
    rw [Chase.runLift]
    rcases f.minimizeApart h.maxCalls h.tolerance with nothing | ⟨g, m, u, run⟩
    · rw [nothing]
      exact refused tr t holds
    · have minimizes : h.Minimizes tr.fit a g m u :=
        ⟨f, placed, (run {}).trans (by simp [Trace.append])⟩
      have ends {state v} := stopped tr t g m u holds minimizes state v
      rw [run]
      dsimp only
      rw [Chase.runSet]
      have stop {v : Verdict} (stops : h.Stops limited m m.state v) :
          Chase.Ensures (fun x y => x = tr.note g a m ∧ y = t.append u) (Hunt.stop m 0 v) after
            ended := by
        rintro _ _ ⟨rfl, rfl⟩
        exact ends stops
      refine Chase.Ensures.run (.ite (fun calls => stop (.spent calls)) fun within => ?_)
      refine .ite (fun invalid => ?_) fun sound => .ite (fun cut => ?_) fun uncut => ?_
      · rintro _ _ ⟨rfl, rfl⟩
        exact ends (.unsound (by simpa using invalid))
      · exact stop (.cut (by simp_all) (by simp_all))
      · refine .ite (fun low => stop (.lower low)) fun high => ?_
        rintro _ _ ⟨rfl, rfl⟩
        refine answered tr t g m u holds minimizes fun state v stops => ?_
        cases stops with
        | spent calls => exact within calls
        | unsound invalid => exact sound (by simpa using invalid)
        | cut ahead low => exact uncut (by simp [ahead, low])
        | lower low => exact high low

end

theorem Trio.getSet (t : Trio α) (i j : Fin 3) (p : Sample α) :
    (t.set i p).get j = if i = j then p else t.get j := by
  fin_cases i <;> fin_cases j <;> rfl

/- What holds of all samples holds still when one is exchanged for another of which it holds. -/
theorem Trio.allSet {t : Trio α} (good : Sample α → Prop) (all : ∀ j, good (t.get j)) (i : Fin 3)
    {p : Sample α} (here : good p) (j : Fin 3) : good ((t.set i p).get j) := by
  rw [getSet]
  split
  case isTrue => exact here
  case isFalse => exact all j

/- Where a search stands: before and after its first trial, on its way along the line after a number of
steps, before and after a secant step, and with the level between its trials. -/
inductive Stage (α : Type) where
  | start
  | begun (m : Minimum α)
  | climbing (s : Approach α) (made : ℕ)
  | seeking (s : Approach α)
  | sighted (s : Approach α)
  | bracketed (s : Approach α) (best : Fin 3)

namespace Approach

section
variable [Scalar α]

/- The value that stands for the first trial. -/
def floored (h : Hunt α) (m : Minimum α) : α :=
  Scalar.max m.value (h.profile.base + 0.1 * h.profile.rise)

def opened (h : Hunt α) (m : Minimum α) (a : α) (n : Minimum α) : Approach α :=
  let trio : Trio α := ⟨⟨0, floored h m⟩, ⟨a, n.value⟩, ⟨0, 0⟩⟩
  ⟨trio, chord trio, 1, n⟩

def sight (s : Approach α) (a : α) (m : Minimum α) : Approach α :=
  { s with trio := { s.trio with third := ⟨a, m.value⟩ }, count := s.count + 1, latest := m }

def replace (s : Approach α) (worst : Fin 3) : Approach α :=
  let trio := s.trio.set worst s.trio.third
  { s with trio, slope := chord trio }

def restart (s : Approach α) : Approach α :=
  { s with trio := { s.trio with second := s.trio.third } }

def refine (s : Approach α) (out : Fin 3) (a : α) (m : Minimum α) : Approach α :=
  { s with trio := s.trio.set out ⟨a, m.value⟩, count := s.count + 1, latest := m }

/-! ### Next trials: the step, and whether it was cut at the limit -/

def climbTrial (h : Hunt α) (s : Approach α) (made : ℕ) : α × Bool :=
  h.cap (s.trio.second.x + 0.2 * Scalar.ofNat (made + 1))

def secantTrial (h : Hunt α) (s : Approach α) : α × Bool := h.cap (s.holdSecant (secantStep h s))

def insideTrial (h : Hunt α) (s : Approach α) (left right out : Fin 3) (a slope : α) : α × Bool :=
  h.cap (holdInside h s.trio left right out a slope)

end

section
variable [Spectral α]

def secondTrial (h : Hunt α) (m : Minimum α) : α × Bool :=
  h.cap (Scalar.clamp (quadraticGuess h (floored h m)) (-0.5) 1)

/- The moves of a search and its ends. -/
structure Keeps (h : Hunt α) (stands : Stage α → Tracker α → Trace α → Prop)
    (ended : Crossing α → Tracker α → Trace α → Prop) : Prop where
  expects {stage tr t} (holds : Bool) (here : stands stage tr t) :
    stands stage tr ((Eval.expect holds).run t).2
  lost {stage tr t} (here : stands stage tr t) : ended ⟨0, h.profile.state, tr.calls, .missing⟩ tr t
  begins : Chase.Ensures (stands .start) (h.probe 0 (decide (h.limit < 0 + h.tolerance)))
    (fun m => stands (.begun m)) ended
  decided {m tr t} (near : Scalar.abs (floored h m - h.aim) < h.valueTolerance)
    (here : stands (.begun m) tr t) :
    ended ⟨quadraticGuess h (floored h m), m.state, tr.calls, .found⟩ tr t
  opens {m} (apart : ¬ Scalar.abs (floored h m - h.aim) < h.valueTolerance) :
    let (a, limited) := secondTrial h m
    Chase.Ensures (stands (.begun m)) (h.probe a limited)
      (fun n => stands (.climbing (opened h m a n) 0)) ended
  climbs {s made} (falls : made = 0 → s.slope < 0) (still : 0 < made → ¬ s.slope > 0)
    (left : s.count < maxCount) :
    let (a, limited) := climbTrial h s made
    Chase.Ensures (stands (.climbing s made)) (h.probe a limited)
      (fun m => stands (.climbing (s.advance a m) (made + 1))) ended
  risen {s made tr t} (done : made = 0 ∧ ¬ s.slope < 0 ∨ 0 < made ∧ s.slope > 0 ∨ s.count = maxCount)
    (here : stands (.climbing s made) tr t) : stands (.seeking s) tr t
  arrives {s tr t} (steep : (s.slope == 0) = false) (arrived : secantArrived h s (secantStep h s))
    (here : stands (.seeking s) tr t) : ended ⟨secantStep h s, s.latest.state, tr.calls, .found⟩ tr t
  sights {s} (apart : ¬ secantArrived h s (secantStep h s)) (left : s.count ≤ maxCount) :
    let (a, limited) := secantTrial h s
    Chase.Ensures (stands (.seeking s)) (h.probe a limited)
      (fun m => stands (.sighted (s.sight a m))) ended
  brackets {s tr t} (between : (survey h.aim s.trio).below = 1 ∨ (survey h.aim s.trio).below = 2)
    (here : stands (.sighted s) tr t) : stands (.bracketed s (survey h.aim s.trio).best) tr t
  replaces {s tr t} (aside : ¬ ((survey h.aim s.trio).below = 1 ∨ (survey h.aim s.trio).below = 2))
    (best : (survey h.aim s.trio).best = 2) (here : stands (.sighted s) tr t) :
    stands (.seeking (s.replace (survey h.aim s.trio).worst)) tr t
  restarts {s tr t} (aside : ¬ ((survey h.aim s.trio).below = 1 ∨ (survey h.aim s.trio).below = 2))
    (below : (survey h.aim s.trio).below ≠ 0) (best : (survey h.aim s.trio).best ≠ 2)
    (here : stands (.sighted s) tr t) : stands (.climbing s.restart 0) tr t
  crosses {s best a slope tr t}
    (rises : rising? h.profile.state.space.precision h.aim s.trio = some (a, slope))
    (close : Scalar.abs (a - (s.trio.get best).x) < h.stepTolerance a)
    (level : Scalar.abs ((s.trio.get best).y - h.aim) < h.valueTolerance)
    (here : stands (.bracketed s best) tr t) : ended ⟨a, s.latest.state, tr.calls, .found⟩ tr t
  refines {s best a slope left right out}
    (rises : rising? h.profile.state.space.precision h.aim s.trio = some (a, slope))
    (sorted : sides h.aim s.trio = ⟨some left, some right, some out⟩) (less : s.count < maxCount) :
    let (b, limited) := insideTrial h s left right out a slope
    Chase.Ensures (stands (.bracketed s best)) (h.probe b limited)
      (fun m => stands (.bracketed (s.refine out b m) out)) ended

namespace Keeps
variable {h : Hunt α} {stands : Stage α → Tracker α → Trace α → Prop}
  {ended : Crossing α → Tracker α → Trace α → Prop} (keeps : Keeps h stands ended)
include keeps

theorem giveUp (stage : Stage α) {after : β → Tracker α → Trace α → Prop} :
    Chase.Ensures (stands stage) (h.giveUp : Chase α β) after ended := .giveUp fun _ _ => keeps.lost

theorem climb {s : Approach α} {made fuel : ℕ} (left : fuel = maxCount - s.count)
    (falls : made = 0 → s.slope < 0) (still : 0 < made → ¬ s.slope > 0) :
    Chase.Ensures (stands (.climbing s made)) (climb h s made fuel)
      (fun s tr t => ∃ made, stands (.climbing s made) tr t ∧
        (0 < made ∧ s.slope > 0 ∨ maxCount ≤ s.count)) ended := by
  induction fuel generalizing s made with
  | zero => exact .pure fun tr t here => ⟨made, here, .inr (Nat.sub_eq_zero_iff_le.mp left.symm)⟩
  | succ fuel ih =>
    refine .bind (keeps.climbs falls still (by omega)) fun m => ?_
    refine .ite (fun rises => ?_) fun flat => ?_
    · exact .pure fun tr t here => ⟨_, here, .inl ⟨made.succ_pos, rises⟩⟩
    · exact ih (by simp only [advance]; omega) (fun zero => absurd zero made.succ_ne_zero) fun _ => flat

theorem ascend (s : Approach α) :
    Chase.Ensures (stands (.climbing s 0)) (ascend h s) (fun s => stands (.seeking s)) ended := by
  refine .ite (fun falls => ?_) fun rises => ?_
  · refine .bind (keeps.climb rfl (fun _ => falls) fun none => absurd none (lt_irrefl 0)) fun s => ?_
    refine .ite (fun _ => ?_) fun within => ?_
    · exact .giveUp fun tr t ⟨made, here, _⟩ => keeps.lost here
    · refine .pure fun tr t ⟨made, here, done⟩ => keeps.risen (.inr (done.imp_right fun most => ?_)) here
      exact le_antisymm (not_lt.mp within) most
  · exact .pure fun tr t here => keeps.risen (.inl ⟨rfl, rises⟩) here

theorem secants (s : Approach α) (fuel : ℕ) :
    Chase.Ensures (stands (.seeking s)) (secants h s fuel) (fun r => stands (.bracketed r.1 r.2))
      ended := by
  induction fuel generalizing s with
  | zero => exact keeps.giveUp _
  | succ fuel ih =>
    unfold Approach.secants
    refine .ite (fun _ => .leave (keeps.giveUp _)) fun steep => ?_
    refine .ite (fun arrived => .leave (.stop fun tr t => ?_)) fun apart => ?_
    · exact keeps.arrives (by simp_all) arrived
    refine .ite (fun _ => .leave (keeps.giveUp _)) fun most => ?_
    refine .bind (keeps.sights apart (not_lt.mp most)) fun m => ?_
    refine .ite (fun between => ?_) fun aside => ?_
    · exact .pure fun tr t => keeps.brackets between
    refine .ite (fun best => ?_) fun other => .ite (fun _ => keeps.giveUp _) fun below => ?_
    · exact fun tr t here => ih _ tr t (keeps.replaces aside best here)
    · refine .bind (fun tr t here => ?_) fun s => ih s
      exact keeps.ascend _ tr t (keeps.restarts aside below other here)

theorem parabolas (s : Approach α) (best : Fin 3) {fuel : ℕ} (left : fuel = maxCount - s.count) :
    Chase.Ensures (stands (.bracketed s best)) (parabolas h s best fuel) (fun _ _ _ => False)
      ended := by
  induction fuel generalizing s best with
  | zero => exact keeps.giveUp _
  | succ fuel ih =>
    unfold Approach.parabolas
    split
    case h_2 => exact keeps.giveUp _
    case h_1 a slope rises =>
    refine .ite (fun near => .leave (.stop fun tr t => keeps.crosses rises near.1 near.2)) fun _ => ?_
    split
    case h_2 => exact keeps.giveUp _
    case h_1 left right out sorted =>
    have expected (holds : Bool) : Chase.Ensures (stands (.bracketed s best))
        (liftM (Eval.expect holds : Eval α Unit)) (fun _ => stands (.bracketed s best)) ended :=
      .expect fun tr t => keeps.expects holds
    refine .bind (expected _) fun _ => ?_
    refine .bind (keeps.refines rises sorted (by omega)) fun m => ih _ out ?_
    simp only [refine]
    omega

theorem search : Chase.Ensures (stands .start) (search h) (fun _ _ _ => False) ended := by
  refine .bind keeps.begins fun m => ?_
  refine .ite (fun near => .leave (.stop fun tr t => keeps.decided near)) fun apart => ?_
  refine .bind (keeps.opens apart) fun n => ?_
  refine .bind (keeps.ascend _) fun s => .bind (keeps.secants s _) fun r => ?_
  exact keeps.parabolas r.1 r.2 rfl

end Keeps

/- A first trial that is answered near the level decides the search. -/
theorem searchDecided {h : Hunt α} {tr tr' : Tracker α} {t u : Trace α} {m : Minimum α}
    (first : ((h.probe 0 (decide (h.limit < 0 + h.tolerance))).run.run tr).run t = ((.ok m, tr'), u))
    (near : Scalar.abs (floored h m - h.aim) < h.valueTolerance) :
    ((search h).run.run tr).run t =
      ((.error ⟨quadraticGuess h (floored h m), m.state, tr'.calls, .found⟩, tr'), u) := by
  rw [floored] at near
  rw [search, Chase.runAnswer first]
  dsimp only
  rw [if_pos near]
  rfl

end
end Approach

/- Places, middles and directions that belong together. -/
def Lead.list (places : List ℕ) (middles directions : List α) : List (Lead α) :=
  (places.zip (middles.zip directions)).map fun (i, m, d) => ⟨i, m, d⟩

namespace Profile
variable [Spectral α] (p : Profile α) (tolerance : α) (maxCalls : ℕ) (t : Trace α)

/- A chase along leads that exist ends as its moves say; otherwise it does nothing. -/
theorem chaseKeeps (line : List (Lead α)) :
    (Hunt.longestStep p.state.space line = none ∧
      (p.chase line tolerance maxCalls).run t = ((⟨0, p.state, 0, .missing⟩, []), t)) ∨
    ∃ limit c tr u, Hunt.longestStep p.state.space line = some limit ∧
      (p.chase line tolerance maxCalls).run t = ((c, tr.trials), u) ∧
      ∀ stands ended, Approach.Keeps ⟨p, line, tolerance, maxCalls, limit⟩ stands ended →
        stands .start ⟨p.inner, 0, []⟩ t → ended c tr u := by
  rw [chase]
  cases longest : Hunt.longestStep p.state.space line with
  | none => exact .inl ⟨rfl, rfl⟩
  | some limit =>
    let h : Hunt α := ⟨p, line, tolerance, maxCalls, limit⟩
    dsimp only
    rw [Eval.runBind]
    have ends stands ended (keeps : Approach.Keeps h stands ended) := keeps.search ⟨p.inner, 0, []⟩ t
    have run : StateT.run ((Approach.search h).run ⟨p.inner, 0, []⟩) t =
        ((Approach.search h).run.run ⟨p.inner, 0, []⟩).run t := rfl
    rw [run]
    generalize ((Approach.search h).run.run ⟨p.inner, 0, []⟩).run t = r at ends
    obtain ⟨⟨found | answer, tr⟩, u⟩ := r
    · exact .inr ⟨limit, found, tr, u, rfl, rfl, ends⟩
    · exact .inr ⟨limit, answer, tr, u, rfl, rfl, fun stands ended keeps start =>
        (ends stands ended keeps start).elim⟩

/- So does a crossing, which is the answer of a chase or says that it is missing. -/
theorem crossingKeeps (places : List ℕ) (middles directions : List α) :
    let line := Lead.list places middles directions
    (p.crossing places middles directions tolerance maxCalls).run t =
        (⟨0, p.state, 0, .missing⟩, t) ∨
      ∃ limit c tr u, (p.chase line tolerance maxCalls).run t = ((c, tr.trials), u) ∧
        (p.crossing places middles directions tolerance maxCalls).run t = (c, u) ∧
        ∀ stands ended, Approach.Keeps ⟨p, line, tolerance, maxCalls, limit⟩ stands ended →
          stands .start ⟨p.inner, 0, []⟩ t → ended c tr u := by
  intro line
  rw [crossing]
  split
  case isFalse => exact .inl rfl
  case isTrue =>
    change (let r := (p.chase line tolerance maxCalls).run t; (r.1.1, r.2)) = _ ∨
      ∃ limit c tr u, _ ∧ (let r := (p.chase line tolerance maxCalls).run t; (r.1.1, r.2)) = _ ∧ _
    rcases p.chaseKeeps tolerance maxCalls t line with ⟨_, ended⟩ | ⟨limit, c, tr, u, _, ended, keeps⟩
    · exact .inl (by rw [ended])
    · exact .inr ⟨limit, c, tr, u, ended, by rw [ended], keeps⟩

end Profile
end ParamFit
