import ParamFit.Profile.Contour
import ParamFit.Proofs.Hunting

/-! Computations that do not look at what was asked before them. Such a computation has one answer, and
adds the same to every trace. A search for a crossing is one, since each of its minimizations counts its
own calls; so are an interval and the minimization at an end of it. -/
namespace ParamFit
variable {α β γ : Type}

namespace Trace

theorem appendNothing (t : Trace α) : t.append {} = t := by simp [append]

theorem nothingAppend (t : Trace α) : ({} : Trace α).append t = t := by simp [append]

theorem appendAssoc (t u v : Trace α) : (t.append u).append v = t.append (u.append v) := by
  simp [append, Bool.and_assoc]

end Trace

namespace Eval

/- Whatever was asked before, the answer and what is asked are these. -/
def Adds (m : Eval α β) (b : β) (asked : Trace α) : Prop := ∀ t, m.run t = (b, t.append asked)

/- What is asked does not depend on what was asked before. -/
def Blind (m : Eval α β) : Prop := ∃ b asked, Adds m b asked

namespace Adds
variable {m : Eval α β} {f : β → Eval α γ} {b c : β} {u v : Trace α}

theorem pure (b : β) : Adds (Pure.pure b : Eval α β) b {} := fun t =>
  Prod.ext rfl t.appendNothing.symm

theorem bind {d : γ} (first : Adds m b u) (rest : Adds (f b) d v) : Adds (m >>= f) d (u.append v) := by
  intro t
  rw [runBind, first t, ← Trace.appendAssoc]
  exact rest _

/- What a run shows, every run shows. -/
theorem unique {t w : Trace α} (adds : Adds m b u) (run : m.run t = (c, w)) :
    c = b ∧ w = t.append u := by
  rw [adds t] at run
  cases run
  exact ⟨rfl, rfl⟩

end Adds

namespace Blind
variable {m : Eval α β} {f : β → Eval α γ}

theorem pure (b : β) : Blind (Pure.pure b : Eval α β) := ⟨b, {}, .pure b⟩

theorem bind (first : Blind m) (rest : ∀ b, Blind (f b)) : Blind (m >>= f) := by
  obtain ⟨b, u, first⟩ := first
  obtain ⟨c, v, rest⟩ := rest b
  exact ⟨c, u.append v, first.bind rest⟩

theorem expect (holds : Bool) : Blind (Eval.expect holds : Eval α Unit) :=
  ⟨(), ⟨#[], #[], holds⟩, fun t => Prod.ext rfl (by simp [Trace.append]; rfl)⟩

/- The first run shows all. -/
theorem shows (blind : Blind m) : Adds m (m.run {}).1 (m.run {}).2 := by
  obtain ⟨b, asked, adds⟩ := blind
  rw [adds {}, Trace.nothingAppend]
  exact adds

theorem adds (blind : Blind m) {t u : Trace α} {b : β} (run : m.run t = (b, u)) :
    ∃ asked, Adds m b asked ∧ u = t.append asked := by
  obtain ⟨c, asked, adds⟩ := blind
  obtain ⟨rfl, same⟩ := adds.unique run
  exact ⟨asked, adds, same⟩

end Blind
end Eval

/-! ### The search for a crossing -/

namespace Chase

def Blind (m : Chase α β) : Prop := ∀ tr, Eval.Blind (m.run.run tr)

/- A chase that ends at once, without asking. -/
def Quits (m : Chase α β) : Prop := ∀ tr, ∃ c, Eval.Adds (m.run.run tr) (.error c, tr) {}

theorem Quits.giveUp [Spectral α] {h : Hunt α} : Quits (h.giveUp : Chase α β) :=
  fun tr => ⟨⟨0, h.profile.state, tr.calls, .missing⟩, .pure _⟩

theorem Quits.stop [Spectral α] {m : Minimum α} {value : α} {v : Verdict} :
    Quits (Hunt.stop m value v : Chase α β) :=
  fun tr => ⟨⟨value, m.state, tr.calls, v⟩, .pure _⟩

namespace Blind
variable {m : Chase α β} {f : β → Chase α γ}

theorem quits (quits : Quits m) : Blind m := fun tr =>
  let ⟨c, ends⟩ := quits tr
  ⟨(.error c, tr), {}, ends⟩

theorem leave (quits : Quits m) : Blind (m >>= f) := fun tr =>
  let ⟨c, ends⟩ := quits tr
  ⟨(.error c, tr), {}, fun t => runEnd (ends t)⟩

theorem pure (b : β) : Blind (Pure.pure b : Chase α β) := fun tr => ⟨(.ok b, tr), {}, .pure _⟩

theorem bind (first : Blind m) (rest : ∀ b, Blind (f b)) : Blind (m >>= f) := by
  intro tr
  obtain ⟨⟨_ | b, tr'⟩, u, first⟩ := first tr
  · exact ⟨_, u, fun t => runEnd (first t)⟩
  · obtain ⟨r, v, rest⟩ := rest b tr'
    refine ⟨r, u.append v, fun t => ?_⟩
    rw [runAnswer (first t), ← Trace.appendAssoc]
    exact rest _

theorem ite {c : Prop} [Decidable c] {m₁ m₂ : Chase α β} (yes : Blind m₁) (no : Blind m₂) :
    Blind (if c then m₁ else m₂) := by
  split
  case isTrue => exact yes
  case isFalse => exact no

theorem lift {m : Eval α β} (blind : Eval.Blind m) : Blind (liftM m : Chase α β) := by
  intro tr
  obtain ⟨b, asked, adds⟩ := blind
  refine ⟨(.ok b, tr), asked, fun t => ?_⟩
  have run : ((liftM m : Chase α β).run.run tr).run t = ((.ok (m.run t).1, tr), (m.run t).2) := rfl
  rw [run, adds t]

end Blind
end Chase

section
variable [Spectral α] {h : Hunt α}

/- What a trial makes of its minimization asks nothing more. -/
theorem Hunt.judgeBlind (h : Hunt α) (m : Minimum α) (limited : Bool) :
    Chase.Blind (if m.callLimit then Hunt.stop m 0 .callLimit
      else if !m.isValid then h.giveUp
      else if limited && decide (m.value < h.aim) then Hunt.stop m 0 .atLimit
      else if m.value < h.profile.base - h.valueTolerance then Hunt.stop m 0 .lowerMinimum
      else Pure.pure m) := by
  refine .ite (.quits .stop) (.ite (.quits .giveUp) ?_)
  exact .ite (.quits .stop) (.ite (.quits .stop) (.pure m))

theorem Hunt.probeBlind (h : Hunt α) (a : α) (limited : Bool) : Chase.Blind (h.probe a limited) := by
  intro tr
  have refused : Eval.Blind ((h.giveUp : Chase α (Minimum α)).run.run tr) :=
    Chase.Blind.quits .giveUp tr
  obtain ⟨c, nothing, refused⟩ := refused
  cases placed : h.place tr.fit a with
  | error e =>
    refine ⟨c, nothing, fun t => ?_⟩
    rw [probe, Chase.runGet, placed]
    exact refused t
  | ok f =>
    rcases f.minimizeApart h.maxCalls h.tolerance with unsound | ⟨g, m, u, run⟩
    · refine ⟨c, nothing, fun t => ?_⟩
      rw [probe, Chase.runGet, placed]
      dsimp only
      rw [Chase.runLift, unsound]
      exact refused t
    · obtain ⟨r, v, judged⟩ := h.judgeBlind m limited (tr.note g a m)
      refine ⟨r, u.append v, fun t => ?_⟩
      rw [probe, Chase.runGet, placed, ← Trace.appendAssoc]
      dsimp only
      rw [Chase.runLift, run]
      dsimp only
      rw [Chase.runSet]
      exact judged (t.append u)

namespace Approach

theorem climbBlind (s : Approach α) (i fuel : ℕ) : Chase.Blind (climb h s i fuel) := by
  induction fuel generalizing s i with
  | zero => exact .pure s
  | succ fuel ih => exact .bind (h.probeBlind _ _) fun m => .ite (.pure _) (ih _ _)

theorem ascendBlind (s : Approach α) : Chase.Blind (ascend h s) :=
  .ite (.bind (climbBlind s 0 _) fun _ => .ite (.quits .giveUp) (.pure _)) (.pure s)

theorem secantsBlind (s : Approach α) (fuel : ℕ) : Chase.Blind (secants h s fuel) := by
  induction fuel generalizing s with
  | zero => exact .quits .giveUp
  | succ fuel ih =>
    refine .ite (.leave .giveUp) (.ite (.leave .stop) ?_)
    refine .ite (.leave .giveUp) (.bind (h.probeBlind _ _) fun m => ?_)
    refine .ite (.pure _) (.ite (ih _) (.ite (.quits .giveUp) ?_))
    exact .bind (ascendBlind _) ih

theorem parabolasBlind (s : Approach α) (best : Fin 3) (fuel : ℕ) :
    Chase.Blind (parabolas h s best fuel) := by
  induction fuel generalizing s best with
  | zero => exact .quits .giveUp
  | succ fuel ih =>
    unfold Approach.parabolas
    split
    case h_2 => exact .quits .giveUp
    case h_1 a slope _ =>
    refine .ite (.leave .stop) ?_
    split
    case h_2 => exact .quits .giveUp
    case h_1 left right out _ =>
    exact .bind (.lift (.expect _)) fun _ => .bind (h.probeBlind _ _) fun m => ih _ _

theorem searchBlind (h : Hunt α) : Chase.Blind (search h) := by
  refine .bind (h.probeBlind _ _) fun m => .ite (.leave .stop) ?_
  refine .bind (h.probeBlind _ _) fun n => .bind (ascendBlind _) fun s => ?_
  exact .bind (secantsBlind s _) fun r => parabolasBlind r.1 r.2 _

end Approach

namespace Profile
variable (p : Profile α) (tolerance : α) (maxCalls : ℕ)

theorem chaseBlind (line : List (Lead α)) : Eval.Blind (p.chase line tolerance maxCalls) := by
  rw [chase]
  split
  · exact .pure _
  · exact .bind (Approach.searchBlind _ _) fun _ => .pure _

theorem crossingBlind (places : List ℕ) (middles directions : List α) :
    Eval.Blind (p.crossing places middles directions tolerance maxCalls) := by
  rw [crossing]
  split
  · exact .bind (p.chaseBlind tolerance maxCalls _) fun _ => .pure _
  · exact .pure _

end Profile
end

/-! ### Attempts -/

namespace Attempt
variable {m : Attempt α β} {f : β → Attempt α γ} {b : β} {c : γ} {u v : Trace α}

theorem parts {t : Trace α} (run : (m >>= f).run.run t = (.ok c, u)) :
    ∃ b v, m.run.run t = (.ok b, v) ∧ (f b).run.run v = (.ok c, u) := by
  have bound : (m >>= f).run.run t =
      (ExceptT.bindCont f (m.run.run t).1).run (m.run.run t).2 := rfl
  rw [bound] at run
  generalize m.run.run t = r at run
  obtain ⟨e | b, v⟩ := r
  · cases run
  · exact ⟨b, v, rfl, run⟩

/- What is known without asking is no refusal. -/
theorem knownParts {e : Except (FitError α) β} {t : Trace α}
    (run : ((liftM e : Attempt α β) >>= f).run.run t = (.ok c, u)) :
    ∃ b, e = .ok b ∧ (f b).run.run t = (.ok c, u) := by
  cases e with
  | error e => cases run
  | ok b => exact ⟨b, rfl, run⟩

theorem runRefusal {t : Trace α} {e : FitError α} (run : m.run.run t = (.error e, u)) :
    (m >>= f).run.run t = (.error e, u) := by
  have bound : (m >>= f).run.run t =
      (ExceptT.bindCont f (m.run.run t).1).run (m.run.run t).2 := rfl
  rw [bound, run]
  rfl

/- An attempt that succeeds in one way, whatever was asked before. -/
def Adds (m : Attempt α β) (b : β) (asked : Trace α) : Prop := Eval.Adds m.run (.ok b) asked

theorem Adds.pure (b : β) : Adds (Pure.pure b : Attempt α β) b {} := Eval.Adds.pure _

theorem Adds.bind (first : Adds m b u) (rest : Adds (f b) c v) : Adds (m >>= f) c (u.append v) := by
  intro t
  rw [← Trace.appendAssoc]
  exact (runAnswer (first t)).trans (rest _)

/- What is known without asking adds nothing. -/
theorem Adds.known {e : Except (FitError α) β} (same : e = .ok b) (rest : Adds (f b) c v) :
    Adds (liftM e >>= f) c v := same ▸ rest

/- Nor does what is made of an answer. -/
theorem Adds.made (first : Adds m b u) (rest : f b = Pure.pure c) : Adds (m >>= f) c u := by
  have last : Adds (f b) c {} := rest.symm ▸ Adds.pure c
  have whole := first.bind last
  rwa [Trace.appendNothing] at whole

theorem Adds.lift {m : Eval α β} (adds : Eval.Adds m b u) : Adds (liftM m : Attempt α β) b u := by
  intro t
  have run : (liftM m : Attempt α β).run.run t = (.ok (m.run t).1, (m.run t).2) := rfl
  rw [run, adds t]

/- An attempt of which nothing depends on what was asked before. -/
def Blind (m : Attempt α β) : Prop := Eval.Blind m.run

namespace Blind

theorem pure (b : β) : Blind (Pure.pure b : Attempt α β) := Eval.Blind.pure _

theorem ofExcept (e : Except (FitError α) β) : Blind (liftM e : Attempt α β) := by
  cases e with
  | error e => exact ⟨.error e, {}, .pure _⟩
  | ok b => exact pure b

theorem lift {m : Eval α β} (blind : Eval.Blind m) : Blind (liftM m : Attempt α β) := by
  obtain ⟨b, asked, adds⟩ := blind
  exact ⟨.ok b, asked, Adds.lift adds⟩

theorem bind (first : Blind m) (rest : ∀ b, Blind (f b)) : Blind (m >>= f) := by
  obtain ⟨e | b, u, first⟩ := first
  · exact ⟨.error e, u, fun t => runRefusal (first t)⟩
  · obtain ⟨r, v, rest⟩ := rest b
    refine ⟨r, u.append v, fun t => ?_⟩
    rw [← Trace.appendAssoc]
    exact (runAnswer (first t)).trans (rest _)

theorem adds (blind : Blind m) {t : Trace α} (run : m.run.run t = (.ok b, u)) :
    ∃ asked, Adds m b asked ∧ u = t.append asked := Eval.Blind.adds blind run

/- The first of two attempts, and what comes after it. -/
theorem parts (blind : Blind m) {t : Trace α} (run : (m >>= f).run.run t = (.ok c, u)) :
    ∃ b asked, Adds m b asked ∧ (f b).run.run (t.append asked) = (.ok c, u) := by
  obtain ⟨b, v, once, rest⟩ := Attempt.parts run
  obtain ⟨asked, adds, rfl⟩ := blind.adds once
  exact ⟨b, asked, adds, rest⟩

end Blind
end Attempt

namespace Fit
variable [Spectral α]

theorem minimizeBlind (f : Fit α) (maxCalls : ℕ) (tolerance : α) :
    Eval.Blind (f.minimizeWith maxCalls tolerance) := by
  rcases f.minimizeApart maxCalls tolerance with refused | ⟨g, m, u, run⟩
  · exact ⟨_, {}, fun t => (refused t).trans (Prod.ext rfl t.appendNothing.symm)⟩
  · exact ⟨_, u, run⟩

end Fit

namespace Surroundings
variable [Spectral α] (s : Surroundings α)

theorem crossingBlind (side : Side) (p : Address) (multiple : α) (maxCalls : ℕ) :
    Attempt.Blind (s.crossing side p multiple maxCalls) := by
  refine .bind (.ofExcept _) fun (i, k) => .bind (.ofExcept _) fun t => .lift ?_
  exact Profile.crossingBlind ..

theorem intervalBlind (p : Address) (multiple : α) (maxCalls : ℕ) :
    Attempt.Blind (s.interval p multiple maxCalls) :=
  .bind (.ofExcept _) fun _ => .bind (s.crossingBlind ..) fun _ => .bind (s.crossingBlind ..) fun _ =>
    .pure _

theorem cardinalBlind (place : ℕ) (value : α) (other : ℕ) :
    Attempt.Blind (s.cardinal place value other) :=
  .bind (.ofExcept _) fun f => .bind (f.minimizeBlind ..) fun _ => .pure _

end Surroundings
end ParamFit
