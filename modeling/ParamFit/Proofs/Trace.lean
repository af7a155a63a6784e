import ParamFit.Evaluation

/-! What a computation leaves in the trace. A computation of the library is built of answers, of
checks and of questions at points from some set; whatever each of these does to a trace, the whole
computation does. The points are a parameter: all points for call counts, the admissible ones where
a search has to stay inside limits. -/
namespace ParamFit
variable {α β γ : Type}

namespace Trace

theorem callsAppend (t u : Trace α) : (t.append u).calls = t.calls + u.calls := by
  simp [append, calls]

end Trace

namespace Eval

theorem runBind (m : Eval α β) (f : β → Eval α γ) (t : Trace α) :
    (m >>= f).run t = (f (m.run t).1).run (m.run t).2 := rfl

theorem runPure (b : β) (t : Trace α) : (pure b : Eval α β).run t = (b, t) := rfl

theorem runIte {c : Prop} [Decidable c] (m n : Eval α β) (t : Trace α) :
    (if c then m else n).run t = if c then m.run t else n.run t := by
  split <;> rfl

theorem runParts {m : Eval α β} {f : β → Eval α γ} {t u : Trace α} {c : γ}
    (run : (m >>= f).run t = (c, u)) : ∃ b v, m.run t = (b, v) ∧ (f b).run v = (c, u) :=
  ⟨_, _, rfl, run⟩

/- An answer is what a run without a failed check leads to. -/
theorem runAnswers {m : Eval α β} {t u : Trace α} {b : β} :
    m.run? t = some (b, u) ↔ m.run t = (b, u) ∧ u.sound := by
  rw [run?]
  generalize m.run t = r
  obtain ⟨c, v⟩ := r
  dsimp only
  split
  case isTrue sound =>
    rw [Option.some.injEq]
    refine ⟨fun same => ⟨same, ?_⟩, fun same => same.1⟩
    cases same
    exact sound
  case isFalse unsound =>
    refine ⟨nofun, fun same => ?_⟩
    cases same.1
    exact absurd same.2 unsound

theorem soundExpect (holds : Bool) (t : Trace α) :
    ((expect holds).run t).2.sound = (t.sound && holds) := rfl

theorem runApart (m : Eval α β) (t : Trace α) :
    (apart m).run t = ((m.run {}).1, t.append (m.run {}).2) := rfl

end Eval

theorem Attempt.runAnswer {m : Attempt α β} {f : β → Attempt α γ} {t u : Trace α} {b : β}
    (run : m.run.run t = (.ok b, u)) : (m >>= f).run.run t = (f b).run.run u := by
  have bound : (m >>= f).run.run t =
      (ExceptT.bindCont f (m.run.run t).1).run (m.run.run t).2 := rfl
  rw [bound, run]
  rfl

/- The inductive description of what a search may do while it runs. It knows nothing of the results:
those are read off the definitions. -/
inductive Asks (s : Surface α) (P : Array α → Prop) : {β : Type} → Eval α β → Prop where
  | pure {β : Type} (b : β) : Asks s P (Pure.pure b : Eval α β)
  | bind {β γ : Type} {m : Eval α β} {f : β → Eval α γ} (first : Asks s P m)
      (rest : ∀ b, Asks s P (f b)) : Asks s P (m >>= f)
  | calls : Asks s P (Eval.calls : Eval α Nat)
  | expect (holds : Bool) : Asks s P (Eval.expect holds : Eval α Unit)
  | value {x : Array α} (inside : P x) : Asks s P (s.externalValue x)
  | slope {x : Array α} (place : Nat) (inside : P x) : Asks s P (s.externalSlope place x)

/- A relation between traces that every single step respects. -/
structure Habit (P : Array α → Prop) (R : Trace α → Trace α → Prop) : Prop where
  refl (t : Trace α) : R t t
  trans {t u v : Trace α} (first : R t u) (rest : R u v) : R t v
  expect (t : Trace α) (holds : Bool) : R t { t with sound := t.sound && holds }
  value (t : Trace α) {x : Array α} (inside : P x) : R t { t with values := t.values.push x }
  slope (t : Trace α) {x : Array α} (inside : P x) : R t { t with slopes := t.slopes.push x }

namespace Asks
variable {s : Surface α} {P : Array α → Prop}

theorem ite {c : Prop} [Decidable c] {m n : Eval α β} (yes : Asks s P m) (no : Asks s P n) :
    Asks s P (if c then m else n) := by
  split
  · exact yes
  · exact no

theorem tabulate {f : Nat → Eval α β} (each : ∀ k, Asks s P (f k)) (n : Nat) :
    Asks s P (Eval.tabulate f n) := by
  induction n with
  | zero => exact .pure _
  | succ n ih => exact .bind ih fun _ => .bind (each n) fun _ => .pure _

theorem keeps {R : Trace α → Trace α → Prop} (habit : Habit P R) {m : Eval α β}
    (asks : Asks s P m) (t : Trace α) : R t (m.run t).2 := by
  induction asks generalizing t with
  | pure b => exact habit.refl t
  | bind first rest ihFirst ihRest => exact habit.trans (ihFirst t) (ihRest _ _)
  | calls => exact habit.refl t
  | expect holds => exact habit.expect t holds
  | value inside => exact habit.trans (habit.expect t _) (habit.value _ inside)
  | slope place inside => exact habit.trans (habit.expect t _) (habit.slope _ inside)

end Asks

theorem callsHabit (P : Array α → Prop) : Habit P fun t u : Trace α => t.calls ≤ u.calls where
  refl _ := Nat.le_refl _
  trans := Nat.le_trans
  expect _ _ := Nat.le_refl _
  value t _ _ := by simp [Trace.calls]
  slope _ _ _ := Nat.le_refl _

theorem Asks.grows {s : Surface α} {P : Array α → Prop} {m : Eval α β} (asks : Asks s P m)
    (t : Trace α) : t.calls ≤ (m.run t).2.calls := asks.keeps (callsHabit P) t

theorem soundHabit (P : Array α → Prop) : Habit P fun t u : Trace α => u.sound → t.sound where
  refl _ := id
  trans first rest := first ∘ rest
  expect t holds sound := by
    simp only [Bool.and_eq_true] at sound
    exact sound.1
  value _ _ _ := id
  slope _ _ _ := id

theorem Asks.soundBefore {s : Surface α} {P : Array α → Prop} {m : Eval α β} (asks : Asks s P m)
    {t : Trace α} (sound : (m.run t).2.sound) : t.sound := asks.keeps (soundHabit P) t sound

theorem Asks.soundCheck {s : Surface α} {P : Array α → Prop} {m : Eval α β} (asks : Asks s P m)
    {t : Trace α} {holds : Bool} (sound : (m.run ((Eval.expect holds).run t).2).2.sound) :
    holds := by
  have before : t.sound && holds := asks.soundBefore sound
  simp only [Bool.and_eq_true] at before
  exact before.2

theorem Surface.runExternalValue (s : Surface α) (x : Array α) (t : Trace α) :
    (s.externalValue x).run t = (s.objective.value x,
      ⟨t.values.push x, t.slopes, t.sound && decide (s.objective.reads x ≤ x.size)⟩) := rfl

theorem Surface.callsExternalValue (s : Surface α) (x : Array α) (t : Trace α) :
    ((s.externalValue x).run t).2.calls = t.calls + 1 := by
  change (t.values.push x).size = t.values.size + 1
  exact Array.size_push x

theorem Surface.callsValue [Scalar α] (s : Surface α) (x : Array α) (t : Trace α) :
    ((s.value x).run t).2.calls = t.calls + 1 :=
  s.callsExternalValue _ _

end ParamFit
