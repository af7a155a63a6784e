import ParamFit.Proofs.Trace

/-! What a computation yields and what it costs: a property of its answer, a bound on the calls it adds
to a trace, and that it lacks nothing as long as all counts fit. The rules follow the ways to build a
computation. -/
namespace ParamFit
variable {α β γ : Type}

structure Yields (fits : Prop) (m : Eval α β) (t : Trace α) (n : Nat) (post : β → Prop) : Prop where
  answer : post (m.run t).1
  calls : (m.run t).2.calls ≤ t.calls + n
  sound : fits → (m.run t).2.sound = t.sound

namespace Yields
variable {fits : Prop} {t : Trace α} {n : Nat} {post : β → Prop}

theorem after {m : Eval α β} (yields : Yields fits m t n post) {b : β} {u : Trace α}
    (run : m.run t = (b, u)) : post b ∧ u.calls ≤ t.calls + n ∧ (fits → u.sound = t.sound) := by
  obtain ⟨answer, calls, sound⟩ := yields
  rw [run] at answer calls sound
  exact ⟨answer, calls, sound⟩

/- Nothing is lacking whatever the counts are. -/
theorem ends {m : Eval α β} (yields : Yields True m t n post) :
    ∃ b u, m.run t = (b, u) ∧ post b ∧ u.calls ≤ t.calls + n ∧ u.sound = t.sound :=
  ⟨_, _, rfl, yields.answer, yields.calls, yields.sound trivial⟩

theorem pure {b : β} (holds : post b) : Yields fits (Pure.pure b : Eval α β) t n post :=
  ⟨holds, Nat.le_add_right _ _, fun _ => rfl⟩

theorem bind {m : Eval α β} {f : β → Eval α γ} {k : Nat} {last : γ → Prop}
    (first : Yields fits m t n post)
    (rest : ∀ b u, post b → u.calls ≤ t.calls + n → Yields fits (f b) u k last) :
    Yields fits (m >>= f) t (n + k) last := by
  have next := rest (m.run t).1 (m.run t).2 first.answer first.calls
  refine ⟨next.answer, ?_, fun fit => (next.sound fit).trans (first.sound fit)⟩
  have one := first.calls
  have two := next.calls
  rw [Eval.runBind]
  omega

theorem ite {c : Prop} [Decidable c] {m₁ m₂ : Eval α β} (yes : c → Yields fits m₁ t n post)
    (no : ¬ c → Yields fits m₂ t n post) : Yields fits (if c then m₁ else m₂) t n post := by
  split
  case isTrue holds => exact yes holds
  case isFalse fails => exact no fails

theorem expect {holds : Bool} {m : Eval α β} (true : fits → holds = true)
    (rest : ∀ u, u.calls = t.calls → Yields fits m u n post) :
    Yields fits (Eval.expect holds >>= fun _ => m) t n post := by
  have next := rest ((Eval.expect holds).run t).2 rfl
  refine ⟨next.answer, next.calls, fun fit => (next.sound fit).trans ?_⟩
  rw [Eval.soundExpect, true fit, Bool.and_true]

theorem skip {m : Eval α γ} {f : γ → Eval α β} {c : γ} (asksNothing : m.run t = (c, t))
    (rest : Yields fits (f c) t n post) : Yields fits (m >>= f) t n post := by
  have same : (m >>= f).run t = (f c).run t := by rw [Eval.runBind, asksNothing]
  refine ⟨?_, ?_, ?_⟩ <;> rw [same]
  · exact rest.answer
  · exact rest.calls
  · exact rest.sound

theorem settled {m : Eval α β} {b : β} (asksNothing : m.run t = (b, t)) (holds : post b) :
    Yields fits m t n post := by
  refine ⟨?_, ?_, ?_⟩ <;> rw [asksNothing]
  · exact holds
  · exact Nat.le_add_right _ _
  · exact fun _ => rfl

theorem counting {f : Nat → Eval α β} (rest : Yields fits (f t.calls) t n post) :
    Yields fits (Eval.calls >>= f) t n post := ⟨rest.answer, rest.calls, rest.sound⟩

theorem map {m : Eval α β} {f : β → γ} {post : γ → Prop} (yields : Yields fits m t n fun b => post (f b)) :
    Yields fits (m >>= fun b => Pure.pure (f b)) t n post :=
  ⟨yields.answer, yields.calls, yields.sound⟩

theorem weaken {m : Eval α β} {k : Nat} {more : β → Prop} (yields : Yields fits m t n post)
    (le : n ≤ k) (implies : ∀ b, post b → more b) : Yields fits m t k more :=
  ⟨implies _ yields.answer, Nat.le_trans yields.calls (Nat.add_le_add_left le _), yields.sound⟩

theorem tabulate {f : Nat → Eval α β} {count : Nat} (each : Nat → β → Prop)
    (entry : ∀ k < count, ∀ u, Yields fits (f k) u n (each k)) :
    Yields fits (Eval.tabulate f count) t (count * n) fun table =>
      table.size = count ∧ ∀ k b, table[k]? = some b → each k b := by
  induction count generalizing t with
  | zero => exact .pure ⟨rfl, by simp⟩
  | succ count ih =>
    rw [Nat.succ_mul]
    refine .bind (ih fun k below => entry k (Nat.lt_succ_of_lt below)) fun before u known _ => ?_
    obtain ⟨answer, calls, sound⟩ := entry count (Nat.lt_succ_self count) u
    refine .map ⟨⟨?_, ?_⟩, calls, sound⟩
    · rw [Array.size_push, known.1]
    · intro k b found
      rw [Array.getElem?_push, known.1] at found
      split at found
      case isTrue last =>
        cases found
        rw [last]
        exact answer
      case isFalse => exact known.2 k b found

end Yields
end ParamFit
