import ParamFit.Profile.Interval
import ParamFit.Proofs.Accounting
import ParamFit.Proofs.Admissible

/-! The chase after a crossing asks along a line, and remembers only steps that it tried. What it
keeps while it runs is said for each of its ways to go on, as for plain computations; it may also end
at once with a crossing. Steps that were tried stay tried. -/
namespace ParamFit

namespace Chase
variable {α β γ : Type}

theorem runBind (m : Chase α β) (f : β → Chase α γ) (tr : Tracker α) (t : Trace α) :
    ((m >>= f).run.run tr).run t =
      match (m.run.run tr).run t with
      | ((.ok b, u), v) => ((f b).run.run u).run v
      | ((.error c, u), v) => ((.error c, u), v) := by
  let p := (m.run.run tr).run t
  change ((ExceptT.bindCont f p.1.1).run p.1.2).run p.2 = match p with
    | ((.ok b, u), v) => ((f b).run.run u).run v
    | ((.error c, u), v) => ((.error c, u), v)
  generalize p = q
  obtain ⟨⟨_ | b, u⟩, v⟩ := q
  · rfl
  · rfl

theorem runGet (f : Tracker α → Chase α β) (tr : Tracker α) (t : Trace α) :
    ((MonadState.get >>= f : Chase α β).run.run tr).run t = ((f tr).run.run tr).run t := rfl

theorem runSet (f : PUnit → Chase α β) (u tr : Tracker α) (t : Trace α) :
    ((MonadStateOf.set u >>= f : Chase α β).run.run tr).run t = ((f ⟨⟩).run.run u).run t := rfl

theorem runLift (m : Eval α β) (f : β → Chase α γ) (tr : Tracker α) (t : Trace α) :
    (((liftM m : Chase α β) >>= f).run.run tr).run t =
      ((f (m.run t).1).run.run tr).run (m.run t).2 := rfl

theorem runAnswer {m : Chase α β} {f : β → Chase α γ} {tr tr' : Tracker α} {t u : Trace α} {b : β}
    (run : (m.run.run tr).run t = ((.ok b, tr'), u)) :
    ((m >>= f).run.run tr).run t = ((f b).run.run tr').run u := by rw [runBind, run]

theorem runEnd {m : Chase α β} {f : β → Chase α γ} {tr tr' : Tracker α} {t u : Trace α}
    {c : Crossing α} (run : (m.run.run tr).run t = ((.error c, tr'), u)) :
    ((m >>= f).run.run tr).run t = ((.error c, tr'), u) := by rw [runBind, run]

theorem runStop [Spectral α] (m : Minimum α) (value : α) (v : Verdict) (tr : Tracker α) (t : Trace α) :
    ((Hunt.stop m value v : Chase α β).run.run tr).run t =
      ((.error ⟨value, m.state, tr.calls, v⟩, tr), t) := rfl

end Chase

/- The value that a parameter is led to by a step. -/
def Lead.spot (l : Lead ℝ) (a : ℝ) : ℝ := l.middle + a * l.direction

/- The steps at which the values of a trace were asked. -/
def Lead.tried (l : Lead ℝ) (t : Trace ℝ) : Set ℝ := {a | ∃ x ∈ t.values, entry x l.place = l.spot a}

theorem Lead.triedAppend (l : Lead ℝ) (t u : Trace ℝ) : l.tried t ⊆ l.tried (t.append u) := by
  rintro a ⟨x, among, here⟩
  exact ⟨x, Array.mem_append_left _ among, here⟩

/- Where a chase has come to: to an answer, or to its end. -/
structure Landed {β : Type} (P : Array ℝ → Prop) (l : Lead ℝ) (after : Tracker ℝ → Prop)
    (post : β → Set ℝ → Prop) (ended : Crossing ℝ → Set ℝ → Prop) (t : Trace ℝ)
    (r : (Except (Crossing ℝ) β × Tracker ℝ) × Trace ℝ) : Prop where
  within : r.2.Within P
  grows : l.tried t ⊆ l.tried r.2
  answer : ∀ b, r.1.1 = .ok b → after r.1.2 ∧ post b (l.tried r.2)
  ended : ∀ c, r.1.1 = .error c → ended c (l.tried r.2)

/- A chase asks in `P` only, if at its beginning at least the steps in `K` were tried. From a tracker
as it should be `before`, it comes to one as it should be `after`, unless it ends. -/
def Pursues {β : Type} (P : Array ℝ → Prop) (l : Lead ℝ) (before after : Tracker ℝ → Prop)
    (K : Set ℝ) (m : Chase ℝ β) (post : β → Set ℝ → Prop) (ended : Crossing ℝ → Set ℝ → Prop) :
    Prop :=
  ∀ tr t, before tr → t.Within P → K ⊆ l.tried t →
    Landed P l after post ended t ((m.run.run tr).run t)

namespace Pursues
variable {β γ : Type} {P : Array ℝ → Prop} {l : Lead ℝ} {J J' J'' : Tracker ℝ → Prop} {K : Set ℝ}
  {post : β → Set ℝ → Prop} {ended : Crossing ℝ → Set ℝ → Prop}

theorem pure {b : β} (kept : ∀ tr, J tr → J' tr) (holds : ∀ T, K ⊆ T → post b T) :
    Pursues P l J J' K (Pure.pure b) post ended := fun _ _ held inside known =>
  ⟨inside, subset_rfl, fun _ same => Except.ok.inj same ▸ ⟨kept _ held, holds _ known⟩, nofun⟩

theorem bind {m : Chase ℝ β} {f : β → Chase ℝ γ} {last : γ → Set ℝ → Prop}
    (first : Pursues P l J J' K m post ended)
    (rest : ∀ b T, K ⊆ T → post b T → Pursues P l J' J'' T (f b) last ended) :
    Pursues P l J J'' K (m >>= f) last ended := by
  intro tr t held inside known
  have landed := first tr t held inside known
  rw [Chase.runBind]
  generalize (m.run.run tr).run t = r at landed
  obtain ⟨⟨_ | b, u⟩, v⟩ := r
  · exact ⟨landed.within, landed.grows, nofun, fun c same => landed.ended c (by cases same; rfl)⟩
  · obtain ⟨still, holds⟩ := landed.answer b rfl
    have next := rest b _ (known.trans landed.grows) holds u v still landed.within subset_rfl
    exact ⟨next.within, landed.grows.trans next.grows, next.answer, next.ended⟩

/- What ends at once needs nothing of what would follow. -/
theorem leave {m : Chase ℝ β} {f : β → Chase ℝ γ} {last : γ → Set ℝ → Prop}
    (ends : Pursues P l J J K m (fun _ _ => False) ended) :
    Pursues P l J J'' K (m >>= f) last ended :=
  ends.bind fun _ _ _ never => never.elim

theorem ite {c : Prop} [Decidable c] {m₁ m₂ : Chase ℝ β}
    (yes : c → Pursues P l J J' K m₁ post ended) (no : ¬ c → Pursues P l J J' K m₂ post ended) :
    Pursues P l J J' K (if c then m₁ else m₂) post ended := by
  split
  case isTrue holds => exact yes holds
  case isFalse fails => exact no fails

theorem weaken {m : Chase ℝ β} {more : β → Set ℝ → Prop} {later : Crossing ℝ → Set ℝ → Prop}
    (pursues : Pursues P l J J' K m post ended) (answers : ∀ b T, post b T → more b T)
    (ends : ∀ c T, K ⊆ T → ended c T → later c T) : Pursues P l J J' K m more later := by
  intro tr t held inside known
  have landed := pursues tr t held inside known
  exact ⟨landed.within, landed.grows,
    fun b same => ⟨(landed.answer b same).1, answers _ _ (landed.answer b same).2⟩,
    fun c same => ends _ _ (known.trans landed.grows) (landed.ended c same)⟩

theorem get : Pursues P l J J K (MonadState.get : Chase ℝ (Tracker ℝ)) (fun tr _ => J tr) ended :=
  fun _ _ held inside _ =>
    ⟨inside, subset_rfl, fun _ same => Except.ok.inj same ▸ ⟨held, held⟩, nofun⟩

theorem set {u : Tracker ℝ} (held : J' u) :
    Pursues P l J J' K (MonadStateOf.set u : Chase ℝ PUnit) (fun _ _ => True) ended :=
  fun _ _ _ inside _ => ⟨inside, subset_rfl, fun _ _ => ⟨held, trivial⟩, nofun⟩

theorem expect (holds : Bool) :
    Pursues P l J J K (liftM (Eval.expect holds : Eval ℝ Unit) : Chase ℝ Unit) (fun _ _ => True)
      ended :=
  fun _ _ held inside _ =>
    ⟨⟨inside.values, inside.slopes⟩, subset_rfl, fun _ _ => ⟨held, trivial⟩, nofun⟩

theorem giveUp {h : Hunt ℝ} (missing : ∀ c T, K ⊆ T → c.isValid = false → ended c T) :
    Pursues P l J J' K (h.giveUp : Chase ℝ β) post ended :=
  fun _ _ _ inside known =>
    ⟨inside, subset_rfl, nofun, fun _ same => missing _ _ known (by cases same; rfl)⟩

theorem stop {m : Minimum ℝ} {value : ℝ} {v : Verdict}
    (holds : ∀ c T, K ⊆ T → c.value = value → c.verdict = v → ended c T) :
    Pursues P l J J' K (Hunt.stop m value v : Chase ℝ β) post ended :=
  fun _ _ _ inside known => ⟨inside, subset_rfl, nofun, fun _ same =>
    holds _ _ known (by cases same; rfl) (by cases same; rfl)⟩

end Pursues
end ParamFit
