import ParamFit.Proofs.Trace

/-! Where a computation asks, and what its answer is. It stays within a set of points when it adds no
others to a trace; what the answer satisfies is carried along, because where the next step asks depends
on it. Both hold from every trace. The rules follow the ways to build a computation. -/
namespace ParamFit
variable {α β γ : Type}

/- All points of a trace, of values and of slopes, are in a set. -/
structure Trace.Within (P : Array α → Prop) (t : Trace α) : Prop where
  values : ∀ x ∈ t.values, P x
  slopes : ∀ x ∈ t.slopes, P x

theorem Trace.emptyWithin (P : Array α → Prop) : Trace.Within P {} := ⟨by simp, by simp⟩

theorem Trace.Within.weaken {P Q : Array α → Prop} {t : Trace α} (within : t.Within P)
    (implies : ∀ x, P x → Q x) : t.Within Q :=
  ⟨fun x among => implies x (within.values x among), fun x among => implies x (within.slopes x among)⟩

theorem Trace.Within.append {P : Array α → Prop} {t u : Trace α} (first : t.Within P)
    (rest : u.Within P) : (t.append u).Within P := by
  refine ⟨fun x among => ?_, fun x among => ?_⟩
  · exact (Array.mem_append.mp among).elim (first.values x) (rest.values x)
  · exact (Array.mem_append.mp among).elim (first.slopes x) (rest.slopes x)

structure Stays (P : Array α → Prop) (m : Eval α β) (post : β → Prop) : Prop where
  answer (t : Trace α) : post (m.run t).1
  within {t : Trace α} (before : t.Within P) : (m.run t).2.Within P

namespace Stays
variable {P : Array α → Prop} {post : β → Prop}

theorem after {m : Eval α β} (stays : Stays P m post) {b : β} {t u : Trace α} (run : m.run t = (b, u)) :
    post b := by
  have answer := stays.answer t
  rwa [run] at answer

theorem pure {b : β} (holds : post b) : Stays P (Pure.pure b : Eval α β) post :=
  ⟨fun _ => holds, id⟩

theorem bind {m : Eval α β} {f : β → Eval α γ} {last : γ → Prop} (first : Stays P m post)
    (rest : ∀ b, post b → Stays P (f b) last) : Stays P (m >>= f) last where
  answer t := (rest _ (first.answer t)).answer _
  within before := (rest _ (first.answer _)).within (first.within before)

/- Where nothing is known of the first answer, the rest holds for every answer. -/
theorem bindAny {m : Eval α β} {f : β → Eval α γ} {last : γ → Prop}
    (first : Stays P m fun _ => True) (rest : ∀ b, Stays P (f b) last) :
    Stays P (m >>= f) last := bind first fun b _ => rest b

theorem ite {c : Prop} [Decidable c] {m₁ m₂ : Eval α β} (yes : c → Stays P m₁ post)
    (no : ¬ c → Stays P m₂ post) : Stays P (if c then m₁ else m₂) post := by
  split
  case isTrue holds => exact yes holds
  case isFalse fails => exact no fails

theorem weaken {m : Eval α β} {more : β → Prop} (stays : Stays P m post)
    (implies : ∀ b, post b → more b) : Stays P m more :=
  ⟨fun t => implies _ (stays.answer t), stays.within⟩

theorem both {m : Eval α β} {more : β → Prop} (stays : Stays P m post) (other : Stays P m more) :
    Stays P m fun b => post b ∧ more b :=
  ⟨fun t => ⟨stays.answer t, other.answer t⟩, stays.within⟩

theorem map {m : Eval α β} {f : β → γ} {last : γ → Prop} (stays : Stays P m fun b => last (f b)) :
    Stays P (m >>= fun b => Pure.pure (f b)) last := ⟨stays.answer, stays.within⟩

theorem expect {holds : Bool} {m : Eval α β} (rest : Stays P m post) :
    Stays P (Eval.expect holds >>= fun _ => m) post :=
  ⟨fun _ => rest.answer _, fun before => rest.within ⟨before.values, before.slopes⟩⟩

theorem counting {f : Nat → Eval α β} (rest : ∀ n, Stays P (f n) post) :
    Stays P (Eval.calls >>= f) post :=
  ⟨fun t => (rest t.calls).answer t, fun before => (rest _).within before⟩

/- A computation with a trace of its own. -/
theorem apart {m : Eval α β} (stays : Stays P m post) : Stays P (Eval.apart m) post where
  answer _ := stays.answer {}
  within before := before.append (stays.within (Trace.emptyWithin P))

theorem tabulate {f : Nat → Eval α β} (each : ∀ k, Stays P (f k) fun _ => True) (n : Nat) :
    Stays P (Eval.tabulate f n) fun table => table.size = n := by
  induction n with
  | zero => exact .pure rfl
  | succ n ih =>
    refine .bind ih fun table size => .bind (each n) fun _ _ => .pure ?_
    rw [Array.size_push, size]

end Stays

namespace Surface
variable {s : Surface α} {P : Array α → Prop}

theorem externalValueStays {x : Array α} (inside : P x) :
    Stays P (s.externalValue x) fun y => y = s.objective.value x where
  answer _ := rfl
  within before := by
    refine ⟨fun y among => ?_, before.slopes⟩
    rcases Array.mem_push.mp among with earlier | rfl
    · exact before.values y earlier
    · exact inside

theorem externalSlopeStays {x : Array α} (place : Nat) (inside : P x) :
    Stays P (s.externalSlope place x) fun _ => True where
  answer _ := trivial
  within before := by
    refine ⟨before.values, fun y among => ?_⟩
    rcases Array.mem_push.mp among with earlier | rfl
    · exact before.slopes y earlier
    · exact inside

variable [Scalar α]

/- What an objective is worth at internal coordinates. -/
def worth (s : Surface α) (x : Array α) : α := s.objective.value (s.space.external x)

/- What asking for a value needs: no more coordinates than there are, and all that the objective reads. -/
def Answers (s : Surface α) (x : Array α) : Prop :=
  x.size ≤ s.space.dimension ∧
    s.objective.reads (s.space.external x) ≤ (s.space.external x).size

/- Every point with all coordinates can be asked. -/
def Readable (s : Surface α) : Prop := ∀ x : Array α, x.size = s.space.dimension → s.Answers x

theorem valueStays {x : Array α} (inside : P (s.space.external x)) :
    Stays P (s.value x) fun y => y = s.worth x := .expect (externalValueStays inside)

end Surface
end ParamFit
