import ParamFit.Proofs.Rounds
import ParamFit.Proofs.Staying

/-! A descent never rises, and it reports what it saw. A round moves to the best sample of its line
search, which is not above the point it began with; a model that is forced positive definite leaves
the point as it is. So the last point of every run is at most as high as the seed. -/
namespace ParamFit

/- What is known next: of a point of the same surface, and of one that is not higher. -/
structure Surface.Descends (s : Surface ℝ) (k next : Knowledge ℝ) : Prop where
  tells : s.Tells next
  lower : next.value ≤ k.value

theorem Surface.Descends.trans {s : Surface ℝ} {k₁ k₂ k₃ : Knowledge ℝ} (first : s.Descends k₁ k₂)
    (second : s.Descends k₂ k₃) : s.Descends k₁ k₃ :=
  ⟨second.tells, second.lower.trans first.lower⟩

theorem Surface.Tells.same {s : Surface ℝ} {k : Knowledge ℝ} (known : s.Tells k) : s.Descends k k :=
  ⟨known, le_refl _⟩

/- A result whose history is true, and whose last point is not above its seed. -/
structure Surface.Reports (s : Surface ℝ) (seed : Seed ℝ) (min : Minimum ℝ) : Prop where
  origin : min.seed = seed
  history : ∀ k ∈ min.history, s.Tells k
  lower : min.value ≤ seed.knowledge.value

namespace Surface.Reports
variable {s : Surface ℝ} {seed : Seed ℝ} {min : Minimum ℝ}

theorem last (reports : s.Reports seed min) : s.Tells min.last :=
  reports.history _ (List.mem_append_right _ (List.mem_singleton_self _))

theorem ofSeed (known : s.Tells seed.knowledge) (up : ℝ) : s.Reports seed (.ofSeed seed up) := by
  refine ⟨rfl, fun k among => ?_, le_refl _⟩
  rw [Minimum.history, Minimum.ofSeed, List.nil_append, List.mem_singleton] at among
  rwa [among]

theorem add (reports : s.Reports seed min) {k : Knowledge ℝ} (further : s.Descends min.last k) :
    s.Reports seed (min.add k) where
  origin := reports.origin
  history j among := by
    rcases List.mem_append.mp among with earlier | latest
    · exact reports.history j earlier
    · rw [List.mem_singleton.mp latest]
      exact further.tells
  lower := further.lower.trans reports.lower

theorem ofPast {k : Knowledge ℝ} {past : List (Knowledge ℝ)}
    (told : ∀ j ∈ past, s.Tells j) (last : s.Descends seed.knowledge k) (up : ℝ) :
    s.Reports seed (.ofHistory seed (k :: past).reverse up) := by
  rw [Descent.ofHistoryReverse]
  refine ⟨rfl, fun j among => ?_, last.lower⟩
  rcases List.mem_append.mp among with earlier | latest
  · exact told j (List.mem_reverse.mp earlier)
  · rw [List.mem_singleton.mp latest]
    exact last.tells

/- Flags alter neither the history nor the seed. -/
theorem flag (reports : s.Reports seed min) (above spent : Bool) :
    s.Reports seed { min with aboveMaxEdm := above, callLimit := spent } :=
  ⟨reports.origin, reports.history, reports.lower⟩

end Surface.Reports

namespace Descent

/- What a round can end with, seen from the point it began with. -/
def Outcome.Follows (s : Surface ℝ) (k : Knowledge ℝ) : Outcome ℝ → Prop
  | .moved next | .stillUphill next | .stillIndefinite next => s.Descends k next
  | .stuck => True

section
variable {s : Surface ℝ}

theorem alignedTells {k : Knowledge ℝ} (known : s.Tells k) (prec : Precision ℝ) :
    s.Descends k (aligned prec k) := by
  unfold aligned
  split
  · exact ⟨⟨known.point, known.slopes⟩, le_refl _⟩
  · exact known.same

theorem promisingTells {k : Knowledge ℝ} (known : s.Tells k) (prec : Precision ℝ) (g : Gradient ℝ) :
    s.Descends k (promising prec g k) := by
  unfold promising
  split
  · exact ⟨⟨known.point, known.slopes⟩, le_refl _⟩
  · exact known.same

theorem newtonStepSize {k : Knowledge ℝ} (known : s.Tells k) :
    k.newtonStep.size = s.space.dimension := by
  rw [Knowledge.newtonStep, Array.size_map, Symmetric.sizeMulVec, known.slopes]

end

section
variable {s : Surface ℝ} {P : Array ℝ → Prop}
  (inside : ∀ x : Array ℝ, x.size = s.space.dimension → P (s.space.external x))
include inside

theorem arriveStays (m : GradientMethod ℝ) (prec : Precision ℝ) {k : Knowledge ℝ}
    (known : s.Tells k) {best : Sample ℝ}
    (found : Surface.Best (fun t => s.worth (k.point.along k.newtonStep t)) k.value best) :
    Stays P (arrive s m prec k best) (Outcome.Follows s k) := by
  have next := Surface.bestKnown known.point (newtonStepSize known) found
  refine .bind (Surface.gradientFromStays inside m next.size known.slopes) fun g slopes => ?_
  have kept := promisingTells known prec g
  refine .expect (.ite (fun _ => .pure kept) fun _ => .expect (.counting fun _ => .pure ?_))
  exact ⟨⟨next, slopes⟩, found.lower⟩

theorem roundStays (m : GradientMethod ℝ) (prec : Precision ℝ) {k : Knowledge ℝ}
    (known : s.Tells k) : Stays P (round s m prec k) (Outcome.Follows s k) := by
  have start := alignedTells known prec
  refine .expect (.ite (fun _ => .pure start) fun _ => ?_)
  have step := newtonStepSize start.tells
  refine .bind (Surface.lineSearchStays inside start.tells.point step _ _) fun best found => ?_
  refine .ite (fun _ => .pure trivial) fun _ => ?_
  refine (arriveStays inside m prec start.tells found).weaken fun o follows => ?_
  cases o with
  | stuck => trivial
  | moved next => exact start.trans follows
  | stillUphill next => exact start.trans follows
  | stillIndefinite next => exact start.trans follows

/- The points of a run are true, and the last one, which comes first, is not above the beginning. -/
theorem roundsStays (m : GradientMethod ℝ) (prec : Precision ℝ) (maxCalls : ℕ) (wanted : ℝ)
    {start k : Knowledge ℝ} {past : List (Knowledge ℝ)} (told : ∀ j ∈ past, s.Tells j)
    (here : s.Descends start k) (edm : ℝ) (fuel : ℕ) :
    Stays P (rounds s m prec maxCalls wanted past k edm fuel) fun r =>
      ∃ last before, r.1 = last :: before ∧ (∀ j ∈ before, s.Tells j) ∧ s.Descends start last := by
  induction fuel generalizing past k edm with
  | zero => exact .pure ⟨k, past, rfl, told, here⟩
  | succ fuel ih =>
    have longer : ∀ j ∈ k :: past, s.Tells j := List.forall_mem_cons.mpr ⟨here.tells, told⟩
    refine .bind (roundStays inside m prec here.tells) fun o follows => ?_
    cases o with
    | stuck => exact .pure ⟨k, past, rfl, told, here⟩
    | stillUphill forced => exact .pure ⟨forced, k :: past, rfl, longer, here.trans follows⟩
    | stillIndefinite forced => exact .pure ⟨forced, k :: past, rfl, longer, here.trans follows⟩
    | moved next =>
      have further := here.trans follows
      refine .counting fun _ => .ite (fun _ => ih longer further _) fun _ => .pure ?_
      exact ⟨next, k :: past, rfl, longer, further⟩

omit inside in
theorem judgeReports {seed : Seed ℝ} {history : List (Knowledge ℝ)} {up : ℝ}
    (reports : s.Reports seed (.ofHistory seed history up)) (prec : Precision ℝ) (wanted edm : ℝ)
    (ending : Ending) (outOfCalls : Bool) :
    s.Reports seed (judge seed up prec wanted history edm ending outOfCalls) := by
  unfold judge
  dsimp only
  repeat' split
  all_goals exact ⟨reports.origin, reports.history, reports.lower⟩

theorem iterateStays (m : GradientMethod ℝ) {seed : Seed ℝ} (known : s.Tells seed.knowledge)
    (maxCalls : ℕ) (edmval : ℝ) :
    Stays P (iterate s m seed maxCalls edmval) (s.Reports seed) := by
  refine .ite (fun _ => .pure (.ofSeed known _)) fun _ => ?_
  refine .bind (roundsStays inside m _ _ _ (by simp) known.same _ _) ?_
  rintro ⟨_, edm, ending⟩ ⟨last, before, rfl, told, lower⟩
  exact .counting fun _ => .pure (judgeReports (.ofPast told lower _) _ _ _ _ _)

end
end Descent

theorem Surface.descendStays {s : Surface ℝ} {P : Array ℝ → Prop}
    (inside : ∀ x : Array ℝ, x.size = s.space.dimension → P (s.space.external x))
    (m : GradientMethod ℝ) {seed : Seed ℝ} (known : s.Tells seed.knowledge) (st : Strategy ℝ)
    (maxCalls : ℕ) (edmval : ℝ) :
    Stays P (s.descend m seed st maxCalls edmval) (s.Reports seed) := by
  refine .bind (Descent.iterateStays inside m known maxCalls edmval) fun min reports => ?_
  refine .ite (fun _ => .bind (secondDerivativesStays inside st reports.last 0) ?_) fun _ =>
    .pure reports
  exact fun k found => .pure (reports.add ⟨found.1, (congrArg Point.value found.2).le⟩)

end ParamFit
