import ParamFit.Proofs.Contracting
import ParamFit.Proofs.Moving

/-! Reported values are true. Whatever a descent, a simplex or both report from a seed made for them,
every point of the history has the value that the objective has there, and one search alone never
ends above its seed. A second descent begins from declarations whose parameters were moved; given
all coordinates, these have the same external values. -/
namespace ParamFit

/- Every point of the history has the value that the objective has there: in the declarations that
were searched, and in those of the result itself. -/
structure Minimum.Truthful (f : Objective ℝ) (space : Space ℝ) (min : Minimum ℝ) : Prop where
  asked : ∀ k ∈ min.history, k.value = f.value (space.external k.point.x)
  own : ∀ k ∈ min.history, k.value = f.value (min.seed.space.external k.point.x)

namespace Surface
variable {s : Surface ℝ}

/- A result from declarations in which at most the parameters that vary have moved. -/
structure Delivers (s : Surface ℝ) (min : Minimum ℝ) : Prop where
  moved : s.space.Moved min.seed.space
  history : ∀ k ∈ min.history, s.Tells k

theorem Reports.delivers {seed : Seed ℝ} {min : Minimum ℝ} (reports : s.Reports seed min)
    (moved : s.space.Moved seed.space) : s.Delivers min :=
  ⟨by rwa [reports.origin], reports.history⟩

theorem Delivers.truthful {min : Minimum ℝ} (delivers : s.Delivers min) :
    min.Truthful s.objective s.space where
  asked k among := (delivers.history k among).point.value
  own k among := by
    have known := (delivers.history k among).point
    rw [delivers.moved.external known.size.ge]
    exact known.value

section
variable {P : Array ℝ → Prop}
  (inside : ∀ x : Array ℝ, x.size = s.space.dimension → P (s.space.external x))
include inside

theorem descendAgainStays (m : GradientMethod ℝ) {coarse : Minimum ℝ} (delivers : s.Delivers coarse)
    (maxCalls : ℕ) (edmval : ℝ) : Stays P (s.descendAgain m coarse maxCalls edmval) s.Delivers := by
  have moved := delivers.moved.trans coarse.stateMoved
  refine .bind (.expect (descentSeedStays inside m .high .off moved.dimension)) fun seed begun => ?_
  refine (descendStays inside m begun.1 .high maxCalls edmval).weaken fun min reports => ?_
  exact reports.delivers (begun.2.symm ▸ moved)

theorem descendTwiceStays (m : GradientMethod ℝ) {seed : Seed ℝ} (known : s.Tells seed.knowledge)
    (moved : s.space.Moved seed.space) (st : Strategy ℝ) (maxCalls : ℕ) (edmval : ℝ) :
    Stays P (s.descendTwice m seed st maxCalls edmval) s.Delivers := by
  refine .bind (descendStays inside m known st maxCalls edmval) fun first reports => ?_
  refine .ite (fun _ => .pure (reports.delivers moved)) fun _ => ?_
  refine .bind (contractStays inside known maxCalls edmval) fun coarse reports => ?_
  have rough := reports.delivers moved
  refine .ite (fun _ => .pure rough) fun _ => ?_
  refine .bind (descendAgainStays inside m rough maxCalls edmval) fun second fine => .pure ?_
  split
  · exact fine
  · exact rough

end

theorem valuesTrue (f : Objective ℝ) (up : ℝ) (state : FitState ℝ) (m n : GradientMethod ℝ)
    (st again : Strategy ℝ) (check : GradientCheck) (maxCalls : ℕ) (wanted : ℝ) (t u : Trace ℝ) :
    let s : Surface ℝ := ⟨f, up, state.space⟩
    let fine := ((s.descentSeed m st check state).run t).1
    let rough := ((s.simplexSeed state).run t).1
    let descended := ((s.descend n fine again maxCalls wanted).run u).1
    let contracted := ((s.contract rough maxCalls wanted).run u).1
    let combined := ((s.descendTwice n fine again maxCalls wanted).run u).1
    (descended.Truthful f state.space ∧ descended.value ≤ fine.knowledge.value) ∧
      (contracted.Truthful f state.space ∧ contracted.value ≤ rough.knowledge.value) ∧
      combined.Truthful f state.space := by
  intro s fine rough descended contracted combined
  have inside (x : Array ℝ) (_ : x.size = s.space.dimension) := anywhereInside s x
  have same : state.space.dimension = s.space.dimension := rfl
  have fineKnown := (descentSeedStays inside m st check same).answer t
  have roughKnown := (simplexSeedStays inside same).answer t
  have fineMoved : s.space.Moved fine.space := fineKnown.2.symm ▸ .refl _
  have roughMoved : s.space.Moved rough.space := roughKnown.2.symm ▸ .refl _
  have down := (descendStays inside n fineKnown.1 again maxCalls wanted).answer u
  have narrow := (contractStays inside roughKnown.1 maxCalls wanted).answer u
  have both := (descendTwiceStays inside n fineKnown.1 fineMoved again maxCalls wanted).answer u
  exact ⟨⟨(down.delivers fineMoved).truthful, down.lower⟩,
    ⟨(narrow.delivers roughMoved).truthful, narrow.lower⟩, both.truthful⟩

end Surface
end ParamFit
