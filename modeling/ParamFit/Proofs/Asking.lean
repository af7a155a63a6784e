import ParamFit.Fit
import ParamFit.Proofs.Trace

/-! Every computation of a descent only asks: it is built of questions at external points that come
from internal coordinates. Each theorem follows the text of one definition. -/
namespace ParamFit
variable {α β : Type}

namespace Surface
section
variable [Scalar α] {s : Surface α} {P : Array α → Prop} (inside : ∀ x, P (s.space.external x))
include inside

theorem valueAsks (x : Array α) : Asks s P (s.value x) :=
  .bind (.expect _) fun _ => .value (inside x)

theorem valueWithAsks (x : Array α) (k : Nat) (v : α) : Asks s P (s.valueWith x k v) :=
  valueAsks inside _

/-! ### Gradients -/

theorem differenceCyclesAsks (st : Strategy α) (p : Point α) (k : Nat) (noise : α) (a : Axis α)
    (last : α) (cycles : Nat) : Asks s P (s.differenceCycles st p k noise a last cycles) := by
  induction cycles generalizing a last with
  | zero => exact .pure _
  | succ cycles ih =>
    refine .ite (.pure _) ?_
    refine .bind (valueWithAsks inside _ _ _) fun _ => ?_
    refine .bind (valueWithAsks inside _ _ _) fun _ => ?_
    exact .ite (.pure _) (ih _ _)

theorem differencesAsks (st : Strategy α) (p : Point α) (g : Gradient α) :
    Asks s P (s.differences st p g) :=
  .bind (.expect _) fun _ => .bind (.expect _) fun _ =>
    .bind (.tabulate (fun k => differenceCyclesAsks inside st p k _ _ _ _) _) fun _ => .pure _

theorem settleAsks (p : Point α) (k : Nat) (least : α) (r : Settling α) (d change : α)
    (round cycles : Nat) : Asks s P (s.settle p k least r d change round cycles) := by
  induction cycles generalizing r d change round with
  | zero => exact .pure _
  | succ cycles ih =>
    refine .bind (valueWithAsks inside _ _ _) fun _ => ?_
    refine .bind (valueWithAsks inside _ _ _) fun _ => ?_
    refine .ite (.pure _) (.ite (.pure _) (.ite (.pure _) ?_))
    exact ih _ _ _ _

theorem settleAxisAsks (st : Strategy α) (p : Point α) (a : Axis α) (k : Nat) :
    Asks s P (s.settleAxis st p a k) :=
  settleAsks inside _ _ _ _ _ _ _ _

theorem refinedAsks (st : Strategy α) (p : Point α) (g : Gradient α) :
    Asks s P (s.refined st p g) :=
  .bind (.expect _) fun _ =>
    .bind (.tabulate (fun k => settleAxisAsks inside st p _ k) _) fun _ => .pure _

omit inside in
theorem guessedAsks (p : Point α) : Asks s P (s.guessed p) := .bind (.expect _) fun _ => .pure _

theorem providedSlopesAsks (p : Point α) : Asks s P (s.providedSlopes p) :=
  .bind (.expect _) fun _ =>
    .tabulate (fun _ => .bind (.slope _ (inside p.x)) fun _ => .pure _) _

theorem gradientFromAsks (m : GradientMethod α) (p : Point α) (g : Gradient α) :
    Asks s P (s.gradientFrom m p g) := by
  cases m with
  | differences st => exact differencesAsks inside st p g
  | provided => exact .bind (providedSlopesAsks inside p) fun _ => .pure _
  | refined st => exact .bind (refinedAsks inside st p g) fun _ => .pure _

theorem gradientAsks (m : GradientMethod α) (p : Point α) : Asks s P (s.gradient m p) := by
  cases m with
  | differences st => exact .bind (guessedAsks p) fun _ => gradientFromAsks inside _ p _
  | provided => exact .bind (providedSlopesAsks inside p) fun _ => .pure _
  | refined st => exact .bind (guessedAsks p) fun _ => gradientFromAsks inside _ p _

/-! ### Line search -/

omit inside in
theorem refineAsks {probe : α → Eval α α} (asks : ∀ t, Asks s P (probe t))
    (c : LineSearch.Course α) (progress : LineSearch.Progress α) (t : α) (fuel : Nat) :
    Asks s P (LineSearch.refine probe c progress t fuel) := by
  induction fuel generalizing progress t with
  | zero => exact .pure _
  | succ fuel ih =>
    refine .ite (.pure _) (.bind (asks t) fun y => ?_)
    refine .ite (.ite (.pure _) (ih _ _)) (.ite (.pure _) ?_)
    exact .bind (.expect _) fun _ => ih _ _

omit inside in
theorem approachAsks {probe : α → Eval α α} (asks : ∀ t, Asks s P (probe t))
    (c : LineSearch.Course α) (progress : LineSearch.Progress α) (fuel : Nat) :
    Asks s P (LineSearch.approach probe c progress fuel) := by
  induction fuel generalizing progress with
  | zero => exact .pure _
  | succ fuel ih =>
    unfold LineSearch.approach
    cases progress.tangentTrial? c with
    | none => exact .pure _
    | some t =>
      refine .bind (asks t) fun y => .ite (.ite (.pure _) (ih _)) ?_
      exact .bind (.expect _) fun _ => refineAsks asks _ _ _ _

theorem lineSearchAsks (p : Point α) (step : Array α) (slope : α) (prec : Precision α) :
    Asks s P (s.lineSearch p step slope prec) :=
  .bind (.expect _) fun _ => .bind (valueAsks inside _) fun _ =>
    approachAsks (fun _ => valueAsks inside _) _ _ _

end
end Surface

/-! ### Second derivatives -/

namespace Hessian
section
variable [Scalar α] {h : Site α} {P : Array α → Prop} (inside : ∀ x, P (h.surface.space.external x))
include inside

theorem findRiseAsks (k : Nat) (d : α) (tries : Nat) : Asks h.surface P (findRise h k d tries) := by
  induction tries generalizing d with
  | zero => exact .pure _
  | succ tries ih =>
    refine .bind (Surface.valueWithAsks inside _ _ _) fun _ => ?_
    refine .bind (Surface.valueWithAsks inside _ _ _) fun _ => ?_
    exact .ite (.pure _) (.ite (.ite (.pure _) (ih _)) (ih _))

theorem measureAsks (k : Nat) (r : Ruler α) (d : α) (cycles : Nat) :
    Asks h.surface P (measure h k r d cycles) := by
  induction cycles generalizing r d with
  | zero => exact .pure _
  | succ cycles ih =>
    refine .bind (findRiseAsks inside k d 5) fun found => ?_
    cases found with
    | none => exact .pure _
    | some rise => exact .bind (.expect _) fun _ => .ite (.pure _) (ih _ _)

theorem measureAllAsks (limit before : Nat) (rulers : Array (Ruler α)) (ks : List Nat) :
    Asks h.surface P (measureAll h limit before rulers ks) := by
  induction ks generalizing rulers with
  | nil => exact .pure _
  | cons k rest ih =>
    refine .bind (.expect _) fun _ => .bind (measureAsks inside k _ _ _) fun _ => ?_
    exact .ite (.pure _) (.bind (.expect _) fun _ => .bind .calls fun _ => .ite (.pure _) (ih _))

theorem mixRowAsks (rulers : Array (Ruler α)) (i : Nat) (x : Array α) (m : Symmetric α)
    (js : List Nat) : Asks h.surface P (mixRow h rulers i x m js) := by
  induction js generalizing x m with
  | nil => exact .pure _
  | cons j rest ih => exact .bind (Surface.valueAsks inside _) fun _ => ih _ _

theorem mixAllAsks (rulers : Array (Ruler α)) (x : Array α) (m : Symmetric α) (is : List Nat) :
    Asks h.surface P (mixAll h rulers x m is) := by
  induction is generalizing x m with
  | nil => exact .pure _
  | cons i rest ih => exact .bind (mixRowAsks inside rulers i _ _ _) fun _ => ih _ _

theorem slopesAsks (k : Knowledge α) (g : Gradient α) : Asks h.surface P (slopes h k g) :=
  .ite (.pure _) (.ite (.pure _) (.bind (Surface.refinedAsks inside _ _ _) fun _ => .pure _))

end

theorem startGradientAsks [Scalar α] (s : Surface α) (P : Array α → Prop) (k : Knowledge α) :
    Asks s P (startGradient s k) :=
  .ite (.bind (Surface.guessedAsks _) fun _ => .pure _) (.bind (.pure _) fun _ => .pure _)

theorem matrixAsks [Spectral α] {s : Surface α} {P : Array α → Prop}
    (inside : ∀ x, P (s.space.external x)) (st : Strategy α) (k : Knowledge α)
    (limit before : Nat) : Asks s P (matrix s st k limit before) := by
  refine .bind (startGradientAsks s P k) fun start => ?_
  refine .bind (Surface.valueAsks inside _) fun value => ?_
  let aim := Scalar.sqrt s.precision.eps2 * (Scalar.abs value + s.errorDef)
  let h : Site α := ⟨s, st, k.point.x, value, aim, start⟩
  have here : ∀ x, P (h.surface.space.external x) := inside
  refine .bind (measureAllAsks here _ _ _ _) ?_
  rintro ⟨rulers, _ | failure⟩
  · exact .bind (slopesAsks here k _) fun _ => .bind (mixAllAsks here _ _ _ _) fun _ => .pure _
  · exact .pure _

end Hessian

namespace Surface

theorem secondDerivativesAsks [Spectral α] {s : Surface α} {P : Array α → Prop}
    (inside : ∀ x, P (s.space.external x)) (st : Strategy α) (k : Knowledge α) (limit : Nat) :
    Asks s P (s.secondDerivatives st k limit) := by
  refine .ite (.pure _) (.bind .calls fun _ => ?_)
  refine .bind (Hessian.matrixAsks inside _ _ _ _) fun _ => .bind .calls fun _ => ?_
  exact .bind (.expect _) fun _ => .bind (.expect _) fun _ => .pure _

/-! ### Where searches begin -/

section
variable [Scalar α] {s : Surface α} {P : Array α → Prop} (inside : ∀ x, P (s.space.external x))
include inside

omit inside in
theorem knowAsks (p : Point α) (e : ErrorMatrix α) (g : Gradient α) :
    Asks s P (know p e g) :=
  .bind (.expect _) fun _ => .bind .calls fun _ => .pure _

theorem climbDownAsks (m : GradientMethod α) (prec : Precision α) (p : Point α) (g : Gradient α)
    (tries : Nat) : Asks s P (s.climbDown m prec p g tries) := by
  induction tries generalizing p g with
  | zero => exact .pure _
  | succ tries ih =>
    unfold climbDown
    cases g.curvatures.findIdx? fun c => decide (c ≤ 0) with
    | none => exact .pure _
    | some i =>
      refine .bind (.expect _) fun _ => .bind (lineSearchAsks inside _ _ _ _) fun _ => ?_
      exact .bind (gradientFromAsks inside _ _ _) fun _ => ih _ _

theorem leaveDownwardAsks (m : GradientMethod α) (k : Knowledge α) (prec : Precision α) :
    Asks s P (s.leaveDownward m k prec) :=
  .ite (.pure _) (.bind (climbDownAsks inside _ _ _ _ _) fun _ => knowAsks _ _ _)

theorem disagreesAsks (p : Point α) (provided guessed : Gradient α) :
    Asks s P (s.disagrees p provided guessed) :=
  .bind (refinedAsks inside _ _ _) fun _ => .pure _

theorem startGradientAsks (m : GradientMethod α) (st : Strategy α) (check : GradientCheck)
    (p : Point α) : Asks s P (s.startGradient m st check p) := by
  refine .ite (gradientAsks inside _ _) (.bind (gradientAsks inside _ _) fun _ => ?_)
  exact .ite (.bind (.pure _) fun _ => .ite (gradientAsks inside _ _) (.pure _))
    (.bind (disagreesAsks inside _ _ _) fun _ => .ite (gradientAsks inside _ _) (.pure _))

theorem settleStartAsks (m : GradientMethod α) (st : Strategy α) (k : Knowledge α)
    (prec : Precision α) : Asks s P (s.settleStart m st k prec) := by
  refine .ite (.pure _) (.ite (leaveDownwardAsks inside _ _ _) ?_)
  exact .bind (leaveDownwardAsks inside _ _ _) fun _ =>
    .bind (gradientAsks inside _ _) fun _ => knowAsks _ _ _

end
end Surface

/-! ### Searches -/

section
variable [Spectral α] {s : Surface α} {P : Array α → Prop} (inside : ∀ x, P (s.space.external x))
include inside

theorem Surface.descentSeedAtAsks (m : GradientMethod α) (st : Strategy α) (check : GradientCheck)
    (state : FitState α) (p : Point α) : Asks s P (s.descentSeedAt m st check state p) := by
  refine .bind (startGradientAsks inside _ _ _ _) fun _ => .bind (knowAsks _ _ _) fun _ => ?_
  refine .bind (settleStartAsks inside _ _ _ _) fun k => ?_
  exact .ite (.bind (secondDerivativesAsks inside _ _ _) fun _ => .pure _)
    (.bind (.pure _) fun _ => .pure _)

theorem Descent.arriveAsks (m : GradientMethod α) (prec : Precision α) (k : Knowledge α)
    (best : Sample α) : Asks s P (arrive s m prec k best) := by
  refine .bind (Surface.gradientFromAsks inside _ _ _) fun _ => .bind (.expect _) fun _ => ?_
  exact .ite (.pure _) (.bind (.expect _) fun _ => .bind .calls fun _ => .pure _)

theorem Descent.roundAsks (m : GradientMethod α) (prec : Precision α) (k : Knowledge α) :
    Asks s P (round s m prec k) := by
  refine .bind (.expect _) fun _ => .ite (.pure _) ?_
  exact .bind (Surface.lineSearchAsks inside _ _ _ _) fun _ =>
    .ite (.pure _) (arriveAsks inside _ _ _ _)

theorem Descent.roundsAsks (m : GradientMethod α) (prec : Precision α) (maxCalls : Nat)
    (wanted : α) (past : List (Knowledge α)) (k : Knowledge α) (edm : α) (fuel : Nat) :
    Asks s P (rounds s m prec maxCalls wanted past k edm fuel) := by
  induction fuel generalizing past k edm with
  | zero => exact .pure _
  | succ fuel ih =>
    refine .bind (roundAsks inside m prec k) fun outcome => ?_
    cases outcome with
    | moved next => exact .bind .calls fun _ => .ite (ih _ _ _) (.pure _)
    | stuck => exact .pure _
    | stillUphill forced => exact .pure _
    | stillIndefinite forced => exact .pure _

theorem Descent.iterateAsks (m : GradientMethod α) (seed : Seed α) (maxCalls : Nat) (edmval : α) :
    Asks s P (iterate s m seed maxCalls edmval) :=
  .ite (.pure _) (.bind (roundsAsks inside _ _ _ _ _ _ _ _) fun _ =>
    .bind .calls fun _ => .pure _)

theorem Surface.descendAsks (m : GradientMethod α) (seed : Seed α) (st : Strategy α)
    (maxCalls : Nat) (edmval : α) : Asks s P (s.descend m seed st maxCalls edmval) :=
  .bind (Descent.iterateAsks inside _ _ _ _) fun _ =>
    .ite (.bind (secondDerivativesAsks inside _ _ _) fun _ => .pure _) (.pure _)

end
end ParamFit
