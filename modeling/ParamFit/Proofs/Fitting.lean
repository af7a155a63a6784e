import ParamFit.Fit
import ParamFit.Proofs.Inverse
import ParamFit.Proofs.Moving
import ParamFit.Proofs.Plain
import ParamFit.Proofs.Stay

/-! How many numbers a search knows. A point has one coordinate for each parameter that varies, a
gradient one slope, one curvature and one step, and an error matrix one row. Every computation of a
search that is given as many hands on as many, whatever the numbers are; where no error matrix was
found, nothing is said of its rows. -/
namespace ParamFit
variable {α β : Type}

/- What is known of the answer of a computation, after any trace. -/
abbrev Gives (m : Eval α β) (post : β → Prop) : Prop := Stays (fun _ => True) m post

theorem givesAny (m : Eval α β) : Gives m fun _ => True :=
  ⟨fun _ => trivial, fun _ => ⟨fun _ _ => trivial, fun _ _ => trivial⟩⟩

section
variable [Scalar α]

structure Knowledge.Sized (k : Knowledge α) (n : Nat) : Prop where
  point : k.point.x.size = n
  gradient : k.gradient.Full n
  error : k.error.inverse.size = n

/-! ### Matrices and vectors -/

theorem Point.sizeAlong {p : Point α} {step : Array α} (size : step.size = p.x.size) (t : α) :
    (p.along step t).size = p.x.size := by
  rw [along, Vector.sizeAdd, Vector.sizeScale, size, Nat.min_self]

theorem Knowledge.sizeUpdate {k : Knowledge α} {p : Point α} {n : Nat} (sized : k.Sized n)
    (size : p.x.size = n) (g : Gradient α) : (k.update p g).inverse.size = n := by
  rw [update]
  dsimp only
  split
  · exact sized.error
  · have step : (Vector.sub p.x k.point.x).size = n := by
      rw [Vector.sizeSub, size, sized.point, Nat.min_self]
    split
    · exact step
    · exact step

theorem Knowledge.sizeNewtonStep {k : Knowledge α} {n : Nat} (sized : k.Sized n) :
    k.newtonStep.size = n := by
  rw [newtonStep, Array.size_map, Symmetric.sizeMulVec, sized.gradient.slopes]

namespace Surface
variable {s : Surface α} {n : Nat}

/-! ### Gradients -/

omit [Scalar α] in
theorem replaceFull {g : Gradient α} (full : g.Full n) (axes : Array (Axis α)) :
    (Axis.replace g axes).Full n where
  slopes := (Vector.size_overlay _ _).trans full.slopes
  curvatures := (Vector.size_overlay _ _).trans full.curvatures
  steps := (Vector.size_overlay _ _).trans full.steps

theorem differencesFull (st : Strategy α) (p : Point α) {g : Gradient α} (full : g.Full n) :
    Gives (s.differences st p g) (·.Full n) :=
  .expect <| .expect <| .bindAny (givesAny _) fun axes => .pure (replaceFull full axes)

theorem refinedFull (st : Strategy α) (p : Point α) {g : Gradient α} (full : g.Full n) :
    Gives (s.refined st p g) fun h => h.1.Full n :=
  .expect <| .bindAny (givesAny _) fun _ =>
    .pure ⟨(Vector.size_overlay _ _).trans full.slopes, full.curvatures, full.steps⟩

theorem providedSize (p : Point α) :
    Gives (s.providedSlopes p) fun slopes => slopes.size = p.x.size :=
  .expect <| .tabulate (fun _ => givesAny _) _

theorem gradientFromFull (m : GradientMethod α) {p : Point α} {g : Gradient α}
    (size : p.x.size = n) (full : g.Full n) : Gives (s.gradientFrom m p g) (·.Full n) := by
  cases m with
  | differences st => exact differencesFull st p full
  | provided =>
    exact .map ((providedSize p).weaken fun _ same =>
      ⟨same.trans size, full.curvatures, full.steps⟩)
  | refined st => exact .map (refinedFull st p full)

theorem guessedFull (p : Point α) : Gives (s.guessed p) (·.Full s.space.dimension) :=
  .expect (.pure (s.guessFull p))

theorem gradientFull (m : GradientMethod α) {p : Point α} (size : p.x.size = s.space.dimension) :
    Gives (s.gradient m p) (·.Full s.space.dimension) := by
  cases m with
  | differences st => exact .bind (guessedFull p) fun _ full => gradientFromFull _ size full
  | provided =>
    refine .map ((providedSize p).weaken fun slopes same => ?_)
    have whole := same.trans size
    exact ⟨whole, Array.size_replicate.trans whole, Array.size_replicate.trans whole⟩
  | refined st => exact .bind (guessedFull p) fun _ full => gradientFromFull _ size full

/-! ### Where searches begin -/

theorem startPointSize {state : FitState α} (same : state.space.dimension = s.space.dimension) :
    Gives (s.startPoint state) fun p => p.x.size = s.space.dimension :=
  .bindAny (givesAny _) fun _ => .pure (state.space.sizeInternal.trans same)

theorem knowSized {p : Point α} (size : p.x.size = n) {e : ErrorMatrix α}
    (rows : e.inverse.size = n) {g : Gradient α} (full : g.Full n) :
    Gives (know p e g) (·.Sized n) :=
  .expect (.counting fun _ => .pure ⟨size, full, rows⟩)

theorem sizeDiagonalError {g : Gradient α} (full : g.Full n) (prec : Precision α) :
    (diagonalError g prec).inverse.size = n :=
  (Array.size_map ..).trans full.curvatures

theorem climbDownSized (m : GradientMethod α) (prec : Precision α) {p : Point α} {g : Gradient α}
    (size : p.x.size = n) (full : g.Full n) (tries : Nat) :
    Gives (s.climbDown m prec p g tries) fun r => r.1.x.size = n ∧ r.2.Full n := by
  induction tries generalizing p g with
  | zero => exact .pure ⟨size, full⟩
  | succ tries ih =>
    unfold climbDown
    cases g.curvatures.findIdx? fun c => decide (c ≤ 0) with
    | none => exact .pure ⟨size, full⟩
    | some i =>
      have step : (downhill g i p.x.size prec).size = p.x.size := by
        rw [downhill, Array.size_setIfInBounds, Array.size_replicate]
      refine .expect (.bindAny (givesAny _) fun best => ?_)
      have next : (p.along (downhill g i p.x.size prec) best.x).size = n :=
        (Point.sizeAlong step best.x).trans size
      exact .bind (gradientFromFull m next full) fun g' full => ih next full

theorem leaveDownwardSized (m : GradientMethod α) {k : Knowledge α} (sized : k.Sized n)
    (prec : Precision α) : Gives (s.leaveDownward m k prec) (·.Sized n) := by
  refine .ite (fun _ => .pure sized) fun _ => ?_
  refine .bind (climbDownSized m prec sized.point sized.gradient _) fun r ⟨size, full⟩ => ?_
  exact knowSized size (sizeDiagonalError full prec) full

theorem startGradientFull (m : GradientMethod α) (st : Strategy α) (check : GradientCheck)
    {p : Point α} (size : p.x.size = s.space.dimension) :
    Gives (s.startGradient m st check p) (·.Full s.space.dimension) := by
  refine .ite (fun _ => gradientFull m size) fun _ => ?_
  refine .bind (gradientFull m size) fun g full => ?_
  have ends (wrong : Bool) : Gives (if wrong && check == .reject then s.gradient (.differences st) p
      else pure (Gradient.supplied g.slopes (s.guess p).curvatures (s.guess p).steps))
      (·.Full s.space.dimension) :=
    .ite (fun _ => gradientFull _ size) fun _ =>
      .pure ⟨full.slopes, (s.guessFull p).curvatures, (s.guessFull p).steps⟩
  exact .ite (fun _ => .bindAny (givesAny _) ends) fun _ => .bindAny (givesAny _) ends

theorem sizeStartError {state : FitState α} (same : state.space.dimension = n) {g : Gradient α}
    (full : g.Full n) : (startError state g).inverse.size = n := by
  rw [startError]
  split
  case isTrue fits => exact fits.2.trans same
  case isFalse => exact sizeDiagonalError full _

theorem settleStartSized (m : GradientMethod α) (st : Strategy α) {k : Knowledge α}
    (sized : k.Sized s.space.dimension) (prec : Precision α) :
    Gives (s.settleStart m st k prec) (·.Sized s.space.dimension) := by
  refine .ite (fun _ => .pure sized) fun _ => .ite (fun _ => leaveDownwardSized m sized prec) fun _ => ?_
  refine .bind (leaveDownwardSized _ sized prec) fun k sized => ?_
  refine .bind (gradientFull m sized.point) fun g full => ?_
  exact knowSized sized.point sized.error ⟨full.slopes, sized.gradient.curvatures, sized.gradient.steps⟩

end Surface
end

/-! ### Second derivatives -/

namespace Hessian

section
variable [Scalar α] {h : Site α} {n : Nat}

theorem measureAllSize (limit before : Nat) (rulers : Array (Ruler α)) (ks : List Nat) :
    Gives (measureAll h limit before rulers ks) fun found => found.1.size = rulers.size := by
  induction ks generalizing rulers with
  | nil => exact .pure rfl
  | cons k rest ih =>
    refine .expect (.bindAny (givesAny _) fun ⟨r, found⟩ => ?_)
    have size : (rulers.setIfInBounds k r).size = rulers.size := Array.size_setIfInBounds
    refine .ite (fun _ => .pure size) fun _ => .expect (.counting fun _ => ?_)
    exact .ite (fun _ => .pure size) fun _ => (ih _).weaken fun _ same => same.trans size

theorem mixRowSize (rulers : Array (Ruler α)) (i : Nat) (x : Array α) (m : Symmetric α)
    (js : List Nat) : Gives (mixRow h rulers i x m js) fun found => found.2.size = m.size := by
  induction js generalizing x m with
  | nil => exact .pure rfl
  | cons j rest ih => exact .bindAny (givesAny _) fun _ => ih _ _

theorem mixAllSize (rulers : Array (Ruler α)) (x : Array α) (m : Symmetric α) (is : List Nat) :
    Gives (mixAll h rulers x m is) fun found => found.size = m.size := by
  induction is generalizing x m with
  | nil => exact .pure rfl
  | cons i rest ih =>
    refine .bind (mixRowSize rulers i _ m _) fun row size => ?_
    exact (ih _ _).weaken fun _ same => same.trans size

theorem slopesFull {k : Knowledge α} (sized : k.Sized n) {g : Gradient α} (full : g.Full n) :
    Gives (Hessian.slopes h k g) (·.Full n) := by
  refine .ite (fun _ => .pure ⟨sized.gradient.slopes, full.curvatures, full.steps⟩) fun _ => ?_
  refine .ite (fun _ => .pure full) fun _ => .map ?_
  exact (Surface.refinedFull h.strategy k.point full).weaken fun _ refined =>
    ⟨refined.slopes, full.curvatures, full.steps⟩

theorem startGradientFull (s : Surface α) {k : Knowledge α} (sized : k.Sized s.space.dimension) :
    Gives (startGradient s k) (·.Full s.space.dimension) := by
  have kept : Gives (pure k.gradient : Eval α _) (·.Full s.space.dimension) := .pure sized.gradient
  unfold startGradient
  split
  · exact .bind (s.guessedFull k.point) fun g full =>
      .pure ⟨sized.gradient.slopes, full.curvatures, full.steps⟩
  · exact .bind kept fun g full => .pure ⟨sized.gradient.slopes, full.curvatures, full.steps⟩

omit [Scalar α] in
theorem gradientOfFull (full : h.start.Full n) (rulers : Array (Ruler α)) :
    (gradientOf h rulers).Full n :=
  ⟨(Vector.size_overlay _ _).trans full.slopes, (Vector.size_overlay _ _).trans full.curvatures,
    (Vector.size_overlay _ _).trans full.steps⟩

end

section
variable [Spectral α]

/- What the differences make of a point: a matrix, or as many curvatures as were found. -/
def Found (n : Nat) : Except (HessianFailure × Array α) (Symmetric α × Gradient α) → Prop
  | .ok (m, g) => m.size = n ∧ g.Full n
  | .error (_, curvatures) => curvatures.size = n

theorem matrixFound {s : Surface α} (st : Strategy α) {k : Knowledge α}
    (sized : k.Sized s.space.dimension) (limit before : Nat) :
    Gives (matrix s st k limit before) (Found s.space.dimension) := by
  refine .bind (startGradientFull s sized) fun start full => .bindAny (givesAny _) fun value => ?_
  refine .bind (measureAllSize _ _ _ _) fun ⟨rulers, failure⟩ size => ?_
  have many : rulers.size = s.space.dimension :=
    size.trans ((size_tabulate _ _).trans sized.point)
  cases failure with
  | some f => exact .pure (gradientOfFull full rulers).curvatures
  | none =>
    refine .bind (slopesFull sized (gradientOfFull full rulers)) fun g whole => ?_
    refine .bind (mixAllSize rulers _ _ _) fun m same => .pure ⟨?_, whole⟩
    exact same.trans ((Array.size_map ..).trans many)

end
end Hessian

section
variable [Spectral α]

theorem ErrorMatrix.sizeMakePosDef (e : ErrorMatrix α) (prec : Precision α) :
    (e.makePosDef prec).inverse.size = e.inverse.size := by
  rw [makePosDef]
  dsimp only
  split
  · split <;> rfl
  · split
    · split <;> rfl
    · rfl

theorem Knowledge.makePosDefSized {k : Knowledge α} {n : Nat} (sized : k.Sized n)
    (prec : Precision α) : (k.makePosDef prec).Sized n :=
  ⟨sized.point, sized.gradient, (ErrorMatrix.sizeMakePosDef _ _).trans sized.error⟩

theorem Hessian.concludeSized {k : Knowledge α} {n : Nat} (sized : k.Sized n) (prec : Precision α)
    (calls : Nat) {found : Except (HessianFailure × Array α) (Symmetric α × Gradient α)}
    (holds : Found n found) : (conclude k prec calls found).Sized n := by
  have failed {curvatures : Array α} (size : curvatures.size = n) :
      (conclude.failed k prec calls curvatures).Sized n :=
    ⟨sized.point, sized.gradient, (Array.size_map ..).trans size⟩
  cases found with
  | error failure => exact failed holds
  | ok found =>
    obtain ⟨m, g⟩ := found
    obtain ⟨rows, full⟩ := holds
    unfold conclude
    dsimp only
    split
    case h_1 => exact failed full.curvatures
    case h_2 inverse inverted =>
      have size : inverse.size = n :=
        (Symmetric.sizeInvert inverted).trans ((ErrorMatrix.sizeMakePosDef _ _).trans rows)
      split
      · exact ⟨sized.point, full, size⟩
      · exact ⟨sized.point, full, size⟩

theorem Hessian.concludePoint (k : Knowledge α) (prec : Precision α) (calls : Nat)
    (found : Except (HessianFailure × Array α) (Symmetric α × Gradient α)) :
    (conclude k prec calls found).point = k.point := by
  cases found with
  | error failure => rfl
  | ok found =>
    unfold conclude
    dsimp only
    split
    · rfl
    · split <;> rfl

namespace Surface
variable {s : Surface α}

theorem secondDerivativesSized (st : Strategy α) {k : Knowledge α}
    (sized : k.Sized s.space.dimension) (limit : Nat) :
    Gives (s.secondDerivatives st k limit) (·.Sized s.space.dimension) := by
  refine .ite (fun _ => .pure sized) fun _ => .counting fun before => ?_
  refine .bind (Hessian.matrixFound st sized _ _) fun found holds => .counting fun calls => ?_
  exact .expect (.expect (.pure (Hessian.concludeSized sized _ _ holds)))

/- The point at which second derivatives are found is kept. -/
theorem secondDerivativesPoint (st : Strategy α) (k : Knowledge α) (limit : Nat) :
    Gives (s.secondDerivatives st k limit) fun next => next.point = k.point := by
  refine .ite (fun _ => .pure rfl) fun _ => .counting fun before => ?_
  refine .bindAny (givesAny _) fun found => .counting fun calls => ?_
  exact .expect (.expect (.pure (Hessian.concludePoint ..)))

theorem descentSeedSized (m : GradientMethod α) (st : Strategy α) (check : GradientCheck)
    {state : FitState α} (same : state.space.dimension = s.space.dimension) :
    Gives (s.descentSeed m st check state) fun seed =>
      seed.knowledge.Sized s.space.dimension ∧ seed.space = state.space := by
  refine .bind (startPointSize same) fun p size => ?_
  refine .bind (startGradientFull m st check size) fun g full => ?_
  refine .bind (knowSized size (sizeStartError same full) full) fun k sized => ?_
  refine .bind (settleStartSized m st sized _) fun k sized => ?_
  refine .ite (fun _ => ?_) fun _ => .bind (.pure sized) fun k sized => .pure ⟨sized, rfl⟩
  exact .bind (secondDerivativesSized st sized 0) fun k sized => .pure ⟨sized, rfl⟩

theorem simplexSeedSized {state : FitState α} (same : state.space.dimension = s.space.dimension) :
    Gives (s.simplexSeed state) fun seed =>
      seed.knowledge.Sized s.space.dimension ∧ seed.space = state.space := by
  refine .bind (startPointSize same) fun p size => ?_
  have full := s.guessFull p
  exact .bind (knowSized size (sizeDiagonalError full _) full) fun k sized => .pure ⟨sized, rfl⟩

theorem seedSized (a : Algorithm) (m : GradientMethod α) (st : Strategy α) (check : GradientCheck)
    {state : FitState α} (same : state.space.dimension = s.space.dimension) :
    Gives (s.seed a m st check state) fun seed =>
      seed.knowledge.Sized s.space.dimension ∧ seed.space = state.space :=
  .ite (fun _ => descentSeedSized m st check same) fun _ => simplexSeedSized same

end Surface

/-! ### Rounds -/

namespace Descent
variable {s : Surface α} {n : Nat}

theorem alignedSized {k : Knowledge α} (sized : k.Sized n) (prec : Precision α) :
    (aligned prec k).Sized n := by
  rw [aligned]
  split
  · exact k.makePosDefSized sized prec
  · exact sized

theorem promisingSized {k : Knowledge α} (sized : k.Sized n) (prec : Precision α) (g : Gradient α) :
    (promising prec g k).Sized n := by
  rw [promising]
  split
  · exact k.makePosDefSized sized prec
  · exact sized

def Outcome.Sized (n : Nat) : Outcome α → Prop
  | .moved k | .stillUphill k | .stillIndefinite k => k.Sized n
  | .stuck => True

theorem arriveSized (m : GradientMethod α) (prec : Precision α) {k : Knowledge α} (sized : k.Sized n)
    (best : Sample α) : Gives (arrive s m prec k best) (Outcome.Sized n) := by
  have point : (k.point.along k.newtonStep best.x).size = n :=
    (Point.sizeAlong (k.sizeNewtonStep sized |>.trans sized.point.symm) _).trans sized.point
  refine .bind (Surface.gradientFromFull m point sized.gradient) fun g full => .expect ?_
  have repaired := promisingSized sized prec g
  refine .ite (fun _ => .pure repaired) fun _ => .expect (.counting fun _ => .pure ?_)
  exact ⟨point, full, (promising prec g k).sizeUpdate repaired point g⟩

theorem roundSized (m : GradientMethod α) (prec : Precision α) {k : Knowledge α} (sized : k.Sized n) :
    Gives (round s m prec k) (Outcome.Sized n) := by
  have repaired := alignedSized sized prec
  refine .expect (.ite (fun _ => .pure repaired) fun _ => .bindAny (givesAny _) fun best => ?_)
  exact .ite (fun _ => .pure trivial) fun _ => arriveSized m prec repaired best

theorem roundsSized (m : GradientMethod α) (prec : Precision α) (maxCalls : Nat) (wanted : α)
    {past : List (Knowledge α)} (before : ∀ k ∈ past, k.Sized n) {k : Knowledge α}
    (sized : k.Sized n) (edm : α) (fuel : Nat) :
    Gives (rounds s m prec maxCalls wanted past k edm fuel) fun found =>
      ∀ k ∈ found.1, k.Sized n := by
  induction fuel generalizing past k edm with
  | zero => exact .pure (List.forall_mem_cons.mpr ⟨sized, before⟩)
  | succ fuel ih =>
    have here : ∀ l ∈ k :: past, l.Sized n := List.forall_mem_cons.mpr ⟨sized, before⟩
    refine .bind (roundSized m prec sized) fun outcome next => ?_
    cases outcome with
    | stillUphill forced => exact .pure (List.forall_mem_cons.mpr ⟨next, here⟩)
    | stillIndefinite forced => exact .pure (List.forall_mem_cons.mpr ⟨next, here⟩)
    | stuck => exact .pure here
    | moved moved =>
      refine .counting fun calls => .ite (fun _ => ih here next _) fun _ => .pure ?_
      exact List.forall_mem_cons.mpr ⟨next, here⟩

end Descent

/-! ### Whole searches -/

/- A result in a space that at most moved, all of whose states satisfy something. -/
structure Minimum.Holds (min : Minimum α) (space : Space α) (fits : Knowledge α → Prop) : Prop where
  moved : space.Moved min.seed.space
  states : ∀ k ∈ min.history, fits k

namespace Minimum
variable {space : Space α} {seed : Seed α} {fits : Knowledge α → Prop}

theorem ofSeedHolds (moved : space.Moved seed.space) (first : fits seed.knowledge) (up : α) :
    (ofSeed seed up).Holds space fits :=
  ⟨moved, fun k among => by
    rw [history, ofSeed, List.nil_append, List.mem_singleton] at among
    exact among ▸ first⟩

theorem ofHistoryHolds (moved : space.Moved seed.space) (first : fits seed.knowledge)
    {states : List (Knowledge α)} (all : ∀ k ∈ states, fits k) (up : α) :
    (ofHistory seed states up).Holds space fits := by
  rw [ofHistory]
  cases found : states.getLast? with
  | none => exact ofSeedHolds moved first up
  | some last =>
    refine ⟨moved, fun k among => all k ?_⟩
    rw [history, List.dropLast_append_getLast? last found] at among
    exact among

namespace Holds
variable {min : Minimum α} (holds : min.Holds space fits)
include holds

/- Flags say nothing of the states. -/
theorem flagged (high limit : Bool) :
    { min with aboveMaxEdm := high, callLimit := limit }.Holds space fits :=
  ⟨holds.moved, holds.states⟩

theorem last : fits min.last :=
  holds.states _ (List.mem_append_right _ (List.mem_singleton_self _))

theorem add {k : Knowledge α} (next : fits k) : (min.add k).Holds space fits := by
  refine ⟨holds.moved, fun l among => ?_⟩
  rw [history, Minimum.add, List.mem_append, List.mem_singleton] at among
  rcases among with earlier | rfl
  · exact holds.states l earlier
  · exact next

theorem weaken {more : Knowledge α → Prop} (implies : ∀ k, fits k → more k) :
    min.Holds space more :=
  ⟨holds.moved, fun k among => implies k (holds.states k among)⟩

theorem trans {before : Space α} (moved : before.Moved space) : min.Holds before fits :=
  ⟨moved.trans holds.moved, holds.states⟩

end Holds
end Minimum

namespace Descent
variable {s : Surface α} {space : Space α} {seed : Seed α} {fits : Knowledge α → Prop}

theorem judgeHolds (moved : space.Moved seed.space) (first : fits seed.knowledge)
    {states : List (Knowledge α)} (all : ∀ k ∈ states, fits k) (up : α)
    (prec : Precision α) (wanted edm : α) (ending : Ending) (outOfCalls : Bool) :
    (judge seed up prec wanted states edm ending outOfCalls).Holds space fits := by
  have plain := Minimum.ofHistoryHolds moved first all up
  unfold judge
  dsimp only
  split
  · exact plain
  · split
    · exact plain.flagged _ _
    · split
      · split
        · exact plain
        · split
          · exact plain
          · exact plain.flagged _ _
      · exact plain

theorem iterateSized {n : Nat} (moved : space.Moved seed.space) (sized : seed.knowledge.Sized n)
    (m : GradientMethod α) (maxCalls : Nat) (edmval : α) :
    Gives (iterate s m seed maxCalls edmval) (·.Holds space (·.Sized n)) := by
  refine .ite (fun _ => .pure (Minimum.ofSeedHolds moved sized _)) fun _ => ?_
  refine .bind (roundsSized m _ _ _ (List.forall_mem_nil _) sized _ _) fun ⟨past, edm, ending⟩ all => ?_
  refine .counting fun calls => .pure (judgeHolds moved sized (fun k among => all k ?_) _ _ _ _ _ _)
  exact List.mem_reverse.mp among

end Descent

namespace Surface
variable {s : Surface α}

/- A state with an error matrix that can be used has a row for every parameter that varies. -/
def Fits (s : Surface α) (k : Knowledge α) : Prop := k.error.isValid → k.Sized s.space.dimension

omit [Spectral α] in
theorem sizedFits (k : Knowledge α) (sized : k.Sized s.space.dimension) : s.Fits k := fun _ => sized

theorem ofPointFits (p : Point α) (edm : α) (calls : Nat) : s.Fits (.ofPoint p edm calls) :=
  fun valid => absurd valid (by simp [Knowledge.ofPoint, ErrorMatrix.missing, ErrorMatrix.standIn, ErrorMatrix.isValid])

theorem descendSized {seed : Seed α} {space : Space α} (moved : space.Moved seed.space)
    (sized : seed.knowledge.Sized s.space.dimension) (m : GradientMethod α) (st : Strategy α)
    (maxCalls : Nat) (edmval : α) :
    Gives (s.descend m seed st maxCalls edmval) (·.Holds space (·.Sized s.space.dimension)) := by
  refine .bind (Descent.iterateSized moved sized m maxCalls edmval) fun min holds => ?_
  refine .ite (fun _ => ?_) fun _ => .pure holds
  exact .bind (secondDerivativesSized st holds.last 0) fun k next => .pure (holds.add next)

theorem contractFits {seed : Seed α} {space : Space α} (moved : space.Moved seed.space)
    (sized : seed.knowledge.Sized s.space.dimension) (maxCalls : Nat) (wanted : α) :
    Gives (s.contract seed maxCalls wanted) (·.Holds space s.Fits) := by
  refine .ite (fun _ => .pure (Minimum.ofSeedHolds moved (sizedFits _ sized) _)) fun _ => ?_
  refine .expect (.bindAny (givesAny _) fun simplex => .bindAny (givesAny _) fun simplex => ?_)
  refine .bindAny (givesAny _) fun ⟨simplex, best⟩ => .counting fun calls => ?_
  have plain (p : Point α) (edm : α) (calls : Nat) :
      (Minimum.ofHistory seed [.ofPoint p edm calls] s.errorDef).Holds space s.Fits :=
    Minimum.ofHistoryHolds moved (sizedFits _ sized)
      (List.forall_mem_singleton.mpr (ofPointFits p edm calls)) _
  refine .pure ?_
  split
  · exact (plain _ _ _).flagged _ _
  · split
    · exact (plain _ _ _).flagged _ _
    · exact plain _ _ _

theorem scanAxesFits {seed : Seed α} {space : Space α} (moved : space.Moved seed.space)
    (sized : seed.knowledge.Sized s.space.dimension) :
    Gives (s.scanAxes seed) (·.Holds space s.Fits) := by
  refine .expect (.bindAny (givesAny _) fun ⟨x, best⟩ => .counting fun calls => .pure ?_)
  exact Minimum.ofHistoryHolds moved (sizedFits _ sized)
    (List.forall_mem_singleton.mpr (ofPointFits _ _ _)) _

theorem descendAgainSized {coarse : Minimum α} (moved : s.space.Moved coarse.seed.space)
    (m : GradientMethod α) (maxCalls : Nat) (edmval : α) :
    Gives (s.descendAgain m coarse maxCalls edmval) (·.Holds s.space (·.Sized s.space.dimension)) := by
  have again := moved.trans coarse.stateMoved
  refine .bind (.expect (descentSeedSized m .high .off again.dimension)) fun seed ⟨sized, same⟩ => ?_
  exact descendSized (same ▸ again) sized m .high maxCalls edmval

theorem descendTwiceFits {seed : Seed α} (moved : s.space.Moved seed.space)
    (sized : seed.knowledge.Sized s.space.dimension) (m : GradientMethod α) (st : Strategy α)
    (maxCalls : Nat) (edmval : α) :
    Gives (s.descendTwice m seed st maxCalls edmval) (·.Holds s.space s.Fits) := by
  refine .bind (descendSized moved sized m st maxCalls edmval) fun first holds => ?_
  refine .ite (fun _ => .pure (holds.weaken sizedFits)) fun _ => ?_
  refine .bind (contractFits moved sized maxCalls edmval) fun coarse rough => ?_
  refine .ite (fun _ => .pure rough) fun _ => ?_
  refine .bind (descendAgainSized rough.moved m maxCalls edmval) fun second fine => .pure ?_
  split
  · exact fine.weaken sizedFits
  · exact rough

theorem searchFits (a : Algorithm) {seed : Seed α} (moved : s.space.Moved seed.space)
    (sized : seed.knowledge.Sized s.space.dimension) (m : GradientMethod α) (st : Strategy α)
    (maxCalls : Nat) (edmval : α) :
    Gives (s.search a m seed st maxCalls edmval) (·.Holds s.space s.Fits) := by
  cases a with
  | descent =>
    exact (descendSized moved sized m st maxCalls edmval).weaken fun _ holds => holds.weaken sizedFits
  | simplex => exact contractFits moved sized maxCalls edmval
  | combined => exact descendTwiceFits moved sized m st maxCalls edmval
  | scan => exact scanAxesFits moved sized

end Surface

theorem Fit.searchFromFits (f : Fit α) (maxCalls : Nat) (tolerance : α) :
    Gives (f.searchFrom maxCalls tolerance) (·.Holds f.state.space f.surface.Fits) := by
  refine .bind (Surface.seedSized (s := f.surface) f.algorithm _ _ _ rfl) fun seed ⟨sized, same⟩ => ?_
  have moved : f.state.space.Moved seed.space := same ▸ .refl _
  refine .counting fun calls => .ite (fun _ => .pure ?_) fun _ => ?_
  · exact (Minimum.ofSeedHolds moved (Surface.sizedFits (s := f.surface) _ sized) _).flagged _ _
  · exact Surface.searchFits (s := f.surface) f.algorithm moved sized _ _ _ _

end
end ParamFit
