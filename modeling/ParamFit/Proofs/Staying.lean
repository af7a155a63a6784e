import ParamFit.Proofs.Fitting
import ParamFit.Proofs.Line

/-! What a search knows is true. A point and its value travel apart, through the best multiple of a
step, repaired copies and the vertices of a simplex; they are put together again only where they belong
together. The same way shows that every point a search asks has all coordinates: no computation asks
elsewhere, if it is given points and slopes of full length. Each theorem follows the text of one
definition. -/
namespace ParamFit

namespace Surface

/- A point with all its coordinates and the value that it has. -/
structure Knows (s : Surface ℝ) (p : Point ℝ) : Prop where
  size : p.x.size = s.space.dimension
  value : p.value = s.worth p.x

/- Where the slopes are as many as the coordinates, a step is as long as the point. -/
structure Tells (s : Surface ℝ) (k : Knowledge ℝ) : Prop where
  point : s.Knows k.point
  slopes : k.gradient.slopes.size = s.space.dimension

section
variable {s : Surface ℝ} {P : Array ℝ → Prop}
  (inside : ∀ x : Array ℝ, x.size = s.space.dimension → P (s.space.external x))
include inside

theorem valueWithStays {x : Array ℝ} (size : x.size = s.space.dimension) (k : ℕ) (v : ℝ) :
    Stays P (s.valueWith x k v) fun _ => True :=
  (valueStays (inside _ (by rw [Array.size_setIfInBounds, size]))).weaken fun _ _ => trivial

/-! ### Gradients -/

theorem differenceCyclesStays {p : Point ℝ} (size : p.x.size = s.space.dimension) (st : Strategy ℝ)
    (k : ℕ) (noise : ℝ) (a : Axis ℝ) (last : ℝ) (cycles : ℕ) :
    Stays P (s.differenceCycles st p k noise a last cycles) fun _ => True := by
  induction cycles generalizing a last with
  | zero => exact .pure trivial
  | succ cycles ih =>
    refine .ite (fun _ => .pure trivial) fun _ => ?_
    refine .bind (valueWithStays inside size _ _) fun _ _ => ?_
    refine .bind (valueWithStays inside size _ _) fun _ _ => ?_
    exact .ite (fun _ => .pure trivial) fun _ => ih _ _

theorem differencesStays {p : Point ℝ} (size : p.x.size = s.space.dimension) (st : Strategy ℝ)
    (g : Gradient ℝ) :
    Stays P (s.differences st p g) fun h => h.slopes.size = g.slopes.size :=
  .expect <| .expect <|
    .bind (.tabulate (fun k => differenceCyclesStays inside size st k _ _ _ _) _) fun _ _ =>
      .pure (Vector.size_overlay _ _)

theorem settleStays {p : Point ℝ} (size : p.x.size = s.space.dimension) (k : ℕ) (least : ℝ)
    (r : Settling ℝ) (d change : ℝ) (round cycles : ℕ) :
    Stays P (s.settle p k least r d change round cycles) fun _ => True := by
  induction cycles generalizing r d change round with
  | zero => exact .pure trivial
  | succ cycles ih =>
    refine .bind (valueWithStays inside size _ _) fun _ _ => ?_
    refine .bind (valueWithStays inside size _ _) fun _ _ => ?_
    refine .ite (fun _ => .pure trivial) fun _ => .ite (fun _ => .pure trivial) fun _ => ?_
    exact .ite (fun _ => .pure trivial) fun _ => ih _ _ _ _

theorem refinedStays {p : Point ℝ} (size : p.x.size = s.space.dimension) (st : Strategy ℝ)
    (g : Gradient ℝ) :
    Stays P (s.refined st p g) fun h => h.1.slopes.size = g.slopes.size :=
  .expect <|
    .bind (.tabulate (fun k => settleStays inside size k _ _ _ _ _ _) _) fun _ _ =>
      .pure (Vector.size_overlay _ _)

omit inside in
theorem guessSize (s : Surface ℝ) (p : Point ℝ) : (s.guess p).slopes.size = s.space.dimension := by
  simp [guess, Axis.toGradient, Gradient.numerical]

omit inside in
theorem guessedStays (p : Point ℝ) :
    Stays P (s.guessed p) fun g => g.slopes.size = s.space.dimension :=
  .expect (.pure (guessSize s p))

theorem providedSlopesStays {p : Point ℝ} (size : p.x.size = s.space.dimension) :
    Stays P (s.providedSlopes p) fun slopes => slopes.size = s.space.dimension := by
  rw [← size]
  exact .expect <| .tabulate
    (fun _ => .bind (externalSlopeStays _ (inside _ size)) fun _ _ => .pure trivial) _

theorem gradientFromStays (m : GradientMethod ℝ) {p : Point ℝ} {g : Gradient ℝ}
    (size : p.x.size = s.space.dimension) (slopes : g.slopes.size = s.space.dimension) :
    Stays P (s.gradientFrom m p g) fun h => h.slopes.size = s.space.dimension := by
  cases m with
  | differences st => exact (differencesStays inside size st g).weaken fun _ same => same.trans slopes
  | provided => exact .map (providedSlopesStays inside size)
  | refined st => exact .map ((refinedStays inside size st g).weaken fun _ same => same.trans slopes)

theorem gradientStays (m : GradientMethod ℝ) {p : Point ℝ} (size : p.x.size = s.space.dimension) :
    Stays P (s.gradient m p) fun g => g.slopes.size = s.space.dimension := by
  cases m with
  | differences st => exact .bind (guessedStays p) fun _ known => gradientFromStays inside _ size known
  | provided => exact .map (providedSlopesStays inside size)
  | refined st => exact .bind (guessedStays p) fun _ known => gradientFromStays inside _ size known

end

/-! ### Line search -/

/- The best sample of a search has its own value, and none above the one that the search began with. -/
structure Best (f : ℝ → ℝ) (top : ℝ) (p : Sample ℝ) : Prop where
  value : p.y = f p.x
  lower : p.y ≤ top

section
open LineSearch LineSearch.Progress
variable {P : Array ℝ → Prop} {probe : ℝ → Eval ℝ ℝ} {f : ℝ → ℝ} {top : ℝ}
  (probes : ∀ t, Stays P (probe t) fun y => y = f t)

theorem bestLower {s : Progress ℝ} {p : Sample ℝ} (best : Best f top s.best) (value : p.y = f p.x)
    (lower : p.y < s.best.y) : Best f top p := ⟨value, lower.le.trans best.lower⟩

theorem bestNoted {s : Progress ℝ} {p : Sample ℝ} (best : Best f top s.best) (value : p.y = f p.x) :
    Best f top (s.note p).best := by
  rw [note]
  split
  case isTrue lower => exact bestLower best value lower
  case isFalse => exact best

theorem bestAccepted {s : Progress ℝ} {p : Sample ℝ} (best : Best f top s.best)
    (value : p.y = f p.x) : Best f top (s.accept p).best := by
  have kept : Best f top (s.exchange p).best := by rwa [bestExchange]
  rw [accept]
  dsimp only
  split
  case isTrue lower => exact bestLower kept value lower
  case isFalse => exact kept

include probes

theorem refineStays (c : Course ℝ) {s : Progress ℝ} (best : Best f top s.best) (t : ℝ) (fuel : ℕ) :
    Stays P (refine probe c s t fuel) (Best f top) := by
  induction fuel generalizing s t with
  | zero => exact .pure best
  | succ fuel ih =>
    refine .ite (fun _ => .pure best) fun _ => .bind (probes t) fun y value => ?_
    have kept : Best f top (s.retreat t).1.best := best
    have accepted : Best f top (s.accept ⟨t, y⟩).best := bestAccepted best value
    have widened : Best f top (s.accept ⟨t, y⟩).widen.best := accepted
    refine .ite (fun _ => .ite (fun _ => .pure kept) fun _ => ih kept _) fun _ => ?_
    exact .ite (fun _ => .pure accepted) fun _ => .expect (ih widened _)

theorem approachStays (c : Course ℝ) {s : Progress ℝ} (best : Best f top s.best) (fuel : ℕ) :
    Stays P (approach probe c s fuel) (Best f top) := by
  induction fuel generalizing s with
  | zero => exact .pure best
  | succ fuel ih =>
    unfold approach
    cases s.tangentTrial? c with
    | none => exact .pure best
    | some t =>
      refine .bind (probes t) fun y value => ?_
      have noted : Best f top (s.afterTangent ⟨t, y⟩).best := bestNoted best value
      have closer : Best f top (s.afterTangent ⟨t, y⟩).closer.best := noted
      have widened : Best f top (s.afterTangent ⟨t, y⟩).widen.best := noted
      refine .ite (fun _ => .ite (fun _ => .pure closer) fun _ => ih closer) fun _ => ?_
      exact .expect (refineStays probes c widened _ _)

theorem runStays {c : Course ℝ} (start : f 0 = c.start) :
    Stays P (run probe c) (Best f c.start) := by
  refine .bind (probes 1) fun y value => approachStays probes c ?_ _
  rw [begin]
  dsimp only
  split
  case isTrue lower => exact ⟨value, le_of_lt lower⟩
  case isFalse => exact ⟨start.symm, le_refl _⟩

end

theorem alongZero {p : Point ℝ} {step : Array ℝ} (size : step.size = p.x.size) :
    p.along step 0 = p.x := by
  refine Vector.sameEntries (Point.sizeAlong size 0) fun i inside => ?_
  rw [Point.sizeAlong size] at inside
  rw [Point.along, Vector.entryAdd inside (by rwa [Vector.sizeScale, size]), Vector.scale,
    Vector.entryMap _ (by rwa [size])]
  simp

section
variable {s : Surface ℝ} {P : Array ℝ → Prop}
  (inside : ∀ x : Array ℝ, x.size = s.space.dimension → P (s.space.external x))
include inside

theorem lineSearchStays {p : Point ℝ} (known : s.Knows p) {step : Array ℝ}
    (size : step.size = s.space.dimension) (slope : ℝ) (prec : Precision ℝ) :
    Stays P (s.lineSearch p step slope prec) (Best (fun t => s.worth (p.along step t)) p.value) := by
  have same : step.size = p.x.size := size.trans known.size.symm
  have start : s.worth (p.along step 0) = p.value := by rw [alongZero same, known.value]
  refine .expect (runStays (fun t => valueStays (inside _ ?_)) start)
  rw [Point.sizeAlong same, known.size]

omit inside in
/- The best sample of a search along a step makes a point. -/
theorem bestKnown {p : Point ℝ} (known : s.Knows p) {step : Array ℝ}
    (size : step.size = s.space.dimension) {best : Sample ℝ}
    (found : Best (fun t => s.worth (p.along step t)) p.value best) :
    s.Knows (.plain (p.along step best.x) best.y) := by
  refine ⟨?_, found.value⟩
  rw [Point.plain, Point.sizeAlong (size.trans known.size.symm), known.size]

end
end Surface

/-! ### Second derivatives -/

namespace Hessian
section
variable {h : Site ℝ} {P : Array ℝ → Prop}
  (inside : ∀ x : Array ℝ, x.size = h.surface.space.dimension → P (h.surface.space.external x))
  (size : h.x.size = h.surface.space.dimension)
include inside size

theorem findRiseStays (k : ℕ) (d : ℝ) (tries : ℕ) :
    Stays P (findRise h k d tries) fun _ => True := by
  induction tries generalizing d with
  | zero => exact .pure trivial
  | succ tries ih =>
    refine .bind (Surface.valueWithStays inside size _ _) fun _ _ => ?_
    refine .bind (Surface.valueWithStays inside size _ _) fun _ _ => ?_
    refine .ite (fun _ => .pure trivial) fun _ => .ite (fun _ => ?_) fun _ => ih _
    exact .ite (fun _ => .pure trivial) fun _ => ih _

theorem measureStays (k : ℕ) (r : Ruler ℝ) (d : ℝ) (cycles : ℕ) :
    Stays P (measure h k r d cycles) fun _ => True := by
  induction cycles generalizing r d with
  | zero => exact .pure trivial
  | succ cycles ih =>
    refine .bind (findRiseStays inside size k d 5) fun found _ => ?_
    cases found with
    | none => exact .pure trivial
    | some rise => exact .expect (.ite (fun _ => .pure trivial) fun _ => ih _ _)

theorem measureAllStays (limit before : ℕ) (rulers : Array (Ruler ℝ)) (ks : List ℕ) :
    Stays P (measureAll h limit before rulers ks) fun _ => True := by
  induction ks generalizing rulers with
  | nil => exact .pure trivial
  | cons k rest ih =>
    refine .expect (.bind (measureStays inside size k _ _ _) fun _ _ => ?_)
    refine .ite (fun _ => .pure trivial) fun _ => .expect (.counting fun _ => ?_)
    exact .ite (fun _ => .pure trivial) fun _ => ih _

omit size in
theorem mixRowStays (rulers : Array (Ruler ℝ)) (i : ℕ) {x : Array ℝ}
    (full : x.size = h.surface.space.dimension) (m : Symmetric ℝ) (js : List ℕ) :
    Stays P (mixRow h rulers i x m js) fun r => r.1.size = h.surface.space.dimension := by
  induction js generalizing x m with
  | nil => exact .pure full
  | cons j rest ih =>
    have shifted : (shift x j (reachOf rulers j)).size = h.surface.space.dimension := by
      rw [shift, Array.size_setIfInBounds, full]
    refine .bind (Surface.valueStays (inside _ shifted)) fun _ _ => ih ?_ _
    rw [Array.size_setIfInBounds, shifted]

omit size in
theorem mixAllStays (rulers : Array (Ruler ℝ)) {x : Array ℝ}
    (full : x.size = h.surface.space.dimension) (m : Symmetric ℝ) (is : List ℕ) :
    Stays P (mixAll h rulers x m is) fun _ => True := by
  induction is generalizing x m with
  | nil => exact .pure trivial
  | cons i rest ih =>
    have shifted : (shift x i (reachOf rulers i)).size = h.surface.space.dimension := by
      rw [shift, Array.size_setIfInBounds, full]
    refine .bind (mixRowStays inside rulers i shifted _ _) fun row known => ih ?_ _
    rw [Array.size_setIfInBounds, known]

omit size in
theorem slopesStays {k : Knowledge ℝ} (known : h.surface.Tells k) {g : Gradient ℝ}
    (slopes : g.slopes.size = h.surface.space.dimension) :
    Stays P (Hessian.slopes h k g) fun g' => g'.slopes.size = h.surface.space.dimension := by
  refine .ite (fun _ => .pure known.slopes) fun _ => .ite (fun _ => .pure slopes) fun _ => ?_
  refine .map ((Surface.refinedStays inside known.point.size h.strategy g).weaken fun _ same => ?_)
  exact same.trans slopes

end

theorem startGradientStays {P : Array ℝ → Prop} (s : Surface ℝ) (k : Knowledge ℝ) :
    Stays P (startGradient s k) fun g => g.slopes = k.gradient.slopes := by
  have guess : Stays P (s.guessed k.point) fun _ => True :=
    (Surface.guessedStays _).weaken fun _ _ => trivial
  unfold startGradient
  split
  · exact .bindAny guess fun _ => .pure rfl
  · exact .bindAny (.pure trivial) fun _ => .pure rfl

theorem matrixStays {s : Surface ℝ} {P : Array ℝ → Prop}
    (inside : ∀ x : Array ℝ, x.size = s.space.dimension → P (s.space.external x)) (st : Strategy ℝ)
    {k : Knowledge ℝ} (known : s.Tells k) (limit before : ℕ) :
    Stays P (matrix s st k limit before) fun found =>
      ∀ m g, found = .ok (m, g) → g.slopes.size = s.space.dimension := by
  refine .bind (startGradientStays s k) fun start same => ?_
  refine .bind (Surface.valueStays (inside _ known.point.size)) fun value _ => ?_
  let aim := Scalar.sqrt s.precision.eps2 * (Scalar.abs value + s.errorDef)
  let h : Site ℝ := ⟨s, st, k.point.x, value, aim, start⟩
  refine .bind (measureAllStays (h := h) inside known.point.size _ _ _ _) fun ⟨rulers, failure⟩ _ => ?_
  cases failure with
  | some failure => exact .pure nofun
  | none =>
    have slopes : (gradientOf h rulers).slopes.size = s.space.dimension := by
      rw [gradientOf, Gradient.numerical, Vector.size_overlay, same, known.slopes]
    refine .bind (slopesStays (h := h) inside known slopes) fun g whole => ?_
    refine .bind (mixAllStays (h := h) inside rulers known.point.size _ _) fun m _ => .pure ?_
    rintro _ _ ⟨⟩
    exact whole

theorem concludeTells {s : Surface ℝ} {k : Knowledge ℝ} (known : s.Tells k) (prec : Precision ℝ)
    (calls : ℕ) {found : Except (HessianFailure × Array ℝ) (Symmetric ℝ × Gradient ℝ)}
    (slopes : ∀ m g, found = .ok (m, g) → g.slopes.size = s.space.dimension) :
    s.Tells (conclude k prec calls found) ∧ (conclude k prec calls found).point = k.point := by
  have point := concludePoint k prec calls found
  refine ⟨⟨point ▸ known.point, ?_⟩, point⟩
  cases found with
  | error failure => exact known.slopes
  | ok found =>
    have whole := slopes found.1 found.2 rfl
    unfold conclude
    dsimp only
    split
    · exact known.slopes
    · split
      · exact whole
      · exact whole

end Hessian

namespace Surface
variable {s : Surface ℝ} {P : Array ℝ → Prop}
  (inside : ∀ x : Array ℝ, x.size = s.space.dimension → P (s.space.external x))
include inside

theorem secondDerivativesStays (st : Strategy ℝ) {k : Knowledge ℝ} (known : s.Tells k) (limit : ℕ) :
    Stays P (s.secondDerivatives st k limit) fun next => s.Tells next ∧ next.point = k.point := by
  refine .ite (fun _ => .pure ⟨known, rfl⟩) fun _ => .counting fun before => ?_
  refine .bind (Hessian.matrixStays inside st known _ _) fun found slopes => ?_
  refine .counting fun calls => .expect (.expect (.pure ?_))
  exact Hessian.concludeTells known _ _ slopes

/-! ### Where searches begin -/

omit inside in
theorem knowStays {p : Point ℝ} (known : s.Knows p) (e : ErrorMatrix ℝ) {g : Gradient ℝ}
    (slopes : g.slopes.size = s.space.dimension) : Stays P (know p e g) s.Tells :=
  .expect (.counting fun _ => .pure ⟨known, slopes⟩)

theorem startPointStays {state : FitState ℝ} (same : state.space.dimension = s.space.dimension) :
    Stays P (s.startPoint state) s.Knows := by
  have size : state.space.internal.size = s.space.dimension := state.space.sizeInternal.trans same
  exact .bind (valueStays (inside _ size)) fun y value => .pure ⟨size, value⟩

theorem simplexSeedStays {state : FitState ℝ} (same : state.space.dimension = s.space.dimension) :
    Stays P (s.simplexSeed state) fun seed => s.Tells seed.knowledge ∧ seed.space = state.space := by
  refine .bind (startPointStays inside same) fun p known => ?_
  exact .bind (knowStays known _ (guessSize s p)) fun k told => .pure ⟨told, rfl⟩

theorem climbDownStays (m : GradientMethod ℝ) (prec : Precision ℝ) {p : Point ℝ} {g : Gradient ℝ}
    (known : s.Knows p) (slopes : g.slopes.size = s.space.dimension) (tries : ℕ) :
    Stays P (s.climbDown m prec p g tries) fun r =>
      s.Knows r.1 ∧ r.2.slopes.size = s.space.dimension := by
  induction tries generalizing p g with
  | zero => exact .pure ⟨known, slopes⟩
  | succ tries ih =>
    unfold climbDown
    cases g.curvatures.findIdx? fun c => decide (c ≤ 0) with
    | none => exact .pure ⟨known, slopes⟩
    | some i =>
      have step : (downhill g i p.x.size prec).size = s.space.dimension := by
        rw [downhill, Array.size_setIfInBounds, Array.size_replicate, known.size]
      refine .expect (.bind (lineSearchStays inside known step _ _) fun best found => ?_)
      have next := bestKnown known step found
      exact .bind (gradientFromStays inside m next.size slopes) fun g' whole => ih next whole

theorem leaveDownwardStays (m : GradientMethod ℝ) {k : Knowledge ℝ} (known : s.Tells k)
    (prec : Precision ℝ) : Stays P (s.leaveDownward m k prec) s.Tells := by
  refine .ite (fun _ => .pure known) fun _ => ?_
  refine .bind (climbDownStays inside m prec known.point known.slopes _) fun r found => ?_
  exact knowStays found.1 _ found.2

theorem startGradientStays (m : GradientMethod ℝ) (st : Strategy ℝ) (check : GradientCheck)
    {p : Point ℝ} (size : p.x.size = s.space.dimension) :
    Stays P (s.startGradient m st check p) fun g => g.slopes.size = s.space.dimension := by
  refine .ite (fun _ => gradientStays inside m size) fun _ => ?_
  refine .bind (gradientStays inside m size) fun g slopes => ?_
  have ends (wrong : Bool) : Stays P (if wrong && check == .reject then s.gradient (.differences st) p
      else pure (Gradient.supplied g.slopes (s.guess p).curvatures (s.guess p).steps))
      fun g => g.slopes.size = s.space.dimension :=
    .ite (fun _ => gradientStays inside _ size) fun _ => .pure slopes
  refine .ite (fun _ => .bindAny (.pure trivial) ends) fun _ => ?_
  exact .bindAny (.bind (refinedStays inside size _ _) fun _ _ => .pure trivial) ends

theorem settleStartStays (m : GradientMethod ℝ) (st : Strategy ℝ) {k : Knowledge ℝ}
    (known : s.Tells k) (prec : Precision ℝ) : Stays P (s.settleStart m st k prec) s.Tells := by
  refine .ite (fun _ => .pure known) fun _ => ?_
  refine .ite (fun _ => leaveDownwardStays inside m known prec) fun _ => ?_
  refine .bind (leaveDownwardStays inside _ known prec) fun left told => ?_
  exact .bind (gradientStays inside m told.point.size) fun g slopes => knowStays told.point _ slopes

theorem descentSeedStays (m : GradientMethod ℝ) (st : Strategy ℝ) (check : GradientCheck)
    {state : FitState ℝ} (same : state.space.dimension = s.space.dimension) :
    Stays P (s.descentSeed m st check state) fun seed =>
      s.Tells seed.knowledge ∧ seed.space = state.space := by
  refine .bind (startPointStays inside same) fun p known => ?_
  refine .bind (startGradientStays inside m st check known.size) fun g slopes => ?_
  refine .bind (knowStays known _ slopes) fun k told => ?_
  refine .bind (settleStartStays inside m st told _) fun k told => ?_
  refine .ite (fun _ => ?_) fun _ => .bind (.pure told) fun k told => .pure ⟨told, rfl⟩
  exact .bind (secondDerivativesStays inside st told 0) fun k found => .pure ⟨found.1, rfl⟩

theorem seedStays (a : Algorithm) (m : GradientMethod ℝ) (st : Strategy ℝ) (check : GradientCheck)
    {state : FitState ℝ} (same : state.space.dimension = s.space.dimension) :
    Stays P (s.seed a m st check state) fun seed =>
      s.Tells seed.knowledge ∧ seed.space = state.space :=
  .ite (fun _ => descentSeedStays inside m st check same) fun _ => simplexSeedStays inside same

end Surface
end ParamFit
