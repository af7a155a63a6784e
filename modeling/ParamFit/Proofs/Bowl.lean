import ParamFit.Fit
import ParamFit.Proofs.Line
import ParamFit.Proofs.Multiple
import ParamFit.Proofs.Second

/-! The squared distance to a centre, minimized from anywhere. Differences show it exactly, so the first
step of a descent leads to the centre itself; second derivatives found there are twice the identity. -/
namespace ParamFit
open Finset

noncomputable def bowl (c y : Array ℝ) : ℝ := ∑ i ∈ range c.size, (entry y i - entry c i) ^ 2

/- The squared distance as an objective without derivatives, which reads all coordinates. -/
noncomputable def Objective.bowl (c : Array ℝ) : Objective ℝ :=
  { Objective.plain (ParamFit.bowl c) with reads := fun _ => c.size }

noncomputable def bowlSlope (c y : Array ℝ) (k : ℕ) : ℝ := 2 • (entry y k - entry c k)

section
variable {c y : Array ℝ}

theorem bowlNonneg (c y : Array ℝ) : 0 ≤ bowl c y := Finset.sum_nonneg fun _ _ => sq_nonneg _

theorem bowlCentre (c : Array ℝ) : bowl c c = 0 :=
  Finset.sum_eq_zero fun i _ => by rw [sub_self, zero_pow two_ne_zero]

theorem bowlSlopeTwice (c y : Array ℝ) (k : ℕ) : bowlSlope c y k = 2 * (entry y k - entry c k) :=
  (two_nsmul _).trans (two_mul _).symm

theorem bowlSlopeCentre (c : Array ℝ) (k : ℕ) : bowlSlope c c k = 0 := by
  rw [bowlSlopeTwice, sub_self, mul_zero]

theorem bowlMoved (width : y.size = c.size) {k : ℕ} (inside : k < c.size) (d : ℝ) :
    bowl c (y.setIfInBounds k (entry y k + d)) = bowl c y + bowlSlope c y k * d + d ^ 2 := by
  have term : ∀ i ∈ range c.size,
      (entry (y.setIfInBounds k (entry y k + d)) i - entry c i) ^ 2 =
        (entry y i - entry c i) ^ 2 + if i = k then bowlSlope c y k * d + d ^ 2 else 0 := by
    intro i _
    split
    case isTrue same =>
      subst same
      have moved : entry (y.setIfInBounds i (entry y i + d)) i = entry y i + d := by
        simp [entry, width, inside]
      rw [moved, bowlSlopeTwice]
      ring
    case isFalse other => rw [Hessian.entryOther (Ne.symm other), add_zero]
  rw [bowl, Finset.sum_congr rfl term, Finset.sum_add_distrib, Finset.sum_ite_eq',
    if_pos (mem_range.mpr inside), bowl]
  ring

theorem bowlQuadric (width : y.size = c.size) :
    (Objective.bowl c).Quadric c.size y (bowlSlope c y) (Symmetric.onDiagonal 2) where
  curve k inside := .mk fun d => by
    change bowl c _ = bowl c y + _ + _
    rw [bowlMoved width inside, Symmetric.onDiagonal, if_pos rfl]
    ring
  mixed i row j col apart a b := by
    have other := Hessian.entryOther apart (entry y i + a) (x := y)
    have slope : bowlSlope c (y.setIfInBounds i (entry y i + a)) j = bowlSlope c y j := by
      rw [bowlSlopeTwice, bowlSlopeTwice, other]
    change bowl c _ = bowl c y + _ + _ + _ + _ + _
    rw [← other, bowlMoved (by rw [Array.size_setIfInBounds, width]) col, bowlMoved width row, slope,
      Symmetric.onDiagonal, Symmetric.onDiagonal, Symmetric.onDiagonal, if_pos rfl, if_pos rfl,
      if_neg apart]
    ring
  comm i j := by simp only [Symmetric.onDiagonal, eq_comm]

end

/- What is known at a point of a bowl: everything there is to know, with steps that are not too short. -/
structure Knowledge.Sees (k : Knowledge ℝ) (c : Array ℝ) (least dcovar : ℝ) : Prop where
  width : k.point.x.size = c.size
  value : k.value = bowl c k.point.x
  gradient : k.gradient.Shows c.size (bowlSlope c k.point.x) (fun _ => 2) least
  error : k.error = .usable (.multiple c.size 2⁻¹) dcovar
  edm : k.edm = bowl c k.point.x

namespace Knowledge.Sees
variable {k : Knowledge ℝ} {c : Array ℝ} {least dcovar : ℝ} (sees : k.Sees c least dcovar)
include sees

theorem slopesSize : k.gradient.slopes.size = c.size := by rw [sees.gradient.slopes, size_tabulate]

theorem rows : k.error.inverse.size = c.size := by
  rw [sees.error]
  rfl

theorem centre : k.point.along k.newtonStep 1 = c := by
  have step : k.newtonStep = tabulate c.size fun i => -(2⁻¹ * bowlSlope c k.point.x i) := by
    have matrix : k.error.inverse = .multiple c.size 2⁻¹ := by
      rw [sees.error]
      rfl
    rw [newtonStep, matrix, Symmetric.mulVecMultiple sees.slopesSize, sees.gradient.slopes]
    simp [tabulate]
  have width : k.newtonStep.size = c.size := by rw [step, size_tabulate]
  have size : (k.point.along k.newtonStep 1).size = c.size := by
    rw [Point.along, Vector.sizeAdd, Vector.sizeScale, sees.width, width, min_self]
  refine Vector.sameEntries size fun i inside => ?_
  rw [size] at inside
  rw [Point.along, Vector.entryAdd (by rw [sees.width]; exact inside)
    (by rw [Vector.sizeScale, width]; exact inside), Vector.scale,
    Vector.entryMap _ (by rw [width]; exact inside), step, entry_tabulate _ inside, bowlSlopeTwice]
  change entry k.point.x i + _ * 1 = entry c i
  ring

theorem downhill : ¬ k.slopeAlong k.newtonStep > 0 := by
  have matrix : k.error.inverse = .multiple c.size 2⁻¹ := by
    rw [sees.error]
    rfl
  rw [slopeOfStep, matrix, Symmetric.quadraticMultiple sees.slopesSize]
  refine not_lt.mpr (neg_nonpos.mpr (mul_nonneg (by norm_num) ?_))
  exact Finset.sum_nonneg fun _ _ => sq_nonneg _

theorem stepSize : k.newtonStep.size = c.size := by
  rw [newtonStep, Array.size_map, Symmetric.sizeMulVec, sees.slopesSize]

end Knowledge.Sees

/-! ### The update of the model -/

theorem subSelf (m : Symmetric ℝ) (v : Symmetric ℝ) (size : m.size = v.size) :
    (m.sub m).absSum = 0 ∧ (m.sub m).add v = v := by
  refine ⟨?_, Symmetric.sameElements size fun i j col row => ?_⟩
  · rw [Symmetric.absSum, Vector.absSum, Scalar.sumExact]
    refine List.sum_eq_zero fun x among => ?_
    obtain ⟨y, found, rfl⟩ := List.mem_map.mp among
    have zero : y = 0 := by
      simp only [Symmetric.sub, Symmetric.combine, Symmetric.build, List.toList_toArray] at found
      obtain ⟨pair, _, rfl⟩ := List.mem_map.mp found
      exact sub_self _
    rw [zero, Exact.abs, abs_zero]
  · have here : (m.sub m).element i j = m.element i j - m.element i j :=
      Symmetric.elementBuild _ col row
    refine (Symmetric.elementBuild _ col row).trans ?_
    rw [here]
    change m.element i j - m.element i j + v.element i j = v.element i j
    rw [sub_self, zero_add]

theorem updateCentre {k : Knowledge ℝ} {c : Array ℝ} {least dcovar : ℝ}
    (sees : k.Sees c least dcovar) (apart : 0 < k.value) {p : Point ℝ} (centre : p.x = c)
    {g : Gradient ℝ} (slopes : g.slopes = tabulate c.size (bowlSlope c c)) :
    k.update p g = .usable (.multiple c.size 2⁻¹) (0.5 * dcovar) := by
  let dx := Vector.sub p.x k.point.x
  let dg := Vector.sub g.slopes k.gradient.slopes
  have width : dx.size = c.size := by
    rw [Vector.sizeSub, centre, sees.width, min_self]
  have width' : dg.size = c.size := by
    rw [Vector.sizeSub, slopes, size_tabulate, sees.slopesSize, min_self]
  have entries {i : ℕ} (inside : i < c.size) : entry dx i = entry c i - entry k.point.x i := by
    rw [Vector.entrySub (by rw [centre]; exact inside) (by rw [sees.width]; exact inside), centre]
  have entries' {i : ℕ} (inside : i < c.size) : entry dg i = 2 * entry dx i := by
    rw [Vector.entrySub (by rw [slopes, size_tabulate]; exact inside)
      (by rw [sees.slopesSize]; exact inside), slopes, sees.gradient.slopes, entry_tabulate _ inside,
      entry_tabulate _ inside, bowlSlopeCentre, bowlSlopeTwice, entries inside]
    ring
  have positive : 0 < bowl c k.point.x := by rw [← sees.value]; exact apart
  have moved : Vector.dot dx dg = 2 * bowl c k.point.x := by
    rw [Vector.dotExact, width, width', min_self, bowl, Finset.mul_sum]
    refine Finset.sum_congr rfl fun i inside => ?_
    rw [entries' (mem_range.mp inside), entries (mem_range.mp inside)]
    ring
  have matrix : k.error.inverse = .multiple c.size 2⁻¹ := by
    rw [sees.error]
    rfl
  have model : k.error.inverse.quadratic dg = 2 * bowl c k.point.x := by
    rw [matrix, Symmetric.quadraticMultiple width', bowl, Finset.mul_sum, Finset.mul_sum]
    refine Finset.sum_congr rfl fun i inside => ?_
    rw [entries' (mem_range.mp inside), entries (mem_range.mp inside)]
    ring
  have product : k.error.inverse.mulVec dg = dx := by
    rw [matrix, Symmetric.mulVecMultiple width']
    refine Vector.sameEntries (by rw [Array.size_map, width', width]) fun i inside => ?_
    rw [Array.size_map] at inside
    rw [Vector.entryMap _ inside, entries' (by rw [← width']; exact inside)]
    ring
  have learns : ¬ k.learnsNothing dx dg = true := by
    rw [Knowledge.learnsNothing, moved, model]
    simp [positive.ne', positive]
  rw [Knowledge.update]
  dsimp only
  rw [if_neg learns, moved, model, product, if_neg (lt_irrefl _)]
  obtain ⟨none, kept⟩ := subSelf ((Symmetric.outer dx).scale (1 / (2 * bowl c k.point.x)))
    k.error.inverse (width.trans sees.rows.symm)
  refine (congrArg₂ ErrorMatrix.usable kept ?_).trans (by rw [matrix])
  refine (congrArg₂ (fun a b : ℝ => 0.5 * (k.error.dcovar + a / b)) none (congrArg _ kept)).trans ?_
  rw [zero_div, add_zero, sees.error]
  rfl

theorem bowlEdm {c y : Array ℝ} {g : Gradient ℝ} (slopes : g.slopes = tabulate c.size (bowlSlope c y))
    (dcovar : ℝ) : (ErrorMatrix.usable (.multiple c.size 2⁻¹) dcovar).edm g = bowl c y := by
  rw [ErrorMatrix.edmMultiple (by rw [slopes, size_tabulate]), slopes, bowl, Finset.mul_sum]
  refine Finset.sum_congr rfl fun i inside => ?_
  rw [entry_tabulate _ (mem_range.mp inside), bowlSlopeTwice]
  ring

theorem machineEps : (Precision.machine : Precision ℝ).eps = 2⁻¹ ^ 50 := rfl

theorem machineEps2 : (Precision.machine : Precision ℝ).eps2 = 2⁻¹ ^ 24 := by
  change 2.0 * √((2⁻¹ : ℝ) ^ 50) = 2⁻¹ ^ 24
  rw [show (2⁻¹ : ℝ) ^ 50 = (2⁻¹ ^ 25) ^ 2 by norm_num, Real.sqrt_sq (by positivity)]
  norm_num

structure Surface.Bowl (s : Surface ℝ) (c : Array ℝ) : Prop where
  plain : s.Plain c.size
  objective : s.objective = .bowl c
  errorDef : s.errorDef = 1
  precision : s.space.precision = .machine

theorem diagonalHalf {g : Gradient ℝ} {n : ℕ} {slope : ℕ → ℝ} {least : ℝ}
    (shown : g.Shows n slope (fun _ => 2) least) :
    Surface.diagonalError g .machine = .usable (.multiple n 2⁻¹) 1 := by
  have large : |(2 : ℝ)| > (Precision.machine : Precision ℝ).eps2 := by
    rw [machineEps2, abs_two]
    norm_num
  have inverses : g.inverseCurvatures .machine = Array.replicate n 2⁻¹ := by
    rw [Gradient.inverseCurvatures, shown.curvatures]
    refine Vector.sameEntries (by simp) fun i inside => ?_
    rw [Array.size_map, size_tabulate] at inside
    rw [Vector.entryMap _ (by rw [size_tabulate]; exact inside), entry_tabulate _ inside]
    refine (if_pos large).trans ?_
    simp [entry, inside]
  have diagonal : Symmetric.ofDiagonal (Array.replicate n (2⁻¹ : ℝ)) = .multiple n 2⁻¹ := by
    refine Symmetric.isMultiple Array.size_replicate fun i j order row => ?_
    refine (Symmetric.elementBuild _ order (by rw [Array.size_replicate]; exact row)).trans ?_
    simp [entry, row]
  rw [Surface.diagonalError, inverses, diagonal]

namespace Surface.Bowl
variable {s : Surface ℝ} {c : Array ℝ} {fits : Prop} {st : Strategy ℝ} (shape : s.Bowl c)
  (sensible : st.Sensible)
include shape

theorem above (x : Array ℝ) : 0 ≤ s.objective.value x := by
  rw [shape.objective]
  exact bowlNonneg c x

theorem bottom {k : Knowledge ℝ} {least dcovar : ℝ} (sees : k.Sees c least dcovar) :
    s.objective.value (k.point.along k.newtonStep 1) = 0 := by
  rw [sees.centre, shape.objective]
  exact bowlCentre c

theorem lowest {k : Knowledge ℝ} {least dcovar : ℝ} (sees : k.Sees c least dcovar) :
    Min.min k.value (s.objective.value (k.point.along k.newtonStep 1)) = 0 := by
  rw [shape.bottom sees, sees.value]
  exact min_eq_right (bowlNonneg _ _)

theorem roundStuck {k : Knowledge ℝ} {least dcovar : ℝ} (sees : k.Sees c least dcovar)
    (near : k.value < 2⁻¹ ^ 50) {m : GradientMethod ℝ} (t : Trace ℝ) :
    Yields fits (Descent.round s m .machine k) t LineSearch.maxCalls (· = .stuck) := by
  have close : |0 - k.value| < (Precision.machine : Precision ℝ).eps := by
    rw [zero_sub, abs_neg, sees.value, abs_of_nonneg (bowlNonneg _ _), ← sees.value]
    exact near
  exact Descent.roundStuck shape.plain sees.width sees.slopesSize sees.rows.ge sees.downhill
    (fun x _ => shape.above x) (shape.lowest sees) close t

include sensible

theorem differences {p : Point ℝ} (width : p.x.size = c.size) (value : p.value = bowl c p.x)
    {g : Gradient ℝ} (full : g.Full c.size) {least : ℝ} (positive : 0 < least)
    (wide : ∀ k < c.size, least ≤ |entry g.steps k|) (t : Trace ℝ) :
    Yields fits (s.differences st p g) t (c.size * 4)
      (·.Shows c.size (bowlSlope c p.x) (fun _ => 2) (0.01 * least)) := by
  have curves : ∀ k < c.size, s.objective.Curve p.x k (bowlSlope c p.x k) 2 := by
    intro k inside
    rw [shape.objective]
    have curve := (bowlQuadric width).curve k inside
    rwa [Symmetric.onDiagonal, if_pos rfl] at curve
  refine Surface.Plain.differencesShow sensible width positive shape.plain ?_ curves full wide t
  rw [value, shape.objective]
  rfl

theorem startGradient {p : Point ℝ} (width : p.x.size = c.size) (value : p.value = bowl c p.x)
    (errors : ∀ k < c.size, 0.1 ≤ |(s.space.parameterAt k).error|) (check : GradientCheck)
    (t : Trace ℝ) :
    Yields fits (s.startGradient (.differences st) st check p) t (c.size * 4)
      (·.Shows c.size (bowlSlope c p.x) (fun _ => 2) 0.0001) := by
  have guessed : Yields fits (s.guessed p) t 0 (· = s.guess p) :=
    guessedYields (fun _ => width.trans shape.plain.space.dimension.symm) t
  have wide : ∀ k < c.size, 0.01 ≤ |entry (s.guess p).steps k| := by
    intro k inside
    refine le_trans ?_ ((shape.plain.guessSteps p inside).trans (le_abs_self _))
    linarith [errors k inside]
  have least : (0.0001 : ℝ) = 0.01 * 0.01 := by norm_num
  rw [least, ← Nat.zero_add (c.size * 4)]
  refine .ite (fun _ => .bind guessed ?_) fun other => absurd rfl other
  rintro _ u rfl _
  exact shape.differences sensible width value (shape.plain.guessFull p) (by norm_num) wide u

omit shape sensible in
theorem knowSees {p : Point ℝ} (width : p.x.size = c.size) (value : p.value = bowl c p.x)
    {g : Gradient ℝ} {least : ℝ} (shown : g.Shows c.size (bowlSlope c p.x) (fun _ => 2) least)
    (dcovar : ℝ) (t : Trace ℝ) :
    Yields fits (know p (.usable (.multiple c.size 2⁻¹) dcovar) g) t 0 fun k =>
      k.point = p ∧ k.Sees c least dcovar ∧ k.calls ≤ t.calls := by
  have covered : (ErrorMatrix.usable (.multiple c.size 2⁻¹) dcovar).covers g = true :=
    ErrorMatrix.coversSame (by rw [shown.slopes, size_tabulate]; rfl)
  refine .expect (fun _ => covered) fun u same => .counting (.pure ⟨rfl, ?_, same.le⟩)
  exact ⟨width, value, shown, rfl, bowlEdm shown.slopes dcovar⟩

omit shape sensible in
theorem settleStart {m : GradientMethod ℝ} {k : Knowledge ℝ} {slope : ℕ → ℝ} {least : ℝ}
    (shown : k.gradient.Shows c.size slope (fun _ => 2) least) (prec : Precision ℝ) (t : Trace ℝ) :
    Yields fits (s.settleStart m st k prec) t 0 (· = k) := by
  have up : k.gradient.curvesDown = false := by
    rw [Gradient.curvesDown, shown.curvatures, Array.any_eq_false]
    intro i _
    simp [tabulate]
  exact .ite (fun _ => .pure rfl) fun down => absurd (by rw [up]; rfl) down

omit sensible in
theorem startPoint {state : FitState ℝ} (width : state.space.internal.size = c.size) (t : Trace ℝ) :
    Yields fits (s.startPoint state) t 1
      (· = Point.plain state.space.internal (bowl c state.space.internal)) := by
  refine .map (.weaken (shape.plain.value width t) (le_refl 1) fun y same => ?_)
  rw [same, shape.objective]
  rfl

theorem seedSees {state : FitState ℝ} (here : s.space = state.space)
    (unknown : state.hasCovariance = false) (light : st.isHigh = false)
    (width : state.space.internal.size = c.size)
    (errors : ∀ k < c.size, (s.space.parameterAt k).error = 0.1) (check : GradientCheck)
    (t : Trace ℝ) :
    Yields fits (s.descentSeed (.differences st) st check state) t (1 + c.size * 4) fun seed =>
      seed.space = s.space ∧ seed.knowledge.point.x = state.space.internal ∧
        seed.knowledge.Sees c 0.0001 1 ∧ seed.knowledge.calls ≤ t.calls + (1 + c.size * 4) := by
  have wide : ∀ k < c.size, 0.1 ≤ |(s.space.parameterAt k).error| := fun k inside =>
    (errors k inside).ge.trans (le_abs_self _)
  refine .bind (shape.startPoint width t) ?_
  rintro _ u rfl one
  refine .bind (n := c.size * 4) (k := 0) (shape.startGradient sensible (p := .plain _ _) width rfl
    wide check u) ?_
  intro g v shown four
  have error : startError state g = .usable (.multiple c.size 2⁻¹) 1 := by
    have missing : ¬ (state.hasCovariance = true ∧ state.inner.rows = state.space.dimension) := by
      rw [unknown]
      exact fun known => Bool.false_ne_true known.1
    rw [startError, if_neg missing, ← here, shape.precision, diagonalHalf shown]
  rw [error]
  refine .bind (n := 0) (k := 0) (knowSees width rfl shown 1 v) ?_
  rintro k w ⟨same, sees, calls⟩ _
  refine .bind (n := 0) (k := 0) (settleStart sees.gradient _ w) ?_
  rintro k x rfl _
  rw [light]
  have total : k.calls ≤ t.calls + (1 + c.size * 4) := by omega
  exact .pure ⟨here.symm, by rw [same]; rfl, sees, total⟩

/- A covariance that is known is taken as it is. -/
theorem seedKnown {state : FitState ℝ} (here : s.space = state.space)
    (known : state.hasCovariance = true) (rows : state.inner.rows = c.size)
    (width : state.space.internal.size = c.size)
    (errors : ∀ k < c.size, 0.1 ≤ |(s.space.parameterAt k).error|) (check : GradientCheck)
    (t : Trace ℝ) :
    Yields fits (s.descentSeed (.differences st) st check state) t (1 + c.size * 4) fun seed =>
      seed.knowledge.gradient.Shows c.size (bowlSlope c state.space.internal) (fun _ => 2) 0.0001 ∧
        seed.knowledge.point.x = state.space.internal ∧
        seed.knowledge.error = .usable state.inner.toMatrix 0 ∧
        seed.knowledge.edm = seed.knowledge.error.edm seed.knowledge.gradient := by
  refine .bind (shape.startPoint width t) ?_
  rintro _ u rfl one
  refine .bind (n := c.size * 4) (k := 0) (shape.startGradient sensible (p := .plain _ _) width rfl
    errors check u) ?_
  intro g v shown four
  have dimension : state.space.dimension = c.size := here ▸ shape.plain.space.dimension
  have error : startError state g = .usable state.inner.toMatrix 0 :=
    if_pos ⟨known, rows.trans dimension.symm⟩
  have covered : (ErrorMatrix.usable state.inner.toMatrix (0 : ℝ)).covers g = true :=
    ErrorMatrix.coversSame (by rw [shown.slopes, size_tabulate]; exact rows.symm)
  have start : Yields fits (know (.plain state.space.internal (bowl c state.space.internal))
      (.usable state.inner.toMatrix 0) g) v 0 fun k =>
      k.gradient.Shows c.size (bowlSlope c state.space.internal) (fun _ => 2) 0.0001 ∧
        k.point.x = state.space.internal ∧ k.error = .usable state.inner.toMatrix 0 ∧
        k.edm = k.error.edm k.gradient :=
    .expect (fun _ => covered) fun w _ => .counting (.pure ⟨shown, rfl, rfl, rfl⟩)
  rw [error]
  refine .bind (n := 0) (k := 0) start ?_
  intro k w taken _
  refine .bind (n := 0) (k := 0) (settleStart taken.1 _ w) ?_
  rintro k x rfl _
  rw [known, Bool.not_true, Bool.and_false, Bool.false_and]
  exact .pure taken

theorem arriveCentre {k : Knowledge ℝ} {least dcovar : ℝ} (sees : k.Sees c least dcovar)
    (positive : 0 < least) (apart : 0 < k.value) (t : Trace ℝ) :
    Yields fits (Descent.arrive s (.differences st) .machine k ⟨1, 0⟩) t (c.size * 4) fun o =>
      ∃ next, o = .moved next ∧ next.point.x = c ∧ next.Sees c (0.01 * least) (0.5 * dcovar) ∧
        next.calls ≤ t.calls + c.size * 4 := by
  let p : Point ℝ := .plain (k.point.along k.newtonStep 1) 0
  have centre : p.x = c := sees.centre
  have full : k.gradient.Full c.size :=
    ⟨sees.slopesSize, by rw [sees.gradient.curvatures, size_tabulate], sees.gradient.size⟩
  have wide : ∀ i < c.size, least ≤ |entry k.gradient.steps i| := fun i inside =>
    (sees.gradient.steps i inside).trans (le_abs_self _)
  have value : p.value = bowl c p.x := by rw [centre, bowlCentre]; rfl
  refine .bind (n := c.size * 4) (k := 0) (shape.differences sensible (p := p) (by rw [centre]) value
    full positive wide t) ?_
  intro g u shown most
  have slopes : g.slopes = tabulate c.size (bowlSlope c c) := by rw [shown.slopes, centre]
  have flat : k.error.edm g = 0 := by
    rw [sees.error, bowlEdm slopes, bowlCentre]
  have covered : k.error.covers g = true :=
    ErrorMatrix.coversSame (by rw [sees.rows, slopes, size_tabulate])
  have promises : Descent.promising .machine g k = k := if_neg (by rw [flat]; exact lt_irrefl _)
  have reaches : k.reaches p g = true := by
    have size : k.size = c.size := sees.width
    simp [Knowledge.reaches, centre, slopes, size, sees.slopesSize, sees.rows]
  refine .expect (fun _ => covered) fun v same => ?_
  rw [promises]
  refine .ite (fun negative => absurd negative (by rw [flat]; exact lt_irrefl _)) fun _ => ?_
  refine .expect (fun _ => reaches) fun w same' => .counting (.pure ⟨_, rfl, centre, ?_, ?_⟩)
  · refine ⟨by rw [centre], value, shown, updateCentre sees apart centre slopes, ?_⟩
    rw [flat, centre, bowlCentre]
  · change w.calls ≤ t.calls + c.size * 4
    omega

theorem roundCentre {k : Knowledge ℝ} {least dcovar : ℝ} (sees : k.Sees c least dcovar)
    (positive : 0 < least) (far : 2⁻¹ ^ 50 ≤ k.value) (t : Trace ℝ) :
    Yields fits (Descent.round s (.differences st) .machine k) t
      (LineSearch.maxCalls + c.size * 4) fun o =>
        ∃ next, o = .moved next ∧ next.point.x = c ∧ next.Sees c (0.01 * least) (0.5 * dcovar) ∧
          next.calls ≤ t.calls + (LineSearch.maxCalls + c.size * 4) := by
  have apart : 0 < k.value := lt_of_lt_of_le (by positivity) far
  have aligns : Descent.aligned .machine k = k := if_neg sees.downhill
  have covered : k.gradient.slopes.size ≤ k.error.inverse.size := by
    rw [sees.slopesSize, sees.rows]
  refine .expect (fun _ => decide_eq_true covered) fun u same => ?_
  rw [aligns]
  refine .ite (fun uphill => absurd uphill sees.downhill) fun _ => ?_
  refine .bind (shape.plain.lineSearchKeeps sees.width sees.stepSize (fun x _ => shape.above x)
    (shape.lowest sees) _ .machine u) ?_
  intro best v found most
  rw [shape.bottom sees, if_pos (show 0 < k.point.value from apart)] at found
  subst found
  refine .ite (fun close => absurd close (not_lt.mpr ?_)) fun _ => ?_
  · change (Precision.machine : Precision ℝ).eps ≤ |0 - k.value|
    rw [zero_sub, abs_neg, abs_of_pos apart]
    exact far
  · refine .weaken (shape.arriveCentre sensible sees positive apart v) (le_refl _) ?_
    rintro o ⟨next, moved, atCentre, seen, calls⟩
    exact ⟨next, moved, atCentre, seen, by omega⟩

/- All rounds of a descent: the first one is the last. -/
theorem roundsCentre {k : Knowledge ℝ} {least dcovar : ℝ} (sees : k.Sees c least dcovar)
    (positive : 0 < least) (far : 2⁻¹ ^ 50 ≤ k.value) {maxCalls : ℕ} {wanted : ℝ} (some : 0 ≤ wanted)
    (edm : ℝ) (fuel : ℕ) (t : Trace ℝ) :
    Yields fits (Descent.rounds s (.differences st) .machine maxCalls wanted [] k edm (fuel + 1)) t
      (LineSearch.maxCalls + c.size * 4) fun r =>
        ∃ next, r = ([next, k], 0, .finished) ∧ next.point.x = c ∧
          next.Sees c (0.01 * least) (0.5 * dcovar) ∧
          next.calls ≤ t.calls + (LineSearch.maxCalls + c.size * 4) := by
  refine .bind (k := 0) (shape.roundCentre sensible sees positive far t) ?_
  rintro _ u ⟨next, rfl, centre, seen, calls⟩ _
  have flat : Descent.cautious next = 0 := by
    rw [Descent.cautious, seen.edm, centre, bowlCentre]
    exact zero_mul _
  dsimp only
  rw [flat]
  refine .counting (.ite (fun more => absurd more.1 (not_lt.mpr some)) fun _ => ?_)
  exact .pure ⟨next, rfl, centre, seen, calls⟩

theorem iterateCentre {seed : Seed ℝ} (space : seed.space = s.space)
    (sees : seed.knowledge.Sees c 0.0001 1) (nonempty : 0 < c.size) {maxCalls : ℕ} {edmval : ℝ}
    (wide : 4 * 2⁻¹ ^ 50 ≤ edmval * 0.0001) (t : Trace ℝ) {spent : ℕ} (begun : t.calls ≤ spent)
    (known : seed.knowledge.calls ≤ spent)
    (left : spent + (LineSearch.maxCalls + c.size * 4) < maxCalls) :
    Yields fits (Descent.iterate s (.differences st) seed maxCalls edmval) t
      (LineSearch.maxCalls + c.size * 4) fun min =>
        min.seed = seed ∧ min.callLimit = false ∧ min.aboveMaxEdm = false ∧
          (∃ least dcovar, 0.000001 ≤ least ∧ 0.05 < dcovar ∧ min.last.Sees c least dcovar) ∧
          min.value < 2⁻¹ ^ 50 ∧ (2⁻¹ ^ 50 ≤ seed.knowledge.value → min.last.point.x = c) ∧
          min.last.calls ≤ spent + (LineSearch.maxCalls + c.size * 4) := by
  have fertile : ¬ (seed.knowledge.size = 0 ∨ seed.knowledge.edm < 0) := by
    rintro (empty | negative)
    · rw [Knowledge.size, sees.width] at empty
      omega
    · rw [sees.edm] at negative
      exact absurd negative (not_lt.mpr (bowlNonneg _ _))
  by_cases near : seed.knowledge.value < 2⁻¹ ^ 50
  · have close : Descent.cautious seed.knowledge ≤ edmval * 0.0001 := by
      have four : Descent.cautious seed.knowledge = 4 * seed.knowledge.value := by
        rw [Descent.cautious, sees.error, sees.edm, sees.value]
        change bowl c _ * (1 + 3.0 * 1) = _
        norm_num
        ring
      rw [four]
      linarith
    have stuck : Yields fits (Descent.round s (.differences st) .machine seed.knowledge) t _ _ :=
      shape.roundStuck sees near t
    rw [← shape.precision, ← space] at stuck
    refine .weaken (Descent.iterateStuck fertile stuck close (by omega)) (Nat.le_add_right _ _) ?_
    rintro _ rfl
    refine ⟨rfl, rfl, rfl, ⟨0.0001, 1, by norm_num, by norm_num, sees⟩, near, fun far => ?_, ?_⟩
    · exact absurd near (not_lt.mpr far)
    · exact known.trans (Nat.le_add_right _ _)
  · have some : 0 ≤ edmval * 0.0001 := le_trans (by positivity) wide
    rw [Descent.iterate]
    dsimp only
    rw [if_neg fertile, space, shape.precision]
    refine .bind (n := LineSearch.maxCalls + c.size * 4) (k := 0)
      (shape.roundsCentre sensible sees (by norm_num) (not_lt.mp near) some _ maxCalls t) ?_
    rintro _ u ⟨next, rfl, centre, seen, calls⟩ most
    have within : decide (maxCalls ≤ u.calls) = false := decide_eq_false (by omega)
    refine .counting (.pure ?_)
    rw [within, Descent.judgeKept some]
    refine ⟨rfl, rfl, rfl, ⟨_, _, ?_, ?_, seen⟩, ?_, fun _ => centre, ?_⟩
    · norm_num
    · norm_num
    · change next.value < 2⁻¹ ^ 50
      rw [seen.value, centre, bowlCentre]
      positivity
    · exact calls.trans (Nat.add_le_add_right begun _)

theorem secondHalf {k : Knowledge ℝ} {least dcovar : ℝ} (sees : k.Sees c least dcovar)
    (wide : 0.000001 ≤ least) (nonempty : 0 < c.size) (t : Trace ℝ)
    (countable : ∀ n ≤ t.calls + Hessian.maxCalls st c.size, fits → Count.fits (k.calls + n)) :
    Yields fits (s.secondDerivatives st k 0) t (Hessian.maxCalls st c.size) fun next =>
      next.point = k.point ∧ next.error = .usable (.multiple c.size 2⁻¹) 0 ∧
        next.edm = bowl c k.point.x := by
  have two (i : ℕ) : Symmetric.onDiagonal 2 i i = 2 := if_pos rfl
  have shown : k.gradient.Shows c.size (bowlSlope c k.point.x) (fun i => Symmetric.onDiagonal 2 i i) least := by
    simp only [two]
    exact sees.gradient
  have quadric : s.objective.Quadric c.size k.point.x (bowlSlope c k.point.x) (Symmetric.onDiagonal 2) := by
    rw [shape.objective]
    exact bowlQuadric sees.width
  have visible : ∀ i < c.size, ∀ d, least ≤ d →
      s.space.precision.eps2 < Symmetric.onDiagonal 2 i i / 2 * (d * 10 ^ 4) ^ 2 := by
    intro i _ d long
    have far : 0.01 ≤ d * 10 ^ 4 := by linarith
    have square : (0.01 : ℝ) ^ 2 ≤ (d * 10 ^ 4) ^ 2 := pow_le_pow_left₀ (by norm_num) far 2
    rw [shape.precision, machineEps2, two, div_self two_ne_zero, one_mul]
    exact lt_of_lt_of_le (by norm_num) square
  have precision : s.precision = .machine := shape.precision
  have eps2 : 0 < s.precision.eps2 := by
    rw [precision, machineEps2]
    positivity
  have accepted : (ErrorMatrix.usable (.build c.size (Symmetric.onDiagonal 2)) 1).makePosDef s.precision =
      .usable (.build c.size (Symmetric.onDiagonal 2)) 1 := by
    rw [Symmetric.buildOnDiagonal, precision]
    refine ErrorMatrix.makePosDefMultiple 1 nonempty two_pos ?_ ?_ ?_
    · rw [machineEps]
      norm_num
    · rw [machineEps2]
      norm_num
    · rw [machineEps2]
      norm_num
  have inverted : (Symmetric.build c.size (Symmetric.onDiagonal 2)).invert = .ok (.multiple c.size 2⁻¹) := by
    rw [Symmetric.buildOnDiagonal]
    exact Symmetric.invertMultiple two_pos nonempty
  refine .weaken (Surface.secondDerivativesExact shape.plain sees.width nonempty quadric shown
    (lt_of_lt_of_le (by norm_num) wide) visible eps2 (by rw [shape.errorDef]; exact one_pos) sensible
    accepted inverted rfl t countable) (le_refl _) ?_
  rintro next ⟨point, error, slopes, edm⟩
  refine ⟨point, error, ?_⟩
  rw [edm, error, bowlEdm slopes]

theorem descendCentre {seed : Seed ℝ} (space : seed.space = s.space)
    (sees : seed.knowledge.Sees c 0.0001 1) (nonempty : 0 < c.size) (medium : st.isMedium = true)
    {maxCalls : ℕ} {edmval : ℝ} (wide : 4 * 2⁻¹ ^ 50 ≤ edmval * 0.0001) (t : Trace ℝ) {spent : ℕ}
    (begun : t.calls ≤ spent) (known : seed.knowledge.calls ≤ spent)
    (left : spent + (LineSearch.maxCalls + c.size * 4) < maxCalls)
    (countable : ∀ n ≤ 2 * (spent + (LineSearch.maxCalls + c.size * 4)) + Hessian.maxCalls st c.size,
      fits → Count.fits n) :
    Yields fits (s.descend (.differences st) seed st maxCalls edmval) t
      (LineSearch.maxCalls + c.size * 4 + Hessian.maxCalls st c.size) fun min =>
        min.isValid ∧ min.last.error = .usable (.multiple c.size 2⁻¹) 0 ∧ min.value < 2⁻¹ ^ 50 ∧
          (2⁻¹ ^ 50 ≤ seed.knowledge.value → min.last.point.x = c ∧ min.value = 0 ∧ min.edm = 0) := by
  refine .bind (shape.iterateCentre sensible space sees nonempty wide t begun known left) ?_
  rintro min u ⟨_, within, low, ⟨least, dcovar, long, unsettled, seen⟩, value, far, calls⟩ most
  have refines : st.refines min.last = true := by
    have size : 0 < min.last.size := by
      rw [Knowledge.size, seen.width]
      exact nonempty
    have loose : min.last.error.dcovar > 0.05 := by
      rw [seen.error]
      exact unsettled
    rw [Strategy.refines, medium, decide_eq_true loose, decide_eq_true size]
    simp
  rw [if_pos refines]
  refine .map (.weaken (shape.secondHalf sensible seen long nonempty u ?_) (le_refl _) ?_)
  · intro n few
    exact countable _ (by omega)
  · rintro next ⟨point, error, edm⟩
    have same : (min.add next).value = min.value := congrArg Point.value point
    have valid : next.isValid = true := by
      rw [Knowledge.isValid, Knowledge.hasCovariance, error]
      rfl
    refine ⟨?_, error, same.trans_lt value, fun more => ?_⟩
    · change (next.isValid && !min.aboveMaxEdm && !min.callLimit) = true
      rw [valid, low, within]
      rfl
    · have centre := far more
      have bottom : min.value = 0 := by
        rw [Minimum.value, seen.value, centre, bowlCentre]
      refine ⟨(congrArg Point.x point).trans centre, same.trans bottom, ?_⟩
      change next.edm = 0
      rw [edm, centre, bowlCentre]

end Surface.Bowl
namespace Fit

/- The budget is enough, and can be counted twice over. -/
theorem budgetEnough (n : ℕ) : 2 * (1 + n * 4 + (LineSearch.maxCalls + n * 4)) +
    Hessian.maxCalls .medium n < defaultBudget n := by
  have cycles : (Strategy.medium : Strategy ℝ).hessianGradientCycles = 2 := rfl
  rw [Hessian.maxCalls, cycles, LineSearch.maxCalls, LineSearch.maxRounds, defaultBudget,
    Nat.mul_assoc]
  generalize n * n = square
  omega

section
variable (c x : Array ℝ)

/- The fit of a centre that begins at `x`, with errors of a tenth and all settings as they are. -/
noncomputable def centring : Fit ℝ :=
  .new (.bowl c) (.ofSpace (.numbered x (Array.replicate x.size 0.1) x.size)) .descent

variable {c x} (size : x.size = c.size) (nonempty : 0 < c.size)
include size

theorem centringShape : (centring c x).surface.Bowl c where
  plain := by
    refine ⟨?_, fun y _ => le_refl c.size⟩
    rw [← size]
    exact Space.numberedPlain _ _ _
  objective := rfl
  errorDef := rfl
  precision := rfl

include nonempty

theorem centringMethod : (centring c x).method = .differences .medium := by
  have unable : (centring c x).surface.providesAll = false := by
    change (List.range x.size).all (fun _ => false) = false
    rw [List.all_eq_false]
    exact ⟨0, List.mem_range.mpr (by rw [size]; exact nonempty), nofun⟩
  rw [method, unable, Bool.and_false]
  rfl

theorem centringSearch (t : Trace ℝ) (fresh : t.calls = 0) :
    Yields (Count.fits (defaultBudget c.size)) ((centring c x).searchFrom (defaultBudget c.size) 0.1) t
      (1 + c.size * 4 + (LineSearch.maxCalls + c.size * 4 + Hessian.maxCalls .medium c.size))
      fun min => min.isValid ∧ min.last.error = .usable (.multiple c.size 2⁻¹) 0 ∧
        min.value < 2⁻¹ ^ 50 ∧
          (2⁻¹ ^ 50 ≤ bowl c x → min.last.point.x = c ∧ min.value = 0 ∧ min.edm = 0) := by
  have shape := centringShape size
  have sensible : (Strategy.medium : Strategy ℝ).Sensible := Strategy.ofLevelSensible 1
  have start : (centring c x).state.space.internal = x := Space.internalNumbered _ _
  have errors : ∀ k < c.size, ((centring c x).surface.space.parameterAt k).error = 0.1 := by
    intro k inside
    rw [← size] at inside
    have parameter : (centring c x).surface.space.parameterAt k = _ := Space.parameterNumbered inside
    refine (congrArg Parameter.error parameter).trans ?_
    simp [entry, inside]
  have begun : Yields (Count.fits (defaultBudget c.size)) (centring c x).seed t (1 + c.size * 4)
      fun seed => seed.space = (centring c x).surface.space ∧ seed.knowledge.point.x = x ∧
        seed.knowledge.Sees c 0.0001 1 ∧ seed.knowledge.calls ≤ t.calls + (1 + c.size * 4) := by
    rw [seed, centringMethod size nonempty]
    have seeds : Yields (Count.fits (defaultBudget c.size))
        ((centring c x).surface.descentSeed _ _ .warn (centring c x).state) t _ _ :=
      shape.seedSees sensible rfl rfl rfl (by rw [start, size]) errors .warn t
    rw [start] at seeds
    exact seeds
  refine .bind begun ?_
  rintro seed u ⟨space, here, sees, calls⟩ spent
  rw [fresh, Nat.zero_add] at calls spent
  have enough := budgetEnough c.size
  refine .counting (.ite (fun spends => absurd spends (by omega)) fun _ => ?_)
  have method : (centring c x).methodFrom seed = .differences .medium := by
    rw [methodFrom, centringMethod size nonempty]
    rfl
  have wide : 4 * 2⁻¹ ^ 50 ≤ (centring c x).distance 0.1 * 0.0001 := by
    have distance : 0.1 ≤ (centring c x).distance 0.1 := by
      rw [Fit.distance, Exact.max]
      refine le_trans (le_of_eq ?_) (le_max_left _ _)
      exact (mul_one (0.1 : ℝ)).symm
    linarith [show (4 : ℝ) * 2⁻¹ ^ 50 ≤ 0.1 * 0.0001 by norm_num]
  have value : seed.knowledge.value = bowl c x := by rw [sees.value, here]
  rw [method, ← value]
  exact shape.descendCentre sensible space sees nonempty rfl wide u spent calls (by omega)
    fun n few fit => Count.fitsBelow (by omega) fit

end

/- A fit of the squared distance to a centre finds the centre. -/
theorem centreFound (c x : Array ℝ) (size : x.size = c.size) (nonempty : 0 < c.size) :
    ∃ space, Space.ofValues x (Array.replicate x.size 0.1) = .ok space ∧
      ∃ fit min t, (Fit.new (.bowl c) (.ofSpace space) .descent).minimize.run {} =
          (.ok (fit, min), t) ∧
        (Count.fits (defaultBudget c.size) → t.sound) ∧ min.isValid ∧
        min.last.error.status = .valid ∧
        min.last.error.inverse = (Symmetric.identity c.size).scale 2⁻¹ ∧
        t.calls < 200 + 100 * c.size + 5 * c.size * c.size ∧ min.value < 2⁻¹ ^ 50 ∧
        (2⁻¹ ^ 50 ≤ bowl c x → min.last.point.x = c ∧ min.value = 0 ∧ min.edm = 0) := by
  have built : Space.ofValues x (Array.replicate x.size (0.1 : ℝ)) = _ :=
    Space.ofValuesNumbered Array.size_replicate.symm
  obtain ⟨⟨valid, error, value, far⟩, calls, sound⟩ := centringSearch size nonempty {} rfl
  let found := ((centring c x).searchFrom (defaultBudget c.size) 0.1).run {}
  let after : Fit ℝ := { centring c x with
    state := found.1.state, calls := (centring c x).calls + found.1.calls }
  have budget : (centring c x).allowance 0 = defaultBudget c.size := by
    have dimension : (centring c x).state.space.dimension = c.size := List.length_range.trans size
    rw [allowance, if_pos rfl, dimension]
  have run : (centring c x).minimize.run {} = (.ok (after, found.1), Trace.append {} found.2) := by
    change ((centring c x).minimizeWith 0 0.1).run {} = _
    have valid : (centring c x).state.valid = true := rfl
    rw [minimizeWith, valid, if_neg nofun, Eval.runBind, Eval.runApart, budget]
    rfl
  have few := budgetEnough c.size
  refine ⟨_, built, after, found.1, _, run, fun fit => ?_, valid, ?_, ?_, ?_, value, far⟩
  · change (true && found.2.sound) = true
    rw [sound fit]
    rfl
  · rw [error]
    rfl
  · rw [error]
    rfl
  · have spent : found.2.calls ≤ 0 + (1 + c.size * 4 +
        (LineSearch.maxCalls + c.size * 4 + Hessian.maxCalls .medium c.size)) := calls
    have fresh : ({} : Trace ℝ).calls = 0 := rfl
    rw [Trace.callsAppend, fresh]
    change _ < defaultBudget c.size
    omega

theorem centreFoundAtOne : (#[0] : Array ℝ).size = (#[1] : Array ℝ).size ∧ 0 < (#[1] : Array ℝ).size ∧
    ∃ space, Space.ofValues #[(0 : ℝ)] (Array.replicate 1 0.1) = .ok space ∧
      ∃ fit min t, (Fit.new (.bowl #[1]) (.ofSpace space) .descent).minimize.run? {} =
          some (.ok (fit, min), t) ∧
        min.isValid ∧ t.calls < 305 ∧ min.last.point.x = #[1] ∧ min.value = 0 ∧ min.edm = 0 := by
  have visible : (2⁻¹ : ℝ) ^ 50 ≤ bowl #[1] #[0] := by
    norm_num [bowl, entry]
  obtain ⟨space, built, fit, min, t, run, sound, valid, _, _, few, _, far⟩ :=
    centreFound #[1] #[0] rfl Nat.one_pos
  have whole := Eval.runAnswers.mpr ⟨run, sound (by decide)⟩
  exact ⟨rfl, Nat.one_pos, space, built, fit, min, t, whole, valid, few, far visible⟩

end Fit
end ParamFit
