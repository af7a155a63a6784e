import ParamFit.Gradient.Basic
import ParamFit.Proofs.Plain
import ParamFit.Proofs.Sums

/-! Differences of parabolas. Where an objective is a parabola along a coordinate, the values on either
side of a point show its slope and its curvature exactly, whatever the distance is. So cycles of
differences find both at once, and only the step still changes. -/
namespace ParamFit

structure Objective.Curve (f : Objective ℝ) (x : Array ℝ) (k : ℕ) (slope curvature : ℝ) : Prop where
  along : ∀ d,
    f.value (x.setIfInBounds k (entry x k + d)) = f.value x + slope * d + curvature / 2 * d ^ 2

/- A strategy that looks at each coordinate at least once and can be content with what it sees. -/
structure Strategy.Sensible (st : Strategy ℝ) : Prop where
  cycles : 0 < st.gradientCycles
  step : st.gradientStepTolerance ≤ 1
  slope : 0 < st.gradientTolerance
  hessian : 0 < st.hessianCycles
  curvature : 0 < st.hessianCurvatureTolerance

theorem Strategy.ofLevelSensible (level : ℕ) : (ofLevel level : Strategy ℝ).Sensible := by
  have lowest : (low : Strategy ℝ).Sensible := by constructor <;> norm_num [low]
  have middle : (medium : Strategy ℝ).Sensible := by constructor <;> norm_num [medium]
  have highest : (high : Strategy ℝ).Sensible := by constructor <;> norm_num [high]
  match level with
  | 0 => exact lowest
  | 1 => exact middle
  | _ + 2 => exact highest

structure Axis.Shows (a : Axis ℝ) (slope curvature least : ℝ) : Prop where
  slope : a.slope = slope
  curvature : a.curvature = curvature
  step : least ≤ a.step

/- Along a coordinate, what an objective is worth is a parabola. -/
structure Surface.Arc (s : Surface ℝ) (x : Array ℝ) (k : ℕ) (slope curvature : ℝ) : Prop where
  along : ∀ d,
    s.worth (x.setIfInBounds k (entry x k + d)) = s.worth x + slope * d + curvature / 2 * d ^ 2

namespace Surface
variable {s : Surface ℝ} {n : ℕ} {fits : Prop} {p : Point ℝ} {k : ℕ} {slope curvature : ℝ}

theorem Plain.arc (plain : s.Plain n) {x : Array ℝ} (size : x.size = n)
    (curve : s.objective.Curve x k slope curvature) : s.Arc x k slope curvature where
  along d := by
    rw [plain.worth size, plain.worth (by rw [Array.size_setIfInBounds, size]), curve.along d]

theorem bothSides {β : Type} {m : ℝ → ℝ → Eval ℝ β} {x : Array ℝ} {d : ℝ} {t : Trace ℝ} {c : ℕ}
    {post : β → Prop} (answers : fits → ∀ y : Array ℝ, y.size = x.size → s.Answers y)
    (arc : s.Arc x k slope curvature)
    (rest : ∀ ahead behind u, ahead - behind = 2 * slope * d →
      ahead + behind - 2 * s.worth x = curvature * d ^ 2 →
      Yields fits (m ahead behind) u c post) :
    Yields fits (do
      let ahead ← s.valueWith x k (entry x k + d)
      let behind ← s.valueWith x k (entry x k - d)
      m ahead behind) t (c + 2) post := by
  have one (v : ℝ) (u : Trace ℝ) :
      Yields fits (s.valueWith x k v) u 1 (· = s.worth (x.setIfInBounds k v)) :=
    valueYields (fun fit => answers fit _ Array.size_setIfInBounds) u
  have total : c + 2 = 1 + (1 + c) := by omega
  rw [total]
  refine .bind (one _ t) fun ahead u atAhead _ => .bind (one _ u) fun behind v atBehind _ => ?_
  have left := arc.along (-d)
  rw [arc.along d] at atAhead
  rw [← sub_eq_add_neg] at left
  rw [left] at atBehind
  refine rest ahead behind v ?_ ?_
  · rw [atAhead, atBehind]; ring
  · rw [atAhead, atBehind]; ring

theorem differenceExact {d ahead behind : ℝ} (apart : d ≠ 0) (first : ahead - behind = 2 * slope * d)
    (second : ahead + behind - 2 * p.value = curvature * d ^ 2) :
    differenceAxis p d ahead behind = ⟨slope, curvature, d⟩ := by
  have half : (0.5 : ℝ) * (ahead - behind) / d = slope := by
    rw [first]
    field_simp
    norm_num
  have twice : (ahead + behind - 2.0 * p.value) / d / d = curvature := by
    rw [show (2.0 : ℝ) = 2 by norm_num, second]
    field_simp
  rw [differenceAxis]
  exact congrArg₂ (Axis.mk · · d) half twice

theorem centralExact {d ahead behind : ℝ} (apart : 0 < d) (first : ahead - behind = 2 * slope * d) :
    (ahead - behind) / (2.0 * d) = slope := by
  rw [first, show (2.0 : ℝ) = 2 by norm_num]
  field_simp

/-! ### Cycles of differences -/

section
variable {st : Strategy ℝ} (sensible : st.Sensible)
  (answers : fits → ∀ x : Array ℝ, x.size = p.x.size → s.Answers x) (known : p.value = s.worth p.x)
  (arc : s.Arc p.x k slope curvature) {least : ℝ} (positive : 0 < least)
include sensible answers known arc positive

theorem cyclesExact {noise last : ℝ} {a : Axis ℝ} (shown : a.Shows slope curvature least)
    (held : least ≤ s.chooseStep p k noise a) (cycles : ℕ) (t : Trace ℝ) :
    Yields fits (s.differenceCycles st p k noise a last cycles) t 2 (·.Shows slope curvature least) := by
  cases cycles with
  | zero => exact .pure shown
  | succ cycles =>
    refine .ite (fun _ => .pure shown) fun _ => ?_
    refine bothSides answers arc fun ahead behind u first second => ?_
    rw [← known] at second
    rw [differenceExact (by linarith) first second]
    refine .ite (fun _ => .pure ⟨rfl, rfl, held⟩) fun unsettled => absurd ?_ unsettled
    change |a.slope - slope| / _ < st.gradientTolerance
    rw [shown.slope, sub_self, abs_zero, zero_div]
    exact sensible.slope

/- One cycle shows the slope; those after it cannot improve on it. -/
theorem cyclesShow {noise : ℝ} {a : Axis ℝ} (first : least ≤ s.chooseStep p k noise a)
    (next : least ≤ s.chooseStep p k noise ⟨slope, curvature, s.chooseStep p k noise a⟩)
    (t : Trace ℝ) :
    Yields fits (s.differenceCycles st p k noise a 0 st.gradientCycles) t 4
      (·.Shows slope curvature least) := by
  have long : 0 < s.chooseStep p k noise a := positive.trans_le first
  obtain ⟨cycles, count⟩ := Nat.exists_eq_succ_of_ne_zero sensible.cycles.ne'
  rw [count]
  refine .ite (fun near => absurd near (not_lt.mpr ?_)) fun _ => ?_
  · change st.gradientStepTolerance ≤ |(s.chooseStep p k noise a - 0) / s.chooseStep p k noise a|
    rw [sub_zero, div_self long.ne', abs_one]
    exact sensible.step
  · refine bothSides answers arc fun ahead behind u apart curved => ?_
    rw [← known] at curved
    rw [differenceExact long.ne' apart curved]
    refine .ite (fun _ => .pure ⟨rfl, rfl, first⟩) fun _ => ?_
    exact cyclesExact sensible answers known arc positive ⟨rfl, rfl, first⟩ next cycles u

end

/- Without limits, a step is a tenth of the step before at least. -/
theorem Plain.stepHeld (plain : s.Plain n) (inside : k < n) (noise : ℝ) (a : Axis ℝ) :
    0.1 * |a.step| ≤ s.chooseStep p k noise a := by
  have free : ∀ c, ¬ (s.isLimited k ∧ c) := by
    rw [plain.unlimited inside]
    exact fun c limited => Bool.false_ne_true limited.1
  have tenth : |0.1 * a.step| = 0.1 * |a.step| := by rw [abs_mul, abs_of_pos (by norm_num)]
  have most : 0.1 * |a.step| ≤ 10.0 * |a.step| :=
    mul_le_mul_of_nonneg_right (by norm_num) (abs_nonneg _)
  have below (best : ℝ) {_ : Decidable (10.0 * |a.step| < max best (0.1 * |a.step|))} :
      0.1 * |a.step| ≤ if 10.0 * |a.step| < max best (0.1 * |a.step|) then 10.0 * |a.step|
        else max best (0.1 * |a.step|) := by
    split
    · exact most
    · exact le_max_right _ _
  have above (x y : ℝ) {_ : Decidable (x < y)} : x ≤ if x < y then y else x := by
    split
    case isTrue less => exact less.le
    case isFalse => exact le_refl x
  simp only [chooseStep, if_neg (free _), Exact.max, Exact.abs, Exact.mul, Exact.lt,
    Exact.scientific, tenth]
  exact (below _).trans (above _ _)

end Surface

structure Gradient.Shows (g : Gradient ℝ) (n : ℕ) (slope curvature : ℕ → ℝ) (least : ℝ) : Prop where
  slopes : g.slopes = tabulate n slope
  curvatures : g.curvatures = tabulate n curvature
  size : g.steps.size = n
  steps : ∀ k < n, least ≤ entry g.steps k
  valid : g.valid
  found : g.provided = false

theorem Vector.overlaySame {old new : Array ℝ} (size : old.size = new.size) : overlay old new = new := by
  refine Array.ext (by rw [size_overlay, size]) fun i inside _ => ?_
  rw [size_overlay] at inside
  simp [overlay, show i < new.size by omega]

theorem tabulateKnown {β : Type} {table : Array β} {n : ℕ} {f : β → ℝ} {g : ℕ → ℝ}
    (size : table.size = n) (known : ∀ k b, table[k]? = some b → f b = g k) :
    table.map f = tabulate n g := by
  refine Array.ext (by simp [size]) fun i inside _ => ?_
  have within : i < table.size := by simpa using inside
  have here := known i table[i] (Array.getElem?_eq_getElem within)
  simpa [tabulate] using here

theorem Axis.replaceShows {g : Gradient ℝ} {n : ℕ} (full : g.Full n) {axes : Array (Axis ℝ)}
    {slope curvature : ℕ → ℝ} {least : ℝ} (size : axes.size = n)
    (known : ∀ k (a : Axis ℝ), axes[k]? = some a → a.Shows (slope k) (curvature k) least) :
    (replace g axes).Shows n slope curvature least := by
  have width : (toGradient axes).Full n := by rw [← size]; exact gradientFull axes
  refine ⟨?_, ?_, ?_, ?_, rfl, rfl⟩
  · refine (Vector.overlaySame (full.slopes.trans width.slopes.symm)).trans ?_
    exact tabulateKnown size fun k a found => (known k a found).slope
  · refine (Vector.overlaySame (full.curvatures.trans width.curvatures.symm)).trans ?_
    exact tabulateKnown size fun k a found => (known k a found).curvature
  · exact (Vector.size_overlay _ _).trans full.steps
  · intro k inside
    have same := Vector.overlaySame (full.steps.trans width.steps.symm)
    have here := known k axes[k] (Array.getElem?_eq_getElem (by omega))
    have step : entry (replace g axes).steps k = axes[k].step := by
      change entry (Vector.overlay g.steps (toGradient axes).steps) k = _
      rw [same]
      simp [toGradient, Gradient.numerical, entry, size, inside]
    rw [step]
    exact here.step

namespace Surface
section
variable {s : Surface ℝ} {n : ℕ} {fits : Prop} {p : Point ℝ} {slope curvature : ℕ → ℝ} {least : ℝ}
  {st : Strategy ℝ} (sensible : st.Sensible) (size : p.x.size = n) (positive : 0 < least)
include sensible size positive

/- Differences show all slopes and curvatures where no step gets too short. -/
theorem differencesShow (room : n ≤ s.space.dimension)
    (answers : fits → ∀ x : Array ℝ, x.size = p.x.size → s.Answers x) (known : p.value = s.worth p.x)
    (arcs : ∀ k < n, s.Arc p.x k (slope k) (curvature k)) {g : Gradient ℝ} (full : g.Full n)
    (first : ∀ k < n, ∀ noise, least ≤ s.chooseStep p k noise (Axis.ofGradient g k))
    (next : ∀ k < n, ∀ (noise : ℝ) (a : Axis ℝ),
      a.step = s.chooseStep p k noise (Axis.ofGradient g k) → least ≤ s.chooseStep p k noise a)
    (t : Trace ℝ) :
    Yields fits (s.differences st p g) t (n * 4) (·.Shows n slope curvature least) := by
  rw [differences]
  dsimp only
  refine .expect (fun _ => ?_) fun u _ => .expect (fun _ => ?_) fun v _ => ?_
  · simp [size, room, full.slopes]
  · simp [size, full.curvatures, full.steps]
  · rw [size]
    refine .map (.weaken (.tabulate (fun k a => a.Shows (slope k) (curvature k) least)
      fun k inside w => ?_) (le_refl _) fun axes found => Axis.replaceShows full found.1 found.2)
    exact cyclesShow sensible answers known (arcs k inside) positive (first k inside _)
      (next k inside _ _ rfl) w

theorem Plain.differencesShow (plain : s.Plain n) (known : p.value = s.objective.value p.x)
    (curves : ∀ k < n, s.objective.Curve p.x k (slope k) (curvature k)) {g : Gradient ℝ}
    (full : g.Full n) (wide : ∀ k < n, least ≤ |entry g.steps k|) (t : Trace ℝ) :
    Yields fits (s.differences st p g) t (n * 4) (·.Shows n slope curvature (0.01 * least)) := by
  have first (k : ℕ) (inside : k < n) (noise : ℝ) :
      0.1 * least ≤ s.chooseStep p k noise (Axis.ofGradient g k) := by
    refine le_trans ?_ (plain.stepHeld inside noise _)
    exact mul_le_mul_of_nonneg_left (wide k inside) (by norm_num)
  refine Surface.differencesShow sensible size (by linarith) plain.space.dimension.ge
    (fun _ x width => plain.answers (width.trans size)) (known.trans (plain.worth size).symm)
    (fun k inside => plain.arc size (curves k inside)) full (fun k inside noise => ?_)
    (fun k inside noise a same => ?_) t
  · linarith [first k inside noise]
  · have far := first k inside noise
    have held := plain.stepHeld (p := p) inside noise a
    rw [same, abs_of_pos (by linarith)] at held
    linarith

end
end Surface

/-! ### Shrinking differences -/

namespace Surface
section
variable {s : Surface ℝ} {n : ℕ} {fits : Prop} {p : Point ℝ}

section
variable {k : ℕ} {slope curvature : ℝ}
  (answers : fits → ∀ x : Array ℝ, x.size = p.x.size → s.Answers x)
  (arc : s.Arc p.x k slope curvature) {least d change : ℝ} (apart : 0 < d)
include answers arc apart

/- An exact slope stays exact at every distance. -/
theorem settleExact {r : Settling ℝ} (exact : r.slope = slope) (round cycles : ℕ) (t : Trace ℝ) :
    Yields fits (s.settle p k least r d change round cycles) t (2 * cycles) (·.slope = slope) := by
  induction cycles generalizing r d change round t with
  | zero => exact .pure exact
  | succ cycles ih =>
    refine bothSides answers arc fun ahead behind u first _ => ?_
    have newer := centralExact apart first
    refine .ite (fun _ => .pure exact) fun _ => .ite (fun _ => .pure exact) fun _ => ?_
    refine .ite (fun _ => .pure newer) fun _ => ?_
    exact ih (mul_pos apart (by norm_num)) newer _ u

end

theorem settleDistancePositive {k : ℕ} (eps2 : 0 < s.precision.eps2) (up : 0 < s.errorDef)
    {a : Axis ℝ} (step : 0 < a.step) : 0 < (s.settleDistance p k a).1 := by
  have visible : 0 < s.visible 4.0 p := by
    change 0 < 4.0 * s.precision.eps2 * (|p.value| + s.errorDef)
    positivity
  have noise : 0 < |a.curvature| + s.slopeNoise a.slope := by
    change 0 < |a.curvature| + (s.precision.eps2 + |a.slope * s.precision.eps2|)
    positivity
  have distance : 0 < min (0.2 * |a.step|) √(s.visible 4.0 p / (|a.curvature| + s.slopeNoise a.slope)) :=
    lt_min (by positivity) (Real.sqrt_pos.mpr (div_pos visible noise))
  rw [settleDistance]
  dsimp only
  rw [Exact.min, Exact.abs, Exact.sqrt]
  split
  case isTrue short => exact distance.trans short
  case isFalse => exact distance

/- What each axis settles to is what is found. -/
theorem refinedYields (each : ℕ → Settling ℝ → Prop) {g : Gradient ℝ} (size : p.x.size = n)
    (full : g.Full n) {st : Strategy ℝ} {c : ℕ} (settles : ∀ k < n, ∀ u,
      Yields fits (s.settleAxis st p (Axis.ofGradient g k) k) u c (each k)) (t : Trace ℝ) :
    Yields fits (s.refined st p g) t (n * c) fun found => found.1.Full n ∧ found.2.size = n ∧
      ∀ k < n, ∃ r, each k r ∧ entry found.1.slopes k = r.slope ∧ entry found.2 k = r.doubt := by
  refine .expect (fun _ => by simp [size, full.slopes, full.curvatures, full.steps]) fun u _ => ?_
  rw [size]
  refine .map (.weaken (.tabulate each settles) (le_refl _) fun settled ⟨width, known⟩ => ?_)
  have slopes : Vector.overlay g.slopes (settled.map (·.slope)) = settled.map (·.slope) :=
    Vector.overlaySame (by rw [full.slopes, Array.size_map, width])
  refine ⟨⟨?_, full.curvatures, full.steps⟩, Array.size_map.trans width, fun k inside => ?_⟩
  · exact (Vector.size_overlay _ _).trans full.slopes
  · have within : k < settled.size := by rw [width]; exact inside
    refine ⟨settled[k], known k _ (Array.getElem?_eq_getElem within), ?_, ?_⟩
    · change entry (Vector.overlay g.slopes (settled.map (·.slope))) k = settled[k].slope
      rw [slopes]
      simp [entry, within]
    · simp [entry, within]

theorem refinedExact (size : p.x.size = n)
    (answers : fits → ∀ x : Array ℝ, x.size = p.x.size → s.Answers x) {slope curvature : ℕ → ℝ}
    (arcs : ∀ k < n, s.Arc p.x k (slope k) (curvature k)) (eps2 : 0 < s.precision.eps2)
    (up : 0 < s.errorDef) {g : Gradient ℝ} (full : g.Full n) (exact : g.slopes = tabulate n slope)
    (steps : ∀ k < n, 0 < entry g.steps k) (st : Strategy ℝ) (t : Trace ℝ) :
    Yields fits (s.refined st p g) t (n * (2 * st.hessianGradientCycles)) fun found =>
      found.1.slopes = tabulate n slope := by
  refine .weaken (refinedYields (fun k r => r.slope = slope k) size full (fun k inside u => ?_) t)
    (le_refl _) fun found ⟨whole, _, known⟩ => ?_
  · have before : (Axis.ofGradient g k).slope = slope k := by
      change entry g.slopes k = slope k
      rw [exact, entry_tabulate _ inside]
    exact settleExact answers (arcs k inside)
      (settleDistancePositive eps2 up (steps k inside)) before _ _ u
  · refine Vector.sameEntries (whole.slopes.trans (size_tabulate _ _).symm) fun k inside => ?_
    rw [whole.slopes] at inside
    obtain ⟨r, same, found, -⟩ := known k inside
    rw [found, same, entry_tabulate _ inside]

end
end Surface
end ParamFit
