import ParamFit.Proofs.Tilt

/-! The slopes that come of provided derivatives, by the chain rule. A limit is a fold of the line, smooth
everywhere, so each slope is the derivative of what a search sees, along its own coordinate and at every
point. Nothing is asked of the objective but the derivatives of the parameters that vary, at this point. -/
namespace ParamFit

/-! ### Folds are smooth -/

namespace Limits

theorem hyperbolaDerivative (v : ℝ) : HasDerivAt hyperbola (v / hyperbola v) v := by
  have positive : v * v + 1 ≠ 0 := (add_pos_of_nonneg_of_pos (mul_self_nonneg v) one_pos).ne'
  have square : HasDerivAt (fun v : ℝ => v * v + 1) (v + v) v := by
    have both := ((hasDerivAt_id v).mul (hasDerivAt_id v)).add_const 1
    exact both.congr_deriv (by simp)
  refine (square.sqrt positive).congr_deriv ?_
  change (v + v) / (2 * √(v * v + 1)) = v / √(v * v + 1)
  rw [← two_mul, mul_div_mul_left _ _ two_ne_zero]

theorem foldDerivative (l : Limits ℝ) (v : ℝ) : HasDerivAt l.toExternal (l.slope v) v := by
  cases l with
  | free => exact hasDerivAt_id v
  | both lo hi =>
    have sine := (Real.hasDerivAt_sin v).add_const 1
    exact (sine.const_mul (0.5 * (hi - lo))).const_add lo
  | lower lo => exact (hyperbolaDerivative v).const_add (lo - 1)
  | upper hi =>
    refine ((hyperbolaDerivative v).const_sub (hi + 1)).congr_deriv ?_
    exact (neg_div _ _).symm

end Limits

/- What an objective provides for a parameter is its partial derivative. -/
def Objective.Partial (f : Objective ℝ) (i : ℕ) (x : Array ℝ) : Prop :=
  HasDerivAt (fun v => f.value (x.setIfInBounds i v)) (f.slope i x) (entry x i)

theorem Objective.Quadratic.partly {f : Objective ℝ} {h : Symmetric ℝ} {b x : Array ℝ} {c : ℝ}
    (quadratic : f.Quadratic h b c) (size : x.size = h.size) {i : ℕ} (inside : i < h.size)
    (slope : f.slope i x = h.incline b x i) : f.Partial i x := by
  have parabola : (fun v => f.value (x.setIfInBounds i v)) = fun v =>
      f.value x + h.incline b x i * (v - entry x i) + h.element i i / 2 * (v - entry x i) ^ 2 := by
    funext v
    have here := quadratic.moved size ⟨i, inside⟩ (v - entry x i)
    rwa [add_sub_cancel] at here
  rw [Objective.Partial, parabola, slope]
  refine (parabolaDerivative _ _ _ _ _).congr_deriv ?_
  rw [sub_self, mul_zero, add_zero]

namespace Surface

section
variable {α : Type} [Scalar α] {s : Surface α} {k : ℕ}

theorem unlimitedIff : s.isLimited k = false ↔ s.space.limits k = .free := by
  refine ⟨fun unlimited => Parameter.freeLimits.mpr ?_, unlimitedFree⟩
  simpa [isLimited, Parameter.hasLimits, Parameter.hasLower, Parameter.hasUpper] using unlimited

end

/-! ### The chain rule -/

/- The slope that comes of the derivative that is provided. -/
noncomputable def chained (s : Surface ℝ) (x : Array ℝ) (k : ℕ) : ℝ :=
  s.space.slope k (entry x k) * s.objective.slope (s.space.place k) (s.space.external x)

variable {s : Surface ℝ} {x : Array ℝ} {k : ℕ}

/- Where there is no limit, nothing is multiplied. -/
theorem chainedAgain (slope : ℝ) :
    (if s.isLimited k then s.space.slope k (entry x k) * slope else slope) =
      s.space.slope k (entry x k) * slope := by
  split
  case isTrue => rfl
  case isFalse unlimited =>
    have free := unlimitedIff.mp (Bool.of_not_eq_true unlimited)
    rw [Space.slope, free]
    exact (one_mul slope).symm

theorem chainedDerivative (consistent : s.space.Consistent) (full : x.size = s.space.dimension)
    (inside : k < s.space.dimension)
    (partly : s.objective.Partial (s.space.place k) (s.space.external x)) :
    HasDerivAt (fun v => s.worth (x.setIfInBounds k v)) (s.chained x k) (entry x k) := by
  have placed := Space.placed inside
  have moved : (fun v => s.worth (x.setIfInBounds k v)) =
      (fun v => s.objective.value ((s.space.external x).setIfInBounds (s.space.place k) v)) ∘
        (s.space.limits k).toExternal := by
    funext v
    exact congrArg s.objective.value (Space.externalMoved consistent full placed v)
  have here : entry (s.space.external x) (s.space.place k) = (s.space.limits k).toExternal (entry x k) := by
    rw [entry, Array.getD_eq_getD_getElem?, Space.externalAt consistent full placed]
    rfl
  rw [Objective.Partial, here] at partly
  rw [moved, chained, mul_comm]
  exact partly.comp _ ((s.space.limits k).foldDerivative (entry x k))

theorem externalSlopeYields {fits : Prop} {i : ℕ} (reads : fits → s.objective.slopeReads i x ≤ x.size)
    (t : Trace ℝ) : Yields fits (s.externalSlope i x) t 0 (· = s.objective.slope i x) :=
  .expect (fun fit => decide_eq_true (reads fit)) fun _ _ => ⟨rfl, le_refl _, fun _ => rfl⟩

theorem chainedYields {fits : Prop} {p : Point ℝ} (full : p.x.size = s.space.dimension)
    (reads : fits → ∀ k < s.space.dimension,
      s.objective.slopeReads (s.space.place k) (s.space.external p.x) ≤ (s.space.external p.x).size)
    (t : Trace ℝ) :
    Yields fits (s.providedSlopes p) t 0 (· = tabulate s.space.dimension (s.chained p.x)) := by
  have each (k : ℕ) (inside : k < s.space.dimension) (u : Trace ℝ) : Yields fits (do
      let slope ← s.externalSlope (s.space.place k) (s.space.external p.x)
      return if s.isLimited k then s.space.slope k (entry p.x k) * slope else slope) u 0
      (· = s.chained p.x k) := by
    refine .map ((externalSlopeYields (fun fit => reads fit k inside) u).weaken (le_refl _) ?_)
    rintro _ rfl
    exact chainedAgain _
  refine .expect (fun _ => decide_eq_true full.le) fun u _ => ?_
  rw [full]
  refine .weaken (.tabulate (fun k v => v = s.chained p.x k) each) (Nat.mul_zero _).le ?_
  rintro found ⟨width, known⟩
  rw [← tabulateKnown (f := id) width known, Array.map_id]

/- At every point each slope is the derivative of the value along its coordinate, whatever was known of
curvatures and steps. No call is spent, and nothing is lacking if the derivatives find what they read. -/
theorem providedDerivatives (consistent : s.space.Consistent) {p : Point ℝ}
    (full : p.x.size = s.space.dimension)
    (partly : ∀ i ∈ s.space.free, s.objective.Partial i (s.space.external p.x)) (t : Trace ℝ) :
    ∃ g u, (s.gradient .provided p).run t = (g, u) ∧ g.slopes.size = s.space.dimension ∧
      (∀ before, ((s.gradientFrom .provided p before).run t).1.slopes = g.slopes) ∧
      (∀ k < s.space.dimension, HasDerivAt (fun v => ((s.valueWith p.x k v).run u).1)
        (entry g.slopes k) (entry p.x k)) ∧
      u.calls ≤ t.calls ∧
      ((∀ i ∈ s.space.free,
        s.objective.slopeReads i (s.space.external p.x) ≤ (s.space.external p.x).size) →
        u.sound = t.sound) := by
  have listed (k : ℕ) (inside : k < s.space.dimension) : s.space.place k ∈ s.space.free :=
    List.mem_of_getElem? (Space.placed inside)
  have yields := chainedYields full
    (fun (reads : ∀ i ∈ s.space.free,
      s.objective.slopeReads i (s.space.external p.x) ≤ (s.space.external p.x).size) k inside =>
      reads _ (listed k inside)) t
  have given : Yields _ (s.gradient .provided p) t 0 (·.slopes = tabulate s.space.dimension (s.chained p.x)) :=
    .map yields
  obtain ⟨⟨g, u⟩, run⟩ : ∃ answer, (s.gradient .provided p).run t = answer := ⟨_, rfl⟩
  obtain ⟨slopes, calls, sound⟩ := given.after run
  refine ⟨g, u, run, ?_, fun before => ?_, fun k inside => ?_, calls, sound⟩
  · rw [slopes, size_tabulate]
  · have again : Yields _ (s.gradientFrom .provided p before) t 0
        (·.slopes = tabulate s.space.dimension (s.chained p.x)) := .map yields
    exact again.answer.trans slopes.symm
  · rw [slopes, entry_tabulate _ inside]
    exact chainedDerivative consistent full inside (partly _ (listed k inside))

/- Four parameters that vary, one with each kind of limits, one that is fixed, and a constant. The
objective is quadratic in all of them, with mixed terms. -/
noncomputable def coupled : Symmetric ℝ := .build 6 fun i j => 1 / (i + j + 1)

noncomputable def unfolded : Space ℝ :=
  .run .empty [.add "x" 1 0.1, .add "y" 1 0.1, .setLower (.name "y") 0, .add "h" 0.5 0.1, .add "z" 0 0.1,
    .setUpper (.name "z") 1, .add "w" 0.5 0.1, .addConstant "c" 1, .fix (.name "h")]

noncomputable def mixed : Surface ℝ where
  objective :=
    { value := fun x => 0.5 * coupled.quadratic x + Vector.dot #[1, 0, 1, 0, 1, 0] x + 1
      provides := fun _ => true
      slope := fun i x => coupled.incline #[1, 0, 1, 0, 1, 0] x i
      reads := fun _ => 6
      slopeReads := fun _ _ => 6 }
  errorDef := 1
  space := unfolded.run [.setLimits (.name "w") 0 1]

theorem mixedQuadratic : mixed.objective.Quadratic coupled #[1, 0, 1, 0, 1, 0] 1 := by
  refine ⟨rfl, fun x _ => ?_⟩
  change 0.5 * _ + _ + 1 = _
  ring

theorem mixedConsistent : mixed.space.Consistent :=
  (Space.emptyConsistent.run fun a _ => Space.comparableExact a).run fun a _ => Space.comparableExact a

/- Only the limits of one parameter are exchanged, and neither places nor values. -/
theorem mixedPlaces : mixed.space.free = [0, 1, 3, 4] ∧ mixed.space.values.size = 6 := by
  have known : unfolded.indexOf (.name "w") = .ok 4 := rfl
  obtain ⟨q, limited⟩ := (unfolded.parameterAt 4).setLimitsFound (a := 0) (b := 1) (by simp)
  have done : unfolded.setLimits (.name "w") 0 1 = .ok (unfolded.update 4 fun _ => q) := by
    rw [Space.setLimits, known, okBind, limited]
    rfl
  have same : mixed.space = unfolded.update 4 fun _ => q :=
    congrArg (fun found => found.toOption.getD unfolded) done
  rw [same]
  exact ⟨rfl, rfl⟩

theorem providedDerivativesMixed :
    let p : Point ℝ := .plain #[7, 2, 0, -3] 0
    mixed.space.Consistent ∧ p.x.size = mixed.space.dimension ∧
      (∀ i ∈ mixed.space.free, mixed.objective.Partial i (mixed.space.external p.x)) ∧
      ∃ g u, (mixed.gradient .provided p).run? {} = some (g, u) ∧ g.slopes.size = 4 ∧
        ∀ k < 4, HasDerivAt (fun v => ((mixed.valueWith p.x k v).run u).1) (entry g.slopes k) (entry p.x k) := by
  intro p
  obtain ⟨free, values⟩ := mixedPlaces
  have dimension : mixed.space.dimension = 4 := congrArg List.length free
  have full : p.x.size = mixed.space.dimension := dimension.symm
  have width : (mixed.space.external p.x).size = 6 := Space.externalSize.trans values
  have below (i : ℕ) (varies : i ∈ mixed.space.free) : i < 6 := by
    rw [free] at varies
    simp at varies
    omega
  have partly (i : ℕ) (varies : i ∈ mixed.space.free) :
      mixed.objective.Partial i (mixed.space.external p.x) :=
    mixedQuadratic.partly width (below i varies) rfl
  obtain ⟨g, u, run, size, -, derivatives, -, sound⟩ :=
    providedDerivatives mixedConsistent full partly {}
  have reads : u.sound = true := sound fun i _ => width.ge
  refine ⟨mixedConsistent, full, partly, g, u, Eval.runAnswers.mpr ⟨run, reads⟩, size.trans dimension, ?_⟩
  exact fun k inside => derivatives k (dimension.symm ▸ inside)

end Surface
end ParamFit
