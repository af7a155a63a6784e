import ParamFit.Proofs.Differences

/-! Differences at a shrinking distance, of a quadratic objective. Every cycle sees the exact slope. The
first one takes it and later ones keep it, unless it is so flat that what was there before stays. Either
way the doubt covers what is wrong. A gradient from scratch is begun with a guess, so where the objective is
flat, the guess is what stays. -/
namespace ParamFit

theorem Strategy.ofLevelSettles (level : ℕ) :
    0 < (ofLevel level : Strategy ℝ).hessianGradientCycles := by
  match level with
  | 0 => exact Nat.succ_pos 0
  | 1 => exact Nat.succ_pos 1
  | _ + 2 => exact Nat.succ_pos 5

theorem tabulateSame {n : ℕ} {f g : ℕ → ℝ} : tabulate n f = tabulate n g ↔ ∀ k < n, f k = g k := by
  refine ⟨fun same k inside => ?_, fun same => ?_⟩
  · rw [← entry_tabulate f inside, same, entry_tabulate g inside]
  · refine Vector.sameEntries (by rw [size_tabulate, size_tabulate]) fun k inside => ?_
    rw [size_tabulate] at inside
    rw [entry_tabulate f inside, entry_tabulate g inside, same k inside]

namespace Surface

/-! ### What settles -/

theorem Settling.changeBelow (r : Settling ℝ) : |r.older - r.newer| ≤ r.doubt := by
  rw [doubt, Exact.max, Exact.abs]
  exact le_max_right _ _

/- A slope that is too flat to be taken leaves what was there. -/
noncomputable def settled (s : Surface ℝ) (before slope : ℝ) : ℝ :=
  if |slope| < s.precision.eps then before else slope

theorem settledExact {s : Surface ℝ} {before slope : ℝ} :
    s.settled before slope = slope ↔ s.precision.eps ≤ |slope| ∨ before = slope := by
  rw [settled]
  split
  case isTrue flat => exact ⟨.inr, fun same => same.resolve_left (not_le.mpr flat)⟩
  case isFalse steep => exact ⟨fun _ => .inl (not_lt.mp steep), fun _ => rfl⟩

section
variable {s : Surface ℝ} {n : ℕ} {fits : Prop} {p : Point ℝ}

theorem settleShows {k : ℕ} {slope curvature : ℝ}
    (answers : fits → ∀ x : Array ℝ, x.size = p.x.size → s.Answers x)
    (arc : s.Arc p.x k slope curvature) {least d change : ℝ} (apart : 0 < d) (before : ℝ) (cycles : ℕ)
    (t : Trace ℝ) :
    Yields fits (s.settle p k least ⟨before, 0, 0, 0⟩ d change 0 (cycles + 1)) t (2 * (cycles + 1))
      fun r => r.slope = s.settled before slope ∧ |r.slope - slope| ≤ r.doubt := by
  have covered {r : Settling ℝ} (exact : r.slope = slope) : |r.slope - slope| ≤ r.doubt := by
    rw [exact, sub_self, abs_zero]
    exact (abs_nonneg _).trans r.changeBelow
  refine bothSides answers arc fun ahead behind u first _ => ?_
  rw [centralExact apart first]
  refine .ite (fun flat => .pure ⟨(if_pos flat).symm, ?_⟩) fun steep => ?_
  · exact (⟨before, before, slope, _⟩ : Settling ℝ).changeBelow
  have taken {r : Settling ℝ} (exact : r.slope = slope) :
      r.slope = s.settled before slope ∧ |r.slope - slope| ≤ r.doubt :=
    ⟨exact.trans (if_neg steep).symm, covered exact⟩
  refine .ite (fun later => absurd later.2 (by decide)) fun _ => ?_
  refine .ite (fun _ => .pure (taken rfl)) fun _ => ?_
  exact (settleExact answers arc (mul_pos apart (by norm_num)) rfl _ _ u).weaken (le_refl _) fun r => taken

/- Whatever the gradient was before, no slope is farther from the truth than its doubt. -/
theorem refinedShows (size : p.x.size = n)
    (answers : fits → ∀ x : Array ℝ, x.size = p.x.size → s.Answers x) {slope curvature : ℕ → ℝ}
    (arcs : ∀ k < n, s.Arc p.x k (slope k) (curvature k)) (eps2 : 0 < s.precision.eps2)
    (up : 0 < s.errorDef) {g : Gradient ℝ} (full : g.Full n) (steps : ∀ k < n, 0 < entry g.steps k)
    {st : Strategy ℝ} (settles : 0 < st.hessianGradientCycles) (t : Trace ℝ) :
    Yields fits (s.refined st p g) t (n * (2 * st.hessianGradientCycles)) fun found =>
      found.1.slopes = tabulate n (fun k => s.settled (entry g.slopes k) (slope k)) ∧
        found.2.size = n ∧ ∀ k < n, |entry found.1.slopes k - slope k| ≤ entry found.2 k := by
  let each (k : ℕ) (r : Settling ℝ) : Prop :=
    r.slope = s.settled (entry g.slopes k) (slope k) ∧ |r.slope - slope k| ≤ r.doubt
  refine .weaken (refinedYields each size full (fun k inside u => ?_) t) (le_refl _) ?_
  · obtain ⟨cycles, count⟩ := Nat.exists_eq_succ_of_ne_zero settles.ne'
    have apart := settleDistancePositive (k := k) (p := p) eps2 up (a := Axis.ofGradient g k)
      (steps k inside)
    rw [settleAxis, count]
    exact settleShows answers (arcs k inside) apart _ cycles u
  · rintro found ⟨whole, width, known⟩
    refine ⟨Vector.sameEntries (whole.slopes.trans (size_tabulate _ _).symm) fun k inside => ?_, width,
      fun k inside => ?_⟩
    · rw [whole.slopes] at inside
      obtain ⟨r, ⟨slope, -⟩, same, -⟩ := known k inside
      rw [same, slope, entry_tabulate _ inside]
    · obtain ⟨r, ⟨-, covered⟩, same, doubt⟩ := known k inside
      rw [same, doubt]
      exact covered

/-! ### The guess -/

def errorOf {α : Type} [Scalar α] (s : Surface α) (k : ℕ) : α := (s.space.parameterAt (s.space.place k)).error

/- Without limits, a parabola that rises by the error definition over one error. -/
theorem guessFree {k : ℕ} (inside : k < s.space.dimension) (free : s.space.limits k = .free)
    (wide : 0 < s.errorOf k) (p : Point ℝ) :
    entry (s.guess p).slopes k = 2 * s.errorDef / s.errorOf k ∧
      entry (s.guess p).curvatures k = 2 * s.errorDef / s.errorOf k ^ 2 ∧
        0 < entry (s.guess p).steps k := by
  have width : s.errorWidth k (entry p.x k) = s.errorOf k := by
    rw [errorWidthFree free]
    exact abs_of_pos wide
  have axis := guessAt p inside
  have twice : (2.0 : ℝ) = 2 := by norm_num
  have curvature : entry (s.guess p).curvatures k = 2 * s.errorDef / s.errorOf k ^ 2 := by
    refine (congrArg Axis.curvature axis).trans ?_
    rw [guessAxis, width, Exact.scientific, twice, pow_two]
  have slope : entry (s.guess p).slopes k = 2 * s.errorDef / s.errorOf k := by
    refine (congrArg Axis.slope axis).trans ?_
    rw [guessAxis, width, Exact.scientific, twice]
    change 2 * s.errorDef / (s.errorOf k * s.errorOf k) * s.errorOf k = _
    rw [div_mul_eq_mul_div, mul_div_mul_right _ _ wide.ne']
  refine ⟨slope, curvature, lt_of_lt_of_le ?_ (guessStepFree free p inside)⟩
  rw [width]
  exact mul_pos (by norm_num) wide

end

/-! ### A quadratic objective -/

section
variable {s : Surface ℝ} {h : Symmetric ℝ} {b : Array ℝ} {c : ℝ} (quadratic : s.Quadratic h b c)
  {fits : Prop} {p : Point ℝ} (size : p.x.size = s.space.dimension)
include quadratic size

section
variable (fine : s.precision.Fine) (up : 0 < s.errorDef) {g : Gradient ℝ}
  (full : g.Full s.space.dimension) (steps : ∀ k < s.space.dimension, 0 < entry g.steps k)
include fine up full steps

theorem Quadratic.refinedShows (level : ℕ) (t : Trace ℝ) :
    Yields fits (s.refined (.ofLevel level) p g) t
      (s.space.dimension * (2 * (Strategy.ofLevel level : Strategy ℝ).hessianGradientCycles)) fun found =>
      found.1.slopes = tabulate s.space.dimension
          (fun k => s.settled (entry g.slopes k) (s.tilt p.x k)) ∧
        found.2.size = s.space.dimension ∧
        ∀ k < s.space.dimension, |entry found.1.slopes k - s.tilt p.x k| ≤ entry found.2 k :=
  Surface.refinedShows size (fun _ _ width => quadratic.answers size width)
    (fun _ inside => quadratic.arc size inside) fine.eps2 up full steps (Strategy.ofLevelSettles level) t

end

section
variable (up : 0 < s.errorDef) (wide : ∀ k < s.space.dimension, 0 < s.errorOf k)
include up wide

theorem Quadratic.refinedGuess (fine : s.precision.Fine) (level : ℕ) (t : Trace ℝ) :
    Yields fits (s.gradient (.refined (.ofLevel level)) p) t
      (s.space.dimension * (2 * (Strategy.ofLevel level : Strategy ℝ).hessianGradientCycles))
      (·.slopes = tabulate s.space.dimension
        fun k => s.settled (2 * s.errorDef / s.errorOf k) (s.tilt p.x k)) := by
  have guessed (k : ℕ) (inside : k < s.space.dimension) :=
    guessFree inside (quadratic.unlimited k inside) (wide k inside) p
  rw [← Nat.zero_add (s.space.dimension * _)]
  refine .bind (guessedYields (fun _ => size) t) ?_
  rintro _ u rfl _
  refine .map ((quadratic.refinedShows size fine up (s.guessFull p) (fun k inside => (guessed k inside).2.2)
    level u).weaken (le_refl _) ?_)
  rintro found ⟨slopes, -⟩
  refine slopes.trans (tabulateSame.mpr fun k inside => ?_)
  rw [(guessed k inside).1]

/- Both ways to a gradient from scratch, for a quadratic objective. Two-point differences find it.
Differences at a shrinking distance find it as well, except that a slope below the precision is the one
that the error of the parameter suggests. -/
theorem gradientRefined {eps : ℝ} (positive : 0 < eps) (precise : s.precision = .ofEps eps)
    (known : p.value = s.worth p.x) (level : ℕ) (t : Trace ℝ) :
    (∃ found u, (s.gradient (.differences (.ofLevel level)) p).run t = (found, u) ∧ u.sound = t.sound ∧
      found.slopes = tabulate s.space.dimension (s.tilt p.x)) ∧
    ∃ found u, (s.gradient (.refined (.ofLevel level)) p).run t = (found, u) ∧ u.sound = t.sound ∧
      found.slopes = tabulate s.space.dimension (fun k =>
        if |s.tilt p.x k| < eps then 2 * s.errorDef / s.errorOf k else s.tilt p.x k) ∧
      (found.slopes = tabulate s.space.dimension (s.tilt p.x) ↔ ∀ k < s.space.dimension,
        eps ≤ |s.tilt p.x k| ∨ 2 * s.errorDef / s.errorOf k = s.tilt p.x k) := by
  have fine : s.precision.Fine := precise ▸ Precision.ofEpsFine positive
  have same : s.precision.eps = eps := congrArg Precision.eps precise
  constructor
  · have differences : Yields True (s.gradient (.differences (.ofLevel level)) p) t
        (0 + s.space.dimension * 4) (·.slopes = tabulate s.space.dimension (s.tilt p.x)) := by
      refine .bind (guessedYields (fun _ => size) t) ?_
      rintro _ u rfl _
      exact (quadratic.differencesShow size known fine (Strategy.ofLevelSensible level) (s.guessFull p)
        u).weaken (le_refl _) fun _ shown => shown.slopes
    obtain ⟨found, u, run, slopes, -, sound⟩ := differences.ends
    exact ⟨found, u, run, sound, slopes⟩
  · obtain ⟨found, u, run, slopes, -, sound⟩ := (quadratic.refinedGuess size up wide fine level t).ends
    refine ⟨found, u, run, sound, ?_, ?_⟩
    · rw [slopes, ← same]
      rfl
    · rw [slopes, tabulateSame, ← same]
      exact forall₂_congr fun k _ => settledExact

end
end

theorem valleyWide (k : ℕ) (inside : k < valley.space.dimension) : 0 < valley.errorOf k := by
  obtain rfl : k = 0 := Nat.lt_one_iff.mp inside
  change (0 : ℝ) < 0.1
  norm_num

/- On the side of the valley, both ways agree. -/
theorem gradientRefinedValley :
    let p : Point ℝ := .plain #[3] (valley.worth #[3])
    p.x.size = valley.space.dimension ∧ 0 < valley.errorDef ∧ 0 < valley.errorOf 0 ∧ (0 : ℝ) < 2⁻¹ ^ 50 ∧
    valley.precision = .ofEps (2⁻¹ ^ 50) ∧ p.value = valley.worth p.x ∧
    (∃ found u, (valley.gradient (.differences (.ofLevel 1)) p).run? {} = some (found, u) ∧
      found.slopes = #[4]) ∧
    ∃ found u, (valley.gradient (.refined (.ofLevel 1)) p).run? {} = some (found, u) ∧
      found.slopes = #[4] := by
  intro p
  have positive : (0 : ℝ) < 2⁻¹ ^ 50 := by positivity
  have slope : valley.tilt p.x 0 = 4 := (valleyArc 3).tilt.trans (by norm_num)
  have derivatives : tabulate valley.space.dimension (valley.tilt p.x) = #[4] :=
    (tabulateOne _).trans (congrArg (#[·]) slope)
  obtain ⟨⟨found, u, run, sound, exact⟩, refined, v, again, whole, -, iff⟩ :=
    gradientRefined valleyQuadratic (p := p) rfl one_pos valleyWide positive rfl rfl 1 {}
  refine ⟨rfl, one_pos, valleyWide 0 one_pos, positive, rfl, rfl,
    ⟨found, u, Eval.runAnswers.mpr ⟨run, sound⟩, exact.trans derivatives⟩,
    refined, v, Eval.runAnswers.mpr ⟨again, whole⟩, Eq.trans (iff.mpr fun k inside => .inl ?_) derivatives⟩
  obtain rfl : k = 0 := Nat.lt_one_iff.mp inside
  rw [slope]
  norm_num

noncomputable def square : Surface ℝ where
  objective := { Objective.plain (fun x => entry x 0 ^ 2) with reads := fun _ => 1 }
  errorDef := 1
  space := Space.empty.run [.add "p0" 0 0.1]

theorem squareQuadratic : square.Quadratic (.multiple 1 2) #[0] 0 where
  consistent := Space.emptyConsistent.run fun a _ => Space.comparableExact a
  unlimited k inside := by
    obtain rfl : k = 0 := Nat.lt_one_iff.mp inside
    rfl
  declared := rfl
  objective := by
    refine ⟨rfl, fun x (size : x.size = 1) => ?_⟩
    rw [Symmetric.quadraticMultiple size, Vector.dotExact, size, List.size_toArray, List.length_singleton,
      min_self, Finset.sum_range_one, Finset.sum_range_one]
    change entry x 0 ^ 2 = 2 * entry x 0 ^ 2 / 2 + 0 * entry x 0 + 0
    ring
  readable x size := ⟨size.le, by rw [Space.externalSize]; exact le_refl 1⟩

theorem squareTilt (v : ℝ) : square.tilt #[v] 0 = 2 * v := by
  have arc := squareQuadratic.arcOf (x := #[v]) rfl (k := 0) one_pos
  have row : (Symmetric.multiple 1 2).incline #[0] #[v] 0 = 2 * v := by
    rw [Symmetric.incline, Symmetric.mulVecMultiple (n := 1) (v := #[v]) rfl, Vector.entryMap _ one_pos]
    exact add_zero (2 * v)
  exact arc.tilt.trans row

/- At the foot of the square there is no slope, and the guess is given back. -/
theorem gradientUnrefined :
    let p : Point ℝ := .plain #[0] (square.worth #[0])
    square.Quadratic (.multiple 1 2) #[0] 0 ∧ 0 < square.errorOf 0 ∧ 0 < square.errorDef ∧
    square.precision = .ofEps (2⁻¹ ^ 50) ∧ p.value = square.worth p.x ∧ square.tilt p.x 0 = 0 ∧
    ∃ found u, (square.gradient (.refined (.ofLevel 1)) p).run? {} = some (found, u) ∧
      found.slopes = #[20] := by
  intro p
  have fine : square.precision.Fine := Precision.ofEpsFine (by positivity : (0 : ℝ) < 2⁻¹ ^ 50)
  have error : square.errorOf 0 = 0.1 := rfl
  have wide (k : ℕ) (inside : k < square.space.dimension) : 0 < square.errorOf k := by
    obtain rfl : k = 0 := Nat.lt_one_iff.mp inside
    rw [error]
    norm_num
  have flat : square.tilt p.x 0 = 0 := (squareTilt 0).trans (mul_zero 2)
  obtain ⟨found, u, run, slopes, -, sound⟩ :=
    (squareQuadratic.refinedGuess (p := p) rfl one_pos wide fine 1 {}).ends
  refine ⟨squareQuadratic, wide 0 one_pos, one_pos, rfl, rfl, flat, found, u,
    Eval.runAnswers.mpr ⟨run, sound⟩, slopes.trans ((tabulateOne _).trans (congrArg (#[·]) ?_))⟩
  rw [flat, settled, abs_zero, if_pos fine.eps, error]
  change 2 * (1 : ℝ) / 0.1 = 20
  norm_num

end Surface
end ParamFit
