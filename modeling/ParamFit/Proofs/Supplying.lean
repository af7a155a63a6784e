import ParamFit.Proofs.Chaining
import ParamFit.Proofs.Settling
import ParamFit.Proofs.Usable

/-! Derivatives that an objective provides. They are compared with differences and refused where these
differ by more than their doubt, which never happens to the derivatives of a quadratic objective. So a
search that is given them begins with them. -/
namespace ParamFit

structure Gradient.Supplies (g : Gradient ℝ) (slopes : Array ℝ) : Prop where
  slopes : g.slopes = slopes
  provided : g.provided

namespace Surface

/-! ### Derivatives that are provided -/

/- The slopes that an objective provides are its derivatives. -/
structure Provides (s : Surface ℝ) : Prop where
  slope : ∀ x : Array ℝ, x.size = s.space.dimension → ∀ k < s.space.dimension,
    s.objective.slope (s.space.place k) (s.space.external x) = s.tilt x k
  reads : ∀ x : Array ℝ, x.size = s.space.dimension → ∀ k < s.space.dimension,
    s.objective.slopeReads (s.space.place k) (s.space.external x) ≤ (s.space.external x).size

namespace Quadratic
variable {s : Surface ℝ} {h : Symmetric ℝ} {b : Array ℝ} {c : ℝ} (quadratic : s.Quadratic h b c)
  {fits : Prop} {p : Point ℝ} (size : p.x.size = s.space.dimension)
include quadratic size

theorem providedYields (provides : s.Provides) (t : Trace ℝ) :
    Yields fits (s.providedSlopes p) t 0 (· = tabulate s.space.dimension (s.tilt p.x)) := by
  have reads (_ : fits) := provides.reads p.x size
  refine .weaken (chainedYields size reads t) (le_refl 0) ?_
  rintro _ rfl
  refine tabulateSame.mpr fun k inside => ?_
  rw [chained, Space.slope, quadratic.unlimited k inside, provides.slope p.x size k inside]
  exact one_mul _

section
variable (fine : s.precision.Fine) (up : 0 < s.errorDef)
include fine up

theorem agrees {g provided : Gradient ℝ} (full : g.Full s.space.dimension)
    (steps : ∀ k < s.space.dimension, 0 < entry g.steps k)
    (true : provided.slopes = tabulate s.space.dimension (s.tilt p.x)) (t : Trace ℝ) :
    Yields fits (s.disagrees p provided g) t (s.space.dimension * 12) (· = false) := by
  refine .map ((quadratic.refinedShows size fine up full steps 2 t).weaken (le_refl _) ?_)
  rintro found ⟨-, -, covered⟩
  rw [true, size_tabulate, List.any_eq_false]
  intro k among
  have inside := List.mem_range.mp among
  rw [entry_tabulate _ inside, decide_eq_true_iff]
  exact not_lt.mpr (covered k inside)

end

/-! ### A start with provided derivatives -/

section
variable (fine : s.precision.Fine) (up : 0 < s.errorDef)
  (wide : ∀ k < s.space.dimension, 0 < s.errorOf k)
include up wide

omit size in
theorem guessRises (p : Point ℝ) : (s.guess p).curvesDown = false := by
  rw [Gradient.curvesDown, Array.any_eq_false]
  intro k among
  have inside : k < s.space.dimension := (s.guessFull p).curvatures ▸ among
  obtain ⟨-, curvature, -⟩ := guessFree inside (quadratic.unlimited k inside) (wide k inside) p
  have here : (s.guess p).curvatures[k] = entry (s.guess p).curvatures k := by simp [entry, among]
  have positive : 0 < 2 * s.errorDef / s.errorOf k ^ 2 :=
    div_pos (mul_pos two_pos up) (pow_pos (wide k inside) 2)
  rw [here, curvature, decide_eq_true_iff]
  exact not_le.mpr positive

include fine

/- No check takes the derivatives away. -/
theorem startGradientKept (provides : s.Provides) (st : Strategy ℝ) (check : GradientCheck) (t : Trace ℝ) :
    Yields fits (s.startGradient .provided st check p) t (s.space.dimension * 12) fun g =>
      g.Full s.space.dimension ∧ g.curvesDown = false ∧
        g.Supplies (tabulate s.space.dimension (s.tilt p.x)) := by
  have given : Yields fits (s.gradient .provided p) t 0
      (·.slopes = tabulate s.space.dimension (s.tilt p.x)) :=
    .map (quadratic.providedYields size provides t)
  have steps : ∀ k < s.space.dimension, 0 < entry (s.guess p).steps k := fun k inside =>
    (guessFree inside (quadratic.unlimited k inside) (wide k inside) p).2.2
  rw [startGradient, if_neg (by simp [GradientMethod.isProvided]), ← Nat.zero_add (s.space.dimension * 12)]
  refine .bind given fun g u slopes _ => ?_
  let provided := Gradient.supplied g.slopes (s.guess p).curvatures (s.guess p).steps
  have full : provided.Full s.space.dimension :=
    ⟨(congrArg Array.size slopes).trans (size_tabulate _ _), (s.guessFull p).curvatures,
      (s.guessFull p).steps⟩
  have answer : provided.Full s.space.dimension ∧ provided.curvesDown = false ∧
      provided.Supplies (tabulate s.space.dimension (s.tilt p.x)) :=
    ⟨full, quadratic.guessRises up wide p, slopes, rfl⟩
  refine .ite (fun _ => .skip rfl (.pure answer)) fun _ => ?_
  refine .bind (k := 0) (quadratic.agrees size fine up (s.guessFull p) steps slopes u) ?_
  rintro _ v rfl _
  exact .pure answer

end

end Quadratic

end Surface

/-! ### Second derivatives keep what is provided -/

section
variable {k : Knowledge ℝ} {supplied : Array ℝ} (supplies : k.gradient.Supplies supplied)
include supplies

theorem Hessian.matrixSupplies (s : Surface ℝ) (st : Strategy ℝ) (limit before : ℕ) :
    Gives (matrix s st k limit before) fun found => ∀ m g, found = .ok (m, g) → g.Supplies supplied := by
  have kept (h : Site ℝ) (g : Gradient ℝ) : Gives (slopes h k g) (·.Supplies supplied) :=
    .ite (fun _ => .pure ⟨supplies.slopes, rfl⟩) fun other => absurd supplies.provided other
  refine .bindAny (givesAny _) fun start => .bindAny (givesAny _) fun value => ?_
  refine .bindAny (givesAny _) fun ⟨rulers, failure⟩ => ?_
  cases failure with
  | some failure => exact .pure nofun
  | none =>
    refine .bind (kept _ _) fun g same => .bindAny (givesAny _) fun m => .pure ?_
    rintro _ _ ⟨⟩
    exact same

theorem Hessian.concludeSupplies (prec : Precision ℝ) (calls : ℕ)
    {found : Except (HessianFailure × Array ℝ) (Symmetric ℝ × Gradient ℝ)}
    (same : ∀ m g, found = .ok (m, g) → g.Supplies supplied) :
    (conclude k prec calls found).gradient.Supplies supplied := by
  cases found with
  | error failure => exact supplies
  | ok found =>
    have next := same found.1 found.2 rfl
    unfold conclude
    dsimp only
    split
    case h_1 => exact supplies
    case h_2 =>
      split
      · exact next
      · exact next

theorem Surface.secondDerivativesSupply (s : Surface ℝ) (st : Strategy ℝ) (limit : ℕ) :
    Gives (s.secondDerivatives st k limit) fun next => next.gradient.Supplies supplied := by
  refine .ite (fun _ => .pure supplies) fun _ => .counting fun before => ?_
  refine .bind (Hessian.matrixSupplies supplies s st _ _) fun found same => .counting fun calls => ?_
  exact .expect (.expect (.pure (Hessian.concludeSupplies supplies _ _ same)))

end

/-! ### The seed -/

namespace Surface

/- Where all calls are counted, nothing is lacking but room for twice their number. -/
theorem secondDerivativesCounted {s : Surface ℝ} {st : Strategy ℝ} {k next : Knowledge ℝ} {limit : ℕ}
    {t u : Trace ℝ} (sized : k.Sized s.space.dimension) (readable : s.Readable)
    (counted : k.calls = t.calls) (run : (s.secondDerivatives st k limit).run t = (next, u))
    (fit : Count.fits (2 * u.calls)) : u.sound = t.sound := by
  rcases Nat.eq_zero_or_pos k.size with none | varies
  · rw [secondDerivatives, if_pos none] at run
    cases run
    rfl
  · have room : Count.fits (k.calls + u.calls) = true := by
      obtain ⟨-, more⟩ := secondDerivativesCalls run
      exact Count.fitsBelow (by omega) fit
    rw [Bool.eq_iff_iff, secondDerivativesSound varies sized readable run, and_iff_left room]

section
variable {s : Surface ℝ} {h : Symmetric ℝ} {b : Array ℝ} {c : ℝ} (quadratic : s.Quadratic h b c)
  (fine : s.precision.Fine) (up : 0 < s.errorDef)
  (wide : ∀ k < s.space.dimension, 0 < s.errorOf k)
  (provides : s.Provides)
include quadratic fine up wide provides

theorem Quadratic.seedSupplies {state : FitState ℝ} (here : state.space = s.space) {st : Strategy ℝ}
    {check : GradientCheck} {seed : Seed ℝ} {t u : Trace ℝ}
    (run : (s.descentSeed .provided st check state).run t = (seed, u)) :
    seed.knowledge.gradient.Supplies (tabulate s.space.dimension (s.tilt s.space.internal)) ∧
      (Count.fits (2 * u.calls) → u.sound = t.sound) := by
  have same : state.space.dimension = s.space.dimension := congrArg Space.dimension here
  have width : s.space.internal.size = s.space.dimension := Space.sizeInternal s.space
  obtain ⟨p, v, started, run⟩ := Eval.runParts run
  have begins : Yields True (s.startPoint state) t 1 (·.x = s.space.internal) := by
    rw [startPoint, here]
    exact .map (.weaken (valueOnce (fun _ => quadratic.readable _ width) t) (le_refl 1) fun _ _ => rfl)
  obtain ⟨x, -, begun⟩ := begins.after started
  have size : p.x.size = s.space.dimension := (congrArg Array.size x).trans width
  obtain ⟨g, w, derived, run⟩ := Eval.runParts run
  have gradient : Yields True (s.startGradient .provided st check p) v _ _ :=
    quadratic.startGradientKept size fine up wide provides st check v
  obtain ⟨⟨full, rises, supplies⟩, -, kept⟩ := gradient.after derived
  rw [x] at supplies
  have rows := sizeStartError same full
  have covers : (startError state g).covers g = true := ErrorMatrix.coversSame (full.slopes.trans rows.symm)
  obtain ⟨k, w, known, run⟩ := Eval.runParts run
  obtain ⟨k, w, settles, run⟩ := Eval.runParts run
  cases known
  rw [settleStart, if_pos (by rw [rises]; rfl)] at settles
  cases settles
  have sound : ((Eval.expect ((startError state g).covers g)).run w).2.sound = t.sound := by
    rw [Eval.soundExpect, covers, Bool.and_true, kept trivial, begun trivial]
  split at run
  case isTrue refines =>
    let k : Knowledge ℝ := ⟨p, startError state g, g, (startError state g).edm g, w.calls⟩
    have supply : k.gradient.Supplies (tabulate s.space.dimension (s.tilt s.space.internal)) := supplies
    obtain ⟨next, last, refined, run⟩ := Eval.runParts run
    have kept := (secondDerivativesSupply supply s st 0).after refined
    have counted := secondDerivativesCounted ⟨size, full, rows⟩ quadratic.readable rfl refined
    cases run
    exact ⟨kept, fun fit => (counted fit).trans sound⟩
  case isFalse =>
    cases run
    exact ⟨supplies, fun _ => sound⟩

end

section
variable {s : Surface ℝ} {h : Symmetric ℝ} {b : Array ℝ} {c : ℝ} (quadratic : s.Quadratic h b c)
  {eps : ℝ} (positive : 0 < eps) (precise : s.precision = .ofEps eps) (up : 0 < s.errorDef)
include quadratic positive precise up

/- Derivatives of a quadratic objective are never refused. However a gradient was found before, none of the
slopes that settle is farther from the derivative than its doubt. So a search that is given the derivatives
begins with them, whatever the check does with those that are wrong. -/
theorem trueDerivativesKept :
    (∀ (level : ℕ) (p : Point ℝ) (g : Gradient ℝ) (t : Trace ℝ), p.x.size = s.space.dimension →
      g.Full s.space.dimension → (∀ k < s.space.dimension, 0 < entry g.steps k) →
      ∃ found doubt u, (s.refined (.ofLevel level) p g).run t = ((found, doubt), u) ∧ u.sound = t.sound ∧
        found.slopes.size = s.space.dimension ∧ doubt.size = s.space.dimension ∧
        ∀ k < s.space.dimension, |entry found.slopes k - s.tilt p.x k| ≤ entry doubt k) ∧
    (s.Provides → (∀ k < s.space.dimension, 0 < s.errorOf k) →
      ∀ (level : ℕ) (check : GradientCheck) (state : FitState ℝ) (t : Trace ℝ), state.space = s.space →
      ∃ seed u, (s.descentSeed .provided (.ofLevel level) check state).run t = (seed, u) ∧
        seed.knowledge.gradient.provided ∧
        seed.knowledge.gradient.slopes = tabulate s.space.dimension (s.tilt s.space.internal) ∧
        (Count.fits (2 * u.calls) → u.sound = t.sound)) := by
  have fine : s.precision.Fine := precise ▸ Precision.ofEpsFine positive
  refine ⟨fun level p g t size full steps => ?_, fun provides wide level check state t here => ?_⟩
  · obtain ⟨⟨found, doubt⟩, u, run, ⟨slopes, width, covered⟩, -, sound⟩ :=
      (quadratic.refinedShows size fine up full steps level t).ends
    have rows := (congrArg Array.size slopes).trans (size_tabulate _ _)
    exact ⟨found, doubt, u, run, sound, rows, width, covered⟩
  · obtain ⟨⟨seed, u⟩, run⟩ : ∃ answer,
        (s.descentSeed .provided (.ofLevel level) check state).run t = answer := ⟨_, rfl⟩
    obtain ⟨supplies, sound⟩ := quadratic.seedSupplies fine up wide provides here run
    exact ⟨seed, u, run, supplies.provided, supplies.slopes, sound⟩

end

theorem valleyProvides : valley.Provides where
  slope _ size _ inside := (valleyQuadratic.arcOf size inside).tilt.symm
  reads _ _ _ _ := Nat.zero_le _

/- At the lowest point of the valley. -/
theorem trueDerivativesKeptValley :
    let p : Point ℝ := .plain #[1] (valley.worth #[1])
    let g : Gradient ℝ := .numerical #[7] #[0] #[1]
    (0 : ℝ) < 2⁻¹ ^ 50 ∧ valley.precision = .ofEps (2⁻¹ ^ 50) ∧ 0 < valley.errorDef ∧
    p.x.size = valley.space.dimension ∧ g.Full valley.space.dimension ∧ 0 < entry g.steps 0 ∧
    valley.Provides ∧ 0 < valley.errorOf 0 ∧
    (∃ found doubt u, (valley.refined (.ofLevel 0) p g).run? {} = some ((found, doubt), u) ∧
      |entry found.slopes 0 - 0| ≤ entry doubt 0) ∧
    ∃ seed u, (valley.descentSeed .provided (.ofLevel 2) .reject (.ofSpace valley.space)).run {} =
        (seed, u) ∧ seed.knowledge.gradient.provided ∧ seed.knowledge.gradient.slopes = #[0] := by
  intro p g
  have positive : (0 : ℝ) < 2⁻¹ ^ 50 := by positivity
  have steps (k : ℕ) (inside : k < valley.space.dimension) : 0 < entry g.steps k := by
    obtain rfl : k = 0 := Nat.lt_one_iff.mp inside
    exact one_pos
  have flat : valley.tilt p.x 0 = 0 := (valleyArc 1).tilt.trans (by norm_num)
  obtain ⟨settles, begins⟩ := trueDerivativesKept valleyQuadratic positive rfl one_pos
  obtain ⟨found, doubt, u, run, sound, -, -, covered⟩ := settles 0 p g {} rfl ⟨rfl, rfl, rfl⟩ steps
  obtain ⟨seed, v, begun, provided, slopes, -⟩ :=
    begins valleyProvides valleyWide 2 .reject (.ofSpace valley.space) {} rfl
  refine ⟨positive, rfl, one_pos, rfl, ⟨rfl, rfl, rfl⟩, one_pos, valleyProvides, valleyWide 0 one_pos,
    ⟨found, doubt, u, Eval.runAnswers.mpr ⟨run, sound⟩, ?_⟩, seed, v, begun, provided, ?_⟩
  · have bound := covered 0 one_pos
    rwa [flat] at bound
  · exact slopes.trans ((tabulateOne _).trans (congrArg (#[·]) flat))

end Surface
end ParamFit
