import ParamFit.Proofs.Chasing
import ParamFit.Proofs.Convergence

/-! Minimizing where nothing varies. A search without coordinates asks once, at the declared values, and
is done: there is no slope to ask for, nothing to search along and no matrix to refine. So a chase along
one line that leaves nothing else to vary reads off a function of the step. -/
namespace ParamFit

/-! ### One call -/

namespace Surface
variable {s : Surface ℝ} {state : FitState ℝ} {st : Strategy ℝ}

/- A surface without coordinates, on which the declared values may be asked. -/
structure Frozen (s : Surface ℝ) (state : FitState ℝ) : Prop where
  here : s.space = state.space
  still : state.space.free = []
  reads : s.objective.reads state.space.values ≤ state.space.values.size

namespace Frozen
variable (frozen : s.Frozen state)
include frozen

theorem internal : state.space.internal = #[] := by rw [Space.internal, frozen.still]; rfl

theorem external (x : Array ℝ) : s.space.external x = state.space.values := by
  rw [frozen.here, Space.external, frozen.still]
  rfl

theorem dimension : s.space.dimension = 0 := by rw [frozen.here, Space.dimension, frozen.still]; rfl

theorem startPoint (t : Trace ℝ) :
    Yields True (s.startPoint state) t 1
      (· = Point.plain #[] (s.objective.value state.space.values)) := by
  rw [Surface.startPoint, frozen.internal]
  refine .map (.expect (fun _ => decide_eq_true (Nat.zero_le _)) fun u _ => ?_)
  rw [frozen.external]
  refine ⟨rfl, Nat.le_of_eq (s.callsExternalValue _ u), fun _ => ?_⟩
  rw [runExternalValue, decide_eq_true frozen.reads, Bool.and_true]

omit frozen in
theorem disagrees {provided guessed : Gradient ℝ} (none : provided.slopes = #[]) (v : ℝ)
    (t : Trace ℝ) : Yields True (s.disagrees (.plain #[] v) provided guessed) t 0 (· = false) := by
  have refined : Yields True (s.refined .high (.plain #[] v) guessed) t 0 fun _ => True := by
    refine .expect (fun _ => ?_) fun u _ => .pure trivial
    simp [Point.plain]
  refine .bind (n := 0) (k := 0) refined fun _ u _ _ => .pure ?_
  rw [none]
  rfl

/- The derivatives of no coordinate agree with any others. -/
theorem startGradient (check : GradientCheck) (v : ℝ) (t : Trace ℝ) :
    Yields True (s.startGradient .provided st check (.plain #[] v)) t 0 fun g =>
      g.slopes = #[] ∧ g.curvatures = #[] ∧ g.provided := by
  have flat : (s.guess (.plain #[] v)).curvatures = #[] := by
    simp [guess, frozen.dimension, tabulate, Axis.toGradient, Gradient.numerical]
  have slopes (u : Trace ℝ) : Yields True (s.providedSlopes (.plain #[] v)) u 0 (· = #[]) :=
    .expect (fun _ => decide_eq_true (Nat.zero_le _)) fun _ _ => .pure rfl
  have given (u : Trace ℝ) : Yields True (s.gradient .provided (.plain #[] v)) u 0 (· = .bare #[]) :=
    .map ((slopes u).weaken le_rfl fun _ same => by rw [same])
  rw [Surface.startGradient, if_neg (by simp [GradientMethod.isProvided])]
  refine .bind (n := 0) (k := 0) (given t) ?_
  rintro _ u rfl _
  have answer : (Gradient.supplied #[] (s.guess (.plain #[] v)).curvatures
      (s.guess (.plain #[] v)).steps).slopes = #[] ∧ (s.guess (.plain #[] v)).curvatures = #[] ∧
        true = true := ⟨rfl, flat, rfl⟩
  refine .ite (fun _ => .skip rfl (.pure answer)) fun _ => ?_
  refine .bind (n := 0) (k := 0) (disagrees rfl v u) ?_
  rintro _ w rfl _
  exact .pure answer

theorem startError {g : Gradient ℝ} (flat : g.curvatures = #[]) :
    (startError state g).isValid ∧ (startError state g).inverse.size = 0 := by
  rw [Surface.startError]
  split
  case isTrue known => exact ⟨rfl, known.2.trans (by rw [← frozen.here, frozen.dimension])⟩
  case isFalse =>
    refine ⟨rfl, ?_⟩
    simp [diagonalError, Gradient.inverseCurvatures, flat, ErrorMatrix.usable, Symmetric.ofDiagonal,
      Symmetric.build]

theorem seed (check : GradientCheck) (t : Trace ℝ) :
    Yields True (s.descentSeed .provided st check state) t 1 fun seed =>
      seed.space = state.space ∧
        seed.knowledge.point = .plain #[] (s.objective.value state.space.values) ∧
        seed.knowledge.error.isValid ∧ seed.knowledge.gradient.provided := by
  refine .bind (n := 1) (k := 0) (frozen.startPoint t) ?_
  rintro _ u rfl _
  refine .bind (n := 0) (k := 0) (frozen.startGradient check _ u) ?_
  rintro g v ⟨none, flat, provided⟩ _
  obtain ⟨usable, size⟩ := frozen.startError flat
  let p : Point ℝ := .plain #[] (s.objective.value state.space.values)
  have known : Yields True (know p (Surface.startError state g) g) v 0 fun k =>
      k.point = p ∧ k.error.isValid ∧ k.gradient = g :=
    .expect (fun _ => ErrorMatrix.coversSame (by rw [none, size]; rfl)) fun w _ =>
      .counting (.pure ⟨rfl, usable, rfl⟩)
  refine .bind (n := 0) (k := 0) known ?_
  rintro k w ⟨here, valid, rfl⟩ _
  have level : k.gradient.curvesDown = false := by
    simp [Gradient.curvesDown, flat]
  have settled : Yields True (s.settleStart .provided st k state.space.precision) w 0 (· = k) :=
    .ite (fun _ => .pure rfl) fun down => absurd (by rw [level]; rfl) down
  refine .bind (n := 0) (k := 0) settled ?_
  rintro _ x rfl _
  have nothing : ¬ (st.isHigh && !state.hasCovariance && decide (0 < state.space.dimension)) := by
    simp [← frozen.here, frozen.dimension]
  exact .ite (fun more => absurd more nothing) fun _ => .pure ⟨rfl, here, valid, provided⟩

end Frozen
end Surface

namespace Fit
variable {f : Fit ℝ}

/- A fit in which nothing varies. -/
structure Frozen (f : Fit ℝ) : Prop where
  descends : f.algorithm = .descent
  uses : f.settings.useDerivatives
  surface : f.surface.Frozen f.state

theorem Frozen.method (frozen : f.Frozen) : f.method = .provided := by
  rw [Fit.method, frozen.uses, Surface.providesAll, frozen.surface.here, frozen.surface.still]
  rfl

/- The search is over with its first call. -/
theorem Frozen.search (frozen : f.Frozen) {maxCalls : ℕ} (room : 1 < maxCalls) (tolerance : ℝ) :
    Yields True (f.searchFrom maxCalls tolerance) {} 1 fun min =>
      min.value = f.objective.value f.state.space.values ∧ min.isValid ∧ min.callLimit = false ∧
        min.state.space = f.state.space := by
  have begun : f.seed = f.surface.descentSeed .provided f.strategy f.settings.check f.state := by
    rw [Fit.seed, frozen.descends, frozen.method]
    rfl
  rw [Fit.searchFrom, begun]
  refine .bind (n := 1) (k := 0) (frozen.surface.seed f.settings.check {}) ?_
  rintro seed u ⟨here, point, valid, provided⟩ spent
  have few : u.calls ≤ 1 := spent
  refine .counting (.ite (fun spends => absurd spends (by omega)) fun _ => ?_)
  have method : f.methodFrom seed = .provided := by
    rw [Fit.methodFrom, frozen.method, provided]
    simp
  have barren : Descent.Barren seed := .inl (by rw [Knowledge.size, point]; rfl)
  have light : f.strategy.refines seed.knowledge = false := by
    rw [Strategy.refines, Knowledge.size, point]
    simp [Point.plain]
  have done : (f.surface.descend .provided seed f.strategy maxCalls (f.distance tolerance)).run u =
      (.ofSeed seed f.surface.errorDef, u) := Surface.descendBarren barren light u
  have space : (Minimum.ofSeed seed f.surface.errorDef).state.space = f.state.space := by
    rw [Minimum.state, FitState.ofKnowledgeSpace]
    change seed.knowledge.setParameters _ seed.space = _
    rw [Knowledge.setParameters, here, frozen.surface.still]
    rfl
  rw [method, frozen.descends]
  refine .settled done ⟨?_, ?_, rfl, space⟩
  · change seed.knowledge.point.value = _
    rw [point]
    rfl
  · have kept : (Minimum.ofSeed seed f.surface.errorDef).last = seed.knowledge := rfl
    rw [Minimum.isValid, kept, Knowledge.isValid, valid, ite_self]
    rfl

end Fit

/-! ### Along a line -/

/- A fit in which nothing varies beside the parameter that is led: what it asks is a function of the
step. -/
structure Lead.Alone (l : Lead ℝ) (curve : ℝ → ℝ) (error : ℝ) (f : Fit ℝ) : Prop where
  descends : f.algorithm = .descent
  uses : f.settings.useDerivatives
  valid : f.state.valid
  still : f.state.space.free = []
  inside : l.place < f.state.space.parameters.size
  value (a : ℝ) : f.objective.value (f.state.space.values.setIfInBounds l.place (l.spot a)) = curve a
  reads (a : ℝ) : f.objective.reads (f.state.space.values.setIfInBounds l.place (l.spot a)) ≤
    f.state.space.values.size
  error : (f.state.space.parameterAt l.place).error = error

namespace Lead.Alone
variable {l : Lead ℝ} {curve : ℝ → ℝ} {error : ℝ} {f : Fit ℝ} (alone : l.Alone curve error f)
include alone

theorem put (a : ℝ) : l.Alone curve error (l.put f a) where
  descends := alone.descends
  uses := alone.uses
  valid := alone.valid
  still := alone.still
  inside := (Array.size_modify ..).symm ▸ alone.inside
  value b := by
    change f.objective.value ((f.state.space.values.setIfInBounds _ _).setIfInBounds _ _) = curve b
    rw [Array.setIfInBounds_setIfInBounds]
    exact alone.value b
  reads b := by
    change f.objective.reads ((f.state.space.values.setIfInBounds _ _).setIfInBounds _ _) ≤
      (f.state.space.values.setIfInBounds _ _).size
    rw [Array.setIfInBounds_setIfInBounds, Array.size_setIfInBounds]
    exact alone.reads b
  error := by
    refine (congrArg Parameter.error (Space.parameterUpdate _ l.place l.place _)).trans ?_
    rw [apply_ite Parameter.error]
    exact (ite_self _).trans alone.error

theorem frozen (a : ℝ) : (l.put f a).Frozen where
  descends := alone.descends
  uses := alone.uses
  surface := ⟨rfl, alone.still, (alone.reads a).trans_eq Array.size_setIfInBounds.symm⟩

/- A minimization takes the value at the step and leaves the declarations as they are. -/
theorem minimize {maxCalls : ℕ} (room : 1 < maxCalls) (a tolerance : ℝ) (t : Trace ℝ) :
    ∃ g m u, ((l.put f a).minimizeWith maxCalls tolerance).run t = (.ok (g, m), u) ∧
      l.Alone curve error g ∧ g.state = m.state ∧ m.value = curve a ∧ m.isValid ∧
        m.callLimit = false ∧ u.sound = t.sound := by
  have allowance : (l.put f a).allowance maxCalls = maxCalls := if_neg (by omega)
  have run := Fit.minimizeRun (alone.put a).valid maxCalls tolerance t
  obtain ⟨⟨value, valid, within, space⟩, -, sound⟩ := (alone.frozen a).search room tolerance
  rw [allowance] at run
  generalize ((l.put f a).searchFrom maxCalls tolerance).run {} = r
    at run value valid within space sound
  obtain ⟨m, u⟩ := r
  have put := alone.put a
  refine ⟨_, m, _, run, ?_, rfl, value.trans (alone.value a), valid, within, ?_⟩
  · exact {
      descends := put.descends
      uses := put.uses
      valid := Minimum.stateValid valid
      still := space ▸ put.still
      inside := space ▸ put.inside
      value := space ▸ put.value
      reads := space ▸ put.reads
      error := space ▸ put.error }
  · have whole : u.sound = true := sound trivial
    rw [Trace.append, whole, Bool.and_true]

end Lead.Alone

namespace Hunt
variable {h : Hunt ℝ} {l : Lead ℝ} {curve : ℝ → ℝ} {error : ℝ} {tr : Tracker ℝ}

/- A trial that neither stays below the level at the limit nor falls below the base is answered. -/
theorem probeAlone (line : h.line = [l]) (room : 1 < h.maxCalls) (alone : l.Alone curve error tr.fit)
    {a : ℝ} {limited : Bool} (risen : limited → h.aim ≤ curve a)
    (high : h.profile.base - h.valueTolerance ≤ curve a) (t : Trace ℝ) :
    ∃ m tr' u, ((h.probe a limited).run.run tr).run t = ((.ok m, tr'), u) ∧
      l.Alone curve error tr'.fit ∧ tr'.fit.state = m.state ∧ m.value = curve a ∧
        u.sound = t.sound := by
  obtain ⟨g, m, u, run, next, state, value, valid, within, sound⟩ :=
    alone.minimize room a h.tolerance t
  refine ⟨m, ⟨g, tr.calls + m.calls, ⟨a, m.value, m.calls⟩ :: tr.trials⟩, u, ?_, next, state, value,
    sound⟩
  have above : (limited && decide (m.value < h.aim)) = false := by
    rw [value]
    cases limited with
    | false => rfl
    | true => exact decide_eq_false (not_lt.mpr (risen rfl))
  rw [probe, Chase.runGet, placed line alone.inside]
  dsimp only
  rw [Chase.runLift, run]
  dsimp only
  rw [Chase.runSet, if_neg (by simp [within]), if_neg (by simp [valid]), if_neg (by simp [above]),
    if_neg (by rw [value]; exact not_lt.mpr high)]
  rfl

end Hunt
end ParamFit
