import ParamFit.Proofs.Adding
import ParamFit.Proofs.Differences
import ParamFit.Proofs.Frozen

/-! A search that begins where nothing slopes. Differences show that, so the quadratic model leads nowhere,
a line search along no step gives back what was known, and the search ends where it began, with a minimum
that is valid. A search for a crossing whose first trial does so ends with it, if the level lies there or
the base lies above. -/
namespace ParamFit

/-! ### No slope -/

section
variable {g : Array ℝ} (flat : ∀ k, entry g k = 0)
include flat

theorem Symmetric.mulVecFlat (m : Symmetric ℝ) (i : ℕ) : entry (m.mulVec g) i = 0 := by
  by_cases inside : i < g.size
  · rw [mulVecExact inside]
    exact Finset.sum_eq_zero fun j _ => by rw [flat, mul_zero]
  · exact entry_outside (by rw [sizeMulVec]; exact not_lt.mp inside)

theorem Symmetric.quadraticFlat (m : Symmetric ℝ) : m.quadratic g = 0 := by
  rw [quadraticExact]
  exact Finset.sum_eq_zero fun i _ => Finset.sum_eq_zero fun j _ => by rw [flat j, mul_zero]

end

theorem ErrorMatrix.edmFlat {g : Gradient ℝ} (flat : ∀ k, entry g.slopes k = 0) (e : ErrorMatrix ℝ) :
    e.edm g = 0 := by
  rw [edm]
  split
  case isTrue =>
    dsimp only
    rw [flat, mul_zero, zero_mul]
  case isFalse => rw [Symmetric.quadraticFlat flat, mul_zero]

/- A point of which all is known that a search at rest needs. -/
structure Knowledge.Rests (k : Knowledge ℝ) (p : Point ℝ) : Prop where
  point : k.point = p
  slopes : k.gradient.slopes = tabulate p.x.size fun _ => 0
  usable : k.error.isValid
  rows : k.error.inverse.size = p.x.size

namespace Knowledge.Rests
variable {k : Knowledge ℝ} {p : Point ℝ} (rests : k.Rests p)
include rests

theorem flat (i : ℕ) : entry k.gradient.slopes i = 0 := by
  rw [rests.slopes]
  by_cases inside : i < p.x.size
  · exact entry_tabulate _ inside
  · exact entry_outside (by rw [size_tabulate]; exact not_lt.mp inside)

theorem stepSize : k.newtonStep.size = p.x.size := by
  rw [Knowledge.newtonStep, Array.size_map, Symmetric.sizeMulVec, rests.slopes, size_tabulate]

theorem stepFlat (i : ℕ) : entry k.newtonStep i = 0 := by
  by_cases inside : i < k.newtonStep.size
  · rw [Knowledge.newtonStep, Array.size_map] at inside
    rw [Knowledge.newtonStep, Vector.entryMap _ inside, Symmetric.mulVecFlat rests.flat]
    exact neg_zero
  · exact entry_outside (not_lt.mp inside)

theorem level : k.slopeAlong k.newtonStep = 0 := by
  rw [slopeOfStep, Symmetric.quadraticFlat rests.flat, neg_zero]

theorem valid : k.isValid := by rw [Knowledge.isValid, rests.usable, ite_self]

end Knowledge.Rests

theorem Point.alongFlat {p : Point ℝ} {step : Array ℝ} (size : step.size = p.x.size)
    (flat : ∀ i, entry step i = 0) (t : ℝ) : p.along step t = p.x := by
  have width : (p.along step t).size = p.x.size := by
    rw [along, Vector.sizeAdd, Vector.sizeScale, size, min_self]
  refine Vector.sameEntries width fun i inside => ?_
  rw [width] at inside
  rw [along, Vector.entryAdd inside (by rw [Vector.sizeScale, size]; exact inside), Vector.scale,
    Vector.entryMap _ (by rw [size]; exact inside), flat, Exact.mul, zero_mul, add_zero]

namespace Surface
section
variable {s : Surface ℝ} {fits : Prop} {p : Point ℝ}

theorem lineSearchFlat {step : Array ℝ} (size : step.size = p.x.size) (flat : ∀ i, entry step i = 0)
    (answers : s.Answers p.x) (known : p.value = s.worth p.x) (slope : ℝ) (prec : Precision ℝ)
    (t : Trace ℝ) :
    Yields fits (s.lineSearch p step slope prec) t LineSearch.maxCalls (·.y = p.value) := by
  have here (u : Trace ℝ) (x : ℝ) : Yields fits (s.value (p.along step x)) u 1 (· = p.value) := by
    rw [Point.alongFlat size flat, known]
    exact valueYields (fun _ => answers) u
  let c : LineSearch.Course ℝ := ⟨prec, p.value, slope, LineSearch.leastMultiple prec p.x step⟩
  have first (u : Trace ℝ) :
      (LineSearch.Progress.begin c ((s.value (p.along step 1)).run u).1).best.y = p.value := by
    rw [(here u 1).answer]
    change (if p.value < p.value then (⟨1, p.value⟩ : Sample ℝ) else ⟨0, p.value⟩).y = _
    rw [lowerSample, min_self]
  refine .expect (fun _ => by simp [size]) fun u _ => ?_
  refine (LineSearch.runKeeps (c := c) (fun x v => (here v x).weaken le_rfl fun _ same => same.ge)
    first u).weaken le_rfl ?_
  rintro best rfl
  exact first u

/- A surface that has no slope, but bends, where a state begins. -/
structure Resting (s : Surface ℝ) (state : FitState ℝ) : Prop where
  here : s.space = state.space
  fine : s.precision.Fine
  readable : s.Readable
  flat : ∀ k < s.space.dimension, ∃ c > 0, s.Arc state.space.internal k 0 c

namespace Resting
variable {state : FitState ℝ} (resting : s.Resting state)
include resting

omit resting in
/- Where it begins. -/
noncomputable def start (s : Surface ℝ) (state : FitState ℝ) : Point ℝ :=
  .plain state.space.internal (s.worth state.space.internal)

theorem width : (start s state).x.size = s.space.dimension :=
  (Space.sizeInternal state.space).trans (congrArg Space.dimension resting.here.symm)

theorem answers : s.Answers (start s state).x := resting.readable _ resting.width

theorem startGradient {st : Strategy ℝ} (sensible : st.Sensible) (check : GradientCheck) (t : Trace ℝ) :
    Yields fits (s.startGradient (.differences st) st check (start s state)) t
      (s.space.dimension * 4) fun g =>
      g.Full s.space.dimension ∧ g.slopes = (tabulate s.space.dimension fun _ => 0) ∧
        g.curvesDown = false := by
  have eps := resting.fine.eps
  let bend (k : ℕ) : ℝ := s.bend state.space.internal k
  have arcs (k : ℕ) (inside : k < s.space.dimension) : s.Arc (start s state).x k 0 (bend k) := by
    obtain ⟨c, -, arc⟩ := resting.flat k inside
    have same : bend k = c := arc.bend
    exact same.symm ▸ arc
  have guessed : Yields fits (s.guessed (start s state)) t 0 (· = s.guess (start s state)) :=
    guessedYields (fun _ => resting.width) t
  rw [← Nat.zero_add (s.space.dimension * 4)]
  refine .ite (fun _ => .bind guessed ?_) fun other => absurd rfl other
  rintro _ u rfl _
  have shows : Yields fits (s.differences st (start s state) (s.guess (start s state))) u
      (s.space.dimension * 4) fun g =>
      g.Shows s.space.dimension (fun _ => 0) bend (8 * s.precision.eps * s.precision.eps) :=
    Surface.differencesShow sensible resting.width (by positivity) le_rfl
      (fun _ y size => resting.readable y (size.trans resting.width)) rfl arcs (s.guessFull _)
      (fun _ _ _ => stepLeast _ _) (fun _ _ _ _ _ => stepLeast _ _) u
  refine shows.weaken le_rfl fun g shown => ?_
  refine ⟨⟨?_, ?_, shown.size⟩, shown.slopes, ?_⟩
  · rw [shown.slopes, size_tabulate]
  · rw [shown.curvatures, size_tabulate]
  rw [Gradient.curvesDown, shown.curvatures, Array.any_eq_false]
  intro k within
  obtain ⟨c, positive, arc⟩ := resting.flat k (within.trans_eq (size_tabulate ..))
  have same : (tabulate s.space.dimension bend)[k] = c := by
    simp [tabulate, bend, arc.bend]
  rw [same, decide_eq_true_iff]
  exact not_le.mpr positive

theorem seed (check : GradientCheck) (t : Trace ℝ) :
    Yields fits (s.descentSeed (.differences .low) .low check state) t
      (1 + s.space.dimension * 4) fun seed =>
      seed.space = state.space ∧ seed.knowledge.Rests (start s state) ∧ seed.knowledge.edm = 0 ∧
        seed.knowledge.calls ≤ t.calls + (1 + s.space.dimension * 4) := by
  have first : Yields fits (s.startPoint state) t 1 (· = start s state) :=
    .map ((valueYields (fun _ => resting.answers) t).weaken le_rfl fun _ same => by rw [same]; rfl)
  refine .bind first ?_
  rintro _ u rfl one
  refine .bind (n := s.space.dimension * 4) (k := 0)
    (resting.startGradient (Strategy.ofLevelSensible 0) check u) ?_
  rintro g v ⟨full, slopes, rises⟩ four
  have rows : (startError state g).inverse.size = s.space.dimension :=
    sizeStartError (congrArg Space.dimension resting.here.symm) full
  have usable : (startError state g).isValid := by
    rw [startError]
    split
    · rfl
    · rfl
  have rests (calls : ℕ) : Knowledge.Rests
      ⟨start s state, startError state g, g, (startError state g).edm g, calls⟩ (start s state) :=
    ⟨rfl, by rw [resting.width]; exact slopes, usable, rows.trans resting.width.symm⟩
  have known : Yields fits (know (start s state) (startError state g) g) v 0 fun k =>
      k.Rests (start s state) ∧ k.gradient = g ∧ k.edm = 0 ∧ k.calls = v.calls := by
    refine .expect (fun _ => ErrorMatrix.coversSame (full.slopes.trans rows.symm)) fun w same => ?_
    exact .counting (.pure ⟨rests _, rfl, ErrorMatrix.edmFlat (rests 0).flat _, same⟩)
  refine .bind (n := 0) (k := 0) known ?_
  rintro k w ⟨rest, rfl, level, calls⟩ _
  have settled : Yields fits (s.settleStart (.differences .low) .low k state.space.precision) w 0
      (· = k) :=
    .ite (fun _ => .pure rfl) fun down => absurd (by rw [rises]; rfl) down
  refine .bind (n := 0) (k := 0) settled ?_
  rintro k x rfl _
  have total : k.calls ≤ t.calls + (1 + s.space.dimension * 4) := by omega
  exact .ite (fun more => absurd more (by simp [Strategy.low, Strategy.isHigh])) fun _ =>
    .pure ⟨rfl, rest, level, total⟩

/- The first round leads nowhere. -/
theorem round {k : Knowledge ℝ} (rests : k.Rests (start s state)) (m : GradientMethod ℝ) (t : Trace ℝ) :
    Yields fits (Descent.round s m s.space.precision k) t LineSearch.maxCalls (· = .stuck) := by
  have rows : k.gradient.slopes.size = k.error.inverse.size := by
    rw [rests.slopes, size_tabulate, rests.rows]
  have aligns : Descent.aligned s.space.precision k = k :=
    if_neg (by rw [rests.level]; exact lt_irrefl _)
  refine .expect (fun _ => decide_eq_true rows.le) fun u _ => ?_
  rw [aligns]
  refine .ite (fun uphill => absurd uphill (by rw [rests.level]; exact lt_irrefl _)) fun _ => ?_
  have search : Yields fits
      (s.lineSearch k.point k.newtonStep (k.slopeAlong k.newtonStep) s.space.precision) u
      LineSearch.maxCalls (·.y = k.point.value) :=
    lineSearchFlat (by rw [rests.point, rests.stepSize]) rests.stepFlat
      (by rw [rests.point]; exact resting.answers) (by rw [rests.point]; rfl) _ _ u
  refine .bind (k := 0) search fun best v same _ => .ite (fun _ => .pure rfl) fun apart => ?_
  have eps := resting.fine.eps
  have near : Scalar.abs (best.y - k.value) < s.space.precision.eps := by
    rw [same, Knowledge.value, sub_self, Exact.abs, abs_zero]
    exact eps
  exact absurd near apart

theorem descend {seed : Seed ℝ} (space : seed.space = s.space)
    (rests : seed.knowledge.Rests (start s state)) (level : seed.knowledge.edm = 0)
    (m : GradientMethod ℝ) {maxCalls : ℕ} {edmval : ℝ} (positive : 0 ≤ edmval) (t : Trace ℝ)
    (left : t.calls + LineSearch.maxCalls < maxCalls) :
    Yields fits (s.descend m seed .low maxCalls edmval) t LineSearch.maxCalls
      (· = .ofSeed seed s.errorDef) := by
  have light (k : Knowledge ℝ) : (Strategy.low : Strategy ℝ).refines k = false := rfl
  have iterated : Yields fits (Descent.iterate s m seed maxCalls edmval) t LineSearch.maxCalls
      (· = .ofSeed seed s.errorDef) := by
    by_cases none : seed.knowledge.size = 0
    · rw [Descent.iterate]
      dsimp only
      rw [if_pos (.inl none)]
      exact .pure rfl
    · refine Descent.iterateStuck ?_ ?_ ?_ left
      · rintro (empty | negative)
        · exact none empty
        · rw [level] at negative
          exact lt_irrefl _ negative
      · rw [space]
        exact resting.round rests m t
      · rw [Descent.cautious, level]
        change (0 : ℝ) * _ ≤ edmval * 0.0001
        rw [zero_mul]
        positivity
  refine .bind (k := 0) iterated ?_
  rintro _ u rfl _
  rw [light]
  exact .pure rfl

end Resting
end
end Surface

namespace Fit
variable {f : Fit ℝ}

/- A fit with little work to do that begins where nothing slopes. -/
structure Resting (f : Fit ℝ) : Prop where
  descends : f.algorithm = .descent
  light : f.settings.strategy = 0
  bare : f.method = .differences f.strategy
  level : 0 ≤ f.settings.errorDef
  surface : f.surface.Resting f.state

namespace Resting
variable (resting : f.Resting)
include resting

theorem strategy : f.strategy = .low := by
  rw [Fit.strategy, resting.light]
  rfl

theorem search {maxCalls : ℕ} {tolerance : ℝ} (positive : 0 ≤ tolerance)
    (room : 1 + f.state.space.dimension * 4 + LineSearch.maxCalls < maxCalls) :
    Yields True (f.searchFrom maxCalls tolerance) {}
      (1 + f.state.space.dimension * 4 + LineSearch.maxCalls) fun min =>
      min.isValid ∧ min.seed.space = f.state.space ∧
        min.last.Rests (Surface.Resting.start f.surface f.state) ∧
        min.calls ≤ 1 + f.state.space.dimension * 4 := by
  have begun : f.seed = f.surface.descentSeed (.differences .low) .low f.settings.check f.state := by
    rw [Fit.seed, resting.descends, resting.bare, resting.strategy]
    rfl
  rw [Fit.searchFrom, begun]
  refine .bind (n := 1 + f.state.space.dimension * 4) (k := LineSearch.maxCalls)
    (resting.surface.seed f.settings.check {}) ?_
  rintro seed u ⟨here, rests, level, calls⟩ spent
  have few : u.calls ≤ 1 + f.state.space.dimension * 4 := spent.trans_eq (Nat.zero_add _)
  refine .counting (.ite (fun spends => absurd spends (by omega)) fun _ => ?_)
  have near : 0 ≤ f.distance tolerance := by
    rw [distance, Exact.max]
    exact le_max_of_le_left (mul_nonneg positive resting.level)
  rw [resting.descends, resting.strategy]
  refine (resting.surface.descend here rests level _ near u (by omega)).weaken le_rfl ?_
  rintro _ rfl
  have valid : seed.knowledge.isValid := rests.valid
  have kept : (Minimum.ofSeed seed f.surface.errorDef).last = seed.knowledge := rfl
  refine ⟨?_, here, rests, calls.trans_eq (Nat.zero_add _)⟩
  rw [Minimum.isValid, kept, valid]
  rfl

/- The minimum is valid and has the value at the start, and every parameter without limits stays. -/
theorem minimize (valid : f.state.valid) {maxCalls : ℕ} {tolerance : ℝ} (positive : 0 ≤ tolerance)
    (room : 1 + f.state.space.dimension * 4 + LineSearch.maxCalls < f.allowance maxCalls) :
    ∃ g m asked, Eval.Adds (f.minimizeWith maxCalls tolerance) (.ok (g, m)) asked ∧ m.isValid ∧
      m.value = f.surface.worth f.state.space.internal ∧ m.seed.space = f.state.space ∧
      m.last.point.x = f.state.space.internal ∧ m.calls ≤ 1 + f.state.space.dimension * 4 := by
  obtain ⟨m, u, run, ⟨sound, here, rests, calls⟩, -⟩ := (resting.search positive room).ends
  have minimized := Fit.minimizeRun valid maxCalls tolerance
  rw [run] at minimized
  exact ⟨_, m, u, minimized, sound, congrArg Point.value rests.point, here,
    congrArg Point.x rests.point, calls⟩

end Resting
end Fit

/- A coordinate without limits that stays leaves its parameter where it was. -/
theorem Minimum.standsAt {m : Minimum ℝ} (consistent : m.seed.space.Consistent)
    (stays : m.last.point.x = m.seed.space.internal) {k i : ℕ} (placed : m.seed.space.place? k = some i)
    (free : (m.seed.space.parameterAt i).limits = .free) :
    (m.state.space.parameterAt i).value = (m.seed.space.parameterAt i).value := by
  obtain ⟨inside, found⟩ := List.getElem?_eq_some_iff.mp placed
  have place : m.seed.space.place k = i := by rw [Space.place, List.getD_eq_getElem _ _ inside, found]
  have here : entry m.seed.space.internal k = (m.seed.space.parameterAt i).value := by
    have listed : entry m.seed.space.internal k = m.seed.space.toInternal i (m.seed.space.parameterAt i).value := by
      simp [entry, Space.internal, inside, found]
    rw [listed, Space.toInternal, free]
    rfl
  rw [state, FitState.ofKnowledgeSpace, Knowledge.setParametersValue _ _ consistent placed, stays, here,
    Space.toExternal, Space.limits, place, free]
  rfl

/-! ### A first trial that decides -/

namespace Hunt
variable {h : Hunt ℝ} {tr : Tracker ℝ} {f g : Fit ℝ} {m : Minimum ℝ} {t u : Trace ℝ}
  (put : h.place tr.fit 0 = .ok f)
  (run : (f.minimizeWith h.maxCalls h.tolerance).run t = (.ok (g, m), u)) (valid : m.isValid)
include put run valid

theorem probeValid (limited : Bool) (high : limited → h.aim ≤ m.value) :
    ((h.probe 0 limited).run.run tr).run t =
      if m.value < h.profile.base - h.valueTolerance then
        ((.error ⟨0, m.state, tr.calls + m.calls, .lowerMinimum⟩, tr.note g 0 m), u)
      else ((.ok m, tr.note g 0 m), u) := by
  obtain ⟨-, -, within⟩ := Descent.validUnflagged valid
  have above : (limited && decide (m.value < h.aim)) = false := by
    cases limited with
    | false => rfl
    | true => exact decide_eq_false (not_lt.mpr (high rfl))
  rw [probe, Chase.runGet, put]
  dsimp only
  rw [Chase.runLift, run]
  dsimp only
  rw [Chase.runSet, if_neg (by simp [within]), if_neg (by simp [valid]), if_neg (by simp [above])]
  split
  · rfl
  · rfl

/- A first trial that meets the level is the crossing. -/
theorem searchMet (level : m.value = h.aim) (rise : 0 < h.profile.rise) (tolerance : 0 < h.tolerance) :
    ((Approach.search h).run.run tr).run t =
      ((.error ⟨0, m.state, tr.calls + m.calls, .found⟩, tr.note g 0 m), u) := by
  have gap : 0 < h.valueTolerance := mul_pos (by norm_num) tolerance
  have aim : h.aim = h.profile.base + h.profile.rise := rfl
  have first := probeValid put run valid (decide (h.limit < 0 + h.tolerance)) fun _ => level.ge
  rw [if_neg (by rw [level, aim]; exact not_lt.mpr (by linarith))] at first
  have top : Approach.floored h m = h.aim := by
    rw [Approach.floored, level, Exact.max]
    refine max_eq_left ?_
    rw [aim]
    change h.profile.base + 0.1 * h.profile.rise ≤ _
    linarith
  have guess : Approach.quadraticGuess h h.aim = 0 := by
    have ratio : h.profile.rise / (h.aim - h.profile.base) = 1 := by
      rw [aim, add_sub_cancel_left, div_self rise.ne']
    rw [Approach.quadraticGuess, ratio]
    change √(1 : ℝ) - 1 = 0
    rw [Real.sqrt_one, sub_self]
  have near : Scalar.abs (Approach.floored h m - h.aim) < h.valueTolerance := by
    rw [top, sub_self, Exact.abs, abs_zero]
    exact gap
  rw [Approach.searchDecided first near, top, guess]
  rfl

/- A first trial below the base ends the search. -/
theorem searchUnder (low : m.value < h.profile.base - h.valueTolerance)
    (far : h.tolerance ≤ h.limit) :
    ((Approach.search h).run.run tr).run t =
      ((.error ⟨0, m.state, tr.calls + m.calls, .lowerMinimum⟩, tr.note g 0 m), u) := by
  have unlimited : decide (h.limit < 0 + h.tolerance) = false :=
    decide_eq_false (by simpa using far)
  have first := probeValid put run valid false (fun never => absurd never Bool.false_ne_true)
  rw [if_pos low] at first
  rw [Approach.search, unlimited]
  exact Chase.runEnd first

end Hunt
end ParamFit
