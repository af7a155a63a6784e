import ParamFit.Proofs.Agreeing
import ParamFit.Proofs.Regression
import ParamFit.Proofs.Resting

/-! A minimum of two parameters that do not lean on each other. It is at zero, both errors are one, and the
objective is left open. Where the objective, with one parameter held at an end of its interval, is a parabola
about zero in the other, a minimization at that end is at rest, so it is known what a search on either side
gives back, what an interval is, and what a contour starts from. With both parameters held nothing is left
to vary, and a search through a point on the level ends there. -/
namespace ParamFit

namespace Surroundings

/- A minimum at the origin with errors of one, of an objective of two parameters. -/
noncomputable def basin (w : ℝ → ℝ → ℝ) : Surroundings ℝ :=
  let known : Knowledge ℝ := ⟨.plain #[0, 0] (w 0 0), .usable (.multiple 2 0.5) 0,
    .numerical #[0, 0] #[2.0, 2.0] #[0.01, 0.01], 0, 1⟩
  let space : Space ℝ := Space.empty.run [.add "x" 0 1, .add "y" 0 1]
  ⟨.plain fun v => w (entry v 0) (entry v 1), .ofSeed ⟨known, space⟩ 1, .medium⟩

/- Its value with one parameter held. -/
def slice (w : ℝ → ℝ → ℝ) (i : ℕ) (c v : ℝ) : ℝ := if i = 0 then w c v else w v c

namespace Basin
variable {w : ℝ → ℝ → ℝ} {i j k : ℕ}

theorem seedConsistent : (basin w).minimum.seed.space.Consistent :=
  Space.emptyConsistent.run fun a _ => Space.comparableExact a

theorem free : (basin w).state.space.free = [0, 1] := (basin w).minimum.stateMoved.free

theorem consistent : (basin w).state.space.Consistent :=
  (basin w).minimum.stateMoved.consistent seedConsistent

theorem size : (basin w).state.space.parameters.size = 2 := (basin w).minimum.stateMoved.size

theorem dimension : (basin w).state.space.dimension = 2 := congrArg List.length free

theorem placed (few : i < 2) : (basin w).state.space.place? i = some i := by
  rw [Space.place?, free]
  interval_cases i
  · rfl
  · rfl

theorem varies (few : i < 2) : i ∈ (basin w).state.space.free := List.mem_of_getElem? (placed few)

theorem here (few : i < 2) : (basin w).state.space.indexOf (.index i) = .ok i := if_pos (size.symm ▸ few)

theorem early (few : i < 2) : (basin w).minimum.seed.space.place? i = some i := by
  interval_cases i
  · rfl
  · rfl

theorem unlimited (i : ℕ) : ((basin w).minimum.seed.space.parameterAt i).limits = .free := by
  match i with
  | 0 => rfl
  | 1 => rfl
  | _ + 2 => rfl

theorem limits (i : ℕ) : ((basin w).state.space.parameterAt i).limits = .free :=
  ((basin w).minimum.stateMoved.limits i).trans (unlimited i)

theorem value (few : i < 2) : ((basin w).state.space.parameterAt i).value = 0 := by
  have space : (basin w).state.space = (basin w).minimum.last.setParameters 1 _ :=
    FitState.ofKnowledgeSpace ..
  rw [space, Knowledge.setParametersValue _ _ seedConsistent (early few)]
  interval_cases i
  · rfl
  · rfl

theorem error (few : i < 2) : ((basin w).state.space.parameterAt i).error = 1 := by
  have free : (basin w).minimum.seed.space.limits i = .free := by
    interval_cases i
    · rfl
    · rfl
  have half : (0.5 : ℝ) = 2⁻¹ := by norm_num
  have element : (basin w).minimum.last.error.inverse.element i i = 2⁻¹ :=
    (Symmetric.elementMultiple few few).trans ((if_pos rfl).trans half)
  have level : (basin w).minimum.errorDef = 1 := rfl
  rw [errorUnlimited seedConsistent (early few) free rfl, element, level, mul_one,
    mul_inv_cancel₀ two_ne_zero, Real.sqrt_one]

theorem searched (few : i < 2) : (basin w).searched (.index i) = .ok (i, i) :=
  searchedPlaced consistent (here few) (placed few)

theorem start (few : i < 2) (side : Side) : (basin w).start side i = side.sign := by
  rw [Surroundings.start, value few, error few, mul_one]
  exact zero_add _

/-! ### One parameter held -/

/- A space in which one parameter is held and the other, at zero, is not. -/
structure Held (i j : ℕ) (c : ℝ) (t : Space ℝ) : Prop where
  consistent : t.Consistent
  free : t.free = [j]
  size : t.parameters.size = 2
  zero : (t.parameterAt j).value = 0
  held : (t.parameterAt i).value = c
  limits : ∀ k, (t.parameterAt k).limits = .free
  precision : t.precision = .machine

theorem Held.set {c : ℝ} {t : Space ℝ} (held : Held i j c t) (few : i < 2) (other : i ≠ j) (v : ℝ) :
    Held i j v (t.setValueAt i v) where
  consistent := held.consistent.setValueAt i v
  free := held.free
  size := (Array.size_modify ..).trans held.size
  zero := (congrArg Parameter.value (Space.parameterOther other (·.setValue v))).trans held.zero
  held := congrArg Parameter.value
    (Space.parameterHere (s := t) (held.size.symm ▸ few) (·.setValue v))
  limits k := by
    have same := Space.SameLimits.setValueAt t i v
    rw [Parameter.limits, same.lower, same.upper]
    exact held.limits k
  precision := held.precision

theorem Held.fixed {r t : Space ℝ} (consistent : r.Consistent) (free : r.free = [0, 1])
    (size : r.parameters.size = 2) (zero : (r.parameterAt j).value = 0)
    (limits : ∀ k, (r.parameterAt k).limits = .free) (precision : r.precision = .machine) (few : i < 2)
    (more : j < 2) (other : i ≠ j) (fixed : r.fix (.index i) = .ok t) :
    Held i j (r.parameterAt i).value t := by
  have sound := consistent.fix fixed
  have same := Space.SameLimits.fix fixed
  have varies : i ∈ r.free := by
    rw [free]
    interval_cases i
    · exact .head _
    · exact .tail _ (.head _)
  rw [Space.fixVarying consistent varies] at fixed
  cases fixed
  refine ⟨sound, ?_, same.size.trans size, ?_, ?_, fun k => ?_, precision⟩
  · change r.free.erase i = [j]
    rw [free]
    interval_cases i <;> interval_cases j <;> first | rfl | exact absurd rfl other
  · exact (congrArg Parameter.value (Space.parameterOther other Parameter.fix)).trans zero
  · have here := Space.parameterHere (s := r) (size.symm ▸ few) Parameter.fix
    exact (congrArg Parameter.value here).trans rfl
  · rw [Parameter.limits, same.lower, same.upper]
    exact limits k

theorem precise : (basin w).state.space.precision = .machine := (basin w).minimum.stateMoved.precision

/- The state that a search on one side begins with. -/
theorem beside (few : i < 2) (more : j < 2) (other : i ≠ j) (side : Side) (rise : ℝ) :
    ∃ t, (basin w).beside side i i rise = .ok t ∧ t.valid ∧ Held i j side.sign t.space := by
  have rows : (basin w).minimum.last.error.inverse.size = (basin w).state.space.dimension :=
    dimension.symm
  obtain ⟨valid, moved⟩ := (basin w).followMoved side i i rise rows.le
  obtain ⟨u, done, same, fixed⟩ :=
    FitState.fixVarying (moved.consistent consistent) (moved.free.symm ▸ varies few)
  have zero : ((((basin w).follow side i i rise).space).parameterAt j).value = 0 := by
    have away : (basin w).away ((basin w).follow side i i rise) j = (basin w).shift side i i rise j :=
      followAway consistent rows (dimension.symm ▸ more) other.symm
    have element : (basin w).minimum.last.error.inverse.element j i = 0 :=
      (Symmetric.elementMultiple more few).trans (if_neg other.symm)
    have place : (basin w).state.space.place j = j := by
      rw [Space.place, List.getD_eq_getElem?_getD]
      exact congrArg (Option.getD · 0) (placed more)
    rw [Surroundings.away, place, value more, sub_zero, shiftElement few more, element, mul_zero,
      mul_zero, mul_zero] at away
    exact away
  have held := Held.fixed (moved.consistent consistent) (moved.free.trans free) (moved.size.trans size)
    zero (fun k => (moved.limits k).trans (limits k)) (moved.precision.trans precise) few more other fixed
  refine ⟨{ u with space := u.space.setValueAt i ((basin w).start side i) }, ?_, same.trans valid, ?_⟩
  · rw [Surroundings.beside, done]
    rfl
  · exact start (w := w) few side ▸ held.set few other _

noncomputable def fit (w : ℝ → ℝ → ℝ) (t : FitState ℝ) : Fit ℝ := ((basin w).profile t 0).inner

section
variable {t : FitState ℝ} {c : ℝ} (held : Held i j c t.space) (few : i < 2) (more : j < 2)
  (other : i ≠ j)
include held few more other

omit few more other in
theorem internal : t.space.internal = #[0] := by
  have listed : t.space.internal = #[t.space.toInternal j (t.space.parameterAt j).value] := by
    rw [Space.internal, held.free]
    rfl
  rw [listed, held.zero, Space.toInternal, held.limits]
  rfl

theorem worth (v : ℝ) : (fit w t).surface.worth #[v] = slice w i c v := by
  have there : t.space.place? 0 = some j := by rw [Space.place?, held.free]; rfl
  have one : #[v].size = t.space.dimension := (congrArg List.length held.free).symm
  have moving := Space.externalAt held.consistent one there
  rw [held.limits] at moving
  have fixed : i ∉ t.space.free := by
    rw [held.free, List.mem_singleton]
    exact other
  have standing : (t.space.external #[v])[i]? = some c := by
    rw [Space.externalKept fixed, held.consistent.cached, Array.getElem?_map,
      Space.declaredHere (held.size.symm ▸ few), Option.map_some, held.held]
  have led : entry (t.space.external #[v]) i = c := by
    rw [entry, Array.getD_eq_getD_getElem?, standing, Option.getD_some]
  have free : entry (t.space.external #[v]) j = v := by
    rw [entry, Array.getD_eq_getD_getElem?, moving, Option.getD_some]
    rfl
  change w (entry (t.space.external #[v]) 0) (entry (t.space.external #[v]) 1) = _
  rw [slice]
  interval_cases i <;> interval_cases j
  · exact absurd rfl other
  · rw [led, free, if_pos rfl]
  · rw [led, free, if_neg one_ne_zero]
  · exact absurd rfl other

variable {b : ℝ} (positive : 0 < b) (bends : ∀ v, slice w i c v = slice w i c 0 + b / 2 * v ^ 2)
include positive bends

/- With the other parameter at zero, a fit begins at rest. -/
theorem resting : (fit w t).Resting where
  descends := rfl
  light := rfl
  bare := by
    have none : (fit w t).surface.providesAll = false := by
      change t.space.free.all (fun _ => false) = false
      rw [held.free]
      rfl
    rw [Fit.method, none, Bool.and_false]
    rfl
  level := zero_le_one
  surface := {
    here := rfl
    fine := by
      have same : (fit w t).surface.precision = .machine := held.precision
      rw [same]
      exact Precision.ofEpsFine (by positivity : (0 : ℝ) < 2⁻¹ ^ 50)
    readable := fun x size => ⟨size.le, Nat.zero_le _⟩
    flat := fun k inside => by
      have first : k < 1 := inside.trans_eq (congrArg List.length held.free)
      obtain rfl : k = 0 := Nat.lt_one_iff.mp first
      refine ⟨b, positive, ⟨fun d => ?_⟩⟩
      have moved : t.space.internal.setIfInBounds 0 (entry t.space.internal 0 + d) = #[d] := by
        rw [internal held]
        exact congrArg (#[·]) (zero_add d)
      change (fit w t).surface.worth (t.space.internal.setIfInBounds 0 (entry t.space.internal 0 + d)) =
        (fit w t).surface.worth t.space.internal + 0 * d + b / 2 * d ^ 2
      rw [moved, internal held, worth held few more other, worth held few more other, bends d]
      ring }

theorem minimized (valid : t.valid) {maxCalls : ℕ} {tolerance : ℝ} (some : 0 ≤ tolerance)
    (room : maxCalls = 0 ∨ 30 < maxCalls) :
    ∃ g m asked, Eval.Adds ((fit w t).minimizeWith maxCalls tolerance) (.ok (g, m)) asked ∧ m.isValid ∧
      m.value = slice w i c 0 ∧ (m.state.space.parameterAt j).value = 0 ∧ m.calls ≤ 5 := by
  have one : (fit w t).state.space.dimension = 1 := congrArg List.length held.free
  have enough : 1 + (fit w t).state.space.dimension * 4 + LineSearch.maxCalls <
      (fit w t).allowance maxCalls := by
    rw [Fit.allowance, one]
    obtain rfl | most := room
    · decide
    · rw [if_neg (by omega)]
      exact most
  obtain ⟨g, m, asked, adds, sound, value, here, x, calls⟩ :=
    (resting held few more other positive bends).minimize valid some enough
  rw [one] at calls
  have there : m.seed.space.place? 0 = .some j := by
    rw [here, Space.place?]
    exact congrArg (·[0]?) held.free
  have stands := Minimum.standsAt (here ▸ held.consistent) (x.trans (congrArg Space.internal here.symm))
    there (here ▸ held.limits j)
  have zero : (m.seed.space.parameterAt j).value = 0 := here ▸ held.zero
  refine ⟨g, m, asked, adds, sound, ?_, stands.trans zero, calls⟩
  rw [value]
  exact (congrArg _ (internal held)).trans (worth held few more other 0)

end

section
variable (few : i < 2) (more : j < 2) (other : i ≠ j) {side : Side} {b : ℝ} (positive : 0 < b)
  (bends : ∀ v, slice w i side.sign v = slice w i side.sign 0 + b / 2 * v ^ 2)
include few more other positive bends

/- A search on one side makes its first trial at rest, one error away from the minimum. -/
theorem firstTrial : ∃ (h : Hunt ℝ) (f g : Fit ℝ) (m : Minimum ℝ) (asked : Trace ℝ),
    h.place h.profile.inner 0 = .ok f ∧
    (∀ t, (f.minimizeWith h.maxCalls h.tolerance).run t = (.ok (g, m), t.append asked)) ∧ m.isValid ∧
    m.value = slice w i side.sign 0 ∧ m.calls ≤ 5 ∧
    h.profile.base = w 0 0 ∧ h.profile.rise = 1 ∧ h.tolerance = 1 / 10 ∧ h.limit = 100 ∧
    ∀ c tr t, ((Approach.search h).run.run ⟨h.profile.inner, 0, []⟩).run t =
        ((.error c, tr), t.append asked) →
      ((basin w).crossing side (.index i) 1 0).run.run t = (.ok c, t.append asked) := by
  obtain ⟨t, put, valid, held⟩ := beside (w := w) few more other side ((basin w).rise 1)
  let l := (basin w).lead side i
  let h : Hunt ℝ := ⟨(basin w).profile t ((basin w).rise 1), [l], tolerance, (basin w).budget 0, 100.0⟩
  have inside : i < t.space.parameters.size := held.size.symm ▸ few
  have spot : l.spot 0 = side.sign := by
    rw [Lead.spot, zero_mul, add_zero]
    exact start few side
  let u : FitState ℝ := { t with space := t.space.setValueAt i (l.spot 0) }
  have led : Held i j side.sign u.space := spot ▸ held.set few other (l.spot 0)
  have room : h.maxCalls = 0 ∨ 30 < h.maxCalls := by
    right
    change 30 < (basin w).budget 0
    rw [budget, dimension]
    decide
  have some : 0 ≤ h.tolerance := tolerancePos.le
  obtain ⟨g, m, asked, adds, sound, value, -, calls⟩ :=
    minimized led few more other positive bends valid some room
  have longest : Hunt.longestStep t.space [l] = .some 100.0 :=
    Hunt.longestStepFree (List.forall_mem_singleton.mpr ⟨inside, held.limits i⟩)
  refine ⟨h, l.put h.profile.inner 0, g, m, asked, Hunt.placed rfl inside 0, adds, sound, value, calls,
    rfl, ?_, ?_, ?_, fun c tr v ended => ?_⟩
  · exact mul_one 1
  · change (0.1 : ℝ) = 1 / 10
    norm_num
  · change (100.0 : ℝ) = 100
    norm_num
  · rw [crossingRun (searched few) put, Profile.chaseEnd longest ended]

theorem crossingRests (level : slice w i side.sign 0 = w 0 0 + 1) :
    ∃ c asked, Attempt.Adds ((basin w).crossing side (.index i) 1 0) c asked ∧ c.At i 0 1 ∧
      c.calls ≤ 5 := by
  obtain ⟨h, f, g, m, asked, put, run, sound, value, calls, base, rise, tolerance, -, ended⟩ :=
    firstTrial few more other positive bends
  have aim : m.value = h.aim := by rw [value, level, Hunt.aim, base, rise]
  let c : Crossing ℝ := ⟨0, m.state, 0 + m.calls, .found⟩
  have adds : Attempt.Adds ((basin w).crossing side (.index i) 1 0) c asked := fun t =>
    ended c _ t (Hunt.searchMet put (run t) sound aim (by rw [rise]; exact one_pos)
      (by rw [tolerance]; norm_num))
  obtain ⟨d, also, again, retains⟩ :=
    crossingRetains (s := basin w) consistent (varies few) side 1 0
  obtain ⟨same, -⟩ := Eval.Adds.unique again (adds {})
  obtain rfl : c = d := Except.ok.inj same
  refine ⟨c, asked, adds, ⟨rfl, rfl, retains.inside, retains.error.trans (error few)⟩, ?_⟩
  change 0 + m.calls ≤ 5
  omega

theorem crossingUnder (low : slice w i side.sign 0 < w 0 0 - 1) :
    ∃ c asked, Attempt.Adds ((basin w).crossing side (.index i) 1 0) c asked ∧
      c.verdict = .lowerMinimum := by
  obtain ⟨h, f, g, m, asked, put, run, sound, value, -, base, rise, tolerance, limit, ended⟩ :=
    firstTrial few more other positive bends
  have near : h.valueTolerance < 1 := by
    change 0.1 * h.tolerance < 1
    rw [tolerance]
    norm_num
  refine ⟨⟨0, m.state, 0 + m.calls, .lowerMinimum⟩, asked, fun t => ended _ _ t
    (Hunt.searchUnder put (run t) sound ?_ ?_), rfl⟩
  · rw [value, base]
    linarith
  · rw [tolerance, limit]
    norm_num

end

theorem performValue {t : FitState ℝ} (inside : i < t.space.parameters.size) (v : ℝ) :
    (fit w t).perform (.setValue (.index i) v) =
      .ok (fit w { t with space := t.space.setValueAt i v }) := by
  have here : t.space.indexOf (.index i) = .ok i := if_pos inside
  rw [Fit.perform]
  change Except.map _ (t.space.setValue (.index i) v >>= _) = _
  rw [Space.setValue, here]
  rfl

section
variable (few : i < 2) (more : j < 2) (other : i ≠ j)
include few more other

theorem cardinalRests {side : Side} {b : ℝ} (positive : 0 < b)
    (bends : ∀ v, slice w i side.sign v = slice w i side.sign 0 + b / 2 * v ^ 2) :
    ∃ spent asked, Attempt.Adds ((basin w).cardinal i side.sign j) (some 0, spent) asked ∧ spent ≤ 5 := by
  obtain ⟨u, done, same, fixed⟩ := FitState.fixVarying (s := (basin w).state) consistent (varies few)
  have once := Held.fixed consistent free size (value more) limits precise few more other fixed
  have held := once.set few other side.sign
  let t : FitState ℝ := { u with space := u.space.setValueAt i side.sign }
  have pinned : (basin w).pinned i side.sign = .ok (fit w t) := by
    have first : ((basin w).profile (basin w).state 0).inner.perform (.fix (.index i)) =
        .ok (fit w u) := congrArg (Except.map _) done
    rw [Surroundings.pinned, first]
    exact performValue (once.size.symm ▸ few) side.sign
  have some : (0 : ℝ) ≤ 0.1 := by norm_num
  obtain ⟨g, m, asked, adds, sound, -, zero, calls⟩ :=
    minimized (t := t) held few more other positive bends (same.trans rfl) some (.inl rfl)
  refine ⟨m.calls, asked, .known pinned (.made adds ?_), calls⟩
  dsimp only
  rw [if_pos sound, zero]

variable (level : ∀ side : Side, slice w i side.sign 0 = w 0 0 + 1)
  (bends : ∀ side : Side, ∃ b > 0, ∀ v, slice w i side.sign v = slice w i side.sign 0 + b / 2 * v ^ 2)
include level bends

theorem intervalMet : ∃ n asked, Attempt.Adds ((basin w).interval (.index i) 1 0) n asked ∧
    n.isValid ∧ n.range = (-1, 1) ∧ n.calls ≤ 10 := by
  have crossed (side : Side) : ∃ c asked, Attempt.Adds ((basin w).crossing side (.index i) 1 0) c asked ∧
      c.At i 0 1 ∧ c.calls ≤ 5 := by
    obtain ⟨b, positive, bend⟩ := bends side
    exact crossingRests few more other positive bend (level side)
  obtain ⟨upper, asked, above, high, calls⟩ := crossed .upper
  obtain ⟨lower, also, below, low, spent⟩ := crossed .lower
  refine ⟨_, _, intervalAdds (here few) above below, ?_, ?_, ?_⟩
  · simp [Interval.isValid, low.valid, high.valid]
  · rw [Interval.rangeAt low high, one_mul, add_zero]
  · change lower.calls + upper.calls ≤ 10
    omega

end

/-! ### Both parameters held -/

/- With both parameters held, nothing varies. -/
structure Still (t : FitState ℝ) : Prop where
  valid : t.valid
  free : t.space.free = []
  size : t.space.parameters.size = 2
  cells : t.space.values.size = 2
  limits : ∀ k, (t.space.parameterAt k).limits = .free

theorem bothHeld : ∃ t, ((basin w).state.fix (.index 0) >>= fun t => t.fix (.index 1)) = .ok t ∧
    Still t := by
  obtain ⟨u, once, valid, fixed⟩ :=
    FitState.fixVarying (s := (basin w).state) consistent (varies two_pos)
  have held := Held.fixed (j := 1) consistent free size (value one_lt_two) limits precise two_pos
    one_lt_two zero_ne_one fixed
  have left : 1 ∈ u.space.free := held.free ▸ .head _
  obtain ⟨t, twice, same, fixed⟩ := FitState.fixVarying held.consistent left
  have like := Space.SameLimits.fix fixed
  have sound := held.consistent.fix fixed
  have few : t.space.parameters.size = 2 := like.size.trans held.size
  refine ⟨t, ?_, ⟨(same.trans valid).trans rfl, ?_, few, ?_, fun k => ?_⟩⟩
  · rw [once]
    exact twice
  · rw [Space.fixVarying held.consistent left] at fixed
    rw [← Except.ok.inj fixed]
    change u.space.free.erase 1 = []
    rw [held.free]
    rfl
  · rw [sound.cached, Array.size_map, few]
  · rw [Parameter.limits, like.lower, like.upper]
    exact held.limits k

/- Both parameters put somewhere. -/
def put (t : FitState ℝ) (a b : ℝ) : FitState ℝ :=
  { t with space := (t.space.setValueAt 0 a).setValueAt 1 b }

section
variable {t : FitState ℝ} (still : Still t) (a b : ℝ)
include still

theorem putValue : (fit w (put t a b)).objective.value (put t a b).space.values = w a b := by
  have first : entry (put t a b).space.values 0 = a := by
    change entry ((t.space.values.setIfInBounds 0 a).setIfInBounds 1 b) 0 = a
    simp [entry, still.cells]
  have second : entry (put t a b).space.values 1 = b := by
    change entry ((t.space.values.setIfInBounds 0 a).setIfInBounds 1 b) 1 = b
    simp [entry, still.cells]
  exact congrArg₂ w first second

theorem putPerformed : ((fit w t).perform (.setValue (.index 0) a) >>= fun f =>
    f.perform (.setValue (.index 1) b)) = .ok (fit w (put t a b)) := by
  rw [performValue (still.size ▸ two_pos) a]
  exact performValue ((Array.size_modify ..).symm ▸ still.size ▸ one_lt_two) b

end

/- A search along any line through a point on the level ends with its first trial. -/
theorem stillMet {t : FitState ℝ} (still : Still t) {a b : ℝ} (level : w a b = w 0 0 + 1)
    (da db : ℝ) {tolerance : ℝ} (positive : 0 < tolerance) {maxCalls : ℕ} (room : 1 < maxCalls) :
    ∃ c asked, Eval.Adds (((basin w).profile t ((basin w).rise 1)).crossing [0, 1] [a, b] [da, db]
      tolerance maxCalls) c asked ∧ c.isValid ∧ c.value = 0 := by
  let line : List (Lead ℝ) := [⟨0, a, da⟩, ⟨1, b, db⟩]
  let h : Hunt ℝ := ⟨(basin w).profile t ((basin w).rise 1), line, tolerance, maxCalls, 100.0⟩
  let tr : Tracker ℝ := ⟨h.profile.inner, 0, []⟩
  let f : Fit ℝ := fit w (put t (a + 0 * da) (b + 0 * db))
  have placed : h.place tr.fit 0 = .ok f := by
    rw [Hunt.place, ← putPerformed still]
    exact congrArg _ (funext fun _ => bind_pure _)
  have longest : Hunt.longestStep t.space line = some 100.0 := by
    refine Hunt.longestStepFree (List.forall_mem_cons.mpr ⟨⟨still.size ▸ two_pos, still.limits 0⟩, ?_⟩)
    exact List.forall_mem_singleton.mpr ⟨still.size ▸ one_lt_two, still.limits 1⟩
  have frozen : f.Frozen := ⟨rfl, rfl, rfl, still.free, Nat.zero_le _⟩
  have rise : h.profile.rise = 1 := mul_one 1
  have value : f.objective.value f.state.space.values = h.aim := by
    refine (putValue still _ _).trans ?_
    rw [zero_mul, zero_mul, add_zero, add_zero, level, Hunt.aim, rise]
    rfl
  obtain ⟨m, v, run, ⟨same, sound, -, -⟩, -⟩ := (frozen.search room tolerance).ends
  have minimized := Fit.minimizeRun (f := f) still.valid maxCalls tolerance
  have most : f.allowance maxCalls = maxCalls := if_neg (by omega)
  rw [most, run] at minimized
  refine ⟨⟨0, m.state, 0 + m.calls, .found⟩, v, fun x => ?_, rfl, rfl⟩
  have ended := Hunt.searchMet placed (minimized x) sound (same.trans value)
    (by rw [rise]; exact one_pos) positive
  have chased := Profile.chaseEnd longest ended
  rw [Profile.crossing, if_pos ⟨rfl, rfl⟩]
  change (let r := (h.profile.chase line tolerance maxCalls).run x; (r.1.1, r.2)) = _
  rw [chased]

theorem places : (basin w).contourPlaces (.index 0) (.index 1) 5 = .ok (0, 1) := by
  rw [contourPlaces, here two_pos, here one_lt_two]
  rfl

end Basin
end Surroundings
end ParamFit
