import ParamFit.Proofs.Adding
import ParamFit.Proofs.Ahead

/-! One end of an interval, asked for alone and asked for with the other. Alone, it is read off the
minimum; with the other, it is read off the state that its search left. Both are the same, because the
parameter that is led does not vary in the search, so its error there is the one that it has in the
minimum, and because no search changes a limit. -/
namespace ParamFit

/- With a limit, an external error is a length. -/
theorem Space.externalErrorNonneg {s : Space ℝ} {k : ℕ} (limited : s.limits k ≠ .free) (v err : ℝ) :
    0 ≤ s.externalError k v err := by
  have half {a b : ℝ} : (0 : ℝ) ≤ 0.5 * (|a| + |b|) := by positivity
  unfold externalError
  split
  case h_1 free => exact absurd free limited
  case h_2 => exact half
  case h_3 => exact half

namespace Surroundings
variable {s : Surroundings ℝ} {p : Address} {i : ℕ} {side : Side} {multiple : ℝ} {maxCalls : ℕ}

/-! ### The parameter that is led -/

/- What an interval reads off the state of a crossing, as it is in the minimum. -/
structure Retains (s : Surroundings ℝ) (i : ℕ) (c : Crossing ℝ) : Prop where
  inside : i < c.state.space.parameters.size
  error : (c.state.space.parameterAt i).error = (s.state.space.parameterAt i).error
  limits : s.state.space.SameLimits c.state.space

theorem crossingRetains (consistent : s.state.space.Consistent) (varies : i ∈ s.state.space.free)
    (side : Side) (multiple : ℝ) (maxCalls : ℕ) :
    ∃ c asked, Attempt.Adds (s.crossing side (.index i) multiple maxCalls) c asked ∧
      s.Retains i c := by
  have here : s.state.space.indexOf (.index i) = .ok i := if_pos (consistent.within varies)
  obtain ⟨k, -, found⟩ := searchedVarying consistent varies here
  obtain ⟨t, put, pinned⟩ := besidePinned consistent varies side k (s.rise multiple)
  have run := crossingRun found put maxCalls {}
  obtain ⟨asked, adds, -⟩ := (s.crossingBlind side (.index i) multiple maxCalls).adds run
  have limits := crossingLimits run
  have kept := Profile.chaseLasts (p := s.profile t (s.rise multiple))
    (Space.Pinned.lasting s.state.space i) pinned [s.lead side i] tolerance (s.budget maxCalls) {}
  exact ⟨_, asked, adds, limits.size.symm ▸ consistent.within varies, kept.error, limits⟩

/- A parameter that varies between limits has no negative error. -/
theorem errorNonneg (consistent : s.minimum.seed.space.Consistent) (varies : i ∈ s.state.space.free)
    (limited : (s.state.space.parameterAt i).limits ≠ .free) :
    0 ≤ (s.state.space.parameterAt i).error := by
  have moved := s.minimum.stateMoved
  obtain ⟨c, inside, found⟩ := List.mem_iff_getElem.mp (moved.free ▸ varies)
  have placed : s.minimum.seed.space.place? c = some i :=
    List.getElem?_eq_some_iff.mpr ⟨inside, found⟩
  have place : s.minimum.seed.space.place c = i := by
    rw [Space.place, List.getD_eq_getElem _ _ inside, found]
  have set := s.minimum.last.setParametersAt s.minimum.errorDef consistent placed
  have space : s.state.space = s.minimum.last.setParameters s.minimum.errorDef s.minimum.seed.space :=
    FitState.ofKnowledgeSpace ..
  rw [space, set]
  refine Space.externalErrorNonneg (fun free => limited ?_) _ _
  rw [Space.limits, place] at free
  exact (moved.limits i).trans free

/- A search that ends at a limit with none on the side that it looks at had no way to go. -/
theorem errorVanishes (consistent : s.minimum.seed.space.Consistent)
    (varies : i ∈ s.state.space.free) {t u : Trace ℝ} {c : Crossing ℝ}
    (run : (s.crossing side (.index i) multiple maxCalls).run.run t = (.ok c, u))
    (cut : c.verdict = .atLimit) (free : side.limit (s.state.space.parameterAt i) = none) :
    (s.state.space.parameterAt i).error = 0 := by
  obtain ⟨limit, found⟩ := crossingAhead run cut
  refine le_antisymm (not_lt.mp fun error => ?_) (errorNonneg consistent varies fun unlimited => ?_)
  · rw [limitAheadLead error, free] at found
    cases found
  · obtain ⟨lower, upper⟩ := Parameter.freeLimits.mp unlimited
    rw [Hunt.limitAhead, lower, upper, ite_self] at found
    cases found

/-! ### Reading -/

theorem intervalAdds {upper lower : Crossing ℝ} {u v : Trace ℝ} (here : s.state.space.indexOf p = .ok i)
    (above : Attempt.Adds (s.crossing .upper (.index i) multiple maxCalls) upper u)
    (below : Attempt.Adds (s.crossing .lower (.index i) multiple maxCalls) lower v) :
    Attempt.Adds (s.interval p multiple maxCalls)
      ⟨i, (s.state.space.parameterAt i).value, lower, upper⟩ (u.append v) :=
  .known here (.bind above (.made below rfl))

theorem boundAdds {c : Crossing ℝ} {u : Trace ℝ} (here : s.state.space.indexOf p = .ok i)
    (crossed : Attempt.Adds (s.crossing side (.index i) multiple maxCalls) c u) :
    let q := s.state.space.parameterAt i
    ∃ b, Attempt.Adds (s.bound side p multiple maxCalls) b u ∧
      (c.isValid → b = side.sign * q.error * (1 + c.value)) ∧
      (c.verdict = .atLimit → b = (side.limit q).getD q.value) := by
  intro q
  by_cases valid : c.isValid
  case pos =>
    refine ⟨side.sign * q.error * (1 + c.value), .known here (.made crossed ?_), fun _ => rfl,
      fun cut => ?_⟩
    · exact if_pos valid
    · rw [Crossing.isValid, cut] at valid
      cases valid
  case neg =>
    refine ⟨if c.verdict = .atLimit then (side.limit q).getD q.value else q.value,
      .known here (.made crossed ((if_neg valid).trans ?_)), fun found => absurd found valid,
      fun cut => if_pos cut⟩
    split
    case h_1 limit known =>
      rw [show side.limit q = some limit from known, Option.getD_some]
    case h_2 free =>
      rw [show side.limit q = none from free, Option.getD_none, ite_self]

end Surroundings

namespace Interval
variable {s : Surroundings ℝ} {n : Interval ℝ} {side : Side}

theorem offsetFound (retains : s.Retains n.place (n.crossing side)) (valid : (n.crossing side).isValid) :
    n.offset side = side.sign * (s.state.space.parameterAt n.place).error *
      (1 + (n.crossing side).value) := by
  have found : (n.crossing side).verdict = .found := eq_of_beq valid
  have unlimited : n.limit? side = none := by
    rw [limit?, found]
    rfl
  have error : n.error (n.crossing side) = (s.state.space.parameterAt n.place).error := by
    rw [Interval.error, Space.declaredHere retains.inside, ← retains.error]
    rfl
  rw [offset, unlimited, ← error]
  cases side
  · change -_ * _ = -1 * _ * _
    ring
  · change _ * _ = 1 * _ * _
    ring

theorem offsetCut (consistent : s.minimum.seed.space.Consistent)
    (varies : n.place ∈ s.state.space.free)
    (center : n.center = (s.state.space.parameterAt n.place).value)
    (retains : s.Retains n.place (n.crossing side)) {multiple : ℝ} {maxCalls : ℕ} {t u : Trace ℝ}
    (run : (s.crossing side (.index n.place) multiple maxCalls).run.run t =
      (.ok (n.crossing side), u)) (cut : (n.crossing side).verdict = .atLimit) :
    let q := s.state.space.parameterAt n.place
    (side.limit q).getD q.value = q.value + n.offset side := by
  intro q
  have known : n.limit? side = side.limit q := by
    refine (if_pos cut).trans ?_
    rw [Space.declaredHere retains.inside]
    exact retains.limits.limit n.place side
  cases limited : side.limit q with
  | some limit =>
    rw [offset, known, limited, center]
    exact (add_sub_cancel _ _).symm
  | none =>
    have error : n.error (n.crossing side) = 0 := by
      rw [Interval.error, Space.declaredHere retains.inside]
      exact retains.error.trans (Surroundings.errorVanishes consistent varies run cut limited)
    have stands : n.offset side = 0 := by
      rw [offset, known, limited]
      cases side
      all_goals
        dsimp only
        rw [error]
        simp
    rw [stands]
    exact (add_zero _).symm

end Interval

namespace Surroundings
variable {s : Surroundings ℝ} {p : Address} {i : ℕ}

theorem crossingIndex (here : s.state.space.indexOf p = .ok i) (inside : i < s.state.space.parameters.size)
    (side : Side) (multiple : ℝ) (maxCalls : ℕ) :
    s.crossing side (.index i) multiple maxCalls = s.crossing side p multiple maxCalls := by
  have again : s.state.space.indexOf (.index i) = .ok i := if_pos inside
  rw [crossing, crossing, searched, searched, here, again]

/- Whatever was asked before, an end that is asked for alone is that of the interval. If its search
finds a crossing, it is the offset, and leads to the crossing; if it ends at a limit, it is the value
that the offset leads to. -/
theorem boundsAgree (consistent : s.minimum.seed.space.Consistent)
    (here : s.state.space.indexOf p = .ok i) (varies : i ∈ s.state.space.free) (multiple : ℝ)
    (maxCalls : ℕ) (t : Trace ℝ) :
    let q := s.state.space.parameterAt i
    ∃ n u, (s.interval p multiple maxCalls).run.run t = (.ok n, u) ∧ ∀ side v, ∃ b w,
      let c := n.crossing side
      (s.crossing side p multiple maxCalls).run.run v = (.ok c, w) ∧
        (s.bound side p multiple maxCalls).run.run v = (.ok b, w) ∧
        (c.isValid → b = n.offset side ∧
          q.value + b = s.start side i + c.value * (side.sign * q.error)) ∧
        (c.verdict = .atLimit → b = q.value + n.offset side) := by
  intro q
  have sound : s.state.space.Consistent := s.minimum.stateMoved.consistent consistent
  obtain ⟨upper, asked, above, high⟩ := crossingRetains sound varies .upper multiple maxCalls
  obtain ⟨lower, also, below, low⟩ := crossingRetains sound varies .lower multiple maxCalls
  let n : Interval ℝ := ⟨i, q.value, lower, upper⟩
  refine ⟨n, _, intervalAdds here above below t, fun side v => ?_⟩
  obtain ⟨asked, crossed, retains⟩ : ∃ asked,
      Attempt.Adds (s.crossing side (.index i) multiple maxCalls) (n.crossing side) asked ∧
        s.Retains n.place (n.crossing side) := by
    cases side
    · exact ⟨also, below, low⟩
    · exact ⟨asked, above, high⟩
  obtain ⟨b, bound, found, cut⟩ := boundAdds here crossed
  refine ⟨b, v.append asked, ?_, bound v, fun valid => ?_, fun limited => ?_⟩
  · rw [← crossingIndex here (sound.within varies)]
    exact crossed v
  · have offset := n.offsetFound retains valid
    refine ⟨(found valid).trans offset.symm, ?_⟩
    rw [found valid, start]
    simp only [Exact.add, Exact.mul]
    ring
  · exact (cut limited).trans (n.offsetCut consistent varies rfl retains (crossed v) limited)

theorem vertexStart (side : Side) : vertex.start side 0 = 1 + side.sign * 1 ∧
    (vertex.state.space.parameterAt 0).value = 1 ∧ (vertex.state.space.parameterAt 0).error = 1 := by
  have error : √(vertex.minimum.errorDef / 1) = 1 := by
    change √(1 / 1 : ℝ) = 1
    rw [div_one, Real.sqrt_one]
  rw [start, vertexParabolic.parameter, error]
  exact ⟨rfl, rfl, rfl⟩

/- At a vertex both ends are found, each twice its error away; in a corner the upper one is cut off. -/
theorem boundsAgreeVertexCornered :
    (vertex.minimum.seed.space.Consistent ∧ vertex.state.space.indexOf (.index 0) = .ok 0 ∧
      0 ∈ vertex.state.space.free ∧
      ∃ n u, (vertex.interval (.index 0) 4 0).run.run {} = (.ok n, u) ∧ ∀ side,
        (n.crossing side).isValid ∧ n.offset side = side.sign * 2 ∧
          ∃ w, (vertex.bound side (.index 0) 4 0).run.run {} = (.ok (side.sign * 2), w)) ∧
    cornered.minimum.seed.space.Consistent ∧ cornered.state.space.indexOf (.index 0) = .ok 0 ∧
      0 ∈ cornered.state.space.free ∧
      ∃ n u b w, (cornered.interval (.index 0) 1 0).run.run {} = (.ok n, u) ∧
        n.upper.verdict = .atLimit ∧
        (cornered.bound .upper (.index 0) 1 0).run.run {} = (.ok b, w) ∧ b = n.offset .upper := by
  refine ⟨⟨vertexParabolic.consistent, vertexParabolic.index, vertexParabolic.varies, ?_⟩,
    tightConsistent, corneredHere, corneredVaries, ?_⟩
  · obtain ⟨n, u, run, ends⟩ := boundsAgree vertexParabolic.consistent vertexParabolic.index
      vertexParabolic.varies 4 0 {}
    refine ⟨n, u, run, fun side => ?_⟩
    obtain ⟨b, w, crossed, bound, found, -⟩ := ends side {}
    have inside : (1 / 4 : ℝ) ≤ 4 ∧ (4 : ℝ) ≤ 4 := by norm_num
    obtain ⟨x, v, again, there, -⟩ :=
      vertexParabolic.crossingAt vertexParabolic.index inside (.inl rfl) side {}
    obtain rfl : n.crossing side = x := Except.ok.inj (congrArg Prod.fst (crossed.symm.trans again))
    have two : √(4 : ℝ) = 2 := by
      rw [show (4 : ℝ) = 2 * 2 by norm_num]
      exact Real.sqrt_mul_self two_pos.le
    obtain ⟨offset, leads⟩ := found there.valid
    obtain ⟨start, value, error⟩ := vertexStart side
    have reach : b = side.sign * 2 := by
      rw [start, value, error, there.value, two] at leads
      linarith
    exact ⟨there.valid, offset ▸ reach, w, reach ▸ bound⟩
  · obtain ⟨n, u, run, ends⟩ := boundsAgree tightConsistent corneredHere corneredVaries 1 0 {}
    obtain ⟨b, w, crossed, bound, -, limited⟩ := ends .upper {}
    obtain ⟨k, begun, found, put, cut⟩ := corneredCut
    have upper : n.upper.verdict = .atLimit := by
      have again := crossed.symm.trans (crossingRun found put 0 {})
      rw [show n.upper = _ from Except.ok.inj (congrArg Prod.fst again)]
      exact cut {}
    have value : (cornered.state.space.parameterAt 0).value = 0 := by
      rw [corneredState]
      rfl
    refine ⟨n, u, b, w, run, upper, bound, ?_⟩
    rw [limited upper, value]
    exact zero_add _

end Surroundings
end ParamFit
