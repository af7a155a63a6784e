import ParamFit.Proofs.Adding
import ParamFit.Proofs.Lasting
import ParamFit.Proofs.Overstep
import ParamFit.Proofs.Parabolic

/-! The limits at which a search for a crossing ends. No trial lies more than three steps beyond those
before it, and there are sixteen after the first, so a search stays below the hundred that stands for no
limit, however often it turns back. One that ends at a limit was cut at the nearest of the limits ahead,
or began next to it; and an interval reads that limit off the state of its crossing. -/
namespace ParamFit

/-! ### Steps stay below a hundred -/

theorem Exact.clampLe {a lo hi : ℝ} (ordered : lo ≤ hi) : Scalar.clamp a lo hi ≤ hi := by
  rw [Scalar.clamp]
  split
  case isTrue => exact ordered
  case isFalse =>
    split
    case isTrue => exact le_refl hi
    case isFalse within => exact not_lt.mp within

namespace Hunt
variable {h : Hunt ℝ} {a : ℝ}

theorem capLe (h : Hunt ℝ) (a : ℝ) : (h.cap a).1 ≤ a := by
  rw [cap]
  split
  case isTrue beyond => exact le_of_lt beyond
  case isFalse => exact le_refl a

theorem capCuts (limited : (h.cap a).2) : (h.cap a).1 = h.limit ∧ h.limit < a := by
  rw [cap] at limited ⊢
  split at limited
  case isTrue beyond => exact ⟨congrArg Prod.fst (if_pos beyond), beyond⟩
  case isFalse => cases limited

theorem stepTolerancePos (positive : 0 < h.tolerance) (a : ℝ) : 0 < h.stepTolerance a := by
  rw [stepTolerance]
  split
  case isTrue far => exact mul_pos positive (one_pos.trans far)
  case isFalse => exact positive

end Hunt

namespace Trio
variable {t : Trio ℝ} {reach further : ℝ}

/- No sample lies beyond a step. -/
def Before (t : Trio ℝ) (reach : ℝ) : Prop := ∀ i, (t.get i).x ≤ reach

theorem Before.more (before : t.Before reach) (more : reach ≤ further) : t.Before further :=
  fun i => (before i).trans more

theorem Before.set (before : t.Before reach) (i : Fin 3) {p : Sample ℝ} (here : p.x ≤ reach) :
    (t.set i p).Before reach := allSet (fun s => s.x ≤ reach) before i here

end Trio

namespace Approach
variable {h : Hunt ℝ} {s : Approach ℝ} {a : ℝ}

/- Three steps are allowed for every trial that was counted. -/
structure Paced (s : Approach ℝ) : Prop where
  begun : 0 < s.count
  before : s.trio.Before (3 * s.count)

theorem Paced.further (paced : s.Paced) : s.trio.Before (3 * (s.count + 1 : ℕ)) := by
  refine paced.before.more ?_
  push_cast
  linarith

theorem Paced.climbLe (paced : s.Paced) {made : ℕ} (few : made < s.count) (left : s.count < maxCount) :
    s.trio.second.x + 0.2 * Scalar.ofNat (made + 1) ≤ 3 * (s.count + 1 : ℕ) := by
  have second : s.trio.second.x ≤ 3 * s.count := paced.before 1
  have most : made + 1 ≤ 15 := by
    rw [maxCount] at left
    omega
  have fifteen : ((made + 1 : ℕ) : ℝ) ≤ 15 := by exact_mod_cast most
  rw [Exact.ofNat]
  push_cast at fifteen ⊢
  linarith

theorem Paced.secantLe (paced : s.Paced) (a : ℝ) : s.holdSecant a ≤ 3 * (s.count + 1 : ℕ) := by
  have first : s.trio.first.x ≤ 3 * s.count := paced.before 0
  have second : s.trio.second.x ≤ 3 * s.count := paced.before 1
  refine (Exact.clampLe ?_).trans ?_
  · simp only [Exact.min, Exact.max]
    linarith [min_le_max (a := s.trio.first.x) (b := s.trio.second.x)]
  · simp only [Exact.max]
    push_cast
    linarith [max_le first second]

/- What is left between two trials lies between them, or is turned over. -/
theorem bracketWithin (positive : 0 < h.tolerance) (t : Trio ℝ) (left right : Fin 3) (a slope : ℝ) :
    (bracket h t left right a slope).2 ≤ (t.get right).x ∧
      (bracket h t left right a slope).1 + (bracket h t left right a slope).2 =
        (t.get left).x + (t.get right).x := by
  have step : 0 < 0.1 * h.stepTolerance a := mul_pos (by norm_num) (Hunt.stepTolerancePos positive a)
  have value : 0 < h.valueTolerance := mul_pos (by norm_num) positive
  rw [bracket]
  dsimp only
  refine ⟨sub_le_self _ ?_, by simp only [Exact.add, Exact.sub]; ring⟩
  split
  case isTrue steep =>
    have rises : 0 < slope := pos_of_mul_pos_left (value.trans steep) step.le
    exact (div_pos value rises).le
  case isFalse => exact step.le

theorem insideLe (positive : 0 < h.tolerance) {t : Trio ℝ} {reach : ℝ} (before : t.Before reach)
    (left right out : Fin 3) (a slope : ℝ) : holdInside h t left right out a slope ≤ reach := by
  obtain ⟨high, sum⟩ := bracketWithin positive t left right a slope
  rw [holdInside]
  dsimp only
  split
  case isTrue =>
    simp only [Exact.mul, Exact.scientific, sum]
    linarith [before left, before right]
  case isFalse ordered => exact (Exact.clampLe (not_lt.mp ordered)).trans (high.trans (before right))

end Approach

/- How far the trials before a stage may lie, and how many steps an ascent has made. -/
def Stage.Paced : Stage ℝ → Prop
  | start | begun _ => True
  | climbing s made => made < s.count ∧ s.Paced
  | seeking s | sighted s | bracketed s _ => s.Paced

namespace Hunt

/- The trials of a search that was cut at its limit: the last one was made there, or there is one only,
and the limit is too near to go on. -/
def Cut (h : Hunt ℝ) (trials : List (Trial ℝ)) : Prop :=
  h.limit < 100 ∧ ((∃ r ∈ trials.head?, r.step = h.limit) ∨
    h.limit < h.tolerance ∧ ∃ r, trials = [r] ∧ r.step = 0)

structure Bounded (h : Hunt ℝ) (stage : Stage ℝ) (tr : Tracker ℝ) (_ : Trace ℝ) : Prop where
  paced : stage.Paced
  below : ∀ r ∈ tr.trials, r.step < 100
  none : stage = .start → tr.trials = []

structure Halted (h : Hunt ℝ) (c : Crossing ℝ) (tr : Tracker ℝ) (_ : Trace ℝ) : Prop where
  below : ∀ r ∈ tr.trials, r.step < 100
  cut : c.verdict = .atLimit → h.Cut tr.trials

variable {h : Hunt ℝ} {stage : Stage ℝ} {next : Minimum ℝ → Stage ℝ} {a : ℝ}

theorem Bounded.halted {tr : Tracker ℝ} {t : Trace ℝ} {c : Crossing ℝ} (bounded : h.Bounded stage tr t)
    (other : c.verdict ≠ .atLimit) : h.Halted c tr t :=
  ⟨bounded.below, fun same => absurd same other⟩

theorem probeBounded {limited : Bool} (below : stage.Paced → a < 100)
    (cut : stage.Paced → limited → ∀ r trials, r.step = a → (stage = .start → trials = []) →
      h.Cut (r :: trials))
    (paces : stage.Paced → ∀ m, (next m).Paced) (begun : ∀ m, next m ≠ .start) :
    Chase.Ensures (h.Bounded stage) (h.probe a limited) (fun m => h.Bounded (next m)) h.Halted := by
  have noted {tr : Tracker ℝ} {t : Trace ℝ} (g : Fit ℝ) (m : Minimum ℝ)
      (bounded : h.Bounded stage tr t) : ∀ r ∈ (tr.note g a m).trials, r.step < 100 := by
    intro r among
    rcases List.mem_cons.mp among with rfl | earlier
    · exact below bounded.paced
    · exact bounded.below r earlier
  refine probeEnsures (fun tr t bounded => bounded.halted nofun)
    (fun tr t g m u bounded minimizes state v stops => ?_) fun tr t g m u bounded minimizes _ => ?_
  · -- of the ways in which a minimization stops a search, only a cut one reports the limit
    refine ⟨noted g m bounded, fun same => ?_⟩
    cases stops with
    | cut ahead => exact cut bounded.paced ahead _ _ rfl bounded.none
    | _ => cases same
  · exact ⟨paces bounded.paced m, noted g m bounded, fun same => absurd same (begun m)⟩

/- A step that is cut at the limit is made at the limit. -/
theorem capBounded (stage : Stage ℝ) (reach : stage.Paced → a ≤ 48)
    (paces : stage.Paced → ∀ m, (next m).Paced) (begun : ∀ m, next m ≠ .start) :
    Chase.Ensures (h.Bounded stage) (h.probe (h.cap a).1 (h.cap a).2)
      (fun m => h.Bounded (next m)) h.Halted := by
  refine probeBounded (fun paced => ?_) (fun paced limited r trials here _ => ?_) paces begun
  · linarith [h.capLe a, reach paced]
  · obtain ⟨there, beyond⟩ := capCuts limited
    exact ⟨by linarith [reach paced], .inl ⟨r, rfl, here.trans there⟩⟩

/- Three steps for each of sixteen trials. -/
theorem paceLe {n : ℕ} (few : n ≤ Approach.maxCount + 1) : (3 * n : ℝ) ≤ 48 := by
  have sixteen : (n : ℝ) ≤ 16 := by exact_mod_cast few
  linarith

/- No move goes further than the trials that it counts allow. -/
theorem movesBounded (positive : 0 < h.tolerance) (small : h.tolerance ≤ 1) :
    Approach.Keeps h h.Bounded h.Halted where
  expects _ bounded := ⟨bounded.paced, bounded.below, bounded.none⟩
  lost bounded := bounded.halted nofun
  begins := by
    refine probeBounded (fun _ => by norm_num) (fun _ near r trials here first => ?_)
      (fun _ _ => trivial) fun _ => nofun
    -- the first step is not cut, so a limit that is near may also lie behind it
    have close : h.limit < 0 + h.tolerance := of_decide_eq_true near
    rw [zero_add] at close
    exact ⟨by linarith, .inr ⟨close, r, by rw [first rfl], here⟩⟩
  decided _ bounded := bounded.halted nofun
  opens {m} _ := by
    have one : Scalar.clamp (Approach.quadraticGuess h (Approach.floored h m)) (-0.5) 1 ≤ 1 :=
      Exact.clampLe (by norm_num)
    refine capBounded (.begun m) (fun _ => by linarith) (fun _ n => ⟨one_pos, one_pos, fun i => ?_⟩)
      fun _ => nofun
    have three : (3 : ℝ) * (1 : ℕ) = 3 := by norm_num
    refine three.symm ▸ ?_
    fin_cases i
    · exact zero_le_three
    · exact ((h.capLe _).trans one).trans (by norm_num)
    · exact zero_le_three
  climbs {s made} _ _ left := by
    refine capBounded (.climbing s made) (fun paced => ?_)
      (fun paced m => ⟨Nat.succ_lt_succ paced.1, Nat.succ_pos _, ?_⟩) fun _ => nofun
    · exact (paced.2.climbLe paced.1 left).trans (paceLe (by omega))
    · have wide := paced.2.further
      have reached := (h.capLe _).trans (paced.2.climbLe paced.1 left)
      intro i
      fin_cases i
      · exact wide 1
      · exact reached
      · exact wide 2
  risen _ bounded := ⟨bounded.paced.2, bounded.below, nofun⟩
  arrives _ _ bounded := bounded.halted nofun
  sights {s} _ left := by
    have reached (paced : s.Paced) := paced.secantLe (Approach.secantStep h s)
    refine capBounded (.seeking s) (fun paced => ?_)
      (fun paced m => ⟨Nat.succ_pos _, ?_⟩) fun _ => nofun
    · exact (reached paced).trans (paceLe (by omega))
    · exact paced.further.set 2 ((h.capLe _).trans (reached paced))
  brackets _ bounded := ⟨bounded.paced, bounded.below, nofun⟩
  replaces _ _ bounded :=
    have ⟨begun, before⟩ := bounded.paced
    ⟨⟨begun, before.set _ (before 2)⟩, bounded.below, nofun⟩
  restarts _ _ _ bounded :=
    have ⟨begun, before⟩ := bounded.paced
    ⟨⟨begun, begun, before.set 1 (before 2)⟩, bounded.below, nofun⟩
  crosses _ _ _ bounded := bounded.halted nofun
  refines {s best a slope left right out} _ _ less := by
    refine capBounded (.bracketed s best) (fun paced => ?_)
      (fun paced m => ⟨Nat.succ_pos _, ?_⟩) fun _ => nofun
    · exact (Approach.insideLe positive paced.before left right out a slope).trans (paceLe (by omega))
    · have reached := Approach.insideLe positive paced.further left right out a slope
      exact paced.further.set out ((h.capLe _).trans reached)

/-! ### The limits ahead -/

end Hunt

/- The step at which a parameter that is led reaches the limit ahead, if it has one. -/
def Lead.stops (space : Space ℝ) (l : Lead ℝ) : Set ℝ :=
  {a | space.precision.eps ≤ |l.direction| ∧
    ∃ limit ∈ Hunt.limitAhead (space.parameterAt l.place) l.direction,
      a = (limit - l.middle) / l.direction}

namespace Lead
variable {space : Space ℝ} {l : Lead ℝ}

theorem stopsTiny (tiny : |l.direction| < space.precision.eps) : l.stops space = ∅ :=
  Set.eq_empty_of_forall_notMem fun _ ⟨wide, _⟩ => absurd tiny (not_lt.mpr wide)

theorem stopsFree (free : Hunt.limitAhead (space.parameterAt l.place) l.direction = none) :
    l.stops space = ∅ := by
  refine Set.eq_empty_of_forall_notMem fun a ⟨_, limit, among, _⟩ => ?_
  rw [free] at among
  cases among

theorem stopsAt (wide : space.precision.eps ≤ |l.direction|) {limit : ℝ}
    (found : Hunt.limitAhead (space.parameterAt l.place) l.direction = some limit) :
    l.stops space = {(limit - l.middle) / l.direction} := by
  ext a
  refine ⟨fun ⟨_, other, among, here⟩ => ?_, fun here => ⟨wide, limit, found, here⟩⟩
  rw [found] at among
  cases among
  exact here

end Lead

namespace Hunt

def ahead (space : Space ℝ) (line : List (Lead ℝ)) : Set ℝ := {a | ∃ l ∈ line, a ∈ l.stops space}

theorem aheadCons (space : Space ℝ) (l : Lead ℝ) (line : List (Lead ℝ)) :
    ahead space (l :: line) = l.stops space ∪ ahead space line := by
  ext a
  simp [ahead]

theorem leastInsert {A : Set ℝ} {most stop least : ℝ}
    (known : IsLeast (insert (min most stop) A) least) : IsLeast (insert most ({stop} ∪ A)) least := by
  obtain ⟨among, below⟩ := known
  have first : least ≤ min most stop := below (.inl rfl)
  constructor
  · rcases among with rfl | among
    · rcases min_choice most stop with same | same
      · exact .inl same
      · exact .inr (.inl same)
    · exact .inr (.inr among)
  · rintro a (rfl | rfl | among)
    · exact first.trans (min_le_left _ _)
    · exact first.trans (min_le_right _ _)
    · exact below (.inr among)

/- The longest step is the nearest limit, unless there is none within a hundred steps. -/
theorem longestStepLeast {space : Space ℝ} {line : List (Lead ℝ)} {limit : ℝ}
    (longest : longestStep space line = some limit) : IsLeast (insert 100 (ahead space line)) limit := by
  rw [longestStep, show (100.0 : ℝ) = 100 by norm_num] at longest
  generalize (100 : ℝ) = most at longest ⊢
  induction line generalizing most with
  | nil =>
    cases longest
    simp [ahead]
  | cons l line ih =>
    rw [List.foldlM_cons] at longest
    obtain ⟨next, step, rest⟩ := Option.bind_eq_some_iff.mp longest
    have known := ih next rest
    rw [aheadCons]
    split at step
    case isFalse => cases step
    dsimp only at step
    split at step
    case isTrue tiny =>
      cases step
      rwa [Lead.stopsTiny tiny, Set.empty_union]
    case isFalse wide =>
      split at step
      case h_1 bound found =>
        cases step
        rw [Lead.stopsAt (not_lt.mp wide) found]
        exact leastInsert (Exact.min .. ▸ known)
      case h_2 free =>
        cases step
        rwa [Lead.stopsFree free, Set.empty_union]

end Hunt

/-! ### Intervals -/

namespace Surroundings
variable {s : Surroundings ℝ} {side : Side} {i k : ℕ} {p : Address} {multiple : ℝ} {maxCalls : ℕ}

theorem searchedHere (found : s.searched p = .ok (i, k)) : s.state.space.indexOf p = .ok i := by
  obtain ⟨j, known, found⟩ := okParts found
  rw [known]
  change (if _ then _ else _) = _ at found
  split at found
  case isTrue => cases found
  case isFalse =>
    split at found
    case h_1 =>
      cases found
      rfl
    case h_2 => cases found

/- An answer of a search on one side is a chase along one line. -/
theorem crossingParts {t u : Trace ℝ} {c : Crossing ℝ}
    (run : (s.crossing side p multiple maxCalls).run.run t = (.ok c, u)) :
    ∃ i start, s.state.space.indexOf p = .ok i ∧ s.state.space.SameLimits start.space ∧
      c = (((s.profile start (s.rise multiple)).chase [s.lead side i] tolerance
        (s.budget maxCalls)).run t).1.1 := by
  obtain ⟨⟨i, k⟩, v, found, rest⟩ := Attempt.parts run
  have found : s.searched p = .ok (i, k) := congrArg Prod.fst found
  obtain ⟨start, w, put, -⟩ := Attempt.parts rest
  have put : s.beside side i k (s.rise multiple) = .ok start := congrArg Prod.fst put
  rw [crossingRun found put] at run
  cases run
  exact ⟨i, start, searchedHere found, besideLimits put, rfl⟩

end Surroundings

namespace Profile
variable {tolerance : ℝ} (positive : 0 < tolerance) (small : tolerance ≤ 1)
include positive small

/- A chase stays below a hundred. Where it ends at a limit, the nearest limit ahead was tried, or it was
so near that nothing but the first step was. -/
theorem chaseHalts (p : Profile ℝ) (line : List (Lead ℝ)) (maxCalls : ℕ) (t : Trace ℝ) :
    let (c, trials) := ((p.chase line tolerance maxCalls).run t).1
    (∀ r ∈ trials, r.step < 100) ∧
    (c.verdict = .atLimit → ∃ nearest, IsLeast (Hunt.ahead p.state.space line) nearest ∧
      ((∃ last ∈ trials.head?, last.step = nearest) ∨
        nearest < tolerance ∧ ∃ first, trials = [first] ∧ first.step = 0)) := by
  rcases p.chaseKeeps tolerance maxCalls t line with
    ⟨_, ended⟩ | ⟨limit, c, tr, u, longest, ended, keeps⟩
  · rw [ended]
    exact ⟨nofun, nofun⟩
  rw [ended]
  obtain ⟨below, cut⟩ := keeps _ _ (Hunt.movesBounded positive small)
    ⟨trivial, nofun, fun _ => rfl⟩
  refine ⟨below, fun verdict => ⟨limit, ?_, (cut verdict).2⟩⟩
  obtain ⟨among, least⟩ := Hunt.longestStepLeast longest
  refine ⟨?_, fun a known => least (.inr known)⟩
  rcases among with hundred | known
  · exact absurd hundred (cut verdict).1.ne
  · exact known

end Profile

namespace Surroundings
variable {s : Surroundings ℝ} {p : Address} {multiple : ℝ} {maxCalls : ℕ} {side : Side}

theorem tolerancePos : (0 : ℝ) < tolerance := by norm_num [tolerance]

theorem toleranceSmall : (tolerance : ℝ) ≤ 1 := by norm_num [tolerance]

theorem limitAheadLead {i : ℕ} {q : Parameter ℝ} (error : 0 < (s.state.space.parameterAt i).error) :
    Hunt.limitAhead q (s.lead side i).direction = side.limit q := by
  cases side
  · have back : ¬ -1 * (s.state.space.parameterAt i).error > 0 := by linarith
    exact if_neg back
  · have ahead : 1 * (s.state.space.parameterAt i).error > 0 := by linarith
    exact if_pos ahead

/- No search changes a limit, wherever it ends. -/
theorem crossingLimits {t u : Trace ℝ} {c : Crossing ℝ}
    (run : (s.crossing side p multiple maxCalls).run.run t = (.ok c, u)) :
    s.state.space.SameLimits c.state.space := by
  obtain ⟨i, start, here, same, rfl⟩ := crossingParts run
  exact Profile.chaseLasts (p := s.profile start (s.rise multiple)) (Space.SameLimits.lasting _)
    same [s.lead side i] tolerance (s.budget maxCalls) t

theorem crossingAhead {i : ℕ} {t u : Trace ℝ} {c : Crossing ℝ}
    (run : (s.crossing side (.index i) multiple maxCalls).run.run t = (.ok c, u))
    (cut : c.verdict = .atLimit) : ∃ limit,
      Hunt.limitAhead (s.state.space.parameterAt i) (s.lead side i).direction = some limit := by
  obtain ⟨j, start, here, same, rfl⟩ := crossingParts run
  obtain rfl : i = j := Except.ok.inj ((if_pos (Space.indexInside here)).symm.trans here)
  have halts := Profile.chaseHalts tolerancePos toleranceSmall (s.profile start (s.rise multiple))
    [s.lead side i] (s.budget maxCalls) t
  obtain ⟨nearest, ⟨⟨l, among, wide, limit, found, _⟩, _⟩, _⟩ := halts.2 cut
  obtain rfl := List.mem_singleton.mp among
  refine ⟨limit, ?_⟩
  rw [Hunt.limitAhead, ← same.lower, ← same.upper]
  exact found

/- A search on one side that ends at a limit leaves a state in which the limit on that side is found. -/
theorem crossingLimit {i : ℕ} {t u : Trace ℝ} {c : Crossing ℝ}
    (run : (s.crossing side (.index i) multiple maxCalls).run.run t = (.ok c, u))
    (error : 0 < (s.state.space.parameterAt i).error) (cut : c.verdict = .atLimit) :
    ∃ limit, side.limit (s.state.space.parameterAt i) = some limit ∧
      (c.state.space.parameters[i]?.bind (Side.limit · side)) = some limit := by
  obtain ⟨limit, found⟩ := crossingAhead run cut
  rw [limitAheadLead error] at found
  have same := crossingLimits run
  obtain ⟨_, _, here, -⟩ := crossingParts run
  refine ⟨limit, found, ?_⟩
  rw [Space.declaredHere (same.size.symm ▸ Space.indexInside here), ← found, ← same.limit]
  rfl

theorem intervalParts {n : Interval ℝ} {t u : Trace ℝ}
    (run : (s.interval p multiple maxCalls).run.run t = (.ok n, u)) (side : Side) :
    n.center = (s.state.space.parameterAt n.place).value ∧
      ∃ v w, (s.crossing side (.index n.place) multiple maxCalls).run.run v =
        (.ok (n.crossing side), w) := by
  obtain ⟨i, v, here, rest⟩ := Attempt.parts run
  obtain ⟨upper, w, above, rest⟩ := Attempt.parts rest
  obtain ⟨lower, x, below, rest⟩ := Attempt.parts rest
  cases rest
  refine ⟨rfl, ?_⟩
  cases side
  · exact ⟨_, _, below⟩
  · exact ⟨_, _, above⟩

theorem limitFound {n : Interval ℝ} {t u : Trace ℝ}
    (run : (s.interval p multiple maxCalls).run.run t = (.ok n, u))
    (error : 0 < (s.state.space.parameterAt n.place).error)
    (cut : (n.crossing side).verdict = .atLimit) :
    ∃ limit, side.limit (s.state.space.parameterAt n.place) = some limit ∧
      n.limit? side = some limit ∧ n.offset side = limit - n.center := by
  obtain ⟨center, v, w, found⟩ := intervalParts run side
  obtain ⟨limit, there, left⟩ := crossingLimit found error cut
  have known : n.limit? side = some limit := (if_pos cut).trans left
  exact ⟨limit, there, known, by rw [Interval.offset, known]⟩

end Surroundings

/- No step of a search reaches a hundred. A search that ends at a limit has one ahead: the last step was
made at the nearest of them, or it was nearer than the tolerance and nothing but the step zero was made.
An interval with a positive error whose search on a side ended so finds the limit on that side, and its
offset is that of the limit. -/
theorem Profile.limitReached (p : Profile ℝ) (places : List ℕ) (middles directions : List ℝ)
    {tolerance : ℝ} (positive : 0 < tolerance) (small : tolerance ≤ 1) (maxCalls : ℕ) (t : Trace ℝ) :
    let line := Lead.list places middles directions
    let trials := ((p.chase line tolerance maxCalls).run t).1.2
    let c := ((p.crossing places middles directions tolerance maxCalls).run t).1
    (∀ r ∈ trials, r.step < 100) ∧
    (c.verdict = .atLimit → ∃ nearest, IsLeast (Hunt.ahead p.state.space line) nearest ∧
      ((∃ last ∈ trials.head?, last.step = nearest) ∨
        nearest < tolerance ∧ ∃ first, trials = [first] ∧ first.step = 0)) ∧
    ∀ (s : Surroundings ℝ) (a : Address) (multiple : ℝ) (calls : ℕ) (before after : Trace ℝ)
      (n : Interval ℝ) (side : Side),
      (s.interval a multiple calls).run.run before = (.ok n, after) →
      0 < (s.state.space.parameterAt n.place).error → (n.crossing side).verdict = .atLimit →
      ∃ limit, side.limit (s.state.space.parameterAt n.place) = some limit ∧
        n.limit? side = some limit ∧ n.offset side = limit - n.center := by
  intro line trials c
  obtain ⟨below, cut⟩ := chaseHalts positive small p line maxCalls t
  refine ⟨below, fun verdict => ?_, fun s a multiple calls before after n side run error =>
    Surroundings.limitFound run error⟩
  rcases p.crossingKeeps tolerance maxCalls t places middles directions with
    same | ⟨limit, d, tr, u, chased, same, -⟩
  · have missing : c.verdict = .missing := congrArg (Crossing.verdict ·.1) same
    rw [missing] at verdict
    cases verdict
  · have here : c = ((p.chase line tolerance maxCalls).run t).1.1 :=
      (congrArg Prod.fst same).trans (congrArg (·.1.1) chased).symm
    exact cut (here ▸ verdict)

/- A trial that stays below the level at the limit ends a search there. -/
theorem Hunt.probeLimited {h : Hunt ℝ} {l : Lead ℝ} {curve : ℝ → ℝ} {error : ℝ} {tr : Tracker ℝ}
    (line : h.line = [l]) (room : 1 < h.maxCalls) (alone : l.Alone curve error tr.fit) {a : ℝ}
    (low : curve a < h.aim) (t : Trace ℝ) : ∃ (m : Minimum ℝ) (tr' : Tracker ℝ) (u : Trace ℝ),
      ((h.probe a true).run.run tr).run t = ((.error ⟨0, m.state, tr'.calls, .atLimit⟩, tr'), u) := by
  obtain ⟨g, m, u, run, -, -, value, valid, within, -⟩ := alone.minimize room a h.tolerance t
  refine ⟨m, tr.note g a m, u, ?_⟩
  have below : (true && decide (m.value < h.aim)) = true := decide_eq_true (value ▸ low)
  rw [probe, Chase.runGet, placed line alone.inside]
  dsimp only
  rw [Chase.runLift, run]
  dsimp only
  rw [Chase.runSet, if_neg (by simp [within]), if_neg (by simp [valid]), if_pos below]
  rfl

namespace Surroundings

theorem corneredError : (cornered.state.space.parameterAt 0).error = 1 + Real.sin 2 / 2 := by
  rw [corneredState]
  rfl

theorem corneredStart : cornered.start .upper 0 = 1 + Real.sin 2 / 2 := by
  have start : cornered.start .upper 0 = 0 + 1 * (1 + Real.sin 2 / 2) := by
    rw [Surroundings.start, corneredState]
    rfl
  rw [start]
  ring

theorem corneredErrorPos : 0 < (cornered.state.space.parameterAt 0).error := by
  rw [corneredError]
  linarith [Real.neg_one_le_sin 2]

/- The value at a step of the search upwards. -/
noncomputable def corneredCurve (a : ℝ) : ℝ :=
  cornered.objective.value #[(cornered.lead .upper 0).spot a]

/- Nothing varies beside the parameter that is led, so a trial reads off the parabola. -/
theorem corneredAlone {start : FitState ℝ} (aside : cornered.state.space.Aside 0 start.space)
    (valid : start.valid) (rise : ℝ) :
    (cornered.lead .upper 0).Alone corneredCurve (start.space.parameterAt 0).error
      (cornered.profile start rise).inner := by
  have one : start.space.parameters.size = 1 := by
    rw [aside.size, corneredState]
    rfl
  have cells : 0 < start.space.values.size := by
    rw [aside.consistent.cached, Array.size_map, one]
    exact one_pos
  refine {
    descends := rfl
    uses := rfl
    valid
    still := ?_
    inside := one.symm ▸ one_pos
    value := fun a => ?_
    reads := fun a => Nat.zero_le _
    error := rfl }
  · refine List.eq_nil_iff_forall_not_mem.mpr fun j among => ?_
    have first := aside.fewer j among
    rw [corneredState] at first
    exact aside.fixed (List.mem_singleton.mp first ▸ among)
  · let v := (cornered.lead .upper 0).spot a
    have here : entry (start.space.values.setIfInBounds 0 v) 0 = v := by simp [entry, cells]
    change entry (start.space.values.setIfInBounds 0 v) 0 *
      entry (start.space.values.setIfInBounds 0 v) 0 / 4 = _
    rw [here]
    rfl

/- The search upwards begins beyond the limit. -/
theorem corneredNear {start : FitState ℝ} (aside : cornered.state.space.Aside 0 start.space) :
    ∃ limit < 0, Hunt.longestStep start.space [cornered.lead .upper 0] = some limit := by
  have inside : 0 < start.space.parameters.size :=
    aside.size.symm ▸ corneredConsistent.within corneredVaries
  obtain ⟨limit, longest, cuts⟩ := Hunt.longestStepOne (l := cornered.lead .upper 0) inside
  refine ⟨limit, ?_, longest⟩
  have positive := corneredErrorPos
  have beyond : 1 < cornered.start .upper 0 := by
    rw [corneredStart]
    linarith [Real.sin_pos_of_pos_of_lt_pi two_pos (by linarith [Real.pi_gt_three])]
  have wide : start.space.precision.eps ≤ |(cornered.lead .upper 0).direction| := by
    have fine : cornered.state.space.precision.eps = 2⁻¹ ^ 50 := by
      rw [corneredState]
      rfl
    rw [cornered.leadDirection, aside.precision, fine, abs_of_pos positive, corneredError]
    have tiny : (2⁻¹ : ℝ) ^ 50 ≤ 1 / 2 := by norm_num
    linarith [Real.neg_one_le_sin 2]
  have top : Hunt.limitAhead (start.space.parameterAt 0) (cornered.lead .upper 0).direction =
      some 1 := by
    rw [limitAheadLead positive, Side.limit, aside.upper, corneredState]
    rfl
  refine (cuts wide 1 top).trans_lt (div_neg_of_neg_of_pos (sub_neg.mpr beyond) ?_)
  change 0 < 1 * _
  rwa [one_mul]

/- It stays below the level there. -/
theorem corneredCut : ∃ k start, cornered.searched (.index 0) = .ok (0, k) ∧
    cornered.beside .upper 0 k (cornered.rise 1) = .ok start ∧
    ∀ t : Trace ℝ, (((cornered.profile start (cornered.rise 1)).chase [cornered.lead .upper 0]
      tolerance (cornered.budget 0)).run t).1.1.verdict = .atLimit := by
  obtain ⟨k, -, found⟩ := searchedVarying corneredConsistent corneredVaries corneredHere
  obtain ⟨start, put, same, aside⟩ :=
    besideAside corneredConsistent corneredVaries corneredFits .upper k (cornered.rise 1)
  obtain ⟨limit, near, longest⟩ := corneredNear aside
  refine ⟨k, start, found, put, fun t => ?_⟩
  let h : Hunt ℝ := ⟨cornered.profile start (cornered.rise 1), [cornered.lead .upper 0], tolerance,
    cornered.budget 0, limit⟩
  let begun : Tracker ℝ := ⟨h.profile.inner, 0, []⟩
  have alone : (cornered.lead .upper 0).Alone corneredCurve (start.space.parameterAt 0).error
      begun.fit := corneredAlone aside (same.trans rfl) (cornered.rise 1)
  have low : corneredCurve 0 < h.aim := by
    have aim : h.aim = 0 + 1 * 1 := rfl
    have spot : (cornered.lead .upper 0).spot 0 = 1 + Real.sin 2 / 2 := by
      rw [Lead.spot, zero_mul, add_zero]
      exact corneredStart
    rw [corneredCurve, spot, aim]
    change (1 + Real.sin 2 / 2) * (1 + Real.sin 2 / 2) / 4 < (0 + 1 * 1 : ℝ)
    nlinarith [Real.sin_le_one 2, Real.neg_one_le_sin 2]
  have room : 1 < h.maxCalls := by
    change 1 < cornered.budget 0
    rw [budget, Space.dimension, corneredState]
    decide
  have close : decide (h.limit < 0 + h.tolerance) = true := by
    refine decide_eq_true (near.trans ?_)
    rw [zero_add]
    exact tolerancePos
  obtain ⟨m, tr, u, run⟩ := Hunt.probeLimited rfl room alone low t
  have ended : ((Approach.search h).run.run begun).run t =
      ((.error ⟨0, m.state, tr.calls, .atLimit⟩, tr), u) := by
    rw [Approach.search, close]
    exact Chase.runEnd run
  rw [Profile.chaseEnd longest ended]

theorem limitReachedCornered :
    (0 : ℝ) < tolerance ∧ (tolerance : ℝ) ≤ 1 ∧
    (∃ start : FitState ℝ, ∃ nearest,
      let p := cornered.profile start (cornered.rise 1)
      let l := cornered.lead .upper 0
      ((p.crossing [0] [l.middle] [l.direction] tolerance (cornered.budget 0)).run {}).1.verdict =
          .atLimit ∧
        IsLeast (Hunt.ahead start.space [l]) nearest) ∧
    ∃ n u, (cornered.interval (.index 0) 1 0).run.run {} = (.ok n, u) ∧
      0 < (cornered.state.space.parameterAt n.place).error ∧ n.upper.verdict = .atLimit ∧
      n.limit? .upper = some 1 ∧ n.offset .upper = 1 := by
  obtain ⟨k, start, found, put, cut⟩ := corneredCut
  obtain ⟨below, beside, -⟩ :=
    besideAside corneredConsistent corneredVaries corneredFits .lower k (cornered.rise 1)
  let l := cornered.lead .upper 0
  obtain ⟨-, met, intervals⟩ := Profile.limitReached (cornered.profile start (cornered.rise 1))
    [0] [l.middle] [l.direction] tolerancePos toleranceSmall (cornered.budget 0) {}
  obtain ⟨nearest, least, -⟩ := met (cut {})
  have above := crossingRun found put 0 {}
  obtain ⟨n, u, run, place, center, upper⟩ : ∃ n u,
      (cornered.interval (.index 0) 1 0).run.run {} = (.ok n, u) ∧ n.place = 0 ∧
        n.center = (cornered.state.space.parameterAt 0).value ∧ n.upper.verdict = .atLimit :=
    ⟨_, _, intervalRun corneredHere above (crossingRun found beside 0 _), rfl, rfl, cut {}⟩
  have error : 0 < (cornered.state.space.parameterAt n.place).error := place ▸ corneredErrorPos
  obtain ⟨limit, there, known, offset⟩ := intervals cornered (.index 0) 1 0 {} u n .upper run error upper
  have one : limit = 1 := by
    rw [place, corneredState] at there
    exact (Option.some.inj there).symm
  have zero : n.center = 0 := by
    rw [center, corneredState]
    rfl
  refine ⟨tolerancePos, toleranceSmall, ⟨start, nearest, cut {}, least⟩, n, u, run, error, upper,
    one ▸ known, ?_⟩
  rw [offset, one, zero, sub_zero]

end Surroundings
end ParamFit
