import ParamFit.Proofs.Chasing

/-! Which limits the search for a crossing keeps. All parameters except the one that is moved are
minimized within their limits. The one that is moved is cut at the limit ahead of it after the first
trial, and at no limit behind it. So it passes a limit in two places only: one error away from the
minimum, and beyond the minimum on the other side. -/
namespace ParamFit

namespace Space

/- A point within all limits, those of parameters that do not vary included. -/
def Keeps (s : Space ℝ) (x : Array ℝ) : Prop :=
  ∀ j < s.parameters.size, (s.parameterAt j).Allows (entry x j)

/- Declarations of which one parameter no longer varies, while those that vary may have moved. -/
structure Aside (s : Space ℝ) (i : ℕ) (t : Space ℝ) : Prop where
  consistent : t.Consistent
  precision : t.precision = s.precision
  size : t.parameters.size = s.parameters.size
  lower : ∀ j, (t.parameterAt j).lower = (s.parameterAt j).lower
  upper : ∀ j, (t.parameterAt j).upper = (s.parameterAt j).upper
  fixed : i ∉ t.free
  varying : ∀ j, i ≠ j → j ∈ s.free → j ∈ t.free
  fewer : ∀ j ∈ t.free, j ∈ s.free
  value : ∀ j, j ∉ s.free → (t.parameterAt j).value = (s.parameterAt j).value

variable {s t u : Space ℝ} {i : ℕ}

theorem fixVarying (consistent : s.Consistent) (varies : i ∈ s.free) :
    s.fix (.index i) = .ok { s.update i Parameter.fix with free := s.free.erase i } := by
  have known : s.indexOf (.index i) = .ok i := if_pos (consistent.within varies)
  rw [fix, known]
  exact if_pos varies

theorem Moved.aside (moved : s.Moved t) (consistent : s.Consistent) (varies : i ∈ s.free)
    (fixed : t.fix (.index i) = .ok u) (v : ℝ) : s.Aside i (u.setValueAt i v) := by
  have still := moved.consistent consistent
  have here : i ∈ t.free := moved.free.symm ▸ varies
  have once : t.free.Nodup := still.ascending.imp Nat.ne_of_lt
  have kept : (u.setValueAt i v).Consistent := (still.fix fixed).setValueAt i v
  rw [fixVarying still here] at fixed
  cases fixed
  refine ⟨kept, moved.precision, ?_, fun j => ?_, fun j => ?_, once.not_mem_erase,
    fun j other free => ?_, fun j left => ?_, fun j free => ?_⟩
  · exact ((Array.size_modify ..).trans (Array.size_modify ..)).trans moved.size
  · refine (lowerUpdate (f := (·.setValue v)) fun _ => rfl).trans (Eq.trans ?_ (moved.lower j))
    exact lowerUpdate (s := t) (f := Parameter.fix) fun _ => rfl
  · refine (upperUpdate (f := (·.setValue v)) fun _ => rfl).trans (Eq.trans ?_ (moved.upper j))
    exact upperUpdate (s := t) (f := Parameter.fix) fun _ => rfl
  · exact (List.mem_erase_of_ne (Ne.symm other)).mpr (moved.free.symm ▸ free)
  · exact moved.free ▸ List.mem_of_mem_erase left
  · have other : i ≠ j := fun same => free (same ▸ varies)
    rw [← moved.parameterKept free]
    refine congrArg Parameter.value ((parameterOther other (·.setValue v)).trans ?_)
    exact parameterOther other Parameter.fix

end Space

namespace Hunt

/- Along one line, the limit ahead cuts the steps unless the direction vanishes. -/
theorem longestStepOne {space : Space ℝ} {l : Lead ℝ} (inside : l.place < space.parameters.size) :
    ∃ limit, longestStep space [l] = some limit ∧ (space.precision.eps ≤ |l.direction| →
      ∀ ahead ∈ limitAhead (space.parameterAt l.place) l.direction,
        limit ≤ (ahead - l.middle) / l.direction) := by
  rw [longestStep, List.foldlM_cons, if_pos inside]
  dsimp only
  split
  case isTrue tiny => exact ⟨_, rfl, fun wide => absurd tiny (not_lt.mpr wide)⟩
  case isFalse wide =>
    split
    case h_1 bound found =>
      refine ⟨_, rfl, fun _ ahead same => ?_⟩
      rw [found] at same
      cases same
      rw [Exact.min]
      exact min_le_right _ _
    case h_2 found =>
      refine ⟨_, rfl, fun _ ahead same => ?_⟩
      rw [found] at same
      cases same

end Hunt

namespace Profile

/- What a whole chase along one line asks, and where its crossing lies. -/
structure Chased (h : Hunt ℝ) (l : Lead ℝ) (c : Crossing ℝ) (asked : Trace ℝ) : Prop where
  within : asked.Within (l.Reaches h.profile.state.space h.limit)
  begun : 0 ∈ l.tried asked
  arrives : h.Arrives c (l.tried asked)

theorem chaseStays {p : Profile ℝ} {l : Lead ℝ} (consistent : p.state.space.Consistent)
    (valid : p.state.valid) (fixed : l.place ∉ p.state.space.free)
    (inside : l.place < p.state.space.parameters.size) {limit : ℝ}
    (longest : Hunt.longestStep p.state.space [l] = some limit) (tolerance : ℝ) (maxCalls : ℕ) :
    let r := (p.chase [l] tolerance maxCalls).run {}
    Chased ⟨p, [l], tolerance, maxCalls, limit⟩ l r.1.1 r.2 := by
  have ready : Hunt.Ready l p.state.space ⟨p.inner, 0, []⟩ :=
    ⟨⟨.refl _ _, consistent, rfl⟩, valid⟩
  have landed := Approach.searchStays (h := ⟨p, [l], tolerance, maxCalls, limit⟩) rfl fixed inside
    ⟨p.inner, 0, []⟩ {} ready (Trace.emptyWithin _) (Set.empty_subset _)
  rw [chase, longest]
  dsimp only
  rw [Eval.runBind]
  change Landed _ _ _ _ _ _ (StateT.run ((Approach.search _).run ⟨p.inner, 0, []⟩) {}) at landed
  generalize StateT.run ((Approach.search _).run ⟨p.inner, 0, []⟩) {} = r at landed ⊢
  obtain ⟨⟨found | answer, tracker⟩, asked⟩ := r
  case error =>
    obtain ⟨begun, arrives⟩ := landed.ended found rfl
    exact ⟨landed.within, begun, arrives⟩
  case ok => exact (landed.answer answer rfl).2.elim

end Profile

namespace FitState

theorem fixVarying {s : FitState ℝ} {i : ℕ} (consistent : s.space.Consistent)
    (varies : i ∈ s.space.free) : ∃ t, s.fix (.index i) = .ok t ∧ t.valid = s.valid ∧
      s.space.fix (.index i) = .ok t.space := by
  have known : s.space.indexOf (.index i) = .ok i := if_pos (consistent.within varies)
  have fixed := Space.fixVarying consistent varies
  rw [fix, known]
  change ∃ t, (s.space.fix (.index i) >>= _) = Except.ok t ∧ _
  rw [fixed]
  dsimp only [bind, Except.bind]
  split
  · exact ⟨_, rfl, rfl, rfl⟩
  · exact ⟨_, rfl, rfl, rfl⟩

end FitState

theorem Side.signSquare (side : Side) : (side.sign : ℝ) ^ 2 = 1 := by
  cases side <;> norm_num [sign]

namespace Surroundings
variable {s : Surroundings ℝ} {side : Side} {i k : ℕ} {rise : ℝ}

/- The other parameters are moved before the search, each where it varies. -/
theorem followMoved (s : Surroundings ℝ) (side : Side) (i k : ℕ) (rise : ℝ)
    (fits : s.minimum.last.error.inverse.size ≤ s.state.space.dimension) :
    (s.follow side i k rise).valid = s.state.valid ∧
      s.state.space.Moved (s.follow side i k rise).space := by
  refine List.foldlRecOn (motive := fun t : FitState ℝ => t.valid = s.state.valid ∧
    s.state.space.Moved t.space) _ _ ⟨rfl, .refl _⟩ fun t ⟨valid, moved⟩ j among => ?_
  split
  case isTrue => exact ⟨valid, moved⟩
  case isFalse =>
    have inside : j < s.state.space.dimension := (List.mem_range.mp among).trans_le fits
    have varies : t.space.place j ∈ t.space.free := by
      have here : j < t.space.free.length := inside.trans_eq moved.dimension.symm
      rw [Space.place, List.getD_eq_getElem _ _ here]
      exact List.getElem_mem here
    exact ⟨valid, moved.trans (.setValueAt varies _)⟩

theorem searchedPlaced (consistent : s.state.space.Consistent) {p : Address}
    (here : s.state.space.indexOf p = .ok i) (placed : s.state.space.place? k = some i) :
    s.searched p = .ok (i, k) := by
  obtain ⟨q, declared, moves, changes⟩ := consistent.varying (List.mem_of_getElem? placed)
  rw [searched, here]
  change (if _ then _ else _) = _
  rw [Space.parameterDeclared declared, if_neg (by simp [moves, changes]),
    consistent.coordinateOfPlace placed]
  rfl

section
variable (consistent : s.state.space.Consistent) (varies : i ∈ s.state.space.free)
include consistent varies

theorem searchedVarying {p : Address} (here : s.state.space.indexOf p = .ok i) :
    ∃ k, s.state.space.place? k = some i ∧ s.searched p = .ok (i, k) := by
  obtain ⟨k, placed⟩ := List.getElem?_of_mem varies
  exact ⟨k, placed, searchedPlaced consistent here placed⟩

theorem besideAside (fits : s.minimum.last.error.inverse.size ≤ s.state.space.dimension)
    (side : Side) (k : ℕ) (rise : ℝ) :
    ∃ t, s.beside side i k rise = .ok t ∧ t.valid = s.state.valid ∧
      s.state.space.Aside i t.space := by
  obtain ⟨valid, moved⟩ := s.followMoved side i k rise fits
  have still := moved.consistent consistent
  obtain ⟨u, done, same, fixed⟩ := FitState.fixVarying still (moved.free.symm ▸ varies)
  refine ⟨{ u with space := u.space.setValueAt i (s.start side i) }, ?_, same.trans valid,
    moved.aside consistent varies fixed _⟩
  rw [beside, done]
  rfl

end

/-! ### What is asked -/

/- The parameter that is moved starts one error away from the minimum. -/
noncomputable def lead (s : Surroundings ℝ) (side : Side) (i : ℕ) : Lead ℝ :=
  ⟨i, s.start side i, side.sign * (s.state.space.parameterAt i).error⟩

theorem crossingRun {p : Address} {multiple : ℝ} {t : FitState ℝ}
    (found : s.searched p = .ok (i, k)) (put : s.beside side i k (s.rise multiple) = .ok t)
    (maxCalls : ℕ) (u : Trace ℝ) :
    (s.crossing side p multiple maxCalls).run.run u =
      let r := ((s.profile t (s.rise multiple)).chase [s.lead side i] tolerance
        (s.budget maxCalls)).run u
      (.ok r.1.1, r.2) := by
  rw [crossing, found]
  change StateT.run (ExceptT.run (liftM (s.beside side i k (s.rise multiple)) >>= _)) u = _
  rw [put]
  rfl

/- A point that a search on one side may ask. A step is cut at the limit ahead, if the error is large
enough to tell where that is; the first step never is. -/
structure Seeks (s : Surroundings ℝ) (side : Side) (i : ℕ) (x : Array ℝ) : Prop where
  declared : ∀ j < s.state.space.parameters.size, j ∉ s.state.space.free →
    entry x j = (s.state.space.parameterAt j).value
  allowed : ∀ j ∈ s.state.space.free, i ≠ j → (s.state.space.parameterAt j).Allows (entry x j)
  led : ∃ a, entry x i = (s.lead side i).spot a ∧
    (a = 0 ∨ (s.state.space.precision.eps ≤ |(s.lead side i).direction| →
      ∀ ahead ∈ Hunt.limitAhead (s.state.space.parameterAt i) (s.lead side i).direction,
        a ≤ (ahead - s.start side i) / (s.lead side i).direction))

/- A crossing near a point that was asked, or where the value at the first trial puts it. -/
def Lands (s : Surroundings ℝ) (side : Side) (i : ℕ) (rise a : ℝ) (asked : Trace ℝ) : Prop :=
  let q := s.state.space.parameterAt i
  (∃ x ∈ asked.values, |q.value + side.sign * (q.error * (1 + a)) - entry x i| ≤
    |q.error| * (0.1 * Max.max 1 |a|)) ∨
  ∃ y, s.minimum.value + 0.1 * rise ≤ y ∧ |y - (s.minimum.value + rise)| < 0.01 ∧
    a = √(rise / (y - s.minimum.value)) - 1

structure Sought (s : Surroundings ℝ) (side : Side) (i : ℕ) (rise : ℝ) (c : Crossing ℝ)
    (asked : Trace ℝ) : Prop where
  within : asked.Within (s.Seeks side i)
  begun : ∃ x ∈ asked.values, entry x i = s.start side i
  arrives : c.isValid → s.Lands side i rise c.value asked

theorem leadSpot (s : Surroundings ℝ) (side : Side) (i : ℕ) (a : ℝ) :
    let q := s.state.space.parameterAt i
    (s.lead side i).spot a = q.value + side.sign * (q.error * (1 + a)) := by
  dsimp only [lead, Lead.spot, start]
  simp only [Exact.add, Exact.mul]
  ring

theorem leadDirection (s : Surroundings ℝ) (side : Side) (i : ℕ) :
    |(s.lead side i).direction| = |(s.state.space.parameterAt i).error| := by
  cases side <;> simp [lead, Side.sign]

theorem arrivesLands {h : Hunt ℝ} {c : Crossing ℝ} {asked : Trace ℝ} {rise : ℝ}
    (arrives : h.Arrives c ((s.lead side i).tried asked)) (valid : c.isValid)
    (same : h.tolerance = 0.1) (base : h.profile.base = s.minimum.value)
    (risen : h.profile.rise = rise) : s.Lands side i rise c.value asked := by
  rcases arrives valid with ⟨a, ⟨x, among, here⟩, near⟩ | ⟨y, least, near, guess⟩
  · refine .inl ⟨x, among, ?_⟩
    have reach : h.stepTolerance c.value ≤ 0.1 * Max.max 1 |c.value| := by
      rw [Hunt.stepTolerance, same]
      split
      · exact mul_le_mul_of_nonneg_left (le_max_right _ _) (by norm_num)
      · have least : (1 : ℝ) ≤ Max.max 1 |c.value| := le_max_left _ _
        linarith
    have gap : (s.lead side i).spot c.value - entry x i =
        (c.value - a) * (s.lead side i).direction := by
      have there : entry x i = (s.lead side i).spot a := here
      rw [there]
      dsimp only [Lead.spot]
      ring
    rw [← s.leadSpot, gap, abs_mul, s.leadDirection, mul_comm]
    exact mul_le_mul_of_nonneg_left (near.le.trans reach) (abs_nonneg _)
  · refine .inr ⟨y, ?_, ?_, ?_⟩
    · rwa [base, risen] at least
    · have tight : h.valueTolerance = 0.01 := by
        rw [Hunt.valueTolerance, same]
        norm_num
      rwa [tight, Hunt.aim, base, risen] at near
    · rwa [Approach.quadraticGuess, base, risen] at guess

theorem crossingSought {p : Address} (valid : s.minimum.isValid)
    (consistent : s.state.space.Consistent)
    (fits : s.minimum.last.error.inverse.size ≤ s.state.space.dimension)
    (here : s.state.space.indexOf p = .ok i) (varies : i ∈ s.state.space.free) (side : Side)
    (multiple : ℝ) (maxCalls : ℕ) :
    ∃ c asked, (s.crossing side p multiple maxCalls).run.run {} = (.ok c, asked) ∧
      s.Sought side i (s.rise multiple) c asked := by
  obtain ⟨k, -, found⟩ := searchedVarying consistent varies here
  obtain ⟨t, put, same, aside⟩ := besideAside consistent varies fits side k (s.rise multiple)
  have inside : i < t.space.parameters.size := aside.size.symm ▸ consistent.within varies
  obtain ⟨limit, longest, cuts⟩ := Hunt.longestStepOne (l := s.lead side i) inside
  have chased := Profile.chaseStays (p := s.profile t (s.rise multiple)) aside.consistent
    (same.trans (Minimum.stateValid valid)) aside.fixed inside longest tolerance (s.budget maxCalls)
  rw [crossingRun found put]
  refine ⟨_, _, rfl, chased.within.weaken fun x reaches => ?_, ?_, fun found => ?_⟩
  · refine ⟨fun j within fixed => ?_, fun j free other => ?_, ?_⟩
    · rw [← aside.value j fixed]
      exact reaches.declared j (aside.size.symm ▸ within) (fun left => fixed (aside.fewer j left))
        fun same => fixed (same ▸ varies)
    · obtain ⟨above, below⟩ := reaches.allowed j (aside.varying j other free)
      exact ⟨aside.lower j ▸ above, aside.upper j ▸ below⟩
    · obtain ⟨a, cut, led⟩ := reaches.led
      refine ⟨a, led, cut.imp_right fun short wide ahead found => short.trans ?_⟩
      refine cuts (aside.precision.symm ▸ wide) ahead ?_
      rwa [Hunt.limitAhead, aside.lower, aside.upper]
  · obtain ⟨x, among, start⟩ := chased.begun
    refine ⟨x, among, start.trans ?_⟩
    simp [Lead.spot, lead]
  · exact arrivesLands chased.arrives found rfl rfl rfl

/-! ### What is kept -/

/- A value at which no limit is looked at: on the other side of the minimum than the search goes, or
any value if the error is too small. -/
def Strays (s : Surroundings ℝ) (side : Side) (i : ℕ) (x : Array ℝ) : Prop :=
  let q := s.state.space.parameterAt i
  |q.error| < s.state.space.precision.eps ∨ side.sign * q.error * (entry x i - q.value) < 0

theorem aheadAllows {q : Parameter ℝ} {start v a d : ℝ} (begun : q.Allows start)
    (least : q.Allows v) (further : 0 ≤ d * (start + a * d - v))
    (cut : ∀ ahead ∈ Hunt.limitAhead q d, a ≤ (ahead - start) / d) : q.Allows (start + a * d) := by
  rcases lt_trichotomy d 0 with back | rfl | ahead
  · have before : start + a * d ≤ v := by
      linarith [nonpos_of_mul_nonneg_right further back]
    refine ⟨fun lower among => ?_, fun upper among => before.trans (least.below upper among)⟩
    have short := cut lower (by rwa [Hunt.limitAhead, if_neg (not_lt.mpr back.le)])
    linarith [(le_div_iff_of_neg back).mp short]
  · rwa [mul_zero, add_zero]
  · have beyond : v ≤ start + a * d := by
      linarith [nonneg_of_mul_nonneg_right further ahead]
    refine ⟨fun lower among => (least.above lower among).trans beyond, fun upper among => ?_⟩
    have short := cut upper (by rwa [Hunt.limitAhead, if_pos ahead])
    linarith [(le_div_iff₀ ahead).mp short]

theorem Seeks.keeps {x : Array ℝ} (seeks : s.Seeks side i x)
    (settled : s.state.space.Keeps s.state.space.declaredValues)
    (begun : (s.state.space.parameterAt i).Allows (s.start side i))
    (stray : s.Strays side i x → (s.state.space.parameterAt i).Allows (entry x i)) :
    s.state.space.Keeps x := by
  intro j inside
  have value := settled j inside
  rw [Space.entryDeclared] at value
  by_cases free : j ∈ s.state.space.free
  case neg => rwa [seeks.declared j inside free]
  by_cases other : i = j
  case neg => exact seeks.allowed j free other
  subst other
  by_cases far : s.Strays side i x
  case pos => exact stray far
  obtain ⟨wide, further⟩ := not_or.mp far
  -- only the first step is cut nowhere
  obtain ⟨a, here, rfl | cut⟩ := seeks.led
  · rw [here]
    simpa [Lead.spot, lead] using begun
  · rw [here] at further ⊢
    exact aheadAllows begun value (not_lt.mp further)
      (cut (s.leadDirection side i ▸ not_lt.mp wide))

/-! ### A limit nearer than the error -/

/- One parameter at zero with an error, within one of zero. -/
noncomputable def tight (error : ℝ) : Space ℝ :=
  let x : Parameter ℝ :=
    { number := 0, name := "x", value := 0, error, lower := some (-1), upper := some 1 }
  ⟨.machine, #[x], [0], [("x", 0)], #[0]⟩

/- The minimum of a quarter of a square. Its error reaches further than the limits do. -/
noncomputable def cornered : Surroundings ℝ :=
  let known : Knowledge ℝ :=
    ⟨.plain #[0] 0, .usable (.ofDiagonal #[2.0]) 0, .numerical #[0] #[0.5] #[0.01], 0, 1⟩
  ⟨.plain fun x => entry x 0 * entry x 0 / 4, .ofSeed ⟨known, tight 1⟩ 1, .medium⟩

theorem tightDeclared : Space.empty.run [.addLimited "x" 0 1 (-1) 1] = tight 1 := by
  have apart : ¬ (-1 : ℝ) = 1 := by norm_num
  have ordered : ¬ (-1 : ℝ) > 1 := by norm_num
  simp [Space.run, Space.step, Space.perform, Space.addLimited, Space.declare, Space.declared,
    Parameter.limited, Parameter.setLimits, Space.append, Space.empty, tight, apart, ordered,
    Except.map, Except.toOption]

theorem tightConsistent : (tight 1).Consistent := by
  rw [← tightDeclared]
  exact Space.emptyConsistent.run fun a _ => Space.comparableExact a

theorem tightExternal (v : ℝ) : (tight 1).toExternal 0 v = Real.sin v := by
  change -1 + (0.5 : ℝ) * (1 - -1) * (Real.sin v + 1) = Real.sin v
  ring

theorem tightError : (tight 1).externalError 0 0 2 = 1 + Real.sin 2 / 2 := by
  have limits : (tight 1).limits 0 = .both (-1) 1 := rfl
  have high : 0 ≤ Real.sin 2 :=
    Real.sin_nonneg_of_nonneg_of_le_pi (by norm_num) (by linarith [Real.pi_gt_three])
  rw [Space.externalError, limits, tightExternal, tightExternal, tightExternal]
  dsimp only
  rw [if_pos (by norm_num)]
  simp only [Exact.add, Exact.sub, Exact.mul, Exact.abs, Real.sin_zero]
  norm_num [abs_of_nonneg high]
  ring

theorem corneredState : cornered.state.space = tight (1 + Real.sin 2 / 2) := by
  have inner : cornered.minimum.last.internalError 1 0 = 2 := by
    change √((2.0 : ℝ) * 1 * 2.0) = 2
    rw [show (2.0 : ℝ) * 1 * 2.0 = 2 * 2 by norm_num]
    exact Real.sqrt_mul_self (by norm_num)
  rw [state, Minimum.state, FitState.ofKnowledgeSpace, Knowledge.setParameters]
  change ((tight 1).setValueAt 0 ((tight 1).toExternal 0 0)).setErrorAt 0
    ((tight 1).externalError 0 0 (cornered.minimum.last.internalError 1 0)) = _
  rw [inner, tightExternal, tightError, Real.sin_zero]
  rfl

theorem corneredConsistent : cornered.state.space.Consistent :=
  cornered.minimum.stateMoved.consistent tightConsistent

theorem corneredSettled : cornered.state.space.Keeps cornered.state.space.declaredValues := by
  intro j inside
  rw [Space.entryDeclared]
  rw [corneredState] at inside ⊢
  obtain rfl : j = 0 := Nat.lt_one_iff.mp inside
  refine ⟨fun lower among => ?_, fun upper among => ?_⟩
  · cases among
    exact neg_nonpos.mpr zero_le_one
  · cases among
    exact zero_le_one

theorem corneredFits :
    cornered.minimum.last.error.inverse.size ≤ cornered.state.space.dimension := by
  rw [corneredState]
  exact le_refl 1

theorem corneredHere : cornered.state.space.indexOf (.index 0) = .ok 0 := by
  rw [corneredState]
  rfl

theorem corneredVaries : 0 ∈ cornered.state.space.free := by
  rw [corneredState]
  exact .head _

theorem corneredOutside :
    ¬ (cornered.state.space.parameterAt 0).Allows (cornered.start .upper 0) := by
  intro allows
  have most : cornered.start .upper 0 ≤ 1 := allows.below 1 (by rw [corneredState]; rfl)
  have start : cornered.start .upper 0 = 0 + 1 * (1 + Real.sin 2 / 2) := by
    rw [Surroundings.start, corneredState]
    rfl
  have high : 0 < Real.sin 2 :=
    Real.sin_pos_of_pos_of_lt_pi (by norm_num) (by linarith [Real.pi_gt_three])
  linarith

/- All limits are kept exactly if one error away from the minimum is within them, and nothing that
is asked on the other side of the minimum is outside of them. A crossing that is found lies as near to
a value that was asked as the tolerance says, or is a guess from the first trial. -/
theorem limitsKept {p : Address} (valid : s.minimum.isValid)
    (consistent : s.state.space.Consistent)
    (settled : s.state.space.Keeps s.state.space.declaredValues)
    (fits : s.minimum.last.error.inverse.size ≤ s.state.space.dimension)
    (here : s.state.space.indexOf p = .ok i) (varies : i ∈ s.state.space.free) (multiple : ℝ)
    (maxCalls : ℕ) :
    let q := s.state.space.parameterAt i
    ∃ c asked, (s.crossing side p multiple maxCalls).run.run {} = (.ok c, asked) ∧
      (asked.Within s.state.space.Keeps ↔ q.Allows (s.start side i) ∧
        asked.Within fun x => s.Strays side i x → q.Allows (entry x i)) ∧
      (c.isValid → s.Lands side i (s.rise multiple) c.value asked) := by
  obtain ⟨c, asked, run, sought⟩ :=
    crossingSought valid consistent fits here varies side multiple maxCalls
  have inside := consistent.within varies
  refine ⟨c, asked, run, ⟨fun keeps => ⟨?_, ?_⟩, fun ⟨begun, strays⟩ => ?_⟩, sought.arrives⟩
  · obtain ⟨x, among, start⟩ := sought.begun
    exact start ▸ keeps.values x among i inside
  · exact keeps.weaken fun x kept _ => kept i inside
  · refine ⟨fun x among => ?_, fun x among => ?_⟩
    · exact (sought.within.values x among).keeps settled begun (strays.values x among)
    · exact (sought.within.slopes x among).keeps settled begun (strays.slopes x among)

theorem limitsKeptCornered :
    let space := cornered.state.space
    let q := space.parameterAt 0
    cornered.minimum.isValid ∧ space.Consistent ∧ space.Keeps space.declaredValues ∧
      cornered.minimum.last.error.inverse.size ≤ space.dimension ∧
      space.indexOf (.index 0) = .ok 0 ∧ 0 ∈ space.free ∧
      ∃ c asked, (cornered.crossing .lower (.index 0) 1 0).run.run {} = (.ok c, asked) ∧
        (asked.Within space.Keeps ↔ q.Allows (cornered.start .lower 0) ∧
          asked.Within fun x => cornered.Strays .lower 0 x → q.Allows (entry x 0)) ∧
        (c.isValid → cornered.Lands .lower 0 (cornered.rise 1) c.value asked) :=
  ⟨rfl, corneredConsistent, corneredSettled, corneredFits, corneredHere, corneredVaries,
    limitsKept rfl corneredConsistent corneredSettled corneredFits corneredHere corneredVaries 1 0⟩

/- A crossing need not keep the limits: its first trial is made one error away from the minimum,
however near the limit is. -/
theorem limitsPassed :
    ¬ ∀ (s : Surroundings ℝ) (side : Side) (p : Address) (i : ℕ) (multiple : ℝ) (maxCalls : ℕ),
      s.minimum.isValid → s.state.space.Consistent →
      s.state.space.Keeps s.state.space.declaredValues →
      s.minimum.last.error.inverse.size ≤ s.state.space.dimension →
      s.state.space.indexOf p = .ok i → i ∈ s.state.space.free → 0 < multiple →
      let q := s.state.space.parameterAt i
      ∃ c asked, (s.crossing side p multiple maxCalls).run.run {} = (.ok c, asked) ∧
        asked.Within s.state.space.Keeps ∧
        (c.isValid → q.Allows (q.value + side.sign * (q.error * (1 + c.value)))) := by
  intro keeps
  obtain ⟨c, asked, run, sought⟩ := crossingSought rfl corneredConsistent corneredFits corneredHere
    corneredVaries .upper 1 0
  obtain ⟨d, again, same, kept, -⟩ := keeps cornered .upper (.index 0) 0 1 0 rfl
    corneredConsistent corneredSettled corneredFits corneredHere corneredVaries one_pos
  obtain ⟨-, rfl⟩ := Prod.ext_iff.mp (run.symm.trans same)
  obtain ⟨x, among, start⟩ := sought.begun
  have inside := kept.values x among 0 (corneredConsistent.within corneredVaries)
  exact corneredOutside (start ▸ inside)

end Surroundings
end ParamFit
