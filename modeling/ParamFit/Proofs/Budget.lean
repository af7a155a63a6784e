import ParamFit.Proofs.Accounting
import ParamFit.Proofs.Plain

/-! What becomes of a budget. A simplex tests it after its last question. A descent tests it after its
last round, but not where the model could not be repaired, and second derivatives follow the test; a
combined search that goes down twice tests nothing of the second descent it gives up. A scan has no
test at all. A result without the flag has kept the budget exactly where what is asked after the last
test stays within it. -/
namespace ParamFit
variable {α : Type}

namespace Descent
section
variable [Spectral α] {s : Surface α} {m : GradientMethod α} {prec : Precision α} {maxCalls : Nat}
  {edmval wanted : α} {seed : Seed α} {t u : Trace α} {min : Minimum α}

theorem Search.leaves {k last : Knowledge α} {v : Trace α} (left : t.calls < maxCalls)
    (search : Search s m prec maxCalls wanted k t last v) : v.calls < maxCalls := by
  induction search with
  | last _ => exact left
  | next _ goesOn _ ih => exact ih goesOn.2

/- A descent from the seed ends with a model that stayed unusable after the round had asked. -/
def Aborts (s : Surface α) (m : GradientMethod α) (seed : Seed α) (maxCalls : Nat) (edmval : α)
    (t : Trace α) : Prop :=
  ∃ last forced u, Ends s m maxCalls (edmval * 0.0001) seed t last (.stillIndefinite forced) u

theorem iterateBudget (left : t.calls < maxCalls)
    (run : (iterate s m seed maxCalls edmval).run t = (min, u)) (unflagged : min.callLimit = false)
    (repaired : ¬ Aborts s m seed maxCalls edmval t) : u.calls < maxCalls := by
  rcases iterateCases run with ⟨_, _, rfl⟩ | ⟨last, o, ends, judged⟩
  · exact left
  · have tested : o.isBroken = false → u.calls < maxCalls := by
      intro whole
      by_contra spent
      have flagged := judged.callLimit.mpr ⟨whole, Nat.le_of_not_lt spent⟩
      rw [unflagged] at flagged
      cases flagged
    cases o with
    | moved next => exact tested rfl
    | stuck => exact tested rfl
    | stillIndefinite forced => exact absurd ⟨last, forced, u, ends⟩ repaired
    -- The round that ended uphill asked nothing; the one before it left calls.
    | stillUphill forced =>
      obtain ⟨v, search, final⟩ := ends.reached
      rcases roundCases s m _ final with ⟨_, _, same⟩ | ⟨_, _, other | ⟨_, _, _, other | other⟩⟩
      · rw [same]
        exact search.leaves left
      · cases other
      · cases other.1
      · cases other.1

end
end Descent

namespace Surface
section
variable [Spectral α] (s : Surface α) (m : GradientMethod α) (seed : Seed α) (st : Strategy α)
  (maxCalls : Nat) (edmval : α) (t : Trace α)

/- A descent may ask after it last tested its budget. -/
def OutlastsTest : Prop :=
  Descent.Aborts s m seed maxCalls edmval t ∨
    st.refines ((Descent.iterate s m seed maxCalls edmval).run t).1.last

def OutlastsDescent : Prop :=
  s.OutlastsTest m seed st maxCalls edmval t ∧
    maxCalls < ((s.descend m seed st maxCalls edmval).run t).2.calls

/- A search spends its budget after it last tested it. Of a second descent, which begins from the
result of a simplex, nothing is tested unless it is kept. -/
def Outlasts (a : Algorithm) : Prop :=
  match a with
  | .descent => s.OutlastsDescent m seed st maxCalls edmval t
  | .combined =>
    let first := (s.descend m seed st maxCalls edmval).run t
    if first.1.isValid then s.OutlastsDescent m seed st maxCalls edmval t
    else
      let coarse := (s.contract seed maxCalls edmval).run first.2
      coarse.1.isValid ∧
        maxCalls < ((s.descendAgain m coarse.1 maxCalls edmval).run coarse.2).2.calls
  | .simplex => False
  | .scan => maxCalls < ((s.scanAxes seed).run t).2.calls

variable {s m seed st maxCalls edmval t} {u : Trace α} {min : Minimum α}

theorem descendTested (left : t.calls < maxCalls)
    (run : (s.descend m seed st maxCalls edmval).run t = (min, u))
    (unflagged : min.callLimit = false) (tested : ¬ s.OutlastsTest m seed st maxCalls edmval t) :
    u.calls < maxCalls := by
  obtain ⟨low, v, found, rest⟩ := Eval.runParts run
  simp only [OutlastsTest, found, not_or] at tested
  obtain ⟨repaired, settled⟩ := tested
  rw [if_neg settled] at rest
  cases rest
  exact Descent.iterateBudget left found unflagged repaired

theorem descendBudget (left : t.calls < maxCalls)
    (run : (s.descend m seed st maxCalls edmval).run t = (min, u))
    (unflagged : min.callLimit = false) :
    u.calls ≤ maxCalls ↔ ¬ s.OutlastsDescent m seed st maxCalls edmval t := by
  rw [OutlastsDescent, run, not_and_or, Nat.not_lt]
  refine ⟨.inr, fun kept => ?_⟩
  rcases kept with tested | kept
  · exact Nat.le_of_lt (descendTested left run unflagged tested)
  · exact kept

end

end Surface

/-! ### Scans -/

namespace Scan
variable [Scalar α] {f : Surface α}

theorem visitCalls {i : Nat} {values : Array α} {s : Scan α} {seen : List (Sample α)}
    {grid : List α} {t u : Trace α} {found : Scan α × List (Sample α)}
    (run : (visit f i values s seen grid).run t = (found, u)) :
    u.calls = t.calls + grid.length := by
  induction grid generalizing s seen t with
  | nil =>
    cases run
    rfl
  | cons v rest ih =>
    obtain ⟨y, w, asked, next⟩ := Eval.runParts run
    have one := f.callsExternalValue (values.setIfInBounds i v) t
    rw [asked] at one
    rw [ih next, one, List.length_cons]
    omega

theorem gridLength (low high : α) (steps : Nat) : (grid low high steps).length = steps := by
  simp [grid]

theorem runMost {s : Scan α} {p : Address} {steps : Nat} {low high : α} {t u : Trace α}
    {answer : Except (FitError α) (Scan α × List (Sample α))}
    (run : (s.run f p steps low high).run t = (answer, u)) : u.calls ≤ t.calls + steps := by
  rcases runCases run with ⟨rfl, _⟩ | ⟨rfl, _⟩ | ⟨i, first, found, _, visited⟩
  · exact Nat.le_add_right _ _
  · exact Nat.le_add_right _ _
  · rw [visitCalls visited, gridLength]
    omega

end Scan

namespace Surface
section
variable [Scalar α] {s : Surface α}

theorem scanEachMost {space : Space α} {x : Scan α} {v w : Array α} {best lowest : α}
    {axes : List (Nat × Nat)} {t u : Trace α}
    (run : (s.scanEach space x v best axes).run t = ((w, lowest), u)) :
    u.calls ≤ t.calls + Scan.defaultSteps * axes.length := by
  induction axes generalizing x v best t with
  | nil =>
    cases run
    exact Nat.le_add_right _ _
  | cons axis rest ih =>
    obtain ⟨answer, y, scanned, next⟩ := Eval.runParts run
    have one := Scan.runMost scanned
    have more : u.calls ≤ y.calls + Scan.defaultSteps * rest.length := by
      cases answer with
      | error e =>
        dsimp only at next
        split at next
        · exact ih next
        · exact ih next
      | ok found =>
        dsimp only at next
        split at next
        · exact ih next
        · exact ih next
    rw [List.length_cons, Nat.mul_succ]
    omega

theorem scanAxesMost {seed : Seed α} {t u : Trace α} {min : Minimum α}
    (run : (s.scanAxes seed).run t = (min, u)) :
    u.calls ≤ t.calls + Scan.defaultSteps * seed.space.dimension := by
  obtain ⟨_, v, checked, run⟩ := Eval.runParts run
  obtain ⟨⟨x, best⟩, w, scanned, run⟩ := Eval.runParts run
  obtain ⟨calls, y, asked, run⟩ := Eval.runParts run
  have most := scanEachMost scanned
  rw [List.length_zipIdx] at most
  cases checked
  cases asked
  cases run
  exact most

end

section
variable [Spectral α] {s : Surface α} {m : GradientMethod α} {st : Strategy α} {maxCalls : Nat}
  {edmval : α} {seed : Seed α} {t u : Trace α} {min : Minimum α}

theorem contractBudget (run : (s.contract seed maxCalls edmval).run t = (min, u))
    (unflagged : min.callLimit = false) :
    (seed.knowledge.size = 0 ∧ u = t) ∨ u.calls ≤ maxCalls := by
  rcases contractCases run with ⟨empty, _, same⟩ | ⟨_, flag⟩
  · exact .inl ⟨empty, same⟩
  · refine .inr (Nat.le_of_not_lt fun spent => ?_)
    have flagged := flag.mpr spent
    rw [unflagged] at flagged
    cases flagged

theorem descendTwiceBudget (left : t.calls < maxCalls)
    (run : (s.descendTwice m seed st maxCalls edmval).run t = (min, u))
    (unflagged : min.callLimit = false) :
    u.calls ≤ maxCalls ↔ ¬ s.Outlasts m seed st maxCalls edmval t .combined := by
  obtain ⟨first, v, descended, rest⟩ := Eval.runParts run
  simp only [Outlasts, descended]
  split at rest
  case isTrue valid =>
    rw [if_pos valid]
    cases rest
    exact descendBudget left descended unflagged
  case isFalse invalid =>
    rw [if_neg invalid]
    obtain ⟨coarse, w, contracted, final⟩ := Eval.runParts rest
    rw [contracted]
    split at final
    case isTrue failed =>
      cases final
      have kept : u.calls ≤ maxCalls := by
        rcases contractBudget contracted unflagged with ⟨empty, rfl⟩ | most
        · rw [descendEmpty empty descended]
          exact Nat.le_of_lt left
        · exact most
      exact iff_of_true kept fun spent => by simp [spent.1] at failed
    case isFalse succeeded =>
      obtain ⟨second, x, again, same⟩ := Eval.runParts final
      cases same
      rw [again, not_and_or, Nat.not_lt]
      exact ⟨.inr, fun kept => kept.resolve_left fun failed => succeeded (by simpa using failed)⟩

theorem searchBudget {a : Algorithm} (left : t.calls < maxCalls)
    (run : (s.search a m seed st maxCalls edmval).run t = (min, u))
    (unflagged : min.callLimit = false) :
    u.calls ≤ maxCalls ↔ ¬ s.Outlasts m seed st maxCalls edmval t a := by
  cases a with
  | descent => exact descendBudget left run unflagged
  | combined => exact descendTwiceBudget left run unflagged
  | scan =>
    change (s.scanAxes seed).run t = (min, u) at run
    rw [Outlasts, run, Nat.not_lt]
  | simplex =>
    refine iff_of_true ?_ id
    rcases contractBudget run unflagged with ⟨_, rfl⟩ | most
    · exact Nat.le_of_lt left
    · exact most

end
end Surface

/-! ### Scans without limits -/

namespace Scan

/- A declared parameter without limits whose error is not negative: every interval around it is in
order. -/
structure Open (space : Space ℝ) (i : Nat) : Prop where
  declared : i < space.parameters.size
  lower : (space.parameterAt i).lower = none
  upper : (space.parameterAt i).upper = none
  error : 0 ≤ (space.parameterAt i).error

theorem Open.setValueAt {space : Space ℝ} {i : Nat} (o : Open space i) (j : Nat) (v : ℝ) :
    Open (space.setValueAt j v) i := by
  obtain ⟨declared, lower, upper, error⟩ := o
  have size : (space.setValueAt j v).parameters.size = space.parameters.size := by
    simp [Space.setValueAt, Space.update]
  have same : (space.setValueAt j v).parameterAt i = space.parameterAt i ∨
      (space.setValueAt j v).parameterAt i = (space.parameterAt i).setValue v := by
    simp only [Space.parameterAt, Space.setValueAt, Space.update, Array.getD, Array.size_modify,
      declared, dite_true, Array.getInternal_eq_getElem, Array.getElem_modify]
    split
    · exact .inr rfl
    · exact .inl rfl
  refine ⟨size ▸ declared, ?_, ?_, ?_⟩
  · rcases same with same | same <;> rw [same] <;> exact lower
  · rcases same with same | same <;> rw [same] <;> exact upper
  · rcases same with same | same <;> rw [same] <;> exact error

theorem Open.interval {space : Space ℝ} {i : Nat} (o : Open space i) :
    ¬ (Scan.interval (space.parameterAt i) 0 0).1 > (Scan.interval (space.parameterAt i) 0 0).2 := by
  have error := o.error
  simp [Scan.interval, o.lower, o.upper]
  linarith

variable {f : Surface ℝ} (reads : ∀ x, f.objective.reads x ≤ x.size)

theorem visitOpen {i j : ℕ} {values : Array ℝ} {s : Scan ℝ} {seen : List (Sample ℝ)}
    {grid : List ℝ} {t u : Trace ℝ} {found : Scan ℝ × List (Sample ℝ)} (o : Open s.space j)
    (run : (visit f i values s seen grid).run t = (found, u)) : Open found.1.space j := by
  induction grid generalizing s seen t with
  | nil =>
    cases run
    exact o
  | cons v rest ih =>
    obtain ⟨y, w, _, next⟩ := Eval.runParts run
    refine ih ?_ next
    split
    · exact o.setValueAt i v
    · exact o

include reads

theorem visitSound {i : ℕ} {values : Array ℝ} {s : Scan ℝ} {seen : List (Sample ℝ)}
    {grid : List ℝ} {t u : Trace ℝ} {found : Scan ℝ × List (Sample ℝ)}
    (run : (visit f i values s seen grid).run t = (found, u)) : u.sound = t.sound := by
  induction grid generalizing s seen t with
  | nil =>
    cases run
    rfl
  | cons v rest ih =>
    obtain ⟨y, w, asked, next⟩ := Eval.runParts run
    rw [Surface.runExternalValue, decide_eq_true (reads _), Bool.and_true] at asked
    cases asked
    exact (ih next :)

theorem runOpen {s : Scan ℝ} {i : ℕ} {t u : Trace ℝ}
    {answer : Except (FitError ℝ) (Scan ℝ × List (Sample ℝ))} (o : Open s.space i)
    (run : (s.run f (.index i) defaultSteps 0 0).run t = (answer, u)) :
    u.calls = t.calls + defaultSteps ∧ u.sound = t.sound ∧
      ∃ found, answer = .ok found ∧ ∀ j, Open s.space j → Open found.1.space j := by
  rcases runCases run with ⟨_, _, empty⟩ | ⟨_, _, none⟩ | ⟨k, first, found, same, visited⟩
  · exact absurd (empty i (if_pos o.declared)) o.interval
  · rcases none with reversed | few
    · exact absurd reversed (lt_irrefl _)
    · exact absurd few (by decide)
  · refine ⟨?_, visitSound reads visited, found, same, fun j other => visitOpen other visited⟩
    rw [visitCalls visited, gridLength]
    rfl

end Scan

namespace Surface
variable {f : Surface ℝ} (reads : ∀ x, f.objective.reads x ≤ x.size)
include reads

theorem scanEachOpen {space : Space ℝ} {x : Scan ℝ} {v w : Array ℝ} {best lowest : ℝ}
    {axes : List (ℕ × ℕ)} {t u : Trace ℝ} (all : ∀ a ∈ axes, Scan.Open x.space a.1)
    (run : (f.scanEach space x v best axes).run t = ((w, lowest), u)) :
    u.calls = t.calls + Scan.defaultSteps * axes.length ∧ u.sound = t.sound := by
  induction axes generalizing x v best t with
  | nil =>
    cases run
    exact ⟨rfl, rfl⟩
  | cons axis rest ih =>
    obtain ⟨answer, y, scanned, next⟩ := Eval.runParts run
    obtain ⟨calls, sound, found, rfl, keeps⟩ :=
      Scan.runOpen reads (all axis (List.mem_cons_self ..)) scanned
    have others : ∀ a ∈ rest, Scan.Open found.1.space a.1 := fun a inRest =>
      keeps _ (all a (List.mem_cons_of_mem _ inRest))
    have more : u.calls = y.calls + Scan.defaultSteps * rest.length ∧ u.sound = y.sound := by
      dsimp only at next
      split at next
      · exact ih others next
      · exact ih others next
    rw [List.length_cons, Nat.mul_succ]
    exact ⟨by omega, more.2.trans sound⟩

theorem scanAxesOpen {seed : Seed ℝ} {t u : Trace ℝ} {min : Minimum ℝ}
    (all : ∀ i ∈ seed.space.free, Scan.Open (seed.knowledge.setParameters f.errorDef seed.space) i)
    (run : (f.scanAxes seed).run t = (min, u)) :
    u.calls = t.calls + Scan.defaultSteps * seed.space.dimension ∧ min.callLimit = false ∧
      u.sound = (t.sound && (seed.knowledge.fitsIn seed.space &&
        decide (seed.space.dimension ≤ seed.knowledge.error.inverse.size))) := by
  obtain ⟨_, v, checked, rest⟩ := Eval.runParts run
  obtain ⟨⟨x, best⟩, w, scanned, rest⟩ := Eval.runParts rest
  obtain ⟨calls, y, asked, rest⟩ := Eval.runParts rest
  have opens : ∀ a ∈ seed.space.free.zipIdx,
      Scan.Open (FitState.ofKnowledge seed.knowledge f.errorDef seed.space).space a.1 := by
    intro a among
    have start : (FitState.ofKnowledge seed.knowledge f.errorDef seed.space).space =
        seed.knowledge.setParameters f.errorDef seed.space := by
      unfold FitState.ofKnowledge
      split <;> rfl
    rw [start]
    exact all _ (List.fst_mem_of_mem_zipIdx among)
  obtain ⟨spent, sound⟩ := scanEachOpen reads opens scanned
  rw [List.length_zipIdx] at spent
  cases checked
  cases asked
  cases rest
  exact ⟨spent, rfl, sound⟩

omit reads in
theorem guessRows (p : Point ℝ) (prec : Precision ℝ) :
    (diagonalError (f.guess p) prec).inverse.size = f.space.dimension := by
  rw [diagonalError, ErrorMatrix.usable, Symmetric.ofDiagonal, Symmetric.build,
    Gradient.inverseCurvatures, Array.size_map, (f.guessFull p).curvatures]

omit reads in
theorem guessCovers (p : Point ℝ) (prec : Precision ℝ) :
    (diagonalError (f.guess p) prec).covers (f.guess p) = true :=
  ErrorMatrix.coversSame ((f.guessFull p).slopes.trans (guessRows p prec).symm)

theorem simplexSeedOpen {state : FitState ℝ} {seed : Seed ℝ} {t u : Trace ℝ}
    (here : f.space = state.space) (run : (f.simplexSeed state).run t = (seed, u)) :
    u.calls = t.calls + 1 ∧ u.sound = t.sound ∧ seed.space = state.space ∧
      seed.knowledge.point.x = state.space.internal ∧ seed.knowledge.error.isValid ∧
      seed.knowledge.error.inverse.size = state.space.dimension := by
  let x := state.space.internal
  let z := f.space.external x
  let p := Point.plain x (f.objective.value z)
  let g := f.guess p
  let e := diagonalError g state.space.precision
  have same : (f.simplexSeed state).run t =
      (⟨⟨p, e, g, e.edm g, (t.values.push z).size⟩, state.space⟩, ⟨t.values.push z, t.slopes,
        ((t.sound && decide (x.size ≤ f.space.dimension)) &&
          decide (f.objective.reads z ≤ z.size)) && e.covers g⟩) := rfl
  have whole : x.size ≤ f.space.dimension := by simp [x, here, Space.internal, Space.dimension]
  rw [decide_eq_true whole, decide_eq_true (reads z), guessCovers] at same
  obtain ⟨rfl, rfl⟩ := Prod.mk.inj (run.symm.trans same)
  refine ⟨Array.size_push _, by simp, rfl, rfl, rfl, ?_⟩
  rw [← here]
  exact guessRows p state.space.precision

end Surface

namespace Fit
section
variable [Spectral α] {f : Fit α} {maxCalls : Nat} {tolerance : α} {min : Minimum α} {t u : Trace α}

def Outlasts (f : Fit α) (maxCalls : Nat) (tolerance : α) : Prop :=
  let (seed, t) := f.seed.run {}
  f.surface.Outlasts (f.methodFrom seed) seed f.strategy maxCalls (f.distance tolerance) t
    f.algorithm

theorem searchFromBudget (run : (f.searchFrom maxCalls tolerance).run {} = (min, u))
    (unflagged : min.callLimit = false) : u.calls ≤ maxCalls ↔ ¬ f.Outlasts maxCalls tolerance := by
  obtain ⟨seed, v, begun, run⟩ := Eval.runParts run
  obtain ⟨calls, v, asked, run⟩ := Eval.runParts run
  cases asked
  simp only [Outlasts, begun]
  split at run
  case isTrue spent =>
    cases run
    cases unflagged
  case isFalse left => exact Surface.searchBudget (Nat.lt_of_not_le left) run unflagged

/- A result without the flag has kept its budget exactly where it did not spend it after the last
test. -/
theorem budgetKept {g : Fit α}
    (run : (f.minimizeWith maxCalls tolerance).run t = (.ok (g, min), u))
    (unflagged : min.callLimit = false) :
    u.calls ≤ t.calls + f.allowance maxCalls ↔ ¬ f.Outlasts (f.allowance maxCalls) tolerance := by
  rw [minimizeWith] at run
  split at run
  case isTrue => cases run
  case isFalse =>
    obtain ⟨low, v, searched, run⟩ := Eval.runParts run
    rw [Eval.runApart] at searched
    generalize found : (f.searchFrom (f.allowance maxCalls) tolerance).run {} = r at searched
    obtain ⟨min', w⟩ := r
    cases searched
    cases run
    rw [Trace.callsAppend, Nat.add_le_add_iff_left]
    exact searchFromBudget found unflagged

end

/- One parameter without limits, scanned by an objective that does not read it. -/
noncomputable def level : Fit ℝ :=
  let x : Parameter ℝ := { number := 0, name := "x", value := 0, error := 0.1 }
  .new (.plain fun _ => 0) (.ofSpace ⟨.machine, #[x], [0], [("x", 0)], #[0]⟩) .scan

theorem validCovariance {k : Knowledge ℝ} (known : k.error.isValid) : k.hasCovariance := by
  rw [ErrorMatrix.isValid, beq_iff_eq] at known
  rw [Knowledge.hasCovariance, ErrorMatrix.isAvailable, known]
  rfl

theorem levelOpen (k : Knowledge ℝ) (up : ℝ) (known : k.error.isValid) :
    Scan.Open (k.setParameters up level.state.space) 0 := by
  have error : 0 ≤ level.state.space.externalError 0 (entry k.point.x 0) (k.internalError up 0) := by
    have free : level.state.space.limits 0 = .free := rfl
    rw [Space.externalError, free, Knowledge.internalError, if_pos (validCovariance known)]
    exact Real.sqrt_nonneg _
  refine ⟨?_, ?_, ?_, ?_⟩ <;>
    simp only [Knowledge.setParameters, level, Fit.new, FitState.ofSpace, List.zipIdx_cons,
      List.zipIdx_nil, List.foldl_cons, List.foldl_nil]
  · exact Nat.one_pos
  · rfl
  · rfl
  · exact error

theorem levelRun {maxCalls : ℕ} (left : 1 < maxCalls) (tolerance : ℝ) :
    ∃ g min u, (level.minimizeWith maxCalls tolerance).run? {} = some (.ok (g, min), u) ∧
      min.callLimit = false ∧ u.calls = 42 := by
  have reads : ∀ x, level.surface.objective.reads x ≤ x.size := fun x => Nat.zero_le _
  have budget : level.allowance maxCalls = maxCalls := if_neg (by omega)
  generalize begun : level.seed.run {} = r
  obtain ⟨seed, t⟩ := r
  obtain ⟨one, sound, space, x, known, rows⟩ := Surface.simplexSeedOpen reads rfl begun
  generalize searched : (level.surface.scanAxes seed).run t = r
  obtain ⟨min, u⟩ := r
  have opens : ∀ i ∈ seed.space.free,
      Scan.Open (seed.knowledge.setParameters level.surface.errorDef seed.space) i := by
    rw [space]
    intro i first
    obtain rfl := List.mem_singleton.mp first
    exact levelOpen seed.knowledge _ known
  obtain ⟨calls, unflagged, whole⟩ := Surface.scanAxesOpen reads opens searched
  have size : seed.knowledge.size = seed.space.dimension := by rw [Knowledge.size, x, space]; rfl
  have fits : seed.knowledge.fitsIn seed.space = true := by
    rw [Knowledge.fitsIn, size, rows, ← space]
    simp [validCovariance known]
  have enough : seed.space.dimension ≤ seed.knowledge.error.inverse.size := by
    rw [rows, space]
  rw [fits, decide_eq_true enough, sound] at whole
  have run : (level.searchFrom maxCalls tolerance).run {} = (min, u) := by
    rw [searchFrom, Eval.runBind, begun, Eval.runBind]
    change (if maxCalls ≤ t.calls then _ else _ : Eval ℝ (Minimum ℝ)).run t = _
    rw [if_neg (by rw [one]; exact Nat.not_le.mpr left)]
    exact searched
  refine ⟨{ level with state := min.state, calls := level.calls + min.calls }, min,
    Trace.append {} u, ?_, unflagged, ?_⟩
  · have answer : (level.minimizeWith maxCalls tolerance).run {} =
        (.ok ({ level with state := min.state, calls := level.calls + min.calls }, min),
          Trace.append {} u) := by
      rw [minimizeWith, if_neg (by decide), Eval.runBind, Eval.runApart, budget, run]
      rfl
    exact Eval.runAnswers.mpr ⟨answer, by rw [Trace.append, whole]; rfl⟩
  · rw [Trace.callsAppend, calls, one, space]
    rfl

theorem budgetKeptLevel : ∃ g min u,
    (level.minimizeWith 100 0.1).run {} = (.ok (g, min), u) ∧ min.callLimit = false ∧
      ¬ level.Outlasts (level.allowance 100) 0.1 ∧
      u.calls ≤ ({} : Trace ℝ).calls + level.allowance 100 := by
  obtain ⟨g, min, u, answer, unflagged, _⟩ := levelRun (show 1 < 100 by decide) 0.1
  have run := (Eval.runAnswers.mp answer).1
  have tested : ¬ level.Outlasts (level.allowance 100) 0.1 := by
    have reads : ∀ x, level.surface.objective.reads x ≤ x.size := fun x => Nat.zero_le _
    rw [Outlasts]
    generalize begun : level.seed.run {} = r
    obtain ⟨seed, t⟩ := r
    obtain ⟨one, _, space, _⟩ := Surface.simplexSeedOpen reads rfl begun
    have within : t.calls + Scan.defaultSteps * seed.space.dimension ≤ level.allowance 100 := by
      rw [one, space]
      decide
    exact Nat.not_lt.mpr ((Surface.scanAxesMost rfl).trans within)
  exact ⟨g, min, u, run, unflagged, tested, (budgetKept run unflagged).mpr tested⟩

theorem budgetExceeded :
    ¬ ∀ (f : Fit ℝ) maxCalls tolerance g min u, 0 < maxCalls →
      (f.minimizeWith maxCalls tolerance).run? {} = some (.ok (g, min), u) →
      min.callLimit = false → u.calls ≤ maxCalls := by
  intro kept
  obtain ⟨g, min, u, run, unflagged, calls⟩ := levelRun (show 1 < 5 by decide) 0.1
  have most := kept level 5 0.1 g min u (by decide) run unflagged
  omega

end Fit
end ParamFit
