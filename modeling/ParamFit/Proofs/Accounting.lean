import ParamFit.Exact
import ParamFit.Proofs.Rounds

/-! What a search reports of its calls. A result carries the number of calls as it stood when its last
point was found. That is the number of all calls, unless a descent ends with a round whose calls
belong to no point: one that stayed where it was, or one whose model could not be repaired. -/
namespace ParamFit
variable {α : Type}

/-! ### Seeds -/

namespace Surface
section
variable [Spectral α] {s : Surface α} {k next : Knowledge α} {t u : Trace α}

theorem concludeCalls (k : Knowledge α) (prec : Precision α) (calls : Nat)
    (found : Except (HessianFailure × Array α) (Symmetric α × Gradient α)) :
    (Hessian.conclude k prec calls found).calls = k.calls + calls := by
  cases found with
  | error failure => rfl
  | ok found =>
    unfold Hessian.conclude
    dsimp only
    split
    · rfl
    · split <;> rfl

theorem secondDerivativesCalls {st : Strategy α} {limit : Nat}
    (run : (s.secondDerivatives st k limit).run t = (next, u)) :
    next.calls + t.calls = k.calls + u.calls ∧ t.calls ≤ u.calls := by
  rw [secondDerivatives] at run
  split at run
  · cases run
    exact ⟨rfl, Nat.le_refl _⟩
  · obtain ⟨before, v, asked, run⟩ := Eval.runParts run
    cases asked
    obtain ⟨found, v, searched, run⟩ := Eval.runParts run
    have more : t.calls ≤ v.calls := by
      have grows := (Hessian.matrixAsks (anywhereInside s) st k
        (if limit = 0 then defaultBudget k.size else limit) t.calls).grows t
      rwa [searched] at grows
    cases run
    refine ⟨?_, more⟩
    rw [concludeCalls]
    change k.calls + (v.calls - t.calls) + t.calls = k.calls + v.calls
    omega

end

section
variable [Scalar α] {s : Surface α} {m : GradientMethod α} {k next : Knowledge α} {t u : Trace α}

theorem leaveDownwardCalls {prec : Precision α} (known : k.calls = t.calls)
    (run : (s.leaveDownward m k prec).run t = (next, u)) : next.calls = u.calls := by
  simp only [leaveDownward, Eval.runIte] at run
  split at run
  · cases run
    exact known
  · cases run
    rfl

theorem settleStartCalls {st : Strategy α} {prec : Precision α} (known : k.calls = t.calls)
    (run : (s.settleStart m st k prec).run t = (next, u)) : next.calls = u.calls := by
  simp only [settleStart, Eval.runIte] at run
  split at run
  · cases run
    exact known
  · split at run
    · exact leaveDownwardCalls known run
    · cases run
      rfl

end

section
variable [Spectral α] {s : Surface α} {m : GradientMethod α} {st : Strategy α}
  {check : GradientCheck} {state : FitState α} {seed : Seed α} {t u : Trace α}

theorem descentSeedCalls (run : (s.descentSeed m st check state).run t = (seed, u)) :
    seed.knowledge.calls = u.calls := by
  obtain ⟨p, v, _, run⟩ := Eval.runParts run
  obtain ⟨g, t, _, run⟩ := Eval.runParts run
  obtain ⟨k, t, known, run⟩ := Eval.runParts run
  obtain ⟨settled, v, settles, run⟩ := Eval.runParts run
  have counted : settled.calls = v.calls := by
    refine settleStartCalls ?_ settles
    cases known
    rfl
  split at run
  · obtain ⟨next, w, refined, run⟩ := Eval.runParts run
    obtain ⟨same, _⟩ := secondDerivativesCalls refined
    have kept : next.calls = w.calls := by omega
    cases run
    exact kept
  · cases run
    exact counted

theorem descentSeedSpends (m : GradientMethod α) (st : Strategy α) (check : GradientCheck)
    (state : FitState α) (t : Trace α) :
    t.calls < ((s.descentSeed m st check state).run t).2.calls := by
  have asked : ((s.startPoint state).run t).2.calls = t.calls + 1 := s.callsValue _ t
  have more := (descentSeedAtAsks (anywhereInside s) m st check state
    ((s.startPoint state).run t).1).grows ((s.startPoint state).run t).2
  rw [asked] at more
  exact more

theorem seedCalls {a : Algorithm} (run : (s.seed a m st check state).run t = (seed, u)) :
    seed.knowledge.calls = u.calls := by
  simp only [Surface.seed, Eval.runIte] at run
  split at run
  · exact descentSeedCalls run
  · cases run
    rfl

end
end Surface

/-! ### Descents -/

namespace Descent

def Outcome.isKept : Outcome α → Bool
  | .moved _ | .stillUphill _ => true
  | .stuck | .stillIndefinite _ => false

section
variable [Spectral α] {s : Surface α} {m : GradientMethod α} {prec : Precision α} {maxCalls : Nat}
  {edmval wanted : α} {seed : Seed α} {t u : Trace α} {min : Minimum α}

theorem alignedCalls (k : Knowledge α) : (aligned prec k).calls = k.calls := by
  unfold aligned
  split <;> rfl

theorem promisingCalls (g : Gradient α) (k : Knowledge α) :
    (promising prec g k).calls = k.calls := by
  unfold promising
  split <;> rfl

theorem Search.calls {k last : Knowledge α} {v : Trace α} (known : k.calls = t.calls)
    (search : Search s m prec maxCalls wanted k t last v) : last.calls = v.calls := by
  induction search with
  | last _ => exact known
  | next moved _ _ ih =>
    refine ih ?_
    rcases roundCases s m prec moved with ⟨_, other, _⟩ | ⟨_, _, other | ⟨p, g, _, ends⟩⟩
    · cases other
    · cases other
    · rcases ends with ⟨other, _⟩ | ⟨same, _⟩
      · cases other
      · cases same
        rfl

theorem roundCalls {k : Knowledge α} {o : Outcome α} (known : k.calls = t.calls)
    (run : (round s m prec k).run t = (o, u)) :
    (o.left k).calls ≤ u.calls ∧ ((o.left k).calls = u.calls ↔ o.isKept) := by
  rcases roundCases s m prec run with ⟨_, rfl, same⟩ | ⟨_, spent, rfl | ⟨p, g, _, ends⟩⟩
  · have kept : (aligned prec k).calls = u.calls := by rw [alignedCalls, known, same]
    exact ⟨Nat.le_of_eq kept, iff_of_true kept rfl⟩
  · have lost : k.calls < u.calls := known ▸ spent
    exact ⟨Nat.le_of_lt lost, iff_of_false (Nat.ne_of_lt lost) Bool.false_ne_true⟩
  · rcases ends with ⟨rfl, _⟩ | ⟨rfl, _⟩
    · have lost : (promising prec g (aligned prec k)).calls < u.calls := by
        rw [promisingCalls, alignedCalls, known]
        exact spent
      exact ⟨Nat.le_of_lt lost, iff_of_false (Nat.ne_of_lt lost) Bool.false_ne_true⟩
    · exact ⟨Nat.le_refl _, iff_of_true rfl rfl⟩

def Loses (s : Surface α) (m : GradientMethod α) (seed : Seed α) (maxCalls : Nat) (edmval : α)
    (t : Trace α) : Prop :=
  ∃ last o u, Ends s m maxCalls (edmval * 0.0001) seed t last o u ∧ o.isKept = false

theorem iterateCalls (known : seed.knowledge.calls = t.calls)
    (run : (iterate s m seed maxCalls edmval).run t = (min, u)) :
    min.calls ≤ u.calls ∧ (min.calls = u.calls ↔ ¬ Loses s m seed maxCalls edmval t) := by
  rcases iterateCases run with ⟨barren, rfl, rfl⟩ | ⟨last, o, ends, judged⟩
  · refine ⟨Nat.le_of_eq known, iff_of_true known ?_⟩
    rintro ⟨last, o, u, ends, _⟩
    exact ends.fertile barren
  · obtain ⟨v, search, final⟩ := ends.reached
    obtain ⟨most, exactly⟩ := roundCalls (search.calls known) final
    rw [Minimum.calls, judged.last]
    refine ⟨most, exactly.trans ⟨?_, ?_⟩⟩
    · rintro kept ⟨last', o', u', ends', lost⟩
      obtain ⟨_, rfl, _⟩ := ends.unique s m maxCalls _ ends'
      rw [kept] at lost
      cases lost
    · intro keeps
      refine Bool.of_not_eq_false fun lost => keeps ⟨last, o, u, ends, lost⟩

end
end Descent

namespace Surface
section
variable [Spectral α] {s : Surface α} {m : GradientMethod α} {st : Strategy α} {maxCalls : Nat}
  {edmval : α} {seed : Seed α} {t u : Trace α} {min : Minimum α}

theorem descendCalls (known : seed.knowledge.calls = t.calls)
    (run : (s.descend m seed st maxCalls edmval).run t = (min, u)) :
    min.calls ≤ u.calls ∧ (min.calls = u.calls ↔ ¬ Descent.Loses s m seed maxCalls edmval t) := by
  obtain ⟨low, v, found, run⟩ := Eval.runParts run
  obtain ⟨most, exactly⟩ := Descent.iterateCalls known found
  split at run
  · obtain ⟨next, w, refined, run⟩ := Eval.runParts run
    obtain ⟨same, _⟩ := secondDerivativesCalls refined
    rw [← exactly]
    change low.last.calls ≤ v.calls at most
    have relative : next.calls ≤ w.calls ∧ (next.calls = w.calls ↔ low.last.calls = v.calls) := by
      omega
    cases run
    exact relative
  · cases run
    exact ⟨most, exactly⟩

theorem descendEmpty (empty : seed.knowledge.size = 0)
    (run : (s.descend m seed st maxCalls edmval).run t = (min, u)) : u = t := by
  obtain ⟨low, v, found, rest⟩ := Eval.runParts run
  rcases Descent.iterateCases found with ⟨_, rfl, rfl⟩ | ⟨_, _, ends, _⟩
  · have settled : ¬ st.refines (Minimum.ofSeed seed s.errorDef).last := by
      simp [Strategy.refines, Minimum.ofSeed, empty]
    rw [if_neg settled] at rest
    cases rest
    rfl
  · exact absurd (.inl empty) ends.fertile

end

section
variable [Scalar α] {s : Surface α} {maxCalls : Nat} {edmval : α} {seed : Seed α} {t u : Trace α}
  {min : Minimum α}

theorem contractCases (run : (s.contract seed maxCalls edmval).run t = (min, u)) :
    (seed.knowledge.size = 0 ∧ min = .ofSeed seed s.errorDef ∧ u = t) ∨
      (min.calls = u.calls ∧ (min.callLimit ↔ maxCalls < u.calls)) := by
  rw [contract] at run
  split at run
  case isTrue empty =>
    cases run
    exact .inl ⟨empty, rfl, rfl⟩
  case isFalse =>
    refine .inr ?_
    obtain ⟨_, t, _, run⟩ := Eval.runParts run
    obtain ⟨simplex, t, _, run⟩ := Eval.runParts run
    obtain ⟨simplex, t, _, run⟩ := Eval.runParts run
    obtain ⟨⟨simplex, best⟩, t, _, run⟩ := Eval.runParts run
    obtain ⟨calls, t, asked, run⟩ := Eval.runParts run
    cases asked
    cases run
    split
    case isTrue spent => exact ⟨rfl, iff_of_true rfl spent⟩
    case isFalse left =>
      split
      · exact ⟨rfl, iff_of_false Bool.false_ne_true left⟩
      · exact ⟨rfl, iff_of_false Bool.false_ne_true left⟩

theorem contractCalls (known : seed.knowledge.size = 0 → seed.knowledge.calls = t.calls)
    (run : (s.contract seed maxCalls edmval).run t = (min, u)) : min.calls = u.calls := by
  rcases contractCases run with ⟨empty, rfl, rfl⟩ | ⟨counted, _⟩
  · exact known empty
  · exact counted

theorem scanAxesCalls (run : (s.scanAxes seed).run t = (min, u)) : min.calls = u.calls := by
  obtain ⟨_, t, _, run⟩ := Eval.runParts run
  obtain ⟨⟨x, best⟩, t, _, run⟩ := Eval.runParts run
  obtain ⟨calls, t, asked, run⟩ := Eval.runParts run
  cases asked
  cases run
  rfl

end

section
variable [Spectral α] (s : Surface α) (m : GradientMethod α) (seed : Seed α) (st : Strategy α)
  (maxCalls : Nat) (edmval : α) (t : Trace α)

/- A second descent is not valid, so that its calls are lost, or loses calls itself. -/
def LosesAgain (coarse : Minimum α) : Prop :=
  ((s.descendAgain m coarse maxCalls edmval).run t).1.isValid = false ∨
    Descent.Loses s m ((s.seedAgain m coarse).run t).1 maxCalls edmval
      ((s.seedAgain m coarse).run t).2

def LosesTwice : Prop :=
  let first := (s.descend m seed st maxCalls edmval).run t
  let coarse := (s.contract seed maxCalls edmval).run first.2
  if first.1.isValid then Descent.Loses s m seed maxCalls edmval t
  else coarse.1.isValid ∧ s.LosesAgain m maxCalls edmval coarse.2 coarse.1

def Loses (a : Algorithm) : Prop :=
  match a with
  | .descent => Descent.Loses s m seed maxCalls edmval t
  | .combined => s.LosesTwice m seed st maxCalls edmval t
  | .simplex | .scan => False

variable {s m seed st maxCalls edmval t} {u : Trace α} {min : Minimum α}

theorem descendAgainCalls {coarse : Minimum α}
    (run : (s.descendAgain m coarse maxCalls edmval).run t = (min, u)) :
    min.calls ≤ u.calls ∧ (min.calls = u.calls ↔
      ¬ Descent.Loses s m ((s.seedAgain m coarse).run t).1 maxCalls edmval
        ((s.seedAgain m coarse).run t).2) := by
  obtain ⟨again, v, seeded, run⟩ := Eval.runParts run
  rw [seeded]
  refine descendCalls ?_ run
  obtain ⟨_, w, _, seeded⟩ := Eval.runParts seeded
  exact descentSeedCalls seeded

theorem descendAgainSpends {coarse : Minimum α}
    (run : (s.descendAgain m coarse maxCalls edmval).run t = (min, u)) : t.calls < u.calls := by
  obtain ⟨again, v, seeded, searched⟩ := Eval.runParts run
  obtain ⟨_, w, checked, begun⟩ := Eval.runParts seeded
  have first := descentSeedSpends (s := s) m .high .off coarse.state w
  have rest := (descendAsks (anywhereInside s) m again .high maxCalls edmval).grows v
  rw [begun] at first
  rw [searched] at rest
  cases checked
  exact Nat.lt_of_lt_of_le first rest

theorem descendTwiceCalls (known : seed.knowledge.calls = t.calls)
    (run : (s.descendTwice m seed st maxCalls edmval).run t = (min, u)) :
    min.calls ≤ u.calls ∧
      (min.calls = u.calls ↔ ¬ s.LosesTwice m seed st maxCalls edmval t) := by
  obtain ⟨first, v, descended, run⟩ := Eval.runParts run
  simp only [LosesTwice, descended]
  split at run
  case isTrue valid =>
    cases run
    rw [if_pos valid]
    exact descendCalls known descended
  case isFalse invalid =>
    rw [if_neg invalid]
    obtain ⟨coarse, w, contracted, run⟩ := Eval.runParts run
    rw [contracted]
    have counted : coarse.calls = w.calls := by
      refine contractCalls (fun empty => ?_) contracted
      rw [descendEmpty empty descended]
      exact known
    by_cases valid : coarse.isValid
    · rw [if_neg (by simp [valid])] at run
      obtain ⟨second, x, again, run⟩ := Eval.runParts run
      obtain ⟨most, exactly⟩ := descendAgainCalls again
      have lost : coarse.calls < x.calls := by
        rw [counted]
        exact descendAgainSpends again
      simp only [LosesAgain, again]
      cases run
      by_cases better : second.isValid
      · rw [if_pos better]
        exact ⟨most, exactly.trans (by simp [valid, better])⟩
      · rw [if_neg better]
        exact ⟨Nat.le_of_lt lost, iff_of_false (Nat.ne_of_lt lost) (by simp [valid, better])⟩
    · rw [if_pos (by simp [valid])] at run
      cases run
      exact ⟨Nat.le_of_eq counted, iff_of_true counted fun lost => valid lost.1⟩

theorem searchCalls {a : Algorithm} (known : seed.knowledge.calls = t.calls)
    (run : (s.search a m seed st maxCalls edmval).run t = (min, u)) :
    min.calls ≤ u.calls ∧ (min.calls = u.calls ↔ ¬ s.Loses m seed st maxCalls edmval t a) := by
  cases a with
  | descent => exact descendCalls known run
  | combined => exact descendTwiceCalls known run
  | simplex =>
    have counted := contractCalls (fun _ => known) run
    exact ⟨Nat.le_of_eq counted, iff_of_true counted id⟩
  | scan =>
    have counted := scanAxesCalls run
    exact ⟨Nat.le_of_eq counted, iff_of_true counted id⟩

end
end Surface

/-! ### Scans -/

namespace Scan
variable [Scalar α] {f : Surface α}

def bounds (s : Scan α) (i : Nat) (low high : α) : α × α :=
  interval (s.space.parameterAt i) low high

/- How a scan is answered: refused, with the sample it begins with alone, or after all its points. -/
theorem runCases {s : Scan α} {p : Address} {steps : Nat} {low high : α} {t u : Trace α}
    {answer : Except (FitError α) (Scan α × List (Sample α))}
    (run : (s.run f p steps low high).run t = (answer, u)) :
    (u = t ∧ (∃ e, answer = .error e) ∧ ∀ i, s.space.indexOf p = .ok i →
      (s.bounds i low high).1 > (s.bounds i low high).2) ∨
    (u = t ∧ (∃ only, answer = .ok (s, only)) ∧ (low > high ∨ Min.min steps maxSteps < 2)) ∨
    ∃ i first found, answer = .ok found ∧ (visit f i s.space.declaredValues s [first]
      (grid (s.bounds i low high).1 (s.bounds i low high).2 (Min.min steps maxSteps))).run t =
        (found, u) := by
  rw [Scan.run] at run
  cases known : s.space.indexOf p with
  | error e =>
    rw [known] at run
    cases run
    exact .inl ⟨rfl, ⟨e, rfl⟩, by rintro i ⟨⟩⟩
  | ok i =>
    rw [known] at run
    dsimp only at run
    split at run
    case isTrue none =>
      cases run
      exact .inr (.inl ⟨rfl, ⟨_, rfl⟩, none⟩)
    case isFalse =>
      split at run
      case isTrue empty =>
        cases run
        refine .inl ⟨rfl, ⟨_, rfl⟩, ?_⟩
        rintro j ⟨⟩
        exact empty
      case isFalse =>
        obtain ⟨found, v, visited, run⟩ := Eval.runParts run
        cases run
        exact .inr (.inr ⟨i, _, found, rfl, visited⟩)

end Scan

/-! ### Requests -/

namespace Fit
section
variable [Spectral α] (f : Fit α)

/- A minimization that asks more than its result says. A beginning that spends the budget knows of
all its calls. -/
def LosesCalls (maxCalls : Nat) (tolerance : α) : Prop :=
  let (seed, t) := f.seed.run {}
  t.calls < maxCalls ∧ f.surface.Loses (f.methodFrom seed) seed f.strategy maxCalls
    (f.distance tolerance) t f.algorithm

/- A scan that is refused although the parameter is declared; it has already asked for the value to
begin with. -/
def RefusesLate (p : Address) (steps : Nat) (low high : α) : Prop :=
  ∃ i e, f.state.space.indexOf p = .ok i ∧ ((f.scan p steps low high).run {}).1 = .error e

def Misses : Request α → Prop
  | .minimize maxCalls tolerance => f.state.valid ∧ f.LosesCalls (f.allowance maxCalls) tolerance
  | .scan p steps low high => f.RefusesLate p steps low high

/- No request of a list is one that the count misses calls of, each taken after those before it. -/
def RecordsAll (f : Fit α) : List (Request α) → Prop
  | [] => True
  | r :: rest => ¬ f.Misses r ∧ ((f.serve r).run {}).1.RecordsAll rest

variable {f} {g : Fit α} {maxCalls : Nat} {tolerance : α} {min : Minimum α} {t u : Trace α}

theorem searchFromCalls (run : (f.searchFrom maxCalls tolerance).run {} = (min, u)) :
    min.calls ≤ u.calls ∧ (min.calls = u.calls ↔ ¬ f.LosesCalls maxCalls tolerance) := by
  obtain ⟨seed, v, begun, run⟩ := Eval.runParts run
  have known : seed.knowledge.calls = v.calls := Surface.seedCalls begun
  obtain ⟨calls, v, asked, run⟩ := Eval.runParts run
  cases asked
  simp only [LosesCalls, begun]
  split at run
  case isTrue spent =>
    cases run
    exact ⟨Nat.le_of_eq known, iff_of_true known fun lost => absurd lost.1 (Nat.not_lt.mpr spent)⟩
  case isFalse left =>
    obtain ⟨most, exactly⟩ := Surface.searchCalls known run
    exact ⟨most, exactly.trans (by simp [Nat.lt_of_not_le left])⟩

theorem minimizeCases {result : Except (FitError α) (Fit α × Minimum α)}
    (run : (f.minimizeWith maxCalls tolerance).run t = (result, u)) :
    (f.state.valid = false ∧ (∃ e, result = .error e) ∧ u = t) ∨
      (f.state.valid ∧ ∃ g min, result = .ok (g, min) ∧ g.calls = f.calls + min.calls ∧
        t.calls + min.calls ≤ u.calls ∧
        (t.calls + min.calls = u.calls ↔ ¬ f.LosesCalls (f.allowance maxCalls) tolerance)) := by
  rw [minimizeWith] at run
  split at run
  case isTrue refused =>
    cases run
    exact .inl ⟨by simpa using refused, ⟨_, rfl⟩, rfl⟩
  case isFalse valid =>
    generalize found : (f.searchFrom (f.allowance maxCalls) tolerance).run {} = r
    obtain ⟨low, v⟩ := r
    obtain ⟨most, exactly⟩ := searchFromCalls found
    obtain ⟨low', w, apart, run⟩ := Eval.runParts run
    rw [Eval.runApart, found] at apart
    cases apart
    cases run
    refine .inr ⟨by simpa using valid, _, low, rfl, rfl, ?_⟩
    rw [Trace.callsAppend, ← exactly]
    dsimp only
    omega

theorem scanDeclared {p : Address} {i : Nat} (declared : f.state.space.indexOf p = .ok i)
    (steps : Nat) (low high : α) (t : Trace α) :
    (∃ e, ((f.scan p steps low high).run {}).1 = .error e ∧
      ((f.scan p steps low high).run t).1 = .error e ∧
      ((f.scan p steps low high).run t).2.calls = t.calls + 1) ∨
    (∃ g samples, ((f.scan p steps low high).run {}).1 = .ok (g, samples) ∧
      ((f.scan p steps low high).run t).1 = .ok (g, samples) ∧
      g.calls + t.calls = f.calls + ((f.scan p steps low high).run t).2.calls) := by
  rw [scan, declared]
  simp only [Eval.runApart, Trace.callsAppend]
  generalize run : StateT.run (_ : Eval α (Except (FitError α) (Fit α × List (Sample α)))) _ = r
  obtain ⟨result, u⟩ := r
  obtain ⟨start, v, begun, rest⟩ := Eval.runParts run
  obtain ⟨answer, w, scanned, final⟩ := Eval.runParts rest
  have once : v.calls = 1 := by
    obtain ⟨y, v, asked, begun⟩ := Eval.runParts begun
    have one := f.surface.callsExternalValue f.state.space.declaredValues {}
    rw [asked] at one
    cases begun
    exact one
  cases answer with
  | error e =>
    rcases Scan.runCases scanned with ⟨rfl, _⟩ | ⟨_, ⟨_, other⟩, _⟩ | ⟨_, _, _, other, _⟩
    · cases final
      exact .inl ⟨e, rfl, rfl, by rw [once]⟩
    · cases other
    · cases other
  | ok found =>
    obtain ⟨found, samples⟩ := found
    have sum : f.calls + w.calls + t.calls = f.calls + (t.calls + w.calls) := by omega
    cases final
    exact .inr ⟨_, samples, rfl, rfl, sum⟩

theorem scanOutside {p : Address} {steps i : Nat} {low high : α}
    (declared : f.state.space.indexOf p = .ok i) (known : f.state.space.indexOf (.index i) = .ok i)
    (ordered : ¬ (low > high ∨ Min.min steps Scan.maxSteps < 2))
    (empty : (Scan.interval (f.state.space.parameterAt i) low high).1 >
      (Scan.interval (f.state.space.parameterAt i) low high).2) (t : Trace α) :
    (f.scan p steps low high).run t =
      (.error (.refused (f.state.space.parameterAt i).name (.intervalOutside
        (Scan.interval (f.state.space.parameterAt i) low high).1
        (Scan.interval (f.state.space.parameterAt i) low high).2)),
       t.append ((f.surface.externalValue f.state.space.declaredValues).run {}).2) := by
  rw [scan, declared]
  dsimp only
  rw [Eval.runApart, Eval.runBind, Eval.runBind, Scan.run]
  have same : ((Scan.start f.surface f.state.space).run {}).1.space = f.state.space := rfl
  rw [same, known]
  dsimp only
  rw [if_neg ordered, if_pos empty]
  rfl

theorem serveCalls (f : Fit α) (r : Request α) (t : Trace α) :
    ((f.serve r).run t).1.calls + t.calls ≤ f.calls + ((f.serve r).run t).2.calls ∧
      (((f.serve r).run t).1.calls + t.calls = f.calls + ((f.serve r).run t).2.calls ↔
        ¬ f.Misses r) := by
  cases r with
  | minimize maxCalls tolerance =>
    rw [serve, Eval.runBind]
    generalize run : (f.minimizeWith maxCalls tolerance).run t = answered
    obtain ⟨result, u⟩ := answered
    rcases minimizeCases run with ⟨refused, ⟨e, rfl⟩, rfl⟩ |
      ⟨valid, g, min, rfl, counted, most, exactly⟩
    · simp only [Misses, refused, Bool.false_eq_true, false_and, not_false_eq_true, iff_true]
      exact ⟨Nat.le_refl _, rfl⟩
    · simp only [Misses, valid, true_and, ← exactly, after, Eval.runPure]
      omega
  | scan p steps low high =>
    rw [serve, Eval.runBind]
    cases declared : f.state.space.indexOf p with
    | error e =>
      have unasked : (f.scan p steps low high).run t = (.error e, t) := by rw [scan, declared]; rfl
      have kept : ¬ f.Misses (.scan p steps low high) := by
        rintro ⟨i, _, known, _⟩
        rw [declared] at known
        cases known
      rw [unasked]
      exact ⟨Nat.le_refl _, iff_of_true rfl kept⟩
    | ok i =>
      rcases scanDeclared declared steps low high t with
        ⟨e, alone, here, late⟩ | ⟨g, samples, alone, here, counts⟩
      · have missed : f.Misses (.scan p steps low high) := ⟨i, e, declared, alone⟩
        simp only [missed, here, late, after, Eval.runPure, not_true_eq_false, iff_false]
        omega
      · have kept : ¬ f.Misses (.scan p steps low high) := by
          rintro ⟨_, e, _, refused⟩
          rw [alone] at refused
          cases refused
        simp only [kept, here, after, Eval.runPure, not_false_eq_true, iff_true]
        exact ⟨Nat.le_of_eq counts, counts⟩

theorem serveFresh (f : Fit α) (r : Request α) (t : Trace α) :
    ((f.serve r).run t).1 = ((f.serve r).run {}).1 := by
  cases r with
  | minimize maxCalls tolerance =>
    have same : ((f.minimizeWith maxCalls tolerance).run t).1 =
        ((f.minimizeWith maxCalls tolerance).run {}).1 := by
      rw [minimizeWith]
      cases f.state.valid <;> rfl
    exact congrArg f.after same
  | scan p steps low high =>
    have same : ((f.scan p steps low high).run t).1 = ((f.scan p steps low high).run {}).1 := by
      rw [scan]
      cases f.state.space.indexOf p <;> rfl
    exact congrArg f.after same

theorem serveAllCalls (f : Fit α) (requests : List (Request α)) (t : Trace α) :
    ((f.serveAll requests).run t).1.calls + t.calls ≤
        f.calls + ((f.serveAll requests).run t).2.calls ∧
      (((f.serveAll requests).run t).1.calls + t.calls =
        f.calls + ((f.serveAll requests).run t).2.calls ↔ f.RecordsAll requests) := by
  -- No request counts too many calls, so what one misses is not made up for by another.
  induction requests generalizing f t with
  | nil => exact ⟨Nat.le_of_eq rfl, iff_of_true rfl trivial⟩
  | cons r rest ih =>
    obtain ⟨most, exactly⟩ := serveCalls f r t
    obtain ⟨mostRest, exactlyRest⟩ := ih ((f.serve r).run t).1 ((f.serve r).run t).2
    rw [serveAll, Eval.runBind, RecordsAll, ← exactly, ← serveFresh f r t, ← exactlyRest]
    omega

/- The number of calls that a minimization reports and the one that a fit keeps, against those that
were made. -/
theorem callsRecorded (f : Fit α) :
    (∀ maxCalls tolerance t g min u,
      (f.minimizeWith maxCalls tolerance).run t = (.ok (g, min), u) →
        (t.calls + min.calls = u.calls ↔ ¬ f.LosesCalls (f.allowance maxCalls) tolerance)) ∧
      ∀ requests t g u, (f.serveAll requests).run t = (g, u) →
        (g.calls + t.calls = f.calls + u.calls ↔ f.RecordsAll requests) := by
  refine ⟨?_, ?_⟩
  · intro maxCalls tolerance t g min u run
    rcases minimizeCases run with ⟨_, ⟨_, other⟩, _⟩ | ⟨_, _, _, same, _, _, exactly⟩
    · cases other
    · cases same
      exact exactly
  · intro requests t g u run
    have counts := (serveAllCalls f requests t).2
    rwa [run] at counts

end

noncomputable def bounded : Fit ℝ :=
  let x : Parameter ℝ :=
    { number := 0, name := "x", value := 0.5, error := 0.1, lower := some 0, upper := some 1 }
  let space : Space ℝ := ⟨.machine, #[x], [0], [("x", 0)], #[0.5]⟩
  .new (.plain fun _ => 0) (.ofSpace space) .descent

theorem scanUnrecorded :
    ¬ ∀ (f : Fit ℝ) (requests : List (Request ℝ)) (g : Fit ℝ) (u : Trace ℝ),
      (f.serveAll requests).run? {} = some (g, u) → g.calls = f.calls + u.calls := by
  intro recorded
  have declared : bounded.state.space.indexOf (.index 0) = .ok 0 := rfl
  have ordered : ¬ ((5 : ℝ) > 6 ∨ Min.min 2 Scan.maxSteps < 2) := by norm_num [Scan.maxSteps]
  have left : Scan.interval (bounded.state.space.parameterAt 0) 5 6 = (5, 1) := by
    simp [Scan.interval, bounded, Space.parameterAt, Fit.new, FitState.ofSpace]
  have refused := scanOutside declared declared ordered (by rw [left]; norm_num) {}
  let asked := (bounded.surface.externalValue bounded.state.space.declaredValues).run {}
  have served : (bounded.serveAll [.scan (.index 0) 2 5 6]).run {} =
      (bounded, Trace.append {} asked.2) := by
    rw [serveAll, Eval.runBind, serve, Eval.runBind, refused]
    rfl
  have sound : (Trace.append {} asked.2).sound = true := by
    dsimp only [asked]
    rw [Surface.runExternalValue]
    simp [Trace.append, bounded, Fit.surface, Fit.new, Objective.plain]
  have counted := recorded bounded [.scan (.index 0) 2 5 6] bounded (Trace.append {} asked.2)
    (Eval.runAnswers.mpr ⟨served, sound⟩)
  rw [Trace.callsAppend, bounded.surface.callsExternalValue] at counted
  cases counted

end Fit
end ParamFit
