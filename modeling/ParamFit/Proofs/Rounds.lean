import ParamFit.Proofs.Asking

/-! The rounds of a descent. What one round can do is said once, in `roundCases`; the rounds that
follow each other are a relation, `Search`, from the first round to the last. The fuel of the loop is
never spent: a round that goes on has asked at least once and has calls left. -/
namespace ParamFit
variable {α : Type}

/- Every point is admissible where only calls are counted. -/
def anywhere : Array α → Prop := fun _ => True

theorem anywhereInside [Scalar α] (s : Surface α) : ∀ x, anywhere (s.space.external x) :=
  fun _ => trivial

namespace Surface
variable [Scalar α]

theorem valueSpends {β : Type} (s : Surface α) (x : Array α) {f : α → Eval α β}
    (rest : ∀ y, Asks s anywhere (f y)) (t : Trace α) :
    t.calls < ((s.value x >>= f).run t).2.calls := by
  have more := (rest ((s.value x).run t).1).grows ((s.value x).run t).2
  rw [callsValue] at more
  exact more

theorem runSpends {s : Surface α} {probe : α → Eval α α} {x : α → Array α}
    (probes : ∀ t, probe t = s.value (x t)) (c : LineSearch.Course α) (t : Trace α) :
    t.calls < ((LineSearch.run probe c).run t).2.calls := by
  unfold LineSearch.run
  rw [probes 1]
  refine s.valueSpends _ (fun y => approachAsks (fun t => ?_) _ _ _) t
  rw [probes t]
  exact valueAsks (anywhereInside s) _

theorem lineSearchSpends (s : Surface α) (p : Point α) (step : Array α) (slope : α)
    (prec : Precision α) (t : Trace α) :
    t.calls < ((s.lineSearch p step slope prec).run t).2.calls :=
  runSpends (x := p.along step) (fun _ => rfl) _ ((Eval.expect (p.x.size == step.size)).run t).2

end Surface

namespace Descent
section
variable [Spectral α] (s : Surface α) (m : GradientMethod α) (prec : Precision α)

def Uphill (k : Knowledge α) : Prop := k.slopeAlong k.newtonStep > 0

theorem arriveCases {k : Knowledge α} {best : Sample α} {t u : Trace α} {o : Outcome α}
    (run : (arrive s m prec k best).run t = (o, u)) :
    ∃ p g, (u.sound → k.error.covers g) ∧
      ((o = .stillIndefinite (promising prec g k) ∧ (promising prec g k).error.edm g < 0) ∨
        (o = .moved ⟨p, (promising prec g k).update p g, g, (promising prec g k).error.edm g,
            u.calls⟩ ∧ ¬ (promising prec g k).error.edm g < 0)) := by
  simp only [arrive, Eval.runBind, Eval.runIte] at run
  generalize found : (s.gradientFrom m _ _).run t = r at run
  obtain ⟨g, v⟩ := r
  refine ⟨Point.plain (k.point.along k.newtonStep best.x) best.y, g, ?_⟩
  split at run
  case isTrue negative =>
    cases run
    refine ⟨fun sound => ?_, .inl ⟨rfl, negative⟩⟩
    rw [Eval.soundExpect, Bool.and_eq_true] at sound
    exact sound.2
  case isFalse promises =>
    cases run
    refine ⟨fun sound => ?_, .inr ⟨rfl, promises⟩⟩
    have covered := Asks.soundCheck (s := s) (P := anywhere) (.expect _) sound
    exact covered

theorem roundCases {k : Knowledge α} {t u : Trace α} {o : Outcome α}
    (run : (round s m prec k).run t = (o, u)) :
    (Uphill (aligned prec k) ∧ o = .stillUphill (aligned prec k) ∧ u.calls = t.calls) ∨
      (¬ Uphill (aligned prec k) ∧ t.calls < u.calls ∧
        (o = .stuck ∨ ∃ p g, (u.sound → (aligned prec k).error.covers g) ∧
          ((o = .stillIndefinite (promising prec g (aligned prec k)) ∧
              (promising prec g (aligned prec k)).error.edm g < 0) ∨
            (o = .moved ⟨p, (promising prec g (aligned prec k)).update p g, g,
                (promising prec g (aligned prec k)).error.edm g, u.calls⟩ ∧
              ¬ (promising prec g (aligned prec k)).error.edm g < 0)))) := by
  simp only [round, Eval.runBind, Eval.runIte] at run
  split at run
  case isTrue uphill =>
    cases run
    exact .inl ⟨uphill, rfl, rfl⟩
  case isFalse downhill =>
    have asked := s.lineSearchSpends (aligned prec k).point (aligned prec k).newtonStep
      ((aligned prec k).slopeAlong (aligned prec k).newtonStep) prec
      ((Eval.expect (k.gradient.slopes.size ≤ k.error.inverse.size)).run t).2
    rw [Eval.calls_expect] at asked
    generalize (s.lineSearch _ _ _ _).run _ = searched at run asked
    obtain ⟨best, v⟩ := searched
    refine .inr ⟨downhill, ?_⟩
    split at run
    case isTrue flat =>
      cases run
      exact ⟨asked, .inl rfl⟩
    case isFalse lower =>
      have more := (arriveAsks (anywhereInside s) m prec (aligned prec k) best).grows v
      rw [run] at more
      exact ⟨Nat.lt_of_lt_of_le asked more, .inr (arriveCases s m prec run)⟩

theorem roundSound {k : Knowledge α} {t : Trace α} (sound : ((round s m prec k).run t).2.sound) :
    k.gradient.slopes.size ≤ k.error.inverse.size := by
  rw [round, Eval.runBind] at sound
  refine of_decide_eq_true (Asks.soundCheck (s := s) (P := anywhere) (.ite (.pure _) ?_) sound)
  exact .bind (Surface.lineSearchAsks (anywhereInside s) _ _ _ _) fun best =>
    .ite (.pure _) (arriveAsks (anywhereInside s) m prec (aligned prec k) best)

/-! ### Rounds that follow each other -/

variable (maxCalls : Nat) (wanted : α)

def GoesOn : Outcome α → Trace α → Prop
  | .moved next, u => cautious next > wanted ∧ u.calls < maxCalls
  | _, _ => False

/- From a first round at the first pair to a last one at the second. -/
inductive Search : Knowledge α → Trace α → Knowledge α → Trace α → Prop where
  | last {k t} (ends : ¬ GoesOn maxCalls wanted ((round s m prec k).run t).1
      ((round s m prec k).run t).2) : Search k t k t
  | next {k t next u last v} (moved : (round s m prec k).run t = (.moved next, u))
      (goesOn : GoesOn maxCalls wanted (.moved next) u) (rest : Search next u last v) :
      Search k t last v

/- What the rounds answer after a last one from `k` with this outcome. -/
def close (past : List (Knowledge α)) (k : Knowledge α) :
    Outcome α → List (Knowledge α) × α × Ending
  | .moved next => (next :: k :: past, cautious next, .finished)
  | .stuck => (k :: past, cautious k, .finished)
  | .stillUphill forced | .stillIndefinite forced => (forced :: k :: past, cautious k, .broken)

theorem roundsClose (past : List (Knowledge α)) (k : Knowledge α) (t : Trace α) {fuel : Nat}
    (some : 0 < fuel) (enough : maxCalls < t.calls + fuel) :
    ∃ before last v, Search s m prec maxCalls wanted k t last v ∧
      (rounds s m prec maxCalls wanted past k (cautious k) fuel).run t =
        (close before last ((round s m prec last).run v).1, ((round s m prec last).run v).2) := by
  -- A round that goes on has asked, so the fuel that is left still covers the calls that are left.
  induction fuel generalizing past k t with
  | zero => exact absurd some (Nat.lt_irrefl 0)
  | succ fuel ih =>
    rw [rounds, Eval.runBind]
    generalize run : (round s m prec k).run t = r
    obtain ⟨o, u⟩ := r
    have here : ¬ GoesOn maxCalls wanted o u → Search s m prec maxCalls wanted k t k t := by
      intro ends
      exact .last (by rwa [run])
    cases o with
    | moved next =>
      simp only [Eval.runBind, Eval.runIte]
      by_cases goesOn : cautious next > wanted ∧ u.calls < maxCalls
      · have spent : t.calls < u.calls := by
          rcases roundCases s m prec run with ⟨_, other, _⟩ | ⟨_, spent, _⟩
          · cases other
          · exact spent
        obtain ⟨before, last, v, rest, same⟩ := ih (k :: past) next u (by omega)
          (by omega)
        exact ⟨before, last, v, .next run goesOn rest, (if_pos goesOn).trans same⟩
      · refine ⟨past, k, t, here goesOn, ?_⟩
        rw [run]
        exact if_neg goesOn
    | stuck => exact ⟨past, k, t, here id, by rw [run]; rfl⟩
    | stillUphill forced => exact ⟨past, k, t, here id, by rw [run]; rfl⟩
    | stillIndefinite forced => exact ⟨past, k, t, here id, by rw [run]; rfl⟩

theorem Search.unique {k : Knowledge α} {t : Trace α} {last₁ last₂ : Knowledge α} {v₁ v₂ : Trace α}
    (one : Search s m prec maxCalls wanted k t last₁ v₁)
    (other : Search s m prec maxCalls wanted k t last₂ v₂) : last₁ = last₂ ∧ v₁ = v₂ := by
  induction one with
  | last ends =>
    cases other with
    | last _ => exact ⟨rfl, rfl⟩
    | next moved goesOn _ => rw [moved] at ends; exact absurd goesOn ends
  | next moved goesOn _ ih =>
    cases other with
    | last ends => rw [moved] at ends; exact absurd goesOn ends
    | next moved' _ rest' =>
      obtain ⟨same, trace⟩ := Prod.mk.inj (moved.symm.trans moved')
      cases same
      cases trace
      exact ih rest'

theorem Search.grows {k : Knowledge α} {t : Trace α} {last : Knowledge α} {v : Trace α}
    (search : Search s m prec maxCalls wanted k t last v) : t.calls ≤ v.calls := by
  induction search with
  | last _ => exact Nat.le_refl _
  | @next k t next u last v moved _ _ ih =>
    have asked := (roundAsks (anywhereInside s) m prec k).grows t
    rw [moved] at asked
    exact Nat.le_trans asked ih

/-! ### The search as a whole -/

/- A descent gives such a seed back as it is. -/
def Barren (seed : Seed α) : Prop := seed.knowledge.size = 0 ∨ seed.knowledge.edm < 0

structure Ends (seed : Seed α) (t : Trace α) (last : Knowledge α) (o : Outcome α)
    (u : Trace α) : Prop where
  fertile : ¬ Barren seed
  reached : ∃ v, Search s m seed.space.precision maxCalls wanted seed.knowledge t last v ∧
    (round s m seed.space.precision last).run v = (o, u)

theorem Ends.unique {seed : Seed α} {t : Trace α} {last₁ last₂ : Knowledge α} {o₁ o₂ : Outcome α}
    {u₁ u₂ : Trace α} (one : Ends s m maxCalls wanted seed t last₁ o₁ u₁)
    (other : Ends s m maxCalls wanted seed t last₂ o₂ u₂) : last₁ = last₂ ∧ o₁ = o₂ ∧ u₁ = u₂ := by
  obtain ⟨v₁, search₁, round₁⟩ := one.reached
  obtain ⟨v₂, search₂, round₂⟩ := other.reached
  obtain ⟨same, trace⟩ := search₁.unique s m _ maxCalls wanted search₂
  cases same
  cases trace
  obtain ⟨o, u⟩ := Prod.mk.inj (round₁.symm.trans round₂)
  exact ⟨rfl, o, u⟩

end

namespace Outcome

def left (k : Knowledge α) : Outcome α → Knowledge α
  | .moved next => next
  | .stuck => k
  | .stillUphill forced | .stillIndefinite forced => forced

def isBroken : Outcome α → Bool
  | .moved _ | .stuck => false
  | .stillUphill _ | .stillIndefinite _ => true

end Outcome

section
variable [Spectral α] {s : Surface α} {m : GradientMethod α} {seed : Seed α} {maxCalls : Nat}
  {edmval : α} {t u : Trace α} {min : Minimum α}

/- How the result of a search follows from its last round. -/
structure Judged (seed : Seed α) (wanted : α) (outOfCalls : Prop) (last : Knowledge α)
    (o : Outcome α) (min : Minimum α) : Prop where
  origin : min.seed = seed
  last : min.last = o.left last
  callLimit : min.callLimit ↔ o.isBroken = false ∧ outOfCalls
  aboveMaxEdm : min.aboveMaxEdm ↔ o.isBroken = false ∧ ¬ outOfCalls ∧
    cautious min.last > wanted ∧
    ¬ cautious min.last < Scalar.abs (seed.space.precision.eps2 * min.value) ∧
    ¬ cautious min.last < 10.0 * wanted

omit [Spectral α] in
theorem ofHistoryReverse (seed : Seed α) (k : Knowledge α) (past : List (Knowledge α))
    (errorDef : α) : Minimum.ofHistory seed (k :: past).reverse errorDef =
      { seed, before := past.reverse, last := k, errorDef } := by
  simp [Minimum.ofHistory, List.getLast?_append]

theorem judgeFinished (seed : Seed α) (wanted errorDef : α) (k : Knowledge α)
    (past : List (Knowledge α)) (outOfCalls : Bool) (o : Outcome α) (last : Knowledge α)
    (left : o.left last = k) (whole : o.isBroken = false) :
    Judged seed wanted outOfCalls last o (judge seed errorDef seed.space.precision wanted
      (k :: past).reverse (cautious k) .finished outOfCalls) := by
  rw [judge, ofHistoryReverse]
  cases outOfCalls with
  | true => refine ⟨rfl, left.symm, ?_, ?_⟩ <;> simp [whole]
  | false =>
    by_cases far : cautious k > wanted
    · by_cases visible : cautious k < Scalar.abs (seed.space.precision.eps2 * k.value)
      · refine ⟨?_, ?_, ?_, ?_⟩ <;> simp [far, visible, whole, left, Minimum.value]
      · by_cases near : cautious k < 10.0 * wanted
        · refine ⟨?_, ?_, ?_, ?_⟩ <;> simp [far, visible, near, whole, left, Minimum.value]
        · refine ⟨?_, ?_, ?_, ?_⟩ <;> simp [far, visible, near, whole, left, Minimum.value]
    · refine ⟨?_, ?_, ?_, ?_⟩ <;> simp [far, whole, left]

theorem judgeBroken (seed : Seed α) (wanted errorDef edm : α) (k : Knowledge α)
    (past : List (Knowledge α)) (outOfCalls : Bool) (o : Outcome α) (last : Knowledge α)
    (left : o.left last = k) (broken : o.isBroken = true) :
    Judged seed wanted outOfCalls last o (judge seed errorDef seed.space.precision wanted
      (k :: past).reverse edm .broken outOfCalls) := by
  rw [judge, ofHistoryReverse]
  refine ⟨rfl, left.symm, ?_, ?_⟩ <;> simp [broken]

theorem judgeClose (seed : Seed α) (wanted errorDef : α) (past : List (Knowledge α))
    (last : Knowledge α) (o : Outcome α) (outOfCalls : Bool) :
    Judged seed wanted outOfCalls last o (judge seed errorDef seed.space.precision wanted
      (close past last o).1.reverse (close past last o).2.1 (close past last o).2.2
      outOfCalls) := by
  cases o with
  | moved next => exact judgeFinished _ _ _ _ _ _ _ _ rfl rfl
  | stuck => exact judgeFinished _ _ _ _ _ _ _ _ rfl rfl
  | stillUphill forced => exact judgeBroken _ _ _ _ _ _ _ _ _ rfl rfl
  | stillIndefinite forced => exact judgeBroken _ _ _ _ _ _ _ _ _ rfl rfl

theorem judgeHistory (seed : Seed α) (up : α) (prec : Precision α) (wanted : α)
    {states : List (Knowledge α)} (some : states ≠ []) (edm : α) (ending : Ending)
    (outOfCalls : Bool) :
    (judge seed up prec wanted states edm ending outOfCalls).history = states := by
  have whole : (Minimum.ofHistory seed states up).history = states := by
    rw [Minimum.ofHistory, List.getLast?_eq_some_getLast some]
    exact List.dropLast_concat_getLast some
  unfold judge
  dsimp only
  split
  · exact whole
  · split
    · exact whole
    · split
      · split
        · exact whole
        · split
          · exact whole
          · exact whole
      · exact whole

theorem iterateCases (run : (iterate s m seed maxCalls edmval).run t = (min, u)) :
    (Barren seed ∧ min = .ofSeed seed s.errorDef ∧ u = t) ∨
      ∃ last o, Ends s m maxCalls (edmval * 0.0001) seed t last o u ∧
        Judged seed (edmval * 0.0001) (maxCalls ≤ u.calls) last o min := by
  simp only [iterate, Eval.runIte] at run
  by_cases barren : seed.knowledge.size = 0 ∨ seed.knowledge.edm < 0
  · rw [if_pos barren] at run
    cases run
    exact .inl ⟨barren, rfl, rfl⟩
  · rw [if_neg barren, Eval.runBind] at run
    obtain ⟨before, last, v, search, same⟩ := roundsClose s m seed.space.precision maxCalls
      (edmval * 0.0001) [] seed.knowledge t (Nat.succ_pos maxCalls) (by omega)
    rw [same] at run
    generalize final : (round s m seed.space.precision last).run v = r at run
    obtain ⟨o, w⟩ := r
    cases run
    refine .inr ⟨last, o, ⟨barren, v, search, final⟩, ?_⟩
    have judged := judgeClose seed (edmval * 0.0001) s.errorDef before last o (maxCalls ≤ w.calls)
    simpa using judged

end
end Descent
end ParamFit
