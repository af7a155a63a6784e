import ParamFit.Proofs.Convergence
import ParamFit.Proofs.Repair
import ParamFit.Proofs.Trials

/-! One repair is enough. A model whose step leads uphill, or that promises a negative distance, is
forced positive definite; whatever it was, the step then leads down and the distance is not negative.
So no round of a descent finds its model still unusable, as long as the model covers the gradient, and
no descent is broken off. -/
namespace ParamFit
variable {prec : Precision ℝ} {g : Gradient ℝ}

/- What is forced is definite, also where nothing varies. -/
theorem ErrorMatrix.forcedDefinite (eps : 0 < prec.eps) (eps2 : 0 < prec.eps2) (e : ErrorMatrix ℝ) :
    (e.makePosDef prec).Definite := by
  rcases Nat.eq_zero_or_pos e.inverse.size with none | some
  · exact .empty ((e.sizeMakePosDef prec).trans none)
  · exact (makePosDefForced some eps2.le).definite some eps eps2

theorem ErrorMatrix.coversMakePosDef (e : ErrorMatrix ℝ) (prec : Precision ℝ) (g : Gradient ℝ) :
    (e.makePosDef prec).covers g = e.covers g := by
  simp only [covers, sizeMakePosDef]

namespace Descent
variable {s : Surface ℝ} {m : GradientMethod ℝ} {k : Knowledge ℝ} {t u : Trace ℝ}

section
variable (eps : 0 < prec.eps) (eps2 : 0 < prec.eps2)
include eps eps2

theorem alignedDownhill (covered : k.gradient.slopes.size ≤ k.error.inverse.size) :
    (aligned prec k).slopeAlong (aligned prec k).newtonStep ≤ 0 := by
  rw [aligned]
  split
  case isFalse downhill => exact not_lt.mp downhill
  case isTrue =>
    have definite := k.error.forcedDefinite eps eps2
    rw [slopeOfStep]
    refine neg_nonpos.mpr (definite.notNegative ?_)
    rw [ErrorMatrix.sizeMakePosDef]
    exact covered

theorem promisingNotNegative (covered : k.error.covers g) :
    0 ≤ (promising prec g k).error.edm g := by
  rw [promising]
  split
  case isFalse positive => exact not_lt.mp positive
  case isTrue =>
    have definite := k.error.forcedDefinite eps eps2
    refine edmNotNegative ?_ fun v short => definite.notNegative short
    exact (k.error.coversMakePosDef prec g).trans covered

theorem roundWhole {o : Outcome ℝ} (run : (round s m prec k).run t = (o, u)) (sound : u.sound) :
    o.isBroken = false := by
  have covered : k.gradient.slopes.size ≤ k.error.inverse.size :=
    roundSound s m prec (by rw [run]; exact sound)
  rcases roundCases s m prec run with ⟨uphill, _⟩ | ⟨_, _, rfl | ⟨p, g, covers, other | ⟨rfl, _⟩⟩⟩
  · exact absurd uphill (not_lt.mpr (alignedDownhill eps eps2 covered))
  · rfl
  · exact absurd other.2 (not_lt.mpr (promisingNotNegative eps eps2 (covers sound)))
  · rfl

end

/-! ### Rounds of a search -/

section
variable (s : Surface ℝ) (m : GradientMethod ℝ) (prec : Precision ℝ) (maxCalls : ℕ) (wanted : ℝ)

/- A search that begins with the first pair comes to a round that begins with the second. -/
inductive Comes (k : Knowledge ℝ) (t : Trace ℝ) : Knowledge ℝ → Trace ℝ → Prop where
  | first : Comes k t k t
  | next {j u next v} (before : Comes k t j u) (moved : (round s m prec j).run u = (.moved next, v))
      (goesOn : GoesOn maxCalls wanted (.moved next) v) : Comes k t next v

variable {s m prec maxCalls wanted} {j last : Knowledge ℝ} {v : Trace ℝ}

theorem Comes.search (comes : Comes s m prec maxCalls wanted k t j u)
    (search : Search s m prec maxCalls wanted k t last v) :
    Search s m prec maxCalls wanted j u last v := by
  induction comes with
  | first => exact search
  | next before moved goesOn ih =>
    cases ih with
    | last ends =>
      rw [moved] at ends
      exact absurd goesOn ends
    | next moved' _ rest =>
      obtain ⟨same, trace⟩ := Prod.mk.inj (moved.symm.trans moved')
      cases same
      cases trace
      exact rest

theorem Search.soundBefore (search : Search s m prec maxCalls wanted k t last v) (sound : v.sound) :
    t.sound := by
  induction search with
  | last => exact sound
  | @next k t next u last v moved _ _ ih =>
    have asks := roundAsks (anywhereInside s) m prec k
    refine asks.soundBefore ?_
    rw [moved]
    exact ih sound

/- Where a whole search lacks nothing, none of its rounds does. -/
theorem Search.roundSound (search : Search s m prec maxCalls wanted k t last v)
    (sound : ((round s m prec last).run v).2.sound) : ((round s m prec k).run t).2.sound := by
  cases search with
  | last => exact sound
  | next moved _ rest =>
    rw [moved]
    exact rest.soundBefore ((roundAsks (anywhereInside s) m prec last).soundBefore sound)

end

/- Repaired once, a model is usable: its step does not lead uphill, and the distance it promises is not
negative. So every line search of a descent has a slope that is not positive, and no descent is broken
off. -/
theorem repairedOnce {eps : ℝ} (positive : 0 < eps) {seed : Seed ℝ}
    (precision : seed.space.precision = .ofEps eps) (s : Surface ℝ) (m : GradientMethod ℝ)
    (maxCalls : ℕ) (edmval : ℝ) (t : Trace ℝ) :
    let prec := seed.space.precision
    (∀ k, (k.gradient.slopes.size ≤ k.error.inverse.size →
        (aligned prec k).slopeAlong (aligned prec k).newtonStep ≤ 0) ∧
      ∀ g, k.error.covers g → 0 ≤ (promising prec g k).error.edm g) ∧
    ∀ min u, (iterate s m seed maxCalls edmval).run? t = some (min, u) → ¬ Barren seed →
      (∀ k v, Comes s m prec maxCalls (edmval * 0.0001) seed.knowledge t k v →
        (aligned prec k).slopeAlong (aligned prec k).newtonStep ≤ 0 ∧
          ((round s m prec k).run v).1.isBroken = false) ∧
      ∃ last o, Ends s m maxCalls (edmval * 0.0001) seed t last o u ∧
        Judged seed (edmval * 0.0001) (maxCalls ≤ u.calls) last o min ∧ o.isBroken = false := by
  intro prec
  have eps : 0 < prec.eps := by
    rw [show prec = .ofEps eps from precision]
    exact positive
  have eps2 : 0 < prec.eps2 := by
    rw [show prec = _ from precision]
    exact ErrorMatrix.coarsePositive positive
  refine ⟨fun k => ⟨alignedDownhill eps eps2, fun g => promisingNotNegative eps eps2⟩, ?_⟩
  intro min u run fertile
  obtain ⟨answer, sound⟩ := Eval.runAnswers.mp run
  obtain ⟨last, o, ends, judged⟩ := (iterateCases answer).resolve_left fun barren => fertile barren.1
  obtain ⟨w, search, final⟩ := ends.reached
  refine ⟨fun k v comes => ?_, last, o, ends, judged, roundWhole eps eps2 final sound⟩
  have lacksNothing : ((round s m prec k).run v).2.sound :=
    (comes.search search).roundSound (by rw [final]; exact sound)
  exact ⟨alignedDownhill eps eps2 (roundSound s m prec lacksNothing),
    roundWhole eps eps2 rfl lacksNothing⟩

/- A seed whose model points uphill, as its error matrix is negative. -/
noncomputable def upturned : Seed ℝ where
  knowledge :=
    { point := .plain #[0] 0
      error := .usable (.build 1 fun _ _ => -1) 0
      gradient := .numerical #[1] #[1] #[0.1]
      edm := 0
      calls := 1 }
  space := .numbered #[0] #[0.1] 1

theorem repairedOnceUpturned : ∃ min u last o,
    let s : Surface ℝ := ⟨.plain fun _ => 0, 1, upturned.space⟩
    let prec := upturned.space.precision
    (0 : ℝ) < 2⁻¹ ^ 50 ∧ prec = .ofEps (2⁻¹ ^ 50) ∧
    (iterate s (.differences .low) upturned 100 0.1).run? {} = some (min, u) ∧ ¬ Barren upturned ∧
    Uphill upturned.knowledge ∧ (aligned prec upturned.knowledge).slopeAlong
      (aligned prec upturned.knowledge).newtonStep ≤ 0 ∧
    Ends s (.differences .low) 100 (0.1 * 0.0001) upturned {} last o u ∧ o.isBroken = false := by
  let s : Surface ℝ := ⟨.plain fun _ => 0, 1, upturned.space⟩
  let k := upturned.knowledge
  let prec := upturned.space.precision
  have plain : s.Plain 1 := ⟨Space.numberedPlain _ _ _, fun _ _ => Nat.zero_le _⟩
  have positive : (0 : ℝ) < 2⁻¹ ^ 50 := by positivity
  have precision : prec = .ofEps (2⁻¹ ^ 50) := rfl
  have uphill : Uphill k := by
    have slopes : k.gradient.slopes = #[1] := rfl
    rw [Uphill, slopeOfStep, slopes, Symmetric.quadraticExact]
    have element : k.error.inverse.element 0 0 = -1 := rfl
    norm_num [entry, element]
  have downhill : (aligned prec k).slopeAlong (aligned prec k).newtonStep ≤ 0 :=
    alignedDownhill positive (ErrorMatrix.coarsePositive positive) (le_refl 1)
  have forced : aligned prec k = k.makePosDef prec := if_pos uphill
  have fertile : ¬ Barren upturned := by
    rintro (empty | negative)
    · exact Nat.one_ne_zero empty
    · exact lt_irrefl (0 : ℝ) negative
  have near : |0 - k.value| < prec.eps := by
    change |(0 : ℝ) - 0| < 2⁻¹ ^ 50
    rwa [sub_zero, abs_zero]
  have stuck : Yields True (round s (.differences .low) prec k) {} _ _ :=
    roundStuckAligned plain (if_pos uphill) rfl rfl (le_refl 1) (forced ▸ not_lt.mpr downhill)
      (fun _ _ => le_refl 0) (min_self 0) near {}
  have close : cautious k ≤ 0.1 * 0.0001 := by
    change (0 : ℝ) * _ ≤ 0.1 * 0.0001
    rw [zero_mul]
    norm_num
  have kept := iterateStuck (s := s) fertile stuck close (show 0 + 25 < 100 by decide)
  have run := Eval.runAnswers.mpr ⟨Prod.mk.eta.symm, kept.sound trivial⟩
  obtain ⟨-, whole⟩ :=
    repairedOnce positive precision s (.differences .low) 100 0.1 {}
  obtain ⟨rounds, last, o, ends, -, unbroken⟩ := whole _ _ run fertile
  exact ⟨_, _, last, o, positive, precision, run, fertile, uphill, (rounds _ _ .first).1, ends,
    unbroken⟩

end Descent
end ParamFit
