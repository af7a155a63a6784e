import ParamFit.Proofs.Definite
import ParamFit.Proofs.Line
import ParamFit.Proofs.Rounds

/-! What a valid result of a descent says, over exact numbers. Along a search no distance is negative
and no model is less settled than one that was just found. A search that is broken off is never valid:
its model is one that was forced positive definite, for otherwise nothing would have been wrong with it.
So a valid result is one that a test of the distance let pass, as long as the search began at all and
nothing was found out afterwards. -/
namespace ParamFit

/- A point whose distance to the minimum is one that a search may end at: ten times what is wanted, or
below what shows at its value. -/
structure Knowledge.Converged (k : Knowledge ℝ) (prec : Precision ℝ) (edmval : ℝ) : Prop where
  notNegative : 0 ≤ k.edm
  small : k.edm ≤ 10 * 0.0001 * edmval ∨ k.edm ≤ |prec.eps2 * k.value|

structure Knowledge.Careful (k : Knowledge ℝ) : Prop where
  edm : 0 ≤ k.edm
  dcovar : 0 ≤ k.error.dcovar

/-! ### Models -/

section
variable {prec : Precision ℝ} {k : Knowledge ℝ} {g : Gradient ℝ}

theorem absSumNotNegative (m : Symmetric ℝ) : 0 ≤ m.absSum := by
  rw [Symmetric.absSum, Vector.absSum, Scalar.sumExact]
  refine List.sum_nonneg fun x among => ?_
  obtain ⟨y, _, rfl⟩ := List.mem_map.mp among
  exact abs_nonneg y

theorem updateSettled (settled : 0 ≤ k.error.dcovar) (p : Point ℝ) (g : Gradient ℝ) :
    0 ≤ (k.update p g).dcovar := by
  rw [Knowledge.update]
  dsimp only
  split
  · exact settled
  · have half (x : ℝ) (positive : 0 ≤ x) : (0 : ℝ) ≤ 0.5 * x := by positivity
    exact half _ (add_nonneg settled (div_nonneg (absSumNotNegative _) (absSumNotNegative _)))

theorem edmNotNegative {e : ErrorMatrix ℝ} (covered : e.covers g)
    (definite : ∀ v : Array ℝ, v.size ≤ e.inverse.size → 0 ≤ e.inverse.quadratic v) :
    0 ≤ e.edm g := by
  rw [ErrorMatrix.covers] at covered
  rw [ErrorMatrix.edm]
  split
  case isTrue one =>
    have positive := definite #[entry g.slopes 0] (by rw [one]; exact le_refl 1)
    have single : e.inverse.quadratic #[entry g.slopes 0] =
        entry g.slopes 0 * e.inverse.element 0 0 * entry g.slopes 0 := by
      simp [Symmetric.quadraticExact, entry]
    rw [single] at positive
    change (0 : ℝ) ≤ 0.5 * entry g.slopes 0 * entry g.slopes 0 * e.inverse.element 0 0
    linarith
  case isFalse many =>
    rw [if_neg many] at covered
    have positive := definite g.slopes (of_decide_eq_true covered)
    have half (x : ℝ) (positive : 0 ≤ x) : (0 : ℝ) ≤ 0.5 * x := by positivity
    exact half _ positive

theorem madeInvalid (made : k.error.status = .madePosDef) : k.isValid = false := by
  simp [Knowledge.isValid, Knowledge.hasCovariance, ErrorMatrix.isAvailable, ErrorMatrix.isValid, made]

end

namespace Descent
section
variable {s : Surface ℝ} {m : GradientMethod ℝ} {prec : Precision ℝ} {k : Knowledge ℝ}
  {g : Gradient ℝ} (eps : 0 ≤ prec.eps) (eps2 : 0 ≤ prec.eps2)
include eps eps2

/- Forcing the model of a point definite makes the point invalid, or there was no need. -/
theorem forcedCases (k : Knowledge ℝ) :
    (k.makePosDef prec).isValid = false ∧ (k.makePosDef prec).error.dcovar = 1 ∨
      k.makePosDef prec = k ∧
        ∀ v : Array ℝ, v.size ≤ k.error.inverse.size → 0 ≤ k.error.inverse.quadratic v := by
  rcases k.error.makePosDefCases eps eps2 with ⟨made, one⟩ | ⟨same, definite⟩
  · exact .inl ⟨madeInvalid made, one⟩
  · refine .inr ⟨?_, definite⟩
    rw [Knowledge.makePosDef, same]

theorem alignedSettled (settled : 0 ≤ k.error.dcovar) : 0 ≤ (aligned prec k).error.dcovar := by
  rw [aligned]
  split
  · rcases forcedCases eps eps2 k with ⟨_, one⟩ | ⟨same, _⟩
    · rw [one]
      exact one_pos.le
    · rw [same]
      exact settled
  · exact settled

theorem promisingSettled (settled : 0 ≤ k.error.dcovar) :
    0 ≤ (promising prec g k).error.dcovar := by
  rw [promising]
  split
  · rcases forcedCases eps eps2 k with ⟨_, one⟩ | ⟨same, _⟩
    · rw [one]
      exact one_pos.le
    · rw [same]
      exact settled
  · exact settled

theorem uphillInvalid (covered : k.gradient.slopes.size ≤ k.error.inverse.size)
    (uphill : Uphill (aligned prec k)) : (aligned prec k).isValid = false := by
  rw [aligned] at uphill ⊢
  split at uphill
  case isFalse downhill => exact absurd uphill downhill
  case isTrue before =>
    rw [if_pos before]
    rcases forcedCases eps eps2 k with ⟨invalid, _⟩ | ⟨same, definite⟩
    · exact invalid
    · rw [same, Uphill, slopeOfStep] at uphill
      have positive := definite k.gradient.slopes covered
      exact absurd uphill (not_lt.mpr (neg_nonpos.mpr positive))

theorem indefiniteInvalid (covered : k.error.covers g)
    (negative : (promising prec g k).error.edm g < 0) : (promising prec g k).isValid = false := by
  rw [promising] at negative ⊢
  split at negative
  case isFalse positive => exact absurd negative positive
  case isTrue before =>
    rw [if_pos before]
    rcases forcedCases eps eps2 k with ⟨invalid, _⟩ | ⟨same, definite⟩
    · exact invalid
    · rw [same] at negative
      exact absurd negative (not_lt.mpr (edmNotNegative covered definite))

variable {maxCalls : ℕ} {wanted : ℝ} {t u : Trace ℝ}

theorem roundCareful {next : Knowledge ℝ} (careful : k.Careful)
    (run : (round s m prec k).run t = (.moved next, u)) : next.Careful := by
  rcases roundCases s m prec run with ⟨_, other, _⟩ | ⟨_, _, other | ⟨p, g, _, other | moved⟩⟩
  · cases other
  · cases other
  · cases other.1
  · obtain ⟨same, positive⟩ := moved
    cases same
    exact ⟨not_lt.mp positive,
      updateSettled (promisingSettled eps eps2 (alignedSettled eps eps2 careful.dcovar)) p g⟩

theorem Search.careful {last : Knowledge ℝ} {v : Trace ℝ} (careful : k.Careful)
    (search : Search s m prec maxCalls wanted k t last v) : last.Careful := by
  induction search with
  | last _ => exact careful
  | next moved _ _ ih => exact ih (roundCareful eps eps2 careful moved)

omit eps eps2 in
theorem cautiousMore (careful : k.Careful) : k.edm ≤ cautious k := by
  have more : 0 ≤ k.edm * (3.0 * k.error.dcovar) :=
    mul_nonneg careful.edm (mul_nonneg (by norm_num) careful.dcovar)
  have split : cautious k = k.edm + k.edm * (3.0 * k.error.dcovar) := by
    change k.edm * (1 + 3.0 * k.error.dcovar) = _
    rw [mul_add, mul_one]
  rw [split]
  exact le_add_of_nonneg_right more

omit eps eps2 in
theorem validUnflagged {min : Minimum ℝ} (valid : min.isValid) :
    min.last.isValid ∧ min.aboveMaxEdm = false ∧ min.callLimit = false := by
  simpa [Minimum.isValid, and_assoc] using valid

omit eps eps2 in
/- A valid result of a search that was not broken off passed the test of the distance. -/
theorem judgedConverged {seed : Seed ℝ} {edmval : ℝ} {outOfCalls : Prop} {last : Knowledge ℝ}
    {o : Outcome ℝ} {min : Minimum ℝ}
    (judged : Judged seed (edmval * 0.0001) outOfCalls last o min) (whole : o.isBroken = false)
    (careful : min.last.Careful) (valid : min.isValid) :
    min.last.Converged seed.space.precision edmval := by
  obtain ⟨_, low, within⟩ := validUnflagged valid
  have more := cautiousMore careful
  have left : ¬ outOfCalls := fun spent => by
    have flagged := judged.callLimit.mpr ⟨whole, spent⟩
    rw [within] at flagged
    cases flagged
  refine ⟨careful.edm, ?_⟩
  by_contra neither
  obtain ⟨far, visible⟩ := not_or.mp neither
  have wanted : (10 : ℝ) * 0.0001 * edmval = 10.0 * (edmval * 0.0001) := by norm_num; ring
  rw [wanted] at far
  have flagged : min.aboveMaxEdm := judged.aboveMaxEdm.mpr ⟨whole, left, ?_, ?_, ?_⟩
  · rw [low] at flagged
    cases flagged
  · refine lt_of_not_ge fun near => far ?_
    have positive : 0 ≤ edmval * 0.0001 := careful.edm.trans (more.trans near)
    have ten : edmval * 0.0001 ≤ 10.0 * (edmval * 0.0001) := by
      refine le_mul_of_one_le_left positive ?_
      norm_num
    exact more.trans (near.trans ten)
  · exact fun shown => visible (more.trans (le_of_lt shown))
  · exact fun near => far (more.trans (le_of_lt near))

end

section
variable {s : Surface ℝ} {m : GradientMethod ℝ} {seed : Seed ℝ} {maxCalls : ℕ} {edmval : ℝ}
  {t u : Trace ℝ} {min : Minimum ℝ} (eps : 0 ≤ seed.space.precision.eps)
  (eps2 : 0 ≤ seed.space.precision.eps2)
include eps eps2

theorem iterateConverged (fertile : ¬ Barren seed) (settled : 0 ≤ seed.knowledge.error.dcovar)
    (run : (iterate s m seed maxCalls edmval).run t = (min, u)) (sound : u.sound)
    (valid : min.isValid) : min.last.Converged seed.space.precision edmval := by
  rcases iterateCases run with ⟨barren, _, _⟩ | ⟨last, o, ends, judged⟩
  · exact absurd barren fertile
  · obtain ⟨v, search, final⟩ := ends.reached
    have begun : seed.knowledge.Careful :=
      ⟨not_lt.mp fun negative => fertile (.inr negative), settled⟩
    have careful := search.careful eps eps2 begun
    have covered : last.gradient.slopes.size ≤ last.error.inverse.size :=
      roundSound s m _ (by rw [final]; exact sound)
    obtain ⟨held, _, _⟩ := validUnflagged valid
    rw [judged.last] at held
    cases o with
    | moved next =>
      refine judgedConverged judged rfl ?_ valid
      rw [judged.last]
      exact roundCareful eps eps2 careful final
    | stuck =>
      refine judgedConverged judged rfl ?_ valid
      rw [judged.last]
      exact careful
    -- A search that was broken off leaves a model that was forced, which no valid result has.
    | stillUphill forced =>
      rcases roundCases s m _ final with ⟨uphill, same, _⟩ | ⟨_, _, other | ⟨_, _, _, other | other⟩⟩
      · cases same
        rw [Outcome.left, uphillInvalid eps eps2 covered uphill] at held
        cases held
      · cases other
      · cases other.1
      · cases other.1
    | stillIndefinite forced =>
      rcases roundCases s m _ final with ⟨_, other, _⟩ | ⟨_, _, other | ⟨p, g, known, same | other⟩⟩
      · cases other
      · cases other
      · obtain ⟨same, negative⟩ := same
        cases same
        rw [Outcome.left, indefiniteInvalid eps eps2 (known sound) negative] at held
        cases held
      · cases other.1

end
end Descent

/-! ### Seeds -/

namespace Surface
section
variable {s : Surface ℝ} {m : GradientMethod ℝ} {st : Strategy ℝ} {k next : Knowledge ℝ}
  {t u : Trace ℝ}

theorem concludeSettled (k : Knowledge ℝ) (prec : Precision ℝ) (calls : ℕ)
    (found : Except (HessianFailure × Array ℝ) (Symmetric ℝ × Gradient ℝ)) :
    0 ≤ (Hessian.conclude k prec calls found).error.dcovar := by
  cases found with
  | error failure => exact one_pos.le
  | ok found =>
    unfold Hessian.conclude
    dsimp only
    split
    · exact one_pos.le
    · split
      · exact one_pos.le
      · exact le_refl 0

theorem secondDerivativesSettled {limit : ℕ} (settled : 0 ≤ k.error.dcovar)
    (run : (s.secondDerivatives st k limit).run t = (next, u)) : 0 ≤ next.error.dcovar := by
  rw [secondDerivatives] at run
  split at run
  · cases run
    exact settled
  · cases run
    exact concludeSettled _ _ _ _

theorem leaveDownwardSettled {prec : Precision ℝ} (settled : 0 ≤ k.error.dcovar)
    (run : (s.leaveDownward m k prec).run t = (next, u)) : 0 ≤ next.error.dcovar := by
  simp only [leaveDownward, Eval.runIte] at run
  split at run
  · cases run
    exact settled
  · cases run
    exact one_pos.le

theorem settleStartSettled {prec : Precision ℝ} (settled : 0 ≤ k.error.dcovar)
    (run : (s.settleStart m st k prec).run t = (next, u)) : 0 ≤ next.error.dcovar := by
  simp only [settleStart, Eval.runIte] at run
  split at run
  · cases run
    exact settled
  · split at run
    · exact leaveDownwardSettled settled run
    · obtain ⟨left, v, leaves, run⟩ := Eval.runParts run
      have kept := leaveDownwardSettled settled leaves
      cases run
      exact kept

theorem descentSeedSettled {check : GradientCheck} {state : FitState ℝ} {seed : Seed ℝ}
    (run : (s.descentSeed m st check state).run t = (seed, u)) : 0 ≤ seed.knowledge.error.dcovar := by
  obtain ⟨p, v, _, run⟩ := Eval.runParts run
  obtain ⟨g, w, _, run⟩ := Eval.runParts run
  obtain ⟨k, x, known, run⟩ := Eval.runParts run
  obtain ⟨left, y, settles, run⟩ := Eval.runParts run
  have settled : 0 ≤ left.error.dcovar := by
    refine settleStartSettled ?_ settles
    cases known
    change 0 ≤ (startError state g).dcovar
    rw [startError]
    split
    · exact le_refl 0
    · exact one_pos.le
  split at run
  · obtain ⟨next, z, refined, run⟩ := Eval.runParts run
    have kept := secondDerivativesSettled settled refined
    cases run
    exact kept
  · cases run
    exact settled

end

/-! ### Descents -/

section
variable (s : Surface ℝ) (m : GradientMethod ℝ) (seed : Seed ℝ) (st : Strategy ℝ) (maxCalls : ℕ)
  (edmval : ℝ) (t : Trace ℝ)

/- What a descent hands on without a test of its distance is converged all the same: what it finds out
at the end, or else a seed that no search begins from. -/
def UntestedConverged : Prop :=
  let (found, u) := (Descent.iterate s m seed maxCalls edmval).run t
  if st.refines found.last then
    ((s.secondDerivatives st found.last 0).run u).1.Converged seed.space.precision edmval
  else Descent.Barren seed → seed.knowledge.Converged seed.space.precision edmval

variable {s m seed st maxCalls edmval t} {u : Trace ℝ} {min : Minimum ℝ}

/- A valid result of a descent is a converged one, if what was not tested is. -/
theorem validConverged (eps : 0 ≤ seed.space.precision.eps) (eps2 : 0 ≤ seed.space.precision.eps2)
    (settled : 0 ≤ seed.knowledge.error.dcovar)
    (run : (s.descend m seed st maxCalls edmval).run? t = some (min, u)) (valid : min.isValid) :
    min.last.Converged seed.space.precision edmval ↔
      s.UntestedConverged m seed st maxCalls edmval t := by
  obtain ⟨answer, sound⟩ := Eval.runAnswers.mp run
  obtain ⟨found, v, searched, rest⟩ := Eval.runParts answer
  rw [UntestedConverged, searched]
  dsimp only
  split
  case isTrue refined =>
    rw [if_pos refined] at rest
    obtain ⟨next, w, appended, rest⟩ := Eval.runParts rest
    rw [appended]
    cases rest
    exact Iff.rfl
  case isFalse alone =>
    rw [if_neg alone] at rest
    cases rest
    by_cases barren : Descent.Barren seed
    · rcases Descent.iterateCases searched with ⟨_, rfl, _⟩ | ⟨_, _, ends, _⟩
      · exact ⟨fun converged _ => converged, fun converged => converged barren⟩
      · exact absurd barren ends.fertile
    · refine iff_of_true ?_ fun fails => absurd fails barren
      exact Descent.iterateConverged eps eps2 barren settled searched sound valid

end

noncomputable def ground : Seed ℝ where
  knowledge :=
    { point := .plain #[0] 0
      error := .usable (.build 1 fun _ _ => 1) 0
      gradient := .numerical #[0] #[1] #[0.1]
      edm := 0
      calls := 1 }
  space := .numbered #[0] #[0.1] 1

theorem validConvergedGround : ∃ min u, 0 ≤ ground.space.precision.eps ∧
    0 ≤ ground.space.precision.eps2 ∧ 0 ≤ ground.knowledge.error.dcovar ∧
    ((⟨.plain fun _ => 0, 1, ground.space⟩ : Surface ℝ).descend (.differences .low) ground .low 100
      0.1).run? {} = some (min, u) ∧ min.isValid ∧
    (min.last.Converged ground.space.precision 0.1 ↔
      (⟨.plain fun _ => 0, 1, ground.space⟩ : Surface ℝ).UntestedConverged (.differences .low) ground
        .low 100 0.1 {}) := by
  let s : Surface ℝ := ⟨.plain fun _ => 0, 1, ground.space⟩
  have plain : s.Plain 1 := ⟨Space.numberedPlain _ _ _, fun _ _ => Nat.zero_le _⟩
  have downhill : ¬ ground.knowledge.slopeAlong ground.knowledge.newtonStep > 0 := by
    have slopes : ground.knowledge.gradient.slopes = #[0] := rfl
    rw [slopeOfStep, slopes, Symmetric.quadraticExact]
    norm_num [entry]
  have lowest : Min.min ground.knowledge.value
      (s.objective.value (ground.knowledge.point.along ground.knowledge.newtonStep 1)) = 0 := min_self 0
  have near : |0 - ground.knowledge.value| < ground.space.precision.eps := by
    change |(0 : ℝ) - 0| < 2⁻¹ ^ 50
    norm_num
  have stuck : Yields True (Descent.round s (.differences .low) ground.space.precision
      ground.knowledge) {} _ _ :=
    Descent.roundStuck plain rfl rfl (le_refl 1) downhill (fun _ _ => le_refl 0) lowest near {}
  have fertile : ¬ (ground.knowledge.size = 0 ∨ ground.knowledge.edm < 0) := by
    rintro (empty | negative)
    · exact Nat.one_ne_zero empty
    · exact lt_irrefl (0 : ℝ) negative
  have close : Descent.cautious ground.knowledge ≤ 0.1 * 0.0001 := by
    change (0 : ℝ) * _ ≤ 0.1 * 0.0001
    rw [zero_mul]
    norm_num
  have kept := Descent.iterateStuck (s := s) fertile stuck close (show 0 + 25 < 100 by decide)
  have answer : (s.descend (.differences .low) ground .low 100 0.1).run {} =
      (.ofSeed ground s.errorDef,
        ((Descent.iterate s (.differences .low) ground 100 0.1).run {}).2) := by
    rw [descend, Eval.runBind, kept.answer]
    rfl
  have run := Eval.runAnswers.mpr ⟨answer, kept.sound trivial⟩
  have eps : 0 ≤ ground.space.precision.eps := (abs_nonneg _).trans near.le
  have eps2 : 0 ≤ ground.space.precision.eps2 := mul_nonneg (by norm_num) (Real.sqrt_nonneg _)
  exact ⟨_, _, eps, eps2, le_refl 0, run, rfl, validConverged eps eps2 (le_refl 0) run rfl⟩

/-! ### A seed that no search begins from -/

theorem descendBarren {s : Surface ℝ} {m : GradientMethod ℝ} {seed : Seed ℝ} {st : Strategy ℝ}
    {maxCalls : ℕ} {edmval : ℝ} (barren : Descent.Barren seed)
    (light : st.refines seed.knowledge = false) (t : Trace ℝ) :
    (s.descend m seed st maxCalls edmval).run t = (.ofSeed seed s.errorDef, t) := by
  have stays : (Descent.iterate s m seed maxCalls edmval).run t = (.ofSeed seed s.errorDef, t) := by
    rw [Descent.iterate]
    dsimp only
    rw [if_pos (show seed.knowledge.size = 0 ∨ seed.knowledge.edm < 0 from barren)]
    rfl
  have last : (Minimum.ofSeed seed s.errorDef).last = seed.knowledge := rfl
  rw [descend, Eval.runBind, stays]
  dsimp only
  rw [last, light]
  rfl

/- The estimate of a seed whose error matrix has a negative direction. -/
noncomputable def saddle : Seed ℝ where
  knowledge :=
    { point := .plain #[0, 0] 2.0
      error := .usable (.build 2 fun i j => if i = j then 0.5 else 1) 0
      gradient := .numerical #[-2.0, 2.0] #[2.0, 2.0] #[0.1, 0.1]
      edm := -2.0
      calls := 1 }
  space := .numbered #[0, 0] #[1, 1] 2

theorem saddleEstimate : saddle.knowledge.edm = saddle.knowledge.error.edm saddle.knowledge.gradient := by
  have rows : saddle.knowledge.error.inverse.size = 2 := rfl
  have element (i j : ℕ) (row : i < 2) (col : j < 2) :
      saddle.knowledge.error.inverse.element i j = if i = j then 0.5 else 1 :=
    Symmetric.elementBuildComm (fun i j => by simp only [eq_comm]) row col
  have slopes : saddle.knowledge.gradient.slopes = #[-2.0, 2.0] := rfl
  have form : saddle.knowledge.error.inverse.quadratic #[-2.0, 2.0] = -4 := by
    rw [Symmetric.quadraticExact]
    norm_num [Finset.sum_range_succ, element, entry]
  rw [ErrorMatrix.edm, rows, if_neg (by decide), slopes, form]
  change (-2.0 : ℝ) = 0.5 * -4
  norm_num

/- A descent that never began is valid, whatever its distance is. -/
theorem validDiverged :
    ¬ ∀ (s : Surface ℝ) (m : GradientMethod ℝ) (seed : Seed ℝ) (st : Strategy ℝ) (maxCalls : ℕ)
        (edmval : ℝ) (min : Minimum ℝ) (u : Trace ℝ), 0 < edmval →
        seed.knowledge.edm = seed.knowledge.error.edm seed.knowledge.gradient →
        (s.descend m seed st maxCalls edmval).run? {} = some (min, u) → min.isValid →
          min.last.Converged seed.space.precision edmval := by
  intro converged
  let s : Surface ℝ := ⟨.plain fun x => (entry x 0 - 1) ^ 2 + (entry x 1 + 1) ^ 2, 1, saddle.space⟩
  have negative : saddle.knowledge.edm < 0 := by
    change (-2.0 : ℝ) < 0
    norm_num
  have run : (s.descend (.differences .low) saddle .low 100 0.1).run {} = _ :=
    descendBarren (.inr negative) rfl {}
  have least := converged s (.differences .low) saddle .low 100 0.1 _ _ (by norm_num) saddleEstimate
    (Eval.runAnswers.mpr ⟨run, rfl⟩) rfl
  exact absurd least.notNegative (not_le.mpr negative)

end Surface
end ParamFit
