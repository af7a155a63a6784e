import ParamFit.Proofs.Accounting
import ParamFit.Proofs.Bowl
import ParamFit.Proofs.Forced
import ParamFit.Proofs.Metric

/-! Which error matrices of a search are positive definite, over exact numbers. A matrix that stands in
for another is, wherever it comes from; one that counts as a covariance is as it was given to the search
or found by it, and stays so for as long as the gradient does not fall along a move. A fall makes it
indefinite, and nothing marks it. -/
namespace ParamFit
open Matrix
variable {n : ℕ}

/-! ### Points -/

namespace Surface
variable {g : Gradient ℝ}

/- Curvatures that are all positive make a positive definite diagonal. -/
theorem diagonalErrorDefinite (prec : Precision ℝ) (level : g.curvesDown = false) :
    (diagonalError g prec).Definite := by
  have size : (g.inverseCurvatures prec).size = g.curvatures.size := Array.size_map ..
  refine (ErrorMatrix.definiteMatrix size).mpr (Symmetric.diagonalDefinite size fun i inside => ?_)
  rw [Gradient.inverseCurvatures, Vector.entryMap _ inside]
  have up : 0 < entry g.curvatures i := by
    rw [Gradient.curvesDown, Array.any_eq_false] at level
    simpa [entry, inside] using level i inside
  split
  · exact one_div_pos.mpr up
  · exact (one_pos : (0 : ℝ) < 1)

end Surface

namespace Knowledge

/- A point whose error matrix is what it counts as. -/
def Proper (k : Knowledge ℝ) : Prop := k.error.isValid → k.error.Definite

/- By how much the slope along the move to the next point is larger there. -/
noncomputable def rise (k next : Knowledge ℝ) : ℝ :=
  Vector.dot (Vector.sub next.point.x k.point.x) (Vector.sub next.gradient.slopes k.gradient.slopes)

def Rises (k next : Knowledge ℝ) : Prop := next.error.isValid → 0 ≤ k.rise next

/- What a next point adds: if all was well, then whether it still is depends on the move alone. -/
structure Follows (n : ℕ) (k next : Knowledge ℝ) : Prop where
  sized : next.Sized n
  definite : k.error.Definite → (next.error.Definite ↔ k.Rises next)

/- Without a covariance that was known and without a coordinate along which the value curves down, what
a search begins with is well. What is not a covariance is well in any case. -/
structure Begins (n : ℕ) (known : Prop) (k : Knowledge ℝ) : Prop where
  sized : k.Sized n
  definite : k.error.Definite ∨ k.error.isValid ∧ (known ∨ k.gradient.curvesDown)

variable {k next : Knowledge ℝ}

theorem riseStill (sized : k.Sized n) (after : next.Sized n) (same : next.point = k.point) :
    k.rise next = 0 := by
  rw [rise, slopeGrows sized.point sized.gradient.slopes after.point after.gradient.slopes,
    moveTo, same, sub_self, zero_dotProduct]

theorem updateFollows (sized : k.Sized n) {p : Point ℝ} (size : p.x.size = n) {g : Gradient ℝ}
    (full : g.Full n) (edm : ℝ) (calls : ℕ) : k.Follows n ⟨p, k.update p g, g, edm, calls⟩ := by
  have after : Sized ⟨p, k.update p g, g, edm, calls⟩ n := ⟨size, full, k.sizeUpdate sized size g⟩
  refine ⟨after, fun definite => ?_⟩
  have before := (ErrorMatrix.definiteMatrix sized.error).mp definite
  rw [Rises, rise, slopeGrows sized.point sized.gradient.slopes size full.slopes]
  rcases updateCases sized.point sized.gradient.slopes size full.slopes with
    ⟨nothing, kept⟩ | ⟨moved, model, valid, -, updated⟩
  · -- a positive definite model shows nothing of a change only where there was none
    have flat : k.moveTo p n ⬝ᵥ k.changeTo g n = 0 := by
      rcases nothing with still | unseen
      · exact still
      · by_cases changed : k.changeTo g n = 0
        · rw [changed, dotProduct_zero]
        · exact absurd (before.dotProduct_mulVec_pos changed) (not_lt.mpr unseen)
    rw [kept, flat]
    exact iff_of_true definite fun _ => le_refl 0
  · rw [ErrorMatrix.definiteMatrix after.error, updated]
    rcases lt_or_gt_of_ne moved with fell | rose
    · refine iff_of_false (updatedIndefinite fell model.ne') fun rises => ?_
      exact absurd (rises valid) (not_le.mpr fell)
    · exact iff_of_true (updatedDefinite before rose) fun _ => rose.le

theorem stillFollows (sized : k.Sized n) (after : next.Sized n) (same : next.point = k.point)
    (definite : k.error.Definite → next.error.Definite) : k.Follows n next :=
  ⟨after, fun well => iff_of_true (definite well) fun _ => (riseStill sized after same).ge⟩

theorem Follows.proper (follows : k.Follows n next) (definite : k.error.Definite) :
    (next.Proper → next.error.Definite) ∧ (next.Proper ↔ k.Rises next) := by
  have well := follows.definite definite
  have kept (proper : next.Proper) : next.error.Definite := by
    by_cases valid : next.error.isValid
    · exact proper valid
    · exact well.mpr fun counts => absurd counts valid
  exact ⟨kept, fun proper => well.mp (kept proper), fun rises _ => well.mpr rises⟩

theorem Begins.proper {known : Prop} (begins : k.Begins n known) (proper : k.Proper) :
    k.error.Definite :=
  begins.definite.elim id fun valid => proper valid.1

/- Along points that follow each other all is well from the first on, or not after a fall. -/
theorem chainProper {l : List (Knowledge ℝ)} (follow : (k :: l).IsChain (Follows n))
    (first : k.Proper → k.error.Definite) :
    (∀ x ∈ k :: l, x.Proper) ↔ k.Proper ∧ (k :: l).IsChain Rises := by
  rw [List.forall_mem_cons]
  refine and_congr_right fun proper => ?_
  induction l generalizing k with
  | nil => simp
  | cons next l ih =>
    obtain ⟨here, rest⟩ := List.isChain_cons_cons.mp follow
    obtain ⟨kept, rises⟩ := here.proper (first proper)
    rw [List.forall_mem_cons, List.isChain_cons_cons, ← rises]
    exact and_congr_right fun well => ih rest kept well

/-! ### Histories -/

/- What a search knew on its way, the oldest first. -/
structure Record (n : ℕ) (known : Prop) (l : List (Knowledge ℝ)) : Prop where
  first : ∃ k, l.head? = some k ∧ k.Begins n known
  follow : l.IsChain (Follows n)
  sized : ∀ k ∈ l, k.Sized n

namespace Record
variable {known : Prop} {l : List (Knowledge ℝ)}

theorem seed (begins : k.Begins n known) : Record n known [k] where
  first := ⟨k, rfl, begins⟩
  follow := .singleton k
  sized := List.forall_mem_singleton.mpr begins.sized

theorem add (record : Record n known l) (last : l.getLast? = some k) (follows : k.Follows n next) :
    Record n known (l ++ [next]) where
  first := by
    obtain ⟨first, head, begins⟩ := record.first
    exact ⟨first, by rw [List.head?_append, head, Option.some_or], begins⟩
  follow := by
    refine record.follow.append (.singleton next) fun x final y begun => ?_
    obtain rfl := Option.some.inj (last.symm.trans final)
    obtain rfl := Option.some.inj begun
    exact follows
  sized x among := by
    rcases List.mem_append.mp among with earlier | new
    · exact record.sized x earlier
    · exact List.mem_singleton.mp new ▸ follows.sized

end Record

end Knowledge

/-! ### Rounds -/

namespace Descent
variable {s : Surface ℝ} {m : GradientMethod ℝ} {prec : Precision ℝ} {k : Knowledge ℝ}

/- A positive definite matrix never points uphill and never promises a negative distance, so it is
never forced. -/
theorem alignedSame (sized : k.Sized n) (definite : k.error.Definite) : aligned prec k = k := by
  refine if_neg (not_lt.mpr ?_)
  rw [slopeOfStep]
  refine neg_nonpos.mpr (definite.notNegative ?_)
  rw [sized.gradient.slopes, sized.error]

theorem distanceNotNegative (sized : k.Sized n) (definite : k.error.Definite) {g : Gradient ℝ}
    (full : g.Full n) : ¬ k.error.edm g < 0 := by
  have covered := ErrorMatrix.coversSame (full.slopes.trans sized.error.symm)
  exact not_lt.mpr (edmNotNegative covered fun v short => definite.notNegative short)

theorem promisingSame (sized : k.Sized n) (definite : k.error.Definite) {g : Gradient ℝ}
    (full : g.Full n) : promising prec g k = k :=
  if_neg (distanceNotNegative sized definite full)

def Outcome.Continues (n : ℕ) (k : Knowledge ℝ) : Outcome ℝ → Prop
  | .moved next | .stillUphill next | .stillIndefinite next => k.Follows n next
  | .stuck => True

theorem Outcome.Sized.continues {o : Outcome ℝ} (sized : o.Sized n) (other : ¬ k.error.Definite) :
    o.Continues n k := by
  cases o with
  | stuck => trivial
  | moved next => exact ⟨sized, fun definite => absurd definite other⟩
  | stillUphill next => exact ⟨sized, fun definite => absurd definite other⟩
  | stillIndefinite next => exact ⟨sized, fun definite => absurd definite other⟩

theorem arriveFollows (sized : k.Sized n) (definite : k.error.Definite) (best : Sample ℝ) :
    Gives (arrive s m prec k best) (Outcome.Continues n k) := by
  have point : (k.point.along k.newtonStep best.x).size = n :=
    (Point.sizeAlong (k.sizeNewtonStep sized |>.trans sized.point.symm) _).trans sized.point
  refine .bind (Surface.gradientFromFull m point sized.gradient) fun g full => .expect ?_
  rw [promisingSame sized definite full]
  refine .ite (fun negative => absurd negative (distanceNotNegative sized definite full)) fun _ => ?_
  exact .expect (.counting fun _ => .pure (Knowledge.updateFollows sized point full _ _))

theorem roundFollows (sized : k.Sized n) : Gives (round s m prec k) (Outcome.Continues n k) := by
  by_cases definite : k.error.Definite
  · rw [round, alignedSame sized definite]
    refine .expect (.ite (fun uphill => ?_) fun _ => .bindAny (givesAny _) fun best => ?_)
    · exact .pure (Knowledge.stillFollows sized sized rfl id)
    · exact .ite (fun _ => .pure trivial) fun _ => arriveFollows sized definite best
  · exact (roundSized m prec sized).weaken fun o sized => sized.continues definite

theorem roundsRecord {known : Prop} (maxCalls : ℕ) (wanted : ℝ) {past : List (Knowledge ℝ)}
    (record : Knowledge.Record n known (k :: past).reverse) (edm : ℝ) (fuel : ℕ) :
    Gives (rounds s m prec maxCalls wanted past k edm fuel) fun found =>
      found.1 ≠ [] ∧ Knowledge.Record n known found.1.reverse := by
  induction fuel generalizing past k edm with
  | zero => exact .pure ⟨List.cons_ne_nil _ _, record⟩
  | succ fuel ih =>
    have sized : k.Sized n := record.sized k (List.mem_reverse.mpr List.mem_cons_self)
    have last : (k :: past).reverse.getLast? = some k := by
      rw [List.getLast?_reverse, List.head?_cons]
    have more {next : Knowledge ℝ} (follows : k.Follows n next) :
        Knowledge.Record n known (next :: k :: past).reverse := by
      rw [List.reverse_cons]
      exact record.add last follows
    refine .bind (roundFollows sized) fun outcome follows => ?_
    cases outcome with
    | stuck => exact .pure ⟨List.cons_ne_nil _ _, record⟩
    | stillUphill forced => exact .pure ⟨List.cons_ne_nil _ _, more follows⟩
    | stillIndefinite forced => exact .pure ⟨List.cons_ne_nil _ _, more follows⟩
    | moved next =>
      refine .counting fun calls => .ite (fun _ => ih (more follows) _) fun _ => .pure ?_
      exact ⟨List.cons_ne_nil _ _, more follows⟩

theorem iterateRecord {known : Prop} {seed : Seed ℝ} (begins : seed.knowledge.Begins n known)
    (maxCalls : ℕ) (edmval : ℝ) :
    Gives (iterate s m seed maxCalls edmval) fun min => Knowledge.Record n known min.history := by
  have record := Knowledge.Record.seed begins
  refine .ite (fun _ => .pure record) fun _ => ?_
  refine .bind (roundsRecord maxCalls _ record _ _) fun found holds => ?_
  refine .counting fun calls => .pure ?_
  rw [judgeHistory _ _ _ _ (List.reverse_ne_nil_iff.mpr holds.1)]
  exact holds.2

end Descent

/-! ### Whole searches -/

namespace Knowledge

/- What a list of points is like where only falls are harmful. -/
structure Lasts (known : Prop) (l : List (Knowledge ℝ)) : Prop where
  first : ∀ k, l.head? = some k → k.Proper ∨ known ∨ k.gradient.curvesDown
  proper : (∀ k ∈ l, k.Proper) ↔ (∀ k, l.head? = some k → k.Proper) ∧ l.IsChain Rises

variable {known : Prop}

theorem Record.lasts {l : List (Knowledge ℝ)} (record : Record n known l) : Lasts known l := by
  obtain ⟨k, head, begins⟩ := record.first
  obtain ⟨rest, rfl⟩ : ∃ rest, l = k :: rest := List.head?_eq_some_iff.mp head
  refine ⟨?_, ?_⟩
  · rintro _ ⟨⟩
    exact begins.definite.imp (fun definite _ => definite) And.right
  · have alone : (∀ x, (k :: rest).head? = some x → x.Proper) ↔ k.Proper := by simp
    rw [alone]
    exact chainProper record.follow begins.proper

theorem pointLasts (p : Point ℝ) (edm : ℝ) (calls : ℕ) : Lasts known [.ofPoint p edm calls] := by
  have proper : (ofPoint p edm calls).Proper := fun valid => by cases valid
  refine ⟨?_, ?_⟩
  · rintro _ ⟨⟩
    exact .inl proper
  · simp [proper]

end Knowledge

namespace Surface
variable {s : Surface ℝ} {known : Prop}

/-! #### Beginnings -/

theorem diagonalBegins (g : Gradient ℝ) (prec : Precision ℝ) :
    (diagonalError g prec).Definite ∨
      (diagonalError g prec).isValid ∧ (known ∨ g.curvesDown) := by
  cases level : g.curvesDown with
  | false => exact .inl (diagonalErrorDefinite prec level)
  | true => exact .inr ⟨rfl, .inr rfl⟩

theorem knowBegins {p : Point ℝ} (size : p.x.size = n) {e : ErrorMatrix ℝ} (rows : e.inverse.size = n)
    {g : Gradient ℝ} (full : g.Full n) (definite : e.Definite ∨ e.isValid ∧ (known ∨ g.curvesDown)) :
    Gives (know p e g) (·.Begins n known) :=
  .expect (.counting fun _ => .pure ⟨⟨size, full, rows⟩, definite⟩)

theorem startErrorBegins {state : FitState ℝ} (same : state.space.dimension = n)
    (knows : state.hasCovariance = true → known ∨ n = 0) {g : Gradient ℝ} (full : g.Full n) :
    (startError state g).Definite ∨
      (startError state g).isValid ∧ (known ∨ g.curvesDown) := by
  have rows := sizeStartError same full
  rw [startError] at rows ⊢
  split at rows
  case isTrue fits =>
    rw [if_pos fits]
    rcases knows fits.1 with told | none
    · exact .inr ⟨rfl, .inl told⟩
    · exact .inl (.empty (rows.trans none))
  case isFalse other =>
    rw [if_neg other]
    exact diagonalBegins g _

theorem leaveDownwardBegins (m : GradientMethod ℝ) {k : Knowledge ℝ} (begins : k.Begins n known)
    (prec : Precision ℝ) : Gives (s.leaveDownward m k prec) (·.Begins n known) := by
  refine .ite (fun _ => .pure begins) fun _ => ?_
  refine .bind (climbDownSized m prec begins.sized.point begins.sized.gradient _) fun r found => ?_
  exact knowBegins found.1 (sizeDiagonalError found.2 prec) found.2 (diagonalBegins _ _)

theorem settleStartBegins (m : GradientMethod ℝ) (st : Strategy ℝ) {k : Knowledge ℝ}
    (begins : k.Begins s.space.dimension known) (prec : Precision ℝ) :
    Gives (s.settleStart m st k prec) (·.Begins s.space.dimension known) := by
  refine .ite (fun _ => .pure begins) fun _ => .ite (fun _ => leaveDownwardBegins m begins prec) fun _ => ?_
  refine .bind (leaveDownwardBegins _ begins prec) fun k begins => ?_
  have sized := begins.sized
  refine .bind (gradientFull m sized.point) fun g full => ?_
  exact knowBegins sized.point sized.error
    ⟨full.slopes, sized.gradient.curvatures, sized.gradient.steps⟩ begins.definite

variable (eps2 : 0 < s.precision.eps2) (m : GradientMethod ℝ) (st : Strategy ℝ)
  (check : GradientCheck) {state : FitState ℝ}
include eps2

theorem descentSeedBegins (same : state.space.dimension = s.space.dimension)
    (knows : state.hasCovariance = true → known ∨ s.space.dimension = 0) :
    Gives (s.descentSeed m st check state) (·.knowledge.Begins s.space.dimension known) := by
  refine .bind (startPointSize same) fun p size => ?_
  refine .bind (startGradientFull m st check size) fun g full => ?_
  refine .bind (knowBegins size (sizeStartError same full) full (startErrorBegins same knows full))
    fun k begins => ?_
  refine .bind (settleStartBegins m st begins _) fun k begins => ?_
  refine .ite (fun _ => ?_) fun _ => .bind (.pure begins) fun k begins => .pure begins
  refine .bind ((secondDerivativesSized st begins.sized 0).both
    (secondDerivativesDefinite eps2 st begins.sized.emptyDefinite 0)) fun k found => .pure ?_
  exact ⟨found.1, .inl found.2⟩

theorem seedBegins (a : Algorithm) (same : state.space.dimension = s.space.dimension)
    (knows : state.hasCovariance = true → known ∨ s.space.dimension = 0) :
    Gives (s.seed a m st check state) (·.knowledge.Begins s.space.dimension known) := by
  refine .ite (fun _ => descentSeedBegins eps2 m st check same knows) fun _ => ?_
  refine .bind (startPointSize same) fun p size => ?_
  have full := s.guessFull p
  exact .map (knowBegins size (sizeDiagonalError full _) full (diagonalBegins _ _))

/-! #### Searches -/

theorem descendRecord {seed : Seed ℝ} (begins : seed.knowledge.Begins s.space.dimension known)
    (maxCalls : ℕ) (edmval : ℝ) : Gives (s.descend m seed st maxCalls edmval) fun min =>
      Knowledge.Record s.space.dimension known min.history := by
  refine .bind (Descent.iterateRecord begins maxCalls edmval) fun min record => ?_
  refine .ite (fun _ => ?_) fun _ => .pure record
  have last : min.history.getLast? = some min.last := List.getLast?_concat
  have sized : min.last.Sized s.space.dimension := record.sized _ (List.mem_of_getLast? last)
  have stays := (secondDerivativesSized st sized 0).both (s.secondDerivativesPoint st min.last 0)
  refine .bind (stays.both (secondDerivativesDefinite eps2 st sized.emptyDefinite 0))
    fun next found => .pure ?_
  obtain ⟨⟨after, same⟩, definite⟩ := found
  exact record.add last (Knowledge.stillFollows sized after same fun _ => definite)

omit eps2 in
/- A simplex finds no error matrix; where there is nothing to search, it keeps what it was given. -/
theorem contractLasts {seed : Seed ℝ} (begins : seed.knowledge.Begins s.space.dimension known)
    (maxCalls : ℕ) (wanted : ℝ) : Gives (s.contract seed maxCalls wanted) fun min =>
      Knowledge.Lasts known min.history ∧ (min.last.error.isValid → s.space.dimension = 0) := by
  refine .ite (fun none => .pure ?_) fun _ => ?_
  · exact ⟨(Knowledge.Record.seed begins).lasts, fun _ => begins.sized.point.symm.trans none⟩
  · refine .expect (.bindAny (givesAny _) fun simplex => .bindAny (givesAny _) fun simplex => ?_)
    refine .bindAny (givesAny _) fun settled => .counting fun calls => .pure ?_
    have missing (p : Point ℝ) (edm : ℝ) : (Knowledge.ofPoint p edm calls).error.isValid →
        s.space.dimension = 0 := fun valid => by cases valid
    split
    · exact ⟨Knowledge.pointLasts _ _ _, missing _ _⟩
    · split
      · exact ⟨Knowledge.pointLasts _ _ _, missing _ _⟩
      · exact ⟨Knowledge.pointLasts _ _ _, missing _ _⟩

theorem descendTwiceLasts {seed : Seed ℝ} (moved : s.space.Moved seed.space)
    (begins : seed.knowledge.Begins s.space.dimension known) (maxCalls : ℕ) (edmval : ℝ) :
    Gives (s.descendTwice m seed st maxCalls edmval) fun min => Knowledge.Lasts known min.history := by
  refine .bind (descendRecord eps2 m st begins maxCalls edmval) fun first record => ?_
  refine .ite (fun _ => .pure record.lasts) fun _ => ?_
  refine .bind ((contractFits moved begins.sized maxCalls edmval).both
    (contractLasts begins maxCalls edmval)) fun coarse rough => ?_
  obtain ⟨holds, lasts, none⟩ := rough
  refine .ite (fun _ => .pure lasts) fun _ => ?_
  have again := holds.moved.trans coarse.stateMoved
  have knows : coarse.state.hasCovariance = true → known ∨ s.space.dimension = 0 := fun covered =>
    .inr (none ((FitState.ofKnowledgeCovered ..).symm.trans covered))
  refine .bind (.bind (.expect (descentSeedBegins eps2 m .high .off again.dimension knows))
    fun seed begins => descendRecord eps2 m .high begins maxCalls edmval) fun second fine => .pure ?_
  split
  · exact fine.lasts
  · exact lasts

theorem searchLasts (a : Algorithm) {seed : Seed ℝ} (moved : s.space.Moved seed.space)
    (begins : seed.knowledge.Begins s.space.dimension known) (maxCalls : ℕ) (edmval : ℝ) :
    Gives (s.search a m seed st maxCalls edmval) fun min => Knowledge.Lasts known min.history := by
  cases a with
  | descent => exact (descendRecord eps2 m st begins maxCalls edmval).weaken fun _ => (·.lasts)
  | simplex => exact (contractLasts begins maxCalls edmval).weaken fun _ => And.left
  | combined => exact descendTwiceLasts eps2 m st moved begins maxCalls edmval
  | scan =>
    refine .expect (.bindAny (givesAny _) fun found => .counting fun calls => .pure ?_)
    exact Knowledge.pointLasts _ _ _

end Surface

/-! ### A covariance that is known -/

/- A budget that is spent before the search begins leaves the seed. -/
theorem Fit.searchFromSpent {f : Fit ℝ} {maxCalls : ℕ} {t : Trace ℝ}
    (spent : maxCalls ≤ (f.seed.run t).2.calls) (tolerance : ℝ) :
    ((f.searchFrom maxCalls tolerance).run t).1.history = [(f.seed.run t).1.knowledge] := by
  have counted : maxCalls ≤ (Eval.calls.run (f.seed.run t).2).1 := spent
  simp only [searchFrom, Eval.runBind, Eval.runIte]
  rw [if_pos counted]
  rfl

/- The covariance of two parameters with errors of one, positive definite for small `b` only. -/
noncomputable def shared (b : ℝ) : Covariance ℝ :=
  .ofMatrix (.build 2 fun i j => if i = j then 1 else b)

noncomputable def twoParameters : Space ℝ := Space.empty.run [.add "x" 0 1, .add "y" 0 1]

noncomputable def sharing (b : ℝ) : FitState ℝ :=
  { FitState.ofSpace ((twoParameters.setErrorAt 0 (Scalar.sqrt ((shared b).element 0 0))).setErrorAt 1
      (Scalar.sqrt ((shared b).element 1 1))) with
    hasCovariance := true
    covariance := shared b
    inner := (shared b).scale 0.5 }

noncomputable def sharingFit (b : ℝ) : Fit ℝ := .new (.bowl #[1, -1]) (sharing b) .descent

theorem sharingMade (b : ℝ) : FitState.ofCovariance twoParameters (shared b) = .ok (sharing b) := by
  have first : ¬ (shared b).element 0 0 ≤ 0 := not_le.mpr one_pos
  have second : ¬ (shared b).element 1 1 ≤ 0 := not_le.mpr one_pos
  rw [FitState.ofCovariance, if_pos (show (shared b).rows = twoParameters.dimension from rfl)]
  change (FitState.takeErrors (shared b) twoParameters 0 [0, 1] >>= _) = _
  rw [FitState.takeErrors, if_neg first, FitState.takeErrors, if_neg second]
  rfl

theorem sharingShape (b : ℝ) : (sharingFit b).surface.Bowl #[1, -1] where
  plain := by
    refine ⟨⟨rfl, rfl, fun i inside => ?_⟩, fun _ _ => le_refl 2⟩
    have inside : i < 2 := inside
    interval_cases i
    · exact ⟨rfl, rfl⟩
    · exact ⟨rfl, rfl⟩
  objective := rfl
  errorDef := rfl
  precision := rfl

theorem sharingErrors (b : ℝ) {i : ℕ} (inside : i < 2) :
    0.1 ≤ |((sharingFit b).surface.space.parameterAt i).error| := by
  have one : 0.1 ≤ |√(1 : ℝ)| := by
    rw [Real.sqrt_one, abs_one]
    norm_num
  interval_cases i
  · exact one
  · exact one

theorem sharingBegins (b : ℝ) : ∃ g min u k, ((sharingFit b).minimizeWith 1 0.1).run {} =
    (.ok (g, min), u) ∧ min.history = [k] ∧ k.error = .usable ((shared b).scale 0.5).toMatrix 0 := by
  let f := sharingFit b
  let m : GradientMethod ℝ := .differences .medium
  have sensible : (Strategy.medium : Strategy ℝ).Sensible := Strategy.ofLevelSensible 1
  have begins : Yields True (f.surface.descentSeed m .medium .warn f.state) {} _ _ :=
    (sharingShape b).seedKnown sensible rfl rfl rfl rfl (fun i inside => sharingErrors b inside) .warn {}
  have spent : 1 ≤ (f.seed.run {}).2.calls :=
    Surface.descentSeedSpends (s := f.surface) m .medium .warn f.state {}
  exact ⟨_, _, _, _, rfl, Fit.searchFromSpent (f := f) spent 0.1, begins.answer.2.2.1⟩

/- What is known of both parameters, in the coordinates of a search. -/
theorem sharingElement (b : ℝ) {i j : ℕ} (row : i < 2) (col : j < 2) :
    ((shared b).scale 0.5).toMatrix.element i j = (if i = j then 1 else b) * 0.5 := by
  let m : Symmetric ℝ := .build 2 fun i j => if i = j then 1 else b
  have comm (i j : ℕ) : (if i = j then (1 : ℝ) else b) = if j = i then 1 else b := by
    simp only [eq_comm]
  have half : (m.map (· * 0.5)).element i j = m.element i j * 0.5 := Symmetric.elementMap _ row col
  rw [Symmetric.elementBuildComm comm row col] at half
  exact (Symmetric.elementBuildComm (fun i j => (m.map (· * 0.5)).elementComm i j) row col).trans half

/-! ### Fits -/

namespace Fit
variable (f : Fit ℝ) (eps2 : 0 < f.state.space.precision.eps2) (maxCalls : ℕ) (tolerance : ℝ)
include eps2

theorem searchFromLasts : Gives (f.searchFrom maxCalls tolerance) fun min =>
    Knowledge.Lasts (f.state.hasCovariance = true) min.history := by
  let s := f.surface
  have begins : Gives f.seed (·.knowledge.Begins s.space.dimension (f.state.hasCovariance = true)) :=
    Surface.seedBegins (s := s) eps2 _ _ _ f.algorithm rfl .inl
  refine .bind (begins.both (Surface.seedSized (s := s) f.algorithm _ _ _ rfl)) fun seed found => ?_
  obtain ⟨begins, -, same⟩ := found
  have moved : f.state.space.Moved seed.space := same ▸ .refl _
  refine .counting fun calls => .ite (fun _ => .pure (Knowledge.Record.seed begins).lasts) fun _ => ?_
  exact Surface.searchLasts (s := s) eps2 _ _ f.algorithm moved begins _ _

theorem minimizeLasts : Gives (f.minimizeWith maxCalls tolerance) fun result =>
    ∀ g min, result = .ok (g, min) → Knowledge.Lasts (f.state.hasCovariance = true) min.history := by
  refine .ite (fun _ => .pure fun g min found => by cases found) fun _ => ?_
  refine .bind (.apart (f.searchFromLasts eps2 _ tolerance)) fun low lasts => .pure fun g min found => ?_
  cases found
  exact lasts

variable {f maxCalls tolerance} {g : Fit ℝ} {min : Minimum ℝ} {t u : Trace ℝ}

/- Whether every point that counts as valid is positive definite, after any minimization. It depends on
the first point and on falls of the slope along later moves, and on nothing else; the first point can
only fail by a covariance that was known or by a curvature that stayed negative. Where a matrix is
positive definite, errors are roots of positive numbers and the global correlations exist. -/
theorem validDefinite (run : (f.minimizeWith maxCalls tolerance).run t = (.ok (g, min), u)) :
    ((∀ k ∈ min.history, k.Proper) ↔
      (∀ k, min.history.head? = some k → k.Proper) ∧ min.history.IsChain Knowledge.Rises) ∧
    (∀ k, min.history.head? = some k →
      k.Proper ∨ f.state.hasCovariance = true ∨ k.gradient.curvesDown) ∧
    ∀ k ∈ min.history, k.error.Definite →
      (∀ i < k.error.inverse.size, 0 < k.error.inverse.element i i) ∧
        (GlobalCorrelation.ofMatrix k.error.inverse).valid = true := by
  have lasts := (f.minimizeLasts eps2 maxCalls tolerance).answer t
  rw [run] at lasts
  obtain ⟨first, proper⟩ := lasts g min rfl
  exact ⟨proper, first, fun k _ definite => ⟨fun i => definite.diagonal, definite.correlations⟩⟩

end Fit

/- Parameters that share nothing make a fit all of whose points are what they count as. -/
theorem validDefiniteApart : ∃ g min u, 0 < (sharingFit 0).state.space.precision.eps2 ∧
    ((sharingFit 0).minimizeWith 1 0.1).run {} = (.ok (g, min), u) ∧ (∃ k, min.history = [k]) ∧
    ∀ k ∈ min.history, k.error.isValid ∧ k.error.Definite ∧
      (GlobalCorrelation.ofMatrix k.error.inverse).valid = true := by
  obtain ⟨g, min, u, k, run, alone, known⟩ := sharingBegins 0
  have eps2 : 0 < (sharingFit 0).state.space.precision.eps2 := by
    change 0 < (Precision.machine : Precision ℝ).eps2
    rw [machineEps2]
    positivity
  have size : k.error.inverse.size = 2 := by
    rw [known]
    rfl
  have diagonal : k.error.inverse.matrix 2 = Matrix.diagonal fun _ => 1 * 0.5 := by
    ext i j
    rw [known, diagonal_apply]
    refine (sharingElement 0 i.isLt j.isLt).trans ?_
    rw [ite_mul, zero_mul]
    exact if_congr Fin.ext_iff.symm rfl rfl
  have definite : k.error.Definite := by
    rw [ErrorMatrix.definiteMatrix size, diagonal]
    exact .diagonal fun _ => by norm_num
  obtain ⟨-, -, usable⟩ := Fit.validDefinite eps2 run
  refine ⟨g, min, u, eps2, run, ⟨k, alone⟩, ?_⟩
  rw [alone] at usable ⊢
  refine List.forall_mem_singleton.mpr ⟨by rw [known]; rfl, definite, ?_⟩
  exact (usable k (List.mem_singleton_self k) definite).2

/- A covariance of a user is taken for what it should be, whatever it is. -/
theorem validIndefinite :
    ¬ ∀ (actions : List (Action ℝ)) (c : Covariance ℝ) (f : Fit ℝ),
      FitState.ofCovariance (Space.empty.run actions) c = .ok f.state →
      ∀ (maxCalls : ℕ) (tolerance : ℝ) (g : Fit ℝ) (min : Minimum ℝ) (u : Trace ℝ),
        (f.minimizeWith maxCalls tolerance).run {} = (.ok (g, min), u) →
        ∀ k ∈ min.history, k.Proper := by
  intro proper
  obtain ⟨g, min, u, k, run, alone, known⟩ := sharingBegins 2.0
  have well := proper _ (shared 2.0) (sharingFit 2.0) (sharingMade 2.0) 1 0.1 g min u run k
    (by rw [alone]; exact List.mem_singleton_self k)
  have definite := well (by rw [known]; rfl)
  have form : k.error.inverse.quadratic #[1, -1] = -1 := by
    have two : (#[1, -1] : Array ℝ).size = 2 := rfl
    rw [known, ErrorMatrix.usable, Symmetric.quadraticExact]
    simp only [two, Finset.sum_range_succ, Finset.sum_range_zero, sharingElement, Nat.reduceLT, entry]
    norm_num
  have positive := definite.notNegative (v := #[1, -1]) (by rw [known]; exact le_refl 2)
  rw [form] at positive
  linarith

end ParamFit
