import ParamFit.Search.Descent
import ParamFit.Proofs.Plain
import ParamFit.Proofs.Sums

/-! A line search that has seen the lowest value there is. Nothing it sees later can take the place of
that sample, so the search gives it back, after a bounded number of questions. -/
namespace ParamFit
namespace LineSearch

/- A probe asks once, lacks nothing and never finds a value below `low`. -/
def Probes (fits : Prop) (probe : ℝ → Eval ℝ ℝ) (low : ℝ) : Prop :=
  ∀ x t, Yields fits (probe x) t 1 fun y => low ≤ y

variable {fits : Prop} {probe : ℝ → Eval ℝ ℝ} {low : ℝ} {c : Course ℝ} {s : Progress ℝ}

namespace Progress

theorem bestNote {p : Sample ℝ} (notLower : s.best.y ≤ p.y) : (s.note p).best = s.best := by
  rw [note, if_neg (not_lt.mpr notLower)]

theorem bestExchange (p : Sample ℝ) : (s.exchange p).best = s.best := by
  unfold exchange
  split
  · rfl
  · split <;> rfl

theorem bestAccept {p : Sample ℝ} (notLower : s.best.y ≤ p.y) : (s.accept p).best = s.best := by
  have higher : ¬ p.y < (s.exchange p).best.y := by
    rw [bestExchange]
    exact not_lt.mpr notLower
  rw [accept]
  dsimp only
  rw [if_neg higher]
  exact bestExchange p

theorem widenReach (s : Progress ℝ) : 0 ≤ s.widen.reach := by
  change 0 ≤ Scalar.max s.reach (2.0 * Scalar.abs s.best.x)
  rw [Exact.max, Exact.abs]
  exact le_max_of_le_right (by positivity)

theorem widenBounds (c : Course ℝ) (s : Progress ℝ) : s.widen.hasBounds c = true := by
  have reach := s.widenReach
  have order : s.widen.best.x - s.widen.reach ≤ s.widen.best.x + s.widen.reach := by linarith
  rw [hasBounds, Bool.or_eq_true]
  exact .inr (decide_eq_true order)

end Progress

theorem refineKeeps (probes : Probes fits probe low) (lowest : s.best.y = low) (x : ℝ) (fuel : ℕ)
    (t : Trace ℝ) : Yields fits (refine probe c s x fuel) t fuel (· = s.best) := by
  induction fuel generalizing s x t with
  | zero => exact .pure rfl
  | succ fuel ih =>
    refine .ite (fun _ => .pure rfl) fun _ => ?_
    rw [Nat.add_comm]
    refine .bind (probes x t) fun y u notLower _ => ?_
    rw [← lowest] at notLower
    refine .ite (fun _ => .ite (fun _ => .pure rfl) fun _ => ?_) fun _ => ?_
    · exact ih (s := (s.retreat x).1) lowest _ u
    · have kept : (s.accept ⟨x, y⟩).best = s.best := Progress.bestAccept notLower
      rw [← kept] at lowest ⊢
      refine .ite (fun _ => .pure rfl) fun _ => ?_
      refine .expect (fun _ => Progress.widenBounds c _) fun v _ => ?_
      exact ih (s := (s.accept ⟨x, y⟩).widen) lowest _ v

theorem approachKeeps (probes : Probes fits probe low) (lowest : s.best.y = low) (fuel : ℕ)
    (t : Trace ℝ) :
    Yields fits (approach probe c s fuel) t (fuel + maxRounds) (· = s.best) := by
  induction fuel generalizing s t with
  | zero => exact .pure rfl
  | succ fuel ih =>
    rw [approach]
    split
    case h_1 => exact .pure rfl
    case h_2 x _ =>
      rw [Nat.add_comm fuel 1, Nat.add_assoc]
      refine .bind (probes x t) fun y u notLower _ => ?_
      rw [← lowest] at notLower
      have kept : (s.afterTangent ⟨x, y⟩).best = s.best := Progress.bestNote notLower
      rw [← kept] at lowest ⊢
      refine .ite (fun _ => .ite (fun _ => .pure rfl) fun _ => ?_) fun _ => ?_
      · exact ih (s := (s.afterTangent ⟨x, y⟩).closer) lowest u
      · refine .expect (fun _ => Progress.widenBounds c _) fun v _ => ?_
        exact .weaken (refineKeeps (s := (s.afterTangent ⟨x, y⟩).widen) probes lowest _ _ v)
          (by omega) fun _ same => same

def maxCalls : ℕ := 1 + (maxRounds + maxRounds)

theorem runKeeps (probes : Probes fits probe low)
    (lowest : ∀ t, (Progress.begin c ((probe 1).run t).1).best.y = low) (t : Trace ℝ) :
    Yields fits (run probe c) t maxCalls (· = (Progress.begin c ((probe 1).run t).1).best) := by
  have first : Yields fits (probe 1) t 1 (· = ((probe 1).run t).1) :=
    ⟨rfl, (probes 1 t).calls, (probes 1 t).sound⟩
  refine .bind first fun y u same _ => ?_
  rw [← same]
  exact approachKeeps probes (by rw [same]; exact lowest t) maxRounds u

end LineSearch

/- The slope along the step to the minimum of a model is what the model takes away, twice. -/
theorem slopeOfStep (k : Knowledge ℝ) :
    k.slopeAlong k.newtonStep = - k.error.inverse.quadratic k.gradient.slopes := by
  have size : k.newtonStep.size = k.gradient.slopes.size := by
    rw [Knowledge.newtonStep, Array.size_map, Symmetric.sizeMulVec]
  rw [Knowledge.slopeAlong, Symmetric.quadratic, Vector.dotExact, Vector.dotExact, size,
    Symmetric.sizeMulVec, ← Finset.sum_neg_distrib]
  refine Finset.sum_congr rfl fun i among => ?_
  have inside : i < (k.error.inverse.mulVec k.gradient.slopes).size := by
    rw [Symmetric.sizeMulVec]
    simpa using among
  rw [Knowledge.newtonStep, Vector.entryMap _ inside]
  change -(entry _ i) * _ = _
  ring

theorem lowerSample (a b : ℝ) :
    (if b < a then (⟨1, b⟩ : Sample ℝ) else ⟨0, a⟩).y = Min.min a b := by
  split
  case isTrue less => exact (min_eq_right less.le).symm
  case isFalse more => exact (min_eq_left (not_lt.mp more)).symm

section
variable {s : Surface ℝ} {n : ℕ} {fits : Prop} (plain : s.Plain n)
include plain

theorem Surface.Plain.lineSearchKeeps {p : Point ℝ} {step : Array ℝ} (size : p.x.size = n)
    (width : step.size = n) {low : ℝ} (above : ∀ x, x.size = n → low ≤ s.objective.value x)
    (lowest : Min.min p.value (s.objective.value (p.along step 1)) = low) (slope : ℝ)
    (prec : Precision ℝ) (t : Trace ℝ) :
    Yields fits (s.lineSearch p step slope prec) t LineSearch.maxCalls
      (· = if s.objective.value (p.along step 1) < p.value
        then ⟨1, s.objective.value (p.along step 1)⟩ else ⟨0, p.value⟩) := by
  have reached (x : ℝ) : (p.along step x).size = n := by
    rw [Point.along, Vector.sizeAdd, Vector.sizeScale, size, width, min_self]
  have probes : LineSearch.Probes fits (fun x => s.value (p.along step x)) low := fun x u =>
    .weaken (plain.value (reached x) u) (le_refl 1) fun y same => by rw [same]; exact above _ (reached x)
  have full (u : Trace ℝ) : ((s.value (p.along step 1)).run u).1 = s.objective.value (p.along step 1) :=
    (show Yields fits _ u _ _ from plain.value (reached 1) u).answer
  refine .expect (fun _ => by simp [size, width]) fun u _ => ?_
  let c : LineSearch.Course ℝ := ⟨prec, p.value, slope, LineSearch.leastMultiple prec p.x step⟩
  have begins (v : Trace ℝ) :
      (LineSearch.Progress.begin c ((s.value (p.along step 1)).run v).1).best =
        if s.objective.value (p.along step 1) < p.value
          then ⟨1, s.objective.value (p.along step 1)⟩ else ⟨0, p.value⟩ := by
    rw [full v]
    rfl
  have lowest' (v : Trace ℝ) :
      (LineSearch.Progress.begin c ((s.value (p.along step 1)).run v).1).best.y = low := by
    rw [begins v, lowerSample, lowest]
  have kept := LineSearch.runKeeps (c := c) probes lowest' u
  rw [begins u] at kept
  exact kept

/- A round stays where it is if its model, once it is repaired, leads nowhere. -/
theorem Descent.roundStuckAligned {k a : Knowledge ℝ} {m : GradientMethod ℝ} {prec : Precision ℝ}
    (aligns : aligned prec k = a) (size : a.point.x.size = n) (width : a.gradient.slopes.size = n)
    (covered : k.gradient.slopes.size ≤ k.error.inverse.size)
    (downhill : ¬ a.slopeAlong a.newtonStep > 0) {low : ℝ}
    (above : ∀ x, x.size = n → low ≤ s.objective.value x)
    (lowest : Min.min a.value (s.objective.value (a.point.along a.newtonStep 1)) = low)
    (near : |low - a.value| < prec.eps) (t : Trace ℝ) :
    Yields fits (round s m prec k) t LineSearch.maxCalls (· = .stuck) := by
  have step : a.newtonStep.size = n := by
    rw [Knowledge.newtonStep, Array.size_map, Symmetric.sizeMulVec, width]
  refine .expect (fun _ => decide_eq_true covered) fun u _ => ?_
  rw [aligns]
  refine .ite (fun uphill => absurd uphill downhill) fun _ => ?_
  refine .bind (k := 0) (plain.lineSearchKeeps size step above lowest _ prec u) fun best v found _ => ?_
  refine .ite (fun _ => .pure rfl) fun visible => absurd ?_ visible
  have lowest' : best.y = low := by rw [found, lowerSample]; exact lowest
  change |best.y - a.value| < prec.eps
  rw [lowest']
  exact near

theorem Descent.roundStuck {k : Knowledge ℝ} {m : GradientMethod ℝ} {prec : Precision ℝ}
    (size : k.point.x.size = n) (width : k.gradient.slopes.size = n)
    (covered : n ≤ k.error.inverse.size) (downhill : ¬ k.slopeAlong k.newtonStep > 0) {low : ℝ}
    (above : ∀ x, x.size = n → low ≤ s.objective.value x)
    (lowest : Min.min k.value (s.objective.value (k.point.along k.newtonStep 1)) = low)
    (near : |low - k.value| < prec.eps) (t : Trace ℝ) :
    Yields fits (round s m prec k) t LineSearch.maxCalls (· = .stuck) :=
  roundStuckAligned plain (if_neg downhill) size width (width.le.trans covered) downhill above lowest near t

end

theorem Descent.judgeKept {seed : Seed ℝ} {up : ℝ} {prec : Precision ℝ} {wanted edm : ℝ}
    (close : edm ≤ wanted) (history : List (Knowledge ℝ)) :
    judge seed up prec wanted history edm .finished false =
      Minimum.ofHistory seed history up := by
  rw [judge, if_neg nofun, if_neg nofun]
  exact if_neg (not_lt.mpr close)

/- A descent whose first round leads nowhere, close enough to the minimum, never leaves its seed. -/
theorem Descent.iterateStuck {s : Surface ℝ} {m : GradientMethod ℝ} {seed : Seed ℝ} {fits : Prop}
    {t : Trace ℝ} {maxCalls : ℕ} {edmval : ℝ}
    (fertile : ¬ (seed.knowledge.size = 0 ∨ seed.knowledge.edm < 0))
    (stuck : Yields fits (round s m seed.space.precision seed.knowledge) t LineSearch.maxCalls
      (· = .stuck))
    (close : cautious seed.knowledge ≤ edmval * 0.0001)
    (left : t.calls + LineSearch.maxCalls < maxCalls) :
    Yields fits (iterate s m seed maxCalls edmval) t LineSearch.maxCalls
      (· = .ofSeed seed s.errorDef) := by
  have one (fuel : ℕ) : Yields fits (rounds s m seed.space.precision maxCalls (edmval * 0.0001) []
      seed.knowledge (cautious seed.knowledge) (fuel + 1)) t LineSearch.maxCalls
      (· = ([seed.knowledge], cautious seed.knowledge, .finished)) := by
    refine .bind (k := 0) stuck ?_
    rintro _ u rfl _
    exact .pure rfl
  rw [iterate]
  dsimp only
  rw [if_neg fertile]
  refine .bind (n := LineSearch.maxCalls) (k := 0) (one maxCalls) ?_
  rintro _ u rfl most
  have within : decide (maxCalls ≤ u.calls) = false := decide_eq_false (by omega)
  refine .counting (.pure ?_)
  rw [within, judgeKept close]
  rfl

end ParamFit
