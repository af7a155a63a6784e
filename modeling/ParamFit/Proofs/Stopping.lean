import ParamFit.Proofs.Accounting
import ParamFit.Proofs.Repaired
import ParamFit.Proofs.Spending

/-! A descent goes down and stops. A round that moves has found a value that is lower by the precision
at least; it asks for a line search and a gradient, and every round asks once, so what remains of the
calls bounds the rounds. The last round begins with calls left, or is the first one; what it adds is
what the descent can spend beyond its calls. -/
namespace ParamFit

/-! ### What a round does -/

namespace Descent
variable {s : Surface ℝ} {m : GradientMethod ℝ} {prec : Precision ℝ} {k : Knowledge ℝ} {n : ℕ}

/- A round that moves, moves to a point that is lower and has no coordinates of its own. -/
def Outcome.Lowers (eps : ℝ) (k : Knowledge ℝ) : Outcome ℝ → Prop
  | .moved next => next.value ≤ k.value - eps ∧ next.size ≤ k.size
  | .stuck | .stillUphill _ | .stillIndefinite _ => True

theorem alignedPoint (prec : Precision ℝ) (k : Knowledge ℝ) : (aligned prec k).point = k.point := by
  rw [aligned]
  split <;> rfl

theorem arriveMost {best : Sample ℝ} (lower : best.y ≤ k.value - prec.eps) (t : Trace ℝ) :
    Yields False (arrive s m prec k best) t (m.most k.size) (Outcome.Lowers prec.eps k) := by
  have few : (k.point.along k.newtonStep best.x).size ≤ k.size := by
    rw [Point.along, Vector.sizeAdd]
    exact Nat.min_le_left _ _
  refine .bind (k := 0) (.weaken (Surface.gradientFromMost m _ _ t) (m.mostMono few) fun _ => id) ?_
  intro g u _ _
  refine .expect False.elim fun v _ => .ite (fun _ => .pure trivial) fun _ => ?_
  exact .expect False.elim fun w _ => .counting (.pure ⟨lower, few⟩)

variable (s m prec k) in
theorem roundMost (t : Trace ℝ) :
    Yields False (round s m prec k) t (8 + m.most k.size) (Outcome.Lowers prec.eps k) := by
  have same := alignedPoint prec k
  have size : (aligned prec k).size = k.size := congrArg (fun p : Point ℝ => p.x.size) same
  have value : (aligned prec k).value = k.value := congrArg Point.value same
  have lowers {o : Outcome ℝ} (found : o.Lowers prec.eps (aligned prec k)) : o.Lowers prec.eps k := by
    cases o with
    | moved next =>
      obtain ⟨lower, few⟩ := found
      exact ⟨by rwa [value] at lower, by rwa [size] at few⟩
    | stuck | stillUphill | stillIndefinite => trivial
  refine .expect False.elim fun u _ => .ite (fun _ => .pure trivial) fun _ => ?_
  refine .bind (Surface.lineSearchYields False.elim _ prec u) fun best v ⟨xs, lowest⟩ _ => ?_
  refine .ite (fun _ => .pure trivial) fun visible => ?_
  have top : best.y ≤ (aligned prec k).value := lowest.top
  have apart : prec.eps ≤ |best.y - (aligned prec k).value| := not_lt.mp visible
  rw [abs_of_nonpos (sub_nonpos.mpr top)] at apart
  rw [← size]
  exact .weaken (arriveMost (by linarith) v) (le_refl _) fun o => lowers

/-! ### What a search does -/

section
variable {maxCalls : ℕ} {wanted : ℝ} {t u v : Trace ℝ} {last : Knowledge ℝ} {o : Outcome ℝ}

theorem Search.before (search : Search s m prec maxCalls wanted k t last v) :
    last.size ≤ k.size ∧ v.calls ≤ max t.calls (maxCalls - 1) := by
  induction search with
  | last => exact ⟨le_refl _, le_max_left _ _⟩
  | @next k t next u last v moved goesOn _ ih =>
    have lowers := (roundMost s m prec k t).answer
    rw [moved] at lowers
    have left : u.calls ≤ maxCalls - 1 := Nat.le_sub_one_of_lt goesOn.2
    exact ⟨ih.1.trans lowers.2, ih.2.trans (max_le (left.trans (le_max_right _ _)) (le_max_right _ _))⟩

theorem Ends.most {seed : Seed ℝ} (ends : Ends s m maxCalls wanted seed t last o u) :
    u.calls ≤ max t.calls (maxCalls - 1) + (8 + m.most seed.knowledge.size) := by
  obtain ⟨v, search, final⟩ := ends.reached
  obtain ⟨few, left⟩ := search.before
  have more := (roundMost s m seed.space.precision last v).calls
  rw [final] at more
  have most := m.mostMono few
  dsimp only at more
  omega

end

/- Points from a first one on, each lower than the one before by the precision at least. -/
structure Falls (eps : ℝ) (first : Knowledge ℝ) (l : List (Knowledge ℝ)) : Prop where
  first : l.head? = some first
  lower : l.IsChain fun k next => next.value ≤ k.value - eps

theorem Falls.add {eps : ℝ} {first next : Knowledge ℝ} {past : List (Knowledge ℝ)}
    (falls : Falls eps first (k :: past).reverse) (lower : next.value ≤ k.value - eps) :
    Falls eps first (next :: k :: past).reverse := by
  have added : (next :: k :: past).reverse = (k :: past).reverse ++ [next] := List.reverse_cons
  rw [added]
  refine ⟨?_, falls.lower.append (.singleton next) fun x final y begun => ?_⟩
  · rw [List.head?_append, falls.first, Option.some_or]
  · rw [List.getLast?_reverse] at final
    obtain rfl := Option.some.inj final
    obtain rfl := Option.some.inj begun
    exact lower

theorem roundsFall (eps : 0 < prec.eps) (eps2 : 0 < prec.eps2) {maxCalls : ℕ} {wanted edm : ℝ}
    {first : Knowledge ℝ} {past : List (Knowledge ℝ)} {fuel : ℕ} {t u : Trace ℝ}
    {found : List (Knowledge ℝ) × ℝ × Ending} (falls : Falls prec.eps first (k :: past).reverse)
    (run : (rounds s m prec maxCalls wanted past k edm fuel).run t = (found, u)) (sound : u.sound) :
    found.1 ≠ [] ∧ Falls prec.eps first found.1.reverse := by
  induction fuel generalizing past k edm t with
  | zero =>
    cases run
    exact ⟨List.cons_ne_nil _ _, falls⟩
  | succ fuel ih =>
    obtain ⟨o, v, asked, rest⟩ := Eval.runParts run
    have lowers := (roundMost s m prec k t).answer
    rw [asked] at lowers
    cases o with
    | stuck =>
      cases rest
      exact ⟨List.cons_ne_nil _ _, falls⟩
    | stillUphill forced | stillIndefinite forced =>
      cases rest
      exact nomatch roundWhole eps eps2 asked sound
    | moved next =>
      have more := falls.add lowers.1
      simp only [Eval.runBind, Eval.runIte] at rest
      split at rest
      · exact ih more rest
      · cases rest
        exact ⟨List.cons_ne_nil _ _, more⟩

theorem iterateFalls {seed : Seed ℝ} (eps : 0 < seed.space.precision.eps)
    (eps2 : 0 < seed.space.precision.eps2) {maxCalls : ℕ} {edmval : ℝ} {t u : Trace ℝ}
    {min : Minimum ℝ} (run : (iterate s m seed maxCalls edmval).run t = (min, u)) (sound : u.sound) :
    Falls seed.space.precision.eps seed.knowledge min.history := by
  have alone : Falls seed.space.precision.eps seed.knowledge [seed.knowledge] :=
    ⟨rfl, .singleton seed.knowledge⟩
  simp only [iterate, Eval.runIte] at run
  split at run
  · cases run
    exact alone
  · obtain ⟨found, v, searched, rest⟩ := Eval.runParts run
    cases rest
    obtain ⟨some, falls⟩ := roundsFall eps eps2 alone searched sound
    rw [judgeHistory _ _ _ _ (List.reverse_ne_nil_iff.mpr some)]
    exact falls

end Descent

namespace Surface
variable {s : Surface ℝ} {m : GradientMethod ℝ} {seed : Seed ℝ} {st : Strategy ℝ} {maxCalls : ℕ}
  {edmval : ℝ} {t u : Trace ℝ} {found : Minimum ℝ}

/- Second derivatives that follow a descent stay where it ended. -/
theorem descendAdds (searched : (Descent.iterate s m seed maxCalls edmval).run t = (found, u))
    {whole : Minimum ℝ} {w : Trace ℝ}
    (run : (s.descend m seed st maxCalls edmval).run t = (whole, w)) :
    whole.history = found.history ∨
      ∃ k, whole.history = found.history ++ [k] ∧ k.point = found.last.point := by
  rw [descend, Eval.runBind, searched, Eval.runIte] at run
  dsimp only at run
  split at run
  · cases run
    exact .inr ⟨_, rfl, (s.secondDerivativesPoint st found.last 0).answer u⟩
  · cases run
    exact .inl rfl

/- A descent from an estimate that is not negative comes to a last round. Every point it comes to by a
line search is lower than the one before by the precision at least, and what is found out afterwards
stays at the last one. When it ends, a descent by differences has spent at most one line search and
one gradient more than the calls it had. -/
theorem descentStops {eps : ℝ} (positive : 0 < eps) (precision : seed.space.precision = .ofEps eps)
    (varies : 0 < seed.knowledge.size) (forward : 0 ≤ seed.knowledge.edm) (s : Surface ℝ)
    (m : GradientMethod ℝ) (st : Strategy ℝ) (maxCalls : ℕ) (edmval : ℝ) (t : Trace ℝ) :
    ∃ found u last o, (Descent.iterate s m seed maxCalls edmval).run t = (found, u) ∧
      (Descent.Ends s m maxCalls (edmval * 0.0001) seed t last o u ∧
        Descent.Judged seed (edmval * 0.0001) (maxCalls ≤ u.calls) last o found) ∧
      (u.sound → found.history.head? = some seed.knowledge ∧
        found.history.IsChain fun k next => next.value ≤ k.value - eps) ∧
      (∀ whole w, (s.descend m seed st maxCalls edmval).run t = (whole, w) →
        whole.history = found.history ∨
          ∃ k, whole.history = found.history ++ [k] ∧ k.point = found.last.point) ∧
      ∀ cycled, m = .differences cycled → u.calls ≤
        max t.calls (maxCalls - 1) + 8 + 2 * seed.knowledge.size * cycled.gradientCycles := by
  obtain ⟨⟨found, u⟩, run⟩ :
      ∃ answer, (Descent.iterate s m seed maxCalls edmval).run t = answer := ⟨_, rfl⟩
  have fertile : ¬ Descent.Barren seed := by
    rintro (empty | negative)
    · exact varies.ne' empty
    · exact absurd negative (not_lt.mpr forward)
  obtain ⟨last, o, ends, judged⟩ :=
    (Descent.iterateCases run).resolve_left fun barren => fertile barren.1
  have fine : 0 < seed.space.precision.eps := by
    rw [precision]
    exact positive
  have coarse : 0 < seed.space.precision.eps2 := by
    rw [precision]
    exact ErrorMatrix.coarsePositive positive
  refine ⟨found, u, last, o, run, ⟨ends, judged⟩, fun sound => ?_,
    fun whole w => descendAdds run, ?_⟩
  · have falls := Descent.iterateFalls fine coarse run sound
    rw [precision] at falls
    exact ⟨falls.first, falls.lower⟩
  · rintro cycled rfl
    have most := ends.most
    have spent : GradientMethod.most (.differences cycled) seed.knowledge.size =
        2 * seed.knowledge.size * cycled.gradientCycles := by
      change seed.knowledge.size * (cycled.gradientCycles * 2) = _
      ring
    omega

theorem descentStopsGround : ∃ found u last o,
    let s : Surface ℝ := ⟨.plain fun x => entry x 0 ^ 2, 1, ground.space⟩
    (0 : ℝ) < 2⁻¹ ^ 50 ∧ ground.space.precision = .ofEps (2⁻¹ ^ 50) ∧ 0 < ground.knowledge.size ∧
    0 ≤ ground.knowledge.edm ∧
    (Descent.iterate s (.differences .low) ground 100 0.1).run {} = (found, u) ∧
    Descent.Ends s (.differences .low) 100 (0.1 * 0.0001) ground {} last o u ∧ u.calls ≤ 111 := by
  have positive : (0 : ℝ) < 2⁻¹ ^ 50 := by positivity
  have precision : ground.space.precision = .ofEps (2⁻¹ ^ 50) := rfl
  obtain ⟨found, u, last, o, run, ⟨ends, -⟩, -, -, most⟩ := descentStops positive precision one_pos
    (le_refl 0) ⟨.plain fun x => entry x 0 ^ 2, 1, ground.space⟩ (.differences .low) .low 100 0.1 {}
  exact ⟨found, u, last, o, positive, precision, one_pos, le_refl 0, run, ends, most .low rfl⟩

end Surface
end ParamFit
