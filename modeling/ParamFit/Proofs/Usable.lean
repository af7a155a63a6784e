import ParamFit.Proofs.Accounting
import ParamFit.Proofs.Convergence
import ParamFit.Proofs.Dividing
import ParamFit.Proofs.Forced
import ParamFit.Proofs.Repair
import ParamFit.Proofs.Spending

/-! Second derivatives are usable however they end. They end with an inverse that was found, with one of
a matrix that was forced, or with what stands in for one, and the record says which: only what was found
counts as accurate. All calls are recorded. To a start that has everything, nothing is lacking. -/
namespace ParamFit

/-! ### The record -/

/- What was found has no doubt, what was forced or stands in nothing else. -/
inductive ErrorMatrix.Marked (e : ErrorMatrix ℝ) : Prop where
  | found (status : e.status = .valid) (certain : e.dcovar = 0)
  | forced (status : e.status = .madePosDef) (doubtful : e.dcovar = 1)
  | standsIn (status : e.status = .hessianFailed) (doubtful : e.dcovar = 1)

namespace ErrorMatrix.Marked
variable {e : ErrorMatrix ℝ} (marked : e.Marked)
include marked

theorem listed : e.status ∈ [.valid, .madePosDef, .hessianFailed] := by
  cases marked with
  | found status | forced status | standsIn status =>
    rw [status]
    decide

theorem accurate (small : e.dcovar < 0.1) : e.status = .valid := by
  cases marked with
  | found status certain => exact status
  | forced status doubtful | standsIn status doubtful =>
    rw [doubtful] at small
    exact absurd small (by norm_num)

end ErrorMatrix.Marked

theorem Hessian.concludeMarked (k : Knowledge ℝ) (prec : Precision ℝ) (calls : ℕ)
    (found : Except (HessianFailure × Array ℝ) (Symmetric ℝ × Gradient ℝ)) :
    (conclude k prec calls found).error.Marked := by
  cases found with
  | error failure => exact .standsIn rfl rfl
  | ok found =>
    unfold conclude
    dsimp only
    split
    case h_1 => exact .standsIn rfl rfl
    case h_2 =>
      split
      case isTrue => exact .forced rfl rfl
      case isFalse => exact .found rfl rfl

/-! ### The calls -/

namespace Surface

theorem secondDerivativesMost (s : Surface ℝ) (st : Strategy ℝ) (k : Knowledge ℝ) (limit : ℕ)
    (t : Trace ℝ) :
    ((s.secondDerivatives st k limit).run t).2.calls ≤ t.calls + Hessian.mostCalls st k.size := by
  rw [secondDerivatives, Eval.runIte]
  split
  · exact Nat.le_add_right _ _
  · exact (Hessian.matrixMost (s := s) (k := k) st False.elim False.elim _ t.calls t).calls

/-! ### Where something varies -/

section
variable {s : Surface ℝ} {st : Strategy ℝ} {k next : Knowledge ℝ} (varies : 0 < k.size) {limit : ℕ}
  {t u : Trace ℝ}
include varies

variable (s st limit) in
theorem secondDerivativesMarked : Gives (s.secondDerivatives st k limit) (·.error.Marked) := by
  refine .ite (fun none => absurd none varies.ne') fun _ => .counting fun before => ?_
  refine .bindAny (givesAny _) fun found => .counting fun calls => ?_
  exact .expect (.expect (.pure (Hessian.concludeMarked ..)))

/- Where all that is known has the right size, only what can be answered is asked. What can still be
lacking is room for the count. -/
theorem secondDerivativesSound (sized : k.Sized s.space.dimension) (readable : s.Readable)
    (run : (s.secondDerivatives st k limit).run t = (next, u)) :
    u.sound ↔ t.sound ∧ Count.fits (k.calls + u.calls) := by
  rw [secondDerivatives, if_neg varies.ne'] at run
  obtain ⟨before, v, counted, run⟩ := Eval.runParts run
  cases counted
  obtain ⟨found, v, searched, run⟩ := Eval.runParts run
  let limit := if limit = 0 then defaultBudget k.size else limit
  have holds := (Hessian.matrixFound st sized limit t.calls).answer t
  have kept := (Hessian.matrixMost st (fun _ => sized) (fun _ => readable) limit t.calls t).sound
    trivial
  rw [searched] at holds kept
  have same : v.sound = t.sound := kept
  have whole := Hessian.concludeSized sized s.precision (v.calls - t.calls) holds
  have covers : (Hessian.conclude k s.precision (v.calls - t.calls) found).error.covers
      (Hessian.conclude k s.precision (v.calls - t.calls) found).gradient :=
    ErrorMatrix.coversSame (whole.gradient.slopes.trans whole.error.symm)
  cases run
  simp only [covers, Bool.or_true, Bool.and_true, Bool.and_eq_true]
  rw [same]
  rfl

/- Second derivatives of any objective, begun anywhere with anything. Their differences never divide by
zero. What comes of them stays at the point and has all calls on record; the inverse is positive definite,
and it counts as accurate only where it was found. Whatever the limit is, the cycles bound the calls.
Where all that is known has the right size, nothing is lacking, up to the room for the count of the
calls. -/
theorem secondDerivativesUsable (eps2 : 0 < s.precision.eps2) (cycles : 0 < st.hessianCycles)
    (limit : ℕ) (t : Trace ℝ) :
    ∃ next u, (s.secondDerivatives st k limit).run t = (next, u) ∧
      (Checked.secondDerivatives s st k limit).run.run t = (some next, u) ∧
      next.point = k.point ∧
      (t.calls ≤ u.calls ∧ u.calls ≤ t.calls + Hessian.mostCalls st k.size ∧
        next.calls = k.calls + (u.calls - t.calls)) ∧
      next.error.Definite ∧
      (next.error.status ∈ [.valid, .madePosDef, .hessianFailed] ∧
        (next.error.dcovar < 0.1 → next.error.status = .valid)) ∧
      (k.Sized s.space.dimension → s.Readable → next.Sized s.space.dimension ∧
        (u.sound ↔ t.sound ∧ Count.fits (k.calls + u.calls))) := by
  obtain ⟨⟨next, u⟩, run⟩ : ∃ answer, (s.secondDerivatives st k limit).run t = answer := ⟨_, rfl⟩
  have divided := (secondDerivativesAgrees eps2 cycles k limit).run t
  have point := (secondDerivativesPoint (s := s) st k limit).answer t
  have definite := (secondDerivativesDefinite eps2 st (fun none => absurd none varies.ne') limit).answer t
  have marked := (secondDerivativesMarked s st varies limit).answer t
  have most := secondDerivativesMost s st k limit t
  rw [run] at divided point definite marked most
  obtain ⟨counted, more⟩ := secondDerivativesCalls run
  refine ⟨next, u, run, divided, point, ⟨more, most, by omega⟩, definite,
    ⟨marked.listed, marked.accurate⟩, fun sized readable => ⟨?_, ?_⟩⟩
  · have whole := (secondDerivativesSized st sized limit).answer t
    rwa [run] at whole
  · exact secondDerivativesSound varies sized readable run

end

/- On top of a hill, where nothing rises. -/
theorem secondDerivativesUsableSummit :
    let f : Objective ℝ := { Objective.plain (fun x => -entry x 0 ^ 2) with reads := fun _ => 1 }
    let s : Surface ℝ := ⟨f, 1, ground.space⟩
    0 < ground.knowledge.size ∧ 0 < s.precision.eps2 ∧ 0 < (Strategy.low : Strategy ℝ).hessianCycles ∧
    ground.knowledge.Sized s.space.dimension ∧ s.Readable ∧
    ∃ next u, (s.secondDerivatives .low ground.knowledge 0).run? {} = some (next, u) ∧
      (Checked.secondDerivatives s .low ground.knowledge 0).run.run {} = (some next, u) ∧
      next.point = ground.knowledge.point ∧ next.calls = 1 + u.calls ∧ next.error.Definite ∧
      (next.error.dcovar < 0.1 → next.error.status = .valid) := by
  intro f s
  have plain : s.Plain 1 := ⟨Space.numberedPlain _ _ _, fun _ _ => le_refl 1⟩
  have eps2 : 0 < s.precision.eps2 := ErrorMatrix.coarsePositive (by positivity : (0 : ℝ) < 2⁻¹ ^ 50)
  have sized : ground.knowledge.Sized s.space.dimension := ⟨rfl, ⟨rfl, rfl, rfl⟩, rfl⟩
  have readable : s.Readable := fun x size => plain.answers size
  have cycles : 0 < (Strategy.low : Strategy ℝ).hessianCycles := Nat.succ_pos _
  obtain ⟨next, u, run, divided, point, ⟨-, most, calls⟩, definite, ⟨-, accurate⟩, complete⟩ :=
    secondDerivativesUsable (k := ground.knowledge) one_pos eps2 cycles 0 {}
  have room : Count.fits (ground.knowledge.calls + u.calls) :=
    decide_eq_true ((Nat.add_le_add_left most 1).trans_lt (by decide))
  have sound := (complete sized readable).2.mpr ⟨rfl, room⟩
  exact ⟨one_pos, eps2, cycles, sized, readable, next, u, Eval.runAnswers.mpr ⟨run, sound⟩, divided, point,
    calls, definite, accurate⟩

end Surface
end ParamFit
