import ParamFit.Proofs.Folding

/-! What new limits do to a value. Where they leave it inside, it stays as it was. A parameter that varies
and stands outside is moved to the middle of two limits, or off a single one by half the distance of that
limit from minus one. Minus one has no distance from itself; so at this one limit, whichever side it bounds,
nothing is moved inside. No other parameter is touched, and what was known of covariances is dropped. -/
namespace ParamFit

/- The limits that an action sets. Two limits may be given in either order. -/
noncomputable def Action.bounds? : Action ℝ → Option (Limits ℝ)
  | .setLimits _ a b => some (.both (min a b) (max a b))
  | .setLower _ lower => some (.lower lower)
  | .setUpper _ upper => some (.upper upper)
  | _ => none

/-! ### Where a value is moved -/

namespace Limits
variable {l : Limits ℝ} {v : ℝ}

noncomputable instance (l : Limits ℝ) (v : ℝ) : Decidable (l.Inside v) := Classical.dec _

theorem outsideBoth (lo hi v : ℝ) :
    (!(decide (lo < v) && decide (v < hi))) = decide ¬(both lo hi).Inside v := by
  rw [Bool.eq_iff_iff]
  simp [Inside]

theorem outsideLower (lo v : ℝ) : decide (v ≤ lo) = decide ¬(lower lo).Inside v := by simp [Inside]

theorem outsideUpper (hi v : ℝ) : decide (hi ≤ v) = decide ¬(upper hi).Inside v := by simp [Inside]

/- The value that stands in for one outside. -/
noncomputable def refuge : Limits ℝ → ℝ
  | .free => 0
  | .both lo hi => 0.5 * (lo + hi)
  | .lower lo => lo + 0.5 * |lo + 1|
  | .upper hi => hi - 0.5 * |hi + 1|

/- Between two limits, or off a single one that is not minus one. -/
theorem refugeInside (ordered : ∀ lo hi, l = .both lo hi → lo < hi) :
    l.Inside l.refuge ↔ l ≠ .lower (-1) ∧ l ≠ .upper (-1) := by
  have apart (b : ℝ) : 0 < 0.5 * |b + 1| ↔ b ≠ -1 := by
    rw [mul_pos_iff_of_pos_left (by norm_num), abs_pos, ne_eq, ← eq_neg_iff_add_eq_zero]
  cases l with
  | free => simp [Inside]
  | both lo hi =>
    have less := ordered lo hi rfl
    have inside : (both lo hi).Inside (both lo hi).refuge := by
      constructor
      · simp only [refuge]
        linarith
      · simp only [refuge]
        linarith
    simp [inside]
  | lower lo => simp [Inside, refuge, apart]
  | upper hi => simp [Inside, refuge, apart]

end Limits

theorem Parameter.setLimitsBoth {p q : Parameter ℝ} {a b : ℝ} (done : p.setLimits a b = .ok q) :
    a ≠ b ∧ q = { p with lower := some (min a b), upper := some (max a b) } := by
  have apart : a ≠ b := by
    rintro rfl
    simp [setLimits] at done
  refine ⟨apart, ?_⟩
  rcases lt_or_gt_of_ne apart with less | more
  · simp [setLimits, apart, less.not_gt] at done
    simp [← done, less.le]
  · simp [setLimits, apart, more] at done
    simp [← done, more.le]

/-! ### The state with new limits -/

namespace FitState
variable {s t : FitState ℝ} {p : Address} {i : ℕ} {a : Action ℝ} {l : Limits ℝ}

/- A parameter has new limits and stands at a value; nothing else is known otherwise of any other
parameter, and of covariances nothing is known. -/
structure Limited (s t : FitState ℝ) (i : ℕ) (l : Limits ℝ) (v : ℝ) : Prop where
  limits : (t.space.parameterAt i).limits = l
  value : (t.space.parameterAt i).value = v
  cached : t.space.values = s.space.values.setIfInBounds i v
  others : ∀ j, j ≠ i → t.space.parameterAt j = s.space.parameterAt j
  free : t.space.free = s.space.free
  uncovered : t.hasCovariance = false

/- The limits of one parameter are exchanged; then it is moved, if it varies and stands outside. -/
noncomputable def confine (s : FitState ℝ) (i : ℕ) (f : Parameter ℝ → Parameter ℝ) (l : Limits ℝ) :
    FitState ℝ :=
  ({ s with space := s.space.update i f }.dropCovariance).pullInside i (fun v => decide ¬l.Inside v) l.refuge

/- All actions that set limits do that. -/
theorem performConfines (known : s.space.indexOf p = .ok i) (inside : i < s.space.parameters.size)
    (about : a.address? = some p) (sets : a.bounds? = some l) (done : s.perform a = .ok t) :
    (∀ lo hi, l = .both lo hi → lo < hi) ∧ ∃ f : Parameter ℝ → Parameter ℝ,
      (f (s.space.parameterAt i)).limits = l ∧
      (f (s.space.parameterAt i)).value = (s.space.parameterAt i).value ∧ t = s.confine i f l := by
  have again : s.space.indexOf (.index i) = .ok i := if_pos inside
  cases a with
  | setLimits q a b =>
    cases about
    cases sets
    simp only [perform, setLimits, known, okBind, Space.setLimits, again] at done
    obtain ⟨space, made, done⟩ := okParts done
    obtain ⟨r, limited, made⟩ := okParts made
    obtain ⟨apart, rfl⟩ := Parameter.setLimitsBoth limited
    cases made
    cases done
    let limited (q : Parameter ℝ) := { q with lower := some (min a b), upper := some (max a b) }
    refine ⟨?_, fun _ => limited (s.space.parameterAt i), rfl, rfl, ?_⟩
    · rintro _ _ ⟨⟩
      exact min_lt_max.mpr apart
    · simp only [confine, Space.parameterHere inside, Option.getD_some, ← Limits.outsideBoth]
      rfl
  | setLower q lower =>
    cases about
    cases sets
    simp only [perform, setLower, known, okBind, Space.setLower, again] at done
    cases done
    refine ⟨?_, (·.setLower lower), rfl, rfl, ?_⟩
    · intro lo hi same
      cases same
    · simp only [confine, ← Limits.outsideLower]
      rfl
  | setUpper q upper =>
    cases about
    cases sets
    simp only [perform, setUpper, known, okBind, Space.setUpper, again] at done
    cases done
    refine ⟨?_, (·.setUpper upper), rfl, rfl, ?_⟩
    · intro lo hi same
      cases same
    · simp only [confine, ← Limits.outsideUpper]
      rfl
  | _ => cases sets

theorem performAccepted (known : s.space.indexOf p = .ok i) (inside : i < s.space.parameters.size)
    (about : a.address? = some p) (sets : a.bounds? = some l) :
    (∃ t, s.perform a = .ok t) ↔ ∀ c, l ≠ .both c c := by
  have again : s.space.indexOf (.index i) = .ok i := if_pos inside
  constructor
  · rintro ⟨t, done⟩ c rfl
    exact lt_irrefl c ((performConfines known inside about sets done).1 c c rfl)
  · intro apart
    cases a with
    | setLimits q a b =>
      cases about
      cases sets
      have differ : a ≠ b := by
        rintro rfl
        exact apart a (by simp)
      obtain ⟨r, limited⟩ := (s.space.parameterAt i).setLimitsFound (by simpa using differ)
      simp only [perform, setLimits, known, okBind, Space.setLimits, again, limited]
      exact ⟨_, rfl⟩
    | setLower q lower =>
      cases about
      simp only [perform, setLower, known, okBind, Space.setLower, again]
      exact ⟨_, rfl⟩
    | setUpper q upper =>
      cases about
      simp only [perform, setUpper, known, okBind, Space.setUpper, again]
      exact ⟨_, rfl⟩
    | _ => cases sets

theorem confineLimits (consistent : s.space.Consistent) (inside : i < s.space.parameters.size)
    {f : Parameter ℝ → Parameter ℝ} (limits : (f (s.space.parameterAt i)).limits = l)
    (value : (f (s.space.parameterAt i)).value = (s.space.parameterAt i).value) :
    s.Limited (s.confine i f l) i l
      (if i ∈ s.space.free ∧ ¬l.Inside (s.space.parameterAt i).value then l.refuge
        else (s.space.parameterAt i).value) := by
  have here := Space.parameterHere inside f
  have other {j : ℕ} (apart : j ≠ i) := Space.parameterOther (s := s.space) (Ne.symm apart) f
  let limited : FitState ℝ := { s with space := s.space.update i f }.dropCovariance
  have tested : decide (¬l.Inside (limited.space.parameterAt i).value) = true ↔
      ¬l.Inside (s.space.parameterAt i).value := by
    rw [decide_eq_true_iff, show limited.space.parameterAt i = _ from here, value]
  by_cases moves : i ∈ s.space.free ∧ ¬l.Inside (s.space.parameterAt i).value
  · have moved : s.confine i f l = { limited with space := limited.space.setValueAt i l.refuge } :=
      if_pos ⟨moves.1, tested.mpr moves.2⟩
    have size : i < limited.space.parameters.size := (Array.size_modify ..).symm ▸ inside
    have stands : (limited.space.setValueAt i l.refuge).parameterAt i =
        (f (s.space.parameterAt i)).setValue l.refuge :=
      (Space.parameterHere size _).trans (congrArg (·.setValue l.refuge) here)
    rw [moved, if_pos moves]
    refine ⟨(congrArg Parameter.limits stands).trans limits, congrArg Parameter.value stands, rfl,
      fun j apart => ?_, rfl, rfl⟩
    exact (Space.parameterOther (Ne.symm apart) (·.setValue l.refuge)).trans (other apart)
  · have still : s.confine i f l = limited :=
      if_neg fun both => moves ⟨both.1, tested.mp both.2⟩
    have declared : s.space.values = s.space.declaredValues := consistent.cached
    rw [still, if_neg moves]
    refine ⟨(congrArg Parameter.limits here).trans limits, (congrArg Parameter.value here).trans value,
      ?_, fun j apart => other apart, rfl, rfl⟩
    rw [declared, s.space.declaredStill]
    exact declared

/- Every pair of limits that differ is accepted, and every single one. The value that a parameter has
afterwards is inside if it was inside before, and then it is the same; or if the parameter varies, unless
the limit is a single one at minus one. -/
theorem limitsConfine (reached : s.Reached) (known : s.space.indexOf p = .ok i)
    (about : a.address? = some p) (sets : a.bounds? = some l) :
    ((∃ t, s.perform a = .ok t) ↔ ∀ c, l ≠ .both c c) ∧
    ∀ t, s.perform a = .ok t → ∃ v, s.Limited t i l v ∧
      (l.Inside (s.space.parameterAt i).value → v = (s.space.parameterAt i).value) ∧
      (l.Inside v ↔ l.Inside (s.space.parameterAt i).value ∨
        i ∈ s.space.free ∧ l ≠ .lower (-1) ∧ l ≠ .upper (-1)) := by
  have consistent := reached.consistent
  obtain ⟨q, here⟩ := consistent.indexOfDeclared known
  have inside : i < s.space.parameters.size := (Array.getElem?_eq_some_iff.mp here).1
  refine ⟨performAccepted known inside about sets, fun t done => ?_⟩
  obtain ⟨ordered, f, limits, value, rfl⟩ := performConfines known inside about sets done
  refine ⟨_, confineLimits consistent inside limits value, fun within => ?_, ?_⟩
  · simp [within]
  · have refuge := Limits.refugeInside ordered
    by_cases within : l.Inside (s.space.parameterAt i).value
    · simp [within]
    · by_cases varies : i ∈ s.space.free
      · simp [within, varies, refuge]
      · simp [within, varies]

/- Five is moved between zero and two, which are given the other way round. -/
theorem limitsConfineReversed :
    let s := ofSpace (Space.empty.run [.add "x" (5 : ℝ) 1, .add "y" 1 1])
    let a : Action ℝ := .setLimits (.name "x") 2 0
    s.Reached ∧ s.space.indexOf (.name "x") = .ok 0 ∧ a.address? = some (.name "x") ∧
      a.bounds? = some (.both 0 2) ∧
      ∃ t v, s.perform a = .ok t ∧ s.Limited t 0 (.both 0 2) v ∧ (Limits.both 0 2).Inside v := by
  intro s a
  have sets : a.bounds? = some (.both 0 2) := by simp [a, Action.bounds?]
  have accepted (c : ℝ) : Limits.both (0 : ℝ) 2 ≠ .both c c := by
    intro same
    obtain ⟨zero, two⟩ := Limits.both.inj same
    exact two_ne_zero (two.trans zero.symm)
  obtain ⟨found, confines⟩ := limitsConfine (s := s) (.declared _) (p := .name "x") rfl rfl sets
  obtain ⟨t, done⟩ := found.mpr accepted
  obtain ⟨v, limited, -, inside⟩ := confines t done
  exact ⟨.declared _, rfl, rfl, sets, t, v, done, limited, inside.mpr (.inr ⟨.head _, nofun, nofun⟩)⟩

/- Two below zero is moved to minus one where that is the lower limit, and so is not inside. -/
theorem minusOneUnconfined :
    ¬ ∀ (s : FitState ℝ) (p : Address) (i : ℕ) (a : Action ℝ) (l : Limits ℝ) (t : FitState ℝ), s.Reached →
      s.space.indexOf p = .ok i → i ∈ s.space.free → a.address? = some p → a.bounds? = some l →
      s.perform a = .ok t → l.Inside (t.space.parameterAt i).value := by
  intro confines
  let s := ofSpace (Space.empty.run [.add "x" (-2 : ℝ) 0.1])
  obtain ⟨t, done⟩ : ∃ t, s.perform (.setLower (.name "x") (-1)) = .ok t := ⟨_, rfl⟩
  have inside := confines s (.name "x") 0 _ _ t (.declared _) rfl (.head _) rfl rfl done
  have known : s.space.indexOf (.name "x") = .ok 0 := rfl
  obtain ⟨-, f, limits, value, rfl⟩ := performConfines known one_pos rfl rfl done
  have reached : s.Reached := .declared _
  have stands := (confineLimits reached.consistent one_pos limits value).value
  rw [stands] at inside
  have varies : 0 ∈ s.space.free := .head _
  have outside : ¬ (Limits.lower (-1)).Inside (s.space.parameterAt 0).value := by
    change ¬ (-1 : ℝ) < -2
    norm_num
  have single (lo hi : ℝ) (same : Limits.lower (-1) = .both lo hi) : lo < hi := by cases same
  rw [if_pos ⟨varies, outside⟩, Limits.refugeInside single] at inside
  exact inside.1 rfl

end FitState
end ParamFit
