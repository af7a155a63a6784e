import ParamFit.Proofs.Admissible
import ParamFit.Proofs.Arising
import ParamFit.Proofs.Bowl

/-! Covariances in internal and in external units. A change of an internal coordinate is seen outside
stretched by the slope of its limits, a covariance once for each of its two sides. What a search knows
is taken outside so, and its internal values are found again from the external ones. A covariance that
is given by the user is only halved, whatever the limits are; so it is in internal units just where the
slopes cancel. -/
namespace ParamFit

namespace Limits
variable {prec : Precision ℝ} {v : ℝ}

/- Where a value lies between two limits, from -1 to 1. -/
noncomputable def share (lo hi v : ℝ) : ℝ := 2.0 * (v - lo) / (hi - lo) - 1

/- Internal values that are found again from the external one: on the principal branch, and not where
the fold is so flat that a point just inside stands in for them. -/
def Principal (prec : Precision ℝ) (v : ℝ) : Limits ℝ → Prop
  | .free => True
  | .both _ _ => |v| ≤ Scalar.halfPi ∧ Real.sin v * Real.sin v ≤ 1 - prec.eps2
  | .lower _ | .upper _ => 0 ≤ v ∧ prec.eps2 ≤ v * v

/- External values strictly inside the limits, and not so close to one that a point further inside
stands in for them. -/
def Clear (prec : Precision ℝ) (v : ℝ) : Limits ℝ → Prop
  | .free => True
  | .both lo hi => (lo < v ∧ v < hi) ∧ share lo hi v * share lo hi v ≤ 1 - prec.eps2
  | .lower lo => lo < v ∧ 1 + prec.eps2 ≤ (v - lo + 1) * (v - lo + 1)
  | .upper hi => v < hi ∧ 1 + prec.eps2 ≤ (hi - v + 1) * (hi - v + 1)

/- How much wider a variance is outside than inside, at an external value. -/
noncomputable def gain (v : ℝ) : Limits ℝ → ℝ
  | .free => 1
  | .both lo hi => (v - lo) * (hi - v)
  | .lower lo => 1 - 1 / (v - lo + 1) ^ 2
  | .upper hi => 1 - 1 / (hi - v + 1) ^ 2

theorem shareTwice (lo hi v : ℝ) : share lo hi v = 2 * (v - lo) / (hi - lo) - 1 := by
  norm_num [share]

theorem bothInternal {lo hi : ℝ} (clear : share lo hi v * share lo hi v ≤ 1 - prec.eps2) :
    (both lo hi).toInternal prec v = Real.arcsin (share lo hi v) := if_neg clear.not_gt

theorem ofHeightClear {h : ℝ} (clear : 1 + prec.eps2 ≤ h * h) : ofHeight prec h = √(h * h - 1) := by
  rw [ofHeight]
  exact if_neg clear.not_gt

theorem hyperbolaSquare (v : ℝ) : hyperbola v * hyperbola v = v * v + 1 :=
  Real.mul_self_sqrt (add_nonneg (mul_self_nonneg v) zero_le_one)

theorem hyperbolaHeight {h : ℝ} (high : 1 < h) : hyperbola √(h * h - 1) = h := by
  have square : √(h * h - 1) * √(h * h - 1) = h * h - 1 := Real.mul_self_sqrt (by nlinarith)
  change √(√(h * h - 1) * √(h * h - 1) + 1) = h
  rw [square, sub_add_cancel]
  exact Real.sqrt_mul_self (by linarith)

theorem heightHyperbola (right : 0 ≤ v) (clear : prec.eps2 ≤ v * v) :
    ofHeight prec (hyperbola v) = v := by
  have square := hyperbolaSquare v
  rw [ofHeightClear (by rw [square]; linarith), square, add_sub_cancel_right]
  exact Real.sqrt_mul_self right

theorem shareOutside {lo hi : ℝ} (ordered : lo < hi) (v : ℝ) :
    share lo hi ((both lo hi).toExternal v) = Real.sin v := by
  have wide : hi - lo ≠ 0 := (sub_pos.mpr ordered).ne'
  have outside : (both lo hi).toExternal v = lo + 0.5 * (hi - lo) * (Real.sin v + 1) := rfl
  rw [shareTwice, outside]
  field_simp
  ring

theorem internalAgain {l : Limits ℝ} (ordered : ∀ lo hi, l = .both lo hi → lo < hi)
    (principal : l.Principal prec v) : l.toInternal prec (l.toExternal v) = v := by
  cases l with
  | free => rfl
  | both lo hi =>
    obtain ⟨branch, clear⟩ := principal
    have same := shareOutside (ordered lo hi rfl) v
    rw [bothInternal (by rwa [same]), same]
    exact Real.arcsin_sin' (abs_le.mp branch)
  | lower lo =>
    have height : lo - 1 + hyperbola v - lo + 1 = hyperbola v := by ring
    change ofHeight prec (lo - 1 + hyperbola v - lo + 1) = v
    rw [height]
    exact heightHyperbola principal.1 principal.2
  | upper hi =>
    have height : hi - (hi + 1 - hyperbola v) + 1 = hyperbola v := by ring
    change ofHeight prec (hi - (hi + 1 - hyperbola v) + 1) = v
    rw [height]
    exact heightHyperbola principal.1 principal.2

theorem heightGain {h : ℝ} (high : 1 < h) (clear : 1 + prec.eps2 ≤ h * h) :
    (ofHeight prec h / hyperbola (ofHeight prec h)) ^ 2 = 1 - 1 / h ^ 2 := by
  have nonzero : h ≠ 0 := by linarith
  rw [ofHeightClear clear, hyperbolaHeight high, div_pow, Real.sq_sqrt (by nlinarith)]
  field_simp

theorem slopeGain {l : Limits ℝ} (clear : l.Clear prec v) :
    l.slope (l.toInternal prec v) ^ 2 = l.gain v := by
  cases l with
  | free => exact one_pow 2
  | both lo hi =>
    obtain ⟨⟨above, below⟩, clear⟩ := clear
    have wide : 0 < hi - lo := by linarith
    have within : 1 - share lo hi v ^ 2 = 4 * ((v - lo) * (hi - v)) / (hi - lo) ^ 2 := by
      rw [shareTwice]
      field_simp
      ring
    have inside : 0 ≤ 1 - share lo hi v ^ 2 := by
      rw [within]
      have := mul_pos (sub_pos.mpr above) (sub_pos.mpr below)
      positivity
    rw [bothInternal clear]
    change (0.5 * (hi - lo) * Real.cos (Real.arcsin (share lo hi v))) ^ 2 = (v - lo) * (hi - v)
    rw [Real.cos_arcsin, mul_pow, Real.sq_sqrt inside, within]
    field_simp
    norm_num
  | lower lo => exact heightGain (by linarith [clear.1]) clear.2
  | upper hi =>
    refine Eq.trans ?_ (heightGain (h := hi - v + 1) (by linarith [clear.1]) clear.2)
    change (-ofHeight prec (hi - v + 1) / hyperbola (ofHeight prec (hi - v + 1))) ^ 2 = _
    rw [neg_div, neg_sq]

end Limits

/-! ### Elements -/

namespace Covariance
variable {α : Type}

theorem sameElements [Scalar α] {c d : Covariance α} (rows : c.rows = d.rows)
    (same : ∀ i j, j ≤ i → i < c.rows → c.element i j = d.element i j) : c = d := by
  refine congrArg ofMatrix (Symmetric.sameElements (m := ⟨c.rows, c.data, c.packed⟩)
    (n := ⟨d.rows, d.data, d.packed⟩) rows fun i j col row => ?_)
  rw [← elementOfMatrix, ← elementOfMatrix]
  exact same i j col row

theorem toMatrixElement [Scalar α] (c : Covariance α) {i j : ℕ} (col : j ≤ i) (row : i < c.rows) :
    c.toMatrix.element i j = c.element i j := Symmetric.elementBuild _ col row

theorem matrixAgain [Scalar α] (m : Symmetric α) : (ofMatrix m).toMatrix = m :=
  Symmetric.sameElements rfl fun i j col row =>
    (toMatrixElement _ col row).trans (elementOfMatrix m i j)

theorem scaleElement (c : Covariance ℝ) (k : ℝ) {i j : ℕ} (col : j ≤ i) (row : i < c.rows) :
    (c.scale k).element i j = c.element i j * k := by
  rw [element, element, cell_eq]
  exact Symmetric.elementMap (m := ⟨c.rows, c.data, c.packed⟩) (· * k) row (col.trans_lt row)

end Covariance

namespace Space
variable {s t : Space ℝ}

theorem externalElement (s : Space ℝ) {x : Array ℝ} {m : Symmetric ℝ} {i j : ℕ} (col : j ≤ i)
    (row : i < m.size) (inside : i < x.size) : (s.externalCovariance x m).element i j =
      s.slope j (entry x j) * m.element i j * s.slope i (entry x i) := by
  rw [externalCovariance, Covariance.elementOfMatrix, Symmetric.elementBuild _ col row, if_pos inside,
    entry_tabulate _ inside, entry_tabulate _ (col.trans_lt inside), m.elementComm]

theorem Moved.slope (moved : s.Moved t) (k : ℕ) (v : ℝ) : t.slope k v = s.slope k v := by
  rw [Space.slope, Space.slope, Space.limits, Space.limits, Space.place, Space.place, moved.free,
    moved.limits]

theorem Moved.externalCovariance (moved : s.Moved t) (x : Array ℝ) (m : Symmetric ℝ) :
    t.externalCovariance x m = s.externalCovariance x m := by
  simp only [Space.externalCovariance, moved.slope]

theorem entryInternal (s : Space ℝ) {k i : ℕ} (placed : s.place? k = some i) :
    entry s.internal k = s.toInternal i (s.parameterAt i).value := by
  obtain ⟨inside, here⟩ := List.getElem?_eq_some_iff.mp placed
  simp [entry, internal, inside, here]

theorem internalKnown {space : Space ℝ} (consistent : space.Consistent) {k : Knowledge ℝ} {up : ℝ}
    (size : k.size = space.dimension)
    (principal : ∀ c < space.dimension,
      (space.limits c).Principal space.precision (entry k.point.x c)) :
    (k.setParameters up space).internal = k.point.x := by
  have moved := k.setParametersMoved up space
  have width : (k.setParameters up space).internal.size = space.dimension := by
    rw [sizeInternal, moved.dimension]
  refine Vector.sameEntries (width.trans size.symm) fun c inside => ?_
  rw [width] at inside
  obtain ⟨i, placed⟩ : ∃ i, space.place? c = some i := ⟨_, List.getElem?_eq_getElem inside⟩
  obtain ⟨p, here, -⟩ := consistent.varying (List.mem_of_getElem? placed)
  have limits : space.limits c = (space.parameterAt i).limits := by
    rw [Space.limits, place, List.getD_eq_getElem?_getD, show space.free[c]? = some i from placed]
    rfl
  have ordered (lo hi : ℝ) (both : space.limits c = .both lo hi) : lo < hi := by
    rw [limits, parameterDeclared here, Parameter.limits] at both
    split at both <;> cases both
    exact consistent.ordered here lo hi ‹_› ‹_›
  rw [entryInternal _ (by rw [place?, moved.free]; exact placed), toInternal, moved.limits,
    moved.precision, k.setParametersValue up consistent placed, toExternal, ← limits]
  exact Limits.internalAgain ordered (principal c inside)

end Space

/-! ### States with a covariance -/

namespace FitState
variable {s : FitState ℝ}

/- How much a small change of a coordinate is stretched outside, where the parameters stand. -/
noncomputable def stretch (s : FitState ℝ) (k : ℕ) : ℝ := s.space.slope k (entry s.space.internal k)

/- The external covariance is the internal one, stretched by the slopes at the internal values. -/
def Transported (s : FitState ℝ) (up : ℝ) : Prop :=
  s.covariance = (s.space.externalCovariance s.space.internal s.inner.toMatrix).scale (2.0 * up)

theorem ofKnowledgeTransported {space : Space ℝ} (consistent : space.Consistent) {k : Knowledge ℝ}
    (up : ℝ) (fits : k.fitsIn space) (valid : k.error.isValid)
    (principal : ∀ c < space.dimension,
      (space.limits c).Principal space.precision (entry k.point.x c)) :
    (ofKnowledge k up space).hasCovariance ∧ (ofKnowledge k up space).Transported up := by
  have size : k.size = space.dimension := by
    simp [Knowledge.fitsIn, valid] at fits
    omega
  have moved := k.setParametersMoved up space
  refine ⟨(ofKnowledgeCovered k up space).trans valid, ?_⟩
  rw [Transported, ofKnowledgeSpace, moved.externalCovariance,
    Space.internalKnown consistent size principal, ofKnowledge, if_pos valid]
  dsimp only
  rw [Covariance.matrixAgain]

theorem transportedElements (rows : s.covariance.rows = s.space.dimension)
    (inner : s.inner.rows = s.covariance.rows) (up : ℝ) :
    s.Transported up ↔ ∀ i j, j ≤ i → i < s.covariance.rows →
      s.covariance.element i j = s.stretch j * s.inner.element i j * s.stretch i * (2 * up) := by
  have outside {i j : ℕ} (col : j ≤ i) (row : i < s.covariance.rows) :
      ((s.space.externalCovariance s.space.internal s.inner.toMatrix).scale (2.0 * up)).element i j =
        s.stretch j * s.inner.element i j * s.stretch i * (2 * up) := by
    have row' : i < s.inner.rows := inner.symm ▸ row
    let whole := s.space.externalCovariance s.space.internal s.inner.toMatrix
    have two : (2.0 : ℝ) = 2 := by norm_num
    rw [Covariance.scaleElement whole _ col row', Space.externalElement _ col row'
      (by rw [Space.sizeInternal, ← rows]; exact row), Covariance.toMatrixElement _ col row', two]
    rfl
  constructor
  · intro transported i j col row
    rw [← outside col row]
    exact congrArg (fun c => Covariance.element c i j) transported
  · intro same
    exact Covariance.sameElements inner.symm fun i j col row =>
      (same i j col row).trans (outside col row).symm

/- A covariance of the user is that of the internal coordinates where slopes cancel. -/
theorem ofCovarianceTransported {space : Space ℝ} {c : Covariance ℝ}
    (made : ofCovariance space c = .ok s) :
    s.Transported 1 ↔ ∀ i < c.rows, ∀ j ≤ i, c.element i j ≠ 0 → s.stretch i * s.stretch j = 1 := by
  obtain ⟨rows, t, moved, rfl⟩ := ofCovarianceParts made
  rw [transportedElements (rows.trans moved.dimension.symm) rfl]
  refine forall_congr' fun i => ⟨fun same row j col nonzero => ?_, fun same j col row => ?_⟩
  · have here := same j col row
    rw [Covariance.scaleElement _ _ col row] at here
    refine mul_left_cancel₀ nonzero ?_
    linarith
  · rw [Covariance.scaleElement _ _ col row]
    by_cases zero : c.element i j = 0
    · simp [zero]
    · have here := same row j col zero
      linear_combination -c.element i j * here

/- The value that the parameter of a coordinate has. -/
noncomputable def standing (s : FitState ℝ) (k : ℕ) : ℝ := (s.space.parameterAt (s.space.place k)).value

theorem stretchGain {k : ℕ} (inside : k < s.space.dimension)
    (clear : (s.space.limits k).Clear s.space.precision (s.standing k)) :
    s.stretch k ^ 2 = (s.space.limits k).gain (s.standing k) := by
  rw [stretch, s.space.entryInternal (Space.placed inside)]
  exact Limits.slopeGain clear

/- A covariance of the user is also the internal one, taken outside, exactly when the slopes of any two
coordinates that vary together cancel: always without limits, and with limits for single values only. A
covariance that a search knows is so for all limits. -/
theorem covarianceTransported (space : Space ℝ) :
    (∀ (c : Covariance ℝ) (s : FitState ℝ), ofCovariance space c = .ok s →
      s.hasCovariance ∧
      (s.Transported 1 ↔
        ∀ i < c.rows, ∀ j ≤ i, c.element i j ≠ 0 → s.stretch i * s.stretch j = 1) ∧
      ((∀ k < c.rows, s.space.limits k = .free) → s.Transported 1) ∧
      ∀ k < c.rows, (s.space.limits k).Clear s.space.precision (s.standing k) →
        s.stretch k ^ 2 = (s.space.limits k).gain (s.standing k)) ∧
    ∀ (k : Knowledge ℝ) (up : ℝ), space.Consistent → k.fitsIn space →
      k.error.isValid → (∀ c < space.dimension,
        (space.limits c).Principal space.precision (entry k.point.x c)) →
      (ofKnowledge k up space).hasCovariance ∧ (ofKnowledge k up space).Transported up := by
  refine ⟨fun c s made => ?_, fun k up consistent fits valid principal =>
    ofKnowledgeTransported consistent up fits valid principal⟩
  have transported := ofCovarianceTransported made
  obtain ⟨rows, t, moved, same⟩ := ofCovarianceParts made
  have dimension : c.rows = s.space.dimension := by
    rw [same]
    exact rows.trans moved.dimension.symm
  refine ⟨by rw [same], transported, fun free => ?_, fun k inside => ?_⟩
  · refine transported.mpr fun i row j col _ => ?_
    rw [stretch, stretch, Space.slope, Space.slope, free i row, free j (col.trans_lt row)]
    exact one_mul 1
  · exact stretchGain (dimension ▸ inside)

/-! ### A parameter in the middle of its limits -/

/- One parameter, halfway from zero to ten. -/
noncomputable def halfway : Space ℝ :=
  let x : Parameter ℝ :=
    { number := 0, name := "x", value := 5, error := 1, lower := some 0, upper := some 10 }
  ⟨.machine, #[x], [0], [("x", 0)], #[5]⟩

theorem halfwayDeclared : Space.empty.run [.addLimited "x" 5 1 0 10] = halfway := by
  have apart : ¬ (0 : ℝ) = 10 := by norm_num
  have ordered : ¬ (0 : ℝ) > 10 := by norm_num
  simp [Space.run, Space.step, Space.perform, Space.addLimited, Space.declare, Space.declared,
    Parameter.limited, Parameter.setLimits, Space.append, Space.empty, halfway, apart, ordered,
    Except.map, Except.toOption]

theorem unitMade (space : Space ℝ) (one : space.free = [0]) :
    ∃ s, ofCovariance space (.ofMatrix (.identity 1)) = .ok s ∧
      s.space = space.setErrorAt 0 (Scalar.sqrt 1) := by
  have variance : ¬ (Covariance.ofMatrix (.identity 1)).element 0 0 ≤ (0 : ℝ) := not_le.mpr one_pos
  have fits : (Covariance.ofMatrix (.identity 1) : Covariance ℝ).rows = space.dimension := by
    rw [Space.dimension, one]
    rfl
  rw [ofCovariance, if_pos fits, one, takeErrors, if_neg variance, takeErrors]
  exact ⟨_, rfl, rfl⟩

theorem machineBelowOne : (Precision.machine : Precision ℝ).eps2 ≤ 1 := by
  rw [machineEps2]
  norm_num

theorem halfwayClear : (Limits.both 0 10).Clear .machine 5 := by
  refine ⟨by norm_num, ?_⟩
  norm_num [Limits.share, machineBelowOne]

/- A variance of the user without limits, and one that is known in the middle of two. -/
theorem covarianceTransportedUnit :
    (∃ s, ofCovariance (Space.empty.run [.add "x" 0 1]) (.ofMatrix (.identity 1)) = .ok s ∧
      s.hasCovariance ∧ s.Transported 1) ∧
    (ofKnowledge ⟨.plain #[0] 0, .usable (.identity 1) 0, .missing 1, 0, 1⟩ 1
      halfway).Transported 1 := by
  constructor
  · obtain ⟨s, made, same⟩ := unitMade (Space.empty.run [.add "x" 0 1]) rfl
    obtain ⟨has, -, unlimited, -⟩ := (covarianceTransported _).1 _ s made
    refine ⟨s, made, has, unlimited fun k inside => ?_⟩
    obtain rfl : k = 0 := Nat.lt_one_iff.mp inside
    rw [same]
    rfl
  · have consistent : halfway.Consistent := by
      rw [← halfwayDeclared]
      exact Space.emptyConsistent.run fun a _ => Space.comparableExact a
    refine ((covarianceTransported halfway).2 _ 1 consistent rfl rfl fun c inside => ?_).2
    obtain rfl : c = 0 := Nat.lt_one_iff.mp inside
    refine ⟨?_, ?_⟩
    · change |(0 : ℝ)| ≤ Real.pi / 2
      rw [abs_zero]
      exact div_nonneg Real.pi_nonneg zero_le_two
    · change Real.sin 0 * Real.sin 0 ≤ 1 - (Precision.machine : Precision ℝ).eps2
      rw [Real.sin_zero, mul_zero]
      exact sub_nonneg.mpr machineBelowOne

/- Halfway from zero to ten an internal variance is 25 times as wide outside. -/
theorem covarianceOutside :
    ¬ ∀ (actions : List (Action ℝ)) (c : Covariance ℝ) (s : FitState ℝ),
      ofCovariance (Space.empty.run actions) c = .ok s →
      (∀ k < c.rows, (s.space.limits k).Clear s.space.precision (s.standing k)) →
      s.Transported 1 := by
  intro always
  obtain ⟨s, made, same⟩ := unitMade halfway rfl
  have limits : s.space.limits 0 = .both 0 10 := same ▸ rfl
  have precision : s.space.precision = .machine := same ▸ rfl
  have value : s.standing 0 = 5 := by
    rw [standing, same]
    rfl
  have clear : (s.space.limits 0).Clear s.space.precision (s.standing 0) := by
    rw [limits, precision, value]
    exact halfwayClear
  have transported := always [.addLimited "x" 5 1 0 10] _ s (by rw [halfwayDeclared]; exact made)
    fun k inside => by
      obtain rfl : k = 0 := Nat.lt_one_iff.mp inside
      exact clear
  have cancels := (ofCovarianceTransported made).mp transported 0 one_pos 0 le_rfl one_ne_zero
  have gain := stretchGain (s := s) (k := 0) (by rw [same]; exact one_pos) clear
  rw [sq, cancels, limits, value] at gain
  norm_num [Limits.gain] at gain

end FitState
end ParamFit
