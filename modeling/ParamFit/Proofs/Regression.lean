import ParamFit.Proofs.Lasting
import ParamFit.Proofs.Metric
import ParamFit.Proofs.Mirroring

/-! Where the search for an end of an interval starts. With the parameter that is led one error away from
the minimum, the quadratic model is least where every other parameter has moved by that error times its
covariance with the one that is led, over the variance. The search starts with another factor: it has the
root of a quotient by the error where a quotient by the variance belongs. -/
namespace ParamFit
open Matrix

/-! ### The quadratic model -/

section
variable {n : ℕ}

/- A point at which the quadratic model is least, of all points where coordinate `k` has moved as far. The
model has the inverse of `v` as its second derivatives, so it rises by half of this form. -/
def Regresses (v : Matrix (Fin n) (Fin n) ℝ) (k : Fin n) (d : Fin n → ℝ) : Prop :=
  ∀ w : Fin n → ℝ, w k = d k → d ⬝ᵥ v⁻¹ *ᵥ d ≤ w ⬝ᵥ v⁻¹ *ᵥ w

variable {v : Matrix (Fin n) (Fin n) ℝ} (definite : v.PosDef) {k : Fin n}
include definite

/- The model rises with the distance from a multiple of a column. -/
theorem modelApart (c : ℝ) {w : Fin n → ℝ} (same : w k = c * v k k) :
    let r := fun l => c * v l k
    w ⬝ᵥ v⁻¹ *ᵥ w = r ⬝ᵥ v⁻¹ *ᵥ r + (w - r) ⬝ᵥ v⁻¹ *ᵥ (w - r) := by
  intro r
  have column : r = v *ᵥ Pi.single k c := by
    funext l
    rw [mulVec_single]
    exact mul_comm c _
  have unit : IsUnit v.det := (isUnit_iff_isUnit_det v).mp definite.isUnit
  have turned : v⁻¹ *ᵥ r = Pi.single k c := by
    rw [column, mulVec_mulVec, nonsing_inv_mul v unit, one_mulVec]
  have cross : (w - r) ⬝ᵥ v⁻¹ *ᵥ r = 0 := by
    rw [turned, dotProduct_single, Pi.sub_apply, same]
    exact mul_eq_zero_of_left (sub_self _) c
  have swapped := formSwap definite.inv.isHermitian r (w - r)
  have whole : w = r + (w - r) := (add_sub_cancel r w).symm
  conv_lhs => rw [whole]
  rw [mulVec_add, add_dotProduct, dotProduct_add, dotProduct_add, swapped, cross]
  ring

/- The model is least on the regression line, and only there. -/
theorem regressesIff (d : Fin n → ℝ) : Regresses v k d ↔ ∀ l ≠ k, d l = d k * v l k / v k k := by
  have positive : 0 < v k k := definite.diag_pos
  let c := d k / v k k
  let r := fun l => c * v l k
  have same : d k = c * v k k := (div_mul_cancel₀ _ positive.ne').symm
  have line : (∀ l ≠ k, d l = d k * v l k / v k k) ↔ d = r := by
    refine ⟨fun others => funext fun l => ?_, fun on l _ => ?_⟩
    · by_cases led : l = k
      · rw [led, same]
      · rw [others l led, mul_div_right_comm]
    · rw [mul_div_right_comm]
      exact congrFun on l
  rw [line]
  constructor
  · intro least
    have below := least r same.symm
    rw [modelApart definite c same] at below
    by_contra apart
    have above := definite.inv.dotProduct_mulVec_pos (sub_ne_zero.mpr apart)
    rw [star_trivial] at above
    linarith
  · intro on w moved
    have above := definite.inv.posSemidef.dotProduct_mulVec_nonneg (w - r)
    rw [star_trivial] at above
    rw [modelApart definite c (moved.trans same), on]
    linarith

end

/-! ### The start of the search -/

namespace Surroundings
variable {s : Surroundings ℝ} {side : Side} {i k : ℕ} {rise : ℝ}

/- How far a state has a coordinate from the minimum. -/
noncomputable def away (s : Surroundings ℝ) (t : FitState ℝ) (l : ℕ) : ℝ :=
  let place := s.state.space.place l
  (t.space.parameterAt place).value - (s.state.space.parameterAt place).value

/- How far the search moves another coordinate. -/
noncomputable def shift (s : Surroundings ℝ) (side : Side) (i k : ℕ) (rise : ℝ) (l : ℕ) : ℝ :=
  side.sign * (√(rise / (s.state.space.parameterAt i).error) *
    s.minimum.last.error.covariance.element k l)

theorem shiftElement {l : ℕ} (row : k < s.minimum.last.error.inverse.size)
    (col : l < s.minimum.last.error.inverse.size) : s.shift side i k rise l =
      side.sign * (√(rise / (s.state.space.parameterAt i).error) *
        (2 * s.minimum.last.error.inverse.element l k)) := by
  have two : (2.0 : ℝ) = 2 := by norm_num
  have element := Symmetric.elementMap (· * (2.0 : ℝ)) row col
  rw [shift]
  refine congrArg (fun x => side.sign * (√(rise / (s.state.space.parameterAt i).error) * x))
    (element.trans ?_)
  rw [two, mul_comm, Symmetric.elementComm]

theorem placesApart (consistent : s.state.space.Consistent) {l c : ℕ}
    (inside : l < s.state.space.dimension) (within : c < s.state.space.dimension) (apart : l ≠ c) :
    s.state.space.place l ≠ s.state.space.place c := by
  have once : s.state.space.free.Nodup := consistent.ascending.imp Nat.ne_of_lt
  rw [Space.place, Space.place, List.getD_eq_getElem _ _ inside, List.getD_eq_getElem _ _ within]
  exact fun same => apart (once.getElem_inj_iff.mp same)

noncomputable def followOne (s : Surroundings ℝ) (side : Side) (i k : ℕ) (rise : ℝ) (t : FitState ℝ)
    (j : ℕ) : FitState ℝ :=
  if j = k then t
  else
    let place := t.space.place j
    let moved := (t.space.parameterAt place).value + s.shift side i k rise j
    { t with space := t.space.setValueAt place moved }

theorem followFold : s.follow side i k rise =
    (List.range s.minimum.last.error.inverse.size).foldl (s.followOne side i k rise) s.state := rfl

/- A state in which the first coordinates have been moved, all but the one that is led. -/
structure Follows (s : Surroundings ℝ) (side : Side) (i k : ℕ) (rise : ℝ) (c : ℕ) (t : FitState ℝ) :
    Prop where
  free : t.space.free = s.state.space.free
  size : t.space.parameters.size = s.state.space.parameters.size
  moved : ∀ l < s.state.space.dimension, l ≠ k → l < c → s.away t l = s.shift side i k rise l
  left : ∀ l < s.state.space.dimension, c ≤ l → s.away t l = 0

theorem Follows.next (consistent : s.state.space.Consistent) {c : ℕ} {t : FitState ℝ}
    (follows : s.Follows side i k rise c t) (within : c < s.state.space.dimension) :
    s.Follows side i k rise (c + 1) (s.followOne side i k rise t c) := by
  obtain ⟨free, size, moved, left⟩ := follows
  by_cases led : c = k
  · rw [followOne, if_pos led]
    exact ⟨free, size, fun l inside other before => moved l inside other (by omega),
      fun l inside after => left l inside (by omega)⟩
  have place : t.space.place c = s.state.space.place c := by rw [Space.place, Space.place, free]
  let v := (t.space.parameterAt (s.state.space.place c)).value + s.shift side i k rise c
  have set : s.followOne side i k rise t c =
      { t with space := t.space.setValueAt (s.state.space.place c) v } := by
    rw [followOne, if_neg led]
    dsimp only
    rw [place]
  have there : s.state.space.place c < t.space.parameters.size := by
    rw [size, Space.place, List.getD_eq_getElem _ _ within]
    exact consistent.within (List.getElem_mem within)
  have others {l : ℕ} (inside : l < s.state.space.dimension) (apart : l ≠ c) :
      s.away { t with space := t.space.setValueAt (s.state.space.place c) v } l = s.away t l := by
    have still := Space.parameterOther (s := t.space)
      (placesApart consistent inside within apart).symm (·.setValue v)
    exact congrArg (·.value - (s.state.space.parameterAt (s.state.space.place l)).value) still
  rw [set]
  refine ⟨free, (Array.size_modify ..).trans size, fun l inside other before => ?_,
    fun l inside after => (others inside (by omega)).trans (left l inside (by omega))⟩
  by_cases here : l = c
  · subst here
    have value := congrArg Parameter.value (Space.parameterHere there (·.setValue v))
    have stood := sub_eq_zero.mp (left l inside le_rfl)
    change ((t.space.setValueAt _ v).parameterAt _).value - _ = _
    refine (congrArg (· - _) value).trans ?_
    change (_ + _) - _ = _
    rw [stood, add_sub_cancel_left]
  · exact (others inside here).trans (moved l inside other (by omega))

/- Every coordinate but the one that is led is moved once, from where the minimum has it. -/
theorem followAway (consistent : s.state.space.Consistent)
    (size : s.minimum.last.error.inverse.size = s.state.space.dimension) {l : ℕ}
    (inside : l < s.state.space.dimension) (other : l ≠ k) :
    s.away (s.follow side i k rise) l = s.shift side i k rise l := by
  have upTo (c : ℕ) (few : c ≤ s.state.space.dimension) :
      s.Follows side i k rise c ((List.range c).foldl (s.followOne side i k rise) s.state) := by
    induction c with
    | zero => exact ⟨rfl, rfl, fun l _ _ none => absurd none (Nat.not_lt_zero l), fun l _ _ => sub_self _⟩
    | succ c ih =>
      rw [List.range_succ, List.foldl_append]
      exact (ih (by omega)).next consistent few
  rw [followFold, size]
  exact (upTo _ le_rfl).moved l inside other inside

/- The state that a search on one side begins with. -/
theorem besideAway (consistent : s.state.space.Consistent)
    (size : s.minimum.last.error.inverse.size = s.state.space.dimension)
    (placed : s.state.space.place? k = some i) (side : Side) (rise : ℝ) :
    ∃ t, s.beside side i k rise = .ok t ∧
      s.away t k = side.sign * (s.state.space.parameterAt i).error ∧
      ∀ l < s.state.space.dimension, l ≠ k → s.away t l = s.shift side i k rise l := by
  obtain ⟨within, found⟩ := List.getElem?_eq_some_iff.mp placed
  have varies : i ∈ s.state.space.free := found ▸ List.getElem_mem within
  have place : s.state.space.place k = i := by
    rw [Space.place, List.getD_eq_getElem _ _ within, found]
  obtain ⟨sound, left, t, put, space⟩ := besideSpace consistent varies side k rise
  have inside := sound.within left
  refine ⟨t, put, ?_, fun l inside other => ?_⟩
  · have here := Space.parameterHere (s := { (s.follow side i k rise).space.update i Parameter.fix with
      free := (s.follow side i k rise).space.free.erase i }) ((Array.size_modify ..).symm ▸ inside)
      (·.setValue (s.start side i))
    have value : (t.space.parameterAt i).value = s.start side i :=
      (congrArg (fun space => (Space.parameterAt space i).value) space).trans
        (congrArg Parameter.value here)
    rw [away, place, value]
    exact add_sub_cancel_left _ _
  · rw [← followAway consistent size inside other]
    have apart : i ≠ s.state.space.place l :=
      place ▸ (placesApart consistent inside within other).symm
    have first := Space.parameterOther (s := (s.follow side i k rise).space) apart Parameter.fix
    have second := Space.parameterOther (s := { (s.follow side i k rise).space.update i Parameter.fix with
      free := (s.follow side i k rise).space.free.erase i }) apart (·.setValue (s.start side i))
    have same := (congrArg (Space.parameterAt · (s.state.space.place l)) space).trans
      (second.trans first)
    exact congrArg (·.value - (s.state.space.parameterAt (s.state.space.place l)).value) same

theorem errorUnlimited (consistent : s.minimum.seed.space.Consistent)
    (placed : s.minimum.seed.space.place? k = some i) (free : s.minimum.seed.space.limits k = .free)
    (known : s.minimum.last.hasCovariance) : (s.state.space.parameterAt i).error =
      √(2 * s.minimum.errorDef * s.minimum.last.error.inverse.element k k) := by
  have space : s.state.space = s.minimum.last.setParameters s.minimum.errorDef s.minimum.seed.space :=
    FitState.ofKnowledgeSpace ..
  have two : (2.0 : ℝ) = 2 := by norm_num
  rw [space, s.minimum.last.setParametersAt s.minimum.errorDef consistent placed]
  change s.minimum.seed.space.externalError k _ _ = _
  rw [Space.externalError, free]
  change s.minimum.last.internalError s.minimum.errorDef k = _
  rw [Knowledge.internalError, if_pos known, two]
  rfl

/- The root of the rise by the error is the error by the variance at one error only. -/
theorem factorsMeet {error level multiple variance : ℝ} (positive : 0 < level)
    (several : 0 < multiple) (wide : 0 < variance) (known : error = √(2 * level * variance)) :
    √(multiple * level / error) * 2 = error / variance ↔ multiple * error = level := by
  have square : error ^ 2 = 2 * level * variance := by
    rw [known]
    exact Real.sq_sqrt (by positivity)
  have long : 0 < error := by
    rw [known]
    exact Real.sqrt_pos.mpr (by positivity)
  have quotient : error / variance = level / error * 2 := by
    field_simp
    linarith
  rw [quotient, mul_left_inj' two_ne_zero, Real.sqrt_eq_iff_mul_self_eq (by positivity) (by positivity),
    div_mul_div_comm, div_eq_div_iff (by positivity) (by positivity)]
  constructor
  · intro same
    have whole : level * error * (multiple * error) = level * error * level := by linarith
    exact mul_left_cancel₀ (by positivity) whole
  · intro same
    linear_combination level * error * same

/- So both shifts agree at that error, or where there is no covariance. -/
theorem shiftsMeet {sign error level multiple variance covariance : ℝ} (apart : sign ≠ 0)
    (positive : 0 < level) (several : 0 < multiple) (wide : 0 < variance)
    (known : error = √(2 * level * variance)) :
    sign * (√(multiple * level / error) * (2 * covariance)) = sign * (error * covariance / variance) ↔
      covariance = 0 ∨ multiple * error = level := by
  have factors := factorsMeet positive several wide known
  rw [mul_right_inj' apart, ← mul_assoc, mul_div_right_comm error, mul_eq_mul_right_iff, or_comm]
  exact or_congr_right factors

/- The search starts with the parameter that is led one error away, and moves the others along with
another factor than the quadratic model has. So it starts on the regression line, where the model is least,
if the parameter is correlated with no other, or if its error is the error definition over the multiple;
and only then. -/
theorem startRegresses {p : Address} {multiple : ℝ} (consistent : s.minimum.seed.space.Consistent)
    (unlimited : s.minimum.seed.space.Unlimited) (known : s.minimum.last.hasCovariance)
    (size : s.minimum.last.error.inverse.size = s.state.space.dimension)
    (definite : (s.minimum.last.error.inverse.matrix s.state.space.dimension).PosDef)
    (level : 0 < s.minimum.errorDef) (positive : 0 < multiple)
    (here : s.state.space.indexOf p = .ok i) (varies : i ∈ s.state.space.free) (side : Side) :
    let v := s.minimum.last.error.inverse.matrix s.state.space.dimension
    let error := (s.state.space.parameterAt i).error
    ∃ (k : Fin s.state.space.dimension) (t : FitState ℝ),
      s.searched p = .ok (i, k.val) ∧ s.beside side i k (s.rise multiple) = .ok t ∧
      error = √(2 * s.minimum.errorDef * v k k) ∧ s.away t k = side.sign * error ∧
      (∀ l ≠ k, s.away t l = side.sign * (√(s.rise multiple / error) * (2 * v l k))) ∧
      ((∀ l ≠ k, s.away t l = side.sign * (error * v l k / v k k)) ↔
        (∀ l ≠ k, v l k = 0) ∨ multiple * error = s.minimum.errorDef) ∧
      (Regresses v k (fun l => s.away t l) ↔
        (∀ l ≠ k, v l k = 0) ∨ multiple * error = s.minimum.errorDef) := by
  intro v error
  have moved := s.minimum.stateMoved
  have sound : s.state.space.Consistent := moved.consistent consistent
  obtain ⟨k, placed, found⟩ := searchedVarying sound varies here
  obtain ⟨k, rfl⟩ : ∃ c : Fin s.state.space.dimension, c.val = k :=
    ⟨⟨k, (List.getElem?_eq_some_iff.mp placed).1⟩, rfl⟩
  obtain ⟨t, put, led, others⟩ := besideAway sound size placed side (s.rise multiple)
  have early : s.minimum.seed.space.place? k = some i :=
    (congrArg (·[k.val]?) moved.free).symm.trans placed
  have wide : error = √(2 * s.minimum.errorDef * v k k) :=
    errorUnlimited consistent early (unlimited k (moved.dimension ▸ k.isLt)) known
  have sign : (side.sign : ℝ) ≠ 0 := fun none => by simpa [none] using side.signSquare
  have variance : 0 < v k k := definite.diag_pos
  have shifted (l : Fin s.state.space.dimension) (other : l ≠ k) :
      s.away t l = side.sign * (√(s.rise multiple / error) * (2 * v l k)) := by
    refine (others l l.isLt (Fin.val_ne_of_ne other)).trans ?_
    exact shiftElement (k.isLt.trans_eq size.symm) (l.isLt.trans_eq size.symm)
  have line : (∀ l ≠ k, s.away t l = side.sign * (error * v l k / v k k)) ↔
      (∀ l ≠ k, v l k = 0) ∨ multiple * error = s.minimum.errorDef := by
    simp only [← forall_or_right]
    refine forall₂_congr fun l other => ?_
    rw [shifted l other]
    exact shiftsMeet sign level positive variance wide
  refine ⟨k, t, found, put, wide, led, shifted, line, ?_⟩
  rw [← line, regressesIff definite]
  refine forall₂_congr fun l _ => ?_
  rw [led, mul_assoc, mul_div_assoc]

/-! ### Two parameters that lean on each other -/

/- The minimum of a quadratic form in two correlated parameters, of which the second derivatives are
known. -/
noncomputable def leaning : Surroundings ℝ :=
  let inverse : Symmetric ℝ := .build 2 fun i j => if i = j then 2.0 else 1
  let known : Knowledge ℝ :=
    ⟨.plain #[0, 0] 0, .usable inverse 0, .numerical #[0, 0] #[2.0 / 3.0, 2.0 / 3.0] #[0.01, 0.01], 0, 1⟩
  let space : Space ℝ := Space.empty.run [.add "x" 0 1, .add "y" 0 1]
  let form (x y : ℝ) := (x * x - x * y + y * y) / 3.0
  ⟨.plain fun x => form (entry x 0) (entry x 1), .ofSeed ⟨known, space⟩ 1, .medium⟩

theorem leaningConsistent : leaning.minimum.seed.space.Consistent :=
  Space.emptyConsistent.run fun a _ => Space.comparableExact a

theorem leaningFree : leaning.state.space.free = [0, 1] := leaning.minimum.stateMoved.free

theorem leaningDimension : leaning.state.space.dimension = 2 := congrArg List.length leaningFree

theorem leaningVaries : 0 ∈ leaning.state.space.free := leaningFree ▸ .head _

theorem leaningSound : leaning.state.space.Consistent :=
  leaning.minimum.stateMoved.consistent leaningConsistent

theorem leaningHere : leaning.state.space.indexOf (.index 0) = .ok 0 := by
  rw [Space.indexOf, if_pos (leaningSound.within leaningVaries)]

theorem leaningUnlimited : leaning.minimum.seed.space.Unlimited := by
  intro k inside
  have few : k < 2 := inside
  interval_cases k
  · rfl
  · rfl

theorem leaningElement {i j : ℕ} (row : i < 2) (col : j < 2) :
    leaning.minimum.last.error.inverse.element i j = if i = j then 2 else 1 := by
  have two : (2.0 : ℝ) = 2 := by norm_num
  rw [← two]
  exact Symmetric.elementBuildComm (fun _ _ => if_congr eq_comm rfl rfl) row col

theorem leaningDefinite {n : ℕ} (few : n ≤ 2) :
    (leaning.minimum.last.error.inverse.matrix n).PosDef :=
  Symmetric.overlapDefinite fun _ row _ col => leaningElement (row.trans_le few) (col.trans_le few)

theorem leaningError : (leaning.state.space.parameterAt 0).error = 2 := by
  have level : leaning.minimum.errorDef = 1 := rfl
  rw [errorUnlimited (i := 0) (k := 0) leaningConsistent rfl (leaningUnlimited 0 two_pos) rfl,
    leaningElement two_pos two_pos, if_pos rfl, level, show (2 * 1 * 2 : ℝ) = 2 * 2 by norm_num]
  exact Real.sqrt_mul_self zero_le_two

theorem leaningPlaced : leaning.state.space.place? 0 = some 0 := by
  rw [Space.place?, leaningFree]
  rfl

theorem leaningSearched : leaning.searched (.index 0) = .ok (0, 0) :=
  searchedPlaced leaningSound leaningHere leaningPlaced

/- With half the error definition the search starts on the regression line, with the whole it does not. -/
theorem startRegressesLeaning :
    let n := leaning.state.space.dimension
    let v := leaning.minimum.last.error.inverse.matrix n
    leaning.minimum.seed.space.Consistent ∧ leaning.minimum.seed.space.Unlimited ∧
      leaning.minimum.last.hasCovariance ∧ leaning.minimum.last.error.inverse.size = n ∧ v.PosDef ∧
      0 < leaning.minimum.errorDef ∧ leaning.state.space.indexOf (.index 0) = .ok 0 ∧
      0 ∈ leaning.state.space.free ∧
      (∃ (k : Fin n) (t : FitState ℝ),
        leaning.beside .upper 0 k (leaning.rise (1 / 2)) = .ok t ∧ Regresses v k fun l => leaning.away t l) ∧
      ∃ (k : Fin n) (t : FitState ℝ),
        leaning.beside .upper 0 k (leaning.rise 1) = .ok t ∧ ¬ Regresses v k fun l => leaning.away t l := by
  intro n v
  have size : leaning.minimum.last.error.inverse.size = n := leaningDimension.symm
  have definite : v.PosDef := leaningDefinite leaningDimension.le
  have level : 0 < leaning.minimum.errorDef := one_pos
  have starts {multiple : ℝ} (positive : 0 < multiple) := startRegresses leaningConsistent
    leaningUnlimited rfl size definite level positive leaningHere leaningVaries .upper
  refine ⟨leaningConsistent, leaningUnlimited, rfl, size, definite, level, leaningHere, leaningVaries,
    ?_, ?_⟩
  · obtain ⟨k, t, -, put, -, -, -, -, on⟩ := starts one_half_pos
    refine ⟨k, t, put, on.mpr (.inr ?_)⟩
    rw [leaningError]
    exact one_div_mul_cancel two_ne_zero
  · obtain ⟨k, t, found, put, -, -, -, -, on⟩ := starts one_pos
    refine ⟨k, t, put, fun regresses => ?_⟩
    have first : k.val = 0 := (Prod.ext_iff.mp (Except.ok.inj (found.symm.trans leaningSearched))).2
    have one : 1 < n := one_lt_two.trans_eq leaningDimension.symm
    rcases on.mp regresses with none | same
    · have zero := none ⟨1, one⟩ fun same => by simp [← same] at first
      have element : v ⟨1, one⟩ k = 1 := by
        refine (leaningElement one_lt_two (k.isLt.trans_eq leaningDimension)).trans (if_neg ?_)
        omega
      exact one_ne_zero (element.symm.trans zero)
    · rw [leaningError] at same
      have level : leaning.minimum.errorDef = 1 := rfl
      norm_num [level] at same

/- Where a parameter is correlated with others, the search does not start on the regression line. -/
theorem startApart :
    ¬ ∀ (s : Surroundings ℝ) (side : Side) (p : Address) (i k : ℕ) (multiple : ℝ) (t : FitState ℝ),
      let v := s.minimum.last.error.inverse
      s.minimum.seed.space.Consistent → s.minimum.seed.space.Unlimited →
      s.minimum.last.hasCovariance → v.size = s.state.space.dimension →
      (v.matrix s.state.space.dimension).PosDef → 0 < s.minimum.errorDef → 0 < multiple →
      i ∈ s.state.space.free → s.searched p = .ok (i, k) →
      s.beside side i k (s.rise multiple) = .ok t → ∀ l < s.state.space.dimension, l ≠ k →
      s.away t l =
        side.sign * ((s.state.space.parameterAt i).error * v.element l k / v.element k k) := by
  intro always
  have size : leaning.minimum.last.error.inverse.size = leaning.state.space.dimension :=
    leaningDimension.symm
  have one : 1 < leaning.state.space.dimension := leaningDimension ▸ one_lt_two
  obtain ⟨t, put, -, others⟩ := besideAway leaningSound size leaningPlaced .upper (leaning.rise 1)
  have claimed := always leaning .upper (.index 0) 0 0 1 t leaningConsistent leaningUnlimited rfl size
    (leaningDefinite leaningDimension.le) one_pos one_pos leaningVaries leaningSearched put 1 one
    one_ne_zero
  have level : leaning.rise 1 = 1 * 1 := rfl
  rw [others 1 one one_ne_zero, shiftElement two_pos one_lt_two, level, leaningError,
    leaningElement one_lt_two two_pos, leaningElement two_pos two_pos, if_pos rfl,
    if_neg one_ne_zero] at claimed
  have wide : (2 : ℝ) = √(2 * 1 * 2) := by
    rw [mul_one]
    exact (Real.sqrt_mul_self zero_le_two).symm
  have meets := (shiftsMeet one_ne_zero one_pos one_pos two_pos wide).mp claimed
  norm_num at meets

end Surroundings
end ParamFit
