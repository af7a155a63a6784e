import ParamFit.Proofs.Covering
import ParamFit.Proofs.Forced
import ParamFit.Proofs.Metric
import ParamFit.Proofs.Transport

/-! Taking a row out of a covariance is conditioning on it. The inverse without the row is the inverse
of what the other rows share beyond what they share with it. So where a covariance is positive definite,
nothing ever stands in for an inverse, and of two parameters it does not matter which is fixed first. -/
namespace ParamFit
open Finset Matrix
variable {n : ℕ}

/-! ### What is left once a row is known -/

/- What the other rows share beyond what they share with row `k`. -/
noncomputable def conditional (v : Matrix (Fin (n + 1)) (Fin (n + 1)) ℝ) (k : Fin (n + 1)) :
    Matrix (Fin n) (Fin n) ℝ :=
  .of fun i j =>
    v (k.succAbove i) (k.succAbove j) - v (k.succAbove i) k * v k (k.succAbove j) / v k k

theorem conditionalInverse {v h : Matrix (Fin (n + 1)) (Fin (n + 1)) ℝ} (inverse : v * h = 1)
    {k : Fin (n + 1)} (pivot : v k k ≠ 0) :
    conditional v k * h.submatrix k.succAbove k.succAbove = 1 := by
  have others (i : Fin (n + 1)) (l : Fin n) :
      ∑ j, v i (k.succAbove j) * h (k.succAbove j) (k.succAbove l) =
        (1 : Matrix (Fin (n + 1)) (Fin (n + 1)) ℝ) i (k.succAbove l) - v i k * h k (k.succAbove l) := by
    have whole := congrFun (congrFun inverse i) (k.succAbove l)
    rw [mul_apply, Fin.sum_univ_succAbove _ k] at whole
    exact eq_sub_of_add_eq' whole
  ext i l
  have split : (conditional v k * h.submatrix k.succAbove k.succAbove) i l =
      ∑ j, v (k.succAbove i) (k.succAbove j) * h (k.succAbove j) (k.succAbove l) -
        v (k.succAbove i) k / v k k *
          ∑ j, v k (k.succAbove j) * h (k.succAbove j) (k.succAbove l) := by
    rw [mul_apply, mul_sum, ← sum_sub_distrib]
    refine sum_congr rfl fun j _ => ?_
    rw [conditional, of_apply, submatrix_apply]
    ring
  rw [split, others, others, one_apply_ne (k.succAbove_ne l).symm, zero_sub, mul_neg, sub_neg_eq_add,
    ← mul_assoc, div_mul_cancel₀ _ pivot, sub_add_cancel, one_apply, one_apply]
  exact if_congr k.succAbove_right_injective.eq_iff rfl rfl

/-! ### Rows taken out -/

theorem skipAbove (k : Fin (n + 1)) (a : Fin n) : (k.succAbove a : ℕ) = skip k a := by
  rw [Fin.succAbove, skip]
  split
  case isTrue before => exact (if_pos before).symm
  case isFalse after => exact (if_neg after).symm

theorem skipInjective (k : ℕ) : Function.Injective (skip k) := by
  intro a b same
  simp only [skip] at same
  split at same <;> split at same <;> omega

/- The place of row `a` once row `k` is out. -/
def slide (k a : ℕ) : ℕ := if k < a then a - 1 else a

theorem skipSlide {k a : ℕ} (apart : a ≠ k) : skip k (slide k a) = a := by
  simp only [skip, slide]
  split <;> split <;> omega

theorem skipBoth (a b i : ℕ) :
    skip a (skip (slide a b) i) = skip b (skip (slide b a) i) := by
  simp only [skip, slide]
  split_ifs <;> omega

namespace Symmetric

section
variable {α : Type} [Scalar α] {m : Symmetric α} {k : ℕ}

theorem squeezeBeyond (beyond : m.size ≤ k) : m.squeeze k = m := by
  have all : (Array.range m.size).filter (· != k) = Array.range m.size := by
    refine Array.filter_eq_self.mpr fun i among => ?_
    have inside := Array.mem_range.mp among
    exact bne_iff_ne.mpr (by omega)
  refine sameElements ?_ fun i j col row => ?_
  · rw [squeeze, all]
    exact Array.size_range
  · have place {c : ℕ} (inside : c < m.size) : (Array.range m.size).getD c 0 = c := by
      simp [inside]
    rw [squeeze, all] at row ⊢
    have row : i < m.size := row.trans_eq Array.size_range
    rw [elementBuild _ col (row.trans_eq Array.size_range.symm), place row, place (col.trans_lt row)]

theorem squeezeRows (m : Symmetric α) (k : ℕ) :
    (m.squeeze k).size = if k < m.size then m.size - 1 else m.size := by
  split
  case isTrue inside => exact Nat.eq_sub_of_add_eq (squeezeSize inside)
  case isFalse beyond => rw [squeezeBeyond (not_lt.mp beyond)]

theorem skipInside {a : ℕ} (row : a < (m.squeeze k).size) : skip k a < m.size := by
  rw [squeezeRows] at row
  rw [skip]
  split at row <;> split <;> omega

theorem squeezeAt {a b : ℕ} (row : a < (m.squeeze k).size) (col : b < (m.squeeze k).size) :
    (m.squeeze k).element a b = m.element (skip k a) (skip k b) := by
  by_cases inside : k < m.size
  · have size := squeezeSize inside
    exact squeezeElement inside (by omega) (by omega)
  · have beyond := not_lt.mp inside
    rw [squeezeBeyond beyond] at row col ⊢
    rw [skip, skip, if_pos (by omega), if_pos (by omega)]

/- Two rows go in either order; the place of the later one slides when the earlier one goes first. -/
theorem squeezeBoth (m : Symmetric α) (a b : ℕ) :
    (m.squeeze a).squeeze (slide a b) = (m.squeeze b).squeeze (slide b a) := by
  have size : ((m.squeeze a).squeeze (slide a b)).size = ((m.squeeze b).squeeze (slide b a)).size := by
    simp only [squeezeRows, slide]
    split_ifs <;> omega
  refine sameElements size fun i j col row => ?_
  have row' := size ▸ row
  have inner (c : ℕ) (inside : c ≤ i) : c < ((m.squeeze a).squeeze (slide a b)).size :=
    inside.trans_lt row
  have inner' (c : ℕ) (inside : c ≤ i) : c < ((m.squeeze b).squeeze (slide b a)).size :=
    inside.trans_lt row'
  rw [squeezeAt (inner i le_rfl) (inner j col), squeezeAt (inner' i le_rfl) (inner' j col),
    squeezeAt (skipInside (inner i le_rfl)) (skipInside (inner j col)),
    squeezeAt (skipInside (inner' i le_rfl)) (skipInside (inner' j col)), skipBoth a b i,
    skipBoth a b j]

end

theorem squeezeMatrix {m : Symmetric ℝ} (size : m.size = n + 1) (k : Fin (n + 1)) :
    (m.squeeze k).matrix n = (m.matrix (n + 1)).submatrix k.succAbove k.succAbove := by
  ext a b
  rw [submatrix_apply, matrix, matrix, of_apply, of_apply, skipAbove, skipAbove]
  exact squeezeElement (by omega) (by omega) (by omega)

theorem squeezeDefinite {m : Symmetric ℝ} (definite : m.square.PosDef) (k : ℕ) :
    (m.squeeze k).square.PosDef := by
  let place : Fin (m.squeeze k).size → Fin m.size := fun a => ⟨skip k a, skipInside a.isLt⟩
  have same : (m.squeeze k).square = m.square.submatrix place place := by
    ext a b
    exact squeezeAt a.isLt b.isLt
  rw [same]
  refine definite.submatrix fun a b equal => Fin.ext ?_
  exact skipInjective k (congrArg Fin.val equal)

/-! ### Inverses and back -/

theorem sameMatrix {a b : Symmetric ℝ} (left : a.size = n) (right : b.size = n)
    (same : a.matrix n = b.matrix n) : a = b := by
  refine sameElements (left.trans right.symm) fun i j col row => ?_
  exact congrFun (congrFun same ⟨i, left ▸ row⟩) ⟨j, left ▸ col.trans_lt row⟩

/- The inverse of the inverse is the matrix itself. -/
theorem invertBack {m : Symmetric ℝ} (definite : m.square.PosDef) :
    ∃ h, m.invert = .ok h ∧ h.invert = .ok m ∧ h.square.PosDef := by
  obtain ⟨h, inverted⟩ := invertFound (m := m) rfl definite
  have size := sizeInvert inverted
  have definite' := invertDefinite rfl definite inverted
  obtain ⟨g, again⟩ := invertFound size definite'
  have same : g = m := by
    refine sameMatrix ((sizeInvert again).trans size) rfl ?_
    exact left_inv_eq_right_inv (invertExact size again) (invertExact rfl inverted)
  have square : h.square.PosDef := by
    have whole : h.square = h.matrix h.size := rfl
    rw [whole, size]
    exact definite'
  exact ⟨h, inverted, same ▸ again, square⟩

theorem conditioned {m : Symmetric ℝ} (size : m.size = n + 1) (definite : m.square.PosDef)
    (k : Fin (n + 1)) : ∃ h rest, m.invert = .ok h ∧ (h.squeeze k).invert = .ok rest ∧
      rest.size = n ∧ rest.matrix n = conditional (m.matrix (n + 1)) k := by
  obtain ⟨h, inverted, -, definite'⟩ := invertBack definite
  obtain ⟨rest, again, -, -⟩ := invertBack (squeezeDefinite definite' k)
  have rows : h.size = n + 1 := (sizeInvert inverted).trans size
  have fewer : (h.squeeze k).size = n := by
    have one := squeezeSize (m := h) (k := k) (by omega)
    omega
  have pivot : m.matrix (n + 1) k k ≠ 0 :=
    (definite.diag_pos (i := ⟨k, size.symm ▸ k.isLt⟩)).ne'
  refine ⟨h, rest, inverted, again, (sizeInvert again).trans fewer, ?_⟩
  have inverse := conditionalInverse (mul_eq_one_comm.mp (invertExact size inverted)) pivot
  rw [← squeezeMatrix rows k] at inverse
  exact (right_inv_eq_left_inv (mul_eq_one_comm.mp (invertExact fewer again)) inverse)

end Symmetric

/-! ### Covariances and error matrices -/

def Covariance.Definite (c : Covariance ℝ) : Prop := c.toMatrix.square.PosDef

namespace Covariance

theorem squeezeInverse {c : Covariance ℝ} {h m : Symmetric ℝ} {k : ℕ}
    (inverted : c.toMatrix.invert = .ok h) (again : (h.squeeze k).invert = .ok m) :
    c.squeeze k = ofMatrix m := by
  rw [squeeze, inverted]
  dsimp only
  rw [again]

/- Two rows are taken out of a covariance as they are out of its inverse. -/
theorem squeezeTwice {c : Covariance ℝ} (definite : c.Definite) (a b : ℕ) : ∃ h m,
    c.toMatrix.invert = .ok h ∧ ((h.squeeze a).squeeze b).invert = .ok m ∧
      (c.squeeze a).squeeze b = ofMatrix m := by
  obtain ⟨h, inverted, -, definite⟩ := Symmetric.invertBack definite
  have without := Symmetric.squeezeDefinite definite a
  obtain ⟨g, first, back, -⟩ := Symmetric.invertBack without
  obtain ⟨m, second, -, -⟩ := Symmetric.invertBack (Symmetric.squeezeDefinite without b)
  refine ⟨h, m, inverted, second, ?_⟩
  rw [squeezeInverse inverted first]
  exact squeezeInverse (by rw [matrixAgain]; exact back) second

theorem squeezeBoth {c : Covariance ℝ} (definite : c.Definite) (a b : ℕ) :
    (c.squeeze a).squeeze (slide a b) = (c.squeeze b).squeeze (slide b a) := by
  obtain ⟨h, m, inverted, made, left⟩ := squeezeTwice definite a (slide a b)
  obtain ⟨h', m', inverted', made', right⟩ := squeezeTwice definite b (slide b a)
  cases inverted.symm.trans inverted'
  rw [h.squeezeBoth a b, made'] at made
  cases made
  rw [left, right]

end Covariance

theorem ErrorMatrix.squeezeInverse {v h m : Symmetric ℝ} {k : ℕ} (d : ℝ)
    (inverted : v.invert = .ok h) (again : (h.squeeze k).invert = .ok m) :
    (usable v d).squeeze k = usable m d := by
  have hessian : (usable v d).hessian = h := by
    rw [ErrorMatrix.hessian, usable, inverted]
  rw [squeeze, hessian, again]
  rfl

/-! ### Parameters fixed one after the other -/

namespace Space
variable {α : Type} {s : Space α} {p q : Address} {i j : ℕ}

/- The place that an address leads to is declared and varies. -/
structure Varies (s : Space α) (p : Address) (i : ℕ) : Prop where
  known : s.indexOf p = .ok i
  declared : i < s.parameters.size
  free : i ∈ s.free

def fixAt (s : Space α) (i : ℕ) : Space α :=
  { s.update i Parameter.fix with free := s.free.erase i }

theorem Varies.coordinate (varies : s.Varies p i) : ∃ a, s.coordinate? i = some a := by
  cases found : s.coordinate? i with
  | none => exact absurd varies.free (coordinateNone found)
  | some a => exact ⟨a, rfl⟩

theorem Varies.fixAt (varies : s.Varies q j) (apart : i ≠ j) : (s.fixAt i).Varies q j := by
  have size : (s.fixAt i).parameters.size = s.parameters.size := Array.size_modify ..
  have same : (s.fixAt i).indexOf q = s.indexOf q := indexOfSame rfl size
  exact ⟨same.trans varies.known, size ▸ varies.declared,
    (List.mem_erase_of_ne apart.symm).mpr varies.free⟩

theorem fixBoth (s : Space α) (i j : ℕ) : (s.fixAt i).fixAt j = (s.fixAt j).fixAt i := by
  have parameters : (s.parameters.modify i Parameter.fix).modify j Parameter.fix =
      (s.parameters.modify j Parameter.fix).modify i Parameter.fix := by
    refine Array.ext_getElem? fun k => ?_
    simp only [Array.getElem?_modify]
    split_ifs <;> rfl
  simp only [Space.fixAt, update, parameters, List.erase_comm i j]

theorem coordinateIff {k : ℕ} :
    s.coordinate? i = some k ↔ s.free[k]? = some i ∧ ∀ c < k, s.free[c]? ≠ some i := by
  rw [coordinate?, List.findIdx?_eq_some_iff_getElem]
  constructor
  · rintro ⟨inside, same, before⟩
    refine ⟨(List.getElem?_eq_getElem inside).trans (congrArg some (eq_of_beq same)), ?_⟩
    intro c earlier found
    obtain ⟨_, equal⟩ := List.getElem?_eq_some_iff.mp found
    exact before c earlier (beq_iff_eq.mpr equal)
  · rintro ⟨found, before⟩
    obtain ⟨inside, equal⟩ := List.getElem?_eq_some_iff.mp found
    refine ⟨inside, beq_iff_eq.mpr equal, fun c earlier same => before c earlier ?_⟩
    exact (List.getElem?_eq_getElem (earlier.trans inside)).trans (congrArg some (eq_of_beq same))

/- A later coordinate slides when an earlier one goes. -/
theorem coordinateSlides {a b : ℕ} (here : s.coordinate? i = some a)
    (there : s.coordinate? j = some b) (apart : i ≠ j) :
    (s.fixAt i).coordinate? j = some (slide a b) := by
  have erased : (s.fixAt i).free = s.free.eraseIdx a := (coordinateErased here).2
  obtain ⟨found, -⟩ := coordinateIff.mp here
  obtain ⟨found', before⟩ := coordinateIff.mp there
  have other : b ≠ a := by
    rintro rfl
    exact apart (Option.some.inj (found.symm.trans found'))
  refine coordinateIff.mpr ⟨?_, fun c earlier => ?_⟩
  · rw [erased, eraseSkips, skipSlide other, found']
  · rw [erased, eraseSkips]
    refine before _ ?_
    simp only [skip, slide] at earlier ⊢
    split at earlier <;> split <;> omega

end Space

namespace FitState
variable {s : FitState ℝ} {p q : Address} {i j : ℕ}

noncomputable def fixAt (s : FitState ℝ) (i k : ℕ) : FitState ℝ :=
  { s with
    space := s.space.fixAt i
    hasCorrelation := false
    covariance := s.covariance.squeeze k
    inner := s.inner.squeeze k }

theorem fixVaries (covered : s.hasCovariance = true) (varies : s.space.Varies p i) {k : ℕ}
    (found : s.space.coordinate? i = some k) : s.fix p = .ok (s.fixAt i k) := by
  have place : s.space.indexOf (.index i) = .ok i := if_pos varies.declared
  have fixed : s.space.fix (.index i) = .ok (s.space.fixAt i) := by
    rw [Space.fix, place]
    exact if_pos varies.free
  rw [fix, varies.known, okBind, fixed, okBind, found]
  dsimp only
  split
  case h_1 same =>
    cases same
    rfl
  case h_2 other => exact absurd rfl (other k covered)

theorem fixTwice (covered : s.hasCovariance = true) (first : s.space.Varies p i)
    (second : s.space.Varies q j) (apart : i ≠ j) {a b : ℕ} (here : s.space.coordinate? i = some a)
    (there : s.space.coordinate? j = some b) :
    (s.fix p >>= fun t => t.fix q) = .ok ((s.fixAt i a).fixAt j (slide a b)) := by
  rw [fixVaries covered first here, okBind]
  exact fixVaries (s := s.fixAt i a) covered (second.fixAt apart) (Space.coordinateSlides here there apart)

/- Without row `k`, a positive definite covariance is what the others share beyond what they share with
it, in their old order; an error matrix becomes the same and stays as accurate and usable as it was. So
two parameters that vary can be fixed in either order: the fits that follow are the same. -/
theorem conditionedInAnyOrder :
    (∀ (v : Symmetric ℝ) (d : ℝ) (k : ℕ), v.square.PosDef → k < v.size → ∃ m : Symmetric ℝ,
      m.size + 1 = v.size ∧
      (∀ a b, a < m.size → b < m.size → m.element a b =
        v.element (skip k a) (skip k b) -
          v.element (skip k a) k * v.element k (skip k b) / v.element k k) ∧
      (Covariance.ofMatrix v).squeeze k = .ofMatrix m ∧
      (ErrorMatrix.usable v d).squeeze k = .usable m d) ∧
    ∀ (s : FitState ℝ) (p q : Address) (i j : ℕ), s.hasCovariance = true → s.covariance.Definite →
      s.inner.Definite → s.space.Varies p i → s.space.Varies q j → i ≠ j →
      ∃ t, (s.fix p >>= fun u => u.fix q) = .ok t ∧ (s.fix q >>= fun u => u.fix p) = .ok t ∧
        t.hasCovariance = true := by
  refine ⟨fun v d k definite inside => ?_, fun s p q i j covered definite inner first second apart => ?_⟩
  · obtain ⟨n, size⟩ := Nat.exists_eq_succ_of_ne_zero (Nat.zero_lt_of_lt inside).ne'
    obtain ⟨h, m, inverted, again, rows, same⟩ := Symmetric.conditioned size definite ⟨k, by omega⟩
    refine ⟨m, by omega, fun a b row col => ?_, ?_, ErrorMatrix.squeezeInverse d inverted again⟩
    · have here := congrFun (congrFun same ⟨a, rows ▸ row⟩) ⟨b, rows ▸ col⟩
      rw [conditional, of_apply] at here
      simp only [Symmetric.matrix, of_apply, skipAbove] at here
      exact here
    · exact Covariance.squeezeInverse (by rw [Covariance.matrixAgain]; exact inverted) again
  · obtain ⟨a, here⟩ := first.coordinate
    obtain ⟨b, there⟩ := second.coordinate
    refine ⟨_, fixTwice covered first second apart here there, ?_, covered⟩
    rw [fixTwice covered second first apart.symm there here]
    simp only [fixAt, s.space.fixBoth i j, Covariance.squeezeBoth definite a b,
      Covariance.squeezeBoth inner a b]

/- Three parameters that all lean on each other; two of them are fixed. -/
theorem conditionedThree :
    let v : Symmetric ℝ := .build 3 fun i j => if i = j then 2 else 1
    (∃ m : Symmetric ℝ, m.size = 2 ∧ m.element 0 0 = 3 / 2 ∧ m.element 1 0 = 1 / 2 ∧
      (Covariance.ofMatrix v).squeeze 1 = .ofMatrix m ∧
      (ErrorMatrix.usable v 0.2).squeeze 1 = .usable m 0.2) ∧
    ∃ s, ofCovariance (Space.empty.run [.add "x" (0 : ℝ) 1, .add "y" 0 1, .add "z" 0 1])
        (.ofMatrix v) = .ok s ∧
      ∃ t, (s.fix (.name "x") >>= fun u => u.fix (.name "z")) = .ok t ∧
        (s.fix (.name "z") >>= fun u => u.fix (.name "x")) = .ok t ∧ t.hasCovariance = true := by
  intro v
  have element {i j : ℕ} (row : i < 3) (col : j < 3) : v.element i j = if i = j then 2 else 1 :=
    Symmetric.elementBuildComm (fun _ _ => if_congr eq_comm rfl rfl) row col
  have definite : v.square.PosDef := Symmetric.overlapDefinite fun _ row _ col => element row col
  have half : (v.scale 0.5).square.PosDef := by
    have scaled : (v.scale 0.5).square = (0.5 : ℝ) • v.square := Symmetric.matrixScale (m := v) rfl 0.5
    rw [scaled]
    exact definite.smul (by norm_num)
  obtain ⟨conditions, anyOrder⟩ := conditionedInAnyOrder
  constructor
  · obtain ⟨m, rows, known, squeezed, error⟩ := conditions v 0.2 1 definite (by decide)
    have rows : m.size = 2 := Nat.succ.inj rows
    refine ⟨m, rows, ?_, ?_, squeezed, error⟩
    · rw [known 0 0 (by omega) (by omega)]
      norm_num [skip, element]
    · rw [known 1 0 (by omega) (by omega)]
      norm_num [skip, element]
  · let space := Space.empty.run [Action.add "x" (0 : ℝ) 1, .add "y" 0 1, .add "z" 0 1]
    have variance {i : ℕ} (row : i < 3) : ¬ (Covariance.ofMatrix v).element i i ≤ 0 := by
      rw [Covariance.elementOfMatrix, element row row, if_pos rfl]
      exact not_le.mpr two_pos
    let after := ((space.setErrorAt 0 (Scalar.sqrt (v.element 0 0))).setErrorAt 1
      (Scalar.sqrt (v.element 1 1))).setErrorAt 2 (Scalar.sqrt (v.element 2 2))
    obtain ⟨s, made, covered, covariance, inner, places⟩ : ∃ s,
        ofCovariance space (.ofMatrix v) = .ok s ∧ s.hasCovariance = true ∧
          s.covariance = .ofMatrix v ∧ s.inner = .ofMatrix (v.scale 0.5) ∧ s.space = after := by
      rw [ofCovariance, if_pos (show (Covariance.ofMatrix v).rows = space.dimension from rfl)]
      change ∃ s, (takeErrors _ space 0 [0, 1, 2] >>= _) = Except.ok s ∧ _
      rw [takeErrors, if_neg (variance (by decide)), takeErrors, if_neg (variance (by decide)),
        takeErrors, if_neg (variance (by decide)), takeErrors]
      exact ⟨_, rfl, rfl, rfl, rfl, rfl⟩
    have first : after.Varies (.name "x") 0 := ⟨rfl, by decide, by decide⟩
    have last : after.Varies (.name "z") 2 := ⟨rfl, by decide, by decide⟩
    rw [← places] at first last
    refine ⟨s, made, anyOrder s _ _ 0 2 covered ?_ ?_ first last (by decide)⟩
    · rw [covariance, Covariance.Definite, Covariance.matrixAgain]
      exact definite
    · rw [inner, Covariance.Definite, Covariance.matrixAgain]
      exact half

end FitState
end ParamFit
