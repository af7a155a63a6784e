import ParamFit.Proofs.Quadratic
import ParamFit.Proofs.Consistency

/-! Quadratic objectives of parameters without limits, some of which may be held. A coordinate that is moved
moves its parameter and no other, so along each coordinate the objective is a parabola, and the slope and the
curvature of that parabola are the derivatives. -/
namespace ParamFit

theorem tabulateOne {β : Type} (f : ℕ → β) : tabulate 1 f = #[f 0] :=
  Array.ext (size_tabulate 1 f) fun i _ inside => by
    obtain rfl : i = 0 := Nat.lt_one_iff.mp inside
    simp [tabulate]

/-! ### One coordinate is moved -/

namespace Space
section
variable {s : Space ℝ} (consistent : s.Consistent) {x : Array ℝ} (full : x.size = s.dimension)
  {k i : ℕ} (placed : s.place? k = some i)
include consistent full placed

theorem externalAt : (s.external x)[i]? = some ((s.parameterAt i).limits.toExternal (entry x k)) := by
  have once : s.free.Nodup := consistent.ascending.imp fun less => Nat.ne_of_lt less
  refine externalPlaced once full placed ?_
  rw [consistent.cached, Array.size_map]
  exact consistent.within (List.mem_of_getElem? placed)

theorem externalMoved (v : ℝ) : s.external (x.setIfInBounds k v) =
    (s.external x).setIfInBounds i ((s.parameterAt i).limits.toExternal v) := by
  obtain ⟨inside, here⟩ := List.getElem?_eq_some_iff.mp placed
  have width : (x.setIfInBounds k v).size = s.dimension := by rw [Array.size_setIfInBounds, full]
  have known := externalAt consistent full placed
  refine Array.ext_getElem? fun j => ?_
  by_cases free : j ∈ s.free
  · obtain ⟨m, there⟩ := List.getElem?_of_mem free
    rw [externalAt consistent width there]
    by_cases same : k = m
    · subst same
      obtain rfl : i = j := Option.some.inj (placed.symm.trans there)
      have moved : entry (x.setIfInBounds k v) k = v := by
        have given : k < x.size := full ▸ inside
        simp [entry, given]
      rw [moved, Array.getElem?_setIfInBounds_self_of_lt (Array.getElem?_eq_some_iff.mp known).1]
    · have apart : i ≠ j := by
        rintro rfl
        obtain ⟨within, found⟩ := List.getElem?_eq_some_iff.mp there
        have once : s.free.Nodup := consistent.ascending.imp fun less => Nat.ne_of_lt less
        exact same ((List.Nodup.getElem_inj_iff once).mp (here.trans found.symm))
      rw [Array.getElem?_setIfInBounds_ne apart, externalAt consistent full there]
      rw [Hessian.entryOther same]
  · have apart : i ≠ j := by
      rintro rfl
      exact free (List.mem_of_getElem? placed)
    rw [Array.getElem?_setIfInBounds_ne apart, externalKept free, externalKept free]

end
end Space

/-! ### Derivatives along a coordinate -/

theorem parabolaDerivative (value slope curvature start v : ℝ) :
    HasDerivAt (fun v => value + slope * (v - start) + curvature / 2 * (v - start) ^ 2)
      (slope + curvature * (v - start)) v := by
  have moved : HasDerivAt (fun v => v - start) 1 v := (hasDerivAt_id v).sub_const _
  have square := (moved.fun_pow 2).const_mul (curvature / 2)
  have line := (moved.const_mul slope).const_add value
  refine (line.add square).congr_deriv ?_
  ring

namespace Surface

/- The first and the second derivative along a coordinate of what an objective is worth. -/
noncomputable def tilt (s : Surface ℝ) (x : Array ℝ) (k : ℕ) : ℝ :=
  deriv (fun v => s.worth (x.setIfInBounds k v)) (entry x k)

noncomputable def bend (s : Surface ℝ) (x : Array ℝ) (k : ℕ) : ℝ :=
  deriv (deriv fun v => s.worth (x.setIfInBounds k v)) (entry x k)

namespace Arc
variable {s : Surface ℝ} {x : Array ℝ} {k : ℕ} {slope curvature : ℝ} (arc : s.Arc x k slope curvature)
include arc

theorem derivative (v : ℝ) : HasDerivAt (fun v => s.worth (x.setIfInBounds k v))
    (slope + curvature * (v - entry x k)) v := by
  have parabola : (fun v => s.worth (x.setIfInBounds k v)) = fun v =>
      s.worth x + slope * (v - entry x k) + curvature / 2 * (v - entry x k) ^ 2 := by
    funext v
    have here := arc.along (v - entry x k)
    rwa [add_sub_cancel] at here
  rw [parabola]
  exact parabolaDerivative _ _ _ _ v

theorem tilt : s.tilt x k = slope := by
  rw [Surface.tilt, (arc.derivative _).deriv, sub_self, mul_zero, add_zero]

theorem bend : s.bend x k = curvature := by
  have first : (deriv fun v => s.worth (x.setIfInBounds k v)) =
      fun v => slope + curvature * (v - entry x k) := funext fun v => (arc.derivative v).deriv
  have line : HasDerivAt (fun v => slope + curvature * (v - entry x k)) curvature (entry x k) := by
    have moved : HasDerivAt (fun v => v - entry x k) 1 (entry x k) := (hasDerivAt_id _).sub_const _
    exact ((moved.const_mul curvature).const_add slope).congr_deriv (mul_one _)
  rw [Surface.bend, first, line.deriv]

end Arc

/- A quadratic objective of all declared parameters, where those that vary have no limits. -/
structure Quadratic (s : Surface ℝ) (h : Symmetric ℝ) (b : Array ℝ) (c : ℝ) : Prop where
  consistent : s.space.Consistent
  unlimited : ∀ k < s.space.dimension, s.space.limits k = .free
  declared : h.size = s.space.values.size
  objective : s.objective.Quadratic h b c
  readable : s.Readable

namespace Quadratic
variable {s : Surface ℝ} {h : Symmetric ℝ} {b : Array ℝ} {c : ℝ} (quadratic : s.Quadratic h b c)
  {x : Array ℝ} (size : x.size = s.space.dimension) {k : ℕ} (inside : k < s.space.dimension)
include quadratic size

theorem answers {y : Array ℝ} (width : y.size = x.size) : s.Answers y :=
  quadratic.readable y (width.trans size)

include inside

/- Along a coordinate the row of its parameter says all. -/
theorem arcOf : s.Arc x k (h.incline b (s.space.external x) (s.space.place k))
    (h.element (s.space.place k) (s.space.place k)) where
  along d := by
    have placed : s.space.place? k = some (s.space.place k) := Space.placed inside
    have free : (s.space.parameterAt (s.space.place k)).limits = .free := quadratic.unlimited k inside
    have here := Space.externalAt quadratic.consistent size placed
    rw [free] at here
    have width : (s.space.external x).size = h.size := by
      rw [Space.externalSize, quadratic.declared]
    have within : s.space.place k < h.size := width ▸ (Array.getElem?_eq_some_iff.mp here).1
    have value : entry (s.space.external x) (s.space.place k) = entry x k := by
      rw [entry, Array.getD_eq_getD_getElem?, here]
      rfl
    have moved := quadratic.objective.moved width ⟨_, within⟩ d
    rw [worth, worth, Space.externalMoved quadratic.consistent size placed, free]
    rw [value] at moved
    exact moved

theorem arc : s.Arc x k (s.tilt x k) (s.bend x k) := by
  have arc := quadratic.arcOf size inside
  rwa [arc.tilt, arc.bend]

end Quadratic

/-! ### A valley that leans -/

/- Two parameters, of which the second one is held at two. -/
noncomputable def valley : Surface ℝ where
  objective :=
    { value := fun x => 0.5 * (ErrorMatrix.crossed 2 2.0 0.5).quadratic x + Vector.dot #[0, 1] x + 1
      provides := fun _ => true
      slope := fun i x => (ErrorMatrix.crossed 2 2.0 0.5).incline #[0, 1] x i
      reads := fun _ => 2 }
  errorDef := 1
  space := Space.empty.run [.add "x" 1 0.1, .add "y" 2.0 0.1, .fix (.name "y")]

theorem valleyQuadratic : valley.Quadratic (ErrorMatrix.crossed 2 2.0 0.5) #[0, 1] 1 where
  consistent := Space.emptyConsistent.run fun a _ => Space.comparableExact a
  unlimited k inside := by
    obtain rfl : k = 0 := Nat.lt_one_iff.mp inside
    rfl
  declared := rfl
  objective := by
    refine ⟨rfl, fun x _ => ?_⟩
    change 0.5 * _ + _ + 1 = _
    ring
  readable x size := ⟨size.le, by rw [Space.externalSize]; exact le_refl 2⟩

theorem valleyArc (v : ℝ) : valley.Arc #[v] 0 (2 * v - 2) 2 := by
  have arc := valleyQuadratic.arcOf (x := #[v]) rfl (k := 0) one_pos
  have square : (ErrorMatrix.crossed 2 2.0 0.5).matrix 2 = !![2, -1; -1, 2] := by
    ext i j
    refine (ErrorMatrix.crossedElement 2.0 0.5 i.isLt j.isLt).trans ?_
    fin_cases i <;> fin_cases j <;> norm_num
  have row : entry ((ErrorMatrix.crossed 2 2.0 0.5).mulVec #[v, 2.0]) 0 = 2 * v - 2 := by
    have all := congrFun (Symmetric.columnMulVec (m := ErrorMatrix.crossed 2 2.0 0.5) (n := 2)
      (x := #[v, 2.0]) rfl) 0
    rw [square] at all
    refine all.trans ?_
    norm_num [Matrix.mulVec, Vector.column, entry, Matrix.vecHead, Matrix.vecTail]
    ring
  have slope : (ErrorMatrix.crossed 2 2.0 0.5).incline #[0, 1] (valley.space.external #[v])
      (valley.space.place 0) = 2 * v - 2 := (congrArg (· + (0 : ℝ)) row).trans (add_zero _)
  have curvature : (ErrorMatrix.crossed 2 2.0 0.5).element (valley.space.place 0)
      (valley.space.place 0) = 2 :=
    (ErrorMatrix.crossedDiagonal 2.0 0.5 two_pos).trans (by norm_num)
  rwa [slope, curvature] at arc

end Surface
end ParamFit
