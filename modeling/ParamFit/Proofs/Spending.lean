import ParamFit.Proofs.Fitting

/-! What gradients and second derivatives cost, and what they need. A cycle of differences asks on both
sides of a point, so the cycles that a strategy allows bound the calls. Nothing is lacking where every
point with all coordinates can be asked and a gradient has an entry for each of them. -/
namespace ParamFit

/-! ### Gradients -/

namespace Surface
variable {s : Surface ℝ} {fits : Prop}

theorem valueOnce {x : Array ℝ} (answers : fits → s.Answers x) (t : Trace ℝ) :
    Yields fits (s.value x) t 1 fun _ => True :=
  .weaken (valueYields answers t) (le_refl 1) fun _ _ => trivial

theorem bothOnce {β : Type} {f : ℝ → ℝ → Eval ℝ β} {n : ℕ} {post : β → Prop} {t : Trace ℝ}
    {x : Array ℝ} (answers : fits → ∀ y : Array ℝ, y.size = x.size → s.Answers y) (k : ℕ) (v w : ℝ)
    (rest : ∀ a b u, Yields fits (f a b) u n post) :
    Yields fits (s.valueWith x k v >>= fun a => s.valueWith x k w >>= f a) t (n + 2) post := by
  have one (v : ℝ) (u : Trace ℝ) : Yields fits (s.valueWith x k v) u 1 fun _ => True :=
    valueOnce (fun fit => answers fit _ Array.size_setIfInBounds) u
  rw [show n + 2 = 1 + (1 + n) by omega]
  exact .bind (one v t) fun a u _ _ => .bind (one w u) fun b v _ _ => rest a b v

section
variable {p : Point ℝ} (answers : fits → ∀ x : Array ℝ, x.size = p.x.size → s.Answers x)
include answers

theorem differenceCyclesMost (st : Strategy ℝ) (k : ℕ) (noise : ℝ) (a : Axis ℝ) (last : ℝ)
    (cycles : ℕ) (t : Trace ℝ) :
    Yields fits (s.differenceCycles st p k noise a last cycles) t (cycles * 2) fun _ => True := by
  induction cycles generalizing a last t with
  | zero => exact .pure trivial
  | succ cycles ih =>
    rw [Nat.succ_mul]
    refine .ite (fun _ => .pure trivial) fun _ => bothOnce answers k _ _ fun ahead behind u => ?_
    exact .ite (fun _ => .pure trivial) fun _ => ih _ _ u

theorem settleMost (k : ℕ) (least : ℝ) (r : Settling ℝ) (d change : ℝ) (round cycles : ℕ)
    (t : Trace ℝ) :
    Yields fits (s.settle p k least r d change round cycles) t (cycles * 2) fun _ => True := by
  induction cycles generalizing r d change round t with
  | zero => exact .pure trivial
  | succ cycles ih =>
    rw [Nat.succ_mul]
    refine bothOnce answers k _ _ fun ahead behind u => ?_
    refine .ite (fun _ => .pure trivial) fun _ => .ite (fun _ => .pure trivial) fun _ => ?_
    exact .ite (fun _ => .pure trivial) fun _ => ih _ _ _ _ u

theorem refinedMost {g : Gradient ℝ} (full : fits → g.Full p.x.size) (st : Strategy ℝ) (t : Trace ℝ) :
    Yields fits (s.refined st p g) t (p.x.size * (st.hessianGradientCycles * 2)) fun found =>
      found.1.slopes.size = g.slopes.size := by
  refine .expect (fun fit => ?_) fun u _ => .map ?_
  · simp [(full fit).slopes, (full fit).curvatures, (full fit).steps]
  · refine .weaken (.tabulate (fun _ _ => True) ?_) (le_refl _) fun _ _ => Vector.size_overlay _ _
    exact fun k _ w => settleMost answers k _ _ _ _ _ _ w

end
end Surface

/- Two questions for a cycle along each of `n` coordinates. Slopes that are provided are not counted. -/
def GradientMethod.most (m : GradientMethod ℝ) (n : ℕ) : ℕ :=
  match m with
  | .differences st => n * (st.gradientCycles * 2)
  | .provided => 0
  | .refined st => n * (st.hessianGradientCycles * 2)

theorem GradientMethod.mostMono (m : GradientMethod ℝ) {n k : ℕ} (le : n ≤ k) :
    m.most n ≤ m.most k := by
  cases m with
  | differences st => exact Nat.mul_le_mul_right _ le
  | provided => exact le_refl 0
  | refined st => exact Nat.mul_le_mul_right _ le

theorem Surface.gradientFromMost {s : Surface ℝ} (m : GradientMethod ℝ) (p : Point ℝ) (g : Gradient ℝ)
    (t : Trace ℝ) :
    Yields False (s.gradientFrom m p g) t (m.most p.x.size) fun _ => True := by
  cases m with
  | differences st =>
    refine .expect False.elim fun u _ => .expect False.elim fun v _ => .map ?_
    refine .weaken (.tabulate (fun _ _ => True) ?_) (le_refl _) fun _ _ => trivial
    exact fun k _ w => differenceCyclesMost False.elim st k _ _ _ _ w
  | provided =>
    refine .map (.expect False.elim fun u _ => ?_)
    refine .weaken (.tabulate (fun _ _ => True) ?_) (Nat.mul_zero _).le fun _ _ => trivial
    exact fun k _ w => .map ⟨trivial, le_refl _, False.elim⟩
  | refined st =>
    exact .map (.weaken (refinedMost False.elim False.elim st t) (le_refl _) fun _ _ => trivial)

/-! ### Second derivatives -/

namespace Hessian

/- All calls of second derivatives, if each cycle has to try all distances. -/
def mostCalls (st : Strategy ℝ) (n : ℕ) : ℕ :=
  1 + (n * (st.hessianCycles * 10) + (n * (st.hessianGradientCycles * 2) + n * n))

section
variable {h : Site ℝ} {fits : Prop}
  (answers : fits → ∀ x : Array ℝ, x.size = h.x.size → h.surface.Answers x)
include answers

theorem findRiseMost (k : ℕ) (d : ℝ) (tries : ℕ) (t : Trace ℝ) :
    Yields fits (findRise h k d tries) t (tries * 2) fun _ => True := by
  induction tries generalizing d t with
  | zero => exact .pure trivial
  | succ tries ih =>
    rw [Nat.succ_mul]
    refine Surface.bothOnce answers k _ _ fun ahead behind u => .ite (fun _ => .pure trivial) fun _ => ?_
    refine .ite (fun _ => ?_) fun _ => ih _ u
    exact .ite (fun _ => .pure trivial) fun _ => ih _ u

theorem measureMost {k : ℕ} (listed : fits → k < h.start.curvatures.size ∧ k < h.start.slopes.size)
    (r : Ruler ℝ) (d : ℝ) (cycles : ℕ) (t : Trace ℝ) :
    Yields fits (measure h k r d cycles) t (cycles * 10) fun _ => True := by
  induction cycles generalizing r d t with
  | zero => exact .pure trivial
  | succ cycles ih =>
    rw [Nat.succ_mul, Nat.add_comm (cycles * 10)]
    refine .bind (findRiseMost answers k d 5 t) fun found u _ _ => ?_
    cases found with
    | none => exact .pure trivial
    | some rise =>
      refine .expect (fun fit => by simpa using listed fit) fun v _ => ?_
      exact .ite (fun _ => .pure trivial) fun _ => ih _ _ v

theorem measureAllMost (full : fits → h.start.Full h.x.size) (limit before : ℕ)
    (rulers : Array (Ruler ℝ)) {ks : List ℕ} (inside : ∀ k ∈ ks, k < h.x.size) (t : Trace ℝ) :
    Yields fits (measureAll h limit before rulers ks) t (ks.length * (h.strategy.hessianCycles * 10))
      fun _ => True := by
  induction ks generalizing rulers t with
  | nil => exact .pure trivial
  | cons k rest ih =>
    obtain ⟨here, others⟩ := List.forall_mem_cons.mp inside
    have listed (fit : fits) : k < h.start.curvatures.size ∧ k < h.start.slopes.size := by
      rw [(full fit).curvatures, (full fit).slopes]
      exact ⟨here, here⟩
    rw [List.length_cons, Nat.succ_mul, Nat.add_comm (rest.length * _)]
    refine .expect (fun fit => decide_eq_true ((full fit).steps ▸ here)) fun u _ => ?_
    refine .bind (measureMost answers listed _ _ _ u) fun ⟨r, found⟩ v _ _ => ?_
    refine .ite (fun _ => .pure trivial) fun _ => ?_
    refine .expect (fun fit => decide_eq_true (listed fit).1) fun w _ => .counting ?_
    exact .ite (fun _ => .pure trivial) fun _ => ih _ others w

theorem mixRowMost (rulers : Array (Ruler ℝ)) (i : ℕ) {x : Array ℝ} (size : x.size = h.x.size)
    (m : Symmetric ℝ) (js : List ℕ) (t : Trace ℝ) :
    Yields fits (mixRow h rulers i x m js) t js.length fun row => row.1.size = h.x.size := by
  induction js generalizing x m t with
  | nil => exact .pure size
  | cons j rest ih =>
    have shifted : (shift x j (reachOf rulers j)).size = h.x.size :=
      Array.size_setIfInBounds.trans size
    rw [List.length_cons, Nat.add_comm rest.length]
    refine .bind (Surface.valueOnce (fun fit => answers fit _ shifted) t) fun value u _ _ => ?_
    exact ih (Array.size_setIfInBounds.trans shifted) _ u

theorem mixAllMost (rulers : Array (Ruler ℝ)) {x : Array ℝ} (size : x.size = h.x.size)
    (m : Symmetric ℝ) (is : List ℕ) (t : Trace ℝ) :
    Yields fits (mixAll h rulers x m is) t (is.length * h.x.size) fun _ => True := by
  induction is generalizing x m t with
  | nil => exact .pure trivial
  | cons i rest ih =>
    have shifted : (shift x i (reachOf rulers i)).size = h.x.size :=
      Array.size_setIfInBounds.trans size
    have few : ((List.range h.x.size).filter (i < ·)).length ≤ h.x.size :=
      (List.length_filter_le _ _).trans List.length_range.le
    have row := mixRowMost answers rulers i shifted m ((List.range h.x.size).filter (i < ·)) t
    rw [List.length_cons, Nat.succ_mul, Nat.add_comm (rest.length * _)]
    refine .bind (row.weaken few fun _ => id) fun ⟨x, m⟩ u size _ => ?_
    exact ih (Array.size_setIfInBounds.trans size) _ u

end

section
variable {s : Surface ℝ} {k : Knowledge ℝ} {fits : Prop}

theorem startGradientMost (sized : fits → k.size = s.space.dimension) (t : Trace ℝ) :
    Yields fits (startGradient s k) t 0 fun _ => True := by
  refine .ite (fun _ => .expect (fun fit => beq_iff_eq.mpr (sized fit)) fun u _ => ?_) fun _ => ?_
  · exact .pure trivial
  · exact .pure trivial

theorem slopesMost {h : Site ℝ} (answers : fits → ∀ x : Array ℝ, x.size = k.size → h.surface.Answers x)
    {g : Gradient ℝ} (full : fits → g.Full k.size) (t : Trace ℝ) :
    Yields fits (slopes h k g) t (k.size * (h.strategy.hessianGradientCycles * 2)) fun _ => True := by
  refine .ite (fun _ => .pure trivial) fun _ => .ite (fun _ => .pure trivial) fun _ => .map ?_
  exact .weaken (Surface.refinedMost answers full _ t) (le_refl _) fun _ _ => trivial

/- Nothing else is needed than what is there when all that is known has the right size. -/
theorem matrixMost (st : Strategy ℝ) (sized : fits → k.Sized s.space.dimension)
    (readable : fits → s.Readable) (limit before : ℕ) (t : Trace ℝ) :
    Yields fits (matrix s st k limit before) t (mostCalls st k.size) fun _ => True := by
  have answers (fit : fits) (x : Array ℝ) (size : x.size = k.size) : s.Answers x :=
    readable fit x (size.trans (sized fit).point)
  have begun : Yields fits (startGradient s k) t 0 fun start => fits → start.Full k.size := by
    obtain ⟨-, calls, sound⟩ := startGradientMost (k := k) (s := s) (fun fit => (sized fit).point) t
    refine ⟨fun fit => ?_, calls, sound⟩
    rw [Knowledge.size, (sized fit).point]
    exact (startGradientFull s (sized fit)).answer t
  rw [← Nat.zero_add (mostCalls st k.size)]
  refine .bind begun fun start u full _ => ?_
  refine .bind (Surface.valueOnce (fun fit => answers fit _ rfl) u) fun value v _ _ => ?_
  let aim := Scalar.sqrt s.precision.eps2 * (Scalar.abs value + s.errorDef)
  let h : Site ℝ := ⟨s, st, k.point.x, value, aim, start⟩
  have measured := measureAllMost (h := h) answers full limit before (begin h)
    (fun i among => List.mem_range.mp among) v
  rw [List.length_range] at measured
  refine .bind measured fun ⟨rulers, failure⟩ w _ _ => ?_
  cases failure with
  | some failure => exact .pure trivial
  | none =>
    have whole (fit : fits) : (gradientOf h rulers).Full k.size := gradientOfFull (full fit) rulers
    refine .bind (slopesMost (h := h) answers whole w) fun g w' _ _ => .map ?_
    have mixed := mixAllMost (h := h) answers rulers rfl (.ofDiagonal (rulers.map (·.curvature)))
      (List.range k.size) w'
    rw [List.length_range] at mixed
    exact mixed

end
end Hessian
end ParamFit
