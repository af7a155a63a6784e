import ParamFit.Proofs.Metric
import ParamFit.Proofs.Repeating
import ParamFit.Proofs.Spending

/-! Second derivatives of a quadratic objective, begun anywhere with anything. Whatever the steps were, a
rise that is seen shows the curvature exactly, and once a rise was seen the next cycle sees one as well. So
when all coordinates were seen, the matrix of the objective itself is tested and inverted, and an inverse
that is called valid is its inverse. -/
namespace ParamFit
open Matrix

/-! ### Quadratic objectives -/

theorem Vector.columnMoved {x : Array ℝ} {n : ℕ} (size : x.size = n) (k : Fin n) (d : ℝ) :
    column (x.setIfInBounds k (entry x k + d)) n = column x n + Pi.single k d := by
  funext i
  rw [Pi.add_apply, column]
  by_cases same : k = i
  · subst same
    rw [Pi.single_eq_same]
    simp [entry, column, size]
  · rw [Pi.single_eq_of_ne (Ne.symm same), add_zero, Hessian.entryOther (Fin.val_ne_of_ne same)]
    rfl

/- Half a quadratic form, and a linear one. -/
structure Objective.Quadratic (f : Objective ℝ) (h : Symmetric ℝ) (b : Array ℝ) (c : ℝ) : Prop where
  linear : b.size = h.size
  value : ∀ x : Array ℝ, x.size = h.size → f.value x = h.quadratic x / 2 + Vector.dot b x + c

noncomputable def Symmetric.incline (h : Symmetric ℝ) (b x : Array ℝ) (k : ℕ) : ℝ :=
  entry (h.mulVec x) k + entry b k

namespace Objective.Quadratic
variable {f : Objective ℝ} {h : Symmetric ℝ} {b x : Array ℝ} {c : ℝ} (quadratic : f.Quadratic h b c)
  (size : x.size = h.size)
include size

theorem inclineMoved (b : Array ℝ) (i : Fin h.size) {j : ℕ} (col : j < h.size) (d : ℝ) :
    h.incline b (x.setIfInBounds i (entry x i + d)) j = h.incline b x j + h.element i j * d := by
  have along (y : Array ℝ) (width : y.size = h.size) :
      entry (h.mulVec y) j = (h.matrix h.size *ᵥ Vector.column y h.size) ⟨j, col⟩ :=
    congrFun (Symmetric.columnMulVec width) ⟨j, col⟩
  rw [Symmetric.incline, Symmetric.incline, along x size, along _ (by rw [Array.size_setIfInBounds, size]),
    Vector.columnMoved size, mulVec_add, Pi.add_apply, mulVec_single, h.elementComm]
  change _ + h.element j i * d + _ = _
  ring

include quadratic

theorem moved (k : Fin h.size) (d : ℝ) : f.value (x.setIfInBounds k (entry x k + d)) =
    f.value x + h.incline b x k * d + h.element k k / 2 * d ^ 2 := by
  have width : (x.setIfInBounds k (entry x k + d)).size = h.size := by
    rw [Array.size_setIfInBounds, size]
  have slope : h.incline b x k =
      (h.matrix h.size *ᵥ Vector.column x h.size) k + Vector.column b h.size k :=
    congrArg (· + entry b k) (congrFun (Symmetric.columnMulVec size) k)
  have bent : Pi.single k d ⬝ᵥ h.matrix h.size *ᵥ Pi.single k d = h.element k k * d ^ 2 := by
    rw [single_dotProduct, mulVec_single]
    change d * (h.element k k * d) = h.element k k * d ^ 2
    ring
  rw [quadratic.value _ width, quadratic.value _ size, Symmetric.quadraticColumn width,
    Symmetric.quadraticColumn size, Vector.dotColumn quadratic.linear width,
    Vector.dotColumn quadratic.linear size, Vector.columnMoved size, mulVec_add, add_dotProduct,
    dotProduct_add, dotProduct_add, dotProduct_add,
    formSwap (v := h.matrix h.size) h.squareHermitian (Vector.column x h.size) (Pi.single k d), bent,
    single_dotProduct, dotProduct_single, slope]
  ring

theorem quadric : f.Quadric h.size x (h.incline b x) h.element where
  curve k inside := .mk fun d => quadratic.moved size ⟨k, inside⟩ d
  mixed i row j col apart p q := by
    have width : (x.setIfInBounds i (entry x i + p)).size = h.size := by
      rw [Array.size_setIfInBounds, size]
    have second := quadratic.moved width ⟨j, col⟩ q
    dsimp only at second
    rw [Hessian.entryOther apart, inclineMoved size b ⟨i, row⟩ col p] at second
    rw [second, quadratic.moved size ⟨i, row⟩ p]
    ring
  comm := h.elementComm

end Objective.Quadratic

namespace Hessian

/-! ### Curvatures -/

section
variable {h : Site ℝ} {n : ℕ} {fits : Prop} {k : ℕ} {slope curvature : ℝ}
  (plain : h.surface.Plain n) (size : h.x.size = n)
  (known : h.value = h.surface.objective.value h.x) (inside : k < n)
  (curve : h.surface.objective.Curve h.x k slope curvature) (eps2 : 0 ≤ (precision h).eps2)
include plain size known inside curve eps2

theorem measureYields {r : Ruler ℝ} {d : ℝ} (positive : 0 ≤ d) (cycles : ℕ)
    (before : cycles = 0 → r.Shows h.value slope curvature)
    (listed : fits → k < h.start.curvatures.size ∧ k < h.start.slopes.size) (t : Trace ℝ) :
    Yields fits (measure h k r d cycles) t (cycles * 10) fun out =>
      (out.2 = true → out.1.Shows h.value slope curvature) ∧
      ((precision h).Visible curvature (d * 10 ^ 4) → out.2 = true) := by
  induction cycles generalizing r d t with
  | zero => exact .pure ⟨fun _ => before rfl, fun _ => rfl⟩
  | succ cycles ih =>
    rw [Nat.succ_mul, Nat.add_comm (cycles * 10)]
    refine .bind (riseYields plain size known inside curve eps2 positive 5 t) ?_
    rintro (_ | rise) u ⟨shows, sees⟩ _
    · exact .pure ⟨nofun, fun visible => absurd rfl (sees 4 rfl visible)⟩
    · obtain ⟨shown, visible⟩ := shows rise rfl
      have ruler := Ruler.ofRiseShows shown
      refine .expect (fun fit => by simpa using listed fit) fun v _ => ?_
      refine .ite (fun _ => .pure ⟨fun _ => ruler, fun _ => rfl⟩) fun _ => ?_
      -- The next distance may be a tenth of this one, but not less.
      let next := Scalar.max (Scalar.min (aimedDistance h k (Ruler.ofRise rise).curvature)
        (10.0 * (Ruler.ofRise rise).reach)) (0.1 * (Ruler.ofRise rise).reach)
      have tenth : 0.1 * rise.distance ≤ next := by
        change _ ≤ Scalar.max _ (0.1 * rise.distance)
        rw [Exact.max]
        exact le_max_right _ _
      have long := shown.distance
      refine .weaken (ih (d := next) (by linarith) (fun _ => ruler) v) (le_refl _) ?_
      refine fun out ⟨shows, sees⟩ => ⟨shows, fun _ => sees ?_⟩
      exact visible.farther eps2 long.le (by linarith)

end

/- Rulers of which the first `k` are measured, and the others have the steps that were given. -/
structure Begun (h : Site ℝ) (n : ℕ) (first : ℕ → ℝ) (second : ℕ → ℕ → ℝ) (k : ℕ)
    (rulers : Array (Ruler ℝ)) : Prop where
  size : rulers.size = n
  done : ∀ j r, j < k → rulers[j]? = some r → r.Shows h.value (first j) (second j j)
  left : ∀ j r, k ≤ j → rulers[j]? = some r → r.step = entry h.start.steps j

section
variable {h : Site ℝ} {n : ℕ} {fits : Prop} {first : ℕ → ℝ} {second : ℕ → ℕ → ℝ}
  (size : h.x.size = n)
include size

theorem beginBegun : Begun h n first second 0 (begin h) := by
  refine ⟨(size_tabulate _ _).trans size, fun j r none => absurd none (Nat.not_lt_zero j), ?_⟩
  intro j r _ found
  obtain ⟨-, rfl⟩ := beginAt size found
  rfl

variable (plain : h.surface.Plain n) (known : h.value = h.surface.objective.value h.x)
  (quadric : h.surface.objective.Quadric n h.x first second) (eps2 : 0 ≤ (precision h).eps2)
include plain known quadric eps2

theorem allYields (full : fits → h.start.Full n) (cycles : 0 < h.strategy.hessianCycles)
    {limit before : ℕ} (m k : ℕ) (total : k + m = n) {rulers : Array (Ruler ℝ)}
    (part : Begun h n first second k rulers) (t : Trace ℝ) :
    Yields fits (measureAll h limit before rulers (List.range' k m)) t
      (m * (h.strategy.hessianCycles * 10)) fun out =>
        (out.2 = none → Measured h n first second 0 n out.1) ∧
        ((∀ i < n, (precision h).Visible (second i i) (|entry h.start.steps i| * 10 ^ 4)) →
          t.calls + m * (h.strategy.hessianCycles * 10) ≤ before + limit → out.2 = none) := by
  -- On the coordinates that are left; what is asked for each of them is in the budget.
  induction m generalizing k rulers t with
  | zero =>
    obtain rfl : k = n := by omega
    refine .pure ⟨fun _ => ⟨part.size, part.done, fun j r beyond found => ?_⟩, fun _ _ => rfl⟩
    have within := (Array.getElem?_eq_some_iff.mp found).1
    exact absurd within (by rw [part.size]; omega)
  | succ m ih =>
    have inside : k < n := by omega
    have within : k < rulers.size := by rw [part.size]; exact inside
    have given := part.left k rulers[k] (le_refl k) (Array.getElem?_eq_getElem within)
    have here : rulers.getD k ⟨0, 0, 0, 0, 0⟩ = rulers[k] := by simp [within]
    let d := Scalar.max (Scalar.abs rulers[k].step) (leastDistance h k)
    have wide : |entry h.start.steps k| ≤ d := by
      change _ ≤ Scalar.max (Scalar.abs _) _
      rw [Exact.max, Exact.abs, given]
      exact le_max_left _ _
    rw [List.range'_succ, Nat.succ_mul, Nat.add_comm (m * _)]
    refine .expect (fun fit => by simp [(full fit).steps, inside]) fun u spent => ?_
    rw [here]
    refine .bind (measureYields plain size known inside (quadric.curve k inside) eps2
      (d := d) ((abs_nonneg _).trans wide) _ (fun none => absurd none cycles.ne')
      (fun fit => ⟨by rw [(full fit).curvatures]; exact inside,
        by rw [(full fit).slopes]; exact inside⟩) u) ?_
    rintro ⟨r, found⟩ v ⟨shows, sees⟩ asked
    refine .ite (fun missed => .pure ⟨nofun, fun visible _ => ?_⟩) fun present => ?_
    · have seen := sees ((visible k inside).farther eps2 (by positivity) (by linarith))
      exact absurd seen (by simpa using missed)
    have shown : r.Shows h.value (first k) (second k k) := shows (by simpa using present)
    obtain ⟨done, left⟩ := setNext part.done shown part.left
    have more : Begun h n first second (k + 1) (rulers.setIfInBounds k r) :=
      ⟨by rw [Array.size_setIfInBounds, part.size], done, left⟩
    refine .expect (fun fit => by simp [(full fit).curvatures, inside]) fun w spent' => .counting ?_
    refine .ite (fun spends => .pure ⟨nofun, fun _ room => absurd spends (by omega)⟩) fun _ => ?_
    exact .weaken (ih (k + 1) (by omega) more w) (le_refl _) fun out ⟨shows, sees⟩ =>
      ⟨shows, fun visible room => sees visible (by omega)⟩

end

/-! ### The matrix -/

/- A numerical gradient whose steps lead, in all tries, to where each rise can be seen. -/
structure Ready (k : Knowledge ℝ) (prec : Precision ℝ) (n : ℕ) (second : ℕ → ℕ → ℝ) : Prop where
  valid : k.gradient.valid = true
  own : k.gradient.provided = false
  wide : ∀ i < n, prec.Visible (second i i) (|entry k.gradient.steps i| * 10 ^ 4)

section
variable {s : Surface ℝ} {n : ℕ} {fits : Prop} {k : Knowledge ℝ} {st : Strategy ℝ} {first : ℕ → ℝ}
  {second : ℕ → ℕ → ℝ} (plain : s.Plain n) (size : k.point.x.size = n)
  (full : fits → k.gradient.Full n)
include plain size full

theorem startYields (t : Trace ℝ) : Yields fits (startGradient s k) t 0 fun g => (fits → g.Full n) ∧
    (k.gradient.valid = true → k.gradient.provided = false → g.steps = k.gradient.steps) := by
  refine .ite (fun other => .expect (fun _ => by simp [size, plain.space.dimension]) fun u _ => ?_)
    fun _ => .pure ⟨fun fit => ⟨(full fit).slopes, (full fit).curvatures, (full fit).steps⟩, fun _ _ => rfl⟩
  have guessed := plain.guessFull k.point
  refine .pure ⟨fun fit => ⟨(full fit).slopes, guessed.curvatures, guessed.steps⟩, fun valid found => ?_⟩
  rw [valid, found] at other
  exact absurd other nofun

theorem slopesYields {h : Site ℝ} (same : h.surface = s) {g : Gradient ℝ}
    (complete : fits → g.Full n) (t : Trace ℝ) :
    Yields fits (slopes h k g) t (n * (h.strategy.hessianGradientCycles * 2)) fun found =>
      fits → found.slopes.size = n := by
  subst same
  refine .ite (fun _ => .pure fun fit => (full fit).slopes) fun _ => .ite (fun _ => ?_) fun _ => ?_
  · exact .pure fun fit => (complete fit).slopes
  · subst size
    have answers (_ : fits) (x : Array ℝ) := plain.answers (x := x)
    refine .map (.weaken (Surface.refinedMost answers complete _ t) (le_refl _) ?_)
    exact fun found width fit => width.trans (complete fit).slopes

variable (quadric : s.objective.Quadric n k.point.x first second) (eps2 : 0 ≤ s.precision.eps2)
  (cycles : 0 < st.hessianCycles)
include quadric eps2 cycles

theorem matrixYields {limit before : ℕ} (t : Trace ℝ) :
    Yields fits (matrix s st k limit before) t (mostCalls st n) fun out =>
      (∀ m g, out = .ok (m, g) → m = .build n second ∧ (fits → g.slopes.size = n)) ∧
      (Ready k s.precision n second → t.calls + 1 + n * (st.hessianCycles * 10) ≤ before + limit →
        ∃ m g, out = .ok (m, g)) := by
  rw [← Nat.zero_add (mostCalls st n)]
  refine .bind (startYields plain size full t) ?_
  rintro start u ⟨complete, same⟩ begun
  refine .bind (plain.value size u) fun value v asked spent => ?_
  let aim := Scalar.sqrt s.precision.eps2 * (Scalar.abs value + s.errorDef)
  let h : Site ℝ := ⟨s, st, k.point.x, value, aim, start⟩
  have measured : Yields fits (measureAll h limit before (begin h) (List.range k.size)) v
      (n * (st.hessianCycles * 10)) fun out => (out.2 = none → Measured h n first second 0 n out.1) ∧
        ((∀ i < n, (precision h).Visible (second i i) (|entry start.steps i| * 10 ^ 4)) →
          v.calls + n * (st.hessianCycles * 10) ≤ before + limit → out.2 = none) := by
    rw [Knowledge.size, size, List.range_eq_range']
    exact allYields (h := h) size plain asked quadric eps2 complete cycles n 0 (Nat.zero_add n)
      (beginBegun size) v
  refine .bind measured ?_
  rintro ⟨rulers, failure⟩ w ⟨shows, sees⟩ _
  cases failure with
  | some failure =>
    refine .pure ⟨fun m g found => ?_, fun ready room => ?_⟩
    · cases found
    · rw [same ready.valid ready.own] at sees
      cases sees ready.wide (by omega)
  | none =>
    have whole := shows rfl
    have gradient (fit : fits) : (gradientOf h rulers).Full n :=
      (gradientOfWhole (h := h) (complete fit) whole).1
    refine .bind (slopesYields plain size full (h := h) rfl gradient w) fun g w' width _ => ?_
    refine .map (.weaken (mixedExact (h := h) plain size asked quadric whole w') (le_refl _) ?_)
    rintro m rfl
    refine ⟨?_, fun _ _ => ⟨_, _, rfl⟩⟩
    rintro _ _ ⟨⟩
    exact ⟨rfl, width⟩

end

/-! ### What comes of the matrix -/

section
variable {h : Symmetric ℝ} {prec : Precision ℝ} (rows : 0 < h.size) (eps2 : 0 ≤ prec.eps2)
include rows eps2

/- Only a matrix that was not changed leads to a valid inverse. -/
theorem concludeExact (k : Knowledge ℝ) (calls : ℕ) (g : Gradient ℝ) :
    let next := conclude k prec calls (.ok (h, g))
    (next.error.status = .valid → h.invert = .ok next.error.inverse ∧ next.gradient = g) ∧
      (ErrorMatrix.Accepted h prec → (∃ inverse, h.invert = .ok inverse) →
        next.error.status = .valid) := by
  let e : ErrorMatrix ℝ := .usable h 1
  by_cases accepted : ErrorMatrix.Accepted h prec
  · have kept : e.makePosDef prec = e := ErrorMatrix.Accepted.kept (e := e) accepted rows eps2
    cases inverted : e.inverse.invert with
    | error _ =>
      rw [conclude, kept, inverted]
      refine ⟨fun valid => ?_, fun _ found => ?_⟩
      · cases valid
      · obtain ⟨_, done⟩ := found
        cases inverted.symm.trans done
    | ok inverse =>
      rw [conclude, kept, inverted]
      exact ⟨fun _ => ⟨inverted, rfl⟩, fun _ _ => rfl⟩
  · have marked : (e.makePosDef prec).status = .madePosDef :=
      ((ErrorMatrix.makePosDefForced (e := e) rows eps2).marked accepted).1
    have made : (e.makePosDef prec).isMadePosDef = true := by
      rw [ErrorMatrix.isMadePosDef, marked]
      rfl
    refine ⟨fun valid => ?_, fun other => absurd other accepted⟩
    rw [conclude] at valid
    dsimp only at valid
    split at valid
    · cases valid
    · rw [if_pos made] at valid
      cases valid

end
end Hessian

theorem Strategy.ofLevelCycles (level : ℕ) : (ofLevel level : Strategy ℝ).hessianCycles ≤ 7 :=
  match level with
  | 0 => by decide
  | 1 => by decide
  | _ + 2 => le_refl 7

/- A matrix that is accepted and rises along each coordinate has an inverse. -/
theorem ErrorMatrix.Accepted.invertible {h : Symmetric ℝ} {prec : Precision ℝ}
    (accepted : Accepted h prec) (rows : 0 < h.size) (positive : ∀ i < h.size, 0 < h.element i i) :
    ∃ inverse, h.invert = .ok inverse := by
  have definite : (h.matrix h.size).PosDef := by
    by_cases one : h.size = 1
    · rw [one]
      exact Symmetric.onlyDefinite (positive 0 rows)
    · exact spectrumDefinite positive (accepted.spectrum (by omega))
  exact Symmetric.invertFound rfl definite

namespace Surface
variable {s : Surface ℝ} {h : Symmetric ℝ} {b : Array ℝ} {c : ℝ} {k : Knowledge ℝ} {fits : Prop}
  (rows : 0 < h.size) (plain : s.Plain h.size) (quadratic : s.objective.Quadratic h b c)
  (eps2 : 0 ≤ s.precision.eps2) (size : k.point.x.size = h.size)
include rows plain quadratic eps2 size

theorem quadraticYields {st : Strategy ℝ} (cycles : 0 < st.hessianCycles) (few : st.hessianCycles ≤ 7)
    (full : fits → k.gradient.Full h.size) (limit : ℕ) (t : Trace ℝ)
    (countable : fits → Count.fits (k.calls + (t.calls + Hessian.mostCalls st h.size)) = true) :
    Yields fits (s.secondDerivatives st k limit) t (Hessian.mostCalls st h.size) fun next =>
      (next.error.status = .valid → h.invert = .ok next.error.inverse) ∧
        (limit = 0 → Hessian.Ready k s.precision h.size h.element →
          ErrorMatrix.Accepted h s.precision → next.error.status = .valid) := by
  have some : ¬ k.size = 0 := by
    rw [Knowledge.size, size]
    exact rows.ne'
  have again : .build h.size h.element = h :=
    Symmetric.sameElements rfl fun i j col row => Symmetric.elementBuild _ col row
  have room : t.calls + 1 + h.size * (st.hessianCycles * 10) ≤ t.calls + defaultBudget k.size := by
    have all := Nat.mul_le_mul_left h.size (Nat.mul_le_mul_right 10 few)
    rw [Knowledge.size, size, defaultBudget]
    omega
  rw [secondDerivatives, if_neg some]
  refine .counting (.bind (n := Hessian.mostCalls st h.size) (k := 0)
    (Hessian.matrixYields plain size full (quadratic.quadric size) eps2 cycles t) ?_)
  rintro found u ⟨exact, finds⟩ spent
  rw [again] at exact
  refine .counting (.expect (fun fit => Count.fitsBelow (by omega) (countable fit)) fun v _ => ?_)
  cases found with
  | error _ =>
    refine .expect (fun _ => rfl) fun w _ => .pure ⟨fun valid => ?_, fun default ready _ => ?_⟩
    · cases valid
    · subst default
      obtain ⟨_, _, done⟩ := finds ready room
      cases done
  | ok found =>
    obtain ⟨m, g⟩ := found
    obtain ⟨rfl, width⟩ := exact m g rfl
    obtain ⟨only, all⟩ := Hessian.concludeExact rows eps2 k (u.calls - t.calls) g
    refine .expect (fun fit => ?_) fun w _ => .pure ⟨fun valid => (only valid).1, fun _ ready accepted => ?_⟩
    · rw [Bool.or_eq_true, Bool.not_eq_true', ErrorMatrix.isValid, beq_eq_false_iff_ne,
        or_iff_not_imp_left, not_not]
      intro valid
      obtain ⟨inverted, gradient⟩ := only valid
      refine ErrorMatrix.coversSame ?_
      rw [gradient, width fit, Symmetric.sizeInvert inverted]
    · exact all accepted (accepted.invertible rows fun i inside => (ready.wide i inside).curved eps2)

/- Second derivatives of a quadratic objective, at any point and begun with any gradient. What they need
is there, if the gradient has as many entries as there are coordinates. An inverse that is called valid is
the inverse of the matrix of the objective. With the default budget, and steps of a numerical gradient from
which each rise can be seen, it is called valid as soon as the matrix is accepted. -/
theorem secondDerivativesQuadratic (level limit : ℕ) (t : Trace ℝ) :
    ∃ next u, (s.secondDerivatives (.ofLevel level) k limit).run t = (next, u) ∧
      (k.gradient.Full h.size →
        Count.fits (k.calls + (t.calls + Hessian.mostCalls (.ofLevel level) h.size)) →
          u.sound = t.sound) ∧
      (next.error.status = .valid → next.error.inverse.size = h.size ∧
        h.matrix h.size * next.error.inverse.matrix h.size = 1) ∧
      (limit = 0 → k.gradient.valid = true → k.gradient.provided = false →
        (∀ i < h.size,
          2 * s.precision.eps2 < h.element i i * (10 ^ 4 * entry k.gradient.steps i) ^ 2) →
        ErrorMatrix.Accepted h s.precision → next.error.status = .valid) := by
  obtain ⟨⟨only, all⟩, -, sound⟩ := quadraticYields rows plain quadratic eps2 size
    (Strategy.ofLevelSensible level).hessian (Strategy.ofLevelCycles level) And.left limit t And.right
  refine ⟨_, _, rfl, fun full fit => sound ⟨full, fit⟩, fun valid => ?_, ?_⟩
  · have inverted := only valid
    exact ⟨Symmetric.sizeInvert inverted, mul_eq_one_comm.mp (Symmetric.invertExact rfl inverted)⟩
  · intro default valid own wide accepted
    refine all default ⟨valid, own, fun i inside => ⟨?_⟩⟩ accepted
    have here := wide i inside
    rw [mul_pow] at here
    rw [mul_pow, sq_abs]
    linarith

end Surface

/- Two rows that lean away from each other, looked at from a corner with steps of one. -/
theorem Surface.secondDerivativesQuadraticLeaning :
    let h : Symmetric ℝ := ErrorMatrix.crossed 2 2 0.5
    let f : Objective ℝ := { Objective.plain (fun x => h.quadratic x / 2 + Vector.dot #[0, 1] x + 3) with
      reads := fun _ => 2 }
    let s : Surface ℝ := ⟨f, 1, .numbered #[0, 0] #[1, 1] 2⟩
    let k : Knowledge ℝ := ⟨.plain #[1, 1] (f.value #[1, 1]), .missing 2,
      .numerical #[7, 7] #[0, 0] #[1, 1], 0, 0⟩
    ∃ next u, (s.secondDerivatives (.ofLevel 1) k 0).run? {} = some (next, u) ∧
      next.error.status = .valid ∧ !![2, -1; -1, 2] * next.error.inverse.matrix 2 = 1 := by
  intro h f s k
  have precision : s.precision.eps2 = 2⁻¹ ^ 24 := machineEps2
  have square : h.matrix 2 = !![2, -1; -1, 2] := by
    ext i j
    refine (ErrorMatrix.crossedElement 2 0.5 i.isLt j.isLt).trans ?_
    fin_cases i <;> fin_cases j <;> norm_num
  have diagonal {i : ℕ} (inside : i < h.size) : h.element i i = 2 :=
    ErrorMatrix.crossedDiagonal 2 0.5 inside
  have plain : s.Plain h.size := ⟨Space.numberedPlain _ _ _, fun _ _ => le_refl 2⟩
  have quadratic : s.objective.Quadratic h #[0, 1] 3 := ⟨rfl, fun _ _ => rfl⟩
  have wide (i : ℕ) (inside : i < h.size) :
      2 * s.precision.eps2 < h.element i i * (10 ^ 4 * entry k.gradient.steps i) ^ 2 := by
    have one : entry k.gradient.steps i = 1 := by
      have below : i < 2 := inside
      interval_cases i <;> rfl
    rw [one, precision, diagonal inside]
    norm_num
  have accepted : ErrorMatrix.Accepted h s.precision := by
    have ends : ErrorMatrix.least h = 1 + 0.5 - (2 : ℕ) * 0.5 ∧ ErrorMatrix.largest h = 1 + 0.5 :=
      ErrorMatrix.crossedEnds two_pos one_lt_two (by norm_num)
    refine ⟨fun one => absurd one (by decide), fun _ i inside => ?_, fun _ => ?_⟩
    · rw [precision, diagonal inside]
      norm_num
    · rw [ends.1, ends.2, ErrorMatrix.floor, Exact.max, precision]
      norm_num
  obtain ⟨next, u, run, sound, exact, found⟩ := secondDerivativesQuadratic (k := k) two_pos plain quadratic
    (precision ▸ by positivity) rfl 1 0 {}
  have valid := found rfl rfl rfl wide accepted
  refine ⟨next, u, Eval.runAnswers.mpr ⟨run, sound ⟨rfl, rfl, rfl⟩ (by decide)⟩, valid, ?_⟩
  rw [← square]
  exact (exact valid).2

end ParamFit
