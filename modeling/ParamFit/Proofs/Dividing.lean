import ParamFit.Proofs.Fitting

/-! Second derivatives whose differences divide under a check. The program is the one that divides
freely, but a zero denominator ends it without an answer. It always has one: distances are positive from
the first on, a rise that is found is positive, and so is the curvature it shows; what was found along two
coordinates is positive when their mixed derivative is divided by it. Gradients and inverses are found
as ever, and what stands in for an inverse tests its own denominators. -/
namespace ParamFit
variable {α β γ : Type}

/- A computation that may end without an answer. -/
abbrev Checked (α β : Type) := OptionT (Eval α) β

namespace Checked
section
variable [Scalar α]

/- A step without a division. -/
def free (m : Eval α β) : Checked α β := OptionT.lift m

def divide (a b : α) : Checked α α := if b == 0 then failure else pure (a / b)

def ofRise (r : Hessian.Rise α) : Checked α (Hessian.Ruler α) := do
  let slope ← divide (r.ahead - r.behind) (2.0 * r.distance)
  let curvature ← divide (2.0 * r.rise) (r.distance * r.distance)
  return ⟨slope, curvature, r.distance, r.distance, r.ahead⟩

def aimedDistance (h : Hessian.Site α) (k : Nat) (curvature : α) : Checked α α := do
  let square ← divide (2.0 * h.aim) (Scalar.abs curvature)
  let d := Scalar.sqrt square
  let d := if h.surface.isLimited k then Scalar.min d 0.5 else d
  return if d < Hessian.leastDistance h k then Hessian.leastDistance h k else d

/- The second test divides only where the first one fails. -/
def isSettled (h : Hessian.Site α) (r new : Hessian.Ruler α) (next : α) : Checked α Bool := do
  let step ← divide (next - new.reach) next
  if Scalar.abs step < h.strategy.hessianStepTolerance then return true
  else
    let change ← divide (new.curvature - r.curvature) new.curvature
    return decide (Scalar.abs change < h.strategy.hessianCurvatureTolerance)

def measure (h : Hessian.Site α) (k : Nat) (r : Hessian.Ruler α) (d : α) :
    Nat → Checked α (Hessian.Ruler α × Bool)
  | 0 => return (r, true)
  | cycles + 1 => do
    match ← free (Hessian.findRise h k d 5) with
    | none => return (r, false)
    | some rise =>
      free (Eval.expect (k < h.start.curvatures.size && k < h.start.slopes.size))
      let new ← ofRise rise
      let next ← aimedDistance h k new.curvature
      if ← isSettled h r new next then return (new, true)
      else
        measure h k new (Scalar.max (Scalar.min next (10.0 * new.reach)) (0.1 * new.reach)) cycles

def measureAll (h : Hessian.Site α) (limit before : Nat) (rulers : Array (Hessian.Ruler α)) :
    List Nat → Checked α (Array (Hessian.Ruler α) × Option HessianFailure)
  | [] => return (rulers, none)
  | k :: rest => do
    free (Eval.expect (k < h.start.steps.size))
    let r := rulers.getD k ⟨0, 0, 0, 0, 0⟩
    let d := Scalar.max (Scalar.abs r.step) (Hessian.leastDistance h k)
    let (r, found) ← measure h k r d h.strategy.hessianCycles
    let rulers := rulers.setIfInBounds k r
    if !found then return (rulers, some (.flat k))
    else
      free (Eval.expect (k < h.start.curvatures.size))
      if limit < (← free Eval.calls) - before then return (rulers, some (.callLimit limit))
      else measureAll h limit before rulers rest

def mixRow (h : Hessian.Site α) (rulers : Array (Hessian.Ruler α)) (i : Nat) (x : Array α)
    (m : Symmetric α) : List Nat → Checked α (Array α × Symmetric α)
  | [] => return (x, m)
  | j :: rest => do
    let x := Hessian.shift x j (Hessian.reachOf rulers j)
    let value ← free (h.surface.value x)
    let mixed ← divide (value + h.value - Hessian.aheadOf rulers i - Hessian.aheadOf rulers j)
      (Hessian.reachOf rulers i * Hessian.reachOf rulers j)
    mixRow h rulers i (x.setIfInBounds j (entry x j - Hessian.reachOf rulers j)) (m.set i j mixed) rest

def mixAll (h : Hessian.Site α) (rulers : Array (Hessian.Ruler α)) (x : Array α) (m : Symmetric α) :
    List Nat → Checked α (Symmetric α)
  | [] => return m
  | i :: rest => do
    let (x, m) ← mixRow h rulers i (Hessian.shift x i (Hessian.reachOf rulers i)) m
      ((List.range h.x.size).filter (i < ·))
    mixAll h rulers (x.setIfInBounds i (entry x i - Hessian.reachOf rulers i)) m rest

end

section
variable [Spectral α]

def matrix (s : Surface α) (st : Strategy α) (k : Knowledge α) (limit before : Nat) :
    Checked α (Except (HessianFailure × Array α) (Symmetric α × Gradient α)) := do
  let start ← free (Hessian.startGradient s k)
  let value ← free (s.value k.point.x)
  let aim := Scalar.sqrt s.precision.eps2 * (Scalar.abs value + s.errorDef)
  let h : Hessian.Site α := ⟨s, st, k.point.x, value, aim, start⟩
  let (rulers, failure) ← measureAll h limit before (Hessian.begin h) (List.range k.size)
  let found := Hessian.gradientOf h rulers
  match failure with
  | some f => return .error (f, found.curvatures)
  | none =>
    let g ← free (Hessian.slopes h k found)
    let diagonal := Symmetric.ofDiagonal (rulers.map (·.curvature))
    let m ← mixAll h rulers k.point.x diagonal (List.range k.size)
    return .ok (m, g)

def secondDerivatives (s : Surface α) (st : Strategy α) (k : Knowledge α) (limit : Nat) :
    Checked α (Knowledge α) := do
  if k.size = 0 then return k
  else
    let limit := if limit = 0 then defaultBudget k.size else limit
    let before ← free Eval.calls
    let found ← matrix s st k limit before
    let calls ← free Eval.calls
    free (Eval.expect (Count.fits (k.calls + calls)))
    let next := Hessian.conclude k s.precision (calls - before) found
    free (Eval.expect (!next.error.isValid || next.error.covers next.gradient))
    return next

end
end Checked

/-! ### No check fails -/

/- A checked computation that has the answer of an unchecked one, and does the same to any trace. -/
structure Agrees (c : Checked α β) (m : Eval α β) : Prop where
  run (t : Trace α) : c.run.run t = (some (m.run t).1, (m.run t).2)

namespace Agrees

theorem pure (b : β) : Agrees (Pure.pure b : Checked α β) (Pure.pure b) := ⟨fun _ => rfl⟩

theorem free (m : Eval α β) : Agrees (Checked.free m) m := ⟨fun _ => rfl⟩

theorem runBind {c : Checked α β} {m : Eval α β} (first : Agrees c m) (g : β → Checked α γ)
    (t : Trace α) : (c >>= g).run.run t = (g (m.run t).1).run.run (m.run t).2 := by
  rw [OptionT.run_bind, Option.elimM, Eval.runBind, first.run t]
  rfl

theorem bind {c : Checked α β} {m : Eval α β} {g : β → Checked α γ} {f : β → Eval α γ}
    {post : β → Prop} (first : Agrees c m) (known : Gives m post)
    (rest : ∀ b, post b → Agrees (g b) (f b)) : Agrees (c >>= g) (m >>= f) where
  run t := (first.runBind g t).trans ((rest _ (known.answer t)).run (m.run t).2)

theorem bindAny {c : Checked α β} {m : Eval α β} {g : β → Checked α γ} {f : β → Eval α γ}
    (first : Agrees c m) (rest : ∀ b, Agrees (g b) (f b)) : Agrees (c >>= g) (m >>= f) :=
  bind first (givesAny m) fun b _ => rest b

/- A step that asks nothing is one that an unchecked computation has no step for. -/
theorem settled {c : Checked α β} {b : β} {g : β → Checked α γ} {m : Eval α γ}
    (first : Agrees c (Pure.pure b)) (rest : Agrees (g b) m) : Agrees (c >>= g) m :=
  bind first (.pure rfl) fun _ same => same ▸ rest

theorem ite {p : Prop} [Decidable p] {c d : Checked α β} {m n : Eval α β}
    (yes : p → Agrees c m) (no : ¬ p → Agrees d n) :
    Agrees (if p then c else d) (if p then m else n) := by
  split
  case isTrue holds => exact yes holds
  case isFalse fails => exact no fails

theorem divide (a : ℝ) {b : ℝ} (some : b ≠ 0) : Agrees (Checked.divide a b) (Pure.pure (a / b)) := by
  rw [Checked.divide, if_neg (by simpa using some)]
  exact .pure _

end Agrees

namespace Hessian
variable {h : Site ℝ}

theorem curvaturePositive {r : Rise ℝ} (distance : 0 < r.distance) (rise : 0 < r.rise) :
    0 < (Ruler.ofRise r).curvature :=
  div_pos (mul_pos (by norm_num) rise) (mul_pos distance distance)

theorem ofRiseAgrees {r : Rise ℝ} (distance : 0 < r.distance) :
    Agrees (Checked.ofRise r) (pure (Ruler.ofRise r)) :=
  .settled (.divide _ (mul_pos (by norm_num) distance).ne') <|
    .settled (.divide _ (mul_pos distance distance).ne') (.pure _)

theorem aimedDistanceAgrees (k : ℕ) {curvature : ℝ} (curved : 0 < curvature) :
    Agrees (Checked.aimedDistance h k curvature) (pure (aimedDistance h k curvature)) :=
  .settled (.divide _ (abs_pos.mpr curved.ne').ne') (.pure _)

/- The distance of the next cycle is a part of the last one at least. -/
theorem closerPositive (r : Rise ℝ) (distance : 0 < r.distance) (next : ℝ) :
    0 < Scalar.max (Scalar.min next (10.0 * (Ruler.ofRise r).reach)) (0.1 * (Ruler.ofRise r).reach) := by
  rw [Exact.max]
  exact lt_max_of_lt_right (mul_pos (by norm_num) distance)

theorem isSettledAgrees (r : Ruler ℝ) {new : Ruler ℝ} {next : ℝ} (far : 0 < next)
    (curved : 0 < new.curvature) : Agrees (Checked.isSettled h r new next)
      (pure (decide (Scalar.abs ((next - new.reach) / next) < h.strategy.hessianStepTolerance ∨
        Scalar.abs ((new.curvature - r.curvature) / new.curvature) <
          h.strategy.hessianCurvatureTolerance))) := by
  refine .settled (.divide _ far.ne') ?_
  split
  case isTrue close =>
    rw [decide_eq_true (.inl close)]
    exact .pure _
  case isFalse apart =>
    refine .settled (.divide _ curved.ne') ?_
    rw [decide_eq_decide.mpr (or_iff_right apart)]
    exact .pure _

theorem mixRowAgrees {rulers : Array (Ruler ℝ)} {i : ℕ} (here : 0 < reachOf rulers i) (x : Array ℝ)
    (m : Symmetric ℝ) {js : List ℕ} (there : ∀ j ∈ js, 0 < reachOf rulers j) :
    Agrees (Checked.mixRow h rulers i x m js) (mixRow h rulers i x m js) := by
  induction js generalizing x m with
  | nil => exact .pure _
  | cons j rest ih =>
    obtain ⟨far, others⟩ := List.forall_mem_cons.mp there
    refine .bindAny (.free _) fun value => .settled (.divide _ (mul_pos here far).ne') ?_
    exact ih _ _ others

theorem mixAllAgrees {rulers : Array (Ruler ℝ)} (there : ∀ j < h.x.size, 0 < reachOf rulers j)
    (x : Array ℝ) (m : Symmetric ℝ) {is : List ℕ} (inside : ∀ i ∈ is, i < h.x.size) :
    Agrees (Checked.mixAll h rulers x m is) (mixAll h rulers x m is) := by
  induction is generalizing x m with
  | nil => exact .pure _
  | cons i rest ih =>
    obtain ⟨here, others⟩ := List.forall_mem_cons.mp inside
    refine .bindAny (mixRowAgrees (there i here) _ _ fun j among => there j ?_) fun row => ih _ _ others
    exact List.mem_range.mp (List.mem_filter.mp among).1

theorem reachSet {rulers : Array (Ruler ℝ)} {k : ℕ} (inside : k < rulers.size) (r : Ruler ℝ) (j : ℕ) :
    reachOf (rulers.setIfInBounds k r) j = if k = j then r.reach else reachOf rulers j := by
  rw [reachOf, Array.getElem?_setIfInBounds, if_pos inside]
  split <;> rfl

section
variable (eps2 : 0 < (precision h).eps2)
include eps2

theorem leastDistancePositive (k : ℕ) : 0 < leastDistance h k := by
  have far : 0 < |entry h.x k| + (precision h).eps2 := add_pos_of_nonneg_of_pos (abs_nonneg _) eps2
  exact mul_pos (mul_pos (by norm_num) eps2) far

theorem firstDistancePositive (step : ℝ) (k : ℕ) :
    0 < Scalar.max (Scalar.abs step) (leastDistance h k) := by
  rw [Exact.max]
  exact lt_max_of_lt_right (leastDistancePositive eps2 k)

theorem aimedDistancePositive (k : ℕ) (curvature : ℝ) : 0 < aimedDistance h k curvature := by
  have least (d : ℝ) : 0 < if d < leastDistance h k then leastDistance h k else d := by
    split
    case isTrue => exact leastDistancePositive eps2 k
    case isFalse far => exact (leastDistancePositive eps2 k).trans_le (not_lt.mp far)
  exact least _

theorem findRisePositive (k : ℕ) {d : ℝ} (positive : 0 < d) (tries : ℕ) :
    Gives (findRise h k d tries) fun found => ∀ r, found = some r → 0 < r.distance ∧ 0 < r.rise := by
  induction tries generalizing d with
  | zero => exact .pure nofun
  | succ tries ih =>
    refine .bindAny (givesAny _) fun ahead => .bindAny (givesAny _) fun behind => ?_
    refine .ite (fun risen => .pure ?_) fun _ => ?_
    · rintro _ ⟨⟩
      exact ⟨positive, eps2.trans risen⟩
    · have farther : 0 < d * 10.0 := mul_pos positive (by norm_num)
      refine .ite (fun _ => .ite (fun _ => .pure nofun) fun _ => ih ?_) fun _ => ih farther
      rw [Exact.min]
      exact lt_min farther (by norm_num)

theorem measureAgrees (k : ℕ) (r : Ruler ℝ) {d : ℝ} (positive : 0 < d) (cycles : ℕ) :
    Agrees (Checked.measure h k r d cycles) (measure h k r d cycles) := by
  induction cycles generalizing r d with
  | zero => exact .pure _
  | succ cycles ih =>
    refine .bind (.free _) (findRisePositive eps2 k positive 5) fun found shows => ?_
    cases found with
    | none => exact .pure _
    | some rise =>
      obtain ⟨distance, high⟩ := shows rise rfl
      have curved := curvaturePositive distance high
      have far := aimedDistancePositive eps2 k (Ruler.ofRise rise).curvature
      refine .bindAny (.free _) fun _ => .settled (ofRiseAgrees distance) ?_
      refine .settled (aimedDistanceAgrees k curved) (.settled (isSettledAgrees r far curved) ?_)
      simp only [decide_eq_true_eq]
      exact .ite (fun _ => .pure _) fun _ => ih _ (closerPositive rise distance _)

theorem measureAllAgrees (limit before : ℕ) (rulers : Array (Ruler ℝ)) (ks : List ℕ) :
    Agrees (Checked.measureAll h limit before rulers ks) (measureAll h limit before rulers ks) := by
  induction ks generalizing rulers with
  | nil => exact .pure _
  | cons k rest ih =>
    have start := firstDistancePositive eps2 (rulers.getD k ⟨0, 0, 0, 0, 0⟩).step k
    refine .bindAny (.free _) fun _ => .bindAny (measureAgrees eps2 k _ start _) fun ⟨r, found⟩ => ?_
    refine .ite (fun _ => .pure _) fun _ => .bindAny (.free _) fun _ => .bindAny (.free _) fun _ => ?_
    exact .ite (fun _ => .pure _) fun _ => ih _

/-! ### What was measured -/

theorem measureReaches (k : ℕ) {r : Ruler ℝ} {d : ℝ} (positive : 0 < d) {cycles : ℕ}
    (some : 0 < r.reach ∨ 0 < cycles) :
    Gives (measure h k r d cycles) fun found => found.2 = true → 0 < found.1.reach := by
  induction cycles generalizing r d with
  | zero => exact .pure fun _ => some.resolve_right (lt_irrefl 0)
  | succ cycles ih =>
    refine .bind (findRisePositive eps2 k positive 5) fun found shows => ?_
    cases found with
    | none => exact .pure nofun
    | some rise =>
      have distance := (shows rise rfl).1
      refine .expect (.ite (fun _ => .pure fun _ => distance) fun _ => ?_)
      exact ih (closerPositive rise distance _) (.inl distance)

/- Where no failure is reported, everything was measured, and what was measured before still is. -/
theorem measureAllReaches (cycles : 0 < h.strategy.hessianCycles) (limit before : ℕ)
    (rulers : Array (Ruler ℝ)) {ks : List ℕ} (inside : ∀ k ∈ ks, k < rulers.size) :
    Gives (measureAll h limit before rulers ks) fun found => found.2 = none →
      (∀ j, 0 < reachOf rulers j → 0 < reachOf found.1 j) ∧ ∀ k ∈ ks, 0 < reachOf found.1 k := by
  induction ks generalizing rulers with
  | nil => exact .pure fun _ => ⟨fun _ => id, nofun⟩
  | cons k rest ih =>
    obtain ⟨here, others⟩ := List.forall_mem_cons.mp inside
    have start := firstDistancePositive eps2 (rulers.getD k ⟨0, 0, 0, 0, 0⟩).step k
    refine .expect (.bind (measureReaches eps2 k start (.inr cycles)) fun ⟨r, found⟩ reaches => ?_)
    refine .ite (fun _ => .pure nofun) fun measured => .expect (.counting fun _ => ?_)
    have far : 0 < r.reach := reaches (by simpa using measured)
    refine .ite (fun _ => .pure nofun) fun _ => ?_
    have left : ∀ j ∈ rest, j < (rulers.setIfInBounds k r).size := by
      rw [Array.size_setIfInBounds]
      exact others
    refine (ih _ left).weaken fun out known whole => ?_
    obtain ⟨kept, reached⟩ := known whole
    have after (j : ℕ) (before : 0 < reachOf rulers j ∨ k = j) :
        0 < reachOf (rulers.setIfInBounds k r) j := by
      rw [reachSet here]
      split
      case isTrue => exact far
      case isFalse other => exact before.resolve_right other
    refine ⟨fun j before => kept j (after j (.inl before)), List.forall_mem_cons.mpr ⟨?_, reached⟩⟩
    exact kept k (after k (.inr rfl))

end
end Hessian

namespace Surface
variable {s : Surface ℝ} (eps2 : 0 < s.precision.eps2) {st : Strategy ℝ}
  (cycles : 0 < st.hessianCycles)
include eps2 cycles

theorem matrixAgrees (k : Knowledge ℝ) (limit before : ℕ) :
    Agrees (Checked.matrix s st k limit before) (Hessian.matrix s st k limit before) := by
  refine .bindAny (.free _) fun start => .bindAny (.free _) fun value => ?_
  let aim := Scalar.sqrt s.precision.eps2 * (Scalar.abs value + s.errorDef)
  let h : Hessian.Site ℝ := ⟨s, st, k.point.x, value, aim, start⟩
  have inside : ∀ i ∈ List.range k.size, i < (Hessian.begin h).size := by
    intro i among
    rw [Hessian.begin, size_tabulate]
    exact List.mem_range.mp among
  refine .bind (Hessian.measureAllAgrees (h := h) eps2 _ _ _ _)
    (Hessian.measureAllReaches (h := h) eps2 cycles _ _ _ inside) ?_
  rintro ⟨rulers, failure⟩ reached
  cases failure with
  | some f => exact .pure _
  | none =>
    have there (j : ℕ) (below : j < k.size) := (reached rfl).2 j (List.mem_range.mpr below)
    refine .bindAny (.free _) fun g => .bindAny ?_ fun m => .pure _
    exact Hessian.mixAllAgrees (h := h) there _ _ fun i among => List.mem_range.mp among

/- The differences never divide by zero. -/
theorem secondDerivativesAgrees (k : Knowledge ℝ) (limit : ℕ) :
    Agrees (Checked.secondDerivatives s st k limit) (s.secondDerivatives st k limit) := by
  refine .ite (fun _ => .pure _) fun _ => .bindAny (.free _) fun before => ?_
  refine .bindAny (matrixAgrees eps2 cycles k _ before) fun found => .bindAny (.free _) fun calls => ?_
  exact .bindAny (.free _) fun _ => .bindAny (.free _) fun _ => .pure _

end Surface
end ParamFit
