import ParamFit.Proofs.Settling

/-! Differences at a shrinking distance on both sides of zero. Each look at a point is a look at its mirror
image with the two sides exchanged, so all that is found there is negated and nothing else of it changes.
Only the least distance is another one: it grows with the coordinate and not with its size. Both sides find
the same where no distance that is tried falls between the two. -/
namespace ParamFit
variable {α : Type} [Scalar α]

/-! ### Mirror images -/

namespace Vector

def negate (x : Array α) : Array α := x.map (- ·)

end Vector

def Point.mirror (p : Point α) : Point α :=
  { p with x := Vector.negate p.x, step := Vector.negate p.step }

def Gradient.mirror (g : Gradient α) : Gradient α := { g with slopes := Vector.negate g.slopes }

def Surface.Settling.mirror (r : Surface.Settling α) : Surface.Settling α :=
  { r with slope := -r.slope, older := -r.older, newer := -r.newer }

def Parameter.mirror (p : Parameter α) : Parameter α :=
  { p with value := -p.value, lower := p.upper.map (- ·), upper := p.lower.map (- ·) }

def Space.mirror (s : Space α) : Space α :=
  { s with parameters := s.parameters.map Parameter.mirror, values := Vector.negate s.values }

def Objective.mirror (f : Objective α) : Objective α where
  value y := f.value (Vector.negate y)
  provides := f.provides
  slope i y := -f.slope i (Vector.negate y)
  reads y := f.reads (Vector.negate y)
  slopeReads i y := f.slopeReads i (Vector.negate y)

def Surface.mirror (s : Surface α) : Surface α := ⟨s.objective.mirror, s.errorDef, s.space.mirror⟩

namespace Vector

theorem entryNegate (x : Array ℝ) (k : ℕ) : entry (negate x) k = -entry x k := by
  by_cases inside : k < x.size
  · exact entryMap _ inside
  · rw [entry_outside (not_lt.mp inside), entry_outside (by simpa [negate] using inside), neg_zero]

theorem sizeNegate (x : Array ℝ) : (negate x).size = x.size := Array.size_map ..

theorem negateAgain (x : Array ℝ) : negate (negate x) = x := by
  simp [negate]

theorem negateSet (x : Array ℝ) (k : ℕ) (v : ℝ) :
    negate (x.setIfInBounds k v) = (negate x).setIfInBounds k (-v) := Array.map_setIfInBounds

theorem negateTabulate (n : ℕ) (f : ℕ → ℝ) : negate (tabulate n f) = tabulate n fun k => -f k := by
  simp [negate, tabulate]

end Vector

theorem Gradient.mirrorInjective : Function.Injective (Gradient.mirror : Gradient ℝ → Gradient ℝ) := by
  rintro ⟨slopes, curvatures, steps, valid, provided⟩ ⟨slopes', _, _, _, _⟩ same
  simp only [mirror, Gradient.mk.injEq] at same ⊢
  refine ⟨?_, same.2⟩
  rw [← Vector.negateAgain slopes, same.1, Vector.negateAgain]

/-! ### Values on the other side -/

namespace Space
variable {s : Space ℝ}

theorem writeMirror {limits limits' : ℕ → Limits ℝ} {l : List (ℕ × ℝ)}
    (free : ∀ q ∈ l, limits q.1 = .free ∧ limits' q.1 = .free) (values : Array ℝ) :
    write limits' (l.map (Prod.map id (- ·))) (Vector.negate values) =
      Vector.negate (write limits l values) := by
  induction l generalizing values with
  | nil => rfl
  | cons q l ih =>
    obtain ⟨here, there⟩ := free q (.head _)
    have both : (limits' q.1).toExternal (-q.2) = -(limits q.1).toExternal q.2 := by rw [here, there]; rfl
    refine Eq.trans ?_ (ih (fun q among => free q (.tail _ among)) _)
    rw [Vector.negateSet, ← both]
    rfl

theorem parameterMirror (s : Space ℝ) (i : ℕ) : s.mirror.parameterAt i = (s.parameterAt i).mirror := by
  rw [parameterAt, parameterAt, Array.getD_eq_getD_getElem?, Array.getD_eq_getD_getElem?]
  change ((s.parameters.map Parameter.mirror)[i]?).getD _ = _
  rw [Array.getElem?_map]
  cases s.parameters[i]? with
  | some p => rfl
  | none => simp [Parameter.mirror]

theorem limitsMirror {i : ℕ} (free : (s.parameterAt i).limits = .free) :
    (s.mirror.parameterAt i).limits = .free := by
  obtain ⟨lower, upper⟩ := Parameter.freeLimits.mp free
  rw [parameterMirror, Parameter.freeLimits, Parameter.mirror, lower, upper]
  exact ⟨rfl, rfl⟩

def Unlimited (s : Space ℝ) : Prop := ∀ k < s.dimension, s.limits k = .free

theorem Unlimited.free (unlimited : s.Unlimited) {i : ℕ} (among : i ∈ s.free) :
    (s.parameterAt i).limits = .free := by
  obtain ⟨k, inside, rfl⟩ := List.getElem_of_mem among
  have here := unlimited k inside
  rwa [limits, place, List.getD_eq_getElem _ _ inside] at here

theorem externalMirror (unlimited : s.Unlimited) (x : Array ℝ) :
    s.mirror.external (Vector.negate x) = Vector.negate (s.external x) := by
  have pairs : s.free.zip (Vector.negate x).toList = (s.free.zip x.toList).map (Prod.map id (- ·)) := by
    rw [Vector.negate, Array.toList_map, List.zip_map_right]
  rw [externalWrite, externalWrite]
  change write _ (s.free.zip (Vector.negate x).toList) (Vector.negate s.values) = _
  rw [pairs]
  refine writeMirror (fun q among => ?_) _
  have free := unlimited.free (List.of_mem_zip among).1
  exact ⟨free, limitsMirror free⟩

end Space

namespace Surface
variable {s : Surface ℝ}

theorem worthMirror (unlimited : s.space.Unlimited) (x : Array ℝ) :
    s.mirror.worth (Vector.negate x) = s.worth x := by
  change s.objective.value (Vector.negate (s.mirror.space.external (Vector.negate x))) = _
  rw [show s.mirror.space = s.space.mirror from rfl, Space.externalMirror unlimited, Vector.negateAgain]
  rfl

theorem Answers.mirror {x : Array ℝ} (answers : s.Answers x) (unlimited : s.space.Unlimited) :
    s.mirror.Answers (Vector.negate x) := by
  refine ⟨?_, ?_⟩
  · rw [Vector.sizeNegate]
    exact answers.1
  · change s.objective.reads (Vector.negate (s.space.mirror.external (Vector.negate x))) ≤
      (s.space.mirror.external (Vector.negate x)).size
    rw [Space.externalMirror unlimited, Vector.negateAgain, Vector.sizeNegate]
    exact answers.2

theorem Readable.mirror (readable : s.Readable) (unlimited : s.space.Unlimited) : s.mirror.Readable :=
  fun x size => by
    have answers := readable (Vector.negate x) ((Vector.sizeNegate x).trans size)
    rw [← Vector.negateAgain x]
    exact answers.mirror unlimited

end Surface

/-! ### Shrinking differences of two sides -/

namespace Surface

namespace Settling

/- One look at both sides, and the relative change of the slope unless it has settled. -/
def look (eps : α) (r : Settling α) (d change : α) (round : Nat) (ahead behind : α) :
    Settling α × Option α :=
  let older := r.slope
  let newer := (ahead - behind) / (2.0 * d)
  let rounding := eps * (Scalar.abs ahead + Scalar.abs behind) / d
  let moved := Scalar.abs ((older - newer) / newer)
  if Scalar.abs newer < eps ∨ moved > change ∧ 1 < round then
    ({ r with older, newer, rounding }, none)
  else
    (⟨newer, older, newer, rounding⟩,
      if moved < 0.05 ∨ Scalar.abs (older - newer) < rounding then none else some moved)

/- Looks at a shrinking distance, given the values ahead and behind at every distance. -/
def shrink (eps least : α) (ahead behind : α → α) (r : Settling α) (d change : α) (round : Nat) :
    Nat → Settling α
  | 0 => r
  | cycles + 1 =>
    match r.look eps d change round (ahead d) (behind d) with
    | (r, none) => r
    | (r, some moved) =>
      if d < least then r else shrink eps least ahead behind r (d * 0.2) moved (round + 1) cycles

end Settling

def sideAhead (s : Surface α) (p : Point α) (k : Nat) (d : α) : α :=
  s.worth (p.x.setIfInBounds k (entry p.x k + d))

def sideBehind (s : Surface α) (p : Point α) (k : Nat) (d : α) : α :=
  s.worth (p.x.setIfInBounds k (entry p.x k - d))

theorem settleLook (s : Surface α) (p : Point α) (k : ℕ) (least : α) (r : Settling α) (d change : α)
    (round cycles : ℕ) : s.settle p k least r d change round (cycles + 1) = (do
      let ahead ← s.valueWith p.x k (entry p.x k + d)
      let behind ← s.valueWith p.x k (entry p.x k - d)
      match r.look s.precision.eps d change round ahead behind with
      | (r, none) => return r
      | (r, some moved) =>
        if d < least then return r else s.settle p k least r (d * 0.2) moved (round + 1) cycles) := by
  rw [settle]
  refine congrArg (_ >>= ·) (funext fun ahead => congrArg (_ >>= ·) (funext fun behind => ?_))
  rw [Settling.look]
  dsimp only
  generalize (ahead - behind) / (2.0 * d) = newer
  generalize Scalar.abs ((r.slope - newer) / newer) = moved
  generalize Scalar.abs (r.slope - newer) = apart
  by_cases flat : Scalar.abs newer < s.precision.eps
  · rw [if_pos flat, if_pos (.inl flat)]
  by_cases grown : moved > change ∧ 1 < round
  · rw [if_neg flat, if_pos grown, if_pos (.inr grown)]
  rw [if_neg flat, if_neg grown, if_neg (not_or.mpr ⟨flat, grown⟩)]
  by_cases settled : moved < 0.05 ∨ apart < s.precision.eps * (Scalar.abs ahead + Scalar.abs behind) / d
  · rw [if_pos (or_assoc.mp (.inl settled))]
    simp only [if_pos settled]
  · simp only [← or_assoc, settled, false_or, if_false]

theorem settleYields {s : Surface α} {fits : Prop} {p : Point α}
    (answers : fits → ∀ x : Array α, x.size = p.x.size → s.Answers x) (k : ℕ) (least : α) (r : Settling α)
    (d change : α) (round cycles : ℕ) (t : Trace α) :
    Yields fits (s.settle p k least r d change round cycles) t (2 * cycles)
      (· = r.shrink s.precision.eps least (s.sideAhead p k) (s.sideBehind p k) d change round cycles) := by
  have one (v : α) (u : Trace α) :
      Yields fits (s.valueWith p.x k v) u 1 (· = s.worth (p.x.setIfInBounds k v)) :=
    valueYields (fun fit => answers fit _ Array.size_setIfInBounds) u
  induction cycles generalizing r d change round t with
  | zero => exact .pure rfl
  | succ cycles ih =>
    rw [settleLook, Settling.shrink, show 2 * (cycles + 1) = 1 + (1 + 2 * cycles) by omega]
    refine .bind (one _ t) ?_
    rintro ahead u rfl _
    refine .bind (one _ u) ?_
    rintro behind v rfl _
    change Yields fits (match r.look _ d change round (s.sideAhead p k d) (s.sideBehind p k d) with
      | (r, none) => _
      | (r, some moved) => _) v _ _
    cases r.look s.precision.eps d change round (s.sideAhead p k d) (s.sideBehind p k d) with
    | mk r moved =>
      cases moved with
      | none => exact .pure rfl
      | some moved =>
        refine .ite (fun short => .pure (if_pos short).symm) fun far => ?_
        exact .weaken (ih _ _ _ _ v) (le_refl _) fun r found => found.trans (if_neg far).symm

/- What the differences along a coordinate settle to. -/
def settling (s : Surface α) (st : Strategy α) (p : Point α) (g : Gradient α) (k : Nat) : Settling α :=
  let (d, least) := s.settleDistance p k (Axis.ofGradient g k)
  Settling.shrink s.precision.eps least (s.sideAhead p k) (s.sideBehind p k) ⟨entry g.slopes k, 0, 0, 0⟩ d
    10000.0 0 st.hessianGradientCycles

/- A gradient and its doubts, of what has settled along the coordinates. -/
def Settling.told (g : Gradient α) (n : Nat) (r : Nat → Settling α) : Gradient α × Array α :=
  (.numerical (tabulate n fun k => (r k).slope) g.curvatures g.steps, tabulate n fun k => (r k).doubt)

/- The slopes and doubts that refining finds are those that the differences settle to. -/
theorem refinedSettles {s : Surface ℝ} {n : ℕ} {fits : Prop} {p : Point ℝ} {g : Gradient ℝ}
    (size : p.x.size = n) (full : g.Full n)
    (answers : fits → ∀ x : Array ℝ, x.size = p.x.size → s.Answers x) (st : Strategy ℝ) (t : Trace ℝ) :
    Yields fits (s.refined st p g) t (n * (2 * st.hessianGradientCycles))
      (· = Settling.told g n (s.settling st p g)) := by
  refine .expect (fun _ => by simp [size, full.slopes, full.curvatures, full.steps]) fun u _ => ?_
  rw [size]
  refine .map (.weaken (.tabulate (fun k r => r = s.settling st p g k) fun k inside u =>
    settleYields answers k _ _ _ _ _ _ u) (le_refl _) fun settled ⟨width, known⟩ => ?_)
  have slopes : Vector.overlay g.slopes (settled.map (·.slope)) = settled.map (·.slope) :=
    Vector.overlaySame (by rw [full.slopes, Array.size_map, width])
  rw [slopes, tabulateKnown width fun k r found => congrArg Settling.slope (known k r found),
    tabulateKnown width fun k r found => congrArg Settling.doubt (known k r found)]
  rfl

/-! ### One distance, two sides -/

theorem Settling.lookMirror (eps : ℝ) (r : Settling ℝ) (d change : ℝ) (round : ℕ) (ahead behind : ℝ) :
    r.mirror.look eps d change round behind ahead =
      ((r.look eps d change round ahead behind).1.mirror, (r.look eps d change round ahead behind).2) := by
  have newer : (behind - ahead) / (2.0 * d) = -((ahead - behind) / (2.0 * d)) := by
    rw [← neg_div, neg_sub]
  have rounding : eps * (|behind| + |ahead|) / d = eps * (|ahead| + |behind|) / d := by
    rw [add_comm |behind|]
  have apart : -r.slope - -((ahead - behind) / (2.0 * d)) = -(r.slope - (ahead - behind) / (2.0 * d)) := by
    rw [neg_sub_neg, neg_sub]
  simp only [look, mirror, Exact.abs, Exact.add, Exact.sub, Exact.mul, Exact.div, Exact.neg, newer, rounding,
    apart, abs_neg, neg_div_neg_eq]
  split
  case isTrue => rfl
  case isFalse => rfl

/- With the sides exchanged, the same is found on the other side. -/
theorem Settling.shrinkMirror (eps least : ℝ) (ahead behind : ℝ → ℝ) (r : Settling ℝ) (d change : ℝ)
    (round cycles : ℕ) : r.mirror.shrink eps least behind ahead d change round cycles =
      (r.shrink eps least ahead behind d change round cycles).mirror := by
  induction cycles generalizing r d change round with
  | zero => rfl
  | succ cycles ih =>
    rw [shrink, shrink, lookMirror]
    cases r.look eps d change round (ahead d) (behind d) with
    | mk r moved =>
      cases moved with
      | none => rfl
      | some moved =>
        dsimp only
        rw [ih]
        exact (apply_ite mirror _ _ _).symm

/- Two least distances that cut none but the last in different ways lead to the same. -/
theorem Settling.shrinkLeast {eps a b : ℝ} {ahead behind : ℝ → ℝ} (r : Settling ℝ) (d change : ℝ)
    (round : ℕ) {cycles : ℕ} (same : ∀ i, i + 1 < cycles → (d * 0.2 ^ i < a ↔ d * 0.2 ^ i < b)) :
    r.shrink eps b ahead behind d change round cycles =
      r.shrink eps a ahead behind d change round cycles := by
  induction cycles generalizing r d change round with
  | zero => rfl
  | succ cycles ih =>
    rw [shrink, shrink]
    cases r.look eps d change round (ahead d) (behind d) with
    | mk r moved =>
      cases moved with
      | none => rfl
      | some moved =>
        have rest := ih r (d * 0.2) moved (round + 1) fun i less => by
          have next := same (i + 1) (by omega)
          rwa [pow_succ', ← mul_assoc] at next
        dsimp only
        rw [rest]
        cases cycles with
        | zero => exact (ite_self _).trans (ite_self _).symm
        | succ cycles =>
          have first := same 0 (by omega)
          rw [pow_zero, mul_one] at first
          exact if_congr first.symm rfl rfl

/-! ### The least distance -/

section
variable (s : Surface ℝ) (st : Strategy ℝ) (p : Point ℝ) (g : Gradient ℝ) (k : ℕ)

/- The distance that rounding and curvature suggest, before it is held against the least one. -/
noncomputable def reach : ℝ :=
  Min.min (0.2 * |entry g.steps k|)
    √(s.visible 4.0 p / (|entry g.curvatures k| + s.slopeNoise (entry g.slopes k)))

/- The least distance at a coordinate `v`. It is not the same on the other side of zero. -/
noncomputable def leastAt (v : ℝ) : ℝ := 4.0 * s.precision.eps2 * (v + s.precision.eps2)

noncomputable def startAt (v : ℝ) : ℝ := if s.reach p g k < s.leastAt v then s.leastAt v else s.reach p g k

/- What the differences would settle to if the least distance were that at `v`. -/
noncomputable def settlingFrom (v : ℝ) : Settling ℝ :=
  Settling.shrink s.precision.eps (s.leastAt v) (s.sideAhead p k) (s.sideBehind p k)
    ⟨entry g.slopes k, 0, 0, 0⟩ (s.startAt p g k v) 10000.0 0 st.hessianGradientCycles

/- No distance that is tried is cut by the least one on one side of zero and not on the other. -/
def Balanced : Prop :=
  entry p.x k = 0 ∨ s.leastAt |entry p.x k| ≤ s.reach p g k ∧
    ∀ i, 0 < i → i + 1 < st.hessianGradientCycles →
      s.reach p g k * 0.2 ^ i < s.leastAt |entry p.x k| →
        s.reach p g k * 0.2 ^ i < s.leastAt (-|entry p.x k|)

theorem distanceParts : s.settleDistance p k (Axis.ofGradient g k) =
    (s.startAt p g k (entry p.x k), s.leastAt (entry p.x k)) := by
  simp only [settleDistance, startAt, reach, leastAt, Axis.ofGradient, Exact.min, Exact.abs, Exact.sqrt,
    Exact.mul, Exact.add, Exact.div, Exact.scientific]
  rfl

theorem settlingHere : s.settling st p g k = s.settlingFrom st p g k (entry p.x k) := by
  rw [settling, distanceParts]
  rfl

variable {s st p g k}

theorem reachMirror : s.mirror.reach p.mirror g.mirror k = s.reach p g k := by
  have noise : s.mirror.slopeNoise (entry g.mirror.slopes k) = s.slopeNoise (entry g.slopes k) := by
    change _ + |entry (Vector.negate g.slopes) k * _| = _ + |entry g.slopes k * _|
    rw [Vector.entryNegate, neg_mul, abs_neg]
    rfl
  rw [reach, noise]
  rfl

theorem leastRises (positive : 0 < s.precision.eps2) {v w : ℝ} (less : v < w) : s.leastAt v < s.leastAt w :=
  mul_lt_mul_of_pos_left (add_lt_add_left less _) (mul_pos (by norm_num) positive)

/- Where it is balanced, the distances are the same on both sides. -/
theorem Balanced.same (positive : 0 < s.precision.eps2) (balanced : s.Balanced st p g k) :
    s.startAt p g k (-entry p.x k) = s.startAt p g k (entry p.x k) ∧
      ∀ i, i + 1 < st.hessianGradientCycles →
        (s.startAt p g k (entry p.x k) * 0.2 ^ i < s.leastAt (entry p.x k) ↔
          s.startAt p g k (entry p.x k) * 0.2 ^ i < s.leastAt (-entry p.x k)) := by
  rw [Balanced] at balanced
  generalize entry p.x k = v at balanced ⊢
  rcases eq_or_ne v 0 with zero | other
  · rw [zero, neg_zero]
    exact ⟨rfl, fun _ _ => Iff.rfl⟩
  obtain ⟨long, tests⟩ := balanced.resolve_left other
  have below : s.leastAt (-|v|) < s.leastAt |v| :=
    leastRises positive (by linarith [abs_pos.mpr other])
  have start {w : ℝ} (most : s.leastAt w ≤ s.leastAt |v|) : s.startAt p g k w = s.reach p g k :=
    if_neg (not_lt.mpr (most.trans long))
  have cut (i : ℕ) (more : i + 1 < st.hessianGradientCycles) :
      s.reach p g k * 0.2 ^ i < s.leastAt |v| ↔ s.reach p g k * 0.2 ^ i < s.leastAt (-|v|) := by
    refine ⟨?_, fun short => short.trans below⟩
    rcases Nat.eq_zero_or_pos i with rfl | later
    · rw [pow_zero, mul_one]
      exact fun short => absurd long (not_le.mpr short)
    · exact tests i later more
  rcases abs_choice v with same | same
  · rw [same] at long below cut start
    rw [start le_rfl, start below.le]
    exact ⟨rfl, cut⟩
  · rw [same, neg_neg] at below cut
    rw [same] at start
    rw [start le_rfl, start below.le]
    exact ⟨rfl, fun i more => (cut i more).symm⟩

theorem sidesMirror (unlimited : s.space.Unlimited) (p : Point ℝ) (k : ℕ) :
    s.mirror.sideAhead p.mirror k = s.sideBehind p k ∧
      s.mirror.sideBehind p.mirror k = s.sideAhead p k := by
  have moved (v : ℝ) : s.mirror.worth (p.mirror.x.setIfInBounds k (-v)) = s.worth (p.x.setIfInBounds k v) := by
    rw [← worthMirror unlimited, Vector.negateSet]
    rfl
  have here : entry p.mirror.x k = -entry p.x k := Vector.entryNegate p.x k
  refine ⟨funext fun d => ?_, funext fun d => ?_⟩
  · rw [sideBehind, ← moved, sideAhead, here, neg_sub, sub_eq_neg_add, add_comm]
  · rw [sideAhead, ← moved, sideBehind, here, neg_add']

theorem settlingMirror (unlimited : s.space.Unlimited) : s.mirror.settling st p.mirror g.mirror k =
    (s.settlingFrom st p g k (-entry p.x k)).mirror := by
  obtain ⟨ahead, behind⟩ := sidesMirror unlimited p k
  have begun : (⟨entry g.mirror.slopes k, 0, 0, 0⟩ : Settling ℝ) =
      Settling.mirror ⟨entry g.slopes k, 0, 0, 0⟩ := by
    simp [Settling.mirror, Gradient.mirror, Vector.entryNegate]
  have here : entry p.mirror.x k = -entry p.x k := Vector.entryNegate p.x k
  have started (v : ℝ) : s.mirror.startAt p.mirror g.mirror k v = s.startAt p g k v := by
    rw [startAt, reachMirror]
    rfl
  rw [settlingHere, settlingFrom, ahead, behind, begun, here, started]
  exact Settling.shrinkMirror _ _ _ _ _ _ _ _ _

theorem Balanced.settling (positive : 0 < s.precision.eps2) (balanced : s.Balanced st p g k) :
    s.settlingFrom st p g k (-entry p.x k) = s.settling st p g k := by
  obtain ⟨start, tests⟩ := balanced.same positive
  rw [settlingHere, settlingFrom, start]
  exact Settling.shrinkLeast _ _ _ _ tests

end

/-! ### Both sides of zero -/

/- Refining on one side of zero finds the gradient of the other side negated, with the same doubts. -/
def Mirrors (s : Surface ℝ) (st : Strategy ℝ) (p : Point ℝ) (g : Gradient ℝ) : Prop :=
  ∀ t t' : Trace ℝ, ∃ found doubt u u', (s.refined st p g).run t = ((found, doubt), u) ∧
    u.sound = t.sound ∧ (s.mirror.refined st p.mirror g.mirror).run t' = ((found.mirror, doubt), u') ∧
    u'.sound = t'.sound

section
variable {s : Surface ℝ} {st : Strategy ℝ} {p : Point ℝ} {g : Gradient ℝ}

theorem Settling.doubtMirror (r : Settling ℝ) : r.mirror.doubt = r.doubt := by
  have apart : |-r.older - -r.newer| = |r.older - r.newer| := by
    rw [neg_sub_neg, abs_sub_comm]
  exact congrArg (Scalar.max r.rounding) apart

theorem Settling.toldSame {n : ℕ} {r q : ℕ → Settling ℝ} : told g n r = told g n q ↔
    ∀ k < n, (r k).slope = (q k).slope ∧ (r k).doubt = (q k).doubt := by
  simp only [told, Gradient.numerical, Prod.mk.injEq, Gradient.mk.injEq, and_true, tabulateSame]
  exact ⟨fun same k inside => ⟨same.1 k inside, same.2 k inside⟩,
    fun same => ⟨fun k inside => (same k inside).1, fun k inside => (same k inside).2⟩⟩

theorem Settling.toldMirror (g : Gradient ℝ) (n : ℕ) (r : ℕ → Settling ℝ) :
    told g.mirror n (fun k => (r k).mirror) = ((told g n r).1.mirror, (told g n r).2) := by
  simp only [told, Settling.doubtMirror]
  exact congrArg (fun slopes => (Gradient.numerical slopes g.curvatures g.steps, _))
    (Vector.negateTabulate n _).symm

section
variable (readable : s.Readable) (unlimited : s.space.Unlimited) (size : p.x.size = s.space.dimension)
  (full : g.Full s.space.dimension)
include readable unlimited size full

variable (st) in
/- What is found on the other side is what would be found here with the least distances there. -/
theorem refinedBoth (t t' : Trace ℝ) :
    let n := s.space.dimension
    let other (k : ℕ) : Settling ℝ := s.settlingFrom st p g k (-entry p.x k)
    ∃ u u', (s.refined st p g).run t = (Settling.told g n (s.settling st p g), u) ∧ u.sound = t.sound ∧
      (s.mirror.refined st p.mirror g.mirror).run t' =
        (((Settling.told g n other).1.mirror, (Settling.told g n other).2), u') ∧
      u'.sound = t'.sound := by
  intro n other
  have size' : p.mirror.x.size = n := (Vector.sizeNegate p.x).trans size
  have full' : g.mirror.Full n :=
    ⟨(Vector.sizeNegate g.slopes).trans full.slopes, full.curvatures, full.steps⟩
  have here := refinedSettles size full
    (fun (_ : True) x width => readable x (width.trans size)) st t
  have there := refinedSettles size' full'
    (fun (_ : True) x width => readable.mirror unlimited x (width.trans size')) st t'
  have same : Settling.told g.mirror n (s.mirror.settling st p.mirror g.mirror) =
      ((Settling.told g n other).1.mirror, (Settling.told g n other).2) := by
    rw [← Settling.toldMirror]
    exact congrArg (Settling.told g.mirror n) (funext fun k => settlingMirror unlimited)
  exact ⟨_, _, Prod.ext here.answer rfl, here.sound trivial, Prod.ext (there.answer.trans same) rfl,
    there.sound trivial⟩

theorem refinedMirrors : s.Mirrors st p g ↔ ∀ k < s.space.dimension,
    (s.settlingFrom st p g k (-entry p.x k)).slope = (s.settling st p g k).slope ∧
      (s.settlingFrom st p g k (-entry p.x k)).doubt = (s.settling st p g k).doubt := by
  rw [← Settling.toldSame (g := g) (r := fun k => s.settlingFrom st p g k (-entry p.x k))]
  refine ⟨fun mirrors => ?_, fun same t t' => ?_⟩
  · obtain ⟨found, doubt, u, u', here, -, there, -⟩ := mirrors {} {}
    obtain ⟨w, w', run, -, run', -⟩ := refinedBoth st readable unlimited size full {} {}
    have first := (Prod.mk.inj (here.symm.trans run)).1
    obtain ⟨slopes, doubts⟩ := Prod.mk.inj (Prod.mk.inj (there.symm.trans run')).1
    rw [← first]
    exact Prod.ext (Gradient.mirrorInjective slopes).symm doubts.symm
  · obtain ⟨u, u', run, sound, run', sound'⟩ := refinedBoth st readable unlimited size full t t'
    rw [same] at run'
    exact ⟨_, _, u, u', run, sound, run', sound'⟩

end
end

end Surface
end ParamFit
