import ParamFit.Proofs.Mirroring

/-! Which points see the same on both sides of zero. Where a distance that is tried falls between the two
least distances, the last distances are not the same; and an objective that is level up to the point and
rises steeply from there has slopes that grow with the distance, so it shows the last one. -/
namespace ParamFit
namespace Surface

/-! ### The last distance -/

/- The last of some shrinking distances: the first one that is less than the least, if any is. -/
noncomputable def lastDistance (least d : ℝ) : ℕ → ℝ
  | 0 => d
  | more + 1 => if d < least then d else lastDistance least (d * 0.2) more

theorem shrunkMost {d : ℝ} (positive : 0 ≤ d) (i : ℕ) : d * 0.2 ^ i ≤ d :=
  mul_le_of_le_one_right positive (pow_le_one₀ (by norm_num) (by norm_num))

theorem lastMost (least : ℝ) {d : ℝ} (positive : 0 ≤ d) (more : ℕ) : lastDistance least d more ≤ d := by
  induction more generalizing d with
  | zero => exact le_rfl
  | succ more ih =>
    rw [lastDistance]
    split
    case isTrue => exact le_rfl
    case isFalse => exact (ih (by positivity)).trans (by linarith)

/- A least distance that cuts some distance but the last, and one that does not. -/
theorem lastCut {a b d : ℝ} (positive : 0 < d) {i more : ℕ} (inside : i < more)
    (kept : b ≤ d * 0.2 ^ i) (cut : d * 0.2 ^ i < a) : lastDistance b d more < lastDistance a d more := by
  induction more generalizing d i with
  | zero => exact absurd inside (Nat.not_lt_zero i)
  | succ more ih =>
    rw [lastDistance, if_neg (not_lt.mpr (kept.trans (shrunkMost positive.le i))), lastDistance]
    split
    case isTrue => exact (lastMost b (by positivity) more).trans_lt (by linarith)
    case isFalse long =>
      cases i with
      | zero => exact absurd (by simpa using cut) long
      | succ i =>
        rw [pow_succ', ← mul_assoc] at kept cut
        exact ih (by positivity) (Nat.lt_of_succ_lt_succ inside) kept cut

/- A start at the least distance, and one before it. -/
theorem lastBegun {a b d : ℝ} (positive : 0 < d) (less : d < a) (kept : b ≤ d) (more : ℕ) :
    lastDistance b d more < lastDistance a a more := by
  cases more with
  | zero => exact less
  | succ more =>
    have after : lastDistance a (a * 0.2) more = a * 0.2 := by
      cases more with
      | zero => rfl
      | succ more => exact if_pos (by linarith)
    rw [lastDistance, if_neg (not_lt.mpr kept), lastDistance, if_neg (lt_irrefl a), after]
    exact (lastMost b (by positivity) more).trans_lt (by linarith)

section
variable {s : Surface ℝ} {st : Strategy ℝ} {p : Point ℝ} {g : Gradient ℝ} {k : ℕ}

theorem unbalancedLast (positive : 0 < s.precision.eps2) (reaches : 0 < s.reach p g k) {more : ℕ}
    (cycles : st.hessianGradientCycles = more + 1) (other : ¬ s.Balanced st p g k) :
    lastDistance (s.leastAt (-entry p.x k)) (s.startAt p g k (-entry p.x k)) more ≠
      lastDistance (s.leastAt (entry p.x k)) (s.startAt p g k (entry p.x k)) more := by
  rw [Balanced, cycles] at other
  generalize entry p.x k = v at other ⊢
  obtain ⟨away, uneven⟩ := not_or.mp other
  have below : s.leastAt (-|v|) < s.leastAt |v| :=
    leastRises positive (by linarith [abs_pos.mpr away])
  have shorter : lastDistance (s.leastAt (-|v|)) (s.startAt p g k (-|v|)) more <
      lastDistance (s.leastAt |v|) (s.startAt p g k |v|) more := by
    by_cases long : s.leastAt |v| ≤ s.reach p g k
    · have start {w : ℝ} (most : s.leastAt w ≤ s.leastAt |v|) : s.startAt p g k w = s.reach p g k :=
        if_neg (not_lt.mpr (most.trans long))
      have cut : ∃ i, i < more ∧ s.reach p g k * 0.2 ^ i < s.leastAt |v| ∧
          s.leastAt (-|v|) ≤ s.reach p g k * 0.2 ^ i := by
        by_contra none
        refine uneven ⟨long, fun i _ inside short => ?_⟩
        by_contra kept
        exact none ⟨i, by omega, short, not_lt.mp kept⟩
      obtain ⟨i, inside, short, kept⟩ := cut
      rw [start le_rfl, start below.le]
      exact lastCut reaches inside kept short
    · have short := not_le.mp long
      have begun : s.startAt p g k |v| = s.leastAt |v| := if_pos short
      rw [begun, startAt]
      split
      case isTrue shorter => exact lastBegun (reaches.trans shorter) below le_rfl more
      case isFalse kept => exact lastBegun reaches short (not_lt.mp kept) more
  rcases abs_choice v with same | same
  · rw [same] at shorter
    exact shorter.ne
  · rw [same, neg_neg] at shorter
    exact shorter.ne'

end

/-! ### A steep rise on one side -/

namespace Settling

/- Values that rise ahead so steeply that only the distance matters, and not at all behind. -/
structure Steep (eps height rise least most : ℝ) (ahead behind : ℝ → ℝ) : Prop where
  ahead : ∀ d, least ≤ d → d ≤ most → ahead d = height + 2 * rise * d ^ 2
  behind : ∀ d, least ≤ d → d ≤ most → behind d = height
  positive : 0 < least
  precise : 0 < eps
  coarse : eps ≤ 1 / 4
  seen : eps ≤ rise * least
  high : 2 * |height| ≤ rise * least ^ 2

variable {eps height rise shortest longest : ℝ} {ahead behind : ℝ → ℝ}

section
variable (steep : Steep eps height rise shortest longest ahead behind)
include steep

theorem Steep.up : 0 < rise :=
  pos_of_mul_pos_left (steep.precise.trans_le steep.seen) steep.positive.le

variable {d : ℝ} (long : shortest ≤ d) (short : d ≤ longest)
include long short

theorem Steep.newer : (ahead d - behind d) / (2.0 * d) = rise * d := by
  have apart : 0 < d := steep.positive.trans_le long
  rw [steep.ahead d long short, steep.behind d long short, show (2.0 : ℝ) = 2 by norm_num]
  field_simp
  ring

/- What rounding may hide is less than three quarters of the slope. -/
theorem Steep.rounding : eps * (|ahead d| + |behind d|) / d ≤ 3 / 4 * (rise * d) := by
  have apart : 0 < d := steep.positive.trans_le long
  have up := steep.up
  have high : 2 * |height| ≤ rise * d ^ 2 :=
    steep.high.trans (mul_le_mul_of_nonneg_left (pow_le_pow_left₀ steep.positive.le long 2) up.le)
  have top : |ahead d| ≤ |height| + 2 * rise * d ^ 2 := by
    rw [steep.ahead d long short]
    exact (abs_add_le _ _).trans_eq (by rw [abs_of_pos (a := 2 * rise * d ^ 2) (by positivity)])
  have whole : |ahead d| + |behind d| ≤ 3 * (rise * d ^ 2) := by
    rw [steep.behind d long short]
    linarith
  rw [div_le_iff₀ apart]
  calc eps * (|ahead d| + |behind d|)
      ≤ 1 / 4 * (3 * (rise * d ^ 2)) := mul_le_mul steep.coarse whole (by positivity) (by norm_num)
    _ = 3 / 4 * (rise * d) * d := by ring

theorem Steep.look {r : Settling ℝ} {change : ℝ} {round : ℕ}
    (far : 3 / 4 * (rise * d) ≤ |r.slope - rise * d|)
    (kept : |(r.slope - rise * d) / (rise * d)| ≤ change ∨ round ≤ 1) : ∃ rounding,
      r.look eps d change round (ahead d) (behind d) =
        (⟨rise * d, r.slope, rise * d, rounding⟩, some |(r.slope - rise * d) / (rise * d)|) := by
  have slope : 0 < rise * d := mul_pos steep.up (steep.positive.trans_le long)
  have seen : ¬ |rise * d| < eps := by
    rw [abs_of_pos slope]
    exact not_lt.mpr (steep.seen.trans (mul_le_mul_of_nonneg_left long steep.up.le))
  have moved : 3 / 4 ≤ |(r.slope - rise * d) / (rise * d)| := by
    rwa [abs_div, abs_of_pos slope, le_div_iff₀ slope]
  have goesOn : ¬ (|(r.slope - rise * d) / (rise * d)| > change ∧ 1 < round) := fun ⟨more, later⟩ =>
    kept.elim (not_le.mpr more) (not_le.mpr later)
  have unsettled : ¬ (|(r.slope - rise * d) / (rise * d)| < 0.05 ∨
      |r.slope - rise * d| < eps * (|ahead d| + |behind d|) / d) := by
    refine not_or.mpr ⟨not_lt.mpr (le_trans (by norm_num) moved), not_lt.mpr ?_⟩
    exact (steep.rounding long short).trans far
  refine ⟨eps * (|ahead d| + |behind d|) / d, ?_⟩
  have newer := steep.newer long short
  simp only [Settling.look, Exact.abs, Exact.add, Exact.sub, Exact.mul, Exact.div, newer]
  rw [if_neg (not_or.mpr ⟨seen, goesOn⟩), if_neg unsettled]

end

section
variable (steep : Steep eps height rise shortest longest ahead behind) {d : ℝ} (long : shortest ≤ d)
  {r : Settling ℝ}
include steep long

theorem Steep.fifth (before : r.slope = 5 * (rise * d)) : |(r.slope - rise * d) / (rise * d)| = 4 := by
  have slope : 0 < rise * d := mul_pos steep.up (steep.positive.trans_le long)
  have four : (r.slope - rise * d) / (rise * d) = 4 := by
    rw [before, div_eq_iff slope.ne']
    ring
  rw [four]
  norm_num

theorem Steep.kept {change : ℝ} {round : ℕ}
    (kept : round = 0 ∨ r.slope = 5 * (rise * d) ∧ (round = 1 ∨ 4 ≤ change)) :
    |(r.slope - rise * d) / (rise * d)| ≤ change ∨ round ≤ 1 := by
  rcases kept with first | ⟨before, second | less⟩
  · exact .inr (by omega)
  · exact .inr second.le
  · exact .inl ((steep.fifth long before).trans_le less)

end

/- The slope that is found is that of the last distance. -/
theorem Steep.shrink (steep : Steep eps height rise shortest longest ahead behind) (least : ℝ) {d : ℝ}
    {more : ℕ} (long : shortest ≤ d * 0.2 ^ more) (short : d ≤ longest) {r : Settling ℝ} {change : ℝ}
    {round : ℕ} (far : 3 / 4 * (rise * d) ≤ |r.slope - rise * d|)
    (kept : round = 0 ∨ r.slope = 5 * (rise * d) ∧ (round = 1 ∨ 4 ≤ change)) :
    (r.shrink eps least ahead behind d change round (more + 1)).slope =
      rise * lastDistance least d more := by
  induction more generalizing d r change round with
  | zero =>
    have long : shortest ≤ d := by simpa using long
    obtain ⟨rounding, look⟩ := steep.look long short far (steep.kept long kept)
    rw [Settling.shrink, look]
    dsimp only
    rw [Settling.shrink, ite_self]
    rfl
  | succ more ih =>
    have positive : 0 < d :=
      pos_of_mul_pos_left (steep.positive.trans_le long) (by positivity)
    have here : shortest ≤ d := long.trans (shrunkMost positive.le _)
    have slope : 0 < rise * d := mul_pos steep.up positive
    obtain ⟨rounding, look⟩ := steep.look here short far (steep.kept here kept)
    rw [Settling.shrink, look, lastDistance]
    dsimp only
    split
    case isTrue => rfl
    case isFalse =>
      refine ih ?_ (le_trans (by linarith) short) ?_ (.inr ⟨by ring, ?_⟩)
      · rwa [pow_succ', ← mul_assoc] at long
      · have less : rise * d - rise * (d * 0.2) = 0.8 * (rise * d) := by ring
        change _ ≤ |rise * d - rise * (d * 0.2)|
        rw [less, abs_of_pos (by positivity)]
        linarith
      · rcases kept with first | ⟨before, _⟩
        · exact .inl (by rw [first])
        · exact .inr (steep.fifth here before).ge

end Settling

section
variable {s : Surface ℝ} {st : Strategy ℝ} {p : Point ℝ} {g : Gradient ℝ} {k : ℕ}

theorem settlingSteep {height rise shortest longest v : ℝ} {more : ℕ}
    (steep : Settling.Steep s.precision.eps height rise shortest longest (s.sideAhead p k)
      (s.sideBehind p k))
    (cycles : st.hessianGradientCycles = more + 1) (long : shortest ≤ s.startAt p g k v * 0.2 ^ more)
    (short : s.startAt p g k v ≤ longest) (flat : 4 * |entry g.slopes k| ≤ rise * shortest) :
    (s.settlingFrom st p g k v).slope =
      rise * lastDistance (s.leastAt v) (s.startAt p g k v) more := by
  rw [settlingFrom, cycles]
  refine steep.shrink _ long short ?_ (.inl rfl)
  have positive : 0 < s.startAt p g k v :=
    pos_of_mul_pos_left (steep.positive.trans_le long) (by positivity)
  have here : shortest ≤ s.startAt p g k v := long.trans (shrunkMost positive.le more)
  have most : rise * shortest ≤ rise * s.startAt p g k v := mul_le_mul_of_nonneg_left here steep.up.le
  have apart := abs_sub_abs_le_abs_sub (rise * s.startAt p g k v) (entry g.slopes k)
  rw [abs_of_pos (mul_pos steep.up positive), abs_sub_comm] at apart
  linarith

theorem noisePositive (fine : s.precision.Fine) (g : Gradient ℝ) (k : ℕ) :
    0 < |entry g.curvatures k| + s.slopeNoise (entry g.slopes k) :=
  add_pos_of_nonneg_of_pos (abs_nonneg _) (slopeNoisePositive fine _)

theorem reachPositive (fine : s.precision.Fine) (up : 0 < s.errorDef) (step : 0 < entry g.steps k) :
    0 < s.reach p g k := by
  refine lt_min (by positivity) (Real.sqrt_pos.mpr (div_pos ?_ (noisePositive fine g k)))
  exact visiblePositive fine up (by norm_num)

theorem reachAbove (fine : s.precision.Fine) {d : ℝ} (step : d ≤ 0.2 * |entry g.steps k|)
    (seen : d ^ 2 * (|entry g.curvatures k| + s.slopeNoise (entry g.slopes k)) ≤ s.visible 4.0 p) :
    d ≤ s.reach p g k :=
  le_min step (Real.le_sqrt_of_sq_le ((le_div_iff₀ (noisePositive fine g k)).mpr seen))

theorem startPositive (reaches : 0 < s.reach p g k) (v : ℝ) : 0 < s.startAt p g k v := by
  rw [startAt]
  split
  case isTrue short => exact reaches.trans short
  case isFalse => exact reaches

end

/-! ### An objective that shows the least distance -/

end Surface

/- Level up to a coordinate and a steep parabola from there. -/
noncomputable def Objective.ramp (i : ℕ) (v height rise : ℝ) : Objective ℝ :=
  { Objective.plain fun y => if v < entry y i then height + 2.0 * rise * (entry y i - v) ^ 2 else height with
    reads := fun _ => i + 1 }

namespace Surface

section
variable {s : Surface ℝ} {p : Point ℝ} {k : ℕ} (consistent : s.space.Consistent)
  (unlimited : s.space.Unlimited) (inside : k < s.space.dimension) (rise : ℝ)

/- A surface that rises from a point on, along one coordinate. -/
noncomputable def rising (s : Surface ℝ) (p : Point ℝ) (k : ℕ) (rise : ℝ) : Surface ℝ :=
  ⟨.ramp (s.space.place k) (entry p.x k) p.value rise, s.errorDef, s.space⟩

include consistent inside

theorem risingReadable : (s.rising p k rise).Readable := fun x size => by
  refine ⟨size.le, ?_⟩
  change s.space.place k + 1 ≤ (s.space.external x).size
  rw [Space.externalSize, consistent.cached, Array.size_map]
  exact consistent.within (List.mem_of_getElem? (Space.placed inside))

include unlimited

theorem risingWorth {x : Array ℝ} (size : x.size = s.space.dimension) : (s.rising p k rise).worth x =
    if entry p.x k < entry x k then p.value + 2 * rise * (entry x k - entry p.x k) ^ 2 else p.value := by
  have here := Space.externalAt consistent size (Space.placed inside)
  have free : (s.space.parameterAt (s.space.place k)).limits = .free := unlimited k inside
  have same : entry (s.space.external x) (s.space.place k) = entry x k := by
    rw [free] at here
    rw [entry, Array.getD_eq_getD_getElem?, here]
    rfl
  have two : (2 : ℝ) = 2.0 := by norm_num
  rw [two, ← same]
  rfl

variable (size : p.x.size = s.space.dimension)
include size

theorem risingAlong (v : ℝ) : (s.rising p k rise).worth (p.x.setIfInBounds k v) =
    if entry p.x k < v then p.value + 2 * rise * (v - entry p.x k) ^ 2 else p.value := by
  have moved : entry (p.x.setIfInBounds k v) k = v := by simp [entry, size, inside]
  rw [risingWorth consistent unlimited inside rise (Array.size_setIfInBounds.trans size), moved]

theorem risingSteep {eps shortest longest : ℝ} (positive : 0 < shortest) (precise : 0 < eps)
    (coarse : eps ≤ 1 / 4) (seen : eps ≤ rise * shortest) (high : 2 * |p.value| ≤ rise * shortest ^ 2) :
    Settling.Steep eps p.value rise shortest longest ((s.rising p k rise).sideAhead p k)
      ((s.rising p k rise).sideBehind p k) where
  ahead d long _ := by
    rw [sideAhead, risingAlong consistent unlimited inside rise size, add_sub_cancel_left,
      if_pos (by linarith)]
  behind d long _ := by
    rw [sideBehind, risingAlong consistent unlimited inside rise size, if_neg (by linarith)]
  positive := positive
  precise := precise
  coarse := coarse
  seen := seen
  high := high

end

/- A rise that is steep enough from the shortest distance on. -/
theorem risesEnough {eps shortest : ℝ} (positive : 0 < eps) (apart : 0 < shortest) (slope height : ℝ) :
    ∃ rise, eps ≤ rise * shortest ∧ 4 * |slope| ≤ rise * shortest ∧
      2 * |height| ≤ rise * shortest ^ 2 := by
  have flat := abs_nonneg slope
  have rest : 0 ≤ 2 * |height| / shortest := by positivity
  let rise := (eps + 4 * |slope|) / shortest + 2 * |height| / shortest ^ 2
  have first : rise * shortest = eps + 4 * |slope| + 2 * |height| / shortest := by
    change (_ / shortest + _ / shortest ^ 2) * shortest = _
    field_simp
  have second : rise * shortest ^ 2 = (eps + 4 * |slope|) * shortest + 2 * |height| := by
    rw [pow_two, ← mul_assoc, first, add_mul, div_mul_cancel₀ _ apart.ne']
  refine ⟨rise, by linarith, by linarith, ?_⟩
  rw [second]
  exact le_add_of_nonneg_left (by positivity)

/-! ### The gradient of both sides -/

section
variable {s : Surface ℝ} {eps : ℝ} (consistent : s.space.Consistent) (unlimited : s.space.Unlimited)
  (positive : 0 < eps) (precise : s.precision = .ofEps eps) (up : 0 < s.errorDef) {st : Strategy ℝ}
  {p : Point ℝ} {g : Gradient ℝ} (size : p.x.size = s.space.dimension) (full : g.Full s.space.dimension)
  {k : ℕ}
include consistent unlimited positive precise up size full

/- Where it is not balanced, some objective shows it. -/
theorem risingUnbalanced (coarse : eps ≤ 1 / 4) (inside : k < s.space.dimension)
    (step : 0 < entry g.steps k) (works : 0 < st.hessianGradientCycles)
    (other : ¬ s.Balanced st p g k) : ∃ rise, ¬ (s.rising p k rise).Mirrors st p g := by
  have fine : s.precision.Fine := precise ▸ Precision.ofEpsFine positive
  have reaches : 0 < s.reach p g k := reachPositive fine up step
  obtain ⟨more, cycles⟩ := Nat.exists_eq_succ_of_ne_zero works.ne'
  let v := entry p.x k
  let shortest := Min.min (s.startAt p g k v) (s.startAt p g k (-v)) * 0.2 ^ more
  have apart : 0 < shortest :=
    mul_pos (lt_min (startPositive reaches v) (startPositive reaches (-v))) (by positivity)
  obtain ⟨rise, seen, flat, high⟩ := risesEnough positive apart (entry g.slopes k) p.value
  refine ⟨rise, fun mirrors => ?_⟩
  have same : (s.rising p k rise).precision.eps = eps := congrArg Precision.eps precise
  have steep : Settling.Steep (s.rising p k rise).precision.eps p.value rise shortest
      (Max.max (s.startAt p g k v) (s.startAt p g k (-v))) ((s.rising p k rise).sideAhead p k)
      ((s.rising p k rise).sideBehind p k) :=
    same ▸ risingSteep consistent unlimited inside rise size apart positive coarse seen high
  have found {w : ℝ} (among : w = v ∨ w = -v) : ((s.rising p k rise).settlingFrom st p g k w).slope =
      rise * lastDistance (s.leastAt w) (s.startAt p g k w) more := by
    refine settlingSteep steep cycles ?_ ?_ flat
    · refine mul_le_mul_of_nonneg_right ?_ (by positivity)
      rcases among with rfl | rfl
      · exact min_le_left _ _
      · exact min_le_right _ _
    · rcases among with rfl | rfl
      · exact le_max_left _ _
      · exact le_max_right _ _
  have both := ((refinedMirrors (risingReadable consistent inside rise) unlimited size full).mp mirrors k
    inside).1
  have here : ((s.rising p k rise).settling st p g k).slope =
      rise * lastDistance (s.leastAt v) (s.startAt p g k v) more := by
    rw [settlingHere]
    exact found (.inl rfl)
  rw [here, found (.inr rfl)] at both
  exact unbalancedLast fine.eps2 reaches cycles other (mul_left_cancel₀ steep.up.ne' both)

/- Slopes that settle on one side of zero are those of the other side negated where the least distances cut
the distances that are tried in the same way on both sides. Where they do not, and the precision is not too
coarse, some objective with the same value shows it; and they are never the same but at zero. -/
theorem refinedMirrored (level : ℕ) (steps : ∀ k < s.space.dimension, 0 < entry g.steps k) :
    (s.Readable → (∀ k < s.space.dimension, s.Balanced (.ofLevel level) p g k) →
      s.Mirrors (.ofLevel level) p g) ∧
    (eps ≤ 1 / 4 → (∀ objective : Objective ℝ, Readable ⟨objective, s.errorDef, s.space⟩ →
        objective.value (s.space.external p.x) = p.value →
        Mirrors ⟨objective, s.errorDef, s.space⟩ (.ofLevel level) p g) →
      ∀ k < s.space.dimension, s.Balanced (.ofLevel level) p g k) ∧
    ∀ k < s.space.dimension, (s.settleDistance p k (Axis.ofGradient g k)).2 =
      (s.mirror.settleDistance p.mirror k (Axis.ofGradient g.mirror k)).2 ↔ entry p.x k = 0 := by
  have fine : s.precision.Fine := precise ▸ Precision.ofEpsFine positive
  refine ⟨fun readable balanced => ?_, fun coarse mirrors k inside => ?_, fun k inside => ?_⟩
  · refine (refinedMirrors readable unlimited size full).mpr fun k inside => ?_
    rw [(balanced k inside).settling fine.eps2]
    exact ⟨rfl, rfl⟩
  · by_contra other
    obtain ⟨rise, unmirrored⟩ := risingUnbalanced consistent unlimited positive precise up size full coarse
      inside (steps k inside) (Strategy.ofLevelSettles level) other
    refine unmirrored (mirrors _ (risingReadable consistent inside rise) ?_)
    have value := risingWorth (p := p) consistent unlimited inside rise size
    rwa [if_neg (lt_irrefl _)] at value
  · rw [distanceParts, distanceParts]
    have here : entry p.mirror.x k = -entry p.x k := Vector.entryNegate p.x k
    rw [here]
    change s.leastAt (entry p.x k) = s.leastAt (-entry p.x k) ↔ _
    have rises : StrictMono s.leastAt := fun v w => leastRises fine.eps2
    rw [rises.injective.eq_iff, self_eq_neg]

end

/- In the valley, whose other parameter is fixed, no distance that is tried is as short as the least one. -/
theorem valleyBalanced (height : ℝ) {k : ℕ} (inside : k < valley.space.dimension) :
    valley.Balanced (.ofLevel 2) (.plain #[1] height) (.numerical #[7] #[0] #[1]) k := by
  obtain rfl : k = 0 := Nat.lt_one_iff.mp inside
  let p : Point ℝ := .plain #[1] height
  let g : Gradient ℝ := .numerical #[7] #[0] #[1]
  have fine : valley.precision.Fine := Precision.ofEpsFine (show (0 : ℝ) < 2⁻¹ ^ 50 by positivity)
  have eps2 : valley.precision.eps2 = 2⁻¹ ^ 24 := machineEps2
  have reach : 0.2 ≤ valley.reach p g 0 := by
    refine reachAbove fine (by norm_num [g, Gradient.numerical, entry]) ?_
    have noise : |entry g.curvatures 0| + valley.slopeNoise (entry g.slopes 0) =
        |0| + (2⁻¹ ^ 24 + |7 * 2⁻¹ ^ 24|) := by
      rw [← eps2]
      rfl
    have visible : valley.visible 4.0 p = 4.0 * 2⁻¹ ^ 24 * (|height| + 1) := by
      rw [← eps2]
      rfl
    rw [noise, visible]
    have high := abs_nonneg height
    norm_num
    linarith
  have least : valley.leastAt |entry p.x 0| = 4.0 * 2⁻¹ ^ 24 * (|1| + 2⁻¹ ^ 24) := by
    rw [← eps2]
    rfl
  have short (i : ℕ) (inside : i < 5) : valley.leastAt |entry p.x 0| ≤ valley.reach p g 0 * 0.2 ^ i := by
    have power : (0.2 : ℝ) ^ 5 ≤ 0.2 ^ i :=
      pow_le_pow_of_le_one (by norm_num) (by norm_num) inside.le
    calc valley.leastAt |entry p.x 0| ≤ 0.2 * 0.2 ^ 5 := by rw [least]; norm_num
      _ ≤ valley.reach p g 0 * 0.2 ^ i := mul_le_mul reach power (by positivity) (by linarith)
  refine .inr ⟨?_, fun i _ more cut => absurd cut (not_lt.mpr (short i ?_))⟩
  · simpa using short 0 (by norm_num)
  · change i + 1 < 6 at more
    omega

/- At the lowest point of the valley. -/
theorem refinedMirroredValley :
    let p : Point ℝ := .plain #[1] (valley.worth #[1])
    let g : Gradient ℝ := .numerical #[7] #[0] #[1]
    valley.space.Consistent ∧ valley.space.Unlimited ∧ (0 : ℝ) < 2⁻¹ ^ 50 ∧ (2⁻¹ ^ 50 : ℝ) ≤ 1 / 4 ∧
    valley.precision = .ofEps (2⁻¹ ^ 50) ∧ 0 < valley.errorDef ∧ p.x.size = valley.space.dimension ∧
    g.Full valley.space.dimension ∧ (∀ k < valley.space.dimension, 0 < entry g.steps k) ∧
    valley.Readable ∧ valley.Balanced (.ofLevel 2) p g 0 ∧
    (∀ objective : Objective ℝ, Readable ⟨objective, 1, valley.space⟩ →
      objective.value (valley.space.external p.x) = p.value →
        Mirrors ⟨objective, 1, valley.space⟩ (.ofLevel 2) p g) ∧
    ∃ found doubt u u', (valley.refined (.ofLevel 2) p g).run? {} = some ((found, doubt), u) ∧
      (valley.mirror.refined (.ofLevel 2) p.mirror g.mirror).run? {} =
        some ((found.mirror, doubt), u') := by
  intro p g
  have consistent := valleyQuadratic.consistent
  have unlimited : valley.space.Unlimited := valleyQuadratic.unlimited
  have positive : (0 : ℝ) < 2⁻¹ ^ 50 := by positivity
  have full : g.Full valley.space.dimension := ⟨rfl, rfl, rfl⟩
  have steps (k : ℕ) (inside : k < valley.space.dimension) : 0 < entry g.steps k := by
    obtain rfl : k = 0 := Nat.lt_one_iff.mp inside
    exact one_pos
  have balanced (k : ℕ) (inside : k < valley.space.dimension) : valley.Balanced (.ofLevel 2) p g k :=
    valleyBalanced _ inside
  have all (objective : Objective ℝ) (readable : Readable ⟨objective, 1, valley.space⟩) :
      Mirrors ⟨objective, 1, valley.space⟩ (.ofLevel 2) p g :=
    (refinedMirrored (s := ⟨objective, 1, valley.space⟩) consistent unlimited positive rfl one_pos rfl full 2
      steps).1 readable balanced
  obtain ⟨found, doubt, u, u', run, sound, run', sound'⟩ := all _ valleyQuadratic.readable {} {}
  exact ⟨consistent, unlimited, positive, by norm_num, rfl, one_pos, rfl, full, steps,
    valleyQuadratic.readable, balanced 0 one_pos, fun objective readable _ => all objective readable, found, doubt, u, u',
    Eval.runAnswers.mpr ⟨run, sound⟩, Eval.runAnswers.mpr ⟨run', sound'⟩⟩

/- Level between two slopes. -/
noncomputable def plateau : Surface ℝ where
  objective :=
    { Objective.plain (fun x => (Max.max (|entry x 0| - 1000000) 0) ^ 2) with reads := fun _ => 1 }
  errorDef := 1
  space := .numbered #[1000000] #[0.1] 1

theorem plateauEven (y : Array ℝ) : plateau.objective.mirror.value y = plateau.objective.value y := by
  change (Max.max (|entry (Vector.negate y) 0| - 1000000) 0) ^ 2 = _
  rw [Vector.entryNegate, abs_neg]
  rfl

theorem plateauPlain : plateau.Plain 1 := ⟨Space.numberedPlain _ _ _, fun _ _ => le_refl 1⟩

theorem plateauWorth (v : ℝ) : plateau.worth #[v] = (Max.max (|v| - 1000000) 0) ^ 2 :=
  plateauPlain.worth rfl

theorem plateauFine : plateau.precision.Fine :=
  Precision.ofEpsFine (show (0 : ℝ) < 2⁻¹ ^ 50 by positivity)

theorem plateauLeast (v : ℝ) : plateau.leastAt v = 4.0 * 2⁻¹ ^ 24 * (v + 2⁻¹ ^ 24) := by
  rw [← machineEps2]
  rfl

/- At the upper edge. -/
noncomputable def edge : Point ℝ := .plain #[1000000] 0

noncomputable def edgeGradient : Gradient ℝ := .numerical #[0] #[0] #[0.1]

theorem edgeSteep : Settling.Steep plateau.precision.eps 0 (1 / 2) 0.004 1 (plateau.sideAhead edge 0)
    (plateau.sideBehind edge 0) where
  ahead d long short := by
    change plateau.worth #[1000000 + d] = _
    rw [plateauWorth, abs_of_pos (by linarith), max_eq_left (by linarith)]
    ring
  behind d long short := by
    change plateau.worth #[1000000 - d] = _
    rw [plateauWorth, abs_of_pos (by linarith), max_eq_right (by linarith)]
    norm_num
  positive := by norm_num
  precise := plateauFine.eps
  coarse := by
    change (2⁻¹ ^ 50 : ℝ) ≤ _
    norm_num
  seen := by
    change (2⁻¹ ^ 50 : ℝ) ≤ _
    norm_num
  high := by norm_num

theorem edgeReach : plateau.reach edge edgeGradient 0 = 0.02 := by
  have tenth : 0.2 * |entry edgeGradient.steps 0| = (0.02 : ℝ) := by
    norm_num [edgeGradient, Gradient.numerical, entry]
  have noise : |entry edgeGradient.curvatures 0| + plateau.slopeNoise (entry edgeGradient.slopes 0) =
      |0| + (2⁻¹ ^ 24 + |0 * 2⁻¹ ^ 24|) := by
    rw [← machineEps2]
    rfl
  have visible : plateau.visible 4.0 edge = 4.0 * 2⁻¹ ^ 24 * (|0| + 1) := by
    rw [← machineEps2]
    rfl
  refine le_antisymm (tenth ▸ min_le_left _ _) (reachAbove plateauFine tenth.ge ?_)
  rw [noise, visible]
  norm_num

theorem edgeSlope {v : ℝ} (most : v ≤ 1000000) :
    (plateau.settlingFrom (.ofLevel 1) edge edgeGradient 0 v).slope =
      1 / 2 * lastDistance (plateau.leastAt v) (plateau.startAt edge edgeGradient 0 v) 1 := by
  have least : plateau.leastAt v ≤ 1 := by
    rw [plateauLeast]
    linarith
  have start : 0.02 ≤ plateau.startAt edge edgeGradient 0 v ∧
      plateau.startAt edge edgeGradient 0 v ≤ 1 := by
    rw [startAt, edgeReach]
    split
    case isTrue short => exact ⟨short.le, least⟩
    case isFalse => exact ⟨le_rfl, by norm_num⟩
  refine settlingSteep edgeSteep rfl ?_ start.2 ?_
  · linarith [start.1]
  · norm_num [edgeGradient, Gradient.numerical, entry]

theorem edgeUnbalanced : ¬ plateau.Balanced (.ofLevel 1) edge edgeGradient 0 := by
  have here : entry edge.x 0 = 1000000 := rfl
  rw [Balanced, here, edgeReach, plateauLeast, abs_of_pos (by norm_num)]
  norm_num

/- At its edges the same objective has other slopes. -/
theorem refinedUnmirrored :
    (∀ y, plateau.objective.mirror.value y = plateau.objective.value y) ∧
    edge.value = plateau.worth edge.x ∧
    ∃ found doubt u found' doubt' u',
      (plateau.refined (.ofLevel 1) edge edgeGradient).run? {} = some ((found, doubt), u) ∧
      (plateau.mirror.refined (.ofLevel 1) edge.mirror edgeGradient.mirror).run? {} =
        some ((found', doubt'), u') ∧ entry found'.slopes 0 ≠ -entry found.slopes 0 := by
  have dimension : plateau.space.dimension = 1 := plateauPlain.space.dimension
  have unlimited : plateau.space.Unlimited := fun k inside => plateauPlain.free (dimension ▸ inside)
  have readable : plateau.Readable := fun x size => plateauPlain.answers (size.trans dimension)
  have full : edgeGradient.Full plateau.space.dimension := by
    rw [dimension]
    exact ⟨rfl, rfl, rfl⟩
  have value : edge.value = plateau.worth edge.x := by
    refine Eq.trans ?_ (plateauWorth 1000000).symm
    norm_num [edge, Point.plain]
  obtain ⟨u, u', run, sound, run', sound'⟩ :=
    refinedBoth (p := edge) (.ofLevel 1) readable unlimited dimension.symm full {} {}
  refine ⟨plateauEven, value, _, _, u, _, _, u', Eval.runAnswers.mpr ⟨run, sound⟩,
    Eval.runAnswers.mpr ⟨run', sound'⟩, ?_⟩
  have inside : 0 < plateau.space.dimension := dimension ▸ one_pos
  have here : entry edge.x 0 = 1000000 := rfl
  have last := unbalancedLast plateauFine.eps2 (by rw [edgeReach]; norm_num)
    (show (Strategy.ofLevel 1).hessianGradientCycles = 1 + 1 from rfl) edgeUnbalanced
  change entry (Vector.negate (tabulate _ _)) 0 ≠ -entry (tabulate _ _) 0
  rw [Vector.entryNegate, entry_tabulate _ inside, entry_tabulate _ inside, settlingHere,
    edgeSlope (by rw [here]; norm_num), edgeSlope (by rw [here])]
  exact fun same => last (by linarith)

end Surface
end ParamFit
