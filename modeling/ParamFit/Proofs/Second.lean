import ParamFit.Search.Hessian
import ParamFit.Proofs.Slopes

/-! Second derivatives of quadratic objectives. A visible rise shows the curvature along a coordinate
exactly, so the first cycle is the last one where the curvature was known before; the settled slopes
are exact at every distance; and the mixed derivatives fill the matrix pair by pair, at a point that is
the same again after each of them. -/
namespace ParamFit

/- Seen from `x`, an objective is quadratic in every two coordinates. -/
structure Objective.Quadric (f : Objective ℝ) (n : ℕ) (x : Array ℝ) (slope : ℕ → ℝ)
    (second : ℕ → ℕ → ℝ) : Prop where
  curve : ∀ k < n, f.Curve x k (slope k) (second k k)
  mixed : ∀ i < n, ∀ j < n, i ≠ j → ∀ a b,
    f.value ((x.setIfInBounds i (entry x i + a)).setIfInBounds j (entry x j + b)) =
      f.value x + slope i * a + slope j * b + second i i / 2 * a ^ 2 + second j j / 2 * b ^ 2 +
        second i j * a * b
  comm : ∀ i j, second i j = second j i

/- A rise along a coordinate that counts against the precision. -/
structure Precision.Visible (prec : Precision ℝ) (curvature d : ℝ) : Prop where
  rise : prec.eps2 < curvature / 2 * d ^ 2

namespace Precision.Visible
variable {prec : Precision ℝ} {curvature d : ℝ} (visible : prec.Visible curvature d)
  (eps2 : 0 ≤ prec.eps2)
include visible eps2

theorem curved : 0 < curvature := by
  have rise : 0 < curvature / 2 * d ^ 2 := eps2.trans_lt visible.rise
  linarith [pos_of_mul_pos_left rise (sq_nonneg d)]

theorem farther {e : ℝ} (positive : 0 ≤ d) (far : d ≤ e) : prec.Visible curvature e := by
  refine ⟨lt_of_lt_of_le visible.rise (mul_le_mul_of_nonneg_left ?_ ?_)⟩
  · exact pow_le_pow_left₀ positive far 2
  · exact div_nonneg (visible.curved eps2).le zero_le_two

end Precision.Visible

namespace Hessian

structure Rise.Shows (r : Rise ℝ) (value first second : ℝ) : Prop where
  distance : 0 < r.distance
  rise : r.rise = second / 2 * r.distance ^ 2
  ahead : r.ahead = value + first * r.distance + second / 2 * r.distance ^ 2
  behind : r.behind = value - first * r.distance + second / 2 * r.distance ^ 2

structure Ruler.Shows (r : Ruler ℝ) (value first second : ℝ) : Prop where
  slope : r.slope = first
  curvature : r.curvature = second
  reach : 0 < r.reach
  step : r.step = r.reach
  ahead : r.ahead = value + first * r.reach + second / 2 * r.reach ^ 2

theorem Ruler.ofRiseShows {r : Rise ℝ} {value first second : ℝ}
    (shown : r.Shows value first second) : (ofRise r).Shows value first second := by
  obtain ⟨distance, rise, ahead, behind⟩ := shown
  have two : (2.0 : ℝ) = 2 := by norm_num
  refine ⟨?_, ?_, distance, rfl, ahead⟩
  · change (r.ahead - r.behind) / (2.0 * r.distance) = first
    rw [ahead, behind, two]
    field_simp
    ring
  · change 2.0 * r.rise / (r.distance * r.distance) = second
    rw [rise, two]
    field_simp

section
variable {h : Site ℝ} {n : ℕ} {fits : Prop} {k : ℕ} {slope curvature : ℝ}
  (plain : h.surface.Plain n) (size : h.x.size = n)
  (known : h.value = h.surface.objective.value h.x) (inside : k < n)
  (curve : h.surface.objective.Curve h.x k slope curvature) (eps2 : 0 ≤ (precision h).eps2)
include plain size known inside curve eps2

omit plain size inside curve eps2 in
theorem riseShows {d ahead behind : ℝ} (positive : 0 < d) (apart : ahead - behind = 2 * slope * d)
    (curved : ahead + behind - 2 * h.surface.objective.value h.x = curvature * d ^ 2) :
    (⟨d, 0.5 * (ahead + behind - 2.0 * h.value), ahead, behind⟩ : Rise ℝ).Shows h.value slope
      curvature := by
  rw [← known] at curved
  refine ⟨positive, ?_, ?_, ?_⟩
  · change 0.5 * (ahead + behind - 2.0 * h.value) = curvature / 2 * d ^ 2
    rw [show (2.0 : ℝ) = 2 by norm_num, curved]
    ring
  · change ahead = h.value + slope * d + curvature / 2 * d ^ 2
    linarith
  · change behind = h.value - slope * d + curvature / 2 * d ^ 2
    linarith

/- A rise that is found shows the curvature; one that is visible from the last distance is found. -/
theorem riseYields {d : ℝ} (positive : 0 ≤ d) (tries : ℕ) (t : Trace ℝ) :
    Yields fits (findRise h k d tries) t (tries * 2) fun found =>
      (∀ r, found = some r →
        r.Shows h.value slope curvature ∧ (precision h).Visible curvature r.distance) ∧
      ∀ more, tries = more + 1 → (precision h).Visible curvature (d * 10 ^ more) → found ≠ none := by
  induction tries generalizing d t with
  | zero => exact .pure ⟨nofun, nofun⟩
  | succ tries ih =>
    rw [Nat.succ_mul]
    refine Surface.bothSides (fun _ x width => plain.answers (width.trans size))
      (plain.arc size curve) fun ahead behind u apart curved => ?_
    rw [plain.worth size] at curved
    have risen : 0.5 * (ahead + behind - 2.0 * h.value) = curvature / 2 * d ^ 2 := by
      rw [← known] at curved
      rw [show (2.0 : ℝ) = 2 by norm_num, curved]
      ring
    refine .ite (fun seen => .pure ⟨?_, nofun⟩) fun unseen => ?_
    · have visible : (precision h).Visible curvature d := ⟨seen.trans_eq risen⟩
      have some : d ≠ 0 := by
        rintro rfl
        have none : (precision h).eps2 < 0 := visible.rise.trans_eq (by ring)
        exact absurd none (not_lt.mpr eps2)
      rintro r ⟨⟩
      exact ⟨riseShows known (lt_of_le_of_ne positive some.symm) apart curved, visible⟩
    · have unlimited : ¬ h.surface.isLimited k = true := by
        rw [plain.unlimited inside]
        decide
      rw [if_neg unlimited]
      refine .weaken (ih (d := d * 10.0) (mul_nonneg positive (by norm_num)) u) (le_refl _) ?_
      refine fun found ⟨shows, sees⟩ => ⟨shows, fun more same visible => ?_⟩
      obtain rfl : tries = more := Nat.succ.inj same
      cases tries with
      | zero =>
        rw [pow_zero, mul_one] at visible
        exact absurd (visible.rise.trans_eq risen.symm) unseen
      | succ tries =>
        refine sees tries rfl ?_
        have same : d * 10.0 * 10 ^ tries = d * 10 ^ (tries + 1) := by
          rw [pow_succ']
          norm_num
          ring
        rwa [same]

theorem measured {r : Ruler ℝ} (same : r.curvature = curvature) {d : ℝ} (positive : 0 ≤ d)
    (enough : (precision h).Visible curvature (d * 10 ^ 4))
    (found : k < h.start.curvatures.size ∧ k < h.start.slopes.size)
    (sensible : h.strategy.Sensible) (t : Trace ℝ) :
    Yields fits (measure h k r d h.strategy.hessianCycles) t 10 fun out =>
      out.2 = true ∧ out.1.Shows h.value slope curvature := by
  obtain ⟨cycles, count⟩ := Nat.exists_eq_succ_of_ne_zero sensible.hessian.ne'
  rw [count]
  refine .bind (k := 0) (riseYields plain size known inside curve eps2 positive 5 t) ?_
  rintro (_ | rise) u ⟨shows, sees⟩ _
  · exact absurd rfl (sees 4 rfl enough)
  · have ruler := Ruler.ofRiseShows (shows rise rfl).1
    refine .expect (fun _ => by simpa using found) fun v _ => ?_
    refine .ite (fun _ => .pure ⟨rfl, ruler⟩) fun unsettled => absurd (.inr ?_) unsettled
    change |((Ruler.ofRise rise).curvature - r.curvature) / _| < _
    rw [ruler.curvature, same, sub_self, zero_div, abs_zero]
    exact sensible.curvature

end

theorem entryOther {x : Array ℝ} {i j : ℕ} (other : i ≠ j) (v : ℝ) :
    entry (x.setIfInBounds i v) j = entry x j := by
  simp only [entry, Array.getD_eq_getD_getElem?]
  rw [Array.getElem?_setIfInBounds_ne other]

theorem shiftBack {x : Array ℝ} {k : ℕ} (inside : k < x.size) (d : ℝ) :
    (shift x k d).setIfInBounds k (entry (shift x k d) k - d) = x := by
  have here : entry (shift x k d) k = entry x k + d := by
    simp [shift, entry, inside]
  rw [here, shift]
  rw [Array.setIfInBounds_setIfInBounds, add_sub_cancel_right]
  refine Array.ext_getElem? fun j => ?_
  rw [Array.getElem?_setIfInBounds]
  split
  case isTrue same =>
    subst same
    simp [entry, inside]
  case isFalse => rfl

/- Rulers of which the first `k` are measured, and the others have a curvature to be confirmed. -/
structure Measured (h : Site ℝ) (n : ℕ) (first : ℕ → ℝ) (second : ℕ → ℕ → ℝ) (least : ℝ) (k : ℕ)
    (rulers : Array (Ruler ℝ)) : Prop where
  size : rulers.size = n
  done : ∀ j r, j < k → rulers[j]? = some r → r.Shows h.value (first j) (second j j)
  left : ∀ j r, k ≤ j → rulers[j]? = some r → r.curvature = second j j ∧ least ≤ r.step

theorem Measured.rulerAt {h : Site ℝ} {n : ℕ} {first : ℕ → ℝ} {second : ℕ → ℕ → ℝ} {least : ℝ}
    {rulers : Array (Ruler ℝ)} (whole : Measured h n first second least n rulers) {k : ℕ}
    (inside : k < n) : ∃ r : Ruler ℝ, rulers[k]? = some r ∧ r.Shows h.value (first k) (second k k) ∧
      reachOf rulers k = r.reach ∧ aheadOf rulers k = r.ahead := by
  have within : k < rulers.size := by rw [whole.size]; exact inside
  have found := Array.getElem?_eq_getElem within
  refine ⟨rulers[k], found, whole.done k _ inside found, ?_, ?_⟩
  · rw [reachOf, found]
    rfl
  · rw [aheadOf, found]
    rfl

theorem beginAt {h : Site ℝ} {n : ℕ} (size : h.x.size = n) {j : ℕ} {r : Ruler ℝ}
    (found : (begin h)[j]? = some r) : j < n ∧
      r = ⟨entry h.start.slopes j, entry h.start.curvatures j, entry h.start.steps j,
        entry h.start.steps j, 0⟩ := by
  have inside : j < n := by
    have within := (Array.getElem?_eq_some_iff.mp found).1
    rwa [begin, size_tabulate, size] at within
  refine ⟨inside, ?_⟩
  rw [begin, tabulate] at found
  simpa [size, inside] using found.symm

theorem beginMeasured {h : Site ℝ} {n : ℕ} {first : ℕ → ℝ} {second : ℕ → ℕ → ℝ} {least : ℝ}
    (size : h.x.size = n) (start : h.start.Shows n first (fun k => second k k) least) :
    Measured h n first second least 0 (begin h) := by
  refine ⟨(size_tabulate _ _).trans size, fun j r none => absurd none (Nat.not_lt_zero j), ?_⟩
  intro j r _ found
  obtain ⟨inside, rfl⟩ := beginAt size found
  refine ⟨?_, start.steps j inside⟩
  change entry h.start.curvatures j = second j j
  rw [start.curvatures, entry_tabulate _ inside]

/- What holds before a place and what holds from it on, once the place was dealt with. -/
theorem setNext {done left : ℕ → Ruler ℝ → Prop} {rulers : Array (Ruler ℝ)} {k : ℕ} {r : Ruler ℝ}
    (before : ∀ j q, j < k → rulers[j]? = some q → done j q) (here : done k r)
    (after : ∀ j q, k ≤ j → rulers[j]? = some q → left j q) :
    (∀ j q, j < k + 1 → (rulers.setIfInBounds k r)[j]? = some q → done j q) ∧
      ∀ j q, k + 1 ≤ j → (rulers.setIfInBounds k r)[j]? = some q → left j q := by
  constructor
  · intro j q less found
    rw [Array.getElem?_setIfInBounds] at found
    split at found
    case isTrue last =>
      subst last
      split at found
      · cases found
        exact here
      · cases found
    case isFalse other => exact before j q (by omega) found
  · intro j q more found
    rw [Array.getElem?_setIfInBounds, if_neg (by omega)] at found
    exact after j q (by omega) found

section
variable {h : Site ℝ} {n : ℕ} {fits : Prop} {first : ℕ → ℝ} {second : ℕ → ℕ → ℝ} {least : ℝ}
  (plain : h.surface.Plain n) (size : h.x.size = n)
  (known : h.value = h.surface.objective.value h.x)
  (quadric : h.surface.objective.Quadric n h.x first second)
include plain size known quadric

theorem allMeasured (eps2 : 0 ≤ (precision h).eps2)
    (start : h.start.Shows n first (fun k => second k k) least) (positive : 0 < least)
    (visible : ∀ k < n, ∀ d, least ≤ d → (precision h).eps2 < second k k / 2 * (d * 10 ^ 4) ^ 2)
    (sensible : h.strategy.Sensible) {limit before : ℕ} (m k : ℕ) (total : k + m = n)
    {rulers : Array (Ruler ℝ)} (part : Measured h n first second least k rulers) (t : Trace ℝ)
    (left : t.calls + m * 10 ≤ before + limit) :
    Yields fits (measureAll h limit before rulers (List.range' k m)) t (m * 10) fun out =>
      out.2 = none ∧ Measured h n first second least n out.1 := by
  -- On the coordinates that are left; each has its ten calls in the budget.
  induction m generalizing k rulers t with
  | zero =>
    obtain rfl : k = n := by omega
    exact .pure ⟨rfl, part⟩
  | succ m ih =>
    have inside : k < n := by omega
    have within : k < rulers.size := by rw [part.size]; exact inside
    obtain ⟨same, wide⟩ := part.left k rulers[k] (le_refl k) (Array.getElem?_eq_getElem within)
    have here : rulers.getD k ⟨0, 0, 0, 0, 0⟩ = rulers[k] := by simp [within]
    have slopes : h.start.slopes.size = n := by rw [start.slopes, size_tabulate]
    have curvatures : h.start.curvatures.size = n := by rw [start.curvatures, size_tabulate]
    rw [List.range'_succ, Nat.succ_mul, Nat.add_comm (m * 10)]
    refine .expect (fun _ => by simp [start.size, inside]) fun u spent => ?_
    rw [here]
    have long : least ≤ Scalar.max (Scalar.abs rulers[k].step) (leastDistance h k) := by
      rw [Exact.max, Exact.abs]
      exact (wide.trans (le_abs_self _)).trans (le_max_left _ _)
    refine .bind (measured plain size known inside (quadric.curve k inside) eps2 same
      (positive.le.trans long) ⟨visible k inside _ long⟩ ⟨by omega, by omega⟩ sensible u) ?_
    rintro ⟨r, _⟩ v ⟨rfl, shown⟩ more
    refine .ite (fun missed => nomatch missed) fun _ => ?_
    refine .expect (fun _ => by simp [curvatures, inside]) fun w spent' => .counting ?_
    refine .ite (fun spends => absurd spends (by omega)) fun _ => ?_
    obtain ⟨done, left⟩ := setNext part.done shown part.left
    exact ih (k + 1) (by omega) ⟨by rw [Array.size_setIfInBounds, part.size], done, left⟩ w (by omega)

theorem rowMixed {rulers : Array (Ruler ℝ)} (whole : Measured h n first second least n rulers)
    {i : ℕ} (row : i < n) (cols : List ℕ) (others : ∀ j ∈ cols, i < j ∧ j < n) {m : Symmetric ℝ}
    (rows : m.size = n) (t : Trace ℝ) :
    Yields fits (mixRow h rulers i (shift h.x i (reachOf rulers i)) m cols) t cols.length fun out =>
      out.1 = shift h.x i (reachOf rulers i) ∧ out.2.size = n ∧ ∀ a b, a < n → b < n →
        (m.element a b = second a b ∨ a = i ∧ b ∈ cols ∨ b = i ∧ a ∈ cols) →
          out.2.element a b = second a b := by
  induction cols generalizing m t with
  | nil => exact .pure ⟨rfl, rows, fun a b _ _ right => by simpa using right⟩
  | cons j rest ih =>
    obtain ⟨after, col⟩ := others j (List.mem_cons_self ..)
    have apart : i ≠ j := by omega
    have width : (shift h.x i (reachOf rulers i)).size = n := by
      rw [shift, Array.size_setIfInBounds, size]
    rw [List.length_cons, Nat.add_comm]
    refine .bind (plain.value (by rw [shift, Array.size_setIfInBounds, width]) t) ?_
    rintro value u same _
    rw [shift, shift, entryOther apart, quadric.mixed i row j col apart] at same
    rw [shiftBack (by rw [width]; exact col)]
    obtain ⟨r, _, shown, reach, ahead⟩ := whole.rulerAt row
    obtain ⟨q, _, shown', reach', ahead'⟩ := whole.rulerAt col
    have mixed : (value + h.value - aheadOf rulers i - aheadOf rulers j)
        / (reachOf rulers i * reachOf rulers j) = second i j := by
      have far := shown.reach.ne'
      have far' := shown'.reach.ne'
      rw [same, reach, reach', ahead, ahead', shown.ahead, shown'.ahead, ← known]
      field_simp
      ring
    rw [mixed]
    refine .weaken (ih (m := m.set i j (second i j)) (fun l later => others l
        (List.mem_cons_of_mem _ later)) rows u) (le_refl _)
      fun out found => ⟨found.1, found.2.1, fun a b left right right' => found.2.2 a b left right ?_⟩
    by_cases here : i = a ∧ j = b ∨ i = b ∧ j = a
    · left
      rcases here with ⟨rfl, rfl⟩ | ⟨rfl, rfl⟩
      · exact m.elementSet _ (by omega) (by omega)
      · rw [Symmetric.elementComm, quadric.comm]
        exact m.elementSet _ (by omega) (by omega)
    · rw [m.elementSetOther _ (by omega) (by omega) (by omega) (by omega) here]
      rcases right' with now | ⟨rfl, later⟩ | ⟨rfl, later⟩
      · exact .inl now
      · rcases List.mem_cons.mp later with rfl | later
        · exact absurd (.inl ⟨rfl, rfl⟩) here
        · exact .inr (.inl ⟨rfl, later⟩)
      · rcases List.mem_cons.mp later with rfl | later
        · exact absurd (.inr ⟨rfl, rfl⟩) here
        · exact .inr (.inr ⟨rfl, later⟩)

theorem rowsMixed {rulers : Array (Ruler ℝ)} (whole : Measured h n first second least n rulers)
    (rows : List ℕ) (inside : ∀ i ∈ rows, i < n) {m : Symmetric ℝ} (width : m.size = n) (t : Trace ℝ) :
    Yields fits (mixAll h rulers h.x m rows) t (rows.length * n) fun out =>
      out.size = n ∧ ∀ a b, a < n → b < n →
        (m.element a b = second a b ∨ a ∈ rows ∧ a < b ∨ b ∈ rows ∧ b < a) →
          out.element a b = second a b := by
  induction rows generalizing m t with
  | nil => exact .pure ⟨width, fun a b _ _ right => by simpa using right⟩
  | cons i rest ih =>
    have row := inside i (List.mem_cons_self ..)
    have cols : ∀ j ∈ (List.range h.x.size).filter (i < ·), i < j ∧ j < n := by
      intro j among
      obtain ⟨below, after⟩ := List.mem_filter.mp among
      exact ⟨of_decide_eq_true after, by rw [← size]; exact List.mem_range.mp below⟩
    have few : ((List.range h.x.size).filter (i < ·)).length ≤ n := by
      refine (List.length_filter_le _ _).trans ?_
      rw [List.length_range, size]
    rw [List.length_cons, Nat.succ_mul, Nat.add_comm]
    refine .bind (.weaken (rowMixed plain size known quadric whole row _ cols width t) few
      fun _ => id) ?_
    rintro ⟨x, m'⟩ u ⟨rfl, width', right⟩ _
    dsimp only
    rw [shiftBack (by rw [size]; exact row)]
    refine .weaken (ih (fun j later => inside j (List.mem_cons_of_mem _ later)) width' u) (le_refl _)
      fun out found => ⟨found.1, fun a b left left' before => found.2 a b left left' ?_⟩
    have among {j : ℕ} (after : i < j) (below : j < n) : j ∈ (List.range h.x.size).filter (i < ·) :=
      List.mem_filter.mpr ⟨List.mem_range.mpr (by omega), decide_eq_true after⟩
    rcases before with now | ⟨later, order⟩ | ⟨later, order⟩
    · exact .inl (right a b left left' (.inl now))
    · rcases List.mem_cons.mp later with rfl | later
      · exact .inl (right a b left left' (.inr (.inl ⟨rfl, among order left'⟩)))
      · exact .inr (.inl ⟨later, order⟩)
    · rcases List.mem_cons.mp later with rfl | later
      · exact .inl (right a b left left' (.inr (.inr ⟨rfl, among order left⟩)))
      · exact .inr (.inr ⟨later, order⟩)

/- What the curvatures leave is filled. -/
theorem mixedExact {rulers : Array (Ruler ℝ)} (whole : Measured h n first second least n rulers)
    (t : Trace ℝ) :
    Yields fits (mixAll h rulers h.x (.ofDiagonal (rulers.map (·.curvature))) (List.range h.x.size)) t
      (n * n) (· = .build n second) := by
  let diagonal := Symmetric.ofDiagonal (rulers.map (·.curvature))
  have rows : diagonal.size = n := Array.size_map.trans whole.size
  rw [size]
  refine .weaken (rowsMixed plain size known quadric whole (List.range n)
    (fun i among => List.mem_range.mp among) rows t) (by rw [List.length_range]) ?_
  rintro m ⟨width, right⟩
  refine Symmetric.sameElements width fun i j col row => ?_
  rw [width] at row
  rw [Symmetric.elementBuild _ col row]
  refine right i j row (by omega) ?_
  rcases Nat.lt_or_eq_of_le col with before | rfl
  · exact .inr (.inr ⟨List.mem_range.mpr (before.trans row), before⟩)
  · obtain ⟨r, found, shown, _⟩ := whole.rulerAt row
    have here : diagonal.element j j = entry (rulers.map (·.curvature)) j :=
      Symmetric.elementOfDiagonal (lt_of_lt_of_eq row rows.symm)
    refine .inl (here.trans ?_)
    simpa [entry, found] using shown.curvature

end

theorem gradientOfWhole {h : Site ℝ} {n : ℕ} {first : ℕ → ℝ} {second : ℕ → ℕ → ℝ} {least : ℝ}
    (start : h.start.Full n) {rulers : Array (Ruler ℝ)}
    (whole : Measured h n first second least n rulers) :
    (gradientOf h rulers).Full n ∧ (gradientOf h rulers).slopes = tabulate n first ∧
      ∀ k < n, 0 < entry (gradientOf h rulers).steps k := by
  have width {f : Ruler ℝ → ℝ} : (rulers.map f).size = n := by rw [Array.size_map, whole.size]
  refine ⟨⟨?_, ?_, ?_⟩, ?_, fun k inside => ?_⟩
  · exact (Vector.size_overlay _ _).trans start.slopes
  · exact (Vector.size_overlay _ _).trans start.curvatures
  · exact (Vector.size_overlay _ _).trans start.steps
  · refine (Vector.overlaySame (start.slopes.trans width.symm)).trans ?_
    refine tabulateKnown whole.size fun k r found => ?_
    have below := (Array.getElem?_eq_some_iff.mp found).1
    exact (whole.done k r (by rw [← whole.size]; exact below) found).slope
  · obtain ⟨r, found, shown, _⟩ := whole.rulerAt inside
    have step : entry (gradientOf h rulers).steps k = r.step := by
      change entry (Vector.overlay h.start.steps (rulers.map (·.step))) k = r.step
      rw [Vector.overlaySame (start.steps.trans width.symm)]
      simp [entry, found]
    rw [step, shown.step]
    exact shown.reach

theorem slopesExact {h : Site ℝ} {n : ℕ} {fits : Prop} {k : Knowledge ℝ} {first second : ℕ → ℝ}
    (plain : h.surface.Plain n) (size : k.point.x.size = n)
    (curves : ∀ i < n, h.surface.objective.Curve k.point.x i (first i) (second i))
    (eps2 : 0 < h.surface.precision.eps2) (up : 0 < h.surface.errorDef)
    (found : k.gradient.provided = false) {g : Gradient ℝ} (full : g.Full n)
    (exact : g.slopes = tabulate n first) (steps : ∀ i < n, 0 < entry g.steps i) (t : Trace ℝ) :
    Yields fits (slopes h k g) t (n * (2 * h.strategy.hessianGradientCycles))
      (·.slopes = tabulate n first) := by
  rw [slopes, found]
  refine .ite (fun isLow => nomatch isLow) fun _ => .ite (fun _ => .pure exact) fun _ => ?_
  exact .map (Surface.refinedExact size (fun _ x width => plain.answers (width.trans size))
    (fun i inside => plain.arc size (curves i inside)) eps2 up full exact steps _ t)

section
variable {s : Surface ℝ} {n : ℕ} {fits : Prop} {k : Knowledge ℝ} {st : Strategy ℝ} {first : ℕ → ℝ}
  {second : ℕ → ℕ → ℝ} {least : ℝ} (plain : s.Plain n) (size : k.point.x.size = n)
  (quadric : s.objective.Quadric n k.point.x first second)
  (shown : k.gradient.Shows n first (fun k => second k k) least) (positive : 0 < least)
  (visible : ∀ k < n, ∀ d, least ≤ d → s.precision.eps2 < second k k / 2 * (d * 10 ^ 4) ^ 2)
  (eps2 : 0 < s.precision.eps2) (up : 0 < s.errorDef) (sensible : st.Sensible)
include plain size quadric shown positive visible eps2 up sensible

def maxCalls (st : Strategy ℝ) (n : ℕ) : ℕ := 1 + (n * 10 + (n * (2 * st.hessianGradientCycles) + n * n))

theorem matrixExact {limit before : ℕ} (t : Trace ℝ) (left : t.calls + 1 + n * 10 ≤ before + limit) :
    Yields fits (matrix s st k limit before) t (maxCalls st n) fun out =>
      ∃ g, out = .ok (.build n second, g) ∧ g.slopes = tabulate n first := by
  have start : (startGradient s k).run t =
      (.numerical k.gradient.slopes k.gradient.curvatures k.gradient.steps, t) := by
    simp [startGradient, shown.found, shown.valid]
    rfl
  let g : Gradient ℝ := .numerical k.gradient.slopes k.gradient.curvatures k.gradient.steps
  have began : g.Shows n first (fun k => second k k) least :=
    ⟨shown.slopes, shown.curvatures, shown.size, shown.steps, rfl, rfl⟩
  have full : g.Full n :=
    ⟨by rw [began.slopes, size_tabulate], by rw [began.curvatures, size_tabulate], shown.size⟩
  refine .skip start (.bind (plain.value size t) fun value u asked spent => ?_)
  let aim := Scalar.sqrt s.precision.eps2 * (Scalar.abs value + s.errorDef)
  let h : Site ℝ := ⟨s, st, k.point.x, value, aim, g⟩
  have measured : Yields fits (measureAll h limit before (begin h) (List.range k.size)) u (n * 10)
      fun out => out.2 = none ∧ Measured h n first second least n out.1 := by
    rw [Knowledge.size, size, List.range_eq_range']
    exact allMeasured (h := h) plain size asked quadric eps2.le began positive visible sensible n 0
      (Nat.zero_add n) (beginMeasured size began) u (by omega)
  refine .bind measured ?_
  · rintro ⟨rulers, _⟩ v ⟨rfl, whole⟩ _
    dsimp only
    obtain ⟨complete, slopes, steps⟩ := gradientOfWhole (h := h) full whole
    refine .bind (slopesExact (h := h) plain size quadric.curve eps2 up shown.found complete slopes
      steps v) fun g' w exact _ => ?_
    refine .map (.weaken (mixedExact (h := h) plain size asked quadric whole w) (le_refl _) ?_)
    rintro m rfl
    exact ⟨g', rfl, exact⟩

end
end Hessian

/- The second derivatives of a quadratic objective, where their matrix is accepted and has an inverse. -/
theorem Surface.secondDerivativesExact {s : Surface ℝ} {n : ℕ} {fits : Prop} {k : Knowledge ℝ}
    {st : Strategy ℝ} {first : ℕ → ℝ} {second : ℕ → ℕ → ℝ} {least : ℝ} {inverse : Symmetric ℝ}
    (plain : s.Plain n) (size : k.point.x.size = n) (nonempty : 0 < n)
    (quadric : s.objective.Quadric n k.point.x first second)
    (shown : k.gradient.Shows n first (fun k => second k k) least) (positive : 0 < least)
    (visible : ∀ k < n, ∀ d, least ≤ d → s.precision.eps2 < second k k / 2 * (d * 10 ^ 4) ^ 2)
    (eps2 : 0 < s.precision.eps2) (up : 0 < s.errorDef) (sensible : st.Sensible)
    (accepted : (ErrorMatrix.usable (.build n second) 1).makePosDef s.precision =
      .usable (.build n second) 1)
    (inverted : (Symmetric.build n second).invert = .ok inverse) (rows : inverse.size = n) (t : Trace ℝ)
    (countable : ∀ c ≤ t.calls + Hessian.maxCalls st n, fits → Count.fits (k.calls + c)) :
    Yields fits (s.secondDerivatives st k 0) t (Hessian.maxCalls st n) fun next =>
      next.point = k.point ∧ next.error = .usable inverse 0 ∧ next.gradient.slopes = tabulate n first ∧
        next.edm = next.error.edm next.gradient := by
  have width : k.size = n := size
  have room : t.calls + 1 + n * 10 ≤ t.calls + defaultBudget k.size := by
    rw [width, defaultBudget]
    omega
  rw [secondDerivatives, if_neg (by omega), if_pos rfl]
  refine .counting (.bind (k := 0) (Hessian.matrixExact plain size quadric shown positive visible eps2 up
    sensible t room) ?_)
  rintro _ u ⟨g, rfl, exact⟩ spent
  have concluded (c : ℕ) : Hessian.conclude k s.precision c (.ok (.build n second, g)) =
      ⟨k.point, .usable inverse 0, g, (ErrorMatrix.usable inverse 0).edm g, k.calls + c⟩ := by
    have matrix : (ErrorMatrix.usable (.build n second) (1 : ℝ)).inverse = .build n second := rfl
    have unmade : (ErrorMatrix.usable (.build n second) (1 : ℝ)).isMadePosDef = false := rfl
    simp only [Hessian.conclude, accepted, matrix, inverted, unmade]
    rfl
  have covered : (ErrorMatrix.usable inverse (0 : ℝ)).covers g = true := by
    refine ErrorMatrix.coversSame ?_
    rw [exact, size_tabulate]
    exact rows.symm
  refine .counting (.expect (countable _ spent) fun v _ => ?_)
  rw [concluded]
  refine .expect (fun _ => ?_) fun w _ => .pure ⟨rfl, rfl, exact, rfl⟩
  dsimp only
  rw [covered, Bool.or_true]

end ParamFit
