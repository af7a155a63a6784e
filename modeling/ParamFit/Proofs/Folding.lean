import ParamFit.Proofs.Guessing

/-! External values taken inside and out again. Within the limits a value comes back as it is, and the
order of values is kept or turned round as a whole, except close to a limit, where the fold is flat: there
one point stands in for all of them. A value at a limit or beyond it comes back as that point too. The
height over a single limit is squared before it is tested, so a value that lies more than two beyond
such a limit is taken for one as far inside. -/
namespace ParamFit
namespace Limits
variable {prec : Precision ℝ} {l : Limits ℝ} {v b h : ℝ}

/- Strictly within the limits. -/
def Inside (v : ℝ) : Limits ℝ → Prop
  | .free => True
  | .both lo hi => lo < v ∧ v < hi
  | .lower lo => lo < v
  | .upper hi => v < hi

/- Values for which a point just inside stands in. -/
def Flat (prec : Precision ℝ) (v : ℝ) : Limits ℝ → Prop
  | .free => False
  | .both lo hi => 1 - prec.eps2 < share lo hi v * share lo hi v
  | .lower lo => (v - lo + 1) * (v - lo + 1) < 1 + prec.eps2
  | .upper hi => (hi - v + 1) * (hi - v + 1) < 1 + prec.eps2

/- A limit that a value is at, or beyond. -/
inductive Passed (v : ℝ) : Limits ℝ → ℝ → Prop where
  | below {lo hi : ℝ} (reached : v ≤ lo) : Passed v (.both lo hi) lo
  | above {lo hi : ℝ} (reached : hi ≤ v) : Passed v (.both lo hi) hi
  | lower {lo : ℝ} (reached : v ≤ lo) : Passed v (.lower lo) lo
  | upper {hi : ℝ} (reached : hi ≤ v) : Passed v (.upper hi) hi

/- How far from a value, or from a limit, the point may be that stands in. -/
noncomputable def leeway (prec : Precision ℝ) : Limits ℝ → ℝ
  | .free => 0
  | .both lo hi => 32 * prec.eps2 * Max.max 1 (hi - lo)
  | .lower _ | .upper _ => 32 * prec.eps2

noncomputable def back (l : Limits ℝ) (prec : Precision ℝ) (v : ℝ) : ℝ :=
  l.toExternal (l.toInternal prec v)

theorem clearInside : l.Clear prec v ↔ l.Inside v ∧ ¬ l.Flat prec v := by
  cases l with
  | free => simp [Clear, Inside, Flat]
  | both lo hi => simp [Clear, Inside, Flat]
  | lower lo => simp [Clear, Inside, Flat]
  | upper hi => simp [Clear, Inside, Flat]

/-! ### Heights over a single limit -/

theorem backLower (lo v : ℝ) :
    (lower lo).back prec v = lo + (hyperbola (ofHeight prec (v - lo + 1)) - 1) := by
  change lo - 1 + hyperbola (ofHeight prec (v - lo + 1)) = _
  ring

theorem backUpper (hi v : ℝ) :
    (upper hi).back prec v = hi - (hyperbola (ofHeight prec (hi - v + 1)) - 1) := by
  change hi + 1 - hyperbola (ofHeight prec (hi - v + 1)) = _
  ring

/- The sign of a height is lost. -/
theorem heightClear (positive : 0 < prec.eps2) (clear : 1 + prec.eps2 ≤ h * h) :
    hyperbola (ofHeight prec h) = |h| := by
  have square := hyperbolaSquare (ofHeight prec h)
  have least := hyperbolaLeast (ofHeight prec h)
  rw [ofHeightClear clear, Real.mul_self_sqrt (by linarith), sub_add_cancel,
    ← ofHeightClear clear] at square
  rw [← abs_of_nonneg (zero_le_one.trans least)]
  exact abs_eq_abs.mpr (mul_self_eq_mul_self_iff.mp square)

theorem heightFlat (positive : 0 < prec.eps2) (flat : h * h < 1 + prec.eps2) :
    hyperbola (ofHeight prec h) ≤ 1 + 32 * prec.eps2 := by
  have near : ofHeight prec h = margin prec := if_pos flat
  have square := hyperbolaSquare (margin prec)
  have least := hyperbolaLeast (margin prec)
  rw [marginSquare positive] at square
  rw [near]
  nlinarith

/- A height above the limit is found again, or stood in for by one that is as low. -/
theorem heightNear (positive : 0 < prec.eps2) (above : 1 < h) (flat : h * h < 1 + prec.eps2) :
    |hyperbola (ofHeight prec h) - h| ≤ 32 * prec.eps2 := by
  have least := hyperbolaLeast (ofHeight prec h)
  have most := heightFlat positive flat
  exact abs_le.mpr ⟨by nlinarith, by linarith⟩

/- A height below the limit is raised to just above it, unless it is so far below that it is taken for one
as far above. -/
theorem heightRaised (positive : 0 < prec.eps2) (below : h ≤ 1) :
    hyperbola (ofHeight prec h) - 1 ≤ 32 * prec.eps2 ↔ 1 - h ≤ 2 + 32 * prec.eps2 := by
  by_cases flat : h * h < 1 + prec.eps2
  · have most := heightFlat positive flat
    exact ⟨fun _ => by nlinarith, fun _ => by linarith⟩
  · have negative : h < 0 := by nlinarith
    rw [heightClear positive (not_lt.mp flat), abs_of_neg negative]
    constructor <;> intro near <;> linarith

/-! ### Shares between two limits -/

theorem backBoth (lo hi v : ℝ) : (both lo hi).back prec v =
    lo + (hi - lo) * (Real.sin ((both lo hi).toInternal prec v) + 1) / 2 := by
  change lo + (0.5 : ℝ) * (hi - lo) * (Real.sin ((both lo hi).toInternal prec v) + 1) = _
  ring

theorem shareOf {lo hi : ℝ} (ordered : lo < hi) (v : ℝ) :
    v = lo + (hi - lo) * (share lo hi v + 1) / 2 := by
  have wide : hi - lo ≠ 0 := (sub_pos.mpr ordered).ne'
  rw [shareTwice]
  field_simp
  ring

theorem marginCosine (positive : 0 < prec.eps2) : 1 - Real.cos (margin prec) ≤ 32 * prec.eps2 := by
  have cosine := Real.one_sub_sq_div_two_le_cos (x := margin prec)
  have square := marginSquare positive
  nlinarith

theorem sineFlat {lo hi : ℝ} (flat : (both lo hi).Flat prec v) :
    Real.sin ((both lo hi).toInternal prec v) =
      if share lo hi v < 0 then -Real.cos (margin prec) else Real.cos (margin prec) := by
  rw [bothFlat flat]
  split
  · rw [neg_add_eq_sub, ← neg_sub, Real.sin_neg, Real.sin_pi_div_two_sub]
  · rw [Real.sin_pi_div_two_sub]

/- Close to a limit every share is as close to the one that stands in. -/
theorem shareNear {lo hi : ℝ} (positive : 0 < prec.eps2) (within : |share lo hi v| ≤ 1)
    (flat : (both lo hi).Flat prec v) :
    |Real.sin ((both lo hi).toInternal prec v) - share lo hi v| ≤ 32 * prec.eps2 := by
  have cosine := marginCosine positive
  have most := Real.cos_le_one (margin prec)
  have square : 1 - prec.eps2 < |share lo hi v| * |share lo hi v| := by
    rw [abs_mul_abs_self]
    exact flat
  have close : 1 - |share lo hi v| ≤ prec.eps2 := by nlinarith [abs_nonneg (share lo hi v)]
  rw [sineFlat flat]
  split
  case isTrue negative =>
    rw [abs_of_neg negative] at within close
    exact abs_le.mpr ⟨by linarith, by linarith⟩
  case isFalse other =>
    rw [abs_of_nonneg (not_lt.mp other)] at within close
    exact abs_le.mpr ⟨by linarith, by linarith⟩

theorem shareInside {lo hi : ℝ} (inside : (both lo hi).Inside v) : |share lo hi v| ≤ 1 := by
  have wide : 0 < hi - lo := by linarith [inside.1, inside.2]
  have low : 0 ≤ 2 * (v - lo) / (hi - lo) := div_nonneg (by linarith [inside.1]) wide.le
  have high : 2 * (v - lo) / (hi - lo) ≤ 2 := by
    rw [div_le_iff₀ wide]
    linarith [inside.2]
  rw [shareTwice]
  exact abs_le.mpr ⟨by linarith, by linarith⟩

theorem leewayBoth {lo hi d : ℝ} (positive : 0 < prec.eps2) (ordered : lo < hi)
    (near : |d| ≤ 32 * prec.eps2) : |(hi - lo) * d / 2| ≤ (both lo hi).leeway prec := by
  have wide : 0 < hi - lo := sub_pos.mpr ordered
  have part : |(hi - lo) * d / 2| = (hi - lo) * |d| / 2 := by
    rw [abs_div, abs_mul, abs_of_pos wide, abs_two]
  have most : hi - lo ≤ Max.max 1 (hi - lo) := le_max_right _ _
  have whole : (both lo hi).leeway prec = 32 * prec.eps2 * Max.max 1 (hi - lo) := rfl
  rw [part, whole]
  nlinarith [abs_nonneg d]

/-! ### Within the limits -/

theorem backClear (positive : 0 < prec.eps2) (ordered : ∀ lo hi, l = .both lo hi → lo < hi)
    (clear : l.Clear prec v) : l.back prec v = v := by
  cases l with
  | free => rfl
  | both lo hi =>
    obtain ⟨least, most⟩ := shareBound positive clear.2
    rw [backBoth, bothInternal clear.2, Real.sin_arcsin least.le most.le]
    exact (shareOf (ordered lo hi rfl) v).symm
  | lower lo =>
    rw [backLower, heightClear positive clear.2, abs_of_pos (by linarith [clear.1])]
    ring
  | upper hi =>
    rw [backUpper, heightClear positive clear.2, abs_of_pos (by linarith [clear.1])]
    ring

theorem backFlat (positive : 0 < prec.eps2) (ordered : ∀ lo hi, l = .both lo hi → lo < hi)
    (inside : l.Inside v) (flat : l.Flat prec v) : |l.back prec v - v| ≤ l.leeway prec := by
  cases l with
  | free => exact flat.elim
  | both lo hi =>
    have near := shareNear positive (shareInside inside) flat
    have apart : (both lo hi).back prec v - v =
        (hi - lo) * (Real.sin ((both lo hi).toInternal prec v) - share lo hi v) / 2 := by
      rw [backBoth]
      linear_combination -shareOf (ordered lo hi rfl) v
    rw [apart]
    exact leewayBoth positive (ordered lo hi rfl) near
  | lower lo =>
    have above : 1 < v - lo + 1 := by linarith [show lo < v from inside]
    have apart : (lower lo).back prec v - v =
        hyperbola (ofHeight prec (v - lo + 1)) - (v - lo + 1) := by
      rw [backLower]
      ring
    rw [apart]
    exact heightNear positive above flat
  | upper hi =>
    have above : 1 < hi - v + 1 := by linarith [show v < hi from inside]
    have apart : (upper hi).back prec v - v =
        -(hyperbola (ofHeight prec (hi - v + 1)) - (hi - v + 1)) := by
      rw [backUpper]
      ring
    rw [apart, abs_neg]
    exact heightNear positive above flat

theorem heightRises {g : ℝ} (above : 1 < g) (clear : 1 + prec.eps2 ≤ g * g)
    (less : g < h) : ofHeight prec g < ofHeight prec h := by
  have more : g * g < h * h := by nlinarith
  rw [ofHeightClear clear, ofHeightClear (clear.trans more.le)]
  exact Real.sqrt_lt_sqrt (by nlinarith) (by linarith)

theorem foldedBack (positive : 0 < prec.eps2) (ordered : ∀ lo hi, l = .both lo hi → lo < hi) :
    (∀ v, l.Inside v → (¬ l.Flat prec v → l.back prec v = v) ∧
      (l.Flat prec v → |l.back prec v - v| ≤ l.leeway prec)) ∧
    let kept := {v | l.Inside v ∧ ¬ l.Flat prec v}
    match l with
    | .upper _ => StrictAntiOn (l.toInternal prec) kept
    | _ => StrictMonoOn (l.toInternal prec) kept := by
  refine ⟨fun v inside => ⟨fun steep => ?_, backFlat positive ordered inside⟩, ?_⟩
  · exact backClear positive ordered (clearInside.mpr ⟨inside, steep⟩)
  intro kept
  cases l with
  | free => exact strictMonoOn_id
  | both lo hi =>
    intro a first b second less
    obtain ⟨-, clear⟩ := clearInside.mpr first
    obtain ⟨-, later⟩ := clearInside.mpr second
    have low := shareBound positive clear
    have high := shareBound positive later
    rw [bothInternal clear, bothInternal later]
    exact Real.strictMonoOn_arcsin ⟨low.1.le, low.2.le⟩ ⟨high.1.le, high.2.le⟩
      (shareRises (ordered lo hi rfl) less)
  | lower lo =>
    intro a first b second less
    obtain ⟨above, clear⟩ := clearInside.mpr first
    exact heightRises (by linarith) clear (by linarith)
  | upper hi =>
    intro a first b second less
    obtain ⟨above, clear⟩ := clearInside.mpr second
    exact heightRises (by linarith) clear (by linarith)

theorem machineFine : 0 < (Precision.machine : Precision ℝ).eps2 ∧
    (Precision.machine : Precision ℝ).eps2 ≤ 1 / 1000 := by
  rw [machineEps2]
  norm_num

theorem foldedBackUnit :
    let l := both (0 : ℝ) 1
    let prec : Precision ℝ := .machine
    0 < prec.eps2 ∧ (∀ lo hi, l = .both lo hi → lo < hi) ∧
      (∀ v, l.Inside v → (¬ l.Flat prec v → l.back prec v = v) ∧
        (l.Flat prec v → |l.back prec v - v| ≤ l.leeway prec)) ∧
      StrictMonoOn (l.toInternal prec) {v | l.Inside v ∧ ¬ l.Flat prec v} := by
  intro l prec
  have ordered (lo hi : ℝ) (same : l = .both lo hi) : lo < hi := by
    obtain ⟨rfl, rfl⟩ := both.inj same
    exact zero_lt_one
  exact ⟨machineFine.1, ordered, foldedBack machineFine.1 ordered⟩

/-! ### At a limit and beyond -/

theorem marginNarrow (positive : 0 < prec.eps2) (fine : prec.eps2 ≤ 1 / 1000) :
    margin prec ≤ Real.pi / 2 := by
  have square := marginSquare positive
  nlinarith [Real.pi_gt_three]

/- Wherever a value lay, it comes back to where it is found again. -/
theorem backClears (positive : 0 < prec.eps2) (ordered : ∀ lo hi, l = .both lo hi → lo < hi)
    (narrow : ∀ lo hi, l = .both lo hi → margin prec ≤ Real.pi / 2) (v : ℝ) :
    l.Clear prec (l.back prec v) := by
  have principal := internalPrincipal positive narrow v
  have high (h : ℝ) : 1 < hyperbola (ofHeight prec h) ∧
      1 + prec.eps2 ≤ hyperbola (ofHeight prec h) * hyperbola (ofHeight prec h) := by
    have least := hyperbolaLeast (ofHeight prec h)
    have apart := (heightPrincipal positive h).2
    rw [hyperbolaSquare]
    refine ⟨?_, by linarith⟩
    nlinarith [hyperbolaSquare (ofHeight prec h)]
  cases l with
  | free => trivial
  | both lo hi =>
    have wide : 0 < hi - lo := sub_pos.mpr (ordered lo hi rfl)
    obtain ⟨least, most⟩ := shareBound positive principal.2
    refine ⟨?_, ?_⟩
    · rw [backBoth]
      constructor <;> nlinarith
    · rw [back, shareOutside (ordered lo hi rfl)]
      exact principal.2
  | lower lo =>
    obtain ⟨above, clear⟩ := high (v - lo + 1)
    have height : (lower lo).back prec v - lo + 1 = hyperbola (ofHeight prec (v - lo + 1)) := by
      rw [backLower]
      ring
    exact ⟨by linarith, by rwa [height]⟩
  | upper hi =>
    obtain ⟨above, clear⟩ := high (hi - v + 1)
    have height : hi - (upper hi).back prec v + 1 = hyperbola (ofHeight prec (hi - v + 1)) := by
      rw [backUpper]
      ring
    exact ⟨by linarith, by rwa [height]⟩

/- So the values that come back as they are do not lie where the fold is flat. -/
theorem backSteady (positive : 0 < prec.eps2) (ordered : ∀ lo hi, l = .both lo hi → lo < hi)
    (narrow : ∀ lo hi, l = .both lo hi → margin prec ≤ Real.pi / 2) :
    l.back prec v = v ↔ l.Clear prec v :=
  ⟨fun same => same ▸ backClears positive ordered narrow v, backClear positive ordered⟩

theorem sharePassed {lo hi : ℝ} (ordered : lo < hi) :
    (v ≤ lo → share lo hi v ≤ -1) ∧ (hi ≤ v → 1 ≤ share lo hi v) := by
  have wide : 0 < hi - lo := sub_pos.mpr ordered
  rw [shareTwice]
  refine ⟨fun below => ?_, fun above => ?_⟩
  · have low : 2 * (v - lo) / (hi - lo) ≤ 0 := div_nonpos_of_nonpos_of_nonneg (by linarith) wide.le
    linarith
  · have high : 2 ≤ 2 * (v - lo) / (hi - lo) := by
      rw [le_div_iff₀ wide]
      linarith
    linarith

/- Beyond one of two limits the share is larger than any within, so it is flat there, and it is the stand-in
at that limit that comes back. -/
theorem bothPulled {lo hi : ℝ} (positive : 0 < prec.eps2) (ordered : lo < hi)
    (passed : (both lo hi).Passed v b) :
    |(both lo hi).back prec v - b| ≤ (both lo hi).leeway prec := by
  have near : |1 - Real.cos (margin prec)| ≤ 32 * prec.eps2 := by
    rw [abs_of_nonneg (sub_nonneg.mpr (Real.cos_le_one _))]
    exact marginCosine positive
  have room := leewayBoth positive ordered near
  obtain ⟨below, above⟩ := sharePassed (v := v) ordered
  have outside (far : 1 ≤ share lo hi v * share lo hi v) : (both lo hi).Flat prec v :=
    (sub_lt_self 1 positive).trans_le far
  cases passed with
  | below reached =>
    have low := below reached
    rw [backBoth, sineFlat (outside (by nlinarith)), if_pos (by linarith)]
    convert room using 2
    ring
  | above reached =>
    have high := above reached
    rw [backBoth, sineFlat (outside (by nlinarith)), if_neg (by linarith), ← abs_neg]
    convert room using 2
    ring

/- What is at a limit or beyond comes back within the limits; next to the limit it passed only if there
are two of them or if it is not more than two beyond. -/
theorem beyondPulled (positive : 0 < prec.eps2) (fine : prec.eps2 ≤ 1 / 1000)
    (ordered : ∀ lo hi, l = .both lo hi → lo < hi) (passed : l.Passed v b) :
    l.Inside (l.back prec v) ∧ (|l.back prec v - b| ≤ l.leeway prec ↔
      (∃ lo hi, l = .both lo hi) ∨ |v - b| ≤ 2 + 32 * prec.eps2) := by
  have clear := backClears positive ordered (fun _ _ _ => marginNarrow positive fine) v
  have inside := (clearInside.mp clear).1
  refine ⟨inside, ?_⟩
  cases l with
  | free => cases passed
  | both lo hi =>
    have near := bothPulled positive (ordered lo hi rfl) passed
    exact iff_of_true near (.inl ⟨lo, hi, rfl⟩)
  | lower lo =>
    cases passed with
    | lower reached =>
      have raised := heightRaised positive (h := v - b + 1) (by linarith)
      have distance : |v - b| = 1 - (v - b + 1) := by
        rw [abs_of_nonpos (by linarith)]
        ring
      rw [abs_of_pos (sub_pos.mpr inside), backLower, add_sub_cancel_left, distance]
      exact raised.trans (by simp)
  | upper hi =>
    cases passed with
    | upper reached =>
      have raised := heightRaised positive (h := b - v + 1) (by linarith)
      have distance : |v - b| = 1 - (b - v + 1) := by
        rw [abs_of_nonneg (by linarith)]
        ring
      rw [abs_of_neg (sub_neg.mpr inside), backUpper, sub_sub_cancel_left, neg_neg, distance]
      exact raised.trans (by simp)

theorem beyondPulledMirrored :
    let l := lower (0 : ℝ)
    let prec : Precision ℝ := .machine
    0 < prec.eps2 ∧ prec.eps2 ≤ 1 / 1000 ∧ (∀ lo hi, l = .both lo hi → lo < hi) ∧ l.Passed (-5) 0 ∧
      l.Inside (l.back prec (-5)) ∧ (|l.back prec (-5) - 0| ≤ l.leeway prec ↔
        (∃ lo hi, l = .both lo hi) ∨ |-5 - 0| ≤ 2 + 32 * prec.eps2) := by
  intro l prec
  obtain ⟨positive, fine⟩ := machineFine
  have passed : l.Passed (-5) 0 := .lower (by norm_num)
  exact ⟨positive, fine, nofun, passed, beyondPulled positive fine nofun passed⟩

/- Far beyond a single limit nothing is pulled to it: five below zero comes back as three above. -/
theorem beyondMirrored :
    ¬ ∀ (l : Limits ℝ) (prec : Precision ℝ) (v b : ℝ), 0 < prec.eps2 → prec.eps2 ≤ 1 / 1000 →
      (∀ lo hi, l = .both lo hi → lo < hi) → l.Passed v b →
      l.Inside (l.back prec v) ∧ |l.back prec v - b| ≤ l.leeway prec := by
  intro pulls
  obtain ⟨positive, fine⟩ := machineFine
  have near := (pulls (lower 0) .machine (-5) 0 positive fine nofun (.lower (by norm_num))).2
  have clear : 1 + (Precision.machine : Precision ℝ).eps2 ≤ (-5 - 0 + 1) * (-5 - 0 + 1) := by linarith
  have mirrored : (lower 0).back .machine (-5) = 3 := by
    rw [backLower, heightClear positive clear]
    norm_num
  have most : (lower (0 : ℝ)).leeway .machine = 32 * (Precision.machine : Precision ℝ).eps2 := rfl
  rw [mirrored, most, sub_zero, abs_of_pos (by norm_num)] at near
  linarith

end Limits
end ParamFit
