import ParamFit.Proofs.Ahead

/-! The last phase of a search, which lays parabolas through three samples. As long as one of them is at or
below the level and another one above it, two of them enclose the crossing and the third one gives way.
Sorting finds the three: on either side the sample whose value is nearest to the level, and the one that is
left over. The two stay, so the next three enclose the crossing as well, whatever the trial finds. -/
namespace ParamFit

theorem Exact.leClamp {a lo hi : ℝ} (ordered : lo ≤ hi) : lo ≤ Scalar.clamp a lo hi := by
  rw [Scalar.clamp]
  split
  case isTrue => exact le_refl lo
  case isFalse above =>
    split
    case isTrue => exact ordered
    case isFalse => exact not_lt.mp above

namespace Approach
variable {aim : ℝ} {t : Trio ℝ} {left right out : Fin 3}

/- One sample is at or below the level, one above it. -/
structure Brackets (aim : ℝ) (t : Trio ℝ) : Prop where
  below : ∃ i, (t.get i).y ≤ aim
  above : ∃ i, aim < (t.get i).y

/- What a round makes of three samples: two that are nearest to the level on either side, by their values,
and the one that gives way. -/
structure Chosen (aim : ℝ) (t : Trio ℝ) (left right out : Fin 3) : Prop where
  sorted : sides aim t = ⟨some left, some right, some out⟩
  apart : left ≠ right ∧ left ≠ out ∧ right ≠ out
  below : (t.get left).y ≤ aim
  nearestBelow : ∀ i, (t.get i).y ≤ aim → |(t.get left).y - aim| ≤ |(t.get i).y - aim|
  above : aim < (t.get right).y
  nearestAbove : ∀ i, aim < (t.get i).y → |(t.get right).y - aim| ≤ |(t.get i).y - aim|

/-! ### Sorting -/

namespace Sides

/- What is known after some samples were sorted. On each side the nearest one is kept, and what is passed
over or displaced is out; as long as nothing is, no sample is lost. -/
structure Sorted (aim : ℝ) (t : Trio ℝ) (seen : List (Fin 3)) (s : Sides) : Prop where
  left : ∀ l, s.left = some l → l ∈ seen ∧ (t.get l).y ≤ aim ∧
    ∀ i ∈ seen, (t.get i).y ≤ aim → (t.get i).y ≤ (t.get l).y
  noLeft : s.left = none → ∀ i ∈ seen, aim < (t.get i).y
  right : ∀ r, s.right = some r → r ∈ seen ∧ aim < (t.get r).y ∧
    ∀ i ∈ seen, aim < (t.get i).y → (t.get r).y ≤ (t.get i).y
  noRight : s.right = none → ∀ i ∈ seen, (t.get i).y ≤ aim
  out : ∀ o, s.out = some o → o ∈ seen ∧ s.left ≠ some o ∧ s.right ≠ some o
  noOut : s.out = none → ∀ i ∈ seen, s.left = some i ∨ s.right = some i

theorem startSorted (aim : ℝ) (t : Trio ℝ) : ({} : Sides).Sorted aim t [] :=
  ⟨nofun, nofun, nofun, nofun, nofun, nofun⟩

theorem Sorted.next {seen : List (Fin 3)} {s : Sides} (sorted : s.Sorted aim t seen) {i : Fin 3}
    (fresh : i ∉ seen) : (sort aim t s i).Sorted aim t (i :: seen) := by
  obtain ⟨left, noLeft, right, noRight, out, noOut⟩ := sorted
  obtain ⟨l?, r?, o?⟩ := s
  rw [sort]
  dsimp only at *
  -- only the side on which the sample lies changes: it is the first one there, or displaces, or is out
  split
  case isTrue above =>
    cases r? with
    | none => constructor <;> grind
    | some r =>
      dsimp only
      split
      case isTrue farther => constructor <;> grind
      case isFalse nearer => constructor <;> grind
  case isFalse below =>
    cases l? with
    | none => constructor <;> grind
    | some l =>
      dsimp only
      split
      case isTrue farther => constructor <;> grind
      case isFalse nearer => constructor <;> grind

theorem sidesSorted (aim : ℝ) (t : Trio ℝ) : (sides aim t).Sorted aim t [2, 1, 0] := by
  have first := (startSorted aim t).next (i := 0) (by simp)
  have second := first.next (i := 1) (by simp)
  exact second.next (i := 2) (by simp)

end Sides

theorem Brackets.chosen (brackets : Brackets aim t) : ∃ left right out, Chosen aim t left right out := by
  have among (i : Fin 3) : i ∈ [(2 : Fin 3), 1, 0] := by fin_cases i <;> simp
  obtain ⟨⟨low, below⟩, high, above⟩ := brackets
  have known := Sides.sidesSorted aim t
  obtain ⟨left, isLeft⟩ : ∃ l, (sides aim t).left = some l := by
    refine Option.ne_none_iff_exists'.mp fun none => ?_
    exact absurd (known.noLeft none low (among low)) (not_lt.mpr below)
  obtain ⟨right, isRight⟩ : ∃ r, (sides aim t).right = some r := by
    refine Option.ne_none_iff_exists'.mp fun none => ?_
    exact absurd (known.noRight none high (among high)) (not_le.mpr above)
  -- three samples do not all find room on two sides
  obtain ⟨out, isOut⟩ : ∃ o, (sides aim t).out = some o := by
    refine Option.ne_none_iff_exists'.mp fun none => ?_
    have room (i : Fin 3) : i = left ∨ i = right := by
      simpa [isLeft, isRight, eq_comm] using known.noOut none i (among i)
    grind [room 0, room 1, room 2]
  obtain ⟨-, atMost, nearestLeft⟩ := known.left left isLeft
  obtain ⟨-, beyond, nearestRight⟩ := known.right right isRight
  obtain ⟨-, notLeft, notRight⟩ := known.out out isOut
  rw [isLeft] at notLeft
  rw [isRight] at notRight
  refine ⟨left, right, out, ?_, ⟨?_, ?_, ?_⟩, atMost, fun i here => ?_, beyond, fun i here => ?_⟩
  · rw [← isLeft, ← isRight, ← isOut]
  · exact fun same => absurd beyond (not_lt.mpr (same ▸ atMost))
  · exact fun same => notLeft (congrArg some same)
  · exact fun same => notRight (congrArg some same)
  · rw [abs_of_nonpos (sub_nonpos.mpr atMost), abs_of_nonpos (sub_nonpos.mpr here)]
    linarith [nearestLeft i (among i) here]
  · rw [abs_of_pos (sub_pos.mpr beyond), abs_of_pos (sub_pos.mpr here)]
    linarith [nearestRight i (among i) here]

/- The two that enclose the crossing stay. -/
theorem Chosen.brackets (chosen : Chosen aim t left right out) (p : Sample ℝ) :
    Brackets aim (t.set out p) := by
  refine ⟨⟨left, ?_⟩, right, ?_⟩
  · rw [Trio.getSet, if_neg chosen.apart.2.1.symm]
    exact chosen.below
  · rw [Trio.getSet, if_neg chosen.apart.2.2.symm]
    exact chosen.above

/-! ### Rounds -/

variable {h : Hunt ℝ} {s u : Approach ℝ} {best last : Fin 3}

/- The margins may turn the interval over; then its middle is taken, which they do not move. -/
theorem insideBetween (positive : 0 < h.tolerance) (t : Trio ℝ) (left right out : Fin 3) (a slope : ℝ) :
    holdInside h t left right out a slope ∈ Set.uIcc (t.get left).x (t.get right).x := by
  obtain ⟨high, sum⟩ := bracketWithin positive t left right a slope
  rw [holdInside]
  dsimp only
  split
  case isTrue =>
    simp only [Exact.mul, Exact.scientific, sum, Set.mem_uIcc]
    rcases le_total (t.get left).x (t.get right).x with order | order
    · exact .inl ⟨by linarith, by linarith⟩
    · exact .inr ⟨by linarith, by linarith⟩
  case isFalse ordered =>
    have order := not_lt.mp ordered
    exact Set.mem_uIcc_of_le (le_trans (by linarith) (Exact.leClamp order)) ((Exact.clampLe order).trans high)

/- Rounds, one after another. A trial may find anything. -/
inductive Narrows (h : Hunt ℝ) (s : Approach ℝ) (best : Fin 3) : Approach ℝ → Fin 3 → Prop where
  | start : Narrows h s best s best
  | next {u : Approach ℝ} {last left right out : Fin 3} {a slope : ℝ} (m : Minimum ℝ)
      (before : Narrows h s best u last)
      (rises : rising? h.profile.state.space.precision h.aim u.trio = some (a, slope))
      (sorted : sides h.aim u.trio = ⟨some left, some right, some out⟩) :
      Narrows h s best (u.refine out (insideTrial h u left right out a slope).1 m) out

theorem Narrows.brackets (narrows : Narrows h s best u last) (begun : Brackets h.aim s.trio) :
    Brackets h.aim u.trio := by
  induction narrows with
  | start => exact begun
  | next m before rises sorted ih =>
    obtain ⟨left, right, out, chosen⟩ := ih.chosen
    obtain ⟨rfl, rfl, rfl⟩ : _ = left ∧ _ = right ∧ _ = out := by simpa [sorted] using chosen.sorted
    exact chosen.brackets _

/- A round whose samples are chosen, up to its trial: it ends for want of a parabola that rises through the
level, or at a crossing, but not for want of a sample. -/
noncomputable def round (h : Hunt ℝ) (s : Approach ℝ) (best left right out : Fin 3)
    (rest : Approach ℝ → Chase ℝ (Crossing ℝ)) : Chase ℝ (Crossing ℝ) := do
  let some (a, slope) := rising? h.profile.state.space.precision h.aim s.trio | h.giveUp
  if Scalar.abs (a - (s.trio.get best).x) < h.stepTolerance a
      ∧ Scalar.abs ((s.trio.get best).y - h.aim) < h.valueTolerance then
    Hunt.stop s.latest a .found
  let (b, limited) := insideTrial h s left right out a slope
  let m ← h.probe b limited
  rest (s.refine out b m)

/- Two numbers are in one order or the other, so the bounds of an interval are as they are expected. -/
theorem expectTrue : (liftM (Eval.expect true : Eval ℝ Unit) : Chase ℝ Unit) = pure () := by
  funext tr t
  change ((Except.ok (), tr), { t with sound := t.sound && true }) = ((Except.ok (), tr), t)
  rw [Bool.and_true]

theorem parabolasRound (sorted : sides h.aim s.trio = ⟨some left, some right, some out⟩) (fuel : ℕ) :
    parabolas h s best (fuel + 1) =
      round h s best left right out fun u => parabolas h u out fuel := by
  have ordered (x y : ℝ) : (decide (x > y) || decide (x ≤ y)) = true := by
    simpa using lt_or_ge y x
  rw [parabolas, round]
  rcases rising? h.profile.state.space.precision h.aim s.trio with _ | ⟨a, slope⟩
  · rfl
  · simp only [sorted, ordered, expectTrue, pure_bind]
    rfl

/- However many rounds were made, the samples enclose the crossing. The next round finds its three samples;
its trial, before it is cut at the limit, lies between the two that enclose the crossing, whatever root the
parabola has; and the round follows, as far as fuel is left. -/
theorem bracketKept (positive : 0 < h.tolerance) (begun : Brackets h.aim s.trio)
    (narrows : Narrows h s best u last) :
    Brackets h.aim u.trio ∧ ∃ left right out, Chosen h.aim u.trio left right out ∧
      (∀ a slope, holdInside h u.trio left right out a slope ∈
        Set.uIcc (u.trio.get left).x (u.trio.get right).x) ∧
      ∀ fuel, parabolas h u last (fuel + 1) =
        round h u last left right out fun v => parabolas h v out fuel := by
  have brackets := narrows.brackets begun
  obtain ⟨left, right, out, chosen⟩ := brackets.chosen
  exact ⟨brackets, left, right, out, chosen, insideBetween positive _ _ _ _, parabolasRound chosen.sorted⟩

/- A square with samples at zero, one and two and the level at one; the first sample gives way. -/
theorem bracketKeptSquare :
    let space : Space ℝ := ⟨.machine, #[], [], [], #[]⟩
    let h : Hunt ℝ := ⟨⟨.plain fun _ => 0, .ofSpace space, 0, .medium, 1, 1⟩, [], 0.1, 100, 100⟩
    let m : Minimum ℝ := .ofSeed ⟨⟨.plain #[] 9, .usable ⟨0, #[], rfl⟩ 0, .missing 0, 0, 0⟩, space⟩ 1
    let s : Approach ℝ := ⟨⟨⟨0, 0⟩, ⟨1, 1⟩, ⟨2, 4⟩⟩, 1, 3, m⟩
    let u := s.refine 0 (insideTrial h s 1 2 0 1 2).1 m
    (0 < h.tolerance ∧ Brackets h.aim s.trio ∧ Narrows h s 1 u 0) ∧
      Brackets h.aim u.trio ∧ ∃ left right out, Chosen h.aim u.trio left right out := by
  intro space h m s u
  have positive : 0 < h.tolerance := by
    change (0 : ℝ) < 0.1
    norm_num
  have aim : h.aim = 1 := zero_add (1 : ℝ)
  have begun : Brackets h.aim s.trio := by
    rw [aim]
    exact ⟨⟨0, zero_le_one⟩, 2, by change (1 : ℝ) < 4; norm_num⟩
  have sorted : sides h.aim s.trio = ⟨some 1, some 2, some 0⟩ := by
    rw [aim]
    norm_num [sides, Trio.places, Sides.sort, Trio.get, s]
  have rises : rising? h.profile.state.space.precision h.aim s.trio = some (1, 2) := by
    have fine : h.profile.state.space.precision.eps ≤ 1 := by
      change (2⁻¹ ^ 50 : ℝ) ≤ 1
      norm_num
    rw [aim]
    norm_num [rising?, Parabola.through, s, fine, fine.trans]
  have narrows : Narrows h s 1 u 0 := .next m .start rises sorted
  obtain ⟨brackets, left, right, out, chosen, -⟩ := bracketKept positive begun narrows
  exact ⟨⟨positive, begun, narrows⟩, brackets, left, right, out, chosen⟩

end Approach
end ParamFit
