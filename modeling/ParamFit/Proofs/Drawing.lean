import ParamFit.Proofs.Basin
import ParamFit.Proofs.Widening

/-! How a contour comes about: one interval or two, at most four minimizations at their ends, and a search
for every point after those. Its points are none, or grow from the four ends. Its calls are those of all
that was done, and nothing else was asked. -/
namespace ParamFit
variable {α : Type} [Spectral α]

namespace Surroundings
variable {s : Surroundings α} {px py : Address} {x y : ℕ} {across along : Interval α} {multiple : α}
  {count : ℕ}

theorem contourPlacesParts (known : s.contourPlaces px py count = .ok (x, y)) :
    s.state.space.indexOf px = .ok x ∧ s.state.space.indexOf py = .ok y ∧ x ≠ y ∧ 4 ≤ count := by
  obtain ⟨i, first, known⟩ := okParts known
  obtain ⟨j, second, known⟩ := okParts known
  by_cases same : i = j
  case pos =>
    rw [if_pos same] at known
    cases known
  rw [if_neg same] at known
  by_cases few : count < 4
  case pos =>
    rw [if_pos few] at known
    cases known
  rw [if_neg few] at known
  cases known
  exact ⟨first, second, same, not_lt.mp few⟩

/-! ### The first four points -/

/- At each end of both intervals, the parameter that is held there, and the one that is read. -/
def ends (s : Surroundings α) (x y : ℕ) (across along : Interval α) : List (ℕ × α × ℕ) :=
  let cx := (s.state.space.parameterAt x).value
  let cy := (s.state.space.parameterAt y).value
  [(x, cx + across.offset .upper, y), (x, cx + across.offset .lower, y),
    (y, cy + along.offset .upper, x), (y, cy + along.offset .lower, x)]

/- The points at the ends, where the other parameter was found: to the left, below, to the right, above. -/
def frame (s : Surroundings α) (x y : ℕ) (across along : Interval α) (right left top bottom : α) :
    List (Sample α) :=
  let cx := (s.state.space.parameterAt x).value
  let cy := (s.state.space.parameterAt y).value
  [⟨cx + across.offset .lower, left⟩, ⟨bottom, cy + along.offset .lower⟩,
    ⟨cx + across.offset .upper, right⟩, ⟨top, cy + along.offset .upper⟩]

def canvas (s : Surroundings α) (held : FitState α) (x y : ℕ) (across along : Interval α) (multiple : α)
    (count : ℕ) : Canvas α :=
  ⟨s.profile held (s.rise multiple), x, y, 1 / (across.offset .upper - across.offset .lower),
    1 / (along.offset .upper - along.offset .lower), s.contourBudget count⟩

/- Minimizations one after the other, up to the first that fails: their work, and what they find. -/
inductive Anchors (s : Surroundings α) : List (ℕ × α × ℕ) → List (Work α) → List α → Prop
  | done : Anchors s [] [] []
  | missed {place other spent : ℕ} {value : α} {asked : Trace α} {rest : List (ℕ × α × ℕ)}
      (adds : Attempt.Adds (s.cardinal place value other) (none, spent) asked) :
      Anchors s ((place, value, other) :: rest) [⟨spent, asked⟩] []
  | met {place other spent : ℕ} {value v : α} {asked : Trace α} {rest : List (ℕ × α × ℕ)}
      {works : List (Work α)} {values : List α}
      (adds : Attempt.Adds (s.cardinal place value other) (some v, spent) asked)
      (more : Anchors s rest works values) :
      Anchors s ((place, value, other) :: rest) (⟨spent, asked⟩ :: works) (v :: values)

theorem cardinalsParts {found : List α} {calls : ℕ} {list : List (ℕ × α × ℕ)} {r : List α × ℕ}
    {t u : Trace α} (run : (s.cardinals found calls list).run.run t = (.ok r, u)) :
    ∃ works values, s.Anchors list works values ∧ r = (found ++ values, calls + Work.total works) ∧
      u = t.append (Work.gather works) := by
  induction list generalizing found calls t with
  | nil =>
    cases run
    exact ⟨[], [], .done, Prod.ext (List.append_nil _).symm rfl, (Trace.appendNothing _).symm⟩
  | cons first rest ih =>
    obtain ⟨place, value, other⟩ := first
    obtain ⟨⟨v, spent⟩, asked, adds, run⟩ := (s.cardinalBlind place value other).parts run
    cases v with
    | none =>
      cases run
      refine ⟨_, _, .missed adds, Prod.ext (List.append_nil _).symm rfl, ?_⟩
      rw [Work.gather, List.foldr_cons, List.foldr_nil, Trace.appendNothing]
    | some v =>
      obtain ⟨works, values, anchors, rfl, rfl⟩ := ih run
      exact ⟨_, _, .met adds anchors, Prod.ext (List.append_cons ..).symm (Nat.add_assoc ..),
        Trace.appendAssoc ..⟩

/-! ### Contours -/

/- How a contour comes about: the work on its intervals, on their ends, and on the points after those. -/
inductive Draws (s : Surroundings α) (multiple : α) (count : ℕ) :
    List (Work α) → List (Work α) → List (Work α) → Contour α → Prop
  | unbounded {x y : ℕ} {across : Interval α} {asked : Trace α}
      (first : Attempt.Adds (s.interval (.index x) multiple 0) across asked)
      (invalid : ¬ across.isValid) :
      Draws s multiple count [⟨across.calls, asked⟩] [] [] ⟨x, y, [], across, across, across.calls⟩
  | halfBounded {x y : ℕ} {across along : Interval α} {asked also : Trace α}
      (first : Attempt.Adds (s.interval (.index x) multiple 0) across asked) (valid : across.isValid)
      (second : Attempt.Adds (s.interval (.index y) multiple 0) along also) (invalid : ¬ along.isValid) :
      Draws s multiple count [⟨across.calls, asked⟩, ⟨along.calls, also⟩] [] []
        ⟨x, y, [], across, along, across.calls + along.calls⟩
  | unframed {x y : ℕ} {across along : Interval α} {asked also : Trace α} {works : List (Work α)}
      {values : List α} (first : Attempt.Adds (s.interval (.index x) multiple 0) across asked)
      (valid : across.isValid) (second : Attempt.Adds (s.interval (.index y) multiple 0) along also)
      (both : along.isValid) (anchors : s.Anchors (s.ends x y across along) works values)
      (few : values.length ≠ 4) :
      Draws s multiple count [⟨across.calls, asked⟩, ⟨along.calls, also⟩] works []
        ⟨x, y, [], across, along, across.calls + along.calls + Work.total works⟩
  | grown {x y : ℕ} {across along : Interval α} {asked also : Trace α} {works made : List (Work α)}
      {right left top bottom : α} {held : FitState α} {points : List (Sample α)}
      (first : Attempt.Adds (s.interval (.index x) multiple 0) across asked) (valid : across.isValid)
      (second : Attempt.Adds (s.interval (.index y) multiple 0) along also) (both : along.isValid)
      (anchors : s.Anchors (s.ends x y across along) works [right, left, top, bottom])
      (fixed : (s.state.fix (.index x) >>= fun t => t.fix (.index y)) = .ok held)
      (grows : (s.canvas held x y across along multiple count).Grows
        (s.frame x y across along right left top bottom)
        (across.calls + along.calls + Work.total works) (count - 4) made points) :
      Draws s multiple count [⟨across.calls, asked⟩, ⟨along.calls, also⟩] works made
        ⟨x, y, points, across, along,
          across.calls + along.calls + Work.total works + Work.total made⟩

theorem contourDraws [IsStrictOrder α (· < ·)] {c : Contour α} {t u : Trace α}
    (run : (s.contour px py multiple count).run.run t = (.ok c, u)) :
    s.state.space.indexOf px = .ok c.x ∧ s.state.space.indexOf py = .ok c.y ∧ c.x ≠ c.y ∧ 4 ≤ count ∧
      ∃ analysed minimized searched, s.Draws multiple count analysed minimized searched c ∧
        u = t.append (Work.gather (analysed ++ minimized ++ searched)) := by
  obtain ⟨⟨x, y⟩, places, run⟩ := Attempt.knownParts run
  obtain ⟨here, there, apart, enough⟩ := contourPlacesParts places
  obtain ⟨across, asked, first, run⟩ := (s.intervalBlind ..).parts run
  by_cases valid : across.isValid
  case neg =>
    rw [if_pos (by simp [valid])] at run
    cases run
    refine ⟨here, there, apart, enough, _, _, _, .unbounded first valid, ?_⟩
    rw [List.append_nil, List.append_nil, Work.gatherCons, Work.gatherNil, Trace.appendNothing]
  rw [if_neg (by simp [valid])] at run
  obtain ⟨along, also, second, run⟩ := (s.intervalBlind ..).parts run
  dsimp only at run
  by_cases both : along.isValid
  case neg =>
    rw [if_pos (by simp [both])] at run
    cases run
    refine ⟨here, there, apart, enough, _, _, _, .halfBounded first valid second both, ?_⟩
    rw [List.append_nil, List.append_nil, Work.gatherBoth, Trace.appendAssoc]
  rw [if_neg (by simp [both])] at run
  obtain ⟨r, v, minimized, run⟩ := Attempt.parts run
  obtain ⟨works, values, anchors, rfl, rfl⟩ := cardinalsParts minimized
  dsimp only [List.nil_append] at run
  split at run
  case h_2 few =>
    cases run
    refine ⟨here, there, apart, enough, _, _, _, .unframed first valid second both anchors ?_, ?_⟩
    · intro four
      obtain ⟨right, left, top, bottom, rfl⟩ := List.length_eq_four.mp four
      exact few _ _ _ _ rfl
    · rw [List.append_nil, Work.gatherAppend, Work.gatherBoth]
      simp only [Trace.appendAssoc]
  case h_1 right left top bottom =>
    obtain ⟨middle, once, run⟩ := Attempt.knownParts run
    obtain ⟨held, twice, run⟩ := Attempt.knownParts run
    obtain ⟨made, points, grows, adds⟩ := (s.canvas held x y across along multiple count).growRuns
      (List.cons_ne_nil _ _ : s.frame x y across along right left top bottom ≠ [])
      (across.calls + along.calls + Work.total works) (count - 4)
    obtain ⟨r, w, drawn, run⟩ := Attempt.parts run
    obtain ⟨same, rfl⟩ := (Attempt.Adds.lift adds).unique drawn
    cases same
    cases run
    refine ⟨here, there, apart, enough, _, _, _,
      .grown first valid second both anchors ?_ grows, ?_⟩
    · rw [once]
      exact twice
    · rw [Work.gatherAppend, Work.gatherAppend, Work.gatherBoth]
      simp only [Trace.appendAssoc]

/-! ### Five points around a basin -/

section
variable {s : Surroundings ℝ} {x y count : ℕ} {multiple : ℝ} {across along : Interval ℝ} {asked : Trace ℝ}

theorem contourGrown {also tried made : Trace ℝ} {right left top bottom : ℝ} {calls spent : ℕ}
    {held : FitState ℝ} {points : List (Sample ℝ)} (places : s.contourPlaces px py count = .ok (x, y))
    (first : Attempt.Adds (s.interval (.index x) multiple 0) across asked) (valid : across.isValid)
    (second : Attempt.Adds (s.interval (.index y) multiple 0) along also) (both : along.isValid)
    (anchored : Attempt.Adds
      (s.cardinals [] (across.calls + along.calls) (s.ends x y across along))
      ([right, left, top, bottom], calls) tried)
    (fixed : (s.state.fix (.index x) >>= fun t => t.fix (.index y)) = .ok held)
    (grown : Eval.Adds ((s.canvas held x y across along multiple count).grow
      (s.frame x y across along right left top bottom) calls (count - 4)) (points, spent) made) :
    Attempt.Adds (s.contour px py multiple count) ⟨x, y, points, across, along, spent⟩
      (asked.append (also.append (tried.append made))) := by
  obtain ⟨middle, once, twice⟩ := okParts fixed
  refine .known places (.bind first ?_)
  rw [if_neg (by simp [valid])]
  refine .bind second ?_
  dsimp only
  rw [if_neg (by simp [both])]
  exact .bind anchored (.known once (.known twice (.made (.lift grown) rfl)))

theorem contourUnbounded (places : s.contourPlaces px py count = .ok (x, y))
    (first : Attempt.Adds (s.interval (.index x) multiple 0) across asked) (invalid : ¬ across.isValid) :
    Attempt.Adds (s.contour px py multiple count) ⟨x, y, [], across, across, across.calls⟩ asked :=
  .known places (.made first (if_pos (by simp [invalid])))

theorem cardinalsMet (found : List ℝ) (calls most : ℕ) (list : List (ℕ × ℝ × ℕ))
    (each : ∀ e ∈ list, ∃ spent asked,
      Attempt.Adds (s.cardinal e.1 e.2.1 e.2.2) (some 0, spent) asked ∧ spent ≤ most) :
    ∃ spent asked, Attempt.Adds (s.cardinals found calls list)
      (found ++ list.map (fun _ => 0), spent) asked ∧ spent ≤ calls + list.length * most := by
  induction list generalizing found calls with
  | nil => exact ⟨calls, {}, (List.append_nil found).symm ▸ .pure _, Nat.le_add_right _ _⟩
  | cons e rest ih =>
    obtain ⟨spent, asked, once, few⟩ := each e (.head _)
    obtain ⟨total, also, others, most⟩ :=
      ih (found ++ [0]) (calls + spent) fun e among => each e (.tail _ among)
    refine ⟨total, asked.append also, ?_, ?_⟩
    · refine .bind once ?_
      rw [List.map_cons, List.append_cons]
      exact others
    · rw [List.length_cons, Nat.succ_mul]
      omega

end

namespace Basin
variable {w : ℝ → ℝ → ℝ}

/- The gap where the four ends close. -/
def closing : Gap ℝ := ⟨0, ⟨0, 1⟩, ⟨-1, 0⟩⟩

section
variable {across along : Interval ℝ} (range : across.range = (-1, 1)) (reach : along.range = (-1, 1))
include range reach

theorem ends : (basin w).ends 0 1 across along = [(0, Side.upper.sign, 1), (0, Side.lower.sign, 1),
    (1, Side.upper.sign, 0), (1, Side.lower.sign, 0)] := by
  have left : across.offset .lower = -1 := congrArg Prod.fst range
  have right : across.offset .upper = 1 := congrArg Prod.snd range
  have bottom : along.offset .lower = -1 := congrArg Prod.fst reach
  have top : along.offset .upper = 1 := congrArg Prod.snd reach
  rw [Surroundings.ends, value two_pos, value one_lt_two, left, right, bottom, top]
  simp [Side.sign]

theorem frame : (basin w).frame 0 1 across along 0 0 0 0 = [⟨-1, 0⟩, ⟨0, -1⟩, ⟨1, 0⟩, ⟨0, 1⟩] := by
  have left : across.offset .lower = -1 := congrArg Prod.fst range
  have right : across.offset .upper = 1 := congrArg Prod.snd range
  have bottom : along.offset .lower = -1 := congrArg Prod.fst reach
  have top : along.offset .upper = 1 := congrArg Prod.snd reach
  rw [Surroundings.frame, value two_pos, value one_lt_two, left, right, bottom, top]
  simp

/- All gaps between the ends are as wide as the one where the points close. -/
theorem widest (held : FitState ℝ) : let c := (basin w).canvas held 0 1 across along 1 5
    Gap.widest? c.width (Gap.all [⟨-1, 0⟩, ⟨0, -1⟩, ⟨1, 0⟩, ⟨0, 1⟩]) = some closing := by
  intro c
  have scaleX : c.scaleX = 1 / 2 := by
    change 1 / (across.range.2 - across.range.1) = 1 / 2
    rw [range]
    norm_num
  have scaleY : c.scaleY = 1 / 2 := by
    change 1 / (along.range.2 - along.range.1) = 1 / 2
    rw [reach]
    norm_num
  simp [Gap.all, Gap.widest?, Canvas.width, closing, scaleX, scaleY]

theorem anchored (bends : ∀ i < 2, ∀ side : Side, ∃ b > 0, ∀ v,
      slice w i side.sign v = slice w i side.sign 0 + b / 2 * v ^ 2) (calls : ℕ) :
    ∃ total tried, Attempt.Adds ((basin w).cardinals [] calls ((basin w).ends 0 1 across along))
      ([0, 0, 0, 0], total) tried ∧ total ≤ calls + 4 * 5 := by
  have x (side : Side) : ∃ spent asked,
      Attempt.Adds ((basin w).cardinal 0 side.sign 1) (some 0, spent) asked ∧ spent ≤ 5 := by
    obtain ⟨b, positive, bend⟩ := bends 0 two_pos side
    exact cardinalRests two_pos one_lt_two zero_ne_one positive bend
  have y (side : Side) : ∃ spent asked,
      Attempt.Adds ((basin w).cardinal 1 side.sign 0) (some 0, spent) asked ∧ spent ≤ 5 := by
    obtain ⟨b, positive, bend⟩ := bends 1 one_lt_two side
    exact cardinalRests one_lt_two two_pos one_ne_zero positive bend
  rw [ends range reach]
  refine cardinalsMet [] calls 5 [_, _, _, _] ?_
  simp only [List.forall_mem_cons]
  exact ⟨x .upper, x .lower, y .upper, y .lower, nofun⟩

end

/- With the middle of that gap on the level, the search through it ends there. -/
theorem closingFound {held : FitState ℝ} (still : Still held) {across along : Interval ℝ}
    (corner : w (-1 / 2) (1 / 2) = w 0 0 + 1) :
    let c := (basin w).canvas held 0 1 across along 1 5
    1 < c.maxCalls → (c.seen closing 1).isValid ∧ c.landing closing 1 = ⟨-1 / 2, 1 / 2⟩ := by
  intro c room
  have middle : Canvas.middle closing = ⟨-1 / 2, 1 / 2⟩ := by
    simp only [Canvas.middle, closing, Sample.mk.injEq]
    norm_num
  have level : w (Canvas.middle closing).x (Canvas.middle closing).y = w 0 0 + 1 := by
    rw [middle]
    exact corner
  have positive : (0 : ℝ) < Canvas.tolerance := by norm_num [Canvas.tolerance]
  obtain ⟨d, v, adds, found, zero⟩ :=
    stillMet still level (c.normal closing 1).x (c.normal closing 1).y positive room
  obtain ⟨same, -⟩ := adds.unique (c.sightAdds closing 1 {})
  have stays : (c.seen closing 1).value = 0 := same.symm ▸ zero
  refine ⟨same.symm ▸ found, ?_⟩
  rw [Canvas.landing, stays, middle]
  simp

/- Through the four ends of both intervals goes a fifth point, halfway from the last to the first. -/
theorem contourMet (level : ∀ i < 2, ∀ side : Side, slice w i side.sign 0 = w 0 0 + 1)
    (bends : ∀ i < 2, ∀ side : Side, ∃ b > 0, ∀ v,
      slice w i side.sign v = slice w i side.sign 0 + b / 2 * v ^ 2)
    (corner : w (-1 / 2) (1 / 2) = w 0 0 + 1) :
    ∃ c u, ((basin w).contour (.index 0) (.index 1) 1 5).run.run {} = (.ok c, u) ∧ c.across.isValid ∧
      c.points = [⟨-1, 0⟩, ⟨0, -1⟩, ⟨1, 0⟩, ⟨0, 1⟩, ⟨-1 / 2, 1 / 2⟩] := by
  obtain ⟨across, asked, first, valid, range, calls⟩ :=
    intervalMet two_pos one_lt_two zero_ne_one (level 0 two_pos) (bends 0 two_pos)
  obtain ⟨along, also, second, both, reach, spent⟩ :=
    intervalMet one_lt_two two_pos one_ne_zero (level 1 one_lt_two) (bends 1 one_lt_two)
  obtain ⟨total, tried, anchored, few⟩ := anchored range reach bends (across.calls + along.calls)
  obtain ⟨held, fixed, still⟩ := bothHeld (w := w)
  let c := (basin w).canvas held 0 1 across along 1 5
  have most : c.maxCalls = 3000 := by
    change (basin w).contourBudget 5 = 3000
    rw [contourBudget, dimension]
  have room : 1 < c.maxCalls := by omega
  obtain ⟨found, landing⟩ := closingFound still corner room
  have grown : Eval.Adds (c.grow ((basin w).frame 0 1 across along 0 0 0 0) total 1)
      ([⟨-1, 0⟩, ⟨0, -1⟩, ⟨1, 0⟩, ⟨0, 1⟩, ⟨-1 / 2, 1 / 2⟩], total + (c.seen closing 1).calls)
      (((c.looking closing 1).asked.append {}).append {}) := by
    rw [frame range reach, Canvas.grow, widest range reach held]
    refine .bind (Canvas.bridgeFound (by omega) found) ?_
    rw [landing]
    exact .pure _
  exact ⟨_, _, contourGrown places first valid second both anchored fixed grown {}, valid, rfl⟩

end Basin

/- A valley that closes on the level in all directions. -/
def terrace (a b : ℝ) : ℝ := a ^ 2 + b ^ 2 + 8.0 * a ^ 2 * b ^ 2

theorem terraceMet : ∃ c u,
    ((basin terrace).contour (.index 0) (.index 1) 1 5).run.run {} = (.ok c, u) ∧ c.across.isValid ∧
      c.points = [⟨-1, 0⟩, ⟨0, -1⟩, ⟨1, 0⟩, ⟨0, 1⟩, ⟨-1 / 2, 1 / 2⟩] := by
  have eight : (8.0 : ℝ) = 8 := by norm_num
  have edge (i : ℕ) (side : Side) (v : ℝ) : slice terrace i side.sign v = 1 + 18 / 2 * v ^ 2 := by
    rw [slice]
    split <;> rw [terrace, side.signSquare, eight] <;> ring
  refine Basin.contourMet (fun i _ side => ?_) (fun i _ side => ⟨18, by norm_num, fun v => ?_⟩) ?_
  · rw [edge, terrace]
    norm_num
  · rw [edge, edge]
    norm_num
  · norm_num [terrace]

/-! ### What a contour shows -/

/- The points of a contour are none, or come from the four ends of its intervals, to the left, below, to
the right and above, by putting one after the other where a gap is than which none is wider. There are as
many as were asked for, unless searches on both sides of the last such gap failed or the calls were spent. -/
theorem contourWidens [IsStrictOrder α (· < ·)] {c : Contour α} {t u : Trace α}
    (run : (s.contour px py multiple count).run.run t = (.ok c, u)) :
    c.points = [] ∨ ∃ minimized right left top bottom held made,
      let canvas := s.canvas held c.x c.y c.across c.along multiple count
      s.Anchors (s.ends c.x c.y c.across c.along) minimized [right, left, top, bottom] ∧
        (s.state.fix (.index c.x) >>= fun t => t.fix (.index c.y)) = .ok held ∧
        canvas.Grows (s.frame c.x c.y c.across c.along right left top bottom)
          (c.across.calls + c.along.calls + Work.total minimized) (count - 4) made c.points ∧
        (c.points.length = count ∨ c.points.length < count ∧ ∃ g before after spent tried,
          canvas.Widest g c.points before after ∧ canvas.Bridges g spent tried none) := by
  obtain ⟨-, -, -, enough, analysed, minimized, searched, draws, -⟩ := contourDraws run
  cases draws with
  | unbounded | halfBounded | unframed => exact .inl rfl
  | @grown x y across along asked also works made right left top bottom held points first valid second
      both anchors fixed grows =>
    have size : (s.frame x y across along right left top bottom).length + (count - 4) = count := by
      change 4 + (count - 4) = count
      omega
    have number := grows.count
    rw [size] at number
    exact .inr ⟨_, _, _, _, _, _, _, anchors, fixed, grows, number⟩

/- In the terraces of a valley the fifth point goes in where the points close. -/
theorem contourWidensTerrace : ∃ c u,
    ((basin terrace).contour (.index 0) (.index 1) 1 5).run.run {} = (.ok c, u) ∧
      c.points = [⟨-1, 0⟩, ⟨0, -1⟩, ⟨1, 0⟩, ⟨0, 1⟩, ⟨-1 / 2, 1 / 2⟩] ∧
      ∃ right left top bottom held calls made,
        ((basin terrace).canvas held c.x c.y c.across c.along 1 5).Grows
          ((basin terrace).frame c.x c.y c.across c.along right left top bottom) calls 1 made c.points := by
  obtain ⟨c, u, run, -, points⟩ := terraceMet
  refine ⟨c, u, run, points, ?_⟩
  rcases contourWidens run with none | ⟨_, right, left, top, bottom, held, made, -, -, grows, -⟩
  · rw [points] at none
    cases none
  · exact ⟨right, left, top, bottom, held, _, made, grows⟩

theorem intervalPlace {n : Interval α} {asked : Trace α}
    (adds : Attempt.Adds (s.interval (.index x) multiple 0) n asked) :
    n.place = x ∧ n.center = (s.state.space.parameterAt x).value := by
  obtain ⟨i, here, run⟩ := Attempt.knownParts (adds {})
  obtain ⟨upper, v, -, run⟩ := Attempt.parts run
  obtain ⟨lower, w, -, run⟩ := Attempt.parts run
  obtain rfl : x = i := by
    rw [Space.indexOf] at here
    split at here
    case isTrue => exact Except.ok.inj here
    case isFalse => cases here
  cases run
  exact ⟨rfl, rfl⟩

theorem Draws.calls {analysed minimized searched : List (Work α)} {c : Contour α}
    (draws : s.Draws multiple count analysed minimized searched c) :
    c.calls = Work.total (analysed ++ minimized ++ searched) ∧ analysed.map Work.calls =
      if c.across.isValid then [c.across.calls, c.along.calls] else [c.across.calls] := by
  rw [Work.totalAppend, Work.totalAppend]
  cases draws with
  | unbounded first invalid => exact ⟨rfl, (if_neg invalid).symm⟩
  | halfBounded first valid => exact ⟨by simp [Work.total], (if_pos valid).symm⟩
  | unframed first valid => exact ⟨by simp [Work.total], (if_pos valid).symm⟩
  | grown first valid => exact ⟨by simp [Work.total], (if_pos valid).symm⟩

theorem Draws.labels {analysed minimized searched : List (Work α)} {c : Contour α}
    (draws : s.Draws multiple count analysed minimized searched c) :
    (c.across.place = c.x ∧ c.across.center = (s.state.space.parameterAt c.x).value) ∧
      (c.across.isValid →
        c.along.place = c.y ∧ c.along.center = (s.state.space.parameterAt c.y).value) ∧
      (¬ c.across.isValid → c.along = c.across ∧ c.points = []) := by
  cases draws with
  | unbounded first invalid =>
    exact ⟨intervalPlace first, fun valid => absurd valid invalid, fun _ => ⟨rfl, rfl⟩⟩
  | halfBounded first valid second | unframed first valid second | grown first valid second =>
    exact ⟨intervalPlace first, fun _ => intervalPlace second, fun invalid => absurd valid invalid⟩

/- The first interval of a contour is that of the first parameter. The second is that of the second
parameter exactly if the first was found on both sides; else the first stands in its place. The calls are
those of all that was done. -/
theorem contourLabelled [IsStrictOrder α (· < ·)] {c : Contour α} {t u : Trace α}
    (run : (s.contour px py multiple count).run.run t = (.ok c, u)) :
    let space := s.state.space
    space.indexOf px = .ok c.x ∧ space.indexOf py = .ok c.y ∧
      c.across.place = c.x ∧ c.across.center = (space.parameterAt c.x).value ∧
      (c.along.place = c.y ∧ c.along.center = (space.parameterAt c.y).value ↔ c.across.isValid) ∧
      (¬ c.across.isValid → c.along = c.across ∧ c.points = []) ∧
      ∃ analysed minimized searched, s.Draws multiple count analysed minimized searched c ∧
        u = t.append (Work.gather (analysed ++ minimized ++ searched)) ∧
        c.calls = Work.total (analysed ++ minimized ++ searched) ∧ analysed.map Work.calls =
          if c.across.isValid then [c.across.calls, c.along.calls] else [c.across.calls] := by
  intro space
  obtain ⟨here, there, apart, -, analysed, minimized, searched, draws, asked⟩ := contourDraws run
  obtain ⟨⟨place, center⟩, labelled, empty⟩ := draws.labels
  refine ⟨here, there, place, center, ⟨fun ⟨second, _⟩ => ?_, labelled⟩, empty, analysed, minimized,
    searched, draws, asked, draws.calls⟩
  by_contra invalid
  rw [(empty invalid).1, place] at second
  exact apart second

/- In the terraces of a valley both intervals are found, and each is that of its own parameter. -/
theorem contourLabelledTerrace : ∃ c u,
    ((basin terrace).contour (.index 0) (.index 1) 1 5).run.run {} = (.ok c, u) ∧
      c.across.place = 0 ∧ c.along.place = 1 ∧ c.across.center = 0 ∧ c.along.center = 0 ∧
      c.points.length = 5 ∧ ∃ analysed minimized searched,
        (basin terrace).Draws 1 5 analysed minimized searched c ∧
          c.calls = Work.total (analysed ++ minimized ++ searched) ∧
          analysed.map Work.calls = [c.across.calls, c.along.calls] := by
  obtain ⟨c, u, run, valid, points⟩ := terraceMet
  obtain ⟨here, there, first, center, second, -, analysed, minimized, searched, draws, -, calls, both⟩ :=
    contourLabelled run
  obtain ⟨place, middle⟩ := second.mpr valid
  have x : 0 = c.x := Except.ok.inj ((Basin.here two_pos).symm.trans here)
  have y : 1 = c.y := Except.ok.inj ((Basin.here one_lt_two).symm.trans there)
  rw [if_pos valid] at both
  refine ⟨c, u, run, first.trans x.symm, place.trans y.symm, ?_, ?_, ?_, analysed, minimized, searched,
    draws, calls, both⟩
  · rw [center, ← x, Basin.value two_pos]
  · rw [middle, ← y, Basin.value one_lt_two]
  · rw [points]
    rfl

/- An objective that falls below its minimum within one error, on both sides of the first parameter. -/
def cliff (a b : ℝ) : ℝ := a ^ 2 + b ^ 2 - 3.0 * a ^ 4

theorem cliffUnbounded : ∃ n asked,
    Attempt.Adds ((basin cliff).interval (.index 0) 1 0) n asked ∧ ¬ n.isValid := by
  have edge (side : Side) (v : ℝ) : slice cliff 0 side.sign v = -2 + 2 / 2 * v ^ 2 := by
    have three : (3.0 : ℝ) = 3 := by norm_num
    rw [slice, if_pos rfl, cliff, pow_mul (side.sign : ℝ) 2 2, side.signSquare, three]
    ring
  have crossed (side : Side) : ∃ c asked,
      Attempt.Adds ((basin cliff).crossing side (.index 0) 1 0) c asked ∧ c.verdict = .lowerMinimum := by
    refine Basin.crossingUnder two_pos one_lt_two zero_ne_one two_pos (fun v => ?_) ?_
    · rw [edge, edge]
      norm_num
    · rw [edge, cliff]
      norm_num
  obtain ⟨upper, asked, above, high⟩ := crossed .upper
  obtain ⟨lower, also, below, low⟩ := crossed .lower
  refine ⟨_, _, intervalAdds (Basin.here two_pos) above below, ?_⟩
  simp [Interval.isValid, Crossing.isValid, low, high]

/- A contour without its first interval has that one in the place of the second too. -/
theorem contourMislabelled :
    ¬ ∀ (s : Surroundings ℝ) (px py : Address) (multiple : ℝ) (count : ℕ) (c : Contour ℝ) (t u : Trace ℝ),
      (s.contour px py multiple count).run.run t = (.ok c, u) →
        c.along.place = c.y ∧ c.along.center = (s.state.space.parameterAt c.y).value := by
  intro always
  obtain ⟨n, asked, adds, invalid⟩ := cliffUnbounded
  have place : n.place = 0 := (intervalPlace adds).1
  have run := contourUnbounded Basin.places adds invalid {}
  have second := (always _ _ _ _ _ _ _ _ run).1
  rw [place] at second
  cases second

end Surroundings
end ParamFit
