import ParamFit.Proofs.Adding

/-! How a contour grows. Its points go around, so that every way to cut them in two shows a gap: from the
last point before the cut to the first one after it, where the first point of all comes after the last.
A contour is cut at a gap than which none is wider, and the new point is put between both parts. A gap is
searched outward and then inward; when both fail, or too many calls were spent, the contour stays as it is. -/
namespace ParamFit
variable {α : Type}

/- What a computation that looks at nothing before it does: the calls that it counts, and what it asks. -/
structure Work (α : Type) where
  calls : ℕ
  asked : Trace α

namespace Work

def total (works : List (Work α)) : ℕ := (works.map calls).sum

def gather (works : List (Work α)) : Trace α := works.foldr (fun w t => w.asked.append t) {}

theorem totalAppend (v w : List (Work α)) : total (v ++ w) = total v + total w := by
  rw [total, List.map_append, List.sum_append]
  rfl

theorem gatherNil : gather ([] : List (Work α)) = {} := rfl

theorem gatherCons (w : Work α) (works : List (Work α)) :
    gather (w :: works) = w.asked.append (gather works) := rfl

theorem gatherAppend (v w : List (Work α)) : gather (v ++ w) = (gather v).append (gather w) := by
  induction v with
  | nil => exact (Trace.nothingAppend _).symm
  | cons a v ih => exact (congrArg a.asked.append ih).trans (Trace.appendAssoc ..).symm

theorem gatherBoth (v w : Work α) : gather [v, w] = v.asked.append w.asked := by
  rw [gatherCons, gatherCons, gatherNil, Trace.appendNothing]

end Work

/-! ### Gaps -/

namespace Gap
variable {g h : Gap α} {points before after : List (Sample α)}

/- The points are cut where the gap is; the first point follows the last one. -/
structure Splits (g : Gap α) (points before after : List (Sample α)) : Prop where
  whole : points = before ++ after
  start : before.getLast? = some g.start
  finish : (after ++ before).head? = some g.finish

theorem closingSplits {first last : Sample α} (head : points.head? = some first)
    (tail : points.getLast? = some last) : (⟨0, last, first⟩ : Gap α).Splits points points [] :=
  ⟨(List.append_nil _).symm, tail, head⟩

theorem neighboursSplit {a b : Sample α} {j : ℕ} (here : points[j]? = some a)
    (next : points[j + 1]? = some b) :
    (⟨j + 1, a, b⟩ : Gap α).Splits points (points.take (j + 1)) (points.drop (j + 1)) where
  whole := (List.take_append_drop ..).symm
  start := by
    rw [List.getLast?_take, if_neg (Nat.succ_ne_zero j), Nat.add_sub_cancel, here]
    rfl
  finish := by
    rw [List.head?_append, List.head?_drop, next]
    rfl

/- Gaps are found where the points can be cut, and a point is put where they are. -/
theorem splitsOfAll (among : g ∈ all points) : ∃ before after, g.Splits points before after ∧
    ∀ p, g.split points p = before ++ p :: after := by
  rw [all] at among
  split at among
  case h_2 => cases among
  case h_1 first last head tail =>
    rcases List.mem_cons.mp among with rfl | inner
    · exact ⟨points, [], closingSplits head tail, fun p => if_pos rfl⟩
    · obtain ⟨⟨⟨a, b⟩, j⟩, found, rfl⟩ := List.mem_map.mp inner
      have there := List.mem_zipIdx_iff_getElem?.mp found
      obtain ⟨here, next⟩ := List.getElem?_zip_eq_some.mp there
      rw [List.getElem?_drop, Nat.add_comm] at next
      refine ⟨_, _, neighboursSplit here next, fun p => ?_⟩
      obtain ⟨inside, -⟩ := List.getElem?_eq_some_iff.mp next
      obtain ⟨first, rest, whole, length, put⟩ :=
        List.exists_of_modifyTailIdx (List.cons p) inside.le
      rw [whole, List.take_left' length, List.drop_left' length, ← put, ← whole]
      exact if_neg (Nat.succ_ne_zero j)

/- Wherever the points are cut, there is a gap. -/
theorem allOfSplits (splits : g.Splits points before after) :
    ∃ h ∈ all points, h.start = g.start ∧ h.finish = g.finish := by
  obtain ⟨whole, start, finish⟩ := splits
  obtain ⟨front, rfl⟩ := List.getLast?_eq_some_iff.mp start
  obtain ⟨first, head⟩ : ∃ first, points.head? = some first := by
    rw [whole]
    cases front <;> exact ⟨_, rfl⟩
  obtain ⟨last, tail⟩ : ∃ last, points.getLast? = some last := by
    obtain ⟨rest, rfl⟩ := List.head?_eq_some_iff.mp head
    exact ⟨_, List.getLast?_cons⟩
  rw [all, head, tail]
  cases after with
  | nil =>
    rw [List.append_nil] at whole
    rw [List.nil_append, ← whole, head] at finish
    rw [← whole, tail] at start
    exact ⟨_, .head _, Option.some.inj start, Option.some.inj finish⟩
  | cons next rest =>
    rw [List.cons_append, List.head?_cons] at finish
    refine ⟨⟨front.length + 1, g.start, g.finish⟩, .tail _ ?_, rfl, rfl⟩
    refine List.mem_map.mpr ⟨((g.start, g.finish), front.length), ?_, rfl⟩
    refine List.mem_zipIdx_iff_getElem?.mpr (List.getElem?_zip_eq_some.mpr ⟨?_, ?_⟩)
    · simp [whole]
    · simp [whole, Option.some.inj finish]

section
variable [Scalar α] [IsStrictOrder α (· < ·)]

/- None of the gaps is wider than the one that is found widest. -/
theorem widestAmong {width : Gap α → α} {gaps : List (Gap α)} (found : widest? width gaps = some g) :
    g ∈ gaps ∧ ∀ h ∈ gaps, ¬ width g < width h := by
  let wider (best h : Gap α) : Gap α := if width h > width best then h else best
  have folded (gaps seen : List (Gap α)) (best : Gap α) (among : best ∈ seen)
      (none : ∀ h ∈ seen, ¬ width best < width h) :
      gaps.foldl wider best ∈ seen ++ gaps ∧
        ∀ h ∈ seen ++ gaps, ¬ width (gaps.foldl wider best) < width h := by
    induction gaps generalizing seen best with
    | nil => exact ⟨(List.append_nil seen).symm ▸ among, (List.append_nil seen).symm ▸ none⟩
    | cons next rest ih =>
      rw [List.append_cons, List.foldl_cons]
      by_cases more : width best < width next
      · rw [show wider best next = next from if_pos more]
        refine ih (seen ++ [next]) next (by simp) (List.forall_mem_append.mpr ⟨?_, ?_⟩)
        · exact fun h earlier less => none h earlier (IsTrans.trans _ _ _ more less)
        · exact List.forall_mem_singleton.mpr (irrefl _)
      · rw [show wider best next = best from if_neg more]
        refine ih (seen ++ [next]) best (List.mem_append_left _ among) ?_
        exact List.forall_mem_append.mpr ⟨none, List.forall_mem_singleton.mpr more⟩
  cases gaps with
  | nil => cases found
  | cons first rest =>
    cases found
    exact folded rest [first] first (.head _) (List.forall_mem_singleton.mpr (irrefl _))

end

end Gap

/-! ### Across a gap -/

namespace Canvas
variable [Spectral α] {c : Canvas α} {g : Gap α} {calls : ℕ}

/- The search through the middle of a gap, away from the line between its ends or back. -/
def sight (c : Canvas α) (g : Gap α) (sign : α) : Eval α (Crossing α) :=
  let mid := middle g
  let dir := c.normal g sign
  c.profile.crossing [c.x, c.y] [mid.x, mid.y] [dir.x, dir.y] tolerance c.maxCalls

def seen (c : Canvas α) (g : Gap α) (sign : α) : Crossing α := ((c.sight g sign).run {}).1

def looking (c : Canvas α) (g : Gap α) (sign : α) : Work α :=
  ⟨(c.seen g sign).calls, ((c.sight g sign).run {}).2⟩

def landing (c : Canvas α) (g : Gap α) (sign : α) : Sample α :=
  let mid := middle g
  let dir := c.normal g sign
  let step := (c.seen g sign).value
  ⟨mid.x + step * dir.x, mid.y + step * dir.y⟩

theorem sightAdds (c : Canvas α) (g : Gap α) (sign : α) :
    Eval.Adds (c.sight g sign) (c.seen g sign) (c.looking g sign).asked :=
  (Profile.crossingBlind ..).shows

/- What comes of a gap after some calls: the searches that are made, and the point that they find. -/
inductive Bridges (c : Canvas α) (g : Gap α) (calls : ℕ) : List (Work α) → Option (Sample α) → Prop
  | spent (past : c.maxCalls < calls) : Bridges c g calls [] none
  | outward (within : calls ≤ c.maxCalls) (found : (c.seen g 1).isValid) :
      Bridges c g calls [c.looking g 1] (some (c.landing g 1))
  | spentOutward (within : calls ≤ c.maxCalls) (missed : ¬ (c.seen g 1).isValid)
      (past : c.maxCalls < calls + (c.seen g 1).calls) : Bridges c g calls [c.looking g 1] none
  | inward (within : calls ≤ c.maxCalls) (missed : ¬ (c.seen g 1).isValid)
      (left : calls + (c.seen g 1).calls ≤ c.maxCalls) (found : (c.seen g (-1)).isValid) :
      Bridges c g calls [c.looking g 1, c.looking g (-1)] (some (c.landing g (-1)))
  | neither (within : calls ≤ c.maxCalls) (missed : ¬ (c.seen g 1).isValid)
      (left : calls + (c.seen g 1).calls ≤ c.maxCalls) (again : ¬ (c.seen g (-1)).isValid) :
      Bridges c g calls [c.looking g 1, c.looking g (-1)] none

section
variable {sign : α} {rest : List α}

theorem bridgeSpent (past : c.maxCalls < calls) :
    Eval.Adds (c.bridge g calls (sign :: rest)) (none, calls) {} := by
  rw [bridge, if_pos past]
  exact .pure _

theorem bridgeFound (within : calls ≤ c.maxCalls) (found : (c.seen g sign).isValid) :
    Eval.Adds (c.bridge g calls (sign :: rest))
      (some (c.landing g sign), calls + (c.seen g sign).calls)
      ((c.looking g sign).asked.append {}) := by
  rw [bridge, if_neg (not_lt.mpr within)]
  refine .bind (c.sightAdds g sign) ?_
  dsimp only
  rw [if_pos found]
  exact .pure _

theorem bridgeMissed {result : Option (Sample α) × ℕ} {asked : Trace α} (within : calls ≤ c.maxCalls)
    (missed : ¬ (c.seen g sign).isValid)
    (next : Eval.Adds (c.bridge g (calls + (c.seen g sign).calls) rest) result asked) :
    Eval.Adds (c.bridge g calls (sign :: rest)) result ((c.looking g sign).asked.append asked) := by
  rw [bridge, if_neg (not_lt.mpr within)]
  refine .bind (c.sightAdds g sign) ?_
  dsimp only
  rw [if_neg missed]
  exact next

end

theorem bridgeRuns (c : Canvas α) (g : Gap α) (calls : ℕ) : ∃ made result,
    c.Bridges g calls made result ∧
      Eval.Adds (c.bridge g calls [1, -1]) (result, calls + Work.total made) (Work.gather made) := by
  by_cases past : c.maxCalls < calls
  · exact ⟨_, _, .spent past, bridgeSpent past⟩
  have within := not_lt.mp past
  by_cases found : (c.seen g 1).isValid
  · exact ⟨_, _, .outward within found, bridgeFound within found⟩
  by_cases spent : c.maxCalls < calls + (c.seen g 1).calls
  · exact ⟨_, _, .spentOutward within found spent, bridgeMissed within found (bridgeSpent spent)⟩
  have left := not_lt.mp spent
  have both : calls + Work.total [c.looking g 1, c.looking g (-1)] =
      calls + (c.seen g 1).calls + (c.seen g (-1)).calls := (Nat.add_assoc ..).symm
  by_cases again : (c.seen g (-1)).isValid
  · refine ⟨_, _, .inward within found left again, ?_⟩
    rw [both]
    exact bridgeMissed within found (bridgeFound left again)
  · refine ⟨_, _, .neither within found left again, ?_⟩
    rw [both]
    exact bridgeMissed within found (bridgeMissed left again (.pure _))

/-! ### Around the contour -/

/- No gap between points is wider. -/
def Widest (c : Canvas α) (g : Gap α) (points before after : List (Sample α)) : Prop :=
  g.Splits points before after ∧
    ∀ h first rest, Gap.Splits h points first rest → ¬ c.width g < c.width h

/- How a contour comes from points and calls spent, when at most so many points are wanted more: the
searches that are made, and the points that there are at last. -/
inductive Grows (c : Canvas α) : List (Sample α) → ℕ → ℕ → List (Work α) → List (Sample α) → Prop
  | full (points : List (Sample α)) (calls : ℕ) : Grows c points calls 0 [] points
  | stuck {points before after : List (Sample α)} {calls n : ℕ} {g : Gap α} {made : List (Work α)}
      (widest : c.Widest g points before after) (fails : c.Bridges g calls made none) :
      Grows c points calls (n + 1) made points
  | split {points before after result : List (Sample α)} {calls n : ℕ} {g : Gap α} {p : Sample α}
      {made more : List (Work α)} (widest : c.Widest g points before after)
      (finds : c.Bridges g calls made (some p))
      (rest : Grows c (before ++ p :: after) (calls + Work.total made) n more result) :
      Grows c points calls (n + 1) (made ++ more) result

section
variable [IsStrictOrder α (· < ·)]

theorem widestSplits {points : List (Sample α)} (filled : points ≠ []) :
    ∃ g before after, Gap.widest? c.width (Gap.all points) = some g ∧
      c.Widest g points before after ∧ ∀ p, g.split points p = before ++ p :: after := by
  obtain ⟨g, found⟩ : ∃ g, Gap.widest? c.width (Gap.all points) = some g := by
    rw [Gap.all, List.head?_eq_some_head filled, List.getLast?_eq_some_getLast filled]
    exact ⟨_, rfl⟩
  obtain ⟨among, narrower⟩ := Gap.widestAmong found
  obtain ⟨before, after, splits, put⟩ := Gap.splitsOfAll among
  refine ⟨g, before, after, found, ⟨splits, fun h first rest cut less => ?_⟩, put⟩
  obtain ⟨k, there, start, finish⟩ := Gap.allOfSplits cut
  have same : c.width k = c.width h := by rw [width, width, start, finish]
  exact narrower k there (same ▸ less)

theorem growRuns (c : Canvas α) {points : List (Sample α)} (filled : points ≠ []) (calls n : ℕ) :
    ∃ made result, c.Grows points calls n made result ∧
      Eval.Adds (c.grow points calls n) (result, calls + Work.total made) (Work.gather made) := by
  induction n generalizing points calls with
  | zero => exact ⟨[], points, .full points calls, .pure _⟩
  | succ n ih =>
    obtain ⟨g, before, after, found, widest, put⟩ := widestSplits (c := c) filled
    obtain ⟨made, result, bridges, adds⟩ := c.bridgeRuns g calls
    rw [grow, found]
    dsimp only
    cases result with
    | none =>
      refine ⟨made, points, .stuck widest bridges, ?_⟩
      exact (Work.gather made).appendNothing ▸ adds.bind (.pure (points, calls + Work.total made))
    | some p =>
      obtain ⟨more, result, rest, further⟩ :=
        ih (List.append_ne_nil_of_right_ne_nil before (List.cons_ne_nil p after))
          (calls + Work.total made)
      refine ⟨made ++ more, result, .split widest bridges rest, ?_⟩
      rw [Work.totalAppend, ← Nat.add_assoc, Work.gatherAppend]
      refine adds.bind ?_
      dsimp only
      rw [put]
      exact further

end

/- A contour has all points that were wanted, or the one that came last leaves a widest gap that could not
be crossed. -/
theorem Grows.count {points result : List (Sample α)} {n : ℕ} {made : List (Work α)}
    (grows : c.Grows points calls n made result) : result.length = points.length + n ∨
      result.length < points.length + n ∧ ∃ g before after spent tried,
        c.Widest g result before after ∧ c.Bridges g spent tried none := by
  induction grows with
  | full => exact .inl rfl
  | stuck widest fails => exact .inr ⟨by omega, _, _, _, _, _, widest, fails⟩
  | @split points before after result calls n g p made more widest finds rest ih =>
    have longer : (before ++ p :: after).length + n = points.length + (n + 1) := by
      rw [widest.1.whole]
      simp only [List.length_append, List.length_cons]
      omega
    rwa [longer] at ih

end Canvas
end ParamFit
