import ParamFit.Proofs.Descending

/-! A simplex never loses its lowest vertex. Every vertex has its own value, and the best one is not
above the seed: the vertex that gives way is the worst, and where that is the best one as well, what
takes its place is not above it. -/
namespace ParamFit
namespace Simplex

section
variable {α : Type} [Scalar α]

theorem vertexAt {s : Simplex α} {i : ℕ} (inside : i < s.vertices.size) : s.vertex i = s.vertices[i] := by
  simp [vertex, inside]

theorem vertexSet (s : Simplex α) {i : ℕ} (j w b : ℕ) (v : Vertex α) (inside : i < s.vertices.size) :
    (Simplex.mk (s.vertices.setIfInBounds i v) w b).vertex j = if j = i then v else s.vertex j := by
  simp only [vertex, Array.getD_eq_getD_getElem?, Array.getElem?_setIfInBounds]
  by_cases same : i = j
  · simp [same, same ▸ inside]
  · simp [same, Ne.symm same]

theorem vertexPush (s : Simplex α) (j w b : ℕ) (v : Vertex α) :
    (Simplex.mk (s.vertices.push v) w b).vertex j =
      if j = s.vertices.size then v else s.vertex j := by
  simp only [vertex, Array.getD_eq_getD_getElem?, Array.getElem?_push]
  split <;> simp

theorem findWorstInside {vertices : Array (Vertex α)} (some : 0 < vertices.size) :
    findWorst vertices < vertices.size := by
  have step (l : List ℕ) (w : ℕ) (inside : ∀ i ∈ l, i < vertices.size) (start : w < vertices.size)
      (value : ℕ → α) :
      l.foldl (fun w i => if value i > value w then i else w) w < vertices.size := by
    induction l generalizing w with
    | nil => exact start
    | cons i l ih =>
      have rest : ∀ j ∈ l, j < vertices.size := fun j among => inside j (.tail _ among)
      refine ih _ rest ?_
      dsimp only
      split
      · exact inside i (.head _)
      · exact start
  exact step _ _ (fun i among => List.mem_range.mp among) some _

end

/- The vertices are points of the surface, and the best one is not above `top`. -/
structure Sits (f : Surface ℝ) (top : ℝ) (n : ℕ) (s : Simplex ℝ) : Prop where
  size : s.vertices.size = n
  known : ∀ v ∈ s.vertices, f.Knows (.plain v.x v.value)
  worst : s.worst < n
  best : s.best < n
  lower : s.bestVertex.value ≤ top

variable {f : Surface ℝ} {top : ℝ} {n : ℕ} {s : Simplex ℝ}

namespace Sits
variable (sits : s.Sits f top n)
include sits

theorem vertexKnown {i : ℕ} (inside : i < n) :
    f.Knows (.plain (s.vertex i).x (s.vertex i).value) := by
  rw [← sits.size] at inside
  rw [vertexAt inside]
  exact sits.known _ (Array.getElem_mem inside)

theorem worstKnown : f.Knows (.plain s.worstVertex.x s.worstVertex.value) :=
  sits.vertexKnown sits.worst

theorem bestKnown : f.Knows (.plain s.bestVertex.x s.bestVertex.value) := sits.vertexKnown sits.best

/- An exchange may lose the best vertex only for one that is not above `top` either. -/
theorem exchange {v : Vertex ℝ} (known : f.Knows (.plain v.x v.value))
    (lower : s.best = s.worst → v.value ≤ top) : (s.exchange v).Sits f top n := by
  have size : (s.vertices.setIfInBounds s.worst v).size = n := by
    rw [Array.size_setIfInBounds, sits.size]
  have inside : s.worst < s.vertices.size := sits.size.symm ▸ sits.worst
  refine ⟨size, fun w among => ?_, ?_, ?_, ?_⟩
  · rcases Array.mem_or_eq_of_mem_setIfInBounds among with kept | rfl
    · exact sits.known w kept
    · exact known
  · have some : 0 < (s.vertices.setIfInBounds s.worst v).size := by
      rw [Array.size_setIfInBounds]
      omega
    have worst := findWorstInside some
    rwa [size] at worst
  · dsimp only [Simplex.exchange]
    generalize (if s.best = s.worst then v.value else s.valueAt s.best) = low
    split
    · exact sits.worst
    · exact sits.best
  · rw [bestVertex, Simplex.exchange, vertexSet _ _ _ _ _ inside]
    by_cases same : s.best = s.worst
    · simpa [same] using lower same
    · simp only [same, if_false]
      split
      case isTrue better =>
        rw [if_pos rfl]
        exact better.le.trans sits.lower
      case isFalse => exact sits.lower

/- A further vertex takes the next place. -/
theorem push {v : Vertex ℝ} (known : f.Knows (.plain v.x v.value)) :
    Sits f top (n + 1)
      { vertices := s.vertices.push v
        worst := if v.value > s.worstVertex.value then n else s.worst
        best := if v.value < s.bestVertex.value then n else s.best } := by
  refine ⟨by rw [Array.size_push, sits.size], fun w among => ?_, ?_, ?_, ?_⟩
  · rcases Array.mem_push.mp among with earlier | rfl
    · exact sits.known w earlier
    · exact known
  · have worst := sits.worst
    dsimp only
    split <;> omega
  · have best := sits.best
    dsimp only
    split <;> omega
  · rw [bestVertex, vertexPush, sits.size]
    dsimp only
    generalize s.worstVertex = worst
    split
    case isTrue lower =>
      rw [if_pos rfl]
      exact lower.le.trans sits.lower
    case isFalse =>
      rw [if_neg sits.best.ne]
      exact sits.lower

theorem exchangeWorst {v : Vertex ℝ} (known : f.Knows (.plain v.x v.value))
    (lower : v.value ≤ s.worstVertex.value) : (s.exchange v).Sits f top n := by
  refine sits.exchange known fun same => lower.trans ?_
  rw [worstVertex, ← same]
  exact sits.lower

theorem exchangeBest {v : Vertex ℝ} (known : f.Knows (.plain v.x v.value))
    (lower : v.value ≤ s.bestVertex.value) : (s.exchange v).Sits f top n :=
  sits.exchange known fun _ => lower.trans sits.lower

end Sits

/-! ### Trial points -/

theorem blendSize {a b : Array ℝ} {n : ℕ} (left : a.size = n) (right : b.size = n) (u v : ℝ) :
    (blend a u b v).size = n := by
  rw [blend, Vector.sizeAdd, Vector.sizeScale, Vector.sizeScale, left, right, Nat.min_self]

theorem reflectedSize {c : Array ℝ} (worst : s.worstVertex.x.size = n) (size : c.size = n) :
    (s.reflected c).size = n := by
  rw [reflected, Vector.sizeSub, Vector.sizeScale, Vector.sizeScale, worst, size, Nat.min_self]

theorem Sits.centerSize (sits : s.Sits f top (f.space.dimension + 1)) :
    s.center.size = f.space.dimension := by
  have fold (l : List (Vertex ℝ × ℕ)) (c : Array ℝ) (weight : ℝ)
      (known : ∀ v ∈ l, v.1.x.size = f.space.dimension) (size : c.size = f.space.dimension) :
      (l.foldl (fun c (v, _) => Vector.add c (Vector.scale v.x weight)) c).size =
        f.space.dimension := by
    induction l generalizing c with
    | nil => exact size
    | cons v l ih =>
      refine ih _ (fun w among => known w (.tail _ among)) ?_
      rw [Vector.sizeAdd, Vector.sizeScale, size, known v (.head _), Nat.min_self]
  refine fold _ _ _ (fun v among => ?_) (by rw [Array.size_replicate, sits.size]; rfl)
  have vertex := List.fst_mem_of_mem_zipIdx (List.mem_of_mem_filter among)
  exact (sits.known _ (Array.mem_toList_iff.mp vertex)).size

/-! ### Rounds -/

/- Either outcome of a round is a simplex again. -/
def Outcome.Sits (f : Surface ℝ) (top : ℝ) (n : ℕ) : Outcome ℝ → Prop
  | .moved s | .shrunk s => s.Sits f top n

section
variable {P : Array ℝ → Prop}
  (inside : ∀ x : Array ℝ, x.size = f.space.dimension → P (f.space.external x))
include inside

/- A value that was asked where all coordinates are given makes a vertex. -/
theorem askStays {β : Type} {x : Array ℝ} (size : x.size = f.space.dimension)
    {rest : ℝ → Eval ℝ β} {post : β → Prop}
    (known : ∀ y, f.Knows (.plain x y) → Stays P (rest y) post) :
    Stays P (f.value x >>= rest) post :=
  .bind (Surface.valueStays (inside x size)) fun y value => known y ⟨size, value⟩

variable (sits : s.Sits f top (f.space.dimension + 1)) {c : Array ℝ}
  (size : c.size = f.space.dimension)
include sits size

theorem pullStays : Stays P (pull f s c) (Outcome.Sits f top (f.space.dimension + 1)) := by
  refine askStays inside (blendSize sits.worstKnown.size size _ _) fun y known => ?_
  refine .pure ?_
  split
  case isTrue => exact sits
  case isFalse lower => exact sits.exchangeWorst known (not_lt.mp lower)

theorem afterPoorStays {v : Vertex ℝ} (known : f.Knows (.plain v.x v.value)) :
    Stays P (afterPoor f s c v) (Outcome.Sits f top (f.space.dimension + 1)) := by
  refine .ite (fun lower => ?_) fun _ => pullStays inside sits size
  have next := sits.exchangeWorst known (le_of_lt lower)
  exact .ite (fun _ => .pure next) fun _ => pullStays inside next size

theorem afterGoodStays {v w : Vertex ℝ} (first : f.Knows (.plain v.x v.value))
    (lower : v.value ≤ s.bestVertex.value) (second : f.Knows (.plain w.x w.value)) :
    Stays P (afterGood f s c v w) (Outcome.Sits f top (f.space.dimension + 1)) := by
  have better : (s.exchange (if w.value < s.bestVertex.value then w else v)).Sits f top
      (f.space.dimension + 1) := by
    split
    case isTrue least => exact sits.exchangeBest second (le_of_lt least)
    case isFalse => exact sits.exchangeBest first lower
  refine .ite (fun _ => .pure better) fun _ => ?_
  refine askStays inside (blendSize size sits.worstKnown.size _ _) fun y third => ?_
  refine .ite (fun least => ?_) fun _ => .ite (fun least => ?_) fun _ => ?_
  · exact .pure (sits.exchangeBest third (le_of_lt least.1))
  · exact .pure (sits.exchangeBest second (le_of_lt least))
  refine .ite (fun _ => .pure better) fun _ => ?_
  exact .ite (fun _ => pullStays inside sits size) fun _ => .pure sits

omit size in
theorem roundStays : Stays P (round f s) (Outcome.Sits f top (f.space.dimension + 1)) := by
  have middle := sits.centerSize
  have opposite := reflectedSize sits.worstKnown.size middle
  refine askStays inside opposite fun y first => ?_
  refine .ite (fun _ => afterPoorStays inside sits middle first) fun lower => ?_
  refine askStays inside (blendSize opposite middle _ _) fun z second => ?_
  exact afterGoodStays inside sits middle first (not_lt.mp lower) second

omit sits size in
theorem roundsStays (maxCalls : ℕ) (wanted : ℝ) {s : Simplex ℝ}
    (sits : s.Sits f top (f.space.dimension + 1)) (fuel : ℕ) :
    Stays P (rounds f maxCalls wanted s fuel) (Sits f top (f.space.dimension + 1)) := by
  induction fuel generalizing s with
  | zero => exact .pure sits
  | succ fuel ih =>
    refine .bind (roundStays inside sits) fun o next => ?_
    cases o with
    | shrunk t => exact .pure next
    | moved t => exact .counting fun _ => .ite (fun _ => ih next) fun _ => .pure next

/-! ### Beginning and end -/

omit sits size in
/- One vertex for each coordinate from `k` on: the place of each is one more than its coordinate. -/
theorem spreadOutStays (seed : Seed ℝ) {x : Array ℝ} (full : x.size = f.space.dimension)
    {s : Simplex ℝ} {k : ℕ} (sits : s.Sits f top (k + 1)) (m : ℕ) :
    Stays P (spreadOut f seed x s (List.range' k m)) (Sits f top (k + m + 1)) := by
  induction m generalizing x s k with
  | zero => exact .pure sits
  | succ m ih =>
    rw [List.range'_succ, show k + (m + 1) + 1 = (k + 1) + m + 1 by omega]
    refine askStays inside (by rw [Array.size_setIfInBounds, full]) fun y known => ?_
    exact ih (by rw [Array.size_setIfInBounds, full]) (sits.push known)

omit sits size in
theorem ofSeedStays {seed : Seed ℝ} (known : f.Tells seed.knowledge) :
    Stays P (ofSeed f seed) (Sits f seed.knowledge.value (f.space.dimension + 1)) := by
  have one : Sits f seed.knowledge.value 1
      ⟨#[⟨seed.knowledge.point.value, seed.knowledge.point.x⟩], 0, 0⟩ := by
    refine ⟨rfl, fun v among => ?_, Nat.one_pos, Nat.one_pos, le_refl _⟩
    rw [Array.mem_singleton.mp among]
    exact ⟨known.point.size, known.point.value⟩
  have spread := spreadOutStays inside seed known.point.size one f.space.dimension
  rw [Nat.zero_add] at spread
  rwa [ofSeed, List.range_eq_range', known.point.size]

omit size in
theorem settleStays : Stays P (settle f s) fun r =>
    f.Knows (.plain r.2.x r.2.value) ∧ r.2.value ≤ top := by
  refine askStays inside sits.centerSize fun y known => .pure ?_
  split
  case isTrue lower => exact ⟨known, (le_of_lt lower).trans sits.lower⟩
  case isFalse => exact ⟨sits.bestKnown, sits.lower⟩

end
end Simplex

theorem Surface.contractStays {f : Surface ℝ} {P : Array ℝ → Prop}
    (inside : ∀ x : Array ℝ, x.size = f.space.dimension → P (f.space.external x))
    {seed : Seed ℝ} (known : f.Tells seed.knowledge) (maxCalls : ℕ) (wanted : ℝ) :
    Stays P (f.contract seed maxCalls wanted) (f.Reports seed) := by
  refine .ite (fun _ => .pure (.ofSeed known _)) fun _ => .expect ?_
  refine .bind (Simplex.ofSeedStays inside known) fun s begun => ?_
  refine .bind (Simplex.roundsStays inside _ _ begun _) fun s ended => ?_
  refine .bind (Simplex.settleStays inside ended) fun ⟨s, best⟩ ⟨found, lower⟩ => ?_
  refine .counting fun calls => .pure ?_
  let point := Point.withStep best.x (s.errors f.errorDef) best.value
  have last : f.Descends seed.knowledge (.ofPoint point s.spread calls) :=
    ⟨⟨⟨found.size, found.value⟩, (Array.size_replicate ..).trans found.size⟩, lower⟩
  have none : ∀ k ∈ ([] : List (Knowledge ℝ)), f.Tells k := nofun
  have reports : f.Reports seed (.ofHistory seed [.ofPoint point s.spread calls] f.errorDef) :=
    .ofPast none last f.errorDef
  split
  · exact reports.flag _ _
  · split
    · exact reports.flag _ _
    · exact reports

end ParamFit
