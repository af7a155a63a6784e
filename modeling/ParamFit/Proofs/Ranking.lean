import ParamFit.Proofs.Asking
import ParamFit.Proofs.Contracting
import ParamFit.Proofs.Turning

/-! A simplex knows its best and its worst vertex. The best place is kept from round to round and the
worst one is looked for anew; where both are one place, all values are the same, and what is taken there
is not above them. So the lowest value never rises, one of the paths through a round is never taken, and
the calls of a whole search are bounded. Only the order of the numbers matters here, not their
arithmetic. -/
namespace ParamFit

/- Numbers whose comparison is a strict weak order. A quotient by zero may be any of them. -/
structure Scalar.Orders (α : Type) [Scalar α] : Prop where
  asymm {a b : α} (lower : a < b) : ¬ b < a
  split {a b : α} (lower : a < b) (c : α) : a < c ∨ c < b

namespace Scalar.Orders
variable {α : Type} [Scalar α] (orders : Scalar.Orders α) {a b c : α}
include orders

theorem irrefl (a : α) : ¬ a < a := fun lower => orders.asymm lower lower

theorem trans (first : a < b) (rest : b < c) : a < c :=
  (orders.split first c).resolve_right (orders.asymm rest)

theorem notLower (first : ¬ b < a) (rest : ¬ c < b) : ¬ c < a :=
  fun lower => (orders.split lower b).elim rest first

end Scalar.Orders

/- Exact numbers in which a quotient by zero is what `atZero` says. -/
@[reducible] noncomputable def Exact.dividing (atZero : ℝ → ℝ) : Scalar ℝ :=
  { exactScalar with div := fun a b => if b = 0 then atZero a else a / b }

theorem exactOrders : Scalar.Orders ℝ where
  asymm lower := lt_asymm lower
  split lower c := (lt_or_ge _ c).imp_right fun above => lt_of_le_of_lt above lower

theorem dividingOrders (atZero : ℝ → ℝ) : @Scalar.Orders ℝ (Exact.dividing atZero) :=
  @Scalar.Orders.mk ℝ (Exact.dividing atZero) exactOrders.asymm exactOrders.split

namespace Simplex

def Outcome.left {α : Type} : Outcome α → Simplex α
  | .moved s | .shrunk s => s

section
variable {α : Type} [Scalar α]

/- A simplex that began at `start`: each of its vertices has its own value, none is below the best one
and none above the worst. -/
structure Ranks (f : Surface α) (start : Vertex α) (n : ℕ) (s : Simplex α) : Prop where
  size : s.vertices.size = n
  paired : ∀ v ∈ s.vertices, v = start ∨ v.value = f.worth v.x
  best : s.best < n
  worst : s.worst < n
  lowest : ∀ i < n, ¬ s.valueAt i < s.valueAt s.best
  highest : ∀ i < n, ¬ s.valueAt s.worst < s.valueAt i

/- What a round makes of a simplex, or a part of a round. -/
structure Follows (f : Surface α) (start : Vertex α) (n : ℕ) (s next : Simplex α) : Prop where
  ranks : next.Ranks f start n
  lower : ¬ s.bestVertex.value < next.bestVertex.value

theorem valueSet (s : Simplex α) {i : ℕ} (j w b : ℕ) (v : Vertex α) (inside : i < s.vertices.size) :
    (Simplex.mk (s.vertices.setIfInBounds i v) w b).valueAt j =
      if j = i then v.value else s.valueAt j := by
  rw [valueAt, vertexSet s j w b v inside, valueAt, apply_ite Vertex.value]

theorem valuePush (s : Simplex α) (j w b : ℕ) (v : Vertex α) :
    (Simplex.mk (s.vertices.push v) w b).valueAt j =
      if j = s.vertices.size then v.value else s.valueAt j := by
  rw [valueAt, vertexPush, valueAt, apply_ite Vertex.value]

omit [Scalar α] in
/- The extreme of some values, with one more value. -/
theorem extremeNext (before : α → α → Prop) [DecidableRel before] (irrefl : ∀ a, ¬ before a a)
    (trans : ∀ {a b c}, before a b → before b c → before a c) {value : ℕ → α} {n k : ℕ}
    (known : ∀ i < n, ¬ before (value i) (value k)) :
    ∀ i < n + 1, ¬ before (value i) (value (if before (value n) (value k) then n else k)) := by
  intro i among
  split
  case isTrue more =>
    rcases Nat.lt_succ_iff_lt_or_eq.mp among with earlier | rfl
    · exact fun other => known i earlier (trans other more)
    · exact irrefl _
  case isFalse kept =>
    rcases Nat.lt_succ_iff_lt_or_eq.mp among with earlier | rfl
    · exact known i earlier
    · exact kept

variable (orders : Scalar.Orders α)
include orders

theorem lowestNext {value : ℕ → α} {n k : ℕ} (known : ∀ i < n, ¬ value i < value k) :
    ∀ i < n + 1, ¬ value i < value (if value n < value k then n else k) :=
  extremeNext (· < ·) orders.irrefl orders.trans known

theorem highestNext {value : ℕ → α} {n k : ℕ} (known : ∀ i < n, ¬ value k < value i) :
    ∀ i < n + 1, ¬ value (if value n > value k then n else k) < value i :=
  extremeNext (· > ·) orders.irrefl (fun first rest => orders.trans rest first) known

theorem findWorstHighest (s : Simplex α) {i : ℕ} (inside : i < s.vertices.size) :
    ¬ s.valueAt (findWorst s.vertices) < s.valueAt i := by
  have found (value : ℕ → α) (n : ℕ) : ∀ i < n,
      ¬ value ((List.range n).foldl (fun w i => if value i > value w then i else w) 0) < value i := by
    induction n with
    | zero => nofun
    | succ n ih =>
      rw [List.range_succ, List.foldl_append, List.foldl_cons, List.foldl_nil]
      exact highestNext orders ih
  have same (j : ℕ) : s.valueAt j = ((s.vertices[j]?).map (·.value)).getD 0 := by
    rw [valueAt, vertex, Array.getD_eq_getD_getElem?]
    cases s.vertices[j]? <;> rfl
  have top := found (fun j => ((s.vertices[j]?).map (·.value)).getD 0) s.vertices.size i inside
  rw [same, same, findWorst]
  exact top

variable {f : Surface α} {start : Vertex α} {n : ℕ} {s : Simplex α}

namespace Ranks
variable (ranks : s.Ranks f start n)
include ranks

omit orders in
theorem some : 0 < n := Nat.zero_lt_of_lt ranks.best

omit orders in
theorem bestBelow : ¬ s.worstVertex.value < s.bestVertex.value := ranks.lowest s.worst ranks.worst

theorem belowWorst {v : Vertex α} (lower : ¬ s.bestVertex.value < v.value) :
    ¬ s.worstVertex.value < v.value := orders.notLower lower ranks.bestBelow

/- Where the best vertex is the worst as well, the new one takes its place and is still the best. -/
theorem exchangeLowest {v : Vertex α} (lower : ¬ s.worstVertex.value < v.value) :
    (∀ i < n, ¬ (s.exchange v).valueAt i < (s.exchange v).valueAt (s.exchange v).best) ∧
      ¬ s.bestVertex.value < (s.exchange v).bestVertex.value := by
  have inside : s.worst < s.vertices.size := ranks.size.symm ▸ ranks.worst
  have values (j : ℕ) : (s.exchange v).valueAt j = if j = s.worst then v.value else s.valueAt j :=
    valueSet s j _ _ v inside
  have place : (s.exchange v).best =
      if v.value < (if s.best = s.worst then v.value else s.valueAt s.best) then s.worst
      else s.best := rfl
  have chosen (w : α) (best : (s.exchange v).valueAt (s.exchange v).best = w) (new : ¬ v.value < w)
      (old : ∀ i < n, i ≠ s.worst → ¬ s.valueAt i < w) (below : ¬ s.valueAt s.best < w) :
      (∀ i < n, ¬ (s.exchange v).valueAt i < (s.exchange v).valueAt (s.exchange v).best) ∧
        ¬ s.bestVertex.value < (s.exchange v).bestVertex.value := by
    refine ⟨fun i among => ?_, ?_⟩
    · rw [best, values]
      split
      case isTrue => exact new
      case isFalse other => exact old i among other
    · exact fun higher => below (best ▸ higher)
  by_cases same : s.best = s.worst
  · rw [if_pos same, if_neg (orders.irrefl _)] at place
    refine chosen v.value ?_ (orders.irrefl _) (fun i among _ => ?_) (same ▸ lower)
    · rw [place, values, if_pos same]
    · have low := ranks.lowest i among
      rw [same] at low
      exact orders.notLower lower low
  rw [if_neg same] at place
  by_cases better : v.value < s.valueAt s.best
  · rw [if_pos better] at place
    refine chosen v.value ?_ (orders.irrefl _) (fun i among _ => ?_) (orders.asymm better)
    · rw [place, values, if_pos rfl]
    · exact fun higher => ranks.lowest i among (orders.trans higher better)
  · rw [if_neg better] at place
    refine chosen (s.valueAt s.best) ?_ better (fun i among _ => ranks.lowest i among)
      (orders.irrefl _)
    rw [place, values, if_neg same]

theorem exchange {v : Vertex α} (paired : v.value = f.worth v.x)
    (lower : ¬ s.worstVertex.value < v.value) : Follows f start n s (s.exchange v) := by
  have size : (s.exchange v).vertices.size = n := by
    rw [Simplex.exchange, Array.size_setIfInBounds, ranks.size]
  obtain ⟨lowest, below⟩ := ranks.exchangeLowest orders lower
  refine ⟨⟨size, fun w among => ?_, ?_, ?_, lowest, fun i inside => ?_⟩, below⟩
  · rcases Array.mem_or_eq_of_mem_setIfInBounds among with kept | rfl
    · exact ranks.paired w kept
    · exact .inr paired
  · dsimp only [Simplex.exchange]
    generalize (if s.best = s.worst then v.value else s.valueAt s.best) = low
    split
    · exact ranks.worst
    · exact ranks.best
  · have worst := findWorstInside (size.symm ▸ ranks.some)
    rwa [size] at worst
  · exact findWorstHighest orders _ (size.symm ▸ inside)

/- A further vertex takes the next place. -/
theorem push {v : Vertex α} (paired : v.value = f.worth v.x) :
    Ranks f start (n + 1)
      { vertices := s.vertices.push v
        worst := if v.value > s.worstVertex.value then n else s.worst
        best := if v.value < s.bestVertex.value then n else s.best } := by
  let grown (j : ℕ) : α := if j = n then v.value else s.valueAt j
  have values (w b : ℕ) : (Simplex.mk (s.vertices.push v) w b).valueAt = grown :=
    funext fun j => (valuePush s j w b v).trans (by rw [ranks.size])
  have last : grown n = v.value := if_pos rfl
  have earlier (i : ℕ) (inside : i < n) : grown i = s.valueAt i := if_neg inside.ne
  refine ⟨by rw [Array.size_push, ranks.size], fun w among => ?_, ?_, ?_, ?_, ?_⟩
  · rcases Array.mem_push.mp among with old | rfl
    · exact ranks.paired w old
    · exact .inr paired
  · have best := ranks.best
    dsimp only
    split <;> omega
  · have worst := ranks.worst
    dsimp only
    split <;> omega
  · have known (i : ℕ) (inside : i < n) : ¬ grown i < grown s.best := by
      rw [earlier i inside, earlier _ ranks.best]
      exact ranks.lowest i inside
    have next := lowestNext orders known
    rwa [last, earlier _ ranks.best, ← values] at next
  · have known (i : ℕ) (inside : i < n) : ¬ grown s.worst < grown i := by
      rw [earlier i inside, earlier _ ranks.worst]
      exact ranks.highest i inside
    have next := highestNext orders known
    rwa [last, earlier _ ranks.worst, ← values] at next

theorem same : Follows f start n s s := ⟨ranks, orders.irrefl _⟩

end Ranks

theorem Follows.trans {mid last : Simplex α} (first : Follows f start n s mid)
    (rest : Follows f start n mid last) : Follows f start n s last :=
  ⟨rest.ranks, orders.notLower rest.lower first.lower⟩

/-! ### Rounds -/

section
variable (ranks : s.Ranks f start n)
include ranks

theorem Pulls.follows {c : Array α} {o : Outcome α} (pulls : s.Pulls f c o) :
    Follows f start n s o.left := by
  cases pulls with
  | given => exact ranks.same orders
  | taken lower => exact ranks.exchange orders rfl lower

theorem exchangeOpposite (low : s.Low f) : Follows f start n s (s.exchange (s.opposite f)) :=
  ranks.exchange orders rfl (orders.asymm low)

/- A vertex that is not above the best one can take the place of the worst. -/
theorem exchangeBelow {x : Array α} (lower : ¬ s.bestVertex.value < f.worth x) :
    Follows f start n s (s.exchange (f.vertex x)) :=
  ranks.exchange orders rfl (ranks.belowWorst orders lower)

theorem exchangeBetter (good : ¬ s.Poor f) : Follows f start n s (s.exchange (s.better f)) := by
  rw [better]
  split
  case isTrue less => exact exchangeBelow orders ranks (orders.asymm less)
  case isFalse => exact exchangeBelow orders ranks good

theorem Turn.follows {o : Outcome α} {xs : List (Array α)} (turn : s.Turn f o xs) :
    Follows f start n s o.left := by
  cases turn with
  | reflects _ low => exact exchangeOpposite orders ranks low
  | reflectsPulls _ low _ pulls =>
    have first := exchangeOpposite orders ranks low
    exact first.trans orders (pulls.follows orders first.ranks)
  | pulls _ _ pulls => exact pulls.follows orders ranks
  | stretches good => exact exchangeBetter orders ranks good
  | extrapolates _ least => exact exchangeBelow orders ranks (orders.asymm least.1)
  | stretchesFar _ _ less => exact exchangeBelow orders ranks (orders.asymm less)
  | reflectsFar far => exact exchangeBetter orders ranks far.1
  | pullsFar _ _ pulls => exact pulls.follows orders ranks
  | keeps => exact ranks.same orders

/- After a reflected vertex that is not above the best one, the worst vertex is never pulled. -/
theorem Turn.most {o : Outcome α} {xs : List (Array α)} (turn : s.Turn f o xs) :
    0 < xs.length ∧ xs.length ≤ 3 := by
  cases turn with
  | pullsFar far higher => exact absurd higher (ranks.belowWorst orders far.1)
  | _ => simp

end

/- The simplexes that a round holds: the one it begins with, the one between two exchanges and the one
it leaves. -/
inductive Holds (f : Surface α) (s : Simplex α) : Simplex α → Prop where
  | begins : Holds f s s
  | between (poor : s.Poor f) (low : s.Low f) : Holds f s (s.exchange (s.opposite f))
  | ends (t : Trace α) : Holds f s ((round f s).run t).1.left

theorem roundFollows (ranks : s.Ranks f start n) {t u : Trace α} {o : Outcome α}
    (run : (round f s).run t = (o, u)) :
    Follows f start n s o.left ∧ t.calls < u.calls ∧ u.calls ≤ t.calls + 3 := by
  obtain ⟨found, xs, turn, finds⟩ := roundFinds f s
  have most := turn.most orders ranks
  have same := finds.answer t
  have counted := finds.calls t
  rw [run] at same counted
  dsimp only at same counted
  rw [same, counted]
  exact ⟨turn.follows orders ranks, by omega, by omega⟩

theorem Holds.ranks (ranks : s.Ranks f start n) {h : Simplex α} (holds : Holds f s h) :
    h.Ranks f start n := by
  cases holds with
  | begins => exact ranks
  | between _ low => exact (exchangeOpposite orders ranks low).ranks
  | ends t => exact (roundFollows orders ranks (t := t) rfl).1.ranks

/-! ### Rounds that follow each other -/

/- A search with a simplex goes on after an outcome with calls left and values that differ. -/
def GoesOn (maxCalls : ℕ) (wanted : α) : Outcome α → Trace α → Prop
  | .moved s, t => s.spread > wanted ∧ t.calls < maxCalls
  | .shrunk _, _ => False

variable (f) (maxCalls : ℕ) (wanted : α)

/- The rounds that begin with the first pair come to one that begins with the second. -/
inductive Comes : Simplex α → Trace α → Simplex α → Trace α → Prop where
  | here {s t} : Comes s t s t
  | later {s t next u last v} (moved : (round f s).run t = (.moved next, u))
      (goesOn : GoesOn maxCalls wanted (.moved next) u) (rest : Comes next u last v) :
      Comes s t last v

variable {f maxCalls wanted} {last : Simplex α} {t u v : Trace α}

theorem Comes.follows (comes : Comes f maxCalls wanted s t last v) (ranks : s.Ranks f start n) :
    Follows f start n s last := by
  induction comes with
  | here => exact ranks.same orders
  | @later s t next u last v moved _ rest ih =>
    have first := (roundFollows orders ranks moved).1
    exact first.trans orders (ih first.ranks)

omit orders in
theorem Comes.most (comes : Comes f maxCalls wanted s t last v) :
    v.calls ≤ max t.calls (maxCalls - 1) := by
  induction comes with
  | here => exact le_max_left _ _
  | later _ goesOn _ ih =>
    have spent := goesOn.2
    omega

variable (maxCalls wanted) in
/- A round that goes on has asked, so the fuel that is left still covers the calls that are left. -/
theorem roundsLast (ranks : s.Ranks f start n) {fuel : ℕ} (some : 0 < fuel)
    (enough : maxCalls < t.calls + fuel) :
    ∃ last v o w, Comes f maxCalls wanted s t last v ∧ (round f last).run v = (o, w) ∧
      ¬ GoesOn maxCalls wanted o w ∧ (rounds f maxCalls wanted s fuel).run t = (o.left, w) := by
  induction fuel generalizing s t with
  | zero => exact absurd some (Nat.lt_irrefl 0)
  | succ fuel ih =>
    rw [rounds, Eval.runBind]
    generalize run : (round f s).run t = r
    obtain ⟨o, w⟩ := r
    obtain ⟨follows, spent, _⟩ := roundFollows orders ranks run
    cases o with
    | shrunk next => exact ⟨s, t, _, w, .here, run, id, rfl⟩
    | moved next =>
      simp only [Eval.runBind, Eval.runIte]
      by_cases goesOn : next.spread > wanted ∧ w.calls < maxCalls
      · have left := goesOn.2
        obtain ⟨last, v, o, w', comes, final, ends, same⟩ := ih (s := next) (t := w) follows.ranks
          (by omega) (by omega)
        exact ⟨last, v, o, w', .later run goesOn comes, final, ends, (if_pos goesOn).trans same⟩
      · exact ⟨s, t, _, w, .here, run, goesOn, if_neg goesOn⟩

variable (maxCalls wanted) in
theorem roundsMost (ranks : s.Ranks f start n) (t : Trace α) :
    ((s.rounds f maxCalls wanted (maxCalls + 1)).run t).2.calls ≤ max t.calls (maxCalls - 1) + 3 := by
  obtain ⟨last, v, o, w, comes, run, _, same⟩ := roundsLast orders maxCalls wanted
    ranks (t := t) (Nat.succ_pos maxCalls) (by omega)
  have before := comes.most
  have after := (roundFollows orders (comes.follows orders ranks).ranks run).2.2
  rw [same]
  dsimp only
  omega

/-! ### Beginning and end -/

theorem startRanks (f : Surface α) (start : Vertex α) : Ranks f start 1 ⟨#[start], 0, 0⟩ := by
  have only (i : ℕ) (inside : i < 1) : i = 0 := Nat.lt_one_iff.mp inside
  refine ⟨rfl, fun v among => .inl (Array.mem_singleton.mp among), Nat.one_pos, Nat.one_pos,
    fun i inside => ?_, fun i inside => ?_⟩
  · rw [only i inside]
    exact orders.irrefl _
  · rw [only i inside]
    exact orders.irrefl _

/- One vertex for each coordinate from `k` on. -/
theorem spreadOutRanks (seed : Seed α) {x : Array α} {k : ℕ} (ranks : s.Ranks f start (k + 1))
    (m : ℕ) : ∃ s' xs, s'.Ranks f start (k + m + 1) ∧
      Finds f (spreadOut f seed x s (List.range' k m)) s' xs := by
  induction m generalizing x s k with
  | zero => exact ⟨s, [], ranks, .pure s⟩
  | succ m ih =>
    rw [List.range'_succ, show k + (m + 1) + 1 = (k + 1) + m + 1 by omega]
    let moved := x.setIfInBounds k (entry x k + firstStep seed k)
    obtain ⟨s', xs, further, finds⟩ := ih (ranks.push orders (v := f.vertex moved) rfl)
    exact ⟨s', _, further, .value finds⟩

/- The simplex that a search begins with, once it is checked that every coordinate has a step. -/
def begun (f : Surface α) (seed : Seed α) : Eval α (Simplex α) := do
  Eval.expect (seed.knowledge.size ≤ seed.knowledge.gradient.steps.size)
  ofSeed f seed

theorem begunRanks (f : Surface α) (seed : Seed α) : ∃ s xs,
    s.Ranks f ⟨seed.knowledge.point.value, seed.knowledge.point.x⟩
      (seed.knowledge.point.x.size + 1) ∧ Finds f (begun f seed) s xs := by
  let start : Vertex α := ⟨seed.knowledge.point.value, seed.knowledge.point.x⟩
  have spread := spreadOutRanks orders seed (x := start.x) (startRanks orders f start) start.x.size
  rw [Nat.zero_add] at spread
  obtain ⟨s, xs, ranks, finds⟩ := spread
  rw [← List.range_eq_range'] at finds
  exact ⟨s, xs, ranks, .expect finds⟩

omit orders in
theorem settleOnce (f : Surface α) (s : Simplex α) (t : Trace α) :
    ((settle f s).run t).2.calls = t.calls + 1 := f.callsValue _ t

omit orders in
/- The parts of a search: its beginning, its rounds and the center that is asked for at the end. -/
theorem contractParts {seed : Seed α} {min : Minimum α}
    (run : (f.contract seed maxCalls wanted).run t = (min, u)) :
    (seed.knowledge.size = 0 ∧ min = .ofSeed seed f.errorDef ∧ u = t) ∨
      ∃ first v last w settled, (begun f seed).run t = (first, v) ∧
        (first.rounds f maxCalls wanted (maxCalls + 1)).run v = (last, w) ∧
        (settle f last).run w = (settled, u) ∧ min.value = settled.2.value := by
  rw [Surface.contract] at run
  split at run
  case isTrue empty =>
    cases run
    exact .inl ⟨empty, rfl, rfl⟩
  case isFalse =>
    obtain ⟨_, t', checked, run⟩ := Eval.runParts run
    obtain ⟨first, v, begins, run⟩ := Eval.runParts run
    obtain ⟨last, w, rounds, run⟩ := Eval.runParts run
    obtain ⟨⟨final, best⟩, w', settles, run⟩ := Eval.runParts run
    obtain ⟨calls, v', asked, run⟩ := Eval.runParts run
    cases checked
    cases asked
    cases run
    refine .inr ⟨first, v, last, w, _, begins, rounds, settles, ?_⟩
    split
    · rfl
    · split <;> rfl

theorem contractMost (f : Surface α) (seed : Seed α) (maxCalls : ℕ) (wanted : α) (t : Trace α) :
    ((f.contract seed maxCalls wanted).run t).2.calls ≤
      max ((begun f seed).run t).2.calls (maxCalls - 1) + 4 := by
  obtain ⟨s, xs, ranks, finds⟩ := begunRanks orders f seed
  have asked := finds.calls t
  have known := finds.answer t
  rcases contractParts (Prod.mk.eta (p := (f.contract seed maxCalls wanted).run t)).symm with
    ⟨_, _, same⟩ | ⟨first, v, last, w, settled, begins, rounds, settles, _⟩
  · rw [same]
    omega
  · rw [begins] at known ⊢
    cases known
    have most := roundsMost orders maxCalls wanted ranks v
    have once := settleOnce f last w
    rw [rounds] at most
    rw [settles] at once
    dsimp only at most once ⊢
    omega

/- The worst and the best vertex of a simplex through a whole search, and how many calls it takes. -/
theorem contractRanks (f : Surface α) (seed : Seed α) (maxCalls : ℕ) (wanted : α) (t : Trace α) :
    let start : Vertex α := ⟨seed.knowledge.point.value, seed.knowledge.point.x⟩
    let n := seed.knowledge.point.x.size
    let (s, u) := (begun f seed).run t
    (∀ head v, Comes f maxCalls wanted s u head v →
      (∀ h, Holds f head h → h.Ranks f start (n + 1)) ∧
      ∀ o w, (round f head).run v = (o, w) →
        ¬ head.bestVertex.value < o.left.bestVertex.value ∧ v.calls < w.calls ∧
          w.calls ≤ v.calls + 3) ∧
    (∃ last v o w, Comes f maxCalls wanted s u last v ∧ (round f last).run v = (o, w) ∧
      ¬ GoesOn maxCalls wanted o w ∧
      (s.rounds f maxCalls wanted (maxCalls + 1)).run u = (o.left, w)) ∧
    ((f.contract seed maxCalls wanted).run t).2.calls ≤ max u.calls (maxCalls - 1) + 4 := by
  obtain ⟨s, xs, ranks, finds⟩ := begunRanks orders f seed
  intro start n
  have known := finds.answer t
  have most := contractMost orders f seed maxCalls wanted t
  generalize run : (begun f seed).run t = r at known most
  obtain ⟨_, u⟩ := r
  cases known
  refine ⟨fun head v comes => ?_, ?_, most⟩
  · have here := (comes.follows orders ranks).ranks
    refine ⟨fun h holds => holds.ranks orders here, fun o w turned => ?_⟩
    obtain ⟨follows, spent, few⟩ := roundFollows orders here turned
    exact ⟨follows.lower, spent, few⟩
  · exact roundsLast orders maxCalls wanted ranks (Nat.succ_pos maxCalls) (by omega)

/- On a level surface the heights of all vertices are zero, and so is what the reach is divided by. -/
def level : Surface α := ⟨.plain fun _ => 0, 1, .numbered #[0] #[1] 1⟩

def levelSeed : Seed α where
  knowledge :=
    { point := .plain #[0] 0
      error := .usable (.ofDiagonal #[1]) 1
      gradient := .numerical #[1] #[1] #[1]
      edm := 0
      calls := 1 }
  space := .numbered #[0] #[1] 1

end

theorem contractRanksLevel : letI := Exact.dividing fun _ => 7
    Scalar.Orders ℝ ∧ ∃ s u, (begun level levelSeed).run {} = (s, u) ∧ u.calls = 1 ∧
      (∃ last v o w, Comes level 100 (0 : ℝ) s u last v ∧ last.Ranks level ⟨0, #[0]⟩ 2 ∧
        (round level last).run v = (o, w) ∧ ¬ GoesOn 100 0 o w) ∧
      ((level.contract levelSeed 100 (0 : ℝ)).run {}).2.calls ≤ 103 := by
  let := Exact.dividing fun _ => 7
  have orders : Scalar.Orders ℝ := dividingOrders fun _ => 7
  obtain ⟨ranked, ⟨last, v, o, w, comes, run, ends, _⟩, most⟩ :=
    contractRanks orders level levelSeed 100 0 {}
  refine ⟨orders, _, _, rfl, rfl, ⟨last, v, o, w, comes, ?_, run, ends⟩, most⟩
  exact (ranked last v comes).1 last .begins

end Simplex
end ParamFit
