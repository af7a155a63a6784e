import ParamFit.Proofs.Bowl
import ParamFit.Proofs.Ranking

/-! Which values a search with a simplex gives up. Where the stretched vertex is below the best one it is
taken, also where the reflected one is lower still; the reflected one is passed over then. Everything
else that a search asks for is not below the value it ends with: a parabola that reaches far has its
stretched vertex below the reflected one, so the farther vertices give up nothing. -/
namespace ParamFit
namespace Simplex

/- All that was asked for since `base` is not below `low`, but for what is lost. -/
def Covers (f : Surface ℝ) (base : Trace ℝ) (lost : Array ℝ → Prop) (low : ℝ) (t : Trace ℝ) : Prop :=
  ∃ asked, t.values = base.values ++ asked ∧ ∀ x ∈ asked, low ≤ f.objective.value x ∨ lost x

/- The stretched vertex is below the best one, and the reflected one is below both. -/
def PassesOver (f : Surface ℝ) (s : Simplex ℝ) : Prop :=
  (s.beyond f).value < s.bestVertex.value ∧ (s.opposite f).value < (s.beyond f).value

section
variable {f : Surface ℝ} {base t u : Trace ℝ} {lost : Array ℝ → Prop} {low next : ℝ}

theorem Covers.more (covers : Covers f base lost low t) (below : next ≤ low) {xs : List (Array ℝ)}
    (grown : u.values = t.values ++ (xs.map f.space.external).toArray)
    (each : ∀ x ∈ xs, next ≤ f.worth x ∨ lost (f.space.external x)) :
    Covers f base lost next u := by
  obtain ⟨asked, since, known⟩ := covers
  refine ⟨asked ++ (xs.map f.space.external).toArray, ?_, fun x among => ?_⟩
  · rw [grown, since, Array.append_assoc]
  · rcases Array.mem_append.mp among with earlier | new
    · exact (known x earlier).imp_left below.trans
    · obtain ⟨y, given, rfl⟩ := List.mem_map.mp (List.mem_toArray.mp new)
      exact each y given

/-! ### Trial points -/

/- With `a` the height of the reflected vertex above the worst one and `b` that of the stretched one, the
parabola reaches far only for `3 a < 2 b`, and then not above `5 a / 2`. -/
theorem factorNear {a b : ℝ} (below : a ≤ 0) (higher : a < b) : factor (a * 3.0) (b * 2.0) < 4.0 := by
  have whole : factor (a * 3.0) (b * 2.0) = (9 / 2 * a - 2 * b) / (3 * a - 2 * b) := by
    have top : 0.5 * (3.0 * (a * 3.0) - 2.0 * (b * 2.0)) = 9 / 2 * a - 2 * b := by
      norm_num
      ring
    have bottom : a * 3.0 - b * 2.0 = 3 * a - 2 * b := by
      norm_num
      ring
    rw [← top, ← bottom]
    rfl
  rw [whole, Exact.lt, Exact.scientific]
  rcases lt_trichotomy (3 * a - 2 * b) 0 with negative | level | positive
  · rw [div_lt_iff_of_neg negative]
    linarith
  · rw [level, div_zero]
    norm_num
  · linarith

variable {start : Vertex ℝ} {n : ℕ} {s : Simplex ℝ} (ranks : s.Ranks f start n)
include ranks

theorem exchangeTakes {x : Array ℝ} (lower : f.worth x ≤ s.worstVertex.value) :
    (s.exchange (f.vertex x)).bestVertex.value ≤ f.worth x := by
  have kept := (ranks.exchangeLowest exactOrders (v := f.vertex x) (not_lt.mpr lower)).1
  have here : (s.exchange (f.vertex x)).valueAt s.worst = f.worth x := by
    have inside : s.worst < s.vertices.size := ranks.size.symm ▸ ranks.worst
    exact (valueSet s _ _ _ _ inside).trans (if_pos rfl)
  exact here ▸ not_lt.mp (kept s.worst ranks.worst)

theorem bestWorst : s.bestVertex.value ≤ s.worstVertex.value := not_lt.mp ranks.bestBelow

theorem Pulls.takes {c : Array ℝ} {o : Outcome ℝ} (pulls : s.Pulls f c o) :
    o.left.bestVertex.value ≤ s.bestVertex.value ∧
      o.left.bestVertex.value ≤ (s.inward f c).value := by
  refine ⟨not_lt.mp (pulls.follows exactOrders ranks).lower, ?_⟩
  cases pulls with
  | given higher => exact (bestWorst ranks).trans (le_of_lt higher)
  | taken lower => exact exchangeTakes ranks (not_lt.mp lower)

theorem farLower (far : s.Far f) : (s.beyond f).value ≤ (s.opposite f).value := by
  have good : (s.opposite f).value ≤ s.bestVertex.value := not_lt.mp far.1
  by_contra higher
  refine far.2 (factorNear (sub_nonpos.mpr (good.trans (bestWorst ranks))) ?_)
  exact sub_lt_sub_right (not_le.mp higher) _

/- The better one of the two vertices takes the place of the worst; the other one is not below it, unless
it is passed over. -/
theorem betterCovers (good : ¬ s.Poor f) :
    (s.exchange (s.better f)).bestVertex.value ≤ (s.beyond f).value ∧
      ((s.exchange (s.better f)).bestVertex.value ≤ (s.opposite f).value ∨ s.PassesOver f) := by
  have low : (s.opposite f).value ≤ s.worstVertex.value := (not_lt.mp good).trans (bestWorst ranks)
  have below := not_lt.mp (exchangeBetter exactOrders ranks good).lower
  rw [better] at below ⊢
  split at below
  case isTrue less =>
    have taken := exchangeTakes ranks ((le_of_lt less).trans (bestWorst ranks))
    rw [if_pos less]
    exact ⟨taken, (le_or_gt _ _).imp taken.trans fun lower => ⟨less, lower⟩⟩
  case isFalse more =>
    rw [if_neg more]
    exact ⟨below.trans (not_lt.mp more), .inl (exchangeTakes ranks low)⟩

/- No path of a round gives up a vertex below the best one, but for a reflected one that is passed
over. -/
theorem Turn.covers {o : Outcome ℝ} {xs : List (Array ℝ)} (turn : s.Turn f o xs) :
    ∀ x ∈ xs, o.left.bestVertex.value ≤ f.worth x ∨ s.PassesOver f ∧ x = (s.opposite f).x := by
  have below : o.left.bestVertex.value ≤ s.bestVertex.value :=
    not_lt.mp (turn.follows exactOrders ranks).lower
  intro x among
  cases turn with
  | reflects _ low =>
    cases List.mem_singleton.mp among
    exact .inl (exchangeTakes ranks (le_of_lt low))
  | reflectsPulls _ low _ pulls =>
    have first := exchangeOpposite exactOrders ranks low
    obtain ⟨kept, taken⟩ := pulls.takes first.ranks
    rcases List.mem_pair.mp among with rfl | rfl
    · exact .inl (kept.trans (exchangeTakes ranks (le_of_lt low)))
    · exact .inl taken
  | pulls poor _ pulls =>
    obtain ⟨kept, taken⟩ := pulls.takes ranks
    rcases List.mem_pair.mp among with rfl | rfl
    · exact .inl (kept.trans (le_of_lt poor))
    · exact .inl taken
  | stretches good =>
    obtain ⟨stretched, reflected⟩ := betterCovers ranks good
    rcases List.mem_pair.mp among with rfl | rfl
    · exact reflected.imp_right fun passed => ⟨passed, rfl⟩
    · exact .inl stretched
  | extrapolates far least =>
    have taken := exchangeTakes ranks ((le_of_lt least.1).trans (bestWorst ranks))
    have stretched := taken.trans (le_of_lt least.2)
    rcases List.mem_cons.mp among with rfl | among
    · exact .inl (stretched.trans (farLower ranks far))
    · rcases List.mem_pair.mp among with rfl | rfl
      · exact .inl stretched
      · exact .inl taken
  | stretchesFar far more less =>
    have taken := exchangeTakes ranks ((le_of_lt less).trans (bestWorst ranks))
    rcases List.mem_cons.mp among with rfl | among
    · exact .inl (taken.trans (farLower ranks far))
    · rcases List.mem_pair.mp among with rfl | rfl
      · exact .inl taken
      · refine .inl (taken.trans (not_lt.mp fun lower => more ⟨lower.trans less, lower⟩))
  | reflectsFar far more higher =>
    obtain ⟨stretched, reflected⟩ := betterCovers ranks far.1
    rcases List.mem_cons.mp among with rfl | among
    · exact reflected.imp_right fun passed => ⟨passed, rfl⟩
    · rcases List.mem_pair.mp among with rfl | rfl
      · exact .inl stretched
      · exact .inl (below.trans (le_of_lt higher))
  | pullsFar far higher => exact absurd higher (ranks.belowWorst exactOrders far.1)
  | keeps far least more =>
    have stretched := not_lt.mp more
    rcases List.mem_cons.mp among with rfl | among
    · exact .inl (stretched.trans (farLower ranks far))
    · rcases List.mem_pair.mp among with rfl | rfl
      · exact .inl stretched
      · refine .inl (not_lt.mp fun lower => least ⟨lower, lower.trans_le stretched⟩)

/- The reflected vertex is passed over on one path only. -/
theorem Turn.passes {o : Outcome ℝ} {xs : List (Array ℝ)} (turn : s.Turn f o xs)
    (passed : s.PassesOver f) : o = .moved (s.exchange (s.beyond f)) := by
  have good : ¬ s.Poor f := fun poor => lt_asymm poor (passed.2.trans passed.1)
  have near (far : s.Far f) : False := absurd passed.2 (not_lt.mpr (farLower ranks far))
  cases turn with
  | reflects poor => exact absurd poor good
  | reflectsPulls poor => exact absurd poor good
  | pulls poor => exact absurd poor good
  | stretches => rw [better, if_pos passed.1]
  | extrapolates far => exact (near far).elim
  | stretchesFar => rfl
  | reflectsFar far => exact (near far).elim
  | pullsFar far => exact (near far).elim
  | keeps far => exact (near far).elim

theorem roundPasses (passed : s.PassesOver f) (t : Trace ℝ) :
    ((round f s).run t).1 = .moved (s.exchange (s.beyond f)) := by
  obtain ⟨o, xs, turn, finds⟩ := roundFinds f s
  rw [finds.answer, turn.passes ranks passed]

/-! ### Searches -/

theorem roundCovers {o : Outcome ℝ} (run : (round f s).run t = (o, u))
    (covers : Covers f base lost s.bestVertex.value t)
    (loses : s.PassesOver f → lost (f.space.external (s.opposite f).x)) :
    Covers f base lost o.left.bestVertex.value u := by
  obtain ⟨found, xs, turn, finds⟩ := roundFinds f s
  have same := finds.answer t
  have grown := finds.asked t
  rw [run] at same grown
  dsimp only at same grown
  subst same
  have below := not_lt.mp (turn.follows exactOrders ranks).lower
  refine covers.more below grown fun x among => ?_
  refine (turn.covers ranks x among).imp_right ?_
  rintro ⟨passed, rfl⟩
  exact loses passed

theorem Comes.covers {maxCalls : ℕ} {wanted : ℝ} {last : Simplex ℝ} {v : Trace ℝ}
    (comes : Comes f maxCalls wanted s t last v) (covers : Covers f base lost s.bestVertex.value t)
    (loses : ∀ head w, Comes f maxCalls wanted s t head w → head.PassesOver f →
      lost (f.space.external (head.opposite f).x)) :
    Covers f base lost last.bestVertex.value v := by
  induction comes with
  | here => exact covers
  | @later s t next u last v moved goesOn _ ih =>
    have first := roundCovers ranks moved covers (loses _ _ .here)
    refine ih (roundFollows exactOrders ranks moved).1.ranks first fun head w comes => ?_
    exact loses head w (.later moved goesOn comes)

theorem roundsCover {maxCalls : ℕ} {wanted : ℝ} {last : Simplex ℝ} {v : Trace ℝ}
    (run : (s.rounds f maxCalls wanted (maxCalls + 1)).run t = (last, v))
    (covers : Covers f base lost s.bestVertex.value t)
    (loses : ∀ head w, Comes f maxCalls wanted s t head w → head.PassesOver f →
      lost (f.space.external (head.opposite f).x)) :
    last.bestVertex.value ≤ s.bestVertex.value ∧ Covers f base lost last.bestVertex.value v := by
  obtain ⟨head, w, o, w', comes, final, _, same⟩ := roundsLast exactOrders maxCalls wanted
    ranks (t := t) (Nat.succ_pos maxCalls) (by omega)
  rw [run] at same
  cases same
  have before := comes.follows exactOrders ranks
  have after := before.trans exactOrders (roundFollows exactOrders before.ranks final).1
  have covered := comes.covers ranks covers loses
  exact ⟨not_lt.mp after.lower, roundCovers before.ranks final covered (loses head w comes)⟩

omit ranks in
theorem valueCovers {x : Array ℝ} (covers : Covers f base lost low t) (below : next ≤ low)
    (lower : next ≤ f.worth x) : Covers f base lost next ((f.value x).run t).2 := by
  have grown : ((f.value x).run t).2.values = t.values ++ ([x].map f.space.external).toArray :=
    Array.push_eq_append
  refine covers.more below grown fun y among => .inl ?_
  rwa [List.mem_singleton.mp among]

omit ranks in
theorem spreadOutCovers (seed : Seed ℝ) {x : Array ℝ} {k : ℕ} (ranks : s.Ranks f start (k + 1)) (m : ℕ)
    (covers : Covers f base lost s.bestVertex.value t) :
    let r := (spreadOut f seed x s (List.range' k m)).run t
    r.1.bestVertex.value ≤ s.bestVertex.value ∧ Covers f base lost r.1.bestVertex.value r.2 := by
  induction m generalizing x s k t with
  | zero => exact ⟨le_refl _, covers⟩
  | succ m ih =>
    rw [List.range'_succ]
    let moved := x.setIfInBounds k (entry x k + firstStep seed k)
    have further := ranks.push exactOrders (v := f.vertex moved) rfl
    have values (j w b : ℕ) : (Simplex.mk (s.vertices.push (f.vertex moved)) w b).valueAt j =
        if j = k + 1 then f.worth moved else s.valueAt j := ranks.size ▸ valuePush s j w b _
    have below := further.lowest s.best (Nat.lt_succ_of_lt ranks.best)
    have taken := further.lowest (k + 1) (Nat.lt_succ_self _)
    rw [values, if_neg ranks.best.ne, not_lt] at below
    rw [values, if_pos rfl, not_lt] at taken
    obtain ⟨lower, rest⟩ := ih further (valueCovers covers below taken)
    exact ⟨lower.trans below, rest⟩

omit ranks in
theorem begunCovers (f : Surface ℝ) (seed : Seed ℝ) (lost : Array ℝ → Prop) (t : Trace ℝ) :
    let r := (begun f seed).run t
    r.1.bestVertex.value ≤ seed.knowledge.value ∧ Covers f t lost r.1.bestVertex.value r.2 := by
  have ranks := startRanks exactOrders f ⟨seed.knowledge.point.value, seed.knowledge.point.x⟩
  let checked := ((Eval.expect (seed.knowledge.size ≤ seed.knowledge.gradient.steps.size)).run t).2
  have nothing : Covers f t lost seed.knowledge.value checked :=
    ⟨#[], Array.append_empty.symm, nofun⟩
  have spread := spreadOutCovers seed (x := seed.knowledge.point.x) ranks
    seed.knowledge.point.x.size nothing
  rw [← List.range_eq_range'] at spread
  exact spread

omit ranks in
theorem settleCovers (covers : Covers f base lost s.bestVertex.value t) :
    let r := (settle f s).run t
    r.1.2.value ≤ s.bestVertex.value ∧ Covers f base lost r.1.2.value r.2 := by
  have found : ((settle f s).run t).1 = if f.worth s.center < s.bestVertex.value then
      (s.exchange (f.vertex s.center), f.vertex s.center) else (s, s.bestVertex) := rfl
  dsimp only
  rw [found]
  split
  case isTrue lower => exact ⟨le_of_lt lower, valueCovers covers (le_of_lt lower) (le_refl _)⟩
  case isFalse higher => exact ⟨le_refl _, valueCovers covers (le_refl _) (not_lt.mp higher)⟩

end

/- What a search with a simplex passes over. -/
def Loses (f : Surface ℝ) (seed : Seed ℝ) (maxCalls : ℕ) (wanted : ℝ) (t : Trace ℝ) (x : Array ℝ) :
    Prop :=
  let (s, u) := (begun f seed).run t
  ∃ head v, Comes f maxCalls wanted s u head v ∧ head.PassesOver f ∧
    ((round f head).run v).1 = .moved (head.exchange (head.beyond f)) ∧
    x = f.space.external (head.opposite f).x

/- The value that a search with a simplex ends with is not above that of the seed, nor above any value
that was asked for but was not passed over. -/
theorem contractLowest (f : Surface ℝ) (seed : Seed ℝ) (maxCalls : ℕ) (wanted : ℝ) (t : Trace ℝ) :
    let (min, u) := (f.contract seed maxCalls wanted).run t
    min.value ≤ seed.knowledge.value ∧ Covers f t (Loses f seed maxCalls wanted t) min.value u := by
  generalize run : (f.contract seed maxCalls wanted).run t = r
  obtain ⟨min, u⟩ := r
  rcases contractParts run with ⟨_, rfl, rfl⟩ | ⟨first, v, last, w, settled, begins, rounds, settles, same⟩
  · exact ⟨le_refl _, #[], Array.append_empty.symm, nofun⟩
  obtain ⟨s, xs, ranks, finds⟩ := begunRanks exactOrders f seed
  have known := finds.answer t
  have started := begunCovers f seed (Loses f seed maxCalls wanted t) t
  rw [begins] at known started
  cases known
  obtain ⟨below, covers⟩ := started
  obtain ⟨lower, later⟩ := roundsCover ranks rounds covers fun head w comes passed => by
    have here := (comes.follows exactOrders ranks).ranks
    rw [Loses, begins]
    exact ⟨head, w, comes, passed, roundPasses here passed w, rfl⟩
  have final := settleCovers later
  rw [settles] at final
  dsimp only at final
  rw [← same] at final
  exact ⟨final.1.trans (lower.trans below), final.2⟩

/- A parabola whose lowest point is a quarter beyond the first reflected vertex. -/
noncomputable def corner : Surface ℝ :=
  ⟨.plain fun x => (entry x 0 - 2.25) ^ 2, 1, .numbered #[0] #[1] 1⟩

noncomputable def cornerSeed : Seed ℝ where
  knowledge :=
    { point := .plain #[0] 5.0625
      error := .usable (.ofDiagonal #[1]) 1
      gradient := .numerical #[1] #[1] #[0.1]
      edm := 0
      calls := 1 }
  space := .numbered #[0] #[1] 1

theorem cornerAsks (x : ℝ) (t : Trace ℝ) : (corner.value #[x]).run t =
    ((x - 2.25) ^ 2, { t with values := t.values.push #[x] }) := by
  have plain : corner.space.Plain 1 := Space.numberedPlain _ _ _
  have same : corner.space.external #[x] = #[x] := plain.external rfl
  have run : (corner.value #[x]).run t =
    (corner.objective.value (corner.space.external #[x]),
      ⟨t.values.push (corner.space.external #[x]), t.slopes,
        (t.sound && decide (1 ≤ corner.space.dimension)) &&
          decide (0 ≤ (corner.space.external #[x]).size)⟩) := rfl
  rw [run, same, plain.dimension]
  simp [corner, Objective.plain, entry]

noncomputable def cornerBefore : Simplex ℝ := ⟨#[⟨5.0625, #[0]⟩, ⟨1.5625, #[1]⟩], 0, 1⟩
noncomputable def cornerAfter : Simplex ℝ := ⟨#[⟨0.5625, #[3.0]⟩, ⟨1.5625, #[1]⟩], 1, 0⟩

theorem cornerBegun : (begun corner cornerSeed).run {} = (cornerBefore, { values := #[#[1]] }) := by
  have step : firstStep cornerSeed 0 = 1 := by
    have known : entry cornerSeed.knowledge.gradient.steps 0 = 0.1 := rfl
    have place : entry cornerSeed.knowledge.point.x 0 = 0 := rfl
    have precision : cornerSeed.space.precision.eps2 = 2⁻¹ ^ 24 := machineEps2
    rw [firstStep, known, place, precision]
    simp only [Exact.mul, Exact.scientific, Exact.add, Exact.abs, Exact.lt]
    rw [if_neg (by norm_num)]
    norm_num
  let moved := cornerSeed.knowledge.point.x.setIfInBounds 0
    (entry cornerSeed.knowledge.point.x 0 + firstStep cornerSeed 0)
  have same : moved = #[1] := by
    dsimp only [moved]
    rw [step]
    change #[(0 : ℝ) + 1] = #[1]
    rw [zero_add]
  let grown (r : ℝ × Trace ℝ) : Simplex ℝ × Trace ℝ :=
    (⟨#[⟨5.0625, #[0]⟩, ⟨r.1, moved⟩], if r.1 > 5.0625 then 1 else 0,
      if r.1 < 5.0625 then 1 else 0⟩, r.2)
  have run : (begun corner cornerSeed).run {} =
      grown ((corner.value moved).run {}) := rfl
  rw [run, same, cornerAsks]
  dsimp only [grown]
  rw [same, if_neg (by norm_num), if_pos (by norm_num)]
  norm_num [cornerBefore]

theorem cornerRound (t : Trace ℝ) : (round corner cornerBefore).run t =
    (.moved cornerAfter, { t with values := (t.values.push #[2.0]).push #[3.0] }) := by
  have center : cornerBefore.center = #[1] := by
    have one : Scalar.ofNat (α := ℝ) 1 = 1 := by norm_num [Scalar.ofNat]
    simp [Simplex.center, cornerBefore, Vector.add, Vector.scale, one]
  have reflected : cornerBefore.reflected #[1] = #[2.0] := by
    simp [Simplex.reflected, cornerBefore, Vector.sub, Vector.scale, worstVertex, vertex]
  have stretched : stretched #[(1 : ℝ)] #[2.0] = #[3.0] := by
    simp [Simplex.stretched, blend, Vector.add, Vector.scale]
    norm_num
  have taken : cornerBefore.exchange ⟨0.5625, #[3.0]⟩ = cornerAfter := by
    have low : (0.5625 : ℝ) < cornerBefore.valueAt cornerBefore.best := by
      norm_num [cornerBefore, valueAt, vertex]
    have worst : findWorst #[(⟨0.5625, #[3.0]⟩ : Vertex ℝ), ⟨1.5625, #[1]⟩] = 1 := by
      norm_num [findWorst, List.range_succ]
    have vertices : cornerBefore.vertices.setIfInBounds cornerBefore.worst ⟨0.5625, #[3.0]⟩ =
        #[⟨0.5625, #[3.0]⟩, ⟨1.5625, #[1]⟩] := rfl
    rw [exchange]
    dsimp only
    rw [vertices, worst, if_neg (by decide : ¬ cornerBefore.best = cornerBefore.worst), if_pos low]
    rfl
  have reach : factor (cornerBefore.heights 0.0625 0.5625).1 (cornerBefore.heights 0.0625 0.5625).2 < 4.0 := by
    norm_num [factor, heights, cornerBefore, worstVertex, vertex]
  have best : cornerBefore.bestVertex.value = 1.5625 := rfl
  have good : ¬ ((0.0625 : ℝ) > cornerBefore.bestVertex.value) := by
    rw [best]
    norm_num
  have less : (0.5625 : ℝ) < cornerBefore.bestVertex.value := by
    rw [best]
    norm_num
  have values : ((2.0 : ℝ) - 2.25) ^ 2 = 0.0625 ∧ ((3.0 : ℝ) - 2.25) ^ 2 = 0.5625 := by norm_num
  rw [round, center, reflected, Eval.runBind, cornerAsks, values.1]
  dsimp only
  rw [if_neg good, stretched, Eval.runBind, cornerAsks, values.2]
  dsimp only
  rw [afterGood]
  dsimp only
  rw [if_pos reach, if_pos less, taken]
  rfl

theorem cornerSettle (t : Trace ℝ) : (settle corner cornerAfter).run t =
    ((cornerAfter, cornerAfter.bestVertex), { t with values := t.values.push #[3.0] }) := by
  have center : cornerAfter.center = #[3.0] := by
    have one : Scalar.ofNat (α := ℝ) 1 = 1 := by norm_num [Scalar.ofNat]
    simp [Simplex.center, cornerAfter, Vector.add, Vector.scale, one]
  have level : ¬ ((3.0 : ℝ) - 2.25) ^ 2 < cornerAfter.bestVertex.value := by
    norm_num [cornerAfter, bestVertex, vertex]
  rw [settle, center, Eval.runBind, cornerAsks]
  dsimp only
  rw [if_neg level]
  rfl

theorem cornerRounds (t : Trace ℝ) : (cornerBefore.rounds corner 100 1 101).run t =
    (cornerAfter, { t with values := (t.values.push #[2.0]).push #[3.0] }) := by
  have close : ¬ cornerAfter.spread > 1 := by
    norm_num [spread, cornerAfter, worstVertex, bestVertex, vertex]
  rw [rounds, Eval.runBind, cornerRound]
  simp only [Eval.runBind, Eval.runIte]
  exact if_neg fun goesOn => close goesOn.1

/- The vertex that is passed over can be lower than all that the search ends with. -/
theorem reflectedLost : ¬ ∀ (f : Surface ℝ) (seed : Seed ℝ) (maxCalls : ℕ) (wanted : ℝ)
    (min : Minimum ℝ) (u : Trace ℝ), (f.contract seed maxCalls wanted).run? {} = some (min, u) →
      ∀ x ∈ u.values, min.value ≤ f.objective.value x := by
  intro kept
  generalize run : (corner.contract cornerSeed 100 1).run {} = r
  obtain ⟨min, u⟩ := r
  rcases contractParts run with ⟨empty, _⟩ | ⟨first, v, last, w, settled, begins, rounds, settles, same⟩
  · exact absurd empty (by decide)
  rw [cornerBegun] at begins
  cases begins
  rw [cornerRounds] at rounds
  cases rounds
  rw [cornerSettle] at settles
  cases settles
  have lower := kept corner cornerSeed 100 1 min _ (Eval.runAnswers.mpr ⟨run, rfl⟩) #[2.0] (by simp)
  rw [same] at lower
  norm_num [cornerAfter, corner, bestVertex, vertex, Objective.plain, entry] at lower

end Simplex
end ParamFit
