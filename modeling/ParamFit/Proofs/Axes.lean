import ParamFit.Proofs.Folding
import ParamFit.Proofs.Overstep
import ParamFit.Proofs.Reaching
import ParamFit.Proofs.Sweeping
import ParamFit.Proofs.Tilt

/-! What a scan along all axes ends with. It asks external values, and keeps the best point together with
what it is worth. Its result holds internal coordinates: those of the parameters that moved are made from
the external values. Where the fold is flat these are not found again, so the result stands beside the
point whose value it reports. -/
namespace ParamFit

/- The parameters that are set from what a search knows have the external values of its point. -/
theorem Knowledge.declaredKnown {k : Knowledge ℝ} (up : ℝ) {space : Space ℝ}
    (consistent : space.Consistent) (full : k.point.x.size = space.dimension) :
    (k.setParameters up space).declaredValues = space.external k.point.x := by
  have moved := k.setParametersMoved up space
  refine Array.ext_getElem? fun i => ?_
  by_cases free : i ∈ space.free
  · obtain ⟨c, placed⟩ := List.getElem?_of_mem free
    have inside : i < (k.setParameters up space).parameters.size :=
      moved.size.symm ▸ consistent.within free
    rw [Space.externalAt consistent full placed, Space.declaredValues, Array.getElem?_map,
      Space.declaredHere inside, Option.map_some, k.setParametersValue up consistent placed,
      Space.toExternal, Space.limits, Space.place, List.getD_eq_getElem?_getD, placed, Option.getD_some]
  · rw [Space.externalKept free, consistent.cached, Space.declaredValues, Array.getElem?_map,
      Array.getElem?_map, moved.kept i free]

namespace Scan
variable {f : Surface ℝ} {s m n : Scan ℝ} {a b : List (Array ℝ)} {r : Sweep ℝ} {i j : ℕ} {t u : Trace ℝ}
  {reply : Reply ℝ}

/- A scan that was led on by what it asked. -/
structure Leads (f : Surface ℝ) (s next : Scan ℝ) (asked : List (Array ℝ)) : Prop where
  faithful : next.best = f.objective.value next.space.declaredValues
  descends : next.best ≤ s.best
  least : ∀ x ∈ asked, next.best ≤ f.objective.value x
  found : next.space.declaredValues ∈ s.space.declaredValues :: asked
  size : next.space.parameters.size = s.space.parameters.size

theorem Leads.still (faithful : s.best = f.objective.value s.space.declaredValues) : Leads f s s [] :=
  ⟨faithful, le_rfl, nofun, .head _, rfl⟩

theorem Leads.trans (first : Leads f s m a) (second : Leads f m n b) : Leads f s n (a ++ b) where
  faithful := second.faithful
  descends := second.descends.trans first.descends
  least x among := (List.mem_append.mp among).elim
    (fun earlier => second.descends.trans (first.least x earlier)) (second.least x)
  found := by
    rcases List.mem_cons.mp second.found with same | later
    · rw [same]
      exact List.mem_append_left b first.found
    · exact .tail _ (List.mem_append_right a later)
  size := second.size.trans first.size

theorem Answers.leads (faithful : s.best = f.objective.value s.space.declaredValues)
    (answers : Answers f s r t reply u) :
    ∃ asked, u.values = t.values ++ asked.toArray ∧ Leads f s (s.after reply) asked := by
  have begun : s.Booked f [] := ⟨faithful, nofun⟩
  obtain ⟨booked, descends⟩ := answers.books begun
  cases answers with
  | refused e => exact ⟨[], by simp, .still faithful⟩
  | alone => exact ⟨[], by simp, .still faithful⟩
  | @served i rest next u here visited =>
    refine ⟨_, visited.asked, booked.faithful, descends, fun x among => ?_, ?_, ?_⟩
    · obtain ⟨y, sample, rfl⟩ := List.mem_map.mp among
      rw [← visited.faithful y sample]
      exact visited.least y sample
    · rcases visited.moves with same | ⟨y, sample, -, same⟩
      · rw [after, same]
        exact .head _
      · rw [after, same, Space.declaredSet]
        exact .tail _ (List.mem_map.mpr ⟨y, sample, rfl⟩)
    · rcases visited.moves with same | ⟨y, -, -, same⟩
      · rw [after, same]
      · rw [after, same]
        exact Array.size_modify ..

/- Where another scan comes of a sweep, its parameter has another value, and that one is lower. -/
theorem Answers.turns (faithful : s.best = f.objective.value s.space.declaredValues)
    (answers : Answers f s r t reply u) (here : s.space.indexOf r.parameter = .ok i)
    (inside : i < s.space.parameters.size) :
    s.after reply = s ∨ (s.after reply).best < s.best ∧
      ((s.after reply).space.parameterAt i).value ≠ (s.space.parameterAt i).value ∧
      ∀ j, i ≠ j → (s.after reply).space.parameterAt j = s.space.parameterAt j := by
  cases answers with
  | refused e => exact .inl rfl
  | alone => exact .inl rfl
  | served there visited =>
    obtain rfl := Except.ok.inj (here.symm.trans there)
    rcases visited.moves with same | ⟨y, sample, lower, same⟩
    · exact .inl same
    · rw [after, same]
      refine .inr ⟨lower, fun kept => lower.ne ?_, fun j other => Space.parameterOther other _⟩
      have value : y.x = (s.space.parameterAt i).value :=
        (congrArg Parameter.value (Space.parameterHere inside _)).symm.trans kept
      rw [visited.faithful y sample, faithful, value, Space.declaredStill]

theorem gridFirst {low high : ℝ} {steps : ℕ} (some : 0 < steps) : low ∈ grid low high steps := by
  refine List.mem_map.mpr ⟨0, List.mem_range.mpr some, ?_⟩
  simp [Exact.ofNat]

/- Where there is something to scan, the lower end is asked. -/
theorem Answers.lowest (answers : Answers f s r t reply u)
    (here : s.space.indexOf r.parameter = .ok i) (ordered : r.low ≤ r.high) (several : 2 ≤ r.steps)
    (wide : let cut := interval (s.space.parameterAt i) r.low r.high; cut.1 ≤ cut.2) :
    (s.after reply).best ≤ f.objective.value
      (s.space.declaredValues.setIfInBounds i (interval (s.space.parameterAt i) r.low r.high).1) := by
  cases answers with
  | refused e without => exact absurd wide (without i here).not_ge
  | alone there nothing =>
    rcases nothing with reversed | few
    · exact absurd ordered reversed.not_ge
    · exact absurd several few.not_ge
  | served there visited places =>
    obtain rfl := Except.ok.inj (here.symm.trans there)
    have some : 0 < min r.steps maxSteps := lt_min (by omega) (by decide)
    obtain ⟨y, among, same⟩ := List.mem_map.mp (places ▸ gridFirst some)
    rw [← same, ← visited.faithful y among]
    exact visited.least y among

/- What became of a coordinate and its parameter: both are as they were, or the coordinate was made from
another value. -/
def Carries (space : Space ℝ) (s next : Scan ℝ) (x y : Array ℝ) (i c : ℕ) : Prop :=
  let before := (s.space.parameterAt i).value
  let now := (next.space.parameterAt i).value
  (now = before ∧ entry y c = entry x c) ∨ (now ≠ before ∧ entry y c = space.toInternal i now)

/- A scan of some axes, and the coordinates that it was carried into. -/
structure Walks (f : Surface ℝ) (space : Space ℝ) (axes : List (ℕ × ℕ)) (s next : Scan ℝ)
    (x y : Array ℝ) (asked : List (Array ℝ)) : Prop where
  leads : Leads f s next asked
  others : ∀ j, j ∉ axes.map Prod.fst → next.space.parameterAt j = s.space.parameterAt j
  kept : ∀ c, c ∉ axes.map Prod.snd → entry y c = entry x c
  width : y.size = x.size
  carries : ∀ p ∈ axes, Carries space s next x y p.1 p.2

theorem Walks.cons {space : Space ℝ} {axes : List (ℕ × ℕ)} {x y z : Array ℝ} {c : ℕ}
    (first : Leads f s m a) (apart : ∀ j, i ≠ j → m.space.parameterAt j = s.space.parameterAt j)
    (same : ∀ d, c ≠ d → entry y d = entry x d) (width : y.size = x.size)
    (carries : Carries space s m x y i c) (rest : Walks f space axes m n y z b)
    (place : i ∉ axes.map Prod.fst) (coordinate : c ∉ axes.map Prod.snd) :
    Walks f space ((i, c) :: axes) s n x z (a ++ b) where
  leads := first.trans rest.leads
  others j outside := by
    obtain ⟨here, later⟩ := not_or.mp (mt List.mem_cons.mpr outside)
    exact (rest.others j later).trans (apart j (Ne.symm here))
  kept d outside := by
    obtain ⟨here, later⟩ := not_or.mp (mt List.mem_cons.mpr outside)
    exact (rest.kept d later).trans (same d (Ne.symm here))
  width := rest.width.trans width
  carries p among := by
    rcases List.mem_cons.mp among with rfl | later
    · rw [Carries, rest.others i place, rest.kept c coordinate]
      exact carries
    · have other : i ≠ p.1 := fun same => place (same ▸ List.mem_map_of_mem later)
      have apart' : c ≠ p.2 := fun same => coordinate (same ▸ List.mem_map_of_mem later)
      have after := rest.carries p later
      rwa [Carries, apart p.1 other, same p.2 apart'] at after

def axisSweep {α : Type} [Scalar α] (i : ℕ) : Sweep α := ⟨.index i, defaultSteps, 0, 0⟩

/- One axis is swept, and the coordinate is made anew if that leads lower; then the others follow. -/
theorem scanEachParts {space : Space ℝ} {axes : List (ℕ × ℕ)} {x y : Array ℝ} {c : ℕ} {best least : ℝ}
    (run : (f.scanEach space s x best ((i, c) :: axes)).run t = ((y, least), u)) :
    ∃ reply w, (s.sweep f (axisSweep i)).run t = (reply, w) ∧
      (if (s.after reply).best < best then
        f.scanEach space (s.after reply)
          (x.setIfInBounds c (space.toInternal i ((s.after reply).space.parameterAt i).value))
          (s.after reply).best axes
        else f.scanEach space (s.after reply) x best axes).run w = ((y, least), u) := by
  obtain ⟨reply, w, scanned, further⟩ := Eval.runParts run
  refine ⟨reply, w, scanned, ?_⟩
  cases reply <;> exact further

/- One axis ends no higher than its sweep. -/
theorem scanEachAlone {space : Space ℝ} {x y : Array ℝ} {c : ℕ} {best least : ℝ}
    (run : (f.scanEach space s x best [(i, c)]).run t = ((y, least), u)) :
    least ≤ (s.after ((s.sweep f (axisSweep i)).run t).1).best := by
  obtain ⟨reply, w, scanned, further⟩ := scanEachParts run
  rw [scanned]
  split at further
  case isTrue lower =>
    cases further
    exact le_rfl
  case isFalse higher =>
    cases further
    exact not_lt.mp higher

theorem scanEachWalks {space : Space ℝ} {axes : List (ℕ × ℕ)} {x y : Array ℝ} {best : ℝ}
    (places : (axes.map Prod.fst).Nodup) (coordinates : (axes.map Prod.snd).Nodup)
    (inside : ∀ p ∈ axes, p.1 < s.space.parameters.size ∧ p.2 < x.size)
    (faithful : s.best = f.objective.value s.space.declaredValues)
    (run : (f.scanEach space s x s.best axes).run t = ((y, best), u)) :
    ∃ next asked, best = next.best ∧ u.values = t.values ++ asked.toArray ∧
      Walks f space axes s next x y asked := by
  induction axes generalizing s x t with
  | nil =>
    cases run
    exact ⟨s, [], rfl, by simp, .still faithful, fun _ _ => rfl, fun _ _ => rfl, rfl, nofun⟩
  | cons p axes ih =>
    obtain ⟨i, c⟩ := p
    obtain ⟨reply, w, scanned, further⟩ := scanEachParts run
    obtain ⟨place, places⟩ := List.nodup_cons.mp places
    obtain ⟨coordinate, coordinates⟩ := List.nodup_cons.mp coordinates
    obtain ⟨⟨declared, given⟩, inside⟩ := List.forall_mem_cons.mp inside
    have answers : Answers f s (axisSweep i) t reply w := by
      have answers := sweepAnswers f s (axisSweep i) t
      rwa [scanned] at answers
    obtain ⟨asked, first, leads⟩ := answers.leads faithful
    rcases answers.turns faithful (if_pos declared) declared with still | ⟨lower, other, apart⟩
    · rw [still] at further leads
      rw [if_neg (lt_irrefl _)] at further
      obtain ⟨next, later, ends, last, walks⟩ := ih places coordinates inside faithful further
      refine ⟨next, asked ++ later, ends, by simp [last, first], ?_⟩
      exact walks.cons leads (fun _ _ => rfl) (fun _ _ => rfl) rfl (.inl ⟨rfl, rfl⟩) place coordinate
    · rw [if_pos lower] at further
      have inside' : ∀ p ∈ axes, p.1 < (s.after reply).space.parameters.size ∧
          p.2 < (x.setIfInBounds c
            (space.toInternal i ((s.after reply).space.parameterAt i).value)).size := by
        rw [leads.size, Array.size_setIfInBounds]
        exact inside
      obtain ⟨next, later, ends, last, walks⟩ := ih places coordinates inside' leads.faithful further
      refine ⟨next, asked ++ later, ends, by simp [last, first], ?_⟩
      refine walks.cons leads apart (fun d away => ?_) (Array.size_setIfInBounds ..)
        (.inr ⟨other, ?_⟩) place coordinate
      · rw [Hessian.entryOther away]
      · simp [entry, given]

end Scan

/- Parameters that moved, all of them to values that come back as they are. -/
def Space.Returns (space : Space ℝ) (start best : Array ℝ) : Prop :=
  ∀ i ∈ space.free, entry best i ≠ entry start i →
    (space.parameterAt i).limits.back space.precision (entry best i) = entry best i

namespace Surface
open Surroundings (tight tightConsistent tightDeclared tightExternal)
variable {s : Surface ℝ} {seed : Seed ℝ}

/- What is left of the best of all points that were asked: the parameters that moved have been taken
inside and out again, the others are where they were. -/
structure Leaves (s : Surface ℝ) (start : Array ℝ) (asked : List (Array ℝ)) (best : Array ℝ)
    (min : Minimum ℝ) : Prop where
  among : best ∈ start :: asked
  least : ∀ x ∈ start :: asked, s.objective.value best ≤ s.objective.value x
  value : min.value = s.objective.value best
  point : min.state.space.declaredValues = s.space.external min.last.point.x
  width : (s.space.external min.last.point.x).size = best.size
  folded : ∀ i ∈ s.space.free, entry best i ≠ entry start i →
    entry (s.space.external min.last.point.x) i =
      (s.space.parameterAt i).limits.back s.space.precision (entry best i)
  kept : ∀ i, (i ∈ s.space.free → entry best i = entry start i) →
    entry (s.space.external min.last.point.x) i = entry best i

/- The value belongs to what is left, and that is the best point, exactly when all parameters that moved
come back as they are. -/
theorem Leaves.stands {start best : Array ℝ} {asked : List (Array ℝ)} {min : Minimum ℝ}
    (leaves : s.Leaves start asked best min) :
    (min.value = s.objective.value (s.space.external min.last.point.x) ∧
      min.state.space.declaredValues = best) ↔ s.space.Returns start best := by
  rw [leaves.point]
  refine ⟨fun ⟨_, same⟩ i free moved => ?_, fun returns => ?_⟩
  · exact (leaves.folded i free moved).symm.trans (congrArg (entry · i) same)
  · have same : s.space.external min.last.point.x = best := by
      refine Vector.sameEntries leaves.width fun i _ => ?_
      by_cases moved : i ∈ s.space.free ∧ entry best i ≠ entry start i
      · rw [leaves.folded i moved.1 moved.2]
        exact returns i moved.1 moved.2
      · exact leaves.kept i fun free => not_not.mp fun other => moved ⟨free, other⟩
    exact ⟨leaves.value.trans (congrArg s.objective.value same.symm), same⟩

/- Where a scan along the axes begins. -/
noncomputable def scanStart (s : Surface ℝ) (seed : Seed ℝ) : Scan ℝ :=
  ⟨seed.knowledge.setParameters s.errorDef seed.space, seed.knowledge.value⟩

/- The result of a scan along the axes is the last point, with the value it was left with. -/
theorem scanAxesParts {t u : Trace ℝ} {min : Minimum ℝ} (run : (s.scanAxes seed).run t = (min, u)) :
    min.seed = seed ∧ ∃ v : Trace ℝ, v.values = t.values ∧
      (s.scanEach seed.space (s.scanStart seed) seed.knowledge.point.x (s.scanStart seed).best
        seed.space.free.zipIdx).run v = ((min.last.point.x, min.value), u) := by
  obtain ⟨_, v, checked, rest⟩ := Eval.runParts run
  obtain ⟨⟨y, best⟩, w, scanned, rest⟩ := Eval.runParts rest
  obtain ⟨calls, z, asked, rest⟩ := Eval.runParts rest
  cases checked
  cases asked
  cases rest
  rw [FitState.ofKnowledgeSpace] at scanned
  refine ⟨rfl, _, ?_, scanned⟩
  rfl

section
variable (consistent : s.space.Consistent) (known : s.Tells seed.knowledge) (same : seed.space = s.space)
include consistent known same

theorem scanStartPoint :
    (s.scanStart seed).space.declaredValues = s.space.external seed.knowledge.point.x := by
  rw [scanStart, same]
  exact seed.knowledge.declaredKnown s.errorDef consistent known.point.size

theorem scanStartFaithful :
    (s.scanStart seed).best = s.objective.value (s.scanStart seed).space.declaredValues := by
  rw [scanStartPoint consistent known same]
  exact known.point.value

theorem scanAxesWalks {t u : Trace ℝ} {min : Minimum ℝ} (run : (s.scanAxes seed).run t = (min, u)) :
    min.seed = seed ∧ ∃ next asked, min.value = next.best ∧
      u.values = t.values ++ asked.toArray ∧
      Scan.Walks s s.space s.space.free.zipIdx (s.scanStart seed) next seed.knowledge.point.x
        min.last.point.x asked := by
  obtain ⟨origin, v, still, scanned⟩ := scanAxesParts run
  have moved := seed.knowledge.setParametersMoved s.errorDef seed.space
  have faithful := scanStartFaithful consistent known same
  rw [← same] at consistent
  have once : (seed.space.free.zipIdx.map Prod.fst).Nodup := by
    rw [List.zipIdx_map_fst]
    exact consistent.ascending.imp fun less => Nat.ne_of_lt less
  have each : (seed.space.free.zipIdx.map Prod.snd).Nodup := by
    rw [List.zipIdx_map_snd]
    exact List.nodup_range'
  have inside : ∀ p ∈ seed.space.free.zipIdx,
      p.1 < (s.scanStart seed).space.parameters.size ∧ p.2 < seed.knowledge.point.x.size := by
    intro p among
    refine ⟨moved.size.symm ▸ consistent.within (List.fst_mem_of_mem_zipIdx among), ?_⟩
    rw [known.point.size, ← same]
    exact List.snd_lt_of_mem_zipIdx among
  obtain ⟨next, asked, ends, last, walks⟩ :=
    Scan.scanEachWalks once each inside faithful scanned
  rw [← same]
  exact ⟨origin, next, asked, ends, still ▸ last, walks⟩

section
variable {next : Scan ℝ} {y : Array ℝ} {asked : List (Array ℝ)}
  (walks : Scan.Walks s s.space s.space.free.zipIdx (s.scanStart seed) next seed.knowledge.point.x y
    asked)
include walks

theorem walkedWidth : (s.space.external y).size = next.space.declaredValues.size := by
  have start := scanStartPoint consistent known same
  have cells := congrArg Array.size start
  rw [Space.externalSize, Space.declaredValues, Array.size_map] at cells
  rw [Space.externalSize, ← cells, Space.declaredValues, Array.size_map, walks.leads.size]

/- Parameters that are fixed are not scanned. -/
theorem walkedPast {i : ℕ} (fixed : i ∉ s.space.free) :
    entry (s.space.external y) i = entry next.space.declaredValues i := by
  have start := scanStartPoint consistent known same
  have still := walks.others i (by rwa [List.zipIdx_map_fst])
  rw [Space.entryDeclared, still, ← Space.entryDeclared, start, entry, entry,
    Array.getD_eq_getD_getElem?, Array.getD_eq_getD_getElem?, Space.externalKept fixed,
    Space.externalKept fixed]

theorem walkedAlong {i : ℕ} (free : i ∈ s.space.free) :
    let start := s.space.external seed.knowledge.point.x
    let best := next.space.declaredValues
    (entry best i = entry start i ∧ entry (s.space.external y) i = entry best i) ∨
      (entry best i ≠ entry start i ∧ entry (s.space.external y) i =
        (s.space.parameterAt i).limits.back s.space.precision (entry best i)) := by
  intro start best
  obtain ⟨c, placed⟩ := List.getElem?_of_mem free
  have full := known.point.size
  have external (z : Array ℝ) (full : z.size = s.space.dimension) :
      entry (s.space.external z) i = (s.space.parameterAt i).limits.toExternal (entry z c) := by
    rw [entry, Array.getD_eq_getD_getElem?, Space.externalAt consistent full placed, Option.getD_some]
  have begun := scanStartPoint consistent known same
  have before : ((s.scanStart seed).space.parameterAt i).value = entry start i := by
    rw [← Space.entryDeclared, begun]
  have now : (next.space.parameterAt i).value = entry best i := (Space.entryDeclared ..).symm
  rw [external y (walks.width.trans full)]
  have among : (i, c) ∈ s.space.free.zipIdx := List.mk_mem_zipIdx_iff_getElem?.mpr placed
  rcases walks.carries (i, c) among with ⟨still, kept⟩ | ⟨moved, made⟩
  · rw [before, now] at still
    refine .inl ⟨still, ?_⟩
    rw [kept, still, external _ full]
  · rw [before, now] at moved
    rw [now] at made
    refine .inr ⟨moved, ?_⟩
    rw [made]
    rfl

end

theorem scanAxesLeaves {t u : Trace ℝ} {min : Minimum ℝ} (run : (s.scanAxes seed).run t = (min, u)) :
    ∃ asked best, u.values = t.values ++ asked.toArray ∧
      s.Leaves (s.space.external seed.knowledge.point.x) asked best min := by
  obtain ⟨origin, next, asked, ends, last, walks⟩ := scanAxesWalks consistent known same run
  have start := scanStartPoint consistent known same
  have width : min.last.point.x.size = s.space.dimension := walks.width.trans known.point.size
  refine ⟨asked, next.space.declaredValues, last, ?_, fun x among => ?_, ?_, ?_, ?_, ?_, ?_⟩
  · rw [← start]
    exact walks.leads.found
  · rw [← walks.leads.faithful]
    rcases List.mem_cons.mp among with rfl | later
    · rw [← start, ← scanStartFaithful consistent known same]
      exact walks.leads.descends
    · exact walks.leads.least x later
  · rw [ends, walks.leads.faithful]
  · rw [Minimum.state, FitState.ofKnowledgeSpace, origin, same]
    exact min.last.declaredKnown min.errorDef consistent width
  · exact walkedWidth consistent known same walks
  · intro i free moved
    rcases walkedAlong consistent known same walks free with ⟨still, -⟩ | ⟨-, made⟩
    · exact (moved still).elim
    · exact made
  · intro i still
    by_cases free : i ∈ s.space.free
    · rcases walkedAlong consistent known same walks free with ⟨-, kept⟩ | ⟨moved, -⟩
      · exact kept
      · exact (moved (still free)).elim
    · exact walkedPast consistent known same walks free

end

theorem tightReached : (FitState.ofSpace (tight 1)).Reached := tightDeclared ▸ .declared _

/- The value is that of the best point that was asked. That point is also the one that is left, exactly
when all parameters that moved come back as they are; they do within the limits where the fold is steep. -/
theorem bestStands {state : FitState ℝ} (reached : state.Reached) (f : Objective ℝ) (up : ℝ)
    (a : Algorithm) (m : GradientMethod ℝ) (st : Strategy ℝ) (check : GradientCheck) (t u : Trace ℝ) :
    let s : Surface ℝ := ⟨f, up, state.space⟩
    let seed := ((s.seed a m st check state).run t).1
    let start := state.space.external seed.knowledge.point.x
    let scanned := (s.scanAxes seed).run u
    let min := scanned.1
    let stands := min.state.space.declaredValues
    let prec := state.space.precision
    ∃ asked best, scanned.2.values = u.values ++ asked.toArray ∧ s.Leaves start asked best min ∧
      (min.value = f.value (state.space.external min.last.point.x) ∧ stands = best ↔
        state.space.Returns start best) ∧
      (0 < prec.eps2 → Limits.margin prec ≤ Real.pi / 2 → (state.space.Returns start best ↔
        ∀ i ∈ state.space.free, entry best i ≠ entry start i →
          (state.space.parameterAt i).limits.Clear prec (entry best i))) := by
  intro s seed start scanned min stands prec
  have inside (x : Array ℝ) (_ : x.size = s.space.dimension) := anywhereInside s x
  have same : state.space.dimension = s.space.dimension := rfl
  obtain ⟨known, here⟩ := (seedStays inside a m st check same).answer t
  have run : (s.scanAxes seed).run u = (min, scanned.2) := rfl
  obtain ⟨asked, best, last, leaves⟩ := scanAxesLeaves reached.consistent known here run
  refine ⟨asked, best, last, leaves, leaves.stands, fun positive narrow => ?_⟩
  refine forall₃_congr fun i free moved => ?_
  refine Limits.backSteady positive (fun lo hi both => ?_) fun _ _ _ => narrow
  have declared := Space.declaredHere (reached.consistent.within free)
  exact (reached.consistent.ordered declared).apart both

theorem bestStandsTight :
    let state : FitState ℝ := .ofSpace (tight 1)
    let f : Objective ℝ := .plain fun x => entry x 0
    let s : Surface ℝ := ⟨f, 1, state.space⟩
    let seed := ((s.seed .scan .provided .medium .off state).run {}).1
    let start := state.space.external seed.knowledge.point.x
    let min := ((s.scanAxes seed).run {}).1
    state.Reached ∧ 0 < state.space.precision.eps2 ∧
      Limits.margin state.space.precision ≤ Real.pi / 2 ∧
      ∃ asked best, s.Leaves start asked best min ∧
        (min.value = f.value (state.space.external min.last.point.x) ∧
          min.state.space.declaredValues = best ↔
            ∀ i ∈ state.space.free, entry best i ≠ entry start i →
              (state.space.parameterAt i).limits.Clear state.space.precision (entry best i)) := by
  intro state f s seed start min
  obtain ⟨positive, fine⟩ := Limits.machineFine
  have narrow := Limits.marginNarrow positive fine
  obtain ⟨asked, best, -, leaves, stands, clear⟩ :=
    bestStands tightReached f 1 .scan .provided .medium .off {} {}
  exact ⟨tightReached, positive, narrow, asked, best, leaves, stands.trans (clear positive narrow)⟩

/-! ### A limit that is the best value -/

/- A value that falls towards a limit, from within one error of it. -/
noncomputable def ramp : Surface ℝ := ⟨.plain fun x => entry x 0, 1, tight 1⟩

/- One error away from zero both limits are met. -/
theorem tightEnds : (tight 1).toInternal 0 1 = Real.pi / 2 - Limits.margin .machine ∧
    (tight 1).toInternal 0 (-1) = -(Real.pi / 2 - Limits.margin .machine) := by
  have positive := Limits.machineFine.1
  have high : Limits.share (-1) 1 1 = 1 := by norm_num [Limits.share]
  have low : Limits.share (-1) 1 (-1) = -1 := by norm_num [Limits.share]
  have above : (Limits.both (-1) 1).Flat .machine 1 := by
    rw [Limits.Flat, high]
    linarith
  have below : (Limits.both (-1) 1).Flat .machine (-1) := by
    rw [Limits.Flat, low]
    linarith
  have ahead := Limits.bothFlat above
  have behind := Limits.bothFlat below
  rw [high, if_neg (by norm_num)] at ahead
  rw [low, if_pos (by norm_num), neg_add_eq_sub, ← neg_sub] at behind
  exact ⟨ahead, behind⟩

theorem tightInternal : (tight 1).internal = #[0] := by
  change #[(Limits.both (-1) 1).toInternal .machine 0] = #[0]
  have middle : Limits.share (-1) 1 0 = 0 := by norm_num [Limits.share]
  have fine := Limits.machineFine.2
  rw [Limits.bothInternal (by rw [middle]; linarith), middle, Real.arcsin_zero]

theorem rampWidth : ramp.errorWidth 0 0 = Real.pi / 2 - Limits.margin .machine := by
  have space : ramp.space = tight 1 := rfl
  have place : (tight 1).place 0 = 0 := rfl
  have lower : ((tight 1).parameterAt 0).lower = some (-1) := rfl
  have upper : ((tight 1).parameterAt 0).upper = some 1 := rfl
  have error : ((tight 1).parameterAt 0).error = 1 := rfl
  have square := Limits.marginSquare Limits.machineFine.1
  have fine := Limits.machineFine.2
  have wide : 0 ≤ Real.pi / 2 - Limits.margin .machine := by
    nlinarith [Real.pi_gt_three]
  obtain ⟨ahead, behind⟩ := tightEnds
  rw [errorWidth, space, place, lower, upper, error, tightExternal, Real.sin_zero]
  simp only [Option.elim_some, Exact.min, Exact.max, Exact.abs, zero_add, zero_sub, min_self, max_self,
    ahead, behind, sub_zero, abs_neg, abs_of_nonneg wide]
  norm_num
  ring

/- The internal error is so large that the external one covers the whole interval. -/
theorem rampSeed (t : Trace ℝ) :
    let k := ((ramp.simplexSeed (.ofSpace (tight 1))).run t).1.knowledge
    entry k.point.x 0 = 0 ∧ 1 < k.internalError 1 0 := by
  intro k
  let p : Point ℝ := k.point
  let g := ramp.guess p
  have spot : entry p.x 0 = 0 := congrArg (entry · 0) tightInternal
  refine ⟨spot, ?_⟩
  have inside : 0 < ramp.space.dimension := Nat.one_pos
  have curvature : entry g.curvatures 0 = 2 / (ramp.errorWidth 0 0 * ramp.errorWidth 0 0) := by
    refine (congrArg Axis.curvature (guessAt p inside)).trans ?_
    rw [spot]
    norm_num [guessAxis, ramp]
  have rows : 0 < g.curvatures.size := (ramp.guessFull p).curvatures.symm ▸ inside
  have few : 0 < (g.inverseCurvatures .machine).size := (Array.size_map ..).symm ▸ rows
  have wide : 1 < ramp.errorWidth 0 0 := by
    have square := Limits.marginSquare Limits.machineFine.1
    rw [rampWidth]
    nlinarith [Real.pi_gt_three, Limits.machineFine.2]
  have variance : 1 / 2 < entry (g.inverseCurvatures .machine) 0 := by
    rw [Gradient.inverseCurvatures, Vector.entryMap _ rows, curvature]
    split
    case isTrue =>
      rw [one_div_div]
      nlinarith
    case isFalse => norm_num
  change 1 < √((2.0 : ℝ) * 1 * (Symmetric.ofDiagonal (g.inverseCurvatures .machine)).element 0 0)
  rw [Symmetric.elementOfDiagonal few, Real.lt_sqrt zero_le_one]
  norm_num
  linarith

theorem tightErrorWide {e : ℝ} (wide : 1 < e) : 1 ≤ (tight 1).externalError 0 0 e := by
  have limits : (tight 1).limits 0 = .both (-1) 1 := rfl
  have rest := abs_nonneg ((tight 1).toExternal 0 (0 - e) - (tight 1).toExternal 0 0)
  have whole : |(1 : ℝ) - -1| = 2 := by norm_num
  have half : (0.5 : ℝ) = 1 / 2 := by norm_num
  rw [Space.externalError, limits]
  dsimp only
  rw [if_pos wide, Exact.abs, Exact.abs, whole, half]
  linarith

/- So both ends of the scan are limits. -/
theorem rampStart (t : Trace ℝ) :
    let seed := ((ramp.simplexSeed (.ofSpace (tight 1))).run t).1
    Scan.interval ((ramp.scanStart seed).space.parameterAt 0) 0 0 = (-1, 1) := by
  intro seed
  obtain ⟨spot, wide⟩ := rampSeed t
  let e := (tight 1).externalError 0 0 (seed.knowledge.internalError 1 0)
  have ahead : 1 ≤ 2 * e := by linarith [tightErrorWide wide]
  have declared : (seed.knowledge.setParameters 1 (tight 1)).parameterAt 0 =
      (((tight 1).parameterAt 0).setValue 0).setError e := by
    have declared := seed.knowledge.setParametersAt 1 tightConsistent (c := 0) (i := 0) rfl
    rwa [spot, tightExternal, Real.sin_zero] at declared
  have lower : ((tight 1).parameterAt 0).lower = some (-1) := rfl
  have upper : ((tight 1).parameterAt 0).upper = some 1 := rfl
  have twice : (2.0 : ℝ) = 2 := by norm_num
  change Scan.interval ((seed.knowledge.setParameters 1 (tight 1)).parameterAt 0) 0 0 = _
  rw [declared]
  simp only [Scan.interval, Parameter.setError, Parameter.setValue, lower, upper, Option.elim_some,
    beq_self_eq_true, Bool.and_self, if_true, twice, zero_sub, zero_add, Exact.max, Exact.min]
  rw [max_eq_right (neg_le_neg ahead), min_eq_right ahead]

/- Scanned to its lower limit, the one parameter comes back above it. -/
theorem rampMisplaced (t : Trace ℝ) :
    let begun := (ramp.simplexSeed (.ofSpace (tight 1))).run t
    let min := ((ramp.scanAxes begun.1).run begun.2).1
    min.value ≤ -1 ∧ -1 < entry ((tight 1).external min.last.point.x) 0 := by
  intro begun min
  have inside (x : Array ℝ) (_ : x.size = ramp.space.dimension) := anywhereInside ramp x
  have same : (FitState.ofSpace (tight 1)).space.dimension = ramp.space.dimension := rfl
  have run : (ramp.scanAxes begun.1).run begun.2 = (min, _) := rfl
  obtain ⟨known, -⟩ := (simplexSeedStays inside same).answer t
  have start : (ramp.scanStart begun.1).space.declaredValues = (tight 1).external #[0] := by
    rw [← tightInternal]
    exact scanStartPoint tightConsistent known rfl
  have zero : (tight 1).external #[0] = #[0] := by
    refine Vector.sameEntries (Space.externalSize ..) fun i inside => ?_
    obtain rfl : i = 0 := Nat.lt_one_iff.mp (inside.trans_eq (Space.externalSize ..))
    rw [entry, Array.getD_eq_getD_getElem?, Space.externalAt tightConsistent (k := 0) rfl rfl]
    exact (tightExternal 0).trans Real.sin_zero
  refine ⟨?_, ?_⟩
  · obtain ⟨-, v, -, scanned⟩ := scanAxesParts run
    have answers := Scan.sweepAnswers ramp (ramp.scanStart begun.1) (Scan.axisSweep 0) v
    have cut : Scan.interval ((ramp.scanStart begun.1).space.parameterAt 0)
      (Scan.axisSweep 0).low (Scan.axisSweep 0).high = (-1, 1) := rampStart t
    have first := answers.lowest (i := 0) rfl le_rfl (by decide) (by rw [cut]; norm_num)
    rw [cut, start, zero] at first
    exact (Scan.scanEachAlone scanned).trans first
  · obtain ⟨asked, best, -, leaves⟩ := scanAxesLeaves tightConsistent known rfl run
    change -1 < entry (ramp.space.external min.last.point.x) 0
    by_cases still : entry best 0 = entry ((tight 1).external begun.1.knowledge.point.x) 0
    · have origin : begun.1.knowledge.point.x = #[0] := tightInternal
      rw [leaves.kept 0 fun _ => still, still, origin, zero]
      exact neg_one_lt_zero
    · have pulled := leaves.folded 0 (.head _) still
      obtain ⟨positive, fine⟩ := Limits.machineFine
      have ordered (lo hi : ℝ) (same : Limits.both (-1) 1 = .both lo hi) : lo < hi := by
        obtain ⟨rfl, rfl⟩ := Limits.both.inj same
        norm_num
      have clear := Limits.backClears positive ordered (fun _ _ _ => Limits.marginNarrow positive fine)
        (entry best 0)
      exact pulled.symm ▸ clear.1.1

/- So the value that is reported belongs to another point. -/
theorem bestMisplaced :
    ¬ ∀ (state : FitState ℝ) (f : Objective ℝ) (up : ℝ) (m : GradientMethod ℝ) (st : Strategy ℝ)
        (check : GradientCheck), state.Reached → 0 < up →
      (∀ i ∈ state.space.free, let p := state.space.parameterAt i
        0 < p.error ∧ p.limits.Inside p.value) →
      let s : Surface ℝ := ⟨f, up, state.space⟩
      let begun := (s.seed .scan m st check state).run {}
      let scanned := (s.scanAxes begun.1).run begun.2
      let stands := scanned.1.state.space.declaredValues
      scanned.1.value = f.value (state.space.external scanned.1.last.point.x) ∧
        stands ∈ scanned.2.values ∧ ∀ x ∈ scanned.2.values, f.value stands ≤ f.value x := by
  intro keeps
  have within : ∀ i ∈ (tight 1).free,
      0 < ((tight 1).parameterAt i).error ∧
        ((tight 1).parameterAt i).limits.Inside ((tight 1).parameterAt i).value := by
    intro i free
    obtain rfl := List.mem_singleton.mp free
    exact ⟨zero_lt_one, neg_one_lt_zero, zero_lt_one⟩
  obtain ⟨faithful, -⟩ := keeps (.ofSpace (tight 1)) ramp.objective 1 .provided .medium .off
    tightReached zero_lt_one within
  obtain ⟨low, above⟩ := rampMisplaced {}
  exact absurd (faithful.symm.le.trans low) above.not_ge

end Surface
end ParamFit
