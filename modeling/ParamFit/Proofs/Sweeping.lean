import ParamFit.Proofs.Admissible

/-! Scans one after the other, of any parameters, asked for anything. Each knows the value at its
parameters, and that no value it returned so far is lower. It moves only the parameter that is scanned,
asks it within the interval that was meant and within its limits, once for every sample but the first,
and where it refuses it has asked nothing. Where the parameters stood before does not matter, not even
whether they kept their limits. -/
namespace ParamFit

/- What a scan is asked for. -/
structure Sweep (α : Type) where
  parameter : Address
  steps : ℕ
  low : α
  high : α

/- The interval that is meant, before limits cut it. -/
noncomputable def Sweep.meant (r : Sweep ℝ) (p : Parameter ℝ) : ℝ × ℝ :=
  if r.low = 0 ∧ r.high = 0 then (p.value - 2.0 * p.error, p.value + 2.0 * p.error) else (r.low, r.high)

def Sweep.range (r : Sweep ℝ) (p : Parameter ℝ) : Set ℝ := Set.Icc (r.meant p).1 (r.meant p).2

namespace Space
variable {α : Type}

theorem setValueTwice (s : Space α) (i : ℕ) (v w : α) :
    (s.setValueAt i v).setValueAt i w = s.setValueAt i w := by
  have parameters : (s.parameters.modify i (·.setValue v)).modify i (·.setValue w) =
      s.parameters.modify i (·.setValue w) := by
    refine Array.ext_getElem? fun j => ?_
    simp only [Array.getElem?_modify]
    split
    · rw [Option.map_map]
      rfl
    · rfl
  have values : (s.values.setIfInBounds i v).setIfInBounds i w = s.values.setIfInBounds i w :=
    Array.setIfInBounds_setIfInBounds ..
  simp only [setValueAt, update, parameters, values]

end Space

namespace Scan

section
variable {α : Type} [Scalar α]

abbrev Reply (α : Type) := Except (FitError α) (Scan α × List (Sample α))

def sweep (f : Surface α) (s : Scan α) (r : Sweep α) : Eval α (Reply α) :=
  s.run f r.parameter r.steps r.low r.high

/- A scan that refuses stands where it stood. -/
def after (s : Scan α) : Reply α → Scan α
  | .ok (next, _) => next
  | .error _ => s

def returned : Reply α → List (Sample α)
  | .ok (_, samples) => samples
  | .error _ => []

/- Where sweeps one after the other lead to, with all the samples that they returned. -/
def sweepAll (f : Surface α) (s : Scan α) (seen : List (Sample α)) :
    List (Sweep α) → Eval α (Scan α × List (Sample α))
  | [] => return (s, seen)
  | r :: rest => do
    let reply ← s.sweep f r
    (s.after reply).sweepAll f (seen ++ returned reply) rest

end

/- A scan that has asked for the samples `rest`, with all other parameters at `values`. -/
structure Visited (f : Surface ℝ) (i : ℕ) (values : Array ℝ) (s : Scan ℝ) (rest : List (Sample ℝ))
    (next : Scan ℝ) (t u : Trace ℝ) : Prop where
  asked : u.values = t.values ++ (rest.map fun y => values.setIfInBounds i y.x).toArray
  slopes : u.slopes = t.slopes
  faithful : ∀ y ∈ rest, y.y = f.objective.value (values.setIfInBounds i y.x)
  moves : next = s ∨ ∃ y ∈ rest, y.y < s.best ∧ next = ⟨s.space.setValueAt i y.x, y.y⟩
  descends : next.best ≤ s.best
  least : ∀ y ∈ rest, next.best ≤ y.y

/- How a sweep is answered: refused where there is no such parameter or no such value within its limits,
with the sample it begins with alone where there is nothing to scan, otherwise with all of its points. -/
inductive Answers (f : Surface ℝ) (s : Scan ℝ) (r : Sweep ℝ) (t : Trace ℝ) :
    Reply ℝ → Trace ℝ → Prop where
  | refused (e : FitError ℝ)
      (without : ∀ i, s.space.indexOf r.parameter = .ok i →
        let cut := interval (s.space.parameterAt i) r.low r.high
        cut.2 < cut.1) : Answers f s r t (.error e) t
  | alone {i : ℕ} (here : s.space.indexOf r.parameter = .ok i)
      (nothing : r.high < r.low ∨ r.steps < 2) :
      Answers f s r t (.ok (s, [⟨(s.space.parameterAt i).value, s.best⟩])) t
  | served {i : ℕ} {rest : List (Sample ℝ)} {next : Scan ℝ} {u : Trace ℝ}
      (here : s.space.indexOf r.parameter = .ok i)
      (visited : Visited f i s.space.declaredValues s rest next t u)
      (places : rest.map Sample.x = let cut := interval (s.space.parameterAt i) r.low r.high
        grid cut.1 cut.2 (min r.steps maxSteps))
      (few : rest.length ≤ 101)
      (within : ∀ y ∈ rest, y.x ∈ r.range (s.space.parameterAt i))
      (allowed : ∀ y ∈ rest, (s.space.parameterAt i).Allows y.x) :
      Answers f s r t (.ok (next, ⟨(s.space.parameterAt i).value, s.best⟩ :: rest)) u

/- The value is that of the parameters, and no sample that was seen is lower. -/
structure Booked (f : Surface ℝ) (s : Scan ℝ) (seen : List (Sample ℝ)) : Prop where
  faithful : s.best = f.objective.value s.space.declaredValues
  least : ∀ y ∈ seen, s.best ≤ y.y

variable {f : Surface ℝ} {i : ℕ} {values : Array ℝ} {s : Scan ℝ} {r : Sweep ℝ} {t : Trace ℝ}

theorem nothingVisited : Visited f i values s [] s t t :=
  ⟨by simp, rfl, nofun, .inl rfl, le_rfl, nofun⟩

/- One more sample in front: it is taken over if it is lower. -/
theorem Visited.sampled {better next : Scan ℝ} {y : Sample ℝ} {rest : List (Sample ℝ)} {u : Trace ℝ}
    (faithful : y.y = f.objective.value (values.setIfInBounds i y.x))
    (judged : (better = s ∧ s.best ≤ y.y) ∨ (better = ⟨s.space.setValueAt i y.x, y.y⟩ ∧ y.y < s.best))
    (visited : Visited f i values better rest next
      ((f.externalValue (values.setIfInBounds i y.x)).run t).2 u) :
    Visited f i values s (y :: rest) next t u := by
  have best : better.best ≤ s.best ∧ better.best ≤ y.y := by
    rcases judged with ⟨rfl, higher⟩ | ⟨rfl, lower⟩
    · exact ⟨le_rfl, higher⟩
    · exact ⟨lower.le, le_rfl⟩
  refine ⟨visited.asked.trans ?_, visited.slopes, List.forall_mem_cons.mpr ⟨faithful, visited.faithful⟩,
    ?_, visited.descends.trans best.1,
    List.forall_mem_cons.mpr ⟨visited.descends.trans best.2, visited.least⟩⟩
  · simp [Surface.runExternalValue]
  · rcases visited.moves with rfl | ⟨z, among, lower, rfl⟩
    · rcases judged with ⟨same, -⟩ | ⟨same, lower⟩
      · exact .inl same
      · exact .inr ⟨y, .head _, lower, same⟩
    · refine .inr ⟨z, .tail _ among, lower.trans_le best.1, ?_⟩
      rcases judged with ⟨rfl, -⟩ | ⟨rfl, -⟩
      · rfl
      · rw [Space.setValueTwice]

theorem visitVisits {seen samples : List (Sample ℝ)} {grid : List ℝ} {next : Scan ℝ} {u : Trace ℝ}
    (run : (visit f i values s seen grid).run t = ((next, samples), u)) :
    ∃ rest, samples = seen.reverse ++ rest ∧ rest.map Sample.x = grid ∧
      Visited f i values s rest next t u := by
  induction grid generalizing s seen t with
  | nil =>
    cases run
    exact ⟨[], (List.append_nil _).symm, rfl, nothingVisited⟩
  | cons v grid ih =>
    obtain ⟨y, w, asked, further⟩ := Eval.runParts run
    obtain ⟨rest, rfl, rfl, visited⟩ := ih further
    rw [Surface.runExternalValue] at asked
    obtain ⟨rfl, rfl⟩ := Prod.mk.inj asked
    refine ⟨⟨v, f.objective.value (values.setIfInBounds i v)⟩ :: rest, by simp, rfl, ?_⟩
    refine visited.sampled rfl ?_
    split
    case isTrue lower => exact .inr ⟨rfl, lower⟩
    case isFalse higher => exact .inl ⟨rfl, not_lt.mp higher⟩

theorem intervalMeant (r : Sweep ℝ) (p : Parameter ℝ) : interval p r.low r.high =
    (p.lower.elim (r.meant p).1 (Scalar.max (r.meant p).1),
      p.upper.elim (r.meant p).2 (Scalar.min (r.meant p).2)) := by
  rw [interval, Sweep.meant]
  by_cases unsaid : r.low = 0 ∧ r.high = 0
  · simp [unsaid]
  · simp [unsaid]

theorem intervalRange {p : Parameter ℝ} {v : ℝ} (above : (interval p r.low r.high).1 ≤ v)
    (below : v ≤ (interval p r.low r.high).2) : v ∈ r.range p := by
  rw [intervalMeant] at above below
  refine ⟨le_trans ?_ above, below.trans ?_⟩
  · cases p.lower <;> simp
  · cases p.upper <;> simp

theorem sweepAnswers (f : Surface ℝ) (s : Scan ℝ) (r : Sweep ℝ) (t : Trace ℝ) :
    Answers f s r t ((s.sweep f r).run t).1 ((s.sweep f r).run t).2 := by
  rw [sweep, run]
  cases here : s.space.indexOf r.parameter with
  | error e => exact .refused e fun i known => by cases here.symm.trans known
  | ok i =>
    dsimp only
    rw [Eval.runIte]
    split
    case isTrue nothing =>
      refine .alone here (nothing.imp_right fun few => ?_)
      simpa [maxSteps] using few
    case isFalse usable =>
      rw [Eval.runIte]
      split
      case isTrue without =>
        refine .refused _ fun j known => ?_
        obtain rfl := Except.ok.inj (here.symm.trans known)
        exact without
      case isFalse ordered =>
        obtain ⟨-, several⟩ := not_or.mp usable
        rw [Eval.runBind]
        generalize run : (visit f i s.space.declaredValues s _ _).run t = found
        obtain ⟨⟨next, samples⟩, u⟩ := found
        obtain ⟨rest, rfl, places, visited⟩ := visitVisits run
        have between {y : Sample ℝ} (among : y ∈ rest) :=
          gridWithin (not_lt.mp ordered) (not_lt.mp several) (places ▸ List.mem_map_of_mem among)
        refine .served here visited places ?_ (fun y among => ?_) fun y among => ?_
        · have length := congrArg List.length places
          rw [List.length_map, grid, List.length_map, List.length_range] at length
          exact length.trans_le (Nat.min_le_right ..)
        · exact intervalRange (between among).1 (between among).2
        · exact intervalAllows (between among).1 (between among).2

variable {seen : List (Sample ℝ)} {reply : Reply ℝ} {u : Trace ℝ}

/- Whatever the answer, the books are right afterwards, and the value is no higher than before. -/
theorem Answers.books (booked : s.Booked f seen) (answers : Answers f s r t reply u) :
    (s.after reply).Booked f (seen ++ returned reply) ∧ (s.after reply).best ≤ s.best := by
  cases answers with
  | refused e =>
    rw [returned, List.append_nil]
    exact ⟨booked, le_rfl⟩
  | alone here =>
    refine ⟨⟨booked.faithful, fun y among => ?_⟩, le_rfl⟩
    rcases List.mem_append.mp among with earlier | later
    · exact booked.least y earlier
    · rw [List.mem_singleton.mp later]
      exact le_rfl
  | served here visited =>
    refine ⟨⟨?_, fun y among => ?_⟩, visited.descends⟩
    · rcases visited.moves with same | ⟨y, among, -, same⟩
      · rw [after, same]
        exact booked.faithful
      · rw [after, same, Space.declaredSet]
        exact visited.faithful y among
    · rcases List.mem_append.mp among with earlier | later
      · exact visited.descends.trans (booked.least y earlier)
      · rcases List.mem_cons.mp later with rfl | later
        · exact visited.descends
        · exact visited.least y later

theorem sweepAllBooked (booked : s.Booked f seen) (sweeps : List (Sweep ℝ)) (t : Trace ℝ) :
    let found := ((s.sweepAll f seen sweeps).run t).1
    found.1.Booked f found.2 := by
  induction sweeps generalizing s seen t with
  | nil => exact booked
  | cons r rest ih => exact ih ((sweepAnswers f s r t).books booked).1 _

/- After any sweeps the next one keeps the books, and goes no higher. -/
theorem sweepsDescend (f : Surface ℝ) (space : Space ℝ) (earlier : List (Sweep ℝ)) (r : Sweep ℝ)
    (t : Trace ℝ) :
    let before := (start f space >>= fun s => s.sweepAll f [] earlier).run t
    let s := before.1.1
    let answer := (s.sweep f r).run before.2
    let next := s.after answer.1
    next.best = f.objective.value next.space.declaredValues ∧ next.best ≤ s.best ∧
      (∀ y ∈ before.1.2 ++ returned answer.1, next.best ≤ y.y) ∧
      s.Answers f r before.2 answer.1 answer.2 := by
  intro before s answer next
  have begun : ((start f space).run t).1.Booked f [] := ⟨rfl, nofun⟩
  have booked : s.Booked f before.1.2 := sweepAllBooked begun earlier ((start f space).run t).2
  have answers := sweepAnswers f s r before.2
  obtain ⟨books, lower⟩ := answers.books booked
  exact ⟨books.faithful, lower, books.least, answers⟩

end Scan
end ParamFit
