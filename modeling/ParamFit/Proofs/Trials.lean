import ParamFit.Proofs.Staying

/-! The trials of a line search, in order. The search is described without a bound on its rounds, as
what it does from one trial to the next; both loops come to such an end before their fuel is spent.
Nothing that was tried is lower than the sample that is given back: a trial that is passed over is
above the first of the three points, and the best sample never is. -/
namespace ParamFit
namespace LineSearch

namespace Progress

/- What a trial leaves of three points, and the trial after it. -/
noncomputable def follow (c : Course ℝ) (s : Progress ℝ) (p : Sample ℝ) : Progress ℝ × ℝ :=
  if s.isWorst p then s.retreat p.x
  else ((s.accept p).widen, (s.accept p).widen.parabolaTrial c)

variable {c : Course ℝ} {s : Progress ℝ} {p : Sample ℝ}

theorem firstExchange (s : Progress ℝ) (p : Sample ℝ) :
    (s.exchange p).first = p ∨ (s.exchange p).first = s.first := by
  rw [exchange]
  split
  · exact .inl rfl
  · split <;> exact .inr rfl

theorem roundsFollow : (s.follow c p).1.rounds = s.rounds + 2 := by
  have accepted : (s.accept p).rounds = s.rounds + 2 := by
    rw [accept]
    dsimp only
    split <;> rfl
  rw [follow]
  split
  · rfl
  · exact accepted

end Progress

/-! ### The search without its bound -/

/- Trials with three points, the first one at a given multiple, and what is found. -/
inductive Refines (f : ℝ → ℝ) (c : Course ℝ) : Progress ℝ → ℝ → List ℝ → Sample ℝ → Prop where
  | settled (s x) (settled : s.isSettled x = true) : Refines f c s x [] s.best
  | last (s x) (apart : s.isSettled x = false)
      (spent : maxRounds ≤ (s.follow c ⟨x, f x⟩).1.rounds) :
      Refines f c s x [x] (s.follow c ⟨x, f x⟩).1.best
  | next {s x xs best} (apart : s.isSettled x = false)
      (left : (s.follow c ⟨x, f x⟩).1.rounds < maxRounds)
      (rest : Refines f c (s.follow c ⟨x, f x⟩).1 (s.follow c ⟨x, f x⟩).2 xs best) :
      Refines f c s x (x :: xs) best

/- Trials with two points and a slope, and those that follow them. -/
inductive Approaches (f : ℝ → ℝ) (c : Course ℝ) : Progress ℝ → List ℝ → Sample ℝ → Prop where
  | reached (s) (none : s.tangentTrial? c = none) : Approaches f c s [] s.best
  | last {s x} (some : s.tangentTrial? c = some x)
      (flat : (s.afterTangent ⟨x, f x⟩).isFlat c = true)
      (spent : maxRounds ≤ (s.afterTangent ⟨x, f x⟩).closer.rounds) :
      Approaches f c s [x] (s.afterTangent ⟨x, f x⟩).closer.best
  | next {s x xs best} (some : s.tangentTrial? c = some x)
      (flat : (s.afterTangent ⟨x, f x⟩).isFlat c = true)
      (left : (s.afterTangent ⟨x, f x⟩).closer.rounds < maxRounds)
      (rest : Approaches f c (s.afterTangent ⟨x, f x⟩).closer xs best) :
      Approaches f c s (x :: xs) best
  | bent {s x xs best} (some : s.tangentTrial? c = some x)
      (bent : (s.afterTangent ⟨x, f x⟩).isFlat c = false)
      (rest : Refines f c (s.afterTangent ⟨x, f x⟩).widen
        ((s.afterTangent ⟨x, f x⟩).widen.parabolaTrial c) xs best) : Approaches f c s (x :: xs) best

/- The first trial is the whole step. -/
inductive Searches (f : ℝ → ℝ) (c : Course ℝ) : List ℝ → Sample ℝ → Prop where
  | first {xs best} (rest : Approaches f c (.begin c (f 1)) xs best) : Searches f c (1 :: xs) best

variable {f : ℝ → ℝ} {c : Course ℝ} {s : Progress ℝ} {x start : ℝ} {best : Sample ℝ}
  {seen xs : List ℝ}

/-! ### The loops come to such an end -/

section
variable {probe : ℝ → Eval ℝ ℝ} {ask : ℝ → Trace ℝ → Trace ℝ}
  (probes : ∀ x t, (probe x).run t = (f x, ask x t))

def after (ask : ℝ → Trace ℝ → Trace ℝ) (xs : List ℝ) (t : Trace ℝ) : Trace ℝ :=
  xs.foldl (fun t x => ask x t) t

theorem runWidened {β : Type} (c : Course ℝ) (s : Progress ℝ) (m : Eval ℝ β) (t : Trace ℝ) :
    (Eval.expect (s.widen.hasBounds c) >>= fun _ => m).run t = m.run t := by
  rw [Eval.runBind, Progress.widenBounds]
  change m.run ⟨t.values, t.slopes, t.sound && true⟩ = m.run t
  rw [Bool.and_true]

include probes

theorem refineFollows (apart : s.isSettled x = false) (fuel : ℕ) (t : Trace ℝ) :
    (refine probe c s x (fuel + 1)).run t =
      if maxRounds ≤ (s.follow c ⟨x, f x⟩).1.rounds then
        ((s.follow c ⟨x, f x⟩).1.best, ask x t)
      else (refine probe c (s.follow c ⟨x, f x⟩).1 (s.follow c ⟨x, f x⟩).2 fuel).run (ask x t) := by
  rw [refine, if_neg (Bool.eq_false_iff.mp apart), Eval.runBind, probes]
  dsimp only
  rw [Progress.follow]
  split
  case isTrue worst => exact Eval.runIte ..
  case isFalse useful =>
    rw [Eval.runIte, runWidened]
    rfl

theorem refineEnds (c : Course ℝ) (s : Progress ℝ) (x : ℝ) (t : Trace ℝ) {fuel : ℕ} (some : 0 < fuel)
    (enough : maxRounds < s.rounds + fuel) : ∃ xs best, Refines f c s x xs best ∧
      (refine probe c s x fuel).run t = (best, after ask xs t) := by
  -- A round that goes on adds two to the rounds and takes one from the fuel.
  induction fuel generalizing s x t with
  | zero => exact absurd some (lt_irrefl 0)
  | succ fuel ih =>
    by_cases settled : s.isSettled x
    · refine ⟨[], s.best, .settled s x settled, ?_⟩
      rw [refine, if_pos settled]
      rfl
    · have apart := Bool.eq_false_iff.mpr settled
      have rounds : (s.follow c ⟨x, f x⟩).1.rounds = s.rounds + 2 := Progress.roundsFollow
      rw [refineFollows probes apart]
      split
      case isTrue spent => exact ⟨[x], _, .last s x apart spent, rfl⟩
      case isFalse left =>
        obtain ⟨xs, best, rest, run⟩ := ih (s.follow c ⟨x, f x⟩).1 (s.follow c ⟨x, f x⟩).2
          (ask x t) (by omega) (by omega)
        exact ⟨x :: xs, best, .next apart (not_le.mp left) rest, run⟩

theorem approachEnds (c : Course ℝ) (s : Progress ℝ) (t : Trace ℝ) {fuel : ℕ} (some : 0 < fuel)
    (enough : maxRounds < s.rounds + fuel) : ∃ xs best, Approaches f c s xs best ∧
      (approach probe c s fuel).run t = (best, after ask xs t) := by
  induction fuel generalizing s t with
  | zero => exact absurd some (lt_irrefl 0)
  | succ fuel ih =>
    rw [approach]
    cases trial : s.tangentTrial? c with
    | none => exact ⟨[], s.best, .reached s trial, rfl⟩
    | some x =>
      dsimp only
      have rounds : (s.afterTangent ⟨x, f x⟩).closer.rounds = s.rounds + 2 := rfl
      rw [Eval.runBind, probes, Eval.runIte, Eval.runIte]
      dsimp only
      split
      case isTrue flat =>
        split
        case isTrue spent => exact ⟨[x], _, .last trial flat spent, rfl⟩
        case isFalse left =>
          obtain ⟨xs, best, rest, run⟩ := ih (s.afterTangent ⟨x, f x⟩).closer (ask x t) (by omega)
            (by omega)
          exact ⟨x :: xs, best, .next trial flat (not_le.mp left) rest, run⟩
      case isFalse bent =>
        rw [runWidened]
        have left : maxRounds < (s.afterTangent ⟨x, f x⟩).widen.rounds + maxRounds :=
          Nat.lt_add_of_pos_left (Nat.succ_pos s.rounds)
        obtain ⟨xs, best, rest, run⟩ := refineEnds probes c (s.afterTangent ⟨x, f x⟩).widen
          ((s.afterTangent ⟨x, f x⟩).widen.parabolaTrial c) (ask x t) (by decide) left
        exact ⟨x :: xs, best, .bent trial (Bool.eq_false_iff.mpr bent) rest, run⟩

theorem runEnds (c : Course ℝ) (t : Trace ℝ) : ∃ xs best, Searches f c xs best ∧
      (run probe c).run t = (best, after ask xs t) := by
  have left : maxRounds < (Progress.begin c (f 1)).rounds + maxRounds :=
    Nat.lt_add_of_pos_left one_pos
  obtain ⟨xs, best, rest, approached⟩ :=
    approachEnds probes c (.begin c (f 1)) (ask 1 t) (by decide) left
  refine ⟨1 :: xs, best, .first rest, ?_⟩
  rw [LineSearch.run, Eval.runBind, probes]
  exact approached

end

/-! ### How many there are -/

theorem Refines.few (refines : Refines f c s x xs best) :
    2 * xs.length ≤ 2 + (maxRounds - 1 - s.rounds) := by
  induction refines with
  | settled => exact Nat.zero_le _
  | last => exact Nat.le_add_right 2 _
  | next apart left rest ih =>
    rw [Progress.roundsFollow] at left ih
    rw [List.length_cons]
    omega

theorem Approaches.few (approaches : Approaches f c s xs best) :
    2 * xs.length ≤ 4 + (maxRounds - 1 - s.rounds) := by
  induction approaches with
  | reached => exact Nat.zero_le _
  | last => exact Nat.le_add_right_of_le (Nat.le_add_left 2 2)
  | @next s x xs best some flat left rest ih =>
    have rounds : (s.afterTangent ⟨x, f x⟩).closer.rounds = s.rounds + 2 := rfl
    rw [rounds] at left ih
    rw [List.length_cons]
    omega
  | @bent s x xs best some bent rest =>
    have few := rest.few
    have rounds : (s.afterTangent ⟨x, f x⟩).widen.rounds = s.rounds + 1 := rfl
    rw [rounds] at few
    rw [List.length_cons]
    omega

theorem Searches.few (searches : Searches f c xs best) : xs.length ≤ 8 := by
  obtain ⟨rest⟩ := searches
  have few := rest.few
  have rounds : (Progress.begin c (f 1)).rounds = 1 := rfl
  rw [rounds, show maxRounds = 12 from rfl] at few
  rw [List.length_cons]
  omega

/-! ### None is lower -/

/- The best sample among some trials and the start. It is the start, unless a trial is lower. -/
structure Lowest (f : ℝ → ℝ) (start : ℝ) (seen : List ℝ) (best : Sample ℝ) : Prop where
  kept : best = ⟨0, start⟩ ∨ best.x ∈ seen ∧ best.y = f best.x ∧ best.y < start
  least : ∀ x ∈ seen, best.y ≤ f x

/- What the rounds of a search keep. -/
structure Remembers (f : ℝ → ℝ) (start : ℝ) (seen : List ℝ) (s : Progress ℝ) : Prop where
  best : Lowest f start seen s.best
  first : s.best.y ≤ s.first.y

theorem Lowest.top (lowest : Lowest f start seen best) : best.y ≤ start := by
  rcases lowest.kept with same | ⟨_, _, lower⟩
  · rw [same]
  · exact lower.le

theorem Lowest.passed (lowest : Lowest f start seen best) (above : best.y ≤ f x) :
    Lowest f start (seen ++ [x]) best where
  kept := lowest.kept.imp_right fun ⟨among, rest⟩ => ⟨List.mem_append_left _ among, rest⟩
  least y among := by
    rcases List.mem_append.mp among with before | new
    · exact lowest.least y before
    · rw [List.mem_singleton.mp new]
      exact above

theorem Lowest.taken (lowest : Lowest f start seen best) (lower : f x < best.y) :
    Lowest f start (seen ++ [x]) ⟨x, f x⟩ where
  kept := .inr ⟨List.mem_append_right _ (List.mem_singleton_self x), rfl, lower.trans_le lowest.top⟩
  least y among := by
    rcases List.mem_append.mp among with before | new
    · exact lower.le.trans (lowest.least y before)
    · rw [List.mem_singleton.mp new]

namespace Remembers

theorem begin (f : ℝ → ℝ) (c : Course ℝ) : Remembers f c.start [1] (.begin c (f 1)) := by
  have nothing : Lowest f c.start [] ⟨0, c.start⟩ := ⟨.inl rfl, nofun⟩
  rw [Progress.begin]
  split
  case isTrue lower => exact ⟨nothing.taken lower, lower.le⟩
  case isFalse higher => exact ⟨nothing.passed (not_lt.mp higher), le_refl _⟩

theorem afterTangent (remembers : Remembers f start seen s) (x : ℝ) :
    Remembers f start (seen ++ [x]) (s.afterTangent ⟨x, f x⟩) := by
  rw [Progress.afterTangent, Progress.note]
  split
  case isTrue lower => exact ⟨remembers.best.taken lower, lower.le.trans remembers.first⟩
  case isFalse higher => exact ⟨remembers.best.passed (not_lt.mp higher), remembers.first⟩

theorem accept (remembers : Remembers f start seen s) (x : ℝ) :
    Remembers f start (seen ++ [x]) (s.accept ⟨x, f x⟩) := by
  have first := Progress.firstExchange s ⟨x, f x⟩
  rw [Progress.accept]
  dsimp only
  rw [Progress.bestExchange]
  split
  case isTrue lower =>
    refine ⟨remembers.best.taken lower, ?_⟩
    change f x ≤ (s.exchange ⟨x, f x⟩).first.y
    rcases first with new | old
    · rw [new]
    · rw [old]
      exact lower.le.trans remembers.first
  case isFalse higher =>
    refine ⟨remembers.best.passed (not_lt.mp higher), ?_⟩
    change s.best.y ≤ (s.exchange ⟨x, f x⟩).first.y
    rcases first with new | old
    · rw [new]
      exact not_lt.mp higher
    · rw [old]
      exact remembers.first

theorem follow (remembers : Remembers f start seen s) (c : Course ℝ) (x : ℝ) :
    Remembers f start (seen ++ [x]) (s.follow c ⟨x, f x⟩).1 := by
  rw [Progress.follow]
  split
  case isTrue worst =>
    rw [Progress.isWorst, Bool.and_eq_true, Bool.and_eq_true] at worst
    have above : s.first.y < f x := of_decide_eq_true worst.1.1
    exact ⟨remembers.best.passed (remembers.first.trans above.le), remembers.first⟩
  case isFalse =>
    have accepted := remembers.accept x
    exact ⟨accepted.best, accepted.first⟩

end Remembers

theorem Refines.lowest (refines : Refines f c s x xs best) (remembers : Remembers f start seen s) :
    Lowest f start (seen ++ xs) best := by
  induction refines generalizing seen with
  | settled =>
    rw [List.append_nil]
    exact remembers.best
  | last s x => exact (remembers.follow c x).best
  | next apart left rest ih =>
    rw [List.append_cons]
    exact ih (remembers.follow c _)

theorem Approaches.lowest (approaches : Approaches f c s xs best)
    (remembers : Remembers f start seen s) : Lowest f start (seen ++ xs) best := by
  induction approaches generalizing seen with
  | reached =>
    rw [List.append_nil]
    exact remembers.best
  | @last s x => exact (remembers.afterTangent x).best
  | @next s x xs best some flat left rest ih =>
    have tried := remembers.afterTangent x
    rw [List.append_cons]
    exact ih ⟨tried.best, tried.first⟩
  | @bent s x xs best some bent rest =>
    have tried := remembers.afterTangent x
    rw [List.append_cons]
    exact rest.lowest ⟨tried.best, tried.first⟩

theorem Searches.lowest (searches : Searches f c xs best) : Lowest f c.start xs best := by
  obtain ⟨rest⟩ := searches
  exact rest.lowest (Remembers.begin f c)

/- What is given back is the least of all, and the start where nothing is lower. -/
theorem Lowest.isLeast (lowest : Lowest f start xs best) :
    IsLeast (insert start (f '' {x | x ∈ xs})) best.y := by
  refine ⟨?_, ?_⟩
  · rcases lowest.kept with same | ⟨among, value, _⟩
    · rw [same]
      exact Set.mem_insert ..
    · exact Set.mem_insert_of_mem _ ⟨best.x, among, value.symm⟩
  · rintro _ (rfl | ⟨x, among, rfl⟩)
    · exact lowest.top
    · exact lowest.least x among

theorem Lowest.atStart (lowest : Lowest f start xs best) (none : ∀ x ∈ xs, start ≤ f x) :
    best = ⟨0, start⟩ := by
  rcases lowest.kept with same | ⟨among, value, lower⟩
  · exact same
  · rw [value] at lower
    exact absurd lower (not_lt.mpr (none _ among))

end LineSearch

/-! ### Along a step -/

namespace Surface

noncomputable def course (p : Point ℝ) (step : Array ℝ) (slope : ℝ) (prec : Precision ℝ) :
    LineSearch.Course ℝ :=
  ⟨prec, p.value, slope, LineSearch.leastMultiple prec p.x step⟩

/- A trace after a question. -/
noncomputable def asked (s : Surface ℝ) (x : Array ℝ) (t : Trace ℝ) : Trace ℝ :=
  ⟨t.values.push (s.space.external x), t.slopes, (t.sound && decide (x.size ≤ s.space.dimension)) &&
    decide (s.objective.reads (s.space.external x) ≤ (s.space.external x).size)⟩

theorem runValue (s : Surface ℝ) (x : Array ℝ) (t : Trace ℝ) :
    (s.value x).run t = (s.worth x, s.asked x t) := rfl

theorem afterAsked (s : Surface ℝ) (x : ℝ → Array ℝ) (xs : List ℝ) (t : Trace ℝ) :
    let u := LineSearch.after (fun v => s.asked (x v)) xs t
    u.values = t.values ++ (xs.map fun v => s.space.external (x v)).toArray ∧ u.slopes = t.slopes ∧
      (u.sound ↔ t.sound ∧ ∀ v ∈ xs, s.Answers (x v)) := by
  induction xs generalizing t with
  | nil => simp [LineSearch.after]
  | cons v rest ih =>
    obtain ⟨values, slopes, sound⟩ := ih (s.asked (x v) t)
    refine ⟨values.trans ?_, slopes, sound.trans ?_⟩
    · simp [asked]
    · simp [asked, Answers, and_assoc]

/- A line search comes to an end, after trials that are all asked in order. -/
theorem lineSearchEnds (s : Surface ℝ) (p : Point ℝ) (step : Array ℝ) (slope : ℝ) (prec : Precision ℝ)
    (t : Trace ℝ) : ∃ xs best,
      LineSearch.Searches (fun x => s.worth (p.along step x)) (course p step slope prec) xs best ∧
      (s.lineSearch p step slope prec).run t =
        (best, LineSearch.after (fun x => s.asked (p.along step x)) xs
          ((Eval.expect (p.x.size == step.size)).run t).2) :=
  LineSearch.runEnds (fun x t => s.runValue (p.along step x) t) (course p step slope prec)
    ((Eval.expect (p.x.size == step.size)).run t).2

theorem lineSearchYields {fits : Prop} {s : Surface ℝ} {p : Point ℝ} {step : Array ℝ}
    (ready : fits → p.x.size = step.size ∧ ∀ x, s.Answers (p.along step x)) (slope : ℝ)
    (prec : Precision ℝ) (t : Trace ℝ) : Yields fits (s.lineSearch p step slope prec) t 8
      fun best => ∃ xs, LineSearch.Lowest (fun x => s.worth (p.along step x)) p.value xs best := by
  obtain ⟨xs, best, searches, run⟩ := s.lineSearchEnds p step slope prec t
  obtain ⟨values, -, sound⟩ := s.afterAsked (p.along step) xs
    ((Eval.expect (p.x.size == step.size)).run t).2
  refine ⟨?_, ?_, fun fit => ?_⟩ <;> rw [run]
  · exact ⟨xs, searches.lowest⟩
  · have calls := congrArg Array.size values
    rw [Array.size_append] at calls
    simp only [List.size_toArray, List.length_map] at calls
    exact calls.le.trans (Nat.add_le_add_left searches.few t.calls)
  · obtain ⟨width, answers⟩ := ready fit
    refine Bool.eq_iff_iff.mpr (sound.trans ?_)
    rw [Eval.soundExpect, width, beq_self_eq_true, Bool.and_true]
    exact and_iff_left fun x _ => answers x

/- A line search ends after at most eight questions. It gives back the least of the start and of all
values it saw, with the multiple of the step where that value is; where nothing was lower than the
start, that multiple is zero. -/
theorem lineSearchLowest {s : Surface ℝ} {p : Point ℝ} {step : Array ℝ} (width : step.size = p.x.size)
    (value : p.value = s.worth p.x) (slope : ℝ) (prec : Precision ℝ) (t : Trace ℝ) : ∃ xs best u,
      LineSearch.Searches (fun x => s.worth (p.along step x)) (course p step slope prec) xs best ∧
      (s.lineSearch p step slope prec).run t = (best, u) ∧
      (u.values = t.values ++ (xs.map fun x => s.space.external (p.along step x)).toArray ∧
        u.slopes = t.slopes ∧ (u.sound ↔ t.sound ∧ ∀ x ∈ xs, s.Answers (p.along step x))) ∧
      xs.length ≤ 8 ∧ best.y = s.worth (p.along step best.x) ∧
      IsLeast (insert p.value ((fun x => s.worth (p.along step x)) '' {x | x ∈ xs})) best.y ∧
      ((∀ x ∈ xs, p.value ≤ s.worth (p.along step x)) → best.x = 0) := by
  obtain ⟨xs, best, searches, run⟩ := s.lineSearchEnds p step slope prec t
  have checked : (Eval.expect (p.x.size == step.size)).run t = ((), t) := by
    rw [width, beq_self_eq_true]
    change ((), (⟨t.values, t.slopes, t.sound && true⟩ : Trace ℝ)) = ((), t)
    rw [Bool.and_true]
  rw [checked] at run
  have lowest : LineSearch.Lowest _ p.value xs best := searches.lowest
  have known : best.y = s.worth (p.along step best.x) := by
    rcases lowest.kept with same | ⟨_, here, _⟩
    · rw [same, alongZero width, value]
    · exact here
  exact ⟨xs, best, _, searches, run, s.afterAsked (p.along step) xs t, searches.few, known,
    lowest.isLeast, fun none => by rw [lowest.atStart none]⟩

/- A square, searched from one towards its minimum and seen there. -/
theorem lineSearchLowestSquare :
    let s : Surface ℝ := ⟨.plain fun x => entry x 0 ^ 2, 1, .numbered #[1] #[0.1] 1⟩
    let p : Point ℝ := .plain #[1] 1
    (#[-1] : Array ℝ).size = p.x.size ∧ p.value = s.worth p.x ∧ ∃ best u,
      (s.lineSearch p #[-1] (-2) .machine).run {} = (best, u) ∧ u.sound ∧ u.calls ≤ 8 ∧
        best.y = 0 := by
  intro s p
  have plain : s.space.Plain 1 := Space.numberedPlain _ _ _
  have worth (x : Array ℝ) (size : x.size = 1) : s.worth x = entry x 0 ^ 2 := by
    rw [Surface.worth, plain.external size]
    rfl
  have width : (#[-1] : Array ℝ).size = p.x.size := rfl
  have value : p.value = s.worth p.x := by
    rw [worth _ rfl]
    exact (one_pow 2).symm
  obtain ⟨xs, best, u, searches, run, ⟨values, -, sound⟩, few, -, least, -⟩ :=
    s.lineSearchLowest width value (-2) .machine {}
  refine ⟨width, value, best, u, run, sound.mpr ⟨rfl, fun x _ => ⟨?_, Nat.zero_le _⟩⟩, ?_, ?_⟩
  · exact (Point.sizeAlong width x).le.trans_eq plain.dimension.symm
  · rw [Trace.calls, values]
    simpa using few
  · have whole : s.worth (p.along #[-1] 1) = 0 := by
      have short : 0 < (Vector.scale (#[-1] : Array ℝ) 1).size := by
        rw [Vector.sizeScale]
        exact one_pos
      rw [worth _ (Point.sizeAlong width 1), Point.along, Vector.entryAdd one_pos short]
      simp [Vector.scale, entry, p, Point.plain]
    obtain ⟨_⟩ := searches
    refine le_antisymm ?_ ?_
    · rw [← whole]
      exact least.2 (Set.mem_insert_of_mem _ ⟨1, List.mem_cons_self, rfl⟩)
    · rcases least.1 with same | ⟨x, -, same⟩
      · rw [same]
        exact zero_le_one
      · rw [← same]
        dsimp only
        rw [worth _ (Point.sizeAlong width x)]
        exact sq_nonneg _

end Surface
end ParamFit
