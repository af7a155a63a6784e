import ParamFit.Proofs.Pursuit

/-! Where a chase along one line asks. The parameter that is led stands at a step; all others move
within their limits. A step is cut at the limit ahead, except the first one, which is zero; nothing
cuts a step at the limit behind. A crossing that is found lies near a step that was tried, or where a
parabola from the first trial puts it. -/
namespace ParamFit

/- Declarations that differ in the value of one parameter, and in what a search may move. -/
structure Space.Carried (i : ℕ) (s t : Space ℝ) : Prop where
  free : t.free = s.free
  size : t.parameters.size = s.parameters.size
  lower : ∀ j, (t.parameterAt j).lower = (s.parameterAt j).lower
  upper : ∀ j, (t.parameterAt j).upper = (s.parameterAt j).upper
  value : ∀ j, j ∉ s.free → i ≠ j → (t.parameterAt j).value = (s.parameterAt j).value

namespace Space.Carried
variable {i : ℕ} {s t u : Space ℝ}

theorem refl (i : ℕ) (s : Space ℝ) : s.Carried i s :=
  ⟨rfl, rfl, fun _ => rfl, fun _ => rfl, fun _ _ _ => rfl⟩

theorem moved (carried : s.Carried i t) (further : t.Moved u) : s.Carried i u where
  free := further.free.trans carried.free
  size := further.size.trans carried.size
  lower j := (further.lower j).trans (carried.lower j)
  upper j := (further.upper j).trans (carried.upper j)
  value j fixed other := by
    rw [further.parameterKept (carried.free.symm ▸ fixed), carried.value j fixed other]

theorem set (carried : s.Carried i t) (v : ℝ) : s.Carried i (t.setValueAt i v) where
  free := carried.free
  size := (Array.size_modify ..).trans carried.size
  lower j := (lowerUpdate (f := (·.setValue v)) fun _ => rfl).trans (carried.lower j)
  upper j := (upperUpdate (f := (·.setValue v)) fun _ => rfl).trans (carried.upper j)
  value j fixed other := by
    refine Eq.trans ?_ (carried.value j fixed other)
    exact congrArg Parameter.value (parameterOther other (·.setValue v))

end Space.Carried

namespace Lead

/- A point that a chase may ask. -/
structure Reaches (l : Lead ℝ) (base : Space ℝ) (limit : ℝ) (x : Array ℝ) : Prop where
  size : x.size = base.parameters.size
  declared : ∀ j < base.parameters.size, j ∉ base.free → l.place ≠ j →
    entry x j = (base.parameterAt j).value
  allowed : ∀ j ∈ base.free, (base.parameterAt j).Allows (entry x j)
  led : ∃ a, (a = 0 ∨ a ≤ limit) ∧ entry x l.place = l.spot a

/- What a chase relies on between its trials. -/
structure Holds (l : Lead ℝ) (base : Space ℝ) (f : Fit ℝ) : Prop where
  carried : base.Carried l.place f.state.space
  consistent : f.state.space.Consistent
  descends : f.algorithm = .descent

/- A fit in which the parameter that is led stands at a step. -/
noncomputable def put (l : Lead ℝ) (f : Fit ℝ) (a : ℝ) : Fit ℝ :=
  { f with state := { f.state with space := f.state.space.setValueAt l.place (l.spot a) } }

variable {l : Lead ℝ} {base : Space ℝ} {f : Fit ℝ} {limit a : ℝ}

theorem Holds.put (holds : l.Holds base f) (a : ℝ) : l.Holds base (l.put f a) :=
  ⟨holds.carried.set _, holds.consistent.setValueAt _ _, holds.descends⟩

/- The parameter that is led does not vary, so every point of a search there has it at the step. -/
theorem Holds.ledTo (holds : l.Holds base f) (fixed : l.place ∉ base.free)
    (inside : l.place < base.parameters.size) {x : Array ℝ}
    (admitted : (l.put f a).state.space.Admits x) : entry x l.place = l.spot a := by
  have carried := holds.carried
  have stays : l.place ∉ f.state.space.free := carried.free.symm ▸ fixed
  have within : l.place < f.state.space.parameters.size := carried.size.symm ▸ inside
  refine (admitted.declared l.place ((Array.size_modify ..).symm ▸ within) stays).trans ?_
  exact congrArg Parameter.value (Space.parameterHere within (·.setValue (l.spot a)))

theorem Holds.reaches (holds : l.Holds base f) (fixed : l.place ∉ base.free)
    (inside : l.place < base.parameters.size) (cut : a = 0 ∨ a ≤ limit) {x : Array ℝ}
    (admitted : (l.put f a).state.space.Admits x) : l.Reaches base limit x := by
  have carried := (holds.put a).carried
  refine ⟨admitted.size.trans carried.size, fun j within kept other => ?_, fun j varies => ?_,
    a, cut, holds.ledTo fixed inside admitted⟩
  · rw [← carried.value j kept other]
    exact admitted.declared j (carried.size.symm ▸ within) (carried.free.symm ▸ kept)
  · obtain ⟨above, below⟩ := admitted.allowed j (carried.free.symm ▸ varies)
    exact ⟨carried.lower j ▸ above, carried.upper j ▸ below⟩

end Lead

theorem Minimum.stateValidLast {α : Type} [Scalar α] (m : Minimum α) :
    m.state.valid = m.last.isValid := by
  rw [state, FitState.ofKnowledge]
  split <;> rfl

theorem Minimum.stateValid {α : Type} [Scalar α] {m : Minimum α} (valid : m.isValid) :
    m.state.valid := by
  rw [isValid, Bool.and_eq_true, Bool.and_eq_true] at valid
  exact m.stateValidLast ▸ valid.1.1

theorem Fit.minimizeRun {α : Type} [Spectral α] {f : Fit α} (valid : f.state.valid) (maxCalls : ℕ)
    (tolerance : α) (t : Trace α) :
    (f.minimizeWith maxCalls tolerance).run t =
      let (min, u) := (f.searchFrom (f.allowance maxCalls) tolerance).run {}
      (.ok ({ f with state := min.state, calls := f.calls + min.calls }, min), t.append u) := by
  rw [minimizeWith, if_neg (by simp [valid])]
  rfl

theorem Fit.searchFromSpends {f : Fit ℝ} (descends : f.algorithm = .descent) (maxCalls : ℕ)
    (tolerance : ℝ) : 0 < ((f.searchFrom maxCalls tolerance).run {}).2.calls := by
  have seed : f.seed = f.surface.descentSeed f.method f.strategy f.settings.check f.state := by
    rw [Fit.seed, descends]
    rfl
  have begun := f.surface.descentSeedSpends f.method f.strategy f.settings.check f.state {}
  rw [← seed] at begun
  refine lt_of_lt_of_le begun (Asks.grows (s := f.surface) (P := anywhere) ?_ _)
  refine .bind .calls fun _ => .ite (.pure _) ?_
  rw [descends]
  exact Surface.descendAsks (anywhereInside _) _ _ _ _ _

namespace Hunt
variable {h : Hunt ℝ} {l : Lead ℝ} {base : Space ℝ}

/- A value of the objective so near to the level that the first trial decides. -/
def Guesses (h : Hunt ℝ) (a : ℝ) : Prop :=
  ∃ y, h.profile.base + 0.1 * h.profile.rise ≤ y ∧ |y - h.aim| < h.valueTolerance ∧
    a = Approach.quadraticGuess h y

/- Where a crossing that is found lies. -/
def Arrives (h : Hunt ℝ) (c : Crossing ℝ) (tried : Set ℝ) : Prop :=
  c.isValid → (∃ a ∈ tried, |c.value - a| < h.stepTolerance c.value) ∨ h.Guesses c.value

/- The tracker between two trials: what it minimizes next may be minimized. -/
def Ready (l : Lead ℝ) (base : Space ℝ) (tr : Tracker ℝ) : Prop :=
  l.Holds base tr.fit ∧ tr.fit.state.valid

/- What a chase along `l` does from steps that were tried. -/
abbrev Follows {β : Type} (h : Hunt ℝ) (l : Lead ℝ) (base : Space ℝ) (K : Set ℝ) (m : Chase ℝ β)
    (post : β → Set ℝ → Prop) : Prop :=
  Pursues (l.Reaches base h.limit) l (Ready l base) (Ready l base) K m post h.Arrives

theorem missing (c : Crossing ℝ) (T : Set ℝ) (invalid : c.isValid = false) : h.Arrives c T :=
  fun valid => absurd valid (by simp [invalid])

theorem lost {β : Type} {K : Set ℝ} {post : β → Set ℝ → Prop} :
    h.Follows l base K (h.giveUp : Chase ℝ β) post := .giveUp fun c T _ => missing c T

theorem placed (line : h.line = [l]) {f : Fit ℝ} (within : l.place < f.state.space.parameters.size)
    (a : ℝ) : h.place f a = .ok (l.put f a) := by
  have known : f.state.space.indexOf (.index l.place) = .ok l.place := if_pos within
  rw [place, line, List.foldlM_cons, Fit.perform, FitState.perform, Space.setValue, known]
  rfl

section
variable (fixed : l.place ∉ base.free) (inside : l.place < base.parameters.size)
include fixed inside

/- A minimization at a step asks there, at least once. -/
theorem minimizeStays {f : Fit ℝ} (holds : l.Holds base f) (valid : f.state.valid) {a : ℝ}
    (cut : a = 0 ∨ a ≤ h.limit) (maxCalls : ℕ) (tolerance : ℝ) {J : Tracker ℝ → Prop} {K : Set ℝ}
    {ended : Crossing ℝ → Set ℝ → Prop} :
    Pursues (l.Reaches base h.limit) l J J K
      (liftM ((l.put f a).minimizeWith maxCalls tolerance) : Chase ℝ _)
      (fun answer T => ∃ g m, answer = .ok (g, m) ∧ l.Holds base g ∧
        (m.isValid → g.state.valid) ∧ a ∈ T) ended := by
  intro tr t held asked known
  have put := holds.put a
  have run := Fit.minimizeRun (f := l.put f a) valid maxCalls tolerance t
  have stays := Fit.searchFromStays put.consistent ((l.put f a).allowance maxCalls) tolerance
  have moved := stays.answer {}
  have admitted := stays.within (Trace.emptyWithin _)
  have some := Fit.searchFromSpends put.descends ((l.put f a).allowance maxCalls) tolerance
  generalize ((l.put f a).searchFrom _ tolerance).run {} = r at run moved admitted some
  obtain ⟨m, u⟩ := r
  have here : a ∈ l.tried (t.append u) := by
    obtain ⟨x, among⟩ := Array.exists_mem_of_size_pos some
    refine ⟨x, Array.mem_append_right _ among, ?_⟩
    exact holds.ledTo fixed inside (admitted.values x among)
  have reached : (t.append u).Within (l.Reaches base h.limit) := by
    refine asked.append ⟨fun x among => ?_, fun x among => ?_⟩
    · exact holds.reaches fixed inside cut (admitted.values x among)
    · exact holds.reaches fixed inside cut (admitted.slopes x among)
  have whole : ((liftM ((l.put f a).minimizeWith maxCalls tolerance) : Chase ℝ _).run.run tr).run t =
      ((.ok ((l.put f a).minimizeWith maxCalls tolerance |>.run t).1, tr),
        ((l.put f a).minimizeWith maxCalls tolerance |>.run t).2) := rfl
  rw [whole, run]
  refine ⟨reached, l.triedAppend t u, fun answer same => ⟨held, ?_⟩, nofun⟩
  cases same
  refine ⟨_, m, rfl, ?_, Minimum.stateValid, here⟩
  exact ⟨put.carried.moved moved, moved.consistent put.consistent, put.descends⟩

theorem probeStays (line : h.line = [l]) {a : ℝ} (cut : a = 0 ∨ a ≤ h.limit) (limited : Bool)
    {K : Set ℝ} :
    Pursues (l.Reaches base h.limit) l (Ready l base) (Ready l base) K (h.probe a limited)
      (fun _ T => a ∈ T) fun c T => a ∈ T ∧ c.isValid = false := by
  refine .bind .get fun tr T _ ⟨holds, valid⟩ => ?_
  rw [placed line (holds.carried.size.symm ▸ inside)]
  refine .bind (minimizeStays fixed inside holds valid cut _ _) fun answer T _ known => ?_
  obtain ⟨g, m, rfl, kept, stays, here⟩ := known
  let left (tr : Tracker ℝ) : Prop := l.Holds base tr.fit ∧ (m.isValid → tr.fit.state.valid)
  have put : left ⟨g, tr.calls + m.calls, ⟨a, m.value, m.calls⟩ :: tr.trials⟩ := ⟨kept, stays⟩
  refine .bind (.set put) fun _ T more _ => ?_
  have stopped (v : Verdict) (other : v ≠ .found) :
      Pursues (l.Reaches base h.limit) l left (Ready l base) T (stop m 0 v : Chase ℝ (Minimum ℝ))
        (fun _ T => a ∈ T) fun c T => a ∈ T ∧ c.isValid = false := by
    refine .stop fun c U later _ verdict => ⟨later (more here), ?_⟩
    rw [Crossing.isValid, verdict]
    exact beq_eq_false_iff_ne.mpr other
  refine .ite (fun _ => stopped _ nofun) fun _ => .ite (fun _ => ?_) fun found => ?_
  · exact .giveUp fun c U later invalid => ⟨later (more here), invalid⟩
  refine .ite (fun _ => stopped _ nofun) fun _ => .ite (fun _ => stopped _ nofun) fun _ => ?_
  refine .pure (fun tr held => ⟨held.1, held.2 ?_⟩) fun U later => later (more here)
  simpa using found

end

/-! ### The search -/

section
variable (line : h.line = [l]) (fixed : l.place ∉ base.free) (inside : l.place < base.parameters.size)
include line fixed inside

theorem probeFollows {a : ℝ} (cut : a = 0 ∨ a ≤ h.limit) (limited : Bool) (K : Set ℝ) :
    h.Follows l base K (h.probe a limited) fun _ T => a ∈ T :=
  (probeStays fixed inside line cut limited).weaken (fun _ _ => id)
    fun c T _ ended => missing c T ended.2

omit line fixed inside in
theorem capCut (h : Hunt ℝ) (a : ℝ) : (h.cap a).1 = 0 ∨ (h.cap a).1 ≤ h.limit := by
  rw [cap]
  split
  case isTrue => exact .inr (le_refl _)
  case isFalse within => exact .inr (not_lt.mp within)

end
end Hunt

namespace Trio
variable {t : Trio ℝ} {T U : Set ℝ}

/- All three samples of a trio come from trials. -/
def Tried (t : Trio ℝ) (T : Set ℝ) : Prop := ∀ j, (t.get j).x ∈ T

theorem Tried.more (tried : t.Tried T) (more : T ⊆ U) : t.Tried U := fun j => more (tried j)

theorem Tried.set (tried : t.Tried T) (i : Fin 3) {p : Sample ℝ} (here : p.x ∈ T) :
    (t.set i p).Tried T := by
  intro j
  have known := tried j
  fin_cases i <;> fin_cases j <;> first | exact here | exact known

end Trio

namespace Approach
variable {h : Hunt ℝ} {l : Lead ℝ} {base : Space ℝ}

/- The trials between which a level is sought, as far as the first two. -/
def Tried (s : Approach ℝ) (T : Set ℝ) : Prop := s.trio.first.x ∈ T ∧ s.trio.second.x ∈ T

section
variable (line : h.line = [l]) (fixed : l.place ∉ base.free) (inside : l.place < base.parameters.size)
include line fixed inside

theorem climbStays {s : Approach ℝ} {K : Set ℝ} (tried : s.Tried K) (i fuel : ℕ) :
    h.Follows l base K (climb h s i fuel) Tried := by
  induction fuel generalizing s i K with
  | zero => exact .pure (fun _ => id) fun T more => ⟨more tried.1, more tried.2⟩
  | succ fuel ih =>
    unfold climb
    dsimp only
    refine .bind (Hunt.probeFollows line fixed inside (h.capCut _) _ K) fun m T more here => ?_
    have next : (s.advance (h.cap (s.trio.second.x + 0.2 * Scalar.ofNat (i + 1))).1 m).Tried T :=
      ⟨more tried.2, here⟩
    refine .ite (fun _ => ?_) fun _ => ih next _
    exact .pure (fun _ => id) fun U later => ⟨later next.1, later next.2⟩

theorem ascendStays {s : Approach ℝ} {K : Set ℝ} (tried : s.Tried K) :
    h.Follows l base K (ascend h s) Tried := by
  have still (s : Approach ℝ) (K : Set ℝ) (tried : s.Tried K) :
      h.Follows l base K (pure s : Chase ℝ (Approach ℝ)) Tried :=
    .pure (fun _ => id) fun U later => ⟨later tried.1, later tried.2⟩
  refine .ite (fun _ => ?_) fun _ => still s K tried
  refine .bind (climbStays line fixed inside tried _ _) fun s T _ risen => ?_
  exact .ite (fun _ => Hunt.lost) fun _ => still s T risen

omit line fixed inside in
/- A step that is near enough to one of two trials is found. -/
theorem secantArrives {s : Approach ℝ} {K : Set ℝ} (tried : s.Tried K) {a : ℝ}
    (arrived : secantArrived h s a) {c : Crossing ℝ} {T : Set ℝ} (more : K ⊆ T)
    (value : c.value = a) : h.Arrives c T := by
  rw [secantArrived, Bool.and_eq_true, decide_eq_true_eq, Exact.lt, Exact.min] at arrived
  rcases min_lt_iff.mp arrived.1 with near | near
  · exact fun _ => .inl ⟨_, more tried.1, value ▸ near⟩
  · exact fun _ => .inl ⟨_, more tried.2, value ▸ near⟩

theorem secantsStays {s : Approach ℝ} {K : Set ℝ} (tried : s.Tried K) (fuel : ℕ) :
    h.Follows l base K (secants h s fuel) fun r T => r.1.trio.Tried T := by
  induction fuel generalizing s K with
  | zero => exact Hunt.lost
  | succ fuel ih =>
    unfold secants
    -- a test that ends the chase comes before the rest, which is the same for all of them
    refine .ite (fun _ => .leave Hunt.lost) fun _ => ?_
    refine .ite (fun arrived => .leave (.stop fun c T more value _ => ?_)) fun _ => ?_
    · exact secantArrives tried arrived more value
    refine .ite (fun _ => .leave Hunt.lost) fun _ => ?_
    refine .bind (Hunt.probeFollows line fixed inside (h.capCut _) _ K) fun m T more here => ?_
    have whole : Trio.Tried { s.trio with third := ⟨_, m.value⟩ } T
      | 0 => more tried.1
      | 1 => more tried.2
      | 2 => here
    refine .ite (fun _ => .pure (fun _ => id) fun U later => whole.more later) fun _ => ?_
    -- the third trial takes the place of the worst, or of the second before the next ascent
    refine .ite (fun _ => ih ?_) fun _ => .ite (fun _ => Hunt.lost) fun _ => ?_
    · exact ⟨whole.set _ here 0, whole.set _ here 1⟩
    · exact .bind (ascendStays line fixed inside ⟨more tried.1, here⟩) fun s T _ risen => ih risen

omit line fixed inside in
theorem nearestArrives {s : Approach ℝ} {K : Set ℝ} (tried : s.trio.Tried K) (best : Fin 3) {a : ℝ}
    (near : Scalar.abs (a - (s.trio.get best).x) < h.stepTolerance a) {c : Crossing ℝ} {T : Set ℝ}
    (more : K ⊆ T) (value : c.value = a) : h.Arrives c T :=
  fun _ => .inl ⟨_, more (tried best), value ▸ near⟩

theorem parabolasStays {s : Approach ℝ} {K : Set ℝ} (tried : s.trio.Tried K) (best : Fin 3)
    (fuel : ℕ) : h.Follows l base K (parabolas h s best fuel) fun _ _ => False := by
  induction fuel generalizing s K best with
  | zero => exact Hunt.lost
  | succ fuel ih =>
    unfold parabolas
    split
    case h_2 => exact Hunt.lost
    case h_1 a slope _ =>
    refine .ite (fun near => .leave (.stop fun c T more value _ => ?_)) fun _ => ?_
    · exact nearestArrives tried best near.1 more value
    split
    case h_2 => exact Hunt.lost
    case h_1 left right out _ =>
    refine .bind (.expect _) fun _ T known _ => ?_
    refine .bind (Hunt.probeFollows line fixed inside (h.capCut _) _ T) fun m U more here => ?_
    exact ih ((tried.more (known.trans more)).set out here) out

/- A whole search tries the step zero, whatever the limits are. It always ends with a crossing. -/
theorem searchStays : Pursues (l.Reaches base h.limit) l (Hunt.Ready l base) (Hunt.Ready l base) ∅
    (search h) (fun _ _ => False) fun c T => 0 ∈ T ∧ h.Arrives c T := by
  have first := Hunt.probeStays fixed inside line (.inl rfl) (h.limit < 0 + h.tolerance) (K := ∅)
  refine .bind (first.weaken (fun _ _ zero => zero) fun c T _ ended => ?_) fun m K _ zero => ?_
  · exact ⟨ended.1, Hunt.missing c T ended.2⟩
  have later {c : Crossing ℝ} {T : Set ℝ} (more : K ⊆ T) (arrives : h.Arrives c T) :
      0 ∈ T ∧ h.Arrives c T := ⟨more zero, arrives⟩
  refine Pursues.weaken (?_ : h.Follows l base K _ _) (fun _ _ => id) fun c T more => later more
  refine .ite (fun near => .leave (.stop fun c T _ value _ _ => ?_)) fun _ => ?_
  · exact .inr ⟨_, (Exact.max ..).symm ▸ le_max_right _ _, near, value⟩
  refine .bind (Hunt.probeFollows line fixed inside (h.capCut _) _ K) fun m T more here => ?_
  refine .bind (ascendStays line fixed inside ⟨more zero, here⟩) fun s T _ risen => ?_
  refine .bind (secantsStays line fixed inside risen _) fun r T _ tried => ?_
  exact parabolasStays line fixed inside tried r.2 _

end
end Approach
end ParamFit
