import ParamFit.Proofs.Reaching
import ParamFit.Proofs.Truth

/-! A minimization asks admissible points only: parameters that vary keep their limits, all others
stand where they are declared. A search that moves in internal coordinates may go anywhere, because
every transformation ends within the limits; a scan asks external values, so its interval is cut at
the limits and begins from values that keep them. -/
namespace ParamFit

/- A value within the limits of a parameter. -/
structure Parameter.Allows (p : Parameter ℝ) (v : ℝ) : Prop where
  above : ∀ lower ∈ p.lower, lower ≤ v
  below : ∀ upper ∈ p.upper, v ≤ upper

theorem Limits.hyperbolaLeast (v : ℝ) : 1 ≤ hyperbola v := by
  refine Real.one_le_sqrt.mpr ?_
  have square : 0 ≤ v * v := mul_self_nonneg v
  simpa using square

theorem Parameter.toExternalAllowed {p : Parameter ℝ} (ordered : p.Ordered) (v : ℝ) :
    p.Allows (p.limits.toExternal v) := by
  have high := Limits.hyperbolaLeast v
  unfold limits
  cases lower : p.lower with
  | none =>
    cases upper : p.upper with
    | none => exact ⟨by simp [lower], by simp [upper]⟩
    | some hi =>
      refine ⟨by simp [lower], fun u among => ?_⟩
      rw [upper] at among
      cases among
      simp only [Limits.toExternal, Exact.add, Exact.sub, Exact.one]
      linarith
  | some lo =>
    cases upper : p.upper with
    | none =>
      refine ⟨fun l among => ?_, by simp [upper]⟩
      rw [lower] at among
      cases among
      simp only [Limits.toExternal, Exact.add, Exact.sub, Exact.one]
      linarith
    | some hi =>
      have apart : lo < hi := ordered lo hi lower upper
      have least := Real.neg_one_le_sin v
      have most := Real.sin_le_one v
      have value : (Limits.both lo hi).toExternal v = lo + 0.5 * (hi - lo) * (Real.sin v + 1) := rfl
      refine ⟨fun l among => ?_, fun u among => ?_⟩
      · rw [lower] at among
        cases among
        rw [value]
        nlinarith
      · rw [upper] at among
        cases among
        rw [value]
        nlinarith

namespace Space

/- A point that may be asked: parameters that vary keep their limits, others stay where they are. -/
structure Admits (s : Space ℝ) (x : Array ℝ) : Prop where
  size : x.size = s.parameters.size
  declared : ∀ i < s.parameters.size, i ∉ s.free → entry x i = (s.parameterAt i).value
  allowed : ∀ i ∈ s.free, (s.parameterAt i).Allows (entry x i)

/- All parameters that vary have values within their limits. -/
def Settled (s : Space ℝ) : Prop := ∀ i ∈ s.free, (s.parameterAt i).Allows (s.parameterAt i).value

variable {s t : Space ℝ}

theorem Moved.parameterKept {α : Type} [Scalar α] {s t : Space α} (moved : s.Moved t) {i : ℕ}
    (fixed : i ∉ s.free) : t.parameterAt i = s.parameterAt i := by
  rw [parameterAt, parameterAt, Array.getD_eq_getD_getElem?, Array.getD_eq_getD_getElem?,
    moved.kept i fixed]

theorem Moved.allows (moved : s.Moved t) {i : ℕ} {v : ℝ} :
    (t.parameterAt i).Allows v ↔ (s.parameterAt i).Allows v := by
  constructor
  · rintro ⟨above, below⟩
    exact ⟨moved.lower i ▸ above, moved.upper i ▸ below⟩
  · rintro ⟨above, below⟩
    exact ⟨(moved.lower i).symm ▸ above, (moved.upper i).symm ▸ below⟩

theorem Moved.admits (moved : s.Moved t) {x : Array ℝ} (admitted : t.Admits x) : s.Admits x where
  size := admitted.size.trans moved.size
  declared i inside fixed := by
    rw [← moved.parameterKept fixed]
    exact admitted.declared i (moved.size ▸ inside) (moved.free ▸ fixed)
  allowed i free := moved.allows.mp (admitted.allowed i (moved.free ▸ free))

theorem Consistent.externalAdmitted (consistent : s.Consistent) {x : Array ℝ}
    (full : x.size = s.dimension) : s.Admits (s.external x) := by
  have cells : s.values.size = s.parameters.size := by rw [consistent.cached, Array.size_map]
  refine ⟨externalSize.trans cells, fun i inside fixed => ?_, fun i free => ?_⟩
  · rw [entry, parameterAt, Array.getD_eq_getD_getElem?, externalKept fixed, consistent.cached]
    simp [inside]
  · obtain ⟨p, here, -⟩ := consistent.varying free
    obtain ⟨v, found⟩ := externalFree full.ge free (cells ▸ consistent.within free)
    rw [entry, Array.getD_eq_getD_getElem?, found, Option.getD_some]
    rw [parameterDeclared here]
    exact Parameter.toExternalAllowed (consistent.ordered here) v

/-! ### Scans -/

theorem entryDeclared (s : Space ℝ) (i : ℕ) :
    entry s.declaredValues i = (s.parameterAt i).value := by
  rw [entry, declaredValues, parameterAt, Array.getD_eq_getD_getElem?, Array.getElem?_map,
    Array.getD_eq_getD_getElem?]
  cases s.parameters[i]? <;> rfl

theorem declaredStill (s : Space ℝ) (i : ℕ) :
    s.declaredValues.setIfInBounds i (s.parameterAt i).value = s.declaredValues := by
  refine Array.ext_getElem? fun j => ?_
  rw [Array.getElem?_setIfInBounds]
  split
  case isTrue same =>
    subst same
    split
    case isTrue inside =>
      rw [declaredValues, Array.size_map] at inside
      rw [declaredValues, Array.getElem?_map, declaredHere inside, Option.map_some]
    case isFalse outside => exact (Array.getElem?_eq_none (not_lt.mp outside)).symm
  case isFalse => rfl

/- The declared values with one of them exchanged. -/
theorem Settled.admits (settled : s.Settled) {i : ℕ} (free : i ∈ s.free) {v : ℝ}
    (allowed : (s.parameterAt i).Allows v) : s.Admits (s.declaredValues.setIfInBounds i v) := by
  have other {j : ℕ} (apart : i ≠ j) :
      entry (s.declaredValues.setIfInBounds i v) j = (s.parameterAt j).value := by
    rw [← entryDeclared, entry, entry, Array.getD_eq_getD_getElem?, Array.getD_eq_getD_getElem?,
      Array.getElem?_setIfInBounds_ne apart]
  refine ⟨by simp [declaredValues], fun j _ fixed => other fun same => fixed (same ▸ free),
    fun j varies => ?_⟩
  by_cases same : i = j
  · subst same
    by_cases inside : i < s.declaredValues.size
    · simpa [entry, inside] using allowed
    · rw [Array.setIfInBounds, dif_neg inside, entryDeclared]
      exact settled i free
  · rw [other same]
    exact settled j varies

theorem parameterSet (s : Space ℝ) (i j : ℕ) (v e : ℝ) :
    ((s.setValueAt i v).setErrorAt i e).parameterAt j =
      if i = j ∧ j < s.parameters.size then ((s.parameterAt j).setValue v).setError e
      else s.parameterAt j := by
  have set : (s.setValueAt i v).parameterAt j = if i = j ∧ j < s.parameters.size then
      (s.parameterAt j).setValue v else s.parameterAt j := parameterUpdate ..
  have size : (s.setValueAt i v).parameters.size = s.parameters.size := Array.size_modify ..
  rw [setErrorAt, parameterUpdate, set, size]
  split
  · rfl
  · rfl

theorem Settled.setValueAt (settled : s.Settled) {i : ℕ} (free : i ∈ s.free) {v : ℝ}
    (allowed : (s.parameterAt i).Allows v) : (s.setValueAt i v).Settled := by
  have moved := Moved.setValueAt free v
  intro j varies
  have set : (s.setValueAt i v).parameterAt j = if i = j ∧ j < s.parameters.size then
      (s.parameterAt j).setValue v else s.parameterAt j := parameterUpdate ..
  rw [moved.allows, set]
  split
  case isTrue here => exact here.1 ▸ allowed
  case isFalse => exact settled j varies

end Space

/- What a search knows of a coordinate is set at its place. -/
theorem Knowledge.setParametersAt (k : Knowledge ℝ) (up : ℝ) {space : Space ℝ}
    (consistent : space.Consistent) {c i : ℕ} (placed : space.place? c = some i) :
    (k.setParameters up space).parameterAt i =
      ((space.parameterAt i).setValue (space.toExternal c (entry k.point.x c))).setError
        (space.externalError c (entry k.point.x c) (k.internalError up c)) := by
  have fold (l : List (ℕ × ℕ)) (s : Space ℝ) (inside : i < s.parameters.size)
      (values errors : ℕ → ℝ) (only : ∀ p ∈ l, p.1 = i → p.2 = c) {q : Parameter ℝ}
      (makes : ((s.parameterAt i).setValue (values c)).setError (errors c) = q)
      (has : (i, c) ∈ l ∨ s.parameterAt i = q) :
      (l.foldl (fun s p =>
        (s.setValueAt p.1 (values p.2)).setErrorAt p.1 (errors p.2)) s).parameterAt i = q := by
    induction l generalizing s with
    | nil => exact has.resolve_left nofun
    | cons p l ih =>
      obtain ⟨j, d⟩ := p
      have inner : i < ((s.setValueAt j (values d)).setErrorAt j (errors d)).parameters.size := by
        simpa [Space.setErrorAt, Space.setValueAt, Space.update] using inside
      have step := s.parameterSet j i (values d) (errors d)
      have again {p r : Parameter ℝ} (same : p = r) := congrArg
        (fun p : Parameter ℝ => (p.setValue (values c)).setError (errors c)) same
      by_cases same : j = i
      · obtain rfl := only _ (.head _) same
        have here := (step.trans (if_pos ⟨same, inside⟩)).trans makes
        -- to set the same once more changes nothing
        have twice := (again makes.symm).trans makes
        exact ih _ inner (fun q among => only q (.tail _ among)) ((again here).trans twice) (.inr here)
      · have still := step.trans (if_neg fun both => same both.1)
        refine ih _ inner (fun q among => only q (.tail _ among)) ((again still).trans makes) ?_
        exact has.imp (fun among => (List.mem_cons.mp among).resolve_left fun first =>
          same (congrArg Prod.fst first.symm)) still.trans
  refine fold _ _ (consistent.within (List.mem_of_getElem? placed))
    (fun i => space.toExternal i (entry k.point.x i))
    (fun i => space.externalError i (entry k.point.x i) (k.internalError up i)) ?_ rfl
    (.inl (List.mk_mem_zipIdx_iff_getElem?.mpr placed))
  rintro ⟨place, d⟩ among same
  -- no parameter has two coordinates
  have also : space.place? d = some place := List.mk_mem_zipIdx_iff_getElem?.mp among
  have there := consistent.coordinateOfPlace also
  rw [show place = i from same, consistent.coordinateOfPlace placed] at there
  exact (Option.some.inj there).symm

theorem Knowledge.setParametersValue (k : Knowledge ℝ) (up : ℝ) {space : Space ℝ}
    (consistent : space.Consistent) {c i : ℕ} (placed : space.place? c = some i) :
    ((k.setParameters up space).parameterAt i).value = space.toExternal c (entry k.point.x c) :=
  congrArg Parameter.value (k.setParametersAt up consistent placed)

/- What a search knows puts all parameters that vary within their limits. -/
theorem Knowledge.setParametersSettled (k : Knowledge ℝ) (up : ℝ) {space : Space ℝ}
    (consistent : space.Consistent) : (k.setParameters up space).Settled := by
  have moved := k.setParametersMoved up space
  intro j varies
  rw [moved.free] at varies
  obtain ⟨c, inside, found⟩ := List.mem_iff_getElem.mp varies
  have placed : space.place? c = some j := List.getElem?_eq_some_iff.mpr ⟨inside, found⟩
  obtain ⟨p, here, -⟩ := consistent.varying varies
  have place : space.place c = j := by
    rw [Space.place, List.getD_eq_getElem _ _ inside, found]
  rw [moved.allows, k.setParametersValue up consistent placed, Space.toExternal, Space.limits, place,
    Space.parameterDeclared here]
  exact Parameter.toExternalAllowed (consistent.ordered here) _

theorem Exact.ofNat (n : ℕ) : (Scalar.ofNat n : ℝ) = n := by
  simp only [Scalar.ofNat, OfScientific.ofScientific, Rat.ofScientific]
  norm_num
  exact NNRat.cast_natCast n

namespace Scan

/- Where a scan stands: the declarations have only moved, and all values keep their limits. -/
structure Keeps (origin : Space ℝ) (s : Scan ℝ) : Prop where
  moved : origin.Moved s.space
  settled : s.space.Settled

theorem intervalAllows {p : Parameter ℝ} {low high v : ℝ} (above : (interval p low high).1 ≤ v)
    (below : v ≤ (interval p low high).2) : p.Allows v := by
  refine ⟨fun lower among => ?_, fun upper among => ?_⟩
  · refine le_trans ?_ above
    rw [Option.mem_def] at among
    simp [interval, among]
  · refine le_trans below ?_
    rw [Option.mem_def] at among
    simp [interval, among]

theorem gridWithin {low high : ℝ} {steps : ℕ} (ordered : low ≤ high) (several : 2 ≤ steps) {v : ℝ}
    (among : v ∈ grid low high steps) : low ≤ v ∧ v ≤ high := by
  obtain ⟨i, inside, rfl⟩ := List.mem_map.mp among
  have most : (i : ℝ) ≤ steps - 1 := by
    have := List.mem_range.mp inside
    rw [le_sub_iff_add_le]
    exact_mod_cast this
  have parts : (0 : ℝ) < steps - 1 := by
    rw [sub_pos]
    exact_mod_cast several
  have wide : 0 ≤ high - low := sub_nonneg.mpr ordered
  have least : (0 : ℝ) ≤ i := i.cast_nonneg
  have share : i * ((high - low) / (steps - 1)) ≤ high - low := by
    rw [mul_div_assoc', div_le_iff₀ parts, mul_comm]
    exact mul_le_mul_of_nonneg_left most wide
  have step : 0 ≤ i * ((high - low) / (steps - 1)) := by positivity
  simp only [Exact.add, Exact.mul, Exact.div, Exact.sub, Exact.one, Exact.ofNat]
  constructor <;> linarith

variable {origin : Space ℝ} {f : Surface ℝ} {i : ℕ} (free : i ∈ origin.free)
include free

theorem visitStays {values : Array ℝ}
    (admitted : ∀ v, (origin.parameterAt i).Allows v → origin.Admits (values.setIfInBounds i v))
    {s : Scan ℝ} (keeps : s.Keeps origin) {vs : List ℝ}
    (allowed : ∀ v ∈ vs, (origin.parameterAt i).Allows v) (seen : List (Sample ℝ)) :
    Stays origin.Admits (visit f i values s seen vs) fun r => r.1.Keeps origin := by
  induction vs generalizing s seen with
  | nil => exact .pure keeps
  | cons v rest ih =>
    have here := allowed v (.head _)
    refine .bind (Surface.externalValueStays (admitted v here)) fun y _ => ?_
    refine ih ?_ (fun w among => allowed w (.tail _ among)) _
    have varies : i ∈ s.space.free := keeps.moved.free.symm ▸ free
    split
    · exact ⟨keeps.moved.trans (.setValueAt varies v),
        keeps.settled.setValueAt varies (keeps.moved.allows.mpr here)⟩
    · exact keeps

theorem runStays {s : Scan ℝ} (keeps : s.Keeps origin) (steps : ℕ) (low high : ℝ) :
    Stays origin.Admits (s.run f (.index i) steps low high) fun answer =>
      ∀ r, answer = .ok r → r.1.Keeps origin := by
  have varies : i ∈ s.space.free := keeps.moved.free.symm ▸ free
  have still (sample : Sample ℝ) (r : Scan ℝ × List (Sample ℝ))
      (same : Except.ok (s, [sample]) = (.ok r : Except (FitError ℝ) _)) : r.1.Keeps origin := by
    cases same
    exact keeps
  unfold run
  cases index : s.space.indexOf (.index i) with
  | error e => exact .pure fun _ failed => (by cases failed)
  | ok j =>
    obtain rfl : i = j := by
      rw [Space.indexOf] at index
      split at index
      · exact Except.ok.inj index
      · cases index
    refine .ite (fun _ => .pure (still _)) fun usable => ?_
    obtain ⟨_, several⟩ := not_or.mp usable
    refine .ite (fun _ => .pure fun _ failed => (by cases failed)) fun ordered => ?_
    refine .map ((visitStays free (fun v allowed => ?_) keeps (fun v among => ?_) _).weaken ?_)
    · exact keeps.moved.admits (keeps.settled.admits varies (keeps.moved.allows.mpr allowed))
    · obtain ⟨above, below⟩ := gridWithin (not_lt.mp ordered) (not_lt.mp several) among
      exact keeps.moved.allows.mp (intervalAllows above below)
    · rintro r kept _ ⟨⟩
      exact kept

end Scan

namespace Surface
variable {s : Surface ℝ}

theorem scanEachStays {origin : Space ℝ} (space : Space ℝ) {scan : Scan ℝ}
    (keeps : scan.Keeps origin) (x : Array ℝ) (best : ℝ) {l : List (ℕ × ℕ)}
    (free : ∀ p ∈ l, p.1 ∈ origin.free) :
    Stays origin.Admits (s.scanEach space scan x best l) fun _ => True := by
  induction l generalizing scan x best with
  | nil => exact .pure trivial
  | cons p rest ih =>
    refine .bind (Scan.runStays (free p (.head _)) keeps _ _ _) fun answer known => ?_
    have later : ∀ q ∈ rest, q.1 ∈ origin.free := fun q among => free q (.tail _ among)
    cases answer with
    | error e => exact .ite (fun _ => ih keeps _ _ later) fun _ => ih keeps _ _ later
    | ok r =>
      have next := known r rfl
      exact .ite (fun _ => ih next _ _ later) fun _ => ih next _ _ later

theorem scanAxesStays {seed : Seed ℝ} (consistent : seed.space.Consistent) :
    Stays seed.space.Admits (s.scanAxes seed) fun min => min.seed = seed := by
  let start := FitState.ofKnowledge seed.knowledge s.errorDef seed.space
  have keeps : Scan.Keeps seed.space ⟨start.space, seed.knowledge.value⟩ := by
    rw [FitState.ofKnowledgeSpace]
    exact ⟨seed.knowledge.setParametersMoved _ _,
      seed.knowledge.setParametersSettled _ consistent⟩
  refine .expect (.bindAny (scanEachStays _ keeps _ _ fun p among => ?_) fun _ => ?_)
  · exact List.fst_mem_of_mem_zipIdx among
  · exact .counting fun _ => .pure rfl

/- However it searches, it asks admissible points only, and what it ends with has only moved. -/
theorem searchStays (consistent : s.space.Consistent) (a : Algorithm) (m : GradientMethod ℝ)
    {seed : Seed ℝ} (known : s.Tells seed.knowledge) (same : seed.space = s.space)
    (st : Strategy ℝ) (maxCalls : ℕ) (edmval : ℝ) :
    Stays s.space.Admits (s.search a m seed st maxCalls edmval) fun min =>
      s.space.Moved min.seed.space := by
  have inside (x : Array ℝ) (full : x.size = s.space.dimension) := consistent.externalAdmitted full
  have moved : s.space.Moved seed.space := same.symm ▸ .refl _
  cases a with
  | descent =>
    exact (descendStays inside m known st maxCalls edmval).weaken fun _ reports =>
      (reports.delivers moved).moved
  | simplex =>
    exact (contractStays inside known maxCalls edmval).weaken fun _ reports =>
      (reports.delivers moved).moved
  | combined =>
    exact (descendTwiceStays inside m known moved st maxCalls edmval).weaken fun _ delivers =>
      delivers.moved
  | scan =>
    rw [← same] at consistent ⊢
    exact (scanAxesStays consistent).weaken fun _ origin => origin.symm ▸ .refl _

end Surface

namespace Fit
variable {f : Fit ℝ}

theorem searchFromStays (consistent : f.state.space.Consistent) (maxCalls : ℕ) (tolerance : ℝ) :
    Stays f.state.space.Admits (f.searchFrom maxCalls tolerance) fun min =>
      f.state.space.Moved min.state.space := by
  have inside (x : Array ℝ) (full : x.size = f.surface.space.dimension) :
      f.state.space.Admits (f.surface.space.external x) := consistent.externalAdmitted full
  have same : f.state.space.dimension = f.surface.space.dimension := rfl
  refine .bind (Surface.seedStays inside f.algorithm f.method f.strategy f.settings.check same) ?_
  rintro seed ⟨known, here⟩
  refine .counting fun _ => .ite (fun _ => .pure ?_) fun _ => ?_
  · rw [← here]
    exact Minimum.stateMoved { Minimum.ofSeed seed f.settings.errorDef with callLimit := true }
  · exact (Surface.searchStays consistent _ _ known here _ _ _).weaken fun min moved =>
      moved.trans min.stateMoved

theorem minimizeWithStays (consistent : f.state.space.Consistent) (maxCalls : ℕ) (tolerance : ℝ) :
    Stays f.state.space.Admits (f.minimizeWith maxCalls tolerance) fun answer =>
      f.state.space.Moved (f.after answer).state.space := by
  refine .ite (fun _ => .pure (.refl _)) fun _ => ?_
  exact .bind (.apart (searchFromStays consistent _ tolerance)) fun min moved => .pure moved

theorem admissibleOnly (reached : f.state.Reached) (maxCalls : ℕ) (tolerance : ℝ) :
    let origin := f.state.space
    let (answer, asked) := (f.minimizeWith maxCalls tolerance).run {}
    asked.Within origin.Admits ∧ (f.after answer).state.space.free = origin.free ∧
      ∀ i, i ∉ origin.free → (f.after answer).state.space.parameters[i]? = origin.parameters[i]? := by
  have stays := minimizeWithStays reached.consistent maxCalls tolerance
  have moved := stays.answer {}
  exact ⟨stays.within (Trace.emptyWithin _), moved.free, moved.kept⟩

theorem admissibleOnlyMixed :
    let f : Fit ℝ := .new (.plain fun x => entry x 0 * entry x 0 + entry x 1 * entry x 2)
      (.ofSpace (Space.empty.run [.addLimited "x" 0.5 0.1 0 1, .add "y" 1 0.1, .addConstant "c" 3,
        .setUpper (.name "y") 2, .add "z" 0 1, .fix (.index 3)])) .combined
    let origin := f.state.space
    let (answer, asked) := (f.minimizeWith 100 0.1).run {}
    f.state.Reached ∧ asked.Within origin.Admits ∧
      (f.after answer).state.space.free = origin.free ∧
      ∀ i, i ∉ origin.free → (f.after answer).state.space.parameters[i]? = origin.parameters[i]? :=
  ⟨.declared _, admissibleOnly (.declared _) 100 0.1⟩

end Fit
end ParamFit
