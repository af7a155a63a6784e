import ParamFit.Proofs.Varying
import ParamFit.Proofs.Moving

/-! Which parameters are held is a set. Fixing several leads to the same space in whatever order they are
taken, and so does releasing several, because in either result only the set appears. What was fixed and is
released again is as it was before. The coordinates that are left stay in order, and the external values are
the declared ones wherever nothing varies. -/
namespace ParamFit
variable {α : Type}

namespace Space

/-! ### The coordinates in order -/

section
variable [Scalar α] {s t : Space α} {asleep : List ℕ}

/- The coordinates are declared places in ascending order, and the values stand beside the parameters.
Unlike consistency this asks nothing of the limits. -/
structure Orderly (s : Space α) : Prop where
  ascending : s.free.Pairwise (· < ·)
  within : ∀ i ∈ s.free, i < s.parameters.size
  cached : s.values = s.declaredValues

omit [Scalar α] in
theorem Tended.within (tended : s.Tended asleep) : ∀ i ∈ s.free, i < s.parameters.size := by
  intro i free
  obtain ⟨p, here, -⟩ := (tended.varies i).mp free
  exact (Array.getElem?_eq_some_iff.mp here).1

theorem emptyOrderly : (empty : Space α).Orderly := ⟨.nil, nofun, by simp [empty, declaredValues]⟩

theorem Orderly.turns (orderly : s.Orderly) (turns : s.Turns t)
    (within : ∀ i ∈ t.free, i < t.parameters.size) : t.Orderly := by
  obtain ⟨ascending, inside, cached⟩ := orderly
  cases turns with
  | adds p number =>
    refine ⟨appendAscending ascending inside number, within, ?_⟩
    simp [append, declaredValues, cached]
  | changes i f value => exact ⟨ascending, within, cached.trans (declaredUpdate value).symm⟩
  | moves i v =>
    refine ⟨ascending, within, ?_⟩
    rw [declaredSet, ← cached]
    rfl
  | fixes i =>
    exact ⟨ascending.erase i, within, cached.trans (declaredUpdate (f := .fix) fun _ _ => rfl).symm⟩
  | releases i absent =>
    exact ⟨insertPlaceAscending ascending absent, within,
      cached.trans (declaredUpdate (f := .release) fun _ _ => rfl).symm⟩
  | tunes eps => exact ⟨ascending, within, cached⟩

theorem Orderly.run (orderly : s.Orderly) (tended : s.Tended asleep) (actions : List (Action α)) :
    (s.run actions).Orderly := by
  induction actions generalizing s asleep with
  | nil => exact orderly
  | cons a rest ih =>
    have next := tended.step a
    refine ih ?_ next
    cases done : s.perform a with
    | error e =>
      rw [step, done]
      exact orderly
    | ok t =>
      rw [step, done] at next ⊢
      exact orderly.turns (performTurns done) next.within

end

/-! ### A set of places -/

/- The parameters at some places are changed. -/
def mask (f : Parameter α → Parameter α) (places : Finset ℕ) (l : Array (Parameter α)) :
    Array (Parameter α) :=
  l.mapIdx fun i p => if i ∈ places then f p else p

section
variable {f : Parameter α → Parameter α} {A B : Finset ℕ} {l : Array (Parameter α)}

theorem maskAt (i : ℕ) : (mask f A l)[i]? = l[i]?.map fun p => if i ∈ A then f p else p := by
  simp [mask]

theorem maskOther {i : ℕ} (other : i ∉ A) : (mask f A l)[i]? = l[i]? := by simp [maskAt, other]

theorem maskSize : (mask f A l).size = l.size := by simp [mask]

theorem maskNone : mask f ∅ l = l := Array.ext_getElem? fun i => by simp [maskAt]

theorem maskOne (i : ℕ) : l.modify i f = mask f {i} l := by
  refine Array.ext_getElem? fun j => ?_
  rw [maskAt, Array.getElem?_modify]
  by_cases same : i = j
  · simp [same]
  · simp [same, Ne.symm same]

theorem maskBoth (again : ∀ p, f (f p) = f p) : mask f B (mask f A l) = mask f (A ∪ B) l := by
  refine Array.ext_getElem? fun i => ?_
  simp only [maskAt, Option.map_map, Finset.mem_union]
  congr 1
  funext p
  by_cases first : i ∈ A <;> by_cases second : i ∈ B <;> simp [first, second, again]

theorem maskValues (value : ∀ p, (f p).value = p.value) :
    (mask f A l).map (·.value) = l.map (·.value) := by
  refine Array.ext_getElem? fun i => ?_
  rw [Array.getElem?_map, Array.getElem?_map, maskAt, Option.map_map]
  congr 1
  funext p
  simp only [Function.comp_apply]
  split
  · exact value p
  · rfl

end

/- The parameters at some places are fixed, and vary no more. -/
def hold (s : Space α) (places : Finset ℕ) : Space α :=
  { s with
    parameters := mask .fix places s.parameters
    free := s.free.filter (· ∉ places) }

/- The parameters at some places are released, and vary from now on. -/
def loosen (s : Space α) (places : Finset ℕ) : Space α :=
  { s with
    parameters := mask .release places s.parameters
    free := (List.range s.parameters.size).filter fun i => i ∈ s.free ∨ i ∈ places }

/- Each address leads to a place. -/
def Finds (s : Space α) : List Address → List ℕ → Prop :=
  List.Forall₂ fun p i => s.indexOf p = .ok i

section
variable {s t : Space α} {A B : Finset ℕ} {p : Address} {i : ℕ}

theorem Finds.same {ps : List Address} {places : List ℕ} (finds : s.Finds ps places)
    (names : t.names = s.names) (size : t.parameters.size = s.parameters.size) : t.Finds ps places :=
  finds.imp fun _ _ known => (indexOfSame names size).trans known

@[simp]
theorem holdSize : (s.hold A).parameters.size = s.parameters.size := maskSize

@[simp]
theorem loosenSize : (s.loosen A).parameters.size = s.parameters.size := maskSize

theorem holdBoth : (s.hold A).hold B = s.hold (A ∪ B) := by
  have free : (s.free.filter (· ∉ A)).filter (· ∉ B) = s.free.filter (· ∉ A ∪ B) := by
    rw [List.filter_filter]
    refine List.filter_congr fun i _ => ?_
    simp [Bool.and_comm]
  rw [hold, hold, hold, maskBoth fun p => show p.fix.fix = p.fix from rfl, free]

theorem loosenBoth : (s.loosen A).loosen B = s.loosen (A ∪ B) := by
  have parameters : mask .release B (s.loosen A).parameters = (s.loosen (A ∪ B)).parameters :=
    maskBoth fun _ => rfl
  have free : ((List.range s.parameters.size).filter fun i => i ∈ (s.loosen A).free ∨ i ∈ B) =
      (s.loosen (A ∪ B)).free := by
    refine List.filter_congr fun i inside => ?_
    simp [loosen, List.mem_range.mp inside, or_assoc]
  rw [loosen, parameters, loosenSize, free]
  rfl

theorem Orderly.hold (orderly : s.Orderly) (A : Finset ℕ) : (s.hold A).Orderly where
  ascending := orderly.ascending.filter _
  within i free := holdSize.symm ▸ orderly.within i (List.mem_of_mem_filter free)
  cached := orderly.cached.trans (maskValues (f := .fix) fun _ => rfl).symm

theorem Orderly.loosen (orderly : s.Orderly) (A : Finset ℕ) : (s.loosen A).Orderly where
  ascending := List.pairwise_lt_range.filter _
  within _ free := loosenSize.symm ▸ List.mem_range.mp (List.mem_of_mem_filter free)
  cached := orderly.cached.trans (maskValues (f := .release) fun _ => rfl).symm

/- What varied before, and was fixed since, is as it was once it is released. -/
theorem holdLoosened {asleep : List ℕ} (orderly : s.Orderly) (tended : s.Tended asleep)
    (free : ∀ i ∈ A, i ∈ s.free) : (s.hold A).loosen A = s := by
  have parameters : mask .release A (mask .fix A s.parameters) = s.parameters := by
    refine Array.ext_getElem? fun i => ?_
    by_cases among : i ∈ A
    · obtain ⟨p, here, loose, -⟩ := (tended.varies i).mp (free i among)
      have same : p.fix.release = p := by
        cases p
        exact congrArg (Parameter.mk _ _ _ _ _ _ _) loose.1.symm
      simp [maskAt, here, among, same]
    · rw [maskOther among, maskOther among]
  have listed : ((List.range s.parameters.size).filter fun i => i ∈ (s.hold A).free ∨ i ∈ A) = s.free := by
    refine (List.pairwise_lt_range.filter _).eq_of_mem_iff orderly.ascending fun i => ?_
    have within := orderly.within i
    have among := free i
    simp only [Space.hold, List.mem_filter, List.mem_range, decide_eq_true_eq]
    tauto
  rw [Space.loosen, holdSize, listed, Space.hold, parameters]

end

section
variable [Scalar α] {s : Space α} {A : Finset ℕ} {p : Address} {i : ℕ}

theorem fixHolds (once : s.free.Nodup) (known : s.indexOf p = .ok i) (free : i ∈ s.free) :
    s.fix p = .ok (s.hold {i}) := by
  have erased : s.free.erase i = s.free.filter (· ∉ ({i} : Finset ℕ)) := by
    rw [once.erase_eq_filter]
    refine List.filter_congr fun j _ => ?_
    by_cases same : j = i <;> simp [same]
  rw [fix, known, okBind, if_pos free, erased, update, maskOne]
  rfl

theorem releaseLoosens (orderly : s.Orderly) (inside : i < s.parameters.size)
    (known : s.indexOf p = .ok i) (variant : (s.parameterAt i).isConstant = false)
    (held : i ∉ s.free) : s.release p = .ok (s.loosen {i}) := by
  have inserted : insertPlace i s.free =
      (List.range s.parameters.size).filter fun j => j ∈ s.free ∨ j ∈ ({i} : Finset ℕ) := by
    refine (insertPlaceAscending orderly.ascending held).eq_of_mem_iff
      (List.pairwise_lt_range.filter _) fun j => ?_
    have declared : j ∈ s.free ∨ j = i → j < s.parameters.size :=
      Or.rec (orderly.within j) fun same => same ▸ inside
    simp only [memInsertPlace, List.mem_filter, List.mem_range, Finset.mem_singleton, decide_eq_true_eq]
    tauto
  rw [release, known, okBind, if_neg (by simp [variant, held]), inserted, update, maskOne]
  rfl

/-! ### One after the other -/

variable {ps : List Address} {places : List ℕ}

theorem fixAll (once : s.free.Nodup) (finds : s.Finds ps places) (distinct : places.Nodup)
    (free : ∀ i ∈ places, i ∈ s.free) : ps.foldlM fix s = .ok (s.hold places.toFinset) := by
  induction ps generalizing s places with
  | nil =>
    cases finds
    have still : s.hold ∅ = s := by simp [Space.hold, maskNone]
    exact congrArg Except.ok still.symm
  | cons p ps ih =>
    cases finds with
    | @cons _ i _ places known rest =>
      obtain ⟨other, distinct⟩ := List.nodup_cons.mp distinct
      have left (j : ℕ) (later : j ∈ places) : j ∈ (s.hold {i}).free := by
        have apart : j ≠ i := fun same => other (same ▸ later)
        simp [Space.hold, apart, free j (.tail _ later)]
      have next : (s.hold {i}).Finds ps places := Finds.same rest rfl holdSize
      rw [List.foldlM_cons, fixHolds once known (free i (.head _)), okBind,
        ih (once.filter _) next distinct left, holdBoth, List.toFinset_cons, Finset.insert_eq]

theorem releaseAll (orderly : s.Orderly) (finds : s.Finds ps places) (distinct : places.Nodup)
    (held : ∀ i ∈ places,
      i < s.parameters.size ∧ (s.parameterAt i).isConstant = false ∧ i ∉ s.free) :
    ps.foldlM release s = .ok (s.loosen places.toFinset) := by
  induction ps generalizing s places with
  | nil =>
    cases finds
    have free : ((List.range s.parameters.size).filter fun i => i ∈ s.free) = s.free :=
      (List.pairwise_lt_range.filter _).eq_of_mem_iff orderly.ascending fun i => by
        simpa using orderly.within i
    have still : s.loosen ∅ = s := by simp [Space.loosen, maskNone, free]
    exact congrArg Except.ok still.symm
  | cons p ps ih =>
    cases finds with
    | @cons _ i _ places known rest =>
      obtain ⟨other, distinct⟩ := List.nodup_cons.mp distinct
      obtain ⟨inside, variant, absent⟩ := held i (.head _)
      have still (j : ℕ) (later : j ∈ places) : j < (s.loosen {i}).parameters.size ∧
          ((s.loosen {i}).parameterAt j).isConstant = false ∧ j ∉ (s.loosen {i}).free := by
        have apart : j ≠ i := fun same => other (same ▸ later)
        obtain ⟨within, constant, absent⟩ := held j (.tail _ later)
        have same : (s.loosen {i}).parameterAt j = s.parameterAt j := by
          rw [parameterAt, parameterAt, Array.getD_eq_getD_getElem?, Array.getD_eq_getD_getElem?,
            Space.loosen, maskOther (by simpa using apart)]
        refine ⟨loosenSize.symm ▸ within, same ▸ constant, ?_⟩
        simp [Space.loosen, apart, absent]
      have next : (s.loosen {i}).Finds ps places := Finds.same rest rfl loosenSize
      rw [List.foldlM_cons, releaseLoosens orderly inside known variant absent, okBind,
        ih (orderly.loosen _) next distinct still, loosenBoth, List.toFinset_cons, Finset.insert_eq]

/- What is fixed can be released. -/
theorem Tended.held {asleep : List ℕ} (tended : s.Tended asleep) (fixed : (s.parameterAt i).isFixed) :
    i < s.parameters.size ∧ (s.parameterAt i).isConstant = false ∧ i ∉ s.free := by
  cases here : s.parameters[i]? with
  | none =>
    rw [parameterAt, Array.getD_eq_getD_getElem?, here] at fixed
    cases fixed
  | some p =>
    rw [parameterDeclared here] at fixed ⊢
    refine ⟨(Array.getElem?_eq_some_iff.mp here).1, Bool.of_not_eq_true fun constant => ?_, fun free => ?_⟩
    · exact absurd (tended.unfixed here constant) (by simp [fixed])
    · obtain ⟨q, there, loose, -⟩ := (tended.varies i).mp free
      cases here.symm.trans there
      exact absurd loose.1 (by simp [fixed])

theorem fixReleased {asleep : List ℕ} {q : Address} {i : ℕ} (orderly : s.Orderly) (tended : s.Tended asleep)
    (known : s.indexOf p = .ok i) (again : s.indexOf q = .ok i) (free : i ∈ s.free) :
    (s.fix p >>= fun t => t.release q) = .ok s := by
  obtain ⟨r, here, loose, -⟩ := (tended.varies i).mp free
  have fixed : (s.hold {i}).parameterAt i = r.fix := by
    refine parameterDeclared ?_
    simp [Space.hold, maskAt, here]
  have inside : i < (s.hold {i}).parameters.size := holdSize.symm ▸ orderly.within i free
  have same : (s.hold {i}).indexOf q = s.indexOf q := indexOfSame rfl holdSize
  have absent : i ∉ (s.hold {i}).free := by simp [Space.hold]
  rw [fixHolds tended.once known free, okBind,
    releaseLoosens (orderly.hold {i}) inside (same.trans again) (fixed ▸ loose.2) absent,
    holdLoosened orderly tended (by simpa using free)]

/- The coordinates stand at their places, in ascending order, and everything else at its declared value. -/
structure Spread (s : Space α) (x y : Array α) : Prop where
  size : y.size = s.parameters.size
  declared : ∀ i, i ∉ s.free → y[i]? = s.declaredValues[i]?
  moved : ∀ k < s.dimension, y[s.place k]? = some (s.toExternal k (entry x k))
  ascending : ∀ k l, k < l → l < s.dimension → s.place k < s.place l

theorem Orderly.spread (orderly : s.Orderly) {x : Array α} (full : x.size = s.dimension) :
    s.Spread x (s.external x) := by
  obtain ⟨ascending, within, cached⟩ := orderly
  have width : s.values.size = s.parameters.size := by rw [cached, declaredValues, Array.size_map]
  refine ⟨externalSize.trans width, fun i fixed => ?_, fun k inside => ?_, fun k l less inside => ?_⟩
  · rw [externalKept fixed, cached]
  · have here := placed inside
    refine externalPlaced (ascending.imp Nat.ne_of_lt) full here ?_
    rw [width]
    exact within _ (List.mem_of_getElem? here)
  · rw [place, place, List.getD_eq_getElem _ _ inside, List.getD_eq_getElem _ _ (less.trans inside)]
    exact List.pairwise_iff_getElem.mp ascending k l _ _ less

/- What fixing and releasing do depends on the set of the parameters only. -/
structure HeldAsSet (s : Space α) : Prop where
  restored {p q : Address} {i : ℕ} (known : s.indexOf p = .ok i) (again : s.indexOf q = .ok i)
    (free : i ∈ s.free) : (s.fix p >>= fun t => t.release q) = .ok s
  fixed {ps qs : List Address} {places others : List ℕ} (finds : s.Finds ps places)
    (also : s.Finds qs others) (distinct : places.Nodup) (same : places.Perm others)
    (free : ∀ i ∈ places, i ∈ s.free) :
    ps.foldlM fix s = .ok (s.hold places.toFinset) ∧ qs.foldlM fix s = .ok (s.hold places.toFinset)
  released {ps qs : List Address} {places others : List ℕ} (finds : s.Finds ps places)
    (also : s.Finds qs others) (distinct : places.Nodup) (same : places.Perm others)
    (held : ∀ i ∈ places, (s.parameterAt i).isFixed) :
    ps.foldlM release s = .ok (s.loosen places.toFinset) ∧
      qs.foldlM release s = .ok (s.loosen places.toFinset)
  spread (places : Finset ℕ) {x : Array α} (full : x.size = (s.hold places).dimension) :
    (s.hold places).declaredValues = s.declaredValues ∧
      (s.hold places).Spread x ((s.hold places).external x)

/- After any history, what varies can be fixed and what is fixed can be released, in any order. -/
theorem heldAsSet (actions : List (Action α)) : ((empty : Space α).run actions).HeldAsSet := by
  have tended := emptyTended.run actions
  have orderly := emptyOrderly.run emptyTended actions
  generalize (empty : Space α).run actions = s at tended orderly
  refine ⟨fixReleased orderly tended, ?_, ?_, ?_⟩
  · intro ps qs places others finds also distinct same free
    refine ⟨fixAll tended.once finds distinct free, ?_⟩
    rw [List.toFinset_eq_of_perm _ _ same]
    exact fixAll tended.once also (same.nodup_iff.mp distinct) fun i among => free i (same.mem_iff.mpr among)
  · intro ps qs places others finds also distinct same held
    have held (i : ℕ) (among : i ∈ places) := tended.held (held i among)
    refine ⟨releaseAll orderly finds distinct held, ?_⟩
    rw [List.toFinset_eq_of_perm _ _ same]
    exact releaseAll orderly also (same.nodup_iff.mp distinct) fun i among => held i (same.mem_iff.mpr among)
  · intro places x full
    exact ⟨maskValues (f := .fix) fun _ => rfl, (orderly.hold places).spread full⟩

end

/- Of five parameters a constant stays what it is; of the others two vary, and two are fixed. -/
theorem heldAsSetMixed :
    let s := (empty : Space ℝ).run [.add "x" 1 0.1, .add "y" 2 0.1, .setLower (.name "y") 0,
      .addConstant "c" 3, .add "z" 4 0.1, .add "u" 5 0.1, .fix (.name "u"), .fix (.index 1)]
    (s.fix (.name "x") >>= fun t => t.release (.index 0)) = .ok s ∧
      [.name "x", .name "z"].foldlM fix s = [.index 3, .name "x"].foldlM fix s ∧
      [.name "y", .name "u"].foldlM release s = [.name "u", .index 1].foldlM release s ∧
      (s.hold {0}).Spread #[7] ((s.hold {0}).external #[7]) := by
  intro s
  have held : s.HeldAsSet := heldAsSet _
  have free : s.free = [0, 3] := rfl
  have finds : s.Finds [.name "x", .name "z"] [0, 3] := .cons rfl (.cons rfl .nil)
  have turned : s.Finds [.index 3, .name "x"] [3, 0] := .cons rfl (.cons rfl .nil)
  have fixed := held.fixed finds turned (by decide) (.swap 3 0 []) fun i among => free ▸ among
  have finds : s.Finds [.name "y", .name "u"] [1, 4] := .cons rfl (.cons rfl .nil)
  have turned : s.Finds [.name "u", .index 1] [4, 1] := .cons rfl (.cons rfl .nil)
  have released := held.released finds turned (by decide) (.swap 4 1 []) fun i among => by
    rcases List.mem_pair.mp among with rfl | rfl <;> rfl
  have left : (s.hold {0}).free = [3] := by
    rw [hold, free]
    rfl
  have spread := held.spread {0} (x := #[7]) (congrArg List.length left).symm
  exact ⟨held.restored rfl rfl (free ▸ .head _), fixed.1.trans fixed.2.symm,
    released.1.trans released.2.symm, spread.2⟩

end Space
end ParamFit
