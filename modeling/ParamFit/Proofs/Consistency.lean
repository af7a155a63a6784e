import ParamFit.Exact
import ParamFit.Parameter.State

/-! The declarations of a fit say everything more than once: a parameter knows its place, the names
lead to the places, the values stand beside the parameters, and the coordinates list the places that
vary. Whatever is done to the declarations, and whether or not it succeeds, these agree. -/
namespace ParamFit
variable {α : Type}

theorem okBind {ε β γ : Type} (b : β) (f : β → Except ε γ) : (Except.ok b >>= f) = f b := rfl

theorem okParts {ε β γ : Type} {m : Except ε β} {f : β → Except ε γ} {c : γ}
    (done : (m >>= f) = .ok c) : ∃ b, m = .ok b ∧ f b = .ok c := by
  cases m with
  | error e => cases done
  | ok b => exact ⟨b, rfl, done⟩

section
variable [Scalar α]

/- Two limits are in order. -/
def Parameter.Ordered (p : Parameter α) : Prop :=
  ∀ lower upper, p.lower = some lower → p.upper = some upper → lower < upper

/- Of two limits that are given together, one is less than the other or they are equal. Only what is
not a number has neither. -/
def Action.Comparable : Action α → Prop
  | .addLimited _ _ _ a b | .setLimits _ a b => a == b ∨ a < b ∨ a > b
  | _ => True

/- The same action on another parameter. -/
def Action.readdress (p : Address) : Action α → Action α
  | .fix _ => .fix p
  | .release _ => .release p
  | .setValue _ value => .setValue p value
  | .setError _ error => .setError p error
  | .setLimits _ lower upper => .setLimits p lower upper
  | .setLower _ lower => .setLower p lower
  | .setUpper _ upper => .setUpper p upper
  | .removeLimits _ => .removeLimits p
  | a => a

theorem Parameter.setLimitsOrdered {p q : Parameter α} {a b : α}
    (comparable : a == b ∨ a < b ∨ a > b) (done : p.setLimits a b = .ok q) : q.Ordered := by
  rw [setLimits] at done
  split at done
  case isTrue => cases done
  case isFalse apart =>
    split at done
    case isTrue reversed =>
      cases done
      rintro _ _ ⟨⟩ ⟨⟩
      exact reversed
    case isFalse unreversed =>
      cases done
      rintro _ _ ⟨⟩ ⟨⟩
      exact (comparable.resolve_left apart).resolve_right unreversed

theorem Parameter.setLimitsFound (p : Parameter α) {a b : α} (apart : ¬a == b) :
    ∃ q, p.setLimits a b = .ok q := by
  unfold setLimits
  rw [if_neg apart]
  split
  · exact ⟨_, rfl⟩
  · exact ⟨_, rfl⟩

theorem Parameter.setLimitsRest {p q : Parameter α} {a b : α} (done : p.setLimits a b = .ok q) :
    ∃ lower upper, q = { p with lower := some lower, upper := some upper } := by
  rw [setLimits] at done
  split at done
  · cases done
  · split at done
    · cases done
      exact ⟨_, _, rfl⟩
    · cases done
      exact ⟨_, _, rfl⟩

end

namespace Space

section
variable [Scalar α]

/- What the parts of a space say of each other. -/
structure Consistent (s : Space α) : Prop where
  numbered {i : Nat} {p : Parameter α} (here : s.parameters[i]? = some p) : p.number = i
  distinct {i j : Nat} {p q : Parameter α} (here : s.parameters[i]? = some p)
    (there : s.parameters[j]? = some q) (same : p.name = q.name) : i = j
  named : s.names = s.parameters.toList.map fun p => (p.name, p.number)
  cached : s.values = s.parameters.map (·.value)
  ascending : s.free.Pairwise (· < ·)
  varying {i : Nat} (free : i ∈ s.free) :
    ∃ p, s.parameters[i]? = some p ∧ p.isFixed = false ∧ p.isConstant = false
  ordered {i : Nat} {p : Parameter α} (here : s.parameters[i]? = some p) : p.Ordered

theorem emptyConsistent : (empty : Space α).Consistent where
  numbered here := by cases here
  distinct here := by cases here
  named := rfl
  cached := by simp [empty]
  ascending := .nil
  varying free := by cases free
  ordered here := by cases here

theorem parameterDeclared {s : Space α} {i : Nat} {p : Parameter α}
    (here : s.parameters[i]? = some p) : s.parameterAt i = p := by
  rw [parameterAt, Array.getD_eq_getD_getElem?, here, Option.getD_some]

theorem declaredHere {s : Space α} {i : Nat} (inside : i < s.parameters.size) :
    s.parameters[i]? = some (s.parameterAt i) := by
  rw [parameterAt, Array.getD_eq_getD_getElem?, Array.getElem?_eq_getElem inside, Option.getD_some]

omit [Scalar α] in
theorem placed {s : Space α} {k : Nat} (inside : k < s.dimension) : s.place? k = some (s.place k) := by
  rw [place?, place, List.getD_eq_getElem _ _ inside, List.getElem?_eq_getElem inside]

/- What is declared is appended. -/
omit [Scalar α] in
theorem declareAppends {s t : Space α} {name : String}
    {make : Nat → Except (FitError α) (Parameter α)} (done : s.declare name make = .ok t) :
    ∃ p, s.declared name = false ∧ make s.parameters.size = .ok p ∧ t = s.append p := by
  rw [declare] at done
  split at done
  case isTrue => cases done
  case isFalse fresh =>
    cases known : make s.parameters.size with
    | error e =>
      rw [known] at done
      cases done
    | ok p =>
      rw [known] at done
      cases done
      exact ⟨p, Bool.of_not_eq_true fresh, rfl, rfl⟩

/-! ### The declared values -/

omit [Scalar α] in
theorem declaredUpdate {s : Space α} {i : Nat} {f : Parameter α → Parameter α}
    (value : ∀ p, s.parameters[i]? = some p → (f p).value = p.value) :
    (s.update i f).declaredValues = s.declaredValues := by
  refine Array.ext_getElem? fun j => ?_
  simp only [declaredValues, update, Array.getElem?_map, Array.getElem?_modify]
  split
  case isTrue same =>
    cases same
    cases known : s.parameters[i]? with
    | none => rfl
    | some p => simp [value p known]
  case isFalse => rfl

omit [Scalar α] in
theorem declaredSet (s : Space α) (i : Nat) (v : α) :
    (s.setValueAt i v).declaredValues = s.declaredValues.setIfInBounds i v := by
  refine Array.ext_getElem? fun j => ?_
  simp only [declaredValues, setValueAt, update, Array.getElem?_map, Array.getElem?_modify,
    Array.getElem?_setIfInBounds, Array.size_map]
  by_cases here : i = j
  · subst here
    by_cases inside : i < s.parameters.size
    · simp [inside, Parameter.setValue]
    · simp [inside]
  · simp [here]

omit [Scalar α] in
theorem appendAscending {s : Space α} {p : Parameter α} (ascending : s.free.Pairwise (· < ·))
    (within : ∀ i ∈ s.free, i < s.parameters.size) (number : p.number = s.parameters.size) :
    (s.append p).free.Pairwise (· < ·) := by
  rw [append]
  dsimp only
  split
  · exact ascending
  · refine List.pairwise_append.mpr ⟨ascending, List.pairwise_singleton _ _, ?_⟩
    intro i free j last
    rw [List.mem_singleton.mp last, number]
    exact within i free

namespace Consistent
variable {s : Space α} (consistent : s.Consistent)
include consistent

/-! ### Reading -/

theorem within {i : Nat} (free : i ∈ s.free) : i < s.parameters.size := by
  obtain ⟨p, here, _⟩ := consistent.varying free
  exact (Array.getElem?_eq_some_iff.mp here).1

/- The names are those of the declared parameters, and each leads to the one place that has it. -/
theorem lookup {name : String} {i : Nat} :
    s.names.lookup name = some i ↔ ∃ p, s.parameters[i]? = some p ∧ p.name = name := by
  have place {j : Nat} (found : s.names.lookup name = some j) :
      ∃ p, s.parameters[j]? = some p ∧ p.name = name := by
    obtain ⟨before, after, split, _⟩ := List.lookup_eq_some_iff.mp found
    have among : (name, j) ∈ s.names := by rw [split]; simp
    rw [consistent.named] at among
    obtain ⟨p, declared, same⟩ := List.mem_map.mp among
    obtain ⟨k, here⟩ := List.getElem?_of_mem declared
    rw [Array.getElem?_toList] at here
    cases same
    rw [consistent.numbered here]
    exact ⟨p, here, rfl⟩
  refine ⟨place, ?_⟩
  rintro ⟨p, here, rfl⟩
  cases found : s.names.lookup p.name with
  | none =>
    have among : (p.name, p.number) ∈ s.names := by
      rw [consistent.named]
      exact List.mem_map.mpr ⟨p, by simpa using Array.mem_of_getElem? here, rfl⟩
    have other := List.lookup_eq_none_iff.mp found _ among
    simp at other
  | some j =>
    obtain ⟨q, there, same⟩ := place found
    rw [consistent.distinct there here same]

theorem indexOfDeclared {q : Address} {i : Nat} (known : s.indexOf q = .ok i) :
    ∃ p, s.parameters[i]? = some p := by
  cases q with
  | index j =>
    rw [indexOf] at known
    split at known
    case isTrue inside =>
      cases known
      exact ⟨_, Array.getElem?_eq_getElem inside⟩
    case isFalse => cases known
  | name n =>
    rw [indexOf] at known
    split at known
    case h_1 found =>
      cases known
      obtain ⟨p, here, _⟩ := consistent.lookup.mp found
      exact ⟨p, here⟩
    case h_2 => cases known

theorem indexOfName {i : Nat} {p : Parameter α} (here : s.parameters[i]? = some p) :
    s.indexOf (.name p.name) = s.indexOf (.index i) := by
  have inside : i < s.parameters.size := (Array.getElem?_eq_some_iff.mp here).1
  rw [indexOf, indexOf, if_pos inside, consistent.lookup.mpr ⟨p, here, rfl⟩]

theorem coordinateOfPlace {k i : Nat} (placed : s.place? k = some i) :
    s.coordinate? i = some k := by
  obtain ⟨inside, rfl⟩ := List.getElem?_eq_some_iff.mp placed
  refine List.findIdx?_eq_some_iff_getElem.mpr ⟨inside, beq_self_eq_true _, fun j before same => ?_⟩
  have less := List.pairwise_iff_getElem.mp consistent.ascending j k (by omega) inside before
  have equal := eq_of_beq same
  omega

/-! ### Declaring -/

theorem append {p : Parameter α} (fresh : s.declared p.name = false)
    (number : p.number = s.parameters.size) (ordered : p.Ordered) (released : p.isFixed = false) :
    (s.append p).Consistent := by
  have kinds {i : Nat} {q : Parameter α} (here : (s.append p).parameters[i]? = some q) :
      (i = s.parameters.size ∧ q = p) ∨ s.parameters[i]? = some q := by
    rw [Space.append, Array.getElem?_push] at here
    split at here
    case isTrue last => exact .inl ⟨last, (Option.some.inj here).symm⟩
    case isFalse => exact .inr here
  have before {i : Nat} {q : Parameter α} (here : s.parameters[i]? = some q) :
      (s.append p).parameters[i]? = some q := by
    have inside : i < s.parameters.size := (Array.getElem?_eq_some_iff.mp here).1
    rw [Space.append, Array.getElem?_push, if_neg (by omega), here]
  have other {i : Nat} {q : Parameter α} (here : s.parameters[i]? = some q) : q.name ≠ p.name := by
    intro same
    have found := consistent.lookup.mpr ⟨q, here, same⟩
    rw [declared, found] at fresh
    cases fresh
  refine ⟨?_, ?_, ?_, ?_, ?_, ?_, ?_⟩
  · intro i q here
    rcases kinds here with ⟨rfl, rfl⟩ | here
    · exact number
    · exact consistent.numbered here
  · intro i j q r here there same
    rcases kinds here with ⟨last, rfl⟩ | early
    · rcases kinds there with ⟨also, _⟩ | early
      · exact last.trans also.symm
      · exact absurd same.symm (other early)
    · rcases kinds there with ⟨_, rfl⟩ | late
      · exact absurd same (other early)
      · exact consistent.distinct early late same
  · simp [Space.append, consistent.named]
  · simp [Space.append, consistent.cached]
  · exact appendAscending consistent.ascending (fun _ free => consistent.within free) number
  · intro i free
    have earlier (free : i ∈ s.free) : ∃ q, (s.append p).parameters[i]? = some q ∧
        q.isFixed = false ∧ q.isConstant = false := by
      obtain ⟨q, here, varies⟩ := consistent.varying free
      exact ⟨q, before here, varies⟩
    rw [Space.append] at free
    dsimp only at free
    split at free
    case isTrue => exact earlier free
    case isFalse varies =>
      rcases List.mem_append.mp free with free | last
      · exact earlier free
      · refine ⟨p, ?_, released, by simpa using varies⟩
        rw [List.mem_singleton.mp last, number, Space.append, Array.getElem?_push, if_pos rfl]
  · intro i q here
    rcases kinds here with ⟨rfl, rfl⟩ | here
    · exact ordered
    · exact consistent.ordered here

theorem declare {name : String} {make : Nat → Except (FitError α) (Parameter α)} {t : Space α}
    (made : ∀ n p, make n = .ok p →
      p.name = name ∧ p.number = n ∧ p.Ordered ∧ p.isFixed = false)
    (done : s.declare name make = .ok t) : t.Consistent := by
  obtain ⟨p, fresh, known, rfl⟩ := declareAppends done
  obtain ⟨same, number, ordered, released⟩ := made _ _ known
  exact consistent.append (same ▸ fresh) number ordered released

/-! ### Changing -/

/- A change of the parameter at one place, together with the coordinates and the values. -/
theorem change {i : Nat} {f : Parameter α → Parameter α} {t : Space α}
    (parameters : t.parameters = s.parameters.modify i f) (names : t.names = s.names)
    (keeps : ∀ p, s.parameters[i]? = some p → (f p).number = p.number ∧ (f p).name = p.name)
    (ordered : ∀ p, s.parameters[i]? = some p → p.Ordered → (f p).Ordered)
    (cached : t.values = t.parameters.map (·.value)) (ascending : t.free.Pairwise (· < ·))
    (varying : ∀ j ∈ t.free,
      ∃ p, t.parameters[j]? = some p ∧ p.isFixed = false ∧ p.isConstant = false) :
    t.Consistent := by
  have before {j : Nat} {q : Parameter α} (here : t.parameters[j]? = some q) :
      ∃ p, s.parameters[j]? = some p ∧ q.number = p.number ∧ q.name = p.name ∧ q.Ordered := by
    rw [parameters, Array.getElem?_modify] at here
    split at here
    case isTrue same =>
      cases same
      obtain ⟨p, there, rfl⟩ := Option.map_eq_some_iff.mp here
      obtain ⟨number, name⟩ := keeps p there
      exact ⟨p, there, number, name, ordered p there (consistent.ordered there)⟩
    case isFalse => exact ⟨q, here, rfl, rfl, consistent.ordered here⟩
  refine ⟨?_, ?_, ?_, cached, ascending, fun free => varying _ free, ?_⟩
  · intro j q here
    obtain ⟨p, there, number, _⟩ := before here
    exact number.trans (consistent.numbered there)
  · intro j k q r here there same
    obtain ⟨p, here, _, name, _⟩ := before here
    obtain ⟨o, there, _, other, _⟩ := before there
    exact consistent.distinct here there (name.symm.trans (same.trans other))
  · rw [names, consistent.named, parameters]
    refine List.ext_getElem? fun j => ?_
    rw [List.getElem?_map, List.getElem?_map, Array.getElem?_toList, Array.getElem?_toList,
      Array.getElem?_modify]
    split
    case isTrue same =>
      cases same
      cases known : s.parameters[i]? with
      | none => rfl
      | some p =>
        obtain ⟨number, name⟩ := keeps p known
        simp only [Option.map_some, number, name]
    case isFalse => rfl
  · intro j q here
    obtain ⟨p, _, _, _, ordered⟩ := before here
    exact ordered

theorem cachedModify {i : Nat} {f : Parameter α → Parameter α}
    (value : ∀ p, s.parameters[i]? = some p → (f p).value = p.value) :
    s.values = (s.parameters.modify i f).map (·.value) :=
  consistent.cached.trans (declaredUpdate value).symm

theorem varyingModify {i j : Nat} {f : Parameter α → Parameter α}
    (varies : ∀ p, s.parameters[i]? = some p → p.isFixed = false → p.isConstant = false →
      (f p).isFixed = false ∧ (f p).isConstant = false) (free : j ∈ s.free) :
    ∃ p, (s.parameters.modify i f)[j]? = some p ∧ p.isFixed = false ∧ p.isConstant = false := by
  obtain ⟨p, here, released, variant⟩ := consistent.varying free
  rw [Array.getElem?_modify]
  split
  case isTrue same =>
    cases same
    exact ⟨f p, by rw [here]; rfl, varies p here released variant⟩
  case isFalse => exact ⟨p, here, released, variant⟩

theorem update {i : Nat} {f : Parameter α → Parameter α}
    (keeps : ∀ p, s.parameters[i]? = some p → (f p).number = p.number ∧ (f p).name = p.name)
    (ordered : ∀ p, s.parameters[i]? = some p → p.Ordered → (f p).Ordered)
    (value : ∀ p, s.parameters[i]? = some p → (f p).value = p.value)
    (varies : ∀ p, s.parameters[i]? = some p → p.isFixed = false → p.isConstant = false →
      (f p).isFixed = false ∧ (f p).isConstant = false) : (s.update i f).Consistent :=
  consistent.change rfl rfl keeps ordered (consistent.cachedModify value) consistent.ascending
    fun _ free => consistent.varyingModify varies free

theorem setValueAt (i : Nat) (value : α) : (s.setValueAt i value).Consistent := by
  have cached : s.values = s.declaredValues := consistent.cached
  refine consistent.change (f := (·.setValue value)) rfl rfl (fun _ _ => ⟨rfl, rfl⟩)
    (fun _ _ ordered => ordered) ?_ consistent.ascending fun j free =>
      consistent.varyingModify (fun _ _ released varies => ⟨released, varies⟩) free
  exact (congrArg (·.setIfInBounds i value) cached).trans (s.declaredSet i value).symm

theorem setErrorAt (i : Nat) (error : α) : (s.setErrorAt i error).Consistent :=
  consistent.update (fun _ _ => ⟨rfl, rfl⟩) (fun _ _ ordered => ordered) (fun _ _ => rfl)
    fun _ _ released _ => ⟨released, rfl⟩

theorem setPrecision (eps : α) : (s.setPrecision eps).Consistent :=
  ⟨consistent.numbered, consistent.distinct, consistent.named, consistent.cached,
    consistent.ascending, consistent.varying, consistent.ordered⟩

theorem setLimits {p : Address} {a b : α} {t : Space α} (comparable : a == b ∨ a < b ∨ a > b)
    (done : s.setLimits p a b = .ok t) : t.Consistent := by
  obtain ⟨i, _, done⟩ := okParts done
  obtain ⟨q, limited, done⟩ := okParts done
  cases done
  obtain ⟨lower, upper, rest⟩ := Parameter.setLimitsRest limited
  have same {p : Parameter α} (here : s.parameters[i]? = some p) :
      q = { p with lower := some lower, upper := some upper } := by
    rw [rest, parameterDeclared here]
  refine consistent.update ?_ (fun _ _ _ => Parameter.setLimitsOrdered comparable limited) ?_ ?_
  · intro p here
    rw [same here]
    exact ⟨rfl, rfl⟩
  · intro p here
    rw [same here]
  · intro p here released variant
    rw [same here]
    exact ⟨released, variant⟩

theorem fix {p : Address} {t : Space α} (done : s.fix p = .ok t) : t.Consistent := by
  obtain ⟨i, _, done⟩ := okParts done
  split at done
  case isFalse => cases done
  case isTrue =>
    cases done
    have once : s.free.Nodup := consistent.ascending.imp Nat.ne_of_lt
    refine consistent.change rfl rfl (fun _ _ => ⟨rfl, rfl⟩) (fun _ _ ordered => ordered)
      (consistent.cachedModify fun _ _ => rfl) (consistent.ascending.erase i) fun j left => ?_
    obtain ⟨other, free⟩ := once.mem_erase_iff.mp left
    obtain ⟨p, here, varies⟩ := consistent.varying free
    exact ⟨p, by rw [Space.update, Array.getElem?_modify, if_neg (Ne.symm other), here], varies⟩

end Consistent

theorem memInsertPlace {i j : Nat} {l : List Nat} : j ∈ insertPlace i l ↔ j = i ∨ j ∈ l := by
  induction l with
  | nil => simp [insertPlace]
  | cons k rest ih =>
    rw [insertPlace]
    split
    · simp
    · simp [ih, or_left_comm]

theorem insertPlaceAscending {i : Nat} {l : List Nat} (ascending : l.Pairwise (· < ·))
    (absent : i ∉ l) : (insertPlace i l).Pairwise (· < ·) := by
  induction l with
  | nil => exact List.pairwise_singleton _ _
  | cons j rest ih =>
    obtain ⟨below, others⟩ := List.pairwise_cons.mp ascending
    rw [List.mem_cons, not_or] at absent
    rw [insertPlace]
    split
    case isTrue le =>
      refine List.pairwise_cons.mpr ⟨fun k among => ?_, ascending⟩
      rcases List.mem_cons.mp among with rfl | later
      · omega
      · have := below k later
        omega
    case isFalse more =>
      refine List.pairwise_cons.mpr ⟨fun k among => ?_, ih others absent.2⟩
      rcases memInsertPlace.mp among with rfl | later
      · omega
      · exact below k later

namespace Consistent
variable {s : Space α} (consistent : s.Consistent)
include consistent

theorem release {p : Address} {t : Space α} (done : s.release p = .ok t) : t.Consistent := by
  obtain ⟨i, known, done⟩ := okParts done
  split at done
  case isTrue => cases done
  case isFalse held =>
    cases done
    obtain ⟨variant, absent⟩ := not_or.mp held
    refine consistent.change rfl rfl (fun _ _ => ⟨rfl, rfl⟩) (fun _ _ ordered => ordered)
      (consistent.cachedModify fun _ _ => rfl)
      (insertPlaceAscending consistent.ascending absent) fun j among => ?_
    rcases memInsertPlace.mp among with rfl | free
    · obtain ⟨p, here⟩ := consistent.indexOfDeclared known
      rw [parameterDeclared here] at variant
      refine ⟨p.release, ?_, rfl, Bool.of_not_eq_true variant⟩
      rw [Space.update, Array.getElem?_modify, if_pos rfl, here]
      rfl
    · exact consistent.varyingModify (fun _ _ _ varies => ⟨rfl, varies⟩) free

/-! ### Any operation -/

theorem perform {a : Action α} {t : Space α} (comparable : a.Comparable)
    (done : s.perform a = .ok t) : t.Consistent := by
  cases a with
  | add name value error =>
    rw [Space.perform, Space.add] at done
    refine consistent.declare (fun n p made => ?_) done
    cases made
    exact ⟨rfl, rfl, nofun, rfl⟩
  | addLimited name value error lower upper =>
    rw [Space.perform, Space.addLimited] at done
    refine consistent.declare (fun n p made => ?_) done
    obtain ⟨_, _, rest⟩ := Parameter.setLimitsRest made
    refine ⟨?_, ?_, Parameter.setLimitsOrdered comparable made, ?_⟩ <;> rw [rest]
  | addConstant name value =>
    rw [Space.perform, Space.addConstant] at done
    refine consistent.declare (fun n p made => ?_) done
    cases made
    exact ⟨rfl, rfl, nofun, rfl⟩
  | fix p => exact consistent.fix done
  | release p => exact consistent.release done
  | setValue p value =>
    obtain ⟨i, _, done⟩ := okParts done
    cases done
    exact consistent.setValueAt i value
  | setError p error =>
    obtain ⟨i, _, done⟩ := okParts done
    cases done
    exact consistent.setErrorAt i error
  | setLimits p lower upper => exact consistent.setLimits comparable done
  | setLower p lower =>
    obtain ⟨i, _, done⟩ := okParts done
    cases done
    exact consistent.update (fun _ _ => ⟨rfl, rfl⟩) (fun _ _ _ => nofun) (fun _ _ => rfl)
      fun _ _ released varies => ⟨released, varies⟩
  | setUpper p upper =>
    obtain ⟨i, _, done⟩ := okParts done
    cases done
    exact consistent.update (fun _ _ => ⟨rfl, rfl⟩) (fun _ _ _ => nofun) (fun _ _ => rfl)
      fun _ _ released varies => ⟨released, varies⟩
  | removeLimits p =>
    obtain ⟨i, _, done⟩ := okParts done
    cases done
    exact consistent.update (fun _ _ => ⟨rfl, rfl⟩) (fun _ _ _ => nofun) (fun _ _ => rfl)
      fun _ _ released varies => ⟨released, varies⟩
  | setPrecision eps =>
    cases done
    exact consistent.setPrecision eps

theorem step {a : Action α} (comparable : a.Comparable) : (s.step a).Consistent := by
  rw [Space.step]
  cases done : s.perform a with
  | error e => exact consistent
  | ok t => exact consistent.perform comparable done

theorem run {actions : List (Action α)} (comparable : ∀ a ∈ actions, a.Comparable) :
    (s.run actions).Consistent := by
  induction actions generalizing s with
  | nil => exact consistent
  | cons a rest ih =>
    exact ih (consistent.step (comparable a List.mem_cons_self))
      fun b among => comparable b (List.mem_cons_of_mem a among)

end Consistent

/-! ### Any history -/

theorem performReaddressed {s : Space α} (consistent : s.Consistent) {i : Nat} {p : Parameter α}
    (here : s.parameters[i]? = some p) (a : Action α) :
    s.perform (a.readdress (.name p.name)) = s.perform (a.readdress (.index i)) := by
  have same := consistent.indexOfName here
  cases a with
  | add | addLimited | addConstant | setPrecision => rfl
  | fix => simp only [Action.readdress, perform, fix, same]
  | release => simp only [Action.readdress, perform, release, same]
  | setValue => simp only [Action.readdress, perform, setValue, same]
  | setError => simp only [Action.readdress, perform, setError, same]
  | setLimits => simp only [Action.readdress, perform, setLimits, same]
  | setLower => simp only [Action.readdress, perform, setLower, same]
  | setUpper => simp only [Action.readdress, perform, setUpper, same]
  | removeLimits => simp only [Action.readdress, perform, removeLimits, same]

/- What the rest of a fit relies on: with its parts in step, a name and a place are as good as each
other in all that can be done to a parameter, and a coordinate is found again from its place. -/
structure Dependable (s : Space α) : Prop where
  consistent : s.Consistent
  named {name : String} {i : Nat} :
    s.names.lookup name = some i ↔ ∃ p, s.parameters[i]? = some p ∧ p.name = name
  addressed {i : Nat} {p : Parameter α} (here : s.parameters[i]? = some p) :
    s.indexOf (.name p.name) = s.indexOf (.index i) ∧
      ∀ a : Action α, s.perform (a.readdress (.name p.name)) = s.perform (a.readdress (.index i))
  placed {k : Nat} (inside : k < s.dimension) :
    s.place k < s.parameters.size ∧ s.coordinate? (s.place k) = some k

/- Whatever has been done to a space, with or without success. -/
theorem historyDependable (actions : List (Action α)) (comparable : ∀ a ∈ actions, a.Comparable) :
    ((empty : Space α).run actions).Dependable := by
  have consistent := emptyConsistent.run comparable
  refine ⟨consistent, consistent.lookup, fun here => ?_, fun {k} inside => ?_⟩
  · exact ⟨consistent.indexOfName here, performReaddressed consistent here⟩
  · have known : (empty.run actions).place? k = some ((empty.run actions).place k) := by
      rw [place?, place, List.getD_eq_getElem?_getD, List.getElem?_eq_getElem inside]
      rfl
    exact ⟨consistent.within (List.mem_of_getElem? known), consistent.coordinateOfPlace known⟩

end

theorem comparableExact (a : Action ℝ) : a.Comparable := by
  have trichotomy (a b : ℝ) : (a == b) = true ∨ a < b ∨ a > b := by
    rcases lt_trichotomy a b with less | equal | more
    · exact .inr (.inl less)
    · exact .inl (decide_eq_true equal)
    · exact .inr (.inr more)
  cases a with
  | addLimited _ _ _ lower upper => exact trichotomy lower upper
  | setLimits _ lower upper => exact trichotomy lower upper
  | _ => trivial

theorem historyDependableMixed :
    let history : List (Action ℝ) :=
      [.add "x" 1 0.1, .addLimited "y" 0 0.1 2 1, .addConstant "c" 3, .addLimited "z" 0 1 5 5,
        .add "x" 2 0.1, .fix (.name "x"), .fix (.index 0), .release (.index 0),
        .setLimits (.name "y") 4 3, .setError (.name "c") 1, .fix (.index 2), .setValue (.index 7) 0]
    (∀ a ∈ history, a.Comparable) ∧ ((empty : Space ℝ).run history).Dependable :=
  ⟨fun a _ => comparableExact a, historyDependable _ fun a _ => comparableExact a⟩

end Space
end ParamFit
