import ParamFit.Proofs.Consistency

/-! Which parameters vary. A parameter that is neither fixed nor constant is among the coordinates,
with one exception: a constant that is given an error is no constant any more, but nothing puts it
among the coordinates. It lies dormant, neither variable nor fixed nor constant, until it is released.
Nothing is asked of the limits here; they may well be no numbers. -/
namespace ParamFit
variable {α : Type}

/- Neither fixed nor constant. -/
def Parameter.Loose (p : Parameter α) : Prop := p.isFixed = false ∧ p.isConstant = false

namespace Space

/-! ### Names lead to declared places -/

def Named (s : Space α) : Prop := ∀ e ∈ s.names, e.2 < s.parameters.size

theorem Named.indexOf {s : Space α} (named : s.Named) {q : Address} {i : Nat}
    (known : s.indexOf q = .ok i) : ∃ p, s.parameters[i]? = some p := by
  have inside : i < s.parameters.size := by
    cases q with
    | index j =>
      rw [Space.indexOf] at known
      split at known
      case isTrue inside =>
        cases known
        exact inside
      case isFalse => cases known
    | name n =>
      rw [Space.indexOf] at known
      split at known
      case h_1 found =>
        cases known
        obtain ⟨before, after, split, _⟩ := List.lookup_eq_some_iff.mp found
        exact named (n, i) (by rw [split]; simp)
      case h_2 => cases known
  exact ⟨_, Array.getElem?_eq_getElem inside⟩

theorem Named.append {s : Space α} (named : s.Named) {p : Parameter α}
    (number : p.number = s.parameters.size) : (s.append p).Named := by
  intro e among
  rw [Space.append, Array.size_push]
  rcases List.mem_append.mp among with among | last
  · exact (named e among).trans (Nat.lt_succ_self _)
  · rw [List.mem_singleton.mp last, number]
    exact Nat.lt_succ_self _

theorem indexOfSame {s t : Space α} {p : Address} (names : t.names = s.names)
    (size : t.parameters.size = s.parameters.size) : t.indexOf p = s.indexOf p := by
  cases p with
  | index k => rw [indexOf, indexOf, size]
  | name n => rw [indexOf, indexOf, names]

/-! ### What an action can do -/

section
variable [Scalar α] {s t : Space α}

/- What an action makes of a space. -/
inductive Turns (s : Space α) : Space α → Prop where
  | adds (p : Parameter α) (number : p.number = s.parameters.size) : s.Turns (s.append p)
  | changes (i : Nat) (f : Parameter α → Parameter α)
      (value : ∀ p, s.parameters[i]? = some p → (f p).value = p.value) : s.Turns (s.update i f)
  | moves (i : Nat) (v : α) : s.Turns (s.setValueAt i v)
  | fixes (i : Nat) : s.Turns { s.update i Parameter.fix with free := s.free.erase i }
  | releases (i : Nat) (absent : i ∉ s.free) :
      s.Turns { s.update i Parameter.release with free := insertPlace i s.free }
  | tunes (eps : α) : s.Turns (s.setPrecision eps)

theorem declareTurns {name : String} {make : Nat → Except (FitError α) (Parameter α)}
    (made : ∀ n p, make n = .ok p → p.number = n) (done : s.declare name make = .ok t) : s.Turns t := by
  obtain ⟨p, -, known, rfl⟩ := declareAppends done
  exact .adds p (made _ _ known)

theorem performTurns {a : Action α} (done : s.perform a = .ok t) : s.Turns t := by
  cases a with
  | add name value error =>
    rw [perform, add] at done
    refine declareTurns (fun n p made => ?_) done
    cases made
    rfl
  | addLimited name value error lower upper =>
    rw [perform, addLimited] at done
    refine declareTurns (fun n p made => ?_) done
    obtain ⟨_, _, rest⟩ := Parameter.setLimitsRest made
    rw [rest]
  | addConstant name value =>
    rw [perform, addConstant] at done
    refine declareTurns (fun n p made => ?_) done
    cases made
    rfl
  | fix q =>
    obtain ⟨i, _, done⟩ := okParts done
    split at done
    · cases done
      exact .fixes i
    · cases done
  | release q =>
    obtain ⟨i, _, done⟩ := okParts done
    split at done
    case isTrue => cases done
    case isFalse held =>
      cases done
      exact .releases i (not_or.mp held).2
  | setValue q value =>
    obtain ⟨i, _, done⟩ := okParts done
    cases done
    exact .moves i value
  | setError q error =>
    obtain ⟨i, _, done⟩ := okParts done
    cases done
    exact .changes i _ fun _ _ => rfl
  | setLimits q lower upper =>
    obtain ⟨i, _, done⟩ := okParts done
    obtain ⟨limited, set, done⟩ := okParts done
    cases done
    obtain ⟨_, _, rest⟩ := Parameter.setLimitsRest set
    refine .changes i _ fun p here => ?_
    rw [rest, parameterDeclared here]
  | setLower q lower =>
    obtain ⟨i, _, done⟩ := okParts done
    cases done
    exact .changes i _ fun _ _ => rfl
  | setUpper q upper =>
    obtain ⟨i, _, done⟩ := okParts done
    cases done
    exact .changes i _ fun _ _ => rfl
  | removeLimits q =>
    obtain ⟨i, _, done⟩ := okParts done
    cases done
    exact .changes i _ fun _ _ => rfl
  | setPrecision eps =>
    cases done
    exact .tunes eps

end

/-! ### What every action keeps -/

/- Of the parameters that are neither fixed nor constant, all but the dormant ones vary. A constant is
never fixed. -/
structure Tended (s : Space α) (asleep : List Nat) : Prop where
  named : s.Named
  once : s.free.Nodup
  varies (i : Nat) : i ∈ s.free ↔ ∃ p, s.parameters[i]? = some p ∧ p.Loose ∧ i ∉ asleep
  loose {i : Nat} (dormant : i ∈ asleep) : ∃ p, s.parameters[i]? = some p ∧ p.Loose
  unfixed {i : Nat} {p : Parameter α} (here : s.parameters[i]? = some p)
    (constant : p.isConstant) : p.isFixed = false

namespace Tended
variable {s t : Space α} {asleep awake : List Nat}

/- A change of the parameter at one place. What is said of the other places stays as it was. -/
theorem change (tended : s.Tended asleep) {i : Nat} {p : Parameter α}
    {f : Parameter α → Parameter α} (here : s.parameters[i]? = some p)
    (parameters : t.parameters = s.parameters.modify i f) (names : t.names = s.names)
    (once : t.free.Nodup) (free : ∀ j, j ≠ i → (j ∈ t.free ↔ j ∈ s.free))
    (others : ∀ j, j ≠ i → (j ∈ awake ↔ j ∈ asleep))
    (varies : i ∈ t.free ↔ (f p).Loose ∧ i ∉ awake) (loose : i ∈ awake → (f p).Loose)
    (unfixed : (f p).isConstant → (f p).isFixed = false) : t.Tended awake := by
  have same : t.parameters[i]? = some (f p) := by
    rw [parameters, Array.getElem?_modify, if_pos rfl, here]
    rfl
  have other {j : Nat} (apart : j ≠ i) : t.parameters[j]? = s.parameters[j]? := by
    rw [parameters, Array.getElem?_modify, if_neg apart.symm]
  refine ⟨?_, once, fun j => ?_, fun {j} dormant => ?_, fun {j q} there constant => ?_⟩
  · intro e among
    rw [parameters, Array.size_modify]
    exact tended.named e (names ▸ among)
  · by_cases at_ : j = i
    · subst at_
      rw [varies, same]
      simp
    · rw [free j at_, other at_, others j at_]
      exact tended.varies j
  · by_cases at_ : j = i
    · subst at_
      exact ⟨_, same, loose dormant⟩
    · rw [other at_]
      exact tended.loose ((others j at_).mp dormant)
  · by_cases at_ : j = i
    · subst at_
      cases same.symm.trans there
      exact unfixed constant
    · exact tended.unfixed ((other at_).symm.trans there) constant

/- A change that neither fixes nor releases. -/
theorem keep (tended : s.Tended asleep) {i : Nat} {p : Parameter α}
    {f : Parameter α → Parameter α} (here : s.parameters[i]? = some p)
    (parameters : t.parameters = s.parameters.modify i f) (names : t.names = s.names)
    (free : t.free = s.free) (fixed : (f p).isFixed = p.isFixed)
    (constant : (f p).isConstant = p.isConstant) : t.Tended asleep := by
  have loose : (f p).Loose ↔ p.Loose := by rw [Parameter.Loose, Parameter.Loose, fixed, constant]
  refine tended.change here parameters names (free ▸ tended.once) (fun _ _ => by rw [free])
    (fun _ _ => Iff.rfl) ?_ (fun dormant => ?_) fun still => ?_
  · rw [free, tended.varies, here, loose]
    simp
  · obtain ⟨q, there, held⟩ := tended.loose dormant
    cases here.symm.trans there
    exact loose.mpr held
  · rw [fixed]
    exact tended.unfixed here (constant ▸ still)

theorem keepAt (tended : s.Tended asleep) {q : Address} {i : Nat} (known : s.indexOf q = .ok i)
    {f : Parameter α → Parameter α} (parameters : t.parameters = s.parameters.modify i f)
    (names : t.names = s.names) (free : t.free = s.free)
    (fixed : ∀ p, (f p).isFixed = p.isFixed) (constant : ∀ p, (f p).isConstant = p.isConstant) :
    t.Tended asleep := by
  obtain ⟨p, here⟩ := tended.named.indexOf known
  exact tended.keep here parameters names free (fixed p) (constant p)

theorem declare (tended : s.Tended asleep) {name : String}
    {make : Nat → Except (FitError α) (Parameter α)}
    (made : ∀ n p, make n = .ok p → p.number = n ∧ p.isFixed = false)
    (done : s.declare name make = .ok t) : t.Tended asleep := by
  obtain ⟨p, -, known, rfl⟩ := declareAppends done
  obtain ⟨number, released⟩ := made _ _ known
  have before {j : Nat} (inside : j < s.parameters.size) :
      (s.append p).parameters[j]? = s.parameters[j]? := by
    rw [append, Array.getElem?_push, if_neg (by omega)]
  have last : (s.append p).parameters[s.parameters.size]? = some p := by
    rw [append, Array.getElem?_push, if_pos rfl]
  have size : (s.append p).parameters.size = s.parameters.size + 1 := Array.size_push p
  have inside {j : Nat} {q : Parameter α} (here : s.parameters[j]? = some q) :
      j < s.parameters.size := (Array.getElem?_eq_some_iff.mp here).1
  have listed : s.parameters.size ∉ s.free := by
    intro free
    obtain ⟨q, here, _⟩ := (tended.varies _).mp free
    exact absurd (inside here) (lt_irrefl _)
  have awake : s.parameters.size ∉ asleep := by
    intro dormant
    obtain ⟨q, here, _⟩ := tended.loose dormant
    exact absurd (inside here) (lt_irrefl _)
  have free (j : Nat) : j ∈ (s.append p).free ↔
      j ∈ s.free ∨ (j = s.parameters.size ∧ p.isConstant = false) := by
    rw [append]
    cases p.isConstant <;> simp [number]
  refine ⟨tended.named.append number, ?_, fun j => ?_, fun {j} dormant => ?_,
    fun {j q} here constant => ?_⟩
  · rw [append]
    dsimp only
    split
    · exact tended.once
    · exact tended.once.append (List.nodup_singleton _) (by simpa [number] using listed)
  · rw [free]
    by_cases at_ : j = s.parameters.size
    · subst at_
      simp [last, listed, awake, Parameter.Loose, released]
    · by_cases among : j < s.parameters.size
      · rw [before among, tended.varies]
        simp [at_]
      · have beyond : (s.append p).parameters[j]? = none :=
          Array.getElem?_eq_none (by omega)
        have absent : s.parameters[j]? = none := Array.getElem?_eq_none (by omega)
        rw [tended.varies]
        simp [beyond, absent, at_]
  · obtain ⟨q, here, loose⟩ := tended.loose dormant
    exact ⟨q, (before (inside here)).trans here, loose⟩
  · by_cases at_ : j = s.parameters.size
    · subst at_
      cases last.symm.trans here
      exact released
    · have among : j < (s.append p).parameters.size := (Array.getElem?_eq_some_iff.mp here).1
      exact tended.unfixed ((before (by omega)).symm.trans here) constant

/- Only which places are dormant matters. -/
theorem same (tended : s.Tended asleep) (equal : ∀ j, j ∈ awake ↔ j ∈ asleep) : s.Tended awake :=
  ⟨tended.named, tended.once, fun j => by rw [tended.varies, equal],
    fun dormant => tended.loose ((equal _).mp dormant), tended.unfixed⟩

end Tended

theorem insertPlaceNodup {i : Nat} {l : List Nat} (once : l.Nodup) (absent : i ∉ l) :
    (insertPlace i l).Nodup := by
  induction l with
  | nil => exact List.nodup_singleton i
  | cons j rest ih =>
    obtain ⟨apart, others⟩ := List.nodup_cons.mp once
    rw [insertPlace]
    split
    · exact List.nodup_cons.mpr ⟨absent, once⟩
    · obtain ⟨other, absent⟩ := not_or.mp (mt List.mem_cons.mpr absent)
      refine List.nodup_cons.mpr ⟨fun among => ?_, ih others absent⟩
      rcases memInsertPlace.mp among with same | among
      · exact other same.symm
      · exact apart among

variable [Scalar α]

/- The dormant places after an action, from those before it. -/
def stir (s : Space α) (asleep : List Nat) : Action α → List Nat
  | .setError q _ =>
    match s.indexOf q with
    | .ok i => if (s.parameterAt i).isConstant then i :: asleep else asleep
    | .error _ => asleep
  | .release q =>
    match s.indexOf q with
    | .ok i => asleep.filter (· != i)
    | .error _ => asleep
  | _ => asleep

def dormantFrom (s : Space α) (asleep : List Nat) : List (Action α) → List Nat
  | [] => asleep
  | a :: rest => (s.step a).dormantFrom (s.stir asleep a) rest

/- The places of the constants that were given an error and not released since. -/
def dormant (actions : List (Action α)) : List Nat := (empty : Space α).dormantFrom [] actions

theorem emptyTended : (empty : Space α).Tended [] where
  named _ among := nomatch among
  once := .nil
  varies i := ⟨nofun, fun ⟨_, here, _⟩ => by cases here⟩
  loose dormant := nomatch dormant
  unfixed here := by cases here

namespace Tended
variable {s t : Space α} {asleep : List Nat}

theorem fix (tended : s.Tended asleep) {q : Address} (done : s.fix q = .ok t) :
    t.Tended asleep := by
  obtain ⟨i, _, done⟩ := okParts done
  split at done
  case isFalse => cases done
  case isTrue free =>
    cases done
    obtain ⟨p, here, loose, awake⟩ := (tended.varies i).mp free
    refine tended.change (f := Parameter.fix) here rfl rfl (tended.once.erase i)
      (fun j other => List.mem_erase_of_ne other) (fun _ _ => Iff.rfl) ?_
      (fun dormant => absurd dormant awake) fun constant => ?_
    · simp [tended.once.not_mem_erase, Parameter.Loose, Parameter.fix]
    · exact absurd constant (by simp [Parameter.fix, loose.2])

theorem release (tended : s.Tended asleep) {q : Address} (done : s.release q = .ok t) :
    t.Tended (s.stir asleep (.release q)) := by
  obtain ⟨i, known, done⟩ := okParts done
  obtain ⟨p, here⟩ := tended.named.indexOf known
  rw [parameterDeclared here] at done
  split at done
  case isTrue => cases done
  case isFalse held =>
    cases done
    obtain ⟨variant, absent⟩ := not_or.mp held
    simp only [stir, known]
    refine tended.change (f := Parameter.release) here rfl rfl ?_
      (fun j other => by simp [memInsertPlace, other]) (fun j other => by simp [other]) ?_ ?_ ?_
    · exact insertPlaceNodup tended.once absent
    · simp [memInsertPlace, Parameter.Loose, Parameter.release, variant]
    · simp
    · exact fun _ => rfl

theorem setError (tended : s.Tended asleep) {q : Address} {e : α} (done : s.setError q e = .ok t) :
    t.Tended (s.stir asleep (.setError q e)) := by
  obtain ⟨i, known, done⟩ := okParts done
  cases done
  obtain ⟨p, here⟩ := tended.named.indexOf known
  simp only [stir, known, parameterDeclared here]
  split
  case isTrue constant =>
    have loose : (p.setError e).Loose := ⟨show p.isFixed = false from tended.unfixed here constant, rfl⟩
    refine tended.change (f := (·.setError e)) here rfl rfl tended.once (fun _ _ => Iff.rfl)
      (fun j other => by simp [other]) ?_ (fun _ => loose) fun _ => loose.1
    have listed : i ∉ s.free := by
      rw [tended.varies, here]
      simp [Parameter.Loose, constant]
    exact ⟨fun free => absurd free listed, fun awake => absurd List.mem_cons_self awake.2⟩
  case isFalse variant =>
    have still : p.isConstant = false := Bool.of_not_eq_true variant
    exact tended.keep (f := (·.setError e)) here rfl rfl rfl rfl still.symm

theorem perform (tended : s.Tended asleep) {a : Action α} (done : s.perform a = .ok t) :
    t.Tended (s.stir asleep a) := by
  cases a with
  | add name value error =>
    rw [Space.perform, Space.add] at done
    refine tended.declare (fun n p made => ?_) done
    cases made
    exact ⟨rfl, rfl⟩
  | addLimited name value error lower upper =>
    rw [Space.perform, Space.addLimited] at done
    refine tended.declare (fun n p made => ?_) done
    obtain ⟨_, _, rest⟩ := Parameter.setLimitsRest made
    rw [rest]
    exact ⟨rfl, rfl⟩
  | addConstant name value =>
    rw [Space.perform, Space.addConstant] at done
    refine tended.declare (fun n p made => ?_) done
    cases made
    exact ⟨rfl, rfl⟩
  | fix q => exact tended.fix done
  | release q => exact tended.release done
  | setValue q value =>
    obtain ⟨i, known, done⟩ := okParts done
    cases done
    exact tended.keepAt (f := (·.setValue value)) known rfl rfl rfl (fun _ => rfl) fun _ => rfl
  | setError q error => exact tended.setError done
  | setLimits q lower upper =>
    obtain ⟨i, known, done⟩ := okParts done
    obtain ⟨limited, set, done⟩ := okParts done
    cases done
    obtain ⟨p, here⟩ := tended.named.indexOf known
    obtain ⟨_, _, rest⟩ := Parameter.setLimitsRest set
    rw [parameterDeclared here] at rest
    exact tended.keep (f := fun _ => limited) here rfl rfl rfl (by rw [rest]) (by rw [rest])
  | setLower q lower =>
    obtain ⟨i, known, done⟩ := okParts done
    cases done
    exact tended.keepAt (f := (·.setLower lower)) known rfl rfl rfl (fun _ => rfl) fun _ => rfl
  | setUpper q upper =>
    obtain ⟨i, known, done⟩ := okParts done
    cases done
    exact tended.keepAt (f := (·.setUpper upper)) known rfl rfl rfl (fun _ => rfl) fun _ => rfl
  | removeLimits q =>
    obtain ⟨i, known, done⟩ := okParts done
    cases done
    exact tended.keepAt (f := Parameter.removeLimits) known rfl rfl rfl (fun _ => rfl) fun _ => rfl
  | setPrecision eps =>
    cases done
    exact ⟨tended.named, tended.once, tended.varies, tended.loose, tended.unfixed⟩

theorem step (tended : s.Tended asleep) (a : Action α) :
    (s.step a).Tended (s.stir asleep a) := by
  rw [Space.step]
  cases done : s.perform a with
  | ok t => exact tended.perform done
  | error e =>
    cases a with
    | release q =>
      -- What cannot be released is a coordinate or a constant, and neither is dormant.
      refine tended.same fun j => ?_
      simp only [stir]
      split
      case h_1 i known =>
        refine ⟨fun among => (List.mem_filter.mp among).1, fun dormant =>
          List.mem_filter.mpr ⟨dormant, bne_iff_ne.mpr ?_⟩⟩
        rintro rfl
        obtain ⟨p, here, loose⟩ := tended.loose dormant
        have absent : j ∉ s.free := fun free => by
          obtain ⟨_, _, _, awake⟩ := (tended.varies j).mp free
          exact awake dormant
        rw [Space.perform, Space.release, known] at done
        change (if _ then _ else _ : Except (FitError α) (Space α)) = _ at done
        rw [parameterDeclared here, if_neg (by simp [loose.2, absent])] at done
        cases done
      case h_2 => rfl
    | setError q e =>
      simp only [stir]
      split
      case h_1 i known =>
        rw [Space.perform, Space.setError, known] at done
        cases done
      case h_2 => exact tended
    | _ => exact tended

theorem run (tended : s.Tended asleep) (actions : List (Action α)) :
    (s.run actions).Tended (s.dormantFrom asleep actions) := by
  induction actions generalizing s asleep with
  | nil => exact tended
  | cons a rest ih => exact ih (tended.step a)

end Tended

/-! ### What can be fixed and released -/

/- The parameters at the dormant places apart, the coordinates are those that are neither fixed nor
constant. These can be fixed; those that are fixed and not constant can be released, and the dormant
ones as well. -/
structure Varying (s : Space α) (asleep : List Nat) : Prop where
  coordinates (i : Nat) :
    i ∈ s.free ↔ ∃ p, s.parameters[i]? = some p ∧ p.Loose ∧ i ∉ asleep
  fixes (q : Address) : (∃ t, s.fix q = .ok t) ↔
    ∃ i p, s.indexOf q = .ok i ∧ s.parameters[i]? = some p ∧ p.Loose ∧ i ∉ asleep
  releases (q : Address) : (∃ t, s.release q = .ok t) ↔
    ∃ i p, s.indexOf q = .ok i ∧ s.parameters[i]? = some p ∧ p.isConstant = false ∧
      (p.isFixed ∨ i ∈ asleep)

section
variable {s : Space α} {asleep : List Nat}

theorem fixIffVaries {q : Address} :
    (∃ t, s.fix q = .ok t) ↔ ∃ i, s.indexOf q = .ok i ∧ i ∈ s.free := by
  rw [fix]
  constructor
  · rintro ⟨t, done⟩
    obtain ⟨i, known, done⟩ := okParts done
    split at done
    case isTrue free => exact ⟨i, known, free⟩
    case isFalse => cases done
  · rintro ⟨i, known, free⟩
    rw [known]
    exact ⟨_, if_pos free⟩

theorem releaseIffHeld {q : Address} :
    (∃ t, s.release q = .ok t) ↔
      ∃ i, s.indexOf q = .ok i ∧ (s.parameterAt i).isConstant = false ∧ i ∉ s.free := by
  rw [release]
  constructor
  · rintro ⟨t, done⟩
    obtain ⟨i, known, done⟩ := okParts done
    split at done
    case isTrue => cases done
    case isFalse held => exact ⟨i, known, by simpa using not_or.mp held⟩
  · rintro ⟨i, known, variant, absent⟩
    rw [known]
    exact ⟨_, if_neg (by simp [variant, absent])⟩

theorem Tended.varying (tended : s.Tended asleep) : s.Varying asleep where
  coordinates := tended.varies
  fixes q := by
    rw [fixIffVaries]
    constructor
    · rintro ⟨i, known, free⟩
      obtain ⟨p, found⟩ := (tended.varies i).mp free
      exact ⟨i, p, known, found⟩
    · rintro ⟨i, p, known, found⟩
      exact ⟨i, known, (tended.varies i).mpr ⟨p, found⟩⟩
  releases q := by
    rw [releaseIffHeld]
    constructor
    · rintro ⟨i, known, variant, absent⟩
      obtain ⟨p, here⟩ := tended.named.indexOf known
      rw [parameterDeclared here] at variant
      refine ⟨i, p, known, here, variant, or_iff_not_imp_left.mpr fun unfixed => ?_⟩
      by_contra awake
      exact absent ((tended.varies i).mpr ⟨p, here, ⟨Bool.of_not_eq_true unfixed, variant⟩, awake⟩)
    · rintro ⟨i, p, known, here, variant, held⟩
      refine ⟨i, known, by rwa [parameterDeclared here], fun free => ?_⟩
      obtain ⟨q, there, loose, awake⟩ := (tended.varies i).mp free
      cases here.symm.trans there
      rcases held with fixed | dormant
      · exact absurd fixed (by simp [loose.1])
      · exact awake dormant

end

/- Whatever has been done to a space, with or without success, the parameters that vary are those
that are neither fixed nor constant nor dormant; and those that are neither fixed nor constant
exactly if no constant was given an error without being released since. -/
theorem variesUnlessDormant (actions : List (Action α)) :
    ((empty : Space α).run actions).Varying (dormant actions) ∧
      (((empty : Space α).run actions).Varying [] ↔ dormant actions = []) := by
  have tended : ((empty : Space α).run actions).Tended (dormant actions) :=
    emptyTended.run actions
  refine ⟨tended.varying, fun varying => ?_, fun awake => awake ▸ tended.varying⟩
  refine List.eq_nil_iff_forall_not_mem.mpr fun i dormant => ?_
  obtain ⟨p, here, loose⟩ := tended.loose dormant
  obtain ⟨_, _, _, awake⟩ :=
    (tended.varies i).mp ((varying.coordinates i).mpr ⟨p, here, loose, List.not_mem_nil⟩)
  exact awake dormant

/- A constant that is given an error is neither fixed nor constant any more. It is no coordinate,
cannot be fixed, and can be released although it was never fixed. -/
theorem constantUnlisted :
    let s := (empty : Space ℝ).run [.addConstant "c" 3, .setError (.name "c") 0.1]
    (∃ p, s.parameters[0]? = some p ∧ p.Loose) ∧ 0 ∉ s.free ∧
      (¬∃ t, s.fix (.name "c") = .ok t) ∧ ∃ t, s.release (.name "c") = .ok t := by
  refine ⟨⟨_, rfl, rfl, rfl⟩, List.not_mem_nil, ?_, ⟨_, rfl⟩⟩
  rintro ⟨t, done⟩
  cases done

end Space
end ParamFit
