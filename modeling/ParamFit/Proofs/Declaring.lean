import ParamFit.Config.Basic

/-! A setup that breaks no rule can be built, and the space it builds has just what it declares: at each
place the parameter of the declaration there, and as coordinates the places of those that vary. -/
namespace ParamFit
variable {α : Type} [Scalar α]

namespace Declaration

def varies (d : Declaration α) : Bool := !d.constant && !d.fixed

/- The limits in ascending order. -/
def ordered (d : Declaration α) : Option α × Option α :=
  match d.lower, d.upper with
  | some a, some b => if a > b then (some b, some a) else (some a, some b)
  | lower, upper => (lower, upper)

/- What is declared, as the parameter with that number. -/
def parameter (d : Declaration α) (number : Nat) : Parameter α :=
  if d.constant then .constant number d.name d.value
  else
    { number, name := d.name, value := d.value, error := d.error, lower := d.ordered.1
      upper := d.ordered.2, isFixed := d.fixed }

end Declaration

namespace Space

/- The space that a list of declarations describes. -/
def declaring (prec : Precision α) (ds : List (Declaration α)) : Space α where
  precision := prec
  parameters := (ds.mapIdx fun i d => d.parameter i).toArray
  free := (List.range ds.length).filter fun i => (ds[i]?).any (·.varies)
  names := ds.mapIdx fun i d => (d.name, i)
  values := (ds.map (·.value)).toArray

variable {prec : Precision α} {ds : List (Declaration α)} {d : Declaration α} {s : Space α}

theorem declaringSize : (declaring prec ds).parameters.size = ds.length := by simp [declaring]

theorem declaringFree (i : Nat) :
    i ∈ (declaring prec ds).free ↔ ∃ d, ds[i]? = some d ∧ d.varies := by
  simp only [declaring, List.mem_filter, List.mem_range, Option.any_eq_true]
  refine ⟨And.right, fun found => ⟨?_, found⟩⟩
  obtain ⟨d, here, _⟩ := found
  exact (List.getElem?_eq_some_iff.mp here).1

theorem declaringFresh (fresh : d.name ∉ ds.map (·.name)) :
    (declaring prec ds).names.lookup d.name = none := by
  refine List.lookup_eq_none_iff.mpr fun pair among => bne_iff_ne.mpr fun same => fresh ?_
  obtain ⟨i, inside, rfl⟩ := List.mem_mapIdx.mp among
  exact same ▸ List.mem_map_of_mem (List.getElem_mem inside)

theorem declaringAt {i : Nat} (here : ds[i]? = some d) :
    (declaring prec ds).parameterAt i = d.parameter i := by
  simp [parameterAt, declaring, here]

/-! ### One more declaration -/

theorem parameterParts (d : Declaration α) (n : Nat) : (d.parameter n).number = n ∧
    (d.parameter n).name = d.name ∧ (d.parameter n).value = d.value := by
  unfold Declaration.parameter
  split <;> exact ⟨rfl, rfl, rfl⟩

theorem declaringNext (prec : Precision α) (ds : List (Declaration α)) (d : Declaration α) :
    declaring prec (ds ++ [d]) =
      { (declaring prec ds).append (d.parameter ds.length) with
        free := (declaring prec ds).free ++ if d.varies then [ds.length] else [] } := by
  obtain ⟨number, name, value⟩ := parameterParts d ds.length
  have free : (declaring prec (ds ++ [d])).free =
      (declaring prec ds).free ++ if d.varies then [ds.length] else [] := by
    have earlier : ∀ i ∈ List.range ds.length,
        ((ds ++ [d])[i]?).any (·.varies) = (ds[i]?).any (·.varies) := by
      intro i among
      rw [List.getElem?_append_left (List.mem_range.mp among)]
    simp [declaring, List.range_succ, List.filter_append, List.filter_congr earlier,
      List.filter_cons]
  have rest : { declaring prec (ds ++ [d]) with free := [] } =
      { (declaring prec ds).append (d.parameter ds.length) with free := [] } := by
    simp [declaring, append, List.mapIdx_concat, number, name, value]
  rw [← free]
  exact congrArg (fun t : Space α => { t with free := (declaring prec (ds ++ [d])).free }) rest

omit [Scalar α] in
/- What a change of the last parameter does to a space, if it keeps what the other parts tell. -/
theorem updateAppend (s : Space α) {p : Parameter α} {f : Parameter α → Parameter α}
    (number : p.number = s.parameters.size) (parts : (f p).number = p.number ∧ (f p).name = p.name ∧
      (f p).value = p.value ∧ (f p).isConstant = p.isConstant) :
    (s.append p).update p.number f = s.append (f p) := by
  obtain ⟨same, name, value, constant⟩ := parts
  have parameters : (s.parameters.push p).modify p.number f = s.parameters.push (f p) := by
    refine Array.ext_getElem? fun j => ?_
    rw [Array.getElem?_modify, Array.getElem?_push, Array.getElem?_push, number]
    split
    case isTrue last => simp [← last]
    case isFalse other => rw [if_neg (Ne.symm other), if_neg (Ne.symm other)]
  simp [update, append, parameters, same, name, value, constant]

omit [Scalar α] in
theorem indexOfAppended {p : Parameter α} (fresh : s.names.lookup p.name = none) :
    (s.append p).indexOf (.name p.name) = .ok p.number := by
  simp [indexOf, append, List.lookup_append, fresh]

end Space

namespace Declaration
variable {d : Declaration α} {s : Space α}

/- What is declared before it is fixed. -/
def released (d : Declaration α) (number : Nat) : Parameter α :=
  { number, name := d.name, value := d.value, error := d.error, lower := d.ordered.1
    upper := d.ordered.2 }

def declareReleased (d : Declaration α) (s : Space α) : Except (FitError α) (Space α) :=
  match d.lower, d.upper with
  | some lo, some hi => s.addLimited d.name d.value d.error lo hi
  | some lo, none => do (← s.add d.name d.value d.error).setLower (.name d.name) lo
  | none, some hi => do (← s.add d.name d.value d.error).setUpper (.name d.name) hi
  | none, none => s.add d.name d.value d.error

theorem declareParts (varied : ¬ d.constant = true) : d.declare s =
    d.declareReleased s >>= fun t => if d.fixed then t.fix (.name d.name) else .ok t := by
  rw [declare, if_neg varied, declareReleased]
  cases d.lower with
  | none =>
    cases d.upper with
    | none => rfl
    | some hi => cases s.add d.name d.value d.error <;> rfl
  | some lo =>
    cases d.upper with
    | none => cases s.add d.name d.value d.error <;> rfl
    | some hi => rfl

theorem limitsApart (valid : d.violations = []) {lo hi : α} (lower : d.lower = some lo)
    (upper : d.upper = some hi) : (lo == hi) = false := by
  simp only [violations, List.append_eq_nil_iff, lower, upper] at valid
  obtain ⟨⟨_, apart⟩, _⟩ := valid
  split at apart
  case isTrue => cases apart
  case isFalse differ => exact Bool.of_not_eq_true differ

section
variable (unknown : s.names.lookup d.name = none)
include unknown

omit [Scalar α] in
theorem addAppends : s.add d.name d.value d.error = .ok (s.append
    { number := s.parameters.size, name := d.name, value := d.value, error := d.error }) := by
  rw [Space.add, Space.declare, if_neg (by simp [Space.declared, unknown])]
  rfl

omit [Scalar α] in
/- A change of the parameter that was just added, by its name. -/
theorem changeAdded {f : Parameter α → Parameter α} (keeps : ∀ p, (f p).number = p.number ∧
      (f p).name = p.name ∧ (f p).value = p.value ∧ (f p).isConstant = p.isConstant) :
    (do let t ← s.add d.name d.value d.error
        return t.update (← t.indexOf (.name d.name)) f) = .ok (s.append (f
      { number := s.parameters.size, name := d.name, value := d.value, error := d.error })) := by
  let p : Parameter α :=
    { number := s.parameters.size, name := d.name, value := d.value, error := d.error }
  have here : (s.append p).indexOf (.name d.name) = .ok s.parameters.size :=
    Space.indexOfAppended (p := p) unknown
  rw [addAppends unknown]
  change (do return (s.append p).update (← (s.append p).indexOf (.name d.name)) f) = _
  rw [here]
  exact congrArg Except.ok (Space.updateAppend s (p := p) rfl (keeps p))

theorem declareReleasedAppends (valid : d.violations = []) :
    d.declareReleased s = .ok (s.append (d.released s.parameters.size)) := by
  unfold declareReleased released ordered
  cases lower : d.lower with
  | none =>
    cases upper : d.upper with
    | none => exact addAppends unknown
    | some hi => exact changeAdded unknown (f := (·.setUpper hi)) fun _ => ⟨rfl, rfl, rfl, rfl⟩
  | some lo =>
    cases upper : d.upper with
    | none => exact changeAdded unknown (f := (·.setLower lo)) fun _ => ⟨rfl, rfl, rfl, rfl⟩
    | some hi =>
      have apart : ¬ (lo == hi) = true := by simp [limitsApart valid lower upper]
      dsimp only
      rw [Space.addLimited, Space.declare, if_neg (by simp [Space.declared, unknown]),
        Parameter.limited, Parameter.setLimits, if_neg apart]
      split <;> rfl

end
end Declaration

namespace Space

theorem declareNext {prec : Precision α} {ds : List (Declaration α)} {d : Declaration α}
    (fresh : d.name ∉ ds.map (·.name)) (valid : d.violations = []) :
    d.declare (declaring prec ds) = .ok (declaring prec (ds ++ [d])) := by
  have unknown : (declaring prec ds).names.lookup d.name = none := declaringFresh fresh
  have size : (declaring prec ds).parameters.size = ds.length := declaringSize
  rw [declaringNext, Declaration.varies, Declaration.parameter]
  by_cases constant : d.constant
  · rw [Declaration.declare, if_pos constant, if_pos constant, addConstant, declare,
      if_neg (by simp [declared, unknown]), size]
    simp [constant, append, Parameter.constant, Except.map]
  have released := d.declareReleasedAppends unknown valid
  rw [size] at released
  rw [d.declareParts constant, released, if_neg constant]
  let q := d.released ds.length
  change (if d.fixed then ((declaring prec ds).append q).fix (.name q.name)
    else .ok ((declaring prec ds).append q)) = _
  by_cases fixed : d.fixed
  · have last : ((declaring prec ds).append q).free = (declaring prec ds).free ++ [ds.length] := rfl
    have outside : ds.length ∉ (declaring prec ds).free := by
      rw [declaringFree]
      rintro ⟨d, here, _⟩
      exact absurd here (by simp)
    have here : ((declaring prec ds).append q).indexOf (.name q.name) = .ok ds.length :=
      indexOfAppended (p := q) unknown
    have changed : ((declaring prec ds).append q).update ds.length Parameter.fix =
        (declaring prec ds).append q.fix :=
      updateAppend (declaring prec ds) (p := q) size.symm ⟨rfl, rfl, rfl, rfl⟩
    rw [if_pos fixed, fix, here]
    change (if ds.length ∈ _ then _ else _) = _
    rw [if_pos (by simp [last]), changed, last, List.erase_append_right _ outside,
      List.erase_cons_head]
    simp only [fixed, Bool.not_true, Bool.and_false, Bool.false_eq_true, if_false, List.append_nil]
    rfl
  · rw [if_neg fixed]
    simp [fixed, constant, q, Declaration.released, append]

/- Each name is new where no declaration after the ones done breaks a rule. -/
theorem declareAll (prec : Precision α) (done : List (Declaration α)) {ds : List (Declaration α)}
    {seen : List String}
    (known : ∀ name ∈ done.map (·.name), name ∈ seen)
    (valid : Setup.declarationViolations seen ds = []) :
    ds.foldlM (fun space d => d.declare space) (declaring prec done) =
      .ok (declaring prec (done ++ ds)) := by
  induction ds generalizing done seen with
  | nil => rw [List.append_nil]; rfl
  | cons d ds ih =>
    simp only [Setup.declarationViolations, List.append_eq_nil_iff] at valid
    obtain ⟨⟨here, new⟩, rest⟩ := valid
    have fresh : d.name ∉ done.map (·.name) := by
      intro among
      rw [if_pos (by simpa using known _ among)] at new
      cases new
    rw [List.foldlM_cons, declareNext fresh here, List.append_cons done d ds]
    refine ih (done ++ [d]) (fun name among => ?_) rest
    rw [List.map_append, List.mem_append] at among
    rcases among with earlier | last
    · exact .tail _ (known name earlier)
    · simp only [List.map_cons, List.map_nil, List.mem_singleton] at last
      exact last ▸ .head _

end Space

namespace Setup

/- No declaration breaks a rule of its own where the whole list breaks none. -/
theorem declarationsValid {seen : List String} {ds : List (Declaration α)}
    (valid : declarationViolations seen ds = []) : ∀ d ∈ ds, d.violations = [] := by
  induction ds generalizing seen with
  | nil => simp
  | cons d ds ih =>
    simp only [declarationViolations, List.append_eq_nil_iff] at valid
    exact List.forall_mem_cons.mpr ⟨valid.1.1, ih valid.2⟩

theorem settingsValid {s : Setup α} (valid : s.violations = []) : s.settings.violations = [] :=
  (List.append_eq_nil_iff.mp valid).1

theorem declarationValid {s : Setup α} (valid : s.violations = []) {d : Declaration α}
    (among : d ∈ s.parameters) : d.violations = [] :=
  declarationsValid (List.append_eq_nil_iff.mp valid).2 d among

def precision (s : Setup α) : Precision α :=
  match s.settings.precision with
  | some eps => .ofEps eps
  | none => .machine

/- A setup without violations builds what it declares. -/
theorem spaceDeclared {s : Setup α} (valid : s.violations = []) :
    s.space = .ok (.declaring s.precision s.parameters) := by
  rw [violations, List.append_eq_nil_iff] at valid
  have all := Space.declareAll .machine [] (by simp) valid.2
  rw [List.nil_append] at all
  have start : Space.declaring .machine [] = (Space.empty : Space α) := rfl
  rw [start] at all
  rw [space, all, precision]
  cases s.settings.precision <;> rfl

theorem stateDeclared {s : Setup α} (valid : s.violations = []) :
    s.state = .ok (.ofSpace (.declaring s.precision s.parameters)) := by
  rw [state, spaceDeclared valid]
  rfl

end Setup
end ParamFit
