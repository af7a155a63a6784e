import ParamFit.Proofs.Arising

/-! The operations in place, part after part: a name is registered before its parameter is there, a
covariance is squeezed before the parameter is fixed, limits are set before the value is moved between
them, and what was changed before an error stays changed. Each of them has the outcome of the
operation that changes everything at once; so no error comes after a change. -/
namespace ParamFit
variable {α β σ τ : Type} {m : Type → Type}

/- A change of a state that an error does not take back. -/
abbrev Edit (m : Type → Type) (α σ β : Type) := ExceptT (FitError α) (StateT σ m) β

namespace Edit

/- The outcome of an operation that changes all at once or nothing. -/
def settled (s : σ) : Except (FitError α) (β × σ) → Except (FitError α) β × σ
  | .ok (b, t) => (.ok b, t)
  | .error e => (.error e, s)

/- In place, an operation has the outcome of one that changes all at once or nothing. -/
def Whole [Monad m] (edit : Edit m α σ β) (s : σ) (outcome : m (Except (FitError α) (β × σ))) : Prop :=
  edit.run.run s = settled s <$> outcome

/- An edit of a part of the state. -/
def within [Monad m] (part : σ → τ) (put : σ → τ → σ) (edit : Edit Id α τ β) : Edit m α σ β :=
  fun s => let (r, t) := edit.run.run (part s); pure (r, put s t)

def reading (read : σ → Except (FitError α) β) : Edit Id α σ β := fun s => (read s, s)

section
variable {γ : Type}

@[simp] theorem runPure (b : β) (s : σ) : (pure b : Edit Id α σ β).run.run s = (.ok b, s) := rfl

@[simp] theorem runThrow (e : FitError α) (s : σ) :
    (throw e : Edit Id α σ β).run.run s = (.error e, s) := rfl

@[simp] theorem runGet (s : σ) : (get : Edit Id α σ σ).run.run s = (.ok s, s) := rfl

@[simp] theorem runModify (f : σ → σ) (s : σ) :
    (modify f : Edit Id α σ PUnit).run.run s = (.ok ⟨⟩, f s) := rfl

@[simp] theorem runReading (read : σ → Except (FitError α) β) (s : σ) :
    (reading read).run.run s = (read s, s) := rfl

@[simp] theorem runIte {c : Prop} [Decidable c] (yes no : Edit Id α σ β) (s : σ) :
    (if c then yes else no).run.run s = if c then yes.run.run s else no.run.run s := by
  split <;> rfl

@[simp] theorem runBind (first : Edit Id α σ β) (rest : β → Edit Id α σ γ) (s : σ) :
    (first >>= rest).run.run s =
      match first.run.run s with
      | (.ok b, t) => (rest b).run.run t
      | (.error e, t) => (.error e, t) := by
  simp only [bind, ExceptT.bind, ExceptT.mk, ExceptT.run, StateT.run, StateT.bind]
  generalize first s = r
  obtain ⟨e | b, t⟩ := r
  · rfl
  · rfl

end

section
variable [Scalar α]

/-! ### Declarations -/

def register (name : String) : Edit Id α (Space α) Nat := do
  if (← get).declared name then throw (.duplicateName name)
  let number := (← get).parameters.size
  modify fun s => { s with names := s.names ++ [(name, number)] }
  return number

def push (p : Parameter α) : Edit Id α (Space α) Unit := do
  modify fun s => { s with free := if p.isConstant then s.free else s.free ++ [p.number] }
  modify fun s => { s with values := s.values.push p.value }
  modify fun s => { s with parameters := s.parameters.push p }

def add (name : String) (value error : α) : Edit Id α (Space α) Unit := do
  let number ← register name
  push { number, name, value, error }

def addLimited (name : String) (value error lower upper : α) : Edit Id α (Space α) Unit := do
  if (← get).declared name then throw (.duplicateName name)
  let p ← reading fun s => Parameter.limited s.parameters.size name value error lower upper
  let _ ← register name
  push p

def addConstant (name : String) (value : α) : Edit Id α (Space α) Unit := do
  push (Parameter.constant (← register name) name value)

def fix (p : Address) : Edit Id α (Space α) Unit := do
  let i ← reading fun s => s.indexOf p
  match (← get).coordinate? i with
  | none => throw (.refused ((← get).parameterAt i).name .notVariable)
  | some k =>
    modify fun s => { s with free := s.free.eraseIdx k }
    modify fun s => s.update i Parameter.fix

def release (p : Address) : Edit Id α (Space α) Unit := do
  let i ← reading fun s => s.indexOf p
  let s ← get
  if (s.parameterAt i).isConstant ∨ i ∈ s.free then
    throw (.refused (s.parameterAt i).name .notReleasable)
  modify fun s => { s with free := insertPlace i s.free }
  modify fun s => s.update i Parameter.release

def setValue (p : Address) (value : α) : Edit Id α (Space α) Unit := do
  let i ← reading fun s => s.indexOf p
  modify fun s => s.update i (·.setValue value)
  modify fun s => { s with values := s.values.setIfInBounds i value }

def setLimits (p : Address) (lower upper : α) : Edit Id α (Space α) Unit := do
  let i ← reading fun s => s.indexOf p
  let limited ← reading fun s => (s.parameterAt i).setLimits lower upper
  modify fun s => s.update i fun _ => limited

/- A change of one parameter that cannot fail where there is the parameter. -/
def alter (p : Address) (f : Parameter α → Parameter α) : Edit Id α (Space α) Unit := do
  let i ← reading fun s => s.indexOf p
  modify fun s => s.update i f

def space : Action α → Edit Id α (Space α) Unit
  | .add name value error => add name value error
  | .addLimited name value error lower upper => addLimited name value error lower upper
  | .addConstant name value => addConstant name value
  | .fix p => fix p
  | .release p => release p
  | .setValue p value => setValue p value
  | .setError p error => alter p (·.setError error)
  | .setLimits p lower upper => setLimits p lower upper
  | .setLower p lower => alter p (·.setLower lower)
  | .setUpper p upper => alter p (·.setUpper upper)
  | .removeLimits p => alter p Parameter.removeLimits
  | .setPrecision eps => modify (·.setPrecision eps)

omit [Scalar α] in
theorem runRegister (name : String) (s : Space α) :
    (register name).run.run s =
      if s.declared name then (.error (.duplicateName name), s)
      else (.ok s.parameters.size, { s with names := s.names ++ [(name, s.parameters.size)] }) := by
  simp only [register, runBind, runGet, runModify, runIte, runThrow, runPure]

omit [Scalar α] in
theorem addWhole (s : Space α) (name : String) (value error : α) :
    Whole (add name value error) s ((s.add name value error).map ((), ·)) := by
  rw [Whole, add, Space.add, Space.declare, runBind, runRegister]
  cases s.declared name <;> rfl

theorem addConstantWhole (s : Space α) (name : String) (value : α) :
    Whole (addConstant name value) s ((s.addConstant name value).map ((), ·)) := by
  rw [Whole, addConstant, Space.addConstant, Space.declare, runBind, runRegister]
  cases s.declared name <;> rfl

theorem addLimitedWhole (s : Space α) (name : String) (value error lower upper : α) :
    Whole (addLimited name value error lower upper) s
      ((s.addLimited name value error lower upper).map ((), ·)) := by
  rw [Whole, addLimited, Space.addLimited, Space.declare]
  simp only [runBind, runGet, runIte, runThrow, runReading, runRegister]
  cases fresh : s.declared name with
  | true => rfl
  | false =>
    cases made : Parameter.limited s.parameters.size name value error lower upper with
    | error e => rfl
    | ok p =>
      obtain ⟨_, _, rest⟩ := Parameter.setLimitsRest made
      simp only [Bool.false_eq_true, if_false, fresh, rest]
      rfl

theorem fixWhole (s : Space α) (p : Address) :
    Whole (fix p) s ((s.fix p).map ((), ·)) := by
  rw [Whole, fix, Space.fix]
  simp only [runBind, runReading, runGet]
  cases s.indexOf p with
  | error e => rfl
  | ok i =>
    simp only [okBind]
    cases found : s.coordinate? i with
    | none =>
      rw [if_neg (Space.coordinateNone found)]
      rfl
    | some k =>
      obtain ⟨free, erased⟩ := Space.coordinateErased found
      rw [if_pos free, erased]
      rfl

theorem releaseWhole (s : Space α) (p : Address) :
    Whole (release p) s ((s.release p).map ((), ·)) := by
  rw [Whole, release, Space.release]
  simp only [runBind, runReading, runGet, runIte, runThrow, runModify]
  cases s.indexOf p with
  | error e => rfl
  | ok i =>
    simp only [okBind]
    split <;> rfl

omit [Scalar α] in
theorem alterWhole (s : Space α) (p : Address) (f : Parameter α → Parameter α) :
    Whole (alter p f) s ((s.indexOf p).map fun i => ((), s.update i f)) := by
  rw [Whole, alter]
  simp only [runBind, runReading, runModify]
  cases s.indexOf p <;> rfl

omit [Scalar α] in
theorem setValueWhole (s : Space α) (p : Address) (value : α) :
    Whole (setValue p value) s ((s.setValue p value).map ((), ·)) := by
  rw [Whole, setValue, Space.setValue]
  simp only [runBind, runReading, runModify]
  cases s.indexOf p <;> rfl

theorem setLimitsWhole (s : Space α) (p : Address) (lower upper : α) :
    Whole (setLimits p lower upper) s ((s.setLimits p lower upper).map ((), ·)) := by
  rw [Whole, setLimits, Space.setLimits]
  simp only [runBind, runReading, runModify]
  cases s.indexOf p with
  | error e => rfl
  | ok i =>
    simp only [okBind]
    cases (s.parameterAt i).setLimits lower upper <;> rfl

theorem spaceWhole (s : Space α) (a : Action α) :
    Whole (space a) s ((s.perform a).map ((), ·)) := by
  have alter (p : Address) (f : Parameter α → Parameter α) :
      Whole (Edit.alter p f) s
        ((s.indexOf p >>= fun i => pure (s.update i f)).map ((), ·)) := by
    have whole := alterWhole s p f
    cases known : s.indexOf p with
    | error e => rwa [known] at whole
    | ok i => rwa [known] at whole
  cases a with
  | add name value error => exact addWhole s name value error
  | addLimited name value error lower upper => exact addLimitedWhole s name value error lower upper
  | addConstant name value => exact addConstantWhole s name value
  | fix p => exact fixWhole s p
  | release p => exact releaseWhole s p
  | setValue p value => exact setValueWhole s p value
  | setLimits p lower upper => exact setLimitsWhole s p lower upper
  | setPrecision eps => rfl
  | setError p error => exact alter p _
  | setLower p lower => exact alter p _
  | setUpper p upper => exact alter p _
  | removeLimits p => exact alter p _

/-! ### What a fit knows -/

def inSpace (edit : Edit Id α (Space α) β) : Edit Id α (FitState α) β :=
  within FitState.space (fun s space => { s with space }) edit

def pullInside (i : Nat) (outside : Parameter α → Bool) (value : Parameter α → α) :
    Edit Id α (FitState α) Unit := do
  if ((← get).space.coordinate? i).isSome then
    let q ← reading fun s => s.space.parameter (.index i)
    if outside q then inSpace (setValue (.index i) (value q))

def declareState (edit : Edit Id α (Space α) Unit) : Edit Id α (FitState α) Unit := do
  inSpace edit
  modify FitState.dropCovariance
  modify fun s => { s with valid := true }

def squeezeRow (i : Nat) : Edit Id α (FitState α) Unit := do
  match (← get).space.coordinate? i with
  | some k =>
    if (← get).hasCovariance then
      modify fun s => { s with covariance := s.covariance.squeeze k }
      modify fun s => { s with inner := s.inner.squeeze k }
  | none => pure ()

def fixState (p : Address) : Edit Id α (FitState α) Unit := do
  let i ← reading fun s => s.space.indexOf p
  squeezeRow i
  inSpace (fix (.index i))
  modify fun s => { s with hasCorrelation := false }

def setLimitsState (p : Address) (a b : α) : Edit Id α (FitState α) Unit := do
  let i ← reading fun s => s.space.indexOf p
  inSpace (setLimits (.index i) a b)
  modify FitState.dropCovariance
  pullInside i
    (fun q => !(decide (q.lower.getD a < q.value) && decide (q.value < q.upper.getD b)))
    fun q => 0.5 * (q.lower.getD a + q.upper.getD b)

def setLowerState (p : Address) (lower : α) : Edit Id α (FitState α) Unit := do
  let i ← reading fun s => s.space.indexOf p
  inSpace (alter (.index i) (·.setLower lower))
  modify FitState.dropCovariance
  pullInside i (fun q => decide (q.value ≤ lower)) fun _ => lower + 0.5 * Scalar.abs (lower + 1)

def setUpperState (p : Address) (upper : α) : Edit Id α (FitState α) Unit := do
  let i ← reading fun s => s.space.indexOf p
  inSpace (alter (.index i) (·.setUpper upper))
  modify FitState.dropCovariance
  pullInside i (fun q => decide (upper ≤ q.value)) fun _ => upper - 0.5 * Scalar.abs (upper + 1)

def state : Action α → Edit Id α (FitState α) Unit
  | .add name value error => declareState (add name value error)
  | .addLimited name value error lower upper =>
    declareState (addLimited name value error lower upper)
  | .addConstant name value => do
    inSpace (addConstant name value)
    modify fun s => { s with valid := true }
  | .fix p => fixState p
  | .release p => do
    inSpace (release p)
    modify FitState.dropCovariance
  | .setValue p value => inSpace (setValue p value)
  | .setError p error => inSpace (alter p (·.setError error))
  | .setLimits p lower upper => setLimitsState p lower upper
  | .setLower p lower => setLowerState p lower
  | .setUpper p upper => setUpperState p upper
  | .removeLimits p => do
    inSpace (alter p Parameter.removeLimits)
    modify FitState.dropCovariance
  | .setPrecision eps => inSpace (modify (·.setPrecision eps))

omit [Scalar α] in
theorem runInSpace {edit : Edit Id α (Space α) β} {s : FitState α}
    {outcome : Except (FitError α) (β × Space α)} (whole : Whole edit s.space outcome) :
    (inSpace edit).run.run s =
      settled s (outcome.map fun (b, space) => (b, { s with space })) := by
  change (((edit.run.run s.space).1, { s with space := (edit.run.run s.space).2 }) :
    Except (FitError α) β × FitState α) = _
  rw [whole]
  cases outcome <;> rfl

theorem runPullInside {s : FitState α} {i : Nat} (inside : i < s.space.parameters.size)
    (outside : Parameter α → Bool) (value : Parameter α → α) :
    (pullInside i outside value).run.run s =
      (.ok (), s.pullInside i (fun _ => outside (s.space.parameterAt i))
        (value (s.space.parameterAt i))) := by
  have known : s.space.indexOf (.index i) = .ok i := if_pos inside
  have set (v : α) : (inSpace (setValue (.index i) v)).run.run s =
      (.ok (), { s with space := s.space.setValueAt i v }) := by
    rw [runInSpace (setValueWhole s.space (.index i) v), Space.setValue, known]
    rfl
  rw [pullInside, FitState.pullInside]
  simp only [runBind, runGet, runIte, runPure, runReading, Space.parameter, known, Except.map, set]
  cases found : s.space.coordinate? i with
  | none => simp [Space.coordinateNone found]
  | some k =>
    simp only [Option.isSome_some, if_true, (Space.coordinateErased found).1, true_and]
    split <;> rfl

/- An edit of the declarations and, where it succeeds, of the rest. -/
theorem afterSpace (s : FitState α) (a : Action α) {rest : Edit Id α (FitState α) Unit}
    {f : Space α → FitState α} {outcome : Except (FitError α) (FitState α)}
    (same : outcome = s.space.perform a >>= fun space => pure (f space))
    (follows : ∀ space, s.space.perform a = .ok space →
      rest.run.run { s with space } = (.ok (), f space)) :
    Whole (inSpace (space a) >>= fun _ => rest) s (outcome.map ((), ·)) := by
  rw [Whole, runBind, runInSpace (spaceWhole s.space a), same]
  cases done : s.space.perform a with
  | error e => rfl
  | ok space => exact follows space done

theorem onlySpace (s : FitState α) (a : Action α) :
    Whole (inSpace (space a)) s
      ((s.space.perform a >>= fun space => pure { s with space }).map ((), ·)) := by
  rw [Whole, runInSpace (spaceWhole s.space a)]
  cases s.space.perform a <;> rfl

def squeezed (s : FitState α) (i : Nat) : FitState α :=
  match s.space.coordinate? i, s.hasCovariance with
  | some k, true => { s with covariance := s.covariance.squeeze k, inner := s.inner.squeeze k }
  | _, _ => s

theorem squeezedSpace (s : FitState α) (i : Nat) : (squeezed s i).space = s.space := by
  rw [squeezed]
  split <;> rfl

theorem runSqueezeRow (s : FitState α) (i : Nat) :
    (squeezeRow i).run.run s = (.ok (), squeezed s i) := by
  rw [squeezeRow, squeezed, runBind, runGet]
  dsimp only
  cases s.space.coordinate? i with
  | none => rfl
  | some k =>
    simp only [runBind, runGet, runIte, runModify, runPure]
    cases s.hasCovariance <;> rfl

theorem fixSqueezed (s : FitState α) (p : Address) : s.fix p = do
    let i ← s.space.indexOf p
    let space ← s.space.fix (.index i)
    return { squeezed s i with space, hasCorrelation := false } := by
  rw [FitState.fix]
  refine congrArg _ (funext fun i => congrArg _ (funext fun space => ?_))
  rw [squeezed]
  cases s with
  | mk before valid covered =>
    dsimp only
    cases covered <;> cases before.coordinate? i <;> rfl

/- Nothing is squeezed that is not fixed afterwards. -/
theorem squeezedFixed {s : FitState α} {i : Nat} {e : FitError α}
    (declared : i < s.space.parameters.size) (failed : s.space.fix (.index i) = .error e) :
    squeezed s i = s := by
  have known : s.space.indexOf (.index i) = .ok i := if_pos declared
  rw [squeezed]
  cases found : s.space.coordinate? i with
  | none => rfl
  | some k =>
    rw [Space.fix, known, okBind, if_pos (Space.coordinateErased found).1] at failed
    cases failed

theorem fixStateWhole {s : FitState α} (named : s.space.Named) (p : Address) :
    Whole (fixState p) s ((s.fix p).map ((), ·)) := by
  rw [Whole, fixState, fixSqueezed, runBind, runReading]
  cases known : s.space.indexOf p with
  | error e => rfl
  | ok i =>
    obtain ⟨q, here⟩ := named.indexOf known
    have declared := (Array.getElem?_eq_some_iff.mp here).1
    change (squeezeRow i >>= _).run.run s = _
    rw [runBind, runSqueezeRow]
    refine (afterSpace (squeezed s i) (.fix (.index i))
      (f := fun space => { squeezed s i with space, hasCorrelation := false })
      rfl fun _ _ => rfl).trans ?_
    rw [squeezedSpace, okBind]
    cases done : s.space.fix (.index i) with
    | ok space =>
      rw [Space.perform, done]
      rfl
    | error e => rw [Space.perform, done, squeezedFixed declared done]

/- Limits are set, then the value is moved inside. -/
theorem limitsStateWhole (s : FitState α) (p : Address) (a : Action α)
    {outside : Parameter α → Bool} {value : Parameter α → α}
    (size : ∀ space i, s.space.indexOf p = .ok i → s.space.perform (a.readdress (.index i)) = .ok space →
      i < space.parameters.size) :
    Whole (do
        let i ← reading fun s => s.space.indexOf p
        inSpace (space (a.readdress (.index i)))
        modify FitState.dropCovariance
        pullInside i outside value) s
      ((do
        let i ← s.space.indexOf p
        let space ← s.space.perform (a.readdress (.index i))
        return ({ s with space }.dropCovariance).pullInside i (fun _ => outside (space.parameterAt i))
          (value (space.parameterAt i))).map ((), ·)) := by
  rw [Whole, runBind, runReading]
  cases known : s.space.indexOf p with
  | error e => rfl
  | ok i =>
    refine afterSpace s (a.readdress (.index i)) rfl fun space done => ?_
    rw [runBind, runModify]
    exact runPullInside (size space i known done) outside value

theorem stateWhole {s : FitState α} (named : s.space.Named) (a : Action α) :
    Whole (state a) s ((s.perform a).map ((), ·)) := by
  have declared {name : String} {make : Nat → Except (FitError α) (Parameter α)}
      (f : FitState α → FitState α) :
      (s.declare (s.space.declare name make)).map f =
        s.space.declare name make >>= fun space => pure (f { s with space, valid := true }) := by
    cases s.space.declare name make <;> rfl
  cases a with
  | add name value error =>
    exact afterSpace s (.add name value error) (declared FitState.dropCovariance) fun _ _ => rfl
  | addLimited name value error lower upper =>
    exact afterSpace s (.addLimited name value error lower upper) (declared FitState.dropCovariance)
      fun _ _ => rfl
  | addConstant name value =>
    refine afterSpace s (.addConstant name value) (f := fun space => { s with space, valid := true })
      ?_ fun _ _ => rfl
    exact (congrFun Except.map_id _).symm.trans (declared id)
  | fix p => exact fixStateWhole named p
  | release p => exact afterSpace s (.release p) rfl fun _ _ => rfl
  | removeLimits p => exact afterSpace s (.removeLimits p) rfl fun _ _ => rfl
  | setValue p value => exact onlySpace s (.setValue p value)
  | setError p error => exact onlySpace s (.setError p error)
  | setPrecision eps => rfl
  | setLimits p lower upper =>
    refine limitsStateWhole s p (.setLimits p lower upper) fun space i _ done => ?_
    obtain ⟨j, known, done⟩ := okParts done
    obtain ⟨q, _, done⟩ := okParts done
    cases done
    exact (Array.size_modify ..).symm ▸ Space.indexInside known
  | setLower p lower =>
    refine limitsStateWhole s p (.setLower p lower) fun space i _ done => ?_
    obtain ⟨j, known, done⟩ := okParts done
    cases done
    exact (Array.size_modify ..).symm ▸ Space.indexInside known
  | setUpper p upper =>
    refine limitsStateWhole s p (.setUpper p upper) fun space i _ done => ?_
    obtain ⟨j, known, done⟩ := okParts done
    cases done
    exact (Array.size_modify ..).symm ▸ Space.indexInside known

end

/-! ### A fit -/

section
variable {γ : Type}

def asking (question : Eval α β) : Edit (Eval α) α σ β := fun s t =>
  let (b, u) := question.run t
  ((.ok b, s), u)

def orFail (result : Except (FitError α) β) : Edit (Eval α) α σ β := fun s => pure (result, s)

theorem runEvalBind (first : Edit (Eval α) α σ β) (rest : β → Edit (Eval α) α σ γ) (s : σ)
    (t : Trace α) :
    ((first >>= rest).run.run s).run t =
      match (first.run.run s).run t with
      | ((.ok b, s'), u) => ((rest b).run.run s').run u
      | ((.error e, s'), u) => ((.error e, s'), u) := by
  simp only [bind, ExceptT.bind, ExceptT.mk, ExceptT.run, StateT.run, StateT.bind]
  generalize first s t = r
  obtain ⟨⟨e | b, s'⟩, u⟩ := r
  · rfl
  · rfl

theorem runGettingBind (rest : σ → Edit (Eval α) α σ γ) (s : σ) (t : Trace α) :
    ((get >>= rest).run.run s).run t = ((rest s).run.run s).run t := rfl

theorem runAskingBind (question : Eval α β) (rest : β → Edit (Eval α) α σ γ) (s : σ) (t : Trace α) :
    ((asking question >>= rest).run.run s).run t =
      ((rest (question.run t).1).run.run s).run (question.run t).2 := rfl

theorem runOrFailBind (result : Except (FitError α) β) (rest : β → Edit (Eval α) α σ γ) (s : σ)
    (t : Trace α) :
    ((orFail result >>= rest).run.run s).run t =
      match result with
      | .ok b => ((rest b).run.run s).run t
      | .error e => ((.error e, s), t) := by
  cases result <;> rfl

end

def inState (edit : Edit Id α (FitState α) β) : Edit (Eval α) α (Fit α) β :=
  within Fit.state (fun f state => { f with state }) edit

theorem runInStateBind {γ : Type} (edit : Edit Id α (FitState α) β)
    (rest : β → Edit (Eval α) α (Fit α) γ) (f : Fit α) (t : Trace α) :
    ((inState edit >>= rest).run.run f).run t =
      match edit.run.run f.state with
      | (.ok b, state) => ((rest b).run.run { f with state }).run t
      | (.error e, state) => ((.error e, { f with state }), t) := by
  have part : ((inState edit).run.run f).run t =
      (((edit.run.run f.state).1, { f with state := (edit.run.run f.state).2 }), t) := rfl
  rw [runEvalBind, part]
  generalize edit.run.run f.state = r
  obtain ⟨_ | _, _⟩ := r
  · rfl
  · rfl

section
variable [Scalar α]

def fit (a : Action α) : Edit (Eval α) α (Fit α) Unit := inState (state a)

/- The scan that a fit makes, with a trace of its own. -/
def scanning (f : Fit α) (i steps : Nat) (low high : α) :
    Eval α (Scan α × Except (FitError α) (Scan α × List (Sample α)) × Nat) := do
  let start ← Scan.start f.surface f.state.space
  let result ← start.run f.surface (.index i) steps low high
  return (start, result, ← Eval.calls)

def scan (p : Address) (steps : Nat) (low high : α) :
    Edit (Eval α) α (Fit α) (List (Sample α)) := do
  let f ← get
  let i ← orFail (f.state.space.indexOf p)
  let (start, result, calls) ← asking (Eval.apart (scanning f i steps low high))
  let (found, samples) ← orFail result
  if found.best < start.best then
    let q ← orFail (found.space.parameter (.index i))
    inState (state (.setValue (.index i) q.value))
  modify fun f => { f with calls := f.calls + calls }
  return samples

theorem fitWhole {f : Fit α} (named : f.state.space.Named) (a : Action α) :
    Whole (fit a) f (pure ((f.perform a).map ((), ·))) := by
  have whole := stateWhole named a
  funext t
  change ((((state a).run.run f.state).1, { f with state := ((state a).run.run f.state).2 }), t) = _
  rw [whole, Fit.perform]
  cases f.state.perform a <;> rfl

/- A scan declares nothing. -/
theorem visitSize (s : Surface α) (i : Nat) (values : Array α) (scan : Scan α)
    (seen : List (Sample α)) (grid : List α) :
    Stays (fun _ => True) (Scan.visit s i values scan seen grid)
      fun found => found.1.space.parameters.size = scan.space.parameters.size := by
  induction grid generalizing scan seen with
  | nil => exact .pure rfl
  | cons v rest ih =>
    refine .bind (Surface.externalValueStays trivial) fun y _ => ?_
    refine (ih _ _).weaken fun found size => size.trans ?_
    split
    · exact Array.size_modify ..
    · rfl

theorem scanSize (s : Surface α) (scan : Scan α) (p : Address) (steps : Nat) (low high : α) :
    Stays (fun _ => True) (scan.run s p steps low high) fun result => ∀ found samples,
      result = .ok (found, samples) → found.space.parameters.size = scan.space.parameters.size := by
  unfold Scan.run
  split
  · exact .pure nofun
  · refine .ite (fun _ => .pure ?_) fun _ => .ite (fun _ => .pure nofun) fun _ => ?_
    · rintro _ _ ⟨⟩
      rfl
    · refine .bind (visitSize s _ _ _ _ _) fun found size => .pure ?_
      rintro _ _ ⟨⟩
      exact size

omit [Scalar α] in
theorem runMap {γ : Type} (g : β → γ) (question : Eval α β) (t : Trace α) :
    (g <$> question).run t = (g (question.run t).1, (question.run t).2) := rfl

theorem scanAnswers {f : Fit α} {p : Address} {i : Nat} (known : f.state.space.indexOf p = .ok i)
    (steps : Nat) (low high : α) : f.scan p steps low high = (fun (start, result, calls) =>
      result.map fun (found, samples) =>
        ({ f with
            state := if found.best < start.best then
                { f.state with
                  space := f.state.space.setValueAt i (found.space.parameterAt i).value }
              else f.state
            calls := f.calls + calls }, samples)) <$>
      Eval.apart (scanning f i steps low high) := by
  rw [Fit.scan, known]
  funext t
  change (Eval.apart _).run t = StateT.run (_ <$> _) t
  rw [runMap]
  simp only [Eval.runApart, scanning, Eval.runBind]
  generalize (Scan.run f.surface _ _ _ _ _).run _ = scanned
  obtain ⟨_ | ⟨found, samples⟩, v⟩ := scanned
  · rfl
  · rfl

theorem scanningSize {f : Fit α} {i : Nat} (inside : i < f.state.space.parameters.size)
    (steps : Nat) (low high : α) (t : Trace α) (found : Scan α) (samples : List (Sample α))
    (done : ((scanning f i steps low high).run t).1.2.1 = .ok (found, samples)) :
    i < found.space.parameters.size := by
  have size := (scanSize f.surface ((Scan.start f.surface f.state.space).run t).1 (.index i) steps
    low high).answer ((Scan.start f.surface f.state.space).run t).2 found samples done
  rw [size]
  exact inside

theorem scanWhole {f : Fit α} (named : f.state.space.Named) (p : Address) (steps : Nat)
    (low high : α) :
    Whole (scan p steps low high) f (Except.map Prod.swap <$> f.scan p steps low high) := by
  funext t
  refine (runGettingBind _ f t).trans ?_
  rw [runOrFailBind]
  cases known : f.state.space.indexOf p with
  | error e =>
    rw [Fit.scan, known]
    rfl
  | ok i =>
    have declared := named.indexAgain known
    have inside := Space.indexInside declared
    rw [scanAnswers known]
    refine (runAskingBind _ _ f t).trans ?_
    change _ = StateT.run (settled f <$> Except.map Prod.swap <$> _ <$> _) t
    rw [runMap, runMap, runMap, Eval.runApart]
    dsimp only
    rw [runOrFailBind]
    have size := scanningSize inside steps low high {}
    generalize (scanning f i steps low high).run {} = r at size
    obtain ⟨⟨start, _ | ⟨found, samples⟩, calls⟩, u⟩ := r
    · rfl
    · dsimp only
      by_cases better : found.best < start.best
      · have there : found.space.parameter (.index i) = .ok (found.space.parameterAt i) := by
          rw [Space.parameter, Space.indexOf, if_pos (size found samples rfl)]
          rfl
        have set (v : α) : (state (.setValue (.index i) v)).run.run f.state =
            (.ok (), { f.state with space := f.state.space.setValueAt i v }) := by
          rw [stateWhole named, FitState.perform, Space.setValue, declared]
          rfl
        rw [if_pos better, runOrFailBind, there]
        dsimp only
        rw [runInStateBind, set]
        simp only [Except.map, better, if_true]
        rfl
      · rw [if_neg better]
        simp only [Except.map, better, if_false]
        rfl

end

section
variable [Spectral α]

def minimize (maxCalls : Nat) (tolerance : α) : Edit (Eval α) α (Fit α) (Minimum α) := do
  let f ← get
  if !f.state.valid then throw (.unusable .notMinimizable)
  let min ← asking (Eval.apart (f.searchFrom (f.allowance maxCalls) tolerance))
  modify fun f => { f with calls := f.calls + min.calls }
  modify fun f => { f with state := min.state }
  return min

theorem minimizeWhole (f : Fit α) (maxCalls : Nat) (tolerance : α) :
    Whole (minimize maxCalls tolerance) f
      (Except.map Prod.swap <$> f.minimizeWith maxCalls tolerance) := by
  funext t
  refine (runGettingBind _ f t).trans ?_
  rw [Fit.minimizeWith]
  cases f.state.valid with
  | false => rfl
  | true =>
    refine (runAskingBind (Eval.apart (f.searchFrom (f.allowance maxCalls) tolerance)) _ f t).trans ?_
    rfl

end

/-! ### Failures -/

theorem Whole.unchanged {edit : Edit Id α σ β} {s t : σ} {outcome : Except (FitError α) (β × σ)}
    (whole : Whole edit s outcome) {e : FitError α} (failed : edit.run.run s = (.error e, t)) :
    t = s := by
  have same : settled s outcome = (.error e, t) := whole.symm.trans failed
  cases outcome with
  | ok r => cases same
  | error e => exact (congrArg Prod.snd same).symm

theorem Whole.unchangedAsking {edit : Edit (Eval α) α σ β} {s t : σ} {u v : Trace α}
    {outcome : Eval α (Except (FitError α) (β × σ))} (whole : Whole edit s outcome) {e : FitError α}
    (failed : (edit.run.run s).run u = ((.error e, t), v)) : t = s := by
  rw [whole, runMap] at failed
  generalize outcome.run u = r at failed
  obtain ⟨_ | _, _⟩ := r
  · exact (congrArg (·.1.2) failed).symm
  · cases failed

/- Every operation on the parameters of a fit, every minimization and every scan has, in place, the
outcome that it has when everything is changed at once; and what fails leaves the whole state as it
was: covariances, marks of validity, names, places and calls. -/
theorem failureChangesNothing [Spectral α] {state : FitState α} {fit : Fit α} {rows rowsFit : List Nat}
    (arises : state.Arises rows) (arisesFit : fit.state.Arises rowsFit) (a : Action α) :
    (∀ space : Space α, Whole (Edit.space a) space ((space.perform a).map ((), ·)) ∧
      ∀ e after, (Edit.space a).run.run space = (.error e, after) → after = space) ∧
    (Whole (Edit.state a) state ((state.perform a).map ((), ·)) ∧
      ∀ e after, (Edit.state a).run.run state = (.error e, after) → after = state) ∧
    (Whole (Edit.fit a) fit (pure ((fit.perform a).map ((), ·))) ∧
      ∀ e after t u, ((Edit.fit a).run.run fit).run t = ((.error e, after), u) → after = fit) ∧
    (∀ maxCalls tolerance,
      Whole (minimize maxCalls tolerance) fit
        (Except.map Prod.swap <$> fit.minimizeWith maxCalls tolerance) ∧
      ∀ e after t u, ((minimize maxCalls tolerance).run.run fit).run t = ((.error e, after), u) →
        after = fit) ∧
    ∀ p steps low high,
      Whole (scan p steps low high) fit (Except.map Prod.swap <$> fit.scan p steps low high) ∧
      ∀ e after t u, ((scan p steps low high).run.run fit).run t = ((.error e, after), u) →
        after = fit :=
  ⟨fun space => ⟨spaceWhole space a, fun _ _ => (spaceWhole space a).unchanged⟩,
    ⟨stateWhole arises.named a, fun _ _ => (stateWhole arises.named a).unchanged⟩,
    ⟨fitWhole arisesFit.named a, fun _ _ _ _ => (fitWhole arisesFit.named a).unchangedAsking⟩,
    fun maxCalls tolerance => ⟨minimizeWhole fit maxCalls tolerance,
      fun _ _ _ _ => (minimizeWhole fit maxCalls tolerance).unchangedAsking⟩,
    fun p steps low high => ⟨scanWhole arisesFit.named p steps low high,
      fun _ _ _ _ => (scanWhole arisesFit.named p steps low high).unchangedAsking⟩⟩

/- A name that is not declared. -/
theorem fixUnknown :
    let state := FitState.ofSpace (Space.empty.run [Action.add "x" (0 : ℝ) 1])
    let fit := Fit.new (.plain fun _ => 0) state .descent
    state.Arises [] ∧ fit.state.Arises [] ∧
      (Edit.state (.fix (.name "y"))).run.run state = (.error (.unknownName "y"), state) ∧
      ((Edit.fit (.fix (.name "y"))).run.run fit).run {} =
        ((.error (.unknownName "y"), fit), {}) := by
  intro state fit
  have arises : state.Arises [] := .declared _
  have arisesFit : fit.state.Arises [] := .declared _
  obtain ⟨_, ⟨wholeState, _⟩, ⟨wholeFit, _⟩, _⟩ :=
    failureChangesNothing arises arisesFit (.fix (.name "y"))
  exact ⟨arises, arisesFit, wholeState, congrFun wholeFit {}⟩

end Edit
end ParamFit
