import ParamFit.Parameter.Limits
import ParamFit.Parameter.Covariance

/-!
The declared parameters of a fit and the coordinates a search moves in. `free` lists the places of
the parameters that may vary, in ascending order: internal coordinate `k` belongs to the parameter
at place `free[k]`. The names and the current values are indexed beside the parameters. An
operation either gives a new space or an error; `run` keeps the old space after an error.
-/
namespace ParamFit
variable {α : Type}

structure Space (α : Type) where
  precision : Precision α
  parameters : Array (Parameter α)
  free : List Nat
  names : List (String × Nat)
  values : Array α
  deriving BEq, Repr

inductive Action (α : Type) where
  | add (name : String) (value error : α)
  | addLimited (name : String) (value error lower upper : α)
  | addConstant (name : String) (value : α)
  | fix (p : Address)
  | release (p : Address)
  | setValue (p : Address) (value : α)
  | setError (p : Address) (error : α)
  | setLimits (p : Address) (lower upper : α)
  | setLower (p : Address) (lower : α)
  | setUpper (p : Address) (upper : α)
  | removeLimits (p : Address)
  | setPrecision (eps : α)
  deriving BEq, Repr

def Action.address? : Action α → Option Address
  | fix p | release p | setValue p _ | setError p _ | setLimits p _ _ | setLower p _
  | setUpper p _ | removeLimits p => some p
  | add .. | addLimited .. | addConstant .. | setPrecision _ => none

def insertPlace (i : Nat) : List Nat → List Nat
  | [] => [i]
  | j :: rest => if i ≤ j then i :: j :: rest else j :: insertPlace i rest

namespace Space
variable [Scalar α]

def empty : Space α := ⟨Precision.machine, #[], [], [], #[]⟩

/- The parameter declared at a place; outside the declarations, an unnamed one at zero. -/
def parameterAt (s : Space α) (i : Nat) : Parameter α :=
  s.parameters.getD i { number := i, name := "", value := 0, error := 0 }

def indexOf (s : Space α) : Address → Except (FitError α) Nat
  | .index i =>
    if i < s.parameters.size then .ok i else .error (.indexOutOfRange i s.parameters.size)
  | .name n =>
    match s.names.lookup n with
    | some i => .ok i
    | none => .error (.unknownName n)

def parameter (s : Space α) (p : Address) : Except (FitError α) (Parameter α) :=
  (s.indexOf p).map s.parameterAt

def dimension (s : Space α) : Nat := s.free.length

def place (s : Space α) (k : Nat) : Nat := s.free.getD k 0

def coordinate? (s : Space α) (i : Nat) : Option Nat := s.free.findIdx? (· == i)

/-! ### Declaring -/

def declared (s : Space α) (name : String) : Bool := (s.names.lookup name).isSome

def append (s : Space α) (p : Parameter α) : Space α :=
  { s with
    parameters := s.parameters.push p
    names := s.names ++ [(p.name, p.number)]
    values := s.values.push p.value
    free := if p.isConstant then s.free else s.free ++ [p.number] }

def declare (s : Space α) (name : String)
    (make : Nat → Except (FitError α) (Parameter α)) : Except (FitError α) (Space α) :=
  if s.declared name then .error (.duplicateName name)
  else (make s.parameters.size).map s.append

def add (s : Space α) (name : String) (value error : α) : Except (FitError α) (Space α) :=
  s.declare name fun number => .ok { number, name, value, error }

def addLimited (s : Space α) (name : String) (value error lower upper : α) :
    Except (FitError α) (Space α) :=
  s.declare name fun number => Parameter.limited number name value error lower upper

def addConstant (s : Space α) (name : String) (value : α) : Except (FitError α) (Space α) :=
  s.declare name fun number => .ok (Parameter.constant number name value)

def ofValues (values errors : Array α) : Except (FitError α) (Space α) :=
  if values.size = errors.size then
    (List.range values.size).foldlM
      (fun s i => s.add s!"p{i}" (entry values i) (entry errors i)) empty
  else .error (.unusable (.countsDiffer values.size errors.size))

/-! ### Changing -/

def update (s : Space α) (i : Nat) (f : Parameter α → Parameter α) : Space α :=
  { s with parameters := s.parameters.modify i f }

def fix (s : Space α) (p : Address) : Except (FitError α) (Space α) := do
  let i ← s.indexOf p
  if i ∈ s.free then
    return { s.update i Parameter.fix with free := s.free.erase i }
  else .error (.refused (s.parameterAt i).name .notVariable)

def release (s : Space α) (p : Address) : Except (FitError α) (Space α) := do
  let i ← s.indexOf p
  if (s.parameterAt i).isConstant ∨ i ∈ s.free then
    .error (.refused (s.parameterAt i).name .notReleasable)
  else return { s.update i Parameter.release with free := insertPlace i s.free }

def setValueAt (s : Space α) (i : Nat) (value : α) : Space α :=
  { s.update i (·.setValue value) with values := s.values.setIfInBounds i value }

def setErrorAt (s : Space α) (i : Nat) (error : α) : Space α := s.update i (·.setError error)

def setValue (s : Space α) (p : Address) (value : α) : Except (FitError α) (Space α) := do
  return s.setValueAt (← s.indexOf p) value

def setError (s : Space α) (p : Address) (error : α) : Except (FitError α) (Space α) := do
  return s.setErrorAt (← s.indexOf p) error

def setLimits (s : Space α) (p : Address) (lower upper : α) : Except (FitError α) (Space α) := do
  let i ← s.indexOf p
  let limited ← (s.parameterAt i).setLimits lower upper
  return s.update i fun _ => limited

def setLower (s : Space α) (p : Address) (lower : α) : Except (FitError α) (Space α) := do
  return s.update (← s.indexOf p) (·.setLower lower)

def setUpper (s : Space α) (p : Address) (upper : α) : Except (FitError α) (Space α) := do
  return s.update (← s.indexOf p) (·.setUpper upper)

def removeLimits (s : Space α) (p : Address) : Except (FitError α) (Space α) := do
  return s.update (← s.indexOf p) Parameter.removeLimits

def setPrecision (s : Space α) (eps : α) : Space α := { s with precision := .ofEps eps }

def perform (s : Space α) : Action α → Except (FitError α) (Space α)
  | .add name value error => s.add name value error
  | .addLimited name value error lower upper => s.addLimited name value error lower upper
  | .addConstant name value => s.addConstant name value
  | .fix p => s.fix p
  | .release p => s.release p
  | .setValue p value => s.setValue p value
  | .setError p error => s.setError p error
  | .setLimits p lower upper => s.setLimits p lower upper
  | .setLower p lower => s.setLower p lower
  | .setUpper p upper => s.setUpper p upper
  | .removeLimits p => s.removeLimits p
  | .setPrecision eps => .ok (s.setPrecision eps)

def step (s : Space α) (a : Action α) : Space α := (s.perform a).toOption.getD s

def run (s : Space α) (actions : List (Action α)) : Space α := actions.foldl step s

/-! ### Coordinates -/

def limits (s : Space α) (k : Nat) : Limits α := (s.parameterAt (s.place k)).limits

def toExternal (s : Space α) (k : Nat) (v : α) : α := (s.limits k).toExternal v

def toInternal (s : Space α) (i : Nat) (v : α) : α :=
  (s.parameterAt i).limits.toInternal s.precision v

def slope (s : Space α) (k : Nat) (v : α) : α := (s.limits k).slope v

/- All external values: the given internal coordinates where a parameter may vary, the declared
values elsewhere. -/
def external (s : Space α) (x : Array α) : Array α :=
  (s.free.zip x.toList).foldl
    (fun values (i, v) => values.setIfInBounds i ((s.parameterAt i).limits.toExternal v)) s.values

def internal (s : Space α) : Array α :=
  (s.free.map fun i => s.toInternal i (s.parameterAt i).value).toArray

/- The external error of coordinate `k` at `v` with internal error `err`. With two limits, an
internal error beyond one covers the whole interval. -/
def externalError (s : Space α) (k : Nat) (v err : α) : α :=
  let here := s.toExternal k v
  let ahead := s.toExternal k (v + err) - here
  let behind := s.toExternal k (v - err) - here
  match s.limits k with
  | .free => err
  | .both lo hi =>
    0.5 * (Scalar.abs (if err > 1 then hi - lo else ahead) + Scalar.abs behind)
  | _ => 0.5 * (Scalar.abs ahead + Scalar.abs behind)

def externalCovariance (s : Space α) (x : Array α) (m : Symmetric α) : Covariance α :=
  let slopes := tabulate x.size fun k => s.slope k (entry x k)
  .ofMatrix (Symmetric.build m.size fun i j =>
    if i < x.size then entry slopes j * m.element j i * entry slopes i else 0)

/-! ### Refusing what lies outside

Coordinates and places beyond the declared ones, and vectors too long for the space, have no
answer. -/

def place? (s : Space α) (k : Nat) : Option Nat := s.free[k]?

def toExternal? (s : Space α) (k : Nat) (v : α) : Option α :=
  (s.place? k).map fun _ => s.toExternal k v

def slope? (s : Space α) (k : Nat) (v : α) : Option α := (s.place? k).map fun _ => s.slope k v

def toInternal? (s : Space α) (i : Nat) (v : α) : Option α :=
  s.parameters[i]?.map fun _ => s.toInternal i v

def externalError? (s : Space α) (k : Nat) (v err : α) : Option α :=
  (s.place? k).map fun _ => s.externalError k v err

def external? (s : Space α) (x : Array α) : Option (Array α) :=
  if x.size ≤ s.dimension then some (s.external x) else none

def externalCovariance? (s : Space α) (x : Array α) (m : Symmetric α) : Option (Covariance α) :=
  if x.size ≤ s.dimension ∧ x.size ≤ m.size then some (s.externalCovariance x m) else none

def declaredValues (s : Space α) : Array α := s.parameters.map (·.value)
def declaredErrors (s : Space α) : Array α := s.parameters.map (·.error)

end Space
end ParamFit
