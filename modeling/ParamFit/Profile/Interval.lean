import ParamFit.Profile.Crossing

/-!
How far a parameter can move from its minimum before the profile of the objective has risen by a
set amount, on either side. A search for such a crossing starts with the parameter one error away
from the minimum and the others moved along with it as they are correlated; its step counts errors
beyond that. An `Interval` holds both crossings and reads offsets from the minimum off them.
-/
namespace ParamFit
variable {α : Type}

inductive Side where
  | lower
  | upper
  deriving DecidableEq, Repr

namespace Side

def sign [Scalar α] : Side → α
  | lower => -1
  | upper => 1

def limit (p : Parameter α) : Side → Option α
  | lower => p.lower
  | upper => p.upper

end Side

structure Interval (α : Type) where
  place : Nat
  center : α
  lower : Crossing α
  upper : Crossing α

namespace Interval

def crossing (i : Interval α) : Side → Crossing α
  | .lower => i.lower
  | .upper => i.upper

def isValid (i : Interval α) : Bool := i.lower.isValid && i.upper.isValid

def calls (i : Interval α) : Nat := i.lower.calls + i.upper.calls

section
variable [Scalar α]

def error (i : Interval α) (c : Crossing α) : α :=
  (c.state.space.parameters[i.place]?.map (·.error)).getD 0

def limit? (i : Interval α) (s : Side) : Option α :=
  let c := i.crossing s
  if c.verdict = .atLimit then c.state.space.parameters[i.place]?.bind (Side.limit · s) else none

def offset (i : Interval α) (s : Side) : α :=
  match i.limit? s with
  | some limit => limit - i.center
  | none =>
    let c := i.crossing s
    match s with
    | .lower => -i.error c * (1 + c.value)
    | .upper => i.error c * (1 + c.value)

def range (i : Interval α) : α × α := (i.offset .lower, i.offset .upper)

end
end Interval

structure Surroundings (α : Type) where
  objective : Objective α
  minimum : Minimum α
  strategy : Strategy α

namespace Surroundings

def tolerance [Scalar α] : α := 0.1

section
variable [Scalar α]

def state (s : Surroundings α) : FitState α := s.minimum.state

def profile (s : Surroundings α) (state : FitState α) (rise : α) : Profile α :=
  ⟨s.objective, state, s.minimum.value, s.strategy, s.minimum.errorDef, rise⟩

def rise (s : Surroundings α) (multiple : α) : α := multiple * s.minimum.errorDef

def start (s : Surroundings α) (side : Side) (i : Nat) : α :=
  (s.state.space.parameterAt i).value + side.sign * (s.state.space.parameterAt i).error

def follow (s : Surroundings α) (side : Side) (i k : Nat) (rise : α) : FitState α :=
  let m := s.minimum.last.error.covariance
  let unit := Scalar.sqrt (rise / (s.state.space.parameterAt i).error)
  (List.range m.size).foldl (fun t j =>
    if j = k then t
    else
      let place := t.space.place j
      let moved := (t.space.parameterAt place).value + side.sign * (unit * m.element k j)
      { t with space := t.space.setValueAt place moved }) s.state

def beside (s : Surroundings α) (side : Side) (i k : Nat) (rise : α) :
    Except (FitError α) (FitState α) := do
  let t ← (s.follow side i k rise).fix (.index i)
  return { t with space := t.space.setValueAt i (s.start side i) }

def budget (s : Surroundings α) (maxCalls : Nat) : Nat :=
  let n := s.state.space.dimension
  if maxCalls = 0 then 2 * (n + 1) * defaultBudget n else maxCalls

def searched (s : Surroundings α) (p : Address) : Except (FitError α) (Nat × Nat) := do
  let i ← s.state.space.indexOf p
  let q := s.state.space.parameterAt i
  if q.isConstant ∨ q.isFixed then .error (.refused q.name .profileNeedsVariable)
  else
    match s.state.space.coordinate? i with
    | some k => return (i, k)
    | none => .error (.unusable .notSearched)

end

section
variable [Spectral α]

def crossing (s : Surroundings α) (side : Side) (p : Address) (multiple : α) (maxCalls : Nat) :
    Attempt α (Crossing α) := do
  let (i, k) ← s.searched p
  let t ← s.beside side i k (s.rise multiple)
  let error := (s.state.space.parameterAt i).error
  (s.profile t (s.rise multiple)).crossing [i] [s.start side i] [side.sign * error] tolerance
    (s.budget maxCalls)

def interval (s : Surroundings α) (p : Address) (multiple : α) (maxCalls : Nat) :
    Attempt α (Interval α) := do
  let i ← s.state.space.indexOf p
  let upper ← s.crossing .upper (.index i) multiple maxCalls
  let lower ← s.crossing .lower (.index i) multiple maxCalls
  return ⟨i, (s.state.space.parameterAt i).value, lower, upper⟩

/- One end alone: the offset of the crossing if there is one, else the limit that the search ended
at, else the value at the minimum. -/
def bound (s : Surroundings α) (side : Side) (p : Address) (multiple : α) (maxCalls : Nat) :
    Attempt α α := do
  let i ← s.state.space.indexOf p
  let c ← s.crossing side (.index i) multiple maxCalls
  let q := s.state.space.parameterAt i
  if c.isValid then return side.sign * q.error * (1 + c.value)
  else
    match side.limit q with
    | some limit => return if c.verdict = .atLimit then limit else q.value
    | none => return q.value

end
end Surroundings
end ParamFit
