import ParamFit.Parameter.Space

/-!
Asking an objective. An objective is a pure function of the external values; everything that asks
it does so in `Eval`, which keeps the trace of all points asked so far. The number of calls a
search has spent is the number of values in its trace, so it cannot be wrong.

A step that needs more than it is given goes on with zeros and marks the trace as unsound. What
comes of such a run means nothing, and `run?` gives no answer for it.
-/
namespace ParamFit
variable {α β : Type}

/- A function to minimize, with the derivatives it provides, and how many of its arguments each of
them reads. That may depend on the arguments: what a function reads only in some places need not be
there elsewhere. -/
structure Objective (α : Type) where
  value : Array α → α
  provides : Nat → Bool
  slope : Nat → Array α → α
  reads : Array α → Nat := fun _ => 0
  slopeReads : Nat → Array α → Nat := fun _ _ => 0

def Objective.plain [Zero α] (value : Array α → α) : Objective α where
  value
  provides _ := false
  slope _ _ := 0

/- The points at which the value and the derivatives of an objective were asked, in order, and
whether every step had what it needs. -/
structure Trace (α : Type) where
  values : Array (Array α) := #[]
  slopes : Array (Array α) := #[]
  sound : Bool := true

def Trace.calls (t : Trace α) : Nat := t.values.size

def Trace.append (t u : Trace α) : Trace α :=
  ⟨t.values ++ u.values, t.slopes ++ u.slopes, t.sound && u.sound⟩

abbrev Eval (α β : Type) := StateM (Trace α) β

abbrev Attempt (α β : Type) := ExceptT (FitError α) (Eval α) β

namespace Eval

def calls : Eval α Nat := do return (← get).calls

/- What the next step needs; without it, the trace is no longer sound. -/
def expect (holds : Bool) : Eval α Unit := modify fun t => { t with sound := t.sound && holds }

theorem calls_expect (holds : Bool) (t : Trace α) : ((expect holds).run t).2.calls = t.calls := rfl

/- The outcome of a computation after what `t` holds, unless a step lacked something. -/
def run? (m : Eval α β) (t : Trace α) : Option (β × Trace α) :=
  let (b, u) := m.run t
  if u.sound then some (b, u) else none

def result? (m : Eval α β) : Option β := (m.run? {}).map (·.1)

/- A computation with a budget of its own: it begins with an empty trace, which is appended to
the trace around it. -/
def apart (m : Eval α β) : Eval α β := fun t =>
  let (b, u) := m.run {}
  (b, t.append u)

def tabulate (f : Nat → Eval α β) : Nat → Eval α (Array β)
  | 0 => pure #[]
  | n + 1 => do
    let before ← tabulate f n
    return before.push (← f n)

end Eval

structure Surface (α : Type) where
  objective : Objective α
  errorDef : α
  space : Space α

namespace Surface
variable [Scalar α]

def precision (s : Surface α) : Precision α := s.space.precision

def externalValue (s : Surface α) (x : Array α) : Eval α α := do
  Eval.expect (s.objective.reads x ≤ x.size)
  modify fun t => { t with values := t.values.push x }
  return s.objective.value x

/- The value at internal coordinates. Those that are missing keep their declared values; there must
not be too many. -/
def value (s : Surface α) (x : Array α) : Eval α α := do
  Eval.expect (x.size ≤ s.space.dimension)
  s.externalValue (s.space.external x)

def externalSlope (s : Surface α) (place : Nat) (x : Array α) : Eval α α := do
  Eval.expect (s.objective.slopeReads place x ≤ x.size)
  modify fun t => { t with slopes := t.slopes.push x }
  return s.objective.slope place x

def isLimited (s : Surface α) (k : Nat) : Bool := (s.space.parameterAt (s.space.place k)).hasLimits

def valueWith (s : Surface α) (x : Array α) (k : Nat) (v : α) : Eval α α :=
  s.value (x.setIfInBounds k v)

end Surface
end ParamFit
