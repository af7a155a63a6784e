import ParamFit.Minimum.External

/-!
The result of a search: what it started from, what it knew at each point on its way, and whether it
stopped short. A search that did not converge has a result as well; `isValid` tells.
-/
namespace ParamFit
variable {α : Type} [Scalar α]

structure Seed (α : Type) where
  knowledge : Knowledge α
  space : Space α

/- There is always a last point; `before` holds the others, the oldest first. -/
structure Minimum (α : Type) where
  seed : Seed α
  before : List (Knowledge α)
  last : Knowledge α
  errorDef : α
  aboveMaxEdm : Bool := false
  callLimit : Bool := false

namespace Minimum

def ofSeed (seed : Seed α) (errorDef : α) : Minimum α :=
  { seed, before := [], last := seed.knowledge, errorDef }

def ofHistory (seed : Seed α) (history : List (Knowledge α)) (errorDef : α) : Minimum α :=
  match history.getLast? with
  | some last => { seed, before := history.dropLast, last, errorDef }
  | none => ofSeed seed errorDef

def add (m : Minimum α) (k : Knowledge α) : Minimum α :=
  { m with before := m.before ++ [m.last], last := k }

def history (m : Minimum α) : List (Knowledge α) := m.before ++ [m.last]

def value (m : Minimum α) : α := m.last.value
def edm (m : Minimum α) : α := m.last.edm
def calls (m : Minimum α) : Nat := m.last.calls

def isValid (m : Minimum α) : Bool := m.last.isValid && !m.aboveMaxEdm && !m.callLimit

def isSound (m : Minimum α) : Bool := m.last.fitsIn m.seed.space

def state (m : Minimum α) : FitState α := .ofKnowledge m.last m.errorDef m.seed.space

end Minimum
end ParamFit
