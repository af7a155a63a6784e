import ParamFit.Search.Start

/-!
Scanning one parameter at a time in external values, while the others stay where they are. Whenever
a value is lower than all before, the parameter moves there; so scans of different parameters in a
row search along the axes.
-/
namespace ParamFit
variable {α : Type} [Scalar α]

structure Scan (α : Type) where
  space : Space α
  best : α

namespace Scan

def maxSteps : Nat := 101

def defaultSteps : Nat := 41

def start (f : Surface α) (space : Space α) : Eval α (Scan α) := do
  return ⟨space, ← f.externalValue space.declaredValues⟩

def interval (p : Parameter α) (low high : α) : α × α :=
  let (low, high) :=
    if low == 0 && high == 0 then (p.value - 2.0 * p.error, p.value + 2.0 * p.error)
    else (low, high)
  (p.lower.elim low (Scalar.max low), p.upper.elim high (Scalar.min high))

def visit (f : Surface α) (i : Nat) (values : Array α) (s : Scan α) (seen : List (Sample α)) :
    List α → Eval α (Scan α × List (Sample α))
  | [] => return (s, seen.reverse)
  | v :: rest => do
    let y ← f.externalValue (values.setIfInBounds i v)
    let s := if y < s.best then ⟨s.space.setValueAt i v, y⟩ else s
    visit f i values s (⟨v, y⟩ :: seen) rest

def grid (low high : α) (steps : Nat) : List α :=
  let step := (high - low) / (Scalar.ofNat steps - 1)
  (List.range steps).map fun i => low + Scalar.ofNat i * step

/- Scan a parameter over an interval. The first sample is the value it begins with; a reversed
interval or less than two steps give nothing else. -/
def run (f : Surface α) (s : Scan α) (p : Address) (steps : Nat) (low high : α) :
    Eval α (Except (FitError α) (Scan α × List (Sample α))) := do
  match s.space.indexOf p with
  | .error e => return .error e
  | .ok i =>
    let steps := min steps maxSteps
    let p := s.space.parameterAt i
    let first : Sample α := ⟨p.value, s.best⟩
    if low > high ∨ steps < 2 then return .ok (s, [first])
    else
      let (low, high) := interval p low high
      if low > high then return .error (.refused p.name (.intervalOutside low high))
      else return .ok (← visit f i s.space.declaredValues s [first] (grid low high steps))

end Scan

namespace Surface

def scanEach (f : Surface α) (space : Space α) (s : Scan α) (x : Array α) (best : α) :
    List (Nat × Nat) → Eval α (Array α × α)
  | [] => return (x, best)
  | (i, k) :: rest => do
    let s := match ← s.run f (.index i) Scan.defaultSteps 0 0 with
      | .ok (s, _) => s
      | .error _ => s
    if s.best < best then
      let x := x.setIfInBounds k (space.toInternal i (s.space.parameterAt i).value)
      f.scanEach space s x s.best rest
    else f.scanEach space s x best rest

def scanAxes (f : Surface α) (seed : Seed α) : Eval α (Minimum α) := do
  let k := seed.knowledge
  let n := seed.space.dimension
  Eval.expect (k.fitsIn seed.space && n ≤ k.error.inverse.size)
  let start := FitState.ofKnowledge k f.errorDef seed.space
  let (x, best) ← f.scanEach seed.space ⟨start.space, k.value⟩ k.point.x k.value
    seed.space.free.zipIdx
  let errors := Vector.overlay k.point.x (tabulate n fun i =>
    Scalar.sqrt (2.0 * f.errorDef * k.error.inverse.element i i))
  let calls ← Eval.calls
  return .ofHistory seed [.ofPoint (.withStep x errors best) 0 calls] f.errorDef

end Surface
end ParamFit
