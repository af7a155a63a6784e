import ParamFit.Search.Start

/-!
Search with a simplex: one vertex more than there are coordinates, of which the worst is reflected,
stretched or pulled through the center of the others. How far it is stretched follows a parabola
through the reflected and the stretched vertex. A round first asks for the values it needs and then
replaces at most one vertex at a time; the spread of the values is the distance to the minimum.
-/
namespace ParamFit
variable {α : Type} [Scalar α]

structure Vertex (α : Type) where
  value : α
  x : Array α
  deriving BEq, Repr

structure Simplex (α : Type) where
  vertices : Array (Vertex α)
  worst : Nat
  best : Nat

namespace Simplex

def vertex (s : Simplex α) (i : Nat) : Vertex α := s.vertices.getD i ⟨0, #[]⟩
def valueAt (s : Simplex α) (i : Nat) : α := (s.vertex i).value
def worstVertex (s : Simplex α) : Vertex α := s.vertex s.worst
def bestVertex (s : Simplex α) : Vertex α := s.vertex s.best

def findWorst (vertices : Array (Vertex α)) : Nat :=
  let value i := ((vertices[i]?).map (·.value)).getD 0
  (List.range vertices.size).foldl (fun w i => if value i > value w then i else w) 0

def exchange (s : Simplex α) (v : Vertex α) : Simplex α :=
  let vertices := s.vertices.setIfInBounds s.worst v
  let best := if v.value < (if s.best = s.worst then v.value else s.valueAt s.best) then s.worst
    else s.best
  ⟨vertices, findWorst vertices, best⟩

def spread (s : Simplex α) : α := s.worstVertex.value - s.bestVertex.value

def center (s : Simplex α) : Array α :=
  let n := s.vertices.size - 1
  let weight := 1 / Scalar.ofNat n
  (s.vertices.toList.zipIdx.filter fun (_, i) => i != s.worst).foldl
    (fun c (v, _) => Vector.add c (Vector.scale v.x weight)) (Array.replicate n 0)

def extent (s : Simplex α) : Array α :=
  tabulate (s.vertices.size - 1) fun k =>
    let first := entry (s.vertex 0).x k
    let low := s.vertices.foldl (fun a v => Scalar.min a (entry v.x k)) first
    let high := s.vertices.foldl (fun a v => Scalar.max a (entry v.x k)) first
    high - low

def blend (a : Array α) (u : α) (b : Array α) (v : α) : Array α :=
  Vector.add (Vector.scale a u) (Vector.scale b v)

/-! ### Trial points -/

def reflected (s : Simplex α) (c : Array α) : Array α :=
  Vector.sub (Vector.scale c 2.0) (Vector.scale s.worstVertex.x 1)

def stretched (c reflected : Array α) : Array α := blend reflected 2.0 c (1 - 2.0)

def pulled (s : Simplex α) (c : Array α) : Array α := blend s.worstVertex.x 0.5 c (1 - 0.5)

def extrapolated (s : Simplex α) (c : Array α) (rho : α) : Array α :=
  blend c rho s.worstVertex.x (1 - rho)

def heights (s : Simplex α) (reflected stretched : α) : α × α :=
  ((reflected - s.worstVertex.value) * 3.0, (stretched - s.worstVertex.value) * 2.0)

def factor (y₁ y₂ : α) : α := 0.5 * (3.0 * y₁ - 2.0 * y₂) / (y₁ - y₂)

/-! ### Rounds -/

inductive Outcome (α : Type) where
  | moved (s : Simplex α)
  | shrunk (s : Simplex α)

def pull (f : Surface α) (s : Simplex α) (c : Array α) : Eval α (Outcome α) := do
  let x := s.pulled c
  let y ← f.value x
  return if y > s.worstVertex.value then .shrunk s else .moved (s.exchange ⟨y, x⟩)

def afterPoor (f : Surface α) (s : Simplex α) (c : Array α) (v : Vertex α) :
    Eval α (Outcome α) := do
  if v.value < s.worstVertex.value then
    let t := s.exchange v
    if s.worst != t.worst then return .moved t else pull f t c
  else pull f s c

def afterGood (f : Surface α) (s : Simplex α) (c : Array α) (v w : Vertex α) :
    Eval α (Outcome α) := do
  let (y₁, y₂) := s.heights v.value w.value
  let rho := factor y₁ y₂
  let better := if w.value < s.bestVertex.value then w else v
  if rho < 4.0 then return .moved (s.exchange better)
  else
    let x := s.extrapolated c (if rho > 8.0 then 8.0 else rho)
    let y ← f.value x
    if y < s.bestVertex.value ∧ y < w.value then return .moved (s.exchange ⟨y, x⟩)
    else if w.value < s.bestVertex.value then return .moved (s.exchange w)
    else if y > s.bestVertex.value then return .moved (s.exchange better)
    else if v.value > s.worstVertex.value then pull f s c
    else return .moved s

def round (f : Surface α) (s : Simplex α) : Eval α (Outcome α) := do
  let c := s.center
  let x := s.reflected c
  let v : Vertex α := ⟨← f.value x, x⟩
  if v.value > s.bestVertex.value then afterPoor f s c v
  else
    let x := stretched c x
    let w : Vertex α := ⟨← f.value x, x⟩
    afterGood f s c v w

def rounds (f : Surface α) (maxCalls : Nat) (wanted : α) (s : Simplex α) :
    Nat → Eval α (Simplex α)
  | 0 => return s
  | fuel + 1 => do
    match ← round f s with
    | .shrunk s => return s
    | .moved s =>
      if s.spread > wanted ∧ (← Eval.calls) < maxCalls then rounds f maxCalls wanted s fuel
      else return s

/-! ### Beginning and end -/

def firstStep (seed : Seed α) (k : Nat) : α :=
  let prec := seed.space.precision
  let step := entry seed.knowledge.gradient.steps k * 10.0
  let least := 8.0 * prec.eps2 * (Scalar.abs (entry seed.knowledge.point.x k) + prec.eps2)
  if step < least then least else step

def spreadOut (f : Surface α) (seed : Seed α) (x : Array α) (s : Simplex α) :
    List Nat → Eval α (Simplex α)
  | [] => return s
  | k :: rest => do
    let step := firstStep seed k
    let moved := x.setIfInBounds k (entry x k + step)
    let y ← f.value moved
    let s : Simplex α :=
      { vertices := s.vertices.push ⟨y, moved⟩
        best := if y < s.bestVertex.value then k + 1 else s.best
        worst := if y > s.worstVertex.value then k + 1 else s.worst }
    spreadOut f seed (x.setIfInBounds k (entry moved k - step)) s rest

def ofSeed (f : Surface α) (seed : Seed α) : Eval α (Simplex α) :=
  let p := seed.knowledge.point
  spreadOut f seed p.x ⟨#[⟨p.value, p.x⟩], 0, 0⟩ (List.range p.x.size)

def settle (f : Surface α) (s : Simplex α) : Eval α (Simplex α × Vertex α) := do
  let c := s.center
  let y ← f.value c
  return if y < s.bestVertex.value then (s.exchange ⟨y, c⟩, ⟨y, c⟩) else (s, s.bestVertex)

def errors (s : Simplex α) (errorDef : α) : Array α :=
  if s.spread > 0 then Vector.scale s.extent (Scalar.sqrt (errorDef / s.spread)) else s.extent

end Simplex

/- A search with a simplex that ends when its values spread by less than `wanted`. Every round
asks at least once, so the calls bound the rounds. -/
def Surface.contract (f : Surface α) (seed : Seed α) (maxCalls : Nat) (wanted : α) :
    Eval α (Minimum α) := do
  if seed.knowledge.size = 0 then return .ofSeed seed f.errorDef
  else
    Eval.expect (seed.knowledge.size ≤ seed.knowledge.gradient.steps.size)
    let s ← Simplex.ofSeed f seed
    let s ← s.rounds f maxCalls wanted (maxCalls + 1)
    let (s, best) ← s.settle f
    let calls ← Eval.calls
    let point := Point.withStep best.x (s.errors f.errorDef) best.value
    let min := Minimum.ofHistory seed [.ofPoint point s.spread calls] f.errorDef
    return if maxCalls < calls then { min with callLimit := true }
      else if s.spread > wanted then { min with aboveMaxEdm := true }
      else min

end ParamFit
