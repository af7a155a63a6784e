import ParamFit.Profile.Interval

/-!
The line in the plane of two parameters on which the profile of the objective has risen by a set
amount. Its first four points come from the ends of both intervals; after that, the widest gap
between neighbours is split by a search across it, outward first and inward if that fails. A search
that fails both ways ends the contour.
-/
namespace ParamFit
variable {α : Type}

structure Contour (α : Type) where
  x : Nat
  y : Nat
  points : List (Sample α)
  across : Interval α
  along : Interval α
  calls : Nat

/- Two neighbours on a contour; `position` is where a point between them is put, with zero for the
gap between the last point and the first. -/
structure Gap (α : Type) where
  position : Nat
  start : Sample α
  finish : Sample α

namespace Gap

def all (points : List (Sample α)) : List (Gap α) :=
  match points.head?, points.getLast? with
  | some first, some last =>
    ⟨0, last, first⟩ ::
      ((points.zip (points.drop 1)).zipIdx.map fun ((a, b), j) => ⟨j + 1, a, b⟩)
  | _, _ => []

def widest? [Scalar α] (width : Gap α → α) : List (Gap α) → Option (Gap α)
  | [] => none
  | g :: rest => some (rest.foldl (fun best h => if width h > width best then h else best) g)

def split (g : Gap α) (points : List (Sample α)) (p : Sample α) : List (Sample α) :=
  if g.position = 0 then points ++ [p] else points.insertIdx g.position p

end Gap

structure Canvas (α : Type) where
  profile : Profile α
  x : Nat
  y : Nat
  scaleX : α
  scaleY : α
  maxCalls : Nat

namespace Canvas

def tolerance [Scalar α] : α := 0.05

section
variable [Scalar α]

def width (c : Canvas α) (g : Gap α) : α :=
  let dx := c.scaleX * (g.start.x - g.finish.x)
  let dy := c.scaleY * (g.start.y - g.finish.y)
  dx * dx + dy * dy

def middle (g : Gap α) : Sample α :=
  ⟨0.5 * (g.start.x + g.finish.x), 0.5 * (g.start.y + g.finish.y)⟩

def normal (c : Canvas α) (g : Gap α) (sign : α) : Sample α :=
  let dx := g.finish.y - g.start.y
  let dy := g.start.x - g.finish.x
  let scale := sign * Scalar.max (Scalar.abs (dx * c.scaleX)) (Scalar.abs (dy * c.scaleY))
  ⟨dx / scale, dy / scale⟩

end

section
variable [Spectral α]

def bridge (c : Canvas α) (g : Gap α) (calls : Nat) :
    List α → Eval α (Option (Sample α) × Nat)
  | [] => return (none, calls)
  | sign :: rest => do
    if c.maxCalls < calls then return (none, calls)
    else
      let mid := middle g
      let dir := c.normal g sign
      let found ← c.profile.crossing [c.x, c.y] [mid.x, mid.y] [dir.x, dir.y] tolerance c.maxCalls
      let calls := calls + found.calls
      if found.isValid then
        return (some ⟨mid.x + found.value * dir.x, mid.y + found.value * dir.y⟩, calls)
      else c.bridge g calls rest

def grow (c : Canvas α) (points : List (Sample α)) (calls : Nat) :
    Nat → Eval α (List (Sample α) × Nat)
  | 0 => return (points, calls)
  | n + 1 => do
    match Gap.widest? c.width (Gap.all points) with
    | none => return (points, calls)
    | some g =>
      match ← c.bridge g calls [1, -1] with
      | (some p, calls) => c.grow (g.split points p) calls n
      | (none, calls) => return (points, calls)

end
end Canvas

namespace Surroundings
variable [Spectral α]

def pinned (s : Surroundings α) (place : Nat) (value : α) : Except (FitError α) (Fit α) := do
  let fit ← (s.profile s.state 0).inner.perform (.fix (.index place))
  fit.perform (.setValue (.index place) value)

def cardinal (s : Surroundings α) (place : Nat) (value : α) (other : Nat) :
    Attempt α (Option α × Nat) := do
  let fit ← s.pinned place value
  let (_, m) ← (fit.minimize : Attempt α _)
  return (if m.isValid then some (m.state.space.parameterAt other).value else none, m.calls)

def cardinals (s : Surroundings α) (found : List α) (calls : Nat) :
    List (Nat × α × Nat) → Attempt α (List α × Nat)
  | [] => return (found, calls)
  | (place, value, other) :: rest => do
    match ← s.cardinal place value other with
    | (some v, spent) => s.cardinals (found ++ [v]) (calls + spent) rest
    | (none, spent) => return (found, calls + spent)

def contourPlaces (s : Surroundings α) (px py : Address) (count : Nat) :
    Except (FitError α) (Nat × Nat) := do
  let x ← s.state.space.indexOf px
  let y ← s.state.space.indexOf py
  if x = y then throw (.unusable .sameParameter)
  if count < 4 then throw (.unusable .tooFewPoints)
  return (x, y)

def contourBudget (s : Surroundings α) (count : Nat) : Nat :=
  100 * (count + 5) * (s.state.space.dimension + 1)

/- A contour of two different parameters with at most a number of points, four at least, a multiple
of the error definition above the minimum. Where an interval or one of the first four points is
missing, there are no points. -/
def contour (s : Surroundings α) (px py : Address) (multiple : α) (count : Nat) :
    Attempt α (Contour α) := do
  let space := s.state.space
  let (x, y) ← s.contourPlaces px py count
  let across ← s.interval (.index x) multiple 0
  if !across.isValid then return ⟨x, y, [], across, across, across.calls⟩
  let along ← s.interval (.index y) multiple 0
  let calls := across.calls + along.calls
  if !along.isValid then return ⟨x, y, [], across, along, calls⟩
  let (xLow, xHigh) := across.range
  let (yLow, yHigh) := along.range
  let cx := (space.parameterAt x).value
  let cy := (space.parameterAt y).value
  let (found, calls) ← s.cardinals [] calls
    [(x, cx + xHigh, y), (x, cx + xLow, y), (y, cy + yHigh, x), (y, cy + yLow, x)]
  match found with
  | [right, left, top, bottom] =>
    let points := [⟨cx + xLow, left⟩, ⟨bottom, cy + yLow⟩, ⟨cx + xHigh, right⟩, ⟨top, cy + yHigh⟩]
    let held ← (← s.state.fix (.index x)).fix (.index y)
    let canvas : Canvas α :=
      ⟨s.profile held (s.rise multiple), x, y, 1 / (xHigh - xLow), 1 / (yHigh - yLow),
        s.contourBudget count⟩
    let (points, calls) ← (canvas.grow points calls (count - 4) : Eval α _)
    return ⟨x, y, points, across, along, calls⟩
  | _ => return ⟨x, y, [], across, along, calls⟩

def contour? (s : Surroundings α) (px py : Address) (multiple : α) (count : Nat) :
    Option (Attempt α (Contour α)) :=
  if (s.contourPlaces px py count).isOk && !Count.fits (s.contourBudget count) then none
  else some (s.contour px py multiple count)

end Surroundings
end ParamFit
