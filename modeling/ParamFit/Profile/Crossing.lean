import ParamFit.Fit
import ParamFit.Parabola

/-!
Where the profile of an objective rises to a level. Some parameters are moved along a line, all
others are minimized at each trial step; the search looks for the step at which the minimum has
risen by a set amount. It goes along the line until the profile rises, follows secants until the
level is bracketed, and then lays parabolas through three trials. How the next step follows from
the trials so far is pure; `Chase` asks for trials, keeps a record of them, and ends with a
crossing as soon as one is decided.
-/
namespace ParamFit
variable {α : Type}

inductive Verdict where
  | found
  | missing
  | atLimit
  | callLimit
  | lowerMinimum
  deriving DecidableEq, Repr

structure Crossing (α : Type) where
  value : α
  state : FitState α
  calls : Nat
  verdict : Verdict

def Crossing.isValid (c : Crossing α) : Bool := c.verdict == .found

structure Trial (α : Type) where
  step : α
  value : α
  calls : Nat

structure Lead (α : Type) where
  place : Nat
  middle : α
  direction : α

/- What a search needs to know: the objective with the state that trials begin from, the level
`base + rise` that counts as a crossing, the strategy around the trials, and the error definition
within them. -/
structure Profile (α : Type) where
  objective : Objective α
  state : FitState α
  base : α
  strategy : Strategy α
  errorDef : α
  rise : α

structure Hunt (α : Type) where
  profile : Profile α
  line : List (Lead α)
  tolerance : α
  maxCalls : Nat
  limit : α

structure Tracker (α : Type) where
  fit : Fit α
  calls : Nat
  trials : List (Trial α)

abbrev Chase (α β : Type) := ExceptT (Crossing α) (StateT (Tracker α) (Eval α)) β

structure Trio (α : Type) where
  first : Sample α
  second : Sample α
  third : Sample α

namespace Trio

def get (t : Trio α) : Fin 3 → Sample α
  | 0 => t.first
  | 1 => t.second
  | 2 => t.third

def set (t : Trio α) (i : Fin 3) (p : Sample α) : Trio α :=
  match i with
  | 0 => { t with first := p }
  | 1 => { t with second := p }
  | 2 => { t with third := p }

def places : List (Fin 3) := [0, 1, 2]

end Trio

namespace Hunt

section
variable [Scalar α]

def aim (h : Hunt α) : α := h.profile.base + h.profile.rise

def valueTolerance (h : Hunt α) : α := 0.1 * h.tolerance

def stepTolerance (h : Hunt α) (a : α) : α :=
  if Scalar.abs a > 1 then h.tolerance * Scalar.abs a else h.tolerance

def cap (h : Hunt α) (a : α) : α × Bool := if a > h.limit then (h.limit, true) else (a, false)

def limitAhead (p : Parameter α) (direction : α) : Option α :=
  if direction > 0 then p.upper else p.lower

/- The longest step that keeps all leads within their limits, at most a hundred. A lead that does
not exist leaves none. -/
def longestStep (space : Space α) (line : List (Lead α)) : Option α :=
  line.foldlM (fun longest l =>
    if l.place < space.parameters.size then
      let p := space.parameterAt l.place
      if Scalar.abs l.direction < space.precision.eps then some longest
      else
        match limitAhead p l.direction with
        | some limit => some (Scalar.min longest ((limit - l.middle) / l.direction))
        | none => some longest
    else none) 100.0

end

section
variable [Spectral α]

def giveUp {β : Type} (h : Hunt α) : Chase α β := do
  throw ⟨0, h.profile.state, (← get).calls, .missing⟩

def stop {β : Type} (m : Minimum α) (value : α) (v : Verdict) : Chase α β := do
  throw ⟨value, m.state, (← get).calls, v⟩

def place (h : Hunt α) (f : Fit α) (a : α) : Except (FitError α) (Fit α) :=
  h.line.foldlM (fun f l => f.perform (.setValue (.index l.place) (l.middle + a * l.direction))) f

/- Minimize at a step. Running out of calls, an unsound minimum, staying below the level at the
limit and falling below the base all end the search. -/
def probe (h : Hunt α) (a : α) (limited : Bool) : Chase α (Minimum α) := do
  let t ← get
  match h.place t.fit a with
  | .error _ => h.giveUp
  | .ok fit =>
    match ← (liftM (fit.minimizeWith h.maxCalls h.tolerance : Eval α _) : Chase α _) with
    | .error _ => h.giveUp
    | .ok (fit, m) =>
      set (⟨fit, t.calls + m.calls, ⟨a, m.value, m.calls⟩ :: t.trials⟩ : Tracker α)
      if m.callLimit then stop m 0 .callLimit
      else if !m.isValid then h.giveUp
      else if limited && decide (m.value < h.aim) then stop m 0 .atLimit
      else if m.value < h.profile.base - h.valueTolerance then stop m 0 .lowerMinimum
      else return m

end
end Hunt

structure Approach (α : Type) where
  trio : Trio α
  slope : α
  count : Nat
  latest : Minimum α

namespace Approach

def maxCount : Nat := 15

section
variable [Scalar α]

def chord (t : Trio α) : α := (t.second.y - t.first.y) / (t.second.x - t.first.x)

/-! ### Until the profile rises -/

def advance (s : Approach α) (a : α) (m : Minimum α) : Approach α :=
  let trio := { s.trio with first := s.trio.second, second := ⟨a, m.value⟩ }
  ⟨trio, chord trio, s.count + 1, m⟩

/-! ### Secants -/

def secantStep (h : Hunt α) (s : Approach α) : α :=
  s.trio.second.x + (h.aim - s.trio.second.y) / s.slope

def secantArrived (h : Hunt α) (s : Approach α) (a : α) : Bool :=
  let t := s.trio
  let valueGap := Scalar.min (Scalar.abs (h.aim - t.first.y)) (Scalar.abs (h.aim - t.second.y))
  let stepGap := Scalar.min (Scalar.abs (a - t.first.x)) (Scalar.abs (a - t.second.x))
  decide (stepGap < h.stepTolerance a) && decide (valueGap < h.valueTolerance)

def holdSecant (s : Approach α) (a : α) : α :=
  Scalar.clamp a (Scalar.min s.trio.first.x s.trio.second.x - 1)
    (Scalar.max s.trio.first.x s.trio.second.x + 1)

structure Survey (α : Type) where
  least : α
  most : α
  best : Fin 3
  worst : Fin 3
  below : Nat

def survey (aim : α) (t : Trio α) : Survey α :=
  Trio.places.foldl (fun s i =>
    let y := (t.get i).y
    let gap := Scalar.abs (y - aim)
    let s := if gap > s.most then { s with most := gap, worst := i } else s
    let s := if gap < s.least then { s with least := gap, best := i } else s
    if y < aim then { s with below := s.below + 1 } else s)
    ⟨Scalar.abs (t.third.y - aim), 0, 2, 0, 0⟩

/-! ### Parabolas -/

structure Sides where
  left : Option (Fin 3) := none
  right : Option (Fin 3) := none
  out : Option (Fin 3) := none

def Sides.sort (aim : α) (t : Trio α) (s : Sides) (i : Fin 3) : Sides :=
  let y := (t.get i).y
  if y > aim then
    match s.right with
    | none => { s with right := some i }
    | some r => if y > (t.get r).y then { s with out := some i }
      else { s with out := some r, right := some i }
  else
    match s.left with
    | none => { s with left := some i }
    | some l => if y < (t.get l).y then { s with out := some i }
      else { s with out := some l, left := some i }

def sides (aim : α) (t : Trio α) : Sides := Trio.places.foldl (Sides.sort aim t) {}

def rising? (prec : Precision α) (aim : α) (t : Trio α) : Option (α × α) :=
  let p := Parabola.through t.first t.second t.third
  let d := p.b * p.b - 4.0 * p.a * (p.c - aim)
  if d < prec.eps ∨ Scalar.abs p.a < prec.eps then none
  else
    let r := Scalar.sqrt d
    let x₁ := (-p.b + r) / (2.0 * p.a)
    let x₂ := (-p.b - r) / (2.0 * p.a)
    let s₁ := p.b + 2.0 * x₁ * p.a
    let s₂ := p.b + 2.0 * x₂ * p.a
    some (if s₂ > 0 then (x₂, s₂) else (x₁, s₁))

def bracket (h : Hunt α) (t : Trio α) (left right : Fin 3) (a slope : α) : α × α :=
  let margin := 0.1 * h.stepTolerance a
  let margin := if slope * margin > h.valueTolerance then h.valueTolerance / slope else margin
  ((t.get left).x + margin, (t.get right).x - margin)

def holdInside (h : Hunt α) (t : Trio α) (left right out : Fin 3) (a slope : α) : α :=
  let far := Trio.places.foldl
    (fun m i => Scalar.max m (Scalar.abs ((t.get i).y - h.aim))) 0
  let drawn :=
    if far > 10.0 * Scalar.abs ((t.get out).y - h.aim) then
      0.5 * (a + 0.5 * ((t.get right).x + (t.get left).x))
    else a
  let (low, high) := bracket h t left right a slope
  if low > high then 0.5 * (low + high) else Scalar.clamp drawn low high

end

section
variable [Spectral α]

def climb (h : Hunt α) (s : Approach α) (i : Nat) : Nat → Chase α (Approach α)
  | 0 => return s
  | fuel + 1 => do
    let (a, limited) := h.cap (s.trio.second.x + 0.2 * Scalar.ofNat (i + 1))
    let s := s.advance a (← h.probe a limited)
    if s.slope > 0 then return s else climb h s (i + 1) fuel

def ascend (h : Hunt α) (s : Approach α) : Chase α (Approach α) := do
  if s.slope < 0 then
    let s ← climb h s 0 (maxCount - s.count)
    if maxCount < s.count then h.giveUp else return s
  else return s

/- Secant steps until the level lies between the trials; the place of the trial nearest to it comes
with them. Every step counts one trial, so the steps are bounded. -/
def secants (h : Hunt α) (s : Approach α) : Nat → Chase α (Approach α × Fin 3)
  | 0 => h.giveUp
  | fuel + 1 => do
    if s.slope == 0 || !Scalar.isFinite s.slope then h.giveUp
    let a := secantStep h s
    if secantArrived h s a then Hunt.stop s.latest a .found
    if maxCount < s.count then h.giveUp
    let (a, limited) := h.cap (s.holdSecant a)
    let m ← h.probe a limited
    let trio := { s.trio with third := ⟨a, m.value⟩ }
    let s := { s with trio, count := s.count + 1, latest := m }
    let v := survey h.aim trio
    if v.below = 1 ∨ v.below = 2 then return (s, v.best)
    else if v.best = 2 then
      let trio := trio.set v.worst trio.third
      secants h { s with trio, slope := chord trio } fuel
    else if v.below = 0 then h.giveUp
    else
      let s ← ascend h { s with trio := { trio with second := trio.third } }
      secants h s fuel

def parabolas (h : Hunt α) (s : Approach α) (best : Fin 3) : Nat → Chase α (Crossing α)
  | 0 => h.giveUp
  | fuel + 1 => do
    let some (a, slope) := rising? h.profile.state.space.precision h.aim s.trio | h.giveUp
    let nearest := s.trio.get best
    if Scalar.abs (a - nearest.x) < h.stepTolerance a
        ∧ Scalar.abs (nearest.y - h.aim) < h.valueTolerance then
      Hunt.stop s.latest a .found
    match sides h.aim s.trio with
    | ⟨some left, some right, some out⟩ =>
      let (low, high) := bracket h s.trio left right a slope
      liftM (Eval.expect (decide (low > high) || decide (low ≤ high)) : Eval α Unit)
      let (a, limited) := h.cap (holdInside h s.trio left right out a slope)
      let m ← h.probe a limited
      let trio := s.trio.set out ⟨a, m.value⟩
      parabolas h { s with trio, count := s.count + 1, latest := m } out fuel
    | _ => h.giveUp

def quadraticGuess (h : Hunt α) (y : α) : α :=
  Scalar.sqrt (h.profile.rise / (y - h.profile.base)) - 1

def search (h : Hunt α) : Chase α (Crossing α) := do
  let m ← h.probe 0 (decide (h.limit < 0 + h.tolerance))
  let y := Scalar.max m.value (h.profile.base + 0.1 * h.profile.rise)
  let a := quadraticGuess h y
  if Scalar.abs (y - h.aim) < h.valueTolerance then Hunt.stop m a .found
  let (a, limited) := h.cap (Scalar.clamp a (-0.5) 1)
  let m ← h.probe a limited
  let trio : Trio α := ⟨⟨0, y⟩, ⟨a, m.value⟩, ⟨0, 0⟩⟩
  let s ← ascend h ⟨trio, chord trio, 1, m⟩
  let (s, best) ← secants h s (maxCount + 1)
  parabolas h s best (maxCount - s.count)

end
end Approach

namespace Profile
variable [Spectral α]

def inner (p : Profile α) : Fit α :=
  (Fit.new p.objective p.state .descent).configure
    { (Settings.default : Settings α) with
      strategy := p.strategy.lowered.level, errorDef := p.errorDef }

def chase (p : Profile α) (line : List (Lead α)) (tolerance : α) (maxCalls : Nat) :
    Eval α (Crossing α × List (Trial α)) :=
  match Hunt.longestStep p.state.space line with
  | none => return (⟨0, p.state, 0, .missing⟩, [])
  | some limit => do
    let (found, t) ← (Approach.search ⟨p, line, tolerance, maxCalls, limit⟩).run ⟨p.inner, 0, []⟩
    return match found with
      | .ok c => (c, t.trials)
      | .error c => (c, t.trials)

def crossing (p : Profile α) (places : List Nat) (middles directions : List α) (tolerance : α)
    (maxCalls : Nat) : Eval α (Crossing α) := do
  if places.length = middles.length ∧ places.length = directions.length then
    let line := (places.zip (middles.zip directions)).map fun (i, m, d) => ⟨i, m, d⟩
    return (← p.chase line tolerance maxCalls).1
  else return ⟨0, p.state, 0, .missing⟩

end Profile
end ParamFit
