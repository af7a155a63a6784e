import ParamFit.Scalar

/-!
Parabolas through sampled points. A parabola with `a = 0` has no extremum: its abscissa is the
quotient by zero that the numbers define.
-/
namespace ParamFit
variable {α : Type} [Scalar α]

structure Sample (α : Type) where
  x : α
  y : α
  deriving BEq, Repr

structure Parabola (α : Type) where
  a : α
  b : α
  c : α
  deriving BEq, Repr

namespace Parabola

/- The parabola through three samples. The abscissae are shifted to their mean before solving, to
limit cancellation. -/
def through (p₁ p₂ p₃ : Sample α) : Parabola α :=
  let d₁₂ := p₁.x - p₂.x
  let d₁₃ := p₁.x - p₃.x
  let d₂₃ := p₂.x - p₃.x
  let mean := (p₁.x + p₂.x + p₃.x) / 3.0
  let x₁ := p₁.x - mean
  let x₂ := p₂.x - mean
  let x₃ := p₃.x - mean
  let a := p₁.y / (d₁₂ * d₁₃) - p₂.y / (d₁₂ * d₂₃) + p₃.y / (d₁₃ * d₂₃)
  let b := -p₁.y * (x₂ + x₃) / (d₁₂ * d₁₃) + p₂.y * (x₁ + x₃) / (d₁₂ * d₂₃)
    - p₃.y * (x₁ + x₂) / (d₁₃ * d₂₃)
  let c := p₁.y - a * x₁ * x₁ - b * x₁
  ⟨a, b - 2.0 * mean * a, c + mean * (mean * a - b)⟩

def tangent (p₁ : Sample α) (slope : α) (p₂ : Sample α) : Parabola α :=
  let d := p₂.x - p₁.x
  let a := (p₂.y - p₁.y - slope * d) / (d * d)
  let b := slope - 2.0 * a * p₁.x
  ⟨a, b, p₁.y - a * p₁.x * p₁.x - b * p₁.x⟩

def y (p : Parabola α) (x : α) : α := p.a * x * x + p.b * x + p.c

def xMin (p : Parabola α) : α := -p.b / (2.0 * p.a)

def yMin (p : Parabola α) : α := p.c - p.b * p.b / (4.0 * p.a)

def reach (p : Parabola α) (level : α) : α :=
  let m := p.xMin
  Scalar.sqrt (level / p.a + m * m - p.c / p.a)

def xAfter (p : Parabola α) (level : α) : α := p.reach level + p.xMin

def xBefore (p : Parabola α) (level : α) : α := -p.reach level + p.xMin

end Parabola
end ParamFit
