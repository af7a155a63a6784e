import ParamFit.Minimum.State
import ParamFit.Linear.Spectrum

/-!
Forcing an error matrix positive definite. A diagonal that is too small is shifted up first; the
matrix is then scaled to a unit diagonal, and if its smallest eigenvalue is too small against the
largest, the diagonal is stretched by what is missing. Off-diagonal elements never change.
-/
namespace ParamFit.ErrorMatrix
variable {α : Type} [Spectral α]

def floor (prec : Precision α) : α := Scalar.max 1.0e-6 prec.eps2

def shift (m : Symmetric α) (prec : Precision α) : α :=
  let least := m.diagonal.foldl Scalar.min (m.element 0 0)
  if least < prec.eps2 then 1 + floor prec - least else 0

def lift (m : Symmetric α) (amount : α) : Symmetric α :=
  Symmetric.build m.size fun i j =>
    if i = j then
      let d := m.element i i + amount
      if d < 0 then 1 else d
    else m.element i j

def unitDiagonal (m : Symmetric α) : Symmetric α :=
  let s := m.diagonal.map fun d => 1 / Scalar.sqrt d
  Symmetric.build m.size fun i j => m.element i j * entry s i * entry s j

def stretch (m : Symmetric α) (factor : α) : Symmetric α :=
  Symmetric.build m.size fun i j => if i = j then m.element i i * factor else m.element i j

/- The same estimate, if it is positive definite; otherwise one that is. There must be a row. -/
def makePosDef (e : ErrorMatrix α) (prec : Precision α) : ErrorMatrix α :=
  let m := e.inverse
  if m.size = 1 then
    if m.element 0 0 < prec.eps then standIn (m.set 0 0 1) .madePosDef else e
  else
    let shift := shift m prec
    let lifted := lift m shift
    let spectrum := Spectral.eigenvalues (unitDiagonal lifted)
    let least := spectrum.headD 0
    let largest := Scalar.max (Scalar.abs (spectrum.getLastD 0)) 1
    if least > floor prec * largest then
      if shift > 0 then standIn lifted .madePosDef else e
    else standIn (stretch lifted (1 + (0.001 * largest - least))) .madePosDef

end ParamFit.ErrorMatrix

namespace ParamFit.Knowledge
variable {α : Type} [Spectral α]

def makePosDef (k : Knowledge α) (prec : Precision α) : Knowledge α :=
  { k with error := k.error.makePosDef prec }

def makePosDef? (k : Knowledge α) (prec : Precision α) : Option (Knowledge α) :=
  if 0 < k.error.inverse.size then some (k.makePosDef prec) else none

end ParamFit.Knowledge
