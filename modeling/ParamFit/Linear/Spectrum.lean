import ParamFit.Linear.Symmetric

/-!
The eigenvalues of a symmetric matrix. Exact numbers know them exactly. Machine numbers find them on
the matrix scaled by its largest element: reflections clear all that does not lie on the diagonal or
next to it, and rotations then make the elements beside the diagonal vanish, the last one first. An
element beside the diagonal couples its neighbours as long as it counts against them; an undefined
one couples nothing, so the search ends for every matrix.
-/
namespace ParamFit

class Spectral (α : Type) extends Scalar α where
  eigenvalues : Symmetric α → List α

variable {α : Type} [Scalar α]

/-! ### Reflections -/

structure Reflection (α : Type) where
  left : α
  axis : Option (Array α)

def Vector.length (x : Array α) : α := Scalar.sqrt (Vector.dot x x)

def Reflection.of (x : Array α) : Reflection α :=
  let first := entry x 0
  let squared := Vector.dot x x
  let length := Scalar.sqrt squared
  let (size, sign) : α × α := if first ≥ 0 then (first, 1) else (-first, -1)
  let signed := sign * length
  let factor := (squared + size * length) * 2.0
  if factor == 0 then ⟨signed, none⟩
  else
    let moved := (x.setIfInBounds 0 (first + signed)).map (· / Scalar.sqrt factor)
    let length := Vector.length moved
    ⟨-signed, some (moved.map (· / length))⟩

def Symmetric.reflect (m : Symmetric α) (axis : Array α) : Symmetric α :=
  let p := (m.mulVec axis).map (2.0 * ·)
  let share := Vector.dot axis p * 2.0
  build m.size fun i j =>
    m.element i j - entry p i * entry axis j - entry axis i * entry p j
      + share * entry axis i * entry axis j

structure Tridiagonal (α : Type) where
  diagonal : Array α
  beside : Array α

namespace Tridiagonal

def lists (m : Symmetric α) : Nat → List α × List α
  | 0 => ([], [])
  | n + 1 =>
    if n = 0 then ([m.element 0 0], [])
    else
      let r := Reflection.of (tabulate n fun i => m.element (i + 1) 0)
      let rest := m.squeeze 0
      let (diagonal, beside) := lists (r.axis.elim rest rest.reflect) n
      (m.element 0 0 :: diagonal, Scalar.abs r.left :: beside)

def ofSymmetric (m : Symmetric α) : Tridiagonal α :=
  let (diagonal, beside) := lists m m.size
  ⟨diagonal.toArray, beside.toArray⟩

/-! ### Rotations -/

def epsilon : α := 2.220446049250313e-16

def threshold (t : Tridiagonal α) (k : Nat) : α :=
  epsilon * (Scalar.abs (entry t.diagonal (k + 1)) + Scalar.abs (entry t.diagonal k))

def lastCoupled (t : Tridiagonal α) : Nat → Nat
  | 0 => 0
  | k + 1 => if Scalar.abs (entry t.beside k) > t.threshold k then k + 1 else lastCoupled t k

def firstCoupled (t : Tridiagonal α) : Nat → Nat
  | 0 => 0
  | k + 1 =>
    let e := entry t.beside k
    if e == 0 || decide (Scalar.abs e ≤ t.threshold k) then k + 1 else firstCoupled t k

def cut (t : Tridiagonal α) (row : Nat) : Tridiagonal α :=
  if row = 0 then t else { t with beside := t.beside.setIfInBounds (row - 1) 0 }

def shift (t : Tridiagonal α) (k : Nat) : α :=
  let last := entry t.diagonal (k + 1)
  let squared := entry t.beside k * entry t.beside k
  if squared == 0 then last
  else
    let d := (entry t.diagonal k - last) * 0.5
    let root := Scalar.sqrt (d * d + squared)
    last - squared / (d + (if d < 0 then -1 else 1) * root)

/- Rotate the planes of neighbouring rows from `i` on, `count` of them, so that the pair `(x, y)`
turns onto its first axis, then each pair that the rotation before it leaves. -/
def sweep (t : Tridiagonal α) (first i : Nat) (x y : α) : Nat → Tridiagonal α
  | 0 => t
  | count + 1 =>
    if y == 0 then t
    else
      let (size, sign) : α × α := if x ≥ 0 then (x, 1) else (-x, -1)
      let length := Scalar.sqrt (size * size + y * y)
      let c := size / length
      let s := -y / (sign * length)
      let beside := if first < i then t.beside.setIfInBounds (i - 1) (sign * length) else t.beside
      let a := entry t.diagonal i
      let b := entry t.diagonal (i + 1)
      let e := entry beside i
      let cc := c * c
      let ss := s * s
      let cs := c * s
      let turn := cs * 2.0 * e
      let diagonal := (t.diagonal.setIfInBounds i (cc * a + ss * b - turn)).setIfInBounds (i + 1)
        (ss * a + cc * b + turn)
      let x := cs * (a - b) + e * (cc - ss)
      let next := entry beside (i + 1)
      let beside := beside.setIfInBounds i x
      let beside := if count = 0 then beside else beside.setIfInBounds (i + 1) (next * c)
      sweep ⟨diagonal, beside⟩ first (i + 1) x (-s * next) count

def split (t : Tridiagonal α) (k : Nat) : Tridiagonal α :=
  let a := entry t.diagonal k
  let b := entry t.diagonal (k + 1)
  let e := entry t.beside k
  let half := (a - b) * 0.5
  let root := Scalar.sqrt (e * e + half * half)
  let middle := (a + b) * 0.5
  { t with diagonal :=
      (t.diagonal.setIfInBounds k (middle + root)).setIfInBounds (k + 1) (middle - root) }

def diagonalize (t : Tridiagonal α) (row : Nat) : Nat → Tridiagonal α
  | 0 => t
  | fuel + 1 =>
    let last := t.lastCoupled row
    if last = 0 then t
    else
      let first := t.firstCoupled (last - 1)
      let t := t.cut first
      if last - first = 1 then diagonalize (t.split first) first fuel
      else
        let t := t.sweep first first (entry t.diagonal first - t.shift (last - 1))
          (entry t.beside first) (last - first)
        let settled := Scalar.abs (entry t.beside (last - 1)) ≤ t.threshold (last - 1)
        diagonalize t (if settled then last - 1 else last) fuel

end Tridiagonal

/-! ### Eigenvalues -/

namespace Symmetric

def largest (m : Symmetric α) : α :=
  (m.rows.toList.flatMap Array.toList).foldl (fun a x =>
    let b := Scalar.abs x
    if a ≥ b then a else b) 0

/- The eigenvalues, in an order that says which of two may stand before the other. A few sweeps
settle each row. -/
def spectrum (precedes : α → α → Bool) (m : Symmetric α) : List α :=
  let size := m.largest
  let scaled := if size == 0 then m else m.map (· / size)
  let t := (Tridiagonal.ofSymmetric scaled).diagonalize (m.size - 1) (100 * (m.size + 1))
  (t.diagonal.toList.map (· * size)).mergeSort precedes

end Symmetric
end ParamFit
