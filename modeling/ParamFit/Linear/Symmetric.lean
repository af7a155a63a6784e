import ParamFit.Count
import ParamFit.Linear.Vector

/-!
Symmetric matrices, stored as the packed rows of the lower triangle. The elements `(i, j)` and
`(j, i)` share one cell, so a matrix cannot stop being symmetric. `element` reads zero outside the
matrix; the operations whose name ends in a question mark refuse what lies outside.
-/
namespace ParamFit
variable {α : Type}

namespace Triangle

def cells (n : Nat) : Nat := n * (n + 1) / 2

def countable (n : Nat) : Bool := Count.fits (n * (n + 1))

def storable (n : Nat) : Bool := Count.fits (2 * (8 * cells n))

def cell (i j : Nat) : Nat := if j ≤ i then j + cells i else i + cells j

def pairs (n : Nat) : List (Nat × Nat) :=
  (List.range n).flatMap fun i => (List.range (i + 1)).map fun j => (i, j)

theorem cells_succ (n : Nat) : cells (n + 1) = cells n + (n + 1) := by
  unfold cells
  have even : (n + 1) * (n + 1 + 1) = n * (n + 1) + (n + 1) * 2 := by
    rw [Nat.mul_comm n, ← Nat.mul_add]
  rw [even, Nat.add_mul_div_right _ _ (by decide : 0 < 2)]

theorem length_pairs (n : Nat) : (pairs n).length = cells n := by
  induction n with
  | zero => rfl
  | succ n ih =>
    simp only [pairs, List.range_succ, List.flatMap_append, List.length_append] at *
    rw [ih, cells_succ]
    simp

end Triangle

structure Symmetric (α : Type) where
  size : Nat
  data : Array α
  packed : data.size = Triangle.cells size

inductive LinearError where
  | singular
  | mismatch (left right : Nat)
  | outside (row col size : Nat)
  | invalid (reason : String)
  deriving DecidableEq, Repr

def LinearError.message : LinearError → String
  | singular => "Singular matrix: cannot invert"
  | mismatch left right => s!"Incompatible dimensions: {left} and {right}"
  | outside row col size => s!"Index ({row}, {col}) out of bounds for matrix of size {size}"
  | invalid reason => s!"Invalid input: {reason}"

namespace Symmetric

instance [BEq α] : BEq (Symmetric α) where
  beq a b := a.size == b.size && a.data == b.data

variable [Scalar α]

/- The matrix with `f i j` in row `i` and column `j`, for columns not beyond the row. -/
def build (n : Nat) (f : Nat → Nat → α) : Symmetric α where
  size := n
  data := ((Triangle.pairs n).map fun p => f p.1 p.2).toArray
  packed := by simp [Triangle.length_pairs]

def zero (n : Nat) : Symmetric α := build n fun _ _ => 0

def ofDiagonal (d : Array α) : Symmetric α :=
  build d.size fun i j => if i = j then entry d i else 0

def identity (n : Nat) : Symmetric α := build n fun i j => if i = j then 1 else 0

def outer (v : Array α) : Symmetric α := build v.size fun i j => entry v i * entry v j

def ofPacked (n : Nat) (data : Array α) : Except LinearError (Symmetric α) :=
  if h : data.size = Triangle.cells n then .ok ⟨n, data, h⟩
  else .error (.mismatch (Triangle.cells n) data.size)

def ofDense (rows cols : Nat) (data : Array α) : Except LinearError (Symmetric α) :=
  if rows = cols then .ok (build rows fun i j => entry data (i * cols + j))
  else .error (.mismatch rows cols)

/- There must be an entry for each row and column. -/
def ofDense? (rows cols : Nat) (data : Array α) : Option (Except LinearError (Symmetric α)) :=
  if data.size = rows * cols then some (ofDense rows cols data) else none

def element (m : Symmetric α) (i j : Nat) : α := entry m.data (Triangle.cell i j)

def inside (m : Symmetric α) (i j : Nat) : Bool := i < m.size && j < m.size

def element? (m : Symmetric α) (i j : Nat) : Option α :=
  if m.inside i j then some (m.element i j) else none

def tryElement (m : Symmetric α) (i j : Nat) : Except LinearError α :=
  if m.inside i j then .ok (m.element i j) else .error (.outside i j m.size)

def set (m : Symmetric α) (i j : Nat) (v : α) : Symmetric α :=
  { m with
    data := m.data.setIfInBounds (Triangle.cell i j) v
    packed := by simp [m.packed] }

def set? (m : Symmetric α) (i j : Nat) (v : α) : Option (Symmetric α) :=
  if m.inside i j then some (m.set i j v) else none

def diagonal (m : Symmetric α) : Array α := tabulate m.size fun i => m.element i i

def rows (m : Symmetric α) : Array (Array α) :=
  tabulate m.size fun i => tabulate m.size fun j => m.element i j

def map (f : α → α) (m : Symmetric α) : Symmetric α :=
  { m with data := m.data.map f, packed := by simp [m.packed] }

def scale (m : Symmetric α) (k : α) : Symmetric α := m.map (· * k)

def combine (f : α → α → α) (a b : Symmetric α) : Symmetric α :=
  build a.size fun i j => f (a.element i j) (b.element i j)

def add (a b : Symmetric α) : Symmetric α := combine (· + ·) a b
def sub (a b : Symmetric α) : Symmetric α := combine (· - ·) a b

/- Matrices of different size have no sum. -/
def add? (a b : Symmetric α) : Option (Symmetric α) :=
  if a.size = b.size then some (a.add b) else none

def sub? (a b : Symmetric α) : Option (Symmetric α) :=
  if a.size = b.size then some (a.sub b) else none

/- The product with a vector, each row summed from its first column. A vector that is too short
meets the leading rows and columns alone. -/
def mulVec (m : Symmetric α) (v : Array α) : Array α :=
  tabulate v.size fun i => Scalar.sum ((List.range v.size).map fun j => m.element i j * entry v j)

def tryMulVec (m : Symmetric α) (v : Array α) : Except LinearError (Array α) :=
  if v.size = m.size then .ok (m.mulVec v) else .error (.mismatch m.size v.size)

def quadratic (m : Symmetric α) (v : Array α) : α := Vector.dot v (m.mulVec v)

def tryQuadratic (m : Symmetric α) (v : Array α) : Except LinearError α :=
  (m.tryMulVec v).map (Vector.dot v)

def absSum (m : Symmetric α) : α := Vector.absSum m.data

def squeeze (m : Symmetric α) (k : Nat) : Symmetric α :=
  let kept := (Array.range m.size).filter (· != k)
  build kept.size fun a b => m.element (kept.getD a 0) (kept.getD b 0)

def squeeze? (m : Symmetric α) (k : Nat) : Option (Symmetric α) :=
  if k < m.size then some (m.squeeze k) else none

end Symmetric

namespace Vector
variable [Scalar α]

def tryDot (x y : Array α) : Except LinearError α :=
  if x.size = y.size then .ok (dot x y) else .error (.mismatch x.size y.size)

end Vector
end ParamFit
