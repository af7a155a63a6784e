import ParamFit.Error
import ParamFit.Linear.Inverse

/-!
The covariance of the variable parameters, one row each, in the order of the declarations. It is
stored like a symmetric matrix. Taking a parameter out of a fit conditions the covariance of the
others on it: that is done on the inverse, where the row is simply dropped.
-/
namespace ParamFit
variable {α : Type}

structure Covariance (α : Type) where
  rows : Nat
  data : Array α
  packed : data.size = Triangle.cells rows

namespace Covariance

instance [BEq α] : BEq (Covariance α) where
  beq a b := a.rows == b.rows && a.data == b.data

def empty : Covariance α := ⟨0, #[], rfl⟩

instance : Inhabited (Covariance α) := ⟨empty⟩

variable [Scalar α]

def zero (n : Nat) : Covariance α := ⟨n, Array.replicate (Triangle.cells n) 0, by simp⟩

def ofPacked (data : Array α) (n : Nat) : Except (FitError α) (Covariance α) :=
  if h : data.size = Triangle.cells n then .ok ⟨n, data, h⟩
  else .error (.misfit (.elements data.size n))

/- The cell that two rows share. A row by itself counts as a column, where a matrix counts it as a row. -/
def cell (i j : Nat) : Nat := if j < i then j + Triangle.cells i else i + Triangle.cells j

theorem cell_eq (i j : Nat) : cell i j = Triangle.cell i j := by
  rcases Nat.lt_trichotomy i j with above | rfl | below
  · rw [cell, Triangle.cell, if_neg (Nat.lt_asymm above), if_neg (Nat.not_le_of_lt above)]
  · rw [cell, Triangle.cell, if_neg (Nat.lt_irrefl i), if_pos (Nat.le_refl i)]
  · rw [cell, Triangle.cell, if_pos below, if_pos (Nat.le_of_lt below)]

def element (c : Covariance α) (i j : Nat) : α := entry c.data (cell i j)

def inside (c : Covariance α) (i j : Nat) : Bool := i < c.rows && j < c.rows

def element? (c : Covariance α) (i j : Nat) : Option α :=
  if c.inside i j then some (c.element i j) else none

def set (c : Covariance α) (i j : Nat) (v : α) : Covariance α :=
  { c with
    data := c.data.setIfInBounds (cell i j) v
    packed := by simp [c.packed] }

def set? (c : Covariance α) (i j : Nat) (v : α) : Option (Covariance α) :=
  if c.inside i j then some (c.set i j v) else none

def ofMatrix (m : Symmetric α) : Covariance α := ⟨m.size, m.data, m.packed⟩

theorem elementOfMatrix (m : Symmetric α) (i j : Nat) :
    (ofMatrix m).element i j = m.element i j := by
  rw [element, cell_eq]
  rfl

def toMatrix (c : Covariance α) : Symmetric α := Symmetric.build c.rows c.element

/- The lower triangle of a square given by its rows. The first row of another length is refused. -/
def ofRows (rows : Array (Array α)) : Except (FitError α) (Covariance α) :=
  match rows.findIdx? fun r => r.size != rows.size with
  | some i => .error (.misfit (.columns i (rows.getD i #[]).size rows.size))
  | none => .ok (ofMatrix (Symmetric.build rows.size fun i j => entry (rows.getD i #[]) j))

def scale (c : Covariance α) (k : α) : Covariance α :=
  { c with data := c.data.map (· * k), packed := by simp [c.packed] }

def correlation (c : Covariance α) (i j : Nat) : α :=
  let spread := Scalar.sqrt (c.element i i * c.element j j)
  if spread > 0 then c.element i j / spread else 0

def correlation? (c : Covariance α) (i j : Nat) : Option α :=
  if c.inside i j then some (c.correlation i j) else none

def variancesWithout (c : Covariance α) (k : Nat) : Covariance α :=
  let kept := (Array.range c.rows).filter (· != k)
  ofMatrix (Symmetric.ofDiagonal (kept.map fun i => c.element i i))

/- The covariance of the other rows once row `k` no longer varies. Where an inverse is missing,
only the variances are kept. -/
def squeeze (c : Covariance α) (k : Nat) : Covariance α :=
  match c.toMatrix.invert with
  | .error _ => c.variancesWithout k
  | .ok hessian =>
    let rest := hessian.squeeze k
    match rest.invert with
    | .ok m => ofMatrix m
    | .error _ => ofMatrix (Symmetric.ofDiagonal (rest.diagonal.map (1 / ·)))

def squeeze? (c : Covariance α) (k : Nat) : Option (Covariance α) :=
  if k < c.rows then some (c.squeeze k) else none

end Covariance

structure GlobalCorrelation (α : Type) where
  valid : Bool := false
  coefficients : Array α := #[]
  deriving BEq, Repr

def GlobalCorrelation.ofMatrix [Scalar α] (m : Symmetric α) : GlobalCorrelation α :=
  match m.invert with
  | .error _ => {}
  | .ok inverse =>
    { valid := true
      coefficients := tabulate m.size fun i =>
        let d := inverse.element i i * m.element i i
        if d < 1 ∧ d > 0 then 0 else Scalar.sqrt (1 - 1 / d) }

end ParamFit
