import ParamFit.Scalar

/-!
Vectors are arrays of scalars. `entry` reads zero outside a vector, so every loop over indices is
total; `tabulate` is the vector of a function. `dot` fixes the order in which the products of two
vectors are added, because rounding shows it.
-/
namespace ParamFit
variable {α β : Type}

def entry [Scalar α] (x : Array α) (i : Nat) : α := x.getD i 0

def tabulate (n : Nat) (f : Nat → β) : Array β := (Array.range n).map f

@[simp] theorem size_tabulate (n : Nat) (f : Nat → β) : (tabulate n f).size = n := by
  simp [tabulate]

theorem entry_tabulate [Scalar α] {n i : Nat} (f : Nat → α) (inside : i < n) :
    entry (tabulate n f) i = f i := by
  simp [entry, tabulate, inside]

theorem entry_outside [Scalar α] {x : Array α} {i : Nat} (outside : x.size ≤ i) :
    entry x i = 0 := by
  simp [entry, outside]

namespace Vector

def overlay (old new : Array α) : Array α := old.mapIdx fun i v => new.getD i v

theorem size_overlay (old new : Array α) : (overlay old new).size = old.size := by
  simp [overlay]

variable [Scalar α]

def add (x y : Array α) : Array α := Array.zipWith (· + ·) x y
def sub (x y : Array α) : Array α := Array.zipWith (· - ·) x y
def scale (x : Array α) (k : α) : Array α := x.map (· * k)

def lane (products : List α) (blocks k : Nat) : α :=
  ((List.range blocks).map fun b => products.getD (8 * b + k) 0).foldl (· + ·) 0

/- Full blocks of eight products are added lane by lane, then the lanes in pairs four apart, then
the products that fill no block. All begin with zero, so the result is never a negative zero. -/
def dot (x y : Array α) : α :=
  let products := (Array.zipWith (· * ·) x y).toList
  let blocks := products.length / 8
  let pair k := lane products blocks k + lane products blocks (k + 4)
  ([pair 0, pair 1, pair 2, pair 3] ++ products.drop (8 * blocks)).foldl (· + ·) 0

def absSum (x : Array α) : α := Scalar.sum (x.toList.map Scalar.abs)

end Vector
end ParamFit
