import ParamFit.Linear.Symmetric

/-!
The inverse of a symmetric matrix with a positive diagonal. The matrix is scaled to a unit
diagonal, swept once per row by an elimination step that keeps it symmetric, and scaled back.
-/
namespace ParamFit.Symmetric
variable {α : Type} [Scalar α]

def rescale (m : Symmetric α) (s : Array α) : Symmetric α :=
  build m.size fun i j => m.element i j * entry s i * entry s j

def scaleBack (m : Symmetric α) (s : Array α) : Symmetric α :=
  build m.size fun i j => m.element i j * entry s j * entry s i

def eliminate (m : Symmetric α) (k : Nat) : Option (Symmetric α) :=
  let pivot := m.element k k
  if pivot == 0 then none
  else
    let r := 1 / pivot
    let p := tabulate m.size fun j => if j = k then 1 else m.element j k
    let q := tabulate m.size fun j =>
      if j = k then r else if j < k then m.element j k * r else -m.element j k * r
    some (build m.size fun row col =>
      (if row = k ∨ col = k then 0 else m.element row col) + entry p col * entry q row)

def sweep (m : Symmetric α) : List Nat → Option (Symmetric α)
  | [] => some m
  | k :: rest => do sweep (← m.eliminate k) rest

def hasUndefined (m : Symmetric α) : Bool := m.data.any fun x => !Scalar.isFinite x

def invertScaled (m : Symmetric α) : Option (Symmetric α) :=
  if m.diagonal.any (fun d => decide (d ≤ 0)) then none
  else do
    let s := m.diagonal.map fun d => 1 / Scalar.sqrt d
    let swept ← (m.rescale s).sweep (List.range m.size)
    let inverse := swept.scaleBack s
    if inverse.hasUndefined then none else some inverse

/- The inverse, refused when a diagonal element is not positive or a pivot vanishes. -/
def invert (m : Symmetric α) : Except LinearError (Symmetric α) :=
  match m.size with
  | 0 => .ok m
  | 1 =>
    let d := m.element 0 0
    if d ≤ 0 then .error .singular else .ok (m.set 0 0 (1 / d))
  | _ => (m.invertScaled).elim (.error .singular) .ok

end ParamFit.Symmetric
