import ParamFit.Scalar

/-!
The relative precision of function values, and the coarser one of quantities that are square roots
of them. Both are kept together: `eps2` is always twice the root of `eps`.
-/
namespace ParamFit
variable {α : Type} [Scalar α]

structure Precision (α : Type) where
  eps : α
  eps2 : α
  deriving BEq, Repr

namespace Precision

def ofEps (eps : α) : Precision α := ⟨eps, 2.0 * Scalar.sqrt eps⟩

def rough : Precision α := ofEps 4.0e-7

def machine : Precision α := ofEps Scalar.resolution

end Precision
end ParamFit
