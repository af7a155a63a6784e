import ParamFit.Scalar

/-!
How much work derivatives are worth. A level chooses all cycle counts and tolerances; each can be
replaced afterwards without changing the level.
-/
namespace ParamFit
variable {α : Type} [Scalar α]

structure Strategy (α : Type) where
  level : Nat
  gradientCycles : Nat
  gradientStepTolerance : α
  gradientTolerance : α
  hessianCycles : Nat
  hessianStepTolerance : α
  hessianCurvatureTolerance : α
  hessianGradientCycles : Nat
  deriving BEq, Repr

namespace Strategy

def low : Strategy α := ⟨0, 2, 0.5, 0.1, 3, 0.5, 0.1, 1⟩
def medium : Strategy α := ⟨1, 3, 0.3, 0.05, 5, 0.3, 0.05, 2⟩
def high : Strategy α := ⟨2, 5, 0.1, 0.02, 7, 0.1, 0.02, 6⟩

def ofLevel : Nat → Strategy α
  | 0 => low
  | 1 => medium
  | _ => high

def isLow (s : Strategy α) : Bool := s.level == 0
def isMedium (s : Strategy α) : Bool := s.level == 1
def isHigh (s : Strategy α) : Bool := s.level ≥ 2

def lowered (s : Strategy α) : Strategy α := ofLevel (s.level - 1)

end Strategy
end ParamFit
