import ParamFit.Proofs.Consistency
import ParamFit.Proofs.Declaring

/-! What a setup without violations builds, part by part. Checking and building go through the
declarations on their own, and each has rules that the other one lacks; still, whatever passes the check
is built, and the parameter at each place is the one that the declaration there asks for. -/
namespace ParamFit
variable {α : Type} [Scalar α]

namespace Declaration

/- Two limits that are declared together can be told apart. -/
def Comparable (d : Declaration α) : Prop :=
  ∀ a b, d.lower = some a → d.upper = some b → a == b ∨ a < b ∨ a > b

/- From the declared limits to those of the parameter: two limits come in ascending order, a single one
stays what it is. -/
inductive Bounds : Option α → Option α → Option α → Option α → Prop where
  | free : Bounds none none none none
  | lower (a : α) : Bounds (some a) none (some a) none
  | upper (b : α) : Bounds none (some b) none (some b)
  | ordered {a b : α} (less : a < b) : Bounds (some a) (some b) (some a) (some b)
  | reversed {a b : α} (more : b < a) : Bounds (some a) (some b) (some b) (some a)

/- A parameter is the one that is declared for a place. -/
structure Asks (d : Declaration α) (i : Nat) (p : Parameter α) : Prop where
  number : p.number = i
  name : p.name = d.name
  value : p.value = d.value
  error : ¬ d.constant → p.error = d.error
  constant : p.isConstant ↔ d.constant
  fixed : p.isFixed ↔ d.fixed ∧ ¬ d.constant
  bounds : Bounds d.lower d.upper p.lower p.upper
  unlimited : d.constant → p.lower = none ∧ p.upper = none

variable {d : Declaration α}

theorem constantUnlimited (valid : d.violations = []) (constant : d.constant) :
    d.lower = none ∧ d.upper = none := by
  simp only [violations, List.append_eq_nil_iff] at valid
  obtain ⟨_, unlimited⟩ := valid
  split at unlimited
  case isTrue => cases unlimited
  case isFalse none => simpa [constant] using none

theorem orderedBounds (valid : d.violations = []) (comparable : d.Comparable) :
    Bounds d.lower d.upper d.ordered.1 d.ordered.2 := by
  unfold ordered
  cases lower : d.lower with
  | none =>
    cases upper : d.upper with
    | none => exact .free
    | some b => exact .upper b
  | some a =>
    cases upper : d.upper with
    | none => exact .lower a
    | some b =>
      have apart : ¬ (a == b) = true := by simp [limitsApart valid lower upper]
      dsimp only
      split
      case isTrue more => exact .reversed more
      case isFalse unreversed =>
        exact .ordered (((comparable a b lower upper).resolve_left apart).resolve_right unreversed)

theorem parameterAsked (valid : d.violations = []) (comparable : d.Comparable) (i : Nat) :
    d.Asks i (d.parameter i) := by
  obtain ⟨number, name, value⟩ := Space.parameterParts d i
  have bounds := orderedBounds valid comparable
  refine ⟨number, name, value, ?_, ?_, ?_, ?_, ?_⟩ <;> unfold parameter
  · intro varied
    rw [if_neg varied]
  · split
    case isTrue constant => exact iff_of_true rfl constant
    case isFalse varied => exact iff_of_false Bool.false_ne_true varied
  · split
    case isTrue constant => exact iff_of_false Bool.false_ne_true fun both => both.2 constant
    case isFalse varied => exact (and_iff_left varied).symm
  · split
    case isTrue constant =>
      obtain ⟨lower, upper⟩ := constantUnlimited valid constant
      rw [lower, upper]
      exact .free
    case isFalse => exact bounds
  · intro constant
    rw [if_pos constant]
    exact ⟨rfl, rfl⟩

end Declaration

namespace Setup

/- A setup without violations, whose limits are numbers, builds one parameter for each declaration, in
order, and each is the one that is declared. The coordinates are the places of those that are neither
constant nor fixed, in ascending order. -/
theorem builtAsDeclared {s : Setup α} (valid : s.violations = [])
    (comparable : ∀ d ∈ s.parameters, d.Comparable) : ∃ space, s.space = .ok space ∧
      space.parameters.size = s.parameters.length ∧
      (∀ (i : Nat) (d : Declaration α), s.parameters[i]? = some d →
        ∃ p, space.parameters[i]? = some p ∧ d.Asks i p) ∧
      space.free.Pairwise (· < ·) ∧
      ∀ i, i ∈ space.free ↔ ∃ d, s.parameters[i]? = some d ∧ ¬ d.constant ∧ ¬ d.fixed := by
  refine ⟨_, spaceDeclared valid, Space.declaringSize, fun i d here => ?_, ?_, fun i => ?_⟩
  · have among : d ∈ s.parameters := List.mem_of_getElem? here
    refine ⟨d.parameter i, ?_, ?_⟩
    · simp [Space.declaring, here]
    · exact Declaration.parameterAsked (declarationValid valid among) (comparable d among) i
  · exact List.Pairwise.filter _ List.pairwise_lt_range
  · simp only [Space.declaringFree, Declaration.varies, Bool.and_eq_true, Bool.not_eq_true',
      Bool.not_eq_true]

/- One declaration of each kind, the limits of one of them in descending order. -/
theorem builtAsDeclaredMixed :
    let s : Setup ℝ := ⟨.default, [{ name := "a", value := 1, error := 0.1 },
      { name := "b", value := 5, error := 0.1, lower := some 2, upper := some 1 },
      { name := "c", value := 3, error := -1, constant := true, fixed := true },
      { name := "d", value := 0, error := 0, lower := some 0, fixed := true }]⟩
    s.violations = [] ∧ (∀ d ∈ s.parameters, d.Comparable) ∧ ∃ space, s.space = .ok space ∧
      space.parameters.size = 4 ∧ 1 ∈ space.free ∧ 2 ∉ space.free ∧
      (space.parameterAt 1).lower = some 1 ∧ (space.parameterAt 1).upper = some 2 := by
  intro s
  have valid : s.violations = [] := by
    have named : "a" ≠ "" ∧ "b" ≠ "" ∧ "c" ≠ "" ∧ "d" ≠ "" := by decide
    have apart : "b" ≠ "a" ∧ ("c" ≠ "b" ∧ "c" ≠ "a") ∧ "d" ≠ "c" ∧ "d" ≠ "b" ∧ "d" ≠ "a" := by decide
    norm_num [s, violations, declarationViolations, Settings.violations, Settings.default,
      Settings.isPositive, Declaration.violations, named, apart]
  have comparable : ∀ d ∈ s.parameters, d.Comparable := by
    intro d _ a b _ _
    rcases lt_trichotomy a b with less | equal | more
    · exact .inr (.inl less)
    · exact .inl (decide_eq_true equal)
    · exact .inr (.inr more)
  obtain ⟨space, built, size, asked, -, free⟩ := builtAsDeclared valid comparable
  obtain ⟨p, here, asks⟩ := asked 1 _ rfl
  have bounds := asks.bounds
  refine ⟨valid, comparable, space, built, size, (free 1).mpr ⟨_, rfl, Bool.false_ne_true, Bool.false_ne_true⟩, ?_, ?_⟩
  · rw [free]
    rintro ⟨d, there, varied, _⟩
    cases there
    exact varied rfl
  · rw [Space.parameterDeclared here]
    generalize p.lower = lower at bounds
    generalize p.upper = upper at bounds
    cases bounds with
    | ordered less => exact absurd less (by norm_num)
    | reversed => exact ⟨rfl, rfl⟩

end Setup
end ParamFit
