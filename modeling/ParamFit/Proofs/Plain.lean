import ParamFit.Exact
import ParamFit.Gradient.Guess
import ParamFit.Proofs.Stay
import ParamFit.Proofs.Yield

/-! Parameters that all vary and have no limits. Coordinates and places are the same then, an objective
is asked at the internal coordinates themselves, and nothing is refused as long as it reads no more than
there is. -/
namespace ParamFit
variable {α : Type}

theorem Parameter.freeLimits {p : Parameter α} : p.limits = .free ↔ p.lower = none ∧ p.upper = none := by
  rw [limits]
  cases p.lower <;> cases p.upper <;> simp

namespace Space
variable [Scalar α]

structure Plain (s : Space α) (n : Nat) : Prop where
  free : s.free = List.range n
  values : s.values.size = n
  unlimited : ∀ i < n, (s.parameterAt i).lower = none ∧ (s.parameterAt i).upper = none

/-! ### Declared values -/

def numbered (values errors : Array α) (n : Nat) : Space α where
  precision := .machine
  parameters := tabulate n fun i =>
    { number := i, name := s!"p{i}", value := entry values i, error := entry errors i }
  free := List.range n
  names := (List.range n).map fun i => (s!"p{i}", i)
  values := tabulate n (entry values)

theorem nameInjective {i j : Nat} (same : s!"p{i}" = s!"p{j}") : i = j := by
  have digits : Nat.toDigits 10 i = Nat.toDigits 10 j := by
    have letters := congrArg String.toList same
    simpa [toString] using letters
  have value := congrArg (Nat.ofDigitChars 10 · 0) digits
  simpa [Nat.ofDigitChars_ten_toDigits] using value

theorem addNumbered (values errors : Array α) (n : Nat) :
    (numbered values errors n).add s!"p{n}" (entry values n) (entry errors n) =
      .ok (numbered values errors (n + 1)) := by
  have undeclared : (numbered values errors n).declared s!"p{n}" = false := by
    rw [declared, Option.isSome_eq_false_iff, Option.isNone_iff_eq_none, List.lookup_eq_none_iff]
    intro pair among
    obtain ⟨i, below, rfl⟩ := List.mem_map.mp among
    refine bne_iff_ne.mpr fun same => ?_
    have equal := nameInjective same
    rw [equal] at below
    exact absurd (List.mem_range.mp below) (lt_irrefl _)
  have size : (numbered values errors n).parameters.size = n := size_tabulate _ _
  rw [add, declare, if_neg (by rw [undeclared]; decide), size]
  change Except.ok (append _ _) = _
  simp [append, numbered, tabulate, Array.range_succ, List.range_succ]

theorem ofValuesNumbered {values errors : Array α} (size : values.size = errors.size) :
    ofValues values errors = .ok (numbered values errors values.size) := by
  rw [ofValues, if_pos size]
  generalize values.size = n
  induction n with
  | zero =>
    have start : numbered values errors 0 = empty := by simp [numbered, empty, tabulate]
    rw [start]
    rfl
  | succ n ih =>
    rw [List.range_succ, List.foldlM_append, ih]
    have next := addNumbered values errors n
    simp only [List.foldlM_cons, List.foldlM_nil, bind_pure]
    exact next

theorem parameterNumbered {values errors : Array α} {i n : Nat} (inside : i < n) :
    (numbered values errors n).parameterAt i =
      { number := i, name := s!"p{i}", value := entry values i, error := entry errors i } := by
  simp [parameterAt, numbered, tabulate, inside]

theorem numberedPlain (values errors : Array α) (n : Nat) : (numbered values errors n).Plain n where
  free := rfl
  values := size_tabulate _ _
  unlimited i inside := by rw [parameterNumbered inside]; exact ⟨rfl, rfl⟩

theorem internalNumbered (values errors : Array α) :
    (numbered values errors values.size).internal = values := by
  have coordinate {i : Nat} (inside : i < values.size) :
      (numbered values errors values.size).toInternal i
        ((numbered values errors values.size).parameterAt i).value = entry values i := by
    rw [toInternal, parameterNumbered inside]
    rfl
  have places : (numbered values errors values.size).free = List.range values.size := rfl
  refine Array.ext (by simp [internal, places]) fun i _ inside => ?_
  have value := coordinate inside
  simp only [internal, places, List.getElem_toArray, List.getElem_map, List.getElem_range, value]
  simp [entry, inside]

/-! ### Coordinates -/

namespace Plain
variable {s : Space α} {n : Nat} (plain : s.Plain n)
include plain

theorem dimension : s.dimension = n := by rw [Space.dimension, plain.free, List.length_range]

theorem place {k : Nat} (inside : k < n) : s.place k = k := by
  simp [Space.place, plain.free, inside]

theorem limits {i : Nat} (inside : i < n) : (s.parameterAt i).limits = .free :=
  Parameter.freeLimits.mpr (plain.unlimited i inside)

/- The places from `k` on are set to the coordinates, the others are kept. -/
theorem foldPlaces {l : List α} {k : Nat} {values : Array α} (inside : k + l.length ≤ n) (j : Nat) :
    (((List.range' k l.length).zip l).foldl
      (fun values (i, v) => values.setIfInBounds i ((s.parameterAt i).limits.toExternal v)) values)[j]? =
    if k ≤ j ∧ j < k + l.length ∧ j < values.size then l[j - k]? else values[j]? := by
  induction l generalizing k values with
  | nil =>
    have outside : ¬ (k ≤ j ∧ j < k + 0 ∧ j < values.size) := by omega
    rw [List.length_nil, if_neg outside]
    rfl
  | cons v l ih =>
    rw [List.length_cons] at inside
    have step : values.setIfInBounds k ((s.parameterAt k).limits.toExternal v) =
        values.setIfInBounds k v := by
      rw [plain.limits (show k < n by omega)]
      rfl
    rw [List.length_cons, List.range'_succ, List.zip_cons_cons, List.foldl_cons]
    dsimp only
    rw [step, ih (by omega), Array.getElem?_setIfInBounds, Array.size_setIfInBounds]
    rcases lt_trichotomy j k with before | rfl | after
    · rw [if_neg (by omega), if_neg (by omega), if_neg (by omega)]
    · rw [if_neg (by omega), if_pos rfl, Nat.sub_self, List.getElem?_cons_zero]
      by_cases known : j < values.size
      · rw [if_pos known, if_pos ⟨le_refl j, by omega, known⟩]
      · rw [if_neg known, if_neg (by omega), Array.getElem?_eq_none (by omega)]
    · have later : j - k = j - (k + 1) + 1 := by omega
      have same : (k + 1 ≤ j ∧ j < k + 1 + l.length ∧ j < values.size) ↔
          (k ≤ j ∧ j < k + (l.length + 1) ∧ j < values.size) := by omega
      simp only [if_neg (show ¬ k = j by omega), later, List.getElem?_cons_succ, same]

theorem external {x : Array α} (size : x.size = n) : s.external x = x := by
  have whole : x.toList.length = n := by rw [Array.length_toList, size]
  refine Array.ext_getElem? fun j => ?_
  rw [Space.external, plain.free, List.range_eq_range', ← whole, plain.foldPlaces (by omega)]
  by_cases inside : j < n
  · rw [if_pos ⟨Nat.zero_le j, by omega, by rw [plain.values]; exact inside⟩, Nat.sub_zero,
      Array.getElem?_toList]
  · rw [if_neg (by omega), Array.getElem?_eq_none (by rw [plain.values]; omega),
      Array.getElem?_eq_none (by omega)]

end Plain
end Space

namespace Surface
variable [Scalar α]

theorem valueYields {s : Surface α} {fits : Prop} {x : Array α} (answers : fits → s.Answers x)
    (t : Trace α) : Yields fits (s.value x) t 1 (· = s.worth x) := by
  refine .expect (fun fit => decide_eq_true (answers fit).1) fun u _ => ?_
  refine ⟨rfl, (s.callsExternalValue _ u).le, fun fit => ?_⟩
  rw [runExternalValue, decide_eq_true (answers fit).2, Bool.and_true]

theorem unlimitedFree {s : Surface α} {k : Nat} (free : s.space.limits k = .free) :
    s.isLimited k = false := by
  obtain ⟨lower, upper⟩ := Parameter.freeLimits.mp free
  rw [isLimited, Parameter.hasLimits, Parameter.hasLower, Parameter.hasUpper, lower, upper]
  rfl

/- A surface over parameters without limits, whose objective reads no more than there is. -/
structure Plain (s : Surface α) (n : Nat) : Prop where
  space : s.space.Plain n
  reads : ∀ x, x.size = n → s.objective.reads x ≤ n

namespace Plain
variable {s : Surface α} {n : Nat} (plain : s.Plain n)
include plain

theorem free {k : Nat} (inside : k < n) : s.space.limits k = .free := by
  rw [Space.limits, plain.space.place inside, plain.space.limits inside]

theorem unlimited {k : Nat} (inside : k < n) : s.isLimited k = false :=
  unlimitedFree (plain.free inside)

theorem answers {x : Array α} (size : x.size = n) : s.Answers x := by
  refine ⟨?_, ?_⟩
  · rw [size, plain.space.dimension]
  · rw [plain.space.external size, size]
    exact plain.reads x size

theorem worth {x : Array α} (size : x.size = n) : s.worth x = s.objective.value x := by
  rw [Surface.worth, plain.space.external size]

theorem value {fits : Prop} {x : Array α} (size : x.size = n) (t : Trace α) :
    Yields fits (s.value x) t 1 (· = s.objective.value x) :=
  .weaken (valueYields (fun _ => plain.answers size) t) (le_refl 1) fun _ same =>
    same.trans (plain.worth size)

end Plain

end Surface

structure Gradient.Full (g : Gradient α) (n : Nat) : Prop where
  slopes : g.slopes.size = n
  curvatures : g.curvatures.size = n
  steps : g.steps.size = n

theorem ErrorMatrix.coversSame [Scalar α] {e : ErrorMatrix α} {g : Gradient α}
    (size : g.slopes.size = e.inverse.size) : e.covers g = true := by
  rw [covers, size]
  split
  case isTrue one => simp [one]
  case isFalse => simp

namespace Axis

theorem gradientFull (axes : Array (Axis α)) : (toGradient axes).Full axes.size :=
  ⟨Array.size_map, Array.size_map, Array.size_map⟩

end Axis

namespace Surface

theorem guessFull [Scalar α] (s : Surface α) (p : Point α) : (s.guess p).Full s.space.dimension := by
  have full := Axis.gradientFull (tabulate s.space.dimension fun k => s.guessAxis k (entry p.x k))
  rwa [size_tabulate] at full

theorem guessAt [Scalar α] {s : Surface α} (p : Point α) {k : Nat} (inside : k < s.space.dimension) :
    Axis.ofGradient (s.guess p) k = s.guessAxis k (entry p.x k) := by
  simp [guess, Axis.ofGradient, Axis.toGradient, Gradient.numerical, entry, tabulate, inside]

theorem guessedYields [Scalar α] {s : Surface α} {fits : Prop} {p : Point α}
    (size : fits → p.x.size = s.space.dimension) (t : Trace α) :
    Yields fits (s.guessed p) t 0 (· = s.guess p) :=
  .expect (fun fit => beq_iff_eq.mpr (size fit)) fun _ _ => .pure rfl

section
variable {s : Surface ℝ} {k : ℕ} (free : s.space.limits k = .free)
include free

/- Without limits, an error is as wide inside as it is outside. -/
theorem errorWidthFree (v : ℝ) :
    s.errorWidth k v = |(s.space.parameterAt (s.space.place k)).error| := by
  obtain ⟨lower, upper⟩ := Parameter.freeLimits.mp free
  have outside : (s.space.parameterAt (s.space.place k)).limits = .free := free
  simp only [errorWidth, Space.toExternal, Space.toInternal, free, outside, Limits.toExternal,
    Limits.toInternal, lower, upper, Option.elim_none, Exact.add, Exact.sub, Exact.abs, Exact.mul,
    Exact.scientific]
  rw [add_sub_cancel_left, sub_sub_cancel_left, abs_neg]
  norm_num
  ring

theorem guessStepFree (p : Point ℝ) (inside : k < s.space.dimension) :
    0.1 * s.errorWidth k (entry p.x k) ≤ entry (s.guess p).steps k := by
  change _ ≤ (Axis.ofGradient (s.guess p) k).step
  rw [guessAt p inside, guessAxis]
  dsimp only
  rw [if_neg (by rw [unlimitedFree free]; exact fun limited => Bool.false_ne_true limited.1), Exact.max]
  exact le_max_right _ _

end

section
variable {s : Surface ℝ} {n : ℕ} (plain : s.Plain n)
include plain

theorem Plain.guessFull (p : Point ℝ) : (s.guess p).Full n :=
  plain.space.dimension ▸ s.guessFull p

theorem Plain.errorWidth {k : ℕ} (inside : k < n) (v : ℝ) :
    s.errorWidth k v = |(s.space.parameterAt k).error| := by
  rw [errorWidthFree (plain.free inside), plain.space.place inside]

theorem Plain.guessSteps (p : Point ℝ) {k : ℕ} (inside : k < n) :
    0.1 * |(s.space.parameterAt k).error| ≤ entry (s.guess p).steps k := by
  rw [← plain.errorWidth inside (entry p.x k)]
  exact guessStepFree (plain.free inside) p (plain.space.dimension.symm ▸ inside)

end
end Surface
end ParamFit
