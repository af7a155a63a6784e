import ParamFit.Search.Simplex
import ParamFit.Proofs.Stay

/-! What one round of a simplex can do. A round asks only for values, so its answer and the points it
asks at depend on the simplex alone. `Turn` has one constructor for every path through a round, with
the tests that lead to it and the points that are asked on the way; what holds of a round is proved from
these paths. -/
namespace ParamFit
variable {α β : Type} [Scalar α]

/- A computation that answers `b` and asks at `xs`, whatever was asked before. -/
structure Finds (f : Surface α) (m : Eval α β) (b : β) (xs : List (Array α)) : Prop where
  answer (t : Trace α) : (m.run t).1 = b
  asked (t : Trace α) : (m.run t).2.values = t.values ++ (xs.map f.space.external).toArray

namespace Finds
variable {f : Surface α} {b : β} {xs : List (Array α)}

theorem pure (b : β) : Finds f (Pure.pure b) b [] := ⟨fun _ => rfl, fun _ => (Array.append_empty).symm⟩

theorem value {x : Array α} {rest : α → Eval α β} (finds : Finds f (rest (f.worth x)) b xs) :
    Finds f (f.value x >>= rest) b (x :: xs) where
  answer _ := finds.answer _
  asked t := by
    have later := finds.asked ((f.value x).run t).2
    have first : ((f.value x).run t).2.values = t.values.push (f.space.external x) := rfl
    rw [first, Array.push_eq_append, Array.append_assoc] at later
    rw [List.map_cons, List.toArray_cons]
    exact later

theorem expect {holds : Bool} {m : Eval α β} (finds : Finds f m b xs) :
    Finds f (Eval.expect holds >>= fun _ => m) b xs :=
  ⟨fun _ => finds.answer _, fun _ => finds.asked _⟩

theorem yes {c : Prop} [Decidable c] {m n : Eval α β} (holds : c) (finds : Finds f m b xs) :
    Finds f (if c then m else n) b xs := by rwa [if_pos holds]

theorem no {c : Prop} [Decidable c] {m n : Eval α β} (fails : ¬ c) (finds : Finds f n b xs) :
    Finds f (if c then m else n) b xs := by rwa [if_neg fails]

theorem calls {m : Eval α β} (finds : Finds f m b xs) (t : Trace α) :
    (m.run t).2.calls = t.calls + xs.length := by
  simp [Trace.calls, finds.asked t]

end Finds

/- The vertex at given coordinates, with its own value. -/
def Surface.vertex (f : Surface α) (x : Array α) : Vertex α := ⟨f.worth x, x⟩

namespace Simplex
section
variable (f : Surface α) (s : Simplex α)

def opposite : Vertex α := f.vertex (s.reflected s.center)

def beyond : Vertex α := f.vertex (stretched s.center (s.reflected s.center))

/- How far the parabola through the worst vertex and these two reaches. -/
def reach : α :=
  factor (s.heights (s.opposite f).value (s.beyond f).value).1
    (s.heights (s.opposite f).value (s.beyond f).value).2

def further : Vertex α :=
  f.vertex (s.extrapolated s.center (if s.reach f > 8.0 then 8.0 else s.reach f))

def inward (c : Array α) : Vertex α := f.vertex (s.pulled c)

def better : Vertex α :=
  if (s.beyond f).value < s.bestVertex.value then s.beyond f else s.opposite f

/- The two ways that pulling the worst vertex ends. -/
inductive Pulls (c : Array α) : Outcome α → Prop where
  | given (higher : (s.inward f c).value > s.worstVertex.value) : Pulls c (.shrunk s)
  | taken (lower : ¬ (s.inward f c).value > s.worstVertex.value) :
      Pulls c (.moved (s.exchange (s.inward f c)))

def Poor : Prop := (s.opposite f).value > s.bestVertex.value

def Low : Prop := (s.opposite f).value < s.worstVertex.value

/- The parabola is followed beyond the stretched vertex. -/
def Far : Prop := ¬ s.Poor f ∧ ¬ s.reach f < 4.0

/- The paths through a round: what each makes of the simplex and the points it asks at. -/
inductive Turn : Outcome α → List (Array α) → Prop where
  | reflects (poor : s.Poor f) (low : s.Low f) (other : s.worst ≠ (s.exchange (s.opposite f)).worst) :
      Turn (.moved (s.exchange (s.opposite f))) [(s.opposite f).x]
  | reflectsPulls {o} (poor : s.Poor f) (low : s.Low f)
      (same : s.worst = (s.exchange (s.opposite f)).worst)
      (pulls : (s.exchange (s.opposite f)).Pulls f s.center o) :
      Turn o [(s.opposite f).x, ((s.exchange (s.opposite f)).inward f s.center).x]
  | pulls {o} (poor : s.Poor f) (high : ¬ s.Low f) (pulls : s.Pulls f s.center o) :
      Turn o [(s.opposite f).x, (s.inward f s.center).x]
  | stretches (good : ¬ s.Poor f) (near : s.reach f < 4.0) :
      Turn (.moved (s.exchange (s.better f))) [(s.opposite f).x, (s.beyond f).x]
  | extrapolates (far : s.Far f) (least : (s.further f).value < s.bestVertex.value ∧
        (s.further f).value < (s.beyond f).value) :
      Turn (.moved (s.exchange (s.further f))) [(s.opposite f).x, (s.beyond f).x, (s.further f).x]
  | stretchesFar (far : s.Far f) (more : ¬ ((s.further f).value < s.bestVertex.value ∧
        (s.further f).value < (s.beyond f).value)) (less : (s.beyond f).value < s.bestVertex.value) :
      Turn (.moved (s.exchange (s.beyond f))) [(s.opposite f).x, (s.beyond f).x, (s.further f).x]
  | reflectsFar (far : s.Far f) (more : ¬ (s.beyond f).value < s.bestVertex.value)
      (higher : (s.further f).value > s.bestVertex.value) :
      Turn (.moved (s.exchange (s.better f))) [(s.opposite f).x, (s.beyond f).x, (s.further f).x]
  | pullsFar {o} (far : s.Far f) (higher : (s.opposite f).value > s.worstVertex.value)
      (pulls : s.Pulls f s.center o) :
      Turn o [(s.opposite f).x, (s.beyond f).x, (s.further f).x, (s.inward f s.center).x]
  | keeps (far : s.Far f) (least : ¬ ((s.further f).value < s.bestVertex.value ∧
        (s.further f).value < (s.beyond f).value)) (more : ¬ (s.beyond f).value < s.bestVertex.value)
      (lower : ¬ (s.further f).value > s.bestVertex.value) :
      Turn (.moved s) [(s.opposite f).x, (s.beyond f).x, (s.further f).x]

end

variable {f : Surface α} {s : Simplex α}

theorem pullFinds (f : Surface α) (s : Simplex α) (c : Array α) :
    ∃ o, s.Pulls f c o ∧ Finds f (pull f s c) o [(s.inward f c).x] := by
  refine ⟨_, ?_, .value (.pure _)⟩
  split
  case isTrue higher => exact .given higher
  case isFalse lower => exact .taken lower

theorem afterPoorFinds (poor : s.Poor f) : ∃ o xs, s.Turn f o ((s.opposite f).x :: xs) ∧
    Finds f (afterPoor f s s.center (s.opposite f)) o xs := by
  by_cases low : s.Low f
  · by_cases same : s.worst = (s.exchange (s.opposite f)).worst
    · obtain ⟨o, pulls, finds⟩ := pullFinds f (s.exchange (s.opposite f)) s.center
      exact ⟨o, _, .reflectsPulls poor low same pulls, .yes low (.no (by simpa using same) finds)⟩
    · exact ⟨_, _, .reflects poor low same, .yes low (.yes (by simpa using same) (.pure _))⟩
  · obtain ⟨o, pulls, finds⟩ := pullFinds f s s.center
    exact ⟨o, _, .pulls poor low pulls, .no low finds⟩

theorem afterGoodFinds (good : ¬ s.Poor f) :
    ∃ o xs, s.Turn f o ((s.opposite f).x :: (s.beyond f).x :: xs) ∧
      Finds f (afterGood f s s.center (s.opposite f) (s.beyond f)) o xs := by
  by_cases near : s.reach f < 4.0
  · exact ⟨_, _, .stretches good near, .yes near (.pure _)⟩
  have far : s.Far f := ⟨good, near⟩
  by_cases least : (s.further f).value < s.bestVertex.value ∧ (s.further f).value < (s.beyond f).value
  · exact ⟨_, _, .extrapolates far least, .no near (.value (.yes least (.pure _)))⟩
  by_cases less : (s.beyond f).value < s.bestVertex.value
  · exact ⟨_, _, .stretchesFar far least less, .no near (.value (.no least (.yes less (.pure _))))⟩
  by_cases higher : (s.further f).value > s.bestVertex.value
  · exact ⟨_, _, .reflectsFar far less higher,
      .no near (.value (.no least (.no less (.yes higher (.pure _)))))⟩
  by_cases above : (s.opposite f).value > s.worstVertex.value
  · obtain ⟨o, pulls, finds⟩ := pullFinds f s s.center
    exact ⟨o, _, .pullsFar far above pulls,
      .no near (.value (.no least (.no less (.no higher (.yes above finds)))))⟩
  · exact ⟨_, _, .keeps far least less higher,
      .no near (.value (.no least (.no less (.no higher (.no above (.pure _))))))⟩

theorem roundFinds (f : Surface α) (s : Simplex α) :
    ∃ o xs, s.Turn f o xs ∧ Finds f (round f s) o xs := by
  by_cases poor : s.Poor f
  · obtain ⟨o, xs, turn, finds⟩ := afterPoorFinds poor
    exact ⟨o, _, turn, .value (.yes poor finds)⟩
  · obtain ⟨o, xs, turn, finds⟩ := afterGoodFinds poor
    exact ⟨o, _, turn, .value (.no poor (.value finds))⟩

end Simplex
end ParamFit
