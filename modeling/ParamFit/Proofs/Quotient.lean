import ParamFit.Proofs.Passing

/-! The quotient by which a simplex is stretched. Both of its sides vanish only on a level simplex: all
vertices have one value, and so have the reflected and the stretched one. A round that goes on leaves
values that differ, so a search comes to such a simplex in its first round or never. What a quotient by
zero is does not matter here. -/
namespace ParamFit
namespace Simplex

section
variable {α : Type} [Scalar α] (f : Surface α) (s : Simplex α)

def dividend : α :=
  let (y₁, y₂) := s.heights (s.opposite f).value (s.beyond f).value
  0.5 * (3.0 * y₁ - 2.0 * y₂)

def divisor : α :=
  let (y₁, y₂) := s.heights (s.opposite f).value (s.beyond f).value
  y₁ - y₂

theorem reachDivides : s.reach f = s.dividend f / s.divisor f := rfl

/- A round on this simplex asks for zero divided by zero. -/
structure Undefined : Prop where
  asks : ¬ s.Poor f
  dividend : s.dividend f = 0
  divisor : s.divisor f = 0

/- All that a round knows before it follows the parabola has one value. -/
structure Level : Prop where
  vertices : ∀ i < s.vertices.size, s.valueAt i = (s.opposite f).value
  beyond : (s.beyond f).value = (s.opposite f).value

end

section
variable {atZero : ℝ → ℝ} {f : Surface ℝ} {start : Vertex ℝ} {n : ℕ}

/- With the heights `3 a` and `2 b` above the worst vertex, the divisor vanishes for `3 a = 2 b` and the
dividend for `9 a = 4 b`. -/
theorem heightsVanish {a b : ℝ} : 0.5 * (3.0 * (a * 3.0) - 2.0 * (b * 2.0)) = 0 ∧
    a * 3.0 - b * 2.0 = 0 ↔ a = 0 ∧ b = 0 := by
  norm_num
  constructor
  · rintro ⟨top, bottom⟩
    constructor <;> linarith
  · rintro ⟨rfl, rfl⟩
    norm_num

theorem sidesVanish (s : Simplex ℝ) : letI := Exact.dividing atZero
    s.dividend f = 0 ∧ s.divisor f = 0 ↔
      (s.opposite f).value = s.worstVertex.value ∧ (s.beyond f).value = s.worstVertex.value := by
  let := Exact.dividing atZero
  refine Iff.trans (heightsVanish (a := (s.opposite f).value - s.worstVertex.value)
    (b := (s.beyond f).value - s.worstVertex.value)) ?_
  rw [sub_eq_zero, sub_eq_zero]

theorem undefinedLevel {s : Simplex ℝ} (ranks : letI := Exact.dividing atZero; s.Ranks f start n) :
    letI := Exact.dividing atZero
    s.Undefined f ↔ s.Level f := by
  let := Exact.dividing atZero
  have low (i : ℕ) (inside : i < s.vertices.size) : s.bestVertex.value ≤ s.valueAt i :=
    not_lt.mp (ranks.lowest i (ranks.size ▸ inside))
  have high (i : ℕ) (inside : i < s.vertices.size) : s.valueAt i ≤ s.worstVertex.value :=
    not_lt.mp (ranks.highest i (ranks.size ▸ inside))
  have worst : s.worst < s.vertices.size := ranks.size.symm ▸ ranks.worst
  have best : s.best < s.vertices.size := ranks.size.symm ▸ ranks.best
  constructor
  · rintro ⟨asks, top, bottom⟩
    obtain ⟨reflected, stretched⟩ := (sidesVanish s).mp ⟨top, bottom⟩
    have good : (s.opposite f).value ≤ s.bestVertex.value := not_lt.mp asks
    refine ⟨fun i inside => le_antisymm ?_ ?_, stretched.trans reflected.symm⟩
    · exact (high i inside).trans_eq reflected.symm
    · exact good.trans (low i inside)
  · rintro ⟨vertices, beyond⟩
    have same : (s.opposite f).value = s.worstVertex.value := (vertices s.worst worst).symm
    obtain ⟨top, bottom⟩ := (sidesVanish s).mpr ⟨same, beyond.trans same⟩
    exact ⟨not_lt.mpr (vertices s.best best).ge, top, bottom⟩

/- A level simplex is not spread, so no round that goes on leaves one. -/
theorem Level.spread {s : Simplex ℝ} (ranks : letI := Exact.dividing atZero; s.Ranks f start n)
    (level : letI := Exact.dividing atZero; s.Level f) : letI := Exact.dividing atZero
    s.spread = 0 := by
  let := Exact.dividing atZero
  have worst := level.vertices s.worst (ranks.size.symm ▸ ranks.worst)
  have best := level.vertices s.best (ranks.size.symm ▸ ranks.best)
  exact sub_eq_zero.mpr (worst.trans best.symm)

end

section
variable {α : Type} [Scalar α] {f : Surface α} {maxCalls : ℕ} {wanted : α}

theorem Comes.goneOn {s last : Simplex α} {t v : Trace α}
    (comes : Comes f maxCalls wanted s t last v) : last = s ∧ v = t ∨ last.spread > wanted := by
  induction comes with
  | here => exact .inl ⟨rfl, rfl⟩
  | later _ goesOn _ ih =>
    rcases ih with ⟨rfl, rfl⟩ | spread
    · exact .inr goesOn.1
    · exact .inr spread

end

/- Of all rounds of a search only the first one can ask for zero divided by zero, and it does so exactly on
a level simplex. -/
theorem reachDefined (atZero : ℝ → ℝ) (f : Surface ℝ) (seed : Seed ℝ) (maxCalls : ℕ) {wanted : ℝ}
    (above : 0 < wanted) (t : Trace ℝ) : letI := Exact.dividing atZero
    let (s, u) := (begun f seed).run t
    (∀ head v, Comes f maxCalls wanted s u head v →
      (head.Undefined f ↔ head = s ∧ v = u ∧ s.Level f)) ∧
    ∃ last v o w, Comes f maxCalls wanted s u last v ∧ (round f last).run v = (o, w) ∧
      ¬ GoesOn maxCalls wanted o w ∧
      (s.rounds f maxCalls wanted (maxCalls + 1)).run u = (o.left, w) := by
  let := Exact.dividing atZero
  have orders : Scalar.Orders ℝ := dividingOrders atZero
  obtain ⟨s, xs, ranks, finds⟩ := begunRanks orders f seed
  have known := finds.answer t
  generalize (begun f seed).run t = r at known
  obtain ⟨_, u⟩ := r
  cases known
  refine ⟨fun head v comes => ?_, roundsLast orders maxCalls wanted ranks maxCalls.succ_pos (by omega)⟩
  have there := (comes.follows orders ranks).ranks
  constructor
  · intro undefined
    have level := (undefinedLevel there).mp undefined
    rcases comes.goneOn with ⟨rfl, rfl⟩ | spread
    · exact ⟨rfl, rfl, level⟩
    · rw [level.spread there] at spread
      exact absurd spread (not_lt.mpr above.le)
  · rintro ⟨rfl, rfl, level⟩
    exact (undefinedLevel ranks).mpr level

/- Where the objective has one value everywhere, the first simplex is level. -/
theorem levelBegun (atZero : ℝ → ℝ) : letI := Exact.dividing atZero
    ∃ (s : Simplex ℝ) (u : Trace ℝ), (begun level levelSeed).run? {} = some (s, u) ∧
      s.Level level := by
  let := Exact.dividing atZero
  obtain ⟨s, xs, ranks, finds⟩ := begunRanks (dividingOrders atZero) level levelSeed
  refine ⟨s, _, Eval.runAnswers.mpr ⟨Prod.ext (finds.answer {}) rfl, rfl⟩, fun i inside => ?_, rfl⟩
  have own (v : Vertex ℝ) (among : v ∈ s.vertices) : v.value = 0 := by
    rcases ranks.paired v among with rfl | same
    · rfl
    · exact same
  rw [valueAt, vertexAt inside]
  exact own _ (Array.getElem_mem inside)

theorem reachDefinedLevel : letI := Exact.dividing fun _ => 7
    (0 : ℝ) < 1 ∧ ∃ (s : Simplex ℝ) (u : Trace ℝ), (begun level levelSeed).run {} = (s, u) ∧
      s.Undefined level := by
  let := Exact.dividing fun _ => 7
  obtain ⟨s, u, run, flat⟩ := levelBegun fun _ => 7
  have begins := (Eval.runAnswers.mp run).1
  have defined := reachDefined (fun _ => 7) level levelSeed 100 one_pos {}
  rw [begins] at defined
  exact ⟨one_pos, s, u, begins, (defined.1 s u .here).mpr ⟨rfl, rfl, flat⟩⟩

/- A search can begin with zero divided by zero. -/
theorem reachUndefined : ¬ ∀ (atZero : ℝ → ℝ) (f : Surface ℝ) (seed : Seed ℝ) (maxCalls : ℕ) (wanted : ℝ)
    (s : Simplex ℝ) (u : Trace ℝ), letI := Exact.dividing atZero
    0 < seed.knowledge.size → 0 < wanted → (begun f seed).run? {} = some (s, u) →
      ∀ head v, Comes f maxCalls wanted s u head v → ¬ head.Poor f →
        ¬ (head.dividend f = 0 ∧ head.divisor f = 0) := by
  intro defined
  let := Exact.dividing fun _ => 7
  obtain ⟨s, u, run, flat⟩ := levelBegun fun _ => 7
  obtain ⟨t, xs, ranks, finds⟩ := begunRanks (dividingOrders fun _ => 7) level levelSeed
  have same := finds.answer {}
  rw [(Eval.runAnswers.mp run).1] at same
  cases same
  obtain ⟨asks, top, bottom⟩ := (undefinedLevel ranks).mpr flat
  exact defined (fun _ => 7) level levelSeed 100 1 s u one_pos one_pos run s u .here asks ⟨top, bottom⟩

end Simplex
end ParamFit
