import ParamFit.Proofs.Conditioning

/-! Triangles in packed form. The cells of a triangle are told apart by the unordered pairs of its rows,
and none of them is spare; so what is written at one place is read there and at its mirror, and nowhere
else. It makes no difference from which side a row meets itself, though a matrix takes one side and a
covariance the other; each is the other's copy, cell for cell. -/
namespace ParamFit
variable {α : Type}

/-! ### Cells -/

namespace Triangle

/- The unordered pairs of `n` rows and the cells of their triangle belong to each other, one to one. -/
structure Packs (n : ℕ) (cell : ℕ → ℕ → ℕ) : Prop where
  comm (i j : ℕ) : cell i j = cell j i
  bijective : Set.BijOn (Sym2.lift ⟨cell, comm⟩) {z | ∀ i ∈ z, i < n} (Set.Iio (n * (n + 1) / 2))

theorem cellPacks (n : ℕ) : Packs n cell := by
  refine ⟨cellComm, ?_, ?_, ?_⟩
  · rintro ⟨i, j⟩ below
    exact cellBelow (below i (Sym2.mem_mk_left i j)) (below j (Sym2.mem_mk_right i j))
  · rintro ⟨i, j⟩ below ⟨k, l⟩ below' same
    exact Sym2.eq_iff.mpr (cellSame (below i (Sym2.mem_mk_left i j))
      (below j (Sym2.mem_mk_right i j)) (below' k (Sym2.mem_mk_left k l))
      (below' l (Sym2.mem_mk_right k l)) same)
  · intro c inside
    obtain ⟨i, j, col, row, found⟩ := cellFound inside
    refine ⟨s(i, j), fun k among => ?_, found⟩
    rcases Sym2.mem_iff.mp among with rfl | rfl
    · exact row
    · exact col.trans_lt row

end Triangle

theorem Covariance.cellPacks (n : ℕ) : Triangle.Packs n cell := by
  have same : cell = Triangle.cell := funext fun i => funext fun j => cell_eq i j
  rw [same]
  exact Triangle.cellPacks n

/-! ### Places -/

/- Places are read and written where both the row and the column exist. What is written is read at its
place and at the mirror of it; all else is as it was. -/
structure Stores (M : Type) (rows : M → ℕ) (read : M → ℕ → ℕ → Option α)
    (write : M → ℕ → ℕ → α → Option M) : Prop where
  reads (m : M) (i j : ℕ) : (read m i j).isSome ↔ i < rows m ∧ j < rows m
  writes (m : M) (i j : ℕ) (v : α) : (write m i j v).isSome ↔ i < rows m ∧ j < rows m
  written {m n : M} {i j : ℕ} {v : α} (wrote : write m i j v = some n) :
    rows n = rows m ∧ ∀ k l, read n k l = if s(k, l) = s(i, j) then some v else read m k l

/- Another form of the same matrices stores as they do. -/
theorem Stores.form {M N : Type} {rows : M → ℕ} {read : M → ℕ → ℕ → Option α}
    {write : M → ℕ → ℕ → α → Option M} {rows' : N → ℕ} {read' : N → ℕ → ℕ → Option α}
    {write' : N → ℕ → ℕ → α → Option N} (stores : Stores M rows read write) {f : M → N}
    (onto : f.Surjective) (sameRows : ∀ m, rows' (f m) = rows m)
    (sameRead : ∀ m i j, read' (f m) i j = read m i j)
    (sameWrite : ∀ m i j v, write' (f m) i j v = (write m i j v).map f) :
    Stores N rows' read' write' where
  reads n i j := by
    obtain ⟨m, rfl⟩ := onto n
    rw [sameRows, sameRead]
    exact stores.reads m i j
  writes n i j v := by
    obtain ⟨m, rfl⟩ := onto n
    rw [sameRows, sameWrite, Option.isSome_map]
    exact stores.writes m i j v
  written {n n' i j v} wrote := by
    obtain ⟨m, rfl⟩ := onto n
    rw [sameWrite] at wrote
    obtain ⟨m', here, rfl⟩ := Option.map_eq_some_iff.mp wrote
    obtain ⟨kept, answers⟩ := stores.written here
    refine ⟨by rw [sameRows, sameRows, kept], fun k l => ?_⟩
    rw [sameRead, sameRead]
    exact answers k l

namespace Symmetric

variable {m : Symmetric α} {i j k l : ℕ}

theorem insideIff : m.inside i j ↔ i < m.size ∧ j < m.size := by
  rw [inside, Bool.and_eq_true, decide_eq_true_eq, decide_eq_true_eq]

theorem setAnswers (v : α) (place : i < m.size ∧ j < m.size) :
    m.set? i j v = some (m.set i j v) := if_pos (insideIff.mpr place)

theorem setRefused (v : α) (outside : ¬ (i < m.size ∧ j < m.size)) : m.set? i j v = none :=
  if_neg fun within => outside (insideIff.mp within)

/- Cells that fill a triangle make the matrix that holds them. -/
theorem ofPackedIff {n : ℕ} {data : Array α} :
    ofPacked n data = .ok m ↔ m.size = n ∧ m.data = data := by
  rw [ofPacked]
  constructor
  · intro made
    split at made
    · cases made
      exact ⟨rfl, rfl⟩
    · cases made
  · rintro ⟨rfl, rfl⟩
    exact dif_pos m.packed

variable [Scalar α]

theorem elementAnswers (place : i < m.size ∧ j < m.size) :
    m.element? i j = some (m.element i j) := if_pos (insideIff.mpr place)

theorem elementRefused (outside : ¬ (i < m.size ∧ j < m.size)) : m.element? i j = none :=
  if_neg fun within => outside (insideIff.mp within)

/- A place and its mirror hold one element. -/
theorem elementSetIf (v : α) (place : i < m.size ∧ j < m.size) (place' : k < m.size ∧ l < m.size) :
    (m.set i j v).element k l = if s(k, l) = s(i, j) then v else m.element k l := by
  split
  case isTrue same =>
    rcases Sym2.eq_iff.mp same with ⟨rfl, rfl⟩ | ⟨rfl, rfl⟩
    · exact m.elementSet v place.1 place.2
    · rw [elementComm]
      exact m.elementSet v place.1 place.2
  case isFalse other =>
    refine m.elementSetOther v place.1 place.2 place'.1 place'.2 fun same => other ?_
    exact (Sym2.eq_iff.mpr same).symm

theorem setReads (v : α) (place : i < m.size ∧ j < m.size) (k l : ℕ) :
    (m.set i j v).element? k l = if s(k, l) = s(i, j) then some v else m.element? k l := by
  by_cases place' : k < m.size ∧ l < m.size
  case pos =>
    have here : (m.set i j v).element? k l = some ((m.set i j v).element k l) := elementAnswers place'
    rw [here, elementSetIf v place place', elementAnswers place', apply_ite some]
  case neg =>
    have here : (m.set i j v).element? k l = none := elementRefused place'
    have apart : s(k, l) ≠ s(i, j) := fun same => place' (by
      rcases Sym2.eq_iff.mp same with ⟨rfl, rfl⟩ | ⟨rfl, rfl⟩
      · exact place
      · exact place.symm)
    rw [here, elementRefused place', if_neg apart]

theorem stores : Stores (Symmetric α) size element? set? where
  reads m i j := by
    by_cases place : i < m.size ∧ j < m.size
    · simp [elementAnswers place, place]
    · simp only [elementRefused place, Option.isSome_none, Bool.false_eq_true, place]
  writes m i j v := by
    by_cases place : i < m.size ∧ j < m.size
    · simp [setAnswers v place, place]
    · simp only [setRefused v place, Option.isSome_none, Bool.false_eq_true, place]
  written {m n i j v} wrote := by
    by_cases place : i < m.size ∧ j < m.size
    · cases (setAnswers v place).symm.trans wrote
      exact ⟨rfl, setReads v place⟩
    · cases (setRefused v place).symm.trans wrote

theorem squeezeReads (inside : k < m.size) : ∃ r, m.squeeze? k = some r ∧ r.size + 1 = m.size ∧
    ∀ a b, a < r.size → b < r.size → r.element? a b = m.element? (skip k a) (skip k b) := by
  refine ⟨m.squeeze k, if_pos inside, squeezeSize inside, fun a b row col => ?_⟩
  rw [elementAnswers ⟨row, col⟩, squeezeAt row col, elementAnswers ⟨skipInside row, skipInside col⟩]

end Symmetric

namespace Covariance
variable {c : Covariance α}

theorem ofPackedIff {n : ℕ} {data : Array α} :
    ofPacked data n = .ok c ↔ c.rows = n ∧ c.data = data := by
  rw [ofPacked]
  constructor
  · intro made
    split at made
    · cases made
      exact ⟨rfl, rfl⟩
    · cases made
  · rintro ⟨rfl, rfl⟩
    exact dif_pos c.packed

theorem everyMatrix : Function.Surjective (ofMatrix : Symmetric α → Covariance α) :=
  fun c => ⟨⟨c.rows, c.data, c.packed⟩, rfl⟩

theorem setOfMatrix (m : Symmetric α) (i j : ℕ) (v : α) :
    (ofMatrix m).set i j v = ofMatrix (m.set i j v) := by
  simp only [set, cell_eq]
  rfl

theorem stores [Scalar α] : Stores (Covariance α) rows element? set? := by
  refine Symmetric.stores.form everyMatrix (fun _ => rfl) (fun m i j => ?_) fun m i j v => ?_
  · rw [element?, elementOfMatrix]
    rfl
  · rw [set?, setOfMatrix, Symmetric.set?, apply_ite (Option.map ofMatrix)]
    rfl

/- The matrix of a covariance is made element by element; its cells are copied all the same. -/
theorem toMatrixCopies [Scalar α] (c : Covariance α) : c.toMatrix = ⟨c.rows, c.data, c.packed⟩ := by
  obtain ⟨m, rfl⟩ := everyMatrix c
  exact matrixAgain m

end Covariance

/- Matrices and covariances are stored faithfully. Every cell belongs to one unordered pair of rows. What
is written at one place is read there and at its mirror, and nowhere else. Cells make the matrix that they
are the cells of; a covariance and its matrix have the same cells. A matrix without a row reads as it did
beside that row. -/
theorem Symmetric.storedFaithfully [Scalar α] :
    (∀ n, Triangle.Packs n Triangle.cell ∧ Triangle.Packs n Covariance.cell) ∧
      Stores (Symmetric α) size element? set? ∧
      Stores (Covariance α) Covariance.rows Covariance.element? Covariance.set? ∧
      (∀ (m : Symmetric α) n data, ofPacked n data = .ok m ↔ m.size = n ∧ m.data = data) ∧
      (∀ (c : Covariance α) n data,
        Covariance.ofPacked data n = .ok c ↔ c.rows = n ∧ c.data = data) ∧
      (∀ m : Symmetric α, (Covariance.ofMatrix m).toMatrix = m ∧
        (Covariance.ofMatrix m).rows = m.size ∧ (Covariance.ofMatrix m).data = m.data) ∧
      (∀ c : Covariance α, Covariance.ofMatrix c.toMatrix = c ∧
        c.toMatrix.size = c.rows ∧ c.toMatrix.data = c.data) ∧
      ∀ (m : Symmetric α) (k : ℕ), k < m.size → ∃ r, m.squeeze? k = some r ∧ r.size + 1 = m.size ∧
        ∀ a b, a < r.size → b < r.size →
          r.element? a b = m.element? (skip k a) (skip k b) := by
  have copies (c : Covariance α) : Covariance.ofMatrix c.toMatrix = c ∧
      c.toMatrix.size = c.rows ∧ c.toMatrix.data = c.data := by
    rw [c.toMatrixCopies]
    exact ⟨rfl, rfl, rfl⟩
  refine ⟨fun n => ⟨Triangle.cellPacks n, Covariance.cellPacks n⟩, stores, Covariance.stores,
    fun _ _ _ => ofPackedIff, fun _ _ _ => Covariance.ofPackedIff, fun m => ?_, copies,
    fun _ _ => squeezeReads⟩
  exact ⟨Covariance.matrixAgain m, rfl, rfl⟩

/- The middle row of three is taken out. -/
theorem Symmetric.storedFaithfullyThree :
    let m : Symmetric ℝ := ⟨3, #[0, 10, 11, 20, 21, 22], rfl⟩
    1 < m.size ∧ ∃ r, m.squeeze? 1 = some r ∧ r.size + 1 = m.size ∧ r.element? 0 1 = some 20 := by
  intro m
  have middle : 1 < m.size := by decide
  obtain ⟨-, -, -, -, -, -, -, squeezes⟩ := storedFaithfully (α := ℝ)
  obtain ⟨r, squeezed, size, reads⟩ := squeezes m 1 middle
  have two : r.size = 2 := Nat.succ.inj size
  refine ⟨middle, r, squeezed, size, ?_⟩
  rw [reads 0 1 (by omega) (by omega)]
  rfl

end ParamFit
