import ParamFit.Exact

/-! Vectors and matrices over exact numbers. However a sum is arranged, it is the sum of its terms; a
packed matrix has the elements it was built with, on both sides of its diagonal. -/
namespace ParamFit
open Finset

/-! ### Sums -/

theorem foldAdd (l : List ℝ) (a : ℝ) : l.foldl (· + ·) a = a + l.sum := by
  induction l generalizing a with
  | nil => simp
  | cons x l ih => rw [List.foldl_cons, ih, List.sum_cons, add_assoc]

theorem Scalar.sumExact (l : List ℝ) : Scalar.sum l = l.sum := by
  have start : (-0 : ℝ) + l.sum = l.sum := by simp
  exact (foldAdd l _).trans start

namespace Vector

section
variable {α : Type} [Scalar α]

theorem sizeAdd (x y : Array α) : (add x y).size = min x.size y.size := by simp [add]
theorem sizeSub (x y : Array α) : (sub x y).size = min x.size y.size := by simp [sub]
theorem sizeScale (x : Array α) (k : α) : (scale x k).size = x.size := by simp [scale]

theorem entryMap {x : Array α} {i : ℕ} (f : α → α) (inside : i < x.size) :
    entry (x.map f) i = f (entry x i) := by
  simp [entry, inside]

end

theorem entryAdd {x y : Array ℝ} {i : ℕ} (left : i < x.size) (right : i < y.size) :
    entry (add x y) i = entry x i + entry y i := by
  simp [entry, add, left, right]

theorem entrySub {x y : Array ℝ} {i : ℕ} (left : i < x.size) (right : i < y.size) :
    entry (sub x y) i = entry x i - entry y i := by
  simp [entry, sub, left, right]

theorem sameEntries {x y : Array ℝ} (size : x.size = y.size)
    (same : ∀ i < x.size, entry x i = entry y i) : x = y := by
  refine Array.ext size fun i left right => ?_
  have here := same i left
  simpa [entry, left, right] using here

/- The lanes of full blocks together hold the products of those blocks. -/
theorem laneSum (products : List ℝ) (blocks : ℕ) :
    ∑ k ∈ range 8, lane products blocks k = ∑ i ∈ range (8 * blocks), products.getD i 0 := by
  have one (k : ℕ) : lane products blocks k = ∑ b ∈ range blocks, products.getD (8 * b + k) 0 := by
    rw [lane, foldAdd, Exact.zero, zero_add, Finset.sum_range, ← List.sum_ofFn]
    simp [List.ofFn_eq_map, List.finRange_eq_pmap_range, List.map_pmap]
  simp only [one]
  clear one
  -- A further block adds eight products, one to each lane.
  induction blocks with
  | zero => simp
  | succ b ih =>
    rw [Finset.sum_congr rfl fun k _ => Finset.sum_range_succ _ _, Finset.sum_add_distrib, ih,
      Nat.mul_succ, Finset.sum_range_add]

theorem sumSplit {l : List ℝ} {m : ℕ} (inside : m ≤ l.length) :
    ∑ i ∈ range m, l.getD i 0 + (l.drop m).sum = l.sum := by
  induction m with
  | zero => simp
  | succ m ih =>
    rw [← ih (by omega), List.drop_eq_getElem_cons inside, List.sum_cons, Finset.sum_range_succ,
      List.getD_eq_getElem _ _ inside]
    ring

theorem sumEntries (l : List ℝ) : l.sum = ∑ i ∈ range l.length, l.getD i 0 := by
  have split := sumSplit (le_refl l.length)
  rw [List.drop_length, List.sum_nil, add_zero] at split
  exact split.symm

theorem dotExact (x y : Array ℝ) :
    dot x y = ∑ i ∈ range (min x.size y.size), entry x i * entry y i := by
  let products := (Array.zipWith (· * ·) x y).toList
  have length : products.length = min x.size y.size := by simp [products]
  have terms : ∀ i ∈ range (min x.size y.size), products.getD i 0 = entry x i * entry y i := by
    intro i inside
    obtain ⟨left, right⟩ := lt_min_iff.mp (mem_range.mp inside)
    simp [products, entry, left, right]
  have lanes := laneSum products (products.length / 8)
  have split := sumSplit (Nat.mul_div_le products.length 8)
  rw [← Finset.sum_congr rfl terms, ← length, ← sumEntries, ← split, ← lanes]
  unfold dot
  rw [foldAdd]
  simp only [Finset.sum_range_succ, Finset.sum_range_zero]
  simp [products]
  ring

end Vector

/-! ### Packed matrices -/

namespace Triangle

theorem cellComm (i j : ℕ) : cell i j = cell j i := by
  rcases lt_trichotomy i j with below | rfl | above
  · rw [cell, cell, if_neg (by omega), if_pos (by omega)]
  · rfl
  · rw [cell, cell, if_pos (by omega), if_neg (by omega)]

theorem cellsMono {m n : ℕ} (le : m ≤ n) : cells m ≤ cells n :=
  Nat.div_le_div_right (Nat.mul_le_mul le (by omega))

theorem cellInside {i j n : ℕ} (col : j ≤ i) (row : i < n) : cell i j < cells n := by
  have whole := cellsMono (m := i + 1) row
  rw [cells_succ] at whole
  rw [cell, if_pos col]
  omega

/- Every place of a matrix has its cell, on either side of the diagonal. -/
theorem cellBelow {i j n : ℕ} (row : i < n) (col : j < n) : cell i j < cells n := by
  rcases Nat.le_total j i with left | right
  · exact cellInside left row
  · rw [cellComm]
    exact cellInside right col

theorem pairsAt {i j n : ℕ} (col : j ≤ i) (row : i < n) : (pairs n)[cell i j]? = some (i, j) := by
  induction n with
  | zero => omega
  | succ n ih =>
    have grow : pairs (n + 1) = pairs n ++ (List.range (n + 1)).map fun j => (n, j) := by
      simp [pairs, List.range_succ]
    rw [grow]
    rcases Nat.lt_succ_iff_lt_or_eq.mp row with before | rfl
    · rw [List.getElem?_append_left (by rw [length_pairs]; exact cellInside col before)]
      exact ih before
    · have place : cell i j = cells i + j := by rw [cell, if_pos col, Nat.add_comm]
      rw [List.getElem?_append_right (by rw [length_pairs, place]; omega), length_pairs, place]
      simp [show j < i + 1 by omega]

/- Two places share a cell only if they are the same or mirror each other. -/
theorem cellSame {i j k l n : ℕ} (row : i < n) (col : j < n) (row' : k < n) (col' : l < n)
    (same : cell i j = cell k l) : i = k ∧ j = l ∨ i = l ∧ j = k := by
  have ordered {i j k l : ℕ} (left : j ≤ i) (row : i < n) (right : l ≤ k) (row' : k < n)
      (same : cell i j = cell k l) : i = k ∧ j = l := by
    have first := pairsAt left row
    rw [same, pairsAt right row'] at first
    cases first
    exact ⟨rfl, rfl⟩
  rcases Nat.le_total j i with left | left <;> rcases Nat.le_total l k with right | right
  · exact .inl (ordered left row right row' same)
  · exact .inr (ordered left row right col' (same.trans (cellComm k l)))
  · exact .inr (ordered left col right row' ((cellComm j i).trans same)).symm
  · exact .inl (ordered left col right col' ((cellComm j i).trans (same.trans (cellComm k l)))).symm

theorem cellFound {c n : ℕ} (inside : c < cells n) : ∃ i j, j ≤ i ∧ i < n ∧ cell i j = c := by
  induction n with
  | zero => simp [cells] at inside
  | succ n ih =>
    rw [cells_succ] at inside
    by_cases before : c < cells n
    · obtain ⟨i, j, col, row, found⟩ := ih before
      exact ⟨i, j, col, by omega, found⟩
    · refine ⟨n, c - cells n, by omega, by omega, ?_⟩
      rw [cell, if_pos (by omega)]
      omega

end Triangle

namespace Symmetric

theorem elementComm [Scalar α] (m : Symmetric α) (i j : ℕ) : m.element i j = m.element j i := by
  rw [element, element, Triangle.cellComm]

theorem elementBuild [Scalar α] {n i j : ℕ} (f : ℕ → ℕ → α) (col : j ≤ i) (row : i < n) :
    (build n f).element i j = f i j := by
  have place := Triangle.pairsAt col row
  simp [element, build, entry, place]

theorem elementBuildComm [Scalar α] {n i j : ℕ} {f : ℕ → ℕ → α} (comm : ∀ i j, f i j = f j i)
    (left : i < n) (right : j < n) : (build n f).element i j = f i j := by
  rcases Nat.le_total j i with col | row
  · exact elementBuild f col left
  · rw [elementComm, comm]
    exact elementBuild f row right

theorem elementOfDiagonal [Scalar α] {d : Array α} {i : ℕ} (inside : i < d.size) :
    (ofDiagonal d).element i i = entry d i :=
  (elementBuild _ (le_refl i) inside).trans (if_pos rfl)

theorem cellWithin (m : Symmetric α) {i j : ℕ} (row : i < m.size) (col : j < m.size) :
    Triangle.cell i j < m.data.size := m.packed ▸ Triangle.cellBelow row col

theorem elementMap [Scalar α] {m : Symmetric α} {i j : ℕ} (f : α → α) (left : i < m.size)
    (right : j < m.size) : (m.map f).element i j = f (m.element i j) := by
  exact Vector.entryMap f (m.cellWithin left right)

theorem elementSet [Scalar α] (m : Symmetric α) {i j : ℕ} (v : α) (row : i < m.size) (col : j < m.size) :
    (m.set i j v).element i j = v := by
  simp [element, set, entry, m.cellWithin row col]

theorem elementSetOther [Scalar α] (m : Symmetric α) {i j k l : ℕ} (v : α) (row : i < m.size)
    (col : j < m.size) (row' : k < m.size) (col' : l < m.size)
    (other : ¬ (i = k ∧ j = l ∨ i = l ∧ j = k)) : (m.set i j v).element k l = m.element k l := by
  have apart : Triangle.cell i j ≠ Triangle.cell k l := fun same =>
    other (Triangle.cellSame row col row' col' same)
  simp only [element, set, entry, Array.getD_eq_getD_getElem?]
  rw [Array.getElem?_setIfInBounds_ne apart]

theorem sameElements [Scalar α] {m n : Symmetric α} (size : m.size = n.size)
    (same : ∀ i j, j ≤ i → i < m.size → m.element i j = n.element i j) : m = n := by
  obtain ⟨rows, data, packed⟩ := m
  obtain ⟨rows', data', packed'⟩ := n
  obtain rfl : rows = rows' := size
  have equal : data = data' := by
    refine Array.ext (packed.trans packed'.symm) fun c left right => ?_
    obtain ⟨i, j, col, row, found⟩ := Triangle.cellFound (packed ▸ left)
    have here := same i j col row
    simpa [element, entry, found, left, right] using here
  cases equal
  rfl

theorem sizeMulVec [Scalar α] (m : Symmetric α) (v : Array α) : (m.mulVec v).size = v.size := by
  simp [mulVec]

theorem mulVecExact {m : Symmetric ℝ} {v : Array ℝ} {i : ℕ} (inside : i < v.size) :
    entry (m.mulVec v) i = ∑ j ∈ range v.size, m.element i j * entry v j := by
  rw [mulVec, entry_tabulate _ inside, Scalar.sumExact, Vector.sumEntries, List.length_map,
    List.length_range]
  refine Finset.sum_congr rfl fun j inner => ?_
  simp [mem_range.mp inner]

theorem quadraticExact (m : Symmetric ℝ) (v : Array ℝ) :
    m.quadratic v = ∑ i ∈ range v.size, ∑ j ∈ range v.size,
      entry v i * m.element i j * entry v j := by
  rw [quadratic, Vector.dotExact, sizeMulVec, min_self]
  refine Finset.sum_congr rfl fun i outer => ?_
  rw [mulVecExact (mem_range.mp outer), Finset.mul_sum]
  exact Finset.sum_congr rfl fun j _ => by ring

end Symmetric
end ParamFit
