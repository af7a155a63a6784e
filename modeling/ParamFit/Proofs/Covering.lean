import ParamFit.Proofs.Arising
import ParamFit.Proofs.Sums

/-! The covariance beside the declarations. Whatever is done to a fit, a covariance that it has fits
the parameters that vary, row by row. A change either keeps it as it is, together with the parameters
that vary, or drops it, or takes the same row out of both. -/
namespace ParamFit
variable {α : Type}

/- The place before the one at `k` was taken out. -/
def skip (k a : Nat) : Nat := if a < k then a else a + 1

theorem eraseSkips {β : Type} (l : List β) (k a : Nat) : (l.eraseIdx k)[a]? = l[skip k a]? := by
  rw [List.getElem?_eraseIdx, skip]
  split <;> rfl

section
variable [Scalar α]

theorem entryOfPlaces {places : Array Nat} (f : Nat → α) {a : Nat} (row : a < places.size) :
    entry (places.map f) a = f (places.getD a 0) := by
  simp [entry, row]

namespace Symmetric

/- The rows that are left, in their order. -/
theorem keptRows {n k : Nat} (inside : k < n) :
    ((Array.range n).filter (· != k)).toList = (List.range n).eraseIdx k := by
  have place : (List.range n).idxOf k = k := by
    have here := List.nodup_range.idxOf_getElem k (by rwa [List.length_range])
    rwa [List.getElem_range] at here
  rw [Array.toList_filter, Array.toList_range, ← List.nodup_range.erase_eq_filter,
    List.erase_eq_eraseIdx_of_idxOf place]

theorem keptSize {n k : Nat} (inside : k < n) :
    ((Array.range n).filter (· != k)).size + 1 = n := by
  rw [← Array.length_toList, keptRows inside, List.length_eraseIdx, List.length_range, if_pos inside]
  omega

theorem keptPlace {n k a : Nat} (inside : k < n) (row : a + 1 < n) :
    ((Array.range n).filter (· != k)).getD a 0 = skip k a := by
  have within : skip k a < n := by
    rw [skip]
    split <;> omega
  rw [Array.getD_eq_getD_getElem?, ← Array.getElem?_toList, keptRows inside, eraseSkips,
    List.getElem?_range within, Option.getD_some]

variable {m : Symmetric α} {k : Nat}

theorem squeezeSize (inside : k < m.size) : (m.squeeze k).size + 1 = m.size := keptSize inside

theorem squeezeElement (inside : k < m.size) {a b : Nat} (row : a + 1 < m.size)
    (col : b + 1 < m.size) : (m.squeeze k).element a b = m.element (skip k a) (skip k b) := by
  have size := keptSize inside
  rw [squeeze, elementBuildComm (fun _ _ => elementComm m _ _) (by omega) (by omega),
    keptPlace inside row, keptPlace inside col]

theorem elementDiagonal {d : Array α} {i j : Nat} (row : i < d.size) (col : j < d.size) :
    (ofDiagonal d).element i j = if i = j then entry d i else 0 := by
  refine elementBuildComm (fun i j => ?_) row col
  by_cases same : i = j
  · rw [same]
  · rw [if_neg same, if_neg (Ne.symm same)]

end Symmetric

namespace Covariance

/- A covariance without row `k`: the row is dropped from the inverse, and what is left is inverted
again. Where there is no inverse, the others keep their variances alone. -/
structure Without (c : Covariance α) (k : Nat) (d : Covariance α) : Prop where
  rows : d.rows + 1 = c.rows
  inverse (h : Symmetric α) (inverted : c.toMatrix.invert = .ok h) : ∃ rest : Symmetric α,
    rest.size = d.rows ∧
      (∀ a b, a < d.rows → b < d.rows → rest.element a b = h.element (skip k a) (skip k b)) ∧
      ((∃ m, rest.invert = .ok m ∧ d = ofMatrix m) ∨ ((∃ e, rest.invert = .error e) ∧
        d = ofMatrix (.ofDiagonal (rest.diagonal.map (1 / ·)))))
  variances {e : LinearError} (singular : c.toMatrix.invert = .error e) (a b : Nat)
    (row : a < d.rows) (col : b < d.rows) :
    d.element a b = if a = b then c.element (skip k a) (skip k a) else 0

theorem squeezeWithout {c : Covariance α} {k : Nat} (inside : k < c.rows) :
    c.Without k (c.squeeze k) := by
  rw [squeeze]
  cases inverted : c.toMatrix.invert with
  | error e =>
    have size := Symmetric.keptSize inside
    have rows : (c.variancesWithout k).rows = ((Array.range c.rows).filter (· != k)).size :=
      Array.size_map ..
    refine ⟨by rw [rows, size], fun h other => ?_, fun _ a b row col => ?_⟩
    · rw [inverted] at other
      cases other
    · rw [rows] at row col
      refine (elementOfMatrix _ a b).trans ?_
      refine (Symmetric.elementDiagonal ((Array.size_map ..).symm ▸ row)
        ((Array.size_map ..).symm ▸ col)).trans ?_
      rw [entryOfPlaces _ row, Symmetric.keptPlace inside (by omega)]
  | ok h =>
    have same : h.size = c.rows := Symmetric.sizeInvert inverted
    have within : k < h.size := same.symm ▸ inside
    have size := Symmetric.squeezeSize within
    have rest {d : Covariance α} (rows : d.rows = (h.squeeze k).size)
        (made : (∃ m, (h.squeeze k).invert = .ok m ∧ d = ofMatrix m) ∨
          ((∃ e, (h.squeeze k).invert = .error e) ∧
            d = ofMatrix (.ofDiagonal ((h.squeeze k).diagonal.map (1 / ·))))) : c.Without k d := by
      refine ⟨by omega, fun h' again => ?_, fun other => ?_⟩
      · cases inverted.symm.trans again
        refine ⟨h.squeeze k, rows.symm, fun a b row col => ?_, made⟩
        exact Symmetric.squeezeElement within (by omega) (by omega)
      · rw [inverted] at other
        cases other
    dsimp only
    cases again : (h.squeeze k).invert with
    | ok m => exact rest (Symmetric.sizeInvert again) (.inl ⟨m, again, rfl⟩)
    | error e =>
      refine rest ?_ (.inr ⟨⟨e, again⟩, rfl⟩)
      exact (Array.size_map ..).trans (size_tabulate _ _)

end Covariance
end

namespace FitState

section
variable [Scalar α] {s t : FitState α}

/- What an action does to the covariance: it goes, it stays with the parameters that vary, or both
lose the same row. -/
inductive Keeps (s : FitState α) : Action α → FitState α → Prop where
  | dropped {a : Action α} {t : FitState α} (uncovered : t.hasCovariance = false) : Keeps s a t
  | kept {a : Action α} {t : FitState α} (other : ∀ p, a ≠ .fix p)
      (covered : t.hasCovariance = s.hasCovariance) (covariance : t.covariance = s.covariance)
      (inner : t.inner = s.inner) (free : t.space.free = s.space.free) : Keeps s a t
  | squeezed {p : Address} {i k : Nat} {t : FitState α} (known : s.space.indexOf p = .ok i)
      (coordinate : s.space.coordinate? i = some k) (covered : t.hasCovariance = s.hasCovariance)
      (covariance : t.covariance = s.covariance.squeeze k) (inner : t.inner = s.inner.squeeze k)
      (free : t.space.free = s.space.free.eraseIdx k) : Keeps s (.fix p) t

theorem pullInsideUncovered (s : FitState α) (i : Nat) (outside : α → Bool) (v : α)
    (uncovered : s.hasCovariance = false) : (s.pullInside i outside v).hasCovariance = false := by
  rw [pullInside]
  split <;> exact uncovered

theorem fixParts {p : Address} (done : s.fix p = .ok t) :
    ∃ i k, s.space.indexOf p = .ok i ∧ s.space.coordinate? i = some k ∧
      t.hasCovariance = s.hasCovariance ∧ t.space.free = s.space.free.eraseIdx k ∧
      (s.hasCovariance = true →
        t.covariance = s.covariance.squeeze k ∧ t.inner = s.inner.squeeze k) := by
  obtain ⟨i, known, done⟩ := okParts done
  obtain ⟨space, fixed, done⟩ := okParts done
  obtain ⟨j, place, fixed⟩ := okParts fixed
  obtain rfl : i = j := Except.ok.inj ((if_pos (Space.indexInside place)).symm.trans place)
  cases found : s.space.coordinate? i with
  | none =>
    rw [if_neg (Space.coordinateNone found)] at fixed
    cases fixed
  | some k =>
    obtain ⟨free, erased⟩ := Space.coordinateErased found
    rw [if_pos free] at fixed
    cases fixed
    rw [found] at done
    refine ⟨i, k, known, found, ?_⟩
    cases covered : s.hasCovariance with
    | false =>
      rw [covered] at done
      cases done
      exact ⟨rfl, erased, nofun⟩
    | true =>
      rw [covered] at done
      cases done
      exact ⟨rfl, erased, fun _ => ⟨rfl, rfl⟩⟩

theorem fixKeeps {p : Address} (done : s.fix p = .ok t) : s.Keeps (.fix p) t := by
  obtain ⟨i, k, known, coordinate, same, free, squeezed⟩ := fixParts done
  cases covered : s.hasCovariance with
  | false => exact .dropped (same.trans covered)
  | true =>
    obtain ⟨covariance, inner⟩ := squeezed covered
    exact .squeezed known coordinate same covariance inner free

theorem performKeeps {a : Action α} (done : s.perform a = .ok t) : s.Keeps a t := by
  have declared {space : Except (FitError α) (Space α)}
      (done : (s.declare space).map dropCovariance = .ok t) : t.hasCovariance = false := by
    cases space with
    | error e => cases done
    | ok space =>
      cases done
      rfl
  cases a with
  | add | addLimited => exact .dropped (declared done)
  | addConstant name value =>
    change Except.map _ (s.space.addConstant name value) = _ at done
    rw [Space.addConstant, Space.declare] at done
    split at done <;> cases done
    exact .kept (fun _ same => (by cases same)) rfl rfl rfl rfl
  | fix p => exact fixKeeps done
  | release p | removeLimits p =>
    obtain ⟨space, _, done⟩ := okParts done
    cases done
    exact .dropped rfl
  | setValue p v | setError p e =>
    obtain ⟨space, changed, done⟩ := okParts done
    obtain ⟨i, _, changed⟩ := okParts changed
    cases changed
    cases done
    exact .kept (fun _ same => (by cases same)) rfl rfl rfl rfl
  | setLimits p lower upper | setLower p lower | setUpper p upper =>
    obtain ⟨i, _, done⟩ := okParts done
    obtain ⟨space, _, done⟩ := okParts done
    cases done
    exact .dropped (pullInsideUncovered _ _ _ _ rfl)
  | setPrecision eps =>
    cases done
    exact .kept (fun _ same => (by cases same)) rfl rfl rfl rfl

end

section
variable [Spectral α] {s t : FitState α} {rows : List Nat}

/- Both covariances have a row for each parameter that varies, made for it. -/
structure Covers (s : FitState α) (rows : List Nat) : Prop where
  covariance : s.covariance.rows = s.space.dimension
  inner : s.inner.rows = s.space.dimension
  places : rows = s.space.free

omit [Spectral α] in
theorem Covers.same (covers : s.Covers rows) (covariance : t.covariance = s.covariance)
    (inner : t.inner = s.inner) (free : t.space.free = s.space.free) : t.Covers rows where
  covariance := by rw [covariance, Space.dimension, free, covers.covariance, Space.dimension]
  inner := by rw [inner, Space.dimension, free, covers.inner, Space.dimension]
  places := covers.places.trans free.symm

omit [Spectral α] in
theorem relabelOther {a : Action α} (other : ∀ p, a ≠ .fix p) : s.relabel rows a = rows := by
  cases a with
  | fix p => exact absurd rfl (other p)
  | _ => rfl

omit [Spectral α] in
theorem coordinateAt {i k : Nat} (found : s.space.coordinate? i = some k) :
    s.space.free[k]? = some i := by
  obtain ⟨inside, same, _⟩ := List.findIdx?_eq_some_iff_getElem.mp found
  rw [List.getElem?_eq_getElem inside, eq_of_beq same]

omit [Spectral α] in
theorem coordinateInside {i k : Nat} (found : s.space.coordinate? i = some k) :
    k < s.space.dimension := (List.getElem?_eq_some_iff.mp (coordinateAt found)).1

theorem performCovers {a : Action α} (covers : s.hasCovariance = true → s.Covers rows)
    (done : s.perform a = .ok t) (covered : t.hasCovariance = true) :
    t.Covers (s.relabel rows a) := by
  cases performKeeps done with
  | dropped uncovered =>
    rw [uncovered] at covered
    cases covered
  | kept other same covariance inner free =>
    rw [relabelOther other]
    exact (covers (same ▸ covered)).same covariance inner free
  | @squeezed p i k _ known coordinate same covariance inner free =>
    have covers := covers (same ▸ covered)
    have inside := coordinateInside coordinate
    have size : t.space.dimension + 1 = s.space.dimension := by
      rw [Space.dimension, free, List.length_eraseIdx]
      exact (if_pos inside).symm ▸ Nat.succ_pred_eq_of_pos (Nat.zero_lt_of_lt inside)
    have rest := (Covariance.squeezeWithout (covers.covariance.symm ▸ inside)).rows
    have restInner := (Covariance.squeezeWithout (covers.inner.symm ▸ inside)).rows
    refine ⟨?_, ?_, ?_⟩
    · rw [covers.covariance, ← covariance] at rest
      omega
    · rw [covers.inner, ← inner] at restInner
      omega
    · rw [relabel, known]
      change (s.space.coordinate? i).elim _ _ = _
      rw [coordinate, free, covers.places]
      rfl

theorem ofKnowledgeCovers {k : Knowledge α} {up : α} {space : Space α}
    (sized : k.error.isValid → k.Sized space.dimension)
    (covered : (ofKnowledge k up space).hasCovariance = true) :
    (ofKnowledge k up space).Covers space.free := by
  have moved := k.setParametersMoved up space
  rw [ofKnowledgeCovered] at covered
  have rows := (sized covered).error
  rw [ofKnowledge, if_pos covered]
  refine ⟨?_, ?_, moved.free.symm⟩
  · exact rows.trans moved.dimension.symm
  · exact rows.trans moved.dimension.symm

theorem Arises.covers (arises : s.Arises rows) (covered : s.hasCovariance = true) :
    s.Covers rows := by
  induction arises with
  | declared actions => cases covered
  | covered actions c made =>
    obtain ⟨size, t, moved, rfl⟩ := ofCovarianceParts made
    have same := size.trans moved.dimension.symm
    exact ⟨same, same, rfl⟩
  | acted a _ done ih => exact performCovers ih done covered
  | @minimized f g rows maxCalls tolerance min t u _ done ih =>
    have leaves := (minimizeLeaves f maxCalls tolerance).answer t
    rw [done] at leaves
    obtain ⟨same, holds⟩ := leaves g min rfl
    rw [same] at covered ⊢
    rw [← holds.moved.free]
    refine ofKnowledgeCovers (fun valid => ?_) covered
    exact holds.moved.dimension ▸ holds.last valid
  | @scanned f g rows p steps low high samples t u _ done ih =>
    have shifts := (scanShifts f p steps low high).answer t
    rw [done] at shifts
    obtain same | ⟨i, v, same⟩ := shifts g samples rfl
    · exact same ▸ ih (same ▸ covered)
    · rw [same] at covered ⊢
      exact (ih covered).same rfl rfl rfl

/- The covariances of a fit, where it has them, fit the parameters that vary: row after row, as many
and made for the same parameters. Fixing one takes out its row and keeps the order of the others. -/
theorem covarianceFits (arises : s.Arises rows) (covered : s.hasCovariance = true) :
    let n := s.space.dimension
    s.covariance.rows = n ∧ s.inner.rows = n ∧
      s.covariance.data.size = n * (n + 1) / 2 ∧ s.inner.data.size = n * (n + 1) / 2 ∧
      rows = s.space.free ∧
      ∀ p t, s.fix p = .ok t → ∃ i k, s.space.indexOf p = .ok i ∧ s.space.free[k]? = some i ∧
        t.hasCovariance = true ∧ s.covariance.Without k t.covariance ∧
        s.inner.Without k t.inner ∧ ∀ a, t.space.free[a]? = s.space.free[skip k a]? := by
  intro n
  have covers := arises.covers covered
  refine ⟨covers.covariance, covers.inner, ?_, ?_, covers.places, fun p t done => ?_⟩
  · rw [s.covariance.packed, covers.covariance, Triangle.cells]
  · rw [s.inner.packed, covers.inner, Triangle.cells]
  · obtain ⟨i, k, known, coordinate, same, free, squeezed⟩ := fixParts done
    obtain ⟨covariance, inner⟩ := squeezed covered
    have inside := coordinateInside coordinate
    refine ⟨i, k, known, coordinateAt coordinate, same.trans covered, ?_, ?_, fun a => free ▸ eraseSkips _ k a⟩
    · exact covariance ▸ Covariance.squeezeWithout (covers.covariance.symm ▸ inside)
    · exact inner ▸ Covariance.squeezeWithout (covers.inner.symm ▸ inside)

/- Two parameters with a covariance of the user; the first of them is fixed. -/
theorem covarianceFitsPair :
    let space := Space.empty.run [Action.add "x" (0 : ℝ) 1, .add "y" 0 1]
    let c := Covariance.ofMatrix (Symmetric.identity 2)
    ∃ s, ofCovariance space c = .ok s ∧ s.Arises [0, 1] ∧ s.hasCovariance = true ∧
      s.covariance.rows = 2 ∧ s.covariance.data.size = 3 ∧
      ∃ t, s.fix (.name "x") = .ok t ∧ s.covariance.Without 0 t.covariance ∧
        t.space.free = [1] := by
  intro space c
  have first : ¬ c.element 0 0 ≤ 0 := not_le.mpr one_pos
  have second : ¬ c.element 1 1 ≤ 0 := not_le.mpr one_pos
  let after := (space.setErrorAt 0 (Scalar.sqrt (c.element 0 0))).setErrorAt 1
    (Scalar.sqrt (c.element 1 1))
  let s : FitState ℝ :=
    { ofSpace after with hasCovariance := true, covariance := c, inner := c.scale 0.5 }
  have made : ofCovariance space c = .ok s := by
    rw [ofCovariance, if_pos (show c.rows = space.dimension from rfl)]
    change (takeErrors c space 0 [0, 1] >>= _) = _
    rw [takeErrors, if_neg first, takeErrors, if_neg second]
    rfl
  have arises : s.Arises [0, 1] := .covered _ c made
  obtain ⟨rows, _, cells, _, _, fixing⟩ := covarianceFits arises rfl
  obtain ⟨t, done, rest⟩ : ∃ t, s.fix (.name "x") = .ok t ∧ t.space.free = [1] := ⟨_, rfl, rfl⟩
  obtain ⟨i, k, known, place, _, without, _⟩ := fixing (.name "x") t done
  cases known
  have here : [0, 1][k]? = some 0 := place
  have top : k = 0 := by
    rcases k with _ | _ | k
    · rfl
    · simp at here
    · simp at here
  have dimension : s.space.dimension = 2 := rfl
  rw [dimension] at cells
  exact ⟨s, made, arises, rfl, rows, cells, t, done, top ▸ without, rest⟩

end
end FitState
end ParamFit
