import ParamFit.Search.Scan
import ParamFit.Proofs.Consistency

/-! What a search may do to the declarations: give other values and errors to the parameters that
vary. Everything else is as it was before, and so are the external values at given coordinates. -/
namespace ParamFit
variable {α : Type} [Scalar α]

namespace Space

theorem parameterUpdate (s : Space α) (i j : Nat) (f : Parameter α → Parameter α) :
    (s.update i f).parameterAt j =
      if i = j ∧ j < s.parameters.size then f (s.parameterAt j) else s.parameterAt j := by
  simp only [parameterAt, update, Array.getD_eq_getD_getElem?, Array.getElem?_modify]
  by_cases same : i = j
  · by_cases inside : j < s.parameters.size
    · simp [same, inside]
    · simp [same, inside]
  · simp [same]

theorem parameterHere {s : Space α} {i : Nat} (inside : i < s.parameters.size)
    (f : Parameter α → Parameter α) : (s.update i f).parameterAt i = f (s.parameterAt i) := by
  rw [parameterUpdate, if_pos ⟨rfl, inside⟩]

theorem parameterOther {s : Space α} {i j : Nat} (other : i ≠ j) (f : Parameter α → Parameter α) :
    (s.update i f).parameterAt j = s.parameterAt j := by
  rw [parameterUpdate, if_neg fun both => other both.1]

omit [Scalar α] in
theorem updateOther {s : Space α} {i j : Nat} (other : i ≠ j) (f : Parameter α → Parameter α) :
    (s.update i f).parameters[j]? = s.parameters[j]? := by
  rw [update, Array.getElem?_modify, if_neg other]

theorem lowerUpdate {s : Space α} {i j : Nat} {f : Parameter α → Parameter α}
    (keeps : ∀ p, (f p).lower = p.lower) :
    ((s.update i f).parameterAt j).lower = (s.parameterAt j).lower := by
  rw [parameterUpdate]
  split
  · exact keeps _
  · rfl

theorem upperUpdate {s : Space α} {i j : Nat} {f : Parameter α → Parameter α}
    (keeps : ∀ p, (f p).upper = p.upper) :
    ((s.update i f).parameterAt j).upper = (s.parameterAt j).upper := by
  rw [parameterUpdate]
  split
  · exact keeps _
  · rfl

/- The same declarations, in which only parameters that vary have other values and errors. What was
consistent before is so afterwards. -/
structure Moved (s t : Space α) : Prop where
  consistent : s.Consistent → t.Consistent
  precision : t.precision = s.precision
  free : t.free = s.free
  names : t.names = s.names
  size : t.parameters.size = s.parameters.size
  cells : t.values.size = s.values.size
  kept : ∀ i, i ∉ s.free → t.parameters[i]? = s.parameters[i]?
  cached : ∀ i, i ∉ s.free → t.values[i]? = s.values[i]?
  lower : ∀ i, (t.parameterAt i).lower = (s.parameterAt i).lower
  upper : ∀ i, (t.parameterAt i).upper = (s.parameterAt i).upper

namespace Moved
variable {s t u : Space α}

theorem refl (s : Space α) : s.Moved s :=
  ⟨id, rfl, rfl, rfl, rfl, rfl, fun _ _ => rfl, fun _ _ => rfl, fun _ => rfl, fun _ => rfl⟩

theorem trans (first : s.Moved t) (second : t.Moved u) : s.Moved u where
  consistent := second.consistent ∘ first.consistent
  precision := second.precision.trans first.precision
  free := second.free.trans first.free
  names := second.names.trans first.names
  size := second.size.trans first.size
  cells := second.cells.trans first.cells
  kept i fixed := (second.kept i (first.free ▸ fixed)).trans (first.kept i fixed)
  cached i fixed := (second.cached i (first.free ▸ fixed)).trans (first.cached i fixed)
  lower i := (second.lower i).trans (first.lower i)
  upper i := (second.upper i).trans (first.upper i)

theorem limits (moved : s.Moved t) (i : Nat) :
    (t.parameterAt i).limits = (s.parameterAt i).limits := by
  rw [Parameter.limits, Parameter.limits, moved.lower i, moved.upper i]

theorem dimension (moved : s.Moved t) : t.dimension = s.dimension :=
  congrArg List.length moved.free

theorem setErrorAt {i : Nat} (free : i ∈ s.free) (error : α) : s.Moved (s.setErrorAt i error) := by
  have other {j : Nat} (fixed : j ∉ s.free) : i ≠ j := fun same => fixed (same ▸ free)
  refine ⟨fun consistent => consistent.setErrorAt i error, rfl, rfl, rfl, Array.size_modify .., rfl,
    fun j fixed => ?_, fun _ _ => rfl, fun j => ?_, fun j => ?_⟩
  · exact updateOther (other fixed) _
  · exact lowerUpdate fun _ => rfl
  · exact upperUpdate fun _ => rfl

theorem setValueAt {i : Nat} (free : i ∈ s.free) (value : α) : s.Moved (s.setValueAt i value) := by
  have other {j : Nat} (fixed : j ∉ s.free) : i ≠ j := fun same => fixed (same ▸ free)
  refine ⟨fun consistent => consistent.setValueAt i value, rfl, rfl, rfl, Array.size_modify ..,
    Array.size_setIfInBounds .., fun j fixed => ?_, fun j fixed => ?_, fun j => ?_, fun j => ?_⟩
  · exact updateOther (other fixed) _
  · exact Array.getElem?_setIfInBounds_ne (other fixed)
  · exact lowerUpdate (i := i) (f := (·.setValue value)) fun _ => rfl
  · exact upperUpdate (i := i) (f := (·.setValue value)) fun _ => rfl

end Moved
end Space

theorem Knowledge.setParametersMoved (k : Knowledge α) (up : α) (space : Space α) :
    space.Moved (k.setParameters up space) := by
  have fold (l : List (Nat × Nat)) (s : Space α) (moved : space.Moved s)
      (free : ∀ p ∈ l, p.1 ∈ space.free) (values errors : Nat → α) :
      space.Moved (l.foldl (fun s p =>
        (s.setValueAt p.1 (values p.2)).setErrorAt p.1 (errors p.2)) s) := by
    induction l generalizing s with
    | nil => exact moved
    | cons p l ih =>
      have here : p.1 ∈ s.free := moved.free ▸ free p (.head _)
      have set := (Space.Moved.setValueAt here (values p.2)).trans
        (Space.Moved.setErrorAt (s := s.setValueAt p.1 (values p.2)) here (errors p.2))
      exact ih _ (moved.trans set) fun q among => free q (.tail _ among)
  exact fold _ _ (.refl _) (fun p among => List.fst_mem_of_mem_zipIdx among)
    (fun i => space.toExternal i (entry k.point.x i))
    fun i => space.externalError i (entry k.point.x i) (k.internalError up i)

theorem FitState.ofKnowledgeCovered (k : Knowledge α) (up : α) (space : Space α) :
    (ofKnowledge k up space).hasCovariance = k.error.isValid := by
  rw [ofKnowledge]
  split
  case isTrue valid => exact valid.symm
  case isFalse other => exact (Bool.eq_false_of_not_eq_true other).symm

theorem Minimum.stateMoved (min : Minimum α) : min.seed.space.Moved min.state.space := by
  rw [Minimum.state, FitState.ofKnowledge]
  split <;> exact min.last.setParametersMoved _ _

/-! ### External values -/

namespace Space

theorem sizeInternal (s : Space α) : s.internal.size = s.dimension := by simp [internal, dimension]

/- The external values are written one by one over those that are declared. -/
def write (limits : Nat → Limits α) (l : List (Nat × α)) (values : Array α) : Array α :=
  l.foldl (fun values (i, v) => values.setIfInBounds i ((limits i).toExternal v)) values

theorem externalWrite (s : Space α) (x : Array α) :
    s.external x = write (fun i => (s.parameterAt i).limits) (s.free.zip x.toList) s.values := rfl

variable (limits : Nat → Limits α)

theorem writeSize (l : List (Nat × α)) (values : Array α) :
    (write limits l values).size = values.size := by
  induction l generalizing values with
  | nil => rfl
  | cons p l ih => exact (ih _).trans (Array.size_setIfInBounds ..)

theorem writeOther {l : List (Nat × α)} {j : Nat} (other : ∀ p ∈ l, p.1 ≠ j) (values : Array α) :
    (write limits l values)[j]? = values[j]? := by
  induction l generalizing values with
  | nil => rfl
  | cons p l ih =>
    refine (ih (fun q among => other q (.tail _ among)) _).trans ?_
    exact Array.getElem?_setIfInBounds_ne (other p (.head _))

/- What is found at a place that was written, or already held a value of the form, has it. -/
theorem writeForm {l : List (Nat × α)} {j : Nat} {values : Array α} (inside : j < values.size)
    (has : (∃ p ∈ l, p.1 = j) ∨ ∃ v, values[j]? = some ((limits j).toExternal v)) :
    ∃ v, (write limits l values)[j]? = some ((limits j).toExternal v) := by
  induction l generalizing values with
  | nil => exact has.resolve_left fun ⟨_, among, _⟩ => nomatch among
  | cons p l ih =>
    refine ih (by rwa [Array.size_setIfInBounds]) ?_
    by_cases here : p.1 = j
    · subst here
      exact .inr ⟨p.2, Array.getElem?_setIfInBounds_self_of_lt inside⟩
    · rcases has with ⟨q, among, same⟩ | ⟨v, form⟩
      · rcases List.mem_cons.mp among with rfl | later
        · exact absurd same here
        · exact .inl ⟨q, later, same⟩
      · exact .inr ⟨v, (Array.getElem?_setIfInBounds_ne here).trans form⟩

theorem writeAt {l : List (Nat × α)} (once : (l.map Prod.fst).Nodup) {j : Nat} {v : α}
    (among : (j, v) ∈ l) {values : Array α} (inside : j < values.size) :
    (write limits l values)[j]? = some ((limits j).toExternal v) := by
  induction l generalizing values with
  | nil => cases among
  | cons p l ih =>
    rw [List.map_cons, List.nodup_cons] at once
    rcases List.mem_cons.mp among with rfl | later
    · have other (q : Nat × α) (after : q ∈ l) : q.1 ≠ j := fun same =>
        once.1 (List.mem_map.mpr ⟨q, after, same⟩)
      refine (writeOther limits other _).trans ?_
      exact Array.getElem?_setIfInBounds_self_of_lt inside
    · exact ih once.2 later (by rwa [Array.size_setIfInBounds])

/- What was there before does not matter where everything that differs is written. -/
theorem writeSame {l : List (Nat × α)} {a b : Array α} (size : a.size = b.size)
    (same : ∀ j, (∀ p ∈ l, p.1 ≠ j) → a[j]? = b[j]?) : write limits l a = write limits l b := by
  induction l generalizing a b with
  | nil => exact Array.ext_getElem? fun j => same j nofun
  | cons p l ih =>
    refine ih (by rw [Array.size_setIfInBounds, Array.size_setIfInBounds, size]) fun j later => ?_
    rw [Array.getElem?_setIfInBounds, Array.getElem?_setIfInBounds, size]
    split
    case isTrue => rfl
    case isFalse other => exact same j (List.forall_mem_cons.mpr ⟨other, later⟩)

variable {s t : Space α} {x : Array α}

theorem externalSize : (s.external x).size = s.values.size :=
  writeSize (fun i => (s.parameterAt i).limits) _ _

theorem externalKept {i : Nat} (fixed : i ∉ s.free) : (s.external x)[i]? = s.values[i]? := by
  refine writeOther (fun i => (s.parameterAt i).limits) (fun p among same => fixed ?_) _
  exact same ▸ (List.of_mem_zip among).1

omit [Scalar α] in
theorem zipWhole {i : Nat} (full : s.dimension ≤ x.size) (free : i ∈ s.free) :
    ∃ p ∈ s.free.zip x.toList, p.1 = i := by
  obtain ⟨k, inside, rfl⟩ := List.mem_iff_getElem.mp free
  have long : k < x.toList.length := by
    rw [Array.length_toList]
    exact Nat.lt_of_lt_of_le inside full
  refine ⟨(s.free[k], x.toList[k]), ?_, rfl⟩
  rw [← List.getElem_zip (h := by rw [List.length_zip]; omega)]
  exact List.getElem_mem _

theorem externalFree {i : Nat} (full : s.dimension ≤ x.size) (free : i ∈ s.free)
    (inside : i < s.values.size) :
    ∃ v, (s.external x)[i]? = some ((s.parameterAt i).limits.toExternal v) :=
  writeForm (fun i => (s.parameterAt i).limits) inside (.inl (zipWhole full free))

/- Each coordinate is found at its place. -/
theorem externalPlaced {i k : Nat} (once : s.free.Nodup) (full : x.size = s.dimension)
    (placed : s.place? k = some i) (inside : i < s.values.size) :
    (s.external x)[i]? = some ((s.parameterAt i).limits.toExternal (entry x k)) := by
  obtain ⟨within, here⟩ := List.getElem?_eq_some_iff.mp placed
  have given : k < x.size := full ▸ within
  have single : ((s.free.zip x.toList).map Prod.fst).Nodup := by
    rwa [List.map_fst_zip (by rw [Array.length_toList, full, dimension])]
  have value : x.toList[k] = entry x k := by simp [entry, given]
  refine writeAt (fun i => (s.parameterAt i).limits) single ?_ inside
  rw [← here, ← value, ← List.getElem_zip (h := by rw [List.length_zip]; simp; omega)]
  exact List.getElem_mem _

/- With all coordinates given, it does not matter where the parameters that vary stand. -/
theorem Moved.external (moved : s.Moved t) (full : s.dimension ≤ x.size) :
    t.external x = s.external x := by
  have limits : (fun i => (t.parameterAt i).limits) = fun i => (s.parameterAt i).limits :=
    funext moved.limits
  rw [externalWrite, externalWrite, limits, moved.free]
  refine writeSame _ moved.cells fun j other => moved.cached j fun free => ?_
  obtain ⟨p, among, same⟩ := zipWhole full free
  exact other p among same

end Space
end ParamFit
