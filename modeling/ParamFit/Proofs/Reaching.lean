import ParamFit.Proofs.Moving

/-! The states a fit can begin from: declared, with or without a covariance, changed one action after
the other, or left by a search. Their declarations are consistent. -/
namespace ParamFit

/- Declarations made from values and errors are made one action after the other. -/
theorem Space.ofValuesRun {values errors : Array ℝ} {s : Space ℝ}
    (made : ofValues values errors = .ok s) : ∃ actions, s = empty.run actions := by
  have fold (places : List ℕ) (s t : Space ℝ)
      (made : places.foldlM (fun s i => s.add s!"p{i}" (entry values i) (entry errors i)) s = .ok t) :
      ∃ actions, t = s.run actions := by
    induction places generalizing s with
    | nil =>
      cases made
      exact ⟨[], rfl⟩
    | cons i rest ih =>
      rw [List.foldlM_cons] at made
      obtain ⟨u, added, made⟩ := okParts made
      obtain ⟨actions, rfl⟩ := ih u made
      refine ⟨.add s!"p{i}" (entry values i) (entry errors i) :: actions, ?_⟩
      rw [run, run, List.foldl_cons, step, perform, added]
      rfl
  rw [ofValues] at made
  split at made
  · exact fold _ _ _ made
  · cases made

namespace FitState

/- States that can be made from declarations. A search leaves what it knows at its last point. -/
inductive Reached : FitState ℝ → Prop where
  | declared (actions : List (Action ℝ)) : Reached (ofSpace (Space.empty.run actions))
  | covered {s : FitState ℝ} (actions : List (Action ℝ)) (c : Covariance ℝ)
      (made : ofCovariance (Space.empty.run actions) c = .ok s) : Reached s
  | acted {s t : FitState ℝ} (a : Action ℝ) (reached : Reached s) (done : s.perform a = .ok t) :
      Reached t
  | searched {s : FitState ℝ} (k : Knowledge ℝ) (up : ℝ) (reached : Reached s) :
      Reached (ofKnowledge k up s.space)

section
variable {α : Type} [Scalar α]

theorem ofKnowledgeSpace (k : Knowledge α) (up : α) (space : Space α) :
    (ofKnowledge k up space).space = k.setParameters up space := by
  rw [ofKnowledge]
  split <;> rfl

theorem takeErrorsConsistent {c : Covariance α} {s t : Space α} (consistent : s.Consistent) {k : Nat}
    {places : List Nat} (done : takeErrors c s k places = .ok t) : t.Consistent := by
  induction places generalizing s k with
  | nil =>
    cases done
    exact consistent
  | cons place rest ih =>
    rw [takeErrors] at done
    split at done
    · cases done
    · exact ih (consistent.setErrorAt _ _) done

theorem pullInsideConsistent {s : FitState α} (consistent : s.space.Consistent) (i : Nat)
    (outside : α → Bool) (value : α) : (s.pullInside i outside value).space.Consistent := by
  rw [pullInside]
  split
  · exact consistent.setValueAt _ _
  · exact consistent

variable {s t : FitState α} (consistent : s.space.Consistent)
include consistent

theorem declareConsistent {a : Action α} (comparable : a.Comparable) {f : FitState α → FitState α}
    (keeps : ∀ s : FitState α, (f s).space = s.space)
    (done : (s.declare (s.space.perform a)).map f = .ok t) : t.space.Consistent := by
  cases performed : s.space.perform a with
  | error e =>
    rw [performed] at done
    cases done
  | ok space =>
    rw [performed] at done
    cases done
    rw [keeps]
    exact consistent.perform comparable performed

/- An action that does to the declarations what it does to them alone, and then something else. -/
theorem laterConsistent {a : Action α} (comparable : a.Comparable) {f : Space α → FitState α}
    (keeps : ∀ space : Space α, space.Consistent → (f space).space.Consistent)
    (done : (s.space.perform a >>= fun space => .ok (f space)) = .ok t) : t.space.Consistent := by
  obtain ⟨space, performed, same⟩ := okParts done
  cases same
  exact keeps space (consistent.perform comparable performed)

theorem fixConsistent {p : Address} (done : s.fix p = .ok t) : t.space.Consistent := by
  obtain ⟨i, _, done⟩ := okParts done
  obtain ⟨space, fixed, done⟩ := okParts done
  have kept : space.Consistent := consistent.fix fixed
  split at done
  · cases done
    exact kept
  · cases done
    exact kept

theorem performConsistent {a : Action α} (comparable : a.Comparable)
    (done : s.perform a = .ok t) : t.space.Consistent := by
  cases a with
  | add name value error =>
    exact declareConsistent (f := dropCovariance) consistent (a := .add name value error) trivial
      (fun _ => rfl) done
  | addLimited name value error a b =>
    exact declareConsistent (f := dropCovariance) consistent (a := .addLimited name value error a b)
      comparable (fun _ => rfl) done
  | addConstant name value =>
    refine declareConsistent (f := id) consistent (a := .addConstant name value) trivial
      (fun _ => rfl) ?_
    rw [Except.map_id]
    exact done
  | fix p => exact fixConsistent consistent done
  | release p => exact laterConsistent consistent (a := .release p) trivial (fun _ => id) done
  | setValue p v => exact laterConsistent consistent (a := .setValue p v) trivial (fun _ => id) done
  | setError p e => exact laterConsistent consistent (a := .setError p e) trivial (fun _ => id) done
  | setLimits p a b =>
    obtain ⟨i, _, done⟩ := okParts done
    exact laterConsistent consistent (a := .setLimits (.index i) a b) comparable
      (fun _ kept => pullInsideConsistent kept _ _ _) done
  | setLower p lower =>
    obtain ⟨i, _, done⟩ := okParts done
    exact laterConsistent consistent (a := .setLower (.index i) lower) trivial
      (fun _ kept => pullInsideConsistent kept _ _ _) done
  | setUpper p upper =>
    obtain ⟨i, _, done⟩ := okParts done
    exact laterConsistent consistent (a := .setUpper (.index i) upper) trivial
      (fun _ kept => pullInsideConsistent kept _ _ _) done
  | removeLimits p =>
    exact laterConsistent consistent (a := .removeLimits p) trivial (fun _ => id) done
  | setPrecision eps =>
    cases done
    exact consistent.setPrecision eps

end

theorem Reached.ofValues {values errors : Array ℝ} {space : Space ℝ}
    (made : Space.ofValues values errors = .ok space) : Reached (ofSpace space) := by
  obtain ⟨actions, rfl⟩ := Space.ofValuesRun made
  exact .declared actions

theorem Reached.consistent {s : FitState ℝ} (reached : s.Reached) : s.space.Consistent := by
  have declared (actions : List (Action ℝ)) : (Space.empty.run actions).Consistent :=
    Space.emptyConsistent.run fun a _ => Space.comparableExact a
  induction reached with
  | declared actions => exact declared actions
  | covered actions c made =>
    rw [ofCovariance] at made
    split at made
    case isTrue =>
      obtain ⟨space, taken, same⟩ := okParts made
      cases same
      exact takeErrorsConsistent (declared actions) taken
    case isFalse => cases made
  | acted a _ done ih => exact performConsistent ih (Space.comparableExact a) done
  | searched k up _ ih =>
    rw [ofKnowledgeSpace]
    exact (k.setParametersMoved up _).consistent ih

end FitState
end ParamFit
