import ParamFit.Proofs.Fitting
import ParamFit.Proofs.Varying

/-! The states that the parameters of a fit can be in: declared, with or without a covariance, changed
one action after the other, minimized and scanned, with any objective, algorithm and settings. The
places that the rows of the covariance were made for are kept beside the state: those that vary where a
covariance is given or found, without the one that a fix takes out. Nothing is asked of the numbers. -/
namespace ParamFit
variable {α : Type}

namespace Space
variable {s t : Space α}

theorem coordinateErased {i k : Nat} (found : s.coordinate? i = some k) :
    i ∈ s.free ∧ s.free.erase i = s.free.eraseIdx k := by
  obtain ⟨inside, same, _⟩ := List.findIdx?_eq_some_iff_getElem.mp found
  refine ⟨eq_of_beq same ▸ List.getElem_mem inside, ?_⟩
  have place : s.free.idxOf? i = some k := found
  rw [List.erase_eq_eraseIdx, place]

theorem coordinateNone {i : Nat} (missing : s.coordinate? i = none) : i ∉ s.free := fun free => by
  have other := List.findIdx?_eq_none_iff.mp missing i free
  simp at other

theorem indexInside {i j : Nat} (known : s.indexOf (.index i) = .ok j) : i < s.parameters.size := by
  rw [indexOf] at known
  split at known
  case isTrue inside => exact inside
  case isFalse => cases known

theorem Named.indexAgain (named : s.Named) {p : Address} {i : Nat} (known : s.indexOf p = .ok i) :
    s.indexOf (.index i) = .ok i := by
  obtain ⟨_, here⟩ := named.indexOf known
  exact if_pos (Array.getElem?_eq_some_iff.mp here).1

theorem Named.kept (named : s.Named) (names : t.names = s.names)
    (size : t.parameters.size = s.parameters.size) : t.Named := by
  intro e among
  rw [size]
  exact named e (names ▸ among)

theorem Named.update (named : s.Named) (i : Nat) (f : Parameter α → Parameter α) :
    (s.update i f).Named := named.kept rfl (Array.size_modify ..)

variable [Scalar α]

theorem Named.perform (named : s.Named) {a : Action α} (done : s.perform a = .ok t) : t.Named := by
  cases performTurns done with
  | adds p number => exact named.append number
  | changes i f => exact named.update i f
  | moves i v => exact named.update i (·.setValue v)
  | fixes i => exact named.update i Parameter.fix
  | releases i => exact named.update i Parameter.release
  | tunes eps => exact named

end Space

namespace FitState

section
variable [Scalar α]

/- The rows after an action: a fix takes out the one of the parameter that no longer varies. -/
def relabel (s : FitState α) (rows : List Nat) : Action α → List Nat
  | .fix p => ((s.space.indexOf p).toOption.bind s.space.coordinate?).elim rows rows.eraseIdx
  | _ => rows

end

variable [Spectral α]

inductive Arises : FitState α → List Nat → Prop where
  | declared (actions : List (Action α)) : Arises (ofSpace (Space.empty.run actions)) []
  | covered {s : FitState α} (actions : List (Action α)) (c : Covariance α)
      (made : ofCovariance (Space.empty.run actions) c = .ok s) : Arises s s.space.free
  | acted {s t : FitState α} {rows : List Nat} (a : Action α) (arises : Arises s rows)
      (done : s.perform a = .ok t) : Arises t (s.relabel rows a)
  | minimized {f g : Fit α} {rows : List Nat} {maxCalls : Nat} {tolerance : α} {min : Minimum α}
      {t u : Trace α} (arises : Arises f.state rows)
      (done : (f.minimizeWith maxCalls tolerance).run t = (.ok (g, min), u)) :
      Arises g.state f.state.space.free
  | scanned {f g : Fit α} {rows : List Nat} {p : Address} {steps : Nat} {low high : α}
      {samples : List (Sample α)} {t u : Trace α} (arises : Arises f.state rows)
      (done : (f.scan p steps low high).run t = (.ok (g, samples), u)) : Arises g.state rows

/-! ### Names lead to declared places -/

section
variable {β : Type} [Scalar β]

/- What an action leaves of the declarations: what it, or the same one on the place that it addresses,
leaves of them alone; then it may move a value inside limits. -/
def Performs (s t : FitState β) : Prop :=
  ∃ b space, s.space.perform b = .ok space ∧
    (t.space = space ∨ ∃ i v, t.space = space.setValueAt i v)

namespace Performs
variable {s t : FitState β} {b : Action β} {space : Space β}

theorem alone (moved : s.space.perform b = .ok t.space) : s.Performs t :=
  ⟨b, t.space, moved, .inl rfl⟩

theorem pulled (moved : s.space.perform b = .ok space) (i : Nat) (outside : β → Bool) (v : β) :
    s.Performs (({ s with space }.dropCovariance).pullInside i outside v) := by
  refine ⟨b, space, moved, ?_⟩
  rw [pullInside]
  split
  · exact .inr ⟨i, v, rfl⟩
  · exact .inl rfl

theorem declared (done : s.declare (s.space.perform b) = .ok t) : s.Performs t := by
  cases made : s.space.perform b with
  | error e =>
    rw [made] at done
    cases done
  | ok space =>
    rw [made] at done
    cases done
    exact alone made

theorem dropped (done : (s.declare (s.space.perform b)).map dropCovariance = .ok t) :
    s.Performs t := by
  cases made : s.declare (s.space.perform b) with
  | error e =>
    rw [made] at done
    cases done
  | ok u =>
    rw [made] at done
    cases done
    exact (declared made : s.Performs u)

theorem fixed {p : Address} (done : s.fix p = .ok t) : s.Performs t := by
  obtain ⟨i, _, done⟩ := okParts done
  obtain ⟨space, moved, done⟩ := okParts done
  refine ⟨.fix (.index i), space, moved, .inl ?_⟩
  split at done <;> cases done <;> rfl

end Performs

open Performs in
theorem performSpace {s t : FitState β} {a : Action β} (done : s.perform a = .ok t) :
    s.Performs t := by
  cases a with
  | add name value error => exact dropped (b := .add name value error) done
  | addLimited name value error lower upper =>
    exact dropped (b := .addLimited name value error lower upper) done
  | addConstant name value => exact declared (b := .addConstant name value) done
  | fix p => exact fixed done
  | setLimits p lower upper =>
    obtain ⟨i, _, done⟩ := okParts done
    obtain ⟨space, moved, done⟩ := okParts done
    cases done
    exact pulled (b := .setLimits (.index i) lower upper) moved ..
  | setLower p lower =>
    obtain ⟨i, _, done⟩ := okParts done
    obtain ⟨space, moved, done⟩ := okParts done
    cases done
    exact pulled (b := .setLower (.index i) lower) moved ..
  | setUpper p upper =>
    obtain ⟨i, _, done⟩ := okParts done
    obtain ⟨space, moved, done⟩ := okParts done
    cases done
    exact pulled (b := .setUpper (.index i) upper) moved ..
  | setPrecision eps =>
    cases done
    exact alone (b := .setPrecision eps) rfl
  | release p =>
    obtain ⟨space, moved, done⟩ := okParts done
    cases done
    exact alone (b := .release p) moved
  | setValue p v =>
    obtain ⟨space, moved, done⟩ := okParts done
    cases done
    exact alone (b := .setValue p v) moved
  | setError p e =>
    obtain ⟨space, moved, done⟩ := okParts done
    cases done
    exact alone (b := .setError p e) moved
  | removeLimits p =>
    obtain ⟨space, moved, done⟩ := okParts done
    cases done
    exact alone (b := .removeLimits p) moved

theorem performNamed {s t : FitState β} (named : s.space.Named) {a : Action β}
    (done : s.perform a = .ok t) : t.space.Named := by
  obtain ⟨b, space, moved, same | ⟨i, v, same⟩⟩ := performSpace done
  · exact same ▸ named.perform moved
  · exact same ▸ (named.perform moved).update i _

theorem takeErrorsMoved {c : Covariance β} {s t : Space β} {k : Nat} {places : List Nat}
    (free : ∀ i ∈ places, i ∈ s.free) (done : takeErrors c s k places = .ok t) : s.Moved t := by
  induction places generalizing s k with
  | nil =>
    cases done
    exact .refl _
  | cons place rest ih =>
    rw [takeErrors] at done
    split at done
    · cases done
    · have moved := Space.Moved.setErrorAt (free place (.head _)) (Scalar.sqrt (c.element k k))
      exact moved.trans (ih (fun i among => free i (.tail _ among)) done)

/- A covariance given by the user, with the errors on its diagonal. -/
theorem ofCovarianceParts {space : Space β} {c : Covariance β} {s : FitState β}
    (made : ofCovariance space c = .ok s) :
    c.rows = space.dimension ∧ ∃ t, space.Moved t ∧
      s = { ofSpace t with hasCovariance := true, covariance := c, inner := c.scale 0.5 } := by
  rw [ofCovariance] at made
  split at made
  case isFalse => cases made
  case isTrue fits =>
    obtain ⟨t, taken, same⟩ := okParts made
    cases same
    exact ⟨fits, t, takeErrorsMoved (fun _ => id) taken, rfl⟩

end

/- A state that a scan leaves: at most, the parameter that was scanned has another value. -/
def Shifted (s t : FitState α) : Prop :=
  t = s ∨ ∃ i v, t = { s with space := s.space.setValueAt i v }

theorem scanShifts (f : Fit α) (p : Address) (steps : Nat) (low high : α) :
    Gives (f.scan p steps low high) fun result =>
      ∀ g samples, result = .ok (g, samples) → Shifted f.state g.state := by
  unfold Fit.scan
  split
  · exact .pure nofun
  · refine .apart ?_
    refine .bindAny (givesAny _) fun start => ?_
    refine .bindAny (givesAny _) fun result => ?_
    split
    · exact .pure nofun
    · refine .counting fun calls => .pure ?_
      rintro _ _ ⟨⟩
      dsimp only
      split
      · exact .inr ⟨_, _, rfl⟩
      · exact .inl rfl

/- A minimization leaves the state of its result. -/
theorem minimizeLeaves (f : Fit α) (maxCalls : Nat) (tolerance : α) :
    Gives (f.minimizeWith maxCalls tolerance) fun result => ∀ g min, result = .ok (g, min) →
      g.state = min.state ∧ min.Holds f.state.space f.surface.Fits := by
  refine .ite (fun _ => .pure fun _ _ failed => (by cases failed)) fun _ => ?_
  refine .bind (.apart (f.searchFromFits _ tolerance)) fun min holds => .pure ?_
  rintro _ _ ⟨⟩
  exact ⟨rfl, holds⟩

theorem Arises.named {s : FitState α} {rows : List Nat} (arises : s.Arises rows) : s.space.Named := by
  induction arises with
  | declared actions => exact (Space.emptyTended.run actions).named
  | covered actions c made =>
    obtain ⟨_, t, moved, rfl⟩ := ofCovarianceParts made
    exact (Space.emptyTended.run actions).named.kept moved.names moved.size
  | acted a _ done ih => exact performNamed ih done
  | @minimized f g rows maxCalls tolerance min t u _ done ih =>
    have leaves := (minimizeLeaves f maxCalls tolerance).answer t
    rw [done] at leaves
    obtain ⟨same, holds⟩ := leaves g min rfl
    have moved := holds.moved.trans min.stateMoved
    rw [same]
    exact ih.kept moved.names moved.size
  | @scanned f g rows p steps low high samples t u _ done ih =>
    have shifts := (scanShifts f p steps low high).answer t
    rw [done] at shifts
    obtain same | ⟨i, v, same⟩ := shifts g samples rfl
    · exact same ▸ ih
    · exact same ▸ ih.update i _

end FitState
end ParamFit
