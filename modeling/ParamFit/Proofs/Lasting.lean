import ParamFit.Proofs.Arising
import ParamFit.Proofs.Hunting
import ParamFit.Proofs.Overstep

/-! What a search for a crossing leaves as it is. Between its trials it only puts the parameters that are
led at other values, and takes over what minimizations make of those that vary. What both leave alone is
so in the state of its crossing, however that came about: all limits are, and the error of a parameter
that does not vary. -/
namespace ParamFit
variable {α : Type}

section
variable [Scalar α]

namespace Space

/- What neither other values nor a search changes. -/
structure Lasting (K : Space α → Prop) : Prop where
  set {s : Space α} (holds : K s) (i : ℕ) (v : α) : K (s.setValueAt i v)
  moved {s t : Space α} (holds : K s) (moved : s.Moved t) : K t

/- Declarations with the same limits. -/
structure SameLimits (s t : Space α) : Prop where
  size : t.parameters.size = s.parameters.size
  lower : ∀ j, (t.parameterAt j).lower = (s.parameterAt j).lower
  upper : ∀ j, (t.parameterAt j).upper = (s.parameterAt j).upper

namespace SameLimits
variable {s t u : Space α} {i : ℕ} {f : Parameter α → Parameter α}

theorem refl (s : Space α) : s.SameLimits s := ⟨rfl, fun _ => rfl, fun _ => rfl⟩

theorem trans (first : s.SameLimits t) (second : t.SameLimits u) : s.SameLimits u where
  size := second.size.trans first.size
  lower j := (second.lower j).trans (first.lower j)
  upper j := (second.upper j).trans (first.upper j)

theorem moved (moved : s.Moved t) : s.SameLimits t := ⟨moved.size, moved.lower, moved.upper⟩

theorem update (s : Space α) (i : ℕ) (lower : ∀ p, (f p).lower = p.lower)
    (upper : ∀ p, (f p).upper = p.upper) : s.SameLimits (s.update i f) :=
  ⟨Array.size_modify .., fun _ => lowerUpdate lower, fun _ => upperUpdate upper⟩

theorem setValueAt (s : Space α) (i : ℕ) (value : α) : s.SameLimits (s.setValueAt i value) :=
  have same := update s i (f := (·.setValue value)) (fun _ => rfl) fun _ => rfl
  ⟨same.size, same.lower, same.upper⟩

theorem fix {p : Address} (fixed : s.fix p = .ok t) : s.SameLimits t := by
  obtain ⟨i, _, fixed⟩ := okParts fixed
  have same := update s i (f := Parameter.fix) (fun _ => rfl) fun _ => rfl
  split at fixed
  case isTrue =>
    cases fixed
    exact ⟨same.size, same.lower, same.upper⟩
  case isFalse => cases fixed

theorem limit (same : s.SameLimits t) (j : ℕ) (side : Side) :
    side.limit (t.parameterAt j) = side.limit (s.parameterAt j) := by
  cases side
  · exact same.lower j
  · exact same.upper j

theorem lasting (s : Space α) : Lasting s.SameLimits where
  set same i v := same.trans (.setValueAt _ i v)
  moved same further := same.trans (.moved further)

end SameLimits

theorem errorSet (s : Space α) (i j : ℕ) (v : α) :
    ((s.setValueAt i v).parameterAt j).error = (s.parameterAt j).error := by
  refine (congrArg Parameter.error (parameterUpdate s i j (·.setValue v))).trans ?_
  rw [apply_ite Parameter.error]
  exact ite_self _

/- Declarations in which a parameter no longer varies and has the error that it had. -/
structure Pinned (s : Space α) (i : ℕ) (t : Space α) : Prop where
  fixed : i ∉ t.free
  error : (t.parameterAt i).error = (s.parameterAt i).error

theorem Pinned.lasting (s : Space α) (i : ℕ) : Lasting (s.Pinned i) where
  set pinned j v := ⟨pinned.fixed, (errorSet _ j i v).trans pinned.error⟩
  moved pinned further :=
    ⟨further.free.symm ▸ pinned.fixed, further.parameterKept pinned.fixed ▸ pinned.error⟩

end Space

theorem FitState.fixSpace {s t : FitState α} {p : Address} (fixed : s.fix p = .ok t) :
    ∃ i, s.space.indexOf p = .ok i ∧ s.space.fix (.index i) = .ok t.space := by
  obtain ⟨i, here, fixed⟩ := okParts fixed
  obtain ⟨space, inner, fixed⟩ := okParts fixed
  refine ⟨i, here, ?_⟩
  split at fixed
  all_goals
    cases fixed
    exact inner

/-! ### The start of a search -/

namespace Surroundings
variable {s : Surroundings α} {side : Side} {i k : ℕ} {rise : α}

/- Moving the other parameters along sets values only. -/
theorem followKeeps {K : Space α → Prop} (holds : K s.state.space)
    (set : ∀ u j v, K u → K (u.setValueAt j v)) : K (s.follow side i k rise).space := by
  refine List.foldlRecOn (motive := fun t : FitState α => K t.space) _ _ holds fun t holds j _ => ?_
  split
  case isTrue => exact holds
  case isFalse => exact set _ _ _ holds

theorem besideLimits {t : FitState α} (put : s.beside side i k rise = .ok t) :
    s.state.space.SameLimits t.space := by
  have followed : s.state.space.SameLimits (s.follow side i k rise).space :=
    followKeeps (.refl _) fun u j v same => same.trans (.setValueAt u j v)
  obtain ⟨fixed, done, same⟩ := okParts put
  obtain ⟨j, -, inner⟩ := FitState.fixSpace done
  cases same
  exact (followed.trans (.fix inner)).trans (.setValueAt _ _ _)

end Surroundings
end

namespace Surroundings
variable {s : Surroundings ℝ} {i : ℕ} (consistent : s.state.space.Consistent)
  (varies : i ∈ s.state.space.free) (side : Side) (k : ℕ) (rise : ℝ)
include consistent varies

/- After the others were moved, the parameter that is led is fixed and put where the search starts. -/
theorem besideSpace : let followed := (s.follow side i k rise).space
    followed.Consistent ∧ i ∈ followed.free ∧ ∃ t, s.beside side i k rise = .ok t ∧
      t.space = { followed.update i Parameter.fix with free := followed.free.erase i }.setValueAt i
        (s.start side i) := by
  intro followed
  have sound : followed.Consistent := followKeeps consistent fun _ j v sound => sound.setValueAt j v
  have left : i ∈ followed.free := followKeeps (K := (i ∈ ·.free)) varies fun _ _ _ left => left
  obtain ⟨u, done, -, fixed⟩ := FitState.fixVarying sound left
  rw [Space.fixVarying sound left] at fixed
  refine ⟨sound, left, { u with space := u.space.setValueAt i (s.start side i) }, ?_, ?_⟩
  · rw [beside, done]
    rfl
  · exact congrArg (·.setValueAt i (s.start side i)) (Except.ok.inj fixed).symm

theorem besidePinned : ∃ t, s.beside side i k rise = .ok t ∧ s.state.space.Pinned i t.space := by
  obtain ⟨sound, left, t, put, space⟩ := besideSpace consistent varies side k rise
  have error : ((s.follow side i k rise).space.parameterAt i).error =
      (s.state.space.parameterAt i).error :=
    followKeeps (K := fun u => (u.parameterAt i).error = (s.state.space.parameterAt i).error) rfl
      fun u j v same => (u.errorSet j i v).trans same
  have fixed := Space.parameterHere (sound.within left) Parameter.fix
  have once : (s.follow side i k rise).space.free.Nodup := sound.ascending.imp Nat.ne_of_lt
  refine ⟨t, put, space ▸ once.not_mem_erase, ?_⟩
  rw [space, Space.errorSet]
  exact (congrArg Parameter.error fixed).trans error

end Surroundings

/-! ### Searches -/

/- The minimum that a stage knows. -/
def Stage.Knows (good : Minimum α → Prop) : Stage α → Prop
  | start => True
  | begun m => good m
  | climbing s _ | seeking s | sighted s | bracketed s _ => good s.latest

section
variable [Spectral α] {K : Space α → Prop} (lasting : Space.Lasting K)
include lasting

theorem Fit.setValueLasts {f g : Fit α} {p : Address} {a : α} (holds : K f.state.space)
    (done : f.perform (.setValue p a) = .ok g) : K g.state.space := by
  rw [perform, FitState.perform, Space.setValue] at done
  cases known : f.state.space.indexOf p with
  | error e =>
    rw [known] at done
    cases done
  | ok i =>
    rw [known] at done
    cases done
    exact lasting.set holds i a

namespace Hunt
variable {h : Hunt α} {f g : Fit α} {a : α}

theorem placeLasts (holds : K f.state.space) (put : h.place f a = .ok g) : K g.state.space := by
  rw [place] at put
  generalize h.line = line at put
  induction line generalizing f with
  | nil =>
    cases put
    exact holds
  | cons l line ih =>
    obtain ⟨placed, performed, put⟩ := okParts put
    exact ih (Fit.setValueLasts lasting holds performed) put

theorem Minimizes.lasts {m : Minimum α} {asked : Trace α} (holds : K f.state.space)
    (minimizes : h.Minimizes f a g m asked) : g.state = m.state ∧ K m.state.space := by
  obtain ⟨placed, put, run⟩ := minimizes
  have leaves := (FitState.minimizeLeaves placed h.maxCalls h.tolerance).answer {}
  rw [run] at leaves
  obtain ⟨same, moved⟩ := leaves g m rfl
  exact ⟨same, lasting.moved (placeLasts lasting holds put) (moved.moved.trans m.stateMoved)⟩

/- It holds of what is minimized next, and of the minimum that a crossing would be found with. -/
structure Carries (K : Space α → Prop) (stage : Stage α) (tr : Tracker α) (_ : Trace α) : Prop where
  next : K tr.fit.state.space
  latest : stage.Knows fun m => K m.state.space

theorem probeCarries {stage : Stage α} {next : Minimum α → Stage α} {limited : Bool}
    (base : K h.profile.state.space)
    (knows : ∀ m, K m.state.space → (next m).Knows fun m => K m.state.space) :
    Chase.Ensures (Carries K stage) (h.probe a limited) (fun m => Carries K (next m))
      fun c _ _ => K c.state.space := by
  refine probeEnsures (fun _ _ _ => base) (fun tr t g m u carries minimizes state v stops => ?_)
    fun tr t g m u carries minimizes _ => ?_
  · have holds := (minimizes.lasts lasting carries.next).2
    cases stops with
    | unsound => exact base
    | _ => exact holds
  · obtain ⟨same, holds⟩ := minimizes.lasts lasting carries.next
    exact ⟨same ▸ holds, knows m holds⟩

theorem movesCarry (base : K h.profile.state.space) :
    Approach.Keeps h (Carries K) fun c _ _ => K c.state.space where
  expects _ carries := ⟨carries.next, carries.latest⟩
  lost _ := base
  begins := probeCarries lasting base fun _ => id
  decided _ carries := carries.latest
  opens _ := probeCarries lasting base fun _ => id
  climbs _ _ _ := probeCarries lasting base fun _ => id
  risen _ carries := ⟨carries.next, carries.latest⟩
  arrives _ _ carries := carries.latest
  sights _ _ := probeCarries lasting base fun _ => id
  brackets _ carries := ⟨carries.next, carries.latest⟩
  replaces _ _ carries := ⟨carries.next, carries.latest⟩
  restarts _ _ _ carries := ⟨carries.next, carries.latest⟩
  crosses _ _ _ carries := carries.latest
  refines _ _ _ := probeCarries lasting base fun _ => id

end Hunt

theorem Profile.chaseLasts {p : Profile α} (holds : K p.state.space) (line : List (Lead α))
    (tolerance : α) (maxCalls : ℕ) (t : Trace α) :
    K ((p.chase line tolerance maxCalls).run t).1.1.state.space := by
  rcases p.chaseKeeps tolerance maxCalls t line with ⟨_, ended⟩ | ⟨limit, c, tr, u, _, ended, keeps⟩
  · rw [ended]
    exact holds
  · rw [ended]
    exact keeps _ _ (Hunt.movesCarry lasting holds) ⟨holds, trivial⟩

end
end ParamFit
