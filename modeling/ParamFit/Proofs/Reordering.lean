import ParamFit.Proofs.Bowl
import ParamFit.Proofs.Trials

/-! A line search over coordinates in another order. The order decides one number only: the multiple below
which nothing is tried. It is the smallest ratio of a coordinate to its step, except that a ratio of zero is
forgotten as soon as another one follows. So of two orders one search is the beginning of the other, and
both give back the same unless what the longer one tries after that is lower. -/
namespace ParamFit

/-! ### Coordinates in another order -/

namespace Vector

noncomputable def reorder {n : ℕ} (σ : Equiv.Perm (Fin n)) (x : Array ℝ) : Array ℝ :=
  Array.ofFn fun i => entry x (σ i)

variable {n : ℕ} (σ : Equiv.Perm (Fin n))

theorem sizeReorder (x : Array ℝ) : (reorder σ x).size = n := Array.size_ofFn

theorem entryReorder (x : Array ℝ) (i : Fin n) : entry (reorder σ x) i = entry x (σ i) := by
  simp [entry, reorder]

end Vector

noncomputable def Point.reorder {n : ℕ} (σ : Equiv.Perm (Fin n)) (p : Point ℝ) : Point ℝ :=
  { p with x := Vector.reorder σ p.x }

theorem Point.entryAlong {p : Point ℝ} {step : Array ℝ} (width : step.size = p.x.size) (t : ℝ) {i : ℕ}
    (inside : i < p.x.size) : entry (p.along step t) i = entry p.x i + entry step i * t := by
  have moved : i < step.size := width ▸ inside
  rw [along, Vector.entryAdd inside (by rw [Vector.sizeScale]; exact moved), Vector.scale,
    Vector.entryMap _ moved]

theorem Point.alongReorder {n : ℕ} (σ : Equiv.Perm (Fin n)) {p : Point ℝ} {step : Array ℝ}
    (size : p.x.size = n) (width : step.size = n) (t : ℝ) :
    (p.reorder σ).along (Vector.reorder σ step) t = Vector.reorder σ (p.along step t) := by
  have short : (p.reorder σ).x.size = n := Vector.sizeReorder σ p.x
  have same : (Vector.reorder σ step).size = (p.reorder σ).x.size :=
    (Vector.sizeReorder σ step).trans short.symm
  have whole : ((p.reorder σ).along (Vector.reorder σ step) t).size = n :=
    (Point.sizeAlong same t).trans short
  refine Vector.sameEntries (whole.trans (Vector.sizeReorder σ _).symm) fun i inside => ?_
  rw [whole] at inside
  let i : Fin n := ⟨i, inside⟩
  calc entry ((p.reorder σ).along (Vector.reorder σ step) t) i
      = entry (Vector.reorder σ p.x) i + entry (Vector.reorder σ step) i * t :=
        Point.entryAlong same t (inside.trans_eq short.symm)
    _ = entry p.x (σ i) + entry step (σ i) * t := by rw [Vector.entryReorder, Vector.entryReorder]
    _ = entry (p.along step t) (σ i) :=
        (Point.entryAlong (width.trans size.symm) t ((σ i).isLt.trans_eq size.symm)).symm
    _ = entry (Vector.reorder σ (p.along step t)) i := (Vector.entryReorder σ _ i).symm

namespace LineSearch

/-! ### The lowest so far -/

noncomputable def lower (f : ℝ → ℝ) (best : Sample ℝ) (x : ℝ) : Sample ℝ :=
  if f x < best.y then ⟨x, f x⟩ else best

theorem lowerBelow (f : ℝ → ℝ) (best : Sample ℝ) (x : ℝ) :
    (lower f best x).y ≤ best.y ∧ (lower f best x).y ≤ f x := by
  rw [lower]
  split
  case isTrue less => exact ⟨less.le, le_refl _⟩
  case isFalse more => exact ⟨le_refl _, not_lt.mp more⟩

theorem foldBelow (f : ℝ → ℝ) (best : Sample ℝ) (xs : List ℝ) :
    (xs.foldl (lower f) best).y ≤ best.y ∧ ∀ x ∈ xs, (xs.foldl (lower f) best).y ≤ f x := by
  induction xs generalizing best with
  | nil => exact ⟨le_refl _, nofun⟩
  | cons x xs ih =>
    obtain ⟨top, least⟩ := ih (lower f best x)
    obtain ⟨before, here⟩ := lowerBelow f best x
    exact ⟨top.trans before, List.forall_mem_cons.mpr ⟨top.trans here, least⟩⟩

theorem foldSame {f : ℝ → ℝ} {best : Sample ℝ} {xs : List ℝ} :
    xs.foldl (lower f) best = best ↔ ∀ x ∈ xs, best.y ≤ f x := by
  refine ⟨fun same x among => ?_, fun none => ?_⟩
  · have least := (foldBelow f best xs).2 x among
    rwa [same] at least
  · induction xs with
    | nil => rfl
    | cons x xs ih =>
      obtain ⟨here, rest⟩ := List.forall_mem_cons.mp none
      rw [List.foldl_cons, lower, if_neg (not_lt.mpr here), ih rest]

/- Of two lists that begin in the same way, the longer one gives the same unless something in it is lower. -/
theorem foldAgrees {f : ℝ → ℝ} {start : Sample ℝ} {xs ys : List ℝ} (begins : xs <+: ys) :
    xs.foldl (lower f) start = ys.foldl (lower f) start ↔
      (∀ x ∈ ys, (xs.foldl (lower f) start).y ≤ f x) ∧ ∀ x ∈ xs, (ys.foldl (lower f) start).y ≤ f x := by
  obtain ⟨more, rfl⟩ := begins
  refine ⟨fun same => ?_, fun ⟨above, _⟩ => ?_⟩
  · rw [same]
    exact ⟨(foldBelow f start _).2, fun x among => (foldBelow f start _).2 x (List.mem_append_left _ among)⟩
  · rw [List.foldl_append]
    exact (foldSame.mpr fun x among => above x (List.mem_append_right _ among)).symm

section
variable {f : ℝ → ℝ} {c : Course ℝ} {s : Progress ℝ} {x start : ℝ} {best best' : Sample ℝ}
  {seen xs ys : List ℝ}

theorem lowerTangent : (s.afterTangent ⟨x, f x⟩).best = lower f s.best x := by
  rw [Progress.afterTangent, Progress.note, lower]
  split <;> rfl

theorem lowerFollow (first : s.best.y ≤ s.first.y) :
    (s.follow c ⟨x, f x⟩).1.best = lower f s.best x := by
  rw [Progress.follow]
  split
  case isTrue worst =>
    rw [Progress.isWorst, Bool.and_eq_true, Bool.and_eq_true] at worst
    have above : s.first.y < f x := of_decide_eq_true worst.1.1
    exact (if_neg (not_lt.mpr (first.trans above.le))).symm
  case isFalse =>
    change (s.accept ⟨x, f x⟩).best = _
    rw [Progress.accept, lower]
    dsimp only
    rw [Progress.bestExchange]
    split <;> rfl

theorem Refines.folds (refines : Refines f c s x xs best) (remembers : Remembers f start seen s) :
    best = xs.foldl (lower f) s.best := by
  induction refines generalizing seen with
  | settled => rfl
  | last s x => exact lowerFollow remembers.first
  | next apart left rest ih =>
    rw [ih (remembers.follow c _), lowerFollow remembers.first]
    rfl

theorem Approaches.folds (approaches : Approaches f c s xs best) (remembers : Remembers f start seen s) :
    best = xs.foldl (lower f) s.best := by
  induction approaches generalizing seen with
  | reached => rfl
  | last => exact lowerTangent
  | @next s x xs best some flat left rest ih =>
    have tried := remembers.afterTangent x
    rw [ih ⟨tried.best, tried.first⟩, List.foldl_cons, ← lowerTangent]
    rfl
  | @bent s x xs best some bent rest =>
    have tried := remembers.afterTangent x
    rw [rest.folds ⟨tried.best, tried.first⟩, List.foldl_cons, ← lowerTangent]
    rfl

theorem Searches.folds (searches : Searches f c xs best) : best = xs.foldl (lower f) ⟨0, c.start⟩ := by
  obtain ⟨rest⟩ := searches
  rw [rest.folds (Remembers.begin f c)]
  rfl

/-! ### Another least multiple -/

/- Trials with three points do not look at it. -/
theorem Refines.same {a : ℝ} (refines : Refines f c s x xs best)
    (again : Refines f { c with least := a } s x ys best') : xs = ys := by
  induction refines generalizing ys with
  | settled s x settled =>
    cases again with
    | settled => rfl
    | last _ _ apart | next apart => exact absurd settled (Bool.eq_false_iff.mp apart)
  | last s x apart spent =>
    cases again with
    | settled _ _ settled => exact absurd settled (Bool.eq_false_iff.mp apart)
    | last => rfl
    | next _ left => exact absurd spent (not_le.mpr left)
  | next apart left rest ih =>
    cases again with
    | settled _ _ settled => exact absurd settled (Bool.eq_false_iff.mp apart)
    | last _ _ _ spent => exact absurd spent (not_le.mpr left)
    | next _ _ more => rw [ih more]

theorem tangentSooner {a : ℝ} (le : a ≤ c.least) (trial : s.tangentTrial? c = some x) :
    s.tangentTrial? { c with least := a } = some x := by
  have sooner {t : ℝ} {next : Option ℝ} (reached : (if t < c.least then none else next) = some x) :
      (if t < a then none else next) = some x := by
    split at reached
    case isTrue => cases reached
    case isFalse above => rwa [if_neg fun below => above (lt_of_lt_of_le below le)]
  exact sooner trial

/- A search that may go on for longer begins in the same way. -/
theorem Approaches.begins {a : ℝ} (le : a ≤ c.least) (approaches : Approaches f c s xs best)
    (longer : Approaches f { c with least := a } s ys best') : xs <+: ys := by
  induction approaches generalizing ys with
  | reached => exact List.nil_prefix
  | last trial flat spent =>
    have sooner := tangentSooner le trial
    cases longer with
    | reached _ ended => cases sooner.symm.trans ended
    | last again =>
      cases sooner.symm.trans again
      exact List.prefix_refl _
    | next again _ left =>
      cases sooner.symm.trans again
      exact absurd spent (not_le.mpr left)
    | bent again bent =>
      cases sooner.symm.trans again
      exact absurd flat (Bool.eq_false_iff.mp bent)
  | next trial flat left rest ih =>
    have sooner := tangentSooner le trial
    cases longer with
    | reached _ ended => cases sooner.symm.trans ended
    | last again _ spent =>
      cases sooner.symm.trans again
      exact absurd spent (not_le.mpr left)
    | next again _ _ more =>
      cases sooner.symm.trans again
      exact List.cons_prefix_cons.mpr ⟨rfl, ih more⟩
    | bent again bent =>
      cases sooner.symm.trans again
      exact absurd flat (Bool.eq_false_iff.mp bent)
  | bent trial bent rest =>
    have sooner := tangentSooner le trial
    cases longer with
    | reached _ ended => cases sooner.symm.trans ended
    | last again flat | next again flat =>
      cases sooner.symm.trans again
      exact absurd flat (Bool.eq_false_iff.mp bent)
    | bent again _ more =>
      cases sooner.symm.trans again
      rw [rest.same more]

theorem Searches.begins {a : ℝ} (le : a ≤ c.least) (searches : Searches f c xs best)
    (longer : Searches f { c with least := a } ys best') : xs <+: ys := by
  obtain ⟨rest⟩ := searches
  obtain ⟨more⟩ := longer
  exact List.cons_prefix_cons.mpr ⟨rfl, rest.begins le more⟩

/- Of two searches that differ in the least multiple, one is the beginning of the other. -/
theorem Searches.agree {a : ℝ} (searches : Searches f c xs best)
    (again : Searches f { c with least := a } ys best') : (xs <+: ys ∨ ys <+: xs) ∧
      (best = best' ↔ (∀ x ∈ ys, best.y ≤ f x) ∧ ∀ x ∈ xs, best'.y ≤ f x) := by
  have folds := again.folds
  change best' = ys.foldl (lower f) ⟨0, c.start⟩ at folds
  rw [searches.folds, folds]
  rcases le_total a c.least with less | more
  · have begins := searches.begins less again
    exact ⟨.inl begins, foldAgrees begins⟩
  · have begins : ys <+: xs := Searches.begins (c := { c with least := a }) more again searches
    exact ⟨.inr begins, eq_comm.trans ((foldAgrees begins).trans and_comm)⟩

theorem Searches.unique (searches : Searches f c xs best) (again : Searches f c ys best') :
    best = best' := by
  have forth : xs <+: ys := searches.begins (le_refl c.least) again
  have back : ys <+: xs := again.begins (le_refl c.least) searches
  rw [searches.folds, again.folds, forth.eq_of_length_le back.length_le]

end

/-! ### The smallest ratio -/

noncomputable def narrow (least : ℝ) (p : ℝ × ℝ) : ℝ :=
  if p.2 = 0 then least else if least = 0 ∨ |p.1 / p.2| < least then |p.1 / p.2| else least

noncomputable def paired (n : ℕ) (x step : Array ℝ) : List (ℝ × ℝ) :=
  List.ofFn fun i : Fin n => (entry x i, entry step i)

theorem smallestPaired {n : ℕ} {x step : Array ℝ} (size : x.size = n) (width : step.size = n) :
    smallestRatio x step = (paired n x step).foldl narrow 0 := by
  have pairs : x.toList.zip step.toList = paired n x step := by
    refine List.ext_getElem (by simp [paired, size, width]) fun i left right => ?_
    simp [paired, entry, size, width]
  have steps : (fun (least : ℝ) (p : ℝ × ℝ) => if p.2 == 0 then least else
      if least == 0 ∨ Scalar.abs (p.1 / p.2) < least then Scalar.abs (p.1 / p.2) else least) = narrow := by
    funext least p
    simp [narrow]
  rw [smallestRatio, pairs, ← steps]

theorem narrowMoved {p : ℝ × ℝ} (moves : p.2 ≠ 0) (least : ℝ) :
    narrow least p = if least = 0 then |p.1 / p.2| else Min.min |p.1 / p.2| least := by
  rw [narrow, if_neg moves]
  by_cases none : least = 0
  · rw [if_pos none, if_pos (.inl none)]
  · rw [if_neg none, min_def_lt]
    exact if_congr (or_iff_right none) rfl rfl

/- A ratio of zero is also what says that there is none yet. Two that are not zero can change places. -/
theorem narrowSwap {p q : ℝ × ℝ} (here : p.2 ≠ 0 → p.1 ≠ 0) (there : q.2 ≠ 0 → q.1 ≠ 0) (least : ℝ) :
    narrow (narrow least p) q = narrow (narrow least q) p := by
  have still {p : ℝ × ℝ} (held : p.2 = 0) (least : ℝ) : narrow least p = least := by rw [narrow, if_pos held]
  by_cases first : p.2 = 0
  · rw [still first, still first]
  by_cases second : q.2 = 0
  · rw [still second, still second]
  have ratio : |p.1 / p.2| ≠ 0 := abs_ne_zero.mpr (div_ne_zero (here first) first)
  have ratio' : |q.1 / q.2| ≠ 0 := abs_ne_zero.mpr (div_ne_zero (there second) second)
  simp only [narrowMoved first, narrowMoved second]
  by_cases none : least = 0
  · rw [if_pos none, if_pos none, if_neg ratio, if_neg ratio', min_comm]
  · have kept {a : ℝ} (some : a ≠ 0) : Min.min a least ≠ 0 := by
      rcases min_choice a least with same | same
      · rwa [same]
      · rwa [same]
    rw [if_neg none, if_neg none, if_neg (kept ratio), if_neg (kept ratio'), min_left_comm]

/- Where all ratios are small, so is the smallest. -/
theorem narrowSmall {eps : ℝ} {l : List (ℝ × ℝ)} (small : ∀ p ∈ l, p.2 ≠ 0 → |p.1 / p.2| ≤ eps) :
    0 ≤ l.foldl narrow 0 ∧ (l.foldl narrow 0 = 0 ∨ l.foldl narrow 0 ≤ eps) := by
  refine List.foldlRecOn (motive := fun least => 0 ≤ least ∧ (least = 0 ∨ least ≤ eps)) l narrow
    ⟨le_refl 0, .inl rfl⟩ fun least known p among => ?_
  rw [narrow]
  split
  case isTrue => exact known
  case isFalse moves =>
    split
    case isTrue => exact ⟨abs_nonneg _, .inr (small p among moves)⟩
    case isFalse => exact known

/-! ### Another order -/

section
variable {n : ℕ} (σ : Equiv.Perm (Fin n))

theorem pairedReorder (x step : Array ℝ) :
    (paired n (Vector.reorder σ x) (Vector.reorder σ step)).Perm (paired n x step) := by
  have same : paired n (Vector.reorder σ x) (Vector.reorder σ step) =
      List.ofFn ((fun i : Fin n => (entry x i, entry step i)) ∘ σ) := by
    refine congrArg List.ofFn (funext fun i => ?_)
    rw [Vector.entryReorder, Vector.entryReorder]
    rfl
  rw [same]
  exact Equiv.Perm.ofFn_comp_perm σ _

variable {x step : Array ℝ} (size : x.size = n) (width : step.size = n)
include size width

theorem smallestReorder (moves : ∀ i : Fin n, entry step i ≠ 0 → entry x i ≠ 0) :
    smallestRatio (Vector.reorder σ x) (Vector.reorder σ step) = smallestRatio x step := by
  rw [smallestPaired size width, smallestPaired (Vector.sizeReorder σ x) (Vector.sizeReorder σ step)]
  have perm := pairedReorder σ x step
  have away {p : ℝ × ℝ} (among : p ∈ paired n (Vector.reorder σ x) (Vector.reorder σ step)) :
      p.2 ≠ 0 → p.1 ≠ 0 := by
    obtain ⟨i, rfl⟩ := List.mem_ofFn.mp (perm.mem_iff.mp among)
    exact moves i
  exact perm.foldl_eq' (fun p here q there least => narrowSwap (away here) (away there) least) 0

theorem leastSmall {prec : Precision ℝ}
    (small : ∀ i : Fin n, entry step i ≠ 0 → |entry x i / entry step i| ≤ prec.eps) :
    leastMultiple prec x step = Max.max prec.eps 0 * prec.eps2 := by
  have among : ∀ p ∈ paired n x step, p.2 ≠ 0 → |p.1 / p.2| ≤ prec.eps := by
    intro p inside
    obtain ⟨i, rfl⟩ := List.mem_ofFn.mp inside
    exact small i
  obtain ⟨positive, few⟩ := narrowSmall among
  rw [leastMultiple, smallestPaired size width, Exact.abs, abs_of_nonneg positive]
  refine congrArg (· * prec.eps2) ?_
  split
  case isTrue below => exact (max_eq_left (positive.trans_lt below).le).symm
  case isFalse above =>
    rcases few with none | some
    · rw [none] at above ⊢
      exact (max_eq_right (not_lt.mp above)).symm
    · rw [le_antisymm some (not_lt.mp above)]
      exact (max_eq_left (positive.trans some)).symm

/- The least multiple is the same in every order where no coordinate that is moved is zero, and where all
of them are close to it. -/
theorem leastReorder {prec : Precision ℝ} (steady : (∀ i : Fin n, entry step i ≠ 0 → entry x i ≠ 0) ∨
      ∀ i : Fin n, entry step i ≠ 0 → |entry x i / entry step i| ≤ prec.eps) :
    leastMultiple prec (Vector.reorder σ x) (Vector.reorder σ step) = leastMultiple prec x step := by
  rcases steady with moves | small
  · rw [leastMultiple, leastMultiple, smallestReorder σ size width moves]
  · have again (i : Fin n) (moves : entry (Vector.reorder σ step) i ≠ 0) :
        |entry (Vector.reorder σ x) i / entry (Vector.reorder σ step) i| ≤ prec.eps := by
      rw [Vector.entryReorder] at moves ⊢
      rw [Vector.entryReorder]
      exact small (σ i) moves
    rw [leastSmall size width small, leastSmall (Vector.sizeReorder σ x) (Vector.sizeReorder σ step) again]

end
end LineSearch

namespace Surface

/- Two surfaces over `n` coordinates that differ in their order, and can be asked everywhere. -/
structure Reordered {n : ℕ} (σ : Equiv.Perm (Fin n)) (s s' : Surface ℝ) : Prop where
  worth : ∀ x : Array ℝ, x.size = n → s'.worth (Vector.reorder σ x) = s.worth x
  answers : ∀ x : Array ℝ, x.size = n → s.Answers x
  answers' : ∀ x : Array ℝ, x.size = n → s'.Answers x

theorem lineSearchTried {s : Surface ℝ} {p : Point ℝ} {step : Array ℝ} (width : step.size = p.x.size)
    (answers : ∀ x, s.Answers (p.along step x)) (slope : ℝ) (prec : Precision ℝ) (t : Trace ℝ) :
    ∃ best xs u, (s.lineSearch p step slope prec).run t = (best, u) ∧ u.sound = t.sound ∧
      u.values = t.values ++ (xs.map fun x => s.space.external (p.along step x)).toArray ∧
      LineSearch.Searches (fun x => s.worth (p.along step x)) (course p step slope prec) xs best := by
  obtain ⟨xs, best, searches, run⟩ := s.lineSearchEnds p step slope prec t
  obtain ⟨values, -, sound⟩ := s.afterAsked (p.along step) xs
    ((Eval.expect (p.x.size == step.size)).run t).2
  refine ⟨best, xs, _, run, Bool.eq_iff_iff.mpr (sound.trans ?_), values, searches⟩
  rw [Eval.soundExpect, width, beq_self_eq_true, Bool.and_true]
  exact and_iff_left fun x _ => answers x

/- A line search in two orders of the coordinates. One of them is the beginning of the other, and they give
back the same exactly if neither saw anything lower than what the other gives back. So it is where no
coordinate that is moved is zero, and where all of them are close to it. -/
theorem lineSearchReordered {n : ℕ} {σ : Equiv.Perm (Fin n)} {s s' : Surface ℝ}
    (reordered : Reordered σ s s') {p : Point ℝ} {step : Array ℝ} (size : p.x.size = n)
    (width : step.size = n) (slope : ℝ) (prec : Precision ℝ) (t t' : Trace ℝ) :
    ∃ best xs u best' xs' u', (s.lineSearch p step slope prec).run t = (best, u) ∧
      (s'.lineSearch (p.reorder σ) (Vector.reorder σ step) slope prec).run t' = (best', u') ∧
      (u.sound = t.sound ∧ u'.sound = t'.sound) ∧
      u.values = t.values ++ (xs.map fun x => s.space.external (p.along step x)).toArray ∧
      u'.values = t'.values ++
        (xs'.map fun x => s'.space.external (Vector.reorder σ (p.along step x))).toArray ∧
      (xs <+: xs' ∨ xs' <+: xs) ∧
      (best = best' ↔ (∀ x ∈ xs', best.y ≤ s.worth (p.along step x)) ∧
        ∀ x ∈ xs, best'.y ≤ s.worth (p.along step x)) ∧
      ((∀ i : Fin n, entry step i ≠ 0 → entry p.x i ≠ 0) ∨
        (∀ i : Fin n, entry step i ≠ 0 → |entry p.x i / entry step i| ≤ prec.eps) → best = best') := by
  have narrow : step.size = p.x.size := width.trans size.symm
  have short : (p.reorder σ).x.size = n := Vector.sizeReorder σ p.x
  have narrow' : (Vector.reorder σ step).size = (p.reorder σ).x.size :=
    (Vector.sizeReorder σ step).trans short.symm
  have moved (x : ℝ) := Point.alongReorder σ size width x
  have total (x : ℝ) : (p.along step x).size = n := (Point.sizeAlong narrow x).trans size
  obtain ⟨best, xs, u, run, sound, values, searches⟩ := lineSearchTried narrow
    (fun x => reordered.answers _ (total x)) slope prec t
  obtain ⟨best', xs', u', run', sound', values', again⟩ := lineSearchTried narrow'
    (fun x => reordered.answers' _ ((Point.sizeAlong narrow' x).trans short)) slope prec t'
  simp only [moved, reordered.worth _ (total _)] at values' again
  obtain ⟨begins, same⟩ := LineSearch.Searches.agree searches again
  refine ⟨best, xs, u, best', xs', u', run, run', ⟨sound, sound'⟩, values, values', begins, same,
    fun steady => ?_⟩
  have least := LineSearch.leastReorder σ size width steady
  have course : course (p.reorder σ) (Vector.reorder σ step) slope prec = course p step slope prec :=
    congrArg (LineSearch.Course.mk prec p.value slope) least
  rw [course] at again
  exact searches.unique again

/- A trough that bends at the diagonal, the same in both orders. -/
noncomputable def trough : Surface ℝ where
  objective :=
    { Objective.plain (fun x => (Min.min (entry x 0) (entry x 1) - 3.0) ^ 2) with reads := fun _ => 2 }
  errorDef := 1
  space := .numbered #[0, 1e8] #[1, 1] 2

theorem troughPlain : trough.Plain 2 := ⟨Space.numberedPlain _ _ _, fun _ _ => le_refl 2⟩

theorem troughWorth {x : Array ℝ} (size : x.size = 2) :
    trough.worth x = (Min.min (entry x 0) (entry x 1) - 3) ^ 2 := by
  have three : (3.0 : ℝ) = 3 := by norm_num
  rw [← three]
  exact troughPlain.worth size

theorem troughReordered : Reordered (Equiv.swap (0 : Fin 2) 1) trough trough where
  worth x size := by
    let σ := Equiv.swap (0 : Fin 2) 1
    have first : entry (Vector.reorder σ x) 0 = entry x 1 := Vector.entryReorder σ x 0
    have second : entry (Vector.reorder σ x) 1 = entry x 0 := Vector.entryReorder σ x 1
    rw [troughWorth (Vector.sizeReorder _ x), troughWorth size, first, second, min_comm]
  answers x size := troughPlain.answers size
  answers' x size := troughPlain.answers size

/- Away from zero both orders agree. -/
theorem lineSearchReorderedTrough :
    let σ := Equiv.swap (0 : Fin 2) 1
    let p : Point ℝ := .plain #[1, 2] 4
    let step : Array ℝ := #[1, 1]
    Reordered σ trough trough ∧ p.x.size = 2 ∧ step.size = 2 ∧
    (∀ i : Fin 2, entry step i ≠ 0 → entry p.x i ≠ 0) ∧
    ∃ best u u', (trough.lineSearch p step (-4) .machine).run? {} = some (best, u) ∧
      (trough.lineSearch (p.reorder σ) (Vector.reorder σ step) (-4) .machine).run? {} =
        some (best, u') := by
  intro σ p step
  have away (i : Fin 2) (_ : entry step i ≠ 0) : entry p.x i ≠ 0 := by
    fin_cases i
    · exact one_ne_zero
    · exact two_ne_zero
  have size : p.x.size = 2 := rfl
  have width : step.size = 2 := rfl
  obtain ⟨best, xs, u, best', xs', u', run, run', ⟨sound, sound'⟩, -, -, -, -, same⟩ :=
    lineSearchReordered troughReordered size width (-4) .machine {} {}
  rw [← same (.inl away)] at run'
  exact ⟨troughReordered, size, width, away, best, u, u', Eval.runAnswers.mpr ⟨run, sound⟩,
    Eval.runAnswers.mpr ⟨run', sound'⟩⟩

theorem troughAlong {p : Point ℝ} (size : p.x.size = 2) (low : Min.min (entry p.x 0) (entry p.x 1) = 0)
    (t : ℝ) : trough.worth (p.along #[1, 1] t) = (t - 3) ^ 2 := by
  have width : (#[1, 1] : Array ℝ).size = p.x.size := size.symm
  rw [troughWorth ((Point.sizeAlong width t).trans size), Point.entryAlong width t (by omega),
    Point.entryAlong width t (by omega)]
  change (Min.min (entry p.x 0 + 1 * t) (entry p.x 1 + 1 * t) - 3) ^ 2 = _
  rw [min_add_add_right, low, zero_add, one_mul]

/- The tangent at zero leads to the bottom, unless that is too near. -/
theorem troughEnds {c : LineSearch.Course ℝ} (start : c.start = 9) (slope : c.slope = -6) {xs : List ℝ}
    {best : Sample ℝ} (searches : LineSearch.Searches (fun t => (t - 3) ^ 2) c xs best) :
    best.y = if 3 < c.least then 4 else 0 := by
  have lowest := searches.lowest
  have whole : ((1 : ℝ) - 3) ^ 2 = 4 := by norm_num
  have tangent : (LineSearch.Progress.begin c 4).tangentTrial? c = if 3 < c.least then none else some 3 := by
    simp only [LineSearch.Progress.tangentTrial?, LineSearch.Progress.begin, start, slope]
    norm_num
  obtain ⟨rest⟩ := searches
  rw [whole] at rest
  split
  case isTrue near =>
    rw [if_pos near] at tangent
    cases rest with
    | reached =>
      rw [LineSearch.Progress.begin, start, if_pos (by norm_num)]
    | last trial | next trial | bent trial => cases tangent.symm.trans trial
  case isFalse far =>
    rw [if_neg far] at tangent
    have bottom : best.y ≤ ((3 : ℝ) - 3) ^ 2 := by
      cases rest with
      | reached _ ended => cases tangent.symm.trans ended
      | last trial | next trial | bent trial =>
        cases tangent.symm.trans trial
        exact lowest.least 3 (by simp)
    refine le_antisymm (bottom.trans_eq (by norm_num)) ?_
    rcases lowest.kept with same | ⟨-, value, -⟩
    · rw [same, start]
      norm_num
    · rw [value]
      exact sq_nonneg _

theorem troughSearch {p : Point ℝ} (size : p.x.size = 2) (low : Min.min (entry p.x 0) (entry p.x 1) = 0)
    (value : p.value = 9) : ∃ best u,
      (trough.lineSearch p #[1, 1] (-6) .machine).run {} = (best, u) ∧ u.sound ∧
        best.y = if 3 < LineSearch.leastMultiple .machine p.x #[1, 1] then 4 else 0 := by
  have width : (#[1, 1] : Array ℝ).size = p.x.size := size.symm
  obtain ⟨best, xs, u, run, sound, -, searches⟩ := lineSearchTried width
    (fun x => troughPlain.answers ((Point.sizeAlong width x).trans size)) (-6) .machine {}
  simp only [troughAlong size low] at searches
  exact ⟨best, u, run, sound, troughEnds value rfl searches⟩

theorem swapTwo (a b : ℝ) : Vector.reorder (Equiv.swap (0 : Fin 2) 1) #[a, b] = #[b, a] := by
  simp [Vector.reorder, entry, Array.ofFn_succ]

/- With a coordinate at zero, the search over the other order goes farther and finds the bottom. -/
theorem lineSearchDisordered :
    let σ := Equiv.swap (0 : Fin 2) 1
    let p : Point ℝ := .plain #[0, 100000000] 9
    Reordered σ trough trough ∧ p.value = trough.worth p.x ∧
    ∃ best u best' u', (trough.lineSearch p #[1, 1] (-6) .machine).run? {} = some (best, u) ∧
      (trough.lineSearch (p.reorder σ) (Vector.reorder σ #[1, 1]) (-6) .machine).run? {} =
        some (best', u') ∧ best.y = 4 ∧ best'.y = 0 := by
  intro σ p
  have swapped : (p.reorder σ).x = #[100000000, 0] := swapTwo 0 100000000
  have low : Min.min (entry p.x 0) (entry p.x 1) = 0 := min_eq_left (by norm_num [p, Point.plain, entry])
  have low' : Min.min (entry (p.reorder σ).x 0) (entry (p.reorder σ).x 1) = 0 := by
    rw [swapped]
    exact min_eq_right (by norm_num [entry])
  have known : p.value = trough.worth p.x := by
    rw [troughWorth rfl, low]
    norm_num [p, Point.plain]
  have least : LineSearch.leastMultiple .machine p.x #[1, 1] = 100000000 * 2⁻¹ ^ 24 := by
    rw [LineSearch.leastMultiple, machineEps, machineEps2]
    norm_num [LineSearch.smallestRatio, p, Point.plain]
  have least' : LineSearch.leastMultiple .machine (p.reorder σ).x #[1, 1] = 2⁻¹ ^ 50 * 2⁻¹ ^ 24 := by
    rw [swapped, LineSearch.leastMultiple, machineEps, machineEps2]
    norm_num [LineSearch.smallestRatio]
  rw [swapTwo]
  obtain ⟨best, u, run, sound, value⟩ := troughSearch (p := p) rfl low rfl
  obtain ⟨best', u', run', sound', value'⟩ :=
    troughSearch (p := p.reorder σ) (congrArg Array.size swapped) low' rfl
  refine ⟨troughReordered, known, best, u, best', u', Eval.runAnswers.mpr ⟨run, sound⟩,
    Eval.runAnswers.mpr ⟨run', sound'⟩, ?_, ?_⟩
  · rw [value, least, if_pos (by norm_num)]
  · rw [value', least', if_neg (by norm_num)]

end Surface
end ParamFit
