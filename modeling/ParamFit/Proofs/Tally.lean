import ParamFit.Proofs.Hunting

/-! What a search for a crossing spends. Its minimizations follow each other, each from the fit that the
last one left. There are at most seventeen; the calls of a crossing are theirs together, however it came
about, and nothing is asked besides. The secants that a search allows for are more than it can make. -/
namespace ParamFit
variable {α : Type} [Spectral α]

namespace Hunt

/- Minimizations that follow each other, the latest first, and all that they ask. -/
inductive Chain (h : Hunt α) (f : Fit α) : List (Trial α) → Fit α → Trace α → Prop where
  | none : Chain h f [] f {}
  | next {trials g asked a k m u} (earlier : Chain h f trials g asked)
      (minimizes : h.Minimizes g a k m u) :
      Chain h f (⟨a, m.value, m.calls⟩ :: trials) k (asked.append u)

/- All that was asked since `origin` was asked by the minimizations of a chain, which are counted. -/
structure Tallied (h : Hunt α) (f : Fit α) (origin : Trace α) (tr : Tracker α) (t : Trace α) : Prop where
  chain : ∃ asked, h.Chain f tr.trials tr.fit asked ∧ t.values = origin.values ++ asked.values ∧
    t.slopes = origin.slopes ++ asked.slopes
  calls : tr.calls = (tr.trials.map Trial.calls).sum

namespace Tallied
variable {h : Hunt α} {f g : Fit α} {origin t u : Trace α} {tr : Tracker α} {m : Minimum α} {a : α}

theorem nothing : h.Tallied f origin ⟨f, 0, []⟩ origin :=
  ⟨⟨{}, .none, by simp, by simp⟩, rfl⟩

theorem note (tallied : h.Tallied f origin tr t) (minimizes : h.Minimizes tr.fit a g m u) :
    h.Tallied f origin (tr.note g a m) (t.append u) := by
  obtain ⟨⟨asked, chain, values, slopes⟩, calls⟩ := tallied
  refine ⟨⟨asked.append u, .next chain minimizes, ?_, ?_⟩, ?_⟩
  · simp [Trace.append, values]
  · simp [Trace.append, slopes]
  · simp [Tracker.note, calls, Nat.add_comm]

end Tallied
end Hunt

/- How many trials were made before a stage. -/
def Stage.made : Stage α → ℕ
  | start => 0
  | begun _ => 1
  | climbing s _ | seeking s | sighted s | bracketed s _ => s.count + 1

namespace Hunt
variable {h : Hunt α} {f : Fit α} {origin : Trace α}

structure Counted (h : Hunt α) (f : Fit α) (origin : Trace α) (stage : Stage α) (tr : Tracker α)
    (t : Trace α) : Prop where
  tallied : h.Tallied f origin tr t
  made : tr.trials.length = stage.made
  few : stage.made ≤ Approach.maxCount + 2

structure Spent (h : Hunt α) (f : Fit α) (origin : Trace α) (c : Crossing α) (tr : Tracker α)
    (t : Trace α) : Prop where
  tallied : h.Tallied f origin tr t
  calls : c.calls = tr.calls
  few : tr.trials.length ≤ Approach.maxCount + 2

theorem Counted.spent {stage : Stage α} {tr : Tracker α} {t : Trace α} {c : Crossing α}
    (counted : h.Counted f origin stage tr t) (calls : c.calls = tr.calls) :
    h.Spent f origin c tr t := ⟨counted.tallied, calls, counted.made.trans_le counted.few⟩

theorem probeCounted {stage : Stage α} {next : Minimum α → Stage α} (a : α) (limited : Bool)
    (room : stage.made ≤ Approach.maxCount + 1) (one : ∀ m, (next m).made = stage.made + 1) :
    Chase.Ensures (h.Counted f origin stage) (h.probe a limited)
      (fun m => h.Counted f origin (next m)) (h.Spent f origin) := by
  refine probeEnsures (fun tr t counted => counted.spent rfl)
    (fun tr t g m u counted minimizes state v _ => ?_) fun tr t g m u counted minimizes _ => ?_
  · refine ⟨counted.tallied.note minimizes, rfl, ?_⟩
    simp only [Tracker.note, List.length_cons, counted.made]
    omega
  · refine ⟨counted.tallied.note minimizes, ?_, ?_⟩
    · simp [Tracker.note, counted.made, one]
    · rw [one]
      omega

/- Whatever a search does next, its trials are counted. -/
theorem movesCounted (h : Hunt α) (f : Fit α) (origin : Trace α) :
    Approach.Keeps h (h.Counted f origin) (h.Spent f origin) where
  expects _ counted := ⟨⟨counted.tallied.chain, counted.tallied.calls⟩, counted.made, counted.few⟩
  lost counted := counted.spent rfl
  begins := probeCounted _ _ (Nat.zero_le _) fun _ => rfl
  decided _ counted := counted.spent rfl
  opens _ := probeCounted _ _ (Nat.le_add_left _ _) fun _ => rfl
  climbs _ _ left := probeCounted _ _ (by simp only [Stage.made]; omega) fun _ => rfl
  risen _ counted := ⟨counted.tallied, counted.made, counted.few⟩
  arrives _ _ counted := counted.spent rfl
  sights _ left := probeCounted _ _ (by simp only [Stage.made]; omega) fun _ => rfl
  brackets _ counted := ⟨counted.tallied, counted.made, counted.few⟩
  replaces _ _ counted := ⟨counted.tallied, counted.made, counted.few⟩
  restarts _ _ _ counted := ⟨counted.tallied, counted.made, counted.few⟩
  crosses _ _ _ counted := counted.spent rfl
  refines _ _ less := probeCounted _ _ (by simp only [Stage.made]; omega) fun _ => rfl

end Hunt

/-! ### Secants -/

/- What follows a chase matters only at the answers that the chase can come to. -/
theorem Chase.sameBind {α β γ : Type} {m : Chase α β} {f g : β → Chase α γ} (answers : β → Prop)
    (ensures : Ensures (fun _ _ => True) m (fun b _ _ => answers b) fun _ _ _ => True)
    (same : ∀ b, answers b → f b = g b) : (m >>= f) = (m >>= g) := by
  funext tr t
  change ((m >>= f).run.run tr).run t = ((m >>= g).run.run tr).run t
  have known := ensures tr t trivial
  rw [runBind, runBind]
  generalize (m.run.run tr).run t = r at known
  obtain ⟨⟨_ | b, u⟩, v⟩ := r
  · rfl
  · dsimp only at known ⊢
    rw [same b known]

namespace Approach
variable {h : Hunt α}

theorem climbCounts (s : Approach α) (made fuel : ℕ) :
    Chase.Ensures (fun _ _ => True) (climb h s made fuel) (fun r _ _ => s.count ≤ r.count)
      fun _ _ _ => True := by
  induction fuel generalizing s made with
  | zero => exact .pure fun _ _ _ => le_refl _
  | succ fuel ih =>
    refine .bind (.anything _) fun m => .ite (fun _ => .pure fun _ _ _ => Nat.le_succ _) fun _ => ?_
    exact (ih _ _).weaken fun r _ _ more => (Nat.le_succ _).trans more

theorem ascendCounts (s : Approach α) :
    Chase.Ensures (fun _ _ => True) (ascend h s) (fun r _ _ => s.count ≤ r.count)
      fun _ _ _ => True := by
  refine .ite (fun _ => ?_) fun _ => .pure fun _ _ _ => le_refl _
  refine .bind (climbCounts s 0 _) fun r => .ite (fun _ => .giveUp fun _ _ _ => trivial) fun _ => ?_
  exact .pure fun _ _ more => more

/- A search ends before the secants that it is allowed run out. -/
theorem secantsEnough (h : Hunt α) {s : Approach α} {fuel : ℕ} (some : 0 < fuel)
    (enough : maxCount + 1 < s.count + fuel) (more : ℕ) :
    secants h s (fuel + more) = secants h s fuel := by
  induction fuel generalizing s with
  | zero => exact absurd some (lt_irrefl 0)
  | succ fuel ih =>
    have gone {β γ : Type} {m : Chase α β} (ends : Chase.Ensures (fun _ _ => True) m
        (fun _ _ _ => False) fun _ _ _ => True) (f g : β → Chase α γ) : (m >>= f) = (m >>= g) :=
      Chase.sameBind (fun _ => False) ends fun _ never => never.elim
    rw [Nat.succ_add]
    unfold secants
    refine ite_congr rfl (fun _ => gone (.giveUp fun _ _ _ => trivial) _ _) fun _ => ?_
    refine ite_congr rfl (fun _ => gone (.stop fun _ _ _ => trivial) _ _) fun _ => ?_
    refine ite_congr rfl (fun _ => gone (.giveUp fun _ _ _ => trivial) _ _) fun most => ?_
    refine Chase.sameBind (fun _ => True) (.anything _) fun m _ => ?_
    refine ite_congr rfl (fun _ => rfl) fun _ => ite_congr rfl (fun _ => ?_) fun _ => ?_
    · exact ih (by omega) (by dsimp only; omega)
    · refine ite_congr rfl (fun _ => rfl) fun _ => ?_
      refine Chase.sameBind _ (ascendCounts _) fun r counts => ih (by omega) ?_
      dsimp only at counts
      omega

end Approach

/- A search for a crossing minimizes at most seventeen times and asks for nothing else. The calls of its
crossing are those of all its minimizations, and the secants end before the allowance for them is used
up. -/
theorem Profile.crossingTallied (p : Profile α) (places : List ℕ) (middles directions : List α)
    (tolerance : α) (maxCalls : ℕ) (t : Trace α) :
    let line := Lead.list places middles directions
    let (c, u) := (p.crossing places middles directions tolerance maxCalls).run t
    (∃ limit trials g asked,
      Hunt.Chain ⟨p, line, tolerance, maxCalls, limit⟩ p.inner trials g asked ∧ trials.length ≤ 17 ∧
        c.calls = (trials.map Trial.calls).sum ∧ u.values = t.values ++ asked.values ∧
        u.slopes = t.slopes ++ asked.slopes) ∧
    ∀ (h : Hunt α) (s : Approach α) (more : ℕ), 0 < s.count →
      Approach.secants h s (Approach.maxCount + 1 + more) =
        Approach.secants h s (Approach.maxCount + 1) := by
  intro line
  have enough (h : Hunt α) (s : Approach α) (more : ℕ) (begun : 0 < s.count) :
      Approach.secants h s (Approach.maxCount + 1 + more) =
        Approach.secants h s (Approach.maxCount + 1) :=
    Approach.secantsEnough h (Nat.succ_pos _) (by omega) more
  have nothing : ∃ limit trials g asked,
      Hunt.Chain ⟨p, line, tolerance, maxCalls, limit⟩ p.inner trials g asked ∧ trials.length ≤ 17 ∧
        0 = (trials.map Trial.calls).sum ∧ t.values = t.values ++ asked.values ∧
        t.slopes = t.slopes ++ asked.slopes :=
    ⟨0, [], _, _, .none, Nat.zero_le _, rfl, by simp, by simp⟩
  rcases p.crossingKeeps tolerance maxCalls t places middles directions with
    same | ⟨limit, c, tr, u, _, same, keeps⟩
  · rw [same]
    exact ⟨nothing, enough⟩
  · rw [same]
    obtain ⟨⟨⟨asked, chain, values, slopes⟩, counted⟩, calls, few⟩ :=
      keeps _ _ (Hunt.movesCounted _ p.inner t) ⟨.nothing, rfl, Nat.zero_le _⟩
    have spent := calls.trans counted
    exact ⟨⟨limit, tr.trials, tr.fit, asked, chain, few, spent, values, slopes⟩, enough⟩

end ParamFit
