import Aesd.Lib.Run
import Mathlib.Order.WellFounded

/-!
# Fair schedules

* `path step s sched` : the states of the run along an infinite schedule;
* `Allowed.reaches` : a run with a step again and again that lowers a measure comes to its goal;
* `Turns mine i sched` : thread `i` is given a turn again and again;
* `Ranking` : a measure that no step raises, and a thread whose next turn lowers it, as long as the goal is not reached;
* `Ranking.reaches`, `Ranking.settles` : then every fair run comes to the goal.

The measure is into any well-founded order and the threads are any type.
-/

namespace Aesd.Lib

variable {σ ℓ ι τ : Type} {step : σ → ℓ → σ} {P : σ → ℓ → Prop}

/-- The states of the run along `sched`. -/
def path (step : σ → ℓ → σ) (s : σ) (sched : Nat → ℓ) : Nat → σ
  | 0 => s
  | n + 1 => step (path step s sched n) (sched n)

def Allowed (step : σ → ℓ → σ) (P : σ → ℓ → Prop) (s : σ) (sched : Nat → ℓ) : Prop :=
  ∀ n, P (path step s sched n) (sched n)

/-- Thread `i` is given a turn again and again. -/
def Turns (mine : ι → ℓ → Prop) (i : ι) (sched : Nat → ℓ) : Prop := ∀ n, ∃ m, n ≤ m ∧ mine i (sched m)

def later (sched : Nat → ℓ) (k : Nat) : Nat → ℓ := fun n => sched (k + n)

theorem path_later (s : σ) (sched : Nat → ℓ) (k n : Nat) :
    path step (path step s sched k) (later sched k) n = path step s sched (k + n) := by
  induction n with
  | zero => rfl
  | succ n ih => rw [path, ih]; rfl

theorem Allowed.later {s : σ} {sched : Nat → ℓ} (h : Allowed step P s sched) (k : Nat) :
    Allowed step P (path step s sched k) (later sched k) := by
  intro n
  rw [path_later]
  exact h (k + n)

/-- What every allowed step keeps holds along the schedule. -/
theorem Allowed.invariant {I : σ → Prop} (hstep : ∀ s l, I s → P s l → I (step s l)) {s : σ} (h : I s)
    {sched : Nat → ℓ} (ha : Allowed step P s sched) (n : Nat) : I (path step s sched n) := by
  induction n with
  | zero => exact h
  | succ n ih => exact hstep _ _ ih (ha n)

/-- If no step raises the measure and again and again one is taken that lowers it, the run comes to its goal. -/
theorem Allowed.reaches {I G : σ → Prop} {m : σ → Nat} {Lowers : σ → ℓ → Prop}
    (hinv : ∀ s l, I s → P s l → I (step s l))
    (hlower : ∀ s l, I s → P s l → Lowers s l → G (step s l) ∨ m (step s l) < m s)
    (hother : ∀ s l, I s → P s l → ¬ Lowers s l → m (step s l) ≤ m s) {s : σ} (h : I s) {sched : Nat → ℓ}
    (ha : Allowed step P s sched) (hoften : ∀ n, ∃ k, n ≤ k ∧ Lowers (path step s sched k) (sched k)) :
    ∃ n, G (path step s sched n) := by
  by_contra hnot
  have hno : ∀ n, ¬ G (path step s sched n) := fun n hg => hnot ⟨n, hg⟩
  have hI := ha.invariant hinv h
  have hlow : ∀ n, Lowers (path step s sched n) (sched n) → m (path step s sched (n + 1)) < m (path step s sched n) :=
    fun n hn => (hlower _ _ (hI n) (ha n) hn).resolve_left (hno (n + 1))
  have hanti : Antitone fun n => m (path step s sched n) := by
    refine antitone_nat_of_succ_le fun n => ?_
    by_cases hn : Lowers (path step s sched n) (sched n)
    · exact (hlow n hn).le
    · exact hother _ _ (hI n) (ha n) hn
  -- the measure would drop for ever
  have hdrops : ∀ t n, m (path step s sched n) ≠ t := by
    intro t
    induction t using Nat.strong_induction_on with
    | _ t ih =>
        rintro n rfl
        obtain ⟨k, hk, hlk⟩ := hoften n
        exact ih _ ((hlow k hlk).trans_le (hanti hk)) (k + 1) rfl
  exact hdrops _ 0 rfl

theorem eventually_of_later {Q : σ → Prop} {s : σ} {sched : Nat → ℓ} {j : Nat}
    (h : ∃ n, ∀ k, n ≤ k → Q (path step (path step s sched j) (later sched j) k)) :
    ∃ n, ∀ k, n ≤ k → Q (path step s sched k) := by
  obtain ⟨n, hn⟩ := h
  refine ⟨j + n, fun k hk => ?_⟩
  have hq := hn (k - j) (by omega)
  rwa [path_later, Nat.add_sub_cancel' (by omega)] at hq

theorem Turns.later {mine : ι → ℓ → Prop} {i : ι} {sched : Nat → ℓ} (h : Turns mine i sched) (k : Nat) :
    Turns mine i (later sched k) := by
  intro n
  obtain ⟨m, hm, hmine⟩ := h (k + n)
  refine ⟨m - k, by omega, ?_⟩
  rw [Lib.later, Nat.add_sub_cancel' (by omega)]
  exact hmine

/-- Until the goal `G` is reached some thread of `R` helps: its next turn lowers the measure. Any other step lowers it
too, or leaves the measure and those that help as they are. -/
structure Ranking (step : σ → ℓ → σ) (P : σ → ℓ → Prop) (mine : ι → ℓ → Prop) (R : ι → Prop) (I G : σ → Prop)
    (lt : τ → τ → Prop) (m : σ → τ) (Helps : σ → ι → Prop) : Prop where
  inv : ∀ s l, I s → P s l → I (step s l)
  helper : ∀ s, I s → ¬ G s → ∃ i, R i ∧ Helps s i
  turn : ∀ s l i, I s → P s l → ¬ G s → Helps s i → mine i l → G (step s l) ∨ lt (m (step s l)) (m s)
  other : ∀ s l, I s → P s l → ¬ G s →
    G (step s l) ∨ lt (m (step s l)) (m s) ∨ (m (step s l) = m s ∧ ∀ i, Helps s i → Helps (step s l) i)

/-- **Every fair run comes to the goal.** -/
theorem Ranking.reaches {mine : ι → ℓ → Prop} {R : ι → Prop} {I G : σ → Prop} {lt : τ → τ → Prop} {m : σ → τ}
    {Helps : σ → ι → Prop} (hr : Ranking step P mine R I G lt m Helps) (hwf : WellFounded lt) {s : σ} (h : I s)
    {sched : Nat → ℓ} (ha : Allowed step P s sched) (hfair : ∀ i, R i → Turns mine i sched) :
    ∃ n, G (path step s sched n) := by
  generalize hms : m s = t
  induction t using hwf.induction generalizing s sched with
  | _ t ih =>
      -- once the measure has dropped, the rest of the run comes to the goal
      have hdrop : ∀ k, I (path step s sched k) → lt (m (path step s sched k)) t → ∃ n, G (path step s sched n) := by
        intro k hk hlt
        obtain ⟨n, hn⟩ := ih _ hlt hk (ha.later k) (fun i hi => (hfair i hi).later k) rfl
        rw [path_later] at hn
        exact ⟨k + n, hn⟩
      by_cases hg : G s
      · exact ⟨0, hg⟩
      · obtain ⟨i, hi, hhelp⟩ := hr.helper s h hg
        obtain ⟨k, -, hk⟩ := hfair i hi 0
        -- up to the turn of `i` the measure stays and `i` helps, or it has dropped before
        have hwait : ∀ j, j ≤ k → (∃ n, G (path step s sched n)) ∨
            (¬ G (path step s sched j) ∧ I (path step s sched j) ∧ m (path step s sched j) = t ∧
              Helps (path step s sched j) i) := by
          intro j
          induction j with
          | zero => exact fun _ => Or.inr ⟨hg, h, hms, hhelp⟩
          | succ j ihj =>
              intro hj
              rcases ihj (by omega) with hdone | ⟨hgj, hIj, hmj, hhj⟩
              · exact Or.inl hdone
              · have hI' := hr.inv _ _ hIj (ha j)
                rcases hr.other _ _ hIj (ha j) hgj with hg' | hlt | ⟨hsame, hkeep⟩
                · exact Or.inl ⟨j + 1, hg'⟩
                · exact Or.inl (hdrop (j + 1) hI' (hmj ▸ hlt))
                · by_cases hg' : G (path step s sched (j + 1))
                  · exact Or.inl ⟨j + 1, hg'⟩
                  · exact Or.inr ⟨hg', hI', hsame.trans hmj, hkeep i hhj⟩
        rcases hwait k (Nat.le_refl k) with hdone | ⟨hgk, hIk, hmk, hhk⟩
        · exact hdone
        · rcases hr.turn _ _ i hIk (ha k) hgk hhk hk with hg' | hlt
          · exact ⟨k + 1, hg'⟩
          · exact hdrop (k + 1) (hr.inv _ _ hIk (ha k)) (hmk ▸ hlt)

/-- A goal that no allowed step undoes is reached for good. -/
theorem Ranking.settles {mine : ι → ℓ → Prop} {R : ι → Prop} {I G : σ → Prop} {lt : τ → τ → Prop} {m : σ → τ}
    {Helps : σ → ι → Prop} (hr : Ranking step P mine R I G lt m Helps) (hwf : WellFounded lt)
    (hstay : ∀ s l, I s → P s l → G s → G (step s l)) {s : σ} (h : I s) {sched : Nat → ℓ} (ha : Allowed step P s sched)
    (hfair : ∀ i, R i → Turns mine i sched) :
    ∃ n, ∀ k, n ≤ k → I (path step s sched k) ∧ G (path step s sched k) := by
  obtain ⟨n, hn⟩ := hr.reaches hwf h ha hfair
  refine ⟨n, fun k hk => ⟨ha.invariant hr.inv h k, ?_⟩⟩
  induction k, hk using Nat.le_induction with
  | base => exact hn
  | succ k hk ih => exact hstay _ _ (ha.invariant hr.inv h k) (ha k) ih

end Aesd.Lib
