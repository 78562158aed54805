import Mathlib.Tactic

/-!
# Runs of a step function

* `run step s labels` : the state after the steps of a list of labels;
* `Along step P s labels` : `P` holds of every step of the run, in the state in which it is taken;
* `Along.invariant` : what every allowed step keeps holds at the end of every allowed run, hence in every state that
  such runs reach;
* `along_or` : a run is allowed or it carries the mark of a step that was not.
-/

namespace Aesd.Lib

variable {σ ℓ : Type} {step : σ → ℓ → σ} {P : σ → ℓ → Prop}

def run (step : σ → ℓ → σ) (s : σ) (labels : List ℓ) : σ := labels.foldl step s

theorem run_append (s : σ) (ls ls' : List ℓ) : run step s (ls ++ ls') = run step (run step s ls) ls' :=
  List.foldl_append

def Along (step : σ → ℓ → σ) (P : σ → ℓ → Prop) : σ → List ℓ → Prop
  | _, [] => True
  | s, l :: ls => P s l ∧ Along step P (step s l) ls

instance Along.decidable [∀ s l, Decidable (P s l)] : ∀ (s : σ) (labels : List ℓ), Decidable (Along step P s labels)
  | _, [] => .isTrue trivial
  | s, l :: ls =>
    have := Along.decidable (step s l) ls
    inferInstanceAs (Decidable (P s l ∧ Along step P (step s l) ls))

theorem Along.invariant {I : σ → Prop} (hstep : ∀ s l, I s → P s l → I (step s l)) {s : σ} (h : I s) {labels : List ℓ}
    (ha : Along step P s labels) : I (run step s labels) := by
  induction labels generalizing s with
  | nil => exact h
  | cons l ls ih => exact ih (hstep s l h ha.1) ha.2

/-- Every step of the run is allowed, or the first one that is not leaves a mark that no later step removes. -/
theorem along_or {I J : σ → Prop} (hinv : ∀ s l, I s → I (step s l)) (hmark : ∀ s l, I s → ¬ P s l → J (step s l))
    (hkeep : ∀ s l, J s → J (step s l)) {s : σ} (h : I s) (labels : List ℓ) :
    Along step P s labels ∨ J (run step s labels) := by
  induction labels generalizing s with
  | nil => exact Or.inl trivial
  | cons l ls ih =>
      by_cases hp : P s l
      · rcases ih (hinv s l h) with ha | hj
        · exact Or.inl ⟨hp, ha⟩
        · exact Or.inr hj
      · have hstays : ∀ (ls : List ℓ) (s : σ), J s → J (run step s ls) := by
          intro ls
          induction ls with
          | nil => exact fun s hj => hj
          | cons l ls ih => exact fun s hj => ih (step s l) (hkeep s l hj)
        exact Or.inr (hstays ls _ (hmark s l h hp))

theorem Along.and {Q : σ → ℓ → Prop} {s : σ} {labels : List ℓ} (hp : Along step P s labels) (hq : Along step Q s labels) :
    Along step (fun s l => P s l ∧ Q s l) s labels := by
  induction labels generalizing s with
  | nil => trivial
  | cons l ls ih => exact ⟨⟨hp.1, hq.1⟩, ih hp.2 hq.2⟩

/-- A condition on the labels alone. -/
theorem along_of_forall {R : ℓ → Prop} {labels : List ℓ} (h : ∀ l ∈ labels, R l) (s : σ) :
    Along step (fun _ l => R l) s labels := by
  induction labels generalizing s with
  | nil => trivial
  | cons l ls ih => exact ⟨h l (by simp), ih (fun l' hl' => h l' (by simp [hl'])) _⟩

end Aesd.Lib
