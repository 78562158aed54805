import Mathlib.Data.List.Destutter
import Mathlib.Data.List.DropRight
import Mathlib.Tactic

/-!
# Texts of lines

A text is a list of characters in which `nl` ends a line. All is over an arbitrary type of characters.

* `unlines nl ls` : the text with the lines `ls`, each with its `nl`; `records nl t` : the lines of a text, where a last
  line needs no `nl`; `records_unlines` : reading back what was written;
  `not_mem_records` : a line has no `nl`;
* `stripEnd nl t` : without the `nl`s at the end; `stripEnd_unlines` : it takes one `nl` off a text whose last line is not
  empty;
* `length_destutter_iff`, `destutter_flatMap_replicate` : how many lines are left when equal neighbours are merged.
-/

namespace Aesd.Lib

variable {α : Type} [DecidableEq α]

section Text
variable (nl : α)

def unlines (ls : List (List α)) : List α := ls.flatMap fun l => l ++ [nl]

def records : List α → List (List α)
  | [] => []
  | c :: cs =>
    if c = nl then [] :: records cs
    else match records cs with
      | [] => [[c]]
      | r :: rs => (c :: r) :: rs

def stripEnd (t : List α) : List α := t.rdropWhile fun c => decide (c = nl)

variable {nl}

theorem records_line (l rest : List α) (h : nl ∉ l) : records nl (l ++ nl :: rest) = l :: records nl rest := by
  induction l with
  | nil => simp [records]
  | cons c cs ih =>
      have hc : c ≠ nl := fun heq => h (by simp [heq])
      have hcs := ih fun hmem => h (List.mem_cons_of_mem _ hmem)
      rw [List.cons_append, records, if_neg hc, hcs]

theorem records_unlines {ls : List (List α)} (h : ∀ l ∈ ls, nl ∉ l) : records nl (unlines nl ls) = ls := by
  induction ls with
  | nil => rfl
  | cons l ls ih =>
      rw [unlines, List.flatMap_cons, List.append_assoc, List.singleton_append, records_line l _ (h l (by simp))]
      congr 1
      exact ih fun l' hl' => h l' (by simp [hl'])

theorem not_mem_records {t l : List α} (h : l ∈ records nl t) : nl ∉ l := by
  induction t generalizing l with
  | nil => cases h
  | cons c cs ih =>
      rw [records] at h
      split_ifs at h with hc
      · rcases List.mem_cons.mp h with rfl | hmem
        · exact List.not_mem_nil
        · exact ih hmem
      · have hne : nl ≠ c := fun heq => hc heq.symm
        split at h
        · rw [List.mem_singleton.mp h]
          simpa using hne
        · next r rs heq =>
          rw [heq] at ih
          rcases List.mem_cons.mp h with rfl | hmem
          · exact fun hnl => (List.mem_cons.mp hnl).elim hne (ih (by simp))
          · exact ih (List.mem_cons_of_mem _ hmem)

/-- The number of lines is the number of their ends. -/
theorem count_unlines {ls : List (List α)} (h : ∀ l ∈ ls, nl ∉ l) : (unlines nl ls).count nl = ls.length := by
  induction ls with
  | nil => rfl
  | cons l ls ih =>
      have hl : l.count nl = 0 := List.count_eq_zero.mpr (h l (by simp))
      have hls := ih fun l' hl' => h l' (by simp [hl'])
      unfold unlines at hls ⊢
      rw [List.flatMap_cons, List.count_append, List.count_append, hls, hl, List.length_cons]
      simp
      omega

theorem stripEnd_unlines {ls : List (List α)} {l : List α} (hne : l ≠ []) (h : nl ∉ l) :
    stripEnd nl (unlines nl (ls ++ [l])) ++ [nl] = unlines nl (ls ++ [l]) := by
  have hlast : decide (l.getLast hne = nl) ≠ true := by
    intro heq
    exact h (of_decide_eq_true heq ▸ List.getLast_mem hne)
  have htext : unlines nl (ls ++ [l]) = unlines nl ls ++ l ++ [nl] := by simp [unlines]
  rw [htext, stripEnd, List.rdropWhile_concat_pos _ _ _ (by simp)]
  congr 1
  rw [List.rdropWhile_eq_self_iff]
  intro hne'
  rw [List.getLast_append_of_ne_nil _ hne]
  exact hlast

end Text

/-! ## Merging equal neighbours -/

variable {β : Type} [DecidableEq β]

/-- Nothing is merged exactly when neighbours differ. -/
theorem length_destutter_iff (xs : List β) : (xs.destutter (· ≠ ·)).length = xs.length ↔ xs.IsChain (· ≠ ·) := by
  rw [← List.destutter_eq_self_iff]
  exact ⟨fun h => (List.destutter_sublist _ _).eq_of_length h, fun h => by rw [h]⟩

theorem destutter'_replicate (x : β) (n : Nat) (rest : List β) :
    (List.replicate n x ++ rest).destutter' (· ≠ ·) x = rest.destutter' (· ≠ ·) x := by
  induction n with
  | zero => rfl
  | succ n ih => rw [List.replicate_succ, List.cons_append, List.destutter'_cons_neg _ (by simp), ih]

/-- Repeating an element any number of times adds nothing. -/
theorem destutter_flatMap_replicate {γ : Type} (f : γ → β) (n : γ → Nat) (xs : List γ) (hn : ∀ x ∈ xs, 1 ≤ n x) :
    (xs.flatMap fun x => List.replicate (n x) (f x)).destutter (· ≠ ·) = (xs.map f).destutter (· ≠ ·) := by
  -- the same after an element that is already there
  have hafter : ∀ (xs : List γ), (∀ x ∈ xs, 1 ≤ n x) → ∀ y,
      (xs.flatMap fun x => List.replicate (n x) (f x)).destutter' (· ≠ ·) y = (xs.map f).destutter' (· ≠ ·) y := by
    intro xs
    induction xs with
    | nil => intro _ y; rfl
    | cons x xs ih =>
        intro hn y
        obtain ⟨k, hk⟩ := Nat.exists_eq_add_of_le' (hn x (by simp))
        have hxs := ih fun z hz => hn z (by simp [hz])
        rw [List.flatMap_cons, List.map_cons, hk, List.replicate_succ, List.cons_append, List.destutter'_cons,
          List.destutter'_cons]
        split_ifs with hyx
        · rw [destutter'_replicate, hxs]
        · obtain rfl : y = f x := not_not.mp hyx
          rw [destutter'_replicate, hxs]
  cases xs with
  | nil => rfl
  | cons x xs =>
      obtain ⟨k, hk⟩ := Nat.exists_eq_add_of_le' (hn x (by simp))
      rw [List.flatMap_cons, List.map_cons, hk, List.replicate_succ, List.cons_append, List.destutter_cons',
        List.destutter_cons', destutter'_replicate]
      exact hafter xs (fun z hz => hn z (by simp [hz])) (f x)

end Aesd.Lib
