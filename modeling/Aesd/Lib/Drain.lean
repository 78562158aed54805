import Mathlib.Tactic

/-!
# Draining a content piece by piece

A cursor takes pieces of a content one after the other, of any size it likes as long as it takes something while there
is something left.

* `Drains content pos piece` : piece `i` is taken at position `pos i`, and past the end nothing is taken any more;
* `Drains.taken` : what the first `n` pieces are together;
* `Drains.stops` : the end is reached after finitely many pieces, whatever their sizes, and never left.
-/

namespace Aesd.Lib

variable {α : Type}

structure Drains (content : List α) (pos : Nat → Nat) (piece : Nat → List α) : Prop where
  inside : ∀ i, pos i < content.length → 0 < (piece i).length ∧
    piece i = (content.drop (pos i)).take (piece i).length ∧ pos (i + 1) = pos i + (piece i).length
  past : ∀ i, content.length ≤ pos i → piece i = [] ∧ pos (i + 1) = pos i

namespace Drains
variable {content : List α} {pos : Nat → Nat} {piece : Nat → List α}

def taken (piece : Nat → List α) (n : Nat) : List α := (List.range n).flatMap piece

theorem taken_succ (piece : Nat → List α) (n : Nat) : taken piece (n + 1) = taken piece n ++ piece n := by
  simp [taken, List.range_succ]

/-- Together the pieces and what is left at the position are what was there at the start. -/
theorem taken_append (h : Drains content pos piece) (n : Nat) :
    taken piece n ++ content.drop (pos n) = content.drop (pos 0) := by
  induction n with
  | zero => rfl
  | succ n ih =>
      have hsplit : piece n ++ content.drop (pos (n + 1)) = content.drop (pos n) := by
        rcases Nat.lt_or_ge (pos n) content.length with hlt | hge
        · obtain ⟨-, heq, hnext⟩ := h.inside n hlt
          rw [hnext, ← List.drop_drop]
          nth_rewrite 1 [heq]
          exact List.take_append_drop _ _
        · rw [(h.past n hge).1, (h.past n hge).2, List.nil_append]
      rw [taken_succ, List.append_assoc, hsplit, ih]

theorem past_mono (h : Drains content pos piece) {i j : Nat} (hij : i ≤ j) (hi : content.length ≤ pos i) :
    content.length ≤ pos j := by
  induction j, hij using Nat.le_induction with
  | base => exact hi
  | succ j _ ih => rw [(h.past j ih).2]; exact ih

theorem stops (h : Drains content pos piece) :
    ∃ stop, (∀ i < stop, pos i < content.length) ∧ ∀ i, stop ≤ i → content.length ≤ pos i := by
  have hgrows : ∀ n, (∀ i < n, pos i < content.length) → n ≤ pos n := by
    intro n
    induction n with
    | zero => intro _; omega
    | succ n ih =>
        intro hall
        have hn := ih fun i hi => hall i (by omega)
        obtain ⟨hpos, -, hnext⟩ := h.inside n (hall n (by omega))
        omega
  have hend : ∃ n, content.length ≤ pos n := by
    by_contra hne
    push Not at hne
    have hlt := hne content.length
    have hle := hgrows content.length fun i _ => hne i
    omega
  classical
  refine ⟨Nat.find hend, fun i hi => ?_, fun i hi => h.past_mono hi (Nat.find_spec hend)⟩
  exact Nat.lt_of_not_le (Nat.find_min hend hi)

/-- **Past the end everything from the start on has been taken.** -/
theorem taken_of_past (h : Drains content pos piece) {n : Nat} (hn : content.length ≤ pos n) :
    taken piece n = content.drop (pos 0) := by
  rw [← h.taken_append n, List.drop_eq_nil_of_le hn, List.append_nil]

end Drains

end Aesd.Lib
