import Mathlib.Data.List.DropRight
import Mathlib.Data.Nat.ModEq
import Mathlib.Tactic

/-!
# Rings: a fixed array with two wrapping indices and a flag, read as the queue of its last elements

* `RingRep zero slots inOffs outOffs full items` : the array holds `items`, oldest first from `outOffs`, and every
  other slot is still `zero`;
* `RingRep.empty`, `RingRep.push` : the zeroed array holds nothing, and storing at `inOffs` keeps the last `cap`
  elements (`List.rtake`);
* `RingRep.oldest` : the slot that a full ring gives up is the head of its queue.
-/

namespace Aesd.Lib

variable {α : Type} {cap : Nat}

/-! ## Wrapping indices -/

/-- The sum of two indices of the ring wraps at most once. -/
theorem add_mod_wrap {a k : Nat} (ha : a < cap) (hk : k < cap) :
    (a + k) % cap = if a + k < cap then a + k else a + k - cap := by
  split_ifs with h
  · exact Nat.mod_eq_of_lt h
  · rw [Nat.mod_eq_sub_mod (by omega), Nat.mod_eq_of_lt (by omega)]

/-- Distinct distances from `a` are distinct slots. -/
theorem add_mod_inj {a i j : Nat} (ha : a < cap) (hi : i < cap) (hj : j < cap)
    (h : (a + i) % cap = (a + j) % cap) : i = j := by
  rw [add_mod_wrap ha hi, add_mod_wrap ha hj] at h
  split_ifs at h <;> omega

theorem exists_add_mod {a i : Nat} (ha : a < cap) (hi : i < cap) : ∃ k < cap, (a + k) % cap = i := by
  by_cases h : a ≤ i
  · exact ⟨i - a, by omega, by rw [show a + (i - a) = i by omega, Nat.mod_eq_of_lt hi]⟩
  · refine ⟨i + cap - a, by omega, ?_⟩
    rw [show a + (i + cap - a) = i + cap by omega, Nat.add_mod_right, Nat.mod_eq_of_lt hi]

/-! ## The queue that a ring holds -/

/-- The array `slots` with write index `inOffs`, read index `outOffs` and flag `full` holds `items`, oldest first;
every other slot is still `zero`. -/
structure RingRep (zero : α) (slots : Vector α cap) (inOffs outOffs : Nat) (full : Bool) (items : List α) : Prop where
  out_lt : outOffs < cap
  in_eq : inOffs = (outOffs + items.length) % cap
  len_le : items.length ≤ cap
  full_iff : full = true ↔ items.length = cap
  held : ∀ k < items.length, slots[(outOffs + k) % cap]? = items[k]?
  unused : ∀ k, items.length ≤ k → k < cap → slots[(outOffs + k) % cap]? = some zero

namespace RingRep

variable {zero : α} {slots : Vector α cap} {inOffs outOffs : Nat} {full : Bool} {items : List α}

theorem cap_pos (h : RingRep zero slots inOffs outOffs full items) : 0 < cap :=
  Nat.lt_of_le_of_lt (Nat.zero_le _) h.out_lt

theorem in_lt (h : RingRep zero slots inOffs outOffs full items) : inOffs < cap := by
  rw [h.in_eq]
  exact Nat.mod_lt _ h.cap_pos

theorem empty (zero : α) (hcap : 0 < cap) : RingRep zero (Vector.replicate cap zero) 0 0 false [] where
  out_lt := hcap
  in_eq := by simp
  len_le := Nat.zero_le _
  full_iff := by simp; omega
  held k hk := by simp at hk
  unused k _ hk := by simp [Nat.mod_eq_of_lt hk, hk]

/-- The indices meet exactly in an empty and in a full ring. -/
theorem in_eq_out_iff (h : RingRep zero slots inOffs outOffs full items) :
    inOffs = outOffs ↔ items.length = 0 ∨ items.length = cap := by
  have hlen := h.len_le
  have hout := h.out_lt
  rcases Nat.lt_or_ge items.length cap with hlt | hge
  · rw [h.in_eq, add_mod_wrap hout hlt]
    split_ifs <;> omega
  · rw [h.in_eq, show items.length = cap by omega, Nat.add_mod_right, Nat.mod_eq_of_lt hout]
    simp

theorem oldest (h : RingRep zero slots inOffs outOffs full items) (hne : items ≠ []) :
    slots[outOffs]? = items.head? := by
  have hpos : 0 < items.length := List.length_pos_iff.mpr hne
  have h0 := h.held 0 hpos
  rw [Nat.add_zero, Nat.mod_eq_of_lt h.out_lt] at h0
  rw [h0, List.head?_eq_getElem?]

theorem slot_mem (h : RingRep zero slots inOffs outOffs full items) {i : Nat} {x : α} (hx : slots[i]? = some x) :
    x ∈ items ∨ x = zero := by
  have hi : i < cap := by
    by_contra hge
    rw [Vector.getElem?_eq_none (by omega)] at hx
    cases hx
  obtain ⟨k, hk, rfl⟩ := exists_add_mod h.out_lt hi
  by_cases hlt : k < items.length
  · rw [h.held k hlt] at hx
    exact Or.inl (List.mem_of_getElem? hx)
  · rw [h.unused k (by omega) hk] at hx
    exact Or.inr (Option.some.inj hx).symm

theorem push_room (h : RingRep zero slots inOffs outOffs full items) (hroom : items.length < cap) (x : α) :
    RingRep zero (slots.setIfInBounds inOffs x) ((inOffs + 1) % cap) outOffs
      (if (inOffs + 1) % cap = outOffs then true else full) (items ++ [x]) := by
  have hfull : full = false := by
    cases hf : full
    · rfl
    · have := h.full_iff.mp hf
      omega
  have hin : (inOffs + 1) % cap = (outOffs + (items ++ [x]).length) % cap := by
    rw [h.in_eq, Nat.mod_add_mod, List.length_append, List.length_singleton, Nat.add_assoc]
  have hslot : ∀ k < cap, k ≠ items.length →
      (slots.setIfInBounds inOffs x)[(outOffs + k) % cap]? = slots[(outOffs + k) % cap]? := by
    intro k hk hne
    apply Vector.getElem?_setIfInBounds_ne
    rw [h.in_eq]
    exact fun he => hne (add_mod_inj h.out_lt hroom hk he).symm
  refine ⟨h.out_lt, hin, by simp; omega, ?_, ?_, ?_⟩
  · rw [hin, hfull, List.length_append, List.length_singleton]
    have hpos := h.cap_pos
    have hout := h.out_lt
    rcases Nat.lt_or_ge (items.length + 1) cap with hlt | hge
    · rw [add_mod_wrap hout hlt]
      split_ifs <;> simp <;> omega
    · rw [show items.length + 1 = cap by omega, Nat.add_mod_right, Nat.mod_eq_of_lt hout]
      simp
  · intro k hk
    rw [List.length_append, List.length_singleton] at hk
    by_cases hlast : k = items.length
    · subst hlast
      rw [← h.in_eq, Vector.getElem?_setIfInBounds_self_of_lt h.in_lt]
      simp
    · rw [hslot k (by omega) hlast, h.held k (by omega), List.getElem?_append_left (by omega)]
  · intro k hk hkc
    rw [List.length_append, List.length_singleton] at hk
    rw [hslot k hkc (by omega), h.unused k (by omega) hkc]

/-- Storing into a full ring overwrites its oldest element. -/
theorem push_full (h : RingRep zero slots inOffs outOffs full items) (hfull : items.length = cap) (x : α) :
    RingRep zero (slots.setIfInBounds inOffs x) ((inOffs + 1) % cap) ((outOffs + 1) % cap)
      (if (inOffs + 1) % cap = (outOffs + 1) % cap then true else full) (items.tail ++ [x]) := by
  have hpos := h.cap_pos
  have hio : inOffs = outOffs := h.in_eq_out_iff.mpr (Or.inr hfull)
  have hlen : (items.tail ++ [x]).length = cap := by
    simp only [List.length_append, List.length_tail, List.length_singleton]
    omega
  refine ⟨Nat.mod_lt _ hpos, ?_, by omega, ?_, ?_, ?_⟩
  · rw [hlen, hio, Nat.add_mod_right, Nat.mod_mod]
  · simp [hio, hlen]
  · intro k hk
    rw [hlen] at hk
    rw [Nat.mod_add_mod, Nat.add_assoc, Nat.add_comm 1 k, hio]
    by_cases hlast : k + 1 = cap
    · rw [hlast, Nat.add_mod_right, Nat.mod_eq_of_lt h.out_lt,
        Vector.getElem?_setIfInBounds_self_of_lt h.out_lt, List.getElem?_append_right (by simp; omega)]
      simp [show k - (items.length - 1) = 0 by omega]
    · have hne : outOffs ≠ (outOffs + (k + 1)) % cap := by
        intro he
        have h0 : (outOffs + 0) % cap = (outOffs + (k + 1)) % cap := by
          rw [Nat.add_zero, Nat.mod_eq_of_lt h.out_lt]
          exact he
        have := add_mod_inj h.out_lt hpos (by omega) h0
        omega
      rw [Vector.getElem?_setIfInBounds_ne hne, h.held (k + 1) (by omega),
        List.getElem?_append_left (by simp; omega), List.getElem?_tail]
  · intro k hk hkc
    omega

/-- **Storing keeps the last `cap` elements.** A full ring first advances its read index. -/
theorem push (h : RingRep zero slots inOffs outOffs full items) (x : α) :
    RingRep zero (slots.setIfInBounds inOffs x) ((inOffs + 1) % cap)
      (if full then (outOffs + 1) % cap else outOffs)
      (if (inOffs + 1) % cap = (if full then (outOffs + 1) % cap else outOffs) then true else full)
      ((items ++ [x]).rtake cap) := by
  have hlen := h.len_le
  cases hf : full
  · have hroom : items.length < cap := by
      have : ¬ items.length = cap := fun he => by
        have := h.full_iff.mpr he
        simp [hf] at this
      omega
    have hkeep : (items ++ [x]).rtake cap = items ++ [x] := by
      rw [List.rtake, show (items ++ [x]).length - cap = 0 by simp; omega, List.drop_zero]
    rw [hkeep]
    simpa [hf] using h.push_room hroom x
  · have hfull := h.full_iff.mp hf
    have hpos := h.cap_pos
    have hdrop : (items ++ [x]).rtake cap = items.tail ++ [x] := by
      rw [List.rtake, show (items ++ [x]).length - cap = 1 by simp; omega,
        List.drop_append_of_le_length (by omega), List.drop_one]
    rw [hdrop]
    simpa [hf] using h.push_full hfull x

end RingRep

end Aesd.Lib
