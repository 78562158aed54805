import Mathlib.Data.List.DropRight
import Mathlib.Tactic

/-!
# Positions in a concatenation

`locate size xs off` walks `xs`, spending `size x` positions on each element, and returns the element that position
`off` falls into with the offset inside it.

* `locate_eq_none` : it fails exactly past the total size;
* `locate_spec` : the element, the bound on the offset and the position it stands for;
* `drop_take_flatMap` : reading inside the located element is reading the concatenation;
* `restAt` : what is left, from a position on, of the list that the position falls into; `restAt_map` : the element that
  `locate` finds has it, `restAt_prefix_drop` : it is where the concatenation goes on;
* `rtake_append_singleton`, `flatten_drop_rtake` : what the last `n` lists of a growing list are.
-/

namespace Aesd.Lib

variable {α β : Type}

/-- The element that position `off` falls into, with the offset inside it. -/
def locate (size : α → Nat) : List α → Nat → Option (Nat × Nat)
  | [], _ => none
  | x :: xs, off => if off < size x then some (0, off) else (locate size xs (off - size x)).map fun p => (p.1 + 1, p.2)

theorem locate_eq_none (size : α → Nat) (xs : List α) (off : Nat) :
    locate size xs off = none ↔ (xs.map size).sum ≤ off := by
  induction xs generalizing off with
  | nil => simp [locate]
  | cons x xs ih =>
      simp only [locate, List.map_cons, List.sum_cons]
      split_ifs with h
      · simp only [false_iff]
        omega
      · rw [Option.map_eq_none_iff, ih]
        omega

theorem locate_spec (size : α → Nat) {xs : List α} {off k o : Nat} (h : locate size xs off = some (k, o)) :
    ∃ x, xs[k]? = some x ∧ o < size x ∧ off = ((xs.take k).map size).sum + o := by
  induction xs generalizing off k with
  | nil => simp [locate] at h
  | cons x xs ih =>
      simp only [locate] at h
      split_ifs at h with hlt
      · simp only [Option.some.injEq, Prod.mk.injEq] at h
        obtain ⟨rfl, rfl⟩ := h
        exact ⟨x, rfl, hlt, by simp⟩
      · rw [Option.map_eq_some_iff] at h
        obtain ⟨⟨k', o'⟩, hloc, he⟩ := h
        simp only [Prod.mk.injEq] at he
        obtain ⟨rfl, rfl⟩ := he
        obtain ⟨y, hy, ho, hoff⟩ := ih hloc
        refine ⟨y, by simpa using hy, ho, ?_⟩
        simp only [List.take_succ_cons, List.map_cons, List.sum_cons]
        omega

/-- Elements of size zero at the end are never found. -/
theorem locate_append_zero (size : α → Nat) (xs zs : List α) (hz : ∀ z ∈ zs, size z = 0) (off : Nat) :
    locate size (xs ++ zs) off = locate size xs off := by
  induction xs generalizing off with
  | nil =>
      rw [List.nil_append, show locate size [] off = none from rfl, locate_eq_none]
      have hsum : (zs.map size).sum = 0 := List.sum_eq_zero_iff.mpr (by simpa using hz)
      omega
  | cons x xs ih => simp only [List.cons_append, locate, ih]

/-- Reading at most the rest of the located element reads the concatenation. -/
theorem drop_take_flatMap (f : α → List β) {xs : List α} {off k o : Nat} {x : α} (hx : xs[k]? = some x)
    (ho : o ≤ (f x).length) (hoff : off = ((xs.take k).map fun y => (f y).length).sum + o) {n : Nat}
    (hn : n ≤ (f x).length - o) : ((xs.flatMap f).drop off).take n = ((f x).drop o).take n := by
  have hk : k < xs.length := (List.getElem?_eq_some_iff.mp hx).1
  have hsplit : xs = xs.take k ++ x :: xs.drop (k + 1) := by
    rw [← (List.getElem?_eq_some_iff.mp hx).2, List.getElem_cons_drop, List.take_append_drop]
  have hlen : ((xs.take k).flatMap f).length = ((xs.take k).map fun y => (f y).length).sum := by
    rw [List.length_flatMap]
  have hflat : xs.flatMap f = (xs.take k).flatMap f ++ (f x ++ (xs.drop (k + 1)).flatMap f) := by
    conv_lhs => rw [hsplit]
    rw [List.flatMap_append, List.flatMap_cons]
  rw [hflat, hoff, ← hlen, List.drop_append, List.drop_eq_nil_of_le (by omega), List.nil_append, Nat.add_sub_cancel_left,
    List.drop_append_of_le_length ho, List.take_append_of_le_length (by rw [List.length_drop]; exact hn)]

/-! ## The rest of a list in a concatenation -/

/-- The rest of the list that position `off` of the concatenation falls into. -/
def restAt : List (List β) → Nat → List β
  | [], _ => []
  | x :: xs, off => if off < x.length then x.drop off else restAt xs (off - x.length)

theorem restAt_prefix_drop (xs : List (List β)) (off : Nat) : restAt xs off <+: xs.flatten.drop off := by
  induction xs generalizing off with
  | nil => simp [restAt]
  | cons x xs ih =>
      rw [restAt, List.flatten_cons, List.drop_append]
      split_ifs with hlt
      · exact List.prefix_append _ _
      · rw [List.drop_eq_nil_of_le (by omega), List.nil_append]
        exact ih _

theorem restAt_eq_nil (xs : List (List β)) (off : Nat) : restAt xs off = [] ↔ xs.flatten.length ≤ off := by
  induction xs generalizing off with
  | nil => simp [restAt]
  | cons x xs ih =>
      rw [restAt, List.flatten_cons, List.length_append]
      split_ifs with hlt
      · rw [List.drop_eq_nil_iff]
        omega
      · rw [ih]
        omega

theorem restAt_mem {xs : List (List β)} {off : Nat} (h : restAt xs off ≠ []) : ∃ x ∈ xs, restAt xs off <:+ x := by
  induction xs generalizing off with
  | nil => exact absurd rfl h
  | cons x xs ih =>
      rw [restAt] at h ⊢
      split_ifs at h ⊢ with hlt
      · exact ⟨x, List.mem_cons_self, List.drop_suffix _ _⟩
      · obtain ⟨y, hy, hrest⟩ := ih h
        exact ⟨y, List.mem_cons_of_mem _ hy, hrest⟩

theorem restAt_map (size : α → Nat) (f : α → List β) {xs : List α} (hsize : ∀ x ∈ xs, size x = (f x).length)
    {off k o : Nat} (h : locate size xs off = some (k, o)) :
    ∃ x, xs[k]? = some x ∧ restAt (xs.map f) off = (f x).drop o := by
  induction xs generalizing off k with
  | nil => simp [locate] at h
  | cons x xs ih =>
      simp only [locate] at h
      rw [List.map_cons, restAt, ← hsize x List.mem_cons_self]
      split_ifs at h ⊢ with hlt
      · cases h
        exact ⟨x, rfl, rfl⟩
      · rw [Option.map_eq_some_iff] at h
        obtain ⟨⟨k', o'⟩, hloc, he⟩ := h
        cases he
        obtain ⟨y, hy, hrest⟩ := ih (fun z hz => hsize z (List.mem_cons_of_mem _ hz)) hloc
        exact ⟨y, by simpa using hy, hrest⟩

/-! ## The last lists of a growing list -/

theorem rtake_append_singleton (xs : List α) (x : α) (n : Nat) (hn : 0 < n) :
    (xs ++ [x]).rtake n = (xs.rtake n ++ [x]).rtake n := by
  obtain ⟨m, rfl⟩ : ∃ m, n = m + 1 := ⟨n - 1, by omega⟩
  rw [List.rtake_concat_succ, List.rtake_concat_succ]
  simp only [List.rtake, List.length_drop, List.drop_drop]
  congr 2
  omega

theorem rtake_of_length_le (xs : List α) (n : Nat) (h : xs.length ≤ n) : xs.rtake n = xs := by
  rw [List.rtake, show xs.length - n = 0 by omega, List.drop_zero]

theorem rtake_append_cons (pre post : List α) (x : α) {n : Nat} (h : post.length ≤ n) :
    (pre ++ x :: post).rtake (n + 1) = pre.rtake (n - post.length) ++ x :: post := by
  rw [List.rtake, List.rtake, List.drop_append_of_le_length (by simp; omega)]
  congr 2
  simp only [List.length_append, List.length_cons]
  omega

/-- What the last `n` lists leave out is a prefix of the whole. -/
theorem flatten_rtake (xs : List (List α)) (n : Nat) :
    (xs.rtake n).flatten = xs.flatten.drop ((xs.take (xs.length - n)).map List.length).sum := by
  conv_rhs => rw [← List.take_append_drop (xs.length - n) xs]
  rw [List.flatten_append, List.rtake, List.take_append_drop, ← List.length_flatten, List.drop_left]

end Aesd.Lib
