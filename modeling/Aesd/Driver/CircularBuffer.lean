import Aesd.Lib.Ring
import Aesd.Lib.Concat
import Aesd.Driver.Kernel

/-!
# `aesd-circular-buffer.c`

* `aesdCircularBufferInit`, `aesdCircularBufferAddEntry`, `aesdCircularBufferFindEntryOffsetForFpos` : the three
  functions of the source; a `buffptr` is the id of a block of the ledger, `NULL` is `none`;
* `AesdCircularBuffer.Rep b items` : the buffer holds the queue `items`; `rep_init`, `Rep.addEntry` : it is the queue
  of the last ten entries added;
* `Rep.find` : the scan finds the entry that `Lib.locate` finds in the queue.
-/

namespace Aesd.Driver
open Lib

abbrev AESDCHAR_MAX_WRITE_OPERATIONS_SUPPORTED : Nat := 10

/-- `struct aesd_buffer_entry`. -/
structure AesdBufferEntry where
  buffptr : Option Nat := none
  size : Nat := 0
deriving DecidableEq, Repr

def AesdBufferEntry.zero : AesdBufferEntry := ⟨none, 0⟩

/-- `struct aesd_circular_buffer`. -/
structure AesdCircularBuffer where
  entry : Vector AesdBufferEntry AESDCHAR_MAX_WRITE_OPERATIONS_SUPPORTED := Vector.replicate _ .zero
  inOffs : Nat := 0
  outOffs : Nat := 0
  full : Bool := false
deriving DecidableEq, Repr

namespace AesdCircularBuffer

/-- `buffer->entry[i]`. -/
def slot (b : AesdCircularBuffer) (i : Nat) : AesdBufferEntry := (b.entry[i]?).getD .zero

/-- The ten slots in the order in which a reader meets them. -/
def fromOut (b : AesdCircularBuffer) : List AesdBufferEntry :=
  (List.range AESDCHAR_MAX_WRITE_OPERATIONS_SUPPORTED).map fun k =>
    b.slot ((b.outOffs + k) % AESDCHAR_MAX_WRITE_OPERATIONS_SUPPORTED)

end AesdCircularBuffer

def aesdCircularBufferInit : AesdCircularBuffer := {}

/-- Adds `e` at `in_offs`. A full buffer loses its oldest entry, whose `buffptr` is returned to be freed. -/
def aesdCircularBufferAddEntry (b : AesdCircularBuffer) (e : AesdBufferEntry) : Option Nat × AesdCircularBuffer :=
  let result := if b.full then (b.slot b.outOffs).buffptr else none
  let outOffs := if b.full then (b.outOffs + 1) % AESDCHAR_MAX_WRITE_OPERATIONS_SUPPORTED else b.outOffs
  let inOffs := (b.inOffs + 1) % AESDCHAR_MAX_WRITE_OPERATIONS_SUPPORTED
  (result, {
    entry := b.entry.setIfInBounds b.inOffs e
    inOffs := inOffs
    outOffs := outOffs
    full := if inOffs = outOffs then true else b.full })

/-- The `do`-`while` loop of the search, at slot `i` with the running sum `searchOffset`. It is back at `out_offs`
after ten slots at the latest. -/
def findLoop (K : Kernel) (b : AesdCircularBuffer) (charOffset : Nat) : Nat → Nat → Nat → Option (Nat × Nat)
  | 0, _, _ => none
  | fuel + 1, i, searchOffset =>
    let sum := K.add searchOffset (b.slot i).size
    if sum > charOffset then
      -- subtract off the most recent entry size to find the relative offset into this entry
      some (i, K.sub charOffset (K.sub sum (b.slot i).size))
    else
      let next := (i + 1) % AESDCHAR_MAX_WRITE_OPERATIONS_SUPPORTED
      if next = b.outOffs then none else findLoop K b charOffset fuel next sum

/-- The slot that holds byte `charOffset` of the content and what is stored in `*entry_offset_byte_rtn`, or `NULL` with
nothing stored. -/
def aesdCircularBufferFindEntryOffsetForFpos (K : Kernel) (b : AesdCircularBuffer) (charOffset : Nat) :
    Option (Nat × Nat) :=
  findLoop K b charOffset AESDCHAR_MAX_WRITE_OPERATIONS_SUPPORTED b.outOffs 0

/-! ## The queue of the last ten entries -/

namespace AesdCircularBuffer

/-- The buffer holds the queue `items`, oldest first. -/
def Rep (b : AesdCircularBuffer) (items : List AesdBufferEntry) : Prop :=
  RingRep .zero b.entry b.inOffs b.outOffs b.full items

theorem rep_init : aesdCircularBufferInit.Rep [] :=
  RingRep.empty AesdBufferEntry.zero (by decide : 0 < AESDCHAR_MAX_WRITE_OPERATIONS_SUPPORTED)

variable {b : AesdCircularBuffer} {items : List AesdBufferEntry}

theorem Rep.addEntry (h : b.Rep items) (e : AesdBufferEntry) :
    (aesdCircularBufferAddEntry b e).2.Rep ((items ++ [e]).rtake AESDCHAR_MAX_WRITE_OPERATIONS_SUPPORTED) :=
  RingRep.push h e

theorem Rep.length_le (h : b.Rep items) : items.length ≤ 10 := h.len_le

theorem Rep.full_iff (h : b.Rep items) : b.full = true ↔ items.length = 10 := RingRep.full_iff h

/-- A full buffer hands back the pointer of its oldest entry; any other buffer hands back `NULL`. -/
theorem Rep.addEntry_result (h : b.Rep items) (e : AesdBufferEntry) :
    (aesdCircularBufferAddEntry b e).1 =
      if items.length = 10 then items.head?.bind AesdBufferEntry.buffptr else none := by
  unfold aesdCircularBufferAddEntry
  by_cases hf : b.full = true
  · have hlen := h.full_iff.mp hf
    have hold := RingRep.oldest h (by intro he; simp [he] at hlen)
    simp only [hf, if_true, hlen, slot, hold]
    cases items.head? <;> rfl
  · have hlen : ¬ items.length = 10 := fun he => hf (h.full_iff.mpr he)
    simp [hf, hlen]

theorem Rep.slot_held (h : b.Rep items) {k : Nat} (hk : k < items.length) :
    b.slot ((b.outOffs + k) % AESDCHAR_MAX_WRITE_OPERATIONS_SUPPORTED) = items[k] := by
  rw [slot, h.held k hk, List.getElem?_eq_getElem hk, Option.getD_some]

theorem Rep.slot_unused (h : b.Rep items) {k : Nat} (hk : items.length ≤ k) (hk' : k < 10) :
    b.slot ((b.outOffs + k) % AESDCHAR_MAX_WRITE_OPERATIONS_SUPPORTED) = .zero := by
  rw [slot, h.unused k hk hk', Option.getD_some]

theorem Rep.slot_mem (h : b.Rep items) (i : Nat) : b.slot i ∈ items ∨ b.slot i = .zero := by
  rw [slot]
  cases hs : b.entry[i]? with
  | none => exact Or.inr rfl
  | some e => exact RingRep.slot_mem h hs

theorem Rep.fromOut (h : b.Rep items) : b.fromOut = items ++ List.replicate (10 - items.length) .zero := by
  have hlen := h.length_le
  apply List.ext_getElem
  · simp only [AesdCircularBuffer.fromOut, List.length_map, List.length_range, List.length_append,
      List.length_replicate, AESDCHAR_MAX_WRITE_OPERATIONS_SUPPORTED]
    omega
  · intro k hk _
    have hk10 : k < 10 := by simpa [AesdCircularBuffer.fromOut] using hk
    simp only [AesdCircularBuffer.fromOut, List.getElem_map, List.getElem_range]
    by_cases hlt : k < items.length
    · rw [h.slot_held hlt, List.getElem_append_left hlt]
    · rw [h.slot_unused (by omega) hk10, List.getElem_append_right (by omega), List.getElem_replicate]

/-! ## The search -/

def sizeBefore (b : AesdCircularBuffer) (k : Nat) : Nat := ((b.fromOut.take k).map AesdBufferEntry.size).sum

theorem length_fromOut (b : AesdCircularBuffer) : b.fromOut.length = 10 := by simp [AesdCircularBuffer.fromOut]

theorem fromOut_drop (b : AesdCircularBuffer) {k : Nat} (hk : k < 10) :
    b.fromOut.drop k = b.slot ((b.outOffs + k) % 10) :: b.fromOut.drop (k + 1) := by
  rw [List.drop_eq_getElem_cons (by rw [length_fromOut]; exact hk)]
  simp [AesdCircularBuffer.fromOut]

theorem sizeBefore_succ (b : AesdCircularBuffer) {k : Nat} (hk : k < 10) :
    b.sizeBefore (k + 1) = b.sizeBefore k + (b.slot ((b.outOffs + k) % 10)).size := by
  rw [sizeBefore, List.take_add_one, List.getElem?_eq_getElem (by rw [length_fromOut]; exact hk)]
  simp [sizeBefore, AesdCircularBuffer.fromOut]

theorem sizeBefore_le (b : AesdCircularBuffer) (k : Nat) :
    b.sizeBefore k ≤ (b.fromOut.map AesdBufferEntry.size).sum := by
  conv_rhs => rw [← List.take_append_drop k b.fromOut]
  rw [List.map_append, List.sum_append, sizeBefore]
  omega

/-- The loop after `k` slots, none of which reached `charOffset`. -/
theorem findLoop_eq (K : Kernel) (b : AesdCircularBuffer) (hout : b.outOffs < 10)
    (hfit : (b.fromOut.map AesdBufferEntry.size).sum < 2 ^ K.width) {off : Nat} (hoff : off < 2 ^ K.width)
    (n k : Nat) (hn : n + k = 10) (hk : b.sizeBefore k ≤ off) :
    findLoop K b off n ((b.outOffs + k) % 10) (b.sizeBefore k) =
      (locate AesdBufferEntry.size (b.fromOut.drop k) (off - b.sizeBefore k)).map
        fun p => ((b.outOffs + (k + p.1)) % 10, p.2) := by
  induction n generalizing k with
  | zero =>
      rw [List.drop_eq_nil_of_le (by rw [length_fromOut]; omega)]
      rfl
  | succ n ih =>
      have hk10 : k < 10 := by omega
      have hsum := b.sizeBefore_succ hk10
      have hle := b.sizeBefore_le (k + 1)
      rw [fromOut_drop b hk10]
      simp only [findLoop, locate]
      rw [K.add_eq (by omega), ← hsum]
      by_cases hfound : b.sizeBefore (k + 1) > off
      · have hback : K.sub (b.sizeBefore (k + 1)) (b.slot ((b.outOffs + k) % 10)).size = b.sizeBefore k := by
          rw [K.sub_eq (by omega) (by omega)]
          omega
        rw [if_pos hfound, if_pos (by omega), hback, K.sub_eq (by omega) hk]
        simp
      · rw [if_neg hfound, if_neg (show ¬ off - b.sizeBefore k < (b.slot ((b.outOffs + k) % 10)).size by omega),
          Nat.mod_add_mod]
        have hrest : off - b.sizeBefore k - (b.slot ((b.outOffs + k) % 10)).size = off - b.sizeBefore (k + 1) := by
          omega
        rw [hrest, Option.map_map]
        by_cases hend : (b.outOffs + k + 1) % 10 = b.outOffs
        · have hlast : k + 1 = 10 := by
            have := hout
            omega
          rw [if_pos hend, List.drop_eq_nil_of_le (by rw [length_fromOut]; omega)]
          rfl
        · rw [if_neg hend, show b.outOffs + k + 1 = b.outOffs + (k + 1) by omega,
            ih (k + 1) (by omega) (by omega)]
          congr 1
          funext p
          simp only [Function.comp_apply, Prod.mk.injEq, and_true]
          congr 1
          omega

/-- **The search is `locate` on the queue**: unused slots have size zero and are never found. -/
theorem Rep.find (h : b.Rep items) (K : Kernel) (hfit : (items.map AesdBufferEntry.size).sum < 2 ^ K.width) {off : Nat}
    (hoff : off < 2 ^ K.width) :
    aesdCircularBufferFindEntryOffsetForFpos K b off =
      (locate AesdBufferEntry.size items off).map fun p => ((b.outOffs + p.1) % 10, p.2) := by
  have hzero : ∀ z ∈ List.replicate (10 - items.length) AesdBufferEntry.zero, z.size = 0 := by
    intro z hz
    rw [List.eq_of_mem_replicate hz, AesdBufferEntry.zero]
  have hsum : (b.fromOut.map AesdBufferEntry.size).sum = (items.map AesdBufferEntry.size).sum := by
    simp [h.fromOut, AesdBufferEntry.zero]
  have hloop := findLoop_eq K b h.out_lt (by omega) hoff 10 0 rfl (Nat.zero_le _)
  rw [show b.sizeBefore 0 = 0 from rfl, Nat.add_zero, Nat.mod_eq_of_lt h.out_lt, List.drop_zero, Nat.sub_zero,
    h.fromOut, locate_append_zero _ _ _ hzero] at hloop
  rw [aesdCircularBufferFindEntryOffsetForFpos, hloop]
  simp

theorem Rep.total_lt (h : b.Rep items) (K : Kernel) (hle : ∀ e ∈ items, e.size ≤ K.kmallocMax) :
    (items.map AesdBufferEntry.size).sum < 2 ^ K.width := by
  have hfit := K.ring_fits
  have hsum : (items.map AesdBufferEntry.size).sum ≤ (items.map AesdBufferEntry.size).length • K.kmallocMax := by
    apply List.sum_le_card_nsmul
    intro n hn
    obtain ⟨e, he, rfl⟩ := List.mem_map.mp hn
    exact hle e he
  rw [List.length_map, smul_eq_mul] at hsum
  have := Nat.mul_le_mul_right K.kmallocMax h.length_le
  omega

/-- More fuel than ten slots changes nothing: the loop ends by its own test. -/
theorem findLoop_fuel (K : Kernel) (b : AesdCircularBuffer) (hout : b.outOffs < 10) (off n k s : Nat)
    (hk : k < 10) (hn : 10 ≤ n + k) :
    findLoop K b off n ((b.outOffs + k) % 10) s = findLoop K b off (10 - k) ((b.outOffs + k) % 10) s := by
  induction n generalizing k s with
  | zero => omega
  | succ n ih =>
      obtain ⟨m, hm⟩ : ∃ m, 10 - k = m + 1 := ⟨10 - k - 1, by omega⟩
      rw [hm]
      have hi : ((b.outOffs + k) % 10 + 1) % 10 = (b.outOffs + (k + 1)) % 10 := by omega
      simp only [findLoop, hi]
      split_ifs with h1 h2
      · rfl
      · rfl
      · have hk1 : k + 1 < 10 := by
          by_contra hge
          exact h2 (by have := hout; omega)
        rw [ih (k + 1) _ hk1 (by omega), show 10 - (k + 1) = m by omega]

end AesdCircularBuffer

end Aesd.Driver
