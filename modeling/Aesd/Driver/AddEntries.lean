import Aesd.Driver.CircularBuffer

/-!
# Runs of `aesd_circular_buffer_add_entry`

* `addEntries b es` : the calls for `es` in order, with what each returned;
* `buffer_is_last_ten_queue` : from `aesd_circular_buffer_init` the buffer is the queue of the last ten entries, and hands
  back the pointer of every entry it drops;
* `find_is_indexing` : on every such buffer the search is indexing into the concatenation of the entries.
-/

namespace Aesd.Driver
open Lib

/-- The calls for a list of entries: what each returned, and the buffer after them. -/
def addEntries (b : AesdCircularBuffer) : List AesdBufferEntry → List (Option Nat) × AesdCircularBuffer
  | [] => ([], b)
  | e :: es =>
    let (result, b) := aesdCircularBufferAddEntry b e
    let (results, b) := addEntries b es
    (result :: results, b)

theorem addEntries_concat (b : AesdCircularBuffer) (es : List AesdBufferEntry) (e : AesdBufferEntry) :
    addEntries b (es ++ [e]) =
      ((addEntries b es).1 ++ [(aesdCircularBufferAddEntry (addEntries b es).2 e).1],
        (aesdCircularBufferAddEntry (addEntries b es).2 e).2) := by
  induction es generalizing b with
  | nil => rfl
  | cons x es ih =>
      rw [List.cons_append]
      simp only [addEntries, ih, List.cons_append]

theorem rep_addEntries (es : List AesdBufferEntry) :
    (addEntries aesdCircularBufferInit es).2.Rep (es.rtake 10) := by
  induction es using List.reverseRecOn with
  | nil => exact AesdCircularBuffer.rep_init
  | append_singleton es e ih =>
      rw [addEntries_concat, rtake_append_singleton _ _ _ (by decide)]
      exact ih.addEntry e

theorem length_addEntries (b : AesdCircularBuffer) (es : List AesdBufferEntry) :
    (addEntries b es).1.length = es.length := by
  induction es generalizing b with
  | nil => rfl
  | cons e es ih => simp [addEntries, ih]

theorem addEntry_after (es : List AesdBufferEntry) (e : AesdBufferEntry) :
    (aesdCircularBufferAddEntry (addEntries aesdCircularBufferInit es).2 e).1 =
      if es.length < 10 then none else es[es.length - 10]?.bind AesdBufferEntry.buffptr := by
  have hlen : (es.rtake 10).length = es.length - (es.length - 10) := by
    rw [List.rtake, List.length_drop]
  rw [(rep_addEntries es).addEntry_result e, hlen]
  by_cases hlt : es.length < 10
  · rw [if_neg (by omega), if_pos hlt]
  · rw [if_pos (by omega), if_neg hlt, List.rtake, List.head?_drop]

theorem results_addEntries (es : List AesdBufferEntry) {i : Nat} (hi : i < es.length) :
    (addEntries aesdCircularBufferInit es).1[i]? =
      some (if i < 10 then none else es[i - 10]?.bind AesdBufferEntry.buffptr) := by
  induction es using List.reverseRecOn with
  | nil => simp at hi
  | append_singleton es e ih =>
      rw [List.length_append, List.length_singleton] at hi
      have hlen := length_addEntries aesdCircularBufferInit es
      rw [addEntries_concat]
      by_cases hlast : i < es.length
      · rw [List.getElem?_append_left (by omega), ih hlast, List.getElem?_append_left (by omega)]
      · obtain rfl : i = es.length := by omega
        rw [List.getElem?_append_right (by omega), hlen, Nat.sub_self, List.getElem?_singleton, if_pos rfl, addEntry_after]
        by_cases hlt : es.length < 10
        · rw [if_pos hlt, if_pos hlt]
        · rw [if_neg hlt, if_neg hlt, List.getElem?_append_left (by omega)]

/-- What was handed back and what is still held are the pointers that were added, each once. -/
theorem handed_back_append_held (es : List AesdBufferEntry) :
    (addEntries aesdCircularBufferInit es).1.drop 10 ++ (es.rtake 10).map AesdBufferEntry.buffptr =
      es.map AesdBufferEntry.buffptr := by
  have hback : (addEntries aesdCircularBufferInit es).1.drop 10 =
      (es.take (es.length - 10)).map AesdBufferEntry.buffptr := by
    apply List.ext_getElem?
    intro i
    rw [List.getElem?_drop, List.getElem?_map, List.getElem?_take]
    by_cases hi : i < es.length - 10
    · rw [results_addEntries es (by omega), if_neg (by omega), if_pos hi, Nat.add_sub_cancel_left,
        List.getElem?_eq_getElem (by omega)]
      rfl
    · rw [if_neg hi, List.getElem?_eq_none (by rw [length_addEntries]; omega)]
      rfl
  rw [hback, ← List.map_append, List.rtake, List.take_append_drop]

/-- **The buffer is the queue of the last ten entries.** After the calls for `es` both indices are below ten; from
`out_offs` on the slots hold the last ten entries, oldest first, and then only zeros; `full` is set from the tenth call
on, and then the indices meet; call `i` hands back the pointer of the entry added ten calls before it, so every pointer
is held or was handed back, once. -/
theorem buffer_is_last_ten_queue (es : List AesdBufferEntry) :
    ∃ results b, addEntries aesdCircularBufferInit es = (results, b) ∧ b.inOffs < 10 ∧ b.outOffs < 10 ∧
      (List.range (min es.length 10)).map (fun k => b.slot ((b.outOffs + k) % 10)) = es.rtake 10 ∧
      (b.full = true ↔ 10 ≤ es.length) ∧ (b.full = true → b.inOffs = b.outOffs) ∧
      (∀ k, min es.length 10 ≤ k → k < 10 → b.slot ((b.outOffs + k) % 10) = .zero) ∧
      results.length = es.length ∧
      (∀ i < es.length, results[i]? = some (if i < 10 then none else es[i - 10]?.bind AesdBufferEntry.buffptr)) ∧
      results.drop 10 ++ (es.rtake 10).map AesdBufferEntry.buffptr = es.map AesdBufferEntry.buffptr := by
  have hrep := rep_addEntries es
  have hlen : (es.rtake 10).length = min es.length 10 := by
    rw [List.rtake, List.length_drop]
    omega
  have hfull : (addEntries aesdCircularBufferInit es).2.full = true ↔ 10 ≤ es.length := by
    rw [hrep.full_iff, hlen]
    omega
  refine ⟨_, _, rfl, RingRep.in_lt hrep, hrep.out_lt, ?_, hfull, fun hf => ?_, fun k hk hk10 => ?_,
    length_addEntries _ es, fun i hi => results_addEntries es hi, handed_back_append_held es⟩
  · apply List.ext_getElem
    · rw [List.length_map, List.length_range]
      exact hlen.symm
    · intro k hk hk'
      rw [List.getElem_map, List.getElem_range]
      exact hrep.slot_held hk'
  · apply (RingRep.in_eq_out_iff hrep).mpr
    right
    exact hrep.full_iff.mp hf
  · exact hrep.slot_unused (by omega) hk10

/-- **The search is indexing into the concatenation.** On every buffer that calls for `es` built and whose entries fit
into `size_t` together, the search fails exactly past their total size; otherwise it finds a slot that holds one of them,
not an empty one, and the offset in it at which position `charOffset` of the concatenation lies. -/
theorem find_is_indexing (K : Kernel) (es : List AesdBufferEntry)
    (hfit : ((es.rtake 10).map AesdBufferEntry.size).sum < 2 ^ K.width) (charOffset : Nat)
    (hoff : charOffset < 2 ^ K.width) :
    (aesdCircularBufferFindEntryOffsetForFpos K (addEntries aesdCircularBufferInit es).2 charOffset = none ↔
      ((es.rtake 10).map AesdBufferEntry.size).sum ≤ charOffset) ∧
    ∀ i o, aesdCircularBufferFindEntryOffsetForFpos K (addEntries aesdCircularBufferInit es).2 charOffset = some (i, o) →
      ∃ k e, (es.rtake 10)[k]? = some e ∧ i = ((addEntries aesdCircularBufferInit es).2.outOffs + k) % 10 ∧
        (addEntries aesdCircularBufferInit es).2.slot i = e ∧ 0 < e.size ∧ o < e.size ∧
        charOffset = (((es.rtake 10).take k).map AesdBufferEntry.size).sum + o ∧
        ∀ bytes : AesdBufferEntry → List Byte, (∀ e ∈ es.rtake 10, (bytes e).length = e.size) →
          ((es.rtake 10).flatMap bytes)[charOffset]? = (bytes e)[o]? := by
  have hrep := rep_addEntries es
  have hfind := hrep.find K hfit hoff
  refine ⟨?_, fun i o hfound => ?_⟩
  · rw [hfind, Option.map_eq_none_iff]
    exact locate_eq_none _ _ _
  · rw [hfind, Option.map_eq_some_iff] at hfound
    obtain ⟨⟨k, o⟩, hloc, heq⟩ := hfound
    cases heq
    obtain ⟨e, hk, ho, hpos⟩ := locate_spec _ hloc
    obtain ⟨hlt, hget⟩ := List.getElem?_eq_some_iff.mp hk
    refine ⟨k, e, hk, rfl, ?_, by omega, ho, hpos, fun bytes hbytes => ?_⟩
    · rw [← hget]
      exact hrep.slot_held hlt
    · have hsizes : ((es.rtake 10).take k).map (fun e => (bytes e).length) =
          ((es.rtake 10).take k).map AesdBufferEntry.size :=
        List.map_congr_left fun e he => hbytes e (List.mem_of_mem_take he)
      have he := hbytes e (List.mem_of_getElem? hk)
      have hstart : charOffset = (((es.rtake 10).take k).map fun e => (bytes e).length).sum + o := by
        rw [hsizes]
        exact hpos
      have hread := drop_take_flatMap bytes hk (by omega) hstart (by omega : 1 ≤ (bytes e).length - o)
      have hhead := congrArg (fun bs : List Byte => bs[0]?) hread
      simpa only [List.getElem?_take_of_lt Nat.one_pos, List.getElem?_drop, Nat.add_zero] using hhead

/-- Two entries, one of them empty: position 1 is in the other. -/
theorem find_is_indexing_behind_empty :
    ∃ e, (addEntries aesdCircularBufferInit [⟨some 0, 0⟩, ⟨some 1, 3⟩]).2.slot 1 = e ∧ 0 < e.size := by
  obtain ⟨-, hfound⟩ := find_is_indexing .linux64 [⟨some 0, 0⟩, ⟨some 1, 3⟩] (by decide) 1 (by decide)
  obtain ⟨k, e, -, -, hslot, hpos, -⟩ := hfound 1 1 (by decide)
  exact ⟨e, hslot, hpos⟩

end Aesd.Driver
