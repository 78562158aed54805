import Aesd.Driver.Invariant

/-!
# What a read delivers

* `Inv.readable_eq` : the content of the device is the last ten committed packets; `Inv.readable_drop` : it is what
  remains of everything ever committed after the `evicted` bytes are dropped;
* `aesdRead_eq` : the result of `aesd_read` in closed form: the rest of the packet at the file position, cut to the bytes
  asked for; `aesdRead_past`, `aesdRead_inside` : past the content nothing, inside it at least one of them.
-/

namespace Aesd.Driver
open Lib

variable {K : Kernel} {s : AesdDev} {items : List AesdBufferEntry}

theorem Inv.length_bytes (h : Inv K s items) {e : AesdBufferEntry} (he : e ∈ items) :
    ((s.heap.bytes e).getD []).length = e.size := by
  obtain ⟨p, data, hp, hd, hlen, -⟩ := h.held e he
  rw [Heap.bytes_of_holds hp hd hlen, Option.getD_some, hlen]

theorem Inv.readable_flatMap (h : Inv K s items) : s.readable = items.flatMap fun e => (s.heap.bytes e).getD [] := by
  have hzero : (List.replicate (10 - items.length) AesdBufferEntry.zero).flatMap
      (fun e => (s.heap.bytes e).getD []) = [] := by
    rw [List.flatMap_eq_nil_iff]
    intro e he
    rw [List.eq_of_mem_replicate he]
    rfl
  rw [AesdDev.readable, h.rep.fromOut, List.flatMap_append, hzero, List.append_nil]

theorem Inv.readable_eq (h : Inv K s items) : s.readable = (s.committed.rtake 10).flatten := by
  rw [h.readable_flatMap, List.flatMap_def, h.log]

theorem Inv.length_readable (h : Inv K s items) : s.readable.length = (items.map AesdBufferEntry.size).sum := by
  rw [h.readable_flatMap, List.length_flatMap]
  congr 1
  apply List.map_congr_left
  intro e he
  exact h.length_bytes he

theorem Inv.evicted_add (h : Inv K s items) : s.evicted + s.readable.length = s.committed.flatten.length := by
  rw [h.length_readable, h.evicted, List.length_flatten]

theorem Inv.readable_drop (h : Inv K s items) : s.readable = s.committed.flatten.drop s.evicted := by
  have hsum := h.evicted_add
  rw [h.readable_eq, flatten_rtake] at hsum ⊢
  rw [List.length_drop] at hsum
  have hle : ((s.committed.take (s.committed.length - 10)).map List.length).sum ≤ s.committed.flatten.length := by
    rw [List.length_flatten]
    conv_rhs => rw [← List.take_append_drop (s.committed.length - 10) s.committed]
    rw [List.map_append, List.sum_append]
    omega
  rw [show s.evicted = ((s.committed.take (s.committed.length - 10)).map List.length).sum by omega]

/-- The bytes that a read of `count` bytes at position `pos` delivers. -/
def packetRest (packets : List (List Byte)) (pos count : Nat) : List Byte := (restAt (packets.rtake 10) pos).take count

theorem aesdRead_eq (h : Inv K s items) (fpos count : Nat) (o : ReadOutcome) :
    aesdRead K s fpos count o =
      if o.bufLock then
        if o.copyToUser ∨ s.readable.length ≤ fpos % 2 ^ K.width then
          .ok ⟨((packetRest s.committed (fpos % 2 ^ K.width) count).length : Int),
            packetRest s.committed (fpos % 2 ^ K.width) count,
            fpos + (packetRest s.committed (fpos % 2 ^ K.width) count).length⟩
        else .ok ⟨-EFAULT, [], fpos⟩
      else .ok ⟨-ERESTARTSYS, [], fpos⟩ := by
  have hoff : fpos % 2 ^ K.width < 2 ^ K.width := Nat.mod_lt _ (Nat.two_pow_pos _)
  rw [aesdRead, h.rep.find K h.total_lt hoff]
  cases hloc : locate AesdBufferEntry.size items (fpos % 2 ^ K.width) with
  | none =>
      rw [locate_eq_none, ← h.length_readable] at hloc
      have hnil : packetRest s.committed (fpos % 2 ^ K.width) count = [] := by
        rw [packetRest, (restAt_eq_nil _ _).mpr (by rw [← h.readable_eq]; exact hloc), List.take_nil]
      rw [if_pos (Or.inr hloc), hnil]
      rfl
  | some found =>
      obtain ⟨k, off⟩ := found
      have hlt : ¬ s.readable.length ≤ fpos % 2 ^ K.width := by
        rw [h.length_readable, ← locate_eq_none, hloc]
        simp
      obtain ⟨e, he, hoffe, -⟩ := locate_spec _ hloc
      obtain ⟨hk, hek⟩ := List.getElem?_eq_some_iff.mp he
      obtain ⟨p, data, hp, hd, hlen, -, hmax⟩ := h.held e (List.mem_of_getElem? he)
      have hfit := K.append_fits
      have hrest : K.sub e.size off = e.size - off := K.sub_eq (by omega) (by omega)
      have hmin : (if K.sub e.size off > count then count else K.sub e.size off) = min (e.size - off) count := by
        rw [hrest]
        split_ifs <;> omega
      -- the entry is the packet at this position
      have hpacket : packetRest s.committed (fpos % 2 ^ K.width) count =
          (data.drop off).take (min (e.size - off) count) := by
        obtain ⟨e', he', hmap⟩ := restAt_map AesdBufferEntry.size (fun e => (s.heap.bytes e).getD [])
          (fun e he => (h.length_bytes he).symm) hloc
        obtain rfl : e = e' := Option.some.inj (he.symm.trans he')
        rw [packetRest, ← h.log, hmap, Heap.bytes_of_holds hp hd hlen, Option.getD_some, List.take_eq_take_iff,
          List.length_drop]
        omega
      have hlength : (packetRest s.committed (fpos % 2 ^ K.width) count).length = min (e.size - off) count := by
        rw [hpacket, List.length_take, List.length_drop]
        omega
      have hslot : s.buf.slot ((s.buf.outOffs + k) % 10) = e := by rw [h.rep.slot_held hk, hek]
      have hload : s.heap.load p off (min (e.size - off) count) =
          .ok (packetRest s.committed (fpos % 2 ^ K.width) count) := by
        rw [hpacket]
        exact Heap.load_of_holds hd (by omega)
      simp only [Option.map_some, hslot, hmin, hp, hload, bind, Except.bind, hlt, or_false, hlength]

theorem aesdRead_past (h : Inv K s items) {fpos : Nat} (hpos : s.readable.length ≤ fpos % 2 ^ K.width) (count : Nat)
    (o : ReadOutcome) :
    aesdRead K s fpos count o = if o.bufLock then .ok ⟨0, [], fpos⟩ else .ok ⟨-ERESTARTSYS, [], fpos⟩ := by
  have hnil : packetRest s.committed (fpos % 2 ^ K.width) count = [] := by
    rw [packetRest, (restAt_eq_nil _ _).mpr (by rw [← h.readable_eq]; exact hpos), List.take_nil]
  rw [aesdRead_eq h, if_pos (Or.inr hpos), hnil]
  rfl

theorem aesdRead_inside (h : Inv K s items) {fpos : Nat} (hpos : fpos % 2 ^ K.width < s.readable.length) :
    ∃ rest, 0 < rest ∧ fpos % 2 ^ K.width + rest ≤ s.readable.length ∧ ∀ count o,
      aesdRead K s fpos count o =
        if o.bufLock then
          if o.copyToUser then
            .ok ⟨(min rest count : Nat), (s.readable.drop (fpos % 2 ^ K.width)).take (min rest count),
              fpos + min rest count⟩
          else .ok ⟨-EFAULT, [], fpos⟩
        else .ok ⟨-ERESTARTSYS, [], fpos⟩ := by
  have hprefix := restAt_prefix_drop (s.committed.rtake 10) (fpos % 2 ^ K.width)
  rw [← h.readable_eq] at hprefix
  have hne : restAt (s.committed.rtake 10) (fpos % 2 ^ K.width) ≠ [] := by
    rw [Ne, restAt_eq_nil, ← h.readable_eq]
    omega
  have hle := hprefix.length_le
  rw [List.length_drop] at hle
  refine ⟨_, List.length_pos_iff.mpr hne, by omega, fun count o => ?_⟩
  have hdata : packetRest s.committed (fpos % 2 ^ K.width) count = (s.readable.drop (fpos % 2 ^ K.width)).take
      (min (restAt (s.committed.rtake 10) (fpos % 2 ^ K.width)).length count) := by
    rw [Nat.min_comm, ← List.take_take, ← List.prefix_iff_eq_take.mp hprefix]
    rfl
  have hlength : (packetRest s.committed (fpos % 2 ^ K.width) count).length =
      min (restAt (s.committed.rtake 10) (fpos % 2 ^ K.width)).length count := by
    rw [packetRest, List.length_take, Nat.min_comm]
  rw [aesdRead_eq h, hlength, hdata]
  simp only [Nat.not_le.mpr hpos, or_false]

/-- A read never faults, and a read that does not succeed leaves the position. -/
theorem aesdRead_total (h : Inv K s items) (fpos count : Nat) (o : ReadOutcome) :
    ∃ ret, aesdRead K s fpos count o = .ok ret := by
  rcases Nat.lt_or_ge (fpos % 2 ^ K.width) s.readable.length with hlt | hge
  · obtain ⟨rest, -, -, heq⟩ := aesdRead_inside h hlt
    rw [heq]
    split_ifs <;> exact ⟨_, rfl⟩
  · rw [aesdRead_past h hge]
    split_ifs <;> exact ⟨_, rfl⟩

end Aesd.Driver
