import Aesd.Driver.Write

/-!
# The invariant of the device, and every exit of `aesd_write`

* `Inv K s items` : the ring holds `items`, each with a live block of its own of exactly its size; the pending entry
  shares no block with the ring; no other block is live; the ring is the end of the packets committed so far. It does
  not say that the pending buffer is live: after a failed `copy_from_user` it may not be (`AesdDev.pending = none`);
* `aesdWrite_eq`, `aesdWrite_dangling` : the result of a write, exit by exit;
* `Inv.aesdWrite`, `Inv.applyCall`, `Inv.of_reachable` : every call keeps the invariant.
-/

namespace Aesd.Driver
open Lib

/-- The packet is complete: its last byte is a newline. -/
def endsPacket (bytes : List Byte) : Bool := bytes.getLast?.any Byte.isNewline

structure Inv (K : Kernel) (s : AesdDev) (items : List AesdBufferEntry) : Prop where
  rep : s.buf.Rep items
  held : ∀ e ∈ items, ∃ p data, e.buffptr = some p ∧ s.heap.Holds p data ∧ data.length = e.size ∧ 0 < e.size ∧
    e.size ≤ K.kmallocMax
  nodup : (items.map AesdBufferEntry.buffptr).Nodup
  apart : s.entry.buffptr ∉ items.map AesdBufferEntry.buffptr
  null : s.entry.buffptr = none → s.entry.size = 0
  size : ∀ p, s.entry.buffptr = some p → ∃ b, s.heap.block p = some b ∧ b.data.length = s.entry.size
  size_le : s.entry.size ≤ K.kmallocMax
  owned : ∀ p, s.heap.Live p → s.entry.buffptr = some p ∨ some p ∈ items.map AesdBufferEntry.buffptr
  log : items.map (fun e => (s.heap.bytes e).getD []) = s.committed.rtake 10
  evicted : s.evicted + (items.map AesdBufferEntry.size).sum = (s.committed.map List.length).sum

theorem Heap.bytes_congr {h h' : Heap} {e : AesdBufferEntry} (hb : ∀ p, e.buffptr = some p → h'.block p = h.block p) :
    h'.bytes e = h.bytes e := by
  unfold bytes
  cases hp : e.buffptr with
  | none => rfl
  | some p => simp [hb p hp]

theorem Heap.bytes_of_holds {h : Heap} {e : AesdBufferEntry} {p : Nat} {data : List Byte} (he : e.buffptr = some p)
    (hp : h.Holds p data) (hlen : data.length = e.size) : h.bytes e = some data := by
  simp [bytes, he, show h.block p = some ⟨data, true⟩ from hp, ← hlen]

theorem inv_init (K : Kernel) : Inv K aesdInitModule [] where
  rep := AesdCircularBuffer.rep_init
  held e he := by simp at he
  nodup := by simp
  apart := by simp
  null _ := rfl
  size p hp := by simp [aesdInitModule, AesdBufferEntry.zero] at hp
  size_le := Nat.zero_le _
  owned p hp := by
    obtain ⟨data, hd⟩ := hp
    simp [Heap.Holds, Heap.block, aesdInitModule] at hd
  log := by simp [aesdInitModule]
  evicted := by simp [aesdInitModule]

namespace Inv
variable {K : Kernel} {s : AesdDev} {items : List AesdBufferEntry}

theorem ptr_ne (h : Inv K s items) {e : AesdBufferEntry} (he : e ∈ items) {p : Nat} (hp : e.buffptr = some p) :
    s.entry.buffptr ≠ some p := by
  intro heq
  exact h.apart (heq ▸ hp ▸ List.mem_map_of_mem he)

theorem ptr_lt (h : Inv K s items) {e : AesdBufferEntry} (he : e ∈ items) {p : Nat} (hp : e.buffptr = some p) :
    p < s.heap.blocks.length := by
  obtain ⟨q, data, hq, hd, -⟩ := h.held e he
  rw [hp] at hq
  cases hq
  exact hd.lt

theorem total_lt (h : Inv K s items) : (items.map AesdBufferEntry.size).sum < 2 ^ K.width := by
  apply h.rep.total_lt K
  intro e he
  obtain ⟨-, -, -, -, -, -, hsz⟩ := h.held e he
  exact hsz

theorem pend (h : Inv K s items) {data : List Byte} (hp : s.pending = some data) : Pend K s data := by
  unfold AesdDev.pending Heap.bytes at hp
  cases hb : s.entry.buffptr with
  | none =>
      rw [hb] at hp
      cases hp
      exact ⟨h.null hb, Nat.zero_le _, fun p hp => by simp [hb] at hp, fun _ => rfl⟩
  | some p =>
      obtain ⟨b, hblock, hlen⟩ := h.size p hb
      obtain ⟨d, live⟩ := b
      simp only [hb, hblock] at hp
      cases live with
      | false => simp at hp
      | true =>
          simp only [Option.some.injEq] at hp
          have hd : d = data := by rw [← hp, ← hlen, List.take_length]
          subst hd
          have hle : d.length ≤ K.kmallocMax := hlen ▸ h.size_le
          refine ⟨hlen.symm, hle, fun q hq => ?_, fun hq => by simp [hb] at hq⟩
          rw [hb] at hq
          cases hq
          exact hblock

theorem dangling (h : Inv K s items) (hp : s.pending = none) :
    ∃ p data, s.entry.buffptr = some p ∧ s.heap.block p = some ⟨data, false⟩ := by
  unfold AesdDev.pending Heap.bytes at hp
  cases hb : s.entry.buffptr with
  | none => simp [hb] at hp
  | some p =>
      obtain ⟨⟨data, live⟩, hblock, -⟩ := h.size p hb
      cases live with
      | false => exact ⟨p, data, rfl, hblock⟩
      | true => simp [hb, hblock] at hp

/-! ## The ring under changes of the ledger -/

/-- Freeing the pending buffer and allocating a block leave the ring's blocks alone. -/
theorem block_frame (h : Inv K s items) (b : Block) {e : AesdBufferEntry} (he : e ∈ items) {p : Nat}
    (hp : e.buffptr = some p) : ((s.heap.freeOpt s.entry.buffptr).push b).block p = s.heap.block p := by
  have hlt := h.ptr_lt he hp
  rw [Heap.block_push, if_neg (by rw [Heap.length_freeOpt]; omega), Heap.block_freeOpt_ne _ (h.ptr_ne he hp)]

theorem held_frame (h : Inv K s items) {heap : Heap}
    (hf : ∀ e ∈ items, ∀ p, e.buffptr = some p → heap.block p = s.heap.block p) :
    ∀ e ∈ items, ∃ p data, e.buffptr = some p ∧ heap.Holds p data ∧ data.length = e.size ∧ 0 < e.size ∧
      e.size ≤ K.kmallocMax := by
  intro e he
  obtain ⟨p, data, hp, hd, hrest⟩ := h.held e he
  refine ⟨p, data, hp, ?_, hrest⟩
  rw [Heap.Holds, hf e he p hp]
  exact hd

theorem log_frame (h : Inv K s items) {heap : Heap}
    (hf : ∀ e ∈ items, ∀ p, e.buffptr = some p → heap.block p = s.heap.block p) :
    items.map (fun e => (heap.bytes e).getD []) = s.committed.rtake 10 := by
  rw [← h.log]
  apply List.map_congr_left
  intro e he
  rw [Heap.bytes_congr (hf e he)]

theorem owned_frame (h : Inv K s items) (b : Block) {p : Nat}
    (hp : ((s.heap.freeOpt s.entry.buffptr).push b).Live p) :
    p = s.heap.blocks.length ∧ b.live = true ∨ some p ∈ items.map AesdBufferEntry.buffptr := by
  obtain ⟨data, hd⟩ := hp
  rw [Heap.Holds, Heap.block_push, Heap.length_freeOpt] at hd
  split_ifs at hd with hnew
  · exact Or.inl ⟨hnew, by rw [Option.some.inj hd]⟩
  · right
    cases hb : s.entry.buffptr with
    | none =>
        rw [hb] at hd
        exact (h.owned p ⟨data, hd⟩).resolve_left (by simp [hb])
    | some q =>
        rw [hb] at hd
        by_cases hq : p = q
        · subst hq
          exact absurd ⟨data, hd⟩ (Heap.not_live_free _ _)
        · rw [Heap.block_freeOpt_ne _ (by simpa using Ne.symm hq)] at hd
          exact (h.owned p ⟨data, hd⟩).resolve_left (by simpa [hb] using Ne.symm hq)

/-! ## The three changes a write makes -/

theorem copyFailed (h : Inv K s items) {data : List Byte} (hd : Pend K s data) (buf : List Byte) :
    Inv K (s.copyFailed data buf) items where
  rep := h.rep
  held := h.held_frame fun _ he _ hp => h.block_frame _ he hp
  nodup := h.nodup
  apart := h.apart
  null := h.null
  size p hp := by
    have hp' : s.entry.buffptr = some p := hp
    have hholds := hd.holds p hp'
    have hlt := hholds.lt
    refine ⟨⟨data, false⟩, ?_, hd.size_eq.symm⟩
    simp only [AesdDev.copyFailed, hp', Heap.freeOpt]
    rw [Heap.block_push, if_neg (by rw [Heap.length_free]; omega), Heap.block_free, hholds]
    rfl
  size_le := h.size_le
  owned p hp := by
    rcases h.owned_frame _ hp with ⟨-, hlive⟩ | hring
    · simp at hlive
    · exact Or.inr hring
  log := h.log_frame fun _ he _ hp => h.block_frame _ he hp
  evicted := h.evicted

theorem stored (h : Inv K s items) {data buf : List Byte} (hle : data.length + buf.length ≤ K.kmallocMax) :
    Inv K (s.stored data buf) items where
  rep := h.rep
  held := h.held_frame fun _ he _ hp => h.block_frame _ he hp
  nodup := h.nodup
  apart hmem := by
    obtain ⟨e, he, hp⟩ := List.mem_map.mp hmem
    have := h.ptr_lt he hp
    omega
  null hp := by simp [AesdDev.stored] at hp
  size p hp := by
    simp only [AesdDev.stored, Option.some.injEq] at hp ⊢
    exact ⟨⟨data ++ buf, true⟩, by rw [Heap.block_push, Heap.length_freeOpt, if_pos hp.symm], by simp⟩
  size_le := hle
  owned p hp := by
    rcases h.owned_frame _ hp with ⟨rfl, -⟩ | hring
    · exact Or.inl rfl
    · exact Or.inr hring
  log := h.log_frame fun _ he _ hp => h.block_frame _ he hp
  evicted := h.evicted

theorem pend_stored {data buf : List Byte} (hle : data.length + buf.length ≤ K.kmallocMax) :
    Pend K (s.stored data buf) (data ++ buf) where
  size_eq := by simp [AesdDev.stored]
  size_le := by simpa using hle
  holds p hp := by
    simp only [AesdDev.stored, Option.some.injEq] at hp ⊢
    rw [Heap.Holds, Heap.block_push, Heap.length_freeOpt, if_pos hp.symm]
  null hp := by simp [AesdDev.stored] at hp

theorem addEntry_cases (h : Inv K s items) (e : AesdBufferEntry) :
    ((items ++ [e]).rtake 10 = items ++ [e] ∧ (aesdCircularBufferAddEntry s.buf e).1 = none ∧ s.buf.dropSize = 0) ∨
    ∃ x rest, items = x :: rest ∧ (items ++ [e]).rtake 10 = rest ++ [e] ∧
      (aesdCircularBufferAddEntry s.buf e).1 = x.buffptr ∧ s.buf.dropSize = x.size := by
  have hlen := h.rep.length_le
  have hres := h.rep.addEntry_result e
  by_cases hfull : items.length = 10
  · right
    cases items with
    | nil => simp at hfull
    | cons x rest =>
        refine ⟨x, rest, rfl, ?_, by rw [hres, if_pos hfull]; rfl, ?_⟩
        · simp only [List.length_cons] at hfull
          rw [List.rtake, List.length_append, List.length_cons, List.length_singleton,
            show rest.length + 1 + 1 - 10 = 1 by omega, List.cons_append, List.drop_succ_cons, List.drop_zero]
        · have hslot := h.rep.slot_held (show 0 < (x :: rest).length by simp)
          rw [Nat.add_zero, Nat.mod_eq_of_lt h.rep.out_lt] at hslot
          rw [AesdCircularBuffer.dropSize, if_pos (h.rep.full_iff.mpr hfull), hslot, List.getElem_cons_zero]
  · refine Or.inl ⟨rtake_of_length_le _ _ (by simp; omega), by rw [hres, if_neg hfull], ?_⟩
    rw [AesdCircularBuffer.dropSize, if_neg (fun hf => hfull (h.rep.full_iff.mp hf))]

theorem dropped_live (h : Inv K s items) (e : AesdBufferEntry) {p : Nat}
    (hp : (aesdCircularBufferAddEntry s.buf e).1 = some p) : s.heap.Live p ∧ s.entry.buffptr ≠ some p := by
  rcases h.addEntry_cases e with ⟨-, hnone, -⟩ | ⟨x, rest, rfl, -, hx, -⟩
  · rw [hnone] at hp
    cases hp
  · rw [hx] at hp
    obtain ⟨q, data, hq, hd, -⟩ := h.held x (by simp)
    rw [hp] at hq
    cases hq
    exact ⟨⟨data, hd⟩, h.ptr_ne (by simp) hp⟩

end Inv

section Push
variable {K : Kernel} {s : AesdDev} {items : List AesdBufferEntry}

/-- The entries of the ring and the packet behind them, before the oldest entry makes room for it. -/
structure Queue (K : Kernel) (s : AesdDev) (packet : List Byte) (queue : List AesdBufferEntry) : Prop where
  held : ∀ e ∈ queue, ∃ p data, e.buffptr = some p ∧ s.heap.Holds p data ∧ data.length = e.size ∧ 0 < e.size ∧
    e.size ≤ K.kmallocMax
  nodup : (queue.map AesdBufferEntry.buffptr).Nodup
  log : queue.map (fun e => (s.heap.bytes e).getD []) = s.committed.rtake 10 ++ [packet]
  evicted : s.evicted + (queue.map AesdBufferEntry.size).sum = ((s.committed ++ [packet]).map List.length).sum
  owned : ∀ p, s.heap.Live p → some p ∈ queue.map AesdBufferEntry.buffptr

theorem Inv.queue (h : Inv K s items) {packet : List Byte} (hd : Pend K s packet) (hne : packet ≠ []) :
    Queue K s packet (items ++ [s.entry]) := by
  have hpos : 0 < s.entry.size := by
    rw [hd.size_eq]
    exact List.length_pos_iff.mpr hne
  obtain ⟨p, hp⟩ : ∃ p, s.entry.buffptr = some p := by
    cases hb : s.entry.buffptr with
    | none => exact absurd (hd.null hb) hne
    | some p => exact ⟨p, rfl⟩
  have hholds := hd.holds p hp
  have hbytes : s.heap.bytes s.entry = some packet := Heap.bytes_of_holds hp hholds hd.size_eq.symm
  refine ⟨fun e he => ?_, ?_, ?_, ?_, fun q hq => ?_⟩
  · rcases List.mem_append.mp he with he | he
    · exact h.held e he
    · rw [List.mem_singleton.mp he]
      exact ⟨p, packet, hp, hholds, hd.size_eq.symm, hpos, h.size_le⟩
  · rw [List.map_append, List.map_singleton, List.nodup_append]
    refine ⟨h.nodup, by simp, fun a ha b hb => ?_⟩
    rw [List.mem_singleton.mp hb]
    rintro rfl
    exact h.apart ha
  · rw [List.map_append, h.log, List.map_singleton, hbytes, Option.getD_some]
  · rw [List.map_append, List.map_append, List.sum_append, List.sum_append, ← h.evicted]
    simp [hd.size_eq, Nat.add_assoc]
  · rw [List.map_append, List.mem_append]
    rcases h.owned q hq with he | hr
    · exact Or.inr (by simp [he])
    · exact Or.inl hr

namespace Queue
variable {packet : List Byte} {queue : List AesdBufferEntry}

theorem none_not_mem (h : Queue K s packet queue) : none ∉ queue.map AesdBufferEntry.buffptr := by
  intro hmem
  obtain ⟨e, he, hnull⟩ := List.mem_map.mp hmem
  obtain ⟨p, -, hp, -⟩ := h.held e he
  rw [hp] at hnull
  cases hnull

theorem committed_rtake (h : Queue K s packet queue) :
    (s.committed ++ [packet]).rtake 10 = (queue.rtake 10).map fun e => (s.heap.bytes e).getD [] := by
  rw [rtake_append_singleton _ _ _ (by decide), ← h.log, List.rtake, List.rtake, List.length_map, List.map_drop]

theorem keep (h : Queue K s packet queue) (hrep : (s.pushed packet).buf.Rep queue) (hroom : queue.rtake 10 = queue)
    (hnone : (aesdCircularBufferAddEntry s.buf s.entry).1 = none) (hdrop : s.buf.dropSize = 0) :
    Inv K (s.pushed packet) queue := by
  have hheap : (s.pushed packet).heap = s.heap := by simp [AesdDev.pushed, hnone, Heap.freeOpt]
  refine ⟨hrep, ?_, h.nodup, h.none_not_mem, fun _ => rfl,
    fun q hq => by simp [AesdDev.pushed, AesdBufferEntry.zero] at hq, Nat.zero_le _, ?_, ?_, ?_⟩
  · rw [hheap]
    exact h.held
  · rw [hheap]
    exact fun q hq => Or.inr (h.owned q hq)
  · have hlog := h.committed_rtake
    rw [hroom] at hlog
    rw [hheap]
    exact hlog.symm
  · simpa only [AesdDev.pushed, hdrop, Nat.add_zero] using h.evicted

theorem drop {x : AesdBufferEntry} (h : Queue K s packet (x :: queue)) (hrep : (s.pushed packet).buf.Rep queue)
    (hroom : (x :: queue).rtake 10 = queue) (hx : (aesdCircularBufferAddEntry s.buf s.entry).1 = x.buffptr)
    (hdrop : s.buf.dropSize = x.size) : Inv K (s.pushed packet) queue := by
  obtain ⟨q, old, hq, hold, holdlen, -⟩ := h.held x (by simp)
  have hheap : (s.pushed packet).heap = s.heap.free q := by simp [AesdDev.pushed, hx, hq, Heap.freeOpt]
  obtain ⟨hnot, hnodup⟩ := List.nodup_cons.mp h.nodup
  have hframe : ∀ e ∈ queue, ∀ r, e.buffptr = some r → (s.heap.free q).block r = s.heap.block r := by
    intro e he r hr
    apply Heap.block_free_ne
    rintro rfl
    apply hnot
    rw [hq, ← hr]
    exact List.mem_map_of_mem he
  refine ⟨hrep, fun e he => ?_, hnodup, fun hmem => h.none_not_mem (List.mem_cons_of_mem _ hmem), fun _ => rfl,
    fun r hr => by simp [AesdDev.pushed, AesdBufferEntry.zero] at hr, Nat.zero_le _, fun r hr => ?_, ?_, ?_⟩
  · obtain ⟨r, data, hr, hdata, hrest⟩ := h.held e (List.mem_cons_of_mem x he)
    refine ⟨r, data, hr, ?_, hrest⟩
    rw [hheap, Heap.Holds, hframe e he r hr]
    exact hdata
  · rw [hheap] at hr
    have hrq : r ≠ q := by
      rintro rfl
      exact Heap.not_live_free _ _ hr
    obtain ⟨data, hdata⟩ := hr
    rw [Heap.Holds, Heap.block_free_ne _ hrq] at hdata
    have hmem := h.owned r ⟨data, hdata⟩
    rw [List.map_cons, List.mem_cons, hq] at hmem
    exact Or.inr (hmem.resolve_left (by simpa using hrq))
  · have hrest : queue.map (fun e => ((s.heap.free q).bytes e).getD []) =
        queue.map (fun e => (s.heap.bytes e).getD []) := by
      apply List.map_congr_left
      intro e he
      rw [Heap.bytes_congr (hframe e he)]
    have hlog := h.committed_rtake
    rw [hroom] at hlog
    rw [hheap, hrest]
    exact hlog.symm
  · have hsum := h.evicted
    rw [List.map_cons, List.sum_cons] at hsum
    simp only [AesdDev.pushed, hdrop]
    omega

end Queue

theorem Inv.pushed (h : Inv K s items) {packet : List Byte} (hd : Pend K s packet) (hne : packet ≠ []) :
    Inv K (s.pushed packet) ((items ++ [s.entry]).rtake 10) := by
  have hqueue := h.queue hd hne
  have hrep := h.rep.addEntry s.entry
  rcases h.addEntry_cases s.entry with ⟨hkeep, hnone, hdrop⟩ | ⟨x, rest, rfl, hkeep, hx, hdrop⟩
  · rw [hkeep] at hrep ⊢
    exact hqueue.keep hrep hkeep hnone hdrop
  · rw [hkeep] at hrep ⊢
    exact hqueue.drop hrep hkeep hx hdrop

end Push

/-! ## Every exit of a write -/

section Exits
variable {K : Kernel} {s : AesdDev} {items : List AesdBufferEntry}

/-- The test for the newline reads the last byte of the entry; on an empty entry its index wraps. -/
theorem writeCommit_eq (h : Inv K s items) {packet : List Byte} (hd : Pend K s packet) {p : Nat}
    (hp : s.entry.buffptr = some p) :
    writeCommit K s =
      if packet = [] then .error (.outOfBounds p) else .ok (if endsPacket packet then s.pushed packet else s) := by
  have hholds := hd.holds p hp
  have hfit := K.append_fits
  have hle := hd.size_le
  unfold writeCommit
  simp only [hp]
  by_cases hnil : packet = []
  · rw [if_pos hnil]
    have hwrap : K.sub s.entry.size 1 = 2 ^ K.width - 1 := by
      rw [hd.size_eq, hnil, Kernel.sub, List.length_nil, Nat.zero_add]
      rcases Nat.lt_or_ge 1 (2 ^ K.width) with h1 | h1
      · rw [Nat.mod_eq_of_lt h1, Nat.mod_eq_of_lt (by omega)]
      · rw [show 2 ^ K.width = 1 by omega]
    have hbad : ¬ 2 ^ K.width - 1 + 1 ≤ packet.length := by
      have := Nat.two_pow_pos K.width
      rw [hnil, List.length_nil]
      omega
    simp only [hwrap, Heap.load, show s.heap.block p = some ⟨packet, true⟩ from hholds, if_neg hbad]
    rfl
  · rw [if_neg hnil]
    have hpos : 0 < packet.length := List.length_pos_iff.mpr hnil
    have hlast : s.heap.load p (K.sub s.entry.size 1) 1 = .ok [packet.getLast hnil] := by
      rw [K.sub_eq (by rw [hd.size_eq]; omega) (by rw [hd.size_eq]; omega), hd.size_eq,
        Heap.load_of_holds hholds (by omega), List.drop_length_sub_one hnil]
      rfl
    have hends : endsPacket packet = (packet.getLast hnil).isNewline := by
      rw [endsPacket, List.getLast?_eq_some_getLast hnil, Option.any_some]
    have hfree : s.heap.kfreeOpt (aesdCircularBufferAddEntry s.buf s.entry).1 =
        .ok (s.heap.freeOpt (aesdCircularBufferAddEntry s.buf s.entry).1) :=
      Heap.kfreeOpt_of_holds fun q hq => (h.dropped_live s.entry hq).1
    simp only [hlast, hends, bind, Except.bind, List.any_cons, List.any_nil, Bool.or_false, hfree]
    split_ifs
    · rw [AesdDev.pushed, Heap.bytes_of_holds hp hholds hd.size_eq.symm, Option.getD_some]
    · rfl

theorem allocSize_eq (h : Inv K s items) {data : List Byte} (hp : s.pending = some data) {count : Nat}
    (hc : count ≤ K.rwMax) : s.allocSize K count = data.length + count := by
  have hd := h.pend hp
  have hfit := K.append_fits
  have hle := hd.size_le
  unfold AesdDev.allocSize
  cases hb : s.entry.buffptr with
  | none => simp [hd.null hb]
  | some p =>
      have hs := hd.size_eq
      simp only
      rw [K.add_eq (by omega), hs]

/-- **The result of a write**, exit by exit, on a device whose pending buffer is allocated. -/
theorem aesdWrite_eq (h : Inv K s items) {data : List Byte} (hp : s.pending = some data) (buf : K.UserBuf)
    (o : WriteOutcome) :
    aesdWrite K s buf o =
      if o.entryLock then
        if Granted K s buf.val.length o then
          if o.copyFromUser then
            if o.bufLock then
              if data ++ buf.val = [] then .error (.outOfBounds s.heap.blocks.length)
              else .ok ((buf.val.length : Int),
                if endsPacket (data ++ buf.val) then (s.stored data buf.val).pushed (data ++ buf.val)
                else s.stored data buf.val)
            else .ok (-EINTR, s.stored data buf.val)
          else .ok (-EFAULT, s.copyFailed data buf.val)
        else .ok (-ENOMEM, s)
      else .ok (-ERESTARTSYS, s) := by
  unfold aesdWrite
  rw [writeEntry_eq (h.pend hp) buf.val buf.property]
  by_cases hg : Granted K s buf.val.length o
  · have hle : data.length + buf.val.length ≤ K.kmallocMax := allocSize_eq h hp buf.property ▸ hg.2
    have hcommit := writeCommit_eq (h.stored hle) (Inv.pend_stored hle) rfl
    simp only [if_pos hg]
    cases o.entryLock <;> cases o.copyFromUser <;> cases o.bufLock <;> try rfl
    simp only [if_true, bind, Except.bind, hcommit]
    by_cases hnil : data ++ buf.val = []
    · rw [if_pos hnil, if_pos hnil]
    · rw [if_neg hnil, if_neg hnil]
  · simp only [if_neg hg]
    cases o.entryLock <;> rfl

theorem aesdWrite_dangling (h : Inv K s items) (hp : s.pending = none) (buf : K.UserBuf) (o : WriteOutcome) :
    ∃ p, aesdWrite K s buf o =
      if o.entryLock then
        if Granted K s buf.val.length o then .error (.useAfterFree p) else .ok (-ENOMEM, s)
      else .ok (-ERESTARTSYS, s) := by
  obtain ⟨p, data, hb, hblock⟩ := h.dangling hp
  refine ⟨p, ?_⟩
  have hlt := Heap.lt_of_block hblock
  have hiff : Granted K s buf.val.length o ↔
      o.kzalloc = true ∧ K.add s.entry.size buf.val.length ≤ K.kmallocMax := by
    simp [Granted, AesdDev.allocSize, hb]
  have hload : ∀ b, (s.heap.push b).load p 0 s.entry.size = .error (.useAfterFree p) := by
    intro b
    rw [Heap.load, Heap.block_push, if_neg (by omega), hblock]
  unfold aesdWrite writeEntry
  simp only [hb, writeAppend, Heap.kzalloc]
  by_cases hg : Granted K s buf.val.length o
  · rw [if_pos hg, if_pos (hiff.mp hg)]
    simp only [hload]
    rfl
  · rw [if_neg hg, if_neg (fun hc => hg (hiff.mpr hc))]
    rfl

theorem Inv.aesdWrite (h : Inv K s items) {buf : K.UserBuf} {o : WriteOutcome} {r : Int} {s' : AesdDev}
    (hw : aesdWrite K s buf o = .ok (r, s')) : ∃ items', Inv K s' items' := by
  cases hp : s.pending with
  | none =>
      obtain ⟨p, heq⟩ := aesdWrite_dangling h hp buf o
      rw [heq] at hw
      split_ifs at hw <;> cases hw <;> exact ⟨items, h⟩
  | some data =>
      rw [aesdWrite_eq h hp buf o] at hw
      split_ifs at hw with h1 h2 h3 h4 h5 h6
      · have hle : data.length + buf.val.length ≤ K.kmallocMax := allocSize_eq h hp buf.property ▸ h2.2
        cases hw
        exact ⟨_, (h.stored hle).pushed (pend_stored hle) h5⟩
      · have hle : data.length + buf.val.length ≤ K.kmallocMax := allocSize_eq h hp buf.property ▸ h2.2
        cases hw
        exact ⟨items, h.stored hle⟩
      · have hle : data.length + buf.val.length ≤ K.kmallocMax := allocSize_eq h hp buf.property ▸ h2.2
        cases hw
        exact ⟨items, h.stored hle⟩
      · cases hw
        exact ⟨items, h.copyFailed (h.pend hp) buf.val⟩
      · cases hw
        exact ⟨items, h⟩
      · cases hw
        exact ⟨items, h⟩

end Exits

theorem bind_ok {ε α β : Type} {x : Except ε α} {f : α → Except ε β} {b : β} (h : x >>= f = .ok b) :
    ∃ a, x = .ok a ∧ f a = .ok b := by
  cases x with
  | error e => cases h
  | ok a => exact ⟨a, rfl, h⟩

theorem applyCall_write {K : Kernel} {s : State} {filp : Nat} {buf : K.UserBuf} {o : WriteOutcome} {r : Int}
    {dev : AesdDev} (h : aesdWrite K s.dev buf o = .ok (r, dev)) :
    applyCall K s (.write filp buf o) = .ok (⟨r, []⟩, { s with dev := dev }) := by
  rw [applyCall, h]
  rfl

theorem applyCall_read {K : Kernel} {s : State} {filp count : Nat} {o : ReadOutcome} {ret : ReadRet}
    (h : aesdRead K s.dev (s.fpos filp) count o = .ok ret) :
    applyCall K s (.read filp count o) =
      .ok (⟨ret.result, ret.data⟩, { s with fpos := Function.update s.fpos filp ret.fpos }) := by
  rw [applyCall, h]
  rfl

theorem applyCall_ok {K : Kernel} {s s' : State} {c : Call K} {r : Ret} (h : applyCall K s c = .ok (r, s')) :
    (∃ filp buf o, c = .write filp buf o ∧ aesdWrite K s.dev buf o = .ok (r.result, s'.dev) ∧ r.data = [] ∧
      s'.fpos = s.fpos) ∨
    ∃ filp count o ret, c = .read filp count o ∧ aesdRead K s.dev (s.fpos filp) count o = .ok ret ∧
      r = ⟨ret.result, ret.data⟩ ∧ s'.dev = s.dev ∧ s'.fpos = Function.update s.fpos filp ret.fpos := by
  cases c with
  | write filp buf o =>
      obtain ⟨⟨result, dev⟩, hw, he⟩ := bind_ok h
      cases he
      exact Or.inl ⟨filp, buf, o, rfl, hw, rfl, rfl⟩
  | read filp count o =>
      obtain ⟨ret, hr, he⟩ := bind_ok h
      cases he
      exact Or.inr ⟨filp, count, o, ret, rfl, hr, rfl, rfl, rfl⟩

theorem Inv.applyCall {K : Kernel} {s s' : State} {items : List AesdBufferEntry} (h : Inv K s.dev items) {c : Call K}
    {r : Ret} (hc : applyCall K s c = .ok (r, s')) : ∃ items', Inv K s'.dev items' := by
  rcases applyCall_ok hc with ⟨_, _, _, -, hw, -⟩ | ⟨_, _, _, _, -, -, -, hdev, -⟩
  · exact h.aesdWrite hw
  · rw [hdev]
    exact ⟨items, h⟩

theorem Inv.runCalls {K : Kernel} {calls : List (Call K)} {s s' : State} {items : List AesdBufferEntry}
    (h : Inv K s.dev items) {rets : List Ret} (hr : runCalls K s calls = .ok (rets, s')) :
    ∃ items', Inv K s'.dev items' := by
  induction calls generalizing s items rets with
  | nil =>
      cases hr
      exact ⟨items, h⟩
  | cons c cs ih =>
      obtain ⟨⟨r, s1⟩, hc, hr⟩ := bind_ok hr
      obtain ⟨⟨rs, s2⟩, hcs, hr⟩ := bind_ok hr
      cases hr
      obtain ⟨items1, h1⟩ := h.applyCall hc
      exact ih h1 hcs

theorem Inv.of_reachable {K : Kernel} {s : State} (h : Reachable K s) : ∃ items, Inv K s.dev items := by
  obtain ⟨calls, rets, hr⟩ := h
  exact (inv_init K).runCalls hr

end Aesd.Driver
