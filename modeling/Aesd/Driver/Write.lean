import Aesd.Driver.Main

/-!
# What a write leaves behind

`aesdWrite_eq` gives the result of `aesd_write` in closed form, one case for each exit, from every device whose pending
buffer is still allocated; `aesdWrite_dangling` covers the devices whose pending buffer was freed.

* `Pend K s data` : the pending entry holds `data` and its size is the size of its block;
* `AesdDev.stored` : the device after the new bytes were appended to the pending entry;
* `AesdDev.copyFailed` : the device after `copy_from_user` failed;
* `AesdDev.pushed` : the device after the pending entry moved to the ring.
-/

namespace Aesd.Driver

def Heap.free (h : Heap) (p : Nat) : Heap :=
  match h.block p with
  | some b => h.put p { b with live := false }
  | none => h

/-- The ledger after the buffer that an entry pointed to was freed. -/
def Heap.freeOpt (h : Heap) : Option Nat → Heap
  | none => h
  | some p => h.free p

/-- The device after `data`, the pending bytes, and `buf` went to a new pending buffer. -/
def AesdDev.stored (s : AesdDev) (data buf : List Byte) : AesdDev :=
  { s with
    heap := (s.heap.freeOpt s.entry.buffptr).push ⟨data ++ buf, true⟩
    entry := ⟨some s.heap.blocks.length, data.length + buf.length⟩ }

/-- The device after the copy from user space failed: the new buffer is dead, and so is the pending one. -/
def AesdDev.copyFailed (s : AesdDev) (data buf : List Byte) : AesdDev :=
  { s with heap := (s.heap.freeOpt s.entry.buffptr).push ⟨data ++ List.replicate buf.length .zero, false⟩ }

/-- The device after the pending entry, with bytes `packet`, moved to the ring. -/
def AesdDev.pushed (s : AesdDev) (packet : List Byte) : AesdDev where
  buf := (aesdCircularBufferAddEntry s.buf s.entry).2
  entry := .zero
  heap := s.heap.freeOpt (aesdCircularBufferAddEntry s.buf s.entry).1
  committed := s.committed ++ [packet]
  evicted := s.evicted + s.buf.dropSize

/-- The pending entry is `NULL` and empty, or points to a live block of exactly its size. -/
structure Pend (K : Kernel) (s : AesdDev) (data : List Byte) : Prop where
  size_eq : s.entry.size = data.length
  size_le : data.length ≤ K.kmallocMax
  holds : ∀ p, s.entry.buffptr = some p → s.heap.Holds p data
  null : s.entry.buffptr = none → data = []

theorem Pend.pending {K : Kernel} {s : AesdDev} {data : List Byte} (h : Pend K s data) : s.pending = some data := by
  unfold AesdDev.pending Heap.bytes
  cases hp : s.entry.buffptr with
  | none => simp [h.null hp]
  | some p => simp [show s.heap.block p = some ⟨data, true⟩ from h.holds p hp, h.size_eq]

theorem Heap.free_of_holds {h : Heap} {p : Nat} {data : List Byte} (hp : h.Holds p data) :
    h.free p = h.put p ⟨data, false⟩ := by
  rw [free, hp]

theorem Heap.kfreeOpt_of_holds {h : Heap} {p : Option Nat} (hp : ∀ q, p = some q → h.Live q) :
    h.kfreeOpt p = .ok (h.freeOpt p) := by
  cases p with
  | none => rfl
  | some q =>
      obtain ⟨data, hq⟩ := hp q rfl
      rw [kfreeOpt, freeOpt, kfree_of_holds hq, free_of_holds hq]

@[simp] theorem Heap.length_free (h : Heap) (p : Nat) : (h.free p).blocks.length = h.blocks.length := by
  unfold free
  split <;> simp

@[simp] theorem Heap.length_freeOpt (h : Heap) (p : Option Nat) : (h.freeOpt p).blocks.length = h.blocks.length := by
  cases p <;> simp [freeOpt]

theorem Heap.block_free_ne (h : Heap) {p q : Nat} (hq : q ≠ p) : (h.free p).block q = h.block q := by
  unfold free
  split
  · rw [block_put, if_neg (fun hc => hq hc.1)]
  · rfl

theorem Heap.block_freeOpt_ne (h : Heap) {p : Option Nat} {q : Nat} (hq : p ≠ some q) :
    (h.freeOpt p).block q = h.block q := by
  cases p with
  | none => rfl
  | some r => exact block_free_ne h (by simpa using Ne.symm hq)

theorem Heap.block_free (h : Heap) (p : Nat) :
    (h.free p).block p = (h.block p).map fun b => { b with live := false } := by
  unfold free
  cases hb : h.block p with
  | none => simp [hb]
  | some b => simp [block_put, lt_of_block hb]

theorem Heap.not_live_free (h : Heap) (p : Nat) : ¬ (h.free p).Live p := by
  rintro ⟨data, hd⟩
  rw [Holds, block_free] at hd
  cases hb : h.block p with
  | none => simp [hb] at hd
  | some b => simp [hb] at hd

section Exits
variable {K : Kernel} {s : AesdDev} {data : List Byte}

def Granted (K : Kernel) (s : AesdDev) (count : Nat) (o : WriteOutcome) : Prop :=
  o.kzalloc = true ∧ s.allocSize K count ≤ K.kmallocMax

instance (s : AesdDev) (count : Nat) (o : WriteOutcome) : Decidable (Granted K s count o) :=
  inferInstanceAs (Decidable (_ ∧ _))

theorem writeFresh_eq (hnull : s.entry.buffptr = none) (buf : List Byte) (o : WriteOutcome) :
    writeFresh K s buf o =
      if Granted K s buf.length o then
        if o.copyFromUser then
          .ok (none, { s with
            heap := s.heap.push ⟨buf, true⟩
            entry := { s.entry with buffptr := some s.heap.blocks.length } })
        else .ok (some (-EFAULT), { s with heap := s.heap.push ⟨List.replicate buf.length .zero, false⟩ })
      else .ok (some (-ENOMEM), s) := by
  have hiff : Granted K s buf.length o ↔ o.kzalloc = true ∧ buf.length ≤ K.kmallocMax := by
    simp [Granted, AesdDev.allocSize, hnull]
  unfold writeFresh Heap.kzalloc
  by_cases hg : Granted K s buf.length o
  · rw [if_pos hg, if_pos (hiff.mp hg)]
    have hnew := s.heap.holds_push (List.replicate buf.length Byte.zero)
    dsimp only
    rw [Heap.store_of_holds hnew (by simp), Heap.kfree_of_holds hnew, Heap.put_push, Heap.put_push]
    simp [bind, Except.bind]
  · rw [if_neg hg, if_neg (fun h => hg (hiff.mpr h))]

theorem writeAppend_eq (h : Pend K s data) {old : Nat} (hold : s.entry.buffptr = some old) (buf : List Byte)
    (hbuf : buf.length ≤ K.rwMax) (o : WriteOutcome) :
    writeAppend K s old buf o =
      if Granted K s buf.length o then
        if o.copyFromUser then
          .ok (none, { s with
            heap := (s.heap.free old).push ⟨data ++ buf, true⟩
            entry := { s.entry with buffptr := some s.heap.blocks.length } })
        else .ok (some (-EFAULT), { s with
          heap := (s.heap.free old).push ⟨data ++ List.replicate buf.length .zero, false⟩ })
      else .ok (some (-ENOMEM), s) := by
  have hfit := K.append_fits
  have hsize := h.size_eq
  have hle := h.size_le
  have hsum : K.add s.entry.size buf.length = data.length + buf.length := by
    rw [K.add_eq (by omega), hsize]
  have hiff : Granted K s buf.length o ↔ o.kzalloc = true ∧ data.length + buf.length ≤ K.kmallocMax := by
    simp [Granted, AesdDev.allocSize, hold, hsum]
  unfold writeAppend Heap.kzalloc
  rw [hsum]
  by_cases hg : Granted K s buf.length o
  · rw [if_pos hg, if_pos (hiff.mp hg)]
    have hlive := h.holds old hold
    have hlt := hlive.lt
    have hzero : List.replicate (data.length + buf.length) Byte.zero =
        List.replicate data.length .zero ++ List.replicate buf.length .zero := by
      rw [List.replicate_append_replicate]
    have hnew := s.heap.holds_push (List.replicate (data.length + buf.length) Byte.zero)
    have hcopied := s.heap.holds_push (data ++ List.replicate buf.length Byte.zero)
    have hfreed : (s.heap.push ⟨data ++ List.replicate buf.length Byte.zero, true⟩).put old ⟨data, false⟩ =
        (s.heap.free old).push ⟨data ++ List.replicate buf.length Byte.zero, true⟩ := by
      rw [Heap.put_push_of_lt _ _ _ hlt, Heap.free_of_holds hlive]
    have hafter := (s.heap.free old).holds_push (data ++ List.replicate buf.length Byte.zero)
    rw [Heap.length_free] at hafter
    -- memcpy of the pending bytes, then kfree of the pending buffer
    have hload : (s.heap.push ⟨List.replicate (data.length + buf.length) Byte.zero, true⟩).load old 0 s.entry.size =
        .ok data := by
      rw [Heap.load_of_holds (hlive.push _) (by omega), hsize]
      simp
    have hstore : (s.heap.push ⟨List.replicate (data.length + buf.length) Byte.zero, true⟩).store
        s.heap.blocks.length 0 data = .ok (s.heap.push ⟨data ++ List.replicate buf.length Byte.zero, true⟩) := by
      rw [Heap.store_of_holds hnew (by simp), Heap.put_push, hzero]
      simp
    have hkfree : (s.heap.push ⟨data ++ List.replicate buf.length Byte.zero, true⟩).kfree old =
        .ok ((s.heap.free old).push ⟨data ++ List.replicate buf.length Byte.zero, true⟩) := by
      rw [Heap.kfree_of_holds (hlive.push _), hfreed]
    simp only [hload, hstore, hkfree, bind, Except.bind]
    split_ifs with hcopy
    · rw [Heap.store_of_holds hafter (by simp [hsize])]
      simp only [hsize]
      rw [← Heap.length_free s.heap old, Heap.put_push]
      simp
    · rw [Heap.kfree_of_holds hafter]
      simp only
      rw [← Heap.length_free s.heap old, Heap.put_push]
  · rw [if_neg hg, if_neg (fun h => hg (hiff.mpr h))]

theorem writeEntry_eq (h : Pend K s data) (buf : List Byte) (hbuf : buf.length ≤ K.rwMax) (o : WriteOutcome) :
    writeEntry K s buf o =
      if Granted K s buf.length o then
        if o.copyFromUser then .ok (none, s.stored data buf) else .ok (some (-EFAULT), s.copyFailed data buf)
      else .ok (some (-ENOMEM), s) := by
  have hfit := K.append_fits
  have hsize := h.size_eq
  have hle := h.size_le
  have hsum : K.add s.entry.size buf.length = data.length + buf.length := by
    rw [K.add_eq (by omega), hsize]
  unfold writeEntry AesdDev.stored AesdDev.copyFailed
  cases hp : s.entry.buffptr with
  | none =>
      simp only [writeFresh_eq hp, h.null hp, Heap.freeOpt, List.nil_append]
      split_ifs
      · simp [bind, Except.bind, hsum, h.null hp]
      · rfl
      · rfl
  | some old =>
      simp only [writeAppend_eq h hp buf hbuf, Heap.freeOpt]
      split_ifs
      · simp [bind, Except.bind, hsum]
      · rfl
      · rfl

end Exits

end Aesd.Driver
