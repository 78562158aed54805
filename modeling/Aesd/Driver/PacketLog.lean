import Aesd.Driver.Read

/-!
# The char driver as a packet log

* `PacketLog` : what the device is for, an unbounded list of packets and the bytes after the last cut;
* `Refines K s log` : the device `s` stands for `log`;
* `Refines.write` : a write that is served refines `PacketLog.write`; `runCalls_writes` is the same for a run of
  writes, and `write_run_refines_packet_log` says what a reader and the pending entry then show.
-/

namespace Aesd.Driver
open Lib

/-- The packets committed so far, and the bytes written since. -/
structure PacketLog where
  committed : List (List Byte) := []
  pending : List Byte := []

/-- A write is cut after its last byte when that is a newline; newlines inside a write do not cut. -/
def PacketLog.write (log : PacketLog) (buf : List Byte) : PacketLog :=
  if endsPacket buf then ⟨log.committed ++ [log.pending ++ buf], []⟩ else ⟨log.committed, log.pending ++ buf⟩

def PacketLog.writeAll (log : PacketLog) (bufs : List (List Byte)) : PacketLog := bufs.foldl PacketLog.write log

/-- The device stands for `log`. -/
structure Refines (K : Kernel) (s : AesdDev) (log : PacketLog) : Prop where
  inv : ∃ items, Inv K s items
  pending : s.pending = some log.pending
  committed : s.committed = log.committed

theorem Refines.readable {K : Kernel} {s : AesdDev} {log : PacketLog} (h : Refines K s log) :
    s.readable = (log.committed.rtake 10).flatten := by
  obtain ⟨items, hinv⟩ := h.inv
  rw [hinv.readable_eq, h.committed]

theorem refines_init (K : Kernel) : Refines K aesdInitModule {} := ⟨⟨[], inv_init K⟩, rfl, rfl⟩

theorem refines_of_reachable {K : Kernel} {s : State} (h : Reachable K s) {data : List Byte}
    (hp : s.dev.pending = some data) : Refines K s.dev ⟨s.dev.committed, data⟩ := ⟨Inv.of_reachable h, hp, rfl⟩

/-- Every lock, `kzalloc` and copy of the write succeeds. -/
def Served (K : Kernel) (s : AesdDev) (buf : K.UserBuf) (o : WriteOutcome) : Prop :=
  o.entryLock = true ∧ Granted K s buf.val.length o ∧ o.copyFromUser = true ∧ o.bufLock = true

instance (K : Kernel) (s : AesdDev) (buf : K.UserBuf) (o : WriteOutcome) : Decidable (Served K s buf o) :=
  inferInstanceAs (Decidable (_ ∧ _ ∧ _ ∧ _))

theorem endsPacket_append (xs : List Byte) {ys : List Byte} (hne : ys ≠ []) :
    endsPacket (xs ++ ys) = endsPacket ys := by
  rw [endsPacket, endsPacket, List.getLast?_append_of_ne_nil _ hne]

theorem aesdWrite_served {K : Kernel} {s : AesdDev} {items : List AesdBufferEntry} (h : Inv K s items)
    {data : List Byte} (hp : s.pending = some data) {buf : K.UserBuf} {o : WriteOutcome} (hs : Served K s buf o)
    (hne : buf.val ≠ []) :
    data.length + buf.val.length ≤ K.kmallocMax ∧
    aesdWrite K s buf o = .ok ((buf.val.length : Int),
      if endsPacket buf.val then (s.stored data buf.val).pushed (data ++ buf.val) else s.stored data buf.val) := by
  obtain ⟨hlock, hgrant, hcopy, hbuf⟩ := hs
  refine ⟨allocSize_eq h hp buf.property ▸ hgrant.2, ?_⟩
  have hcat : ¬ data ++ buf.val = [] := by simp [hne]
  rw [aesdWrite_eq h hp, if_pos hlock, if_pos hgrant, if_pos hcopy, if_pos hbuf, if_neg hcat,
    endsPacket_append _ hne]

theorem Refines.write {K : Kernel} {s : AesdDev} {log : PacketLog} (h : Refines K s log) {buf : K.UserBuf}
    {o : WriteOutcome} (hs : Served K s buf o) (hne : buf.val ≠ []) :
    ∃ s', aesdWrite K s buf o = .ok ((buf.val.length : Int), s') ∧ Refines K s' (log.write buf.val) ∧
      (s'.pending = some [] → s'.entry = .zero) := by
  obtain ⟨items, hinv⟩ := h.inv
  obtain ⟨hle, heq⟩ := aesdWrite_served hinv h.pending hs hne
  have hpend := Inv.pend_stored (s := s) hle
  refine ⟨_, heq, ?_⟩
  unfold PacketLog.write
  split_ifs with hends
  · refine ⟨⟨⟨_, (hinv.stored hle).pushed hpend (by simp [hne])⟩, rfl, ?_⟩, fun _ => rfl⟩
    simp [AesdDev.pushed, AesdDev.stored, h.committed]
  · refine ⟨⟨⟨items, hinv.stored hle⟩, hpend.pending, h.committed⟩, fun hnil => ?_⟩
    rw [hpend.pending] at hnil
    simp [hne] at hnil

/-! ## Runs of writes -/

def Succeeds (K : Kernel) (s : State) : Call K → Prop
  | .write _ buf o => Served K s.dev buf o
  | .read _ _ o => o.bufLock = true ∧ o.copyToUser = true

def writeCalls {K : Kernel} (writes : List (Nat × K.UserBuf)) : List (Call K) :=
  writes.map fun w => .write w.1 w.2 {}

def PacketLog.writes {K : Kernel} (log : PacketLog) (writes : List (Nat × K.UserBuf)) : PacketLog :=
  writes.foldl (fun l w => l.write w.2.val) log

theorem runCalls_writes {K : Kernel} (writes : List (Nat × K.UserBuf)) (hne : ∀ w ∈ writes, w.2.val ≠ []) {s : State}
    {log : PacketLog} (h : Refines K s.dev log) (hnull : s.dev.pending = some [] → s.dev.entry = .zero)
    (hok : Along K (Succeeds K) s (writeCalls writes)) :
    ∃ s', runCalls K s (writeCalls writes) = .ok (writes.map fun w => ⟨(w.2.val.length : Int), []⟩, s') ∧
      Refines K s'.dev (log.writes writes) ∧ (s'.dev.pending = some [] → s'.dev.entry = .zero) := by
  induction writes generalizing s log with
  | nil => exact ⟨s, rfl, h, hnull⟩
  | cons w ws ih =>
      obtain ⟨hserved, hrest⟩ := hok
      obtain ⟨dev, hw, href, hnull'⟩ := h.write hserved (hne w (by simp))
      have hstep : applyCall K s (.write w.1 w.2 {}) = .ok (⟨(w.2.val.length : Int), []⟩, { s with dev := dev }) :=
        applyCall_write hw
      rw [hstep] at hrest
      obtain ⟨s', hrun, hrefs, hnulls⟩ := ih (fun v hv => hne v (by simp [hv])) href hnull' hrest
      refine ⟨s', ?_, hrefs, hnulls⟩
      change (applyCall K s (.write w.1 w.2 {}) >>= _) = _
      rw [hstep]
      change (runCalls K _ (writeCalls ws) >>= _) = _
      rw [hrun]
      rfl

/-- **The device is a packet log.** Every write returns its full count; the pending entry holds the bytes written since
the last cut and is `NULL` when there are none; a reader finds the last ten packets and no pending byte. -/
theorem write_run_refines_packet_log (K : Kernel) (writes : List (Nat × K.UserBuf))
    (hne : ∀ w ∈ writes, 1 ≤ w.2.val.length) (hok : Along K (Succeeds K) State.init (writeCalls writes)) :
    ∃ s, runCalls K State.init (writeCalls writes) = .ok (writes.map fun w => ⟨(w.2.val.length : Int), []⟩, s) ∧
      s.dev.pending = some (PacketLog.writes {} writes).pending ∧
      s.dev.entry.size = (PacketLog.writes {} writes).pending.length ∧
      ((PacketLog.writes {} writes).pending = [] → s.dev.entry.buffptr = none ∧ s.dev.entry.size = 0) ∧
      s.dev.readable = ((PacketLog.writes {} writes).committed.rtake 10).flatten := by
  have hne' : ∀ w ∈ writes, w.2.val ≠ [] := fun w hw => List.length_pos_iff.mp (hne w hw)
  obtain ⟨s, hrun, href, hnull⟩ := runCalls_writes writes hne' (s := State.init) (refines_init K) (fun _ => rfl) hok
  obtain ⟨items, hinv⟩ := href.inv
  refine ⟨s, hrun, href.pending, (hinv.pend href.pending).size_eq, fun hnil => ?_, href.readable⟩
  rw [hnull (by rw [href.pending, hnil])]
  exact ⟨rfl, rfl⟩

def letterA : Kernel.linux64.UserBuf := ⟨[⟨97, none⟩], by decide⟩

def newline : Kernel.linux64.UserBuf := ⟨[⟨10, none⟩], by decide⟩

theorem write_run_refines_packet_log_split :
    ∃ s, runCalls .linux64 State.init (writeCalls [(0, letterA), (1, newline)]) = .ok ([⟨1, []⟩, ⟨1, []⟩], s) ∧
      s.dev.entry.buffptr = none ∧ s.dev.readable = [⟨97, none⟩, ⟨10, none⟩] := by
  obtain ⟨s, hrun, -, -, hnull, hread⟩ := write_run_refines_packet_log .linux64 [(0, letterA), (1, newline)] (by decide)
    ⟨⟨rfl, ⟨rfl, by decide⟩, rfl, rfl⟩, ⟨rfl, ⟨rfl, by decide⟩, rfl, rfl⟩, trivial⟩
  exact ⟨s, hrun, (hnull (by decide)).1, hread.trans (by decide)⟩

end Aesd.Driver
