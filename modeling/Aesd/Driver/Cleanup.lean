import Aesd.Driver.Ownership

/-!
# The end of a packet and the end of the module

* `AtNewlineTest` : the device on which `aesd_write` tests its last byte for a newline; `newline_test_inside_iff` : when
  that byte is inside the block of the entry;
* `aesdCleanupModule` : the module exit, which frees what the ten slots point to;
* `cleanup_releases_all_iff` : the runs after which it leaves no block behind.
-/

namespace Aesd.Driver
open Lib

variable {K : Kernel}

/-! ## The test for the newline -/

/-- `aesd_write` evaluates the test for the newline, on the device `s'`. -/
def AtNewlineTest (K : Kernel) (s : AesdDev) (buf : K.UserBuf) (o : WriteOutcome) (s' : AesdDev) : Prop :=
  o.entryLock = true ∧ writeEntry K s buf.val o = .ok (none, s') ∧ o.bufLock = true

/-- The index `entry.size - 1` does not wrap, and lies inside the block that the entry points to. -/
def TestInside (K : Kernel) (s : AesdDev) : Prop :=
  K.sub s.entry.size 1 + 1 = s.entry.size ∧
    ∃ p data, s.entry.buffptr = some p ∧ s.heap.Holds p data ∧ K.sub s.entry.size 1 < data.length

theorem atNewlineTest_pending {s s' : AesdDev} {items : List AesdBufferEntry} (h : Inv K s items) {buf : K.UserBuf}
    {o : WriteOutcome} (ht : AtNewlineTest K s buf o s') : s.pending ≠ none := by
  obtain ⟨hlock, hentry, -⟩ := ht
  intro hp
  -- the same call, interrupted at `buf_lock`, would return
  have hint : aesdWrite K s buf { o with bufLock := false } = .ok (-EINTR, s') := by
    rw [aesdWrite, if_pos hlock, show writeEntry K s buf.val { o with bufLock := false } = writeEntry K s buf.val o from rfl,
      hentry]
    rfl
  obtain ⟨p, hdangling⟩ := aesdWrite_dangling h hp buf { o with bufLock := false }
  rw [hint, if_pos hlock] at hdangling
  split_ifs at hdangling
  rw [Except.ok.injEq, Prod.mk.injEq] at hdangling
  exact absurd hdangling.1 (by decide)

theorem atNewlineTest_iff {s : AesdDev} {items : List AesdBufferEntry} (h : Inv K s items) {data : List Byte}
    (hp : s.pending = some data) (buf : K.UserBuf) (o : WriteOutcome) (s' : AesdDev) :
    AtNewlineTest K s buf o s' ↔ Served K s buf o ∧ s' = s.stored data buf.val := by
  unfold AtNewlineTest Served
  rw [writeEntry_eq (h.pend hp) buf.val buf.property o]
  by_cases hgrant : Granted K s buf.val.length o
  · by_cases hcopy : o.copyFromUser = true
    · rw [if_pos hgrant, if_pos hcopy, Except.ok.injEq, Prod.mk.injEq]
      constructor
      · rintro ⟨hlock, ⟨-, rfl⟩, hbuf⟩
        exact ⟨⟨hlock, hgrant, hcopy, hbuf⟩, rfl⟩
      · rintro ⟨⟨hlock, -, -, hbuf⟩, rfl⟩
        exact ⟨hlock, ⟨rfl, rfl⟩, hbuf⟩
    · rw [if_pos hgrant, if_neg hcopy]
      simp [hcopy]
  · rw [if_neg hgrant]
    simp [hgrant]

theorem testInside_stored {s : AesdDev} {data buf : List Byte} (hle : data.length + buf.length ≤ K.kmallocMax) :
    TestInside K (s.stored data buf) ↔ 0 < data.length + buf.length := by
  have hfit := K.append_fits
  have hpend := Inv.pend_stored (s := s) hle
  have hsize : (s.stored data buf).entry.size = data.length + buf.length := rfl
  unfold TestInside
  rw [hsize]
  constructor
  · rintro ⟨hwrap, -⟩
    omega
  · intro hpos
    have hsub : K.sub (data.length + buf.length) 1 = data.length + buf.length - 1 := K.sub_eq (by omega) hpos
    refine ⟨by omega, _, _, rfl, hpend.holds _ rfl, ?_⟩
    rw [hsub, List.length_append]
    omega

/-- **When the test for the newline stays inside the entry**: on every device that calls can reach, failed calls
included, for every write but one of no bytes that is served while the entry is empty. Where an earlier failed copy freed
the pending buffer the test is not reached: past `kzalloc` the write reads the dead block. -/
theorem newline_test_inside_iff (K : Kernel) (s : State) (hs : Reachable K s) (buf : K.UserBuf) (o : WriteOutcome) :
    ((∀ s', AtNewlineTest K s.dev buf o s' → TestInside K s') ↔
      (Served K s.dev buf o → s.dev.pending ≠ none → 0 < s.dev.entry.size + buf.val.length)) ∧
    (s.dev.pending = none → o.entryLock = true → Granted K s.dev buf.val.length o →
      ∃ p, aesdWrite K s.dev buf o = .error (.useAfterFree p)) := by
  obtain ⟨items, h⟩ := Inv.of_reachable hs
  refine ⟨⟨?_, ?_⟩, ?_⟩
  · intro hall hserved hlive
    obtain ⟨data, hp⟩ := Option.ne_none_iff_exists'.mp hlive
    have hle : data.length + buf.val.length ≤ K.kmallocMax := allocSize_eq h hp buf.property ▸ hserved.2.1.2
    have hin := hall _ ((atNewlineTest_iff h hp buf o _).mpr ⟨hserved, rfl⟩)
    rw [(h.pend hp).size_eq]
    exact (testInside_stored hle).mp hin
  · intro hpos s' ht
    have hlive := atNewlineTest_pending h ht
    obtain ⟨data, hp⟩ := Option.ne_none_iff_exists'.mp hlive
    obtain ⟨hserved, rfl⟩ := (atNewlineTest_iff h hp buf o s').mp ht
    have hle : data.length + buf.val.length ≤ K.kmallocMax := allocSize_eq h hp buf.property ▸ hserved.2.1.2
    have := hpos hserved hlive
    rw [(h.pend hp).size_eq] at this
    exact (testInside_stored hle).mpr this
  · intro hp hlock hgrant
    obtain ⟨p, heq⟩ := aesdWrite_dangling h hp buf o
    exact ⟨p, by rw [heq, if_pos hlock, if_pos hgrant]⟩

def noBytes : Kernel.linux64.UserBuf := ⟨[], by decide⟩

theorem newline_test_inside_iff_letter :
    AtNewlineTest .linux64 State.init.dev letterA {} unfinished.dev ∧ TestInside .linux64 unfinished.dev := by
  have htest : AtNewlineTest .linux64 State.init.dev letterA {} unfinished.dev := ⟨rfl, rfl, rfl⟩
  have hinside := (newline_test_inside_iff .linux64 State.init ⟨[], [], rfl⟩ letterA {}).1.mpr fun _ _ => by decide
  exact ⟨htest, hinside unfinished.dev htest⟩

/-- On a fresh device a write of no bytes tests index `2^64 - 1` of a block of length zero. -/
theorem newline_test_wraps :
    ¬ ∀ (K : Kernel) (s : State), Reachable K s → ∀ (buf : K.UserBuf) (o : WriteOutcome) (s' : AesdDev),
      AtNewlineTest K s.dev buf o s' → TestInside K s' := by
  intro hall
  have hin := hall .linux64 State.init ⟨[], [], rfl⟩ noBytes {} (aesdInitModule.stored [] []) ⟨rfl, rfl, rfl⟩
  exact absurd hin.1 (by decide)

/-! ## `aesd_cleanup_module` -/

/-- The slots one after the other, from index 0 on; a slot that is `NULL` is passed over. -/
def cleanupLoop (b : AesdCircularBuffer) : List Nat → Heap → Except Fault Heap
  | [], heap => .ok heap
  | index :: rest, heap => do
    let heap ← heap.kfreeOpt (b.slot index).buffptr
    cleanupLoop b rest heap

/-- The module exit. The pending entry is not looked at, and the slots keep their pointers. -/
def aesdCleanupModule (s : AesdDev) : Except Fault AesdDev := do
  let heap ← cleanupLoop s.buf (List.range AESDCHAR_MAX_WRITE_OPERATIONS_SUPPORTED) s.heap
  .ok { s with heap := heap }

theorem Heap.live_free {h : Heap} {p q : Nat} : (h.free p).Live q ↔ h.Live q ∧ q ≠ p := by
  by_cases hq : q = p
  · subst hq
    exact ⟨fun hlive => absurd hlive (h.not_live_free q), fun hlive => absurd rfl hlive.2⟩
  · unfold Heap.Live Heap.Holds
    rw [Heap.block_free_ne h hq]
    exact ⟨fun hlive => ⟨hlive, hq⟩, fun hlive => hlive.1⟩

theorem Heap.live_freeOpt {h : Heap} {p : Option Nat} {q : Nat} :
    (h.freeOpt p).Live q ↔ h.Live q ∧ p ≠ some q := by
  cases p with
  | none => simp [Heap.freeOpt]
  | some p => rw [Heap.freeOpt, Heap.live_free, ne_eq, ne_eq, Option.some.injEq, eq_comm (a := p)]

/-- Slots with distinct live blocks are freed without a fault, and nothing else is. -/
theorem cleanupLoop_ok {b : AesdCircularBuffer} {indices : List Nat} {heap : Heap}
    (hlive : ∀ i ∈ indices, ∀ p, (b.slot i).buffptr = some p → heap.Live p)
    (hdistinct : indices.Pairwise fun i j => ∀ p, (b.slot i).buffptr = some p → (b.slot j).buffptr ≠ some p) :
    ∃ heap', cleanupLoop b indices heap = .ok heap' ∧ heap'.blocks.length = heap.blocks.length ∧
      ∀ p, heap'.Live p ↔ heap.Live p ∧ ∀ i ∈ indices, (b.slot i).buffptr ≠ some p := by
  induction indices generalizing heap with
  | nil => exact ⟨heap, rfl, rfl, fun p => by simp⟩
  | cons i indices ih =>
      obtain ⟨hi, hrest⟩ := List.pairwise_cons.mp hdistinct
      have hfree : heap.kfreeOpt (b.slot i).buffptr = .ok (heap.freeOpt (b.slot i).buffptr) :=
        Heap.kfreeOpt_of_holds (hlive i (by simp))
      have hothers : ∀ j ∈ indices, ∀ p, (b.slot j).buffptr = some p → (heap.freeOpt (b.slot i).buffptr).Live p := by
        intro j hj p hp
        exact Heap.live_freeOpt.mpr ⟨hlive j (by simp [hj]) p hp, fun heq => hi j hj p heq hp⟩
      obtain ⟨heap', hloop, hlen, hafter⟩ := ih hothers hrest
      refine ⟨heap', ?_, by rw [hlen, Heap.length_freeOpt], fun p => ?_⟩
      · rw [cleanupLoop, hfree]
        exact hloop
      · rw [hafter, Heap.live_freeOpt, List.forall_mem_cons, and_assoc]

/-- The cleanup always returns, and leaves alive the pending buffer and nothing else. -/
theorem aesdCleanupModule_ok {s : AesdDev} {items : List AesdBufferEntry} (h : Inv K s items) {data : List Byte}
    (hp : s.pending = some data) :
    ∃ s', aesdCleanupModule s = .ok s' ∧ s'.heap.blocks.length = s.heap.blocks.length ∧
      ∀ p, s'.heap.Live p ↔ s.entry.buffptr = some p := by
  have howned := h.owned_of_pending hp
  have hlive : ∀ i ∈ List.range 10, ∀ p, (s.buf.slot i).buffptr = some p → s.heap.Live p := by
    intro i hi p hip
    exact howned.live (some ⟨i, List.mem_range.mp hi⟩) p hip
  have hdistinct : (List.range 10).Pairwise fun i j =>
      ∀ p, (s.buf.slot i).buffptr = some p → (s.buf.slot j).buffptr ≠ some p := by
    apply List.Pairwise.imp_of_mem _ List.nodup_range
    intro i j hi hj hne p hip hjp
    have heq := howned.distinct (some ⟨i, List.mem_range.mp hi⟩) (some ⟨j, List.mem_range.mp hj⟩) p hip hjp
    rw [Option.some.injEq, Fin.mk.injEq] at heq
    exact hne heq
  obtain ⟨heap, hloop, hlen, hafter⟩ := cleanupLoop_ok hlive hdistinct
  refine ⟨{ s with heap := heap }, by rw [aesdCleanupModule, hloop]; rfl, hlen, fun p => ?_⟩
  rw [hafter]
  constructor
  · rintro ⟨hp, hslots⟩
    obtain ⟨place, hplace, -⟩ := howned.held p hp
    cases place with
    | none => exact hplace
    | some i => exact absurd hplace (hslots i (List.mem_range.mpr i.isLt))
  · intro hentry
    refine ⟨howned.live none p hentry, fun i hi hslot => ?_⟩
    have heq := howned.distinct none (some ⟨i, List.mem_range.mp hi⟩) p hentry hslot
    cases heq

/-! ## Runs that end in the cleanup -/

def Call.written : Call K → Option (List Byte)
  | .write _ buf _ => some buf.val
  | .read _ _ _ => none

/-- The run reaches its end without a fault, and after the cleanup every block that was allocated is dead. A second
`kfree` of a block is a fault, so each was freed once. -/
def ReleasesAll (K : Kernel) (calls : List (Call K)) : Prop :=
  ∃ rets s s', runCalls K State.init calls = .ok (rets, s) ∧ aesdCleanupModule s.dev = .ok s' ∧
    ∀ p < s'.heap.blocks.length, ∃ data, s'.heap.block p = some ⟨data, false⟩

theorem Refines.applyCall {s : State} {log : PacketLog} (h : Refines K s.dev log)
    (hnull : s.dev.pending = some [] → s.dev.entry = .zero) {c : Call K} (hc : c.written ≠ some [])
    (hok : Succeeds K s c) :
    ∃ r s', applyCall K s c = .ok (r, s') ∧ Refines K s'.dev (log.writeAll c.written.toList) ∧
      (s'.dev.pending = some [] → s'.dev.entry = .zero) := by
  cases c with
  | read filp count o =>
      obtain ⟨items, hinv⟩ := h.inv
      obtain ⟨ret, hr⟩ := aesdRead_total hinv (s.fpos filp) count o
      exact ⟨_, _, applyCall_read hr, h, hnull⟩
  | write filp buf o =>
      obtain ⟨dev, hw, href, hnull'⟩ := h.write hok (fun hnil => hc (congrArg some hnil))
      exact ⟨_, _, applyCall_write hw, href, hnull'⟩

theorem Refines.runCalls {calls : List (Call K)} (hne : ∀ c ∈ calls, c.written ≠ some []) {s : State}
    {log : PacketLog} (h : Refines K s.dev log) (hnull : s.dev.pending = some [] → s.dev.entry = .zero)
    (hok : Along K (Succeeds K) s calls) :
    ∃ rets s', runCalls K s calls = .ok (rets, s') ∧ Refines K s'.dev (log.writeAll (calls.filterMap Call.written)) ∧
      (s'.dev.pending = some [] → s'.dev.entry = .zero) := by
  induction calls generalizing s log with
  | nil => exact ⟨[], s, rfl, h, hnull⟩
  | cons c cs ih =>
      obtain ⟨hsucc, hrest⟩ := hok
      obtain ⟨r, s1, hstep, href, hnull1⟩ := h.applyCall hnull (hne c (by simp)) hsucc
      rw [hstep] at hrest
      obtain ⟨rets, s', hrun, href', hnull'⟩ := ih (fun d hd => hne d (by simp [hd])) href hnull1 hrest
      refine ⟨r :: rets, s', ?_, ?_, hnull'⟩
      · rw [Aesd.Driver.runCalls, hstep]
        change (Aesd.Driver.runCalls K s1 cs >>= _) = _
        rw [hrun]
        rfl
      · have hlog : (log.writeAll c.written.toList).writeAll (cs.filterMap Call.written) =
            log.writeAll ((c :: cs).filterMap Call.written) := by
          rw [PacketLog.writeAll, PacketLog.writeAll, ← List.foldl_append, PacketLog.writeAll]
          cases hw : c.written <;> simp [hw]
        rw [← hlog]
        exact href'

theorem PacketLog.writeAll_pending {bufs : List (List Byte)} (hne : ∀ buf ∈ bufs, buf ≠ []) :
    (PacketLog.writeAll {} bufs).pending = [] ↔ ∀ last, bufs.getLast? = some last → endsPacket last = true := by
  rcases List.eq_nil_or_concat bufs with rfl | ⟨init, last, rfl⟩
  · simp [PacketLog.writeAll]
  · rw [List.concat_eq_append] at hne ⊢
    rw [PacketLog.writeAll, List.foldl_append, List.foldl_cons, List.foldl_nil, PacketLog.write,
      List.getLast?_append_of_ne_nil _ (by simp)]
    by_cases hends : endsPacket last = true
    · simp [hends]
    · have := hne last (by simp)
      simp [hends, this]

/-- **When unloading releases everything**: after every run of opens, reads and writes that succeed, of at least one
byte each, exactly when no packet is unfinished, that is when the last write ended in a newline or there was none. -/
theorem cleanup_releases_all_iff (K : Kernel) (calls : List (Call K))
    (hne : ∀ c ∈ calls, ∀ buf, c.written = some buf → 1 ≤ buf.length) (hok : Along K (Succeeds K) State.init calls) :
    ReleasesAll K calls ↔ ∀ last, (calls.filterMap Call.written).getLast? = some last → endsPacket last = true := by
  have hne' : ∀ buf ∈ calls.filterMap Call.written, buf ≠ [] := by
    intro buf hbuf
    obtain ⟨c, hc, hw⟩ := List.mem_filterMap.mp hbuf
    exact List.length_pos_iff.mp (hne c hc buf hw)
  obtain ⟨rets, s, hrun, href, hnull⟩ := Refines.runCalls (s := State.init)
    (fun c hc hw => absurd (hne c hc [] hw) (by decide)) (refines_init K) (fun _ => rfl) hok
  obtain ⟨items, hinv⟩ := href.inv
  obtain ⟨s', hclean, hlen, hafter⟩ := aesdCleanupModule_ok hinv href.pending
  have hpend := hinv.pend href.pending
  have hdone : s.dev.entry.buffptr = none ↔ (PacketLog.writeAll {} (calls.filterMap Call.written)).pending = [] := by
    constructor
    · exact hpend.null
    · intro hnil
      rw [hnull (by rw [href.pending, hnil])]
      rfl
  rw [← PacketLog.writeAll_pending hne', ← hdone]
  constructor
  · rintro ⟨rets1, s1, s1', hrun1, hclean1, hdead⟩
    rw [hrun, Except.ok.injEq, Prod.mk.injEq] at hrun1
    obtain ⟨-, rfl⟩ := hrun1
    rw [hclean, Except.ok.injEq] at hclean1
    subst hclean1
    -- a pending buffer would be alive after the cleanup
    cases hentry : s.dev.entry.buffptr with
    | none => rfl
    | some p =>
        obtain ⟨d, hd⟩ := (hafter p).mpr hentry
        obtain ⟨d', hd'⟩ := hdead p hd.lt
        rw [Heap.Holds, hd'] at hd
        cases hd
  · intro hentry
    refine ⟨rets, s, s', hrun, hclean, fun p hp => ?_⟩
    obtain ⟨⟨d, live⟩, hblock⟩ : ∃ b, s'.heap.block p = some b :=
      ⟨s'.heap.blocks.get ⟨p, hp⟩, List.getElem?_eq_getElem hp⟩
    cases live with
    | false => exact ⟨d, hblock⟩
    | true =>
        have hnot := (hafter p).mp ⟨d, hblock⟩
        rw [hentry] at hnot
        cases hnot

/-- One packet in two writes. -/
theorem cleanup_releases_all_iff_packet :
    ReleasesAll .linux64 [.write 0 letterA {}, .read 1 10 {}, .write 0 newline {}] := by
  apply (cleanup_releases_all_iff .linux64 [.write 0 letterA {}, .read 1 10 {}, .write 0 newline {}]
    (by simp [Call.written, letterA, newline])
    ⟨⟨rfl, ⟨rfl, by decide⟩, rfl, rfl⟩, ⟨rfl, rfl⟩, ⟨rfl, ⟨rfl, by decide⟩, rfl, rfl⟩, trivial⟩).mpr
  intro last hlast
  obtain rfl : newline.val = last := Option.some.inj hlast
  decide

/-- An unfinished packet is never freed. -/
theorem cleanup_leaks_pending :
    ¬ ∀ (K : Kernel) (calls : List (Call K)), (∀ c ∈ calls, ∀ buf, c.written = some buf → 1 ≤ buf.length) →
      Along K (Succeeds K) State.init calls → ReleasesAll K calls := by
  intro hall
  obtain ⟨rets, s, s', hrun, hclean, hdead⟩ := hall .linux64 [.write 0 letterA {}] (by simp [Call.written, letterA])
    ⟨⟨rfl, ⟨rfl, by decide⟩, rfl, rfl⟩, trivial⟩
  have hend : runCalls .linux64 State.init [.write 0 letterA {}] = .ok ([⟨1, []⟩], unfinished) := rfl
  rw [hend] at hrun
  cases hrun
  have hkept : aesdCleanupModule unfinished.dev = .ok unfinished.dev := by decide
  rw [hkept] at hclean
  cases hclean
  obtain ⟨d, hd⟩ := hdead 0 (by decide)
  cases hd

end Aesd.Driver
