import Aesd.Driver.Concurrent
import Aesd.Driver.Read

/-!
# The steps of a call and the call

* `writeCall_completes`, `readCall_completes` : a call that takes its steps alone does what `aesdWrite` and `aesdRead`
  say, faults included;
* `SameRing s s'` : the ring and the blocks it points to are the same. All that a read looks at is in there
  (`aesdRead_congr`, `ReadRun.congr`);
* `Apart s w` : no local pointer of a write and no pending buffer is a block of the ring; `execWrite_frame` : the steps
  of a write before it takes `buf_lock` leave the ring alone.
-/

namespace Aesd.Driver
open Lib

/-- The result of a write that has nothing left to do but to unlock. -/
def WritePc.result : WritePc → Option Int
  | .unlockEntry r => some r
  | .ret r => some r
  | _ => none

def ReadPc.result : ReadPc → Option Ret
  | .unlockBuf r => some r
  | .ret r => some r
  | _ => none

/-- The steps of a write from `w` on device `s`, if nobody else takes one, come to `v`. -/
def WriteRun (K : Kernel) (buf : K.UserBuf) (o : WriteOutcome) (w : WritePc) (s : AesdDev)
    (v : Except Fault (Int × AesdDev)) : Prop :=
  Completes (fun x : WritePc × AesdDev => execWrite K buf o x.2 x.1) (fun x => x.1.result.map (·, x.2)) (w, s) v

def ReadRun (K : Kernel) (count : Nat) (o : ReadOutcome) (s : AesdDev) (r : ReadPc) (fpos : Nat)
    (v : Except Fault ReadRet) : Prop :=
  Completes (fun x : ReadPc × Nat => execRead K count o s x.2 x.1)
    (fun x => x.1.result.map fun ret => ⟨ret.result, ret.data, x.2⟩) (r, fpos) v

/-! ## Writes -/

section Write
variable {K : Kernel} {buf : K.UserBuf} {o : WriteOutcome} {s s' : AesdDev} {w w' : WritePc}
  {v : Except Fault (Int × AesdDev)}

theorem WriteRun.step (hr : w.result = none) (hs : execWrite K buf o s w = .ok (w', s'))
    (h : WriteRun K buf o w' s' v) : WriteRun K buf o w s v :=
  Completes.step (by simp [hr]) hs h

theorem WriteRun.fault {e : Fault} (hr : w.result = none) (hs : execWrite K buf o s w = .error e) :
    WriteRun K buf o w s (.error e) :=
  Completes.fault (by simp [hr]) hs

theorem WriteRun.done {r : Int} (hr : w.result = some r) : WriteRun K buf o w s (.ok (r, s)) :=
  Completes.done (by simp [hr])

/-- The steps from `w` do what `x` says: they fault, come to a result, or come to `next`. -/
def Leads (K : Kernel) (buf : K.UserBuf) (o : WriteOutcome) (w : WritePc) (s : AesdDev) (next : WritePc) :
    Except Fault (Option Int × AesdDev) → Prop
  | .error e => WriteRun K buf o w s (.error e)
  | .ok (some r, s') => WriteRun K buf o w s (.ok (r, s'))
  | .ok (none, s') => ∀ v, WriteRun K buf o next s' v → WriteRun K buf o w s v

theorem Leads.step {next : WritePc} {x : Except Fault (Option Int × AesdDev)} (hr : w.result = none)
    (hs : execWrite K buf o s w = .ok (w', s')) (h : Leads K buf o w' s' next x) : Leads K buf o w s next x := by
  unfold Leads at h ⊢
  split at h
  · exact .step hr hs h
  · exact .step hr hs h
  · exact fun v hv => .step hr hs (h v hv)

theorem dropKbuf_leads (s : AesdDev) (kbuf : Nat) :
    Leads K buf o (.dropKbuf kbuf) s .sizeForSum
      (s.heap.kfree kbuf >>= fun heap => .ok (some (-EFAULT), { s with heap := heap })) := by
  cases hk : s.heap.kfree kbuf with
  | error e => exact .fault rfl (by simp only [execWrite, hk]; rfl)
  | ok heap => exact .step rfl (by simp only [execWrite, hk]; rfl) (.done rfl)

/-- The copy from user space to `kbuf`, which ends both branches. -/
theorem copy_leads {off kbuf : Nat} (hw : w.result = none)
    (hexec : execWrite K buf o s w =
      if o.copyFromUser then do
        let heap ← s.heap.store kbuf off buf.val
        .ok (.setPtr kbuf, { s with heap := heap })
      else .ok (.dropKbuf kbuf, s)) :
    Leads K buf o w s .sizeForSum
      (if o.copyFromUser then do
        let heap ← s.heap.store kbuf off buf.val
        .ok (none, { s with heap := heap, entry := { s.entry with buffptr := some kbuf } })
      else do
        let heap ← s.heap.kfree kbuf
        .ok (some (-EFAULT), { s with heap := heap })) := by
  by_cases hc : o.copyFromUser = true
  · rw [if_pos hc] at hexec ⊢
    cases hs : s.heap.store kbuf off buf.val with
    | error e =>
        rw [hs] at hexec
        exact .fault hw hexec
    | ok heap =>
        rw [hs] at hexec
        exact fun v hv => .step hw hexec (.step rfl rfl hv)
  · rw [if_neg hc] at hexec ⊢
    exact .step hw hexec (dropKbuf_leads s kbuf)

theorem writeFresh_leads (s : AesdDev) : Leads K buf o .allocFresh s .sizeForSum (writeFresh K s buf.val o) := by
  unfold writeFresh
  cases hk : s.heap.kzalloc K o.kzalloc buf.val.length with
  | none =>
      apply Leads.step rfl (by simp only [execWrite, hk]; rfl)
      exact .done rfl
  | some p =>
      obtain ⟨kbuf, heap⟩ := p
      apply Leads.step rfl (by simp only [execWrite, hk]; rfl)
      exact copy_leads rfl rfl

theorem writeAppend_leads {old : Nat} (hold : s.entry.buffptr = some old) :
    Leads K buf o .sizeForAlloc s .sizeForSum (writeAppend K s old buf.val o) := by
  unfold writeAppend
  apply Leads.step rfl rfl
  cases hk : s.heap.kzalloc K o.kzalloc (K.add s.entry.size buf.val.length) with
  | none =>
      apply Leads.step rfl (by simp only [execWrite, hk]; rfl)
      exact .done rfl
  | some p =>
      obtain ⟨kbuf, heap⟩ := p
      apply Leads.step rfl (by simp only [execWrite, hk]; rfl)
      apply Leads.step rfl (by simp only [execWrite, hold]; rfl)
      apply Leads.step rfl rfl
      dsimp only
      cases hl : heap.load old 0 s.entry.size with
      | error e => exact .fault rfl (by simp only [execWrite, hl]; rfl)
      | ok data =>
          cases hs : heap.store kbuf 0 data with
          | error e =>
              simp only [bind, Except.bind, hs]
              exact .fault rfl (by simp only [execWrite, hl, hs, bind, Except.bind])
          | ok heap1 =>
              simp only [bind, Except.bind, hs]
              apply Leads.step rfl (by simp only [execWrite, hl, hs, bind, Except.bind]; rfl)
              apply Leads.step rfl (by simp only [execWrite, hold]; rfl)
              cases hf : heap1.kfree old with
              | error e => exact .fault rfl (by simp only [execWrite, Heap.kfreeOpt, hf]; rfl)
              | ok heap2 =>
                  apply Leads.step rfl (by simp only [execWrite, Heap.kfreeOpt, hf]; rfl)
                  apply Leads.step rfl rfl
                  exact copy_leads rfl rfl

/-- `dev->entry.size += count` after either branch. -/
theorem Leads.addSize {x : Except Fault (Option Int × AesdDev)}
    {f : Option Int × AesdDev → Except Fault (Option Int × AesdDev)} (h : Leads K buf o w s .sizeForSum x)
    (hsome : ∀ r s, f (some r, s) = .ok (some r, s))
    (hnone : ∀ s, f (none, s) =
      .ok (none, { s with entry := { s.entry with size := K.add s.entry.size buf.val.length } })) :
    Leads K buf o w s .lockBuf (x >>= f) := by
  rcases x with e | ⟨_ | r, s'⟩
  · exact h
  · change Leads K buf o w s .lockBuf (f (none, s'))
    rw [hnone]
    exact fun v hv => h v (.step rfl rfl (.step rfl rfl hv))
  · change Leads K buf o w s .lockBuf (f (some r, s'))
    rw [hsome]
    exact h

theorem writeEntry_leads (s : AesdDev) : Leads K buf o .testPtr s .lockBuf (writeEntry K s buf.val o) := by
  unfold writeEntry
  cases hp : s.entry.buffptr with
  | none =>
      have h : Leads K buf o .testPtr s .sizeForSum (writeFresh K s buf.val o) :=
        .step rfl (by simp only [execWrite, hp]; rfl) (writeFresh_leads s)
      exact h.addSize (fun _ _ => rfl) (fun _ => rfl)
  | some old =>
      have h : Leads K buf o .testPtr s .sizeForSum (writeAppend K s old buf.val o) :=
        .step rfl (by simp only [execWrite, hp]; rfl) (writeAppend_leads hp)
      exact h.addSize (fun _ _ => rfl) (fun _ => rfl)

/-- The end of `aesd_circular_buffer_add_entry`, after the oldest entry was dropped from a full ring. -/
theorem store_completes {result : Option Nat}
    (h : WriteRun K buf o (.freeDropped result)
      { s with buf := { s.buf with
          entry := s.buf.entry.setIfInBounds s.buf.inOffs s.entry
          inOffs := (s.buf.inOffs + 1) % AESDCHAR_MAX_WRITE_OPERATIONS_SUPPORTED
          full := if (s.buf.inOffs + 1) % AESDCHAR_MAX_WRITE_OPERATIONS_SUPPORTED = s.buf.outOffs then true
            else s.buf.full } } v) :
    WriteRun K buf o (.inForStore result) s v := by
  refine .step rfl rfl (.step rfl rfl (.step rfl rfl (.step rfl rfl (.step rfl rfl (.step rfl rfl
    (.step rfl rfl ?_))))))
  by_cases hwrap : (s.buf.inOffs + 1) % AESDCHAR_MAX_WRITE_OPERATIONS_SUPPORTED = s.buf.outOffs
  · rw [if_pos hwrap] at h
    refine .step rfl (by simp only [execWrite, if_pos hwrap]; rfl) (.step rfl rfl ?_)
    exact h
  · rw [if_neg hwrap] at h
    refine .step rfl (by simp only [execWrite, if_neg hwrap]; rfl) ?_
    exact h

theorem addEntry_completes
    (h : WriteRun K buf o (.freeDropped (aesdCircularBufferAddEntry s.buf s.entry).1)
      { s with buf := (aesdCircularBufferAddEntry s.buf s.entry).2 } v) :
    WriteRun K buf o .testFull s v := by
  unfold aesdCircularBufferAddEntry at h
  by_cases hfull : s.buf.full = true
  · simp only [hfull, if_true] at h
    refine .step rfl (by simp only [execWrite, if_pos hfull]; rfl) ?_
    refine .step rfl rfl (.step rfl rfl (.step rfl rfl (.step rfl rfl ?_)))
    apply store_completes
    simpa only [hfull] using h
  · simp only [hfull, Bool.false_eq_true, if_false] at h
    refine .step rfl (by simp only [execWrite, if_neg hfull]; rfl) ?_
    apply store_completes
    simpa only [hfull] using h

theorem writeCommit_completes (s : AesdDev) :
    WriteRun K buf o .ptrForTest s (writeCommit K s >>= fun s => .ok ((buf.val.length : Int), s)) := by
  unfold writeCommit
  apply WriteRun.step rfl rfl
  apply WriteRun.step rfl rfl
  cases hp : s.entry.buffptr with
  | none => exact .fault rfl rfl
  | some p =>
      dsimp only
      cases hl : s.heap.load p (K.sub s.entry.size 1) 1 with
      | error e => exact .fault rfl (by simp only [execWrite, hl]; rfl)
      | ok last =>
          simp only [bind, Except.bind]
          by_cases hn : last.any Byte.isNewline = true
          · rw [if_pos hn]
            apply WriteRun.step rfl (by simp only [execWrite, hl, bind, Except.bind, if_pos hn]; rfl)
            apply addEntry_completes
            dsimp only
            cases hk : s.heap.kfreeOpt (aesdCircularBufferAddEntry s.buf s.entry).1 with
            | error e => exact .fault rfl (by simp only [execWrite, hk]; rfl)
            | ok heap =>
                apply WriteRun.step rfl (by simp only [execWrite, hk]; rfl)
                refine .step rfl rfl (.step rfl rfl (.step rfl rfl ?_))
                exact .done rfl
          · rw [if_neg hn]
            apply WriteRun.step rfl (by simp only [execWrite, hl, bind, Except.bind, if_neg hn]; rfl)
            apply WriteRun.step rfl rfl
            exact .done rfl

/-- **A write that takes its steps alone does what `aesdWrite` says.** -/
theorem writeCall_completes (s : AesdDev) : WriteRun K buf o .lockEntry s (aesdWrite K s buf o) := by
  unfold aesdWrite
  by_cases hlock : o.entryLock = true
  · rw [if_pos hlock]
    apply WriteRun.step rfl (by simp only [execWrite, if_pos hlock]; rfl)
    have hentry : Leads K buf o .testPtr s .lockBuf (writeEntry K s buf.val o) := writeEntry_leads s
    generalize writeEntry K s buf.val o = x at hentry ⊢
    rcases x with e | ⟨_ | r, s'⟩
    · exact hentry
    · apply hentry
      change WriteRun K buf o .lockBuf s' (if o.bufLock then _ else _)
      by_cases hbuf : o.bufLock = true
      · rw [if_pos hbuf]
        refine .step rfl (by simp only [execWrite, if_pos hbuf]; rfl) ?_
        exact writeCommit_completes s'
      · rw [if_neg hbuf]
        exact .step rfl (by simp only [execWrite, if_neg hbuf]; rfl) (.done rfl)
    · exact hentry
  · rw [if_neg hlock]
    exact .step rfl (by simp only [execWrite, if_neg hlock]; rfl) (.done rfl)

end Write

/-! ## Reads -/

section Read
variable {K : Kernel} {count : Nat} {o : ReadOutcome} {s s' : AesdDev} {r r' : ReadPc} {fpos fpos' : Nat}
  {v : Except Fault ReadRet}

theorem ReadRun.step (hr : r.result = none) (hs : execRead K count o s fpos r = .ok (r', fpos'))
    (h : ReadRun K count o s r' fpos' v) : ReadRun K count o s r fpos v :=
  Completes.step (by simp [hr]) hs h

theorem ReadRun.fault {e : Fault} (hr : r.result = none) (hs : execRead K count o s fpos r = .error e) :
    ReadRun K count o s r fpos (.error e) :=
  Completes.fault (by simp [hr]) hs

theorem ReadRun.done {ret : ReadRet} (hr : r.result = some ⟨ret.result, ret.data⟩) (hpos : ret.fpos = fpos) :
    ReadRun K count o s r fpos (.ok ret) :=
  Completes.done (by simp [hr, ← hpos])

/-- What `aesd_read` does once the search has returned. -/
def readFound (K : Kernel) (s : AesdDev) (fpos count : Nat) (o : ReadOutcome) :
    Option (Nat × Nat) → Except Fault ReadRet
  | none => .ok ⟨0, [], fpos⟩
  | some (i, offset) => do
    let entry := s.buf.slot i
    let rest := K.sub entry.size offset
    let readCount := if rest > count then count else rest
    match entry.buffptr with
    | none => .error .nullDeref
    | some p => do
      let data ← s.heap.load p offset readCount
      if o.copyToUser then .ok ⟨(readCount : Int), data, fpos + readCount⟩ else .ok ⟨-EFAULT, [], fpos⟩

theorem aesdRead_eq_found (K : Kernel) (s : AesdDev) (fpos count : Nat) (o : ReadOutcome) :
    aesdRead K s fpos count o =
      if o.bufLock then
        readFound K s fpos count o (aesdCircularBufferFindEntryOffsetForFpos K s.buf (fpos % 2 ^ K.width))
      else .ok ⟨-ERESTARTSYS, [], fpos⟩ := by
  unfold aesdRead
  apply if_congr Iff.rfl ?_ rfl
  unfold readFound
  cases aesdCircularBufferFindEntryOffsetForFpos K s.buf (fpos % 2 ^ K.width) <;> rfl

theorem found_completes (i offset : Nat) :
    ReadRun K count o s (.sizeForCount i offset) fpos (readFound K s fpos count o (some (i, offset))) := by
  unfold readFound
  refine .step rfl rfl (.step rfl rfl ?_)
  dsimp only
  cases hp : (s.buf.slot i).buffptr with
  | none => exact .fault rfl rfl
  | some p =>
      dsimp only
      generalize (if K.sub (s.buf.slot i).size offset > count then count
        else K.sub (s.buf.slot i).size offset) = readCount
      cases hl : s.heap.load p offset readCount with
      | error e => exact .fault rfl (by simp only [execRead, hl]; rfl)
      | ok data =>
          simp only [bind, Except.bind]
          by_cases hc : o.copyToUser = true
          · rw [if_pos hc]
            apply ReadRun.step rfl (by simp only [execRead, hl, bind, Except.bind, if_pos hc]; rfl)
            refine .step rfl rfl (.step rfl rfl ?_)
            exact .done rfl rfl
          · rw [if_neg hc]
            apply ReadRun.step rfl (by simp only [execRead, hl, bind, Except.bind, if_neg hc]; rfl)
            exact .done rfl rfl

theorem loop_completes (hout : s.buf.outOffs < 10) (charOffset n k sum : Nat) (hn : n + k = 10) (hk : k < 10) :
    ReadRun K count o s (.sizeForSum charOffset ((s.buf.outOffs + k) % 10) sum) fpos
      (readFound K s fpos count o (findLoop K s.buf charOffset n ((s.buf.outOffs + k) % 10) sum)) := by
  induction n generalizing k sum with
  | zero => omega
  | succ n ih =>
      unfold findLoop
      by_cases hfound : K.add sum (s.buf.slot ((s.buf.outOffs + k) % 10)).size > charOffset
      · rw [if_pos hfound]
        refine .step rfl (by simp only [execRead, if_pos hfound]; rfl) (.step rfl rfl ?_)
        exact found_completes _ _
      · rw [if_neg hfound]
        refine .step rfl (by simp only [execRead, if_neg hfound]; rfl) ?_
        have hnext : ((s.buf.outOffs + k) % 10 + 1) % 10 = (s.buf.outOffs + (k + 1)) % 10 := by omega
        dsimp only
        rw [hnext]
        by_cases hend : (s.buf.outOffs + (k + 1)) % 10 = s.buf.outOffs
        · rw [if_pos hend]
          refine .step rfl (by simp only [execRead, if_pos hend]; rfl) ?_
          exact .done rfl rfl
        · rw [if_neg hend]
          refine .step rfl (by simp only [execRead, if_neg hend]; rfl) ?_
          apply ih (k + 1) _ (by omega)
          by_contra hge
          exact hend (by omega)

/-- **A read that takes its steps alone does what `aesdRead` says.** -/
theorem readCall_completes (hout : s.buf.outOffs < 10) :
    ReadRun K count o s .lockBuf fpos (aesdRead K s fpos count o) := by
  rw [aesdRead_eq_found]
  by_cases hlock : o.bufLock = true
  · rw [if_pos hlock]
    refine .step rfl (by simp only [execRead, if_pos hlock]; rfl) (.step rfl rfl (.step rfl rfl ?_))
    have hloop : ReadRun K count o s (.sizeForSum (fpos % 2 ^ K.width) ((s.buf.outOffs + 0) % 10) 0) fpos
        (readFound K s fpos count o (findLoop K s.buf (fpos % 2 ^ K.width) 10 ((s.buf.outOffs + 0) % 10) 0)) :=
      loop_completes hout _ 10 0 0 rfl (by decide)
    rw [Nat.add_zero, Nat.mod_eq_of_lt hout] at hloop
    exact hloop
  · rw [if_neg hlock]
    exact .step rfl (by simp only [execRead, if_neg hlock]; rfl) (.done rfl rfl)

end Read

/-! ## What a read looks at -/

/-- The ring is the same, and so is every block it points to. -/
structure SameRing (s s' : AesdDev) : Prop where
  buf : s'.buf = s.buf
  block : ∀ i p, (s.buf.slot i).buffptr = some p → s'.heap.block p = s.heap.block p

theorem SameRing.refl (s : AesdDev) : SameRing s s := ⟨rfl, fun _ _ _ => rfl⟩

theorem SameRing.trans {s s' s'' : AesdDev} (h : SameRing s s') (h' : SameRing s' s'') : SameRing s s'' := by
  refine ⟨h'.buf.trans h.buf, fun i p hp => ?_⟩
  rw [h'.block i p (by rw [h.buf]; exact hp), h.block i p hp]

theorem Heap.load_congr {h h' : Heap} {p : Nat} (hb : h'.block p = h.block p) (off n : Nat) :
    h'.load p off n = h.load p off n := by
  unfold load
  rw [hb]

theorem aesdRead_congr {K : Kernel} {s s' : AesdDev} (h : SameRing s s') (fpos count : Nat) (o : ReadOutcome) :
    aesdRead K s' fpos count o = aesdRead K s fpos count o := by
  rw [aesdRead_eq_found, aesdRead_eq_found, h.buf]
  rcases aesdCircularBufferFindEntryOffsetForFpos K s.buf (fpos % 2 ^ K.width) with _ | ⟨i, offset⟩
  · rfl
  · unfold readFound
    rw [h.buf]
    cases hp : (s.buf.slot i).buffptr with
    | none => simp only [hp]
    | some p => simp only [hp, Heap.load_congr (h.block i p hp)]

/-- The pointer that a read has taken from the ring and not yet used. -/
def ReadPc.ptr : ReadPc → Option Nat
  | .copy ptr _ _ => ptr
  | _ => none

def ReadPc.InRing (r : ReadPc) (s : AesdDev) : Prop := ∀ p, r.ptr = some p → ∃ i, (s.buf.slot i).buffptr = some p

section Frame
variable {K : Kernel} {count : Nat} {o : ReadOutcome} {s s' : AesdDev} {r r' : ReadPc} {fpos fpos' : Nat}

theorem execRead_inRing (hs : execRead K count o s fpos r = .ok (r', fpos')) : r'.InRing s := by
  intro p hp
  cases r with
  | ptrForCopy i off n =>
      cases hs
      exact ⟨i, hp⟩
  | copy ptr off n =>
      cases ptr with
      | none => cases hs
      | some q =>
          obtain ⟨data, -, hs⟩ := bind_ok hs
          cases hs
          split_ifs at hp <;> cases hp
  | lockBuf =>
      cases hs
      split_ifs at hp <;> cases hp
  | sizeForSum off i sum =>
      cases hs
      split_ifs at hp <;> cases hp
  | outForEnd off i sum =>
      cases hs
      split_ifs at hp <;> cases hp
  | _ =>
      cases hs
      cases hp

theorem execRead_congr (h : SameRing s s') (hr : r.InRing s) :
    execRead K count o s' fpos r = execRead K count o s fpos r := by
  cases r with
  | copy ptr off n =>
      cases ptr with
      | none => rfl
      | some p =>
          obtain ⟨i, hi⟩ := hr p rfl
          simp only [execRead, Heap.load_congr (h.block i p hi)]
  | _ => simp only [execRead, h.buf]

theorem ReadPc.InRing.congr (hr : r.InRing s) (h : SameRing s s') : r.InRing s' := by
  intro p hp
  rw [h.buf]
  exact hr p hp

theorem ReadRun.congr {v : Except Fault ReadRet} (hrun : ReadRun K count o s r fpos v) (h : SameRing s s')
    (hr : r.InRing s) : ReadRun K count o s' r fpos v := by
  unfold ReadRun at hrun
  generalize hx : (r, fpos) = x at hrun
  induction hrun generalizing r fpos with
  | done hres =>
      subst hx
      exact Completes.done hres
  | fault hres hs =>
      subst hx
      exact Completes.fault hres (by rw [execRead_congr h hr]; exact hs)
  | step hres hs _ ih =>
      subst hx
      exact Completes.step hres (by rw [execRead_congr h hr]; exact hs) (ih (execRead_inRing hs) rfl)

end Frame

/-! ## What a write leaves alone -/

def WritePc.held : WritePc → List Lock
  | .lockEntry | .ret _ => []
  | .ptrForTest | .sizeForTest _ | .testNewline _ _ | .testFull | .outForOld | .oldPtr _ | .outForAdvance _
  | .setOut _ _ | .inForStore _ | .ptrForStore _ _ | .sizeForStore _ _ _ | .storeEntry _ _ _ | .inForAdvance _
  | .setIn _ _ | .inForWrap _ | .outForWrap _ _ | .setFull _ | .freeDropped _ | .clearPtr | .clearSize
  | .unlockBuf => [.entryLock, .bufLock]
  | _ => [.entryLock]

def ReadPc.held : ReadPc → List Lock
  | .lockBuf | .ret _ => []
  | _ => [.bufLock]

/-- The blocks that a write has in local variables before it takes `buf_lock`. -/
def WritePc.ptrs : WritePc → List Nat
  | .copyFresh kbuf | .ptrForCopy kbuf | .ptrForFree kbuf | .sizeForAppend kbuf | .copyAppend kbuf _
  | .dropKbuf kbuf | .setPtr kbuf => [kbuf]
  | .sizeForCopy kbuf old | .memcpy kbuf old _ | .freeOld kbuf old => kbuf :: old.toList
  | _ => []

/-- The blocks of the ring are neither the pending one nor any the write is working on. -/
def Apart (s : AesdDev) (w : WritePc) : Prop :=
  ∀ i p, (s.buf.slot i).buffptr = some p → p < s.heap.blocks.length ∧ s.entry.buffptr ≠ some p ∧ p ∉ w.ptrs

section Frame
variable {K : Kernel} {buf : K.UserBuf} {o : WriteOutcome} {s s' : AesdDev} {w w' : WritePc}

theorem Apart.ledger (h : Apart s w) {heap : Heap}
    (hblock : ∀ p, p < s.heap.blocks.length → p ∉ w.ptrs → heap.block p = s.heap.block p)
    (hlen : s.heap.blocks.length ≤ heap.blocks.length)
    (hptrs : ∀ p ∈ w'.ptrs, p ∈ w.ptrs ∨ s.heap.blocks.length ≤ p) :
    SameRing s { s with heap := heap } ∧ Apart { s with heap := heap } w' := by
  refine ⟨⟨rfl, fun i p hp => ?_⟩, fun i p hp => ?_⟩
  · obtain ⟨hlt, -, hw⟩ := h i p hp
    exact hblock p hlt hw
  · obtain ⟨hlt, hne, hw⟩ := h i p hp
    refine ⟨hlt.trans_le hlen, hne, fun hmem => ?_⟩
    rcases hptrs p hmem with hp | hge
    · exact hw hp
    · omega

theorem Apart.same (h : Apart s w) (hptrs : ∀ p ∈ w'.ptrs, p ∈ w.ptrs ∨ s.entry.buffptr = some p) :
    SameRing s s ∧ Apart s w' := by
  refine ⟨.refl s, fun i p hp => ?_⟩
  obtain ⟨hlt, hne, hw⟩ := h i p hp
  refine ⟨hlt, hne, fun hmem => ?_⟩
  rcases hptrs p hmem with hp | hp
  · exact hw hp
  · exact hne hp

theorem Apart.entry (h : Apart s w) {e : AesdBufferEntry}
    (he : ∀ p, e.buffptr = some p → p ∈ w.ptrs ∨ s.entry.buffptr = some p)
    (hptrs : w'.ptrs = []) : SameRing s { s with entry := e } ∧ Apart { s with entry := e } w' := by
  refine ⟨⟨rfl, fun _ _ _ => rfl⟩, fun i p hp => ?_⟩
  obtain ⟨hlt, hne, hw⟩ := h i p hp
  refine ⟨hlt, fun hmem => ?_, by simp [hptrs]⟩
  rcases he p hmem with hp | hp
  · exact hw hp
  · exact hne hp

theorem Heap.store_frame {h h' : Heap} {p off : Nat} {bytes : List Byte} (hs : h.store p off bytes = .ok h') :
    h'.blocks.length = h.blocks.length ∧ ∀ q, q ≠ p → h'.block q = h.block q := by
  obtain ⟨b, rfl⟩ := store_ok hs
  exact ⟨length_put _ _ _, fun q hq => by rw [block_put, if_neg (fun hc => hq hc.1)]⟩

theorem Heap.kfree_frame {h h' : Heap} {p : Nat} (hs : h.kfree p = .ok h') :
    h'.blocks.length = h.blocks.length ∧ ∀ q, q ≠ p → h'.block q = h.block q := by
  obtain ⟨data, -, rfl⟩ := kfree_ok hs
  exact ⟨length_put _ _ _, fun q hq => by rw [block_put, if_neg (fun hc => hq hc.1)]⟩

theorem Heap.kfreeOpt_frame {h h' : Heap} {p : Option Nat} (hs : h.kfreeOpt p = .ok h') :
    h'.blocks.length = h.blocks.length ∧ ∀ q, p ≠ some q → h'.block q = h.block q := by
  cases p with
  | none =>
      cases hs
      exact ⟨rfl, fun _ _ => rfl⟩
  | some p =>
      obtain ⟨hlen, hblock⟩ := kfree_frame hs
      exact ⟨hlen, fun q hq => hblock q (fun hc => hq (by rw [hc]))⟩

theorem Apart.kzalloc (h : Apart s w) {ok : Bool} {size kbuf : Nat} {heap : Heap}
    (hk : s.heap.kzalloc K ok size = some (kbuf, heap)) (hw : w'.ptrs = [kbuf]) :
    SameRing s { s with heap := heap } ∧ Apart { s with heap := heap } w' := by
  obtain ⟨-, rfl, rfl⟩ := Heap.kzalloc_eq_some hk
  refine h.ledger (fun p hp _ => ?_) (by simp) (fun p hp => ?_)
  · rw [Heap.block_push, if_neg (by omega)]
  · rw [hw, List.mem_singleton] at hp
    exact Or.inr (by omega)

theorem Apart.store (h : Apart s w) {kbuf off : Nat} {bytes : List Byte} {heap : Heap}
    (hs : s.heap.store kbuf off bytes = .ok heap) (hk : kbuf ∈ w.ptrs) (hw : w'.ptrs = [kbuf]) :
    SameRing s { s with heap := heap } ∧ Apart { s with heap := heap } w' := by
  obtain ⟨hlen, hblock⟩ := Heap.store_frame hs
  refine h.ledger (fun p _ hp => hblock p ?_) (by omega) (fun p hp => ?_)
  · rintro rfl
    exact hp hk
  · rw [hw, List.mem_singleton] at hp
    exact Or.inl (hp ▸ hk)

theorem Apart.kfreeOpt (h : Apart s w) {q : Option Nat} {heap : Heap} (hf : s.heap.kfreeOpt q = .ok heap)
    (hq : ∀ p, q = some p → p ∈ w.ptrs) (hw : ∀ p ∈ w'.ptrs, p ∈ w.ptrs) :
    SameRing s { s with heap := heap } ∧ Apart { s with heap := heap } w' := by
  obtain ⟨hlen, hblock⟩ := Heap.kfreeOpt_frame hf
  refine h.ledger (fun p _ hp => hblock p ?_) (by omega) (fun p hp => Or.inl (hw p hp))
  intro heq
  exact hp (hq p heq)

/-- **Before it takes `buf_lock`, a write leaves the ring alone.** -/
theorem execWrite_frame (hw : w.held = [.entryLock]) (h : Apart s w) (hs : execWrite K buf o s w = .ok (w', s')) :
    SameRing s s' ∧ Apart s' w' := by
  cases w with
  | testPtr =>
      cases hs
      exact h.same (by intro p hp; split_ifs at hp <;> simp [WritePc.ptrs] at hp)
  | allocFresh =>
      simp only [execWrite] at hs
      cases hk : s.heap.kzalloc K o.kzalloc buf.val.length with
      | none =>
          rw [hk] at hs
          cases hs
          exact h.same (by simp [WritePc.ptrs])
      | some x =>
          rw [hk] at hs
          cases hs
          exact h.kzalloc hk rfl
  | copyFresh kbuf =>
      simp only [execWrite] at hs
      split_ifs at hs
      · obtain ⟨heap, hst, hs⟩ := bind_ok hs
        cases hs
        exact h.store hst (by simp [WritePc.ptrs]) rfl
      · cases hs
        exact h.same (by simp [WritePc.ptrs])
  | sizeForAlloc =>
      cases hs
      exact h.same (by simp [WritePc.ptrs])
  | allocAppend size =>
      simp only [execWrite] at hs
      cases hk : s.heap.kzalloc K o.kzalloc size with
      | none =>
          rw [hk] at hs
          cases hs
          exact h.same (by simp [WritePc.ptrs])
      | some x =>
          rw [hk] at hs
          cases hs
          exact h.kzalloc hk rfl
  | ptrForCopy kbuf =>
      cases hs
      exact h.same (by simp [WritePc.ptrs])
  | sizeForCopy kbuf old =>
      cases hs
      exact h.same (by intro p hp; exact Or.inl hp)
  | memcpy kbuf old size =>
      cases old with
      | none => cases hs
      | some old =>
          obtain ⟨data, -, hs⟩ := bind_ok hs
          obtain ⟨heap, hst, hs⟩ := bind_ok hs
          cases hs
          exact h.store hst (by simp [WritePc.ptrs]) rfl
  | ptrForFree kbuf =>
      cases hs
      exact h.same (by simp [WritePc.ptrs])
  | freeOld kbuf old =>
      obtain ⟨heap, hf, hs⟩ := bind_ok hs
      cases hs
      apply h.kfreeOpt hf
      · rintro p rfl
        simp [WritePc.ptrs]
      · intro p hp
        simp only [WritePc.ptrs, List.mem_singleton] at hp
        simp [WritePc.ptrs, hp]
  | sizeForAppend kbuf =>
      cases hs
      exact h.same (by simp [WritePc.ptrs])
  | copyAppend kbuf size =>
      simp only [execWrite] at hs
      split_ifs at hs
      · obtain ⟨heap, hst, hs⟩ := bind_ok hs
        cases hs
        exact h.store hst (by simp [WritePc.ptrs]) rfl
      · cases hs
        exact h.same (by simp [WritePc.ptrs])
  | dropKbuf kbuf =>
      obtain ⟨heap, hf, hs⟩ := bind_ok hs
      cases hs
      have hfree : s.heap.kfreeOpt (some kbuf) = .ok heap := hf
      exact h.kfreeOpt hfree (by simp [WritePc.ptrs]) (by simp [WritePc.ptrs])
  | setPtr kbuf =>
      cases hs
      exact h.entry (by simp [WritePc.ptrs]) rfl
  | sizeForSum =>
      cases hs
      exact h.same (by simp [WritePc.ptrs])
  | setSize size =>
      cases hs
      exact h.entry (fun p hp => Or.inr hp) rfl
  | lockBuf =>
      cases hs
      exact h.same (by intro p hp; split_ifs at hp <;> simp [WritePc.ptrs] at hp)
  | unlockEntry result =>
      cases hs
      exact h.same (by simp [WritePc.ptrs])
  | _ => cases hw

end Frame

end Aesd.Driver
