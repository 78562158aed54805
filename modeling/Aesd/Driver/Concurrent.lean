import Aesd.Lib.History
import Aesd.Driver.Main

/-!
# Concurrent callers of the char driver

Any number of callers, each with an open file of its own, run `aesd_read` and `aesd_write` step by step.

* `WritePc`, `ReadPc` : the points between two accesses of a call to the device, to its locks or to the file position;
  what the call keeps in local variables is in the point;
* `execWrite`, `execRead` : the step from a point;
* `LockOp`, `Machine`, `step` : the locks and the callers. A caller that finds a lock taken stays where it is, and so
  does one whose step is a fault: it never gives its locks back;
* `run` : the machine after any list of labels, which is any interleaving.
-/

namespace Aesd.Driver
open Lib

/-! ## The points of a call -/

/-- The points of `aesd_write`. Each makes one access: `ptrFor..` and `sizeFor..` read a field of `dev->entry`,
`outFor..` and `inFor..` an offset of `dev->buf`. -/
inductive WritePc where
  | lockEntry
  | testPtr
  -- a fresh buffer
  | allocFresh
  | copyFresh (kbuf : Nat)
  -- a larger buffer
  | sizeForAlloc
  | allocAppend (size : Nat)
  | ptrForCopy (kbuf : Nat)
  | sizeForCopy (kbuf : Nat) (old : Option Nat)
  | memcpy (kbuf : Nat) (old : Option Nat) (size : Nat)
  | ptrForFree (kbuf : Nat)
  | freeOld (kbuf : Nat) (old : Option Nat)
  | sizeForAppend (kbuf : Nat)
  | copyAppend (kbuf : Nat) (size : Nat)
  | dropKbuf (kbuf : Nat)
  | setPtr (kbuf : Nat)
  | sizeForSum
  | setSize (size : Nat)
  | lockBuf
  | ptrForTest
  | sizeForTest (ptr : Option Nat)
  | testNewline (ptr : Option Nat) (size : Nat)
  -- aesd_circular_buffer_add_entry
  | testFull
  | outForOld
  | oldPtr (i : Nat)
  | outForAdvance (result : Option Nat)
  | setOut (result : Option Nat) (outOffs : Nat)
  | inForStore (result : Option Nat)
  | ptrForStore (result : Option Nat) (i : Nat)
  | sizeForStore (result : Option Nat) (i : Nat) (ptr : Option Nat)
  | storeEntry (result : Option Nat) (i : Nat) (e : AesdBufferEntry)
  | inForAdvance (result : Option Nat)
  | setIn (result : Option Nat) (inOffs : Nat)
  | inForWrap (result : Option Nat)
  | outForWrap (result : Option Nat) (inOffs : Nat)
  | setFull (result : Option Nat)
  -- back in aesd_write
  | freeDropped (oldData : Option Nat)
  | clearPtr
  | clearSize
  | unlockBuf
  | unlockEntry (result : Int)
  | ret (result : Int)
deriving DecidableEq, Repr

/-- The points of `aesd_read` and of the search it calls. -/
inductive ReadPc where
  | lockBuf
  | posForFind
  | outForStart (charOffset : Nat)
  | sizeForSum (charOffset i searchOffset : Nat)
  | sizeForOffset (charOffset i searchOffset : Nat)
  | outForEnd (charOffset i searchOffset : Nat)
  | sizeForCount (i offset : Nat)
  | ptrForCopy (i offset readCount : Nat)
  | copy (ptr : Option Nat) (offset readCount : Nat)
  | posForAdvance (data : List Byte) (readCount : Nat)
  | setPos (data : List Byte) (readCount fpos : Nat)
  | unlockBuf (r : Ret)
  | ret (r : Ret)
deriving DecidableEq, Repr

/-! ## The step from a point -/

/-- A step of `aesd_write`, for a caller that is given the lock if it asks for one and is not interrupted. -/
def execWrite (K : Kernel) (buf : K.UserBuf) (o : WriteOutcome) (s : AesdDev) :
    WritePc → Except Fault (WritePc × AesdDev)
  | .lockEntry => .ok (if o.entryLock then .testPtr else .ret (-ERESTARTSYS), s)
  | .testPtr => .ok (if s.entry.buffptr = none then .allocFresh else .sizeForAlloc, s)
  | .allocFresh =>
    match s.heap.kzalloc K o.kzalloc buf.val.length with
    | none => .ok (.unlockEntry (-ENOMEM), s)
    | some (kbuf, heap) => .ok (.copyFresh kbuf, { s with heap := heap })
  | .copyFresh kbuf =>
    if o.copyFromUser then do
      let heap ← s.heap.store kbuf 0 buf.val
      .ok (.setPtr kbuf, { s with heap := heap })
    else .ok (.dropKbuf kbuf, s)
  | .sizeForAlloc => .ok (.allocAppend (K.add s.entry.size buf.val.length), s)
  | .allocAppend size =>
    match s.heap.kzalloc K o.kzalloc size with
    | none => .ok (.unlockEntry (-ENOMEM), s)
    | some (kbuf, heap) => .ok (.ptrForCopy kbuf, { s with heap := heap })
  | .ptrForCopy kbuf => .ok (.sizeForCopy kbuf s.entry.buffptr, s)
  | .sizeForCopy kbuf old => .ok (.memcpy kbuf old s.entry.size, s)
  | .memcpy _ none _ => .error .nullDeref
  | .memcpy kbuf (some old) size => do
    let data ← s.heap.load old 0 size
    let heap ← s.heap.store kbuf 0 data
    .ok (.ptrForFree kbuf, { s with heap := heap })
  | .ptrForFree kbuf => .ok (.freeOld kbuf s.entry.buffptr, s)
  | .freeOld kbuf old => do
    let heap ← s.heap.kfreeOpt old
    .ok (.sizeForAppend kbuf, { s with heap := heap })
  | .sizeForAppend kbuf => .ok (.copyAppend kbuf s.entry.size, s)
  | .copyAppend kbuf size =>
    if o.copyFromUser then do
      let heap ← s.heap.store kbuf size buf.val
      .ok (.setPtr kbuf, { s with heap := heap })
    else .ok (.dropKbuf kbuf, s)
  | .dropKbuf kbuf => do
    let heap ← s.heap.kfree kbuf
    .ok (.unlockEntry (-EFAULT), { s with heap := heap })
  | .setPtr kbuf => .ok (.sizeForSum, { s with entry := { s.entry with buffptr := some kbuf } })
  | .sizeForSum => .ok (.setSize (K.add s.entry.size buf.val.length), s)
  | .setSize size => .ok (.lockBuf, { s with entry := { s.entry with size := size } })
  | .lockBuf => .ok (if o.bufLock then .ptrForTest else .unlockEntry (-EINTR), s)
  | .ptrForTest => .ok (.sizeForTest s.entry.buffptr, s)
  | .sizeForTest ptr => .ok (.testNewline ptr s.entry.size, s)
  | .testNewline none _ => .error .nullDeref
  | .testNewline (some p) size => do
    let last ← s.heap.load p (K.sub size 1) 1
    if last.any Byte.isNewline then
      -- the packet is complete; only the history records it here
      .ok (.testFull, { s with
        committed := s.committed ++ [(s.heap.bytes s.entry).getD []]
        evicted := s.evicted + s.buf.dropSize })
    else .ok (.unlockBuf, s)
  | .testFull => .ok (if s.buf.full then .outForOld else .inForStore none, s)
  | .outForOld => .ok (.oldPtr s.buf.outOffs, s)
  | .oldPtr i => .ok (.outForAdvance (s.buf.slot i).buffptr, s)
  | .outForAdvance result =>
    .ok (.setOut result ((s.buf.outOffs + 1) % AESDCHAR_MAX_WRITE_OPERATIONS_SUPPORTED), s)
  | .setOut result outOffs => .ok (.inForStore result, { s with buf := { s.buf with outOffs := outOffs } })
  | .inForStore result => .ok (.ptrForStore result s.buf.inOffs, s)
  | .ptrForStore result i => .ok (.sizeForStore result i s.entry.buffptr, s)
  | .sizeForStore result i ptr => .ok (.storeEntry result i ⟨ptr, s.entry.size⟩, s)
  | .storeEntry result i e =>
    .ok (.inForAdvance result, { s with buf := { s.buf with entry := s.buf.entry.setIfInBounds i e } })
  | .inForAdvance result => .ok (.setIn result ((s.buf.inOffs + 1) % AESDCHAR_MAX_WRITE_OPERATIONS_SUPPORTED), s)
  | .setIn result inOffs => .ok (.inForWrap result, { s with buf := { s.buf with inOffs := inOffs } })
  | .inForWrap result => .ok (.outForWrap result s.buf.inOffs, s)
  | .outForWrap result inOffs => .ok (if inOffs = s.buf.outOffs then .setFull result else .freeDropped result, s)
  | .setFull result => .ok (.freeDropped result, { s with buf := { s.buf with full := true } })
  | .freeDropped oldData => do
    let heap ← s.heap.kfreeOpt oldData
    .ok (.clearPtr, { s with heap := heap })
  | .clearPtr => .ok (.clearSize, { s with entry := { s.entry with buffptr := none } })
  | .clearSize => .ok (.unlockBuf, { s with entry := { s.entry with size := 0 } })
  | .unlockBuf => .ok (.unlockEntry buf.val.length, s)
  | .unlockEntry result => .ok (.ret result, s)
  | .ret result => .ok (.ret result, s)

/-- A step of `aesd_read` at file position `fpos`, for a caller that is given the lock. -/
def execRead (K : Kernel) (count : Nat) (o : ReadOutcome) (s : AesdDev) (fpos : Nat) :
    ReadPc → Except Fault (ReadPc × Nat)
  | .lockBuf => .ok (if o.bufLock then .posForFind else .ret ⟨-ERESTARTSYS, []⟩, fpos)
  | .posForFind => .ok (.outForStart (fpos % 2 ^ K.width), fpos)
  | .outForStart charOffset => .ok (.sizeForSum charOffset s.buf.outOffs 0, fpos)
  | .sizeForSum charOffset i searchOffset =>
    let sum := K.add searchOffset (s.buf.slot i).size
    .ok (if sum > charOffset then .sizeForOffset charOffset i sum
      else .outForEnd charOffset ((i + 1) % AESDCHAR_MAX_WRITE_OPERATIONS_SUPPORTED) sum, fpos)
  | .sizeForOffset charOffset i searchOffset =>
    .ok (.sizeForCount i (K.sub charOffset (K.sub searchOffset (s.buf.slot i).size)), fpos)
  | .outForEnd charOffset i searchOffset =>
    .ok (if i = s.buf.outOffs then .unlockBuf ⟨0, []⟩ else .sizeForSum charOffset i searchOffset, fpos)
  | .sizeForCount i offset =>
    let rest := K.sub (s.buf.slot i).size offset
    .ok (.ptrForCopy i offset (if rest > count then count else rest), fpos)
  | .ptrForCopy i offset readCount => .ok (.copy (s.buf.slot i).buffptr offset readCount, fpos)
  | .copy none _ _ => .error .nullDeref
  | .copy (some p) offset readCount => do
    let data ← s.heap.load p offset readCount
    .ok (if o.copyToUser then .posForAdvance data readCount else .unlockBuf ⟨-EFAULT, []⟩, fpos)
  | .posForAdvance data readCount => .ok (.setPos data readCount (fpos + readCount), fpos)
  | .setPos data readCount pos => .ok (.unlockBuf ⟨readCount, data⟩, pos)
  | .unlockBuf r => .ok (.ret r, fpos)
  | .ret r => .ok (.ret r, fpos)

/-! ## Locks -/

inductive Lock where
  | entryLock
  | bufLock
deriving DecidableEq, Repr

inductive LockOp where
  | acquire (l : Lock)
  | release (l : Lock)
  | keep
deriving DecidableEq, Repr

/-- A call in flight: its arguments, the kernel's answers and the point it has reached. -/
inductive Pc (K : Kernel) where
  | write (buf : K.UserBuf) (o : WriteOutcome) (w : WritePc)
  | read (count : Nat) (o : ReadOutcome) (r : ReadPc)

/-- `mutex_lock_interruptible` takes the lock unless it is interrupted. -/
def WritePc.lockOp (o : WriteOutcome) : WritePc → LockOp
  | .lockEntry => if o.entryLock then .acquire .entryLock else .keep
  | .lockBuf => if o.bufLock then .acquire .bufLock else .keep
  | .unlockBuf => .release .bufLock
  | .unlockEntry _ => .release .entryLock
  | _ => .keep

def ReadPc.lockOp (o : ReadOutcome) : ReadPc → LockOp
  | .lockBuf => if o.bufLock then .acquire .bufLock else .keep
  | .unlockBuf _ => .release .bufLock
  | _ => .keep

namespace Pc
variable {K : Kernel}

def lockOp : Pc K → LockOp
  | .write _ o w => w.lockOp o
  | .read _ o r => r.lockOp o

def call (i : Nat) : Pc K → Call K
  | .write buf o _ => .write i buf o
  | .read count o _ => .read i count o

def exec (s : AesdDev) (fpos : Nat) : Pc K → Except Fault (Pc K × AesdDev × Nat)
  | .write buf o w => do
    let (w, s) ← execWrite K buf o s w
    .ok (.write buf o w, s, fpos)
  | .read count o r => do
    let (r, fpos) ← execRead K count o s fpos r
    .ok (.read count o r, s, fpos)

/-- The lock that the call stands before, whether it will get it or be interrupted. -/
def wants : Pc K → Option Lock
  | .write _ _ .lockEntry => some .entryLock
  | .write _ _ .lockBuf => some .bufLock
  | .read _ _ .lockBuf => some .bufLock
  | _ => none

/-- What the call returns in its next step, if that is a `return`. -/
def returns : Pc K → Option Ret
  | .write _ _ (.ret result) => some ⟨result, []⟩
  | .read _ _ (.ret r) => some r
  | _ => none

end Pc

/-! ## The machine -/

/-- A caller inside a call, with the locks that the call has acquired and released so far. -/
structure Running (K : Kernel) where
  id : Nat
  pc : Pc K
  acquired : List Lock := []
  released : List Lock := []

structure Finished where
  id : Nat
  acquired : List Lock
  released : List Lock

structure Machine (K : Kernel) where
  dev : AesdDev
  fpos : Nat → Nat
  lock : Lock → Option Nat
  callers : Nat → Option (Running K)
  -- history: the calls begun, their invocations and returns, and the locks of those that returned
  begun : Nat
  history : List (Event (Call K) Ret)
  finished : List Finished

def Machine.init (K : Kernel) : Machine K where
  dev := aesdInitModule
  fpos _ := aesdOpen.2
  lock _ := none
  callers _ := none
  begun := 0
  history := []
  finished := []

/-- A caller enters a call, or takes a step in the call it is in. -/
inductive Label (K : Kernel) where
  | write (i : Nat) (buf : K.UserBuf) (o : WriteOutcome)
  | read (i : Nat) (count : Nat) (o : ReadOutcome)
  | step (i : Nat)

namespace Machine
variable {K : Kernel}

def enter (m : Machine K) (i : Nat) (pc : Pc K) : Machine K :=
  match m.callers i with
  | some _ => m
  | none => { m with
      callers := Function.update m.callers i (some { id := m.begun, pc := pc })
      begun := m.begun + 1
      history := m.history ++ [.inv m.begun (pc.call i)] }

def leave (m : Machine K) (i : Nat) (r : Running K) (v : Ret) : Machine K :=
  { m with
    callers := Function.update m.callers i none
    history := m.history ++ [.ret r.id v]
    finished := m.finished ++ [⟨r.id, r.acquired, r.released⟩] }

def move (m : Machine K) (i : Nat) (r : Running K) (dev : AesdDev) (fpos : Nat) (lock : Lock → Option Nat) :
    Machine K :=
  { m with
    dev := dev
    fpos := Function.update m.fpos i fpos
    lock := lock
    callers := Function.update m.callers i (some r) }

def stepCall (m : Machine K) (i : Nat) (r : Running K) : Machine K :=
  match r.pc.returns with
  | some v => m.leave i r v
  | none =>
    match r.pc.exec m.dev (m.fpos i) with
    | .error _ => m
    | .ok (pc, dev, fpos) =>
      match r.pc.lockOp with
      | .keep => m.move i { r with pc := pc } dev fpos m.lock
      | .acquire l =>
        if m.lock l = none then
          m.move i { r with pc := pc, acquired := r.acquired ++ [l] } dev fpos (Function.update m.lock l (some i))
        else m
      | .release l =>
        m.move i { r with pc := pc, released := r.released ++ [l] } dev fpos (Function.update m.lock l none)

def step (m : Machine K) : Label K → Machine K
  | .write i buf o => m.enter i (.write buf o .lockEntry)
  | .read i count o => m.enter i (.read count o .lockBuf)
  | .step i =>
    match m.callers i with
    | none => m
    | some r => m.stepCall i r

def run (m : Machine K) (labels : List (Label K)) : Machine K := labels.foldl step m

/-- Caller `i` stands before a lock that caller `j` holds. -/
def WaitsFor (m : Machine K) (i j : Nat) : Prop :=
  ∃ r l, m.callers i = some r ∧ r.pc.wants = some l ∧ m.lock l = some j

def Quiet (m : Machine K) : Prop := ∀ i, m.callers i = none

end Machine

end Aesd.Driver
