import Aesd.Driver.CircularBuffer

/-!
# `main.c` of the char driver

* `AesdDev` : the device with the ledger of its blocks; `committed` and `evicted` record the packets handed to
  `aesd_circular_buffer_add_entry` and the bytes that fell out of the ring, and no code reads them;
* `aesdRead`, `aesdWrite`, `aesdOpen`, `aesdRelease`, `aesdInitModule` : the file operations. What the kernel answers
  to a call (locks, `kzalloc`, the copies from and to user space) is an argument, so every outcome of a call is one
  choice of it;
* `Call`, `runCalls` : sequences of calls through any number of open files.
-/

namespace Aesd.Driver

def ERESTARTSYS : Int := 512
def EINTR : Int := 4
def ENOMEM : Int := 12
def EFAULT : Int := 14

/-- `struct aesd_dev`, with the ledger of the blocks it points to. -/
structure AesdDev where
  buf : AesdCircularBuffer
  entry : AesdBufferEntry
  heap : Heap
  -- history: the packets added to the ring so far, and the number of bytes dropped from it
  committed : List (List Byte)
  evicted : Nat
deriving DecidableEq, Repr

/-- The device after `aesd_init_module` registered it. -/
def aesdInitModule : AesdDev where
  buf := aesdCircularBufferInit
  entry := .zero
  heap := {}
  committed := []
  evicted := 0

/-- The bytes an entry points to, `none` if it points to a block that was freed. -/
def Heap.bytes (h : Heap) (e : AesdBufferEntry) : Option (List Byte) :=
  match e.buffptr with
  | none => some []
  | some p =>
    match h.block p with
    | some ⟨data, true⟩ => some (data.take e.size)
    | _ => none

/-- The bytes of the pending entry, `none` if its buffer was freed. -/
def AesdDev.pending (s : AesdDev) : Option (List Byte) := s.heap.bytes s.entry

/-- The content a reader finds: the entries of the ring from `out_offs` on. -/
def AesdDev.readable (s : AesdDev) : List Byte := s.buf.fromOut.flatMap fun e => (s.heap.bytes e).getD []

/-! ## `aesd_write` -/

structure WriteOutcome where
  entryLock : Bool := true
  kzalloc : Bool := true
  copyFromUser : Bool := true
  bufLock : Bool := true
deriving DecidableEq, Repr

def AesdDev.allocSize (K : Kernel) (s : AesdDev) (count : Nat) : Nat :=
  match s.entry.buffptr with
  | none => count
  | some _ => K.add s.entry.size count

/-- A fresh buffer, since there is no data from a previous write. `some r` leaves through `out` with result `r`. -/
def writeFresh (K : Kernel) (s : AesdDev) (buf : List Byte) (o : WriteOutcome) :
    Except Fault (Option Int × AesdDev) :=
  match s.heap.kzalloc K o.kzalloc buf.length with
  | none => .ok (some (-ENOMEM), s)
  | some (kbuf, heap) =>
    if o.copyFromUser then do
      let heap ← heap.store kbuf 0 buf
      .ok (none, { s with heap := heap, entry := { s.entry with buffptr := some kbuf } })
    else do
      let heap ← heap.kfree kbuf
      .ok (some (-EFAULT), { s with heap := heap })

/-- A larger buffer that takes over the `old` one. The old buffer is freed before the copy from user space is known to
succeed. -/
def writeAppend (K : Kernel) (s : AesdDev) (old : Nat) (buf : List Byte) (o : WriteOutcome) :
    Except Fault (Option Int × AesdDev) :=
  match s.heap.kzalloc K o.kzalloc (K.add s.entry.size buf.length) with
  | none => .ok (some (-ENOMEM), s)
  | some (kbuf, heap) => do
    let data ← heap.load old 0 s.entry.size
    let heap ← heap.store kbuf 0 data
    let heap ← heap.kfree old
    if o.copyFromUser then do
      let heap ← heap.store kbuf s.entry.size buf
      .ok (none, { s with heap := heap, entry := { s.entry with buffptr := some kbuf } })
    else do
      let heap ← heap.kfree kbuf
      .ok (some (-EFAULT), { s with heap := heap })

/-- The part of `aesd_write` under `entry_lock` alone. -/
def writeEntry (K : Kernel) (s : AesdDev) (buf : List Byte) (o : WriteOutcome) :
    Except Fault (Option Int × AesdDev) := do
  let (exit, s) ← match s.entry.buffptr with
    | none => writeFresh K s buf o
    | some old => writeAppend K s old buf o
  match exit with
  | some r => .ok (some r, s)
  | none => .ok (none, { s with entry := { s.entry with size := K.add s.entry.size buf.length } })

/-- `kfree` of a pointer that may be `NULL`. -/
def Heap.kfreeOpt (h : Heap) : Option Nat → Except Fault Heap
  | none => .ok h
  | some p => h.kfree p

def AesdCircularBuffer.dropSize (b : AesdCircularBuffer) : Nat := if b.full then (b.slot b.outOffs).size else 0

/-- The part of `aesd_write` under both locks: an entry that ends in a newline is moved to the ring. -/
def writeCommit (K : Kernel) (s : AesdDev) : Except Fault AesdDev :=
  match s.entry.buffptr with
  | none => .error .nullDeref
  | some p => do
    let last ← s.heap.load p (K.sub s.entry.size 1) 1
    if last.any Byte.isNewline then do
      let (oldData, ring) := aesdCircularBufferAddEntry s.buf s.entry
      let heap ← s.heap.kfreeOpt oldData
      .ok {
        buf := ring
        entry := .zero
        heap := heap
        committed := s.committed ++ [(s.heap.bytes s.entry).getD []]
        evicted := s.evicted + s.buf.dropSize }
    else .ok s

def aesdWrite (K : Kernel) (s : AesdDev) (buf : K.UserBuf) (o : WriteOutcome) : Except Fault (Int × AesdDev) :=
  if o.entryLock then do
    let (exit, s) ← writeEntry K s buf.val o
    match exit with
    | some r => .ok (r, s)
    | none =>
      if o.bufLock then do
        let s ← writeCommit K s
        .ok ((buf.val.length : Int), s)
      else .ok (-EINTR, s)
  else .ok (-ERESTARTSYS, s)

/-! ## `aesd_read` -/

structure ReadOutcome where
  bufLock : Bool := true
  copyToUser : Bool := true
deriving DecidableEq, Repr

/-- What a read returns: the result, the bytes delivered to the user and the new `f_pos`. -/
structure ReadRet where
  result : Int
  data : List Byte
  fpos : Nat
deriving DecidableEq, Repr

def aesdRead (K : Kernel) (s : AesdDev) (fpos count : Nat) (o : ReadOutcome) : Except Fault ReadRet :=
  if o.bufLock then
    match aesdCircularBufferFindEntryOffsetForFpos K s.buf (fpos % 2 ^ K.width) with
    | none => .ok ⟨0, [], fpos⟩
    | some (i, offset) => do
      let entry := s.buf.slot i
      let rest := K.sub entry.size offset
      let readCount := if rest > count then count else rest
      match entry.buffptr with
      | none => .error .nullDeref
      | some p => do
        let data ← s.heap.load p offset readCount
        if o.copyToUser then .ok ⟨(readCount : Int), data, fpos + readCount⟩ else .ok ⟨-EFAULT, [], fpos⟩
  else .ok ⟨-ERESTARTSYS, [], fpos⟩

/-- `aesd_open` finds the one device; a new open file starts at position 0. -/
def aesdOpen : Int × Nat := (0, 0)

/-- `aesd_release` does nothing: the pending entry stays as it is. -/
def aesdRelease (s : AesdDev) : Int × AesdDev := (0, s)

/-! ## Sequences of calls -/

inductive Call (K : Kernel) where
  | write (filp : Nat) (buf : K.UserBuf) (o : WriteOutcome)
  | read (filp : Nat) (count : Nat) (o : ReadOutcome)

structure Ret where
  result : Int
  data : List Byte := []
deriving DecidableEq, Repr

/-- The device and the position of every open file. -/
structure State where
  dev : AesdDev
  fpos : Nat → Nat

def State.init : State := ⟨aesdInitModule, fun _ => aesdOpen.2⟩

def applyCall (K : Kernel) (s : State) : Call K → Except Fault (Ret × State)
  | .write _ buf o => do
    let (result, dev) ← aesdWrite K s.dev buf o
    .ok (⟨result, []⟩, { s with dev := dev })
  | .read filp count o => do
    let r ← aesdRead K s.dev (s.fpos filp) count o
    .ok (⟨r.result, r.data⟩, { s with fpos := Function.update s.fpos filp r.fpos })

def runCalls (K : Kernel) (s : State) : List (Call K) → Except Fault (List Ret × State)
  | [] => .ok ([], s)
  | c :: cs => do
    let (r, s) ← applyCall K s c
    let (rs, s) ← runCalls K s cs
    .ok (r :: rs, s)

/-- `P` holds of every call of a run, in the state in which it is made. -/
def Along (K : Kernel) (P : State → Call K → Prop) : State → List (Call K) → Prop
  | _, [] => True
  | s, c :: cs =>
    P s c ∧
      match applyCall K s c with
      | .ok (_, s') => Along K P s' cs
      | .error _ => True

/-- The states that calls can bring the device to, failed calls included. -/
def Reachable (K : Kernel) (s : State) : Prop := ∃ calls rets, runCalls K State.init calls = .ok (rets, s)

end Aesd.Driver
