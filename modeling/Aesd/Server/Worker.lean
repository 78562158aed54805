import Aesd.Driver.PacketLog

/-!
# `aesd_worker.c`

* `Output` : what `output_path_` names, a regular file or the char device, with `write`, `read` and `close` on it;
* `WorkerPc`, `Worker.exec` : `aesd_worker_main` from one system call to the next, `receive_data` and `send_response`
  with all their exits;
* `AlarmPc`, `AlarmPc.exec` : `alarm_handler`.

What the system answers to a call is in `Answer`, so every failure and every short transfer is one choice of it. A `send`
that raises `SIGPIPE` is not among them: it ends the process, and the run with it.
-/

namespace Aesd.Server
open Driver

/-- The kernel the server runs on and `buf_size_`; a buffer fits into one `write`. -/
structure Config where
  K : Kernel
  bufSize : Nat
  bufSize_pos : 0 < bufSize
  bufSize_le : bufSize ≤ K.rwMax

/-- `BUF_SIZE` of `aesdsocket.c`. -/
def Config.aesdsocket : Config where
  K := .linux64
  bufSize := 256
  bufSize_pos := by decide
  bufSize_le := by decide

/-- How much of what was asked for a transfer takes. -/
inductive Transfer where
  | fails
  | all
  | atMost (k : Nat)
deriving DecidableEq, Repr

/-- The number of bytes that a transfer of `n` bytes takes; one that does not fail takes at least one. -/
def Transfer.count (n : Nat) : Transfer → Nat
  | .fails => 0
  | .all => n
  | .atMost k => min n (k + 1)

def Transfer.whole : Transfer → Bool
  | .atMost _ => false
  | _ => true

/-- What the system answers to the next call of a thread. `recv` is `none` for -1; `write` and `read` are for a regular
file, `writeDev` and `readDev` for the device. -/
structure Answer where
  openOk : Bool := true
  recv : Option (List UInt8) := none
  write : Transfer := .all
  read : Transfer := .all
  send : Transfer := .all
  writeDev : WriteOutcome := {}
  readDev : ReadOutcome := {}

/-- A client that sends a packet of one letter, and everything succeeds. -/
def letterAnswer (letter : UInt8) : Answer := { recv := some [letter, 10] }

/-! ## The output -/

inductive Output where
  | file (content : List Byte)
  | device (dev : AesdDev)

namespace Output

/-- What a reader finds from position 0 on. -/
def content : Output → List Byte
  | .file content => content
  | .device dev => dev.readable

/-- `write(output_fd, buf, n)` at the end of the output; `false` is -1. -/
def write (K : Kernel) (buf : List Byte) (a : Answer) : Output → Except Fault (Bool × Output)
  | .file content =>
    match a.write with
    | .fails => .ok (false, .file content)
    | t => .ok (true, .file (content ++ buf.take (t.count buf.length)))
  | .device dev => do
    let (result, dev) ← aesdWrite K dev (K.clamp buf) a.writeDev
    .ok (decide (0 ≤ result), .device dev)

/-- `read(output_fd, buf, count)` at position `fpos`, with the position after it; `none` is -1. -/
def read (K : Kernel) (fpos count : Nat) (a : Answer) : Output → Except Fault (Option (List Byte) × Nat)
  | .file content =>
    match a.read with
    | .fails => .ok (none, fpos)
    | t =>
      let data := (content.drop fpos).take (t.count count)
      .ok (some data, fpos + data.length)
  | .device dev => do
    let r ← aesdRead K dev fpos count a.readDev
    .ok (if 0 ≤ r.result then some r.data else none, r.fpos)

/-- `close(output_fd)`, whose result is only reported. -/
def close : Output → Output
  | .file content => .file content
  | .device dev => .device (aesdRelease dev).2

/-- What is pending in the device stays there. -/
theorem close_eq (out : Output) : out.close = out := by
  cases out <;> rfl

end Output

/-! ## The worker -/

/-- The points of `aesd_worker_main`, each before the call it is named after. -/
inductive WorkerPc where
  -- receive_data
  | recvLock
  | recvOpen
  | recvTest (done : Bool)
  | recvRecv
  | recvWrite (buf : List Byte) (done : Bool)
  | recvClose (error : Bool)
  | recvUnlock (error : Bool)
  | recvReturn (error : Bool)
  -- send_response
  | sendLock
  | sendOpen
  | sendTest (done : Bool)
  | sendRead
  | sendSend (data : List Byte) (done : Bool)
  | sendResult
  | sendClose (result : Bool)
  | sendUnlock (result : Bool)
  -- aesd_worker_main
  | closeClient
  | exited
deriving DecidableEq, Repr

/-- `struct aesd_worker` of a thread. -/
structure Worker where
  pc : WorkerPc := .recvLock
  shutdown : Bool := false
  fpos : Nat := 0
  -- history: the buffers passed to write, the output at the second lock, the bytes passed to the send calls that did
  -- not fail and the bytes these took, the response
  wrote : List (List Byte) := []
  snapshot : List Byte := []
  passed : List Byte := []
  sent : List Byte := []
  response : Option Bool := none

/-- The buffer after `memset` and a `recv` of `bytes` on connection `i`. -/
def recvBuf (c : Config) (i : Nat) (bytes : List UInt8) : List Byte :=
  (bytes.take c.bufSize).map (⟨·, some i⟩) ++ List.replicate (c.bufSize - bytes.length) .zero

/-- `memchr` for the newline: what to write, and whether to be done. -/
def cutBuf (buf : List Byte) : List Byte × Bool :=
  match buf.findIdx? Byte.isNewline with
  | none => (buf, false)
  | some k => (buf.take (k + 1), true)

inductive LockOp where
  | acquire
  | release
  | keep
deriving DecidableEq, Repr

def WorkerPc.lockOp : WorkerPc → LockOp
  | .recvLock | .sendLock => .acquire
  | .recvUnlock _ | .sendUnlock _ => .release
  | _ => .keep

/-- The step of the worker of connection `i`, for one that is given the lock if it asks for it. -/
def Worker.exec (c : Config) (i : Nat) (out : Output) (a : Answer) (w : Worker) : Except Fault (Worker × Output) :=
  match w.pc with
  | .recvLock => .ok ({ w with pc := .recvOpen }, out)
  | .recvOpen => .ok ({ w with pc := if a.openOk then .recvTest false else .recvUnlock true }, out)
  | .recvTest done => .ok ({ w with pc := if !done && !w.shutdown then .recvRecv else .recvClose false }, out)
  | .recvRecv =>
    match a.recv with
    | none => .ok ({ w with pc := .recvClose true }, out)
    | some bytes =>
      let (buf, done) := cutBuf (recvBuf c i bytes)
      .ok ({ w with pc := .recvWrite buf done }, out)
  | .recvWrite buf done => do
    let (ok, out) ← out.write c.K buf a
    .ok ({ w with pc := if ok then .recvTest done else .recvClose true, wrote := w.wrote ++ [buf] }, out)
  | .recvClose error => .ok ({ w with pc := .recvUnlock error }, out.close)
  | .recvUnlock error => .ok ({ w with pc := .recvReturn error }, out)
  | .recvReturn error => .ok ({ w with pc := if !error && !w.shutdown then .sendLock else .closeClient }, out)
  | .sendLock => .ok ({ w with pc := .sendOpen, snapshot := out.content }, out)
  | .sendOpen =>
    .ok ({ w with pc := if a.openOk then .sendTest false else .sendUnlock false, fpos := aesdOpen.2 }, out)
  | .sendTest done => .ok ({ w with pc := if !done && !w.shutdown then .sendRead else .sendResult }, out)
  | .sendRead => do
    let (data, fpos) ← out.read c.K w.fpos c.bufSize a
    match data with
    | none => .ok ({ w with pc := .sendClose false, fpos := fpos }, out)
    | some data => .ok ({ w with pc := .sendSend data data.isEmpty, fpos := fpos }, out)
  | .sendSend data done =>
    match a.send with
    | .fails => .ok ({ w with pc := .sendClose false }, out)
    | t =>
      let sent := w.sent ++ data.take (t.count data.length)
      .ok ({ w with pc := .sendTest done, passed := w.passed ++ data, sent := sent }, out)
  | .sendResult => .ok ({ w with pc := .sendClose (!w.shutdown) }, out)
  | .sendClose result => .ok ({ w with pc := .sendUnlock result }, out.close)
  | .sendUnlock result => .ok ({ w with pc := .closeClient, response := some result }, out)
  | .closeClient => .ok ({ w with pc := .exited }, out)
  | .exited => .ok (w, out)

/-! ## The alarm handler -/

/-- The points of `alarm_handler`, once the timestamp is formatted. -/
inductive AlarmPc where
  | lock (text : List Byte)
  | openOutput (text : List Byte)
  | write (text : List Byte)
  | close
  | unlock
deriving DecidableEq, Repr

def AlarmPc.lockOp : AlarmPc → LockOp
  | .lock _ => .acquire
  | .unlock => .release
  | _ => .keep

/-- The step of the handler; `none` is its return to the interrupted code. -/
def AlarmPc.exec (c : Config) (out : Output) (a : Answer) : AlarmPc → Except Fault (Option AlarmPc × Output)
  | .lock text => .ok (some (.openOutput text), out)
  | .openOutput text => .ok (some (if a.openOk then .write text else .unlock), out)
  | .write text => do
    let (_, out) ← out.write c.K text a
    .ok (some .close, out)
  | .close => .ok (some .unlock, out.close)
  | .unlock => .ok (none, out)

end Aesd.Server
