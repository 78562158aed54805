import Aesd.Lib.Run
import Aesd.Server.Worker

/-!
# The threads of the server

* `System` : the output, `output_lock_`, the worker of every thread and the signal handler that runs on top of it. While
  a handler runs, the code it interrupted does not;
* `System.step` : a thread takes its next step, a worker is spawned or asked to shut down, `SIGALRM` is delivered to a
  thread. A thread that finds the lock taken stays where it is, whoever holds it;
* `Trans`, `step_trans` : all that a step can be;
* `SysInv` : the lock and the order of its acquisitions, for every run.
-/

namespace Aesd.Server
open Driver Lib

/-- Who holds the lock: the code of a thread, or the handler on top of it. -/
inductive Ctx where
  | code (i : Nat)
  | handler (i : Nat)
deriving DecidableEq, Repr

/-- What the lock was acquired for. -/
inductive Turn where
  | recv (i : Nat)
  | send (i : Nat)
  | alarm (text : List Byte)
deriving DecidableEq, Repr

structure System where
  output : Output
  lock : Option Ctx := none
  workers : Nat → Option Worker := fun _ => none
  handlers : Nat → Option AlarmPc := fun _ => none
  -- history: the acquisitions of the lock
  order : List Turn := []

/-- A worker for a new connection, a step of a thread, a `SIGALRM` for a thread and the timestamp it will write, the
shutdown flag of a worker. -/
inductive Label where
  | spawn (i : Nat)
  | run (i : Nat) (a : Answer)
  | alarm (i : Nat) (text : List Byte)
  | shutdown (i : Nat)

def WorkerPc.turn (i : Nat) : WorkerPc → Turn
  | .recvLock => .recv i
  | _ => .send i

def AlarmPc.turn : AlarmPc → Turn
  | .lock text => .alarm text
  | _ => .alarm []

namespace System

def stepCode (c : Config) (s : System) (i : Nat) (w : Worker) (a : Answer) : System :=
  match w.exec c i s.output a with
  | .error _ => s
  | .ok (w', out) =>
    let s' := { s with output := out, workers := Function.update s.workers i (some w') }
    match w.pc.lockOp with
    | .keep => s'
    | .acquire =>
      if s.lock = none then { s' with lock := some (.code i), order := s.order ++ [w.pc.turn i] } else s
    | .release => { s' with lock := none }

def stepHandler (c : Config) (s : System) (i : Nat) (h : AlarmPc) (a : Answer) : System :=
  match h.exec c s.output a with
  | .error _ => s
  | .ok (h', out) =>
    let s' := { s with output := out, handlers := Function.update s.handlers i h' }
    match h.lockOp with
    | .keep => s'
    | .acquire =>
      if s.lock = none then { s' with lock := some (.handler i), order := s.order ++ [h.turn] } else s
    | .release => { s' with lock := none }

def step (c : Config) (s : System) : Label → System
  | .spawn i =>
    match s.workers i with
    | none => { s with workers := Function.update s.workers i (some {}) }
    | some _ => s
  | .shutdown i =>
    match s.workers i with
    | none => s
    | some w => { s with workers := Function.update s.workers i (some { w with shutdown := true }) }
  | .alarm i text =>
    -- the timer exists only in regular-file mode; SIGALRM is blocked while its handler runs
    match s.output, s.handlers i with
    | .file _, none => { s with handlers := Function.update s.handlers i (some (.lock text)) }
    | _, _ => s
  | .run i a =>
    match s.handlers i with
    | some h => s.stepHandler c i h a
    | none =>
      match s.workers i with
      | some w => s.stepCode c i w a
      | none => s

end System

/-! ## What a step can be -/

/-- The lock and the order of its acquisitions after a step of `ctx`. -/
def LockOp.Takes (s : System) (ctx : Ctx) (turn : Turn) (lock : Option Ctx) (order : List Turn) : LockOp → Prop
  | .keep => lock = s.lock ∧ order = s.order
  | .acquire => s.lock = none ∧ lock = some ctx ∧ order = s.order ++ [turn]
  | .release => lock = none ∧ order = s.order

inductive Trans (c : Config) (s : System) : Label → System → Prop
  | stay (l : Label) : Trans c s l s
  | spawn (i : Nat) (hw : s.workers i = none) :
      Trans c s (.spawn i) { s with workers := Function.update s.workers i (some {}) }
  | shutdown (i : Nat) (w : Worker) (hw : s.workers i = some w) :
      Trans c s (.shutdown i) { s with workers := Function.update s.workers i (some { w with shutdown := true }) }
  | alarm (i : Nat) (text content : List Byte) (hf : s.output = .file content) (hh : s.handlers i = none) :
      Trans c s (.alarm i text) { s with handlers := Function.update s.handlers i (some (.lock text)) }
  | code (i : Nat) (a : Answer) (w w' : Worker) (out : Output) (lock : Option Ctx) (order : List Turn)
      (hh : s.handlers i = none) (hw : s.workers i = some w) (hexec : w.exec c i s.output a = .ok (w', out))
      (hlock : w.pc.lockOp.Takes s (.code i) (w.pc.turn i) lock order) :
      Trans c s (.run i a)
        { s with output := out, workers := Function.update s.workers i (some w'), lock := lock, order := order }
  | handler (i : Nat) (a : Answer) (h : AlarmPc) (h' : Option AlarmPc) (out : Output) (lock : Option Ctx)
      (order : List Turn) (hh : s.handlers i = some h) (hexec : h.exec c s.output a = .ok (h', out))
      (hlock : h.lockOp.Takes s (.handler i) h.turn lock order) :
      Trans c s (.run i a)
        { s with output := out, handlers := Function.update s.handlers i h', lock := lock, order := order }

theorem stepCode_trans {c : Config} {s : System} {i : Nat} {w : Worker} (hh : s.handlers i = none)
    (hw : s.workers i = some w) (a : Answer) : Trans c s (.run i a) (s.stepCode c i w a) := by
  unfold System.stepCode
  cases hexec : w.exec c i s.output a with
  | error e => exact .stay _
  | ok x =>
      obtain ⟨w', out⟩ := x
      dsimp only
      cases hop : w.pc.lockOp with
      | keep => exact .code i a w w' out s.lock s.order hh hw hexec (by rw [hop]; exact ⟨rfl, rfl⟩)
      | acquire =>
          dsimp only
          split_ifs with hfree
          · exact .code i a w w' out _ _ hh hw hexec (by rw [hop]; exact ⟨hfree, rfl, rfl⟩)
          · exact .stay _
      | release => exact .code i a w w' out none s.order hh hw hexec (by rw [hop]; exact ⟨rfl, rfl⟩)

theorem stepHandler_trans {c : Config} {s : System} {i : Nat} {h : AlarmPc} (hh : s.handlers i = some h) (a : Answer) :
    Trans c s (.run i a) (s.stepHandler c i h a) := by
  unfold System.stepHandler
  cases hexec : h.exec c s.output a with
  | error e => exact .stay _
  | ok x =>
      obtain ⟨h', out⟩ := x
      dsimp only
      cases hop : h.lockOp with
      | keep => exact .handler i a h h' out s.lock s.order hh hexec (by rw [hop]; exact ⟨rfl, rfl⟩)
      | acquire =>
          dsimp only
          split_ifs with hfree
          · exact .handler i a h h' out _ _ hh hexec (by rw [hop]; exact ⟨hfree, rfl, rfl⟩)
          · exact .stay _
      | release => exact .handler i a h h' out none s.order hh hexec (by rw [hop]; exact ⟨rfl, rfl⟩)

theorem step_trans (c : Config) (s : System) (l : Label) : Trans c s l (s.step c l) := by
  cases l with
  | spawn i =>
      cases hw : s.workers i with
      | none =>
          simp only [System.step, hw]
          exact .spawn i hw
      | some w =>
          simp only [System.step, hw]
          exact .stay _
  | shutdown i =>
      cases hw : s.workers i with
      | none =>
          simp only [System.step, hw]
          exact .stay _
      | some w =>
          simp only [System.step, hw]
          exact .shutdown i w hw
  | alarm i text =>
      simp only [System.step]
      split
      · next content hf hh => exact .alarm i text content hf hh
      · exact .stay _
  | run i a =>
      cases hh : s.handlers i with
      | some h =>
          simp only [System.step, hh]
          exact stepHandler_trans hh a
      | none =>
          cases hw : s.workers i with
          | some w =>
              simp only [System.step, hh, hw]
              exact stepCode_trans hh hw a
          | none =>
              simp only [System.step, hh, hw]
              exact .stay _

/-- A property of the workers is kept by a step if it holds of a new one, does not depend on the flag, and holds of the
worker that took the step. -/
theorem Trans.workers {c : Config} {s s' : System} {l : Label} (ht : Trans c s l s') {P : Nat → Worker → Prop}
    (hkeep : ∀ i w, s.workers i = some w → P i w) (hnew : ∀ i, P i {})
    (hflag : ∀ i w, P i w → P i { w with shutdown := true })
    (hexec : ∀ i a w w', l = .run i a → s.workers i = some w → w.exec c i s.output a = .ok (w', s'.output) →
      w.pc.lockOp.Takes s (.code i) (w.pc.turn i) s'.lock s'.order →
      s'.workers = Function.update s.workers i (some w') → P i w') :
    ∀ i w, s'.workers i = some w → P i w := by
  have hupdate : ∀ i w, P i w → ∀ j v, Function.update s.workers i (some w) j = some v → P j v := by
    intro i w hw j v hv
    by_cases hj : j = i
    · subst hj
      rw [Function.update_self] at hv
      cases hv
      exact hw
    · rw [Function.update_of_ne hj] at hv
      exact hkeep j v hv
  cases ht with
  | stay => exact hkeep
  | alarm i text content hf hh => exact hkeep
  | handler i a p p' out lock order hp he hlock => exact hkeep
  | spawn i hw => exact hupdate i _ (hnew i)
  | shutdown i w hw => exact hupdate i _ (hflag i w (hkeep i w hw))
  | code i a w w' out lock order hh hw he hlock => exact hupdate i w' (hexec i a w w' rfl hw he hlock rfl)

theorem Trans.worker {c : Config} {s s' : System} {l : Label} (ht : Trans c s l s') {i : Nat} {w : Worker}
    (hw : s.workers i = some w) :
    s'.workers i = some w ∨ s'.workers i = some { w with shutdown := true } ∨
      ∃ a w' out, l = .run i a ∧ s.handlers i = none ∧ w.exec c i s.output a = .ok (w', out) ∧ s'.workers i = some w' := by
  cases ht with
  | stay => exact Or.inl hw
  | alarm j text content hf hh => exact Or.inl hw
  | handler j a p p' out lock order hp hexec hlock => exact Or.inl hw
  | spawn j hj =>
      have hne : i ≠ j := by
        rintro rfl
        rw [hw] at hj
        cases hj
      exact Or.inl ((Function.update_of_ne hne ..).trans hw)
  | shutdown j v hv =>
      by_cases hij : i = j
      · subst hij
        rw [hw] at hv
        cases hv
        exact Or.inr (Or.inl (Function.update_self ..))
      · exact Or.inl ((Function.update_of_ne hij ..).trans hw)
  | code j a v v' out lock order hh hv hexec hlock =>
      by_cases hij : i = j
      · subst hij
        rw [hw] at hv
        cases hv
        exact Or.inr (Or.inr ⟨a, v', out, rfl, hh, hexec, Function.update_self ..⟩)
      · exact Or.inl ((Function.update_of_ne hij ..).trans hw)

/-! ## The lock -/

/-- Whether the lock is held after the step, if it is `held` before. -/
def LockOp.after (held : Bool) : LockOp → Bool
  | .keep => held
  | .acquire => true
  | .release => false

def WorkerPc.receiving : WorkerPc → Bool
  | .recvOpen | .recvTest _ | .recvRecv | .recvWrite _ _ | .recvClose _ | .recvUnlock _ => true
  | _ => false

def WorkerPc.sending : WorkerPc → Bool
  | .sendOpen | .sendTest _ | .sendRead | .sendSend _ _ | .sendResult | .sendClose _ | .sendUnlock _ => true
  | _ => false

def WorkerPc.holds (pc : WorkerPc) : Bool := pc.receiving || pc.sending

def AlarmPc.holds : AlarmPc → Bool
  | .lock _ => false
  | _ => true

section Exec
variable {c : Config} {i : Nat} {out out' : Output} {a : Answer} {w w' : Worker}

/-- All the steps of a worker, one for each exit of each call. -/
inductive Worker.Step (c : Config) (i : Nat) (out : Output) (a : Answer) (w : Worker) : Worker → Output → Prop
  | recvLock (hpc : w.pc = .recvLock) : Step c i out a w { w with pc := .recvOpen } out
  | recvOpen (hpc : w.pc = .recvOpen) (hopen : a.openOk = true) : Step c i out a w { w with pc := .recvTest false } out
  | recvOpenFails (hpc : w.pc = .recvOpen) (hopen : a.openOk = false) :
      Step c i out a w { w with pc := .recvUnlock true } out
  | recvTest (hpc : w.pc = .recvTest false) (hgo : w.shutdown = false) : Step c i out a w { w with pc := .recvRecv } out
  | recvDone (hpc : w.pc = .recvTest true) : Step c i out a w { w with pc := .recvClose false } out
  | recvShutdown (hpc : w.pc = .recvTest false) (hstop : w.shutdown = true) :
      Step c i out a w { w with pc := .recvClose false } out
  | recvRecv (bytes : List UInt8) (hpc : w.pc = .recvRecv) (hrecv : a.recv = some bytes) :
      Step c i out a w
        { w with pc := .recvWrite (cutBuf (recvBuf c i bytes)).1 (cutBuf (recvBuf c i bytes)).2 } out
  | recvRecvFails (hpc : w.pc = .recvRecv) (hrecv : a.recv = none) :
      Step c i out a w { w with pc := .recvClose true } out
  | recvWrite (buf : List Byte) (done ok : Bool) (out' : Output) (hpc : w.pc = .recvWrite buf done)
      (hwrite : out.write c.K buf a = .ok (ok, out')) :
      Step c i out a w
        { w with pc := if ok then .recvTest done else .recvClose true, wrote := w.wrote ++ [buf] } out'
  | recvClose (error : Bool) (hpc : w.pc = .recvClose error) : Step c i out a w { w with pc := .recvUnlock error } out
  | recvUnlock (error : Bool) (hpc : w.pc = .recvUnlock error) : Step c i out a w { w with pc := .recvReturn error } out
  | recvReturn (hpc : w.pc = .recvReturn false) (hgo : w.shutdown = false) :
      Step c i out a w { w with pc := .sendLock } out
  | recvReturnFails (error : Bool) (hpc : w.pc = .recvReturn error) (hstop : error = true ∨ w.shutdown = true) :
      Step c i out a w { w with pc := .closeClient } out
  | sendLock (hpc : w.pc = .sendLock) : Step c i out a w { w with pc := .sendOpen, snapshot := out.content } out
  | sendOpen (hpc : w.pc = .sendOpen) (hopen : a.openOk = true) :
      Step c i out a w { w with pc := .sendTest false, fpos := 0 } out
  | sendOpenFails (hpc : w.pc = .sendOpen) (hopen : a.openOk = false) :
      Step c i out a w { w with pc := .sendUnlock false, fpos := 0 } out
  | sendTest (hpc : w.pc = .sendTest false) (hgo : w.shutdown = false) : Step c i out a w { w with pc := .sendRead } out
  | sendDone (hpc : w.pc = .sendTest true) : Step c i out a w { w with pc := .sendResult } out
  | sendShutdown (hpc : w.pc = .sendTest false) (hstop : w.shutdown = true) :
      Step c i out a w { w with pc := .sendResult } out
  | sendRead (data : List Byte) (fpos : Nat) (hpc : w.pc = .sendRead)
      (hread : out.read c.K w.fpos c.bufSize a = .ok (some data, fpos)) :
      Step c i out a w { w with pc := .sendSend data data.isEmpty, fpos := fpos } out
  | sendReadFails (fpos : Nat) (hpc : w.pc = .sendRead) : Step c i out a w { w with pc := .sendClose false, fpos := fpos } out
  | sendSend (data : List Byte) (done : Bool) (hpc : w.pc = .sendSend data done) (hsend : a.send ≠ .fails) :
      Step c i out a w
        { w with
          pc := .sendTest done, passed := w.passed ++ data, sent := w.sent ++ data.take (a.send.count data.length) } out
  | sendSendFails (data : List Byte) (done : Bool) (hpc : w.pc = .sendSend data done) (hsend : a.send = .fails) :
      Step c i out a w { w with pc := .sendClose false } out
  | sendResult (hpc : w.pc = .sendResult) : Step c i out a w { w with pc := .sendClose (!w.shutdown) } out
  | sendClose (result : Bool) (hpc : w.pc = .sendClose result) :
      Step c i out a w { w with pc := .sendUnlock result } out
  | sendUnlock (result : Bool) (hpc : w.pc = .sendUnlock result) :
      Step c i out a w { w with pc := .closeClient, response := some result } out
  | closeClient (hpc : w.pc = .closeClient) : Step c i out a w { w with pc := .exited } out
  | exited (hpc : w.pc = .exited) : Step c i out a w w out

theorem Worker.exec_step (h : w.exec c i out a = .ok (w', out')) : w.Step c i out a w' out' := by
  cases hpc : w.pc <;> simp only [Worker.exec, hpc] at h
  case recvOpen =>
    cases h
    split_ifs with hopen
    · exact .recvOpen hpc hopen
    · exact .recvOpenFails hpc (by simpa using hopen)
  case recvTest done =>
    cases h
    split_ifs with hgo
    · obtain ⟨rfl, hs⟩ : done = false ∧ w.shutdown = false := by simpa using hgo
      exact .recvTest hpc hs
    · cases done with
      | true => exact .recvDone hpc
      | false => exact .recvShutdown hpc (by simpa using hgo)
  case recvRecv =>
    split at h
    · next hrecv =>
        cases h
        exact .recvRecvFails hpc hrecv
    · next bytes hrecv =>
        cases h
        exact .recvRecv bytes hpc hrecv
  case recvWrite buf done =>
    obtain ⟨⟨ok, out1⟩, hwrite, h⟩ := bind_ok h
    cases h
    exact .recvWrite buf done ok _ hpc hwrite
  case recvReturn error =>
    cases h
    split_ifs with hgo
    · obtain ⟨rfl, hs⟩ : error = false ∧ w.shutdown = false := by simpa using hgo
      exact .recvReturn hpc hs
    · refine .recvReturnFails error hpc ?_
      cases error with
      | true => exact Or.inl rfl
      | false => exact Or.inr (by simpa using hgo)
  case sendOpen =>
    cases h
    split_ifs with hopen
    · exact .sendOpen hpc hopen
    · exact .sendOpenFails hpc (by simpa using hopen)
  case sendTest done =>
    cases h
    split_ifs with hgo
    · obtain ⟨rfl, hs⟩ : done = false ∧ w.shutdown = false := by simpa using hgo
      exact .sendTest hpc hs
    · cases done with
      | true => exact .sendDone hpc
      | false => exact .sendShutdown hpc (by simpa using hgo)
  case sendRead =>
    obtain ⟨⟨data, fpos⟩, hread, h⟩ := bind_ok h
    cases data with
    | none =>
        cases h
        exact .sendReadFails fpos hpc
    | some data =>
        cases h
        exact .sendRead data fpos hpc hread
  case sendSend data done =>
    split at h
    · next hsend =>
        cases h
        exact .sendSendFails data done hpc hsend
    · next hsend =>
        cases h
        exact .sendSend data done hpc hsend
  case recvClose error =>
    cases h
    rw [out.close_eq]
    exact .recvClose error hpc
  case sendClose result =>
    cases h
    rw [out.close_eq]
    exact .sendClose result hpc
  all_goals
    cases h
    constructor
    exact hpc

/-- The control flow of `aesd_worker_main`. -/
inductive Next : WorkerPc → WorkerPc → Prop
  | recvLock : Next .recvLock .recvOpen
  | recvOpen : Next .recvOpen (.recvTest false)
  | recvOpenFails : Next .recvOpen (.recvUnlock true)
  | recvTest (done : Bool) : Next (.recvTest done) .recvRecv
  | recvTestEnds (done : Bool) : Next (.recvTest done) (.recvClose false)
  | recvRecv (buf : List Byte) (done : Bool) : Next .recvRecv (.recvWrite buf done)
  | recvRecvFails : Next .recvRecv (.recvClose true)
  | recvWrite (buf : List Byte) (done : Bool) : Next (.recvWrite buf done) (.recvTest done)
  | recvWriteFails (buf : List Byte) (done : Bool) : Next (.recvWrite buf done) (.recvClose true)
  | recvClose (error : Bool) : Next (.recvClose error) (.recvUnlock error)
  | recvUnlock (error : Bool) : Next (.recvUnlock error) (.recvReturn error)
  | recvReturn (error : Bool) : Next (.recvReturn error) .sendLock
  | recvReturnFails (error : Bool) : Next (.recvReturn error) .closeClient
  | sendLock : Next .sendLock .sendOpen
  | sendOpen : Next .sendOpen (.sendTest false)
  | sendOpenFails : Next .sendOpen (.sendUnlock false)
  | sendTest (done : Bool) : Next (.sendTest done) .sendRead
  | sendTestEnds (done : Bool) : Next (.sendTest done) .sendResult
  | sendRead (data : List Byte) (done : Bool) : Next .sendRead (.sendSend data done)
  | sendReadFails : Next .sendRead (.sendClose false)
  | sendSend (data : List Byte) (done : Bool) : Next (.sendSend data done) (.sendTest done)
  | sendSendFails (data : List Byte) (done : Bool) : Next (.sendSend data done) (.sendClose false)
  | sendResult (result : Bool) : Next .sendResult (.sendClose result)
  | sendClose (result : Bool) : Next (.sendClose result) (.sendUnlock result)
  | sendUnlock (result : Bool) : Next (.sendUnlock result) .closeClient
  | closeClient : Next .closeClient .exited
  | exited : Next .exited .exited

theorem Worker.exec_next (h : w.exec c i out a = .ok (w', out')) : Next w.pc w'.pc ∧ w'.shutdown = w.shutdown := by
  cases Worker.exec_step h with
  | recvWrite buf done ok out1 hpc hwrite =>
      rw [hpc]
      cases ok <;> exact ⟨by constructor, rfl⟩
  | exited hpc =>
      rw [hpc]
      exact ⟨.exited, rfl⟩
  | _ =>
      simp only [*]
      exact ⟨by constructor, trivial⟩

namespace Next
variable {pc pc' : WorkerPc}

theorem started (h : Next pc pc') : pc' ≠ .recvLock := by
  cases h <;> simp

theorem holds (h : Next pc pc') : pc'.holds = pc.lockOp.after pc.holds := by
  cases h <;> rfl

theorem sending (h : Next pc pc') (hs : pc'.sending = true) : pc.sending = true ∨ pc = .sendLock := by
  cases h <;> simp_all [WorkerPc.sending]

theorem of_exited (h : Next pc pc') (hx : pc' = .exited) : pc = .closeClient ∨ pc = .exited := by
  cases h <;> simp_all

theorem stays_exited (h : Next pc pc') (hx : pc = .exited) : pc' = .exited := by
  cases h <;> simp_all

theorem receiving (h : Next pc pc') (hr : pc'.receiving = true) : pc.receiving = true ∨ pc = .recvLock := by
  cases h <;> simp_all [WorkerPc.receiving]

end Next

/-- What a step of a worker does: a write, or a step that leaves the output and the buffers written as they are. -/
theorem Worker.exec_output (h : w.exec c i out a = .ok (w', out')) :
    (∃ buf done ok, w.pc = .recvWrite buf done ∧ out.write c.K buf a = .ok (ok, out') ∧
      w' = { w with pc := if ok then .recvTest done else .recvClose true, wrote := w.wrote ++ [buf] }) ∨
    ((∀ buf done, w.pc ≠ .recvWrite buf done) ∧ out' = out ∧ w'.wrote = w.wrote) := by
  cases Worker.exec_step h with
  | recvWrite buf done ok out1 hpc hwrite => exact Or.inl ⟨buf, done, ok, hpc, hwrite, rfl⟩
  | _ => exact Or.inr ⟨by simp [*], rfl, rfl⟩

/-- The history of `send_response`: the snapshot is taken with the lock, the response given with the unlock. -/
theorem Worker.exec_response (h : w.exec c i out a = .ok (w', out')) :
    (w'.snapshot = w.snapshot ∨ (w.pc = .sendLock ∧ w'.snapshot = out.content)) ∧
      (w'.response = w.response ∨ ∃ result, w.pc = .sendUnlock result) := by
  cases Worker.exec_step h with
  | sendLock hpc => exact ⟨Or.inr ⟨hpc, rfl⟩, Or.inl rfl⟩
  | sendUnlock result hpc => exact ⟨Or.inl rfl, Or.inr ⟨result, hpc⟩⟩
  | _ => exact ⟨Or.inl rfl, Or.inl rfl⟩

end Exec

theorem LockOp.Takes.lock {op : LockOp} {s : System} {ctx : Ctx} {turn : Turn} {lock : Option Ctx} {order : List Turn}
    (h : op.Takes s ctx turn lock order) {held held' : Bool} (hown : s.lock = some ctx ↔ held = true)
    (hrel : op = .release → held = true) (hheld : held' = op.after held) :
    (lock = some ctx ↔ held' = true) ∧ ∀ x, x ≠ ctx → (lock = some x ↔ s.lock = some x) := by
  cases op with
  | keep =>
      obtain ⟨rfl, -⟩ := h
      exact ⟨by rw [hown, hheld, after], fun _ _ => Iff.rfl⟩
  | acquire =>
      obtain ⟨hfree, rfl, -⟩ := h
      refine ⟨by simp [hheld, after], fun x hx => ?_⟩
      rw [hfree]
      simp [Ne.symm hx]
  | release =>
      obtain ⟨rfl, -⟩ := h
      refine ⟨by simp [hheld, after], fun x hx => ?_⟩
      rw [hown.mpr (hrel rfl)]
      simp [Ne.symm hx]

/-- The threads that acquired the lock for receiving, in that order. -/
def Turn.recv? : Turn → Option Nat
  | .recv i => some i
  | _ => none

def System.recvs (s : System) : List Nat := s.order.filterMap Turn.recv?

structure SysInv (s : System) : Prop where
  code : ∀ i, s.lock = some (.code i) ↔ ∃ w, s.workers i = some w ∧ w.pc.holds = true
  handler : ∀ i, s.lock = some (.handler i) ↔ ∃ h, s.handlers i = some h ∧ h.holds = true
  nodup : s.recvs.Nodup
  started : ∀ i, i ∈ s.recvs ↔ ∃ w, s.workers i = some w ∧ w.pc ≠ .recvLock
  fresh : ∀ i w, s.workers i = some w → w.pc = .recvLock → w.wrote = []
  last : ∀ i w, s.workers i = some w → w.pc.receiving = true → s.order.getLast? = some (.recv i)

theorem WorkerPc.holds_of_receiving {pc : WorkerPc} (h : pc.receiving = true) : pc.holds = true := by
  simp [holds, h]

theorem WorkerPc.of_not_holds {pc : WorkerPc} (h : pc.holds = false) : pc.receiving = false ∧ pc.sending = false := by
  simpa [holds] using h

theorem WorkerPc.holds_of_release {pc : WorkerPc} (h : pc.lockOp = .release) : pc.holds = true := by
  unfold lockOp at h
  split at h <;> first | rfl | cases h

theorem WorkerPc.recvLock_of_acquire {pc : WorkerPc} (h : pc.lockOp = .acquire) : pc = .recvLock ∨ pc = .sendLock := by
  unfold lockOp at h
  split at h <;> first | exact Or.inl rfl | exact Or.inr rfl | cases h

namespace SysInv
variable {c : Config} {s : System}

theorem init (out : Output) : SysInv { output := out } where
  code i := by simp
  handler i := by simp
  nodup := by simp [System.recvs]
  started i := by simp [System.recvs]
  fresh i w h := by simp at h
  last i w h := by simp at h

theorem alone (h : SysInv s) {i j : Nat} {w v : Worker} (hw : s.workers i = some w) (hv : s.workers j = some v)
    (hhw : w.pc.holds = true) (hhv : v.pc.holds = true) : i = j := by
  have hi := (h.code i).mpr ⟨w, hw, hhw⟩
  have hj := (h.code j).mpr ⟨v, hv, hhv⟩
  rw [hi] at hj
  cases hj
  rfl

end SysInv

theorem AlarmPc.holds_of_release {p : AlarmPc} (h : p.lockOp = .release) : p.holds = true := by
  cases p <;> first | rfl | cases h

theorem AlarmPc.exec_holds {c : Config} {out out' : Output} {a : Answer} {p : AlarmPc} {p' : Option AlarmPc}
    (h : p.exec c out a = .ok (p', out')) : p'.any AlarmPc.holds = p.lockOp.after p.holds := by
  cases p with
  | openOutput text =>
      cases h
      simp only [Option.any_some]
      split_ifs <;> rfl
  | write text =>
      obtain ⟨x, -, h⟩ := bind_ok h
      cases h
      rfl
  | _ =>
      cases h
      rfl

/-- What a step of a handler does: the write, or a step that leaves the output as it is. -/
theorem AlarmPc.exec_output {c : Config} {out out' : Output} {a : Answer} {p : AlarmPc} {p' : Option AlarmPc}
    (h : p.exec c out a = .ok (p', out')) :
    (∃ text ok, p = .write text ∧ out.write c.K text a = .ok (ok, out') ∧ p' = some .close) ∨
      ((∀ text, p ≠ .write text) ∧ out' = out) := by
  cases p with
  | write text =>
      obtain ⟨⟨ok, out1⟩, hwrite, h⟩ := bind_ok h
      cases h
      exact Or.inl ⟨text, ok, rfl, hwrite, rfl⟩
  | close =>
      cases h
      exact Or.inr ⟨by simp, out.close_eq⟩
  | _ =>
      cases h
      exact Or.inr ⟨by simp, rfl⟩

/-- A step writes one buffer to the output, or leaves it as it is. -/
theorem Trans.output {c : Config} {s s' : System} {l : Label} (ht : Trans c s l s') :
    s'.output = s.output ∨ ∃ buf a ok, s.output.write c.K buf a = .ok (ok, s'.output) := by
  cases ht with
  | code i a w w' out lock order hh hw hexec hlock =>
      rcases Worker.exec_output hexec with ⟨buf, done, ok, -, hwrite, -⟩ | ⟨-, rfl, -⟩
      · exact Or.inr ⟨buf, a, ok, hwrite⟩
      · exact Or.inl rfl
  | handler i a p p' out lock order hp hexec hlock =>
      rcases AlarmPc.exec_output hexec with ⟨text, ok, -, hwrite, -⟩ | ⟨-, rfl⟩
      · exact Or.inr ⟨text, a, ok, hwrite⟩
      · exact Or.inl rfl
  | _ => exact Or.inl rfl

theorem alarm_order_cases {s : System} {i : Nat} {p : AlarmPc} {lock : Option Ctx} {order : List Turn}
    (h : p.lockOp.Takes s (.handler i) p.turn lock order) :
    order = s.order ∨ (s.lock = none ∧ ∃ text, p = .lock text ∧ order = s.order ++ [.alarm text]) := by
  cases p with
  | lock text =>
      obtain ⟨hfree, -, rfl⟩ := h
      exact Or.inr ⟨hfree, text, rfl, rfl⟩
  | _ => exact Or.inl h.2

theorem order_cases {s : System} {i : Nat} {pc : WorkerPc} {lock : Option Ctx} {order : List Turn}
    (h : pc.lockOp.Takes s (.code i) (pc.turn i) lock order) :
    (order = s.order ∧ pc ≠ .recvLock ∧ pc ≠ .sendLock) ∨
    (s.lock = none ∧ pc = .recvLock ∧ order = s.order ++ [.recv i]) ∨
    (s.lock = none ∧ pc = .sendLock ∧ order = s.order ++ [.send i]) := by
  cases hop : pc.lockOp with
  | keep =>
      rw [hop] at h
      refine Or.inl ⟨h.2, ?_, ?_⟩ <;> rintro rfl <;> cases hop
  | release =>
      rw [hop] at h
      refine Or.inl ⟨h.2, ?_, ?_⟩ <;> rintro rfl <;> cases hop
  | acquire =>
      rw [hop] at h
      obtain ⟨hfree, -, rfl⟩ := h
      rcases WorkerPc.recvLock_of_acquire hop with rfl | rfl
      · exact Or.inr (Or.inl ⟨hfree, rfl, rfl⟩)
      · exact Or.inr (Or.inr ⟨hfree, rfl, rfl⟩)

theorem recvs_cases {s : System} {i : Nat} {pc : WorkerPc} {lock : Option Ctx} {order : List Turn}
    (h : pc.lockOp.Takes s (.code i) (pc.turn i) lock order) :
    order.filterMap Turn.recv? = if pc = .recvLock then s.recvs ++ [i] else s.recvs := by
  rcases order_cases h with ⟨rfl, hne, -⟩ | ⟨-, heq, rfl⟩ | ⟨-, heq, rfl⟩
  · rw [if_neg hne, System.recvs]
  · rw [if_pos heq, List.filterMap_append]
    rfl
  · rw [if_neg (by simp [heq]), List.filterMap_append]
    simp [Turn.recv?, System.recvs]

namespace SysInv
variable {c : Config} {s : System}

theorem not_holds (h : SysInv s) {i : Nat} (hl : s.lock ≠ some (.code i)) {w : Worker} (hw : s.workers i = some w) :
    w.pc.holds = false := by
  cases hh : w.pc.holds with
  | false => rfl
  | true => exact absurd ((h.code i).mpr ⟨w, hw, hh⟩) hl

theorem last_code (h : SysInv s) {i : Nat} {w w' : Worker} {lock : Option Ctx} {order : List Turn}
    (hw : s.workers i = some w) (hnext : Next w.pc w'.pc)
    (hlock : w.pc.lockOp.Takes s (.code i) (w.pc.turn i) lock order) (j : Nat) (v : Worker)
    (hv : Function.update s.workers i (some w') j = some v) (hrec : v.pc.receiving = true) :
    order.getLast? = some (.recv j) := by
  have horder := order_cases hlock
  by_cases hj : j = i
  · subst hj
    rw [Function.update_self] at hv
    cases hv
    rcases hnext.receiving hrec with hr | hr
    · rcases horder with ⟨rfl, -, -⟩ | ⟨-, heq, -⟩ | ⟨-, heq, -⟩
      · exact h.last j w hw hr
      · rw [heq] at hr
        cases hr
      · rw [heq] at hr
        cases hr
    · rcases horder with ⟨-, hne, -⟩ | ⟨-, -, rfl⟩ | ⟨-, heq, -⟩
      · exact absurd hr hne
      · simp
      · rw [heq] at hr
        cases hr
  · rw [Function.update_of_ne hj] at hv
    have hholds := WorkerPc.holds_of_receiving hrec
    rcases horder with ⟨rfl, -, -⟩ | ⟨hfree, -, -⟩ | ⟨hfree, -, -⟩
    · exact h.last j v hv hrec
    · rw [h.not_holds (by simp [hfree]) hv] at hholds
      cases hholds
    · rw [h.not_holds (by simp [hfree]) hv] at hholds
      cases hholds

theorem codeStep (h : SysInv s) {i : Nat} {a : Answer} {w w' : Worker} {out : Output} {lock : Option Ctx}
    {order : List Turn} (hw : s.workers i = some w) (hexec : w.exec c i s.output a = .ok (w', out))
    (hlock : w.pc.lockOp.Takes s (.code i) (w.pc.turn i) lock order) :
    SysInv { s with output := out, workers := Function.update s.workers i (some w'), lock := lock, order := order } := by
  obtain ⟨hnext, -⟩ := Worker.exec_next hexec
  have hown : s.lock = some (.code i) ↔ w.pc.holds = true := by rw [h.code, hw]; simp
  obtain ⟨hself, hother⟩ := hlock.lock hown WorkerPc.holds_of_release hnext.holds
  have hstart : i ∈ s.recvs ↔ w.pc ≠ .recvLock := by rw [h.started, hw]; simp
  have hrecvs := recvs_cases hlock
  refine ⟨fun j => ?_, fun j => ?_, ?_, fun j => ?_, fun j v hv hpc => ?_, h.last_code hw hnext hlock⟩
  · by_cases hj : j = i
    · subst hj
      simp [hself]
    · dsimp only
      rw [Function.update_of_ne hj, ← h.code]
      exact hother _ (by simpa using hj)
  · dsimp only
    rw [← h.handler]
    exact hother _ (by simp)
  · change (order.filterMap Turn.recv?).Nodup
    rw [hrecvs]
    split_ifs with hpc
    · rw [List.nodup_append]
      refine ⟨h.nodup, by simp, fun x hx y hy => ?_⟩
      rw [List.mem_singleton.mp hy]
      rintro rfl
      exact (hstart.mp hx) hpc
    · exact h.nodup
  · change j ∈ order.filterMap Turn.recv? ↔ _
    rw [hrecvs]
    by_cases hj : j = i
    · subst hj
      have := hnext.started
      split_ifs with hpc
      · simpa using this
      · simpa [hstart.mpr hpc] using this
    · dsimp only
      rw [Function.update_of_ne hj, ← h.started]
      split_ifs
      · simp [hj]
      · rfl
  · by_cases hj : j = i
    · subst hj
      simp only [Function.update_self, Option.some.injEq] at hv
      subst hv
      exact absurd hpc hnext.started
    · dsimp only at hv
      rw [Function.update_of_ne hj] at hv
      exact h.fresh j v hv hpc

theorem handlerStep (h : SysInv s) {i : Nat} {a : Answer} {p : AlarmPc} {p' : Option AlarmPc} {out : Output}
    {lock : Option Ctx} {order : List Turn} (hp : s.handlers i = some p) (hexec : p.exec c s.output a = .ok (p', out))
    (hlock : p.lockOp.Takes s (.handler i) p.turn lock order) :
    SysInv { s with output := out, handlers := Function.update s.handlers i p', lock := lock, order := order } := by
  have hown : s.lock = some (.handler i) ↔ p.holds = true := by rw [h.handler, hp]; simp
  obtain ⟨hself, hother⟩ := hlock.lock hown AlarmPc.holds_of_release (AlarmPc.exec_holds hexec)
  have horder := alarm_order_cases hlock
  have hrecvs : order.filterMap Turn.recv? = s.recvs := by
    rcases horder with rfl | ⟨-, text, -, rfl⟩
    · rfl
    · rw [List.filterMap_append]
      simp [Turn.recv?, System.recvs]
  refine ⟨fun j => ?_, fun j => ?_, ?_, fun j => ?_, h.fresh, fun j v hv hrec => ?_⟩
  · dsimp only
    rw [← h.code]
    exact hother _ (by simp)
  · by_cases hj : j = i
    · subst hj
      simp [hself, Option.any_eq_true]
    · dsimp only
      rw [Function.update_of_ne hj, ← h.handler]
      exact hother _ (by simpa using hj)
  · change (order.filterMap Turn.recv?).Nodup
    rw [hrecvs]
    exact h.nodup
  · change j ∈ order.filterMap Turn.recv? ↔ _
    rw [hrecvs]
    exact h.started j
  · change order.getLast? = _
    rcases horder with rfl | ⟨hfree, -⟩
    · exact h.last j v hv hrec
    · have hholds := WorkerPc.holds_of_receiving hrec
      rw [h.not_holds (by simp [hfree]) hv] at hholds
      cases hholds

/-- A worker that is new, or that stays where it is. -/
theorem setWorker (h : SysInv s) {i : Nat} {w : Worker}
    (hsame : ∀ v, s.workers i = some v → v.pc = w.pc ∧ v.wrote = w.wrote)
    (hnew : s.workers i = none → w.pc = .recvLock ∧ w.wrote = []) :
    SysInv { s with workers := Function.update s.workers i (some w) } := by
  have hpc : ∀ P : WorkerPc → Prop, ¬ P .recvLock → ((∃ v, s.workers i = some v ∧ P v.pc) ↔ P w.pc) := by
    intro P hP
    cases hw : s.workers i with
    | none => simp [(hnew hw).1, hP]
    | some v => simp [(hsame v hw).1]
  refine ⟨fun j => ?_, h.handler, h.nodup, fun j => ?_, fun j v hv hlock => ?_, fun j v hv hrec => ?_⟩ <;>
    dsimp only at * <;> by_cases hj : j = i
  · subst hj
    rw [h.code, hpc (fun pc => pc.holds = true) (by decide)]
    simp
  · rw [Function.update_of_ne hj]
    exact h.code j
  · subst hj
    change j ∈ s.recvs ↔ _
    rw [h.started, hpc (fun pc => pc ≠ .recvLock) (by simp)]
    simp
  · rw [Function.update_of_ne hj]
    exact h.started j
  · subst hj
    rw [Function.update_self] at hv
    cases hv
    cases hw : s.workers j with
    | none => exact (hnew hw).2
    | some v =>
        obtain ⟨hv, hwrote⟩ := hsame v hw
        rw [← hwrote]
        exact h.fresh j v hw (hv.trans hlock)
  · rw [Function.update_of_ne hj] at hv
    exact h.fresh j v hv hlock
  · subst hj
    rw [Function.update_self] at hv
    cases hv
    obtain ⟨v, hv, hrecv⟩ := (hpc (fun pc => pc.receiving = true) (by decide)).mpr hrec
    exact h.last j v hv hrecv
  · rw [Function.update_of_ne hj] at hv
    exact h.last j v hv hrec

theorem trans (h : SysInv s) {l : Label} {s' : System} (ht : Trans c s l s') : SysInv s' := by
  cases ht with
  | stay => exact h
  | code i a w w' out lock order hh hw hexec hlock => exact h.codeStep hw hexec hlock
  | handler i a p p' out lock order hp hexec hlock => exact h.handlerStep hp hexec hlock
  | alarm i text content hf hh =>
      refine ⟨h.code, fun j => ?_, h.nodup, h.started, h.fresh, h.last⟩
      by_cases hj : j = i
      · subst hj
        rw [h.handler]
        simp [hh, AlarmPc.holds]
      · dsimp only
        rw [Function.update_of_ne hj]
        exact h.handler j
  | spawn i hw => exact h.setWorker (by simp [hw]) fun _ => ⟨rfl, rfl⟩
  | shutdown i w hw =>
      refine h.setWorker (fun v hv => ?_) (by simp [hw])
      rw [hw] at hv
      cases hv
      exact ⟨rfl, rfl⟩

end SysInv

end Aesd.Server
