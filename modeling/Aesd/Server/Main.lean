import Aesd.Lib.Slist
import Aesd.Server.System

/-!
# `aesd_server.c` and `main`

* `AesdServer` : the threads, the flag `running`, the worker list with its links, and a ledger each for the workers,
  their buffers, the list entries, the connections and the threads. The call of `accept_client` with number `k`
  allocates under the id `k` in each of them. The calls are numbered from 1 on: thread 0 is the main thread;
* `MainPc`, `AesdServer.mainStep` : the main thread from one call to the next, with every outcome of `malloc`, `accept`
  and `pthread_create`. `check_workers` and `srv_shutdown` share the three calls that remove, join and delete an entry;
* `AesdServer.threadStep` : a step of a worker, which reads its `struct aesd_worker` and closes its connection at the
  end;
* `AesdServer.step` : these, and the deliveries of `SIGINT` and `SIGTERM`. While `alarm_handler` runs on top of the main
  thread, its code does not. A step that does what C leaves undefined is a `Crash`, after which there are no more steps.
-/

namespace Aesd.Server
open Driver Lib

/-- `struct aesd_worker`, its flags apart: these are in the thread that runs on it. -/
structure WorkerMem where
  buf : Option Nat := none
  clientFd : Option Nat := none
deriving DecidableEq, Repr

/-- `struct aesd_worker_entry`. -/
structure EntryMem where
  tid : Option Nat := none
  worker : Nat
  next : Option Nat := none
deriving DecidableEq, Repr

instance : Node EntryMem where
  next := EntryMem.next
  setNext p e := { e with next := p }
  next_setNext _ _ := rfl

/-- What the C code must never do: use a pointer that is `NULL`, one to something freed, or give back a thing twice. -/
inductive Crash where
  | nullDeref
  | useAfterFree
  | doubleFree
deriving DecidableEq, Repr

/-- The loop over the worker list that the main thread is in. -/
inductive Walk where
  | check
  | shutdown
deriving DecidableEq, Repr

/-- The points of `main`, each before the call it is named after. -/
inductive MainPc where
  | serverInit
  | bind
  | listen
  | setRunning
  | loopTest
  | acceptClient
  -- accept_client
  | newWorker (k : Nat)
  | newBuf (worker : Nat)
  | accept (worker : Nat)
  | newEntry (worker : Nat)
  | start (entry : Option Nat)
  | insert (entry : Nat)
  -- check_workers and srv_shutdown
  | closeServer
  | visit (walk : Walk) (entry : Option Nat)
  | remove (walk : Walk) (entry : Nat) (temp : Option Nat)
  | join (walk : Walk) (entry : Nat) (temp : Option Nat)
  | delete (walk : Walk) (entry : Nat) (temp : Option Nat)
  | finish
  -- aesd_server_run has returned
  | done
  | failed
deriving DecidableEq, Repr

/-- The main thread, among those of the system. -/
def mainThread : Nat := 0

structure AesdServer where
  sys : System
  main : MainPc := .serverInit
  running : Bool := false
  head : Option Nat := none
  -- the number of the next call of accept_client
  calls : Nat := 1
  workers : Ledger WorkerMem := .empty
  bufs : Ledger Unit := .empty
  entries : Ledger EntryMem := .empty
  fds : Ledger Unit := .empty
  threads : Ledger Unit := .empty
  crash : Option Crash := none
  -- history: a signal was handled, and the calls of accept_client since; the list at the last of these calls, and
  -- whether that call returned false
  signalled : Bool := false
  starts : Nat := 0
  before : List Nat := []
  refused : Bool := false

namespace AesdServer

def list (s : AesdServer) : List Nat := Slist.walk s.entries s.calls s.head

/-- No handler runs on top of the main thread. -/
def MainRuns (s : AesdServer) : Prop := s.sys.handlers mainThread = none

instance (s : AesdServer) : Decidable s.MainRuns := inferInstanceAs (Decidable (s.sys.handlers mainThread = none))

/-- `worker->exited`. -/
def exited (s : AesdServer) (worker : Nat) : Bool := (s.sys.workers worker).any fun w => w.pc = .exited

end AesdServer

/-- The use of a pointer. -/
def deref {α : Type} (x : Option α) : Except Crash α :=
  match x with
  | some a => .ok a
  | none => .error .useAfterFree

/-- `free`, `close` or `pthread_join`. -/
def giveBack {α : Type} (x : Option α) : Except Crash α :=
  match x with
  | some a => .ok a
  | none => .error .doubleFree

namespace AesdServer

def workerDelete (s : AesdServer) (worker : Nat) : Except Crash AesdServer := do
  let self ← deref (s.workers.get worker)
  let bufs ← match self.buf with
    | some buf => giveBack (s.bufs.free buf)
    | none => .ok s.bufs
  let workers ← giveBack (s.workers.free worker)
  .ok { s with bufs := bufs, workers := workers }

def workerEntryDelete (s : AesdServer) (entry : Nat) : Except Crash AesdServer := do
  let self ← deref (s.entries.get entry)
  let s ← s.workerDelete self.worker
  let entries ← giveBack (s.entries.free entry)
  .ok { s with entries := entries }

def refuse (s : AesdServer) : AesdServer := { s with main := .loopTest, refused := true }

/-- `aesd_worker_entry_start`, and what `accept_client` does if it fails: the pointer `worker` is `NULL` by then. -/
def workerEntryStart (c : Config) (s : AesdServer) (entry : Option Nat) (ok : Bool) : Except Crash AesdServer :=
  match entry with
  | none => .error .nullDeref
  | some e => do
    let self ← deref (s.entries.get e)
    if ok then do
      let entries ← deref (s.entries.put e { self with tid := some self.worker })
      .ok { s with
        entries := entries
        threads := s.threads.alloc self.worker ()
        sys := s.sys.step c (.spawn self.worker)
        main := .insert e }
    else .error .nullDeref

/-- The head of the loop over the list: the link is read before the body runs. -/
def visitEntry (c : Config) (s : AesdServer) (walk : Walk) (entry : Nat) : Except Crash AesdServer := do
  let self ← deref (s.entries.get entry)
  let _ ← deref (s.workers.get self.worker)
  match walk with
  | .check =>
    .ok { s with main := if s.exited self.worker then .remove .check entry self.next else .visit .check self.next }
  | .shutdown =>
    .ok { s with sys := s.sys.step c (.shutdown self.worker), main := .remove .shutdown entry self.next }

/-- A step of the main thread; `ok` is the outcome of the call it makes, if that can fail. -/
def mainStep (c : Config) (ok : Bool) (s : AesdServer) : Except Crash AesdServer :=
  match s.main with
  | .serverInit => .ok { s with running := false, head := none, main := .bind }
  | .bind => .ok { s with main := if ok then .listen else .failed }
  | .listen => .ok { s with main := if ok then .setRunning else .failed }
  | .setRunning => .ok { s with running := true, main := .loopTest }
  | .loopTest => .ok { s with main := if s.running then .acceptClient else .closeServer, refused := false }
  | .acceptClient =>
    .ok { s with
      main := .newWorker s.calls
      calls := s.calls + 1
      starts := if s.signalled then s.starts + 1 else s.starts
      before := s.list }
  | .newWorker k =>
    if ok then .ok { s with workers := s.workers.alloc k {}, main := .newBuf k } else .ok s.refuse
  | .newBuf worker => do
    let self ← deref (s.workers.get worker)
    if ok then do
      let workers ← deref (s.workers.put worker { self with buf := some worker })
      .ok { s with workers := workers, bufs := s.bufs.alloc worker (), main := .accept worker }
    else do
      let workers ← giveBack (s.workers.free worker)
      .ok { s with workers := workers }.refuse
  | .accept worker => do
    let self ← deref (s.workers.get worker)
    if ok then do
      let workers ← deref (s.workers.put worker { self with clientFd := some worker })
      .ok { s with workers := workers, fds := s.fds.alloc worker (), main := .newEntry worker }
    else do
      let s ← s.workerDelete worker
      .ok s.refuse
  | .newEntry worker =>
    if ok then .ok { s with entries := s.entries.alloc worker { worker := worker }, main := .start (some worker) }
    else .ok { s with main := .start none }
  | .start entry => s.workerEntryStart c entry ok
  | .insert entry => do
    let (entries, head) ← deref (Slist.insertHead s.entries s.head entry)
    .ok { s with entries := entries, head := head, main := .visit .check head }
  | .closeServer => .ok { s with main := .visit .shutdown s.head }
  | .visit .check none => .ok { s with main := .loopTest }
  | .visit .shutdown none => .ok { s with main := .finish }
  | .visit walk (some entry) => s.visitEntry c walk entry
  | .remove walk entry temp => do
    let (entries, head) ← deref (Slist.remove s.entries s.calls s.head entry)
    .ok { s with entries := entries, head := head, main := .join walk entry temp }
  | .join walk entry temp => do
    let self ← deref (s.entries.get entry)
    let tid ← deref self.tid
    -- pthread_join waits for the thread
    if s.exited tid then do
      let threads ← giveBack (s.threads.free tid)
      .ok { s with threads := threads, main := .delete walk entry temp }
    else .ok s
  | .delete walk entry temp => do
    let s ← s.workerEntryDelete entry
    .ok { s with main := .visit walk temp }
  | .finish => .ok { s with main := .done }
  | .done => .ok s
  | .failed => .ok s

/-- A step of thread `i`. Its worker is there as long as it has not exited; the last thing it does with it is to close
the connection. -/
def threadStep (c : Config) (s : AesdServer) : Label → Except Crash AesdServer
  | .run i a =>
    match s.sys.handlers i, s.sys.workers i with
    | none, some w =>
      if w.pc = .exited then .ok s
      else do
        let self ← deref (s.workers.get i)
        let _ ← deref (self.buf.bind s.bufs.get)
        let fds ← match w.pc, self.clientFd with
          | .closeClient, some fd => giveBack (s.fds.free fd)
          | _, _ => .ok s.fds
        .ok { s with sys := s.sys.step c (.run i a), fds := fds }
    | _, _ => .ok { s with sys := s.sys.step c (.run i a) }
  | .alarm i text => .ok { s with sys := s.sys.step c (.alarm i text) }
  -- workers are spawned and told to stop by the main thread
  | .spawn _ => .ok s
  | .shutdown _ => .ok s

end AesdServer

/-- A step of the main thread, a step of another thread, a `SIGINT` or `SIGTERM`. -/
inductive Act where
  | main (ok : Bool)
  | thread (l : Label)
  | signal

/-- The state after a step, or after the crash in it. -/
def AesdServer.after (s : AesdServer) : Except Crash AesdServer → AesdServer
  | .ok s' => s'
  | .error e => { s with crash := some e }

def AesdServer.step (c : Config) (s : AesdServer) (act : Act) : AesdServer :=
  if s.crash = none then
    match act with
    | .main ok => if s.MainRuns then s.after (s.mainStep c ok) else s
    | .thread l => s.after (s.threadStep c l)
    | .signal => { s with running := false, signalled := true }
  else s

section Step
variable {c : Config} {s : AesdServer}

theorem step_main (hcrash : s.crash = none) (hruns : s.MainRuns) (ok : Bool) :
    s.step c (.main ok) = s.after (s.mainStep c ok) := by
  rw [AesdServer.step, if_pos hcrash]
  exact if_pos hruns

/-- While the handler runs, the code of the main thread does not. -/
theorem step_held (hheld : ¬ s.MainRuns) (ok : Bool) : s.step c (.main ok) = s := by
  unfold AesdServer.step
  split_ifs <;> rfl

theorem step_crashed (hcrash : s.crash ≠ none) (act : Act) : s.step c act = s := if_neg hcrash

end Step

/-- `g_srv` before `aesd_server_init`, with both signal handlers registered. -/
def AesdServer.init (out : Output) : AesdServer := { sys := { output := out } }

abbrev AesdServer.reach (c : Config) (out : Output) (acts : List Act) : AesdServer :=
  run (AesdServer.step c) (.init out) acts

/-! ## What a step of the main thread can be -/

/-- `accept_client` goes on behind a call that succeeded. -/
inductive Builds : MainPc → MainPc → Prop
  | worker (k : Nat) : Builds (.newWorker k) (.newBuf k)
  | buf (k : Nat) : Builds (.newBuf k) (.accept k)
  | connection (k : Nat) : Builds (.accept k) (.newEntry k)
  | entry (k : Nat) (entry : Option Nat) : Builds (.newEntry k) (.start entry)

/-- `accept_client` gives up at these points. -/
inductive GivesUp : MainPc → Prop
  | worker (k : Nat) : GivesUp (.newWorker k)
  | buf (k : Nat) : GivesUp (.newBuf k)
  | connection (k : Nat) : GivesUp (.accept k)

/-- The steps of the main thread, with the ledgers after them left open. -/
inductive MainTrans (c : Config) (s : AesdServer) : AesdServer → Prop
  | serverInit (hpc : s.main = .serverInit) : MainTrans c s { s with running := false, head := none, main := .bind }
  | bound (hpc : s.main = .bind) : MainTrans c s { s with main := .listen }
  | listening (hpc : s.main = .listen) : MainTrans c s { s with main := .setRunning }
  | failed (hpc : s.main = .bind ∨ s.main = .listen) : MainTrans c s { s with main := .failed }
  | setRunning (hpc : s.main = .setRunning) : MainTrans c s { s with running := true, main := .loopTest }
  | again (hpc : s.main = .loopTest) (hrun : s.running = true) :
      MainTrans c s { s with main := .acceptClient, refused := false }
  | call (hpc : s.main = .acceptClient) :
      MainTrans c s { s with
        main := .newWorker s.calls
        calls := s.calls + 1
        starts := if s.signalled then s.starts + 1 else s.starts
        before := s.list }
  | leave (hpc : s.main = .loopTest) (hrun : s.running = false) :
      MainTrans c s { s with main := .closeServer, refused := false }
  | build (pc : MainPc) (workers : Ledger WorkerMem) (bufs fds : Ledger Unit) (entries : Ledger EntryMem)
      (hpc : Builds s.main pc) :
      MainTrans c s { s with workers := workers, bufs := bufs, fds := fds, entries := entries, main := pc }
  | refuse (workers : Ledger WorkerMem) (bufs : Ledger Unit) (hpc : GivesUp s.main) :
      MainTrans c s { s with workers := workers, bufs := bufs, main := .loopTest, refused := true }
  | start (e worker : Nat) (entries : Ledger EntryMem) (threads : Ledger Unit) (hpc : s.main = .start (some e)) :
      MainTrans c s { s with
        entries := entries
        threads := threads
        sys := s.sys.step c (.spawn worker)
        main := .insert e }
  | insert (e : Nat) (entries : Ledger EntryMem) (head : Option Nat) (hpc : s.main = .insert e) :
      MainTrans c s { s with entries := entries, head := head, main := .visit .check head }
  | closeServer (hpc : s.main = .closeServer) : MainTrans c s { s with main := .visit .shutdown s.head }
  | checked (hpc : s.main = .visit .check none) : MainTrans c s { s with main := .loopTest }
  | stopped (hpc : s.main = .visit .shutdown none) : MainTrans c s { s with main := .finish }
  | check (e : Nat) (entry : EntryMem) (hpc : s.main = .visit .check (some e))
      (hentry : s.entries.cell e = .live entry) :
      MainTrans c s { s with
        main := if s.exited entry.worker then .remove .check e entry.next else .visit .check entry.next }
  | stop (e : Nat) (entry : EntryMem) (hpc : s.main = .visit .shutdown (some e))
      (hentry : s.entries.cell e = .live entry) :
      MainTrans c s { s with sys := s.sys.step c (.shutdown entry.worker), main := .remove .shutdown e entry.next }
  | remove (walk : Walk) (e : Nat) (temp head : Option Nat) (entries : Ledger EntryMem)
      (hpc : s.main = .remove walk e temp) :
      MainTrans c s { s with entries := entries, head := head, main := .join walk e temp }
  | join (walk : Walk) (e : Nat) (temp : Option Nat) (entry : EntryMem) (tid : Nat) (threads : Ledger Unit)
      (hpc : s.main = .join walk e temp) (hentry : s.entries.cell e = .live entry) (htid : entry.tid = some tid)
      (hexited : s.exited tid = true) :
      MainTrans c s { s with threads := threads, main := .delete walk e temp }
  | wait (walk : Walk) (e : Nat) (temp : Option Nat) (entry : EntryMem) (tid : Nat) (hpc : s.main = .join walk e temp)
      (hentry : s.entries.cell e = .live entry) (htid : entry.tid = some tid) (hexited : s.exited tid = false) :
      MainTrans c s s
  | delete (walk : Walk) (e : Nat) (temp : Option Nat) (workers : Ledger WorkerMem) (bufs : Ledger Unit)
      (entries : Ledger EntryMem) (hpc : s.main = .delete walk e temp) :
      MainTrans c s { s with workers := workers, bufs := bufs, entries := entries, main := .visit walk temp }
  | finish (hpc : s.main = .finish) : MainTrans c s { s with main := .done }
  | returned (hpc : s.main = .done ∨ s.main = .failed) : MainTrans c s s

section Inversion
variable {c : Config} {s s' : AesdServer} {ok : Bool}

theorem deref_ok {α : Type} {x : Option α} {a : α} (h : deref x = .ok a) : x = some a := by
  cases x with
  | none => cases h
  | some b =>
      cases h
      rfl

theorem workerDelete_ok {k : Nat} (h : s.workerDelete k = .ok s') :
    ∃ bufs workers, s' = { s with bufs := bufs, workers := workers } := by
  obtain ⟨self, -, h⟩ := bind_ok h
  cases hb : self.buf with
  | none =>
      rw [hb] at h
      obtain ⟨bufs, -, h⟩ := bind_ok h
      obtain ⟨workers, -, h⟩ := bind_ok h
      cases h
      exact ⟨bufs, workers, rfl⟩
  | some buf =>
      rw [hb] at h
      obtain ⟨bufs, -, h⟩ := bind_ok h
      obtain ⟨workers, -, h⟩ := bind_ok h
      cases h
      exact ⟨bufs, workers, rfl⟩

theorem workerEntryDelete_ok {e : Nat} (h : s.workerEntryDelete e = .ok s') :
    ∃ bufs workers entries, s' = { s with bufs := bufs, workers := workers, entries := entries } := by
  obtain ⟨self, -, h⟩ := bind_ok h
  obtain ⟨s1, hdelete, h⟩ := bind_ok h
  obtain ⟨bufs, workers, rfl⟩ := workerDelete_ok hdelete
  obtain ⟨entries, -, h⟩ := bind_ok h
  cases h
  exact ⟨bufs, workers, entries, rfl⟩

theorem workerEntryStart_ok {entry : Option Nat} (hpc : s.main = .start entry)
    (h : s.workerEntryStart c entry ok = .ok s') : MainTrans c s s' := by
  cases entry with
  | none => cases h
  | some e =>
      obtain ⟨self, -, h⟩ := bind_ok h
      cases ok with
      | false => cases h
      | true =>
          obtain ⟨entries, -, h⟩ := bind_ok h
          cases h
          exact .start e self.worker entries (s.threads.alloc self.worker ()) hpc

theorem visitEntry_ok {walk : Walk} {e : Nat} (hpc : s.main = .visit walk (some e))
    (h : s.visitEntry c walk e = .ok s') : MainTrans c s s' := by
  obtain ⟨entry, hentry, h⟩ := bind_ok h
  have hentry := Ledger.get_eq_some.mp (deref_ok hentry)
  obtain ⟨worker, -, h⟩ := bind_ok h
  cases walk with
  | check =>
      cases h
      exact .check e entry hpc hentry
  | shutdown =>
      cases h
      exact .stop e entry hpc hentry

/-- **All that a step of the main thread can be.** -/
theorem mainStep_trans (h : s.mainStep c ok = .ok s') : MainTrans c s s' := by
  unfold AesdServer.mainStep at h
  cases hpc : s.main with
  | serverInit =>
      rw [hpc] at h
      cases h
      exact .serverInit hpc
  | bind =>
      rw [hpc] at h
      cases ok with
      | true =>
          cases h
          exact .bound hpc
      | false =>
          cases h
          exact .failed (Or.inl hpc)
  | listen =>
      rw [hpc] at h
      cases ok with
      | true =>
          cases h
          exact .listening hpc
      | false =>
          cases h
          exact .failed (Or.inr hpc)
  | setRunning =>
      rw [hpc] at h
      cases h
      exact .setRunning hpc
  | loopTest =>
      rw [hpc] at h
      dsimp only at h
      split_ifs at h with hrun
      · cases h
        exact .again hpc hrun
      · cases h
        exact .leave hpc (by simpa using hrun)
  | acceptClient =>
      rw [hpc] at h
      cases h
      exact .call hpc
  | newWorker k =>
      rw [hpc] at h
      cases ok with
      | true =>
          cases h
          exact .build _ _ s.bufs s.fds s.entries (hpc ▸ .worker k)
      | false =>
          cases h
          exact .refuse s.workers s.bufs (hpc ▸ .worker k)
  | newBuf k =>
      rw [hpc] at h
      obtain ⟨self, -, h⟩ := bind_ok h
      cases ok with
      | true =>
          obtain ⟨workers, -, h⟩ := bind_ok h
          cases h
          exact .build _ workers _ s.fds s.entries (hpc ▸ .buf k)
      | false =>
          obtain ⟨workers, -, h⟩ := bind_ok h
          cases h
          exact .refuse workers s.bufs (hpc ▸ .buf k)
  | accept k =>
      rw [hpc] at h
      obtain ⟨self, -, h⟩ := bind_ok h
      cases ok with
      | true =>
          obtain ⟨workers, -, h⟩ := bind_ok h
          cases h
          exact .build _ workers s.bufs _ s.entries (hpc ▸ .connection k)
      | false =>
          obtain ⟨s1, hdelete, h⟩ := bind_ok h
          obtain ⟨bufs, workers, rfl⟩ := workerDelete_ok hdelete
          cases h
          exact .refuse workers bufs (hpc ▸ .connection k)
  | newEntry k =>
      rw [hpc] at h
      cases ok with
      | true =>
          cases h
          exact .build _ s.workers s.bufs s.fds _ (hpc ▸ .entry k (some k))
      | false =>
          cases h
          exact .build _ s.workers s.bufs s.fds s.entries (hpc ▸ .entry k none)
  | start entry =>
      rw [hpc] at h
      exact workerEntryStart_ok hpc h
  | insert e =>
      rw [hpc] at h
      obtain ⟨⟨entries, head⟩, -, h⟩ := bind_ok h
      cases h
      exact .insert e entries head hpc
  | closeServer =>
      rw [hpc] at h
      cases h
      exact .closeServer hpc
  | visit walk p =>
      cases p with
      | none =>
          cases walk with
          | check =>
              rw [hpc] at h
              cases h
              exact .checked hpc
          | shutdown =>
              rw [hpc] at h
              cases h
              exact .stopped hpc
      | some e =>
          rw [hpc] at h
          exact visitEntry_ok hpc (by cases walk <;> exact h)
  | remove walk e temp =>
      rw [hpc] at h
      obtain ⟨⟨entries, head⟩, -, h⟩ := bind_ok h
      cases h
      exact .remove walk e temp head entries hpc
  | join walk e temp =>
      rw [hpc] at h
      obtain ⟨entry, hentry, h⟩ := bind_ok h
      obtain ⟨tid, htid, h⟩ := bind_ok h
      have hentry := Ledger.get_eq_some.mp (deref_ok hentry)
      have htid := deref_ok htid
      split_ifs at h with hexited
      · obtain ⟨threads, -, h⟩ := bind_ok h
        cases h
        exact .join walk e temp entry tid threads hpc hentry htid hexited
      · cases h
        exact .wait walk e temp entry tid hpc hentry htid (by simpa using hexited)
  | delete walk e temp =>
      rw [hpc] at h
      obtain ⟨s1, hdelete, h⟩ := bind_ok h
      obtain ⟨bufs, workers, entries, rfl⟩ := workerEntryDelete_ok hdelete
      cases h
      exact .delete walk e temp workers bufs entries hpc
  | finish =>
      rw [hpc] at h
      cases h
      exact .finish hpc
  | done =>
      rw [hpc] at h
      cases h
      exact .returned (Or.inl hpc)
  | failed =>
      rw [hpc] at h
      cases h
      exact .returned (Or.inr hpc)

theorem MainTrans.crash (ht : MainTrans c s s') : s'.crash = s.crash := by
  cases ht <;> rfl

/-- No step of the main thread calls a handler or returns from one. -/
theorem MainTrans.handlers (ht : MainTrans c s s') : s'.sys.handlers = s.sys.handlers := by
  cases ht with
  | start e worker entries threads hpc => cases hw : s.sys.workers worker <;> simp only [System.step, hw]
  | stop e entry hpc hentry => cases hw : s.sys.workers entry.worker <;> simp only [System.step, hw]
  | _ => rfl

theorem AesdServer.MainRuns.mainStep (hruns : s.MainRuns) (ok : Bool) : (s.step c (.main ok)).MainRuns := by
  by_cases hcrash : s.crash = none
  · rw [step_main hcrash hruns]
    cases hstep : s.mainStep c ok with
    | error e => exact hruns
    | ok s' =>
        have hsame : s'.sys.handlers = s.sys.handlers := (mainStep_trans hstep).handlers
        exact (congrFun hsame mainThread).trans hruns
  · rw [step_crashed hcrash]
    exact hruns

section Loop
variable {walk : Walk} {e : Nat} {temp : Option Nat}

theorem MainTrans.visit_next (ht : MainTrans c s s') (hpc : s.main = .visit walk (some e)) :
    ∃ entry, s.entries.cell e = .live entry ∧
      s'.main = if walk = .shutdown ∨ s.exited entry.worker = true then .remove walk e entry.next
        else .visit walk entry.next := by
  cases ht with
  | check x entry hpc' hentry =>
      rw [hpc] at hpc'
      cases hpc'
      exact ⟨entry, hentry, by simp⟩
  | stop x entry hpc' hentry =>
      rw [hpc] at hpc'
      cases hpc'
      exact ⟨entry, hentry, by simp⟩
  | build pc workers bufs fds entries hb =>
      rw [hpc] at hb
      cases hb
  | refuse workers bufs hg =>
      rw [hpc] at hg
      cases hg
  | _ => simp_all

theorem MainTrans.remove_next (ht : MainTrans c s s') (hpc : s.main = .remove walk e temp) :
    s'.main = .join walk e temp ∧ s'.sys = s.sys := by
  cases ht with
  | build pc workers bufs fds entries hb =>
      rw [hpc] at hb
      cases hb
  | refuse workers bufs hg =>
      rw [hpc] at hg
      cases hg
  | _ => simp_all

theorem MainTrans.join_next (ht : MainTrans c s s') (hpc : s.main = .join walk e temp) :
    ∃ entry tid, s.entries.cell e = .live entry ∧ entry.tid = some tid ∧ s'.sys = s.sys ∧
      s'.main = if s.exited tid then .delete walk e temp else .join walk e temp := by
  cases ht with
  | join walk x temp' entry tid threads hpc' hentry htid hexited =>
      rw [hpc] at hpc'
      cases hpc'
      exact ⟨entry, tid, hentry, htid, rfl, by rw [if_pos hexited]⟩
  | wait walk x temp' entry tid hpc' hentry htid hexited =>
      rw [hpc] at hpc'
      cases hpc'
      exact ⟨entry, tid, hentry, htid, rfl, by rw [hexited]; exact hpc⟩
  | build pc workers bufs fds entries hb =>
      rw [hpc] at hb
      cases hb
  | refuse workers bufs hg =>
      rw [hpc] at hg
      cases hg
  | _ => simp_all

theorem MainTrans.delete_next (ht : MainTrans c s s') (hpc : s.main = .delete walk e temp) :
    s'.main = .visit walk temp ∧ s'.sys = s.sys := by
  cases ht with
  | build pc workers bufs fds entries hb =>
      rw [hpc] at hb
      cases hb
  | refuse workers bufs hg =>
      rw [hpc] at hg
      cases hg
  | _ => simp_all

end Loop

end Inversion

end Aesd.Server
