import Aesd.Server.Main

/-!
# From `main` to the accept loop

* `FdTable` : the descriptors of the process. A call that opens something gets the lowest descriptor that is closed, as
  the standard asks, and the process may be started with any descriptors, open or closed;
* `Proc` : the table, what was printed to `stderr`, the timer, and the descriptor that `syslog()` keeps;
* `daemonize`, `handle`, `startTimestampTimer`, `srvBind`, `srvListen`, `aesdsocketMain` : the code before the first
  `accept`, where every call may fail;
* `CanStart` : the answers with which the server comes to accept.
-/

namespace Aesd.Server

/-! ## Descriptors -/

/-- What an open descriptor refers to; `socket k` was created for the `k`-th address, `log` by `syslog()`. -/
inductive OpenFile where
  | devNull
  | socket (addr : Nat)
  | log
  | other (n : Nat)
deriving DecidableEq, Repr

structure FdTable where
  files : List (Option OpenFile)
deriving DecidableEq, Repr

namespace FdTable

def get (t : FdTable) (fd : Nat) : Option OpenFile := t.files[fd]?.join

def lowest (t : FdTable) : Nat := t.files.findIdx Option.isNone

def put (t : FdTable) (fd : Nat) (f : Option OpenFile) : FdTable :=
  ⟨(t.files ++ List.replicate (fd + 1 - t.files.length) none).set fd f⟩

theorem get_put (t : FdTable) (fd : Nat) (f : Option OpenFile) (i : Nat) :
    (t.put fd f).get i = if i = fd then f else t.get i := by
  unfold get put
  by_cases hi : i = fd
  · rw [if_pos hi, hi, List.getElem?_set_self (by simp; omega), Option.join_some]
  · rw [if_neg hi, List.getElem?_set_ne (Ne.symm hi), List.getElem?_append]
    split_ifs with hlt
    · rfl
    · rw [List.getElem?_replicate, List.getElem?_eq_none (by omega : t.files.length ≤ i)]
      split_ifs <;> rfl

theorem get_lowest (t : FdTable) : t.get t.lowest = none := by
  unfold get lowest
  by_cases hlt : t.files.findIdx Option.isNone < t.files.length
  · have hnone := List.findIdx_getElem (w := hlt)
    rw [List.getElem?_eq_getElem hlt]
    simpa using hnone
  · rw [List.getElem?_eq_none (by omega)]
    rfl

end FdTable

/-- `timer_`: not created, or created, and armed or not. -/
inductive Timer where
  | none
  | created
  | armed
deriving DecidableEq, Repr

structure Proc where
  fds : FdTable
  stderr : List String := []
  timer : Timer := .none
  -- the handler of SIGALRM is installed
  alarmHandler : Bool := false
  -- the descriptor of the log, if `syslog()` has one
  logFd : Option Nat := none
deriving DecidableEq, Repr

def Proc.perror (p : Proc) (text : String) : Proc := { p with stderr := p.stderr ++ [text] }

/-- A call that opens `f`. -/
def Proc.opens (p : Proc) (f : OpenFile) : Nat × Proc :=
  (p.fds.lowest, { p with fds := p.fds.put p.fds.lowest (some f) })

def Proc.close (p : Proc) (fd : Nat) : Proc := { p with fds := p.fds.put fd none }

/-- The timer, and whether its signal is handled. -/
def Proc.alarm (p : Proc) : Timer × Bool := (p.timer, p.alarmHandler)

/-- The answers to one `syslog()`: whether a log that is open takes the message, and whether one can be opened. -/
structure LogAnswer where
  sends : Bool := true
  opens : Bool := true
deriving DecidableEq, Repr

def Proc.openLog (p : Proc) (ok : Bool) : Proc :=
  if ok then { (p.opens .log).2 with logFd := some (p.opens .log).1 } else p

/-- `syslog()` opens the log at its first call and keeps it; one that has gone is closed and opened again. -/
def Proc.syslog (p : Proc) (a : LogAnswer) : Proc :=
  match p.logFd with
  | none => p.openLog a.opens
  | some fd => if a.sends then p else { p.close fd with logFd := none }.openLog a.opens

/-! ## `daemonize` -/

structure DaemonAnswers where
  setsid : Bool := true
  chdir : Bool := true
  openNull : Bool := true
  dupStdin : Bool := true
  dupStdout : Bool := true
  dupStderr : Bool := true
deriving DecidableEq, Repr

/-- `dup2(dev_null, fd)`; a `dev_null` that could not be opened is -1, and the call fails. -/
def Proc.dup2 (p : Proc) (ok : Bool) (devNull : Option Nat) (fd : Nat) (text : String) : Except Proc Proc :=
  match devNull with
  | some old => if ok then .ok { p with fds := p.fds.put fd (p.fds.get old) } else .error (p.perror text)
  | none => .error (p.perror text)

/-- The result of `open("/dev/null", O_RDWR)` is not looked at. -/
def Proc.openNull (p : Proc) (ok : Bool) : Option Nat × Proc :=
  if ok then (some (p.opens .devNull).1, (p.opens .devNull).2) else (none, p)

/-- The end of `daemonize`: the standard descriptors are redirected. -/
def redirectStdio (a : DaemonAnswers) (devNull : Option Nat) (p : Proc) : Except Proc Proc := do
  let p ← p.dup2 a.dupStdin devNull 0 "dup2: stdin > /dev/null"
  let p ← p.dup2 a.dupStdout devNull 1 "dup2: stdout > /dev/null"
  p.dup2 a.dupStderr devNull 2 "dup2: stderr > /dev/null"

/-- `daemonize`; an error is the result -1. -/
def daemonize (a : DaemonAnswers) (p : Proc) : Except Proc Proc :=
  if a.setsid = false then .error (p.perror "setsid")
  else if a.chdir = false then .error (p.perror "chdir")
  else redirectStdio a (p.openNull a.openNull).1 (p.openNull a.openNull).2

/-! ## The server -/

structure TimerAnswers where
  sigaction : Bool := true
  create : Bool := true
  settime : Bool := true
deriving DecidableEq, Repr

/-- `start_timestamp_timer` gives up at the first call that fails; the server runs all the same. -/
def startTimestampTimer (a : TimerAnswers) (p : Proc) : Proc :=
  if a.sigaction = false then p.perror "timestamp timer sigaction"
  else
    let p := { p with alarmHandler := true }
    if a.create = false then p.perror "timestamp timer_create"
    else if a.settime = false then { p with timer := .created }.perror "timestamp timer_settime"
    else { p with timer := .armed }

structure AddrAnswers where
  socket : Bool := true
  setsockopt : Bool := true
  bind : Bool := true
deriving DecidableEq, Repr

/-- The loop of `srv_bind` over the addresses, from the `k`-th on. A failed `setsockopt` ends it, a failed `socket` or
`bind` does not. -/
def bindLoop (p : Proc) (k : Nat) : List AddrAnswers → Option Nat × Proc
  | [] => (none, p)
  | a :: rest =>
    if a.socket = false then bindLoop (p.perror "socket") (k + 1) rest
    else
      let (sockfd, p) := p.opens (.socket k)
      if a.setsockopt = false then (none, (p.perror "setsockopt").close sockfd)
      else if a.bind = false then bindLoop ((p.perror "bind").close sockfd) (k + 1) rest
      else (some sockfd, p)

/-- `srv_bind`; the error of `getaddrinfo` is its text. -/
def srvBind (gai : Except String (List AddrAnswers)) (p : Proc) : Option Nat × Proc :=
  match gai with
  | .error text => (none, p.perror ("getaddrinfo: " ++ text))
  | .ok addrs => bindLoop p 0 addrs

def srvListen (ok : Bool) (log : LogAnswer) (sockFd : Nat) (p : Proc) : Bool × Proc :=
  if ok then (true, p.syslog log) else (false, (p.perror "listen").close sockFd)

/-- How a start ends: `exit` or a return from `main`, or the accept loop on a listening socket. -/
inductive Started where
  | exited (code : Int)
  | serving (sockFd : Nat)
deriving DecidableEq, Repr

/-- `aesd_server_run` up to its loop. -/
def serverRun (gai : Except String (List AddrAnswers)) (listen : Bool) (log : LogAnswer) (port : String) (p : Proc) :
    Started × Proc :=
  match srvBind gai p with
  | (none, p) => (.exited (-1), p.perror ("server could not bind to port " ++ port))
  | (some sockFd, p) =>
    match srvListen listen log sockFd p with
    | (false, p) => (.exited (-1), p.perror "server could not start listening")
    | (true, p) => (.serving sockFd, p)

/-! ## `main` -/

structure StartAnswers where
  -- `fork` fails, or returns in the parent (a pid) or in the child (0)
  fork : Option Nat := some 0
  daemon : DaemonAnswers := {}
  sigint : Bool := true
  sigterm : Bool := true
  timer : TimerAnswers := {}
  gai : Except String (List AddrAnswers)
  listen : Bool := true
  -- the three calls of `syslog`, in `main`, in `srv_listen` and at the end of `main`
  logStart : LogAnswer := {}
  logListen : LogAnswer := {}
  logExit : LogAnswer := {}

/-- `strcmp("-d", argv[1]) == 0`, if there is an `argv[1]`. -/
def isDaemon (argv : List String) : Bool := argv[1]? == some "-d"

/-- `fork` and `daemonize` in `main`: the process goes on, or ends with a code. -/
def becomeDaemon (a : StartAnswers) (p : Proc) : Except (Int × Proc) Proc :=
  match a.fork with
  | none => .error (-1, p.perror "fork")
  | some pid =>
    if pid ≠ 0 then .error (0, p)
    else
      match daemonize a.daemon p with
      | .error p => .error (-1, p.perror "could not daemonize process")
      | .ok p => .ok p

/-- The part of `main` for the daemon mode. -/
def mainDaemon (argv : List String) (a : StartAnswers) (p : Proc) : Except (Int × Proc) Proc :=
  if isDaemon argv then becomeDaemon a p else .ok p

def handle (ok : Bool) (p : Proc) : Except (Int × Proc) Proc := if ok then .ok p else .error (-1, p.perror "sigaction")

/-- What comes before `aesd_server_init`. -/
def mainPrelude (argv : List String) (a : StartAnswers) (p : Proc) : Except (Int × Proc) Proc := do
  let p ← mainDaemon argv a p
  let p ← handle a.sigint p
  handle a.sigterm p

def aesdsocketMain (charDev : Bool) (argv : List String) (a : StartAnswers) (p : Proc) : Started × Proc :=
  match mainPrelude argv a p with
  | .error (code, p) => (.exited code, p)
  | .ok p =>
    let p := p.syslog a.logStart
    match serverRun a.gai a.listen a.logListen "9000" (if charDev then p else startTimestampTimer a.timer p) with
    | (.exited code, p) => (.exited code, p.syslog a.logExit)
    | (.serving sockFd, p) => (.serving sockFd, p)

/-! ## The log -/

namespace Proc

/-- `syslog()` has at most one descriptor, and knows it. -/
def Logged (p : Proc) : Prop := ∀ i, p.fds.get i = some .log ↔ p.logFd = some i

/-- What a descriptor leads to, but for the log. -/
def seen (p : Proc) (i : Nat) : Option OpenFile := if p.fds.get i = some .log then none else p.fds.get i

theorem seen_congr {p p' : Proc} {i : Nat} (h : p'.fds.get i = p.fds.get i) : p'.seen i = p.seen i := by
  simp only [seen, h]

theorem seen_eq_some {p : Proc} {i : Nat} {f : OpenFile} (hf : f ≠ .log) :
    p.seen i = some f ↔ p.fds.get i = some f := by
  unfold seen
  split_ifs with hlog
  · rw [hlog, Option.some.injEq]
    exact ⟨fun h => (nomatch h), fun h => absurd h.symm hf⟩
  · exact Iff.rfl

theorem get_opens (p : Proc) (f : OpenFile) (i : Nat) :
    (p.opens f).2.fds.get i = if i = (p.opens f).1 then some f else p.fds.get i := FdTable.get_put _ _ _ _

theorem get_opens_fd (p : Proc) (f : OpenFile) : p.fds.get (p.opens f).1 = none := p.fds.get_lowest

/-- Nothing but the log has changed. -/
structure OnlyLog (p p' : Proc) : Prop where
  logged : p'.Logged
  seen : ∀ i, p'.seen i = p.seen i
  stderr : p'.stderr = p.stderr
  alarm : p'.alarm = p.alarm

theorem OnlyLog.refl {p : Proc} (h : p.Logged) : OnlyLog p p := ⟨h, fun _ => rfl, rfl, rfl⟩

theorem OnlyLog.trans {p p' p'' : Proc} (h : OnlyLog p p') (h' : OnlyLog p' p'') : OnlyLog p p'' :=
  ⟨h'.logged, fun i => (h'.seen i).trans (h.seen i), h'.stderr.trans h.stderr, h'.alarm.trans h.alarm⟩

theorem onlyLog_openLog {p : Proc} (h : p.Logged) (hnone : p.logFd = none) (ok : Bool) : OnlyLog p (p.openLog ok) := by
  have hno : ∀ i, p.fds.get i ≠ some .log := fun i hi => by
    rw [h, hnone] at hi
    cases hi
  unfold openLog
  split_ifs
  · refine ⟨fun i => ?_, fun i => ?_, rfl, rfl⟩
    · show (p.opens .log).2.fds.get i = _ ↔ _
      rw [get_opens, Option.some.injEq, eq_comm]
      split_ifs with hi
      · simp [hi]
      · exact ⟨fun h => absurd h.symm (hno i), fun h => absurd h.symm hi⟩
    · show (if (p.opens .log).2.fds.get i = _ then none else (p.opens .log).2.fds.get i) = _
      rw [get_opens, Proc.seen, if_neg (hno i)]
      split_ifs with hi hlog hlog
      · rw [hi, get_opens_fd]
      · exact absurd rfl hlog
      · exact absurd hlog (hno i)
      · rfl
  · exact .refl h

theorem onlyLog_syslog {p : Proc} (h : p.Logged) (a : LogAnswer) : OnlyLog p (p.syslog a) := by
  unfold syslog
  cases hfd : p.logFd with
  | none => exact onlyLog_openLog h hfd a.opens
  | some fd =>
      dsimp only
      split_ifs
      · exact .refl h
      · have hlog : p.fds.get fd = some .log := (h fd).mpr hfd
        have hclosed : ∀ i, (p.close fd).fds.get i = if i = fd then none else p.fds.get i := fun i =>
          FdTable.get_put _ _ _ _
        have hclose : OnlyLog p { p.close fd with logFd := none } := by
          refine ⟨fun i => ?_, fun i => ?_, rfl, rfl⟩
          · show (p.close fd).fds.get i = _ ↔ none = some i
            rw [hclosed]
            split_ifs with hi
            · exact ⟨fun h => (nomatch h), fun h => (nomatch h)⟩
            · rw [h, hfd, Option.some.injEq]
              exact ⟨fun h => absurd h.symm hi, fun h => (nomatch h)⟩
          · show (if (p.close fd).fds.get i = _ then none else (p.close fd).fds.get i) = _
            rw [hclosed, Proc.seen]
            by_cases hi : i = fd
            · rw [if_pos hi, hi, hlog]
              rfl
            · rw [if_neg hi]
        exact hclose.trans (onlyLog_openLog hclose.logged rfl a.opens)

end Proc

/-! ## Binding -/

/-- The `k`-th address can be bound, and each one before it fails at `socket` or at `bind`. -/
def BindsAt (addrs : List AddrAnswers) (k : Nat) : Prop :=
  addrs[k]? = some {} ∧ ∀ j < k, ∀ a, addrs[j]? = some a → a.socket = false ∨ (a.setsockopt = true ∧ a.bind = false)

theorem bindsAt_zero {a : AddrAnswers} {rest : List AddrAnswers} : BindsAt (a :: rest) 0 ↔ a = {} := by
  simp [BindsAt]

theorem bindsAt_succ {a : AddrAnswers} {rest : List AddrAnswers} {k : Nat} :
    BindsAt (a :: rest) (k + 1) ↔ (a.socket = false ∨ (a.setsockopt = true ∧ a.bind = false)) ∧ BindsAt rest k := by
  unfold BindsAt
  rw [List.getElem?_cons_succ]
  constructor
  · rintro ⟨hk, hbefore⟩
    exact ⟨hbefore 0 (Nat.succ_pos k) a rfl, hk, fun j hj => hbefore (j + 1) (Nat.succ_lt_succ hj)⟩
  · rintro ⟨ha, hk, hbefore⟩
    refine ⟨hk, fun j hj b hb => ?_⟩
    cases j with
    | zero =>
        obtain rfl : a = b := Option.some.inj hb
        exact ha
    | succ j => exact hbefore j (Nat.lt_of_succ_lt_succ hj) b hb

/-- The same files are open under the same descriptors, and `stderr` only grew. -/
structure Prints (p p' : Proc) : Prop where
  fds : ∀ i, p'.fds.get i = p.fds.get i
  stderr : p.stderr <+: p'.stderr

namespace Prints
variable {p p' p'' : Proc}

theorem refl (p : Proc) : Prints p p := ⟨fun _ => rfl, List.prefix_rfl⟩

theorem trans (h : Prints p p') (h' : Prints p' p'') : Prints p p'' :=
  ⟨fun i => (h'.fds i).trans (h.fds i), h.stderr.trans h'.stderr⟩

theorem perror (h : Prints p p') (text : String) : Prints p (p'.perror text) :=
  ⟨h.fds, h.stderr.trans (List.prefix_append _ _)⟩

end Prints

namespace Proc

/-- A descriptor that is closed again leaves the table as it was. -/
theorem close_opens (p : Proc) (f : OpenFile) (text : String) :
    Prints p (((p.opens f).2.perror text).close (p.opens f).1) := by
  refine ⟨fun i => ?_, List.prefix_append _ _⟩
  show ((p.opens f).2.fds.put (p.opens f).1 none).get i = _
  rw [FdTable.get_put, get_opens]
  split_ifs with hi
  · rw [hi, get_opens_fd]
  · rfl

end Proc

theorem bindLoop_cons (p : Proc) (k : Nat) (a : AddrAnswers) (rest : List AddrAnswers) :
    ((a.socket = false ∨ (a.setsockopt = true ∧ a.bind = false)) ∧
      ∃ p1, Prints p p1 ∧ bindLoop p k (a :: rest) = bindLoop p1 (k + 1) rest) ∨
    ((a.socket = true ∧ a.setsockopt = false) ∧ ∃ p1, Prints p p1 ∧ bindLoop p k (a :: rest) = (none, p1)) ∨
    (a = {} ∧ bindLoop p k (a :: rest) = (some (p.opens (.socket k)).1, (p.opens (.socket k)).2)) := by
  obtain ⟨socket, setsockopt, bind⟩ := a
  cases socket with
  | false => exact Or.inl ⟨Or.inl rfl, _, (Prints.refl p).perror "socket", rfl⟩
  | true =>
      cases setsockopt with
      | false => exact Or.inr (Or.inl ⟨⟨rfl, rfl⟩, _, p.close_opens _ "setsockopt", rfl⟩)
      | true =>
          cases bind with
          | false => exact Or.inl ⟨Or.inr ⟨rfl, rfl⟩, _, p.close_opens _ "bind", rfl⟩
          | true => exact Or.inr (Or.inr ⟨rfl, rfl⟩)

/-- No address was bound, and every socket that was created is closed. -/
theorem bindLoop_none {p p' : Proc} {k : Nat} {addrs : List AddrAnswers} (h : bindLoop p k addrs = (none, p')) :
    Prints p p' ∧ ∀ j, ¬ BindsAt addrs j := by
  induction addrs generalizing p k with
  | nil =>
      cases h
      exact ⟨.refl _, fun j hj => by simp [BindsAt] at hj⟩
  | cons a rest ih =>
      rcases bindLoop_cons p k a rest with ⟨hpass, p1, hp1, heq⟩ | ⟨hopt, p1, hp1, heq⟩ | ⟨ha, heq⟩
      · obtain ⟨hprints, hno⟩ := ih (heq.symm.trans h)
        refine ⟨hp1.trans hprints, fun j => ?_⟩
        cases j with
        | zero =>
            rintro hb
            rw [bindsAt_zero.mp hb] at hpass
            simp at hpass
        | succ j => exact fun hb => hno j (bindsAt_succ.mp hb).2
      · cases heq.symm.trans h
        refine ⟨hp1, fun j => ?_⟩
        cases j with
        | zero =>
            intro hb
            rw [bindsAt_zero.mp hb] at hopt
            simp at hopt
        | succ j =>
            intro hb
            have hpass := (bindsAt_succ.mp hb).1
            simp [hopt.1, hopt.2] at hpass
      · cases heq.symm.trans h

/-- The first address that can be bound is bound, and its socket is the one descriptor that is new. -/
theorem bindLoop_some {p p' : Proc} {k fd : Nat} {addrs : List AddrAnswers} (h : bindLoop p k addrs = (some fd, p')) :
    p.stderr <+: p'.stderr ∧ p.fds.get fd = none ∧ ∃ j, BindsAt addrs j ∧
      ∀ i, p'.fds.get i = if i = fd then some (.socket (k + j)) else p.fds.get i := by
  induction addrs generalizing p k with
  | nil => cases h
  | cons a rest ih =>
      rcases bindLoop_cons p k a rest with ⟨hpass, p1, hp1, heq⟩ | ⟨hopt, p1, hp1, heq⟩ | ⟨ha, heq⟩
      · obtain ⟨hsaid, hfd, j, hj, hget⟩ := ih (heq.symm.trans h)
        refine ⟨hp1.stderr.trans hsaid, (hp1.fds fd).symm.trans hfd, j + 1, bindsAt_succ.mpr ⟨hpass, hj⟩, fun i => ?_⟩
        rw [hget, hp1.fds, show k + 1 + j = k + (j + 1) by omega]
      · cases heq.symm.trans h
      · cases heq.symm.trans h
        exact ⟨List.prefix_rfl, p.get_opens_fd _, 0, bindsAt_zero.mpr ha, p.get_opens _⟩

/-! ## `aesd_server_run` -/

/-- The answers with which the `k`-th address comes to listen. -/
def Listens (gai : Except String (List AddrAnswers)) (listen : Bool) (k : Nat) : Prop :=
  ∃ addrs, gai = .ok addrs ∧ BindsAt addrs k ∧ listen = true

theorem srvBind_none {gai : Except String (List AddrAnswers)} {p p' : Proc} (h : srvBind gai p = (none, p')) :
    Prints p p' ∧ ∀ addrs, gai = .ok addrs → ∀ k, ¬ BindsAt addrs k := by
  cases gai with
  | error text =>
      cases h
      exact ⟨(Prints.refl p).perror _, fun addrs hok => nomatch hok⟩
  | ok addrs =>
      obtain ⟨hprints, hno⟩ := bindLoop_none h
      refine ⟨hprints, ?_⟩
      rintro addrs' ⟨⟩
      exact hno

theorem srvBind_some {gai : Except String (List AddrAnswers)} {p p' : Proc} {fd : Nat}
    (h : srvBind gai p = (some fd, p')) :
    p.stderr <+: p'.stderr ∧ p.fds.get fd = none ∧ ∃ addrs k, gai = .ok addrs ∧ BindsAt addrs k ∧
      ∀ i, p'.fds.get i = if i = fd then some (.socket k) else p.fds.get i := by
  cases gai with
  | error text => cases h
  | ok addrs =>
      obtain ⟨hsaid, hfd, k, hk, hget⟩ := bindLoop_some h
      exact ⟨hsaid, hfd, addrs, k, rfl, hk, fun i => by rw [hget, Nat.zero_add]⟩

theorem bindLoop_keeps (p : Proc) (k : Nat) (addrs : List AddrAnswers) :
    (bindLoop p k addrs).2.alarm = p.alarm ∧ (bindLoop p k addrs).2.logFd = p.logFd := by
  induction addrs generalizing p k with
  | nil => exact ⟨rfl, rfl⟩
  | cons a rest ih =>
      unfold bindLoop
      split_ifs
      · exact ih _ _
      · exact ⟨rfl, rfl⟩
      · exact ih _ _
      · exact ⟨rfl, rfl⟩

theorem srvBind_keeps (gai : Except String (List AddrAnswers)) (p : Proc) :
    (srvBind gai p).2.alarm = p.alarm ∧ (srvBind gai p).2.logFd = p.logFd := by
  cases gai with
  | error text => exact ⟨rfl, rfl⟩
  | ok addrs => exact bindLoop_keeps p 0 addrs

/-- The server accepts on a socket for the first address that can be bound, or leaves no descriptor and says why. -/
theorem serverRun_cases (gai : Except String (List AddrAnswers)) (listen : Bool) (log : LogAnswer) (port : String)
    {p : Proc} (hp : p.Logged) :
    (∃ fd p' k, serverRun gai listen log port p = (.serving fd, p') ∧ Listens gai listen k ∧ p'.Logged ∧
      p'.alarm = p.alarm ∧ p.fds.get fd = none ∧ ∀ i, p'.seen i = if i = fd then some (.socket k) else p.seen i) ∨
    ∃ p', serverRun gai listen log port p = (.exited (-1), p') ∧ p'.Logged ∧ (∀ i, p'.seen i = p.seen i) ∧
      p.stderr.length < p'.stderr.length ∧ ∀ k, ¬ Listens gai listen k := by
  have hkeeps := srvBind_keeps gai p
  unfold serverRun
  rcases hbind : srvBind gai p with ⟨sockFd, p1⟩
  rw [hbind] at hkeeps
  cases sockFd with
  | none =>
      obtain ⟨hprints, hno⟩ := srvBind_none hbind
      refine Or.inr ⟨_, rfl, fun i => ?_, fun i => Proc.seen_congr (hprints.fds i), ?_, ?_⟩
      · show p1.fds.get i = _ ↔ p1.logFd = _
        rw [hprints.fds, hkeeps.2]
        exact hp i
      · have := hprints.stderr.length_le
        simp [Proc.perror]
        omega
      · rintro k ⟨addrs, hok, hk, -⟩
        exact hno addrs hok k hk
  | some fd =>
      obtain ⟨hsaid, hfd, addrs, k, hok, hk, hget⟩ := srvBind_some hbind
      cases listen with
      | true =>
          have hlogged : p1.Logged := by
            intro i
            rw [hget, hkeeps.2, ← hp i]
            split_ifs with hi
            · rw [hi, hfd]
              exact ⟨fun h => (nomatch h), fun h => (nomatch h)⟩
            · exact Iff.rfl
          have honly := p1.onlyLog_syslog hlogged log
          refine Or.inl ⟨fd, _, k, rfl, ⟨addrs, hok, hk, rfl⟩, honly.logged, honly.alarm.trans hkeeps.1, hfd, fun i => ?_⟩
          rw [honly.seen]
          split_ifs with hi
          · rw [Proc.seen_eq_some (by simp), hget, if_pos hi]
          · exact Proc.seen_congr (by rw [hget, if_neg hi])
      | false =>
          have hclosed : ∀ i, ((p1.perror "listen").close fd).fds.get i = p.fds.get i := by
            intro i
            show (p1.fds.put fd none).get i = _
            rw [FdTable.get_put, hget]
            split_ifs with hi
            · rw [hi, hfd]
            · rfl
          refine Or.inr ⟨_, rfl, fun i => ?_, fun i => Proc.seen_congr (hclosed i), ?_, ?_⟩
          · show ((p1.perror "listen").close fd).fds.get i = _ ↔ p1.logFd = _
            rw [hclosed, hkeeps.2]
            exact hp i
          · have := hsaid.length_le
            simp [Proc.perror, Proc.close]
            omega
          · rintro k' ⟨-, -, -, hlisten⟩
            cases hlisten

/-- The main thread of `AesdServer` comes to set `running` with the outcomes of `srv_bind` and `srv_listen` here, exactly
when the server accepts. -/
theorem serverRun_mainStep (c : Config) {s : AesdServer} (hpc : s.main = .serverInit)
    (gai : Except String (List AddrAnswers)) (listen : Bool) (log : LogAnswer) (port : String) (p : Proc) :
    (∃ fd p', serverRun gai listen log port p = (.serving fd, p')) ↔
      ∃ s1 s2 s3, s.mainStep c true = .ok s1 ∧ s1.mainStep c (srvBind gai p).1.isSome = .ok s2 ∧ s2.main = .listen ∧
        s2.mainStep c listen = .ok s3 ∧ s3.main = .setRunning := by
  unfold serverRun AesdServer.mainStep
  rw [hpc]
  generalize srvBind gai p = r
  obtain ⟨sockFd, p1⟩ := r
  cases sockFd with
  | none => simp
  | some fd =>
      cases listen with
      | true => simp [srvListen]
      | false => simp [srvListen]

/-! ## `main` up to the server -/

/-- The answers with which a daemon comes to be. -/
def Daemonizes (a : StartAnswers) : Prop := a.fork = some 0 ∧ a.daemon = {}

/-- The first `n` descriptors lead to `/dev/null`, and the others where they led before, or there too. -/
structure Nulled (n : Nat) (p p' : Proc) : Prop where
  null : ∀ i < n, p'.fds.get i = some .devNull
  others : ∀ i, p'.fds.get i = p.fds.get i ∨ p'.fds.get i = some .devNull
  stderr : p'.stderr = p.stderr
  alarm : p'.alarm = p.alarm
  logFd : p'.logFd = p.logFd

theorem Nulled.dup2 {n : Nat} {p p' : Proc} (h : Nulled n p p') {old : Nat} (hold : p'.fds.get old = some .devNull)
    (ok : Bool) (text : String) :
    (ok = true ∧ ∃ p'', p'.dup2 ok (some old) n text = .ok p'' ∧ Nulled (n + 1) p p'' ∧
        p''.fds.get old = some .devNull) ∨
      (ok = false ∧ p'.dup2 ok (some old) n text = .error (p'.perror text)) := by
  cases ok with
  | false => exact Or.inr ⟨rfl, rfl⟩
  | true =>
      have hget : ∀ i, ((p'.fds.put n (p'.fds.get old)).get i) = if i = n then some .devNull else p'.fds.get i := by
        intro i
        rw [FdTable.get_put, hold]
      refine Or.inl ⟨rfl, _, rfl, ⟨fun i hi => ?_, fun i => ?_, h.stderr, h.alarm, h.logFd⟩, ?_⟩
      · rw [hget]
        split_ifs with hin
        · rfl
        · exact h.null i (by omega)
      · rw [hget]
        split_ifs with hin
        · exact Or.inr rfl
        · exact h.others i
      · rw [hget]
        split_ifs with hin
        · rfl
        · exact hold

/-- `p'` was left by a failed `daemonize`, which said why. -/
def DaemonFails (p p' : Proc) : Prop :=
  p.stderr.length < p'.stderr.length ∧ ∀ i, p'.fds.get i = p.fds.get i ∨ p'.fds.get i = some .devNull

theorem Nulled.fails {n : Nat} {p p' : Proc} (h : Nulled n p p') (text : String) : DaemonFails p (p'.perror text) :=
  ⟨by simp [Proc.perror, h.stderr], h.others⟩

theorem Nulled.refl (p : Proc) : Nulled 0 p p := ⟨fun i hi => absurd hi (Nat.not_lt_zero i), fun _ => Or.inl rfl, rfl, rfl, rfl⟩

theorem redirectStdio_cases (a : DaemonAnswers) {p p' : Proc} (h : Nulled 0 p p') {old : Nat}
    (hold : p'.fds.get old = some .devNull) :
    ((a.dupStdin = true ∧ a.dupStdout = true ∧ a.dupStderr = true) ∧
        ∃ p'', redirectStdio a (some old) p' = .ok p'' ∧ Nulled 3 p p'') ∨
      (¬ (a.dupStdin = true ∧ a.dupStdout = true ∧ a.dupStderr = true) ∧
        ∃ p'', redirectStdio a (some old) p' = .error p'' ∧ DaemonFails p p'') := by
  unfold redirectStdio
  rcases h.dup2 hold a.dupStdin "dup2: stdin > /dev/null" with ⟨hin, p1, h1, hn1, hold1⟩ | ⟨hin, h1⟩
  · rw [h1]
    rcases hn1.dup2 hold1 a.dupStdout "dup2: stdout > /dev/null" with ⟨hout, p2, h2, hn2, hold2⟩ | ⟨hout, h2⟩
    · show (_ ∧ ∃ p'', (p1.dup2 a.dupStdout (some old) 1 _ >>= _) = _ ∧ _) ∨
        (_ ∧ ∃ p'', (p1.dup2 a.dupStdout (some old) 1 _ >>= _) = _ ∧ _)
      rw [h2]
      rcases hn2.dup2 hold2 a.dupStderr "dup2: stderr > /dev/null" with ⟨herr, p3, h3, hn3, -⟩ | ⟨herr, h3⟩
      · exact Or.inl ⟨⟨hin, hout, herr⟩, p3, h3, hn3⟩
      · exact Or.inr ⟨by simp [herr], _, h3, hn2.fails _⟩
    · refine Or.inr ⟨by simp [hout], _, ?_, hn1.fails "dup2: stdout > /dev/null"⟩
      show (p1.dup2 a.dupStdout (some old) 1 _ >>= _) = _
      rw [h2]
      rfl
  · rw [h1]
    exact Or.inr ⟨by simp [hin], _, rfl, h.fails _⟩

/-- A daemon has its standard descriptors on `/dev/null`. -/
theorem daemonize_cases (a : DaemonAnswers) (p : Proc) :
    (a = {} ∧ ∃ p', daemonize a p = .ok p' ∧ Nulled 3 p p') ∨
      (a ≠ {} ∧ ∃ p', daemonize a p = .error p' ∧ DaemonFails p p') := by
  obtain ⟨setsid, chdir, openNull, dupStdin, dupStdout, dupStderr⟩ := a
  cases setsid with
  | false => exact Or.inr ⟨by simp, _, rfl, (Nulled.refl p).fails "setsid"⟩
  | true =>
      cases chdir with
      | false => exact Or.inr ⟨by simp, _, rfl, (Nulled.refl p).fails "chdir"⟩
      | true =>
          cases openNull with
          | false => exact Or.inr ⟨by simp, _, rfl, (Nulled.refl p).fails "dup2: stdin > /dev/null"⟩
          | true =>
              have hget := p.get_opens .devNull
              have hopen : Nulled 0 p (p.opens .devNull).2 := by
                refine ⟨fun i hi => absurd hi (Nat.not_lt_zero i), fun i => ?_, rfl, rfl, rfl⟩
                rw [hget]
                split_ifs
                · exact Or.inr rfl
                · exact Or.inl rfl
              have hnull : (p.opens .devNull).2.fds.get (p.opens .devNull).1 = some .devNull := by
                rw [hget, if_pos rfl]
              rcases redirectStdio_cases ⟨true, true, true, dupStdin, dupStdout, dupStderr⟩ hopen hnull with
                ⟨⟨hin, hout, herr⟩, p', hok, hp'⟩ | ⟨hno, p', herr, hp'⟩
              · refine Or.inl ⟨?_, p', hok, hp'⟩
                dsimp only at hin hout herr
                rw [hin, hout, herr]
              · refine Or.inr ⟨fun hall => hno ?_, p', herr, hp'⟩
                simp only [DaemonAnswers.mk.injEq] at hall
                exact hall.2.2.2

/-- The answers with which `main` comes to the server. -/
def Prepared (argv : List String) (a : StartAnswers) : Prop :=
  (isDaemon argv = true → Daemonizes a) ∧ a.sigint = true ∧ a.sigterm = true

/-- The parent of a daemon exits with 0, any other process that ends before the server with -1 and a message. -/
def EndsEarly (argv : List String) (a : StartAnswers) (p : Proc) (code : Int) (p' : Proc) : Prop :=
  (code = 0 ∧ isDaemon argv = true ∧ ∃ pid, a.fork = some pid ∧ pid ≠ 0) ∨
    (code = -1 ∧ p.stderr.length < p'.stderr.length)

theorem becomeDaemon_cases (a : StartAnswers) (p : Proc) :
    (Daemonizes a ∧ ∃ p', becomeDaemon a p = .ok p' ∧ Nulled 3 p p') ∨
      (¬ Daemonizes a ∧ ∃ code p', becomeDaemon a p = .error (code, p') ∧
        (∀ i, p'.fds.get i = p.fds.get i ∨ p'.fds.get i = some .devNull) ∧
        ((code = 0 ∧ ∃ pid, a.fork = some pid ∧ pid ≠ 0) ∨ (code = -1 ∧ p.stderr.length < p'.stderr.length))) := by
  unfold becomeDaemon Daemonizes
  cases hfork : a.fork with
  | none => exact Or.inr ⟨by simp, _, _, rfl, fun _ => Or.inl rfl, Or.inr ⟨rfl, by simp [Proc.perror]⟩⟩
  | some pid =>
      dsimp only
      split_ifs with hpid
      · refine Or.inr ⟨?_, _, _, rfl, fun _ => Or.inl rfl, Or.inl ⟨rfl, pid, rfl, hpid⟩⟩
        rintro ⟨hzero, -⟩
        exact hpid (Option.some.inj hzero)
      · have hzero : pid = 0 := by simpa using hpid
        rcases daemonize_cases a.daemon p with ⟨hall, p', hok, hnulled⟩ | ⟨hno, p', herr, hlen, hothers⟩
        · rw [hok]
          exact Or.inl ⟨⟨by rw [hzero], hall⟩, p', rfl, hnulled⟩
        · rw [herr]
          refine Or.inr ⟨fun hd => hno hd.2, _, _, rfl, hothers, Or.inr ⟨rfl, ?_⟩⟩
          simp only [Proc.perror, List.length_append]
          omega

/-- The descriptors of a process that was set up, as a daemon or not. -/
structure SetUp (argv : List String) (p p' : Proc) : Prop where
  null : isDaemon argv = true → ∀ i < 3, p'.fds.get i = some .devNull
  others : ∀ i, p'.fds.get i = p.fds.get i ∨ p'.fds.get i = some .devNull
  stderr : p'.stderr = p.stderr
  alarm : p'.alarm = p.alarm
  logFd : p'.logFd = p.logFd

theorem mainDaemon_cases (argv : List String) (a : StartAnswers) (p : Proc) :
    ((isDaemon argv = true → Daemonizes a) ∧ ∃ p', mainDaemon argv a p = .ok p' ∧ SetUp argv p p') ∨
      (¬ (isDaemon argv = true → Daemonizes a) ∧ ∃ code p', mainDaemon argv a p = .error (code, p') ∧
        (∀ i, p'.fds.get i = p.fds.get i ∨ p'.fds.get i = some .devNull) ∧ EndsEarly argv a p code p') := by
  unfold mainDaemon
  split_ifs with hd
  · rcases becomeDaemon_cases a p with ⟨hall, p', hok, hn⟩ | ⟨hno, code, p', herr, hothers, hcode⟩
    · exact Or.inl ⟨fun _ => hall, p', hok, fun _ => hn.null, hn.others, hn.stderr, hn.alarm, hn.logFd⟩
    · refine Or.inr ⟨fun h => hno (h hd), code, p', herr, hothers, ?_⟩
      rcases hcode with ⟨hc, hpid⟩ | hc
      · exact Or.inl ⟨hc, hd, hpid⟩
      · exact Or.inr hc
  · exact Or.inl ⟨fun h => absurd h hd, p, rfl, fun h => absurd h hd, fun _ => Or.inl rfl, rfl, rfl, rfl⟩

theorem mainPrelude_cases (argv : List String) (a : StartAnswers) (p : Proc) :
    (Prepared argv a ∧ ∃ p', mainPrelude argv a p = .ok p' ∧ SetUp argv p p') ∨
      (¬ Prepared argv a ∧ ∃ code p', mainPrelude argv a p = .error (code, p') ∧
        (∀ i, p'.fds.get i = p.fds.get i ∨ p'.fds.get i = some .devNull) ∧ EndsEarly argv a p code p') := by
  have hsig : ∀ {p' : Proc}, SetUp argv p p' → EndsEarly argv a p (-1) (p'.perror "sigaction") := fun {p'} h =>
    Or.inr ⟨rfl, by simp [Proc.perror, h.stderr]⟩
  unfold mainPrelude Prepared
  rcases mainDaemon_cases argv a p with ⟨hd, p', hok, hp'⟩ | ⟨hno, code, p', herr, hothers, hcode⟩
  · rw [hok]
    cases hint : a.sigint with
    | false => exact Or.inr ⟨by simp, -1, p'.perror "sigaction", rfl, hp'.others, hsig hp'⟩
    | true =>
        cases hterm : a.sigterm with
        | false => exact Or.inr ⟨by simp, -1, p'.perror "sigaction", rfl, hp'.others, hsig hp'⟩
        | true => exact Or.inl ⟨⟨hd, rfl, rfl⟩, p', rfl, hp'⟩
  · rw [herr]
    exact Or.inr ⟨fun h => hno h.1, code, p', rfl, hothers, hcode⟩

/-! ## The timer -/

/-- No signal of the timer comes without a handler for it. -/
def Proc.AlarmHandled (p : Proc) : Prop := p.timer ≠ .none → p.alarmHandler = true

theorem startTimestampTimer_prints (a : TimerAnswers) (p : Proc) : Prints p (startTimestampTimer a p) := by
  unfold startTimestampTimer
  split_ifs
  · exact (Prints.refl p).perror _
  · exact ⟨fun _ => rfl, List.prefix_append _ _⟩
  · exact ⟨fun _ => rfl, List.prefix_append _ _⟩
  · exact ⟨fun _ => rfl, List.prefix_rfl⟩

theorem startTimestampTimer_handled (a : TimerAnswers) {p : Proc} (h : p.AlarmHandled) :
    (startTimestampTimer a p).AlarmHandled := by
  unfold startTimestampTimer
  split_ifs
  · exact h
  · exact fun _ => rfl
  · exact fun _ => rfl
  · exact fun _ => rfl

theorem Proc.AlarmHandled.congr {p p' : Proc} (h : p.AlarmHandled) (heq : p'.alarm = p.alarm) : p'.AlarmHandled := by
  obtain ⟨htimer, hhandler⟩ := Prod.mk.inj heq
  intro hne
  rw [hhandler]
  exact h (htimer ▸ hne)

/-! ## The whole start -/

/-- A process that was started with the descriptors `inherited`. -/
def Proc.start (inherited : List (Option Nat)) : Proc where
  fds := ⟨inherited.map fun f => f.map OpenFile.other⟩

theorem start_get (inherited : List (Option Nat)) (i : Nat) :
    (Proc.start inherited).fds.get i = none ∨ ∃ n, (Proc.start inherited).fds.get i = some (.other n) := by
  unfold Proc.start FdTable.get
  rw [List.getElem?_map]
  cases inherited[i]? with
  | none => exact Or.inl rfl
  | some f =>
      cases f with
      | none => exact Or.inl rfl
      | some n => exact Or.inr ⟨n, rfl⟩

/-- The answers with which the server comes to accept on a socket for the `k`-th address. -/
def CanStart (argv : List String) (a : StartAnswers) (k : Nat) : Prop :=
  Prepared argv a ∧ Listens a.gai a.listen k

/-- A descriptor leads where it led at the start, or to `/dev/null`, or it is the one of the log. -/
def AtRest (inherited : List (Option Nat)) (p : Proc) (i : Nat) : Prop :=
  p.fds.get i = (Proc.start inherited).fds.get i ∨ p.fds.get i = some .devNull ∨
    p.fds.get i = some .log ∧ p.logFd = some i ∧ (Proc.start inherited).fds.get i = none

/-- The server accepts: its one socket is for the `k`-th address, a daemon has its standard descriptors on `/dev/null`,
and a timer has its handler. -/
structure Accepting (argv : List String) (inherited : List (Option Nat)) (k fd : Nat) (p : Proc) : Prop where
  socket : ∀ i j, p.fds.get i = some (.socket j) ↔ i = fd ∧ j = k
  others : ∀ i, i ≠ fd → AtRest inherited p i
  null : isDaemon argv = true → ∀ i < 3, p.fds.get i = some .devNull
  alarm : p.AlarmHandled

/-- A descriptor that was not opened since leads to a file that was inherited, or to `/dev/null`. -/
theorem others_ne {inherited : List (Option Nat)} {p : Proc} {i : Nat} {f : OpenFile}
    (h : p.fds.get i = (Proc.start inherited).fds.get i ∨ p.fds.get i = some .devNull) (hother : ∀ n, f ≠ .other n)
    (hnull : f ≠ .devNull) : p.fds.get i ≠ some f := by
  intro hi
  rcases h with h | h
  · rw [h] at hi
    rcases start_get inherited i with hs | ⟨n, hs⟩
    · rw [hs] at hi
      cases hi
    · rw [hs] at hi
      exact hother n (Option.some.inj hi).symm
  · rw [h] at hi
    exact hnull (Option.some.inj hi).symm

theorem quiet_of_seen {inherited : List (Option Nat)} {p1 p : Proc} {i : Nat} (hlog : p.Logged)
    (h1 : p1.fds.get i = (Proc.start inherited).fds.get i ∨ p1.fds.get i = some .devNull)
    (hseen : p.seen i = p1.seen i) : AtRest inherited p i := by
  have hquiet : p1.seen i = p1.fds.get i := if_neg (others_ne h1 (by simp) (by simp))
  rw [hquiet, Proc.seen] at hseen
  by_cases hl : p.fds.get i = some .log
  · rw [if_pos hl] at hseen
    rw [← hseen] at h1
    exact Or.inr (Or.inr ⟨hl, (hlog i).mp hl, (h1.resolve_right (by simp)).symm⟩)
  · rw [if_neg hl] at hseen
    rw [← hseen] at h1
    exact h1.imp_right Or.inl

theorem AtRest.not_socket {inherited : List (Option Nat)} {p : Proc} {i : Nat} (h : AtRest inherited p i) (k : Nat) :
    p.fds.get i ≠ some (.socket k) := by
  rcases h with h | h | ⟨h, -⟩
  · exact others_ne (Or.inl h) (by simp) (by simp)
  · rw [h]
    simp
  · rw [h]
    simp

theorem startTimestampTimer_onlyLog (a : TimerAnswers) {p : Proc} (h : p.Logged) :
    (startTimestampTimer a p).Logged ∧ ∀ i, (startTimestampTimer a p).seen i = p.seen i := by
  unfold startTimestampTimer
  split_ifs <;> exact ⟨h, fun _ => rfl⟩

section Started
variable {argv : List String} {inherited : List (Option Nat)} {p : Proc}

/-- `syslog` was not called so far. -/
theorem SetUp.logged (h : SetUp argv (Proc.start inherited) p) : p.Logged := by
  intro i
  rw [h.logFd]
  exact iff_of_false (others_ne (h.others i) (by simp) (by simp)) (by simp [Proc.start])

/-- What `main` does between `mainPrelude` and `aesd_server_run` changes the log and the timer. -/
structure Readied (p p' : Proc) : Prop where
  logged : p'.Logged
  seen : ∀ i, p'.seen i = p.seen i
  alarm : p'.AlarmHandled
  stderr : p.stderr <+: p'.stderr

theorem SetUp.readied (h : SetUp argv (Proc.start inherited) p) (charDev : Bool) (a : StartAnswers) :
    Readied p (if charDev then p.syslog a.logStart else startTimestampTimer a.timer (p.syslog a.logStart)) := by
  have honly := p.onlyLog_syslog h.logged a.logStart
  have halarm : (p.syslog a.logStart).AlarmHandled :=
    Proc.AlarmHandled.congr (p := Proc.start inherited) (fun hne => absurd rfl hne) (honly.alarm.trans h.alarm)
  split_ifs
  · exact ⟨honly.logged, honly.seen, halarm, by rw [honly.stderr]⟩
  · obtain ⟨hlog, hseen⟩ := startTimestampTimer_onlyLog a.timer honly.logged
    refine ⟨hlog, fun i => (hseen i).trans (honly.seen i), startTimestampTimer_handled a.timer halarm, ?_⟩
    rw [← honly.stderr]
    exact (startTimestampTimer_prints a.timer _).stderr

theorem Readied.accepting {p' p'' : Proc} {k fd : Nat} (h : Readied p p') (hset : SetUp argv (Proc.start inherited) p)
    (hlog : p''.Logged) (halarm : p''.alarm = p'.alarm) (hfd : p'.fds.get fd = none)
    (hget : ∀ i, p''.seen i = if i = fd then some (.socket k) else p'.seen i) : Accepting argv inherited k fd p'' := by
  have hquiet : ∀ i, i ≠ fd → AtRest inherited p'' i := fun i hi =>
    quiet_of_seen hlog (hset.others i) (by rw [hget, if_neg hi, h.seen])
  refine ⟨fun i j => ?_, hquiet, fun hd i hi => ?_, h.alarm.congr halarm⟩
  · by_cases hi : i = fd
    · rw [← Proc.seen_eq_some (by simp), hget, if_pos hi]
      simp [hi, eq_comm]
    · simp [hi, (hquiet i hi).not_socket j]
  · have hnull : p.seen i = some .devNull := (Proc.seen_eq_some (by simp)).mpr (hset.null hd i hi)
    rw [← h.seen i] at hnull
    rw [← Proc.seen_eq_some (by simp), hget]
    split_ifs with hfdi
    · rw [Proc.seen_eq_some (by simp), hfdi, hfd] at hnull
      cases hnull
    · exact hnull

end Started

/-- **How a start ends**: with every inherited descriptor and every outcome of every call, `main` comes to accept exactly
with the answers of `CanStart`, with one socket of `srv_bind` open and every other one closed. Else it exits with none
open, the parent of a daemon with 0 and every other process with -1 and a message. -/
theorem start_serves_or_exits (charDev : Bool) (argv : List String) (a : StartAnswers) (inherited : List (Option Nat)) :
    (∃ k fd p, CanStart argv a k ∧ aesdsocketMain charDev argv a (Proc.start inherited) = (.serving fd, p) ∧
      Accepting argv inherited k fd p) ∨
    ((∀ k, ¬ CanStart argv a k) ∧ ∃ code p,
      aesdsocketMain charDev argv a (Proc.start inherited) = (.exited code, p) ∧
      (∀ i, AtRest inherited p i ∧ ∀ k, p.fds.get i ≠ some (.socket k)) ∧
      EndsEarly argv a (Proc.start inherited) code p) := by
  unfold aesdsocketMain
  rcases mainPrelude_cases argv a (Proc.start inherited) with ⟨hprep, p1, hok, hset⟩ | ⟨hnot, code, p1, herr, hothers, hcode⟩
  · rw [hok]
    dsimp only
    have hready := hset.readied charDev a
    generalize (if charDev then p1.syslog a.logStart else startTimestampTimer a.timer (p1.syslog a.logStart)) = p2
      at hready ⊢
    rcases serverRun_cases a.gai a.listen a.logListen "9000" hready.logged with
      ⟨fd, p', k, hrun, hlistens, hlog, hsame, hfd, hget⟩ | ⟨p', hrun, hlog, hseen, hlen, hnever⟩
    · rw [hrun]
      exact Or.inl ⟨k, fd, p', ⟨hprep, hlistens⟩, rfl, hready.accepting hset hlog hsame hfd hget⟩
    · rw [hrun]
      have hexit := p'.onlyLog_syslog hlog a.logExit
      refine Or.inr ⟨fun k hk => hnever k hk.2, -1, p'.syslog a.logExit, rfl, fun i => ?_, Or.inr ⟨rfl, ?_⟩⟩
      · have hquiet : AtRest inherited (p'.syslog a.logExit) i :=
          quiet_of_seen hexit.logged (hset.others i) (by rw [hexit.seen, hseen, hready.seen])
        exact ⟨hquiet, hquiet.not_socket⟩
      · have := hready.stderr.length_le
        rw [hexit.stderr, ← hset.stderr]
        omega
  · rw [herr]
    refine Or.inr ⟨fun k hk => hnot hk.1, code, p1, rfl, fun i => ?_, hcode⟩
    have hquiet : AtRest inherited p1 i := (hothers i).imp_right Or.inl
    exact ⟨hquiet, hquiet.not_socket⟩

end Aesd.Server
