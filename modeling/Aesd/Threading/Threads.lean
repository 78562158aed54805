import Aesd.Lib.Ledger
import Aesd.Lib.Run

/-!
# `threading.c`

* `Process` : the blocks of `thread_data`, the threads that run on them, and the mutexes;
* `Pc`, `Process.runThread` : `threadfunc` from one call to the next, with every outcome of `usleep`,
  `pthread_mutex_lock` and `pthread_mutex_unlock`;
* `Process.startThreadObtainingMutex` : with every outcome of `malloc` and `pthread_create`;
* `Process.step` : these in any order, and what a caller does: it joins a thread that has exited and frees its block, and
  may use the mutexes itself;
* `Trans`, `step_trans` : all that a step can be.
-/

namespace Aesd.Threading
open Lib

structure ThreadData where
  threadCompleteSuccess : Bool
  waitToObtainMs : Int32
  waitToReleaseMs : Int32
  mutex : Nat
deriving DecidableEq, Repr

/-- The points of `threadfunc`, each before the call it is named after. -/
inductive Pc where
  | sleepObtain
  | lock
  | sleepRelease
  | unlock
  | store (success : Bool)
  | exited
  -- its block was read and freed by the thread that joined it
  | joined (success : Bool)
deriving DecidableEq, Repr

def Pc.ended : Pc → Bool
  | .exited | .joined _ => true
  | _ => false

structure Thread where
  pc : Pc := .sleepObtain
  threadParam : Nat
  -- history: its mutex, and the results of its calls in order
  mutex : Nat
  results : List Bool := []
deriving DecidableEq, Repr

inductive Owner where
  | thread (tid : Nat)
  | caller
deriving DecidableEq, Repr

/-- What the system answers to the next call of a thread; `usleep` is asked with its argument. -/
structure Answer where
  usleep : UInt32 → Bool := fun _ => true
  lockOk : Bool := true
  unlockOk : Bool := true

/-- A thread and its block have the number of the allocation. `fault` is the use of a block that is not there. -/
structure Process where
  heap : Ledger ThreadData := .empty
  threads : Nat → Option Thread := fun _ => none
  mutexes : Nat → Option Owner := fun _ => none
  calls : Nat := 0
  fault : Bool := false

inductive Label where
  | start (mutex : Nat) (waitToObtainMs waitToReleaseMs : Int32) (mallocOk createOk : Bool)
  | run (tid : Nat) (a : Answer)
  | join (tid : Nat)
  | lock (mutex : Nat)
  | unlock (mutex : Nat)

def usPerMs : Int32 := 1000

/-- `try_sleep`. The product wraps around where C leaves its overflow undefined. -/
def trySleep (a : Answer) (ms : Int32) : Bool := a.usleep (ms * usPerMs).toUInt32

/-- The thread goes on behind a call with the result `ok`. -/
def Thread.after (t : Thread) (ok : Bool) (pc : Pc) : Thread :=
  { t with pc := if ok then pc else .store false, results := t.results ++ [ok] }

namespace Process

def setThread (s : Process) (tid : Nat) (t : Thread) : Process :=
  { s with threads := Function.update s.threads tid (some t) }

def setMutex (s : Process) (mutex : Nat) (owner : Option Owner) : Process :=
  { s with mutexes := Function.update s.mutexes mutex owner }

def threadDataCreate (s : Process) (ok : Bool) (waitToObtainMs waitToReleaseMs : Int32) (mutex : Nat) :
    Option Nat × Process :=
  if ok then
    (some s.calls, { s with
      heap := s.heap.alloc s.calls
        { waitToObtainMs := waitToObtainMs
          waitToReleaseMs := waitToReleaseMs
          threadCompleteSuccess := false
          mutex := mutex }
      calls := s.calls + 1 })
  else (none, s)

/-- `start_thread_obtaining_mutex`: the thread it has started, `none` for false. -/
def startThreadObtainingMutex (s : Process) (mutex : Nat) (waitToObtainMs waitToReleaseMs : Int32)
    (mallocOk createOk : Bool) : Option Nat × Process :=
  match s.threadDataCreate mallocOk waitToObtainMs waitToReleaseMs mutex with
  | (none, s) => (none, s)
  | (some data, s) =>
    if createOk then (some data, s.setThread data { threadParam := data, mutex := mutex }) else (none, s)

/-- `threadfunc` up to its next call; a thread that finds its mutex taken stays where it is. -/
def threadfunc (s : Process) (tid : Nat) (t : Thread) (data : ThreadData) (a : Answer) : Process :=
  match t.pc with
  | .sleepObtain => s.setThread tid (t.after (trySleep a data.waitToObtainMs) .lock)
  | .lock =>
    if a.lockOk then
      if s.mutexes data.mutex = none then
        (s.setMutex data.mutex (some (.thread tid))).setThread tid (t.after true .sleepRelease)
      else s
    else s.setThread tid (t.after false .sleepRelease)
  | .sleepRelease => s.setThread tid (t.after (trySleep a data.waitToReleaseMs) .unlock)
  | .unlock =>
    if a.unlockOk then (s.setMutex data.mutex none).setThread tid (t.after true (.store true))
    else s.setThread tid (t.after false (.store true))
  | .store success =>
    { s with heap := s.heap.set t.threadParam (.live { data with threadCompleteSuccess := success }) }.setThread tid
      { t with pc := .exited }
  | .exited => s
  | .joined _ => s

/-- A thread that has been joined is no more; any other runs on its block. -/
def runThread (s : Process) (tid : Nat) (a : Answer) : Process :=
  match s.threads tid with
  | none => s
  | some t =>
    match t.pc with
    | .exited | .joined _ => s
    | _ =>
      match s.heap.get t.threadParam with
      | some data => s.threadfunc tid t data a
      | none => { s with fault := true }

/-- `pthread_join` gives back the block, which is read and freed; it waits for a thread that has not exited. -/
def joinThread (s : Process) (tid : Nat) : Process :=
  match s.threads tid with
  | none => s
  | some t =>
    match t.pc with
    | .exited =>
      match s.heap.get t.threadParam, s.heap.free t.threadParam with
      | some data, some heap =>
        { s with heap := heap }.setThread tid { t with pc := .joined data.threadCompleteSuccess }
      | _, _ => { s with fault := true }
    | _ => s

def step (s : Process) : Label → Process
  | .start mutex waitToObtainMs waitToReleaseMs mallocOk createOk =>
    (s.startThreadObtainingMutex mutex waitToObtainMs waitToReleaseMs mallocOk createOk).2
  | .run tid a => s.runThread tid a
  | .join tid => s.joinThread tid
  | .lock mutex => if s.mutexes mutex = none then s.setMutex mutex (some .caller) else s
  | .unlock mutex => if s.mutexes mutex = some .caller then s.setMutex mutex none else s

abbrev reach (labels : List Label) : Process := run step {} labels

end Process

/-! ## What a step can be -/

/-- A step of `threadfunc` on the block `data`: its result, if it makes a call. -/
inductive ThreadStep (s : Process) (tid : Nat) (t : Thread) (data : ThreadData) : Process → Prop
  | sleepObtain (ok : Bool) (hpc : t.pc = .sleepObtain) : ThreadStep s tid t data (s.setThread tid (t.after ok .lock))
  | lock (hpc : t.pc = .lock) (hfree : s.mutexes data.mutex = none) :
      ThreadStep s tid t data ((s.setMutex data.mutex (some (.thread tid))).setThread tid (t.after true .sleepRelease))
  | lockFails (hpc : t.pc = .lock) : ThreadStep s tid t data (s.setThread tid (t.after false .sleepRelease))
  | sleepRelease (ok : Bool) (hpc : t.pc = .sleepRelease) :
      ThreadStep s tid t data (s.setThread tid (t.after ok .unlock))
  | unlock (hpc : t.pc = .unlock) :
      ThreadStep s tid t data ((s.setMutex data.mutex none).setThread tid (t.after true (.store true)))
  | unlockFails (hpc : t.pc = .unlock) : ThreadStep s tid t data (s.setThread tid (t.after false (.store true)))
  | store (success : Bool) (hpc : t.pc = .store success) :
      ThreadStep s tid t data
        ({ s with heap := s.heap.set t.threadParam (.live { data with threadCompleteSuccess := success }) }.setThread tid
          { t with pc := .exited })

inductive Trans (s : Process) : Label → Process → Prop
  | stay (l : Label) : Trans s l s
  | leak (mutex : Nat) (waitToObtainMs waitToReleaseMs : Int32) (createOk : Bool) (data : ThreadData)
      (hcreate : createOk = false) :
      Trans s (.start mutex waitToObtainMs waitToReleaseMs true createOk)
        { s with heap := s.heap.alloc s.calls data, calls := s.calls + 1 }
  | start (mutex : Nat) (waitToObtainMs waitToReleaseMs : Int32) (createOk : Bool) (data : ThreadData)
      (hmutex : data.mutex = mutex) (hdata : data.threadCompleteSuccess = false) (hcreate : createOk = true) :
      Trans s (.start mutex waitToObtainMs waitToReleaseMs true createOk)
        ({ s with heap := s.heap.alloc s.calls data, calls := s.calls + 1 }.setThread s.calls
          { threadParam := s.calls, mutex := mutex })
  | run (tid : Nat) (a : Answer) (t : Thread) (data : ThreadData) (s' : Process) (ht : s.threads tid = some t)
      (hdata : s.heap.cell t.threadParam = .live data) (hstep : ThreadStep s tid t data s') : Trans s (.run tid a) s'
  | join (tid : Nat) (t : Thread) (data : ThreadData) (ht : s.threads tid = some t) (hpc : t.pc = .exited)
      (hdata : s.heap.cell t.threadParam = .live data) :
      Trans s (.join tid)
        ({ s with heap := s.heap.set t.threadParam .dead }.setThread tid
          { t with pc := .joined data.threadCompleteSuccess })
  | fault (l : Label) (tid : Nat) (t : Thread) (ht : s.threads tid = some t) (hpc : ∀ success, t.pc ≠ .joined success)
      (hdata : s.heap.get t.threadParam = none) : Trans s l { s with fault := true }
  | lock (mutex : Nat) (hfree : s.mutexes mutex = none) : Trans s (.lock mutex) (s.setMutex mutex (some .caller))
  | unlock (mutex : Nat) (howner : s.mutexes mutex = some .caller) : Trans s (.unlock mutex) (s.setMutex mutex none)

/-- A thread that is given its mutex if it asks for it takes its step. -/
theorem threadfunc_moves {s : Process} (tid : Nat) {t : Thread} {data : ThreadData} {a : Answer} (hend : t.pc.ended = false)
    (hfree : t.pc = .lock → a.lockOk = true → s.mutexes data.mutex = none) :
    ThreadStep s tid t data (s.threadfunc tid t data a) := by
  unfold Process.threadfunc
  cases h : t.pc with
  | sleepObtain => exact .sleepObtain _ h
  | lock =>
      dsimp only
      split_ifs with hok hm
      · exact .lock h hm
      · exact absurd (hfree h hok) hm
      · exact .lockFails h
  | sleepRelease => exact .sleepRelease _ h
  | unlock =>
      dsimp only
      split_ifs with hok
      · exact .unlock h
      · exact .unlockFails h
  | store success => exact .store success h
  | exited => simp [h, Pc.ended] at hend
  | joined success => simp [h, Pc.ended] at hend

theorem threadfunc_step (s : Process) (tid : Nat) {t : Thread} (data : ThreadData) (a : Answer)
    (hend : t.pc.ended = false) :
    s.threadfunc tid t data a = s ∨ ThreadStep s tid t data (s.threadfunc tid t data a) := by
  by_cases hfree : t.pc = .lock → a.lockOk = true → s.mutexes data.mutex = none
  · exact Or.inr (threadfunc_moves tid hend hfree)
  · simp only [Classical.not_imp] at hfree
    obtain ⟨hpc, hok, htaken⟩ := hfree
    left
    simp only [Process.threadfunc, hpc, hok, if_true, if_neg htaken]

/-- **All that a step can be.** -/
theorem step_trans (s : Process) (l : Label) : Trans s l (s.step l) := by
  cases l with
  | start mutex obtain_ms release_ms mallocOk createOk =>
      simp only [Process.step, Process.startThreadObtainingMutex, Process.threadDataCreate]
      cases mallocOk with
      | false => exact .stay _
      | true =>
          simp only [if_true]
          split_ifs with hcreate
          · exact .start mutex _ _ createOk _ rfl rfl hcreate
          · exact .leak mutex _ _ createOk _ (by simpa using hcreate)
  | run tid a =>
      simp only [Process.step, Process.runThread]
      cases ht : s.threads tid with
      | none => exact .stay _
      | some t =>
          have hrun : ∀ x, t.pc.ended = false →
              x = (match s.heap.get t.threadParam with
                | some data => s.threadfunc tid t data a
                | none => { s with fault := true }) → Trans s (.run tid a) x := by
            rintro x hend rfl
            cases hget : s.heap.get t.threadParam with
            | none =>
                refine .fault _ tid t ht (fun success hpc => ?_) hget
                rw [hpc] at hend
                cases hend
            | some data =>
                rcases threadfunc_step s tid data a hend with hsame | hstep
                · simp only [hsame]
                  exact .stay _
                · exact .run tid a t data _ ht (Ledger.get_eq_some.mp hget) hstep
          cases hpc : t.pc with
          | exited => simpa only [hpc] using .stay _
          | joined success => simpa only [hpc] using .stay _
          | _ => exact hrun _ (by rw [hpc]; rfl) (by simp only [hpc])
  | join tid =>
      simp only [Process.step, Process.joinThread]
      cases ht : s.threads tid with
      | none => exact .stay _
      | some t =>
          cases hpc : t.pc with
          | exited =>
              dsimp only
              rw [hpc]
              cases hget : s.heap.get t.threadParam with
              | none => exact .fault _ tid t ht (by simp [hpc]) hget
              | some data =>
                  have hlive := Ledger.get_eq_some.mp hget
                  rw [Ledger.free_of_live hlive]
                  exact .join tid t data ht hpc hlive
          | _ => simpa only [hpc] using .stay _
  | lock mutex =>
      simp only [Process.step]
      split_ifs with hfree
      · exact .lock mutex hfree
      · exact .stay _
  | unlock mutex =>
      simp only [Process.step]
      split_ifs with howner
      · exact .unlock mutex howner
      · exact .stay _

end Aesd.Threading
