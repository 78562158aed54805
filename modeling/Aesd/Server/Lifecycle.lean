import Aesd.Server.Holdings

/-!
# The life of a connection

* `Holding.Advances`, `ServerInv.threadStep` : what a step of another thread does to what is held, and that it keeps the
  invariant;
* `ServerStep`, `ServerInv.step` : every step of the server keeps it in which a worker can be started;
* `Kept` : a call of `accept_client` that fails leaves the list as it was;
* `lifecycle_iff` : so those runs, and no others, never use what is not there and leave nothing behind.
-/

namespace Aesd.Server
open Driver Lib

/-! ## Steps of the other threads -/

/-- What is held under an id while other threads step: the same, or the thread exits and closes its connection. -/
def Holding.Advances (h h' : Holding) : Prop := h' = h ∨ ∃ k, h = .started k false ∧ h' = .started k true

namespace Holding.Advances
variable {h h' : Holding} {k : Nat}

theorem eq_of (ha : h.Advances h') (hx : h.exited ≠ some false) : h' = h := by
  rcases ha with rfl | ⟨k, rfl, -⟩
  · rfl
  · exact absurd rfl hx

theorem settled (ha : h.Advances h') (hs : h.Settled) : h'.Settled := by
  rw [ha.eq_of hs.exited]
  exact hs

theorem started {exited : Bool} (ha : h.Advances h') (hs : h = .started k exited) :
    ∃ exited', h' = .started k exited' ∧ (exited = true → exited' = true) := by
  rcases ha with rfl | ⟨j, hj, rfl⟩
  · exact ⟨exited, hs, fun hx => hx⟩
  · rw [hj] at hs
    have hentry := congrArg Holding.entry hs
    simp only [Holding.started, Cell.live.injEq, Prod.mk.injEq] at hentry
    exact ⟨true, by rw [hentry.2], fun _ => rfl⟩

end Holding.Advances

namespace ServerInv
variable {c : Config} {s s' : AesdServer} {l : List Nat} {i : Nat}

theorem exited_eq (s : AesdServer) (k : Nat) : s.exited k = (s.holding k).exited.getD false := by
  unfold AesdServer.exited AesdServer.holding
  dsimp only
  cases s.sys.workers k <;> simp

theorem exited_mono (hadv : ∀ j, (s.holding j).Advances (s'.holding j)) {k : Nat} (hx : s.exited k = true) :
    s'.exited k = true := by
  rw [exited_eq] at hx ⊢
  rcases hadv k with heq | ⟨j, hj, hj'⟩
  · rw [heq]
    exact hx
  · rw [hj']
    rfl

theorem pcInv_advance (hcalls : s'.calls = s.calls) (hadv : ∀ j, (s.holding j).Advances (s'.holding j)) {pc : MainPc}
    (h : PcInv s l pc) : PcInv s' l pc := by
  have hstage : ∀ {k : Nat} {stage : Holding}, stage.exited ≠ some false → s.holding k = stage → s'.holding k = stage :=
    fun hx hold => ((hadv _).eq_of (hold ▸ hx)).trans hold
  have hstarted : ∀ {k : Nat}, (∃ exited, s.holding k = .started k exited) → ∃ exited, s'.holding k = .started k exited :=
    fun ⟨_, hold⟩ => ((hadv _).started hold).imp fun _ hx => hx.1
  cases pc with
  | newWorker k => exact ⟨h.1, (called_iff hcalls k).mpr h.2.1, hstage (by simp [Holding.fresh]) h.2.2⟩
  | newBuf k => exact ⟨h.1, (called_iff hcalls k).mpr h.2.1, hstage (by simp [Holding.withWorker]) h.2.2⟩
  | accept k => exact ⟨h.1, (called_iff hcalls k).mpr h.2.1, hstage (by simp [Holding.withBuf]) h.2.2⟩
  | newEntry k => exact ⟨h.1, (called_iff hcalls k).mpr h.2.1, hstage (by simp [Holding.withFd, Holding.withBuf]) h.2.2⟩
  | start entry =>
      cases entry with
      | none => exact h
      | some k =>
          exact ⟨h.1, (called_iff hcalls k).mpr h.2.1,
            hstage (by simp [Holding.withEntry, Holding.withFd, Holding.withBuf]) h.2.2⟩
  | insert k => exact ⟨h.1, (called_iff hcalls k).mpr h.2.1, hstarted h.2.2⟩
  | remove walk e temp =>
      obtain ⟨kept, rest, hl, htemp, hkept, hx⟩ := h
      exact ⟨kept, rest, hl, htemp, hkept, fun hc => exited_mono hadv (hx hc)⟩
  | join walk e temp =>
      obtain ⟨kept, rest, hl, htemp, hkept, hnot, hek, hold, hx⟩ := h
      exact ⟨kept, rest, hl, htemp, hkept, hnot, (called_iff hcalls _).mpr hek, hstarted hold,
        fun hc => exited_mono hadv (hx hc)⟩
  | delete walk e temp =>
      obtain ⟨kept, rest, hl, htemp, hkept, hnot, hek, hold⟩ := h
      exact ⟨kept, rest, hl, htemp, hkept, hnot, (called_iff hcalls _).mpr hek,
        hstage (by simp [Holding.joined, Holding.started]) hold⟩
  | _ => exact h

theorem advance (h : ServerInv s l) (hmain : s'.main = s.main) (hcalls : s'.calls = s.calls) (hhead : s'.head = s.head)
    (hentries : s'.entries = s.entries) (hadv : ∀ j, (s.holding j).Advances (s'.holding j)) : ServerInv s' l where
  chain := by
    rw [hhead, hentries]
    exact h.chain
  nodup := h.nodup
  numbers := hcalls ▸ h.numbers
  listed k hk := by
    obtain ⟨hlt, exited, hold⟩ := h.listed k hk
    obtain ⟨exited', hold', -⟩ := (hadv k).started hold
    exact ⟨(called_iff hcalls _).mpr hlt, exited', hold'⟩
  future k hk := by
    have hfresh := h.future k (by rwa [called_iff hcalls] at hk)
    rw [(hadv k).eq_of (by rw [hfresh]; simp [Holding.fresh]), hfresh]
  rest k hk hcur := (hadv k).settled (h.rest k hk (by rw [← hmain]; exact hcur))
  pc := by
    rw [hmain]
    exact pcInv_advance hcalls hadv h.pc

/-- A thread that has not exited is one that was started, with its worker, its buffer and its connection. -/
theorem started_of_running (h : ServerInv s l) (hx : (s.holding i).exited = some false) :
    s.holding i = .started i false := by
  have hstarted : (∃ exited, s.holding i = .started i exited) → s.holding i = .started i false := by
    rintro ⟨exited, hold⟩
    rw [hold] at hx ⊢
    rw [show exited = false from Option.some.inj hx]
  have hother : ∀ {stage : Holding}, stage.exited ≠ some false → s.holding i = stage → s.holding i = .started i false :=
    fun hne hold => absurd (hold ▸ hx) hne
  by_cases hl : i ∈ l
  · exact hstarted (h.listed i hl).2
  · by_cases hcur : s.main.current = some i
    · have hpc := h.pc
      cases hm : s.main <;> rw [hm] at hpc hcur <;> simp only [MainPc.current, Option.some.injEq, reduceCtorEq] at hcur
      case newWorker =>
        subst hcur
        exact hother (by simp [Holding.fresh]) hpc.2.2
      case newBuf =>
        subst hcur
        exact hother (by simp [Holding.withWorker]) hpc.2.2
      case accept =>
        subst hcur
        exact hother (by simp [Holding.withBuf]) hpc.2.2
      case newEntry =>
        subst hcur
        exact hother (by simp [Holding.withFd, Holding.withBuf]) hpc.2.2
      case start =>
        subst hcur
        exact hother (by simp [Holding.withEntry, Holding.withFd, Holding.withBuf]) hpc.2.2
      case insert =>
        subst hcur
        exact hstarted hpc.2.2
      case join =>
        subst hcur
        obtain ⟨-, -, -, -, -, -, -, hold, -⟩ := hpc
        exact hstarted hold
      case delete =>
        subst hcur
        obtain ⟨-, -, -, -, -, -, -, hold⟩ := hpc
        exact hother (by simp [Holding.joined, Holding.started]) hold
    · exact absurd hx (h.rest i hl hcur).exited

end ServerInv

section Threads
variable {c : Config} {sys : System} {i : Nat} {a : Answer} {w : Worker}

theorem alarm_workers (c : Config) (sys : System) (i : Nat) (text : List Byte) :
    (sys.step c (.alarm i text)).workers = sys.workers := by
  simp only [System.step]
  split <;> rfl

/-- A step of a thread is a step of no other worker. -/
theorem run_workers_of_ne (c : Config) (sys : System) (a : Answer) {i j : Nat} (hj : j ≠ i) :
    (sys.step c (.run i a)).workers j = sys.workers j := by
  have ht := step_trans c sys (.run i a)
  generalize sys.step c (.run i a) = sys' at ht
  cases ht with
  | stay => rfl
  | handler i a p p' out lock order hp hexec hlock => rfl
  | code i a w w' out lock order hh hw hexec hlock => exact Function.update_of_ne hj ..

theorem run_closeClient (hh : sys.handlers i = none) (hw : sys.workers i = some w) (hpc : w.pc = .closeClient) :
    (sys.step c (.run i a)).workers i = some { w with pc := .exited } := by
  simp [System.step, hh, hw, System.stepCode, Worker.exec, hpc, WorkerPc.lockOp]

theorem run_exited (hw : sys.workers i = some w) (hpc : w.pc ≠ .closeClient) (hx : w.pc ≠ .exited) :
    ∃ w', (sys.step c (.run i a)).workers i = some w' ∧ w'.pc ≠ .exited := by
  rcases (step_trans c sys (.run i a)).worker hw with hsame | hflag | ⟨b, w', out, -, -, hexec, hw'⟩
  · exact ⟨w, hsame, hx⟩
  · exact ⟨_, hflag, hx⟩
  · refine ⟨w', hw', fun hx' => ?_⟩
    rcases (Worker.exec_next hexec).1.of_exited hx' with h | h
    · exact hpc h
    · exact hx h

end Threads

namespace ServerInv
variable {c : Config} {s : AesdServer} {l : List Nat}

theorem sysStep (h : ServerInv s l) {sys : System} (hw : sys.workers = s.sys.workers) :
    ServerInv { s with sys := sys } l := by
  refine h.advance rfl rfl rfl rfl fun j => Or.inl (Holding.ext rfl rfl rfl rfl rfl ?_)
  simp only [AesdServer.holding, hw]

theorem runStep (h : ServerInv s l) {i : Nat} {a : Answer} {w : Worker} (hh : s.sys.handlers i = none)
    (hw : s.sys.workers i = some w) (hx : w.pc ≠ .exited) :
    ∃ s', s.threadStep c (.run i a) = .ok s' ∧ ServerInv s' l := by
  have hold : s.holding i = .started i false := by
    apply h.started_of_running
    simp [AesdServer.holding, hw, hx]
  obtain ⟨hmem, hbuf, hfd, hentry, hthread, -⟩ := Holding.ext_iff.mp hold
  have hmem : s.workers.cell i = .live { buf := some i, clientFd := some i } := hmem
  have hbuf : s.bufs.cell i = .live () := hbuf
  have hfd : s.fds.cell i = .live () := hfd
  have hother : ∀ {fds : Ledger Unit}, (∀ j ≠ i, fds.cell j = s.fds.cell j) → ∀ j ≠ i,
      ({ s with sys := s.sys.step c (.run i a), fds := fds } : AesdServer).holding j = s.holding j := by
    intro fds hfds j hj
    refine Holding.ext rfl rfl (hfds j hj) rfl rfl ?_
    simp only [AesdServer.holding, run_workers_of_ne c s.sys a hj]
  simp only [AesdServer.threadStep, hh, hw, hx, if_false, Ledger.get_eq_some.mpr hmem, Option.bind_some,
    Ledger.get_eq_some.mpr hbuf, deref, bind, Except.bind]
  by_cases hpc : w.pc = .closeClient
  · simp only [hpc, Ledger.free_of_live hfd, giveBack]
    refine ⟨_, rfl, h.advance rfl rfl rfl rfl fun j => ?_⟩
    by_cases hj : j = i
    · subst hj
      refine Or.inr ⟨j, hold, Holding.ext hmem hbuf (Ledger.cell_set_self _) hentry hthread ?_⟩
      simp only [AesdServer.holding, run_closeClient hh hw hpc]
      rfl
    · exact Or.inl (hother (fun j hj => Ledger.cell_set_of_ne _ hj) j hj)
  · obtain ⟨w', hw', hx'⟩ := run_exited (c := c) (a := a) hw hpc hx
    refine ⟨{ s with sys := s.sys.step c (.run i a) }, ?_, h.advance rfl rfl rfl rfl fun j => Or.inl ?_⟩
    · cases hp : w.pc <;> first | rfl | exact absurd hp hpc
    · by_cases hj : j = i
      · subst hj
        refine Holding.ext rfl rfl rfl rfl rfl ?_
        simp [AesdServer.holding, hw, hw', hx, hx']
      · exact hother (fun _ _ => rfl) j hj

/-- **Every step of another thread.** -/
theorem threadStep (h : ServerInv s l) (lab : Label) : ∃ s', s.threadStep c lab = .ok s' ∧ ServerInv s' l := by
  cases lab with
  | spawn i => exact ⟨s, rfl, h⟩
  | shutdown i => exact ⟨s, rfl, h⟩
  | alarm i text => exact ⟨_, rfl, h.sysStep (alarm_workers c s.sys i text)⟩
  | run i a =>
      have hidle : s.sys.handlers i ≠ none ∨ s.sys.workers i = none →
          (s.sys.step c (.run i a)).workers = s.sys.workers := by
        intro hidle
        have ht := step_trans c s.sys (.run i a)
        generalize s.sys.step c (.run i a) = sys' at ht
        cases ht with
        | stay => rfl
        | handler i a p p' out lock order hp hexec hlock => rfl
        | code i a w w' out lock order hh hw hexec hlock => simp [hh, hw] at hidle
      cases hh : s.sys.handlers i with
      | some p =>
          refine ⟨{ s with sys := s.sys.step c (.run i a) }, by simp only [AesdServer.threadStep, hh], ?_⟩
          exact h.sysStep (hidle (Or.inl (by simp [hh])))
      | none =>
          cases hw : s.sys.workers i with
          | none =>
              refine ⟨{ s with sys := s.sys.step c (.run i a) }, by simp only [AesdServer.threadStep, hh, hw], ?_⟩
              exact h.sysStep (hidle (Or.inr hw))
          | some w =>
              by_cases hx : w.pc = .exited
              · exact ⟨s, by simp only [AesdServer.threadStep, hh, hw, hx, if_true], h⟩
              · exact h.runStep hh hw hx

end ServerInv

/-! ## Steps of the server -/

/-- What a step of another thread does to the system. -/
inductive ThreadTrans (c : Config) (sys : System) : System → Prop
  | stay : ThreadTrans c sys sys
  | alarm (i : Nat) (text : List Byte) : ThreadTrans c sys (sys.step c (.alarm i text))
  | run (i : Nat) (a : Answer) : ThreadTrans c sys (sys.step c (.run i a))

/-- A step of another thread is one of the system, and may close a connection. -/
theorem threadStep_ok {c : Config} {s s' : AesdServer} {lab : Label} (h : s.threadStep c lab = .ok s') :
    ∃ sys fds, s' = { s with sys := sys, fds := fds } ∧ ThreadTrans c s.sys sys := by
  cases lab with
  | spawn i =>
      cases h
      exact ⟨s.sys, s.fds, rfl, .stay⟩
  | shutdown i =>
      cases h
      exact ⟨s.sys, s.fds, rfl, .stay⟩
  | alarm i text =>
      cases h
      exact ⟨_, s.fds, rfl, .alarm i text⟩
  | run i a =>
      unfold AesdServer.threadStep at h
      dsimp only at h
      split at h
      · split_ifs at h
        · cases h
          exact ⟨s.sys, s.fds, rfl, .stay⟩
        · obtain ⟨self, -, h⟩ := bind_ok h
          obtain ⟨buf, -, h⟩ := bind_ok h
          split at h
          · obtain ⟨fds, -, h⟩ := bind_ok h
            cases h
            exact ⟨_, fds, rfl, .run i a⟩
          · cases h
            exact ⟨_, s.fds, rfl, .run i a⟩
      · cases h
        exact ⟨_, s.fds, rfl, .run i a⟩

/-- A step of the server from a state with the list `l` that keeps the invariant. -/
inductive ServerStep (c : Config) (s : AesdServer) (l : List Nat) : Act → AesdServer → Prop
  | main (ok : Bool) (s' : AesdServer) (hruns : s.MainRuns) (hstep : s.mainStep c ok = .ok s') (ht : MainTrans c s s')
      (h' : ServerInv s' (s.main.listAfter l)) : ServerStep c s l (.main ok) s'
  -- a handler runs on top of the main thread
  | held (ok : Bool) (hheld : ¬ s.MainRuns) : ServerStep c s l (.main ok) s
  | thread (lab : Label) (sys : System) (fds : Ledger Unit) (ht : ThreadTrans c s.sys sys)
      (h' : ServerInv { s with sys := sys, fds := fds } l) :
      ServerStep c s l (.thread lab) { s with sys := sys, fds := fds }
  | signal (h' : ServerInv { s with running := false, signalled := true } l) :
      ServerStep c s l .signal { s with running := false, signalled := true }

/-- **A step of the server** in which the allocation of the entry and `pthread_create` succeed. -/
theorem ServerInv.step {c : Config} {s : AesdServer} {l : List Nat} {act : Act} (h : ServerInv s l)
    (hcrash : s.crash = none) (hs : StartsWorker s act) : ServerStep c s l act (s.step c act) := by
  unfold AesdServer.step
  rw [if_pos hcrash]
  cases act with
  | main ok =>
      dsimp only
      split_ifs with hruns
      · obtain ⟨s', hstep, h'⟩ := h.mainStep (c := c) (hs hruns)
        simp only [hstep, AesdServer.after]
        exact .main ok s' hruns hstep (mainStep_trans hstep) h'
      · exact .held ok hruns
  | thread lab =>
      obtain ⟨s', hstep, h'⟩ := h.threadStep (c := c) lab
      obtain ⟨sys, fds, rfl, ht⟩ := threadStep_ok hstep
      simp only [hstep, AesdServer.after]
      exact .thread lab sys fds ht h'
  | signal => exact .signal (h.keep rfl rfl rfl (fun _ => rfl) rfl h.pc)

/-! ## Runs -/

/-- The main thread is inside `accept_client`, and the entry is not in the list. -/
def MainPc.accepting : MainPc → Bool
  | .newWorker _ | .newBuf _ | .accept _ | .newEntry _ | .start _ => true
  | _ => false

/-- While `accept_client` runs, and when it has returned false, the list is what it was at the call. -/
structure Kept (s : AesdServer) : Prop where
  refused : s.refused = true → s.main = .loopTest
  list : s.refused = true ∨ s.main.accepting = true → s.list = s.before

section Kept
variable {c : Config} {s s' : AesdServer}

theorem Builds.accepting {pc pc' : MainPc} (h : Builds pc pc') : pc.accepting = true ∧ pc'.accepting = true := by
  cases h <;> exact ⟨rfl, rfl⟩

theorem listAfter_of_accepting {pc : MainPc} (h : pc.accepting = true) (l : List Nat) : pc.listAfter l = l := by
  cases pc <;> first | rfl | cases h

theorem GivesUp.accepting {pc : MainPc} (h : GivesUp pc) : pc.accepting = true := by
  cases h <;> rfl

namespace Kept

theorem not_refused (hk : Kept s) (hpc : s.main ≠ .loopTest) : s.refused = false := by
  by_contra hr
  exact hpc (hk.refused (by simpa using hr))

theorem of_idle (hr : s.refused = false) (hpc : s.main.accepting = false) : Kept s where
  refused h := by
    rw [hr] at h
    cases h
  list h := by simp [hr, hpc] at h

theorem mainStep (hk : Kept s) (ht : MainTrans c s s') (hlist : s'.list = s.main.listAfter s.list) : Kept s' := by
  have hidle : ∀ {pc : MainPc}, s.main = pc → pc ≠ .loopTest → s'.refused = s.refused → s'.main.accepting = false →
      Kept s' := fun hpc hne hr hacc => of_idle (hr.trans (hk.not_refused (by rw [hpc]; exact hne))) hacc
  have hbefore : s.main.accepting = true → s'.list = s.before := by
    intro hacc
    rw [hlist, listAfter_of_accepting hacc]
    exact hk.list (Or.inr hacc)
  cases ht with
  | serverInit hpc => exact hidle hpc (by simp) rfl rfl
  | bound hpc => exact hidle hpc (by simp) rfl rfl
  | listening hpc => exact hidle hpc (by simp) rfl rfl
  | failed hpc =>
      rcases hpc with hpc | hpc
      · exact hidle hpc (by simp) rfl rfl
      · exact hidle hpc (by simp) rfl rfl
  | setRunning hpc => exact hidle hpc (by simp) rfl rfl
  | again hpc hrun => exact of_idle rfl rfl
  | call hpc =>
      refine ⟨fun h => ?_, fun _ => by rw [hlist, hpc]; rfl⟩
      exact absurd h (by simpa using hk.not_refused (by simp [hpc]))
  | leave hpc hrun => exact of_idle rfl rfl
  | build pc workers bufs fds entries hpc =>
      obtain ⟨hacc, hacc'⟩ := hpc.accepting
      have hne : s.main ≠ .loopTest := by
        intro hm
        rw [hm] at hacc
        cases hacc
      refine ⟨fun h => ?_, fun _ => hbefore hacc⟩
      exact absurd h (by simpa using hk.not_refused hne)
  | refuse workers bufs hpc =>
      exact ⟨fun _ => rfl, fun _ => hbefore hpc.accepting⟩
  | start e worker entries threads hpc => exact hidle hpc (by simp) rfl rfl
  | insert e entries head hpc => exact hidle hpc (by simp) rfl rfl
  | closeServer hpc => exact hidle hpc (by simp) rfl rfl
  | checked hpc => exact hidle hpc (by simp) rfl rfl
  | stopped hpc => exact hidle hpc (by simp) rfl rfl
  | check e entry hpc hentry => exact hidle hpc (by simp) rfl (by dsimp only; split_ifs <;> rfl)
  | stop e entry hpc hentry => exact hidle hpc (by simp) rfl rfl
  | remove walk e temp head entries hpc => exact hidle hpc (by simp) rfl rfl
  | join walk e temp entry tid threads hpc hentry htid hexited => exact hidle hpc (by simp) rfl rfl
  | wait walk e temp entry tid hpc hentry htid hexited => exact hk
  | delete walk e temp workers bufs entries hpc => exact hidle hpc (by simp) rfl rfl
  | finish hpc => exact hidle hpc (by simp) rfl rfl
  | returned hpc => exact hk

end Kept

end Kept

/-- The state of a run in which nothing went wrong. -/
structure Sound (s : AesdServer) : Prop where
  crash : s.crash = none
  inv : ∃ l, ServerInv s l
  kept : Kept s

section Run
variable {c : Config} {s : AesdServer} {act : Act}

theorem Sound.init (out : Output) : Sound (AesdServer.init out) :=
  ⟨rfl, ⟨[], .init out⟩, .of_idle rfl rfl⟩

theorem Sound.trans (h : Sound s) (hs : StartsWorker s act) : ∃ l, ServerInv s l ∧ ServerStep c s l act (s.step c act) :=
  h.inv.imp fun _ hl => ⟨hl, hl.step h.crash hs⟩

theorem Sound.step (h : Sound s) (hs : StartsWorker s act) : Sound (s.step c act) := by
  obtain ⟨l, hl, ht⟩ := h.trans (c := c) hs
  generalize s.step c act = s' at ht
  cases ht with
  | main ok s' hruns hstep ht h' =>
      exact ⟨ht.crash.trans h.crash, ⟨_, h'⟩, h.kept.mainStep ht (by rw [h'.list_eq, hl.list_eq])⟩
  | held ok hheld => exact h
  | thread lab sys fds ht h' => exact ⟨h.crash, ⟨l, h'⟩, h.kept.refused, h.kept.list⟩
  | signal h' => exact ⟨h.crash, ⟨l, h'⟩, h.kept.refused, h.kept.list⟩

/-- The main thread has misused a pointer, or is about to: the entry it goes on with is `NULL`. -/
def Doomed (s : AesdServer) : Prop := s.crash ≠ none ∨ s.main = .start none

theorem Doomed.step (h : Doomed s) : Doomed (s.step c act) := by
  by_cases hcrash : s.crash = none
  · have hpc := h.resolve_left (fun hne => hne hcrash)
    cases act with
    | main ok =>
        by_cases hruns : s.MainRuns
        · left
          rw [step_main hcrash hruns]
          simp [AesdServer.mainStep, hpc, AesdServer.workerEntryStart, AesdServer.after]
        · rw [step_held hruns]
          exact h
    | thread lab =>
        rw [AesdServer.step, if_pos hcrash]
        cases hstep : s.threadStep c lab with
        | error e => exact Or.inl (by simp [AesdServer.after])
        | ok s' =>
            obtain ⟨sys, fds, rfl, -⟩ := threadStep_ok hstep
            exact Or.inr hpc
    | signal =>
        rw [AesdServer.step, if_pos hcrash]
        exact Or.inr hpc
  · rw [step_crashed hcrash]
    exact h

theorem startsWorker_cases {pc : MainPc} (h : pc.startsWorker = true) :
    (∃ k, pc = .newEntry k) ∨ ∃ entry, pc = .start entry := by
  unfold MainPc.startsWorker at h
  split at h
  · exact Or.inl ⟨_, rfl⟩
  · exact Or.inr ⟨_, rfl⟩
  · cases h

/-- If the allocation of the entry fails, or `pthread_create`, the main thread goes on with a null pointer. -/
theorem doomed_of_fails (hs : ¬ StartsWorker s act) : Doomed (s.step c act) := by
  by_cases hcrash : s.crash = none
  · cases act with
    | thread lab => exact absurd trivial hs
    | signal => exact absurd trivial hs
    | main ok =>
        simp only [StartsWorker, not_forall] at hs
        obtain ⟨hruns, hpc, hok⟩ := hs
        obtain rfl : ok = false := by simpa using hok
        rw [step_main hcrash hruns]
        rcases startsWorker_cases hpc with ⟨k, hpc⟩ | ⟨entry, hpc⟩
        · exact Or.inr (by simp [AesdServer.mainStep, hpc, AesdServer.after])
        · left
          cases entry with
          | none => simp [AesdServer.mainStep, hpc, AesdServer.workerEntryStart, AesdServer.after]
          | some e =>
              cases hget : s.entries.get e <;>
                simp [AesdServer.mainStep, hpc, AesdServer.workerEntryStart, AesdServer.after, hget, deref, bind,
                  Except.bind]
  · rw [step_crashed hcrash]
    exact Or.inl hcrash

/-- A run to a state in which the main thread goes on started every worker. -/
theorem along_of_not_doomed {out : Output} {acts : List Act}
    (h : ¬ Doomed (AesdServer.reach c out acts)) :
    Along (AesdServer.step c) StartsWorker (AesdServer.init out) acts := by
  have hor : Along (AesdServer.step c) StartsWorker (AesdServer.init out) acts ∨
      Doomed (AesdServer.reach c out acts) :=
    along_or (I := fun _ => True) (fun _ _ _ => trivial) (fun _ _ _ hs => doomed_of_fails hs) (fun _ _ hd => hd.step)
      trivial acts
  exact hor.resolve_right h

end Run

/-- What the server owes for its connections and workers. -/
structure LifeCycle (s : AesdServer) : Prop where
  -- no pointer that is NULL or to something freed was used, and nothing was given back twice
  crash : s.crash = none
  -- a client whose setup failed left the worker list as it was
  refused : s.refused = true → s.list = s.before
  -- when the server has shut down, every connection, thread, worker, buffer and entry was given back
  settled : s.main = .done → ∀ k, (s.holding k).Settled

theorem Sound.lifeCycle {s : AesdServer} (h : Sound s) : LifeCycle s where
  crash := h.crash
  refused hr := h.kept.list (Or.inl hr)
  settled hpc k := by
    obtain ⟨l, hl⟩ := h.inv
    have hnil : l = [] := hl.pcInv hpc
    refine hl.rest k (by simp [hnil]) ?_
    rw [hpc]
    simp [MainPc.current]

/-- **When the server keeps its books**: in every run, of any length and with any outcome of each call, it misuses no
pointer, holds no null entry, gives back everything exactly once and undoes a failed setup, if and only if in every call
of `accept_client` the allocation of the list entry and `pthread_create` succeed. -/
theorem lifecycle_iff (c : Config) (out : Output) (acts : List Act) :
    (LifeCycle (AesdServer.reach c out acts) ∧ (AesdServer.reach c out acts).main ≠ .start none) ↔
      Along (AesdServer.step c) StartsWorker (AesdServer.init out) acts := by
  constructor
  · rintro ⟨hlife, hpc⟩
    apply along_of_not_doomed
    rintro (hcrash | hnull)
    · exact hcrash hlife.crash
    · exact hpc hnull
  · intro ha
    have hsound : Sound (AesdServer.reach c out acts) := ha.invariant (fun _ _ h hs => h.step hs) (.init out)
    refine ⟨hsound.lifeCycle, fun hpc => ?_⟩
    obtain ⟨l, hl⟩ := hsound.inv
    exact hl.pcInv hpc

def mainSteps (n : Nat) : List Act := List.replicate n (.main true)

theorem mainSteps_add (m n : Nat) : mainSteps (m + n) = mainSteps m ++ mainSteps n := List.replicate_add ..

def threadSteps (i n : Nat) : List Act := List.replicate n (.thread (.run i {}))

/-- A client is accepted and the next one refused; then a signal ends the server. -/
def refusedClient : List Act :=
  mainSteps 16 ++ [.main false, .signal] ++ mainSteps 4 ++ threadSteps 1 7 ++ mainSteps 4

theorem lifecycle_iff_refused_client :
    (AesdServer.reach .aesdsocket (.file []) refusedClient).main = .done ∧
      (LifeCycle (AesdServer.reach .aesdsocket (.file []) refusedClient) ∧
        (AesdServer.reach .aesdsocket (.file []) refusedClient).main ≠ .start none) :=
  ⟨by decide +kernel, (lifecycle_iff .aesdsocket (.file []) refusedClient).mpr (by decide +kernel)⟩

/-- The entry of the first client cannot be allocated: `aesd_worker_entry_start` is called with `NULL`. -/
theorem null_entry_started :
    ¬ ∀ (c : Config) (out : Output) (acts : List Act), LifeCycle (AesdServer.reach c out acts) := by
  intro hall
  have hcrash := (hall .aesdsocket (.file []) (mainSteps 9 ++ [.main false, .main true])).crash
  exact absurd hcrash (by decide +kernel)

end Aesd.Server
