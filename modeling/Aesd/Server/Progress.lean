import Aesd.Driver.Ownership
import Aesd.Lib.Fair
import Aesd.Server.FileMode
import Aesd.Server.Packets

/-!
# Every client is served

The workers and the alarm handlers wait for one lock, and a worker keeps it while it waits for its client. No thread is
stuck for good, as long as every client ends its packet or its connection fails, and no `SIGALRM` hits the holder. A `send`
on a connection that was reset may raise `SIGPIPE`, which nobody handles: then the process is gone, and no client is served.

* `Output.Healthy` : a device that has not lost its pending buffer, so that no call on it misuses memory;
* `Worker.exec_left`, `AlarmPc.exec_left` : a step of a thread lowers what is left of its code;
* `CanGo`, `Live.exists_canGo` : some thread can take its next step, until all are at their end;
* `clients_are_served` : under every fair schedule all threads come to their end.
-/

namespace Aesd.Server
open Driver Lib

/-! ## The output -/

/-- A device that has not lost its pending buffer. -/
def Output.Healthy (K : Kernel) : Output → Prop
  | .file _ => True
  | .device dev => ∃ items data, Inv K dev items ∧ dev.pending = some data

namespace Output.Healthy
variable {K : Kernel} {out : Output}

theorem sound (h : out.Healthy K) : out.Sound K := by
  cases out with
  | file content => trivial
  | device dev =>
      obtain ⟨items, -, hinv, -⟩ := h
      exact ⟨items, hinv⟩

theorem write (h : out.Healthy K) {buf : List Byte} (hne : buf ≠ []) (hle : buf.length ≤ K.rwMax) {a : Answer}
    (hcopy : ∀ dev, out = .device dev → a.writeDev.copyFromUser = true) :
    ∃ ok out', out.write K buf a = .ok (ok, out') ∧ out'.Healthy K := by
  cases out with
  | file content =>
      cases ha : a.write with
      | fails => exact ⟨false, .file content, by simp only [Output.write, ha], trivial⟩
      | _ => exact ⟨true, .file _, by simp only [Output.write, ha]; rfl, trivial⟩
  | device dev =>
      obtain ⟨items, data, hinv, hpend⟩ := h
      have hcount : 1 ≤ (Call.write 0 (K.clamp buf) a.writeDev).count := by
        rw [Call.count, K.clamp_of_le hle]
        exact List.length_pos_iff.mpr hne
      obtain ⟨r, s', hcall, data', hpend'⟩ := applyCall_keeps (s := ⟨dev, fun _ => 0⟩) hinv hpend hcount
        fun _ _ _ => hcopy dev rfl
      obtain ⟨⟨result, dev'⟩, hwrite, hret⟩ := bind_ok hcall
      cases hret
      obtain ⟨items', hinv'⟩ := hinv.aesdWrite hwrite
      refine ⟨decide (0 ≤ result), .device dev', ?_, items', data', hinv', hpend'⟩
      simp only [Output.write, hwrite]
      rfl

theorem read (h : out.Healthy K) (fpos count : Nat) (a : Answer) : ∃ x, out.read K fpos count a = .ok x := by
  cases out with
  | file content => cases ha : a.read <;> exact ⟨_, by simp only [Output.read, ha]; rfl⟩
  | device dev =>
      obtain ⟨items, -, hinv, -⟩ := h
      obtain ⟨ret, hread⟩ := aesdRead_total hinv fpos count a.readDev
      exact ⟨_, by simp only [Output.read, hread]; rfl⟩

end Output.Healthy

/-! ## A worker -/

/-- What a worker passes to `write` is not empty and fits into one call. -/
def Worker.Fits (c : Config) (w : Worker) : Prop :=
  ∀ buf done, w.pc = .recvWrite buf done → buf ≠ [] ∧ buf.length ≤ c.K.rwMax

/-- The steps left in `receive_data`, at most, if the next chunk ends the packet. -/
def Worker.recvLeft (w : Worker) : Nat :=
  match w.pc with
  | .recvLock => 10
  | .recvOpen => 9
  | .recvWrite _ false => 8
  | .recvTest false => 7
  | .recvRecv => 6
  | .recvWrite _ true => 5
  | .recvTest true => 4
  | .recvClose _ => 3
  | .recvUnlock _ => 2
  | .recvReturn _ => 1
  | _ => 0

/-- The steps left from `send_response` on while the output holds `content`, at most. -/
def Worker.sendLeft (content : List Byte) (w : Worker) : Nat :=
  match w.pc with
  | .sendLock => 3 * content.length + 12
  | .sendOpen => 3 * content.length + 11
  | .sendSend _ false => 3 * (content.length - w.fpos) + 11
  | .sendTest false => 3 * (content.length - w.fpos) + 10
  | .sendRead => 3 * (content.length - w.fpos) + 9
  | .sendSend _ true => 8
  | .sendTest true => 7
  | .sendResult => 6
  | .sendClose _ => 5
  | .sendUnlock _ => 4
  | .closeClient => 3
  | _ => 0

section Exec
variable {c : Config} {i : Nat} {out out' : Output} {a : Answer} {w w' : Worker}

theorem cutBuf_fits (bytes : List UInt8) : (cutBuf (recvBuf c i bytes)).1 ≠ [] ∧
    (cutBuf (recvBuf c i bytes)).1.length ≤ c.K.rwMax := by
  have hle := c.bufSize_le
  have hlen : (recvBuf c i bytes).length = c.bufSize := length_recvBuf
  have hcut := cutBuf_spec hlen from_recvBuf
  split_ifs at hcut
  · exact ⟨hcut.newline.ne_nil, hcut.length.trans hle⟩
  · exact ⟨hcut.ne_nil, hcut.length.le.trans hle⟩

theorem Worker.Fits.exec (h : w.Fits c) (hexec : w.exec c i out a = .ok (w', out')) : w'.Fits c := by
  cases Worker.exec_step hexec with
  | recvRecv bytes hpc hrecv =>
      rintro buf done heq
      cases heq
      exact cutBuf_fits bytes
  | exited hpc => exact h
  | recvWrite buf done ok out1 hpc hwrite => cases ok <;> rintro buf' done' ⟨⟩
  | _ => rintro buf done ⟨⟩

/-- A worker that is given the lock if it asks for it takes its step. -/
theorem Worker.exec_total (hout : out.Healthy c.K) (hfits : w.Fits c)
    (hcopy : ∀ dev, out = .device dev → a.writeDev.copyFromUser = true) :
    ∃ w' out', w.exec c i out a = .ok (w', out') ∧ out'.Healthy c.K := by
  unfold Worker.exec
  cases hpc : w.pc with
  | recvRecv =>
      cases ha : a.recv with
      | none => exact ⟨_, _, rfl, hout⟩
      | some bytes => exact ⟨_, _, rfl, hout⟩
  | recvWrite buf done =>
      obtain ⟨hne, hle⟩ := hfits buf done hpc
      obtain ⟨ok, out', hwrite, hout'⟩ := hout.write hne hle hcopy
      exact ⟨_, out', by simp only [hwrite]; rfl, hout'⟩
  | sendRead =>
      obtain ⟨⟨data, fpos⟩, hread⟩ := hout.read w.fpos c.bufSize a
      cases data with
      | none => exact ⟨_, _, by simp only [hread]; rfl, hout⟩
      | some data => exact ⟨_, _, by simp only [hread]; rfl, hout⟩
  | sendSend data done => cases ha : a.send <;> exact ⟨_, _, rfl, hout⟩
  | recvClose error => exact ⟨_, _, rfl, by rw [out.close_eq]; exact hout⟩
  | sendClose result => exact ⟨_, _, rfl, by rw [out.close_eq]; exact hout⟩
  | _ => exact ⟨_, _, rfl, hout⟩

/-- A worker that hears from its client lowers what is left in `receive_data`, or it leaves the output alone and lowers
what is left in `send_response`. -/
theorem Worker.exec_left (hsound : out.Sound c.K) (hphase : Phase out.content w) (hpc : w.pc ≠ .exited)
    (hhears : w.pc = .recvRecv → ∀ bytes, a.recv = some bytes → (cutBuf (recvBuf c i bytes)).2 = true)
    (hexec : w.exec c i out a = .ok (w', out')) :
    w'.recvLeft < w.recvLeft ∨
      (w'.recvLeft = w.recvLeft ∧ out' = out ∧ w'.sendLeft out.content < w.sendLeft out.content) := by
  cases Worker.exec_step hexec with
  | recvWrite buf done ok out1 hpc hwrite =>
      left
      cases done <;> cases ok <;> simp [Worker.recvLeft, hpc]
  | recvRecv bytes hpc hrecv =>
      left
      simp [Worker.recvLeft, hpc, hhears hpc bytes hrecv]
  | sendRead data fpos hpc hread =>
      right
      refine ⟨?_, rfl, ?_⟩
      · cases data <;> simp [Worker.recvLeft, hpc]
      · simp only [Phase, hpc] at hphase
        have hdel := out.read_spec hsound hphase.le c.bufSize_pos hread
        have hlen := congrArg List.length hdel.bytes
        have hle := hdel.le
        simp only [List.length_append, List.length_take] at hlen
        cases data with
        | nil => simp [Worker.sendLeft, hpc]
        | cons b data =>
            rw [List.length_cons] at hlen
            simp only [Worker.sendLeft, hpc, List.isEmpty_cons]
            omega
  | exited hpc' => exact absurd hpc' hpc
  | recvLock hpc | recvOpen hpc | recvOpenFails hpc | recvTest hpc | recvDone hpc | recvShutdown hpc
  | recvRecvFails hpc | recvClose error hpc | recvUnlock error hpc | recvReturn hpc | recvReturnFails error hpc =>
      left
      simp [Worker.recvLeft, hpc]
  | sendSend data done hpc hsend | sendSendFails data done hpc hsend =>
      right
      refine ⟨by cases done <;> simp [Worker.recvLeft, hpc], rfl, ?_⟩
      cases done <;> simp [Worker.sendLeft, hpc]
  | _ =>
      right
      refine ⟨?_, rfl, ?_⟩
      · simp [Worker.recvLeft, *]
      · simp [Worker.sendLeft, *]

end Exec

/-! ## A handler -/

def AlarmPc.left : AlarmPc → Nat
  | .lock _ => 5
  | .openOutput _ => 4
  | .write _ => 3
  | .close => 2
  | .unlock => 1

section Handler
variable {c : Config} {out out' : Output} {a : Answer} {p : AlarmPc} {p' : Option AlarmPc}

theorem AlarmPc.exec_left (hexec : p.exec c out a = .ok (p', out')) : p'.elim 0 left < p.left := by
  cases p with
  | openOutput text =>
      cases hexec
      dsimp only [Option.elim]
      split_ifs <;> simp [left]
  | write text =>
      obtain ⟨x, -, hexec⟩ := bind_ok hexec
      cases hexec
      simp [left]
  | _ =>
      cases hexec
      simp [left]

/-- On a regular file a handler that is given the lock if it asks for it takes its step. -/
theorem AlarmPc.exec_total (content : List Byte) (a : Answer) (p : AlarmPc) :
    ∃ p' content', p.exec c (.file content) a = .ok (p', .file content') := by
  cases p with
  | write text =>
      obtain ⟨ok, out', hwrite, -⟩ : ∃ ok out', (Output.file content).write c.K text a = .ok (ok, out') ∧ True := by
        cases ha : a.write <;> exact ⟨_, _, by simp only [Output.write, ha]; rfl, trivial⟩
      obtain ⟨content', rfl⟩ := Output.write_file hwrite
      exact ⟨some .close, content', by simp only [AlarmPc.exec, hwrite]; rfl⟩
  | _ => exact ⟨_, content, rfl⟩

end Handler

/-! ## The threads -/

/-- A `SIGALRM` spares the holder of the lock, no `send` fails, so that none raises `SIGPIPE`, and the device can copy the
bytes of a `write`. -/
def Harmless (s : System) (l : Label) : Prop :=
  Spares s l ∧ ∀ i a, l = .run i a →
    a.send ≠ .fails ∧ ∀ dev, s.output = .device dev → a.writeDev.copyFromUser = true

/-- No misuse of memory and no thread that waits for itself. -/
structure Live (c : Config) (s : System) : Prop where
  resp : RespInv c s
  healthy : s.output.Healthy c.K
  fits : ∀ i w, s.workers i = some w → w.Fits c
  alarms : Free s ∨ ((∃ dev, s.output = .device dev) ∧ ∀ i, s.handlers i = none)

def CanGo (s : System) (i : Nat) : Prop :=
  match s.handlers i with
  | some p => p.lockOp = .acquire → s.lock = none
  | none => ∃ w, s.workers i = some w ∧ w.pc ≠ .exited ∧ (w.pc.lockOp = .acquire → s.lock = none)

def AllServed (s : System) : Prop :=
  s.lock = none ∧ ∀ i, s.handlers i = none ∧ ∀ w, s.workers i = some w → w.pc = .exited

/-- What a step of thread `i` changes: the handler on top of it, or its worker. -/
inductive Goes (c : Config) (s s' : System) (i : Nat) (a : Answer) : Prop
  | handler (p : AlarmPc) (p' : Option AlarmPc) (hp : s.handlers i = some p)
      (hexec : p.exec c s.output a = .ok (p', s'.output)) (hhandlers : s'.handlers = Function.update s.handlers i p')
      (hworkers : s'.workers = s.workers)
  | code (w w' : Worker) (hh : s.handlers i = none) (hw : s.workers i = some w) (hpc : w.pc ≠ .exited)
      (hexec : w.exec c i s.output a = .ok (w', s'.output)) (hhandlers : s'.handlers = s.handlers)
      (hworkers : s'.workers = Function.update s.workers i (some w'))

namespace Live
variable {c : Config} {s s' : System} {i : Nat} {a : Answer}

theorem init {out : Output} (h : out.Healthy c.K) : Live c { output := out } where
  resp := .init h.sound
  healthy := h
  fits i w hw := by simp at hw
  alarms := by
    cases out with
    | file content => exact Or.inl (free_init content)
    | device dev => exact Or.inr ⟨⟨dev, rfl⟩, fun _ => rfl⟩

theorem file_of_handler (h : Live c s) {p : AlarmPc} (hp : s.handlers i = some p) :
    ∃ content, s.output = .file content := by
  rcases h.alarms with hfree | ⟨-, hnone⟩
  · exact hfree.file
  · rw [hnone i] at hp
    cases hp

theorem not_stuck (h : Live c s) (i : Nat) : ¬ Stuck s i := by
  rcases h.alarms with hfree | ⟨-, hnone⟩
  · exact hfree.free i
  · rintro ⟨⟨text, htext⟩, -⟩
    rw [hnone i] at htext
    cases htext

theorem trans (h : Live c s) {l : Label} (hl : Harmless s l) (ht : Trans c s l s') : Live c s' := by
  refine ⟨h.resp.trans ht, ?_, ?_, ?_⟩
  · cases ht with
    | code i a w w' out lock order hh hw hexec hlock =>
        obtain ⟨w1, out1, hexec1, hout⟩ := Worker.exec_total (i := i) h.healthy (h.fits i w hw) (hl.2 i a rfl).2
        rw [hexec] at hexec1
        cases hexec1
        exact hout
    | handler i a p p' out lock order hp hexec hlock =>
        obtain ⟨content, hf⟩ := h.file_of_handler hp
        obtain ⟨p1, content', hexec1⟩ := AlarmPc.exec_total (c := c) content a p
        rw [hf, hexec1] at hexec
        cases hexec
        trivial
    | _ => exact h.healthy
  · exact ht.workers h.fits (fun i buf done hpc => by cases hpc) (fun i w hw => hw)
      fun i a w w' _ hw hexec _ _ => (h.fits i w hw).exec hexec
  · rcases h.alarms with hfree | ⟨⟨dev, hdev⟩, hnone⟩
    · exact Or.inl (hfree.trans hl.1 ht)
    · refine Or.inr ⟨?_, ?_⟩
      · rcases ht.output with hsame | ⟨buf, a, ok, hwrite⟩
        · exact ⟨dev, hsame.trans hdev⟩
        · rw [hdev] at hwrite
          obtain ⟨x, -, hwrite⟩ := bind_ok hwrite
          simp only [Except.ok.injEq, Prod.mk.injEq] at hwrite
          exact ⟨_, hwrite.2.symm⟩
      · cases ht with
        | alarm i text content hf hh =>
            rw [hdev] at hf
            cases hf
        | handler i a p p' out lock order hp hexec hlock =>
            rw [hnone i] at hp
            cases hp
        | _ => exact hnone

theorem exists_canGo (h : Live c s) (hs : ¬ AllServed s) : ∃ i, CanGo s i := by
  have hinv := h.resp.inv
  cases hlock : s.lock with
  | none =>
      by_cases hh : ∃ i p, s.handlers i = some p
      · obtain ⟨i, p, hp⟩ := hh
        exact ⟨i, by simp [CanGo, hp, hlock]⟩
      · have hnone : ∀ i, s.handlers i = none := fun i =>
          Option.eq_none_iff_forall_not_mem.mpr fun p hp => hh ⟨i, p, hp⟩
        by_contra hgo
        refine hs ⟨hlock, fun i => ⟨hnone i, fun w hw => by_contra fun hpc => hgo ⟨i, ?_⟩⟩⟩
        rw [CanGo, hnone i]
        exact ⟨w, hw, hpc, fun _ => hlock⟩
  | some ctx =>
      cases ctx with
      | code i =>
          obtain ⟨w, hw, hholds⟩ := (hinv.code i).mp hlock
          refine ⟨i, ?_⟩
          cases hp : s.handlers i with
          | none =>
              rw [CanGo, hp]
              refine ⟨w, hw, fun hpc => ?_, fun hacq => ?_⟩
              · rw [hpc] at hholds
                cases hholds
              · rcases WorkerPc.recvLock_of_acquire hacq with hpc | hpc <;> rw [hpc] at hholds <;> cases hholds
          | some p =>
              -- its own handler would wait for it
              exfalso
              cases p with
              | lock text => exact h.not_stuck i ⟨⟨text, hp⟩, hlock⟩
              | _ =>
                  have hheld := (hinv.handler i).mpr ⟨_, hp, rfl⟩
                  rw [hlock] at hheld
                  cases hheld
      | handler i =>
          obtain ⟨p, hp, hholds⟩ := (hinv.handler i).mp hlock
          refine ⟨i, ?_⟩
          rw [CanGo, hp]
          cases p with
          | lock text => cases hholds
          | _ =>
              intro hacq
              cases hacq

theorem goes (h : Live c s) (hgo : CanGo s i)
    (hcopy : ∀ dev, s.output = .device dev → a.writeDev.copyFromUser = true) :
    Goes c s (s.step c (.run i a)) i a := by
  unfold CanGo at hgo
  cases hp : s.handlers i with
  | some p =>
      obtain ⟨content, hf⟩ := h.file_of_handler hp
      obtain ⟨p', content', hexec⟩ := AlarmPc.exec_total (c := c) content a p
      rw [← hf] at hexec
      simp only [hp] at hgo
      refine .handler p p' hp ?_ ?_ ?_ <;> simp only [System.step, hp, System.stepHandler, hexec] <;>
        cases hop : p.lockOp <;> simp [hgo, hop]
  | none =>
      simp only [hp] at hgo
      obtain ⟨w, hw, hpc, hfree⟩ := hgo
      obtain ⟨w', out, hexec, -⟩ := Worker.exec_total (i := i) h.healthy (h.fits i w hw) hcopy
      refine .code w w' hp hw hpc ?_ ?_ ?_ <;> simp only [System.step, hp, hw, System.stepCode, hexec] <;>
        cases hop : w.pc.lockOp <;> simp [hfree, hop]

end Live

theorem step_of_not_canGo {c : Config} {s : System} {i : Nat} (a : Answer) (h : ¬ CanGo s i) :
    s.step c (.run i a) = s := by
  unfold CanGo at h
  cases hp : s.handlers i with
  | some p =>
      simp only [hp, Classical.not_imp] at h
      simp only [System.step, hp, System.stepHandler]
      cases p.exec c s.output a with
      | error e => rfl
      | ok x => simp only [h.1, if_neg h.2]
  | none =>
      simp only [hp] at h
      cases hw : s.workers i with
      | none => simp only [System.step, hp, hw]
      | some w =>
          simp only [System.step, hp, hw, System.stepCode]
          by_cases hpc : w.pc = .exited
          · have hsame : Function.update s.workers i (some w) = s.workers := by rw [← hw, Function.update_eq_self]
            simp only [Worker.exec, hpc, WorkerPc.lockOp, hsame]
          · obtain ⟨hacq, hlock⟩ : w.pc.lockOp = .acquire ∧ s.lock ≠ none := by
              rw [← Classical.not_imp]
              exact fun hfree => h ⟨w, hw, hpc, hfree⟩
            cases w.exec c i s.output a with
            | error e => rfl
            | ok x => simp only [hacq, if_neg hlock]

/-! ## The measure -/

/-- No new connection and no `SIGALRM`. -/
def Quiet : Label → Prop
  | .spawn _ | .alarm _ _ => False
  | _ => True

/-- A `recv` of the step fails or brings the end of the packet. -/
def Hears (c : Config) (s : System) (l : Label) : Prop :=
  ∀ i a w, l = .run i a → s.handlers i = none → s.workers i = some w → w.pc = .recvRecv →
    ∀ bytes, a.recv = some bytes → (cutBuf (recvBuf c i bytes)).2 = true

/-- Thread `i` has a worker or a handler on top of it. -/
def IsThread (s : System) (i : Nat) : Prop := s.workers i ≠ none ∨ s.handlers i ≠ none

def Support (T : Finset Nat) (s : System) : Prop := ∀ i, IsThread s i → i ∈ T

namespace System

def recvLeft (s : System) (i : Nat) : Nat := (s.workers i).elim 0 Worker.recvLeft + (s.handlers i).elim 0 AlarmPc.left

def sendLeft (s : System) (i : Nat) : Nat := (s.workers i).elim 0 (Worker.sendLeft s.output.content)

/-- What is left of `receive_data` and of the handlers, which may change the output, and then of the rest. -/
def left (T : Finset Nat) (s : System) : Nat ×ₗ Nat := toLex (∑ i ∈ T, s.recvLeft i, ∑ i ∈ T, s.sendLeft i)

end System

theorem left_lt {T : Finset Nat} {s s' : System} {i : Nat} (hi : i ∈ T) (hother : ∀ j, j ≠ i → s'.recvLeft j = s.recvLeft j)
    (h : s'.recvLeft i < s.recvLeft i ∨ (s'.recvLeft i = s.recvLeft i ∧ s'.sendLeft i < s.sendLeft i ∧
      ∀ j, j ≠ i → s'.sendLeft j = s.sendLeft j)) : s'.left T < s.left T := by
  rw [System.left, System.left, Prod.Lex.toLex_lt_toLex]
  rcases h with hlt | ⟨heq, hlt, hsend⟩
  · refine Or.inl (Finset.sum_lt_sum (fun j _ => ?_) ⟨i, hi, hlt⟩)
    by_cases hj : j = i
    · exact hj ▸ hlt.le
    · exact (hother j hj).le
  · refine Or.inr ⟨Finset.sum_congr rfl fun j _ => ?_, Finset.sum_lt_sum (fun j _ => ?_) ⟨i, hi, hlt⟩⟩ <;>
      by_cases hj : j = i
    · exact hj ▸ heq
    · exact hother j hj
    · exact hj ▸ hlt.le
    · exact (hsend j hj).le

theorem Goes.left_lt {c : Config} {s s' : System} {i : Nat} {a : Answer} (hg : Goes c s s' i a) (h : Live c s)
    (hhears : Hears c s (.run i a)) {T : Finset Nat} (hi : i ∈ T) : s'.left T < s.left T := by
  cases hg with
  | handler p p' hp hexec hhandlers hworkers =>
      have hlt := AlarmPc.exec_left hexec
      refine Server.left_lt hi (fun j hj => ?_) (Or.inl ?_)
      · simp only [System.recvLeft, hhandlers, hworkers, Function.update_of_ne hj]
      · simp only [System.recvLeft, hhandlers, hworkers, Function.update_self, hp, Option.elim_some]
        omega
  | code w w' hh hw hpc hexec hhandlers hworkers =>
      refine Server.left_lt hi (fun j hj => ?_) ?_
      · simp only [System.recvLeft, hhandlers, hworkers, Function.update_of_ne hj]
      · rcases Worker.exec_left h.resp.sound (h.resp.phase i w hw) hpc (hhears i a w rfl hh hw) hexec with
          hlt | ⟨heq, hout, hlt⟩
        · left
          simp only [System.recvLeft, hhandlers, hworkers, Function.update_self, hw, Option.elim_some]
          omega
        · refine Or.inr ⟨?_, ?_, fun j hj => ?_⟩
          · simp only [System.recvLeft, hhandlers, hworkers, Function.update_self, hw, Option.elim_some, heq]
          · simpa only [System.sendLeft, hworkers, Function.update_self, hw, Option.elim_some, hout] using hlt
          · simp only [System.sendLeft, hworkers, Function.update_of_ne hj, hout]

/-- Asking a worker to stop changes neither what is left nor who can go. -/
theorem shutdown_left {c : Config} {s : System} (i : Nat) {T : Finset Nat} :
    (s.step c (.shutdown i)).left T = s.left T ∧ (AllServed (s.step c (.shutdown i)) ↔ AllServed s) ∧
      ∀ j, CanGo s j → CanGo (s.step c (.shutdown i)) j := by
  cases hw : s.workers i with
  | none => simp [System.step, hw]
  | some w =>
      have hworkers : ∀ j, (s.step c (.shutdown i)).workers j = s.workers j ∨
          (s.workers j = some w ∧ (s.step c (.shutdown i)).workers j = some { w with shutdown := true }) := by
        intro j
        simp only [System.step, hw]
        by_cases hj : j = i
        · subst hj
          exact Or.inr ⟨hw, Function.update_self ..⟩
        · exact Or.inl (Function.update_of_ne hj ..)
      have hrest : (s.step c (.shutdown i)).lock = s.lock ∧ (s.step c (.shutdown i)).handlers = s.handlers ∧
          (s.step c (.shutdown i)).output = s.output := by simp [System.step, hw]
      obtain ⟨hlock, hhandlers, hout⟩ := hrest
      refine ⟨?_, ?_, fun j hj => ?_⟩
      · have hsame : ∀ j, (s.step c (.shutdown i)).recvLeft j = s.recvLeft j ∧
            (s.step c (.shutdown i)).sendLeft j = s.sendLeft j := by
          intro j
          rcases hworkers j with hj | ⟨hj, hj'⟩
          · simp only [System.recvLeft, System.sendLeft, hj, hhandlers, hout, and_self]
          · simp only [System.recvLeft, System.sendLeft, hj, hj', hhandlers, hout, Option.elim_some]
            exact ⟨rfl, rfl⟩
        simp only [System.left, fun j => (hsame j).1, fun j => (hsame j).2]
      · simp only [AllServed, hlock, hhandlers]
        refine and_congr_right fun _ => forall_congr' fun j => and_congr_right fun _ => ?_
        rcases hworkers j with hj | ⟨hj, hj'⟩
        · rw [hj]
        · simp [hj, hj']
      · simp only [CanGo, hhandlers, hlock] at hj ⊢
        split at hj
        · exact hj
        · obtain ⟨v, hv, hrest⟩ := hj
          rcases hworkers j with hj | ⟨hj, hj'⟩
          · exact ⟨v, hj.trans hv, hrest⟩
          · rw [hj] at hv
            cases hv
            exact ⟨_, hj', hrest⟩

/-! ## Runs -/

def RunsThread (i : Nat) (l : Label) : Prop := ∃ a, l = .run i a

theorem CanGo.isThread {s : System} {i : Nat} (h : CanGo s i) : IsThread s i := by
  unfold CanGo at h
  cases hp : s.handlers i with
  | some p => exact Or.inr (by simp [hp])
  | none =>
      simp only [hp] at h
      obtain ⟨w, hw, -⟩ := h
      exact Or.inl (by simp [hw])

theorem isThread_update {α : Type} {f : Nat → Option α} {i : Nat} {x : α} (hx : f i = some x) (y : Option α) {j : Nat}
    (h : Function.update f i y j ≠ none) : f j ≠ none := by
  by_cases hj : j = i
  · simp [hj, hx]
  · rwa [Function.update_of_ne hj] at h

theorem Trans.isThread {c : Config} {s s' : System} {l : Label} (ht : Trans c s l s') (hl : Quiet l) {i : Nat}
    (hi : IsThread s' i) : IsThread s i := by
  cases ht with
  | stay => exact hi
  | spawn j hw => exact hl.elim
  | alarm j text content hf hh => exact hl.elim
  | shutdown j w hw => exact hi.imp_left (isThread_update hw _)
  | code j a w w' out lock order hh hw hexec hlock => exact hi.imp_left (isThread_update hw _)
  | handler j a p p' out lock order hp hexec hlock => exact hi.imp_right (isThread_update hp _)

theorem Support.quiet {c : Config} {T : Finset Nat} {s s' : System} (h : Support T s) {l : Label}
    (ht : Trans c s l s') (hl : Quiet l) : Support T s' := fun i hi => h i (ht.isThread hl hi)

theorem Support.grows {c : Config} {T : Finset Nat} {s s' : System} (h : Support T s) {l : Label}
    (ht : Trans c s l s') : ∃ T', Support T' s' := by
  have hinsert : ∀ j, (∀ i, i ≠ j → IsThread s' i → IsThread s i) → Support (insert j T) s' := by
    intro j hj i hi
    by_cases hij : i = j
    · exact hij ▸ Finset.mem_insert_self ..
    · exact Finset.mem_insert_of_mem (h i (hj i hij hi))
  cases l with
  | spawn j =>
      refine ⟨insert j T, hinsert j fun i hij hi => ?_⟩
      cases ht with
      | stay => exact hi
      | spawn j hw => exact hi.imp_left fun hne hnone => hne ((Function.update_of_ne hij ..).trans hnone)
  | alarm j text =>
      refine ⟨insert j T, hinsert j fun i hij hi => ?_⟩
      cases ht with
      | stay => exact hi
      | alarm j text content hf hh => exact hi.imp_right fun hne hnone => hne ((Function.update_of_ne hij ..).trans hnone)
  | run j a => exact ⟨T, h.quiet ht trivial⟩
  | shutdown j => exact ⟨T, h.quiet ht trivial⟩

/-- While no thread comes in, the turn of one that can go lowers the measure. -/
theorem served_ranking (c : Config) (T : Finset Nat) :
    Ranking (System.step c) (fun s l => Harmless s l ∧ Quiet l ∧ Hears c s l) RunsThread (· ∈ T)
      (fun s => Live c s ∧ Support T s) AllServed (· < ·) (System.left T) CanGo where
  inv s l h hl := ⟨h.1.trans hl.1 (step_trans c s l), h.2.quiet (step_trans c s l) hl.2.1⟩
  helper s h hs := by
    obtain ⟨i, hi⟩ := h.1.exists_canGo hs
    exact ⟨i, h.2 i hi.isThread, hi⟩
  turn s l i h hl _ hgo hmine := by
    obtain ⟨a, rfl⟩ := hmine
    exact Or.inr ((h.1.goes hgo (hl.1.2 i a rfl).2).left_lt h.1 hl.2.2 (h.2 i hgo.isThread))
  other s l h hl _ := by
    cases l with
    | spawn i => exact hl.2.1.elim
    | alarm i text => exact hl.2.1.elim
    | shutdown i =>
        obtain ⟨hleft, -, hkeep⟩ := shutdown_left (c := c) (s := s) i (T := T)
        exact Or.inr (Or.inr ⟨hleft, hkeep⟩)
    | run i a =>
        by_cases hgo : CanGo s i
        · exact Or.inr (Or.inl ((h.1.goes hgo (hl.1.2 i a rfl).2).left_lt h.1 hl.2.2 (h.2 i hgo.isThread)))
        · rw [step_of_not_canGo a hgo]
          exact Or.inr (Or.inr ⟨rfl, fun _ hi => hi⟩)

theorem AllServed.not_canGo {s : System} (h : AllServed s) (i : Nat) : ¬ CanGo s i := by
  intro hgo
  rw [CanGo, (h.2 i).1] at hgo
  obtain ⟨w, hw, hpc, -⟩ := hgo
  exact hpc ((h.2 i).2 w hw)

theorem AllServed.step {c : Config} {s : System} (h : AllServed s) {l : Label} (hl : Quiet l) :
    AllServed (s.step c l) := by
  cases l with
  | spawn i => exact hl.elim
  | alarm i text => exact hl.elim
  | shutdown i => exact (shutdown_left i (T := ∅)).2.1.mpr h
  | run i a =>
      rw [step_of_not_canGo a (h.not_canGo i)]
      exact h

/-- In a harmless run memory is not misused, no thread waits for itself, and there are finitely many threads. -/
theorem Live.along {c : Config} {s : System} {T : Finset Nat} (h : Live c s) (hT : Support T s) {sched : Nat → Label}
    (ha : Allowed (System.step c) Harmless s sched) (n : Nat) :
    Live c (path (System.step c) s sched n) ∧ ∃ T, Support T (path (System.step c) s sched n) :=
  ha.invariant (I := fun s => Live c s ∧ ∃ T, Support T s)
    (fun s l ⟨h, _, hT⟩ hl => ⟨h.trans hl (step_trans c s l), hT.grows (step_trans c s l)⟩) ⟨h, T, hT⟩ n

/-- From a live state all threads come to their end, and stay there. -/
theorem Live.served {c : Config} {s : System} {T : Finset Nat} (h : Live c s) (hT : Support T s) {sched : Nat → Label}
    (ha : Allowed (System.step c) Harmless s sched)
    (hfair : ∀ n i, IsThread (path (System.step c) s sched n) i → Turns RunsThread i sched)
    (hends : ∃ m, ∀ n, m ≤ n → Quiet (sched n) ∧ Hears c (path (System.step c) s sched n) (sched n)) :
    ∃ n, ∀ k, n ≤ k → AllServed (path (System.step c) s sched k) := by
  classical
  obtain ⟨m, hm⟩ := hends
  obtain ⟨hlive, T', hT'⟩ := h.along hT ha m
  have hthreads : Support (T'.filter (IsThread (path (System.step c) s sched m))) (path (System.step c) s sched m) :=
    fun i hi => Finset.mem_filter.mpr ⟨hT' i hi, hi⟩
  have hlater : Allowed (System.step c) (fun s l => Harmless s l ∧ Quiet l ∧ Hears c s l)
      (path (System.step c) s sched m) (later sched m) := by
    intro n
    have hstep := ha.later m n
    rw [path_later] at hstep ⊢
    exact ⟨hstep, hm (m + n) (Nat.le_add_right m n)⟩
  obtain ⟨n, hn⟩ := (served_ranking c _).settles wellFounded_lt (fun s l _ hl hs => hs.step hl.2.1) ⟨hlive, hthreads⟩
    hlater fun i hi => (hfair m i (Finset.mem_filter.mp hi).2).later m
  exact eventually_of_later ⟨n, fun k hk => (hn k hk).2⟩

theorem support_init (out : Output) : Support ∅ { output := out } := fun i hi => by simp [IsThread] at hi

/-- **Every client is served in the end.** In a run in which the device can copy the bytes of every `write`, no `SIGALRM`
hits the holder of the lock and no `send` fails, let every thread be given a turn again and again. If from some step on
there are no new connections and alarms, and every `recv` brings the end of a packet or fails, then from some step on every
worker has come to its end, no handler is left and the lock is free. -/
theorem clients_are_served {c : Config} {out : Output} (hout : out.Healthy c.K) {sched : Nat → Label}
    (ha : Allowed (System.step c) Harmless { output := out } sched)
    (hfair : ∀ n i, IsThread (path (System.step c) { output := out } sched n) i → Turns RunsThread i sched)
    (hends : ∃ m, ∀ n, m ≤ n →
      Quiet (sched n) ∧ Hears c (path (System.step c) { output := out } sched n) (sched n)) :
    ∃ n, ∀ k, n ≤ k → AllServed (path (System.step c) { output := out } sched k) :=
  (Live.init hout).served (support_init out) ha hfair hends

/-- Two clients come in and a timestamp is due, then the threads 0 and 1 run in turn. -/
def twoClientsInTurn : Nat → Label
  | 0 => .spawn 0
  | 1 => .spawn 1
  | 2 => .alarm 1 timestamp
  | n + 3 => .run (n % 2) (letterAnswer 97)

theorem turns_inTurn {i : Nat} (hi : i < 2) : Turns RunsThread i twoClientsInTurn := by
  intro n
  refine ⟨2 * n + i + 3, by omega, letterAnswer 97, ?_⟩
  have : (2 * n + i) % 2 = i := by omega
  rw [twoClientsInTurn, this]

theorem quiet_inTurn (s : System) {n : Nat} (hn : 3 ≤ n) :
    Quiet (twoClientsInTurn n) ∧ Hears .aesdsocket s (twoClientsInTurn n) := by
  obtain ⟨k, rfl⟩ := Nat.exists_eq_add_of_le' hn
  refine ⟨trivial, ?_⟩
  rintro i a w ⟨⟩ - - - bytes ⟨⟩
  rfl

theorem isThread_inTurn (n i : Nat)
    (h : IsThread (path (System.step .aesdsocket) { output := .file [] } twoClientsInTurn n) i) : i < 2 := by
  induction n with
  | zero => simp [path, IsThread] at h
  | succ n ih =>
      by_cases hn : 3 ≤ n
      · exact ih ((step_trans .aesdsocket _ (twoClientsInTurn n)).isThread (quiet_inTurn {output := .file []} hn).1 h)
      · by_contra hi
        have h0 : i ≠ 0 := by omega
        have h1 : i ≠ 1 := by omega
        have hcases : n = 0 ∨ n = 1 ∨ n = 2 := by omega
        rcases hcases with rfl | rfl | rfl <;> apply h.elim <;>
          simp [path, twoClientsInTurn, System.step, Function.update, h0, h1]

theorem harmless_inTurn : Allowed (System.step .aesdsocket) Harmless { output := .file [] } twoClientsInTurn := by
  intro n
  match n with
  | 0 | 1 => exact ⟨trivial, by rintro i a ⟨⟩⟩
  | 2 => exact ⟨by simp [Spares, path, twoClientsInTurn, System.step], by rintro i a ⟨⟩⟩
  | n + 3 =>
      refine ⟨trivial, ?_⟩
      rintro i a ⟨⟩
      exact ⟨by simp [letterAnswer], fun dev _ => rfl⟩

theorem clients_are_served_inTurn : ∃ n, ∀ k, n ≤ k →
    AllServed (path (System.step .aesdsocket) { output := .file [] } twoClientsInTurn k) := by
  have hout : (Output.file []).Healthy Config.aesdsocket.K := trivial
  exact clients_are_served hout harmless_inTurn (fun n i hi => turns_inTurn (isThread_inTurn n i hi))
    ⟨3, fun n hn => quiet_inTurn _ hn⟩

end Aesd.Server
