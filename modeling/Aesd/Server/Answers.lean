import Aesd.Server.Progress

/-!
# What every client gets in the end

* `Succeeds` : every call of a step succeeds;
* `Well c i w` : a worker for which no call has failed;
* `every_client_answered` : in regular-file mode every client gets the file as it was at its turn;
* `silent_client_blocks` : a client that is silent keeps all others waiting.
-/

namespace Aesd.Server
open Driver Lib

/-- Every call of the step succeeds, and no worker is asked to stop. -/
def Succeeds : Label → Prop
  | .run _ a => a.openOk = true ∧ a.recv ≠ none ∧ a.write = .all ∧ a.read ≠ .fails ∧ a.send = .all
  | .shutdown _ => False
  | _ => True

theorem Succeeds.fileServed {l : Label} (h : Succeeds l) : FileServed l := by
  cases l with
  | run i a =>
      obtain ⟨hopen, -, hwrite, -, hsend⟩ := h
      exact ⟨hopen, hwrite, by rw [hsend]; rfl⟩
  | _ => trivial

/-- No call of the worker has failed: the points after an error are not reached. -/
def WorkerPc.well (response : Option Bool) : WorkerPc → Prop
  | .recvClose error | .recvUnlock error | .recvReturn error => error = false
  | .sendClose result | .sendUnlock result => result = true
  | .closeClient | .exited => response = some true
  | _ => True

structure Well (c : Config) (i : Nat) (w : Worker) : Prop where
  goes : w.shutdown = false
  shape : Shape c false i w
  pc : w.pc.well w.response

theorem Well.exec {c : Config} {i : Nat} {content : List Byte} {out' : Output} {a : Answer} {w w' : Worker}
    (h : Well c i w) (ha : Succeeds (.run i a)) (hexec : w.exec c i (.file content) a = .ok (w', out')) : Well c i w' := by
  obtain ⟨hopen, hrecv, hwrite, hread, hsend⟩ := ha
  have hok : ∀ buf ok out1, (Output.file content).write c.K buf a = .ok (ok, out1) → ok = true := by
    intro buf ok out1 hw
    simp only [Output.write, hwrite] at hw
    cases hw
    rfl
  refine ⟨(Worker.exec_next hexec).2.trans h.goes, h.shape.exec (fun _ => hopen) ?_ (fun buf done ok _ => hok buf ok _)
    hexec, ?_⟩
  · unfold Worker.leavesEarly
    split
    · simp [h.goes]
    · simp [hrecv]
    · simp
  · have hpc := h.pc
    cases Worker.exec_step hexec with
    | recvOpenFails hpc hfails => exact absurd hopen (by simp [hfails])
    | recvRecvFails hpc hfails => exact absurd hfails hrecv
    | recvWrite buf done ok out1 hpc hw =>
        obtain rfl := hok buf ok _ hw
        trivial
    | recvReturnFails error hpc' hstop =>
        rw [hpc'] at hpc
        rcases hstop with hstop | hstop
        · rw [show error = false from hpc] at hstop
          cases hstop
        · rw [h.goes] at hstop
          cases hstop
    | sendOpenFails hpc hfails => exact absurd hopen (by simp [hfails])
    | sendReadFails fpos hpc' =>
        -- a read of the file that does not fail goes on to send
        exfalso
        cases hr : a.read with
        | fails => exact hread hr
        | _ =>
            simp only [Worker.exec, hpc', Output.read, hr] at hexec
            cases hexec
    | sendSendFails data done hpc hfails => exact absurd hfails (by simp [hsend])
    | sendResult hpc => simp [WorkerPc.well, h.goes]
    | sendUnlock result hpc' =>
        rw [hpc'] at hpc
        rw [show result = true from hpc]
        rfl
    | exited hpc' => exact hpc
    | recvDone hpc | recvShutdown hpc hstop => rfl
    | recvClose error hpc' | recvUnlock error hpc' | sendClose result hpc' | closeClient hpc' =>
        rw [hpc'] at hpc
        exact hpc
    | _ => trivial

/-- What holds in every run in which all calls succeed. -/
structure Answering (c : Config) (f0 : List Byte) (s : System) : Prop where
  resp : RespInv c s
  file : FileInv f0 s
  well : ∀ i w, s.workers i = some w → Well c i w

namespace Answering
variable {c : Config} {f0 : List Byte} {s s' : System}

theorem init (c : Config) (f0 : List Byte) : Answering c f0 { output := .file f0 } where
  resp := .init trivial
  file := .init f0
  well i w hw := by simp at hw

theorem update (h : Answering c f0 s) {i : Nat} {w : Worker} (hw : Well c i w) {j : Nat} {v : Worker}
    (hv : Function.update s.workers i (some w) j = some v) : Well c j v := by
  by_cases hj : j = i
  · subst hj
    rw [Function.update_self] at hv
    cases hv
    exact hw
  · rw [Function.update_of_ne hj] at hv
    exact h.well j v hv

theorem trans (h : Answering c f0 s) {l : Label} (hl : Succeeds l) (ht : Trans c s l s') : Answering c f0 s' := by
  refine ⟨h.resp.trans ht, h.file.trans hl.fileServed ht, ?_⟩
  cases ht with
  | shutdown i w hw => exact hl.elim
  | spawn i hw => exact fun j v hv => h.update ⟨rfl, .new, trivial⟩ hv
  | code i a w w' out lock order hh hw hexec hlock =>
      obtain ⟨content, hf, -⟩ := h.file.content
      rw [hf] at hexec
      exact fun j v hv => h.update ((h.well i w hw).exec hl hexec) hv
  | _ => exact h.well

theorem answered (h : Answering c f0 s) {i : Nat} {w : Worker} (hw : s.workers i = some w) (hpc : w.pc = .exited) :
    w.response = some true ∧ Packet c i w.wrote ∧ w.passed = w.snapshot ∧
      ∃ upto rest, s.order = upto ++ .send i :: rest ∧ .recv i ∈ upto ∧ w.snapshot = f0 ++ blocks s.bytes upto := by
  have hwell := h.well i w hw
  have hr : w.response = some true := by
    have := hwell.pc
    rw [hpc] at this
    exact this
  exact ⟨hr, hwell.shape.answered (by simp [hr]), (h.resp.phase i w hw).answered hr,
    h.file.snapped i w hw (Or.inr (by simp [hr]))⟩

end Answering

def Idles (i : Nat) (s : System) (l : Label) : Prop := ∀ a, l = .run i a → s.handlers i ≠ none

/-- What the worker of thread `i` has sent, nothing if there is none. -/
def System.sentBy (s : System) (i : Nat) : List Byte := (s.workers i).elim [] Worker.sent

/-- Worker `i` still has the lock, and nothing was written or sent since `s0`, by a worker that came in since either. -/
structure Blocked (i : Nat) (s0 s : System) : Prop where
  inv : SysInv s
  lock : s.lock = some (.code i)
  output : s.output = s0.output
  order : s.order = s0.order
  wrote : s.buffers = s0.buffers
  sent : s.sentBy = s0.sentBy

theorem sentBy_same {s s' : System} {i : Nat} {w : Worker} (h : s'.workers = Function.update s.workers i (some w))
    (hsent : w.sent = s.sentBy i) : s'.sentBy = s.sentBy := by
  funext j
  by_cases hj : j = i
  · subst hj
    simp [System.sentBy, h, hsent]
  · simp [System.sentBy, h, Function.update_of_ne hj]

/-- A worker that is in no critical region and is not given the lock neither writes nor sends. -/
theorem Worker.exec_outside {c : Config} {i : Nat} {out out' : Output} {a : Answer} {w w' : Worker}
    (h : w.pc.holds = false) (hexec : w.exec c i out a = .ok (w', out')) :
    out' = out ∧ w'.sent = w.sent ∧ w'.wrote = w.wrote := by
  cases Worker.exec_step hexec with
  | recvWrite buf done ok out1 hpc hwrite =>
      rw [hpc] at h
      cases h
  | sendSend data done hpc hsend =>
      rw [hpc] at h
      cases h
  | _ => exact ⟨rfl, rfl, rfl⟩

theorem Blocked.trans {c : Config} {i : Nat} {s0 s s' : System} (h : Blocked i s0 s) {l : Label} (hl : Idles i s l)
    (ht : Trans c s l s') : Blocked i s0 s' := by
  have hinv := h.inv.trans ht
  have hsent : ∀ {j : Nat} {v : Worker}, s.workers j = some v → v.sent = s.sentBy j := fun hv => by
    simp [System.sentBy, hv]
  cases ht with
  | stay => exact h
  | alarm j text content hf hh => exact ⟨hinv, h.lock, h.output, h.order, h.wrote, h.sent⟩
  | spawn j hj =>
      refine ⟨hinv, h.lock, h.output, h.order, (buffers_spawn hj).trans h.wrote, Eq.trans ?_ h.sent⟩
      exact sentBy_same rfl (by simp [System.sentBy, hj])
  | shutdown j v hv =>
      refine ⟨hinv, h.lock, h.output, h.order, (buffers_shutdown hv).trans h.wrote, Eq.trans ?_ h.sent⟩
      exact sentBy_same rfl (show v.sent = _ from hsent hv)
  | code j a v v' out lock order hh hv hexec hlock =>
      have hj : j ≠ i := by
        rintro rfl
        exact hl a rfl hh
      have hout : v.pc.holds = false := h.inv.not_holds (by rw [h.lock]; simpa using hj.symm) hv
      obtain ⟨rfl, hsend, hwrite⟩ := Worker.exec_outside hout hexec
      have hkeeps : lock = s.lock ∧ order = s.order := by
        cases hop : v.pc.lockOp with
        | keep => rwa [hop] at hlock
        | acquire =>
            rw [hop] at hlock
            have hfree := hlock.1
            rw [h.lock] at hfree
            cases hfree
        | release =>
            rw [WorkerPc.holds_of_release hop] at hout
            cases hout
      obtain ⟨rfl, rfl⟩ := hkeeps
      refine ⟨hinv, h.lock, h.output, h.order, Eq.trans ?_ h.wrote, Eq.trans ?_ h.sent⟩
      · rw [buffers_update rfl, hwrite, ← buffers_of_worker hv, Function.update_eq_self]
      · exact sentBy_same rfl (hsend.trans (hsent hv))
  | handler j a p p' out lock order hp hexec hlock =>
      -- a handler that is past the lock would hold it
      have hout : p.holds = false := by
        by_contra hheld
        have := (h.inv.handler j).mpr ⟨p, hp, by simpa using hheld⟩
        rw [h.lock] at this
        cases this
      cases p with
      | lock text =>
          have hfree := hlock.1
          rw [h.lock] at hfree
          cases hfree
      | _ => cases hout

/-- **A silent client keeps all others waiting.** As long as a worker that has the lock and waits in `recv` gets no answer,
whatever else is run, connected or signalled: nothing is written to the output, no thread acquires the lock, and no worker
writes or sends. -/
theorem silent_client_blocks (c : Config) (out : Output) (labels : List Label) (i : Nat) (w : Worker)
    (hw : (run (System.step c) { output := out } labels).workers i = some w) (hrecv : w.pc = .recvRecv)
    (more : List Label) (hmore : Along (System.step c) (Idles i) (run (System.step c) { output := out } labels) more) :
    Blocked i (run (System.step c) { output := out } labels) (run (System.step c) { output := out } (labels ++ more)) := by
  have hinv : SysInv (run (System.step c) { output := out } labels) :=
    Along.invariant (fun s l h _ => h.trans (step_trans c s l)) (.init out) (along_of_forall (fun _ _ => trivial) _)
  rw [run_append]
  refine hmore.invariant (I := Blocked i _) (fun s l h hl => h.trans hl (step_trans c s l)) ?_
  exact ⟨hinv, (hinv.code i).mpr ⟨w, hw, by rw [hrecv]; rfl⟩, rfl, rfl, rfl, rfl⟩

/-- Worker 0 waits for its client while another client and a timestamp come in. -/
def silent : List Label := [.spawn 0, .run 0 {}, .run 0 {}, .run 0 {}]

theorem silent_client_blocks_two :
    Blocked 0 (run (System.step .aesdsocket) { output := .file [] } silent)
      (run (System.step .aesdsocket) { output := .file [] }
        (silent ++ [.spawn 1, .run 1 (letterAnswer 97), .alarm 7 timestamp, .run 7 {}, .run 1 (letterAnswer 97)])) := by
  refine silent_client_blocks .aesdsocket (.file []) silent 0 { pc := .recvRecv } rfl rfl _ ?_
  refine ⟨?_, ?_, ?_, ?_, ?_, trivial⟩ <;> rintro a ⟨⟩

end Aesd.Server
