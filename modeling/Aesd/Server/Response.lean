import Aesd.Server.System

/-!
# What `send_response` sends

* `Output.read_spec` : a `read` of either output delivers the content at the file position, and nothing only at the end;
* `Phase content w` : what the worker has passed to `send` so far, while the output holds `content`;
* `RespInv.of_run` : in every run a worker whose `send_response` returned true has passed to `send` exactly the output at
  its second lock acquisition;
* `sentAll_of_run` : that is what was sent, if no `send` is short.
-/

namespace Aesd.Server
open Driver Lib

def Output.Sound (K : Kernel) : Output → Prop
  | .file _ => True
  | .device dev => ∃ items, Inv K dev items

namespace Output
variable {K : Kernel} {out out' : Output} {a : Answer}

theorem Sound.write (h : out.Sound K) {buf : List Byte} {ok : Bool} (hw : out.write K buf a = .ok (ok, out')) :
    out'.Sound K := by
  cases out with
  | file content =>
      simp only [Output.write] at hw
      split at hw <;> cases hw <;> trivial
  | device dev =>
      obtain ⟨items, hinv⟩ := h
      obtain ⟨⟨result, dev'⟩, hwrite, hw⟩ := bind_ok hw
      cases hw
      exact hinv.aesdWrite hwrite

/-- A `read` at `fpos` delivered `data` and left the position at `fpos'`. -/
structure Delivers (content : List Byte) (fpos : Nat) (data : List Byte) (fpos' : Nat) : Prop where
  bytes : content.take fpos' = content.take fpos ++ data
  le : fpos' ≤ content.length
  done : data = [] → fpos' = content.length

theorem delivers_take {content : List Byte} {fpos n : Nat} (hpos : fpos ≤ content.length) (hn : 0 < n) :
    Delivers content fpos ((content.drop fpos).take n) (fpos + ((content.drop fpos).take n).length) := by
  have hlen : ((content.drop fpos).take n).length = min n (content.length - fpos) := by simp
  refine ⟨?_, by omega, fun hnil => ?_⟩
  · have htake : (content.drop fpos).take n = (content.drop fpos).take (min n (content.length - fpos)) := by
      rw [List.take_eq_take_min, List.length_drop]
    rw [hlen, List.take_add, ← htake]
  · rw [hnil, List.length_nil] at hlen ⊢
    omega

theorem read_spec (h : out.Sound K) {fpos count fpos' : Nat} {data : List Byte} (hpos : fpos ≤ out.content.length)
    (hcount : 0 < count) (hr : out.read K fpos count a = .ok (some data, fpos')) :
    Delivers out.content fpos data fpos' := by
  cases out with
  | file content =>
      have hpositive : a.read ≠ .fails → 0 < a.read.count count := by
        intro hne
        cases ht : a.read with
        | fails => exact absurd ht hne
        | all => exact hcount
        | atMost k => exact Nat.lt_min.mpr ⟨hcount, Nat.succ_pos k⟩
      simp only [Output.read] at hr
      split at hr
      · cases hr
      · next hne =>
          cases hr
          exact delivers_take hpos (hpositive hne)
  | device dev =>
      obtain ⟨items, hinv⟩ := h
      have htotal := hinv.total_lt
      have hlen := hinv.length_readable
      have hmod : fpos % 2 ^ K.width = fpos := Nat.mod_eq_of_lt (by simp only [content] at hpos; omega)
      obtain ⟨ret, hread, hr⟩ := bind_ok hr
      rcases Nat.lt_or_ge (fpos % 2 ^ K.width) dev.readable.length with hlt | hge
      · obtain ⟨rest, hrest, hle, heq⟩ := aesdRead_inside hinv hlt
        rw [heq] at hread
        rw [hmod] at hread hle
        split_ifs at hread with hlock hcopy
        · cases hread
          simp only [Int.natCast_nonneg, if_true, Except.ok.injEq, Prod.mk.injEq, Option.some.injEq] at hr
          obtain ⟨rfl, rfl⟩ := hr
          refine ⟨by rw [List.take_add]; rfl, by simp only [content]; omega, fun hnil => ?_⟩
          have := congrArg List.length hnil
          simp only [List.length_take, List.length_drop, List.length_nil] at this
          omega
        · cases hread
          cases hr
        · cases hread
          cases hr
      · rw [aesdRead_past hinv hge] at hread
        split_ifs at hread with hlock
        · cases hread
          simp only [le_refl, if_true, Except.ok.injEq, Prod.mk.injEq, Option.some.injEq] at hr
          obtain ⟨rfl, rfl⟩ := hr
          rw [hmod] at hge
          exact ⟨by simp, hpos, fun _ => Nat.le_antisymm hpos hge⟩
        · cases hread
          cases hr

end Output

/-! ## The phases of `send_response` -/

/-- The worker is in the loop of `send_response`: with `data` it has passed on the content up to its file position. -/
structure InLoop (content : List Byte) (w : Worker) (data : List Byte) : Prop where
  response : w.response = none
  snapshot : w.snapshot = content
  passed : w.passed ++ data = content.take w.fpos
  le : w.fpos ≤ content.length

def Phase (content : List Byte) (w : Worker) : Prop :=
  match w.pc with
  | .sendOpen => w.response = none ∧ w.snapshot = content ∧ w.passed = []
  | .sendTest done => InLoop content w [] ∧ (done = true → w.fpos = content.length)
  | .sendRead => InLoop content w []
  | .sendSend data done => InLoop content w data ∧ (done = true → w.fpos = content.length)
  | .sendResult => w.response = none ∧ (w.passed = w.snapshot ∨ w.shutdown = true)
  | .sendClose result | .sendUnlock result => w.response = none ∧ (result = true → w.passed = w.snapshot)
  | .closeClient | .exited => w.response = some true → w.passed = w.snapshot
  | _ => w.response = none ∧ w.passed = []

namespace Phase
variable {content content' : List Byte} {w w' : Worker}

theorem answered (h : Phase content w) (hr : w.response = some true) : w.passed = w.snapshot := by
  have hnone : w.response = none → w.passed = w.snapshot := fun hn => by rw [hr] at hn; cases hn
  unfold Phase at h
  split at h
  · exact hnone h.1
  · exact hnone h.1.response
  · exact hnone h.response
  · exact hnone h.1.response
  · exact hnone h.1
  · exact hnone h.1
  · exact hnone h.1
  · exact h hr
  · exact h hr
  · exact hnone h.1

theorem frame (h : Phase content w) (hs : w.pc.sending = false) : Phase content' w := by
  unfold Phase at h ⊢
  cases hpc : w.pc <;> simp_all [WorkerPc.sending]

theorem shutdown (h : Phase content w) : Phase content { w with shutdown := true } := by
  have hloop : ∀ data, InLoop content w data → InLoop content { w with shutdown := true } data :=
    fun data hl => ⟨hl.response, hl.snapshot, hl.passed, hl.le⟩
  unfold Phase at h ⊢
  dsimp only
  split <;> simp_all

variable {c : Config} {i : Nat} {out out' : Output} {a : Answer}

theorem exec (h : Phase out.content w) (hsound : out.Sound c.K)
    (hexec : w.exec c i out a = .ok (w', out')) : Phase out'.content w' := by
  unfold Phase at h
  cases Worker.exec_step hexec with
  | recvWrite buf done ok out1 hpc hwrite =>
      rw [hpc] at h
      cases ok <;> exact h
  | recvReturnFails error hpc hstop =>
      rw [hpc] at h
      intro hr
      rw [h.1] at hr
      cases hr
  | sendLock hpc =>
      rw [hpc] at h
      exact ⟨h.1, rfl, h.2⟩
  | sendOpen hpc hopen =>
      rw [hpc] at h
      exact ⟨⟨h.1, h.2.1, by simp [h.2.2], Nat.zero_le _⟩, by simp⟩
  | sendOpenFails hpc hopen =>
      rw [hpc] at h
      exact ⟨h.1, by simp⟩
  | sendTest hpc hgo =>
      rw [hpc] at h
      exact ⟨h.1.response, h.1.snapshot, h.1.passed, h.1.le⟩
  | sendDone hpc =>
      rw [hpc] at h
      obtain ⟨hloop, hdone⟩ := h
      refine ⟨hloop.response, Or.inl ?_⟩
      dsimp only
      rw [hloop.snapshot, ← List.append_nil w.passed, hloop.passed, hdone rfl, List.take_length]
  | sendShutdown hpc hstop =>
      rw [hpc] at h
      exact ⟨h.1.response, Or.inr hstop⟩
  | sendRead data fpos hpc hread =>
      rw [hpc] at h
      obtain ⟨hbytes, hle, hdone⟩ := Output.read_spec hsound h.le c.bufSize_pos hread
      refine ⟨⟨h.response, h.snapshot, ?_, hle⟩, fun hd => hdone (List.isEmpty_iff.mp hd)⟩
      dsimp only
      rw [hbytes, ← h.passed, List.append_nil]
  | sendReadFails fpos hpc =>
      rw [hpc] at h
      exact ⟨h.response, by simp⟩
  | sendSend data done hpc hsend =>
      rw [hpc] at h
      obtain ⟨hloop, hdone⟩ := h
      refine ⟨⟨hloop.response, hloop.snapshot, ?_, hloop.le⟩, hdone⟩
      rw [List.append_nil]
      exact hloop.passed
  | sendSendFails data done hpc hsend =>
      rw [hpc] at h
      exact ⟨h.1.response, by simp⟩
  | sendResult hpc =>
      rw [hpc] at h
      refine ⟨h.1, fun hr => h.2.resolve_right ?_⟩
      simpa using hr
  | sendUnlock result hpc =>
      rw [hpc] at h
      intro hr
      exact h.2 (Option.some.inj hr)
  | exited hpc =>
      unfold Phase
      exact h
  | _ =>
      simp only [*] at h
      exact h

end Phase

/-! ## Runs -/

/-- Who writes has the lock, so while a worker is sending nothing is written. -/
theorem SysInv.output_of_sending {c : Config} {s s' : System} (h : SysInv s) {l : Label} (ht : Trans c s l s') {i : Nat}
    {w : Worker} (hw : s.workers i = some w) (hs : w.pc.sending = true) : s'.output = s.output := by
  have hlocked := (h.code i).mpr ⟨w, hw, by simp [WorkerPc.holds, hs]⟩
  cases ht with
  | code j a v v' out lock order hh hv hexec hlock =>
      rcases Worker.exec_output hexec with ⟨buf, done, ok, hpc, -, -⟩ | ⟨-, rfl, -⟩
      · have hwriter := (h.code j).mpr ⟨v, hv, by rw [hpc]; rfl⟩
        rw [hlocked, Option.some.injEq, Ctx.code.injEq] at hwriter
        subst hwriter
        rw [hw] at hv
        cases hv
        rw [hpc] at hs
        cases hs
      · rfl
  | handler j a p p' out lock order hp hexec hlock =>
      rcases AlarmPc.exec_output hexec with ⟨text, ok, hpc, -⟩ | ⟨-, rfl⟩
      · have hwriter := (h.handler j).mpr ⟨p, hp, by rw [hpc]; rfl⟩
        rw [hlocked] at hwriter
        cases hwriter
      · rfl
  | _ => rfl

structure RespInv (c : Config) (s : System) : Prop where
  inv : SysInv s
  sound : s.output.Sound c.K
  phase : ∀ i w, s.workers i = some w → Phase s.output.content w

namespace RespInv
variable {c : Config} {s : System}

theorem init {out : Output} (h : out.Sound c.K) : RespInv c { output := out } :=
  ⟨.init out, h, fun i w hw => by simp at hw⟩

theorem frame (h : RespInv c s) {l : Label} {s' : System} (ht : Trans c s l s') {i : Nat} {w : Worker}
    (hw : s.workers i = some w) : Phase s'.output.content w := by
  have hphase := h.phase i w hw
  cases hs : w.pc.sending with
  | false => exact hphase.frame hs
  | true =>
      rw [h.inv.output_of_sending ht hw hs]
      exact hphase

theorem trans (h : RespInv c s) {l : Label} {s' : System} (ht : Trans c s l s') : RespInv c s' := by
  refine ⟨h.inv.trans ht, ?_, ?_⟩
  · rcases ht.output with hsame | ⟨buf, a, ok, hwrite⟩
    · rw [hsame]
      exact h.sound
    · exact h.sound.write hwrite
  · exact ht.workers (fun i w hw => h.frame ht hw) (fun i => ⟨rfl, rfl⟩) (fun i w hw => hw.shutdown)
      fun i a w w' _ hw hexec _ _ => (h.phase i w hw).exec h.sound hexec

theorem of_run {out : Output} (hout : out.Sound c.K) (labels : List Label) :
    RespInv c (run (System.step c) { output := out } labels) :=
  Along.invariant (fun s l h _ => h.trans (step_trans c s l)) (init hout) (along_of_forall (fun _ _ => trivial) _)

end RespInv

/-- A `send` of the step takes all its bytes or fails. -/
def SendsWhole : Label → Prop
  | .run _ a => a.send.whole = true
  | _ => True

def SentAll (s : System) : Prop := ∀ i w, s.workers i = some w → w.sent = w.passed

theorem Worker.exec_sent {c : Config} {i : Nat} {out out' : Output} {a : Answer} {w w' : Worker}
    (hexec : w.exec c i out a = .ok (w', out')) (hsend : a.send.whole = true) (h : w.sent = w.passed) :
    w'.sent = w'.passed := by
  cases Worker.exec_step hexec with
  | sendSend data done hpc hfails =>
      cases hs : a.send with
      | fails => exact absurd hs hfails
      | all => simp [Transfer.count, h]
      | atMost k =>
          rw [hs] at hsend
          cases hsend
  | _ => exact h

theorem sentAll_of_run (c : Config) (out : Output) {labels : List Label} (hl : ∀ l ∈ labels, SendsWhole l) :
    SentAll (run (System.step c) { output := out } labels) := by
  have hinit : SentAll { output := out } := fun i w hw => by simp at hw
  refine Along.invariant (fun s l h hl => ?_) hinit (along_of_forall hl _)
  refine (step_trans c s l).workers h (fun _ => rfl) (fun _ _ hw => hw) fun i a w w' heq hw hexec _ _ => ?_
  subst heq
  exact Worker.exec_sent hexec hl (h i w hw)

end Aesd.Server
