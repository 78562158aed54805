import Aesd.Server.Response

/-!
# Short sends

`send_response` does not look at the number of bytes that `send` took.

* `sendsShort` : a `send` that took fewer bytes than it was offered;
* `response_complete_iff` : the runs in which a response has the whole content, and those in which what was sent is a
  prefix of it.
-/

namespace Aesd.Server
open Driver Lib

/-- The `send` of the step takes some of its bytes, and not all. -/
def Worker.sendsShort (a : Answer) (w : Worker) : Bool :=
  match w.pc with
  | .sendSend data _ => decide (a.send ≠ .fails ∧ a.send.count data.length < data.length)
  | _ => false

def sendsShort (i : Nat) (s : System) : Label → Bool
  | .run j a => decide (j = i) && (s.handlers i).isNone && (s.workers i).any (Worker.sendsShort a)
  | _ => false

theorem Transfer.count_le (n : Nat) (t : Transfer) : t.count n ≤ n := by
  cases t with
  | fails => exact Nat.zero_le n
  | all => exact Nat.le_refl n
  | atMost k => exact Nat.min_le_left _ _

/-! ## What was sent and what was passed -/

section Exec
variable {c : Config} {i : Nat} {out out' : Output} {a : Answer} {w w' : Worker}

/-- A step passes something to `send`, or leaves the record of it as it is. -/
theorem Worker.exec_passed (hexec : w.exec c i out a = .ok (w', out')) :
    (∃ data done, w.pc = .sendSend data done ∧ a.send ≠ .fails ∧ w'.passed = w.passed ++ data ∧
      w'.sent = w.sent ++ data.take (a.send.count data.length)) ∨
    (w.sendsShort a = false ∧ w'.passed = w.passed ∧ w'.sent = w.sent) := by
  cases Worker.exec_step hexec with
  | sendSend data done hpc hsend => exact Or.inl ⟨data, done, hpc, hsend, rfl, rfl⟩
  | sendSendFails data done hpc hsend => exact Or.inr ⟨by simp [Worker.sendsShort, hpc, hsend], rfl, rfl⟩
  | _ => exact Or.inr ⟨by simp [Worker.sendsShort, *], rfl, rfl⟩

theorem Worker.exec_sent_whole (hexec : w.exec c i out a = .ok (w', out')) (hshort : w.sendsShort a = false)
    (h : w.sent = w.passed) : w'.sent = w'.passed := by
  rcases Worker.exec_passed hexec with ⟨data, done, hpc, hsend, hpassed, hsent⟩ | ⟨-, hpassed, hsent⟩
  · have hall : data.length ≤ a.send.count data.length := by
      simpa [Worker.sendsShort, hpc, hsend] using hshort
    rw [hpassed, hsent, h, List.take_of_length_le hall]
  · rw [hpassed, hsent, h]

theorem Worker.exec_sent_lt (hexec : w.exec c i out a = .ok (w', out')) (hle : w.sent.length ≤ w.passed.length) :
    w'.sent.length ≤ w'.passed.length ∧
      (w.sent.length < w.passed.length ∨ w.sendsShort a = true → w'.sent.length < w'.passed.length) := by
  rcases Worker.exec_passed hexec with ⟨data, done, hpc, hsend, hpassed, hsent⟩ | ⟨hshort, hpassed, hsent⟩
  · have hcount := a.send.count_le data.length
    rw [hpassed, hsent, List.length_append, List.length_append, List.length_take]
    refine ⟨by omega, fun h => ?_⟩
    rcases h with h | h
    · omega
    · have : a.send.count data.length < data.length := by
        simpa [Worker.sendsShort, hpc, hsend] using h
      omega
  · rw [hpassed, hsent]
    refine ⟨hle, fun h => h.resolve_right ?_⟩
    simp [hshort]

/-- What was passed to `send` is a prefix of what the response saw. -/
theorem Worker.exec_passed_prefix (hexec : w.exec c i out a = .ok (w', out')) (hphase : Phase out.content w)
    (h : w.passed <+: w.snapshot) : w'.passed <+: w'.snapshot := by
  unfold Phase at hphase
  cases Worker.exec_step hexec with
  | sendLock hpc =>
      rw [hpc] at hphase
      dsimp only
      rw [hphase.2]
      exact List.nil_prefix
  | sendSend data done hpc hsend =>
      rw [hpc] at hphase
      dsimp only
      rw [hphase.1.passed, hphase.1.snapshot]
      exact List.take_prefix _ _
  | _ => exact h

end Exec

/-! ## Runs -/

structure SendInv (c : Config) (s : System) : Prop where
  resp : RespInv c s
  le : ∀ i w, s.workers i = some w → w.sent.length ≤ w.passed.length
  passed : ∀ i w, s.workers i = some w → w.passed <+: w.snapshot
  snapshot : ∀ i w, s.workers i = some w → w.pc.sending = true → w.snapshot = s.output.content

namespace SendInv
variable {c : Config} {s : System}

theorem init {out : Output} (h : out.Sound c.K) : SendInv c { output := out } :=
  ⟨.init h, fun i w hw => by simp at hw, fun i w hw => by simp at hw, fun i w hw => by simp at hw⟩

theorem trans (h : SendInv c s) {l : Label} {s' : System} (ht : Trans c s l s') : SendInv c s' := by
  refine ⟨h.resp.trans ht, ?_, ?_, ?_⟩
  · exact ht.workers h.le (fun _ => Nat.le_refl _) (fun _ _ hw => hw)
      fun i a w w' _ hw hexec _ _ => (Worker.exec_sent_lt hexec (h.le i w hw)).1
  · exact ht.workers h.passed (fun _ => List.nil_prefix) (fun _ _ hw => hw)
      fun i a w w' _ hw hexec _ _ => Worker.exec_passed_prefix hexec (h.resp.phase i w hw) (h.passed i w hw)
  · refine ht.workers (fun i w hw hs => ?_) (fun _ hs => by cases hs) (fun _ _ hw => hw)
      fun i a w w' _ hw hexec _ _ hs => ?_
    · rw [h.resp.inv.output_of_sending ht hw hs]
      exact h.snapshot i w hw hs
    · rcases (Worker.exec_next hexec).1.sending hs with hold | hpc
      · rw [h.resp.inv.output_of_sending ht hw hold, ← h.snapshot i w hw hold]
        refine (Worker.exec_response hexec).1.resolve_right fun hc => ?_
        rw [hc.1] at hold
        cases hold
      · rw [Worker.exec, hpc, Except.ok.injEq, Prod.mk.injEq] at hexec
        obtain ⟨rfl, hout⟩ := hexec
        rw [← hout]

theorem of_run {out : Output} (hout : out.Sound c.K) (labels : List Label) :
    SendInv c (run (System.step c) { output := out } labels) :=
  Along.invariant (fun s l h _ => h.trans (step_trans c s l)) (init hout) (along_of_forall (fun _ _ => trivial) _)

end SendInv

theorem sent_eq_passed {c : Config} {out : Output} {i : Nat} {labels : List Label}
    (ha : Along (System.step c) (fun s l => sendsShort i s l = false) { output := out } labels) {w : Worker}
    (hw : (run (System.step c) { output := out } labels).workers i = some w) : w.sent = w.passed := by
  have hinit : ∀ w, ({ output := out } : System).workers i = some w → w.sent = w.passed := fun w hw => by simp at hw
  refine Along.invariant (I := fun s => ∀ w, s.workers i = some w → w.sent = w.passed) (fun s l h hl v hv => ?_) hinit ha
    w hw
  have ht := step_trans c s l
  cases hold : s.workers i with
  | none =>
      -- the worker is new
      have hnew := ht.workers (P := fun j u => j = i → u.sent = u.passed) (fun j u hu hj => by
        subst hj
        rw [hold] at hu
        cases hu) (fun _ _ => rfl) (fun _ _ hu => hu) (fun j a u u' _ hu _ _ _ hj => by
        subst hj
        rw [hold] at hu
        cases hu)
      exact hnew i v hv rfl
  | some u =>
      rcases ht.worker hold with hsame | hflag | ⟨a, u', out', rfl, hh, hexec, hu'⟩
      · rw [hsame, Option.some.injEq] at hv
        exact hv ▸ h u hold
      · rw [hflag, Option.some.injEq] at hv
        exact hv ▸ h u hold
      · rw [hu', Option.some.injEq] at hv
        subst hv
        refine Worker.exec_sent_whole hexec ?_ (h u hold)
        simpa [sendsShort, hh, hold] using hl

theorem step_short {c : Config} {s : System} {i : Nat} {a : Answer} {w : Worker} (hh : s.handlers i = none)
    (hw : s.workers i = some w) (hs : w.sendsShort a = true) :
    ∃ w' out', w.exec c i s.output a = .ok (w', out') ∧ (s.step c (.run i a)).workers i = some w' := by
  unfold Worker.sendsShort at hs
  split at hs
  · next data done hpc =>
      have hsend : a.send ≠ .fails := (of_decide_eq_true hs).1
      have hexec : w.exec c i s.output a = .ok ({ w with
          pc := .sendTest done, passed := w.passed ++ data, sent := w.sent ++ data.take (a.send.count data.length) },
          s.output) := by
        unfold Worker.exec
        rw [hpc]
        cases hs : a.send with
        | fails => exact absurd hs hsend
        | all => rfl
        | atMost k => rfl
      refine ⟨_, _, hexec, ?_⟩
      simp [System.step, hh, hw, System.stepCode, hexec, hpc, WorkerPc.lockOp]
  · cases hs

theorem sent_lt_passed {c : Config} {out : Output} (hout : out.Sound c.K) (i : Nat) (labels : List Label) :
    Along (System.step c) (fun s l => sendsShort i s l = false) { output := out } labels ∨
      ∃ w, (run (System.step c) { output := out } labels).workers i = some w ∧ w.sent.length < w.passed.length := by
  refine Or.imp_right And.right (along_or (I := SendInv c)
    (J := fun s => SendInv c s ∧ ∃ w, s.workers i = some w ∧ w.sent.length < w.passed.length)
    (fun s l h => h.trans (step_trans c s l)) (fun s l h hshort => ?_) (fun s l h => ?_) (SendInv.init hout) labels)
  · refine ⟨h.trans (step_trans c s l), ?_⟩
    cases l with
    | run j a =>
        simp only [sendsShort, Bool.not_eq_false, Bool.and_eq_true, decide_eq_true_eq, Option.isNone_iff_eq_none,
          Option.any_eq_true] at hshort
        obtain ⟨⟨rfl, hh⟩, w, hw, hws⟩ := hshort
        obtain ⟨w', out', hexec, hw'⟩ := step_short (c := c) hh hw hws
        exact ⟨w', hw', (Worker.exec_sent_lt hexec (h.le j w hw)).2 (Or.inr hws)⟩
    | _ => simp [sendsShort] at hshort
  · obtain ⟨hinv, w, hw, hlt⟩ := h
    refine ⟨hinv.trans (step_trans c s l), ?_⟩
    rcases (step_trans c s l).worker hw with hsame | hflag | ⟨a, w', out', rfl, -, hexec, hw'⟩
    · exact ⟨w, hsame, hlt⟩
    · exact ⟨_, hflag, hlt⟩
    · exact ⟨w', hw', (Worker.exec_sent_lt hexec (hinv.le i w hw)).2 (Or.inl hlt)⟩

/-- **When the response is complete.** In every run, whatever the reads, sends and deliveries of the shutdown flag: what
the response saw is the content for as long as it is sent; if no `send` of the worker is short, what was sent is a prefix
of it in every state; and if `send_response` returned true, what was sent is the whole of it exactly if no `send` was
short. -/
theorem response_complete_iff (c : Config) (out : Output) (hout : out.Sound c.K) (i : Nat) (labels : List Label)
    (s : System) (hs : s = run (System.step c) { output := out } labels) (w : Worker) (hw : s.workers i = some w) :
    (w.pc.sending = true → w.snapshot = s.output.content) ∧
      (Along (System.step c) (fun s l => sendsShort i s l = false) { output := out } labels → w.sent <+: w.snapshot) ∧
      (w.response = some true → (w.sent = w.snapshot ↔
        Along (System.step c) (fun s l => sendsShort i s l = false) { output := out } labels)) := by
  subst hs
  have hinv := SendInv.of_run hout labels
  refine ⟨hinv.snapshot i w hw, fun ha => ?_, fun hr => ?_⟩
  · rw [sent_eq_passed ha hw]
    exact hinv.passed i w hw
  · have hpassed := (hinv.resp.phase i w hw).answered hr
    constructor
    · intro heq
      refine (sent_lt_passed hout i labels).resolve_right ?_
      rintro ⟨v, hv, hlt⟩
      rw [hw] at hv
      cases hv
      rw [heq, hpassed] at hlt
      exact absurd hlt (Nat.lt_irrefl _)
    · intro ha
      rw [sent_eq_passed ha hw, hpassed]

/-- A client that sends a packet of one letter, with `send` for its response. -/
def letterRun (send : Transfer) : List Label :=
  .spawn 0 :: List.replicate 21 (.run 0 { letterAnswer 97 with send := send })

theorem response_complete_iff_letter :
    ∃ w, (run (System.step .aesdsocket) { output := .file [] } (letterRun .all)).workers 0 = some w ∧
      w.response = some true ∧ w.sent = w.snapshot := by
  obtain ⟨w, hw, hr⟩ : ∃ w, (run (System.step .aesdsocket) { output := .file [] } (letterRun .all)).workers 0 = some w ∧
      w.response = some true := by
    simpa using (Option.any_eq_true (fun w : Worker => w.response = some true)
      ((run (System.step .aesdsocket) { output := .file [] } (letterRun .all)).workers 0)).mp (by decide +kernel)
  obtain ⟨-, -, hiff⟩ := response_complete_iff .aesdsocket (.file []) trivial 0 (letterRun .all) _ rfl w hw
  exact ⟨w, hw, hr, (hiff hr).mpr (by decide +kernel)⟩

/-- A `send` that takes one byte of two: the response is reported as sent and lacks the newline. -/
theorem short_send_loses_bytes :
    ¬ ∀ (c : Config) (out : Output), out.Sound c.K → ∀ (i : Nat) (labels : List Label) (w : Worker),
      (run (System.step c) { output := out } labels).workers i = some w →
        w.sent <+: w.snapshot ∧ (w.response = some true → w.sent = w.snapshot) := by
  intro hall
  obtain ⟨w, hw, hr⟩ : ∃ w, (run (System.step .aesdsocket) { output := .file [] } (letterRun (.atMost 0))).workers 0 =
      some w ∧ (w.response = some true ∧ w.sent ≠ w.snapshot) := by
    simpa using (Option.any_eq_true (fun w : Worker => w.response = some true ∧ w.sent ≠ w.snapshot)
      ((run (System.step .aesdsocket) { output := .file [] } (letterRun (.atMost 0))).workers 0)).mp (by decide +kernel)
  exact hr.2 ((hall .aesdsocket (.file []) trivial 0 (letterRun (.atMost 0)) w hw).2 hr.1)

end Aesd.Server
