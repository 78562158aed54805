import Aesd.Driver.PacketLog
import Aesd.Driver.Simulation

/-!
# Concurrent callers of the packet log

What the device is for under any interleaving. The calls take effect one after the other, and the order they take effect
in is a run of the packet log, failed calls included:

* `PacketLog.apply`, `PacketLog.replay` : the effect of a call on the log, read off the value it returned. A write that
  was interrupted before the ring leaves its bytes pending and does not cut;
* `PacketLog.answer` : what the log answers to a call. A read gets the rest of the packet at the position of its open
  file, cut to the bytes asked for, unless it fails;
* `delivered` : the number of bytes that the reads through one open file delivered, which is its position;
* `Replays` : a sequential run of calls is a run of the log, and every call returns the log's answer.
-/

namespace Aesd.Driver
open Lib

/-- The log after a call that returned `e.val`. -/
def PacketLog.apply {K : Kernel} (log : PacketLog) (e : Effect (Call K) Ret) : PacketLog :=
  match e.op with
  | .write _ buf _ =>
    if e.val.result = buf.val.length then log.write buf.val
    else if e.val.result = -EINTR then ⟨log.committed, log.pending ++ buf.val⟩
    else log
  | .read _ _ _ => log

def PacketLog.replay {K : Kernel} (log : PacketLog) (es : List (Effect (Call K) Ret)) : PacketLog :=
  es.foldl PacketLog.apply log

def PacketLog.content (log : PacketLog) : List Byte := (log.committed.rtake 10).flatten

/-- What a call returns at the log, with the open files at `pos`. -/
def PacketLog.answer {K : Kernel} (log : PacketLog) (pos : Nat → Nat) : Call K → Ret
  | .write _ buf o =>
    if o.entryLock then
      if o.kzalloc ∧ log.pending.length + buf.val.length ≤ K.kmallocMax then
        if o.bufLock then ⟨(buf.val.length : Int), []⟩ else ⟨-EINTR, []⟩
      else ⟨-ENOMEM, []⟩
    else ⟨-ERESTARTSYS, []⟩
  | .read filp count o =>
    if o.bufLock then
      if o.copyToUser ∨ log.content.length ≤ pos filp then
        let data := packetRest log.committed (pos filp) count
        ⟨(data.length : Int), data⟩
      else ⟨-EFAULT, []⟩
    else ⟨-ERESTARTSYS, []⟩

def delivered {K : Kernel} (filp : Nat) (es : List (Effect (Call K) Ret)) : Nat :=
  (es.map fun e =>
    match e.op with
    | .write _ _ _ => 0
    | .read f _ _ => if f = filp then e.val.data.length else 0).sum

/-- A write of at least one byte whose copy from user space succeeds, or a read. -/
def Copies {K : Kernel} : Call K → Prop
  | .write _ buf o => buf.val ≠ [] ∧ o.copyFromUser = true
  | .read _ _ _ => True

/-! ## One call -/

variable {K : Kernel} {s : AesdDev} {items : List AesdBufferEntry}

/-- A call that returned an error other than the interruption before the ring. -/
theorem PacketLog.apply_failed (log : PacketLog) {id filp : Nat} {buf : K.UserBuf} {o : WriteOutcome} {r : Int}
    (hneg : r < 0) (hr : r ≠ -EINTR) : log.apply ⟨id, .write filp buf o, ⟨r, []⟩⟩ = log := by
  have hlen : r ≠ (buf.val.length : Int) := by omega
  unfold PacketLog.apply
  dsimp only
  rw [if_neg hlen, if_neg hr]

/-- A write returns the log's answer and refines the log by it, whatever failed but the copy. -/
theorem Refines.write_any {log : PacketLog} (h : Refines K s log) {buf : K.UserBuf} (hne : buf.val ≠ [])
    {o : WriteOutcome} (hcopy : o.copyFromUser = true) (pos : Nat → Nat) (id filp : Nat) :
    ∃ r s', aesdWrite K s buf o = .ok (r, s') ∧ log.answer pos (.write filp buf o) = ⟨r, []⟩ ∧
      Refines K s' (log.apply ⟨id, .write filp buf o, ⟨r, []⟩⟩) := by
  have hgrant_iff : Granted K s buf.val.length o ↔
      o.kzalloc = true ∧ log.pending.length + buf.val.length ≤ K.kmallocMax := by
    obtain ⟨items, hinv⟩ := h.inv
    rw [Granted, allocSize_eq hinv h.pending buf.property]
  simp only [PacketLog.answer, ← hgrant_iff]
  by_cases hserved : Served K s buf o
  · obtain ⟨s', hw, href, -⟩ := h.write hserved hne
    refine ⟨_, s', hw, by rw [if_pos hserved.1, if_pos hserved.2.1, if_pos hserved.2.2.2], ?_⟩
    unfold PacketLog.apply
    dsimp only
    rw [if_pos rfl]
    exact href
  · obtain ⟨items, hinv⟩ := h.inv
    rw [aesdWrite_eq hinv h.pending, if_pos hcopy]
    by_cases hlock : o.entryLock = true
    · by_cases hgrant : Granted K s buf.val.length o
      · have hbuf : ¬ o.bufLock = true := fun hbuf => hserved ⟨hlock, hgrant, hcopy, hbuf⟩
        have hle : log.pending.length + buf.val.length ≤ K.kmallocMax := (hgrant_iff.mp hgrant).2
        rw [if_pos hlock, if_pos hgrant, if_neg hbuf, if_pos hlock, if_pos hgrant, if_neg hbuf]
        refine ⟨-EINTR, _, rfl, rfl, ?_⟩
        have hlen : -EINTR ≠ (buf.val.length : Int) := by
          unfold EINTR
          omega
        unfold PacketLog.apply
        dsimp only
        rw [if_neg hlen, if_pos rfl]
        exact ⟨⟨items, hinv.stored hle⟩, (Inv.pend_stored hle).pending, h.committed⟩
      · rw [if_pos hlock, if_neg hgrant, if_pos hlock, if_neg hgrant]
        refine ⟨-ENOMEM, s, rfl, rfl, ?_⟩
        rw [PacketLog.apply_failed log (by decide) (by decide)]
        exact h
    · rw [if_neg hlock, if_neg hlock]
      refine ⟨-ERESTARTSYS, s, rfl, rfl, ?_⟩
      rw [PacketLog.apply_failed log (by decide) (by decide)]
      exact h

theorem Refines.readable_content {log : PacketLog} (h : Refines K s log) : s.readable = log.content := h.readable

theorem Refines.read_any {log : PacketLog} (h : Refines K s log) {pos : Nat → Nat} {filp : Nat}
    (hpos : pos filp < 2 ^ K.width) (count : Nat) (o : ReadOutcome) :
    ∃ ret, aesdRead K s (pos filp) count o = .ok ret ∧
      log.answer pos (.read filp count o : Call K) = ⟨ret.result, ret.data⟩ ∧
      ret.fpos = pos filp + ret.data.length := by
  obtain ⟨items, hinv⟩ := h.inv
  rw [aesdRead_eq hinv, Nat.mod_eq_of_lt hpos, h.readable_content, h.committed]
  simp only [PacketLog.answer]
  split_ifs <;> exact ⟨_, rfl, rfl, rfl⟩

theorem packetRest_prefix_flatten (packets : List (List Byte)) (pos count : Nat) :
    packetRest packets pos count <+: (packets.rtake 10).flatten.drop pos :=
  (List.take_prefix _ _).trans (restAt_prefix_drop _ _)

/-- The bytes that a read returns are content of the log at its position, and inside one packet. -/
theorem PacketLog.answer_read (log : PacketLog) (pos : Nat → Nat) (filp count : Nat) (o : ReadOutcome) :
    (log.answer pos (.read filp count o : Call K)).data <+: log.content.drop (pos filp) ∧
      ((log.answer pos (.read filp count o : Call K)).data ≠ [] →
        ∃ packet ∈ log.committed.rtake 10, (log.answer pos (.read filp count o : Call K)).data <:+: packet) := by
  simp only [PacketLog.answer]
  split_ifs
  · refine ⟨packetRest_prefix_flatten _ _ _, fun hne => ?_⟩
    have hrest : restAt (log.committed.rtake 10) (pos filp) ≠ [] := by
      intro hnil
      rw [packetRest, hnil, List.take_nil] at hne
      exact hne rfl
    obtain ⟨packet, hmem, hsuffix⟩ := restAt_mem hrest
    exact ⟨packet, hmem, (List.take_prefix _ _).isInfix.trans hsuffix.isInfix⟩
  · exact ⟨List.nil_prefix, fun hne => absurd rfl hne⟩
  · exact ⟨List.nil_prefix, fun hne => absurd rfl hne⟩

/-! ## Sequential runs -/

/-- The state after the calls of `es` stands for the log after them, and every position is the number of bytes that were
delivered. -/
structure Replays (K : Kernel) (s : State) (es : List (Effect (Call K) Ret)) : Prop where
  refines : Refines K s.dev (PacketLog.replay {} es)
  fpos : ∀ filp, s.fpos filp = delivered filp es
  fpos_lt : ∀ filp, s.fpos filp < 2 ^ K.width

theorem replays_init (K : Kernel) : Replays K State.init [] :=
  ⟨refines_init K, fun _ => rfl, fun _ => Nat.two_pow_pos _⟩

theorem delivered_concat (filp : Nat) (es : List (Effect (Call K) Ret)) (e : Effect (Call K) Ret) :
    delivered filp (es ++ [e]) = delivered filp es + delivered filp [e] := by
  simp [delivered]

theorem replay_concat (log : PacketLog) (es : List (Effect (Call K) Ret)) (e : Effect (Call K) Ret) :
    log.replay (es ++ [e]) = (log.replay es).apply e := by
  simp [PacketLog.replay]

/-- What the call `e` after the calls of `es` returned. -/
structure Returns (es : List (Effect (Call K) Ret)) (e : Effect (Call K) Ret) : Prop where
  answer : e.val = (PacketLog.replay {} es).answer (fun filp => delivered filp es) e.op
  read : ∀ filp count o, e.op = .read filp count o →
    e.val.data <+: (PacketLog.replay {} es).content.drop (delivered filp es) ∧
      (e.val.data ≠ [] → ∃ packet ∈ (PacketLog.replay {} es).committed.rtake 10, e.val.data <:+: packet)

/-- The log's answer is all there is to say of a read. -/
theorem Returns.of_answer {es : List (Effect (Call K) Ret)} {e : Effect (Call K) Ret}
    (h : e.val = (PacketLog.replay {} es).answer (fun filp => delivered filp es) e.op) : Returns es e where
  answer := h
  read filp count o hop := by
    rw [h, hop]
    exact PacketLog.answer_read _ _ filp count o

theorem Replays.call {σ : State} {es : List (Effect (Call K) Ret)} (h : Replays K σ es) {c : Call K} (hc : Copies c)
    {v : Ret} {σ' : State} (hcall : applyCall K σ c = .ok (v, σ')) (id : Nat) :
    Replays K σ' (es ++ [⟨id, c, v⟩]) ∧ Returns es ⟨id, c, v⟩ := by
  have hpos : σ.fpos = fun filp => delivered filp es := funext h.fpos
  cases c with
  | write filp buf o =>
      obtain ⟨r, s', hw, hanswer, href⟩ := h.refines.write_any hc.1 hc.2 (fun filp => delivered filp es) id filp
      rw [applyCall_write hw] at hcall
      cases hcall
      refine ⟨⟨?_, fun f => ?_, h.fpos_lt⟩, .of_answer hanswer.symm⟩
      · rw [replay_concat]
        exact href
      · rw [delivered_concat]
        exact h.fpos f
  | read filp count o =>
      obtain ⟨ret, hr, hanswer, hmove⟩ := h.refines.read_any (h.fpos_lt filp) count o
      have hreturns : Returns es ⟨id, .read filp count o, ⟨ret.result, ret.data⟩⟩ :=
        .of_answer (by rw [← hpos]; exact hanswer.symm)
      rw [applyCall_read hr] at hcall
      cases hcall
      have hone : ∀ f, delivered f [(⟨id, .read filp count o, ⟨ret.result, ret.data⟩⟩ : Effect (Call K) Ret)] =
          if filp = f then ret.data.length else 0 := by
        intro f
        simp [delivered]
      refine ⟨⟨?_, fun f => ?_, fun f => ?_⟩, hreturns⟩
      · rw [replay_concat]
        exact h.refines
      · rw [delivered_concat, hone, ← h.fpos f]
        show Function.update σ.fpos filp ret.fpos f = _
        by_cases hf : f = filp
        · rw [hf, Function.update_self, if_pos rfl, hmove]
        · rw [Function.update_of_ne hf, if_neg (Ne.symm hf), Nat.add_zero]
      · show Function.update σ.fpos filp ret.fpos f < _
        by_cases hf : f = filp
        · rw [hf, Function.update_self, hmove]
          by_cases hne : ret.data = []
          · rw [hne, List.length_nil, Nat.add_zero]
            exact h.fpos_lt filp
          · obtain ⟨items, hinv⟩ := h.refines.inv
            have hlt := hinv.total_lt
            rw [← hinv.length_readable, h.refines.readable_content] at hlt
            have hle : ret.data.length ≤ _ := (hreturns.read filp count o rfl).1.length_le
            rw [List.length_drop, ← h.fpos filp] at hle
            have hdata := List.length_pos_iff.mpr hne
            omega
        · rw [Function.update_of_ne hf]
          exact h.fpos_lt f

theorem runCalls_concat_ok {calls : List (Call K)} {c : Call K} {s s2 : State} {rets : List Ret}
    (h : runCalls K s (calls ++ [c]) = .ok (rets, s2)) :
    ∃ rets' v s1, runCalls K s calls = .ok (rets', s1) ∧ applyCall K s1 c = .ok (v, s2) ∧ rets = rets' ++ [v] := by
  induction calls generalizing s rets with
  | nil =>
      obtain ⟨⟨v, s1⟩, hc, h⟩ := bind_ok h
      cases h
      exact ⟨[], v, s, rfl, hc, rfl⟩
  | cons d ds ih =>
      obtain ⟨⟨r, s'⟩, hd, h⟩ := bind_ok h
      obtain ⟨⟨rs, s''⟩, hds, h⟩ := bind_ok h
      cases h
      obtain ⟨rets', v, s1, hrun, hc, rfl⟩ := ih hds
      refine ⟨r :: rets', v, s1, ?_, hc, rfl⟩
      simp only [runCalls, hd, hrun, bind, Except.bind]

theorem replays_of_run {es : List (Effect (Call K) Ret)} (hc : ∀ e ∈ es, Copies e.op) {σ : State}
    (hrun : runCalls K State.init (es.map Effect.op) = .ok (es.map Effect.val, σ)) :
    Replays K σ es ∧ ∀ before e after, es = before ++ e :: after → Returns before e := by
  induction es using List.reverseRecOn generalizing σ with
  | nil =>
      cases hrun
      exact ⟨replays_init K, fun before e after heq => by simp at heq⟩
  | append_singleton es e ih =>
      rw [List.map_append, List.map_append, List.map_singleton, List.map_singleton] at hrun
      obtain ⟨rets, v, s1, hes, hcall, hrets⟩ := runCalls_concat_ok hrun
      obtain ⟨hvals, hv⟩ := List.append_inj' hrets rfl
      obtain rfl : e.val = v := by simpa using hv
      rw [← hvals] at hes
      obtain ⟨hreplays, hreturns⟩ := ih (fun d hd => hc d (by simp [hd])) hes
      obtain ⟨hnext, hlast⟩ := hreplays.call (hc e (by simp)) hcall e.id
      refine ⟨hnext, fun before d after heq => ?_⟩
      rcases List.eq_nil_or_concat after with rfl | ⟨after, x, rfl⟩
      · obtain ⟨rfl, hd⟩ := List.append_inj' heq rfl
        obtain rfl : e = d := by simpa using hd
        exact hlast
      · rw [List.concat_eq_append, ← List.cons_append, ← List.append_assoc] at heq
        obtain ⟨hes', -⟩ := List.append_inj' heq rfl
        exact hreturns before d after hes'

/-! ## Concurrent runs -/

namespace Sim
variable {m : Machine K} {σ : State} {log : List (Effect (Call K) Ret)}

theorem write_ok (h : Sim m σ log) {l : PacketLog} (href : Refines K σ.dev l) {i : Nat} {r : Running K}
    (hr : m.callers i = some r) {buf : K.UserBuf} {o : WriteOutcome} {w : WritePc} (hpc : r.pc = .write buf o w)
    (hc : Copies (r.pc.call i)) : ∃ x, r.pc.exec m.dev (m.fpos i) = .ok x := by
  have hexec : ∃ x, execWrite K buf o m.dev w = .ok x := by
    have hok := (h.caller i r hr).ok
    rw [hpc] at hok hc
    cases hres : w.result with
    | some v =>
        unfold WritePc.result at hres
        split at hres
        · exact ⟨_, rfl⟩
        · exact ⟨_, rfl⟩
        · cases hres
    | none =>
        by_cases hheld : w.held = []
        · unfold WritePc.held at hheld
          split at hheld
          · exact ⟨_, rfl⟩
          · exact ⟨_, rfl⟩
          all_goals cases hheld
        · have hrun := hok hheld
          rw [hres] at hrun
          obtain ⟨ret, s', hw, -⟩ := href.write_any hc.1 hc.2 m.fpos r.id i
          have hwr := hrun.1
          rw [hw] at hwr
          exact Completes.not_fault hwr (by simp [hres])
  obtain ⟨x, hx⟩ := hexec
  rw [hpc]
  exact ⟨_, by rw [Pc.exec, hx]; rfl⟩

/-- A read in flight does not fault: while it holds `buf_lock`, no write changes the ring. -/
theorem read_ok (h : Sim m σ log) {i : Nat} {r : Running K} (hr : m.callers i = some r) {count : Nat}
    {o : ReadOutcome} {p : ReadPc} (hpc : r.pc = .read count o p) : ∃ x, r.pc.exec m.dev (m.fpos i) = .ok x := by
  have hexec : ∃ x, execRead K count o m.dev (m.fpos i) p = .ok x := by
    have hok := (h.caller i r hr).ok
    rw [hpc] at hok
    cases hres : p.result with
    | some v =>
        unfold ReadPc.result at hres
        split at hres
        · exact ⟨_, rfl⟩
        · exact ⟨_, rfl⟩
        · cases hres
    | none =>
        by_cases hheld : p.held = []
        · unfold ReadPc.held at hheld
          split at hheld
          · exact ⟨_, rfl⟩
          · exact ⟨_, rfl⟩
          · cases hheld
        · have hbuf : m.lock .bufLock = some i := (h.holder _ i).mpr ⟨r, hr, by rw [hpc]; exact ReadPc.bufLock_mem hheld⟩
          have hring : SameRing σ.dev m.dev := h.ring fun j hj hentry => by
            obtain rfl : i = j := Option.some.inj (hbuf.symm.trans hj)
            obtain ⟨q, hq, hmem⟩ := (h.holder _ i).mp hentry
            obtain rfl : r = q := Option.some.inj (hr.symm.trans hq)
            exact entryLock_not_mem hpc hmem
          obtain ⟨items, hinv⟩ := h.inv
          obtain ⟨ret, hread⟩ := aesdRead_total hinv (m.fpos i) count o
          obtain ⟨hrun, -⟩ := hok hheld hres
          rw [aesdRead_congr hring, hread] at hrun
          exact Completes.not_fault hrun (by simp [hres])
  obtain ⟨x, hx⟩ := hexec
  rw [hpc]
  exact ⟨_, by rw [Pc.exec, hx]; rfl⟩

end Sim

/-- **The device is a packet log for concurrent callers.** For every interleaving of any number of calls, interrupted and
out of memory ones included, whose writes have at least one byte and copy it from user space: the calls take effect in an
order in which each returns the log's answer, which for a read is the content at the position of its open file, out of one
packet; the order leaves the log's content and pending bytes in the device; and no caller ever comes to a fault. -/
theorem concurrent_packet_log (K : Kernel) (labels : List (Label K))
    (hc : ∀ id c, .inv id c ∈ ((Machine.init K).run labels).history → Copies c) :
    (∃ log, Linearizes ((Machine.init K).run labels).history log ∧
      (∀ before e after, log = before ++ e :: after → Returns before e) ∧
      (∀ filp, ((Machine.init K).run labels).fpos filp = delivered filp log) ∧
      (((Machine.init K).run labels).lock .entryLock = none →
        ((Machine.init K).run labels).dev.readable = (PacketLog.replay {} log).content ∧
        ((Machine.init K).run labels).dev.pending = some (PacketLog.replay {} log).pending)) ∧
    ∀ i r, ((Machine.init K).run labels).callers i = some r →
      ∃ x, r.pc.exec ((Machine.init K).run labels).dev (((Machine.init K).run labels).fpos i) = .ok x := by
  obtain ⟨σ, log, h⟩ := (Sim.init K).run labels
  obtain ⟨hreplays, hreturns⟩ := replays_of_run (fun e he => hc e.id e.op (h.lin.invoked e he)) h.replay
  refine ⟨⟨log, h.lin, hreturns, fun filp => ?_, fun hfree => ?_⟩, fun i r hr => ?_⟩
  · rw [← h.fpos]
    exact hreplays.fpos filp
  · rw [h.dev hfree]
    exact ⟨hreplays.refines.readable_content, hreplays.refines.pending⟩
  · have hcopies := hc _ _ (h.caller i r hr).invoked
    cases hpc : r.pc with
    | write buf o w =>
        have hok := h.write_ok hreplays.refines hr hpc hcopies
        rwa [hpc] at hok
    | read count o p =>
        have hok := h.read_ok hr hpc
        rwa [hpc] at hok

def threeCallers : Machine .linux64 := (Machine.init .linux64).run [.write 0 letterA {},
  .write 1 newline { kzalloc := false }, .step 0, .step 1, .read 2 10 {}, .step 0, .step 2, .step 0]

theorem concurrent_packet_log_three :
    (∃ log, Linearizes threeCallers.history log ∧ ∀ before e after, log = before ++ e :: after → Returns before e) ∧
      (∃ r, threeCallers.callers 0 = some r ∧ ∃ x, r.pc.exec threeCallers.dev (threeCallers.fpos 0) = .ok x) ∧
      ∃ r, threeCallers.callers 2 = some r ∧ ∃ x, r.pc.exec threeCallers.dev (threeCallers.fpos 2) = .ok x := by
  have hcopies : ∀ id c, .inv id c ∈ threeCallers.history → Copies c := by
    intro id c hinv
    rw [show threeCallers.history = [.inv 0 (.write 0 letterA {}), .inv 1 (.write 1 newline { kzalloc := false }),
      .inv 2 (.read 2 10 {})] from rfl] at hinv
    simp only [List.mem_cons, Event.inv.injEq, List.not_mem_nil, or_false] at hinv
    rcases hinv with ⟨-, rfl⟩ | ⟨-, rfl⟩ | ⟨-, rfl⟩
    · exact ⟨by decide, rfl⟩
    · exact ⟨by decide, rfl⟩
    · trivial
  obtain ⟨⟨log, hlin, hreturns, -⟩, hok⟩ := concurrent_packet_log .linux64 _ hcopies
  exact ⟨⟨log, hlin, hreturns⟩, ⟨_, rfl, hok 0 _ rfl⟩, _, rfl, hok 2 _ rfl⟩

end Aesd.Driver
