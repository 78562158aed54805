import Aesd.Server.CharDevice

/-!
# `receive_data` and the stream of its client

* `Conn`, `Conn.step` : the system with the chunks that `recv` is still to return to one worker. Every call of the worker
  succeeds; after the last chunk the client has closed and `recv` returns 0;
* `written` : what the loop of `receive_data` writes for a list of chunks;
* `Conn.returns` : with a newline ahead the loop ends, has written that, and releases the lock;
* `Looping` : without a newline ahead it never ends;
* `receive_data_writes_line_iff`, `receive_data_ends_iff` : so when the line is received as it was sent, and when
  reception ends at all.
-/

namespace Aesd.Server
open Driver Lib

structure Conn where
  sys : System
  chunks : List (List UInt8)

namespace Conn

/-- The next step of worker `i`, with the next chunk if it calls `recv`. -/
def label (i : Nat) (s : Conn) : Label := .run i { recv := some (s.chunks.headD []) }

def step (c : Config) (i : Nat) (s : Conn) : Conn where
  sys := s.sys.step c (s.label i)
  chunks := if (s.sys.workers i).any (fun w => w.pc = .recvRecv) then s.chunks.tail else s.chunks

end Conn

/-! ## What is written -/

/-- The bytes up to the first newline, that one included. -/
def line (bytes : List UInt8) : List UInt8 := bytes.take (bytes.idxOf 10 + 1)

/-- What the loop writes for these chunks: the buffer is written as a whole up to the chunk with the newline. -/
def written (c : Config) : List (List UInt8) → List UInt8
  | [] => []
  | chunk :: rest =>
    if 10 ∈ chunk then line chunk else chunk ++ List.replicate (c.bufSize - chunk.length) 0 ++ written c rest

/-- All the bytes that were written to the output. -/
def Output.text : Output → List UInt8
  | .file content => content.map Byte.val
  | .device dev => (dev.committed.flatten ++ dev.pending.getD []).map Byte.val

/-- The output can be written to: the device keeps its invariant and its pending buffer is allocated. -/
def Output.Ready (K : Kernel) : Output → Prop
  | .file _ => True
  | .device dev => ∃ log, Refines K dev log

section Chunk
variable {c : Config} {i : Nat} {chunk : List UInt8}

theorem findIdx?_newline (i : Nat) (chunk : List UInt8) :
    (chunk.map (Byte.mk · (some i))).findIdx? Byte.isNewline = if 10 ∈ chunk then some (chunk.idxOf 10) else none := by
  induction chunk with
  | nil => rfl
  | cons b chunk ih =>
      rw [List.map_cons, List.findIdx?_cons, ih]
      by_cases hb : b = 10
      · subst hb
        simp [Byte.isNewline]
      · have hb' : (10 : UInt8) ≠ b := Ne.symm hb
        simp only [Byte.isNewline, beq_iff_eq, hb, if_false, List.mem_cons, hb', false_or,
          List.idxOf_cons_ne _ hb]
        split_ifs <;> rfl

theorem cutBuf_recvBuf_newline (hlen : chunk.length ≤ c.bufSize) (hnl : 10 ∈ chunk) :
    cutBuf (recvBuf c i chunk) = ((line chunk).map (Byte.mk · (some i)), true) := by
  have hidx : chunk.idxOf 10 < chunk.length := List.idxOf_lt_length_of_mem hnl
  unfold cutBuf recvBuf
  rw [List.take_of_length_le hlen, List.findIdx?_append, findIdx?_newline, if_pos hnl]
  simp only [Option.some_or]
  rw [List.take_append_of_le_length (by simpa using hidx), line, List.map_take]

/-- Without a newline in the chunk the whole buffer is written, with the zeros behind the chunk. -/
theorem cutBuf_recvBuf_other (hlen : chunk.length ≤ c.bufSize) (hnl : 10 ∉ chunk) :
    cutBuf (recvBuf c i chunk) = (recvBuf c i chunk, false) := by
  have hzeros : (List.replicate (c.bufSize - chunk.length) Byte.zero).findIdx? Byte.isNewline = none := by
    rw [List.findIdx?_eq_none_iff]
    intro b hb
    rw [List.eq_of_mem_replicate hb]
    rfl
  unfold cutBuf
  rw [show recvBuf c i chunk = (chunk.take c.bufSize).map (Byte.mk · (some i)) ++
      List.replicate (c.bufSize - chunk.length) .zero from rfl,
    List.take_of_length_le hlen, List.findIdx?_append, findIdx?_newline, if_neg hnl, hzeros]
  rfl

theorem recvBuf_val (hlen : chunk.length ≤ c.bufSize) :
    (recvBuf c i chunk).map Byte.val = chunk ++ List.replicate (c.bufSize - chunk.length) 0 := by
  rw [recvBuf, List.take_of_length_le hlen, List.map_append, List.map_map, List.map_replicate]
  simp [Function.comp_def, Byte.zero]

/-- What a turn of the loop writes is not empty and fits into one `write`. -/
theorem cutBuf_recvBuf_length : 0 < (cutBuf (recvBuf c i chunk)).1.length ∧
    (cutBuf (recvBuf c i chunk)).1.length ≤ c.K.rwMax := by
  have hlen : (recvBuf c i chunk).length = c.bufSize := length_recvBuf
  have hpos := c.bufSize_pos
  have hle := c.bufSize_le
  unfold cutBuf
  split
  · dsimp only
    omega
  · rw [List.length_take]
    omega

end Chunk

theorem Output.write_text {K : Kernel} {out : Output} (h : out.Ready K) {buf : List Byte} {a : Answer}
    (ha : a.write = .all) (hs : ∀ dev, out = .device dev → Served K dev (K.clamp buf) a.writeDev)
    (hlen : 0 < buf.length ∧ buf.length ≤ K.rwMax) :
    ∃ out', out.write K buf a = .ok (true, out') ∧ out'.Ready K ∧ out'.text = out.text ++ buf.map Byte.val := by
  cases out with
  | file content =>
      refine ⟨.file (content ++ buf), ?_, trivial, by simp [Output.text]⟩
      simp [Output.write, ha, Transfer.count]
  | device dev =>
      obtain ⟨log, href⟩ := h
      have hclamp := K.clamp_of_le hlen.2
      have hne : buf ≠ [] := List.length_pos_iff.mp hlen.1
      obtain ⟨dev', hwrite, href', -⟩ := href.write (hs dev rfl) (by rw [hclamp]; exact hne)
      rw [hclamp] at href'
      refine ⟨.device dev', ?_, ⟨_, href'⟩, ?_⟩
      · simp only [Output.write, hwrite, bind, Except.bind]
        simp
      · simp only [Output.text, href.committed, href.pending, href'.committed, href'.pending, PacketLog.write]
        split_ifs <;> simp

/-! ## The loop -/

namespace Conn
variable {c : Config} {i : Nat} {s : System} {w : Worker} {out : Output} {lock : Option Ctx} {chunks : List (List UInt8)}

def state (s : System) (i : Nat) (w : Worker) (out : Output) (lock : Option Ctx) (chunks : List (List UInt8)) : Conn where
  sys := { s with output := out, lock := lock, workers := Function.update s.workers i (some w) }
  chunks := chunks

/-- The calls of the worker succeed all along: what is asked of the device is that it serves its writes. -/
def Serving (c : Config) (i : Nat) (s : Conn) : Prop :=
  ∀ n, Serves c ((step c i)^[n] s).sys (((step c i)^[n] s).label i)

theorem Serving.after {s : Conn} (h : Serving c i s) (n : Nat) : Serving c i ((step c i)^[n] s) := by
  intro m
  rw [← Function.iterate_add_apply]
  exact h (m + n)

theorem step_keep (hh : s.handlers i = none) (hop : w.pc.lockOp = .keep) (w' : Worker) (out' : Output)
    (hexec : w.exec c i out { recv := some (chunks.headD []) } = .ok (w', out')) :
    step c i (state s i w out lock chunks) =
      state s i w' out' lock (if w.pc = .recvRecv then chunks.tail else chunks) := by
  unfold step state label
  simp only [System.step, hh, Function.update_self, System.stepCode, hexec, hop, Function.update_idem, Option.any_some,
    decide_eq_true_eq]

theorem turn (hh : s.handlers i = none) (hpc : w.pc = .recvTest false) (hflag : w.shutdown = false)
    (hout : out.Ready c.K) (hs : Serving c i (state s i w out lock chunks)) :
    ∃ w' out', (step c i)^[3] (state s i w out lock chunks) = state s i w' out' lock chunks.tail ∧
      w'.pc = .recvTest (cutBuf (recvBuf c i (chunks.headD []))).2 ∧ w'.shutdown = false ∧ out'.Ready c.K ∧
      out'.text = out.text ++ (cutBuf (recvBuf c i (chunks.headD []))).1.map Byte.val := by
  have hlen : 0 < (cutBuf (recvBuf c i (chunks.headD []))).1.length ∧ _ := cutBuf_recvBuf_length
  cases hcut : cutBuf (recvBuf c i (chunks.headD []))
  next buf done =>
  rw [hcut] at hlen
  have htest : step c i (state s i w out lock chunks) = state s i { w with pc := .recvRecv } out lock chunks := by
    rw [step_keep hh (by rw [hpc]; rfl) { w with pc := .recvRecv } out
      (by simp [Worker.exec, hpc, hflag]), if_neg (by simp [hpc])]
  have hrecv : step c i (state s i { w with pc := .recvRecv } out lock chunks) =
      state s i { w with pc := .recvWrite buf done } out lock chunks.tail := by
    rw [step_keep hh rfl { w with pc := .recvWrite buf done } out (by simp only [Worker.exec, hcut]),
      if_pos rfl]
  -- the device serves the write
  have hserved := hs 2
  simp only [Function.iterate_succ, Function.iterate_zero, Function.comp_apply, id, htest, hrecv] at hserved
  have hserved := hserved _ (by simp [state]; rfl)
  obtain ⟨out', hwrite, hready, htext⟩ := Output.write_text (a := { recv := some (chunks.tail.headD []) }) hout rfl
    (fun dev hdev => by simpa [Worker.served, state, hdev] using hserved) hlen
  refine ⟨{ w with pc := .recvTest done, wrote := w.wrote ++ [buf] }, out', ?_, rfl, hflag, hready, htext⟩
  have hstep : step c i (state s i { w with pc := .recvWrite buf done } out lock chunks.tail) =
      state s i { w with pc := .recvTest done, wrote := w.wrote ++ [buf] } out' lock chunks.tail := by
    rw [step_keep hh rfl { w with pc := .recvTest done, wrote := w.wrote ++ [buf] } out'
      (by simp only [Worker.exec, hwrite, bind, Except.bind, if_true]), if_neg (by simp)]
  simp only [Function.iterate_succ, Function.iterate_zero, Function.comp_apply, id, htest, hrecv, hstep]

theorem leave (hh : s.handlers i = none) (hpc : w.pc = .recvTest true) (hflag : w.shutdown = false) (out : Output)
    (lock : Option Ctx) (chunks : List (List UInt8)) :
    ∃ w', (step c i)^[3] (state s i w out lock chunks) = state s i w' out none chunks ∧
      w'.pc = .recvReturn false ∧ w'.shutdown = false := by
  have htest : step c i (state s i w out lock chunks) = state s i { w with pc := .recvClose false } out lock chunks := by
    rw [step_keep hh (by rw [hpc]; rfl) { w with pc := .recvClose false } out
      (by simp [Worker.exec, hpc]), if_neg (by simp [hpc])]
  have hclose : step c i (state s i { w with pc := .recvClose false } out lock chunks) =
      state s i { w with pc := .recvUnlock false } out lock chunks := by
    rw [step_keep hh rfl { w with pc := .recvUnlock false } out
      (by simp only [Worker.exec, out.close_eq]), if_neg (by simp)]
  have hunlock : step c i (state s i { w with pc := .recvUnlock false } out lock chunks) =
      state s i { w with pc := .recvReturn false } out none chunks := by
    unfold step state label
    simp [System.step, hh, System.stepCode, Worker.exec, WorkerPc.lockOp]
  refine ⟨{ w with pc := .recvReturn false }, ?_, rfl, hflag⟩
  simp only [Function.iterate_succ, Function.iterate_zero, Function.comp_apply, id, htest, hclose, hunlock]

/-- With a newline ahead the loop ends behind it. -/
theorem loop_returns (hh : s.handlers i = none) (hlen : ∀ chunk ∈ chunks, chunk.length ≤ c.bufSize)
    (hnl : 10 ∈ chunks.flatten) (hpc : w.pc = .recvTest false) (hflag : w.shutdown = false) (hout : out.Ready c.K)
    (hs : Serving c i (state s i w out lock chunks)) :
    ∃ n w' out' rest, (step c i)^[n] (state s i w out lock chunks) = state s i w' out' none rest ∧
      w'.pc = .recvReturn false ∧ w'.shutdown = false ∧ out'.text = out.text ++ written c chunks := by
  induction chunks generalizing w out with
  | nil => simp at hnl
  | cons chunk chunks ih =>
      have hchunk := hlen chunk (by simp)
      obtain ⟨w1, out1, hturn, hpc1, hflag1, hout1, htext1⟩ := turn hh hpc hflag hout hs
      rw [List.headD_cons] at hpc1 htext1
      rw [List.tail_cons] at hturn
      by_cases hmem : 10 ∈ chunk
      · rw [cutBuf_recvBuf_newline hchunk hmem] at hpc1 htext1
        obtain ⟨w2, hleave, hpc2, hflag2⟩ := leave (c := c) hh hpc1 hflag1 out1 lock chunks
        refine ⟨3 + 3, w2, out1, chunks, ?_, hpc2, hflag2, ?_⟩
        · rw [Function.iterate_add_apply, hturn, hleave]
        · rw [htext1, written, if_pos hmem, List.map_map]
          simp [Function.comp_def]
      · rw [cutBuf_recvBuf_other hchunk hmem] at hpc1 htext1
        have hnl1 : 10 ∈ chunks.flatten := by
          rw [List.flatten_cons, List.mem_append] at hnl
          exact hnl.resolve_left hmem
        have hs1 := hs.after 3
        rw [hturn] at hs1
        obtain ⟨n, w2, out2, rest, hrun, hpc2, hflag2, htext2⟩ :=
          ih (fun ch hch => hlen ch (by simp [hch])) hnl1 hpc1 hflag1 hout1 hs1
        refine ⟨n + 3, w2, out2, rest, ?_, hpc2, hflag2, ?_⟩
        · rw [Function.iterate_add_apply, hturn, hrun]
        · rw [htext2, htext1, recvBuf_val hchunk, written, if_neg hmem, List.append_assoc]

/-- Worker `i` is about to call `receive_data`, and the lock is free. -/
structure Starts (i : Nat) (s : System) : Prop where
  worker : ∃ w, s.workers i = some w ∧ w.pc = .recvLock ∧ w.shutdown = false
  handler : s.handlers i = none
  lock : s.lock = none

/-- **With a newline in the stream `receive_data` returns true**, has released the lock, and has written what `written`
says. -/
theorem returns (hstart : Starts i s) (hout : s.output.Ready c.K) (hlen : ∀ chunk ∈ chunks, chunk.length ≤ c.bufSize)
    (hnl : 10 ∈ chunks.flatten) (hs : Serving c i ⟨s, chunks⟩) :
    ∃ n w, ((step c i)^[n] ⟨s, chunks⟩).sys.workers i = some w ∧ w.pc = .recvReturn false ∧ w.shutdown = false ∧
      ((step c i)^[n] ⟨s, chunks⟩).sys.lock = none ∧
      ((step c i)^[n] ⟨s, chunks⟩).sys.output.text = s.output.text ++ written c chunks := by
  obtain ⟨w, hw, hpc, hflag⟩ := hstart.worker
  have hinit : (⟨s, chunks⟩ : Conn) = state s i w s.output none chunks := by
    rw [state, ← hw, Function.update_eq_self, ← hstart.lock]
  obtain ⟨s1, hs1⟩ : ∃ s1 : System, s1 = { s with order := s.order ++ [.recv i] } := ⟨_, rfl⟩
  have hh : s1.handlers i = none := by
    rw [hs1]
    exact hstart.handler
  have hlock : step c i (state s i w s.output none chunks) =
      state s1 i { w with pc := .recvOpen } s.output (some (.code i)) chunks := by
    unfold step state label
    simp [System.step, hstart.handler, System.stepCode, Worker.exec, hpc, WorkerPc.lockOp, WorkerPc.turn, hs1]
  have hopen : step c i (state s1 i { w with pc := .recvOpen } s.output (some (.code i)) chunks) =
      state s1 i { w with pc := .recvTest false } s.output (some (.code i)) chunks := by
    rw [step_keep hh rfl { w with pc := .recvTest false } s.output rfl, if_neg (by simp)]
  have htwo : (step c i)^[2] ⟨s, chunks⟩ =
      state s1 i { w with pc := .recvTest false } s.output (some (.code i)) chunks := by
    simp only [hinit, Function.iterate_succ, Function.iterate_zero, Function.comp_apply, id, hlock, hopen]
  have hs2 := hs.after 2
  rw [htwo] at hs2
  obtain ⟨n, w', out', rest, hrun, hpc', hflag', htext⟩ :=
    loop_returns (w := { w with pc := .recvTest false }) hh hlen hnl rfl hflag hout hs2
  rw [← htwo, ← Function.iterate_add_apply] at hrun
  refine ⟨n + 2, w', ?_, hpc', hflag', ?_, ?_⟩
  · rw [hrun]
    exact Function.update_self ..
  · rw [hrun]
    rfl
  · rw [hrun]
    exact htext

/-! ## The return, and the loop that has none -/

theorem step_worker {s : Conn} (hh : s.sys.handlers i = none) (hw : s.sys.workers i = some w) :
    (step c i s).sys.handlers i = none ∧
      ((step c i s).sys = s.sys ∨ ∃ w', (step c i s).sys.workers i = some w' ∧
        w.exec c i s.sys.output { recv := some (s.chunks.headD []) } = .ok (w', (step c i s).sys.output)) := by
  have ht : Trans c s.sys (s.label i) (step c i s).sys := step_trans c s.sys (s.label i)
  generalize (step c i s).sys = s' at ht
  rw [label] at ht
  cases ht with
  | stay => exact ⟨hh, Or.inl rfl⟩
  | handler j a p p' out lock order hp hexec hlock =>
      rw [hh] at hp
      cases hp
  | code j a v v' out lock order hh' hv hexec hlock =>
      rw [hw] at hv
      cases hv
      exact ⟨hh, Or.inr ⟨v', Function.update_self .., hexec⟩⟩

end Conn

def WorkerPc.received : WorkerPc → Bool
  | .recvReturn _ => false
  | pc => !pc.receiving && !decide (pc = .recvLock)

theorem Next.received {pc pc' : WorkerPc} (h : Next pc pc') (hr : pc.received = true ∨ ∃ error, pc = .recvReturn error) :
    pc'.received = true := by
  cases h <;> simp_all [WorkerPc.received, WorkerPc.receiving]

namespace Conn
variable {c : Config} {i : Nat}

def Left (i : Nat) (s : Conn) : Prop :=
  s.sys.handlers i = none ∧ ∃ w, s.sys.workers i = some w ∧ w.pc.received = true

theorem Left.step {s : Conn} (h : Left i s) : Left i (s.step c i) := by
  obtain ⟨hh, w, hw, hr⟩ := h
  obtain ⟨hh', hsame | ⟨w', hw', hexec⟩⟩ := step_worker (c := c) hh hw
  · rw [Left, hsame]
    exact ⟨hh, w, hw, hr⟩
  · exact ⟨hh', w', hw', (Worker.exec_next hexec).1.received (Or.inl hr)⟩

theorem Left.iterate {s : Conn} (h : Left i s) (n : Nat) : Left i ((Conn.step c i)^[n] s) := by
  induction n with
  | zero => exact h
  | succ n ih =>
      rw [Function.iterate_succ_apply']
      exact ih.step

def Returning (i : Nat) (s : Conn) : Prop :=
  s.sys.handlers i = none ∧ ∃ w error, s.sys.workers i = some w ∧ w.pc = .recvReturn error

theorem Returning.left {s : Conn} (h : Returning i s) : Left i (s.step c i) := by
  obtain ⟨hh, w, error, hw, hpc⟩ := h
  obtain ⟨hh', hsame | ⟨w', hw', hexec⟩⟩ := step_worker (c := c) hh hw
  · -- a return does not wait for anything
    exfalso
    have hstep : (s.step c i).sys.workers i =
        some { w with pc := if !error && !w.shutdown then .sendLock else .closeClient } := by
      simp [Conn.step, label, System.step, System.stepCode, hh, hw, Worker.exec, hpc, WorkerPc.lockOp]
    rw [hsame, hw, Option.some.injEq] at hstep
    have hpc' := congrArg Worker.pc hstep
    rw [hpc] at hpc'
    dsimp only at hpc'
    split_ifs at hpc'
  · exact ⟨hh', w', hw', (Worker.exec_next hexec).1.received (Or.inr ⟨error, hpc⟩)⟩

theorem returning_unique {s : Conn} {m n : Nat} (hm : Returning i ((step c i)^[m] s))
    (hn : Returning i ((step c i)^[n] s)) : m = n := by
  have hlater : ∀ {m n : Nat}, Returning i ((step c i)^[m] s) → Returning i ((step c i)^[n] s) → ¬ m < n := by
    intro m n hm hn hlt
    have hleft := (hm.left (c := c)).iterate (c := c) (n - m - 1)
    rw [← Function.iterate_succ_apply' (step c i) m s, ← Function.iterate_add_apply,
      show n - m - 1 + (m + 1) = n by omega] at hleft
    obtain ⟨-, w, hw, hr⟩ := hleft
    obtain ⟨-, w', error, hw', hpc⟩ := hn
    rw [hw] at hw'
    cases hw'
    rw [hpc] at hr
    cases hr
  have h1 := hlater hm hn
  have h2 := hlater hn hm
  omega

/-- The worker is in the loop of `receive_data` or before it, and there is no newline ahead. -/
structure Looping (c : Config) (i : Nat) (s : Conn) : Prop where
  handler : s.sys.handlers i = none
  ready : s.sys.output.Ready c.K
  chunks : ∀ chunk ∈ s.chunks, chunk.length ≤ c.bufSize ∧ 10 ∉ chunk
  worker : ∃ w, s.sys.workers i = some w ∧ w.shutdown = false ∧
    (w.pc = .recvLock ∨ w.pc = .recvOpen ∨ w.pc = .recvTest false ∨ w.pc = .recvRecv ∨
      ∃ buf, w.pc = .recvWrite buf false ∧ 0 < buf.length ∧ buf.length ≤ c.K.rwMax)

theorem Looping.step {s : Conn} (h : Looping c i s) (hs : Serves c s.sys (s.label i)) : Looping c i (s.step c i) := by
  have hchunks : ∀ chunk ∈ (s.step c i).chunks, chunk.length ≤ c.bufSize ∧ 10 ∉ chunk := by
    intro chunk hmem
    apply h.chunks
    unfold Conn.step at hmem
    dsimp only at hmem
    split_ifs at hmem
    · exact List.mem_of_mem_tail hmem
    · exact hmem
  have hhead : (s.chunks.headD []).length ≤ c.bufSize ∧ 10 ∉ s.chunks.headD [] := by
    cases hc : s.chunks with
    | nil => simp
    | cons chunk rest => exact h.chunks chunk (by simp [hc])
  obtain ⟨w, hw, hflag, hpc⟩ := h.worker
  obtain ⟨hh', hsame | ⟨w', hw', hexec⟩⟩ := step_worker (c := c) h.handler hw
  · refine ⟨by rw [hsame]; exact h.handler, by rw [hsame]; exact h.ready, hchunks, w, by rw [hsame]; exact hw, hflag, hpc⟩
  · rcases hpc with hpc | hpc | hpc | hpc | ⟨buf, hpc, hlen⟩
    · rw [Worker.exec, hpc, Except.ok.injEq, Prod.mk.injEq] at hexec
      obtain ⟨rfl, hout⟩ := hexec
      exact ⟨hh', hout ▸ h.ready, hchunks, _, hw', hflag, Or.inr (Or.inl rfl)⟩
    · rw [Worker.exec, hpc, Except.ok.injEq, Prod.mk.injEq] at hexec
      obtain ⟨rfl, hout⟩ := hexec
      exact ⟨hh', hout ▸ h.ready, hchunks, _, hw', hflag, Or.inr (Or.inr (Or.inl rfl))⟩
    · simp only [Worker.exec, hpc, hflag, Bool.not_false, Bool.and_self, if_true, Except.ok.injEq, Prod.mk.injEq] at hexec
      obtain ⟨rfl, hout⟩ := hexec
      exact ⟨hh', hout ▸ h.ready, hchunks, _, hw', rfl, Or.inr (Or.inr (Or.inr (Or.inl rfl)))⟩
    · have hlen : 0 < (cutBuf (recvBuf c i (s.chunks.headD []))).1.length ∧ _ := cutBuf_recvBuf_length
      rw [cutBuf_recvBuf_other hhead.1 hhead.2] at hlen
      simp only [Worker.exec, hpc, cutBuf_recvBuf_other hhead.1 hhead.2, Except.ok.injEq, Prod.mk.injEq] at hexec
      obtain ⟨rfl, hout⟩ := hexec
      exact ⟨hh', hout ▸ h.ready, hchunks, _, hw', hflag, Or.inr (Or.inr (Or.inr (Or.inr ⟨_, rfl, hlen⟩)))⟩
    · have hserved := hs w hw
      obtain ⟨out', hwrite, hready, -⟩ := Output.write_text (a := { recv := some (s.chunks.headD []) }) h.ready rfl
        (fun dev hdev => by simpa [Worker.served, hpc, hdev] using hserved) hlen
      simp only [Worker.exec, hpc, hwrite, bind, Except.bind, if_true, Except.ok.injEq, Prod.mk.injEq] at hexec
      obtain ⟨rfl, hout⟩ := hexec
      exact ⟨hh', hout ▸ hready, hchunks, _, hw', hflag, Or.inr (Or.inr (Or.inl rfl))⟩

theorem Looping.iterate {s : Conn} (h : Looping c i s) (hs : Serving c i s) (n : Nat) :
    Looping c i ((Conn.step c i)^[n] s) := by
  induction n with
  | zero => exact h
  | succ n ih =>
      rw [Function.iterate_succ_apply']
      exact ih.step (hs n)

theorem Looping.not_returning {s : Conn} (h : Looping c i s) : ¬ Returning i s := by
  rintro ⟨-, w', error, hw', hpc'⟩
  obtain ⟨w, hw, -, hpc⟩ := h.worker
  rw [hw] at hw'
  cases hw'
  rw [hpc'] at hpc
  simp at hpc

end Conn

/-! ## When the line is received as it was sent -/

theorem line_append_of_mem {xs ys : List UInt8} (h : 10 ∈ xs) : line (xs ++ ys) = line xs := by
  have hidx : xs.idxOf 10 < xs.length := List.idxOf_lt_length_of_mem h
  rw [line, line, List.idxOf_append_of_mem h, List.take_append_of_le_length (by omega)]

theorem line_append_of_notMem {xs ys : List UInt8} (h : 10 ∉ xs) : line (xs ++ ys) = xs ++ line ys := by
  rw [line, line, List.idxOf_append_of_notMem h, Nat.add_assoc, List.take_length_add_append]

/-- What is written is the line exactly if the chunks before the one with the newline fill the buffer: there is no zero in
the stream, so padding would show. -/
theorem written_eq_line_iff {c : Config} {chunks : List (List UInt8)}
    (hlen : ∀ chunk ∈ chunks, chunk.length ≤ c.bufSize) (hnul : 0 ∉ chunks.flatten) (hnl : 10 ∈ chunks.flatten) :
    written c chunks = line chunks.flatten ↔ ∀ chunk ∈ chunks.takeWhile (10 ∉ ·), chunk.length = c.bufSize := by
  induction chunks with
  | nil => simp at hnl
  | cons chunk chunks ih =>
      rw [List.flatten_cons] at hnul hnl ⊢
      rw [List.mem_append] at hnul hnl
      by_cases hmem : 10 ∈ chunk
      · simp [written, hmem, line_append_of_mem hmem]
      · have ih := ih (fun ch hch => hlen ch (by simp [hch])) (fun h => hnul (Or.inr h)) (hnl.resolve_left hmem)
        rw [written, if_neg hmem, line_append_of_notMem hmem, List.append_assoc, List.append_cancel_left_eq,
          List.takeWhile_cons_of_pos (by simpa using hmem), List.forall_mem_cons, ← ih]
        constructor
        · intro heq
          have hfull : chunk.length = c.bufSize := by
            have hle := hlen chunk (by simp)
            by_contra hne
            obtain ⟨m, hm⟩ : ∃ m, c.bufSize - chunk.length = m + 1 := ⟨c.bufSize - chunk.length - 1, by omega⟩
            rw [hm, List.replicate_succ, List.cons_append] at heq
            have hzero : 0 ∈ line chunks.flatten := by
              rw [← heq]
              simp
            exact hnul (Or.inr (List.mem_of_mem_take hzero))
          rw [hfull, Nat.sub_self, List.replicate_zero, List.nil_append] at heq
          exact ⟨hfull, heq⟩
        · rintro ⟨hfull, heq⟩
          rw [hfull, Nat.sub_self, List.replicate_zero, List.nil_append, heq]

/-- `receive_data` of worker `i` returns true, and what it added to the output is the line that the client sent. -/
def ReceivesLine (c : Config) (i : Nat) (s : System) (chunks : List (List UInt8)) : Prop :=
  ∃ n w, ((Conn.step c i)^[n] ⟨s, chunks⟩).sys.workers i = some w ∧ w.pc = .recvReturn false ∧ w.shutdown = false ∧
    ((Conn.step c i)^[n] ⟨s, chunks⟩).sys.output.text = s.output.text ++ line chunks.flatten

theorem handlers_iterate {c : Config} {i : Nat} {s : Conn} (hh : s.sys.handlers i = none) {w : Worker}
    (hw : s.sys.workers i = some w) (n : Nat) :
    ((Conn.step c i)^[n] s).sys.handlers i = none ∧ ∃ w', ((Conn.step c i)^[n] s).sys.workers i = some w' := by
  induction n with
  | zero => exact ⟨hh, w, hw⟩
  | succ n ih =>
      rw [Function.iterate_succ_apply']
      obtain ⟨hh', w', hw'⟩ := ih
      obtain ⟨hnone, hsame | ⟨w1, hw1, -⟩⟩ := Conn.step_worker (c := c) hh' hw'
      · exact ⟨hnone, w', by rw [hsame]; exact hw'⟩
      · exact ⟨hnone, w1, hw1⟩

theorem receivesLine_iff_written {c : Config} {i : Nat} {s : System} (hstart : Conn.Starts i s)
    (hout : s.output.Ready c.K) {chunks : List (List UInt8)} (hlen : ∀ chunk ∈ chunks, chunk.length ≤ c.bufSize)
    (hnl : 10 ∈ chunks.flatten) (hs : Conn.Serving c i ⟨s, chunks⟩) :
    ReceivesLine c i s chunks ↔ written c chunks = line chunks.flatten := by
  obtain ⟨w0, hw0, -⟩ := hstart.worker
  obtain ⟨n, w, hw, hpc, hflag, -, htext⟩ := Conn.returns hstart hout hlen hnl hs
  constructor
  · rintro ⟨m, w', hw', hpc', -, htext'⟩
    -- there is only one return
    have hm : Conn.Returning i ((Conn.step c i)^[m] ⟨s, chunks⟩) :=
      ⟨(handlers_iterate hstart.handler hw0 m).1, w', false, hw', hpc'⟩
    have hn : Conn.Returning i ((Conn.step c i)^[n] ⟨s, chunks⟩) :=
      ⟨(handlers_iterate hstart.handler hw0 n).1, w, false, hw, hpc⟩
    obtain rfl := Conn.returning_unique hm hn
    rw [htext', List.append_cancel_left_eq] at htext
    exact htext.symm
  · intro heq
    rw [heq] at htext
    exact ⟨n, w, hw, hpc, hflag, htext⟩

theorem serving_of_file {c : Config} {i : Nat} {s : Conn} {content : List Byte} (hfile : s.sys.output = .file content) :
    Conn.Serving c i s := by
  have hstays : ∀ n, ∃ content, ((Conn.step c i)^[n] s).sys.output = .file content := by
    intro n
    induction n with
    | zero => exact ⟨content, hfile⟩
    | succ n ih =>
        obtain ⟨content, hcontent⟩ := ih
        rw [Function.iterate_succ_apply']
        rcases (step_trans c ((Conn.step c i)^[n] s).sys (((Conn.step c i)^[n] s).label i)).output with
          hsame | ⟨buf, a, ok, hwrite⟩
        · exact ⟨content, hsame.trans hcontent⟩
        · rw [hcontent, Output.write] at hwrite
          split at hwrite <;> rw [Except.ok.injEq, Prod.mk.injEq] at hwrite <;> exact ⟨_, hwrite.2.symm⟩
  intro n w _
  obtain ⟨content, hcontent⟩ := hstays n
  rw [hcontent]
  unfold Worker.served
  split <;> simp_all

/-- A worker for connection 0 in regular-file mode. -/
def oneWorker : System := { output := .file [], workers := fun j => if j = 0 then some {} else none }

theorem starts_oneWorker : Conn.Starts 0 oneWorker := ⟨⟨{}, rfl, rfl, rfl⟩, rfl, rfl⟩

/-- **When reception does not depend on the chunks**: for every stream without NUL that has a newline, cut into chunks of
at most `buf_size_` bytes, `receive_data` returns true and appends exactly the line, if and only if every chunk before the
one with the newline fills the buffer. -/
theorem receive_data_writes_line_iff (c : Config) (i : Nat) (s : System) (hstart : Conn.Starts i s)
    (hout : s.output.Ready c.K) (chunks : List (List UInt8)) (hlen : ∀ chunk ∈ chunks, chunk.length ≤ c.bufSize)
    (hnul : 0 ∉ chunks.flatten) (hnl : 10 ∈ chunks.flatten) (hs : Conn.Serving c i ⟨s, chunks⟩) :
    ReceivesLine c i s chunks ↔ ∀ chunk ∈ chunks.takeWhile (10 ∉ ·), chunk.length = c.bufSize := by
  rw [receivesLine_iff_written hstart hout hlen hnl hs]
  exact written_eq_line_iff hlen hnul hnl

/-- A chunk that fills the buffer, then the end of the line and the start of the next. -/
def fullThenRest : List (List UInt8) := [List.replicate 256 97, [98, 10, 99]]

theorem receive_data_writes_line_iff_two_chunks : ReceivesLine .aesdsocket 0 oneWorker fullThenRest :=
  (receive_data_writes_line_iff .aesdsocket 0 oneWorker starts_oneWorker trivial fullThenRest (by decide +kernel)
    (by decide +kernel) (by decide +kernel) (serving_of_file rfl)).mpr (by decide +kernel)

/-- A letter and a newline in two chunks: 255 zeros are written between them. -/
theorem receive_data_pads_short_chunk :
    ¬ ∀ (c : Config) (i : Nat) (s : System), Conn.Starts i s → s.output.Ready c.K → ∀ chunks : List (List UInt8),
      (∀ chunk ∈ chunks, 1 ≤ chunk.length ∧ chunk.length ≤ c.bufSize) → 0 ∉ chunks.flatten → 10 ∈ chunks.flatten →
        Conn.Serving c i ⟨s, chunks⟩ → ReceivesLine c i s chunks := by
  intro hall
  have hserving : Conn.Serving .aesdsocket 0 ⟨oneWorker, [[97], [10]]⟩ := serving_of_file rfl
  have hline := hall .aesdsocket 0 oneWorker starts_oneWorker trivial [[97], [10]] (by decide) (by decide) (by decide)
    hserving
  have heq := (receivesLine_iff_written starts_oneWorker trivial (by decide) (by decide) hserving).mp hline
  have hlength := congrArg List.length heq
  revert hlength
  decide +kernel

/-- **When reception ends**: for every stream, cut into chunks of at most `buf_size_` bytes and followed by the close, the
loop of `receive_data` stops and releases the lock if and only if there is a newline in the stream. -/
theorem receive_data_ends_iff (c : Config) (i : Nat) (s : System) (hstart : Conn.Starts i s) (hout : s.output.Ready c.K)
    (chunks : List (List UInt8)) (hlen : ∀ chunk ∈ chunks, chunk.length ≤ c.bufSize)
    (hs : Conn.Serving c i ⟨s, chunks⟩) :
    (∃ n w error, ((Conn.step c i)^[n] ⟨s, chunks⟩).sys.workers i = some w ∧ w.pc = .recvReturn error ∧
      ((Conn.step c i)^[n] ⟨s, chunks⟩).sys.lock = none) ↔ 10 ∈ chunks.flatten := by
  obtain ⟨w0, hw0, hpc0, hflag0⟩ := hstart.worker
  constructor
  · rintro ⟨n, w, error, hw, hpc, -⟩
    by_contra hnl
    have hloop : Conn.Looping c i ⟨s, chunks⟩ :=
      ⟨hstart.handler, hout, fun chunk hchunk => ⟨hlen chunk hchunk, fun h => hnl (List.mem_flatten.mpr ⟨chunk, hchunk, h⟩)⟩,
        w0, hw0, hflag0, Or.inl hpc0⟩
    exact (hloop.iterate hs n).not_returning ⟨(handlers_iterate hstart.handler hw0 n).1, w, error, hw, hpc⟩
  · intro hnl
    obtain ⟨n, w, hw, hpc, -, hlock, -⟩ := Conn.returns hstart hout hlen hnl hs
    exact ⟨n, w, false, hw, hpc, hlock⟩

theorem receive_data_ends_iff_two_chunks :
    ∃ n w error, ((Conn.step .aesdsocket 0)^[n] ⟨oneWorker, [[97], [10]]⟩).sys.workers 0 = some w ∧
      w.pc = .recvReturn error ∧ ((Conn.step .aesdsocket 0)^[n] ⟨oneWorker, [[97], [10]]⟩).sys.lock = none :=
  (receive_data_ends_iff .aesdsocket 0 oneWorker starts_oneWorker trivial [[97], [10]] (by decide)
    (serving_of_file rfl)).mpr (by decide)

/-- A client that closes after one letter: zeros are written for ever, under the lock. -/
theorem receive_data_never_ends :
    ¬ ∀ (c : Config) (i : Nat) (s : System), Conn.Starts i s → s.output.Ready c.K → ∀ chunks : List (List UInt8),
      (∀ chunk ∈ chunks, 1 ≤ chunk.length ∧ chunk.length ≤ c.bufSize) → Conn.Serving c i ⟨s, chunks⟩ →
        ∃ n w error, ((Conn.step c i)^[n] ⟨s, chunks⟩).sys.workers i = some w ∧ w.pc = .recvReturn error ∧
          ((Conn.step c i)^[n] ⟨s, chunks⟩).sys.lock = none := by
  intro hall
  have hserving : Conn.Serving .aesdsocket 0 ⟨oneWorker, [[97]]⟩ := serving_of_file rfl
  obtain ⟨n, w, error, hw, hpc, -⟩ := hall .aesdsocket 0 oneWorker starts_oneWorker trivial [[97]] (by decide) hserving
  have hloop : Conn.Looping .aesdsocket 0 ⟨oneWorker, [[97]]⟩ := ⟨rfl, trivial, by decide, {}, rfl, rfl, Or.inl rfl⟩
  exact (hloop.iterate hserving n).not_returning ⟨(handlers_iterate rfl rfl n).1, w, error, hw, hpc⟩

end Aesd.Server
