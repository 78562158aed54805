import Aesd.Server.Turns

/-!
# Packets as the worker cuts them and as the driver cuts them

The worker looks for the first newline of a chunk, the driver at the last byte of a write.

* `Full`, `Last`, `Packet` : the buffers that the worker of a connection passes to `write` for one packet;
* `cutBuf_spec` : a chunk is one of the first two;
* `writeAll_packet`, `writeAll_blocks` : to the driver the buffers of a packet are one entry;
* `Shape` : what a worker has written, at each of its points.
-/

namespace Aesd.Server
open Driver Lib

/-- The bytes end in a newline, and have no other. -/
def OneNewline (bytes : List Byte) : Prop :=
  ∃ body nl, bytes = body ++ [nl] ∧ nl.isNewline = true ∧ ∀ b ∈ body, b.isNewline = false

/-- The bytes were received on connection `i`, or are the padding of its buffer. -/
def From (i : Nat) (bytes : List Byte) : Prop := ∀ b ∈ bytes, b.src = none ∨ b.src = some i

/-- A whole buffer of connection `i` without a newline. -/
structure Full (c : Config) (i : Nat) (buf : List Byte) : Prop where
  length : buf.length = c.bufSize
  src : From i buf
  body : ∀ b ∈ buf, b.isNewline = false

/-- A buffer of connection `i`, cut after its first newline. -/
structure Last (c : Config) (i : Nat) (buf : List Byte) : Prop where
  length : buf.length ≤ c.bufSize
  src : From i buf
  newline : OneNewline buf

/-- Any number of full buffers and one that is cut. -/
def Packet (c : Config) (i : Nat) (bufs : List (List Byte)) : Prop :=
  ∃ chunks last, bufs = chunks ++ [last] ∧ (∀ buf ∈ chunks, Full c i buf) ∧ Last c i last

/-! ## A chunk -/

section Chunk
variable {c : Config} {i : Nat} {bytes : List UInt8} {buf : List Byte}

theorem length_recvBuf : (recvBuf c i bytes).length = c.bufSize := by
  simp only [recvBuf, List.length_append, List.length_map, List.length_take, List.length_replicate]
  omega

theorem from_recvBuf : From i (recvBuf c i bytes) := by
  intro b hb
  simp only [recvBuf, List.mem_append, List.mem_map] at hb
  rcases hb with ⟨x, -, rfl⟩ | hb
  · exact Or.inr rfl
  · rw [List.eq_of_mem_replicate hb]
    exact Or.inl rfl

theorem cutBuf_spec (hlen : buf.length = c.bufSize) (hsrc : From i buf) :
    if (cutBuf buf).2 then Last c i (cutBuf buf).1 else Full c i (cutBuf buf).1 := by
  unfold cutBuf
  cases hk : buf.findIdx? Byte.isNewline with
  | none => exact ⟨hlen, hsrc, List.findIdx?_eq_none_iff.mp hk⟩
  | some k =>
      obtain ⟨hlt, hnl, hbefore⟩ := List.findIdx?_eq_some_iff_getElem.mp hk
      refine ⟨by rw [← hlen]; exact List.length_take_le' _ _, fun b hb => hsrc b (List.mem_of_mem_take hb), ?_⟩
      refine ⟨buf.take k, buf[k], List.take_succ_eq_append_getElem hlt, hnl, fun b hb => ?_⟩
      obtain ⟨j, hj, rfl⟩ := List.getElem_of_mem hb
      rw [List.length_take] at hj
      rw [List.getElem_take]
      simpa using hbefore j (by omega)

end Chunk

/-! ## The driver's cuts -/

section Log
variable {c : Config} {i : Nat} {buf : List Byte} {bufs : List (List Byte)}

theorem Full.endsPacket (h : Full c i buf) : endsPacket buf = false := by
  unfold Driver.endsPacket
  cases hl : buf.getLast? with
  | none => rfl
  | some b => exact h.body b (List.mem_of_getLast? hl)

theorem Full.ne_nil (h : Full c i buf) : buf ≠ [] := by
  rintro rfl
  exact absurd h.length (Nat.ne_of_lt c.bufSize_pos)

theorem OneNewline.endsPacket {bytes : List Byte} (h : OneNewline bytes) : endsPacket bytes = true := by
  obtain ⟨body, nl, rfl, hnl, -⟩ := h
  simpa [Driver.endsPacket] using hnl

theorem OneNewline.ne_nil {bytes : List Byte} (h : OneNewline bytes) : bytes ≠ [] := by
  obtain ⟨body, nl, rfl, -, -⟩ := h
  simp

@[simp] theorem writeAll_nil (log : PacketLog) : log.writeAll [] = log := rfl

@[simp] theorem writeAll_cons (log : PacketLog) (buf : List Byte) (bufs : List (List Byte)) :
    log.writeAll (buf :: bufs) = (log.write buf).writeAll bufs := rfl

theorem writeAll_append (log : PacketLog) (xs ys : List (List Byte)) :
    log.writeAll (xs ++ ys) = (log.writeAll xs).writeAll ys := by
  rw [PacketLog.writeAll, PacketLog.writeAll, PacketLog.writeAll, List.foldl_append]

theorem writeAll_full (log : PacketLog) (h : ∀ buf ∈ bufs, Full c i buf) :
    log.writeAll bufs = ⟨log.committed, log.pending ++ bufs.flatten⟩ := by
  induction bufs generalizing log with
  | nil => simp
  | cons buf bufs ih =>
      have hbuf := (h buf (by simp)).endsPacket
      have hfirst : log.write buf = ⟨log.committed, log.pending ++ buf⟩ := by simp [PacketLog.write, hbuf]
      rw [writeAll_cons, ih (log.write buf) fun b hb => h b (by simp [hb]), hfirst]
      simp

/-- The buffers of a packet are one entry, behind what was pending. -/
theorem writeAll_packet (log : PacketLog) (h : Packet c i bufs) :
    log.writeAll bufs = ⟨log.committed ++ [log.pending ++ bufs.flatten], []⟩ := by
  obtain ⟨chunks, last, rfl, hchunks, hlast⟩ := h
  rw [writeAll_append, writeAll_full log hchunks]
  simp [PacketLog.write, hlast.newline.endsPacket]

theorem Packet.oneNewline (h : Packet c i bufs) : OneNewline bufs.flatten := by
  obtain ⟨chunks, last, rfl, hchunks, hlast⟩ := h
  obtain ⟨body, nl, rfl, hnl, hbody⟩ := hlast.newline
  refine ⟨chunks.flatten ++ body, nl, by simp, hnl, fun b hb => ?_⟩
  rcases List.mem_append.mp hb with hb | hb
  · obtain ⟨buf, hbuf, hb⟩ := List.mem_flatten.mp hb
    exact (hchunks buf hbuf).body b hb
  · exact hbody b hb

theorem Packet.from (h : Packet c i bufs) : From i bufs.flatten := by
  obtain ⟨chunks, last, rfl, hchunks, hlast⟩ := h
  intro b hb
  obtain ⟨buf, hbuf, hb⟩ := List.mem_flatten.mp hb
  rcases List.mem_append.mp hbuf with hbuf | hbuf
  · exact (hchunks buf hbuf).src b hb
  · rw [List.mem_singleton.mp hbuf] at hb
    exact hlast.src b hb

/-- The packets among the blocks that workers wrote: a worker that wrote nothing has none. -/
def packets (bytes : Nat → List Byte) (workers : List Nat) : List (List Byte) :=
  (workers.map bytes).filter fun block => !block.isEmpty

/-- The log after workers that wrote a packet each, or nothing. -/
theorem writeAll_blocks (bufs : Nat → List (List Byte)) (workers : List Nat)
    (h : ∀ i ∈ workers, Packet c i (bufs i) ∨ bufs i = []) (old : List (List Byte)) :
    PacketLog.writeAll ⟨old, []⟩ (workers.flatMap bufs) = ⟨old ++ packets (fun i => (bufs i).flatten) workers, []⟩ := by
  induction workers generalizing old with
  | nil => simp [packets]
  | cons i workers ih =>
      have hrest := fun old => ih (fun j hj => h j (by simp [hj])) old
      rw [List.flatMap_cons, writeAll_append]
      rcases h i (by simp) with hi | hi
      · have hne : (bufs i).flatten.isEmpty = false := List.isEmpty_eq_false_iff.mpr hi.oneNewline.ne_nil
        rw [writeAll_packet _ hi, hrest]
        simp [packets, hne]
      · rw [hi, writeAll_nil, hrest]
        simp [packets, hi]

end Log

/-! ## What a worker has written -/

/-- The calls of the next step of the worker succeed, `recv` apart. -/
def Worker.served (c : Config) (out : Output) (a : Answer) (w : Worker) : Bool :=
  match w.pc, out with
  | .recvOpen, _ => a.openOk
  | .recvWrite buf _, .device dev => decide (Served c.K dev (c.K.clamp buf) a.writeDev)
  | .sendOpen, _ => a.openOk
  | .sendRead, .device _ => a.readDev.bufLock && a.readDev.copyToUser
  | .sendSend _ _, _ => decide (a.send ≠ .fails)
  | _, _ => true

/-- The worker leaves its receive loop without a newline: its `recv` fails, or it finds the shutdown flag set. -/
def Worker.leavesEarly (a : Answer) (w : Worker) : Bool :=
  match w.pc with
  | .recvTest done => !done && w.shutdown
  | .recvRecv => a.recv.isNone
  | _ => false

/-- The worker has the lock for receiving and has not left its loop. -/
def WorkerPc.looping : WorkerPc → Bool
  | .recvOpen | .recvTest false | .recvRecv | .recvWrite _ _ => true
  | _ => false

/-- A packet, or nothing if workers may leave their loop `early`. -/
def Wrote (c : Config) (early : Bool) (i : Nat) (w : Worker) : Prop :=
  Packet c i w.wrote ∨ (early = true ∧ w.wrote = [])

def Shape (c : Config) (early : Bool) (i : Nat) (w : Worker) : Prop :=
  match w.pc with
  | .recvLock | .recvOpen => w.response = none ∧ w.wrote = []
  | .recvTest false | .recvRecv => w.response = none ∧ ∀ buf ∈ w.wrote, Full c i buf
  | .recvTest true => w.response = none ∧ Packet c i w.wrote
  | .recvWrite buf done =>
    w.response = none ∧ (∀ buf ∈ w.wrote, Full c i buf) ∧ if done then Last c i buf else Full c i buf
  | .recvClose error | .recvUnlock error | .recvReturn error =>
    w.response = none ∧ Wrote c early i w ∧ (w.wrote = [] → error = true ∨ w.shutdown = true)
  | .closeClient | .exited => Wrote c early i w ∧ (w.wrote = [] → w.response = none)
  | _ => Packet c i w.wrote

theorem Packet.ne_nil {c : Config} {i : Nat} {bufs : List (List Byte)} (h : Packet c i bufs) : bufs ≠ [] := by
  obtain ⟨chunks, last, rfl, -⟩ := h
  simp

theorem Output.write_served {K : Kernel} {dev : AesdDev} {log : PacketLog} (h : Refines K dev log) {buf : List Byte}
    {a : Answer} (hs : Served K dev (K.clamp buf) a.writeDev) (hne : buf ≠ []) (hle : buf.length ≤ K.rwMax) {ok : Bool}
    {out : Output} (hw : (Output.device dev).write K buf a = .ok (ok, out)) :
    ok = true ∧ ∃ dev', out = .device dev' ∧ Refines K dev' (log.write buf) := by
  have hclamp := K.clamp_of_le hle
  obtain ⟨dev', hwrite, href, -⟩ := h.write hs (by rw [hclamp]; exact hne)
  rw [hclamp] at href
  simp only [Output.write, hwrite] at hw
  cases hw
  exact ⟨by simp, dev', rfl, href⟩

namespace Shape
variable {c : Config} {early : Bool} {i : Nat} {w w' : Worker}

theorem new : Shape c early i {} := ⟨rfl, rfl⟩

theorem shutdown (h : Shape c early i w) : Shape c early i { w with shutdown := true } := by
  unfold Shape at h ⊢
  unfold Wrote at h ⊢
  dsimp only
  split <;> simp_all

theorem full (h : Shape c early i w) (hl : w.pc.looping = true) : ∀ buf ∈ w.wrote, Full c i buf := by
  unfold Shape at h
  unfold WorkerPc.looping at hl
  split at hl
  · next hpc =>
      rw [hpc] at h
      simp [h.2]
  · next hpc =>
      rw [hpc] at h
      exact h.2
  · next hpc =>
      rw [hpc] at h
      exact h.2
  · next hpc =>
      rw [hpc] at h
      exact h.2.1
  · cases hl

theorem wrote (h : Shape c early i w) (hpc : w.pc ≠ .recvLock) (hl : w.pc.looping = false) : Wrote c early i w := by
  unfold Shape at h
  unfold WorkerPc.looping at hl
  split at h
  case h_1 => contradiction
  case h_2 hp | h_3 hp | h_4 hp | h_6 hp => simp [hp] at hl
  case h_5 => exact Or.inl h.2
  case h_7 | h_8 | h_9 => exact h.2.1
  case h_10 | h_11 => exact h.1
  case h_12 => exact Or.inl h

theorem answered (h : Shape c early i w) (hr : w.response ≠ none) : Packet c i w.wrote := by
  unfold Shape at h
  split at h
  case h_10 | h_11 => exact h.1.resolve_right fun hn => hr (h.2 hn.2)
  case h_12 => exact h
  all_goals exact absurd h.1 hr

theorem buf_le (h : Shape c early i w) {buf : List Byte} {done : Bool} (hpc : w.pc = .recvWrite buf done) :
    buf ≠ [] ∧ buf.length ≤ c.K.rwMax := by
  unfold Shape at h
  rw [hpc] at h
  obtain ⟨-, -, hbuf⟩ := h
  have hle := c.bufSize_le
  split_ifs at hbuf
  · exact ⟨hbuf.newline.ne_nil, hbuf.length.trans hle⟩
  · exact ⟨hbuf.ne_nil, hbuf.length.le.trans hle⟩

theorem exec (h : Shape c early i w) {out out' : Output} {a : Answer} (hopen : w.pc = .recvOpen → a.openOk = true)
    (hleave : w.leavesEarly a = true → early = true ∧ w.wrote = [])
    (hok : ∀ buf done ok, w.pc = .recvWrite buf done → out.write c.K buf a = .ok (ok, out') → ok = true)
    (hexec : w.exec c i out a = .ok (w', out')) : Shape c early i w' := by
  unfold Shape at h
  unfold Worker.leavesEarly at hleave
  cases Worker.exec_step hexec with
  | recvOpen hpc hok =>
      rw [hpc] at h
      exact ⟨h.1, by simp [h.2]⟩
  | recvOpenFails hpc hfails =>
      rw [hopen hpc] at hfails
      cases hfails
  | recvDone hpc =>
      rw [hpc] at h
      exact ⟨h.1, Or.inl h.2, fun hn => absurd hn h.2.ne_nil⟩
  | recvShutdown hpc hstop =>
      rw [hpc] at h hleave
      exact ⟨h.1, Or.inr (hleave (by simp [hstop])), fun _ => Or.inr hstop⟩
  | recvRecv bytes hpc hrecv =>
      rw [hpc] at h
      exact ⟨h.1, h.2, cutBuf_spec length_recvBuf from_recvBuf⟩
  | recvRecvFails hpc hrecv =>
      rw [hpc] at h hleave
      exact ⟨h.1, Or.inr (hleave (by simp [hrecv])), fun _ => Or.inl rfl⟩
  | recvWrite buf done ok out1 hpc hwrite =>
      rw [hpc] at h
      obtain rfl : ok = true := hok buf done ok hpc hwrite
      obtain ⟨hresp, hfull, hbuf⟩ := h
      cases done with
      | true => exact ⟨hresp, w.wrote, buf, rfl, hfull, hbuf⟩
      | false =>
          refine ⟨hresp, fun b hb => ?_⟩
          rcases List.mem_append.mp hb with hb | hb
          · exact hfull b hb
          · rw [List.mem_singleton.mp hb]
            exact hbuf
  | recvReturn hpc hgo =>
      -- without an error and without the flag the worker has its packet
      rw [hpc] at h
      obtain ⟨hresp, hwrote, hnil⟩ := h
      refine hwrote.resolve_right fun hn => ?_
      rcases hnil hn.2 with he | he
      · cases he
      · rw [hgo] at he
        cases he
  | recvReturnFails error hpc hstop =>
      rw [hpc] at h
      exact ⟨h.2.1, fun _ => h.1⟩
  | sendUnlock result hpc =>
      rw [hpc] at h
      exact ⟨Or.inl h, fun hn => absurd hn h.ne_nil⟩
  | exited hpc =>
      unfold Shape
      exact h
  | _ =>
      simp only [*] at h
      exact h

end Shape

end Aesd.Server
