import Aesd.Server.Packets

/-!
# Char-device mode: the server and the driver together

* `Serves`, `FindsNewline`, `LeavesClean` : what the steps of a run are assumed to be;
* `DevInv` : the device stands for the log of all the buffers, in the order of the receiving turns;
* `Layout`, `DevInv.layout` : so it has one entry for each worker that left its loop, and the current worker's buffers
  are pending;
* `one_packet_per_entry`, `clients_do_not_mix`, `response_has_own_packet` : what that says about every run.
-/

namespace Aesd.Server
open Driver Lib

def System.committed (s : System) : List (List Byte) :=
  match s.output with
  | .device dev => dev.committed
  | .file _ => []

theorem System.committed_device {s : System} {dev : AesdDev} (h : s.output = .device dev) :
    s.committed = dev.committed := by
  rw [committed, h]

/-! ## The steps of a run -/

/-- The calls of the step succeed, `recv` apart. -/
def Serves (c : Config) (s : System) : Label → Prop
  | .run i a => ∀ w ∈ s.workers i, w.served c s.output a = true
  | _ => True

/-- No worker leaves its receive loop without a newline. -/
def FindsNewline (s : System) : Label → Prop
  | .run i a => ∀ w ∈ s.workers i, w.leavesEarly a = false
  | _ => True

/-- A worker leaves its receive loop without a newline only before it passed anything to `write`. -/
def LeavesClean (s : System) : Label → Prop
  | .run i a => ∀ w ∈ s.workers i, w.leavesEarly a = true → w.wrote = []
  | _ => True

instance (c : Config) (s : System) : DecidablePred (Serves c s)
  | .run i a => inferInstanceAs (Decidable (∀ w ∈ s.workers i, w.served c s.output a = true))
  | .spawn _ => .isTrue trivial
  | .alarm _ _ => .isTrue trivial
  | .shutdown _ => .isTrue trivial

instance (s : System) : DecidablePred (FindsNewline s)
  | .run i a => inferInstanceAs (Decidable (∀ w ∈ s.workers i, w.leavesEarly a = false))
  | .spawn _ => .isTrue trivial
  | .alarm _ _ => .isTrue trivial
  | .shutdown _ => .isTrue trivial

instance (s : System) : DecidablePred (LeavesClean s)
  | .run i a => inferInstanceAs (Decidable (∀ w ∈ s.workers i, w.leavesEarly a = true → w.wrote = []))
  | .spawn _ => .isTrue trivial
  | .alarm _ _ => .isTrue trivial
  | .shutdown _ => .isTrue trivial

/-- What both conditions on leaving are to the invariant. -/
def Leaves (early : Bool) (s : System) (l : Label) : Prop :=
  ∀ i a w, l = .run i a → s.workers i = some w → w.leavesEarly a = true → early = true ∧ w.wrote = []

theorem FindsNewline.leaves {s : System} {l : Label} (h : FindsNewline s l) : Leaves false s l := by
  rintro i a w rfl hw he
  rw [h w hw] at he
  cases he

theorem LeavesClean.leaves {s : System} {l : Label} (h : LeavesClean s l) : Leaves true s l := by
  rintro i a w rfl hw he
  exact ⟨rfl, h w hw he⟩

/-! ## The invariant -/

structure DevInv (c : Config) (early : Bool) (log : PacketLog) (s : System) : Prop where
  inv : SysInv s
  quiet : ∀ i, s.handlers i = none
  shape : ∀ i w, s.workers i = some w → Shape c early i w
  dev : ∃ dev, s.output = .device dev ∧ Refines c.K dev (log.writeAll (s.recvs.flatMap s.buffers))

theorem SysInv.last_recv {s : System} (h : SysInv s) {i : Nat} (hl : s.order.getLast? = some (.recv i)) :
    ∃ pre, s.recvs = pre ++ [i] ∧ i ∉ pre := by
  obtain ⟨pre, hpre, hnot⟩ := h.last_turn hl
  refine ⟨pre.filterMap Turn.recv?, by simp [System.recvs, hpre, Turn.recv?], fun hmem => hnot ?_⟩
  obtain ⟨t, ht, hti⟩ := List.mem_filterMap.mp hmem
  cases t <;> cases hti
  exact ht

/-- The buffers of all turns, when the worker of the last one writes another. -/
theorem flatMap_buffers_write {bufs : Nat → List (List Byte)} {pre : List Nat} {i : Nat} (hnot : i ∉ pre)
    (buf : List Byte) :
    (pre ++ [i]).flatMap (Function.update bufs i (bufs i ++ [buf])) = (pre ++ [i]).flatMap bufs ++ [buf] := by
  have hpre : pre.flatMap (Function.update bufs i (bufs i ++ [buf])) = pre.flatMap bufs := by
    apply List.flatMap_congr
    intro j hj
    rw [Function.update_of_ne]
    rintro rfl
    exact hnot hj
  rw [List.flatMap_append, List.flatMap_append, hpre]
  simp

namespace DevInv
variable {c : Config} {early : Bool} {log : PacketLog} {s : System}

theorem init {dev : AesdDev} (h : Refines c.K dev log) : DevInv c early log { output := .device dev } where
  inv := .init _
  quiet _ := rfl
  shape i w hw := by simp at hw
  dev := ⟨dev, rfl, h⟩

theorem write (h : DevInv c early log s) {i : Nat} {a : Answer} (hs : Serves c s (.run i a)) {w : Worker}
    (hw : s.workers i = some w) {buf : List Byte} {done ok : Bool} {out : Output} (hpc : w.pc = .recvWrite buf done)
    (hwrite : s.output.write c.K buf a = .ok (ok, out)) :
    ok = true ∧ ∃ dev, out = .device dev ∧ Refines c.K dev ((log.writeAll (s.recvs.flatMap s.buffers)).write buf) := by
  obtain ⟨dev, hdev, href⟩ := h.dev
  obtain ⟨hne, hle⟩ := (h.shape i w hw).buf_le hpc
  have hserved := hs w hw
  simp only [Worker.served, hpc, hdev, decide_eq_true_eq] at hserved
  rw [hdev] at hwrite
  exact Output.write_served href hserved hne hle hwrite

theorem code_dev (h : DevInv c early log s) {i : Nat} {a : Answer} (hs : Serves c s (.run i a)) {w w' : Worker}
    {out : Output} {lock : Option Ctx} {order : List Turn} (hw : s.workers i = some w)
    (hexec : w.exec c i s.output a = .ok (w', out))
    (hlock : w.pc.lockOp.Takes s (.code i) (w.pc.turn i) lock order) :
    ∃ dev, out = .device dev ∧
      Refines c.K dev (log.writeAll ((order.filterMap Turn.recv?).flatMap (Function.update s.buffers i w'.wrote))) := by
  rcases code_cases h.inv hw hexec hlock with ⟨buf, done, ok, hpc, hwrite, rfl, rfl, hlast⟩ | ⟨hsame, hwrote, -, horder⟩
  · obtain ⟨-, dev, hdev, href⟩ := h.write hs hw hpc hwrite
    obtain ⟨pre, hpre, hnot⟩ := h.inv.last_recv hlast
    refine ⟨dev, hdev, ?_⟩
    change Refines c.K dev (log.writeAll (s.recvs.flatMap (Function.update s.buffers i (w.wrote ++ [buf]))))
    rw [hpre] at href ⊢
    rw [← buffers_of_worker hw, flatMap_buffers_write hnot, writeAll_append]
    exact href
  · obtain ⟨dev, hdev, href⟩ := h.dev
    refine ⟨dev, hsame.trans hdev, ?_⟩
    have hbufs : (order.filterMap Turn.recv?).flatMap s.buffers = s.recvs.flatMap s.buffers := by
      rcases horder with ⟨rfl, -, -⟩ | ⟨-, -, hnil, rfl⟩ | ⟨-, -, rfl⟩
      · rfl
      · simp [System.recvs, Turn.recv?, buffers_of_worker hw, hnil]
      · simp [System.recvs, Turn.recv?]
    rw [hwrote, ← buffers_of_worker hw, Function.update_eq_self, hbufs]
    exact href

theorem trans (h : DevInv c early log s) {l : Label} (hs : Serves c s l) (hl : Leaves early s l) {s' : System}
    (ht : Trans c s l s') : DevInv c early log s' := by
  obtain ⟨dev, hdev, href⟩ := h.dev
  refine ⟨h.inv.trans ht, ?_, ?_, ?_⟩
  · -- no handler starts on a device
    cases ht with
    | alarm i text content hf hh =>
        rw [hf] at hdev
        cases hdev
    | handler i a p p' out lock order hp hexec hlock =>
        rw [h.quiet i] at hp
        cases hp
    | _ => exact h.quiet
  · refine ht.workers h.shape (fun _ => .new) (fun _ _ hw => hw.shutdown) fun i a w w' heq hw hexec _ _ => ?_
    subst heq
    refine (h.shape i w hw).exec (fun hpc => ?_) (hl i a w rfl hw) (fun buf done ok hpc hwrite => ?_) hexec
    · have := hs w hw
      simpa only [Worker.served, hpc] using this
    · exact (h.write hs hw hpc hwrite).1
  · cases ht with
    | stay => exact ⟨dev, hdev, href⟩
    | code i a w w' out lock order hh hw hexec hlock =>
        rw [buffers_update rfl]
        exact h.code_dev hs hw hexec hlock
    | spawn i hw =>
        rw [buffers_spawn hw]
        exact ⟨dev, hdev, href⟩
    | shutdown i w hw =>
        rw [buffers_shutdown hw]
        exact ⟨dev, hdev, href⟩
    | alarm i text content hf hh => exact ⟨dev, hdev, href⟩
    | handler i a p p' out lock order hp hexec hlock =>
        rw [h.quiet i] at hp
        cases hp

theorem of_run {dev : AesdDev} (h : Refines c.K dev log) {labels : List Label} {P : System → Label → Prop}
    (hl : ∀ s l, P s l → Leaves early s l)
    (ha : Along (System.step c) (fun s l => Serves c s l ∧ P s l) { output := .device dev } labels) :
    DevInv c early log (run (System.step c) { output := .device dev } labels) :=
  Along.invariant (fun s l h hp => h.trans hp.1 (hl s l hp.2) (step_trans c s l)) (init h) ha

end DevInv

theorem WorkerPc.receiving_of_looping {pc : WorkerPc} (h : pc.looping = true) : pc.receiving = true := by
  unfold looping at h
  split at h <;> first | rfl | cases h

/-- The workers that took the lock for receiving: those that left their loop, and the one that is in it. -/
structure Layout (c : Config) (early : Bool) (s : System) (finished current : List Nat) : Prop where
  recvs : s.recvs = finished ++ current
  length_le : current.length ≤ 1
  looping : ∀ i ∈ current, s.lock = some (.code i) ∧ ∃ w, s.workers i = some w ∧ w.pc.looping = true
  wrote : ∀ i ∈ finished, ∃ w, s.workers i = some w ∧ Wrote c early i w

namespace Layout
variable {c : Config} {early : Bool} {log : PacketLog} {s : System} {finished current : List Nat}

theorem free (h : Layout c early s finished current) (hfree : s.lock = none) : current = [] := by
  cases current with
  | nil => rfl
  | cons i rest =>
      obtain ⟨hlock, -⟩ := h.looping i (by simp)
      rw [hfree] at hlock
      cases hlock

theorem blocks (h : Layout c early s finished current) {i : Nat} (hi : i ∈ finished) :
    Packet c i (s.buffers i) ∨ s.buffers i = [] := by
  obtain ⟨w, hw, hwrote⟩ := h.wrote i hi
  rw [buffers_of_worker hw]
  exact hwrote.imp_right And.right

/-- What the worker in its loop wrote is pending behind the blocks of the others. -/
theorem writeAll (h : Layout c early s finished current) (hs : ∀ i w, s.workers i = some w → Shape c early i w) :
    log.writeAll (s.recvs.flatMap s.buffers) =
      ⟨(log.writeAll (finished.flatMap s.buffers)).committed,
        (log.writeAll (finished.flatMap s.buffers)).pending ++ current.flatMap s.bytes⟩ := by
  rw [h.recvs, List.flatMap_append, writeAll_append]
  rcases current with _ | ⟨i, _ | ⟨j, rest⟩⟩
  · simp
  · obtain ⟨-, w, hw, hloop⟩ := h.looping i (by simp)
    have hfull := (hs i w hw).full hloop
    rw [List.flatMap_singleton, List.flatMap_singleton, s.bytes_eq, buffers_of_worker hw, writeAll_full _ hfull]
  · have := h.length_le
    simp at this

end Layout

namespace DevInv
variable {c : Config} {early : Bool} {log : PacketLog} {s : System}

theorem layout (h : DevInv c early log s) : ∃ finished current, Layout c early s finished current := by
  have hwrote : ∀ i ∈ s.recvs, (∀ w, s.workers i = some w → w.pc.looping = false) →
      ∃ w, s.workers i = some w ∧ Wrote c early i w := by
    intro i hi hloop
    obtain ⟨w, hw, hpc⟩ := (h.inv.started i).mp hi
    exact ⟨w, hw, (h.shape i w hw).wrote hpc (hloop w hw)⟩
  by_cases hex : ∃ i w, s.workers i = some w ∧ w.pc.looping = true
  · obtain ⟨i, w, hw, hloop⟩ := hex
    have hrecv := WorkerPc.receiving_of_looping hloop
    have hlock := (h.inv.code i).mpr ⟨w, hw, WorkerPc.holds_of_receiving hrecv⟩
    obtain ⟨pre, hpre, hnot⟩ := h.inv.last_recv (h.inv.last i w hw hrecv)
    refine ⟨pre, [i], hpre, by simp, fun j hj => ?_, fun j hj => hwrote j (by simp [hpre, hj]) fun v hv => ?_⟩
    · rw [List.mem_singleton.mp hj]
      exact ⟨hlock, w, hw, hloop⟩
    · -- the lock has one holder
      rw [Bool.eq_false_iff]
      intro hv'
      have hj' := WorkerPc.holds_of_receiving (WorkerPc.receiving_of_looping hv')
      obtain rfl : j = i := h.inv.alone hv hw hj' (WorkerPc.holds_of_receiving hrecv)
      exact hnot hj
  · refine ⟨s.recvs, [], by simp, by simp, by simp, fun i hi => hwrote i hi fun w hw => ?_⟩
    rw [Bool.eq_false_iff]
    exact fun hloop => hex ⟨i, w, hw, hloop⟩

/-- From a device with nothing pending there is one entry for each worker that left its loop with a packet. -/
theorem refines {old : List (List Byte)} (h : DevInv c early ⟨old, []⟩ s) {finished current : List Nat}
    (hl : Layout c early s finished current) :
    ∃ dev, s.output = .device dev ∧ Refines c.K dev ⟨old ++ packets s.bytes finished, current.flatMap s.bytes⟩ := by
  obtain ⟨dev, hdev, href⟩ := h.dev
  have hbytes : (fun i => (s.buffers i).flatten) = s.bytes := funext fun i => (s.bytes_eq i).symm
  rw [hl.writeAll h.shape, writeAll_blocks s.buffers finished fun i hi => hl.blocks hi, hbytes] at href
  exact ⟨dev, hdev, href⟩

end DevInv

/-! ## One packet per entry -/

theorem packets_eq_map {bytes : Nat → List Byte} {workers : List Nat} (h : ∀ i ∈ workers, bytes i ≠ []) :
    packets bytes workers = workers.map bytes := by
  rw [packets, List.filter_eq_self]
  intro block hblock
  obtain ⟨i, hi, rfl⟩ := List.mem_map.mp hblock
  simpa using h i hi

/-- **One packet per entry.** In every run from a device with nothing pending in which the calls succeed and workers
leave their receive loop by a newline, the entries committed are those of the workers that left it, in the order in
which they acquired the lock, each the buffers that its worker passed to `write`; the buffers of the one still in its
loop are pending; an entry has one newline, its last byte; and the ring holds the last ten. -/
theorem one_packet_per_entry (c : Config) (σ : State) (hσ : Reachable c.K σ) (hp : σ.dev.pending = some [])
    (labels : List Label)
    (ha : Along (System.step c) (fun s l => Serves c s l ∧ FindsNewline s l) { output := .device σ.dev } labels)
    (s : System) (hs : s = run (System.step c) { output := .device σ.dev } labels) :
    ∃ dev finished current, s.output = .device dev ∧
      s.recvs = finished ++ current ∧ s.recvs.Nodup ∧
      (∀ i, i ∈ s.recvs ↔ ∃ w, s.workers i = some w ∧ w.pc ≠ .recvLock) ∧
      (current.length ≤ 1 ∧ ∀ i ∈ current, s.lock = some (.code i) ∧ ∃ w, s.workers i = some w ∧ w.pc.looping = true) ∧
      dev.committed = σ.dev.committed ++ finished.map s.bytes ∧
      dev.pending = some (current.flatMap s.bytes) ∧
      (∀ i ∈ finished, ∃ w, s.workers i = some w ∧ s.bytes i = w.wrote.flatten ∧ Packet c i w.wrote ∧
        OneNewline (s.bytes i)) ∧
      ∃ items, dev.buf.Rep items ∧ items.map (fun e => (dev.heap.bytes e).getD []) = dev.committed.rtake 10 := by
  have hinv : DevInv c false ⟨σ.dev.committed, []⟩ s := by
    rw [hs]
    exact .of_run (refines_of_reachable hσ hp) (fun _ _ => FindsNewline.leaves) ha
  obtain ⟨finished, current, hl⟩ := hinv.layout
  obtain ⟨dev, hdev, href⟩ := hinv.refines hl
  obtain ⟨items, hitems⟩ := href.inv
  have hpacket : ∀ i ∈ finished, ∃ w, s.workers i = some w ∧ s.bytes i = w.wrote.flatten ∧ Packet c i w.wrote ∧
      OneNewline (s.bytes i) := by
    intro i hi
    obtain ⟨w, hw, hwrote⟩ := hl.wrote i hi
    have hpack : Packet c i w.wrote := hwrote.resolve_right (by simp)
    refine ⟨w, hw, bytes_of_worker hw, hpack, ?_⟩
    rw [bytes_of_worker hw]
    exact hpack.oneNewline
  have hne : ∀ i ∈ finished, s.bytes i ≠ [] := fun i hi => by
    obtain ⟨-, -, -, -, hone⟩ := hpacket i hi
    exact hone.ne_nil
  refine ⟨dev, finished, current, hdev, hl.recvs, hinv.inv.nodup, hinv.inv.started, ⟨hl.length_le, hl.looping⟩, ?_,
    href.pending, hpacket, items, hitems.rep, hitems.log⟩
  rw [href.committed, packets_eq_map hne]

def twoPackets : List Label :=
  [.spawn 0, .spawn 1] ++ List.replicate 9 (.run 1 (letterAnswer 98)) ++ List.replicate 9 (.run 0 (letterAnswer 97))

theorem one_packet_per_entry_two : ∃ dev,
    (run (System.step .aesdsocket) { output := .device aesdInitModule } twoPackets).output = .device dev ∧
      dev.committed = [[⟨98, some 1⟩, ⟨10, some 1⟩], [⟨97, some 0⟩, ⟨10, some 0⟩]] ∧ dev.pending = some [] := by
  have hfree : (run (System.step .aesdsocket) { output := .device aesdInitModule } twoPackets).lock = none := by
    decide +kernel
  obtain ⟨dev, finished, current, hdev, hrecvs, -, -, hcur, hcom, hpend, -⟩ :=
    one_packet_per_entry .aesdsocket State.init ⟨[], [], rfl⟩ rfl twoPackets (by decide +kernel) _ rfl
  obtain rfl : current = [] := by
    cases current with
    | nil => rfl
    | cons i rest =>
        obtain ⟨hlock, -⟩ := hcur.2 i (by simp)
        cases hfree.symm.trans hlock
  rw [List.append_nil] at hrecvs
  refine ⟨dev, hdev, ?_, hpend⟩
  rw [hcom, ← hrecvs]
  decide +kernel

/-! ## Clients do not mix -/

def OneClient (entry : List Byte) : Prop :=
  ∀ b ∈ entry, ∀ b' ∈ entry, ∀ i j, b.src = some i → b'.src = some j → i = j

def NoClient (bytes : List Byte) : Prop := ∀ b ∈ bytes, b.src = none

theorem From.oneClient {i : Nat} {bytes rest : List Byte} (h : From i bytes) (hrest : NoClient rest) :
    OneClient (rest ++ bytes) := by
  have hsrc : ∀ b ∈ rest ++ bytes, ∀ j, b.src = some j → j = i := by
    intro b hb j hj
    rcases List.mem_append.mp hb with hb | hb
    · rw [hrest b hb] at hj
      cases hj
    · rcases h b hb with hnone | hsome
      · rw [hnone] at hj
        cases hj
      · rw [hsome] at hj
        exact (Option.some.inj hj).symm
  intro b hb b' hb' j k hj hk
  rw [hsrc b hb j hj, hsrc b' hb' k hk]

/-- Workers that write a packet each, or nothing, add entries of one client and leave no client's byte behind. -/
theorem writeAll_oneClient {c : Config} (bufs : Nat → List (List Byte)) (workers : List Nat)
    (h : ∀ i ∈ workers, Packet c i (bufs i) ∨ bufs i = []) (log : PacketLog) (hp : NoClient log.pending) :
    ∃ added, (log.writeAll (workers.flatMap bufs)).committed = log.committed ++ added ∧
      (∀ entry ∈ added, OneClient entry) ∧ NoClient (log.writeAll (workers.flatMap bufs)).pending := by
  induction workers generalizing log with
  | nil => exact ⟨[], by simp, by simp, hp⟩
  | cons i workers ih =>
      have hrest := fun j hj => h j (List.mem_cons_of_mem i hj)
      rw [List.flatMap_cons, writeAll_append]
      rcases h i (by simp) with hi | hi
      · rw [writeAll_packet log hi]
        obtain ⟨added, hcom, hone, hpend⟩ := ih hrest ⟨log.committed ++ [log.pending ++ (bufs i).flatten], []⟩
          (by simp [NoClient])
        refine ⟨(log.pending ++ (bufs i).flatten) :: added, by rw [hcom]; simp, ?_, hpend⟩
        intro entry hentry
        rcases List.mem_cons.mp hentry with rfl | hentry
        · exact hi.from.oneClient hp
        · exact hone entry hentry
      · rw [hi, writeAll_nil]
        exact ih hrest log hp

/-- **Clients do not mix** in a run in which the calls other than `recv` succeed and a worker leaves its receive loop
without a newline only before its first write: from a device with no client's byte pending, no entry that the run
commits has bytes of two connections. -/
theorem clients_do_not_mix (c : Config) (σ : State) (hσ : Reachable c.K σ) (pending : List Byte)
    (hp : σ.dev.pending = some pending) (hnone : NoClient pending) (labels : List Label)
    (ha : Along (System.step c) (fun s l => Serves c s l ∧ LeavesClean s l) { output := .device σ.dev } labels) :
    ∃ added, (run (System.step c) { output := .device σ.dev } labels).committed = σ.dev.committed ++ added ∧
      ∀ entry ∈ added, OneClient entry := by
  have hinv : DevInv c true ⟨σ.dev.committed, pending⟩ (run (System.step c) { output := .device σ.dev } labels) :=
    .of_run (refines_of_reachable hσ hp) (fun _ _ => LeavesClean.leaves) ha
  obtain ⟨finished, current, hl⟩ := hinv.layout
  obtain ⟨dev, hdev, href⟩ := hinv.dev
  obtain ⟨added, hcom, hone, -⟩ :=
    writeAll_oneClient _ finished (fun i hi => hl.blocks hi) ⟨σ.dev.committed, pending⟩ hnone
  refine ⟨added, ?_, hone⟩
  rw [System.committed_device hdev, href.committed, hl.writeAll hinv.shape]
  exact hcom

/-- Client 0's connection fails before it sends anything, then client 1 sends a packet. -/
def failedAtOnce : List Label :=
  [.spawn 0, .spawn 1] ++ List.replicate 6 (.run 0 {}) ++ List.replicate 9 (.run 1 (letterAnswer 98))

theorem clients_do_not_mix_failed_at_once : ∃ added,
    (run (System.step .aesdsocket) { output := .device aesdInitModule } failedAtOnce).committed = added ∧
      added.length = 1 ∧ ∀ entry ∈ added, OneClient entry := by
  obtain ⟨added, hcom, hone⟩ := clients_do_not_mix .aesdsocket State.init ⟨[], [], rfl⟩ [] rfl (by simp [NoClient])
    failedAtOnce (by decide +kernel)
  have hlen : (run (System.step .aesdsocket) { output := .device aesdInitModule } failedAtOnce).committed.length = 1 := by
    decide +kernel
  exact ⟨added, hcom, (congrArg List.length hcom).symm.trans hlen, hone⟩

/-- Client 0 sends a letter and its connection fails, then client 1 sends a packet. -/
def failedThenPacket : List Label :=
  [.spawn 0, .spawn 1] ++ List.replicate 6 (.run 0 { recv := some [97] }) ++ List.replicate 3 (.run 0 {}) ++
    List.replicate 9 (.run 1 (letterAnswer 98))

theorem failed_recv_mixes_clients :
    Along (System.step .aesdsocket) (Serves .aesdsocket) { output := .device aesdInitModule } failedThenPacket ∧
      ∃ entry ∈ (run (System.step .aesdsocket) { output := .device aesdInitModule } failedThenPacket).committed,
        ⟨97, some 0⟩ ∈ entry ∧ ⟨98, some 1⟩ ∈ entry ∧ ¬ OneClient entry := by
  have hrun : ∃ entry ∈ (run (System.step .aesdsocket) { output := .device aesdInitModule } failedThenPacket).committed,
      ⟨97, some 0⟩ ∈ entry ∧ ⟨98, some 1⟩ ∈ entry := by decide +kernel
  obtain ⟨entry, hentry, ha, hb⟩ := hrun
  refine ⟨by decide +kernel, entry, hentry, ha, hb, fun hone => ?_⟩
  cases hone _ ha _ hb 0 1 rfl rfl

/-! ## A client's own packet -/

theorem packets_append (bytes : Nat → List Byte) (xs ys : List Nat) :
    packets bytes (xs ++ ys) = packets bytes xs ++ packets bytes ys := by
  simp [packets]

theorem packets_cons {bytes : Nat → List Byte} {i : Nat} (h : bytes i ≠ []) (workers : List Nat) :
    packets bytes (i :: workers) = bytes i :: packets bytes workers := by
  simp [packets, h]

theorem length_packets_le (bytes : Nat → List Byte) (workers : List Nat) :
    (packets bytes workers).length ≤ workers.length := by
  simpa [packets] using List.length_filter_le (fun block => !block.isEmpty) (workers.map bytes)

/-- A device that had `old` entries before the first turn: a reader finds the last ten. -/
def deviceView (old : List (List Byte)) : View where
  eval bytes turns := ((old ++ packets bytes (turns.filterMap Turn.recv?)).rtake 10).flatten
  frame bytes turns i b h := by
    have hmap : (turns.filterMap Turn.recv?).map (Function.update bytes i b) =
        (turns.filterMap Turn.recv?).map bytes := by
      apply List.map_congr_left
      intro j hj
      obtain ⟨t, ht, htj⟩ := List.mem_filterMap.mp hj
      rw [Function.update_of_ne]
      rintro rfl
      cases t <;> cases htj
      exact h ht
    rw [packets, packets, hmap]

theorem DevInv.view {c : Config} {old : List (List Byte)} {s : System} (h : DevInv c true ⟨old, []⟩ s)
    (hfree : s.lock = none) : s.output.content = (deviceView old).eval s.bytes s.order := by
  obtain ⟨finished, current, hl⟩ := h.layout
  obtain ⟨dev, hdev, href⟩ := h.refines hl
  have hrecvs : s.order.filterMap Turn.recv? = finished := by
    have := hl.recvs
    rwa [hl.free hfree, List.append_nil] at this
  rw [hdev, Output.content, href.readable]
  dsimp only [deviceView]
  rw [hrecvs]

/-- **A response has the client's own packet, unless ten others were committed since.** In every run from a device with
nothing pending in which the calls other than `recv` succeed and a worker leaves its receive loop without a newline only
before its first write: a worker whose `send_response` returned true has passed to `send` the last ten entries that were
committed when it acquired the lock for the second time. They have its own packet, as one entry, if at most nine packets
were committed between its two acquisitions. -/
theorem response_has_own_packet (c : Config) (σ : State) (hσ : Reachable c.K σ) (hp : σ.dev.pending = some [])
    (labels : List Label)
    (ha : Along (System.step c) (fun s l => Serves c s l ∧ LeavesClean s l) { output := .device σ.dev } labels)
    (s : System) (hs : s = run (System.step c) { output := .device σ.dev } labels) (i : Nat) (w : Worker)
    (hw : s.workers i = some w) (hr : w.response = some true) :
    ∃ upto rest before between, s.order = upto ++ .send i :: rest ∧
      upto.filterMap Turn.recv? = before ++ i :: between ∧ Packet c i w.wrote ∧
      w.passed = ((σ.dev.committed ++ packets s.bytes before ++
        w.wrote.flatten :: packets s.bytes between).rtake 10).flatten ∧
      ((packets s.bytes between).length ≤ 9 →
        w.passed = ((σ.dev.committed ++ packets s.bytes before).rtake (9 - (packets s.bytes between).length)).flatten ++
          w.wrote.flatten ++ (packets s.bytes between).flatten) := by
  have hrefines := refines_of_reachable hσ hp
  have hinv : DevInv c true ⟨σ.dev.committed, []⟩ s ∧ Snapped (deviceView σ.dev.committed) s := by
    rw [hs]
    refine Along.invariant
      (I := fun s => DevInv c true ⟨σ.dev.committed, []⟩ s ∧ Snapped (deviceView σ.dev.committed) s)
      (fun s l h hl => ?_) ⟨.init hrefines, .init _ _⟩ ha
    have ht := step_trans c s l
    exact ⟨h.1.trans hl.1 hl.2.leaves ht, h.2.trans h.1.inv h.1.view ht⟩
  have hresp : RespInv c s := by
    rw [hs]
    have hsound : (Output.device σ.dev).Sound c.K := hrefines.inv
    exact RespInv.of_run hsound labels
  have hpassed := (hresp.phase i w hw).answered hr
  have hpacket := (hinv.1.shape i w hw).answered (by simp [hr])
  obtain ⟨upto, rest, horder, hmem, hshot⟩ := hinv.2 i w hw (Or.inr (by simp [hr]))
  obtain ⟨before, between, hsplit⟩ := List.append_of_mem (List.mem_filterMap.mpr ⟨_, hmem, rfl⟩ :
    i ∈ upto.filterMap Turn.recv?)
  have hown : s.bytes i ≠ [] := by
    rw [bytes_of_worker hw]
    exact hpacket.oneNewline.ne_nil
  have hall : w.passed = ((σ.dev.committed ++ packets s.bytes before ++
      w.wrote.flatten :: packets s.bytes between).rtake 10).flatten := by
    rw [hpassed, hshot]
    dsimp only [deviceView]
    rw [hsplit, packets_append, packets_cons hown, bytes_of_worker hw, List.append_assoc]
  refine ⟨upto, rest, before, between, horder, hsplit, hpacket, hall, fun hle => ?_⟩
  rw [hall, rtake_append_cons _ _ _ hle]
  simp

/-- Client 0 sends a packet, then `n` other clients do, then client 0 gets its response. -/
def overtaken (n : Nat) : List Label :=
  .spawn 0 :: List.replicate 9 (.run 0 (letterAnswer 97)) ++
    (List.range n).flatMap (fun k => .spawn (k + 1) :: List.replicate 9 (.run (k + 1) (letterAnswer 98))) ++
    List.replicate 40 (.run 0 (letterAnswer 97))

theorem response_has_own_packet_overtaken : ∃ w front between,
    (run (System.step .aesdsocket) { output := .device aesdInitModule } (overtaken 1)).workers 0 = some w ∧
      w.passed = front ++ w.wrote.flatten ++ between ∧
      w.wrote.flatten = [⟨97, some 0⟩, ⟨10, some 0⟩] ∧ w.passed.length = 4 := by
  have hget : ((run (System.step .aesdsocket) { output := .device aesdInitModule } (overtaken 1)).workers 0).any
      (fun w => decide (w.response = some true ∧ w.wrote.flatten = [⟨97, some 0⟩, ⟨10, some 0⟩] ∧
        w.passed.length = 4)) = true := by decide +kernel
  obtain ⟨w, hw, hpassed⟩ := (Option.any_eq_true _ _).mp hget
  obtain ⟨hresponse, hwrote, hlength⟩ := of_decide_eq_true hpassed
  obtain ⟨upto, rest, before, between, horder, hsplit, -, -, hown⟩ := response_has_own_packet .aesdsocket State.init
    ⟨[], [], rfl⟩ rfl (overtaken 1) (by decide +kernel) _ rfl 0 w hw hresponse
  refine ⟨w, _, _, hw, hown ?_, hwrote, hlength⟩
  have hrecvs : ((run (System.step .aesdsocket) { output := .device aesdInitModule } (overtaken 1)).order.filterMap
      Turn.recv?).length = 2 := by decide +kernel
  have hlen := congrArg (fun order => (order.filterMap Turn.recv?).length) horder
  rw [List.filterMap_append, hsplit, List.length_append, List.length_append, List.length_cons] at hlen
  have htwo := hrecvs.symm.trans hlen
  exact (length_packets_le _ between).trans (by omega)

/-- Ten other clients are served between the two turns of client 0. -/
theorem own_packet_lost :
    Along (System.step .aesdsocket) (fun s l => Serves .aesdsocket s l ∧ FindsNewline s l)
      { output := .device aesdInitModule } (overtaken 10) ∧
    ∃ w, (run (System.step .aesdsocket) { output := .device aesdInitModule } (overtaken 10)).workers 0 = some w ∧
      w.response = some true ∧ ¬ w.wrote.flatten <:+: w.passed := by
  refine ⟨by decide +kernel, ?_⟩
  have hlost : ((run (System.step .aesdsocket) { output := .device aesdInitModule } (overtaken 10)).workers 0).any
      (fun w => decide (w.response = some true ∧ ¬ w.wrote.flatten <:+: w.passed)) = true := by decide +kernel
  obtain ⟨w, hw, hbad⟩ := (Option.any_eq_true _ _).mp hlost
  exact ⟨w, hw, of_decide_eq_true hbad⟩

end Aesd.Server
