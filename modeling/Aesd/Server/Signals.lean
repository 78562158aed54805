import Aesd.Lib.Fair
import Aesd.Server.Lifecycle

/-!
# Termination signals

The handler stores `running = false` and `aesd_server_run` stores `running = true` before its loop, so a signal counts if
it comes after that store.

* `Heeded` : what holds along every run in which no signal comes during start-up and every worker can be started;
* `MainPc.rank`, `rank_drops` : from the signal on, every step of the main thread brings it closer to `srv_shutdown`;
* `Waits` : the main thread waits in `accept`, or in `alarm_handler` for `output_lock_`;
* `GoesOn`, `Wakes` : it takes its steps, unless it waits; and it does not wait for ever;
* `Stopping.comes_down`, `heeds_of_onTime` : so at most one more call of `accept_client`, then `srv_shutdown`;
* `no_signal_lost_iff` : when no signal is lost.
-/

namespace Aesd.Server
open Driver Lib

/-- The main thread has not stored `running = true` yet. -/
def MainPc.startingUp : MainPc → Bool
  | .serverInit | .bind | .listen | .setRunning => true
  | _ => false

/-- The main thread is in `srv_shutdown`, or `aesd_server_run` has returned from it. -/
def MainPc.shuttingDown : MainPc → Bool
  | .closeServer | .finish | .done => true
  | .visit .shutdown _ | .remove .shutdown _ _ | .join .shutdown _ _ | .delete .shutdown _ _ => true
  | _ => false

/-- How far `aesd_server_run` has come: start-up, the accept loop, `srv_shutdown`, and its loop over the workers. -/
def MainPc.stage : MainPc → Nat
  | .serverInit | .bind | .listen | .setRunning | .failed => 0
  | .closeServer => 2
  | .visit .shutdown _ | .remove .shutdown _ _ | .join .shutdown _ _ | .delete .shutdown _ _ | .finish | .done => 3
  | _ => 1

theorem shuttingDown_iff {pc : MainPc} : pc.shuttingDown = true ↔ 2 ≤ pc.stage := by
  unfold MainPc.shuttingDown MainPc.stage
  cases pc with
  | visit walk p => cases walk <;> simp
  | remove walk e temp => cases walk <;> simp
  | join walk e temp => cases walk <;> simp
  | delete walk e temp => cases walk <;> simp
  | _ => simp

theorem stage_of_accepting {pc : MainPc} (h : pc.accepting = true) : pc.stage = 1 := by
  cases pc <;> first | rfl | cases h

theorem MainTrans.stage_le {c : Config} {s s' : AesdServer} (ht : MainTrans c s s') : s.main.stage ≤ s'.main.stage := by
  have hwalk : ∀ (walk : Walk) (e : Nat) (temp : Option Nat),
      (MainPc.remove walk e temp).stage = (MainPc.visit walk temp).stage ∧
        (MainPc.join walk e temp).stage = (MainPc.visit walk temp).stage ∧
        (MainPc.delete walk e temp).stage = (MainPc.visit walk temp).stage := by
    intro walk e temp
    cases walk <;> exact ⟨rfl, rfl, rfl⟩
  cases ht with
  | failed hpc => rcases hpc with hpc | hpc <;> simp [hpc, MainPc.stage]
  | build pc workers bufs fds entries hpc =>
      rw [stage_of_accepting hpc.accepting.1, stage_of_accepting hpc.accepting.2]
  | refuse workers bufs hpc => exact (stage_of_accepting hpc.accepting).le
  | check e entry hpc hentry =>
      rw [hpc]
      dsimp only
      split_ifs <;> simp [MainPc.stage]
  | remove walk e temp head entries hpc =>
      rw [hpc, (hwalk walk e temp).1, (hwalk walk e temp).2.1]
  | join walk e temp entry tid threads hpc hentry htid hexited =>
      rw [hpc, (hwalk walk e temp).2.1, (hwalk walk e temp).2.2]
  | wait walk e temp entry tid hpc hentry htid hexited => exact le_rfl
  | delete walk e temp workers bufs entries hpc => rw [hpc, (hwalk walk e temp).2.2]
  | returned hpc => exact le_rfl
  | _ => simp [*, MainPc.stage]

theorem ServerStep.stage_le {c : Config} {s s' : AesdServer} {l : List Nat} {act : Act} (ht : ServerStep c s l act s') :
    s.main.stage ≤ s'.main.stage := by
  cases ht with
  | main ok s' hruns hstep ht h' => exact ht.stage_le
  | _ => exact Nat.le_refl _

def Binds (s : AesdServer) : Act → Prop
  | .main ok => s.MainRuns → s.main = .bind ∨ s.main = .listen → ok = true
  | _ => True

instance (s : AesdServer) : DecidablePred (Binds s)
  | .main ok => inferInstanceAs (Decidable (s.MainRuns → s.main = .bind ∨ s.main = .listen → ok = true))
  | .thread _ => .isTrue trivial
  | .signal => .isTrue trivial

/-- A signal is handled after `aesd_server_run` has stored `running = true`. -/
def OnTime (s : AesdServer) : Act → Prop
  | .signal => s.main.startingUp = false
  | _ => True

instance (s : AesdServer) : DecidablePred (OnTime s)
  | .main _ => .isTrue trivial
  | .thread _ => .isTrue trivial
  | .signal => inferInstanceAs (Decidable (s.main.startingUp = false))

/-- A signal is on time, and a worker can be started. -/
def Heard (s : AesdServer) (act : Act) : Prop := OnTime s act ∧ StartsWorker s act

instance (s : AesdServer) : DecidablePred (Heard s) :=
  fun act => inferInstanceAs (Decidable (OnTime s act ∧ StartsWorker s act))

/-! ## The flag and the calls -/

section Flags
variable {c : Config} {s s' : AesdServer} {ok : Bool}

theorem looping_of_accepting {pc : MainPc} (h : pc.accepting = true) : pc.startingUp = false ∧ pc ≠ .acceptClient := by
  constructor
  · cases pc <;> first | rfl | cases h
  · rintro rfl
    cases h

/-- What a step of the main thread does to the flag and to the count of the calls: it is one of start-up, a call of
`accept_client`, or another step behind start-up. -/
inductive FlagStep (s s' : AesdServer) : Prop
  | startUp (hup : s.main.startingUp = true) (hsig : s'.signalled = s.signalled) (hstarts : s'.starts = s.starts)
      (hne : s'.main ≠ .acceptClient)
  | call (hpc : s.main = .acceptClient) (hup' : s'.main.startingUp = false) (hne : s'.main ≠ .acceptClient)
      (hsig : s'.signalled = s.signalled) (hrun : s'.running = s.running)
      (hstarts : s'.starts = if s.signalled then s.starts + 1 else s.starts)
  | loop (hup : s.main.startingUp = false) (hup' : s'.main.startingUp = false) (hsig : s'.signalled = s.signalled)
      (hrun : s'.running = s.running) (hstarts : s'.starts = s.starts)
      (hagain : s'.main = .acceptClient → s.running = true)

theorem MainTrans.flags (ht : MainTrans c s s') : FlagStep s s' := by
  have hloop : ∀ {pc : MainPc}, s.main = pc → pc.startingUp = false → s'.signalled = s.signalled →
      s'.main.startingUp = false → s'.running = s.running → s'.starts = s.starts → s'.main ≠ .acceptClient →
      FlagStep s s' :=
    fun hpc hup hsig hup' hrun hstarts hne =>
      .loop (by rw [hpc]; exact hup) hup' hsig hrun hstarts fun h => absurd h hne
  cases ht with
  | serverInit hpc => exact .startUp (by rw [hpc]; rfl) rfl rfl (by simp)
  | bound hpc => exact .startUp (by rw [hpc]; rfl) rfl rfl (by simp)
  | listening hpc => exact .startUp (by rw [hpc]; rfl) rfl rfl (by simp)
  | failed hpc => exact .startUp (by rcases hpc with hpc | hpc <;> rw [hpc] <;> rfl) rfl rfl (by simp)
  | setRunning hpc => exact .startUp (by rw [hpc]; rfl) rfl rfl (by simp)
  | again hpc hrun => exact .loop (by rw [hpc]; rfl) rfl rfl rfl rfl fun _ => hrun
  | call hpc => exact .call hpc rfl (by simp) rfl rfl rfl
  | leave hpc hrun => exact hloop hpc rfl rfl rfl rfl rfl (by simp)
  | build pc workers bufs fds entries hpc =>
      obtain ⟨hacc, hacc'⟩ := hpc.accepting
      exact hloop rfl (looping_of_accepting hacc).1 rfl (looping_of_accepting hacc').1 rfl rfl
        (looping_of_accepting hacc').2
  | refuse workers bufs hpc => exact hloop rfl (looping_of_accepting hpc.accepting).1 rfl rfl rfl rfl (by simp)
  | start e worker entries threads hpc => exact hloop hpc rfl rfl rfl rfl rfl (by simp)
  | insert e entries head hpc => exact hloop hpc rfl rfl rfl rfl rfl (by simp)
  | closeServer hpc => exact hloop hpc rfl rfl rfl rfl rfl (by simp)
  | checked hpc => exact hloop hpc rfl rfl rfl rfl rfl (by simp)
  | stopped hpc => exact hloop hpc rfl rfl rfl rfl rfl (by simp)
  | check e entry hpc hentry =>
      exact hloop hpc rfl rfl (by dsimp only; split_ifs <;> rfl) rfl rfl (by dsimp only; split_ifs <;> simp)
  | stop e entry hpc hentry => exact hloop hpc rfl rfl rfl rfl rfl (by simp)
  | remove walk e temp head entries hpc => exact hloop hpc rfl rfl rfl rfl rfl (by simp)
  | join walk e temp entry tid threads hpc hentry htid hexited => exact hloop hpc rfl rfl rfl rfl rfl (by simp)
  | wait walk e temp entry tid hpc hentry htid hexited =>
      exact hloop hpc rfl rfl (by rw [hpc]; rfl) rfl rfl (by simp [hpc])
  | delete walk e temp workers bufs entries hpc => exact hloop hpc rfl rfl rfl rfl rfl (by simp)
  | finish hpc => exact hloop hpc rfl rfl rfl rfl rfl (by simp)
  | returned hpc =>
      rcases hpc with hpc | hpc
      · exact hloop hpc rfl rfl (by rw [hpc]; rfl) rfl rfl (by simp [hpc])
      · exact hloop hpc rfl rfl (by rw [hpc]; rfl) rfl rfl (by simp [hpc])

/-- `bind` and `listen` are the only calls after which `aesd_server_run` returns early. -/
theorem not_failed (hb : s.main = .bind ∨ s.main = .listen → ok = true) (hpc : s.main ≠ .failed)
    (hstep : s.mainStep c ok = .ok s') : s'.main ≠ .failed := by
  by_cases hcall : s.main = .bind ∨ s.main = .listen
  · obtain rfl : ok = true := hb hcall
    rcases hcall with hm | hm <;> rw [AesdServer.mainStep, hm] at hstep <;> cases hstep <;> simp
  · have ht := mainStep_trans hstep
    cases ht with
    | failed hm => exact absurd hm hcall
    | build pc workers bufs fds entries hb =>
        have hacc := hb.accepting.2
        rintro rfl
        cases hacc
    | check e entry hm hentry =>
        dsimp only
        split_ifs <;> simp
    | wait walk e temp entry tid hm hentry htid hexited => exact hpc
    | returned hm => exact hpc
    | _ => simp

theorem MainTrans.signalled (ht : MainTrans c s s') : s'.signalled = s.signalled := by
  cases ht <;> rfl

end Flags

/-- The state of a run in which every signal so far was heard. -/
structure Heeded (s : AesdServer) : Prop where
  sound : Sound s
  bound : s.main ≠ .failed
  stored : s.signalled = true → s.running = false ∧ s.main.startingUp = false
  unsignalled : s.signalled = false → s.starts = 0
  calls : s.starts ≤ 1
  call : s.main = .acceptClient → s.starts = 0

namespace Heeded
variable {c : Config} {s : AesdServer} {act : Act}

theorem init (out : Output) : Heeded (AesdServer.init out) where
  sound := .init out
  bound := by simp [AesdServer.init]
  stored h := by simp [AesdServer.init] at h
  unsignalled _ := rfl
  calls := Nat.zero_le 1
  call _ := rfl

/-- A step of the main thread: the only store of `true` to the flag is the one of start-up, and a call of `accept_client`
behind the handler's store was already decided on. -/
theorem mainStep (h : Heeded s) {s' : AesdServer} (hs : Sound s') (hb : s'.main ≠ .failed) (ht : FlagStep s s') :
    Heeded s' := by
  cases ht with
  | startUp hup hsig hstarts hne =>
      have hun : s.signalled = false := by
        by_contra hcon
        have := (h.stored (by simpa using hcon)).2
        rw [hup] at this
        cases this
      rw [hun] at hsig
      refine ⟨hs, hb, fun hcon => ?_, fun _ => hstarts.trans (h.unsignalled hun), hstarts ▸ h.calls,
        fun hpc => absurd hpc hne⟩
      rw [hsig] at hcon
      cases hcon
  | call hpc hup' hne hsig hrun hstarts =>
      have hzero := h.call hpc
      rw [hzero] at hstarts
      refine ⟨hs, hb, fun hcon => ⟨?_, hup'⟩, fun hcon => ?_, ?_, fun hpc => absurd hpc hne⟩
      · rw [hrun]
        exact (h.stored (hsig ▸ hcon)).1
      · rw [hsig] at hcon
        simpa [hcon] using hstarts
      · rw [hstarts]
        split_ifs <;> omega
  | loop hup hup' hsig hrun hstarts hagain =>
      refine ⟨hs, hb, fun hcon => ⟨?_, hup'⟩, fun hcon => ?_, hstarts ▸ h.calls, fun hpc => ?_⟩
      · rw [hrun]
        exact (h.stored (hsig ▸ hcon)).1
      · exact hstarts.trans (h.unsignalled (hsig ▸ hcon))
      · rw [hstarts]
        apply h.unsignalled
        by_contra hcon
        have := (h.stored (by simpa using hcon)).1
        rw [hagain hpc] at this
        cases this

theorem step (h : Heeded s) (hb : Binds s act) (hh : Heard s act) : Heeded (s.step c act) := by
  have hsound := h.sound.step (c := c) hh.2
  obtain ⟨l, hl, ht⟩ := h.sound.trans (c := c) hh.2
  generalize s.step c act = s' at hsound ht
  cases ht with
  | main ok s' hruns hstep ht h' => exact h.mainStep hsound (not_failed (hb hruns) h.bound hstep) ht.flags
  | held ok hheld => exact h
  | thread lab sys fds ht h' => exact ⟨hsound, h.bound, h.stored, h.unsignalled, h.calls, h.call⟩
  | signal h' =>
      refine ⟨hsound, h.bound, fun _ => ⟨rfl, hh.1⟩, fun hcon => ?_, h.calls, h.call⟩
      cases hcon

end Heeded

/-! ## The way to `srv_shutdown` -/

def entriesFrom (p : Option Nat) (l : List Nat) : List Nat := l.dropWhile fun k => some k ≠ p

/-- The steps of the main thread to the loop test, at most. -/
def MainPc.rank (l : List Nat) : MainPc → Nat
  | .loopTest => 1
  | .acceptClient => 4 * (l.length + 1) + 9
  | .newWorker _ => 4 * (l.length + 1) + 8
  | .newBuf _ => 4 * (l.length + 1) + 7
  | .accept _ => 4 * (l.length + 1) + 6
  | .newEntry _ => 4 * (l.length + 1) + 5
  | .start _ => 4 * (l.length + 1) + 4
  | .insert _ => 4 * (l.length + 1) + 3
  | .remove _ _ temp => 4 * (entriesFrom temp l).length + 5
  | .join _ _ temp => 4 * (entriesFrom temp l).length + 4
  | .delete _ _ temp => 4 * (entriesFrom temp l).length + 3
  | .visit _ p => 4 * (entriesFrom p l).length + 2
  | _ => 0

theorem entriesFrom_head? (kept : List Nat) {rest : List Nat} (h : (kept ++ rest).Nodup) :
    entriesFrom rest.head? (kept ++ rest) = rest := by
  unfold entriesFrom
  cases rest with
  | nil => simp
  | cons e rest =>
      have hkept : ∀ k ∈ kept, decide (some k ≠ (e :: rest).head?) = true := by
        intro k hk
        have hne : k ≠ e := (List.nodup_append.mp h).2.2 k hk e (by simp)
        simpa using hne
      rw [List.dropWhile_append_of_pos hkept, List.dropWhile_cons_of_neg (by simp)]

theorem entriesFrom_next {kept rest : List Nat} {e : Nat} (h : (kept ++ e :: rest).Nodup) :
    entriesFrom rest.head? (kept ++ e :: rest) = rest := by
  have hsplit : kept ++ e :: rest = (kept ++ [e]) ++ rest := by simp
  rw [hsplit] at h ⊢
  exact entriesFrom_head? _ h

section Rank
variable {c : Config} {s s' : AesdServer} {l : List Nat}

theorem one_lt_rank {pc : MainPc} (h : pc.accepting = true) (l : List Nat) : 1 < pc.rank l := by
  cases pc <;> first | (simp only [MainPc.rank]; omega) | cases h

theorem Builds.rank_lt {pc pc' : MainPc} (h : Builds pc pc') (l : List Nat) : pc'.rank l < pc.rank l := by
  cases h <;> simp [MainPc.rank]

/-- **A step of the main thread with the flag down** leads into `srv_shutdown` or brings the loop test closer. -/
theorem rank_drops (h : ServerInv s l) (h' : ServerInv s' (s.main.listAfter l)) (ht : MainTrans c s s')
    (hup : s.main.startingUp = false) (hfail : s.main ≠ .failed) (hrun : s.running = false) :
    s'.main.shuttingDown = true ∨ s'.main.rank (s.main.listAfter l) < s.main.rank l := by
  cases ht with
  | serverInit hpc => simp [hpc, MainPc.startingUp] at hup
  | bound hpc => simp [hpc, MainPc.startingUp] at hup
  | listening hpc => simp [hpc, MainPc.startingUp] at hup
  | failed hpc => rcases hpc with hpc | hpc <;> simp [hpc, MainPc.startingUp] at hup
  | setRunning hpc => simp [hpc, MainPc.startingUp] at hup
  | again hpc hgo => simp [hrun] at hgo
  | call hpc =>
      right
      simp [hpc, MainPc.rank, MainPc.listAfter]
  | leave hpc hrun => exact Or.inl rfl
  | build pc workers bufs fds entries hpc =>
      right
      rw [listAfter_of_accepting hpc.accepting.1]
      exact hpc.rank_lt l
  | refuse workers bufs hpc => exact Or.inr (one_lt_rank hpc.accepting l)
  | start e worker entries threads hpc =>
      right
      simp [hpc, MainPc.rank, MainPc.listAfter]
  | insert e entries head hpc =>
      right
      rw [hpc] at h' ⊢
      have hhead : head = (e :: l).head? := h'.chain.head
      have hleft : entriesFrom (e :: l).head? (e :: l) = e :: l := entriesFrom_head? [] h'.nodup
      simp only [MainPc.rank, MainPc.listAfter, hhead, hleft, List.length_cons]
      omega
  | closeServer hpc => exact Or.inl rfl
  | checked hpc =>
      right
      simp [hpc, MainPc.rank]
  | stopped hpc => exact Or.inl rfl
  | check e entry hpc hentry =>
      right
      obtain ⟨kept, rest, rfl, -, ⟨entry', hentry', -, hnext⟩, -⟩ := h.visited hpc
      rw [hentry] at hentry'
      cases hentry'
      have hall : entriesFrom (some e) (kept ++ e :: rest) = e :: rest := entriesFrom_head? kept h.nodup
      have hrest : entriesFrom rest.head? (kept ++ e :: rest) = rest := entriesFrom_next h.nodup
      rw [hpc, hnext]
      dsimp only [MainPc.listAfter]
      split_ifs <;> simp only [MainPc.rank, hall, hrest, List.length_cons] <;> omega
  | stop e entry hpc hentry => exact Or.inl rfl
  | remove walk e temp head entries hpc =>
      right
      obtain ⟨kept, rest, rfl, rfl, -, -⟩ := h.pcInv hpc
      rw [hpc] at h' ⊢
      have herase := ServerInv.erase_visited h.nodup
      have hnodup : (kept ++ rest).Nodup := herase ▸ h'.nodup
      simp only [MainPc.rank, MainPc.listAfter, herase, entriesFrom_head? kept hnodup, entriesFrom_next h.nodup]
      omega
  | join walk e temp entry tid threads hpc hentry htid hexited =>
      right
      simp [hpc, MainPc.rank, MainPc.listAfter]
  | wait walk e temp entry tid hpc hentry htid hexited =>
      cases walk with
      | shutdown => exact Or.inl (by rw [hpc]; rfl)
      | check =>
          -- check_workers joins a thread that has exited
          obtain ⟨kept, rest, -, -, -, -, -, -, hx⟩ := h.pcInv hpc
          rw [h.joins hpc hentry htid, hx rfl] at hexited
          cases hexited
  | delete walk e temp workers bufs entries hpc =>
      right
      simp [hpc, MainPc.rank, MainPc.listAfter]
  | finish hpc => exact Or.inl rfl
  | returned hpc =>
      rcases hpc with hpc | hpc
      · exact Or.inl (by rw [hpc]; rfl)
      · exact absurd hpc hfail

end Rank

def Act.isMain : Act → Bool
  | .main _ => true
  | _ => false

/-- A step of the code of the main thread. -/
def MainActs (s : AesdServer) (act : Act) : Prop := act.isMain = true ∧ s.MainRuns

instance (s : AesdServer) (act : Act) : Decidable (MainActs s act) :=
  inferInstanceAs (Decidable (act.isMain = true ∧ s.MainRuns))

/-- The state of a run behind a signal that was heard. -/
structure Stopping (s : AesdServer) : Prop where
  heeded : Heeded s
  signalled : s.signalled = true

namespace Stopping
variable {c : Config} {s : AesdServer} {act : Act}

theorem binds (h : Stopping s) : Binds s act := by
  cases act with
  | thread l => trivial
  | signal => trivial
  | main ok =>
      intro _ hpc
      have hup := (h.heeded.stored h.signalled).2
      rcases hpc with hpc | hpc <;> rw [hpc] at hup <;> cases hup

theorem step (h : Stopping s) (hh : Heard s act) : Stopping (s.step c act) := by
  refine ⟨h.heeded.step h.binds hh, ?_⟩
  obtain ⟨l, hl, ht⟩ := h.heeded.sound.trans (c := c) hh.2
  generalize s.step c act = s' at ht
  cases ht with
  | main ok s' hruns hstep ht h' => exact ht.signalled.trans h.signalled
  | held ok hheld => exact h.signalled
  | thread lab sys fds ht h' => exact h.signalled
  | signal h' => rfl

theorem closer (h : Stopping s) (hh : Heard s act) (hmain : MainActs s act) :
    (s.step c act).main.shuttingDown = true ∨ (s.step c act).main.rank (s.step c act).list < s.main.rank s.list := by
  obtain ⟨hrun, hup⟩ := h.heeded.stored h.signalled
  obtain ⟨l, hl, ht⟩ := h.heeded.sound.trans (c := c) hh.2
  generalize s.step c act = s' at ht
  cases ht with
  | main ok s' hruns hstep ht h' =>
      rw [h'.list_eq, hl.list_eq]
      exact rank_drops hl h' ht hup h.heeded.bound hrun
  | held ok hheld => exact absurd hmain.2 hheld
  | thread lab sys fds ht h' => cases hmain.1
  | signal h' => cases hmain.1

theorem same (h : Stopping s) (hh : Heard s act) (hmain : ¬ MainActs s act) :
    (s.step c act).main = s.main ∧ (s.step c act).list = s.list ∧ (s.step c act).calls = s.calls := by
  obtain ⟨l, hl, ht⟩ := h.heeded.sound.trans (c := c) hh.2
  generalize s.step c act = s' at ht
  cases ht with
  | main ok s' hruns hstep ht h' => exact absurd ⟨rfl, hruns⟩ hmain
  | _ => exact ⟨rfl, rfl, rfl⟩

theorem shuttingDown (h : Stopping s) (hh : Heard s act) (hdown : s.main.shuttingDown = true) :
    (s.step c act).main.shuttingDown = true := by
  obtain ⟨l, hl, ht⟩ := h.heeded.sound.trans (c := c) hh.2
  exact shuttingDown_iff.mpr ((shuttingDown_iff.mp hdown).trans ht.stage_le)

end Stopping

/-! ## Runs that go on -/

/-- The main thread waits in `alarm_handler` for `output_lock_`. -/
def Asleep (s : AesdServer) : Prop := ∃ text, s.sys.handlers mainThread = some (.lock text)

section Runs
variable (c : Config) (s : AesdServer) (sched : Nat → Act)

/-- What the server owes to the signal that it handles at step `t`. -/
structure HeedsSignal (t : Nat) : Prop where
  running : ∀ n, t < n → (path (AesdServer.step c) s sched n).running = false
  -- the calls of accept_client since then
  starts : ∀ n, t < n → (path (AesdServer.step c) s sched n).starts ≤ 1
  shutdown : ∃ n, t < n ∧ (path (AesdServer.step c) s sched n).main.shuttingDown = true

end Runs

section Schedule
variable {c : Config} {out : Output} {sched : Nat → Act} {t : Nat}

theorem startingUp_cases {pc : MainPc} (h : pc.startingUp = true) :
    pc = .serverInit ∨ pc = .bind ∨ pc = .listen ∨ pc = .setRunning := by
  unfold MainPc.startingUp at h
  split at h <;> simp_all

/-- Start-up ends with the store of `true`. -/
theorem Sound.startUp {s : AesdServer} {act : Act} (h : Sound s) (hb : Binds s act) (hs : StartsWorker s act)
    (hup : s.main.startingUp = true) (hrun : (s.step c act).running = false) :
    (s.step c act).main.startingUp = true := by
  obtain ⟨l, hl, ht⟩ := h.trans (c := c) hs
  generalize s.step c act = s' at ht hrun
  cases ht with
  | main ok s' hruns hstep ht h' =>
      rcases startingUp_cases hup with hpc | hpc | hpc | hpc
      · rw [AesdServer.mainStep, hpc] at hstep
        cases hstep
        rfl
      · obtain rfl : ok = true := hb hruns (Or.inl hpc)
        rw [AesdServer.mainStep, hpc] at hstep
        cases hstep
        rfl
      · obtain rfl : ok = true := hb hruns (Or.inr hpc)
        rw [AesdServer.mainStep, hpc] at hstep
        cases hstep
        rfl
      · rw [AesdServer.mainStep, hpc] at hstep
        cases hstep
        cases hrun
  | _ => exact hup

end Schedule

/-- The steps of `acts`, and then those of the main thread. -/
def thenMain (acts : List Act) (n : Nat) : Act := acts.getD n (.main true)

def Act.isSignal : Act → Bool
  | .signal => true
  | _ => false

section ThenMain
variable {c : Config} {s : AesdServer} {acts : List Act}

theorem thenMain_of_le {n : Nat} (hn : acts.length ≤ n) : thenMain acts n = .main true := by simp [thenMain, hn]

theorem lt_of_signal {n : Nat} (h : thenMain acts n = .signal) : n < acts.length := by
  by_contra hn
  rw [thenMain_of_le (by omega)] at h
  cases h

theorem AesdServer.MainRuns.not_asleep (h : s.MainRuns) : ¬ Asleep s := by
  rintro ⟨text, htext⟩
  rw [AesdServer.MainRuns, htext] at h
  cases h

/-- A main thread that is asleep stays where it is if no other thread runs. -/
theorem thenMain_asleep (acts : List Act) (h : Asleep (path (AesdServer.step c) s (thenMain acts) acts.length))
    (n : Nat) (hn : acts.length ≤ n) :
    path (AesdServer.step c) s (thenMain acts) n = path (AesdServer.step c) s (thenMain acts) acts.length := by
  induction n, hn using Nat.le_induction with
  | base => rfl
  | succ n hn ih =>
      rw [path, thenMain_of_le hn, ih]
      exact step_held (fun hruns => hruns.not_asleep h) true

end ThenMain

/-- The first client is silent while its worker has the lock, a timestamp is due, and `SIGALRM` is delivered to the main
thread. Then the signal comes. -/
def signalAsleep : List Act :=
  mainSteps 14 ++ threadSteps 1 1 ++ [.thread (.alarm mainThread []), .signal]

/-- The signal is on time, but the main thread sleeps in `alarm_handler` and never goes to `srv_shutdown`. -/
theorem asleep_unheard :
    (∀ t, thenMain signalAsleep t = .signal →
      OnTime (path (AesdServer.step .aesdsocket) (.init (.file [])) (thenMain signalAsleep) t) .signal) ∧
      ¬ ∀ t, thenMain signalAsleep t = .signal →
        HeedsSignal .aesdsocket (.init (.file [])) (thenMain signalAsleep) t := by
  have honly : ∀ n, n < 17 → (thenMain signalAsleep n).isSignal = true →
      (path (AesdServer.step .aesdsocket) (.init (.file [])) (thenMain signalAsleep) n).main.startingUp = false := by
    decide +kernel
  refine ⟨fun t hsig => honly t (lt_of_signal hsig) (by rw [hsig]; rfl), fun hall => ?_⟩
  obtain ⟨n, hn, hdown⟩ := (hall 16 rfl).shutdown
  rw [thenMain_asleep signalAsleep ⟨[], by decide +kernel⟩ n hn] at hdown
  exact absurd hdown (by decide +kernel)

end Aesd.Server
