import Aesd.Server.Progress
import Aesd.Server.Shutdown

/-!
# The server comes to its end

* `MainTrans.sys`, `threadStep_sys` : what a step of the server does to its threads;
* `Arriving` : on its way to `srv_shutdown` the main thread takes its steps, and its handler does so meanwhile;
* `MainPc.shutdownLeft`, `shutdown_drops` : a step of `srv_shutdown` brings it closer to its end, or it waits for a worker;
* `Ending` : a state of `srv_shutdown` in which no thread is stuck for good;
* `graceful_exit` : after a signal every fair run comes to the end of `main`, with everything given back.
-/

namespace Aesd.Server
open Driver Lib

/-! ## The threads of the server -/

section Sys
variable {c : Config} {s s' : AesdServer}

/-- The main thread spawns workers and asks them to stop. -/
theorem MainTrans.sys (ht : MainTrans c s s') :
    s'.sys = s.sys ∨ ((∃ k, s'.sys = s.sys.step c (.spawn k)) ∧ s.main.shuttingDown = false) ∨
      ∃ k, s'.sys = s.sys.step c (.shutdown k) := by
  cases ht with
  | start e worker entries threads hpc => exact Or.inr (Or.inl ⟨⟨worker, rfl⟩, by rw [hpc]; rfl⟩)
  | stop e entry hpc hentry => exact Or.inr (Or.inr ⟨entry.worker, rfl⟩)
  | _ => exact Or.inl rfl

/-- A step of another thread is its step in the system; a worker that has exited takes none. -/
theorem threadStep_sys {i : Nat} {a : Answer} (h : s.threadStep c (.run i a) = .ok s') :
    s'.sys = s.sys.step c (.run i a) := by
  unfold AesdServer.threadStep at h
  dsimp only at h
  split at h
  · next w hh hw =>
      split_ifs at h with hpc
      · cases h
        refine (step_of_not_canGo a fun hgo => ?_).symm
        rw [CanGo, hh] at hgo
        obtain ⟨v, hv, hne, -⟩ := hgo
        rw [hw] at hv
        cases hv
        exact hne hpc
      · obtain ⟨self, -, h⟩ := bind_ok h
        obtain ⟨buf, -, h⟩ := bind_ok h
        split at h
        · obtain ⟨fds, -, h⟩ := bind_ok h
          cases h
          rfl
        · cases h
          rfl
  · cases h
    rfl

/-- What a step of the server is to its threads. -/
inductive SysStep (c : Config) (s : AesdServer) : Act → System → Prop
  | stay (act : Act) (hne : ∀ i a, act ≠ .thread (.run i a)) : SysStep c s act s.sys
  | spawn (ok : Bool) (k : Nat) (hup : s.main.shuttingDown = false) : SysStep c s (.main ok) (s.sys.step c (.spawn k))
  | shutdown (ok : Bool) (k : Nat) : SysStep c s (.main ok) (s.sys.step c (.shutdown k))
  | run (i : Nat) (a : Answer) : SysStep c s (.thread (.run i a)) (s.sys.step c (.run i a))
  | alarm (i : Nat) (text : List Byte) : SysStep c s (.thread (.alarm i text)) (s.sys.step c (.alarm i text))

theorem Sound.sysStep {act : Act} (h : Sound s) (hs : StartsWorker s act) : SysStep c s act (s.step c act).sys := by
  obtain ⟨l, hl, -⟩ := h.trans (c := c) hs
  cases act with
  | signal =>
      rw [AesdServer.step, if_pos h.crash]
      exact .stay .signal (by simp)
  | main ok =>
      by_cases hruns : s.MainRuns
      · obtain ⟨s', hstep, -⟩ := hl.mainStep (c := c) (hs hruns)
        simp only [step_main h.crash hruns, hstep, AesdServer.after]
        rcases (mainStep_trans hstep).sys with hsame | ⟨⟨k, hk⟩, hup⟩ | ⟨k, hk⟩
        · rw [hsame]
          exact .stay (.main ok) (by simp)
        · rw [hk]
          exact .spawn ok k hup
        · rw [hk]
          exact .shutdown ok k
      · rw [step_held hruns]
        exact .stay (.main ok) (by simp)
  | thread lab =>
      rw [AesdServer.step, if_pos h.crash]
      obtain ⟨s', hstep, -⟩ := hl.threadStep (c := c) lab
      simp only [hstep, AesdServer.after]
      cases lab with
      | run i a =>
          rw [threadStep_sys hstep]
          exact .run i a
      | alarm i text =>
          cases hstep
          exact .alarm i text
      | spawn i =>
          cases hstep
          exact .stay (.thread (.spawn i)) (by simp)
      | shutdown i =>
          cases hstep
          exact .stay (.thread (.shutdown i)) (by simp)

end Sys

def Act.Harmless (s : AesdServer) (act : Act) : Prop := ∀ l, act = .thread l → Server.Harmless s.sys l

/-- No `SIGALRM`, and what is received ends a packet or fails. -/
def Calm (c : Config) (s : AesdServer) (act : Act) : Prop :=
  ∀ l, act = .thread l → (∀ i text, l ≠ .alarm i text) ∧ Hears c s.sys l

section Threads
variable {c : Config} {s : AesdServer} {act : Act} {sys : System}

theorem SysStep.live (ht : SysStep c s act sys) (h : Live c s.sys) (hl : act.Harmless s) : Live c sys := by
  cases ht with
  | stay act hne => exact h
  | spawn ok k hup => exact h.trans (l := .spawn k) ⟨trivial, by simp⟩ (step_trans c s.sys _)
  | shutdown ok k => exact h.trans (l := .shutdown k) ⟨trivial, by simp⟩ (step_trans c s.sys _)
  | run i a => exact h.trans (hl _ rfl) (step_trans c s.sys _)
  | alarm i text => exact h.trans (hl _ rfl) (step_trans c s.sys _)

theorem SysStep.grows (ht : SysStep c s act sys) {T : Finset Nat} (h : Support T s.sys) : ∃ T', Support T' sys := by
  cases ht with
  | stay act hne => exact ⟨T, h⟩
  | _ => exact h.grows (step_trans c s.sys _)

end Threads

/-! ## `srv_shutdown` -/

/-- The steps left in `srv_shutdown`, at most. -/
def MainPc.shutdownLeft (l : List Nat) : MainPc → Nat
  | .closeServer => 4 * l.length + 3
  | .visit _ _ => 4 * l.length + 2
  | .remove _ _ _ => 4 * l.length + 1
  | .join _ _ _ => 4 * l.length + 4
  | .delete _ _ _ => 4 * l.length + 3
  | .finish => 1
  | _ => 0

/-- **A step of `srv_shutdown`** brings it closer to its end; or it is at its end, or waits for a worker. -/
theorem shutdown_drops {c : Config} {s s' : AesdServer} {l : List Nat} (h : ServerInv s l) (ht : MainTrans c s s')
    (hdown : s.main.shuttingDown = true) :
    s'.main.shutdownLeft (s.main.listAfter l) < s.main.shutdownLeft l ∨
      (s' = s ∧ (s.main = .done ∨ ∃ e temp, s.main = .join .shutdown e temp ∧ s.exited e = false)) := by
  cases ht with
  | closeServer hpc =>
      left
      simp [hpc, MainPc.shutdownLeft, MainPc.listAfter]
  | stopped hpc =>
      left
      simp [hpc, MainPc.shutdownLeft]
  | stop e entry hpc hentry =>
      left
      simp [hpc, MainPc.shutdownLeft, MainPc.listAfter]
  | remove walk e temp head entries hpc =>
      left
      obtain ⟨kept, rest, rfl, -, -, -⟩ := h.pcInv hpc
      have herase := ServerInv.erase_visited h.nodup
      simp only [hpc, MainPc.shutdownLeft, MainPc.listAfter, herase, List.length_append, List.length_cons]
      omega
  | join walk e temp entry tid threads hpc hentry htid hexited =>
      left
      simp [hpc, MainPc.shutdownLeft, MainPc.listAfter]
  | wait walk e temp entry tid hpc hentry htid hexited =>
      right
      cases walk with
      | check =>
          rw [hpc] at hdown
          cases hdown
      | shutdown =>
          rw [h.joins hpc hentry htid] at hexited
          exact ⟨rfl, Or.inr ⟨e, temp, hpc, hexited⟩⟩
  | delete walk e temp workers bufs entries hpc =>
      left
      simp [hpc, MainPc.shutdownLeft, MainPc.listAfter]
  | finish hpc =>
      left
      simp [hpc, MainPc.shutdownLeft]
  | returned hpc =>
      right
      rcases hpc with hpc | hpc
      · exact ⟨rfl, Or.inl hpc⟩
      · rw [hpc] at hdown
        cases hdown
  | build pc workers bufs fds entries hpc =>
      have hacc := stage_of_accepting hpc.accepting.1
      have hstage := shuttingDown_iff.mp hdown
      omega
  | refuse workers bufs hpc =>
      have hacc := stage_of_accepting hpc.accepting
      have hstage := shuttingDown_iff.mp hdown
      omega
  | failed hpc => rcases hpc with hpc | hpc <;> rw [hpc] at hdown <;> cases hdown
  | _ =>
      simp only [*] at hdown
      cases hdown

/-! ## From the signal to the end -/

/-- A turn of the main thread, or of thread `i`. -/
def Act.of : Option Nat → Act → Prop
  | none, act => act.isMain = true
  | some i, act => ∃ a, act = .thread (.run i a)

namespace Stopping
variable {c : Config} {T : Finset Nat} {s : AesdServer} {act : Act}

theorem thread_left (h : Stopping s) (hlive : Live c s.sys) {i : Nat} {a : Answer}
    (hh : Heard s (.thread (.run i a))) (hl : Act.Harmless s (.thread (.run i a)))
    (hcalm : Calm c s (.thread (.run i a))) (hgo : CanGo s.sys i) (hi : i ∈ T) :
    (s.step c (.thread (.run i a))).sys.left T < s.sys.left T := by
  have ht := h.heeded.sound.sysStep (c := c) hh.2
  generalize (s.step c (.thread (.run i a))).sys = sys at ht
  cases ht with
  | stay act hne => exact absurd rfl (hne i a)
  | run i a => exact (hlive.goes hgo ((hl _ rfl).2 i a rfl).2).left_lt hlive (hcalm _ rfl).2 hi

theorem idle (h : Stopping s) (hh : Heard s act) (hcalm : Calm c s act) (hmain : ¬ MainActs s act)
    (hgo : ∀ i a, act = .thread (.run i a) → ¬ CanGo s.sys i) : (s.step c act).sys = s.sys := by
  have ht := h.heeded.sound.sysStep (c := c) hh.2
  cases act with
  | main ok =>
      rw [step_held fun hruns => hmain ⟨rfl, hruns⟩]
  | signal =>
      generalize (s.step c .signal).sys = sys at ht
      cases ht
      rfl
  | thread lab =>
      generalize (s.step c (.thread lab)).sys = sys at ht
      cases ht with
      | stay act hne => rfl
      | run i a => exact step_of_not_canGo a (hgo i a rfl)
      | alarm i text => exact absurd rfl ((hcalm _ rfl).1 i text)

end Stopping

/-- The threads whose handlers may run, and those that `accept_client` was called for. -/
def AesdServer.ids (T : Finset Nat) (s : AesdServer) : Finset Nat := T ∪ Finset.range s.calls

/-- The steps that the main thread has left to the loop test, and then what the threads have left. -/
def AesdServer.toGo (T : Finset Nat) (s : AesdServer) : Nat ×ₗ (Nat ×ₗ Nat) :=
  toLex (s.main.rank s.list, s.sys.left (s.ids T))

/-- The main thread is on its way to `srv_shutdown`; the threads get their turns along `sched`. -/
structure Arriving (c : Config) (sched : Nat → Act) (T : Finset Nat) (s : AesdServer) : Prop where
  stopping : Stopping s
  live : Live c s.sys
  handled : ∀ i, s.sys.handlers i ≠ none → i ∈ T
  turns : ∀ i, IsThread s.sys i → Turns Act.of (some i) sched

theorem Trans.handled {c : Config} {s s' : System} {l : Label} (ht : Trans c s l s') (hl : ∀ i text, l ≠ .alarm i text)
    {i : Nat} (hi : s'.handlers i ≠ none) : s.handlers i ≠ none := by
  cases ht with
  | alarm j text content hf hh => exact absurd rfl (hl j text)
  | handler j a p p' out lock order hp hexec hlock => exact isThread_update hp _ hi
  | _ => exact hi

namespace Arriving
variable {c : Config} {sched : Nat → Act} {T : Finset Nat} {s : AesdServer} {act : Act}

theorem support (h : Arriving c sched T s) : Support (s.ids T) s.sys := by
  obtain ⟨l, hl⟩ := h.stopping.heeded.sound.inv
  rintro i (hw | hh)
  · exact Finset.mem_union_right _ (Finset.mem_range.mpr (hl.called_of_worker hw).2)
  · exact Finset.mem_union_left _ (h.handled i hh)

theorem step (h : Arriving c sched T s) (hh : Heard s act) (hl : act.Harmless s) (hcalm : Calm c s act)
    (hturns : ∀ i, IsThread (s.step c act).sys i → Turns Act.of (some i) sched) :
    Arriving c sched T (s.step c act) := by
  have ht := h.stopping.heeded.sound.sysStep (c := c) hh.2
  refine ⟨h.stopping.step hh, ht.live h.live hl, fun i hi => h.handled i ?_, hturns⟩
  generalize (s.step c act).sys = sys at ht hi
  cases ht with
  | stay act hne => exact hi
  | spawn ok k hup => exact (step_trans c s.sys (.spawn k)).handled (by simp) hi
  | shutdown ok k => exact (step_trans c s.sys (.shutdown k)).handled (by simp) hi
  | run j a => exact (step_trans c s.sys (.run j a)).handled (by simp) hi
  | alarm j text => exact absurd rfl ((hcalm _ rfl).1 j text)

theorem main_toGo (h : Arriving c sched T s) (hh : Heard s act) (hacts : MainActs s act) :
    (s.step c act).main.shuttingDown = true ∨ (s.step c act).toGo T < s.toGo T := by
  refine (h.stopping.closer hh hacts).imp_right fun hlt => ?_
  rw [AesdServer.toGo, AesdServer.toGo, Prod.Lex.toLex_lt_toLex]
  exact Or.inl hlt

theorem thread_toGo (h : Arriving c sched T s) {i : Nat} {a : Answer} (hh : Heard s (.thread (.run i a)))
    (hl : Act.Harmless s (.thread (.run i a))) (hcalm : Calm c s (.thread (.run i a))) (hgo : CanGo s.sys i) :
    (s.step c (.thread (.run i a))).toGo T < s.toGo T := by
  obtain ⟨hpc, hlist, hcalls⟩ := h.stopping.same (c := c) hh fun hacts => by cases hacts.1
  rw [AesdServer.toGo, AesdServer.toGo, Prod.Lex.toLex_lt_toLex, hpc, hlist, AesdServer.ids, hcalls]
  exact Or.inr ⟨rfl, h.stopping.thread_left h.live hh hl hcalm hgo (h.support i hgo.isThread)⟩

/-- Who brings the main thread closer to `srv_shutdown`: itself, or the threads while a handler runs on top of it. -/
def Helps (s : AesdServer) : Option Nat → Prop
  | none => s.MainRuns
  | some i => CanGo s.sys i

theorem ranking (c : Config) (sched : Nat → Act) (T : Finset Nat) (hmain : Turns Act.of none sched) :
    Ranking (AesdServer.step c)
      (fun s act => Heard s act ∧ act.Harmless s ∧ Calm c s act ∧
        ∀ i, IsThread (s.step c act).sys i → Turns Act.of (some i) sched)
      Act.of (fun who => Turns Act.of who sched) (Arriving c sched T) (fun s => s.main.shuttingDown = true) (· < ·)
      (AesdServer.toGo T) Helps where
  inv s act h hl := h.step hl.1 hl.2.1 hl.2.2.1 hl.2.2.2
  helper s h hg := by
    by_cases hruns : s.MainRuns
    · exact ⟨none, hmain, hruns⟩
    · obtain ⟨i, hi⟩ := h.live.exists_canGo fun hs => hruns (hs.2 mainThread).1
      exact ⟨some i, h.turns i hi.isThread, hi⟩
  turn s act who h hl _ hhelps hact := by
    obtain ⟨hh, hharm, hcalm, -⟩ := hl
    cases who with
    | none => exact h.main_toGo hh ⟨hact, hhelps⟩
    | some i =>
        obtain ⟨a, rfl⟩ := hact
        exact Or.inr (h.thread_toGo hh hharm hcalm hhelps)
  other s act h hl _ := by
    obtain ⟨hh, hharm, hcalm, -⟩ := hl
    by_cases hacts : MainActs s act
    · exact (h.main_toGo hh hacts).imp_right Or.inl
    · by_cases hgo : ∃ i a, act = .thread (.run i a) ∧ CanGo s.sys i
      · obtain ⟨i, a, rfl, hgo⟩ := hgo
        exact Or.inr (Or.inl (h.thread_toGo hh hharm hcalm hgo))
      · obtain ⟨hpc, hlist, hcalls⟩ := h.stopping.same (c := c) hh hacts
        have hsys := h.stopping.idle hh hcalm hacts fun i a heq hcan => hgo ⟨i, a, heq, hcan⟩
        refine Or.inr (Or.inr ⟨?_, fun who hwho => ?_⟩)
        · rw [AesdServer.toGo, AesdServer.toGo, hpc, hlist, hsys, AesdServer.ids, hcalls, AesdServer.ids]
        · cases who <;> simpa only [Helps, AesdServer.MainRuns, hsys] using hwho

end Arriving

/-- The main thread is in `srv_shutdown` or behind it. -/
structure Ending (c : Config) (T : Finset Nat) (s : AesdServer) : Prop where
  stopping : Stopping s
  down : s.main.shuttingDown = true
  live : Live c s.sys
  support : Support T s.sys

def Ended (s : AesdServer) : Prop := s.main = .done ∧ AllServed s.sys

/-- The main thread does not wait; a thread can take its next step. -/
def Moves (s : AesdServer) : Option Nat → Prop
  | none => s.MainRuns ∧ s.main ≠ .done ∧ ∀ e temp, s.main = .join .shutdown e temp → s.exited e = true
  | some i => CanGo s.sys i

/-- What the threads have left, and then the main thread. -/
def AesdServer.left (T : Finset Nat) (s : AesdServer) : (Nat ×ₗ Nat) ×ₗ Nat :=
  toLex (s.sys.left T, s.main.shutdownLeft s.list)

namespace Ending
variable {c : Config} {T : Finset Nat} {s : AesdServer} {act : Act}

theorem sysStep (h : Ending c T s) (hh : Heard s act) : SysStep c s act (s.step c act).sys :=
  h.stopping.heeded.sound.sysStep hh.2

theorem support_step (h : Ending c T s) (hh : Heard s act) (hcalm : Calm c s act) : Support T (s.step c act).sys := by
  have ht := h.sysStep (c := c) hh
  generalize (s.step c act).sys = sys at ht
  cases ht with
  | stay act hne => exact h.support
  | spawn ok k hup =>
      rw [h.down] at hup
      cases hup
  | shutdown ok k => exact h.support.quiet (step_trans c s.sys (.shutdown k)) trivial
  | run i a => exact h.support.quiet (step_trans c s.sys (.run i a)) trivial
  | alarm i text => exact absurd rfl ((hcalm _ rfl).1 i text)

theorem step (h : Ending c T s) (hh : Heard s act) (hl : act.Harmless s) (hcalm : Calm c s act) :
    Ending c T (s.step c act) where
  stopping := h.stopping.step hh
  down := h.stopping.shuttingDown hh h.down
  live := (h.sysStep hh).live h.live hl
  support := h.support_step hh hcalm

theorem exited_of_served (h : Ending c T s) (hs : AllServed s.sys) {e : Nat} {temp : Option Nat}
    (hpc : s.main = .join .shutdown e temp) : s.exited e = true := by
  obtain ⟨l, hl⟩ := h.stopping.heeded.sound.inv
  obtain ⟨kept, rest, -, -, -, -, -, ⟨exited, hold⟩, -⟩ := hl.pcInv hpc
  cases exited with
  | true => exact ServerInv.exited_of_started hold
  | false =>
      obtain ⟨w, hw, hne⟩ := active_of_started hold
      exact absurd ((hs.2 e).2 w hw) hne

/-- Until the end some thread moves. -/
theorem exists_moves (h : Ending c T s) (hend : ¬ Ended s) : ∃ who, (∀ i, who = some i → i ∈ T) ∧ Moves s who := by
  by_cases hs : AllServed s.sys
  · exact ⟨none, by simp, (hs.2 mainThread).1, fun hdone => hend ⟨hdone, hs⟩,
      fun e temp hpc => h.exited_of_served hs hpc⟩
  · obtain ⟨i, hi⟩ := h.live.exists_canGo hs
    refine ⟨some i, fun j hj => ?_, hi⟩
    cases hj
    exact h.support i hi.isThread

theorem main_left (h : Ending c T s) (hh : Heard s act) (hacts : MainActs s act) :
    (s.step c act).left T < s.left T ∨ (s.step c act = s ∧ ¬ Moves s none) := by
  have hsys := h.sysStep (c := c) hh
  obtain ⟨l, hl, ht⟩ := h.stopping.heeded.sound.trans (c := c) hh.2
  generalize s.step c act = s' at ht hsys
  cases ht with
  | held ok hheld => exact absurd hacts.2 hheld
  | thread lab sys fds ht h' => cases hacts.1
  | signal h' => cases hacts.1
  | main ok s' hruns hstep ht h' =>
      rcases shutdown_drops hl ht h.down with hlt | ⟨hsame, hstays⟩
      · left
        have hleft : s'.sys.left T = s.sys.left T := by
          generalize hsys' : s'.sys = sys at hsys
          cases hsys with
          | stay act hne => rfl
          | spawn ok k hup =>
              rw [h.down] at hup
              cases hup
          | shutdown ok k => exact (shutdown_left k).1
        rw [AesdServer.left, AesdServer.left, Prod.Lex.toLex_lt_toLex]
        refine Or.inr ⟨hleft, ?_⟩
        rw [h'.list_eq, hl.list_eq]
        exact hlt
      · refine Or.inr ⟨hsame, fun hmoves => ?_⟩
        rcases hstays with hdone | ⟨e, temp, hpc, hx⟩
        · exact hmoves.2.1 hdone
        · rw [hmoves.2.2 e temp hpc] at hx
          cases hx

theorem thread_left (h : Ending c T s) {i : Nat} {a : Answer} (hh : Heard s (.thread (.run i a)))
    (hl : Act.Harmless s (.thread (.run i a))) (hcalm : Calm c s (.thread (.run i a))) (hgo : CanGo s.sys i) :
    (s.step c (.thread (.run i a))).left T < s.left T := by
  rw [AesdServer.left, AesdServer.left, Prod.Lex.toLex_lt_toLex]
  exact Or.inl (h.stopping.thread_left h.live hh hl hcalm hgo (h.support i hgo.isThread))

theorem other_same (h : Ending c T s) (hh : Heard s act) (hcalm : Calm c s act) (hmain : ¬ MainActs s act)
    (hgo : ∀ i a, act = .thread (.run i a) → ¬ CanGo s.sys i) :
    (s.step c act).left T = s.left T ∧ (∀ who, Moves s who → Moves (s.step c act) who) ∧
      (Ended s → Ended (s.step c act)) := by
  obtain ⟨hpc, hlist, -⟩ := h.stopping.same (c := c) hh hmain
  have hsys := h.stopping.idle hh hcalm hmain hgo
  refine ⟨by rw [AesdServer.left, AesdServer.left, hsys, hpc, hlist], fun who hwho => ?_, fun hend => ?_⟩
  · cases who with
    | none =>
        rw [Moves, AesdServer.MainRuns, hpc, hsys]
        exact ⟨hwho.1, hwho.2.1, fun e temp he => by rw [AesdServer.exited, hsys]; exact hwho.2.2 e temp he⟩
    | some i =>
        rw [Moves, hsys]
        exact hwho
  · rw [Ended, hpc, hsys]
    exact hend

theorem ended_step (h : Ending c T s) (hend : Ended s) (hh : Heard s act) (hcalm : Calm c s act) :
    Ended (s.step c act) := by
  by_cases hacts : MainActs s act
  · cases act with
    | thread lab => cases hacts.1
    | signal => cases hacts.1
    | main ok =>
        have hlast : s.mainStep c ok = .ok s := by rw [AesdServer.mainStep, hend.1]
        have hsame : s.step c (.main ok) = s := by
          rw [step_main h.stopping.heeded.sound.crash hacts.2, hlast]
          rfl
        rw [hsame]
        exact hend
  · exact (h.other_same hh hcalm hacts fun i a _ => hend.2.not_canGo i).2.2 hend

theorem ranking (c : Config) (T : Finset Nat) :
    Ranking (AesdServer.step c) (fun s act => Heard s act ∧ act.Harmless s ∧ Calm c s act) Act.of
      (fun who => ∀ i, who = some i → i ∈ T) (Ending c T) Ended (· < ·) (AesdServer.left T) Moves where
  inv s act h hl := h.step hl.1 hl.2.1 hl.2.2
  helper s h hend := h.exists_moves hend
  turn s act who h hl _ hmoves hact := by
    obtain ⟨hh, hharm, hcalm⟩ := hl
    cases who with
    | none => exact Or.inr ((h.main_left hh ⟨hact, hmoves.1⟩).resolve_right fun hstays => hstays.2 hmoves)
    | some i =>
        obtain ⟨a, rfl⟩ := hact
        exact Or.inr (h.thread_left hh hharm hcalm hmoves)
  other s act h hl _ := by
    obtain ⟨hh, hharm, hcalm⟩ := hl
    by_cases hacts : MainActs s act
    · rcases h.main_left hh hacts with hlt | ⟨hsame, -⟩
      · exact Or.inr (Or.inl hlt)
      · rw [hsame]
        exact Or.inr (Or.inr ⟨rfl, fun _ hwho => hwho⟩)
    · by_cases hgo : ∃ i a, act = .thread (.run i a) ∧ CanGo s.sys i
      · obtain ⟨i, a, rfl, hgo⟩ := hgo
        exact Or.inr (Or.inl (h.thread_left hh hharm hcalm hgo))
      · obtain ⟨hleft, hkeep, -⟩ := h.other_same hh hcalm hacts fun i a heq hcan => hgo ⟨i, a, heq, hcan⟩
        exact Or.inr (Or.inr ⟨hleft, hkeep⟩)

end Ending

/-! ## Runs -/

/-- The state of a run in which no thread is stuck. -/
structure Serving (c : Config) (s : AesdServer) : Prop where
  heeded : Heeded s
  live : Live c s.sys
  support : ∃ T, Support T s.sys

theorem Serving.step {c : Config} {s : AesdServer} {act : Act} (h : Serving c s)
    (hl : Binds s act ∧ Heard s act ∧ act.Harmless s) : Serving c (s.step c act) := by
  obtain ⟨hb, hh, hharm⟩ := hl
  have ht := h.heeded.sound.sysStep (c := c) hh.2
  obtain ⟨T, hT⟩ := h.support
  exact ⟨h.heeded.step hb hh, ht.live h.live hharm, ht.grows hT⟩

theorem Arriving.arrives {c : Config} {T : Finset Nat} {s : AesdServer} {sched : Nat → Act} {start : Nat}
    (h : Arriving c sched T s) (hmain : Turns Act.of none sched)
    (ha : Allowed (AesdServer.step c)
      (fun s act => Heard s act ∧ act.Harmless s ∧ Calm c s act ∧
        ∀ i, IsThread (s.step c act).sys i → Turns Act.of (some i) sched) s (later sched start)) :
    ∃ n, ∀ k, n ≤ k → Arriving c sched T (path (AesdServer.step c) s (later sched start) k) ∧
      (path (AesdServer.step c) s (later sched start) k).main.shuttingDown = true :=
  (Arriving.ranking c sched T hmain).settles wellFounded_lt (fun _ _ h hl hdown => h.stopping.shuttingDown hl.1 hdown) h ha
    fun _ hwho => hwho.later start

theorem Ending.ends {c : Config} {T : Finset Nat} {s : AesdServer} (h : Ending c T s) {sched : Nat → Act}
    (ha : Allowed (AesdServer.step c) (fun s act => Heard s act ∧ act.Harmless s ∧ Calm c s act) s sched)
    (hmain : Turns Act.of none sched) (hfair : ∀ i, i ∈ T → Turns Act.of (some i) sched) :
    ∃ n, ∀ k, n ≤ k → Ending c T (path (AesdServer.step c) s sched k) ∧ Ended (path (AesdServer.step c) s sched k) := by
  refine (Ending.ranking c T).settles wellFounded_lt (fun _ _ h hl hend => h.ended_step hend hl.1 hl.2.2) h ha ?_
  intro who hwho
  cases who with
  | none => exact hmain
  | some i => exact hfair i (hwho i rfl)

/-- **After a signal the server comes to its end.** In a run in which `bind`, `listen`, the allocation of list entries and
`pthread_create` succeed, no signal comes during start-up, the device can copy the bytes of every `write`, no `SIGALRM` hits
the holder of the lock and no `send` fails, let the main thread and every other thread be given a turn again and again, so
that `accept` returns, too. If a signal is handled, and from some step on no `SIGALRM` comes and every `recv` brings the end
of a packet or fails, then from some step on `main` has ended, every worker has exited, the lock is free, and every
connection, thread, worker, buffer and list entry was given back. -/
theorem graceful_exit {c : Config} {out : Output} (hout : out.Healthy c.K) {sched : Nat → Act}
    (ha : Allowed (AesdServer.step c) (fun s act => Binds s act ∧ Heard s act ∧ act.Harmless s) (.init out) sched)
    (hsignal : ∃ n, sched n = .signal) (hmain : Turns Act.of none sched)
    (hfair : ∀ n i, IsThread (path (AesdServer.step c) (.init out) sched n).sys i → Turns Act.of (some i) sched)
    (hends : ∃ m, ∀ n, m ≤ n → Calm c (path (AesdServer.step c) (.init out) sched n) (sched n)) :
    ∃ n, ∀ k, n ≤ k → (path (AesdServer.step c) (.init out) sched k).main = .done ∧
      AllServed (path (AesdServer.step c) (.init out) sched k).sys ∧
      LifeCycle (path (AesdServer.step c) (.init out) sched k) ∧
      ∀ id, ((path (AesdServer.step c) (.init out) sched k).holding id).Settled := by
  classical
  have hserving : ∀ n, Serving c (path (AesdServer.step c) (.init out) sched n) :=
    ha.invariant (fun _ _ h hl => h.step hl) ⟨.init out, .init hout, ∅, support_init out⟩
  obtain ⟨n0, hn0⟩ := hsignal
  obtain ⟨m, hm⟩ := hends
  have hstop : Stopping (path (AesdServer.step c) (.init out) sched (n0 + 1)) := by
    refine ⟨(hserving (n0 + 1)).heeded, ?_⟩
    rw [path, hn0, AesdServer.step, if_pos (hserving n0).heeded.sound.crash]
  -- the signal was handled, and the clients end their packets from here on
  obtain ⟨calm, hcalm, hmcalm⟩ : ∃ calm, n0 + 1 ≤ calm ∧ m ≤ calm := ⟨n0 + 1 + m, by omega, by omega⟩
  have hstopping : Stopping (path (AesdServer.step c) (.init out) sched calm) := by
    have h := Allowed.invariant (P := Heard) (fun _ _ h hh => h.step hh) hstop
      (fun n => (ha.later (n0 + 1) n).2.1) (calm - (n0 + 1))
    rwa [path_later, Nat.add_sub_cancel' hcalm] at h
  obtain ⟨T, hT⟩ := (hserving calm).support
  have harriving : Arriving c sched T (path (AesdServer.step c) (.init out) sched calm) :=
    ⟨hstopping, (hserving calm).live, fun i hi => hT i (Or.inr hi), hfair calm⟩
  obtain ⟨n1, hn1⟩ := eventually_of_later (Q := fun s => Arriving c sched T s ∧ s.main.shuttingDown = true)
    (harriving.arrives hmain fun n => by
      have hstep := ha.later calm n
      rw [path_later] at hstep ⊢
      exact ⟨hstep.2.1, hstep.2.2, hm (calm + n) (by omega), hfair (calm + n + 1)⟩)
  -- the main thread is in srv_shutdown from here on
  obtain ⟨start, hn1start, hmstart⟩ : ∃ start, n1 ≤ start ∧ m ≤ start := ⟨n1 + m, by omega, by omega⟩
  obtain ⟨harrived, hdown⟩ := hn1 start hn1start
  have hending : Ending c (((path (AesdServer.step c) (.init out) sched start).ids T).filter
      (IsThread (path (AesdServer.step c) (.init out) sched start).sys))
      (path (AesdServer.step c) (.init out) sched start) :=
    ⟨harrived.stopping, hdown, harrived.live, fun i hi => Finset.mem_filter.mpr ⟨harrived.support i hi, hi⟩⟩
  have hlater : Allowed (AesdServer.step c) (fun s act => Heard s act ∧ act.Harmless s ∧ Calm c s act)
      (path (AesdServer.step c) (.init out) sched start) (later sched start) := by
    intro n
    have hstep := ha.later start n
    rw [path_later] at hstep ⊢
    exact ⟨hstep.2.1, hstep.2.2, hm (start + n) (by omega)⟩
  obtain ⟨n, hn⟩ := eventually_of_later (Q := fun s => Ending c _ s ∧ Ended s) (hending.ends hlater
    (hmain.later start) fun i hi => (hfair start i (Finset.mem_filter.mp hi).2).later start)
  refine ⟨n, fun k hk => ?_⟩
  obtain ⟨hend, hdone, hserved⟩ := hn k hk
  have hlife := hend.stopping.heeded.sound.lifeCycle
  exact ⟨hdone, hserved, hlife, hlife.settled hdone⟩

/-- A client is accepted and a signal comes, then the main thread and the other threads run in turn. -/
def signalInTurn (n : Nat) : Act :=
  if n < 14 then .main true
  else if n = 14 then .signal
  else if n % 2 = 0 then .main true
  else .thread (.run (Nat.unpair (n / 2)).1 (letterAnswer 97))

theorem turns_signalInTurn (who : Option Nat) : Turns Act.of who signalInTurn := by
  intro n
  cases who with
  | none =>
      refine ⟨2 * n + 16, by omega, ?_⟩
      have hbig : ¬ 2 * n + 16 < 14 ∧ ¬ 2 * n + 16 = 14 ∧ (2 * n + 16) % 2 = 0 := by omega
      rw [signalInTurn, if_neg hbig.1, if_neg hbig.2.1, if_pos hbig.2.2]
      rfl
  | some i =>
      have hle := Nat.right_le_pair i (n + 7)
      refine ⟨2 * Nat.pair i (n + 7) + 1, by omega, letterAnswer 97, ?_⟩
      have hbig : ¬ 2 * Nat.pair i (n + 7) + 1 < 14 ∧ ¬ 2 * Nat.pair i (n + 7) + 1 = 14 ∧
          ¬ (2 * Nat.pair i (n + 7) + 1) % 2 = 0 ∧ (2 * Nat.pair i (n + 7) + 1) / 2 = Nat.pair i (n + 7) := by omega
      rw [signalInTurn, if_neg hbig.1, if_neg hbig.2.1, if_neg hbig.2.2.1, hbig.2.2.2, Nat.unpair_pair]

theorem signalInTurn_cases (n : Nat) :
    signalInTurn n = .main true ∨ (n = 14 ∧ signalInTurn n = .signal) ∨
      ∃ i, signalInTurn n = .thread (.run i (letterAnswer 97)) := by
  unfold signalInTurn
  split_ifs with h1 h2 h3
  · exact Or.inl rfl
  · exact Or.inr (Or.inl ⟨h2, rfl⟩)
  · exact Or.inl rfl
  · exact Or.inr (Or.inr ⟨_, rfl⟩)

theorem path_signalInTurn :
    (path (AesdServer.step .aesdsocket) (.init (.file [])) signalInTurn 14).main.startingUp = false := by
  decide +kernel

theorem graceful_exit_inTurn : ∃ n, ∀ k, n ≤ k →
    (path (AesdServer.step .aesdsocket) (.init (.file [])) signalInTurn k).main = .done ∧
      AllServed (path (AesdServer.step .aesdsocket) (.init (.file [])) signalInTurn k).sys ∧
      LifeCycle (path (AesdServer.step .aesdsocket) (.init (.file [])) signalInTurn k) ∧
      ∀ id, ((path (AesdServer.step .aesdsocket) (.init (.file [])) signalInTurn k).holding id).Settled := by
  have hout : (Output.file []).Healthy Config.aesdsocket.K := trivial
  refine graceful_exit hout (fun n => ?_) ⟨14, rfl⟩ (turns_signalInTurn none) (fun _ i _ => turns_signalInTurn (some i))
    ⟨0, fun n _ => ?_⟩
  · rcases signalInTurn_cases n with h | ⟨rfl, h⟩ | ⟨i, h⟩
    · rw [h]
      exact ⟨fun _ _ => rfl, ⟨trivial, fun _ _ => rfl⟩, by rintro l ⟨⟩⟩
    · rw [h]
      exact ⟨trivial, ⟨path_signalInTurn, trivial⟩, by rintro l ⟨⟩⟩
    · rw [h]
      refine ⟨trivial, ⟨trivial, trivial⟩, ?_⟩
      rintro l ⟨⟩
      refine ⟨trivial, ?_⟩
      rintro i a ⟨⟩
      exact ⟨by simp [letterAnswer], fun dev _ => rfl⟩
  · rcases signalInTurn_cases n with h | ⟨-, h⟩ | ⟨i, h⟩ <;> rw [h]
    · rintro l ⟨⟩
    · rintro l ⟨⟩
    · rintro l ⟨⟩
      refine ⟨by simp, ?_⟩
      rintro i a w ⟨⟩ - - - bytes ⟨⟩
      rfl

end Aesd.Server
