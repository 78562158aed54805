import Aesd.Server.Signals

/-!
# `srv_shutdown`

`srv_shutdown` asks one worker to stop, joins it, and only then goes on to the next one in the list.

* `AsksAll` : no worker that was not asked to stop is still running while the main thread waits in `pthread_join`;
* `Unasked` : before the loop over the list no worker has its flag set;
* `Alone` : with at most one worker left that has not exited, `AsksAll` holds in every state of `srv_shutdown`;
* `two_left_block` : with two of them the main thread can come to wait for one while the other was not asked;
* `shutdown_asks_all_iff` : so this is when shutdown asks every worker before it waits for one.
-/

namespace Aesd.Server
open Driver Lib

def AesdServer.Active (s : AesdServer) (k : Nat) : Prop := ∃ w, s.sys.workers k = some w ∧ w.pc ≠ .exited

/-- While the main thread waits for a worker in `srv_shutdown`, every worker that has not exited was asked to; so the
worker it waits for does not wait for the lock of one that was not. -/
structure AsksAll (s : AesdServer) : Prop where
  asked : ∀ e temp, s.main = .join .shutdown e temp → s.exited e = false →
    ∀ k w, s.sys.workers k = some w → w.pc ≠ .exited → w.shutdown = true
  no_wait : ∀ e temp w j v, s.main = .join .shutdown e temp → s.sys.workers e = some w →
    w.pc = .recvLock ∨ w.pc = .sendLock → s.sys.lock = some (.code j) → s.sys.workers j = some v → v.shutdown = true

/-! ## The flags -/

section Flags
variable {c : Config} {s s' : System} {lab : Label}

theorem Trans.before (ht : Trans c s lab s') {k : Nat} {v : Worker} (hv : s'.workers k = some v) :
    (lab = .spawn k ∧ v = {}) ∨
      ∃ w, s.workers k = some w ∧ (v.pc ≠ .exited → w.pc ≠ .exited) ∧
        (v.shutdown = w.shutdown ∨ (lab = .shutdown k ∧ v.shutdown = true)) := by
  cases ht with
  | stay => exact Or.inr ⟨v, hv, fun h => h, Or.inl rfl⟩
  | alarm i text content hf hh => exact Or.inr ⟨v, hv, fun h => h, Or.inl rfl⟩
  | handler i a p p' out lock order hp hexec hlock => exact Or.inr ⟨v, hv, fun h => h, Or.inl rfl⟩
  | spawn i hw =>
      dsimp only at hv
      by_cases hk : k = i
      · subst hk
        rw [Function.update_self] at hv
        cases hv
        exact Or.inl ⟨rfl, rfl⟩
      · rw [Function.update_of_ne hk] at hv
        exact Or.inr ⟨v, hv, fun h => h, Or.inl rfl⟩
  | shutdown i w hw =>
      dsimp only at hv
      by_cases hk : k = i
      · subst hk
        rw [Function.update_self] at hv
        cases hv
        exact Or.inr ⟨w, hw, fun h => h, Or.inr ⟨rfl, rfl⟩⟩
      · rw [Function.update_of_ne hk] at hv
        exact Or.inr ⟨v, hv, fun h => h, Or.inl rfl⟩
  | code i a w w' out lock order hh hw hexec hlock =>
      dsimp only at hv
      by_cases hk : k = i
      · subst hk
        rw [Function.update_self] at hv
        cases hv
        obtain ⟨hnext, hflag⟩ := Worker.exec_next hexec
        exact Or.inr ⟨w, hw, fun hx hpc => hx (hnext.stays_exited hpc), Or.inl hflag⟩
      · rw [Function.update_of_ne hk] at hv
        exact Or.inr ⟨v, hv, fun h => h, Or.inl rfl⟩

theorem shutdown_flag {k : Nat} {v : Worker} (hv : (s.step c (.shutdown k)).workers k = some v) : v.shutdown = true := by
  cases hw : s.workers k with
  | none => simp [System.step, hw] at hv
  | some w =>
      simp only [System.step, hw, Function.update_self] at hv
      cases hv
      rfl

theorem active_of_started {s : AesdServer} {k : Nat} (hold : s.holding k = .started k false) : s.Active k := by
  have hx : (s.sys.workers k).map (fun w => decide (w.pc = .exited)) = some false := congrArg Holding.exited hold
  obtain ⟨w, hw, hpc⟩ := Option.map_eq_some_iff.mp hx
  exact ⟨w, hw, by simpa using hpc⟩

end Flags

/-- What a step of the server does to the system: workers are spawned in `accept_client`, and asked to stop in the loop
of `srv_shutdown`. -/
theorem ServerStep.sys {c : Config} {s s' : AesdServer} {l : List Nat} {act : Act} (hl : ServerInv s l)
    (ht : ServerStep c s l act s') :
    ∃ lab, Trans c s.sys lab s'.sys ∧ (∀ i, lab = .spawn i → s.main.stage = 1) ∧
      ∀ i, lab = .shutdown i → s.main = .visit .shutdown (some i) := by
  have hquiet : ∀ {sys : System} {lab : Label}, Trans c s.sys lab sys → (∀ i, lab ≠ .spawn i) → (∀ i, lab ≠ .shutdown i) →
      sys = s'.sys → ∃ lab, Trans c s.sys lab s'.sys ∧ (∀ i, lab = .spawn i → s.main.stage = 1) ∧
        ∀ i, lab = .shutdown i → s.main = .visit .shutdown (some i) := by
    rintro sys lab ht hspawn hshutdown rfl
    exact ⟨lab, ht, fun i h => absurd h (hspawn i), fun i h => absurd h (hshutdown i)⟩
  cases ht with
  | signal h' => exact hquiet (.stay (.alarm 0 [])) (by simp) (by simp) rfl
  | thread lab sys fds ht h' =>
      cases ht with
      | stay => exact hquiet (.stay (.alarm 0 [])) (by simp) (by simp) rfl
      | alarm i text => exact hquiet (step_trans c s.sys (.alarm i text)) (by simp) (by simp) rfl
      | run i a => exact hquiet (step_trans c s.sys (.run i a)) (by simp) (by simp) rfl
  | held ok hheld => exact hquiet (.stay (.alarm 0 [])) (by simp) (by simp) rfl
  | main ok s' hruns hstep ht h' =>
      cases ht with
      | start e worker entries threads hpc =>
          exact ⟨_, step_trans c s.sys (.spawn worker), fun _ _ => by rw [hpc]; rfl, by simp⟩
      | stop e entry hpc hentry =>
          obtain ⟨kept, rest, -, -, ⟨entry', hentry', hworker, -⟩, -⟩ := hl.visited hpc
          rw [hentry] at hentry'
          cases hentry'
          refine ⟨_, step_trans c s.sys (.shutdown entry.worker), by simp, fun i h => ?_⟩
          cases h
          rw [hpc, hworker]
      | _ => exact hquiet (.stay (.alarm 0 [])) (by simp) (by simp) rfl

/-- Before `srv_shutdown` loops over the list no worker was asked to stop. -/
structure Unasked (s : AesdServer) : Prop where
  sound : Sound s
  sys : SysInv s.sys
  flags : s.main.stage ≤ 2 → ∀ k w, s.sys.workers k = some w → w.shutdown = false

namespace Unasked
variable {c : Config} {s : AesdServer} {act : Act}

theorem init (out : Output) : Unasked (AesdServer.init out) where
  sound := .init out
  sys := .init out
  flags _ k w hw := by simp [AesdServer.init] at hw

theorem step (h : Unasked s) (hs : StartsWorker s act) : Unasked (s.step c act) := by
  have hsound := h.sound.step (c := c) hs
  obtain ⟨l, hl, ht⟩ := h.sound.trans (c := c) hs
  generalize s.step c act = s' at hsound ht
  obtain ⟨lab, hsys, -, hshutdown⟩ := ht.sys hl
  refine ⟨hsound, h.sys.trans hsys, fun hstage k v hv => ?_⟩
  have hstage := ht.stage_le.trans hstage
  rcases hsys.before hv with ⟨-, rfl⟩ | ⟨w, hw, -, hsame | ⟨hlab, -⟩⟩
  · rfl
  · rw [hsame]
    exact h.flags hstage k w hw
  · rw [hshutdown k hlab] at hstage
    simp [MainPc.stage] at hstage

end Unasked

/-! ## One worker left -/

/-- A state of `srv_shutdown` with at most one worker that has not exited. -/
structure Alone (s : AesdServer) : Prop where
  sound : Sound s
  sys : SysInv s.sys
  stage : 2 ≤ s.main.stage
  alone : ∀ i j, s.Active i → s.Active j → i = j
  asked : ∀ e temp, s.main = .remove .shutdown e temp ∨ s.main = .join .shutdown e temp →
    ∀ w, s.sys.workers e = some w → w.shutdown = true

namespace Alone
variable {c : Config} {s : AesdServer} {act : Act}

theorem startsWorker (h : Alone s) : StartsWorker s act := by
  cases act with
  | thread lab => trivial
  | signal => trivial
  | main ok =>
      intro _ hpc
      have hstage := h.stage
      rcases startsWorker_cases hpc with ⟨k, hpc⟩ | ⟨entry, hpc⟩ <;> rw [hpc] at hstage <;> simp [MainPc.stage] at hstage

/-- The flag of a worker is set before its entry is removed. -/
theorem asked_main (h : Alone s) {s' : AesdServer} {l : List Nat} (hl : ServerInv s l) (ht : MainTrans c s s') {e : Nat}
    {temp : Option Nat} (hpc' : s'.main = .remove .shutdown e temp ∨ s'.main = .join .shutdown e temp) {v : Worker}
    (hv : s'.sys.workers e = some v) : v.shutdown = true := by
  cases ht with
  | stop x entry hpc hentry =>
      obtain ⟨kept, rest, -, -, ⟨entry', hentry', hworker, -⟩, -⟩ := hl.visited hpc
      rw [hentry] at hentry'
      cases hentry'
      obtain rfl : x = e := by rcases hpc' with hm | hm <;> cases hm; rfl
      dsimp only at hv
      rw [hworker] at hv
      exact shutdown_flag hv
  | remove walk x temp' head entries hpc =>
      have hpc : s.main = .remove .shutdown e temp := by
        rcases hpc' with hm | hm <;> cases hm
        exact hpc
      exact h.asked e temp (Or.inl hpc) v hv
  | build pc workers bufs fds entries hb =>
      have hacc := hb.accepting.2
      rcases hpc' with rfl | rfl <;> cases hacc
  | check x entry hpc hentry =>
      dsimp only at hpc'
      split_ifs at hpc' <;> simp at hpc'
  | wait walk x temp' entry tid hpc hentry htid hexited => exact h.asked e temp hpc' v hv
  | returned hpc => exact h.asked e temp hpc' v hv
  | _ => simp at hpc'

theorem step (h : Alone s) : Alone (s.step c act) := by
  have hsound : Sound (s.step c act) := h.sound.step h.startsWorker
  obtain ⟨l, hl, ht⟩ : ∃ l, ServerInv s l ∧ ServerStep c s l act (s.step c act) := h.sound.trans h.startsWorker
  generalize s.step c act = s' at hsound ht
  obtain ⟨lab, hsys, hspawn, -⟩ := ht.sys hl
  have hold : ∀ {k : Nat} {v : Worker}, s'.sys.workers k = some v →
      ∃ w, s.sys.workers k = some w ∧ (v.pc ≠ .exited → w.pc ≠ .exited) ∧ (w.shutdown = true → v.shutdown = true) := by
    intro k v hv
    rcases hsys.before hv with ⟨hlab, -⟩ | ⟨w, hw, hx, hflag⟩
    · have hstage := h.stage
      rw [hspawn k hlab] at hstage
      omega
    · refine ⟨w, hw, hx, fun hset => ?_⟩
      rcases hflag with hsame | ⟨-, hset'⟩
      · exact hsame.trans hset
      · exact hset'
  have hactive : ∀ {k : Nat}, s'.Active k → s.Active k := by
    rintro k ⟨v, hv, hx⟩
    obtain ⟨w, hw, hx', -⟩ := hold hv
    exact ⟨w, hw, hx' hx⟩
  refine ⟨hsound, h.sys.trans hsys, h.stage.trans ht.stage_le, fun i j hi hj => h.alone i j (hactive hi) (hactive hj), ?_⟩
  intro e temp hpc v hv
  obtain ⟨w, hw, -, hflag⟩ := hold hv
  cases ht with
  | main ok s' hruns hstep ht h' => exact h.asked_main hl ht hpc hv
  | held ok hheld => exact hflag (h.asked e temp hpc w hw)
  | thread lab sys fds ht h' => exact hflag (h.asked e temp hpc w hw)
  | signal h' => exact hflag (h.asked e temp hpc w hw)

/-- The main thread waits for the one worker that is left, which was asked to stop. -/
theorem asksAll (h : Alone s) : AsksAll s where
  asked e temp hpc hx k w hw hne := by
    obtain ⟨l, hl⟩ := h.sound.inv
    obtain ⟨kept, rest, -, -, -, -, -, ⟨exited, hold⟩, -⟩ := hl.pcInv hpc
    have hactive : s.Active e := by
      rw [ServerInv.exited_of_started hold] at hx
      subst hx
      exact active_of_started hold
    obtain rfl : k = e := h.alone k e ⟨w, hw, hne⟩ hactive
    exact h.asked k temp (Or.inr hpc) w hw
  no_wait e temp w j v hpc hw hwait hlock hv := by
    have hactive : s.Active e := ⟨w, hw, by rcases hwait with hp | hp <;> simp [hp]⟩
    obtain ⟨v', hv', hholds⟩ := (h.sys.code j).mp hlock
    rw [hv] at hv'
    cases hv'
    have hne : v.pc ≠ .exited := by
      intro hx
      rw [hx] at hholds
      cases hholds
    obtain rfl : j = e := h.alone j e ⟨v, hv, hne⟩ hactive
    exact h.asked j temp (Or.inr hpc) v hv

end Alone

/-! ## Two workers left -/

section Walk
variable {c : Config} {s s' : AesdServer} {e : Nat} {temp : Option Nat} {rest : List Nat}

theorem MainTrans.close_server (ht : MainTrans c s s') (hpc : s.main = .closeServer) :
    s'.main = .visit .shutdown s.head ∧ s'.sys = s.sys := by
  cases ht with
  | build pc workers bufs fds entries hb =>
      rw [hpc] at hb
      cases hb
  | refuse workers bufs hg =>
      rw [hpc] at hg
      cases hg
  | _ => simp_all

theorem MainTrans.visit_shutdown (ht : MainTrans c s s') (hpc : s.main = .visit .shutdown (some e)) :
    ∃ entry, s.entries.cell e = .live entry ∧ s'.main = .remove .shutdown e entry.next ∧
      s'.sys = s.sys.step c (.shutdown entry.worker) := by
  cases ht with
  | stop x entry hpc' hentry =>
      rw [hpc] at hpc'
      cases hpc'
      exact ⟨entry, hentry, rfl, rfl⟩
  | build pc workers bufs fds entries hb =>
      rw [hpc] at hb
      cases hb
  | refuse workers bufs hg =>
      rw [hpc] at hg
      cases hg
  | _ => simp_all

theorem exited_of_shutdown (hsys : s'.sys = s.sys.step c (.shutdown e)) (k : Nat) : s'.exited k = s.exited k := by
  rw [ServerInv.exited_eq, ServerInv.exited_eq]
  simp only [AesdServer.holding, hsys, ServerInv.shutdown_exited]

theorem workers_of_shutdown (hsys : s'.sys = s.sys.step c (.shutdown e)) {k : Nat} (hk : k ≠ e) :
    s'.sys.workers k = s.sys.workers k := by
  rw [hsys]
  cases hw : s.sys.workers e with
  | none => simp only [System.step, hw]
  | some w => simp only [System.step, hw, Function.update_of_ne hk]

theorem main_step {l : List Nat} (hl : ServerInv s l) (hcrash : s.crash = none) (hruns : s.MainRuns) :
    MainTrans c s (s.step c (.main true)) ∧ ServerInv (s.step c (.main true)) (s.main.listAfter l) ∧
      (s.step c (.main true)).crash = none ∧ (s.step c (.main true)).MainRuns := by
  have ht : ServerStep c s l (.main true) (s.step c (.main true)) := hl.step hcrash fun _ _ => rfl
  have hruns' := hruns.mainStep (c := c) true
  generalize s.step c (.main true) = s' at ht hruns'
  cases ht with
  | main ok s' _ hstep ht h' => exact ⟨ht, h', ht.crash.trans hcrash, hruns'⟩
  | held ok hheld => exact absurd hruns hheld

theorem stops_first (hl : ServerInv s (e :: rest)) (hcrash : s.crash = none) (hruns : s.MainRuns)
    (hpc : s.main = .visit .shutdown (some e)) :
    ∃ s', run (AesdServer.step c) s (mainSteps 2) = s' ∧ s'.crash = none ∧ s'.MainRuns ∧ ServerInv s' rest ∧
      s'.main = .join .shutdown e rest.head? ∧ s'.sys = s.sys.step c (.shutdown e) := by
  obtain ⟨kept, rest', heq, hkept, ⟨entry, hentry, hworker, hnext⟩, -⟩ := hl.visited hpc
  obtain rfl : rest = rest' := by simpa [hkept rfl] using heq
  obtain ⟨ht1, hl1, hc1, hr1⟩ := main_step (c := c) hl hcrash hruns
  obtain ⟨entry', hentry', hpc1, hsys1⟩ := ht1.visit_shutdown hpc
  rw [hentry] at hentry'
  cases hentry'
  rw [hnext] at hpc1
  rw [hworker] at hsys1
  obtain ⟨ht2, hl2, hc2, hr2⟩ := main_step (c := c) hl1 hc1 hr1
  obtain ⟨hpc2, hsys2⟩ := ht2.remove_next hpc1
  refine ⟨_, rfl, hc2, hr2, ?_, hpc2, hsys2.trans hsys1⟩
  have hlist : (s.step c (.main true)).main.listAfter (s.main.listAfter (e :: rest)) = rest := by
    rw [hpc1, hpc]
    simp [MainPc.listAfter]
  rw [← hlist]
  exact hl2

theorem skips_exited (hl : ServerInv s (e :: rest)) (hcrash : s.crash = none) (hruns : s.MainRuns)
    (hpc : s.main = .visit .shutdown (some e)) (hx : s.exited e = true) :
    ∃ s', run (AesdServer.step c) s (mainSteps 4) = s' ∧ s'.crash = none ∧ s'.MainRuns ∧ ServerInv s' rest ∧
      s'.main = .visit .shutdown rest.head? ∧ s'.sys = s.sys.step c (.shutdown e) := by
  obtain ⟨s2, hrun, hc2, hr2, hl2, hpc2, hsys2⟩ := stops_first (c := c) hl hcrash hruns hpc
  have hx2 : s2.exited e = true := (exited_of_shutdown hsys2 e).trans hx
  obtain ⟨ht3, hl3, hc3, hr3⟩ := main_step (c := c) hl2 hc2 hr2
  obtain ⟨entry, tid, hentry, htid, hsys3, hpc3⟩ := ht3.join_next hpc2
  rw [hl2.joins hpc2 hentry htid, hx2, if_pos rfl] at hpc3
  obtain ⟨ht4, hl4, hc4, hr4⟩ := main_step (c := c) hl3 hc3 hr3
  obtain ⟨hpc4, hsys4⟩ := ht4.delete_next hpc3
  refine ⟨_, ?_, hc4, hr4, ?_, hpc4, hsys4.trans (hsys3.trans hsys2)⟩
  · rw [← hrun]
    rfl
  · have hlist : (s2.step c (.main true)).main.listAfter (s2.main.listAfter rest) = rest := by
      rw [hpc3, hpc2]
      rfl
    rw [← hlist]
    exact hl4

theorem mem_of_active {l : List Nat} {k : Nat} (hl : ServerInv s l) (hcur : s.main.current = none) (hk : s.Active k) :
    k ∈ l := by
  by_contra hnot
  obtain ⟨w, hw, hx⟩ := hk
  apply (hl.rest k hnot (by rw [hcur]; simp)).exited
  simp [AesdServer.holding, hw, hx]

/-- **With two workers left** the main thread comes to wait for one while the other was not asked to stop. -/
theorem two_left_block {l : List Nat} (hl : ServerInv s l) (hcrash : s.crash = none) (hruns : s.MainRuns)
    (hpc : s.main = .visit .shutdown l.head?) {i j : Nat} {w v : Worker} (hi : i ∈ l) (hj : j ∈ l) (hij : i ≠ j)
    (hw : s.sys.workers i = some w)
    (hv : s.sys.workers j = some v) (hwx : w.pc ≠ .exited) (hvx : v.pc ≠ .exited) (hwf : w.shutdown = false)
    (hvf : v.shutdown = false) : ∃ n, ¬ AsksAll (run (AesdServer.step c) s (mainSteps n)) := by
  induction l generalizing s with
  | nil => simp at hi
  | cons x rest ih =>
      have hleft : ∀ {k : Nat} {u : Worker}, s.sys.workers k = some u → u.pc ≠ .exited → s.exited k = false := by
        intro k u hu hux
        simp [AesdServer.exited, hu, hux]
      cases hx : s.exited x with
      | true =>
          obtain ⟨s', hrun, hcrash', hruns', hl', hpc', hsys⟩ := skips_exited (c := c) hl hcrash hruns hpc hx
          have hix : i ≠ x := by
            rintro rfl
            simp [hleft hw hwx] at hx
          have hjx : j ≠ x := by
            rintro rfl
            simp [hleft hv hvx] at hx
          obtain ⟨n, hn⟩ := ih hl' hcrash' hruns' hpc' ((List.mem_cons.mp hi).resolve_left hix)
            ((List.mem_cons.mp hj).resolve_left hjx) ((workers_of_shutdown hsys hix).trans hw)
            ((workers_of_shutdown hsys hjx).trans hv)
          refine ⟨4 + n, ?_⟩
          rw [mainSteps_add, run_append, hrun]
          exact hn
      | false =>
          obtain ⟨s', hrun, -, -, -, hpc', hsys⟩ := stops_first (c := c) hl hcrash hruns hpc
          refine ⟨2, fun hall => ?_⟩
          rw [hrun] at hall
          have hasked := hall.asked x rest.head? hpc' ((exited_of_shutdown hsys x).trans hx)
          by_cases hix : i = x
          · have hset := hasked j v ((workers_of_shutdown hsys (by rw [← hix]; exact hij.symm)).trans hv) hvx
            rw [hvf] at hset
            cases hset
          · have hset := hasked i w ((workers_of_shutdown hsys hix).trans hw) hwx
            rw [hwf] at hset
            cases hset

end Walk

/-- No handler runs on top of the main thread when it enters `srv_shutdown`. -/
theorem enters_running {act : Act} {s : AesdServer} (hpc : s.main ≠ .closeServer)
    (hpc' : (s.step c act).main = .closeServer) : (s.step c act).MainRuns := by
  by_cases hcrash : s.crash = none
  · cases act with
    | main ok =>
        by_cases hruns : s.MainRuns
        · exact hruns.mainStep ok
        · rw [step_held hruns] at hpc'
          exact absurd hpc' hpc
    | thread lab =>
        rw [AesdServer.step, if_pos hcrash] at hpc'
        cases hstep : s.threadStep c lab with
        | error e =>
            rw [hstep] at hpc'
            exact absurd hpc' hpc
        | ok s' =>
            rw [hstep] at hpc'
            obtain ⟨sys, fds, rfl, -⟩ := threadStep_ok hstep
            exact absurd hpc' hpc
    | signal =>
        rw [AesdServer.step, if_pos hcrash] at hpc'
        exact absurd hpc' hpc
  · rw [step_crashed hcrash] at hpc'
    exact absurd hpc' hpc

/-- **When shutdown asks every worker to stop before it waits for one**: for every state in which `srv_shutdown` is
entered, in every interleaving from there on, if and only if at most one worker has not exited by then. A handler on top of
the main thread may keep it from ever waiting; there is none in the step that enters `srv_shutdown`. -/
theorem shutdown_asks_all_iff (c : Config) (out : Output) (acts : List Act)
    (hcrash : (AesdServer.reach c out acts).crash = none)
    (hpc : (AesdServer.reach c out acts).main = .closeServer) :
    ((∀ i j, (AesdServer.reach c out acts).Active i → (AesdServer.reach c out acts).Active j → i = j) →
      ∀ more, AsksAll (run (AesdServer.step c) (AesdServer.reach c out acts) more)) ∧
    ((AesdServer.reach c out acts).MainRuns →
      (∀ more, AsksAll (run (AesdServer.step c) (AesdServer.reach c out acts) more)) →
      ∀ i j, (AesdServer.reach c out acts).Active i → (AesdServer.reach c out acts).Active j → i = j) := by
  have hunasked : Unasked (AesdServer.reach c out acts) := by
    have ha : Along (AesdServer.step c) StartsWorker (AesdServer.init out) acts := by
      apply along_of_not_doomed
      simp [Doomed, hcrash, hpc]
    exact ha.invariant (fun _ _ h hs => h.step hs) (.init out)
  generalize AesdServer.reach c out acts = s at hcrash hpc hunasked
  obtain ⟨l, hl⟩ := hunasked.sound.inv
  constructor
  · intro halone more
    have hstart : Alone s := ⟨hunasked.sound, hunasked.sys, by simp [hpc, MainPc.stage], halone, by simp [hpc]⟩
    have hrun : Alone (run (AesdServer.step c) s more) :=
      (along_of_forall (R := fun _ => True) (fun _ _ => trivial) s).invariant (fun _ _ h _ => h.step) hstart
    exact hrun.asksAll
  · intro hruns hall i j hi hj
    by_contra hij
    have hcur : s.main.current = none := congrArg MainPc.current hpc
    have hil := mem_of_active hl hcur hi
    have hjl := mem_of_active hl hcur hj
    obtain ⟨w, hw, hwx⟩ := hi
    obtain ⟨v, hv, hvx⟩ := hj
    obtain ⟨ht, hl1, hcrash1, hruns1⟩ := main_step (c := c) hl hcrash hruns
    obtain ⟨hpc1, hsys1⟩ := ht.close_server hpc
    rw [hl.chain.head] at hpc1
    have hlist : s.main.listAfter l = l := by rw [hpc]; rfl
    rw [hlist] at hl1
    rw [← hsys1] at hw hv
    have hflags := hunasked.flags (by simp [hpc, MainPc.stage])
    rw [← hsys1] at hflags
    obtain ⟨n, hn⟩ := two_left_block (c := c) hl1 hcrash1 hruns1 hpc1 hil hjl hij hw hv hwx hvx (hflags i w hw)
      (hflags j v hv)
    apply hn
    have := hall (mainSteps (1 + n))
    rwa [mainSteps_add, run_append] at this

def oneClient : List Act := mainSteps 14 ++ threadSteps 1 1 ++ .signal :: mainSteps 1

theorem shutdown_asks_all_iff_one_client :
    (AesdServer.reach .aesdsocket (.file []) oneClient).main = .closeServer ∧
      ∀ more, AsksAll (run (AesdServer.step .aesdsocket) (AesdServer.reach .aesdsocket (.file []) oneClient) more) := by
  have hpc : (AesdServer.reach .aesdsocket (.file []) oneClient).main = .closeServer := by decide +kernel
  refine ⟨hpc, (shutdown_asks_all_iff .aesdsocket (.file []) oneClient (by decide +kernel) hpc).1 fun i j hi hj => ?_⟩
  have ha : Along (AesdServer.step .aesdsocket) StartsWorker (AesdServer.init (.file [])) oneClient := by decide +kernel
  obtain ⟨l, hl⟩ := (ha.invariant (I := Sound) (fun _ _ h hs => h.step hs) (.init (.file []))).inv
  have hlist : l = [1] := by
    rw [← hl.list_eq]
    decide +kernel
  have hmem := fun k hk => mem_of_active (k := k) hl (congrArg MainPc.current hpc) hk
  simp only [hlist, List.mem_singleton] at hmem
  rw [hmem i hi, hmem j hj]

/-- Two clients are being served: the worker of the first has the lock, that of the second waits for it. -/
def twoClients : List Act := mainSteps 14 ++ threadSteps 1 1 ++ mainSteps 11 ++ .signal :: mainSteps 1

/-- The worker of the second client is the first in the list. The main thread waits for it, it waits for the lock, and
the worker that has the lock was not asked to stop. -/
theorem joined_worker_waits :
    ¬ ∀ (c : Config) (out : Output) (acts : List Act), (AesdServer.reach c out acts).crash = none →
      (AesdServer.reach c out acts).main = .closeServer →
      ∀ more, AsksAll (run (AesdServer.step c) (AesdServer.reach c out acts) more) := by
  intro hall
  have h := hall .aesdsocket (.file []) twoClients (by decide +kernel) (by decide +kernel) (mainSteps 3)
  obtain ⟨w, hw, hwait⟩ := (Option.any_eq_true (fun w : Worker => decide (w.pc = .recvLock)) _).mp
    (by decide +kernel : ((run (AesdServer.step .aesdsocket) (AesdServer.reach .aesdsocket (.file []) twoClients)
      (mainSteps 3)).sys.workers 2).any (fun w => decide (w.pc = .recvLock)) = true)
  obtain ⟨v, hv, hflag⟩ := (Option.any_eq_true (fun w : Worker => !w.shutdown) _).mp
    (by decide +kernel : ((run (AesdServer.step .aesdsocket) (AesdServer.reach .aesdsocket (.file []) twoClients)
      (mainSteps 3)).sys.workers 1).any (fun w => !w.shutdown) = true)
  have hasked := h.no_wait 2 (some 1) w 1 v (by decide +kernel) hw (Or.inl (by simpa using hwait)) (by decide +kernel) hv
  simp [hasked] at hflag

end Aesd.Server
