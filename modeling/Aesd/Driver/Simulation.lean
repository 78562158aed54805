import Aesd.Driver.Locks

/-!
# The simulation of concurrent calls by sequential ones

A call takes effect when its result is decided: a write that holds `entry_lock` when it comes to `out`, a read when it
comes to its own `out`, an interrupted call when it is interrupted. `Sim m σ log` relates the machine to the sequential
state `σ` after the calls that took effect, in that order.

* While a write is between its locks the device is ahead of `σ`, but not where readers look (`Sim.ring`), and the write
  goes on to what it would do alone on `σ` (`CallOk`);
* `Sim.enter`, `Sim.leave`, `Sim.move` : a call begins, returns and takes a step;
* `Sim.step`, `Sim.run` : every step of the machine is a step of `σ` or none.
-/

namespace Aesd.Driver
open Lib

theorem runCalls_concat {K : Kernel} {calls : List (Call K)} {c : Call K} {s s1 s2 : State} {rets : List Ret} {v : Ret}
    (hrun : runCalls K s calls = .ok (rets, s1)) (hc : applyCall K s1 c = .ok (v, s2)) :
    runCalls K s (calls ++ [c]) = .ok (rets ++ [v], s2) := by
  induction calls generalizing s rets with
  | nil =>
      cases hrun
      simp only [List.nil_append, runCalls, hc]
      rfl
  | cons d ds ih =>
      obtain ⟨⟨r, s'⟩, hd, hrun⟩ := bind_ok hrun
      obtain ⟨⟨rs, s''⟩, hds, hrun⟩ := bind_ok hrun
      cases hrun
      simp only [List.cons_append, runCalls, hd, ih hds, bind, Except.bind]

/-- What a call in flight still has to do, on the device `dev` while the sequential device is `seq`. A read looks only
at the ring, a write that has its result has changed the sequential device too. -/
def CallOk {K : Kernel} (dev seq : AesdDev) (fpos : Nat) : Pc K → Prop
  | .write buf o w => w.held ≠ [] →
    match w.result with
    | none => WriteRun K buf o w dev (aesdWrite K seq buf o) ∧ (.bufLock ∉ w.held → Apart dev w)
    | some _ => dev = seq
  | .read count o r => r.held ≠ [] → r.result = none →
    ReadRun K count o dev r fpos (aesdRead K dev fpos count o) ∧ r.InRing dev

theorem CallOk.of_idle {K : Kernel} {dev seq : AesdDev} {fpos : Nat} {pc : Pc K} (h : pc.held = []) :
    CallOk dev seq fpos pc := by
  cases pc with
  | write buf o w => exact fun hne => absurd h hne
  | read count o r => exact fun hne => absurd h hne

/-- A step of another call, hidden by its locks. -/
theorem CallOk.frame {K : Kernel} {dev dev' seq seq' : AesdDev} {fpos : Nat} {pc other : Pc K}
    (h : CallOk dev seq fpos pc) (hexcl : ∀ l ∈ other.held, l ∉ pc.held)
    (hhide : (dev' = dev ∧ seq' = seq) ∨ .entryLock ∈ other.held ∧ (.bufLock ∉ other.held → SameRing dev dev')) :
    CallOk dev' seq' fpos pc := by
  rcases hhide with ⟨rfl, rfl⟩ | ⟨hentry, hsame⟩
  · exact h
  · cases pc with
    | write buf o w =>
        intro hne
        exact absurd (WritePc.entryLock_mem hne) (hexcl _ hentry)
    | read count o r =>
        intro hne hres
        obtain ⟨hrun, hring⟩ := h hne hres
        have hsame := hsame fun hbuf => hexcl _ hbuf (ReadPc.bufLock_mem hne)
        refine ⟨?_, hring.congr hsame⟩
        rw [aesdRead_congr hsame]
        exact hrun.congr hsame hring

structure CallerOk {K : Kernel} (m : Machine K) (σ : State) (log : List (Effect (Call K) Ret)) (i : Nat)
    (r : Running K) : Prop where
  invoked : .inv r.id (r.pc.call i) ∈ m.history
  pending : r.pc.result = none → r.id ∉ log.map Effect.id
  logged : ∀ v, r.pc.result = some v → ⟨r.id, r.pc.call i, v⟩ ∈ log
  locks : r.acquired.Perm (r.released ++ r.pc.held)
  ok : CallOk m.dev σ.dev (m.fpos i) r.pc

/-- The machine `m` after the calls of `log` took effect, which one after the other lead to `σ`. -/
structure Sim {K : Kernel} (m : Machine K) (σ : State) (log : List (Effect (Call K) Ret)) : Prop where
  replay : runCalls K State.init (log.map Effect.op) = .ok (log.map Effect.val, σ)
  lin : Linearizes m.history log
  effects : ∀ e ∈ log, .ret e.id e.val ∈ m.history ∨
    ∃ i r, m.callers i = some r ∧ r.id = e.id ∧ r.pc.result = some e.val
  begun : ∀ id op, .inv id op ∈ m.history → id < m.begun
  ids : ∀ i j r r', m.callers i = some r → m.callers j = some r' → r.id = r'.id → i = j
  holder : ∀ l i, m.lock l = some i ↔ ∃ r, m.callers i = some r ∧ l ∈ r.pc.held
  caller : ∀ i r, m.callers i = some r → CallerOk m σ log i r
  fpos : σ.fpos = m.fpos
  dev : m.lock .entryLock = none → m.dev = σ.dev
  -- a write that holds both locks hides the ring from every reader
  ring : (∀ i, m.lock .bufLock = some i → m.lock .entryLock ≠ some i) → SameRing σ.dev m.dev
  finished : ∀ f ∈ m.finished, f.acquired.Perm f.released
  returned : ∀ id v, .ret id v ∈ m.history → ∃ f ∈ m.finished, f.id = id

namespace Sim
variable {K : Kernel} {m : Machine K} {σ : State} {log : List (Effect (Call K) Ret)}

theorem init (K : Kernel) : Sim (Machine.init K) State.init [] where
  replay := rfl
  lin := .nil
  effects e he := by simp at he
  begun id op h := by simp [Machine.init] at h
  ids i j r r' h := by simp [Machine.init] at h
  holder l i := by simp [Machine.init]
  caller i r h := by simp [Machine.init] at h
  fpos := rfl
  dev _ := rfl
  ring _ := .refl _
  finished f hf := by simp [Machine.init] at hf
  returned id v h := by simp [Machine.init] at h

theorem inv (h : Sim m σ log) : ∃ items, Inv K σ.dev items := Inv.of_reachable ⟨_, _, h.replay⟩

theorem holds_iff (h : Sim m σ log) {i : Nat} {r : Running K} (hr : m.callers i = some r) (l : Lock) :
    m.lock l = some i ↔ l ∈ r.pc.held := by
  rw [h.holder, hr]
  simp

theorem lt_begun (h : Sim m σ log) {i : Nat} {r : Running K} (hr : m.callers i = some r) : r.id < m.begun :=
  h.begun _ _ (h.caller i r hr).invoked

theorem mem_log_lt (h : Sim m σ log) {id : Nat} (hid : id ∈ log.map Effect.id) : id < m.begun := by
  obtain ⟨e, he, rfl⟩ := List.mem_map.mp hid
  exact h.begun _ _ (h.lin.invoked e he)

theorem enter (h : Sim m σ log) {i : Nat} {pc : Pc K} (hidle : m.callers i = none) (hheld : pc.held = [])
    (hres : pc.result = none) : Sim (m.enter i pc) σ log := by
  have hm : m.enter i pc = { m with
      callers := Function.update m.callers i (some { id := m.begun, pc := pc })
      begun := m.begun + 1
      history := m.history ++ [.inv m.begun (pc.call i)] } := by
    simp only [Machine.enter, hidle]
  have hcallers : ∀ j r, (m.enter i pc).callers j = some r →
      (j = i ∧ r = { id := m.begun, pc := pc }) ∨ (j ≠ i ∧ m.callers j = some r) := by
    intro j r hj
    rw [hm] at hj
    by_cases hji : j = i
    · subst hji
      exact Or.inl ⟨rfl, by simpa using hj.symm⟩
    · exact Or.inr ⟨hji, by simpa [Function.update_of_ne hji] using hj⟩
  have hfresh : m.begun ∉ log.map Effect.id := fun hmem => Nat.lt_irrefl _ (h.mem_log_lt hmem)
  refine ⟨h.replay, ?_, fun e he => ?_, fun id op hinv => ?_, fun j k r r' hj hk hid => ?_, fun l j => ?_,
    fun j r hj => ?_, ?_, ?_, ?_, ?_, fun id v hret => ?_⟩
  · rw [hm]
    exact h.lin.invoke hfresh
  · rcases h.effects e he with hret | ⟨j, r, hj, hid, hv⟩
    · left
      rw [hm]
      exact List.mem_append_left _ hret
    · right
      refine ⟨j, r, ?_, hid, hv⟩
      rw [hm]
      have hji : j ≠ i := by
        rintro rfl
        simp [hidle] at hj
      simpa [Function.update_of_ne hji] using hj
  · rw [hm] at hinv ⊢
    rcases List.mem_append.mp hinv with hinv | hinv
    · exact (h.begun id op hinv).trans (Nat.lt_succ_self _)
    · cases List.mem_singleton.mp hinv
      exact Nat.lt_succ_self _
  · rcases hcallers j r hj with ⟨rfl, rfl⟩ | ⟨hji, hj'⟩ <;> rcases hcallers k r' hk with ⟨rfl, rfl⟩ | ⟨hki, hk'⟩
    · rfl
    · exact absurd (h.lt_begun hk') (by rw [← hid]; exact Nat.lt_irrefl _)
    · exact absurd (h.lt_begun hj') (by rw [hid]; exact Nat.lt_irrefl _)
    · exact h.ids j k r r' hj' hk' hid
  · rw [hm]
    dsimp only
    rw [h.holder]
    by_cases hji : j = i
    · subst hji
      simp [hidle, hheld]
    · rw [Function.update_of_ne hji]
  · rcases hcallers j r hj with ⟨rfl, rfl⟩ | ⟨hji, hj⟩
    · refine ⟨by simp [hm], fun _ => hfresh, fun v hv => ?_, by simp [hheld], .of_idle hheld⟩
      dsimp only at hv
      rw [hres] at hv
      cases hv
    · obtain ⟨hinv, hpend, hlog, hlocks, hok⟩ := h.caller j r hj
      rw [hm]
      exact ⟨List.mem_append_left _ hinv, hpend, hlog, hlocks, hok⟩
  · rw [hm]
    exact h.fpos
  · rw [hm]
    exact h.dev
  · rw [hm]
    exact h.ring
  · rw [hm]
    exact h.finished
  · rw [hm] at hret ⊢
    rcases List.mem_append.mp hret with hret | hret
    · exact h.returned id v hret
    · cases List.mem_singleton.mp hret

theorem leave (h : Sim m σ log) {i : Nat} {r : Running K} (hr : m.callers i = some r) {v : Ret}
    (hv : r.pc.returns = some v) : Sim (m.leave i r v) σ log := by
  obtain ⟨hres, hheld⟩ := Pc.returns_spec hv
  have hi := h.caller i r hr
  have hcallers : ∀ j r', (m.leave i r v).callers j = some r' → j ≠ i ∧ m.callers j = some r' := by
    intro j r' hj
    by_cases hji : j = i
    · subst hji
      simp [Machine.leave] at hj
    · exact ⟨hji, by simpa [Machine.leave, Function.update_of_ne hji] using hj⟩
  refine ⟨h.replay, h.lin.complete (hi.logged v hres), fun e he => ?_, fun id op hinv => ?_,
    fun j k r1 r2 hj hk => h.ids j k r1 r2 (hcallers j r1 hj).2 (hcallers k r2 hk).2, fun l j => ?_, fun j r' hj => ?_,
    h.fpos, h.dev, h.ring, fun f hf => ?_, fun id v' hret => ?_⟩
  · rcases h.effects e he with hret | ⟨j, r', hj, hid, hval⟩
    · exact Or.inl (List.mem_append_left _ hret)
    · by_cases hji : j = i
      · subst hji
        rw [hr] at hj
        cases hj
        rw [hres] at hval
        cases hval
        left
        simp [Machine.leave, hid]
      · exact Or.inr ⟨j, r', by simpa [Machine.leave, Function.update_of_ne hji] using hj, hid, hval⟩
  · rcases List.mem_append.mp hinv with hinv | hinv
    · exact h.begun id op hinv
    · cases List.mem_singleton.mp hinv
  · change m.lock l = some j ↔ ∃ r', Function.update m.callers i none j = some r' ∧ l ∈ r'.pc.held
    rw [h.holder]
    by_cases hji : j = i
    · subst hji
      simp [hr, hheld]
    · rw [Function.update_of_ne hji]
  · obtain ⟨-, hj'⟩ := hcallers j r' hj
    obtain ⟨hinv, hpend, hlog, hlocks, hok⟩ := h.caller j r' hj'
    exact ⟨List.mem_append_left _ hinv, hpend, hlog, hlocks, hok⟩
  · rcases List.mem_append.mp hf with hf | hf
    · exact h.finished f hf
    · rw [List.mem_singleton.mp hf]
      simpa [hheld] using hi.locks
  · rcases List.mem_append.mp hret with hret | hret
    · obtain ⟨f, hf, hid⟩ := h.returned id v' hret
      exact ⟨f, List.mem_append_left _ hf, hid⟩
    · cases List.mem_singleton.mp hret
      exact ⟨_, List.mem_append_right _ (List.mem_singleton.mpr rfl), rfl⟩

/-- The step of a caller takes effect, or it changes nothing in the sequential state. -/
def Effects (σ σ' : State) (log log' : List (Effect (Call K) Ret)) (i : Nat) (r r' : Running K) (fpos fpos' : Nat) :
    Prop :=
  (σ' = σ ∧ log' = log ∧ r'.pc.result = r.pc.result ∧ fpos' = fpos) ∨
  ∃ v, r.pc.result = none ∧ r'.pc.result = some v ∧ applyCall K σ (r.pc.call i) = .ok (v, σ') ∧
    log' = log ++ [⟨r.id, r.pc.call i, v⟩] ∧ σ'.fpos = Function.update σ.fpos i fpos'

namespace Effects
variable {σ' : State} {log' : List (Effect (Call K) Ret)} {i : Nat} {r r' : Running K} {fpos fpos' : Nat}

theorem replay (h : Effects σ σ' log log' i r r' fpos fpos')
    (hrun : runCalls K State.init (log.map Effect.op) = .ok (log.map Effect.val, σ)) :
    runCalls K State.init (log'.map Effect.op) = .ok (log'.map Effect.val, σ') := by
  rcases h with ⟨rfl, rfl, -, -⟩ | ⟨v, -, -, happly, rfl, -⟩
  · exact hrun
  · rw [List.map_append, List.map_append]
    exact runCalls_concat hrun happly

theorem subset (h : Effects σ σ' log log' i r r' fpos fpos') {e : Effect (Call K) Ret} (he : e ∈ log) : e ∈ log' := by
  rcases h with ⟨-, rfl, -, -⟩ | ⟨v, -, -, -, rfl, -⟩
  · exact he
  · exact List.mem_append_left _ he

theorem new (h : Effects σ σ' log log' i r r' fpos fpos') {e : Effect (Call K) Ret} (he : e ∈ log') :
    e ∈ log ∨ r.pc.result = none ∧ e.id = r.id ∧ r'.pc.result = some e.val := by
  rcases h with ⟨-, rfl, -, -⟩ | ⟨v, hnone, hsome, -, rfl, -⟩
  · exact Or.inl he
  · rcases List.mem_append.mp he with he | he
    · exact Or.inl he
    · rw [List.mem_singleton.mp he]
      exact Or.inr ⟨hnone, rfl, hsome⟩

theorem lin (h : Effects σ σ' log log' i r r' fpos fpos') {hist : List (Event (Call K) Ret)}
    (hl : Linearizes hist log) (hinv : .inv r.id (r.pc.call i) ∈ hist)
    (hpend : r.pc.result = none → r.id ∉ log.map Effect.id) : Linearizes hist log' := by
  rcases h with ⟨-, rfl, -, -⟩ | ⟨v, hnone, -, -, rfl, -⟩
  · exact hl
  · exact hl.commit hinv (hpend hnone)

theorem pos (h : Effects σ σ' log log' i r r' fpos fpos') (hpos : σ.fpos i = fpos) :
    σ'.fpos = Function.update σ.fpos i fpos' := by
  rcases h with ⟨rfl, -, -, rfl⟩ | ⟨v, -, -, -, -, hpos'⟩
  · rw [← hpos, Function.update_eq_self]
  · exact hpos'

theorem own (h : Effects σ σ' log log' i r r' fpos fpos') (hpend : r.pc.result = none → r.id ∉ log.map Effect.id)
    (hlogged : ∀ v, r.pc.result = some v → ⟨r.id, r.pc.call i, v⟩ ∈ log) :
    (r'.pc.result = none → r.id ∉ log'.map Effect.id) ∧
      ∀ v, r'.pc.result = some v → ⟨r.id, r.pc.call i, v⟩ ∈ log' := by
  rcases h with ⟨-, rfl, hres, -⟩ | ⟨v, -, hsome, -, rfl, -⟩
  · rw [hres]
    exact ⟨hpend, hlogged⟩
  · rw [hsome]
    refine ⟨(fun hn => nomatch hn), fun w hw => ?_⟩
    cases hw
    exact List.mem_append_right _ (List.mem_singleton.mpr rfl)

end Effects

/-- Two calls hold no lock together. -/
theorem excludes (h : Sim m σ log) {i j : Nat} {r q : Running K} (hr : m.callers i = some r)
    (hq : m.callers j = some q) (hji : j ≠ i) : ∀ l ∈ r.pc.held, l ∉ q.pc.held := by
  intro l hl hlq
  have h1 := (h.holds_iff hr l).mpr hl
  have h2 := (h.holds_iff hq l).mpr hlq
  rw [h1] at h2
  exact hji (Option.some.inj h2).symm

section Move
variable {i : Nat} {r r' : Running K} {lock : Lock → Option Nat} {σ' : State} {log' : List (Effect (Call K) Ret)}
  {dev : AesdDev} {fpos : Nat}

theorem move_callers_self : (m.move i r' dev fpos lock).callers i = some r' := by
  simp [Machine.move]

theorem move_callers_of_ne {j : Nat} (hj : j ≠ i) : (m.move i r' dev fpos lock).callers j = m.callers j := by
  simp [Machine.move, Function.update_of_ne hj]

theorem move_effects (h : Sim m σ log) (hr : m.callers i = some r) (hm : Moves m i r r' lock)
    (heff : Effects σ σ' log log' i r r' (m.fpos i) fpos) {e : Effect (Call K) Ret} (he : e ∈ log') :
    .ret e.id e.val ∈ m.history ∨
      ∃ j q, (m.move i r' dev fpos lock).callers j = some q ∧ q.id = e.id ∧ q.pc.result = some e.val := by
  rcases heff.new he with he' | ⟨-, hid, hv⟩
  · rcases h.effects e he' with hret | ⟨j, q, hj, hid, hv⟩
    · exact Or.inl hret
    · right
      by_cases hji : j = i
      · -- the caller's effect was there before, so this step is not its effect
        subst hji
        rw [hr] at hj
        cases hj
        refine ⟨j, r', move_callers_self, hm.id.trans hid, ?_⟩
        rcases heff with ⟨-, -, hres, -⟩ | ⟨v, hnone, -, -, -, -⟩
        · rw [hres, hv]
        · rw [hnone] at hv
          cases hv
      · exact ⟨j, q, (move_callers_of_ne hji).trans hj, hid, hv⟩
  · exact Or.inr ⟨i, r', move_callers_self, hm.id.trans hid.symm, hv⟩

theorem move_other (h : Sim m σ log) (hr : m.callers i = some r)
    (heff : Effects σ σ' log log' i r r' (m.fpos i) fpos)
    (hhide : (dev = m.dev ∧ σ'.dev = σ.dev) ∨
      .entryLock ∈ r.pc.held ∧ (.bufLock ∉ r.pc.held → SameRing m.dev dev))
    {j : Nat} {q : Running K} (hq : m.callers j = some q) (hji : j ≠ i) :
    CallerOk (m.move i r' dev fpos lock) σ' log' j q := by
  obtain ⟨hinv, hpend, hlog, hlocks, hok⟩ := h.caller j q hq
  refine ⟨hinv, fun hnone hmem => ?_, fun v hv => heff.subset (hlog v hv), hlocks, ?_⟩
  · obtain ⟨e, he, hid⟩ := List.mem_map.mp hmem
    rcases heff.new he with he' | ⟨-, hid', -⟩
    · exact hpend hnone (List.mem_map.mpr ⟨e, he', hid⟩)
    · exact hji (h.ids j i q r hq hr (by rw [← hid, hid']))
  · change CallOk dev σ'.dev (Function.update m.fpos i fpos j) q.pc
    rw [Function.update_of_ne hji]
    exact hok.frame (h.excludes hr hq hji) hhide

/-- A caller takes a step inside its call. What it does to the device must be hidden from the others by its locks. -/
theorem move (h : Sim m σ log) (hr : m.callers i = some r) (hm : Moves m i r r' lock)
    (heff : Effects σ σ' log log' i r r' (m.fpos i) fpos)
    (hhide : (dev = m.dev ∧ σ'.dev = σ.dev) ∨
      .entryLock ∈ r.pc.held ∧ (.bufLock ∉ r.pc.held → SameRing m.dev dev))
    (hok : CallOk dev σ'.dev fpos r'.pc) (hdev : lock .entryLock = none → dev = σ'.dev)
    (hring : (∀ j, lock .bufLock = some j → lock .entryLock ≠ some j) → SameRing σ'.dev dev) :
    Sim (m.move i r' dev fpos lock) σ' log' := by
  have hi := h.caller i r hr
  have hlock := hm.holder (fun l => h.holds_iff hr l)
  have hown := heff.own hi.pending hi.logged
  refine ⟨heff.replay h.replay, heff.lin h.lin hi.invoked hi.pending, fun e he => h.move_effects hr hm heff he, h.begun,
    fun j k q q' hj hk hid => ?_, fun l j => ?_, fun j q hj => ?_, ?_, hdev, hring, h.finished, h.returned⟩
  · -- ids do not change
    have hold : ∀ j q, (m.move i r' dev fpos lock).callers j = some q → ∃ q0, m.callers j = some q0 ∧ q0.id = q.id := by
      intro j q hj
      by_cases hji : j = i
      · subst hji
        rw [move_callers_self] at hj
        cases hj
        exact ⟨r, hr, hm.id.symm⟩
      · exact ⟨q, (move_callers_of_ne hji).symm.trans hj, rfl⟩
    obtain ⟨q0, hq0, hid0⟩ := hold j q hj
    obtain ⟨q0', hq0', hid0'⟩ := hold k q' hk
    exact h.ids j k q0 q0' hq0 hq0' (by rw [hid0, hid0', hid])
  · change lock l = some j ↔ _
    rw [hlock]
    split_ifs with hji
    · subst hji
      simp [move_callers_self]
    · rw [move_callers_of_ne hji, h.holder]
  · by_cases hji : j = i
    · subst hji
      rw [move_callers_self] at hj
      cases hj
      refine ⟨?_, ?_, ?_, hm.locks hi.locks, ?_⟩
      · rw [hm.id, hm.call]
        exact hi.invoked
      · rw [hm.id]
        exact hown.1
      · rw [hm.id, hm.call]
        exact hown.2
      · simpa [Machine.move] using hok
    · rw [move_callers_of_ne hji] at hj
      exact h.move_other hr heff hhide hj hji
  · change σ'.fpos = Function.update m.fpos i fpos
    rw [heff.pos (by rw [h.fpos]), h.fpos]

end Move

theorem move_outside (h : Sim m σ log) {i : Nat} {r r' : Running K} (hr : m.callers i = some r)
    {lock : Lock → Option Nat} (hm : Moves m i r r' lock) {σ' : State} {log' : List (Effect (Call K) Ret)} {fpos : Nat}
    (heff : Effects σ σ' log log' i r r' (m.fpos i) fpos) (hσ : σ'.dev = σ.dev) (hnot : .entryLock ∉ r.pc.held)
    (hnot' : .entryLock ∉ r'.pc.held) (hok : CallOk m.dev σ.dev fpos r'.pc) :
    Sim (m.move i r' m.dev fpos lock) σ' log' := by
  have hlock := hm.holder (fun l => h.holds_iff hr l)
  have hown : ∀ j, m.lock .entryLock = some j → j ≠ i := by
    rintro j hj rfl
    exact hnot ((h.holds_iff hr _).mp hj)
  have hentry : ∀ j, lock .entryLock = some j ↔ m.lock .entryLock = some j := by
    intro j
    rw [hlock]
    split_ifs with hj
    · subst hj
      exact ⟨fun hc => absurd hc hnot', fun hc => absurd rfl (hown j hc)⟩
    · rfl
  refine h.move hr hm heff (Or.inl ⟨rfl, hσ⟩) (by rw [hσ]; exact hok) (fun hnone => ?_) (fun hfree => ?_)
  · rw [hσ]
    apply h.dev
    cases hl : m.lock .entryLock with
    | none => rfl
    | some j =>
        rw [← hentry, hnone] at hl
        cases hl
  · rw [hσ]
    apply h.ring
    intro j hj hje
    have hji := hown j hje
    refine hfree j ?_ ((hentry j).mpr hje)
    rw [hlock, if_neg hji]
    exact hj

/-! ### The steps of a write -/

/-- The buffers of the ring are apart from a write that has just taken `entry_lock`. -/
theorem apart_start {s : AesdDev} {items : List AesdBufferEntry} (h : Inv K s items) : Apart s .testPtr := by
  intro i p hp
  rcases h.rep.slot_mem i with hmem | hzero
  · exact ⟨h.ptr_lt hmem hp, h.ptr_ne hmem hp, by simp [WritePc.ptrs]⟩
  · rw [hzero] at hp
    cases hp

theorem held_of_not_buf {w : WritePc} (hne : w.held ≠ []) (hbuf : Lock.bufLock ∉ w.held) : w.held = [.entryLock] := by
  unfold WritePc.held at hne hbuf ⊢
  split <;> simp_all

/-- A write keeps `entry_lock` until it has its result, and `buf_lock` too. -/
theorem execWrite_keeps {buf : K.UserBuf} {o : WriteOutcome} {s s' : AesdDev} {w w' : WritePc}
    (hs : execWrite K buf o s w = .ok (w', s')) (hres : w.result = none) :
    (.entryLock ∈ w.held → .entryLock ∈ w'.held) ∧
      (w'.result = none → .bufLock ∈ w.held → .bufLock ∈ w'.held) := by
  have hheld := execWrite_held hs
  cases hop : w.lockOp o with
  | keep =>
      rw [hop] at hheld
      rw [show w'.held = w.held from hheld]
      exact ⟨id, fun _ => id⟩
  | acquire l =>
      rw [hop] at hheld
      rw [show w'.held = w.held ++ [l] from hheld]
      exact ⟨List.mem_append_left _, fun _ => List.mem_append_left _⟩
  | release l =>
      have hw : w = .unlockBuf := by
        unfold WritePc.lockOp at hop
        split at hop
        · split_ifs at hop
        · split_ifs at hop
        · rfl
        · cases hres
        · cases hop
      subst hw
      cases hs
      exact ⟨fun _ => by simp [WritePc.held], fun hc => nomatch hc⟩

section Write
variable {i : Nat} {r r' : Running K} {buf : K.UserBuf} {o : WriteOutcome} {w w' : WritePc} {lock : Lock → Option Nat}
  {dev : AesdDev}

theorem write_lock (h : Sim m σ log) (hr : m.callers i = some r) (hm : Moves m i r r' lock)
    (hpc : r.pc = .write buf o .lockEntry) (hpc' : r'.pc = .write buf o w')
    (hs : execWrite K buf o m.dev .lockEntry = .ok (w', dev)) (hfree : ∀ l, r.pc.lockOp = .acquire l → m.lock l = none) :
    ∃ σ' log', Sim (m.move i r' dev (m.fpos i) lock) σ' log' := by
  have hnone : r.pc.result = none := by rw [hpc]; rfl
  by_cases ho : o.entryLock = true
  · -- the lock was free, so the device is the sequential one
    have hdev : m.dev = σ.dev := h.dev (hfree .entryLock (by simp [hpc, Pc.lockOp, WritePc.lockOp, ho]))
    simp only [execWrite, if_pos ho, Except.ok.injEq, Prod.mk.injEq] at hs
    obtain ⟨rfl, rfl⟩ := hs
    obtain ⟨items, hinv⟩ := h.inv
    have hres : r'.pc.result = r.pc.result := by rw [hpc', hnone]; rfl
    refine ⟨σ, log, h.move hr hm (Or.inl ⟨rfl, rfl, hres, rfl⟩) (Or.inl ⟨rfl, rfl⟩) ?_ (fun _ => hdev) ?_⟩
    · rw [hpc', hdev]
      intro _
      have hrun : WriteRun K buf o .lockEntry σ.dev (aesdWrite K σ.dev buf o) := writeCall_completes σ.dev
      exact ⟨hrun.after rfl (by simp only [execWrite, if_pos ho]), fun _ => apart_start hinv⟩
    · intro _
      rw [hdev]
      exact .refl _
  · simp only [execWrite, if_neg ho, Except.ok.injEq, Prod.mk.injEq] at hs
    obtain ⟨rfl, rfl⟩ := hs
    have hw : aesdWrite K σ.dev buf o = .ok (-ERESTARTSYS, σ.dev) := by rw [aesdWrite, if_neg ho]
    have heff : Effects σ σ log (log ++ [⟨r.id, r.pc.call i, ⟨-ERESTARTSYS, []⟩⟩]) i r r' (m.fpos i) (m.fpos i) := by
      refine Or.inr ⟨_, hnone, by rw [hpc']; rfl, by rw [hpc]; exact applyCall_write hw, rfl, ?_⟩
      rw [← h.fpos, Function.update_eq_self]
    exact ⟨σ, _, h.move_outside hr hm heff rfl (by simp [hpc, Pc.held, WritePc.held])
      (by simp [hpc', Pc.held, WritePc.held]) (.of_idle (by rw [hpc']; rfl))⟩

theorem write_inside (h : Sim m σ log) (hr : m.callers i = some r) (hm : Moves m i r r' lock)
    (hpc : r.pc = .write buf o w) (hpc' : r'.pc = .write buf o w') (hs : execWrite K buf o m.dev w = .ok (w', dev))
    (hne : w.held ≠ []) (hnone : w.result = none) : ∃ σ' log', Sim (m.move i r' dev (m.fpos i) lock) σ' log' := by
  have hi := (h.caller i r hr).ok
  have hlock := hm.holder (fun l => h.holds_iff hr l)
  have hmine : ∀ l, m.lock l = some i ↔ l ∈ w.held := fun l => by rw [h.holds_iff hr, hpc, Pc.held]
  have hmine' : ∀ l, lock l = some i ↔ l ∈ w'.held := fun l => by rw [hlock, if_pos rfl, hpc', Pc.held]
  rw [hpc] at hi
  obtain ⟨hrun, hapart⟩ : WriteRun K buf o w m.dev (aesdWrite K σ.dev buf o) ∧
      (.bufLock ∉ w.held → Apart m.dev w) := by
    have := hi hne
    rwa [hnone] at this
  have hafter : WriteRun K buf o w' dev (aesdWrite K σ.dev buf o) := hrun.after (by simp [hnone]) hs
  have hentry := WritePc.entryLock_mem hne
  obtain ⟨hkeep, hkeepBuf⟩ := execWrite_keeps hs hnone
  have hframe : .bufLock ∉ w.held → SameRing m.dev dev ∧ Apart dev w' := fun hbuf =>
    execWrite_frame (held_of_not_buf hne hbuf) (hapart hbuf) hs
  have hhide : ∀ seq : AesdDev, (dev = m.dev ∧ seq = σ.dev) ∨
      .entryLock ∈ r.pc.held ∧ (.bufLock ∉ r.pc.held → SameRing m.dev dev) := by
    intro seq
    rw [hpc]
    exact Or.inr ⟨hentry, fun hbuf => (hframe hbuf).1⟩
  cases hres : w'.result with
  | none =>
      have hbuf : .bufLock ∉ w'.held → .bufLock ∉ w.held := fun hn hb => hn (hkeepBuf hres hb)
      have hlog : r'.pc.result = r.pc.result := by simp [hpc, hpc', Pc.result, hres, hnone]
      refine ⟨σ, log, h.move hr hm (Or.inl ⟨rfl, rfl, hlog, rfl⟩) (hhide _) ?_ (fun hl => ?_) (fun hfree => ?_)⟩
      · rw [hpc']
        intro _
        rw [hres]
        exact ⟨hafter, fun hn => (hframe (hbuf hn)).2⟩
      · rw [(hmine' .entryLock).mpr (hkeep hentry)] at hl
        cases hl
      · have hn : .bufLock ∉ w.held := hbuf fun hb =>
          hfree i ((hmine' .bufLock).mpr hb) ((hmine' .entryLock).mpr (hkeep hentry))
        refine (h.ring fun j hj hje => hn ?_).trans (hframe hn).1
        rw [(hmine .entryLock).mpr hentry] at hje
        cases hje
        exact (hmine .bufLock).mp hj
  | some v =>
      -- the write takes effect
      have hw : aesdWrite K σ.dev buf o = .ok (v, dev) := hafter.eq_ok (by simp [hres])
      have heff : Effects σ { σ with dev := dev } log (log ++ [⟨r.id, r.pc.call i, ⟨v, []⟩⟩]) i r r' (m.fpos i)
          (m.fpos i) := by
        refine Or.inr ⟨_, by simp [hpc, Pc.result, hnone], by simp [hpc', Pc.result, hres], ?_, rfl, ?_⟩
        · rw [hpc]
          exact applyCall_write hw
        · rw [← h.fpos, Function.update_eq_self]
      refine ⟨_, _, h.move hr hm heff (hhide _) ?_ (fun _ => rfl) (fun _ => .refl _)⟩
      rw [hpc']
      intro _
      rw [hres]

theorem write_unlock (h : Sim m σ log) (hr : m.callers i = some r) (hm : Moves m i r r' lock) {v : Int}
    (hpc : r.pc = .write buf o (.unlockEntry v)) (hpc' : r'.pc = .write buf o w')
    (hs : execWrite K buf o m.dev (.unlockEntry v) = .ok (w', dev)) :
    ∃ σ' log', Sim (m.move i r' dev (m.fpos i) lock) σ' log' := by
  have hi := (h.caller i r hr).ok
  rw [hpc] at hi
  have hdev : m.dev = σ.dev := hi (by simp [WritePc.held])
  cases hs
  have hres : r'.pc.result = r.pc.result := by rw [hpc, hpc']; rfl
  refine ⟨σ, log, h.move hr hm (Or.inl ⟨rfl, rfl, hres, rfl⟩) (Or.inl ⟨rfl, rfl⟩)
    (.of_idle (by rw [hpc']; rfl)) (fun _ => hdev) (fun _ => ?_)⟩
  rw [hdev]
  exact .refl _

theorem write_step (h : Sim m σ log) (hr : m.callers i = some r) (hm : Moves m i r r' lock)
    (hpc : r.pc = .write buf o w) (hpc' : r'.pc = .write buf o w') (hs : execWrite K buf o m.dev w = .ok (w', dev))
    (hret : r.pc.returns = none) (hfree : ∀ l, r.pc.lockOp = .acquire l → m.lock l = none) :
    ∃ σ' log', Sim (m.move i r' dev (m.fpos i) lock) σ' log' := by
  by_cases hheld : w.held = []
  · rcases WritePc.cases_idle hheld with rfl | ⟨v, rfl⟩
    · exact h.write_lock hr hm hpc hpc' hs hfree
    · rw [hpc] at hret
      cases hret
  · cases hres : w.result with
    | none => exact h.write_inside hr hm hpc hpc' hs hheld hres
    | some v =>
        obtain rfl := WritePc.eq_unlockEntry hheld hres
        exact h.write_unlock hr hm hpc hpc' hs

end Write

/-! ### The steps of a read -/

/-- The file position moves only with the step that ends the read. -/
theorem execRead_pos {count : Nat} {o : ReadOutcome} {s : AesdDev} {fpos fpos' : Nat} {r r' : ReadPc}
    (hs : execRead K count o s fpos r = .ok (r', fpos')) (hres : r'.result = none) : fpos' = fpos := by
  cases r with
  | setPos data n pos =>
      cases hs
      cases hres
  | copy ptr =>
      cases ptr with
      | none => cases hs
      | some p =>
          obtain ⟨_, -, hs⟩ := bind_ok hs
          cases hs
          rfl
  | _ =>
      cases hs
      rfl

theorem entryLock_not_mem {pc : Pc K} {count : Nat} {o : ReadOutcome} {r : ReadPc} (hpc : pc = .read count o r) :
    .entryLock ∉ pc.held := by
  subst hpc
  unfold Pc.held ReadPc.held
  cases r <;> simp

section Read
variable {i : Nat} {r r' : Running K} {count : Nat} {o : ReadOutcome} {rd rd' : ReadPc} {lock : Lock → Option Nat}
  {fpos : Nat}

theorem read_lock (h : Sim m σ log) (hr : m.callers i = some r) (hm : Moves m i r r' lock)
    (hpc : r.pc = .read count o .lockBuf) (hpc' : r'.pc = .read count o rd')
    (hs : execRead K count o m.dev (m.fpos i) .lockBuf = .ok (rd', fpos))
    (hfree : ∀ l, r.pc.lockOp = .acquire l → m.lock l = none) :
    ∃ σ' log', Sim (m.move i r' m.dev fpos lock) σ' log' := by
  have hnone : r.pc.result = none := by rw [hpc]; rfl
  have hout : .entryLock ∉ r.pc.held := entryLock_not_mem hpc
  have hout' : .entryLock ∉ r'.pc.held := entryLock_not_mem hpc'
  by_cases ho : o.bufLock = true
  · have hbuf : m.lock .bufLock = none := hfree .bufLock (by simp [hpc, Pc.lockOp, ReadPc.lockOp, ho])
    have hring : SameRing σ.dev m.dev := h.ring fun j hj => by simp [hbuf] at hj
    have hin := execRead_inRing hs
    simp only [execRead, if_pos ho, Except.ok.injEq, Prod.mk.injEq] at hs
    obtain ⟨rfl, rfl⟩ := hs
    obtain ⟨items, hinv⟩ := h.inv
    have hlt : m.dev.buf.outOffs < 10 := by
      rw [hring.buf]
      exact hinv.rep.out_lt
    have hres : r'.pc.result = r.pc.result := by rw [hpc', hnone]; rfl
    refine ⟨σ, log, h.move_outside hr hm (Or.inl ⟨rfl, rfl, hres, rfl⟩) rfl hout hout' ?_⟩
    rw [hpc']
    intro _ _
    have hrun : ReadRun K count o m.dev .lockBuf (m.fpos i) (aesdRead K m.dev (m.fpos i) count o) :=
      readCall_completes hlt
    exact ⟨hrun.after rfl (by simp only [execRead, if_pos ho]), hin⟩
  · simp only [execRead, if_neg ho, Except.ok.injEq, Prod.mk.injEq] at hs
    obtain ⟨rfl, rfl⟩ := hs
    have hread : aesdRead K σ.dev (σ.fpos i) count o = .ok ⟨-ERESTARTSYS, [], σ.fpos i⟩ := by rw [aesdRead, if_neg ho]
    have happly := applyCall_read hread
    rw [Function.update_eq_self] at happly
    have heff : Effects σ σ log (log ++ [⟨r.id, r.pc.call i, ⟨-ERESTARTSYS, []⟩⟩]) i r r' (m.fpos i) (m.fpos i) := by
      refine Or.inr ⟨_, hnone, by rw [hpc']; rfl, by rw [hpc]; exact happly, rfl, ?_⟩
      rw [← h.fpos, Function.update_eq_self]
    exact ⟨σ, _, h.move_outside hr hm heff rfl hout hout' (.of_idle (by rw [hpc']; rfl))⟩

theorem read_inside (h : Sim m σ log) (hr : m.callers i = some r) (hm : Moves m i r r' lock)
    (hpc : r.pc = .read count o rd) (hpc' : r'.pc = .read count o rd')
    (hs : execRead K count o m.dev (m.fpos i) rd = .ok (rd', fpos)) (hne : rd.held ≠ []) (hnone : rd.result = none) :
    ∃ σ' log', Sim (m.move i r' m.dev fpos lock) σ' log' := by
  have hi := (h.caller i r hr).ok
  have hout : .entryLock ∉ r.pc.held := entryLock_not_mem hpc
  have hout' : .entryLock ∉ r'.pc.held := entryLock_not_mem hpc'
  rw [hpc] at hi
  obtain ⟨hrun, -⟩ := hi hne hnone
  have hafter : ReadRun K count o m.dev rd' fpos (aesdRead K m.dev (m.fpos i) count o) :=
    hrun.after (by simp [hnone]) hs
  have hmine : m.lock .bufLock = some i := (h.holds_iff hr _).mpr (by rw [hpc]; exact ReadPc.bufLock_mem hne)
  have hring : SameRing σ.dev m.dev := by
    refine h.ring fun j hj hje => hout ?_
    rw [hmine] at hj
    cases hj
    exact (h.holds_iff hr _).mp hje
  cases hres : rd'.result with
  | none =>
      obtain rfl := execRead_pos hs hres
      have hlog : r'.pc.result = r.pc.result := by simp [hpc, hpc', Pc.result, hres, hnone]
      refine ⟨σ, log, h.move_outside hr hm (Or.inl ⟨rfl, rfl, hlog, rfl⟩) rfl hout hout' ?_⟩
      rw [hpc']
      exact fun _ _ => ⟨hafter, execRead_inRing hs⟩
  | some v =>
      -- the read takes effect
      have hread : aesdRead K σ.dev (σ.fpos i) count o = .ok ⟨v.result, v.data, fpos⟩ := by
        rw [h.fpos, ← aesdRead_congr hring]
        exact hafter.eq_ok (by simp [hres])
      have heff : Effects σ { σ with fpos := Function.update σ.fpos i fpos } log
          (log ++ [⟨r.id, r.pc.call i, v⟩]) i r r' (m.fpos i) fpos :=
        Or.inr ⟨v, by simp [hpc, Pc.result, hnone], by simp [hpc', Pc.result, hres],
          by rw [hpc]; exact applyCall_read hread, rfl, rfl⟩
      refine ⟨_, _, h.move_outside hr hm heff rfl hout hout' ?_⟩
      rw [hpc']
      intro _ hc
      rw [hres] at hc
      cases hc

theorem read_unlock (h : Sim m σ log) (hr : m.callers i = some r) (hm : Moves m i r r' lock) {v : Ret}
    (hpc : r.pc = .read count o (.unlockBuf v)) (hpc' : r'.pc = .read count o rd')
    (hs : execRead K count o m.dev (m.fpos i) (.unlockBuf v) = .ok (rd', fpos)) :
    ∃ σ' log', Sim (m.move i r' m.dev fpos lock) σ' log' := by
  cases hs
  have hres : r'.pc.result = r.pc.result := by rw [hpc, hpc']; rfl
  exact ⟨σ, log, h.move_outside hr hm (Or.inl ⟨rfl, rfl, hres, rfl⟩) rfl (entryLock_not_mem hpc)
    (entryLock_not_mem hpc') (.of_idle (by rw [hpc']; rfl))⟩

theorem read_step (h : Sim m σ log) (hr : m.callers i = some r) (hm : Moves m i r r' lock)
    (hpc : r.pc = .read count o rd) (hpc' : r'.pc = .read count o rd')
    (hs : execRead K count o m.dev (m.fpos i) rd = .ok (rd', fpos)) (hret : r.pc.returns = none)
    (hfree : ∀ l, r.pc.lockOp = .acquire l → m.lock l = none) :
    ∃ σ' log', Sim (m.move i r' m.dev fpos lock) σ' log' := by
  by_cases hheld : rd.held = []
  · rcases ReadPc.cases_idle hheld with rfl | ⟨v, rfl⟩
    · exact h.read_lock hr hm hpc hpc' hs hfree
    · rw [hpc] at hret
      cases hret
  · cases hres : rd.result with
    | none => exact h.read_inside hr hm hpc hpc' hs hheld hres
    | some v =>
        obtain rfl := ReadPc.eq_unlockBuf hheld hres
        exact h.read_unlock hr hm hpc hpc' hs

end Read

/-! ### Runs -/

theorem stepCall (h : Sim m σ log) {i : Nat} {r : Running K} (hr : m.callers i = some r) :
    ∃ σ' log', Sim (m.stepCall i r) σ' log' := by
  rcases m.stepCall_cases i r with heq | ⟨v, hv, heq⟩ | ⟨r', dev, fpos, lock, hret, hexec, hfree, hm, heq⟩
  · rw [heq]
    exact ⟨σ, log, h⟩
  · rw [heq]
    exact ⟨σ, log, h.leave hr hv⟩
  · rw [heq]
    cases hpc : r.pc with
    | write buf o w =>
        rw [hpc] at hexec
        obtain ⟨⟨w', dev'⟩, hs, he⟩ := bind_ok hexec
        simp only [Except.ok.injEq, Prod.mk.injEq] at he
        obtain ⟨hpc', rfl, rfl⟩ := he
        exact h.write_step hr hm hpc hpc'.symm hs hret hfree
    | read count o rd =>
        rw [hpc] at hexec
        obtain ⟨⟨rd', fpos'⟩, hs, he⟩ := bind_ok hexec
        simp only [Except.ok.injEq, Prod.mk.injEq] at he
        obtain ⟨hpc', rfl, rfl⟩ := he
        exact h.read_step hr hm hpc hpc'.symm hs hret hfree

theorem enter_any (h : Sim m σ log) (i : Nat) {pc : Pc K} (hheld : pc.held = []) (hres : pc.result = none) :
    Sim (m.enter i pc) σ log := by
  cases hidle : m.callers i with
  | none => exact h.enter hidle hheld hres
  | some r =>
      have hm : m.enter i pc = m := by simp only [Machine.enter, hidle]
      rw [hm]
      exact h

theorem step (h : Sim m σ log) (l : Label K) : ∃ σ' log', Sim (m.step l) σ' log' := by
  cases l with
  | write i buf o => exact ⟨σ, log, h.enter_any i rfl rfl⟩
  | read i count o => exact ⟨σ, log, h.enter_any i rfl rfl⟩
  | step i =>
      cases hr : m.callers i with
      | none => exact ⟨σ, log, by simpa only [Machine.step, hr] using h⟩
      | some r => simpa only [Machine.step, hr] using h.stepCall hr

theorem run (h : Sim m σ log) (labels : List (Label K)) : ∃ σ' log', Sim (m.run labels) σ' log' := by
  induction labels generalizing m σ log with
  | nil => exact ⟨σ, log, h⟩
  | cons l ls ih =>
      obtain ⟨σ1, log1, h1⟩ := h.step l
      exact ih h1

end Sim

end Aesd.Driver
