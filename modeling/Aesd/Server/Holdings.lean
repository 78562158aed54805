import Aesd.Server.Main

/-!
# What the server holds

What the ledgers hold under one id is the `Holding` of that call of `accept_client`. It goes through a few stages, from
`Holding.fresh` to `Holding.Settled`, and each step of the main thread moves the holding of one id.

* `ServerInv s l` : the worker list has the entries `l`, whose threads were started; everything else is settled, or is
  what the main thread is just building up or taking down;
* `ServerInv.move`, `ServerInv.relink`, `ServerInv.keep` : the three kinds of steps that keep it;
* `ServerInv.mainStep` : every step of the main thread does in which the allocation of an entry and `pthread_create`
  succeed.
-/

namespace Aesd.Server
open Driver Lib

/-! ## What is held under an id -/

@[ext] structure Holding where
  worker : Cell WorkerMem := .absent
  buf : Cell Unit := .absent
  fd : Cell Unit := .absent
  entry : Cell (Option Nat × Nat) := .absent
  thread : Cell Unit := .absent
  exited : Option Bool := none

namespace Holding

def fresh : Holding := {}

def withWorker : Holding := { worker := .live {} }

def withBuf (k : Nat) : Holding := { worker := .live { buf := some k }, buf := .live () }

def withFd (k : Nat) : Holding :=
  { withBuf k with worker := .live { buf := some k, clientFd := some k }, fd := .live () }

def withEntry (k : Nat) : Holding := { withFd k with entry := .live (none, k) }

/-- The thread runs, or has exited and closed the connection. -/
def started (k : Nat) (exited : Bool) : Holding :=
  { withFd k with
    entry := .live (some k, k)
    thread := .live ()
    exited := some exited
    fd := if exited then .dead else .live () }

def joined (k : Nat) : Holding := { started k true with thread := .dead }

/-- Nothing is held: what was handed out was given back, once. -/
structure Settled (h : Holding) : Prop where
  worker : ∀ m, h.worker ≠ .live m
  buf : h.buf ≠ .live ()
  fd : h.fd ≠ .live ()
  entry : ∀ e, h.entry ≠ .live e
  thread : h.thread ≠ .live ()
  exited : h.exited ≠ some false

theorem settled_fresh : fresh.Settled := by
  constructor <;> simp [fresh]

theorem settled_worker : ({ worker := .dead } : Holding).Settled := by
  constructor <;> simp

theorem settled_buf : ({ worker := .dead, buf := .dead } : Holding).Settled := by
  constructor <;> simp

theorem settled_all : (⟨.dead, .dead, .dead, .dead, .dead, some true⟩ : Holding).Settled := by
  constructor <;> simp

theorem Settled.of_eq {h h' : Holding} (hs : h'.Settled) (heq : h = h') : h.Settled := heq ▸ hs

end Holding

def EntryMem.data (e : EntryMem) : Option Nat × Nat := (e.tid, e.worker)

/-- What the ledgers hold under `k`. -/
def AesdServer.holding (s : AesdServer) (k : Nat) : Holding where
  worker := s.workers.cell k
  buf := s.bufs.cell k
  fd := s.fds.cell k
  entry := (s.entries.cell k).map EntryMem.data
  thread := s.threads.cell k
  exited := (s.sys.workers k).map fun w => decide (w.pc = .exited)

/-- The id that the main thread is building up or taking down. -/
def MainPc.current : MainPc → Option Nat
  | .newWorker k | .newBuf k | .accept k | .newEntry k | .insert k => some k
  | .start entry => entry
  | .join _ e _ | .delete _ e _ => some e
  | _ => none

def AesdServer.Called (s : AesdServer) (k : Nat) : Prop := mainThread < k ∧ k < s.calls

theorem called_iff {s s' : AesdServer} (h : s'.calls = s.calls) (k : Nat) : s'.Called k ↔ s.Called k := by
  rw [AesdServer.Called, AesdServer.Called, h]

/-- What the main thread knows at each point, while the list is `l`. -/
def PcInv (s : AesdServer) (l : List Nat) : MainPc → Prop
  | .serverInit | .bind | .listen | .setRunning | .finish | .done | .failed => l = []
  | .loopTest | .acceptClient | .closeServer => True
  | .newWorker k => k ∉ l ∧ s.Called k ∧ s.holding k = .fresh
  | .newBuf k => k ∉ l ∧ s.Called k ∧ s.holding k = .withWorker
  | .accept k => k ∉ l ∧ s.Called k ∧ s.holding k = .withBuf k
  | .newEntry k => k ∉ l ∧ s.Called k ∧ s.holding k = .withFd k
  | .start (some k) => k ∉ l ∧ s.Called k ∧ s.holding k = .withEntry k
  | .start none => False
  | .insert k => k ∉ l ∧ s.Called k ∧ ∃ exited, s.holding k = .started k exited
  | .visit walk p => ∃ kept rest, l = kept ++ rest ∧ p = rest.head? ∧ (walk = .shutdown → kept = [])
  | .remove walk e temp => ∃ kept rest, l = kept ++ e :: rest ∧ temp = rest.head? ∧ (walk = .shutdown → kept = []) ∧
      (walk = .check → s.exited e = true)
  | .join walk e temp => ∃ kept rest, l = kept ++ rest ∧ temp = rest.head? ∧ (walk = .shutdown → kept = []) ∧
      e ∉ l ∧ s.Called e ∧ (∃ exited, s.holding e = .started e exited) ∧ (walk = .check → s.exited e = true)
  | .delete walk e temp => ∃ kept rest, l = kept ++ rest ∧ temp = rest.head? ∧ (walk = .shutdown → kept = []) ∧
      e ∉ l ∧ s.Called e ∧ s.holding e = .joined e

structure ServerInv (s : AesdServer) (l : List Nat) : Prop where
  chain : Slist.Chain s.entries s.head l
  nodup : l.Nodup
  numbers : mainThread < s.calls
  listed : ∀ k ∈ l, s.Called k ∧ ∃ exited, s.holding k = .started k exited
  future : ∀ k, ¬ s.Called k → s.holding k = .fresh
  rest : ∀ k, k ∉ l → s.main.current ≠ some k → (s.holding k).Settled
  pc : PcInv s l s.main

namespace ServerInv
variable {c : Config} {s s' : AesdServer} {l l' : List Nat} {k : Nat}

theorem init (out : Output) : ServerInv (AesdServer.init out) [] where
  chain := rfl
  nodup := List.nodup_nil
  numbers := Nat.zero_lt_one
  listed k hk := by simp at hk
  future k _ := rfl
  rest k _ _ := Holding.settled_fresh
  pc := rfl

theorem pcInv (h : ServerInv s l) {pc : MainPc} (hpc : s.main = pc) : PcInv s l pc := hpc ▸ h.pc

theorem length_le (h : ServerInv s l) : l.length ≤ s.calls := by
  have hsub : l ⊆ List.range s.calls := fun k hk => List.mem_range.mpr (h.listed k hk).1.2
  have := (List.subperm_of_subset h.nodup hsub).length_le
  rwa [List.length_range] at this

theorem list_eq (h : ServerInv s l) : s.list = l := h.chain.walk h.length_le

theorem called_of_worker (h : ServerInv s l) (hw : s.sys.workers k ≠ none) : s.Called k := by
  by_contra hnot
  have hx := congrArg Holding.exited (h.future k hnot)
  simp only [AesdServer.holding, Holding.fresh, Option.map_eq_none_iff] at hx
  exact hw hx

/-- No worker runs in the main thread. -/
theorem no_worker (h : ServerInv s l) : s.sys.workers mainThread = none := by
  by_contra hw
  exact Nat.lt_irrefl _ (h.called_of_worker hw).1

/-- A step that moves the holding of the current id `k` only, and leaves the list as it is. -/
theorem move (h : ServerInv s l) (hcur : s.main.current = some k) (hkl : k ∉ l) (hk : s.Called k)
    (hcalls : s'.calls = s.calls) (hhead : s'.head = s.head) (hentries : ∀ j ≠ k, s'.entries.cell j = s.entries.cell j)
    (hother : ∀ j ≠ k, s'.holding j = s.holding j)
    (hnext : s'.main.current = some k ∨ (s'.holding k).Settled) (hpc : PcInv s' l s'.main) : ServerInv s' l where
  chain := by
    rw [hhead]
    apply h.chain.frame
    intro j hj
    apply hentries
    rintro rfl
    exact hkl hj
  nodup := h.nodup
  numbers := hcalls ▸ h.numbers
  listed j hj := by
    rw [called_iff hcalls, hother j (by rintro rfl; exact hkl hj)]
    exact h.listed j hj
  future j hj := by
    rw [called_iff hcalls] at hj
    rw [hother j (by rintro rfl; exact hj hk)]
    exact h.future j hj
  rest j hj hcj := by
    by_cases hjk : j = k
    · subst hjk
      exact hnext.resolve_left hcj
    · rw [hother j hjk]
      exact h.rest j hj (by rw [hcur]; simpa using Ne.symm hjk)
  pc := hpc

theorem relink (h : ServerInv s l) (hcalls : s'.calls = s.calls) (hsame : ∀ j, s'.holding j = s.holding j)
    (hchain : Slist.Chain s'.entries s'.head l') (hnodup : l'.Nodup)
    (hlisted : ∀ j ∈ l', s.Called j ∧ ∃ exited, s.holding j = .started j exited)
    (hrest : ∀ j ∉ l', s'.main.current ≠ some j → j ∉ l ∧ s.main.current ≠ some j) (hpc : PcInv s' l' s'.main) :
    ServerInv s' l' where
  chain := hchain
  nodup := hnodup
  numbers := hcalls ▸ h.numbers
  listed j hj := by
    rw [called_iff hcalls, hsame j]
    exact hlisted j hj
  future j hj := by
    rw [called_iff hcalls] at hj
    rw [hsame j]
    exact h.future j hj
  rest j hj hcj := by
    rw [hsame j]
    obtain ⟨hjl, hcur⟩ := hrest j hj hcj
    exact h.rest j hjl hcur
  pc := hpc

/-- A step that moves no holding and leaves the list as it is. -/
theorem keep (h : ServerInv s l) (hcalls : s'.calls = s.calls) (hhead : s'.head = s.head)
    (hentries : s'.entries = s.entries) (hsame : ∀ j, s'.holding j = s.holding j)
    (hcur : s'.main.current = s.main.current) (hpc : PcInv s' l s'.main) : ServerInv s' l :=
  h.relink hcalls hsame (by rw [hhead, hentries]; exact h.chain) h.nodup h.listed
    (fun j hj hcj => ⟨hj, by rw [← hcur]; exact hcj⟩) hpc

end ServerInv

/-! ## Steps of the main thread -/

/-- The worker list after a step from here, if it is `l` before. -/
def MainPc.listAfter (l : List Nat) : MainPc → List Nat
  | .insert entry => entry :: l
  | .remove _ entry _ => l.erase entry
  | _ => l

/-- The two calls of `accept_client` behind `accept`: the allocation of a list entry and `pthread_create`. -/
def MainPc.startsWorker : MainPc → Bool
  | .newEntry _ | .start _ => true
  | _ => false

/-- The allocation of a list entry and `pthread_create` succeed. -/
def StartsWorker (s : AesdServer) : Act → Prop
  | .main ok => s.MainRuns → s.main.startsWorker = true → ok = true
  | _ => True

instance (s : AesdServer) : DecidablePred (StartsWorker s)
  | .main ok => inferInstanceAs (Decidable (s.MainRuns → s.main.startsWorker = true → ok = true))
  | .thread _ => .isTrue trivial
  | .signal => .isTrue trivial

theorem entry_of_data {s : AesdServer} {k : Nat} {tid : Option Nat} {worker : Nat}
    (he : (s.entries.cell k).map EntryMem.data = .live (tid, worker)) :
    ∃ e, s.entries.cell k = .live e ∧ e.tid = tid ∧ e.worker = worker := by
  cases hc : s.entries.cell k with
  | absent =>
      rw [hc] at he
      cases he
  | dead =>
      rw [hc] at he
      cases he
  | live e =>
      rw [hc] at he
      cases he
      exact ⟨e, rfl, rfl, rfl⟩

theorem workerDelete_eq {s : AesdServer} {k : Nat} {fd : Option Nat} (hw : s.workers.cell k = .live ⟨some k, fd⟩)
    (hb : s.bufs.cell k = .live ()) :
    s.workerDelete k = .ok { s with bufs := s.bufs.set k .dead, workers := s.workers.set k .dead } := by
  unfold AesdServer.workerDelete
  rw [Ledger.get_eq_some.mpr hw, Ledger.free_of_live hw]
  simp only [deref, giveBack, bind, Except.bind, Ledger.free_of_live hb]

namespace ServerInv
variable {c : Config} {s : AesdServer} {l : List Nat} {k : Nat} {ok : Bool}

theorem startUp (h : ServerInv s l)
    (hpc : s.main = .serverInit ∨ s.main = .bind ∨ s.main = .listen ∨ s.main = .setRunning) :
    ∃ s', s.mainStep c ok = .ok s' ∧ ServerInv s' l := by
  have hl : l = [] := by
    rcases hpc with hpc | hpc | hpc | hpc <;> exact h.pcInv hpc
  subst hl
  have hhead : s.head = none := h.chain
  rcases hpc with hpc | hpc | hpc | hpc
  · refine ⟨{ s with running := false, head := none, main := .bind }, by rw [AesdServer.mainStep, hpc], ?_⟩
    exact h.keep rfl hhead.symm rfl (fun _ => rfl) (by rw [hpc]; rfl) rfl
  · refine ⟨{ s with main := if ok then .listen else .failed }, by rw [AesdServer.mainStep, hpc], ?_⟩
    cases ok <;> exact h.keep rfl rfl rfl (fun _ => rfl) (by rw [hpc]; rfl) rfl
  · refine ⟨{ s with main := if ok then .setRunning else .failed }, by rw [AesdServer.mainStep, hpc], ?_⟩
    cases ok <;> exact h.keep rfl rfl rfl (fun _ => rfl) (by rw [hpc]; rfl) rfl
  · refine ⟨{ s with running := true, main := .loopTest }, by rw [AesdServer.mainStep, hpc], ?_⟩
    exact h.keep rfl rfl rfl (fun _ => rfl) (by rw [hpc]; rfl) trivial

theorem loopTest (h : ServerInv s l) (hpc : s.main = .loopTest) :
    ∃ s', s.mainStep c ok = .ok s' ∧ ServerInv s' l := by
  refine ⟨{ s with main := if s.running then .acceptClient else .closeServer, refused := false },
    by rw [AesdServer.mainStep, hpc], ?_⟩
  split_ifs <;> exact h.keep rfl rfl rfl (fun _ => rfl) (by rw [hpc]; rfl) trivial

theorem acceptClient (h : ServerInv s l) (hpc : s.main = .acceptClient) :
    ∃ s', s.mainStep c ok = .ok s' ∧ ServerInv s' l := by
  have hcur : s.main.current = none := congrArg MainPc.current hpc
  rw [AesdServer.mainStep, hpc]
  have hnew := h.future s.calls fun hk => Nat.lt_irrefl _ hk.2
  have hnot : s.calls ∉ l := fun hmem => absurd (h.listed _ hmem).1.2 (Nat.lt_irrefl _)
  exact ⟨_, rfl, {
    chain := h.chain
    nodup := h.nodup
    numbers := Nat.lt_succ_of_lt h.numbers
    listed := fun j hj => ⟨⟨(h.listed j hj).1.1, Nat.lt_succ_of_lt (h.listed j hj).1.2⟩, (h.listed j hj).2⟩
    future := fun j hj => h.future j fun hk => hj ⟨hk.1, Nat.lt_succ_of_lt hk.2⟩
    rest := fun j hj _ => h.rest j hj (by rw [hcur]; simp)
    pc := ⟨hnot, ⟨h.numbers, Nat.lt_succ_self _⟩, hnew⟩ }⟩

/-- `accept_client` gives up: the holding of its id is settled, and the list is as it was. -/
theorem refused (h : ServerInv s l) (hcur : s.main.current = some k) (hkl : k ∉ l) (hk : s.Called k) {s' : AesdServer}
    (hcalls : s'.calls = s.calls) (hhead : s'.head = s.head) (hentries : s'.entries = s.entries)
    (hother : ∀ j ≠ k, s'.holding j = s.holding j) (hset : (s'.holding k).Settled) : ServerInv s'.refuse l :=
  h.move hcur hkl hk hcalls hhead (fun _ _ => by rw [← hentries]; rfl) hother (Or.inr hset) trivial

theorem newWorker (h : ServerInv s l) (hpc : s.main = .newWorker k) :
    ∃ s', s.mainStep c ok = .ok s' ∧ ServerInv s' l := by
  obtain ⟨hkl, hk, hold⟩ := h.pcInv hpc
  have hcur : s.main.current = some k := congrArg MainPc.current hpc
  obtain ⟨hw, hb, hf, he, ht, hx⟩ := Holding.ext_iff.mp hold
  have hw : s.workers.cell k = .absent := hw
  rw [AesdServer.mainStep, hpc]
  simp only [Ledger.alloc_of_absent hw]
  cases ok with
  | true =>
      refine ⟨_, rfl, h.move hcur hkl hk rfl rfl (fun _ _ => rfl) (fun j hj => ?_) (Or.inl rfl) ⟨hkl, hk, ?_⟩⟩
      · exact Holding.ext (Ledger.cell_set_of_ne _ hj) rfl rfl rfl rfl rfl
      · exact Holding.ext (Ledger.cell_set_self _) hb hf he ht hx
  | false => exact ⟨_, rfl, h.refused hcur hkl hk rfl rfl rfl (fun _ _ => rfl) (hold ▸ Holding.settled_fresh)⟩

theorem newBuf (h : ServerInv s l) (hpc : s.main = .newBuf k) : ∃ s', s.mainStep c ok = .ok s' ∧ ServerInv s' l := by
  obtain ⟨hkl, hk, hold⟩ := h.pcInv hpc
  have hcur : s.main.current = some k := congrArg MainPc.current hpc
  obtain ⟨hw, hb, hf, he, ht, hx⟩ := Holding.ext_iff.mp hold
  have hw : s.workers.cell k = .live {} := hw
  have hb : s.bufs.cell k = .absent := hb
  rw [AesdServer.mainStep, hpc]
  simp only [Ledger.get_eq_some.mpr hw, Ledger.put_of_live hw, Ledger.free_of_live hw, Ledger.alloc_of_absent hb, deref,
    giveBack, bind, Except.bind]
  cases ok with
  | true =>
      refine ⟨_, rfl, h.move hcur hkl hk rfl rfl (fun _ _ => rfl) (fun j hj => ?_) (Or.inl rfl) ⟨hkl, hk, ?_⟩⟩
      · exact Holding.ext (Ledger.cell_set_of_ne _ hj) (Ledger.cell_set_of_ne _ hj) rfl rfl rfl rfl
      · exact Holding.ext (Ledger.cell_set_self _) (Ledger.cell_set_self _) hf he ht hx
  | false =>
      refine ⟨_, rfl, h.refused hcur hkl hk rfl rfl rfl (fun j hj => ?_) ?_⟩
      · exact Holding.ext (Ledger.cell_set_of_ne _ hj) rfl rfl rfl rfl rfl
      · exact Holding.settled_worker.of_eq (Holding.ext (Ledger.cell_set_self _) hb hf he ht hx)

theorem accept (h : ServerInv s l) (hpc : s.main = .accept k) : ∃ s', s.mainStep c ok = .ok s' ∧ ServerInv s' l := by
  obtain ⟨hkl, hk, hold⟩ := h.pcInv hpc
  have hcur : s.main.current = some k := congrArg MainPc.current hpc
  obtain ⟨hw, hb, hf, he, ht, hx⟩ := Holding.ext_iff.mp hold
  have hw : s.workers.cell k = .live { buf := some k } := hw
  have hf : s.fds.cell k = .absent := hf
  rw [AesdServer.mainStep, hpc]
  simp only [Ledger.get_eq_some.mpr hw, Ledger.put_of_live hw, workerDelete_eq hw hb, Ledger.alloc_of_absent hf, deref,
    bind, Except.bind]
  cases ok with
  | true =>
      refine ⟨_, rfl, h.move hcur hkl hk rfl rfl (fun _ _ => rfl) (fun j hj => ?_) (Or.inl rfl) ⟨hkl, hk, ?_⟩⟩
      · exact Holding.ext (Ledger.cell_set_of_ne _ hj) rfl (Ledger.cell_set_of_ne _ hj) rfl rfl rfl
      · exact Holding.ext (Ledger.cell_set_self _) hb (Ledger.cell_set_self _) he ht hx
  | false =>
      refine ⟨_, rfl, h.refused hcur hkl hk rfl rfl rfl (fun j hj => ?_) ?_⟩
      · exact Holding.ext (Ledger.cell_set_of_ne _ hj) (Ledger.cell_set_of_ne _ hj) rfl rfl rfl rfl
      · exact Holding.settled_buf.of_eq
          (Holding.ext (Ledger.cell_set_self _) (Ledger.cell_set_self _) hf he ht hx)

theorem newEntry (h : ServerInv s l) (hpc : s.main = .newEntry k) :
    ∃ s', s.mainStep c true = .ok s' ∧ ServerInv s' l := by
  obtain ⟨hkl, hk, hold⟩ := h.pcInv hpc
  have hcur : s.main.current = some k := congrArg MainPc.current hpc
  obtain ⟨hw, hb, hf, he, ht, hx⟩ := Holding.ext_iff.mp hold
  have habsent : s.entries.cell k = .absent := Cell.map_eq_absent.mp he
  rw [AesdServer.mainStep, hpc]
  simp only [Ledger.alloc_of_absent habsent, if_true]
  refine ⟨_, rfl, h.move hcur hkl hk rfl rfl (fun j hj => Ledger.cell_set_of_ne _ hj) (fun j hj => ?_) (Or.inl rfl)
    ⟨hkl, hk, ?_⟩⟩
  · exact Holding.ext rfl rfl rfl (congrArg (Cell.map EntryMem.data) (Ledger.cell_set_of_ne _ hj)) rfl rfl
  · exact Holding.ext hw hb hf (congrArg (Cell.map EntryMem.data) (Ledger.cell_set_self _)) ht hx

theorem spawn_workers {sys : System} (hw : sys.workers k = none) :
    (sys.step c (.spawn k)).workers = Function.update sys.workers k (some {}) := by
  simp only [System.step, hw]

theorem start (h : ServerInv s l) (hpc : s.main = .start (some k)) :
    ∃ s', s.mainStep c true = .ok s' ∧ ServerInv s' l := by
  obtain ⟨hkl, hk, hold⟩ := h.pcInv hpc
  have hcur : s.main.current = some k := congrArg MainPc.current hpc
  obtain ⟨hw, hb, hf, he, ht, hx⟩ := Holding.ext_iff.mp hold
  obtain ⟨entry, hentry, -, hworker⟩ := entry_of_data he
  have ht : s.threads.cell k = .absent := ht
  have hnone : s.sys.workers k = none := Option.map_eq_none_iff.mp hx
  rw [AesdServer.mainStep, hpc]
  simp only [AesdServer.workerEntryStart, Ledger.get_eq_some.mpr hentry, Ledger.put_of_live hentry, deref, bind,
    Except.bind, if_true, hworker, Ledger.alloc_of_absent ht]
  refine ⟨_, rfl, h.move hcur hkl hk rfl rfl (fun j hj => Ledger.cell_set_of_ne _ hj) (fun j hj => ?_) (Or.inl rfl)
    ⟨hkl, hk, false, ?_⟩⟩
  · refine Holding.ext rfl rfl rfl (congrArg (Cell.map EntryMem.data) (Ledger.cell_set_of_ne _ hj))
      (Ledger.cell_set_of_ne _ hj) ?_
    simp only [AesdServer.holding, spawn_workers hnone, Function.update_of_ne hj]
  · refine Holding.ext hw hb hf (congrArg (Cell.map EntryMem.data) (Ledger.cell_set_self _)) (Ledger.cell_set_self _) ?_
    simp only [AesdServer.holding, spawn_workers hnone, Function.update_self]
    rfl

theorem data_of_sameButLink {h h' : Ledger EntryMem} (hs : Slist.SameButLink h h') (k : Nat) :
    (h'.cell k).map EntryMem.data = (h.cell k).map EntryMem.data := by
  rcases hs k with hsame | ⟨a, p, ha, ha'⟩
  · rw [hsame]
  · rw [ha, ha']
    rfl

theorem exited_of_started {exited : Bool} (hold : s.holding k = .started k exited) : s.exited k = exited := by
  have hx : (s.sys.workers k).map (fun w => decide (w.pc = .exited)) = some exited := congrArg Holding.exited hold
  obtain ⟨w, hw, hpc⟩ := Option.map_eq_some_iff.mp hx
  simpa [AesdServer.exited, hw] using hpc

theorem entry_of_started {exited : Bool} (hold : s.holding k = .started k exited) :
    (∃ e, s.entries.cell k = .live e ∧ e.tid = some k ∧ e.worker = k) ∧
      s.workers.cell k = .live { buf := some k, clientFd := some k } :=
  ⟨entry_of_data (congrArg Holding.entry hold), congrArg Holding.worker hold⟩

theorem insert (h : ServerInv s l) (hpc : s.main = .insert k) :
    ∃ s', s.mainStep c ok = .ok s' ∧ ServerInv s' (k :: l) := by
  obtain ⟨hkl, hk, hold⟩ := h.pcInv hpc
  obtain ⟨exited, hstarted⟩ := hold
  obtain ⟨⟨e, he, -⟩, -⟩ := entry_of_started hstarted
  obtain ⟨entries, hins, hchain, hlink⟩ := h.chain.insertHead he hkl
  rw [AesdServer.mainStep, hpc]
  simp only [hins, deref, bind, Except.bind]
  refine ⟨_, rfl, h.relink rfl (fun j => Holding.ext rfl rfl rfl (data_of_sameButLink hlink j) rfl rfl) hchain
    (List.nodup_cons.mpr ⟨hkl, h.nodup⟩) ?_ ?_ ⟨[], k :: l, rfl, rfl, fun _ => rfl⟩⟩
  · intro j hj
    rcases List.mem_cons.mp hj with rfl | hj
    · exact ⟨hk, exited, hstarted⟩
    · exact h.listed j hj
  · intro j hj _
    rw [List.mem_cons, not_or] at hj
    refine ⟨hj.2, ?_⟩
    rw [hpc]
    simpa [MainPc.current] using Ne.symm hj.1

theorem visitNone (h : ServerInv s l) {walk : Walk} (hpc : s.main = .visit walk none) :
    ∃ s', s.mainStep c ok = .ok s' ∧ ServerInv s' l := by
  obtain ⟨kept, rest, rfl, hp, hkept⟩ := h.pcInv hpc
  rw [AesdServer.mainStep, hpc]
  cases walk with
  | check => exact ⟨_, rfl, h.keep rfl rfl rfl (fun _ => rfl) (by rw [hpc]; rfl) trivial⟩
  | shutdown =>
      have hnil : kept ++ rest = [] := by
        rw [hkept rfl, List.head?_eq_none_iff.mp hp.symm]
        rfl
      exact ⟨_, rfl, h.keep rfl rfl rfl (fun _ => rfl) (by rw [hpc]; rfl) hnil⟩

theorem shutdown_exited (c : Config) (sys : System) (k j : Nat) :
    ((sys.step c (.shutdown k)).workers j).map (fun w => decide (w.pc = .exited)) =
      (sys.workers j).map fun w => decide (w.pc = .exited) := by
  cases hw : sys.workers k with
  | none => simp only [System.step, hw]
  | some w =>
      simp only [System.step, hw]
      by_cases hj : j = k
      · subst hj
        simp [hw]
      · rw [Function.update_of_ne hj]

theorem next {kept rest : List Nat} {e : Nat} (h : ServerInv s (kept ++ e :: rest)) {entry : EntryMem}
    (hentry : s.entries.cell e = .live entry) : entry.next = rest.head? := by
  obtain ⟨entry', hentry', hnext⟩ := h.chain.next
  rw [hentry] at hentry'
  cases hentry'
  exact hnext

/-- The search in `SLIST_REMOVE` comes to the entry. -/
theorem unlinks {kept rest : List Nat} {e : Nat} (h : ServerInv s (kept ++ e :: rest)) :
    ∃ entries head, Slist.remove s.entries s.calls s.head e = some (entries, head) ∧
      Slist.Chain entries head (kept ++ rest) ∧ Slist.SameButLink s.entries entries := by
  have hlen : kept.length ≤ s.calls := by
    have := h.length_le
    rw [List.length_append] at this
    omega
  obtain ⟨entries, head, hrem, hchain, hlink, -⟩ := h.chain.remove h.nodup hlen
  exact ⟨entries, head, hrem, hchain, hlink⟩

/-- The entry that is visited, and the rest of the list behind it. -/
theorem visited (h : ServerInv s l) {walk : Walk} {e : Nat} (hpc : s.main = .visit walk (some e)) :
    ∃ kept rest, l = kept ++ e :: rest ∧ (walk = .shutdown → kept = []) ∧
      (∃ entry, s.entries.cell e = .live entry ∧ entry.worker = e ∧ entry.next = rest.head?) ∧
      s.workers.cell e = .live { buf := some e, clientFd := some e } := by
  obtain ⟨kept, rest, rfl, hp, hkept⟩ := h.pcInv hpc
  obtain ⟨rest, rfl⟩ : ∃ rest', rest = e :: rest' := by
    cases rest with
    | nil => cases hp
    | cons x rest =>
        cases hp
        exact ⟨rest, rfl⟩
  obtain ⟨-, exited, hold⟩ := h.listed e (by simp)
  obtain ⟨⟨entry, hentry, -, hworker⟩, hw⟩ := entry_of_started hold
  exact ⟨kept, rest, rfl, hkept, ⟨entry, hentry, hworker, h.next hentry⟩, hw⟩

theorem visitSome (h : ServerInv s l) {walk : Walk} {e : Nat} (hpc : s.main = .visit walk (some e)) :
    ∃ s', s.mainStep c ok = .ok s' ∧ ServerInv s' l := by
  obtain ⟨kept, rest, rfl, hkept, ⟨entry, hentry, hworker, hnext⟩, hw⟩ := h.visited hpc
  rw [AesdServer.mainStep, hpc]
  simp only [AesdServer.visitEntry, Ledger.get_eq_some.mpr hentry, hworker, Ledger.get_eq_some.mpr hw, deref, bind,
    Except.bind, hnext]
  cases walk with
  | check =>
      cases hx : s.exited e with
      | true =>
          exact ⟨_, rfl, h.keep rfl rfl rfl (fun _ => rfl) (by rw [hpc]; rfl)
            ⟨kept, rest, rfl, rfl, hkept, fun _ => hx⟩⟩
      | false =>
          exact ⟨_, rfl, h.keep rfl rfl rfl (fun _ => rfl) (by rw [hpc]; rfl)
            ⟨kept ++ [e], rest, by simp, rfl, fun hc => by cases hc⟩⟩
  | shutdown =>
      exact ⟨_, rfl, h.keep rfl rfl rfl (fun j => Holding.ext rfl rfl rfl rfl rfl (shutdown_exited c s.sys e j))
        (by rw [hpc]; rfl) ⟨kept, rest, rfl, rfl, hkept, fun hc => by cases hc⟩⟩

theorem erase_visited {kept rest : List Nat} {e : Nat} (h : (kept ++ e :: rest).Nodup) :
    (kept ++ e :: rest).erase e = kept ++ rest := by
  have hnot : e ∉ kept := fun hmem => (List.nodup_append.mp h).2.2 e hmem e (by simp) rfl
  rw [List.erase_append_right _ hnot, List.erase_cons_head]

theorem remove (h : ServerInv s l) {walk : Walk} {e : Nat} {temp : Option Nat} (hpc : s.main = .remove walk e temp) :
    ∃ s', s.mainStep c ok = .ok s' ∧ ServerInv s' (l.erase e) := by
  obtain ⟨kept, rest, rfl, htemp, hkept, hx⟩ := h.pcInv hpc
  obtain ⟨entries, head, hrem, hchain, hlink⟩ := h.unlinks
  obtain ⟨hek, hold⟩ := h.listed e (by simp)
  have hnot : e ∉ kept ++ rest := by
    have := h.nodup
    rw [List.nodup_middle, List.nodup_cons] at this
    exact this.1
  rw [AesdServer.mainStep, hpc, erase_visited h.nodup]
  simp only [hrem, deref, bind, Except.bind]
  have hsame : ∀ j, ({ s with entries := entries, head := head, main := .join walk e temp } : AesdServer).holding j =
      s.holding j := fun j => Holding.ext rfl rfl rfl (data_of_sameButLink hlink j) rfl rfl
  refine ⟨_, rfl, h.relink rfl hsame hchain ?_ ?_ ?_ ?_⟩
  · have := h.nodup
    rw [List.nodup_middle, List.nodup_cons] at this
    exact this.2
  · intro j hj
    apply h.listed
    rw [List.mem_append] at hj
    simp only [List.mem_append, List.mem_cons]
    rcases hj with hj | hj
    · exact Or.inl hj
    · exact Or.inr (Or.inr hj)
  · intro j hj hcj
    refine ⟨?_, by rw [hpc]; simp [MainPc.current]⟩
    have hje : j ≠ e := by
      rintro rfl
      exact hcj rfl
    simp only [List.mem_append, List.mem_cons, not_or] at hj ⊢
    exact ⟨hj.1, hje, hj.2⟩
  · obtain ⟨exited, hstarted⟩ := hold
    exact ⟨kept, rest, rfl, htemp, hkept, hnot, hek, ⟨exited, (hsame e).trans hstarted⟩, hx⟩

/-- The main thread joins the thread of the entry it has removed. -/
theorem joins (h : ServerInv s l) {walk : Walk} {e tid : Nat} {temp : Option Nat} {entry : EntryMem}
    (hpc : s.main = .join walk e temp) (hentry : s.entries.cell e = .live entry) (htid : entry.tid = some tid) :
    tid = e := by
  obtain ⟨kept, rest, -, -, -, -, -, ⟨exited, hold⟩, -⟩ := h.pcInv hpc
  obtain ⟨⟨entry', hentry', htid', -⟩, -⟩ := entry_of_started hold
  rw [hentry] at hentry'
  cases hentry'
  rw [htid] at htid'
  exact Option.some.inj htid'

theorem join (h : ServerInv s l) {walk : Walk} {e : Nat} {temp : Option Nat} (hpc : s.main = .join walk e temp) :
    ∃ s', s.mainStep c ok = .ok s' ∧ ServerInv s' l := by
  obtain ⟨kept, rest, hl, htemp, hkept, hnot, hek, ⟨exited, hold⟩, -⟩ := h.pcInv hpc
  obtain ⟨⟨entry, hentry, htid, -⟩, -⟩ := entry_of_started hold
  have hthread : s.threads.cell e = .live () := congrArg Holding.thread hold
  rw [AesdServer.mainStep, hpc]
  simp only [Ledger.get_eq_some.mpr hentry, htid, deref, giveBack, bind, Except.bind, exited_of_started hold,
    Ledger.free_of_live hthread]
  cases exited with
  | false => exact ⟨s, rfl, h⟩
  | true =>
      obtain ⟨hw, hb, hf, he, ht, hx⟩ := Holding.ext_iff.mp hold
      refine ⟨_, rfl, h.move (by rw [hpc]; rfl) hnot hek rfl rfl (fun _ _ => rfl) (fun j hj => ?_) (Or.inl rfl)
        ⟨kept, rest, hl, htemp, hkept, hnot, hek, ?_⟩⟩
      · exact Holding.ext rfl rfl rfl rfl (Ledger.cell_set_of_ne _ hj) rfl
      · exact Holding.ext hw hb hf he (Ledger.cell_set_self _) hx

theorem delete (h : ServerInv s l) {walk : Walk} {e : Nat} {temp : Option Nat} (hpc : s.main = .delete walk e temp) :
    ∃ s', s.mainStep c ok = .ok s' ∧ ServerInv s' l := by
  obtain ⟨kept, rest, hl, htemp, hkept, hnot, hek, hold⟩ := h.pcInv hpc
  obtain ⟨hw, hb, hf, he, ht, hx⟩ := Holding.ext_iff.mp hold
  obtain ⟨entry, hentry, -, hworker⟩ := entry_of_data he
  rw [AesdServer.mainStep, hpc]
  simp only [AesdServer.workerEntryDelete, Ledger.get_eq_some.mpr hentry, hworker, workerDelete_eq hw hb,
    Ledger.free_of_live hentry, deref, giveBack, bind, Except.bind]
  refine ⟨_, rfl, h.move (by rw [hpc]; rfl) hnot hek rfl rfl (fun j hj => Ledger.cell_set_of_ne _ hj) (fun j hj => ?_)
    (Or.inr ?_) ⟨kept, rest, hl, htemp, hkept⟩⟩
  · exact Holding.ext (Ledger.cell_set_of_ne _ hj) (Ledger.cell_set_of_ne _ hj) rfl
      (congrArg (Cell.map EntryMem.data) (Ledger.cell_set_of_ne _ hj)) rfl rfl
  · exact Holding.settled_all.of_eq (Holding.ext (Ledger.cell_set_self _) (Ledger.cell_set_self _) hf
      (congrArg (Cell.map EntryMem.data) (Ledger.cell_set_self _)) ht hx)

/-- **Every step of the main thread** in which the allocation of the entry and `pthread_create` succeed. -/
theorem mainStep (h : ServerInv s l) (hs : s.main.startsWorker = true → ok = true) :
    ∃ s', s.mainStep c ok = .ok s' ∧ ServerInv s' (s.main.listAfter l) := by
  obtain ⟨pc, hpc⟩ : ∃ pc, s.main = pc := ⟨_, rfl⟩
  have hs : pc.startsWorker = true → ok = true := hpc ▸ hs
  rw [congrArg (MainPc.listAfter l) hpc]
  cases pc with
  | serverInit => exact h.startUp (Or.inl hpc)
  | bind => exact h.startUp (Or.inr (Or.inl hpc))
  | listen => exact h.startUp (Or.inr (Or.inr (Or.inl hpc)))
  | setRunning => exact h.startUp (Or.inr (Or.inr (Or.inr hpc)))
  | loopTest => exact h.loopTest hpc
  | acceptClient => exact h.acceptClient hpc
  | newWorker k => exact h.newWorker hpc
  | newBuf k => exact h.newBuf hpc
  | accept k => exact h.accept hpc
  | newEntry k =>
      obtain rfl : ok = true := hs rfl
      exact h.newEntry hpc
  | start entry =>
      obtain rfl : ok = true := hs rfl
      cases entry with
      | none => exact (h.pcInv hpc).elim
      | some k => exact h.start hpc
  | insert k => exact h.insert hpc
  | closeServer =>
      refine ⟨{ s with main := .visit .shutdown s.head }, by rw [AesdServer.mainStep, hpc], ?_⟩
      exact h.keep rfl rfl rfl (fun _ => rfl) (by rw [hpc]; rfl) ⟨[], l, rfl, h.chain.head, fun _ => rfl⟩
  | visit walk p =>
      cases p with
      | none => exact h.visitNone hpc
      | some e => exact h.visitSome hpc
  | remove walk e temp => exact h.remove hpc
  | join walk e temp => exact h.join hpc
  | delete walk e temp => exact h.delete hpc
  | finish =>
      have hl : l = [] := h.pcInv hpc
      refine ⟨{ s with main := .done }, by rw [AesdServer.mainStep, hpc], ?_⟩
      exact h.keep rfl rfl rfl (fun _ => rfl) (by rw [hpc]; rfl) hl
  | done => exact ⟨s, by rw [AesdServer.mainStep, hpc], h⟩
  | failed => exact ⟨s, by rw [AesdServer.mainStep, hpc], h⟩

end ServerInv

end Aesd.Server
