import Aesd.Server.Signals

/-!
# The two loops over the worker list

* `Event`, `AesdServer.events`, `AesdServer.log` : what the main thread does to the list while it walks over it;
* `trace` : what a visit of one entry leads to, `survivors` : the entries that are left behind;
* `Walking` : the loop in the middle, with the entries it has visited and those it has not;
* `Walking.step`, `Walking.run` : every step of the server keeps this, whenever the workers exit;
* `reaping_keeps_rest` : what both loops have done when they end.
-/

namespace Aesd.Server
open Driver Lib

/-- An entry is visited and taken out or not, unlinked, joined, deleted. -/
inductive Event where
  | visit (entry : Nat) (taken : Bool)
  | unlink (entry : Nat)
  | join (entry : Nat)
  | delete (entry : Nat)
deriving DecidableEq, Repr

namespace AesdServer

/-- What the main thread does to the list. `check_workers` takes out an entry when it reads `entry->worker->exited` as
true, and `srv_shutdown` takes out each. A join is one when `pthread_join` returns. -/
def mainEvents (s : AesdServer) : List Event :=
  match s.main with
  | .visit .check (some e) => [.visit e ((s.entries.get e).any fun self => s.exited self.worker)]
  | .visit .shutdown (some e) => [.visit e true]
  | .remove _ e _ => [.unlink e]
  | .join _ e _ => if (s.entries.get e).any fun self => self.tid.any s.exited then [.join e] else []
  | .delete _ e _ => [.delete e]
  | _ => []

def events (s : AesdServer) (act : Act) : List Event := if MainActs s act then s.mainEvents else []

def log (c : Config) : AesdServer → List Act → List Event
  | _, [] => []
  | s, act :: acts => s.events act ++ log c (s.step c act) acts

def mainTurns (c : Config) : AesdServer → List Act → Nat
  | _, [] => 0
  | s, act :: acts => (if MainActs s act then 1 else 0) + mainTurns c (s.step c act) acts

end AesdServer

def MainPc.inLoop (walk : Walk) : MainPc → Bool
  | .visit w (some _) | .remove w _ _ | .join w _ _ | .delete w _ _ => decide (w = walk)
  | _ => false

/-! ## The loop in the middle -/

/-- What follows when an entry is visited. -/
def trace (v : Nat × Bool) : List Event :=
  if v.2 then [.visit v.1 true, .unlink v.1, .join v.1, .delete v.1] else [.visit v.1 false]

/-- The visited entries that were not taken out, in their order. -/
def survivors (visited : List (Nat × Bool)) : List Nat := (visited.filter fun v => !v.2).map Prod.fst

/-- The loop over the list `l₀` has visited `visited`, with the events `log`, and the list is `l` now. -/
inductive Walking (walk : Walk) (l₀ l : List Nat) : List Event → MainPc → Prop
  | visit (visited : List (Nat × Bool)) (rest : List Nat) (hall : walk = .shutdown → ∀ v ∈ visited, v.2 = true)
      (hl₀ : l₀ = visited.map Prod.fst ++ rest) (hl : l = survivors visited ++ rest) :
      Walking walk l₀ l (visited.flatMap trace) (.visit walk rest.head?)
  | remove (visited : List (Nat × Bool)) (e : Nat) (rest : List Nat)
      (hall : walk = .shutdown → ∀ v ∈ visited, v.2 = true) (hl₀ : l₀ = visited.map Prod.fst ++ e :: rest)
      (hl : l = survivors visited ++ e :: rest) :
      Walking walk l₀ l (visited.flatMap trace ++ [.visit e true]) (.remove walk e rest.head?)
  | join (visited : List (Nat × Bool)) (e : Nat) (rest : List Nat)
      (hall : walk = .shutdown → ∀ v ∈ visited, v.2 = true) (hl₀ : l₀ = visited.map Prod.fst ++ e :: rest)
      (hl : l = survivors visited ++ rest) :
      Walking walk l₀ l (visited.flatMap trace ++ [.visit e true, .unlink e]) (.join walk e rest.head?)
  | delete (visited : List (Nat × Bool)) (e : Nat) (rest : List Nat)
      (hall : walk = .shutdown → ∀ v ∈ visited, v.2 = true) (hl₀ : l₀ = visited.map Prod.fst ++ e :: rest)
      (hl : l = survivors visited ++ rest) :
      Walking walk l₀ l (visited.flatMap trace ++ [.visit e true, .unlink e, .join e]) (.delete walk e rest.head?)

section Events
variable {s : AesdServer} {l : List Nat} {walk : Walk} {e : Nat} {temp : Option Nat}

/-- The flag that is read is the one of the worker of this entry. -/
theorem events_visit (hpc : s.main = .visit walk (some e)) {entry : EntryMem}
    (hentry : s.entries.cell e = .live entry) :
    s.mainEvents = [.visit e (decide (walk = .shutdown ∨ s.exited entry.worker = true))] := by
  have hget := Ledger.get_eq_some.mpr hentry
  cases walk with
  | check => simp [AesdServer.mainEvents, hpc, hget]
  | shutdown => simp [AesdServer.mainEvents, hpc]

theorem events_join (h : ServerInv s l) (hpc : s.main = .join walk e temp) :
    s.mainEvents = if s.exited e then [.join e] else [] := by
  obtain ⟨kept, rest, -, -, -, -, -, ⟨exited, hold⟩, -⟩ := h.pcInv hpc
  obtain ⟨⟨entry, hentry, htid, -⟩, -⟩ := ServerInv.entry_of_started hold
  have hget := Ledger.get_eq_some.mpr hentry
  simp [AesdServer.mainEvents, hpc, hget, htid]

end Events

namespace Walking
variable {c : Config} {s : AesdServer} {walk : Walk} {l₀ l : List Nat} {log : List Event}

theorem startsWorker (hw : Walking walk l₀ l log s.main) (act : Act) : StartsWorker s act := by
  cases act with
  | main ok =>
      intro _ hpc
      generalize s.main = pc at hw hpc
      cases hw <;> cases hpc
  | thread lab => trivial
  | signal => trivial

theorem survivors_concat (visited : List (Nat × Bool)) (e : Nat) (taken : Bool) :
    survivors (visited ++ [(e, taken)]) = survivors visited ++ if taken then [] else [e] := by
  cases taken <;> simp [survivors]

theorem pass {visited : List (Nat × Bool)} {e : Nat} {rest : List Nat} (hs : walk ≠ .shutdown)
    (hl₀ : l₀ = visited.map Prod.fst ++ e :: rest) (hl : l = survivors visited ++ e :: rest) :
    Walking walk l₀ l (visited.flatMap trace ++ [.visit e false]) (.visit walk rest.head?) := by
  have hlog : visited.flatMap trace ++ [.visit e false] = (visited ++ [(e, false)]).flatMap trace := by
    simp [trace]
  rw [hlog]
  refine .visit (visited ++ [(e, false)]) rest (fun h => absurd h hs) ?_ ?_
  · simp [hl₀]
  · simp [hl, survivors_concat]

theorem take {visited : List (Nat × Bool)} {e : Nat} {rest : List Nat}
    (hall : walk = .shutdown → ∀ v ∈ visited, v.2 = true) (hl₀ : l₀ = visited.map Prod.fst ++ e :: rest)
    (hl : l = survivors visited ++ rest) :
    Walking walk l₀ l (visited.flatMap trace ++ [.visit e true, .unlink e, .join e, .delete e])
      (.visit walk rest.head?) := by
  have hlog : visited.flatMap trace ++ [.visit e true, .unlink e, .join e, .delete e] =
      (visited ++ [(e, true)]).flatMap trace := by simp [trace]
  rw [hlog]
  refine .visit (visited ++ [(e, true)]) rest (fun hs v hv => ?_) ?_ ?_
  · rw [List.mem_append, List.mem_singleton] at hv
    rcases hv with hv | rfl
    · exact hall hs v hv
    · rfl
  · simp [hl₀]
  · simp [hl, survivors_concat]

/-- **A step of the main thread in the loop.** -/
theorem mainStep {s' : AesdServer} (h : ServerInv s l) (hw : Walking walk l₀ l log s.main)
    (hin : s.main.inLoop walk = true) (ht : MainTrans c s s') :
    Walking walk l₀ (s.main.listAfter l) (log ++ s.mainEvents) s'.main := by
  obtain ⟨pc, hpc⟩ : ∃ pc, s.main = pc := ⟨_, rfl⟩
  rw [hpc] at hw hin
  rw [congrArg (MainPc.listAfter l) hpc]
  cases hw with
  | visit visited rest hall hl₀ hl =>
      cases rest with
      | nil => cases hin
      | cons e rest =>
          obtain ⟨entry, hentry, hnext⟩ := ht.visit_next hpc
          rw [hl] at h
          rw [events_visit hpc hentry, hnext, h.next hentry]
          by_cases htake : walk = .shutdown ∨ s.exited entry.worker = true
          · rw [if_pos htake, decide_eq_true htake]
            exact .remove visited e rest hall hl₀ hl
          · rw [if_neg htake, decide_eq_false htake]
            exact pass (fun hs => htake (Or.inl hs)) hl₀ hl
  | remove visited e rest hall hl₀ hl =>
      have hevents : s.mainEvents = [.unlink e] := by simp [AesdServer.mainEvents, hpc]
      rw [(ht.remove_next hpc).1, hevents, List.append_assoc]
      refine .join visited e rest hall hl₀ ?_
      have hnodup := h.nodup
      rw [hl] at hnodup
      rw [MainPc.listAfter, hl, ServerInv.erase_visited hnodup]
  | join visited e rest hall hl₀ hl =>
      rw [events_join h hpc]
      obtain ⟨entry, tid, hentry, htid, -, hnext⟩ := ht.join_next hpc
      rw [h.joins hpc hentry htid] at hnext
      rw [hnext]
      split_ifs
      · rw [List.append_assoc]
        exact .delete visited e rest hall hl₀ hl
      · rw [List.append_nil]
        exact .join visited e rest hall hl₀ hl
  | delete visited e rest hall hl₀ hl =>
      have hevents : s.mainEvents = [.delete e] := by simp [AesdServer.mainEvents, hpc]
      rw [(ht.delete_next hpc).1, hevents, List.append_assoc]
      exact take hall hl₀ hl

theorem step (h : ServerInv s l) (hcrash : s.crash = none) (hw : Walking walk l₀ l log s.main)
    (hin : s.main.inLoop walk = true) (act : Act) :
    ∃ l', ServerInv (s.step c act) l' ∧ (s.step c act).crash = none ∧
      Walking walk l₀ l' (log ++ s.events act) (s.step c act).main := by
  have ht : ServerStep c s l act (s.step c act) := h.step hcrash (hw.startsWorker act)
  generalize s.step c act = s' at ht
  have hidle : ¬ MainActs s act → Walking walk l₀ l (log ++ s.events act) s.main := by
    intro hidle
    rwa [AesdServer.events, if_neg hidle, List.append_nil]
  cases ht with
  | main ok s' hruns hstep ht h' =>
      have hacts : MainActs s (.main ok) := ⟨rfl, hruns⟩
      rw [AesdServer.events, if_pos hacts]
      exact ⟨_, h', ht.crash.trans hcrash, mainStep h hw hin ht⟩
  | held ok hheld => exact ⟨l, h, hcrash, hidle fun hacts => hheld hacts.2⟩
  | thread lab sys fds ht h' => exact ⟨l, h', hcrash, hidle fun hacts => by cases hacts.1⟩
  | signal h' => exact ⟨l, h', hcrash, hidle fun hacts => by cases hacts.1⟩

theorem run (h : ServerInv s l) (hcrash : s.crash = none) (hw : Walking walk l₀ l log s.main) {acts : List Act}
    (hin : Along (AesdServer.step c) (fun s _ => s.main.inLoop walk = true) s acts) :
    ∃ l', ServerInv (Lib.run (AesdServer.step c) s acts) l' ∧ (Lib.run (AesdServer.step c) s acts).crash = none ∧
      Walking walk l₀ l' (log ++ s.log c acts) (Lib.run (AesdServer.step c) s acts).main := by
  induction acts generalizing s l log with
  | nil =>
      refine ⟨l, h, hcrash, ?_⟩
      show Walking walk l₀ l (log ++ []) s.main
      rwa [List.append_nil]
  | cons act acts ih =>
      obtain ⟨l1, h1, hcrash1, hw1⟩ := step (c := c) h hcrash hw hin.1 act
      obtain ⟨l', h', hcrash', hw'⟩ := ih h1 hcrash1 hw1 hin.2
      refine ⟨l', h', hcrash', ?_⟩
      rw [AesdServer.log, ← List.append_assoc]
      exact hw'

theorem length_flatMap_trace (visited : List (Nat × Bool)) : (visited.flatMap trace).length ≤ 4 * visited.length := by
  induction visited with
  | nil => exact Nat.le_refl _
  | cons v visited ih =>
      have hv : (trace v).length ≤ 4 := by
        unfold trace
        split_ifs <;> simp
      rw [List.flatMap_cons, List.length_append, List.length_cons]
      omega

/-- A visit is followed by at most three more events. -/
theorem length_log (hw : Walking walk l₀ l log s.main) : log.length ≤ 4 * l₀.length := by
  generalize s.main = pc at hw
  cases hw with
  | visit visited rest hall hl₀ hl =>
      have hlen := length_flatMap_trace visited
      simp only [hl₀, List.length_append, List.length_map]
      omega
  | remove visited e rest hall hl₀ hl =>
      have hlen := length_flatMap_trace visited
      simp only [hl₀, List.length_append, List.length_map, List.length_cons, List.length_nil]
      omega
  | join visited e rest hall hl₀ hl =>
      have hlen := length_flatMap_trace visited
      simp only [hl₀, List.length_append, List.length_map, List.length_cons, List.length_nil]
      omega
  | delete visited e rest hall hl₀ hl =>
      have hlen := length_flatMap_trace visited
      simp only [hl₀, List.length_append, List.length_map, List.length_cons, List.length_nil]
      omega

end Walking

/-! ## `check_workers` does not wait -/

section Check
variable {c : Config} {s : AesdServer} {l : List Nat}

/-- In `check_workers` every step of the main thread is an event: it joins only threads that have exited. -/
theorem length_events (h : ServerInv s l) (hin : s.main.inLoop .check = true) (act : Act) :
    (s.events act).length = if MainActs s act then 1 else 0 := by
  rw [AesdServer.events]
  split_ifs
  · obtain ⟨pc, hpc⟩ : ∃ pc, s.main = pc := ⟨_, rfl⟩
    rw [hpc] at hin
    cases pc with
    | visit walk p =>
        cases p with
        | none => cases hin
        | some e =>
            obtain rfl : walk = .check := of_decide_eq_true hin
            simp [AesdServer.mainEvents, hpc]
    | remove walk e temp => simp [AesdServer.mainEvents, hpc]
    | join walk e temp =>
        obtain rfl : walk = .check := of_decide_eq_true hin
        obtain ⟨kept, rest, -, -, -, -, -, -, hx⟩ := h.pcInv hpc
        rw [events_join h hpc, if_pos (hx rfl)]
        rfl
    | delete walk e temp => simp [AesdServer.mainEvents, hpc]
    | _ => cases hin
  · rfl

theorem length_log_check {l₀ : List Nat} {log : List Event} (h : ServerInv s l) (hcrash : s.crash = none)
    (hw : Walking .check l₀ l log s.main) {acts : List Act}
    (hin : Along (AesdServer.step c) (fun s _ => s.main.inLoop .check = true) s acts) :
    (s.log c acts).length = s.mainTurns c acts := by
  induction acts generalizing s l log with
  | nil => rfl
  | cons act acts ih =>
      obtain ⟨l1, h1, hcrash1, hw1⟩ := Walking.step (c := c) h hcrash hw hin.1 act
      rw [AesdServer.log, List.length_append, length_events h hin.1, ih h1 hcrash1 hw1 hin.2, AesdServer.mainTurns]

end Check

/-! ## What a loop has done -/

/-- The main thread uses no pointer in the loop that it may not: the entry it visits is allocated, with its worker, and
the search in `SLIST_REMOVE` comes to the entry it looks for. -/
structure LoopSafe (walk : Walk) (s : AesdServer) : Prop where
  crash : s.crash = none
  live : ∀ e, s.main = .visit walk (some e) →
    ∃ entry worker, s.entries.cell e = .live entry ∧ s.workers.cell entry.worker = .live worker
  found : ∀ e temp, s.main = .remove walk e temp → (Slist.remove s.entries s.calls s.head e).isSome = true

/-- The loop is over: from `s`, with these events, to `s'`. Each entry was visited once, in the order of the list. -/
structure Swept (walk : Walk) (s s' : AesdServer) (log : List Event) (visited : List (Nat × Bool)) : Prop where
  nodup : s.list.Nodup
  order : visited.map Prod.fst = s.list
  events : log = visited.flatMap trace
  -- those whose flag was read as false are what is left of the list
  left : s'.list = survivors visited
  -- the worker, buffer, connection, thread and entry of the others were given back
  settled : ∀ v ∈ visited, v.2 = true → (s'.holding v.1).Settled
  shutdown : walk = .shutdown → (∀ v ∈ visited, v.2 = true) ∧ s'.list = []

section Loops
variable {s : AesdServer} {l : List Nat} {walk : Walk}

theorem ServerInv.loopSafe (h : ServerInv s l) (hcrash : s.crash = none) : LoopSafe walk s where
  crash := hcrash
  live e hpc := by
    obtain ⟨kept, rest, -, -, ⟨entry, hentry, hworker, -⟩, hw⟩ := h.visited hpc
    exact ⟨entry, _, hentry, hworker.symm ▸ hw⟩
  found e temp hpc := by
    obtain ⟨kept, rest, rfl, -⟩ := h.pcInv hpc
    obtain ⟨entries, head, hrem, -⟩ := h.unlinks
    rw [hrem]
    rfl

theorem mem_survivors {visited : List (Nat × Bool)} {k : Nat} : k ∈ survivors visited ↔ (k, false) ∈ visited := by
  simp [survivors]

theorem Walking.swept {s' : AesdServer} {l' : List Nat} {log : List Event} (h : ServerInv s l) (h' : ServerInv s' l')
    (hw : Walking walk l l' log s'.main) (hend : s'.main = .visit walk none) : ∃ visited, Swept walk s s' log visited := by
  have hcur : s'.main.current = none := congrArg MainPc.current hend
  rw [hend] at hw
  generalize hp : (none : Option Nat) = p at hw
  cases hw with
  | visit visited rest hall hl₀ hl =>
      obtain rfl : rest = [] := List.head?_eq_none_iff.mp hp.symm
      rw [List.append_nil] at hl₀ hl
      have hnodup : (visited.map Prod.fst).Nodup := hl₀ ▸ h.nodup
      refine ⟨visited, h.list_eq ▸ h.nodup, by rw [h.list_eq, hl₀], rfl, by rw [h'.list_eq, hl], ?_, ?_⟩
      · rintro ⟨k, taken⟩ hv (rfl : taken = true)
        refine h'.rest k (fun hk => ?_) (by simp [hcur])
        -- the entry was visited once, so it was not also left
        rw [hl, mem_survivors] at hk
        have := List.inj_on_of_nodup_map hnodup hv hk rfl
        simp at this
      · intro hs
        refine ⟨hall hs, ?_⟩
        rw [h'.list_eq, hl, List.eq_nil_iff_forall_not_mem]
        intro k hk
        have := hall hs _ (mem_survivors.mp hk)
        simp at this

end Loops

/-- **Reaping keeps the rest of the list**: from every state in which a loop over the list starts, of whatever length the
list is, and for every interleaving with the workers, which may exit between any two steps. The loop of `check_workers`
ends, after at most four steps for each entry. -/
theorem reaping_keeps_rest (c : Config) (out : Output) (acts more : List Act) (walk : Walk)
    (hcrash : (AesdServer.reach c out acts).crash = none)
    (hpc : (AesdServer.reach c out acts).main = .visit walk (AesdServer.reach c out acts).head)
    (hin : Along (AesdServer.step c) (fun s _ => s.main.inLoop walk = true) (AesdServer.reach c out acts) more) :
    LoopSafe walk (AesdServer.reach c out (acts ++ more)) ∧
      (walk = .check → (AesdServer.reach c out acts).mainTurns c more ≤ 4 * (AesdServer.reach c out acts).list.length) ∧
        ((AesdServer.reach c out (acts ++ more)).main = .visit walk none →
          ∃ visited, Swept walk (AesdServer.reach c out acts) (AesdServer.reach c out (acts ++ more))
            ((AesdServer.reach c out acts).log c more) visited) := by
  have hsound : Sound (AesdServer.reach c out acts) := by
    have ha : Along (AesdServer.step c) StartsWorker (AesdServer.init out) acts := by
      apply along_of_not_doomed
      simp [Doomed, hcrash, hpc]
    exact ha.invariant (fun _ _ h hs => h.step hs) (.init out)
  have hreach : AesdServer.reach c out (acts ++ more) =
      run (AesdServer.step c) (AesdServer.reach c out acts) more := run_append ..
  rw [hreach]
  generalize AesdServer.reach c out acts = s at hcrash hpc hin hsound
  obtain ⟨l, h⟩ := hsound.inv
  have hstart : Walking walk l l [] s.main := by
    rw [hpc, h.chain.head]
    exact .visit [] l (by simp) rfl rfl
  obtain ⟨l', h', hcrash', hw⟩ := hstart.run h hcrash hin
  rw [List.nil_append] at hw
  refine ⟨h'.loopSafe hcrash', fun hcheck => ?_, fun hend => hw.swept h h' hend⟩
  subst hcheck
  rw [h.list_eq, ← length_log_check h hcrash hstart hin]
  exact hw.length_log

/-- The first of two clients is being served, and the loop of `check_workers` starts. -/
def firstServed : List Act := mainSteps 14 ++ threadSteps 1 7 ++ mainSteps 8

/-- The worker of the first client, which is the last in the list, exits after the first visit. -/
def exitsMeanwhile : List Act := mainSteps 1 ++ threadSteps 1 1 ++ mainSteps 4

theorem reaping_keeps_rest_exits_meanwhile :
    ((AesdServer.reach .aesdsocket (.file []) firstServed).list = [2, 1] ∧
      (AesdServer.reach .aesdsocket (.file []) (firstServed ++ exitsMeanwhile)).list = [2]) ∧
    ∃ visited, Swept .check (AesdServer.reach .aesdsocket (.file []) firstServed)
      (AesdServer.reach .aesdsocket (.file []) (firstServed ++ exitsMeanwhile))
      ((AesdServer.reach .aesdsocket (.file []) firstServed).log .aesdsocket exitsMeanwhile) visited := by
  refine ⟨by decide +kernel, ?_⟩
  have hrest := reaping_keeps_rest .aesdsocket (.file []) firstServed exitsMeanwhile .check (by decide +kernel)
    (by decide +kernel) (by decide +kernel)
  exact hrest.2.2 (by decide +kernel)

end Aesd.Server
