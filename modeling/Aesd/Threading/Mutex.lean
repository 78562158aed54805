import Aesd.Threading.Threads

/-!
# Mutexes and blocks of the threads

* `Pc.Allows`, `Thread.Owns` : the results of the calls up to each point of `threadfunc`, and the block of a thread;
* `Inv` : who holds which mutex, and who owns which block, for every run;
* `mutex_kept_iff` : a thread that failed at the wrong point keeps its mutex for good;
* `thread_data_ledger` : which blocks are freed, and which are lost.
-/

namespace Aesd.Threading
open Lib

/-! ## The invariant -/

/-- All four calls succeeded. -/
def passed : List Bool := [true, true, true, true]

/-- One call failed, and no other came after it. -/
def failed : List (List Bool) := [[false], [true, false], [true, true, false], [true, true, true, false]]

/-- The results of the calls up to a point of `threadfunc`. -/
def Pc.Allows : Pc → List Bool → Prop
  | .sleepObtain, results => results = []
  | .lock, results => results = [true]
  | .sleepRelease, results => results = [true, true]
  | .unlock, results => results = [true, true, true]
  | .store success, results | .joined success, results => if success then results = passed else results ∈ failed
  | .exited, results => results = passed ∨ results ∈ failed

def Thread.keeps (t : Thread) : Bool := decide (t.results.take 2 = [true, true]) && decide (t.results ≠ passed)

/-- What the block of a thread is: the joiner has freed it, or it has the thread's mutex, and after the exit its result. -/
def Thread.Owns (t : Thread) (cell : Cell ThreadData) : Prop :=
  match t.pc with
  | .joined _ => cell = .dead
  | .exited => ∃ data, cell = .live data ∧ data.mutex = t.mutex ∧
      (if data.threadCompleteSuccess then t.results = passed else t.results ∈ failed)
  | _ => ∃ data, cell = .live data ∧ data.mutex = t.mutex

structure Inv (s : Process) : Prop where
  fault : s.fault = false
  fresh : ∀ id, s.calls ≤ id → s.heap.cell id = .absent ∧ s.threads id = none
  leaked : ∀ id, id < s.calls → s.threads id = none → ∃ data, s.heap.cell id = .live data
  param : ∀ tid t, s.threads tid = some t → t.threadParam = tid
  results : ∀ tid t, s.threads tid = some t → t.pc.Allows t.results
  block : ∀ tid t, s.threads tid = some t → t.Owns (s.heap.cell tid)
  owner : ∀ mutex tid, s.mutexes mutex = some (.thread tid) ↔
    ∃ t, s.threads tid = some t ∧ t.mutex = mutex ∧ t.keeps = true

namespace Thread
variable {t : Thread} {ok : Bool} {pc : Pc}

@[simp] theorem after_param : (t.after ok pc).threadParam = t.threadParam := rfl

@[simp] theorem after_mutex : (t.after ok pc).mutex = t.mutex := rfl

/-- A call that fails ends the sequence. -/
theorem after_allows (hnext : pc.Allows (t.results ++ [true]))
    (hfail : t.results ++ [false] ∈ failed) : (t.after ok pc).pc.Allows (t.after ok pc).results := by
  cases ok with
  | true => exact hnext
  | false => exact hfail

theorem after_owns {cell : Cell ThreadData} (h : t.Owns cell) (hpc : ∀ success, t.pc ≠ .joined success)
    (hne : pc ≠ .exited) (hnj : ∀ success, pc ≠ .joined success) : (t.after ok pc).Owns cell := by
  obtain ⟨data, hlive, hmutex⟩ : ∃ data, cell = .live data ∧ data.mutex = t.mutex := by
    unfold Owns at h
    split at h
    · next success hj => exact absurd hj (hpc success)
    · obtain ⟨data, hlive, hmutex, -⟩ := h
      exact ⟨data, hlive, hmutex⟩
    · exact h
  unfold Owns after
  cases ok with
  | false => exact ⟨data, hlive, hmutex⟩
  | true =>
      cases hp : pc with
      | exited => exact absurd hp hne
      | joined success => exact absurd hp (hnj success)
      | _ => exact ⟨data, hlive, hmutex⟩

end Thread

namespace Inv
variable {s : Process}

theorem init : Inv {} where
  fault := rfl
  fresh id _ := ⟨rfl, rfl⟩
  leaked id hid := absurd hid (Nat.not_lt_zero id)
  param tid t ht := by simp at ht
  results tid t ht := by simp at ht
  block tid t ht := by simp at ht
  owner mutex tid := by simp

/-- The owner of the mutexes is looked up by a thread and its mutex. -/
theorem owner_iff (h : Inv s) {tid : Nat} {t : Thread} (ht : s.threads tid = some t) (mutex : Nat) :
    s.mutexes mutex = some (.thread tid) ↔ t.mutex = mutex ∧ t.keeps = true := by
  rw [h.owner]
  constructor
  · rintro ⟨t', ht', hm⟩
    rw [ht] at ht'
    cases ht'
    exact hm
  · exact fun hm => ⟨t, ht, hm⟩

theorem setThread (h : Inv s) {tid : Nat} {t t' : Thread} (ht : s.threads tid = some t) {heap : Ledger ThreadData}
    {mutexes : Nat → Option Owner} (hheap : ∀ j, j ≠ tid → heap.cell j = s.heap.cell j)
    (hparam : t'.threadParam = tid) (hresults : t'.pc.Allows t'.results) (hblock : t'.Owns (heap.cell tid))
    (hself : ∀ m, mutexes m = some (.thread tid) ↔ t'.mutex = m ∧ t'.keeps = true)
    (hother : ∀ m j, j ≠ tid → (mutexes m = some (.thread j) ↔ s.mutexes m = some (.thread j))) :
    Inv ({ s with heap := heap, mutexes := mutexes }.setThread tid t') := by
  have hlt : tid < s.calls := by
    by_contra hge
    rw [(h.fresh tid (by omega)).2] at ht
    cases ht
  have hthreads : ∀ j u, Function.update s.threads tid (some t') j = some u →
      (j = tid ∧ u = t') ∨ (j ≠ tid ∧ s.threads j = some u) := by
    intro j u hu
    by_cases hj : j = tid
    · subst hj
      rw [Function.update_self] at hu
      cases hu
      exact Or.inl ⟨rfl, rfl⟩
    · exact Or.inr ⟨hj, by rwa [Function.update_of_ne hj] at hu⟩
  refine ⟨h.fault, fun id hid => ?_, fun id hid hnone => ?_, fun j u hu => ?_, fun j u hu => ?_, fun j u hu => ?_,
    fun m j => ?_⟩
  · have hne : id ≠ tid := by
      rintro rfl
      exact absurd hlt (Nat.not_lt.mpr hid)
    exact ⟨(hheap id hne).trans (h.fresh id hid).1, (Function.update_of_ne hne ..).trans (h.fresh id hid).2⟩
  · by_cases hne : id = tid
    · subst hne
      exact absurd ((Function.update_self ..).symm.trans hnone) (by simp)
    · obtain ⟨data, hdata⟩ := h.leaked id hid ((Function.update_of_ne hne ..).symm.trans hnone)
      exact ⟨data, (hheap id hne).trans hdata⟩
  · rcases hthreads j u hu with ⟨rfl, rfl⟩ | ⟨hne, hu⟩
    · exact hparam
    · exact h.param j u hu
  · rcases hthreads j u hu with ⟨rfl, rfl⟩ | ⟨hne, hu⟩
    · exact hresults
    · exact h.results j u hu
  · rcases hthreads j u hu with ⟨rfl, rfl⟩ | ⟨hne, hu⟩
    · exact hblock
    · rw [Process.setThread, hheap j hne]
      exact h.block j u hu
  · by_cases hj : j = tid
    · subst hj
      simpa [Process.setThread] using hself m
    · simp only [Process.setThread, Function.update_of_ne hj]
      rw [hother m j hj]
      exact h.owner m j

theorem threadStep (h : Inv s) {tid : Nat} {t : Thread} {data : ThreadData} {s' : Process}
    (ht : s.threads tid = some t) (hdata : s.heap.cell tid = .live data) (hstep : ThreadStep s tid t data s') : Inv s' := by
  have hparam := h.param tid t ht
  have hresults := h.results tid t ht
  have hblock := h.block tid t ht
  have howner := h.owner_iff ht
  have hmutex : t.pc ≠ .exited → (∀ success, t.pc ≠ .joined success) → data.mutex = t.mutex := by
    intro hx hj
    unfold Thread.Owns at hblock
    rw [hdata] at hblock
    split at hblock
    · next success hp => exact absurd hp (hj success)
    · next hp => exact absurd hp hx
    · obtain ⟨data', hlive, hm⟩ := hblock
      cases hlive
      exact hm
  -- the thread goes on without touching a mutex
  have hgo : ∀ {ok : Bool} {pc : Pc}, (t.after ok pc).pc.Allows (t.after ok pc).results →
      (t.after ok pc).Owns (s.heap.cell tid) → (t.after ok pc).keeps = t.keeps → Inv (s.setThread tid (t.after ok pc)) :=
    fun hres hown hkeeps => h.setThread ht (fun _ _ => rfl) hparam hres hown
      (fun m => by rw [howner, hkeeps, Thread.after_mutex]) fun _ _ _ => Iff.rfl
  cases hstep with
  | sleepObtain ok hpc =>
      rw [hpc] at hresults
      have hres : t.results = [] := hresults
      refine hgo (Thread.after_allows (by simp [hres, Pc.Allows]) (by simp [hres, failed]))
        (Thread.after_owns hblock (by simp [hpc]) (by simp) (by simp)) ?_
      cases ok <;> simp [Thread.after, Thread.keeps, hres]
  | lock hpc hfree =>
      rw [hpc] at hresults
      have hres : t.results = [true] := hresults
      have hm := hmutex (by simp [hpc]) (by simp [hpc])
      have hkeeps : t.keeps = false := by simp [Thread.keeps, hres]
      refine h.setThread ht (fun _ _ => rfl) hparam (Thread.after_allows (by simp [hres, Pc.Allows])
        (by simp [hres, failed])) (Thread.after_owns hblock (by simp [hpc]) (by simp) (by simp)) (fun m => ?_)
        fun m j hj => ?_
      · have hk : (t.after true .sleepRelease).keeps = true := by simp [Thread.after, Thread.keeps, hres, passed]
        by_cases hmm : m = data.mutex
        · subst hmm
          simp [hk, hm]
        · simp only [Function.update_of_ne hmm, howner, hkeeps]
          simp [← hm, Ne.symm hmm]
      · by_cases hmm : m = data.mutex
        · subst hmm
          simp [hfree, hj.symm]
        · simp [Function.update_of_ne hmm]
  | lockFails hpc =>
      rw [hpc] at hresults
      have hres : t.results = [true] := hresults
      refine hgo (Thread.after_allows (by simp [hres, Pc.Allows]) (by simp [hres, failed]))
        (Thread.after_owns hblock (by simp [hpc]) (by simp) (by simp)) ?_
      simp [Thread.after, Thread.keeps, hres]
  | sleepRelease ok hpc =>
      rw [hpc] at hresults
      have hres : t.results = [true, true] := hresults
      refine hgo (Thread.after_allows (by simp [hres, Pc.Allows]) (by simp [hres, failed]))
        (Thread.after_owns hblock (by simp [hpc]) (by simp) (by simp)) ?_
      cases ok <;> simp [Thread.after, Thread.keeps, hres, passed]
  | unlock hpc =>
      rw [hpc] at hresults
      have hres : t.results = [true, true, true] := hresults
      have hm := hmutex (by simp [hpc]) (by simp [hpc])
      have hkeeps : t.keeps = true := by simp [Thread.keeps, hres, passed]
      have hheld : s.mutexes data.mutex = some (.thread tid) := (howner _).mpr ⟨hm.symm, hkeeps⟩
      refine h.setThread ht (fun _ _ => rfl) hparam (Thread.after_allows (by simp [hres, Pc.Allows, passed])
        (by simp [hres, failed])) (Thread.after_owns hblock (by simp [hpc]) (by simp) (by simp)) (fun m => ?_)
        fun m j hj => ?_
      · have hk : (t.after true (.store true)).keeps = false := by simp [Thread.after, Thread.keeps, hres, passed]
        by_cases hmm : m = data.mutex
        · subst hmm
          simp [hk]
        · simp only [Function.update_of_ne hmm, howner, hk]
          simp [← hm, Ne.symm hmm]
      · by_cases hmm : m = data.mutex
        · subst hmm
          simp [hheld, hj.symm]
        · simp [Function.update_of_ne hmm]
  | unlockFails hpc =>
      rw [hpc] at hresults
      have hres : t.results = [true, true, true] := hresults
      refine hgo (Thread.after_allows (by simp [hres, Pc.Allows, passed]) (by simp [hres, failed]))
        (Thread.after_owns hblock (by simp [hpc]) (by simp) (by simp)) ?_
      simp [Thread.after, Thread.keeps, hres, passed]
  | store success hpc =>
      rw [hpc] at hresults
      have hm := hmutex (by simp [hpc]) (by simp [hpc])
      rw [hparam]
      refine h.setThread ht (fun j hj => Ledger.cell_set_of_ne _ hj) rfl ?_ ⟨_, Ledger.cell_set_self _, hm, hresults⟩
        (fun m => howner m) fun _ _ _ => Iff.rfl
      cases success with
      | true => exact Or.inl hresults
      | false => exact Or.inr hresults

theorem leak (h : Inv s) (data : ThreadData) :
    Inv { s with heap := s.heap.alloc s.calls data, calls := s.calls + 1 } := by
  obtain ⟨habsent, hnone⟩ := h.fresh s.calls (Nat.le_refl _)
  have hother : ∀ j, j ≠ s.calls → (s.heap.set s.calls (.live data)).cell j = s.heap.cell j := fun j hj =>
    Ledger.cell_set_of_ne _ hj
  have hne : ∀ {tid t}, s.threads tid = some t → tid ≠ s.calls := by
    rintro tid t ht rfl
    rw [hnone] at ht
    cases ht
  rw [Ledger.alloc_of_absent habsent]
  refine ⟨h.fault, fun id hid => ?_, fun id hid hthread => ?_, h.param, h.results, fun tid t ht => ?_, h.owner⟩
  · dsimp only at hid
    rw [hother id (by omega)]
    exact h.fresh id (by omega)
  · by_cases hc : id = s.calls
    · exact ⟨data, by rw [hc]; exact Ledger.cell_set_self _⟩
    · obtain ⟨data', hdata'⟩ := h.leaked id (by dsimp only at hid; omega) hthread
      exact ⟨data', (hother id hc).trans hdata'⟩
  · dsimp only
    rw [hother tid (hne ht)]
    exact h.block tid t ht

theorem start (h : Inv s) {data : ThreadData} :
    Inv ({ s with heap := s.heap.alloc s.calls data, calls := s.calls + 1 }.setThread s.calls
      { threadParam := s.calls, mutex := data.mutex }) := by
  have hl := h.leak data
  obtain ⟨habsent, hnone⟩ := h.fresh s.calls (Nat.le_refl _)
  rw [Ledger.alloc_of_absent habsent] at hl ⊢
  have hthreads : ∀ j u, Function.update s.threads s.calls (some { threadParam := s.calls, mutex := data.mutex }) j = some u →
      (j = s.calls ∧ u = { threadParam := s.calls, mutex := data.mutex }) ∨ (j ≠ s.calls ∧ s.threads j = some u) := by
    intro j u hu
    by_cases hj : j = s.calls
    · subst hj
      rw [Function.update_self] at hu
      cases hu
      exact Or.inl ⟨rfl, rfl⟩
    · exact Or.inr ⟨hj, by rwa [Function.update_of_ne hj] at hu⟩
  refine ⟨hl.fault, fun id hid => ?_, fun id hid hthread => ?_, fun j u hu => ?_, fun j u hu => ?_, fun j u hu => ?_,
    fun m j => ?_⟩
  · have hid' : s.calls + 1 ≤ id := hid
    exact ⟨(hl.fresh id hid).1, (Function.update_of_ne (by omega) ..).trans (h.fresh id (by omega)).2⟩
  · by_cases hc : id = s.calls
    · exact ⟨data, by rw [hc]; exact Ledger.cell_set_self _⟩
    · exact hl.leaked id hid ((Function.update_of_ne hc ..).symm.trans hthread)
  · rcases hthreads j u hu with ⟨rfl, rfl⟩ | ⟨-, hu⟩
    · rfl
    · exact h.param j u hu
  · rcases hthreads j u hu with ⟨rfl, rfl⟩ | ⟨-, hu⟩
    · rfl
    · exact h.results j u hu
  · rcases hthreads j u hu with ⟨rfl, rfl⟩ | ⟨-, hu⟩
    · exact ⟨data, Ledger.cell_set_self _, rfl⟩
    · exact hl.block j u hu
  · simp only [Process.setThread]
    rw [h.owner]
    by_cases hj : j = s.calls
    · subst hj
      simp [hnone, Thread.keeps]
    · rw [Function.update_of_ne hj]

/-- The caller takes a mutex that is free, or gives back its own. -/
theorem setMutex (h : Inv s) {mutex : Nat} {owner : Option Owner} (hbefore : ∀ tid, s.mutexes mutex ≠ some (.thread tid))
    (hafter : ∀ tid, owner ≠ some (.thread tid)) : Inv (s.setMutex mutex owner) := by
  refine ⟨h.fault, h.fresh, h.leaked, h.param, h.results, h.block, fun m tid => ?_⟩
  simp only [Process.setMutex]
  rw [← h.owner]
  by_cases hm : m = mutex
  · subst hm
    rw [Function.update_self]
    exact ⟨fun h => absurd h (hafter tid), fun h => absurd h (hbefore tid)⟩
  · rw [Function.update_of_ne hm]

theorem trans (h : Inv s) {l : Label} {s' : Process} (ht : Trans s l s') : Inv s' := by
  cases ht with
  | stay => exact h
  | run tid a t data s' ht hdata hstep =>
      rw [h.param tid t ht] at hdata
      exact h.threadStep ht hdata hstep
  | join tid t data ht hpc hdata =>
      rw [h.param tid t ht] at hdata ⊢
      refine h.setThread ht (fun j hj => Ledger.cell_set_of_ne _ hj) rfl ?_ (Ledger.cell_set_self _)
        (fun m => h.owner_iff ht m) fun _ _ _ => Iff.rfl
      have hblock := h.block tid t ht
      unfold Thread.Owns at hblock
      rw [hpc, hdata] at hblock
      obtain ⟨data', hlive, -, hres⟩ := hblock
      cases hlive
      exact hres
  | fault l tid t ht hpc hdata =>
      -- the block of a thread that has not been joined is there
      exfalso
      have hblock := h.block tid t ht
      rw [h.param tid t ht] at hdata
      obtain ⟨data, hlive⟩ : ∃ data, s.heap.cell tid = .live data := by
        unfold Thread.Owns at hblock
        split at hblock
        · next success hp => exact absurd hp (hpc success)
        · obtain ⟨data, hlive, -⟩ := hblock
          exact ⟨data, hlive⟩
        · obtain ⟨data, hlive, -⟩ := hblock
          exact ⟨data, hlive⟩
      rw [Ledger.get_eq_some.mpr hlive] at hdata
      cases hdata
  | leak mutex a b createOk data hcreate => exact h.leak data
  | start mutex a b createOk data hmutex hdata hcreate =>
      subst hmutex
      exact h.start
  | lock mutex hfree => exact h.setMutex (by simp [hfree]) (by simp)
  | unlock mutex howner => exact h.setMutex (by simp [howner]) (by simp)

theorem reach (labels : List Label) : Inv (Process.reach labels) :=
  Along.invariant (fun s l h _ => h.trans (step_trans s l)) init (along_of_forall (fun _ _ => trivial) _)

end Inv

/-! ## Every run -/

def Pc.inside : Pc → Bool
  | .sleepRelease | .unlock => true
  | _ => false

namespace Inv
variable {s : Process} {tid : Nat} {t : Thread}

theorem keeps_of_inside (h : Inv s) (ht : s.threads tid = some t) (hin : t.pc.inside = true) : t.keeps = true := by
  have hres := h.results tid t ht
  cases hpc : t.pc <;> rw [hpc] at hin hres <;> cases hin
  · have hres : t.results = [true, true] := hres
    simp [Thread.keeps, hres, passed]
  · have hres : t.results = [true, true, true] := hres
    simp [Thread.keeps, hres, passed]

/-- A thread that has ended keeps its mutex if the call after its lock failed, or the one after that. -/
theorem keeps_iff_of_ended (h : Inv s) (ht : s.threads tid = some t) (hend : t.pc.ended = true) :
    t.keeps = true ↔ t.results = [true, true, false] ∨ t.results = [true, true, true, false] := by
  have hres : t.results = passed ∨ t.results ∈ failed := by
    have hall := h.results tid t ht
    cases hpc : t.pc with
    | exited =>
        rw [hpc] at hall
        exact hall
    | joined success =>
        rw [hpc] at hall
        cases success with
        | true => exact Or.inl hall
        | false => exact Or.inr hall
    | _ =>
        rw [hpc] at hend
        cases hend
  simp only [failed, List.mem_cons, List.not_mem_nil, or_false] at hres
  rcases hres with hr | hr | hr | hr | hr <;> simp [Thread.keeps, hr, passed]

end Inv

/-- **Who has a mutex.** In every run, whatever the calls return and in whatever order the threads and the caller go on: of
two threads between their lock and their unlock of one mutex there is only one, and it has the mutex; a thread that has
ended has it still exactly if it got it and its second sleep or its unlock failed; and the thread that joins it reads
success exactly if all its four calls succeeded. -/
theorem mutex_kept_iff (labels : List Label) (tid : Nat) (t : Thread)
    (ht : (Process.reach labels).threads tid = some t) :
    (t.pc.inside = true → (Process.reach labels).mutexes t.mutex = some (.thread tid) ∧
      ∀ tid' t', (Process.reach labels).threads tid' = some t' → t'.pc.inside = true → t'.mutex = t.mutex → tid' = tid) ∧
    (t.pc.ended = true → ((∃ mutex, (Process.reach labels).mutexes mutex = some (.thread tid)) ↔
      t.results = [true, true, false] ∨ t.results = [true, true, true, false])) ∧
    ∀ success, t.pc = .joined success → (success = true ↔ t.results = passed) := by
  have h := Inv.reach labels
  refine ⟨fun hin => ?_, fun hend => ?_, fun success hpc => ?_⟩
  · have hhas := (h.owner_iff ht t.mutex).mpr ⟨rfl, h.keeps_of_inside ht hin⟩
    refine ⟨hhas, fun tid' t' ht' hin' hm => ?_⟩
    have hhas' := (h.owner_iff ht' t.mutex).mpr ⟨hm, h.keeps_of_inside ht' hin'⟩
    rw [hhas] at hhas'
    cases hhas'
    rfl
  · rw [← h.keeps_iff_of_ended ht hend]
    constructor
    · rintro ⟨mutex, hhas⟩
      exact ((h.owner_iff ht mutex).mp hhas).2
    · exact fun hkeeps => ⟨t.mutex, (h.owner_iff ht t.mutex).mpr ⟨rfl, hkeeps⟩⟩
  · have hres := h.results tid t ht
    rw [hpc] at hres
    cases success with
    | true => exact ⟨fun _ => hres, fun _ => rfl⟩
    | false =>
        have hres : t.results ∈ failed := hres
        refine ⟨fun hf => (by cases hf), fun hp => ?_⟩
        rw [hp] at hres
        exact absurd hres (by decide)

/-- The second sleep of thread 0 fails; thread 1 waits for the mutex. -/
def secondSleepFails : List Label :=
  [.start 5 10 20 true true, .start 5 10 20 true true, .run 0 {}, .run 0 {}, .run 0 { usleep := fun _ => false },
    .run 0 {}, .join 0, .run 1 {}, .run 1 {}]

theorem mutex_kept_iff_second_sleep : ∃ t, (Process.reach secondSleepFails).threads 0 = some t ∧
    t.pc = .joined false ∧ ∃ mutex, (Process.reach secondSleepFails).mutexes mutex = some (.thread 0) := by
  obtain ⟨-, hend, -⟩ := mutex_kept_iff secondSleepFails 0
    { pc := .joined false, threadParam := 0, mutex := 5, results := [true, true, false] } rfl
  exact ⟨_, rfl, rfl, (hend rfl).mpr (Or.inl rfl)⟩

/-! ## The blocks -/

/-- `pthread_create` fails, after the block was allocated. -/
def Label.createFails : Label → Bool
  | .start _ _ _ mallocOk createOk => mallocOk && !createOk
  | _ => false

namespace Process

/-- The ids of the blocks that were never given to a thread. -/
def unstarted (s : Process) : Finset Nat := (Finset.range s.calls).filter fun id => s.threads id = none

def unjoined (s : Process) : Finset Nat :=
  (Finset.range s.calls).filter fun id => ∃ t ∈ s.threads id, ∀ success, t.pc ≠ .joined success

def allocated (s : Process) : Finset Nat := (Finset.range s.calls).filter fun id => (s.heap.get id).isSome

end Process

theorem unstarted_of_none {s s' : Process} (hcalls : s'.calls = s.calls)
    (hnone : ∀ id, s'.threads id = none ↔ s.threads id = none) : s'.unstarted = s.unstarted := by
  simp only [Process.unstarted, hcalls, hnone]

theorem unstarted_of_setThread {s : Process} {tid : Nat} {t t' : Thread} (ht : s.threads tid = some t)
    {heap : Ledger ThreadData} {mutexes : Nat → Option Owner} :
    ({ s with heap := heap, mutexes := mutexes }.setThread tid t').unstarted = s.unstarted := by
  refine unstarted_of_none rfl fun id => ?_
  by_cases hid : id = tid
  · subst hid
    simp [Process.setThread, ht]
  · simp only [Process.setThread, Function.update_of_ne hid]

theorem ThreadStep.unstarted {s s' : Process} {tid : Nat} {t : Thread} {data : ThreadData} (ht : s.threads tid = some t)
    (hstep : ThreadStep s tid t data s') : s'.unstarted = s.unstarted := by
  cases hstep <;> exact unstarted_of_setThread ht

theorem unstarted_start {s : Process} (h : Inv s) (mutex : Nat) (waitToObtainMs waitToReleaseMs : Int32)
    (mallocOk createOk : Bool) :
    (s.step (.start mutex waitToObtainMs waitToReleaseMs mallocOk createOk)).unstarted.card =
      s.unstarted.card + if mallocOk && !createOk then 1 else 0 := by
  have hnone := (h.fresh s.calls (Nat.le_refl _)).2
  simp only [Process.step, Process.startThreadObtainingMutex, Process.threadDataCreate]
  cases mallocOk with
  | false => rfl
  | true =>
      cases createOk with
      | false =>
          simp only [if_true, Bool.false_eq_true, if_false, Process.unstarted, Finset.range_add_one, Finset.filter_insert]
          rw [if_pos hnone, Finset.card_insert_of_notMem (by simp)]
          rfl
      | true =>
          have hsame : ∀ t, (Finset.range s.calls).filter (fun id => Function.update s.threads s.calls (some t) id = none) =
              (Finset.range s.calls).filter fun id => s.threads id = none := by
            intro t
            refine Finset.filter_congr fun id hid => ?_
            rw [Function.update_of_ne (Nat.ne_of_lt (Finset.mem_range.mp hid))]
          simp only [if_true, Process.setThread, Process.unstarted, Finset.range_add_one, Finset.filter_insert,
            Function.update_self, reduceCtorEq, if_false, hsame]
          rfl

/-- **A step** leaves behind a block without a thread exactly if `pthread_create` fails in it. -/
theorem unstarted_step {s : Process} (h : Inv s) (l : Label) :
    (s.step l).unstarted.card = s.unstarted.card + if l.createFails then 1 else 0 := by
  cases l with
  | start mutex waitToObtainMs waitToReleaseMs mallocOk createOk => exact unstarted_start h ..
  | run tid a =>
      have ht := step_trans s (.run tid a)
      generalize s.step (.run tid a) = s' at ht
      cases ht with
      | stay => rfl
      | run tid a t data s' ht hdata hstep => rw [hstep.unstarted ht]; rfl
      | fault l tid t ht hpc hdata => rfl
  | join tid =>
      have ht := step_trans s (.join tid)
      generalize s.step (.join tid) = s' at ht
      cases ht with
      | stay => rfl
      | join tid t data ht hpc hdata => rw [unstarted_of_setThread ht]; rfl
      | fault l tid t ht hpc hdata => rfl
  | lock mutex =>
      have : (s.step (.lock mutex)).unstarted = s.unstarted := by
        simp only [Process.step]
        split_ifs <;> rfl
      rw [this]
      rfl
  | unlock mutex =>
      have : (s.step (.unlock mutex)).unstarted = s.unstarted := by
        simp only [Process.step]
        split_ifs <;> rfl
      rw [this]
      rfl

namespace Inv
variable {s : Process}

theorem allocated_iff (h : Inv s) {id : Nat} (hid : id < s.calls) :
    (s.heap.get id).isSome = true ↔ s.threads id = none ∨ ∃ t ∈ s.threads id, ∀ success, t.pc ≠ .joined success := by
  cases ht : s.threads id with
  | none =>
      obtain ⟨data, hdata⟩ := h.leaked id hid ht
      simp [Ledger.get_eq_some.mpr hdata]
  | some t =>
      have hblock := h.block id t ht
      unfold Thread.Owns at hblock
      split at hblock
      · next success hp => simp [Ledger.get, hblock, Cell.get, hp]
      · next hp =>
          obtain ⟨data, hlive, -⟩ := hblock
          simp [Ledger.get_eq_some.mpr hlive, hp]
      · next hj hx =>
          obtain ⟨data, hlive, -⟩ := hblock
          simpa [Ledger.get_eq_some.mpr hlive] using hj

theorem card_allocated (h : Inv s) : s.allocated.card = s.unstarted.card + s.unjoined.card := by
  have hsplit : s.allocated = s.unstarted ∪ s.unjoined := by
    rw [Process.unstarted, Process.unjoined, ← Finset.filter_or]
    exact Finset.filter_congr fun id hid => h.allocated_iff (Finset.mem_range.mp hid)
  rw [hsplit, Finset.card_union_of_disjoint]
  refine Finset.disjoint_filter.mpr fun id _ hnone => ?_
  rw [hnone]
  simp

theorem dead_iff (h : Inv s) (id : Nat) :
    s.heap.cell id = .dead ↔ ∃ t success, s.threads id = some t ∧ t.pc = .joined success := by
  constructor
  · intro hdead
    cases ht : s.threads id with
    | none =>
        exfalso
        by_cases hid : id < s.calls
        · obtain ⟨data, hdata⟩ := h.leaked id hid ht
          rw [hdead] at hdata
          cases hdata
        · have habsent := (h.fresh id (by omega)).1
          rw [hdead] at habsent
          cases habsent
    | some t =>
        have hblock := h.block id t ht
        unfold Thread.Owns at hblock
        rw [hdead] at hblock
        split at hblock
        · next success hp => exact ⟨t, success, rfl, hp⟩
        · obtain ⟨data, hlive, -⟩ := hblock
          cases hlive
        · obtain ⟨data, hlive, -⟩ := hblock
          cases hlive
  · rintro ⟨t, success, ht, hpc⟩
    have hblock := h.block id t ht
    unfold Thread.Owns at hblock
    rwa [hpc] at hblock

end Inv

/-- **What becomes of the blocks.** In every run no thread and no joiner uses a block that is not there; a block was freed
exactly if its thread was joined; and the blocks that are allocated are those of the threads that were not joined and one
for each `pthread_create` that failed, which nothing can free any more. -/
theorem thread_data_ledger (labels : List Label) :
    (Process.reach labels).fault = false ∧
      (∀ id, (Process.reach labels).heap.cell id = .dead ↔
        ∃ t success, (Process.reach labels).threads id = some t ∧ t.pc = .joined success) ∧
      (Process.reach labels).allocated.card =
        labels.countP Label.createFails + (Process.reach labels).unjoined.card := by
  have h := Inv.reach labels
  refine ⟨h.fault, h.dead_iff, ?_⟩
  rw [h.card_allocated, Nat.add_right_cancel_iff]
  clear h
  induction labels using List.reverseRecOn with
  | nil => rfl
  | append_singleton labels l ih =>
      have hstep := unstarted_step (Inv.reach labels) l
      rw [Process.reach, run_append]
      rw [ih] at hstep
      simpa [run, List.countP_append, List.countP_singleton] using hstep

end Aesd.Threading
