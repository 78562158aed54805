import Aesd.Lib.Fair
import Aesd.Threading.Mutex

/-!
# Do the threads come to their end?

* `Pc.left`, `ThreadStep.left_lt` : a step of `threadfunc` brings it closer to its end;
* `Starved` : a thread waits for a mutex that a thread took with it to its end;
* `Starved.step` : it waits for good;
* `threads_end_iff` : in a fair run all threads end exactly if none is starved.
-/

namespace Aesd.Threading
open Lib

/-- The steps left of `threadfunc`, at most. -/
def Pc.left : Pc → Nat
  | .sleepObtain => 5
  | .lock => 4
  | .sleepRelease => 3
  | .unlock => 2
  | .store _ => 1
  | .exited | .joined _ => 0

theorem Thread.after_left_lt {t : Thread} {ok : Bool} {pc : Pc} (hpc : pc.left < t.pc.left) (hone : 1 < t.pc.left) :
    (t.after ok pc).pc.left < t.pc.left := by
  cases ok with
  | true => exact hpc
  | false => exact hone

theorem ThreadStep.left_lt {s s' : Process} {tid : Nat} {t : Thread} {data : ThreadData}
    (hstep : ThreadStep s tid t data s') :
    ∃ t', s'.threads = Function.update s.threads tid (some t') ∧ t'.pc.left < t.pc.left := by
  cases hstep with
  | store success hpc => exact ⟨_, rfl, by simp [hpc, Pc.left]⟩
  | sleepObtain ok hpc | sleepRelease ok hpc =>
      refine ⟨_, rfl, Thread.after_left_lt ?_ ?_⟩ <;> simp [hpc, Pc.left]
  | lock hpc hfree | lockFails hpc | unlock hpc | unlockFails hpc =>
      refine ⟨_, rfl, Thread.after_left_lt ?_ ?_⟩ <;> simp [hpc, Pc.left]

def CanGo (s : Process) (tid : Nat) : Prop :=
  ∃ t, s.threads tid = some t ∧ t.pc.ended = false ∧ (t.pc = .lock → s.mutexes t.mutex = none)

/-- Thread `tid` waits for a mutex that a thread kept at its end. -/
def Starved (s : Process) (tid : Nat) : Prop :=
  ∃ t owner u, s.threads tid = some t ∧ t.pc = .lock ∧ s.mutexes t.mutex = some (.thread owner) ∧
    s.threads owner = some u ∧ u.pc.ended = true

def AllEnded (s : Process) : Prop := ∀ tid t, s.threads tid = some t → t.pc.ended = true

def Locks (l : Label) : Prop := ∀ tid a, l = .run tid a → a.lockOk = true

/-- The caller neither starts a thread nor locks a mutex. -/
def Quiet : Label → Prop
  | .start _ _ _ _ _ | .lock _ => False
  | _ => True

def RunsThread (tid : Nat) (l : Label) : Prop := ∃ a, l = .run tid a

namespace Inv
variable {s : Process} {tid : Nat} {t : Thread}

theorem data_of_running (h : Inv s) (ht : s.threads tid = some t) (hend : t.pc.ended = false) :
    ∃ data, s.heap.cell tid = .live data ∧ data.mutex = t.mutex := by
  have hblock := h.block tid t ht
  unfold Thread.Owns at hblock
  split at hblock
  · next success hp => simp [hp, Pc.ended] at hend
  · next hp => simp [hp, Pc.ended] at hend
  · exact hblock

theorem moves (h : Inv s) (ht : s.threads tid = some t) (hend : t.pc.ended = false) {a : Answer}
    (hfree : t.pc = .lock → a.lockOk = true → s.mutexes t.mutex = none) :
    ∃ data, ThreadStep s tid t data (s.step (.run tid a)) := by
  obtain ⟨data, hlive, hmutex⟩ := h.data_of_running ht hend
  refine ⟨data, ?_⟩
  have hstep : s.step (.run tid a) = s.threadfunc tid t data a := by
    simp only [Process.step, Process.runThread, ht, h.param tid t ht, Ledger.get_eq_some.mpr hlive]
    cases hpc : t.pc <;> simp [hpc, Pc.ended] at hend ⊢
  rw [hstep]
  exact threadfunc_moves tid hend (by rw [hmutex]; exact hfree)

/-- The owner of a mutex that is not at its end can take its next step. -/
theorem owner_goes (h : Inv s) {mutex : Nat} (hm : s.mutexes mutex = some (.thread tid)) :
    ∃ t, s.threads tid = some t ∧ t.pc ≠ .lock := by
  obtain ⟨t, ht, -, hkeeps⟩ := (h.owner mutex tid).mp hm
  refine ⟨t, ht, fun hpc => ?_⟩
  have hres := h.results tid t ht
  rw [hpc] at hres
  have hres : t.results = [true] := hres
  simp [Thread.keeps, hres] at hkeeps

theorem exists_canGo (h : Inv s) (hcaller : ∀ mutex, s.mutexes mutex ≠ some .caller) (hstarved : ∀ tid, ¬ Starved s tid)
    (hend : ¬ AllEnded s) : ∃ tid, CanGo s tid := by
  simp only [AllEnded, not_forall, exists_prop] at hend
  obtain ⟨tid, t, ht, hnot⟩ := hend
  have hnot : t.pc.ended = false := by simpa using hnot
  cases hm : s.mutexes t.mutex with
  | none => exact ⟨tid, t, ht, hnot, fun _ => hm⟩
  | some owner =>
      cases owner with
      | caller => exact absurd hm (hcaller _)
      | thread owner =>
          by_cases hpc : t.pc = .lock
          · obtain ⟨u, hu, hne⟩ := h.owner_goes hm
            cases hue : u.pc.ended with
            | true => exact absurd ⟨t, owner, u, ht, hpc, hm, hu, hue⟩ (hstarved tid)
            | false => exact ⟨owner, u, hu, hue, fun hl => absurd hl hne⟩
          · exact ⟨tid, t, ht, hnot, fun hl => absurd hl hpc⟩

end Inv

/-! ## What a step leaves alone -/

section Frame
variable {s : Process} {l : Label} {j : Nat} {t : Thread}

/-- A thread that is neither run nor joined stays as it is; one that has not exited cannot be joined. -/
theorem thread_same (h : Inv s) (ht : s.threads j = some t) (hrun : ∀ a, l ≠ .run j a)
    (hjoin : t.pc = .exited → l ≠ .join j) :
    (s.step l).threads j = some t := by
  have htrans := step_trans s l
  generalize s.step l = s' at htrans
  cases htrans with
  | run tid a t' data s' ht' hdata hstep =>
      obtain ⟨t1, hthreads, -⟩ := hstep.left_lt
      have hne : j ≠ tid := by
        rintro rfl
        exact hrun a rfl
      rw [hthreads, Function.update_of_ne hne, ht]
  | join tid t' data ht' hpc hdata =>
      have hne : j ≠ tid := by
        rintro rfl
        rw [ht] at ht'
        cases ht'
        exact hjoin hpc rfl
      exact (Function.update_of_ne hne ..).trans ht
  | start mutex a b createOk data hmutex hdata hcreate =>
      have hne : j ≠ s.calls := by
        rintro rfl
        rw [(h.fresh s.calls (Nat.le_refl _)).2] at ht
        cases ht
      exact (Function.update_of_ne hne ..).trans ht
  | _ => exact ht

theorem run_of_not_canGo (h : Inv s) {a : Answer} (hlock : a.lockOk = true) (hgo : ¬ CanGo s j) :
    s.step (.run j a) = s := by
  simp only [Process.step, Process.runThread]
  cases ht : s.threads j with
  | none => rfl
  | some t =>
      cases hend : t.pc.ended with
      | true => cases hpc : t.pc <;> simp [hpc, Pc.ended] at hend ⊢
      | false =>
          obtain ⟨data, hlive, hmutex⟩ := h.data_of_running ht hend
          have hwaits : t.pc = .lock ∧ s.mutexes t.mutex ≠ none := by
            by_contra hcon
            simp only [not_and, not_not] at hcon
            exact hgo ⟨t, ht, hend, hcon⟩
          simp only [hwaits.1, h.param j t ht, Ledger.get_eq_some.mpr hlive, Process.threadfunc, hlock, if_true, hmutex,
            if_neg hwaits.2]

/-- `pthread_join` changes the thread it joins, which has ended before. -/
theorem join_thread (h : Inv s) (j : Nat) :
    s.step (.join j) = s ∨ ∃ t success, s.threads j = some t ∧ t.pc = .exited ∧
      (s.step (.join j)).threads = Function.update s.threads j (some { t with pc := .joined success }) ∧
      (s.step (.join j)).mutexes = s.mutexes := by
  have htrans := step_trans s (.join j)
  have hfault := (h.trans htrans).fault
  generalize s.step (.join j) = s' at htrans hfault
  cases htrans with
  | stay => exact Or.inl rfl
  | fault l tid t ht hpc hdata => cases hfault
  | join tid t data ht hpc hdata => exact Or.inr ⟨t, _, ht, hpc, rfl, rfl⟩

theorem ended_step (h : Inv s) (ht : s.threads j = some t) (hend : t.pc.ended = true) :
    ∃ t', (s.step l).threads j = some t' ∧ t'.pc.ended = true ∧ t'.mutex = t.mutex ∧ t'.keeps = t.keeps := by
  by_cases hrun : ∃ a, l = .run j a
  · obtain ⟨a, rfl⟩ := hrun
    have hsame : s.step (.run j a) = s := by
      simp only [Process.step, Process.runThread, ht]
      cases hpc : t.pc <;> simp [hpc, Pc.ended] at hend ⊢
    exact ⟨t, by rw [hsame, ht], hend, rfl, rfl⟩
  · by_cases hjoin : l = .join j
    · subst hjoin
      rcases join_thread h j with hsame | ⟨t', success, ht', hpc, hthreads, -⟩
      · exact ⟨t, by rw [hsame, ht], hend, rfl, rfl⟩
      · rw [ht] at ht'
        cases ht'
        exact ⟨{ t with pc := .joined success }, by rw [hthreads, Function.update_self], rfl, rfl, rfl⟩
    · exact ⟨t, thread_same h ht (fun a ha => hrun ⟨a, ha⟩) fun _ => hjoin, hend, rfl, rfl⟩

/-- **Who is starved once is starved for good**, if `pthread_mutex_lock` returns no error. -/
theorem Starved.step (hs : Starved s j) (h : Inv s) (hl : Locks l) : Starved (s.step l) j := by
  obtain ⟨t, owner, u, ht, hpc, hm, hu, hend⟩ := hs
  obtain ⟨hum, hkeeps⟩ := (h.owner_iff hu t.mutex).mp hm
  obtain ⟨u', hu', hend', hmutex', hkeeps'⟩ := ended_step (l := l) h hu hend
  refine ⟨t, owner, u', ?_, hpc, ?_, hu', hend'⟩
  · by_cases hrun : ∃ a, l = .run j a
    · obtain ⟨a, rfl⟩ := hrun
      rw [run_of_not_canGo h (hl j a rfl), ht]
      rintro ⟨t', ht', -, hfree⟩
      rw [ht] at ht'
      cases ht'
      rw [hfree hpc] at hm
      cases hm
    · exact thread_same h ht (fun a ha => hrun ⟨a, ha⟩) fun hx => by rw [hpc] at hx; cases hx
  · have hinv := h.trans (step_trans s l)
    rw [hinv.owner_iff hu', hmutex', hkeeps', hum]
    exact ⟨rfl, hkeeps⟩

end Frame

/-! ## Fair runs -/

namespace Process

def left (s : Process) (tid : Nat) : Nat := (s.threads tid).elim 0 fun t => t.pc.left

end Process

/-- No mutex is the caller's, and no thread is starved. -/
structure Open (s : Process) : Prop where
  caller : ∀ mutex, s.mutexes mutex ≠ some .caller
  starved : ∀ tid, ¬ Starved s tid

def Support (T : Finset Nat) (s : Process) : Prop := ∀ tid, s.threads tid ≠ none → tid ∈ T

section Rank
variable {s : Process} {l : Label} {T : Finset Nat} {j : Nat}

theorem quiet_thread (hl : Quiet l) {t : Thread} (ht : (s.step l).threads j = some t) :
    ∃ t, s.threads j = some t := by
  have htrans := step_trans s l
  generalize s.step l = s' at htrans ht
  have hupdate : ∀ {tid : Nat} {u u' : Thread}, s.threads tid = some u →
      Function.update s.threads tid (some u') j = some t → ∃ t, s.threads j = some t := by
    intro tid u u' hu ht
    by_cases hj : j = tid
    · exact ⟨u, hj ▸ hu⟩
    · exact ⟨t, by rwa [Function.update_of_ne hj] at ht⟩
  cases htrans with
  | run tid a u data s' hu hdata hstep =>
      obtain ⟨u', hthreads, -⟩ := hstep.left_lt
      rw [hthreads] at ht
      exact hupdate hu ht
  | join tid u data hu hpc hdata => exact hupdate hu ht
  | start mutex a b createOk data hmutex hdata hcreate => exact hl.elim
  | _ => exact ⟨t, ht⟩

theorem Support.step (h : Support T s) (hl : Quiet l) : Support T (s.step l) := by
  intro tid htid
  obtain ⟨t, ht⟩ := Option.ne_none_iff_exists'.mp htid
  obtain ⟨t', ht'⟩ := quiet_thread hl ht
  exact h tid (by simp [ht'])

theorem AllEnded.step (h : AllEnded s) (hinv : Inv s) (hl : Quiet l) : AllEnded (s.step l) := by
  intro tid t ht
  obtain ⟨u, hu⟩ := quiet_thread hl ht
  obtain ⟨u', hu', hend, -⟩ := ended_step (l := l) hinv hu (h tid u hu)
  rw [ht] at hu'
  cases hu'
  exact hend

theorem run_left_lt (h : Inv s) (hT : Support T s) {a : Answer} (hgo : CanGo s j) :
    ∑ tid ∈ T, (s.step (.run j a)).left tid < ∑ tid ∈ T, s.left tid := by
  obtain ⟨t, ht, hend, hfree⟩ := hgo
  obtain ⟨data, hstep⟩ := h.moves ht hend (a := a) fun hpc _ => hfree hpc
  obtain ⟨t', hthreads, hlt⟩ := hstep.left_lt
  have hself : (s.step (.run j a)).left j < s.left j := by
    simpa only [Process.left, hthreads, Function.update_self, ht, Option.elim_some] using hlt
  refine Finset.sum_lt_sum (fun tid _ => ?_) ⟨j, hT j (by simp [ht]), hself⟩
  by_cases hj : tid = j
  · exact hj ▸ hself.le
  · simp only [Process.left, hthreads, Function.update_of_ne hj, le_refl]

theorem join_left (h : Inv s) : (∀ tid, (s.step (.join j)).left tid = s.left tid) ∧
    ∀ tid, CanGo s tid → CanGo (s.step (.join j)) tid := by
  rcases join_thread h j with hsame | ⟨t, success, ht, hpc, hthreads, hmutexes⟩
  · rw [hsame]
    exact ⟨fun _ => rfl, fun _ hgo => hgo⟩
  · refine ⟨fun tid => ?_, fun tid hgo => ?_⟩
    · by_cases hj : tid = j
      · subst hj
        simp [Process.left, hthreads, ht, hpc, Pc.left]
      · simp only [Process.left, hthreads, Function.update_of_ne hj]
    · obtain ⟨u, hu, hend, hfree⟩ := hgo
      have hj : tid ≠ j := by
        rintro rfl
        rw [ht] at hu
        cases hu
        rw [hpc] at hend
        cases hend
      exact ⟨u, by rw [hthreads, Function.update_of_ne hj, hu], hend, by rwa [hmutexes]⟩

theorem end_ranking (T : Finset Nat) :
    Ranking Process.step (fun s l => Locks l ∧ Quiet l ∧ Open (s.step l)) RunsThread (· ∈ T)
      (fun s => Inv s ∧ Open s ∧ Support T s) AllEnded (· < ·) (fun s => ∑ tid ∈ T, s.left tid) CanGo where
  inv s l h hl := ⟨h.1.trans (step_trans s l), hl.2.2, h.2.2.step hl.2.1⟩
  helper s h hend := by
    obtain ⟨tid, t, ht, hrest⟩ := h.1.exists_canGo h.2.1.caller h.2.1.starved hend
    exact ⟨tid, h.2.2 tid (by simp [ht]), t, ht, hrest⟩
  turn s l tid h hl _ hgo hmine := by
    obtain ⟨a, rfl⟩ := hmine
    exact Or.inr (run_left_lt h.1 h.2.2 hgo)
  other s l h hl _ := by
    cases l with
    | start mutex a b mallocOk createOk => exact hl.2.1.elim
    | lock mutex => exact hl.2.1.elim
    | unlock mutex =>
        have hsame : s.step (.unlock mutex) = s := if_neg (h.2.1.caller mutex)
        rw [hsame]
        exact Or.inr (Or.inr ⟨rfl, fun _ hgo => hgo⟩)
    | join j =>
        obtain ⟨hleft, hkeep⟩ := join_left (j := j) h.1
        exact Or.inr (Or.inr ⟨Finset.sum_congr rfl fun tid _ => hleft tid, hkeep⟩)
    | run j a =>
        by_cases hgo : CanGo s j
        · exact Or.inr (Or.inl (run_left_lt h.1 h.2.2 hgo))
        · rw [run_of_not_canGo h.1 (hl.1 j a rfl) hgo]
          exact Or.inr (Or.inr ⟨rfl, fun _ hgo => hgo⟩)

end Rank

/-- In a quiet step the caller takes no mutex. -/
theorem caller_step {s : Process} {l : Label} (hl : Quiet l) (h : ∀ mutex, s.mutexes mutex ≠ some .caller) :
    ∀ mutex, (s.step l).mutexes mutex ≠ some .caller := by
  have htrans := step_trans s l
  generalize s.step l = s' at htrans
  have hupdate : ∀ (mutex : Nat) (owner : Option Owner), owner ≠ some .caller →
      ∀ m, Function.update s.mutexes mutex owner m ≠ some .caller := by
    intro mutex owner howner m
    by_cases hm : m = mutex
    · rw [hm, Function.update_self]
      exact howner
    · rw [Function.update_of_ne hm]
      exact h m
  cases htrans with
  | run tid a t data s' ht hdata hstep =>
      cases hstep with
      | lock hpc hfree => exact hupdate _ _ (by simp)
      | unlock hpc => exact hupdate _ _ (by simp)
      | _ => exact h
  | lock mutex hfree => exact hl.elim
  | unlock mutex howner => exact hupdate _ _ (by simp)
  | _ => exact h

/-- **When the threads come to their end.** In a run in which every thread is given a turn again and again, no
`pthread_mutex_lock` returns an error, and from some step on the caller starts no thread, locks no mutex and has none: all
threads end, if and only if at no step a thread waits for a mutex that another one took with it to its end. -/
theorem threads_end_iff {sched : Nat → Label} (hlocks : ∀ n, Locks (sched n))
    (hfair : ∀ n tid, (path Process.step {} sched n).threads tid ≠ none → Turns RunsThread tid sched)
    (hquiet : ∃ m, (∀ n, m ≤ n → Quiet (sched n)) ∧
      ∀ mutex, (path Process.step {} sched m).mutexes mutex ≠ some .caller) :
    (∃ n, ∀ k, n ≤ k → AllEnded (path Process.step {} sched k)) ↔
      ∀ n tid, ¬ Starved (path Process.step {} sched n) tid := by
  have hinv : ∀ n, Inv (path Process.step {} sched n) :=
    Allowed.invariant (P := fun _ _ => True) (fun s l h _ => h.trans (step_trans s l)) .init fun _ => trivial
  constructor
  · rintro ⟨n, hn⟩ m tid hstarved
    have hstays : ∀ k, Starved (path Process.step {} sched (m + k)) tid := by
      intro k
      induction k with
      | zero => exact hstarved
      | succ k ih => exact ih.step (hinv _) (hlocks _)
    obtain ⟨t, owner, u, ht, hpc, -⟩ := hstays n
    have hend := hn (m + n) (by omega) tid t ht
    rw [hpc] at hend
    cases hend
  · intro hstarved
    obtain ⟨m, hm, hcaller⟩ := hquiet
    have hcallers : ∀ n mutex, (path Process.step {} sched (m + n)).mutexes mutex ≠ some .caller := by
      intro n
      induction n with
      | zero => exact hcaller
      | succ n ih => exact caller_step (hm (m + n) (Nat.le_add_right m n)) ih
    have hopen : ∀ n, Open (path Process.step {} sched (m + n)) := fun n => ⟨hcallers n, hstarved _⟩
    obtain ⟨T, hsupport, hT⟩ : ∃ T, Support T (path Process.step {} sched m) ∧
        ∀ tid, tid ∈ T → (path Process.step {} sched m).threads tid ≠ none := by
      refine ⟨(Finset.range (path Process.step {} sched m).calls).filter
        fun tid => (path Process.step {} sched m).threads tid ≠ none, fun tid htid => ?_, fun tid htid => ?_⟩
      · rw [Finset.mem_filter, Finset.mem_range]
        refine ⟨?_, htid⟩
        by_contra hge
        exact htid ((hinv m).fresh tid (by omega)).2
      · exact (Finset.mem_filter.mp htid).2
    have hallowed : Allowed Process.step (fun s l => Locks l ∧ Quiet l ∧ Open (s.step l))
        (path Process.step {} sched m) (later sched m) := by
      intro n
      refine ⟨hlocks _, hm (m + n) (Nat.le_add_right m n), ?_⟩
      rw [path_later]
      exact hopen (n + 1)
    obtain ⟨n, hn⟩ := (end_ranking T).settles wellFounded_lt (fun s l h hl hend => hend.step h.1 hl.2.1)
      ⟨hinv m, hopen 0, hsupport⟩ hallowed fun tid htid => (hfair m tid (hT tid htid)).later m
    exact eventually_of_later ⟨n, fun k hk => (hn k hk).2⟩

/-- Two threads for one mutex; the second sleep of each fails, and they are given a turn in turn. -/
def failingInTurn : Nat → Label
  | 0 | 1 => .start 5 10 20 true true
  | n + 2 => .run (Nat.unpair n).1 { usleep := fun us => us ≠ 20000 }

theorem threads_end_iff_failing :
    (∃ n, ∀ k, n ≤ k → AllEnded (path Process.step {} failingInTurn k)) ↔
      ∀ n tid, ¬ Starved (path Process.step {} failingInTurn n) tid := by
  refine threads_end_iff (fun n => ?_) (fun _ tid _ n => ?_) ⟨2, fun n hn => ?_, fun mutex => ?_⟩
  · rintro tid a h
    match n, h with
    | n + 2, h =>
        cases h
        rfl
  · have hle := Nat.right_le_pair tid n
    refine ⟨Nat.pair tid n + 2, by omega, { usleep := fun us => us ≠ 20000 }, ?_⟩
    rw [failingInTurn, Nat.unpair_pair]
  · obtain ⟨k, rfl⟩ := Nat.exists_eq_add_of_le' hn
    trivial
  · simp [path, failingInTurn, Process.step, Process.startThreadObtainingMutex, Process.threadDataCreate,
      Process.setThread]

end Aesd.Threading
