import Aesd.Server.System

/-!
# The timestamp timer

`SIGALRM` is process-directed and no code masks it, so its handler may run on top of any thread, a worker inside its
critical region included. `output_lock_` is not recursive.

* `Stuck s i` : thread `i` waits in `alarm_handler` for the lock that the code it interrupted holds;
* `alarm_never_stuck_iff` : a run keeps clear of it exactly if no `SIGALRM` is delivered to the holder of the lock.
-/

namespace Aesd.Server
open Driver Lib

def Stuck (s : System) (i : Nat) : Prop := (∃ text, s.handlers i = some (.lock text)) ∧ s.lock = some (.code i)

/-- A `SIGALRM` spares the thread whose code holds the lock. -/
def Spares (s : System) : Label → Prop
  | .alarm i _ => s.lock ≠ some (.code i)
  | _ => True

/-- A server in regular-file mode in which no thread is stuck. -/
structure Free (s : System) : Prop where
  inv : SysInv s
  file : ∃ content, s.output = .file content
  free : ∀ i, ¬ Stuck s i

variable {c : Config} {s : System}

theorem free_init (content : List Byte) : Free { output := .file content } where
  inv := .init _
  file := ⟨content, rfl⟩
  free i h := by
    obtain ⟨⟨text, ht⟩, -⟩ := h
    simp at ht

theorem Output.write_file {K : Kernel} {content buf : List Byte} {a : Answer} {ok : Bool} {out : Output}
    (h : (Output.file content).write K buf a = .ok (ok, out)) : ∃ content', out = .file content' := by
  simp only [Output.write] at h
  split at h <;> cases h <;> exact ⟨_, rfl⟩

theorem Trans.file {l : Label} {s' : System} (ht : Trans c s l s') (hf : ∃ content, s.output = .file content) :
    ∃ content, s'.output = .file content := by
  obtain ⟨content, hf⟩ := hf
  rcases ht.output with hsame | ⟨buf, a, ok, hwrite⟩
  · exact ⟨content, hsame.trans hf⟩
  · rw [hf] at hwrite
    exact Output.write_file hwrite

/-- The handler never goes back to the lock. -/
theorem AlarmPc.exec_ne_lock {out out' : Output} {a : Answer} {p : AlarmPc} {p' : Option AlarmPc}
    (h : p.exec c out a = .ok (p', out')) (text : List Byte) : p' ≠ some (.lock text) := by
  cases p with
  | openOutput =>
      cases h
      split_ifs <;> simp
  | write =>
      obtain ⟨x, -, h⟩ := bind_ok h
      cases h
      simp
  | _ =>
      cases h
      simp

theorem Free.trans (h : Free s) {l : Label} (hl : Spares s l) {s' : System} (ht : Trans c s l s') : Free s' := by
  refine ⟨h.inv.trans ht, ht.file h.file, fun j hstuck => ?_⟩
  obtain ⟨⟨text, htext⟩, hlocked⟩ := hstuck
  have hbefore : s.handlers j = some (.lock text) → s.lock ≠ some (.code j) := fun ht hlk => h.free j ⟨⟨text, ht⟩, hlk⟩
  cases ht with
  | stay => exact hbefore htext hlocked
  | spawn i hw => exact hbefore htext hlocked
  | shutdown i w hw => exact hbefore htext hlocked
  | alarm i text' content hf hh =>
      by_cases hj : j = i
      · subst hj
        exact hl hlocked
      · dsimp only at htext
        rw [Function.update_of_ne hj] at htext
        exact hbefore htext hlocked
  | code i a w w' out lock order hh hw hexec hlock =>
      -- the code of a thread with a handler on top takes no step
      have hj : j ≠ i := by
        rintro rfl
        dsimp only at htext
        rw [hh] at htext
        cases htext
      have hown : s.lock = some (.code i) ↔ w.pc.holds = true := by rw [h.inv.code, hw]; simp
      have hother := (hlock.lock hown WorkerPc.holds_of_release (Worker.exec_next hexec).1.holds).2
      exact hbefore htext ((hother _ (by simpa using hj)).mp hlocked)
  | handler i a p p' out lock order hp hexec hlock =>
      have hown : s.lock = some (.handler i) ↔ p.holds = true := by rw [h.inv.handler, hp]; simp
      have hother := (hlock.lock hown AlarmPc.holds_of_release (AlarmPc.exec_holds hexec)).2
      by_cases hj : j = i
      · subst hj
        simp only [Function.update_self] at htext
        exact AlarmPc.exec_ne_lock hexec text htext
      · dsimp only at htext
        rw [Function.update_of_ne hj] at htext
        exact hbefore htext ((hother _ (by simp)).mp hlocked)

theorem Free.stuck_of_not_spares (h : Free s) {l : Label} (hl : ¬ Spares s l) : ∃ i, Stuck (s.step c l) i := by
  cases l with
  | alarm i text =>
      have hlock : s.lock = some (.code i) := not_not.mp hl
      obtain ⟨content, hf⟩ := h.file
      cases hh : s.handlers i with
      | none => exact ⟨i, ⟨text, by simp [System.step, hf, hh]⟩, by simpa [System.step, hf, hh] using hlock⟩
      | some p =>
          -- a handler that is past the lock holds it
          exfalso
          cases p with
          | lock text' => exact h.free i ⟨⟨text', hh⟩, hlock⟩
          | _ =>
              have hheld := (h.inv.handler i).mpr ⟨_, hh, rfl⟩
              rw [hlock] at hheld
              cases hheld
  | _ => exact absurd trivial hl

/-- **The timer locks up the server exactly if a `SIGALRM` hits the holder of the lock.** In every state of a run no
thread is stuck in its own handler, if and only if every `SIGALRM` of the run is delivered to a thread whose code does
not hold `output_lock_`. -/
theorem alarm_never_stuck_iff (c : Config) (content : List Byte) (labels : List Label) :
    (∀ pre, pre <+: labels → ∀ i, ¬ Stuck (run (System.step c) { output := .file content } pre) i) ↔
      Along (System.step c) Spares { output := .file content } labels := by
  have hinit := free_init content
  generalize ({ output := .file content } : System) = s at hinit ⊢
  induction labels generalizing s with
  | nil => exact ⟨fun _ => trivial, fun _ pre hpre i => by rw [List.prefix_nil.mp hpre]; exact hinit.free i⟩
  | cons l ls ih =>
      constructor
      · intro h
        by_cases hl : Spares s l
        · have hfree := hinit.trans hl (step_trans c s l)
          refine ⟨hl, (ih _ hfree).mp fun pre hpre i => ?_⟩
          exact h (l :: pre) (List.cons_prefix_cons.mpr ⟨rfl, hpre⟩) i
        · obtain ⟨i, hi⟩ := hinit.stuck_of_not_spares (c := c) hl
          exact absurd hi (h [l] (List.cons_prefix_cons.mpr ⟨rfl, List.nil_prefix⟩) i)
      · rintro ⟨hl, hls⟩ pre hpre i
        cases pre with
        | nil => exact hinit.free i
        | cons l' pre =>
            obtain ⟨rfl, hpre'⟩ := List.cons_prefix_cons.mp hpre
            exact (ih _ (hinit.trans hl (step_trans c s l'))).mpr hls pre hpre' i

def timestamp : List Byte := [⟨116, none⟩, ⟨105, none⟩, ⟨109, none⟩, ⟨101, none⟩, ⟨58, none⟩, ⟨10, none⟩]

/-- A worker takes the lock and is interrupted by the timer. -/
theorem alarm_locks_up :
    Stuck (run (System.step .aesdsocket) { output := .file [] } [.spawn 0, .run 0 {}, .alarm 0 timestamp]) 0 :=
  ⟨⟨timestamp, rfl⟩, rfl⟩

end Aesd.Server
