import Aesd.Driver.Simulation

/-!
# The two locks make the calls atomic

* `Explains m log s` : the sequential run `log` accounts for everything the callers of `m` have seen;
* `Sim.rank_lt` : a caller waits only for callers that are closer to running;
* `calls_are_atomic` : the sequential order, the locks and the absence of cycles, for every interleaving.
-/

namespace Aesd.Driver
open Lib

/-- The sequential run `log`, which ends in `s`, explains what the callers of `m` have seen. -/
structure Explains {K : Kernel} (m : Machine K) (log : List (Effect (Call K) Ret)) (s : State) : Prop where
  replay : runCalls K State.init (log.map Effect.op) = .ok (log.map Effect.val, s)
  lin : Linearizes m.history log
  fpos : s.fpos = m.fpos
  dev : (∀ l, m.lock l = none) → s.dev = m.dev
  quiet : m.Quiet → (∀ l, m.lock l = none) ∧ ∀ e ∈ log, .ret e.id e.val ∈ m.history

namespace Sim
variable {K : Kernel} {m : Machine K} {σ : State} {log : List (Effect (Call K) Ret)}

theorem explains (h : Sim m σ log) : Explains m log σ where
  replay := h.replay
  lin := h.lin
  fpos := h.fpos
  dev hfree := (h.dev (hfree _)).symm
  quiet hquiet := by
    refine ⟨fun l => ?_, fun e he => ?_⟩
    · cases hl : m.lock l with
      | none => rfl
      | some i =>
          obtain ⟨r, hr, -⟩ := (h.holder l i).mp hl
          rw [hquiet i] at hr
          cases hr
    · rcases h.effects e he with hret | ⟨i, r, hr, -⟩
      · exact hret
      · rw [hquiet i] at hr
        cases hr

/-- How far a caller is from running: before `entry_lock`, before `buf_lock`, or not waiting. -/
def rank (m : Machine K) (i : Nat) : Nat :=
  match m.callers i with
  | none => 0
  | some r =>
    match r.pc.wants with
    | none => 0
    | some .bufLock => 1
    | some .entryLock => 2

/-- What a caller holds comes after what it waits for. -/
theorem wants_held {pc : Pc K} {l : Lock} (hl : pc.wants = some l) :
    .bufLock ∉ pc.held ∧ (l = .entryLock → pc.held = []) := by
  unfold Pc.wants at hl
  split at hl <;> cases hl <;> simp [Pc.held, WritePc.held, ReadPc.held]

theorem rank_lt (h : Sim m σ log) {i j : Nat} (hw : m.WaitsFor i j) : rank m j < rank m i := by
  obtain ⟨r, l, hr, hwants, hl⟩ := hw
  obtain ⟨q, hq, hmem⟩ := (h.holder l j).mp hl
  unfold rank
  simp only [hr, hq, hwants]
  cases hqw : q.pc.wants with
  | none => cases l <;> decide
  | some l' =>
      obtain ⟨hbuf, hentry⟩ := wants_held hqw
      cases l with
      | bufLock => exact absurd hmem hbuf
      | entryLock =>
          cases l' with
          | bufLock => decide
          | entryLock =>
              rw [hentry rfl] at hmem
              cases hmem

end Sim

/-- **The two locks make every call atomic.** For every interleaving of any number of callers there is a sequential order
of the calls that returned (and of those that took effect and are about to return), which keeps to the order in which
calls returned and began; each of them returns there what it returned, and it ends in the same device. Every call that
returned released the locks it acquired, and no callers wait for each other in a circle. -/
theorem calls_are_atomic (K : Kernel) (labels : List (Label K)) :
    (∃ log s, Explains ((Machine.init K).run labels) log s) ∧
      (∀ id v, .ret id v ∈ ((Machine.init K).run labels).history →
        ∃ f ∈ ((Machine.init K).run labels).finished, f.id = id) ∧
      (∀ f ∈ ((Machine.init K).run labels).finished, f.acquired.Perm f.released) ∧
      (∀ i l, ((Machine.init K).run labels).callers i = none → ((Machine.init K).run labels).lock l ≠ some i) ∧
      ∀ i, ¬ Relation.TransGen ((Machine.init K).run labels).WaitsFor i i := by
  obtain ⟨σ, log, h⟩ := (Sim.init K).run labels
  refine ⟨⟨log, σ, h.explains⟩, h.returned, h.finished, fun i l hidle hl => ?_, fun i => ?_⟩
  · obtain ⟨r, hr, -⟩ := (h.holder l i).mp hl
    rw [hidle] at hr
    cases hr
  · exact not_transGen_self (Sim.rank _) (fun _ _ hw => h.rank_lt hw) i

end Aesd.Driver
