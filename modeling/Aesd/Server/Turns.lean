import Aesd.Server.Response

/-!
# Turns of the lock and what they append

* `System.bytes` : the buffers that a worker passed to `write`;
* `code_cases` : a step of a worker writes a buffer, takes its turn, or does neither;
* `View` : an output whose content is decided by the turns so far and by what the workers wrote in theirs;
* `Snapped v s` : what a response saw is the view of the turns before its own, which later steps do not change.
-/

namespace Aesd.Server
open Driver Lib

def System.buffers (s : System) (i : Nat) : List (List Byte) := (s.workers i).elim [] Worker.wrote

def System.bytes (s : System) (i : Nat) : List Byte := (s.workers i).elim [] fun w => w.wrote.flatten

section Bytes
variable {c : Config} {s s' : System} {i : Nat} {w : Worker}

theorem buffers_of_worker (hw : s.workers i = some w) : s.buffers i = w.wrote := by
  simp [System.buffers, hw]

theorem buffers_update (h : s'.workers = Function.update s.workers i (some w)) :
    s'.buffers = Function.update s.buffers i w.wrote := by
  funext j
  by_cases hj : j = i
  · subst hj
    simp [System.buffers, h]
  · simp [System.buffers, h, Function.update_of_ne hj]

theorem buffers_spawn (hw : s.workers i = none) :
    ({ s with workers := Function.update s.workers i (some {}) } : System).buffers = s.buffers := by
  have hnil : [] = s.buffers i := by simp [System.buffers, hw]
  rw [buffers_update rfl, hnil, Function.update_eq_self]

theorem buffers_shutdown (hw : s.workers i = some w) :
    ({ s with workers := Function.update s.workers i (some { w with shutdown := true }) } : System).buffers =
      s.buffers := by
  rw [buffers_update rfl, ← buffers_of_worker hw, Function.update_eq_self]

theorem System.bytes_eq (s : System) (i : Nat) : s.bytes i = (s.buffers i).flatten := by
  unfold bytes buffers
  cases s.workers i <;> rfl

theorem bytes_of_worker (hw : s.workers i = some w) : s.bytes i = w.wrote.flatten := by
  rw [s.bytes_eq, buffers_of_worker hw]

theorem bytes_congr (h : s'.buffers = s.buffers) : s'.bytes = s.bytes := by
  funext j
  rw [s'.bytes_eq, s.bytes_eq, h]

theorem bytes_update (h : s'.workers = Function.update s.workers i (some w)) :
    s'.bytes = Function.update s.bytes i w.wrote.flatten := by
  funext j
  rw [s'.bytes_eq, buffers_update h]
  by_cases hj : j = i
  · subst hj
    simp
  · rw [Function.update_of_ne hj, Function.update_of_ne hj, s.bytes_eq]

theorem bytes_same {w' : Worker} (hw : s.workers i = some w) (hwrote : w'.wrote = w.wrote)
    (h : s'.workers = Function.update s.workers i (some w')) : s'.bytes = s.bytes := by
  rw [bytes_update h, hwrote, ← bytes_of_worker hw, Function.update_eq_self]

theorem SysInv.last_turn (h : SysInv s) (hl : s.order.getLast? = some (.recv i)) :
    ∃ pre, s.order = pre ++ [.recv i] ∧ .recv i ∉ pre := by
  obtain ⟨pre, hpre⟩ := List.getLast?_eq_some_iff.mp hl
  refine ⟨pre, hpre, fun hmem => ?_⟩
  have hnodup := h.nodup
  rw [System.recvs, hpre, List.filterMap_append, List.nodup_append] at hnodup
  exact hnodup.2.2 i (List.mem_filterMap.mpr ⟨_, hmem, rfl⟩) i (by simp [Turn.recv?]) rfl

end Bytes

/-- What a step of a worker does to the output, to its buffers and to the order of turns. -/
theorem code_cases {c : Config} {s : System} (h : SysInv s) {i : Nat} {a : Answer} {w w' : Worker} {out : Output}
    {lock : Option Ctx} {order : List Turn} (hw : s.workers i = some w)
    (hexec : w.exec c i s.output a = .ok (w', out))
    (hlock : w.pc.lockOp.Takes s (.code i) (w.pc.turn i) lock order) :
    (∃ buf done ok, w.pc = .recvWrite buf done ∧ s.output.write c.K buf a = .ok (ok, out) ∧
      w' = { w with pc := if ok then .recvTest done else .recvClose true, wrote := w.wrote ++ [buf] } ∧
      order = s.order ∧ s.order.getLast? = some (.recv i)) ∨
    (out = s.output ∧ w'.wrote = w.wrote ∧ (∀ buf done, w.pc ≠ .recvWrite buf done) ∧
      ((order = s.order ∧ w.pc ≠ .recvLock ∧ w.pc ≠ .sendLock) ∨
        (s.lock = none ∧ w.pc = .recvLock ∧ w.wrote = [] ∧ order = s.order ++ [.recv i]) ∨
        (s.lock = none ∧ w.pc = .sendLock ∧ order = s.order ++ [.send i]))) := by
  rcases Worker.exec_output hexec with ⟨buf, done, ok, hpc, hwrite, rfl⟩ | ⟨hnot, rfl, hwrote⟩
  · left
    rw [hpc] at hlock
    exact ⟨buf, done, ok, hpc, hwrite, rfl, hlock.2, h.last i w hw (by rw [hpc]; rfl)⟩
  · right
    refine ⟨rfl, hwrote, hnot, ?_⟩
    rcases order_cases hlock with hkeep | ⟨hfree, hpc, horder⟩ | hsend
    · exact Or.inl hkeep
    · exact Or.inr (Or.inl ⟨hfree, hpc, h.fresh i w hw hpc, horder⟩)
    · exact Or.inr (Or.inr hsend)

/-! ## Views -/

/-- A content that is decided by the turns of the lock and by what the workers that received in them wrote. -/
structure View where
  eval : (Nat → List Byte) → List Turn → List Byte
  frame : ∀ bytes turns i b, .recv i ∉ turns → eval (Function.update bytes i b) turns = eval bytes turns

/-- The worker has taken its second turn. -/
def Worker.snapped (w : Worker) : Prop := w.pc.sending = true ∨ w.response ≠ none

def Snapped (v : View) (s : System) : Prop :=
  ∀ i w, s.workers i = some w → w.snapped →
    ∃ upto rest, s.order = upto ++ .send i :: rest ∧ .recv i ∈ upto ∧ w.snapshot = v.eval s.bytes upto

theorem Worker.exec_snapped {c : Config} {i : Nat} {out out' : Output} {a : Answer} {w w' : Worker}
    (h : w.exec c i out a = .ok (w', out')) (hs : w'.snapped) :
    (w.pc = .sendLock ∧ w'.snapshot = out.content) ∨ (w.snapped ∧ w'.snapshot = w.snapshot) := by
  obtain ⟨hnext, -⟩ := Worker.exec_next h
  obtain ⟨hsnap, hresp⟩ := Worker.exec_response h
  by_cases hpc : w.pc = .sendLock
  · left
    refine ⟨hpc, ?_⟩
    simp only [Worker.exec, hpc] at h
    cases h
    rfl
  · right
    refine ⟨?_, hsnap.resolve_right fun hc => hpc hc.1⟩
    rcases hs with hs | hs
    · exact Or.inl ((hnext.sending hs).resolve_right hpc)
    · rcases hresp with hresp | ⟨result, hresp⟩
      · rw [hresp] at hs
        exact Or.inr hs
      · exact Or.inl (by rw [hresp]; rfl)

namespace Snapped
variable {v : View} {c : Config} {s : System}

theorem init (v : View) (out : Output) : Snapped v { output := out } := fun i w hw => by simp at hw

/-- A worker that writes does so in the last turn, after every turn that a response saw. -/
theorem not_mem_upto (h : SysInv s) {i : Nat} (hlast : s.order.getLast? = some (.recv i)) {upto rest : List Turn}
    {j : Nat} (horder : s.order = upto ++ .send j :: rest) : .recv i ∉ upto := by
  obtain ⟨pre, hpre, hnot⟩ := h.last_turn hlast
  intro hmem
  apply hnot
  rw [horder] at hpre
  rcases List.eq_nil_or_concat rest with rfl | ⟨rest, t, rfl⟩
  · obtain ⟨-, hc⟩ := List.append_inj' hpre rfl
    cases hc
  · rw [List.concat_eq_append, ← List.cons_append, ← List.append_assoc] at hpre
    obtain ⟨rfl, -⟩ := List.append_inj' hpre rfl
    exact List.mem_append_left _ hmem

/-- Every response that was taken keeps its turns and its view. -/
theorem keep (hs : Snapped v s) (h : SysInv s) {l : Label} {s' : System} (ht : Trans c s l s') {j : Nat} {u : Worker}
    (hu : s.workers j = some u) (hsnap : u.snapped) :
    ∃ upto rest, s'.order = upto ++ .send j :: rest ∧ .recv j ∈ upto ∧ u.snapshot = v.eval s'.bytes upto := by
  obtain ⟨upto, rest, horder, hmem, hview⟩ := hs j u hu hsnap
  cases ht with
  | stay => exact ⟨upto, rest, horder, hmem, hview⟩
  | alarm i text content hf hh => exact ⟨upto, rest, horder, hmem, hview⟩
  | spawn i hw =>
      rw [bytes_congr (buffers_spawn hw)]
      exact ⟨upto, rest, horder, hmem, hview⟩
  | shutdown i w hw =>
      rw [bytes_congr (buffers_shutdown hw)]
      exact ⟨upto, rest, horder, hmem, hview⟩
  | handler i a p p' out lock order hp hexec hlock =>
      rcases alarm_order_cases hlock with rfl | ⟨-, text, -, rfl⟩
      · exact ⟨upto, rest, horder, hmem, hview⟩
      · exact ⟨upto, rest ++ [.alarm text], by simp [horder], hmem, hview⟩
  | code i a w w' out lock order hh hw hexec hlock =>
      rcases code_cases h hw hexec hlock with ⟨buf, done, ok, -, -, -, ho, hlast⟩ | ⟨-, hwrote, -, ho⟩
      · refine ⟨upto, rest, ho.trans horder, hmem, ?_⟩
        rw [bytes_update rfl, v.frame _ _ _ _ (not_mem_upto h hlast horder)]
        exact hview
      · rw [bytes_same hw hwrote rfl]
        rcases ho with ⟨ho, -, -⟩ | ⟨-, -, -, ho⟩ | ⟨-, -, ho⟩
        · exact ⟨upto, rest, ho.trans horder, hmem, hview⟩
        · exact ⟨upto, rest ++ [.recv i], by simp [ho, horder], hmem, hview⟩
        · exact ⟨upto, rest ++ [.send i], by simp [ho, horder], hmem, hview⟩

theorem second (h : SysInv s) (hview : s.lock = none → s.output.content = v.eval s.bytes s.order) {i : Nat} {a : Answer}
    {w w' : Worker} {s' : System} (hw : s.workers i = some w) (hexec : w.exec c i s.output a = .ok (w', s'.output))
    (hlock : w.pc.lockOp.Takes s (.code i) (w.pc.turn i) s'.lock s'.order)
    (hset : s'.workers = Function.update s.workers i (some w')) (hpc : w.pc = .sendLock)
    (hshot : w'.snapshot = s.output.content) :
    s'.order = s.order ++ [.send i] ∧ .recv i ∈ s.order ∧ w'.snapshot = v.eval s'.bytes s.order := by
  rcases code_cases h hw hexec hlock with ⟨_, _, _, hc, -⟩ | ⟨-, hwrote, -, ho⟩
  · rw [hpc] at hc
    cases hc
  · rcases ho with ⟨-, -, hc⟩ | ⟨-, hc, -⟩ | ⟨hfree, -, ho⟩
    · exact absurd hpc hc
    · rw [hpc] at hc
      cases hc
    · have hmem : i ∈ s.recvs := (h.started i).mpr ⟨w, hw, by simp [hpc]⟩
      obtain ⟨t, ht, hti⟩ := List.mem_filterMap.mp hmem
      have hrecv : .recv i ∈ s.order := by
        cases t <;> cases hti
        exact ht
      refine ⟨ho, hrecv, ?_⟩
      rw [hshot, hview hfree, bytes_same hw hwrote hset]

theorem trans (hs : Snapped v s) (h : SysInv s) (hview : s.lock = none → s.output.content = v.eval s.bytes s.order)
    {l : Label} {s' : System} (ht : Trans c s l s') : Snapped v s' := by
  refine ht.workers (fun j u hu => hs.keep h ht hu) (fun i hsnap => ?_) (fun i w hw => hw)
    fun i a w w' _ hw hexec hlock hset hsnap => ?_
  · rcases hsnap with hc | hc
    · cases hc
    · exact absurd rfl hc
  · rcases Worker.exec_snapped hexec hsnap with ⟨hpc, hshot⟩ | ⟨hold, hshot⟩
    · obtain ⟨ho, hrecv, hview'⟩ := second h hview hw hexec hlock hset hpc hshot
      exact ⟨s.order, [], ho, hrecv, hview'⟩
    · rw [hshot]
      exact hs.keep h ht hw hold

end Snapped

end Aesd.Server
