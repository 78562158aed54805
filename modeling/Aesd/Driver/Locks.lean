import Aesd.Driver.Atomic

/-!
# The locks of a step

* `Pc.held` : the locks that a call holds at a point. Every step changes it as its `LockOp` says (`Pc.exec_spec`);
* `Moves` : the step of one caller as the rest of the machine sees it;
* `Machine.stepCall_cases` : all that a step of a caller can be.
-/

namespace Aesd.Driver
open Lib

namespace Pc
variable {K : Kernel}

def held : Pc K → List Lock
  | .write _ _ w => w.held
  | .read _ _ r => r.held

def result : Pc K → Option Ret
  | .write _ _ w => w.result.map (⟨·, []⟩)
  | .read _ _ r => r.result

end Pc

/-- What a step does to the list of locks held. -/
def LockOp.Changes (old new : List Lock) : LockOp → Prop
  | .keep => new = old
  | .acquire l => new = old ++ [l]
  | .release l => old = new ++ [l]

section Exec
variable {K : Kernel} {s s' : AesdDev} {fpos fpos' : Nat} {pc pc' : Pc K}

theorem execWrite_held {buf : K.UserBuf} {o : WriteOutcome} {w w' : WritePc}
    (hs : execWrite K buf o s w = .ok (w', s')) : (w.lockOp o).Changes w.held w'.held := by
  cases w with
  | lockEntry =>
      cases hs
      by_cases h : o.entryLock = true <;> simp [h, WritePc.lockOp, LockOp.Changes, WritePc.held]
  | lockBuf =>
      cases hs
      by_cases h : o.bufLock = true <;> simp [h, WritePc.lockOp, LockOp.Changes, WritePc.held]
  | testPtr | testFull | outForWrap =>
      cases hs
      split_ifs <;> rfl
  | allocFresh | allocAppend =>
      simp only [execWrite] at hs
      split at hs <;> cases hs <;> rfl
  | copyFresh | copyAppend =>
      simp only [execWrite] at hs
      split_ifs at hs
      · obtain ⟨_, -, hs⟩ := bind_ok hs
        cases hs
        rfl
      · cases hs
        rfl
  | memcpy _ old =>
      cases old with
      | none => cases hs
      | some old =>
          obtain ⟨_, -, hs⟩ := bind_ok hs
          obtain ⟨_, -, hs⟩ := bind_ok hs
          cases hs
          rfl
  | testNewline ptr =>
      cases ptr with
      | none => cases hs
      | some p =>
          obtain ⟨_, -, hs⟩ := bind_ok hs
          split_ifs at hs <;> cases hs <;> rfl
  | freeOld | dropKbuf | freeDropped =>
      obtain ⟨_, -, hs⟩ := bind_ok hs
      cases hs
      rfl
  | _ =>
      cases hs
      rfl

theorem execRead_held {count : Nat} {o : ReadOutcome} {r r' : ReadPc}
    (hs : execRead K count o s fpos r = .ok (r', fpos')) : (r.lockOp o).Changes r.held r'.held := by
  cases r with
  | lockBuf =>
      cases hs
      by_cases h : o.bufLock = true <;> simp [h, ReadPc.lockOp, LockOp.Changes, ReadPc.held]
  | sizeForSum | outForEnd =>
      cases hs
      split_ifs <;> rfl
  | copy ptr =>
      cases ptr with
      | none => cases hs
      | some p =>
          obtain ⟨_, -, hs⟩ := bind_ok hs
          cases hs
          split_ifs <;> rfl
  | _ =>
      cases hs
      rfl

theorem Pc.exec_spec (hs : pc.exec s fpos = .ok (pc', s', fpos')) :
    (∀ i, pc'.call i = pc.call i) ∧ pc.lockOp.Changes pc.held pc'.held := by
  cases pc with
  | write buf o w =>
      obtain ⟨⟨w', s1⟩, he, hs⟩ := bind_ok hs
      cases hs
      exact ⟨fun _ => rfl, execWrite_held he⟩
  | read count o r =>
      obtain ⟨⟨r', fpos1⟩, he, hs⟩ := bind_ok hs
      cases hs
      exact ⟨fun _ => rfl, execRead_held he⟩

theorem Pc.held_nodup (pc : Pc K) : pc.held.Nodup := by
  unfold Pc.held WritePc.held ReadPc.held
  cases pc <;> dsimp only <;> split <;> decide

theorem WritePc.entryLock_mem {w : WritePc} (h : w.held ≠ []) : Lock.entryLock ∈ w.held := by
  unfold WritePc.held at h ⊢
  split <;> simp_all

theorem WritePc.cases_idle {w : WritePc} (h : w.held = []) : w = .lockEntry ∨ ∃ v, w = .ret v := by
  unfold WritePc.held at h
  split at h <;> simp_all

theorem WritePc.eq_unlockEntry {w : WritePc} (h : w.held ≠ []) {v : Int} (hv : w.result = some v) :
    w = .unlockEntry v := by
  unfold WritePc.result at hv
  split at hv
  · cases hv
    rfl
  · exact absurd rfl h
  · cases hv

theorem ReadPc.cases_idle {r : ReadPc} (h : r.held = []) : r = .lockBuf ∨ ∃ v, r = .ret v := by
  unfold ReadPc.held at h
  split at h <;> simp_all

theorem ReadPc.eq_unlockBuf {r : ReadPc} (h : r.held ≠ []) {v : Ret} (hv : r.result = some v) : r = .unlockBuf v := by
  unfold ReadPc.result at hv
  split at hv
  · cases hv
    rfl
  · exact absurd rfl h
  · cases hv

theorem ReadPc.bufLock_mem {r : ReadPc} (h : r.held ≠ []) : Lock.bufLock ∈ r.held := by
  unfold ReadPc.held at h ⊢
  split <;> simp_all

theorem Pc.returns_spec {v : Ret} (h : pc.returns = some v) : pc.result = some v ∧ pc.held = [] := by
  unfold Pc.returns at h
  split at h <;> cases h <;> exact ⟨rfl, rfl⟩

end Exec

/-- A step of a caller inside a call, as the rest of the machine sees it. -/
structure Moves {K : Kernel} (m : Machine K) (i : Nat) (r r' : Running K) (lock : Lock → Option Nat) : Prop where
  id : r'.id = r.id
  call : r'.pc.call i = r.pc.call i
  locks : r.acquired.Perm (r.released ++ r.pc.held) → r'.acquired.Perm (r'.released ++ r'.pc.held)
  holder : (∀ l, m.lock l = some i ↔ l ∈ r.pc.held) → ∀ l j, lock l = some j ↔
    if j = i then l ∈ r'.pc.held else m.lock l = some j

namespace Moves
variable {K : Kernel} {m : Machine K} {i : Nat} {r : Running K} {pc : Pc K} {l : Lock}

theorem keep (hcall : pc.call i = r.pc.call i) (hheld : pc.held = r.pc.held) :
    Moves m i r { r with pc := pc } m.lock where
  id := rfl
  call := hcall
  locks hperm := by
    dsimp only
    rw [hheld]
    exact hperm
  holder hown l j := by
    dsimp only
    rw [hheld]
    split_ifs with hj
    · rw [hj, hown]
    · rfl

theorem acquire (hcall : pc.call i = r.pc.call i) (hheld : pc.held = r.pc.held ++ [l]) (hfree : m.lock l = none) :
    Moves m i r { r with pc := pc, acquired := r.acquired ++ [l] } (Function.update m.lock l (some i)) where
  id := rfl
  call := hcall
  locks hperm := by
    dsimp only
    rw [hheld, ← List.append_assoc]
    exact hperm.append_right _
  holder hown l' j := by
    dsimp only
    rw [hheld, Function.update_apply]
    split_ifs with hl hj hj
    · simp [hl, hj]
    · subst hl
      simp [hfree, Ne.symm hj]
    · simp [hj, hown, hl]
    · rfl

theorem release (hcall : pc.call i = r.pc.call i) (hheld : r.pc.held = pc.held ++ [l]) :
    Moves m i r { r with pc := pc, released := r.released ++ [l] } (Function.update m.lock l none) where
  id := rfl
  call := hcall
  locks hperm := by
    dsimp only
    rw [hheld] at hperm
    rw [List.append_assoc]
    exact hperm.trans (List.perm_append_comm.append_left _)
  holder hown l' j := by
    have hnodup := r.pc.held_nodup
    rw [hheld] at hnodup
    have hlast : l ∉ pc.held := fun hl => (List.nodup_append.mp hnodup).2.2 l hl l (by simp) rfl
    have hl := (hown l).mpr (by simp [hheld])
    have hown' := hown l'
    rw [hheld] at hown'
    dsimp only
    rw [Function.update_apply]
    split_ifs with hl' hj hj
    · subst hl'
      simp [hlast]
    · subst hl'
      simp [hl, Ne.symm hj]
    · subst hj
      simpa [hl'] using hown'
    · rfl

end Moves

theorem Machine.stepCall_cases {K : Kernel} (m : Machine K) (i : Nat) (r : Running K) :
    m.stepCall i r = m ∨
    (∃ v, r.pc.returns = some v ∧ m.stepCall i r = m.leave i r v) ∨
    ∃ r' dev fpos lock, r.pc.returns = none ∧ r.pc.exec m.dev (m.fpos i) = .ok (r'.pc, dev, fpos) ∧
      (∀ l, r.pc.lockOp = .acquire l → m.lock l = none) ∧ Moves m i r r' lock ∧
      m.stepCall i r = m.move i r' dev fpos lock := by
  cases hret : r.pc.returns with
  | some v => exact Or.inr (Or.inl ⟨v, rfl, by simp only [stepCall, hret]⟩)
  | none =>
      cases hexec : r.pc.exec m.dev (m.fpos i) with
      | error e => exact Or.inl (by simp only [stepCall, hret, hexec])
      | ok x =>
          obtain ⟨pc, dev, fpos⟩ := x
          obtain ⟨hcall, hheld⟩ := Pc.exec_spec hexec
          cases hop : r.pc.lockOp with
          | keep =>
              rw [hop] at hheld
              exact Or.inr (Or.inr ⟨{ r with pc := pc }, dev, fpos, m.lock, rfl, rfl, by simp,
                .keep (hcall i) hheld, by simp only [stepCall, hret, hexec, hop]⟩)
          | acquire l =>
              rw [hop] at hheld
              by_cases hfree : m.lock l = none
              · refine Or.inr (Or.inr ⟨{ r with pc := pc, acquired := r.acquired ++ [l] }, dev, fpos, _, rfl, rfl, ?_,
                  .acquire (hcall i) hheld hfree, by simp only [stepCall, hret, hexec, hop, if_pos hfree]⟩)
                rintro l' ⟨⟩
                exact hfree
              · exact Or.inl (by simp only [stepCall, hret, hexec, hop, if_neg hfree])
          | release l =>
              rw [hop] at hheld
              exact Or.inr (Or.inr ⟨{ r with pc := pc, released := r.released ++ [l] }, dev, fpos, _, rfl, rfl, by simp,
                .release (hcall i) hheld, by simp only [stepCall, hret, hexec, hop]⟩)

end Aesd.Driver
