import Aesd.Driver.PacketLog

/-!
# Failed writes and the ownership of buffers

The append branch of `aesd_write` frees the pending buffer before `copy_from_user` is known to succeed, and the second
lock is taken after the new bytes are already in the pending entry.

* `SameView`, `failed_write_unchanged_iff` : when a failing write leaves the device as it was;
* `Owned` : each live block is held by exactly one of the pending entry and the ten slots; `ownedRun_iff` : the runs in
  which it stays so, without a use of a dead block.
-/

namespace Aesd.Driver
open Lib

variable {K : Kernel}

/-! ## Failed writes -/

/-- The pending bytes, the ring with its indices and flag, and the content are the same. -/
structure SameView (s s' : AesdDev) : Prop where
  pending : s'.pending = s.pending
  buf : s'.buf = s.buf
  committed : s'.committed = s.committed
  readable : s'.readable = s.readable

theorem SameView.refl (s : AesdDev) : SameView s s := ⟨rfl, rfl, rfl, rfl⟩

/-- The device stands for the same log, so a retry of the same bytes neither loses nor repeats any. -/
theorem SameView.refines {s s' : AesdDev} (h : SameView s s') (hinv : ∃ items, Inv K s' items) {log : PacketLog}
    (hl : Refines K s log) : Refines K s' log :=
  ⟨hinv, h.pending.trans hl.pending, h.committed.trans hl.committed⟩

/-- The write gets past `kzalloc`, and then the pending buffer is one that an earlier failed copy freed, or
`copy_from_user` fails in the append branch, or the wait for `buf_lock` is interrupted after some bytes were stored. -/
def Spoils (K : Kernel) (s : AesdDev) (buf : K.UserBuf) (o : WriteOutcome) : Prop :=
  o.entryLock = true ∧ Granted K s buf.val.length o ∧
    (s.pending = none ∨ s.entry.buffptr ≠ none ∧ o.copyFromUser = false ∨
      o.copyFromUser = true ∧ o.bufLock = false ∧ 0 < buf.val.length)

/-- The write uses no freed block on its way to an exit, and if it returns an error the device is as before. A fault in
the newline test is left to that test: behind it a write returns `count`. -/
structure FailsClean (K : Kernel) (s : AesdDev) (buf : K.UserBuf) (o : WriteOutcome) : Prop where
  runs : o.entryLock = true → ∃ x, writeEntry K s buf.val o = .ok x
  same : ∀ r s', aesdWrite K s buf o = .ok (r, s') → r < 0 →
    SameView s s' ∧ ∀ log, Refines K s log → Refines K s' log

theorem pending_copyFailed {s : AesdDev} {data : List Byte} (hd : Pend K s data) (buf : List Byte) {p : Nat}
    (hp : s.entry.buffptr = some p) : (s.copyFailed data buf).pending = none := by
  have hholds := hd.holds p hp
  have hlt := hholds.lt
  have hblock : (s.copyFailed data buf).heap.block p = some ⟨data, false⟩ := by
    simp only [AesdDev.copyFailed, hp, Heap.freeOpt]
    rw [Heap.block_push, if_neg (by rw [Heap.length_free]; omega), Heap.block_free, hholds]
    rfl
  rw [AesdDev.pending, Heap.bytes, show (s.copyFailed data buf).entry.buffptr = some p from hp]
  simp only [hblock]

theorem sameView_copyFailed {s : AesdDev} {items : List AesdBufferEntry} (h : Inv K s items) {data : List Byte}
    (hd : Pend K s data) (buf : List Byte) (hp : s.entry.buffptr = none) : SameView s (s.copyFailed data buf) where
  pending := by
    rw [AesdDev.pending, AesdDev.pending, Heap.bytes, Heap.bytes,
      show (s.copyFailed data buf).entry.buffptr = none from hp, hp]
  buf := rfl
  committed := rfl
  readable := by
    rw [(h.copyFailed hd buf).readable_eq, h.readable_eq]
    rfl

theorem sameView_stored_nil {s : AesdDev} {items : List AesdBufferEntry} (h : Inv K s items) {data : List Byte}
    (hd : Pend K s data) : SameView s (s.stored data []) := by
  have hle : data.length + ([] : List Byte).length ≤ K.kmallocMax := hd.size_le
  refine ⟨?_, rfl, rfl, ?_⟩
  · rw [(Inv.pend_stored hle).pending, hd.pending, List.append_nil]
  · rw [(h.stored hle).readable_eq, h.readable_eq]
    rfl

theorem writeEntry_dangling {s : AesdDev} {items : List AesdBufferEntry} (h : Inv K s items) (hp : s.pending = none)
    {buf : K.UserBuf} {o : WriteOutcome} (hlock : o.entryLock = true) (hgrant : Granted K s buf.val.length o) :
    ¬ ∃ x, writeEntry K s buf.val o = .ok x := by
  rintro ⟨⟨exit, s1⟩, hw⟩
  obtain ⟨p, heq⟩ := aesdWrite_dangling h hp buf { o with bufLock := false }
  rw [if_pos (by exact hlock), if_pos (by exact hgrant), aesdWrite, if_pos (by exact hlock),
    show writeEntry K s buf.val { o with bufLock := false } = writeEntry K s buf.val o from rfl, hw] at heq
  cases exit <;> cases heq

/-- On a device with a pending buffer, a write that spoils it returns an error and loses or keeps pending bytes that it
should not. -/
theorem not_sameView_of_spoils {s : AesdDev} {items : List AesdBufferEntry} (h : Inv K s items) {data : List Byte}
    (hp : s.pending = some data) {buf : K.UserBuf} {o : WriteOutcome} (hs : Spoils K s buf o) :
    ∃ r s', aesdWrite K s buf o = .ok (r, s') ∧ r < 0 ∧ ¬ SameView s s' := by
  obtain ⟨hlock, hgrant, hexit⟩ := hs
  have hd := h.pend hp
  have hle : data.length + buf.val.length ≤ K.kmallocMax := allocSize_eq h hp buf.property ▸ hgrant.2
  rw [aesdWrite_eq h hp, if_pos hlock, if_pos hgrant]
  rcases hexit with hnone | ⟨hptr, hcopy⟩ | ⟨hcopy, hbuf, hpos⟩
  · rw [hp] at hnone
    cases hnone
  · obtain ⟨p, hptr⟩ := Option.ne_none_iff_exists'.mp hptr
    refine ⟨-EFAULT, _, by rw [hcopy]; rfl, by decide, fun hsame => ?_⟩
    have := hsame.pending
    rw [pending_copyFailed hd buf.val hptr, hp] at this
    cases this
  · refine ⟨-EINTR, _, by rw [hcopy, hbuf]; rfl, by decide, fun hsame => ?_⟩
    have := hsame.pending
    rw [(Inv.pend_stored hle).pending, hp, Option.some.injEq, List.append_right_eq_self] at this
    simp [this] at hpos

theorem writeEntry_of_not_spoils {s : AesdDev} {items : List AesdBufferEntry} (h : Inv K s items) {buf : K.UserBuf}
    {o : WriteOutcome} (hspoil : ¬ Spoils K s buf o) (hlock : o.entryLock = true) :
    ∃ x, writeEntry K s buf.val o = .ok x := by
  cases hp : s.pending with
  | none =>
      have hgrant : ¬ Granted K s buf.val.length o := fun hg => hspoil ⟨hlock, hg, Or.inl hp⟩
      obtain ⟨p, heq⟩ := aesdWrite_dangling h hp buf o
      rw [if_pos hlock, if_neg hgrant, aesdWrite, if_pos hlock] at heq
      obtain ⟨x, hx, -⟩ := bind_ok heq
      exact ⟨x, hx⟩
  | some data =>
      rw [writeEntry_eq (h.pend hp) buf.val buf.property]
      split_ifs <;> exact ⟨_, rfl⟩

theorem sameView_of_not_spoils {s : AesdDev} {items : List AesdBufferEntry} (h : Inv K s items) {buf : K.UserBuf}
    {o : WriteOutcome} (hspoil : ¬ Spoils K s buf o) {r : Int} {s' : AesdDev}
    (hw : aesdWrite K s buf o = .ok (r, s')) (hr : r < 0) : SameView s s' := by
  cases hp : s.pending with
  | none =>
      obtain ⟨p, heq⟩ := aesdWrite_dangling h hp buf o
      rw [heq] at hw
      split_ifs at hw <;> cases hw <;> exact SameView.refl _
  | some data =>
      have hd := h.pend hp
      rw [aesdWrite_eq h hp] at hw
      by_cases hlock : o.entryLock = true
      · rw [if_pos hlock] at hw
        by_cases hgrant : Granted K s buf.val.length o
        · rw [if_pos hgrant] at hw
          by_cases hcopy : o.copyFromUser = true
          · rw [if_pos hcopy] at hw
            by_cases hbuf : o.bufLock = true
            · rw [if_pos hbuf] at hw
              split_ifs at hw <;> cases hw <;> omega
            · -- interrupted at `buf_lock`: only a write of no bytes gets here
              rw [if_neg hbuf] at hw
              cases hw
              have hnil : buf.val = [] := by
                by_contra hne
                exact hspoil ⟨hlock, hgrant,
                  Or.inr (Or.inr ⟨hcopy, by simpa using hbuf, List.length_pos_iff.mpr hne⟩)⟩
              rw [hnil]
              exact sameView_stored_nil h hd
          · rw [if_neg hcopy] at hw
            cases hw
            have hnull : s.entry.buffptr = none := by
              by_contra hne
              exact hspoil ⟨hlock, hgrant, Or.inr (Or.inl ⟨hne, by simpa using hcopy⟩)⟩
            exact sameView_copyFailed h hd buf.val hnull
        · rw [if_neg hgrant] at hw
          cases hw
          exact SameView.refl _
      · rw [if_neg hlock] at hw
        cases hw
        exact SameView.refl _

/-- **When a failing write is atomic**: on every device that calls can reach, failed calls included, exactly when the
write does not spoil it. -/
theorem failed_write_unchanged_iff (K : Kernel) (s : State) (hs : Reachable K s) (buf : K.UserBuf) (o : WriteOutcome) :
    FailsClean K s.dev buf o ↔ ¬ Spoils K s.dev buf o := by
  obtain ⟨items, h⟩ := Inv.of_reachable hs
  constructor
  · intro hclean hspoil
    cases hp : s.dev.pending with
    | none => exact writeEntry_dangling h hp hspoil.1 hspoil.2.1 (hclean.runs hspoil.1)
    | some data =>
        obtain ⟨r, s', hw, hr, hdiff⟩ := not_sameView_of_spoils h hp hspoil
        exact hdiff (hclean.same r s' hw hr).1
  · intro hspoil
    refine ⟨fun hlock => writeEntry_of_not_spoils h hspoil hlock, fun r s' hw hr => ?_⟩
    have hsame := sameView_of_not_spoils h hspoil hw hr
    exact ⟨hsame, fun log hl => hsame.refines (h.aesdWrite hw) hl⟩

def unfinished : State := { State.init with dev := aesdInitModule.stored [] letterA.val }

theorem reachable_unfinished : Reachable .linux64 unfinished :=
  ⟨[.write 0 letterA {}], [⟨1, []⟩], rfl⟩

/-- The device after the copy of a second write failed: its pending entry points to a dead block. -/
def dangling : State := { unfinished with dev := unfinished.dev.copyFailed letterA.val newline.val }

theorem reachable_dangling : Reachable .linux64 dangling :=
  ⟨[.write 0 letterA {}, .write 0 newline { copyFromUser := false }], [⟨1, []⟩, ⟨-EFAULT, []⟩], rfl⟩

/-- With a packet unfinished, a write that `kzalloc` refuses meets the condition; behind a failed copy, one that is
interrupted at `buf_lock` does not. -/
theorem failed_write_unchanged_iff_unfinished :
    FailsClean .linux64 unfinished.dev newline { kzalloc := false } ∧
      ¬ FailsClean .linux64 dangling.dev letterA { bufLock := false } :=
  ⟨(failed_write_unchanged_iff .linux64 unfinished reachable_unfinished newline { kzalloc := false }).mpr
      fun hs => Bool.false_ne_true hs.2.1.1,
    fun hc => (failed_write_unchanged_iff .linux64 dangling reachable_dangling letterA { bufLock := false }).mp hc
      ⟨rfl, ⟨rfl, by decide⟩, Or.inl rfl⟩⟩

/-- With a packet unfinished, a failed copy from user space loses the pending bytes. -/
theorem failed_write_changes_pending :
    ¬ ∀ (K : Kernel) (s : State), Reachable K s → ∀ (buf : K.UserBuf) (o : WriteOutcome) (r : Int) (s' : AesdDev),
      aesdWrite K s.dev buf o = .ok (r, s') → r < 0 → SameView s.dev s' := by
  intro hall
  have hsame := hall .linux64 unfinished reachable_unfinished newline { copyFromUser := false } (-EFAULT)
    (unfinished.dev.copyFailed letterA.val newline.val) rfl (by decide)
  have hpend := hsame.pending
  revert hpend
  decide

/-! ## Who holds a block -/

/-- The pointer in the pending entry or in one of the ten slots. -/
def AesdDev.place (s : AesdDev) : Option (Fin AESDCHAR_MAX_WRITE_OPERATIONS_SUPPORTED) → Option Nat
  | none => s.entry.buffptr
  | some i => (s.buf.slot i).buffptr

/-- The pointers are distinct live blocks, and every live block is in exactly one place. -/
structure Owned (s : AesdDev) : Prop where
  live : ∀ h p, s.place h = some p → s.heap.Live p
  distinct : ∀ h h' p, s.place h = some p → s.place h' = some p → h = h'
  held : ∀ p, s.heap.Live p → ∃! h, s.place h = some p

theorem Inv.slot_index {s : AesdDev} {items : List AesdBufferEntry} (h : Inv K s items)
    (i : Fin AESDCHAR_MAX_WRITE_OPERATIONS_SUPPORTED) {p : Nat} (hp : (s.buf.slot i).buffptr = some p) :
    ∃ k, ∃ hk : k < items.length, (s.buf.outOffs + k) % 10 = i ∧ items[k].buffptr = some p := by
  obtain ⟨k, hk, hi⟩ := exists_add_mod h.rep.out_lt i.isLt
  by_cases hlt : k < items.length
  · rw [← hi, h.rep.slot_held hlt] at hp
    exact ⟨k, hlt, hi, hp⟩
  · rw [← hi, h.rep.slot_unused (by omega) hk] at hp
    cases hp

theorem Inv.mem_of_slot {s : AesdDev} {items : List AesdBufferEntry} (h : Inv K s items)
    (i : Fin AESDCHAR_MAX_WRITE_OPERATIONS_SUPPORTED) {p : Nat} (hp : (s.buf.slot i).buffptr = some p) :
    some p ∈ items.map AesdBufferEntry.buffptr := by
  obtain ⟨k, hk, -, he⟩ := h.slot_index i hp
  rw [← he]
  exact List.mem_map_of_mem (List.getElem_mem hk)

theorem Inv.place_inj {s : AesdDev} {items : List AesdBufferEntry} (h : Inv K s items)
    {a b : Option (Fin AESDCHAR_MAX_WRITE_OPERATIONS_SUPPORTED)} {p : Nat} (ha : s.place a = some p)
    (hb : s.place b = some p) : a = b := by
  cases a with
  | none =>
      cases b with
      | none => rfl
      | some j =>
          have hpend : s.entry.buffptr = some p := ha
          exact absurd (hpend ▸ h.mem_of_slot j hb) h.apart
  | some i =>
      cases b with
      | none =>
          have hpend : s.entry.buffptr = some p := hb
          exact absurd (hpend ▸ h.mem_of_slot i ha) h.apart
      | some j =>
          obtain ⟨k, hk, hi, hek⟩ := h.slot_index i ha
          obtain ⟨l, hl, hj, hel⟩ := h.slot_index j hb
          have hitem : items[k] = items[l] :=
            List.inj_on_of_nodup_map h.nodup (List.getElem_mem hk) (List.getElem_mem hl) (hek.trans hel.symm)
          obtain rfl : k = l := (List.Nodup.of_map _ h.nodup).getElem_inj_iff.mp hitem
          rw [Option.some.injEq, Fin.ext_iff, ← hi, ← hj]

theorem Inv.owned_of_pending {s : AesdDev} {items : List AesdBufferEntry} (h : Inv K s items) {data : List Byte}
    (hp : s.pending = some data) : Owned s where
  live a p ha := by
    cases a with
    | none => exact ⟨data, (h.pend hp).holds p ha⟩
    | some i =>
        obtain ⟨e, he, hep⟩ := List.mem_map.mp (h.mem_of_slot i ha)
        obtain ⟨q, d, hq, hd, -⟩ := h.held e he
        rw [hep] at hq
        cases hq
        exact ⟨d, hd⟩
  distinct a b p ha hb := h.place_inj ha hb
  held p hlive := by
    rcases h.owned p hlive with hpend | hring
    · exact ⟨none, hpend, fun b hb => h.place_inj hb hpend⟩
    · obtain ⟨e, he, hep⟩ := List.mem_map.mp hring
      obtain ⟨k, hk, rfl⟩ := List.mem_iff_getElem.mp he
      have hslot : s.place (some ⟨(s.buf.outOffs + k) % 10, Nat.mod_lt _ (by decide)⟩) = some p := by
        simp only [AesdDev.place]
        rw [h.rep.slot_held hk, hep]
      exact ⟨_, hslot, fun b hb => h.place_inj hb hslot⟩

/-! ## Runs that keep the ownership -/

/-- The run reaches its end without a fault, and every state between two calls is `Owned`. -/
def OwnedRun (K : Kernel) : State → List (Call K) → Prop
  | s, [] => Owned s.dev
  | s, c :: cs => Owned s.dev ∧ ∃ r s', applyCall K s c = .ok (r, s') ∧ OwnedRun K s' cs

def KeepsPending (K : Kernel) (s : State) : Call K → Prop
  | .write _ buf o =>
    o.entryLock = true → Granted K s.dev buf.val.length o → s.dev.entry.buffptr ≠ none → o.copyFromUser = true
  | .read _ _ _ => True

def Call.count {K : Kernel} : Call K → Nat
  | .write _ buf _ => buf.val.length
  | .read _ count _ => count

theorem OwnedRun.owned {s : State} {calls : List (Call K)} (h : OwnedRun K s calls) : Owned s.dev := by
  cases calls with
  | nil => exact h
  | cons c cs => exact h.1

theorem applyCall_keeps {s : State} {items : List AesdBufferEntry} (h : Inv K s.dev items) {data : List Byte}
    (hp : s.dev.pending = some data) {c : Call K} (hc : 1 ≤ c.count) (hk : KeepsPending K s c) :
    ∃ r s', applyCall K s c = .ok (r, s') ∧ ∃ data', s'.dev.pending = some data' := by
  cases c with
  | read filp count o =>
      obtain ⟨ret, hr⟩ := aesdRead_total h (s.fpos filp) count o
      exact ⟨_, _, applyCall_read hr, data, hp⟩
  | write filp buf o =>
      have hcat : ¬ data ++ buf.val = [] := by
        have : buf.val ≠ [] := List.length_pos_iff.mp hc
        simp [this]
      obtain ⟨r, dev, hw, data', hp'⟩ : ∃ r dev, aesdWrite K s.dev buf o = .ok (r, dev) ∧
          ∃ data', dev.pending = some data' := by
        rw [aesdWrite_eq h hp]
        by_cases hlock : o.entryLock = true
        · by_cases hgrant : Granted K s.dev buf.val.length o
          · have hle : data.length + buf.val.length ≤ K.kmallocMax := allocSize_eq h hp buf.property ▸ hgrant.2
            have hpend := (Inv.pend_stored (s := s.dev) hle).pending
            rw [if_pos hlock, if_pos hgrant]
            by_cases hcopy : o.copyFromUser = true
            · rw [if_pos hcopy, if_neg hcat]
              split_ifs
              · exact ⟨_, _, rfl, [], rfl⟩
              · exact ⟨_, _, rfl, _, hpend⟩
              · exact ⟨_, _, rfl, _, hpend⟩
            · rw [if_neg hcopy]
              have hnull : s.dev.entry.buffptr = none := by
                by_contra hne
                exact hcopy (hk hlock hgrant hne)
              exact ⟨_, _, rfl, data, (sameView_copyFailed h (h.pend hp) buf.val hnull).pending.trans hp⟩
          · rw [if_pos hlock, if_neg hgrant]
            exact ⟨_, _, rfl, data, hp⟩
        · rw [if_neg hlock]
          exact ⟨_, _, rfl, data, hp⟩
      exact ⟨_, _, applyCall_write hw, data', hp'⟩

theorem applyCall_spoils {s : State} {items : List AesdBufferEntry} (h : Inv K s.dev items) {data : List Byte}
    (hp : s.dev.pending = some data) {c : Call K} (hk : ¬ KeepsPending K s c) {r : Ret} {s' : State}
    (hc : applyCall K s c = .ok (r, s')) : ¬ Owned s'.dev := by
  cases c with
  | read filp count o => exact absurd trivial hk
  | write filp buf o =>
      simp only [KeepsPending, not_forall] at hk
      obtain ⟨hlock, hgrant, hne, hcopy⟩ := hk
      obtain ⟨p, hptr⟩ := Option.ne_none_iff_exists'.mp hne
      have hd := h.pend hp
      have hw : aesdWrite K s.dev buf o = .ok (-EFAULT, s.dev.copyFailed data buf.val) := by
        rw [aesdWrite_eq h hp, if_pos hlock, if_pos hgrant, if_neg hcopy]
      rw [applyCall_write hw] at hc
      cases hc
      intro howned
      obtain ⟨d, hd'⟩ := howned.live none p hptr
      have hnone := pending_copyFailed hd buf.val hptr
      rw [AesdDev.pending, Heap.bytes,
        show (s.dev.copyFailed data buf.val).entry.buffptr = some p from hptr] at hnone
      simp [show (s.dev.copyFailed data buf.val).heap.block p = some ⟨d, true⟩ from hd'] at hnone

theorem ownedRun_iff_along {s : State} {items : List AesdBufferEntry} (h : Inv K s.dev items) {data : List Byte}
    (hp : s.dev.pending = some data) {calls : List (Call K)} (hc : ∀ c ∈ calls, 1 ≤ c.count) :
    OwnedRun K s calls ↔ Along K (KeepsPending K) s calls := by
  induction calls generalizing s items data with
  | nil => exact ⟨fun _ => trivial, fun _ => h.owned_of_pending hp⟩
  | cons c cs ih =>
      have hcs : ∀ c ∈ cs, 1 ≤ c.count := fun d hd => hc d (by simp [hd])
      constructor
      · rintro ⟨-, r, s', hstep, hrun⟩
        have hk : KeepsPending K s c := by
          by_contra hk
          exact applyCall_spoils h hp hk hstep hrun.owned
        obtain ⟨r1, s1, hstep1, data', hp'⟩ := applyCall_keeps h hp (hc c (by simp)) hk
        rw [hstep] at hstep1
        cases hstep1
        obtain ⟨items', h'⟩ := h.applyCall hstep
        refine ⟨hk, ?_⟩
        rw [hstep]
        exact (ih h' hp' hcs).mp hrun
      · rintro ⟨hk, hrest⟩
        obtain ⟨r, s', hstep, data', hp'⟩ := applyCall_keeps h hp (hc c (by simp)) hk
        obtain ⟨items', h'⟩ := h.applyCall hstep
        rw [hstep] at hrest
        exact ⟨h.owned_of_pending hp, r, s', hstep, (ih h' hp' hcs).mpr hrest⟩

/-- **Who owns the buffers**: a run of calls for at least one byte keeps every block in exactly one place and never uses
a dead one, exactly when no copy from user space fails while a packet is unfinished. -/
theorem ownedRun_iff (K : Kernel) (calls : List (Call K)) (hc : ∀ c ∈ calls, 1 ≤ c.count) :
    OwnedRun K State.init calls ↔ Along K (KeepsPending K) State.init calls :=
  ownedRun_iff_along (s := State.init) (inv_init K) rfl hc

/-- Five calls: a packet begun, refused by `kzalloc`, finished, read, and a failed copy with nothing pending. -/
def fiveCalls : List (Call .linux64) :=
  [.write 0 letterA {}, .write 1 newline { kzalloc := false }, .write 1 newline {}, .read 0 8 {},
    .write 0 letterA { copyFromUser := false }]

theorem ownedRun_iff_fiveCalls :
    OwnedRun .linux64 State.init fiveCalls ↔ Along .linux64 (KeepsPending .linux64) State.init fiveCalls :=
  ownedRun_iff .linux64 fiveCalls (by decide)

/-- A failed copy while a packet is unfinished leaves a dangling pointer, which the next write reads. -/
theorem failed_copy_dangles :
    ¬ ∀ (K : Kernel) (calls : List (Call K)), (∀ c ∈ calls, 1 ≤ c.count) → OwnedRun K State.init calls := by
  intro hall
  have hrun := (ownedRun_iff_along (s := State.init) (inv_init .linux64) rfl (by decide)).mp
    (hall .linux64 [.write 0 letterA {}, .write 0 newline { copyFromUser := false }] (by decide))
  have hkeep := hrun.2.1 rfl ⟨rfl, by decide⟩ (by decide)
  cases hkeep

end Aesd.Driver
