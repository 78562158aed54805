import Aesd.Lib.Run
import Aesd.Driver.Ownership

/-!
# The sizes of the char driver

* `Sizes` : what the arithmetic of the driver depends on. The sizes of the blocks handed out are kept, what a block holds
  and whether it was freed is forgotten, so that a run of `Sizes.write` also goes on where the device has read a freed
  buffer;
* `aesdWrite_sizes`, `runCalls_sizes` : the device refines it;
* `SizeInv` : the invariant of every run;
* `SizesSound` : no sum wraps, no difference underflows and every recorded size is the size of its block;
  `driver_sizes_never_wrap` : it holds in every state.
-/

namespace Aesd.Driver
open Lib

/-- `alloc` has the size of every block that was handed out, by its id. -/
structure Sizes where
  buf : AesdCircularBuffer
  entry : AesdBufferEntry
  alloc : List Nat

namespace Sizes

def init : Sizes := ⟨aesdCircularBufferInit, .zero, []⟩

def allocSize (K : Kernel) (s : Sizes) (count : Nat) : Nat :=
  match s.entry.buffptr with
  | none => count
  | some _ => K.add s.entry.size count

/-- `aesd_write` of `count` bytes; `newline` is what the test of the last byte finds. -/
def write (K : Kernel) (s : Sizes) (count : Nat) (o : WriteOutcome) (newline : Bool) : Sizes :=
  if o.entryLock = true ∧ o.kzalloc = true ∧ s.allocSize K count ≤ K.kmallocMax then
    let alloc := s.alloc ++ [s.allocSize K count]
    if o.copyFromUser then
      let entry : AesdBufferEntry := ⟨some s.alloc.length, K.add s.entry.size count⟩
      if o.bufLock && newline then ⟨(aesdCircularBufferAddEntry s.buf entry).2, .zero, alloc⟩ else ⟨s.buf, entry, alloc⟩
    else ⟨s.buf, s.entry, alloc⟩
  else s

end Sizes

def Heap.lengths (h : Heap) : List Nat := h.blocks.map fun b => b.data.length

/-- What the arithmetic depends on. -/
def AesdDev.sizes (s : AesdDev) : Sizes := ⟨s.buf, s.entry, s.heap.lengths⟩

/-! ## The device refines its sizes -/

/-! A block keeps the size it was allocated with. -/

namespace Heap
variable {K : Kernel} {h h' : Heap} {p : Nat}

theorem lengths_put {b c : Block} (hb : h.block p = some b) (hc : c.data.length = b.data.length) :
    (h.put p c).lengths = h.lengths := by
  unfold lengths put
  rw [List.map_set, hc]
  apply List.ext_getElem?
  intro i
  rw [List.getElem?_set]
  split_ifs with he hlt
  · subst he
    rw [List.getElem?_map, show h.blocks[p]? = some b from hb]
    rfl
  · subst he
    rw [List.getElem?_eq_none (by omega)]
  · rfl

theorem lengths_kfree (hk : h.kfree p = .ok h') : h'.lengths = h.lengths := by
  obtain ⟨data, hd, rfl⟩ := kfree_ok hk
  exact lengths_put hd rfl

theorem lengths_kfreeOpt {q : Option Nat} (hk : h.kfreeOpt q = .ok h') : h'.lengths = h.lengths := by
  cases q with
  | none =>
      cases hk
      rfl
  | some p => exact lengths_kfree hk

theorem lengths_store {off : Nat} {bytes : List Byte} (hs : h.store p off bytes = .ok h') : h'.lengths = h.lengths := by
  unfold store at hs
  split at hs
  · next data hb =>
    split_ifs at hs with hle
    cases hs
    refine lengths_put hb ?_
    simp only [List.length_append, List.length_take, List.length_drop]
    omega
  · cases hs

theorem lengths_kzalloc {ok : Bool} {size : Nat} (hk : h.kzalloc K ok size = some (p, h')) :
    ok = true ∧ size ≤ K.kmallocMax ∧ p = h.lengths.length ∧ h'.lengths = h.lengths ++ [size] := by
  unfold kzalloc at hk
  split_ifs at hk with hok
  cases hk
  exact ⟨hok.1, hok.2, by simp [lengths], by simp [lengths, push]⟩

theorem kzalloc_eq_none {ok : Bool} {size : Nat} (hk : h.kzalloc K ok size = none) :
    ¬ (ok = true ∧ size ≤ K.kmallocMax) := by
  unfold kzalloc at hk
  split_ifs at hk with hok
  exact hok

end Heap

section Refinement
variable {K : Kernel} {s s' : AesdDev}

theorem allocSize_sizes (s : AesdDev) (count : Nat) : s.sizes.allocSize K count = s.allocSize K count := rfl

/-- A branch of `aesd_write` that asks for `size` bytes, seen through the sizes: it leaves without a block, with a block
and no copy, or goes on with `entry`. -/
def Allocates (K : Kernel) (s : AesdDev) (size : Nat) (entry : AesdBufferEntry) (o : WriteOutcome) (exit : Option Int)
    (s' : AesdDev) : Prop :=
  (¬ (o.kzalloc = true ∧ size ≤ K.kmallocMax) ∧ exit ≠ none ∧ s'.sizes = s.sizes) ∨
  ((o.kzalloc = true ∧ size ≤ K.kmallocMax) ∧ s'.buf = s.buf ∧ s'.heap.lengths = s.heap.lengths ++ [size] ∧
    ((o.copyFromUser = false ∧ exit ≠ none ∧ s'.entry = s.entry) ∨
      (o.copyFromUser = true ∧ exit = none ∧ s'.entry = entry)))

theorem writeFresh_sizes {buf : List Byte} {o : WriteOutcome} {exit : Option Int}
    (h : writeFresh K s buf o = .ok (exit, s')) :
    Allocates K s buf.length { s.entry with buffptr := some s.heap.lengths.length } o exit s' := by
  unfold writeFresh at h
  split at h
  · next hnone =>
    cases h
    exact Or.inl ⟨Heap.kzalloc_eq_none hnone, by simp, rfl⟩
  · next kbuf heap hsome =>
    obtain ⟨hok, hle, rfl, hlen⟩ := Heap.lengths_kzalloc hsome
    refine Or.inr ⟨⟨hok, hle⟩, ?_⟩
    split_ifs at h with hcopy
    · obtain ⟨heap1, hstore, he⟩ := bind_ok h
      cases he
      exact ⟨rfl, (Heap.lengths_store hstore).trans hlen, Or.inr ⟨hcopy, rfl, rfl⟩⟩
    · obtain ⟨heap1, hfree, he⟩ := bind_ok h
      cases he
      exact ⟨rfl, (Heap.lengths_kfree hfree).trans hlen, Or.inl ⟨by simpa using hcopy, by simp, rfl⟩⟩

theorem writeAppend_sizes {old : Nat} {buf : List Byte} {o : WriteOutcome} {exit : Option Int}
    (h : writeAppend K s old buf o = .ok (exit, s')) :
    Allocates K s (K.add s.entry.size buf.length) { s.entry with buffptr := some s.heap.lengths.length } o exit s' := by
  unfold writeAppend at h
  split at h
  · next hnone =>
    cases h
    exact Or.inl ⟨Heap.kzalloc_eq_none hnone, by simp, rfl⟩
  · next kbuf heap hsome =>
    obtain ⟨hok, hle, rfl, hlen⟩ := Heap.lengths_kzalloc hsome
    obtain ⟨data, -, h⟩ := bind_ok h
    obtain ⟨heap1, hold, h⟩ := bind_ok h
    obtain ⟨heap2, hfreeold, h⟩ := bind_ok h
    have hlen2 := ((Heap.lengths_kfree hfreeold).trans (Heap.lengths_store hold)).trans hlen
    refine Or.inr ⟨⟨hok, hle⟩, ?_⟩
    split_ifs at h with hcopy
    · obtain ⟨heap3, hstore, he⟩ := bind_ok h
      cases he
      exact ⟨rfl, (Heap.lengths_store hstore).trans hlen2, Or.inr ⟨hcopy, rfl, rfl⟩⟩
    · obtain ⟨heap3, hfree, he⟩ := bind_ok h
      cases he
      exact ⟨rfl, (Heap.lengths_kfree hfree).trans hlen2, Or.inl ⟨by simpa using hcopy, by simp, rfl⟩⟩

theorem writeEntry_sizes {buf : List Byte} {o : WriteOutcome} {exit : Option Int}
    (h : writeEntry K s buf o = .ok (exit, s')) :
    Allocates K s (s.allocSize K buf.length) ⟨some s.heap.lengths.length, K.add s.entry.size buf.length⟩ o exit s' := by
  have hpart : ∃ e1 s1,
      Allocates K s (s.allocSize K buf.length) { s.entry with buffptr := some s.heap.lengths.length } o e1 s1 ∧
      exit = e1 ∧ s' = if e1 = none then
        { s1 with entry := { s1.entry with size := K.add s1.entry.size buf.length } } else s1 := by
    unfold writeEntry at h
    unfold AesdDev.allocSize
    cases hptr : s.entry.buffptr with
    | none =>
        simp only [hptr] at h
        obtain ⟨⟨e1, s1⟩, hw, h⟩ := bind_ok h
        refine ⟨e1, s1, writeFresh_sizes hw, ?_⟩
        cases e1 <;> cases h <;> exact ⟨rfl, rfl⟩
    | some old =>
        simp only [hptr] at h
        obtain ⟨⟨e1, s1⟩, hw, h⟩ := bind_ok h
        refine ⟨e1, s1, writeAppend_sizes hw, ?_⟩
        cases e1 <;> cases h <;> exact ⟨rfl, rfl⟩
  obtain ⟨e1, s1, hall, rfl, rfl⟩ := hpart
  rcases hall with ⟨hno, hexit, hs⟩ | ⟨hyes, hbuf, hlen, ⟨hcopy, hexit, he⟩ | ⟨hcopy, rfl, he⟩⟩
  · exact Or.inl ⟨hno, hexit, by rw [if_neg hexit, hs]⟩
  · rw [if_neg hexit]
    exact Or.inr ⟨hyes, hbuf, hlen, Or.inl ⟨hcopy, hexit, he⟩⟩
  · rw [if_pos rfl]
    exact Or.inr ⟨hyes, hbuf, hlen, Or.inr ⟨hcopy, rfl, by simp [he]⟩⟩

theorem writeCommit_sizes (h : writeCommit K s = .ok s') :
    s'.sizes = s.sizes ∨ s'.sizes = ⟨(aesdCircularBufferAddEntry s.buf s.entry).2, .zero, s.heap.lengths⟩ := by
  unfold writeCommit at h
  split at h
  · cases h
  · obtain ⟨last, -, h⟩ := bind_ok h
    split_ifs at h with hnl
    · obtain ⟨heap, hfree, he⟩ := bind_ok h
      cases he
      refine Or.inr ?_
      rw [AesdDev.sizes, Heap.lengths_kfreeOpt hfree]
      rfl
    · cases h
      exact Or.inl rfl

/-- **A write of the device is a write of its sizes.** -/
theorem aesdWrite_sizes {buf : K.UserBuf} {o : WriteOutcome} {r : Int} (h : aesdWrite K s buf o = .ok (r, s')) :
    ∃ newline, s'.sizes = s.sizes.write K buf.val.length o newline := by
  unfold aesdWrite at h
  by_cases hlock : o.entryLock = true
  · rw [if_pos hlock] at h
    obtain ⟨⟨exit, s1⟩, hentry, h⟩ := bind_ok h
    unfold Sizes.write
    rw [allocSize_sizes]
    rcases writeEntry_sizes hentry with ⟨hno, hexit, hs⟩ | ⟨hyes, hbuf, hlen, ⟨hcopy, hexit, he⟩ | ⟨hcopy, rfl, he⟩⟩
    · obtain ⟨e, rfl⟩ := Option.ne_none_iff_exists'.mp hexit
      cases h
      exact ⟨false, by rw [if_neg (fun hc => hno hc.2), hs]⟩
    · obtain ⟨e, rfl⟩ := Option.ne_none_iff_exists'.mp hexit
      cases h
      refine ⟨false, ?_⟩
      rw [if_pos ⟨hlock, hyes⟩, hcopy]
      simp [AesdDev.sizes, hbuf, hlen, he]
    · have hs1 : s1.sizes = ⟨s.buf, ⟨some s.heap.lengths.length, K.add s.entry.size buf.val.length⟩,
          s.heap.lengths ++ [s.allocSize K buf.val.length]⟩ := by
        simp only [AesdDev.sizes, hbuf, hlen, he]
      by_cases hbl : o.bufLock = true
      · simp only [hbl, if_true] at h
        obtain ⟨s2, hcommit, h⟩ := bind_ok h
        cases h
        rcases writeCommit_sizes hcommit with hkeep | hpush
        · refine ⟨false, ?_⟩
          rw [if_pos ⟨hlock, hyes⟩, hcopy, hkeep, hs1]
          simp [AesdDev.sizes]
        · refine ⟨true, ?_⟩
          rw [if_pos ⟨hlock, hyes⟩, hcopy, hbl, hpush, hbuf, hlen, he]
          simp [AesdDev.sizes]
      · simp only [hbl] at h
        cases h
        refine ⟨false, ?_⟩
        rw [if_pos ⟨hlock, hyes⟩, hcopy, hs1]
        simp [AesdDev.sizes]
  · rw [if_neg hlock] at h
    cases h
    exact ⟨false, by simp [Sizes.write, hlock]⟩

end Refinement

/-- A write of at least one byte that the VFS passes on, with the kernel's answers and the result of the newline test. -/
structure SizeWrite (K : Kernel) where
  count : Nat
  o : WriteOutcome
  newline : Bool
  pos : 1 ≤ count
  le : count ≤ K.rwMax

def Sizes.step (K : Kernel) (s : Sizes) (w : SizeWrite K) : Sizes := s.write K w.count w.o w.newline

def Call.NotEmpty {K : Kernel} : Call K → Prop
  | .write _ buf _ => 1 ≤ buf.val.length
  | .read _ _ _ => True

theorem runCalls_sizes {K : Kernel} {calls : List (Call K)} (hc : ∀ c ∈ calls, c.NotEmpty) {s s' : State}
    {rets : List Ret} (h : runCalls K s calls = .ok (rets, s')) :
    ∃ writes : List (SizeWrite K), s'.dev.sizes = run (Sizes.step K) s.dev.sizes writes := by
  induction calls generalizing s rets with
  | nil =>
      cases h
      exact ⟨[], rfl⟩
  | cons c cs ih =>
      obtain ⟨⟨r, s1⟩, hcall, h⟩ := bind_ok h
      obtain ⟨⟨rs, s2⟩, hcs, h⟩ := bind_ok h
      cases h
      obtain ⟨writes, hw⟩ := ih (fun d hd => hc d (by simp [hd])) hcs
      rcases applyCall_ok hcall with ⟨filp, buf, o, rfl, hwrite, -⟩ | ⟨_, _, _, _, -, -, -, hdev, -⟩
      · obtain ⟨newline, hs⟩ := aesdWrite_sizes hwrite
        have hpos : Call.NotEmpty (.write filp buf o) := hc _ List.mem_cons_self
        refine ⟨⟨buf.val.length, o, newline, hpos, buf.property⟩ :: writes, ?_⟩
        rw [hw, hs]
        rfl
      · exact ⟨writes, by rw [hw, hdev]⟩

/-! ## The invariant -/

/-- The entry records the size of its block, which is not empty. -/
def Recorded (K : Kernel) (alloc : List Nat) (e : AesdBufferEntry) : Prop :=
  ∃ p, e.buffptr = some p ∧ alloc[p]? = some e.size ∧ 1 ≤ e.size ∧ e.size ≤ K.kmallocMax

theorem Recorded.append {K : Kernel} {alloc : List Nat} {e : AesdBufferEntry} (h : Recorded K alloc e) (n : Nat) :
    Recorded K (alloc ++ [n]) e := by
  obtain ⟨p, hp, hsize, hone, hle⟩ := h
  refine ⟨p, hp, ?_, hone, hle⟩
  rw [List.getElem?_append_left (List.getElem?_eq_some_iff.mp hsize).1, hsize]

structure SizeInv (K : Kernel) (s : Sizes) (items : List AesdBufferEntry) : Prop where
  rep : s.buf.Rep items
  ring : ∀ e ∈ items, Recorded K s.alloc e
  pending : s.entry = .zero ∨ Recorded K s.alloc s.entry

namespace SizeInv
variable {K : Kernel} {s : Sizes} {items : List AesdBufferEntry}

theorem init (K : Kernel) : SizeInv K .init [] := ⟨AesdCircularBuffer.rep_init, by simp, Or.inl rfl⟩

theorem entry_le (h : SizeInv K s items) : s.entry.size ≤ K.kmallocMax := by
  rcases h.pending with hz | ⟨-, -, -, -, hle⟩
  · rw [hz]
    exact Nat.zero_le _
  · exact hle

theorem append_lt (h : SizeInv K s items) {count : Nat} (hc : count ≤ K.rwMax) :
    s.entry.size + count < 2 ^ K.width := by
  have hle := h.entry_le
  have hfit := K.append_fits
  omega

theorem allocSize_eq (h : SizeInv K s items) {count : Nat} (hc : count ≤ K.rwMax) :
    s.allocSize K count = s.entry.size + count := by
  unfold Sizes.allocSize
  split
  · next hnull =>
    rcases h.pending with hz | ⟨p, hp, -⟩
    · simp [hz, AesdBufferEntry.zero]
    · rw [hnull] at hp
      cases hp
  · exact K.add_eq (h.append_lt hc)

theorem write (h : SizeInv K s items) {count : Nat} (hpos : 1 ≤ count) (hc : count ≤ K.rwMax) (o : WriteOutcome)
    (newline : Bool) : ∃ items', SizeInv K (s.write K count o newline) items' := by
  unfold Sizes.write
  rw [h.allocSize_eq hc, K.add_eq (h.append_lt hc)]
  split_ifs with hgrant hcopy hpush
  · -- the stored entry goes to the ring
    have hnew : Recorded K (s.alloc ++ [s.entry.size + count]) ⟨some s.alloc.length, s.entry.size + count⟩ :=
      ⟨_, rfl, by simp, by simp only; omega, hgrant.2.2⟩
    refine ⟨_, h.rep.addEntry _, fun e he => ?_, Or.inl rfl⟩
    have hmem := List.mem_of_mem_drop he
    rw [List.mem_append, List.mem_singleton] at hmem
    rcases hmem with hmem | rfl
    · exact (h.ring e hmem).append _
    · exact hnew
  · refine ⟨items, h.rep, fun e he => (h.ring e he).append _, Or.inr ⟨_, rfl, by simp, ?_, hgrant.2.2⟩⟩
    simp only
    omega
  · exact ⟨items, h.rep, fun e he => (h.ring e he).append _, h.pending.imp id fun hp => hp.append _⟩
  · exact ⟨items, h⟩

theorem total_lt (h : SizeInv K s items) : (items.map AesdBufferEntry.size).sum < 2 ^ K.width := by
  apply h.rep.total_lt K
  intro e he
  obtain ⟨-, -, -, -, hsz⟩ := h.ring e he
  exact hsz

end SizeInv

theorem sizeInv_run {K : Kernel} (writes : List (SizeWrite K)) :
    ∃ items, SizeInv K (run (Sizes.step K) .init writes) items := by
  have hstep : ∀ (s : Sizes) (w : SizeWrite K), (∃ items, SizeInv K s items) → True →
      ∃ items, SizeInv K (Sizes.step K s w) items := by
    rintro s w ⟨items, h⟩ -
    exact h.write w.pos w.le w.o w.newline
  exact Along.invariant hstep ⟨[], SizeInv.init K⟩ (along_of_forall (fun _ _ => trivial) _)

/-! ## The arithmetic of the calls -/

/-- The additions to the running sum that `findLoop` makes, as the two operands of each. -/
def findSums (K : Kernel) (b : AesdCircularBuffer) (charOffset : Nat) : Nat → Nat → Nat → List (Nat × Nat)
  | 0, _, _ => []
  | fuel + 1, i, searchOffset =>
    let sum := K.add searchOffset (b.slot i).size
    let next := (i + 1) % AESDCHAR_MAX_WRITE_OPERATIONS_SUPPORTED
    (searchOffset, (b.slot i).size) ::
      if sum > charOffset ∨ next = b.outOffs then [] else findSums K b charOffset fuel next sum

/-- The scan of `findLoop` over numbers that are not reduced. -/
def findLoopNat (b : AesdCircularBuffer) (charOffset : Nat) : Nat → Nat → Nat → Option (Nat × Nat)
  | 0, _, _ => none
  | fuel + 1, i, searchOffset =>
    let sum := searchOffset + (b.slot i).size
    if sum > charOffset then some (i, charOffset - searchOffset)
    else
      let next := (i + 1) % AESDCHAR_MAX_WRITE_OPERATIONS_SUPPORTED
      if next = b.outOffs then none else findLoopNat b charOffset fuel next sum

/-- `findSums` has every addition of `findLoop`: where none of them is reduced, the loop is the scan over plain numbers. -/
theorem findLoop_eq_nat (K : Kernel) (b : AesdCircularBuffer) {off : Nat} (hoff : off < 2 ^ K.width) (fuel : Nat)
    {i so : Nat} (hso : so ≤ off) (hsums : ∀ x ∈ findSums K b off fuel i so, x.1 + x.2 < 2 ^ K.width) :
    findLoop K b off fuel i so = findLoopNat b off fuel i so := by
  induction fuel generalizing i so with
  | zero => rfl
  | succ fuel ih =>
      have hfirst : so + (b.slot i).size < 2 ^ K.width := hsums (so, (b.slot i).size) (by simp [findSums])
      have hadd := K.add_eq hfirst
      simp only [findLoop, findLoopNat, hadd]
      by_cases hfound : so + (b.slot i).size > off
      · have hback : K.sub (so + (b.slot i).size) (b.slot i).size = so := by
          rw [K.sub_eq hfirst (by omega), Nat.add_sub_cancel]
        rw [if_pos hfound, if_pos hfound, hback, K.sub_eq hoff hso]
      · rw [if_neg hfound, if_neg hfound]
        split_ifs with hnext
        · rfl
        · refine ih (by omega) fun x hx => hsums x ?_
          rw [findSums, hadd, if_neg (not_or.mpr ⟨hfound, hnext⟩)]
          exact List.mem_cons_of_mem _ hx

/-- The number of slots in use, from the two indices and the flag. -/
def AesdCircularBuffer.used (b : AesdCircularBuffer) : Nat := if b.full then 10 else (b.inOffs + 10 - b.outOffs) % 10

/-- What the sizes of a device keep, for every next call. -/
structure SizesSound (K : Kernel) (s : Sizes) : Prop where
  /-- `dev->entry.size + count` is not reduced. -/
  append : ∀ count ≤ K.rwMax, s.entry.size + count < 2 ^ K.width
  /-- No value of `search_offset` is reduced, wherever the search is to. -/
  search : ∀ off, ∀ x ∈ findSums K s.buf off AESDCHAR_MAX_WRITE_OPERATIONS_SUPPORTED s.buf.outOffs 0,
    x.1 + x.2 < 2 ^ K.width
  pending : s.entry.size ≤ K.kmallocMax ∧ (s.entry.buffptr = none → s.entry.size = 0) ∧
    ∀ p, s.entry.buffptr = some p → s.alloc[p]? = some s.entry.size
  slots : ∀ i, (s.buf.slot i).size ≤ K.kmallocMax ∧
    ∀ p, (s.buf.slot i).buffptr = some p → s.alloc[p]? = some (s.buf.slot i).size
  inUse : ∀ k < s.buf.used, 1 ≤ (s.buf.slot ((s.buf.outOffs + k) % 10)).size ∧
    (s.buf.slot ((s.buf.outOffs + k) % 10)).buffptr ≠ none
  /-- What `aesd_read` subtracts and copies stays inside the entry it found. -/
  read : ∀ fpos count i off, aesdCircularBufferFindEntryOffsetForFpos K s.buf (fpos % 2 ^ K.width) = some (i, off) →
    off < (s.buf.slot i).size ∧ K.sub (s.buf.slot i).size off = (s.buf.slot i).size - off ∧
      off + (if K.sub (s.buf.slot i).size off > count then count else K.sub (s.buf.slot i).size off) ≤
        (s.buf.slot i).size

theorem findSums_exact (K : Kernel) {b : AesdCircularBuffer}
    (hfit : (b.fromOut.map AesdBufferEntry.size).sum < 2 ^ K.width) (off n k : Nat) (hn : n + k = 10)
    (x : Nat × Nat) (hx : x ∈ findSums K b off n ((b.outOffs + k) % 10) (b.sizeBefore k)) : x.1 + x.2 < 2 ^ K.width := by
  induction n generalizing k with
  | zero => simp [findSums] at hx
  | succ n ih =>
      have hsum := b.sizeBefore_succ (show k < 10 by omega)
      have hle := b.sizeBefore_le (k + 1)
      simp only [findSums, List.mem_cons] at hx
      rcases hx with rfl | hx
      · dsimp only
        omega
      · split_ifs at hx with hstop
        · simp at hx
        · rw [K.add_eq (by omega), ← hsum, Nat.mod_add_mod, Nat.add_assoc] at hx
          exact ih (k + 1) (by omega) hx

theorem AesdCircularBuffer.Rep.used_eq {b : AesdCircularBuffer} {items : List AesdBufferEntry} (h : b.Rep items) :
    b.used = items.length := by
  have hlen := h.length_le
  have hout : b.outOffs < 10 := h.out_lt
  have hin : b.inOffs = (b.outOffs + items.length) % 10 := h.in_eq
  unfold AesdCircularBuffer.used
  split_ifs with hfull
  · exact (h.full_iff.mp hfull).symm
  · have hne : items.length ≠ 10 := fun heq => hfull (h.full_iff.mpr heq)
    omega

/-- **The invariant gives the arithmetic.** -/
theorem SizeInv.sound {K : Kernel} {s : Sizes} {items : List AesdBufferEntry} (h : SizeInv K s items) :
    SizesSound K s where
  append count hc := h.append_lt hc
  search off x hx := by
    have hfit : (s.buf.fromOut.map AesdBufferEntry.size).sum < 2 ^ K.width := by
      have htotal := h.total_lt
      simpa [h.rep.fromOut, AesdBufferEntry.zero] using htotal
    refine findSums_exact K hfit off 10 0 rfl x ?_
    rw [Nat.add_zero, Nat.mod_eq_of_lt h.rep.out_lt]
    exact hx
  pending := by
    refine ⟨h.entry_le, ?_⟩
    rcases h.pending with hz | ⟨p, hp, hsize, -⟩
    · rw [hz]
      exact ⟨fun _ => rfl, by simp [AesdBufferEntry.zero]⟩
    · rw [hp]
      exact ⟨by simp, by simpa using hsize⟩
  slots i := by
    rcases h.rep.slot_mem i with hmem | hz
    · obtain ⟨p, hp, hsize, -, hle⟩ := h.ring _ hmem
      exact ⟨hle, by rw [hp]; simpa using hsize⟩
    · rw [hz]
      exact ⟨Nat.zero_le _, by simp [AesdBufferEntry.zero]⟩
  inUse k hk := by
    rw [h.rep.used_eq] at hk
    rw [h.rep.slot_held hk]
    obtain ⟨p, hp, -, hone, -⟩ := h.ring _ (List.getElem_mem hk)
    exact ⟨hone, by simp [hp]⟩
  read fpos count i off hfind := by
    rw [h.rep.find K h.total_lt (Nat.mod_lt _ (Nat.two_pow_pos _)), Option.map_eq_some_iff] at hfind
    obtain ⟨⟨k, o⟩, hloc, heq⟩ := hfind
    cases heq
    obtain ⟨e, he, hlt, -⟩ := locate_spec _ hloc
    obtain ⟨hk, hek⟩ := List.getElem?_eq_some_iff.mp he
    obtain ⟨-, -, -, -, hle⟩ := h.ring e (List.mem_of_getElem? he)
    have hfits := K.append_fits
    have hslot : s.buf.slot ((s.buf.outOffs + k) % 10) = e := by rw [h.rep.slot_held hk, hek]
    rw [hslot]
    have hsub : K.sub e.size o = e.size - o := K.sub_eq (by omega) (by omega)
    rw [hsub]
    refine ⟨hlt, rfl, ?_⟩
    split_ifs <;> omega

theorem SizesSound.find_eq_nat {K : Kernel} {s : Sizes} (h : SizesSound K s) {off : Nat} (hoff : off < 2 ^ K.width) :
    aesdCircularBufferFindEntryOffsetForFpos K s.buf off =
      findLoopNat s.buf off AESDCHAR_MAX_WRITE_OPERATIONS_SUPPORTED s.buf.outOffs 0 :=
  findLoop_eq_nat K s.buf hoff _ (Nat.zero_le _) (h.search off)

/-- **Driver sizes never wrap.** In every state that calls bring the device to, whatever the locks, `kzalloc` and the
copies answered, and also in every state of its sizes when the calls go on after the driver used a freed buffer. -/
theorem driver_sizes_never_wrap (K : Kernel) :
    (∀ (calls : List (Call K)) (rets : List Ret) (s : State), (∀ c ∈ calls, c.NotEmpty) →
      runCalls K State.init calls = .ok (rets, s) → SizesSound K s.dev.sizes) ∧
    ∀ writes : List (SizeWrite K), SizesSound K (run (Sizes.step K) .init writes) := by
  have hall : ∀ writes : List (SizeWrite K), SizesSound K (run (Sizes.step K) .init writes) := by
    intro writes
    obtain ⟨items, hinv⟩ := sizeInv_run writes
    exact hinv.sound
  refine ⟨fun calls rets s hc hrun => ?_, hall⟩
  obtain ⟨writes, hw⟩ := runCalls_sizes hc hrun
  rw [hw]
  exact hall writes

/-- A failed copy leaves the size of the pending entry at that of its block. -/
theorem driver_sizes_never_wrap_failed_copy :
    SizesSound .linux64 (unfinished.dev.copyFailed letterA.val newline.val).sizes ∧
      (unfinished.dev.copyFailed letterA.val newline.val).sizes.alloc = [1, 2] := by
  have hrun : runCalls .linux64 State.init [.write 0 letterA {}, .write 0 newline { copyFromUser := false }] =
      .ok ([⟨1, []⟩, ⟨-EFAULT, []⟩], { State.init with dev := unfinished.dev.copyFailed letterA.val newline.val }) := rfl
  have hne : ∀ c ∈ ([.write 0 letterA {}, .write 0 newline { copyFromUser := false }] : List (Call .linux64)),
      c.NotEmpty := by
    intro c hc
    fin_cases hc <;> exact Nat.le_refl 1
  exact ⟨(driver_sizes_never_wrap .linux64).1 _ _ _ hne hrun, by decide⟩

end Aesd.Driver
