import Aesd.Driver.PacketLog

/-!
# What one reader sees while others write

Every byte ever committed has an absolute index, its position in the concatenation of all committed packets. The file
position of a reader is relative to the content of the ring, which starts at the absolute index `evicted`.

* `Delivery`, `deliveries` : the reads of a run that delivered bytes, with the moment they were made at;
* `Delivery.Follows` : a delivery starts where the one before it ended, moved by what was evicted in between;
* `reader_indices_increase` : the law for every interleaving of writes with the reads of one reader.
-/

namespace Aesd.Driver
open Lib

/-- Bytes delivered by a read at position `fpos` when `base` bytes had been evicted. -/
structure Delivery where
  base : Nat
  fpos : Nat
  data : List Byte

namespace Delivery

def index (d : Delivery) : Nat := d.base + d.fpos

def indices (d : Delivery) : List Nat := List.range' d.index d.data.length

def Before (d e : Delivery) : Prop := d.index + d.data.length ≤ e.index

instance : Trans Before Before Before :=
  ⟨fun {a b c} hab hbc => by unfold Before at *; omega⟩

/-- Between `d` and `e` exactly the bytes evicted in between are skipped. -/
def Follows (d e : Delivery) : Prop := d.base ≤ e.base ∧ e.index = d.index + d.data.length + (e.base - d.base)

end Delivery

/-- What the call delivers at state `s`. -/
def deliveredBy {K : Kernel} (s : State) (r : Ret) : Call K → List Delivery
  | .write _ _ _ => []
  | .read filp _ _ => if r.data = [] then [] else [⟨s.dev.evicted, s.fpos filp, r.data⟩]

def deliveries (K : Kernel) : State → List (Call K) → List Delivery
  | _, [] => []
  | s, c :: cs =>
    match applyCall K s c with
    | .ok (r, s') => deliveredBy s r c ++ deliveries K s' cs
    | .error _ => []

/-- A write of at least one byte, or a read by the reader `rd`. -/
def WriteOrReadBy {K : Kernel} (rd : Nat) : Call K → Prop
  | .write _ buf _ => 1 ≤ buf.val.length
  | .read filp _ _ => filp = rd

/-- The position of the reader stays in the range of `size_t` and the device stands for a log. -/
structure ReaderInv (K : Kernel) (rd : Nat) (s : State) : Prop where
  refines : ∃ log, Refines K s.dev log
  fpos_lt : s.fpos rd < 2 ^ K.width

/-- One successful call: what it delivers, and how far it moves the device and the reader. -/
structure ReaderStep (rd : Nat) (s s' : State) (ds : List Delivery) : Prop where
  committed : s.dev.committed <+: s'.dev.committed
  evicted : s.dev.evicted ≤ s'.dev.evicted
  moved : ds = [] ∧ s'.fpos rd = s.fpos rd ∨
    ∃ d, ds = [d] ∧ d.base = s.dev.evicted ∧ d.fpos = s.fpos rd ∧ s'.dev = s.dev ∧ 0 < d.data.length ∧
      s'.fpos rd = s.fpos rd + d.data.length ∧ d.index + d.data.length ≤ s.dev.committed.flatten.length ∧
      d.data = (s.dev.committed.flatten.drop d.index).take d.data.length

theorem write_step {K : Kernel} {rd : Nat} {s : State} (h : ReaderInv K rd s) {filp : Nat} {buf : K.UserBuf}
    {o : WriteOutcome} (hne : buf.val ≠ []) (hs : Served K s.dev buf o) :
    ∃ r s', applyCall K s (.write filp buf o) = .ok (r, s') ∧ ReaderInv K rd s' ∧ ReaderStep rd s s' [] := by
  obtain ⟨log, href⟩ := h.refines
  obtain ⟨items, hinv⟩ := href.inv
  obtain ⟨dev, hw, href', -⟩ := href.write hs hne
  have hdev := (aesdWrite_served hinv href.pending hs hne).2
  rw [hw] at hdev
  simp only [Except.ok.injEq, Prod.mk.injEq, true_and] at hdev
  refine ⟨_, { s with dev := dev }, applyCall_write hw, ⟨⟨_, href'⟩, h.fpos_lt⟩, ?_, ?_, Or.inl ⟨rfl, rfl⟩⟩
  · rw [show ({ s with dev := dev } : State).dev = dev from rfl, hdev]
    split_ifs
    · exact List.prefix_append _ _
    · exact List.prefix_rfl
  · rw [show ({ s with dev := dev } : State).dev = dev from rfl, hdev]
    split_ifs
    · exact Nat.le_add_right _ _
    · exact Nat.le_refl _

theorem read_step {K : Kernel} {rd : Nat} {s : State} (h : ReaderInv K rd s) {count : Nat} {o : ReadOutcome}
    (hlock : o.bufLock = true) (hcopy : o.copyToUser = true) :
    ∃ r s', applyCall K s (.read rd count o) = .ok (r, s') ∧ ReaderInv K rd s' ∧
      ReaderStep rd s s' (deliveredBy s r (.read rd count o : Call K)) := by
  obtain ⟨log, href⟩ := h.refines
  obtain ⟨items, hinv⟩ := href.inv
  have hmod : s.fpos rd % 2 ^ K.width = s.fpos rd := Nat.mod_eq_of_lt h.fpos_lt
  rcases Nat.lt_or_ge (s.fpos rd % 2 ^ K.width) s.dev.readable.length with hlt | hge
  · obtain ⟨rest, hpos, hle, heq⟩ := aesdRead_inside hinv hlt
    have hread := heq count o
    rw [hmod] at hle hread
    rw [if_pos hlock, if_pos hcopy] at hread
    have hsum := hinv.evicted_add
    have htotal := hinv.total_lt
    have hlen := hinv.length_readable
    refine ⟨_, _, applyCall_read hread, ⟨⟨log, href⟩, ?_⟩, List.prefix_rfl, Nat.le_refl _, ?_⟩
    · simp only [Function.update_self]
      omega
    · unfold deliveredBy
      have hdata : ((s.dev.readable.drop (s.fpos rd)).take (min rest count)).length = min rest count := by
        rw [List.length_take, List.length_drop]
        omega
      split_ifs with hnil
      · dsimp only at hnil
        have hzero : min rest count = 0 := by rw [← hdata, hnil, List.length_nil]
        exact Or.inl ⟨rfl, by simp [hzero]⟩
      · refine Or.inr ⟨_, rfl, rfl, rfl, rfl, List.length_pos_iff.mpr hnil, by simp [hdata], ?_, ?_⟩
        · simp only [Delivery.index, hdata]
          omega
        · simp only [Delivery.index, hdata]
          rw [hinv.readable_drop, List.drop_drop]
  · have hread := aesdRead_past hinv hge count o
    rw [if_pos hlock] at hread
    refine ⟨_, _, applyCall_read hread, ⟨⟨log, href⟩, ?_⟩, List.prefix_rfl, Nat.le_refl _,
      Or.inl ⟨by simp [deliveredBy], by simp⟩⟩
    simpa using h.fpos_lt

theorem call_step {K : Kernel} {rd : Nat} {s : State} (h : ReaderInv K rd s) {c : Call K} (hc : WriteOrReadBy rd c)
    (hs : Succeeds K s c) :
    ∃ r s', applyCall K s c = .ok (r, s') ∧ ReaderInv K rd s' ∧ ReaderStep rd s s' (deliveredBy s r c) := by
  cases c with
  | write filp buf o => exact write_step h (List.length_pos_iff.mp hc) hs
  | read filp count o =>
      obtain rfl : filp = rd := hc
      exact read_step h hs.1 hs.2

/-! ## Runs -/

/-- What a run delivers, relative to where the reader stands at its start. -/
structure ReaderRun (rd : Nat) (s s' : State) (ds : List Delivery) : Prop where
  committed : s.dev.committed <+: s'.dev.committed
  first : ∀ d ∈ ds.head?, s.dev.evicted ≤ d.base ∧ d.index = s.dev.evicted + s.fpos rd + (d.base - s.dev.evicted)
  chain : ds.IsChain Delivery.Follows
  bytes : ∀ d ∈ ds, 0 < d.data.length ∧ d.index + d.data.length ≤ s'.dev.committed.flatten.length ∧
    d.data = (s'.dev.committed.flatten.drop d.index).take d.data.length

theorem take_drop_of_extends {α : Type} {xs ys : List α} (h : xs <+: ys) {i n : Nat} (hn : i + n ≤ xs.length) :
    (ys.drop i).take n = (xs.drop i).take n := by
  obtain ⟨zs, rfl⟩ := h
  rw [List.drop_append_of_le_length (by omega), List.take_append_of_le_length (by rw [List.length_drop]; omega)]

theorem flatten_extends {α : Type} {xs ys : List (List α)} (h : xs <+: ys) : xs.flatten <+: ys.flatten := by
  obtain ⟨zs, rfl⟩ := h
  rw [List.flatten_append]
  exact List.prefix_append _ _

theorem ReaderStep.cons {rd : Nat} {s s1 s' : State} {ds1 ds : List Delivery} (h1 : ReaderStep rd s s1 ds1)
    (h : ReaderRun rd s1 s' ds) : ReaderRun rd s s' (ds1 ++ ds) := by
  have hflat := flatten_extends h.committed
  have hev := h1.evicted
  rcases h1.moved with ⟨rfl, hpos⟩ | ⟨d, rfl, hbase, hfpos, hdev, hlen, hmove, hle, hdata⟩
  · refine ⟨h1.committed.trans h.committed, fun e he => ?_, h.chain, h.bytes⟩
    obtain ⟨hge, hidx⟩ := h.first e he
    rw [hpos] at hidx
    exact ⟨by omega, by omega⟩
  · have hfirst : d.index = s.dev.evicted + s.fpos rd := by rw [Delivery.index, hbase, hfpos]
    refine ⟨h1.committed.trans h.committed, fun e he => ?_, ?_, fun e he => ?_⟩
    · obtain rfl : d = e := by simpa using he
      exact ⟨by omega, by omega⟩
    · rw [List.singleton_append, List.isChain_cons]
      refine ⟨fun e he => ?_, h.chain⟩
      obtain ⟨hge, hidx⟩ := h.first e he
      rw [hdev, hmove] at hidx
      rw [hdev] at hge
      exact ⟨by omega, by omega⟩
    · rcases List.mem_cons.mp he with rfl | he
      · rw [hdev] at hflat
        exact ⟨hlen, hle.trans hflat.length_le, by rw [take_drop_of_extends hflat hle]; exact hdata⟩
      · exact h.bytes e he

theorem reader_run {K : Kernel} {rd : Nat} (calls : List (Call K)) (hc : ∀ c ∈ calls, WriteOrReadBy rd c) {s : State}
    (h : ReaderInv K rd s) (hok : Along K (Succeeds K) s calls) :
    ∃ rets s', runCalls K s calls = .ok (rets, s') ∧ ReaderRun rd s s' (deliveries K s calls) := by
  induction calls generalizing s with
  | nil => exact ⟨[], s, rfl, List.prefix_rfl, by simp [deliveries], by simp [deliveries], by simp [deliveries]⟩
  | cons c cs ih =>
      obtain ⟨hsucc, hrest⟩ := hok
      obtain ⟨r, s1, hstep, h1, hmove⟩ := call_step h (hc c (by simp)) hsucc
      rw [hstep] at hrest
      obtain ⟨rets, s', hrun, hds⟩ := ih (fun d hd => hc d (by simp [hd])) h1 hrest
      refine ⟨r :: rets, s', ?_, ?_⟩
      · rw [runCalls, hstep]
        change (runCalls K s1 cs >>= _) = _
        rw [hrun]
        rfl
      · rw [deliveries, hstep]
        exact hmove.cons hds

theorem pairwise_indices {ds : List Delivery} (h : ds.IsChain Delivery.Follows) :
    (ds.flatMap Delivery.indices).Pairwise (· < ·) := by
  have hchain : ds.IsChain Delivery.Before := h.imp fun d e hde => by
    rw [Delivery.Before, hde.2]
    omega
  rw [List.pairwise_flatMap]
  refine ⟨fun d _ => List.pairwise_lt_range', hchain.pairwise.imp fun {d e} hde x hx y hy => ?_⟩
  simp only [Delivery.indices, List.mem_range'_1] at hx hy
  unfold Delivery.Before at hde
  omega

/-- **The reader's law.** In every interleaving of served writes with successful reads by one reader, each read delivers
consecutive absolute indices from `base + f_pos` of its moment; the indices increase over the whole run; and between
two deliveries exactly the bytes evicted between them are skipped. -/
theorem reader_indices_increase (K : Kernel) (rd : Nat) (calls : List (Call K)) (hc : ∀ c ∈ calls, WriteOrReadBy rd c)
    (hok : Along K (Succeeds K) State.init calls) :
    ∃ rets s, runCalls K State.init calls = .ok (rets, s) ∧
      (∀ d ∈ deliveries K State.init calls,
        d.index + d.data.length ≤ s.dev.committed.flatten.length ∧
        d.data = (s.dev.committed.flatten.drop (d.base + d.fpos)).take d.data.length) ∧
      ((deliveries K State.init calls).flatMap Delivery.indices).Pairwise (· < ·) ∧
      (deliveries K State.init calls).IsChain Delivery.Follows := by
  have hinit : ReaderInv K rd State.init := ⟨⟨_, refines_init K⟩, Nat.two_pow_pos _⟩
  obtain ⟨rets, s, hrun, hds⟩ := reader_run calls hc hinit hok
  exact ⟨rets, s, hrun, fun d hd => (hds.bytes d hd).2, pairwise_indices hds.chain, hds.chain⟩

/-- A packet of two bytes and nine of one fill the ring. The reader takes its first byte, the next packet drops the other
one from the ring, and the reader goes on. -/
def wrapping : List (Call .linux64) :=
  .write 1 letterA {} :: List.replicate 10 (.write 1 newline {}) ++
    [.read 0 1 {}, .write 1 newline {}, .read 0 2 {}, .read 0 2 {}]

theorem deliveries_wrapping :
    (deliveries .linux64 State.init wrapping).flatMap Delivery.indices = [0, 3, 4] := by decide +kernel

theorem succeeds_wrapping : Along .linux64 (Succeeds .linux64) State.init wrapping := by
  iterate 11 refine ⟨⟨rfl, ⟨rfl, by decide +kernel⟩, rfl, rfl⟩, ?_⟩
  exact ⟨⟨rfl, rfl⟩, ⟨rfl, ⟨rfl, by decide +kernel⟩, rfl, rfl⟩, ⟨rfl, rfl⟩, ⟨rfl, rfl⟩, trivial⟩

/-- Byte 1 is skipped with the packet it is in, and byte 2, which took its place at position 0, was passed already. -/
theorem reader_indices_increase_wrapping :
    (∃ rets s, runCalls .linux64 State.init wrapping = .ok (rets, s) ∧
      ∀ d ∈ deliveries .linux64 State.init wrapping,
        d.data = (s.dev.committed.flatten.drop (d.base + d.fpos)).take d.data.length) ∧
    (deliveries .linux64 State.init wrapping).flatMap Delivery.indices = [0, 3, 4] ∧
    (deliveries .linux64 State.init wrapping).IsChain Delivery.Follows := by
  have hcalls : ∀ c ∈ wrapping, WriteOrReadBy 0 c := by
    intro c hc
    fin_cases hc <;> first | exact Nat.le_refl 1 | rfl
  obtain ⟨rets, s, hrun, hbytes, -, hchain⟩ :=
    reader_indices_increase .linux64 0 wrapping hcalls succeeds_wrapping
  exact ⟨⟨rets, s, hrun, fun d hd => (hbytes d hd).2⟩, deliveries_wrapping, hchain⟩

end Aesd.Driver
