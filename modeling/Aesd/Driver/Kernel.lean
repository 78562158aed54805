import Mathlib.Tactic

/-!
# What the char driver uses of the kernel

* `Kernel` : the width of `size_t` and the two limits the kernel keeps, the largest block `kzalloc` hands out and the
  largest count the VFS passes to a file operation;
* `Byte` : a byte with the client connection it was received from, a ghost that no code reads;
* `Heap` : the ledger of `kzalloc` and `kfree`. A block keeps its id for ever and is marked dead when it is freed, so
  an access to a dead block, a second free and an access past the end of a block are faults and not states.
-/

namespace Aesd.Driver

/-- A byte, and the client connection it was received from (`none` for a byte that no client sent). -/
structure Byte where
  val : UInt8
  src : Option Nat := none
deriving DecidableEq, Repr, Inhabited

namespace Byte

def zero : Byte := ⟨0, none⟩

/-- `b == '\n'`. -/
def isNewline (b : Byte) : Bool := b.val == 10

end Byte

/-- The parameters of the kernel the driver runs in. `kmallocMax` is the largest size `kzalloc` serves and `rwMax` the
largest count of a `read` or a `write`; both are far below the range of `size_t`. -/
structure Kernel where
  width : Nat
  kmallocMax : Nat
  rwMax : Nat
  ring_fits : 10 * kmallocMax < 2 ^ width
  append_fits : kmallocMax + rwMax < 2 ^ width

namespace Kernel

/-- A 64-bit kernel: 4 MiB blocks, counts up to `INT_MAX & PAGE_MASK`. -/
def linux64 : Kernel where
  width := 64
  kmallocMax := 4194304
  rwMax := 2147479552
  ring_fits := by decide
  append_fits := by decide

variable (K : Kernel)

def add (a b : Nat) : Nat := (a + b) % 2 ^ K.width

def sub (a b : Nat) : Nat := (a + (2 ^ K.width - b % 2 ^ K.width)) % 2 ^ K.width

theorem add_eq {a b : Nat} (h : a + b < 2 ^ K.width) : K.add a b = a + b := Nat.mod_eq_of_lt h

theorem sub_eq {a b : Nat} (ha : a < 2 ^ K.width) (hb : b ≤ a) : K.sub a b = a - b := by
  rw [sub, Nat.mod_eq_of_lt (by omega : b < 2 ^ K.width),
    show a + (2 ^ K.width - b) = a - b + 2 ^ K.width by omega, Nat.add_mod_right, Nat.mod_eq_of_lt (by omega)]

/-- A buffer in user space that the VFS passes on with its length as `count`. -/
abbrev UserBuf : Type := { buf : List Byte // buf.length ≤ K.rwMax }

/-- The VFS cuts a longer request at `rwMax`. -/
def clamp (buf : List Byte) : K.UserBuf := ⟨buf.take K.rwMax, by simp⟩

theorem clamp_of_le {buf : List Byte} (h : buf.length ≤ K.rwMax) : (K.clamp buf).val = buf :=
  List.take_of_length_le h

end Kernel

/-! ## The ledger -/

/-- A block that `kzalloc` handed out; `data` has the length it was allocated with. -/
structure Block where
  data : List Byte
  live : Bool
deriving DecidableEq, Repr

/-- The ledger: block `p` is the `p`-th that was allocated. -/
structure Heap where
  blocks : List Block := []
deriving DecidableEq, Repr

/-- What the C code must never do. -/
inductive Fault where
  | nullDeref
  | useAfterFree (p : Nat)
  | doubleFree (p : Nat)
  | outOfBounds (p : Nat)
deriving DecidableEq, Repr

namespace Heap

def block (h : Heap) (p : Nat) : Option Block := h.blocks[p]?

def push (h : Heap) (b : Block) : Heap := ⟨h.blocks ++ [b]⟩

def put (h : Heap) (p : Nat) (b : Block) : Heap := ⟨h.blocks.set p b⟩

/-- Block `p` is live with contents `data`. -/
def Holds (h : Heap) (p : Nat) (data : List Byte) : Prop := h.block p = some ⟨data, true⟩

instance (h : Heap) (p : Nat) (data : List Byte) : Decidable (h.Holds p data) :=
  inferInstanceAs (Decidable (h.block p = some ⟨data, true⟩))

def Live (h : Heap) (p : Nat) : Prop := ∃ data, h.Holds p data

/-- `kzalloc(size, GFP_KERNEL)`: a zeroed block with a fresh id, or `NULL`; never more than `kmallocMax` bytes. -/
def kzalloc (K : Kernel) (ok : Bool) (size : Nat) (h : Heap) : Option (Nat × Heap) :=
  if ok ∧ size ≤ K.kmallocMax then some (h.blocks.length, h.push ⟨List.replicate size .zero, true⟩) else none

def kfree (h : Heap) (p : Nat) : Except Fault Heap :=
  match h.block p with
  | some ⟨data, true⟩ => .ok (h.put p ⟨data, false⟩)
  | _ => .error (.doubleFree p)

/-- Reading `n` bytes at `p + off`. -/
def load (h : Heap) (p off n : Nat) : Except Fault (List Byte) :=
  match h.block p with
  | some ⟨data, true⟩ => if off + n ≤ data.length then .ok ((data.drop off).take n) else .error (.outOfBounds p)
  | _ => .error (.useAfterFree p)

/-- Writing `bytes` at `p + off`. -/
def store (h : Heap) (p off : Nat) (bytes : List Byte) : Except Fault Heap :=
  match h.block p with
  | some ⟨data, true⟩ =>
    if off + bytes.length ≤ data.length then
      .ok (h.put p ⟨data.take off ++ bytes ++ data.drop (off + bytes.length), true⟩)
    else .error (.outOfBounds p)
  | _ => .error (.useAfterFree p)

/-! ### Lookups -/

theorem block_push (h : Heap) (b : Block) (p : Nat) :
    (h.push b).block p = if p = h.blocks.length then some b else h.block p := by
  unfold block push
  split_ifs with he
  · simp [he]
  · rw [List.getElem?_append]
    split_ifs with hlt
    · rfl
    · rw [List.getElem?_eq_none (by simp; omega), List.getElem?_eq_none (by omega)]

theorem block_put (h : Heap) (p q : Nat) (b : Block) :
    (h.put p b).block q = if q = p ∧ p < h.blocks.length then some b else h.block q := by
  unfold block put
  rw [List.getElem?_set]
  split_ifs with h1 h2 h3 h3 <;> first | rfl | skip
  · omega
  · omega
  · rw [List.getElem?_eq_none (by omega)]
  · omega

@[simp] theorem length_push (h : Heap) (b : Block) : (h.push b).blocks.length = h.blocks.length + 1 := by
  simp [push]

@[simp] theorem length_put (h : Heap) (p : Nat) (b : Block) : (h.put p b).blocks.length = h.blocks.length := by
  simp [put]

theorem lt_of_block {h : Heap} {p : Nat} {b : Block} (hb : h.block p = some b) : p < h.blocks.length :=
  (List.getElem?_eq_some_iff.mp hb).1

theorem Holds.lt {h : Heap} {p : Nat} {data : List Byte} (hp : h.Holds p data) : p < h.blocks.length :=
  lt_of_block hp

theorem put_push (h : Heap) (b c : Block) : (h.push b).put h.blocks.length c = h.push c := by
  simp [put, push]

theorem put_push_of_lt (h : Heap) (b c : Block) {p : Nat} (hp : p < h.blocks.length) :
    (h.push b).put p c = (h.put p c).push b := by
  simp [put, push, List.set_append_left _ _ hp]

/-! ### The operations on a live block -/

variable {K : Kernel} {h : Heap} {p : Nat} {data : List Byte}

theorem kfree_of_holds (hp : h.Holds p data) : h.kfree p = .ok (h.put p ⟨data, false⟩) := by
  rw [kfree, hp]

theorem load_of_holds (hp : h.Holds p data) {off n : Nat} (hn : off + n ≤ data.length) :
    h.load p off n = .ok ((data.drop off).take n) := by
  rw [load, hp]
  simp [hn]

theorem store_of_holds (hp : h.Holds p data) {off : Nat} {bytes : List Byte} (hn : off + bytes.length ≤ data.length) :
    h.store p off bytes = .ok (h.put p ⟨data.take off ++ bytes ++ data.drop (off + bytes.length), true⟩) := by
  rw [store, hp]
  simp [hn]

theorem holds_push (h : Heap) (data : List Byte) : (h.push ⟨data, true⟩).Holds h.blocks.length data := by
  rw [Holds, block_push, if_pos rfl]

theorem Holds.push (hp : h.Holds p data) (b : Block) : (h.push b).Holds p data := by
  have := hp.lt
  rw [Holds, block_push, if_neg (by omega)]
  exact hp

theorem kfree_ok {h' : Heap} (hk : h.kfree p = .ok h') : ∃ data, h.Holds p data ∧ h' = h.put p ⟨data, false⟩ := by
  unfold kfree at hk
  split at hk
  · next data hb => exact ⟨data, hb, (Except.ok.inj hk).symm⟩
  · cases hk

theorem store_ok {off : Nat} {bytes : List Byte} {h' : Heap} (hs : h.store p off bytes = .ok h') :
    ∃ b, h' = h.put p b := by
  unfold store at hs
  split at hs
  · split_ifs at hs
    exact ⟨_, (Except.ok.inj hs).symm⟩
  · cases hs

theorem kzalloc_eq_some {ok : Bool} {size q : Nat} {h' : Heap} (hk : kzalloc K ok size h = some (q, h')) :
    size ≤ K.kmallocMax ∧ q = h.blocks.length ∧ h' = h.push ⟨List.replicate size .zero, true⟩ := by
  unfold kzalloc at hk
  split_ifs at hk with hc
  simp only [Option.some.injEq, Prod.mk.injEq] at hk
  exact ⟨hc.2, hk.1.symm, hk.2.symm⟩

end Heap

end Aesd.Driver
