import Mathlib.Tactic

/-!
# Ledgers

* `Ledger α` : for every id, whether it was never handed out, is live with contents in `α`, or is dead;
* `get`, `put`, `free` : an access to an id that is not live is `none`;
* `alloc` : hands out an id that was never handed out, and no other. A dead id stays dead, so an id that is dead was
  handed out once and given back once;
* `alloc_of_absent`, `put_of_live`, `free_of_live` : what an operation that succeeds does to its cell.
-/

namespace Aesd.Lib

inductive Cell (α : Type) where
  | absent
  | live (a : α)
  | dead
deriving DecidableEq, Repr

def Cell.get {α : Type} : Cell α → Option α
  | .live a => some a
  | _ => none

def Cell.map {α β : Type} (f : α → β) : Cell α → Cell β
  | .absent => .absent
  | .live a => .live (f a)
  | .dead => .dead

theorem Cell.get_eq_some {α : Type} {cell : Cell α} {a : α} : cell.get = some a ↔ cell = .live a := by
  cases cell <;> simp [Cell.get]

theorem Cell.map_eq_absent {α β : Type} {f : α → β} {cell : Cell α} : cell.map f = .absent ↔ cell = .absent := by
  cases cell <;> simp [Cell.map]

structure Ledger (α : Type) where
  cell : Nat → Cell α

namespace Ledger
variable {α : Type}

def empty : Ledger α := ⟨fun _ => .absent⟩

def get (h : Ledger α) (id : Nat) : Option α := (h.cell id).get

def set (h : Ledger α) (id : Nat) (cell : Cell α) : Ledger α := ⟨Function.update h.cell id cell⟩

/-- An id is handed out once. -/
def alloc (h : Ledger α) (id : Nat) (a : α) : Ledger α :=
  match h.cell id with
  | .absent => h.set id (.live a)
  | _ => h

def put (h : Ledger α) (id : Nat) (a : α) : Option (Ledger α) :=
  match h.get id with
  | some _ => some (h.set id (.live a))
  | none => none

def free (h : Ledger α) (id : Nat) : Option (Ledger α) :=
  match h.get id with
  | some _ => some (h.set id .dead)
  | none => none

variable {h : Ledger α} {id : Nat}

theorem get_eq_some {a : α} : h.get id = some a ↔ h.cell id = .live a := Cell.get_eq_some

@[simp] theorem cell_set (cell : Cell α) (j : Nat) : (h.set id cell).cell j = if j = id then cell else h.cell j := by
  unfold set
  dsimp only
  rw [Function.update_apply]

theorem cell_set_self (cell : Cell α) : (h.set id cell).cell id = cell := by
  rw [cell_set, if_pos rfl]

theorem cell_set_of_ne (cell : Cell α) {j : Nat} (hj : j ≠ id) : (h.set id cell).cell j = h.cell j := by
  rw [cell_set, if_neg hj]

theorem alloc_of_absent {a : α} (ha : h.cell id = .absent) : h.alloc id a = h.set id (.live a) := by
  rw [alloc, ha]

theorem put_of_live {a b : α} (hb : h.cell id = .live b) : h.put id a = some (h.set id (.live a)) := by
  rw [put, get_eq_some.mpr hb]

theorem free_of_live {b : α} (hb : h.cell id = .live b) : h.free id = some (h.set id .dead) := by
  rw [free, get_eq_some.mpr hb]

end Ledger

end Aesd.Lib
