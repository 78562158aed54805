import Aesd.Lib.Ledger

/-!
# Singly linked lists in a ledger

The list macros of BSD's `queue.h`, on ids instead of pointers. An access to an id that is not live, a search that runs
off the end of the list and one that does not end are all `none`.

* `Node α` : contents with a link;
* `insertHead`, `remove` : `SLIST_INSERT_HEAD`, `SLIST_REMOVE`;
* `walk` : the ids that a traversal visits;
* `Chain h p ids` : the list that starts with `p` consists of the live ids `ids`; `Chain.insertHead`, `Chain.remove` :
  the two operations on it. Both change links and nothing else (`SameButLink`).
-/

namespace Aesd.Lib

/-- Contents with a link to the next node. -/
class Node (α : Type) where
  next : α → Option Nat
  setNext : Option Nat → α → α
  next_setNext : ∀ p a, next (setNext p a) = p

namespace Slist
variable {α : Type} [Node α]

/-- `elm->next = head; head = elm`. -/
def insertHead (h : Ledger α) (head : Option Nat) (elm : Nat) : Option (Ledger α × Option Nat) := do
  let a ← h.get elm
  let h ← h.put elm (Node.setNext head a)
  some (h, some elm)

/-- From `cur` on, the node before `elm` is linked to the one behind it. -/
def removeAfter (h : Ledger α) (elm : Nat) : Nat → Option Nat → Option (Ledger α)
  | 0, _ => none
  | _ + 1, none => none
  | fuel + 1, some cur => do
    let a ← h.get cur
    if Node.next a = some elm then do
      let e ← h.get elm
      h.put cur (Node.setNext (Node.next e) a)
    else removeAfter h elm fuel (Node.next a)

def remove (h : Ledger α) (fuel : Nat) (head : Option Nat) (elm : Nat) : Option (Ledger α × Option Nat) :=
  if head = some elm then do
    let e ← h.get elm
    some (h, Node.next e)
  else do
    let h ← removeAfter h elm fuel head
    some (h, head)

/-- The ids that a traversal from `p` visits. -/
def walk (h : Ledger α) : Nat → Option Nat → List Nat
  | 0, _ => []
  | _ + 1, none => []
  | fuel + 1, some p =>
    match h.get p with
    | some a => p :: walk h fuel (Node.next a)
    | none => [p]

/-! ## The list that starts with a pointer -/

def Chain (h : Ledger α) : Option Nat → List Nat → Prop
  | p, [] => p = none
  | p, x :: xs => p = some x ∧ ∃ a, h.cell x = .live a ∧ Chain h (Node.next a) xs

def SameButLink (h h' : Ledger α) : Prop :=
  ∀ id, h'.cell id = h.cell id ∨ ∃ a p, h.cell id = .live a ∧ h'.cell id = .live (Node.setNext p a)

theorem SameButLink.refl (h : Ledger α) : SameButLink h h := fun _ => Or.inl rfl

variable {h h' : Ledger α} {p : Option Nat} {ids : List Nat}

theorem Chain.head (hc : Chain h p ids) : p = ids.head? := by
  cases ids with
  | nil => exact hc
  | cons x xs => exact hc.1

theorem Chain.frame (hc : Chain h p ids) (hsame : ∀ x ∈ ids, h'.cell x = h.cell x) : Chain h' p ids := by
  induction ids generalizing p with
  | nil => exact hc
  | cons x xs ih =>
      obtain ⟨hp, a, ha, hrest⟩ := hc
      exact ⟨hp, a, (hsame x (by simp)).trans ha, ih hrest fun y hy => hsame y (by simp [hy])⟩

theorem Chain.walk (hc : Chain h p ids) {fuel : Nat} (hfuel : ids.length ≤ fuel) : walk h fuel p = ids := by
  induction ids generalizing p fuel with
  | nil =>
      rw [show p = none from hc]
      cases fuel <;> rfl
  | cons x xs ih =>
      obtain ⟨rfl, a, ha, hrest⟩ := hc
      obtain ⟨n, rfl⟩ : ∃ n, fuel = n + 1 := ⟨fuel - 1, by simp at hfuel; omega⟩
      rw [Slist.walk, Ledger.get_eq_some.mpr ha]
      dsimp only
      rw [ih hrest (by simpa using hfuel)]

theorem Chain.drop {pre rest : List Nat} (hc : Chain h p (pre ++ rest)) : ∃ q, Chain h q rest := by
  induction pre generalizing p with
  | nil => exact ⟨p, hc⟩
  | cons x xs ih =>
      obtain ⟨-, a, -, hrest⟩ := hc
      exact ih hrest

theorem Chain.next {pre rest : List Nat} {x : Nat} (hc : Chain h p (pre ++ x :: rest)) :
    ∃ a, h.cell x = .live a ∧ Node.next a = rest.head? := by
  obtain ⟨-, -, a, ha, hrest⟩ := hc.drop
  exact ⟨a, ha, hrest.head⟩

theorem Chain.insertHead (hc : Chain h p ids) {x : Nat} {a : α} (ha : h.cell x = .live a) (hx : x ∉ ids) :
    ∃ h', insertHead h p x = some (h', some x) ∧ Chain h' (some x) (x :: ids) ∧ SameButLink h h' := by
  refine ⟨h.set x (.live (Node.setNext p a)), ?_, ⟨rfl, Node.setNext p a, by simp, ?_⟩, fun id => ?_⟩
  · rw [Slist.insertHead, Ledger.get_eq_some.mpr ha]
    change (h.put x (Node.setNext p a) >>= _) = _
    rw [Ledger.put_of_live ha]
    rfl
  · rw [Node.next_setNext]
    apply hc.frame
    intro y hy
    rw [Ledger.cell_set, if_neg]
    rintro rfl
    exact hx hy
  · by_cases hid : id = x
    · subst hid
      exact Or.inr ⟨a, p, ha, by simp⟩
    · exact Or.inl (by simp [hid])

theorem Chain.removeAfter {pre rest : List Nat} {elm cur : Nat} (hc : Chain h p (cur :: (pre ++ elm :: rest)))
    (hnodup : (cur :: (pre ++ elm :: rest)).Nodup) {fuel : Nat} (hfuel : pre.length < fuel) :
    ∃ h', removeAfter h elm fuel p = some h' ∧ Chain h' p (cur :: (pre ++ rest)) ∧ SameButLink h h' ∧
      h'.cell elm = h.cell elm ∧ ∀ x, x ∉ cur :: pre → h'.cell x = h.cell x := by
  induction pre generalizing p cur fuel with
  | nil =>
      obtain ⟨n, rfl⟩ : ∃ n, fuel = n + 1 := ⟨fuel - 1, by simp at hfuel; omega⟩
      obtain ⟨rfl, a, ha, hnext, e, he, hrest⟩ := hc
      rw [List.nil_append, List.nodup_cons, List.nodup_cons] at hnodup
      obtain ⟨hcur, helm, -⟩ := hnodup
      have hne : elm ≠ cur := by
        rintro rfl
        simp at hcur
      refine ⟨h.set cur (.live (Node.setNext (Node.next e) a)), ?_,
        ⟨rfl, Node.setNext (Node.next e) a, by simp, ?_⟩, fun id => ?_, ?_, ?_⟩
      · rw [Slist.removeAfter, Ledger.get_eq_some.mpr ha]
        change (if Node.next a = some elm then _ else _) = _
        rw [if_pos hnext, Ledger.get_eq_some.mpr he]
        exact Ledger.put_of_live ha
      · rw [Node.next_setNext]
        apply hrest.frame
        intro x hx
        rw [Ledger.cell_set, if_neg]
        rintro rfl
        simp [hx] at hcur
      · by_cases hid : id = cur
        · subst hid
          exact Or.inr ⟨a, Node.next e, ha, by simp⟩
        · exact Or.inl (by simp [hid])
      · simp [hne]
      · intro x hx
        simp only [List.mem_singleton] at hx
        simp [hx]
  | cons y pre ih =>
      obtain ⟨n, rfl⟩ : ∃ n, fuel = n + 1 := ⟨fuel - 1, by simp at hfuel; omega⟩
      obtain ⟨rfl, a, ha, hrest⟩ := hc
      rw [List.nodup_cons] at hnodup
      obtain ⟨hcur, htail⟩ := hnodup
      have hnext : Node.next a = some y := hrest.head
      have hy : y ≠ elm := by
        rintro rfl
        simp at htail
      obtain ⟨h', hrun, hchain, hsame, helm, hframe⟩ := ih hrest htail (by simpa using hfuel)
      have hkept : h'.cell cur = h.cell cur := by
        apply hframe
        intro hmem
        apply hcur
        simp only [List.cons_append, List.mem_cons, List.mem_append] at hmem ⊢
        rcases hmem with rfl | hmem
        · exact Or.inl rfl
        · exact Or.inr (Or.inl hmem)
      refine ⟨h', ?_, ⟨rfl, a, hkept.trans ha, hchain⟩, hsame, helm, fun x hx => hframe x fun hmem => hx (by simp_all)⟩
      rw [Slist.removeAfter, Ledger.get_eq_some.mpr ha]
      change (if Node.next a = some elm then _ else _) = _
      rw [if_neg (by rw [hnext]; simpa using hy)]
      exact hrun

/-- The search finds its element, which is unlinked and stays as it is. -/
theorem Chain.remove {pre rest : List Nat} {elm : Nat} (hc : Chain h p (pre ++ elm :: rest))
    (hnodup : (pre ++ elm :: rest).Nodup) {fuel : Nat} (hfuel : pre.length ≤ fuel) :
    ∃ h' p', remove h fuel p elm = some (h', p') ∧ Chain h' p' (pre ++ rest) ∧ SameButLink h h' ∧
      h'.cell elm = h.cell elm := by
  cases pre with
  | nil =>
      obtain ⟨rfl, e, he, hrest⟩ := hc
      refine ⟨h, Node.next e, ?_, hrest, .refl h, rfl⟩
      rw [Slist.remove, if_pos rfl, Ledger.get_eq_some.mpr he]
      rfl
  | cons cur pre =>
      have hne : p ≠ some elm := by
        rw [hc.head]
        rintro heq
        simp only [List.cons_append, List.head?_cons, Option.some.injEq] at heq
        subst heq
        simp at hnodup
      obtain ⟨h', hrun, hchain, hsame, helm, -⟩ := hc.removeAfter hnodup (by simpa using hfuel)
      refine ⟨h', p, ?_, hchain, hsame, helm⟩
      rw [Slist.remove, if_neg hne, hrun]
      rfl

end Slist

end Aesd.Lib
