import Mathlib.Tactic

/-!
# Concurrent histories and sequential logs

* `Event` : what a history records of a call, its invocation and its return;
* `Precedes h a b` : call `a` returned before call `b` was invoked;
* `Linearizes h log` : the log has every call of `h` that returned, with the value it returned, once and in an order
  that `Precedes` allows; it may also have calls that took effect and are still to return.

`Linearizes.invoke`, `Linearizes.commit` and `Linearizes.complete` are the three moments of a call. A log that only
grows at its end keeps to `Precedes` because a call is in it before it returns and not before it is invoked.

* `Completes step result s v` : a call that runs alone from `s` comes to the outcome `v`. A step of the call keeps the
  outcome it comes to (`Completes.after`).
-/

namespace Aesd.Lib

variable {Op Val : Type}

/-- The invocation of call `id`, and its return. -/
inductive Event (Op Val : Type) where
  | inv (id : Nat) (op : Op)
  | ret (id : Nat) (val : Val)

/-- A call that took effect, with the value it returns. -/
structure Effect (Op Val : Type) where
  id : Nat
  op : Op
  val : Val

/-- Call `a` returned before call `b` was invoked. -/
def Precedes (h : List (Event Op Val)) (a b : Nat) : Prop :=
  ∃ before after val op, h = before ++ after ∧ .ret a val ∈ before ∧ .inv b op ∈ after

structure Linearizes (h : List (Event Op Val)) (log : List (Effect Op Val)) : Prop where
  nodup : (log.map Effect.id).Nodup
  invoked : ∀ e ∈ log, .inv e.id e.op ∈ h
  returned : ∀ id val, .ret id val ∈ h → ∃ op, ⟨id, op, val⟩ ∈ log
  order : ∀ a b, Precedes h a b → b ∈ log.map Effect.id → [a, b].Sublist (log.map Effect.id)

/-- An event at the end of a history puts a call behind others only if it is an invocation. -/
theorem precedes_concat {h : List (Event Op Val)} {e : Event Op Val} {a b : Nat} (hp : Precedes (h ++ [e]) a b) :
    Precedes h a b ∨ ∃ val op, e = .inv b op ∧ .ret a val ∈ h := by
  obtain ⟨before, after, val, op, heq, ha, hb⟩ := hp
  rcases List.eq_nil_or_concat after with rfl | ⟨after, last, rfl⟩
  · simp at hb
  · rw [List.concat_eq_append, ← List.append_assoc] at heq
    obtain ⟨rfl, hlast⟩ := List.append_inj' heq rfl
    obtain rfl : e = last := by simpa using hlast
    rw [List.concat_eq_append, List.mem_append, List.mem_singleton] at hb
    rcases hb with hb | rfl
    · exact Or.inl ⟨before, after, val, op, rfl, ha, hb⟩
    · exact Or.inr ⟨val, op, rfl, List.mem_append_left _ ha⟩

namespace Linearizes
variable {h : List (Event Op Val)} {log : List (Effect Op Val)} {id : Nat} {op : Op} {val : Val}

theorem nil : Linearizes ([] : List (Event Op Val)) [] where
  nodup := List.nodup_nil
  invoked e he := by simp at he
  returned id val hr := by simp at hr
  order a b hp hb := by simp at hb

theorem invoke (hl : Linearizes h log) (hid : id ∉ log.map Effect.id) : Linearizes (h ++ [.inv id op]) log where
  nodup := hl.nodup
  invoked e he := List.mem_append_left _ (hl.invoked e he)
  returned a v hr := by
    apply hl.returned a v
    simpa using hr
  order a b hp hb := by
    rcases precedes_concat hp with hp | ⟨v, o, heq, -⟩
    · exact hl.order a b hp hb
    · cases heq
      exact absurd hb hid

theorem commit (hl : Linearizes h log) (hinv : .inv id op ∈ h) (hid : id ∉ log.map Effect.id) :
    Linearizes h (log ++ [⟨id, op, val⟩]) where
  nodup := by
    rw [List.map_append, List.map_singleton]
    exact List.nodup_append.mpr ⟨hl.nodup, List.nodup_singleton _, fun a ha b hb => by
      rw [List.mem_singleton.mp hb]
      rintro rfl
      exact hid ha⟩
  invoked e he := by
    rcases List.mem_append.mp he with he | he
    · exact hl.invoked e he
    · rw [List.mem_singleton.mp he]
      exact hinv
  returned a v hr := by
    obtain ⟨o, ho⟩ := hl.returned a v hr
    exact ⟨o, List.mem_append_left _ ho⟩
  order a b hp hb := by
    rw [List.map_append, List.map_singleton] at hb ⊢
    rcases List.mem_append.mp hb with hb | hb
    · exact (hl.order a b hp hb).trans (List.sublist_append_left _ _)
    · obtain rfl : b = id := by simpa using hb
      obtain ⟨before, after, v, o, rfl, ha, -⟩ := hp
      obtain ⟨o', ho'⟩ := hl.returned a v (List.mem_append_left _ ha)
      have ha' : a ∈ log.map Effect.id := List.mem_map.mpr ⟨_, ho', rfl⟩
      exact (List.singleton_sublist.mpr ha').append (List.Sublist.refl [b])

theorem complete (hl : Linearizes h log) (hmem : ⟨id, op, val⟩ ∈ log) : Linearizes (h ++ [.ret id val]) log where
  nodup := hl.nodup
  invoked e he := List.mem_append_left _ (hl.invoked e he)
  returned a v hr := by
    rcases List.mem_append.mp hr with hr | hr
    · exact hl.returned a v hr
    · cases List.mem_singleton.mp hr
      exact ⟨op, hmem⟩
  order a b hp hb := by
    rcases precedes_concat hp with hp | ⟨v, o, heq, -⟩
    · exact hl.order a b hp hb
    · cases heq

end Linearizes

/-! ## Calls that run alone -/

/-- The steps of a call from `s` end with the result or the fault `v`. -/
inductive Completes {σ ε ρ : Type} (step : σ → Except ε σ) (result : σ → Option ρ) : σ → Except ε ρ → Prop
  | done {s : σ} {r : ρ} (hr : result s = some r) : Completes step result s (.ok r)
  | fault {s : σ} {e : ε} (hr : result s = none) (hs : step s = .error e) : Completes step result s (.error e)
  | step {s s' : σ} {v : Except ε ρ} (hr : result s = none) (hs : step s = .ok s') (h : Completes step result s' v) :
      Completes step result s v

namespace Completes
variable {σ ε ρ : Type} {step : σ → Except ε σ} {result : σ → Option ρ} {s s' : σ} {v : Except ε ρ}

theorem after (h : Completes step result s v) (hr : result s = none) (hs : step s = .ok s') :
    Completes step result s' v := by
  cases h with
  | done hr' => simp [hr] at hr'
  | fault _ hs' => simp [hs] at hs'
  | step _ hs' h' =>
      rw [hs] at hs'
      cases hs'
      exact h'

theorem eq_ok (h : Completes step result s v) {r : ρ} (hr : result s = some r) : v = .ok r := by
  cases h with
  | done hr' =>
      rw [hr] at hr'
      cases hr'
      rfl
  | fault hr' _ => simp [hr] at hr'
  | step hr' _ _ => simp [hr] at hr'

/-- A call that comes to a value does not fault at its next step. -/
theorem not_fault {r : ρ} (h : Completes step result s (.ok r)) (hr : result s = none) : ∃ s', step s = .ok s' := by
  cases h with
  | done hr' => simp [hr] at hr'
  | step _ hs _ => exact ⟨_, hs⟩

end Completes

/-- A relation that lowers a rank at every step has no cycle. -/
theorem not_transGen_self {α : Type} {r : α → α → Prop} (rank : α → Nat) (h : ∀ a b, r a b → rank b < rank a) (a : α) :
    ¬ Relation.TransGen r a a := by
  have hlt : ∀ b, Relation.TransGen r a b → rank b < rank a := by
    intro b hb
    induction hb with
    | single hab => exact h _ _ hab
    | tail _ hbc ih => exact (h _ _ hbc).trans ih
  exact fun hc => Nat.lt_irrefl _ (hlt a hc)

end Aesd.Lib
