import Mathlib.Tactic

/-!
# `writer.c`

* `CString` : a string in memory, with the terminating NUL behind it;
* `World` : what the system calls of one run of the program answer. A `write` accepts some of the bytes it is offered or
  fails, and this is all that is known about it;
* `TryWrite`, `tryWritePass` : the loop of `try_write`, one pass of the `while` at a time, with the history of its calls;
* `main` : the program, which returns when its loop does;
* `TryWrite.Inv` : pointer, remaining count and file stay in step; `tryWrite_returns` : the loop ends;
* `writer_writes_all_or_reports`.
-/

namespace Aesd.FinderApp.Writer

/-- What `errno` can be after a call that failed. -/
abbrev Errno : Type := { e : Nat // e ≠ 0 }

def EINTR : Errno := ⟨4, by decide⟩

def EXIT_SUCCESS : Nat := 0
def EXIT_FAILURE : Nat := 1

/-- The characters of a string, without the NUL that ends it. It lies in memory, so `size_t` can count it. -/
structure CString where
  chars : List UInt8
  no_nul : 0 ∉ chars
  length_lt : chars.length < 2 ^ 64

def CString.mem (str : CString) : List UInt8 := str.chars ++ [0]

def strlen (mem : List UInt8) : UInt64 := UInt64.ofNat (mem.findIdx (· == 0))

/-- What `write` answers when it is offered that many bytes. -/
inductive WriteResult (offered : Nat) where
  | accepted (n : Nat) (pos : 1 ≤ n) (le : n ≤ offered)
  | failed (errno : Errno)

/-- The answers of the system calls: of `creat`, of the `i`-th `write` and of `close`. -/
structure World where
  creat : Option Errno
  write : (i offered : Nat) → WriteResult offered
  close : Option Errno

/-- No signal interrupts a `write` from call `N` on. -/
def World.NoEintrFrom (w : World) (N : Nat) : Prop := ∀ i, N ≤ i → ∀ offered, w.write i offered ≠ .failed EINTR

/-! ## `try_write` -/

/-- A call of `write`: the file before it, the bytes it was offered, and how it failed if it did. -/
structure WriteCall where
  file : List UInt8
  offered : List UInt8
  failed : Option Errno
deriving DecidableEq, Repr

/-- The variables of `try_write`, the file it writes to and what it returned. -/
structure TryWrite where
  pstr : Nat
  remaining : UInt64
  file : List UInt8
  ret : Option Nat
  -- history: the calls of `write` so far
  calls : List WriteCall
deriving DecidableEq, Repr

/-- `try_write` before its loop, with the file that `creat` left empty. -/
def TryWrite.start (str : CString) : TryWrite where
  pstr := 0
  remaining := strlen str.mem
  file := []
  ret := none
  calls := []

/-- One pass of the `while` loop. After the function returned nothing happens any more. -/
def tryWritePass (w : World) (str : CString) (s : TryWrite) : TryWrite :=
  if s.ret.isSome then s
  else if s.remaining > 0 then
    let offered := (str.mem.drop s.pstr).take s.remaining.toNat
    match w.write s.calls.length s.remaining.toNat with
    | .failed errno =>
      let s := { s with calls := s.calls ++ [⟨s.file, offered, some errno⟩] }
      -- retry after signal interrupt
      if errno = EINTR then s else { s with ret := some errno }
    | .accepted written _ _ =>
      { s with
        remaining := s.remaining - UInt64.ofNat written
        pstr := s.pstr + written
        file := s.file ++ offered.take written
        calls := s.calls ++ [⟨s.file, offered, none⟩] }
  else { s with ret := some 0 }

/-- `try_write` after `n` passes of its loop. -/
def tryWrite (w : World) (str : CString) (n : Nat) : TryWrite := (tryWritePass w str)^[n] (.start str)

/-! ## `main` -/

/-- The messages to syslog, all but the first with priority `LOG_ERR`. -/
inductive Msg where
  /-- `LOG_DEBUG`, "Writing %s to %s" -/
  | writing (writestr writefile : CString)
  /-- "expected 2 arguments but received %d" -/
  | expectedTwoArguments (received : Int)
  /-- "could not open %s: %s" -/
  | couldNotOpen (path : CString) (errno : Errno)
  /-- "could not write to file: %s" -/
  | couldNotWrite (errno : Nat)
  /-- "could not close file: %s" -/
  | couldNotClose (errno : Errno)

def Msg.isErr : Msg → Bool
  | .writing _ _ => false
  | _ => true

/-- How a run of the program ends: the exit status, what it logged, and the file if it was created. -/
structure Exit where
  status : Nat
  log : List Msg
  file : Option (List UInt8) := none

/-- `main` from `try_write` on, which returned `result`. -/
def finish (w : World) (writefile writestr : CString) (result : Nat) (file : List UInt8) : Exit :=
  let wrote := if result ≠ 0 then (EXIT_FAILURE, [Msg.couldNotWrite result]) else (EXIT_SUCCESS, [])
  let closed := match w.close with
    | some errno => (EXIT_FAILURE, wrote.2 ++ [Msg.couldNotClose errno])
    | none => wrote
  ⟨closed.1, .writing writestr writefile :: closed.2, some file⟩

/-- `main`, `none` while `try_write` has not returned after `n` passes. -/
def main (w : World) (argv : List CString) (n : Nat) : Option Exit :=
  match argv with
  | [_, writefile, writestr] =>
    match w.creat with
    | some errno => some ⟨EXIT_FAILURE, [.couldNotOpen writefile errno], none⟩
    | none =>
      let s := tryWrite w writestr n
      s.ret.map fun result => finish w writefile writestr result s.file
  | argv => some ⟨EXIT_FAILURE, [.expectedTwoArguments (argv.length - 1)], none⟩

/-! ## The loop -/

theorem strlen_mem (str : CString) : (strlen str.mem).toNat = str.chars.length := by
  have hidx : str.mem.findIdx (· == 0) = str.chars.length := by
    rw [CString.mem, List.findIdx_append]
    have hnone : str.chars.findIdx (· == 0) = str.chars.length := by
      rw [List.findIdx_eq_length]
      intro c hc
      have hne : c ≠ 0 := fun h => str.no_nul (h ▸ hc)
      simpa using hne
    rw [hnone]
    simp
  rw [strlen, hidx, UInt64.toNat_ofNat_of_lt' str.length_lt]

namespace TryWrite
variable {w : World} {str : CString} {s : TryWrite}

/-- The bytes before `pstr` are in the file and those from it on remain; every call so far was offered what the file did
not hold yet; and what the function returned says why it did. -/
structure Inv (str : CString) (s : TryWrite) : Prop where
  file : s.file = str.chars.take s.pstr
  remaining : s.remaining.toNat + s.pstr = str.chars.length
  calls : ∀ c ∈ s.calls, c.file ++ c.offered = str.chars
  done : ∀ r, s.ret = some r → if r = 0 then s.file = str.chars else s.file ≠ str.chars ∧
    ∃ c errno, s.calls.getLast? = some c ∧ c.failed = some errno ∧ errno.val = r ∧ errno ≠ EINTR

theorem Inv.start (str : CString) : Inv str (.start str) where
  file := rfl
  remaining := strlen_mem str
  calls := by simp [TryWrite.start]
  done := by simp [TryWrite.start]

theorem Inv.file_append (h : Inv str s) : s.file ++ str.chars.drop s.pstr = str.chars := by
  rw [h.file, List.take_append_drop]

theorem Inv.offered (h : Inv str s) : (str.mem.drop s.pstr).take s.remaining.toNat = str.chars.drop s.pstr := by
  have hrem := h.remaining
  rw [CString.mem, List.drop_append_of_le_length (by omega), List.take_append_of_le_length]
  · exact List.take_of_length_le (by rw [List.length_drop]; omega)
  · rw [List.length_drop]
    omega

theorem pass_cases (w : World) (str : CString) (s : TryWrite) :
    (s.ret.isSome ∧ tryWritePass w str s = s) ∨
    (s.ret = none ∧ s.remaining.toNat = 0 ∧ tryWritePass w str s = { s with ret := some 0 }) ∨
    (s.ret = none ∧ 0 < s.remaining.toNat ∧ ∃ errno,
      w.write s.calls.length s.remaining.toNat = .failed errno ∧
      tryWritePass w str s =
        { s with
          ret := if errno = EINTR then none else some errno
          calls := s.calls ++ [⟨s.file, (str.mem.drop s.pstr).take s.remaining.toNat, some errno⟩] }) ∨
    (s.ret = none ∧ ∃ n, 1 ≤ n ∧ n ≤ s.remaining.toNat ∧
      tryWritePass w str s =
        { s with
          remaining := s.remaining - UInt64.ofNat n
          pstr := s.pstr + n
          file := s.file ++ ((str.mem.drop s.pstr).take s.remaining.toNat).take n
          calls := s.calls ++ [⟨s.file, (str.mem.drop s.pstr).take s.remaining.toNat, none⟩] }) := by
  unfold tryWritePass
  cases hret : s.ret with
  | some r => exact Or.inl ⟨rfl, rfl⟩
  | none =>
      refine Or.inr ?_
      by_cases hrem : s.remaining > 0
      · have hpos : 0 < s.remaining.toNat := UInt64.lt_iff_toNat_lt.mp hrem
        refine Or.inr ?_
        rw [if_neg (by simp), if_pos hrem]
        cases hw : w.write s.calls.length s.remaining.toNat with
        | failed errno =>
            refine Or.inl ⟨rfl, hpos, errno, rfl, ?_⟩
            by_cases he : errno = EINTR
            · simp only [he, if_true]
            · simp only [he, if_false]
        | accepted n hn hle => exact Or.inr ⟨rfl, n, hn, hle, rfl⟩
      · have hzero : ¬ 0 < s.remaining.toNat := fun hlt => hrem (UInt64.lt_iff_toNat_lt.mpr hlt)
        refine Or.inl ⟨rfl, by omega, ?_⟩
        rw [if_neg (by simp), if_neg hrem]

/-- `remaining` is what it was less what was written. -/
theorem toNat_sub_written {remaining : UInt64} {n : Nat} (hn : n ≤ remaining.toNat) :
    (remaining - UInt64.ofNat n).toNat = remaining.toNat - n := by
  have hlt := remaining.toNat_lt
  have hnat : (UInt64.ofNat n).toNat = n := UInt64.toNat_ofNat_of_lt' (show n < 2 ^ 64 by omega)
  rw [UInt64.toNat_sub_of_le _ _ (UInt64.le_iff_toNat_le.mpr (by omega)), hnat]

theorem Inv.pass (h : Inv str s) (w : World) : Inv str (tryWritePass w str s) := by
  have hrem := h.remaining
  have hoffered := h.offered
  have hcalls : ∀ f, ∀ c ∈ s.calls ++ [⟨s.file, (str.mem.drop s.pstr).take s.remaining.toNat, f⟩],
      c.file ++ c.offered = str.chars := by
    intro f c hc
    rw [List.mem_append, List.mem_singleton] at hc
    rcases hc with hc | rfl
    · exact h.calls c hc
    · rw [hoffered]
      exact h.file_append
  rcases pass_cases w str s with ⟨-, heq⟩ | ⟨hret, hzero, heq⟩ | ⟨hret, hpos, errno, -, heq⟩ | ⟨hret, n, hn, hle, heq⟩
  · rw [heq]
    exact h
  · rw [heq]
    refine ⟨h.file, hrem, h.calls, fun r hr => ?_⟩
    cases hr
    rw [if_pos rfl, h.file]
    exact List.take_of_length_le (by omega)
  · rw [heq]
    refine ⟨h.file, hrem, hcalls _, fun r hr => ?_⟩
    dsimp only at hr ⊢
    split_ifs at hr with he
    cases hr
    have hshort : s.file ≠ str.chars := by
      intro hfull
      have hlen := congrArg List.length hfull
      rw [h.file, List.length_take] at hlen
      omega
    rw [if_neg errno.property]
    exact ⟨hshort, _, errno, List.getLast?_concat, rfl, rfl, he⟩
  · rw [heq]
    refine ⟨?_, ?_, hcalls _, by simp [hret]⟩
    · rw [hoffered, h.file, List.take_add]
    · dsimp only
      rw [toNat_sub_written hle]
      omega

theorem Inv.passes (w : World) (str : CString) (n : Nat) : Inv str (tryWrite w str n) := by
  induction n with
  | zero => exact Inv.start str
  | succ n ih =>
      rw [tryWrite, Function.iterate_succ_apply']
      exact ih.pass w

/-! ## The loop ends -/

/-- A pass returns, or the calls that may be interrupted and the bytes that remain get fewer. -/
theorem pass_measure (str : CString) {N : Nat} (hN : w.NoEintrFrom N) (hret : s.ret = none) :
    (tryWritePass w str s).ret ≠ none ∨
      (N - (tryWritePass w str s).calls.length) + (tryWritePass w str s).remaining.toNat <
        (N - s.calls.length) + s.remaining.toNat := by
  rcases pass_cases w str s with ⟨hsome, -⟩ | ⟨-, -, heq⟩ | ⟨-, -, errno, hw, heq⟩ | ⟨-, n, hn, hle, heq⟩
  · rw [hret] at hsome
    cases hsome
  · rw [heq]
    exact Or.inl (by simp)
  · rw [heq]
    by_cases he : errno = EINTR
    · refine Or.inr ?_
      have hearly : s.calls.length < N := by
        by_contra hge
        exact hN _ (Nat.le_of_not_lt hge) _ (he ▸ hw)
      dsimp only
      rw [List.length_append, List.length_singleton]
      omega
    · exact Or.inl (by simp [he])
  · rw [heq]
    refine Or.inr ?_
    dsimp only
    rw [toNat_sub_written hle, List.length_append, List.length_singleton]
    omega

theorem passes_return (h : Inv str s) {N : Nat} (hN : w.NoEintrFrom N) :
    ∃ n r, ((tryWritePass w str)^[n] s).ret = some r := by
  generalize hm : (N - s.calls.length) + s.remaining.toNat = m
  induction m using Nat.strong_induction_on generalizing s with
  | _ m ih =>
      cases hret : s.ret with
      | some r => exact ⟨0, r, hret⟩
      | none =>
          rcases pass_measure str hN hret with hdone | hlt
          · obtain ⟨r, hr⟩ := Option.ne_none_iff_exists'.mp hdone
            exact ⟨1, r, hr⟩
          · obtain ⟨n, r, hr⟩ := ih _ (hm ▸ hlt) (h.pass w) rfl
            exact ⟨n + 1, r, by rw [Function.iterate_succ_apply]; exact hr⟩

end TryWrite

/-- `try_write` returns when signals interrupt it finitely often. -/
theorem tryWrite_returns {w : World} {N : Nat} (hN : w.NoEintrFrom N) (str : CString) :
    ∃ n r, (tryWrite w str n).ret = some r := TryWrite.passes_return (TryWrite.Inv.start str) hN

/-! ## The program -/

theorem finish_status (w : World) (writefile writestr : CString) (result : Nat) (file : List UInt8) :
    (finish w writefile writestr result file).status = EXIT_SUCCESS ↔ result = 0 ∧ w.close = none := by
  unfold finish
  by_cases hr : result = 0 <;> cases hc : w.close <;> simp [hr, EXIT_SUCCESS, EXIT_FAILURE]

/-- The program fails exactly when it logs an error, and then with status 1. -/
theorem main_reports {w : World} {argv : List CString} {n : Nat} {e : Exit} (h : main w argv n = some e) :
    e.status = if e.log.any Msg.isErr then EXIT_FAILURE else EXIT_SUCCESS := by
  unfold main at h
  split at h
  · next writefile writestr =>
    split at h
    · cases h
      rfl
    · obtain ⟨result, -, rfl⟩ := Option.map_eq_some_iff.mp h
      unfold finish
      by_cases hr : result = 0 <;> cases hc : w.close <;> simp [hr, Msg.isErr, EXIT_SUCCESS, EXIT_FAILURE]
  · cases h
    rfl

/-- **`writer` writes all or reports.** Whatever `write` accepts and however often it is interrupted, every call is
offered what the file does not hold yet, the file is a start of the string at every moment and `remaining` counts the
rest. `try_write` returns, and when it has: 0 if the file holds the string, otherwise the `errno` of the last call. The
program then succeeds exactly when that was 0 and the file could be closed. -/
theorem writer_writes_all_or_reports (w : World) (hw : ∃ N, w.NoEintrFrom N) (argv0 writefile writestr : CString) :
    (∀ n, (tryWrite w writestr n).file <+: writestr.chars ∧
      (tryWrite w writestr n).remaining.toNat + (tryWrite w writestr n).file.length = writestr.chars.length ∧
      ∀ c ∈ (tryWrite w writestr n).calls, c.file ++ c.offered = writestr.chars) ∧
    (∃ n r, (tryWrite w writestr n).ret = some r) ∧
    ∀ n r, (tryWrite w writestr n).ret = some r → (r = 0 ↔ (tryWrite w writestr n).file = writestr.chars) ∧
      (r ≠ 0 → ∃ c errno, (tryWrite w writestr n).calls.getLast? = some c ∧ c.failed = some errno ∧ errno.val = r ∧
        errno ≠ EINTR) ∧
      (w.creat = none → ∃ e, main w [argv0, writefile, writestr] n = some e ∧
        e.file = some (tryWrite w writestr n).file ∧ (e.status = EXIT_SUCCESS ↔ r = 0 ∧ w.close = none)) := by
  refine ⟨fun n => ?_, ?_, fun n r hret => ?_⟩
  · have hinv := TryWrite.Inv.passes w writestr n
    refine ⟨?_, ?_, hinv.calls⟩
    · rw [hinv.file]
      exact List.take_prefix _ _
    · have hrem := hinv.remaining
      rw [hinv.file, List.length_take]
      omega
  · obtain ⟨N, hN⟩ := hw
    exact tryWrite_returns hN writestr
  · have hdone := (TryWrite.Inv.passes w writestr n).done r hret
    refine ⟨?_, fun hr => ?_, fun hcreat => ?_⟩
    · split_ifs at hdone with hr
      · exact ⟨fun _ => hdone, fun _ => hr⟩
      · exact ⟨fun h0 => absurd h0 hr, fun hfull => absurd hfull hdone.1⟩
    · rw [if_neg hr] at hdone
      exact hdone.2
    · refine ⟨finish w writefile writestr r (tryWrite w writestr n).file, ?_, rfl, finish_status _ _ _ _ _⟩
      simp only [main, hcreat, hret, Option.map_some]

/-- A `write` that takes one byte, is interrupted, and then takes what is left. -/
def shortWorld : World where
  creat := none
  write i offered :=
    if h : 1 ≤ offered ∧ i ≠ 1 then .accepted (if i = 0 then 1 else offered) (by split <;> omega) (by split <;> omega)
    else .failed (if i = 1 then EINTR else ⟨5, by decide⟩)
  close := none

def abc : CString := ⟨[97, 98, 99], by decide, by decide⟩

theorem writer_writes_all_or_reports_short :
    (tryWrite shortWorld abc 4).ret = some 0 ∧ (tryWrite shortWorld abc 4).file = [97, 98, 99] ∧
      (tryWrite shortWorld abc 4).calls.map WriteCall.offered = [[97, 98, 99], [98, 99], [98, 99]] ∧
      ∃ e, main shortWorld [abc, abc, abc] 4 = some e ∧ e.status = EXIT_SUCCESS := by
  have hw : ∃ N, shortWorld.NoEintrFrom N := by
    refine ⟨2, fun i hi offered => ?_⟩
    unfold shortWorld
    dsimp only
    split_ifs with h1 h2 <;> simp_all [EINTR]
  have hret : (tryWrite shortWorld abc 4).ret = some 0 := by decide
  obtain ⟨hfile, -, hmain⟩ := (writer_writes_all_or_reports shortWorld hw abc abc abc).2.2 4 0 hret
  obtain ⟨e, he, -, hstatus⟩ := hmain rfl
  exact ⟨hret, hfile.mp rfl, by decide, e, he, hstatus.mpr ⟨rfl, rfl⟩⟩

end Aesd.FinderApp.Writer
