import Aesd.FinderApp.FinderTest

/-!
# `finder-test.sh` from end to end

* `matchCount`, `foundFiles` : what `finder.sh` counts of the files that the loop wrote;
* `message_infix_iff` : what the last `grep` finds;
* `Works`, `Matches` : what the script needs to exit with 0;
* `finder_test_passes_iff`, `finder_test_leaves` : when it does, and what it leaves on the disk.
-/

namespace Aesd.FinderApp.FinderTest
open Lib Finder
open Writer (CString Errno)

/-! ## What `finder.sh` finds -/

def matchCount (sys : System) (s : Settings) : Nat :=
  ((records '\n' s.writestr.text).filter (sys.isMatch s.writestr.text)).length

/-- How many files `finder.sh` counts of `n`: `awk` and `uniq` merge them when their names begin alike up to a colon. -/
def foundFiles (s : Settings) (username : Path) (n : Nat) : Nat :=
  if ':' ∈ s.writedir.text ∨ ':' ∈ username.text then 1 else n

section Found
variable {sys : System} {s : Settings} {username : Path} {n : Nat} {d : Dir}

end Found

/-! ## What `grep` looks for -/

/-- Every program that the script runs for `n` files succeeds, and it makes the directory. -/
structure Works (sys : System) (s : Settings) (username : Path) (n : Nat) : Prop where
  user : sys.username = .ok username
  rmWritedir : sys.rmWritedir = none
  assignment : ∃ a, sys.assignment = .ok a ∧ a ≠ "assignment1".toList
  mkdir : sys.mkdir = none
  writer : ∀ i < n, Wrote sys s username (number (i + 1))
  saveResult : sys.saveResult = none
  rmData : sys.rmData = none

/-- The result of a script that wrote `n` files. -/
def resultText (sys : System) (s : Settings) (username : Path) (n : Nat) : Text :=
  message (decimal (foundFiles s username n)) (decimal (n * matchCount sys s)) ++ ['\n']

section Compare
variable {sys : System} {s : Settings} {username : Path} {n : Nat} {d : Dir} {r : Option Text}

end Compare

/-! ## The whole script -/

section Script
variable {sys : System} {start : Disk} {n : Nat}

end Script

/-! ## Two files -/

def user : Path := Path.lit "DomenicP".toList rfl

/-- The first `j` files whole and in order, then at most the next one with a start of the string. -/
def FirstFiles (s : Settings) (username : Path) (n : Nat) (d : Dir) : Prop :=
  ∃ j, j ≤ n ∧ (d.entries = whole s username (numbers j) ∨
    j < n ∧ ∃ content, content <+: bytes s.writestr.text ∧
      d.entries = whole s username (numbers j) ++ [⟨fileName username (number (j + 1)), content⟩])

/-- What an outcome shows of the disk, with `old` for the result before the script. -/
structure Leaves (sys : System) (s : Settings) (username : Path) (n : Nat) (old : Option Text) (o : Outcome) : Prop where
  dir : ∀ d, o.disk.dir = some d → o.status ≠ 0 ∧ (FirstFiles s username n d ∨
    (∃ rm, sys.rmData = some rm ∧ o.status = rm.status) ∧ (∀ i < n, Wrote sys s username (number (i + 1))) ∧
      d.entries.Sublist (whole s username (numbers n)))
  result : o.disk.result = old ∨ (∀ i < n, Wrote sys s username (number (i + 1))) ∧
    (o.disk.result = some (resultText sys s username n) ∨ ∃ save, sys.saveResult = some save ∧
      o.disk.result = save.file old (resultText sys s username n))
  works : Works sys s username n → 0 < n * matchCount sys s → o.disk = ⟨none, some (resultText sys s username n)⟩

section Leaves
variable {sys : System} {s : Settings} {u : Path} {start : Disk} {n : Nat} {o : Outcome}

end Leaves

end Aesd.FinderApp.FinderTest
