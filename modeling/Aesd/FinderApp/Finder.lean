import Aesd.Lib.Lines

/-!
# `finder.sh`

* `Tree` : the text files below a directory, in the order in which `grep -R` visits them;
* `Echo` : the `echo` of the shell, of which POSIX says nothing when its operand has a backslash;
* `grep`, `awkFirst`, `uniq`, `wcL` : the tools of the pipelines, as functions on texts;
* `searchDirForStr`, `main` : the script under `set -e`;
* `Counts` : it exits with 0 and prints the right numbers;
* `finder_counts_iff` : when it does.
-/

namespace Aesd.FinderApp.Finder
open Lib

abbrev Text : Type := List Char

def SUCCESS : Nat := 0
def FAIL : Nat := 1

/-- A text file: its path as `grep` prints it, and its lines. -/
structure File where
  path : Text
  lines : List Text
  path_nl : '\n' ∉ path
  lines_nl : ∀ l ∈ lines, '\n' ∉ l

structure Tree where
  files : List File
  nodup : (files.map File.path).Nodup

/-- `echo` with one operand. What it does with a backslash, or with the operand `-n`, is up to the shell. -/
structure Echo where
  out : Text → Text
  plain : ∀ t, '\\' ∉ t → t ≠ ['-', 'n'] → out t = t ++ ['\n']

/-- What the script is run on: the trees below the directories, and which lines match a pattern. -/
structure World where
  dir : Text → Option Tree
  isMatch : Text → Text → Bool

/-! ## The tools -/

namespace Tree

/-- What `grep -R` prints: `path:line` for every matching line, one file after the other. -/
def grepLines (tree : Tree) (m : Text → Bool) : List Text :=
  tree.files.flatMap fun f => (f.lines.filter m).map fun l => f.path ++ ':' :: l

/-- `grep -R "$SEARCHSTR" "$FILESDIR"`: its output and its exit status. -/
def grep (tree : Tree) (m : Text → Bool) : Text × Nat :=
  (unlines '\n' (tree.grepLines m), if tree.grepLines m = [] then 1 else 0)

end Tree

/-- `$(...)`: the output without the newlines at its end. -/
def cmdSubst (out : Text) : Text := stripEnd '\n' out

/-- The part of a line before its first colon. -/
def field1 (l : Text) : Text := l.takeWhile fun c => decide (c ≠ ':')

/-- `awk -F: '{ print $1 }'`. -/
def awkFirst (t : Text) : Text := unlines '\n' ((records '\n' t).map field1)

def uniq (t : Text) : Text := unlines '\n' ((records '\n' t).destutter (· ≠ ·))

def decimal (n : Nat) : Text := Nat.toDigits 10 n

def wcL (t : Text) : Text := decimal (t.count '\n') ++ ['\n']

/-! ## The script -/

/-- How the script ends: its exit status and what it printed. -/
structure Exit where
  status : Nat
  out : Text
deriving DecidableEq, Repr

/-- The last line of the script, with the values of its two variables. -/
def message (numFiles numLines : Text) : Text :=
  "The number of files are ".toList ++ numFiles ++ " and the number of matching lines are ".toList ++ numLines

def searchDirForStr (sh : Echo) (tree : Tree) (m : Text → Bool) : Exit :=
  let (out, status) := tree.grep m
  -- an assignment has the status of its command substitution, and `set -e` is on
  if status ≠ 0 then ⟨status, []⟩
  else
    let lines := cmdSubst out
    let numFiles := cmdSubst (wcL (uniq (awkFirst (sh.out lines))))
    let numLines := cmdSubst (wcL (sh.out lines))
    ⟨SUCCESS, sh.out (message numFiles numLines)⟩

def main (sh : Echo) (w : World) (argv : List Text) : Exit :=
  match argv with
  | [filesdir, searchstr] =>
    match w.dir filesdir with
    | none => ⟨FAIL, sh.out (filesdir ++ " is not a directory".toList)⟩
    | some tree => searchDirForStr sh tree (w.isMatch searchstr)
  | _ => ⟨FAIL, sh.out "Usage: finder.sh FILESDIR SEARCHSTR".toList⟩

/-! ## What it should print -/

namespace Tree

def matching (tree : Tree) (m : Text → Bool) : List File := tree.files.filter fun f => f.lines.any m

def numLines (tree : Tree) (m : Text → Bool) : Nat := (tree.files.map fun f => (f.lines.filter m).length).sum

/-- There is a match, and no two matching files that `grep` visits one after the other have the same path up to the first
colon. -/
def Countable (tree : Tree) (m : Text → Bool) : Prop :=
  tree.matching m ≠ [] ∧ ((tree.matching m).map fun f => field1 f.path).IsChain (· ≠ ·)

/-- No matching line has a backslash, nor has the path of its file. -/
def NoBackslash (tree : Tree) (m : Text → Bool) : Prop :=
  ∀ f ∈ tree.matching m, '\\' ∉ f.path ∧ ∀ l ∈ f.lines, m l = true → '\\' ∉ l

end Tree

/-- The script succeeds and prints the number of matching files and of matching lines. -/
def Counts (sh : Echo) (w : World) (filesdir searchstr : Text) (tree : Tree) : Prop :=
  main sh w [filesdir, searchstr] = ⟨SUCCESS,
    message (decimal (tree.matching (w.isMatch searchstr)).length) (decimal (tree.numLines (w.isMatch searchstr))) ++
      ['\n']⟩

/-! ## Numbers and the message -/

theorem decimal_digit {n : Nat} {c : Char} (h : c ∈ decimal n) : c.isDigit = true :=
  Nat.isDigit_of_mem_toDigits (by decide) (by decide) h

theorem decimal_inj {a b : Nat} (h : decimal a = decimal b) : a = b := by
  rw [← Nat.ofDigitChars_ten_toDigits (n := a), ← Nat.ofDigitChars_ten_toDigits (n := b)]
  exact congrArg (fun t => Nat.ofDigitChars 10 t 0) h

theorem not_mem_decimal {c : Char} (hc : c.isDigit = false) (n : Nat) : c ∉ decimal n := by
  intro h
  rw [decimal_digit h] at hc
  cases hc

theorem cmdSubst_wcL (t : Text) : cmdSubst (wcL t) = decimal (t.count '\n') := by
  rw [cmdSubst, wcL, stripEnd, List.rdropWhile_concat_pos _ _ _ (by simp), List.rdropWhile_eq_self_iff]
  intro hne heq
  exact not_mem_decimal (by decide) _ (of_decide_eq_true heq ▸ List.getLast_mem hne)

/-- The message shows both numbers: digits end where a blank comes. -/
theorem message_inj {a b a' b' : Nat}
    (h : message (decimal a) (decimal b) = message (decimal a') (decimal b')) : a = a' ∧ b = b' := by
  have hblank : ∀ n rest, (decimal n ++ ' ' :: rest).takeWhile (fun c => decide (c ≠ ' ')) = decimal n := by
    intro n rest
    rw [List.takeWhile_append_of_pos]
    · simp
    · intro c hc
      have hne : c ≠ ' ' := fun heq => not_mem_decimal (c := ' ') (by decide) n (heq ▸ hc)
      simpa using hne
  unfold message at h
  rw [List.append_assoc, List.append_assoc, List.append_assoc, List.append_assoc] at h
  have htail := List.append_cancel_left h
  rw [show " and the number of matching lines are ".toList =
    ' ' :: "and the number of matching lines are ".toList from rfl, List.cons_append, List.cons_append] at htail
  have hdigits := congrArg (List.takeWhile fun c => decide (c ≠ ' ')) htail
  rw [hblank, hblank] at hdigits
  rw [hdigits] at htail
  have hrest := List.append_cancel_left (List.cons.inj (List.append_cancel_left htail)).2
  exact ⟨decimal_inj hdigits, decimal_inj hrest⟩

theorem not_mem_message (a b : Nat) : '\\' ∉ message (decimal a) (decimal b) := by
  unfold message
  rw [List.mem_append, List.mem_append, List.mem_append]
  rintro (((h | h) | h) | h)
  · revert h
    decide
  · exact not_mem_decimal (by decide) a h
  · revert h
    decide
  · exact not_mem_decimal (by decide) b h

/-- Every `echo` prints the message as it is. -/
theorem echo_message (sh : Echo) (a b : Nat) :
    sh.out (message (decimal a) (decimal b)) = message (decimal a) (decimal b) ++ ['\n'] := by
  refine sh.plain _ (not_mem_message a b) ?_
  intro h
  have hlen := congrArg List.length h
  unfold message at hlen
  have htext : "The number of files are ".toList.length = 24 := rfl
  simp only [List.length_append, htext, List.length_cons, List.length_nil] at hlen
  omega

/-! ## The pipelines -/

/-- The first field of a line that `grep` prints does not depend on what matched. -/
theorem field1_grep (path l : Text) : field1 (path ++ ':' :: l) = field1 path := by
  unfold field1
  induction path with
  | nil => simp
  | cons c cs ih =>
      rw [List.cons_append, List.takeWhile_cons, List.takeWhile_cons, ih]

namespace Tree
variable (tree : Tree) (m : Text → Bool)

theorem grepLines_eq : tree.grepLines m =
    (tree.matching m).flatMap fun f => (f.lines.filter m).map fun l => f.path ++ ':' :: l := by
  unfold grepLines matching
  induction tree.files with
  | nil => rfl
  | cons f fs ih =>
      rw [List.flatMap_cons, ih, List.filter_cons]
      split_ifs with hany
      · rw [List.flatMap_cons]
      · have hnone : f.lines.filter m = [] := by
          rw [List.filter_eq_nil_iff]
          intro l hl hml
          exact hany (List.any_eq_true.mpr ⟨l, hl, hml⟩)
        rw [hnone, List.map_nil, List.nil_append]

theorem mem_grepLines {t : Text} : t ∈ tree.grepLines m ↔
    ∃ f ∈ tree.matching m, ∃ l ∈ f.lines, m l = true ∧ t = f.path ++ ':' :: l := by
  rw [grepLines_eq]
  simp only [List.mem_flatMap, List.mem_map, List.mem_filter]
  constructor
  · rintro ⟨f, hf, l, ⟨hl, hml⟩, rfl⟩
    exact ⟨f, hf, l, hl, hml, rfl⟩
  · rintro ⟨f, hf, l, hl, hml, rfl⟩
    exact ⟨f, hf, l, ⟨hl, hml⟩, rfl⟩

theorem exists_match {f : File} (hf : f ∈ tree.matching m) : ∃ l ∈ f.lines, m l = true :=
  List.any_eq_true.mp (List.mem_filter.mp hf).2

theorem grepLines_eq_nil : tree.grepLines m = [] ↔ tree.matching m = [] := by
  constructor
  · intro h
    rw [List.eq_nil_iff_forall_not_mem]
    intro f hf
    obtain ⟨l, hl, hml⟩ := tree.exists_match m hf
    have hmem := (tree.mem_grepLines m).mpr ⟨f, hf, l, hl, hml, rfl⟩
    rw [h] at hmem
    cases hmem
  · intro h
    rw [grepLines_eq, h]
    rfl

theorem grepLines_nl {t : Text} (ht : t ∈ tree.grepLines m) : '\n' ∉ t := by
  obtain ⟨f, -, l, hl, -, rfl⟩ := (tree.mem_grepLines m).mp ht
  rw [List.mem_append, List.mem_cons]
  rintro (h | h | h)
  · exact f.path_nl h
  · cases h
  · exact f.lines_nl l hl h

theorem length_grepLines : (tree.grepLines m).length = tree.numLines m := by
  unfold grepLines numLines
  rw [List.length_flatMap]
  congr 1
  apply List.map_congr_left
  intro f _
  rw [List.length_map]

/-- Every file stands in the list of first fields as often as it has matching lines. -/
theorem map_field1_grepLines : (tree.grepLines m).map field1 =
    (tree.matching m).flatMap fun f => List.replicate (f.lines.filter m).length (field1 f.path) := by
  rw [grepLines_eq, List.map_flatMap]
  congr 1
  funext f
  rw [List.map_map]
  rw [List.eq_replicate_iff]
  refine ⟨List.length_map _, fun t ht => ?_⟩
  obtain ⟨l, -, rfl⟩ := List.mem_map.mp ht
  exact field1_grep _ _

/-- The lines that are left of the first fields when equal neighbours are merged. -/
def merged : List Text := ((tree.matching m).map fun f => field1 f.path).destutter (· ≠ ·)

theorem destutter_field1_grepLines : ((tree.grepLines m).map field1).destutter (· ≠ ·) = tree.merged m := by
  rw [map_field1_grepLines, merged]
  apply destutter_flatMap_replicate
  intro f hf
  obtain ⟨l, hl, hml⟩ := tree.exists_match m hf
  exact List.length_pos_of_mem (List.mem_filter.mpr ⟨hl, hml⟩)

def text : Text := cmdSubst (tree.grep m).1

theorem text_append (hne : tree.matching m ≠ []) :
    tree.text m ++ ['\n'] = unlines '\n' (tree.grepLines m) := by
  have hne' : tree.grepLines m ≠ [] := mt (tree.grepLines_eq_nil m).mp hne
  obtain ⟨ls, l, hsplit⟩ := List.eq_nil_or_concat' (tree.grepLines m) |>.resolve_left hne'
  have hmem : l ∈ tree.grepLines m := by simp [hsplit]
  obtain ⟨f, -, l', -, -, hl⟩ := (tree.mem_grepLines m).mp hmem
  have hlne : l ≠ [] := by simp [hl]
  rw [text, cmdSubst, grep, hsplit]
  exact stripEnd_unlines hlne (tree.grepLines_nl m hmem)

/-- The backslashes of `$lines` are those of the lines that match and of their paths. -/
theorem noBackslash_iff (hne : tree.matching m ≠ []) : tree.NoBackslash m ↔ '\\' ∉ tree.text m := by
  have htext : '\\' ∈ tree.text m ↔ '\\' ∈ unlines '\n' (tree.grepLines m) := by
    rw [← tree.text_append m hne, List.mem_append]
    simp
  rw [htext]
  unfold unlines NoBackslash
  rw [List.mem_flatMap]
  constructor
  · rintro h ⟨t, ht, hmem⟩
    obtain ⟨f, hf, l, hl, hml, rfl⟩ := (tree.mem_grepLines m).mp ht
    obtain ⟨hpath, hlines⟩ := h f hf
    have hline := hlines l hl hml
    simp [hpath, hline] at hmem
  · intro h f hf
    obtain ⟨l0, hl0, hml0⟩ := tree.exists_match m hf
    refine ⟨fun hmem => h ⟨_, (tree.mem_grepLines m).mpr ⟨f, hf, l0, hl0, hml0, rfl⟩, by simp [hmem]⟩, ?_⟩
    intro l hl hml hmem
    exact h ⟨_, (tree.mem_grepLines m).mpr ⟨f, hf, l, hl, hml, rfl⟩, by simp [hmem]⟩

end Tree

/-! ## What the script prints -/

theorem searchDirForStr_none {sh : Echo} {tree : Tree} {m : Text → Bool} (h : tree.matching m = []) :
    searchDirForStr sh tree m = ⟨1, []⟩ := by
  have hnil := (tree.grepLines_eq_nil m).mpr h
  simp [searchDirForStr, Tree.grep, hnil]

theorem searchDirForStr_some {sh : Echo} {tree : Tree} {m : Text → Bool} (h : tree.matching m ≠ []) :
    searchDirForStr sh tree m = ⟨SUCCESS, sh.out (message
      (decimal ((uniq (awkFirst (sh.out (tree.text m)))).count '\n')) (decimal ((sh.out (tree.text m)).count '\n')))⟩ := by
  have hne := mt (tree.grepLines_eq_nil m).mp h
  simp only [searchDirForStr, Tree.text, Tree.grep, hne, if_false, ne_eq, not_true_eq_false, cmdSubst_wcL]

theorem searchDirForStr_plain {sh : Echo} {tree : Tree} {m : Text → Bool} (h : tree.matching m ≠ [])
    (hecho : sh.out (tree.text m) = tree.text m ++ ['\n']) :
    searchDirForStr sh tree m =
      ⟨SUCCESS, message (decimal (tree.merged m).length) (decimal (tree.numLines m)) ++ ['\n']⟩ := by
  have hnl : ∀ t ∈ tree.grepLines m, '\n' ∉ t := fun t ht => tree.grepLines_nl m ht
  have hfield : ∀ t ∈ (tree.grepLines m).map field1, '\n' ∉ t := by
    intro t ht hmem
    obtain ⟨t', ht', rfl⟩ := List.mem_map.mp ht
    exact hnl t' ht' ((List.takeWhile_sublist _).subset hmem)
  have hmerged : ∀ t ∈ tree.merged m, '\n' ∉ t := by
    intro t ht
    rw [← tree.destutter_field1_grepLines m] at ht
    exact hfield t ((List.destutter_sublist _ _).subset ht)
  rw [searchDirForStr_some h, hecho, tree.text_append m h, count_unlines hnl, tree.length_grepLines, awkFirst,
    records_unlines hnl, uniq, records_unlines hfield, tree.destutter_field1_grepLines, count_unlines hmerged,
    echo_message]

/-- As many lines are left as there are matching files exactly when neighbours differ before the first colon. -/
theorem length_merged_iff (tree : Tree) (m : Text → Bool) :
    (tree.merged m).length = (tree.matching m).length ↔
      ((tree.matching m).map fun f => field1 f.path).IsChain (· ≠ ·) := by
  rw [← length_destutter_iff, List.length_map, Tree.merged]

theorem numLines_pos {tree : Tree} {m : Text → Bool} (h : tree.matching m ≠ []) : 0 < tree.numLines m := by
  rw [← tree.length_grepLines]
  exact List.length_pos_iff.mpr (mt (tree.grepLines_eq_nil m).mp h)

section Counting
variable {w : World} {filesdir searchstr : Text} {tree : Tree}

theorem main_eq (hdir : w.dir filesdir = some tree) (sh : Echo) :
    main sh w [filesdir, searchstr] = searchDirForStr sh tree (w.isMatch searchstr) := by
  simp only [main, hdir]

theorem not_counts_none {sh : Echo} (hdir : w.dir filesdir = some tree) (h : tree.matching (w.isMatch searchstr) = []) :
    ¬ Counts sh w filesdir searchstr tree := by
  unfold Counts
  rw [main_eq hdir, searchDirForStr_none h, Exit.mk.injEq]
  rintro ⟨hstatus, -⟩
  cases hstatus

/-- The script counts what an `echo` that changes nothing leaves to count. -/
theorem counts_plain_iff {sh : Echo} (hdir : w.dir filesdir = some tree)
    (hecho : sh.out (tree.text (w.isMatch searchstr)) = tree.text (w.isMatch searchstr) ++ ['\n']) :
    Counts sh w filesdir searchstr tree ↔ tree.Countable (w.isMatch searchstr) := by
  by_cases hnone : tree.matching (w.isMatch searchstr) = []
  · exact iff_of_false (not_counts_none hdir hnone) fun h => h.1 hnone
  · unfold Counts
    rw [main_eq hdir, searchDirForStr_plain hnone hecho, Exit.mk.injEq]
    constructor
    · rintro ⟨-, hout⟩
      have hnum := (message_inj (List.append_cancel_right hout)).1
      exact ⟨hnone, (length_merged_iff tree _).mp hnum⟩
    · rintro ⟨-, hchain⟩
      rw [(length_merged_iff tree _).mpr hchain]
      exact ⟨rfl, rfl⟩

/-- An `echo` that prints nothing when its operand has a backslash. -/
def mute : Echo where
  out t := if '\\' ∈ t then [] else t ++ ['\n']
  plain _ h _ := if_neg h

theorem not_counts_mute (hdir : w.dir filesdir = some tree) (hmem : '\\' ∈ tree.text (w.isMatch searchstr)) :
    ¬ Counts mute w filesdir searchstr tree := by
  by_cases hnone : tree.matching (w.isMatch searchstr) = []
  · exact not_counts_none hdir hnone
  · intro h
    unfold Counts at h
    have hquiet : mute.out (tree.text (w.isMatch searchstr)) = [] := if_pos hmem
    rw [main_eq hdir, searchDirForStr_some hnone, hquiet, echo_message, Exit.mk.injEq] at h
    have hlines := (message_inj (List.append_cancel_right h.2)).2
    have hpos := numLines_pos hnone
    rw [← hlines] at hpos
    exact absurd hpos (by decide)

end Counting

/-- **When `finder.sh` counts correctly.** It does in every POSIX shell exactly when there is a match, no two matching
files that follow each other have the same path up to the first colon, and no matching line or its path has a backslash.
In a shell whose `echo` prints `$lines` as it is the last condition is not needed. -/
theorem finder_counts_iff (w : World) (filesdir searchstr : Text) (tree : Tree) (hdir : w.dir filesdir = some tree) :
    ((∀ sh, Counts sh w filesdir searchstr tree) ↔
      tree.Countable (w.isMatch searchstr) ∧ tree.NoBackslash (w.isMatch searchstr)) ∧
    ∀ sh : Echo, sh.out (tree.text (w.isMatch searchstr)) = tree.text (w.isMatch searchstr) ++ ['\n'] →
      (Counts sh w filesdir searchstr tree ↔ tree.Countable (w.isMatch searchstr)) := by
  refine ⟨⟨fun hall => ?_, fun ⟨hcount, hback⟩ sh => ?_⟩, fun sh hecho => counts_plain_iff hdir hecho⟩
  · have hback : '\\' ∉ tree.text (w.isMatch searchstr) := fun hmem => not_counts_mute hdir hmem (hall mute)
    have hcount := (counts_plain_iff hdir (if_neg hback)).mp (hall mute)
    exact ⟨hcount, (tree.noBackslash_iff _ hcount.1).mpr hback⟩
  · have hplain := (tree.noBackslash_iff _ hcount.1).mp hback
    refine (counts_plain_iff hdir (sh.plain _ hplain ?_)).mpr hcount
    -- the text has a colon
    intro hoption
    obtain ⟨f, hf⟩ := List.exists_mem_of_ne_nil _ hcount.1
    obtain ⟨l, hl, hml⟩ := tree.exists_match _ hf
    have hmem : ':' ∈ tree.text (w.isMatch searchstr) ++ ['\n'] := by
      rw [tree.text_append _ hcount.1, unlines, List.mem_flatMap]
      exact ⟨_, (tree.mem_grepLines _).mpr ⟨f, hf, l, hl, hml, rfl⟩, by simp⟩
    rw [hoption] at hmem
    simp at hmem

/-! ## Trees that are miscounted -/

/-- The `echo` of shells that leave a backslash alone. -/
def literal : Echo := ⟨fun t => t ++ ['\n'], fun _ _ _ => rfl⟩

/-- Where the XSI `echo` stands: outside of an escape, behind a backslash, or in an octal number with `k` digits to
come. -/
inductive Escape where
  | none
  | backslash
  | octal (value k : Nat)

/-- The escapes of the XSI `echo`; `\c` ends the output and leaves out the newline. -/
def xsiOut : Escape → Text → Text
  | .none, [] => ['\n']
  | .backslash, [] => ['\\', '\n']
  | .octal value _, [] => [Char.ofNat (value % 256), '\n']
  | .none, c :: cs => if c = '\\' then xsiOut .backslash cs else c :: xsiOut .none cs
  | .backslash, c :: cs =>
    match c with
    | 'a' => Char.ofNat 7 :: xsiOut .none cs
    | 'b' => Char.ofNat 8 :: xsiOut .none cs
    | 'c' => []
    | 'f' => Char.ofNat 12 :: xsiOut .none cs
    | 'n' => '\n' :: xsiOut .none cs
    | 'r' => '\r' :: xsiOut .none cs
    | 't' => '\t' :: xsiOut .none cs
    | 'v' => Char.ofNat 11 :: xsiOut .none cs
    | '\\' => '\\' :: xsiOut .none cs
    | '0' => xsiOut (.octal 0 3) cs
    | _ => '\\' :: c :: xsiOut .none cs
  | .octal value k, c :: cs =>
    if 0 < k ∧ '0' ≤ c ∧ c ≤ '7' then xsiOut (.octal (8 * value + (c.toNat - 48)) (k - 1)) cs
    else Char.ofNat (value % 256) :: if c = '\\' then xsiOut .backslash cs else c :: xsiOut .none cs

theorem xsiOut_plain {t : Text} (h : '\\' ∉ t) : xsiOut .none t = t ++ ['\n'] := by
  induction t with
  | nil => rfl
  | cons c cs ih =>
      rw [List.mem_cons, not_or] at h
      rw [xsiOut, if_neg (Ne.symm h.1), ih h.2, List.cons_append]

/-- The XSI `echo`. The one of `dash` knows some escapes more. -/
def xsi : Echo := ⟨xsiOut .none, fun _ h _ => xsiOut_plain h⟩

/-- One directory `d`, searched for the letter `x` as a fixed string. -/
def letterX (tree : Tree) : World where
  dir path := if path = ['d'] then some tree else none
  isMatch pattern l := decide (pattern <:+: l)

def oneLine (path l : Text) (hpath : '\n' ∉ path) (hl : '\n' ∉ l) : File := ⟨path, [l], hpath, by simpa using hl⟩

def emptyDir : Tree := ⟨[], by decide⟩

/-- The files `a:1` and `a:2`, each with the line `x`. -/
def colons : Tree where
  files := [oneLine "d/a:1".toList ['x'] (by decide) (by decide), oneLine "d/a:2".toList ['x'] (by decide) (by decide)]
  nodup := by decide

/-- One file with the line `x\nx`, where `\n` are two characters. -/
def backslash : Tree := ⟨[oneLine "d/a".toList ['x', '\\', 'n', 'x'] (by decide) (by decide)], by decide⟩

/-- The files `a` and `b`, each with the line `x`. -/
def uniform : Tree where
  files := [oneLine "d/a".toList ['x'] (by decide) (by decide), oneLine "d/b".toList ['x'] (by decide) (by decide)]
  nodup := by decide

theorem finder_counts_iff_uniform :
    (letterX uniform).dir ['d'] = some uniform ∧ ∀ sh, Counts sh (letterX uniform) ['d'] ['x'] uniform := by
  have hdir : (letterX uniform).dir ['d'] = some uniform := rfl
  refine ⟨hdir, (finder_counts_iff (letterX uniform) ['d'] ['x'] uniform hdir).1.mpr ⟨?_, ?_⟩⟩
  · exact ⟨by decide +kernel, by decide +kernel⟩
  · intro f hf
    have hmem : f ∈ uniform.files := (List.mem_filter.mp hf).1
    fin_cases hmem <;> exact ⟨by decide, by decide⟩

/-- Without a match the script fails and prints nothing; the two files `a:1` and `a:2` are counted as one; and in `dash`
the one line `x\nx` is counted as two lines of two files. -/
theorem finder_miscounts :
    (¬ Counts literal (letterX emptyDir) ['d'] ['x'] emptyDir ∧
      main literal (letterX emptyDir) [['d'], ['x']] = ⟨1, []⟩) ∧
    (¬ Counts literal (letterX colons) ['d'] ['x'] colons ∧
      main literal (letterX colons) [['d'], ['x']] =
        ⟨0, "The number of files are 1 and the number of matching lines are 2\n".toList⟩) ∧
    ¬ Counts xsi (letterX backslash) ['d'] ['x'] backslash ∧
      main xsi (letterX backslash) [['d'], ['x']] =
        ⟨0, "The number of files are 2 and the number of matching lines are 2\n".toList⟩ := by
  unfold Counts
  decide +kernel

end Aesd.FinderApp.Finder
