import Aesd.FinderApp.Finder
import Aesd.FinderApp.Writer

/-!
# `finder-test.sh`

* `Word`, `Path` : what the shell hands to a program, one character for each byte;
* `Dir`, `Disk` : the files that the script leaves, below `$WRITEDIR` and in the result;
* `System` : what the programs answer that are not of this repository, and what each `writer` is answered;
* `runWriter`, `writeAll` : the `for` loop under `set -e`, where each pass is a run of `writer.c`;
* `compare`, `main` : `finder.sh` on the files that were written, and the `grep` for what it should have printed;
* `runWriter_cases`, `writeAll_cases` : what a `writer` and what the loop can leave.
-/

namespace Aesd.FinderApp.FinderTest
open Lib Finder
open Writer (CString Errno)

/-! ## Words and paths -/

structure Word where
  text : Text
  byte : ∀ c ∈ text, 0 < c.toNat ∧ c.toNat < 256

structure Path extends Word where
  nl : '\n' ∉ text

def bytes (t : Text) : List UInt8 := t.map fun c => UInt8.ofNat c.toNat

def chars (bs : List UInt8) : Text := bs.map fun b => Char.ofNat b.toNat

theorem zero_not_mem_bytes (w : Word) : 0 ∉ bytes w.text := by
  unfold bytes
  rw [List.mem_map]
  rintro ⟨c, hc, heq⟩
  obtain ⟨hpos, hlt⟩ := w.byte c hc
  have hzero := UInt8.toNat_ofNat_of_lt' hlt
  rw [heq] at hzero
  exact absurd hzero.symm (Nat.pos_iff_ne_zero.mp hpos)

/-- The word as an argument of a program, when it fits in memory. -/
def Word.arg (w : Word) : Option CString :=
  if h : w.text.length < 2 ^ 64 then some ⟨bytes w.text, zero_not_mem_bytes w, by rwa [bytes, List.length_map]⟩
  else none

def Path.append (p q : Path) : Path where
  text := p.text ++ q.text
  byte c hc := (List.mem_append.mp hc).elim (p.byte c) (q.byte c)
  nl h := (List.mem_append.mp h).elim p.nl q.nl

/-- A path that stands in the script. -/
def Path.lit (t : Text) (h : t.all (fun c => decide (0 < c.toNat) && decide (c.toNat < 256) && c != '\n') = true) : Path where
  text := t
  byte c hc := by
    have hchar := List.all_eq_true.mp h c hc
    simp only [Bool.and_eq_true, decide_eq_true_eq] at hchar
    exact hchar.1
  nl hmem := by
    have hchar := List.all_eq_true.mp h _ hmem
    simp at hchar

theorem digit_byte {c : Char} (h : c.isDigit = true) : 48 ≤ c.toNat ∧ c.toNat ≤ 57 := Char.isDigit_iff_toNat.mp h

/-- A number as the shell writes it. -/
def number (n : Nat) : Path where
  text := decimal n
  byte c hc := by
    have hrange := digit_byte (decimal_digit hc)
    omega
  nl := not_mem_decimal (by decide) n

/-! ## Files -/

structure Entry where
  name : Path
  content : List UInt8

/-- The files of one directory. -/
structure Dir where
  entries : List Entry
  nodup : (entries.map fun e => e.name.text).Nodup

def Dir.empty : Dir := ⟨[], List.nodup_nil⟩

/-- The file of that name is made or overwritten. -/
def Dir.put (d : Dir) (name : Path) (content : List UInt8) : Dir :=
  if h : name.text ∈ d.entries.map fun e => e.name.text then
    ⟨d.entries.map fun e => if e.name.text = name.text then ⟨e.name, content⟩ else e, by
      have hname : ∀ e : Entry, (if e.name.text = name.text then ⟨e.name, content⟩ else e).name.text = e.name.text := by
        intro e
        split_ifs <;> rfl
      rw [List.map_map, Function.comp_def]
      simp only [hname]
      exact d.nodup⟩
  else ⟨d.entries ++ [⟨name, content⟩], by
    rw [List.map_append, List.nodup_append']
    exact ⟨d.nodup, List.nodup_singleton _, by simpa using h⟩⟩

/-- What the script changes: `$WRITEDIR`, when it exists, and `/tmp/assignment4-result.txt`, when there is one. -/
structure Disk where
  dir : Option Dir
  result : Option Text

/-! ## The programs that the script runs -/

/-- An exit status that is a failure. -/
abbrev Failure : Type := { s : Nat // s ≠ 0 }

/-- An `rm -rf` that fails: it has removed what it could, some of the files or the whole directory. -/
structure FailedRemoval where
  status : Failure
  left : Dir → Option Dir
  sublist : ∀ d d', left d = some d' → d'.entries.Sublist d.entries

/-- An `echo` to a file that fails. The file cannot be opened and stays as it is, or it was emptied and took the first
characters. -/
structure FailedSave where
  status : Failure
  written : Option Nat

def FailedSave.file (f : FailedSave) (old : Option Text) (text : Text) : Option Text :=
  match f.written with
  | none => old
  | some k => some (text.take k)

/-- What is answered to the script: `none` of a program that succeeds without any output. The name of the user can begin the
name of a file; `grep -R` visits the files of a directory in an order of its own and takes them for text; `grep` takes a
pattern of letters, digits, blanks and underscores as it is. -/
structure System where
  username : Except Failure Path
  username_file : ∀ u, username = .ok u → '/' ∉ u.text
  rmWritedir : Option FailedRemoval
  assignment : Except Failure Text
  mkdir : Option Failure
  seq : Word → List Path
  seq_number : ∀ n, seq (number n).toWord = (List.range n).map fun i => number (i + 1)
  writer : Path → Writer.World
  visit : List Entry → List Entry
  visit_perm : ∀ es, (visit es).Perm es
  echo : Echo
  isMatch : Text → Text → Bool
  isMatch_plain : ∀ p l, (∀ c ∈ p, c.isAlphanum ∨ c = ' ' ∨ c = '_') → isMatch p l = decide (p <:+: l)
  saveResult : Option FailedSave
  rmData : Option FailedRemoval

/-! ## The parameters -/

/-- The parameters that the script reads, by how many there are. The string is not an option of `grep`, and the directory
stays below `/tmp/aeld-data`. -/
inductive Args where
  /-- `$# -lt 1` -/
  | none
  /-- `$# -lt 3` -/
  | numfiles (numfiles : Word)
  | all (numfiles writestr : Word) (subdir : Path) (pattern : writestr.text.head? ≠ some '-')
    (below : ¬ ['.', '.'] <:+: subdir.text)

structure Settings where
  numfiles : Word
  writestr : Word
  writedir : Path

def writestrDefault : Word := (Path.lit "AELD_IS_FUN".toList rfl).toWord

def aeldData : Path := Path.lit "/tmp/aeld-data".toList rfl

def slash : Path := Path.lit ['/'] rfl

def txt : Path := Path.lit ".txt".toList rfl

def settings : Args → Settings
  | .none => ⟨(number 10).toWord, writestrDefault, aeldData⟩
  | .numfiles n => ⟨n, writestrDefault, aeldData⟩
  | .all n str subdir _ _ => ⟨n, str, (aeldData.append slash).append subdir⟩

/-- `${username}$i.txt` -/
def fileName (username i : Path) : Path := (username.append i).append txt

/-- `$MATCHSTR` -/
def matchstr (s : Settings) : Text := message s.numfiles.text s.numfiles.text

/-! ## The script -/

structure Outcome where
  status : Nat
  disk : Disk

/-- The script up to its loop, with the name of the user and `$WRITEDIR` as they are then. -/
def prepare (sys : System) (start : Disk) : Except Outcome (Path × Option Dir) :=
  match sys.username with
  | .error e => .error ⟨e, start⟩
  | .ok username =>
    match sys.rmWritedir with
    | some rm => .error ⟨rm.status, { start with dir := start.dir.bind rm.left }⟩
    | none =>
      match sys.assignment with
      | .error e => .error ⟨e, { start with dir := none }⟩
      | .ok assignment =>
        if assignment ≠ "assignment1".toList then
          match sys.mkdir with
          | some e => .error ⟨e, { start with dir := none }⟩
          | none => .ok (username, some .empty)
        else .ok (username, none)

def ENOENT : Errno := ⟨2, by decide⟩

/-- The status of the shell for a program that it cannot run. -/
def NOEXEC : Nat := 126

def argv0 : CString := ⟨bytes "writer".toList, by decide, by decide⟩

/-- What a `writer` is answered: no file is created in a directory that does not exist. -/
def writerWorld (sys : System) (i : Path) (dir : Option Dir) : Writer.World :=
  { sys.writer i with creat := if dir.isSome then (sys.writer i).creat else some ENOENT }

/-- `writer "$WRITEDIR/${username}$i.txt" "$WRITESTR"`: its exit status and the directory afterwards, `none` while it has not
ended after `fuel` passes of its own loop. -/
def runWriter (sys : System) (s : Settings) (username : Path) (fuel : Nat) (i : Path) (dir : Option Dir) :
    Option (Nat × Option Dir) :=
  match ((s.writedir.append slash).append (fileName username i)).arg, s.writestr.arg with
  | some writefile, some writestr =>
    (Writer.main (writerWorld sys i dir) [argv0, writefile, writestr] fuel).map fun e =>
      (e.status, match e.file with
        | some content => dir.map fun d => d.put (fileName username i) content
        | none => dir)
  | _, _ => some (NOEXEC, dir)

/-- The `for` loop, which ends with the first `writer` that fails. -/
def writeAll (sys : System) (s : Settings) (username : Path) (fuel : Nat) :
    List Path → Option Dir → Option (Nat × Option Dir)
  | [], dir => some (0, dir)
  | i :: is, dir =>
    match runWriter sys s username fuel i dir with
    | none => none
    | some (status, dir) => if status ≠ 0 then some (status, dir) else writeAll sys s username fuel is dir

/-- The directory as `grep -R` prints it in front of the names of its files. -/
def dirSlash (dir : Path) : Path := if dir.text.getLast? = some '/' then dir else dir.append slash

def under (dir name : Path) : Path := (dirSlash dir).append name

/-- A file as `grep -R` sees it. -/
def Entry.file (dir : Path) (e : Entry) : File where
  path := (under dir e.name).text
  lines := records '\n' (chars e.content)
  path_nl := (under dir e.name).nl
  lines_nl _ hl := not_mem_records hl

def Dir.tree (sys : System) (dir : Path) (d : Dir) : Tree where
  files := (sys.visit d.entries).map (Entry.file dir)
  nodup := by
    have hnames : ((sys.visit d.entries).map fun e => e.name.text).Nodup :=
      ((sys.visit_perm d.entries).map _).nodup_iff.mpr d.nodup
    rw [List.map_map]
    refine List.Nodup.of_map (List.drop (dirSlash dir).text.length) ?_
    rw [List.map_map]
    convert hnames using 2
    funext e
    exact List.drop_left

/-- What `finder.sh` is run on. -/
def world (sys : System) (s : Settings) (dir : Option Dir) : World where
  dir p := if p = s.writedir.text then dir.map (Dir.tree sys s.writedir) else none
  isMatch := sys.isMatch

def compare (sys : System) (s : Settings) (d : Disk) : Outcome :=
  let found := Finder.main sys.echo (world sys s d.dir) [s.writedir.text, s.writestr.text]
  if found.status ≠ 0 then ⟨found.status, d⟩
  else
    let outputstring := cmdSubst found.out
    match sys.saveResult with
    | some save => ⟨save.status, { d with result := save.file d.result (sys.echo.out outputstring) }⟩
    | none =>
      let d := { d with result := some (sys.echo.out outputstring) }
      match sys.rmData with
      | some rm => ⟨rm.status, { d with dir := d.dir.bind rm.left }⟩
      | none =>
        let d := { d with dir := none }
        if (records '\n' (sys.echo.out outputstring)).any (sys.isMatch (matchstr s)) then ⟨0, d⟩ else ⟨1, d⟩

/-- `finder-test.sh`, `none` while a `writer` has not ended after `fuel` passes of its loop. -/
def main (sys : System) (fuel : Nat) (args : Args) (start : Disk) : Option Outcome :=
  let s := settings args
  match prepare sys start with
  | .error o => some o
  | .ok (username, dir) =>
    match writeAll sys s username fuel (sys.seq s.numfiles) dir with
    | none => none
    | some (status, dir) =>
      let d := { start with dir := dir }
      if status ≠ 0 then some ⟨status, d⟩ else some (compare sys s d)

/-! ## One `writer` -/

/-- What a `writer` is answered when it succeeds. -/
structure Succeeds (w : Writer.World) (str : CString) : Prop where
  creat : w.creat = none
  write : ∃ n, (Writer.tryWrite w str n).ret = some 0
  close : w.close = none

section Loop
variable {sys : System} {s : Settings} {username : Path} {fuel : Nat}

/-- The `writer` for `i` can be run and is answered that it succeeds. -/
structure Wrote (sys : System) (s : Settings) (username i : Path) : Prop where
  file : ∃ writefile, ((s.writedir.append slash).append (fileName username i)).arg = some writefile
  writes : ∃ writestr, s.writestr.arg = some writestr ∧ Succeeds (sys.writer i) writestr

/-- The files for these numbers, each with the whole string. -/
def whole (s : Settings) (username : Path) (is : List Path) : List Entry :=
  is.map fun i => ⟨fileName username i, bytes s.writestr.text⟩

end Loop

/-! ## The names of the files -/

def numbers (n : Nat) : List Path := (List.range n).map fun i => number (i + 1)

end Aesd.FinderApp.FinderTest
