import Aesd.Systemcalls.Exec
import Aesd.Lib.Run

/-!
# A process that calls the helpers of `systemcalls.c` one after the other

* `doSystem` : `do_system`, whose `system()` waits for its own child;
* `Process` : the children that were not waited for, with how each ends if it does, and the files left open; `log` keeps
  what every call started, what it was handed out and what it returned, and no code reads it;
* `Process.step` : one call. A call after one that never returned is not made;
* `Accounts` : every child is handed out once or still there; the children left are those of the failed waits and of a call
  that never returned;
* `Process.Trusted` : the verdicts of `do_exec` can be relied on from here on.
-/

namespace Aesd.Systemcalls
open Lib

/-- A child, with how it ends if it does. -/
abbrev Child : Type := Pid × Option Termination

/-- The kernel's answers to one call. The children of earlier calls that terminate are handed out from the `order`-th on,
`ahead` of them before the child of this call. A `wait` that fails was interrupted and leaves the children as they are;
the `waitpid` of `system()` starts again then, and fails only when someone else has taken the status. -/
structure Answers where
  openOk : Bool := true
  fork : Bool := true
  dup2Ok : Bool := true
  execv : List String → Execv
  waitOk : Bool := true
  order : Nat := 0
  ahead : Nat := 0
  waitpidOk : Bool := true
  shell : Bool := true

/-! ## `do_system` -/

/-- The shell that `system()` starts; one that cannot be executed counts as exited with 127. -/
def systemChild (a : Answers) (cmd : String) : Option Termination :=
  match a.execv ["sh", "-c", cmd] with
  | .fails => some (.exited ⟨127, by decide⟩)
  | .runs fate => fate

/-- `system(cmd)`, which never returns when the shell never ends. `system(NULL)` asks whether there is a shell. -/
def system (a : Answers) : Option String → Option Int
  | none => some (if a.shell then 1 else 0)
  | some cmd =>
    if a.fork then (systemChild a cmd).map fun t => if a.waitpidOk then (t.status : Int) else -1 else some (-1)

def doSystem (a : Answers) (cmd : Option String) : Option Ran :=
  (system a cmd).map fun result =>
    if result = -1 then ⟨false, ["system failed"], false⟩
    else if result ≠ 0 then ⟨false, [], false⟩
    else ⟨true, [], false⟩

/-! ## The process -/

inductive Helper where
  | doSystem (cmd : Option String)
  | doExec (command : List String)
  | doExecRedirect (command : List String)
deriving DecidableEq, Repr

/-- One call: the child it started, the child it was handed out, and what it returned. -/
structure Entry where
  helper : Helper
  child : Option Child
  reaped : Option (Pid × Termination)
  ran : Option Ran
deriving DecidableEq, Repr

structure Process where
  kids : List Child := []
  next : Pid := 1
  openFds : Nat := 0
  blocked : Bool := false
  log : List Entry := []
  fresh : ∀ c ∈ kids, c.1 < next

def Child.ended (c : Child) : Option (Pid × Termination) := c.2.map fun t => (c.1, t)

/-- The child of a call, whose end is `own`. -/
def Env.started (env : Env) (own : Option Termination) : Option Child := env.fork.map fun pid => (pid, own)

def Env.handedOut (env : Env) (own : Option Termination) : Option (Pid × Termination) :=
  if env.waitOk then env.fork.bind fun pid => (env.terminations pid own).head? else none

namespace Process

def init : Process where
  fresh _ hc := by cases hc

/-- What a call of this process finds. -/
def env (p : Process) (a : Answers) : Env where
  openOk := a.openOk
  fork := if a.fork then some p.next else none
  dup2Ok := a.dup2Ok
  execv := a.execv
  others := (p.kids.filterMap Child.ended).rotate a.order
  ahead := a.ahead
  waitOk := a.waitOk
  fresh pid hpid c hc := by
    obtain ⟨k, hk, hend⟩ := List.mem_filterMap.mp (List.mem_rotate.mp hc)
    have hlt := p.fresh k hk
    split_ifs at hpid
    obtain rfl : p.next = pid := Option.some.inj hpid
    obtain ⟨t, -, rfl⟩ := Option.map_eq_some_iff.mp hend
    exact Nat.ne_of_lt hlt

def record (p : Process) (e : Entry) (hnew : ∀ c, e.child = some c → c.1 = p.next) : Process where
  kids := e.reaped.elim (p.kids ++ e.child.toList) fun c => (p.kids ++ e.child.toList).erase (c.1, some c.2)
  next := p.next + 1
  openFds := p.openFds + if e.ran.any Ran.fdOpen then 1 else 0
  blocked := e.ran.isNone
  log := p.log ++ [e]
  fresh c hc := by
    have hmem : c ∈ p.kids ++ e.child.toList := by
      cases hr : e.reaped with
      | none => simpa [hr] using hc
      | some r =>
          rw [hr] at hc
          exact List.mem_of_mem_erase hc
    rcases List.mem_append.mp hmem with h | h
    · exact Nat.lt_succ_of_lt (p.fresh c h)
    · rw [hnew c (by simpa using h)]
      exact Nat.lt_succ_self _

/-- The entry of a call. `system()` waits for its own child, whatever the others do. -/
def entry (p : Process) (a : Answers) : Helper → Entry
  | .doSystem cmd =>
    let child := cmd.bind fun cmd => (p.env a).started (systemChild a cmd)
    ⟨.doSystem cmd, child, child.bind Child.ended, doSystem a cmd⟩
  | .doExec command =>
    let own := execChild (p.env a) command
    ⟨.doExec command, (p.env a).started own, (p.env a).handedOut own, doExec (p.env a) command⟩
  | .doExecRedirect command =>
    let own := redirectChild (p.env a) command
    ⟨.doExecRedirect command, if a.openOk then (p.env a).started own else none,
      if a.openOk then (p.env a).handedOut own else none, doExecRedirect (p.env a) command⟩

theorem started_next {p : Process} {a : Answers} {own : Option Termination} {c : Child}
    (hc : (p.env a).started own = some c) : c = (p.next, own) := by
  obtain ⟨pid, hpid, rfl⟩ := Option.map_eq_some_iff.mp hc
  unfold Process.env at hpid
  dsimp only at hpid
  split_ifs at hpid
  rw [Option.some.inj hpid]

theorem entry_next (p : Process) (a : Answers) (h : Helper) :
    ∀ c, (p.entry a h).child = some c → c.1 = p.next := by
  intro c hc
  cases h with
  | doSystem cmd =>
      obtain ⟨cmd, -, hc⟩ := Option.bind_eq_some_iff.mp hc
      rw [started_next hc]
  | doExec command => rw [started_next hc]
  | doExecRedirect command =>
      unfold Process.entry at hc
      dsimp only at hc
      split_ifs at hc
      rw [started_next hc]

def step (p : Process) (call : Helper × Answers) : Process :=
  if p.blocked then p else p.record (p.entry call.2 call.1) (p.entry_next call.2 call.1)

def after (calls : List (Helper × Answers)) : Process := run step init calls

end Process

/-! ## One call -/

def Entry.printed (e : Entry) (text : String) : Bool := e.ran.any fun ran => ran.perror == [text]

/-- A redirected call that left its file open. -/
def Entry.leaks (e : Entry) : Bool :=
  match e.helper with
  | .doExecRedirect _ => e.printed "fork failed"
  | _ => false

/-- How a call can go, with the children `kids` of earlier calls. -/
inductive Shape (kids : List Child) : Entry → Prop where
  | noChild {h : Helper} {ran : Ran} : ran.perror ≠ ["wait failed"] → Shape kids ⟨h, none, none, some ran⟩
  | waited {h : Helper} {c : Child} {r : Pid × Termination} {ran : Ran} : (r.1, some r.2) ∈ kids ++ [c] →
      ran.perror ≠ ["wait failed"] → Shape kids ⟨h, some c, some r, some ran⟩
  | interrupted {h : Helper} {c : Child} : Shape kids ⟨h, some c, none, some ⟨false, ["wait failed"], false⟩⟩
  | hangs {h : Helper} {c : Child} : Shape kids ⟨h, some c, none, none⟩

theorem Env.wait_cases {env : Env} {pid : Pid} (hfork : env.fork = some pid) (own : Option Termination) :
    (env.handedOut own = none ∧ env.wait pid own = .fails) ∨
      (∃ r, env.handedOut own = some r ∧ r ∈ env.terminations pid own ∧ env.wait pid own = .reaps r.1 r.2.status) ∨
      (env.handedOut own = none ∧ env.wait pid own = .blocks) := by
  unfold Env.handedOut
  by_cases hok : env.waitOk = true
  · rw [if_pos hok, Env.wait_eq hok, hfork, Option.bind_some]
    cases hhead : (env.terminations pid own).head? with
    | none => exact Or.inr (Or.inr ⟨rfl, rfl⟩)
    | some r => exact Or.inr (Or.inl ⟨r, rfl, List.mem_of_mem_head? hhead, rfl⟩)
  · refine Or.inl ⟨if_neg hok, ?_⟩
    rw [Env.wait, if_neg hok]

namespace Process
variable {p : Process} {a : Answers}

theorem mem_terminations {pid : Pid} {own : Option Termination} {r : Pid × Termination}
    (hr : r ∈ (p.env a).terminations pid own) : (r.1, some r.2) ∈ p.kids ++ [(pid, own)] := by
  have hother : r ∈ (p.env a).others → (r.1, some r.2) ∈ p.kids := by
    intro hr
    obtain ⟨k, hk, hend⟩ := List.mem_filterMap.mp (List.mem_rotate.mp hr)
    obtain ⟨t, ht, rfl⟩ := Option.map_eq_some_iff.mp hend
    rw [← ht]
    exact hk
  unfold Env.terminations at hr
  rw [List.mem_append, List.mem_append] at hr
  rcases hr with (hr | hr) | hr
  · exact List.mem_append_left _ (hother (List.mem_of_mem_take hr))
  · obtain ⟨t, ht, rfl⟩ : ∃ t, own = some t ∧ (pid, t) = r := by simpa using hr
    simp [ht]
  · exact List.mem_append_left _ (hother (List.mem_of_mem_drop hr))

theorem doSystem_shape (p : Process) (a : Answers) (cmd : Option String) : Shape p.kids (p.entry a (.doSystem cmd)) := by
  have hquiet : ∀ {ran : Ran}, ran ∈ doSystem a cmd → ran.perror ≠ ["wait failed"] := by
    intro ran hran
    obtain ⟨result, -, rfl⟩ := Option.map_eq_some_iff.mp hran
    split_ifs <;> simp
  show Shape p.kids ⟨.doSystem cmd, cmd.bind fun cmd => (p.env a).started (systemChild a cmd),
    (cmd.bind fun cmd => (p.env a).started (systemChild a cmd)).bind Child.ended, doSystem a cmd⟩
  cases cmd with
  | none => exact .noChild (hquiet rfl)
  | some cmd =>
      by_cases hfork : a.fork = true
      · have hstarted : ∀ own, (p.env a).started own = some (p.next, own) := fun own => by
          simp [Env.started, Process.env, hfork]
        rw [Option.bind_some, hstarted, Option.bind_some]
        cases hown : systemChild a cmd with
        | none =>
            have hran : doSystem a (some cmd) = none := by simp [doSystem, system, hfork, hown]
            rw [hran]
            exact .hangs
        | some t =>
            obtain ⟨ran, hran⟩ : ∃ ran, doSystem a (some cmd) = some ran := by simp [doSystem, system, hfork, hown]
            rw [hran]
            exact .waited (r := (p.next, t)) (by simp) (hquiet hran)
      · have hstarted : ∀ own, (p.env a).started own = none := fun own => by simp [Env.started, Process.env, hfork]
        obtain ⟨ran, hran⟩ : ∃ ran, doSystem a (some cmd) = some ran := by simp [doSystem, system, hfork]
        rw [Option.bind_some, hstarted, hran]
        exact .noChild (hquiet hran)

/-- A helper that forked and then waited. -/
theorem shape_of_wait {pid : Pid} (hfork : (p.env a).fork = some pid) (own : Option Termination) {ran : Option Ran}
    (hfails : (p.env a).wait pid own = .fails → ran = some ⟨false, ["wait failed"], false⟩)
    (hreaps : ∀ q status, (p.env a).wait pid own = .reaps q status → ∃ ret, ran = some ⟨ret, [], false⟩)
    (hblocks : (p.env a).wait pid own = .blocks → ran = none) (h : Helper) :
    Shape p.kids ⟨h, (p.env a).started own, (p.env a).handedOut own, ran⟩ := by
  have hstarted : (p.env a).started own = some (pid, own) := by rw [Env.started, hfork, Option.map_some]
  rw [hstarted]
  rcases Env.wait_cases hfork own with ⟨hout, hw⟩ | ⟨r, hout, hr, hw⟩ | ⟨hout, hw⟩
  · rw [hout, hfails hw]
    exact .interrupted
  · obtain ⟨ret, hret⟩ := hreaps _ _ hw
    rw [hout, hret]
    exact .waited (mem_terminations hr) (by simp)
  · rw [hout, hblocks hw]
    exact .hangs

theorem shape_of_no_fork (hfork : (p.env a).fork = none) (own : Option Termination) {ran : Ran}
    (hquiet : ran.perror ≠ ["wait failed"]) (h : Helper) :
    Shape p.kids ⟨h, (p.env a).started own, (p.env a).handedOut own, some ran⟩ := by
  have hstarted : (p.env a).started own = none := by rw [Env.started, hfork, Option.map_none]
  have hout : (p.env a).handedOut own = none := by
    unfold Env.handedOut
    rw [hfork, Option.bind_none, ite_self]
  rw [hstarted, hout]
  exact .noChild hquiet

theorem doExec_shape (p : Process) (a : Answers) (command : List String) :
    Shape p.kids (p.entry a (.doExec command)) := by
  show Shape p.kids ⟨_, (p.env a).started (execChild (p.env a) command),
    (p.env a).handedOut (execChild (p.env a) command), doExec (p.env a) command⟩
  unfold doExec
  cases hfork : (p.env a).fork with
  | none => exact shape_of_no_fork hfork _ (by simp) _
  | some pid =>
      refine shape_of_wait hfork _ ?_ ?_ ?_ _
      · intro hw
        simp [hw]
      · intro q status hw
        simp only [hw]
        split_ifs
        · exact ⟨_, rfl⟩
        · exact ⟨_, rfl⟩
      · intro hw
        simp [hw]

theorem doExecRedirect_shape (p : Process) (a : Answers) (command : List String) :
    Shape p.kids (p.entry a (.doExecRedirect command)) := by
  show Shape p.kids ⟨_, if a.openOk then (p.env a).started (redirectChild (p.env a) command) else none,
    if a.openOk then (p.env a).handedOut (redirectChild (p.env a) command) else none, doExecRedirect (p.env a) command⟩
  have hopen : (p.env a).openOk = a.openOk := rfl
  unfold doExecRedirect
  rw [hopen]
  split_ifs
  · cases hfork : (p.env a).fork with
    | none => exact shape_of_no_fork hfork _ (by simp) _
    | some pid =>
        refine shape_of_wait hfork _ ?_ ?_ ?_ _
        · intro hw
          simp [hw]
        · intro q status hw
          simp only [hw, ite_self]
          exact ⟨_, rfl⟩
        · intro hw
          simp [hw]
  · exact .noChild (by simp)

theorem entry_shape (p : Process) (a : Answers) (h : Helper) : Shape p.kids (p.entry a h) := by
  cases h with
  | doSystem cmd => exact p.doSystem_shape a cmd
  | doExec command => exact p.doExec_shape a command
  | doExecRedirect command => exact p.doExecRedirect_shape a command

/-- A file is left open by a redirected call whose fork failed, and by no other. -/
theorem entry_leaks (p : Process) (a : Answers) (h : Helper) :
    (p.entry a h).ran.any Ran.fdOpen = (p.entry a h).leaks := by
  cases h with
  | doSystem cmd =>
      show (doSystem a cmd).any Ran.fdOpen = false
      unfold doSystem
      cases system a cmd with
      | none => rfl
      | some result =>
          rw [Option.map_some, Option.any_some]
          split_ifs <;> rfl
  | doExec command =>
      show (doExec (p.env a) command).any Ran.fdOpen = false
      unfold doExec
      split
      · rfl
      · split
        · rfl
        · rfl
        · split_ifs <;> rfl
  | doExecRedirect command =>
      show (doExecRedirect (p.env a) command).any Ran.fdOpen =
        (doExecRedirect (p.env a) command).any fun ran => ran.perror == ["fork failed"]
      unfold doExecRedirect
      split_ifs
      · split
        · rfl
        · split
          · rfl
          · rfl
          · split_ifs <;> rfl
      · rfl

end Process

/-! ## The ledger of the children -/

/-- The child as `wait` handed it out. -/
def reapedChild (r : Pid × Termination) : Child := (r.1, some r.2)

/-- Every child was handed out to one call or is left. A child is left by a `wait` that failed, or by a call that never
returned. -/
structure Accounts (p : Process) : Prop where
  children : (p.log.filterMap Entry.child).Perm ((p.log.filterMap Entry.reaped).map reapedChild ++ p.kids)
  once : ((p.log.filterMap Entry.child).map Prod.fst).Nodup
  below : ∀ c ∈ p.log.filterMap Entry.child, c.1 < p.next
  left : p.kids.length = p.log.countP (fun e => e.printed "wait failed") + if p.blocked then 1 else 0
  fds : p.openFds = p.log.countP Entry.leaks

theorem accounts_init : Accounts Process.init := ⟨.refl _, .nil, (fun _ hc => nomatch hc), rfl, rfl⟩

/-- The children are the started ones in some order, whichever child a call was handed out. -/
theorem Accounts.children_record {p : Process} (h : Accounts p) {e : Entry}
    (hnew : ∀ c, e.child = some c → c.1 = p.next) (hshape : Shape p.kids e) :
    ((p.log ++ [e]).filterMap Entry.child).Perm
      (((p.log ++ [e]).filterMap Entry.reaped).map reapedChild ++ (p.record e hnew).kids) := by
  have hchild : ((p.log ++ [e]).filterMap Entry.child).Perm
      ((p.log.filterMap Entry.reaped).map reapedChild ++ (p.kids ++ e.child.toList)) := by
    rw [List.filterMap_append, ← List.append_assoc]
    cases hc : e.child with
    | none => simpa [hc] using h.children
    | some c => simpa [hc] using h.children.append_right [c]
  refine hchild.trans ?_
  rw [List.filterMap_append, List.map_append, List.append_assoc]
  apply List.Perm.append_left
  cases hshape with
  | noChild hquiet => exact .refl _
  | waited hmem hquiet => exact List.perm_cons_erase hmem
  | interrupted => exact .refl _
  | hangs => exact .refl _

/-- A call that starts a child is handed out one, prints that its `wait` failed, or does not return. -/
theorem Accounts.left_record {p : Process} (h : Accounts p) (hrun : p.blocked = false) {e : Entry}
    (hnew : ∀ c, e.child = some c → c.1 = p.next) (hshape : Shape p.kids e) :
    (p.record e hnew).kids.length =
      (p.log ++ [e]).countP (fun e => e.printed "wait failed") + if e.ran.isNone then 1 else 0 := by
  have hleft : p.kids.length = p.log.countP fun e => e.printed "wait failed" := by
    rw [h.left, if_neg (by simp [hrun]), Nat.add_zero]
  rw [List.countP_append, List.countP_singleton, ← hleft]
  cases hshape with
  | noChild hquiet => simp [Process.record, Entry.printed, hquiet]
  | waited hmem hquiet => simp [Process.record, Entry.printed, hquiet, List.length_erase_of_mem hmem]
  | interrupted => simp [Process.record, Entry.printed]
  | hangs => simp [Process.record, Entry.printed]

theorem Accounts.record {p : Process} (h : Accounts p) (hrun : p.blocked = false) {e : Entry}
    (hnew : ∀ c, e.child = some c → c.1 = p.next) (hshape : Shape p.kids e)
    (hleaks : e.ran.any Ran.fdOpen = e.leaks) : Accounts (p.record e hnew) where
  children := h.children_record hnew hshape
  once := by
    show (((p.log ++ [e]).filterMap Entry.child).map Prod.fst).Nodup
    rw [List.filterMap_append, List.map_append]
    cases hc : e.child with
    | none => simpa [hc] using h.once
    | some c =>
        have hfresh : c.1 ∉ (p.log.filterMap Entry.child).map Prod.fst := by
          intro hmem
          obtain ⟨d, hd, heq⟩ := List.mem_map.mp hmem
          exact Nat.ne_of_lt (h.below d hd) (heq.trans (hnew c hc))
        have hsingle : [e].filterMap Entry.child = [c] := by simp [hc]
        rw [hsingle, List.map_singleton, ← List.concat_eq_append]
        exact h.once.concat hfresh
  below := by
    show ∀ c ∈ (p.log ++ [e]).filterMap Entry.child, c.1 < p.next + 1
    intro c hc
    rw [List.filterMap_append, List.mem_append] at hc
    rcases hc with hc | hc
    · exact Nat.lt_succ_of_lt (h.below c hc)
    · rw [hnew c (by simpa using hc)]
      exact Nat.lt_succ_self _
  left := h.left_record hrun hnew hshape
  fds := by
    show p.openFds + _ = (p.log ++ [e]).countP Entry.leaks
    rw [List.countP_append, List.countP_singleton, h.fds, hleaks]

theorem Accounts.step {p : Process} (h : Accounts p) (call : Helper × Answers) : Accounts (p.step call) := by
  unfold Process.step
  split_ifs with hrun
  · exact h
  · exact h.record (by simpa using hrun) _ (p.entry_shape _ _) (p.entry_leaks _ _)

theorem accounts_after (calls : List (Helper × Answers)) : Accounts (Process.after calls) :=
  Along.invariant (I := Accounts) (P := fun _ _ => True) (fun _ call h _ => h.step call) accounts_init
    (along_of_forall (fun _ _ => trivial) _)

/-- **The ledger of the children**: after every sequence of calls, with children handed out in any order, each started child
was handed out to exactly one call or is left; the children left are as many as the failed waits and the call that never
returned, and the files left open are as many as the redirected calls whose fork failed. -/
theorem calls_ledger (calls : List (Helper × Answers)) :
    let p := Process.after calls
    (p.log.filterMap Entry.child).Perm ((p.log.filterMap Entry.reaped).map reapedChild ++ p.kids) ∧
      ((p.log.filterMap Entry.child).map Prod.fst).Nodup ∧
      p.kids.length = p.log.countP (fun e => e.printed "wait failed") + (if p.blocked then 1 else 0) ∧
      p.openFds = p.log.countP Entry.leaks :=
  have h := accounts_after calls
  ⟨h.children, h.once, h.left, h.fds⟩

/-! ## Which verdicts can be relied on -/

/-- Whatever the next command is and however it and the others end, `do_exec` reports on the child it starts, if its `wait` is
not interrupted. -/
def Process.Trusted (p : Process) : Prop :=
  ∀ (a : Answers) (command : List String), a.waitOk = true →
    Reports (p.env a) command (doExec (p.env a) command)

theorem Process.trusted_of_none_ends {p : Process} (h : ∀ c ∈ p.kids, c.2 = none) : p.Trusted := by
  intro a command hwait
  have hothers : (p.env a).others = [] := by
    have hended : p.kids.filterMap Child.ended = [] := by
      rw [List.filterMap_eq_nil_iff]
      intro c hc
      rw [Child.ended, h c hc, Option.map_none]
    show (p.kids.filterMap Child.ended).rotate a.order = []
    rw [hended, List.rotate_nil]
  rw [doExec_reports_iff]
  refine ⟨fun hfails => absurd (hwait.symm.trans hfails) (by simp), fun _ c hc hforeign => ?_⟩
  obtain ⟨pid, hfork, hfirst⟩ := Option.bind_eq_some_iff.mp hc
  -- the only child to hand out is the call's own
  have hown : (p.env a).terminations pid (execChild (p.env a) command) =
      ((execChild (p.env a) command).map fun t => (pid, t)).toList := by
    simp [Env.terminations, hothers]
  rw [hown] at hfirst
  obtain ⟨t, -, rfl⟩ : ∃ t, execChild (p.env a) command = some t ∧ (pid, t) = c := by
    simpa using List.mem_of_mem_head? hfirst
  exact absurd hfork hforeign

/-- A child left by an earlier call is handed out to the next one, which takes its end for that of its own. -/
theorem Process.not_trusted_of_ends {p : Process} {pid : Pid} {t : Termination} (hc : (pid, some t) ∈ p.kids) :
    ¬ p.Trusted := by
  intro htrusted
  have hended : (pid, t) ∈ p.kids.filterMap Child.ended := List.mem_filterMap.mpr ⟨_, hc, rfl⟩
  obtain ⟨n, hn⟩ := List.mem_iff_getElem?.mp hended
  have hlt : n < (p.kids.filterMap Child.ended).length := (List.getElem?_eq_some_iff.mp hn).1
  -- the command of the next call ends the other way
  let a : Answers := {
    execv := fun _ => .runs (some (if t = .exited 0 then .exited 1 else .exited 0))
    order := n
    ahead := 1 }
  have hfork : (p.env a).fork = some p.next := rfl
  have hfirst : (p.env a).first [] = some (pid, t) := by
    have hhead : ((p.kids.filterMap Child.ended).rotate n).head? = some (pid, t) := by
      rw [List.head?_rotate hlt, hn]
    rw [Env.first_eq hfork]
    show (((p.kids.filterMap Child.ended).rotate n).take 1 ++ _ ++ _).head? = _
    obtain ⟨rest, hrest⟩ := List.head?_eq_some_iff.mp hhead
    rw [hrest]
    rfl
  have hforeign : (p.env a).fork ≠ some pid := by
    rw [hfork, ne_eq, Option.some.injEq]
    exact Nat.ne_of_gt (p.fresh _ hc)
  have htells := (doExec_reports_iff (p.env a) []).mp (htrusted a [] rfl)
  have hsame := htells.2 rfl _ hfirst hforeign
  rw [succeeds_iff hfork] at hsame
  have hown : execChild (p.env a) [] = some (if t = .exited 0 then .exited 1 else .exited 0) := rfl
  rw [hown, Option.some.injEq] at hsame
  split_ifs at hsame with hzero
  · exact absurd (hsame.mp hzero) (by decide)
  · exact hzero (hsame.mpr rfl)

theorem status_eq_zero_iff (t : Termination) : t.status = 0 ↔ t = .exited 0 := by
  constructor
  · intro h
    rw [← exited_zero_iff, h]
    rfl
  · rintro rfl
    rfl

/-- `do_system` waits for its own child. -/
theorem doSystem_true_iff {a : Answers} (hstatus : a.waitpidOk = true) (cmd : String) :
    (doSystem a (some cmd)).map Ran.ret = some true ↔
      a.fork = true ∧ a.execv ["sh", "-c", cmd] = .runs (some (.exited 0)) := by
  unfold doSystem system
  cases hfork : a.fork with
  | false => simp
  | true =>
      have hchild : systemChild a cmd = some (.exited 0) ↔ a.execv ["sh", "-c", cmd] = .runs (some (.exited 0)) := by
        unfold systemChild
        cases a.execv ["sh", "-c", cmd] with
        | fails => simp
        | runs fate => simp
      dsimp only
      rw [← hchild, if_pos rfl]
      cases hown : systemChild a cmd with
      | none => simp
      | some t =>
          have hneg : (t.status : Int) ≠ -1 := by omega
          by_cases hzero : t = .exited 0
          · simp [hstatus, hzero, (status_eq_zero_iff _).mpr rfl]
          · have hne : t.status ≠ 0 := mt (status_eq_zero_iff t).mp hzero
            simp [hstatus, hneg, hne, hzero]

/-- **Which verdicts can be relied on**: after every sequence of calls, `do_exec` reports on its own child in every further
call whose `wait` is not interrupted, exactly when no child that was left ever ends; so it does as long as no `wait` failed.
`do_system` does whatever is left, unless someone else has taken the status of its shell. -/
theorem trusted_iff (calls : List (Helper × Answers)) :
    ((Process.after calls).Trusted ↔ ∀ c ∈ (Process.after calls).kids, c.2 = none) ∧
      ((Process.after calls).blocked = false →
        (∀ e ∈ (Process.after calls).log, e.printed "wait failed" = false) → (Process.after calls).Trusted) ∧
      ∀ (a : Answers) (cmd : String), a.waitpidOk = true →
        ((doSystem a (some cmd)).map Ran.ret = some true ↔
          a.fork = true ∧ a.execv ["sh", "-c", cmd] = .runs (some (.exited 0))) := by
  refine ⟨⟨fun htrusted c hc => ?_, Process.trusted_of_none_ends⟩, fun hrun hquiet => ?_,
    fun a cmd hstatus => doSystem_true_iff hstatus cmd⟩
  · obtain ⟨pid, own⟩ := c
    cases own with
    | none => rfl
    | some t => exact absurd htrusted (Process.not_trusted_of_ends hc)
  · have hnone : (Process.after calls).log.countP (fun e => e.printed "wait failed") = 0 := by
      rw [List.countP_eq_zero]
      intro e he
      simp [hquiet e he]
    have hkids : (Process.after calls).kids = [] := by
      rw [← List.length_eq_zero_iff, (accounts_after calls).left, hnone, hrun]
      rfl
    exact Process.trusted_of_none_ends (by simp [hkids])

end Aesd.Systemcalls
