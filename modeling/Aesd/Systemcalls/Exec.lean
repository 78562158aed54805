import Mathlib.Tactic

/-!
# The exec helpers of `systemcalls.c`

* `Termination`, `status`, `WIFEXITED`, `WEXITSTATUS` : how a process ends and how `wait` says so;
* `Env` : what the kernel does around one call: the answers of `open`, `fork`, `dup2`, `execv` and `wait`, and the other
  children of the calling process that terminate, in the order in which `wait` hands children out;
* `doExec`, `doExecRedirect` : the two helpers, which do not return when `wait` never does;
* `Reports` : a helper returned true exactly when the command of this very call was executed and exited with 0;
* `exec_helpers_report_iff` : when they do.
-/

namespace Aesd.Systemcalls

/-! ## Termination statuses -/

/-- How a process ends. Signal numbers are 1 to 126, 127 marks a stopped process. -/
inductive Termination where
  | exited (code : Fin 256)
  | signaled (signal : Fin 126) (core : Bool)
deriving DecidableEq, Repr

def Termination.status : Termination → Nat
  | .exited code => code.val <<< 8
  | .signaled signal core => (signal.val + 1) ||| (if core then 0x80 else 0)

def WIFEXITED (status : Nat) : Bool := status &&& 0x7f == 0

def WEXITSTATUS (status : Nat) : Nat := (status &&& 0xff00) >>> 8

def EXIT_FAILURE : Fin 256 := 1

/-- `WIFEXITED(status) && WEXITSTATUS(status) == 0` accepts exactly a normal exit with status 0. -/
theorem exited_zero_iff (t : Termination) :
    (WIFEXITED t.status && WEXITSTATUS t.status == 0) = true ↔ t = .exited 0 := by
  cases t with
  | exited code =>
      revert code
      decide +kernel
  | signaled signal core =>
      revert signal core
      decide +kernel

/-! ## The environment of a call -/

abbrev Pid : Type := Nat

/-- What `execv` does in the child: it returns with an error, or the command runs and ends in some way or never. -/
inductive Execv where
  | fails
  | runs (fate : Option Termination)
deriving DecidableEq, Repr

/-- The answers of the kernel. `others` are the other children that terminate, with how they do, in the order in which
`wait` hands them out, and `ahead` of them come before the child that is forked. -/
structure Env where
  openOk : Bool := true
  fork : Option Pid
  dup2Ok : Bool := true
  execv : List String → Execv
  others : List (Pid × Termination) := []
  ahead : Nat := 0
  waitOk : Bool := true
  fresh : ∀ pid, fork = some pid → ∀ c ∈ others, c.1 ≠ pid

/-- What `wait(&status)` does: it fails, stores the status of some child, or never returns. -/
inductive Wait where
  | fails
  | reaps (pid : Pid) (status : Nat)
  | blocks
deriving DecidableEq, Repr

namespace Env

/-- The children that terminate, in the order in which `wait` hands them out; `own` is the forked one. -/
def terminations (env : Env) (pid : Pid) (own : Option Termination) : List (Pid × Termination) :=
  env.others.take env.ahead ++ (own.map fun t => (pid, t)).toList ++ env.others.drop env.ahead

def wait (env : Env) (pid : Pid) (own : Option Termination) : Wait :=
  if env.waitOk then
    match env.terminations pid own with
    | [] => .blocks
    | (pid, t) :: _ => .reaps pid t.status
  else .fails

end Env

/-! ## The helpers -/

/-- What a helper returned, what it printed with `perror`, and whether it left its file open. -/
structure Ran where
  ret : Bool
  perror : List String := []
  fdOpen : Bool := false
deriving DecidableEq, Repr

def execChild (env : Env) (command : List String) : Option Termination :=
  match env.execv command with
  | .fails => some (.exited EXIT_FAILURE)
  | .runs fate => fate

def doExec (env : Env) (command : List String) : Option Ran :=
  match env.fork with
  | none => some ⟨false, ["fork failed"], false⟩
  | some pid =>
    match env.wait pid (execChild env command) with
    | .blocks => none
    | .fails => some ⟨false, ["wait failed"], false⟩
    | .reaps _ status =>
      if WIFEXITED status && WEXITSTATUS status == 0 then some ⟨true, [], false⟩ else some ⟨false, [], false⟩

def redirectChild (env : Env) (command : List String) : Option Termination :=
  if env.dup2Ok then
    match env.execv command with
    | .fails => some (.exited EXIT_FAILURE)
    | .runs fate => fate
  else some (.exited EXIT_FAILURE)

/-- A fork that fails leaves through a `return` before the file is closed. -/
def doExecRedirect (env : Env) (command : List String) : Option Ran :=
  if env.openOk then
    match env.fork with
    | none => some ⟨false, ["fork failed"], true⟩
    | some pid =>
      match env.wait pid (redirectChild env command) with
      | .blocks => none
      | .fails => some ⟨false, ["wait failed"], false⟩
      | .reaps _ status =>
        -- both ways out of the last test return true
        if WIFEXITED status && WEXITSTATUS status == 0 then some ⟨true, [], false⟩ else some ⟨true, [], false⟩
  else some ⟨false, ["open failed"], false⟩

/-! ## What they report -/

/-- The process forked by this call executed the command and exited normally with status 0. -/
def Succeeds (env : Env) (command : List String) : Prop :=
  env.fork ≠ none ∧ env.execv command = .runs (some (.exited 0))

/-- The helper returns true exactly when the command succeeded. -/
def Reports (env : Env) (command : List String) (ran : Option Ran) : Prop :=
  ran.map Ran.ret = some true ↔ Succeeds env command

/-- The two helpers report on the child they started, and agree. -/
def HelpersReport (env : Env) (command : List String) : Prop :=
  Reports env command (doExec env command) ∧
    (env.openOk = true → env.dup2Ok = true →
      Reports env command (doExecRedirect env command) ∧
        (doExec env command).map Ran.ret = (doExecRedirect env command).map Ran.ret)

/-- The child that `wait` hands out first, if any child terminates. -/
def Env.first (env : Env) (command : List String) : Option (Pid × Termination) :=
  env.fork.bind fun pid => (env.terminations pid (execChild env command)).head?

/-- `wait` does not fail on a command that succeeds, and a child of someone else that it hands out first ends as the
command does, with 0 or not. -/
def WaitTells (env : Env) (command : List String) : Prop :=
  (env.waitOk = false → ¬ Succeeds env command) ∧
    (env.waitOk = true → ∀ c, env.first command = some c → env.fork ≠ some c.1 →
      (c.2 = .exited 0 ↔ Succeeds env command))

/-- `wait` does not fail on a command that succeeds, and hands out no child, whosever it is, when the command does
not. -/
def WaitOnlySuccess (env : Env) (command : List String) : Prop :=
  (env.waitOk = false → ¬ Succeeds env command) ∧
    (env.waitOk = true → env.first command ≠ none → Succeeds env command)

section Helpers
variable {env : Env} {command : List String} {pid : Pid}

theorem Env.first_eq (hfork : env.fork = some pid) :
    env.first command = (env.terminations pid (execChild env command)).head? := by
  rw [Env.first, hfork, Option.bind_some]

theorem Env.wait_eq (hok : env.waitOk = true) (own : Option Termination) :
    env.wait pid own = (env.terminations pid own).head?.elim .blocks fun c => .reaps c.1 c.2.status := by
  unfold Env.wait
  rw [if_pos hok]
  cases env.terminations pid own <;> rfl

theorem Env.own_of_mem (hfork : env.fork = some pid) {own : Option Termination} {t : Termination}
    (h : (pid, t) ∈ env.terminations pid own) : own = some t := by
  unfold Env.terminations at h
  rw [List.mem_append, List.mem_append] at h
  rcases h with (h | h) | h
  · exact absurd rfl (env.fresh pid hfork _ (List.mem_of_mem_take h))
  · simpa using h
  · exact absurd rfl (env.fresh pid hfork _ (List.mem_of_mem_drop h))

theorem execChild_zero_iff : execChild env command = some (.exited 0) ↔ env.execv command = .runs (some (.exited 0)) := by
  unfold execChild
  cases env.execv command with
  | fails => simp [EXIT_FAILURE]
  | runs fate => simp

theorem succeeds_iff (hfork : env.fork = some pid) :
    Succeeds env command ↔ execChild env command = some (.exited 0) := by
  rw [Succeeds, execChild_zero_iff, hfork]
  simp

theorem first_ne_none_of_succeeds (h : Succeeds env command) : env.first command ≠ none := by
  obtain ⟨pid, hfork⟩ := Option.ne_none_iff_exists'.mp h.1
  have hown := (succeeds_iff hfork).mp h
  rw [Env.first_eq hfork, Env.terminations, hown]
  simp

/-- What a helper returns that turns the child handed out by `wait` into a verdict. -/
def Env.returns (env : Env) (command : List String) (verdict : Termination → Bool) : Option Bool :=
  if env.fork = none ∨ env.waitOk = false then some false else (env.first command).map fun c => verdict c.2

theorem doExec_ret (env : Env) (command : List String) :
    (doExec env command).map Ran.ret = env.returns command fun t => decide (t = .exited 0) := by
  unfold doExec Env.returns
  cases hfork : env.fork with
  | none => simp
  | some pid =>
      cases hok : env.waitOk with
      | false => simp [Env.wait, hok]
      | true =>
          dsimp only
          rw [Env.wait_eq hok, Env.first_eq hfork, if_neg (by simp)]
          cases (env.terminations pid (execChild env command)).head? with
          | none => rfl
          | some c =>
              have htest := exited_zero_iff c.2
              dsimp only [Option.elim]
              by_cases hz : c.2 = .exited 0
              · rw [if_pos (htest.mpr hz)]
                simp [hz]
              · rw [if_neg (mt htest.mp hz)]
                simp [hz]

theorem doExecRedirect_ret (hopen : env.openOk = true) (hdup : env.dup2Ok = true) (command : List String) :
    (doExecRedirect env command).map Ran.ret = env.returns command fun _ => true := by
  have hchild : redirectChild env command = execChild env command := by
    rw [redirectChild, if_pos hdup, execChild]
  unfold doExecRedirect Env.returns
  rw [if_pos hopen]
  cases hfork : env.fork with
  | none => simp
  | some pid =>
      cases hok : env.waitOk with
      | false => simp [Env.wait, hok]
      | true =>
          dsimp only
          rw [Env.wait_eq hok, Env.first_eq hfork, hchild, if_neg (by simp)]
          cases (env.terminations pid (execChild env command)).head? with
          | none => rfl
          | some c => simp

theorem Env.returns_true (env : Env) (command : List String) (verdict : Termination → Bool) :
    env.returns command verdict = some true ↔
      env.waitOk = true ∧ ∃ c, env.first command = some c ∧ verdict c.2 = true := by
  unfold Env.returns
  cases hfork : env.fork with
  | none => simp [Env.first, hfork]
  | some pid => cases env.waitOk <;> simp

theorem doExec_reports_iff (env : Env) (command : List String) :
    Reports env command (doExec env command) ↔ WaitTells env command := by
  rw [Reports, doExec_ret, Env.returns_true, WaitTells]
  cases hok : env.waitOk with
  | false => simp
  | true =>
      simp only [true_and, Bool.true_eq_false, false_implies, forall_true_left, decide_eq_true_eq]
      constructor
      · intro h c hc _
        rw [← h, hc]
        simp
      · intro h
        cases hfirst : env.first command with
        | none =>
            have hno : ¬ Succeeds env command := fun hs => first_ne_none_of_succeeds hs hfirst
            simp [hno]
        | some c =>
            have hiff : c.2 = .exited 0 ↔ Succeeds env command := by
              by_cases hown : env.fork = some c.1
              · have hmem : (c.1, c.2) ∈ env.terminations c.1 (execChild env command) := by
                  rw [Env.first_eq hown] at hfirst
                  exact List.mem_of_head? hfirst
                rw [succeeds_iff hown, Env.own_of_mem hown hmem, Option.some.injEq]
              · exact h c hfirst hown
            rw [← hiff]
            simp

theorem doExecRedirect_reports_iff (hopen : env.openOk = true) (hdup : env.dup2Ok = true) (command : List String) :
    Reports env command (doExecRedirect env command) ↔ WaitOnlySuccess env command := by
  rw [Reports, doExecRedirect_ret hopen hdup, Env.returns_true, WaitOnlySuccess]
  cases hok : env.waitOk with
  | false => simp
  | true =>
      have hsome : (∃ c, env.first command = some c) ↔ env.first command ≠ none := Option.ne_none_iff_exists'.symm
      simp only [true_and, and_true, Bool.true_eq_false, false_implies, forall_true_left, hsome]
      exact ⟨fun h => h.mp, fun h => ⟨h, first_ne_none_of_succeeds⟩⟩

/-- Helpers that both report agree: they block together, and what they return is whether the command succeeded. -/
theorem same_verdict (hopen : env.openOk = true) (hdup : env.dup2Ok = true)
    (h1 : Reports env command (doExec env command)) (h2 : Reports env command (doExecRedirect env command)) :
    (doExec env command).map Ran.ret = (doExecRedirect env command).map Ran.ret := by
  have htrue := h1.trans h2.symm
  rw [doExec_ret, doExecRedirect_ret hopen hdup] at htrue ⊢
  unfold Env.returns at htrue ⊢
  split_ifs at htrue ⊢ with hfail
  · rfl
  · cases hfirst : env.first command with
    | none => rfl
    | some c =>
        rw [hfirst] at htrue
        simp only [Option.map_some, Option.some.injEq, iff_true] at htrue
        simp [htrue]

end Helpers

/-- **When the exec helpers report on the child they started.** `do_exec` does exactly when the child that `wait` hands
out has the verdict of its own, and `do_exec_redirect` exactly when no child is handed out for a command that did not
succeed; then they agree. -/
theorem exec_helpers_report_iff (env : Env) (command : List String) :
    (Reports env command (doExec env command) ↔ WaitTells env command) ∧
    (env.openOk = true → env.dup2Ok = true →
      (Reports env command (doExecRedirect env command) ↔ WaitOnlySuccess env command)) ∧
    (HelpersReport env command ↔
      WaitTells env command ∧ (env.openOk = true → env.dup2Ok = true → WaitOnlySuccess env command)) := by
  refine ⟨doExec_reports_iff env command, fun hopen hdup => doExecRedirect_reports_iff hopen hdup command, ?_⟩
  unfold HelpersReport
  rw [doExec_reports_iff]
  constructor
  · rintro ⟨h1, h2⟩
    refine ⟨h1, fun hopen hdup => ?_⟩
    exact (doExecRedirect_reports_iff hopen hdup command).mp (h2 hopen hdup).1
  · rintro ⟨h1, h2⟩
    refine ⟨h1, fun hopen hdup => ?_⟩
    have hredirect := (doExecRedirect_reports_iff hopen hdup command).mpr (h2 hopen hdup)
    exact ⟨hredirect, same_verdict hopen hdup ((doExec_reports_iff env command).mpr h1) hredirect⟩

/-- A command that exits with 1 while another child has already exited with 0. -/
def foreignChild : Env where
  fork := some 12
  execv _ := .runs (some (.exited 1))
  others := [(11, .exited 0)]
  ahead := 1
  fresh := by decide

/-- A command that exits with 1, with no other child around. -/
def failingCommand : Env where
  fork := some 12
  execv _ := .runs (some (.exited 1))
  fresh := by decide

/-- `do_exec` takes the status of the other child for that of its own, and `do_exec_redirect` returns true for a command
that failed, where `do_exec` returns false. -/
theorem exec_helpers_misreport :
    (¬ HelpersReport foreignChild ["/bin/false"] ∧ doExec foreignChild ["/bin/false"] = some ⟨true, [], false⟩) ∧
    ¬ HelpersReport failingCommand ["/bin/false"] ∧ doExec failingCommand ["/bin/false"] = some ⟨false, [], false⟩ ∧
      doExecRedirect failingCommand ["/bin/false"] = some ⟨true, [], false⟩ := by
  have hforeign : ¬ Succeeds foreignChild ["/bin/false"] := by
    rintro ⟨-, h⟩
    revert h
    decide
  have hfailing : ¬ Succeeds failingCommand ["/bin/false"] := by
    rintro ⟨-, h⟩
    revert h
    decide
  refine ⟨⟨fun h => hforeign (h.1.mp (by decide)), by decide⟩, fun h => ?_, by decide, by decide⟩
  exact hfailing ((h.2 rfl rfl).1.mp (by decide))

end Aesd.Systemcalls
