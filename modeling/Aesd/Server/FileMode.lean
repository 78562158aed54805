import Aesd.Server.Turns
import Aesd.Server.Alarm

/-!
# Regular-file mode

* `blocks` : what a list of turns appends, the buffers that a worker passed to `write` or a timestamp;
* `FileInv f0 s` : the file is `f0` and the blocks of the turns so far, in the order in which the lock was acquired, up to
  the timestamp that a handler inside its region still owes;
* `file_mode_serialised` : the file and the responses, for every run of any number of workers and timestamps.
-/

namespace Aesd.Server
open Driver Lib

/-- What a turn is there to append, given what each worker wrote. -/
def Turn.block (bytes : Nat → List Byte) : Turn → List Byte
  | .recv i => bytes i
  | .send _ => []
  | .alarm text => text

def blocks (bytes : Nat → List Byte) (turns : List Turn) : List Byte := turns.flatMap (Turn.block bytes)

theorem blocks_append (bytes : Nat → List Byte) (turns turns' : List Turn) :
    blocks bytes (turns ++ turns') = blocks bytes turns ++ blocks bytes turns' := by
  simp [blocks]

/-- Turns other than the receiving one of `i` do not depend on what `i` wrote. -/
theorem blocks_update (bytes : Nat → List Byte) (turns : List Turn) (i : Nat) (b : List Byte) (h : .recv i ∉ turns) :
    blocks (Function.update bytes i b) turns = blocks bytes turns := by
  apply List.flatMap_congr
  intro t ht
  cases t with
  | recv j =>
      have hj : j ≠ i := by
        rintro rfl
        exact h ht
      simp [Turn.block, Function.update_of_ne hj]
  | _ => rfl

/-- A file that held `f0` before the first turn. -/
def fileView (f0 : List Byte) : View where
  eval bytes turns := f0 ++ blocks bytes turns
  frame bytes turns i b h := by rw [blocks_update bytes turns i b h]

/-- The timestamp that a handler inside its region has not written yet. -/
def AlarmPc.owed : AlarmPc → List Byte
  | .openOutput text | .write text => text
  | _ => []

def System.owed (s : System) : List Byte :=
  match s.lock with
  | some (.handler i) => (s.handlers i).elim [] AlarmPc.owed
  | _ => []

/-- The file operations of the step succeed; a `write` takes all its bytes, a `send` takes all of them or fails. -/
def FileServed : Label → Prop
  | .run _ a => a.openOk = true ∧ a.write = .all ∧ a.send.whole = true
  | _ => True

instance : DecidablePred FileServed
  | .run _ a => inferInstanceAs (Decidable (a.openOk = true ∧ a.write = .all ∧ a.send.whole = true))
  | .spawn _ => .isTrue trivial
  | .alarm _ _ => .isTrue trivial
  | .shutdown _ => .isTrue trivial

structure FileInv (f0 : List Byte) (s : System) : Prop where
  inv : SysInv s
  content : ∃ content, s.output = .file content ∧ content ++ s.owed = f0 ++ blocks s.bytes s.order
  snapped : Snapped (fileView f0) s

namespace FileInv
variable {c : Config} {f0 : List Byte} {s : System}

theorem init (f0 : List Byte) : FileInv f0 { output := .file f0 } where
  inv := .init _
  content := ⟨f0, rfl, by simp [System.owed, blocks]⟩
  snapped := .init _ _

theorem view (h : FileInv f0 s) (hfree : s.lock = none) : s.output.content = (fileView f0).eval s.bytes s.order := by
  obtain ⟨content, hout, heq⟩ := h.content
  rw [System.owed, hfree, List.append_nil] at heq
  rw [hout]
  exact heq

theorem owed_of_code {i : Nat} (h : s.lock = some (.code i)) : s.owed = [] := by
  rw [System.owed, h]

theorem owed_of_free (h : s.lock = none) : s.owed = [] := by
  rw [System.owed, h]

theorem write_all {K : Kernel} {content buf : List Byte} {a : Answer} (ha : a.write = .all) {ok : Bool} {out : Output}
    (h : (Output.file content).write K buf a = .ok (ok, out)) : out = .file (content ++ buf) := by
  simp only [Output.write, ha, Transfer.count, List.take_length] at h
  cases h
  rfl

/-- The lock passes to a worker and back while no timestamp is owed. -/
theorem owed_code (h : SysInv s) {i : Nat} {w : Worker} (hw : s.workers i = some w) {lock : Option Ctx}
    {order : List Turn} (hlock : w.pc.lockOp.Takes s (.code i) (w.pc.turn i) lock order) :
    ({ s with lock := lock } : System).owed = s.owed := by
  cases hop : w.pc.lockOp with
  | keep =>
      rw [hop] at hlock
      rw [hlock.1]
  | acquire =>
      rw [hop] at hlock
      obtain ⟨hfree, rfl, -⟩ := hlock
      rw [owed_of_free hfree, System.owed]
  | release =>
      rw [hop] at hlock
      obtain ⟨rfl, -⟩ := hlock
      rw [owed_of_code ((h.code i).mpr ⟨w, hw, WorkerPc.holds_of_release hop⟩), System.owed]

theorem code_content (h : FileInv f0 s) {i : Nat} {a : Answer} (ha : FileServed (.run i a)) {w w' : Worker}
    {out : Output} {lock : Option Ctx} {order : List Turn} (hw : s.workers i = some w)
    (hexec : w.exec c i s.output a = .ok (w', out))
    (hlock : w.pc.lockOp.Takes s (.code i) (w.pc.turn i) lock order) :
    ∃ content, out = .file content ∧
      content ++ ({ s with lock := lock } : System).owed =
        f0 ++ blocks (Function.update s.bytes i w'.wrote.flatten) order := by
  obtain ⟨content, hout, heq⟩ := h.content
  rcases code_cases h.inv hw hexec hlock with ⟨buf, done, ok, hpc, hwrite, rfl, rfl, hlast⟩ | ⟨hsame, hwrote, -, horder⟩
  · -- the worker appends to its own block, which is the last one
    have hlocked : s.lock = some (.code i) := (h.inv.code i).mpr ⟨w, hw, by rw [hpc]; rfl⟩
    obtain ⟨pre, hpre, hnot⟩ := h.inv.last_turn hlast
    rw [hpc] at hlock
    obtain rfl : lock = s.lock := hlock.1
    rw [hout] at hwrite
    refine ⟨content ++ buf, write_all ha.2.1 hwrite, ?_⟩
    rw [owed_of_code hlocked, List.append_nil] at heq ⊢
    rw [heq, hpre, blocks_append, blocks_append, blocks_update _ _ _ _ hnot]
    simp [blocks, Turn.block, bytes_of_worker hw]
  · have hbytes : Function.update s.bytes i w'.wrote.flatten = s.bytes := by
      rw [hwrote, ← bytes_of_worker hw, Function.update_eq_self]
    refine ⟨content, hsame.trans hout, ?_⟩
    rw [owed_code h.inv hw hlock, hbytes, heq]
    rcases horder with ⟨rfl, -, -⟩ | ⟨-, -, hnil, rfl⟩ | ⟨-, -, rfl⟩
    · rfl
    · rw [blocks_append]
      simp [blocks, Turn.block, bytes_of_worker hw, hnil]
    · rw [blocks_append]
      simp [blocks, Turn.block]

theorem handler_content (h : FileInv f0 s) {i : Nat} {a : Answer} (ha : FileServed (.run i a)) {p : AlarmPc}
    {p' : Option AlarmPc} {out : Output} {lock : Option Ctx} {order : List Turn} (hp : s.handlers i = some p)
    (hexec : p.exec c s.output a = .ok (p', out)) (hlock : p.lockOp.Takes s (.handler i) p.turn lock order) :
    ∃ content, out = .file content ∧
      content ++ ({ s with handlers := Function.update s.handlers i p', lock := lock } : System).owed =
        f0 ++ blocks s.bytes order := by
  obtain ⟨content, hout, heq⟩ := h.content
  cases p with
  | lock text =>
      obtain ⟨hfree, rfl, rfl⟩ := hlock
      cases hexec
      refine ⟨content, hout, ?_⟩
      rw [owed_of_free hfree, List.append_nil] at heq
      rw [blocks_append, heq]
      simp [System.owed, AlarmPc.owed, blocks, AlarmPc.turn, Turn.block]
  | openOutput text =>
      obtain ⟨rfl, rfl⟩ := hlock
      have hlocked := (h.inv.handler i).mpr ⟨_, hp, rfl⟩
      simp only [AlarmPc.exec, ha.1, if_true] at hexec
      cases hexec
      refine ⟨content, hout, ?_⟩
      rw [← heq]
      simp [System.owed, hlocked, hp, AlarmPc.owed]
  | write text =>
      obtain ⟨rfl, rfl⟩ := hlock
      have hlocked := (h.inv.handler i).mpr ⟨_, hp, rfl⟩
      obtain ⟨⟨ok, out1⟩, hwrite, hexec⟩ := bind_ok hexec
      cases hexec
      rw [hout] at hwrite
      refine ⟨content ++ text, write_all ha.2.1 hwrite, ?_⟩
      rw [← heq]
      simp [System.owed, hlocked, hp, AlarmPc.owed]
  | close =>
      obtain ⟨rfl, rfl⟩ := hlock
      have hlocked := (h.inv.handler i).mpr ⟨_, hp, rfl⟩
      cases hexec
      refine ⟨content, s.output.close_eq.trans hout, ?_⟩
      rw [← heq]
      simp [System.owed, hlocked, hp, AlarmPc.owed]
  | unlock =>
      obtain ⟨rfl, rfl⟩ := hlock
      have hlocked := (h.inv.handler i).mpr ⟨_, hp, rfl⟩
      cases hexec
      refine ⟨content, hout, ?_⟩
      rw [← heq]
      simp [System.owed, hlocked, hp, AlarmPc.owed]

theorem trans (h : FileInv f0 s) {l : Label} (hl : FileServed l) {s' : System} (ht : Trans c s l s') :
    FileInv f0 s' := by
  refine ⟨h.inv.trans ht, ?_, h.snapped.trans h.inv h.view ht⟩
  cases ht with
  | stay => exact h.content
  | code i a w w' out lock order hh hw hexec hlock =>
      rw [bytes_update rfl]
      exact h.code_content hl hw hexec hlock
  | handler i a p p' out lock order hp hexec hlock => exact h.handler_content hl hp hexec hlock
  | spawn i hw =>
      rw [bytes_congr (buffers_spawn hw)]
      exact h.content
  | shutdown i w hw =>
      rw [bytes_congr (buffers_shutdown hw)]
      exact h.content
  | alarm i text content hf hh =>
      -- the new handler does not hold the lock
      have howed :
          ({ s with handlers := Function.update s.handlers i (some (.lock text)) } : System).owed = s.owed := by
        unfold System.owed
        dsimp only
        split
        · next j hlocked =>
            have hj : j ≠ i := by
              rintro rfl
              obtain ⟨p, hp, -⟩ := (h.inv.handler j).mp hlocked
              rw [hh] at hp
              cases hp
            rw [Function.update_of_ne hj]
        · rfl
      rw [howed]
      exact h.content

end FileInv

/-! ## Every run -/

/-- **Serialised output and snapshot responses.** In every run in which the file operations succeed and transfers are
whole: where the lock is free the file is the concatenation of whole blocks in the order of the turns, one block for each
worker that took the lock for receiving; a worker whose `send_response` returned true sent the file as it was at its
second turn, its own block included; and two such responses extend one another. -/
theorem file_mode_serialised (c : Config) (f0 : List Byte) (labels : List Label) (hl : ∀ l ∈ labels, FileServed l)
    (s : System) (hs : s = run (System.step c) { output := .file f0 } labels) :
    (s.lock = none → s.output.content = f0 ++ blocks s.bytes s.order ∧
      ∀ i ∈ s.recvs, ∃ w, s.workers i = some w ∧ w.pc ≠ .recvLock ∧ w.pc.receiving = false) ∧
    s.recvs.Nodup ∧
    (∀ i w, s.workers i = some w → w.response = some true →
      w.sent = w.snapshot ∧ w.wrote.flatten <:+: w.sent ∧
        ∃ upto rest, s.order = upto ++ .send i :: rest ∧ w.sent = f0 ++ blocks s.bytes upto) ∧
    ∀ i j w v, s.workers i = some w → s.workers j = some v → w.response = some true → v.response = some true →
      w.sent <+: v.sent ∨ v.sent <+: w.sent := by
  have hfile : FileInv f0 s := by
    rw [hs]
    exact Along.invariant (fun s l h hl => h.trans hl (step_trans c s l)) (FileInv.init f0) (along_of_forall hl _)
  have hresp : RespInv c s := by
    rw [hs]
    have hsound : (Output.file f0).Sound c.K := trivial
    exact RespInv.of_run hsound labels
  have hall : SentAll s := by
    rw [hs]
    refine sentAll_of_run c _ fun l hmem => ?_
    have := hl l hmem
    cases l with
    | run i a => exact this.2.2
    | _ => trivial
  have hsent : ∀ i w, s.workers i = some w → w.response = some true → w.sent = w.snapshot := fun i w hw hr =>
    (hall i w hw).trans ((hresp.phase i w hw).answered hr)
  have hview : ∀ i w, s.workers i = some w → w.response = some true → ∃ upto rest,
      s.order = upto ++ .send i :: rest ∧ .recv i ∈ upto ∧ w.sent = f0 ++ blocks s.bytes upto := by
    intro i w hw hr
    obtain ⟨upto, rest, horder, hmem, hshot⟩ := hfile.snapped i w hw (Or.inr (by simp [hr]))
    exact ⟨upto, rest, horder, hmem, (hsent i w hw hr).trans hshot⟩
  refine ⟨fun hfree => ⟨hfile.view hfree, fun i hi => ?_⟩, hfile.inv.nodup, fun i w hw hr => ?_,
    fun i j w v hw hv hrw hrv => ?_⟩
  · obtain ⟨w, hw, hpc⟩ := (hfile.inv.started i).mp hi
    exact ⟨w, hw, hpc, (WorkerPc.of_not_holds (hfile.inv.not_holds (by simp [hfree]) hw)).1⟩
  · obtain ⟨upto, rest, horder, hmem, heq⟩ := hview i w hw hr
    refine ⟨hsent i w hw hr, ?_, upto, rest, horder, heq⟩
    rw [heq, ← bytes_of_worker hw]
    obtain ⟨pre, post, rfl⟩ := List.append_of_mem hmem
    exact ⟨f0 ++ blocks s.bytes pre, blocks s.bytes post, by simp [blocks, Turn.block]⟩
  · obtain ⟨upto, rest, horder, -, hsent⟩ := hview i w hw hrw
    obtain ⟨upto', rest', horder', -, hsent'⟩ := hview j v hv hrv
    have hupto : ∀ pre post : List Turn, s.order = pre ++ post →
        f0 ++ blocks s.bytes pre <+: f0 ++ blocks s.bytes s.order := by
      intro pre post heq
      rw [heq, blocks_append, ← List.append_assoc]
      exact List.prefix_append _ _
    rw [hsent, hsent']
    exact List.prefix_or_prefix_of_prefix (hupto _ _ horder) (hupto _ _ horder')

def packetAndTimestamp : List Label :=
  .spawn 0 :: List.replicate 9 (.run 0 (letterAnswer 97)) ++ .alarm 7 timestamp :: List.replicate 5 (.run 7 {}) ++
    List.replicate 14 (.run 0 (letterAnswer 97))

theorem file_mode_serialised_timestamp :
    ∃ w, (run (System.step .aesdsocket) { output := .file [] } packetAndTimestamp).workers 0 = some w ∧
      w.sent = [⟨97, some 0⟩, ⟨10, some 0⟩] ++ timestamp ∧ w.sent = w.snapshot ∧ w.wrote.flatten <:+: w.sent := by
  obtain ⟨-, -, hresp, -⟩ := file_mode_serialised .aesdsocket [] packetAndTimestamp (by decide) _ rfl
  obtain ⟨hsent, hown, -⟩ := hresp 0 _ rfl rfl
  exact ⟨_, rfl, rfl, hsent, hown⟩

end Aesd.Server
