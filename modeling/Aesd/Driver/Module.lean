import Aesd.Driver.Cleanup
import Aesd.Lib.Run

/-!
# Loading and unloading the module

* `Chrdevs`, `Globals` : the rows the driver has in the kernel's tables, and the two globals of the module image that
  its functions change;
* `initModule`, `cleanupModule` : `aesd_init_module` and `aesd_cleanup_module` with the tables. A failure of `cdev_add`
  gives the region back;
* `Host` : the machine the module runs on, with the open files and the node `/dev/aesdchar`; `past` keeps the device of
  every unloaded module, a history that no code reads. A call into a module that is gone is a fault;
* `Host.step` : `insmod`, `rmmod`, the scripts `aesdchar_load` and `aesdchar_unload`, and the file operations;
* `InStep`, `Intact` : the invariants of all runs, and of the runs whose calls keep the pending buffer.
-/

namespace Aesd.Driver
open Lib

/-- The numbers that are registered under `aesdchar`, and the ones whose files the driver serves. -/
structure Chrdevs where
  regions : List Nat := []
  cdevs : List Nat := []
deriving DecidableEq, Repr

/-- `g_aesd_major` and `g_aesd_device`. -/
structure Globals where
  gAesdMajor : Nat
  gAesdDevice : AesdDev
deriving DecidableEq, Repr

/-- What the kernel answers to one `aesd_init_module`; an error `e` is the result `-e`. -/
structure InitOutcome where
  allocChrdevRegion : Except ℕ+ Nat
  cdevAdd : Option ℕ+ := none

def aesdSetupCdev (t : Chrdevs) (devno : Nat) (o : InitOutcome) : Int × Chrdevs :=
  match o.cdevAdd with
  | none => (0, { t with cdevs := devno :: t.cdevs })
  | some err => (-(err : Nat), t)

/-- `unregister_chrdev_region`. -/
def Chrdevs.unregister (t : Chrdevs) (devno : Nat) : Chrdevs := { t with regions := t.regions.erase devno }

/-- `cdev_del`. -/
def Chrdevs.cdevDel (t : Chrdevs) (devno : Nat) : Chrdevs := { t with cdevs := t.cdevs.erase devno }

/-- `aesd_init_module`. A failed `alloc_chrdev_region` leaves `dev` at 0. -/
def initModule (t : Chrdevs) (o : InitOutcome) : Int × Globals × Chrdevs :=
  match o.allocChrdevRegion with
  | .error err => (-(err : Nat), ⟨0, aesdInitModule⟩, t)
  | .ok major =>
    let (result, t) := aesdSetupCdev { t with regions := major :: t.regions } major o
    (result, ⟨major, aesdInitModule⟩, if result ≠ 0 then t.unregister major else t)

def cleanupModule (t : Chrdevs) (g : Globals) : Except Fault (AesdDev × Chrdevs) := do
  let dev ← aesdCleanupModule g.gAesdDevice
  .ok (dev, (t.cdevDel g.gAesdMajor).unregister g.gAesdMajor)

/-! ## The machine -/

inductive HostFault where
  | driver (f : Fault)
  -- a call into the code or the data of a module that was unloaded
  | unloaded
deriving DecidableEq, Repr

structure Host where
  tables : Chrdevs := {}
  image : Option Globals := none
  -- the open files of the driver, each with its `f_pos`
  files : List Nat := []
  fpos : Nat → Nat := fun _ => 0
  -- the major number of `/dev/aesdchar`
  node : Option Nat := none
  past : List AesdDev := []
  fault : Option HostFault := none

namespace Host

/-- `insmod`; the kernel has one module of a name. -/
def insmod (h : Host) (o : InitOutcome) : Bool × Host :=
  match h.image with
  | some _ => (false, h)
  | none =>
    let (result, g, tables) := initModule h.tables o
    if result = 0 then (true, { h with image := some g, tables := tables }) else (false, { h with tables := tables })

/-- `modprobe` has nothing to do when the module is loaded. -/
def modprobe (h : Host) (o : InitOutcome) : Bool × Host := if h.image.isSome then (true, h) else h.insmod o

/-- `rmmod`; the owner of the file operations is the module, so an open file keeps it loaded. -/
def rmmod (h : Host) : Bool × Host :=
  match h.image, h.files with
  | some g, [] =>
    match cleanupModule h.tables g with
    | .ok (dev, tables) => (true, { h with image := none, tables := tables, past := h.past ++ [dev] })
    | .error f => (false, { h with fault := some (.driver f) })
  | _, _ => (false, h)

/-- The end of `aesdchar_load`: the number is looked up in `/proc/devices`, and `mknod` takes one number only. -/
def makeNode (h : Host) (mknod : Bool) : Host :=
  let node := match h.tables.regions with
    | [major] => if mknod then some major else none
    | _ => none
  { h with node := node }

def aesdcharLoad (h : Host) (localKo : Bool) (o : InitOutcome) (mknod : Bool) : Host :=
  let (ok, h) := if localKo then h.insmod o else h.modprobe o
  if ok then h.makeNode mknod else h

def aesdcharUnload (h : Host) : Host :=
  let (ok, h) := h.rmmod
  if ok then { h with node := none } else h

/-- `open("/dev/aesdchar")` finds the driver by the number of the node. -/
def openNode (h : Host) (filp : Nat) : Host :=
  match h.node with
  | none => h
  | some major =>
    if filp ∉ h.files ∧ major ∈ h.tables.cdevs then
      match h.image with
      | some g =>
        if g.gAesdMajor = major then
          { h with files := filp :: h.files, fpos := Function.update h.fpos filp aesdOpen.2 }
        else { h with fault := some .unloaded }
      | none => { h with fault := some .unloaded }
    else h

def close (h : Host) (filp : Nat) : Host :=
  if filp ∈ h.files then
    match h.image with
    | some g =>
      { h with files := h.files.erase filp, image := some { g with gAesdDevice := (aesdRelease g.gAesdDevice).2 } }
    | none => { h with fault := some .unloaded }
  else h

end Host

def Call.filp {K : Kernel} : Call K → Nat
  | .write filp _ _ => filp
  | .read filp _ _ => filp

def Host.call {K : Kernel} (h : Host) (c : Call K) : Host :=
  if c.filp ∈ h.files then
    match h.image with
    | some g =>
      match applyCall K ⟨g.gAesdDevice, h.fpos⟩ c with
      | .ok (_, s) => { h with image := some { g with gAesdDevice := s.dev }, fpos := s.fpos }
      | .error f => { h with fault := some (.driver f) }
    | none => { h with fault := some .unloaded }
  else h

inductive HostLabel (K : Kernel) where
  | insmod (o : InitOutcome)
  | rmmod
  | load (localKo : Bool) (o : InitOutcome) (mknod : Bool)
  | unload
  | openNode (filp : Nat)
  | close (filp : Nat)
  | call (c : Call K)

/-- A machine that faulted takes no further step. -/
def Host.step {K : Kernel} (h : Host) (l : HostLabel K) : Host :=
  if h.fault.isSome then h
  else
    match l with
    | .insmod o => (h.insmod o).2
    | .rmmod => h.rmmod.2
    | .load localKo o mknod => h.aesdcharLoad localKo o mknod
    | .unload => h.aesdcharUnload
    | .openNode filp => h.openNode filp
    | .close filp => h.close filp
    | .call c => h.call c

def Host.loaded (h : Host) : List Nat := h.image.toList.map Globals.gAesdMajor

/-! ## The tables -/

/-- The rows in the kernel's tables are those of the loaded module, and files are open on a loaded module only. -/
structure InStep (h : Host) : Prop where
  regions : h.tables.regions = h.loaded
  cdevs : h.tables.cdevs = h.loaded
  files : h.image = none → h.files = []
  present : h.fault ≠ some .unloaded

theorem initModule_cases (t : Chrdevs) (o : InitOutcome) :
    (∃ major, initModule t o =
        (0, ⟨major, aesdInitModule⟩, { regions := major :: t.regions, cdevs := major :: t.cdevs })) ∨
      ((initModule t o).1 ≠ 0 ∧ (initModule t o).2.2 = t) := by
  unfold initModule aesdSetupCdev
  rcases o with ⟨alloc, add⟩
  cases alloc with
  | error err => exact Or.inr ⟨by simp, rfl⟩
  | ok major =>
      cases add with
      | none => exact Or.inl ⟨major, by simp⟩
      | some err => exact Or.inr ⟨by simp, by simp [Chrdevs.unregister]⟩

namespace InStep
variable {K : Kernel} {h : Host}

theorem insmod_cases (hi : InStep h) (o : InitOutcome) :
    (h.insmod o = (false, h)) ∨
      ∃ major, h.image = none ∧ h.insmod o = (true, { h with
        image := some ⟨major, aesdInitModule⟩
        tables := { regions := [major], cdevs := [major] } }) := by
  obtain ⟨tables, image, files, fpos, node, past, fault⟩ := h
  cases image with
  | some g => exact Or.inl rfl
  | none =>
      have hregions : tables.regions = [] := hi.regions
      have hcdevs : tables.cdevs = [] := hi.cdevs
      unfold Host.insmod
      rcases initModule_cases tables o with ⟨major, heq⟩ | ⟨hne, hsame⟩
      · refine Or.inr ⟨major, rfl, ?_⟩
        simp [heq, hregions, hcdevs]
      · refine Or.inl ?_
        simp [hne, hsame]

theorem rmmod_cases (hi : InStep h) :
    (h.rmmod = (false, h)) ∨
      (∃ g f, h.image = some g ∧ aesdCleanupModule g.gAesdDevice = .error f ∧
        h.rmmod = (false, { h with fault := some (.driver f) })) ∨
      ∃ g dev, h.image = some g ∧ h.files = [] ∧ aesdCleanupModule g.gAesdDevice = .ok dev ∧
        h.rmmod = (true, { h with image := none, tables := {}, past := h.past ++ [dev] }) := by
  obtain ⟨tables, image, files, fpos, node, past, fault⟩ := h
  cases image with
  | none => exact Or.inl rfl
  | some g =>
      cases files with
      | cons filp rest => exact Or.inl rfl
      | nil =>
          have hregions : tables.regions = [g.gAesdMajor] := hi.regions
          have hcdevs : tables.cdevs = [g.gAesdMajor] := hi.cdevs
          unfold Host.rmmod cleanupModule
          cases hclean : aesdCleanupModule g.gAesdDevice with
          | error f => exact Or.inr (Or.inl ⟨g, f, rfl, hclean, by simp [hclean, bind, Except.bind]⟩)
          | ok dev =>
              refine Or.inr (Or.inr ⟨g, dev, rfl, rfl, hclean, ?_⟩)
              simp [hclean, bind, Except.bind, Chrdevs.cdevDel, Chrdevs.unregister, hregions, hcdevs]

/-! ## What one step does -/

theorem withNode (hi : InStep h) (node : Option Nat) : InStep { h with node := node } :=
  ⟨hi.regions, hi.cdevs, hi.files, hi.present⟩

end InStep

/-- The effects of a step on everything but the node. -/
inductive Effect {K : Kernel} (h : Host) : HostLabel K → Host → Prop where
  | stays (l : HostLabel K) : Effect h l h
  | registered (l : HostLabel K) (major : Nat) : h.image = none → Effect h l { h with
      image := some ⟨major, aesdInitModule⟩
      tables := { regions := [major], cdevs := [major] } }
  | removed (l : HostLabel K) {g : Globals} {dev : AesdDev} : h.image = some g → h.files = [] →
      aesdCleanupModule g.gAesdDevice = .ok dev →
      Effect h l { h with image := none, tables := {}, past := h.past ++ [dev] }
  | stuck (l : HostLabel K) {g : Globals} {f : Fault} : h.image = some g →
      aesdCleanupModule g.gAesdDevice = .error f → Effect h l { h with fault := some (.driver f) }
  | opened (l : HostLabel K) (filp : Nat) {g : Globals} : h.image = some g → Effect h l { h with
      files := filp :: h.files
      fpos := Function.update h.fpos filp aesdOpen.2 }
  | closed (l : HostLabel K) (filp : Nat) {g : Globals} : h.image = some g → Effect h l { h with
      files := h.files.erase filp
      image := some { g with gAesdDevice := (aesdRelease g.gAesdDevice).2 } }
  | called (c : Call K) {g : Globals} {r : Ret} {s : State} : h.image = some g → c.filp ∈ h.files →
      applyCall K ⟨g.gAesdDevice, h.fpos⟩ c = .ok (r, s) → Effect h (.call c) { h with
      image := some { g with gAesdDevice := s.dev }
      fpos := s.fpos }
  | crashed (c : Call K) {g : Globals} {f : Fault} : h.image = some g → c.filp ∈ h.files →
      applyCall K ⟨g.gAesdDevice, h.fpos⟩ c = .error f → Effect h (.call c) { h with fault := some (.driver f) }

namespace InStep
variable {K : Kernel} {h : Host}

theorem effect_insmod (hi : InStep h) (l : HostLabel K) (o : InitOutcome) : Effect h l (h.insmod o).2 := by
  rcases hi.insmod_cases o with heq | ⟨major, himage, heq⟩
  · rw [heq]
    exact .stays l
  · rw [heq]
    exact .registered l major himage

theorem effect_rmmod (hi : InStep h) (l : HostLabel K) : Effect h l h.rmmod.2 := by
  rcases hi.rmmod_cases with heq | ⟨g, f, himage, hclean, heq⟩ | ⟨g, dev, himage, hfiles, hclean, heq⟩
  · rw [heq]
    exact .stays l
  · rw [heq]
    exact .stuck l himage hclean
  · rw [heq]
    exact .removed l himage hfiles hclean

/-- The scripts do what `insmod`, `modprobe` and `rmmod` do, and see to the node. -/
theorem effect_load (hi : InStep h) (l : HostLabel K) (localKo : Bool) (o : InitOutcome) (mknod : Bool) :
    ∃ h' node, Effect h l h' ∧ h.aesdcharLoad localKo o mknod = { h' with node := node } := by
  have hcmd : Effect h l (if localKo then h.insmod o else h.modprobe o).2 := by
    unfold Host.modprobe
    split_ifs
    · exact hi.effect_insmod l o
    · exact .stays l
    · exact hi.effect_insmod l o
  unfold Host.aesdcharLoad
  generalize (if localKo then h.insmod o else h.modprobe o) = r at hcmd ⊢
  obtain ⟨ok, h'⟩ := r
  cases ok with
  | true => exact ⟨h', _, hcmd, rfl⟩
  | false => exact ⟨h', h'.node, hcmd, rfl⟩

theorem effect_unload (hi : InStep h) (l : HostLabel K) :
    ∃ h' node, Effect h l h' ∧ h.aesdcharUnload = { h' with node := node } := by
  have hcmd := hi.effect_rmmod l
  unfold Host.aesdcharUnload
  generalize h.rmmod = r at hcmd ⊢
  obtain ⟨ok, h'⟩ := r
  cases ok with
  | true => exact ⟨h', none, hcmd, rfl⟩
  | false => exact ⟨h', h'.node, hcmd, rfl⟩

theorem effect_openNode (hi : InStep h) (l : HostLabel K) (filp : Nat) : Effect h l (h.openNode filp) := by
  unfold Host.openNode
  cases hnode : h.node with
  | none => exact .stays l
  | some major =>
      dsimp only
      split_ifs with hcond
      · cases himage : h.image with
        | none => simp [hi.cdevs, Host.loaded, himage] at hcond
        | some g =>
            have hmajor : major = g.gAesdMajor := by simpa [hi.cdevs, Host.loaded, himage] using hcond.2
            dsimp only
            rw [if_pos hmajor.symm, ← hnode, ← himage]
            exact .opened l filp himage
      · exact .stays l

theorem effect_close (hi : InStep h) (l : HostLabel K) (filp : Nat) : Effect h l (h.close filp) := by
  unfold Host.close
  split_ifs with hopen
  · cases himage : h.image with
    | none => simp [hi.files himage] at hopen
    | some g => exact .closed l filp himage
  · exact .stays l

theorem effect_call (hi : InStep h) (c : Call K) : Effect h (.call c) (h.call c) := by
  obtain ⟨tables, image, files, fpos, node, past, fault⟩ := h
  unfold Host.call
  split_ifs with hopen
  · cases image with
    | none =>
        have hfiles : files = [] := hi.files rfl
        simp [hfiles] at hopen
    | some g =>
        dsimp only
        cases hcall : applyCall K ⟨g.gAesdDevice, fpos⟩ c with
        | error f => exact .crashed c rfl hopen hcall
        | ok v => exact .called c rfl hopen hcall
  · exact .stays _

theorem step_effect (hi : InStep h) (l : HostLabel K) :
    ∃ h' node, Effect h l h' ∧ h.step l = { h' with node := node } := by
  unfold Host.step
  split_ifs with hfault
  · exact ⟨h, h.node, .stays l, rfl⟩
  · cases l with
    | insmod o => exact ⟨_, _, hi.effect_insmod _ o, rfl⟩
    | rmmod => exact ⟨_, _, hi.effect_rmmod _, rfl⟩
    | load localKo o mknod => exact hi.effect_load _ localKo o mknod
    | unload => exact hi.effect_unload _
    | openNode filp => exact ⟨_, _, hi.effect_openNode _ filp, rfl⟩
    | close filp => exact ⟨_, _, hi.effect_close _ filp, rfl⟩
    | call c => exact ⟨_, _, hi.effect_call c, rfl⟩

theorem effect (hi : InStep h) {l : HostLabel K} {h' : Host} (he : Effect h l h') : InStep h' := by
  cases he with
  | stays => exact hi
  | registered _ major himage => exact ⟨rfl, rfl, (fun hnone => nomatch hnone), hi.present⟩
  | removed _ himage hfiles hclean => exact ⟨rfl, rfl, fun _ => hfiles, hi.present⟩
  | stuck _ himage hclean => exact ⟨hi.regions, hi.cdevs, hi.files, by simp⟩
  | opened _ filp himage =>
      exact ⟨hi.regions, hi.cdevs, fun hnone => absurd (himage.symm.trans hnone) (by simp), hi.present⟩
  | closed _ filp himage =>
      refine ⟨?_, ?_, (fun hnone => nomatch hnone), hi.present⟩
      · simp [hi.regions, Host.loaded, himage]
      · simp [hi.cdevs, Host.loaded, himage]
  | called c himage hopen hcall =>
      refine ⟨?_, ?_, (fun hnone => nomatch hnone), hi.present⟩
      · simp [hi.regions, Host.loaded, himage]
      · simp [hi.cdevs, Host.loaded, himage]
  | crashed c himage hopen hcall => exact ⟨hi.regions, hi.cdevs, hi.files, by simp⟩

theorem step (hi : InStep h) (l : HostLabel K) : InStep (h.step l) := by
  obtain ⟨h', node, he, heq⟩ := hi.step_effect l
  rw [heq]
  exact (hi.effect he).withNode node

end InStep

theorem inStep_init : InStep {} := ⟨rfl, rfl, fun _ => rfl, by simp⟩

/-! ## The node -/

/-- The node is missing or leads to the loaded module. -/
def Host.NodeOk (h : Host) : Prop := ∀ major, h.node = some major → h.loaded = [major]

theorem Host.NodeOk.same {h h' : Host} (hn : h.NodeOk) (hnode : h'.node = h.node) (hloaded : h'.loaded = h.loaded) :
    h'.NodeOk := by
  unfold Host.NodeOk
  rw [hnode, hloaded]
  exact hn

namespace Host
variable {K : Kernel} (h : Host)

theorem openNode_same (filp : Nat) : (h.openNode filp).node = h.node ∧ (h.openNode filp).loaded = h.loaded := by
  unfold Host.openNode
  split
  · exact ⟨rfl, rfl⟩
  · split_ifs
    · split
      · split_ifs
        · exact ⟨rfl, rfl⟩
        · exact ⟨rfl, rfl⟩
      · exact ⟨rfl, rfl⟩
    · exact ⟨rfl, rfl⟩

theorem close_same (filp : Nat) : (h.close filp).node = h.node ∧ (h.close filp).loaded = h.loaded := by
  obtain ⟨tables, image, files, fpos, node, past, fault⟩ := h
  unfold Host.close
  split_ifs
  · cases image with
    | none => exact ⟨rfl, rfl⟩
    | some g => exact ⟨rfl, rfl⟩
  · exact ⟨rfl, rfl⟩

theorem call_same (c : Call K) : (h.call c).node = h.node ∧ (h.call c).loaded = h.loaded := by
  obtain ⟨tables, image, files, fpos, node, past, fault⟩ := h
  unfold Host.call
  split_ifs
  · cases image with
    | none => exact ⟨rfl, rfl⟩
    | some g =>
        dsimp only
        split
        · exact ⟨rfl, rfl⟩
        · exact ⟨rfl, rfl⟩
  · exact ⟨rfl, rfl⟩

end Host

namespace InStep
variable {K : Kernel} {h : Host}

theorem nodeOk_makeNode (hi : InStep h) (mknod : Bool) : (h.makeNode mknod).NodeOk := by
  intro major hnode
  show h.loaded = [major]
  unfold Host.makeNode at hnode
  rw [← hi.regions]
  dsimp only at hnode
  split at hnode
  · next m hregions =>
      split_ifs at hnode
      rw [hregions, Option.some.inj hnode]
  · cases hnode

theorem nodeOk_load (hi : InStep h) (hn : h.NodeOk) (localKo : Bool) (o : InitOutcome) (mknod : Bool) :
    (h.aesdcharLoad localKo o mknod).NodeOk := by
  have hins : h.insmod o = (false, h) ∨ ∃ h', h.insmod o = (true, h') ∧ InStep h' := by
    rcases hi.insmod_cases o with heq | ⟨major, himage, heq⟩
    · exact Or.inl heq
    · exact Or.inr ⟨_, heq, hi.effect (Effect.registered (K := .linux64) .rmmod major himage)⟩
  have hcmd : (if localKo then h.insmod o else h.modprobe o) = (false, h) ∨
      ∃ h', (if localKo then h.insmod o else h.modprobe o) = (true, h') ∧ InStep h' := by
    unfold Host.modprobe
    split_ifs
    · exact hins
    · exact Or.inr ⟨h, rfl, hi⟩
    · exact hins
  unfold Host.aesdcharLoad
  rcases hcmd with heq | ⟨h', heq, hi'⟩
  · rw [heq]
    exact hn
  · rw [heq]
    exact hi'.nodeOk_makeNode mknod

/-- Only an `rmmod` past the script leaves a stale node. -/
theorem nodeOk_step (hi : InStep h) (hn : h.NodeOk) {l : HostLabel K} (hl : l ≠ .rmmod) : (h.step l).NodeOk := by
  unfold Host.step
  split_ifs with hfault
  · exact hn
  cases l with
  | rmmod => exact absurd rfl hl
  | insmod o =>
      rcases hi.insmod_cases o with heq | ⟨major, himage, heq⟩
      · simpa [heq] using hn
      · intro m hm
        have hloaded := hn m (by simpa [heq] using hm)
        simp [Host.loaded, himage] at hloaded
  | load localKo o mknod => exact hi.nodeOk_load hn localKo o mknod
  | unload =>
      show h.aesdcharUnload.NodeOk
      unfold Host.aesdcharUnload
      rcases hi.rmmod_cases with heq | ⟨g, f, himage, hclean, heq⟩ | ⟨g, dev, himage, hfiles, hclean, heq⟩
      · rw [heq]
        exact hn
      · rw [heq]
        exact hn.same rfl rfl
      · rw [heq]
        exact fun major hnode => nomatch hnode
  | openNode filp => exact hn.same (h.openNode_same filp).1 (h.openNode_same filp).2
  | close filp => exact hn.same (h.close_same filp).1 (h.close_same filp).2
  | call c => exact hn.same (h.call_same c).1 (h.call_same c).2

end InStep

/-- **The kernel's tables and the node**: after every sequence of loads, unloads and calls, with failing ones, the driver
holds exactly the registration of the loaded module, open files keep it loaded, and no call ever lands in a module that
is gone. As long as modules are removed by the script alone, the node is missing or leads to the loaded module. -/
theorem registration_in_step (K : Kernel) (labels : List (HostLabel K)) :
    InStep (run Host.step {} labels) ∧
      ((∀ l ∈ labels, l ≠ .rmmod) → (run Host.step {} labels).NodeOk) := by
  constructor
  · exact Along.invariant (I := InStep) (P := fun _ _ => True) (fun s l hs _ => hs.step l) inStep_init
      (along_of_forall (fun _ _ => trivial) _)
  · intro hscript
    have hboth : InStep (run Host.step {} labels) ∧ (run Host.step {} labels).NodeOk :=
      Along.invariant (I := fun h => InStep h ∧ h.NodeOk) (fun s l hs hl => ⟨hs.1.step l, hs.1.nodeOk_step hs.2 hl⟩)
        ⟨inStep_init, fun major hnode => nomatch hnode⟩ (along_of_forall hscript _)
    exact hboth.2

/-! ## What unloading leaves behind -/

/-- The call asks for at least one byte, and no copy from user space fails in its append branch. -/
def Keeps (K : Kernel) (h : Host) : HostLabel K → Prop
  | .call c => 1 ≤ c.count ∧ ∀ g, h.image = some g → KeepsPending K ⟨g.gAesdDevice, h.fpos⟩ c
  | _ => True

/-- The loaded device keeps the driver's invariant; of an unloaded one the pending buffer is left and nothing else. -/
structure Intact (K : Kernel) (h : Host) : Prop where
  inStep : InStep h
  dev : ∀ g, h.image = some g → ∃ items data, Inv K g.gAesdDevice items ∧ g.gAesdDevice.pending = some data
  past : ∀ d ∈ h.past, ∀ p, d.heap.Live p ↔ d.entry.buffptr = some p
  fault : h.fault = none

theorem aesdCleanupModule_entry {s s' : AesdDev} (h : aesdCleanupModule s = .ok s') : s'.entry = s.entry := by
  obtain ⟨heap, -, heq⟩ := bind_ok h
  cases heq
  rfl

namespace Intact
variable {K : Kernel} {h : Host}

theorem withNode (hi : Intact K h) (node : Option Nat) : Intact K { h with node := node } :=
  ⟨hi.inStep.withNode node, hi.dev, hi.past, hi.fault⟩

theorem effect (hi : Intact K h) {l : HostLabel K} (hk : Keeps K h l) {h' : Host} (he : Effect h l h') :
    Intact K h' := by
  have hstep := hi.inStep.effect he
  cases he with
  | stays => exact hi
  | registered _ major himage =>
      refine ⟨hstep, ?_, hi.past, hi.fault⟩
      rintro g ⟨⟩
      exact ⟨[], [], inv_init K, rfl⟩
  | @removed _ g dev himage hfiles hclean =>
      refine ⟨hstep, (fun g hnone => nomatch hnone), ?_, hi.fault⟩
      obtain ⟨items, data, hinv, hpend⟩ := hi.dev g himage
      obtain ⟨s', hok, -, hlive⟩ := aesdCleanupModule_ok hinv hpend
      rw [hclean] at hok
      cases hok
      intro d hd p
      rcases List.mem_append.mp hd with hd | hd
      · exact hi.past d hd p
      · rw [List.mem_singleton.mp hd, hlive, aesdCleanupModule_entry hclean]
  | @stuck _ g f himage hclean =>
      obtain ⟨items, data, hinv, hpend⟩ := hi.dev g himage
      obtain ⟨s', hok, -⟩ := aesdCleanupModule_ok hinv hpend
      rw [hclean] at hok
      cases hok
  | opened _ filp himage => exact ⟨hstep, hi.dev, hi.past, hi.fault⟩
  | @closed _ filp g himage =>
      refine ⟨hstep, ?_, hi.past, hi.fault⟩
      rintro g' ⟨⟩
      exact hi.dev g himage
  | @called c g r s himage hopen hcall =>
      refine ⟨hstep, ?_, hi.past, hi.fault⟩
      rintro g' ⟨⟩
      obtain ⟨items, data, hinv, hpend⟩ := hi.dev g himage
      obtain ⟨items', hinv'⟩ := Inv.applyCall (s := ⟨g.gAesdDevice, h.fpos⟩) hinv hcall
      obtain ⟨r', s', hok, data', hpend'⟩ := applyCall_keeps (s := ⟨g.gAesdDevice, h.fpos⟩) hinv hpend hk.1 (hk.2 g himage)
      rw [hcall] at hok
      cases hok
      exact ⟨items', data', hinv', hpend'⟩
  | @crashed c g f himage hopen hcall =>
      obtain ⟨items, data, hinv, hpend⟩ := hi.dev g himage
      obtain ⟨r', s', hok, -⟩ := applyCall_keeps (s := ⟨g.gAesdDevice, h.fpos⟩) hinv hpend hk.1 (hk.2 g himage)
      rw [hcall] at hok
      cases hok

theorem step (hi : Intact K h) (l : HostLabel K) (hk : Keeps K h l) : Intact K (h.step l) := by
  obtain ⟨h', node, he, heq⟩ := hi.inStep.step_effect l
  rw [heq]
  exact (hi.effect hk he).withNode node

end Intact

theorem intact_init (K : Kernel) : Intact K {} :=
  ⟨inStep_init, (fun _ hnone => nomatch hnone), (fun _ hd => nomatch hd), rfl⟩

def Heap.liveBlocks (h : Heap) : Nat := h.blocks.countP Block.live

theorem Heap.live_iff (h : Heap) (p : Nat) : h.Live p ↔ ∃ b, h.blocks[p]? = some b ∧ b.live = true := by
  constructor
  · rintro ⟨data, hd⟩
    exact ⟨_, hd, rfl⟩
  · rintro ⟨⟨data, live⟩, hb, hlive⟩
    have hlive : live = true := hlive
    subst hlive
    exact ⟨data, hb⟩

theorem Heap.countP_dead {blocks : List Block} (hdead : ∀ (p : Nat) (b : Block), blocks[p]? = some b → b.live = false) :
    blocks.countP Block.live = 0 := by
  rw [List.countP_eq_zero]
  intro b hb
  obtain ⟨p, hp⟩ := List.mem_iff_getElem?.mp hb
  simp [hdead p b hp]

theorem Heap.liveBlocks_eq {h : Heap} {q : Option Nat} (hlive : ∀ p, h.Live p ↔ q = some p) :
    h.liveBlocks = if q.isSome then 1 else 0 := by
  have hdead : ∀ (p : Nat) (b : Block), q ≠ some p → h.blocks[p]? = some b → b.live = false := by
    intro p b hne hb
    by_contra hb'
    exact hne ((hlive p).mp ((h.live_iff p).mpr ⟨b, hb, by simpa using hb'⟩))
  cases q with
  | none => exact Heap.countP_dead fun p b hb => hdead p b (by simp) hb
  | some p =>
      obtain ⟨b, hb, hblive⟩ := (h.live_iff p).mp ((hlive p).mpr rfl)
      have hsplit : h.blocks = h.blocks.take p ++ b :: h.blocks.drop (p + 1) := by
        obtain ⟨hlt, rfl⟩ := List.getElem?_eq_some_iff.mp hb
        rw [← List.drop_eq_getElem_cons hlt, List.take_append_drop]
      have hbefore : (h.blocks.take p).countP Block.live = 0 := by
        apply Heap.countP_dead
        intro i c hc
        rw [List.getElem?_take] at hc
        split_ifs at hc with hi
        exact hdead i c (by simp; omega) hc
      have hafter : (h.blocks.drop (p + 1)).countP Block.live = 0 := by
        apply Heap.countP_dead
        intro i c hc
        rw [List.getElem?_drop] at hc
        exact hdead (p + 1 + i) c (by simp; omega) hc
      rw [Heap.liveBlocks, hsplit, List.countP_append, List.countP_cons_of_pos hblive, hbefore, hafter]
      rfl

theorem sum_liveBlocks {past : List AesdDev} (h : ∀ d ∈ past, ∀ p, d.heap.Live p ↔ d.entry.buffptr = some p) :
    (past.map fun d => d.heap.liveBlocks).sum = past.countP fun d => d.entry.buffptr.isSome := by
  induction past with
  | nil => rfl
  | cons d past ih =>
      rw [List.map_cons, List.sum_cons, List.countP_cons, ih fun e he => h e (List.mem_cons_of_mem _ he),
        Heap.liveBlocks_eq (h d List.mem_cons_self), Nat.add_comm]

/-- **What unloading leaves behind**: in every sequence of loads, unloads and calls whose calls ask for at least one byte
and keep the pending buffer, nothing faults, the cleanup of every unloaded module frees every block but the pending one,
and the blocks lost for good are as many as the modules that were unloaded with an unfinished packet. -/
theorem unloads_lose_unfinished (K : Kernel) (labels : List (HostLabel K))
    (hk : Lib.Along Host.step (Keeps K) {} labels) :
    (run Host.step {} labels).fault = none ∧
      (∀ d ∈ (run Host.step {} labels).past, ∀ p, d.heap.Live p ↔ d.entry.buffptr = some p) ∧
      ((run Host.step {} labels).past.map fun d => d.heap.liveBlocks).sum =
        (run Host.step {} labels).past.countP fun d => d.entry.buffptr.isSome := by
  have hi : Intact K (run Host.step {} labels) :=
    Along.invariant (fun s l hs hl => hs.step l hl) (intact_init K) hk
  exact ⟨hi.fault, hi.past, sum_liveBlocks hi.past⟩

/-- A packet left unfinished, then a load that uses the device properly. -/
theorem unloads_lose_unfinished_one :
    ((run (Host.step (K := .linux64)) {} [.load true ⟨.ok 250, none⟩ true, .openNode 0, .call (.write 0 letterA {}),
      .close 0, .unload, .load false ⟨.ok 251, none⟩ true, .openNode 0, .call (.write 0 newline {}), .close 0,
      .unload]).past.map fun d => d.heap.liveBlocks).sum = 1 := by
  have hrun := unloads_lose_unfinished .linux64 [.load true ⟨.ok 250, none⟩ true, .openNode 0,
    .call (.write 0 letterA {}), .close 0, .unload, .load false ⟨.ok 251, none⟩ true, .openNode 0,
    .call (.write 0 newline {}), .close 0, .unload]
    ⟨trivial, trivial, ⟨by decide, fun _ _ _ _ _ => rfl⟩, trivial, trivial, trivial, trivial,
      ⟨by decide, fun _ _ _ _ _ => rfl⟩, trivial, trivial, trivial⟩
  rw [hrun.2.2]
  decide +kernel

end Aesd.Driver
