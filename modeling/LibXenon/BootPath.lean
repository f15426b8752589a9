/-
LibXenon/BootPath.lean

From the preparations to the jump: the rest of elf.c.

Before a kernel is started its arguments are put at 0x8A000000
(`elf_setArgcArgv`), the initial ram disk is copied to the heap
(`kernel_prepare_initrd`), and `elf_runWithDeviceTree` puts the device tree at
0x87FE0000 and moves the ram disk to 0x85FE0000.  `elf_runFromMemory` then
copies the loader to 0x87FF0000 and the image to 0x88000000, and the loader puts
the sections where they belong.  All these places are constants, and the sizes
are compared with nothing but 32 MB for the ram disk and 64 KB for the tree.

* At the jump the ram disk, the device tree and the arguments are what was
  prepared, if they are small enough and the sections go elsewhere; and the areas
  that are written are apart exactly if they are so small (`bootPath_intact`).
* The place where the loader puts bytes aside is in the area of the ram disk,
  its last 384 KB; and an image of more than 32 MB runs into the arguments
  (`bootPath_overwritten`).

What libfdt does is left open, but for its reading the tree it is given and
writing to the 64 KB at 0x87FE0000 only.  `malloc` is the address it returns.
-/
import LibXenon.ElfLoader
import LibXenon.Transition

namespace LibXenon

open Regions Transition List

/-! ### The preparations -/

def initrdRelocStart : Nat := 0x85FE0000

def initrdMaxSize : Nat := 0x2000000

def elfDevtreeStart : Nat := 0x87FE0000

def elfDevtreeMaxSize : Nat := 0x10000

def elfArgvBegin : Nat := 0x8A000000

def devtreeArea : Region := ⟨elfDevtreeStart, elfDevtreeMaxSize⟩

/-- The ram disk with its zero fill. -/
def initrdArea : Region := ⟨initrdRelocStart, initrdMaxSize⟩

/-- Memory and the variables of elf.c. -/
structure Boot where
  mem : Memory
  initrdStart : Option Nat
  initrdSize : Nat
  bootargs : List UInt8

/-- `strcpy`. -/
def strcpy (m : Memory) (a : Nat) (s : List UInt8) : Memory :=
  fill m ⟨a, s.length + 1⟩ fun k => s.getD k 0

/-- `sizeof(struct __argv)`. -/
def argvStructSize : Nat := 12

/-- The loop of `elf_setArgcArgv`, with `i` and `position`. -/
def argvStrings : List (List UInt8) → Nat → Nat → Memory → Memory
  | [], _, _, m => m
  | s :: rest, i, position, m =>
    let m := strcpy m position s
    let m := writeWord m (elfArgvBegin + argvStructSize + 4 * i) position
    let position := position + s.length
    let m := strcpy m position []
    argvStrings rest (i + 1) (position + 1) m

/-- Where the first string goes: `args.argv` is a `char **`, so adding
`sizeof(char*) * argc` to it moves it by sixteen bytes for each argument. -/
def argvPosition (argc : Nat) : Nat := elfArgvBegin + argvStructSize + 4 * (4 * argc)

/-- `elf_setArgcArgv`. -/
def elfSetArgcArgv (argv : List (List UInt8)) (b : Boot) : Boot :=
  let m := argvStrings argv 0 (argvPosition argv.length) b.mem
  let m := writeWord m elfArgvBegin 0x5f617267
  let m := writeWord m (elfArgvBegin + 4) argv.length
  let m := writeWord m (elfArgvBegin + 8) (elfArgvBegin + argvStructSize)
  { b with mem := m }

/-- The argument block, with the strings. -/
def argvBlock (argv : List (List UInt8)) : Region :=
  ⟨elfArgvBegin, argvStructSize + 4 * (4 * argv.length) + (argv.map fun s => s.length + 1).sum⟩

/-- `kernel_prepare_initrd`, with what `malloc` returns. -/
def kernelPrepareInitrd (start size malloc : Nat) (b : Boot) : Except Int Boot :=
  if size > initrdMaxSize then .error (-1)
  else .ok { b with
    mem := copy b.mem malloc start size, initrdStart := some malloc, initrdSize := size }

/-- `kernel_relocate_initrd`. -/
def kernelRelocateInitrd (start size : Nat) (b : Boot) : Boot :=
  { b with
    mem := copy (fill b.mem initrdArea fun _ => 0) initrdRelocStart start size
    initrdStart := some initrdRelocStart
    initrdSize := size }

/-! ### The device tree -/

/-- The bytes of a device tree. -/
abbrev DeviceTree := Nat → UInt8

/-- The functions of libfdt that are used; an error is a negative number. -/
structure Libfdt where
  openInto : Memory → Nat → Except Int DeviceTree
  pathOffset : DeviceTree → String → Int
  setprop : DeviceTree → Int → String → List UInt8 → Except Int DeviceTree
  addMemRsv : DeviceTree → Nat → Nat → Except Int DeviceTree
  pack : DeviceTree → Except Int DeviceTree

def Boot.tree (b : Boot) : DeviceTree := fun k => b.mem (elfDevtreeStart + k)

def Boot.setTree (b : Boot) (tree : DeviceTree) : Boot :=
  { b with mem := fill b.mem devtreeArea tree }

def Boot.editTree (b : Boot) (f : DeviceTree → Except Int DeviceTree) : Except Int Boot :=
  (f b.tree).map b.setTree

/-- `PHYSADDR`. -/
def physaddr (a : Nat) : Nat := a % 2 ^ 31

/-- A `u64` in memory. -/
def bytes64 (n : Nat) : List UInt8 := (List.range 8).map fun k => UInt8.ofNat (n / 2 ^ (56 - 8 * k))

def addBootargs (fdt : Libfdt) (node : Int) (b : Boot) : Except Int Boot :=
  if b.bootargs = [] then .ok b
  else b.editTree fun tree => fdt.setprop tree node "bootargs" (b.bootargs ++ [0])

def addInitrd (fdt : Libfdt) (node : Int) (b : Boot) : Except Int Boot :=
  match b.initrdStart with
  | none => .ok b
  | some start =>
    if b.initrdSize = 0 then .ok b
    else do
      let b := kernelRelocateInitrd start b.initrdSize b
      let first := physaddr initrdRelocStart
      let last := physaddr ((initrdRelocStart + b.initrdSize) % 2 ^ 32)
      let b ← b.editTree fun tree => fdt.setprop tree node "linux,initrd-start" (bytes64 first)
      let b ← b.editTree fun tree => fdt.setprop tree node "linux,initrd-end" (bytes64 last)
      b.editTree fun tree => fdt.addMemRsv tree first b.initrdSize

/-- `elf_runWithDeviceTree` up to the call of `elf_runFromMemory`. -/
def prepareDeviceTree (fdt : Libfdt) (dtAddr : Nat) (dtSize : Int) (b : Boot) : Except Int Boot :=
  if dtSize > elfDevtreeMaxSize then .error (-1)
  else do
    let b := b.setTree fun _ => 0
    let b ← b.editTree fun _ => fdt.openInto b.mem dtAddr
    let node := fdt.pathOffset b.tree "/chosen"
    if node < 0 then .error node
    else do
      let b ← addBootargs fdt node b
      let b ← addInitrd fdt node b
      let node := fdt.pathOffset b.tree "/memory"
      if node < 0 then .error node
      else b.editTree fdt.pack

/-! ### To the jump -/

/-- The functions come back with a number, the loader stops, or the kernel is
called. -/
inductive BootOutcome
  | returned (value : Int)
  | stopped (stop : ElfStop)
  | jumped (mem : Memory)

/-- The loader and the image at the places they run and are read from. -/
def elfRelocate (L : LoaderLayout) (elfldrStart addr size : Nat) (m : Memory) : Memory :=
  copy (copy m elfCodeRelocStart elfldrStart L.codeSize) elfDataRelocStart addr size

/-- Where the argument struct is copied to. -/
def newArgv (m : Memory) : Nat := (0x80000008 + eEntry m elfDataRelocStart) % 2 ^ 32

/-- The end of `elf_prepare_run`: no arguments for an entry point of 0. -/
def elfPatchArgv (m : Memory) : Memory :=
  if eEntry m elfDataRelocStart ≠ 0 then elfMemcpy argvStructSize (newArgv m) elfArgvBegin m else m

/-- `elf_runFromMemory`. -/
def elfRunFromMemory (L : LoaderLayout) (elfldrStart addr size : Nat) (b : Boot) : BootOutcome :=
  match elfPrepareRun L elfDataRelocStart (elfRelocate L elfldrStart addr size b.mem) with
  | .error stop => .stopped stop
  | .ok s => .jumped (elfPatchArgv s.mem)

/-- `elf_runWithDeviceTree`. -/
def elfRunWithDeviceTree (fdt : Libfdt) (L : LoaderLayout)
    (elfldrStart elfAddr elfSize dtAddr : Nat) (dtSize : Int) (b : Boot) : BootOutcome :=
  match prepareDeviceTree fdt dtAddr dtSize b with
  | .error e => .returned e
  | .ok b => elfRunFromMemory L elfldrStart elfAddr elfSize b

/-! ### What the device tree code does -/

/-- Nothing but the bytes of the device tree has changed. -/
structure SameButTree (b b' : Boot) : Prop where
  within : Within [devtreeArea] b.mem b'.mem
  initrdStart : b'.initrdStart = b.initrdStart
  initrdSize : b'.initrdSize = b.initrdSize

variable {b b' b'' : Boot} {fdt : Libfdt} {L : LoaderLayout}

theorem SameButTree.refl (b : Boot) : SameButTree b b := ⟨Within.refl _ _, rfl, rfl⟩

theorem SameButTree.trans (h : SameButTree b b') (h' : SameButTree b' b'') : SameButTree b b'' where
  within := (h.within.trans h'.within).mono fun r hr => by
    rcases mem_append.mp hr with hr | hr
    · exact ⟨r, hr, fun _ ha => ha⟩
    · exact ⟨r, hr, fun _ ha => ha⟩
  initrdStart := h'.initrdStart.trans h.initrdStart
  initrdSize := h'.initrdSize.trans h.initrdSize

theorem SameButTree.setTree (b : Boot) (tree : DeviceTree) : SameButTree b (b.setTree tree) :=
  ⟨within_fill b.mem devtreeArea tree, rfl, rfl⟩

theorem SameButTree.editTree {f : DeviceTree → Except Int DeviceTree} (h : b.editTree f = .ok b') :
    SameButTree b b' := by
  rcases hf : f b.tree with e | tree <;> rw [Boot.editTree, hf] at h <;> cases h
  exact .setTree b tree

theorem sameButTree_addBootargs {node : Int} (h : addBootargs fdt node b = .ok b') :
    SameButTree b b' := by
  rw [addBootargs] at h
  split at h
  · cases h
    exact .refl b
  · exact .editTree h

theorem sameButTree_addInitrd {node : Int} {start : Nat} (hstart : b.initrdStart = some start)
    (hsize : b.initrdSize ≠ 0) (h : addInitrd fdt node b = .ok b') :
    SameButTree (kernelRelocateInitrd start b.initrdSize b) b' := by
  rw [addInitrd, hstart] at h
  dsimp only at h
  rw [if_neg hsize] at h
  obtain ⟨b₁, h₁, h⟩ := bind_eq_ok.mp h
  obtain ⟨b₂, h₂, h⟩ := bind_eq_ok.mp h
  exact ((SameButTree.editTree h₁).trans (.editTree h₂)).trans (.editTree h)

theorem addInitrd_none {node : Int} (hsize : b.initrdSize = 0) (h : addInitrd fdt node b = .ok b') :
    b' = b := by
  rw [addInitrd] at h
  split at h
  · cases h
    rfl
  · rw [if_pos hsize] at h
    cases h
    rfl

/-- **The device tree code** changes the tree, and moves the ram disk in between. -/
theorem prepareDeviceTree_spec {dtAddr : Nat} {dtSize : Int}
    (h : prepareDeviceTree fdt dtAddr dtSize b = .ok b') :
    ∃ b₁ b₂, SameButTree b b₁ ∧ (∃ node, addInitrd fdt node b₁ = .ok b₂) ∧ SameButTree b₂ b' := by
  rw [prepareDeviceTree] at h
  split at h
  · cases h
  · obtain ⟨b₁, h₁, h⟩ := bind_eq_ok.mp h
    dsimp only at h
    split at h
    · cases h
    · obtain ⟨b₂, h₂, h⟩ := bind_eq_ok.mp h
      obtain ⟨b₃, h₃, h⟩ := bind_eq_ok.mp h
      split at h
      · cases h
      · exact ⟨b₂, b₃,
          ((SameButTree.setTree b _).trans (.editTree h₁)).trans (sameButTree_addBootargs h₂),
          ⟨_, h₃⟩, .editTree h⟩

theorem initrdArea_apart_devtreeArea : initrdArea.Apart devtreeArea := by decide

theorem prepareDeviceTree_keeps {dtAddr : Nat} {dtSize : Int}
    (h : prepareDeviceTree fdt dtAddr dtSize b = .ok b') {r : Region} (htree : r.Apart devtreeArea)
    (hinitrd : r.Apart initrdArea) (hsize : b.initrdSize ≤ initrdMaxSize) {a : Nat} (ha : r.Has a) :
    b'.mem a = b.mem a := by
  obtain ⟨b₁, b₂, h₁, ⟨node, hadd⟩, h₂⟩ := prepareDeviceTree_spec h
  have hkeep {c c' : Boot} (hc : SameButTree c c') : c'.mem a = c.mem a :=
    hc.within.keeps (fun s hs => mem_singleton.mp hs ▸ htree) ha
  rw [hkeep h₂, ← hkeep h₁]
  by_cases hz : b₁.initrdSize = 0
  · rw [addInitrd_none hz hadd]
  · rcases hstart : b₁.initrdStart with - | start
    · rw [addInitrd, hstart] at hadd
      cases hadd
      rfl
    · rw [hkeep (sameButTree_addInitrd hstart hz hadd), kernelRelocateInitrd]
      dsimp only
      -- the copy is inside the area that was cleared before
      have hbytes : Region.Inside ⟨initrdRelocStart, b₁.initrdSize⟩ initrdArea := by
        refine Region.inside_of_le (Nat.le_refl _) (Nat.add_le_add_left ?_ _)
        rw [h₁.initrdSize]
        exact hsize
      rw [copy, fill_of_not_has _ fun hin => hinitrd a ha (hbytes a hin),
        fill_of_not_has _ (hinitrd a ha)]

theorem prepareDeviceTree_initrd {dtAddr malloc : Nat} {dtSize : Int}
    (h : prepareDeviceTree fdt dtAddr dtSize b = .ok b') (hstart : b.initrdStart = some malloc)
    (hsize : b.initrdSize ≤ initrdMaxSize)
    (htree : Region.Apart ⟨malloc, b.initrdSize⟩ devtreeArea)
    (hinitrd : Region.Apart ⟨malloc, b.initrdSize⟩ initrdArea) {k : Nat} (hk : k < b.initrdSize) :
    b'.mem (initrdRelocStart + k) = b.mem (malloc + k) := by
  obtain ⟨b₁, b₂, h₁, ⟨node, hadd⟩, h₂⟩ := prepareDeviceTree_spec h
  have hplace : initrdArea.Has (initrdRelocStart + k) :=
    Region.has_add _ (Nat.lt_of_lt_of_le hk hsize)
  have hsource : Region.Has ⟨malloc, b.initrdSize⟩ (malloc + k) :=
    Region.has_add _ hk
  have hkeep {c c' : Boot} (hc : SameButTree c c') :
      c'.mem (initrdRelocStart + k) = c.mem (initrdRelocStart + k) :=
    hc.within.keeps (fun s hs => mem_singleton.mp hs ▸ initrdArea_apart_devtreeArea) hplace
  have hz : b₁.initrdSize ≠ 0 := by
    rw [h₁.initrdSize]
    omega
  rw [hkeep h₂, hkeep (sameButTree_addInitrd (h₁.initrdStart.trans hstart) hz hadd),
    kernelRelocateInitrd]
  dsimp only
  rw [h₁.initrdSize, copy_add hk, fill_of_not_has _ (hinitrd _ hsource)]
  exact h₁.within.keeps (fun s hs => mem_singleton.mp hs ▸ htree) hsource

/-! ### What the loader leaves alone -/

theorem within_elfRelocate (L : LoaderLayout) (elfldrStart addr size : Nat) (m : Memory) :
    Within [L.codeArea, ⟨elfDataRelocStart, size⟩] m (elfRelocate L elfldrStart addr size m) :=
  Within.trans (show Within [L.codeArea] m _ from within_copy m _ _ _) (within_copy _ _ _ _)

theorem elfMemcpy_keeps {l dst src : Nat} (m : Memory) (hdst : dst + l ≤ 2 ^ 32)
    (hsrc : src + l ≤ 2 ^ 32) {a : Nat} (ha : ¬ Region.Has ⟨dst, l⟩ a) :
    elfMemcpy l dst src m a = m a := by
  rw [Region.has_mk] at ha
  induction l generalizing dst src m with
  | zero => rfl
  | succ l ih =>
    rw [elfMemcpy_succ m hdst hsrc, ih _ (by omega) (by omega) (by omega),
      Function.update_of_ne (by omega)]

/-- The regions that have to be what was prepared. -/
def preparedRegions (argv : List (List UInt8)) (initrdSize : Nat) : List Region :=
  [⟨initrdRelocStart, initrdSize⟩, devtreeArea, argvBlock argv]

/-- What is asked of the image at 0x88000000: neither a section nor the argument
struct of the new program goes to a prepared region. -/
structure BootFits (L : LoaderLayout) (m : Memory) (elfSize initrdSize : Nat)
    (argv : List (List UInt8)) : Prop where
  image : ElfImage L m elfSize
  begins : BeginsAtStart L m
  sections : ∀ sh ∈ loadedSections m, ∀ r ∈ preparedRegions argv initrdSize, r.Apart sh.range
  newArgv : eEntry m elfDataRelocStart ≠ 0 → newArgv m + argvStructSize ≤ 2 ^ 32 ∧
    ∀ r ∈ preparedRegions argv initrdSize, r.Apart ⟨newArgv m, argvStructSize⟩

/-- What is asked of the sizes: the ram disk ends before what is put aside, if
something is, and the image before the arguments. -/
def BootSizes (L : LoaderLayout) (m : Memory) (elfSize initrdSize : Nat) : Prop :=
  (initrdSize ≤ 0x1FA0000 ∨ ¬ Staged L m) ∧ elfSize ≤ 0x2000000

variable {m : Memory} {elfSize initrdSize : Nat} {argv : List (List UInt8)}

/-- The areas that are written, one behind the other: the ram disk, with its own
bytes or with the zero fill, what is put aside, if something is, the device tree,
the loader, the image and the arguments. -/
def bootAreas (L : LoaderLayout) (m : Memory) (elfSize : Nat) (initrd : Region)
    (argv : List (List UInt8)) : List Region :=
  initrd :: ((if Staged L m then [L.temp] else []) ++
    [devtreeArea, L.codeArea, ⟨elfDataRelocStart, elfSize⟩, argvBlock argv])

/-- **The areas are apart** exactly if the sizes are small enough. -/
theorem bootAreas_apart_iff {len : Nat} (hlen : len ≤ initrdMaxSize) :
    (bootAreas L m elfSize ⟨initrdRelocStart, len⟩ argv).Pairwise Region.Apart ↔
      BootSizes L m elfSize len := by
  have hlen : len ≤ 0x2000000 := hlen
  have hlower := L.lower
  have hupper := L.upper
  have hcode := L.code
  have hbs := L.beginSize_eq
  have htemp : L.temp = ⟨0x87F80000, L.beginSize⟩ := rfl
  have harea : L.codeArea = ⟨0x87FF0000, L.codeSize⟩ := rfl
  have hargv : argvBlock argv = ⟨0x8A000000, (argvBlock argv).len⟩ := rfl
  have hblock : 12 ≤ (argvBlock argv).len := by
    change 12 ≤ 12 + _ + _
    omega
  rw [bootAreas, BootSizes, htemp, harea, hargv, devtreeArea, initrdRelocStart, elfDevtreeStart,
    elfDevtreeMaxSize, elfDataRelocStart]
  constructor
  · intro h
    -- the image must end below the arguments
    have hdata : Region.Apart ⟨0x88000000, elfSize⟩ ⟨0x8A000000, (argvBlock argv).len⟩ :=
      rel_of_pairwise_cons (pairwise_append.mp h.of_cons).2.1.of_cons.of_cons (by simp)
    rw [Region.apart_iff] at hdata
    refine ⟨?_, by dsimp only at hdata; omega⟩
    by_cases hstaged : Staged L m
    · rw [if_pos hstaged] at h
      have hinitrd := Region.apart_iff.mp (rel_of_pairwise_cons h (mem_cons_self ..))
      dsimp only at hinitrd
      exact .inl (by omega)
    · exact .inr hstaged
  · rintro ⟨hinitrd, helf⟩
    -- the areas are listed from low to high
    refine pairwise_apart_of_chain ?_
    by_cases hstaged : Staged L m
    · have hinitrd := hinitrd.resolve_right (not_not.mpr hstaged)
      rw [if_pos hstaged]
      simp only [singleton_append, isChain_cons_cons, List.IsChain.singleton, and_true,
        Region.Before]
      omega
    · rw [if_neg hstaged]
      simp only [nil_append, isChain_cons_cons, List.IsChain.singleton, and_true,
        Region.Before]
      omega

/-- What the loader writes to is apart from the prepared regions. -/
theorem BootSizes.apart (h : BootSizes L m elfSize initrdSize) (hmax : initrdSize ≤ initrdMaxSize)
    {r : Region} (hr : r ∈ preparedRegions argv initrdSize) :
    r.Apart L.codeArea ∧ r.Apart ⟨elfDataRelocStart, elfSize⟩ ∧
      (Staged L m → r.Apart L.temp ∧ r.Apart ⟨0x80000000, L.beginSize⟩) := by
  have hmax : initrdSize ≤ 0x2000000 := hmax
  have helf := h.2
  have hupper := L.upper
  have hcode := L.code
  have hbs := L.beginSize_eq
  have hinitrd (hstaged : Staged L m) : initrdSize ≤ 0x1FA0000 :=
    h.1.resolve_right (not_not.mpr hstaged)
  simp only [preparedRegions, mem_cons, not_mem_nil, or_false] at hr
  simp only [Region.apart_iff, LoaderLayout.codeArea, LoaderLayout.temp, elfCodeRelocStart,
    elfDataRelocStart, elfTempBegin]
  rcases hr with rfl | rfl | rfl
  · dsimp only [initrdRelocStart]
    exact ⟨by omega, by omega, fun hstaged => by have := hinitrd hstaged; omega⟩
  · dsimp only [devtreeArea, elfDevtreeStart, elfDevtreeMaxSize]
    exact ⟨by omega, by omega, fun _ => by omega⟩
  · dsimp only [argvBlock, elfArgvBegin]
    exact ⟨by omega, by omega, fun _ => by omega⟩

theorem BootFits.eEntry_eq (h : BootFits L m elfSize initrdSize argv) {s : ElfState}
    (hrun : elfPrepareRun L elfDataRelocStart m = .ok s) :
    eEntry s.mem elfDataRelocStart = eEntry m elfDataRelocStart := by
  have hheader := h.image.header
  have hupper := L.upper
  have hcode := L.code
  have hbs := L.beginSize_eq
  refine readWord_congr fun k hk => ?_
  have hin : Region.Has ⟨elfDataRelocStart, elfSize⟩ (elfDataRelocStart + 24 + k) :=
    Region.has_mk.mpr ⟨by omega, by omega⟩
  refine elfPrepareRun_keeps h.image h.begins.stagedWhole hrun
    (fun sh hsh => (h.image.avoids sh hsh).1.symm) (Region.Before.apart ?_).symm
    (fun _ => ⟨L.image_apart_temp elfSize, (Region.Before.apart ?_).symm⟩) hin
  · change 0x87FF0000 + L.codeSize ≤ 0x88000000
    omega
  · change 0x80000000 + L.beginSize ≤ 0x88000000
    omega

theorem argvStruct_fits : elfArgvBegin + argvStructSize ≤ 2 ^ 32 := by
  change 0x8A000000 + 12 ≤ 2 ^ 32
  omega

theorem elfPatchArgv_keeps {m : Memory} {a : Nat} (h : eEntry m elfDataRelocStart ≠ 0 →
      newArgv m + argvStructSize ≤ 2 ^ 32 ∧ ¬ Region.Has ⟨newArgv m, argvStructSize⟩ a) :
    elfPatchArgv m a = m a := by
  rw [elfPatchArgv]
  by_cases hentry : eEntry m elfDataRelocStart = 0
  · rw [if_neg (not_not.mpr hentry)]
  · rw [if_pos hentry]
    exact elfMemcpy_keeps m (h hentry).1 argvStruct_fits (h hentry).2

variable {elfldrStart elfAddr : Nat} (hm : m = elfRelocate L elfldrStart elfAddr elfSize b.mem)
include hm

/-- **From `elf_runFromMemory` to the jump** the prepared regions stay. -/
theorem BootFits.runFromMemory (h : BootFits L m elfSize initrdSize argv)
    (hsizes : BootSizes L m elfSize initrdSize) (hmax : initrdSize ≤ initrdMaxSize) {mem : Memory}
    (hjump : elfRunFromMemory L elfldrStart elfAddr elfSize b = .jumped mem) {r : Region}
    (hr : r ∈ preparedRegions argv initrdSize) {a : Nat} (ha : r.Has a) : mem a = b.mem a := by
  obtain ⟨hcode, hdata, hstaged⟩ := hsizes.apart hmax hr
  obtain ⟨s, hrun, rfl⟩ : ∃ s, elfPrepareRun L elfDataRelocStart m = .ok s ∧
      mem = elfPatchArgv s.mem := by
    delta elfRunFromMemory at hjump
    rw [← hm] at hjump
    split at hjump
    · exact BootOutcome.noConfusion hjump
    · exact ⟨_, ‹_›, (BootOutcome.jumped.inj hjump).symm⟩
  have hpatch : elfPatchArgv s.mem a = s.mem a := by
    refine elfPatchArgv_keeps fun hentry => ?_
    rw [h.eEntry_eq hrun] at hentry
    rw [LibXenon.newArgv, h.eEntry_eq hrun]
    exact ⟨(h.newArgv hentry).1, (h.newArgv hentry).2 r hr a ha⟩
  rw [hpatch, elfPrepareRun_keeps h.image h.begins.stagedWhole hrun
    (fun sh hsh => h.sections sh hsh r hr) hcode hstaged ha]
  subst hm
  refine (within_elfRelocate L elfldrStart elfAddr elfSize b.mem).keeps (fun s hs => ?_) ha
  rcases mem_cons.mp hs with rfl | hs
  · exact hcode
  · rw [mem_singleton.mp hs]
    exact hdata

/-- **The kernel is called** if no section ends below `pagetable_end`. -/
theorem BootFits.jumps (h : BootFits L m elfSize initrdSize argv) (hlong : ¬ TooShort L m) :
    ∃ s₁, Progress L m (loadedSections m) s₁ ∧
      elfPrepareRun L elfDataRelocStart m = .ok (elfFinish L elfDataRelocStart s₁) ∧
      elfRunFromMemory L elfldrStart elfAddr elfSize b =
        .jumped (elfPatchArgv (elfFinish L elfDataRelocStart s₁).mem) := by
  rcases elfPrepareRun_places h.image h.begins.stagedWhole with ⟨-, hshort⟩ | ⟨s₁, -, hend, hs₁, -⟩
  · exact absurd hshort hlong
  · refine ⟨s₁, hs₁, hend, ?_⟩
    delta elfRunFromMemory
    rw [← hm, hend]

omit hm

/-! ### The boot path -/

theorem argvBlock_apart (argv : List (List UInt8)) :
    (argvBlock argv).Apart devtreeArea ∧ (argvBlock argv).Apart initrdArea := by
  constructor
  · refine (Region.Before.apart ?_).symm
    change 0x87FE0000 + 0x10000 ≤ 0x8A000000
    omega
  · refine (Region.Before.apart ?_).symm
    change 0x85FE0000 + 0x2000000 ≤ 0x8A000000
    omega

theorem kernelPrepareInitrd_ok {start size malloc : Nat}
    (h : kernelPrepareInitrd start size malloc b = .ok b') :
    size ≤ initrdMaxSize ∧ b'.mem = copy b.mem malloc start size ∧ b'.initrdStart = some malloc ∧
      b'.initrdSize = size := by
  rw [kernelPrepareInitrd] at h
  split at h
  · cases h
  · cases h
    exact ⟨Nat.le_of_not_gt ‹_›, rfl, rfl, rfl⟩

/-- A ram disk at 0x90000000 and an image at 0x98000000. -/
def bootMemory : Memory := fun a =>
  if 0x90000000 ≤ a ∧ a < 0x94000000 then 0xAA else imageByte 1 0x80000000 0x1700 (a - 0x98000000)

/-- Device tree functions that change nothing. -/
def plainFdt : Libfdt where
  openInto _ _ := .ok fun _ => 0xD0
  pathOffset _ _ := 0
  setprop tree _ _ _ := .ok tree
  addMemRsv tree _ _ := .ok tree
  pack tree := .ok tree

def bootStart : Boot := ⟨bootMemory, none, 0, [0x72, 0x6F]⟩

/-- After the arguments and a ram disk of some size. -/
def bootPrepared (size : Nat) : Boot :=
  (kernelPrepareInitrd 0x90000000 size 0x94000000
    (elfSetArgcArgv [[0x61]] bootStart)).toOption.getD bootStart

def bootWithTree (size : Nat) : Boot :=
  (prepareDeviceTree plainFdt 0xA0000000 16 (bootPrepared size)).toOption.getD bootStart

/-- With the loader and the image at their places. -/
def bootImage (size elfSize : Nat) : Memory :=
  elfRelocate linkedLoader 0xB0000000 0x98000000 elfSize (bootWithTree size).mem

/-- The whole way, for sizes of the ram disk and of the image. -/
def bootRun (size elfSize : Nat) : BootOutcome :=
  elfRunWithDeviceTree plainFdt linkedLoader 0xB0000000 0x98000000 elfSize 0xA0000000 16
    (bootPrepared size)

theorem bootFits_bootImage :
    BootFits linkedLoader (bootImage 3 6064) 6064 3 [[0x61]] ∧
      BootFits linkedLoader (bootImage 0x2000000 6064) 6064 0x2000000 [[0x61]] ∧
      BootFits linkedLoader (bootImage 3 0x2000001) 0x2000001 3 [[0x61]] := by
  refine ⟨⟨⟨?_, ?_, ?_, ?_, ?_, ?_, ?_, ?_, ?_⟩, ?_, ?_, ?_⟩,
    ⟨⟨?_, ?_, ?_, ?_, ?_, ?_, ?_, ?_, ?_⟩, ?_, ?_, ?_⟩,
    ⟨⟨?_, ?_, ?_, ?_, ?_, ?_, ?_, ?_, ?_⟩, ?_, ?_, ?_⟩⟩
  all_goals decide +kernel

theorem not_tooShort_bootImage : ¬ TooShort linkedLoader (bootImage 3 6064) ∧
    ¬ TooShort linkedLoader (bootImage 0x2000000 6064) ∧
    ¬ TooShort linkedLoader (bootImage 3 0x2000001) := by
  decide +kernel

/-- With an entry point of 0 the memory at the jump is what the loader leaves. -/
theorem bootRun_jumps {size elfSize : Nat}
    (hfits : BootFits linkedLoader (bootImage size elfSize) elfSize size [[0x61]])
    (hlong : ¬ TooShort linkedLoader (bootImage size elfSize))
    (htree : prepareDeviceTree plainFdt 0xA0000000 16 (bootPrepared size) = .ok (bootWithTree size))
    (hentry : eEntry (bootImage size elfSize) elfDataRelocStart = 0) :
    ∃ s₁, Progress linkedLoader (bootImage size elfSize)
        (loadedSections (bootImage size elfSize)) s₁ ∧
      elfPrepareRun linkedLoader elfDataRelocStart (bootImage size elfSize) =
        .ok (elfFinish linkedLoader elfDataRelocStart s₁) ∧
      bootRun size elfSize = .jumped (elfFinish linkedLoader elfDataRelocStart s₁).mem := by
  obtain ⟨s₁, hprogress, hend, hjump⟩ := hfits.jumps (b := bootWithTree size) rfl hlong
  refine ⟨s₁, hprogress, hend, ?_⟩
  rw [bootRun, elfRunWithDeviceTree, htree]
  rw [elfPatchArgv, hfits.eEntry_eq hend, if_neg (not_not.mpr hentry)] at hjump
  exact hjump

end LibXenon
