/-
LibXenon/VfsSystem.lean

Runs of the file layer.

* Which calls stay inside `handles` and `devoptab_list`, in every state the
  tables can reach.  `__get_handle` compares with `>` where `__release_handle`
  has `>=`; `read`, `write`, `fstat` and `lseek` take a negative descriptor
  for a device number; `setDefaultDevice` accepts 16; `mkdir`, `link` and
  `rename` use the result of `FindDevice` without asking whether it is -1.
* When a path finds the device it names.  `AddDevice` takes the first slot
  that is free or has the name, whichever comes first, and `FindDevice` lets a
  name be followed by a digit.
-/
import LibXenon.Vfs

namespace LibXenon

open Transition

variable {s s' : Vfs}

/-! ### The tables -/

inductive VfsAction
  | addDevice (device : Devoptab)
  | removeDevice (path : List Char)
  | setDefaultDevice (device : CInt)
  | openFile (file : List Char) (malloc : Option Nat) (result : Int)
  | close (fileDesc : CInt)

/-- One call; a fault ends the run. -/
def vfsStep (s : Vfs) : VfsAction → Option Vfs
  | .addDevice device => some (s.addDevice device)
  | .removeDevice path => s.removeDevice path
  | .setDefaultDevice device => some (s.setDefaultDevice device)
  | .openFile file malloc result => (s.openFile file malloc result).toOption.map Prod.snd
  | .close fileDesc => (s.close fileDesc).toOption.map Prod.snd

theorem deviceAt_ok {i : Int} (h : 0 ≤ i ∧ i < 16) : s.deviceAt i = .ok (s.devoptabList i.toNat) :=
  if_pos h

theorem deviceAt_error {i : Int} (h : ¬ (0 ≤ i ∧ i < 16)) :
    s.deviceAt i = .error (.devoptabList i) :=
  if_neg h

theorem deviceAt_eq_ok {i : Int} {d : Devoptab} (h : s.deviceAt i = .ok d) : 0 ≤ i ∧ i < 16 := by
  by_contra hout
  rw [deviceAt_error hout] at h
  cases h

theorem map_eq_ok {α β : Type} {e : Except Fault α} {f : α → β} {y : β} (h : e.map f = .ok y) :
    ∃ x, e = .ok x ∧ y = f x := by
  cases e with
  | error fault => cases h
  | ok x => exact ⟨x, rfl, (Except.ok.inj h).symm⟩

/-! ### What one call does -/

/-- Only handles change, and a new one names a device of the table. -/
structure HandlesFrom (s s' : Vfs) : Prop where
  frame : s' = { s with handles := s'.handles }
  named : ∀ i h, s'.handles i = some h → s.handles i = some h ∨ 0 ≤ h.device ∧ h.device < 16

theorem HandlesFrom.refl (s : Vfs) : HandlesFrom s s := ⟨rfl, fun _ _ h => .inl h⟩

theorem HandlesFrom.setHandle (h : HandlesFrom s s') (i : Nat) {handle : Option Handle}
    (hdev : ∀ x, handle = some x → 0 ≤ x.device ∧ x.device < 16) :
    HandlesFrom s (s'.setHandle i handle) := by
  refine ⟨by rw [Vfs.setHandle, h.frame], fun j x hx => ?_⟩
  rw [Vfs.setHandle] at hx
  dsimp only at hx
  split at hx
  · exact .inr (hdev x hx)
  · exact h.named j x hx

theorem HandlesFrom.releaseHandle (h : HandlesFrom s s') (fd : CInt) :
    HandlesFrom s (s'.releaseHandle fd) := by
  rw [Vfs.releaseHandle]
  split
  · exact h
  · exact h.setHandle _ nofun

theorem handlesFrom_openOn (s : Vfs) {dev : Int} (hdev : 0 ≤ dev ∧ dev < 16)
    (malloc : Option Nat) (result : Int) : HandlesFrom s (s.openOn dev malloc result).2 := by
  unfold Vfs.openOn
  rcases s.freeHandle with - | i
  · exact HandlesFrom.refl s
  · rcases malloc with - | handle
    · exact HandlesFrom.refl s
    · have hset : HandlesFrom s (s.setHandle i (some ⟨dev, handle + 8⟩)) :=
        (HandlesFrom.refl s).setHandle i fun x hx => by
          cases hx
          exact hdev
      dsimp only
      split
      · exact hset.releaseHandle _
      · exact hset

theorem handlesFrom_openFile {file : List Char} {malloc : Option Nat} {result : Int} {a : Answer}
    (hs : s.openFile file malloc result = .ok (a, s')) : HandlesFrom s s' := by
  rw [Vfs.openFile] at hs
  split at hs
  · cases hs
    exact HandlesFrom.refl s
  · -- an entry that was read is in the table, and so is the device of the handle
    obtain ⟨device, hd, hx⟩ := map_eq_ok hs
    split at hx
    · have hopen := handlesFrom_openOn s (deviceAt_eq_ok hd) malloc result
      rw [← hx] at hopen
      exact hopen
    · cases hx
      exact HandlesFrom.refl s

theorem close_cases {fd : CInt} {a : Answer} (hs : s.close fd = .ok (a, s')) :
    s' = s.releaseHandle fd ∨ s' = s ∧ (fd.toInt = -1 ∨ s.getHandle fd = .ok none) := by
  rw [Vfs.close] at hs
  split at hs
  · cases hs
    exact .inr ⟨rfl, .inl ‹_›⟩
  · rcases hg : s.getHandle fd with f | - | handle <;> rw [hg] at hs
    · cases hs
    · cases hs
      exact .inr ⟨rfl, .inr rfl⟩
    · obtain ⟨answer, -, hx⟩ := map_eq_ok hs
      cases hx
      exact .inl rfl

theorem handlesFrom_close {fd : CInt} {a : Answer} (hs : s.close fd = .ok (a, s')) :
    HandlesFrom s s' := by
  rcases close_cases hs with rfl | ⟨rfl, -⟩
  · exact (HandlesFrom.refl s).releaseHandle fd
  · exact HandlesFrom.refl _

/-- What a call does to the tables: `AddDevice` fills the slot it chose,
`RemoveDevice` frees one, `setDefaultDevice` lets 16 pass, and everything else
changes handles only. -/
inductive VfsEffect (s : Vfs) : VfsAction → Vfs → Prop
  | add {device : Devoptab} {k : Nat} (hslot : s.addSlot device.name = some k) :
      VfsEffect s (.addDevice device) (s.setDevice k device)
  | free {path : List Char} (k : Nat) :
      VfsEffect s (.removeDevice path) (s.setDevice k dotabStdnull)
  | default {device : CInt} (hlow : 3 ≤ device.toInt) (hhigh : device.toInt ≤ 16) :
      VfsEffect s (.setDefaultDevice device) { s with defaultDevice := device.toInt }
  | handles {a : VfsAction} {s' : Vfs} (h : HandlesFrom s s') : VfsEffect s a s'

theorem VfsEffect.refl (s : Vfs) (a : VfsAction) : VfsEffect s a s := .handles (HandlesFrom.refl s)

theorem toOption_map_snd {e : Except Fault (Answer × Vfs)}
    (h : e.toOption.map Prod.snd = some s') : ∃ a, e = .ok (a, s') := by
  cases e with
  | error fault => cases h
  | ok x =>
    cases h
    exact ⟨x.1, rfl⟩

/-- **Every call** has one of these effects. -/
theorem vfsStep_effect {a : VfsAction} (hs : vfsStep s a = some s') : VfsEffect s a s' := by
  cases a with
  | addDevice device =>
    obtain rfl := Option.some.inj hs
    unfold Vfs.addDevice
    rcases hslot : s.addSlot device.name with - | k
    · exact VfsEffect.refl s _
    · exact .add hslot
  | removeDevice path =>
    rw [vfsStep, Vfs.removeDevice] at hs
    split at hs
    · cases hs
      exact VfsEffect.refl s _
    · split at hs
      · cases hs
        exact .free _
      · cases hs
  | setDefaultDevice device =>
    obtain rfl := Option.some.inj hs
    rw [Vfs.setDefaultDevice]
    split
    · rename_i hin
      exact .default hin.1 hin.2
    · exact VfsEffect.refl s _
  | openFile file malloc result =>
    obtain ⟨a, ho⟩ := toOption_map_snd hs
    exact .handles (handlesFrom_openFile ho)
  | close fd =>
    obtain ⟨a, hc⟩ := toOption_map_snd hs
    exact .handles (handlesFrom_close hc)

/-- What a call relies on: handles name devices of the table. -/
structure VfsSound (s : Vfs) : Prop where
  default : s.defaultDevice = -1 ∨ 3 ≤ s.defaultDevice ∧ s.defaultDevice ≤ 16
  handles : ∀ i h, s.handles i = some h → 0 ≤ h.device ∧ h.device < 16

theorem VfsSound.start : VfsSound Vfs.start := ⟨.inl rfl, nofun⟩

theorem VfsSound.step {a : VfsAction} (h : VfsSound s) (hs : vfsStep s a = some s') :
    VfsSound s' := by
  cases vfsStep_effect hs with
  | add hslot | free k => exact ⟨h.default, h.handles⟩
  | default hlow hhigh => exact ⟨.inr ⟨hlow, hhigh⟩, h.handles⟩
  | handles hfrom =>
    refine ⟨?_, fun i x hx => ?_⟩
    · rw [hfrom.frame]
      exact h.default
    · rcases hfrom.named i x hx with hold | hnew
      · exact h.handles i x hold
      · exact hnew

theorem vfsSound_of_reach {G : Vfs → VfsAction → Prop} (hrun : Reach vfsStep G .start s) :
    VfsSound s :=
  hrun.invariant VfsSound.start fun _ _ _ h _ hs => h.step hs

/-! ### Where a path or a descriptor leads -/

/-- No device: the path has a colon and no name of the table fits, or it has
none and there is no default device. -/
def Vfs.unresolved (s : Vfs) (path : List Char) : Bool :=
  if ':' ∈ path then
    (List.range stdMax).all fun i => !matchesName (s.devoptabList i).name path
  else s.defaultDevice == -1

/-- The entry behind the table, which can be the default device. -/
def Vfs.offTable (s : Vfs) (path : List Char) : Bool :=
  !decide (':' ∈ path) && s.defaultDevice == 16

theorem findDevice_of_colon (s : Vfs) {path : List Char} (hc : ':' ∈ path) :
    s.findDevice path = -1 ∧ s.unresolved path = true ∨
      (0 ≤ s.findDevice path ∧ s.findDevice path < 16) ∧ s.unresolved path = false := by
  rw [Vfs.findDevice, if_pos hc, Vfs.unresolved, if_pos hc]
  rcases hf : (List.range stdMax).find? fun i => matchesName (s.devoptabList i).name path
    with - | i
  · refine .inl ⟨rfl, List.all_eq_true.mpr fun i hi => ?_⟩
    have hno := List.find?_eq_none.mp hf i hi
    rw [Bool.not_eq_true] at hno
    rw [hno]
    rfl
  · have hmem : i < 16 := List.mem_range.mp (List.mem_of_find?_eq_some hf)
    have hfit := List.find?_some hf
    refine .inr ⟨⟨by dsimp only; omega, by dsimp only; omega⟩, List.all_eq_false.mpr ?_⟩
    refine ⟨i, List.mem_range.mpr hmem, ?_⟩
    rw [hfit]
    decide

theorem VfsSound.findDevice (h : VfsSound s) (path : List Char) :
    (s.findDevice path = -1 ↔ s.unresolved path = true) ∧
      (s.findDevice path = 16 ↔ s.offTable path = true) ∧
      -1 ≤ s.findDevice path ∧ s.findDevice path ≤ 16 := by
  by_cases hc : ':' ∈ path
  · have hoff : s.offTable path = false := by
      rw [Vfs.offTable, decide_eq_true hc]
      rfl
    rw [hoff]
    rcases findDevice_of_colon s hc with ⟨hfind, hun⟩ | ⟨hfind, hun⟩
    · rw [hun, hfind]
      simp
    · rw [hun]
      refine ⟨⟨fun heq => ?_, nofun⟩, ⟨fun heq => ?_, nofun⟩, ?_, ?_⟩
      all_goals omega
  · -- without a colon the default device is the answer
    have hdefault := h.default
    rw [Vfs.findDevice, if_neg hc, Vfs.unresolved, if_neg hc, Vfs.offTable, decide_eq_false hc,
      Bool.not_false, Bool.true_and, beq_iff_eq, beq_iff_eq]
    refine ⟨Iff.rfl, Iff.rfl, ?_, ?_⟩
    all_goals omega

/-- `__get_handle` above the standard descriptors. -/
theorem getHandle_cases (s : Vfs) {fd : CInt} (h : 3 ≤ fd.toInt) :
    (1027 < fd.toInt → s.getHandle fd = .ok none) ∧
      (fd.toInt = 1027 → s.getHandle fd = .error (.handles 1024)) ∧
      (fd.toInt < 1027 → s.getHandle fd = .ok (s.handles (fd.toInt - 3).toNat)) := by
  have hmax : ((maxHandles : Nat) : Int) = 1024 := rfl
  refine ⟨fun hfd => if_pos (.inr (by omega)), fun hfd => ?_, fun hfd => ?_⟩
  · rw [Vfs.getHandle, Vfs.handleAt, if_neg (by omega), hfd]
    rfl
  · rw [Vfs.getHandle, if_neg (by omega), Vfs.handleAt, if_pos (by omega)]

/-! ### Calls inside the tables -/

/-- The calls that take a path or a descriptor. -/
inductive VfsCall
  | openFile (file : List Char) (malloc : Option Nat) (result : Int)
  | read (fd : CInt)
  | write (len : Int) (fd : CInt)
  | fstat (fd : CInt)
  | lseek (fd : CInt)
  | ftruncate (fd : CInt)
  | fsync (fd : CInt)
  | close (fd : CInt)
  | link (existing new : List Char)
  | rename (existing new : List Char)
  | unlink (path : List Char)
  | stat (path : List Char)
  | statvfs (path : List Char)
  | mkdir (path : List Char)

def Vfs.call (s : Vfs) : VfsCall → Except Fault Answer
  | .openFile file malloc result => (s.openFile file malloc result).map Prod.fst
  | .read fd => s.read fd
  | .write len fd => s.write len fd
  | .fstat fd => s.fstat fd
  | .lseek fd => s.lseek fd
  | .ftruncate fd => s.ftruncate fd
  | .fsync fd => s.fsync fd
  | .close fd => (s.close fd).map Prod.fst
  | .link existing new => s.link existing new
  | .rename existing new => s.rename existing new
  | .unlink path => s.unlink path
  | .stat path => s.stat path
  | .statvfs path => s.statvfs path
  | .mkdir path => s.mkdir path

/-- The path leads to an entry of the table. -/
def Vfs.inTable (s : Vfs) (path : List Char) : Prop :=
  0 ≤ s.findDevice path ∧ s.findDevice path < 16

/-- The call has no entry of the tables to use: a descriptor that is neither
standard nor the number of a handle, or a path without a device. -/
def Vfs.outside (s : Vfs) : VfsCall → Prop
  | .read fd | .write _ fd | .fstat fd | .lseek fd => fd.toInt < 0 ∨ 1027 ≤ fd.toInt
  | .ftruncate fd | .fsync fd | .close fd => fd.toInt < 3 ∨ 1027 ≤ fd.toInt
  | .openFile path _ _ | .unlink path | .stat path | .statvfs path | .mkdir path =>
    ¬ s.inTable path
  | .link existing new | .rename existing new => ¬ s.inTable existing ∨ ¬ s.inTable new

def Answer.isError : Answer → Bool
  | .ret value _ => value == -1
  | .driver _ _ _ => false

/-- No fault, and an error if there is no entry to use. -/
def Returns (e : Except Fault Answer) (outside : Prop) : Prop :=
  ∃ a, e = .ok a ∧ (outside → a.isError = true)

/-- The call indexes both tables inside their bounds, and returns an error if
there is no entry to use. -/
def Safe (s : Vfs) (c : VfsCall) : Prop := Returns (s.call c) (s.outside c)

/-- The arguments for which a call is safe. -/
def allowed (s : Vfs) : VfsCall → Bool
  | .read fd | .write _ fd | .fstat fd | .lseek fd => -1 ≤ fd.toInt && fd.toInt != 1027
  | .ftruncate fd | .fsync fd | .close fd => fd.toInt != 1027
  | .openFile path _ _ | .unlink path | .stat path | .statvfs path => !s.offTable path
  | .mkdir path => !s.offTable path && !s.unresolved path
  | .link existing new | .rename existing new =>
    !(s.offTable existing && s.offTable new) && !(s.unresolved existing && s.unresolved new)

theorem returns_error {value : Int} {errno : Option Errno} {outside : Prop} (h : value = -1) :
    Returns (.ok (.ret value errno)) outside :=
  ⟨_, rfl, fun _ => beq_iff_eq.mpr h⟩

theorem not_returns_fault {fault : Fault} {outside : Prop} : ¬ Returns (.error fault) outside :=
  fun ⟨_, h, _⟩ => nomatch h

theorem dispatch_returns {dev fd : Int} {method : Method} {absent : Answer} {outside : Prop}
    (h : 0 ≤ dev ∧ dev < 16) (hin : ¬ outside) :
    Returns (s.dispatch dev method fd absent) outside := by
  rw [Vfs.dispatch, deviceAt_ok h]
  exact ⟨_, rfl, fun hout => absurd hout hin⟩

theorem dispatch_faults {dev fd : Int} {method : Method} {absent : Answer} {outside : Prop}
    (h : ¬ (0 ≤ dev ∧ dev < 16)) : ¬ Returns (s.dispatch dev method fd absent) outside := by
  rw [Vfs.dispatch, deviceAt_error h]
  exact not_returns_fault

theorem asUnsigned_of_nonneg {i : Int} (h : 0 ≤ i) (hlt : i < 2 ^ 31) : asUnsigned i = i := by
  rw [asUnsigned]
  omega

theorem asUnsigned_of_neg {i : Int} (h : i < 0) (hle : -2 ^ 31 ≤ i) : 16 ≤ asUnsigned i := by
  rw [asUnsigned]
  omega

theorem VfsSound.dispatch_handle (h : VfsSound s) {i : Nat} {handle : Handle} {method : Method}
    {absent : Answer} {outside : Prop} (hh : s.handles i = some handle) (hin : ¬ outside) :
    Returns (s.dispatch (asUnsigned handle.device) method handle.fileStruct absent) outside := by
  have hdev := h.handles i handle hh
  refine dispatch_returns ?_ hin
  rw [asUnsigned_of_nonneg hdev.1 (by omega)]
  exact hdev

/-- A call through `__get_handle` that answers without a handle and can use the
device of one. -/
theorem returns_getHandle_iff {fd : CInt} (hge : 3 ≤ fd.toInt)
    {k : Option Handle → Except Fault Answer} {outside : Prop}
    (hout : outside → 1027 ≤ fd.toInt) (hnone : Returns (k none) outside)
    (hsome : ∀ i handle, s.handles i = some handle → ¬ outside →
      Returns (k (some handle)) outside) :
    Returns ((s.getHandle fd).bind k) outside ↔ fd.toInt ≠ 1027 := by
  obtain ⟨habove, hat, hbelow⟩ := getHandle_cases s hge
  rcases Int.lt_trichotomy fd.toInt 1027 with hlt | heq | hgt
  · rw [hbelow hlt]
    refine ⟨fun _ => by omega, fun _ => ?_⟩
    rcases hh : s.handles (fd.toInt - 3).toNat with - | handle
    · exact hnone
    · exact hsome _ handle hh fun ho => absurd (hout ho) (by omega)
  · rw [hat heq]
    exact ⟨fun hr => absurd hr not_returns_fault, fun hc => absurd heq hc⟩
  · rw [habove hgt]
    exact ⟨fun _ => by omega, fun _ => hnone⟩

/-- `read`, `write`, `fstat` and `lseek`. -/
theorem VfsSound.fdCall_iff (h : VfsSound s) (method : Method) (absent : Bool → Answer)
    (fd : CInt) :
    Returns (s.fdCall method absent fd) (fd.toInt < 0 ∨ 1027 ≤ fd.toInt) ↔
      -1 ≤ fd.toInt ∧ fd.toInt ≠ 1027 := by
  have hlow : -2 ^ 31 ≤ fd.toInt := BitVec.le_toInt fd
  rw [Vfs.fdCall]
  split
  · exact ⟨fun _ => by omega, fun _ => returns_error rfl⟩
  · split
    · by_cases hneg : fd.toInt < 0
      · -- cast to unsigned, a negative number lies far behind the table
        have hbig := asUnsigned_of_neg hneg hlow
        refine ⟨fun hr => absurd hr (dispatch_faults (by omega)), fun hc => ?_⟩
        omega
      · refine ⟨fun _ => by omega, fun _ => dispatch_returns ?_ (by omega)⟩
        rw [asUnsigned_of_nonneg (by omega) (by omega)]
        omega
    · rename_i hne hge
      rw [returns_getHandle_iff (Int.not_lt.mp hge) (by omega) (returns_error rfl)
        fun _ _ hh => h.dispatch_handle hh]
      omega

/-- `ftruncate` and `fsync`. -/
theorem VfsSound.handleCall_iff (h : VfsSound s) (method : Method) (fd : CInt) :
    Returns (s.handleCall method fd) (fd.toInt < 3 ∨ 1027 ≤ fd.toInt) ↔ fd.toInt ≠ 1027 := by
  rw [Vfs.handleCall]
  split
  · exact ⟨fun _ => by omega, fun _ => returns_error rfl⟩
  · rename_i hge
    exact returns_getHandle_iff (Int.not_lt.mp hge) (by omega) (returns_error rfl)
      fun _ _ hh => h.dispatch_handle hh

/-- The answer of `close`, without what becomes of the handle. -/
theorem close_answer (s : Vfs) (fd : CInt) :
    (s.close fd).map Prod.fst =
      if fd.toInt = -1 then .ok (.ret (-1) none)
      else (s.getHandle fd).bind fun
        | none => .ok (.ret (-1) none)
        | some handle =>
          s.dispatch (asUnsigned handle.device) .closeR handle.fileStruct (.ret (-1) none) := by
  rw [Vfs.close]
  split
  · rfl
  · rcases s.getHandle fd with fault | handle
    · rfl
    · rcases handle with - | handle
      · rfl
      · change ((s.dispatch _ _ _ _).map _).map _ = s.dispatch _ _ _ _
        cases s.dispatch (asUnsigned handle.device) .closeR handle.fileStruct (.ret (-1) none) with
        | error fault | ok answer => rfl

theorem VfsSound.close_iff (h : VfsSound s) (fd : CInt) :
    Returns ((s.close fd).map Prod.fst) (fd.toInt < 3 ∨ 1027 ≤ fd.toInt) ↔ fd.toInt ≠ 1027 := by
  rw [close_answer]
  split
  · exact ⟨fun _ => by omega, fun _ => returns_error rfl⟩
  · by_cases hlow : fd.toInt < 3
    · rw [Vfs.getHandle, if_pos (.inl hlow)]
      exact ⟨fun _ => by omega, fun _ => returns_error rfl⟩
    · exact returns_getHandle_iff (Int.not_lt.mp hlow) (by omega) (returns_error rfl)
        fun _ _ hh => h.dispatch_handle hh

theorem dispatch_path_iff {path : List Char} {method : Method} {absent : Answer} {outside : Prop}
    (hout : outside → ¬ s.inTable path) :
    Returns (s.dispatch (s.findDevice path) method (-1) absent) outside ↔ s.inTable path := by
  by_cases hin : s.inTable path
  · exact ⟨fun _ => hin, fun _ => dispatch_returns hin fun ho => hout ho hin⟩
  · exact ⟨fun hr => absurd hr (dispatch_faults hin), fun hin' => absurd hin' hin⟩

theorem VfsSound.inTable_iff (h : VfsSound s) (path : List Char) :
    s.inTable path ↔ s.offTable path = false ∧ s.unresolved path = false := by
  obtain ⟨hun, hoff, hlow, hhigh⟩ := h.findDevice path
  rw [← Bool.not_eq_true, ← Bool.not_eq_true, ← hun, ← hoff, Vfs.inTable]
  omega

/-- `stat`, `statvfs` and `unlink`. -/
theorem VfsSound.pathCall_iff (h : VfsSound s) (method : Method) (errno : Errno)
    (path : List Char) :
    Returns (s.pathCall method errno path) (¬ s.inTable path) ↔ s.offTable path = false := by
  obtain ⟨hun, hoff, hlow, hhigh⟩ := h.findDevice path
  rw [Vfs.pathCall, ← Bool.not_eq_true, ← hoff]
  split
  · exact ⟨fun _ => by omega, fun _ => returns_error rfl⟩
  · rw [dispatch_path_iff id, Vfs.inTable]
    omega

theorem VfsSound.mkdir_iff (h : VfsSound s) (path : List Char) :
    Returns (s.mkdir path) (¬ s.inTable path) ↔
      s.offTable path = false ∧ s.unresolved path = false := by
  rw [Vfs.mkdir, dispatch_path_iff id, h.inTable_iff path]

/-- `link` and `rename`. -/
theorem VfsSound.pairCall_iff (h : VfsSound s) (method : Method) (existing new : List Char) :
    Returns (s.pairCall method existing new) (¬ s.inTable existing ∨ ¬ s.inTable new) ↔
      ¬ (s.offTable existing = true ∧ s.offTable new = true) ∧
        ¬ (s.unresolved existing = true ∧ s.unresolved new = true) := by
  obtain ⟨hun, hoff, hlow, hhigh⟩ := h.findDevice existing
  obtain ⟨hun', hoff', hlow', hhigh'⟩ := h.findDevice new
  rw [Vfs.pairCall, ← hun, ← hun', ← hoff, ← hoff']
  split
  · rename_i heq
    have hsame : s.inTable existing ↔ s.inTable new := by rw [Vfs.inTable, heq, Vfs.inTable]
    rw [dispatch_path_iff (by rw [hsame]; exact or_self_iff.mp), Vfs.inTable]
    omega
  · exact ⟨fun _ => by omega, fun _ => returns_error rfl⟩

theorem VfsSound.openFile_iff (h : VfsSound s) (file : List Char) (malloc : Option Nat)
    (result : Int) :
    Returns ((s.openFile file malloc result).map Prod.fst) (¬ s.inTable file) ↔
      s.offTable file = false := by
  obtain ⟨hun, hoff, hlow, hhigh⟩ := h.findDevice file
  rw [Vfs.openFile, ← Bool.not_eq_true, ← hoff]
  split
  · exact ⟨fun _ => by omega, fun _ => returns_error rfl⟩
  · by_cases hin : s.inTable file
    · rw [deviceAt_ok hin]
      refine ⟨fun _ => ?_, fun _ => ⟨_, rfl, fun hout => absurd hin hout⟩⟩
      rw [Vfs.inTable] at hin
      omega
    · rw [deviceAt_error hin]
      refine ⟨fun hr => absurd hr not_returns_fault, fun hne => ?_⟩
      rw [Vfs.inTable] at hin
      omega

/-- **Bounds.**  In every state the tables can reach, a call is safe exactly
for the arguments that are allowed. -/
theorem safe_iff_allowed (hrun : Reach vfsStep (fun _ _ => True) .start s) (c : VfsCall) :
    Safe s c ↔ allowed s c = true := by
  have h := vfsSound_of_reach hrun
  cases c with
  | openFile file malloc result =>
    rw [allowed, Bool.not_eq_true']
    exact h.openFile_iff file malloc result
  | read fd | write len fd | fstat fd | lseek fd =>
    simp only [Safe, Vfs.call, Vfs.read, Vfs.write, Vfs.fstat, Vfs.lseek, allowed,
      Bool.and_eq_true, decide_eq_true_eq, bne_iff_ne]
    exact h.fdCall_iff _ _ fd
  | ftruncate fd | fsync fd =>
    rw [allowed, bne_iff_ne]
    exact h.handleCall_iff _ fd
  | close fd =>
    rw [allowed, bne_iff_ne]
    exact h.close_iff fd
  | link existing new | rename existing new =>
    rw [allowed]
    simp only [Bool.and_eq_true, Bool.not_eq_true', ← Bool.not_eq_true]
    exact h.pairCall_iff _ existing new
  | unlink path | stat path | statvfs path =>
    rw [allowed, Bool.not_eq_true']
    exact h.pathCall_iff _ _ path
  | mkdir path =>
    rw [allowed, Bool.and_eq_true, Bool.not_eq_true', Bool.not_eq_true']
    exact h.mkdir_iff path

/-- A driver with all functions. -/
def usbDriver : Devoptab := ⟨2, "usb".toList, fun _ => true⟩

/-- With a file open on a device, its descriptor can be read and 1027 cannot. -/
theorem safe_read_of_open : ∃ s, Reach vfsStep (fun _ _ => True) .start s ∧
    (s.handles 0).map Handle.device = some 3 ∧ Safe s (.read 3) ∧ ¬ Safe s (.read 1027) := by
  refine exists_reach_imp [.addDevice usbDriver, .openFile "usb:a".toList (some 64) 0]
    (fun s => (s.handles 0).map Handle.device = some 3) (by decide +kernel)
    fun s hreach hdev => ⟨hdev, (safe_iff_allowed hreach (.read 3)).mpr rfl, ?_⟩
  have hno : allowed s (.read 1027) = false := rfl
  rw [safe_iff_allowed hreach, hno]
  exact Bool.false_ne_true

/-- Descriptor 1027 is index 1024 of `handles`; descriptor -2 is a large device
number; the default device 16 is the entry behind the table; and a path of no
device is entry -1 for `mkdir` and `rename`. -/
theorem calls_outside_tables : ∃ s, Reach vfsStep (fun _ _ => True) .start s ∧
    s.read 1027 = .error (.handles 1024) ∧
    s.write 1 (-2) = .error (.devoptabList 4294967294) ∧
    s.unlink "x".toList = .error (.devoptabList 16) ∧
    s.mkdir "x:".toList = .error (.devoptabList (-1)) ∧
    s.rename "x:".toList "y:".toList = .error (.devoptabList (-1)) := by
  refine ⟨Vfs.start.setDefaultDevice 16,
    Reach.tail (a := .setDefaultDevice 16) Reach.refl trivial rfl, ?_, ?_, ?_, ?_, ?_⟩
  · rfl
  · rfl
  · rfl
  · rfl
  · rfl

end LibXenon
