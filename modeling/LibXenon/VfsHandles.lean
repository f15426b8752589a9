/-
LibXenon/VfsHandles.lean

Open descriptors and the drivers behind them.

`open` takes the first free handle and writes into it the number of the slot
its device was found in; `read`, `write`, `lseek`, `fstat` and `close` go to
whatever the slot holds when they are called.  `AddDevice` and `RemoveDevice`
replace the entry of a slot without looking at the handles.

* The set of open descriptors changes as it should in every run: `open` adds
  one that was not open or changes nothing, `close` removes the one it is given
  (`openFile_descriptors`, `isOpen_step`).
* The driver table behind a descriptor is the one that opened it as long as no
  slot with an open file on it is given to another device
  (`descriptors_of_reach`); else it need not be (`read_reaches_other_driver`).
-/
import LibXenon.VfsSystem

namespace LibXenon

open Transition

/-! ### Open descriptors -/

/-- The descriptor is the number of a handle in use. -/
def Vfs.isOpen (s : Vfs) (fd : CInt) : Prop :=
  3 ≤ fd.toInt ∧ fd.toInt < 1027 ∧ s.handles (fd.toInt - 3).toNat ≠ none

variable {s s' : Vfs}
variable {fd : CInt} {i : Nat} {file : List Char} {answer : Answer} {malloc : Option Nat}
variable {result : Int}

theorem getHandle_of_isOpen (h : s.isOpen fd) :
    ∃ handle, s.handles (fd.toInt - 3).toNat = some handle ∧ s.getHandle fd = .ok (some handle) := by
  obtain ⟨handle, hh⟩ := Option.ne_none_iff_exists'.mp h.2.2
  refine ⟨handle, hh, ?_⟩
  rw [(getHandle_cases s h.1).2.2 h.2.1, hh]

/-- The descriptor of a handle. -/
def fdOf (i : Nat) : CInt := BitVec.ofNat 32 (i + 3)

theorem toInt_fdOf (h : i < 1024) : (fdOf i).toInt = i + 3 := by
  rw [fdOf, BitVec.toInt_ofNat', Int.bmod_def]
  omega

theorem fdOf_eq_iff (h : i < 1024) :
    fd = fdOf i ↔ 3 ≤ fd.toInt ∧ fd.toInt < 1027 ∧ (fd.toInt - 3).toNat = i := by
  rw [← BitVec.toInt_inj, toInt_fdOf h]
  omega

theorem freeHandle_spec (h : s.freeHandle = some i) : i < 1024 ∧ s.handles i = none := by
  unfold Vfs.freeHandle at h
  have hmem : i < maxHandles := List.mem_range.mp (List.mem_of_find?_eq_some h)
  have hnone := List.find?_some h
  exact ⟨hmem, Option.isNone_iff_eq_none.mp hnone⟩

theorem isOpen_setHandle (hi : i < 1024) (handle : Handle) (fd : CInt) :
    (s.setHandle i (some handle)).isOpen fd ↔ fd = fdOf i ∨ s.isOpen fd := by
  rw [fdOf_eq_iff hi, Vfs.isOpen, Vfs.isOpen, Vfs.setHandle]
  dsimp only
  by_cases hfd : (fd.toInt - 3).toNat = i
  · simp only [hfd, if_true]
    simp only [ne_eq, reduceCtorEq, not_false_eq_true, and_true]
    omega
  · simp only [hfd, if_false, and_false, false_or]

theorem isOpen_releaseHandle (fd fd' : CInt) :
    (s.releaseHandle fd).isOpen fd' ↔ s.isOpen fd' ∧ fd' ≠ fd := by
  have hmax : ((maxHandles : Nat) : Int) = 1024 := rfl
  rw [← BitVec.toInt_ne]
  unfold Vfs.releaseHandle Vfs.isOpen
  split
  · rename_i hout
    constructor
    · rintro ⟨hlow, hhigh, hopen⟩
      exact ⟨⟨hlow, hhigh, hopen⟩, by omega⟩
    · exact And.left
  · rename_i hin
    rw [Vfs.setHandle]
    dsimp only
    by_cases heq : fd'.toInt = fd.toInt
    · rw [heq, if_pos rfl]
      exact ⟨fun h => absurd rfl h.2.2, fun h => absurd rfl h.2⟩
    · constructor
      · rintro ⟨hlow, hhigh, hopen⟩
        rw [if_neg (by omega)] at hopen
        exact ⟨⟨hlow, hhigh, hopen⟩, heq⟩
      · rintro ⟨⟨hlow, hhigh, hopen⟩, -⟩
        rw [if_neg (by omega)]
        exact ⟨hlow, hhigh, hopen⟩

/-! ### What `open` and `close` do -/

/-- What an `open` comes to: an error and the same handles, or a descriptor
that was not in use and a handle that names the slot of the device. -/
inductive Opens (s : Vfs) (file : List Char) : Answer → Vfs → Prop
  | fails (errno : Option Errno) : Opens s file (.ret (-1) errno) s
  | succeeds (i fileStruct : Nat) (hfree : i < 1024 ∧ s.handles i = none)
      (hdev : 0 ≤ s.findDevice file ∧ s.findDevice file < 16) :
      Opens s file (.ret (i + 3) none) (s.setHandle i (some ⟨s.findDevice file, fileStruct⟩))

theorem releaseHandle_setHandle (hfree : i < 1024 ∧ s.handles i = none)
    (handle : Handle) : (s.setHandle i (some handle)).releaseHandle (fdOf i) = s := by
  have hfd := toInt_fdOf hfree.1
  have hmax : ((maxHandles : Nat) : Int) = 1024 := rfl
  rw [Vfs.releaseHandle, if_neg (by omega), hfd]
  have hi : ((i : Int) + 3 - 3).toNat = i := by omega
  rw [hi]
  unfold Vfs.setHandle
  have hback : (fun j => if j = i then none else if j = i then some handle else s.handles j) =
      s.handles := by
    funext j
    by_cases hj : j = i
    · rw [if_pos hj, hj, hfree.2]
    · rw [if_neg hj, if_neg hj]
  dsimp only
  rw [hback]

theorem opens_openOn (hdev : 0 ≤ s.findDevice file ∧ s.findDevice file < 16)
    (malloc : Option Nat) (result : Int) :
    Opens s file (s.openOn (s.findDevice file) malloc result).1
      (s.openOn (s.findDevice file) malloc result).2 := by
  unfold Vfs.openOn
  rcases hf : s.freeHandle with - | i
  · exact .fails _
  · have hfree := freeHandle_spec hf
    rcases malloc with - | handle
    · exact .fails _
    · dsimp only
      split
      · -- the driver refused: the handle goes back
        have hback := releaseHandle_setHandle hfree ⟨s.findDevice file, handle + 8⟩
        rw [fdOf] at hback
        rw [hback]
        exact .fails none
      · exact .succeeds i (handle + 8) hfree hdev

theorem opens_openFile
    (hs : s.openFile file malloc result = .ok (answer, s')) : Opens s file answer s' := by
  rw [Vfs.openFile] at hs
  split at hs
  · cases hs
    exact .fails _
  · obtain ⟨device, hd, hx⟩ := map_eq_ok hs
    split at hx
    · have hopen := opens_openOn (deviceAt_eq_ok hd) malloc result
      rw [← hx] at hopen
      exact hopen
    · cases hx
      exact .fails _

/-- An `open` that fails leaves the handles as they are; one that succeeds
returns a descriptor that was not open and adds just that one. -/
theorem openFile_descriptors (hs : s.openFile file malloc result = .ok (answer, s')) :
    (∃ errno, answer = .ret (-1) errno ∧ s' = s) ∨
      ∃ fd : CInt, answer = .ret fd.toInt none ∧ 3 ≤ fd.toInt ∧ ¬ s.isOpen fd ∧
        ∀ fd', s'.isOpen fd' ↔ fd' = fd ∨ s.isOpen fd' := by
  cases opens_openFile hs with
  | fails errno => exact .inl ⟨errno, rfl, rfl⟩
  | succeeds i fileStruct hfree hdev =>
    have hfd := toInt_fdOf hfree.1
    refine .inr ⟨fdOf i, by rw [hfd], by omega, fun hopen => ?_, isOpen_setHandle hfree.1 _⟩
    have hi : ((fdOf i).toInt - 3).toNat = i := by omega
    exact hopen.2.2 (by rw [hi]; exact hfree.2)

/-- `close` frees the handle of an open descriptor and does nothing else. -/
theorem close_descriptors (hs : s.close fd = .ok (answer, s')) :
    s' = s.releaseHandle fd ∨ s' = s ∧ ¬ s.isOpen fd := by
  refine (close_cases hs).imp_right fun ⟨heq, hnot⟩ => ⟨heq, fun hopen => ?_⟩
  obtain ⟨handle, -, hsome⟩ := getHandle_of_isOpen hopen
  rcases hnot with hneg | hnone
  · exact absurd hopen.1 (by omega)
  · cases hnone.symm.trans hsome

theorem isOpen_close {fd fd' : CInt} (hs : vfsStep s (.close fd) = some s') :
    s'.isOpen fd' ↔ s.isOpen fd' ∧ fd' ≠ fd := by
  obtain ⟨answer, hc⟩ := toOption_map_snd hs
  rcases close_descriptors hc with rfl | ⟨rfl, hclosed⟩
  · exact isOpen_releaseHandle fd fd'
  · exact ⟨fun hopen => ⟨hopen, fun heq => hclosed (heq ▸ hopen)⟩, And.left⟩

/-! ### Which driver opened a descriptor -/

/-- The tables, and the driver table whose `open_r` was called for each
descriptor that was opened and not closed since. -/
structure Files where
  vfs : Vfs
  openedBy : CInt → Option Devoptab

def Files.start : Files := ⟨.start, fun _ => none⟩

/-- What the history becomes with a call. -/
def Files.record (s : Files) : VfsAction → CInt → Option Devoptab
  | .openFile file malloc result =>
    match s.vfs.openFile file malloc result with
    | .ok (.ret value _, _) =>
      if value = -1 then s.openedBy
      else fun fd =>
        if fd = BitVec.ofInt 32 value then (s.vfs.deviceAt (s.vfs.findDevice file)).toOption
        else s.openedBy fd
    | .ok (.driver _ _ _, _) | .error _ => s.openedBy
  | .close fileDesc => fun fd => if fd = fileDesc then none else s.openedBy fd
  | .addDevice _ | .removeDevice _ | .setDefaultDevice _ => s.openedBy

def fileStep (s : Files) (a : VfsAction) : Option Files :=
  (vfsStep s.vfs a).map fun vfs => ⟨vfs, s.record a⟩

variable {t t' : Files}

theorem fileStep_eq_some {a : VfsAction} :
    fileStep t a = some t' ↔ vfsStep t.vfs a = some t'.vfs ∧ t'.openedBy = t.record a := by
  rw [fileStep, Option.map_eq_some_iff]
  constructor
  · rintro ⟨vfs, hs, rfl⟩
    exact ⟨hs, rfl⟩
  · rintro ⟨hs, hrec⟩
    exact ⟨t'.vfs, hs, by rw [← hrec]⟩

theorem reach_vfs {G : Files → VfsAction → Prop} (hrun : Reach fileStep G .start t) :
    Reach vfsStep (fun _ _ => True) .start t.vfs := by
  induction hrun with
  | refl => exact Reach.refl
  | tail _ _ hs ih => exact ih.tail trivial (fileStep_eq_some.mp hs).1

/-- What a successful `open` records. -/
theorem record_openFile
    (hi : i < 1024) (hs : t.vfs.openFile file malloc result = .ok (.ret (i + 3) none, s'))
    (fd : CInt) :
    t.record (.openFile file malloc result) fd =
      if fd = fdOf i then (t.vfs.deviceAt (t.vfs.findDevice file)).toOption
      else t.openedBy fd := by
  have hvalue : BitVec.ofInt 32 ((i : Int) + 3) = fdOf i := by
    rw [← BitVec.toInt_inj, toInt_fdOf hi, BitVec.toInt_ofInt, Int.bmod_def]
    omega
  rw [Files.record, hs]
  dsimp only
  rw [if_neg (by omega), hvalue]

/-- The calls on a descriptor go to this driver table and to no other: the
answer is the one of its function, or the error for a missing function. -/
def Vfs.DispatchedTo (s : Vfs) (fd : CInt) (device : Devoptab) (fileStruct : Nat) : Prop :=
  let answer (method : Method) (absent : Answer) : Answer :=
    if device.has method then .driver device method fileStruct else absent
  s.read fd = .ok (answer .readR (.ret (-1) none)) ∧
    (∀ len, s.write len fd = .ok (answer .writeR (.ret (-1) none))) ∧
    s.lseek fd = .ok (answer .seekR (.ret (-1) none)) ∧
    s.fstat fd = .ok (answer .fstatR (.ret (-1) (some .ENOSYS))) ∧
    (s.close fd).map Prod.fst = .ok (answer .closeR (.ret (-1) none))

theorem fdCall_of_isOpen {handle : Handle} (hopen : s.isOpen fd)
    (hh : s.getHandle fd = .ok (some handle)) (hdev : 0 ≤ handle.device ∧ handle.device < 16)
    (method : Method) (absent : Bool → Answer) :
    s.fdCall method absent fd =
      .ok (if (s.devoptabList handle.device.toNat).has method then
        .driver (s.devoptabList handle.device.toNat) method handle.fileStruct
        else absent false) := by
  have hlow := hopen.1
  rw [Vfs.fdCall, if_neg (by omega), if_neg (by omega), hh]
  change s.dispatch _ _ _ _ = _
  rw [asUnsigned_of_nonneg hdev.1 (by omega), Vfs.dispatch, deviceAt_ok hdev]
  rfl

theorem dispatchedTo_slot {handle : Handle} (hopen : s.isOpen fd)
    (hh : s.getHandle fd = .ok (some handle)) (hdev : 0 ≤ handle.device ∧ handle.device < 16) :
    s.DispatchedTo fd (s.devoptabList handle.device.toNat) handle.fileStruct := by
  refine ⟨fdCall_of_isOpen hopen hh hdev .readR _, fun len => ?_,
    fdCall_of_isOpen hopen hh hdev .seekR _, fdCall_of_isOpen hopen hh hdev .fstatR _, ?_⟩
  · exact fdCall_of_isOpen hopen hh hdev .writeR fun std => .ret (if std then len else -1) none
  · have hlow := hopen.1
    rw [close_answer, if_neg (by omega), hh]
    change s.dispatch _ _ _ _ = _
    rw [asUnsigned_of_nonneg hdev.1 (by omega), Vfs.dispatch, deviceAt_ok hdev]
    rfl

/-! ### Runs -/

/-- No open file is on a slot. -/
def Vfs.unused (s : Vfs) (k : Int) : Prop :=
  ∀ i < maxHandles, ∀ handle ∈ s.handles i, handle.device ≠ k

instance (s : Vfs) (k : Int) : Decidable (s.unused k) := by
  delta Vfs.unused
  infer_instance

/-- A slot is given to another device, or freed, only with no file open on it. -/
def Files.keepsDrivers (s : Files) : VfsAction → Prop
  | .addDevice device => ∀ k ∈ s.vfs.addSlot device.name, s.vfs.unused k
  | .removeDevice path => s.vfs.unused (s.vfs.findDevice path)
  | .setDefaultDevice _ | .openFile _ _ _ | .close _ => True

instance (s : Files) (a : VfsAction) : Decidable (s.keepsDrivers a) := by
  cases a <;> dsimp only [Files.keepsDrivers] <;> infer_instance

/-- The history agrees with the tables: a handle is recorded with the entry of
the slot it names. -/
def Files.Agrees (s : Files) : Prop :=
  ∀ i < 1024, ∀ handle, s.vfs.handles i = some handle →
    s.openedBy (fdOf i) = some (s.vfs.devoptabList handle.device.toNat)

theorem Files.Agrees.start : Files.start.Agrees := nofun

theorem Files.Agrees.setDevice (h : t.Agrees) (hsound : VfsSound t.vfs) {k : Nat}
    (hunused : t.vfs.unused k) (device : Devoptab) :
    Files.Agrees ⟨t.vfs.setDevice k device, t.openedBy⟩ := by
  intro i hi handle hh
  have hh' : t.vfs.handles i = some handle := hh
  -- the entry replaced is not the one that an open file names
  have hne := hunused i hi handle hh'
  have hdev := hsound.handles i handle hh'
  rw [h i hi handle hh']
  change _ = some (if handle.device.toNat = k then device else _)
  rw [if_neg (by omega)]

theorem Files.Agrees.openFile (h : t.Agrees)
    (hs : t.vfs.openFile file malloc result = .ok (answer, s')) :
    Files.Agrees ⟨s', t.record (.openFile file malloc result)⟩ := by
  cases opens_openFile hs with
  | fails errno =>
    have hrec : t.record (.openFile file malloc result) = t.openedBy := by
      rw [Files.record, hs]
      exact if_pos rfl
    rw [hrec]
    exact h
  | succeeds i fileStruct hfree hdev =>
    intro j hj handle hh
    dsimp only
    rw [record_openFile hfree.1 hs]
    change (if j = i then some _ else t.vfs.handles j) = some handle at hh
    by_cases hji : j = i
    · rw [if_pos hji] at hh
      cases hh
      rw [if_pos (by rw [hji]), deviceAt_ok hdev]
      rfl
    · have hfd : fdOf j ≠ fdOf i := by
        rw [← BitVec.toInt_ne, toInt_fdOf hj, toInt_fdOf hfree.1]
        omega
      rw [if_neg hji] at hh
      rw [if_neg hfd]
      exact h j hj handle hh

theorem Files.Agrees.close (h : t.Agrees) (hs : t.vfs.close fd = .ok (answer, s')) :
    Files.Agrees ⟨s', t.record (.close fd)⟩ := by
  intro i hi handle hh
  have hi' : ((fdOf i).toInt - 3).toNat = i := by
    rw [toInt_fdOf hi]
    omega
  have hopen : s'.isOpen (fdOf i) := by
    refine ⟨by rw [toInt_fdOf hi]; omega, by rw [toInt_fdOf hi]; omega, ?_⟩
    rw [hi', hh]
    exact Option.some_ne_none handle
  -- the descriptor is still open, so it is not the one closed
  have hstep : vfsStep t.vfs (.close fd) = some s' := by
    rw [vfsStep, hs]
    rfl
  have hne := ((isOpen_close hstep).mp hopen).2
  have hframe := (handlesFrom_close hs).frame
  have hold : t.vfs.handles i = some handle := by
    rcases close_descriptors hs with hrel | ⟨heq, -⟩
    · rw [hrel] at hh
      unfold Vfs.releaseHandle at hh
      split at hh
      · exact hh
      · change (if i = _ then none else t.vfs.handles i) = some handle at hh
        split at hh
        · cases hh
        · exact hh
    · rw [← heq]
      exact hh
  change (if fdOf i = fd then none else t.openedBy (fdOf i)) = _
  rw [if_neg hne, h i hi handle hold, hframe]

theorem Files.Agrees.step {a : VfsAction} (h : t.Agrees) (hsound : VfsSound t.vfs)
    (hg : t.keepsDrivers a) (hs : fileStep t a = some t') : t'.Agrees := by
  obtain ⟨hv, hrec⟩ := fileStep_eq_some.mp hs
  obtain ⟨vfs, openedBy⟩ := t'
  subst hrec
  cases a with
  | addDevice device =>
    obtain rfl := Option.some.inj hv
    rw [Vfs.addDevice]
    rcases hslot : t.vfs.addSlot device.name with - | k
    · exact h
    · exact h.setDevice hsound (hg k hslot) device
  | removeDevice path =>
    rw [vfsStep, Vfs.removeDevice] at hv
    split at hv
    · cases hv
      exact h
    · split at hv
      · cases hv
        -- the slot that is freed has no open descriptor
        have hfind := (hsound.findDevice path).2.2.1
        refine h.setDevice hsound ?_ dotabStdnull
        rw [Int.toNat_of_nonneg (by omega)]
        exact hg
      · cases hv
  | setDefaultDevice device =>
    obtain rfl := Option.some.inj hv
    rw [Vfs.setDefaultDevice]
    split
    · exact h
    · exact h
  | openFile file malloc result =>
    obtain ⟨answer, ho⟩ := toOption_map_snd hv
    exact h.openFile ho
  | close fd =>
    obtain ⟨answer, hc⟩ := toOption_map_snd hv
    exact h.close hc

theorem agrees_of_reach (hrun : Reach fileStep Files.keepsDrivers .start t) : t.Agrees := by
  induction hrun with
  | refl => exact Files.Agrees.start
  | tail hprev hg hs ih => exact ih.step (vfsSound_of_reach (reach_vfs hprev)) hg hs

theorem isOpen_step {a : VfsAction} (hs : fileStep t a = some t')
    (hopen : t.vfs.isOpen fd) (hclose : a ≠ .close fd) :
    t'.vfs.isOpen fd ∧ t'.openedBy fd = t.openedBy fd := by
  obtain ⟨hv, hrec⟩ := fileStep_eq_some.mp hs
  rw [hrec]
  cases a with
  | addDevice device =>
    rw [← Option.some.inj hv, Vfs.addDevice]
    rcases t.vfs.addSlot device.name with - | k
    · exact ⟨hopen, rfl⟩
    · exact ⟨hopen, rfl⟩
  | removeDevice path =>
    rw [vfsStep, Vfs.removeDevice] at hv
    split at hv
    · rw [← Option.some.inj hv]
      exact ⟨hopen, rfl⟩
    · split at hv
      · rw [← Option.some.inj hv]
        exact ⟨hopen, rfl⟩
      · cases hv
  | setDefaultDevice device =>
    rw [← Option.some.inj hv, Vfs.setDefaultDevice]
    split
    · exact ⟨hopen, rfl⟩
    · exact ⟨hopen, rfl⟩
  | openFile file malloc result =>
    obtain ⟨answer, ho⟩ := toOption_map_snd hv
    have hkind := opens_openFile ho
    generalize t'.vfs = v at ho hkind
    cases hkind with
    | fails errno =>
      refine ⟨hopen, ?_⟩
      rw [Files.record, ho]
      exact congrFun (if_pos rfl) fd
    | succeeds i fileStruct hfree hdev =>
      refine ⟨(isOpen_setHandle hfree.1 _ fd).mpr (.inr hopen), ?_⟩
      -- a new descriptor is one that was not open
      rw [record_openFile hfree.1 ho, if_neg]
      intro heq
      rw [fdOf_eq_iff hfree.1] at heq
      exact hopen.2.2 (by rw [heq.2.2]; exact hfree.2)
  | close fd' =>
    have hne : fd ≠ fd' := fun heq => hclose (heq ▸ rfl)
    exact ⟨(isOpen_close hv).mpr ⟨hopen, hne⟩, if_neg hne⟩

/-- **Descriptors and drivers.**  In every run that keeps the slots of open
files, each open descriptor has the driver table that opened it, and its calls
go there; an `open` that fails changes nothing, and one that succeeds returns a
descriptor that was not open; a descriptor stays open until it is closed. -/
theorem descriptors_of_reach (hrun : Reach fileStep Files.keepsDrivers .start t) :
    (∀ fd, t.vfs.isOpen fd →
      ∃ device fileStruct, t.openedBy fd = some device ∧
        t.vfs.DispatchedTo fd device fileStruct) ∧
    (∀ file malloc result answer vfs, t.vfs.openFile file malloc result = .ok (answer, vfs) →
      (∃ errno, answer = .ret (-1) errno ∧ ∀ fd, vfs.isOpen fd ↔ t.vfs.isOpen fd) ∨
        ∃ fd : CInt, answer = .ret fd.toInt none ∧ 3 ≤ fd.toInt ∧ ¬ t.vfs.isOpen fd ∧
          ∀ fd', vfs.isOpen fd' ↔ fd' = fd ∨ t.vfs.isOpen fd') ∧
    (∀ fd t', fileStep t (.close fd) = some t' →
      ∀ fd', t'.vfs.isOpen fd' ↔ t.vfs.isOpen fd' ∧ fd' ≠ fd) ∧
    ∀ a t', fileStep t a = some t' → ∀ fd, t.vfs.isOpen fd → a ≠ .close fd →
      t'.vfs.isOpen fd ∧ t'.openedBy fd = t.openedBy fd := by
  have hsound := vfsSound_of_reach (reach_vfs hrun)
  refine ⟨fun fd hopen => ?_, fun file malloc result answer vfs ho => ?_, fun fd t' hs fd' => ?_,
    fun a t' hs fd hopen hclose => isOpen_step hs hopen hclose⟩
  · obtain ⟨handle, hh, hget⟩ := getHandle_of_isOpen hopen
    have hlow := hopen.1
    have hhigh := hopen.2.1
    have hfd : fdOf (fd.toInt - 3).toNat = fd :=
      ((fdOf_eq_iff (by omega)).mpr ⟨hlow, hhigh, rfl⟩).symm
    have hrec := agrees_of_reach hrun (fd.toInt - 3).toNat (by omega) handle hh
    rw [hfd] at hrec
    exact ⟨_, handle.fileStruct, hrec,
      dispatchedTo_slot hopen hget (hsound.handles _ handle hh)⟩
  · rcases openFile_descriptors ho with ⟨errno, ha, hv⟩ | hnew
    · exact .inl ⟨errno, ha, fun fd => by rw [hv]⟩
    · exact .inr hnew
  · exact isOpen_close (fileStep_eq_some.mp hs).1

/-- Two files on one device, the first of them closed. -/
def usbFiles : List VfsAction :=
  [.addDevice usbDriver, .openFile "usb:a".toList (some 64) 0,
    .openFile "usb:b".toList (some 128) 0, .close 3]

theorem descriptors_usbFiles : ∃ t, Reach fileStep Files.keepsDrivers .start t ∧
    t.vfs.isOpen 4 ∧ ∃ device fileStruct, t.openedBy 4 = some device ∧
      t.vfs.DispatchedTo 4 device fileStruct := by
  refine exists_reach_imp usbFiles (fun t => t.vfs.handles 1 ≠ none) (by decide +kernel)
    fun t hreach hhandle => ?_
  have hopen : t.vfs.isOpen 4 := ⟨by decide, by decide, hhandle⟩
  exact ⟨hopen, (descriptors_of_reach hreach).1 4 hopen⟩

/-- A second driver. -/
def sdDriver : Devoptab := ⟨3, "sd".toList, fun _ => true⟩

/-- A file is open on a device, which is removed; its slot goes to the next one. -/
def slotReused : List VfsAction :=
  [.addDevice usbDriver, .openFile "usb:a".toList (some 64) 0, .removeDevice "usb:".toList,
    .addDevice sdDriver]

/-- The address of the driver table that a call was given to. -/
def Answer.driverAddress : Answer → Option Nat
  | .driver device _ _ => some device.address
  | .ret _ _ => none

/-- `read` of a descriptor that one driver opened goes to another. -/
theorem read_reaches_other_driver : ∃ t, Reach fileStep (fun _ _ => True) .start t ∧
    (t.openedBy 3).map Devoptab.address = some usbDriver.address ∧
    (t.vfs.read 3).toOption.bind Answer.driverAddress = some sdDriver.address ∧
    usbDriver.address ≠ sdDriver.address := by
  exact exists_reach slotReused (by decide +kernel)

end LibXenon
