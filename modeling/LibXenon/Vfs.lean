/-
LibXenon/Vfs.lean

The file layer of newlib.c: the table of devices, the table of handles, and
the calls that go through them.

A path names a device by a prefix up to a colon; without a colon it belongs to
the default device.  A descriptor below three is the number of a device, a
larger one a handle that says which device opened the file.  Every call ends
at an entry of `devoptab_list`, which has 16, and most of those that take a
descriptor go through `handles`, which has 1024.

An access to either array outside its bounds is a `Fault`.  What a driver's
function returns is not modelled, except that `open_r` may fail; `malloc`'s
result is an argument of `open`.
-/
import LibXenon.Transition
import Mathlib.Algebra.Group.Int.Defs
import Mathlib.Algebra.GroupWithZero.Nat
import Mathlib.Data.List.Basic

namespace LibXenon

open Transition

/-- A C `int`. -/
abbrev CInt := BitVec 32

/-! ### Devices -/

/-- The functions of `devoptab_t` that the calls below use. -/
inductive Method
  | openR | closeR | writeR | readR | seekR | fstatR | statR | linkR | unlinkR | renameR | mkdirR
  | statvfsR | ftruncateR | fsyncR
  deriving DecidableEq, Repr

/-- `devoptab_t`: where it is, its name, and which functions it has. -/
structure Devoptab where
  address : Nat
  name : List Char
  has : Method → Bool

def stdMax : Nat := 16

def maxHandles : Nat := 1024

/-- `console_optab`. -/
def consoleOptab : Devoptab := ⟨0, "stdout".toList, fun m => m = .writeR⟩

/-- `dotab_stdnull`. -/
def dotabStdnull : Devoptab := ⟨1, "stdnull".toList, fun _ => false⟩

/-- `__handle`. -/
structure Handle where
  device : Int
  fileStruct : Nat

/-- The tables.  Of `devoptabList` the entries below 16 exist, of `handles`
those below 1024. -/
structure Vfs where
  devoptabList : Nat → Devoptab
  handles : Nat → Option Handle
  defaultDevice : Int

def Vfs.start : Vfs where
  devoptabList i := if i < 3 then consoleOptab else dotabStdnull
  handles _ := none
  defaultDevice := -1

/-- An index outside an array. -/
inductive Fault
  | devoptabList (i : Int)
  | handles (i : Int)
  deriving DecidableEq, Repr

def Vfs.deviceAt (s : Vfs) (i : Int) : Except Fault Devoptab :=
  if 0 ≤ i ∧ i < stdMax then .ok (s.devoptabList i.toNat) else .error (.devoptabList i)

def Vfs.handleAt (s : Vfs) (i : Int) : Except Fault (Option Handle) :=
  if 0 ≤ i ∧ i < maxHandles then .ok (s.handles i.toNat) else .error (.handles i)

def Vfs.setDevice (s : Vfs) (i : Nat) (d : Devoptab) : Vfs :=
  { s with devoptabList := fun j => if j = i then d else s.devoptabList j }

def Vfs.setHandle (s : Vfs) (i : Nat) (h : Option Handle) : Vfs :=
  { s with handles := fun j => if j = i then h else s.handles j }

/-- `setDefaultDevice`. -/
def Vfs.setDefaultDevice (s : Vfs) (device : CInt) : Vfs :=
  -- 16 passes, one past the table
  if 2 < device.toInt ∧ device.toInt ≤ stdMax then { s with defaultDevice := device.toInt } else s

/-- The test of `FindDevice`: the path starts with the name, and then comes a
colon, or a digit and a colon. -/
def matchesName (name path : List Char) : Bool :=
  name.isPrefixOf path &&
    match path.drop name.length with
    | ':' :: _ => true
    | c :: ':' :: _ => c.isDigit
    | _ => false

/-- `FindDevice`. -/
def Vfs.findDevice (s : Vfs) (path : List Char) : Int :=
  if ':' ∈ path then
    match (List.range stdMax).find? fun i => matchesName (s.devoptabList i).name path with
    | some i => i
    | none => -1
  else s.defaultDevice

/-- `RemoveDevice`; outside the table only for a default device of 16. -/
def Vfs.removeDevice (s : Vfs) (path : List Char) : Option Vfs :=
  if s.findDevice path = -1 then some s
  else if s.findDevice path < stdMax then some (s.setDevice (s.findDevice path).toNat dotabStdnull)
  else none

/-- The slot `AddDevice` takes: the first with that name or free. -/
def Vfs.addSlot (s : Vfs) (name : List Char) : Option Nat :=
  (List.range stdMax).find? fun i =>
    decide (3 ≤ i) && ((s.devoptabList i).name == name ||
      (s.devoptabList i).name == "stdnull".toList)

/-- `AddDevice`. -/
def Vfs.addDevice (s : Vfs) (device : Devoptab) : Vfs :=
  match s.addSlot device.name with
  | some i => s.setDevice i device
  | none => s

/-! ### Handles -/

/-- `__release_handle`. -/
def Vfs.releaseHandle (s : Vfs) (fd : CInt) : Vfs :=
  if fd.toInt < 3 ∨ maxHandles + 3 ≤ fd.toInt then s
  else s.setHandle (fd.toInt - 3).toNat none

/-- The handle `__alloc_handle` takes. -/
@[irreducible] def Vfs.freeHandle (s : Vfs) : Option Nat :=
  (List.range maxHandles).find? fun i => (s.handles i).isNone

/-- `__get_handle`, with the comparison as it is. -/
def Vfs.getHandle (s : Vfs) (fd : CInt) : Except Fault (Option Handle) :=
  if fd.toInt < 3 ∨ maxHandles + 3 < fd.toInt then .ok none
  else s.handleAt (fd.toInt - 3)

/-! ### Calls -/

inductive Errno
  | ENOSYS | ENOSR | ENODEV | EINVAL | EXDEV
  deriving DecidableEq, Repr

/-- What a call comes to: a function of a driver, whose result is returned, or
a value and perhaps an error code.  `fd` is what the driver is given. -/
inductive Answer
  | driver (device : Devoptab) (method : Method) (fd : Int)
  | ret (value : Int) (errno : Option Errno)

/-- `unsigned int dev = ...`. -/
def asUnsigned (i : Int) : Int := i % 2 ^ 32

/-- Call a function of a device, or answer `absent` if it has none. -/
def Vfs.dispatch (s : Vfs) (dev : Int) (method : Method) (fd : Int) (absent : Answer) :
    Except Fault Answer :=
  (s.deviceAt dev).map fun device =>
    if device.has method then .driver device method fd else absent

/-- `read`, `write`, `fstat` and `lseek`: the device of a descriptor.  `absent`
is the answer for a device without the function, which may depend on whether
the descriptor is below three. -/
def Vfs.fdCall (s : Vfs) (method : Method) (absent : Bool → Answer) (fileDesc : CInt) :
    Except Fault Answer :=
  if fileDesc.toInt = -1 then .ok (.ret (-1) none)
  else if fileDesc.toInt < 3 then
    s.dispatch (asUnsigned fileDesc.toInt) method (-1) (absent true)
  else
    (s.getHandle fileDesc).bind fun
      | none => .ok (.ret (-1) none)
      | some handle =>
        s.dispatch (asUnsigned handle.device) method handle.fileStruct (absent false)

def Vfs.read (s : Vfs) : CInt → Except Fault Answer :=
  s.fdCall .readR fun _ => .ret (-1) none

/-- `write`, whose return value starts as `len` for a standard descriptor. -/
def Vfs.write (s : Vfs) (len : Int) : CInt → Except Fault Answer :=
  s.fdCall .writeR fun std => .ret (if std then len else -1) none

def Vfs.fstat (s : Vfs) : CInt → Except Fault Answer :=
  s.fdCall .fstatR fun _ => .ret (-1) (some .ENOSYS)

def Vfs.lseek (s : Vfs) : CInt → Except Fault Answer :=
  s.fdCall .seekR fun _ => .ret (-1) none

/-- `ftruncate` and `fsync`, for handles only. -/
def Vfs.handleCall (s : Vfs) (method : Method) (fileDesc : CInt) : Except Fault Answer :=
  if fileDesc.toInt < 3 then .ok (.ret (-1) (some .EINVAL))
  else
    (s.getHandle fileDesc).bind fun
      | none => .ok (.ret (-1) (some .EINVAL))
      | some handle =>
        s.dispatch (asUnsigned handle.device) method handle.fileStruct (.ret (-1) none)

def Vfs.ftruncate (s : Vfs) : CInt → Except Fault Answer := s.handleCall .ftruncateR

def Vfs.fsync (s : Vfs) : CInt → Except Fault Answer := s.handleCall .fsyncR

/-- `close`. -/
def Vfs.close (s : Vfs) (fileDesc : CInt) : Except Fault (Answer × Vfs) :=
  if fileDesc.toInt = -1 then .ok (.ret (-1) none, s)
  else
    (s.getHandle fileDesc).bind fun
      | none => .ok (.ret (-1) none, s)
      | some handle =>
        (s.dispatch (asUnsigned handle.device) .closeR handle.fileStruct (.ret (-1) none)).map
          fun answer => (answer, s.releaseHandle fileDesc)

/-- `stat`, `statvfs` and `unlink`: the device of a path. -/
def Vfs.pathCall (s : Vfs) (method : Method) (errno : Errno) (path : List Char) :
    Except Fault Answer :=
  if s.findDevice path = -1 then .ok (.ret (-1) (some errno))
  else s.dispatch (s.findDevice path) method (-1) (.ret (-1) (some errno))

def Vfs.stat (s : Vfs) : List Char → Except Fault Answer := s.pathCall .statR .ENODEV

def Vfs.statvfs (s : Vfs) : List Char → Except Fault Answer := s.pathCall .statvfsR .ENOSYS

def Vfs.unlink (s : Vfs) : List Char → Except Fault Answer := s.pathCall .unlinkR .ENODEV

/-- `mkdir`, which does not ask whether there is a device. -/
def Vfs.mkdir (s : Vfs) (path : List Char) : Except Fault Answer :=
  s.dispatch (s.findDevice path) .mkdirR (-1) (.ret (-1) (some .ENOSYS))

/-- `link` and `rename`, which only compare the devices. -/
def Vfs.pairCall (s : Vfs) (method : Method) (existing new : List Char) : Except Fault Answer :=
  if s.findDevice existing = s.findDevice new then
    s.dispatch (s.findDevice new) method (-1) (.ret (-1) (some .ENOSYS))
  else .ok (.ret (-1) (some .EXDEV))

def Vfs.link (s : Vfs) : List Char → List Char → Except Fault Answer := s.pairCall .linkR

def Vfs.rename (s : Vfs) : List Char → List Char → Except Fault Answer := s.pairCall .renameR

/-- `open` on a device that has the function: take a handle, call the driver,
and give the handle back if that fails.  `malloc` is the address of the handle,
`result` what `open_r` returns; the file structure stands behind the two words
of the handle. -/
def Vfs.openOn (s : Vfs) (dev : Int) (malloc : Option Nat) (result : Int) : Answer × Vfs :=
  match s.freeHandle, malloc with
  | some i, some handle =>
    let s := s.setHandle i (some ⟨dev, handle + 8⟩)
    if result = -1 then (.ret (-1) none, s.releaseHandle (BitVec.ofNat 32 (i + 3)))
    else (.ret (i + 3) none, s)
  | some _, none | none, _ => (.ret (-1) (some .ENOSR), s)

/-- `open`. -/
def Vfs.openFile (s : Vfs) (file : List Char) (malloc : Option Nat) (result : Int) :
    Except Fault (Answer × Vfs) :=
  if s.findDevice file = -1 then .ok (.ret (-1) (some .ENOSYS), s)
  else
    (s.deviceAt (s.findDevice file)).map fun device =>
      if device.has .openR then s.openOn (s.findDevice file) malloc result
      else (.ret (-1) (some .ENOSYS), s)

end LibXenon
