/-
LibXenon/XenosLocks.lean

Locks of vertex buffers, index buffers and surfaces: `Xe_VB_Lock`, `Xe_IB_Lock`,
`Xe_Surface_LockRect` and their unlocks.

While the CPU works on what the GPU also reads or writes, both sides have caches.
A lock to read should get the region from the device before it returns, an unlock
after a lock to write should bring the region to the device and tell the GPU to
forget it, and no other call should do either.  A run keeps a log of the calls with
what each of them did, and `LocksLawful` compares it with what the earlier calls of
the log ask for.

`Xe_pLock` looks at the flags in the lock object, which are those of the lock
before.  An unlock is right in every run (`unlock_effects`); the locks are right
exactly in the runs in which every lock reads if and only if the lock before it on
the same object did (`locks_synchronise_iff`).
-/
import LibXenon.Transition
import LibXenon.XenosVertices

namespace LibXenon

open Pm4 Transition

/-! ### The code -/

/-- `struct XenosLock`.  There is no lock if `start` is 0. -/
structure XenosLock where
  start : Word
  phys : Word
  size : Word
  flags : Word

/-- The lock of an object that has just been made. -/
def XenosLock.cleared : XenosLock := ⟨0, 0, 0, 0⟩

/-- What a call does besides changing the lock. -/
inductive XeEffect
  /-- `Xe_pSyncToDevice` -/
  | syncToDevice (data len : Word)
  /-- `Xe_pSyncFromDevice` -/
  | syncFromDevice (data len : Word)
  /-- packets for the GPU -/
  | rput (packets : List (List Word))
  deriving DecidableEq

/-- `flags & XE_LOCK_READ`. -/
def lockReads (flags : Word) : Bool := flags &&& 1 != 0

/-- `flags & XE_LOCK_WRITE`. -/
def lockWrites (flags : Word) : Bool := flags &&& 2 != 0

/-- The size of the whole pages, `(size+4095)&~4095`. -/
def wholePages (size : Word) : Word := (size + 4095) &&& ~~~4095

/-- `Xe_pLock`. -/
def xePLock (lock : XenosLock) (addr phys size flags : Word) :
    Option (XenosLock × List XeEffect) :=
  let size := wholePages size
  if flags = 0 then none
  else if lock.start ≠ 0 then none
  else
    some (⟨addr, phys, size, flags⟩,
      -- the flags of the lock before
      if lockReads lock.flags then [.syncFromDevice addr size] else [])

/-- `Xe_pUnlock`. -/
def xePUnlock (lock : XenosLock) : Option (XenosLock × List XeEffect) :=
  if lock.start = 0 then none
  else
    some ({ lock with start := 0 },
      if lockWrites lock.flags then
        [.syncToDevice lock.start lock.size, .rput (invalidateGpuCache lock.phys lock.size)]
      else [])

/-- What locking needs of a vertex or index buffer. -/
structure LockBuffer where
  base : Word
  physBase : Word

/-- What locking needs of a surface. -/
structure LockSurface where
  width : Word
  height : Word
  wpitch : Word
  hpitch : Word
  bypp : Word
  base : Word
  ptr : Word

/-- `Xe_VB_Lock`.  It returns the address, which is the start of the lock. -/
def xeVBLock (vb : LockBuffer) (lock : XenosLock) (offset size flags : Word) :
    Option (XenosLock × List XeEffect) :=
  xePLock lock (vb.base + offset) (vb.physBase + offset) size flags

/-- `Xe_IB_Lock`. -/
def xeIBLock (ib : LockBuffer) (lock : XenosLock) (offset size flags : Word) :
    Option (XenosLock × List XeEffect) :=
  xePLock lock (ib.base + offset) (ib.physBase + offset) size flags

/-- The offset and the size in `Xe_Surface_LockRect`.  The width of the rectangle is
not used. -/
def LockSurface.rect (surface : LockSurface) (x y h : Word) : Word × Word :=
  let h := if h = 0 then surface.height else h
  if surface.height ≠ surface.hpitch then (0, surface.hpitch * surface.wpitch)
  else (y * surface.wpitch + x * surface.bypp, h * surface.wpitch)

/-- `Xe_Surface_LockRect`. -/
def xeSurfaceLockRect (surface : LockSurface) (lock : XenosLock) (x y _w h flags : Word) :
    Option (XenosLock × List XeEffect) :=
  let r := surface.rect x y h
  xePLock lock (surface.base + r.1) (surface.ptr + r.1) r.2 flags

/-! ### Calls and runs -/

/-- An object with a lock, by number. -/
inductive XeObject
  | vb (i : Nat)
  | ib (i : Nat)
  | surface (i : Nat)
  deriving DecidableEq

structure XeObjects where
  vb : Nat → LockBuffer
  ib : Nat → LockBuffer
  surface : Nat → LockSurface

inductive LockCall
  | vbLock (i : Nat) (offset size flags : Word)
  | vbUnlock (i : Nat)
  | ibLock (i : Nat) (offset size flags : Word)
  | ibUnlock (i : Nat)
  | surfaceLockRect (i : Nat) (x y w h flags : Word)
  | surfaceUnlock (i : Nat)
  deriving DecidableEq

def LockCall.object : LockCall → XeObject
  | .vbLock i .. => .vb i
  | .vbUnlock i => .vb i
  | .ibLock i .. => .ib i
  | .ibUnlock i => .ib i
  | .surfaceLockRect i .. => .surface i
  | .surfaceUnlock i => .surface i

/-- The call, on the lock of its object. -/
def LockCall.run (objs : XeObjects) (lock : XenosLock) :
    LockCall → Option (XenosLock × List XeEffect)
  | .vbLock i offset size flags => xeVBLock (objs.vb i) lock offset size flags
  | .vbUnlock _ => xePUnlock lock
  | .ibLock i offset size flags => xeIBLock (objs.ib i) lock offset size flags
  | .ibUnlock _ => xePUnlock lock
  | .surfaceLockRect i x y w h flags => xeSurfaceLockRect (objs.surface i) lock x y w h flags
  | .surfaceUnlock _ => xePUnlock lock

/-- The calls so far and what they did, the last one first. -/
abbrev LockLog := List (LockCall × List XeEffect)

structure LockState where
  locks : XeObject → XenosLock
  log : LockLog

def LockState.init : LockState := ⟨fun _ => .cleared, []⟩

/-- A call that does not end in `Xe_Fatal`. -/
def xeLockStep (objs : XeObjects) (s : LockState) (c : LockCall) : Option LockState :=
  (c.run objs (s.locks c.object)).map fun r =>
    ⟨fun o => if o = c.object then r.1 else s.locks o, (c, r.2) :: s.log⟩

/-! ### The law -/

/-- A region and the flags it is locked with. -/
structure LockRequest where
  addr : Word
  phys : Word
  size : Word
  flags : Word

/-- What a call asks for; nothing if it is an unlock. -/
def LockCall.request (objs : XeObjects) : LockCall → Option LockRequest
  | .vbLock i offset size flags =>
    some ⟨(objs.vb i).base + offset, (objs.vb i).physBase + offset, size, flags⟩
  | .ibLock i offset size flags =>
    some ⟨(objs.ib i).base + offset, (objs.ib i).physBase + offset, size, flags⟩
  | .surfaceLockRect i x y _ h flags =>
    let r := (objs.surface i).rect x y h
    some ⟨(objs.surface i).base + r.1, (objs.surface i).ptr + r.1, r.2, flags⟩
  | .vbUnlock _ | .ibUnlock _ | .surfaceUnlock _ => none

/-- The last lock of an object. -/
def lastRequest (objs : XeObjects) (o : XeObject) : LockLog → Option LockRequest
  | [] => none
  | (c, _) :: log =>
    if c.object = o then (c.request objs).or (lastRequest objs o log)
    else lastRequest objs o log

/-- What a lock with these flags should do. -/
def LockRequest.onLock (r : LockRequest) : List XeEffect :=
  if lockReads r.flags then [.syncFromDevice r.addr (wholePages r.size)] else []

/-- What the unlock after a lock with these flags should do. -/
def LockRequest.onUnlock (r : LockRequest) : List XeEffect :=
  if lockWrites r.flags then
    [.syncToDevice r.addr (wholePages r.size),
      .rput (invalidateGpuCache r.phys (wholePages r.size))]
  else []

/-- What a call should do after the calls of the log. -/
def requiredEffects (objs : XeObjects) (earlier : LockLog) (c : LockCall) : List XeEffect :=
  match c.request objs with
  | some r => r.onLock
  | none => ((lastRequest objs c.object earlier).map LockRequest.onUnlock).getD []

/-- Every call of the log did what it should. -/
def LocksLawful (objs : XeObjects) : LockLog → Prop
  | [] => True
  | (c, effects) :: log => effects = requiredEffects objs log c ∧ LocksLawful objs log

/-- The flags of the last lock of an object. -/
def lastFlags (objs : XeObjects) (o : XeObject) (log : LockLog) : Word :=
  ((lastRequest objs o log).map LockRequest.flags).getD 0

/-- Every lock reads if and only if the lock before it on the same object did; the first
lock of an object does not read. -/
def ReadsAgree (objs : XeObjects) : LockLog → Prop
  | [] => True
  | (c, _) :: log =>
    (∀ r ∈ c.request objs, lockReads r.flags = lockReads (lastFlags objs c.object log)) ∧
      ReadsAgree objs log

/-! ### One call -/

variable {objs : XeObjects} {lock lock' : XenosLock} {effects : List XeEffect} {c : LockCall}

theorem run_cases (h : c.run objs lock = some (lock', effects)) :
    (∃ r, c.request objs = some r ∧ lock' = ⟨r.addr, r.phys, wholePages r.size, r.flags⟩ ∧
      effects = if lockReads lock.flags then [.syncFromDevice r.addr (wholePages r.size)]
        else []) ∨
    (c.request objs = none ∧ lock.start ≠ 0 ∧ lock' = { lock with start := 0 } ∧
      effects = if lockWrites lock.flags then
          [.syncToDevice lock.start lock.size, .rput (invalidateGpuCache lock.phys lock.size)]
        else []) := by
  -- a lock looks at the flags of the lock before
  have hlock {addr phys size flags : Word}
      (h : xePLock lock addr phys size flags = some (lock', effects)) :
      lock' = ⟨addr, phys, wholePages size, flags⟩ ∧
        effects = if lockReads lock.flags then [.syncFromDevice addr (wholePages size)]
          else [] := by
    unfold xePLock at h
    dsimp only at h
    split at h
    · nomatch h
    · split at h
      · nomatch h
      · injection h with h
        obtain ⟨rfl, rfl⟩ := Prod.mk.inj h
        exact ⟨rfl, rfl⟩
  have hunlock (h : xePUnlock lock = some (lock', effects)) :
      lock.start ≠ 0 ∧ lock' = { lock with start := 0 } ∧
        effects = if lockWrites lock.flags then
            [.syncToDevice lock.start lock.size, .rput (invalidateGpuCache lock.phys lock.size)]
          else [] := by
    unfold xePUnlock at h
    split at h
    · nomatch h
    · rename_i hstart
      injection h with h
      obtain ⟨rfl, rfl⟩ := Prod.mk.inj h
      exact ⟨hstart, rfl, rfl⟩
  cases c with
  | vbLock | ibLock | surfaceLockRect => exact .inl ⟨_, rfl, hlock h⟩
  | vbUnlock | ibUnlock | surfaceUnlock => exact .inr ⟨rfl, hunlock h⟩

/-! ### Runs -/

/-- A lock object holds what the last lock asked for, until the next lock. -/
def XenosLock.Holds (lock : XenosLock) : Option LockRequest → Prop
  | none => lock = .cleared
  | some r => lock.phys = r.phys ∧ lock.size = wholePages r.size ∧ lock.flags = r.flags ∧
      (lock.start = 0 ∨ lock.start = r.addr)

theorem XenosLock.Holds.flags_eq {o : XeObject} {log : LockLog}
    (h : lock.Holds (lastRequest objs o log)) : lock.flags = lastFlags objs o log := by
  rw [lastFlags]
  generalize lastRequest objs o log = last at h ⊢
  cases last with
  | none => exact congrArg XenosLock.flags h
  | some r => exact h.2.2.1

theorem XenosLock.Holds.exists_request {last : Option LockRequest} (h : lock.Holds last)
    (hstart : lock.start ≠ 0) : ∃ r, last = some r ∧ lock.phys = r.phys ∧
      lock.size = wholePages r.size ∧ lock.flags = r.flags ∧ lock.start = r.addr := by
  cases last with
  | none => exact absurd (congrArg XenosLock.start h) hstart
  | some r => exact ⟨r, rfl, h.1, h.2.1, h.2.2.1, h.2.2.2.resolve_left hstart⟩

theorem unlock_effects {log : LockLog} (hholds : lock.Holds (lastRequest objs c.object log))
    (hc : c.request objs = none) (h : c.run objs lock = some (lock', effects)) :
    effects = requiredEffects objs log c := by
  obtain ⟨r, hr, -⟩ | ⟨-, hstart, -, rfl⟩ := run_cases h
  · rw [hc] at hr
    nomatch hr
  · unfold requiredEffects
    obtain ⟨r, hlast, hphys, hsize, hflags, haddr⟩ := hholds.exists_request hstart
    rw [hc, hlast, haddr, hphys, hsize, hflags]
    rfl

/-- A lock does what it should, if it reads like the lock before; if it does not, it does
not do what it should. -/
theorem lock_effects_iff {log : LockLog} (hholds : lock.Holds (lastRequest objs c.object log))
    {r : LockRequest} (hc : c.request objs = some r)
    (h : c.run objs lock = some (lock', effects)) :
    effects = requiredEffects objs log c ↔
      lockReads r.flags = lockReads (lastFlags objs c.object log) := by
  obtain ⟨r', hr, -, rfl⟩ | ⟨hnone, -⟩ := run_cases h
  · rw [hc] at hr
    cases hr
    unfold requiredEffects
    rw [hc, hholds.flags_eq]
    dsimp only [LockRequest.onLock]
    cases lockReads r.flags <;> cases lockReads (lastFlags objs c.object log) <;> simp
  · rw [hc] at hnone
    nomatch hnone

/-- What the runs keep. -/
structure LockState.Follows (objs : XeObjects) (s : LockState) : Prop where
  holds : ∀ o, (s.locks o).Holds (lastRequest objs o s.log)
  lawful : LocksLawful objs s.log ↔ ReadsAgree objs s.log

theorem holds_step {log : LockLog} (hholds : lock.Holds (lastRequest objs c.object log))
    (h : c.run objs lock = some (lock', effects)) :
    lock'.Holds (lastRequest objs c.object ((c, effects) :: log)) := by
  rw [lastRequest, if_pos rfl]
  obtain ⟨r, hr, rfl, -⟩ | ⟨hnone, hstart, rfl, -⟩ := run_cases h
  · rw [hr]
    exact ⟨rfl, rfl, rfl, .inr rfl⟩
  · obtain ⟨r, hlast, hphys, hsize, hflags, -⟩ := hholds.exists_request hstart
    rw [hnone, hlast]
    exact ⟨hphys, hsize, hflags, .inl rfl⟩

theorem follows_step {s s' : LockState} (hs : s.Follows objs) (h : xeLockStep objs s c = some s') :
    s'.Follows objs := by
  obtain ⟨⟨lock', effects⟩, hrun, rfl⟩ := Option.map_eq_some_iff.mp h
  have hholds := hs.holds c.object
  constructor
  · intro o
    dsimp only
    split
    · rename_i ho
      subst ho
      exact holds_step hholds hrun
    · rename_i ho
      rw [lastRequest, if_neg (Ne.symm ho)]
      exact hs.holds o
  · dsimp only [LocksLawful, ReadsAgree]
    refine and_congr ?_ hs.lawful
    cases hc : c.request objs with
    | none =>
      exact ⟨fun _ r hr => (nomatch hr), fun _ => unlock_effects hholds hc hrun⟩
    | some r =>
      rw [lock_effects_iff hholds hc hrun]
      exact ⟨fun h r' hr' => by cases hr'; exact h, fun h => h r rfl⟩

/-- **Locks.**  In a run every lock to read gets its region from the device, every unlock
after a lock to write brings it there and takes it out of the cache of the GPU, and no
other call does either, if and only if every lock of the run reads like the lock before it
on the same object. -/
theorem locks_synchronise_iff (objs : XeObjects) {s : LockState}
    (h : Reach (xeLockStep objs) (fun _ _ => True) .init s) :
    LocksLawful objs s.log ↔ ReadsAgree objs s.log := by
  have hinit : LockState.init.Follows objs := ⟨fun _ => rfl, Iff.rfl⟩
  have hfollows : s.Follows objs :=
    h.invariant hinit fun _ _ _ hs _ hstep => follows_step hs hstep
  exact hfollows.lawful

/-- Buffers of one page each, one after the other. -/
def pagedObjects : XeObjects where
  vb i := ⟨0x80000000 + BitVec.ofNat 32 (0x1000 * i), BitVec.ofNat 32 (0x1000 * i)⟩
  ib i := ⟨0x90000000 + BitVec.ofNat 32 (0x1000 * i), 0x10000000 + BitVec.ofNat 32 (0x1000 * i)⟩
  surface i := ⟨64, 32, 256, 32, 4, 0xA0000000 + BitVec.ofNat 32 (0x2000 * i),
    0x20000000 + BitVec.ofNat 32 (0x2000 * i)⟩

/-- A surface is locked to write and unlocked, after a lock of a buffer; and what is done. -/
def writeLog : LockLog :=
  [(.surfaceUnlock 0,
      [.syncToDevice 0xA0000000 0x2000, .rput (invalidateGpuCache 0x20000000 0x2000)]),
    (.surfaceLockRect 0 0 0 0 0 2, []),
    (.vbLock 0 0 16 2, [])]

theorem writes_synchronise :
    ∃ s, Reach (xeLockStep pagedObjects) (fun _ _ => True) .init s ∧ s.log = writeLog ∧
      LocksLawful pagedObjects s.log := by
  refine exists_reach_imp (writeLog.reverse.map Prod.fst) (fun s => s.log = writeLog)
    (by decide +kernel) fun s hs hlog => ⟨hlog, (locks_synchronise_iff pagedObjects hs).mpr ?_⟩
  rw [hlog]
  exact ⟨fun r hr => (nomatch hr), fun r hr => by cases hr; rfl, fun r hr => by cases hr; rfl,
    True.intro⟩

/-- A lock to read does nothing, and the lock to write after it gets the region from the
device. -/
def readLog : LockLog :=
  [(.vbLock 0 0 16 2, [.syncFromDevice 0x80000000 0x1000]),
    (.vbUnlock 0, []),
    (.vbLock 0 0 16 1, [])]

theorem read_not_synchronised :
    ∃ s, Reach (xeLockStep pagedObjects) (fun _ _ => True) .init s ∧ s.log = readLog ∧
      ¬ LocksLawful pagedObjects s.log := by
  refine exists_reach_imp (readLog.reverse.map Prod.fst) (fun s => s.log = readLog)
    (by decide +kernel) fun s _ hlog => ⟨hlog, fun h => ?_⟩
  rw [hlog] at h
  exact absurd h.1 (by decide +kernel)

end LibXenon
