/-
LibXenon/Mbox.lean

The lwIP mailbox of `sys_arch.c`: a ring of message pointers, a semaphore
that counts the messages in it and a lock around its two indices.

This file has the mailbox object and the two fetching functions as they run
when no other thread acts during the call: `mutex_acquire` either takes a
unit at once, or queues the thread, sleeps until the time is over and takes
it out of the queue again (`mutexAcquire`).  That is the way both functions
fail, and the main result says for every mailbox and every timeout when a
failed call leaves the mailbox as it was (`failed_fetch_iff`):

* `sys_arch_mbox_fetch` does, unless it got the semaphore's unit and not the
  lock: it then returns without giving the unit back;
* `sys_arch_mbox_tryfetch` does not, since it releases the lock that it
  never took — unless another thread waits for the lock and takes that unit.
-/
import LibXenon.MutexQueue

namespace LibXenon

/-! ### The mailbox -/

/-- A message: a 32-bit `void *`. -/
abbrev Msg := UInt32

/-- `MAX_QUEUE_ENTRIES`. -/
def maxQueueEntries : Nat := 100

/-- The ring of `struct lwip_mbox`. -/
structure MsgRing where
  qMem : Nat → Msg
  head : Nat
  tail : Nat

/-- `struct lwip_mbox`. -/
structure Mbox extends MsgRing where
  sem : Mutex
  lock : Mutex

/-- `if (i >= MAX_QUEUE_ENTRIES) i = 0;` -/
def wrapIndex (i : Nat) : Nat := if i ≥ maxQueueEntries then 0 else i

/-- `sys_mbox_new`.  A semaphore that is NULL is written to before it is
checked, and a lock that is NULL faults when it is first used. -/
def sysMboxNew (semAllocated lockAllocated : Bool) : Option Mbox := do
  let sem ← mutexCreate semAllocated maxQueueEntries
  let lock ← mutexCreate lockAllocated 1
  let sem := { sem with currentLockCount := maxQueueEntries }
  some { qMem := fun _ => 0, head := 0, tail := 0, sem := sem, lock := lock }

/-! ### The fetching functions, undisturbed -/

/-- `INFINITE`, as the `u32_t` it is assigned to. -/
def infinite : UInt32 := 0xffffffff

/-- `mutex_acquire` while no other thread acts. -/
def mutexAcquire (m : Mutex) (h : Heap) (pthr : PThread) (clock : Nat) (timeout : Int) :
    Bool × Mutex × Heap :=
  let (acquired, m, h) := mutexAcquireEnter m h pthr clock timeout
  if acquired then (true, m, h) else mutexAcquireLeave m h pthr

/-- The clocks a fetch reads: `sys_now()` at its three calls, and
`_millisecond_clock_time` at its two waits. -/
structure Readings where
  start : UInt32
  now : UInt32
  finish : UInt32
  semClock : Nat
  lockClock : Nat

/-- What the fetching functions return, by the path that returns it: the two
constants are the same `u32_t`, 0xffffffff, and so may the time be. -/
inductive FetchReturn
  /-- `SYS_ARCH_TIMEOUT` -/
  | timeout
  /-- `SYS_MBOX_EMPTY` -/
  | empty
  /-- the time it took, or 0 from `sys_arch_mbox_tryfetch` -/
  | elapsed (ms : UInt32)
  deriving DecidableEq

/-- The end of a fetching call: what it returns, what it wrote through `msg`
(nothing when `msg` is NULL), and the mailbox and threads it leaves. -/
structure FetchEnd where
  returned : FetchReturn
  out : Option Msg
  mbox : Mbox
  heap : Heap

/-- `if (msg != NULL) *msg = v;` -/
def writeMsg (msg : Bool) (v : Msg) : Option Msg := if msg then some v else none

/-- The part that both functions end with, once they have the lock: take the
message at `tail`, step over it and unlock. -/
def takeMessage (mb : Mbox) (h : Heap) (msg : Bool) (returned : FetchReturn) : FetchEnd :=
  let out := writeMsg msg (mb.qMem mb.tail)
  let mb := { mb with tail := wrapIndex (mb.tail + 1) }
  let (lock, h) := mutexRelease mb.lock h
  ⟨returned, out, { mb with lock := lock }, h⟩

/-- `sys_arch_mbox_fetch`. -/
def sysArchMboxFetch (mb : Mbox) (h : Heap) (pthr : PThread) (msg : Bool) (timeout : UInt32)
    (r : Readings) : FetchEnd :=
  let timeout := if timeout = 0 then infinite else timeout
  let (aqrd, sem, h) := mutexAcquire mb.sem h pthr r.semClock timeout.toBitVec.toInt
  let mb := { mb with sem := sem }
  if aqrd then
    let timeout := if timeout > 0 then timeout - (r.now - r.start) else timeout
    let (aqrd, lock, h) := mutexAcquire mb.lock h pthr r.lockClock timeout.toBitVec.toInt
    let mb := { mb with lock := lock }
    if aqrd then takeMessage mb h msg (.elapsed (r.finish - r.start))
    else ⟨.timeout, writeMsg msg 0, mb, h⟩
  else ⟨.timeout, writeMsg msg 0, mb, h⟩

/-- `sys_arch_mbox_tryfetch`.  It ignores whether it got the lock. -/
def sysArchMboxTryfetch (mb : Mbox) (h : Heap) (pthr : PThread) (msg : Bool) (r : Readings) :
    FetchEnd :=
  let (aqrd, sem, h) := mutexAcquire mb.sem h pthr r.semClock 0
  let mb := { mb with sem := sem }
  if aqrd then
    let (_, lock, h) := mutexAcquire mb.lock h pthr r.lockClock infinite.toBitVec.toInt
    takeMessage { mb with lock := lock } h msg (.elapsed 0)
  else
    let (lock, h) := mutexRelease mb.lock h
    ⟨.empty, writeMsg msg 0, { mb with lock := lock }, h⟩

/-! ### One acquire, one release -/

theorem mutexAcquire_of_free {m : Mutex} (h : Heap) (pthr : PThread) (clock : Nat) (timeout : Int)
    (hfree : m.currentLockCount < m.maximumLockCount) :
    mutexAcquire m h pthr clock timeout =
      (true, { m with currentLockCount := uintSucc m.currentLockCount }, h) := by
  simp [mutexAcquire, mutexAcquireEnter, hfree]

theorem mutexAcquire_of_full {m : Mutex} (h : Heap) (pthr : PThread) (clock : Nat) (timeout : Int)
    (hfull : ¬ m.currentLockCount < m.maximumLockCount) :
    ∃ m' h', mutexAcquire m h pthr clock timeout = (false, m', h') ∧
      m'.currentLockCount = m.currentLockCount := by
  have henter := (mutexEnqueue_counts m h pthr).1
  rcases hq : mutexEnqueue m h pthr with ⟨m₁, h₁⟩
  rw [hq] at henter
  obtain ⟨h₂, hh₂⟩ : ∃ h₂, mutexSleep
      (h₁.modify pthr fun thr => { thr with waitingForMutex := true }) pthr clock
      (timeout % (uintWidth : Int)).toNat = h₂ := ⟨_, rfl⟩
  -- nobody clears the flag while the thread sleeps
  have hflag : (h₂ pthr).waitingForMutex = true := by
    rw [← hh₂]
    simp [mutexSleep]
  have hleave := (mutexUnlink_counts m₁ h₂ pthr).1
  rcases hu : mutexUnlink m₁ h₂ pthr with ⟨m₂, h₃⟩
  rw [hu] at hleave
  refine ⟨m₂, h₃, ?_, hleave.trans henter⟩
  simp only [mutexAcquire, mutexAcquireEnter, if_neg hfull, hq, hh₂, mutexAcquireLeave, hflag, hu]
  rfl

theorem uintSucc_ne (x : Nat) : uintSucc x ≠ x := by
  simp only [uintSucc, uintWidth]
  omega

/-- Releasing a lock of one unit leaves its count alone exactly when the
unit was taken and a waiting thread takes it over. -/
theorem mutexRelease_count_iff {m : Mutex} (h : Heap) (hmax : m.maximumLockCount = 1) :
    (mutexRelease m h).1.currentLockCount = m.currentLockCount ↔
      m.currentLockCount = 1 ∧ m.firstWaiting ≠ none := by
  obtain ⟨c, hc⟩ : ∃ c, m.currentLockCount = c := ⟨_, rfl⟩
  rw [hc]
  match c with
  | 0 =>
    -- the count wraps, and is then far above the maximum
    have hpred : uintPred m.currentLockCount = uintWidth - 1 := by
      rw [hc]
      rfl
    have hfuel : 1 - (uintWidth - 1) = 0 := rfl
    simp only [mutexRelease, hpred, hmax, hfuel, mutexReleaseLoop]
    simp [uintWidth]
  | 1 =>
    have hpred : uintPred m.currentLockCount = 0 := by
      rw [hc]
      rfl
    simp only [mutexRelease, hpred, hmax]
    rcases hf : m.firstWaiting with - | w
    · simp [mutexReleaseLoop]
    · simp [mutexReleaseLoop, mutexWake_current, uintSucc, uintWidth]
  | c + 2 =>
    have hpred : uintPred m.currentLockCount = c + 1 := by
      rw [hc]
      rfl
    have hfuel : 1 - (c + 1) = 0 := by omega
    simp only [mutexRelease, hpred, hmax, hfuel, mutexReleaseLoop]
    omega

/-! ### What a failed fetch leaves behind -/

/-- The mailbox is as it was: its indices, its messages and the two counts. -/
def Mbox.Unchanged (mb mb' : Mbox) : Prop :=
  mb'.head = mb.head ∧ mb'.tail = mb.tail ∧ mb'.qMem = mb.qMem ∧
    mb'.sem.currentLockCount = mb.sem.currentLockCount ∧
    mb'.lock.currentLockCount = mb.lock.currentLockCount

/-- The mutex has a unit for the next caller. -/
def Mutex.Free (m : Mutex) : Prop := m.currentLockCount < m.maximumLockCount

variable (mb : Mbox) (h : Heap) (pthr : PThread) (msg : Bool) (r : Readings)

theorem fetch_unchanged_iff (timeout : UInt32) :
    ((sysArchMboxFetch mb h pthr msg timeout r).returned = .timeout →
      mb.Unchanged (sysArchMboxFetch mb h pthr msg timeout r).mbox) ↔
      ¬ (mb.sem.Free ∧ ¬ mb.lock.Free) := by
  obtain ⟨wait, hwait⟩ : ∃ wait, (if timeout = 0 then infinite else timeout) = wait := ⟨_, rfl⟩
  obtain ⟨rest, hrest⟩ : ∃ rest,
      (if wait > 0 then wait - (r.now - r.start) else wait) = rest := ⟨_, rfl⟩
  by_cases hsem : mb.sem.currentLockCount < mb.sem.maximumLockCount
  · have hgot := mutexAcquire_of_free h pthr r.semClock wait.toBitVec.toInt hsem
    by_cases hlock : mb.lock.currentLockCount < mb.lock.maximumLockCount
    · -- both are free: the call succeeds
      have hgot' := mutexAcquire_of_free h pthr r.lockClock rest.toBitVec.toInt hlock
      simp only [sysArchMboxFetch, hwait, hgot, hrest, hgot', takeMessage]
      simp [Mutex.Free, hlock]
    · -- the lock's wait runs out with the semaphore's unit taken
      obtain ⟨m', h', hgot', -⟩ :=
        mutexAcquire_of_full h pthr r.lockClock rest.toBitVec.toInt hlock
      simp only [sysArchMboxFetch, hwait, hgot, hrest, hgot']
      simp [Mutex.Free, hsem, hlock, Mbox.Unchanged, uintSucc_ne]
  · obtain ⟨m', h', hgot, hcount⟩ :=
      mutexAcquire_of_full h pthr r.semClock wait.toBitVec.toInt hsem
    simp only [sysArchMboxFetch, hwait, hgot]
    simp [Mutex.Free, hsem, Mbox.Unchanged, hcount]

theorem tryfetch_unchanged_iff (hmax : mb.lock.maximumLockCount = 1) :
    ((sysArchMboxTryfetch mb h pthr msg r).returned = .empty →
      mb.Unchanged (sysArchMboxTryfetch mb h pthr msg r).mbox) ↔
      mb.sem.Free ∨ (mb.lock.currentLockCount = 1 ∧ mb.lock.firstWaiting ≠ none) := by
  by_cases hsem : mb.sem.currentLockCount < mb.sem.maximumLockCount
  · have hgot := mutexAcquire_of_free h pthr r.semClock 0 hsem
    rcases hgot' : mutexAcquire mb.lock h pthr r.lockClock infinite.toBitVec.toInt with
      ⟨b, lock, h'⟩
    simp only [sysArchMboxTryfetch, hgot, hgot', takeMessage]
    simp [Mutex.Free, hsem]
  · obtain ⟨m', h', hgot, hcount⟩ := mutexAcquire_of_full h pthr r.semClock 0 hsem
    have hrel := mutexRelease_count_iff (m := mb.lock) h' hmax
    simp only [sysArchMboxTryfetch, hgot]
    simp only [Mutex.Free, hsem, ← hrel]
    simp [Mbox.Unchanged, hcount]

/-- **When a failed fetch leaves the mailbox as it was**, for every mailbox
with a lock of one unit, as `sys_mbox_new` makes it. -/
theorem failed_fetch_iff (timeout : UInt32) (hmax : mb.lock.maximumLockCount = 1) :
    (((sysArchMboxFetch mb h pthr msg timeout r).returned = .timeout →
        mb.Unchanged (sysArchMboxFetch mb h pthr msg timeout r).mbox) ↔
      ¬ (mb.sem.Free ∧ ¬ mb.lock.Free)) ∧
    (((sysArchMboxTryfetch mb h pthr msg r).returned = .empty →
        mb.Unchanged (sysArchMboxTryfetch mb h pthr msg r).mbox) ↔
      mb.sem.Free ∨ (mb.lock.currentLockCount = 1 ∧ mb.lock.firstWaiting ≠ none)) :=
  ⟨fetch_unchanged_iff mb h pthr msg r timeout, tryfetch_unchanged_iff mb h pthr msg r hmax⟩

/-- An empty mailbox whose lock thread 1 has and thread 2 waits for. -/
def contendedMbox : Mbox :=
  { qMem := fun _ => 0, head := 0, tail := 0, sem := ⟨100, 100, none, none⟩
    lock := ⟨1, 1, some 2, some 2⟩ }

/-- There a call of thread 3 fails and changes nothing, whichever it is. -/
theorem failed_fetch_contended :
    contendedMbox.lock.maximumLockCount = 1 ∧
    contendedMbox.Unchanged
      (sysArchMboxFetch contendedMbox (fun _ => {}) 3 true 10 ⟨0, 5, 10, 0, 0⟩).mbox ∧
    contendedMbox.Unchanged
      (sysArchMboxTryfetch contendedMbox (fun _ => {}) 3 true ⟨0, 5, 10, 0, 0⟩).mbox := by
  have hiff := failed_fetch_iff contendedMbox (fun _ => {}) 3 true ⟨0, 5, 10, 0, 0⟩ 10 rfl
  have hempty : ¬ contendedMbox.sem.Free := by
    simp [Mutex.Free, contendedMbox]
  refine ⟨rfl, hiff.1.mpr ?_ (by decide), hiff.2.mpr ?_ (by decide)⟩
  · exact fun hfree => hempty hfree.1
  · exact .inr ⟨rfl, by decide⟩

/-- A mailbox with the message 7 in it, whose lock another thread has. -/
def heldMbox : Mbox :=
  { qMem := Function.update (fun _ => 0) 0 7, head := 1, tail := 0, sem := ⟨99, 100, none, none⟩
    lock := ⟨1, 1, none, none⟩ }

/-- **The two calls that do not.**  `sys_arch_mbox_tryfetch` on a new
mailbox gives its lock a unit that nobody took; a `sys_arch_mbox_fetch` of 10
ms on a mailbox with one message, whose lock is held all the time, keeps the
message's unit. -/
theorem failed_fetch_changes :
    (∃ mb, sysMboxNew true true = some mb ∧
      (sysArchMboxTryfetch mb (fun _ => {}) 3 true ⟨0, 5, 10, 0, 0⟩).returned = .empty ∧
      mb.lock.currentLockCount = 0 ∧
      (sysArchMboxTryfetch mb (fun _ => {}) 3 true ⟨0, 5, 10, 0, 0⟩).mbox.lock.currentLockCount
        = 4294967295) ∧
    (sysArchMboxFetch heldMbox (fun _ => {}) 3 true 10 ⟨0, 5, 10, 0, 0⟩).returned = .timeout ∧
    heldMbox.sem.currentLockCount = 99 ∧
    (sysArchMboxFetch heldMbox (fun _ => {}) 3 true 10 ⟨0, 5, 10, 0, 0⟩).mbox.sem.currentLockCount
      = 100 := by
  refine ⟨⟨_, rfl, by decide, rfl, by decide⟩, by decide, rfl, by decide⟩

end LibXenon
