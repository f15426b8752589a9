/-
LibXenon/Mutex.lean

`mutex.c`: the counting mutex with its list of waiting threads.

The functions are cut at the points where the code gives up the mutex's own
spin lock, so each definition here is one atomic step:

* `mutexAcquireEnter` — `mutex_acquire` up to the call that puts the thread
  to sleep (a unit is taken at once, or the thread is queued);
* `mutexAcquireLeave` — `mutex_acquire` from its second `lock` on, run when
  the thread is scheduled again;
* `mutexRelease` — the whole of `mutex_release`.

The waiting threads are linked through `NextThreadMutex` and
`PreviousThreadMutex` of the thread objects themselves.
-/
import LibXenon.Threads
import LibXenon.Links

namespace LibXenon

/-- `MUTEX`, without the spin lock that makes its operations atomic. -/
structure Mutex where
  currentLockCount : Nat
  maximumLockCount : Nat
  firstWaiting : Option PThread
  lastWaiting : Option PThread
  deriving DecidableEq

/-- `unsigned int` arithmetic wraps at this value. -/
def uintWidth : Nat := 2 ^ 32

/-- `x - 1` on an `unsigned int`. -/
def uintPred (x : Nat) : Nat := if x = 0 then uintWidth - 1 else x - 1

/-- `x + 1` on an `unsigned int`. -/
def uintSucc (x : Nat) : Nat := (x + 1) % uintWidth

theorem uintPred_of_pos {x : Nat} (h0 : 0 < x) : uintPred x = x - 1 :=
  if_neg (Nat.pos_iff_ne_zero.mp h0)

theorem uintSucc_of_lt {x y : Nat} (hxy : x < y) (hy : y < uintWidth) : uintSucc x = x + 1 := by
  simp only [uintSucc, uintWidth] at *
  omega

/-- `mutex_create`: NULL when `malloc` fails, else a zeroed object with the
given maximum. -/
def mutexCreate (allocated : Bool) (maxLockCount : Nat) : Option Mutex :=
  if allocated then some ⟨0, maxLockCount, none, none⟩ else none

/-! ### The link fields of the waiter list -/

/-- `pthr->NextThreadMutex`, as a function of `pthr`. -/
def nextMutex (h : Heap) : PThread → Option PThread := fun t => (h t).nextThreadMutex

/-- `pthr->PreviousThreadMutex`, as a function of `pthr`. -/
def prevMutex (h : Heap) : PThread → Option PThread := fun t => (h t).previousThreadMutex

/-- `pthr->NextThreadMutex = v`. -/
def setNextMutex (h : Heap) (t : PThread) (v : Option PThread) : Heap :=
  h.modify t fun thr => { thr with nextThreadMutex := v }

/-- `pthr->PreviousThreadMutex = v`. -/
def setPrevMutex (h : Heap) (t : PThread) (v : Option PThread) : Heap :=
  h.modify t fun thr => { thr with previousThreadMutex := v }

/-! ### `mutex_acquire` and `mutex_release` -/

/-- "Add ourself to the list on the object". -/
def mutexEnqueue (m : Mutex) (h : Heap) (pthr : PThread) : Mutex × Heap :=
  let h := setPrevMutex h pthr m.lastWaiting
  let h := setNextMutex h pthr m.firstWaiting
  let (m, h) :=
    match m.firstWaiting with
    | some first => (m, setPrevMutex h first (some pthr))
    | none => ({ m with firstWaiting := some pthr }, h)
  let h :=
    match m.lastWaiting with
    | some last => setNextMutex h last (some pthr)
    | none => h
  ({ m with lastWaiting := some pthr }, h)

/-- `mutex_sleep`: the sleep time set while the mutex is still locked. -/
def mutexSleep (h : Heap) (current : PThread) (clock milliseconds : Nat) : Heap :=
  h.modify current fun thr => { thr with sleepTime := (clock + milliseconds) % clockWidth }

/-- `mutex_acquire` up to its going to sleep.  The `int` timeout reaches
`mutex_sleep` as an `unsigned int`. -/
def mutexAcquireEnter (m : Mutex) (h : Heap) (pthr : PThread) (clock : Nat) (timeout : Int) :
    Bool × Mutex × Heap :=
  if m.currentLockCount < m.maximumLockCount then
    (true, { m with currentLockCount := uintSucc m.currentLockCount }, h)
  else
    let (m, h) := mutexEnqueue m h pthr
    let h := h.modify pthr fun thr => { thr with waitingForMutex := true }
    (false, m, mutexSleep h pthr clock (timeout % (uintWidth : Int)).toNat)

/-- "Remove ourself from the mutex list". -/
def mutexUnlink (m : Mutex) (h : Heap) (pthr : PThread) : Mutex × Heap :=
  let h :=
    match nextMutex h pthr with
    | some next => setPrevMutex h next (prevMutex h pthr)
    | none => h
  let h :=
    match prevMutex h pthr with
    | some prev => setNextMutex h prev (nextMutex h pthr)
    | none => h
  let m := if m.firstWaiting = some pthr then { m with firstWaiting := nextMutex h pthr } else m
  let m := if m.lastWaiting = some pthr then { m with lastWaiting := prevMutex h pthr } else m
  -- a thread that was linked to itself leaves an empty list
  let m := if m.firstWaiting = some pthr then { m with firstWaiting := none } else m
  let m := if m.lastWaiting = some pthr then { m with lastWaiting := none } else m
  (m, h)

/-- `mutex_acquire` after the sleep: still flagged as waiting means that the
wait timed out. -/
def mutexAcquireLeave (m : Mutex) (h : Heap) (pthr : PThread) : Bool × Mutex × Heap :=
  if (h pthr).waitingForMutex then
    let (m, h) := mutexUnlink m h pthr
    (false, m, h)
  else
    (true, m, h)

/-- One turn of the loop of `mutex_release`: pull the first waiter from the
list, wake it and count its unit. -/
def mutexWake (m : Mutex) (h : Heap) (pthr : PThread) : Mutex × Heap :=
  -- its own links and those of its neighbours stay as they are
  let m := { m with firstWaiting := nextMutex h pthr }
  let m := if m.firstWaiting = some pthr then { m with firstWaiting := none } else m
  let m := if m.lastWaiting = some pthr then { m with lastWaiting := none } else m
  let h := h.modify pthr fun thr => { thr with waitingForMutex := false, sleepTime := 0 }
  ({ m with currentLockCount := uintSucc m.currentLockCount }, h)

/-- The loop of `mutex_release`.  Every turn counts a unit up to the maximum,
so `maximumLockCount - currentLockCount` turns are enough. -/
def mutexReleaseLoop : Nat → Mutex → Heap → Mutex × Heap
  | 0, m, h => (m, h)
  | fuel + 1, m, h =>
    match m.firstWaiting with
    | none => (m, h)
    | some pthr =>
      if m.currentLockCount < m.maximumLockCount then
        let (m, h) := mutexWake m h pthr
        mutexReleaseLoop fuel m h
      else (m, h)

/-- `mutex_release`. -/
def mutexRelease (m : Mutex) (h : Heap) : Mutex × Heap :=
  let m := { m with currentLockCount := uintPred m.currentLockCount }
  mutexReleaseLoop (m.maximumLockCount - m.currentLockCount) m h

theorem mutexWake_maximum (m : Mutex) (h : Heap) (pthr : PThread) :
    (mutexWake m h pthr).1.maximumLockCount = m.maximumLockCount := by
  simp only [mutexWake]
  split <;> split <;> rfl

theorem mutexWake_current (m : Mutex) (h : Heap) (pthr : PThread) :
    (mutexWake m h pthr).1.currentLockCount = uintSucc m.currentLockCount := by
  simp only [mutexWake]
  split <;> split <;> rfl

/-- The fuel of `mutexRelease` is enough: the loop stops because its
condition fails. -/
theorem mutexReleaseLoop_done (fuel : Nat) (m : Mutex) (h : Heap)
    (hmax : m.maximumLockCount < uintWidth)
    (hfuel : m.maximumLockCount - m.currentLockCount ≤ fuel) :
    (mutexReleaseLoop fuel m h).1.firstWaiting = none ∨
      ¬ (mutexReleaseLoop fuel m h).1.currentLockCount
        < (mutexReleaseLoop fuel m h).1.maximumLockCount := by
  induction fuel generalizing m h with
  | zero =>
    right
    simp only [mutexReleaseLoop]
    omega
  | succ fuel ih =>
    rcases hf : m.firstWaiting with - | pthr
    · left
      simp only [mutexReleaseLoop, hf]
    · by_cases hlt : m.currentLockCount < m.maximumLockCount
      · simp only [mutexReleaseLoop, hf, if_pos hlt]
        apply ih
        · rw [mutexWake_maximum]
          exact hmax
        · rw [mutexWake_maximum, mutexWake_current, uintSucc_of_lt hlt hmax]
          omega
      · right
        simp only [mutexReleaseLoop, hf, if_neg hlt]
        exact hlt

end LibXenon
