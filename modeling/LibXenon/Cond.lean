/-
LibXenon/Cond.lean

`cond.c`: condition variables built from three mutexes and two counters.

A waiter counts itself in `waiting`, gives up the caller's mutex and sleeps
on `wait_sem`.  A signaller counts the waiters it selects in `signals`,
releases `wait_sem` once for each and then acquires `wait_done` once for
each; a waiter that finds `signals` positive releases `wait_done` and takes
one signal off.

The mutexes are their `CurrentLockCount`s: an acquire waits until the count
is below the maximum and adds one, a release takes one off.  What a release
makes of a count of 0 is a parameter, `dec`: a correct counting semaphore
(`idealRelease`) has one free unit more than its maximum, the `unsigned int`
of `mutex.c` (`unsignedRelease`) wraps.  Every statement on the shared
variables is a step of its own.

Whatever `dec` does below 1, in every run the lock keeps the threads apart,
`waiting` is the number of registered waiters, and
`0 ≤ signals ≤ waiting` (`CondInv.of_reach`).
-/
import LibXenon.Mutex
import LibXenon.Semaphores
import LibXenon.Transition

namespace LibXenon

open Semaphores Transition

/-! ### The object -/

/-- `MAX_SEMAPHORE`. -/
def maxSemaphore : Nat := 32 * 1024

/-- `COND`. -/
structure Cond where
  lock : Mutex
  waiting : Int
  signals : Int
  waitSem : Mutex
  waitDone : Mutex

/-- `cond_create`.  Without one of the mutexes there is no object:
`cond_delete` is called on it, and destroys a mutex that is NULL. -/
def condCreate (lockAllocated semAllocated doneAllocated : Bool) : Option Cond := do
  let lock ← mutexCreate lockAllocated 1
  let waitSem ← mutexCreate semAllocated maxSemaphore
  let waitDone ← mutexCreate doneAllocated maxSemaphore
  some { lock := lock, waiting := 0, signals := 0, waitSem := waitSem, waitDone := waitDone }

/-- A release of a correct counting semaphore. -/
def idealRelease (x : Int) : Int := x - 1

/-- `mutex->CurrentLockCount--` on an `unsigned int`. -/
def unsignedRelease (x : Int) : Int := uintPred x.toNat

/-- `mutex_acquire(.., LOCK_INFINITE)` on a count: waits for a unit. -/
def acquireCount (max count : Int) : Option Int := if count < max then some (count + 1) else none

/-! ### The threads at the object -/

/-- A mutex of the callers. -/
abbrev CallerMutex := Nat

/-- The statement a thread is at. -/
inductive CondPc
  | idle
  /-- `mutex_acquire(c->lock, ..)` of `cond_wait` -/
  | waitEnter (m : CallerMutex)
  /-- `c->waiting++` -/
  | waitCount (m : CallerMutex)
  /-- `mutex_release(c->lock)` -/
  | waitUnlock (m : CallerMutex)
  /-- `mutex_release(m)` -/
  | waitRelease (m : CallerMutex)
  /-- `mutex_acquire(c->wait_sem, ..)` -/
  | waitSleep (m : CallerMutex)
  /-- `mutex_acquire(c->lock, ..)`, the second time -/
  | waitBack (m : CallerMutex)
  /-- `if (c->signals > 0)` -/
  | waitTest (m : CallerMutex)
  /-- `mutex_release(c->wait_done)` -/
  | waitAck (m : CallerMutex)
  /-- `c->signals--` -/
  | waitEat (m : CallerMutex)
  /-- `c->waiting--` -/
  | waitLeave (m : CallerMutex)
  /-- `mutex_release(c->lock)`, the second time -/
  | waitUnlockBack (m : CallerMutex)
  /-- `mutex_acquire(m, ..)` -/
  | waitRelock (m : CallerMutex)
  /-- `mutex_acquire(c->lock, ..)` of `cond_signal` -/
  | signalEnter
  /-- `if (c->waiting > c->signals)` -/
  | signalTest
  /-- `c->signals++` -/
  | signalCount
  /-- `mutex_acquire(c->lock, ..)` of `cond_broadcast` -/
  | broadcastEnter
  /-- `if (c->waiting > c->signals)` and `num_waiting = ..` -/
  | broadcastTest
  /-- `c->signals = c->waiting` -/
  | broadcastCount (n : Nat)
  /-- `mutex_release(c->wait_sem)` for one of `n` waiters, with `k` to follow -/
  | post (k n : Nat)
  /-- `mutex_release(c->lock)` of a signaller that selected `n` waiters -/
  | unlock (n : Nat)
  /-- `mutex_acquire(c->wait_done, ..)` for one waiter, with `k` to follow -/
  | collect (k : Nat)
  deriving DecidableEq

/-- The loop over `wait_sem`, and the statement after it. -/
def CondPc.posting : Nat → Nat → CondPc
  | 0, n => .unlock n
  | k + 1, n => .post k n

/-- The loop over `wait_done`, and the return after it. -/
def CondPc.collecting : Nat → CondPc
  | 0 => .idle
  | k + 1 => .collect k

/-- The object, the mutexes of the callers with who holds them, and the
threads.  The rest is bookkeeping: how many waiters were selected, signals
eaten and calls of `cond_wait` returned so far, and what `selected` was when
a thread registered; how many waiters have acquired `wait_sem` and not left,
and how many acquisitions of `wait_done` the signallers have still to make. -/
structure CondSys where
  lock : Int
  waitSem : Int
  waitDone : Int
  waiting : Int
  signals : Int
  mutex : CallerMutex → Int
  holds : PThread → CallerMutex → Nat
  pc : PThread → CondPc
  selected : Nat
  eaten : Nat
  returned : Nat
  registeredAt : PThread → Nat
  past : Nat
  outstanding : Nat

/-- A new object, before any thread uses it. -/
def CondSys.start (c : Cond) : CondSys :=
  { lock := c.lock.currentLockCount
    waitSem := c.waitSem.currentLockCount
    waitDone := c.waitDone.currentLockCount
    waiting := c.waiting
    signals := c.signals
    mutex := fun _ => 0
    holds := fun _ _ => 0
    pc := fun _ => .idle
    selected := 0
    eaten := 0
    returned := 0
    registeredAt := fun _ => 0
    past := 0
    outstanding := 0 }

/-- Thread `t` goes on at `c`. -/
def CondSys.goto (s : CondSys) (t : PThread) (c : CondPc) : CondSys :=
  { s with pc := Function.update s.pc t c }

/-- Thread `t` acquires or releases units of the mutex `m`. -/
def CondSys.setMutex (s : CondSys) (t : PThread) (m : CallerMutex) (count : Int) (held : Nat) :
    CondSys :=
  { s with
    mutex := Function.update s.mutex m count
    holds := Function.update s.holds t (Function.update (s.holds t) m held) }

section Steps

variable (dec : Int → Int) (maximum : CallerMutex → Nat)

/-- `mutex_acquire(c->lock, ..)`, after which `t` goes on at `c`. -/
def CondSys.takeLock (s : CondSys) (t : PThread) (c : CondPc) : Option CondSys :=
  (acquireCount 1 s.lock).map fun v => { s with lock := v }.goto t c

/-- `mutex_acquire(m, ..)`, after which `t` goes on at `c`. -/
def CondSys.takeMutex (s : CondSys) (t : PThread) (m : CallerMutex) (c : CondPc) :
    Option CondSys :=
  (acquireCount (maximum m) (s.mutex m)).map fun v =>
    (s.setMutex t m v (s.holds t m + 1)).goto t c

/-- The next statement of thread `t`, if it can be executed. -/
def condRun (s : CondSys) (t : PThread) : Option CondSys :=
  match s.pc t with
  | .idle => none
  | .waitEnter m => s.takeLock t (.waitCount m)
  | .waitCount m =>
    some ({ s with
      waiting := s.waiting + 1
      registeredAt := Function.update s.registeredAt t s.selected }.goto t (.waitUnlock m))
  | .waitUnlock m => some ({ s with lock := dec s.lock }.goto t (.waitRelease m))
  | .waitRelease m =>
    some ((s.setMutex t m (dec (s.mutex m)) (s.holds t m - 1)).goto t (.waitSleep m))
  | .waitSleep m =>
    (acquireCount maxSemaphore s.waitSem).map fun v =>
      { s with waitSem := v, past := s.past + 1 }.goto t (.waitBack m)
  | .waitBack m => s.takeLock t (.waitTest m)
  | .waitTest m =>
    if s.signals > 0 then some (s.goto t (.waitAck m)) else some (s.goto t (.waitLeave m))
  | .waitAck m => some ({ s with waitDone := dec s.waitDone }.goto t (.waitEat m))
  | .waitEat m =>
    some ({ s with signals := s.signals - 1, eaten := s.eaten + 1 }.goto t (.waitLeave m))
  | .waitLeave m =>
    some ({ s with waiting := s.waiting - 1, past := s.past - 1 }.goto t (.waitUnlockBack m))
  | .waitUnlockBack m => some ({ s with lock := dec s.lock }.goto t (.waitRelock m))
  | .waitRelock m =>
    (s.takeMutex maximum t m .idle).map fun s => { s with returned := s.returned + 1 }
  | .signalEnter => s.takeLock t .signalTest
  | .signalTest =>
    if s.waiting > s.signals then some (s.goto t .signalCount)
    else some (s.goto t (.unlock 0))
  | .signalCount =>
    some ({ s with
      signals := s.signals + 1
      selected := s.selected + 1
      outstanding := s.outstanding + 1 }.goto t (.posting 1 1))
  | .broadcastEnter => s.takeLock t .broadcastTest
  | .broadcastTest =>
    if s.waiting > s.signals then
      some (s.goto t (.broadcastCount (s.waiting - s.signals).toNat))
    else some (s.goto t (.unlock 0))
  | .broadcastCount n =>
    some ({ s with
      signals := s.waiting
      selected := s.selected + n
      outstanding := s.outstanding + n }.goto t (.posting n n))
  | .post k n => some ({ s with waitSem := dec s.waitSem }.goto t (.posting k n))
  | .unlock n => some ({ s with lock := dec s.lock }.goto t (.collecting n))
  | .collect k =>
    (acquireCount maxSemaphore s.waitDone).map fun v =>
      { s with waitDone := v, outstanding := s.outstanding - 1 }.goto t (.collecting k)

/-- What the threads do.  One that is in none of the three functions may
acquire and release the callers' mutexes and call a function, `cond_wait`
with a mutex that it holds. -/
inductive CondAct
  | acquire (t : PThread) (m : CallerMutex)
  | release (t : PThread) (m : CallerMutex)
  | wait (t : PThread) (m : CallerMutex)
  | signal (t : PThread)
  | broadcast (t : PThread)
  | run (t : PThread)
  deriving DecidableEq

/-- One step of the system. -/
def condStep (s : CondSys) : CondAct → Option CondSys
  | .acquire t m => if s.pc t = .idle then s.takeMutex maximum t m .idle else none
  | .release t m =>
    if s.pc t = .idle ∧ 0 < s.holds t m then
      some ((s.setMutex t m (dec (s.mutex m)) (s.holds t m - 1)).goto t .idle)
    else none
  | .wait t m =>
    if s.pc t = .idle ∧ 0 < s.holds t m then some (s.goto t (.waitEnter m)) else none
  | .signal t => if s.pc t = .idle then some (s.goto t .signalEnter) else none
  | .broadcast t => if s.pc t = .idle then some (s.goto t .broadcastEnter) else none
  | .run t => condRun dec maximum s t

/-- Where a thread may be when it has begun something. -/
def CondPc.entry : CondPc → Bool
  | .idle | .waitEnter _ | .signalEnter | .broadcastEnter => true
  | _ => false

/-- The statements: the point thread `t` is at, the next one, and what becomes of the rest. -/
inductive CondStmt (s : CondSys) (t : PThread) : CondPc → CondPc → CondSys → Prop
  | waitEnter m (h : s.lock < 1) :
      CondStmt s t (.waitEnter m) (.waitCount m) { s with lock := s.lock + 1 }
  | waitCount m :
      CondStmt s t (.waitCount m) (.waitUnlock m)
        { s with
          waiting := s.waiting + 1
          registeredAt := Function.update s.registeredAt t s.selected }
  | waitUnlock m : CondStmt s t (.waitUnlock m) (.waitRelease m) { s with lock := dec s.lock }
  | waitRelease m :
      CondStmt s t (.waitRelease m) (.waitSleep m)
        (s.setMutex t m (dec (s.mutex m)) (s.holds t m - 1))
  | waitSleep m (h : s.waitSem < maxSemaphore) :
      CondStmt s t (.waitSleep m) (.waitBack m)
        { s with waitSem := s.waitSem + 1, past := s.past + 1 }
  | waitBack m (h : s.lock < 1) :
      CondStmt s t (.waitBack m) (.waitTest m) { s with lock := s.lock + 1 }
  | waitFound m (h : 0 < s.signals) : CondStmt s t (.waitTest m) (.waitAck m) s
  | waitEmpty m (h : ¬0 < s.signals) : CondStmt s t (.waitTest m) (.waitLeave m) s
  | waitAck m : CondStmt s t (.waitAck m) (.waitEat m) { s with waitDone := dec s.waitDone }
  | waitEat m :
      CondStmt s t (.waitEat m) (.waitLeave m)
        { s with signals := s.signals - 1, eaten := s.eaten + 1 }
  | waitLeave m :
      CondStmt s t (.waitLeave m) (.waitUnlockBack m)
        { s with waiting := s.waiting - 1, past := s.past - 1 }
  | waitUnlockBack m :
      CondStmt s t (.waitUnlockBack m) (.waitRelock m) { s with lock := dec s.lock }
  | waitRelock m v :
      CondStmt s t (.waitRelock m) .idle
        { s.setMutex t m v (s.holds t m + 1) with returned := s.returned + 1 }
  | signalEnter (h : s.lock < 1) :
      CondStmt s t .signalEnter .signalTest { s with lock := s.lock + 1 }
  | broadcastEnter (h : s.lock < 1) :
      CondStmt s t .broadcastEnter .broadcastTest { s with lock := s.lock + 1 }
  | signalFound (h : s.signals < s.waiting) : CondStmt s t .signalTest .signalCount s
  | signalNone : CondStmt s t .signalTest (.unlock 0) s
  | broadcastFound (h : s.signals < s.waiting) :
      CondStmt s t .broadcastTest (.broadcastCount (s.waiting - s.signals).toNat) s
  | broadcastNone : CondStmt s t .broadcastTest (.unlock 0) s
  | signalCount :
      CondStmt s t .signalCount (.posting 1 1)
        { s with
          signals := s.signals + 1
          selected := s.selected + 1
          outstanding := s.outstanding + 1 }
  | broadcastCount n :
      CondStmt s t (.broadcastCount n) (.posting n n)
        { s with
          signals := s.waiting
          selected := s.selected + n
          outstanding := s.outstanding + n }
  | post k n : CondStmt s t (.post k n) (.posting k n) { s with waitSem := dec s.waitSem }
  | unlock n : CondStmt s t (.unlock n) (.collecting n) { s with lock := dec s.lock }
  | collect k (h : s.waitDone < maxSemaphore) :
      CondStmt s t (.collect k) (.collecting k)
        { s with waitDone := s.waitDone + 1, outstanding := s.outstanding - 1 }

variable {dec maximum} {s s' : CondSys} {t : PThread}

theorem acquireCount_eq_some {max count v : Int} (h : acquireCount max count = some v) :
    count < max ∧ v = count + 1 := by
  rw [acquireCount] at h
  split at h
  case isTrue hlt => exact ⟨hlt, (Option.some.inj h).symm⟩
  case isFalse => cases h

theorem condRun_stmt (h : condRun dec maximum s t = some s') :
    ∃ p c x, s.pc t = p ∧ CondStmt dec s t p c x ∧ s' = x.goto t c := by
  have hlock {c : CondPc} (h : s.takeLock t c = some s') :
      s.lock < 1 ∧ s' = { s with lock := s.lock + 1 }.goto t c := by
    obtain ⟨v, hv, rfl⟩ := Option.map_eq_some_iff.mp h
    obtain ⟨hlt, rfl⟩ := acquireCount_eq_some hv
    exact ⟨hlt, rfl⟩
  rw [condRun] at h
  split at h
  case h_1 => cases h
  case h_2 m hpc => exact ⟨_, _, _, hpc, .waitEnter m (hlock h).1, (hlock h).2⟩
  case h_6 m hpc =>
    obtain ⟨v, hv, rfl⟩ := Option.map_eq_some_iff.mp h
    obtain ⟨hlt, rfl⟩ := acquireCount_eq_some hv
    exact ⟨_, _, _, hpc, .waitSleep m hlt, rfl⟩
  case h_7 m hpc => exact ⟨_, _, _, hpc, .waitBack m (hlock h).1, (hlock h).2⟩
  case h_8 m hpc =>
    split at h <;> cases h
    case isTrue hlt => exact ⟨_, _, _, hpc, .waitFound m hlt, rfl⟩
    case isFalse hlt => exact ⟨_, _, _, hpc, .waitEmpty m hlt, rfl⟩
  case h_13 m hpc =>
    rw [CondSys.takeMutex, Option.map_map] at h
    obtain ⟨v, -, rfl⟩ := Option.map_eq_some_iff.mp h
    exact ⟨_, _, _, hpc, .waitRelock m v, rfl⟩
  case h_14 hpc => exact ⟨_, _, _, hpc, .signalEnter (hlock h).1, (hlock h).2⟩
  case h_15 hpc =>
    split at h <;> cases h
    case isTrue hlt => exact ⟨_, _, _, hpc, .signalFound hlt, rfl⟩
    case isFalse => exact ⟨_, _, _, hpc, .signalNone, rfl⟩
  case h_17 hpc => exact ⟨_, _, _, hpc, .broadcastEnter (hlock h).1, (hlock h).2⟩
  case h_18 hpc =>
    split at h <;> cases h
    case isTrue hlt => exact ⟨_, _, _, hpc, .broadcastFound hlt, rfl⟩
    case isFalse => exact ⟨_, _, _, hpc, .broadcastNone, rfl⟩
  case h_22 k hpc =>
    obtain ⟨v, hv, rfl⟩ := Option.map_eq_some_iff.mp h
    obtain ⟨hlt, rfl⟩ := acquireCount_eq_some hv
    exact ⟨_, _, _, hpc, .collect k hlt, rfl⟩
  -- the other points run their statement whatever the counts are
  all_goals
    rename_i hpc
    cases h
    exact ⟨_, _, _, hpc, by constructor, rfl⟩

/-- A step is a statement of a thread in one of the functions, or something that a thread
outside them does, which leaves the object alone. -/
theorem condStep_cases {a : CondAct} (h : condStep dec maximum s a = some s') :
    (∃ t p c x, a = .run t ∧ s.pc t = p ∧ CondStmt dec s t p c x ∧ s' = x.goto t c) ∨
    ∃ t c mutex holds, s.pc t = .idle ∧ c.entry = true ∧
      s' = { s with mutex := mutex, holds := holds, pc := Function.update s.pc t c } := by
  cases a with
  | run t =>
    obtain ⟨p, c, x, hstmt⟩ := condRun_stmt h
    exact .inl ⟨t, p, c, x, rfl, hstmt⟩
  | acquire t m =>
    obtain ⟨hidle, h⟩ := Option.ite_none_right_eq_some.mp h
    obtain ⟨v, -, rfl⟩ := Option.map_eq_some_iff.mp h
    exact .inr ⟨t, .idle, _, _, hidle, rfl, rfl⟩
  | release t m =>
    obtain ⟨hidle, ⟨⟩⟩ := Option.ite_none_right_eq_some.mp h
    exact .inr ⟨t, .idle, _, _, hidle.1, rfl, rfl⟩
  | wait t m =>
    obtain ⟨hidle, ⟨⟩⟩ := Option.ite_none_right_eq_some.mp h
    exact .inr ⟨t, .waitEnter m, _, _, hidle.1, rfl, rfl⟩
  | signal t =>
    obtain ⟨hidle, ⟨⟩⟩ := Option.ite_none_right_eq_some.mp h
    exact .inr ⟨t, .signalEnter, _, _, hidle, rfl, rfl⟩
  | broadcast t =>
    obtain ⟨hidle, ⟨⟩⟩ := Option.ite_none_right_eq_some.mp h
    exact .inr ⟨t, .broadcastEnter, _, _, hidle, rfl, rfl⟩

end Steps

/-! ### Under the lock -/

/-- The thread has `c->lock`. -/
def CondPc.locked : CondPc → Bool
  | .waitCount _ | .waitUnlock _ | .waitTest _ | .waitAck _ | .waitEat _ | .waitLeave _
  | .waitUnlockBack _ | .signalTest | .signalCount | .broadcastTest | .broadcastCount _
  | .post _ _ | .unlock _ => true
  | _ => false

/-- It is counted in `waiting`. -/
def CondPc.registered : CondPc → Bool
  | .waitUnlock _ | .waitRelease _ | .waitSleep _ | .waitBack _ | .waitTest _ | .waitAck _
  | .waitEat _ | .waitLeave _ => true
  | _ => false

/-- It has acquired `wait_sem` and is counted in `waiting`. -/
def CondPc.pastSem : CondPc → Bool
  | .waitBack _ | .waitTest _ | .waitAck _ | .waitEat _ | .waitLeave _ => true
  | _ => false

/-- How often it has still to acquire `wait_done`. -/
def CondPc.owed : CondPc → Nat
  | .post _ n | .unlock n => n
  | .collect k => k + 1
  | _ => 0

/-- What a point counts for. -/
def CondPc.place (c : CondPc) : Bool × Bool × Nat := (c.registered, c.pastSem, c.owed)

@[simp] theorem CondPc.locked_posting (k n : Nat) : (posting k n).locked = true := by
  cases k <;> rfl

@[simp] theorem CondPc.place_posting (k n : Nat) : (posting k n).place = (false, false, n) := by
  cases k <;> rfl

@[simp] theorem CondPc.locked_collecting (k : Nat) : (collecting k).locked = false := by
  cases k <;> rfl

@[simp] theorem CondPc.place_collecting (k : Nat) : (collecting k).place = (false, false, k) := by
  cases k <;> rfl

/-- The lock is a lock, and `P` holds of the thread that has it. -/
def Serialized (P : CondSys → CondPc → Prop) (s : CondSys) : Prop :=
  ∃ free : Nat, s.lock + free = 1 ∧ Under CondPc.locked s.pc free .idle (P s)

section Serialized

variable {P : CondSys → CondPc → Prop} {s x : CondSys} {t : PThread} {p c : CondPc}

theorem Serialized.of_locked (h : Serialized P s) (hp : s.pc t = p) (ht : p.locked = true) :
    P s p := by
  obtain ⟨free, -, hunder⟩ := h
  subst hp
  exact hunder.of_locked ht

theorem Serialized.lock_bounds (h : Serialized P s) : 0 ≤ s.lock ∧ s.lock ≤ 1 := by
  obtain ⟨free, hlock, hunder⟩ := h
  have hle := hunder.free_le
  omega

theorem Serialized.inside (h : Serialized P s) (hp : s.pc t = p) (ht : p.locked = true)
    (hc : c.locked = true) (hpc : x.pc = s.pc) (hlock : x.lock = s.lock)
    (hstep : P s p → P (x.goto t c) c) : Serialized P (x.goto t c) := by
  obtain ⟨free, hfree, hunder⟩ := h
  subst hp
  refine ⟨free, hlock ▸ hfree, ?_⟩
  rw [CondSys.goto, hpc] at hstep ⊢
  exact hunder.inside ht hc hstep

theorem Serialized.outside (h : Serialized P s) (hp : s.pc t = p) (ht : p.locked = false)
    (hc : c.locked = false) (hpc : x.pc = s.pc) (hlock : x.lock = s.lock)
    (hstep : ∀ c', P s c' → P (x.goto t c) c') : Serialized P (x.goto t c) := by
  obtain ⟨free, hfree, hunder⟩ := h
  subst hp
  refine ⟨free, hlock ▸ hfree, ?_⟩
  rw [CondSys.goto, hpc] at hstep ⊢
  exact hunder.outside ht hc hstep

/-- Taking `c->lock`. -/
theorem Serialized.takeLock (h : Serialized P s) (hlt : s.lock < 1) (hc : c.locked = true)
    (hstep : P s .idle → P ({ s with lock := s.lock + 1 }.goto t c) c) :
    Serialized P ({ s with lock := s.lock + 1 }.goto t c) := by
  obtain ⟨free, hfree, hunder⟩ := h
  have hpos : 0 < free := by omega
  refine ⟨free - 1, ?_, hunder.acquire hpos hc hstep⟩
  show s.lock + 1 + ((free - 1 : Nat) : Int) = 1
  omega

/-- Releasing `c->lock`, whose count is 1 then. -/
theorem Serialized.release {dec : Int → Int} (hdec : dec 1 = 0) (h : Serialized P s)
    (hp : s.pc t = p) (ht : p.locked = true) (hc : c.locked = false)
    (hstep : P s p → P ({ s with lock := dec s.lock }.goto t c) .idle) :
    Serialized P ({ s with lock := dec s.lock }.goto t c) := by
  obtain ⟨free, hfree, hunder⟩ := h
  subst hp
  have hzero : free = 0 := by
    obtain ⟨o, howned, -⟩ := hunder
    exact (howned.owner ht).2
  have hone : s.lock = 1 := by omega
  refine ⟨free + 1, ?_, hunder.release ht hc hstep⟩
  show dec s.lock + ((free + 1 : Nat) : Int) = 1
  rw [hone, hdec, hzero]
  rfl

end Serialized

/-! ### The counters -/

/-- What the thread with the lock has found out about the two counters. -/
def CondPc.Knows (waiting signals : Int) : CondPc → Prop
  | .waitAck _ | .waitEat _ => 0 < signals
  | .waitLeave _ | .signalCount => signals < waiting
  | .broadcastCount n => signals + n = waiting
  | _ => True

/-- The counters at a point of the thread with the lock: the selected waiters
have eaten their signals, or the signals are pending. -/
structure Books (s : CondSys) (c : CondPc) : Prop where
  balance : (s.selected : Int) = s.eaten + s.signals
  nonneg : 0 ≤ s.signals
  le : s.signals ≤ s.waiting
  knows : c.Knows s.waiting s.signals

/-- What the books are about. -/
def CondSys.entries (s : CondSys) : Int × Int × Nat × Nat :=
  (s.waiting, s.signals, s.selected, s.eaten)

theorem Books.congr {s s' : CondSys} {c c' : CondPc} (h : Books s c)
    (hsame : s'.entries = s.entries) (hknows : c'.Knows s.waiting s.signals) : Books s' c' := by
  obtain ⟨hwaiting, hsignals, hselected, heaten⟩ : s'.waiting = s.waiting ∧
      s'.signals = s.signals ∧ s'.selected = s.selected ∧ s'.eaten = s.eaten := by
    simpa only [CondSys.entries, Prod.mk.injEq] using hsame
  refine ⟨?_, hsignals ▸ h.nonneg, ?_, ?_⟩
  · rw [hselected, heaten, hsignals]
    exact h.balance
  · rw [hsignals, hwaiting]
    exact h.le
  · rw [hsignals, hwaiting]
    exact hknows

/-- The three numbers are those of the threads at the points: `waiting` the
registered ones, `past` those of them that are past `wait_sem`, `outstanding`
what the signallers owe to `wait_done`. -/
structure Located (s : CondSys) : Prop where
  registered : ∃ n : Nat, Census (fun c => c.registered.toNat) s.pc n ∧ s.waiting = n
  past : Census (fun c => c.pastSem.toNat) s.pc s.past
  outstanding : Census CondPc.owed s.pc s.outstanding

section Located

variable {s x : CondSys} {t : PThread} {p c : CondPc}

theorem Located.move (h : Located s) (hp : s.pc t = p) (hpc : x.pc = s.pc)
    (hwaiting : x.waiting + p.registered.toNat = s.waiting + c.registered.toNat)
    (hpast : x.past + p.pastSem.toNat = s.past + c.pastSem.toNat)
    (hout : x.outstanding + p.owed = s.outstanding + c.owed) : Located (x.goto t c) := by
  obtain ⟨⟨n, hn, hn'⟩, hsem, howed⟩ := h
  subst hp
  obtain ⟨n₁, hn₁, hsum₁⟩ := hn.update t c
  obtain ⟨n₂, hn₂, hsum₂⟩ := hsem.update t c
  obtain ⟨n₃, hn₃, hsum₃⟩ := howed.update t c
  rw [← hpc] at hn₁ hn₂ hn₃
  obtain rfl : x.past = n₂ := by omega
  obtain rfl : x.outstanding = n₃ := by omega
  have hn₁' : x.waiting = n₁ := by omega
  exact ⟨⟨n₁, hn₁, hn₁'⟩, hn₂, hn₃⟩

theorem CondPc.place_eq {d : CondPc} (h : c.place = d.place) :
    c.registered = d.registered ∧ c.pastSem = d.pastSem ∧ c.owed = d.owed := by
  simpa only [CondPc.place, Prod.mk.injEq] using h

theorem Located.keep (h : Located s) (hp : s.pc t = p) (hpc : x.pc = s.pc)
    (hsame : (x.waiting, x.past, x.outstanding) = (s.waiting, s.past, s.outstanding))
    (hplace : p.place = c.place) : Located (x.goto t c) := by
  obtain ⟨hreg, hsem, howed⟩ := CondPc.place_eq hplace
  simp only [Prod.mk.injEq] at hsame
  refine h.move hp hpc ?_ ?_ ?_
  · rw [hsame.1, hreg]
  · rw [hsame.2.1, hsem]
  · rw [hsame.2.2, howed]

theorem Located.waiting_pos (h : Located s) (hp : s.pc t = p) (ht : p.registered = true) :
    0 < s.waiting := by
  obtain ⟨n, hn, hwaiting⟩ := h.registered
  have hle := hn.le t
  rw [hp, ht, Bool.toNat_true] at hle
  omega

theorem Located.past_pos (h : Located s) (hp : s.pc t = p) (ht : p.pastSem = true) :
    0 < s.past := by
  have hle := h.past.le t
  rw [hp, ht] at hle
  exact hle

theorem Located.owed_le (h : Located s) (hp : s.pc t = p) : p.owed ≤ s.outstanding :=
  hp ▸ h.outstanding.le t

end Located

/-- The invariant of all runs. -/
structure CondInv (s : CondSys) : Prop where
  serialized : Serialized Books s
  located : Located s

section Steps

variable {dec : Int → Int} {maximum : CallerMutex → Nat} {s s' x : CondSys} {t : PThread}
  {p c : CondPc}

theorem CondInv.outside (hI : CondInv s) (hp : s.pc t = p) (ht : p.locked = false)
    (hc : c.locked = false) (hpc : x.pc = s.pc) (hlock : x.lock = s.lock)
    (hsame : x.entries = s.entries) (hlocated : Located (x.goto t c)) : CondInv (x.goto t c) :=
  ⟨hI.serialized.outside hp ht hc hpc hlock fun _ hbooks => hbooks.congr hsame hbooks.knows,
    hlocated⟩

theorem CondInv.takeLock (hI : CondInv s) (hp : s.pc t = p) (hlt : s.lock < 1)
    (hc : c.locked = true) (hknows : ∀ waiting signals, c.Knows waiting signals)
    (hplace : p.place = c.place) : CondInv ({ s with lock := s.lock + 1 }.goto t c) :=
  ⟨hI.serialized.takeLock hlt hc fun hbooks => hbooks.congr rfl (hknows _ _),
    hI.located.keep hp rfl rfl hplace⟩

theorem CondInv.release (hdec : dec 1 = 0) (hI : CondInv s) (hp : s.pc t = p)
    (ht : p.locked = true) (hc : c.locked = false) (hplace : p.place = c.place) :
    CondInv ({ s with lock := dec s.lock }.goto t c) :=
  ⟨hI.serialized.release hdec hp ht hc fun hbooks => hbooks.congr rfl trivial,
    hI.located.keep hp rfl rfl hplace⟩

theorem CondInv.look (hI : CondInv s) (hp : s.pc t = p) (ht : p.locked = true)
    (hc : c.locked = true) (hplace : p.place = c.place) (hpc : x.pc = s.pc)
    (hlock : x.lock = s.lock) (hsame : x.entries = s.entries)
    (hplaces : (x.waiting, x.past, x.outstanding) = (s.waiting, s.past, s.outstanding))
    (hknows : Books s p → c.Knows s.waiting s.signals) : CondInv (x.goto t c) :=
  ⟨hI.serialized.inside hp ht hc hpc hlock fun hbooks => hbooks.congr hsame (hknows hbooks),
    hI.located.keep hp hpc hplaces hplace⟩

theorem CondInv.select (hI : CondInv s) {n : Nat} (hp : s.pc t = p) (ht : p.locked = true)
    (hplace : p.place = (false, false, 0)) (hpc : x.pc = s.pc) (hlock : x.lock = s.lock)
    (hsame : x.entries = (s.waiting, s.signals + n, s.selected + n, s.eaten))
    (hpast : x.past = s.past) (hout : x.outstanding = s.outstanding + n)
    (hle : s.signals + n ≤ s.waiting) : CondInv (x.goto t (.posting n n)) := by
  obtain ⟨hwaiting, hsignals, hselected, heaten⟩ : x.waiting = s.waiting ∧
      x.signals = s.signals + n ∧ x.selected = s.selected + n ∧ x.eaten = s.eaten := by
    simpa only [CondSys.entries, Prod.mk.injEq] using hsame
  refine ⟨hI.serialized.inside hp ht (CondPc.locked_posting n n) hpc hlock fun hbooks => ?_, ?_⟩
  · -- `n` more selected, and as many signals not eaten yet
    have hbalance := hbooks.balance
    have hnonneg := hbooks.nonneg
    refine ⟨?_, ?_, ?_, by cases n <;> trivial⟩
    · show (x.selected : Int) = x.eaten + x.signals
      omega
    · show 0 ≤ x.signals
      omega
    · show x.signals ≤ x.waiting
      omega
  · obtain ⟨hreg, hsem, howed⟩ := CondPc.place_eq (d := .idle) hplace
    obtain ⟨hreg', hsem', howed'⟩ := CondPc.place_eq (d := .unlock n) (CondPc.place_posting n n)
    refine hI.located.move hp hpc ?_ ?_ ?_
    · rw [hwaiting, hreg, hreg']
      rfl
    · rw [hpast, hsem, hsem']
      rfl
    · rw [hout, howed, howed']
      rfl

/-- **A statement** keeps the invariant. -/
theorem CondInv.stmt (hdec : dec 1 = 0) (hI : CondInv s) (hp : s.pc t = p)
    (h : CondStmt dec s t p c x) : CondInv (x.goto t c) := by
  cases h with
  | waitCount m =>
    refine ⟨hI.serialized.inside hp rfl rfl rfl rfl fun hbooks =>
      ⟨hbooks.balance, hbooks.nonneg, ?_, trivial⟩, hI.located.move hp rfl (Int.add_zero _) rfl rfl⟩
    exact hbooks.le.trans (Int.le_add_one (le_refl _))
  | waitUnlock m | waitUnlockBack m => exact hI.release hdec hp rfl rfl rfl
  | unlock n =>
    exact hI.release hdec hp rfl (CondPc.locked_collecting n) (CondPc.place_collecting n).symm
  | waitRelease m | waitRelock m v =>
    exact hI.outside hp rfl rfl rfl rfl rfl (hI.located.keep hp rfl rfl rfl)
  | waitSleep m => exact hI.outside hp rfl rfl rfl rfl rfl (hI.located.move hp rfl rfl rfl rfl)
  | waitFound m hpos => exact hI.look hp rfl rfl rfl rfl rfl rfl rfl fun _ => hpos
  | waitEmpty m hpos =>
    -- nothing was signalled, but the waiter itself is counted
    have hwaiting := hI.located.waiting_pos hp rfl
    refine hI.look hp rfl rfl rfl rfl rfl rfl rfl fun _ => ?_
    show s.signals < s.waiting
    omega
  | waitAck m => exact hI.look hp rfl rfl rfl rfl rfl rfl rfl fun hbooks => hbooks.knows
  | waitEat m =>
    refine ⟨hI.serialized.inside hp rfl rfl rfl rfl fun hbooks => ?_, hI.located.keep hp rfl rfl rfl⟩
    -- the signal that is eaten leaves one side of the balance for the other
    have hpos : 0 < s.signals := hbooks.knows
    have hle := hbooks.le
    have hbalance := hbooks.balance
    refine ⟨?_, ?_, ?_, ?_⟩
    · show (s.selected : Int) = (s.eaten + 1 : Nat) + (s.signals - 1)
      omega
    · show 0 ≤ s.signals - 1
      omega
    · show s.signals - 1 ≤ s.waiting
      omega
    · show s.signals - 1 < s.waiting
      omega
  | waitLeave m =>
    have hpast := hI.located.past_pos hp rfl
    refine ⟨hI.serialized.inside hp rfl rfl rfl rfl fun hbooks =>
      ⟨hbooks.balance, hbooks.nonneg, Int.le_sub_one_of_lt hbooks.knows, trivial⟩,
      hI.located.move hp rfl ?_ (Nat.sub_add_cancel hpast) rfl⟩
    show s.waiting - 1 + 1 = s.waiting + 0
    omega
  | signalFound hlt => exact hI.look hp rfl rfl rfl rfl rfl rfl rfl fun _ => hlt
  | signalNone | broadcastNone => exact hI.look hp rfl rfl rfl rfl rfl rfl rfl fun _ => trivial
  | broadcastFound hlt =>
    refine hI.look hp rfl rfl rfl rfl rfl rfl rfl fun _ => ?_
    show s.signals + ((s.waiting - s.signals).toNat : Int) = s.waiting
    omega
  | signalCount =>
    have hlt : s.signals < s.waiting := (hI.serialized.of_locked hp rfl).knows
    exact hI.select hp rfl rfl rfl rfl rfl rfl rfl hlt
  | broadcastCount n =>
    have hall : s.signals + n = s.waiting := (hI.serialized.of_locked hp rfl).knows
    refine hI.select hp rfl rfl rfl rfl ?_ rfl rfl hall.le
    rw [hall]
    rfl
  | post k n =>
    refine hI.look hp rfl (CondPc.locked_posting k n) (CondPc.place_posting k n).symm rfl rfl rfl rfl
      fun _ => ?_
    cases k <;> trivial
  | collect k =>
    have howed : k + 1 ≤ s.outstanding := hI.located.owed_le hp
    obtain ⟨hreg, hsem, hrest⟩ := CondPc.place_eq (d := .unlock k) (CondPc.place_collecting k)
    refine hI.outside hp rfl (CondPc.locked_collecting k) rfl rfl rfl
      (hI.located.move hp rfl ?_ ?_ ?_)
    · rw [hreg]
      rfl
    · rw [hsem]
      rfl
    · rw [hrest]
      show s.outstanding - 1 + (k + 1) = s.outstanding + k
      omega
  | _ => exact hI.takeLock hp ‹_› rfl (fun _ _ => trivial) rfl

/-- **One step** keeps the invariant, whoever takes it. -/
theorem CondInv.step (hdec : dec 1 = 0) {a : CondAct} (hI : CondInv s)
    (h : condStep dec maximum s a = some s') : CondInv s' := by
  rcases condStep_cases h with ⟨t, p, c, x, -, hp, hstmt, rfl⟩ | ⟨t, c, mutex, holds, hidle, hc, rfl⟩
  · exact hI.stmt hdec hp hstmt
  · have hplace : c.locked = false ∧ CondPc.idle.place = c.place := by
      cases c <;> first | exact ⟨rfl, rfl⟩ | cases hc
    exact hI.outside (x := { s with mutex := mutex, holds := holds }) hidle rfl hplace.1 rfl rfl rfl
      (hI.located.keep hidle rfl rfl hplace.2)

end Steps

theorem CondInv.start {c : Cond} (hc : condCreate true true true = some c) :
    CondInv (CondSys.start c) := by
  obtain rfl := Option.some.inj hc
  exact ⟨⟨1, rfl, none, ⟨rfl, fun t => rfl⟩, rfl, le_refl _, le_refl _, trivial⟩,
    ⟨0, Census.zero fun t => rfl, rfl⟩, Census.zero fun t => rfl, Census.zero fun t => rfl⟩

/-- **In every run** the lock keeps the threads apart and the counters are
those of the registered waiters. -/
theorem CondInv.of_reach {dec : Int → Int} {maximum : CallerMutex → Nat}
    {G : CondSys → CondAct → Prop} {c : Cond} {s : CondSys} (hdec : dec 1 = 0)
    (hc : condCreate true true true = some c)
    (h : Reach (condStep dec maximum) G (CondSys.start c) s) : CondInv s :=
  h.invariant (CondInv.start hc) fun _ _ _ hI _ hs => hI.step hdec hs

end LibXenon
