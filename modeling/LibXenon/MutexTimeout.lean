/-
LibXenon/MutexTimeout.lean

When `mutex_acquire` gives up.

A thread that finds no unit writes its deadline into `SleepTime` and sleeps.
It returns 0 if it runs on while `WaitingForMutex` is still set.  `Sleeps`
are the runs of the mutex system in which the thread stays asleep, with the
milliseconds they take; `TimesOut s t timeout n` says that the call of `t`
in state `s` can return 0 after `n` milliseconds.

Two readings of a number meet here.  The `int` timeout reaches `mutex_sleep`
as an `unsigned int`, so `INFINITE` is a wait of 4294967295 milliseconds.
And a `SleepTime` of 0 means that the thread does not sleep, so a deadline
that happens to be 0 is no deadline at all.  `timesOut_iff` says exactly
when a call can return 0; `mutex_timeouts_iff` reads off which timeouts keep
their promise.
-/
import LibXenon.MutexSystem

namespace LibXenon

open Transition

variable {s s' s₁ s₂ : MutexState} {t x : PThread} {a : MutexAct} {n ms : Nat} {timeout : Int}

/-! ### Sleeping in `mutex_acquire` -/

/-- `INFINITE`. -/
def INFINITE : Int := -1

/-- The timeout as `mutex_sleep` takes it. -/
def timeoutMs (timeout : Int) : Nat := (timeout % (uintWidth : Int)).toNat

/-- The milliseconds an action takes. -/
def MutexAct.ticks : MutexAct → Nat
  | .tick => 1
  | _ => 0

/-- The runs in which `t` does not get to run on, with their length in
milliseconds. -/
inductive Sleeps (t : PThread) (s : MutexState) : Nat → MutexState → Prop
  | refl : Sleeps t s 0 s
  | tail {n : Nat} {s₁ s₂ : MutexState} (hrun : Sleeps t s n s₁) (a : MutexAct)
      (hother : a ≠ .resume t) (hstep : mutexStep s₁ a = some s₂) : Sleeps t s (n + a.ticks) s₂

/-- `mutex_acquire(mutex, timeout)` of thread `t` goes to sleep and can
return 0 after `n` milliseconds. -/
def TimesOut (s : MutexState) (t : PThread) (timeout : Int) (n : Nat) : Prop :=
  ∃ s₁ s₂, mutexStep s (.acquire t timeout) = some s₁ ∧ t ∈ s₁.inside ∧ Sleeps t s₁ n s₂ ∧
    (mutexStep s₂ (.resume t)).isSome ∧ (mutexAcquireLeave s₂.mutex s₂.heap t).1 = false

/-! ### What the others do to a sleeping thread -/

/-- The two fields that decide when a sleeping thread runs on, and with
which result. -/
def Thread.waits (thr : Thread) : Bool × Nat := (thr.waitingForMutex, thr.sleepTime)

theorem setNextMutex_waits (h : Heap) (t x : PThread) (v : Option PThread) :
    (setNextMutex h t v x).waits = (h x).waits :=
  h.modify_field t x Thread.waits fun _ => rfl

theorem setPrevMutex_waits (h : Heap) (t x : PThread) (v : Option PThread) :
    (setPrevMutex h t v x).waits = (h x).waits :=
  h.modify_field t x Thread.waits fun _ => rfl

theorem mutexEnqueue_waits (m : Mutex) (h : Heap) (t x : PThread) :
    ((mutexEnqueue m h t).2 x).waits = (h x).waits := by
  rcases hf : m.firstWaiting with - | a <;> rcases hl : m.lastWaiting with - | z <;>
    simp [mutexEnqueue, hf, hl, setNextMutex_waits, setPrevMutex_waits]

theorem mutexUnlink_waits (m : Mutex) (h : Heap) (t x : PThread) :
    ((mutexUnlink m h t).2 x).waits = (h x).waits := by
  simp only [mutexUnlink]
  split <;> split <;> simp only [setNextMutex_waits, setPrevMutex_waits]

theorem sleepHeap_waits (m : Mutex) (h : Heap) (t x : PThread) (clock ms : Nat) :
    (sleepHeap m h t clock ms x).waits =
      if x = t then (true, (clock + ms) % clockWidth) else (h x).waits := by
  simp only [sleepHeap, mutexSleep, Heap.modify_apply]
  split
  · rfl
  · exact mutexEnqueue_waits m h t x

theorem mutexReleaseLoop_waits (fuel : Nat) (m : Mutex) (h : Heap) (x : PThread) :
    ((mutexReleaseLoop fuel m h).2 x).waits = (h x).waits ∨
      ((mutexReleaseLoop fuel m h).2 x).waitingForMutex = false := by
  induction fuel generalizing m h with
  | zero => exact .inl rfl
  | succ fuel ih =>
    rcases hf : m.firstWaiting with - | pthr
    · simp only [mutexReleaseLoop, hf]
      exact .inl trivial
    · by_cases hlt : m.currentLockCount < m.maximumLockCount
      · simp only [mutexReleaseLoop, hf, if_pos hlt]
        rcases ih (mutexWake m h pthr).1 (mutexWake m h pthr).2 with hsame | hwoken
        · have hwake : (mutexWake m h pthr).2 x = h.modify pthr
              (fun thr => { thr with waitingForMutex := false, sleepTime := 0 }) x := rfl
          rw [hwake, Heap.modify_apply] at hsame
          by_cases hx : x = pthr
          · rw [if_pos hx] at hsame
            exact .inr (congrArg Prod.fst hsame)
          · rw [if_neg hx] at hsame
            exact .inl hsame
        · exact .inr hwoken
      · simp only [mutexReleaseLoop, hf, if_neg hlt]
        exact .inl trivial

/-- What a step can do to a thread that sleeps in `mutex_acquire`: nothing,
wake it as a release does, or check its timer. -/
theorem mutexStep_waits (hstep : mutexStep s a = some s') (ht : t ∈ s.inside)
    (hother : a ≠ .resume t) :
    t ∈ s'.inside ∧ ((s'.heap t).waits = (s.heap t).waits ∨
      (s'.heap t).waitingForMutex = false ∨ s'.heap t = processTimer s.clock (s.heap t)) := by
  cases a with
  | acquire x timeout =>
    simp only [mutexStep] at hstep
    split at hstep
    · cases hstep
    · rename_i hx
      have hne : t ≠ x := fun e => hx (e ▸ ht)
      by_cases hlt : s.mutex.currentLockCount < s.mutex.maximumLockCount
      · simp only [mutexAcquireEnter, if_pos hlt, Option.some.injEq] at hstep
        subst hstep
        exact ⟨ht, .inl rfl⟩
      · simp only [mutexAcquireEnter, if_neg hlt, Option.some.injEq] at hstep
        subst hstep
        refine ⟨List.mem_append_left _ ht, .inl ?_⟩
        exact (sleepHeap_waits s.mutex s.heap x t s.clock _).trans (if_neg hne)
  | resume x =>
    have hne : t ≠ x := fun e => hother (e ▸ rfl)
    have hin : t ∈ s.inside.erase x := (List.mem_erase_of_ne hne).mpr ht
    simp only [mutexStep] at hstep
    split at hstep
    · by_cases hflag : (s.heap x).waitingForMutex = true
      · simp only [mutexAcquireLeave, if_pos hflag, Option.some.injEq] at hstep
        subst hstep
        exact ⟨hin, .inl (mutexUnlink_waits s.mutex s.heap x t)⟩
      · simp only [mutexAcquireLeave, if_neg hflag, Option.some.injEq] at hstep
        subst hstep
        exact ⟨hin, .inl rfl⟩
    · cases hstep
  | release x =>
    simp only [mutexStep] at hstep
    split at hstep
    · cases hstep
    · simp only [mutexRelease, Option.some.injEq] at hstep
      subst hstep
      -- a release wakes `t` or does not touch it
      rcases mutexReleaseLoop_waits _ _ s.heap t with hsame | hwoken
      · exact ⟨ht, .inl hsame⟩
      · exact ⟨ht, .inr (.inl hwoken)⟩
  | tick =>
    simp only [mutexStep, Option.some.injEq] at hstep
    subst hstep
    exact ⟨ht, .inl rfl⟩
  | timer x =>
    simp only [mutexStep, Option.some.injEq] at hstep
    subst hstep
    refine ⟨ht, ?_⟩
    by_cases hx : t = x
    · subst hx
      exact .inr (.inr (Heap.modify_self _ _ _))
    · exact .inl (congrArg Thread.waits (Heap.modify_of_ne _ _ hx))

theorem mutexStep_clock (hstep : mutexStep s a = some s') (hclock : s.clock < clockWidth) :
    s'.clock = (s.clock + a.ticks) % clockWidth := by
  have hsame : s.clock = (s.clock + 0) % clockWidth := (Nat.mod_eq_of_lt hclock).symm
  cases a with
  | acquire x timeout =>
    simp only [mutexStep] at hstep
    split at hstep
    · cases hstep
    · split at hstep <;> cases hstep <;> exact hsame
  | resume x =>
    simp only [mutexStep] at hstep
    split at hstep
    · split at hstep <;> cases hstep <;> exact hsame
    · cases hstep
  | release x =>
    simp only [mutexStep] at hstep
    split at hstep
    · cases hstep
    · cases hstep
      exact hsame
  | tick =>
    cases hstep
    rfl
  | timer x =>
    cases hstep
    exact hsame

/-! ### The deadline -/

/-- `n` milliseconds after a wait of `ms` milliseconds was begun at the time
`start`: the thread has been woken, or its deadline stands, or the deadline
has passed and was cleared. -/
structure Waiting (t : PThread) (start ms n : Nat) (s : MutexState) : Prop where
  inside : t ∈ s.inside
  clock : s.clock = (start + n) % clockWidth
  deadline : (s.heap t).waitingForMutex = true →
    (s.heap t).sleepTime = (start + ms) % clockWidth ∨ ms < n

theorem not_passed_of_le (start : Nat) (hms : ms < uintWidth) (hn : n ≤ ms) :
    ¬ 2 ^ 63 ≤ ((start + ms) % clockWidth + clockWidth - (start + n) % clockWidth)
      % clockWidth := by
  have hwidth : clockWidth = 18446744073709551616 := rfl
  have huint : uintWidth = 4294967296 := rfl
  rw [hwidth]
  omega

theorem passed_succ (start ms : Nat) :
    2 ^ 63 ≤ ((start + ms) % clockWidth + clockWidth - (start + (ms + 1)) % clockWidth)
      % clockWidth := by
  have hwidth : clockWidth = 18446744073709551616 := rfl
  rw [hwidth]
  omega

theorem Waiting.step {start : Nat} (hW : Waiting t start ms n s) (hms : ms < uintWidth)
    (hstep : mutexStep s a = some s') (hother : a ≠ .resume t) :
    Waiting t start ms (n + a.ticks) s' := by
  have hlt : s.clock < clockWidth := hW.clock ▸ Nat.mod_lt _ (Nat.two_pow_pos 64)
  obtain ⟨hin, hwaits⟩ := mutexStep_waits hstep hW.inside hother
  refine ⟨hin, ?_, fun hflag => ?_⟩
  · rw [mutexStep_clock hstep hlt, hW.clock, Nat.mod_add_mod, Nat.add_assoc]
  · rcases hwaits with hsame | hwoken | htimer
    · have hsleep : (s'.heap t).sleepTime = (s.heap t).sleepTime := congrArg Prod.snd hsame
      rw [hsleep]
      refine (hW.deadline ((congrArg Prod.fst hsame).symm.trans hflag)).imp id fun hlate => ?_
      exact Nat.lt_add_right _ hlate
    · rw [hwoken] at hflag
      cases hflag
    · -- the timer check: the deadline is cleared only when it has passed
      obtain ⟨v, hv⟩ := processTimer_eq s.clock (s.heap t)
      have hold : (s.heap t).waitingForMutex = true := by
        rw [htimer, hv] at hflag
        exact hflag
      rcases hW.deadline hold with hdue | hlate
      · by_cases hn : n ≤ ms
        · refine .inl ?_
          have hahead := not_passed_of_le start hms hn
          rw [← hdue, ← hW.clock] at hahead
          rw [htimer, processTimer, if_neg hahead, ite_self, hdue]
        · exact .inr (Nat.lt_add_right _ (Nat.lt_of_not_le hn))
      · exact .inr (Nat.lt_add_right _ hlate)

theorem Waiting.sleeps {start : Nat} (hW : Waiting t start ms 0 s) (hms : ms < uintWidth)
    (hrun : Sleeps t s n s') : Waiting t start ms n s' := by
  induction hrun with
  | refl => exact hW
  | tail _ a hother hstep ih => exact ih.step hms hstep hother

theorem Sleeps.ticks (hrun : Sleeps t s n s₁) (hclock : s₁.clock < clockWidth) (k : Nat) :
    Sleeps t s (n + k) { s₁ with clock := (s₁.clock + k) % clockWidth } := by
  induction k with
  | zero =>
    rw [Nat.add_zero, Nat.add_zero, Nat.mod_eq_of_lt hclock]
    exact hrun
  | succ k ih =>
    refine Sleeps.tail ih .tick MutexAct.noConfusion ?_
    simp only [mutexStep, Nat.mod_add_mod, Nat.add_assoc]

/-! ### When a call returns 0 -/

theorem timeoutMs_lt (timeout : Int) : timeoutMs timeout < uintWidth := by
  have huint : uintWidth = 4294967296 := rfl
  simp only [timeoutMs, huint]
  omega

/-- The state in which a call that finds no unit falls asleep. -/
def asleep (s : MutexState) (t : PThread) (timeout : Int) : MutexState :=
  { s with
    mutex := (mutexEnqueue s.mutex s.heap t).1
    heap := sleepHeap s.mutex s.heap t s.clock (timeoutMs timeout)
    inside := s.inside ++ [t] }

theorem mutexStep_sleep (hout : t ∉ s.inside)
    (hfull : ¬ s.mutex.currentLockCount < s.mutex.maximumLockCount) (timeout : Int) :
    mutexStep s (.acquire t timeout) = some (asleep s t timeout) := by
  simp only [mutexStep, if_neg hout, mutexAcquireEnter, if_neg hfull]
  rfl

theorem resume_isSome (hin : t ∈ s.inside) (hsleep : (s.heap t).sleepTime = 0)
    (hflag : (s.heap t).waitingForMutex = true) :
    (mutexStep s (.resume t)).isSome ∧ (mutexAcquireLeave s.mutex s.heap t).1 = false := by
  simp only [mutexStep, if_pos (And.intro hin hsleep), mutexAcquireLeave, if_pos hflag]
  exact ⟨rfl, trivial⟩

theorem sleepTime_of_resume (hsome : (mutexStep s (.resume t)).isSome) :
    (s.heap t).sleepTime = 0 := by
  simp only [mutexStep] at hsome
  split at hsome
  · rename_i hready
    exact hready.2
  · cases hsome

theorem flag_of_leave (hret : (mutexAcquireLeave s.mutex s.heap t).1 = false) :
    (s.heap t).waitingForMutex = true := by
  by_contra hflag
  rw [mutexAcquireLeave, if_neg hflag] at hret
  cases hret

theorem mem_asleep (s : MutexState) (t : PThread) (timeout : Int) :
    t ∈ (asleep s t timeout).inside :=
  List.mem_append_right _ (List.mem_singleton_self t)

theorem asleep_waits (s : MutexState) (t : PThread) (timeout : Int) :
    ((asleep s t timeout).heap t).waitingForMutex = true ∧
      ((asleep s t timeout).heap t).sleepTime = (s.clock + timeoutMs timeout) % clockWidth := by
  have hwaits := sleepHeap_waits s.mutex s.heap t t s.clock (timeoutMs timeout)
  rw [if_pos rfl] at hwaits
  exact ⟨congrArg Prod.fst hwaits, congrArg Prod.snd hwaits⟩

/-- A thread whose deadline is over can run on at any later time: the clock
passes the deadline, the scheduler checks the timer, and the clock goes on. -/
theorem exists_sleeps_late (hclock : s.clock < clockWidth) (hin : t ∈ s.inside)
    (hflag : (s.heap t).waitingForMutex = true)
    (hsleep : (s.heap t).sleepTime = (s.clock + ms) % clockWidth)
    (hne : (s.clock + ms) % clockWidth ≠ 0) (hlate : ms < n) :
    ∃ s', Sleeps t s n s' ∧ t ∈ s'.inside ∧ (s'.heap t).sleepTime = 0 ∧
      (s'.heap t).waitingForMutex = true := by
  have hlt : (s.clock + (ms + 1)) % clockWidth < clockWidth := Nat.mod_lt _ (Nat.two_pow_pos 64)
  have hpass := (Sleeps.refl (t := t)).ticks hclock (ms + 1)
  have hcheck := (hpass.tail (.timer t) MutexAct.noConfusion rfl).ticks hlt (n - (ms + 1))
  have hcleared : processTimer ((s.clock + (ms + 1)) % clockWidth) (s.heap t)
      = { s.heap t with sleepTime := 0 } := by
    have hpassed := passed_succ s.clock ms
    rw [← hsleep] at hpassed hne
    rw [processTimer, if_pos hne, if_pos hpassed]
  have hlen : 0 + (ms + 1) + MutexAct.ticks (.timer t) + (n - (ms + 1)) = n := by
    simp only [MutexAct.ticks]
    omega
  rw [hlen] at hcheck
  refine ⟨_, hcheck, hin, ?_, ?_⟩
  · simp only [Heap.modify_self, hcleared]
  · simp only [Heap.modify_self, hcleared]
    exact hflag

/-- A call that has to wait can return 0 after `n` milliseconds exactly when
the deadline is the time 0 or more milliseconds have passed than the timeout
is as an `unsigned int`. -/
theorem timesOut_iff (hclock : s.clock < clockWidth) (hout : t ∉ s.inside)
    (hfull : ¬ s.mutex.currentLockCount < s.mutex.maximumLockCount) :
    TimesOut s t timeout n ↔
      (s.clock + timeoutMs timeout) % clockWidth = 0 ∨ timeoutMs timeout < n := by
  have hmem := mem_asleep s t timeout
  obtain ⟨hflag, hsleep⟩ := asleep_waits s t timeout
  have henter := mutexStep_sleep hout hfull timeout
  constructor
  · rintro ⟨s₁, s₂, hs₁, -, hrun, hsome, hret⟩
    obtain rfl : asleep s t timeout = s₁ := Option.some.inj (henter.symm.trans hs₁)
    have hstart : Waiting t s.clock (timeoutMs timeout) 0 (asleep s t timeout) :=
      ⟨hmem, (Nat.mod_eq_of_lt hclock).symm, fun _ => .inl hsleep⟩
    have hend := hstart.sleeps (timeoutMs_lt timeout) hrun
    refine (hend.deadline (flag_of_leave hret)).imp (fun hdue => ?_) id
    rw [← hdue]
    exact sleepTime_of_resume hsome
  · intro hcan
    by_cases hzero : (s.clock + timeoutMs timeout) % clockWidth = 0
    · -- a deadline of 0 leaves the thread ready, now and later
      have hrun := (Sleeps.refl (t := t) (s := asleep s t timeout)).ticks hclock n
      rw [Nat.zero_add] at hrun
      exact ⟨_, _, henter, hmem, hrun, resume_isSome hmem (hsleep.trans hzero) hflag⟩
    · obtain ⟨s', hrun, hin, hsleep', hflag'⟩ :=
        exists_sleeps_late (s := asleep s t timeout) hclock hmem hflag hsleep hzero
          (hcan.resolve_left hzero)
      exact ⟨_, s', henter, hmem, hrun, resume_isSome hin hsleep' hflag'⟩

/-! ### The promise of a timeout -/

theorem timeoutMs_infinite : timeoutMs INFINITE = 4294967295 := by decide

theorem timeoutMs_of_nonneg (hpos : 0 ≤ timeout) (hint : timeout < 2 ^ 31) :
    (timeoutMs timeout : Int) = timeout := by
  have huint : uintWidth = 4294967296 := rfl
  simp only [timeoutMs, huint]
  omega

/-- A wait with the timeout `INFINITE` has not returned 0 exactly as long as
at most 4294967295 milliseconds have passed, and a wait with any other
timeout returns 0 only after more milliseconds than it asked for: both with
the one exception of a deadline that is the time 0. -/
theorem mutex_timeouts_iff (hclock : s.clock < clockWidth) (hout : t ∉ s.inside)
    (hfull : ¬ s.mutex.currentLockCount < s.mutex.maximumLockCount) :
    (∀ n, ¬ TimesOut s t INFINITE n ↔
      (s.clock + 4294967295) % clockWidth ≠ 0 ∧ n ≤ 4294967295) ∧
    ∀ timeout : Int, 0 ≤ timeout → timeout < 2 ^ 31 →
      ((∀ n : Nat, TimesOut s t timeout n → timeout < n) ↔
        (s.clock + timeout.toNat) % clockWidth ≠ 0) := by
  constructor
  · intro n
    rw [timesOut_iff hclock hout hfull, timeoutMs_infinite, not_or, Nat.not_lt]
  · intro timeout hpos hint
    have hms := timeoutMs_of_nonneg hpos hint
    have hnat : timeout.toNat = timeoutMs timeout := by omega
    rw [hnat]
    constructor
    · -- a deadline of 0 lets the call return at once
      intro hkept hzero
      have hnow := hkept 0 ((timesOut_iff hclock hout hfull).mpr (.inl hzero))
      omega
    · intro hne n hout'
      have hlate := ((timesOut_iff hclock hout hfull).mp hout').resolve_left hne
      omega

/-- A mutex of one unit that thread 1 has taken at the time `clock`. -/
def takenMutex (clock : Nat) : MutexState :=
  { mutexInit 1 (fun _ => {}) clock with
    mutex := ⟨1, 1, none, none⟩
    held := [1] }

example (clock : Nat) : mutexStep (mutexInit 1 (fun _ => {}) clock) (.acquire 1 INFINITE)
    = some (takenMutex clock) := rfl

/-- At the time 1000 a wait of 20 milliseconds lasts longer than 20, and an
infinite one has not ended after a day. -/
theorem takenMutex_timeouts :
    ¬ TimesOut (takenMutex 1000) 2 INFINITE 86400000 ∧
      ∀ n : Nat, TimesOut (takenMutex 1000) 2 20 n → (20 : Int) < n := by
  have hall := mutex_timeouts_iff (s := takenMutex 1000) (t := 2) (by decide) (by decide)
    (by decide)
  exact ⟨(hall.1 86400000).mpr (by decide), (hall.2 20 (by decide) (by decide)).mpr (by decide)⟩

/-- A wait with the timeout `INFINITE` can return 0 after 4294967296
milliseconds; and a wait of any length that ends at the time 0, such as one
of 0 milliseconds before the clock's first tick, can return 0 at once. -/
theorem takenMutex_gives_up :
    TimesOut (takenMutex 1000) 2 INFINITE 4294967296 ∧ TimesOut (takenMutex 0) 2 0 0 := by
  have hclock : (takenMutex 1000).clock < clockWidth := by decide
  have hclock₀ : (takenMutex 0).clock < clockWidth := by decide
  constructor
  · refine (timesOut_iff hclock (by decide) (by decide)).mpr (.inr ?_)
    decide
  · refine (timesOut_iff hclock₀ (by decide) (by decide)).mpr (.inl ?_)
    decide

end LibXenon
