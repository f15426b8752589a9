/-
LibXenon/MutexSystem.lean

Any number of threads on one mutex.

The state is the mutex, the thread objects, the millisecond clock and, as
bookkeeping, who is inside `mutex_acquire` and who has got a unit from it.
An action is one of the atomic sections of `mutex.c`, a tick of the clock or
the scheduler's timer check on one thread; a sleeping thread runs on when
its sleep time is zero, whoever cleared it.

`units` lists the units given and not yet released, `blocked` the threads
that wait for one, in the order they went to sleep.  Both are read off the
bookkeeping and the threads' own `WaitingForMutex` flags, not off the
mutex.

Results:

* `mutex_count_of_fresh` — when only holders release, `CurrentLockCount` is
  the number of units given, and at most the maximum, along every run that
  never takes a sole waiter with a stale forward link off the list;
* `waitChain_of_few` — the list from `FirstWaiting` is exactly the blocked
  threads in order, along every run in which no release wakes a thread in
  front of others, and the first such release breaks it.

`mutex_count_fails` and `waitChain_fails` are runs on which the code does
not keep these properties: `mutex_release` moves `FirstWaiting` past the
woken thread without unlinking it.
-/
import LibXenon.MutexQueue
import LibXenon.Transition

namespace LibXenon

open Links Transition List

/-! ### The system -/

/-- One mutex and the threads that use it. -/
structure MutexState where
  mutex : Mutex
  heap : Heap
  clock : Nat
  /-- Threads asleep inside `mutex_acquire`, in the order they went to sleep. -/
  inside : List PThread
  /-- A thread for each unit that `mutex_acquire` has returned to it. -/
  held : List PThread

/-- The atomic steps. -/
inductive MutexAct
  | acquire (t : PThread) (timeout : Int)
  | resume (t : PThread)
  | release (t : PThread)
  | tick
  | timer (t : PThread)

/-- One step; `none` when the thread is not where the step starts. -/
def mutexStep (s : MutexState) : MutexAct → Option MutexState
  | .acquire t timeout =>
    if t ∈ s.inside then none
    else
      match mutexAcquireEnter s.mutex s.heap t s.clock timeout with
      | (true, m, h) => some { s with mutex := m, heap := h, held := t :: s.held }
      | (false, m, h) => some { s with mutex := m, heap := h, inside := s.inside ++ [t] }
  | .resume t =>
    if t ∈ s.inside ∧ (s.heap t).sleepTime = 0 then
      match mutexAcquireLeave s.mutex s.heap t with
      | (true, m, h) => some
          { s with mutex := m, heap := h, inside := s.inside.erase t, held := t :: s.held }
      | (false, m, h) => some { s with mutex := m, heap := h, inside := s.inside.erase t }
    else none
  | .release t =>
    -- any running thread may call `mutex_release`
    if t ∈ s.inside then none
    else
      let (m, h) := mutexRelease s.mutex s.heap
      some { s with mutex := m, heap := h, held := s.held.erase t }
  | .tick => some { s with clock := (s.clock + 1) % clockWidth }
  | .timer t => some { s with heap := s.heap.modify t (processTimer s.clock) }

/-- A mutex fresh from `mutex_create(n)`; the thread objects may hold
anything. -/
def mutexInit (n : Nat) (h : Heap) (clock : Nat) : MutexState :=
  ⟨⟨0, n, none, none⟩, h, clock, [], []⟩

/-- The threads blocked in `mutex_acquire`, longest first. -/
def MutexState.blocked (s : MutexState) : List PThread :=
  s.inside.filter fun t => (s.heap t).waitingForMutex

/-- The threads a release has woken that have not run yet. -/
def MutexState.granted (s : MutexState) : List PThread :=
  s.inside.filter fun t => !(s.heap t).waitingForMutex

/-- A thread for each unit given, by an immediate acquire or by a release
that woke it, and not yet released. -/
def MutexState.units (s : MutexState) : List PThread := s.held ++ s.granted

/-! ### What a state of a good run satisfies -/

variable {s s' : MutexState} {t : PThread} {n : Nat}

/-- The invariant of the runs that follow no stale link: the list spells the
blocked threads, and threads block only while all units are out. -/
structure WaitInv (n : Nat) (s : MutexState) : Prop where
  width : n < uintWidth
  maximum : s.mutex.maximumLockCount = n
  nodup : s.inside.Nodup
  queued : Queued s.mutex s.heap s.blocked
  ends : Tidy s.heap s.blocked ∨ Stale s.heap s.blocked
  full : s.blocked ≠ [] → n ≤ s.mutex.currentLockCount

/-- The counter agrees with the units that are out. -/
structure CountInv (n : Nat) (s : MutexState) : Prop where
  count : s.mutex.currentLockCount = s.units.length
  le : s.mutex.currentLockCount ≤ n

theorem MutexState.length_units (s : MutexState) :
    s.units.length + s.blocked.length = s.held.length + s.inside.length := by
  have hsplit := length_eq_length_filter_add
    (l := s.inside) fun t => (s.heap t).waitingForMutex
  simp only [MutexState.units, MutexState.granted, MutexState.blocked, length_append]
  omega

/-- The counter stays, and as many threads have come in as have gone to sleep. -/
theorem CountInv.move (hC : CountInv n s)
    (hcur : s'.mutex.currentLockCount = s.mutex.currentLockCount)
    (hlen : s'.held.length + s'.inside.length + s.blocked.length =
      s.held.length + s.inside.length + s'.blocked.length) : CountInv n s' := by
  have hunits := s.length_units
  have hunits' := s'.length_units
  have hcount := hC.count
  exact ⟨by omega, hcur ▸ hC.le⟩

theorem MutexState.mem_blocked :
    t ∈ s.blocked ↔ t ∈ s.inside ∧ (s.heap t).waitingForMutex = true := by
  rw [MutexState.blocked, mem_filter]

theorem MutexState.notMem_blocked (hflag : (s.heap t).waitingForMutex = false) :
    t ∉ s.blocked := by
  intro hmem
  rw [(MutexState.mem_blocked.mp hmem).2] at hflag
  cases hflag

theorem waitInv_init (hn : n < uintWidth) (h : Heap) (clock : Nat) :
    WaitInv n (mutexInit n h clock) where
  width := hn
  maximum := rfl
  nodup := nodup_nil
  queued := ⟨nodup_nil, rfl, rfl, Seg.nil⟩
  ends := .inl (Tidy.nil h)
  full := fun hne => absurd rfl hne

theorem countInv_init (h : Heap) (clock : Nat) : CountInv n (mutexInit n h clock) :=
  ⟨rfl, Nat.zero_le n⟩

/-! ### The steps -/

theorem WaitInv.blocked_eq_nil (hI : WaitInv n s)
    (hlt : s.mutex.currentLockCount < s.mutex.maximumLockCount) : s.blocked = [] := by
  by_contra hne
  have hfull := hI.full hne
  rw [hI.maximum] at hlt
  omega

/-- `mutex_acquire` takes a free unit. -/
theorem WaitInv.take (hI : WaitInv n s)
    (hlt : s.mutex.currentLockCount < s.mutex.maximumLockCount) :
    let s' := { s with
      mutex := { s.mutex with currentLockCount := uintSucc s.mutex.currentLockCount },
      held := t :: s.held }
    WaitInv n s' ∧ (CountInv n s → CountInv n s') := by
  intro s'
  have hnil := hI.blocked_eq_nil hlt
  have hmax := hI.maximum
  have hsucc : uintSucc s.mutex.currentLockCount = s.mutex.currentLockCount + 1 :=
    uintSucc_of_lt hlt (hmax ▸ hI.width)
  refine ⟨⟨hI.width, hmax, hI.nodup, hI.queued.withCount _, hI.ends,
    fun hne => absurd hnil hne⟩, ?_⟩
  intro hC
  have hcount := hC.count
  constructor
  · show uintSucc s.mutex.currentLockCount = (t :: s.held ++ s.granted).length
    rw [hsucc, hcount]
    simp only [MutexState.units, length_append, length_cons]
    omega
  · show uintSucc s.mutex.currentLockCount ≤ n
    rw [hsucc]
    omega

/-- The heap after a thread has queued itself, flagged itself and set its
sleep time. -/
def sleepHeap (m : Mutex) (h : Heap) (t : PThread) (clock milliseconds : Nat) : Heap :=
  mutexSleep ((mutexEnqueue m h t).2.modify t fun thr => { thr with waitingForMutex := true })
    t clock milliseconds

theorem sleepHeap_flag (m : Mutex) (h : Heap) (t x : PThread) (clock ms : Nat) :
    (sleepHeap m h t clock ms x).waitingForMutex =
      if x = t then true else (h x).waitingForMutex := by
  have hms : (sleepHeap m h t clock ms x).waitingForMutex =
      (((mutexEnqueue m h t).2.modify t fun thr =>
        { thr with waitingForMutex := true }) x).waitingForMutex :=
    Heap.modify_field _ t x Thread.waitingForMutex fun _ => rfl
  rw [hms, Heap.modify_apply]
  split
  · rfl
  · exact mutexEnqueue_flag m h t x

theorem sleepHeap_links (m : Mutex) (h : Heap) (t : PThread) (clock ms : Nat) :
    nextMutex (sleepHeap m h t clock ms) = nextMutex (mutexEnqueue m h t).2 ∧
      prevMutex (sleepHeap m h t clock ms) = prevMutex (mutexEnqueue m h t).2 := by
  constructor
  · rw [sleepHeap, mutexSleep, nextMutex_modify, nextMutex_modify] <;> exact fun _ => rfl
  · rw [sleepHeap, mutexSleep, prevMutex_modify, prevMutex_modify] <;> exact fun _ => rfl

/-- `mutex_acquire` finds no unit and goes to sleep. -/
theorem WaitInv.sleep (hI : WaitInv n s) (ht : t ∉ s.inside)
    (hge : ¬ s.mutex.currentLockCount < s.mutex.maximumLockCount) (ms : Nat) :
    let s' := { s with
      mutex := (mutexEnqueue s.mutex s.heap t).1,
      heap := sleepHeap s.mutex s.heap t s.clock ms,
      inside := s.inside ++ [t] }
    WaitInv n s' ∧ (CountInv n s → CountInv n s') ∧ Tidy s'.heap s'.blocked ∧
      s'.blocked = s.blocked ++ [t] := by
  intro s'
  obtain ⟨hcur, hmax⟩ := mutexEnqueue_counts s.mutex s.heap t
  obtain ⟨hnext, hprev⟩ := sleepHeap_links s.mutex s.heap t s.clock ms
  have htb : t ∉ s.blocked := fun hmem => ht (MutexState.mem_blocked.mp hmem).1
  -- only the flag of `t` changes, and `t` was not inside before
  have hold : s.inside.filter (fun x => (s'.heap x).waitingForMutex) = s.blocked := by
    apply filter_congr
    intro x hx
    have hxt : x ≠ t := fun e => ht (e ▸ hx)
    show (sleepHeap s.mutex s.heap t s.clock ms x).waitingForMutex = _
    rw [sleepHeap_flag, if_neg hxt]
  have hblocked : s'.blocked = s.blocked ++ [t] := by
    show (s.inside ++ [t]).filter (fun x => (s'.heap x).waitingForMutex) = _
    have hself : (s'.heap t).waitingForMutex = true := by
      show (sleepHeap s.mutex s.heap t s.clock ms t).waitingForMutex = true
      rw [sleepHeap_flag, if_pos rfl]
    rw [filter_append, hold]
    simp [hself]
  obtain ⟨hQ, hT⟩ := hI.queued.enqueue htb
  have hT' : Tidy s'.heap s'.blocked := by
    rw [hblocked]
    exact hT.congr hnext hprev
  refine ⟨⟨hI.width, hmax.trans hI.maximum, ?_, ?_, .inl hT', ?_⟩, ?_, hT', hblocked⟩
  · show (s.inside ++ [t]).Nodup
    rw [← concat_eq_append]
    exact hI.nodup.concat ht
  · rw [hblocked]
    exact Queued.congr hQ hnext hprev
  · intro _
    show n ≤ (mutexEnqueue s.mutex s.heap t).1.currentLockCount
    rw [← hI.maximum]
    omega
  · refine fun hC => hC.move hcur ?_
    show s.held.length + (s.inside ++ [t]).length + _ = _
    rw [hblocked, length_append, length_append, length_singleton]
    omega

theorem filter_erase_of_nodup {l : List PThread} (hn : l.Nodup) (p : PThread → Bool)
    (t : PThread) : (l.erase t).filter p = (l.filter p).erase t := by
  rw [hn.erase_eq_filter, (hn.filter p).erase_eq_filter, filter_comm]

theorem WaitInv.leave_granted (hI : WaitInv n s) (ht : t ∈ s.inside)
    (hflag : (s.heap t).waitingForMutex = false) :
    let s' := { s with inside := s.inside.erase t, held := t :: s.held }
    WaitInv n s' ∧ (CountInv n s → CountInv n s') ∧ s'.blocked = s.blocked := by
  intro s'
  have hblocked : s'.blocked = s.blocked := by
    show (s.inside.erase t).filter _ = _
    rw [filter_erase_of_nodup hI.nodup]
    exact erase_of_not_mem (MutexState.notMem_blocked hflag)
  refine ⟨⟨hI.width, hI.maximum, hI.nodup.erase t, ?_, ?_, ?_⟩, ?_, hblocked⟩
  · rw [hblocked]
    exact hI.queued
  · rw [hblocked]
    exact hI.ends
  · rw [hblocked]
    exact hI.full
  · refine fun hC => hC.move rfl ?_
    have hin : s'.inside.length = s.inside.length - 1 := length_erase_of_mem ht
    have hpos : 0 < s.inside.length := length_pos_of_mem ht
    have hheld : s'.held.length = s.held.length + 1 := length_cons
    rw [hblocked]
    omega

/-- A sole waiter's forward link, as a condition on the state. -/
def SoleWaiterClean (s : MutexState) : Prop :=
  ∀ t ∈ s.mutex.firstWaiting, s.mutex.lastWaiting = some t → NextClean s.heap t

theorem WaitInv.leave_timeout (hI : WaitInv n s) (ht : t ∈ s.inside)
    (hflag : (s.heap t).waitingForMutex = true) (hclean : SoleWaiterClean s) :
    let s' := { s with
      mutex := (mutexUnlink s.mutex s.heap t).1,
      heap := (mutexUnlink s.mutex s.heap t).2,
      inside := s.inside.erase t }
    WaitInv n s' ∧ (CountInv n s → CountInv n s') ∧
      (Tidy s.heap s.blocked → Tidy s'.heap s'.blocked) ∧ s'.blocked = s.blocked.erase t := by
  intro s'
  obtain ⟨hcur, hmax⟩ := mutexUnlink_counts s.mutex s.heap t
  have htb : t ∈ s.blocked := MutexState.mem_blocked.mpr ⟨ht, hflag⟩
  have hblocked : s'.blocked = s.blocked.erase t := by
    show (s.inside.erase t).filter (fun x => (s'.heap x).waitingForMutex) = _
    rw [MutexState.blocked, ← filter_erase_of_nodup hI.nodup]
    apply filter_congr
    intro x _
    exact mutexUnlink_flag s.mutex s.heap t x
  -- the queue is split where the thread stands
  obtain ⟨q₁, q₂, hq⟩ := append_of_mem htb
  have hQ := hI.queued
  have hends := hI.ends
  rw [hq] at hQ hends
  have herase : s.blocked.erase t = q₁ ++ q₂ := by
    have htq : t ∉ q₁ := fun hmem =>
      (nodup_append.mp hQ.nodup).2.2 t hmem t mem_cons_self rfl
    rw [hq, erase_append_right _ htq, erase_cons_head]
  -- a thread alone in the queue must not be linked to one that left
  have hsole : q₁ = [] → q₂ = [] → NextClean s.heap t := by
    rintro rfl rfl
    exact hclean t hQ.first hQ.last
  obtain ⟨hQ', htidy', hstale'⟩ := hQ.unlink hends hsole
  refine ⟨⟨hI.width, hmax.trans hI.maximum, hI.nodup.erase t, ?_, ?_, ?_⟩, ?_, ?_, hblocked⟩
  · rw [hblocked, herase]
    exact hQ'
  · rw [hblocked, herase]
    rcases hends with htidy | hstale
    · exact .inl (htidy' htidy)
    · exact .inr (hstale' hstale)
  · intro _
    show n ≤ (mutexUnlink s.mutex s.heap t).1.currentLockCount
    rw [hcur]
    exact hI.full (ne_nil_of_mem htb)
  · refine fun hC => hC.move hcur ?_
    have hpos := length_pos_of_mem ht
    have hbpos := length_pos_of_mem htb
    show s.held.length + (s.inside.erase t).length + _ = _
    rw [hblocked, length_erase_of_mem ht, length_erase_of_mem htb]
    omega
  · intro htidy
    rw [hq] at htidy
    rw [hblocked, herase]
    exact htidy' htidy

/-! ### Release -/

/-- The release finds a waiter and, with its own unit returned, a unit for
it. -/
def Wakes (s : MutexState) : Prop :=
  s.mutex.firstWaiting ≠ none ∧
    uintPred s.mutex.currentLockCount < s.mutex.maximumLockCount

theorem mutexReleaseLoop_stop (fuel : Nat) {m : Mutex} (h : Heap)
    (hstop : ¬ (m.firstWaiting ≠ none ∧ m.currentLockCount < m.maximumLockCount)) :
    mutexReleaseLoop fuel m h = (m, h) := by
  cases fuel with
  | zero => rfl
  | succ fuel =>
    rcases hf : m.firstWaiting with - | a
    · rw [mutexReleaseLoop, hf]
    · have hge : ¬ m.currentLockCount < m.maximumLockCount := by
        intro hlt
        exact hstop ⟨by rw [hf]; simp, hlt⟩
      simp only [mutexReleaseLoop, hf, if_neg hge]

theorem mutexRelease_of_not_wakes (hw : ¬ Wakes s) :
    mutexRelease s.mutex s.heap =
      ({ s.mutex with currentLockCount := uintPred s.mutex.currentLockCount }, s.heap) := by
  exact mutexReleaseLoop_stop _ s.heap hw

theorem WaitInv.mutexRelease_of_wakes (hI : WaitInv n s) (hw : Wakes s) :
    ∃ a r, s.blocked = a :: r ∧ s.mutex.currentLockCount = n ∧ 0 < n ∧
      mutexRelease s.mutex s.heap =
        mutexWake { s.mutex with currentLockCount := n - 1 } s.heap a := by
  obtain ⟨hfirst, hlt⟩ := hw
  rcases hb : s.blocked with - | ⟨a, r⟩
  · rw [hI.queued.first, hb] at hfirst
    exact absurd rfl hfirst
  have hfull : n ≤ s.mutex.currentLockCount := hI.full (by rw [hb]; simp)
  have hwidth := hI.width
  rw [hI.maximum] at hlt
  -- a count of zero would have wrapped beyond every maximum
  have hpos : 0 < s.mutex.currentLockCount := by
    rcases Nat.eq_zero_or_pos s.mutex.currentLockCount with h0 | hpos
    · rw [h0] at hlt
      simp only [uintPred, if_true] at hlt
      omega
    · exact hpos
  have hpred := uintPred_of_pos hpos
  have hcur : s.mutex.currentLockCount = n := by omega
  refine ⟨a, r, rfl, hcur, by omega, ?_⟩
  have hfirst' : s.mutex.firstWaiting = some a := by
    rw [hI.queued.first, hb]
    rfl
  have hone : s.mutex.maximumLockCount - (n - 1) = 1 := by
    rw [hI.maximum]
    omega
  have hlt' : n - 1 < s.mutex.maximumLockCount := by
    rw [hI.maximum]
    omega
  rw [mutexRelease, hpred, hcur, hone]
  simp only [mutexReleaseLoop, hfirst', if_pos hlt']

theorem WaitInv.release_idle (hI : WaitInv n s) (hw : ¬ Wakes s) {m' : Mutex} {h' : Heap}
    (hrel : mutexRelease s.mutex s.heap = (m', h')) :
    let s' := { s with mutex := m', heap := h', held := s.held.erase t }
    WaitInv n s' ∧ (t ∈ s.held → CountInv n s → CountInv n s') ∧ h' = s.heap := by
  rw [mutexRelease_of_not_wakes hw] at hrel
  cases hrel
  refine ⟨⟨hI.width, hI.maximum, hI.nodup, hI.queued.withCount _, hI.ends, ?_⟩, ?_, rfl⟩
  · intro hne
    show n ≤ uintPred s.mutex.currentLockCount
    have hfirst : s.mutex.firstWaiting ≠ none := by
      obtain ⟨a, -, ha, -⟩ := ends_of_ne_nil hne
      rw [hI.queued.first]
      intro hnone
      exact absurd (ha.symm.trans hnone) (by simp)
    rw [← hI.maximum]
    by_contra hge
    exact hw ⟨hfirst, by omega⟩
  · intro ht hC
    have hcount := hC.count
    have hpos : 0 < s.held.length := length_pos_of_mem ht
    rw [MutexState.units, length_append] at hcount
    have hpred : uintPred s.mutex.currentLockCount = s.mutex.currentLockCount - 1 :=
      uintPred_of_pos (by omega)
    constructor
    · show uintPred s.mutex.currentLockCount = (s.held.erase t ++ s.granted).length
      rw [hpred, length_append, length_erase_of_mem ht]
      omega
    · show uintPred s.mutex.currentLockCount ≤ n
      have hle := hC.le
      omega

theorem WaitInv.release_wake (hI : WaitInv n s) (hw : Wakes s) (hclean : SoleWaiterClean s)
    {m' : Mutex} {h' : Heap} (hrel : mutexRelease s.mutex s.heap = (m', h')) :
    let s' := { s with mutex := m', heap := h', held := s.held.erase t }
    WaitInv n s' ∧ (t ∈ s.held → CountInv n s → CountInv n s') ∧
      s'.blocked = s.blocked.tail ∧ Stale s'.heap s'.blocked := by
  intro s'
  obtain ⟨a, r, hcons, hcur, hpos, hwake⟩ := hI.mutexRelease_of_wakes hw
  rw [hrel] at hwake
  have hQ := hI.queued
  have hends := hI.ends
  rw [hcons] at hQ hends
  have har : a ∉ r := (nodup_cons.mp hQ.nodup).1
  have hmutex : s'.mutex = (mutexWake { s.mutex with currentLockCount := n - 1 } s.heap a).1 :=
    congrArg Prod.fst hwake
  have hheap : s'.heap = (mutexWake { s.mutex with currentLockCount := n - 1 } s.heap a).2 :=
    congrArg Prod.snd hwake
  have hflag : ∀ x, (s'.heap x).waitingForMutex =
      ((s.heap x).waitingForMutex && decide (x ≠ a)) := by
    intro x
    rw [hheap]
    show (s.heap.modify a _ x).waitingForMutex = _
    rw [Heap.modify_apply]
    by_cases hx : x = a
    · simp [hx]
    · simp [hx]
  -- the woken thread, and no other, stops being blocked
  have hblocked : s'.blocked = r := by
    have hsplit : s'.blocked = s.blocked.filter fun x => decide (x ≠ a) := by
      show s.inside.filter (fun x => (s'.heap x).waitingForMutex) = _
      rw [MutexState.blocked, filter_filter]
      apply filter_congr
      intro x _
      rw [hflag, Bool.and_comm]
    rw [hsplit, hcons, filter_cons, if_neg (by simp), filter_eq_self]
    intro x hx
    exact decide_eq_true fun e => har (e ▸ hx)
  have hcur' : s'.mutex.currentLockCount = n := by
    rw [hmutex, mutexWake_current, uintSucc_of_lt (y := n) (by show n - 1 < n; omega) hI.width]
    show n - 1 + 1 = n
    omega
  have hQ' : Queued s'.mutex s'.heap r := by
    rw [hmutex, hheap]
    refine (hQ.withCount (n - 1)).wake ?_
    rintro rfl
    exact hclean a hQ.first hQ.last
  have hstale : Stale s'.heap r := by
    rw [hheap]
    exact (hQ.withCount (n - 1)).stale_wake hends
  rw [hblocked, hcons]
  refine ⟨⟨hI.width, ?_, hI.nodup, ?_, ?_, ?_⟩, ?_, rfl, hstale⟩
  · rw [hmutex, mutexWake_maximum]
    exact hI.maximum
  · rw [hblocked]
    exact hQ'
  · rw [hblocked]
    exact .inr hstale
  · intro _
    rw [hcur']
  · refine fun ht hC => hC.move (hcur'.trans hcur.symm) ?_
    have hlen : 0 < s.held.length := length_pos_of_mem ht
    show (s.held.erase t).length + s.inside.length + _ = _
    rw [hblocked, hcons, length_erase_of_mem ht, length_cons]
    omega

/-! ### One step of a good run -/

/-- A step follows no stale link: whoever takes the sole waiter off the list
(a release, or that waiter itself after a timeout) finds its
`NextThreadMutex` NULL or leading back to itself. -/
def LinksFresh (s : MutexState) : MutexAct → Prop
  | .resume t => (s.heap t).waitingForMutex = true → SoleWaiterClean s
  | .release _ => SoleWaiterClean s
  | _ => True

/-- A step leaves no stale link behind: a release that wakes a thread finds
no other waiter in the list. -/
def ReleaseToFew (s : MutexState) : MutexAct → Prop
  | .release _ => Wakes s → s.mutex.firstWaiting = s.mutex.lastWaiting
  | _ => True

/-- Only a thread that holds a unit calls `mutex_release`. -/
def HolderReleases (s : MutexState) : MutexAct → Prop
  | .release t => t ∈ s.held
  | _ => True

/-- What a step does to the order of the blocked threads: newcomers queue
behind, a release that wakes a thread wakes the longest blocked one, and a
thread that leaves changes nothing for the others. -/
def FifoStep (s : MutexState) (a : MutexAct) (s' : MutexState) : Prop :=
  match a with
  | .acquire t _ => s'.blocked = s.blocked ∨ s'.blocked = s.blocked ++ [t]
  | .resume t => s'.blocked = s.blocked.erase t
  | .release _ => (Wakes s → s'.blocked = s.blocked.tail) ∧ (¬ Wakes s → s'.blocked = s.blocked)
  | _ => s'.blocked = s.blocked

/-- What is proved of every step: the invariants are kept, a tidy list stays
tidy unless the step wakes a thread in front of others, and the waiters are
served in order. -/
structure StepOk (n : Nat) (s : MutexState) (a : MutexAct) (s' : MutexState) : Prop where
  wait : WaitInv n s'
  count : HolderReleases s a → CountInv n s → CountInv n s'
  tidy : Tidy s.heap s.blocked → ReleaseToFew s a → Tidy s'.heap s'.blocked
  fifo : FifoStep s a s'

theorem WaitInv.congr_heap (hI : WaitInv n s) {h' : Heap} (clock : Nat)
    (hflag : ∀ x, (h' x).waitingForMutex = (s.heap x).waitingForMutex)
    (hnext : nextMutex h' = nextMutex s.heap) (hprev : prevMutex h' = prevMutex s.heap) :
    let s' := { s with heap := h', clock := clock }
    WaitInv n s' ∧ (CountInv n s → CountInv n s') ∧
      (Tidy s.heap s.blocked → Tidy h' s'.blocked) ∧ s'.blocked = s.blocked := by
  intro s'
  have hblocked : s'.blocked = s.blocked := by
    show s.inside.filter (fun x => (h' x).waitingForMutex) = _
    rw [MutexState.blocked]
    apply filter_congr
    intro x _
    exact hflag x
  have htidy : Tidy s.heap s.blocked → Tidy h' s.blocked := fun h => h.congr hnext hprev
  rw [hblocked]
  refine ⟨⟨hI.width, hI.maximum, hI.nodup, ?_, ?_, ?_⟩, fun hC => hC.move rfl ?_, htidy, rfl⟩
  · rw [hblocked]
    exact hI.queued.congr hnext hprev
  · rw [hblocked]
    exact hI.ends.imp htidy fun h => h.congr hnext hprev
  · rw [hblocked]
    exact hI.full
  · rw [hblocked]

theorem WaitInv.soleWaiterClean (hI : WaitInv n s) (htidy : Tidy s.heap s.blocked) :
    SoleWaiterClean s := by
  intro t hf hl
  rw [hI.queued.first] at hf
  rw [hI.queued.last] at hl
  rcases htidy t t hf hl with ⟨-, -, hn⟩ | ⟨-, hn⟩
  · exact .inl hn
  · exact .inr hn

theorem WaitInv.linksFresh (hI : WaitInv n s) (htidy : Tidy s.heap s.blocked) (a : MutexAct) :
    LinksFresh s a := by
  have hclean := hI.soleWaiterClean htidy
  cases a with
  | resume t => exact fun _ => hclean
  | release t => exact hclean
  | acquire t timeout | tick | timer t => trivial

theorem WaitInv.step_acquire (hI : WaitInv n s) {timeout : Int}
    (hs : mutexStep s (.acquire t timeout) = some s') : StepOk n s (.acquire t timeout) s' := by
  rw [mutexStep] at hs
  split at hs
  · cases hs
  · rename_i ht
    by_cases hlt : s.mutex.currentLockCount < s.mutex.maximumLockCount
    · rw [mutexAcquireEnter, if_pos hlt] at hs
      cases hs
      obtain ⟨hI', hC⟩ := hI.take (t := t) hlt
      exact ⟨hI', fun _ => hC, fun htidy _ => htidy, .inl rfl⟩
    · rw [mutexAcquireEnter, if_neg hlt] at hs
      cases hs
      obtain ⟨hI', hC, htidy, hblocked⟩ :=
        hI.sleep ht hlt (timeout % (uintWidth : Int)).toNat
      exact ⟨hI', fun _ => hC, fun _ _ => htidy, .inr hblocked⟩

theorem WaitInv.step_resume (hI : WaitInv n s) (hs : mutexStep s (.resume t) = some s')
    (hfresh : LinksFresh s (.resume t)) : StepOk n s (.resume t) s' := by
  rw [mutexStep] at hs
  split at hs
  · rename_i ht
    rcases hflag : (s.heap t).waitingForMutex with - | -
    · rw [mutexAcquireLeave, hflag] at hs
      cases hs
      obtain ⟨hI', hC, hblocked⟩ := hI.leave_granted ht.1 hflag
      refine ⟨hI', fun _ => hC, fun htidy _ => ?_, ?_⟩
      · rw [hblocked]
        exact htidy
      · show _ = s.blocked.erase t
        rw [hblocked, erase_of_not_mem (MutexState.notMem_blocked hflag)]
    · rw [mutexAcquireLeave, hflag] at hs
      cases hs
      obtain ⟨hI', hC, htidy, hblocked⟩ := hI.leave_timeout ht.1 hflag (hfresh hflag)
      exact ⟨hI', fun _ => hC, fun h _ => htidy h, hblocked⟩
  · cases hs

theorem eq_nil_of_ends_eq {a : PThread} {r : List PThread} (hn : (a :: r).Nodup)
    (he : (a :: r).head? = (a :: r).getLast?) : r = [] := by
  by_contra hne
  obtain ⟨-, z, -, hz⟩ := ends_of_ne_nil hne
  have hza : a = z := by
    rw [List.getLast?_cons, hz] at he
    simpa using he
  exact (nodup_cons.mp hn).1 (hza ▸ mem_of_getLast? hz)

theorem WaitInv.tail_blocked_eq_nil (hI : WaitInv n s) :
    s.blocked.tail = [] ↔ s.mutex.firstWaiting = s.mutex.lastWaiting := by
  rw [hI.queued.first, hI.queued.last]
  have hnodup := hI.queued.nodup
  rcases hb : s.blocked with - | ⟨a, r⟩
  · simp
  · rw [hb] at hnodup
    constructor
    · intro hr
      rw [tail_cons] at hr
      rw [hr]
      rfl
    · exact eq_nil_of_ends_eq hnodup

theorem WaitInv.step_release (hI : WaitInv n s) (hs : mutexStep s (.release t) = some s')
    (hfresh : SoleWaiterClean s) :
    StepOk n s (.release t) s' ∧ (Wakes s → Stale s'.heap s'.blocked) := by
  rw [mutexStep] at hs
  split at hs
  · cases hs
  · rcases hrel : mutexRelease s.mutex s.heap with ⟨m', h'⟩
    rw [hrel] at hs
    cases hs
    by_cases hw : Wakes s
    · obtain ⟨hI', hC, hblocked, hstale⟩ := hI.release_wake (t := t) hw hfresh hrel
      refine ⟨⟨hI', hC, fun _ hfew => ?_, fun _ => hblocked, fun hn => absurd hw hn⟩,
        fun _ => hstale⟩
      rw [hblocked, hI.tail_blocked_eq_nil.mpr (hfew hw)]
      exact Tidy.nil _
    · obtain ⟨hI', hC, rfl⟩ := hI.release_idle (t := t) hw hrel
      exact ⟨⟨hI', hC, fun htidy _ => htidy, fun h => absurd h hw, fun _ => rfl⟩,
        fun h => absurd h hw⟩

theorem WaitInv.step_timer (hI : WaitInv n s) (hs : mutexStep s (.timer t) = some s') :
    StepOk n s (.timer t) s' := by
  cases hs
  have hfield : ∀ {β : Type} (g : Thread → β), (∀ a v, g { a with sleepTime := v } = g a) →
      ∀ x, g (s.heap.modify t (processTimer s.clock) x) = g (s.heap x) := by
    intro β g hg x
    apply Heap.modify_field
    intro a
    obtain ⟨v, hv⟩ := processTimer_eq s.clock a
    rw [hv, hg]
  obtain ⟨hI', hC, htidy, hblocked⟩ := hI.congr_heap s.clock
    (hfield Thread.waitingForMutex fun _ _ => rfl)
    (funext (hfield Thread.nextThreadMutex fun _ _ => rfl))
    (funext (hfield Thread.previousThreadMutex fun _ _ => rfl))
  exact ⟨hI', fun _ => hC, fun h _ => htidy h, hblocked⟩

/-- **One step** of a run that follows no stale link. -/
theorem WaitInv.step (hI : WaitInv n s) {a : MutexAct} (hs : mutexStep s a = some s')
    (hfresh : LinksFresh s a) : StepOk n s a s' := by
  cases a with
  | acquire t timeout => exact hI.step_acquire hs
  | resume t => exact hI.step_resume hs hfresh
  | release t => exact (hI.step_release hs hfresh).1
  | tick =>
    cases hs
    obtain ⟨hI', hC, htidy, hblocked⟩ := hI.congr_heap ((s.clock + 1) % clockWidth)
      (fun _ => rfl) rfl rfl
    exact ⟨hI', fun _ => hC, fun h _ => htidy h, hblocked⟩
  | timer t => exact hI.step_timer hs

/-! ### The count of units -/

instance (h : Heap) (t : PThread) : Decidable (NextClean h t) := by
  delta NextClean
  infer_instance

instance (s : MutexState) : Decidable (SoleWaiterClean s) := by
  delta SoleWaiterClean
  infer_instance

instance (s : MutexState) : Decidable (Wakes s) := by
  delta Wakes
  infer_instance

instance (s : MutexState) (a : MutexAct) : Decidable (LinksFresh s a) := by
  cases a <;> dsimp only [LinksFresh] <;> infer_instance

instance (s : MutexState) (a : MutexAct) : Decidable (ReleaseToFew s a) := by
  cases a <;> dsimp only [ReleaseToFew] <;> infer_instance

instance (s : MutexState) (a : MutexAct) : Decidable (HolderReleases s a) := by
  cases a <;> dsimp only [HolderReleases] <;> infer_instance

/-- **The lock count is the number of units given.**  In every run whose
releases are made by holders and that never takes a sole waiter with a
stale forward link off the list, `CurrentLockCount` is the number of units
given and not yet released (the number of their holders, when no thread has
two), and it never exceeds the maximum. -/
theorem mutex_count_of_fresh (n : Nat) (hn : n < uintWidth) (h : Heap) (clock : Nat)
    (s : MutexState)
    (hr : Reach mutexStep (fun s a => HolderReleases s a ∧ LinksFresh s a)
      (mutexInit n h clock) s) :
    s.mutex.currentLockCount = s.units.length ∧
      (s.units.Nodup → s.mutex.currentLockCount = s.units.toFinset.card) ∧
      s.mutex.currentLockCount ≤ n := by
  have hinv : WaitInv n s ∧ CountInv n s := by
    refine hr.invariant (I := fun s => WaitInv n s ∧ CountInv n s)
      ⟨waitInv_init hn h clock, countInv_init h clock⟩ ?_
    rintro s a s' ⟨hI, hC⟩ ⟨hholder, hfresh⟩ hs
    have hok := hI.step hs hfresh
    exact ⟨hok.wait, hok.count hholder hC⟩
  refine ⟨hinv.2.count, ?_, hinv.2.le⟩
  intro hnodup
  rw [toFinset_card_of_nodup hnodup]
  exact hinv.2.count

/-- One thread waits for another's unit and gets it: the theorem applies. -/
theorem mutex_count_handover :
    ∃ s, Reach mutexStep (fun s a => HolderReleases s a ∧ LinksFresh s a)
        (mutexInit 1 (fun _ => {}) 0) s ∧ s.units = [1] ∧
      s.mutex.currentLockCount = s.units.length ∧ s.mutex.currentLockCount ≤ 1 := by
  refine exists_reach_imp [.acquire 0 (-1), .acquire 1 (-1), .release 0, .resume 1]
    (fun s => s.units = [1]) (by decide) fun s hr hunits => ⟨hunits, ?_⟩
  obtain ⟨hcount, -, hle⟩ := mutex_count_of_fresh 1 (by decide) _ 0 s hr
  exact ⟨hcount, hle⟩

/-- Two waiters, served one after the other: the second release leaves
`FirstWaiting` at the thread woken first, and the third release gives that
thread, which has long left, a unit that no one will return. -/
theorem mutex_count_fails :
    ∃ s, Reach mutexStep HolderReleases (mutexInit 1 (fun _ => {}) 0) s ∧
      s.units = [] ∧ s.mutex.currentLockCount = 1 := by
  exact exists_reach [.acquire 0 (-1), .acquire 1 (-1), .acquire 2 (-1), .release 0, .resume 1,
    .release 1, .resume 2, .release 2] (by decide)

/-! ### The chain of waiters -/

/-- The chain that starts at `FirstWaiting`, followed through
`NextThreadMutex` to NULL or back to its start, runs through `l`. -/
structure WaitChain (m : Mutex) (h : Heap) (l : List PThread) : Prop where
  nodup : l.Nodup
  start : m.firstWaiting = l.head?
  links : l.IsChain fun a b => nextMutex h a = some b
  close : ∀ z, l.getLast? = some z → nextMutex h z = none ∨ nextMutex h z = m.firstWaiting

theorem WaitInv.waitChain (hI : WaitInv n s) (htidy : Tidy s.heap s.blocked) :
    WaitChain s.mutex s.heap s.blocked where
  nodup := hI.queued.nodup
  start := hI.queued.first
  links := hI.queued.seg.imp fun _ _ hab => hab.1
  close := by
    intro z hz
    obtain ⟨a, -, ha, -⟩ := ends_of_ne_nil (ne_nil_of_mem (mem_of_getLast? hz))
    rw [hI.queued.first, ha]
    rcases htidy a z ha hz with ⟨-, -, hnone⟩ | ⟨-, hsome⟩
    · exact .inl hnone
    · exact .inr hsome

theorem Stale.not_waitChain {m : Mutex} {h : Heap} {q : List PThread} (hstale : Stale h q)
    (hq : q ≠ []) : ¬ WaitChain m h q := by
  intro hchain
  obtain ⟨a, z, ha, hz⟩ := ends_of_ne_nil hq
  obtain ⟨-, y, -, hy, -, hym⟩ := hstale a z ha hz
  rcases hchain.close z hz with hnone | hsome
  · rw [hy] at hnone
    cases hnone
  · rw [hy, hchain.start, ha] at hsome
    cases hsome
    exact hym (mem_of_head? ha)

theorem WaitInv.not_waitChain_release (hI : WaitInv n s) (htidy : Tidy s.heap s.blocked)
    (hs : mutexStep s (.release t) = some s') (hmany : ¬ ReleaseToFew s (.release t)) :
    ¬ WaitChain s'.mutex s'.heap s'.blocked := by
  obtain ⟨hw, hne⟩ : Wakes s ∧ s.mutex.firstWaiting ≠ s.mutex.lastWaiting :=
    Classical.not_imp.mp hmany
  obtain ⟨hok, hstale⟩ := hI.step_release hs (hI.soleWaiterClean htidy)
  refine (hstale hw).not_waitChain ?_
  rw [hok.fifo.1 hw]
  exact fun hnil => hne (hI.tail_blocked_eq_nil.mp hnil)

/-- Every state of a run without a release over several waiters satisfies
the invariant, with a tidy list. -/
theorem tidy_of_reach (hn : n < uintWidth) {h : Heap} {clock : Nat}
    (hr : Reach mutexStep ReleaseToFew (mutexInit n h clock) s) :
    WaitInv n s ∧ Tidy s.heap s.blocked := by
  refine hr.invariant (I := fun s => WaitInv n s ∧ Tidy s.heap s.blocked)
    ⟨waitInv_init hn h clock, Tidy.nil h⟩ ?_
  rintro s a s' ⟨hI, htidy⟩ hfew hs
  have hok := hI.step hs (hI.linksFresh htidy a)
  exact ⟨hok.wait, hok.tidy htidy hfew⟩

/-- **The waiter list is the blocked threads, first come first served**, in
every run in which no release wakes a thread in front of others; and the
first release that does leaves a thread in the list that is not blocked. -/
theorem waitChain_of_few (n : Nat) (hn : n < uintWidth) (h : Heap) (clock : Nat)
    (s : MutexState) (hr : Reach mutexStep ReleaseToFew (mutexInit n h clock) s) :
    WaitChain s.mutex s.heap s.blocked ∧
      ∀ a s', mutexStep s a = some s' →
        (ReleaseToFew s a → FifoStep s a s' ∧ WaitChain s'.mutex s'.heap s'.blocked) ∧
        (¬ ReleaseToFew s a → ¬ WaitChain s'.mutex s'.heap s'.blocked) := by
  obtain ⟨hI, htidy⟩ := tidy_of_reach hn hr
  refine ⟨hI.waitChain htidy, ?_⟩
  intro a s' hs
  constructor
  · intro hfew
    obtain ⟨hI', htidy'⟩ := tidy_of_reach hn (hr.tail hfew hs)
    exact ⟨(hI.step hs (hI.linksFresh htidy a)).fifo, hI'.waitChain htidy'⟩
  · intro hmany
    cases a with
    | release t => exact hI.not_waitChain_release htidy hs hmany
    | acquire t timeout | resume t | tick | timer t => exact absurd trivial hmany

/-- Two threads wait, the clock passes the first one's sleep time and it
gives up: the theorem applies, and the other waiter is still in the chain. -/
theorem waitChain_timeout :
    ∃ s, Reach mutexStep ReleaseToFew (mutexInit 1 (fun _ => {}) 5) s ∧ s.blocked = [2] ∧
      WaitChain s.mutex s.heap s.blocked := by
  exact exists_reach_imp
    [.acquire 0 (-1), .acquire 1 0, .acquire 2 (-1), .tick, .timer 1, .resume 1]
    (fun s => s.blocked = [2]) (by decide)
    fun s hr hblocked => ⟨hblocked, (waitChain_of_few 1 (by decide) _ 5 s hr).1⟩

/-- Two waiters, served one after the other by holders: no one is blocked
any more, but the chain starts at the thread woken first. -/
theorem waitChain_fails :
    ∃ s, Reach mutexStep HolderReleases (mutexInit 1 (fun _ => {}) 0) s ∧ s.blocked = [] ∧
      s.mutex.firstWaiting = some 1 ∧ ¬ WaitChain s.mutex s.heap s.blocked := by
  refine exists_reach_imp
    [.acquire 0 (-1), .acquire 1 (-1), .acquire 2 (-1), .release 0, .resume 1, .release 1]
    (fun s => s.blocked = [] ∧ s.mutex.firstWaiting = some 1) (by decide)
    fun s hr ⟨hblocked, hfirst⟩ => ⟨hblocked, hfirst, fun hchain => ?_⟩
  have hstart := hchain.start
  rw [hblocked, hfirst] at hstart
  cases hstart

end LibXenon
