/-
LibXenon/DebugHalt.lean

How the debugger stub stops the other threads and lets them go on:
`halt_threads`, `halt_threads_nolock` and their counterparts `resume_threads`
and `resume_threads_nolock` of gdbroutines.c.

Each of the four is one pass over the thread pool.  A pass has a filter (valid
threads, but not the one with this id, not those with these names, and no idle
thread) and changes the suspend count of the threads it selects; so after a
pass each thread is what it was, edited or not (`PoolPass.run_spec`).

The filters are not the same.  `resume_threads` leaves out the thread that calls
it, by its id; `halt_threads_nolock`, which runs in an exception handler, the
threads with the name `gdb`.  And a suspend count of 80 does not rise any more,
but it falls.  So a halt and a resume are inverse to each other only for some
pools (`suspendCounts_restored_iff`).
-/
import LibXenon.ThreadLayout

namespace LibXenon

/-! ### The passes -/

/-- The thread pool with the fields of a thread that only the debugger reads,
`threads_suspended` and the mode (1 for the network). -/
structure DebugPool where
  machine : Machine
  name : PThread → Option String
  waitingInHandler : PThread → Bool
  threadsSuspended : Nat
  mode : Nat

def DebugPool.suspendCount (d : DebugPool) (t : PThread) : Nat := (d.machine.thread t).suspendCount

/-- What distinguishes the passes: the id and the names that are left out, for
which threads `WaitingInHandler` is cleared, whether the thread's lock is taken,
and what is done to a thread. -/
structure PoolPass where
  notId : Option Nat
  notNamed : List String
  wakes : Thread → Bool
  locked : Bool
  edit : Thread → Thread
  edit_count : ∀ x, ∃ n, edit x = { x with suspendCount := n }

/-- The threads a pass looks at. -/
def PoolPass.considers (p : PoolPass) (x : Thread) : Bool := x.valid && p.notId != some x.threadId

/-- The threads a pass edits. -/
def PoolPass.selects (p : PoolPass) (d : DebugPool) (t : PThread) : Bool :=
  p.considers (d.machine.thread t) &&
    !(d.mode == 1 && (d.name t).any fun name => p.notNamed.contains name) &&
    (d.machine.thread t).priority != 0

/-- The edit: `thread_suspend` and `thread_resume` take locks for it. -/
def PoolPass.write (p : PoolPass) (m : Machine) (t : PThread) : Option Machine :=
  if p.locked then lockedModify m t p.edit else some (m.modifyThread t p.edit)

/-- The loop body for one thread. -/
def PoolPass.body (p : PoolPass) (d : DebugPool) (t : PThread) : Option DebugPool :=
  let d :=
    if p.wakes (d.machine.thread t) then
      { d with waitingInHandler := Function.update d.waitingInHandler t false }
    else d
  if p.selects d t then (p.write d.machine t).map fun m => { d with machine := m }
  else some d

/-- `for(i = 0; i < MAX_THREAD_COUNT; i++)`. -/
def PoolPass.run (p : PoolPass) (d : DebugPool) : Option DebugPool :=
  (List.range maxThreadCount).foldlM p.body d

/-- The passes of `halt_threads` and `resume_threads`, called by a thread with
this id. -/
def haltPass (thisthread : Nat) : PoolPass where
  notId := some thisthread
  notNamed := ["tcpip_thread", "poll_thread"]
  wakes _ := false
  locked := true
  edit := Thread.suspend
  edit_count := suspend_eq

def resumePass (thisthread : Nat) : PoolPass where
  notId := some thisthread
  notNamed := ["tcpip_thread", "poll_thread"]
  wakes x := x.valid && some thisthread != some x.threadId
  locked := true
  edit := Thread.resume
  edit_count _ := ⟨_, rfl⟩

/-- The passes of `halt_threads_nolock` and `resume_threads_nolock`. -/
def haltPassNolock : PoolPass where
  notId := none
  notNamed := ["tcpip_thread", "poll_thread", "gdb"]
  wakes _ := false
  locked := false
  edit := Thread.suspend
  edit_count := suspend_eq

def resumePassNolock : PoolPass where
  notId := none
  notNamed := ["tcpip_thread", "poll_thread", "gdb"]
  wakes _ := true
  locked := false
  edit := Thread.resume
  edit_count _ := ⟨_, rfl⟩

/-- A pass that `threads_suspended` allows only once. -/
def PoolPass.toggle (p : PoolPass) (before after : Nat) (d : DebugPool) : Option DebugPool :=
  if d.threadsSuspended ≠ before then some d
  else (p.run d).map fun d => { d with threadsSuspended := after }

/-- `halt_threads`, with what `thread_get_current` returns. -/
def haltThreads (d : DebugPool) (current : PThread) : Option DebugPool :=
  (haltPass (d.machine.thread current).threadId).toggle 0 1 d

/-- `resume_threads`. -/
def resumeThreads (d : DebugPool) (current : PThread) : Option DebugPool :=
  (resumePass (d.machine.thread current).threadId).toggle 1 0 d

/-- `halt_threads_nolock`. -/
def haltThreadsNolock (d : DebugPool) : Option DebugPool := haltPassNolock.toggle 0 1 d

/-- `resume_threads_nolock`. -/
def resumeThreadsNolock (d : DebugPool) : Option DebugPool := resumePassNolock.toggle 1 0 d

/-! ### What a pass does -/

/-- Two pools that differ at most in the threads and their `WaitingInHandler`. -/
structure SameSettings (d d' : DebugPool) : Prop where
  name : d'.name = d.name
  mode : d'.mode = d.mode
  threadsSuspended : d'.threadsSuspended = d.threadsSuspended

theorem SameSettings.trans {d d₁ d₂ : DebugPool} (h₁ : SameSettings d d₁)
    (h₂ : SameSettings d₁ d₂) : SameSettings d d₂ :=
  ⟨h₂.name.trans h₁.name, h₂.mode.trans h₁.mode, h₂.threadsSuspended.trans h₁.threadsSuspended⟩

variable {p q : PoolPass} {d d' d₁ d₂ : DebugPool} {t : PThread}

theorem PoolPass.selects_congr (h : SameSettings d d') {n : Nat}
    (ht : d'.machine.thread t = { d.machine.thread t with suspendCount := n }) :
    p.selects d' t = p.selects d t := by
  rw [PoolPass.selects, h.name, h.mode, ht]
  rfl

theorem PoolPass.body_eq (p : PoolPass) (d : DebugPool) (t : PThread) :
    ∃ w, p.body d t = if p.selects d t then
        (p.write d.machine t).map fun m => { d with machine := m, waitingInHandler := w }
      else some { d with waitingInHandler := w } := by
  obtain ⟨w, hw⟩ : ∃ w, (if p.wakes (d.machine.thread t) then
      { d with waitingInHandler := Function.update d.waitingInHandler t false } else d) =
        { d with waitingInHandler := w } := by
    split
    · exact ⟨_, rfl⟩
    · exact ⟨_, rfl⟩
  refine ⟨w, ?_⟩
  rw [PoolPass.body, hw]
  rfl

theorem PoolPass.write_eq {m m' : Machine} (h : p.write m t = some m') :
    m' = m.modifyThread t p.edit := by
  rw [PoolPass.write] at h
  split at h
  · obtain ⟨_, -, hsome⟩ := Option.bind_eq_some_iff.mp h
    exact (Option.some_inj.mp hsome).symm
  · exact (Option.some_inj.mp h).symm

theorem PoolPass.body_spec (h : p.body d t = some d') :
    SameSettings d d' ∧ ∀ x, d'.machine.thread x =
      if x = t ∧ p.selects d x = true then p.edit (d.machine.thread x) else d.machine.thread x := by
  obtain ⟨w, hbody⟩ := p.body_eq d t
  rw [hbody] at h
  by_cases hsel : p.selects d t = true
  · rw [if_pos hsel] at h
    obtain ⟨m, hm, rfl⟩ := Option.map_eq_some_iff.mp h
    refine ⟨⟨rfl, rfl, rfl⟩, fun x => ?_⟩
    change m.thread x = _
    rw [PoolPass.write_eq hm, Machine.modifyThread]
    by_cases hx : x = t
    · subst hx
      rw [if_pos ⟨rfl, hsel⟩]
      exact Heap.modify_self _ _ _
    · rw [if_neg fun hand => hx hand.1]
      exact Heap.modify_of_ne _ _ hx
  · rw [if_neg hsel] at h
    obtain rfl := Option.some_inj.mp h
    refine ⟨⟨rfl, rfl, rfl⟩, fun x => ?_⟩
    have hno : ¬ (x = t ∧ p.selects d x = true) := by
      rintro ⟨rfl, hs⟩
      exact hsel hs
    rw [if_neg hno]

/-- **A pass** over some threads edits those it selects and no other. -/
theorem PoolPass.foldlM_spec {l : List PThread} (hn : l.Nodup) (h : l.foldlM p.body d = some d') :
    SameSettings d d' ∧ ∀ x, d'.machine.thread x =
      if x ∈ l ∧ p.selects d x = true then p.edit (d.machine.thread x) else d.machine.thread x := by
  induction l generalizing d with
  | nil =>
    obtain rfl := Option.some_inj.mp h
    exact ⟨⟨rfl, rfl, rfl⟩, fun x => (if_neg fun hand => nomatch hand.1).symm⟩
  | cons t l ih =>
    obtain ⟨d₁, hbody, hrest⟩ := Option.bind_eq_some_iff.mp h
    obtain ⟨hsame₁, hthread₁⟩ := PoolPass.body_spec hbody
    obtain ⟨hsame₂, hthread₂⟩ := ih (List.nodup_cons.mp hn).2 hrest
    refine ⟨hsame₁.trans hsame₂, fun x => ?_⟩
    rw [hthread₂ x]
    by_cases hx : x = t
    · -- its turn was this one
      subst hx
      rw [if_neg fun hand => (List.nodup_cons.mp hn).1 hand.1, hthread₁ x]
      simp
    · have hkeep : d₁.machine.thread x = d.machine.thread x := by
        rw [hthread₁ x, if_neg fun hand => hx hand.1]
      have hsel : p.selects d₁ x = p.selects d x :=
        PoolPass.selects_congr hsame₁ (n := (d.machine.thread x).suspendCount) hkeep
      rw [hkeep, hsel]
      simp [hx]

theorem PoolPass.run_spec (h : p.run d = some d') :
    SameSettings d d' ∧ ∀ x, d'.machine.thread x =
      if x < maxThreadCount ∧ p.selects d x = true then p.edit (d.machine.thread x)
      else d.machine.thread x := by
  obtain ⟨hsame, hthread⟩ := PoolPass.foldlM_spec List.nodup_range h
  refine ⟨hsame, fun x => ?_⟩
  rw [hthread x]
  simp only [List.mem_range]

theorem PoolPass.run_count (h : p.run d = some d') (x : PThread) :
    ∃ n, d'.machine.thread x = { d.machine.thread x with suspendCount := n } := by
  rw [(PoolPass.run_spec h).2 x]
  split
  · exact p.edit_count _
  · exact ⟨_, rfl⟩

theorem PoolPass.run_isSome (hhome : p.locked = true → ∀ x < maxThreadCount,
    p.selects d x = true → (d.machine.thread x).thisProcessor ≠ none) :
    ∃ d', p.run d = some d' := by
  -- the first threads of the pool, one after the other
  have hall : ∀ n ≤ maxThreadCount, ∃ d', (List.range n).foldlM p.body d = some d' := by
    intro n
    induction n with
    | zero => exact fun _ => ⟨d, rfl⟩
    | succ n ih =>
      intro hn
      obtain ⟨d₁, h₁⟩ := ih (by omega)
      obtain ⟨hsame, hthread⟩ := PoolPass.foldlM_spec List.nodup_range h₁
      -- thread `n` has not been visited, so the test reads what it held at first
      have hkeep : d₁.machine.thread n = d.machine.thread n := by
        rw [hthread n, if_neg fun hand => Nat.lt_irrefl n (List.mem_range.mp hand.1)]
      have hsel : p.selects d₁ n = p.selects d n :=
        PoolPass.selects_congr hsame (n := (d.machine.thread n).suspendCount) hkeep
      rw [List.range_succ, List.foldlM_append, h₁]
      suffices hlast : ∃ d', p.body d₁ n = some d' by
        obtain ⟨d', hd'⟩ := hlast
        refine ⟨d', ?_⟩
        change (p.body d₁ n >>= fun d => some d) = some d'
        rw [hd']
        rfl
      obtain ⟨w, hbody⟩ := p.body_eq d₁ n
      rw [hbody, hsel]
      by_cases hs : p.selects d n = true
      · rw [if_pos hs, PoolPass.write]
        by_cases hl : p.locked = true
        · obtain ⟨home, hhome'⟩ := Option.ne_none_iff_exists'.mp (hhome hl n (by omega) hs)
          rw [if_pos hl, lockedModify_eq (hkeep ▸ hhome')]
          exact ⟨_, rfl⟩
        · rw [if_neg hl]
          exact ⟨_, rfl⟩
      · rw [if_neg hs]
        exact ⟨_, rfl⟩
  exact hall maxThreadCount (Nat.le_refl _)

/-! ### A halt and a resume -/

theorem PoolPass.run_thread (h : p.run d = some d') (ht : t < maxThreadCount) :
    d'.machine.thread t = (if p.selects d t then p.edit else id) (d.machine.thread t) := by
  rw [(PoolPass.run_spec h).2 t]
  by_cases hs : p.selects d t = true
  · rw [if_pos ⟨ht, hs⟩, if_pos hs]
  · rw [if_neg fun hand => hs hand.2, if_neg hs]
    rfl

theorem PoolPass.count_two_runs (h₁ : p.run d = some d₁) {s : Nat}
    (h₂ : q.run { d₁ with threadsSuspended := s } = some d₂) (ht : t < maxThreadCount) :
    d₂.suspendCount t =
      ((if q.selects d t then q.edit else id)
        ((if p.selects d t then p.edit else id) (d.machine.thread t))).suspendCount := by
  obtain ⟨hsame₁, -⟩ := PoolPass.run_spec h₁
  obtain ⟨n, hn⟩ := PoolPass.run_count h₁ t
  have hsel : q.selects { d₁ with threadsSuspended := s } t = q.selects d t := by
    rw [PoolPass.selects, PoolPass.selects, hsame₁.name, hsame₁.mode, hn]
    rfl
  rw [DebugPool.suspendCount, PoolPass.run_thread h₂ ht, hsel, ← PoolPass.run_thread h₁ ht]

theorem suspendCount_suspend (x : Thread) :
    x.suspend.suspendCount = if x.suspendCount < 80 then x.suspendCount + 1 else x.suspendCount := by
  rw [Thread.suspend]
  split <;> rfl

/-- What it takes for the count of one thread to come back. -/
def Restored (halted resumed : Bool) (count : Nat) : Prop :=
  match halted, resumed with
  | true, true => count < 80
  | true, false => 80 ≤ count
  | false, true => count = 0
  | false, false => True

instance (halted resumed : Bool) (count : Nat) : Decidable (Restored halted resumed count) := by
  cases halted <;> cases resumed <;> dsimp only [Restored] <;> infer_instance

theorem restored_iff (halted resumed : Bool) (x : Thread) :
    ((if resumed then Thread.resume else id) ((if halted then Thread.suspend else id) x)).suspendCount
      = x.suspendCount ↔ Restored halted resumed x.suspendCount := by
  have hs := suspendCount_suspend x
  cases halted <;> cases resumed
  · simp [Restored]
  · simp only [Restored, Bool.false_eq_true, if_false, if_true, id, Thread.resume]
    omega
  · simp only [Restored, Bool.false_eq_true, if_false, if_true, id, hs]
    split <;> omega
  · simp only [Restored, if_true, Thread.resume, hs]
    split <;> omega

/-- Two passes with `threads_suspended` going from 0 to 1 and back. -/
theorem toggle_restored_iff (hedit : p.edit = Thread.suspend) (hedit' : q.edit = Thread.resume)
    (hsusp : d.threadsSuspended = 0) (h₁ : p.toggle 0 1 d = some d₁)
    (h₂ : q.toggle 1 0 d₁ = some d₂) :
    (∀ t < maxThreadCount, d₂.suspendCount t = d.suspendCount t) ↔
      ∀ t < maxThreadCount, Restored (p.selects d t) (q.selects d t) (d.suspendCount t) := by
  rw [PoolPass.toggle, if_neg (not_not.mpr hsusp)] at h₁
  obtain ⟨e₁, hrun₁, rfl⟩ := Option.map_eq_some_iff.mp h₁
  obtain ⟨e₂, hrun₂, rfl⟩ := Option.map_eq_some_iff.mp h₂
  refine forall₂_congr fun t ht => ?_
  have hcount := PoolPass.count_two_runs hrun₁ hrun₂ ht
  rw [hedit, hedit'] at hcount
  change e₂.suspendCount t = _ ↔ _
  rw [hcount]
  exact restored_iff _ _ _

theorem toggle_restored_iff_of_same (hedit : p.edit = Thread.suspend)
    (hedit' : q.edit = Thread.resume) (hsame : ∀ t, q.selects d t = p.selects d t)
    (hsusp : d.threadsSuspended = 0) (h₁ : p.toggle 0 1 d = some d₁)
    (h₂ : q.toggle 1 0 d₁ = some d₂) :
    (∀ t < maxThreadCount, d₂.suspendCount t = d.suspendCount t) ↔
      ∀ t < maxThreadCount, p.selects d t = true → d.suspendCount t < 80 := by
  rw [toggle_restored_iff hedit hedit' hsusp h₁ h₂]
  refine forall₂_congr fun t _ => ?_
  rw [hsame t]
  cases p.selects d t <;> simp [Restored]

/-- Every valid thread of the pool belongs to a processor. -/
def DebugPool.Homed (d : DebugPool) : Prop :=
  ∀ t < maxThreadCount, (d.machine.thread t).valid = true →
    (d.machine.thread t).thisProcessor ≠ none

theorem PoolPass.valid_of_selects (h : p.selects d t = true) :
    (d.machine.thread t).valid = true := by
  simp only [PoolPass.selects, PoolPass.considers, Bool.and_eq_true] at h
  exact h.1.1.1

theorem DebugPool.Homed.toggle (h : d.Homed) (p : PoolPass) (before after : Nat) :
    ∃ d', p.toggle before after d = some d' ∧ d'.Homed := by
  rw [PoolPass.toggle]
  split
  · exact ⟨d, rfl, h⟩
  · obtain ⟨d', hrun⟩ :=
      PoolPass.run_isSome (p := p) (d := d) fun _ x hx hs => h x hx (PoolPass.valid_of_selects hs)
    rw [hrun]
    refine ⟨_, rfl, fun x hx => ?_⟩
    obtain ⟨n, hn⟩ := PoolPass.run_count hrun x
    rw [hn]
    exact h x hx

theorem threadId_toggle {before after : Nat} (h : p.toggle before after d = some d') (x : PThread) :
    (d'.machine.thread x).threadId = (d.machine.thread x).threadId := by
  rw [PoolPass.toggle] at h
  split at h
  · rw [← Option.some_inj.mp h]
  · obtain ⟨e, hrun, rfl⟩ := Option.map_eq_some_iff.mp h
    obtain ⟨n, hn⟩ := PoolPass.run_count hrun x
    rw [hn]

/-- **Halt and resume.**  For every pool with `threads_suspended` 0 and every
thread that calls: `halt_threads` and then `resume_threads` leave each suspend
count as it was exactly if all the threads that are halted have a count below
80.  After `halt_threads_nolock` this is so for the threads that both passes
select; one that is only halted has to have a count of 80 already, and one that
is only resumed a count of 0.  The functions return if every valid thread has a
processor. -/
theorem suspendCounts_restored_iff (d : DebugPool) (gdb : PThread)
    (hsusp : d.threadsSuspended = 0) :
    (∀ d₁ d₂, haltThreads d gdb = some d₁ → resumeThreads d₁ gdb = some d₂ →
      ((∀ t < maxThreadCount, d₂.suspendCount t = d.suspendCount t) ↔
        ∀ t < maxThreadCount, (haltPass (d.machine.thread gdb).threadId).selects d t = true →
          d.suspendCount t < 80)) ∧
    (∀ d₁ d₂, haltThreadsNolock d = some d₁ → resumeThreads d₁ gdb = some d₂ →
      ((∀ t < maxThreadCount, d₂.suspendCount t = d.suspendCount t) ↔
        ∀ t < maxThreadCount, Restored (haltPassNolock.selects d t)
          ((resumePass (d.machine.thread gdb).threadId).selects d t) (d.suspendCount t))) ∧
    (d.Homed → (∃ d₁ d₂, haltThreads d gdb = some d₁ ∧ resumeThreads d₁ gdb = some d₂) ∧
      ∃ d₁ d₂, haltThreadsNolock d = some d₁ ∧ resumeThreads d₁ gdb = some d₂) := by
  refine ⟨fun d₁ d₂ h₁ h₂ => ?_, fun d₁ d₂ h₁ h₂ => ?_, fun hhome => ⟨?_, ?_⟩⟩
  · rw [resumeThreads, threadId_toggle h₁ gdb] at h₂
    exact toggle_restored_iff_of_same (q := resumePass (d.machine.thread gdb).threadId) rfl rfl
      (fun _ => rfl) hsusp h₁ h₂
  · rw [resumeThreads, threadId_toggle h₁ gdb] at h₂
    exact toggle_restored_iff rfl rfl hsusp h₁ h₂
  · obtain ⟨d₁, h₁, hhome₁⟩ := hhome.toggle (haltPass (d.machine.thread gdb).threadId) 0 1
    obtain ⟨d₂, h₂, -⟩ := hhome₁.toggle (resumePass (d₁.machine.thread gdb).threadId) 1 0
    exact ⟨d₁, d₂, h₁, h₂⟩
  · obtain ⟨d₁, h₁, hhome₁⟩ := hhome.toggle haltPassNolock 0 1
    obtain ⟨d₂, h₂, -⟩ := hhome₁.toggle (resumePass (d₁.machine.thread gdb).threadId) 1 0
    exact ⟨d₁, d₂, h₁, h₂⟩

/-- The debugger thread 0 and one other thread, in network mode. -/
def twoThreads (name : String) (count : Nat) : DebugPool where
  machine :=
    { thread := fun t =>
        { valid := t < 2
          thisProcessor := some 0
          priority := 7
          threadId := t
          suspendCount := if t = 1 then count else 0 } }
  name t := if t = 0 then some "gdb" else if t = 1 then some name else none
  waitingInHandler _ := false
  threadsSuspended := 0
  mode := 1

theorem homed_twoThreads (name : String) (count : Nat) : (twoThreads name count).Homed :=
  fun _ _ _ => Option.some_ne_none _

/-- A thread that is suspended 79 times comes back to 79 from both ways to halt. -/
theorem suspendCounts_restored_worker :
    (∃ d₁ d₂, haltThreads (twoThreads "worker" 79) 0 = some d₁ ∧ resumeThreads d₁ 0 = some d₂ ∧
      ∀ t < maxThreadCount, d₂.suspendCount t = (twoThreads "worker" 79).suspendCount t) ∧
    ∃ d₁ d₂, haltThreadsNolock (twoThreads "worker" 79) = some d₁ ∧
      resumeThreads d₁ 0 = some d₂ ∧
      ∀ t < maxThreadCount, d₂.suspendCount t = (twoThreads "worker" 79).suspendCount t := by
  obtain ⟨hhalt, hnolock, hreturns⟩ := suspendCounts_restored_iff (twoThreads "worker" 79) 0 rfl
  obtain ⟨⟨d₁, d₂, h₁, h₂⟩, e₁, e₂, h₃, h₄⟩ := hreturns (homed_twoThreads "worker" 79)
  refine ⟨⟨d₁, d₂, h₁, h₂, (hhalt d₁ d₂ h₁ h₂).mpr fun t _ _ => ?_⟩,
    e₁, e₂, h₃, h₄, (hnolock e₁ e₂ h₃ h₄).mpr ?_⟩
  · change (if t = 1 then 79 else 0) < 80
    split <;> omega
  · decide +kernel

/-- A thread that is suspended 80 times has lost one of them after a halt and a
resume, and so has any thread with the debugger's name after a halt in an
exception handler. -/
theorem suspendCounts_not_restored :
    ((haltThreads (twoThreads "worker" 80) 0).bind fun d => resumeThreads d 0).map
        (fun d => d.suspendCount 1) = some 79 ∧
      ((haltThreadsNolock (twoThreads "gdb" 1)).bind fun d => resumeThreads d 0).map
        (fun d => d.suspendCount 1) = some 0 := by
  refine ⟨by decide +kernel, by decide +kernel⟩

end LibXenon
