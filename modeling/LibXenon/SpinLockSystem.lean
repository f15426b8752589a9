/-
LibXenon/SpinLockSystem.lean

Whether the interrupt path of a processor spins on a lock of its own
processor.

The locks of the scheduler are guarded: code takes them only at level 2, after
it has raised the level, and gives them up before it lowers it again or makes a
system call (`Call.disciplined_ops`).  A handler schedules below level 2, so the
code a pass interrupts holds none of them (`CoreSound`).  It follows

* `pass_returns_iff` — in every reachable state a pass comes to its end, without
  spinning on a lock of its own processor, exactly when it frees no stack;
* `no_spin_on_interrupted` — along every run in which no quantum ends at level 2
  with `ProcessingDPC` at 0, the interrupt path never spins on a guarded lock of
  the code it interrupted.

The conditions are needed.  A pass that reaps a thread with a stack holds the
processor's lock and asks, through `free`, for the current thread, under the
same lock (`pass_spins_on_own_lock`).  And the decrementer handler runs DPCs at
level 2, which is where `dpc_queue` holds `DPCLock` (`decrementer_spins`).
-/
import LibXenon.SpinLocks

namespace LibXenon

open Links Transition List

variable {p : Processor} {below : List SpinLock} {m m' : Machine} {g g' : Grip}
variable {t : PThread} {s s' : Core}

/-! ### Spinning on a lock -/

theorem lock_eq_ok {own : List SpinLock} {l : SpinLock} (hown : l ∉ own) (hbelow : l ∉ below) :
    lock below own l = .ok (l :: own) := by
  rw [lock, if_neg hown, if_neg hbelow]

theorem Grip.lock_eq_ok {l : SpinLock} (hown : l ∉ g.own) (hbelow : l ∉ below) :
    g.lock below l = .ok { g with own := l :: g.own } := by
  rw [Grip.lock, LibXenon.lock_eq_ok hown hbelow]
  rfl

/-- Code that spins on a lock of interrupted code only if that code holds the
lock. -/
def Blames (below : List SpinLock) {α : Type} (x : Except Halt α) : Prop :=
  ∀ l, x = .error (.interrupted l) → l ∈ below

theorem Blames.ok {α : Type} (a : α) : Blames below (.ok a) := nofun

theorem Blames.bind {α β : Type} {x : Except Halt α} {f : α → Except Halt β}
    (hx : Blames below x) (hf : ∀ a, Blames below (f a)) : Blames below (x >>= f) := by
  intro l hl
  cases x with
  | error e =>
    have he : (.error e : Except Halt β) = .error (.interrupted l) := hl
    cases he
    exact hx l rfl
  | ok a => exact hf a l hl

theorem Blames.deref {α : Type} (x : Option α) : Blames below (deref x) := by
  intro l hl
  cases x <;> cases hl

theorem Blames.lock (own : List SpinLock) (l : SpinLock) :
    Blames below (lock below own l) := by
  intro l' hl
  rw [LibXenon.lock] at hl
  split at hl
  · cases hl
  · split at hl <;> cases hl
    assumption

theorem Blames.gripLock (g : Grip) (l : SpinLock) : Blames below (g.lock below l) :=
  (Blames.lock _ _).bind fun _ => Blames.ok _

theorem Blames.threadGetCurrent : Blames below (threadGetCurrent p below m g) :=
  (Blames.gripLock _ _).bind fun _ => (Blames.gripLock _ _).bind fun _ =>
    (Blames.deref _).bind fun _ => Blames.ok _

theorem Blames.mallocLock : Blames below (xenonMallocLock p below m g) := by
  refine (Blames.gripLock _ _).bind fun g₁ => Blames.threadGetCurrent.bind fun r => ?_
  dsimp only
  split
  · exact nofun
  · split
    · exact (Blames.gripLock _ _).bind fun _ => (Blames.gripLock _ _).bind fun _ => Blames.ok _
    · exact (Blames.gripLock _ _).bind fun _ => Blames.ok _

theorem Blames.mallocUnlock : Blames below (xenonMallocUnlock p below m g) := by
  refine (Blames.gripLock _ _).bind fun g₁ => Blames.threadGetCurrent.bind fun r => ?_
  dsimp only
  split
  · exact nofun
  · split <;> exact Blames.ok _

theorem Blames.free (base : Option Nat) : Blames below (free p below m base g) := by
  cases base with
  | none => exact Blames.ok g
  | some b => exact Blames.mallocLock.bind fun _ => Blames.mallocUnlock

theorem Blames.freeStack : Blames below (freeStack p below m t g) := by
  rw [LibXenon.freeStack]
  split
  · exact Blames.free _
  · exact Blames.ok g

theorem Blames.lockedVisit : Blames below (lockedVisit p below m t g) :=
  Blames.freeStack.bind fun _ => (Blames.deref _).bind fun _ => Blames.ok _

theorem Blames.lockedFirstPass (fuel : Nat) :
    ∀ (m : Machine) (t : PThread) (g : Grip), Blames below (lockedFirstPass p below fuel m t g) := by
  induction fuel with
  | zero => exact nofun
  | succ fuel ih =>
    intro m t g
    refine Blames.lockedVisit.bind fun r => ?_
    dsimp only
    split
    · exact Blames.ok _
    · split
      · exact nofun
      · exact ih _ _ _

theorem Blames.lockedSchedule : Blames below (lockedSchedule p below m g) :=
  (Blames.gripLock _ _).bind fun _ => (Blames.deref _).bind fun _ =>
    (Blames.deref _).bind fun _ => (Blames.lockedFirstPass _ _ _ _).bind fun _ =>
      (Blames.gripLock _ _).bind fun _ => (Blames.deref _).bind fun _ => Blames.ok _

/-! ### Which passes free a stack -/

/-- Terminated, without a handle, and with a stack to free. -/
def Machine.stacked (m : Machine) (t : PThread) : Bool :=
  m.dead t && (m.thread t).stackBase.isSome

/-- A pass on processor `p` would reap a thread that has a stack: one that the
first pass gets to is terminated and has no open handle. -/
def freesStack (m : Machine) (p : Processor) : Bool :=
  (scanned m.dead (ringList m p)).any m.stacked

/-! ### A pass that frees a stack -/

theorem exists_bind {α β : Type} {x : Except Halt α} {f : α → Except Halt β} {a : α}
    (hx : x = .ok a) (hf : ∃ b, f a = .ok b) : ∃ b, (x >>= f) = .ok b := by
  subst hx
  exact hf

theorem deref_eq_ok {α : Type} {x : Option α} {a : α} : deref x = .ok a ↔ x = some a := by
  cases x with
  | none => exact ⟨nofun, nofun⟩
  | some b => exact ⟨fun h => by cases h; rfl, fun h => by cases h; rfl⟩

theorem Grip.own_of_lock {l : SpinLock} (h : g.lock below l = .ok g') :
    l ∉ g.own ∧ g'.own = l :: g.own := by
  obtain ⟨own, hown, hg⟩ := bind_eq_ok.mp h
  cases hg
  rw [LibXenon.lock] at hown
  split at hown
  · cases hown
  · split at hown <;> cases hown
    exact ⟨‹_›, rfl⟩

/-- The hooks of `free` take the processor's lock. -/
theorem free_spins (hown : .processor p ∈ g.own) (b : Nat) :
    free p below m (some b) g ≠ .ok g' := by
  intro h
  rw [free, bind_eq_ok] at h
  obtain ⟨_, hlock, -⟩ := h
  rw [xenonMallocLock, bind_eq_ok] at hlock
  obtain ⟨g₁, hsafety, hlock⟩ := hlock
  obtain ⟨_, hcurrent, -⟩ := bind_eq_ok.mp hlock
  rw [threadGetCurrent, bind_eq_ok] at hcurrent
  obtain ⟨g₂, hlist, hcurrent⟩ := hcurrent
  obtain ⟨g₃, hproc, -⟩ := bind_eq_ok.mp hcurrent
  have hown₂ : .processor p ∈ g₂.own := by
    rw [(Grip.own_of_lock hlist).2, (Grip.own_of_lock hsafety).2]
    exact mem_cons_of_mem _ (mem_cons_of_mem _ hown)
  exact (Grip.own_of_lock hproc).1 hown₂

theorem lockedVisit_ok (hfree : m.stacked t = false) (hvisit : visit p m t = some m') :
    lockedVisit p below m t g = .ok (m', g) := by
  have hstack : freeStack p below m t g = .ok g := by
    rw [freeStack]
    split
    · rename_i hdead
      have hnone : (m.thread t).stackBase = none := by
        simpa [Machine.stacked, Machine.dead, hdead] using hfree
      rw [hnone, free]
    · rfl
  exact bind_eq_ok.mpr ⟨g, hstack, bind_eq_ok.mpr ⟨m', deref_eq_ok.mpr hvisit, rfl⟩⟩

theorem lockedVisit_spins (hown : .processor p ∈ g.own) (hfree : m.stacked t = true)
    {r : Machine × Grip} : lockedVisit p below m t g ≠ .ok r := by
  intro h
  obtain ⟨g', hstack, -⟩ := bind_eq_ok.mp h
  rw [Machine.stacked, Bool.and_eq_true, Option.isSome_iff_exists] at hfree
  obtain ⟨hdead, b, hb⟩ := hfree
  rw [Machine.dead] at hdead
  rw [freeStack, if_pos hdead, hb] at hstack
  exact free_spins hown b hstack

theorem lockedFirstPass_succ {fuel : Nat} (hvisit : lockedVisit p below m t g = .ok (m', g')) :
    lockedFirstPass p below (fuel + 1) m t g
      = if m'.next .run t = (m'.processor p).firstThread then .ok (m', g')
        else
          match m'.next .run t with
          | none => .error .fault
          | some u => lockedFirstPass p below fuel m' u g' := by
  show (lockedVisit p below m t g >>= _) = _
  rw [hvisit]
  rfl

theorem stacked_of_body {x : PThread} (hbody : (m'.thread x).body = (m.thread x).body) :
    m'.stacked x = m.stacked x := by
  have hdead := congrArg Thread.reapable hbody
  have hbase := congrArg Thread.stackBase hbody
  exact congrArg₂ (fun d b => d && Option.isSome b) hdead hbase

/-- **The first pass** comes to its end exactly when it frees no stack: no thread
that the scan comes to has one to free. -/
theorem Scans.lockedFirstPass_iff {l : List PThread} (hown : .processor p ∈ g.own)
    (h : Scans p m t l m') : ∀ {fuel : Nat}, l.length < fuel →
      ((∃ r, lockedFirstPass p below fuel m t g = .ok r) ↔ (t :: l).any m.stacked = false) := by
  -- a thread with a stack to free ends the scan at once
  have hspins : ∀ {m : Machine} {t : PThread} {rest : List PThread} {fuel : Nat},
      m.stacked t = true → ((∃ r, lockedFirstPass p below (fuel + 1) m t g = .ok r) ↔
        (t :: rest).any m.stacked = false) := by
    intro m t rest fuel hst
    refine iff_of_false ?_ (by simp [hst])
    rintro ⟨r, hr⟩
    obtain ⟨_, hvisited, -⟩ := bind_eq_ok.mp hr
    exact lockedVisit_spins hown hst hvisited
  induction h with
  | @last m m' t hvisit hback =>
    intro fuel hfuel
    obtain ⟨fuel, rfl⟩ := Nat.exists_eq_add_one.mpr hfuel
    rcases hst : m.stacked t with - | -
    · refine iff_of_true ⟨(m', g), ?_⟩ (by simp [hst])
      rw [lockedFirstPass_succ (lockedVisit_ok hst hvisit), if_pos hback]
    · exact hspins hst
  | @next m m₁ m' t u rest hvisit hnext hfirst hbody _ ih =>
    intro fuel hfuel
    obtain ⟨fuel, rfl⟩ := Nat.exists_eq_add_one.mpr (Nat.zero_lt_of_lt hfuel)
    rcases hst : m.stacked t with - | -
    · have hrest : (u :: rest).any m₁.stacked = (u :: rest).any m.stacked := by
        rw [Bool.eq_iff_iff, any_eq_true, any_eq_true]
        refine exists_congr fun x => and_congr_right fun hx => ?_
        rw [stacked_of_body (hbody x hx)]
      rw [lockedFirstPass_succ (lockedVisit_ok hst hvisit), hnext, if_neg hfirst, any_cons,
        hst, Bool.false_or, ← hrest]
      exact ih (Nat.lt_of_succ_lt_succ hfuel)
    · exact hspins hst

theorem firstPass_of_locked (hown : .processor p ∈ g.own) (fuel : Nat) :
    ∀ {m : Machine} {t : PThread} {r : Machine × Grip},
      lockedFirstPass p below fuel m t g = .ok r →
      firstPass p fuel m t = some r.1 ∧ r.2 = g := by
  induction fuel with
  | zero => exact nofun
  | succ fuel ih =>
    intro m t r h
    rcases hst : m.stacked t with - | -
    · rcases hvisit : visit p m t with - | m₁
      · obtain ⟨_, hvisited, -⟩ := bind_eq_ok.mp h
        obtain ⟨_, -, hvisited⟩ := bind_eq_ok.mp hvisited
        obtain ⟨_, hvisited, -⟩ := bind_eq_ok.mp hvisited
        rw [deref_eq_ok, hvisit] at hvisited
        cases hvisited
      · rw [lockedFirstPass_succ (lockedVisit_ok hst hvisit)] at h
        rw [firstPass_succ hvisit]
        split at h
        · rename_i hback
          cases h
          rw [if_pos hback]
          exact ⟨rfl, rfl⟩
        · rename_i hback
          rw [if_neg hback]
          rcases hu : m₁.next .run t with - | u <;> rw [hu] at h
          · cases h
          · exact ih h
    · obtain ⟨_, hvisited, -⟩ := bind_eq_ok.mp h
      exact absurd hvisited (lockedVisit_spins hown hst)

theorem pass_of_locked {r : Machine × Grip} (h : lockedSchedule p below m g = .ok r) :
    threadStep m (.pass p) = some r.1 := by
  obtain ⟨g₁, hlock, h⟩ := bind_eq_ok.mp h
  obtain ⟨m₁, hstop, h⟩ := bind_eq_ok.mp h
  obtain ⟨t, hfirst, h⟩ := bind_eq_ok.mp h
  obtain ⟨⟨m₂, g₂⟩, hpass, h⟩ := bind_eq_ok.mp h
  obtain ⟨g₃, -, h⟩ := bind_eq_ok.mp h
  obtain ⟨⟨m₃, win⟩, hafter, h⟩ := bind_eq_ok.mp h
  cases h
  have hown : .processor p ∈ g₁.own := by
    rw [(Grip.own_of_lock hlock).2]
    simp
  rw [deref_eq_ok] at hstop hfirst hafter
  have hpass' := (firstPass_of_locked hown _ hpass).1
  rw [threadStep, threadSchedule, hstop]
  show (((threadScheduleCore (maxThreadCount + 1) m₁ p).bind _).map Prod.fst) = _
  rw [threadScheduleCore, hfirst]
  show ((((firstPass p (maxThreadCount + 1) m₁ t).bind _).bind _).map Prod.fst) = _
  rw [hpass']
  show (((afterFirstPass (maxThreadCount + 1) m₂ p).bind _).map Prod.fst) = _
  rw [hafter]
  rfl

theorem Online.lockedSchedule_ok {L : Layout} {cur : PThread} (h : Online m L)
    (hown : g.own = []) (hproc : .processor p ∉ below) (hswap : .swapProcess p ∉ below)
    (hcur : (m.processor p).currentThread = some cur) (ht : (m.processor p).firstThread = some t)
    {r : Machine × Grip} (hfirst : lockedFirstPass p below (maxThreadCount + 1)
      (m.modifyThread cur Thread.stop) t { g with own := [.processor p] } = .ok r) :
    ∃ r, lockedSchedule p below m g = .ok r := by
  obtain ⟨hpass, hr⟩ := firstPass_of_locked (mem_singleton_self _) _ hfirst
  -- the part behind the first pass comes to its end: the whole pass does
  obtain ⟨m', win, L', hm', -⟩ := h.pass_spec p
  have hafter : ∃ q, afterFirstPass (maxThreadCount + 1) r.1 p = some q := by
    rw [threadSchedule, hcur] at hm'
    change ((threadScheduleCore (maxThreadCount + 1) (m.modifyThread cur Thread.stop) p).bind _)
      = _ at hm'
    obtain ⟨q, hq, -⟩ := Option.bind_eq_some_iff.mp hm'
    rw [threadScheduleCore, processor_modifyThread, ht] at hq
    change ((firstPass p (maxThreadCount + 1) (m.modifyThread cur Thread.stop) t).bind _) = _ at hq
    rw [hpass] at hq
    exact ⟨q, hq⟩
  obtain ⟨q, hq⟩ := hafter
  have hg : r.2.own = [.processor p] := by rw [hr]
  refine exists_bind (Grip.lock_eq_ok (by rw [hown]; simp) hproc) ?_
  rw [hown]
  refine exists_bind (a := m.modifyThread cur Thread.stop) (by rw [hcur]; rfl) ?_
  refine exists_bind (a := t) (by rw [processor_modifyThread, ht]; rfl) ?_
  refine exists_bind hfirst ?_
  refine exists_bind (Grip.lock_eq_ok (by rw [hg]; simp) hswap) ?_
  exact exists_bind (a := q) (by rw [hq]; rfl) ⟨_, rfl⟩

/-- **A pass** that holds no lock yet, and interrupted code without the locks
of the processor, comes to its end exactly when it frees no stack. -/
theorem Online.lockedSchedule_iff {L : Layout} (h : Online m L) (hown : g.own = [])
    (hproc : .processor p ∉ below) (hswap : .swapProcess p ∉ below) :
    (∃ r, lockedSchedule p below m g = .ok r) ↔ freesStack m p = false := by
  obtain ⟨cur, hcur⟩ := Option.ne_none_iff_exists'.mp (h.current p trivial)
  obtain ⟨t, l, m₁, hl, ht, hlen, hscans⟩ := h.scans p cur
  -- stopping the current thread changes nothing that the first pass looks at
  have hstacked : (m.modifyThread cur Thread.stop).stacked = m.stacked := by
    funext x
    rw [Machine.stacked, Machine.stacked, dead_stop]
    exact congrArg (m.dead x && Option.isSome ·)
      (Heap.modify_field m.thread cur x Thread.stackBase fun _ => rfl)
  have hfuel : (if m.dead t = true then [] else l).length < maxThreadCount + 1 := by
    split
    · exact Nat.succ_pos _
    · exact Nat.lt_succ_of_lt hlen
  have hiff : (∃ r, lockedFirstPass p below (maxThreadCount + 1)
      (m.modifyThread cur Thread.stop) t { g with own := [.processor p] } = .ok r) ↔ _ :=
    hscans.lockedFirstPass_iff (mem_singleton_self _) hfuel
  rw [hstacked, ← scanned_cons, ← hl, ← h.ringList_eq p] at hiff
  rw [freesStack, ← hiff]
  constructor
  · rintro ⟨r, hr⟩
    obtain ⟨g₁, hlock, hr⟩ := bind_eq_ok.mp hr
    rw [Grip.lock_eq_ok (by rw [hown]; simp) hproc, hown] at hlock
    cases hlock
    obtain ⟨m₁, hstop, hr⟩ := bind_eq_ok.mp hr
    rw [hcur] at hstop
    cases hstop
    obtain ⟨t₁, hfirst, hr⟩ := bind_eq_ok.mp hr
    rw [processor_modifyThread, ht] at hfirst
    cases hfirst
    obtain ⟨r₁, hpass, -⟩ := bind_eq_ok.mp hr
    exact ⟨r₁, hpass⟩
  · rintro ⟨r, hr⟩
    exact h.lockedSchedule_ok hown hproc hswap hcur ht hr

/-! ### Code that keeps the discipline -/

/-- Every call takes and releases its guarded locks at level 2; in a DPC
procedure, every call that does not block. -/
theorem Call.disciplined_ops (p : Processor) (c : Call) {processing : Bool}
    (h : processing = true → c.blocks = false) :
    disciplined processing [] false (c.ops p) = true := by
  cases c with
  | setProcessor t oldProcess newProcess own =>
    by_cases hsame : oldProcess = newProcess
    · cases own <;> cases processing <;>
        simp_all [Call.ops, underLocks, disciplined, unlock, SpinLock.guarded, Call.blocks]
    · cases own <;> cases processing <;>
        simp_all [Call.ops, underLocks, disciplined, unlock, SpinLock.guarded, Call.blocks]
  | setPriority t priority q =>
    by_cases hp : priority > 15
    · simp [Call.ops, hp, disciplined]
    · simp [Call.ops, hp, underLocks, disciplined, unlock, SpinLock.guarded]
  | mallocLock nested =>
    cases nested <;> simp [Call.ops, underLocks, disciplined, unlock, SpinLock.guarded]
  | mallocUnlock last =>
    cases last <;> simp [Call.ops, underLocks, disciplined, unlock, SpinLock.guarded]
  | dpcQueue => cases processing <;> simp [Call.ops, disciplined, unlock, SpinLock.guarded]
  | sleep | mutexSleep | terminate | yield =>
    cases processing <;>
      simp_all [Call.ops, underOwnLock, disciplined, unlock, SpinLock.guarded, Call.blocks]
  | create | createFails | close | suspend | resume | setPriorityBoost | getCurrent | lockOther
  | unlockOther =>
    simp [Call.ops, underLocks, disciplined, unlock, SpinLock.guarded]

/-- Code that has the guarded locks `held`, and has raised the level or not. -/
structure Code.At (processing : Bool) (level : Nat) (c : Code) (held : List SpinLock)
    (raised : Bool) : Prop where
  rest : disciplined processing held raised c.todo = true
  covers : ∀ l ∈ c.held, l.guarded = true → l ∈ held
  lowered : raised = false → held = []
  raised : raised = true → level = 2 ∧ (processing = true → c.irql = 2)

/-- Code that keeps the discipline when it runs at `level`. -/
def Code.Safe (processing : Bool) (level : Nat) (c : Code) : Prop :=
  ∃ held raised, c.At processing level held raised

variable {c : Code} {processing : Bool} {level : Nat} {ops : List LockOp} {l : SpinLock}
variable {held : List SpinLock} {raised : Bool}

theorem Code.Safe.unguarded (h : c.Safe processing level) (hlevel : level ≠ 2) :
    ∀ l ∈ c.held, l.guarded = false := by
  obtain ⟨held, raised, hat⟩ := h
  intro l hl
  cases raised with
  | true => exact absurd (hat.raised rfl).1 hlevel
  | false =>
    rcases hg : l.guarded with - | -
    · rfl
    · have hmem := hat.covers l hl hg
      rw [hat.lowered rfl] at hmem
      cases hmem

theorem Code.safe_of_parked (h : c.parked = true) (level : Nat) : c.Safe false level := by
  rw [Code.parked, Bool.and_eq_true, all_eq_true] at h
  refine ⟨[], false, h.1, fun l hl hg => ?_, fun _ => rfl, nofun⟩
  have hn := h.2 l hl
  rw [hg] at hn
  cases hn

theorem Code.Safe.between (h : c.Safe processing level) (hc : c.todo = [])
    (hops : disciplined processing [] false ops = true) (level' : Nat) :
    { c with todo := ops }.Safe processing level' := by
  obtain ⟨held, raised, hat⟩ := h
  have hrest := hat.rest
  rw [hc, disciplined, Bool.and_eq_true, Bool.not_eq_true', List.isEmpty_iff] at hrest
  obtain ⟨rfl, rfl⟩ := hrest
  exact ⟨[], false, hops, hat.covers, fun _ => rfl, nofun⟩

theorem Code.Safe.raise (h : c.Safe processing level) (hc : c.todo = .raiseIrql :: ops)
    (hlevel : processing = true → level = 2) :
    { c with todo := ops, irql := level }.Safe processing 2 := by
  obtain ⟨held, raised, hat⟩ := h
  have hrest := hat.rest
  rw [hc, disciplined, Bool.and_eq_true] at hrest
  exact ⟨held, true, hrest.2, hat.covers, nofun, fun _ => ⟨rfl, hlevel⟩⟩

theorem Code.Safe.lower (h : c.Safe processing level) (hc : c.todo = .lowerIrql :: ops)
    (level' : Nat) :
    { c with todo := ops }.Safe processing level' ∧ (processing = true → c.irql = 2) := by
  obtain ⟨held, raised, hat⟩ := h
  have hrest := hat.rest
  rw [hc, disciplined, Bool.and_eq_true, Bool.and_eq_true, List.isEmpty_iff] at hrest
  obtain ⟨⟨rfl, rfl⟩, hrest⟩ := hrest
  exact ⟨⟨[], false, hrest, hat.covers, fun _ => rfl, nofun⟩, (hat.raised rfl).2⟩

theorem Code.At.lock (h : c.At processing level held raised)
    (hrest : (if l.guarded = true then raised && disciplined processing (l :: held) raised ops
      else disciplined processing held raised ops) = true) :
    { c with todo := ops, held := l :: c.held }.Safe processing level := by
  rcases hg : l.guarded with - | -
  · rw [hg] at hrest
    refine ⟨held, raised, hrest, fun l' hl' hg' => ?_, h.lowered, h.raised⟩
    rcases mem_cons.mp hl' with rfl | hl'
    · exact absurd (hg.symm.trans hg') Bool.false_ne_true
    · exact h.covers l' hl' hg'
  · rw [hg, if_pos rfl, Bool.and_eq_true] at hrest
    obtain ⟨rfl, hrest⟩ := hrest
    refine ⟨l :: held, true, hrest, fun l' hl' hg' => ?_, nofun, h.raised⟩
    rcases mem_cons.mp hl' with rfl | hl'
    · exact mem_cons_self
    · exact mem_cons_of_mem _ (h.covers l' hl' hg')

theorem Code.At.unlock (h : c.At processing level held raised)
    (hrest : disciplined processing (unlock held l) raised ops = true) :
    { c with todo := ops, held := unlock c.held l }.Safe processing level := by
  refine ⟨LibXenon.unlock held l, raised, hrest, fun l' hl' hg' => ?_, fun hr => ?_, h.raised⟩
  · obtain ⟨hmem, hne⟩ := mem_filter.mp hl'
    exact mem_filter.mpr ⟨h.covers l' hmem hg', hne⟩
  · rw [h.lowered hr]
    rfl

theorem Code.At.skip (h : c.At processing level held raised)
    (hrest : disciplined processing held raised ops = true) :
    { c with todo := ops }.Safe processing level :=
  ⟨held, raised, hrest, h.covers, h.lowered, h.raised⟩

theorem Code.Safe.systemCall (h : c.Safe processing level) (hc : c.todo = .systemCall :: ops)
    (level' : Nat) : { c with todo := ops }.Safe processing level' ∧ processing = false := by
  obtain ⟨held, raised, hat⟩ := h
  have hrest := hat.rest
  rw [hc, disciplined, Bool.and_eq_true, Bool.and_eq_true, List.isEmpty_iff,
    Bool.not_eq_true'] at hrest
  obtain ⟨⟨hp, rfl⟩, hrest⟩ := hrest
  exact ⟨⟨[], false, hrest, hat.covers, fun _ => rfl, nofun⟩, hp⟩

/-! ### The processor -/

/-- The level of the thread: its handler keeps it while DPC procedures run. -/
def Core.threadLevel (s : Core) : Nat :=
  match s.dpc with
  | none => s.irq
  | some f => f.irql

/-- What holds in every state of every run. -/
structure CoreSound (s : Core) : Prop where
  online : ∃ L, Online s.machine L
  processing : s.processingDPC = s.dpc.isSome
  thread : s.thread.Safe false s.threadLevel
  procedure : ∀ f, s.dpc = some f →
    s.irq = 2 ∧ f.procedure.Safe true 2 ∧ (f.stage = .afterChoice → f.irql < 2)
  stopped : s.mode ≠ .running → s.dpc = none ∧ s.irq < 2

theorem CoreSound.thread_of_none (h : CoreSound s) (hd : s.dpc = none) : s.thread.Safe false s.irq := by
  have hthread := h.thread
  rw [Core.threadLevel, hd] at hthread
  exact hthread

theorem CoreSound.running (h : CoreSound s) : s.running.Safe s.dpc.isSome s.irq := by
  rcases Option.eq_none_or_eq_some s.dpc with hd | ⟨f, hd⟩
  · rw [Core.running, hd]
    exact h.thread_of_none hd
  · obtain ⟨hirq, hsafe, -⟩ := h.procedure f hd
    rw [Core.running, hd, hirq]
    exact hsafe

/-- The running code goes on, at the level `n`. -/
theorem CoreSound.setRunning (h : CoreSound s) (hmode : s.mode = .running) {n : Nat}
    (hc : c.Safe s.dpc.isSome n) (hn : s.dpc.isSome = true → n = 2) :
    CoreSound ({ s with irq := n }.setRunning c) := by
  rcases Option.eq_none_or_eq_some s.dpc with hd | ⟨f, hd⟩
  · rw [hd] at hc
    have hset : { s with irq := n }.setRunning c = { s with irq := n, thread := c } := by
      rw [Core.setRunning, hd]
    rw [hset]
    refine ⟨h.online, h.processing, ?_, fun _ hf => (nomatch hd.symm.trans hf),
      fun hm => absurd hmode hm⟩
    rw [Core.threadLevel, hd]
    exact hc
  · rw [hd] at hc hn
    obtain ⟨-, -, hstage⟩ := h.procedure f hd
    have hset : { s with irq := n }.setRunning c
        = { s with irq := n, dpc := some { f with procedure := c } } := by
      rw [Core.setRunning, hd]
    obtain rfl : n = 2 := hn rfl
    rw [hset]
    refine ⟨h.online, ?_, ?_, fun f' hf' => ?_, fun hm => absurd hmode hm⟩
    · rw [h.processing, hd]
      rfl
    · have hthread := h.thread
      rw [Core.threadLevel, hd] at hthread
      exact hthread
    · cases hf'
      exact ⟨rfl, hc, hstage⟩

theorem CoreSound.withMachine (h : CoreSound s) (hm : ∃ L, Online m L) : CoreSound { s with machine := m } :=
  ⟨hm, h.processing, h.thread, h.procedure, h.stopped⟩

theorem CoreSound.withList (h : CoreSound s) (n : Nat) : CoreSound { s with dpcList := n } :=
  ⟨h.online, h.processing, h.thread, h.procedure, h.stopped⟩

theorem online_step (h : ∃ L, Online m L) {a : ThreadAct} (ha : Enabled m a)
    (hs : threadStep m a = some m') : ∃ L, Online m' L := by
  obtain ⟨L, hL⟩ := h
  obtain ⟨L', hL', -⟩ := hL.step_some ha hs
  exact ⟨L', hL'⟩

section

variable (h : CoreSound s)
include h

theorem CoreSound.irq_eq (hd : s.dpc.isSome = true) : s.irq = 2 := by
  obtain ⟨f, hf⟩ := Option.isSome_iff_exists.mp hd
  exact (h.procedure f hf).1

theorem CoreSound.dpc_eq_none (hproc : s.processingDPC = false) : s.dpc = none := by
  rw [h.processing] at hproc
  simpa using hproc

theorem CoreSound.lockStep (hmode : s.mode = .running)
    (hc : { c with held := l :: c.held }.Safe s.dpc.isSome s.irq)
    (hs : lockStep p s c l = .ok s') : CoreSound s' := by
  obtain ⟨_, -, hs⟩ := bind_eq_ok.mp hs
  cases hs
  exact h.setRunning hmode hc h.irq_eq

/-- **A statement of the running code** keeps the invariant. -/
theorem CoreSound.opStep (hmode : s.mode = .running)
    (hact : ∀ a ∈ s.nextAct, Enabled s.machine a) (hs : opStep p s = .ok s') : CoreSound s' := by
  have hrun := h.running
  rw [LibXenon.opStep] at hs
  split at hs
  · cases hs
  · rename_i op ops htodo
    obtain ⟨held, raised, hat⟩ := h.running
    have hrest := hat.rest
    rw [htodo] at hrest
    cases op with
    | raiseIrql =>
      cases hs
      exact h.setRunning hmode (hrun.raise htodo h.irq_eq) fun _ => rfl
    | lowerIrql =>
      cases hs
      obtain ⟨hsafe, hirql⟩ := hrun.lower htodo s.running.irql
      exact h.setRunning hmode hsafe hirql
    | lock l =>
      exact h.lockStep (c := { s.running with todo := ops }) hmode (hat.lock hrest) hs
    | unlock l =>
      cases hs
      exact h.setRunning hmode (hat.unlock hrest) h.irq_eq
    | lockUnlessProcessing l =>
      rw [disciplined] at hrest
      dsimp only at hs
      rw [h.processing] at hs
      -- a DPC that queues a DPC does not take the lock
      split at hs
      · rename_i hd
        rw [show (!s.dpc.isSome) = true by rw [hd]; rfl, Bool.and_true] at hrest
        exact h.lockStep (c := { s.running with todo := ops }) hmode (hat.lock hrest) hs
      · rename_i hd
        rw [Bool.not_eq_false] at hd
        rw [show (!s.dpc.isSome) = false by rw [hd]; rfl, Bool.and_false] at hrest
        cases hs
        exact h.setRunning hmode (hat.skip hrest) h.irq_eq
    | unlockUnlessProcessing l =>
      rw [disciplined] at hrest
      dsimp only at hs
      rw [h.processing] at hs
      split at hs
      · rename_i hd
        rw [if_neg (by rw [hd]; exact Bool.false_ne_true)] at hrest
        cases hs
        exact h.setRunning hmode (hat.unlock hrest) h.irq_eq
      · rename_i hd
        rw [if_pos (Bool.not_eq_false _ ▸ hd)] at hrest
        cases hs
        exact h.setRunning hmode (hat.skip hrest) h.irq_eq
    | act a =>
      obtain ⟨m', hm', hs⟩ := bind_eq_ok.mp hs
      cases hs
      have ha : a ∈ s.nextAct := by
        rw [Core.nextAct, htodo]
        rfl
      have hon := online_step h.online (hact a ha) (deref_eq_ok.mp hm')
      exact (h.withMachine hon).setRunning hmode (hat.skip hrest) h.irq_eq
    | queueDpc =>
      cases hs
      exact (h.withList (s.dpcList + 1)).setRunning hmode (hat.skip hrest) h.irq_eq
    | systemCall =>
      cases hs
      obtain ⟨hsafe, hd⟩ := hrun.systemCall htodo 0
      rw [Option.isSome_eq_false_iff, Option.isNone_iff_eq_none] at hd
      have hset : ∀ c, { s with irq := 0, mode := .scheduling }.setRunning c
          = { s with irq := 0, mode := .scheduling, thread := c } := by
        intro c
        rw [Core.setRunning, hd]
      rw [hset]
      refine ⟨h.online, h.processing, ?_, fun _ hf => (nomatch hd.symm.trans hf),
        fun _ => ⟨hd, by simp⟩⟩
      rw [hd] at hsafe ⊢
      exact hsafe

theorem CoreSound.quantumEnd : CoreSound s.quantumEnd := by
  rw [Core.quantumEnd]
  split
  · rename_i hlt
    have hd : s.dpc = none := by
      rcases Option.eq_none_or_eq_some s.dpc with hd | ⟨f, hd⟩
      · exact hd
      · rw [(h.procedure f hd).1] at hlt
        omega
    exact ⟨h.online, h.processing, h.thread, h.procedure, fun _ => ⟨hd, hlt⟩⟩
  · exact h

theorem CoreSound.processDpc (hmode : s.mode = .running) (hd : s.dpc = none)
    {stage : Stage} (hstage : stage = .afterChoice → s.irq < 2) {rest : Core → Core}
    (hrest : CoreSound (rest s)) (hs : processDpc p below stage rest s = .ok s') : CoreSound s' := by
  obtain ⟨_, -, hs⟩ := bind_eq_ok.mp hs
  split at hs <;> cases hs
  · exact hrest
  · refine ⟨h.online, rfl, h.thread_of_none hd, fun f hf => ?_, fun hm => absurd hmode hm⟩
    cases hf
    exact ⟨rfl, ⟨[], false, rfl, nofun, fun _ => rfl, nofun⟩, hstage⟩

theorem CoreSound.decrementer (hmode : s.mode = .running)
    (hs : decrementerStep p s = .ok s') : CoreSound s' := by
  rw [decrementerStep] at hs
  split at hs
  · rename_i hdpc
    have hstage : Stage.beforeChoice = .afterChoice → s.irq < 2 := nofun
    exact h.processDpc hmode (h.dpc_eq_none hdpc.2) hstage h.quantumEnd hs
  · cases hs
    exact h.quantumEnd

theorem CoreSound.dpcReturn (hmode : s.mode = .running)
    (hs : dpcReturnStep s = .ok s') : CoreSound s' := by
  rw [dpcReturnStep] at hs
  split at hs
  · cases hs
  · rename_i f hd
    obtain ⟨hirq, -, hstage⟩ := h.procedure f hd
    have hthread := h.thread
    rw [Core.threadLevel, hd] at hthread
    split at hs
    · cases hs
      refine ⟨h.online, ?_, hthread, fun f' hf' => ?_, fun hm => absurd hmode hm⟩
      · rw [h.processing, hd]
        rfl
      · cases hf'
        exact ⟨hirq, ⟨[], false, rfl, nofun, fun _ => rfl, nofun⟩, hstage⟩
    · have hback : CoreSound { s with irq := f.irql, processingDPC := false, dpc := none } :=
        ⟨h.online, rfl, hthread, nofun, fun hm => absurd hmode hm⟩
      split at hs <;> cases hs
      · exact hback.quantumEnd
      · exact ⟨hback.online, hback.processing, hback.thread, hback.procedure,
          fun _ => ⟨rfl, hstage ‹_›⟩⟩

theorem CoreSound.held_unguarded (hmode : s.mode ≠ .running) :
    ∀ l ∈ s.held p, l.guarded = false := by
  obtain ⟨hd, hirq⟩ := h.stopped hmode
  intro l hl
  rw [Core.held, Core.own, Core.below, hd, append_nil] at hl
  exact (h.thread_of_none hd).unguarded (by omega) l hl

theorem CoreSound.pass (hmode : s.mode = .scheduling) (hs : passStep p s = .ok s') :
    CoreSound s' := by
  obtain ⟨hd, hirq⟩ := h.stopped (hmode ▸ nofun)
  obtain ⟨⟨m', g⟩, hsched, hs⟩ := bind_eq_ok.mp hs
  have hon := online_step (a := .pass p) h.online trivial (pass_of_locked hsched)
  set s₁ : Core := { s with
    machine := m'
    mode := .running
    lockcount := g.lockcount
    lockowner := g.lockowner } with hs₁
  have hsound : CoreSound s₁ :=
    ⟨hon, h.processing, h.thread, h.procedure, fun hm => absurd rfl hm⟩
  have hleave : CoreSound { s₁ with mode := .leaving } :=
    ⟨hon, h.processing, h.thread, h.procedure, fun _ => ⟨hd, hirq⟩⟩
  change (if s₁.processingDPC = false then LibXenon.processDpc p (s.held p) .afterChoice
    (fun s => { s with mode := .leaving }) s₁ else .ok { s₁ with mode := .leaving }) = _ at hs
  split at hs
  · exact hsound.processDpc rfl hd (fun _ => hirq) hleave hs
  · cases hs
    exact hleave

end

theorem of_enabled {cond : Prop} [Decidable cond] {e r : Except Halt Core}
    (hs : (if cond then e else .error .disabled) = r) (hr : r ≠ .error .disabled) :
    cond ∧ e = r := by
  split at hs
  · exact ⟨‹cond›, hs⟩
  · exact absurd hs.symm hr

/-- **One action** keeps the invariant. -/
theorem CoreSound.step (h : CoreSound s) {a : CoreAct} (hr : Respects p s a)
    (hs : coreTry p s a = .ok s') : CoreSound s' := by
  cases a with
  | call c =>
    obtain ⟨⟨hmode, htodo, hblocks⟩, hs⟩ := of_enabled hs nofun
    cases hs
    exact h.setRunning hmode (h.running.between (List.isEmpty_iff.mp htodo)
      (c.disciplined_ops p hblocks) s.irq) h.irq_eq
  | op =>
    obtain ⟨hmode, hs⟩ := of_enabled hs nofun
    exact h.opStep hmode hr hs
  | irql level =>
    obtain ⟨⟨hmode, htodo, hd⟩, hs⟩ := of_enabled hs nofun
    rw [Option.isNone_iff_eq_none] at hd
    cases hs
    refine ⟨h.online, h.processing, ?_, fun _ hf => (nomatch hd.symm.trans hf),
      fun hm => absurd hmode hm⟩
    have hidle : disciplined false [] false [] = true := rfl
    have hthread := h.thread.between (List.isEmpty_iff.mp htodo) hidle level
    rw [hd]
    rw [← List.isEmpty_iff.mp htodo] at hthread
    exact hthread
  | decrementer =>
    obtain ⟨hmode, hs⟩ := of_enabled hs nofun
    exact h.decrementer hmode hs
  | dpcReturn =>
    obtain ⟨⟨hmode, -⟩, hs⟩ := of_enabled hs nofun
    exact h.dpcReturn hmode hs
  | pass =>
    obtain ⟨hmode, hs⟩ := of_enabled hs nofun
    exact h.pass hmode hs
  | resume c =>
    obtain ⟨hmode, hs⟩ := of_enabled hs nofun
    obtain ⟨hd, -⟩ := h.stopped (hmode ▸ nofun)
    cases hs
    exact ⟨h.online, h.processing, Code.safe_of_parked hr _, fun _ hf => (nomatch hd.symm.trans hf),
      fun hm => absurd rfl hm⟩
  | elsewhere a =>
    obtain ⟨m', hm', hs⟩ := bind_eq_ok.mp hs
    cases hs
    exact h.withMachine (online_step h.online hr.1 (deref_eq_ok.mp hm'))
  | heapElsewhere lockcount lockowner =>
    cases hs
    exact ⟨h.online, h.processing, h.thread, h.procedure, h.stopped⟩

theorem coreStep_eq_some {a : CoreAct} (h : coreStep p s a = some s') :
    coreTry p s a = .ok s' := by
  rcases ht : coreTry p s a with e | s₁ <;> rw [coreStep, ht] at h <;> cases h
  rfl

variable {image : Image} {clock : Nat} {stack : UInt32} {order : List Processor} {boot : Machine}

theorem sound_start (horder : order.Perm [1, 2, 3, 4, 5])
    (hboot : threadingInit image clock (some stack) order = some boot) :
    CoreSound (Core.start boot) := by
  obtain ⟨L, hL⟩ := online_of_reach horder hboot Reach.refl
  refine ⟨⟨L, hL⟩, rfl, Code.safe_of_parked rfl _, nofun, fun hm => ?_⟩
  exact absurd rfl hm

/-! ### Passes -/

theorem CoreSound.passStep_ok_iff (h : CoreSound s) (hmode : s.mode = .scheduling) :
    (∃ s', passStep p s = .ok s') ↔ freesStack s.machine p = false := by
  have hclear : ∀ l : SpinLock, l.guarded = true → l ∉ s.held p := fun l hl hmem =>
    Bool.false_ne_true ((h.held_unguarded (hmode ▸ nofun) l hmem).symm.trans hl)
  obtain ⟨L, hL⟩ := h.online
  rw [← hL.lockedSchedule_iff (g := ⟨[], s.lockcount, s.lockowner⟩) rfl
    (hclear (.processor p) rfl) (hclear (.swapProcess p) rfl)]
  constructor
  · rintro ⟨s', hs'⟩
    obtain ⟨r, hr, -⟩ := bind_eq_ok.mp hs'
    exact ⟨r, hr⟩
  · rintro ⟨r, hr⟩
    refine exists_bind hr ?_
    dsimp only
    split
    · refine exists_bind (lock_eq_ok (by simp) (hclear (.dpc p) rfl)) ?_
      split
      · exact ⟨_, rfl⟩
      · exact ⟨_, rfl⟩
    · exact ⟨_, rfl⟩

/-- **Every pass returns, unless it frees a stack.**  In every state reached
from start-up, a call of `thread_schedule` comes to its end, and spins on no
lock that its own processor holds, exactly when the first pass gets to no
terminated thread that has a stack and no open handle. -/
theorem pass_returns_iff (image : Image) (clock : Nat) (stack : UInt32) (order : List Processor)
    (horder : order.Perm [1, 2, 3, 4, 5]) (boot : Machine)
    (hboot : threadingInit image clock (some stack) order = some boot) (p : Processor) (s : Core)
    (hr : Reach (coreStep p) (Respects p) (Core.start boot) s) (hmode : s.mode = .scheduling) :
    ((∀ l, passStep p s ≠ .error (.itself l) ∧ passStep p s ≠ .error (.interrupted l)) ∧
        ∃ s', passStep p s = .ok s') ↔
      freesStack s.machine p = false := by
  have hsound : CoreSound s := hr.invariant (sound_start horder hboot)
    fun s a s' h hg hs => h.step hg (coreStep_eq_some hs)
  rw [← hsound.passStep_ok_iff hmode]
  constructor
  · exact fun h => h.2
  · rintro ⟨s', hs'⟩
    refine ⟨fun l => ?_, s', hs'⟩
    rw [hs']
    exact ⟨nofun, nofun⟩

/-- A thread on processor 1 terminates while its creator has the handle; then
the creator gives the handle up, or does not. -/
def terminateOnOne (close : List CoreAct) : List CoreAct :=
  [.elsewhere (.create 0 0 0 0 0 (some 0x80010000)), .elsewhere (.setProcessor 7 1),
    .decrementer, .pass, .resume {}] ++ close ++ [.call .terminate, .op, .op, .op, .op, .op]

/-- The handle is open: the pass returns. -/
theorem pass_returns_with_handle :
    ∃ boot s, bootInOrder = some boot ∧
      Reach (coreStep 1) (Respects 1) (Core.start boot) s ∧ s.mode = .scheduling ∧
      ∃ s', passStep 1 s = .ok s' := by
  exact exists_reach_start_imp (terminateOnOne [])
    (fun s => s.mode = .scheduling ∧ freesStack s.machine 1 = false) (by decide +kernel)
    fun boot s hboot hr ⟨hmode, hfree⟩ => ⟨hmode, ((pass_returns_iff {} 0 0x80000000
      [1, 2, 3, 4, 5] (List.Perm.refl _) boot hboot 1 s hr hmode).mpr hfree).2⟩

/-- The handle is closed: the pass holds the processor's lock and `free` asks
for it again. -/
theorem pass_spins_on_own_lock :
    ∃ boot s, bootInOrder = some boot ∧
      Reach (coreStep 1) (Respects 1) (Core.start boot) s ∧ s.mode = .scheduling ∧
      passStep 1 s = .error (.itself (.processor 1)) := by
  exact exists_reach_start (terminateOnOne [.elsewhere (.close 7)]) (by decide +kernel)

/-! ### Locks of interrupted code -/

/-- No quantum ends at level 2 while no DPCs are being processed: the case in
which the decrementer handler runs DPCs that it must not run. -/
def Undisturbed (s : Core) : CoreAct → Prop
  | .decrementer => ¬ (s.irq = 2 ∧ s.processingDPC = false)
  | _ => True

instance (s : Core) (a : CoreAct) : Decidable (Undisturbed s a) :=
  match a with
  | .decrementer => inferInstanceAs (Decidable (¬ (_ ∧ _)))
  | .call _ | .op | .irql _ | .dpcReturn | .pass | .resume _ | .elsewhere _
  | .heapElsewhere .. => .isTrue trivial

/-- A thread that waits for DPC procedures holds no guarded lock. -/
def Clear (s : Core) : Prop := s.dpc ≠ none → ∀ l ∈ s.thread.held, l.guarded = false

theorem Clear.of_none (hd : s.dpc = none) : Clear s := fun h => absurd hd h

theorem Clear.processDpc {stage : Stage} {rest : Core → Core}
    (hheld : ∀ l ∈ s.thread.held, l.guarded = false) (hrest : Clear (rest s))
    (hs : processDpc p below stage rest s = .ok s') : Clear s' := by
  obtain ⟨_, -, hs⟩ := bind_eq_ok.mp hs
  split at hs <;> cases hs
  · exact hrest
  · exact fun _ => hheld

theorem Clear.setRunning (h : Clear s) (c : Code) : Clear (s.setRunning c) := by
  rcases Option.eq_none_or_eq_some s.dpc with hd | ⟨f, hd⟩
  · apply Clear.of_none
    rw [Core.setRunning, hd]
  · rw [Core.setRunning, hd]
    exact fun _ => h (by rw [hd]; exact Option.some_ne_none f)

theorem Clear.lockStep (h : Clear s) (hs : lockStep p s c l = .ok s') : Clear s' := by
  obtain ⟨_, -, hs⟩ := bind_eq_ok.mp hs
  cases hs
  exact h.setRunning _

theorem Clear.opStep (h : Clear s) (hs : opStep p s = .ok s') : Clear s' := by
  rw [LibXenon.opStep] at hs
  split at hs
  · cases hs
  · split at hs
    · cases hs
      exact Clear.setRunning (by exact h) _
    · cases hs
      exact Clear.setRunning (by exact h) _
    · exact h.lockStep hs
    · cases hs
      exact h.setRunning _
    · split at hs
      · exact h.lockStep hs
      · cases hs
        exact h.setRunning _
    · split at hs <;> cases hs <;> exact h.setRunning _
    · obtain ⟨m', -, hs⟩ := bind_eq_ok.mp hs
      cases hs
      exact Clear.setRunning (by exact h) _
    · cases hs
      exact Clear.setRunning (by exact h) _
    · cases hs
      exact Clear.setRunning (by exact h) _

theorem Clear.quantumEnd (h : Clear s) : Clear s.quantumEnd := by
  rw [Core.quantumEnd]
  split <;> exact h

theorem CoreSound.undisturbed (h : CoreSound s) (hu : Undisturbed s .decrementer)
    (hdpc : s.irq ≤ 2 ∧ s.processingDPC = false) :
    s.dpc = none ∧ ∀ l ∈ s.thread.held, l.guarded = false := by
  obtain ⟨hirq, hproc⟩ := hdpc
  have hlt : s.irq ≠ 2 := fun heq => hu ⟨heq, hproc⟩
  have hd := h.dpc_eq_none hproc
  exact ⟨hd, (h.thread_of_none hd).unguarded hlt⟩

theorem Clear.decrementer (h : Clear s) (hsound : CoreSound s) (hu : Undisturbed s .decrementer)
    (hs : decrementerStep p s = .ok s') : Clear s' := by
  rw [decrementerStep] at hs
  split at hs
  · rename_i hdpc
    exact Clear.processDpc (hsound.undisturbed hu hdpc).2 h.quantumEnd hs
  · cases hs
    exact h.quantumEnd

theorem Clear.dpcReturn (h : Clear s) (hs : dpcReturnStep s = .ok s') : Clear s' := by
  rw [dpcReturnStep] at hs
  split at hs
  · cases hs
  · rename_i f hd
    split at hs
    · cases hs
      exact fun _ => h (by rw [hd]; exact Option.some_ne_none f)
    · -- the last procedure: nothing waits any more
      split at hs
      · cases hs
        exact (Clear.of_none rfl).quantumEnd
      · cases hs
        exact Clear.of_none rfl

theorem Clear.pass (hsound : CoreSound s) (hmode : s.mode = .scheduling)
    (hs : passStep p s = .ok s') : Clear s' := by
  obtain ⟨hd, hirq⟩ := hsound.stopped (hmode ▸ nofun)
  have hheld := (hsound.thread_of_none hd).unguarded (by omega)
  obtain ⟨⟨m', g⟩, -, hs⟩ := bind_eq_ok.mp hs
  dsimp only at hs
  split at hs
  · exact Clear.processDpc (by exact hheld) (Clear.of_none hd) hs
  · cases hs
    exact Clear.of_none hd

theorem Clear.step (h : Clear s) (hsound : CoreSound s) {a : CoreAct} (hu : Undisturbed s a)
    (hs : coreTry p s a = .ok s') : Clear s' := by
  cases a with
  | call c =>
    obtain ⟨-, hs⟩ := of_enabled hs nofun
    cases hs
    exact h.setRunning _
  | op =>
    obtain ⟨-, hs⟩ := of_enabled hs nofun
    exact h.opStep hs
  | irql level =>
    obtain ⟨-, hs⟩ := of_enabled hs nofun
    cases hs
    exact h
  | decrementer =>
    obtain ⟨-, hs⟩ := of_enabled hs nofun
    exact h.decrementer hsound hu hs
  | dpcReturn =>
    obtain ⟨-, hs⟩ := of_enabled hs nofun
    exact h.dpcReturn hs
  | pass =>
    obtain ⟨hmode, hs⟩ := of_enabled hs nofun
    exact Clear.pass hsound hmode hs
  | resume c =>
    obtain ⟨hmode, hs⟩ := of_enabled hs nofun
    obtain ⟨hd, -⟩ := hsound.stopped (hmode ▸ nofun)
    cases hs
    exact Clear.of_none hd
  | elsewhere a =>
    obtain ⟨_, -, hs⟩ := bind_eq_ok.mp hs
    cases hs
    exact h
  | heapElsewhere lockcount lockowner =>
    cases hs
    exact h

theorem Blames.processDpc {stage : Stage} {rest : Core → Core} :
    Blames below (processDpc p below stage rest s) := by
  refine (Blames.lock _ _).bind fun _ => ?_
  split <;> exact Blames.ok _

theorem Blames.passStep : Blames (s.held p) (passStep p s) := by
  refine Blames.lockedSchedule.bind fun _ => ?_
  dsimp only
  split
  · exact Blames.processDpc
  · exact Blames.ok _

theorem Blames.opStep : Blames s.below (opStep p s) := by
  have hlock : ∀ c l, Blames s.below (LibXenon.lockStep p s c l) :=
    fun c l => (Blames.lock _ _).bind fun _ => Blames.ok _
  rw [LibXenon.opStep]
  split
  · exact nofun
  · split
    · exact Blames.ok _
    · exact Blames.ok _
    · exact hlock _ _
    · exact Blames.ok _
    · split
      · exact hlock _ _
      · exact Blames.ok _
    · split <;> exact Blames.ok _
    · exact (Blames.deref _).bind fun _ => Blames.ok _
    · exact Blames.ok _
    · exact Blames.ok _

theorem Blames.dpcReturnStep : Blames [] (dpcReturnStep s) := by
  rw [LibXenon.dpcReturnStep]
  split
  · exact nofun
  · split
    · exact Blames.ok _
    · split <;> exact Blames.ok _

theorem CoreSound.guarded_of_interrupted (h : CoreSound s) (hclear : Clear s) {a : CoreAct}
    (hu : Undisturbed s a) (hs : coreTry p s a = .error (.interrupted l)) :
    l.guarded = false := by
  cases a with
  | op =>
    obtain ⟨-, hs⟩ := of_enabled hs nofun
    have hmem := Blames.opStep l hs
    rcases Option.eq_none_or_eq_some s.dpc with hd | ⟨f, hd⟩
    · rw [Core.below, hd] at hmem
      cases hmem
    · rw [Core.below, hd] at hmem
      exact hclear (by rw [hd]; exact Option.some_ne_none f) l hmem
  | decrementer =>
    obtain ⟨-, hs⟩ := of_enabled hs nofun
    rw [decrementerStep] at hs
    split at hs
    · rename_i hdpc
      obtain ⟨hd, hheld⟩ := h.undisturbed hu hdpc
      have hmem := Blames.processDpc l hs
      rw [Core.held, Core.own, Core.below, hd, append_nil] at hmem
      exact hheld l hmem
    · cases hs
  | pass =>
    obtain ⟨hmode, hs⟩ := of_enabled hs nofun
    exact h.held_unguarded (hmode ▸ nofun) l (Blames.passStep l hs)
  | dpcReturn =>
    obtain ⟨-, hs⟩ := of_enabled hs nofun
    cases Blames.dpcReturnStep l hs
  | call c | irql level | resume c =>
    obtain ⟨-, hs⟩ := of_enabled hs nofun
    cases hs
  | elsewhere a =>
    have hblames : Blames [] (coreTry p s (.elsewhere a)) :=
      (Blames.deref _).bind fun _ => Blames.ok _
    cases hblames l hs
  | heapElsewhere lockcount lockowner => cases hs

/-- **The interrupt path never spins on a scheduler lock of the code it
interrupted**, along every run from start-up in which no quantum ends at level
2 while `ProcessingDPC` is 0. -/
theorem no_spin_on_interrupted (image : Image) (clock : Nat) (stack : UInt32)
    (order : List Processor) (horder : order.Perm [1, 2, 3, 4, 5]) (boot : Machine)
    (hboot : threadingInit image clock (some stack) order = some boot) (p : Processor) (s : Core)
    (hr : Reach (coreStep p) (fun s a => Respects p s a ∧ Undisturbed s a) (Core.start boot) s)
    (a : CoreAct) (ha : Undisturbed s a) (l : SpinLock)
    (hl : l = .dpc p ∨ l = .threadList ∨ l = .processor p) :
    coreTry p s a ≠ .error (.interrupted l) := by
  obtain ⟨hsound, hclear⟩ := hr.invariant (I := fun s => CoreSound s ∧ Clear s)
    ⟨sound_start horder hboot, Clear.of_none rfl⟩
    fun s a s' h hg hs => ⟨h.1.step hg.1 (coreStep_eq_some hs),
      h.2.step h.1 hg.2 (coreStep_eq_some hs)⟩
  intro hs
  have hguard := hsound.guarded_of_interrupted hclear ha hs
  rcases hl with rfl | rfl | rfl <;> cases hguard

/-- A quantum ends between two calls, and a DPC procedure queues another DPC
under `ThreadListLock`. -/
theorem no_spin_in_procedure :
    ∃ boot s, bootInOrder = some boot ∧
      Reach (coreStep 0) (fun s a => Respects 0 s a ∧ Undisturbed s a) (Core.start boot) s ∧
      s.dpc.isSome = true ∧ coreTry 0 s .op ≠ .error (.interrupted .threadList) := by
  exact exists_reach_start_imp [.call .dpcQueue, .op, .op, .op, .op, .op, .op, .op, .decrementer,
      .call .dpcQueue, .op] (fun s => s.dpc.isSome = true) (by decide +kernel)
    fun boot s hboot hr hval => ⟨hval, no_spin_on_interrupted {} 0 0x80000000 [1, 2, 3, 4, 5]
      (List.Perm.refl _) boot hboot 0 s hr .op trivial .threadList (.inr (.inl rfl))⟩

/-- A quantum ends while `dpc_queue` holds `DPCLock`: the handler spins on
it. -/
theorem decrementer_spins :
    ∃ boot s, bootInOrder = some boot ∧
      Reach (coreStep 0) (Respects 0) (Core.start boot) s ∧
      coreTry 0 s .decrementer = .error (.interrupted (.dpc 0)) := by
  exact exists_reach_start [.call .dpcQueue, .op, .op, .op] (by decide +kernel)

end LibXenon
