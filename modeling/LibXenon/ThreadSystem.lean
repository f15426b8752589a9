/-
LibXenon/ThreadSystem.lean

The threads of six processors, from `threading_init` on.

An action is one call of a thread function, or one scheduling pass on a
processor (from its decrementer, or from the system call at the end of
`thread_terminate`, `thread_sleep` or `thread_set_processor`).  The actions
come in any order, from any processor.  `Enabled` says what callers must
respect: thread arguments are threads, and the idle threads are neither
moved, suspended, put to sleep nor terminated.

Results:

* `placed_of_reach` — in every state, each valid thread is in exactly one
  ring or swap list, and the lists are well linked; an action faults exactly
  when it moves a thread with a NULL link, that is, one at an end of a swap
  list;
* `current_unique` — no thread is current on two processors, along every run
  in which no processor takes over a thread that another one still runs.

`setProcessor_pending_fault` and `current_twice` are runs on which the code
does not behave so.
-/
import LibXenon.ThreadCreation
import LibXenon.Transition

namespace LibXenon

open Links Transition

/-! ### Actions -/

/-- The calls of the thread functions, and the scheduling passes. -/
inductive ThreadAct
  | create (p : Processor) (entrypoint : UInt64) (stackSize : UInt32) (argument : UInt64)
      (flags : UInt32) (stack : Option UInt32)
  | setProcessor (t : PThread) (p : Processor)
  | terminate (p : Processor)
  | close (t : PThread)
  | suspend (t : PThread)
  | resume (t : PThread)
  | setPriority (t : PThread) (priority : Nat)
  | setPriorityBoost (t : PThread) (boost : Nat)
  | sleep (p : Processor) (milliseconds : Nat)
  | tick
  | pass (p : Processor)
  deriving DecidableEq

/-- One action; `none` when the code faults. -/
def threadStep (m : Machine) : ThreadAct → Option Machine
  | .create p entrypoint stackSize argument flags stack =>
    (threadCreate m p entrypoint stackSize argument flags stack).map Prod.fst
  | .setProcessor t p => threadSetProcessor m t p
  | .terminate p => threadTerminate m p
  | .close t => threadClose m t
  | .suspend t => threadSuspend m t
  | .resume t => threadResume m t
  | .setPriority t priority => threadSetPriority m t priority
  | .setPriorityBoost t boost => threadSetPriorityBoost m t boost
  | .sleep p milliseconds => threadSleep m p milliseconds
  | .tick => some { m with clock := (m.clock + 1) % clockWidth }
  | .pass p => (threadSchedule (maxThreadCount + 1) m p).map Prod.fst

/-- What callers respect. -/
def Enabled (m : Machine) : ThreadAct → Prop
  | .setProcessor t _ => (m.thread t).valid = true ∧ ¬ Idle t
  | .suspend t => (m.thread t).valid = true ∧ ¬ Idle t
  | .terminate p => ∀ t ∈ (m.processor p).currentThread, ¬ Idle t
  | .sleep p _ => ∀ t ∈ (m.processor p).currentThread, ¬ Idle t
  | .close t => (m.thread t).valid = true
  | .resume t => (m.thread t).valid = true
  | .setPriority t _ => (m.thread t).valid = true
  | .setPriorityBoost t _ => (m.thread t).valid = true
  | _ => True

instance (m : Machine) (a : ThreadAct) : Decidable (Enabled m a) := by
  cases a <;> dsimp only [Enabled] <;> infer_instance

/-- A thread that is moved to another processor has both links: it is in a
ring, or between two others in a swap list. -/
def LinkedWhenMoved (m : Machine) : ThreadAct → Prop
  | .setProcessor t p => (m.thread t).thisProcessor ≠ some p →
      (m.thread t).nextThread ≠ none ∧ (m.thread t).previousThread ≠ none
  | _ => True

/-! ### One action -/

variable {m m' : Machine} {L L' : Layout} {p q : Processor} {t : PThread}

/-- No thread leaves its list but for a swap list. -/
def Keeps (L L' : Layout) : Prop :=
  ∀ a, ∀ t ∈ L.list a, t ∈ L'.list a ∨ ∃ q, t ∈ L'.list (.swap q)

/-- What an action does to the layout and to the current threads. -/
def StepMoves (m : Machine) (L : Layout) (m' : Machine) (L' : Layout) : ThreadAct → Prop
  | .pass p => ∃ win, Passed p win m L m' L'
  | .setPriorityBoost t boost =>
    L' = L ∧ m' = m.modifyThread t (Thread.setPriorityBoost (boost % 256))
  | _ => Keeps L L' ∧ Untouched m m'

theorem Keeps.refl (L : Layout) : Keeps L L := fun _ _ ht => .inl ht

theorem unmoved_setPriorityBoost (m : Machine) (t : PThread) (n : Nat) :
    Unmoved m (m.modifyThread t (Thread.setPriorityBoost n)) := by
  refine ⟨fun _ => rfl, rfl, fun x _ => ?_, fun x _ => ?_⟩
  · exact Heap.modify_field m.thread t x Thread.context fun _ => rfl
  · exact Heap.modify_field m.thread t x Thread.priorityBoost fun _ => rfl

theorem StepMoves.cases {a : ThreadAct} (h : StepMoves m L m' L' a) :
    (∃ p win, a = .pass p ∧ Passed p win m L m' L') ∨ Keeps L L' ∧ Unmoved m m' := by
  cases a with
  | pass p =>
    obtain ⟨win, hp⟩ := h
    exact .inl ⟨p, win, rfl, hp⟩
  | setPriorityBoost t boost =>
    obtain ⟨rfl, rfl⟩ := h
    exact .inr ⟨Keeps.refl _, unmoved_setPriorityBoost m t _⟩
  | create | setProcessor | terminate | close | suspend | resume | setPriority | sleep | tick =>
    exact .inr ⟨h.1, h.2.toUnmoved⟩

theorem Online.quiet {f : Thread → Thread} (h : Online m L) (hf : Quiet f) (t : PThread)
    (hidle : Idle t → ∀ x, x.ready = true → (f x).ready = true) :
    Online (m.modifyThread t f) L := by
  refine ⟨h.toShape.quiet hf t hidle, ?_⟩
  intro x hx
  rw [thread_modifyThread]
  split
  · rename_i hxt
    exact hidle (hxt ▸ hx) _ (h.idlers x hx)
  · exact h.idlers x hx

theorem ready_resume {x : Thread} (hx : x.ready = true) : x.resume.ready = true := by
  simp only [Thread.ready, Thread.resume, Bool.and_eq_true, beq_iff_eq] at hx ⊢
  obtain ⟨⟨⟨hterm, hcount⟩, hsleep⟩, hvalid⟩ := hx
  exact ⟨⟨⟨hterm, by rw [hcount]⟩, hsleep⟩, hvalid⟩

theorem Online.locked_spec {f : Thread → Thread} (h : Online m L)
    (ht : (m.thread t).valid = true) (hf : Mild f)
    (hidle : Idle t → ∀ x, x.ready = true → (f x).ready = true) :
    ∃ m' L', lockedModify m t f = some m' ∧ Online m' L' ∧ Keeps L L' ∧ Untouched m m' := by
  obtain ⟨a, ha⟩ := (h.valid t).mp ht
  exact ⟨_, L, lockedModify_eq (h.home a t ha), h.quiet hf.toQuiet t hidle, Keeps.refl L,
    hf.untouched m t⟩

theorem Online.current_spec {f : Thread → Thread} (h : Online m L) (hf : Mild f)
    (hbusy : ∀ t ∈ (m.processor p).currentThread, ¬ Idle t) :
    ∃ m' L', m.store (m.processor p).currentThread f = some m' ∧ Online m' L' ∧ Keeps L L' ∧
      Untouched m m' := by
  obtain ⟨t, ht⟩ := Option.ne_none_iff_exists'.mp (h.current p trivial)
  have hbusy' := hbusy t ht
  refine ⟨m.modifyThread t f, L, ?_, h.quiet hf.toQuiet t fun hi => absurd hi hbusy',
    Keeps.refl L, hf.untouched m t⟩
  rw [ht]
  rfl

theorem Online.create_spec (h : Online m L) (p : Processor) (entrypoint argument : UInt64)
    (stackSize flags : UInt32) (stack : Option UInt32) :
    ∃ m' r L', threadCreate m p entrypoint stackSize argument flags stack = some (m', r) ∧
      Online m' L' ∧ Keeps L L' ∧ Untouched m m' := by
  cases stack with
  | none => exact ⟨m, none, L, rfl, h, Keeps.refl L, Untouched.refl m⟩
  | some stack =>
    rcases hal : threadPoolAlloc m with - | ⟨m₀, i⟩
    · refine ⟨m, none, L, ?_, h, Keeps.refl L, Untouched.refl m⟩
      simp only [threadCreate, hal]
    · -- the slots of the idle threads are never free
      have hbusy : ¬ Idle i := by
        intro hi
        have hready := h.idlers i hi
        simp only [Thread.ready, Bool.and_eq_true] at hready
        rw [(threadPoolAlloc_spec hal).2.1] at hready
        exact Bool.false_ne_true hready.2
      obtain ⟨j, hj, -⟩ := h.idle p trivial
      obtain ⟨m', hfresh, hm', hshape, hcur, hbody⟩ := h.toShape.create_spec
        (List.ne_nil_of_mem hj) hal flags (fun hi => absurd hi hbusy) entrypoint argument
        stackSize stack
      refine ⟨m', some i, L.push (.ring p) i hfresh, hm', ⟨hshape, ?_⟩, ?_, hcur⟩
      · intro x hx
        have hxi : x ≠ i := fun hxi => hbusy (hxi ▸ hx)
        have hready := congrArg Thread.ready (hbody x hxi)
        exact hready.trans (h.idlers x hx)
      · exact fun a t ht => .inl (Layout.mem_push.mpr (.inr ht))

theorem Online.setProcessor_spec (h : Online m L) (ht : (m.thread t).valid = true)
    (hidle : ¬ Idle t) (q : Processor) :
    (LinkedWhenMoved m (.setProcessor t q) → ∃ m' L', threadSetProcessor m t q = some m' ∧
      Online m' L' ∧ Keeps L L' ∧ Untouched m m') ∧
    (¬ LinkedWhenMoved m (.setProcessor t q) → threadSetProcessor m t q = none) := by
  obtain ⟨a, ha⟩ := (h.valid t).mp ht
  have hhome := h.home a t ha
  constructor
  · intro hlinked
    by_cases hq : a.processor = q
    · refine ⟨m, L, ?_, h, Keeps.refl L, Untouched.refl m⟩
      rw [threadSetProcessor, hhome]
      exact if_pos hq
    · obtain ⟨hnext, hprev⟩ := hlinked (by rw [hhome]; simpa using hq)
      obtain ⟨m', hm', hshape, hcur⟩ :=
        h.toShape.setProcessor_spec ha trivial hidle hq hnext hprev
      refine ⟨m', L.move t q, hm', ⟨hshape, ?_⟩, ?_, hcur⟩
      · intro x hx
        -- idle threads do not move
        have hready := h.idlers x hx
        obtain ⟨b, hb⟩ := (h.valid x).mp (by
          simp only [Thread.ready, Bool.and_eq_true] at hready
          exact hready.2)
        have hxt : x ≠ t := fun hxt => hidle (hxt ▸ hx)
        exact hshape.awake b x (Layout.mem_move.mpr (.inr ⟨hxt, hb⟩)) hx
      · intro b x hx
        by_cases hxt : x = t
        · exact .inr ⟨q, Layout.mem_move.mpr (.inl ⟨hxt, rfl⟩)⟩
        · exact .inl (Layout.mem_move.mpr (.inr ⟨hxt, hx⟩))
  · intro hbroken
    obtain ⟨hq, hlinks⟩ := Classical.not_imp.mp hbroken
    rw [hhome, ne_eq, Option.some.injEq] at hq
    -- a link is NULL, and the code writes through both
    have hunlink : unlink .run m t = none := by
      apply unlink_none
      by_contra hboth
      rw [not_or] at hboth
      exact hlinks hboth
    rw [threadSetProcessor, hhome]
    show (if a.processor = q then _ else _) = _
    rw [if_neg hq, hunlink]
    rfl

theorem Online.pass_spec (h : Online m L) (p : Processor) :
    ∃ m' win L', threadSchedule (maxThreadCount + 1) m p = some (m', (m'.thread win).context) ∧
      Online m' L' ∧ Passed p win m L m' L' := by
  obtain ⟨m', win, L', hm', hshape, hready, hp⟩ := h.toShape.pass_spec (p := p) trivial
  exact ⟨m', win, L', hm', ⟨hshape, fun x hx => hready x (h.idlers x hx)⟩, hp⟩

theorem Online.step_ok (h : Online m L) {a : ThreadAct} (ha : Enabled m a)
    (hl : LinkedWhenMoved m a) :
    ∃ m' L', threadStep m a = some m' ∧ Online m' L' ∧ StepMoves m L m' L' a := by
  cases a with
  | setProcessor t q => exact (h.setProcessor_spec ha.1 ha.2 q).1 hl
  | create p entrypoint stackSize argument flags stack =>
    obtain ⟨m', r, L', hm', hon, hkeep, hcur⟩ :=
      h.create_spec p entrypoint argument stackSize flags stack
    exact ⟨m', L', by rw [threadStep, hm']; rfl, hon, hkeep, hcur⟩
  | terminate p => exact h.current_spec mild_terminate ha
  | close t => exact h.locked_spec ha mild_close fun _ x hx => hx
  | suspend t => exact h.locked_spec ha.1 mild_suspend fun hi => absurd hi ha.2
  | resume t => exact h.locked_spec ha mild_resume fun _ x hx => ready_resume hx
  | setPriority t priority =>
    by_cases hp : priority > 15
    · exact ⟨m, L, if_pos hp, h, Keeps.refl L, Untouched.refl m⟩
    · obtain ⟨m', L', hm', hmoves⟩ :=
        h.locked_spec ha (mild_setPriority priority) fun _ x hx => hx
      exact ⟨m', L', (if_neg hp).trans hm', hmoves⟩
  | setPriorityBoost t boost =>
    obtain ⟨b, hb⟩ := (h.valid t).mp ha
    exact ⟨_, L, lockedModify_eq (h.home b t hb),
      h.quiet (quiet_setPriorityBoost (boost % 256)) t fun _ x hx => hx, rfl, rfl⟩
  | sleep p milliseconds =>
    exact h.current_spec (mild_sleep ((m.clock + milliseconds) % clockWidth)) ha
  | tick =>
    exact ⟨_, L, rfl, ⟨h.toShape.withClock _, h.idlers⟩, Keeps.refl L,
      ⟨fun _ => rfl, rfl, fun _ _ => rfl, fun _ _ => rfl⟩, fun _ _ => rfl,
      fun _ hx hx' => absurd (hx.symm.trans hx') Bool.false_ne_true⟩
  | pass p =>
    obtain ⟨m', win, L', hm', hon, hpassed⟩ := h.pass_spec p
    exact ⟨m', L', by rw [threadStep, hm']; rfl, hon, win, hpassed⟩

/-- **One action** keeps the machine in order, and faults exactly when it
moves a thread that lacks a link. -/
theorem Online.step_spec (h : Online m L) {a : ThreadAct} (ha : Enabled m a) :
    (LinkedWhenMoved m a →
      ∃ m' L', threadStep m a = some m' ∧ Online m' L' ∧ StepMoves m L m' L' a) ∧
    (¬ LinkedWhenMoved m a → threadStep m a = none) := by
  refine ⟨h.step_ok ha, fun hn => ?_⟩
  cases a with
  | setProcessor t q => exact (h.setProcessor_spec ha.1 ha.2 q).2 hn
  | _ => exact absurd trivial hn

/-! ### Whole runs -/

theorem Online.step_some (h : Online m L) {a : ThreadAct} (ha : Enabled m a)
    (hs : threadStep m a = some m') : ∃ L', Online m' L' ∧ StepMoves m L m' L' a := by
  obtain ⟨hok, hfault⟩ := h.step_spec ha
  by_cases hl : LinkedWhenMoved m a
  · obtain ⟨m₁, L', hm₁, hon, hmoves⟩ := hok hl
    rw [hs] at hm₁
    cases hm₁
    exact ⟨L', hon, hmoves⟩
  · rw [hfault hl] at hs
    cases hs

variable {image : Image} {clock : Nat} {stack : UInt32} {order : List Processor} {boot : Machine}

theorem online_of_reach (horder : order.Perm [1, 2, 3, 4, 5])
    (hboot : threadingInit image clock (some stack) order = some boot)
    (hr : Reach threadStep Enabled boot m) : ∃ L, Online m L := by
  obtain ⟨L₀, hon, -⟩ := online_of_init horder hboot
  refine hr.invariant (I := fun m => ∃ L, Online m L) ⟨L₀, hon⟩ ?_
  rintro m a m' ⟨L, hL⟩ ha hs
  obtain ⟨L', hL', -⟩ := hL.step_some ha hs
  exact ⟨L', hL'⟩

/-- **Every thread is in exactly one place.**  In every state reached from
start-up, the rings and swap lists are well linked and hold each valid thread
once and nothing else; the next action faults exactly when it moves a thread
with a NULL link to another processor. -/
theorem placed_of_reach (image : Image) (clock : Nat) (stack : UInt32) (order : List Processor)
    (horder : order.Perm [1, 2, 3, 4, 5]) (boot m : Machine)
    (hboot : threadingInit image clock (some stack) order = some boot)
    (hr : Reach threadStep Enabled boot m) :
    (∃ L, Placed m L) ∧
      ∀ a, Enabled m a → ((∃ m', threadStep m a = some m') ↔ LinkedWhenMoved m a) := by
  obtain ⟨L, hL⟩ := online_of_reach horder hboot hr
  refine ⟨⟨L, hL.toPlaced⟩, ?_⟩
  intro a ha
  obtain ⟨hok, hfault⟩ := hL.step_spec ha
  constructor
  · rintro ⟨m', hm'⟩
    by_contra hl
    rw [hfault hl] at hm'
    cases hm'
  · intro hl
    obtain ⟨m', L', hm', -⟩ := hok hl
    exact ⟨m', hm'⟩

/-- The processors one after the other. -/
def bootInOrder : Option Machine := threadingInit {} 0 (some 0x80000000) [1, 2, 3, 4, 5]

/-- A thread moves to processor 1 and is taken over there; it may move
again. -/
theorem placed_after_migration :
    ∃ boot m, bootInOrder = some boot ∧ Reach threadStep Enabled boot m ∧
      (∃ L, Placed m L) ∧ ∃ m', threadStep m (.setProcessor 7 2) = some m' := by
  refine exists_reach_start_imp [.create 0 0 0 0 0 (some 0x80010000), .setProcessor 7 1, .pass 1]
    (fun m => (m.thread 7).valid = true ∧ (m.thread 7).nextThread ≠ none ∧
      (m.thread 7).previousThread ≠ none) (by decide) fun boot m hboot hr ⟨hvalid, hlinks⟩ => ?_
  obtain ⟨hplaced, hiff⟩ := placed_of_reach {} 0 0x80000000 [1, 2, 3, 4, 5] (List.Perm.refl _)
    boot m hboot hr
  exact ⟨hplaced, (hiff (.setProcessor 7 2) ⟨hvalid, by decide⟩).mpr fun _ => hlinks⟩

/-- A thread moved to processor 1 and, before a pass there, moved again: its
links are NULL, and `thread_set_processor` follows them. -/
theorem setProcessor_pending_fault :
    ∃ boot m, bootInOrder = some boot ∧ Reach threadStep Enabled boot m ∧
      Enabled m (.setProcessor 7 2) ∧ threadStep m (.setProcessor 7 2) = none := by
  exact exists_reach_start [.create 0 0 0 0 0 (some 0x80010000), .setProcessor 7 1] (by decide)

/-! ### Current threads -/

/-- Follow `NextThread` to NULL. -/
def walkNext (m : Machine) : Nat → Option PThread → List PThread
  | 0, _ => []
  | _ + 1, none => []
  | n + 1, some t => t :: walkNext m n (m.thread t).nextThread

/-- The threads pending in a processor's swap list. -/
def swapList (m : Machine) (p : Processor) : List PThread :=
  walkNext m maxThreadCount (m.processor p).firstSwapProcess

/-- A scheduling pass takes over no thread that another processor still
runs. -/
def TakesStopped (m : Machine) : ThreadAct → Prop
  | .pass p => ∀ t ∈ swapList m p, ∀ q, q ≠ p → (m.processor q).currentThread ≠ some t
  | _ => True

instance (m : Machine) (a : ThreadAct) : Decidable (TakesStopped m a) := by
  cases a <;> dsimp only [TakesStopped] <;> infer_instance

theorem walkNext_eq (l : List PThread) : ∀ {n : Nat}, Seg (m.next .run) (m.prev .run) l →
    (∀ z, l.getLast? = some z → m.next .run z = none) → l.length ≤ n →
    walkNext m n l.head? = l := by
  induction l with
  | nil =>
    intro n _ _ _
    cases n <;> rfl
  | cons t r ih =>
    intro n hseg hlast hn
    obtain ⟨n, rfl⟩ := Nat.exists_eq_add_one.mpr (Nat.zero_lt_of_lt hn)
    have hnext : (m.thread t).nextThread = r.head? := by
      cases r with
      | nil => exact hlast t rfl
      | cons b r => exact (seg_cons_cons.mp hseg).1.1
    have htail : walkNext m n r.head? = r := by
      refine ih hseg.tail (fun z hz => hlast z ?_) (Nat.le_of_succ_le_succ hn)
      rw [List.getLast?_cons, hz]
      rfl
    rw [List.head?_cons, walkNext, hnext, htail]

theorem Online.swapList_eq (h : Online m L) (p : Processor) :
    swapList m p = L.list (.swap p) := by
  have hlen := h.length_le p
  rw [swapList, (h.swap p).first]
  exact walkNext_eq _ (h.swap p).list.seg (h.swap p).list.next_last (by omega)

/-- Each current thread is in its processor's ring, or has been moved and
waits in a swap list; and no two processors share one. -/
structure RunsApart (m : Machine) (L : Layout) : Prop where
  place : ∀ p t, (m.processor p).currentThread = some t →
    t ∈ L.list (.ring p) ∨ ∃ q, t ∈ L.list (.swap q)
  apart : ∀ p q t, (m.processor p).currentThread = some t →
    (m.processor q).currentThread = some t → p = q

theorem RunsApart.start (hrun : ∀ p t, (m.processor p).currentThread = some t →
    t ∈ L.list (.ring p)) : RunsApart m L := by
  refine ⟨fun p t ht => .inl (hrun p t ht), fun p q t hp hq => ?_⟩
  cases L.unique (hrun p t hp) (hrun q t hq)
  rfl

theorem RunsApart.keeps (h : RunsApart m L) (hkeep : Keeps L L')
    (hcur : ∀ q, (m'.processor q).currentThread = (m.processor q).currentThread) :
    RunsApart m' L' where
  place p t ht := by
    rw [hcur] at ht
    rcases h.place p t ht with hring | ⟨q, hswap⟩
    · rcases hkeep _ t hring with hring' | hswap'
      · exact .inl hring'
      · exact .inr hswap'
    · rcases hkeep _ t hswap with hswap' | hswap'
      · exact .inr ⟨q, hswap'⟩
      · exact .inr hswap'
  apart p q t hp hq := by
    rw [hcur] at hp hq
    exact h.apart p q t hp hq

theorem RunsApart.pass (h : RunsApart m L)
    (hstopped : ∀ t ∈ L.list (.swap p), ∀ q, q ≠ p → (m.processor q).currentThread ≠ some t)
    {win : PThread} (hpassed : Passed p win m L m' L') : RunsApart m' L' := by
  have hwin := hpassed.ran
  have hcurp := hpassed.scheduled.current
  have hsub := hpassed.joined
  have hother := hpassed.apart
  have hcur : ∀ q, q ≠ p → (m'.processor q).currentThread = (m.processor q).currentThread := by
    intro q hq
    rw [hpassed.scheduled.edit.other q hq]
  -- what another processor runs is in none of the lists of `p`
  have hfar : ∀ q t, q ≠ p → (m.processor q).currentThread = some t →
      t ∉ L.list (.ring p) ∧ t ∉ L.list (.swap p) := by
    intro q t hq ht
    have hnot : t ∉ L.list (.swap p) := fun hs => hstopped t hs q hq ht
    refine ⟨fun hring => ?_, hnot⟩
    rcases h.place q t ht with hq' | ⟨r, hr⟩
    · cases L.unique hring hq'
      exact hq rfl
    · cases L.unique hring hr
  have hnowin : ∀ q, q ≠ p → (m.processor q).currentThread ≠ some win := by
    intro q hq ht
    obtain ⟨hring, hswap⟩ := hfar q win hq ht
    rcases hsub win hwin with h' | h'
    · exact hring h'
    · exact hswap h'
  refine ⟨fun q t ht => ?_, fun q r t hq hr => ?_⟩
  · by_cases hq : q = p
    · rw [hq, hcurp] at ht
      cases ht
      exact .inl (hq ▸ hwin)
    · rw [hcur q hq] at ht
      rcases h.place q t ht with hring | ⟨r, hr⟩
      · rw [hother (.ring q) (by simpa using hq) (by simp)]
        exact .inl hring
      · by_cases hrp : r = p
        · exact absurd (hrp ▸ hr) (hfar q t hq ht).2
        · refine .inr ⟨r, ?_⟩
          rw [hother (.swap r) (by simp) (by simpa using hrp)]
          exact hr
  · by_cases hqp : q = p <;> by_cases hrp : r = p
    · rw [hqp, hrp]
    · rw [hqp, hcurp] at hq
      cases hq
      rw [hcur r hrp] at hr
      exact absurd hr (hnowin r hrp)
    · rw [hrp, hcurp] at hr
      cases hr
      rw [hcur q hqp] at hq
      exact absurd hq (hnowin q hqp)
    · rw [hcur q hqp] at hq
      rw [hcur r hrp] at hr
      exact h.apart q r t hq hr

theorem RunsApart.step (h : RunsApart m L) (hon : Online m L) {a : ThreadAct}
    (hstopped : TakesStopped m a) (hmoves : StepMoves m L m' L' a) : RunsApart m' L' := by
  rcases hmoves.cases with ⟨p, win, rfl, hpassed⟩ | ⟨hkeep, hun⟩
  · rw [TakesStopped, hon.swapList_eq p] at hstopped
    exact h.pass hstopped hpassed
  · exact h.keeps hkeep hun.current

/-- **No thread is current on two processors**, along every run from
start-up in which no pass takes over a thread that another processor still
runs. -/
theorem current_unique (image : Image) (clock : Nat) (stack : UInt32) (order : List Processor)
    (horder : order.Perm [1, 2, 3, 4, 5]) (boot m : Machine)
    (hboot : threadingInit image clock (some stack) order = some boot)
    (hr : Reach threadStep (fun m a => Enabled m a ∧ TakesStopped m a) boot m)
    (p q : Processor) (t : PThread) (hp : (m.processor p).currentThread = some t)
    (hq : (m.processor q).currentThread = some t) : p = q := by
  obtain ⟨L₀, hon, hrun⟩ := online_of_init horder hboot
  obtain ⟨L, -, hapart⟩ := hr.invariant (I := fun m => ∃ L, Online m L ∧ RunsApart m L)
    ⟨L₀, hon, RunsApart.start hrun⟩ (by
      rintro m a m' ⟨L, hL, hapart⟩ ⟨ha, hstopped⟩ hs
      obtain ⟨L', hL', hmoves⟩ := hL.step_some ha hs
      exact ⟨L', hL', hapart.step hL hstopped hmoves⟩)
  exact hapart.apart p q t hp hq

/-- A thread that does not run moves to processor 1 and runs there, and
nowhere else. -/
theorem current_after_migration :
    ∃ boot m, bootInOrder = some boot ∧
      Reach threadStep (fun m a => Enabled m a ∧ TakesStopped m a) boot m ∧
      (m.processor 1).currentThread = some 7 ∧
      ∀ q, (m.processor q).currentThread = some 7 → q = 1 := by
  refine exists_reach_start_imp [.create 0 0 0 0 0 (some 0x80010000), .setProcessor 7 1, .pass 1]
    (fun m => (m.processor 1).currentThread = some 7) (by decide)
    fun boot m hboot hr hcur => ⟨hcur, fun q hq => ?_⟩
  exact current_unique {} 0 0x80000000 [1, 2, 3, 4, 5] (List.Perm.refl _) boot m hboot hr q 1 7
    hq hcur

/-- The main thread moves itself to processor 1, which takes it over before
processor 0 has made its system call: both run it. -/
theorem current_twice :
    ∃ boot m, bootInOrder = some boot ∧ Reach threadStep Enabled boot m ∧
      (m.processor 0).currentThread = some 0 ∧ (m.processor 1).currentThread = some 0 := by
  exact exists_reach_start [.setProcessor 0 1, .pass 1] (by decide)

end LibXenon
