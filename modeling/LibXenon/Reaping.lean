/-
LibXenon/Reaping.lean

Which threads a scheduling pass reaps, and whether it reaps the thread on whose
stack it runs.

The entry code of an interrupt does not change the stack ("Dont do this for
now", `common_interrupt_handler`), so a pass runs on the stack of the thread
that was current.  The first pass frees the stack of every terminated thread
without a handle that it comes to, the current one included.

* `Online.passFrees_eq` — the calls of `free` in a pass: one for each dead
  thread that the scan comes to, with its `StackBase`;
* `holding_of_step` — what each action does to the four fields that decide over
  a stack;
* `current_reaped_iff` — a pass reaps its current thread exactly when that thread
  is dead and the scan comes to it, which never happens if every thread ends with
  its handle open and is closed only after it has left its processor.

`detached_reaped` is the ordinary run in which it does happen: a thread that was
closed right after its creation ends.
-/
import LibXenon.ThreadSystem

namespace LibXenon

open Links Transition List

variable {m m' : Machine} {L L' : Layout} {p q : Processor} {t i : PThread} {l : List PThread}
variable {a : ThreadAct}

/-! ### The calls of `free` in a pass -/

/-- The call of `free` for a thread that the first pass reaps, with its
argument. -/
def visitFrees (m : Machine) (pthr : PThread) : List (PThread × Option Nat) :=
  if (m.thread pthr).reapable then [(pthr, (m.thread pthr).stackBase)] else []

/-- The calls of `free` in the first pass, once round the ring. -/
def firstPassFrees (p : Processor) : Nat → Machine → PThread → List (PThread × Option Nat)
  | 0, _, _ => []
  | fuel + 1, m, pthr =>
    visitFrees m pthr ++
      match visit p m pthr with
      | none => []
      | some m =>
        if (m.thread pthr).nextThread = (m.processor p).firstThread then []
        else
          match (m.thread pthr).nextThread with
          | none => []
          | some pthr => firstPassFrees p fuel m pthr

/-- The calls of `free` in `thread_schedule`. -/
def passFrees (m : Machine) (p : Processor) : List (PThread × Option Nat) :=
  match m.store (m.processor p).currentThread Thread.stop with
  | none => []
  | some m =>
    match (m.processor p).firstThread with
    | none => []
    | some pthr => firstPassFrees p (maxThreadCount + 1) m pthr

/-- The calls of `free` for the dead threads of a list. -/
def deadFrees (m : Machine) (l : List PThread) : List (PThread × Option Nat) :=
  (l.filter m.dead).map fun t => (t, (m.thread t).stackBase)

theorem deadFrees_cons (m : Machine) (t : PThread) (l : List PThread) :
    deadFrees m (t :: l) = visitFrees m t ++ deadFrees m l := by
  have hdead : m.dead t = (m.thread t).reapable := rfl
  rw [deadFrees, visitFrees, filter_cons, hdead]
  split <;> rfl

theorem deadFrees_congr (hdead : ∀ x ∈ l, m'.dead x = m.dead x)
    (hbase : ∀ x ∈ l, (m'.thread x).stackBase = (m.thread x).stackBase) :
    deadFrees m' l = deadFrees m l := by
  rw [deadFrees, filter_congr hdead]
  refine map_congr_left fun x hx => ?_
  rw [hbase x (mem_of_mem_filter hx)]

theorem mem_deadFrees {b : Option Nat} :
    (t, b) ∈ deadFrees m l ↔ (t ∈ l ∧ m.dead t = true) ∧ (m.thread t).stackBase = b := by
  simp only [deadFrees, mem_map, mem_filter, Prod.mk.injEq]
  constructor
  · rintro ⟨x, hx, rfl, hb⟩
    exact ⟨hx, hb⟩
  · rintro ⟨ht, hb⟩
    exact ⟨t, ht, rfl, hb⟩

theorem firstPassFrees_succ {fuel : Nat} (hvisit : visit p m t = some m') :
    firstPassFrees p (fuel + 1) m t = visitFrees m t ++
      if m'.next .run t = (m'.processor p).firstThread then []
      else
        match m'.next .run t with
        | none => []
        | some u => firstPassFrees p fuel m' u := by
  rw [firstPassFrees, hvisit]
  rfl

/-- **The calls of `free` in the first pass** are those for the dead threads
that the scan comes to. -/
theorem Scans.firstPassFrees_eq (h : Scans p m t l m') :
    ∀ {fuel : Nat}, l.length < fuel → firstPassFrees p fuel m t = deadFrees m (t :: l) := by
  induction h with
  | last hvisit hback =>
    intro fuel hfuel
    obtain ⟨fuel, rfl⟩ := Nat.exists_eq_add_one.mpr hfuel
    rw [firstPassFrees_succ hvisit, if_pos hback, deadFrees_cons]
    rfl
  | @next m m₁ m' t u rest hvisit hnext hfirst hbody _ ih =>
    intro fuel hfuel
    obtain ⟨fuel, rfl⟩ := Nat.exists_eq_add_one.mpr (Nat.zero_lt_of_lt hfuel)
    -- what has been looked at does not change what will be freed
    have hrest : deadFrees m₁ (u :: rest) = deadFrees m (u :: rest) := by
      refine deadFrees_congr (fun x hx => ?_) fun x hx => ?_
      · exact (congrArg Thread.reapable (hbody x hx) :)
      · exact (congrArg Thread.stackBase (hbody x hx) :)
    rw [firstPassFrees_succ hvisit, hnext, if_neg hfirst, deadFrees_cons m t, ← hrest]
    exact congrArg (visitFrees m t ++ ·) (ih (Nat.lt_of_succ_lt_succ hfuel))

/-- **The calls of `free` in a pass.** -/
theorem Online.passFrees_eq (h : Online m L) (p : Processor) :
    passFrees m p = deadFrees m (scanned m.dead (L.list (.ring p))) := by
  obtain ⟨cur, hcur⟩ := Option.ne_none_iff_exists'.mp (h.current p trivial)
  obtain ⟨r, l, m₁, hl, hfirst, hlen, hscans⟩ := h.scans p cur
  have hfrees : firstPassFrees p (maxThreadCount + 1) (m.modifyThread cur Thread.stop) r
      = deadFrees (m.modifyThread cur Thread.stop) (scanned m.dead (r :: l)) := by
    rw [scanned_cons]
    refine hscans.firstPassFrees_eq ?_
    split
    · exact Nat.succ_pos _
    · exact Nat.lt_succ_of_lt hlen
  have hpass : passFrees m p
      = firstPassFrees p (maxThreadCount + 1) (m.modifyThread cur Thread.stop) r := by
    rw [passFrees, hcur]
    show (match (m.processor p).firstThread with
      | none => []
      | some pthr => firstPassFrees p (maxThreadCount + 1) (m.modifyThread cur Thread.stop) pthr) = _
    rw [hfirst]
  rw [hpass, hfrees, hl]
  refine deadFrees_congr (fun x _ => congrFun (dead_stop m cur) x) fun x _ => ?_
  exact Heap.modify_field m.thread cur x Thread.stackBase fun _ => rfl

/-! ### The fields that decide over a stack -/

/-- What decides whether a slot is in use, whether it will be reaped, and
which block is freed then. -/
structure Holding where
  valid : Bool
  terminated : Bool
  handleOpen : Bool
  stackBase : Option Nat

def Thread.holding (x : Thread) : Holding :=
  ⟨x.valid, x.threadTerminated, x.handleOpen, x.stackBase⟩

/-- An edit that touches none of these fields. -/
def SameHoldings (m m' : Machine) : Prop :=
  ∀ x, (m'.thread x).holding = (m.thread x).holding

theorem SameHoldings.trans {m'' : Machine} (h₁ : SameHoldings m m') (h₂ : SameHoldings m' m'') :
    SameHoldings m m'' := fun x => (h₂ x).trans (h₁ x)

@[simp] theorem holding_setNext (c : Chain) (v : Option PThread) (x : Thread) :
    (x.setNext c v).holding = x.holding := by
  cases c <;> rfl

@[simp] theorem holding_setPrev (c : Chain) (v : Option PThread) (x : Thread) :
    (x.setPrev c v).holding = x.holding := by
  cases c <;> rfl

theorem sameHoldings_modify (m : Machine) (t : PThread) (f : Thread → Thread)
    (hf : ∀ x, (f x).holding = x.holding := by intro _; first | rfl | simp) :
    SameHoldings m (m.modifyThread t f) :=
  fun x => Heap.modify_field m.thread t x Thread.holding hf

theorem sameHoldings_store {f : Thread → Thread} {ptr : Option PThread}
    (h : m.store ptr f = some m')
    (hf : ∀ x, (f x).holding = x.holding := by intro _; first | rfl | simp) :
    SameHoldings m m' := by
  cases ptr with
  | none => cases h
  | some t =>
    cases h
    exact sameHoldings_modify m t f hf

theorem sameHoldings_storeIf (m : Machine) (ptr : Option PThread) (f : Thread → Thread)
    (hf : ∀ x, (f x).holding = x.holding := by intro _; first | rfl | simp) :
    SameHoldings m (m.storeIf ptr f) := by
  cases ptr with
  | none => exact fun _ => rfl
  | some t => exact sameHoldings_modify m t f hf

theorem sameHoldings_unlink {c : Chain} (h : unlink c m t = some m') : SameHoldings m m' := by
  obtain ⟨m₁, h₁, h₂⟩ := Option.bind_eq_some_iff.mp h
  exact (sameHoldings_store h₁).trans (sameHoldings_store h₂)

theorem sameHoldings_linkBefore {c : Chain} {first last : Option PThread}
    (h : linkBefore c m first last t = some m') : SameHoldings m m' := by
  obtain ⟨m₁, h₁, h₂⟩ := Option.bind_eq_some_iff.mp h
  exact ((sameHoldings_modify m t _).trans (sameHoldings_modify _ t _)).trans
    ((sameHoldings_store h₁).trans (sameHoldings_store h₂))

theorem sameHoldings_insertFirst (h : insertFirst m p t = some m') : SameHoldings m m' := by
  obtain ⟨m₁, h₁, h₂⟩ := Option.bind_eq_some_iff.mp h
  cases h₂
  exact fun x => sameHoldings_linkBefore h₁ x

theorem sameHoldings_insertFirstFull (h : insertFirstFull m t = some m') : SameHoldings m m' := by
  obtain ⟨m₁, h₁, h₂⟩ := Option.bind_eq_some_iff.mp h
  cases h₂
  exact fun x => sameHoldings_linkBefore h₁ x

theorem sameHoldings_linkFull (h : linkFull m t = some m') : SameHoldings m m' := by
  obtain ⟨m₁, h₁, h⟩ := Option.bind_eq_some_iff.mp h
  obtain ⟨m₂, h₂, h₃⟩ := Option.bind_eq_some_iff.mp h
  cases h₃
  exact ((sameHoldings_store h₁).trans (sameHoldings_store h₂)).trans
    ((sameHoldings_modify m₂ t _).trans (sameHoldings_modify _ t _))

theorem sameHoldings_queueSwap (m : Machine) (q : Processor) (t : PThread) :
    SameHoldings m (queueSwap m q t) :=
  ((sameHoldings_modify m t _).trans (sameHoldings_modify _ t _)).trans
    ((sameHoldings_storeIf _ _ _).trans (sameHoldings_storeIf _ _ _))

theorem eq_of_lockedModify {f : Thread → Thread} (h : lockedModify m t f = some m') :
    m' = m.modifyThread t f := by
  obtain ⟨_, -, h⟩ := Option.bind_eq_some_iff.mp h
  cases h
  rfl

theorem sameHoldings_locked {f : Thread → Thread} (h : lockedModify m t f = some m')
    (hf : ∀ x, (f x).holding = x.holding := by intro _; rfl) : SameHoldings m m' := by
  rw [eq_of_lockedModify h]
  exact sameHoldings_modify m t f hf

theorem threadClose_holding (h : threadClose m t = some m') (x : PThread) :
    (m'.thread x).holding = { (m.thread x).holding with
      handleOpen := if x = t then false else (m.thread x).handleOpen } := by
  rw [eq_of_lockedModify h, thread_modifyThread]
  split <;> rfl

theorem sameHoldings_setProcessor (h : threadSetProcessor m t q = some m') :
    SameHoldings m m' := by
  obtain ⟨old, -, h⟩ := Option.bind_eq_some_iff.mp h
  split at h
  · cases h
    exact fun _ => rfl
  · obtain ⟨m₁, h₁, h⟩ := Option.bind_eq_some_iff.mp h
    cases h
    have hunlink := sameHoldings_unlink h₁
    have hleave : SameHoldings m₁ (leaveEnds m₁ old t) := fun _ => rfl
    exact ((hunlink.trans hleave).trans (sameHoldings_queueSwap _ q t)).trans
      (sameHoldings_modify _ t (Thread.assign q))

/-- **Creating a thread**: without a stack or a slot nothing happens; otherwise
a slot that was not in use gets the stack. -/
theorem threadCreate_holding {entrypoint argument : UInt64} {stackSize flags : UInt32}
    {stack : Option UInt32} {r : Option PThread}
    (h : threadCreate m p entrypoint stackSize argument flags stack = some (m', r)) :
    (r = none ∧ m' = m ∧ (stack = none ∨ threadPoolAlloc m = none)) ∨
      ∃ b i, stack = some b ∧ r = some i ∧ (∃ m₀, threadPoolAlloc m = some (m₀, i)) ∧
        ∀ x, (m'.thread x).holding
          = if x = i then ⟨true, false, true, some b.toNat⟩ else (m.thread x).holding := by
  unfold threadCreate at h
  split at h
  · cases h
    exact .inl ⟨rfl, rfl, .inl rfl⟩
  · rename_i b
    split at h
    · cases h
      exact .inl ⟨rfl, rfl, .inr ‹_›⟩
    · rename_i m₀ i hal
      obtain ⟨-, -, rfl⟩ := threadPoolAlloc_spec hal
      obtain ⟨m₁, h₁, h⟩ := Option.bind_eq_some_iff.mp h
      obtain ⟨m₂, h₂, h⟩ := Option.bind_eq_some_iff.mp h
      cases h
      refine .inr ⟨b, i, rfl, rfl, ⟨_, hal⟩, fun x => ?_⟩
      have hprime := sameHoldings_modify m₂ i (Thread.prime flags
        (startContext m₂ p entrypoint argument b (roundStackSize stackSize)))
      have hlinks := ((sameHoldings_insertFirst h₁).trans
        (sameHoldings_insertFirstFull h₂)).trans hprime
      rw [hlinks x, modifyThread_modifyThread, thread_modifyThread]
      split <;> rfl

/-! ### One action -/

/-- A pass marks the dead threads that the scan comes to as unused, and
touches nothing else that decides over a stack. -/
theorem Passed.holding {win : PThread} (h : Passed p win m L m' L') (x : PThread) :
    (m'.thread x).holding = { (m.thread x).holding with
      valid := if x ∈ scanned m.dead (L.list (.ring p)) then (m.thread x).valid && !m.dead x
        else (m.thread x).valid } := by
  rw [h.scheduled.field Thread.holding]
  simp only [prepared, settled, settle_eq, dead_stopCurrent]
  rw [← stopCurrent_field Thread.holding m p, ← dead_stopCurrent m p,
    ← stopCurrent_field Thread.valid m p]
  split_ifs <;> rfl

/-- What an action does to the fields that decide over a stack. -/
def HoldingsMove (m : Machine) (L : Layout) (m' : Machine) : ThreadAct → Prop
  | .create _ _ _ _ _ stack => m' = m ∨
      ∃ b i m₀, stack = some b ∧ threadPoolAlloc m = some (m₀, i) ∧ ∀ x, (m'.thread x).holding
        = if x = i then ⟨true, false, true, some b.toNat⟩ else (m.thread x).holding
  | .terminate p => ∃ c, (m.processor p).currentThread = some c ∧
      ∀ x, (m'.thread x).holding = { (m.thread x).holding with
        terminated := if x = c then true else (m.thread x).threadTerminated }
  | .close t => ∀ x, (m'.thread x).holding = { (m.thread x).holding with
        handleOpen := if x = t then false else (m.thread x).handleOpen }
  | .pass p => ∀ x, (m'.thread x).holding = { (m.thread x).holding with
        valid := if x ∈ scanned m.dead (L.list (.ring p)) then (m.thread x).valid && !m.dead x
          else (m.thread x).valid }
  | _ => SameHoldings m m'

theorem holding_of_step (hmoves : StepMoves m L m' L' a) (hs : threadStep m a = some m') :
    HoldingsMove m L m' a := by
  cases a with
  | create p entrypoint stackSize argument flags stack =>
    obtain ⟨⟨m₁, r⟩, hcreate, rfl⟩ := Option.map_eq_some_iff.mp hs
    rcases threadCreate_holding hcreate with ⟨-, hsame, -⟩ | ⟨b, i, hb, -, ⟨m₀, hal⟩, hx⟩
    · exact .inl hsame
    · exact .inr ⟨b, i, m₀, hb, hal, hx⟩
  | setProcessor t q => exact sameHoldings_setProcessor hs
  | terminate p =>
    obtain ⟨c, hc, rfl⟩ := Option.map_eq_some_iff.mp hs
    refine ⟨c, hc, fun x => ?_⟩
    rw [thread_modifyThread]
    split <;> rfl
  | close t => exact threadClose_holding hs
  | suspend t =>
    refine sameHoldings_locked hs fun x => ?_
    obtain ⟨n, hn⟩ := suspend_eq x
    rw [hn]
    rfl
  | resume t => exact sameHoldings_locked hs
  | setPriority t priority =>
    rw [threadStep, threadSetPriority] at hs
    split at hs
    · cases hs
      exact fun _ => rfl
    · exact sameHoldings_locked hs
  | setPriorityBoost t boost => exact sameHoldings_locked hs
  | sleep p milliseconds => exact sameHoldings_store hs
  | tick =>
    cases hs
    exact fun _ => rfl
  | pass p =>
    obtain ⟨win, hpassed⟩ := hmoves
    exact hpassed.holding

/-! ### Start-up -/

theorem createOwnThread_holding (h : createOwnThread m p = some (m', i)) :
    (∃ m₀, threadPoolAlloc m = some (m₀, i)) ∧ ∀ x, (m'.thread x).holding
      = if x = i then ⟨true, false, true, none⟩ else (m.thread x).holding := by
  obtain ⟨⟨m₀, j⟩, hal, -⟩ := Option.bind_eq_some_iff.mp h
  rw [createOwnThread_eq hal] at h
  obtain ⟨m₁, hlink, h⟩ := Option.bind_eq_some_iff.mp h
  cases h
  refine ⟨⟨m₀, hal⟩, fun x => ?_⟩
  rw [sameHoldings_linkFull hlink x]
  show (if x = i then ownRecord p i else m.thread x).holding = _
  split
  · unfold ownRecord
    split <;> rfl
  · rfl

theorem threadStartup_holding {stack : Option UInt32} (hp : p ≠ 0)
    (h : threadStartup m p stack = some m') : ∃ i m₀, threadPoolAlloc m = some (m₀, i) ∧
      ∀ x, (m'.thread x).holding
        = if x = i then ⟨true, false, false, none⟩ else (m.thread x).holding := by
  obtain ⟨⟨m₁, i⟩, hidle, hclose⟩ := Option.bind_eq_some_iff.mp h
  obtain ⟨⟨m₂, j⟩, hown, hret⟩ := Option.bind_eq_some_iff.mp hidle
  obtain ⟨⟨m₀, hal⟩, hx⟩ := createOwnThread_holding hown
  dsimp only at hret hclose
  rw [if_neg hp] at hret
  cases hret
  refine ⟨i, m₀, hal, fun x => ?_⟩
  rw [threadClose_holding hclose x, hx x]
  split
  · rfl
  · have hopen := congrArg Holding.handleOpen ((hx x).trans (if_neg ‹_›))
    exact congrArg (fun o => { (m.thread x).holding with handleOpen := o }) hopen

/-- A machine on which processor 0 is up and no thread has ended: the only
stack is that of its idle thread. -/
structure StartedUp (base : Nat) (m : Machine) : Prop where
  going : ∀ x, (m.thread x).threadTerminated = false
  bases : ∀ x, (m.thread x).stackBase = if x = 1 then some base else none
  idle : (m.thread 1).valid = true

theorem threadCreateIdleThread_holding {stack : UInt32}
    (h : threadCreateIdleThread m 0 (some stack) = some (m', i)) :
    ∃ m₁ m₂ j, createOwnThread m 0 = some (m₁, i) ∧
      threadCreate m₁ 0 m₁.image.threadIdleLoop 0 0 0 (some stack) = some (m₂, some j) ∧
      ∀ x, (m'.thread x).holding = { (m₂.thread x).holding with
        handleOpen := if x = j then false else (m₂.thread x).handleOpen } := by
  obtain ⟨⟨m₁, i'⟩, hown, h⟩ := Option.bind_eq_some_iff.mp h
  dsimp only at h
  obtain ⟨⟨m₂, r⟩, hcreate, h⟩ := Option.bind_eq_some_iff.mp h
  obtain ⟨j, hr, h⟩ := Option.bind_eq_some_iff.mp h
  obtain ⟨m₃, h₃, h⟩ := Option.bind_eq_some_iff.mp h
  obtain ⟨m₄, h₄, h⟩ := Option.bind_eq_some_iff.mp h
  obtain ⟨m₅, h₅, h⟩ := Option.bind_eq_some_iff.mp h
  cases h
  cases hr
  have hprio := (sameHoldings_locked h₃).trans (sameHoldings_locked h₄)
  refine ⟨m₁, m₂, j, hown, hcreate, fun x => ?_⟩
  have hopen := congrArg Holding.handleOpen (hprio x)
  rw [threadClose_holding h₅ x, hprio x]
  exact congrArg (fun o => { (m₂.thread x).holding with handleOpen := if x = j then false else o })
    hopen

theorem startedUp_first {image : Image} {clock : Nat} {stack : UInt32}
    (h : threadStartup { image := image, clock := clock } 0 (some stack) = some m) :
    StartedUp stack.toNat m := by
  rw [threadStartup] at h
  obtain ⟨⟨m₅, i⟩, hidle, hclose⟩ := Option.bind_eq_some_iff.mp h
  obtain ⟨m₁, m₂, j, hown, hcreate, hx₅⟩ := threadCreateIdleThread_holding hidle
  obtain ⟨⟨m₀, hal⟩, hx₁⟩ := createOwnThread_holding hown
  -- the main thread is slot 0
  cases hal
  rcases threadCreate_holding hcreate with ⟨hnone, -⟩ | ⟨b, j, hb, hj, ⟨m₀, hal⟩, hx₂⟩
  · cases hnone
  cases hb
  cases hj
  -- its idle thread is slot 1
  have hmain := congrArg Holding.valid (hx₁ 0)
  have hvalid := congrArg Holding.valid (hx₁ 1)
  have hopen := congrArg Holding.handleOpen (hx₁ 1)
  rw [threadPoolAlloc_next (k := 1) (by decide) (fun t ht => by
    rw [Nat.lt_one_iff.mp ht]
    exact hmain) ⟨hvalid, hopen⟩] at hal
  cases hal
  -- closing the two handles changes nothing but these
  have hx : ∀ x, ∃ o, (m.thread x).holding = { (if x = 1 then
      ⟨true, false, true, some stack.toNat⟩ else if x = 0 then ⟨true, false, true, none⟩ else
        ({} : Thread).holding : Holding) with handleOpen := o } := by
    intro x
    rw [threadClose_holding hclose x, hx₅ x, hx₂ x, hx₁ x]
    exact ⟨_, rfl⟩
  refine ⟨fun x => ?_, fun x => ?_, ?_⟩
  · obtain ⟨o, ho⟩ := hx x
    refine (congrArg Holding.terminated ho).trans ?_
    split_ifs <;> rfl
  · obtain ⟨o, ho⟩ := hx x
    refine (congrArg Holding.stackBase ho).trans ?_
    split_ifs <;> rfl
  · obtain ⟨o, ho⟩ := hx 1
    exact congrArg Holding.valid ho

theorem StartedUp.startup {base : Nat} {stack : Option UInt32} (h : StartedUp base m) (hp : p ≠ 0)
    (hs : threadStartup m p stack = some m') : StartedUp base m' := by
  obtain ⟨i, m₀, hal, hx⟩ := threadStartup_holding hp hs
  obtain ⟨-, hinvalid, -⟩ := threadPoolAlloc_spec hal
  have hi : 1 ≠ i := by
    rintro rfl
    exact Bool.false_ne_true (hinvalid.symm.trans h.idle)
  refine ⟨fun x => ?_, fun x => ?_, ?_⟩
  · refine (congrArg Holding.terminated (hx x) :).trans ?_
    split
    · rfl
    · exact h.going x
  · refine (congrArg Holding.stackBase (hx x) :).trans ?_
    split
    · rename_i hxi
      rw [hxi, if_neg hi.symm]
    · exact h.bases x
  · have hx := congrArg Holding.valid (hx 1)
    rw [if_neg hi] at hx
    exact hx.trans h.idle

theorem StartedUp.startAll {base : Nat} (order : List Processor) :
    ∀ {m m' : Machine}, StartedUp base m → (∀ p ∈ order, p ≠ 0) →
      order.foldlM (fun m p => threadStartup m p none) m = some m' → StartedUp base m' := by
  induction order with
  | nil =>
    intro m m' h _ hs
    cases hs
    exact h
  | cons p order ih =>
    intro m m' h hne hs
    rw [foldlM_cons] at hs
    obtain ⟨m₁, hm₁, hs⟩ := Option.bind_eq_some_iff.mp hs
    exact ih (h.startup (hne p (by simp)) hm₁) (fun q hq => hne q (mem_cons_of_mem _ hq)) hs

/-- **After start-up** no thread has ended, and the idle thread of processor 0
has the only stack. -/
theorem startedUp_of_init {image : Image} {clock : Nat} {stack : UInt32} {order : List Processor}
    (horder : order.Perm [1, 2, 3, 4, 5])
    (hboot : threadingInit image clock (some stack) order = some m) : StartedUp stack.toNat m := by
  rw [threadingInit] at hboot
  obtain ⟨m₁, hm₁, hrest⟩ := Option.bind_eq_some_iff.mp hboot
  refine (startedUp_first hm₁).startAll order ?_ hrest
  intro p hp
  rw [horder.mem_iff] at hp
  revert p
  decide

/-! ### The current thread -/

/-- The pass on `p` from `m` to `m'` frees the stack of `c` and marks it
unused. -/
def Reaps (m m' : Machine) (p : Processor) (c : PThread) : Prop :=
  c ∈ (passFrees m p).map Prod.fst ∧ (m.thread c).valid = true ∧ (m'.thread c).valid = false

instance (m m' : Machine) (p : Processor) (c : PThread) : Decidable (Reaps m m' p c) :=
  inferInstanceAs (Decidable (_ ∧ _ ∧ _))

/-- A thread ends with its handle open, and a thread that has ended is closed
only after it has left its processor. -/
def HandleKept (m : Machine) : ThreadAct → Prop
  | .terminate p => ∀ t ∈ (m.processor p).currentThread, (m.thread t).handleOpen = true
  | .close t => (m.thread t).threadTerminated = true →
      ∀ p, (m.processor p).currentThread ≠ some t
  | _ => True

instance (m : Machine) (a : ThreadAct) : Decidable (HandleKept m a) :=
  match a with
  | .terminate p => Option.decidableForallMem (m.processor p).currentThread
  | .close _ => inferInstanceAs (Decidable (_ → ∀ _, _))
  | .create .. | .setProcessor .. | .suspend _ | .resume _ | .setPriority ..
  | .setPriorityBoost .. | .sleep .. | .tick | .pass _ => .isTrue trivial

/-- No processor runs a dead thread. -/
def RunsLive (m : Machine) : Prop :=
  ∀ p c, (m.processor p).currentThread = some c → m.dead c = false

theorem dead_eq_holding (m : Machine) (t : PThread) :
    m.dead t = ((m.thread t).holding.terminated && !(m.thread t).holding.handleOpen) := rfl

theorem Passed.reaps_iff {win : PThread} (h : Passed p win m L m' L') (hon : Online m L)
    (c : PThread) :
    Reaps m m' p c ↔ m.dead c = true ∧ c ∈ scanned m.dead (L.list (.ring p)) := by
  have hfrees : c ∈ (passFrees m p).map Prod.fst
      ↔ c ∈ scanned m.dead (L.list (.ring p)) ∧ m.dead c = true := by
    rw [hon.passFrees_eq p, mem_map]
    constructor
    · rintro ⟨⟨x, b⟩, hx, rfl⟩
      exact (mem_deadFrees.mp hx).1
    · intro hc
      exact ⟨(c, (m.thread c).stackBase), mem_deadFrees.mpr ⟨hc, rfl⟩, rfl⟩
  rw [Reaps, hfrees, and_comm (a := m.dead c = true)]
  refine ⟨fun hc => hc.1, fun hc => ⟨hc, ?_, ?_⟩⟩
  · exact (hon.valid c).mpr ⟨_, scanned_subset _ _ hc.1⟩
  · refine (congrArg Holding.valid (h.holding c) :).trans ?_
    show (if c ∈ _ then _ else _) = false
    rw [if_pos hc.1, hc.2, Bool.not_true, Bool.and_false]

theorem Scheduled.win_ready {R T : List PThread} {win : PThread}
    (h : Scheduled p R T win m m') : (m'.thread win).ready = true :=
  (h.field Thread.ready win).trans h.win_prepared.2

theorem RunsLive.step (h : RunsLive m) (hkept : HandleKept m a) (hmoves : StepMoves m L m' L' a)
    (hs : threadStep m a = some m') : RunsLive m' := by
  have hhold := holding_of_step hmoves hs
  intro p c hc
  rw [dead_eq_holding]
  rcases hmoves.cases with ⟨q, win, rfl, hpassed⟩ | ⟨-, hun⟩
  · by_cases hp : p = q
    · -- the winner is ready, so it has not ended
      rw [hp, hpassed.scheduled.current] at hc
      cases hc
      exact Thread.ready_not_reapable hpassed.scheduled.win_ready
    · rw [hpassed.scheduled.edit.other p hp] at hc
      rw [hhold c]
      exact h p c hc
  · rw [hun.current] at hc
    have hlive := h p c hc
    cases a with
    | create _ _ _ _ _ stack =>
      rcases hhold with rfl | ⟨b, i, m₀, -, -, hx⟩
      · exact hlive
      · rw [hx c]
        split
        · rfl
        · exact hlive
    | terminate q =>
      obtain ⟨t, ht, hx⟩ := hhold
      rw [hx c]
      by_cases hct : c = t
      · -- it ends with its handle open
        have hopen : (m.thread c).holding.handleOpen = true := hkept c (by rw [ht, hct]; rfl)
        show (_ && !(m.thread c).holding.handleOpen) = false
        rw [hopen, Bool.not_true, Bool.and_false]
      · rw [if_neg hct]
        exact hlive
    | close t =>
      rw [hhold c]
      by_cases hct : c = t
      · -- a running thread that is closed has not ended
        have hgoing : (m.thread c).holding.terminated = false := by
          rw [Bool.eq_false_iff]
          intro hended
          rw [hct] at hended hc
          exact hkept hended p hc
        show ((m.thread c).holding.terminated && _) = false
        rw [hgoing, Bool.false_and]
      · rw [if_neg hct]
        exact hlive
    | setProcessor | suspend | resume | setPriority | setPriorityBoost | sleep | tick | pass =>
      rw [hhold c]
      exact hlive

/-- **A pass reaps the thread on whose stack it runs** exactly when that thread
has ended, has no handle and is one that the scan comes to.  It never does so
along a run in which every thread ends with its handle open and is closed only
after it has left its processor. -/
theorem current_reaped_iff (image : Image) (clock : Nat) (stack : UInt32)
    (order : List Processor) (horder : order.Perm [1, 2, 3, 4, 5]) (boot : Machine)
    (hboot : threadingInit image clock (some stack) order = some boot) :
    (∀ m, Reach threadStep Enabled boot m → ∀ p c m',
      (m.processor p).currentThread = some c → threadStep m (.pass p) = some m' →
      (Reaps m m' p c ↔ m.dead c = true ∧ c ∈ scanned m.dead (ringList m p))) ∧
    ∀ m, Reach threadStep (fun m a => Enabled m a ∧ HandleKept m a) boot m → ∀ p c m',
      (m.processor p).currentThread = some c → threadStep m (.pass p) = some m' →
      ¬ Reaps m m' p c := by
  have hreaps : ∀ {m : Machine} {L : Layout}, Online m L → ∀ p c m',
      threadStep m (.pass p) = some m' →
      (Reaps m m' p c ↔ m.dead c = true ∧ c ∈ scanned m.dead (ringList m p)) := by
    intro m L hon p c m' hs
    obtain ⟨L', -, win, hpassed⟩ := hon.step_some (a := .pass p) trivial hs
    rw [hon.ringList_eq p]
    exact hpassed.reaps_iff hon c
  obtain ⟨L₀, hon₀, -⟩ := online_of_init horder hboot
  have hstarted := startedUp_of_init horder hboot
  have hinit : RunsLive boot := by
    intro p c _
    rw [Machine.dead, Thread.reapable, hstarted.going c, Bool.false_and]
  refine ⟨fun m hr p c m' _ hs => ?_, fun m hr p c m' hc hs hreap => ?_⟩
  · obtain ⟨L, hon⟩ := online_of_reach horder hboot hr
    exact hreaps hon p c m' hs
  · obtain ⟨⟨L, hon⟩, hlive⟩ := hr.invariant (I := fun m => (∃ L, Online m L) ∧ RunsLive m)
      ⟨⟨L₀, hon₀⟩, hinit⟩ (by
        rintro m a m' ⟨⟨L, hL⟩, hlive⟩ ⟨ha, hkept⟩ hs
        obtain ⟨L', hL', hmoves⟩ := hL.step_some ha hs
        exact ⟨⟨L', hL'⟩, hlive.step hkept hmoves hs⟩)
    have hdead := ((hreaps hon p c m' hs).mp hreap).1
    exact Bool.false_ne_true ((hlive p c hc).symm.trans hdead)

/-- A thread ends with its handle open, is stopped by a pass and closed then: the
next pass reaps it, while another thread is current. -/
theorem joined_not_reaped :
    ∃ boot m m', bootInOrder = some boot ∧
      Reach threadStep (fun m a => Enabled m a ∧ HandleKept m a) boot m ∧
      (m.processor 0).currentThread = some 0 ∧ threadStep m (.pass 0) = some m' ∧
      passFrees m 0 = [(7, some 0x80010000)] ∧ ¬ Reaps m m' 0 0 := by
  obtain ⟨boot, m, hboot, hr, hcur, hfrees, m', hm', -⟩ : ∃ boot m, bootInOrder = some boot ∧
      Reach threadStep (fun m a => Enabled m a ∧ HandleKept m a) boot m ∧
      (m.processor 0).currentThread = some 0 ∧ passFrees m 0 = [(7, some 0x80010000)] ∧
      ∃ m', threadStep m (.pass 0) = some m' ∧ True :=
    exists_reach_start [.create 0 0 0 0 0 (some 0x80010000), .pass 0, .pass 0, .terminate 0,
      .pass 0, .close 7] (by decide +kernel)
  exact ⟨boot, m, m', hboot, hr, hcur, hm', hfrees, (current_reaped_iff {} 0 0x80000000
    [1, 2, 3, 4, 5] (List.Perm.refl _) boot hboot).2 m hr 0 0 m' hcur hm'⟩

/-- A thread that was closed after its creation ends, as does the main thread:
both are reaped by the pass that runs on their stack. -/
theorem detached_reaped :
    ∃ boot, bootInOrder = some boot ∧
      (∃ m, Reach threadStep Enabled boot m ∧ (m.processor 0).currentThread = some 7 ∧
        passFrees m 0 = [(7, some 0x80010000)] ∧
        ∃ m', threadStep m (.pass 0) = some m' ∧ Reaps m m' 0 7) ∧
      ∃ m, Reach threadStep Enabled boot m ∧ (m.processor 0).currentThread = some 0 ∧
        passFrees m 0 = [(0, none)] ∧
        ∃ m', threadStep m (.pass 0) = some m' ∧ Reaps m m' 0 0 := by
  exact ⟨bootInOrder.get (by decide +kernel), (Option.some_get _).symm,
    exists_reach [.create 0 0 0 0 0 (some 0x80010000), .close 7, .pass 0, .pass 0, .terminate 0]
      (by decide +kernel), exists_reach [.terminate 0] (by decide +kernel)⟩

end LibXenon
