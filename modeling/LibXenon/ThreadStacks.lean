/-
LibXenon/ThreadStacks.lean

The stacks of the threads: `memalign` in `thread_create`, `free` in the first pass
of the scheduler.

The machine of `ThreadSystem` runs beside the list of live stack blocks, each with
what `thread_create` returned for it.  `memalign` returns no live block; `free`
fails on anything but NULL or a live block.

* `Stocked.step`     — the live blocks that belong to a thread are the stacks of the
  valid threads, and they have distinct bases;
* `stackStep_forgets` — a block that belongs to no thread comes from a call of
  `thread_create` that got a stack and found no free slot, and from nothing else;
* `stacks_accounted` — in every state the live blocks are exactly the stacks of the
  valid threads if and only if there was no such call; no stack is freed twice, and a
  slot that is handed out has no live block.

After 249 calls the pool is full (`full_pool_leaks`).
-/
import LibXenon.Allocation
import LibXenon.Reaping

namespace LibXenon

open Transition Allocation List

variable {m m' : Machine} {L : Layout} {p : Processor} {t : PThread} {a : ThreadAct}

/-! ### The machine with its stacks -/

/-- The threads, and the live blocks that `memalign` gave to `thread_create`, each
with what the call returned. -/
structure StackMachine where
  machine : Machine
  live : List (Nat × Option PThread)

/-- One action; `none` when the code faults, or frees what is not live. -/
def stackStep (s : StackMachine) : ThreadAct → Option StackMachine
  | .create p entrypoint stackSize argument flags stack => do
      let (m, pthr) ← threadCreate s.machine p entrypoint stackSize argument flags stack
      some ⟨m, (stack.map fun base => (base.toNat, pthr)).toList ++ s.live⟩
  | .pass p => do
      let m ← threadStep s.machine (.pass p)
      let live ← freeAll s.live ((passFrees s.machine p).map Prod.snd)
      some ⟨m, live⟩
  | a => (threadStep s.machine a).map fun m => ⟨m, s.live⟩

/-- `memalign` returns no block that is live. -/
def FreshBlock (s : StackMachine) : ThreadAct → Prop
  | .create _ _ _ _ _ stack => ∀ base ∈ stack, base.toNat ∉ bases s.live
  | _ => True

/-- What callers and `memalign` respect. -/
def StackEnabled (s : StackMachine) (a : ThreadAct) : Prop := Enabled s.machine a ∧ FreshBlock s a

instance (s : StackMachine) (a : ThreadAct) : Decidable (FreshBlock s a) :=
  match a with
  | .create _ _ _ _ _ stack => Option.decidableForallMem stack
  | .setProcessor .. | .terminate _ | .close _ | .suspend _ | .resume _ | .setPriority ..
  | .setPriorityBoost .. | .sleep .. | .tick | .pass _ => .isTrue trivial

instance (s : StackMachine) (a : ThreadAct) : Decidable (StackEnabled s a) :=
  inferInstanceAs (Decidable (_ ∧ _))

variable {s s' : StackMachine}

theorem threadStep_of_stackStep (h : stackStep s a = some s') :
    threadStep s.machine a = some s'.machine := by
  cases a with
  | create p entrypoint stackSize argument flags stack =>
    obtain ⟨⟨m, r⟩, hcreate, h⟩ := Option.bind_eq_some_iff.mp h
    cases h
    exact congrArg (Option.map Prod.fst) hcreate
  | pass p =>
    obtain ⟨m, hm, h⟩ := Option.bind_eq_some_iff.mp h
    obtain ⟨live, -, h⟩ := Option.bind_eq_some_iff.mp h
    cases h
    exact hm
  | tick =>
    cases h
    rfl
  | setProcessor | terminate | close | suspend | resume | setPriority | setPriorityBoost
  | sleep =>
    obtain ⟨m, hm, h⟩ := Option.map_eq_some_iff.mp h
    cases h
    exact hm

/-! ### The blocks of the threads -/

/-- The stack of a valid thread is a live block, and the other way round; no two
blocks have one base. -/
structure Stocked (s : StackMachine) : Prop where
  owned : ∀ b t, (b, some t) ∈ s.live ↔
    (s.machine.thread t).valid = true ∧ (s.machine.thread t).stackBase = some b
  distinct : (bases s.live).Nodup

/-- The live blocks are the stacks of the valid threads. -/
def Accounted (s : StackMachine) : Prop :=
  ∀ b, b ∈ bases s.live ↔
    ∃ t, (s.machine.thread t).valid = true ∧ (s.machine.thread t).stackBase = some b

/-- The blocks are accounted for but for those that `thread_create` kept to
itself. -/
theorem Stocked.accounted_iff (h : Stocked s) : Accounted s ↔ ∀ b, (b, none) ∉ s.live := by
  constructor
  · intro hacc b hb
    obtain ⟨t, ht⟩ := (hacc b).mp (mem_bases.mpr ⟨none, hb⟩)
    cases eq_of_base_eq h.distinct hb ((h.owned b t).mpr ht)
  · intro hnone b
    rw [mem_bases]
    constructor
    · rintro ⟨r, hr⟩
      cases r with
      | none => exact absurd hr (hnone b)
      | some t => exact ⟨t, (h.owned b t).mp hr⟩
    · rintro ⟨t, ht⟩
      exact ⟨some t, (h.owned b t).mpr ht⟩

theorem Stocked.unowned (h : Stocked s) (ht : (s.machine.thread t).valid = false) (b : Nat) :
    (b, some t) ∉ s.live := by
  intro hb
  exact Bool.false_ne_true (ht.symm.trans ((h.owned b t).mp hb).1)

theorem Stocked.congr (h : Stocked s)
    (hvalid : ∀ x, (m'.thread x).valid = (s.machine.thread x).valid)
    (hbase : ∀ x, (m'.thread x).stackBase = (s.machine.thread x).stackBase) :
    Stocked ⟨m', s.live⟩ where
  owned b t := by
    rw [hvalid, hbase]
    exact h.owned b t
  distinct := h.distinct

theorem nodup_scanned {dead : PThread → Bool} {l : List PThread} (hn : l.Nodup) :
    (scanned dead l).Nodup := by
  cases l with
  | nil => exact nodup_nil
  | cons t r =>
    rw [scanned]
    split
    · exact nodup_singleton t
    · exact hn

/-- **The calls of `free` in a pass** take exactly the blocks of the reaped
threads off the list. -/
theorem Stocked.freed (h : Stocked s) (hon : Online s.machine L) (p : Processor) :
    ∃ live', freeAll s.live ((passFrees s.machine p).map Prod.snd) = some live' ∧
      live'.Sublist s.live ∧ ∀ b r, (b, r) ∈ live' ↔ (b, r) ∈ s.live ∧
        ∀ t ∈ r, ¬ (t ∈ scanned s.machine.dead (L.list (.ring p)) ∧ s.machine.dead t = true) := by
  set D := (scanned s.machine.dead (L.list (.ring p))).filter s.machine.dead with hD
  have hmemD : ∀ t, t ∈ D ↔ t ∈ scanned s.machine.dead (L.list (.ring p)) ∧
      s.machine.dead t = true := fun t => mem_filter
  have hptrs : (passFrees s.machine p).map Prod.snd
      = D.map fun t => (s.machine.thread t).stackBase := by
    rw [hon.passFrees_eq p, deadFrees, map_map]
    rfl
  have hvalid : ∀ t ∈ D, (s.machine.thread t).valid = true := fun t ht =>
    (hon.valid t).mpr ⟨_, scanned_subset _ _ ((hmemD t).mp ht).1⟩
  -- the block of a reaped thread is live, and is no other thread's
  have hown : ∀ b r, (b, r) ∈ s.live → (some b ∈ D.map (fun t => (s.machine.thread t).stackBase)
      ↔ ∃ t ∈ r, t ∈ D) := by
    intro b r hr
    rw [mem_map]
    constructor
    · rintro ⟨t, ht, hb⟩
      have hlive := (h.owned b t).mpr ⟨hvalid t ht, hb⟩
      exact ⟨t, eq_of_base_eq h.distinct hr hlive, ht⟩
    · rintro ⟨t, rfl, ht⟩
      exact ⟨t, ht, ((h.owned b t).mp hr).2⟩
  have hnodup : (D.map fun t => (s.machine.thread t).stackBase).reduceOption.Nodup := by
    have hn : D.Nodup := (nodup_scanned (L.nodup _)).filter _
    rw [List.reduceOption, filterMap_map]
    refine List.Pairwise.filterMap _ ?_ (hn.imp_of_mem fun {x y} hx hy hxy =>
      (⟨hx, hy, hxy⟩ : x ∈ D ∧ y ∈ D ∧ x ≠ y))
    rintro x y ⟨hx, hy, hxy⟩ b hb c hc rfl
    have hbx := (h.owned b x).mpr ⟨hvalid x hx, hb⟩
    have hby := (h.owned b y).mpr ⟨hvalid y hy, hc⟩
    exact hxy (Option.some.inj (eq_of_base_eq h.distinct hbx hby))
  have hlive : ∀ b, some b ∈ D.map (fun t => (s.machine.thread t).stackBase) →
      b ∈ bases s.live := by
    intro b hb
    obtain ⟨t, ht, hbase⟩ := mem_map.mp hb
    exact mem_bases.mpr ⟨some t, (h.owned b t).mpr ⟨hvalid t ht, hbase⟩⟩
  obtain ⟨live', hfree, hsub, hmem⟩ := freeAll_spec _ hnodup hlive
  refine ⟨live', by rw [hptrs]; exact hfree, hsub, fun b r => ?_⟩
  rw [hmem]
  refine and_congr_right fun hr => ?_
  rw [hown b r hr]
  simp only [hmemD, not_exists, not_and]

/-! ### One action -/

theorem Stocked.pass (h : Stocked s) (hon : Online s.machine L) (p : Processor) :
    ∃ s', stackStep s (.pass p) = some s' ∧ Stocked s' ∧
      ∀ b, (b, none) ∈ s'.live ↔ (b, none) ∈ s.live := by
  obtain ⟨live', hfree, hsub, hmem⟩ := h.freed hon p
  obtain ⟨hok, -⟩ := hon.step_spec (a := .pass p) trivial
  obtain ⟨m', L', hm', -, win, hpassed⟩ := hok trivial
  refine ⟨⟨m', live'⟩, ?_, ⟨fun b t => ?_, nodup_bases_of_sublist hsub h.distinct⟩, fun b => ?_⟩
  · rw [stackStep, hm', hfree]
    rfl
  · have hbase : (m'.thread t).stackBase = (s.machine.thread t).stackBase :=
      congrArg Holding.stackBase (hpassed.holding t)
    have hvalid : (m'.thread t).valid = _ := congrArg Holding.valid (hpassed.holding t)
    show (b, some t) ∈ live' ↔ _
    rw [hmem, hbase, hvalid, h.owned b t]
    simp only [Option.mem_some_iff, forall_eq']
    by_cases hscan : t ∈ scanned s.machine.dead (L.list (.ring p))
    · rw [if_pos hscan]
      cases s.machine.dead t <;> simp [hscan]
    · rw [if_neg hscan]
      simp [hscan]
  · exact (hmem b none).trans (and_iff_left fun t ht => nomatch ht)

/-- A call of `thread_create` gives its stack to the thread that it returns. -/
theorem Stocked.create {entrypoint argument : UInt64} {stackSize flags : UInt32}
    {stack : Option UInt32} {r : Option PThread} (h : Stocked s)
    (hcreate : threadCreate s.machine p entrypoint stackSize argument flags stack = some (m', r))
    (hfresh : ∀ base ∈ stack, base.toNat ∉ bases s.live) :
    Stocked ⟨m', (stack.map fun base => (base.toNat, r)).toList ++ s.live⟩ := by
  rcases threadCreate_holding hcreate with ⟨rfl, rfl, -⟩ | ⟨base, i, rfl, rfl, ⟨m₀, hal⟩, hx⟩
  · cases stack with
    | none => exact h
    | some base =>
      refine ⟨fun b t => ?_, nodup_cons.mpr ⟨hfresh base rfl, h.distinct⟩⟩
      rw [← h.owned b t]
      simp
  · obtain ⟨-, hinvalid, -⟩ := threadPoolAlloc_spec hal
    refine ⟨fun b t => ?_, nodup_cons.mpr ⟨hfresh base rfl, h.distinct⟩⟩
    have hvalid := congrArg Holding.valid (hx t)
    have hbase := congrArg Holding.stackBase (hx t)
    show (b, some t) ∈ (base.toNat, some i) :: s.live ↔
      (m'.thread t).holding.valid = true ∧ (m'.thread t).holding.stackBase = some b
    rw [hvalid, hbase, mem_cons, Prod.mk.injEq, Option.some.injEq]
    by_cases hti : t = i
    · subst hti
      have hnone := h.unowned hinvalid b
      simp [hnone, eq_comm]
    · simp only [hti, and_false, false_or]
      exact h.owned b t

/-- **One action** keeps the blocks of the threads, and frees none that
`thread_create` kept to itself. -/
theorem Stocked.step (h : Stocked s) (hon : Online s.machine L) (ha : StackEnabled s a)
    (hs : stackStep s a = some s') :
    Stocked s' ∧ ∀ b, (b, none) ∈ s.live → (b, none) ∈ s'.live := by
  have hstep := threadStep_of_stackStep hs
  obtain ⟨L', -, hmoves⟩ := hon.step_some ha.1 hstep
  have hhold := holding_of_step hmoves hstep
  cases a with
  | create p entrypoint stackSize argument flags stack =>
    obtain ⟨⟨m₁, r⟩, hcreate, hs⟩ := Option.bind_eq_some_iff.mp hs
    cases hs
    exact ⟨h.create hcreate ha.2, fun b hb => mem_append_right _ hb⟩
  | pass p =>
    obtain ⟨s₁, hs₁, hstocked, hkept⟩ := h.pass hon p
    rw [hs₁] at hs
    cases hs
    exact ⟨hstocked, fun b => (hkept b).mpr⟩
  | terminate p =>
    obtain ⟨m₁, hm₁, hs⟩ := Option.map_eq_some_iff.mp hs
    cases hs
    obtain ⟨c, -, hx⟩ := hhold
    exact ⟨h.congr (fun x => congrArg Holding.valid (hx x))
      fun x => congrArg Holding.stackBase (hx x), fun _ hb => hb⟩
  | tick =>
    cases hs
    exact ⟨h.congr (fun _ => rfl) fun _ => rfl, fun _ hb => hb⟩
  | setProcessor | close | suspend | resume | setPriority | setPriorityBoost | sleep =>
    obtain ⟨m₁, hm₁, hs⟩ := Option.map_eq_some_iff.mp hs
    cases hs
    exact ⟨h.congr (fun x => congrArg Holding.valid (hhold x))
      fun x => congrArg Holding.stackBase (hhold x), fun _ hb => hb⟩

theorem threadPoolAlloc_eq_none_iff : threadPoolAlloc m = none ↔
    ∀ t < maxThreadCount, (m.thread t).valid = true ∨ (m.thread t).handleOpen = true := by
  have hfind : threadPoolAlloc m = none ↔ (List.range maxThreadCount).find?
      (fun i => !(m.thread i).valid && !(m.thread i).handleOpen) = none := by
    rw [threadPoolAlloc]
    split <;> simp [*]
  rw [hfind, List.find?_eq_none]
  refine forall_congr' fun t => imp_congr mem_range ?_
  cases (m.thread t).valid <;> simp

/-- A call of `thread_create` that gets a stack and finds no free slot. -/
def Forgets (m : Machine) : ThreadAct → Prop
  | .create _ _ _ _ _ stack => stack ≠ none ∧
      ∀ t < maxThreadCount, (m.thread t).valid = true ∨ (m.thread t).handleOpen = true
  | _ => False

/-- **A block is forgotten** by such a call, and by nothing else. -/
theorem stackStep_forgets (h : Stocked s) (hon : Online s.machine L) (ha : StackEnabled s a)
    (hs : stackStep s a = some s') :
    (∃ b, (b, none) ∈ s'.live ∧ (b, none) ∉ s.live) ↔ Forgets s.machine a := by
  have hsame (hlive : ∀ b, (b, none) ∈ s'.live ↔ (b, none) ∈ s.live) :
      ¬ ∃ b, (b, none) ∈ s'.live ∧ (b, none) ∉ s.live := fun ⟨b, hb, hnot⟩ => hnot ((hlive b).mp hb)
  cases a with
  | create p entrypoint stackSize argument flags stack =>
    rw [Forgets, ← threadPoolAlloc_eq_none_iff]
    obtain ⟨⟨m₁, r⟩, hcreate, hs⟩ := Option.bind_eq_some_iff.mp hs
    cases hs
    cases stack with
    | none => exact iff_of_false (hsame fun _ => Iff.rfl) fun hf => hf.1 rfl
    | some base =>
      rcases threadCreate_holding hcreate with ⟨rfl, -, hnone | hnone⟩ | ⟨_, i, -, rfl, ⟨m₀, hal⟩, -⟩
      · cases hnone
      · -- the block is a new one
        refine iff_of_true ⟨base.toNat, mem_cons_self .., fun hold => ?_⟩
          ⟨Option.some_ne_none _, hnone⟩
        exact ha.2 base rfl (mem_bases.mpr ⟨none, hold⟩)
      · refine iff_of_false (hsame fun b => ?_) fun hf => ?_
        · simp
        · rw [hal] at hf
          cases hf.2
  | pass p =>
    obtain ⟨s₁, hs₁, -, hkept⟩ := h.pass hon p
    rw [hs₁] at hs
    cases hs
    exact iff_of_false (hsame hkept) id
  | tick =>
    cases hs
    exact iff_of_false (hsame fun _ => Iff.rfl) id
  | setProcessor | terminate | close | suspend | resume | setPriority | setPriorityBoost
  | sleep =>
    obtain ⟨m₁, -, hs⟩ := Option.map_eq_some_iff.mp hs
    cases hs
    exact iff_of_false (hsame fun _ => Iff.rfl) id

/-! ### Whole runs -/

/-- The machine after start-up: the idle thread of processor 0 has a stack. -/
def startedStacks (stack : UInt32) (boot : Machine) : StackMachine :=
  ⟨boot, [(stack.toNat, some 1)]⟩

theorem stocked_started {stack : UInt32} (h : StartedUp stack.toNat m) :
    Stocked (startedStacks stack m) := by
  refine ⟨fun b t => ?_, nodup_singleton _⟩
  show (b, some t) ∈ [(stack.toNat, some 1)] ↔ (m.thread t).valid = true ∧
    (m.thread t).stackBase = some b
  rw [mem_singleton, Prod.mk.injEq, h.bases t]
  by_cases ht : t = 1
  · subst ht
    simp [h.idle, eq_comm]
  · simp [ht]

variable {image : Image} {clock : Nat} {stack : UInt32} {order : List Processor} {boot : Machine}

/-- The processors are up and the blocks are those of the threads. -/
structure Balanced (s : StackMachine) : Prop where
  online : ∃ L, Online s.machine L
  stocked : Stocked s

theorem Balanced.step (h : Balanced s) (ha : StackEnabled s a) (hs : stackStep s a = some s') :
    Balanced s' ∧ ∀ b, (b, none) ∈ s.live → (b, none) ∈ s'.live := by
  obtain ⟨L, hon⟩ := h.online
  obtain ⟨L', hon', -⟩ := hon.step_some ha.1 (threadStep_of_stackStep hs)
  obtain ⟨hstocked, hkept⟩ := h.stocked.step hon ha hs
  exact ⟨⟨⟨L', hon'⟩, hstocked⟩, hkept⟩

theorem balanced_started (horder : order.Perm [1, 2, 3, 4, 5])
    (hboot : threadingInit image clock (some stack) order = some boot) :
    Balanced (startedStacks stack boot) := by
  obtain ⟨L₀, hon, -⟩ := online_of_init horder hboot
  exact ⟨⟨L₀, hon⟩, stocked_started (startedUp_of_init horder hboot)⟩

/-- A run keeps the blocks of the threads, and a block that `thread_create` kept to
itself stays live. -/
theorem Balanced.reach (h : Balanced s) (hr : Reach stackStep StackEnabled s s') :
    Balanced s' ∧ ∀ b, (b, none) ∈ s.live → (b, none) ∈ s'.live := by
  refine hr.invariant
    (I := fun s' => Balanced s' ∧ ∀ b, (b, none) ∈ s.live → (b, none) ∈ s'.live)
    ⟨h, fun _ hb => hb⟩ ?_
  rintro s₁ a s₂ ⟨hbal, hkept⟩ ha hs
  obtain ⟨hbal', hkept'⟩ := hbal.step ha hs
  exact ⟨hbal', fun b hb => hkept' b (hkept b hb)⟩

/-- **The stacks are accounted for** exactly as long as no stack has been forgotten,
and that is what a call of `thread_create` does that gets a stack and finds no free
slot; such a stack stays live for ever.  No pass frees a block that is not live, and
the slot that `thread_pool_alloc` hands out has no live block. -/
theorem stacks_accounted (image : Image) (clock : Nat) (stack : UInt32)
    (order : List Processor) (horder : order.Perm [1, 2, 3, 4, 5]) (boot : Machine)
    (hboot : threadingInit image clock (some stack) order = some boot) (s : StackMachine)
    (hr : Reach stackStep StackEnabled (startedStacks stack boot) s) :
    (Accounted s ↔ ∀ b, (b, none) ∉ s.live) ∧
      (∀ a s', StackEnabled s a → stackStep s a = some s' →
        ((∃ b, (b, none) ∈ s'.live ∧ (b, none) ∉ s.live) ↔ Forgets s.machine a)) ∧
      (∀ b s', (b, none) ∈ s.live → Reach stackStep StackEnabled s s' → (b, none) ∈ s'.live) ∧
      (bases s.live).Nodup ∧ (∀ p, ∃ s', stackStep s (.pass p) = some s') ∧
      ∀ m i, threadPoolAlloc s.machine = some (m, i) → ∀ b, (b, some i) ∉ s.live := by
  have hbal := ((balanced_started horder hboot).reach hr).1
  have hstocked := hbal.stocked
  obtain ⟨L, hon⟩ := hbal.online
  refine ⟨hstocked.accounted_iff, fun a s' => stackStep_forgets hstocked hon, ?_,
    hstocked.distinct, ?_, ?_⟩
  · intro b s' hb hr'
    exact (hbal.reach hr').2 b hb
  · intro p
    obtain ⟨s', hs', -⟩ := hstocked.pass hon p
    exact ⟨s', hs'⟩
  · intro m i hal b
    obtain ⟨-, hinvalid, -⟩ := threadPoolAlloc_spec hal
    exact hstocked.unowned hinvalid b

/-- A thread is created, runs, ends and is reaped: its stack is freed, and what is
left is the stack of the idle thread. -/
theorem stacks_accounted_reaped :
    ∃ boot s, bootInOrder = some boot ∧
      Reach stackStep StackEnabled (startedStacks 0x80000000 boot) s ∧
      s.live = [(0x80000000, some 1)] ∧ Accounted s := by
  refine exists_reach_start_imp [.create 0 0 0 0 0 (some 0x80010000), .close 7, .pass 0, .pass 0,
      .terminate 0, .pass 0] (fun s => s.live = [(0x80000000, some 1)]) (by decide +kernel)
    fun boot s hboot hr hlive => ⟨hlive, ?_⟩
  refine (stacks_accounted {} 0 0x80000000 [1, 2, 3, 4, 5] (List.Perm.refl _) boot hboot s
    hr).1.mpr fun b hb => ?_
  rw [hlive] at hb
  simp at hb

/-! ### A full pool -/

/-- The `k`-th block of an arena of 64 kB blocks. -/
def arena (k : Nat) : UInt32 := UInt32.ofNat (0x80000000 + 0x10000 * k)

theorem toNat_arena {k : Nat} (hk : k ≤ maxThreadCount) :
    (arena k).toNat = 0x80000000 + 0x10000 * k := by
  have hmax : maxThreadCount = 256 := rfl
  rw [arena, UInt32.toNat_ofNat_of_lt']
  rw [show UInt32.size = 4294967296 from rfl]
  omega

/-- The first `k` slots are taken, and the blocks are among the first `k` of the
arena. -/
structure Filled (k : Nat) (s : StackMachine) : Prop where
  balanced : Balanced s
  below : ∀ t < k, (s.machine.thread t).valid = true
  above : ∀ t, k ≤ t → t < maxThreadCount →
    (s.machine.thread t).valid = false ∧ (s.machine.thread t).handleOpen = false
  low : ∀ b ∈ bases s.live, b < 0x80000000 + 0x10000 * k
  given : ∀ b, (b, none) ∉ s.live

/-- The call that takes the `k`-th block. -/
def take (k : Nat) : ThreadAct := .create 0 0 0 0 0 (some (arena k))

theorem Filled.enabled {k : Nat} (h : Filled k s) (hk : k ≤ maxThreadCount) :
    StackEnabled s (take k) := by
  refine ⟨trivial, ?_⟩
  rintro base ⟨⟩ hb
  have hlow := h.low _ hb
  rw [toNat_arena hk] at hlow
  exact Nat.lt_irrefl _ hlow

theorem Filled.take_spec {k : Nat} (h : Filled k s) (hk : k ≤ maxThreadCount) :
    ∃ m' r, threadCreate s.machine 0 0 0 0 0 (some (arena k)) = some (m', r) ∧
      stackStep s (take k) = some ⟨m', (0x80000000 + 0x10000 * k, r) :: s.live⟩ := by
  obtain ⟨L, hon⟩ := h.balanced.online
  obtain ⟨hok, -⟩ := hon.step_spec (a := take k) trivial
  obtain ⟨m', L', hm', -⟩ := hok trivial
  obtain ⟨⟨m', r⟩, hcreate, rfl⟩ := Option.map_eq_some_iff.mp hm'
  refine ⟨m', r, hcreate, ?_⟩
  rw [take, stackStep, hcreate, ← toNat_arena hk]
  rfl

theorem Filled.next {k : Nat} (h : Filled k s) (hk : k < maxThreadCount) :
    ∃ s', stackStep s (take k) = some s' ∧ Filled (k + 1) s' := by
  obtain ⟨m', r, hcreate, hstep⟩ := h.take_spec (Nat.le_of_lt hk)
  have halloc := threadPoolAlloc_next hk h.below (h.above k (Nat.le_refl k) hk)
  -- there is a stack and a slot, so the call does not return NULL
  rcases threadCreate_holding hcreate with ⟨-, -, hnone | hnone⟩ | ⟨base, i, -, rfl, ⟨m₀, hal⟩, hx⟩
  · cases hnone
  · rw [halloc] at hnone
    cases hnone
  rw [halloc] at hal
  cases hal
  refine ⟨_, hstep, (h.balanced.step (h.enabled (Nat.le_of_lt hk)) hstep).1, ?_, ?_, ?_, ?_⟩
  · intro t ht
    have hvalid := congrArg Holding.valid (hx t)
    refine hvalid.trans ?_
    by_cases htk : t = k
    · rw [if_pos htk]
    · rw [if_neg htk]
      exact h.below t (by omega)
  · intro t ht hmax
    have htk : t ≠ k := by omega
    have hx := (hx t).trans (if_neg htk)
    obtain ⟨hvalid, hopen⟩ := h.above t (by omega) hmax
    exact ⟨(congrArg Holding.valid hx).trans hvalid, (congrArg Holding.handleOpen hx).trans hopen⟩
  · intro b hb
    rcases mem_cons.mp hb with rfl | hb
    · dsimp only
      omega
    · have hlow := h.low b hb
      omega
  · intro b hb
    rcases mem_cons.mp hb with heq | hb
    · cases heq
    · exact h.given b hb

theorem Filled.fill (n : Nat) : ∀ {k : Nat} {s : StackMachine}, Filled k s →
    k + n ≤ maxThreadCount →
    ∃ s', Reach stackStep StackEnabled s s' ∧ Filled (k + n) s' := by
  induction n with
  | zero => exact fun h _ => ⟨_, Reach.refl, h⟩
  | succ n ih =>
    intro k s h hk
    obtain ⟨s₁, hs₁, h₁⟩ := ih h (by omega)
    obtain ⟨s₂, hstep, h₂⟩ := h₁.next (by omega)
    exact ⟨s₂, hs₁.tail (h₁.enabled (by omega)) hstep, h₂⟩

theorem filled_started {boot : Machine} (hboot : bootInOrder = some boot) :
    Filled 7 (startedStacks 0x80000000 boot) := by
  have hslots : (bootInOrder.map fun boot => (List.range maxThreadCount).all fun t =>
      if t < 7 then (boot.thread t).valid
      else !(boot.thread t).valid && !(boot.thread t).handleOpen) = some true := by decide +kernel
  rw [hboot, Option.map_some, Option.some.injEq, all_eq_true] at hslots
  refine ⟨balanced_started (List.Perm.refl [1, 2, 3, 4, 5]) hboot, fun t ht => ?_,
    fun t ht hmax => ?_, fun b hb => ?_, fun b hb => ?_⟩
  · have hslot := hslots t (mem_range.mpr (lt_trans ht (by decide)))
    rw [if_pos ht] at hslot
    exact hslot
  · have hslot := hslots t (mem_range.mpr hmax)
    rw [if_neg (by omega), Bool.and_eq_true, Bool.not_eq_true', Bool.not_eq_true'] at hslot
    exact hslot
  · cases mem_singleton.mp hb
    decide
  · cases mem_singleton.mp hb

/-- With 256 threads, `thread_create` gets a stack, finds no slot and returns NULL:
nothing will free the stack. -/
theorem full_pool_leaks :
    ∃ boot s s', bootInOrder = some boot ∧
      Reach stackStep StackEnabled (startedStacks 0x80000000 boot) s ∧ Accounted s ∧
      StackEnabled s (take maxThreadCount) ∧ stackStep s (take maxThreadCount) = some s' ∧
      s' = ⟨s.machine, (0x81000000, none) :: s.live⟩ ∧ ¬ Accounted s' := by
  have hsome : bootInOrder.isSome = true := by decide +kernel
  obtain ⟨boot, hboot⟩ := Option.isSome_iff_exists.mp hsome
  obtain ⟨s, hr, hfull⟩ := (filled_started hboot).fill 249 (by decide)
  obtain ⟨m', r, hcreate, hstep⟩ := hfull.take_spec (Nat.le_refl _)
  have hen := hfull.enabled (Nat.le_refl _)
  have hal := threadPoolAlloc_eq_none_iff.mpr fun t ht => .inl (hfull.below t ht)
  -- every slot is taken
  rcases threadCreate_holding hcreate with ⟨rfl, rfl, -⟩ | ⟨-, i, -, -, ⟨m₀, hsome⟩, -⟩
  · refine ⟨boot, s, _, hboot, hr, ?_, hen, hstep, rfl, ?_⟩
    · exact hfull.balanced.stocked.accounted_iff.mpr hfull.given
    · rw [(hfull.balanced.step hen hstep).1.stocked.accounted_iff]
      intro hnone
      exact hnone _ (mem_cons_self ..)
  · rw [hal] at hsome
    cases hsome

end LibXenon
