/-
LibXenon/InterruptSystem.lean

What a thread finds in its registers when it is resumed.

While a thread does not run, its registers are in its `Context`; while a
handler that has chosen it runs DPC procedures, they are in the handler's
local copy, and so they are for the thread a handler is not going to switch.
A thread that changes its processor gets the address of the new data block in
`Gpr[13]`, so what it finds is `Carried`: what was saved, or that with a new
`Gpr[13]`.

`resumed_carried` says so for every return to a thread, along every run in
which no quantum ends while a handler that is going to schedule still runs
the DPC procedures it runs first.  `resumed_with_dpc_registers` is a run in
which one does: the nested handler writes the registers of the DPC procedure
to the thread's `Context`, from which the thread is resumed.
-/
import LibXenon.Interrupts

namespace LibXenon

open Transition

/-! ### Registers that a thread carries along -/

/-- The registers with a new `Gpr[13]`. -/
def Context.atBlock (c : Context) (block : UInt64) : Context :=
  { c with gpr := Function.update c.gpr 13 block }

/-- `c'` is `c`, or `c` with `block` in `Gpr[13]`. -/
def Carried (block : UInt64) (c c' : Context) : Prop := c' = c ∨ c' = c.atBlock block

theorem Context.atBlock_atBlock (c : Context) (b b' : UInt64) :
    (c.atBlock b).atBlock b' = c.atBlock b' := by
  simp only [Context.atBlock, Function.update_idem]

theorem Carried.adopt {c c' : Context} {b : UInt64} (h : Carried b c c') (b' : UInt64) :
    Carried b' c (c'.atBlock b') := by
  apply Or.inr
  rcases h with rfl | rfl
  · rfl
  · exact c.atBlock_atBlock b b'

/-- What the `Context` of a thread in list `a` holds: in a ring at most the
block of its processor is new, in a swap list it can be that of any. -/
def Held (m : Machine) (c c' : Context) : Place → Prop
  | .ring q => Carried (m.blockAddress q) c c'
  | .swap _ => ∃ r, Carried (m.blockAddress r) c c'

/-- The registers saved for `t` are in its `Context`. -/
def AtRest (m : Machine) (saved : PThread → Context) (L : Layout) (t : PThread) : Prop :=
  ∀ a, t ∈ L.list a → Held m (saved t) (m.thread t).context a

variable {m m' : Machine} {L L' : Layout} {saved saved' : PThread → Context}
variable {p q : Processor} {t x win : PThread} {a b : Place}

theorem Held.refl (m : Machine) (c : Context) : ∀ a, Held m c c a
  | .ring _ => .inl rfl
  | .swap q => ⟨q, .inl rfl⟩

theorem Held.pending {c c' : Context} (h : Held m c c' a) : Held m c c' (.swap q) := by
  cases a with
  | ring r => exact ⟨r, h⟩
  | swap r => exact h

theorem Held.congr_image {c c' : Context} (himage : m'.image = m.image) (h : Held m c c' a) :
    Held m' c c' a := by
  have hblock : ∀ r, m'.blockAddress r = m.blockAddress r := by
    intro r
    rw [Machine.blockAddress, himage]
    rfl
  cases a with
  | ring r =>
    rw [Held, hblock]
    exact h
  | swap r =>
    obtain ⟨r, hr⟩ := h
    refine ⟨r, ?_⟩
    rw [hblock]
    exact hr

theorem AtRest.of_eq (h : (m.thread t).context = saved t) : AtRest m saved L t := by
  intro a _
  rw [h]
  exact Held.refl m _ a

theorem AtRest.congr (h : AtRest m saved L t) (himage : m'.image = m.image)
    (hcontext : (m'.thread t).context = (m.thread t).context) (hsaved : saved' t = saved t) :
    AtRest m' saved' L t := by
  intro a ha
  rw [hcontext, hsaved]
  exact (h a ha).congr_image himage

theorem AtRest.keeps (h : AtRest m saved L t) (ht : t ∈ L.list a)
    (hvalid : (m.thread t).valid = true) (hkeep : Keeps L L') (hun : Unmoved m m') :
    AtRest m' saved L' t := by
  intro b hb
  rw [hun.context t hvalid]
  apply Held.congr_image hun.image
  rcases hkeep a t ht with ha' | ⟨r, hr⟩
  · rw [L'.unique hb ha']
    exact h a ht
  · rw [L'.unique hb hr]
    exact (h a ht).pending

/-- A pass changes `Gpr[13]` of the threads it takes over. -/
theorem AtRest.pass (h : AtRest m saved L t) (hp : Passed q win m L m' L') :
    AtRest m' saved L' t := by
  intro b hb
  apply Held.congr_image hp.scheduled.edit.image
  have hcontext := hp.scheduled.context t
  by_cases hring : b = .ring q
  · subst hring
    rcases hp.joined t hb with hold | hold
    · -- it was in the ring, hence not in the swap list
      rw [if_neg fun hs => by cases L.unique hold hs] at hcontext
      rw [hcontext]
      exact h _ hold
    · rw [if_pos hold] at hcontext
      rw [hcontext]
      obtain ⟨r, hr⟩ := h _ hold
      exact hr.adopt (m.blockAddress q)
  · have hswap : b ≠ .swap q := by
      rintro rfl
      rw [hp.drained] at hb
      cases hb
    rw [hp.apart b hring hswap] at hb
    rw [if_neg fun hs => hswap (L.unique hb hs)] at hcontext
    rw [hcontext]
    exact h b hb

theorem AtRest.step (h : AtRest m saved L t) (ht : t ∈ L.list a)
    (hvalid : (m.thread t).valid = true) {act : ThreadAct} (hmoves : StepMoves m L m' L' act) :
    AtRest m' saved L' t := by
  rcases hmoves.cases with ⟨q, win, -, hp⟩ | ⟨hkeep, hun⟩
  · exact h.pass hp
  · exact h.keeps ht hvalid hkeep hun

/-! ### Writing to the context of a thread -/

theorem quiet_setContext (c : Context) : Quiet (Thread.setContext c) := {}

theorem Online.setContext (h : Online m L) (t : PThread) (c : Context) :
    Online (m.modifyThread t (Thread.setContext c)) L :=
  h.quiet (quiet_setContext c) t fun _ _ hx => hx

theorem RunsApart.setContext (h : RunsApart m L) (t : PThread) (c : Context) :
    RunsApart (m.modifyThread t (Thread.setContext c)) L :=
  h.keeps (Keeps.refl L) fun _ => rfl

theorem context_setContext (m : Machine) (t x : PThread) (c : Context) :
    ((m.modifyThread t (Thread.setContext c)).thread x).context
      = if x = t then c else (m.thread x).context := by
  rw [thread_modifyThread]
  split <;> rfl

theorem RunsApart.mem (h : RunsApart m L) (ht : (m.processor p).currentThread = some t) :
    ∃ a, t ∈ L.list a := by
  rcases h.place p t ht with hr | ⟨q, hq⟩
  · exact ⟨_, hr⟩
  · exact ⟨_, hq⟩

/-! ### The invariant -/

variable {s s' : Cpu} {c : Context}

/-- The part of the invariant that the handlers keep at every point. -/
structure Steady (p : Processor) (s : Cpu) (L : Layout) : Prop where
  online : Online s.machine L
  apart : RunsApart s.machine L
  rest : ∀ t, s.current p ≠ some t → AtRest s.machine s.saved L t
  log : ∀ r ∈ s.resumed, Carried (s.machine.blockAddress p) r.saved r.restored

/-- Where a handler that is running DPC procedures has the registers of the
current thread `t`. -/
def FrameHolds (p : Processor) (s : Cpu) (L : Layout) (f : Frame) (t : PThread) : Prop :=
  match f.stage with
  | .afterChoice => Carried (s.machine.blockAddress p) (s.saved t) f.context
  | .beforeChoice =>
    if f.irql < 2 then AtRest s.machine s.saved L t else f.context = s.saved t

/-- The invariant between two actions. -/
structure Sound (p : Processor) (s : Cpu) (L : Layout) : Prop extends Steady p s L where
  busy : s.processingDPC = !s.frames.isEmpty
  level : s.frames ≠ [] → 2 ≤ s.irq
  frame : s.frames = [] ∨
    ∃ f, s.frames = [f] ∧ ∀ t, s.current p = some t → FrameHolds p s L f t

/-- Only the machine, the list of returns and the saved registers matter to
`Steady`. -/
theorem Steady.congr (h : Steady p s L) (hm : s'.machine = s.machine)
    (hsaved : s'.saved = s.saved) (hlog : s'.resumed = s.resumed) : Steady p s' L := by
  refine ⟨by rw [hm]; exact h.online, by rw [hm]; exact h.apart, fun t ht => ?_, ?_⟩
  · rw [hm, hsaved]
    apply h.rest t
    rw [Cpu.current, hm] at ht
    exact ht
  · rw [hm, hlog]
    exact h.log

/-- A frame holds the registers of `t` as long as the saved registers stay,
and the context of `t` too if the handler is going to schedule. -/
theorem FrameHolds.imp {f : Frame} (h : FrameHolds p s L f t)
    (hblock : s'.machine.blockAddress p = s.machine.blockAddress p)
    (hsaved : s'.saved t = s.saved t)
    (hrest : f.stage = .beforeChoice → f.irql < 2 →
      AtRest s.machine s.saved L t → AtRest s'.machine s'.saved L' t) :
    FrameHolds p s' L' f t := by
  rw [FrameHolds] at h ⊢
  rw [hblock, hsaved]
  rcases hstage : f.stage with - | -
  · rw [hstage] at h
    by_cases hlow : f.irql < 2
    · simp only [if_pos hlow] at h ⊢
      exact hrest hstage hlow h
    · simp only [if_neg hlow] at h ⊢
      exact h
  · rw [hstage] at h
    exact h

theorem FrameHolds.congr {f : Frame} (h : FrameHolds p s L f t) (hm : s'.machine = s.machine)
    (hsaved : s'.saved = s.saved) : FrameHolds p s' L f t := by
  refine h.imp (by rw [hm]) (by rw [hsaved]) fun _ _ hrest => ?_
  rw [hm, hsaved]
  exact hrest

theorem Steady.exists_current (h : Steady p s L) : ∃ t, s.current p = some t :=
  Option.ne_none_iff_exists'.mp (h.online.current p trivial)

theorem Sound.congr (h : Sound p s L) (hm : s'.machine = s.machine)
    (hsaved : s'.saved = s.saved) (hlog : s'.resumed = s.resumed)
    (hbusy : s'.processingDPC = s.processingDPC) (hframes : s'.frames = s.frames)
    (hlevel : s.frames ≠ [] → 2 ≤ s'.irq) : Sound p s' L := by
  refine ⟨h.toSteady.congr hm hsaved hlog, ?_, ?_, ?_⟩
  · rw [hbusy, hframes]
    exact h.busy
  · rw [hframes]
    exact hlevel
  · rw [hframes]
    rcases h.frame with hf | ⟨f, hf, hold⟩
    · exact .inl hf
    · refine .inr ⟨f, hf, fun t ht => (hold t ?_).congr hm hsaved⟩
      rw [Cpu.current, hm] at ht
      exact ht

/-! ### The parts of a handler -/

theorem machine_leaveHandler (ht : s.current p = some t) (c : Context) :
    (leaveHandler p c s).machine = s.machine.modifyThread t (Thread.setContext c) := by
  show s.machine.storeIf (s.current p) (Thread.setContext c) = _
  rw [ht]
  rfl

theorem resumed_leaveHandler (hframes : s.frames = []) (ht : s.current p = some t) (c : Context) :
    (leaveHandler p c s).resumed = ⟨t, s.saved t, c⟩ :: s.resumed := by
  have hf : (restoreThreadContext p c s).frames = [] := hframes
  have hcur : (restoreThreadContext p c s).current p = some t := by
    show ((s.machine.storeIf (s.current p) _).processor p).currentThread = _
    rw [ht]
    exact ht
  simp only [leaveHandler, commonInterruptReturn, hf, hcur]
  rfl

theorem resumed_leaveHandler_nested {f : Frame} (hframes : s.frames = [f]) (p : Processor)
    (c : Context) : (leaveHandler p c s).resumed = s.resumed := by
  have hf : (restoreThreadContext p c s).frames = [f] := hframes
  simp only [leaveHandler, commonInterruptReturn, hf]
  rfl

theorem Steady.write_current (h : Steady p s L) (ht : s.current p = some t)
    (hm : s'.machine = s.machine.modifyThread t (Thread.setContext c))
    (hsaved : ∀ x, x ≠ t → s'.saved x = s.saved x) (hlog : s'.resumed = s.resumed) :
    Steady p s' L := by
  refine ⟨?_, ?_, fun x hx => ?_, ?_⟩
  · rw [hm]
    exact h.online.setContext t c
  · rw [hm]
    exact h.apart.setContext t c
  · have hcur : s'.current p = s.current p := by
      rw [Cpu.current, hm]
      rfl
    rw [hcur] at hx
    have hxt : x ≠ t := fun hxt => hx (hxt ▸ ht)
    refine (h.rest x hx).congr ?_ ?_ (hsaved x hxt)
    · rw [hm]
      rfl
    · rw [hm, context_setContext, if_neg hxt]
  · rw [hlog, hm]
    exact h.log

theorem Steady.leave (h : Steady p s L) (hframes : s.frames = [])
    (hbusy : s.processingDPC = false) (ht : s.current p = some t)
    (hc : Carried (s.machine.blockAddress p) (s.saved t) c) :
    Sound p (leaveHandler p c s) L := by
  have hm := machine_leaveHandler ht c
  have hlog := resumed_leaveHandler hframes ht c
  have hwrite : Steady p { leaveHandler p c s with resumed := s.resumed } L :=
    h.write_current ht hm (fun _ _ => rfl) rfl
  refine ⟨⟨hwrite.online, hwrite.apart, hwrite.rest, ?_⟩, ?_, ?_, .inl hframes⟩
  · rw [hlog]
    intro r hr
    rcases List.mem_cons.mp hr with rfl | hr
    · rw [hm]
      exact hc
    · exact hwrite.log r hr
  · show s.processingDPC = !s.frames.isEmpty
    rw [hframes, hbusy]
    rfl
  · exact fun hne => absurd hframes hne

theorem Steady.push_frame (h : Steady p s L) (hframes : s.frames = []) {stage : Stage} {n : Nat}
    (hold : ∀ t, s.current p = some t → FrameHolds p s L ⟨c, s.irq, stage⟩ t) :
    Sound p { s with
      processingDPC := true
      irq := 2
      dpcs := n
      frames := ⟨c, s.irq, stage⟩ :: s.frames } L := by
  refine ⟨h.congr rfl rfl rfl, rfl, fun _ => Nat.le_refl 2, .inr ⟨⟨c, s.irq, stage⟩, ?_, ?_⟩⟩
  · rw [hframes]
  · exact fun t ht => (hold t ht).congr rfl rfl

/-- **The scheduling decision.**  When all threads are at rest, so are all
but the one that is chosen afterwards, and the handler has its registers. -/
theorem Steady.schedule (h : Steady p s L) (hframes : s.frames = [])
    (hbusy : s.processingDPC = false) (hall : ∀ t, AtRest s.machine s.saved L t)
    (hstopped : ∀ t ∈ L.list (.swap p), ∀ q, q ≠ p → (s.machine.processor q).currentThread ≠ some t)
    (hs : scheduleAndLeave p s = some s') : ∃ L', Sound p s' L' := by
  obtain ⟨m', win, L', hm', hon, hp⟩ := h.online.pass_spec p
  rw [scheduleAndLeave, hm'] at hs
  have hrest : ∀ t, AtRest m' s.saved L' t := fun t => (hall t).pass hp
  have hsteady : Steady p { s with machine := m' } L' := by
    refine ⟨hon, h.apart.pass hstopped hp, fun t _ => hrest t, ?_⟩
    have hblock : m'.blockAddress p = s.machine.blockAddress p := by
      rw [Machine.blockAddress, hp.scheduled.edit.image]
      rfl
    show ∀ r ∈ s.resumed, Carried (m'.blockAddress p) r.saved r.restored
    rw [hblock]
    exact h.log
  -- the winner is in the ring of this processor
  have hwin : Carried (m'.blockAddress p) (s.saved win) (m'.thread win).context :=
    hrest win (.ring p) hp.ran
  replace hs : (if s.processingDPC = false then threadProcessDpc .afterChoice
      (m'.thread win).context (fun s => some (leaveHandler p (m'.thread win).context s))
        { s with machine := m' }
      else some (leaveHandler p (m'.thread win).context { s with machine := m' })) = some s' := hs
  rw [if_pos hbusy, threadProcessDpc] at hs
  refine ⟨L', ?_⟩
  split at hs
  · cases hs
    exact hsteady.leave hframes hbusy hp.scheduled.current hwin
  · cases hs
    apply hsteady.push_frame hframes
    intro t ht
    cases hp.scheduled.current.symm.trans ht
    exact hwin

theorem Steady.quantumEnd (h : Steady p s L) (hframes : s.frames = [])
    (hbusy : s.processingDPC = false) (ht : s.current p = some t)
    (hrest : s.irq < 2 → AtRest s.machine s.saved L t)
    (hkeep : ¬ s.irq < 2 → c = s.saved t)
    (hstopped : ∀ t ∈ L.list (.swap p), ∀ q, q ≠ p → (s.machine.processor q).currentThread ≠ some t)
    (hs : LibXenon.quantumEnd p c s = some s') : ∃ L', Sound p s' L' := by
  rw [LibXenon.quantumEnd] at hs
  split at hs
  · rename_i hlow
    refine h.schedule hframes hbusy (fun x => ?_) hstopped hs
    by_cases hx : s.current p = some x
    · rw [ht] at hx
      cases hx
      exact hrest hlow
    · exact h.rest x hx
  · rename_i hhigh
    cases hs
    exact ⟨L, h.leave hframes hbusy ht (.inl (hkeep hhigh))⟩

/-! ### The actions -/

theorem Sound.enter (h : Sound p s L) (hframes : s.frames = []) (ht : s.current p = some t) :
    ∃ s₁, dumpThreadContext p (s.enter p) = (s₁, s.registers) ∧ Steady p s₁ L ∧
      AtRest s₁.machine s₁.saved L t ∧ s₁.saved t = s.registers ∧ s₁.current p = some t ∧
      s₁.irq = s.irq ∧ s₁.frames = [] ∧ s₁.processingDPC = false ∧
      s₁.machine.processor = s.machine.processor := by
  have hm : ((s.enter p).machine.storeIf ((s.enter p).current p) (Thread.setContext s.registers))
      = s.machine.modifyThread t (Thread.setContext s.registers) := by
    show s.machine.storeIf (s.current p) _ = _
    rw [ht]
    rfl
  have hsaved : ∀ x, (s.enter p).saved x = if x = t then s.registers else s.saved x := by
    intro x
    show (if s.frames = [] ∧ s.current p = some x then s.registers else s.saved x) = _
    simp only [hframes, ht, true_and, Option.some.injEq, eq_comm]
  refine ⟨_, rfl, ?_, ?_, ?_, ?_, rfl, hframes, ?_, ?_⟩
  · exact h.toSteady.write_current ht hm (fun x hx => (hsaved x).trans (if_neg hx)) rfl
  · apply AtRest.of_eq
    show ((Machine.storeIf _ _ _).thread t).context = (s.enter p).saved t
    rw [hsaved, if_pos rfl]
    refine (congrArg (fun m : Machine => (m.thread t).context) hm).trans ?_
    rw [context_setContext, if_pos rfl]
  · exact (hsaved t).trans (if_pos rfl)
  · have hcur := congrArg (fun m : Machine => (m.processor p).currentThread) hm
    exact hcur.trans ht
  · have hbusy := h.busy
    rw [hframes] at hbusy
    exact hbusy
  · have hproc := congrArg Machine.processor hm
    exact hproc

theorem Online.stopped (h : Online m L) (hstopped : TakesStopped m (.pass p)) :
    ∀ t ∈ L.list (.swap p), ∀ q, q ≠ p → (m.processor q).currentThread ≠ some t := by
  rw [TakesStopped, h.swapList_eq p] at hstopped
  exact hstopped

section

variable (h : Sound p s L)
include h

theorem Sound.decrementer_thread (hframes : s.frames = [])
    (hstopped : TakesStopped s.machine (.pass p))
    (hs : decrementerInterruptHandler p (s.enter p) = some s') : ∃ L', Sound p s' L' := by
  obtain ⟨t, ht⟩ := h.exists_current
  obtain ⟨s₁, hdump, hsteady, hrest, hsaved, hcur, -, hframes₁, hbusy₁, hproc⟩ :=
    h.enter hframes ht
  have hstopped₁ : ∀ t ∈ L.list (.swap p), ∀ q, q ≠ p →
      (s₁.machine.processor q).currentThread ≠ some t := by
    rw [hproc]
    exact h.online.stopped hstopped
  have hend : ∀ {s'}, LibXenon.quantumEnd p s.registers s₁ = some s' → ∃ L', Sound p s' L' :=
    fun hs => hsteady.quantumEnd hframes₁ hbusy₁ hcur (fun _ => hrest) (fun _ => hsaved.symm)
      hstopped₁ hs
  rw [decrementerInterruptHandler, hdump] at hs
  replace hs : (if s₁.irq ≤ 2 ∧ s₁.processingDPC = false then threadProcessDpc .beforeChoice
      s.registers (LibXenon.quantumEnd p s.registers) s₁
      else LibXenon.quantumEnd p s.registers s₁) = some s' := hs
  split at hs
  · rw [threadProcessDpc] at hs
    split at hs
    · exact hend hs
    · cases hs
      refine ⟨L, hsteady.push_frame hframes₁ fun x hx => ?_⟩
      rw [hcur] at hx
      cases hx
      show (if s₁.irq < 2 then _ else _)
      split
      · exact hrest
      · exact hsaved.symm
  · exact hend hs

/-- A decrementer interrupt of a DPC procedure comes back to it, and leaves
the registers of the procedure in the thread's context: the handler below
must not need what was there. -/
theorem Sound.decrementer_dpc {f : Frame} (hframes : s.frames = [f])
    (hold : ∀ t, s.current p = some t → FrameHolds p s L f t)
    (hcalm : f.stage = .beforeChoice → 2 ≤ f.irql)
    (hs : decrementerInterruptHandler p (s.enter p) = some s') : Sound p s' L := by
  obtain ⟨t, ht⟩ := h.exists_current
  have hbusy : s.processingDPC = true := by
    rw [h.busy, hframes]
    rfl
  have hlevel : ¬ s.irq < 2 := Nat.not_lt.mpr (h.level (by rw [hframes]; simp))
  have hsaved : (s.enter p).saved = s.saved := by
    funext x
    show (if s.frames = [] ∧ _ then _ else _) = _
    rw [if_neg fun hand => by rw [hframes] at hand; cases hand.1]
  obtain ⟨s₁, hdump, hm₁, hsaved₁, hlog₁, hframes₁, hbusy₁, hirq₁⟩ : ∃ s₁,
      dumpThreadContext p (s.enter p) = (s₁, s.registers) ∧
      s₁.machine = s.machine.modifyThread t (Thread.setContext s.registers) ∧
      s₁.saved = s.saved ∧ s₁.resumed = s.resumed ∧ s₁.frames = [f] ∧
      s₁.processingDPC = true ∧ s₁.irq = s.irq := by
    refine ⟨_, rfl, ?_, hsaved, rfl, hframes, hbusy, rfl⟩
    show s.machine.storeIf (s.current p) _ = _
    rw [ht]
    rfl
  have hsteady₁ : Steady p s₁ L :=
    h.toSteady.write_current ht hm₁ (fun x _ => congrFun hsaved₁ x) hlog₁
  have hcur₁ : s₁.current p = some t := by
    rw [Cpu.current, hm₁]
    exact ht
  -- no DPC is started and no choice is made
  rw [decrementerInterruptHandler, hdump] at hs
  replace hs : (if s₁.irq ≤ 2 ∧ s₁.processingDPC = false then _
      else LibXenon.quantumEnd p s.registers s₁) = some s' := hs
  rw [hbusy₁, if_neg (by simp), LibXenon.quantumEnd, hirq₁, if_neg hlevel] at hs
  obtain rfl := Option.some.inj hs
  have hm' := machine_leaveHandler hcur₁ s.registers
  have hlog := resumed_leaveHandler_nested hframes₁ p s.registers
  refine ⟨hsteady₁.write_current hcur₁ hm' (fun _ _ => rfl) hlog, ?_, ?_, ?_⟩
  · show s₁.processingDPC = !s₁.frames.isEmpty
    rw [hframes₁, hbusy₁]
    rfl
  · intro _
    show 2 ≤ s₁.irq
    rw [hirq₁]
    exact Nat.not_lt.mp hlevel
  · refine .inr ⟨f, hframes₁, fun x hx => ?_⟩
    have hx' : s.current p = some x := by
      rw [Cpu.current, hm'] at hx
      rw [ht, ← hcur₁]
      exact hx
    refine (hold x hx').imp ?_ (congrFun hsaved₁ x) fun hstage hlow _ => ?_
    · rw [hm', Machine.blockAddress, hm₁]
      rfl
    · exact absurd hlow (Nat.not_lt.mpr (hcalm hstage))

theorem Sound.systemCall (hframes : s.frames = []) (hstopped : TakesStopped s.machine (.pass p))
    (hs : systemCallHandler p (s.enter p) = some s') : ∃ L', Sound p s' L' := by
  obtain ⟨t, ht⟩ := h.exists_current
  obtain ⟨s₁, hdump, hsteady, hrest, -, hcur, -, hframes₁, hbusy₁, hproc⟩ := h.enter hframes ht
  rw [systemCallHandler, hdump] at hs
  have hsteady₀ : Steady p { s₁ with irq := 0 } L := hsteady.congr rfl rfl rfl
  refine hsteady₀.schedule hframes₁ hbusy₁ (fun x => ?_) ?_ hs
  · by_cases hx : s₁.current p = some x
    · rw [hcur] at hx
      cases hx
      exact hrest
    · exact hsteady.rest x hx
  · show ∀ t ∈ L.list (.swap p), ∀ q, q ≠ p → (s₁.machine.processor q).currentThread ≠ some t
    rw [hproc]
    exact h.online.stopped hstopped

theorem Sound.dpcReturn (hstopped : TakesStopped s.machine (.pass p))
    (hs : LibXenon.dpcReturn p s = some s') : ∃ L', Sound p s' L' := by
  obtain ⟨t, ht⟩ := h.exists_current
  rw [LibXenon.dpcReturn] at hs
  rcases h.frame with hnone | ⟨f, hframes, hold⟩
  · rw [hnone] at hs
    cases hs
  · rw [hframes] at hs
    rcases hd : s.dpcs with - | n
    · have hfirst := hold t ht
      have hsteady : Steady p { s with
          irq := f.irql, processingDPC := false, frames := [], dpcs := 0 } L :=
        h.toSteady.congr rfl rfl rfl
      simp only [hd] at hs
      rw [FrameHolds] at hfirst
      rcases hstage : f.stage with - | -
      · rw [hstage] at hs hfirst
        refine hsteady.quantumEnd rfl rfl ht (fun hlow => ?_) (fun hhigh => ?_)
          (h.online.stopped hstopped) hs
        · exact (if_pos hlow).mp hfirst
        · exact (if_neg hhigh).mp hfirst
      · rw [hstage] at hs hfirst
        cases hs
        exact ⟨L, hsteady.leave rfl rfl ht hfirst⟩
    · simp only [hd] at hs
      cases hs
      exact ⟨L, h.congr rfl rfl rfl rfl hframes.symm h.level⟩

theorem Sound.call {act : ThreadAct} (hact : Enabled s.machine act)
    (hstopped : TakesStopped s.machine act) (hown : act ≠ .pass p)
    (hs : cpuStep p s (.call act) = some s') : ∃ L', Sound p s' L' := by
  obtain ⟨m', hm', hs⟩ := Option.bind_eq_some_iff.mp hs
  obtain ⟨L', hon, hmoves⟩ := h.online.step_some hact hm'
  cases hs
  obtain ⟨hcur, himage⟩ : (m'.processor p).currentThread = s.current p ∧
      m'.image = s.machine.image := by
    rcases hmoves.cases with ⟨q, win, rfl, hp⟩ | ⟨-, hun⟩
    · have hq : p ≠ q := fun hpq => hown (hpq ▸ rfl)
      refine ⟨?_, hp.scheduled.edit.image⟩
      rw [hp.scheduled.edit.other p hq]
      rfl
    · exact ⟨hun.current p, hun.image⟩
  have hblock : m'.blockAddress p = s.machine.blockAddress p := by
    rw [Machine.blockAddress, himage]
    rfl
  -- a thread that was there keeps its registers, a new one starts with its own
  have hrest : ∀ x, AtRest s.machine s.saved L x → AtRest m' (fun x =>
      if (s.machine.thread x).valid then s.saved x else (m'.thread x).context) L' x := by
    intro x hx
    rcases hv : (s.machine.thread x).valid with - | -
    · apply AtRest.of_eq
      simp only [hv, Bool.false_eq_true, if_false]
    · obtain ⟨a, ha⟩ := (h.online.valid x).mp hv
      refine (hx.step ha hv hmoves).congr rfl rfl ?_
      simp only [hv, if_true]
  refine ⟨L', ⟨⟨hon, h.apart.step h.online hstopped hmoves, ?_, ?_⟩, h.busy, h.level, ?_⟩⟩
  · intro x hx
    apply hrest x
    apply h.rest x
    rw [← hcur]
    exact hx
  · show ∀ r ∈ s.resumed, Carried (m'.blockAddress p) r.saved r.restored
    rw [hblock]
    exact h.log
  · rcases h.frame with hnone | ⟨f, hframes, hold⟩
    · exact .inl hnone
    · refine .inr ⟨f, hframes, fun x hx => ?_⟩
      have hx' : s.current p = some x := hcur.symm.trans hx
      have hv : (s.machine.thread x).valid = true :=
        (h.online.valid x).mpr (h.apart.mem hx')
      exact (hold x hx').imp hblock (if_pos hv) fun _ _ => hrest x

theorem Sound.elsewhere (hq : q ≠ p)
    (hs : cpuStep p s (.elsewhere q c) = some s') : Sound p s' L := by
  obtain ⟨t, ht, hs⟩ := Option.bind_eq_some_iff.mp hs
  cases hs
  have hapart : ∀ x, s.current p = some x → x ≠ t := by
    rintro x hx rfl
    exact hq (h.apart.apart q p x ht hx)
  have hrest : ∀ x, AtRest s.machine s.saved L x →
      AtRest (s.machine.modifyThread t (Thread.setContext c))
        (fun x => if x = t then c else s.saved x) L x := by
    intro x hx
    by_cases hxt : x = t
    · apply AtRest.of_eq
      rw [context_setContext, if_pos hxt, if_pos hxt]
    · refine hx.congr rfl ?_ (if_neg hxt)
      rw [context_setContext, if_neg hxt]
  refine ⟨⟨h.online.setContext t c, h.apart.setContext t c, ?_, h.log⟩, h.busy, h.level, ?_⟩
  · exact fun x hx => hrest x (h.rest x hx)
  · rcases h.frame with hnone | ⟨f, hframes, hold⟩
    · exact .inl hnone
    · refine .inr ⟨f, hframes, fun x hx => ?_⟩
      exact (hold x hx).imp rfl (if_neg (hapart x hx)) fun _ _ => hrest x

/-- **One action** keeps the registers of every thread where they are looked
for. -/
theorem Sound.step {act : CpuAct} (hord : Ordinary p s act)
    (hcalm : Calm s act) (hs : cpuStep p s act = some s') : ∃ L', Sound p s' L' := by
  cases act with
  | decrementer =>
    rcases h.frame with hnone | ⟨f, hframes, hold⟩
    · exact h.decrementer_thread hnone hord hs
    · refine ⟨L, h.decrementer_dpc hframes hold (hcalm f ?_) hs⟩
      rw [hframes]
      exact List.mem_singleton.mpr rfl
  | systemCall =>
    rw [cpuStep] at hs
    split at hs
    · rename_i hframes
      exact h.systemCall hframes hord hs
    · cases hs
  | dpcReturn => exact h.dpcReturn hord hs
  | compute | queueDpc =>
    cases hs
    exact ⟨L, h.congr rfl rfl rfl rfl rfl h.level⟩
  | irql level =>
    rw [cpuStep] at hs
    split at hs
    · rename_i hlevel
      cases hs
      exact ⟨L, h.congr rfl rfl rfl rfl rfl fun hne => hlevel.resolve_left hne⟩
    · cases hs
  | call a =>
    obtain ⟨hact, hstopped, hown⟩ := hord
    exact h.call hact hstopped hown hs
  | elsewhere q registers => exact ⟨L, h.elsewhere hord hs⟩

end

/-! ### Whole runs -/

/-- **A resumed thread finds its registers.**  In every run after start-up in
which no quantum ends while a handler that is going to schedule runs its
first DPC procedures, what a handler restores for a thread is what was saved
when the thread was last interrupted, but for `Gpr[13]`, which can be the data
block of a processor the thread has moved to. -/
theorem resumed_carried (image : Image) (clock : Nat) (stack : UInt32) (order : List Processor)
    (horder : order.Perm [1, 2, 3, 4, 5]) (boot : Machine)
    (hboot : threadingInit image clock (some stack) order = some boot) (p : Processor)
    (registers : Context) (s : Cpu)
    (hr : Reach (cpuStep p) (fun s a => Ordinary p s a ∧ Calm s a) (Cpu.start boot registers) s) :
    ∀ r ∈ s.resumed, Carried (s.machine.blockAddress p) r.saved r.restored := by
  obtain ⟨L₀, hon, hrun⟩ := online_of_init horder hboot
  have hinit : Sound p (Cpu.start boot registers) L₀ := by
    refine ⟨⟨hon, RunsApart.start hrun, fun t _ => AtRest.of_eq rfl, ?_⟩, rfl, fun hne => absurd rfl hne,
      .inl rfl⟩
    exact fun r hr => absurd hr List.not_mem_nil
  obtain ⟨L, hL⟩ := hr.invariant (I := fun s => ∃ L, Sound p s L) ⟨L₀, hinit⟩ (by
    rintro s a s' ⟨L, hL⟩ ⟨hord, hcalm⟩ hs
    exact hL.step hord hcalm hs)
  exact hL.log

/-- A quantum ends while the DPC procedures after a choice run: thread 0 goes
on at the address where it was interrupted. -/
theorem resumed_after_nested_quantum :
    ∃ boot s, bootInOrder = some boot ∧
      Reach (cpuStep 0) (fun s a => Ordinary 0 s a ∧ Calm s a) (Cpu.start boot {}) s ∧
      s.resumed.map (fun r => (r.thread, r.restored.iar)) = [(0, 1)] ∧
      ∀ r ∈ s.resumed, Carried (s.machine.blockAddress 0) r.saved r.restored := by
  exact exists_reach_start_imp [.compute { iar := 1 }, .queueDpc, .systemCall,
      .compute { iar := 2 }, .decrementer, .dpcReturn]
    (fun s => s.resumed.map (fun r => (r.thread, r.restored.iar)) = [(0, 1)]) (by decide +kernel)
    fun boot s hboot hr hval => ⟨hval, resumed_carried {} 0 0x80000000 [1, 2, 3, 4, 5]
      (List.Perm.refl _) boot hboot 0 {} s hr⟩

/-- A quantum ends while the DPC procedures before the choice run: thread 0,
interrupted at address 1, is resumed at address 2, where the DPC procedure
was. -/
theorem resumed_with_dpc_registers :
    ∃ boot s, bootInOrder = some boot ∧
      Reach (cpuStep 0) (Ordinary 0) (Cpu.start boot {}) s ∧
      s.resumed.map (fun r => (r.thread, r.saved.iar, r.restored.iar)) = [(0, 1, 2)] ∧
      ¬ ∀ r ∈ s.resumed, Carried (s.machine.blockAddress 0) r.saved r.restored := by
  refine exists_reach_start_imp [.compute { iar := 1 }, .queueDpc, .decrementer,
      .compute { iar := 2 }, .decrementer, .dpcReturn]
    (fun s => s.resumed.map (fun r => (r.thread, r.saved.iar, r.restored.iar)) = [(0, 1, 2)] ∧
      ∃ r ∈ s.resumed, r.saved.iar ≠ r.restored.iar)
    (by decide +kernel) fun boot s hboot hr ⟨hval, r, hmem, hne⟩ => ⟨hval, fun hall => hne ?_⟩
  -- a migration does not change the instruction address
  rcases hall r hmem with hsame | hsame <;> rw [hsame]
  rfl

end LibXenon
