/-
LibXenon/SpinLocks.lean

The spin locks of one processor: which of them the code on it holds when an
interrupt comes, and which ones the interrupt path takes.

A thread, or a DPC procedure, makes calls; a call is the list of its statements
that concern locks, the level (`Irq`) or the scheduler's data, and it can be
interrupted between any two of them.  The handlers run with interrupts
disabled, so they are functions from their entry to their return.  They stop
for the DPC procedures, which `thread_process_dpc` runs with interrupts
enabled, and at the call of `thread_schedule`, which is an action of its own.

`lock` spins until the lock is free.  A lock that another processor holds will
be; one that code of the same processor holds will not, since that code does
not run before the spinning code is through.  `Halt` says which of the two a
spin is: on a lock of the code that was interrupted, or on one that the
spinning code has taken itself.

A pass frees the stack of each thread it reaps.  `free` takes and releases the
heap lock of `xenon_syscalls.c`, and the hooks ask for the current thread.
-/
import LibXenon.Interrupts

namespace LibXenon

/-! ### Locks -/

/-- The spin locks of the scheduler and of the heap, and those of others
(mutex objects, drivers). -/
inductive SpinLock
  /-- `ThreadListLock` -/
  | threadList
  /-- `Lock` of a processor -/
  | processor (q : Processor)
  /-- `SwapProcessLock` of a processor -/
  | swapProcess (q : Processor)
  /-- `DPCLock` of a processor -/
  | dpc (q : Processor)
  /-- `safety_spinlock` -/
  | safety
  /-- `malloc_spinlock` -/
  | malloc
  | other (n : Nat)
  deriving DecidableEq

/-- Why code does not come to its end. -/
inductive Halt
  /-- It spins on a lock that the code it interrupted holds. -/
  | interrupted (l : SpinLock)
  /-- It spins on a lock that it has taken itself. -/
  | itself (l : SpinLock)
  /-- It follows a NULL pointer, or a loop does not end. -/
  | fault
  /-- An `assert` fails. -/
  | assertion
  /-- It is not its turn. -/
  | disabled
  deriving DecidableEq

/-- Read through a pointer, or take what a function returns. -/
def deref {α : Type} : Option α → Except Halt α
  | none => .error .fault
  | some a => .ok a

/-- `lock`, by code that holds `own` and interrupted code that holds `below`. -/
def lock (below own : List SpinLock) (l : SpinLock) : Except Halt (List SpinLock) :=
  if l ∈ own then .error (.itself l)
  else if l ∈ below then .error (.interrupted l)
  else .ok (l :: own)

/-- `unlock`. -/
def unlock (own : List SpinLock) (l : SpinLock) : List SpinLock := own.filter (· ≠ l)

/-! ### The heap lock -/

/-- The locks that a handler holds, and the counters of the heap lock. -/
structure Grip where
  own : List SpinLock
  lockcount : Int
  lockowner : Nat

/-- `lock` in a handler. -/
def Grip.lock (below : List SpinLock) (g : Grip) (l : SpinLock) : Except Halt Grip := do
  let own ← LibXenon.lock below g.own l
  .ok { g with own := own }

/-- `unlock` in a handler. -/
def Grip.unlock (g : Grip) (l : SpinLock) : Grip :=
  { g with own := LibXenon.unlock g.own l }

/-- `lockowner` when nobody owns the heap: -1. -/
def noOwner : Nat := 2 ^ 32 - 1

/-- `thread_get_current`; the level is back where it was at the end. -/
def threadGetCurrent (p : Processor) (below : List SpinLock) (m : Machine) (g : Grip) :
    Except Halt (Grip × PThread) := do
  let g ← g.lock below .threadList
  let g ← g.lock below (.processor p)
  let pthr ← deref (m.processor p).currentThread
  .ok ((g.unlock (.processor p)).unlock .threadList, pthr)

/-- `xenon_malloc_lock`, with threading running. -/
def xenonMallocLock (p : Processor) (below : List SpinLock) (m : Machine) (g : Grip) :
    Except Halt Grip := do
  let g ← g.lock below .safety
  let llc := g.lockcount
  let llo := g.lockowner
  let (g, pthr) ← threadGetCurrent p below m g
  let pir := (m.thread pthr).threadId
  if llc < 0 then .error .assertion
  else
    let g := g.unlock .safety
    if llc = 0 ∨ llo ≠ pir then
      let g ← g.lock below .malloc
      let g ← g.lock below .safety
      .ok ({ g with lockcount := g.lockcount + 1, lockowner := pir }.unlock .safety)
    else
      let g ← g.lock below .safety
      .ok ({ g with lockcount := g.lockcount + 1 }.unlock .safety)

/-- `xenon_malloc_unlock`, with threading running. -/
def xenonMallocUnlock (p : Processor) (below : List SpinLock) (m : Machine) (g : Grip) :
    Except Halt Grip := do
  let g ← g.lock below .safety
  let (g, pthr) ← threadGetCurrent p below m g
  let pir := (m.thread pthr).threadId
  let llc := g.lockcount
  let llo := g.lockowner
  let g := { g with lockcount := g.lockcount - 1 }
  if llc ≤ 0 ∨ llo ≠ pir then .error .assertion
  else if llc = 1 then .ok ({ g.unlock .malloc with lockowner := noOwner }.unlock .safety)
  else .ok (g.unlock .safety)

/-- `free`, which brackets its work with the two hooks and does nothing for
NULL. -/
def free (p : Processor) (below : List SpinLock) (m : Machine) (base : Option Nat) (g : Grip) :
    Except Halt Grip :=
  match base with
  | none => .ok g
  | some _ => do
      let g ← xenonMallocLock p below m g
      xenonMallocUnlock p below m g

/-! ### The scheduling pass -/

/-- The first pass frees the stack of a thread that it is going to reap. -/
def freeStack (p : Processor) (below : List SpinLock) (m : Machine) (pthr : PThread) (g : Grip) :
    Except Halt Grip :=
  if (m.thread pthr).reapable then free p below m (m.thread pthr).stackBase g else .ok g

/-- The first pass at one thread, with the call of `free`. -/
def lockedVisit (p : Processor) (below : List SpinLock) (m : Machine) (pthr : PThread)
    (g : Grip) : Except Halt (Machine × Grip) := do
  let g ← freeStack p below m pthr g
  let m ← deref (visit p m pthr)
  .ok (m, g)

/-- The first pass, once round the ring. -/
def lockedFirstPass (p : Processor) (below : List SpinLock) :
    Nat → Machine → PThread → Grip → Except Halt (Machine × Grip)
  | 0, _, _, _ => .error .fault
  | fuel + 1, m, pthr, g => do
      let (m, g) ← lockedVisit p below m pthr g
      if (m.thread pthr).nextThread = (m.processor p).firstThread then .ok (m, g)
      else
        match (m.thread pthr).nextThread with
        | none => .error .fault
        | some pthr => lockedFirstPass p below fuel m pthr g

/-- `thread_schedule` up to its `unlock`, by a handler that interrupted code
with the locks `below`. -/
def lockedSchedule (p : Processor) (below : List SpinLock) (m : Machine) (g : Grip) :
    Except Halt (Machine × Grip) := do
  let g ← g.lock below (.processor p)
  let m ← deref (m.store (m.processor p).currentThread Thread.stop)
  let pthr ← deref (m.processor p).firstThread
  let (m, g) ← lockedFirstPass p below (maxThreadCount + 1) m pthr g
  let g ← g.lock below (.swapProcess p)
  let (m, pthr) ← deref (afterFirstPass (maxThreadCount + 1) m p)
  let g := g.unlock (.swapProcess p)
  let m := m.modifyThread pthr Thread.crown
  let m := m.modifyProcessor p fun b => { b with currentThread := some pthr }
  .ok (m, g.unlock (.processor p))

/-! ### Calls -/

/-- A statement that concerns locks, the level or the scheduler. -/
inductive LockOp
  /-- `irql = thread_raise_irql(2)` -/
  | raiseIrql
  /-- `thread_lower_irql(irql)` -/
  | lowerIrql
  | lock (l : SpinLock)
  | unlock (l : SpinLock)
  /-- `if (processor->ProcessingDPC == 0) lock(..)` -/
  | lockUnlessProcessing (l : SpinLock)
  /-- `if (processor->ProcessingDPC == 0) unlock(..)` -/
  | unlockUnlessProcessing (l : SpinLock)
  /-- What a thread function does under its locks. -/
  | act (a : ThreadAct)
  /-- A DPC enters `DPCList`. -/
  | queueDpc
  /-- `sc` -/
  | systemCall

/-- The calls of thread code.  A call that takes the lock of a thread's
processor names that processor: `ThreadListLock` keeps a thread from being
moved while the call runs. -/
inductive Call
  | create (entrypoint : UInt64) (stackSize : UInt32) (argument : UInt64) (flags : UInt32)
      (stack : Option UInt32)
  /-- `thread_create` that gets no stack or no thread object. -/
  | createFails
  /-- `own` says that a thread moves itself. -/
  | setProcessor (t : PThread) (oldProcess newProcess : Processor) (own : Bool)
  | close (t : PThread) (q : Processor)
  | suspend (t : PThread) (q : Processor)
  | resume (t : PThread) (q : Processor)
  | setPriority (t : PThread) (priority : Nat) (q : Processor)
  | setPriorityBoost (t : PThread) (boost : Nat) (q : Processor)
  | getCurrent
  | sleep (milliseconds : Nat)
  /-- `mutex_sleep`, which also releases the mutex's lock. -/
  | mutexSleep (n milliseconds : Nat)
  | terminate
  /-- The system call of `thread_idle_loop`. -/
  | yield
  | dpcQueue
  /-- `xenon_malloc_lock`; `nested` if the thread owns the heap already. -/
  | mallocLock (nested : Bool)
  /-- `xenon_malloc_unlock`; `last` if it gives the heap up. -/
  | mallocUnlock (last : Bool)
  | lockOther (n : Nat)
  | unlockOther (n : Nat)

/-- `thread_spinlock(&ThreadListLock); lock(&pthr->ThisProcessor->Lock); ..;
unlock(&pthr->ThisProcessor->Lock); thread_unlock(&ThreadListLock, irql)`. -/
def underLocks (q : Processor) (ops : List LockOp) : List LockOp :=
  [.raiseIrql, .lock .threadList, .lock (.processor q)] ++ ops ++
    [.unlock (.processor q), .unlock .threadList, .lowerIrql]

/-- The part of `thread_sleep`, `mutex_sleep` and `thread_terminate` that is
the same: the level goes up and the system call takes it to 0. -/
def underOwnLock (p : Processor) (ops : List LockOp) : List LockOp :=
  [.raiseIrql, .lock (.processor p)] ++ ops ++ [.unlock (.processor p), .systemCall]

/-- The statements of a call on processor `p`. -/
def Call.ops (p : Processor) : Call → List LockOp
  | .create entrypoint stackSize argument flags stack =>
    [.raiseIrql, .lock (.processor p), .unlock (.processor p), .lock .threadList,
      .lock (.processor p), .act (.create p entrypoint stackSize argument flags stack),
      .unlock .threadList, .unlock (.processor p), .lowerIrql]
  | .createFails => [.raiseIrql, .lock (.processor p), .unlock (.processor p), .lowerIrql]
  | .setProcessor t oldProcess newProcess own =>
    underLocks oldProcess (if oldProcess = newProcess then []
      else [.lock (.processor newProcess), .lock (.swapProcess newProcess),
        .act (.setProcessor t newProcess), .unlock (.swapProcess newProcess),
        .unlock (.processor newProcess)]) ++
      underLocks p [] ++ if own then [.systemCall] else []
  | .close t q => underLocks q [.act (.close t)]
  | .suspend t q => underLocks q [.act (.suspend t)]
  | .resume t q => underLocks q [.act (.resume t)]
  | .setPriority t priority q =>
    if priority > 15 then [] else underLocks q [.act (.setPriority t priority)]
  | .setPriorityBoost t boost q => underLocks q [.act (.setPriorityBoost t boost)]
  | .getCurrent => underLocks p []
  | .sleep milliseconds => underOwnLock p [.act (.sleep p milliseconds)]
  | .mutexSleep n milliseconds =>
    underOwnLock p [.act (.sleep p milliseconds), .unlock (.other n)]
  | .terminate => underOwnLock p [.act (.terminate p)]
  | .yield => [.systemCall]
  | .dpcQueue =>
    [.raiseIrql, .lock .threadList, .lockUnlessProcessing (.dpc p), .queueDpc,
      .unlockUnlessProcessing (.dpc p), .unlock .threadList, .lowerIrql]
  | .mallocLock nested =>
    [.lock .safety] ++ underLocks p [] ++ [.unlock .safety] ++
      (if nested then [] else [.lock .malloc]) ++ [.lock .safety, .unlock .safety]
  | .mallocUnlock last =>
    [.lock .safety] ++ underLocks p [] ++ (if last then [.unlock .malloc] else []) ++
      [.unlock .safety]
  | .lockOther n => [.lock (.other n)]
  | .unlockOther n => [.unlock (.other n)]

/-- A call that gives the processor up. -/
def Call.blocks : Call → Bool
  | .setProcessor _ _ _ own => own
  | .sleep _ => true
  | .mutexSleep .. => true
  | .terminate => true
  | .yield => true
  | _ => false

/-! ### One processor -/

/-- Code in the middle of a call: what is left of it, the locks it holds, and
its local variable `irql`. -/
structure Code where
  todo : List LockOp := []
  held : List SpinLock := []
  irql : Nat := 0

/-- A handler that is running a DPC procedure; it holds `DPCLock`. -/
structure DpcFrame where
  procedure : Code := {}
  irql : Nat
  stage : Stage

/-- What the processor is doing. -/
inductive Mode
  /-- It runs the thread, or the DPC procedure, with interrupts enabled. -/
  | running
  /-- A handler is at its call of `thread_schedule`. -/
  | scheduling
  /-- A handler has chosen a thread and is about to return to it. -/
  | leaving
  deriving DecidableEq

/-- One processor, with the threads of all.  `dpcList` is the length of its
`DPCList`. -/
structure Core where
  machine : Machine
  irq : Nat := 0
  processingDPC : Bool := false
  dpcList : Nat := 0
  thread : Code := {}
  dpc : Option DpcFrame := none
  mode : Mode := .running
  lockcount : Int := 0
  lockowner : Nat := noOwner

/-- The code that the processor runs, or that a handler interrupts. -/
def Core.running (s : Core) : Code :=
  match s.dpc with
  | none => s.thread
  | some f => f.procedure

def Core.setRunning (s : Core) (c : Code) : Core :=
  match s.dpc with
  | none => { s with thread := c }
  | some f => { s with dpc := some { f with procedure := c } }

/-- The locks of the code that the running code interrupted. -/
def Core.below (s : Core) : List SpinLock :=
  match s.dpc with
  | none => []
  | some _ => s.thread.held

/-- The locks of the running code; a DPC procedure runs under `DPCLock`. -/
def Core.own (p : Processor) (s : Core) : List SpinLock :=
  match s.dpc with
  | none => s.thread.held
  | some f => .dpc p :: f.procedure.held

/-- The locks of all code on the processor. -/
def Core.held (p : Processor) (s : Core) : List SpinLock := s.own p ++ s.below

/-- `lock` by the running code. -/
def lockStep (p : Processor) (s : Core) (c : Code) (l : SpinLock) : Except Halt Core := do
  let _ ← lock s.below (s.own p) l
  .ok (s.setRunning { c with held := l :: c.held })

/-- The next statement of the running code. -/
def opStep (p : Processor) (s : Core) : Except Halt Core :=
  match s.running.todo with
  | [] => .error .disabled
  | op :: todo =>
    let c := { s.running with todo := todo }
    match op with
    | .raiseIrql => .ok ({ s with irq := 2 }.setRunning { c with irql := s.irq })
    | .lowerIrql => .ok ({ s with irq := c.irql }.setRunning c)
    | .lock l => lockStep p s c l
    | .unlock l => .ok (s.setRunning { c with held := unlock c.held l })
    | .lockUnlessProcessing l =>
      if s.processingDPC = false then lockStep p s c l else .ok (s.setRunning c)
    | .unlockUnlessProcessing l =>
      if s.processingDPC = false then .ok (s.setRunning { c with held := unlock c.held l })
      else .ok (s.setRunning c)
    | .act a => do
        let machine ← deref (threadStep s.machine a)
        .ok ({ s with machine := machine }.setRunning c)
    | .queueDpc => .ok ({ s with dpcList := s.dpcList + 1 }.setRunning c)
    -- the handler of the system call takes the level to 0
    | .systemCall => .ok ({ s with irq := 0, mode := .scheduling }.setRunning c)

/-- `thread_process_dpc` in a handler that interrupted code with the locks
`below` and goes on with `rest`. -/
def processDpc (p : Processor) (below : List SpinLock) (stage : Stage) (rest : Core → Core)
    (s : Core) : Except Halt Core := do
  let _ ← lock below [] (.dpc p)
  match s.dpcList with
  | 0 => .ok (rest s)
  | n + 1 =>
    .ok { s with
      processingDPC := true
      irq := 2
      dpcList := n
      dpc := some { irql := s.irq, stage := stage } }

/-- The decrementer handler after its DPCs: it schedules below level 2. -/
def Core.quantumEnd (s : Core) : Core :=
  if s.irq < 2 then { s with mode := .scheduling } else s

/-- `decrementer_interrupt_handler`, up to the call of `thread_schedule`. -/
def decrementerStep (p : Processor) (s : Core) : Except Halt Core :=
  if s.irq ≤ 2 ∧ s.processingDPC = false then
    processDpc p (s.held p) .beforeChoice Core.quantumEnd s
  else .ok s.quantumEnd

/-- A DPC procedure returns: `thread_process_dpc` takes the next one, or
lowers the level and the handler goes on. -/
def dpcReturnStep (s : Core) : Except Halt Core :=
  match s.dpc with
  | none => .error .disabled
  | some f =>
    match s.dpcList with
    | n + 1 => .ok { s with dpcList := n, dpc := some { f with procedure := {} } }
    | 0 =>
      let s := { s with irq := f.irql, processingDPC := false, dpc := none }
      match f.stage with
      | .beforeChoice => .ok s.quantumEnd
      | .afterChoice => .ok { s with mode := .leaving }

/-- `thread_schedule`. -/
def passStep (p : Processor) (s : Core) : Except Halt Core := do
  let below := s.held p
  let (machine, g) ← lockedSchedule p below s.machine ⟨[], s.lockcount, s.lockowner⟩
  let s := { s with
    machine := machine
    mode := .running
    lockcount := g.lockcount
    lockowner := g.lockowner }
  if s.processingDPC = false then
    processDpc p below .afterChoice (fun s => { s with mode := .leaving }) s
  else .ok { s with mode := .leaving }

/-! ### Actions -/

/-- What happens on processor `p`, and around it. -/
inductive CoreAct
  /-- The running code makes a call. -/
  | call (c : Call)
  /-- The running code gets to its next statement. -/
  | op
  /-- The thread raises or lowers the level between its calls. -/
  | irql (level : Nat)
  /-- The quantum timer interrupts the running code. -/
  | decrementer
  /-- The DPC procedure returns. -/
  | dpcReturn
  /-- A handler calls `thread_schedule`. -/
  | pass
  /-- A handler returns to the chosen thread, which goes on where it is. -/
  | resume (c : Code)
  /-- A thread function, or a pass, on another processor. -/
  | elsewhere (a : ThreadAct)
  /-- The heap lock is taken or released elsewhere. -/
  | heapElsewhere (lockcount : Int) (lockowner : Nat)

/-- One action, or why it does not come to its end.  DPC procedures do not
block, and leave the level to their calls. -/
def coreTry (p : Processor) (s : Core) : CoreAct → Except Halt Core
  | .call c =>
    if s.mode = .running ∧ s.running.todo.isEmpty ∧ (s.dpc.isSome → c.blocks = false) then
      .ok (s.setRunning { s.running with todo := c.ops p })
    else .error .disabled
  | .op => if s.mode = .running then opStep p s else .error .disabled
  | .irql level =>
    if s.mode = .running ∧ s.thread.todo.isEmpty ∧ s.dpc.isNone then
      .ok { s with irq := level }
    else .error .disabled
  | .decrementer => if s.mode = .running then decrementerStep p s else .error .disabled
  | .dpcReturn =>
    if s.mode = .running ∧ s.running.todo.isEmpty then dpcReturnStep s else .error .disabled
  | .pass => if s.mode = .scheduling then passStep p s else .error .disabled
  | .resume c =>
    if s.mode = .leaving then .ok { s with mode := .running, thread := c }
    else .error .disabled
  | .elsewhere a => do
      let machine ← deref (threadStep s.machine a)
      .ok { s with machine := machine }
  | .heapElsewhere lockcount lockowner =>
    .ok { s with lockcount := lockcount, lockowner := lockowner }

/-- The actions that come to their end. -/
def coreStep (p : Processor) (s : Core) (a : CoreAct) : Option Core := (coreTry p s a).toOption

/-- Processor `p` after start-up. -/
def Core.start (boot : Machine) : Core where
  machine := boot

/-! ### Which code may be resumed -/

/-- The locks that are taken at level 2 only. -/
def SpinLock.guarded : SpinLock → Bool
  | .threadList => true
  | .processor _ => true
  | .swapProcess _ => true
  | .dpc _ => true
  | .safety => false
  | .malloc => false
  | .other _ => false

/-- Code that holds guarded locks only between raising and lowering the level.
`held` are the guarded locks it holds, `raised` says that it has raised the
level, and `processing` that it is part of a DPC procedure, which makes no
system call. -/
def disciplined (processing : Bool) : List SpinLock → Bool → List LockOp → Bool
  | held, raised, [] => !raised && held.isEmpty
  | held, raised, .raiseIrql :: ops => !raised && disciplined processing held true ops
  | held, raised, .lowerIrql :: ops =>
    raised && held.isEmpty && disciplined processing [] false ops
  | held, raised, .lock l :: ops =>
    if l.guarded then raised && disciplined processing (l :: held) raised ops
    else disciplined processing held raised ops
  | held, raised, .lockUnlessProcessing l :: ops =>
    if l.guarded && !processing then raised && disciplined processing (l :: held) raised ops
    else disciplined processing held raised ops
  | held, raised, .unlock l :: ops => disciplined processing (unlock held l) raised ops
  | held, raised, .unlockUnlessProcessing l :: ops =>
    disciplined processing (if processing then held else unlock held l) raised ops
  | held, raised, .act _ :: ops => disciplined processing held raised ops
  | held, raised, .queueDpc :: ops => disciplined processing held raised ops
  | held, _, .systemCall :: ops =>
    !processing && held.isEmpty && disciplined processing [] false ops

/-- Code at a point where a thread can have lost the processor: it has not
raised the level, and holds no guarded lock. -/
def Code.parked (c : Code) : Bool :=
  disciplined false [] false c.todo && c.held.all fun l => !l.guarded

/-- The thread action of the next statement. -/
def Core.nextAct (s : Core) : Option ThreadAct :=
  match s.running.todo with
  | .act a :: _ => some a
  | _ => none

/-- What a run respects: the callers of the thread functions do as they must,
the passes of `p` are its own, and a thread goes on where it may have
stopped. -/
def Respects (p : Processor) (s : Core) : CoreAct → Prop
  | .op => ∀ a ∈ s.nextAct, Enabled s.machine a
  | .elsewhere a => Enabled s.machine a ∧ a ≠ .pass p
  | .resume c => c.parked = true
  | _ => True

instance (p : Processor) (s : Core) (a : CoreAct) : Decidable (Respects p s a) := by
  cases a <;> dsimp only [Respects] <;> infer_instance

end LibXenon
