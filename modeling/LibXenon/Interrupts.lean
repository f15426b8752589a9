/-
LibXenon/Interrupts.lean

The interrupt handlers of one processor: `decrementer_interrupt_handler` and
`system_call_handler` of `c_threads.c`, with the entry and the return of
`except.S` and `threads.S`.

A handler runs with interrupts disabled, so it is one step from its entry to
its return, unless it gets to run DPC procedures: `thread_process_dpc` enables
interrupts around each of them.  What is left of the handler is then a
`Frame`, and the procedure is code that can be interrupted like any other.
`dpcReturn` is the return of the procedure that is running.

Two fields of `Cpu` are not in the code: `saved`, the registers each thread
had when it was last interrupted (or with which it was created), and
`resumed`, which lists the returns to a thread.
-/
import LibXenon.ThreadSystem

namespace LibXenon

/-! ### The state of a processor -/

/-- The register save area of `PROCESSOR_DATA_BLOCK`. -/
structure SaveArea where
  registerSave : Fin 32 → UInt64 := fun _ => 0
  lrSave : UInt64 := 0
  ctrSave : UInt64 := 0
  crSave : UInt64 := 0
  xerSave : UInt64 := 0
  iarSave : UInt64 := 0
  msrSave : UInt64 := 0

/-- A handler runs DPC procedures at two points: the decrementer handler
before it schedules, `thread_schedule` after it has chosen. -/
inductive Stage
  | beforeChoice
  | afterChoice
  deriving DecidableEq

/-- A handler that is running DPC procedures: its local `CONTEXT`, and the
level that `thread_process_dpc` goes back to. -/
structure Frame where
  context : Context
  irql : Nat
  stage : Stage

/-- A return from a handler to a thread. -/
structure Resumption where
  thread : PThread
  saved : Context
  restored : Context

/-- One processor, with the threads of all.  `dpcs` is the length of its
`DPCList`. -/
structure Cpu where
  machine : Machine
  registers : Context
  save : SaveArea := {}
  irq : Nat := 0
  processingDPC : Bool := false
  dpcs : Nat := 0
  frames : List Frame := []
  saved : PThread → Context
  resumed : List Resumption := []

/-- The thread the processor runs. -/
def Cpu.current (p : Processor) (s : Cpu) : Option PThread :=
  (s.machine.processor p).currentThread

/-! ### Entry and return -/

/-- What the exception vector and `common_interrupt_handler` save. -/
def SaveArea.ofContext (c : Context) : SaveArea where
  registerSave := c.gpr
  lrSave := c.lr
  ctrSave := c.ctr
  crSave := c.cr
  xerSave := c.xer
  iarSave := c.iar
  msrSave := c.msr

/-- The registers of a save area; the floating point registers are those the
processor has. -/
def SaveArea.toContext (a : SaveArea) (live : Context) : Context where
  gpr := a.registerSave
  lr := a.lrSave
  ctr := a.ctrSave
  cr := a.crSave
  xer := a.xerSave
  iar := a.iarSave
  msr := a.msrSave
  fpr := live.fpr
  fpscr := live.fpscr

/-- The entry to a handler.  When it interrupts a thread, `saved` takes the
thread's registers down. -/
def Cpu.enter (p : Processor) (s : Cpu) : Cpu :=
  { s with
    save := SaveArea.ofContext s.registers
    saved := fun t => if s.frames = [] ∧ s.current p = some t then s.registers else s.saved t }

/-- `memcpy(&pthr->Context, context, sizeof(CONTEXT))`. -/
def Thread.setContext (c : Context) (x : Thread) : Thread := { x with context := c }

/-- `dump_thread_context`. -/
def dumpThreadContext (p : Processor) (s : Cpu) : Cpu × Context :=
  let context := s.save.toContext s.registers
  ({ s with machine := s.machine.storeIf (s.current p) (Thread.setContext context) }, context)

/-- `restore_thread_context`. -/
def restoreThreadContext (p : Processor) (context : Context) (s : Cpu) : Cpu :=
  { s with
    machine := s.machine.storeIf (s.current p) (Thread.setContext context)
    save := SaveArea.ofContext context
    registers := { s.registers with fpr := context.fpr, fpscr := context.fpscr } }

/-- `common_interrupt_return`; a return to a thread goes to the list. -/
def commonInterruptReturn (p : Processor) (s : Cpu) : Cpu :=
  let registers := s.save.toContext s.registers
  { s with
    registers := registers
    resumed := match s.frames, s.current p with
      | [], some t => ⟨t, s.saved t, registers⟩ :: s.resumed
      | _, _ => s.resumed }

/-- The end of both handlers. -/
def leaveHandler (p : Processor) (context : Context) (s : Cpu) : Cpu :=
  commonInterruptReturn p (restoreThreadContext p context s)

/-! ### The handlers -/

/-- `thread_process_dpc`, called by a handler that goes on with `rest`: with
an empty list nothing happens, else the first procedure starts, at level 2
and with interrupts enabled. -/
def threadProcessDpc (stage : Stage) (context : Context) (rest : Cpu → Option Cpu) (s : Cpu) :
    Option Cpu :=
  match s.dpcs with
  | 0 => rest s
  | n + 1 =>
    some { s with
      processingDPC := true
      irq := 2
      dpcs := n
      frames := ⟨context, s.irq, stage⟩ :: s.frames }

/-- `thread_schedule` and what the handlers do after it. -/
def scheduleAndLeave (p : Processor) (s : Cpu) : Option Cpu := do
  let (machine, context) ← threadSchedule (maxThreadCount + 1) s.machine p
  let s := { s with machine := machine }
  -- DPC procedures run between the choice and the return
  if s.processingDPC = false then
    threadProcessDpc .afterChoice context (fun s => some (leaveHandler p context s)) s
  else some (leaveHandler p context s)

/-- The decrementer handler after its DPCs: it schedules below level 2. -/
def quantumEnd (p : Processor) (context : Context) (s : Cpu) : Option Cpu :=
  if s.irq < 2 then scheduleAndLeave p s else some (leaveHandler p context s)

/-- `decrementer_interrupt_handler`. -/
def decrementerInterruptHandler (p : Processor) (s : Cpu) : Option Cpu :=
  let (s, context) := dumpThreadContext p s
  -- at level 2 as well, where `dpc_queue` may hold `DPCLock`
  if s.irq ≤ 2 ∧ s.processingDPC = false then
    threadProcessDpc .beforeChoice context (quantumEnd p context) s
  else quantumEnd p context s

/-- `system_call_handler`. -/
def systemCallHandler (p : Processor) (s : Cpu) : Option Cpu :=
  let (s, _) := dumpThreadContext p s
  scheduleAndLeave p { s with irq := 0 }

/-- A DPC procedure returns: `thread_process_dpc` takes the next one, or
lowers the level and the handler goes on. -/
def dpcReturn (p : Processor) (s : Cpu) : Option Cpu :=
  match s.frames with
  | [] => none
  | f :: frames =>
    match s.dpcs with
    | n + 1 => some { s with dpcs := n }
    | 0 =>
      let s := { s with irq := f.irql, processingDPC := false, frames := frames }
      match f.stage with
      | .beforeChoice => quantumEnd p f.context s
      | .afterChoice => some (leaveHandler p f.context s)

/-! ### Actions -/

/-- What happens on processor `p`, and around it. -/
inductive CpuAct
  /-- The quantum timer interrupts what the processor is running. -/
  | decrementer
  /-- The thread executes `sc`. -/
  | systemCall
  /-- The DPC procedure returns. -/
  | dpcReturn
  /-- The thread, or the DPC procedure, computes. -/
  | compute (registers : Context)
  /-- It raises or lowers the level. -/
  | irql (level : Nat)
  /-- A DPC is queued. -/
  | queueDpc
  /-- A thread function is called, here or on another processor, or another
  processor makes a scheduling pass. -/
  | call (a : ThreadAct)
  /-- Another processor saves the registers of the thread it runs. -/
  | elsewhere (q : Processor) (registers : Context)

/-- One action on processor `p`.  DPC procedures do not block: they make no
system call and stay at level 2 or above. -/
def cpuStep (p : Processor) (s : Cpu) : CpuAct → Option Cpu
  | .decrementer => decrementerInterruptHandler p (s.enter p)
  | .systemCall => if s.frames = [] then systemCallHandler p (s.enter p) else none
  | .dpcReturn => dpcReturn p s
  | .compute registers => some { s with registers := registers }
  | .irql level => if s.frames = [] ∨ 2 ≤ level then some { s with irq := level } else none
  | .queueDpc => some { s with dpcs := s.dpcs + 1 }
  | .call a => do
      let machine ← threadStep s.machine a
      some { s with
        machine := machine
        saved := fun t =>
          if (s.machine.thread t).valid then s.saved t else (machine.thread t).context }
  | .elsewhere q registers => do
      let t ← s.current q
      some { s with
        machine := s.machine.modifyThread t (Thread.setContext registers)
        saved := fun x => if x = t then registers else s.saved x }

/-- Processor `p` after start-up. -/
def Cpu.start (boot : Machine) (registers : Context) : Cpu where
  machine := boot
  registers := registers
  saved t := (boot.thread t).context

/-- What a run respects apart from the order of the interrupts: the callers
of the thread functions do as they must, the passes of `p` are those of its
handlers, and no pass takes over a thread that another processor runs. -/
def Ordinary (p : Processor) (s : Cpu) : CpuAct → Prop
  | .call a => Enabled s.machine a ∧ TakesStopped s.machine a ∧ a ≠ .pass p
  | .elsewhere q _ => q ≠ p
  | .decrementer => TakesStopped s.machine (.pass p)
  | .systemCall => TakesStopped s.machine (.pass p)
  | .dpcReturn => TakesStopped s.machine (.pass p)
  | _ => True

/-- No quantum ends while a handler that is going to schedule runs its first
DPC procedures. -/
def Calm (s : Cpu) : CpuAct → Prop
  | .decrementer => ∀ f ∈ s.frames, f.stage = .beforeChoice → 2 ≤ f.irql
  | _ => True

instance (p : Processor) (s : Cpu) (a : CpuAct) : Decidable (Ordinary p s a) := by
  cases a <;> dsimp only [Ordinary] <;> infer_instance

instance (s : Cpu) (a : CpuAct) : Decidable (Calm s a) := by
  cases a <;> dsimp only [Calm] <;> infer_instance

end LibXenon
