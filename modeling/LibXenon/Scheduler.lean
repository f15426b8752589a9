/-
LibXenon/Scheduler.lean

The scheduler and the thread functions of `c_threads.c`.

The machine is the thread pool, the six processor data blocks, the global
thread list and the millisecond clock.  Each function runs as one step: the
code holds the processor's lock, or `ThreadListLock`, around what it changes.
A function returns `none` where the code dereferences NULL, or where a loop
does not come to its end within `fuel` rounds.

The run list of a processor (`NextThread`, `PreviousThread`) and the list of
all threads (`NextThreadFull`, `PreviousThreadFull`) are edited by the same
statements on different fields; `Chain` says which of the two is meant.

The ready list of `thread_schedule_core` is built anew in every call and
nothing else reads its links, so it is a Lean list here, in the order in
which the code walks it: each ready thread goes to the front.
-/
import LibXenon.Threads

namespace LibXenon

/-! ### The machine -/

/-- `PROCESSOR_DATA_BLOCK`, the fields of the scheduler. -/
structure ProcessorDataBlock where
  firstThread : Option PThread := none
  lastThread : Option PThread := none
  firstSwapProcess : Option PThread := none
  lastSwapProcess : Option PThread := none
  currentThread : Option PThread := none

/-- `THREAD_LIST`. -/
structure ThreadList where
  firstThread : Option PThread := none
  lastThread : Option PThread := none

/-- Addresses the linker fixes: `processor_blocks`, `thread_proc_startup`
and `thread_idle_loop`. -/
structure Image where
  processorBlocks : UInt64 := 0
  threadProcStartup : UInt64 := 0
  threadIdleLoop : UInt64 := 0

/-- The state the thread functions work on. -/
structure Machine where
  thread : Heap := fun _ => {}
  processor : Processor → ProcessorDataBlock := fun _ => {}
  threadList : ThreadList := {}
  clock : Nat := 0
  image : Image := {}

/-- The address of a processor's data block. -/
def Machine.blockAddress (m : Machine) (p : Processor) : UInt64 :=
  m.image.processorBlocks + 0x1000 * UInt64.ofNat p

/-- Write through a pointer that is not NULL. -/
def Machine.modifyThread (m : Machine) (t : PThread) (f : Thread → Thread) : Machine :=
  { m with thread := m.thread.modify t f }

/-- Write through a pointer; a fault when it is NULL. -/
def Machine.store (m : Machine) (ptr : Option PThread) (f : Thread → Thread) : Option Machine :=
  ptr.map fun t => m.modifyThread t f

/-- Write through a pointer unless it is NULL. -/
def Machine.storeIf (m : Machine) (ptr : Option PThread) (f : Thread → Thread) : Machine :=
  match ptr with
  | none => m
  | some t => m.modifyThread t f

/-- Write to a processor's data block. -/
def Machine.modifyProcessor (m : Machine) (p : Processor)
    (f : ProcessorDataBlock → ProcessorDataBlock) : Machine :=
  { m with processor := fun q => if q = p then f (m.processor q) else m.processor q }

/-! ### The two chains through the pool -/

/-- Which pair of links: a processor's list, or the list of all threads. -/
inductive Chain
  | run
  | full
  deriving DecidableEq

/-- `NextThread` or `NextThreadFull`. -/
def Thread.next : Chain → Thread → Option PThread
  | .run, x => x.nextThread
  | .full, x => x.nextThreadFull

/-- `PreviousThread` or `PreviousThreadFull`. -/
def Thread.prev : Chain → Thread → Option PThread
  | .run, x => x.previousThread
  | .full, x => x.previousThreadFull

def Thread.setNext : Chain → Option PThread → Thread → Thread
  | .run, v, x => { x with nextThread := v }
  | .full, v, x => { x with nextThreadFull := v }

def Thread.setPrev : Chain → Option PThread → Thread → Thread
  | .run, v, x => { x with previousThread := v }
  | .full, v, x => { x with previousThreadFull := v }

/-- `pthr->Next->Previous = pthr->Previous; pthr->Previous->Next = pthr->Next`. -/
def unlink (c : Chain) (m : Machine) (pthr : PThread) : Option Machine := do
  let m ← m.store ((m.thread pthr).next c) (Thread.setPrev c ((m.thread pthr).prev c))
  m.store ((m.thread pthr).prev c) (Thread.setNext c ((m.thread pthr).next c))

/-- `pthr->Next = first; pthr->Previous = last; first->Previous = pthr;
last->Next = pthr`. -/
def linkBefore (c : Chain) (m : Machine) (first last : Option PThread) (pthr : PThread) :
    Option Machine := do
  let m := m.modifyThread pthr (Thread.setNext c first)
  let m := m.modifyThread pthr (Thread.setPrev c last)
  let m ← m.store first (Thread.setPrev c (some pthr))
  m.store last (Thread.setNext c (some pthr))

/-- Insert `pthr` into the processor's ring, in front of `FirstThread`. -/
def insertFirst (m : Machine) (p : Processor) (pthr : PThread) : Option Machine := do
  let m ← linkBefore .run m (m.processor p).firstThread (m.processor p).lastThread pthr
  some (m.modifyProcessor p fun b => { b with firstThread := some pthr })

/-- Insert `pthr` into the list of all threads, in front of its first. -/
def insertFirstFull (m : Machine) (pthr : PThread) : Option Machine := do
  let m ← linkBefore .full m m.threadList.firstThread m.threadList.lastThread pthr
  some { m with threadList := { m.threadList with firstThread := some pthr } }

/-- Move `FirstThread` and `LastThread` off a thread that leaves. -/
def leaveEnds (m : Machine) (p : Processor) (pthr : PThread) : Machine :=
  m.modifyProcessor p fun b =>
    { b with
      firstThread := if b.firstThread = some pthr then (m.thread pthr).nextThread
        else b.firstThread
      lastThread := if b.lastThread = some pthr then (m.thread pthr).previousThread
        else b.lastThread }

/-! ### `thread_schedule_core` -/

/-- Terminated, and no handle open. -/
def Thread.reapable (x : Thread) : Bool := x.threadTerminated && !x.handleOpen

/-- Mark a thread object as unused. -/
def Thread.invalidate (x : Thread) : Thread := { x with valid := false }

/-- Take a thread off both lists and mark it as unused. -/
def reap (m : Machine) (p : Processor) (pthr : PThread) : Option Machine := do
  let m ← unlink .run m pthr
  let m ← unlink .full m pthr
  some ((leaveEnds m p pthr).modifyThread pthr Thread.invalidate)

/-- The first pass at one thread: expire its sleep time, and reap it. -/
def visit (p : Processor) (m : Machine) (pthr : PThread) : Option Machine :=
  let m := m.modifyThread pthr (processTimer m.clock)
  if (m.thread pthr).reapable then reap m p pthr else some m

/-- The first pass, once round the ring. -/
def firstPass (p : Processor) : Nat → Machine → PThread → Option Machine
  | 0, _, _ => none
  | fuel + 1, m, pthr => do
      let m ← visit p m pthr
      if (m.thread pthr).nextThread = (m.processor p).firstThread then some m
      else
        match (m.thread pthr).nextThread with
        | none => none
        | some pthr => firstPass p fuel m pthr

/-- A thread taken over by processor `p`. -/
def adopt (p : Processor) (block : UInt64) (x : Thread) : Thread :=
  { x with
    thisProcessor := some p
    context := { x.context with gpr := Function.update x.context.gpr 13 block } }

/-- Take one thread over from the swap list, to the front of the ring. -/
def takeOver (p : Processor) (m : Machine) (thr : PThread) : Option Machine :=
  let m := m.modifyThread thr (adopt p (m.blockAddress p))
  let m := m.storeIf (m.thread thr).nextThread
    (Thread.setPrev .run (m.thread thr).previousThread)
  let m := m.storeIf (m.thread thr).previousThread
    (Thread.setNext .run (m.thread thr).nextThread)
  -- `LastSwapProcess` is not written, here or anywhere else
  let m := m.modifyProcessor p fun b =>
    { b with firstSwapProcess := (m.thread thr).nextThread }
  insertFirst m p thr

/-- Take over the whole swap list. -/
def swapIn (p : Processor) : Nat → Machine → Option Machine
  | 0, _ => none
  | fuel + 1, m =>
    match (m.processor p).firstSwapProcess with
    | none => some m
    | some thr => do
        let m ← takeOver p m thr
        swapIn p fuel m

/-- May be given the processor. -/
def Thread.ready (x : Thread) : Bool :=
  !x.threadTerminated && x.suspendCount == 0 && x.sleepTime == 0 && x.valid

/-- Collect the ready threads, once round the ring, each one in front. -/
def populate (p : Processor) (m : Machine) : Nat → List PThread → PThread →
    Option (List PThread)
  | 0, _, _ => none
  | fuel + 1, readyList, pthr =>
    let readyList := if (m.thread pthr).ready then pthr :: readyList else readyList
    if (m.thread pthr).nextThread = (m.processor p).firstThread then some readyList
    else
      match (m.thread pthr).nextThread with
      | none => none
      | some pthr => populate p m fuel readyList pthr

/-- `Priority + PriorityBoost`. -/
def Thread.level (x : Thread) : Nat := x.priority + x.priorityBoost

/-- The first thread with the highest level. -/
def pickWinner (h : Heap) (winThread : PThread) : List PThread → PThread
  | [] => winThread
  | pthr :: rest =>
    -- of threads with equal levels the first stays
    pickWinner h (if (h winThread).level < (h pthr).level then pthr else winThread) rest

/-- A loser's boost goes up to its maximum. -/
def Thread.boost (x : Thread) : Thread :=
  if x.priorityBoost < x.maxPriorityBoost then { x with priorityBoost := x.priorityBoost + 1 }
  else x

/-- Boost every thread of the ready list but the winner. -/
def boostLosers (winThread : PThread) (h : Heap) : List PThread → Heap
  | [] => h
  | pthr :: rest =>
    boostLosers winThread (if pthr ≠ winThread then h.modify pthr Thread.boost else h) rest

/-- `thread_schedule_core` after its first pass. -/
def afterFirstPass (fuel : Nat) (m : Machine) (p : Processor) : Option (Machine × PThread) := do
  let m ← swapIn p fuel m
  let pthr ← (m.processor p).firstThread
  let readyList ← populate p m fuel [] pthr
  match readyList with
  -- nothing is ready: the code goes through `FirstThread`, which is NULL
  | [] => none
  | pthr :: rest =>
    let winThread := pickWinner m.thread pthr rest
    some ({ m with thread := boostLosers winThread m.thread (pthr :: rest) }, winThread)

/-- `thread_schedule_core`. -/
def threadScheduleCore (fuel : Nat) (m : Machine) (p : Processor) :
    Option (Machine × PThread) := do
  let pthr ← (m.processor p).firstThread
  let m ← firstPass p fuel m pthr
  afterFirstPass fuel m p

/-- The thread leaves the processor. -/
def Thread.stop (x : Thread) : Thread := { x with threadIsRunning := false }

/-- The thread is given the processor. -/
def Thread.crown (x : Thread) : Thread := { x with priorityBoost := 0, threadIsRunning := true }

/-- `thread_schedule` up to the unlock: choose, and fetch the new context. -/
def threadSchedule (fuel : Nat) (m : Machine) (p : Processor) :
    Option (Machine × Context) := do
  let m ← m.store (m.processor p).currentThread Thread.stop
  let (m, pthr) ← threadScheduleCore fuel m p
  let m := m.modifyThread pthr Thread.crown
  let m := m.modifyProcessor p fun b => { b with currentThread := some pthr }
  some (m, (m.thread pthr).context)

/-! ### Creating, moving and ending threads -/

/-- A pool slot as `thread_pool_alloc` hands it out. -/
def Thread.fresh (i : PThread) : Thread := { handleOpen := true, valid := true, threadId := i }

/-- `thread_pool_alloc`: the first slot that is neither valid nor open. -/
def threadPoolAlloc (m : Machine) : Option (Machine × PThread) :=
  match (List.range maxThreadCount).find? fun i =>
      !(m.thread i).valid && !(m.thread i).handleOpen with
  | none => none
  | some i =>
    some (m.modifyThread i fun _ => Thread.fresh i, i)

/-- The stack size rounded up as `thread_create` does. -/
def roundStackSize (stackSize : UInt32) : UInt32 :=
  let stackSize := if stackSize < 16 * 1024 then 16 * 1024 else stackSize
  -- the mask is for 1 KB, the step for 4 KB
  if stackSize &&& 0x3FF ≠ 0 then (stackSize &&& 0xFFFFFC00) + 0x1000 else stackSize

/-- The registers a new thread starts with. -/
def startContext (m : Machine) (p : Processor) (entrypoint argument : UInt64)
    (stack size : UInt32) (c : Context) : Context :=
  { c with
    gpr := fun i =>
      if i = 1 then (stack + size - 8).toUInt64
      else if i = 13 then m.blockAddress p
      else if i = 3 then entrypoint
      else if i = 4 then argument
      else c.gpr i
    iar := m.image.threadProcStartup
    msr := 0x100000000200B030 }

/-- `THREAD_FLAG_CREATE_SUSPENDED`. -/
def threadFlagCreateSuspended : UInt32 := 1

/-- The fields `thread_create` sets up. -/
def Thread.setup (p : Processor) (stack size : UInt32) (x : Thread) : Thread :=
  { x with
    stackBase := some stack.toNat
    stackSize := size.toNat
    priority := 7
    maxPriorityBoost := 5
    valid := true
    thisProcessor := some p }

/-- The last part of `thread_create`: suspend count and registers. -/
def Thread.prime (flags : UInt32) (start : Context → Context) (x : Thread) : Thread :=
  { x with
    suspendCount := if flags &&& threadFlagCreateSuspended ≠ 0 then 1 else x.suspendCount
    context := start x.context }

/-- `thread_create` called on processor `p`; `stack` is what `memalign`
returns.  The result is NULL when there is no stack or no pool slot. -/
def threadCreate (m : Machine) (p : Processor) (entrypoint : UInt64) (stackSize : UInt32)
    (argument : UInt64) (flags : UInt32) (stack : Option UInt32) :
    Option (Machine × Option PThread) :=
  match stack with
  | none => some (m, none)
  | some stack =>
    match threadPoolAlloc m with
    -- the stack is not freed when the pool is full
    | none => some (m, none)
    | some (m, pthr) => do
        let m := m.modifyThread pthr (Thread.setup p stack (roundStackSize stackSize))
        let m ← insertFirst m p pthr
        let m ← insertFirstFull m pthr
        let m := m.modifyThread pthr (Thread.prime flags
          (startContext m p entrypoint argument stack (roundStackSize stackSize)))
        some (m, some pthr)

/-- The thread belongs to processor `p` now. -/
def Thread.assign (p : Processor) (x : Thread) : Thread := { x with thisProcessor := some p }

/-- Put `pthr` at the front of a processor's swap list. -/
def queueSwap (m : Machine) (newProcess : Processor) (pthr : PThread) : Machine :=
  let m := m.modifyThread pthr (Thread.setNext .run (m.processor newProcess).firstSwapProcess)
  let m := m.modifyThread pthr (Thread.setPrev .run (m.processor newProcess).lastSwapProcess)
  let m := m.storeIf (m.processor newProcess).firstSwapProcess (Thread.setPrev .run (some pthr))
  let m := m.storeIf (m.processor newProcess).lastSwapProcess (Thread.setNext .run (some pthr))
  m.modifyProcessor newProcess fun b => { b with firstSwapProcess := some pthr }

/-- `thread_set_processor`, up to the system call a thread makes when it
has moved itself. -/
def threadSetProcessor (m : Machine) (pthr : PThread) (newProcess : Processor) :
    Option Machine := do
  let oldProcess ← (m.thread pthr).thisProcessor
  if oldProcess = newProcess then some m
  else
    -- both neighbours are written unconditionally, also in a swap list
    let m ← unlink .run m pthr
    let m := leaveEnds m oldProcess pthr
    let m := queueSwap m newProcess pthr
    some (m.modifyThread pthr (Thread.assign newProcess))

/-- A locked write to a thread object: the code takes the lock of the
thread's processor, through `ThisProcessor`. -/
def lockedModify (m : Machine) (pthr : PThread) (f : Thread → Thread) : Option Machine := do
  let _ ← (m.thread pthr).thisProcessor
  some (m.modifyThread pthr f)

def Thread.close (x : Thread) : Thread := { x with handleOpen := false }

def Thread.suspend (x : Thread) : Thread :=
  if x.suspendCount < 80 then { x with suspendCount := x.suspendCount + 1 } else x

def Thread.resume (x : Thread) : Thread := { x with suspendCount := x.suspendCount - 1 }

def Thread.setPriorityBoost (boost : Nat) (x : Thread) : Thread :=
  { x with maxPriorityBoost := boost }

def Thread.setPriority (priority : Nat) (x : Thread) : Thread := { x with priority := priority }

def Thread.terminate (x : Thread) : Thread := { x with threadTerminated := true }

def Thread.sleep (until_ : Nat) (x : Thread) : Thread := { x with sleepTime := until_ }

/-- `thread_close`. -/
def threadClose (m : Machine) (pthr : PThread) : Option Machine :=
  lockedModify m pthr Thread.close

/-- `thread_suspend`. -/
def threadSuspend (m : Machine) (pthr : PThread) : Option Machine :=
  lockedModify m pthr Thread.suspend

/-- `thread_resume`; a suspend count of 0 stays. -/
def threadResume (m : Machine) (pthr : PThread) : Option Machine :=
  lockedModify m pthr Thread.resume

/-- `thread_set_priority_boost`; the field is a byte. -/
def threadSetPriorityBoost (m : Machine) (pthr : PThread) (boost : Nat) : Option Machine :=
  lockedModify m pthr (Thread.setPriorityBoost (boost % 256))

/-- `thread_set_priority`. -/
def threadSetPriority (m : Machine) (pthr : PThread) (priority : Nat) : Option Machine :=
  if priority > 15 then some m
  else lockedModify m pthr (Thread.setPriority priority)

/-- `thread_terminate`, up to its system call. -/
def threadTerminate (m : Machine) (p : Processor) : Option Machine :=
  m.store (m.processor p).currentThread Thread.terminate

/-- `thread_sleep`, up to its system call. -/
def threadSleep (m : Machine) (p : Processor) (milliseconds : Nat) : Option Machine :=
  m.store (m.processor p).currentThread
    (Thread.sleep ((m.clock + milliseconds) % clockWidth))

/-! ### Start-up -/

/-- The thread a processor is running, alone in its ring. -/
def Thread.own (p : Processor) (pthr : PThread) (x : Thread) : Thread :=
  { x with thisProcessor := some p, nextThread := some pthr, previousThread := some pthr }

/-- The priority of the main thread. -/
def Thread.main (x : Thread) : Thread := { x with priority := 7, maxPriorityBoost := 5 }

/-- Append to the list of all threads; the ends of the list stay. -/
def linkFull (m : Machine) (pthr : PThread) : Option Machine := do
  let m ← m.store m.threadList.lastThread (Thread.setNext .full (some pthr))
  let m ← m.store m.threadList.firstThread (Thread.setPrev .full (some pthr))
  let m := m.modifyThread pthr (Thread.setNext .full m.threadList.firstThread)
  some (m.modifyThread pthr (Thread.setPrev .full m.threadList.lastThread))

/-- The locked part of `thread_create_idle_thread`: the thread the processor
is running becomes the only one of its ring. -/
def createOwnThread (m : Machine) (p : Processor) : Option (Machine × PThread) := do
  let (m, pthr) ← threadPoolAlloc m
  let m := m.modifyThread pthr (Thread.own p pthr)
  let m := m.modifyProcessor p fun b =>
    { b with currentThread := some pthr, firstThread := some pthr, lastThread := some pthr }
  -- processor 0 starts the list of all threads
  let m := if p = 0 then
      { m.modifyThread pthr Thread.main with threadList := ⟨some pthr, some pthr⟩ }
    else m
  let m ← linkFull m pthr
  some (m, pthr)

/-- `thread_create_idle_thread`; on processor 0 the thread made first is
the main thread, and a second one is made to idle. -/
def threadCreateIdleThread (m : Machine) (p : Processor) (stack : Option UInt32) :
    Option (Machine × PThread) := do
  let (m, pthr) ← createOwnThread m p
  if p = 0 then
    let (m, idle) ← threadCreate m p m.image.threadIdleLoop 0 0 0 stack
    let idle ← idle
    let m ← threadSetPriority m idle 0
    let m ← threadSetPriorityBoost m idle 0
    let m ← threadClose m idle
    some (m, pthr)
  else some (m, pthr)

/-- `thread_startup`, the part that concerns threads. -/
def threadStartup (m : Machine) (p : Processor) (stack : Option UInt32) : Option Machine := do
  let (m, pthr) ← threadCreateIdleThread m p stack
  threadClose m pthr

/-- `threading_init`: processor 0 starts up first, the others in the order
in which they get there. -/
def threadingInit (image : Image) (clock : Nat) (stack : Option UInt32)
    (order : List Processor) : Option Machine := do
  let m ← threadStartup { image := image, clock := clock } 0 stack
  order.foldlM (fun m p => threadStartup m p none) m

end LibXenon
