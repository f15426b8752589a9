/-
LibXenon/Ipi.lean

Interprocessor interrupts: `thread_send_ipi`, `ipi_send_packet` and
`thread_interrupt_ipi` of c_threads.c.

Any number of calls of `thread_send_ipi` are under way at once, each on its
processor and each at its own point (`SendPc`); on every processor the
handler of vector 0x78 is at its point (`HandlerPc`).  A write to the
interrupt-request register adds one pending interrupt on every processor of
its mask; a pending interrupt is delivered at some later time, when that
processor's handler is not running.

The interrupt level of the caller (`thread_raise_irql`) only restricts which
of these steps may follow each other, and is left out: a caller goes on here
whatever the handler of its own processor does.  The three stores into a
mailbox are one step; they are made with its `IpiLock` held, and the handler
looks at the mailbox with that lock held.
-/
import LibXenon.Threads
import LibXenon.Transition

namespace LibXenon

/-- A `thread_ipi_proc`: the address of a function. -/
abbrev IpiProc := UInt32

/-- A call of `thread_send_ipi`, by number; also the address of its
`ipi_count`. -/
abbrev IpiCall := Nat

/-- The processor a call is made on and its arguments. -/
structure IpiRequest where
  processor : Processor
  entrypoint : IpiProc
  context : UInt32

/-- Where a call of `thread_send_ipi` is. -/
inductive SendPc
  /-- not made yet -/
  | idle
  /-- at `lock(&ipi_lock)` -/
  | locking
  /-- `ipi_send_packet`, at the head of the loop with this `i` -/
  | fill (i : Nat)
  /-- with the `IpiLock` of processor `i`, before the stores -/
  | store (i : Nat)
  /-- … and after them -/
  | stored (i : Nat)
  /-- before the write to the interrupt-request register -/
  | request
  /-- before its own call of the entry point -/
  | own
  /-- at `while(ipi_count != 5)` -/
  | wait (rval : UInt32)
  /-- before `unlock(&ipi_lock)` -/
  | release (rval : UInt32)
  /-- before the return -/
  | leave (rval : UInt32)
  | returned
  deriving DecidableEq, Repr

/-- Where `thread_interrupt_ipi` is on a processor. -/
inductive HandlerPc
  /-- not running -/
  | idle
  /-- at `lock(&processor->IpiLock)` -/
  | lock
  /-- before `if(processor->IpiProc)` -/
  | test
  /-- in the entry point -/
  | running
  /-- before `processor->IpiProc = NULL` -/
  | clear
  /-- before the counter is incremented -/
  | bump
  /-- before the unlock -/
  | unlock
  deriving DecidableEq, Repr

/-- The IPI fields of the processor data block, the interrupts that wait for
delivery, and the handler. -/
structure IpiBlock where
  ipiLock : Bool := false
  ipiProc : Option IpiProc := none
  ipiContext : UInt32 := 0
  ipiIncrement : Option IpiCall := none
  pending : Nat := 0
  handler : HandlerPc := .idle
  deriving DecidableEq, Repr

/-- What is recorded of a run.  A run of an entry point by a handler is
recorded with the counter its mailbox names. -/
inductive IpiEvent
  | begun (c : IpiCall)
  | ran (q : Processor) (counter : Option IpiCall) (f : IpiProc) (context : UInt32)
  | ranOwn (c : IpiCall) (f : IpiProc) (context : UInt32)
  | incremented (q : Processor) (c : IpiCall)
  | returned (c : IpiCall) (rval : UInt32)
  deriving DecidableEq, Repr

/-- `ipi_lock` with its holder, the blocks, the calls with their counters,
and what happened so far, oldest first. -/
structure IpiSys where
  ipiLock : Option IpiCall
  block : Processor → IpiBlock
  sender : IpiCall → SendPc
  count : IpiCall → Nat
  history : List IpiEvent

def IpiSys.start : IpiSys where
  ipiLock := none
  block _ := {}
  sender _ := .idle
  count _ := 0
  history := []

def IpiSys.setBlock (s : IpiSys) (q : Processor) (b : IpiBlock) : IpiSys :=
  { s with block := Function.update s.block q b }

def IpiSys.setSender (s : IpiSys) (c : IpiCall) (pc : SendPc) : IpiSys :=
  { s with sender := Function.update s.sender c pc }

def IpiSys.record (s : IpiSys) (e : IpiEvent) : IpiSys :=
  { s with history := s.history ++ [e] }

variable (call : IpiCall → IpiRequest)

/-! ### The caller -/

/-- `ipi_send_packet`, at the head of its loop: the processors of the mask
`0x3F & ~(1 << CurrentProcessor)` are all but the caller's own. -/
def fillStep (s : IpiSys) (c : IpiCall) (i : Nat) : Option IpiSys :=
  if h : i < 6 then
    if (⟨i, h⟩ : Processor) = (call c).processor then some (s.setSender c (.fill (i + 1)))
    else if (s.block ⟨i, h⟩).ipiLock then none
    else
      some ((s.setBlock ⟨i, h⟩ { s.block ⟨i, h⟩ with ipiLock := true }).setSender c (.store i))
  else some (s.setSender c .request)

/-- The three stores into the mailbox of processor `i`. -/
def storeStep (s : IpiSys) (c : IpiCall) (i : Nat) : Option IpiSys :=
  if h : i < 6 then
    some ((s.setBlock ⟨i, h⟩ { s.block ⟨i, h⟩ with
      ipiProc := some (call c).entrypoint
      ipiContext := (call c).context
      ipiIncrement := some c }).setSender c (.stored i))
  else none

/-- Unlock the mailbox and go round the loop. -/
def storedStep (s : IpiSys) (c : IpiCall) (i : Nat) : Option IpiSys :=
  if h : i < 6 then
    some ((s.setBlock ⟨i, h⟩ { s.block ⟨i, h⟩ with ipiLock := false }).setSender c
      (.fill (i + 1)))
  else none

/-- The write to the interrupt-request register. -/
def requestStep (s : IpiSys) (c : IpiCall) : IpiSys :=
  { s with
    block := fun q =>
      if q = (call c).processor then s.block q
      else { s.block q with pending := (s.block q).pending + 1 }
    sender := Function.update s.sender c .own }

/-- The next step of call `c`; its own run of the entry point gives
`rval`. -/
def sendStep (s : IpiSys) (c : IpiCall) (rval : UInt32) : Option IpiSys :=
  match s.sender c with
  | .idle => some ((s.setSender c .locking).record (.begun c))
  | .locking =>
    if s.ipiLock = none then some { s.setSender c (.fill 0) with ipiLock := some c } else none
  | .fill i => fillStep call s c i
  | .store i => storeStep call s c i
  | .stored i => storedStep s c i
  | .request => some (requestStep call s c)
  | .own =>
    some ((s.setSender c (.wait rval)).record
      (.ranOwn c (call c).entrypoint (call c).context))
  -- the other five processors have counted
  | .wait r => if s.count c = 5 then some (s.setSender c (.release r)) else none
  | .release r => some { s.setSender c (.leave r) with ipiLock := none }
  | .leave r => some ((s.setSender c .returned).record (.returned c r))
  | .returned => none

/-! ### The handler -/

/-- Vector 0x78 is delivered. -/
def deliverStep (s : IpiSys) (q : Processor) : Option IpiSys :=
  let b := s.block q
  if b.handler = .idle ∧ 0 < b.pending then
    some (s.setBlock q { b with pending := b.pending - 1, handler := .lock })
  else none

/-- `if(processor->IpiProc)`: run the function, or go to the counter. -/
def testStep (s : IpiSys) (q : Processor) : IpiSys :=
  let b := s.block q
  match b.ipiProc with
  | some f =>
    (s.setBlock q { b with handler := .running }).record
      (.ran q b.ipiIncrement f b.ipiContext)
  | none => s.setBlock q { b with handler := .bump }

/-- `if(processor->IpiIncrement) atomic_inc(processor->IpiIncrement)`. -/
def bumpStep (s : IpiSys) (q : Processor) : IpiSys :=
  let b := s.block q
  match b.ipiIncrement with
  -- the pointer to the counter stays in the mailbox
  | some c =>
    { (s.setBlock q { b with handler := .unlock }).record (.incremented q c) with
      count := Function.update s.count c (s.count c + 1) }
  | none => s.setBlock q { b with handler := .unlock }

/-- The next step of the handler on processor `q`. -/
def handlerStep (s : IpiSys) (q : Processor) : Option IpiSys :=
  let b := s.block q
  match b.handler with
  | .idle => none
  | .lock =>
    if b.ipiLock then none
    else some (s.setBlock q { b with ipiLock := true, handler := .test })
  | .test => some (testStep s q)
  | .running => some (s.setBlock q { b with handler := .clear })
  | .clear => some (s.setBlock q { b with ipiProc := none, handler := .bump })
  | .bump => some (bumpStep s q)
  | .unlock => some (s.setBlock q { b with ipiLock := false, handler := .idle })

/-! ### The system -/

inductive IpiAct
  | send (c : IpiCall) (rval : UInt32)
  | deliver (q : Processor)
  | handle (q : Processor)
  deriving DecidableEq, Repr

def ipiStep (s : IpiSys) : IpiAct → Option IpiSys
  | .send c rval => sendStep call s c rval
  | .deliver q => deliverStep s q
  | .handle q => handlerStep s q

/-- A handler's run of an entry point on `q` for the counter of `c`. -/
def IpiEvent.ranFor (q : Processor) (c : IpiCall) : IpiEvent → Bool
  | .ran q' counter _ _ => q' = q && counter = some c
  | _ => false

/-- An increment of the counter of `c`. -/
def IpiEvent.increments (c : IpiCall) : IpiEvent → Bool
  | .incremented _ c' => c' = c
  | _ => false

end LibXenon
