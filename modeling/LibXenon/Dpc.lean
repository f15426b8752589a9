/-
LibXenon/Dpc.lean

Deferred procedure calls: `dpc_initialize`, `dpc_queue` and
`thread_process_dpc` of c_threads.c, on the six processors.

`dpc_queue` holds `ThreadListLock` throughout, with the interrupt level
raised, and touches the list of its own processor only; `thread_process_dpc`
of that processor either has not begun, or is itself waiting for the
procedure that makes the call.  What the others do meanwhile to the queued
object is done before they clear `Queued`, which the call reads first.  So a
call that completes is one step here, `dpcQueue`.

`thread_process_dpc` is interruptible and runs next to the five other
processors; it is followed through the points of `DpcPc`: the test of the
loop, the entry taken off the list, its procedure running, the procedure back,
and the entry's fields cleared but for `Queued`.

The search for a place in `dpc_queue` does not move: `list` stays the first
entry, so a call that finds neither end nor lower priority behind the first
entry spins for ever.  `insertBehind` runs the loop for a number of rounds and
has no result when they do not suffice.
-/
import LibXenon.Threads
import LibXenon.Transition

namespace LibXenon

/-- A DPC object, by number. -/
abbrev PDpc := Nat

/-- A `dpc_proc`: the address of a function. -/
abbrev DpcProc := UInt32

/-- The three arguments of a procedure. -/
structure DpcParams where
  param1 : UInt32 := 0
  param2 : UInt32 := 0
  param3 : UInt32 := 0
  deriving DecidableEq, Repr

/-- `struct _DPC`. -/
structure Dpc where
  procedure : DpcProc
  params : DpcParams
  priority : UInt32
  nextDPC : Option PDpc
  queued : Bool
  deriving DecidableEq, Repr

/-- `dpc_initialize`: all zero but for the two arguments. -/
def dpcInitialize (procedure : DpcProc) (priority : UInt32) : Dpc :=
  { procedure, params := {}, priority, nextDPC := none, queued := false }

/-- The DPC objects. -/
abbrev DpcHeap := PDpc → Dpc

/-- Write through the pointer `d`. -/
def DpcHeap.modify (heap : DpcHeap) (d : PDpc) (f : Dpc → Dpc) : DpcHeap :=
  Function.update heap d (f (heap d))

@[simp] theorem DpcHeap.modify_self (heap : DpcHeap) (d : PDpc) (f : Dpc → Dpc) :
    heap.modify d f d = f (heap d) := Function.update_self ..

theorem DpcHeap.modify_of_ne (heap : DpcHeap) {d b : PDpc} (f : Dpc → Dpc) (hb : b ≠ d) :
    heap.modify d f b = heap b := Function.update_of_ne hb ..

/-- `NextDPC = next`. -/
def Dpc.link (next : Option PDpc) (x : Dpc) : Dpc := { x with nextDPC := next }

/-- The first stores of an accepted `dpc_queue`. -/
def Dpc.accept (a : DpcParams) (x : Dpc) : Dpc := { x with params := a, queued := true }

/-- `thread_process_dpc` after the call, up to `Queued = 0`. -/
def Dpc.clear (x : Dpc) : Dpc := { x with params := {}, nextDPC := none }

/-- `Queued = 0`. -/
def Dpc.unqueue (x : Dpc) : Dpc := { x with queued := false }

/-! ### dpc_queue -/

/-- The `for(;;)` of `dpc_queue`, for so many rounds. -/
def insertBehind : Nat → DpcHeap → PDpc → PDpc → Option DpcHeap
  | 0, _, _, _ => none
  | rounds + 1, heap, list, d =>
    match (heap list).nextDPC with
    | none => some (heap.modify list (Dpc.link (some d)))
    | some n =>
      if (heap n).priority < (heap d).priority then
        some ((heap.modify d (Dpc.link (some n))).modify list (Dpc.link (some d)))
      else
        -- `list` is not advanced
        insertBehind rounds heap list d

/-- `dpc_queue` on the list `dpcList`: the objects, the list and the value
returned, or `none` while the search has not ended. -/
def dpcQueue (rounds : Nat) (heap : DpcHeap) (dpcList : Option PDpc) (d : PDpc)
    (a : DpcParams) : Option (DpcHeap × Option PDpc × Bool) :=
  if (heap d).queued then some (heap, dpcList, false)
  else
    let heap := heap.modify d (Dpc.accept a)
    match dpcList with
    | none => some (heap, some d, true)
    | some first =>
      if (heap first).priority < (heap d).priority then
        some (heap.modify d (Dpc.link (some first)), some d, true)
      else (insertBehind rounds heap first d).map fun heap => (heap, some first, true)

theorem insertBehind_stuck {heap : DpcHeap} {list d n : PDpc}
    (hnext : (heap list).nextDPC = some n) (hpri : ¬ (heap n).priority < (heap d).priority)
    (rounds : Nat) : insertBehind rounds heap list d = none := by
  induction rounds with
  | zero => rfl
  | succ rounds ih =>
    rw [insertBehind, hnext]
    dsimp only
    rw [if_neg hpri]
    -- `list` has not moved, so the next round is this one again
    exact ih

/-- A search that ends has put `d` right behind the first entry. -/
theorem insertBehind_eq_some {rounds : Nat} {heap heap' : DpcHeap} {list d : PDpc}
    (h : insertBehind rounds heap list d = some heap') :
    (heap list).nextDPC = none ∧ heap' = heap.modify list (Dpc.link (some d)) ∨
      heap' = (heap.modify d (Dpc.link (heap list).nextDPC)).modify list
        (Dpc.link (some d)) := by
  cases rounds with
  | zero => cases h
  | succ rounds =>
    rcases hnext : (heap list).nextDPC with - | n
    · rw [insertBehind, hnext] at h
      cases h
      exact .inl ⟨rfl, rfl⟩
    · by_cases hpri : (heap n).priority < (heap d).priority
      · rw [insertBehind, hnext] at h
        dsimp only at h
        rw [if_pos hpri] at h
        cases h
        exact .inr rfl
      · rw [insertBehind_stuck hnext hpri] at h
        cases h

/-! ### The processors -/

/-- Where a processor is in `thread_process_dpc`. -/
inductive DpcPc
  /-- not in it -/
  | idle
  /-- at `while(processor->DPCList)` -/
  | test
  /-- `d` has been taken off the list -/
  | taken (d : PDpc)
  /-- in the procedure of `d` -/
  | running (d : PDpc)
  /-- behind the call -/
  | returned (d : PDpc)
  /-- before `dpc->Queued = 0` -/
  | cleared (d : PDpc)
  deriving DecidableEq, Repr

/-- The DPC that is being run. -/
def DpcPc.hand : DpcPc → Option PDpc
  | .idle => none
  | .test => none
  | .taken d => some d
  | .running d => some d
  | .returned d => some d
  | .cleared d => some d

/-- `dpc_queue` is called from a thread, or from the procedure that
`thread_process_dpc` runs. -/
def DpcPc.mayQueue : DpcPc → Bool
  | .idle => true
  | .running _ => true
  | _ => false

/-- The DPC fields of the processor data block, and the point of
`thread_process_dpc`. -/
structure DpcBlock where
  dpcLock : Bool := false
  dpcList : Option PDpc := none
  processingDPC : Bool := false
  pc : DpcPc := .idle
  deriving DecidableEq, Repr

/-- What is recorded of a run: the completed calls of `dpc_queue` with the
value they returned, and the calls of procedures. -/
inductive DpcEvent
  | queued (p : Processor) (d : PDpc) (a : DpcParams) (rval : Bool)
  | called (p : Processor) (d : PDpc) (f : DpcProc) (a : DpcParams)
  deriving DecidableEq, Repr

/-- The objects, the six processors, and what happened so far, oldest
first. -/
structure DpcSys where
  dpc : DpcHeap
  block : Processor → DpcBlock
  history : List DpcEvent

/-- Every object has been through `dpc_initialize`. -/
def DpcSys.start (procedure : PDpc → DpcProc) (priority : PDpc → UInt32) : DpcSys where
  dpc d := dpcInitialize (procedure d) (priority d)
  block _ := {}
  history := []

inductive DpcAct
  /-- a call of `dpc_queue` completes, its search after so many rounds -/
  | queue (p : Processor) (d : PDpc) (a : DpcParams) (rounds : Nat)
  /-- `thread_process_dpc` is entered -/
  | enter (p : Processor)
  /-- the loop test, and the entry taken or the function left -/
  | fetch (p : Processor)
  | call (p : Processor)
  | ret (p : Processor)
  | clear (p : Processor)
  | unqueue (p : Processor)
  deriving DecidableEq, Repr

/-- Move `p` to `b`. -/
def DpcSys.setBlock (s : DpcSys) (p : Processor) (b : DpcBlock) : DpcSys :=
  { s with block := Function.update s.block p b }

/-- A completed `dpc_queue` on `p`; it takes `DPCLock` unless the list is
being processed. -/
def queueStep (s : DpcSys) (p : Processor) (d : PDpc) (a : DpcParams) (rounds : Nat) :
    Option DpcSys :=
  let b := s.block p
  if b.pc.mayQueue && (b.processingDPC || !b.dpcLock) then
    (dpcQueue rounds s.dpc b.dpcList d a).map fun r =>
      { dpc := r.1
        block := Function.update s.block p { b with dpcList := r.2.1 }
        history := s.history ++ [.queued p d a r.2.2] }
  else none

/-- `lock(&processor->DPCLock); processor->ProcessingDPC = 1`. -/
def enterStep (s : DpcSys) (p : Processor) : Option DpcSys :=
  let b := s.block p
  if b.pc = .idle ∧ b.dpcLock = false then
    some (s.setBlock p { b with dpcLock := true, processingDPC := true, pc := .test })
  else none

/-- The loop test: take the first entry off, or leave. -/
def fetchStep (s : DpcSys) (p : Processor) : Option DpcSys :=
  let b := s.block p
  if b.pc = .test then
    match b.dpcList with
    | some d => some (s.setBlock p { b with dpcList := (s.dpc d).nextDPC, pc := .taken d })
    | none => some (s.setBlock p { b with dpcLock := false, processingDPC := false, pc := .idle })
  else none

/-- `dpc->Procedure(dpc->Param1, dpc->Param2, dpc->Param3)` begins. -/
def callStep (s : DpcSys) (p : Processor) : Option DpcSys :=
  let b := s.block p
  match b.pc with
  | .taken d =>
    some { s.setBlock p { b with pc := .running d } with
      history := s.history ++ [.called p d (s.dpc d).procedure (s.dpc d).params] }
  | _ => none

/-- The procedure returns. -/
def retStep (s : DpcSys) (p : Processor) : Option DpcSys :=
  let b := s.block p
  match b.pc with
  | .running d => some (s.setBlock p { b with pc := .returned d })
  | _ => none

/-- The stores that clear the link and the parameters. -/
def clearStep (s : DpcSys) (p : Processor) : Option DpcSys :=
  let b := s.block p
  match b.pc with
  | .returned d =>
    some { s.setBlock p { b with pc := .cleared d } with dpc := s.dpc.modify d Dpc.clear }
  | _ => none

/-- `dpc->Queued = 0`, and back to the test. -/
def unqueueStep (s : DpcSys) (p : Processor) : Option DpcSys :=
  let b := s.block p
  match b.pc with
  | .cleared d =>
    some { s.setBlock p { b with pc := .test } with dpc := s.dpc.modify d Dpc.unqueue }
  | _ => none

def dpcStep (s : DpcSys) : DpcAct → Option DpcSys
  | .queue p d a rounds => queueStep s p d a rounds
  | .enter p => enterStep s p
  | .fetch p => fetchStep s p
  | .call p => callStep s p
  | .ret p => retStep s p
  | .clear p => clearStep s p
  | .unqueue p => unqueueStep s p

/-! ### What is observed -/

/-- The links of all objects. -/
def DpcSys.nextDPC (s : DpcSys) (d : PDpc) : Option PDpc := (s.dpc d).nextDPC

/-- `thread_process_dpc` on `p` has `d` in hand: from taking it off the list,
through its call, to the end of its round. -/
def DpcSys.Runs (s : DpcSys) (p : Processor) (d : PDpc) : Prop :=
  (s.block p).pc.hand = some d

instance (s : DpcSys) (p : Processor) (d : PDpc) : Decidable (s.Runs p d) :=
  inferInstanceAs (Decidable (_ = _))

/-- The list of `p` is empty and no DPC is in hand there. -/
def DpcSys.Drained (s : DpcSys) (p : Processor) : Prop :=
  (s.block p).dpcList = none ∧ (s.block p).pc = .idle

instance (s : DpcSys) (p : Processor) : Decidable (s.Drained p) :=
  inferInstanceAs (Decidable (_ ∧ _))

end LibXenon
