/-
LibXenon/Threads.lean

The thread objects of `threads.h` and the heap they live in.

A `PTHREAD` is the index of an object in the thread pool; a nullable pointer
is an `Option PThread`, `none` being NULL.  The page at address 0 is unmapped
(`vm.c`: "addresses at 0 should pagefault"), so code that dereferences `none`
does not go on: fallible operations return `none`.

The one-byte flags of `THREAD` that only ever hold 0 and 1 are `Bool`s.  The
counters are `Nat`s reduced modulo their width where the code can overflow
them.
-/
import Mathlib.Algebra.GroupWithZero.Nat
import Mathlib.Data.Fin.Basic

namespace LibXenon

/-- A pointer into the thread pool. -/
abbrev PThread := Nat

/-- The hardware threads of the CPU, each with its own data block. -/
abbrev Processor := Fin 6

-- so that literals mean the same in every module
instance neZero_processors : NeZero 6 := ⟨nofun⟩

instance neZero_gprs : NeZero 32 := ⟨nofun⟩

/-- `MAX_THREAD_COUNT`. -/
def maxThreadCount : Nat := 256

/-- `CONTEXT`: the registers an interrupt saves, with the floating point
save area of `PROCESSOR_FPU_VPU_SAVE` (doubles as bit images). -/
structure Context where
  msr : UInt64 := 0
  iar : UInt64 := 0
  lr : UInt64 := 0
  ctr : UInt64 := 0
  gpr : Fin 32 → UInt64 := fun _ => 0
  cr : UInt64 := 0
  xer : UInt64 := 0
  fpr : Fin 32 → UInt64 := fun _ => 0
  fpscr : UInt64 := 0

/-- `THREAD`. -/
structure Thread where
  context : Context := {}
  thisProcessor : Option Processor := none
  nextThread : Option PThread := none
  previousThread : Option PThread := none
  nextThreadFull : Option PThread := none
  previousThreadFull : Option PThread := none
  nextThreadMutex : Option PThread := none
  previousThreadMutex : Option PThread := none
  valid : Bool := false
  priority : Nat := 0
  priorityBoost : Nat := 0
  maxPriorityBoost : Nat := 0
  threadIsRunning : Bool := false
  suspendCount : Nat := 0
  handleOpen : Bool := false
  threadId : Nat := 0
  threadTerminated : Bool := false
  waitingForMutex : Bool := false
  sleepTime : Nat := 0
  stackBase : Option Nat := none
  stackSize : Nat := 0

/-- The thread objects by pool index. -/
abbrev Heap := PThread → Thread

/-- Write through the pointer `t`. -/
def Heap.modify (h : Heap) (t : PThread) (f : Thread → Thread) : Heap :=
  fun x => if x = t then f (h x) else h x

@[simp] theorem Heap.modify_self (h : Heap) (t : PThread) (f : Thread → Thread) :
    h.modify t f t = f (h t) := if_pos rfl

theorem Heap.modify_of_ne (h : Heap) {t x : PThread} (f : Thread → Thread) (hx : x ≠ t) :
    h.modify t f x = h x := if_neg hx

theorem Heap.modify_apply (h : Heap) (t x : PThread) (f : Thread → Thread) :
    h.modify t f x = if x = t then f (h x) else h x := rfl

/-- A write leaves every field alone that `f` leaves alone. -/
theorem Heap.modify_field {β : Type*} (h : Heap) (t x : PThread) {f : Thread → Thread}
    (g : Thread → β) (hf : ∀ a, g (f a) = g a) : g (h.modify t f x) = g (h x) := by
  rw [Heap.modify_apply]
  split
  · exact hf _
  · rfl

/-! ### The sleep timer -/

/-- `_millisecond_clock_time` and `SleepTime` are 64 bits wide. -/
def clockWidth : Nat := 2 ^ 64

/-- The scheduler's timer check on one thread: a sleep time that the clock
has passed (the signed difference is negative) is cleared. -/
def processTimer (clock : Nat) (thr : Thread) : Thread :=
  if thr.sleepTime ≠ 0 then
    if 2 ^ 63 ≤ (thr.sleepTime + clockWidth - clock) % clockWidth then
      { thr with sleepTime := 0 }
    else thr
  else thr

theorem processTimer_eq (clock : Nat) (thr : Thread) :
    ∃ v, processTimer clock thr = { thr with sleepTime := v } := by
  unfold processTimer
  split
  · split
    · exact ⟨0, rfl⟩
    · exact ⟨thr.sleepTime, rfl⟩
  · exact ⟨thr.sleepTime, rfl⟩

end LibXenon
