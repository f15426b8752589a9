/-
LibXenon/ExceptionHandlers.lean

The lock around the exception handlers of c_debug.c.

`segfault_handler`, `program_interrupt_handler` and `trace_interrupt_handler`
begin and end in the same way.  A handler looks at `ExceptionRecursion` of its
processor: if the flag is 0 it takes `program_interrupt_lock`, and otherwise it
notes in `recursionCheck` that it is nested.  It sets the flag, does its work,
clears the flag, and releases the lock if it took it.  A handler can itself
fault, and then a handler runs on top of it.

But a nested handler clears the flag too when it ends.  A second fault of the
outer handler then finds the flag clear and waits for a lock that its own
processor holds (`handler_waits_for_itself`).

With a fault only while the flag is set, and not before a handler has looked at
it, the protocol is right: for any number of processors and any depth
(`exceptionLock_of_reach`).

A processor goes through its innermost handler one line at a time, between the
lines of the others.
-/
import LibXenon.Transition
import Mathlib.Data.List.Basic

namespace LibXenon

open Function Transition

/-! ### The handlers -/

inductive ExceptionHandler
  | segfault
  | programInterrupt
  | traceInterrupt
  deriving DecidableEq

/-- Where a handler is, with `recursionCheck` once it is known. -/
inductive HandlerPlace
  /-- In front of the test of `ExceptionRecursion`. -/
  | check
  /-- In `lock`. -/
  | waiting
  /-- In front of `ExceptionRecursion = 1`. -/
  | entering (first : Bool)
  | body (first : Bool)
  /-- In front of `ExceptionRecursion = 0`. -/
  | clearing (first : Bool)
  /-- In front of the last test of `recursionCheck`. -/
  | leaving (first : Bool)
  deriving DecidableEq

def HandlerPlace.first : HandlerPlace → Option Bool
  | check | waiting => none
  | entering first | body first | clearing first | leaving first => some first

structure HandlerFrame where
  handler : ExceptionHandler
  place : HandlerPlace
  deriving DecidableEq

/-- A processor: its handlers, the innermost one first, and `ExceptionRecursion`.
The counters are for the statements: how many outermost handlers have begun and
ended, and how often the lock was taken and released. -/
structure HandlerCpu where
  stack : List HandlerFrame := []
  recursion : Bool := false
  begun : Nat := 0
  ended : Nat := 0
  taken : Nat := 0
  released : Nat := 0

/-- An exception starts a handler. -/
def HandlerCpu.raise (c : HandlerCpu) (handler : ExceptionHandler) : HandlerCpu :=
  { c with
    stack := ⟨handler, .check⟩ :: c.stack
    begun := if c.stack.isEmpty then c.begun + 1 else c.begun }

/-- The next line of the innermost handler, with `program_interrupt_lock`. -/
def HandlerCpu.step (c : HandlerCpu) (lock : Bool) : Option (HandlerCpu × Bool) :=
  match c.stack with
  | [] => none
  | ⟨handler, .check⟩ :: rest =>
    let place := if c.recursion then .entering false else .waiting
    some ({ c with stack := ⟨handler, place⟩ :: rest }, lock)
  | ⟨handler, .waiting⟩ :: rest =>
    if lock then none
    else some ({ c with stack := ⟨handler, .entering true⟩ :: rest, taken := c.taken + 1 }, true)
  | ⟨handler, .entering first⟩ :: rest =>
    some ({ c with stack := ⟨handler, .body first⟩ :: rest, recursion := true }, lock)
  | ⟨handler, .body first⟩ :: rest =>
    some ({ c with stack := ⟨handler, .clearing first⟩ :: rest }, lock)
  | ⟨handler, .clearing first⟩ :: rest =>
    some ({ c with stack := ⟨handler, .leaving first⟩ :: rest, recursion := false }, lock)
  | ⟨_, .leaving first⟩ :: rest =>
    some ({ c with
      stack := rest
      ended := if rest.isEmpty then c.ended + 1 else c.ended
      released := if first then c.released + 1 else c.released }, if first then false else lock)

/-- Past the lock, in one handler at least. -/
def inside (stack : List HandlerFrame) : Bool := stack.any fun x => x.place.first.isSome

/-! ### All processors -/

variable {P : Type} [DecidableEq P]
variable {rest : List HandlerFrame}

structure Handlers (P : Type) where
  cpu : P → HandlerCpu := fun _ => {}
  programInterruptLock : Bool := false

inductive HandlerAction (P : Type)
  | raise (p : P) (handler : ExceptionHandler)
  | step (p : P)

def exceptionStep (s : Handlers P) : HandlerAction P → Option (Handlers P)
  | .raise p handler => some { s with cpu := update s.cpu p ((s.cpu p).raise handler) }
  | .step p => ((s.cpu p).step s.programInterruptLock).map fun r =>
    ⟨update s.cpu p r.1, r.2⟩

/-- A handler faults only while the flag of its processor is set, and not before
it has looked at it. -/
def flagSet (s : Handlers P) : HandlerAction P → Prop
  | .raise p _ => (s.cpu p).stack = [] ∨ (s.cpu p).recursion = true ∧
      (s.cpu p).stack.head?.all (fun x => x.place ≠ .check) = true
  | .step _ => True

instance (s : Handlers P) (a : HandlerAction P) : Decidable (flagSet s a) := by
  cases a <;> dsimp only [flagSet] <;> infer_instance

/-! ### One processor -/

/-- Handlers past the lock: the outermost one has taken it, the others have
not. -/
inductive HeldStack : List HandlerFrame → Prop
  | outermost (x : HandlerFrame) : x.place.first = some true → HeldStack [x]
  | nested (x : HandlerFrame) {rest : List HandlerFrame} :
      x.place.first = some false → HeldStack rest → HeldStack (x :: rest)

/-- The handlers a processor can have, by its flag. -/
inductive Stacked : Bool → List HandlerFrame → Prop
  | idle : Stacked false []
  /-- An outermost handler on its way to the lock. -/
  | arriving (x : HandlerFrame) : x.place.first = none → Stacked false [x]
  | held {flag : Bool} {x : HandlerFrame} {rest : List HandlerFrame} : HeldStack (x :: rest) →
      (∀ first, x.place = .leaving first → flag = false) → Stacked flag (x :: rest)
  /-- A nested handler about to see the flag. -/
  | nesting (handler : ExceptionHandler) {rest : List HandlerFrame} : HeldStack rest →
      Stacked true (⟨handler, .check⟩ :: rest)

theorem HeldStack.ne_nil {l : List HandlerFrame} (h : HeldStack l) : l ≠ [] := by
  cases h <;> exact List.cons_ne_nil _ _

theorem HeldStack.inside {l : List HandlerFrame} (h : HeldStack l) : inside l = true := by
  rw [LibXenon.inside, List.any_eq_true]
  cases h with
  | outermost x hx => exact ⟨x, List.mem_singleton_self x, by rw [hx]; rfl⟩
  | nested x hx _ => exact ⟨x, List.mem_cons_self, by rw [hx]; rfl⟩

theorem HeldStack.stacked {l : List HandlerFrame} (h : HeldStack l) : Stacked false l := by
  cases h with
  | outermost x hx => exact .held (.outermost x hx) fun _ _ => rfl
  | nested x hx hrest => exact .held (.nested x hx hrest) fun _ _ => rfl

theorem Stacked.waiting {flag : Bool} {x : HandlerFrame}
    (h : Stacked flag (x :: rest)) (hx : x.place = .waiting) : inside (x :: rest) = false := by
  cases h with
  | arriving _ hnone =>
    rw [LibXenon.inside, List.any_cons, hnone]
    rfl
  | held hheld _ =>
    cases hheld with
    | outermost _ hfirst | nested _ hfirst _ =>
      rw [hx] at hfirst
      cases hfirst
  | nesting handler _ => cases hx

theorem HeldStack.replace {x y : HandlerFrame} (h : HeldStack (x :: rest))
    (hxy : y.place.first = x.place.first) : HeldStack (y :: rest) := by
  cases h with
  | outermost _ hx => exact .outermost y (hxy.trans hx)
  | nested _ hx hrest => exact .nested y (hxy.trans hx) hrest

/-- The lock was taken once for each outermost handler, and released once. -/
structure HandlerCpu.Sound (c : HandlerCpu) : Prop where
  stacked : Stacked c.recursion c.stack
  begun : c.begun = c.ended + if c.stack.isEmpty then 0 else 1
  released : c.released = c.ended
  taken : c.taken = c.released + if inside c.stack then 1 else 0

variable {c c' : HandlerCpu} {lock lock' : Bool}

theorem HandlerCpu.Sound.raise (h : c.Sound) (handler : ExceptionHandler)
    (hg : c.stack = [] ∨ c.recursion = true ∧
      c.stack.head?.all (fun x => x.place ≠ .check) = true) :
    (c.raise handler).Sound ∧ inside (c.raise handler).stack = inside c.stack := by
  have hinside : inside (c.raise handler).stack = inside c.stack := by
    rw [inside, HandlerCpu.raise, List.any_cons]
    rfl
  refine ⟨⟨?_, ?_, h.released, ?_⟩, hinside⟩
  · have hst := h.stacked
    change Stacked c.recursion (⟨handler, .check⟩ :: c.stack)
    rcases hg with hnil | ⟨hflag, hhead⟩
    · -- the first exception finds the flag clear
      rw [hnil] at hst ⊢
      cases hrec : c.recursion with
      | false => exact .arriving _ rfl
      | true =>
        rw [hrec] at hst
        cases hst
    · -- a nested one comes on top of a handler that has the lock
      rw [hflag] at hst ⊢
      cases hst' : c.stack with
      | nil =>
        rw [hst'] at hst
        cases hst
      | cons x rest =>
        rw [hst'] at hst hhead
        cases hst with
        | held hheld _ => exact .nesting handler hheld
        | nesting handler' _ => cases hhead
  · have hbegun := h.begun
    rw [HandlerCpu.raise]
    dsimp only
    cases hst : c.stack with
    | nil | cons x rest =>
      rw [hst] at hbegun
      simpa using hbegun
  · rw [hinside]
    exact h.taken

/-- What one line does to the lock. -/
inductive LockEffect (c c' : HandlerCpu) : Bool → Bool → Prop
  | keep (lock : Bool) : inside c'.stack = inside c.stack → LockEffect c c' lock lock
  | take : inside c.stack = false → inside c'.stack = true → LockEffect c c' false true
  | release (lock : Bool) : inside c.stack = true → inside c'.stack = false →
      LockEffect c c' lock false

theorem HandlerCpu.Sound.move {x y : HandlerFrame} {flag : Bool} (h : c.Sound)
    (hstack : c.stack = x :: rest) (hxy : inside (y :: rest) = inside (x :: rest))
    (hst : Stacked flag (y :: rest)) :
    HandlerCpu.Sound { c with stack := y :: rest, recursion := flag } ∧
      LockEffect c { c with stack := y :: rest, recursion := flag } lock lock := by
  have hinside : inside (y :: rest) = inside c.stack := by
    rw [hstack, hxy]
  refine ⟨⟨hst, ?_, h.released, ?_⟩, .keep lock hinside⟩
  · have hbegun := h.begun
    rw [hstack] at hbegun
    exact hbegun
  · rw [hinside]
    exact h.taken

theorem HandlerCpu.Sound.held_step {x : HandlerFrame} (h : c.Sound)
    (hstack : c.stack = x :: rest) (hheld : HeldStack (x :: rest))
    (hleave : ∀ first, x.place = .leaving first → c.recursion = false)
    (hs : c.step lock = some (c', lock')) : c'.Sound ∧ LockEffect c c' lock lock' := by
  obtain ⟨handler, place⟩ := x
  rw [HandlerCpu.step, hstack] at hs
  cases place with
  | check | waiting => cases hheld <;> contradiction
  | entering first | body first =>
    cases hs
    exact h.move hstack rfl (.held (hheld.replace rfl) nofun)
  | clearing first =>
    cases hs
    exact h.move hstack rfl (.held (hheld.replace rfl) fun _ _ => rfl)
  | leaving first =>
    have hflag := hleave first rfl
    have hin : inside c.stack = true := by
      rw [hstack]
      exact hheld.inside
    have htaken := h.taken
    have hbegun := h.begun
    have hreleased := h.released
    rw [hin] at htaken
    rw [hstack] at hbegun
    cases hs
    cases hheld with
    | outermost _ hfirst =>
      -- the lock is given back and no handler is left
      cases hfirst
      refine ⟨⟨?_, ?_, ?_, ?_⟩, .release lock hin rfl⟩
      · change Stacked c.recursion []
        rw [hflag]
        exact .idle
      · exact hbegun
      · exact congrArg (· + 1) hreleased
      · exact htaken
    | nested _ hfirst hrest =>
      -- the outer handler goes on, with the lock
      cases hfirst
      have hne : rest.isEmpty = false := by
        cases rest with
        | nil => exact absurd rfl hrest.ne_nil
        | cons _ _ => rfl
      refine ⟨⟨?_, ?_, ?_, ?_⟩, .keep lock (hrest.inside.trans hin.symm)⟩
      · change Stacked c.recursion rest
        rw [hflag]
        exact hrest.stacked
      · simp only [hne] at hbegun ⊢
        exact hbegun
      · simp only [hne]
        exact hreleased
      · simp only [hrest.inside]
        exact htaken

/-- **One line** of a handler keeps the counters right, and takes the lock or
gives it back as the processor goes in or out. -/
theorem HandlerCpu.Sound.step (h : c.Sound) (hs : c.step lock = some (c', lock')) :
    c'.Sound ∧ LockEffect c c' lock lock' := by
  have hst := h.stacked
  generalize hstack : c.stack = stack at hst
  generalize hflag : c.recursion = flag at hst
  cases hst with
  | idle =>
    rw [HandlerCpu.step, hstack] at hs
    cases hs
  | arriving x hx =>
    obtain ⟨handler, place⟩ := x
    cases place with
    | check =>
      -- the flag is down: the handler goes for the lock
      rw [HandlerCpu.step, hstack] at hs
      rw [hflag] at hs
      cases hs
      exact h.move hstack rfl (.arriving _ rfl)
    | waiting =>
      rw [HandlerCpu.step, hstack] at hs
      cases lock with
      | true => cases hs
      | false =>
        cases hs
        have hout : inside c.stack = false := by
          rw [hstack]
          rfl
        have htaken := h.taken
        have hbegun := h.begun
        rw [hout] at htaken
        rw [hstack] at hbegun
        refine ⟨⟨?_, hbegun, h.released, ?_⟩, .take hout rfl⟩
        · exact .held (.outermost _ rfl) nofun
        · exact congrArg (· + 1) htaken
    | entering first | body first | clearing first | leaving first => cases hx
  | held hheld hleave =>
    exact h.held_step hstack hheld (fun first hplace => hflag.trans (hleave first hplace)) hs
  | nesting handler hheld =>
    -- the flag is up: the handler goes in under the lock of the one below
    rw [HandlerCpu.step, hstack] at hs
    rw [hflag] at hs
    cases hs
    refine h.move hstack ?_ (.held (.nested _ rfl hheld) nofun)
    exact hheld.inside.symm

/-! ### The protocol -/

/-- The lock is held for one processor at most, the one that is inside. -/
structure HandlersGuarded (cpu : P → HandlerCpu) (lock : Bool) (owner : Option P) : Prop where
  sound : ∀ p, (cpu p).Sound
  lock : lock = owner.isSome
  owns : ∀ p, inside (cpu p).stack = true ↔ owner = some p

variable {s s' : Handlers P} {cpu : P → HandlerCpu} {owner : Option P} {p : P}

theorem HandlersGuarded.raise (h : HandlersGuarded s.cpu lock owner) {handler : ExceptionHandler}
    (hg : flagSet s (.raise p handler)) :
    HandlersGuarded (update s.cpu p ((s.cpu p).raise handler)) lock owner := by
  obtain ⟨hsound, hinside⟩ := (h.sound p).raise handler hg
  refine ⟨update_cases hsound fun q _ => h.sound q, h.lock,
    update_cases ?_ fun q _ => h.owns q⟩
  rw [hinside]
  exact h.owns p

theorem HandlersGuarded.step (h : HandlersGuarded cpu lock owner)
    (hs : (cpu p).step lock = some (c', lock')) :
    ∃ owner', HandlersGuarded (update cpu p c') lock' owner' := by
  obtain ⟨hsound, heffect⟩ := (h.sound p).step hs
  have hall : ∀ q, (update cpu p c' q).Sound := update_cases hsound fun q _ => h.sound q
  -- the lock follows the processor that has made the step
  cases heffect with
  | keep _ hsame =>
    refine ⟨owner, hall, h.lock, update_cases ?_ fun q _ => h.owns q⟩
    rw [hsame]
    exact h.owns p
  | take hout hin =>
    have hfree : owner = none :=
      Option.isNone_iff_eq_none.mp (Option.isSome_eq_false_iff.mp h.lock.symm)
    refine ⟨some p, hall, rfl, update_cases (iff_of_true hin rfl) fun q hq => ?_⟩
    rw [h.owns q, hfree]
    exact iff_of_false nofun fun hp => hq (Option.some.inj hp).symm
  | release _ hin hout =>
    have howner := (h.owns p).mp hin
    refine ⟨none, hall, rfl, update_cases ?_ fun q hq => ?_⟩
    · rw [hout]
      exact iff_of_false nofun nofun
    · rw [h.owns q, howner]
      exact iff_of_false (fun hp => hq (Option.some.inj hp).symm) nofun

/-- **The lock of the handlers.**  With any number of processors and any nesting,
as long as a handler faults only while its processor's flag is set: a processor
that waits for the lock does not hold it; no two processors are past the lock;
and the lock was taken once for each outermost handler that has ended and for
the one that is past it, and released once for each that has ended. -/
theorem exceptionLock_of_reach (hrun : Reach exceptionStep flagSet ({} : Handlers P) s) :
    (∀ p x rest, (s.cpu p).stack = x :: rest → x.place = .waiting →
      (s.cpu p).taken = (s.cpu p).released) ∧
    (∀ p q, inside (s.cpu p).stack = true → inside (s.cpu q).stack = true → p = q) ∧
    ∀ p, (s.cpu p).begun = (s.cpu p).ended + (if (s.cpu p).stack.isEmpty then 0 else 1) ∧
      (s.cpu p).released = (s.cpu p).ended ∧
      (s.cpu p).taken = (s.cpu p).ended + if inside (s.cpu p).stack then 1 else 0 := by
  have hinv : ∃ owner, HandlersGuarded s.cpu s.programInterruptLock owner := by
    refine hrun.invariant (I := fun s : Handlers P => ∃ owner,
      HandlersGuarded s.cpu s.programInterruptLock owner)
      ⟨none, fun _ => ⟨.idle, rfl, rfl, rfl⟩, rfl, fun _ => iff_of_false (nofun : ¬ inside [] = true) nofun⟩ ?_
    rintro s a s' ⟨owner, h⟩ hg hs
    cases a with
    | raise p handler =>
      cases hs
      exact ⟨owner, h.raise hg⟩
    | step p =>
      obtain ⟨⟨c', lock'⟩, hcpu, rfl⟩ := Option.map_eq_some_iff.mp hs
      exact h.step hcpu
  obtain ⟨owner, h⟩ := hinv
  refine ⟨fun p x rest hstack hplace => ?_, fun p q hp hq => ?_, fun p => ⟨?_, ?_, ?_⟩⟩
  · -- a waiting handler is the only one of its processor
    have hst := (h.sound p).stacked
    have htaken := (h.sound p).taken
    rw [hstack] at hst htaken
    rw [hst.waiting hplace] at htaken
    exact htaken
  · exact Option.some_inj.mp (((h.owns p).mp hp).symm.trans ((h.owns q).mp hq))
  · exact (h.sound p).begun
  · exact (h.sound p).released
  · rw [← (h.sound p).released]
    exact (h.sound p).taken

/-- A handler of processor 0 that faults once, and a handler of processor 1 that
waits for it and goes in when it has ended. -/
def nestedOnce : List (HandlerAction (Fin 2)) :=
  [.raise 0 .segfault, .step 0, .step 0, .step 0, .raise 1 .traceInterrupt, .step 1,
   .raise 0 .programInterrupt, .step 0, .step 0, .step 0, .step 0, .step 0,
   .step 0, .step 0, .step 0, .step 1]

theorem exceptionLock_nestedOnce :
    ∃ s : Handlers (Fin 2), Reach exceptionStep flagSet {} s ∧ (s.cpu 0).begun = 1 ∧
      (s.cpu 0).taken = 1 ∧ (s.cpu 0).released = 1 ∧ inside (s.cpu 1).stack = true ∧
      (s.cpu 1).taken = 1 := by
  refine exists_reach_imp nestedOnce (fun s => (s.cpu 0).begun = 1 ∧ (s.cpu 0).stack = [] ∧
    (s.cpu 1).ended = 0 ∧ inside (s.cpu 1).stack = true) (by decide +kernel)
    fun s hreach ⟨hbegun, hstack, hended, hinside⟩ => ?_
  obtain ⟨-, -, hcount⟩ := exceptionLock_of_reach hreach
  obtain ⟨hbegun₀, hreleased₀, htaken₀⟩ := hcount 0
  obtain ⟨-, -, htaken₁⟩ := hcount 1
  rw [hstack] at hbegun₀ htaken₀
  rw [hinside, hended] at htaken₁
  have hone : (s.cpu 0).ended = 1 := hbegun₀.symm.trans hbegun
  exact ⟨hbegun, htaken₀.trans hone, hreleased₀.trans hone, hinside, htaken₁⟩

/-- A handler that faults twice, one fault after the other. -/
def faultsTwice : List (HandlerAction (Fin 2)) :=
  [.raise 0 .segfault, .step 0, .step 0, .step 0,
   .raise 0 .programInterrupt, .step 0, .step 0, .step 0, .step 0, .step 0,
   .raise 0 .programInterrupt, .step 0]

/-- At the second fault processor 0 waits for the lock that it holds, and nothing
moves it on. -/
theorem handler_waits_for_itself :
    ∃ s : Handlers (Fin 2), Reach exceptionStep (fun _ _ => True) {} s ∧
      (s.cpu 0).stack.head?.map HandlerFrame.place = some .waiting ∧
      (s.cpu 0).taken = 1 ∧ (s.cpu 0).released = 0 ∧
      ((s.cpu 0).step s.programInterruptLock).isNone = true := by
  exact exists_reach faultsTwice (by decide +kernel)

end LibXenon
