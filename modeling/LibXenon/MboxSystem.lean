/-
LibXenon/MboxSystem.lean

One lwIP mailbox, any number of threads posting to it and fetching from it.

Here the two mutexes of the mailbox are what they are meant to be: counting
semaphores, given by their free units, whose release adds one.  Every
statement of `sys_arch.c` that reads or writes the mailbox is a step of its
own, so the threads interleave at each of them, also when the lock fails to
keep them apart.  Two lists keep the history: `accepted`, the messages in the
order in which they were stored, and `delivered`, those taken out.

The mailbox is a queue as long as two things do not happen
(`mailbox_is_fifo`): no `sys_mbox_post` takes the lock of a full mailbox
("Currently just writes regardless of where the tail is"), and no
`sys_arch_mbox_tryfetch` finds the semaphore without a unit, for it would
then release the lock without having it.

The invariant ties the ring to the history.  The thread that has the lock
(`Semaphores.OwnedBy`) is the only one between its reads and writes, so `head`
and `tail` are the two lengths modulo the size of the ring, up to the step
that thread is at; and a message that is not delivered yet is counted once:
as a free unit of the semaphore, as a post that has not signalled, or as a
fetch that has not read.
-/
import LibXenon.Mbox
import LibXenon.Semaphores
import LibXenon.Transition

namespace LibXenon

open Function Semaphores Transition List

/-! ### The threads at the mailbox -/

/-- What a call returned. -/
inductive MboxResult
  /-- `sys_mbox_post` returned -/
  | posted
  /-- `ERR_OK` -/
  | errOk
  /-- `ERR_MEM` -/
  | errMem
  /-- a fetch succeeded, with what it wrote through `msg` -/
  | fetched (out : Option Msg)
  /-- `SYS_MBOX_EMPTY` -/
  | empty
  deriving DecidableEq

/-- The call a thread makes; a fetch waits for ever (timeout 0), and says
whether it passes a `msg` to write to. -/
inductive MboxCall
  | post (msg : Msg)
  | trypost (msg : Msg)
  | fetch (out : Bool)
  | tryfetch (out : Bool)
  deriving DecidableEq

/-- The statement a thread is at. -/
inductive MboxPc
  | idle (last : Option MboxResult)
  | postLock (msg : Msg)
  | postStore (msg : Msg)
  | postBump
  | postWrap
  | trypostLock (msg : Msg)
  | trypostHead (msg : Msg)
  | trypostTest (msg : Msg) (newHead : Nat)
  | trypostStore (msg : Msg) (newHead : Nat)
  | trypostSet (newHead : Nat)
  /-- `LWIP_ASSERT(text, mbox->head != mbox->tail)` -/
  | assertRoom (text : String) (r : MboxResult)
  /-- `mutex_release(mbox->sem)` -/
  | signal (r : MboxResult)
  /-- `mutex_release(mbox->lock)` -/
  | unlock (r : MboxResult)
  | fetchSem (out : Bool)
  | fetchLock (out : Bool)
  | fetchRead (out : Bool)
  | fetchBump (got : Option Msg)
  | fetchWrap (got : Option Msg)
  | tryfetchSem (out : Bool)
  /-- the `mutex_release(mbox->lock)` of a `sys_arch_mbox_tryfetch` that got
  no unit -/
  | tryfetchFail
  /-- an assertion failed: the text is printed and the thread spins -/
  | failed (text : String)
  /-- an index outside `q_mem` was used -/
  | overrun
  deriving DecidableEq

/-- Where a call begins. -/
def MboxCall.entry : MboxCall → MboxPc
  | .post msg => .postLock msg
  | .trypost msg => .trypostLock msg
  | .fetch out => .fetchSem out
  | .tryfetch out => .tryfetchSem out

/-- The mailbox with the free units of its semaphores, the threads, and the
history. -/
structure MboxSys extends MsgRing where
  sem : Nat
  lock : Nat
  pc : PThread → MboxPc
  accepted : List Msg
  delivered : List Msg

/-- A mailbox no thread has used. -/
def MboxSys.start (mb : Mbox) : MboxSys :=
  { toMsgRing := mb.toMsgRing
    sem := mb.sem.maximumLockCount - mb.sem.currentLockCount
    lock := mb.lock.maximumLockCount - mb.lock.currentLockCount
    pc := fun _ => .idle none
    accepted := []
    delivered := [] }

/-- Thread `t` goes on at `c`. -/
def MboxSys.goto (s : MboxSys) (t : PThread) (c : MboxPc) : MboxSys :=
  { s with pc := update s.pc t c }

/-- `mutex_acquire(mbox->lock, INFINITE)`: waits for a unit. -/
def MboxSys.takeLock (s : MboxSys) : Option MboxSys :=
  if 0 < s.lock then some { s with lock := s.lock - 1 } else none

/-- `mbox->q_mem[mbox->head] = msg`, after which `t` goes on at `c`. -/
def MboxSys.store (s : MboxSys) (t : PThread) (msg : Msg) (c : MboxPc) : MboxSys :=
  if s.head < maxQueueEntries then
    { s with qMem := update s.qMem s.head msg, accepted := s.accepted ++ [msg] }.goto t c
  else s.goto t .overrun

/-- The next statement of thread `t`, if it can be executed. -/
def mboxRun (s : MboxSys) (t : PThread) : Option MboxSys :=
  match s.pc t with
  | .idle _ => none
  | .postLock msg => s.takeLock.map fun s => s.goto t (.postStore msg)
  | .postStore msg => some (s.store t msg .postBump)
  | .postBump => some ({ s with head := s.head + 1 }.goto t .postWrap)
  | .postWrap =>
    some ({ s with head := wrapIndex s.head }.goto t (.assertRoom "mbox is full" .posted))
  | .trypostLock msg => s.takeLock.map fun s => s.goto t (.trypostHead msg)
  | .trypostHead msg => some (s.goto t (.trypostTest msg (wrapIndex (s.head + 1))))
  | .trypostTest msg newHead =>
    if newHead = s.tail then some (s.goto t (.unlock .errMem))
    else some (s.goto t (.trypostStore msg newHead))
  | .trypostStore msg newHead => some (s.store t msg (.trypostSet newHead))
  | .trypostSet newHead =>
    some ({ s with head := newHead }.goto t (.assertRoom "mbox is full!" .errOk))
  | .assertRoom text r =>
    if s.head ≠ s.tail then some (s.goto t (.signal r)) else some (s.goto t (.failed text))
  | .signal r => some ({ s with sem := s.sem + 1 }.goto t (.unlock r))
  | .unlock r => some ({ s with lock := s.lock + 1 }.goto t (.idle (some r)))
  | .fetchSem out =>
    if 0 < s.sem then some ({ s with sem := s.sem - 1 }.goto t (.fetchLock out)) else none
  | .fetchLock out => s.takeLock.map fun s => s.goto t (.fetchRead out)
  | .fetchRead out =>
    -- without a `msg` to write to the message is dropped unread
    if out = true ∧ ¬ s.tail < maxQueueEntries then some (s.goto t .overrun)
    else
      some ({ s with delivered := s.delivered ++ [s.qMem s.tail] }.goto t
        (.fetchBump (writeMsg out (s.qMem s.tail))))
  | .fetchBump got => some ({ s with tail := s.tail + 1 }.goto t (.fetchWrap got))
  | .fetchWrap got =>
    some ({ s with tail := wrapIndex s.tail }.goto t (.unlock (.fetched got)))
  | .tryfetchSem out =>
    if 0 < s.sem then some ({ s with sem := s.sem - 1 }.goto t (.fetchLock out))
    else some (s.goto t .tryfetchFail)
  | .tryfetchFail => some ({ s with lock := s.lock + 1 }.goto t (.idle (some .empty)))
  | .failed _ => none
  | .overrun => none

/-- What the threads do: one that is outside makes a call, one that is
inside executes its next statement. -/
inductive MboxAct
  | call (t : PThread) (c : MboxCall)
  | run (t : PThread)
  deriving DecidableEq

/-- One step of the system. -/
def mboxStep (s : MboxSys) : MboxAct → Option MboxSys
  | .call t c =>
    match s.pc t with
    | .idle _ => some (s.goto t c.entry)
    | _ => none
  | .run t => mboxRun s t

/-- There is no slot between `head` and `tail`. -/
def MsgRing.Full (q : MsgRing) : Prop := wrapIndex (q.head + 1) = q.tail

instance (q : MsgRing) : Decidable q.Full := inferInstanceAs (Decidable (_ = _))

/-- A post takes the lock when there is room, and a `tryfetch` looks for a
unit when there is one. -/
def prudent (s : MboxSys) : MboxAct → Bool
  | .call _ _ => true
  | .run t =>
    match s.pc t with
    | .postLock _ => !decide s.Full
    | .tryfetchSem _ => decide (0 < s.sem)
    | _ => true

/-- The messages between `tail` and `head`. -/
def MsgRing.contents (q : MsgRing) : List Msg :=
  (List.range ((q.head + maxQueueEntries - q.tail) % maxQueueEntries)).map
    fun i => q.qMem ((q.tail + i) % maxQueueEntries)

/-! ### What each point of the code stands for -/

/-- The thread has the lock. -/
def MboxPc.locked : MboxPc → Bool
  | .postStore _ | .postBump | .postWrap | .trypostHead _ | .trypostTest _ _
  | .trypostStore _ _ | .trypostSet _ | .assertRoom _ _ | .signal _ | .unlock _
  | .fetchRead _ | .fetchBump _ | .fetchWrap _ => true
  | _ => false

/-- It has stored a message that the semaphore does not count yet. -/
def MboxPc.unsignalled : MboxPc → Bool
  | .postBump | .postWrap | .trypostSet _ | .assertRoom _ _ | .signal _ => true
  | _ => false

/-- It has a unit of the semaphore and has not taken the message. -/
def MboxPc.entitled : MboxPc → Bool
  | .fetchLock _ | .fetchRead _ => true
  | _ => false

/-- Nothing good comes from here. -/
def MboxPc.broken : MboxPc → Bool
  | .tryfetchFail | .failed _ | .overrun => true
  | _ => false

/-- `head` after `n` stores, when the thread with the lock is at this point. -/
def MboxPc.headAt (n : Nat) : MboxPc → Nat
  | .postBump | .trypostSet _ => (n - 1) % maxQueueEntries
  | .postWrap => (n - 1) % maxQueueEntries + 1
  | _ => n % maxQueueEntries

/-- `tail` after `n` messages were taken. -/
def MboxPc.tailAt (n : Nat) : MboxPc → Nat
  | .fetchBump _ => (n - 1) % maxQueueEntries
  | .fetchWrap _ => (n - 1) % maxQueueEntries + 1
  | _ => n % maxQueueEntries

/-- What the thread with the lock has found out, with `a` messages accepted
and `d` delivered. -/
def MboxPc.Knows (a d : Nat) : MboxPc → Prop
  | .postStore _ => a + 1 < d + maxQueueEntries
  | .trypostTest _ newHead => newHead = (a + 1) % maxQueueEntries
  | .trypostStore _ newHead =>
    newHead = (a + 1) % maxQueueEntries ∧ a + 1 < d + maxQueueEntries
  | .trypostSet newHead => newHead = a % maxQueueEntries
  | .fetchBump _ | .fetchWrap _ => 0 < d
  | _ => True

/-- The indices are where they should be with the lock's thread at `c`. -/
structure Settled (s : MboxSys) (c : MboxPc) : Prop where
  head : s.head = c.headAt s.accepted.length
  tail : s.tail = c.tailAt s.delivered.length
  knows : c.Knows s.accepted.length s.delivered.length

/-- The messages in `rest` are the accepted ones that are not delivered, and
they lie in the slots from `tail` on. -/
structure Filed (s : MboxSys) (rest : List Msg) : Prop where
  accepted : s.accepted = s.delivered ++ rest
  bound : rest.length < maxQueueEntries
  slot : ∀ i, i < rest.length →
    rest[i]? = some (s.qMem ((s.delivered.length + i) % maxQueueEntries))

/-- The thread that has the lock, or nobody, with the indices as that point
of the code leaves them. -/
def Guarded (s : MboxSys) : Prop :=
  Under MboxPc.locked s.pc s.lock (.idle none) (Settled s)

/-- Every message that is not delivered is counted once. -/
def Counted (s : MboxSys) : Prop :=
  ∃ k u, Census (fun c => c.entitled.toNat) s.pc k ∧
    Census (fun c => c.unsignalled.toNat) s.pc u ∧
    s.sem + k + u + s.delivered.length = s.accepted.length

/-- The invariant. -/
structure MboxInv (s : MboxSys) : Prop where
  filed : ∃ rest, Filed s rest
  guarded : Guarded s
  counted : Counted s
  unbroken : ∀ t, (s.pc t).broken = false

/-! ### One thread moves -/

section Move

variable {s s' : MboxSys} {t : PThread} {c : MboxPc}

theorem Settled.congr (h : Settled s c) (hhead : s'.head = s.head := by rfl)
    (htail : s'.tail = s.tail := by rfl) (hacc : s'.accepted = s.accepted := by rfl)
    (hdel : s'.delivered = s.delivered := by rfl) : Settled s' c := by
  refine ⟨?_, ?_, ?_⟩
  · rw [hhead, hacc]
    exact h.head
  · rw [htail, hdel]
    exact h.tail
  · rw [hacc, hdel]
    exact h.knows

theorem Counted.move (h : Counted s) (hpc : s'.pc = update s.pc t c)
    (hsum : s'.sem + c.entitled.toNat + c.unsignalled.toNat + s'.delivered.length
        + s.accepted.length =
      s.sem + (s.pc t).entitled.toNat + (s.pc t).unsignalled.toNat + s.delivered.length
        + s'.accepted.length) : Counted s' := by
  obtain ⟨k, u, hk, hu, hcount⟩ := h
  obtain ⟨k', hk', hk₁⟩ := hk.update t c
  obtain ⟨u', hu', hu₁⟩ := hu.update t c
  refine ⟨k', u', by rw [hpc]; exact hk', by rw [hpc]; exact hu', ?_⟩
  omega

theorem unbroken_update (h : ∀ u, (s.pc u).broken = false)
    (hpc : s'.pc = update s.pc t c) (hc : c.broken = false) :
    ∀ u, (s'.pc u).broken = false := by
  intro u
  rw [hpc]
  by_cases hu : u = t
  · rw [hu, update_self]
    exact hc
  · rw [update_of_ne hu]
    exact h u

theorem Counted.pending (h : Counted s) (hat : s.pc t = c)
    (ht : c.entitled = true ∨ c.unsignalled = true) :
    s.delivered.length < s.accepted.length := by
  subst hat
  obtain ⟨k, u, hk, hu, hcount⟩ := h
  rcases ht with ht | ht
  · have hle := hk.le t
    rw [ht, Bool.toNat_true] at hle
    omega
  · have hle := hu.le t
    rw [ht, Bool.toNat_true] at hle
    omega

theorem MboxInv.move (hI : MboxInv s) (hpc : s'.pc = update s.pc t c)
    (hfiled : ∃ rest, Filed s' rest) (hguarded : Guarded s')
    (hsum : s'.sem + c.entitled.toNat + c.unsignalled.toNat + s'.delivered.length
        + s.accepted.length =
      s.sem + (s.pc t).entitled.toNat + (s.pc t).unsignalled.toNat + s.delivered.length
        + s'.accepted.length)
    (hc : c.broken = false) : MboxInv s' :=
  ⟨hfiled, hguarded, hI.counted.move hpc hsum, unbroken_update hI.unbroken hpc hc⟩

end Move

/-! ### The ring and the history -/

section Ring

variable {s s' : MboxSys} {t : PThread} {rest : List Msg} {msg : Msg}

theorem Filed.congr (h : Filed s rest) (hmem : s'.qMem = s.qMem)
    (hacc : s'.accepted = s.accepted) (hdel : s'.delivered = s.delivered) : Filed s' rest := by
  refine ⟨?_, h.bound, ?_⟩
  · rw [hacc, hdel]
    exact h.accepted
  · rw [hmem, hdel]
    exact h.slot

theorem Filed.length (h : Filed s rest) :
    s.accepted.length = s.delivered.length + rest.length := by
  rw [h.accepted, length_append]

/-- A message stored at `head` while there is room comes last. -/
theorem Filed.store (h : Filed s rest)
    (hroom : s.accepted.length + 1 < s.delivered.length + maxQueueEntries)
    (hmem : s'.qMem = update s.qMem (s.accepted.length % maxQueueEntries) msg)
    (hacc : s'.accepted = s.accepted ++ [msg]) (hdel : s'.delivered = s.delivered) :
    Filed s' (rest ++ [msg]) := by
  have hlen := h.length
  refine ⟨?_, ?_, ?_⟩
  · rw [hacc, hdel, h.accepted, append_assoc]
  · simp only [length_append, length_singleton]
    omega
  · intro i hi
    rw [hmem, hdel, hlen]
    simp only [length_append, length_singleton] at hi
    by_cases hlast : i = rest.length
    · rw [hlast, List.getElem?_concat_length, update_self]
    · -- fewer than a whole turn apart, so in different slots
      have hi' : i < rest.length := by omega
      have hother : (s.delivered.length + i) % maxQueueEntries ≠
          (s.delivered.length + rest.length) % maxQueueEntries := by
        simp only [maxQueueEntries] at *
        omega
      rw [List.getElem?_append_left hi', update_of_ne hother]
      exact h.slot i hi'

/-- The message at `tail` is the oldest one. -/
theorem Filed.take (h : Filed s rest) (hpending : s.delivered.length < s.accepted.length)
    (hmem : s'.qMem = s.qMem) (hacc : s'.accepted = s.accepted)
    (hdel : s'.delivered =
      s.delivered ++ [s.qMem (s.delivered.length % maxQueueEntries)]) :
    Filed s' rest.tail := by
  have hlen := h.length
  cases rest with
  | nil =>
    rw [length_nil] at hlen
    omega
  | cons first more =>
    have hfirst := h.slot 0 (by simp)
    rw [List.getElem?_cons_zero, Nat.add_zero] at hfirst
    have hbound := h.bound
    rw [length_cons] at hbound
    refine ⟨?_, ?_, ?_⟩
    · rw [hacc, hdel, h.accepted, ← Option.some.inj hfirst, append_assoc]
      rfl
    · rw [tail_cons]
      omega
    · intro i hi
      have hslot := h.slot (i + 1) (by rw [length_cons]; exact Nat.succ_lt_succ hi)
      rw [List.getElem?_cons_succ] at hslot
      rw [hmem, hdel, tail_cons, hslot, length_append, length_singleton]
      congr 3
      omega

theorem wrapIndex_succ_mod (n : Nat) :
    wrapIndex (n % maxQueueEntries + 1) = (n + 1) % maxQueueEntries := by
  rw [wrapIndex]
  by_cases hend : n % maxQueueEntries + 1 ≥ maxQueueEntries
  · rw [if_pos hend]
    simp only [maxQueueEntries] at *
    omega
  · rw [if_neg hend]
    simp only [maxQueueEntries] at *
    omega

end Ring

/-! ### The statements, one by one -/

section Statements

variable {s : MboxSys} {t : PThread} {msg : Msg} {out : Bool} {r : MboxResult} {c d : MboxPc}

section

variable (hI : MboxInv s)
include hI

theorem MboxInv.moveOnly {s' : MboxSys} (hpc : s'.pc = update s.pc t c) (hguarded : Guarded s')
    (hsum : s'.sem + c.entitled.toNat + c.unsignalled.toNat =
      s.sem + (s.pc t).entitled.toNat + (s.pc t).unsignalled.toNat)
    (hc : c.broken = false) (hmem : s'.qMem = s.qMem := by rfl)
    (hacc : s'.accepted = s.accepted := by rfl) (hdel : s'.delivered = s.delivered := by rfl) :
    MboxInv s' := by
  refine hI.move hpc (hI.filed.imp fun rest h => h.congr hmem hacc hdel) hguarded ?_ hc
  rw [hacc, hdel]
  omega

theorem MboxInv.call {last : Option MboxResult} (hpc : s.pc t = .idle last)
    (call : MboxCall) : MboxInv (s.goto t call.entry) := by
  refine hI.moveOnly (t := t) (c := call.entry) rfl ?_ ?_ ?_
  · refine Under.outside hI.guarded (by rw [hpc]; rfl) ?_ ?_
    · cases call <;> rfl
    · exact fun c hset => hset.congr
  · rw [hpc]
    cases call <;> rfl
  · cases call <;> rfl

theorem MboxInv.settled (hat : s.pc t = d) (hd : d.locked = true) :
    Settled s d := by
  subst hat
  exact Under.of_locked hI.guarded hd

theorem MboxInv.takeLock {s₁ : MboxSys} (hat : s.pc t = d)
    (h : s.takeLock = some s₁) (hc : c.locked = true) (hbroken : c.broken = false)
    (hsum : c.entitled.toNat + c.unsignalled.toNat = d.entitled.toNat + d.unsignalled.toNat)
    (hset : Settled s (.idle none) → Settled s c) : MboxInv (s₁.goto t c) := by
  subst hat
  rw [MboxSys.takeLock] at h
  split at h
  case isFalse => cases h
  case isTrue hfree =>
    obtain rfl := Option.some.inj h
    refine hI.moveOnly (t := t) (c := c) rfl ?_ ?_ hbroken
    · refine Under.acquire hI.guarded hfree hc fun hidle => ?_
      exact (hset hidle).congr
    · show s.sem + _ + _ = _
      omega

theorem MboxInv.inside {s' : MboxSys} (hat : s.pc t = d)
    (hpc : s'.pc = update s.pc t c) (hset : Settled s d → Settled s' c)
    (hsum : s'.sem + c.entitled.toNat + c.unsignalled.toNat =
      s.sem + d.entitled.toNat + d.unsignalled.toNat := by rfl)
    (hd : d.locked = true := by rfl) (hc : c.locked = true := by rfl)
    (hlock : s'.lock = s.lock := by rfl) (hmem : s'.qMem = s.qMem := by rfl)
    (hacc : s'.accepted = s.accepted := by rfl) (hdel : s'.delivered = s.delivered := by rfl) :
    MboxInv s' := by
  subst hat
  refine hI.moveOnly hpc ?_ hsum ?_ hmem hacc hdel
  · rw [Guarded, hpc, hlock]
    exact Under.inside hI.guarded hd hc hset
  · cases c <;> first | rfl | cases hc

theorem MboxInv.store (hat : s.pc t = d) (hhead : s.head = s.accepted.length % maxQueueEntries)
    (htail : s.tail = s.delivered.length % maxQueueEntries)
    (hroom : s.accepted.length + 1 < s.delivered.length + maxQueueEntries)
    (hold : d.locked = true ∧ d.entitled = false ∧ d.unsignalled = false)
    (hnew : c.locked = true ∧ c.entitled = false ∧ c.unsignalled = true)
    (hindex : ∀ n, c.headAt (n + 1) = n % maxQueueEntries ∧ c.tailAt n = n % maxQueueEntries)
    (hknows : c.Knows (s.accepted.length + 1) s.delivered.length) :
    MboxInv (s.store t msg c) := by
  subst hat
  have hbound : s.head < maxQueueEntries := by
    rw [hhead]
    exact Nat.mod_lt _ (by decide)
  have hlen : (s.accepted ++ [msg]).length = s.accepted.length + 1 := length_append
  rw [MboxSys.store, if_pos hbound]
  refine hI.move (t := t) (c := c) rfl ?_ ?_ ?_ ?_
  · obtain ⟨rest, hfiled⟩ := hI.filed
    refine ⟨rest ++ [msg], hfiled.store hroom ?_ rfl rfl⟩
    rw [← hhead]
    rfl
  · -- the entry is filled before the index moves
    refine Under.inside hI.guarded hold.1 hnew.1 fun _ => ⟨?_, htail.trans (hindex _).2.symm, ?_⟩
    · show s.head = c.headAt (s.accepted ++ [msg]).length
      rw [hlen, (hindex _).1, hhead]
    · show c.Knows (s.accepted ++ [msg]).length _
      rw [hlen]
      exact hknows
  · show s.sem + _ + _ + s.delivered.length + _ = _ + (s.accepted ++ [msg]).length
    rw [hold.2.1, hold.2.2, hnew.2.1, hnew.2.2, hlen]
    simp only [Bool.toNat_true, Bool.toNat_false]
    omega
  · obtain ⟨hlocked, -⟩ := hnew
    cases c <;> first | rfl | cases hlocked

theorem MboxInv.take (hpc : s.pc t = .fetchRead out) (got : Option Msg) :
    MboxInv ({ s with delivered := s.delivered ++ [s.qMem s.tail] }.goto t (.fetchBump got)) := by
  have hset := hI.settled hpc rfl
  have hpending := hI.counted.pending hpc (.inl rfl)
  refine hI.move (t := t) (c := .fetchBump got) rfl ?_ ?_ ?_ rfl
  · obtain ⟨rest, hfiled⟩ := hI.filed
    refine ⟨rest.tail, hfiled.take hpending rfl rfl ?_⟩
    rw [← show s.tail = s.delivered.length % maxQueueEntries from hset.tail]
    rfl
  · refine Under.inside hI.guarded (by rw [hpc]; rfl) rfl fun _ => ⟨hset.head, ?_, ?_⟩
    · have htail := hset.tail
      simp only [MboxPc.tailAt, MboxSys.goto, length_append, length_singleton,
        Nat.add_sub_cancel] at htail ⊢
      exact htail
    · simp [MboxPc.Knows, MboxSys.goto]
  · rw [hpc]
    show _ + (s.delivered ++ [s.qMem s.tail]).length + _ = _
    rw [length_append, length_singleton]
    simp only [MboxSys.goto, MboxPc.entitled, MboxPc.unsignalled, Bool.toNat_true,
      Bool.toNat_false]
    omega

theorem MboxInv.takeUnit (hat : s.pc t = d) (hunit : 0 < s.sem)
    (hold : d.locked = false ∧ d.entitled = false ∧ d.unsignalled = false) :
    MboxInv ({ s with sem := s.sem - 1 }.goto t (.fetchLock out)) := by
  subst hat
  refine hI.moveOnly (t := t) (c := .fetchLock out) rfl ?_ ?_ rfl
  · refine Under.outside hI.guarded hold.1 rfl ?_
    exact fun c hset => hset.congr
  · show s.sem - 1 + 1 + 0 = _
    rw [hold.2.1, hold.2.2]
    simp only [Bool.toNat_false]
    omega

theorem MboxInv.unlock (hpc : s.pc t = .unlock r) :
    MboxInv ({ s with lock := s.lock + 1 }.goto t (.idle (some r))) := by
  refine hI.moveOnly (t := t) (c := .idle (some r)) rfl ?_ (by rw [hpc]; rfl) rfl
  refine Under.release hI.guarded (by rw [hpc]; rfl) rfl ?_
  intro hset
  rw [hpc] at hset
  exact ⟨hset.head, hset.tail, trivial⟩

end

theorem Settled.room {s : MboxSys} (h : Settled s (.idle none)) {rest : List Msg}
    (hfiled : Filed s rest) (hfull : ¬ s.Full) :
    s.accepted.length + 1 < s.delivered.length + maxQueueEntries := by
  have hlen := hfiled.length
  have hbound := hfiled.bound
  have hne : (s.accepted.length + 1) % maxQueueEntries ≠
      s.delivered.length % maxQueueEntries := by
    intro heq
    apply hfull
    rw [MsgRing.Full, h.head, h.tail]
    exact (wrapIndex_succ_mod _).trans heq
  simp only [maxQueueEntries] at *
  omega

/-- **One statement.** -/
theorem MboxInv.run {s' : MboxSys} (hI : MboxInv s) (hp : prudent s (.run t) = true)
    (h : mboxRun s t = some s') : MboxInv s' := by
  obtain ⟨rest, hfiled⟩ := hI.filed
  have hsafe := hI.unbroken t
  rcases hpc : s.pc t with last | msg | msg | - | - | msg | msg | ⟨msg, n⟩ | ⟨msg, n⟩ | n |
    ⟨text, r⟩ | r | r | out | out | out | got | got | out | - | text | -
  all_goals simp only [mboxRun, hpc] at h
  case idle => cases h
  case postLock =>
    obtain ⟨s₁, hlock, rfl⟩ := Option.map_eq_some_iff.mp h
    simp only [prudent, hpc, Bool.not_eq_true', decide_eq_false_iff_not] at hp
    exact hI.takeLock hpc hlock rfl rfl rfl fun hidle =>
      ⟨hidle.head, hidle.tail, hidle.room hfiled hp⟩
  case postStore =>
    cases h
    have hset := hI.settled hpc rfl
    exact hI.store hpc hset.head hset.tail hset.knows ⟨rfl, rfl, rfl⟩ ⟨rfl, rfl, rfl⟩
      (fun _ => ⟨rfl, rfl⟩) trivial
  case postBump =>
    cases h
    exact hI.inside (c := .postWrap) hpc rfl fun hset =>
      ⟨congrArg (· + 1) hset.head, hset.tail, trivial⟩
  case postWrap =>
    cases h
    have hpending := hI.counted.pending hpc (.inr rfl)
    refine hI.inside (c := .assertRoom _ _) hpc rfl fun hset =>
      ⟨?_, hset.tail, trivial⟩
    show wrapIndex s.head = s.accepted.length % maxQueueEntries
    rw [hset.head, MboxPc.headAt, wrapIndex_succ_mod]
    congr 1
    omega
  case trypostLock | fetchLock =>
    obtain ⟨s₁, hlock, rfl⟩ := Option.map_eq_some_iff.mp h
    exact hI.takeLock hpc hlock rfl rfl rfl fun hidle => ⟨hidle.head, hidle.tail, trivial⟩
  case trypostHead =>
    cases h
    refine hI.inside (c := .trypostTest _ _) hpc rfl fun hset =>
      ⟨hset.head, hset.tail, ?_⟩
    show wrapIndex (s.head + 1) = _
    rw [hset.head]
    exact wrapIndex_succ_mod _
  case trypostTest =>
    have hset := hI.settled hpc rfl
    split at h
    · cases h
      exact hI.inside (c := .unlock _) hpc rfl fun _ =>
        ⟨hset.head, hset.tail, trivial⟩
    · rename_i hne
      cases h
      refine hI.inside (c := .trypostStore _ _) hpc rfl fun _ =>
        ⟨hset.head, hset.tail, hset.knows, ?_⟩
      -- the test it has just made is the one for a full ring
      have hidle : Settled s (.idle none) := ⟨hset.head, hset.tail, trivial⟩
      refine hidle.room hfiled fun hfull => hne ?_
      rw [show n = _ from hset.knows, ← hfull, hset.head]
      exact (wrapIndex_succ_mod _).symm
  case trypostStore =>
    cases h
    have hset := hI.settled hpc rfl
    exact hI.store hpc hset.head hset.tail hset.knows.2 ⟨rfl, rfl, rfl⟩ ⟨rfl, rfl, rfl⟩
      (fun _ => ⟨rfl, rfl⟩) hset.knows.1
  case trypostSet =>
    cases h
    exact hI.inside (c := .assertRoom _ _) hpc rfl fun hset =>
      ⟨hset.knows, hset.tail, trivial⟩
  case assertRoom =>
    have hset := hI.settled hpc rfl
    have hpending := hI.counted.pending hpc (.inr rfl)
    -- at least one message and less than a whole turn: the indices differ
    have hne : s.head ≠ s.tail := by
      have hlen := hfiled.length
      have hbound := hfiled.bound
      rw [hset.head, hset.tail]
      simp only [MboxPc.headAt, MboxPc.tailAt, maxQueueEntries] at *
      omega
    rw [if_pos hne] at h
    cases h
    exact hI.inside (c := .signal r) hpc rfl fun _ =>
      ⟨hset.head, hset.tail, trivial⟩
  case signal =>
    cases h
    exact hI.inside (c := .unlock r) hpc rfl fun hset =>
      ⟨hset.head, hset.tail, trivial⟩
  case unlock =>
    cases h
    exact hI.unlock hpc
  case fetchSem =>
    split at h
    · cases h
      exact hI.takeUnit hpc ‹_› ⟨rfl, rfl, rfl⟩
    · cases h
  case tryfetchSem =>
    simp only [prudent, hpc, decide_eq_true_eq] at hp
    rw [if_pos hp] at h
    cases h
    exact hI.takeUnit hpc hp ⟨rfl, rfl, rfl⟩
  case fetchRead =>
    have hset := hI.settled hpc rfl
    have hbound : s.tail < maxQueueEntries := by
      rw [hset.tail]
      exact Nat.mod_lt _ (by decide)
    rw [if_neg fun h => h.2 hbound] at h
    cases h
    exact hI.take hpc _
  case fetchBump =>
    cases h
    exact hI.inside (c := .fetchWrap got) hpc rfl fun hset =>
      ⟨hset.head, congrArg (· + 1) hset.tail, hset.knows⟩
  case fetchWrap =>
    cases h
    refine hI.inside (c := .unlock _) hpc rfl fun hset =>
      ⟨hset.head, ?_, trivial⟩
    show wrapIndex s.tail = s.delivered.length % maxQueueEntries
    rw [hset.tail, MboxPc.tailAt, wrapIndex_succ_mod]
    congr 1
    exact Nat.succ_pred_eq_of_pos hset.knows
  -- the points that are not reached
  all_goals
    rw [hpc] at hsafe
    cases hsafe

end Statements

/-! ### Whole runs -/

/-- **One step.**  Prudent threads keep the invariant. -/
theorem MboxInv.step {s s' : MboxSys} {a : MboxAct} (hI : MboxInv s) (hp : prudent s a = true)
    (h : mboxStep s a = some s') : MboxInv s' := by
  cases a with
  | call t c =>
    rw [mboxStep] at h
    split at h
    · rename_i last hpc
      obtain rfl := Option.some.inj h
      exact hI.call hpc c
    · cases h
  | run t => exact hI.run hp h

theorem MboxInv.start {mb : Mbox} (hmb : sysMboxNew true true = some mb) :
    MboxInv (MboxSys.start mb) := by
  obtain rfl := Option.some.inj hmb
  refine ⟨⟨[], rfl, by decide, ?_⟩, ⟨none, ⟨rfl, fun t => rfl⟩, rfl, rfl, trivial⟩,
    ⟨0, 0, Census.zero fun t => rfl, Census.zero fun t => rfl, rfl⟩, fun t => rfl⟩
  intro i hi
  exact absurd hi (Nat.not_lt_zero i)

theorem MboxInv.of_reach {mb : Mbox} {s : MboxSys} (hmb : sysMboxNew true true = some mb)
    (h : Reach mboxStep (fun s a => prudent s a = true) (MboxSys.start mb) s) : MboxInv s :=
  h.invariant (MboxInv.start hmb) fun _ _ _ hI hp hs => hI.step hp hs

theorem Settled.contents {s : MboxSys} (h : Settled s (.idle none)) {rest : List Msg}
    (hfiled : Filed s rest) : s.contents = rest := by
  have hlen := hfiled.length
  have hbound := hfiled.bound
  have hcount : (s.head + maxQueueEntries - s.tail) % maxQueueEntries = rest.length := by
    rw [h.head, h.tail]
    simp only [MboxPc.headAt, MboxPc.tailAt, maxQueueEntries] at *
    omega
  rw [MsgRing.contents, hcount]
  apply ext_getElem?
  intro i
  by_cases hi : i < rest.length
  · rw [hfiled.slot i hi, List.getElem?_map, List.getElem?_range hi, Option.map_some, h.tail]
    simp only [MboxPc.tailAt, Nat.mod_add_mod]
  · rw [List.getElem?_eq_none (by simpa using hi), List.getElem?_eq_none (by simpa using hi)]

theorem post_completes {s : MboxSys} {t : PThread} {msg : Msg} (hpc : s.pc t = .postLock msg)
    (hlock : 0 < s.lock) (hroom : ¬ s.Full) (hhead : s.head < maxQueueEntries) :
    ∃ s', guardedExec mboxStep (fun s a => prudent s a = true) s
        (List.replicate 7 (.run t)) = some s' ∧
      s'.pc t = .idle (some .posted) ∧ s'.accepted = s.accepted ++ [msg] ∧
      s'.delivered = s.delivered := by
  have hne : wrapIndex (s.head + 1) ≠ s.tail := hroom
  simp [guardedExec, List.replicate, mboxStep, prudent, mboxRun, hpc, MboxSys.takeLock, hlock,
    hroom, MboxSys.goto, MboxSys.store, hhead, hne]

/-- **The mailbox is a queue** for prudent threads, in every state they can
reach: what was delivered comes first in what was accepted, and the rest lies
intact in the ring; no assertion has failed; and a post that waits for room
goes through when there is some and the lock is free. -/
theorem mailbox_is_fifo {mb : Mbox} {s : MboxSys} (hmb : sysMboxNew true true = some mb)
    (h : Reach mboxStep (fun s a => prudent s a = true) (MboxSys.start mb) s) :
    s.delivered <+: s.accepted ∧
    (∃ rest, Filed s rest) ∧
    (s.lock = 1 → s.accepted = s.delivered ++ s.contents) ∧
    (∀ t text, s.pc t ≠ .failed text ∧ s.pc t ≠ .overrun) ∧
    (∀ t msg, s.pc t = .postLock msg → 0 < s.lock → ¬ s.Full →
      ∃ s', guardedExec mboxStep (fun s a => prudent s a = true) s
          (List.replicate 7 (.run t)) = some s' ∧
        s'.pc t = .idle (some .posted) ∧ s'.accepted = s.accepted ++ [msg] ∧
        s'.delivered = s.delivered) := by
  have hI := MboxInv.of_reach hmb h
  obtain ⟨rest, hfiled⟩ := hI.filed
  -- a lock that is free has no thread inside
  have hidle : 0 < s.lock → Settled s (.idle none) := fun hfree => Under.vacant hI.guarded hfree
  refine ⟨⟨rest, hfiled.accepted.symm⟩, ⟨rest, hfiled⟩, ?_, ?_, ?_⟩
  · intro hlock
    rw [(hidle (by omega)).contents hfiled]
    exact hfiled.accepted
  · intro t text
    have hsafe := hI.unbroken t
    constructor <;> intro hpc <;> rw [hpc] at hsafe <;> cases hsafe
  · intro t msg hpc hfree hroom
    refine post_completes hpc hfree hroom ?_
    rw [(hidle hfree).head]
    exact Nat.mod_lt _ (by decide)

/-- A call and all its statements. -/
def wholeCall (t : PThread) (c : MboxCall) (statements : Nat) : List MboxAct :=
  .call t c :: List.replicate statements (.run t)

def postsAndFetch : List MboxAct :=
  wholeCall 0 (.post 10) 7 ++ wholeCall 1 (.post 20) 7 ++ wholeCall 2 (.fetch true) 6

/-- Two posts and a fetch. -/
theorem fifo_two_posts :
    ∃ mb s, sysMboxNew true true = some mb ∧
      Reach mboxStep (fun s a => prudent s a = true) (MboxSys.start mb) s ∧
      s.accepted = [10, 20] ∧ s.delivered = [10] ∧ s.accepted = s.delivered ++ s.contents := by
  exact exists_reach_start_imp postsAndFetch
    (fun s => s.accepted = [10, 20] ∧ s.delivered = [10] ∧ s.lock = 1) (by decide +kernel)
    fun mb s hmb hreach ⟨hacc, hdel, hlock⟩ =>
      ⟨hacc, hdel, (mailbox_is_fifo hmb hreach).2.2.1 hlock⟩

/-- Ninety-nine posts, and one more up to its assertion. -/
def hundredPosts : List MboxAct :=
  (List.range 99).flatMap (fun i => wholeCall 0 (.post (UInt32.ofNat i)) 7) ++
    wholeCall 0 (.post 99) 5

/-- A try on the empty mailbox, two posts that are in the ring together, and a
fetch. -/
def postsAfterTry : List MboxAct :=
  wholeCall 0 (.tryfetch true) 2 ++
    [.call 1 (.post 10), .run 1, .call 2 (.post 20), .run 2, .run 1, .run 2] ++
    List.replicate 5 (.run 1) ++ List.replicate 5 (.run 2) ++ wholeCall 3 (.fetch true) 3

/-- **The two ways it fails.**  A hundred posts in a row: the last one
stores its message, finds `head` at `tail` and stops at its assertion with
the lock taken.  And a `sys_arch_mbox_tryfetch` on the empty mailbox: the
lock then lets two posts in at once, one overwrites the other's message, and
the first fetch delivers the second message. -/
theorem mailbox_not_fifo :
    (∃ mb s, sysMboxNew true true = some mb ∧
      Reach mboxStep (fun _ _ => True) (MboxSys.start mb) s ∧
      s.pc 0 = .failed "mbox is full" ∧ s.lock = 0) ∧
    (∃ mb s, sysMboxNew true true = some mb ∧
      Reach mboxStep (fun _ _ => True) (MboxSys.start mb) s ∧
      s.accepted = [10, 20] ∧ s.delivered = [20]) := by
  constructor
  · exact exists_reach_start hundredPosts (by decide +kernel)
  · exact exists_reach_start postsAfterTry (by decide +kernel)

end LibXenon
