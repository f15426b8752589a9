/-
LibXenon/CondSystem.lean

What a condition variable promises, and when it keeps it.

`cond_create` makes all three mutexes with `mutex_create`, which leaves every
unit free.  For `lock` that is right.  For `wait_sem` it means that a waiter
does not sleep at all as long as units are left, and that a release by a
signaller has no count to take off; the same goes for `wait_done`.

* With correct counting semaphores, a call of `cond_wait` returns without a
  signal.  When every waiter that comes back from `wait_sem` finds a signal
  pending, there are never more returns than selected waiters; and when
  besides no waiter registers while signals are pending, each return follows a
  selection made after the waiter registered (`returns_follow_signals`).
* With the unsigned counts of `mutex.c`, a signaller that overtakes a waiter
  on its way to `wait_sem` makes its count wrap, and so does a waiter that
  overtakes a signaller on its way to `wait_done`.  When neither happens all
  counts stay within their bounds (`counts_in_range`).
-/
import LibXenon.Cond

namespace LibXenon

open Semaphores Transition

/-! ### No return without a signal -/

/-- A waiter back from `wait_sem` finds a signal pending. -/
def signalled (s : CondSys) : CondAct → Bool
  | .run t =>
    match s.pc t with
    | .waitTest _ => decide (0 < s.signals)
    | _ => true
  | _ => true

/-- A waiter registers while no signal is pending for another one. -/
def unclaimed (s : CondSys) : CondAct → Bool
  | .run t =>
    match s.pc t with
    | .waitCount _ => decide (s.signals = 0)
    | _ => true
  | _ => true

/-- The waiter has had its signal and is about to return. -/
def CondPc.leaving : CondPc → Bool
  | .waitLeave _ | .waitUnlockBack _ | .waitRelock _ => true
  | _ => false

@[simp] theorem CondPc.leaving_posting (k n : Nat) : (posting k n).leaving = false := by
  cases k <;> rfl

@[simp] theorem CondPc.leaving_collecting (k : Nat) : (collecting k).leaving = false := by
  cases k <;> rfl

/-- Every waiter that has returned, or is about to, has eaten a signal. -/
def Paid (s : CondSys) : Prop :=
  ∃ n, Census (fun c => c.leaving.toNat) s.pc n ∧ s.returned + n = s.eaten

variable {dec : Int → Int} {maximum : CallerMutex → Nat} {s s' x : CondSys} {t : PThread}
  {p c c' : CondPc}

theorem Paid.move (h : Paid s) (hp : s.pc t = p) (hpc : x.pc = s.pc)
    (hsum : x.returned + c.leaving.toNat + s.eaten = s.returned + p.leaving.toNat + x.eaten) :
    Paid (x.goto t c) := by
  obtain ⟨n, hn, hreturned⟩ := h
  obtain ⟨n', hn', hsum'⟩ := hn.update t c
  subst hp
  rw [← hpc] at hn'
  refine ⟨n', hn', ?_⟩
  show x.returned + n' = x.eaten
  omega

theorem Paid.stmt (h : Paid s) (hp : s.pc t = p) (hstmt : CondStmt dec s t p c x)
    (hsig : signalled s (.run t) = true) : Paid (x.goto t c) := by
  cases hstmt with
  | waitEmpty m hpos =>
    -- without the condition this is where an unpaid waiter gets through
    simp only [signalled, hp, decide_eq_true_eq] at hsig
    exact absurd hsig hpos
  | waitEat m =>
    refine h.move hp rfl ?_
    show s.returned + 1 + s.eaten = s.returned + 0 + (s.eaten + 1)
    omega
  | broadcastCount n | post k n => exact h.move hp rfl (by rw [CondPc.leaving_posting]; rfl)
  | unlock n | collect k => exact h.move hp rfl (by rw [CondPc.leaving_collecting]; rfl)
  | _ => exact h.move hp rfl rfl

theorem Paid.step {a : CondAct} (h : Paid s) (hstep : condStep dec maximum s a = some s')
    (hsig : signalled s a = true) : Paid s' := by
  rcases condStep_cases hstep with
    ⟨t, p, c, x, rfl, hp, hstmt, rfl⟩ | ⟨t, c, mutex, holds, hidle, hc, rfl⟩
  · exact h.stmt hp hstmt hsig
  · refine h.move (x := { s with mutex := mutex, holds := holds }) hidle rfl ?_
    cases c <;> first | rfl | cases hc

/-! ### Each return after its own signal -/

/-- What a waiter that registered when `before` waiters were selected can
count on, with `eaten` signals eaten and `selected` waiters selected. -/
def CondPc.Since (before eaten selected : Nat) : CondPc → Prop
  | .waitUnlock _ | .waitRelease _ | .waitSleep _ | .waitBack _ | .waitTest _ | .waitAck _
  | .waitEat _ => before ≤ eaten
  | .waitLeave _ | .waitUnlockBack _ | .waitRelock _ => before < selected
  | _ => True

theorem CondPc.Since.mono {c : CondPc} {before eaten selected eaten' selected' : Nat}
    (h : c.Since before eaten selected) (heaten : eaten ≤ eaten')
    (hselected : selected ≤ selected') : c.Since before eaten' selected' := by
  cases c <;> simp only [CondPc.Since] at h ⊢ <;> omega

/-- Every thread can count on it. -/
def Fresh (s : CondSys) : Prop :=
  ∀ t, (s.pc t).Since (s.registeredAt t) s.eaten s.selected

theorem Fresh.move (h : Fresh s) (hpc : x.pc = s.pc)
    (hreg : ∀ u, u ≠ t → x.registeredAt u = s.registeredAt u) (heaten : s.eaten ≤ x.eaten)
    (hselected : s.selected ≤ x.selected)
    (hc : c.Since (x.registeredAt t) x.eaten x.selected) : Fresh (x.goto t c) := by
  intro u
  show CondPc.Since (x.registeredAt u) x.eaten x.selected (Function.update x.pc t c u)
  by_cases hu : u = t
  · rw [hu, Function.update_self]
    exact hc
  · rw [Function.update_of_ne hu, hpc, hreg u hu]
    exact (h u).mono heaten hselected

theorem Fresh.keep (h : Fresh s) (hp : s.pc t = p) (hpc : x.pc = s.pc)
    (hreg : x.registeredAt = s.registeredAt) (heaten : x.eaten = s.eaten)
    (hselected : s.selected ≤ x.selected)
    (hc : p.Since (s.registeredAt t) s.eaten s.selected →
      c.Since (s.registeredAt t) s.eaten x.selected) : Fresh (x.goto t c) := by
  refine h.move hpc (fun u _ => by rw [hreg]) heaten.ge hselected ?_
  rw [hreg, heaten]
  exact hc (hp ▸ h t)

theorem Fresh.stmt (h : Fresh s) (hI : CondInv s) (hp : s.pc t = p)
    (hstmt : CondStmt dec s t p c x) (hsig : signalled s (.run t) = true)
    (hclear : unclaimed s (.run t) = true) : Fresh (x.goto t c) := by
  cases hstmt with
  | waitCount m =>
    -- nothing is pending: what was selected has been eaten
    have hbalance := (hI.serialized.of_locked hp rfl).balance
    simp only [unclaimed, hp, decide_eq_true_eq] at hclear
    refine h.move rfl (fun u hu => Function.update_of_ne hu _ _) (le_refl _) (le_refl _) ?_
    show Function.update s.registeredAt t s.selected t ≤ s.eaten
    rw [Function.update_self]
    omega
  | waitEmpty m hpos =>
    simp only [signalled, hp, decide_eq_true_eq] at hsig
    exact absurd hsig hpos
  | waitEat m =>
    -- it eats a signal, so more were selected than had been eaten
    have hbooks := hI.serialized.of_locked hp rfl
    have hbalance := hbooks.balance
    have hpos : 0 < s.signals := hbooks.knows
    have hle : s.registeredAt t ≤ s.eaten := (hp ▸ h t : CondPc.Since _ _ _ (.waitEat m))
    refine h.move rfl (fun _ _ => rfl) (Nat.le_succ _) (le_refl _) ?_
    show s.registeredAt t < s.selected
    omega
  | signalCount => exact h.keep hp rfl rfl rfl (Nat.le_succ _) fun _ => trivial
  | broadcastCount n =>
    exact h.keep hp rfl rfl rfl (Nat.le_add_right _ _) fun _ => by cases n <;> trivial
  | post k n | unlock k | collect k =>
    exact h.keep hp rfl rfl rfl (le_refl _) fun _ => by cases k <;> trivial
  | _ => exact h.keep hp rfl rfl rfl (le_refl _) fun hsince => by first | exact hsince | trivial

theorem Fresh.step {a : CondAct} (h : Fresh s) (hI : CondInv s)
    (hstep : condStep dec maximum s a = some s') (hsig : signalled s a = true)
    (hclear : unclaimed s a = true) : Fresh s' := by
  rcases condStep_cases hstep with
    ⟨t, p, c, x, rfl, hp, hstmt, rfl⟩ | ⟨t, c, mutex, holds, hidle, hc, rfl⟩
  · exact h.stmt hI hp hstmt hsig hclear
  · refine h.keep (x := { s with mutex := mutex, holds := holds }) hidle rfl rfl rfl (le_refl _)
      fun _ => ?_
    cases c <;> trivial

/-- **Returns follow signals**, with correct counting semaphores, however the
threads interleave.  If every waiter back from `wait_sem` finds a signal
pending, the calls that have returned are no more than the waiters selected.
If besides waiters register only while no signal is pending, a waiter that is
about to return has registered before the last selection. -/
theorem returns_follow_signals (maximum : CallerMutex → Nat) (c : Cond)
    (hc : condCreate true true true = some c) :
    (∀ s, Reach (condStep idealRelease maximum) (fun s a => signalled s a = true)
        (CondSys.start c) s → s.returned ≤ s.selected) ∧
    (∀ s, Reach (condStep idealRelease maximum)
        (fun s a => signalled s a = true ∧ unclaimed s a = true) (CondSys.start c) s →
      ∀ t, (s.pc t).leaving = true → s.registeredAt t < s.selected) := by
  constructor
  · intro s hreach
    have hpaid : Paid s := by
      refine hreach.invariant ?_ fun _ _ _ h hg hs => h.step hs hg
      exact ⟨0, Census.zero fun t => rfl, rfl⟩
    obtain ⟨n, -, hreturned⟩ := hpaid
    obtain ⟨free, -, hunder⟩ := (CondInv.of_reach rfl hc hreach).serialized
    obtain ⟨_, hbooks⟩ := hunder.exists
    have hbalance := hbooks.balance
    have hnonneg := hbooks.nonneg
    omega
  · intro s hreach t hleaving
    have hboth : CondInv s ∧ Fresh s := by
      refine hreach.invariant (I := fun s => CondInv s ∧ Fresh s) ⟨CondInv.start hc, ?_⟩
        fun _ _ _ h hg hs => ⟨h.1.step rfl hs, h.2.step h.1 hs hg.1 hg.2⟩
      exact fun t => trivial
    have hsince := hboth.2 t
    rcases hpc : s.pc t with - | m | m | m | m | m | m | m | m | m | m | m | m | - | - | - | - | - |
      n | ⟨k, n⟩ | n | k <;> rw [hpc] at hsince hleaving <;> first | exact hsince | cases hleaving

/-- Thread 0, which holds mutex 0, calls `cond_wait` and gets as far as the
second acquisition of the lock. -/
def waiterPastSem : List CondAct := .acquire 0 0 :: .wait 0 0 :: List.replicate 5 (.run 0)

/-- Thread 1 calls `cond_signal` when the waiter is past `wait_sem`, and the
waiter returns after that. -/
theorem signal_then_return :
    ∃ c s s', condCreate true true true = some c ∧
      Reach (condStep idealRelease fun _ => 1)
        (fun s a => signalled s a = true ∧ unclaimed s a = true) (CondSys.start c) s ∧
      (s.pc 0).leaving = true ∧ s.registeredAt 0 < s.selected ∧
      Reach (condStep idealRelease fun _ => 1) (fun s a => signalled s a = true)
        (CondSys.start c) s' ∧
      s'.returned = 1 ∧ s'.returned ≤ s'.selected := by
  have hc := (rfl : condCreate true true true = some _)
  have hall := returns_follow_signals (fun _ => 1) _ hc
  obtain ⟨s, hreach, hleaving⟩ := exists_reach_imp (waiterPastSem ++ .signal 1 ::
      List.replicate 6 (.run 1) ++ List.replicate 6 (.run 0)) (fun s => (s.pc 0).leaving = true)
    (by decide +kernel) fun s hr h => And.intro h (hall.2 s hr 0 h)
  obtain ⟨s', hreach', hreturned⟩ := exists_reach_imp (waiterPastSem ++ .signal 1 ::
      List.replicate 6 (.run 1) ++ List.replicate 7 (.run 0)) (fun s => s.returned = 1)
    (by decide +kernel) fun s hr h => And.intro h (hall.1 s hr)
  exact ⟨_, s, s', hc, hreach, hleaving.1, hleaving.2, hreach', hreturned⟩

/-- **A return without a signal**: nobody signals, and the call comes back. -/
theorem return_without_signal :
    ∃ c s, condCreate true true true = some c ∧
      Reach (condStep idealRelease fun _ => 1) (fun _ _ => True) (CondSys.start c) s ∧
      s.selected = 0 ∧ s.returned = 1 := by
  exact exists_reach_start (waiterPastSem ++ List.replicate 5 (.run 0)) (by decide +kernel)

/-! ### No count wraps -/

/-- A signaller selects no more waiters than are past `wait_sem` without a
signal of their own, and a waiter takes a signal when fewer acquisitions of
`wait_done` are outstanding than signals. -/
def paced (s : CondSys) : CondAct → Bool
  | .run t =>
    match s.pc t with
    | .signalCount => decide (s.signals + 1 ≤ s.past)
    | .broadcastCount n => decide (s.signals + n ≤ s.past)
    | .waitAck _ => decide (s.outstanding < s.signals)
    | _ => true
  | _ => true

/-- How often the signaller has still to release `wait_sem`. -/
def CondPc.toPost : CondPc → Nat
  | .post k _ => k + 1
  | _ => 0

/-- The waiter has released `wait_done` for a signal that is still counted. -/
def CondPc.acked : CondPc → Nat
  | .waitEat _ => 1
  | _ => 0

/-- The waiter may have taken its signal and is still counted. -/
def CondPc.ate : CondPc → Nat
  | .waitLeave _ => 1
  | _ => 0

/-- While a signaller posts, every signal is for a waiter past `wait_sem`. -/
def CondPc.Covered (signals : Int) (past : Nat) : CondPc → Prop
  | .post _ _ => signals ≤ past
  | _ => True

/-- The two counts with the thread that has the lock at `c`. -/
structure Tally (s : CondSys) (c : CondPc) : Prop where
  sem : (s.past : Int) + c.toPost ≤ s.waitSem + s.signals + c.ate
  done : s.waitDone + s.outstanding + c.acked = s.signals
  semRange : 0 ≤ s.waitSem ∧ s.waitSem ≤ maxSemaphore
  doneRange : 0 ≤ s.waitDone ∧ s.waitDone ≤ maxSemaphore
  covered : c.Covered s.signals s.past

/-- What the tally is about. -/
def CondSys.counts (s : CondSys) : Int × Int × Int × Nat × Nat :=
  (s.waitSem, s.waitDone, s.signals, s.past, s.outstanding)

theorem CondSys.of_counts {sem done signals : Int} {past outstanding : Nat}
    (h : s.counts = (sem, done, signals, past, outstanding)) :
    s.waitSem = sem ∧ s.waitDone = done ∧ s.signals = signals ∧ s.past = past ∧
      s.outstanding = outstanding := by
  simpa only [CondSys.counts, Prod.mk.injEq] using h

theorem Tally.congr (h : Tally s c) (hcounts : s'.counts = s.counts)
    (hpost : c'.toPost = c.toPost) (hacked : c'.acked = c.acked) (hate : c.ate ≤ c'.ate)
    (hcovered : c'.Covered s.signals s.past) : Tally s' c' := by
  obtain ⟨hsem, hdone, hsignals, hpast, hout⟩ := CondSys.of_counts hcounts
  have hle := h.sem
  refine ⟨?_, ?_, hsem ▸ h.semRange, hdone ▸ h.doneRange, ?_⟩
  · rw [hpast, hsem, hsignals, hpost]
    omega
  · rw [hdone, hout, hsignals, hacked]
    exact h.done
  · rw [hsignals, hpast]
    exact hcovered

/-- A waiter gets its unit of `wait_sem`. -/
theorem Tally.sleep (h : Tally s c) (hlt : s.waitSem < maxSemaphore) (pc : PThread → CondPc) :
    Tally { s with waitSem := s.waitSem + 1, past := s.past + 1, pc := pc } c := by
  have hsem := h.sem
  have hrange := h.semRange
  refine ⟨?_, h.done, ?_, h.doneRange, ?_⟩
  · show ((s.past + 1 : Nat) : Int) + c.toPost ≤ s.waitSem + 1 + s.signals + c.ate
    omega
  · show 0 ≤ s.waitSem + 1 ∧ s.waitSem + 1 ≤ maxSemaphore
    omega
  · have hcovered := h.covered
    cases c <;> simp only [CondPc.Covered] at hcovered ⊢
    omega

/-- A signaller gets one of the units of `wait_done` that it owes. -/
theorem Tally.collect (h : Tally s c) (hlt : s.waitDone < maxSemaphore) (hout : 0 < s.outstanding)
    (pc : PThread → CondPc) :
    Tally { s with waitDone := s.waitDone + 1, outstanding := s.outstanding - 1, pc := pc } c := by
  have hdone := h.done
  have hrange := h.doneRange
  refine ⟨h.sem, ?_, h.semRange, ?_, h.covered⟩
  · show s.waitDone + 1 + ((s.outstanding - 1 : Nat) : Int) + c.acked = s.signals
    omega
  · show 0 ≤ s.waitDone + 1 ∧ s.waitDone + 1 ≤ maxSemaphore
    omega

theorem CondPc.counts_posting (k n : Nat) : (CondPc.posting k n).toPost = k ∧
    (CondPc.posting k n).acked = 0 ∧ (CondPc.posting k n).ate = 0 := by
  cases k <;> exact ⟨rfl, rfl, rfl⟩

/-- A signaller selects `n` waiters that are past `wait_sem`. -/
theorem Tally.select (h : Tally s c) (hc : c.toPost = 0 ∧ c.acked = 0 ∧ c.ate = 0) {n : Nat}
    (hroom : s.signals + n ≤ s.past)
    (hcounts : s'.counts = (s.waitSem, s.waitDone, s.signals + n, s.past, s.outstanding + n)) :
    Tally s' (.posting n n) := by
  obtain ⟨hsem, hdone, hsignals, hpast, hout⟩ := CondSys.of_counts hcounts
  have hle := h.sem
  have heq := h.done
  have hpost := CondPc.counts_posting n n
  refine ⟨?_, ?_, hsem ▸ h.semRange, hdone ▸ h.doneRange, ?_⟩
  · rw [hpast, hsem, hsignals, hpost.1, hpost.2.2]
    omega
  · rw [hdone, hout, hsignals, hpost.2.1]
    omega
  · rw [hsignals, hpast]
    cases n with
    | zero => trivial
    | succ n => exact hroom

/-- A signaller releases `wait_sem`: as many units are taken as there are releases to come. -/
theorem Tally.post {k n : Nat} (hdec : ∀ x, 0 < x → dec x = x - 1) (h : Tally s (.post k n))
    (pc : PThread → CondPc) :
    Tally { s with waitSem := dec s.waitSem, pc := pc } (.posting k n) := by
  have hsem : (s.past : Int) + (k + 1 : Nat) ≤ s.waitSem + s.signals + (0 : Nat) := h.sem
  have hcovered : s.signals ≤ s.past := h.covered
  have hrange := h.semRange
  have hpred : dec s.waitSem = s.waitSem - 1 := hdec _ (by omega)
  have hpost := CondPc.counts_posting k n
  refine ⟨?_, ?_, ?_, h.doneRange, ?_⟩
  · rw [hpost.1, hpost.2.2]
    show (s.past : Int) + k ≤ dec s.waitSem + s.signals + (0 : Nat)
    omega
  · rw [hpost.2.1]
    exact h.done
  · show 0 ≤ dec s.waitSem ∧ dec s.waitSem ≤ maxSemaphore
    omega
  · cases k with
    | zero => trivial
    | succ k => exact hcovered

/-- A waiter releases `wait_done`: a signaller has acquired the unit. -/
theorem Tally.ack {m : CallerMutex} (hdec : ∀ x, 0 < x → dec x = x - 1) (h : Tally s (.waitAck m))
    (hpaced : s.outstanding < s.signals) (pc : PThread → CondPc) :
    Tally { s with waitDone := dec s.waitDone, pc := pc } (.waitEat m) := by
  have hdone : s.waitDone + s.outstanding + 0 = s.signals := h.done
  have hrange := h.doneRange
  have hpred : dec s.waitDone = s.waitDone - 1 := hdec _ (by omega)
  refine ⟨h.sem, ?_, h.semRange, ?_, trivial⟩
  · show dec s.waitDone + s.outstanding + 1 = s.signals
    omega
  · show 0 ≤ dec s.waitDone ∧ dec s.waitDone ≤ maxSemaphore
    omega

theorem tallied_look (h : Serialized Tally s) (hp : s.pc t = p) (ht : p.locked = true)
    (hc : c.locked = true) (hpc : x.pc = s.pc) (hlock : x.lock = s.lock)
    (hcounts : x.counts = s.counts) (hpost : c.toPost = p.toPost) (hacked : c.acked = p.acked)
    (hate : p.ate ≤ c.ate) (hcovered : ∀ signals past, c.Covered signals past) :
    Serialized Tally (x.goto t c) :=
  h.inside hp ht hc hpc hlock fun htally => htally.congr hcounts hpost hacked hate (hcovered _ _)

/-- **A statement** of a paced thread keeps the tally. -/
theorem tallied_stmt (hdec : ∀ x, 0 < x → dec x = x - 1) (hI : CondInv s)
    (h : Serialized Tally s) (hp : s.pc t = p) (hstmt : CondStmt dec s t p c x)
    (hpaced : paced s (.run t) = true) : Serialized Tally (x.goto t c) := by
  have hlook {p c : CondPc} (hp : s.pc t = p) := tallied_look (c := c) (x := s) h hp
  have hlock {c : CondPc} (hlt : s.lock < 1) (hc : c.locked = true) (hpost : c.toPost = 0)
      (hacked : c.acked = 0) (hcovered : ∀ signals past, c.Covered signals past) :=
    h.takeLock (t := t) hlt hc fun htally =>
      htally.congr rfl hpost hacked (Nat.zero_le _) (hcovered _ _)
  have hunlock {c : CondPc} (ht : p.locked = true) (hc : c.locked = false)
      (hcounts : p.toPost = 0 ∧ p.acked = 0 ∧ p.ate = 0) :=
    h.release (hdec 1 one_pos) hp ht hc fun htally =>
      htally.congr rfl hcounts.1.symm hcounts.2.1.symm hcounts.2.2.le trivial
  cases hstmt with
  | waitCount m =>
    exact tallied_look h hp rfl rfl rfl rfl rfl rfl rfl (le_refl _) fun _ _ => trivial
  | waitUnlock m | waitUnlockBack m => exact hunlock rfl rfl ⟨rfl, rfl, rfl⟩
  | unlock n => exact hunlock rfl (CondPc.locked_collecting n) ⟨rfl, rfl, rfl⟩
  | waitRelease m | waitRelock m v =>
    exact h.outside hp rfl rfl rfl rfl fun c htally =>
      htally.congr rfl rfl rfl (le_refl _) htally.covered
  | waitSleep m hlt => exact h.outside hp rfl rfl rfl rfl fun c htally => htally.sleep hlt _
  | collect k hlt =>
    have howed : k + 1 ≤ s.outstanding := hI.located.owed_le hp
    exact h.outside hp rfl (CondPc.locked_collecting k) rfl rfl fun c htally =>
      htally.collect hlt (by omega) _
  | waitAck m =>
    simp only [paced, hp, decide_eq_true_eq] at hpaced
    exact h.inside hp rfl rfl rfl rfl fun htally => htally.ack hdec hpaced _
  | waitEat m =>
    refine h.inside hp rfl rfl rfl rfl fun htally => ?_
    have hsem : (s.past : Int) + (0 : Nat) ≤ s.waitSem + s.signals + (0 : Nat) := htally.sem
    have hdone : s.waitDone + s.outstanding + 1 = s.signals := htally.done
    refine ⟨?_, ?_, htally.semRange, htally.doneRange, trivial⟩
    · show (s.past : Int) + (0 : Nat) ≤ s.waitSem + (s.signals - 1) + (1 : Nat)
      omega
    · show s.waitDone + s.outstanding + (0 : Nat) = s.signals - 1
      omega
  | waitLeave m =>
    have hpast := hI.located.past_pos hp rfl
    refine h.inside hp rfl rfl rfl rfl fun htally => ?_
    have hsem : (s.past : Int) + (0 : Nat) ≤ s.waitSem + s.signals + (1 : Nat) := htally.sem
    refine ⟨?_, htally.done, htally.semRange, htally.doneRange, trivial⟩
    show ((s.past - 1 : Nat) : Int) + (0 : Nat) ≤ s.waitSem + s.signals + (0 : Nat)
    omega
  | signalCount =>
    simp only [paced, hp, decide_eq_true_eq] at hpaced
    exact h.inside hp rfl rfl rfl rfl fun htally => htally.select ⟨rfl, rfl, rfl⟩ hpaced rfl
  | broadcastCount n =>
    have hall : s.signals + n = s.waiting := (hI.serialized.of_locked hp rfl).knows
    simp only [paced, hp, decide_eq_true_eq] at hpaced
    refine h.inside hp rfl (CondPc.locked_posting n n) rfl rfl fun htally =>
      htally.select ⟨rfl, rfl, rfl⟩ hpaced ?_
    rw [hall]
    rfl
  | post k n =>
    exact h.inside hp rfl (CondPc.locked_posting k n) rfl rfl fun htally => htally.post hdec _
  | waitFound m | waitEmpty m | signalFound | signalNone | broadcastFound | broadcastNone =>
    exact hlook hp rfl rfl rfl rfl rfl rfl rfl (Nat.zero_le _) fun _ _ => trivial
  | _ => exact hlock ‹_› rfl rfl rfl fun _ _ => trivial

/-- **One step** of paced threads keeps the tally. -/
theorem tallied_step {a : CondAct} (hdec : ∀ x, 0 < x → dec x = x - 1) (hI : CondInv s)
    (h : Serialized Tally s) (hstep : condStep dec maximum s a = some s')
    (hpaced : paced s a = true) : Serialized Tally s' := by
  rcases condStep_cases hstep with
    ⟨t, p, c, x, rfl, hp, hstmt, rfl⟩ | ⟨t, c, mutex, holds, hidle, hc, rfl⟩
  · exact tallied_stmt hdec hI h hp hstmt hpaced
  · refine h.outside (x := { s with mutex := mutex, holds := holds }) hidle rfl ?_ rfl rfl
      fun c htally => htally.congr rfl rfl rfl (le_refl _) htally.covered
    cases c <;> first | rfl | cases hc

theorem unsignedRelease_of_pos (x : Int) (hx : 0 < x) : unsignedRelease x = x - 1 := by
  rw [unsignedRelease, uintPred_of_pos (by omega)]
  omega

/-- **The counts stay in range**, for the unsigned counts of `mutex.c`.  In
every run `0 ≤ signals ≤ waiting`, the lock's count is 0 or 1, and `past` and
`outstanding` are what the threads' positions say; in the runs of paced
threads the other two counts are within their bounds as well, so no release
has met a count of 0. -/
theorem counts_in_range (maximum : CallerMutex → Nat) (c : Cond)
    (hc : condCreate true true true = some c) :
    (∀ s, Reach (condStep unsignedRelease maximum) (fun _ _ => True) (CondSys.start c) s →
      (0 ≤ s.signals ∧ s.signals ≤ s.waiting) ∧ (0 ≤ s.lock ∧ s.lock ≤ 1) ∧
      Census (fun c => c.pastSem.toNat) s.pc s.past ∧
      Census CondPc.owed s.pc s.outstanding) ∧
    (∀ s, Reach (condStep unsignedRelease maximum) (fun s a => paced s a = true)
        (CondSys.start c) s →
      (0 ≤ s.signals ∧ s.signals ≤ s.waiting) ∧ (0 ≤ s.lock ∧ s.lock ≤ 1) ∧
      (0 ≤ s.waitSem ∧ s.waitSem ≤ maxSemaphore) ∧
      0 ≤ s.waitDone ∧ s.waitDone ≤ maxSemaphore) := by
  have hcounters : ∀ {s}, CondInv s →
      (0 ≤ s.signals ∧ s.signals ≤ s.waiting) ∧ 0 ≤ s.lock ∧ s.lock ≤ 1 := by
    intro s hI
    obtain ⟨free, -, hunder⟩ := hI.serialized
    obtain ⟨_, hbooks⟩ := hunder.exists
    exact ⟨⟨hbooks.nonneg, hbooks.le⟩, hI.serialized.lock_bounds⟩
  constructor
  · intro s hreach
    have hI := CondInv.of_reach rfl hc hreach
    exact ⟨(hcounters hI).1, (hcounters hI).2, hI.located.past, hI.located.outstanding⟩
  · intro s hreach
    have hboth : CondInv s ∧ Serialized Tally s := by
      refine hreach.invariant (I := fun s => CondInv s ∧ Serialized Tally s)
        ⟨CondInv.start hc, ?_⟩ fun _ _ _ h hp hs =>
          ⟨h.1.step rfl hs, tallied_step unsignedRelease_of_pos h.1 h.2 hs hp⟩
      obtain rfl := Option.some.inj hc
      exact ⟨1, rfl, none, ⟨rfl, fun t => rfl⟩, le_refl _, rfl, by decide, by decide, trivial⟩
    obtain ⟨free, -, hunder⟩ := hboth.2
    obtain ⟨_, htally⟩ := hunder.exists
    exact ⟨(hcounters hboth.1).1, (hcounters hboth.1).2, htally.semRange, htally.doneRange⟩

/-- The waiter is past `wait_sem` when it is signalled, and the signaller past
`wait_done` when the waiter answers. -/
theorem counts_after_signal :
    ∃ c s, condCreate true true true = some c ∧
      Reach (condStep unsignedRelease fun _ => 1) (fun s a => paced s a = true)
        (CondSys.start c) s ∧
      s.returned = 1 ∧ 0 ≤ s.waitSem ∧ s.waitSem ≤ maxSemaphore ∧
      0 ≤ s.waitDone ∧ s.waitDone ≤ maxSemaphore := by
  refine exists_reach_start_imp (waiterPastSem ++ .signal 1 :: List.replicate 6 (.run 1) ++
    List.replicate 7 (.run 0)) (fun s => s.returned = 1) (by decide +kernel)
    fun c s hc hreach hreturned => ⟨hreturned, ?_⟩
  obtain ⟨-, -, ⟨hsem, hsemMax⟩, hdone⟩ := (counts_in_range (fun _ => 1) c hc).2 s hreach
  exact ⟨hsem, hsemMax, hdone⟩

/-- **Both counts wrap.**  A signal that finds the waiter registered and not
yet at `wait_sem` releases a semaphore whose count is 0; and a waiter that
answers before the signaller has acquired `wait_done` does the same to that
one. -/
theorem counts_wrap :
    (∃ c s, condCreate true true true = some c ∧
      Reach (condStep unsignedRelease fun _ => 1) (fun _ _ => True) (CondSys.start c) s ∧
      s.waitSem = 4294967295) ∧
    (∃ c s, condCreate true true true = some c ∧
      Reach (condStep unsignedRelease fun _ => 1) (fun _ _ => True) (CondSys.start c) s ∧
      s.waitDone = 4294967295) := by
  constructor
  · exact exists_reach_start (.acquire 0 0 :: .wait 0 0 :: List.replicate 4 (.run 0) ++
      .signal 1 :: List.replicate 4 (.run 1)) (by decide +kernel)
  · exact exists_reach_start (waiterPastSem ++ .signal 1 :: List.replicate 5 (.run 1) ++
      List.replicate 3 (.run 0)) (by decide +kernel)

end LibXenon
