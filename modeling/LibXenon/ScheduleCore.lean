/-
LibXenon/ScheduleCore.lean

Which thread `thread_schedule_core` returns.

A thread is *runnable* at a time when it is valid, not terminated, not
suspended, and not asleep or due to wake up.  The function is meant to choose
among all runnable threads of the processor, those on the swap list included,
and to reap every dead thread of the ring on the way.

Two things make it miss a thread.  The first pass stops when it comes back to
`FirstThread`, and reaping the first thread moves `FirstThread` to the very
thread the scan is about to look at; so a dead first thread ends the scan.  And
the timers are looked at before the swap list is taken over, so a thread on the
swap list sleeps on although its time has passed.

`AllSeen` is the condition under which neither happens, and
`threadScheduleCore_choice` what the function does then.
-/
import LibXenon.SchedulerPass

namespace LibXenon

open Links List

variable {m m' : Machine} {p : Processor} {R S : List PThread} {x : PThread} {clock : Nat}
  {thr : Thread}

/-! ### Runnable threads -/

/-- The clock has passed a time: the signed difference of the two is negative. -/
def Passed64 (clock time : Nat) : Prop := 2 ^ 63 ≤ (time + clockWidth - clock) % clockWidth

instance (clock time : Nat) : Decidable (Passed64 clock time) :=
  inferInstanceAs (Decidable (_ ≤ _))

/-- May be given the processor at this time. -/
structure Thread.Runnable (clock : Nat) (thr : Thread) : Prop where
  valid : thr.valid = true
  alive : thr.threadTerminated = false
  resumed : thr.suspendCount = 0
  awake : thr.sleepTime = 0 ∨ Passed64 clock thr.sleepTime

/-- Asleep, and due to wake up. -/
def Thread.Overdue (clock : Nat) (thr : Thread) : Prop :=
  thr.sleepTime ≠ 0 ∧ Passed64 clock thr.sleepTime

theorem ready_iff (thr : Thread) : thr.ready = true ↔ thr.valid = true ∧
    thr.threadTerminated = false ∧ thr.suspendCount = 0 ∧ thr.sleepTime = 0 := by
  simp only [Thread.ready, Bool.and_eq_true, Bool.not_eq_true', beq_iff_eq]
  constructor
  · rintro ⟨⟨⟨halive, hresumed⟩, hsleep⟩, hvalid⟩
    exact ⟨hvalid, halive, hresumed, hsleep⟩
  · rintro ⟨hvalid, halive, hresumed, hsleep⟩
    exact ⟨⟨⟨halive, hresumed⟩, hsleep⟩, hvalid⟩

theorem ready_processTimer : (processTimer clock thr).ready = true ↔ thr.Runnable clock := by
  have hsleep : (processTimer clock thr).sleepTime = 0 ↔
      thr.sleepTime = 0 ∨ Passed64 clock thr.sleepTime := by
    unfold processTimer Passed64
    split
    · rename_i hne
      split
      · rename_i hpassed
        exact ⟨fun _ => .inr hpassed, fun _ => rfl⟩
      · rename_i hfuture
        exact ⟨fun hz => absurd hz hne, fun hor => absurd hor (not_or.mpr ⟨hne, hfuture⟩)⟩
    · rename_i hz
      exact ⟨.inl, fun _ => not_not.mp hz⟩
  obtain ⟨v, hv⟩ := processTimer_eq clock thr
  rw [ready_iff, hsleep, hv]
  exact ⟨fun h => ⟨h.1, h.2.1, h.2.2.1, h.2.2.2⟩, fun h => ⟨h.1, h.2, h.3, h.4⟩⟩

theorem ready_of_not_overdue (h : ¬ thr.Overdue clock) :
    thr.ready = true ↔ thr.Runnable clock := by
  have hsame : processTimer clock thr = thr := by
    unfold processTimer
    split
    · rename_i hne
      exact if_neg fun hpassed => h ⟨hne, hpassed⟩
    · rfl
  rw [← ready_processTimer, hsame]

theorem ready_settle : (settle clock thr).ready = true ↔ thr.Runnable clock := by
  rw [settle]
  split
  · rename_i hdead
    -- a dead thread is made invalid, and was terminated before
    have hterm : thr.threadTerminated = true := (Bool.and_eq_true_iff.mp hdead).1
    refine ⟨fun hready => ?_, fun hrun => ?_⟩
    · exact absurd ((ready_iff _).mp hready).1 Bool.false_ne_true
    · rw [hrun.alive] at hterm
      cases hterm
  · exact ready_processTimer

/-! ### What a pass misses -/

/-- Neither a dead thread of the ring nor an overdue one is missed. -/
structure AllSeen (m : Machine) (R S : List PThread) : Prop where
  /-- A dead first thread is the only dead one, and no other is overdue. -/
  first : ∀ t l, R = t :: l → m.dead t = true →
    l ≠ [] ∧ ∀ x ∈ l, m.dead x = false ∧ ¬ (m.thread x).Overdue m.clock
  swap : ∀ x ∈ S, ¬ (m.thread x).Overdue m.clock

theorem AllSeen.survivors (h : AllSeen m R S) :
    survivors m.dead R = R.filter fun x => !m.dead x := by
  cases R with
  | nil => rfl
  | cons t l =>
    rw [LibXenon.survivors]
    rcases hd : m.dead t with - | -
    · rw [if_neg Bool.false_ne_true, filter_cons_of_pos (by rw [hd]; rfl)]
    · have hall := (h.first t l rfl hd).2
      rw [filter_cons_of_neg (by rw [hd]; exact Bool.false_ne_true)]
      exact (filter_eq_self.mpr fun x hx => by rw [(hall x hx).1]; rfl).symm

theorem AllSeen.exists_live (h : AllSeen m R S) (hne : R ≠ []) : ∃ x ∈ R, m.dead x = false := by
  obtain ⟨t, l, rfl⟩ := exists_cons_of_ne_nil hne
  rcases hd : m.dead t with - | -
  · exact ⟨t, mem_cons_self, hd⟩
  · obtain ⟨hl, hall⟩ := h.first t l rfl hd
    obtain ⟨b, r, rfl⟩ := exists_cons_of_ne_nil hl
    exact ⟨b, by simp, (hall b mem_cons_self).1⟩

theorem AllSeen.ready_settled (h : AllSeen m R S) (hdis : ∀ x ∈ S, x ∉ R) (hx : x ∈ R ++ S) :
    (settled p m R S x).ready = true ↔ (m.thread x).Runnable m.clock := by
  have hadopt : (settled p m R S x).ready = (if x ∈ scanned m.dead R
      then settle m.clock (m.thread x) else m.thread x).ready := by
    rw [settled]
    split <;> rfl
  rw [hadopt]
  by_cases hscan : x ∈ scanned m.dead R
  · rw [if_pos hscan]
    exact ready_settle
  · rw [if_neg hscan]
    refine ready_of_not_overdue ?_
    rcases mem_append.mp hx with hxR | hxS
    · -- the scan has stopped in front of it, at a dead first thread
      cases R with
      | nil => cases hxR
      | cons t l =>
        rw [scanned] at hscan
        rcases hd : m.dead t with - | -
        · rw [hd, if_neg Bool.false_ne_true] at hscan
          exact absurd hxR hscan
        · rw [hd, if_pos rfl, mem_singleton] at hscan
          exact ((h.first t l rfl hd).2 x (mem_of_ne_of_mem hscan hxR)).2
    · exact h.swap x hxS

theorem Thread.Runnable.not_dead (h : (m.thread x).Runnable m.clock) : m.dead x = false := by
  rw [Machine.dead, Thread.reapable, h.alive]
  rfl

theorem AllSeen.mem_settledReady (h : AllSeen m R S) (hdis : ∀ x ∈ S, x ∉ R) :
    x ∈ settledReady p m R S ↔ x ∈ R ++ S ∧ (m.thread x).Runnable m.clock := by
  rw [settledReady, mem_reverse, mem_filter, preparedRing, h.survivors,
    mem_append, mem_reverse, mem_filter]
  constructor
  · rintro ⟨hmem, hready⟩
    have hx : x ∈ R ++ S := by
      rcases hmem with hxS | ⟨hxR, -⟩
      · exact mem_append_right R hxS
      · exact mem_append_left S hxR
    exact ⟨hx, (h.ready_settled hdis hx).mp hready⟩
  · rintro ⟨hx, hrun⟩
    refine ⟨?_, (h.ready_settled hdis hx).mpr hrun⟩
    rcases mem_append.mp hx with hxR | hxS
    · exact .inr ⟨hxR, by rw [hrun.not_dead]; rfl⟩
    · exact .inl hxS

/-! ### The choice -/

theorem level_settled (m : Machine) (R S : List PThread) (x : PThread) :
    (settled p m R S x).level = (m.thread x).level :=
  settled_field Thread.level p m R S x

theorem priorityBoost_boost_settled (hbody : thr.body = (settled p m R S x).body) :
    thr.boost.priorityBoost = if (m.thread x).priorityBoost < (m.thread x).maxPriorityBoost
      then (m.thread x).priorityBoost + 1 else (m.thread x).priorityBoost := by
  have hboost : thr.priorityBoost = (m.thread x).priorityBoost :=
    (congrArg Thread.priorityBoost hbody).trans
      (settled_field Thread.priorityBoost p m R S x)
  have hmax : thr.maxPriorityBoost = (m.thread x).maxPriorityBoost :=
    (congrArg Thread.maxPriorityBoost hbody).trans
      (settled_field Thread.maxPriorityBoost p m R S x)
  rw [Thread.boost, hboost, hmax]
  split
  · rfl
  · exact hboost

theorem Ringed.boostLosers {l ready : List PThread} (h : Ringed m p l) (win : PThread)
    (hn : ready.Nodup) :
    Ringed { m with thread := LibXenon.boostLosers win m.thread ready } p l := by
  refine h.congr (fun x _ => ?_) (fun x _ => ?_) rfl rfl
  · change (LibXenon.boostLosers win m.thread ready x).next .run = _
    rw [boostLosers_spec win ready m.thread hn]
    split
    · exact plain_boost.next .run _
    · rfl
  · change (LibXenon.boostLosers win m.thread ready x).prev .run = _
    rw [boostLosers_spec win ready m.thread hn]
    split
    · exact plain_boost.prev .run _
    · rfl

theorem AllSeen.valid_settled (h : AllSeen m R S) (hn : R.Nodup) (hdis : ∀ x ∈ S, x ∉ R)
    (hx : x ∈ R) (hdead : m.dead x = true) : (settled p m R S x).valid = false := by
  have hscan : x ∈ scanned m.dead R := by
    by_contra hout
    have hsurv := (mem_survivors_iff hn hx).mpr fun hand => hout hand.1
    rw [h.survivors, mem_filter, hdead] at hsurv
    exact Bool.false_ne_true hsurv.2
  have hreap : (m.thread x).reapable = true := hdead
  rw [settled, if_pos hscan, if_neg fun hxS => hdis x hxS hx, settle_eq]
  rw [hreap, Bool.not_true, Bool.and_false]

/-- **The choice of `thread_schedule_core`.**  On a ring and a swap list in
which nothing is missed, with a runnable thread, the function comes to its end.
It returns a runnable thread, ready now, and no other runnable thread has a
higher level; every other one is boosted; and the dead threads of the ring have
left it and are no longer valid. -/
theorem threadScheduleCore_choice (fuel : Nat) (h : Ringed m p R) (hne : R ≠ [])
    (hS : Swapped m p S) (hdis : ∀ x ∈ S, x ∉ R) (hfull : ∀ x ∈ R, FullLinked m x)
    (hseen : AllSeen m R S) (hrun : ∃ x ∈ R ++ S, (m.thread x).Runnable m.clock)
    (hfuel : S.length + R.length < fuel) :
    ∃ m' win, threadScheduleCore fuel m p = some (m', win) ∧
      (win ∈ R ++ S ∧ (m.thread win).Runnable m.clock ∧ (m'.thread win).ready = true) ∧
      (∀ x ∈ R ++ S, x ≠ win → (m.thread x).Runnable m.clock →
        (m.thread x).level ≤ (m.thread win).level ∧
        (m'.thread x).priorityBoost =
          if (m.thread x).priorityBoost < (m.thread x).maxPriorityBoost
            then (m.thread x).priorityBoost + 1 else (m.thread x).priorityBoost) ∧
      Ringed m' p (S.reverse ++ R.filter fun x => !m.dead x) ∧
      ∀ x ∈ R, m.dead x = true → (m'.thread x).valid = false := by
  obtain ⟨y, hy, hyrun⟩ := hrun
  have hyready := (hseen.mem_settledReady (p := p) hdis).mpr ⟨hy, hyrun⟩
  rw [settledReady, mem_reverse, mem_filter] at hyready
  obtain ⟨m₂, win, hcore, hringed, -, -, hbody, hforemost⟩ :=
    threadScheduleCore_spec fuel h hS hdis hfull (hseen.exists_live hne) ⟨y, hyready⟩ hfuel
  have hn : (settledReady p m R S).Nodup := nodup_reverse.mpr (hringed.nodup.filter _)
  obtain ⟨hwinmem, hwinrun⟩ := (hseen.mem_settledReady hdis).mp hforemost.mem
  have hthread : ∀ x, boostLosers win m₂.thread (settledReady p m R S) x
      = if x ∈ settledReady p m R S ∧ x ≠ win then (m₂.thread x).boost else m₂.thread x :=
    boostLosers_spec win _ m₂.thread hn
  refine ⟨_, win, hcore, ⟨hwinmem, hwinrun, ?_⟩, fun x hx hxw hxrun => ?_, ?_, fun x hx hdead => ?_⟩
  · dsimp only
    rw [hthread, if_neg fun hand => hand.2 rfl]
    have hready := congrArg Thread.ready (hbody win)
    exact hready.trans ((hseen.ready_settled hdis hwinmem).mpr hwinrun)
  · have hxready := (hseen.mem_settledReady (p := p) hdis).mpr ⟨hx, hxrun⟩
    have hlevel := hforemost.level_le hxready
    dsimp only at hlevel ⊢
    rw [level_settled, level_settled] at hlevel
    rw [hthread, if_pos ⟨hxready, hxw⟩]
    exact ⟨hlevel, priorityBoost_boost_settled (hbody x)⟩
  · have hring := hringed.boostLosers win hn
    rw [preparedRing, hseen.survivors] at hring
    exact hring
  · -- a dead thread is not ready, so it is no loser of the choice
    have hnot : x ∉ settledReady p m R S := fun hmem => by
      rw [((hseen.mem_settledReady hdis).mp hmem).2.not_dead] at hdead
      cases hdead
    dsimp only
    rw [hthread, if_neg fun hand => hnot hand.1]
    exact (congrArg Thread.valid (hbody x)).trans (hseen.valid_settled h.nodup hdis hx hdead)

/-! ### Rings of a few threads -/

/-- Processor 0 with the ring `0, …, n - 1`, all on the full list, and a swap
list of the one thread `n` if there is one. -/
def fewThreads (n : Nat) (swapped : Bool) (body : PThread → Thread) : Machine where
  thread i :=
    if i = n then body i
    else
      { body i with
        nextThread := some ((i + 1) % n)
        previousThread := some ((i + n - 1) % n)
        nextThreadFull := some ((i + 1) % n)
        previousThreadFull := some ((i + n - 1) % n) }
  processor _ :=
    { firstThread := some 0
      lastThread := some (n - 1)
      firstSwapProcess := if swapped then some n else none }
  clock := 100

theorem next_fewThreads {n i : Nat} (hi : i ≠ n) (swapped : Bool) (body : PThread → Thread)
    (c : Chain) : (fewThreads n swapped body).next c i = some ((i + 1) % n) ∧
      (fewThreads n swapped body).prev c i = some ((i + n - 1) % n) := by
  rw [Machine.next, Machine.prev, fewThreads]
  dsimp only
  rw [if_neg hi]
  cases c <;> exact ⟨rfl, rfl⟩

theorem ringed_fewThreads (n : Nat) (swapped : Bool) (body : PThread → Thread) :
    Ringed (fewThreads (n + 1) swapped body) 0 (List.range (n + 1)) := by
  have hlinks {i : Nat} (hi : i < n + 1) :=
    next_fewThreads (Nat.ne_of_lt hi) swapped body .run
  refine ⟨nodup_range, (Cycle.chain_range_succ _ n).mpr ⟨?_, fun i hi => ?_⟩, ?_, ?_⟩
  · rw [Linked, (hlinks (Nat.lt_succ_self n)).1, (hlinks (Nat.zero_lt_succ n)).2,
      Nat.mod_self, Nat.zero_add, Nat.add_sub_cancel, Nat.mod_eq_of_lt (Nat.lt_succ_self n)]
    exact ⟨rfl, rfl⟩
  · have hback : i.succ + (n + 1) - 1 = i + (n + 1) := by omega
    rw [Linked, (hlinks (by omega : i < n + 1)).1, (hlinks (by omega : i.succ < n + 1)).2, hback,
      Nat.mod_eq_of_lt (by omega), Nat.add_mod_right, Nat.mod_eq_of_lt (by omega)]
    exact ⟨rfl, rfl⟩
  · rw [range_succ_eq_map]
    rfl
  · rw [range_succ, List.getLast?_concat]
    rfl

theorem fullLinked_fewThreads (n : Nat) (swapped : Bool) (body : PThread → Thread) :
    ∀ x ∈ List.range n, FullLinked (fewThreads n swapped body) x := by
  intro x hx
  obtain ⟨hnext, hprev⟩ :=
    next_fewThreads (Nat.ne_of_lt (mem_range.mp hx)) swapped body .full
  rw [FullLinked, hnext, hprev]
  exact ⟨Option.some_ne_none _, Option.some_ne_none _⟩

def readyThread : Thread := { valid := true, handleOpen := true, priority := 7 }

def deadThread : Thread := { valid := true, threadTerminated := true }

/-- Of the highest priority, and due since time 50. -/
def overdueThread : Thread := { readyThread with priority := 15, sleepTime := 50 }

/-- A ready thread in front, a dead and an overdue one behind it. -/
def firstReady : Machine :=
  fewThreads 3 false fun i => if i = 0 then readyThread else if i = 1 then deadThread else overdueThread

theorem threadScheduleCore_firstReady :
    ∃ m' win, threadScheduleCore 4 firstReady 0 = some (m', win) ∧
      (firstReady.thread win).Runnable firstReady.clock ∧ (m'.thread win).ready = true ∧
      (m'.thread 1).valid = false := by
  have hseen : AllSeen firstReady [0, 1, 2] [] := by
    refine ⟨fun t l hl hdead => ?_, fun x hx => nomatch hx⟩
    cases hl
    cases hdead
  have hrun : (firstReady.thread 0).Runnable firstReady.clock := ⟨rfl, rfl, rfl, .inl rfl⟩
  obtain ⟨m', win, hcore, ⟨-, hwin, hready⟩, -, -, hreaped⟩ :=
    threadScheduleCore_choice 4 (ringed_fewThreads 2 false _) (cons_ne_nil 0 [1, 2])
      ⟨nodup_nil, NullList.nil, rfl, rfl⟩ (fun x hx => nomatch hx)
      (fullLinked_fewThreads 3 false _) hseen ⟨0, by decide, hrun⟩ (by decide)
  exact ⟨m', win, hcore, hwin, hready, hreaped 1 (by decide) (by decide)⟩

/-- A dead thread in front, and behind it a ready, a dead and an overdue one. -/
def firstDead : Machine :=
  fewThreads 4 false fun i =>
    if i = 1 then readyThread else if i = 3 then overdueThread else deadThread

/-- A ready thread, and an overdue one on the swap list. -/
def overdueSwap : Machine :=
  fewThreads 1 true fun i => if i = 0 then readyThread else overdueThread

/-- Behind a dead first thread a dead one stays and an overdue one of a higher
level is passed over; and so is an overdue one of the swap list. -/
theorem threads_missed :
    (Ringed firstDead 0 [0, 1, 2, 3] ∧ Swapped firstDead 0 [] ∧
      (∀ x ∈ [0, 1, 2, 3], FullLinked firstDead x) ∧
      (firstDead.thread 3).Runnable firstDead.clock ∧ firstDead.dead 2 = true ∧
      (firstDead.thread 1).level < (firstDead.thread 3).level ∧
      (threadScheduleCore 5 firstDead 0).map (fun r => (r.2, (r.1.thread 2).valid))
        = some (1, true)) ∧
    (Ringed overdueSwap 0 [0] ∧ Swapped overdueSwap 0 [1] ∧
      (∀ x ∈ [0], FullLinked overdueSwap x) ∧
      (overdueSwap.thread 1).Runnable overdueSwap.clock ∧
      (overdueSwap.thread 0).level < (overdueSwap.thread 1).level ∧
      (threadScheduleCore 3 overdueSwap 0).map Prod.snd = some 0) := by
  have hpassed : Passed64 100 50 := by decide
  have hswap : Swapped overdueSwap 0 [1] := by
    refine ⟨nodup_singleton 1, ⟨Seg.singleton 1, fun a ha => ?_, fun z hz => ?_⟩, rfl, rfl⟩
    · cases ha
      rfl
    · cases hz
      rfl
  refine ⟨⟨ringed_fewThreads 3 false _, ⟨nodup_nil, NullList.nil, rfl, rfl⟩,
    fullLinked_fewThreads 4 false _, ⟨rfl, rfl, rfl, .inr hpassed⟩, by decide, by decide,
    by decide⟩, ringed_fewThreads 0 true _, hswap, fullLinked_fewThreads 1 true _,
    ⟨rfl, rfl, rfl, .inr hpassed⟩, by decide, by decide⟩

end LibXenon
