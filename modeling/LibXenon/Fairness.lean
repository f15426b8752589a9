/-
LibXenon/Fairness.lean

Who is chosen, and how soon.

The losers of a scheduling pass are boosted, up to `MaxPriorityBoost`, and the
winner's boost is cleared: among threads of equal priority and maximal boost a
pass is a round of `Ageing`, with the boosts as ages, as long as every other
thread of the ring stays below their priority.  Between two passes on the
processor anything may happen that keeps to this.

* `chosen_within` — of `n` such threads, `n` at most `MaxPriorityBoost + 1`,
  each is chosen in every `MaxPriorityBoost + n` consecutive passes;
* `Online.starved` — with more threads, the one that comes first in the ring,
  hence last in the ready list, is passed over for ever once the boosts below
  the maximum are distinct.  `seven_threads_starve` is such a run, with the
  priorities and boosts that `thread_create` gives;
* `chosen_of_outgrows` — a thread whose maximal level is above that of every
  other thread of its ring is chosen in every `MaxPriorityBoost + 1` consecutive
  calls of `thread_schedule`.
-/
import LibXenon.ThreadSystem
import LibXenon.ScheduleCore
import LibXenon.Ageing

namespace LibXenon

open Links Transition Ageing List

variable {m m' m₁ : Machine} {L L' : Layout} {p q : Processor} {t x z w win : PThread}
variable {S : Finset PThread} {P M : Nat} {ws : List PThread}

/-! ### Contending threads -/

/-- The threads of `S` are ready in the ring of `p`, all with priority `P` and
maximal boost `M`, and no boost takes another thread of the ring that far. -/
structure Contending (p : Processor) (S : Finset PThread) (P M : Nat) (m : Machine) : Prop where
  member : ∀ t ∈ S, t ∈ ringList m p ∧ (m.thread t).ready = true ∧
    (m.thread t).priority = P ∧ (m.thread t).maxPriorityBoost = M
  other : ∀ u ∈ ringList m p, u ∉ S → (m.thread u).priority + (m.thread u).maxPriorityBoost < P

instance (p : Processor) (S : Finset PThread) (P M : Nat) (m : Machine) :
    Decidable (Contending p S P M m) :=
  decidable_of_iff
    ((∀ t ∈ S, t ∈ ringList m p ∧ (m.thread t).ready = true ∧
      (m.thread t).priority = P ∧ (m.thread t).maxPriorityBoost = M) ∧
      ∀ u ∈ ringList m p, u ∉ S → (m.thread u).priority + (m.thread u).maxPriorityBoost < P)
    ⟨fun h => ⟨h.1, h.2⟩, fun h => ⟨h.member, h.other⟩⟩

/-- No boost is above its maximum. -/
def Capped (m : Machine) : Prop :=
  ∀ t, (m.thread t).valid = true → (m.thread t).priorityBoost ≤ (m.thread t).maxPriorityBoost

/-- No maximum is set below the boost there is. -/
def KeepsCeiling (m : Machine) : ThreadAct → Prop
  | .setPriorityBoost t boost => (m.thread t).priorityBoost ≤ boost % 256
  | _ => True

/-- Consecutive passes on `p` that choose `ws`, with other actions between
them; `C` holds throughout. -/
inductive Window (p : Processor) (C : Machine → Prop) : Machine → List PThread → Machine → Prop
  | done {m : Machine} : C m → Window p C m [] m
  | pass {m m₁ m' : Machine} {w : PThread} {ws : List PThread} :
      C m → threadStep m (.pass p) = some m₁ → (m₁.processor p).currentThread = some w →
      Window p C m₁ ws m' → Window p C m (w :: ws) m'
  | other {m m₁ m' : Machine} {ws : List PThread} {a : ThreadAct} :
      C m → a ≠ .pass p → Enabled m a → KeepsCeiling m a → threadStep m a = some m₁ →
      Window p C m₁ ws m' → Window p C m ws m'

theorem Window.start {C : Machine → Prop} (h : Window p C m ws m') : C m := by
  cases h with
  | done hC | pass hC | other hC => exact hC

/-- The boosts. -/
def Machine.boosts (m : Machine) (t : PThread) : Nat := (m.thread t).priorityBoost

/-! ### What a pass does to priorities and boosts -/

theorem Scheduled.priorities {R T : List PThread} (h : Scheduled p R T win m m') (x : PThread) :
    (m'.thread x).priority = (m.thread x).priority ∧
      (m'.thread x).maxPriorityBoost = (m.thread x).maxPriorityBoost := by
  constructor
  · exact (h.field Thread.priority x).trans (prepared_field Thread.priority p m R T x)
  · exact (h.field Thread.maxPriorityBoost x).trans
      (prepared_field Thread.maxPriorityBoost p m R T x)

theorem level_prepared (p : Processor) (m : Machine) (R T : List PThread) (x : PThread) :
    (prepared p m R T x).level = (m.thread x).level :=
  prepared_field Thread.level p m R T x

theorem boost_priorityBoost (y : Thread) (hy : y.priorityBoost ≤ y.maxPriorityBoost) :
    y.boost.priorityBoost = min (y.priorityBoost + 1) y.maxPriorityBoost := by
  unfold Thread.boost
  split
  · show y.priorityBoost + 1 = _
    omega
  · omega

theorem Scheduled.boosts {R T : List PThread} (h : Scheduled p R T win m m') (x : PThread)
    (hx : m.boosts x ≤ (m.thread x).maxPriorityBoost) :
    m'.boosts x = if x = win then 0
      else if x ∈ preparedReady p m R T then min (m.boosts x + 1) (m.thread x).maxPriorityBoost
      else m.boosts x := by
  have hbody := congrArg Thread.priorityBoost (h.body x)
  have hboost : (prepared p m R T x).priorityBoost = m.boosts x :=
    prepared_field Thread.priorityBoost p m R T x
  have hmax : (prepared p m R T x).maxPriorityBoost = (m.thread x).maxPriorityBoost :=
    prepared_field Thread.maxPriorityBoost p m R T x
  refine hbody.trans ?_
  show (outcome p m R T win x).priorityBoost = _
  rw [← hboost, ← hmax] at hx
  simp only [outcome]
  split
  · rfl
  · split
    · rw [boost_priorityBoost _ hx, hboost, hmax]
    · exact hboost

theorem Scheduled.boosts_le {R T : List PThread} (h : Scheduled p R T win m m')
    (hx : m.boosts x ≤ (m.thread x).maxPriorityBoost) :
    m'.boosts x ≤ (m'.thread x).maxPriorityBoost := by
  rw [(h.priorities x).2, h.boosts x hx]
  split
  · exact Nat.zero_le _
  · split
    · exact Nat.min_le_right _ _
    · exact hx

/-! ### Ceilings along a run -/

theorem Online.capped (h : Online m L) (hpool : ∀ t < maxThreadCount,
    (m.thread t).priorityBoost ≤ (m.thread t).maxPriorityBoost) : Capped m := by
  intro t ht
  obtain ⟨a, ha⟩ := (h.valid t).mp ht
  exact hpool t (h.pool a t ha)

theorem Passed.mem_of_mem (h : Passed p win m L m' L') {a : Place} (hx : x ∈ L'.list a) :
    ∃ b, x ∈ L.list b := by
  by_cases ha : a = .ring p
  · subst ha
    rcases h.joined x hx with hx | hx
    · exact ⟨_, hx⟩
    · exact ⟨_, hx⟩
  · by_cases hs : a = .swap p
    · rw [hs, h.drained] at hx
      cases hx
    · rw [h.apart a ha hs] at hx
      exact ⟨a, hx⟩

theorem Capped.pass (h : Capped m) (hon : Online m L) (hon' : Online m' L')
    (hp : Passed p win m L m' L') : Capped m' := by
  intro x hx
  obtain ⟨a, ha⟩ := (hon'.valid x).mp hx
  exact hp.scheduled.boosts_le (h x ((hon.valid x).mpr (hp.mem_of_mem ha)))

theorem Capped.step (h : Capped m) (hon : Online m L) (hon' : Online m' L') {a : ThreadAct}
    (hkeep : KeepsCeiling m a) (hmoves : StepMoves m L m' L' a) : Capped m' := by
  -- away from passes and `thread_set_priority_boost` old threads keep both fields
  have hquiet : Untouched m m' → Capped m' := by
    intro hun x hx
    rcases hv : (m.thread x).valid with - | -
    · rw [hun.fresh x hv hx]
      exact Nat.zero_le _
    · rw [hun.boost x hv, hun.ceiling x hv]
      exact h x hv
  cases a with
  | pass p =>
    obtain ⟨win, hp⟩ := hmoves
    exact h.pass hon hon' hp
  | setPriorityBoost t boost =>
    obtain ⟨-, rfl⟩ := hmoves
    intro x hx
    have hv : (m.thread x).valid = true := by
      rw [← hx]
      exact (Heap.modify_field m.thread t x Thread.valid
        (quiet_setPriorityBoost (boost % 256)).valid).symm
    rw [thread_modifyThread]
    split
    · rename_i hxt
      subst hxt
      exact hkeep
    · exact h x hv
  | create | setProcessor | terminate | close | suspend | resume | setPriority | sleep | tick =>
    exact hquiet hmoves.2

/-- What is not a pass on `p` leaves the boosts in the ring of `p`. -/
theorem StepMoves.boosts_eq (hon : Online m L) (hcap : Capped m) {a : ThreadAct}
    (ha : a ≠ .pass p) (hmoves : StepMoves m L m' L' a) (hx : x ∈ L.list (.ring p)) :
    m'.boosts x = m.boosts x := by
  have hv : (m.thread x).valid = true := (hon.valid x).mpr ⟨_, hx⟩
  rcases hmoves.cases with ⟨q, win, rfl, hp⟩ | ⟨-, hun⟩
  · have hq : p ≠ q := fun hpq => ha (hpq ▸ rfl)
    -- the thread is in none of the lists the pass works on
    have hfar : x ∉ L.list (.ring q) ∧ x ∉ L.list (.swap q) := by
      refine ⟨fun hx' => ?_, fun hx' => ?_⟩
      · cases L.unique hx hx'
        exact hq rfl
      · cases L.unique hx hx'
    have hout : x ∉ preparedRing m (L.list (.ring q)) (L.list (.swap q)) := by
      intro hx'
      rcases L.mem_preparedRing hx' with h' | h'
      · exact hfar.1 h'
      · exact hfar.2 h'
    rw [hp.scheduled.boosts x (hcap x hv), if_neg, if_neg]
    · exact fun hready => hout (mem_preparedReady_iff.mp hready).1
    · rintro rfl
      rw [← hp.ring] at hout
      exact hout hp.ran
  · exact hun.boost x hv

/-! ### A pass is a round -/

theorem mem_preparedReady {R T : List PThread} (hn : R.Nodup) (hx : x ∈ R)
    (hready : (m.thread x).ready = true) : x ∈ preparedReady p m R T := by
  refine mem_preparedReady_iff.mpr ⟨mem_append_right _ ?_, ready_prepared hready⟩
  apply (mem_survivors_iff hn hx).mpr
  rintro ⟨-, hdead⟩
  exact Bool.false_ne_true ((Thread.ready_not_reapable hready).symm.trans hdead)

theorem Scheduled.level_le {R T : List PThread} (h : Scheduled p R T win m m')
    (hx : x ∈ preparedReady p m R T) : (m.thread x).level ≤ (m.thread win).level := by
  rw [← level_prepared p m R T, ← level_prepared p m R T]
  exact h.choice.level_le hx

theorem Contending.mem_ring (hC : Contending p S P M m) (hon : Online m L) (hx : x ∈ S) :
    x ∈ L.list (.ring p) := by
  rw [← hon.ringList_eq p]
  exact (hC.member x hx).1

theorem Contending.mem_ready (hC : Contending p S P M m) (hon : Online m L) (hx : x ∈ S) :
    x ∈ preparedReady p m (L.list (.ring p)) (L.list (.swap p)) :=
  mem_preparedReady (hon.ring p).nodup (hC.mem_ring hon hx) (hC.member x hx).2.1

theorem Contending.boosts_le (hC : Contending p S P M m) (hon : Online m L) (hcap : Capped m)
    (hx : x ∈ S) : m.boosts x ≤ M := by
  rw [← (hC.member x hx).2.2.2]
  exact hcap x ((hon.valid x).mpr ⟨_, hC.mem_ring hon hx⟩)

/-- **A pass is a round** among contending threads. -/
theorem Passed.round (hp : Passed p win m L m' L') (hon : Online m L) (hon' : Online m' L')
    (hcap : Capped m) (hC : Contending p S P M m) (hC' : Contending p S P M m') (ht : t ∈ S) :
    Round S M m.boosts win m'.boosts := by
  have hle : ∀ x ∈ S, m.boosts x ≤ (m.thread x).maxPriorityBoost :=
    fun x hx => (hC.boosts_le hon hcap hx).trans_eq (hC.member x hx).2.2.2.symm
  have hlevel : ∀ x ∈ S, (m.thread x).level = P + m.boosts x := by
    intro x hx
    rw [Thread.level, (hC.member x hx).2.2.1]
    rfl
  have hwin : win ∈ S := by
    by_contra hout
    -- any other thread of the ring is below the priority of `t`
    have hlow := hC'.other win (by rw [hon'.ringList_eq p]; exact hp.ran) hout
    rw [(hp.scheduled.priorities win).1, (hp.scheduled.priorities win).2] at hlow
    have hcapw := hcap win ((hon.valid win).mpr (hp.mem_of_mem hp.ran))
    have hbest := hp.scheduled.level_le (hC.mem_ready hon ht)
    rw [hlevel t ht, Thread.level] at hbest
    omega
  refine ⟨hwin, fun x hx => ?_, ?_, fun x hx hxw => ?_⟩
  · have hbest := hp.scheduled.level_le (hC.mem_ready hon hx)
    rw [hlevel x hx, hlevel win hwin] at hbest
    omega
  · rw [hp.scheduled.boosts win (hle win hwin), if_pos rfl]
  · rw [hp.scheduled.boosts x (hle x hx), if_neg hxw,
      if_pos (hC.mem_ready hon hx), (hC.member x hx).2.2.2]

/-! ### Few threads -/

theorem Window.rounds (h : Window p (Contending p S P M) m ws m') (ht : t ∈ S) :
    ∀ {L : Layout}, Online m L → Capped m → Rounds S M m.boosts ws m'.boosts := by
  induction h with
  | done _ => exact fun _ _ => Rounds.nil fun _ _ => rfl
  | pass hC hs hcur hrest ih =>
    intro L hon hcap
    obtain ⟨L₁, hon₁, win, hp⟩ := hon.step_some (a := .pass p) trivial hs
    rw [hp.scheduled.current] at hcur
    cases hcur
    exact Rounds.cons (hp.round hon hon₁ hcap hC hrest.start ht)
      (ih hon₁ (hcap.pass hon hon₁ hp))
  | other hC ha hen hkeep hs hrest ih =>
    intro L hon hcap
    obtain ⟨L₁, hon₁, hmoves⟩ := hon.step_some hen hs
    apply (ih hon₁ (hcap.step hon hon₁ hkeep hmoves)).congr
    exact fun x hx => (hmoves.boosts_eq hon hcap ha (hC.mem_ring hon hx)).symm

/-- **Few threads: everybody is chosen.**  In every state reached from
start-up in which no boost is above its maximum, whatever happens from there:
when at most `M + 1` threads of priority `P` and maximal boost `M` contend for
the processor, each of them is chosen in any `M + S.card` consecutive passes. -/
theorem chosen_within (image : Image) (clock : Nat) (stack : UInt32) (order : List Processor)
    (horder : order.Perm [1, 2, 3, 4, 5]) (boot m m' : Machine)
    (hboot : threadingInit image clock (some stack) order = some boot)
    (hr : Reach threadStep Enabled boot m) (hcap : Capped m) (p : Processor)
    (S : Finset PThread) (P M : Nat) (hcard : S.card ≤ M + 1) (ws : List PThread)
    (hw : Window p (Contending p S P M) m ws m') (hlen : M + S.card ≤ ws.length) :
    ∀ t ∈ S, t ∈ ws := by
  intro t ht
  obtain ⟨L, hon⟩ := online_of_reach horder hboot hr
  exact (hw.rounds ht hon hcap).wins hcard ht (hw.start.boosts_le hon hcap ht) hlen

/-! ### Passes and nothing else -/

theorem Scheduled.ready {R T : List PThread} (h : Scheduled p R T win m m')
    (hx : (m.thread x).ready = true) : (m'.thread x).ready = true :=
  (h.field Thread.ready x).trans (ready_prepared hx)

theorem Contending.pass (hC : Contending p S P M m) (hon : Online m L) (hon' : Online m' L')
    (hp : Passed p win m L m' L') (hswap : L.list (.swap p) = []) : Contending p S P M m' := by
  refine ⟨fun x hx => ?_, fun u hu hout => ?_⟩
  · obtain ⟨-, hready, hprio, hmax⟩ := hC.member x hx
    have hprepared := hC.mem_ready hon hx
    rw [mem_preparedReady_iff, ← hp.ring] at hprepared
    rw [hon'.ringList_eq p, (hp.scheduled.priorities x).1, (hp.scheduled.priorities x).2]
    exact ⟨hprepared.1, hp.scheduled.ready hready, hprio, hmax⟩
  · rw [hon'.ringList_eq p] at hu
    have hold : u ∈ L.list (.ring p) := by
      rcases hp.joined u hu with hu | hu
      · exact hu
      · rw [hswap] at hu
        cases hu
    rw [(hp.scheduled.priorities u).1, (hp.scheduled.priorities u).2]
    apply hC.other u _ hout
    rw [hon.ringList_eq p]
    exact hold

theorem Online.exists_window (n : Nat) : ∀ {m : Machine} {L : Layout}, Online m L →
    Contending p S P M m → L.list (.swap p) = [] →
    ∃ ws m', Window p (Contending p S P M) m ws m' ∧ ws.length = n := by
  induction n with
  | zero => exact fun _ hC _ => ⟨[], _, Window.done hC, rfl⟩
  | succ n ih =>
    intro m L hon hC hswap
    obtain ⟨m₁, win, L₁, hs, hon₁, hp⟩ := hon.pass_spec p
    obtain ⟨ws, m', hw, hlen⟩ := ih hon₁ (hC.pass hon hon₁ hp hswap) hp.drained
    refine ⟨win :: ws, m', Window.pass hC ?_ hp.scheduled.current hw, ?_⟩
    · rw [threadStep, hs]
      rfl
    · rw [length_cons, hlen]

/-- Two threads of equal priority, as `thread_create` makes them: in seven
passes both are chosen. -/
theorem two_threads_chosen :
    ∃ boot m m' ws, bootInOrder = some boot ∧ Reach threadStep Enabled boot m ∧
      Window 0 (Contending 0 {0, 7} 7 5) m ws m' ∧ ws.length = 7 ∧ 0 ∈ ws ∧ 7 ∈ ws := by
  obtain ⟨boot, m, hboot, hr, hC, hswap, hpool⟩ : ∃ boot m, bootInOrder = some boot ∧
      Reach threadStep Enabled boot m ∧ Contending 0 {0, 7} 7 5 m ∧ swapList m 0 = [] ∧
      ∀ t < maxThreadCount, (m.thread t).priorityBoost ≤ (m.thread t).maxPriorityBoost :=
    exists_reach_start [.create 0 0 0 0 0 (some 0x80010000)] (by decide +kernel)
  obtain ⟨L, hon⟩ := online_of_reach (List.Perm.refl _) hboot hr
  rw [hon.swapList_eq 0] at hswap
  obtain ⟨ws, m', hw, hlen⟩ := Online.exists_window 7 hon hC hswap
  have hall := chosen_within {} 0 0x80000000 [1, 2, 3, 4, 5] (List.Perm.refl _) boot m m' hboot hr
    (hon.capped hpool) 0 {0, 7} 7 5 (by decide) ws hw (by rw [hlen]; decide)
  exact ⟨boot, m, m', ws, hboot, hr, hw, hlen, hall 0 (by decide), hall 7 (by decide)⟩

/-! ### Many threads -/

/-- The first member of `S` in a list is the first in a part of it. -/
theorem find?_of_sublist {l l' : List PThread} (hn : l.Nodup) (hsub : l'.Sublist l)
    (hz : l.find? (· ∈ S) = some z) (hmem : z ∈ l') : l'.find? (· ∈ S) = some z := by
  rw [← List.head?_filter] at hz ⊢
  have hzS : z ∈ l.filter (· ∈ S) := mem_of_head? hz
  have hz' : z ∈ l'.filter (· ∈ S) := mem_filter.mpr ⟨hmem, (mem_filter.mp hzS).2⟩
  have hsub' := hsub.filter (· ∈ S)
  have hn' := hn.filter (· ∈ S)
  rcases hl : l.filter (· ∈ S) with - | ⟨a, r⟩
  · rw [hl] at hzS
    cases hzS
  · rw [hl, List.head?_cons, Option.some.injEq] at hz
    rw [hl, hz] at hsub' hn'
    rcases sublist_cons_iff.mp hsub' with hr | ⟨r', hr', -⟩
    · exact absurd (hr.subset hz') (nodup_cons.mp hn').1
    · rw [hr', List.head?_cons]

theorem Passed.loses_ties (hp : Passed p win m L m' L') (hon : Online m L)
    (hC : Contending p S P M m) (hfirst : (L'.list (.ring p)).find? (· ∈ S) = some win) :
    ∀ x ∈ S, x ≠ win → m.boosts x < m.boosts win := by
  intro x hx hxw
  obtain ⟨l₁, l₂, hl, hbefore, -⟩ := hp.scheduled.choice
  have hxready := hC.mem_ready hon hx
  -- the ready list is the ready part of the ring, backwards
  have hring : (L'.list (.ring p)).filter (fun y =>
      (prepared p m (L.list (.ring p)) (L.list (.swap p)) y).ready)
        = l₂.reverse ++ win :: l₁.reverse := by
    rw [hp.ring, ← reverse_reverse (List.filter _ _)]
    rw [preparedReady_eq] at hl
    rw [hl]
    simp
  have hn : (L'.list (.ring p)).Nodup := L'.nodup _
  have hfind := find?_of_sublist hn filter_sublist hfirst (by rw [hring]; simp)
  have hn' := hn.filter fun y => (prepared p m (L.list (.ring p)) (L.list (.swap p)) y).ready
  rw [hring] at hfind hn'
  have hbehind : x ∉ l₂ := by
    intro hxl
    -- then a member of `S` would come before the first one
    rcases hy : l₂.reverse.find? (· ∈ S) with - | y
    · have hnone := List.find?_eq_none.mp hy x (mem_reverse.mpr hxl)
      exact hnone (decide_eq_true hx)
    · rw [List.find?_append, hy, Option.some_or, Option.some.injEq] at hfind
      have hmem := mem_of_find?_eq_some hy
      rw [hfind] at hmem
      exact (nodup_append.mp hn').2.2 win hmem win (by simp) rfl
  have hxl : x ∈ l₁ := by
    rw [hl, mem_append, mem_cons] at hxready
    rcases hxready with hxl | hxl | hxl
    · exact hxl
    · exact absurd hxl hxw
    · exact absurd hxl hbehind
  have hwinS : win ∈ S := by simpa using List.find?_some hfirst
  have hlt := hbefore x hxl
  dsimp only at hlt
  rw [level_prepared, level_prepared, Thread.level, Thread.level, (hC.member x hx).2.2.1,
    (hC.member win hwinS).2.2.1] at hlt
  exact Nat.lt_of_add_lt_add_left hlt

/-- **Many threads: one is never chosen.**  When more than `M + 1` threads
contend, the boosts below the maximum are distinct and nobody is to be taken
over, the thread of `S` that comes first in the ring is not chosen in any
number of passes. -/
theorem Online.starved (hcard : M + 2 ≤ S.card) (n : Nat) : ∀ {m : Machine} {L : Layout},
    Online m L → Capped m → Contending p S P M m → L.list (.swap p) = [] →
    Distinct S M m.boosts → (L.list (.ring p)).find? (· ∈ S) = some z →
    ∃ ws m', Window p (Contending p S P M) m ws m' ∧ ws.length = n ∧ z ∉ ws := by
  induction n with
  | zero => exact fun _ _ hC _ _ _ => ⟨[], _, Window.done hC, rfl, not_mem_nil⟩
  | succ n ih =>
    intro m L hon hcap hC hswap hd hz
    obtain ⟨m₁, win, L₁, hs, hon₁, hp⟩ := hon.pass_spec p
    have hC₁ := hC.pass hon hon₁ hp hswap
    have hzS : z ∈ S := by simpa using List.find?_some hz
    have hround := hp.round hon hon₁ hcap hC hC₁ hzS
    -- the ring may lose threads, but not those of `S`
    have hring : L₁.list (.ring p) = survivors m.dead (L.list (.ring p)) := by
      rw [hp.ring, hswap, preparedRing]
      rfl
    have hz₁ : (L₁.list (.ring p)).find? (· ∈ S) = some z := by
      refine find?_of_sublist (L.nodup (.ring p)) ?_ hz ?_
      · rw [hring]
        exact survivors_sublist _ _
      · exact hC₁.mem_ring hon₁ hzS
    have hwz : win ≠ z := by
      apply hd.starves hcard hzS (hC.boosts_le hon hcap hzS)
      rintro rfl
      exact hp.loses_ties hon hC hz₁
    obtain ⟨ws, m', hw, hlen, hnot⟩ := ih hon₁ (hcap.pass hon hon₁ hp) hC₁ hp.drained
      (hround.distinct hd) hz₁
    refine ⟨win :: ws, m', Window.pass hC ?_ hp.scheduled.current hw, ?_, ?_⟩
    · rw [threadStep, hs]
      rfl
    · rw [length_cons, hlen]
    · rw [mem_cons, not_or]
      exact ⟨fun hzw => hwz hzw.symm, hnot⟩

instance (S : Finset PThread) (M : Nat) (b : PThread → Nat) : Decidable (Distinct S M b) :=
  inferInstanceAs (Decidable (∀ x ∈ S, ∀ y ∈ S, b x < M → b x = b y → x = y))

/-- The main thread and six threads made by it, all of priority 7 with a
maximal boost of 5: from the seventh pass on, thread 12 is not chosen in any
number of passes. -/
theorem seven_threads_starve :
    ∃ boot m, bootInOrder = some boot ∧ Reach threadStep Enabled boot m ∧ Capped m ∧
      ∀ n, ∃ ws m', Window 0 (Contending 0 {0, 7, 8, 9, 10, 11, 12} 7 5) m ws m' ∧
        ws.length = n ∧ 12 ∉ ws := by
  refine exists_reach_start_imp (List.replicate 6 (.create 0 0 0 0 0 (some 0x80010000)) ++
      List.replicate 6 (.pass 0))
    (fun m => Contending 0 {0, 7, 8, 9, 10, 11, 12} 7 5 m ∧ swapList m 0 = [] ∧
      (∀ t < maxThreadCount, (m.thread t).priorityBoost ≤ (m.thread t).maxPriorityBoost) ∧
      Distinct {0, 7, 8, 9, 10, 11, 12} 5 m.boosts ∧
      (ringList m 0).find? (· ∈ ({0, 7, 8, 9, 10, 11, 12} : Finset PThread)) = some 12)
    (by decide +kernel) fun boot m hboot hr ⟨hC, hswap, hpool, hd, hz⟩ => ?_
  obtain ⟨L, hon⟩ := online_of_reach (List.Perm.refl _) hboot hr
  rw [hon.swapList_eq 0] at hswap
  rw [hon.ringList_eq 0] at hz
  have hcap := hon.capped hpool
  exact ⟨hcap, fun n => Online.starved (by decide) n hon hcap hC hswap hd hz⟩

/-! ### A thread that outgrows the others -/

/-- The ring of `p` holds the threads of `R`, in some order, and nobody is to be
taken over; `t` is one of them and ready, and its maximal level is above that of
the others. -/
structure Outgrows (p : Processor) (t : PThread) (R : List PThread) (m : Machine) : Prop where
  ring : ∃ l : List PThread, l.Perm R ∧ Ringed m p l
  swap : Swapped m p []
  full : ∀ x ∈ R, FullLinked m x
  current : (m.processor p).currentThread ≠ none
  member : t ∈ R
  ready : (m.thread t).ready = true
  rival : ∀ u ∈ R, u ≠ t → (m.thread u).priority + (m.thread u).maxPriorityBoost
    < (m.thread t).priority + (m.thread t).maxPriorityBoost

/-- What happens between two calls leaves the priorities and boosts of `R`; sleep
times, suspend counts and all the rest may change. -/
def KeepsLevels (R : List PThread) (m m' : Machine) : Prop :=
  ∀ u ∈ R, (m'.thread u).priority = (m.thread u).priority ∧
    (m'.thread u).maxPriorityBoost = (m.thread u).maxPriorityBoost ∧
    (m'.thread u).priorityBoost = (m.thread u).priorityBoost

/-- Consecutive calls of `thread_schedule` on `p` that choose `ws`. -/
inductive Turns (p : Processor) (t : PThread) (R : List PThread) :
    Machine → List PThread → Machine → Prop
  | done {m : Machine} : Outgrows p t R m → Turns p t R m [] m
  | call {m m₁ m₂ m' : Machine} {fuel : Nat} {c : Context} {w : PThread} {ws : List PThread} :
      Outgrows p t R m → R.length < fuel → threadSchedule fuel m p = some (m₁, c) →
      (m₁.processor p).currentThread = some w → KeepsLevels R m₁ m₂ → Turns p t R m₂ ws m' →
      Turns p t R m (w :: ws) m'

variable {R : List PThread}

/-- No boost of `R` is above its maximum. -/
def CappedIn (R : List PThread) (m : Machine) : Prop :=
  ∀ u ∈ R, (m.thread u).priorityBoost ≤ (m.thread u).maxPriorityBoost

theorem KeepsLevels.capped (h : KeepsLevels R m m') (hcap : CappedIn R m) : CappedIn R m' := by
  intro u hu
  obtain ⟨-, hmax, hboost⟩ := h u hu
  rw [hmax, hboost]
  exact hcap u hu

theorem Outgrows.schedule (h : Outgrows p t R m) {fuel : Nat} (hfuel : R.length < fuel) :
    ∃ m' win l, l.Perm R ∧ threadSchedule fuel m p = some (m', (m'.thread win).context) ∧
      t ∈ preparedReady p m l [] ∧ Scheduled p l [] win m m' := by
  obtain ⟨l, hperm, hring⟩ := h.ring
  have hmem : t ∈ l := hperm.mem_iff.mpr h.member
  have hready := mem_preparedReady (p := p) (T := []) hring.nodup hmem h.ready
  obtain ⟨m', win, hs, hsched⟩ := threadSchedule_spec fuel h.current hring h.swap
    (fun x hx => absurd hx not_mem_nil) (fun x hx => h.full x (hperm.mem_iff.mp hx))
    ⟨t, hmem, Thread.ready_not_reapable h.ready⟩ ⟨t, mem_preparedReady_iff.mp hready⟩
    (by rw [length_nil, Nat.zero_add, hperm.length_eq]; exact hfuel)
  exact ⟨m', win, l, hperm, hs, hready, hsched⟩

theorem Scheduled.win_mem {l : List PThread} (h : Scheduled p l [] win m m') : win ∈ l :=
  (survivors_sublist m.dead l).subset h.win_prepared.1

theorem Scheduled.capped {l : List PThread} (h : Scheduled p l [] win m m')
    (hcap : CappedIn R m) : CappedIn R m' :=
  fun u hu => h.boosts_le (hcap u hu)

/-- **One call** that does not choose `t`: the boost of `t` was below its maximum
and is one more. -/
theorem Outgrows.lose (h : Outgrows p t R m) (hcap : CappedIn R m) {l : List PThread}
    (hperm : l.Perm R) (hready : t ∈ preparedReady p m l []) (hs : Scheduled p l [] win m m')
    (hwin : win ≠ t) :
    m.boosts t < (m.thread t).maxPriorityBoost ∧ m'.boosts t = m.boosts t + 1 := by
  have hmem : win ∈ R := hperm.mem_iff.mp hs.win_mem
  have hrival := h.rival win hmem hwin
  have hlevel := hs.level_le hready
  rw [Thread.level, Thread.level] at hlevel
  have hwincap := hcap win hmem
  have hlow : m.boosts t < (m.thread t).maxPriorityBoost := by
    rw [Machine.boosts]
    omega
  refine ⟨hlow, ?_⟩
  rw [hs.boosts t (hcap t h.member), if_neg (Ne.symm hwin), if_pos hready]
  omega

/-- **The calls that pass `t` over** are at most as many as its boost can still
grow. -/
theorem Turns.passed_over {ws : List PThread} (h : Turns p t R m ws m') (hcap : CappedIn R m)
    (hnot : t ∉ ws) : ws.length + m.boosts t ≤ (m.thread t).maxPriorityBoost := by
  induction h with
  | done hO =>
    rw [length_nil, Nat.zero_add]
    exact hcap t hO.member
  | @call m m₁ m₂ m' fuel c w ws hO hfuel hs hcur hkeep _ ih =>
    obtain ⟨m₁', win, l, hperm, hs', hready, hsched⟩ := hO.schedule hfuel
    rw [hs] at hs'
    cases hs'
    rw [hsched.current] at hcur
    cases hcur
    rw [mem_cons, not_or] at hnot
    obtain ⟨hlow, hgrown⟩ := hO.lose hcap hperm hready hsched (Ne.symm hnot.1)
    have hrest := ih (hkeep.capped (hsched.capped hcap)) hnot.2
    obtain ⟨-, hmax, hboost⟩ := hkeep t hO.member
    change m₂.boosts t = m₁.boosts t at hboost
    rw [hmax, (hsched.priorities t).2, hboost] at hrest
    rw [length_cons]
    omega

theorem Turns.start {ws : List PThread} (h : Turns p t R m ws m') : Outgrows p t R m := by
  cases h with
  | done hO | call hO => exact hO

theorem Turns.last {ws : List PThread} (h : Turns p t R m ws m') : Outgrows p t R m' := by
  induction h with
  | done hO => exact hO
  | call _ _ _ _ _ _ ih => exact ih

theorem Turns.split {us vs : List PThread} (h : Turns p t R m (us ++ vs) m')
    (hcap : CappedIn R m) : ∃ m₁, CappedIn R m₁ ∧ Turns p t R m us m₁ ∧ Turns p t R m₁ vs m' ∧
      (m₁.thread t).maxPriorityBoost = (m.thread t).maxPriorityBoost := by
  induction us generalizing m with
  | nil => exact ⟨m, hcap, Turns.done h.start, h, rfl⟩
  | cons u us ih =>
    cases h with
    | @call _ m₁ m₂ _ fuel c _ _ hO hfuel hs hcur hkeep hrest =>
      obtain ⟨m₁', win, l, -, hs', -, hsched⟩ := hO.schedule hfuel
      rw [hs] at hs'
      cases hs'
      obtain ⟨m₃, hcap₃, hus, hvs, hmax⟩ := ih hrest (hkeep.capped (hsched.capped hcap))
      refine ⟨m₃, hcap₃, Turns.call hO hfuel hs hcur hkeep hus, hvs, ?_⟩
      rw [hmax, (hkeep t hO.member).2.1, (hsched.priorities t).2]

/-- **The thread with the highest maximal level is chosen**, in every
`MaxPriorityBoost + 1` consecutive calls of a run of `thread_schedule` on its
processor, whatever happens between the calls; and every call returns. -/
theorem chosen_of_outgrows (p : Processor) (t : PThread) (R : List PThread) {m m' : Machine}
    {ws : List PThread} (h : Turns p t R m ws m') (hcap : CappedIn R m) :
    (∀ us vs xs, ws = us ++ vs ++ xs → (m.thread t).maxPriorityBoost + 1 ≤ vs.length → t ∈ vs) ∧
      ∀ fuel, R.length < fuel → ∃ m₁ c, threadSchedule fuel m' p = some (m₁, c) := by
  constructor
  · rintro us vs xs rfl hlen
    rw [append_assoc] at h
    obtain ⟨m₁, hcap₁, -, hrest, hmax⟩ := h.split hcap
    obtain ⟨m₂, -, hvs, -, -⟩ := hrest.split hcap₁
    by_contra hnot
    have hfew := hvs.passed_over hcap₁ hnot
    omega
  · intro fuel hfuel
    obtain ⟨m₁, win, -, -, hs, -, -⟩ := h.last.schedule hfuel
    exact ⟨m₁, _, hs⟩

theorem Outgrows.exists_turns (n : Nat) : ∀ {m : Machine}, Outgrows p t R m →
    (∀ x ∈ R, m.dead x = false) → ∃ ws m', Turns p t R m ws m' ∧ ws.length = n := by
  induction n with
  | zero => exact fun hO _ => ⟨[], _, Turns.done hO, rfl⟩
  | succ n ih =>
    intro m hO hlive
    obtain ⟨m₁, win, l, hperm, hs, -, hsched⟩ := hO.schedule (Nat.lt_succ_self R.length)
    -- no thread is reaped, so the ring stays
    have hring : preparedRing m l [] = l := by
      rw [preparedRing, reverse_nil, nil_append]
      cases l with
      | nil => rfl
      | cons a l =>
        rw [survivors, hlive a (hperm.mem_iff.mp mem_cons_self),
          if_neg Bool.false_ne_true]
        refine congrArg (a :: ·) (filter_eq_self.mpr fun x hx => ?_)
        rw [hlive x (hperm.mem_iff.mp (mem_cons_of_mem a hx))]
        rfl
    have hO₁ : Outgrows p t R m₁ := by
      refine ⟨⟨l, hperm, hring ▸ hsched.ringed⟩, hsched.swapped,
        fun x hx => hsched.edit.full x (hO.full x hx), ?_, hO.member, hsched.ready hO.ready,
        fun u hu hut => ?_⟩
      · rw [hsched.current]
        exact Option.some_ne_none win
      · rw [(hsched.priorities u).1, (hsched.priorities u).2, (hsched.priorities t).1,
          (hsched.priorities t).2]
        exact hO.rival u hu hut
    have hlive₁ : ∀ x ∈ R, m₁.dead x = false := by
      intro x hx
      refine (hsched.field Thread.reapable x).trans ?_
      exact (prepared_field Thread.reapable p m l [] x).trans (hlive x hx)
    obtain ⟨ws, m', hrest, hlen⟩ := ih hO₁ hlive₁
    exact ⟨win :: ws, m', Turns.call hO (Nat.lt_succ_self _) hs hsched.current
      (fun _ _ => ⟨rfl, rfl, rfl⟩) hrest, congrArg (· + 1) hlen⟩

/-- Thread 0 has priority 8 and no boost; thread 1 starts from priority 7 with a
maximal boost of 2. -/
def patientThread : Machine :=
  (fewThreads 2 false fun i =>
    { readyThread with
      priority := 8 - i
      maxPriorityBoost := 2 * i }).modifyProcessor 0 fun b => { b with currentThread := some 0 }

theorem patientThread_chosen :
    ∃ ws m', Turns 0 1 [0, 1] patientThread ws m' ∧ ws.length = 3 ∧ 1 ∈ ws := by
  have hO : Outgrows 0 1 [0, 1] patientThread := by
    refine ⟨⟨[0, 1], List.Perm.refl _, ?_⟩, ⟨nodup_nil, NullList.nil, rfl, rfl⟩, ?_, ?_,
      by decide, by decide, by decide⟩
    · exact (ringed_fewThreads 1 false _).congr (fun _ _ => rfl) (fun _ _ => rfl) rfl rfl
    · exact fullLinked_fewThreads 2 false _
    · exact Option.some_ne_none 0
  obtain ⟨ws, m', h, hlen⟩ := hO.exists_turns 3 (by decide)
  have hchosen := (chosen_of_outgrows 0 1 [0, 1] h (by unfold CappedIn; decide)).1 [] ws []
    (by simp) (by rw [hlen]; decide)
  exact ⟨ws, m', h, hlen, hchosen⟩

end LibXenon
