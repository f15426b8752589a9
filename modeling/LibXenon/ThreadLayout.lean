/-
LibXenon/ThreadLayout.lean

Where the threads are.

The purpose of the lists of `c_threads.c` is to say where each thread is: in
the ring of one processor, or pending in the swap list of one.  A `Layout` is
that information alone; no thread can be in it twice.  `Placed m L` says that
the lists of the machine spell the layout and that the threads in it are
exactly the valid slots of the pool.

Each thread function is matched with what it does to the layout:

* `thread_create`        — a new thread is pushed on the caller's ring;
* `thread_set_processor` — a thread moves to the front of a swap list;
* a scheduling pass      — the swap list joins the ring, dead threads leave;
* the others             — nothing.

`Shape` adds to `Placed` what the functions rely on so as not to follow a
NULL pointer: the links of the list of all threads, and in each ring the idle
thread, which is always ready.
-/
import LibXenon.SchedulerPass

namespace LibXenon

open Links List

/-! ### Layouts -/

/-- A list a thread can be in. -/
inductive Place
  | ring (p : Processor)
  | swap (p : Processor)
  deriving DecidableEq

/-- The processor a list belongs to. -/
def Place.processor : Place → Processor
  | .ring p => p
  | .swap p => p

/-- Which threads are in which list, each at most once. -/
structure Layout where
  list : Place → List PThread
  nodup : ∀ a, (list a).Nodup
  unique : ∀ {a b t}, t ∈ list a → t ∈ list b → a = b

/-- No thread yet. -/
def Layout.empty : Layout where
  list _ := []
  nodup _ := nodup_nil
  unique h := absurd h not_mem_nil

/-- A thread that was nowhere, in front of a list. -/
def Layout.push (L : Layout) (a : Place) (t : PThread) (ht : ∀ b, t ∉ L.list b) : Layout where
  list b := if b = a then t :: L.list b else L.list b
  nodup b := by
    split
    · exact nodup_cons.mpr ⟨ht b, L.nodup b⟩
    · exact L.nodup b
  unique := by
    intro b c x hb hc
    split at hb <;> split at hc
    · simp_all
    · rename_i hba _
      rcases mem_cons.mp hb with rfl | hb
      · exact absurd hc (ht c)
      · exact L.unique hb hc
    · rename_i _ hca
      rcases mem_cons.mp hc with rfl | hc
      · exact absurd hb (ht b)
      · exact L.unique hb hc
    · exact L.unique hb hc

/-- A thread taken out of its list. -/
def Layout.remove (L : Layout) (t : PThread) : Layout where
  list a := (L.list a).erase t
  nodup a := (L.nodup a).erase t
  unique hb hc := L.unique (mem_of_mem_erase hb) (mem_of_mem_erase hc)

theorem Layout.notMem_remove (L : Layout) (t : PThread) (a : Place) :
    t ∉ (L.remove t).list a := (L.nodup a).not_mem_erase

/-- A thread moved to the front of a swap list. -/
def Layout.move (L : Layout) (t : PThread) (q : Processor) : Layout :=
  (L.remove t).push (.swap q) t (L.notMem_remove t)

/-- The swap list of `p` gone, and its ring replaced. -/
def Layout.reschedule (L : Layout) (p : Processor) (R : List PThread) (hn : R.Nodup)
    (hR : ∀ t ∈ R, t ∈ L.list (.ring p) ∨ t ∈ L.list (.swap p)) : Layout where
  list a := if a = .ring p then R else if a = .swap p then [] else L.list a
  nodup a := by
    split
    · exact hn
    · split
      · exact nodup_nil
      · exact L.nodup a
  unique := by
    intro b c x hb hc
    have key : ∀ {d}, x ∈ R → d ≠ .ring p → d ≠ .swap p → x ∉ L.list d := by
      intro d hx hr hs hd
      rcases hR x hx with h | h
      · exact hr (L.unique hd h)
      · exact hs (L.unique hd h)
    split at hb <;> split at hc
    · simp_all
    · split at hc
      · cases hc
      · exact absurd hc (key hb ‹_› ‹_›)
    · split at hb
      · cases hb
      · exact absurd hb (key hc ‹_› ‹_›)
    · split at hb
      · cases hb
      · split at hc
        · cases hc
        · exact L.unique hb hc

variable {L : Layout} {a b : Place} {t x : PThread} {p q : Processor}

theorem Layout.push_list {ht : ∀ b, t ∉ L.list b} :
    (L.push a t ht).list b = if b = a then t :: L.list b else L.list b := rfl

theorem Layout.mem_push {ht : ∀ b, t ∉ L.list b} :
    x ∈ (L.push a t ht).list b ↔ (x = t ∧ b = a) ∨ x ∈ L.list b := by
  rw [Layout.push_list]
  split
  · rename_i hba
    rw [mem_cons]
    simp [hba]
  · rename_i hba
    simp [hba]

theorem Layout.mem_remove : x ∈ (L.remove t).list b ↔ x ≠ t ∧ x ∈ L.list b :=
  (L.nodup b).mem_erase_iff

theorem Layout.mem_move :
    x ∈ (L.move t q).list b ↔ (x = t ∧ b = .swap q) ∨ (x ≠ t ∧ x ∈ L.list b) := by
  rw [Layout.move, Layout.mem_push, Layout.mem_remove]

theorem Layout.remove_list (ht : t ∈ L.list a) (hb : b ≠ a) :
    (L.remove t).list b = L.list b :=
  erase_of_not_mem fun htb => hb (L.unique htb ht)

theorem Layout.move_ring : (L.move t q).list (.ring p) = (L.remove t).list (.ring p) := by
  rw [Layout.move, Layout.push_list, if_neg (by simp)]

theorem Layout.move_swap :
    (L.move t q).list (.swap q) = t :: (L.remove t).list (.swap q) := if_pos rfl

theorem Layout.move_swap_of_ne (hp : p ≠ q) :
    (L.move t q).list (.swap p) = (L.remove t).list (.swap p) :=
  if_neg (by simpa using hp)

/-! ### Machines with a layout -/

variable {m m' : Machine} {on : Processor → Prop}

/-- The idle threads: `thread_pool_alloc` hands out slots in order, so the
main thread is slot 0, the idle thread of processor 0 slot 1, and the other
processors get the next five slots. -/
def Idle (t : PThread) : Prop := 1 ≤ t ∧ t ≤ 6

instance (t : PThread) : Decidable (Idle t) := inferInstanceAs (Decidable (_ ∧ _))

/-- The lists of `m` are those of `L`, and hold exactly the valid slots. -/
structure Placed (m : Machine) (L : Layout) : Prop where
  ring : ∀ p, Ringed m p (L.list (.ring p))
  swap : ∀ p, Swapped m p (L.list (.swap p))
  valid : ∀ t, (m.thread t).valid = true ↔ ∃ a, t ∈ L.list a
  home : ∀ a, ∀ t ∈ L.list a, (m.thread t).thisProcessor = some a.processor
  pool : ∀ a, ∀ t ∈ L.list a, t < maxThreadCount

/-- A machine whose processors `on` have started up. -/
structure Shape (on : Processor → Prop) (m : Machine) (L : Layout) : Prop
    extends Placed m L where
  full : ∀ a, ∀ t ∈ L.list a, FullLinked m t
  listed : ∀ a, ∀ t ∈ L.list a,
    m.threadList.firstThread ≠ none ∧ m.threadList.lastThread ≠ none
  current : ∀ p, on p → (m.processor p).currentThread ≠ none
  idle : ∀ p, on p → ∃ t ∈ L.list (.ring p), Idle t
  awake : ∀ a, ∀ t ∈ L.list a, Idle t → (m.thread t).ready = true

/-- Lists that an edit of processor `p` does not reach. -/
theorem Ringed.of_edit {l k : List PThread} (h : Ringed m q l) (hedit : RingEdit p k m m')
    (hq : q ≠ p) (hdis : ∀ x ∈ l, x ∉ k) : Ringed m' q l :=
  h.congr (fun x hx => hedit.next x (hdis x hx)) (fun x hx => hedit.prev x (hdis x hx))
    (by rw [hedit.other q hq]) (by rw [hedit.other q hq])

theorem Swapped.of_edit {l k : List PThread} (h : Swapped m q l) (hedit : RingEdit p k m m')
    (hq : q ≠ p) (hdis : ∀ x ∈ l, x ∉ k) : Swapped m' q l :=
  h.congr (fun x hx => hedit.next x (hdis x hx)) (fun x hx => hedit.prev x (hdis x hx))
    (by rw [hedit.other q hq]) (by rw [hedit.other q hq])

/-! ### Edits that move no thread -/

/-- A plain edit that leaves the thread where it is. -/
structure Quiet (f : Thread → Thread) : Prop extends Plain f where
  valid : ∀ x, (f x).valid = x.valid := by intro _; rfl
  home : ∀ x, (f x).thisProcessor = x.thisProcessor := by intro _; rfl

theorem Shape.quiet {f : Thread → Thread} (h : Shape on m L) (hf : Quiet f) (t : PThread)
    (hidle : Idle t → ∀ x, x.ready = true → (f x).ready = true) :
    Shape on (m.modifyThread t f) L where
  ring p := (h.ring p).plain hf.toPlain t
  swap p := (h.swap p).plain hf.toPlain t
  valid x := by
    rw [← h.valid x]
    have hx : ((m.modifyThread t f).thread x).valid = (m.thread x).valid :=
      Heap.modify_field m.thread t x Thread.valid hf.valid
    rw [hx]
  home a x hx := by
    rw [← h.home a x hx]
    exact Heap.modify_field m.thread t x Thread.thisProcessor hf.home
  pool := h.pool
  full a x hx := (hf.ringEdit m 0 t).full x (h.full a x hx)
  listed := h.listed
  current := h.current
  idle := h.idle
  awake a x hx hi := by
    rw [thread_modifyThread]
    split
    · rename_i hxt
      subst hxt
      exact hidle hi _ (h.awake a x hx hi)
    · exact h.awake a x hx hi

/-- A quiet edit that leaves the registers and the boost of the thread. -/
structure Mild (f : Thread → Thread) : Prop extends Quiet f where
  context : ∀ x, (f x).context = x.context := by intro _; rfl
  boost : ∀ x, (f x).priorityBoost = x.priorityBoost := by intro _; rfl
  ceiling : ∀ x, (f x).maxPriorityBoost = x.maxPriorityBoost := by intro _; rfl

theorem mild_close : Mild Thread.close := {}

theorem mild_setPriority (n : Nat) : Mild (Thread.setPriority n) := {}

theorem mild_resume : Mild Thread.resume := {}

theorem mild_terminate : Mild Thread.terminate := {}

theorem mild_sleep (n : Nat) : Mild (Thread.sleep n) := {}

theorem suspend_eq (x : Thread) : ∃ n, x.suspend = { x with suspendCount := n } := by
  unfold Thread.suspend
  split
  · exact ⟨_, rfl⟩
  · exact ⟨x.suspendCount, rfl⟩

theorem mild_suspend : Mild Thread.suspend := by
  refine ⟨⟨.ite {} {} fun _ => Iff.rfl, fun x => ?_, fun x => ?_⟩,
    fun x => ?_, fun x => ?_, fun x => ?_⟩
  all_goals
    obtain ⟨n, hn⟩ := suspend_eq x
    rw [hn]

theorem quiet_setPriorityBoost (n : Nat) : Quiet (Thread.setPriorityBoost n) := {}

theorem lockedModify_eq {f : Thread → Thread} (hhome : (m.thread t).thisProcessor = some q) :
    lockedModify m t f = some (m.modifyThread t f) := by
  rw [lockedModify, hhome]
  rfl

theorem Shape.withClock (h : Shape on m L) (clock : Nat) :
    Shape on { m with clock := clock } L where
  ring p := ⟨(h.ring p).nodup, (h.ring p).ring, (h.ring p).first, (h.ring p).last⟩
  swap p := ⟨(h.swap p).nodup, (h.swap p).list, (h.swap p).first, (h.swap p).last⟩
  valid := h.valid
  home := h.home
  pool := h.pool
  full := h.full
  listed := h.listed
  current := h.current
  idle := h.idle
  awake := h.awake

/-! ### `thread_set_processor` -/

theorem leaveEnds_frame (m : Machine) (p q : Processor) (t : PThread) :
    ((leaveEnds m p t).processor q).firstSwapProcess = (m.processor q).firstSwapProcess ∧
    ((leaveEnds m p t).processor q).lastSwapProcess = (m.processor q).lastSwapProcess ∧
    ((leaveEnds m p t).processor q).currentThread = (m.processor q).currentThread := by
  by_cases hq : q = p
  · subst hq
    rw [leaveEnds, processor_modifyProcessor]
    exact ⟨rfl, rfl, rfl⟩
  · rw [leaveEnds, processor_modifyProcessor_of_ne _ _ hq]
    exact ⟨rfl, rfl, rfl⟩

theorem leaveEnds_ends {l : List PThread} (h : Ringed m q l) (ht : t ∉ l) (p : Processor) :
    ((leaveEnds m p t).processor q).firstThread = (m.processor q).firstThread ∧
    ((leaveEnds m p t).processor q).lastThread = (m.processor q).lastThread := by
  by_cases hq : q = p
  · subst hq
    rw [leaveEnds, processor_modifyProcessor]
    refine ⟨if_neg ?_, if_neg ?_⟩
    · rw [h.first]
      exact fun hh => ht (mem_of_head? hh)
    · rw [h.last]
      exact fun hh => ht (mem_of_getLast? hh)
  · rw [leaveEnds, processor_modifyProcessor_of_ne _ _ hq]
    exact ⟨rfl, rfl⟩

theorem Shape.remove_spec (h : Shape on m L) (ht : t ∈ L.list a) (hon : on a.processor)
    (hidle : ¬ Idle t) {m₁ : Machine} {u v : PThread} (hedit : LinkEdit .run m m₁)
    (hu : Unlink (m.next .run) (m.prev .run) (m₁.next .run) (m₁.prev .run) t u v) :
    (∀ p, Ringed (leaveEnds m₁ a.processor t) p ((L.remove t).list (.ring p))) ∧
      ∀ p, Swapped (leaveEnds m₁ a.processor t) p ((L.remove t).list (.swap p)) := by
  have hproc := hedit.processor
  -- the two neighbours are in the same list
  obtain ⟨huv, hown⟩ : (u ∈ L.list a ∧ v ∈ L.list a) ∧
      (match a with
        | .ring p => Ringed (leaveEnds m₁ p t) p ((L.list a).erase t)
        | .swap p => Swapped (leaveEnds m₁ p t) p ((L.list a).erase t)) := by
    cases a with
    | ring p =>
      -- the idle thread stays, so the ring is not left empty
      obtain ⟨i, hi, hidle'⟩ := h.idle p hon
      have hit : i ≠ t := fun hit => hidle (hit ▸ hidle')
      have hne : (L.list (.ring p)).erase t ≠ [] :=
        ne_nil_of_mem ((mem_erase_of_ne hit).mpr hi)
      obtain ⟨-, hua, hva, -, -⟩ := (h.ring p).ring.unlink (h.ring p).nodup ht hne hu
      exact ⟨⟨mem_of_mem_erase hua, mem_of_mem_erase hva⟩,
        (h.ring p).detach ht hne hu hproc⟩
    | swap p =>
      obtain ⟨hlist, hua, hva, hhead⟩ := (h.swap p).list.unlink (h.swap p).nodup ht hu
      obtain ⟨hfirst, hlast, -⟩ := leaveEnds_frame m₁ p p t
      refine ⟨⟨mem_of_mem_erase hua, mem_of_mem_erase hva⟩,
        (h.swap p).nodup.erase t, hlist, ?_, ?_⟩
      · rw [hfirst, hproc, hhead]
        exact (h.swap p).first
      · rw [hlast, hproc]
        exact (h.swap p).last
  have hframe : ∀ {b}, b ≠ a → ∀ x ∈ L.list b,
      m₁.next .run x = m.next .run x ∧ m₁.prev .run x = m.prev .run x := by
    intro b hb x hx
    refine ⟨?_, ?_⟩
    · rw [hu.next_join, if_neg]
      rintro rfl
      exact hb (L.unique hx huv.2)
    · rw [hu.prev_join, if_neg]
      rintro rfl
      exact hb (L.unique hx huv.1)
  refine ⟨fun p => ?_, fun p => ?_⟩
  · by_cases hp : Place.ring p = a
    · subst hp
      exact hown
    · have htp : t ∉ L.list (.ring p) := fun htp => hp (L.unique htp ht)
      have hring₁ : Ringed m₁ p (L.list (.ring p)) :=
        (h.ring p).congr (fun x hx => (hframe hp x hx).1) (fun x hx => (hframe hp x hx).2)
          (by rw [hproc]) (by rw [hproc])
      obtain ⟨hfirst, hlast⟩ := leaveEnds_ends hring₁ htp a.processor
      rw [L.remove_list ht hp]
      exact hring₁.congr (fun _ _ => rfl) (fun _ _ => rfl) hfirst hlast
  · by_cases hp : Place.swap p = a
    · subst hp
      exact hown
    · obtain ⟨hfirst, hlast, -⟩ := leaveEnds_frame m₁ a.processor p t
      rw [L.remove_list ht hp]
      exact (h.swap p).congr (fun x hx => (hframe hp x hx).1) (fun x hx => (hframe hp x hx).2)
        (by rw [hfirst, hproc]) (by rw [hlast, hproc])

/-- What a call that makes no choice leaves alone: the current threads, and
the registers and boosts of the threads there are. -/
structure Unmoved (m m' : Machine) : Prop where
  current : ∀ q, (m'.processor q).currentThread = (m.processor q).currentThread
  image : m'.image = m.image
  context : ∀ x, (m.thread x).valid = true → (m'.thread x).context = (m.thread x).context
  boost : ∀ x, (m.thread x).valid = true →
    (m'.thread x).priorityBoost = (m.thread x).priorityBoost

/-- The maximal boosts stay too, and new threads start with none. -/
structure Untouched (m m' : Machine) : Prop extends Unmoved m m' where
  ceiling : ∀ x, (m.thread x).valid = true →
    (m'.thread x).maxPriorityBoost = (m.thread x).maxPriorityBoost
  fresh : ∀ x, (m.thread x).valid = false → (m'.thread x).valid = true →
    (m'.thread x).priorityBoost = 0

theorem Untouched.refl (m : Machine) : Untouched m m :=
  ⟨⟨fun _ => rfl, rfl, fun _ _ => rfl, fun _ _ => rfl⟩, fun _ _ => rfl,
    fun _ hx hx' => absurd (hx.symm.trans hx') Bool.false_ne_true⟩

theorem Mild.untouched {f : Thread → Thread} (hf : Mild f) (m : Machine) (t : PThread) :
    Untouched m (m.modifyThread t f) := by
  refine ⟨⟨fun _ => rfl, rfl, fun x _ => ?_, fun x _ => ?_⟩, fun x _ => ?_, fun x hx hx' => ?_⟩
  · exact Heap.modify_field m.thread t x Thread.context hf.context
  · exact Heap.modify_field m.thread t x Thread.priorityBoost hf.boost
  · exact Heap.modify_field m.thread t x Thread.maxPriorityBoost hf.ceiling
  · have hvalid := Heap.modify_field m.thread t x Thread.valid hf.valid
    exact absurd (hx.symm.trans (hvalid.symm.trans hx')) Bool.false_ne_true

theorem plain_assign (q : Processor) : Plain (Thread.assign q) := {}

/-- **Moving a thread** that has both links takes it to the swap list of the
new processor. -/
theorem Shape.setProcessor_spec (h : Shape on m L) (ht : t ∈ L.list a) (hon : on a.processor)
    (hidle : ¬ Idle t) (hq : a.processor ≠ q) (hnext : m.next .run t ≠ none)
    (hprev : m.prev .run t ≠ none) :
    ∃ m', threadSetProcessor m t q = some m' ∧ Shape on m' (L.move t q) ∧ Untouched m m' := by
  obtain ⟨u, hu⟩ := Option.ne_none_iff_exists'.mp hnext
  obtain ⟨v, hv⟩ := Option.ne_none_iff_exists'.mp hprev
  obtain ⟨m₁, hm₁, hedit, hunlink⟩ := unlink_spec hu hv
  obtain ⟨hring₂, hswap₂⟩ := h.remove_spec ht hon hidle hedit hunlink
  set m₂ := leaveEnds m₁ a.processor t with hm₂
  obtain ⟨hswap₃, hedit₃, hfirst₃, hlast₃, hcur₃, hbody₃⟩ :=
    (hswap₂ q).queueSwap_spec (L.notMem_remove t _)
  set m₃ := queueSwap m₂ q t with hm₃
  have hplain := plain_assign q
  have hbody : ∀ x, ((m₃.modifyThread t (Thread.assign q)).thread x).body
      = if x = t then (m.thread x).body.assign q
        else (m.thread x).body := by
    intro x
    rw [hplain.body_modify, hbody₃]
    show (if x = t then (m₁.thread x).body.assign q
      else (m₁.thread x).body) = _
    rw [hedit.body]
  have hfield {β : Type} (g : Thread → β) (x : PThread) (hg : ∀ y, g y.body = g y := by intro _; rfl)
      (hassign : ∀ y, g (y.assign q) = g y := by intro _; rfl) :
      g ((m₃.modifyThread t (Thread.assign q)).thread x) = g (m.thread x) := by
    rw [← hg, hbody]
    split
    · rw [hassign, hg]
    · exact hg _
  have hcur : ∀ p, (m₃.processor p).currentThread = (m.processor p).currentThread := by
    intro p
    have hcur₂ : (m₂.processor p).currentThread = (m.processor p).currentThread := by
      rw [hm₂, (leaveEnds_frame m₁ a.processor p t).2.2, hedit.processor]
    by_cases hp : p = q
    · rw [hp] at hcur₂ ⊢
      exact hcur₃.trans hcur₂
    · rw [hedit₃.other p hp]
      exact hcur₂
  -- the lists not touched by the last step
  have hout : ∀ {b}, b ≠ .swap q → ∀ x ∈ (L.remove t).list b,
      x ∉ t :: (L.remove t).list (.swap q) := by
    intro b hb x hx hmem
    rcases mem_cons.mp hmem with rfl | hmem
    · exact L.notMem_remove _ _ hx
    · exact hb ((L.remove t).unique hx hmem)
  refine ⟨m₃.modifyThread t (Thread.assign q), ?_,
    ⟨⟨?_, ?_, ?_, ?_, ?_⟩, ?_, ?_, ?_, ?_, ?_⟩, ?_⟩
  · rw [threadSetProcessor, h.home a t ht]
    show (if a.processor = q then _ else _) = _
    rw [if_neg hq]
    show ((unlink .run m t).bind _) = _
    rw [hm₁]
    rfl
  · intro p
    refine Ringed.plain ?_ hplain t
    rw [Layout.move_ring]
    by_cases hp : p = q
    · subst hp
      exact (hring₂ p).congr (fun x hx => hedit₃.next x (hout (by simp) x hx))
        (fun x hx => hedit₃.prev x (hout (by simp) x hx)) hfirst₃ hlast₃
    · exact (hring₂ p).of_edit hedit₃ hp (hout (by simp))
  · intro p
    refine Swapped.plain ?_ hplain t
    by_cases hp : p = q
    · subst hp
      rw [Layout.move_swap]
      exact hswap₃
    · rw [Layout.move_swap_of_ne hp]
      exact (hswap₂ p).of_edit hedit₃ hp (hout (by simpa using hp))
  · intro x
    rw [hfield Thread.valid, h.valid x]
    simp only [Layout.mem_move]
    constructor
    · rintro ⟨b, hb⟩
      by_cases hxt : x = t
      · exact ⟨.swap q, .inl ⟨hxt, rfl⟩⟩
      · exact ⟨b, .inr ⟨hxt, hb⟩⟩
    · rintro ⟨b, ⟨rfl, -⟩ | ⟨-, hb⟩⟩
      · exact ⟨a, ht⟩
      · exact ⟨b, hb⟩
  · intro b x hx
    have hx' := congrArg Thread.thisProcessor (hbody x)
    rcases Layout.mem_move.mp hx with ⟨rfl, rfl⟩ | ⟨hxt, hb⟩
    · rw [if_pos rfl] at hx'
      exact hx'
    · rw [if_neg hxt] at hx'
      exact hx'.trans (h.home b x hb)
  · intro b x hx
    rcases Layout.mem_move.mp hx with ⟨rfl, rfl⟩ | ⟨-, hb⟩
    · exact h.pool a x ht
    · exact h.pool b x hb
  · intro b x hx
    have hfull : FullLinked m x := by
      rcases Layout.mem_move.mp hx with ⟨rfl, rfl⟩ | ⟨-, hb⟩
      · exact h.full a x ht
      · exact h.full b x hb
    exact (hplain.ringEdit m₃ q t).full x
      (hedit₃.full x (hedit.fullLinked (by decide) hfull))
  · intro _ _ _
    have hlist : m₃.threadList = m.threadList := hedit₃.threadList.trans hedit.threadList
    show m₃.threadList.firstThread ≠ none ∧ m₃.threadList.lastThread ≠ none
    rw [hlist]
    exact h.listed a t ht
  · intro p hp
    rw [processor_modifyThread, hcur p]
    exact h.current p hp
  · intro p hp
    obtain ⟨i, hi, hidle'⟩ := h.idle p hp
    have hit : i ≠ t := fun hit => hidle (hit ▸ hidle')
    exact ⟨i, Layout.mem_move.mpr (.inr ⟨hit, hi⟩), hidle'⟩
  · intro b x hx hi
    rw [hfield Thread.ready]
    rcases Layout.mem_move.mp hx with ⟨rfl, -⟩ | ⟨-, hb⟩
    · exact absurd hi hidle
    · exact h.awake b x hb hi
  · refine ⟨⟨hcur, hedit₃.image.trans hedit.image, fun x _ => hfield Thread.context x,
      fun x _ => hfield Thread.priorityBoost x⟩, fun x _ => hfield Thread.maxPriorityBoost x,
      fun x hx hx' => ?_⟩
    rw [hfield Thread.valid, hx] at hx'
    cases hx'

/-! ### A scheduling pass -/

theorem Thread.ready_not_reapable {x : Thread} (hx : x.ready = true) : x.reapable = false := by
  simp only [Thread.ready, Bool.and_eq_true, Bool.not_eq_true'] at hx
  rw [Thread.reapable, hx.1.1.1, Bool.false_and]

theorem Shape.length_le (h : Shape on m L) (p : Processor) :
    (L.list (.swap p)).length + (L.list (.ring p)).length ≤ maxThreadCount := by
  have hn : (L.list (.swap p) ++ L.list (.ring p)).Nodup := by
    refine nodup_append.mpr ⟨L.nodup _, L.nodup _, ?_⟩
    rintro x hx y hy rfl
    cases L.unique hx hy
  have hsub : L.list (.swap p) ++ L.list (.ring p) ⊆ List.range maxThreadCount := by
    intro x hx
    rw [mem_range]
    rcases mem_append.mp hx with hx | hx
    · exact h.pool _ x hx
    · exact h.pool _ x hx
  have hle := (subperm_of_subset hn hsub).length_le
  rw [length_append, length_range] at hle
  exact hle

theorem Layout.mem_preparedRing (hx : x ∈ preparedRing m (L.list (.ring p)) (L.list (.swap p))) :
    x ∈ L.list (.ring p) ∨ x ∈ L.list (.swap p) := by
  rcases mem_append.mp hx with hx | hx
  · exact .inr (mem_reverse.mp hx)
  · exact .inl ((survivors_sublist _ _).subset hx)

theorem Layout.mem_reschedule {R : List PThread} {hn : R.Nodup}
    {hR : ∀ t ∈ R, t ∈ L.list (.ring p) ∨ t ∈ L.list (.swap p)} :
    x ∈ (L.reschedule p R hn hR).list b ↔
      (b = .ring p ∧ x ∈ R) ∨ (b ≠ .ring p ∧ b ≠ .swap p ∧ x ∈ L.list b) := by
  show x ∈ (if b = .ring p then R else if b = .swap p then [] else L.list b) ↔ _
  by_cases hb : b = .ring p
  · simp [hb]
  · by_cases hs : b = .swap p
    · simp [hs]
    · simp [hb, hs]

theorem Layout.reschedule_ring {R : List PThread} {hn : R.Nodup}
    {hR : ∀ t ∈ R, t ∈ L.list (.ring p) ∨ t ∈ L.list (.swap p)} :
    (L.reschedule p R hn hR).list (.ring p) = R := if_pos rfl

theorem Layout.reschedule_swap {R : List PThread} {hn : R.Nodup}
    {hR : ∀ t ∈ R, t ∈ L.list (.ring p) ∨ t ∈ L.list (.swap p)} :
    (L.reschedule p R hn hR).list (.swap p) = [] := by
  rw [Layout.reschedule]
  simp

/-- The threads that are valid after the first pass are those of the new
ring and of the other processors. -/
theorem Shape.valid_prepared_iff (h : Shape on m L) (p : Processor) (x : PThread) :
    (prepared p m (L.list (.ring p)) (L.list (.swap p)) x).valid = true ↔
      x ∈ preparedRing m (L.list (.ring p)) (L.list (.swap p)) ∨
        ∃ b, b ≠ .ring p ∧ b ≠ .swap p ∧ x ∈ L.list b := by
  rw [valid_prepared, preparedRing, mem_append, mem_reverse]
  by_cases hxR : x ∈ L.list (.ring p)
  · have hiff : x ∈ survivors m.dead _ ↔ _ := mem_survivors_iff (L.nodup (.ring p)) hxR
    have hv : (m.thread x).valid = true := (h.valid x).mpr ⟨_, hxR⟩
    have hxS : x ∉ L.list (.swap p) := fun hxS => by cases L.unique hxS hxR
    have hnone : ¬ ∃ b, b ≠ .ring p ∧ b ≠ .swap p ∧ x ∈ L.list b := by
      rintro ⟨b, hb, -, hxb⟩
      exact hb (L.unique hxb hxR)
    rw [hiff, hv, Bool.true_and]
    rcases hd : m.dead x with - | - <;> simp [hxS, hnone]
  · rw [if_neg (fun hscan => hxR (scanned_subset m.dead _ hscan)), h.valid x]
    constructor
    · rintro ⟨b, hb⟩
      by_cases hbs : b = .swap p
      · exact .inl (.inl (hbs ▸ hb))
      · refine .inr ⟨b, ?_, hbs, hb⟩
        rintro rfl
        exact hxR hb
    · rintro ((hx | hx) | ⟨b, -, -, hx⟩)
      · exact ⟨_, hx⟩
      · exact ⟨_, (survivors_sublist _ _).subset hx⟩
      · exact ⟨b, hx⟩

/-- What a pass on `p` that gives the processor to `win` does. -/
structure Passed (p : Processor) (win : PThread) (m : Machine) (L : Layout) (m' : Machine)
    (L' : Layout) : Prop where
  scheduled : Scheduled p (L.list (.ring p)) (L.list (.swap p)) win m m'
  ran : win ∈ L'.list (.ring p)
  ring : L'.list (.ring p) = preparedRing m (L.list (.ring p)) (L.list (.swap p))
  drained : L'.list (.swap p) = []
  apart : ∀ b, b ≠ .ring p → b ≠ .swap p → L'.list b = L.list b

theorem Passed.joined {win : PThread} {L' : Layout} (h : Passed p win m L m' L') :
    ∀ x ∈ L'.list (.ring p), x ∈ L.list (.ring p) ∨ x ∈ L.list (.swap p) := by
  rw [h.ring]
  exact fun x hx => L.mem_preparedRing hx

/-- **A scheduling pass** comes to its end; the swap list joins the ring,
dead threads leave it, and a thread of the ring runs. -/
theorem Shape.pass_spec (h : Shape on m L) (hon : on p) :
    ∃ m' win L', threadSchedule (maxThreadCount + 1) m p = some (m', (m'.thread win).context) ∧
      Shape on m' L' ∧ (∀ x, (m.thread x).ready = true → (m'.thread x).ready = true) ∧
      Passed p win m L m' L' := by
  set R := L.list (.ring p) with hR
  set S := L.list (.swap p) with hS
  have hdis : ∀ x ∈ S, x ∉ R := fun x hx hx' => by cases L.unique hx hx'
  obtain ⟨i, hiR, hidle⟩ := h.idle p hon
  have hiready := h.awake _ i hiR hidle
  have hilive : m.dead i = false := Thread.ready_not_reapable hiready
  have hisurv : i ∈ preparedRing m R S :=
    mem_append_right _ ((mem_survivors_iff (L.nodup _) hiR).mpr
      fun hdead => Bool.false_ne_true (hilive.symm.trans hdead.2))
  have hlen := h.length_le p
  obtain ⟨m', win, hsched, hs⟩ := threadSchedule_spec (maxThreadCount + 1)
    (h.current p hon) (h.ring p) (h.swap p) hdis (h.full _) ⟨i, hiR, hilive⟩
    ⟨i, hisurv, ready_prepared hiready⟩ (Nat.lt_succ_of_le hlen)
  have hmem : ∀ t ∈ preparedRing m R S, t ∈ R ∨ t ∈ S := fun t ht => L.mem_preparedRing ht
  have hwin : win ∈ preparedRing m R S := hs.win_prepared.1
  set L' := L.reschedule p (preparedRing m R S) hs.ringed.nodup hmem with hL'
  have hother : ∀ {b}, b ≠ .ring p → b ≠ .swap p → L'.list b = L.list b := by
    intro b hb hb'
    rw [hL', Layout.reschedule]
    show (if b = .ring p then _ else if b = .swap p then [] else L.list b) = _
    rw [if_neg hb, if_neg hb']
  have hold : ∀ {b x}, x ∈ L'.list b → ∃ a, x ∈ L.list a := by
    intro b x hx
    rcases Layout.mem_reschedule.mp hx with ⟨-, hx⟩ | ⟨-, -, hx⟩
    · rcases hmem x hx with hx | hx
      · exact ⟨_, hx⟩
      · exact ⟨_, hx⟩
    · exact ⟨b, hx⟩
  -- a list that is not one of the processor's keeps its links
  have hout : ∀ {b}, b ≠ .ring p → b ≠ .swap p → ∀ x ∈ L.list b, x ∉ S ++ R := by
    intro b hb hb' x hx hmem
    rcases mem_append.mp hmem with hmem | hmem
    · exact hb' (L.unique hx hmem)
    · exact hb (L.unique hx hmem)
  have hready : ∀ x, (m.thread x).ready = true → (m'.thread x).ready = true := by
    intro x hx
    rw [hs.field Thread.ready]
    exact ready_prepared hx
  refine ⟨m', win, L', hsched, ⟨⟨?_, ?_, ?_, ?_, ?_⟩, ?_, ?_, ?_, ?_, ?_⟩, hready, hs, ?_,
    Layout.reschedule_ring, Layout.reschedule_swap, ?_⟩
  · intro q
    by_cases hq : q = p
    · rw [hq, hL', Layout.reschedule_ring]
      exact hs.ringed
    · rw [hother (by simpa using hq) (by simp)]
      exact (h.ring q).of_edit hs.edit hq (hout (by simpa using hq) (by simp))
  · intro q
    by_cases hq : q = p
    · rw [hq, hL', Layout.reschedule_swap]
      exact hs.swapped
    · rw [hother (by simp) (by simpa using hq)]
      exact (h.swap q).of_edit hs.edit hq (hout (by simp) (by simpa using hq))
  · intro x
    rw [hs.field Thread.valid, h.valid_prepared_iff]
    simp only [hL', Layout.mem_reschedule]
    constructor
    · rintro (hx | ⟨b, hb⟩)
      · exact ⟨.ring p, .inl ⟨rfl, hx⟩⟩
      · exact ⟨b, .inr hb⟩
    · rintro ⟨b, ⟨-, hx⟩ | hb⟩
      · exact .inl hx
      · exact .inr ⟨b, hb⟩
  · intro b x hx
    rw [hs.field Thread.thisProcessor, thisProcessor_prepared]
    rcases Layout.mem_reschedule.mp hx with ⟨rfl, hxR⟩ | ⟨hb, hb', hxb⟩
    · split
      · rfl
      · exact h.home _ x ((hmem x hxR).resolve_right ‹_›)
    · rw [if_neg (fun hxS => hb' (L.unique hxb hxS))]
      exact h.home b x hxb
  · intro b x hx
    obtain ⟨a, ha⟩ := hold hx
    exact h.pool a x ha
  · intro b x hx
    obtain ⟨a, ha⟩ := hold hx
    exact hs.edit.full x (h.full a x ha)
  · intro _ _ _
    rw [hs.edit.threadList]
    exact h.listed _ i hiR
  · intro q hq
    by_cases hqp : q = p
    · rw [hqp, hs.current]
      exact Option.some_ne_none win
    · rw [hs.edit.other q hqp]
      exact h.current q hq
  · intro q hq
    obtain ⟨j, hj, hjidle⟩ := h.idle q hq
    by_cases hqp : q = p
    · exact ⟨i, Layout.mem_reschedule.mpr (.inl ⟨by rw [hqp], hisurv⟩), hidle⟩
    · refine ⟨j, ?_, hjidle⟩
      rw [hother (by simpa using hqp) (by simp)]
      exact hj
  · intro b x hx hxidle
    apply hready
    rcases Layout.mem_reschedule.mp hx with ⟨-, hx⟩ | ⟨-, -, hx⟩
    · rcases hmem x hx with hx | hx
      · exact h.awake _ x hx hxidle
      · exact h.awake _ x hx hxidle
    · exact h.awake b x hx hxidle
  · exact Layout.mem_reschedule.mpr (.inl ⟨rfl, hwin⟩)
  · exact fun b hb hb' => hother hb hb'

end LibXenon
