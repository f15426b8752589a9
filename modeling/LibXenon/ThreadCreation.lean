/-
LibXenon/ThreadCreation.lean

Where new threads go: `thread_create`, and the start-up of the processors.

`Shape.create_spec` says that `thread_create` pushes a free slot of the pool
on the ring of the calling processor; `Shape.own_spec` that a processor that
starts up has the thread it is running as its only one.  By induction over
the order in which the processors start, `threadingInit_spec` gives the
layout at the end of `threading_init`: the main thread and six idle threads.
-/
import LibXenon.ThreadLayout

namespace LibXenon

open Links List

variable {L : Layout} {m m' m₀ : Machine} {on : Processor → Prop} {p q : Processor}
variable {i t x : PThread}

/-! ### The pool -/

/-- `thread_pool_alloc` finds a slot that is not valid. -/
theorem threadPoolAlloc_spec (hal : threadPoolAlloc m = some (m', i)) :
    i < maxThreadCount ∧ (m.thread i).valid = false ∧
      m' = m.modifyThread i fun _ => Thread.fresh i := by
  rw [threadPoolAlloc] at hal
  split at hal
  · cases hal
  · rename_i j hfind
    cases hal
    have hfree := List.find?_some hfind
    have hmem := mem_of_find?_eq_some hfind
    simp only [Bool.and_eq_true, Bool.not_eq_true'] at hfree
    exact ⟨mem_range.mp hmem, hfree.1, rfl⟩

/-- When the first `k` slots are valid and slot `k` is free, it is next. -/
theorem threadPoolAlloc_next {k : Nat} (hk : k < maxThreadCount)
    (hbelow : ∀ t < k, (m.thread t).valid = true)
    (hfree : (m.thread k).valid = false ∧ (m.thread k).handleOpen = false) :
    threadPoolAlloc m = some (m.modifyThread k fun _ => Thread.fresh k, k) := by
  have hfind : (List.range maxThreadCount).find?
      (fun i => !(m.thread i).valid && !(m.thread i).handleOpen) = some k := by
    rw [List.find?_range_eq_some]
    refine ⟨by simp [hfree], mem_range.mpr hk, ?_⟩
    intro j hj
    simp [hbelow j hj]
  rw [threadPoolAlloc, hfind]

theorem Placed.notMem_of_invalid (h : Placed m L) (hi : (m.thread i).valid = false) (b : Place) :
    i ∉ L.list b := by
  intro hb
  rw [(h.valid i).mpr ⟨b, hb⟩] at hi
  cases hi

theorem Placed.modify_lists (h : Placed m L) (hi : ∀ b, i ∉ L.list b) (f : Thread → Thread) :
    (∀ q, Ringed (m.modifyThread i f) q (L.list (.ring q))) ∧
      ∀ q, Swapped (m.modifyThread i f) q (L.list (.swap q)) := by
  have hne : ∀ {b}, ∀ x ∈ L.list b, (m.modifyThread i f).thread x = m.thread x := by
    intro b x hx
    rw [thread_modifyThread, if_neg]
    rintro rfl
    exact hi b hx
  refine ⟨fun q => ?_, fun q => ?_⟩
  · exact (h.ring q).congr (fun x hx => by rw [Machine.next, hne x hx]; rfl)
      (fun x hx => by rw [Machine.prev, hne x hx]; rfl) rfl rfl
  · exact (h.swap q).congr (fun x hx => by rw [Machine.next, hne x hx]; rfl)
      (fun x hx => by rw [Machine.prev, hne x hx]; rfl) rfl rfl

/-- A field that is no link, when slot `i` has been written. -/
theorem field_of_body {β : Type*} {y : Thread}
    (hbody : ∀ x, (m'.thread x).body = if x = i then y.body else (m.thread x).body)
    (g : Thread → β) (x : PThread) (hg : ∀ z, g z.body = g z := by intro _; rfl) :
    g (m'.thread x) = if x = i then g y else g (m.thread x) := by
  rw [← hg, hbody, apply_ite g, hg, hg]

theorem Shape.push_spec {a : Place} {y : Thread} (h : Shape on m L) (hfresh : ∀ b, i ∉ L.list b)
    (hi : i < maxThreadCount)
    (hring : ∀ q, Ringed m' q ((L.push a i hfresh).list (.ring q)))
    (hswap : ∀ q, Swapped m' q ((L.push a i hfresh).list (.swap q)))
    (hbody : ∀ x, (m'.thread x).body = if x = i then y.body else (m.thread x).body)
    (hvalid : y.valid = true) (hhome : y.thisProcessor = some a.processor)
    (hready : Idle i → y.ready = true)
    (hfull : ∀ x, x = i ∨ FullLinked m x → FullLinked m' x)
    (hlisted : m'.threadList.firstThread ≠ none ∧ m'.threadList.lastThread ≠ none)
    (hcur : ∀ q, on q → (m'.processor q).currentThread ≠ none) :
    Shape on m' (L.push a i hfresh) := by
  have hne : ∀ {b}, ∀ x ∈ L.list b, x ≠ i := fun x hx hxi => hfresh _ (hxi ▸ hx)
  refine ⟨⟨hring, hswap, fun x => ?_, fun b x hx => ?_, fun b x hx => ?_⟩, fun b x hx => ?_,
    fun _ _ _ => hlisted, hcur, fun q hq => ?_, fun b x hx hidle => ?_⟩
  · rw [field_of_body hbody Thread.valid]
    simp only [Layout.mem_push]
    by_cases hxi : x = i
    · rw [if_pos hxi]
      exact ⟨fun _ => ⟨a, .inl ⟨hxi, rfl⟩⟩, fun _ => hvalid⟩
    · rw [if_neg hxi, h.valid x]
      simp [hxi]
  · rw [field_of_body hbody Thread.thisProcessor]
    rcases Layout.mem_push.mp hx with ⟨rfl, rfl⟩ | hxb
    · exact (if_pos rfl).trans hhome
    · exact (if_neg (hne x hxb)).trans (h.home b x hxb)
  · rcases Layout.mem_push.mp hx with ⟨rfl, -⟩ | hxb
    · exact hi
    · exact h.pool b x hxb
  · exact hfull x ((Layout.mem_push.mp hx).imp And.left (h.full b x))
  · obtain ⟨j, hj, hidle⟩ := h.idle q hq
    exact ⟨j, Layout.mem_push.mpr (.inr hj), hidle⟩
  · rw [field_of_body hbody Thread.ready]
    rcases Layout.mem_push.mp hx with ⟨rfl, -⟩ | hxb
    · exact (if_pos rfl).trans (hready hidle)
    · exact (if_neg (hne x hxb)).trans (h.awake b x hxb hidle)

/-- Full links of the other threads are not touched by writing to slot `i`. -/
theorem FullLinked.of_thread (hx : FullLinked m x) (hsame : m'.thread x = m.thread x) :
    FullLinked m' x := by
  unfold FullLinked Machine.next Machine.prev at hx ⊢
  rw [hsame]
  exact hx

/-! ### `thread_create` -/

theorem plain_prime (flags : UInt32) (start : Context → Context) :
    Plain (Thread.prime flags start) := {}

theorem insertFirstFull_spec (hfirst : m.threadList.firstThread ≠ none)
    (hlast : m.threadList.lastThread ≠ none) (t : PThread) :
    ∃ m', insertFirstFull m t = some m' ∧ m'.processor = m.processor ∧ m'.image = m.image ∧
      (m'.threadList.firstThread ≠ none ∧ m'.threadList.lastThread ≠ none) ∧
      (∀ x, (m'.thread x).body = (m.thread x).body) ∧
      (m'.next .run = m.next .run ∧ m'.prev .run = m.prev .run) ∧
      ∀ x, x = t ∨ FullLinked m x → FullLinked m' x := by
  obtain ⟨a, ha⟩ := Option.ne_none_iff_exists'.mp hfirst
  obtain ⟨z, hz⟩ := Option.ne_none_iff_exists'.mp hlast
  obtain ⟨m₁, hm₁, hedit, hnext, hprev⟩ := linkBefore_spec .full m t a z
  refine ⟨{ m₁ with threadList := { m₁.threadList with firstThread := some t } }, ?_,
    hedit.processor, hedit.image, ⟨Option.some_ne_none t, ?_⟩, hedit.body,
    ⟨hedit.next .run (by decide), hedit.prev .run (by decide)⟩, ?_⟩
  · rw [insertFirstFull, ha, hz, hm₁]
    rfl
  · show m₁.threadList.lastThread ≠ none
    rw [hedit.threadList]
    exact hlast
  · intro x hx
    refine ⟨?_, ?_⟩
    · show m₁.next .full x ≠ none
      rw [hnext]
      rcases hx with rfl | hx
      · split <;> simp
      · split_ifs <;> simp [hx.1]
    · show m₁.prev .full x ≠ none
      rw [hprev]
      rcases hx with rfl | hx
      · split <;> simp
      · split_ifs <;> simp [hx.2]

/-- **Creating a thread** pushes a free slot on the caller's ring. -/
theorem Shape.create_spec (h : Shape on m L) (hne : L.list (.ring p) ≠ [])
    (hal : threadPoolAlloc m = some (m₀, i)) (flags : UInt32)
    (hawake : Idle i → flags &&& threadFlagCreateSuspended = 0)
    (entrypoint argument : UInt64) (stackSize stack : UInt32) :
    ∃ m', ∃ hfresh : ∀ b, i ∉ L.list b,
      threadCreate m p entrypoint stackSize argument flags (some stack) = some (m', some i) ∧
      Shape on m' (L.push (.ring p) i hfresh) ∧
      Untouched m m' ∧ ∀ x, x ≠ i → (m'.thread x).body = (m.thread x).body := by
  obtain ⟨hi, hinvalid, rfl⟩ := threadPoolAlloc_spec hal
  have hfresh := h.notMem_of_invalid hinvalid
  set f := Thread.setup p stack (roundStackSize stackSize) with hf
  obtain ⟨hring₁, hswap₁⟩ := h.modify_lists hfresh fun _ => f (Thread.fresh i)
  obtain ⟨m₁, hm₁⟩ : ∃ m₁, m.modifyThread i (fun _ => f (Thread.fresh i)) = m₁ := ⟨_, rfl⟩
  rw [hm₁] at hring₁ hswap₁
  have hthread₁ : ∀ x, m₁.thread x = if x = i then f (Thread.fresh i) else m.thread x := by
    intro x
    rw [← hm₁]
    rfl
  have hproc₁ : m₁.processor = m.processor := by rw [← hm₁]; rfl
  obtain ⟨m₂, hm₂, hring₂, hedit₂, hfswap₂, hcur₂, hbody₂⟩ :=
    (hring₁ p).insertFirst_spec hne (hfresh _)
  obtain ⟨y, hy⟩ := exists_mem_of_ne_nil _ hne
  have hlist₂ : m₂.threadList = m.threadList := by
    rw [hedit₂.threadList, ← hm₁]
    rfl
  obtain ⟨m₃, hm₃, hproc₃, himage₃, hlist₃, hbody₃, ⟨hnext₃, hprev₃⟩, hfull₃⟩ :=
    insertFirstFull_spec (m := m₂) (by rw [hlist₂]; exact (h.listed _ y hy).1)
      (by rw [hlist₂]; exact (h.listed _ y hy).2) i
  set g := Thread.prime flags
    (startContext m₃ p entrypoint argument stack (roundStackSize stackSize)) with hg
  have hplain : Plain g := plain_prime _ _
  have hbody : ∀ x, ((m₃.modifyThread i g).thread x).body
      = if x = i then (g (f (Thread.fresh i))).body else (m.thread x).body := by
    intro x
    rw [hplain.body_modify, hbody₃, hbody₂, hthread₁, hplain.body]
    by_cases hx : x = i
    · rw [if_pos hx, if_pos hx, if_pos hx]
    · rw [if_neg hx, if_neg hx, if_neg hx]
  have hcur : ∀ q, ((m₃.modifyThread i g).processor q).currentThread
      = (m.processor q).currentThread := by
    intro q
    rw [processor_modifyThread, hproc₃]
    by_cases hq : q = p
    · rw [hq, hcur₂, hproc₁]
    · rw [hedit₂.other q hq, hproc₁]
  -- a list other than the ring keeps its links
  have hout : ∀ {b}, b ≠ .ring p → ∀ x ∈ L.list b, x ∉ i :: L.list (.ring p) := by
    intro b hb x hx hmem
    rcases mem_cons.mp hmem with rfl | hmem
    · exact hfresh b hx
    · exact hb (L.unique hx hmem)
  have hkept : ∀ x, (m.thread x).valid = true → x ≠ i := by
    rintro x hvalid rfl
    exact Bool.false_ne_true (hinvalid.symm.trans hvalid)
  have himage : m₃.image = m.image := by
    rw [himage₃, hedit₂.image, ← hm₁]
    rfl
  refine ⟨m₃.modifyThread i g, hfresh, ?_, h.push_spec hfresh hi ?_ ?_ hbody rfl rfl ?_ ?_ hlist₃ ?_,
    ⟨⟨hcur, himage, fun x hx => ?_, fun x hx => ?_⟩, fun x hx => ?_, fun x hx hx' => ?_⟩, ?_⟩
  · simp only [threadCreate, hal]
    rw [modifyThread_modifyThread, ← hf, hm₁, hm₂]
    show ((insertFirstFull m₂ i).bind _) = _
    rw [hm₃]
    rfl
  · intro q
    refine Ringed.plain ?_ hplain i
    have hring : Ringed m₂ q ((L.push (.ring p) i hfresh).list (.ring q)) := by
      rw [Layout.push_list]
      by_cases hq : q = p
      · rw [hq, if_pos rfl]
        exact hring₂
      · rw [if_neg (by simpa using hq)]
        exact (hring₁ q).of_edit hedit₂ hq (hout (by simpa using hq))
    exact hring.congr (fun x _ => by rw [hnext₃]) (fun x _ => by rw [hprev₃])
      (by rw [hproc₃]) (by rw [hproc₃])
  · intro q
    refine Swapped.plain ?_ hplain i
    have hswap : Swapped m₂ q ((L.push (.ring p) i hfresh).list (.swap q)) := by
      rw [Layout.push_list, if_neg (by simp)]
      by_cases hq : q = p
      · rw [hq]
        exact (hswap₁ p).congr (fun x hx => hedit₂.next x (hout (by simp) x hx))
          (fun x hx => hedit₂.prev x (hout (by simp) x hx)) hfswap₂ hedit₂.lastSwap
      · exact (hswap₁ q).of_edit hedit₂ hq (hout (by simp))
    exact hswap.congr (fun x _ => by rw [hnext₃]) (fun x _ => by rw [hprev₃])
      (by rw [hproc₃]) (by rw [hproc₃])
  · intro hidle
    simp [hg, hf, Thread.prime, Thread.setup, Thread.fresh, Thread.ready, hawake hidle]
  · intro x hx
    refine (hplain.ringEdit m₃ p i).full x (hfull₃ x ?_)
    by_cases hxi : x = i
    · exact .inl hxi
    · have hsame : m₁.thread x = m.thread x := by rw [hthread₁, if_neg hxi]
      exact .inr (hedit₂.full x ((hx.resolve_left hxi).of_thread hsame))
  · intro q hq
    rw [hcur q]
    exact h.current q hq
  · exact (field_of_body hbody Thread.context x).trans (if_neg (hkept x hx))
  · exact (field_of_body hbody Thread.priorityBoost x).trans (if_neg (hkept x hx))
  · exact (field_of_body hbody Thread.maxPriorityBoost x).trans (if_neg (hkept x hx))
  · rw [field_of_body hbody Thread.valid] at hx'
    rw [field_of_body hbody Thread.priorityBoost]
    by_cases hxi : x = i
    · exact if_pos hxi
    · exact absurd (hx.symm.trans ((if_neg hxi).symm.trans hx')) Bool.false_ne_true
  · intro x hx
    rw [hbody x, if_neg hx]

/-! ### Own threads -/

theorem linkFull_spec {a z : PThread} (ha : m.threadList.firstThread = some a)
    (hz : m.threadList.lastThread = some z) (t : PThread) :
    ∃ m', linkFull m t = some m' ∧ LinkEdit .full m m' ∧
      ∀ x, x = t ∨ FullLinked m x → FullLinked m' x := by
  refine ⟨(((m.modifyThread z (Thread.setNext .full (some t))).modifyThread a
    (Thread.setPrev .full (some t))).modifyThread t (Thread.setNext .full (some a))).modifyThread t
    (Thread.setPrev .full (some z)), ?_, ?_, ?_⟩
  · rw [linkFull, hz]
    show ((m.modifyThread z _).store m.threadList.firstThread _).bind _ = _
    rw [ha]
    show some ((Machine.modifyThread _ t (Thread.setNext .full m.threadList.firstThread)).modifyThread
      t (Thread.setPrev .full m.threadList.lastThread)) = _
    rw [ha, hz]
  · exact (((linkEdit_setNext .full m z _).trans (linkEdit_setPrev .full _ a _)).trans
      (linkEdit_setNext .full _ t _)).trans (linkEdit_setPrev .full _ t _)
  · intro x hx
    unfold FullLinked
    rw [next_modify_setPrev, next_modify_setNext, next_modify_setPrev, next_modify_setNext,
      prev_modify_setPrev, prev_modify_setNext, prev_modify_setPrev, prev_modify_setNext]
    rcases hx with rfl | hx
    · rw [if_pos rfl, if_pos rfl]
      exact ⟨Option.some_ne_none a, Option.some_ne_none z⟩
    · refine ⟨?_, ?_⟩
      · split_ifs <;> simp [hx.1]
      · split_ifs <;> simp [hx.2]

/-- The slot of an own thread. -/
def ownRecord (p : Processor) (i : PThread) : Thread :=
  if p = 0 then ((Thread.fresh i).own p i).main else (Thread.fresh i).own p i

theorem ownRecord_fields (p : Processor) (i : PThread) :
    (ownRecord p i).next .run = some i ∧ (ownRecord p i).prev .run = some i ∧
      (ownRecord p i).ready = true ∧ (ownRecord p i).thisProcessor = some p ∧
      (ownRecord p i).valid = true := by
  unfold ownRecord
  split <;> exact ⟨rfl, rfl, rfl, rfl, rfl⟩

/-- An own thread before it is put on the list of all threads. -/
def ownStart (m : Machine) (p : Processor) (i : PThread) : Machine :=
  { (m.modifyThread i fun _ => ownRecord p i).modifyProcessor p fun b =>
      { b with currentThread := some i, firstThread := some i, lastThread := some i } with
    threadList := if p = 0 then ⟨some i, some i⟩ else m.threadList }

theorem createOwnThread_eq (hal : threadPoolAlloc m = some (m₀, i)) :
    createOwnThread m p = (linkFull (ownStart m p i) i).bind fun m' => some (m', i) := by
  obtain ⟨-, -, rfl⟩ := threadPoolAlloc_spec hal
  rw [createOwnThread, hal]
  show ((linkFull (if p = 0 then _ else _) i).bind _) = _
  congr 2
  unfold ownStart ownRecord
  rw [modifyThread_modifyThread]
  split
  · show Machine.mk _ _ _ _ _ = Machine.mk _ _ _ _ _
    congr 1
    funext x
    show (if x = i then Thread.main (if x = i then _ else _) else if x = i then _ else _)
      = if x = i then _ else _
    split <;> rfl
  · rfl

/-- **A processor that starts up** has the thread it is running as the only
one of its ring. -/
theorem Shape.own_spec (h : Shape on m L) (hring : L.list (.ring p) = [])
    (hp : p = 0 ∨ m.threadList.firstThread ≠ none ∧ m.threadList.lastThread ≠ none)
    (hal : threadPoolAlloc m = some (m₀, i)) :
    ∃ m', ∃ hfresh : ∀ b, i ∉ L.list b, createOwnThread m p = some (m', i) ∧
      Shape on m' (L.push (.ring p) i hfresh) ∧
      (m'.processor p).currentThread = some i ∧
      (∀ q, q ≠ p → (m'.processor q).currentThread = (m.processor q).currentThread) ∧
      ∀ x, x ≠ i → (m'.thread x).body = (m.thread x).body := by
  obtain ⟨hi, hinvalid, -⟩ := threadPoolAlloc_spec hal
  have hfresh := h.notMem_of_invalid hinvalid
  obtain ⟨hnext, hprev, hready, hhome, hvalid⟩ := ownRecord_fields p i
  obtain ⟨hring₁, hswap₁⟩ := h.modify_lists hfresh fun _ => ownRecord p i
  -- first the writes to the processor, then the list of all threads
  set m₁ := ownStart m p i with hm₁
  have hthread₁ : ∀ x, m₁.thread x = if x = i then ownRecord p i else m.thread x := fun _ => rfl
  have hproc₁ : ∀ q, q ≠ p → m₁.processor q = m.processor q :=
    fun q hq => if_neg hq
  have hprocp : m₁.processor p = { m.processor p with
      currentThread := some i, firstThread := some i, lastThread := some i } := if_pos rfl
  have hlist₁ : m₁.threadList.firstThread ≠ none ∧ m₁.threadList.lastThread ≠ none := by
    show (if p = 0 then (⟨some i, some i⟩ : ThreadList) else m.threadList).firstThread ≠ none ∧
      (if p = 0 then (⟨some i, some i⟩ : ThreadList) else m.threadList).lastThread ≠ none
    split
    · exact ⟨Option.some_ne_none i, Option.some_ne_none i⟩
    · exact hp.resolve_left ‹_›
  obtain ⟨a, ha⟩ := Option.ne_none_iff_exists'.mp hlist₁.1
  obtain ⟨z, hz⟩ := Option.ne_none_iff_exists'.mp hlist₁.2
  obtain ⟨m', hm', hedit, hfull⟩ := linkFull_spec ha hz i
  have hbody : ∀ x, (m'.thread x).body
      = if x = i then (ownRecord p i).body else (m.thread x).body := by
    intro x
    rw [hedit.body, hthread₁, apply_ite Thread.body]
  have hnextrun : ∀ x, m'.next .run x = (m₁.thread x).next .run :=
    fun x => congrFun (hedit.next .run (by decide)) x
  have hprevrun : ∀ x, m'.prev .run x = (m₁.thread x).prev .run :=
    fun x => congrFun (hedit.prev .run (by decide)) x
  refine ⟨m', hfresh, ?_, h.push_spec hfresh hi ?_ ?_ hbody hvalid hhome (fun _ => hready) ?_ ?_ ?_,
    ?_, ?_, ?_⟩
  · rw [createOwnThread_eq hal, ← hm₁, hm']
    rfl
  · intro q
    rw [Layout.push_list]
    by_cases hq : q = p
    · rw [hq, if_pos rfl, hring]
      -- the new thread is a ring by itself
      refine ⟨nodup_singleton i, ring_singleton ?_ ?_, ?_, ?_⟩
      · rw [hnextrun, hthread₁, if_pos rfl]
        exact hnext
      · rw [hprevrun, hthread₁, if_pos rfl]
        exact hprev
      · rw [hedit.processor, hprocp]
        rfl
      · rw [hedit.processor, hprocp]
        rfl
    · rw [if_neg (by simpa using hq)]
      -- the other rings do not see it
      refine (hring₁ q).congr (fun x _ => hnextrun x) (fun x _ => hprevrun x) ?_ ?_
      · rw [hedit.processor, hproc₁ q hq]
        rfl
      · rw [hedit.processor, hproc₁ q hq]
        rfl
  · intro q
    rw [Layout.push_list, if_neg (by simp)]
    have hq : (m'.processor q).firstSwapProcess = (m.processor q).firstSwapProcess ∧
        (m'.processor q).lastSwapProcess = (m.processor q).lastSwapProcess := by
      rw [hedit.processor]
      by_cases hq : q = p
      · rw [hq, hprocp]
        exact ⟨rfl, rfl⟩
      · rw [hproc₁ q hq]
        exact ⟨rfl, rfl⟩
    exact (hswap₁ q).congr (fun x _ => hnextrun x) (fun x _ => hprevrun x) hq.1 hq.2
  · intro x hx
    refine hfull x ?_
    by_cases hxi : x = i
    · exact .inl hxi
    · have hsame : m₁.thread x = m.thread x := by rw [hthread₁, if_neg hxi]
      exact .inr ((hx.resolve_left hxi).of_thread hsame)
  · rw [hedit.threadList]
    exact hlist₁
  · intro q hq
    rw [hedit.processor]
    by_cases hqp : q = p
    · rw [hqp, hprocp]
      exact Option.some_ne_none i
    · rw [hproc₁ q hqp]
      exact h.current q hq
  · rw [hedit.processor, hprocp]
  · intro q hq
    rw [hedit.processor, hproc₁ q hq]
  · intro x hx
    rw [hbody x, if_neg hx]

/-! ### `threading_init` -/

/-- The processors `started` are up, and the first `k` slots of the pool are
taken. -/
structure Booting (k : Nat) (started : List Processor) (m : Machine) (L : Layout) : Prop where
  shape : Shape (· ∈ started) m L
  offline : ∀ p, p ∉ started → L.list (.ring p) = []
  running : ∀ p t, (m.processor p).currentThread = some t → t ∈ L.list (.ring p)
  below : ∀ t, t < k → (m.thread t).valid = true
  above : ∀ t, k ≤ t → (m.thread t).valid = false ∧ (m.thread t).handleOpen = false

variable {k : Nat} {started : List Processor}

theorem shape_empty (image : Image) (clock : Nat) :
    Shape (fun _ => False) { image := image, clock := clock } Layout.empty where
  ring _ := ⟨nodup_nil, ring_nil, rfl, rfl⟩
  swap _ := ⟨nodup_nil, NullList.nil, rfl, rfl⟩
  valid t := by
    constructor
    · intro h
      cases h
    · rintro ⟨_, h⟩
      cases h
  home _ _ h := by cases h
  pool _ _ h := by cases h
  full _ _ h := by cases h
  listed _ _ h := by cases h
  current _ h := h.elim
  idle _ h := h.elim
  awake _ _ h := by cases h

theorem Shape.start {on' : Processor → Prop} (h : Shape on m L)
    (hon : ∀ q, on' q → q = p ∨ on q) (hcur : (m.processor p).currentThread ≠ none)
    (hidle : ∃ t ∈ L.list (.ring p), Idle t) : Shape on' m L where
  toPlaced := h.toPlaced
  full := h.full
  listed := h.listed
  current q hq := by
    rcases hon q hq with rfl | hq
    · exact hcur
    · exact h.current q hq
  idle q hq := by
    rcases hon q hq with rfl | hq
    · exact hidle
    · exact h.idle q hq
  awake := h.awake

theorem Booting.alloc (h : Booting k started m L) (hk : k < maxThreadCount) :
    threadPoolAlloc m = some (m.modifyThread k fun _ => Thread.fresh k, k) :=
  threadPoolAlloc_next hk h.below (h.above k (Nat.le_refl k))

/-- A processor other than the first starts up: slot `k` is its idle
thread. -/
theorem Booting.startup_spec (h : Booting k started m L) (hp : p ∉ started) (hp0 : p ≠ 0)
    (hk : Idle k) (stack : Option UInt32) :
    ∃ m' L', threadStartup m p stack = some m' ∧ Booting (k + 1) (p :: started) m' L' := by
  obtain ⟨hk1, hk6⟩ := hk
  have hkmax : k < maxThreadCount := lt_of_le_of_lt hk6 (by decide)
  -- thread 0 is there, so the list of all threads has its ends
  obtain ⟨a, ha⟩ := (h.shape.valid 0).mp (h.below 0 hk1)
  obtain ⟨m₁, hfresh, hown, hshape, hcurp, hcurq, hbody⟩ :=
    h.shape.own_spec (h.offline p hp) (.inr (h.shape.listed a 0 ha)) (h.alloc hkmax)
  have hmem : k ∈ (L.push (.ring p) k hfresh).list (.ring p) :=
    Layout.mem_push.mpr (.inl ⟨rfl, rfl⟩)
  have hother : ∀ t, t ≠ k → ((m₁.modifyThread k Thread.close).thread t).body
      = (m.thread t).body := by
    intro t ht
    rw [mild_close.body_modify, if_neg ht, hbody t ht]
  refine ⟨m₁.modifyThread k Thread.close, L.push (.ring p) k hfresh, ?_, ?_, ?_, ?_, ?_, ?_⟩
  · rw [threadStartup, threadCreateIdleThread, hown]
    show ((if p = 0 then _ else some (m₁, k)).bind _) = _
    rw [if_neg hp0]
    exact lockedModify_eq (hshape.home _ k hmem)
  · refine Shape.start (p := p) (hshape.quiet mild_close.toQuiet k fun _ x hx => hx)
      (fun q hq => mem_cons.mp hq) ?_ ⟨k, hmem, hk1, hk6⟩
    rw [processor_modifyThread, hcurp]
    exact Option.some_ne_none k
  · intro q hq
    rw [mem_cons, not_or] at hq
    rw [Layout.push_list, if_neg (by simpa using hq.1)]
    exact h.offline q hq.2
  · intro q t hcur
    rw [processor_modifyThread] at hcur
    by_cases hq : q = p
    · rw [hq, hcurp] at hcur
      cases hcur
      rw [hq]
      exact hmem
    · rw [hcurq q hq] at hcur
      exact Layout.mem_push.mpr (.inr (h.running q t hcur))
  · intro t ht
    by_cases htk : t = k
    · rw [htk]
      exact ((hshape.quiet mild_close.toQuiet k fun _ x hx => hx).valid k).mpr ⟨_, hmem⟩
    · exact (congrArg Thread.valid (hother t htk) :).trans (h.below t (by omega))
  · intro t ht
    have htk : t ≠ k := by omega
    exact (h.above t (by omega)).imp (congrArg Thread.valid (hother t htk) :).trans
      (congrArg Thread.handleOpen (hother t htk) :).trans

theorem booting_first (image : Image) (clock : Nat) (stack : UInt32) :
    ∃ m L, threadStartup { image := image, clock := clock } 0 (some stack) = some m ∧
      Booting 2 [0] m L := by
  set m₀ : Machine := { image := image, clock := clock } with hm₀
  -- the main thread, in slot 0
  obtain ⟨m₁, hfresh₁, hown, hshape₁, hcur₁, hcurq₁, hbody₁⟩ :=
    (shape_empty image clock).own_spec (p := 0) rfl (.inl rfl)
      (threadPoolAlloc_next (k := 0) (by decide) (fun t ht => absurd ht (Nat.not_lt_zero t))
        ⟨rfl, rfl⟩)
  have hmem₁ : 0 ∈ (Layout.empty.push (.ring 0) 0 hfresh₁).list (.ring 0) :=
    Layout.mem_push.mpr (.inl ⟨rfl, rfl⟩)
  have hfree₁ : ∀ t, t ≠ 0 → (m₁.thread t).valid = false ∧ (m₁.thread t).handleOpen = false :=
    fun t ht => ⟨(congrArg Thread.valid (hbody₁ t ht) :),
      (congrArg Thread.handleOpen (hbody₁ t ht) :)⟩
  have hal₁ : threadPoolAlloc m₁ = some (m₁.modifyThread 1 fun _ => Thread.fresh 1, 1) := by
    refine threadPoolAlloc_next (by decide) ?_ (hfree₁ 1 (by decide))
    intro t ht
    rw [Nat.lt_one_iff.mp ht]
    exact (hshape₁.valid 0).mpr ⟨_, hmem₁⟩
  -- the idle thread, in slot 1
  obtain ⟨m₂, hfresh₂, hcreate, hshape₂, huntouched, hbody₂⟩ :=
    hshape₁.create_spec (p := 0) (ne_nil_of_mem hmem₁) hal₁ 0
      (fun _ => rfl) m₁.image.threadIdleLoop 0 0 stack
  set L := (Layout.empty.push (.ring 0) 0 hfresh₁).push (.ring 0) 1 hfresh₂ with hL
  have hmain : 0 ∈ L.list (.ring 0) := Layout.mem_push.mpr (.inr hmem₁)
  have hidle : 1 ∈ L.list (.ring 0) := Layout.mem_push.mpr (.inl ⟨rfl, rfl⟩)
  have hshape₃ := hshape₂.quiet (mild_setPriority 0).toQuiet 1 fun _ x hx => hx
  have hshape₄ := hshape₃.quiet (quiet_setPriorityBoost 0) 1 fun _ x hx => hx
  have hshape₅ := hshape₄.quiet mild_close.toQuiet 1 fun _ x hx => hx
  have hshape₆ := hshape₅.quiet mild_close.toQuiet 0 fun _ x hx => hx
  set m₅ := ((m₂.modifyThread 1 (Thread.setPriority 0)).modifyThread 1
    (Thread.setPriorityBoost 0)).modifyThread 1 Thread.close with hm₅
  refine ⟨m₅.modifyThread 0 Thread.close, L, ?_, ?_, ?_, ?_, ?_, ?_⟩
  · have hidleThread : threadCreateIdleThread m₀ 0 (some stack) = some (m₅, 0) := by
      rw [threadCreateIdleThread, hown]
      show ((threadCreate m₁ 0 _ 0 0 0 (some stack)).bind _) = _
      rw [hcreate]
      show ((threadSetPriority m₂ 1 0).bind _) = _
      rw [threadSetPriority, if_neg (by decide), lockedModify_eq (hshape₂.home _ 1 hidle)]
      show ((threadSetPriorityBoost _ 1 0).bind _) = _
      rw [threadSetPriorityBoost, lockedModify_eq (hshape₃.home _ 1 hidle)]
      show ((threadClose _ 1).bind _) = _
      rw [threadClose]
      exact congrArg (Option.bind · fun m => some (m, 0)) (lockedModify_eq (hshape₄.home _ 1 hidle))
    rw [threadStartup, hidleThread]
    exact lockedModify_eq (hshape₅.home _ 0 hmain)
  · refine hshape₆.start (p := 0) (fun q hq => .inl (mem_singleton.mp hq)) ?_
      ⟨1, hidle, by decide⟩
    show (m₂.processor 0).currentThread ≠ none
    rw [huntouched.current, hcur₁]
    exact Option.some_ne_none 0
  · intro p hp
    have hp0 : p ≠ 0 := fun h0 => hp (by simp [h0])
    rw [hL, Layout.push_list, if_neg (by simpa using hp0), Layout.push_list,
      if_neg (by simpa using hp0)]
    rfl
  · intro p t hcur
    have hcur' : (m₂.processor p).currentThread = some t := hcur
    rw [huntouched.current] at hcur'
    by_cases hp : p = 0
    · rw [hp, hcur₁] at hcur'
      cases hcur'
      rw [hp]
      exact hmain
    · rw [hcurq₁ p hp] at hcur'
      cases hcur'
  · intro t ht
    refine (hshape₆.valid t).mpr ⟨.ring 0, ?_⟩
    have ht' : t = 0 ∨ t = 1 := by omega
    rcases ht' with rfl | rfl
    · exact hmain
    · exact hidle
  · intro t ht
    have h0 : t ≠ 0 := by omega
    have h1 : t ≠ 1 := by omega
    have hsame : (m₅.modifyThread 0 Thread.close).thread t = m₂.thread t := by
      rw [thread_modifyThread, if_neg h0, hm₅, thread_modifyThread, if_neg h1,
        thread_modifyThread, if_neg h1, thread_modifyThread, if_neg h1]
    rw [hsame]
    exact (hfree₁ t h0).imp (congrArg Thread.valid (hbody₂ t h1) :).trans
      (congrArg Thread.handleOpen (hbody₂ t h1) :).trans

theorem Booting.startAll_spec (order : List Processor) :
    ∀ {k : Nat} {started : List Processor} {m : Machine} {L : Layout}, Booting k started m L →
      order.Nodup → (∀ p ∈ order, p ∉ started ∧ p ≠ 0) → 1 ≤ k → k + order.length ≤ 7 →
      ∃ m' L', order.foldlM (fun m p => threadStartup m p none) m = some m' ∧
        Booting (k + order.length) (order.reverse ++ started) m' L' := by
  induction order with
  | nil => exact fun h _ _ _ _ => ⟨_, _, rfl, h⟩
  | cons p order ih =>
    intro k started m L h hn hnew hk hlen
    obtain ⟨hp, hn'⟩ := nodup_cons.mp hn
    rw [length_cons] at hlen
    have hidle : 1 ≤ k ∧ k ≤ 6 := ⟨hk, by omega⟩
    obtain ⟨m₁, L₁, hm₁, h₁⟩ :=
      h.startup_spec (hnew p (by simp)).1 (hnew p (by simp)).2 hidle none
    obtain ⟨m', L', hm', h'⟩ := ih h₁ hn' (by
      intro q hq
      refine ⟨?_, (hnew q (mem_cons_of_mem _ hq)).2⟩
      rw [mem_cons, not_or]
      exact ⟨fun hqp => hp (hqp ▸ hq), (hnew q (mem_cons_of_mem _ hq)).1⟩)
      (by omega) (by omega)
    refine ⟨m', L', ?_, ?_⟩
    · rw [foldlM_cons, hm₁]
      exact hm'
    · rw [length_cons, reverse_cons, append_assoc,
        show k + (order.length + 1) = k + 1 + order.length by omega]
      exact h'

/-- A machine on which all six processors are up. -/
structure Online (m : Machine) (L : Layout) : Prop extends Shape (fun _ => True) m L where
  /-- All idle threads exist, and are ready. -/
  idlers : ∀ t, Idle t → (m.thread t).ready = true

/-- **After start-up** every processor runs a thread of its ring. -/
theorem threadingInit_spec (image : Image) (clock : Nat) (stack : UInt32)
    {order : List Processor} (horder : order.Perm [1, 2, 3, 4, 5]) :
    ∃ m L, threadingInit image clock (some stack) order = some m ∧ Online m L ∧
      ∀ p t, (m.processor p).currentThread = some t → t ∈ L.list (.ring p) := by
  obtain ⟨m₁, L₁, hm₁, h₁⟩ := booting_first image clock stack
  have hmem : ∀ p, p ∈ order ↔ p ≠ 0 := by
    intro p
    rw [horder.mem_iff]
    revert p
    decide
  obtain ⟨m, L, hm, h⟩ := h₁.startAll_spec order (horder.nodup_iff.mpr (by decide)) (by
    intro p hp
    have hp0 := (hmem p).mp hp
    exact ⟨by simpa using hp0, hp0⟩) (by decide) (by rw [horder.length_eq]; decide)
  refine ⟨m, L, ?_, ⟨h.shape.start (p := 0) ?_ ?_ ?_, ?_⟩, h.running⟩
  · rw [threadingInit, hm₁]
    exact hm
  · intro q _
    by_cases hq : q = 0
    · exact .inl hq
    · refine .inr ?_
      rw [mem_append, mem_reverse]
      exact .inl ((hmem q).mpr hq)
  · exact h.shape.current 0 (by simp)
  · exact h.shape.idle 0 (by simp)
  · intro t ht
    have hlen : order.length = 5 := horder.length_eq
    obtain ⟨a, ha⟩ := (h.shape.valid t).mp (h.below t (by rw [hlen]; exact Nat.lt_succ_of_le ht.2))
    exact h.shape.awake a t ha ht

theorem online_of_init {image : Image} {clock : Nat} {stack : UInt32} {order : List Processor}
    (horder : order.Perm [1, 2, 3, 4, 5]) {boot : Machine}
    (hboot : threadingInit image clock (some stack) order = some boot) :
    ∃ L, Online boot L ∧
      ∀ p t, (boot.processor p).currentThread = some t → t ∈ L.list (.ring p) := by
  obtain ⟨m, L, hm, h⟩ := threadingInit_spec image clock stack horder
  rw [hboot] at hm
  cases hm
  exact ⟨L, h⟩

/-! ### The threads of a ring -/

/-- Follow `NextThread` until the first thread comes next. -/
def walkRing (m : Machine) (first : Option PThread) : Nat → Option PThread → List PThread
  | 0, _ => []
  | _ + 1, none => []
  | n + 1, some t =>
    t :: if (m.thread t).nextThread = first then []
      else walkRing m first n (m.thread t).nextThread

/-- The threads of a processor's ring, from `FirstThread` on. -/
def ringList (m : Machine) (p : Processor) : List PThread :=
  walkRing m (m.processor p).firstThread maxThreadCount (m.processor p).firstThread

theorem walkRing_tail (rest : List PThread) :
    ∀ {done : List PThread} {t : PThread} {n : Nat}, Ringed m p (done ++ t :: rest) →
      rest.length < n → walkRing m (m.processor p).firstThread n (some t) = t :: rest := by
  induction rest with
  | nil =>
    intro done t n h hn
    obtain ⟨n, rfl⟩ := Nat.exists_eq_add_one.mpr hn
    rw [walkRing, if_pos h.next_last]
  | cons b r ih =>
    intro done t n h hn
    obtain ⟨n, rfl⟩ := Nat.exists_eq_add_one.mpr (Nat.zero_lt_of_lt hn)
    obtain ⟨hb, hfirst⟩ := h.next_inner
    rw [append_cons] at h
    rw [walkRing, hb, if_neg hfirst, ih h (Nat.lt_of_succ_lt_succ hn)]

theorem Online.ringList_eq (h : Online m L) (p : Processor) :
    ringList m p = L.list (.ring p) := by
  have hlen := h.length_le p
  have hring := h.ring p
  obtain ⟨i, hi, -⟩ := h.idle p trivial
  obtain ⟨a, l, hl⟩ := exists_cons_of_ne_nil (ne_nil_of_mem hi)
  rw [hl] at hring hlen ⊢
  have hring' : Ringed m p ([] ++ a :: l) := hring
  rw [ringList, hring.first]
  rw [length_cons] at hlen
  have hwalk := walkRing_tail l hring' (n := maxThreadCount) (by omega)
  rw [hring.first] at hwalk
  exact hwalk

theorem Online.scans (h : Online m L) (p : Processor) (cur : PThread) :
    ∃ r l m', L.list (.ring p) = r :: l ∧ (m.processor p).firstThread = some r ∧
      l.length < maxThreadCount ∧
      Scans p (m.modifyThread cur Thread.stop) r (if m.dead r then [] else l) m' := by
  obtain ⟨i, hi, hidle⟩ := h.idle p trivial
  have hlive : m.dead i = false := Thread.ready_not_reapable (h.awake _ i hi hidle)
  have hlen := h.length_le p
  have hring := h.ring p
  have hfull := h.full (.ring p)
  obtain ⟨r, l, hl⟩ := exists_cons_of_ne_nil (ne_nil_of_mem hi)
  rw [hl] at hi hring hlen hfull
  rw [length_cons] at hlen
  have hedit : RingEdit p [] m (m.modifyThread cur Thread.stop) := plain_stop.ringEdit m p cur
  obtain ⟨m', hscans, -⟩ := (hring.plain plain_stop cur).scans
    (fun x hx => hedit.full x (hfull x hx)) ⟨i, hi, by rw [dead_stop]; exact hlive⟩
  rw [dead_stop] at hscans
  exact ⟨r, l, m', hl, hring.first, by omega, hscans⟩

end LibXenon
