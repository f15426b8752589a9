/-
LibXenon/RunLists.lean

The lists of a processor, and the edits the thread functions make to them.

The lists are read off the heap by two relations: `Ringed m p l` says that
the processor's ring, entered through `FirstThread` and `LastThread`, runs
through `l`, and `Swapped m p l` that its swap list runs through `l`.  What
is not a link of a thread object is its `body`; an edit of an object that
keeps the links is `Plain`.

Every function of the code that moves a thread is made of three pieces:
joining the neighbours of a thread (`unlink_spec`), moving the ends off it
(`Ringed.detach`) and linking it in front of a ring (`Ringed.insertFirst_spec`) or
of a swap list.  What they leave alone is collected in `RingEdit`, so that
the edits of one function chain up.
-/
import LibXenon.Links
import LibXenon.Scheduler

namespace LibXenon

open Links List

variable {m m' m'' : Machine} {p : Processor} {t a z : PThread} {l S : List PThread} {c : Chain}

/-! ### Links and bodies -/

/-- A thread object without its list links. -/
def Thread.body (x : Thread) : Thread :=
  { x with
    nextThread := none
    previousThread := none
    nextThreadFull := none
    previousThreadFull := none }

/-- The forward links of a chain. -/
def Machine.next (m : Machine) (c : Chain) (t : PThread) : Option PThread := (m.thread t).next c

/-- The backward links of a chain. -/
def Machine.prev (m : Machine) (c : Chain) (t : PThread) : Option PThread := (m.thread t).prev c

@[simp] theorem body_setNext (c : Chain) (v : Option PThread) (x : Thread) :
    (x.setNext c v).body = x.body := by
  cases c <;> rfl

@[simp] theorem body_setPrev (c : Chain) (v : Option PThread) (x : Thread) :
    (x.setPrev c v).body = x.body := by
  cases c <;> rfl

@[simp] theorem next_setPrev (c c' : Chain) (v : Option PThread) (x : Thread) :
    (x.setPrev c v).next c' = x.next c' := by
  cases c <;> cases c' <;> rfl

@[simp] theorem prev_setNext (c c' : Chain) (v : Option PThread) (x : Thread) :
    (x.setNext c v).prev c' = x.prev c' := by
  cases c <;> cases c' <;> rfl

theorem next_setNext (c c' : Chain) (v : Option PThread) (x : Thread) :
    (x.setNext c v).next c' = if c' = c then v else x.next c' := by
  cases c <;> cases c' <;> rfl

theorem prev_setPrev (c c' : Chain) (v : Option PThread) (x : Thread) :
    (x.setPrev c v).prev c' = if c' = c then v else x.prev c' := by
  cases c <;> cases c' <;> rfl

/-- An edit of a thread object that neither writes nor reads the links. -/
structure Plain (f : Thread → Thread) : Prop where
  next : ∀ c x, (f x).next c = x.next c := by intro c _; cases c <;> rfl
  prev : ∀ c x, (f x).prev c = x.prev c := by intro c _; cases c <;> rfl
  body : ∀ x, (f x).body = f x.body := by intro _; rfl

/-! ### Edits of the machine -/

theorem thread_modifyThread (m : Machine) (t x : PThread) (f : Thread → Thread) :
    (m.modifyThread t f).thread x = if x = t then f (m.thread x) else m.thread x := rfl

theorem modifyThread_modifyThread (m : Machine) (t : PThread) (f g : Thread → Thread) :
    (m.modifyThread t f).modifyThread t g = m.modifyThread t fun x => g (f x) := by
  have hthread : (m.thread.modify t f).modify t g = m.thread.modify t fun x => g (f x) := by
    funext x
    rw [Heap.modify_apply, Heap.modify_apply, Heap.modify_apply]
    split <;> rfl
  rw [Machine.modifyThread, Machine.modifyThread, hthread]
  rfl

@[simp] theorem processor_modifyThread (m : Machine) (t : PThread) (f : Thread → Thread) :
    (m.modifyThread t f).processor = m.processor := rfl

@[simp] theorem thread_modifyProcessor (m : Machine) (p : Processor)
    (f : ProcessorDataBlock → ProcessorDataBlock) :
    (m.modifyProcessor p f).thread = m.thread := rfl

@[simp] theorem processor_modifyProcessor (m : Machine) (p : Processor)
    (f : ProcessorDataBlock → ProcessorDataBlock) :
    (m.modifyProcessor p f).processor p = f (m.processor p) := if_pos rfl

theorem processor_modifyProcessor_of_ne (m : Machine) {p q : Processor}
    (f : ProcessorDataBlock → ProcessorDataBlock) (hq : q ≠ p) :
    (m.modifyProcessor p f).processor q = m.processor q := if_neg hq

/-- The two full links are not NULL. -/
def FullLinked (m : Machine) (t : PThread) : Prop :=
  m.next .full t ≠ none ∧ m.prev .full t ≠ none

/-- What an edit of processor `p` that touches no run link outside `l`
leaves alone. -/
structure RingEdit (p : Processor) (l : List PThread) (m m' : Machine) : Prop where
  other : ∀ q, q ≠ p → m'.processor q = m.processor q
  lastSwap : (m'.processor p).lastSwapProcess = (m.processor p).lastSwapProcess
  threadList : m'.threadList = m.threadList
  clock : m'.clock = m.clock
  image : m'.image = m.image
  full : ∀ x, FullLinked m x → FullLinked m' x
  next : ∀ x, x ∉ l → m'.next .run x = m.next .run x
  prev : ∀ x, x ∉ l → m'.prev .run x = m.prev .run x

theorem RingEdit.refl (p : Processor) (l : List PThread) (m : Machine) : RingEdit p l m m :=
  ⟨fun _ _ => rfl, rfl, rfl, rfl, rfl, fun _ h => h, fun _ _ => rfl, fun _ _ => rfl⟩

theorem RingEdit.trans {l₁ l₂ : List PThread} (h₁ : RingEdit p l₁ m m')
    (h₂ : RingEdit p l₂ m' m'') (hl₁ : l₁ ⊆ l) (hl₂ : l₂ ⊆ l) : RingEdit p l m m'' where
  other q hq := (h₂.other q hq).trans (h₁.other q hq)
  lastSwap := h₂.lastSwap.trans h₁.lastSwap
  threadList := h₂.threadList.trans h₁.threadList
  clock := h₂.clock.trans h₁.clock
  image := h₂.image.trans h₁.image
  full x hx := h₂.full x (h₁.full x hx)
  next x hx := (h₂.next x fun hm => hx (hl₂ hm)).trans (h₁.next x fun hm => hx (hl₁ hm))
  prev x hx := (h₂.prev x fun hm => hx (hl₂ hm)).trans (h₁.prev x fun hm => hx (hl₁ hm))

/-- An edit of the links of chain `c` alone. -/
structure LinkEdit (c : Chain) (m m' : Machine) : Prop where
  processor : m'.processor = m.processor
  threadList : m'.threadList = m.threadList
  clock : m'.clock = m.clock
  image : m'.image = m.image
  body : ∀ x, (m'.thread x).body = (m.thread x).body
  next : ∀ c', c' ≠ c → m'.next c' = m.next c'
  prev : ∀ c', c' ≠ c → m'.prev c' = m.prev c'

theorem LinkEdit.refl (c : Chain) (m : Machine) : LinkEdit c m m :=
  ⟨rfl, rfl, rfl, rfl, fun _ => rfl, fun _ _ => rfl, fun _ _ => rfl⟩

theorem LinkEdit.trans (h₁ : LinkEdit c m m') (h₂ : LinkEdit c m' m'') : LinkEdit c m m'' where
  processor := h₂.processor.trans h₁.processor
  threadList := h₂.threadList.trans h₁.threadList
  clock := h₂.clock.trans h₁.clock
  image := h₂.image.trans h₁.image
  body x := (h₂.body x).trans (h₁.body x)
  next c' hc := (h₂.next c' hc).trans (h₁.next c' hc)
  prev c' hc := (h₂.prev c' hc).trans (h₁.prev c' hc)

theorem linkEdit_setNext (c : Chain) (m : Machine) (t : PThread) (v : Option PThread) :
    LinkEdit c m (m.modifyThread t (Thread.setNext c v)) where
  processor := rfl
  threadList := rfl
  clock := rfl
  image := rfl
  body x := Heap.modify_field m.thread t x Thread.body fun y => body_setNext c v y
  next c' hc := by
    funext x
    refine Heap.modify_field m.thread t x (Thread.next c') fun y => ?_
    rw [next_setNext, if_neg hc]
  prev c' hc := by
    funext x
    exact Heap.modify_field m.thread t x (Thread.prev c') fun y => prev_setNext c c' v y

theorem linkEdit_setPrev (c : Chain) (m : Machine) (t : PThread) (v : Option PThread) :
    LinkEdit c m (m.modifyThread t (Thread.setPrev c v)) where
  processor := rfl
  threadList := rfl
  clock := rfl
  image := rfl
  body x := Heap.modify_field m.thread t x Thread.body fun y => body_setPrev c v y
  next c' hc := by
    funext x
    exact Heap.modify_field m.thread t x (Thread.next c') fun y => next_setPrev c c' v y
  prev c' hc := by
    funext x
    refine Heap.modify_field m.thread t x (Thread.prev c') fun y => ?_
    rw [prev_setPrev, if_neg hc]

theorem next_modify_setNext (m : Machine) (c : Chain) (t x : PThread) (v : Option PThread) :
    (m.modifyThread t (Thread.setNext c v)).next c x = if x = t then v else m.next c x := by
  rw [Machine.next, thread_modifyThread]
  split
  · rw [next_setNext, if_pos rfl]
  · rfl

theorem prev_modify_setPrev (m : Machine) (c : Chain) (t x : PThread) (v : Option PThread) :
    (m.modifyThread t (Thread.setPrev c v)).prev c x = if x = t then v else m.prev c x := by
  rw [Machine.prev, thread_modifyThread]
  split
  · rw [prev_setPrev, if_pos rfl]
  · rfl

@[simp] theorem prev_modify_setNext (m : Machine) (c : Chain) (t x : PThread)
    (v : Option PThread) : (m.modifyThread t (Thread.setNext c v)).prev c x = m.prev c x :=
  Heap.modify_field m.thread t x (Thread.prev c) fun y => prev_setNext c c v y

@[simp] theorem next_modify_setPrev (m : Machine) (c : Chain) (t x : PThread)
    (v : Option PThread) : (m.modifyThread t (Thread.setPrev c v)).next c x = m.next c x :=
  Heap.modify_field m.thread t x (Thread.next c) fun y => next_setPrev c c v y

theorem linkEdit_storeIf_setPrev (c : Chain) (m : Machine) (ptr v : Option PThread) :
    LinkEdit c m (m.storeIf ptr (Thread.setPrev c v)) := by
  cases ptr with
  | none => exact LinkEdit.refl c m
  | some t => exact linkEdit_setPrev c m t v

theorem next_storeIf_setPrev (c : Chain) (m : Machine) (ptr v : Option PThread) (x : PThread) :
    (m.storeIf ptr (Thread.setPrev c v)).next c x = m.next c x := by
  cases ptr with
  | none => rfl
  | some t => exact next_modify_setPrev m c t x v

theorem prev_storeIf_setPrev (c : Chain) (m : Machine) (ptr v : Option PThread) (x : PThread) :
    (m.storeIf ptr (Thread.setPrev c v)).prev c x = if ptr = some x then v else m.prev c x := by
  cases ptr with
  | none => rfl
  | some t =>
    show (m.modifyThread t (Thread.setPrev c v)).prev c x = _
    rw [prev_modify_setPrev]
    simp only [Option.some.injEq, eq_comm]

theorem LinkEdit.fullLinked (h : LinkEdit c m m') (hc : Chain.full ≠ c) {x : PThread}
    (hx : FullLinked m x) : FullLinked m' x := by
  unfold FullLinked
  rw [h.next .full hc, h.prev .full hc]
  exact hx

/-- The links first, then the processor's own pointers. -/
theorem LinkEdit.ringEdit {f : ProcessorDataBlock → ProcessorDataBlock} (h : LinkEdit .run m m')
    (hf : ∀ b, (f b).lastSwapProcess = b.lastSwapProcess)
    (hnext : ∀ x, x ∉ l → m'.next .run x = m.next .run x)
    (hprev : ∀ x, x ∉ l → m'.prev .run x = m.prev .run x) :
    RingEdit p l m (m'.modifyProcessor p f) where
  other q hq := by rw [processor_modifyProcessor_of_ne _ _ hq, h.processor]
  lastSwap := by rw [processor_modifyProcessor, hf, h.processor]
  threadList := h.threadList
  clock := h.clock
  image := h.image
  full _ hx := h.fullLinked (by decide) hx
  next := hnext
  prev := hprev

section Plain

variable {f : Thread → Thread} (hf : Plain f)
include hf

theorem Plain.next_modify (m : Machine) (t : PThread) (c : Chain) :
    (m.modifyThread t f).next c = m.next c := by
  funext x
  exact Heap.modify_field m.thread t x (Thread.next c) (hf.next c)

theorem Plain.prev_modify (m : Machine) (t : PThread) (c : Chain) :
    (m.modifyThread t f).prev c = m.prev c := by
  funext x
  exact Heap.modify_field m.thread t x (Thread.prev c) (hf.prev c)

theorem Plain.body_modify (m : Machine) (t x : PThread) :
    ((m.modifyThread t f).thread x).body
      = if x = t then f (m.thread x).body else (m.thread x).body := by
  rw [thread_modifyThread]
  split
  · exact hf.body _
  · rfl

theorem Plain.ringEdit (m : Machine) (p : Processor) (t : PThread) :
    RingEdit p [] m (m.modifyThread t f) where
  other _ _ := rfl
  lastSwap := rfl
  threadList := rfl
  clock := rfl
  image := rfl
  full x hx := by
    unfold FullLinked
    rw [hf.next_modify, hf.prev_modify]
    exact hx
  next x _ := by rw [hf.next_modify]
  prev x _ := by rw [hf.prev_modify]

theorem Plain.body_ite (q : Prop) [Decidable q] (x : Thread) :
    (if q then f x else x).body = if q then f x.body else x.body := by
  rw [apply_ite Thread.body, hf.body]

end Plain

theorem Plain.comp {f g : Thread → Thread} (hf : Plain f) (hg : Plain g) :
    Plain fun x => g (f x) where
  next c x := (hg.next c _).trans (hf.next c x)
  prev c x := (hg.prev c _).trans (hf.prev c x)
  body x := by rw [hg.body, hf.body]

theorem Plain.ite {f g : Thread → Thread} {c : Thread → Prop} [DecidablePred c] (hf : Plain f)
    (hg : Plain g) (hc : ∀ x, c x.body ↔ c x) : Plain fun x => if c x then f x else g x where
  next k x := by rw [apply_ite (Thread.next k), hf.next, hg.next, ite_self]
  prev k x := by rw [apply_ite (Thread.prev k), hf.prev, hg.prev, ite_self]
  body x := by simp only [apply_ite Thread.body, hf.body, hg.body, hc]

/-! ### Unlinking -/

theorem unlink_none (h : m.next c t = none ∨ m.prev c t = none) : unlink c m t = none := by
  rw [unlink]
  rcases hn : (m.thread t).next c with - | a
  · rfl
  · have hp : m.prev c t = none := by
      rcases h with h | h
      · rw [Machine.next, hn] at h
        cases h
      · exact h
    have hp' : (m.modifyThread a (Thread.setPrev c ((m.thread t).prev c))).prev c t = none := by
      rw [prev_modify_setPrev]
      split
      · exact hp
      · exact hp
    show (m.modifyThread a _).store _ _ = none
    rw [Machine.prev] at hp'
    rw [hp']
    rfl

theorem unlink_spec (ha : m.next c t = some a) (hz : m.prev c t = some z) :
    ∃ m', unlink c m t = some m' ∧ LinkEdit c m m' ∧
      Unlink (m.next c) (m.prev c) (m'.next c) (m'.prev c) t a z := by
  have hz' : (m.modifyThread a (Thread.setPrev c (some z))).prev c t = some z := by
    rw [prev_modify_setPrev]
    split
    · rfl
    · exact hz
  have ha' : (m.modifyThread a (Thread.setPrev c (some z))).next c t = some a := by
    rw [next_modify_setPrev]
    exact ha
  refine ⟨(m.modifyThread a (Thread.setPrev c (some z))).modifyThread z
    (Thread.setNext c (some a)), ?_, ?_, ⟨ha, hz, ?_, ?_⟩⟩
  · rw [Machine.next] at ha ha'
    rw [Machine.prev] at hz hz'
    rw [unlink, ha, hz]
    show (m.modifyThread a _).store _ _ = _
    rw [hz', ha']
    rfl
  · exact (linkEdit_setPrev c m a _).trans (linkEdit_setNext c _ z _)
  · intro b
    rw [next_modify_setNext, next_modify_setPrev]
  · intro b
    rw [prev_modify_setNext, prev_modify_setPrev]

theorem fullLinked_of_unlink (hu : Unlink (m.next .full) (m.prev .full) (m'.next .full)
    (m'.prev .full) t a z) {x : PThread} (hx : FullLinked m x) : FullLinked m' x := by
  refine ⟨?_, ?_⟩
  · rw [hu.next_join]
    split
    · exact Option.some_ne_none a
    · exact hx.1
  · rw [hu.prev_join]
    split
    · exact Option.some_ne_none z
    · exact hx.2

theorem linkBefore_spec (c : Chain) (m : Machine) (t a z : PThread) :
    ∃ m', linkBefore c m (some a) (some z) t = some m' ∧ LinkEdit c m m' ∧
      (∀ x, m'.next c x = if x = z then some t else if x = t then some a else m.next c x) ∧
      ∀ x, m'.prev c x = if x = a then some t else if x = t then some z else m.prev c x := by
  refine ⟨_, rfl, ?_, ?_, ?_⟩
  · exact (((linkEdit_setNext c m t (some a)).trans (linkEdit_setPrev c _ t (some z))).trans
      (linkEdit_setPrev c _ a (some t))).trans (linkEdit_setNext c _ z (some t))
  · intro x
    rw [next_modify_setNext, next_modify_setPrev, next_modify_setPrev, next_modify_setNext]
  · intro x
    rw [prev_modify_setNext, prev_modify_setPrev, prev_modify_setPrev, prev_modify_setNext]

/-! ### The lists of a processor -/

/-- The ring of processor `p` runs through `l`. -/
structure Ringed (m : Machine) (p : Processor) (l : List PThread) : Prop where
  nodup : l.Nodup
  ring : Ring (m.next .run) (m.prev .run) l
  first : (m.processor p).firstThread = l.head?
  last : (m.processor p).lastThread = l.getLast?

/-- The swap list of processor `p` runs through `l`; `LastSwapProcess` is
never set. -/
structure Swapped (m : Machine) (p : Processor) (l : List PThread) : Prop where
  nodup : l.Nodup
  list : NullList (m.next .run) (m.prev .run) l
  first : (m.processor p).firstSwapProcess = l.head?
  last : (m.processor p).lastSwapProcess = none

theorem Ringed.congr (h : Ringed m p l) (hnext : ∀ x ∈ l, m'.next .run x = m.next .run x)
    (hprev : ∀ x ∈ l, m'.prev .run x = m.prev .run x)
    (hfirst : (m'.processor p).firstThread = (m.processor p).firstThread)
    (hlast : (m'.processor p).lastThread = (m.processor p).lastThread) : Ringed m' p l :=
  ⟨h.nodup, h.ring.congr hnext hprev, hfirst.trans h.first, hlast.trans h.last⟩

theorem Swapped.congr (h : Swapped m p l) (hnext : ∀ x ∈ l, m'.next .run x = m.next .run x)
    (hprev : ∀ x ∈ l, m'.prev .run x = m.prev .run x)
    (hfirst : (m'.processor p).firstSwapProcess = (m.processor p).firstSwapProcess)
    (hlast : (m'.processor p).lastSwapProcess = (m.processor p).lastSwapProcess) :
    Swapped m' p l :=
  ⟨h.nodup, h.list.congr hnext hprev, hfirst.trans h.first, hlast.trans h.last⟩

theorem Ringed.plain {f : Thread → Thread} (h : Ringed m p l) (hf : Plain f) (t : PThread) :
    Ringed (m.modifyThread t f) p l :=
  h.congr (fun x _ => by rw [hf.next_modify]) (fun x _ => by rw [hf.prev_modify]) rfl rfl

theorem Swapped.plain {f : Thread → Thread} (h : Swapped m p l) (hf : Plain f) (t : PThread) :
    Swapped (m.modifyThread t f) p l :=
  h.congr (fun x _ => by rw [hf.next_modify]) (fun x _ => by rw [hf.prev_modify]) rfl rfl

theorem Ringed.exists_links (h : Ringed m p l) (ht : t ∈ l) :
    ∃ a z, m.next .run t = some a ∧ m.prev .run t = some z := h.ring.exists_links ht

/-- After the neighbours of a thread have been joined, moving the ends off
it leaves the ring of the others. -/
theorem Ringed.detach (h : Ringed m p l) (ht : t ∈ l) (hne : l.erase t ≠ [])
    (hu : Unlink (m.next .run) (m.prev .run) (m'.next .run) (m'.prev .run) t a z)
    (hproc : m'.processor = m.processor) : Ringed (leaveEnds m' p t) p (l.erase t) := by
  obtain ⟨hring, -, -, hfirst, hlast⟩ := h.ring.unlink h.nodup ht hne hu
  have hta : (m'.thread t).nextThread = some a := by
    have hnext := hu.next_join t
    rw [hu.next_eq, ite_self] at hnext
    exact hnext
  have htz : (m'.thread t).previousThread = some z := by
    have hprev := hu.prev_join t
    rw [hu.prev_eq, ite_self] at hprev
    exact hprev
  refine ⟨h.nodup.erase t, hring, ?_, ?_⟩
  · rw [hfirst, ← h.first, ← hproc]
    simp only [leaveEnds, processor_modifyProcessor, hta]
  · rw [hlast, ← h.last, ← hproc]
    simp only [leaveEnds, processor_modifyProcessor, htz]

theorem Ringed.unlink_frame (h : Ringed m p l) (ht : t ∈ l) (hne : l.erase t ≠ [])
    (hu : Unlink (m.next .run) (m.prev .run) (m'.next .run) (m'.prev .run) t a z)
    {x : PThread} (hx : x ∉ l) :
    m'.next .run x = m.next .run x ∧ m'.prev .run x = m.prev .run x := by
  obtain ⟨-, ha, hz, -, -⟩ := h.ring.unlink h.nodup ht hne hu
  refine ⟨?_, ?_⟩
  · rw [hu.next_join, if_neg]
    rintro rfl
    exact hx (mem_of_mem_erase hz)
  · rw [hu.prev_join, if_neg]
    rintro rfl
    exact hx (mem_of_mem_erase ha)

theorem Ringed.insertFirst_spec (h : Ringed m p l) (hne : l ≠ []) (ht : t ∉ l) :
    ∃ m', insertFirst m p t = some m' ∧ Ringed m' p (t :: l) ∧ RingEdit p (t :: l) m m' ∧
      (m'.processor p).firstSwapProcess = (m.processor p).firstSwapProcess ∧
      (m'.processor p).currentThread = (m.processor p).currentThread ∧
      ∀ x, (m'.thread x).body = (m.thread x).body := by
  obtain ⟨a, ha⟩ : ∃ a, l.head? = some a := ⟨_, List.head?_eq_some_head hne⟩
  obtain ⟨z, hz⟩ : ∃ z, l.getLast? = some z := ⟨_, List.getLast?_eq_some_getLast hne⟩
  have hal := mem_of_head? ha
  have hzl := mem_of_getLast? hz
  have hneq : ∀ x ∈ l, x ≠ t := fun x hx hxt => ht (hxt ▸ hx)
  -- between the last thread and the first
  obtain ⟨m₁, hlink, hedit, hnext, hprev⟩ := linkBefore_spec .run m t a z
  refine ⟨m₁.modifyProcessor p fun b => { b with firstThread := some t }, ?_, ⟨?_, ?_, ?_, ?_⟩,
    hedit.ringEdit (fun _ => rfl) ?_ ?_, ?_, ?_, hedit.body⟩
  · rw [insertFirst, h.first, h.last, ha, hz, hlink]
    rfl
  · exact nodup_cons.mpr ⟨ht, h.nodup⟩
  · refine h.ring.push h.nodup ha hz ?_ ?_ ?_ ?_ ?_ ?_
    · exact (hnext t).trans (by rw [if_neg (hneq z hzl).symm, if_pos rfl])
    · exact (hprev t).trans (by rw [if_neg (hneq a hal).symm, if_pos rfl])
    · exact (hnext z).trans (if_pos rfl)
    · exact (hprev a).trans (if_pos rfl)
    · exact fun b hb hbz => (hnext b).trans (by rw [if_neg hbz, if_neg (hneq b hb)])
    · exact fun b hb hba => (hprev b).trans (by rw [if_neg hba, if_neg (hneq b hb)])
  · rw [processor_modifyProcessor]
    rfl
  · rw [processor_modifyProcessor, hedit.processor]
    show (m.processor p).lastThread = _
    rw [h.last, List.getLast?_cons, hz]
    rfl
  · intro x hx
    rw [mem_cons, not_or] at hx
    refine (hnext x).trans ?_
    rw [if_neg (fun hxz : x = z => hx.2 (hxz ▸ hzl)), if_neg hx.1]
  · intro x hx
    rw [mem_cons, not_or] at hx
    refine (hprev x).trans ?_
    rw [if_neg (fun hxa : x = a => hx.2 (hxa ▸ hal)), if_neg hx.1]
  · rw [processor_modifyProcessor, hedit.processor]
  · rw [processor_modifyProcessor, hedit.processor]

theorem Swapped.queueSwap_spec (h : Swapped m p l) (ht : t ∉ l) :
    Swapped (queueSwap m p t) p (t :: l) ∧ RingEdit p (t :: l) m (queueSwap m p t) ∧
      ((queueSwap m p t).processor p).firstThread = (m.processor p).firstThread ∧
      ((queueSwap m p t).processor p).lastThread = (m.processor p).lastThread ∧
      ((queueSwap m p t).processor p).currentThread = (m.processor p).currentThread ∧
      ∀ x, ((queueSwap m p t).thread x).body = (m.thread x).body := by
  -- `LastSwapProcess` is NULL, so the last write does not take place
  have hdef : queueSwap m p t = (((m.modifyThread t (Thread.setNext .run l.head?)).modifyThread t
      (Thread.setPrev .run none)).storeIf l.head? (Thread.setPrev .run (some t))).modifyProcessor p
        fun b => { b with firstSwapProcess := some t } := by
    simp only [queueSwap, processor_modifyThread, h.first, h.last]
    cases l with
    | nil => simp only [List.head?_nil, Machine.storeIf, processor_modifyThread, h.last]
    | cons b r => simp only [List.head?_cons, Machine.storeIf, processor_modifyThread, h.last]
  set m₁ := ((m.modifyThread t (Thread.setNext .run l.head?)).modifyThread t
      (Thread.setPrev .run none)).storeIf l.head? (Thread.setPrev .run (some t)) with hm₁
  have hedit : LinkEdit .run m m₁ := ((linkEdit_setNext .run m t _).trans
    (linkEdit_setPrev .run _ t _)).trans (linkEdit_storeIf_setPrev .run _ _ _)
  have hnext : ∀ x, m₁.next .run x = if x = t then l.head? else m.next .run x := by
    intro x
    rw [hm₁, next_storeIf_setPrev, next_modify_setPrev, next_modify_setNext]
  have hprev : ∀ x, m₁.prev .run x
      = if l.head? = some x then some t else if x = t then none else m.prev .run x := by
    intro x
    rw [hm₁, prev_storeIf_setPrev, prev_modify_setPrev, prev_modify_setNext]
  have hneq : ∀ x ∈ l, x ≠ t := fun x hx hxt => ht (hxt ▸ hx)
  have hheadt : l.head? ≠ some t := fun hh => ht (mem_of_head? hh)
  rw [hdef]
  refine ⟨⟨nodup_cons.mpr ⟨ht, h.nodup⟩, ?_, ?_, ?_⟩,
    hedit.ringEdit (fun _ => rfl) ?_ ?_, ?_, ?_, ?_, hedit.body⟩
  · refine h.list.push h.nodup ?_ ?_ ?_ ?_ ?_
    · exact (hnext t).trans (if_pos rfl)
    · exact (hprev t).trans (by rw [if_neg hheadt, if_pos rfl])
    · exact fun b hb => (hnext b).trans (if_neg (hneq b hb))
    · exact fun b hb => (hprev b).trans (if_pos hb)
    · intro b hb
      refine (hprev b).trans ?_
      rw [if_neg (fun hh => head_notMem_tail h.nodup hh hb),
        if_neg (hneq b (tail_subset _ hb))]
  · rw [processor_modifyProcessor]
    rfl
  · rw [processor_modifyProcessor, hedit.processor]
    exact h.last
  · intro x hx
    rw [mem_cons, not_or] at hx
    exact (hnext x).trans (if_neg hx.1)
  · intro x hx
    rw [mem_cons, not_or] at hx
    refine (hprev x).trans ?_
    rw [if_neg (fun hh => hx.2 (mem_of_head? hh)), if_neg hx.1]
  · rw [processor_modifyProcessor, hedit.processor]
  · rw [processor_modifyProcessor, hedit.processor]
  · rw [processor_modifyProcessor, hedit.processor]

end LibXenon
