/-
LibXenon/MutexQueue.lean

What the waiter list of a mutex says about the threads that wait.

`Queued m h q` is the part of the representation that every waiter list has
in common: `FirstWaiting` and `LastWaiting` are the ends of `q` and the
threads of `q` are linked in order.  It leaves the two outer links open, for
these come in three kinds:

* a single waiter may have NULL on both sides;
* otherwise the list is closed into a ring (together: `Tidy`);
* `mutex_release` takes the first waiter off by moving `FirstWaiting` on,
  without unlinking it, and from then on both outer links point at threads
  that no longer wait (`Stale`).

The three edits of the list (`mutexEnqueue`, `mutexWake`, `mutexUnlink`) are
each given one lemma.  An enqueue rewrites both outer links, so it makes any
list tidy again (`Queued.enqueue`).
-/
import LibXenon.Mutex

namespace LibXenon

open Links List

variable {m : Mutex} {h : Heap} {q q₁ q₂ : List PThread} {t : PThread}

/-! ### Link fields under writes -/

theorem nextMutex_modify {f : Thread → Thread}
    (hf : ∀ a, (f a).nextThreadMutex = a.nextThreadMutex) :
    nextMutex (h.modify t f) = nextMutex h := by
  funext x
  exact h.modify_field t x Thread.nextThreadMutex hf

theorem prevMutex_modify {f : Thread → Thread}
    (hf : ∀ a, (f a).previousThreadMutex = a.previousThreadMutex) :
    prevMutex (h.modify t f) = prevMutex h := by
  funext x
  exact h.modify_field t x Thread.previousThreadMutex hf

@[simp] theorem nextMutex_setNextMutex (h : Heap) (t : PThread) (v : Option PThread) :
    nextMutex (setNextMutex h t v) = Function.update (nextMutex h) t v := by
  funext x
  by_cases hx : x = t
  · subst hx
    simp [nextMutex, setNextMutex]
  · simp [nextMutex, setNextMutex, Heap.modify_of_ne, hx]

@[simp] theorem prevMutex_setPrevMutex (h : Heap) (t : PThread) (v : Option PThread) :
    prevMutex (setPrevMutex h t v) = Function.update (prevMutex h) t v := by
  funext x
  by_cases hx : x = t
  · subst hx
    simp [prevMutex, setPrevMutex]
  · simp [prevMutex, setPrevMutex, Heap.modify_of_ne, hx]

@[simp] theorem nextMutex_setPrevMutex (h : Heap) (t : PThread) (v : Option PThread) :
    nextMutex (setPrevMutex h t v) = nextMutex h := nextMutex_modify fun _ => rfl

@[simp] theorem prevMutex_setNextMutex (h : Heap) (t : PThread) (v : Option PThread) :
    prevMutex (setNextMutex h t v) = prevMutex h := prevMutex_modify fun _ => rfl

/-! ### The representation -/

/-- The ends and inner links of the waiter list spell `q`. -/
structure Queued (m : Mutex) (h : Heap) (q : List PThread) : Prop where
  nodup : q.Nodup
  first : m.firstWaiting = q.head?
  last : m.lastWaiting = q.getLast?
  seg : Seg (nextMutex h) (prevMutex h) q

/-- The outer links: NULL around a single waiter, or closed into a ring. -/
def Tidy (h : Heap) (q : List PThread) : Prop :=
  ∀ a z, q.head? = some a → q.getLast? = some z →
    (q = [a] ∧ prevMutex h a = none ∧ nextMutex h z = none) ∨
      (prevMutex h a = some z ∧ nextMutex h z = some a)

/-- The outer links point at threads that are not in the list any more. -/
def Stale (h : Heap) (q : List PThread) : Prop :=
  ∀ a z, q.head? = some a → q.getLast? = some z →
    ∃ x y, prevMutex h a = some x ∧ nextMutex h z = some y ∧ x ∉ q ∧ y ∉ q

theorem Tidy.nil (h : Heap) : Tidy h [] := by
  intro a z ha
  cases ha

theorem ends_of_ne_nil (hq : q ≠ []) : ∃ a z, q.head? = some a ∧ q.getLast? = some z :=
  ⟨q.head hq, q.getLast hq, List.head?_eq_some_head hq, List.getLast?_eq_some_getLast hq⟩

theorem Queued.congr {h' : Heap} (hQ : Queued m h q) (hn : nextMutex h' = nextMutex h)
    (hp : prevMutex h' = prevMutex h) : Queued m h' q :=
  ⟨hQ.nodup, hQ.first, hQ.last, by rw [hn, hp]; exact hQ.seg⟩

theorem Tidy.congr {h' : Heap} (ht : Tidy h q) (hn : nextMutex h' = nextMutex h)
    (hp : prevMutex h' = prevMutex h) : Tidy h' q := by
  rw [Tidy, hn, hp]
  exact ht

theorem Stale.congr {h' : Heap} (hs : Stale h q) (hn : nextMutex h' = nextMutex h)
    (hp : prevMutex h' = prevMutex h) : Stale h' q := by
  rw [Stale, hn, hp]
  exact hs

theorem Queued.withCount (hQ : Queued m h q) (c : Nat) :
    Queued { m with currentLockCount := c } h q :=
  ⟨hQ.nodup, hQ.first, hQ.last, hQ.seg⟩

/-! ### Enqueue -/

theorem mutexEnqueue_of_nil (hf : m.firstWaiting = none) (hl : m.lastWaiting = none) :
    mutexEnqueue m h t =
      ({ m with firstWaiting := some t, lastWaiting := some t },
        setNextMutex (setPrevMutex h t none) t none) := by
  simp [mutexEnqueue, hf, hl]

theorem mutexEnqueue_of_cons {a z : PThread} (hf : m.firstWaiting = some a)
    (hl : m.lastWaiting = some z) :
    mutexEnqueue m h t =
      ({ m with lastWaiting := some t },
        setNextMutex (setPrevMutex (setNextMutex (setPrevMutex h t (some z)) t (some a))
          a (some t)) z (some t)) := by
  simp [mutexEnqueue, hf, hl]

/-- **Enqueue** appends the thread, whatever the outer links were, and leaves
the list tidy. -/
theorem Queued.enqueue (hQ : Queued m h q) (ht : t ∉ q) :
    Queued (mutexEnqueue m h t).1 (mutexEnqueue m h t).2 (q ++ [t]) ∧
      Tidy (mutexEnqueue m h t).2 (q ++ [t]) := by
  have hnodup : (q ++ [t]).Nodup := by
    rw [← concat_eq_append]
    exact hQ.nodup.concat ht
  by_cases hq : q = []
  · -- the first waiter gets NULL on both sides
    subst hq
    rw [mutexEnqueue_of_nil hQ.first hQ.last]
    refine ⟨⟨hnodup, rfl, rfl, Seg.singleton t⟩, ?_⟩
    intro a z ha hz
    cases ha
    cases hz
    left
    refine ⟨rfl, ?_, ?_⟩ <;> simp
  · obtain ⟨a, z, ha, hz⟩ := ends_of_ne_nil hq
    have hat : t ≠ a := fun e => ht (e ▸ mem_of_head? ha)
    have hzt : t ≠ z := fun e => ht (e ▸ mem_of_getLast? hz)
    rw [mutexEnqueue_of_cons (hQ.first.trans ha) (hQ.last.trans hz)]
    refine ⟨⟨hnodup, ?_, ?_, ?_⟩, ?_⟩
    · rw [List.head?_append, ha]
      exact hQ.first.trans ha
    · rw [List.getLast?_append, List.getLast?_singleton]
      rfl
    · apply Seg.concat
      · -- only the outer links of `q` are written
        refine hQ.seg.congr ?_ ?_
        · intro x hx
          have hxz : x ≠ z := fun e => last_notMem_dropLast hQ.nodup hz (e ▸ hx)
          have hxt : x ≠ t := fun e => ht (e ▸ mem_of_mem_dropLast hx)
          simp [hxz, hxt]
        · intro x hx
          have hxa : x ≠ a := fun e => head_notMem_tail hQ.nodup ha (e ▸ hx)
          have hxt : x ≠ t := fun e => ht (e ▸ mem_of_mem_tail hx)
          simp [hxa, hxt]
      · intro z' hz'
        rw [hz] at hz'
        cases hz'
        refine ⟨?_, ?_⟩
        · simp
        · simp [hat]
    · intro a' z' ha' hz'
      rw [List.head?_append, ha] at ha'
      rw [List.getLast?_append, List.getLast?_singleton] at hz'
      cases ha'
      cases hz'
      right
      refine ⟨?_, ?_⟩
      · simp
      · simp [hzt]

/-! ### Wake -/

theorem nextMutex_mutexWake (m : Mutex) (h : Heap) (t : PThread) :
    nextMutex (mutexWake m h t).2 = nextMutex h := nextMutex_modify fun _ => rfl

theorem prevMutex_mutexWake (m : Mutex) (h : Heap) (t : PThread) :
    prevMutex (mutexWake m h t).2 = prevMutex h := prevMutex_modify fun _ => rfl

theorem mutexWake_first (m : Mutex) (h : Heap) (t : PThread) :
    (mutexWake m h t).1.firstWaiting =
      if nextMutex h t = some t then none else nextMutex h t := by
  by_cases hn : nextMutex h t = some t <;> by_cases hl : m.lastWaiting = some t <;>
    simp [mutexWake, hn, hl]

theorem mutexWake_last (m : Mutex) (h : Heap) (t : PThread) :
    (mutexWake m h t).1.lastWaiting =
      if m.lastWaiting = some t then none else m.lastWaiting := by
  by_cases hn : nextMutex h t = some t <;> by_cases hl : m.lastWaiting = some t <;>
    simp [mutexWake, hn, hl]

/-- The forward link of a waiter that has no one behind it does not lead to
a thread outside the list. -/
def NextClean (h : Heap) (t : PThread) : Prop :=
  nextMutex h t = none ∨ nextMutex h t = some t

/-- **Wake** takes the first waiter off, provided that a sole waiter's
forward link is clean. -/
theorem Queued.wake (hQ : Queued m h (t :: q)) (hclean : q = [] → NextClean h t) :
    Queued (mutexWake m h t).1 (mutexWake m h t).2 q := by
  have htq : t ∉ q := (nodup_cons.mp hQ.nodup).1
  refine ⟨(nodup_cons.mp hQ.nodup).2, ?_, ?_, ?_⟩
  · rw [mutexWake_first]
    cases q with
    | nil => rcases hclean rfl with hn | hn <;> simp [hn]
    | cons b r =>
      have hb : nextMutex h t = some b := (seg_cons_cons.mp hQ.seg).1.1
      have hbt : b ≠ t := fun e => htq (e ▸ mem_cons_self)
      simp [hb, hbt]
  · rw [mutexWake_last, hQ.last]
    cases q with
    | nil => simp
    | cons b r =>
      obtain ⟨a, z, ha, hz⟩ := ends_of_ne_nil (cons_ne_nil b r)
      have hzt : z ≠ t := fun e => htq (e ▸ mem_of_getLast? hz)
      rw [List.getLast?_cons_cons, hz]
      simp [hzt]
  · rw [nextMutex_mutexWake, prevMutex_mutexWake]
    exact hQ.seg.tail

theorem Queued.stale_wake (hQ : Queued m h (t :: q))
    (hends : Tidy h (t :: q) ∨ Stale h (t :: q)) : Stale (mutexWake m h t).2 q := by
  have htq : t ∉ q := (nodup_cons.mp hQ.nodup).1
  intro a z ha hz
  obtain ⟨r, rfl⟩ : ∃ r, q = a :: r := by
    cases q with
    | nil => cases ha
    | cons b r =>
      cases ha
      exact ⟨r, rfl⟩
  have hz' : (t :: a :: r).getLast? = some z := by
    rw [List.getLast?_cons_cons]
    exact hz
  -- the new first waiter still points back at the woken thread
  have hprev : prevMutex h a = some t := (seg_cons_cons.mp hQ.seg).1.2
  rw [prevMutex_mutexWake, nextMutex_mutexWake]
  rcases hends with htidy | hstale
  · rcases htidy t z rfl hz' with ⟨hone, -, -⟩ | ⟨-, hnext⟩
    · cases hone
    · exact ⟨t, t, hprev, hnext, htq, htq⟩
  · obtain ⟨x, y, -, hnext, -, hy⟩ := hstale t z rfl hz'
    exact ⟨t, y, hprev, hnext, htq, fun hmem => hy (mem_cons_of_mem t hmem)⟩

/-! ### Unlink -/

/-- The heap after an unlink, with both fields of `t` read before the writes:
neither write changes a link of `t` itself. -/
theorem mutexUnlink_heap (m : Mutex) (h : Heap) (t : PThread) :
    nextMutex (mutexUnlink m h t).2 =
        (match prevMutex h t with
          | some y => Function.update (nextMutex h) y (nextMutex h t)
          | none => nextMutex h) ∧
      prevMutex (mutexUnlink m h t).2 =
        (match nextMutex h t with
          | some x => Function.update (prevMutex h) x (prevMutex h t)
          | none => prevMutex h) := by
  rcases hn : nextMutex h t with - | x
  · rcases hp : prevMutex h t with - | y
    · simp [mutexUnlink, hn, hp]
    · simp [mutexUnlink, hn, hp]
  · -- the first write may hit `t` itself, but then it writes the old value
    have hback : Function.update (prevMutex h) x (prevMutex h t) t = prevMutex h t := by
      by_cases hx : t = x
      · subst hx
        simp
      · simp [hx]
    rcases hp : prevMutex h t with - | y
    · rw [hp] at hback
      simp [mutexUnlink, hn, hp, hback]
    · rw [hp] at hback
      simp [mutexUnlink, hn, hp, hback]

theorem mutexUnlink_ends (m : Mutex) (h : Heap) (t : PThread) :
    (mutexUnlink m h t).1.firstWaiting =
        (if m.firstWaiting = some t then
          if nextMutex h t = some t then none else nextMutex h t else m.firstWaiting) ∧
      (mutexUnlink m h t).1.lastWaiting =
        (if m.lastWaiting = some t then
          if prevMutex h t = some t then none else prevMutex h t else m.lastWaiting) := by
  -- the fields of `t` are read after the writes, which leave them alone
  have hnext : nextMutex (mutexUnlink m h t).2 t = nextMutex h t := by
    rw [(mutexUnlink_heap m h t).1]
    split
    · rename_i y hy
      by_cases hty : t = y
      · subst hty
        simp
      · simp [hty]
    · rfl
  have hprev : prevMutex (mutexUnlink m h t).2 t = prevMutex h t := by
    rw [(mutexUnlink_heap m h t).2]
    split
    · rename_i x hx
      by_cases htx : t = x
      · subst htx
        simp
      · simp [htx]
    · rfl
  simp only [mutexUnlink] at hnext hprev ⊢
  rw [hnext, hprev]
  by_cases hf : m.firstWaiting = some t <;> by_cases hl : m.lastWaiting = some t <;>
    by_cases hn : nextMutex h t = some t <;> by_cases hp : prevMutex h t = some t <;>
    simp [hf, hl, hn, hp]

theorem Queued.unlink_sole (hQ : Queued m h [t]) (htidy : Tidy h [t]) :
    Queued (mutexUnlink m h t).1 (mutexUnlink m h t).2 [] := by
  obtain ⟨hf, hl⟩ := mutexUnlink_ends m h t
  have hf₀ : m.firstWaiting = some t := hQ.first
  have hl₀ : m.lastWaiting = some t := hQ.last
  refine ⟨nodup_nil, ?_, ?_, Seg.nil⟩
  · rw [hf, if_pos hf₀]
    rcases htidy t t rfl rfl with ⟨-, -, hn⟩ | ⟨-, hn⟩ <;> simp [hn]
  · rw [hl, if_pos hl₀]
    rcases htidy t t rfl rfl with ⟨-, hp, -⟩ | ⟨hp, -⟩ <;> simp [hp]

theorem mutexUnlink_unlink {x y : PThread} (hn : nextMutex h t = some x)
    (hp : prevMutex h t = some y) :
    Unlink (nextMutex h) (prevMutex h) (nextMutex (mutexUnlink m h t).2)
      (prevMutex (mutexUnlink m h t).2) t x y := by
  obtain ⟨hnext, hprev⟩ := mutexUnlink_heap m h t
  rw [hp, hn] at hnext
  rw [hn, hp] at hprev
  exact ⟨hn, hp, fun b => by rw [hnext]; exact Function.update_apply ..,
    fun b => by rw [hprev]; exact Function.update_apply ..⟩

/-- One of several waiters leaves: the ends of the list. -/
theorem Queued.unlink_ends (hQ : Queued m h (q₁ ++ t :: q₂)) (hne : q₁ ++ q₂ ≠ []) :
    (mutexUnlink m h t).1.firstWaiting = (q₁ ++ q₂).head? ∧
      (mutexUnlink m h t).1.lastWaiting = (q₁ ++ q₂).getLast? := by
  obtain ⟨hf, hl⟩ := mutexUnlink_ends m h t
  rw [hf, hl, hQ.first, hQ.last]
  obtain ⟨-, hn₂, hdis⟩ := nodup_append.mp hQ.nodup
  have ht₁ : ∀ x ∈ q₁, x ≠ t := fun x hx => hdis x hx t mem_cons_self
  have ht₂ : ∀ x ∈ q₂, x ≠ t := fun x hx e => (nodup_cons.mp hn₂).1 (e ▸ hx)
  refine ⟨?_, ?_⟩
  · rcases ha : q₁.head? with - | a
    · -- the first waiter leaves
      obtain rfl := List.head?_eq_none_iff.mp ha
      obtain ⟨b, -, hb, -⟩ := ends_of_ne_nil hne
      have hbt := ht₂ b (mem_of_head? hb)
      rw [nil_append] at hb
      rw [hQ.seg.next_eq hb]
      simp [hbt, hb]
    · have hat := ht₁ a (mem_of_head? ha)
      simp [List.head?_append, ha, hat]
  · rcases hz : q₂.getLast? with - | z
    · obtain rfl := List.getLast?_eq_none_iff.mp hz
      rw [append_nil] at hne ⊢
      obtain ⟨-, y, -, hy⟩ := ends_of_ne_nil hne
      have hyt := ht₁ y (mem_of_getLast? hy)
      rw [hQ.seg.prev_eq hy]
      simp [hyt, hy]
    · have hzt := ht₂ z (mem_of_getLast? hz)
      simp [List.getLast?_append, List.getLast?_cons, hz, hzt]

theorem tidy_of_ring (hring : Ring (nextMutex h) (prevMutex h) q) : Tidy h q := by
  intro a z ha hz
  obtain ⟨r, rfl⟩ := List.head?_eq_some_iff.mp ha
  exact .inr ((ring_cons_iff.mp hring).2 z hz).symm

theorem Queued.ring (hQ : Queued m h q) (htidy : Tidy h q) (hlong : 1 < q.length) :
    Ring (nextMutex h) (prevMutex h) q := by
  cases q with
  | nil => exact ring_nil
  | cons a r =>
    refine ring_cons_iff.mpr ⟨hQ.seg, fun z hz => ?_⟩
    rcases htidy a z rfl hz with ⟨hone, -, -⟩ | ⟨hp, hn⟩
    · rw [hone] at hlong
      exact absurd hlong (Nat.lt_irrefl 1)
    · exact ⟨hn, hp⟩

/-- A waiter leaves a ring of several, which stays a ring. -/
theorem Queued.unlink_tidy (hQ : Queued m h (q₁ ++ t :: q₂)) (hne : q₁ ++ q₂ ≠ [])
    (htidy : Tidy h (q₁ ++ t :: q₂)) :
    Queued (mutexUnlink m h t).1 (mutexUnlink m h t).2 (q₁ ++ q₂) ∧
      Tidy (mutexUnlink m h t).2 (q₁ ++ q₂) := by
  have hlong : 1 < (q₁ ++ t :: q₂).length := by
    have hpos := length_pos_iff.mpr hne
    simp only [length_append, length_cons] at hpos ⊢
    omega
  have hring := hQ.ring htidy hlong
  have ht : t ∈ q₁ ++ t :: q₂ := by simp
  obtain ⟨x, y, hn, hp⟩ := hring.exists_links ht
  have herase := erase_of_append hQ.nodup
  obtain ⟨hring', -⟩ := hring.unlink hQ.nodup ht (by rw [herase]; exact hne)
    (mutexUnlink_unlink (m := m) hn hp)
  rw [herase] at hring'
  obtain ⟨hfirst, hlast⟩ := hQ.unlink_ends hne
  have hsub := (sublist_cons_self t q₂).append_left q₁
  refine ⟨⟨hQ.nodup.sublist hsub, hfirst, hlast, ?_⟩, tidy_of_ring hring'⟩
  obtain ⟨b, r, hbr⟩ := exists_cons_of_ne_nil hne
  rw [hbr] at hring' ⊢
  exact (ring_cons_iff.mp hring').1

/-- A waiter leaves a stale list of several.  Neither outer link is changed:
a write through it hits a thread that does not wait. -/
theorem Queued.unlink_stale (hQ : Queued m h (q₁ ++ t :: q₂)) (hne : q₁ ++ q₂ ≠ [])
    (hstale : Stale h (q₁ ++ t :: q₂)) :
    Queued (mutexUnlink m h t).1 (mutexUnlink m h t).2 (q₁ ++ q₂) ∧
      Stale (mutexUnlink m h t).2 (q₁ ++ q₂) := by
  obtain ⟨a₀, z₀, ha₀, hz₀⟩ := ends_of_ne_nil (q := q₁ ++ t :: q₂) (by simp)
  obtain ⟨u, v, hu, hv, hum, hvm⟩ := hstale a₀ z₀ ha₀ hz₀
  have hsub := (sublist_cons_self t q₂).append_left q₁
  have hdis := (nodup_append.mp (hQ.nodup.sublist hsub)).2.2
  -- the neighbours of `t` are on their own sides of it
  obtain ⟨x, hn, hx⟩ : ∃ x, nextMutex h t = some x ∧ x ∉ q₁ := by
    rcases hb : q₂.head? with - | b
    · obtain rfl := List.head?_eq_none_iff.mp hb
      rw [List.getLast?_concat] at hz₀
      cases hz₀
      exact ⟨v, hv, fun hmem => hvm (mem_append_left _ hmem)⟩
    · exact ⟨b, hQ.seg.next_eq hb, fun hmem => hdis b hmem b (mem_of_head? hb) rfl⟩
  obtain ⟨y, hp, hy⟩ : ∃ y, prevMutex h t = some y ∧ y ∉ q₂ := by
    rcases hc : q₁.getLast? with - | c
    · obtain rfl := List.getLast?_eq_none_iff.mp hc
      cases ha₀
      exact ⟨u, hu, fun hmem => hum (mem_cons_of_mem t hmem)⟩
    · exact ⟨c, hQ.seg.prev_eq hc, fun hmem => hdis c (mem_of_getLast? hc) c hmem rfl⟩
  have hcut := mutexUnlink_unlink (m := m) hn hp
  obtain ⟨hfirst, hlast⟩ := hQ.unlink_ends hne
  refine ⟨⟨hQ.nodup.sublist hsub, hfirst, hlast, hQ.seg.unlink hQ.nodup hcut
    (fun _ hmem => hy (dropLast_subset _ hmem))
    fun _ hmem => hx (tail_subset _ hmem)⟩, ?_⟩
  intro a z ha hz
  refine ⟨u, v, ?_, ?_, fun hmem => hum (hsub.subset hmem), fun hmem => hvm (hsub.subset hmem)⟩
  · rw [hcut.prev_join, ← hu]
    rcases hc : q₁.head? with - | c
    · obtain rfl := List.head?_eq_none_iff.mp hc
      cases ha₀
      rw [if_pos (Option.some.inj ((hQ.seg.next_eq ha).symm.trans hn)), hp]
    · have hcx : c ≠ x := fun e => hx (e ▸ mem_of_head? hc)
      rw [List.head?_append, hc] at ha ha₀
      cases ha
      cases ha₀
      exact if_neg hcx
  · rw [hcut.next_join, ← hv]
    rcases hc : q₂.getLast? with - | c
    · obtain rfl := List.getLast?_eq_none_iff.mp hc
      rw [List.getLast?_concat] at hz₀
      rw [append_nil] at hz
      cases hz₀
      rw [if_pos (Option.some.inj ((hQ.seg.prev_eq hz).symm.trans hp)), hn]
    · have hcy : c ≠ y := fun e => hy (e ▸ mem_of_getLast? hc)
      rw [List.getLast?_append, hc] at hz
      rw [List.getLast?_append, List.getLast?_cons, hc] at hz₀
      cases hz
      cases hz₀
      exact if_neg hcy

/-- **Unlink** takes any waiter out and keeps the kind of the outer links,
provided that a sole waiter's forward link is clean. -/
theorem Queued.unlink (hQ : Queued m h (q₁ ++ t :: q₂))
    (hends : Tidy h (q₁ ++ t :: q₂) ∨ Stale h (q₁ ++ t :: q₂))
    (hclean : q₁ = [] → q₂ = [] → NextClean h t) :
    Queued (mutexUnlink m h t).1 (mutexUnlink m h t).2 (q₁ ++ q₂) ∧
      (Tidy h (q₁ ++ t :: q₂) → Tidy (mutexUnlink m h t).2 (q₁ ++ q₂)) ∧
      (Stale h (q₁ ++ t :: q₂) → Stale (mutexUnlink m h t).2 (q₁ ++ q₂)) := by
  by_cases hne : q₁ ++ q₂ = []
  · obtain ⟨rfl, rfl⟩ := append_eq_nil_iff.mp hne
    -- a clean forward link excludes a stale list
    have htidy : Tidy h [t] := by
      rcases hends with htidy | hstale
      · exact htidy
      · obtain ⟨-, y, -, hy, -, hmem⟩ := hstale t t rfl rfl
        rcases hclean rfl rfl with hn | hn
        · rw [hn] at hy
          cases hy
        · rw [hn] at hy
          cases hy
          exact absurd (mem_singleton.mpr rfl) hmem
    refine ⟨hQ.unlink_sole htidy, fun _ => Tidy.nil _, ?_⟩
    intro _ a z ha
    cases ha
  · refine ⟨?_, fun htidy => (hQ.unlink_tidy hne htidy).2,
      fun hstale => (hQ.unlink_stale hne hstale).2⟩
    rcases hends with htidy | hstale
    · exact (hQ.unlink_tidy hne htidy).1
    · exact (hQ.unlink_stale hne hstale).1

/-! ### The edits leave the waiting flags alone -/

theorem setNextMutex_flag (h : Heap) (t x : PThread) (v : Option PThread) :
    (setNextMutex h t v x).waitingForMutex = (h x).waitingForMutex :=
  h.modify_field t x Thread.waitingForMutex fun _ => rfl

theorem setPrevMutex_flag (h : Heap) (t x : PThread) (v : Option PThread) :
    (setPrevMutex h t v x).waitingForMutex = (h x).waitingForMutex :=
  h.modify_field t x Thread.waitingForMutex fun _ => rfl

theorem mutexEnqueue_flag (m : Mutex) (h : Heap) (t x : PThread) :
    ((mutexEnqueue m h t).2 x).waitingForMutex = (h x).waitingForMutex := by
  rcases hf : m.firstWaiting with - | a <;> rcases hl : m.lastWaiting with - | z <;>
    simp [mutexEnqueue, hf, hl, setNextMutex_flag, setPrevMutex_flag]

theorem mutexUnlink_flag (m : Mutex) (h : Heap) (t x : PThread) :
    ((mutexUnlink m h t).2 x).waitingForMutex = (h x).waitingForMutex := by
  simp only [mutexUnlink]
  split <;> split <;> simp only [setNextMutex_flag, setPrevMutex_flag]

theorem mutexEnqueue_counts (m : Mutex) (h : Heap) (t : PThread) :
    (mutexEnqueue m h t).1.currentLockCount = m.currentLockCount ∧
      (mutexEnqueue m h t).1.maximumLockCount = m.maximumLockCount := by
  rcases hf : m.firstWaiting with - | a <;> simp [mutexEnqueue, hf]

theorem mutexUnlink_counts (m : Mutex) (h : Heap) (t : PThread) :
    (mutexUnlink m h t).1.currentLockCount = m.currentLockCount ∧
      (mutexUnlink m h t).1.maximumLockCount = m.maximumLockCount := by
  simp only [mutexUnlink]
  split_ifs <;> exact ⟨rfl, rfl⟩

end LibXenon
