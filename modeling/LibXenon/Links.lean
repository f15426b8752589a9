/-
LibXenon/Links.lean

Linked lists in a heap of nodes.

A node's links are two functions `next prev : α → Option α` (`none` is the
null pointer).  Three doubly linked shapes are distinguished, each indexed by
the list of nodes it runs through:

* `Seg next prev l`      — consecutive nodes of `l` point at each other; the
  two outer links are unconstrained;
* `Ring next prev l`     — the segment closes up: the last node is followed
  by the first;
* `NullList next prev l` — the segment is terminated by `none` at both ends.

A ring is entered through pointers to its first and last node (`head?` and
`getLast?` of the list), a null-terminated list through one to its first.
The singly linked `Forward next ptr l` has `next` only.

An edit of the heap is described pointwise (which links changed, which did
not), not as a term, so that one lemma serves every order in which a program
writes the links, including the aliased cases where the two neighbours of a
node are the same node or the node itself.
-/
import Mathlib.Data.List.Cycle

namespace Links

open List

variable {α : Type*} {next prev next' prev' : α → Option α}
variable {l l₁ l₂ : List α} {t : α}

/-- `b` follows `a`: the forward link of `a` and the backward link of `b`
meet. -/
def Linked (next prev : α → Option α) (a b : α) : Prop :=
  next a = some b ∧ prev b = some a

/-- Consecutive nodes of `l` are linked. -/
def Seg (next prev : α → Option α) (l : List α) : Prop :=
  l.IsChain (Linked next prev)

/-- The nodes of `l` form a closed ring, in this cyclic order. -/
def Ring (next prev : α → Option α) (l : List α) : Prop :=
  Cycle.Chain (Linked next prev) (l : Cycle α)

/-- The nodes of `l` form a list terminated by `none` at both ends. -/
structure NullList (next prev : α → Option α) (l : List α) : Prop where
  seg : Seg next prev l
  prev_head : ∀ a, l.head? = some a → prev a = none
  next_last : ∀ z, l.getLast? = some z → next z = none

/-! ### The ends of a duplicate-free list -/

theorem head_notMem_tail {a : α} (hn : l.Nodup) (ha : l.head? = some a) : a ∉ l.tail := by
  cases l with
  | nil => cases ha
  | cons b r =>
    cases ha
    exact (nodup_cons.mp hn).1

theorem last_notMem_dropLast {z : α} (hn : l.Nodup) (hz : l.getLast? = some z) :
    z ∉ l.dropLast := by
  rcases eq_nil_or_concat l with rfl | ⟨r, b, rfl⟩
  · cases hz
  · rw [concat_eq_append] at *
    rw [List.getLast?_concat] at hz
    cases hz
    rw [dropLast_concat]
    intro hb
    exact (nodup_append.mp hn).2.2 z hb z (by simp) rfl

/-! ### Segments -/

theorem Seg.nil : Seg next prev ([] : List α) := isChain_nil

theorem Seg.singleton (a : α) : Seg next prev [a] := isChain_singleton a

theorem Seg.tail {a : α} (h : Seg next prev (a :: l)) : Seg next prev l :=
  List.IsChain.tail h

theorem Seg.left (h : Seg next prev (l₁ ++ l₂)) : Seg next prev l₁ :=
  List.IsChain.left_of_append h

theorem Seg.right (h : Seg next prev (l₁ ++ l₂)) : Seg next prev l₂ :=
  List.IsChain.right_of_append h

theorem seg_cons_cons {a b : α} :
    Seg next prev (a :: b :: l) ↔ Linked next prev a b ∧ Seg next prev (b :: l) :=
  isChain_cons_cons

theorem seg_append : Seg next prev (l₁ ++ l₂) ↔
    Seg next prev l₁ ∧ Seg next prev l₂ ∧
      ∀ z, l₁.getLast? = some z → ∀ a, l₂.head? = some a → Linked next prev z a := by
  unfold Seg
  rw [isChain_append]
  simp only [Option.mem_def]

theorem Seg.congr (h : Seg next prev l) (hnext : ∀ a ∈ l.dropLast, next' a = next a)
    (hprev : ∀ a ∈ l.tail, prev' a = prev a) : Seg next' prev' l := by
  induction l with
  | nil => exact Seg.nil
  | cons a r ih =>
    cases r with
    | nil => exact Seg.singleton a
    | cons b r =>
      obtain ⟨⟨hab, hba⟩, hr⟩ := seg_cons_cons.mp h
      refine seg_cons_cons.mpr ⟨⟨?_, ?_⟩, ih hr ?_ ?_⟩
      · rw [hnext a (by simp), hab]
      · rw [hprev b (by simp), hba]
      · exact fun c hc => hnext c (by simp [hc])
      · exact fun c hc => hprev c (by simp at hc ⊢; exact .inr hc)

theorem Seg.concat (h : Seg next prev l)
    (hz : ∀ z, l.getLast? = some z → Linked next prev z t) :
    Seg next prev (l ++ [t]) := by
  refine seg_append.mpr ⟨h, Seg.singleton t, ?_⟩
  rintro z hz' a ha
  cases ha
  exact hz z hz'

theorem Seg.next_eq {a : α} (h : Seg next prev (l₁ ++ t :: l₂)) (ha : l₂.head? = some a) :
    next t = some a := by
  obtain ⟨r, rfl⟩ := List.head?_eq_some_iff.mp ha
  exact (seg_cons_cons.mp h.right).1.1

theorem Seg.prev_eq {z : α} (h : Seg next prev (l₁ ++ t :: l₂)) (hz : l₁.getLast? = some z) :
    prev t = some z :=
  ((seg_append.mp h).2.2 z hz t rfl).2

/-- Cut a node out of a segment: its neighbours are linked to each other and
no other inner link is touched. -/
theorem Seg.erase (h : Seg next prev (l₁ ++ t :: l₂))
    (hmeet : ∀ z, l₁.getLast? = some z → ∀ a, l₂.head? = some a → Linked next' prev' z a)
    (hnext : ∀ a ∈ l₁.dropLast ++ l₂.dropLast, next' a = next a)
    (hprev : ∀ a ∈ l₁.tail ++ l₂.tail, prev' a = prev a) :
    Seg next' prev' (l₁ ++ l₂) := by
  refine seg_append.mpr ⟨?_, ?_, hmeet⟩
  · exact h.left.congr (fun a ha => hnext a (by simp [ha])) (fun a ha => hprev a (by simp [ha]))
  · exact h.right.tail.congr (fun a ha => hnext a (by simp [ha]))
      (fun a ha => hprev a (by simp [ha]))

/-! ### Rings -/

theorem ring_nil : Ring next prev ([] : List α) := trivial

theorem ring_append_comm : Ring next prev (l₁ ++ l₂) ↔ Ring next prev (l₂ ++ l₁) := by
  unfold Ring
  rw [Cycle.coe_eq_coe.mpr isRotated_append]

theorem ring_cons_iff : Ring next prev (t :: l) ↔
    Seg next prev (t :: l) ∧ ∀ z, (t :: l).getLast? = some z → Linked next prev z t := by
  unfold Ring
  rw [Cycle.chain_coe_cons]
  have hcut : Seg next prev ((t :: l) ++ [t]) ↔ _ := seg_append
  refine hcut.trans ⟨fun h => ⟨h.1, fun z hz => h.2.2 z hz t rfl⟩, fun h => ?_⟩
  refine ⟨h.1, Seg.singleton t, ?_⟩
  rintro z hz a ha
  cases ha
  exact h.2 z hz

theorem ring_singleton (hn : next t = some t) (hp : prev t = some t) : Ring next prev [t] := by
  refine ring_cons_iff.mpr ⟨Seg.singleton t, ?_⟩
  rintro z hz
  cases hz
  exact ⟨hn, hp⟩

theorem Ring.congr (h : Ring next prev l) (hnext : ∀ a ∈ l, next' a = next a)
    (hprev : ∀ a ∈ l, prev' a = prev a) : Ring next' prev' l := by
  cases l with
  | nil => exact ring_nil
  | cons t r =>
    obtain ⟨hseg, hclose⟩ := ring_cons_iff.mp h
    refine ring_cons_iff.mpr ⟨?_, ?_⟩
    · exact hseg.congr (fun a ha => hnext a (dropLast_subset _ ha))
        fun a ha => hprev a (tail_subset _ ha)
    · intro z hz
      obtain ⟨hzt, htz⟩ := hclose z hz
      refine ⟨?_, ?_⟩
      · rw [hnext z (mem_of_getLast? hz), hzt]
      · rw [hprev t (by simp), htz]

theorem Ring.next_eq_head (h : Ring next prev (l₁ ++ t :: l₂)) :
    next t = (l₂ ++ l₁ ++ [t]).head? := by
  have hrot : Ring next prev (t :: (l₂ ++ l₁)) := ring_append_comm.mp h
  obtain ⟨hseg, hclose⟩ := ring_cons_iff.mp hrot
  rcases hr : l₂ ++ l₁ with - | ⟨b, r⟩
  · rw [hr] at hclose
    exact (hclose t rfl).1
  · rw [hr] at hseg
    exact (seg_cons_cons.mp hseg).1.1

theorem Ring.exists_links (h : Ring next prev l) (ht : t ∈ l) :
    ∃ a z, next t = some a ∧ prev t = some z := by
  obtain ⟨l₁, l₂, rfl⟩ := append_of_mem ht
  have hnext := h.next_eq_head
  have hrot : Ring next prev (t :: (l₂ ++ l₁)) := ring_append_comm.mp h
  obtain ⟨z, hz⟩ : ∃ z, (t :: (l₂ ++ l₁)).getLast? = some z := ⟨_, List.getLast?_cons⟩
  have hprev := ((ring_cons_iff.mp hrot).2 z hz).2
  obtain ⟨a, ha⟩ : ∃ a, (l₂ ++ l₁ ++ [t]).head? = some a := by
    rw [List.head?_eq_some_head (by simp)]
    exact ⟨_, rfl⟩
  exact ⟨a, z, hnext.trans ha, hprev⟩

theorem Ring.push {a z : α} (h : Ring next prev l) (hn : l.Nodup)
    (ha : l.head? = some a) (hz : l.getLast? = some z)
    (hnt : next' t = some a) (hpt : prev' t = some z) (hnz : next' z = some t)
    (hpa : prev' a = some t) (hnext : ∀ b ∈ l, b ≠ z → next' b = next b)
    (hprev : ∀ b ∈ l, b ≠ a → prev' b = prev b) : Ring next' prev' (t :: l) := by
  have hza := last_notMem_dropLast hn hz
  have haz := head_notMem_tail hn ha
  cases l with
  | nil => cases ha
  | cons b r =>
    cases ha
    obtain ⟨hseg, -⟩ := ring_cons_iff.mp h
    refine ring_cons_iff.mpr ⟨seg_cons_cons.mpr ⟨⟨hnt, hpa⟩, ?_⟩, ?_⟩
    · refine hseg.congr ?_ ?_
      · intro c hc
        exact hnext c (dropLast_subset _ hc) (fun hcz => hza (hcz ▸ hc))
      · intro c hc
        exact hprev c (tail_subset _ hc) (fun hca => haz (hca ▸ hc))
    · intro y hy
      have hyz : y = z := by
        rw [List.getLast?_cons_cons, hz] at hy
        exact (Option.some.inj hy).symm
      rw [hyz]
      exact ⟨hnz, hpt⟩

/-! ### Unlinking a node -/

/-- The edit that joins the two neighbours `z` and `a` of `t`. -/
structure Unlink [DecidableEq α] (next prev next' prev' : α → Option α) (t a z : α) : Prop where
  next_eq : next t = some a
  prev_eq : prev t = some z
  next_join : ∀ b, next' b = if b = z then some a else next b
  prev_join : ∀ b, prev' b = if b = a then some z else prev b

section Unlink

variable [DecidableEq α] {a z : α}

theorem erase_of_append (hn : (l₁ ++ t :: l₂).Nodup) : (l₁ ++ t :: l₂).erase t = l₁ ++ l₂ := by
  have ht : t ∉ l₁ := fun ht => (nodup_append.mp hn).2.2 t ht t (by simp) rfl
  rw [erase_append_right _ ht, erase_cons_head]

/-- Unlinking a node of a segment.  The node behind the last one may be the
first, and the node before the first one the last. -/
theorem Seg.unlink (h : Seg next prev (l₁ ++ t :: l₂)) (hn : (l₁ ++ t :: l₂).Nodup)
    (hu : Unlink next prev next' prev' t a z) (hz : l₁ = [] → z ∉ l₂.dropLast)
    (ha : l₂ = [] → a ∉ l₁.tail) : Seg next' prev' (l₁ ++ l₂) := by
  obtain ⟨hn₁, hn₂, hdis⟩ := nodup_append.mp hn
  have hn₂ := (nodup_cons.mp hn₂).2
  have hlast : ∀ y, l₁.getLast? = some y → y = z := fun y hy =>
    Option.some.inj ((h.prev_eq hy).symm.trans hu.prev_eq)
  have hhead : ∀ b, l₂.head? = some b → b = a := fun b hb =>
    Option.some.inj ((h.next_eq hb).symm.trans hu.next_eq)
  -- the two neighbours are joined; no other node is written
  refine h.erase ?_ ?_ ?_
  · intro y hy b hb
    rw [hlast y hy, hhead b hb]
    exact ⟨by rw [hu.next_join, if_pos rfl], by rw [hu.prev_join, if_pos rfl]⟩
  · intro b hb
    rw [hu.next_join, if_neg]
    rintro rfl
    rcases eq_nil_or_concat l₁ with rfl | ⟨r, y, rfl⟩
    · exact hz rfl hb
    · rw [concat_eq_append] at *
      obtain rfl := hlast y List.getLast?_concat
      rcases mem_append.mp hb with hb | hb
      · exact last_notMem_dropLast hn₁ List.getLast?_concat hb
      · exact hdis y (by simp) y (mem_cons_of_mem t (dropLast_subset _ hb)) rfl
  · intro b hb
    rw [hu.prev_join, if_neg]
    rintro rfl
    rcases l₂ with - | ⟨x, r⟩
    · exact ha rfl (by simpa using hb)
    · obtain rfl := hhead x rfl
      rcases mem_append.mp hb with hb | hb
      · exact hdis x (tail_subset _ hb) x (by simp) rfl
      · exact head_notMem_tail hn₂ rfl hb

/-- The neighbours of a node in a ring: its successor is the first and its
predecessor the last of the other nodes, counted from it. -/
theorem Ring.neighbours (h : Ring next prev (l₁ ++ t :: l₂)) (hne : l₁ ++ l₂ ≠ [])
    (hu : Unlink next prev next' prev' t a z) :
    (l₂ ++ l₁).head? = some a ∧ (l₂ ++ l₁).getLast? = some z := by
  have hne' : l₂ ++ l₁ ≠ [] := by simpa [and_comm] using hne
  have hrot : Ring next prev (t :: (l₂ ++ l₁)) := ring_append_comm.mp h
  obtain ⟨hseg, hclose⟩ := ring_cons_iff.mp hrot
  obtain ⟨b, r, hbr⟩ := exists_cons_of_ne_nil hne'
  rw [hbr] at hseg hclose ⊢
  obtain ⟨hnb, -⟩ := (seg_cons_cons.mp hseg).1
  obtain ⟨y, hy⟩ : ∃ y, (b :: r).getLast? = some y := ⟨_, List.getLast?_cons⟩
  obtain ⟨-, hpy⟩ := hclose y (by rw [List.getLast?_cons_cons, hy])
  rw [hu.next_eq] at hnb
  rw [hu.prev_eq] at hpy
  exact ⟨hnb.symm, hy.trans hpy.symm⟩

theorem Ring.unlink (h : Ring next prev l) (hn : l.Nodup) (ht : t ∈ l) (hne : l.erase t ≠ [])
    (hu : Unlink next prev next' prev' t a z) :
    Ring next' prev' (l.erase t) ∧ a ∈ l.erase t ∧ z ∈ l.erase t ∧
      (l.erase t).head? = (if l.head? = some t then some a else l.head?) ∧
      (l.erase t).getLast? = (if l.getLast? = some t then some z else l.getLast?) := by
  obtain ⟨l₁, l₂, rfl⟩ := append_of_mem ht
  have ht₁ : t ∉ l₁ := fun h1 => (nodup_append.mp hn).2.2 t h1 t (by simp) rfl
  have ht₂ : t ∉ l₂ := (nodup_cons.mp (nodup_append.mp hn).2.1).1
  rw [erase_of_append hn] at hne ⊢
  obtain ⟨ha, hz⟩ := h.neighbours hne hu
  have hnt : (t :: (l₂ ++ l₁)).Nodup := nodup_append_comm.mp hn
  have hn' := (nodup_cons.mp hnt).2
  -- counted from its successor, the rest of the ring only has to be closed
  have hrest : Ring next' prev' (l₂ ++ l₁) := by
    have hrot : Ring next prev (t :: (l₂ ++ l₁)) := ring_append_comm.mp h
    have hseg : Seg next' prev' ([] ++ (l₂ ++ l₁)) := (ring_cons_iff.mp hrot).1.unlink hnt hu
      (fun _ => last_notMem_dropLast hn' hz) fun _ => not_mem_nil
    obtain ⟨r, hbr⟩ := List.head?_eq_some_iff.mp ha
    rw [nil_append, hbr] at hseg
    rw [hbr] at hz ⊢
    refine ring_cons_iff.mpr ⟨hseg, ?_⟩
    intro y hy
    cases hz.symm.trans hy
    exact ⟨by rw [hu.next_join, if_pos rfl], by rw [hu.prev_join, if_pos rfl]⟩
  refine ⟨ring_append_comm.mp hrest, ?_, ?_, ?_, ?_⟩
  · have hmem := mem_of_head? ha
    rw [mem_append] at hmem ⊢
    exact hmem.symm
  · have hmem := mem_of_getLast? hz
    rw [mem_append] at hmem ⊢
    exact hmem.symm
  · rcases l₁ with - | ⟨b, r⟩
    · rw [append_nil] at ha
      simpa using ha
    · have hbt : b ≠ t := fun hbt => ht₁ (by simp [hbt])
      simp [hbt]
  · rcases eq_nil_or_concat l₂ with rfl | ⟨r, b, rfl⟩
    · rw [nil_append] at hz
      simpa using hz
    · rw [concat_eq_append] at ht₂ ⊢
      have hbt : b ≠ t := fun hbt => ht₂ (by simp [hbt])
      have hlast : (l₁ ++ t :: (r ++ [b])).getLast? = some b := by
        rw [← cons_append, ← append_assoc, List.getLast?_concat]
      rw [← append_assoc, List.getLast?_concat, hlast]
      simp [hbt]

end Unlink

/-! ### Null-terminated lists -/

theorem NullList.nil : NullList next prev ([] : List α) :=
  ⟨Seg.nil, fun _ => nofun, fun _ => nofun⟩

theorem NullList.congr (h : NullList next prev l) (hnext : ∀ a ∈ l, next' a = next a)
    (hprev : ∀ a ∈ l, prev' a = prev a) : NullList next' prev' l where
  seg := h.seg.congr (fun a ha => hnext a (dropLast_subset _ ha))
    fun a ha => hprev a (tail_subset _ ha)
  prev_head := by
    intro a ha
    rw [hprev a (mem_of_head? ha)]
    exact h.prev_head a ha
  next_last := by
    intro z hz
    rw [hnext z (mem_of_getLast? hz)]
    exact h.next_last z hz

theorem NullList.next_head (h : NullList next prev (t :: l)) : next t = l.head? := by
  cases l with
  | nil => exact h.next_last t rfl
  | cons b r => exact (seg_cons_cons.mp h.seg).1.1

theorem NullList.push (h : NullList next prev l) (hn : l.Nodup)
    (hnt : next' t = l.head?) (hpt : prev' t = none)
    (hnext : ∀ b ∈ l, next' b = next b)
    (hhead : ∀ b, l.head? = some b → prev' b = some t)
    (hprev : ∀ b ∈ l.tail, prev' b = prev b) : NullList next' prev' (t :: l) := by
  have hseg : Seg next' prev' l :=
    h.seg.congr (fun a ha => hnext a (dropLast_subset _ ha)) hprev
  cases l with
  | nil =>
    refine ⟨Seg.singleton t, ?_, ?_⟩
    · rintro a ha
      cases ha
      exact hpt
    · rintro z hz
      cases hz
      exact hnt
  | cons b r =>
    refine ⟨seg_cons_cons.mpr ⟨⟨hnt, hhead b rfl⟩, hseg⟩, ?_, ?_⟩
    · rintro a ha
      cases ha
      exact hpt
    · intro z hz
      rw [List.getLast?_cons_cons] at hz
      rw [hnext z (mem_of_getLast? hz)]
      exact h.next_last z hz

theorem NullList.pop (h : NullList next prev (t :: l)) (hn : (t :: l).Nodup)
    (hnext : ∀ b ∈ l, next' b = next b)
    (hhead : ∀ b, l.head? = some b → prev' b = none)
    (hprev : ∀ b ∈ l.tail, prev' b = prev b) : NullList next' prev' l where
  seg := h.seg.tail.congr (fun a ha => hnext a (dropLast_subset _ ha)) hprev
  prev_head := hhead
  next_last := by
    intro z hz
    rw [hnext z (mem_of_getLast? hz)]
    refine h.next_last z ?_
    obtain ⟨b, r, rfl⟩ := exists_cons_of_ne_nil (ne_nil_of_mem (mem_of_getLast? hz))
    exact hz

/-- A node with two neighbours is neither the first nor the last; unlinking
it leaves the list of the others. -/
theorem NullList.unlink [DecidableEq α] {a z : α} (h : NullList next prev l) (hn : l.Nodup)
    (ht : t ∈ l) (hu : Unlink next prev next' prev' t a z) :
    NullList next' prev' (l.erase t) ∧ a ∈ l.erase t ∧ z ∈ l.erase t ∧
      (l.erase t).head? = l.head? := by
  obtain ⟨l₁, l₂, rfl⟩ := append_of_mem ht
  rw [erase_of_append hn]
  -- the ends have a null link each
  have hne₁ : l₁ ≠ [] := by
    rintro rfl
    exact nomatch hu.prev_eq.symm.trans (h.prev_head t rfl)
  have hne₂ : l₂ ≠ [] := by
    rintro rfl
    exact nomatch hu.next_eq.symm.trans (h.next_last t (by simp))
  have hz : l₁.getLast? = some z := by
    have hlast := List.getLast?_eq_some_getLast hne₁
    rw [hlast, ← h.seg.prev_eq hlast, hu.prev_eq]
  have ha : l₂.head? = some a := by
    have hhead := List.head?_eq_some_head hne₂
    rw [hhead, ← h.seg.next_eq hhead, hu.next_eq]
  have hdis := (nodup_append.mp hn).2.2
  have hhead : (l₁ ++ l₂).head? = (l₁ ++ t :: l₂).head? := by
    rw [List.head?_append_of_ne_nil _ hne₁, List.head?_append_of_ne_nil _ hne₁]
  have hlast : (l₁ ++ l₂).getLast? = (l₁ ++ t :: l₂).getLast? := by
    rw [List.getLast?_append_of_ne_nil _ hne₂, List.getLast?_append_of_ne_nil _ (by simp),
      List.getLast?_cons_of_ne_nil hne₂]
  refine ⟨⟨h.seg.unlink hn hu (fun hnil => absurd hnil hne₁) fun hnil => absurd hnil hne₂,
    fun b hb => ?_, fun b hb => ?_⟩,
    mem_append_right _ (mem_of_head? ha),
    mem_append_left _ (mem_of_getLast? hz), hhead⟩
  · have hba : b ≠ a := by
      rw [List.head?_append_of_ne_nil _ hne₁] at hb
      exact hdis b (mem_of_head? hb) a (mem_cons_of_mem t (mem_of_head? ha))
    rw [hu.prev_join, if_neg hba]
    exact h.prev_head b (hhead ▸ hb)
  · have hbz : b ≠ z := by
      rw [List.getLast?_append_of_ne_nil _ hne₂] at hb
      have hmem := mem_cons_of_mem t (mem_of_getLast? hb)
      exact (hdis z (mem_of_getLast? hz) b hmem).symm
    rw [hu.next_join, if_neg hbz]
    exact h.next_last b (hlast ▸ hb)

/-! ### Singly linked lists -/

/-- Following `next` from the pointer `ptr` runs through `l` and then meets
`none`. -/
def Forward (next : α → Option α) : Option α → List α → Prop
  | ptr, [] => ptr = none
  | ptr, a :: l => ptr = some a ∧ Forward next (next a) l

variable {ptr : Option α} {a : α}

theorem Forward.congr (h : Forward next ptr l) (hnext : ∀ b ∈ l, next' b = next b) :
    Forward next' ptr l := by
  induction l generalizing ptr with
  | nil => exact h
  | cons b l ih =>
    refine ⟨h.1, ?_⟩
    rw [hnext b mem_cons_self]
    exact ih h.2 fun c hc => hnext c (mem_cons_of_mem b hc)

theorem Forward.unique (h₁ : Forward next ptr l₁) (h₂ : Forward next ptr l₂) : l₁ = l₂ := by
  induction l₁ generalizing ptr l₂ with
  | nil =>
    cases l₂ with
    | nil => rfl
    | cons b r => exact absurd (h₁.symm.trans h₂.1) (by simp)
  | cons c r ih =>
    cases l₂ with
    | nil => exact absurd (h₂.symm.trans h₁.1) (by simp)
    | cons b r₂ =>
      obtain rfl : c = b := Option.some.inj (h₁.1.symm.trans h₂.1)
      rw [ih h₁.2 h₂.2]

theorem Forward.suffix (h : Forward next ptr (l₁ ++ a :: l₂)) : Forward next (next a) l₂ := by
  induction l₁ generalizing ptr with
  | nil => exact h.2
  | cons b r ih => exact ih h.2

theorem Forward.nodup (h : Forward next ptr l) : l.Nodup := by
  induction l generalizing ptr with
  | nil => exact nodup_nil
  | cons b r ih =>
    refine nodup_cons.mpr ⟨fun hb => ?_, ih h.2⟩
    -- behind the second visit the list would have to be `r` again
    obtain ⟨r₁, r₂, rfl⟩ := append_of_mem hb
    have hlen := congrArg List.length (h.2.unique h.2.suffix)
    simp only [length_append, length_cons] at hlen
    omega

theorem Forward.push (h : Forward next ptr l) (ht : next' t = ptr)
    (hnext : ∀ b ∈ l, next' b = next b) : Forward next' (some t) (t :: l) := by
  refine ⟨rfl, ?_⟩
  rw [ht]
  exact h.congr hnext

/-- Put `t` behind the first node. -/
theorem Forward.insert (h : Forward next ptr (a :: l)) (ha : next' a = some t)
    (ht : next' t = next a) (hnext : ∀ b ∈ l, next' b = next b) :
    Forward next' ptr (a :: t :: l) := by
  refine ⟨h.1, ?_⟩
  rw [ha]
  exact h.2.push ht hnext

end Links
