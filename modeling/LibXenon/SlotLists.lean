/-
LibXenon/SlotLists.lean

Singly linked lists that are edited through pointers to pointers.

A slot is a place that holds a pointer: one of the roots, or the link of a node.
C code walks along a list with a pointer to a slot and then writes to it, so the
front of a list needs no case of its own.  `Owns σ l` says that the list from each
root `r` runs through `l r` and that no node is in two of them.

* `toEnd` walks to the slot that ends a list, `find` to the one that holds the first
  node with a property.  A walk that has not ended after so many rounds is `none`.
* `Owns.move` hangs one whole list behind another, `Owns.take` cuts a node out and
  `Owns.give` hangs a free node behind a list.
-/
import LibXenon.Links
import LibXenon.Transition

namespace SlotLists

open Function Links Transition List

variable {R α : Type*}

/-- A place that holds a pointer. -/
inductive Slot (R α : Type*)
  | root (r : R)
  | next (a : α)

/-- The pointers in all slots. -/
structure Store (R α : Type*) where
  root : R → Option α
  next : α → Option α

namespace Store

def get (σ : Store R α) : Slot R α → Option α
  | .root r => σ.root r
  | .next a => σ.next a

/-- Walk to the slot that holds no node. -/
def toEnd (σ : Store R α) : Nat → Slot R α → Option (Slot R α)
  | 0, _ => none
  | n + 1, slot =>
    match σ.get slot with
    | none => some slot
    | some a => toEnd σ n (.next a)

/-- Walk to the slot that holds the first node with a property; there may be none. -/
def find (σ : Store R α) (p : α → Bool) : Nat → Slot R α → Option (Option (Slot R α × α))
  | 0, _ => none
  | n + 1, slot =>
    match σ.get slot with
    | none => some none
    | some a => if p a then some (some (slot, a)) else find σ p n (.next a)

/-- The nodes of a list, so many at most. -/
def nodes (σ : Store R α) : Nat → Option α → List α
  | 0, _ => []
  | _ + 1, none => []
  | n + 1, some a => a :: nodes σ n (σ.next a)

variable [DecidableEq R] [DecidableEq α]

def set (σ : Store R α) : Slot R α → Option α → Store R α
  | .root r, ptr => { σ with root := update σ.root r ptr }
  | .next a, ptr => { σ with next := update σ.next a ptr }

end Store

/-- The slot behind the nodes of a list that begins in `slot`. -/
def endSlot (slot : Slot R α) (l : List α) : Slot R α :=
  match l.getLast? with
  | none => slot
  | some z => .next z

theorem endSlot_cons (slot : Slot R α) (a : α) (l : List α) :
    endSlot slot (a :: l) = endSlot (.next a) l := by
  cases l with
  | nil => rfl
  | cons b l =>
    rw [endSlot, endSlot, List.getLast?_cons_cons, List.getLast?_cons]

theorem endSlot_concat (slot : Slot R α) (l : List α) (z : α) :
    endSlot slot (l ++ [z]) = .next z := by
  rw [endSlot, List.getLast?_concat]

/-! ### Walks -/

variable {σ : Store R α} {slot : Slot R α} {l l₁ l₂ : List α} {a : α} {n : Nat} {p : α → Bool}

theorem toEnd_eq (h : Forward σ.next (σ.get slot) l) (hn : l.length < n) :
    σ.toEnd n slot = some (endSlot slot l) := by
  induction l generalizing slot n with
  | nil =>
    obtain ⟨n, rfl⟩ := Nat.exists_eq_add_of_lt hn
    rw [Store.toEnd, show σ.get slot = none from h]
    rfl
  | cons a l ih =>
    obtain ⟨n, rfl⟩ := Nat.exists_eq_add_of_lt hn
    rw [Store.toEnd, h.1, endSlot_cons]
    exact ih h.2 (by rw [length_cons]; omega)

theorem find_eq_some (h : Forward σ.next (σ.get slot) (l₁ ++ a :: l₂))
    (hn : (l₁ ++ a :: l₂).length < n) (hbefore : ∀ b ∈ l₁, p b = false) (ha : p a = true) :
    σ.find p n slot = some (some (endSlot slot l₁, a)) := by
  induction l₁ generalizing slot n with
  | nil =>
    obtain ⟨n, rfl⟩ := Nat.exists_eq_add_of_lt hn
    rw [Store.find, h.1]
    exact if_pos ha
  | cons b l₁ ih =>
    obtain ⟨n, rfl⟩ := Nat.exists_eq_add_of_lt hn
    have hb : ¬ p b = true := by
      rw [hbefore b mem_cons_self]
      exact Bool.false_ne_true
    rw [Store.find, h.1, endSlot_cons]
    dsimp only
    rw [if_neg hb]
    exact ih h.2 (by rw [cons_append, length_cons]; omega)
      fun c hc => hbefore c (mem_cons_of_mem b hc)

theorem find_eq_none (h : Forward σ.next (σ.get slot) l) (hn : l.length < n)
    (hl : ∀ b ∈ l, p b = false) : σ.find p n slot = some none := by
  induction l generalizing slot n with
  | nil =>
    obtain ⟨n, rfl⟩ := Nat.exists_eq_add_of_lt hn
    rw [Store.find, show σ.get slot = none from h]
  | cons b l ih =>
    obtain ⟨n, rfl⟩ := Nat.exists_eq_add_of_lt hn
    have hb : ¬ p b = true := by
      rw [hl b mem_cons_self]
      exact Bool.false_ne_true
    rw [Store.find, h.1]
    dsimp only
    rw [if_neg hb]
    exact ih h.2 (by rw [length_cons]; omega) fun c hc => hl c (mem_cons_of_mem b hc)

theorem nodes_eq {ptr : Option α} (h : Forward σ.next ptr l) (hn : l.length ≤ n) :
    σ.nodes n ptr = l := by
  induction l generalizing ptr n with
  | nil =>
    rw [show ptr = none from h]
    cases n <;> rfl
  | cons a l ih =>
    obtain ⟨n, rfl⟩ := Nat.exists_eq_add_of_le hn
    rw [h.1, Nat.add_comm, length_cons, ← Nat.add_assoc, Store.nodes, ih h.2]
    omega

theorem exists_first (p : α → Bool) (l : List α) :
    (∀ b ∈ l, p b = false) ∨
      ∃ l₁ a l₂, l = l₁ ++ a :: l₂ ∧ (∀ b ∈ l₁, p b = false) ∧ p a = true := by
  induction l with
  | nil => exact .inl nofun
  | cons a l ih =>
    cases ha : p a with
    | true => exact .inr ⟨[], a, l, rfl, fun _ hb => (nomatch hb), ha⟩
    | false =>
      obtain h | ⟨l₁, b, l₂, rfl, hbefore, hb⟩ := ih
      · exact .inl (forall_mem_cons.mpr ⟨ha, h⟩)
      · exact .inr ⟨a :: l₁, b, l₂, rfl, forall_mem_cons.mpr ⟨ha, hbefore⟩, hb⟩

/-! ### Writing to the end of a list -/

variable [DecidableEq R] [DecidableEq α] {ptr : Option α} {r r' : R}

theorem Forward.set_next {z : α} (h : Forward σ.next ptr l) (hz : z ∉ l) (ptr' : Option α) :
    Forward (σ.set (.next z) ptr').next ptr l := by
  refine h.congr fun b hb => ?_
  have hne : b ≠ z := fun e => hz (e ▸ hb)
  exact update_of_ne hne ..

/-- Hang the list of `ptr` behind the first nodes of another. -/
theorem Forward.join {ptr₀ : Option α} {z : α} (h : Forward σ.next ptr₀ (l₁ ++ z :: l₂))
    (hl : Forward σ.next ptr l) (hz : z ∉ l) :
    Forward (σ.set (.next z) ptr).next ptr₀ (l₁ ++ z :: l) := by
  have hnodup := h.nodup
  induction l₁ generalizing ptr₀ with
  | nil =>
    refine ⟨h.1, ?_⟩
    show Forward _ (update σ.next z ptr z) l
    rw [update_self]
    exact Forward.set_next hl hz ptr
  | cons b l₁ ih =>
    have hb : b ≠ z := fun e =>
      (nodup_cons.mp hnodup).1 (mem_append_right l₁ (e ▸ mem_cons_self))
    refine ⟨h.1, ?_⟩
    show Forward _ (update σ.next z ptr b) (l₁ ++ z :: l)
    rw [update_of_ne hb]
    exact ih h.2 (nodup_cons.mp hnodup).2

theorem spans_set_end (h : Forward σ.next (σ.root r) (l₁ ++ l₂)) (hl : Forward σ.next ptr l)
    (hapart : ∀ b ∈ l₁, b ∉ l) :
    Forward (σ.set (endSlot (.root r) l₁) ptr).next
      ((σ.set (endSlot (.root r) l₁) ptr).root r) (l₁ ++ l) := by
  rcases eq_nil_or_concat l₁ with rfl | ⟨l₁, z, rfl⟩
  · show Forward σ.next (update σ.root r ptr r) l
    rw [update_self]
    exact hl
  · rw [concat_eq_append] at h hapart ⊢
    rw [endSlot_concat]
    rw [append_assoc] at h ⊢
    exact Forward.join h hl (hapart z (mem_append_right l₁ mem_cons_self))

theorem spans_set_other {ptr' : Option α} (hr : r' ≠ r) (h : Forward σ.next (σ.root r') l)
    (hapart : ∀ b ∈ l₁, b ∉ l) :
    Forward (σ.set (endSlot (.root r) l₁) ptr').next
      ((σ.set (endSlot (.root r) l₁) ptr').root r') l := by
  rcases eq_nil_or_concat l₁ with rfl | ⟨l₁, z, rfl⟩
  · show Forward σ.next (update σ.root r ptr' r') l
    rw [update_of_ne hr]
    exact h
  · rw [concat_eq_append] at hapart ⊢
    rw [endSlot_concat]
    exact Forward.set_next h (hapart z (mem_append_right l₁ mem_cons_self)) ptr'

/-! ### Lists apart -/

/-- The list from each root, with no node in two of them. -/
structure Owns (σ : Store R α) (l : R → List α) : Prop where
  spans : ∀ r, Forward σ.next (σ.root r) (l r)
  apart : ∀ {r r' a}, a ∈ l r → a ∈ l r' → r = r'

section Owns

variable {l : R → List α}

omit [DecidableEq α] in
theorem mem_update {l' : List α} {s : R} (h : a ∈ update l r l' s) :
    (s = r ∧ a ∈ l') ∨ (s ≠ r ∧ a ∈ l s) := by
  revert h
  exact update_cases (fun h => .inl ⟨rfl, h⟩) (fun _ hs h => .inr ⟨hs, h⟩) s

omit [DecidableEq α] in
/-- The nodes of one list change, and no new one belongs to another list. -/
theorem apart_update (h : Owns σ l) {l' : List α} (hl' : ∀ b ∈ l', b ∈ l r ∨ ∀ s, b ∉ l s)
    {s s' : R} (hs : a ∈ update l r l' s) (hs' : a ∈ update l r l' s') :
    s = s' := by
  have hother {t : R} (ht : t ≠ r) (hmem : a ∈ l t) (hnew : a ∈ l') : False := by
    obtain hold | hfree := hl' a hnew
    · exact ht (h.apart hmem hold)
    · exact hfree t hmem
  obtain ⟨e, hnew⟩ | ⟨hne, hold⟩ := mem_update hs
  · obtain ⟨e', -⟩ | ⟨hne', hold'⟩ := mem_update hs'
    · exact e.trans e'.symm
    · exact (hother hne' hold' hnew).elim
  · obtain ⟨-, hnew'⟩ | ⟨-, hold'⟩ := mem_update hs'
    · exact (hother hne hold hnew').elim
    · exact h.apart hold hold'

omit [DecidableEq R] [DecidableEq α] in
theorem Owns.spans_append_nil (h : Owns σ l) (s : R) :
    Forward σ.next (σ.root s) (l s ++ []) := by
  rw [append_nil]
  exact h.spans s

theorem Owns.give (h : Owns σ l) (ha : ∀ s, a ∉ l s) (hnext : σ.next a = none) (r : R) :
    Owns (σ.set (endSlot (.root r) (l r)) (some a)) (update l r (l r ++ [a])) where
  spans s := by
    refine update_cases ?_ (fun s hs => ?_) s
    · refine spans_set_end (h.spans_append_nil r) ⟨rfl, hnext⟩ fun b hb hba => ?_
      rw [mem_singleton] at hba
      exact ha r (hba ▸ hb)
    · exact spans_set_other hs (h.spans s) fun b hb hb' => hs (h.apart hb' hb)
  apart hs hs' := by
    refine apart_update h (fun b hb => ?_) hs hs'
    obtain hb | hb := mem_append.mp hb
    · exact .inl hb
    · rw [mem_singleton] at hb
      exact .inr (hb ▸ ha)

theorem Owns.set_free (h : Owns σ l) (ha : ∀ s, a ∉ l s) (ptr : Option α) :
    Owns (σ.set (.next a) ptr) l where
  spans s := Forward.set_next (h.spans s) (ha s) ptr
  apart := h.apart

theorem Owns.take (h : Owns σ l) (hr : l r = l₁ ++ a :: l₂) :
    Owns (σ.set (endSlot (.root r) l₁) (σ.next a)) (update l r (l₁ ++ l₂)) ∧
      ∀ s, a ∉ update l r (l₁ ++ l₂) s := by
  have hlist := h.spans r
  rw [hr] at hlist
  have hmem : a ∈ l r := by
    rw [hr]
    exact mem_append_right l₁ mem_cons_self
  obtain ⟨-, hnodup₂, hapart⟩ := nodup_append.mp hlist.nodup
  have hsub : ∀ b ∈ l₁ ++ l₂, b ∈ l r := by
    intro b hb
    rw [hr]
    exact ((sublist_cons_self a l₂).append_left l₁).subset hb
  refine ⟨⟨fun s => ?_, fun hs hs' => apart_update h (fun b hb => .inl (hsub b hb)) hs hs'⟩,
    fun s hs => ?_⟩
  · refine update_cases ?_ (fun s hs => ?_) s
    · exact spans_set_end hlist hlist.suffix fun b hb hb' =>
        hapart b hb b (mem_cons_of_mem a hb') rfl
    · refine spans_set_other hs (h.spans s) fun b hb hb' => hs (h.apart hb' ?_)
      exact hsub b (mem_append_left l₂ hb)
  · -- neither its own list nor one that never had it
    obtain ⟨-, hnew⟩ | ⟨hne, hold⟩ := mem_update hs
    · obtain hnew | hnew := mem_append.mp hnew
      · exact hapart a hnew a mem_cons_self rfl
      · exact (nodup_cons.mp hnodup₂).1 hnew
    · exact hne (h.apart hold hmem)

theorem Owns.move (h : Owns σ l) (hne : r' ≠ r) :
    Owns ((σ.set (endSlot (.root r) (l r)) (σ.root r')).set (.root r') none)
      (update (update l r (l r ++ l r')) r' []) := by
  have hapart {s s' : R} (hs : s ≠ s') : ∀ b ∈ l s, b ∉ l s' := fun b hb hb' =>
    hs (h.apart hb hb')
  refine ⟨fun s => ?_, fun {s s' b} hs hs' => ?_⟩
  · refine update_cases (update_self ..) (fun s hs => ?_) s
    · have hroot : ((σ.set (endSlot (.root r) (l r)) (σ.root r')).set (.root r') none).root s
          = (σ.set (endSlot (.root r) (l r)) (σ.root r')).root s := update_of_ne hs ..
      rw [hroot]
      refine update_cases ?_ (fun s hsr => ?_) s
      · exact spans_set_end (h.spans_append_nil r) (h.spans r') (hapart (Ne.symm hne))
      · exact spans_set_other hsr (h.spans s) (hapart (Ne.symm hsr))
  · obtain ⟨-, hnil⟩ | ⟨hsr', hmem⟩ := mem_update hs
    · nomatch hnil
    · obtain ⟨-, hnil⟩ | ⟨hsr'', hmem'⟩ := mem_update hs'
      · nomatch hnil
      · -- nodes of the list that has moved were in no third list
        have hthird {t : R} (ht : t ≠ r') (htr : t ≠ r) (hold : b ∈ l t) : b ∉ l r ++ l r' := by
          intro hb
          obtain hb | hb := mem_append.mp hb
          · exact htr (h.apart hold hb)
          · exact ht (h.apart hold hb)
        obtain ⟨e, hnew⟩ | ⟨hsr, hold⟩ := mem_update hmem
        · obtain ⟨e', -⟩ | ⟨hsr₂, hold'⟩ := mem_update hmem'
          · exact e.trans e'.symm
          · exact absurd hnew (hthird hsr'' hsr₂ hold')
        · obtain ⟨-, hnew'⟩ | ⟨-, hold'⟩ := mem_update hmem'
          · exact absurd hnew' (hthird hsr' hsr hold)
          · exact h.apart hold hold'

end Owns

end SlotLists
