/-
LibXenon/Handover.lean

A ring of slots between a producer and a consumer.

Each slot is full or free.  The producer fills free slots one after the other
and the consumer empties full ones in the same order, each going back to the
first slot after the last.  Neither knows where the other is: the slots' states
are all they share.

`Occupied n full holds tail q` says that the full slots are the ones from `tail`
on that hold the list `q`, in order.  It is kept by filling the slot behind the
list (`Occupied.put`), by emptying the one at `tail` (`Occupied.take`), and by
whatever leaves the full slots' content (`Occupied.congr`).  What a slot holds is
a relation, so that the content may be read off a memory.
-/
import Mathlib.Data.List.Basic

namespace Handover

variable {α : Type*}

/-- The slot after a number of others. -/
def slot (n tail k : Nat) : Nat := (tail + k) % n

structure Occupied (n : Nat) (full : Nat → Prop) (holds : Nat → α → Prop) (tail : Nat)
    (q : List α) : Prop where
  tail_lt : tail < n
  length_le : q.length ≤ n
  full_iff : ∀ i < n, full i ↔ ∃ k < q.length, i = slot n tail k
  content : ∀ k (h : k < q.length), holds (slot n tail k) q[k]

variable {n tail k j : Nat} {full full' : Nat → Prop} {holds holds' : Nat → α → Prop} {q : List α}
  {x : α}

theorem slot_lt (h : tail < n) (k : Nat) : slot n tail k < n := Nat.mod_lt _ (by omega)

theorem slot_zero (h : tail < n) : slot n tail 0 = tail := Nat.mod_eq_of_lt h

theorem slot_eq (h : tail < n) (hk : k ≤ n) :
    slot n tail k = if tail + k < n then tail + k else tail + k - n := by
  rw [slot]
  split
  · exact Nat.mod_eq_of_lt ‹_›
  · rw [Nat.mod_eq_sub_mod (by omega), Nat.mod_eq_of_lt (by omega)]

theorem slot_inj (h : tail < n) (hj : j < n) (hk : k < n) (heq : slot n tail j = slot n tail k) :
    j = k := by
  rw [slot_eq h (Nat.le_of_lt hj), slot_eq h (Nat.le_of_lt hk)] at heq
  split at heq <;> split at heq <;> omega

theorem slot_slot (tail j k : Nat) : slot n (slot n tail j) k = slot n tail (j + k) := by
  rw [slot, slot, slot, Nat.mod_add_mod, Nat.add_assoc]

theorem slot_succ (tail k : Nat) : slot n (slot n tail 1) k = slot n tail (k + 1) := by
  rw [slot_slot, Nat.add_comm]

namespace Occupied

theorem nil (h : tail < n) (hfull : ∀ i < n, ¬ full i) :
    Occupied n full holds tail ([] : List α) := by
  refine ⟨h, Nat.zero_le n, fun i hi => ⟨fun hf => absurd hf (hfull i hi), ?_⟩, fun k hk => ?_⟩
  · rintro ⟨k, hk, -⟩
    cases hk
  · cases hk

/-- The slot at `tail` is full when there is something. -/
theorem full_tail_iff (h : Occupied n full holds tail q) : full tail ↔ q ≠ [] := by
  rw [h.full_iff tail h.tail_lt]
  constructor
  · rintro ⟨k, hk, -⟩ rfl
    cases hk
  · intro hne
    exact ⟨0, List.length_pos_iff.mpr hne, (slot_zero h.tail_lt).symm⟩

theorem holds_tail (h : Occupied n full holds tail (x :: q)) : holds tail x := by
  have hzero := h.content 0 (Nat.succ_pos _)
  rw [slot_zero h.tail_lt] at hzero
  exact hzero

theorem length_lt_of_free (h : Occupied n full holds tail q)
    (hfree : ¬ full (slot n tail q.length)) : q.length < n := by
  rcases Nat.lt_or_ge q.length n with hlt | hge
  · exact hlt
  · -- with all slots in the list, the one behind it is `tail` again
    have heq : q.length = n := Nat.le_antisymm h.length_le hge
    have hpos := h.tail_lt
    refine absurd ((h.full_iff _ (slot_lt h.tail_lt _)).mpr ⟨0, by omega, ?_⟩) hfree
    rw [heq, slot_eq h.tail_lt (Nat.le_refl n), slot_zero h.tail_lt]
    split <;> omega

theorem congr (h : Occupied n full holds tail q) (hfull : ∀ i < n, full' i ↔ full i)
    (hkeep : ∀ i < n, full i → ∀ x, holds i x → holds' i x) :
    Occupied n full' holds' tail q := by
  refine ⟨h.tail_lt, h.length_le, fun i hi => ?_, fun k hk => ?_⟩
  · rw [hfull i hi, h.full_iff i hi]
  · have hlt := slot_lt h.tail_lt k
    exact hkeep _ hlt ((h.full_iff _ hlt).mpr ⟨k, hk, rfl⟩) _ (h.content k hk)

theorem put (h : Occupied n full holds tail q) (hfree : ¬ full (slot n tail q.length))
    (hfull : ∀ i < n, full' i ↔ full i ∨ i = slot n tail q.length)
    (hx : holds' (slot n tail q.length) x)
    (hkeep : ∀ i < n, full i → ∀ y, holds i y → holds' i y) :
    Occupied n full' holds' tail (q ++ [x]) := by
  have hlt := h.length_lt_of_free hfree
  have hlen : (q ++ [x]).length = q.length + 1 := List.length_append
  refine ⟨h.tail_lt, by omega, fun i hi => ?_, fun k hk => ?_⟩
  · rw [hfull i hi, h.full_iff i hi, hlen]
    constructor
    · rintro (⟨k, hk, hik⟩ | hik)
      · exact ⟨k, by omega, hik⟩
      · exact ⟨q.length, by omega, hik⟩
    · rintro ⟨k, hk, hik⟩
      rcases Nat.lt_or_ge k q.length with hkq | hkq
      · exact .inl ⟨k, hkq, hik⟩
      · obtain rfl : k = q.length := by omega
        exact .inr hik
  · rcases Nat.lt_or_ge k q.length with hkq | hkq
    · have hin := slot_lt h.tail_lt k
      rw [List.getElem_append_left hkq]
      exact hkeep _ hin ((h.full_iff _ hin).mpr ⟨k, hkq, rfl⟩) _ (h.content k hkq)
    · obtain rfl : k = q.length := by omega
      rw [List.getElem_concat_length rfl]
      exact hx

/-- The consumer empties the slot at `tail`. -/
theorem take (h : Occupied n full holds tail (x :: q)) (hfull : ∀ i < n, full' i ↔ full i ∧ i ≠ tail)
    (hkeep : ∀ i < n, full' i → ∀ y, holds i y → holds' i y) :
    Occupied n full' holds' (slot n tail 1) q := by
  have hle : q.length + 1 ≤ n := h.length_le
  have hfull' : ∀ i < n, full' i ↔ ∃ k < q.length, i = slot n (slot n tail 1) k := by
    intro i hi
    rw [hfull i hi, h.full_iff i hi]
    constructor
    · rintro ⟨⟨k, hk, rfl⟩, hne⟩
      have hk0 : k ≠ 0 := fun hz => hne (by rw [hz, slot_zero h.tail_lt])
      obtain ⟨k, rfl⟩ : ∃ k', k = k' + 1 := ⟨k - 1, by omega⟩
      exact ⟨k, Nat.lt_of_succ_lt_succ hk, (slot_succ tail k).symm⟩
    · rintro ⟨k, hk, rfl⟩
      rw [slot_succ]
      -- a later slot is not `tail`, as the list goes around at most once
      refine ⟨⟨k + 1, Nat.succ_lt_succ hk, rfl⟩, fun heq => ?_⟩
      have hzero := slot_inj h.tail_lt (by omega) (Nat.zero_lt_of_lt h.tail_lt)
        (heq.trans (slot_zero h.tail_lt).symm)
      omega
  refine ⟨slot_lt h.tail_lt 1, by omega, hfull', fun k hk => ?_⟩
  have hin : slot n (slot n tail 1) k < n := slot_lt (slot_lt h.tail_lt 1) k
  refine hkeep _ hin ((hfull' _ hin).mpr ⟨k, hk, rfl⟩) _ ?_
  rw [slot_succ]
  exact h.content (k + 1) (Nat.succ_lt_succ hk)

end Occupied

end Handover
