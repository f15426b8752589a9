/-
LibXenon/Allocation.lean

Blocks of a heap, and the calls that free them.

A live block is its base address with a tag, which says for whom it was
allocated.  `free` takes an address: NULL (`none`) is ignored, the base of a live
block takes the block off the list, and anything else is an error.  So a run in
which `free` does not fail frees no block twice.
-/
import Mathlib.Data.List.ReduceOption
import Mathlib.Data.List.Nodup

namespace Allocation

open List

variable {A B : Type*}

/-! ### Live blocks -/

/-- The base addresses of the live blocks. -/
def bases (live : List (A × B)) : List A := live.map Prod.fst

theorem mem_bases {live : List (A × B)} {a : A} : a ∈ bases live ↔ ∃ b, (a, b) ∈ live := by
  simp [bases]

theorem nodup_bases_of_sublist {live live' : List (A × B)} (h : live'.Sublist live)
    (hn : (bases live).Nodup) : (bases live').Nodup :=
  hn.sublist (h.map Prod.fst)

theorem eq_of_base_eq {live : List (A × B)} (hn : (bases live).Nodup) {a : A} {b c : B}
    (hb : (a, b) ∈ live) (hc : (a, c) ∈ live) : b = c := by
  have heq := inj_on_of_nodup_map hn hb hc rfl
  exact congrArg Prod.snd heq

/-! ### Freeing -/

variable [DecidableEq A]

/-- `free`. -/
def free (live : List (A × B)) : Option A → Option (List (A × B))
  | none => some live
  | some a => if a ∈ bases live then some (live.filter fun x => x.1 ≠ a) else none

/-- One call of `free` after the other. -/
def freeAll (live : List (A × B)) (ptrs : List (Option A)) : Option (List (A × B)) :=
  ptrs.foldlM free live

/-- **Calls of `free`** whose arguments are NULL or the bases of distinct live
blocks take exactly these off the list. -/
theorem freeAll_spec (ptrs : List (Option A)) :
    ∀ {live : List (A × B)}, ptrs.reduceOption.Nodup →
      (∀ a, some a ∈ ptrs → a ∈ bases live) →
      ∃ live', freeAll live ptrs = some live' ∧ live'.Sublist live ∧
        ∀ x, x ∈ live' ↔ x ∈ live ∧ some x.1 ∉ ptrs := by
  induction ptrs with
  | nil =>
    intro live _ _
    exact ⟨live, rfl, List.Sublist.refl _, fun x => by simp⟩
  | cons ptr ptrs ih =>
    intro live hn hlive
    cases ptr with
    | none =>
      rw [reduceOption_cons_of_none] at hn
      obtain ⟨live', hfree, hsub, hmem⟩ :=
        ih hn fun a ha => hlive a (mem_cons_of_mem _ ha)
      refine ⟨live', hfree, hsub, fun x => ?_⟩
      rw [hmem x]
      simp
    | some a =>
      rw [reduceOption_cons_of_some, nodup_cons,
        reduceOption_mem_iff] at hn
      obtain ⟨hnew, hn⟩ := hn
      have ha : a ∈ bases live := hlive a (by simp)
      -- the rest is still live: no pointer comes twice
      have hrest : ∀ c, some c ∈ ptrs → c ∈ bases (live.filter fun x => x.1 ≠ a) := by
        intro c hc
        obtain ⟨b, hb⟩ := mem_bases.mp (hlive c (mem_cons_of_mem _ hc))
        refine mem_bases.mpr ⟨b, mem_filter.mpr ⟨hb, ?_⟩⟩
        simp only [ne_eq, decide_eq_true_eq]
        rintro rfl
        exact hnew hc
      obtain ⟨live', hfree, hsub, hmem⟩ := ih hn hrest
      refine ⟨live', ?_, hsub.trans filter_sublist, fun x => ?_⟩
      · rw [freeAll, foldlM_cons, free, if_pos ha]
        exact hfree
      · rw [hmem x, mem_filter, mem_cons, not_or, Option.some.injEq]
        simp only [ne_eq, decide_eq_true_eq, and_assoc]

end Allocation
