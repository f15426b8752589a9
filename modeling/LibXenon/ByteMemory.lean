/-
LibXenon/ByteMemory.lean

Stretches of a memory.

A memory is a function from addresses to cells.  `load m a n` is the list of
the `n` cells from `a` on, `store m a xs` the memory with a list written from
`a` on.  A load sees a store to the same place and no store to a place apart
from it, and loads and stores of appended lists split.
-/
import Mathlib.Data.List.Basic

namespace ByteMemory

open List

variable {α : Type*}

def load (m : Nat → α) (a n : Nat) : List α := (List.range n).map fun k => m (a + k)

def store (m : Nat → α) (a : Nat) (xs : List α) : Nat → α := fun x =>
  if h : a ≤ x ∧ x - a < xs.length then xs[x - a] else m x

variable {m m' : Nat → α} {a b n k : Nat} {xs ys : List α}

/-! ### Loads -/

@[simp] theorem length_load (m : Nat → α) (a n : Nat) : (load m a n).length = n := by
  rw [load, length_map, length_range]

@[simp] theorem getElem_load (h : k < (load m a n).length) : (load m a n)[k] = m (a + k) := by
  simp [load]

theorem load_congr (h : ∀ k < n, m (a + k) = m' (b + k)) : load m a n = load m' b n := by
  refine ext_getElem (by simp) fun k hk _ => ?_
  rw [length_load] at hk
  rw [getElem_load, getElem_load, h k hk]

theorem eq_of_load_eq (h : load m a n = load m' b n) (hk : k < n) : m (a + k) = m' (b + k) := by
  have hget := getElem_of_eq h (i := k) (by simpa using hk)
  rwa [getElem_load, getElem_load] at hget

theorem load_part (h : load m a n = load m' b n) {i len : Nat} (hi : i + len ≤ n) :
    load m (a + i) len = load m' (b + i) len :=
  load_congr fun k hk => by
    rw [Nat.add_assoc, Nat.add_assoc]
    exact eq_of_load_eq h (by omega)

theorem load_add (m : Nat → α) (a j k : Nat) :
    load m a (j + k) = load m a j ++ load m (a + j) k := by
  rw [load, range_add, map_append, map_map]
  simp only [load, Function.comp_def, Nat.add_assoc]

theorem load_slice (m : Nat → α) (a n : Nat) {i len : Nat} (h : i + len ≤ n) :
    ((load m a n).drop i).take len = load m (a + i) len := by
  obtain ⟨rest, rfl⟩ : ∃ rest, n = i + len + rest := ⟨n - (i + len), by omega⟩
  rw [Nat.add_assoc, load_add, load_add]
  rw [drop_left' (length_load m a i), take_left' (length_load m (a + i) len)]

theorem load_eq_iff : load m a xs.length = xs ↔ ∀ k (h : k < xs.length), m (a + k) = xs[k] := by
  constructor
  · intro h k hk
    have hget := getElem_of_eq h (i := k) (by simpa using hk)
    rw [getElem_load] at hget
    exact hget
  · intro h
    refine ext_getElem (by simp) fun k hk hk' => ?_
    rw [getElem_load, h k hk']

/-! ### Stores -/

theorem store_inside (h : k < xs.length) : store m a xs (a + k) = xs[k] := by
  have hin : a ≤ a + k ∧ a + k - a < xs.length := by omega
  rw [store, dif_pos hin]
  congr 1
  omega

theorem store_cell (m : Nat → α) (a : Nat) (x : α) : store m a [x] a = x := by
  have hlen : 0 < [x].length := Nat.one_pos
  exact store_inside (m := m) (a := a) hlen

theorem store_outside {x : Nat} (h : x < a ∨ a + xs.length ≤ x) : store m a xs x = m x :=
  dif_neg (by omega)

theorem load_store_self (m : Nat → α) (a : Nat) (xs : List α) :
    load (store m a xs) a xs.length = xs :=
  load_eq_iff.mpr fun _ h => store_inside h

theorem store_shift {x : Nat} (h : m x = m' (b + x)) :
    store m a xs x = store m' (b + a) xs (b + x) := by
  by_cases hin : a ≤ x ∧ x - a < xs.length
  · have hx : a + (x - a) = x := by omega
    have hstored := store_inside (m := m) (a := a) hin.2
    have hstored' := store_inside (m := m') (a := b + a) hin.2
    rw [hx] at hstored
    rw [Nat.add_assoc, hx] at hstored'
    rw [hstored, hstored']
  · rw [store_outside (by omega), store_outside (by omega), h]

theorem load_store_apart (h : b + n ≤ a ∨ a + xs.length ≤ b) :
    load (store m a xs) b n = load m b n :=
  load_congr fun _ hk => store_outside (by omega)

theorem load_store_append (h : load m a n = ys) :
    load (store m (a + n) xs) a (n + xs.length) = ys ++ xs := by
  rw [load_add, load_store_self, load_store_apart (.inl (Nat.le_refl _)), h]

end ByteMemory
