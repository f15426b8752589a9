/-
LibXenon/StreamCipher.lean

Stream ciphers.

A generator `next` goes from state to state and puts out one key at each step;
`crypt` combines one cell of a memory after another with the keys.  The keys
do not depend on the cells.  So what happens to a stretch of the memory is a
function of the state and of that stretch (`stream`), and it undoes itself if
to combine twice with the same key does.
-/
import LibXenon.ByteMemory

namespace StreamCipher

open ByteMemory

variable {σ α β : Type*} (next : σ → σ × β) (op : α → β → α)

/-- Cells `x` to `x + n` of the memory are combined with the keys. -/
def crypt : Nat → Nat → σ → (Nat → α) → σ × (Nat → α)
  | 0, _, s, m => (s, m)
  | n + 1, x, s, m => crypt n (x + 1) (next s).1 (Function.update m x (op (m x) (next s).2))

/-- The keys that come out of a state. -/
def key : Nat → σ → β
  | 0, s => (next s).2
  | k + 1, s => key k (next s).1

/-- A list combined with the keys. -/
def stream (s : σ) (xs : List α) : List α := xs.mapIdx fun k a => op a (key next k s)

variable {next op}

/-- The memory after `crypt`. -/
theorem crypt_apply (n x : Nat) (s : σ) (m : Nat → α) (y : Nat) :
    (crypt next op n x s m).2 y
      = if x ≤ y ∧ y < x + n then op (m y) (key next (y - x) s) else m y := by
  induction n generalizing x s m with
  | zero => rw [crypt, if_neg (by omega)]
  | succ n ih =>
    rw [crypt, ih]
    -- the first cell is done in this turn, the others come from the next state
    by_cases hx : y = x
    · subst hx
      rw [if_neg (by omega), if_pos (by omega), Function.update_self, Nat.sub_self, key]
    · rw [Function.update_of_ne hx]
      by_cases hin : x ≤ y ∧ y < x + (n + 1)
      · obtain ⟨k, rfl⟩ : ∃ k, y = x + 1 + k := ⟨y - (x + 1), by omega⟩
        rw [if_pos (by omega), if_pos hin, Nat.add_sub_cancel_left,
          show x + 1 + k - x = k + 1 by omega, key]
      · rw [if_neg (by omega), if_neg hin]

theorem load_crypt (n x : Nat) (s : σ) (m : Nat → α) :
    load (crypt next op n x s m).2 x n = stream next op s (load m x n) := by
  refine List.ext_getElem (by simp [stream]) fun k hk _ => ?_
  rw [length_load] at hk
  rw [getElem_load, crypt_apply, if_pos (by omega)]
  simp [stream]

theorem load_crypt_apart {n x a k : Nat} (s : σ) (m : Nat → α) (h : a + k ≤ x) :
    load (crypt next op n x s m).2 a k = load m a k :=
  load_congr fun j hj => by rw [crypt_apply, if_neg (by omega)]

@[simp] theorem length_stream (s : σ) (xs : List α) : (stream next op s xs).length = xs.length := by
  rw [stream, List.length_mapIdx]

/-- **The cipher undoes itself.** -/
theorem stream_stream (hop : ∀ a k, op (op a k) k = a) (s : σ) (xs : List α) :
    stream next op s (stream next op s xs) = xs := by
  refine List.ext_getElem (by simp) fun k hk _ => ?_
  simp [stream, hop]

end StreamCipher
