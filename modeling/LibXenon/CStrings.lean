/-
LibXenon/CStrings.lean

NUL-terminated strings in a memory.

`Text m p s` says that the characters of `s`, none of them NUL, stand at `p`;
`CString m p s` adds the NUL behind them.  The library functions run over the
memory; a search that is given only so many bytes to look at answers `none`
when it has not come to an end by then, and otherwise with the address that C
returns, where `none` inside is NULL.  On a text they are the list functions:
`strnlen_eq`, `strchr_eq`, `strchr_eq_none`, `strrchr_eq`.
-/
import LibXenon.ByteMemory
import Mathlib.Data.List.DropRight

namespace CStrings

open ByteMemory List

def NUL : Char := Char.ofNat 0

/-! ### The library functions -/

/-- `strnlen(p, n)`. -/
def strnlen (m : Nat → Char) : Nat → Nat → Nat
  | _, 0 => 0
  | p, n + 1 => if m p = NUL then 0 else strnlen m (p + 1) n + 1

/-- `strchr(p, c)`, within `n` bytes. -/
def strchr (m : Nat → Char) (c : Char) : Nat → Nat → Option (Option Nat)
  | _, 0 => none
  | p, n + 1 =>
    if m p = c then some (some p) else if m p = NUL then some none else strchr m c (p + 1) n

/-- `strrchr(p, c)`, within `n` bytes. -/
def strrchr (m : Nat → Char) (c : Char) : Nat → Nat → Option (Option Nat)
  | _, 0 => none
  | p, n + 1 =>
    if m p = NUL then some none
    else (strrchr m c (p + 1) n).map fun r => r.or (if m p = c then some p else none)

/-- What `strncpy` writes for `n` bytes of a string. -/
def strncpyBytes (s : List Char) (n : Nat) : List Char :=
  s.take n ++ List.replicate (n - s.length) NUL

/-! ### Texts -/

variable {m m' : Nat → Char} {p n : Nat} {a c : Char} {s s' : List Char}

/-- The characters of `s` stand at `p`. -/
structure Text (m : Nat → Char) (p : Nat) (s : List Char) : Prop where
  cells : load m p s.length = s
  noNul : NUL ∉ s

/-- The string at `p`. -/
structure CString (m : Nat → Char) (p : Nat) (s : List Char) : Prop extends Text m p s where
  stop : m (p + s.length) = NUL

theorem Text.nil (m : Nat → Char) (p : Nat) : Text m p [] := ⟨rfl, not_mem_nil⟩

theorem text_cons_iff : Text m p (a :: s) ↔ m p = a ∧ a ≠ NUL ∧ Text m (p + 1) s := by
  have hload : load m p (a :: s).length = m p :: load m (p + 1) s.length := by
    rw [length_cons, Nat.add_comm, load_add]
    rfl
  constructor
  · intro h
    obtain ⟨ha, hs⟩ := List.cons.inj (hload.symm.trans h.cells)
    obtain ⟨hne, hnot⟩ := not_or.mp (mem_cons.not.mp h.noNul)
    exact ⟨ha, Ne.symm hne, hs, hnot⟩
  · rintro ⟨ha, hne, hs⟩
    refine ⟨?_, mem_cons.not.mpr (not_or.mpr ⟨hne.symm, hs.noNul⟩)⟩
    rw [hload, ha, hs.cells]

theorem cstring_cons_iff : CString m p (a :: s) ↔ m p = a ∧ a ≠ NUL ∧ CString m (p + 1) s := by
  have hend : p + 1 + s.length = p + (a :: s).length := by
    rw [length_cons]
    omega
  constructor
  · intro h
    obtain ⟨ha, hne, hs⟩ := text_cons_iff.mp h.toText
    exact ⟨ha, hne, hs, by rw [hend]; exact h.stop⟩
  · rintro ⟨ha, hne, hs⟩
    exact ⟨text_cons_iff.mpr ⟨ha, hne, hs.toText⟩, by rw [← hend]; exact hs.stop⟩

theorem text_append_iff : Text m p (s ++ s') ↔ Text m p s ∧ Text m (p + s.length) s' := by
  induction s generalizing p with
  | nil => exact ⟨fun h => ⟨Text.nil m p, h⟩, fun h => h.2⟩
  | cons a s ih =>
    rw [cons_append, text_cons_iff, text_cons_iff, ih, length_cons]
    have hshift : p + 1 + s.length = p + (s.length + 1) := by omega
    rw [hshift, and_assoc, and_assoc]

theorem Text.get (h : Text m p s) {k : Nat} (hk : k < s.length) : m (p + k) = s[k] :=
  load_eq_iff.mp h.cells k hk

theorem Text.ne_nul (h : Text m p s) {k : Nat} (hk : k < s.length) : m (p + k) ≠ NUL := by
  rw [h.get hk]
  exact fun hnul => h.noNul (hnul ▸ getElem_mem hk)

theorem Text.congr (h : Text m p s) (hsame : ∀ k < s.length, m' (p + k) = m (p + k)) :
    Text m' p s :=
  ⟨(load_congr hsame).trans h.cells, h.noNul⟩

theorem Text.store (h : Text m p s) {q : Nat} (hq : p + s.length ≤ q) (cs : List Char) :
    Text (store m q cs) p s :=
  h.congr fun k hk => store_outside (.inl (by omega))

theorem Text.store_append (h : Text m p s) (hs' : NUL ∉ s') :
    Text (ByteMemory.store m (p + s.length) s') p (s ++ s') := by
  refine text_append_iff.mpr ⟨h.store le_rfl s', ?_, hs'⟩
  exact load_store_self m _ s'

/-! ### The functions on texts -/

theorem strnlen_eq (h : CString m p s) (hn : s.length < n) : strnlen m p n = s.length := by
  induction s generalizing p n with
  | nil =>
    obtain ⟨n, rfl⟩ := Nat.exists_eq_add_one.mpr hn
    exact if_pos h.stop
  | cons a s ih =>
    obtain ⟨n, rfl⟩ := Nat.exists_eq_succ_of_ne_zero (Nat.ne_zero_of_lt hn)
    obtain ⟨ha, hne, hs⟩ := cstring_cons_iff.mp h
    rw [strnlen, if_neg (by rw [ha]; exact hne), ih hs (Nat.lt_of_succ_lt_succ hn)]
    rfl

theorem strchr_eq (h : Text m p s) (hc : c ∈ s) (hn : s.length ≤ n) :
    strchr m c p n = some (some (p + (s.takeWhile (· != c)).length)) := by
  induction s generalizing p n with
  | nil => cases hc
  | cons a s ih =>
    obtain ⟨n, rfl⟩ := Nat.exists_eq_succ_of_ne_zero (Nat.ne_zero_of_lt hn)
    obtain ⟨ha, hne, hs⟩ := text_cons_iff.mp h
    rw [strchr, ha]
    by_cases hac : a = c
    · subst hac
      rw [if_pos rfl, takeWhile_cons_of_neg (by simp)]
      rfl
    · have hmem : c ∈ s := (mem_cons.mp hc).resolve_left (Ne.symm hac)
      rw [if_neg hac, if_neg hne, ih hs hmem (Nat.le_of_succ_le_succ hn),
        takeWhile_cons_of_pos (by simpa using hac), length_cons]
      have hshift : p + 1 + (s.takeWhile (· != c)).length
          = p + ((s.takeWhile (· != c)).length + 1) := by omega
      rw [hshift]

theorem strchr_eq_none (h : CString m p s) (hc : c ∉ s) (hc₀ : c ≠ NUL) (hn : s.length < n) :
    strchr m c p n = some none := by
  induction s generalizing p n with
  | nil =>
    obtain ⟨n, rfl⟩ := Nat.exists_eq_add_one.mpr hn
    have hstop : m p = NUL := h.stop
    rw [strchr, hstop, if_neg hc₀.symm, if_pos rfl]
  | cons a s ih =>
    obtain ⟨n, rfl⟩ := Nat.exists_eq_succ_of_ne_zero (Nat.ne_zero_of_lt hn)
    obtain ⟨ha, hne, hs⟩ := cstring_cons_iff.mp h
    obtain ⟨hca, hcs⟩ := not_or.mp (mem_cons.not.mp hc)
    rw [strchr, ha, if_neg (Ne.symm hca), if_neg hne]
    exact ih hs hcs (Nat.lt_of_succ_lt_succ hn)

theorem rdropWhile_cons (q : Char → Bool) (a : Char) (s : List Char) :
    (a :: s).rdropWhile q
      = if s.rdropWhile q = [] then (if q a then [] else [a]) else a :: s.rdropWhile q := by
  simp only [List.rdropWhile, reverse_cons, dropWhile_append, List.isEmpty_iff,
    reverse_eq_nil_iff]
  split
  · rw [dropWhile_cons]
    split <;> rfl
  · rw [reverse_append]
    rfl

theorem strrchr_eq (h : CString m p s) (hn : s.length < n) :
    strrchr m c p n = some (if s.rdropWhile (· != c) = [] then none
      else some (p + ((s.rdropWhile (· != c)).length - 1))) := by
  induction s generalizing p n with
  | nil =>
    obtain ⟨n, rfl⟩ := Nat.exists_eq_add_one.mpr hn
    exact if_pos h.stop
  | cons a s ih =>
    obtain ⟨n, rfl⟩ := Nat.exists_eq_succ_of_ne_zero (Nat.ne_zero_of_lt hn)
    obtain ⟨ha, hne, hs⟩ := cstring_cons_iff.mp h
    rw [strrchr, ha, if_neg hne, ih hs (Nat.lt_of_succ_lt_succ hn), rdropWhile_cons]
    by_cases hnil : s.rdropWhile (· != c) = []
    · -- no match further on, so this character decides
      rw [if_pos hnil, if_pos hnil]
      by_cases hac : a = c
      · simp [hac]
      · simp [hac]
    · -- a match further on is taken, one place later
      rw [if_neg hnil, if_neg hnil]
      obtain ⟨b, r, hbr⟩ := exists_cons_of_ne_nil hnil
      rw [hbr]
      simp only [Option.map_some, Option.some_or, length_cons, reduceCtorEq, if_false]
      congr 2
      omega

end CStrings
