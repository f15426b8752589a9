/-
LibXenon/CacheLines.lean

Which cache lines the flushing loops visit.

Both kinds of loop go upwards from the line of the first byte.  `memdcbst` and its
relatives add to the length what was rounded off the address, and go one line too far at
worst (`cacheLoop_exact`).  `elf_sync_before_exec` rounds the length alone, so it misses
the last line when the bytes cross one more boundary than their number tells
(`sync_covers_iff`), and `elf_setArgcArgv` gives it an address for a length
(`argv_not_flushed`).
-/
import LibXenon.BootPath

namespace LibXenon

open List

/-! ### The loops -/

/-- The line of 128 bytes an address is in. -/
def lineOf (a : Nat) : Nat := a % 2 ^ 32 / 128 * 128

/-- The loop of `elf_sync_before_exec`, with `l` an `int`. -/
def elfSyncLoop (dst : Nat) (l : Int) : List Nat :=
  if 0 < l then dst :: elfSyncLoop ((dst + 128) % 2 ^ 32) (l - 128) else []
termination_by l.toNat

/-- `elf_sync_before_exec`: the lines it flushes. -/
def elfSyncBeforeExec (dst : Nat) (l : Int) : List Nat :=
  elfSyncLoop (lineOf dst) ((l + 127).bmod (2 ^ 32) / 128 * 128)

/-- The loop of cache.S, in 32-bit mode: `bge` looks at the sign of what `subic.` left. -/
def cacheLoop (r5 r4 : Nat) : List Nat :=
  r5 :: if (r4 + 2 ^ 32 - 128) % 2 ^ 32 < 2 ^ 31 then
    cacheLoop ((r5 + 128) % 2 ^ 32) ((r4 + 2 ^ 32 - 128) % 2 ^ 32) else []
termination_by r4
decreasing_by omega

/-- `memdcbst`, `memdcbf` and `memicbi`: the lines they visit; `len` is an `int`. -/
def cacheLines (addr len : Nat) : List Nat := cacheLoop (lineOf addr) (len + addr % 128)

inductive CacheOp
  | dcbst | dcbf | icbi

def memdcbst (addr len : Nat) : List (CacheOp × Nat) :=
  (cacheLines addr len).map fun a => (.dcbst, a)

def memdcbf (addr len : Nat) : List (CacheOp × Nat) :=
  (cacheLines addr len).map fun a => (.dcbf, a)

def memicbi (addr len : Nat) : List (CacheOp × Nat) :=
  (cacheLines addr len).flatMap fun a => [(.dcbst, a), (.icbi, a)]

/-! ### The lines -/

/-- So many lines from one on. -/
def linesFrom (dst : Nat) : Nat → List Nat
  | 0 => []
  | n + 1 => dst :: linesFrom ((dst + 128) % 2 ^ 32) n

theorem mem_linesFrom {dst n a : Nat} (hdst : dst < 2 ^ 32) :
    a ∈ linesFrom dst n ↔ ∃ k < n, a = (dst + 128 * k) % 2 ^ 32 := by
  induction n generalizing dst with
  | zero => simp [linesFrom]
  | succ n ih =>
    rw [linesFrom, mem_cons, ih (Nat.mod_lt _ (by decide))]
    constructor
    · rintro (rfl | ⟨k, hk, rfl⟩)
      · exact ⟨0, by omega, by omega⟩
      · exact ⟨k + 1, by omega, by omega⟩
    · rintro ⟨k, hk, rfl⟩
      cases k with
      | zero => exact .inl (by omega)
      | succ k => exact .inr ⟨k, by omega, by omega⟩

/-- The line of a byte is among those from the first one on if there are enough of them. -/
theorem lineOf_mem_linesFrom {dst n i : Nat} (hn : n ≤ 2 ^ 25) (hi : i < 2 ^ 31) :
    lineOf (dst + i) ∈ linesFrom (lineOf dst) n ↔ (dst % 128 + i) / 128 < n := by
  rw [mem_linesFrom (by rw [lineOf]; omega)]
  constructor
  · rintro ⟨k, hk, h⟩
    rw [lineOf, lineOf] at h
    omega
  · intro h
    refine ⟨_, h, ?_⟩
    rw [lineOf, lineOf]
    omega

theorem elfSyncLoop_eq (dst n : Nat) : elfSyncLoop dst (n * 128 : Nat) = linesFrom dst n := by
  induction n generalizing dst with
  | zero =>
    rw [elfSyncLoop, if_neg (by omega)]
    rfl
  | succ n ih =>
    rw [elfSyncLoop, if_pos (by omega), linesFrom, ← ih]
    congr 2
    omega

theorem cacheLoop_eq {r5 r4 : Nat} (h : r4 < 2 ^ 31 + 127) :
    cacheLoop r5 r4 = linesFrom r5 (r4 / 128 + 1) := by
  obtain ⟨n, hn⟩ : ∃ n, r4 / 128 = n := ⟨_, rfl⟩
  induction n generalizing r5 r4 with
  | zero =>
    rw [cacheLoop, hn, if_neg (by omega)]
    rfl
  | succ n ih =>
    have hleft : (r4 + 2 ^ 32 - 128) % 2 ^ 32 = r4 - 128 := by omega
    have hrest : (r4 - 128) / 128 = n := by omega
    rw [cacheLoop, hn, linesFrom, hleft, if_pos (by omega), ih (by omega) hrest, hrest]

/-! ### What they cover -/

/-- **`elf_sync_before_exec`** flushes all lines of the bytes exactly when the rounded length
reaches their end, and does not overflow. -/
theorem sync_covers_iff (dst l : Nat) (hpos : 0 < l) (hl : l < 2 ^ 31) :
    (∀ i < l, lineOf (dst + i) ∈ elfSyncBeforeExec dst l) ↔
      dst % 128 + l ≤ (l + 127) / 128 * 128 ∧ l + 127 < 2 ^ 31 := by
  rw [elfSyncBeforeExec]
  by_cases hmax : l + 127 < 2 ^ 31
  · have hround : ((l : Int) + 127).bmod (2 ^ 32) / 128 * 128 = ((l + 127) / 128 * 128 : Nat) := by
      rw [Int.bmod_eq_of_le (by omega) (by omega)]
      omega
    rw [hround, elfSyncLoop_eq]
    constructor
    · intro h
      have hlast := (lineOf_mem_linesFrom (by omega) (by omega)).mp (h (l - 1) (by omega))
      omega
    · intro h i hi
      exact (lineOf_mem_linesFrom (by omega) (by omega)).mpr (by omega)
  · -- the sum is negative, and nothing is flushed
    have hneg : ¬ 0 < ((l : Int) + 127).bmod (2 ^ 32) / 128 * 128 := by
      rw [Int.bmod_def]
      omega
    rw [elfSyncLoop, if_neg hneg]
    exact iff_of_false (fun h => nomatch h 0 hpos) fun h => hmax h.2

theorem sync_covers_aligned :
    lineOf (0x88000000 + 199) ∈ elfSyncBeforeExec 0x88000000 200 :=
  (sync_covers_iff 0x88000000 200 (by decide) (by decide)).mpr (by decide) 199 (by decide)

/-- Two bytes, one on each side of a boundary. -/
theorem sync_misses_line : lineOf (0x8800007F + 1) ∉ elfSyncBeforeExec 0x8800007F 2 := by
  have hround : ((2 : Int) + 127).bmod (2 ^ 32) / 128 * 128 = (1 * 128 : Nat) := by decide
  rw [elfSyncBeforeExec, hround, elfSyncLoop_eq]
  decide

/-- **The loops of cache.S** visit all lines of the bytes, and at most the next one. -/
theorem cacheLoop_exact (addr len : Nat) (hpos : 1 ≤ len) (hlen : len < 2 ^ 31)
    (hwrap : addr + len ≤ 2 ^ 32) :
    (∀ i < len, (.dcbst, lineOf (addr + i)) ∈ memdcbst addr len ∧
        (.dcbf, lineOf (addr + i)) ∈ memdcbf addr len ∧
        (.icbi, lineOf (addr + i)) ∈ memicbi addr len) ∧
      ∀ op a, (op, a) ∈ memdcbst addr len ++ memdcbf addr len ++ memicbi addr len →
        (∃ i < len, a = lineOf (addr + i)) ∨ a = lineOf (addr + (len - 1) + 128) := by
  have hlines : cacheLines addr len = linesFrom (lineOf addr) ((len + addr % 128) / 128 + 1) :=
    cacheLoop_eq (by omega)
  constructor
  · intro i hi
    have hmem : lineOf (addr + i) ∈ cacheLines addr len := by
      rw [hlines, lineOf_mem_linesFrom (by omega) (by omega)]
      omega
    exact ⟨mem_map_of_mem hmem, mem_map_of_mem hmem,
      mem_flatMap.mpr ⟨_, hmem, by simp⟩⟩
  · intro op a h
    have hmem : a ∈ cacheLines addr len := by
      simp only [memdcbst, memdcbf, memicbi, mem_append, mem_map, mem_flatMap] at h
      obtain (⟨_, hb, he⟩ | ⟨_, hb, he⟩) | ⟨b, hb, he⟩ := h
      · exact (Prod.mk.inj he).2 ▸ hb
      · exact (Prod.mk.inj he).2 ▸ hb
      · obtain ⟨-, rfl⟩ : _ ∧ a = b := by simpa [← or_and_right] using he
        exact hb
    rw [hlines, mem_linesFrom (by rw [lineOf]; omega)] at hmem
    obtain ⟨k, hk, rfl⟩ := hmem
    rw [lineOf, lineOf]
    -- the bytes end in line `k`, behind it, or just before it
    by_cases hin : 128 * k < addr % 128 + len
    · refine .inl ⟨128 * k - addr % 128, by omega, ?_⟩
      rw [lineOf]
      omega
    · exact .inr (by omega)

/-- 130 bytes in three lines: the last of them, and no line behind the next. -/
theorem cacheLoop_three_lines :
    (CacheOp.icbi, lineOf (0x8000007F + 129)) ∈ memicbi 0x8000007F 130 ∧
      (CacheOp.icbi, 0x80000200) ∉ memicbi 0x8000007F 130 := by
  obtain ⟨hall, honly⟩ := cacheLoop_exact 0x8000007F 130 (by decide) (by decide) (by decide)
  refine ⟨(hall 129 (by decide)).2.2, fun hmem => ?_⟩
  rcases honly _ _ (mem_append_right _ hmem) with ⟨i, hi, hline⟩ | hline
  · rw [lineOf] at hline
    omega
  · exact absurd hline (by decide)

/-! ### The arguments -/

/-- Where `position` is at the end of `elf_setArgcArgv`. -/
def argvEnd (argv : List (List UInt8)) : Nat :=
  argv.foldl (fun position s => position + s.length + 1) (argvPosition argv.length)

/-- What `elf_setArgcArgv` flushes: a size plus an address is passed as an `int`. -/
def argvFlushed (argv : List (List UInt8)) : List Nat :=
  elfSyncBeforeExec elfArgvBegin (Int.bmod (argvStructSize + argvEnd argv : Nat) (2 ^ 32))

theorem le_foldl_position (argv : List (List UInt8)) (position : Nat) :
    position ≤ argv.foldl (fun position s => position + s.length + 1) position := by
  induction argv generalizing position with
  | nil => exact Nat.le_refl position
  | cons s argv ih =>
    have h := ih (position + s.length + 1)
    rw [foldl_cons]
    omega

/-- **No line at all is flushed** for arguments that end below 4 GB. -/
theorem argv_not_flushed (argv : List (List UInt8))
    (hend : argvStructSize + argvEnd argv ≤ 2 ^ 32) : argvFlushed argv = [] := by
  have hbegin : 0x8A000000 ≤ argvEnd argv :=
    Nat.le_trans (Nat.le_trans (Nat.le_add_right _ _) (Nat.le_add_right _ _))
      (le_foldl_position argv (argvPosition argv.length))
  rw [argvStructSize] at hend
  rw [argvFlushed, elfSyncBeforeExec, elfSyncLoop, if_neg]
  rw [argvStructSize, Int.bmod_def, Int.bmod_def]
  omega

theorem argv_one_not_flushed : argvFlushed [[0x78]] = [] := argv_not_flushed _ (by decide)

/-- The header of an empty list of arguments. -/
theorem argv_header_not_flushed : lineOf elfArgvBegin ∉ argvFlushed [] := by
  rw [argvFlushed, elfSyncBeforeExec, elfSyncLoop, if_neg (by decide)]
  exact not_mem_nil

end LibXenon
