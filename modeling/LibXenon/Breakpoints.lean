/-
LibXenon/Breakpoints.lean

The breakpoints of breakpoint.c.

A breakpoint overwrites the word at its address and keeps the word that was
there in an entry of `breakpoints`, which has 100.  Entries are found by address
and reused.  The array is in the same memory that breakpoints are set in, three
words for each entry.

* After any calls at addresses outside the array, no address has two entries,
  an entry has the word its address had at the start, and an address without an
  entry still has it; so removing all breakpoints, in any order, gives back the
  memory of the start (`breakpoints_of_reach`).
* A breakpoint at a word of the array can be saved wrongly
  (`set_breakpoint_in_table`).

A memory is the words at the aligned addresses; the instruction cache is not
modelled.
-/
import LibXenon.Transition
import Mathlib.Algebra.GroupWithZero.Nat
import Mathlib.Data.List.Basic

namespace LibXenon

open Transition

/-! ### The array -/

abbrev Address := BitVec 32

/-- The word at each aligned address. -/
abbrev WordMemory := Address → BitVec 32

def breakpointInstr : BitVec 32 := 0x0FE00016

def maxBreakpoints : Nat := 100

/-- Where `breakpoints` is. -/
structure BreakpointTable where
  base : Address
  aligned : base.toNat % 4 = 0
  fits : base.toNat + 1200 ≤ 2 ^ 32

/-- `BREAKPOINT`. -/
structure Breakpoint where
  instruction : BitVec 32
  addr : Address
  valid : BitVec 32
  deriving DecidableEq, Repr

namespace BreakpointTable

variable (t : BreakpointTable)

/-- The word at an offset of the array. -/
def word (k : Nat) : Address := t.base + BitVec.ofNat 32 k

def instructionAt (i : Nat) : Address := t.word (12 * i)

def addrAt (i : Nat) : Address := t.word (12 * i + 4)

def validAt (i : Nat) : Address := t.word (12 * i + 8)

/-- `breakpoints[i]`. -/
def entry (m : WordMemory) (i : Nat) : Breakpoint :=
  ⟨m (t.instructionAt i), m (t.addrAt i), m (t.validAt i)⟩

/-- The address is not one of the array. -/
def outside (a : Address) : Prop := a.toNat < t.base.toNat ∨ t.base.toNat + 1200 ≤ a.toNat

instance (a : Address) : Decidable (t.outside a) :=
  inferInstanceAs (Decidable (_ ∨ _))

end BreakpointTable

/-- `*(a) = w`. -/
def WordMemory.write (m : WordMemory) (a : Address) (w : BitVec 32) : WordMemory :=
  Function.update m a w

/-! ### The functions -/

section Functions

variable (t : BreakpointTable)
variable {addr : Address} {k : Nat}

/-- `get_breakpoint`. -/
def getBreakpoint (m : WordMemory) (addr : Address) : Option Nat :=
  (List.range maxBreakpoints).find? fun i => (t.entry m i).valid ≠ 0 && (t.entry m i).addr == addr

/-- The search of `set_breakpoint` for an entry that is not valid. -/
def freeBreakpoint (m : WordMemory) : Option Nat :=
  (List.range maxBreakpoints).find? fun i => (t.entry m i).valid == 0

/-- `set_breakpoint`: what it prints, and the memory after it. -/
def setBreakpoint (m : WordMemory) (addr : Address) : Option String × WordMemory :=
  match getBreakpoint t m addr with
  | some _ => (some "Warning: tried to add a breakpoint where one already exists\n", m)
  | none =>
    match freeBreakpoint t m with
    | none => (some "Error: no free breakpoints\n", m)
    | some i =>
      let m := m.write (t.validAt i) 1
      let m := m.write (t.addrAt i) addr
      let m := m.write (t.instructionAt i) (m addr)
      (none, m.write addr breakpointInstr)

/-- `remove_breakpoint`. -/
def removeBreakpoint (m : WordMemory) (addr : Address) : Option String × WordMemory :=
  match getBreakpoint t m addr with
  | none => (some "Warning: tried to remove a breakpoint where none exists\n", m)
  | some i =>
    let m := m.write addr (m (t.instructionAt i))
    (none, m.write (t.validAt i) 0)

/-- `enable_breakpoint`. -/
def enableBreakpoint (m : WordMemory) (addr : Address) : Option String × WordMemory :=
  match getBreakpoint t m addr with
  | none => (some "Warning: tried to enable a breakpoint where none exists\n", m)
  | some _ => (none, m.write addr breakpointInstr)

/-- `disable_breakpoint`. -/
def disableBreakpoint (m : WordMemory) (addr : Address) : Option String × WordMemory :=
  match getBreakpoint t m addr with
  | none => (some "Warning: tried to disable a breakpoint where none exists\n", m)
  | some i => (none, m.write addr (m (t.instructionAt i)))

end Functions

/-! ### Words of the array -/

variable {t : BreakpointTable} {m : WordMemory} {a : Address} {w : BitVec 32} {i j : Nat}

theorem toNat_word (h : k < 1200) : (t.word k).toNat = t.base.toNat + k := by
  have hfits := t.fits
  rw [BreakpointTable.word, BitVec.toNat_add, BitVec.toNat_ofNat]
  omega

theorem word_inj {k k' : Nat} (h : k < 1200) (h' : k' < 1200) : t.word k = t.word k' ↔ k = k' := by
  rw [← BitVec.toNat_inj, toNat_word h, toNat_word h']
  omega

theorem word_ne_of_outside (h : k < 1200) (hout : t.outside a) : t.word k ≠ a := by
  intro heq
  have hword := toNat_word (t := t) h
  rw [heq] at hword
  rcases hout with hlow | hhigh <;> omega

theorem write_self (m : WordMemory) (a : Address) (w : BitVec 32) : m.write a w a = w :=
  Function.update_self ..

theorem write_of_ne {b : Address} (h : b ≠ a) : m.write a w b = m b :=
  Function.update_of_ne h ..

theorem entry_write_outside (hi : i < 100) (hout : t.outside a) :
    t.entry (m.write a w) i = t.entry m i := by
  have hne {k : Nat} (hk : k < 1200) : m.write a w (t.word k) = m (t.word k) :=
    write_of_ne (word_ne_of_outside hk hout)
  rw [BreakpointTable.entry, BreakpointTable.instructionAt, BreakpointTable.addrAt,
    BreakpointTable.validAt, hne (by omega), hne (by omega), hne (by omega)]
  rfl

theorem entry_write_other (hi : i < 100) (hk : k < 1200) (hij : k / 12 ≠ i) :
    t.entry (m.write (t.word k) w) i = t.entry m i := by
  have hne {k' : Nat} (hk' : k' < 1200) (hkk : k' ≠ k) :
      m.write (t.word k) w (t.word k') = m (t.word k') :=
    write_of_ne (fun heq => hkk ((word_inj hk' hk).mp heq))
  rw [BreakpointTable.entry, BreakpointTable.instructionAt, BreakpointTable.addrAt,
    BreakpointTable.validAt, hne (by omega) (by omega), hne (by omega) (by omega),
    hne (by omega) (by omega)]
  rfl

/-! ### What a call does -/

/-- The entry is for this address. -/
def Breakpoint.isFor (b : Breakpoint) (addr : Address) : Prop := b.valid ≠ 0 ∧ b.addr = addr

instance (b : Breakpoint) (addr : Address) : Decidable (b.isFor addr) :=
  inferInstanceAs (Decidable (_ ∧ _))

theorem getBreakpoint_some (h : getBreakpoint t m addr = some i) :
    i < 100 ∧ (t.entry m i).isFor addr := by
  have hmem : i < maxBreakpoints := List.mem_range.mp (List.mem_of_find?_eq_some h)
  have hfound := List.find?_some h
  rw [Bool.and_eq_true, decide_eq_true_eq, beq_iff_eq] at hfound
  exact ⟨hmem, hfound⟩

theorem getBreakpoint_none (h : getBreakpoint t m addr = none) :
    ∀ i < 100, ¬ (t.entry m i).isFor addr := by
  intro i hi hfor
  have hnot := List.find?_eq_none.mp h i (List.mem_range.mpr hi)
  rw [Bool.and_eq_true, decide_eq_true_eq, beq_iff_eq] at hnot
  exact hnot hfor

theorem freeBreakpoint_some (h : freeBreakpoint t m = some i) :
    i < 100 ∧ (t.entry m i).valid = 0 := by
  have hmem : i < maxBreakpoints := List.mem_range.mp (List.mem_of_find?_eq_some h)
  have hfound := List.find?_some h
  rw [beq_iff_eq] at hfound
  exact ⟨hmem, hfound⟩

/-- The memory outside the array with one word changed. -/
def Patched (t : BreakpointTable) (m : WordMemory) (addr : Address) (w : BitVec 32)
    (m' : WordMemory) : Prop :=
  ∀ a, t.outside a → m' a = if a = addr then w else m a

/-- What a call at an address outside the array can do. -/
inductive BreakpointEffect (t : BreakpointTable) (m : WordMemory) (addr : Address) :
    WordMemory → Prop
  | same : BreakpointEffect t m addr m
  | set {m' : WordMemory} (i : Nat) (hi : i < 100)
      (hnew : ∀ j < 100, ¬ (t.entry m j).isFor addr) (hfree : (t.entry m i).valid = 0)
      (hentry : ∀ j < 100, t.entry m' j = if j = i then ⟨m addr, addr, 1⟩ else t.entry m j)
      (hmem : Patched t m addr breakpointInstr m') : BreakpointEffect t m addr m'
  | remove {m' : WordMemory} (i : Nat) (hi : i < 100) (hfor : (t.entry m i).isFor addr)
      (hentry : ∀ j < 100, t.entry m' j =
        if j = i then { t.entry m i with valid := 0 } else t.entry m j)
      (hmem : Patched t m addr (t.entry m i).instruction m') : BreakpointEffect t m addr m'
  | patch {m' : WordMemory} (i : Nat) (hi : i < 100) (hfor : (t.entry m i).isFor addr)
      (w : BitVec 32) (hentry : ∀ j < 100, t.entry m' j = t.entry m j)
      (hmem : Patched t m addr w m') : BreakpointEffect t m addr m'

theorem write_word_outside (hk : k < 1200) (hout : t.outside a) :
    m.write (t.word k) w a = m a :=
  write_of_ne (word_ne_of_outside hk hout).symm

theorem entry_fill (hi : i < 100) (hj : j < 100) (v : BitVec 32) (addr : Address) (w : BitVec 32) :
    t.entry (((m.write (t.validAt i) v).write (t.addrAt i) addr).write (t.instructionAt i) w) j =
      if j = i then ⟨w, addr, v⟩ else t.entry m j := by
  unfold BreakpointTable.validAt BreakpointTable.addrAt BreakpointTable.instructionAt
  split
  · rename_i heq
    have hne {k k' : Nat} (hk : k < 1200) (hk' : k' < 1200) (h : k ≠ k') : t.word k ≠ t.word k' :=
      fun hw => h ((word_inj hk hk').mp hw)
    rw [heq, BreakpointTable.entry, BreakpointTable.validAt, BreakpointTable.addrAt,
      BreakpointTable.instructionAt, write_self, write_of_ne (hne (by omega) (by omega) (by omega)),
      write_self, write_of_ne (hne (by omega) (by omega) (by omega)),
      write_of_ne (hne (by omega) (by omega) (by omega)), write_self]
  · rw [entry_write_other hj (by omega) (by omega), entry_write_other hj (by omega) (by omega),
      entry_write_other hj (by omega) (by omega)]

/-- Clearing `valid`. -/
theorem entry_clear (hi : i < 100) (hj : j < 100) :
    t.entry (m.write (t.validAt i) 0) j =
      if j = i then { t.entry m i with valid := 0 } else t.entry m j := by
  split
  · rename_i heq
    have hne {k : Nat} (hk : k < 1200) (h : k ≠ 12 * i + 8) :
        m.write (t.word (12 * i + 8)) 0 (t.word k) = m (t.word k) :=
      write_of_ne fun hw => h ((word_inj hk (by omega)).mp hw)
    rw [heq, BreakpointTable.entry, BreakpointTable.validAt, BreakpointTable.addrAt,
      BreakpointTable.instructionAt, write_self, hne (by omega) (by omega),
      hne (by omega) (by omega)]
    rfl
  · exact entry_write_other hj (by omega) (by omega)

theorem setBreakpoint_effect (hout : t.outside addr) :
    BreakpointEffect t m addr (setBreakpoint t m addr).2 := by
  rw [setBreakpoint]
  rcases hget : getBreakpoint t m addr with - | i
  · rcases hfree : freeBreakpoint t m with - | i
    · exact .same
    · obtain ⟨hi, hzero⟩ := freeBreakpoint_some hfree
      refine .set i hi (getBreakpoint_none hget) hzero (fun j hj => ?_) fun a ha => ?_
      · rw [entry_write_outside hj hout, entry_fill hi hj]
        -- the entry was written before the word was read
        rw [BreakpointTable.validAt, BreakpointTable.addrAt, write_word_outside (by omega) hout,
          write_word_outside (by omega) hout]
      · dsimp only
        split
        · rename_i heq
          rw [heq, write_self]
        · rename_i hne
          rw [write_of_ne hne]
          unfold BreakpointTable.validAt BreakpointTable.addrAt BreakpointTable.instructionAt
          rw [write_word_outside (by omega) ha, write_word_outside (by omega) ha,
            write_word_outside (by omega) ha]
  · exact .same

theorem removeBreakpoint_effect (hout : t.outside addr) :
    BreakpointEffect t m addr (removeBreakpoint t m addr).2 := by
  rw [removeBreakpoint]
  rcases hget : getBreakpoint t m addr with - | i
  · exact .same
  · obtain ⟨hi, hfor⟩ := getBreakpoint_some hget
    refine .remove i hi hfor (fun j hj => ?_) fun a ha => ?_
    · rw [entry_clear hi hj, entry_write_outside hi hout, entry_write_outside hj hout]
    · dsimp only
      rw [BreakpointTable.validAt, write_word_outside (by omega) ha]
      exact Function.update_apply ..

theorem patch_effect (hout : t.outside addr)
    (hget : getBreakpoint t m addr = some i) (w : BitVec 32) :
    BreakpointEffect t m addr (m.write addr w) := by
  obtain ⟨hi, hfor⟩ := getBreakpoint_some hget
  exact .patch i hi hfor w (fun j hj => entry_write_outside hj hout)
    fun a _ => Function.update_apply ..

/-! ### Runs -/

inductive BreakpointAction
  | set (addr : Address)
  | remove (addr : Address)
  | enable (addr : Address)
  | disable (addr : Address)

def BreakpointAction.addr : BreakpointAction → Address
  | .set addr | .remove addr | .enable addr | .disable addr => addr

def breakpointCall (t : BreakpointTable) (m : WordMemory) :
    BreakpointAction → Option String × WordMemory
  | .set addr => setBreakpoint t m addr
  | .remove addr => removeBreakpoint t m addr
  | .enable addr => enableBreakpoint t m addr
  | .disable addr => disableBreakpoint t m addr

/-- A call at an aligned address. -/
def breakpointStep (t : BreakpointTable) (m : WordMemory) (c : BreakpointAction) :
    Option WordMemory :=
  if c.addr.toNat % 4 = 0 then some (breakpointCall t m c).2 else none

theorem breakpointCall_effect (c : BreakpointAction) (hout : t.outside c.addr) :
    BreakpointEffect t m c.addr (breakpointCall t m c).2 := by
  cases c with
  | set addr => exact setBreakpoint_effect hout
  | remove addr => exact removeBreakpoint_effect hout
  | enable addr | disable addr =>
    simp only [breakpointCall, enableBreakpoint, disableBreakpoint]
    rcases hget : getBreakpoint t m addr with - | i
    · exact .same
    · exact patch_effect hout hget _

/-- The entries against the memory of the start. -/
structure Kept (t : BreakpointTable) (m₀ m : WordMemory) : Prop where
  single : ∀ addr, ∀ i < 100, ∀ j < 100, (t.entry m i).isFor addr → (t.entry m j).isFor addr → i = j
  saved : ∀ addr, ∀ i < 100, (t.entry m i).isFor addr → (t.entry m i).instruction = m₀ addr
  rest : ∀ a, t.outside a → (∀ i < 100, ¬ (t.entry m i).isFor a) → m a = m₀ a

/-- No entry is valid. -/
def BreakpointTable.empty (t : BreakpointTable) (m : WordMemory) : Prop :=
  ∀ i < 100, (t.entry m i).valid = 0

variable {m₀ m' : WordMemory}

theorem Kept.start (h : t.empty m₀) : Kept t m₀ m₀ :=
  ⟨fun _ i hi _ _ hfor _ => absurd (h i hi) hfor.1, fun _ i hi hfor => absurd (h i hi) hfor.1,
    fun _ _ _ => rfl⟩

theorem Kept.elsewhere (h : Kept t m₀ m) {w : BitVec 32}
    (hmem : Patched t m addr w m') {a : Address} (ha : t.outside a) (hne : a ≠ addr)
    (hkeep : ∀ j < 100, (t.entry m j).isFor a → (t.entry m' j).isFor a)
    (hnone : ∀ j < 100, ¬ (t.entry m' j).isFor a) : m' a = m₀ a := by
  rw [hmem a ha, if_neg hne]
  exact h.rest a ha fun j hj hf => hnone j hj (hkeep j hj hf)

theorem Kept.set (h : Kept t m₀ m) (hout : t.outside addr) {i : Nat} (hi : i < 100)
    (hnew : ∀ j < 100, ¬ (t.entry m j).isFor addr) (hfree : (t.entry m i).valid = 0)
    (hentry : ∀ j < 100, t.entry m' j = if j = i then ⟨m addr, addr, 1⟩ else t.entry m j)
    (hmem : Patched t m addr breakpointInstr m') : Kept t m₀ m' := by
  -- the entries after it: the new one, and the old ones without its address
  have hfor : ∀ a, ∀ j < 100, (t.entry m' j).isFor a →
      j = i ∧ a = addr ∨ (t.entry m j).isFor a ∧ a ≠ addr := by
    intro a j hj hf
    rw [hentry j hj] at hf
    split at hf
    · rename_i heq
      exact .inl ⟨heq, hf.2.symm⟩
    · exact .inr ⟨hf, fun ha => hnew j hj (ha ▸ hf)⟩
  have hold : ∀ a, ∀ j < 100, (t.entry m j).isFor a → t.entry m' j = t.entry m j := by
    intro a j hj hf
    have hji : j ≠ i := fun hji => hf.1 (hji ▸ hfree)
    rw [hentry j hj, if_neg hji]
  refine ⟨fun a j hj k hk hf hf' => ?_, fun a j hj hf => ?_, fun a ha hnone => ?_⟩
  · rcases hfor a j hj hf with ⟨hji, ha⟩ | ⟨hj', ha⟩
    · rcases hfor a k hk hf' with ⟨hki, -⟩ | ⟨-, ha'⟩
      · rw [hji, hki]
      · exact absurd ha ha'
    · rcases hfor a k hk hf' with ⟨-, ha'⟩ | ⟨hk', -⟩
      · exact absurd ha' ha
      · exact h.single a j hj k hk hj' hk'
  · rcases hfor a j hj hf with ⟨hji, ha⟩ | ⟨hj', -⟩
    · rw [hentry j hj, if_pos hji, ha]
      exact h.rest addr hout hnew
    · rw [hold a j hj hj']
      exact h.saved a j hj hj'
  · have hne : a ≠ addr := by
      intro heq
      refine hnone i hi ?_
      rw [hentry i hi, if_pos rfl]
      exact ⟨(by decide : (1 : BitVec 32) ≠ 0), heq.symm⟩
    exact h.elsewhere hmem ha hne (fun j hj hf => (hold a j hj hf).symm ▸ hf) hnone

theorem Kept.remove (h : Kept t m₀ m) {i : Nat} (hi : i < 100) (hat : (t.entry m i).isFor addr)
    (hentry : ∀ j < 100, t.entry m' j =
      if j = i then { t.entry m i with valid := 0 } else t.entry m j)
    (hmem : Patched t m addr (t.entry m i).instruction m') : Kept t m₀ m' := by
  have hfor : ∀ a, ∀ j < 100, (t.entry m' j).isFor a → j ≠ i ∧ (t.entry m j).isFor a := by
    intro a j hj hf
    rw [hentry j hj] at hf
    split at hf
    · exact absurd rfl hf.1
    · exact ⟨‹_›, hf⟩
  refine ⟨fun a j hj k hk hf hf' => ?_, fun a j hj hf => ?_, fun a ha hnone => ?_⟩
  · exact h.single a j hj k hk (hfor a j hj hf).2 (hfor a k hk hf').2
  · rw [hentry j hj, if_neg (hfor a j hj hf).1]
    exact h.saved a j hj (hfor a j hj hf).2
  · by_cases heq : a = addr
    · -- the word comes back from the entry, which saved it
      rw [hmem a ha, if_pos heq, heq]
      exact h.saved addr i hi hat
    · refine h.elsewhere hmem ha heq (fun j hj hf => ?_) hnone
      have hji : j ≠ i := fun hji => heq ((hji ▸ hf).2.symm.trans hat.2)
      rw [hentry j hj, if_neg hji]
      exact hf

theorem Kept.patch (h : Kept t m₀ m) {i : Nat} (hi : i < 100)
    (hat : (t.entry m i).isFor addr) {w : BitVec 32}
    (hentry : ∀ j < 100, t.entry m' j = t.entry m j) (hmem : Patched t m addr w m') :
    Kept t m₀ m' := by
  refine ⟨fun a j hj k hk => ?_, fun a j hj => ?_, fun a ha hnone => ?_⟩
  · rw [hentry j hj, hentry k hk]
    exact h.single a j hj k hk
  · rw [hentry j hj]
    exact h.saved a j hj
  · have hne : a ≠ addr := by
      intro heq
      refine hnone i hi ?_
      rw [hentry i hi, heq]
      exact hat
    exact h.elsewhere hmem ha hne (fun j hj hf => (hentry j hj).symm ▸ hf) hnone

theorem Kept.step (h : Kept t m₀ m) (hout : t.outside addr)
    (he : BreakpointEffect t m addr m') : Kept t m₀ m' := by
  cases he with
  | same => exact h
  | set i hi hnew hfree hentry hmem => exact h.set hout hi hnew hfree hentry hmem
  | remove i hi hat hentry hmem => exact h.remove hi hat hentry hmem
  | patch i hi hat w hentry hmem => exact h.patch hi hat hentry hmem

/-- The calls are at addresses outside the array. -/
def OutsideTable (t : BreakpointTable) (_ : WordMemory) (c : BreakpointAction) : Prop :=
  t.outside c.addr

instance (t : BreakpointTable) (m : WordMemory) (c : BreakpointAction) :
    Decidable (OutsideTable t m c) :=
  inferInstanceAs (Decidable (t.outside c.addr))

theorem kept_of_reach (hempty : t.empty m₀)
    (hrun : Reach (breakpointStep t) (OutsideTable t) m₀ m) : Kept t m₀ m := by
  refine hrun.invariant (Kept.start hempty) fun m c m' h hg hs => ?_
  rw [breakpointStep] at hs
  split at hs
  · cases hs
    exact h.step hg (breakpointCall_effect c hg)
  · cases hs

/-! ### Removing everything -/

/-- `remove_breakpoint` at each address of a list. -/
def removeAll (t : BreakpointTable) (m : WordMemory) (addrs : List Address) : WordMemory :=
  addrs.foldl (fun m addr => (removeBreakpoint t m addr).2) m

theorem isFor_of_removeBreakpoint (h : Kept t m₀ m) (hout : t.outside addr)
    {a : Address} (hj : j < 100) (hf : (t.entry (removeBreakpoint t m addr).2 j).isFor a) :
    (t.entry m j).isFor a ∧ a ≠ addr := by
  rw [removeBreakpoint] at hf
  rcases hget : getBreakpoint t m addr with - | i
  · rw [hget] at hf
    exact ⟨hf, fun heq => getBreakpoint_none hget j hj (heq ▸ hf)⟩
  · obtain ⟨hi, hat⟩ := getBreakpoint_some hget
    rw [hget] at hf
    rw [entry_clear hi hj, entry_write_outside hj hout] at hf
    split at hf
    · exact absurd rfl hf.1
    · rename_i hne
      exact ⟨hf, fun heq => hne (h.single addr j hj i hi (heq ▸ hf) hat)⟩

theorem Kept.removeAll {addrs : List Address} (h : Kept t m₀ m)
    (hout : ∀ addr ∈ addrs, t.outside addr)
    (hall : ∀ i < 100, ∀ addr, (t.entry m i).isFor addr → addr ∈ addrs) :
    (∀ i < 100, ∀ addr, ¬ (t.entry (removeAll t m addrs) i).isFor addr) ∧
      ∀ a, t.outside a → removeAll t m addrs a = m₀ a := by
  induction addrs generalizing m with
  | nil =>
    have hnone : ∀ i < 100, ∀ addr, ¬ (t.entry m i).isFor addr :=
      fun i hi addr hf => nomatch hall i hi addr hf
    exact ⟨hnone, fun a ha => h.rest a ha fun i hi => hnone i hi a⟩
  | cons addr addrs ih =>
    have haddr := hout addr List.mem_cons_self
    refine ih (h.step haddr (removeBreakpoint_effect haddr))
      (fun a ha => hout a (List.mem_cons_of_mem addr ha)) fun i hi a hf => ?_
    obtain ⟨hold, hne⟩ := isFor_of_removeBreakpoint h haddr hi hf
    exact (List.mem_cons.mp (hall i hi a hold)).resolve_left hne

/-- **Breakpoints.**  After any calls outside the array, from an empty one: an
address has one valid entry at most; a valid entry has the word of the start;
so has every address without one; a full array is not changed by
`set_breakpoint`; and removing all breakpoints restores the memory. -/
theorem breakpoints_of_reach (hempty : t.empty m₀)
    (hrun : Reach (breakpointStep t) (OutsideTable t) m₀ m) :
    (∀ addr, ∀ i < 100, ∀ j < 100,
      (t.entry m i).isFor addr → (t.entry m j).isFor addr → i = j) ∧
    (∀ addr, ∀ i < 100, (t.entry m i).isFor addr → (t.entry m i).instruction = m₀ addr) ∧
    (∀ a, t.outside a → (∀ i < 100, ¬ (t.entry m i).isFor a) → m a = m₀ a) ∧
    (∀ addr, (∀ i < 100, (t.entry m i).valid ≠ 0) → (setBreakpoint t m addr).2 = m) ∧
    ∀ addrs : List Address, (∀ addr ∈ addrs, t.outside addr) →
      (∀ i < 100, ∀ addr, (t.entry m i).isFor addr → addr ∈ addrs) →
      ∀ a, t.outside a → removeAll t m addrs a = m₀ a := by
  have h := kept_of_reach hempty hrun
  refine ⟨h.single, h.saved, h.rest, fun addr hfull => ?_,
    fun addrs hout hall => (h.removeAll hout hall).2⟩
  rw [setBreakpoint]
  rcases hget : getBreakpoint t m addr with - | i
  · rcases hfree : freeBreakpoint t m with - | i
    · rfl
    · obtain ⟨hi, hzero⟩ := freeBreakpoint_some hfree
      exact absurd hzero (hfull i hi)
  · rfl

/-- The array at 0x1000 of a memory. -/
def tableAt1000 : BreakpointTable := ⟨0x1000, by decide, by decide⟩

/-- A program of one instruction, repeated, with an empty array. -/
def nops : WordMemory := fun a =>
  if 0x1000 ≤ a.toNat ∧ a.toNat < 0x1000 + 1200 then 0 else 0x60000000

/-- A breakpoint is set, disabled and enabled, and another is set. -/
def twoBreakpoints : List BreakpointAction :=
  [.set 0x2000, .disable 0x2000, .enable 0x2000, .set 0x2004]

theorem tableAt1000_empty_nops : tableAt1000.empty nops := by
  unfold BreakpointTable.empty
  decide +kernel

theorem breakpoints_twoBreakpoints :
    tableAt1000.empty nops ∧
      ∃ m, Reach (breakpointStep tableAt1000) (OutsideTable tableAt1000) nops m ∧
        m 0x2000 = breakpointInstr ∧ (tableAt1000.entry m 0).instruction = 0x60000000 := by
  refine ⟨tableAt1000_empty_nops, exists_reach_imp twoBreakpoints
    (fun m => m 0x2000 = breakpointInstr ∧ (tableAt1000.entry m 0).isFor 0x2000) (by decide +kernel)
    fun m hreach ⟨hword, hfor⟩ => ⟨hword, ?_⟩⟩
  rw [(breakpoints_of_reach tableAt1000_empty_nops hreach).2.1 0x2000 0 (by decide) hfor]
  rfl

/-- A word of the array as the place of a breakpoint: `instruction` of the entry
the breakpoint is put into.  What is saved is the breakpoint itself. -/
theorem set_breakpoint_in_table :
    ∃ m₀, tableAt1000.empty m₀ ∧
      ∃ m, Reach (breakpointStep tableAt1000) (fun _ _ => True) m₀ m ∧
        (tableAt1000.entry m 0).isFor 0x1000 ∧
        (tableAt1000.entry m 0).instruction = breakpointInstr ∧ m₀ 0x1000 ≠ breakpointInstr := by
  exact ⟨nops, tableAt1000_empty_nops, exists_reach [.set 0x1000] (by decide +kernel)⟩

end LibXenon
