/-
LibXenon/SfcxCode.lean

What the code of a page says about the page.

The bits of a page, counted from the low bit of the first byte, are the 0x1066
protected ones and then the 26 of the code.  `sfcx_calcecc` writes the latter and
computes them from the former alone (`calcecc_writes_code_only`).

The computation is a shift register with 26 places that the protected bits are
fed to.  So two pages whose protected bits differ within 26 consecutive places
get different codes, and a single bit that has changed is noticed
(`code_detects_bursts`).
-/
import LibXenon.Bits
import LibXenon.Sfcx
import LibXenon.ShiftRegister

namespace LibXenon

open ShiftRegister

/-! ### The code in the page -/

/-- The 26 bits of the code: the top two bits of spare byte 0x0C and the three
bytes behind it. -/
def EccBit (k j : Nat) : Prop :=
  k = pageSz + 0xC ∧ 6 ≤ j ∨ pageSz + 0xD ≤ k ∧ k ≤ pageSz + 0xF

/-- The code that is stored in a page. -/
def storedEcc (page : Page) : BitVec 26 :=
  page (pageSz + 0xF) ++ page (pageSz + 0xE) ++ page (pageSz + 0xD) ++
    (page (pageSz + 0xC)).extractLsb' 6 2

/-- The page with one bit changed. -/
def flipBit (page : Page) (i : Nat) : Page :=
  Function.update page (i / 8) (page (i / 8) ^^^ BitVec.twoPow 8 (i % 8))

variable {page page' : Page}

theorem getLsbD_storedEcc (page : Page) {i : Nat} (hi : i < 26) :
    (storedEcc page).getLsbD i = protectedBit page (0x1066 + i) := by
  simp only [storedEcc, protectedBit, BitVec.getLsbD_append, BitVec.getLsbD_extractLsb', pageSz]
  by_cases h2 : i < 2
  · rw [if_pos h2, decide_eq_true h2, Bool.true_and, show (0x1066 + i) / 8 = 0x200 + 0xC by omega,
      show (0x1066 + i) % 8 = 6 + i by omega]
  by_cases h10 : i < 10
  · rw [if_neg h2, if_pos (by omega), show (0x1066 + i) / 8 = 0x200 + 0xD by omega,
      show (0x1066 + i) % 8 = i - 2 by omega]
  by_cases h18 : i < 18
  · rw [if_neg h2, if_neg (by omega), if_pos (by omega),
      show (0x1066 + i) / 8 = 0x200 + 0xE by omega, show (0x1066 + i) % 8 = i - 2 - 8 by omega]
  · rw [if_neg h2, if_neg (by omega), if_neg (by omega),
      show (0x1066 + i) / 8 = 0x200 + 0xF by omega,
      show (0x1066 + i) % 8 = i - 2 - 8 - 8 by omega]

theorem storedEcc_congr
    (h : ∀ i < 26, protectedBit page (0x1066 + i) = protectedBit page' (0x1066 + i)) :
    storedEcc page = storedEcc page' := by
  apply BitVec.eq_of_getLsbD_eq
  intro i hi
  rw [getLsbD_storedEcc page hi, getLsbD_storedEcc page' hi, h i hi]

theorem not_eccBit_of_lt {i : Nat} (hi : i < 0x1066) : ¬ EccBit (i / 8) (i % 8) := by
  rw [EccBit, pageSz]
  omega

/-- The bits `sfcx_calcecc` leaves behind the protected ones. -/
theorem calcecc_code (page : Page) {i : Nat} (hi : i < 26) :
    protectedBit (sfcxCalcecc page) (0x1066 + i) = (eccOf page).getLsbD i := by
  rw [protectedBit]
  by_cases h2 : i < 2
  · have hmask : ∀ j < 2, BitVec.getLsbD (0x3F : Byte) (6 + j) = false := by decide
    rw [show (0x1066 + i) / 8 = pageSz + 0xC by rw [pageSz]; omega,
      show (0x1066 + i) % 8 = 6 + i by omega, sfcxCalcecc, if_pos rfl]
    simp only [BitVec.getLsbD_setWidth, BitVec.getLsbD_or, BitVec.getLsbD_shiftLeft,
      BitVec.getLsbD_and, hmask i h2, Bool.and_false, Bool.or_false]
    simp [show 6 + i < 8 by omega, show 6 + i < 32 by omega]
  by_cases h10 : i < 10
  · rw [show (0x1066 + i) / 8 = pageSz + 0xD by rw [pageSz]; omega,
      show (0x1066 + i) % 8 = i - 2 by omega, sfcxCalcecc, if_neg (by omega), if_pos rfl,
      BitVec.getLsbD_setWidth, BitVec.getLsbD_ushiftRight, decide_eq_true (by omega),
      Bool.true_and, show 2 + (i - 2) = i by omega]
  by_cases h18 : i < 18
  · rw [show (0x1066 + i) / 8 = pageSz + 0xE by rw [pageSz]; omega,
      show (0x1066 + i) % 8 = i - 10 by omega, sfcxCalcecc, if_neg (by omega), if_neg (by omega),
      if_pos rfl, BitVec.getLsbD_setWidth, BitVec.getLsbD_ushiftRight, decide_eq_true (by omega),
      Bool.true_and, show 10 + (i - 10) = i by omega]
  · rw [show (0x1066 + i) / 8 = pageSz + 0xF by rw [pageSz]; omega,
      show (0x1066 + i) % 8 = i - 18 by omega, sfcxCalcecc, if_neg (by omega), if_neg (by omega),
      if_neg (by omega), if_pos rfl, BitVec.getLsbD_setWidth, BitVec.getLsbD_ushiftRight,
      decide_eq_true (by omega), Bool.true_and, show 18 + (i - 18) = i by omega]

/-- `sfcx_calcecc` stores the low 26 bits of what it computed. -/
theorem storedEcc_calcecc (page : Page) :
    storedEcc (sfcxCalcecc page) = (eccOf page).setWidth 26 := by
  apply BitVec.eq_of_getLsbD_eq
  intro i hi
  rw [getLsbD_storedEcc _ hi, calcecc_code page hi, BitVec.getLsbD_setWidth, decide_eq_true hi,
    Bool.true_and]

theorem calcecc_outside (page : Page) {k j : Nat} (hkj : ¬ EccBit k j) :
    (sfcxCalcecc page k).getLsbD j = (page k).getLsbD j := by
  rw [EccBit] at hkj
  by_cases hk : k = pageSz + 0xC
  · subst hk
    exact and_low_eq_iff.mp (calcecc_shared page) j (by omega)
  · rw [sfcxCalcecc, if_neg hk, if_neg (by omega), if_neg (by omega), if_neg (by omega)]

/-- **`sfcx_calcecc` writes the code and nothing else**, and what was stored as the
code before makes no difference; so a second call changes nothing. -/
theorem calcecc_writes_code_only (page : Page) :
    (∀ k j, ¬ EccBit k j → (sfcxCalcecc page k).getLsbD j = (page k).getLsbD j) ∧
    (∀ page' : Page,
      (∀ k < pageSzPhys, ∀ j, ¬ EccBit k j → (page' k).getLsbD j = (page k).getLsbD j) →
        storedEcc (sfcxCalcecc page') = storedEcc (sfcxCalcecc page)) ∧
    sfcxCalcecc (sfcxCalcecc page) = sfcxCalcecc page := by
  refine ⟨fun k j => calcecc_outside page, fun page' hsame => ?_, calcecc_calcecc page⟩
  have hprotected : ∀ i < 0x1066, protectedBit page' i = protectedBit page i := by
    intro i hi
    have hk : i / 8 < pageSzPhys := by
      rw [pageSzPhys, pageSz, metaSz]
      omega
    exact hsame (i / 8) hk (i % 8) (not_eccBit_of_lt hi)
  rw [storedEcc_calcecc, storedEcc_calcecc, eccOf_congr hprotected]

/-! ### Errors -/

/-- The taps of the register: 0x6954559 has 27 bits. -/
def eccTaps : BitVec 32 := 0x6954559

theorem shiftIn_eq_feed (val : BitVec 32) (b : Bool) : shiftIn val b = feed eccTaps val b := by
  have hlow : ∀ x : BitVec 32, x &&& 1 ≠ 0 ↔ x.getLsbD 0 = true := by
    intro x
    have hand : x &&& 1#32 = BitVec.setWidth 32 (BitVec.ofBool (x.getLsbD 0)) :=
      BitVec.and_one_eq_setWidth_ofBool_getLsbD
    rw [show (1 : BitVec 32) = 1#32 from rfl, hand]
    cases x.getLsbD 0 <;> decide
  simp only [shiftIn, feed, bit, eccTaps]
  congr 1
  exact if_congr (hlow _) rfl rfl

theorem eccBits_eq_run (page : Page) (n : Nat) :
    eccBits page n = run eccTaps (fun i => !protectedBit page i) n := by
  induction n with
  | zero => rfl
  | succ n ih => rw [eccBits, run, ih, shiftIn_eq_feed]

theorem eccBits_lt (page : Page) (n : Nat) : (eccBits page n).toNat < 2 ^ 26 := by
  rw [eccBits_eq_run]
  exact run_lt (by decide) _ n

theorem eccBits_eq_of_storedEcc
    (h : storedEcc (sfcxCalcecc page) = storedEcc (sfcxCalcecc page')) :
    eccBits page 0x1066 = eccBits page' 0x1066 := by
  rw [storedEcc_calcecc, storedEcc_calcecc, eccOf, eccOf, eccLoop_val, eccLoop_val] at h
  apply BitVec.eq_of_getLsbD_eq
  intro i hi
  by_cases hlow : i < 26
  · have hbit := congrArg (fun x => x.getLsbD i) h
    simpa [hlow, hi] using hbit
  · rw [Bits.getLsbD_of_toNat_lt (eccBits_lt page _) (by omega),
      Bits.getLsbD_of_toNat_lt (eccBits_lt page' _) (by omega)]

theorem storedEcc_ne_of_burst {p : Nat}
    (houtside : ∀ i < 0x1066, i < p ∨ p + 26 ≤ i → protectedBit page i = protectedBit page' i)
    (hdiffer : ∃ i < 0x1066, protectedBit page i ≠ protectedBit page' i) :
    storedEcc (sfcxCalcecc page) ≠ storedEcc (sfcxCalcecc page') := by
  intro hsame
  have hrun := eccBits_eq_of_storedEcc hsame
  rw [eccBits_eq_run, eccBits_eq_run] at hrun
  have hzero := run_xor eccTaps (fun i => !protectedBit page i)
    (fun i => !protectedBit page' i) 0x1066
  rw [hrun, BitVec.xor_self] at hzero
  refine run_ne_zero (d := 25) (p := p) (by decide) (by decide) ?_ ?_ hzero
  · intro i hi hout
    rw [houtside i hi hout, Bool.xor_self]
  · obtain ⟨i, hi, hne⟩ := hdiffer
    refine ⟨i, hi, ?_⟩
    simpa using hne

theorem protectedBit_flipBit (page : Page) (i l : Nat) :
    protectedBit (flipBit page i) l = (protectedBit page l ^^ decide (l = i)) := by
  rw [protectedBit, protectedBit, flipBit, Function.update_apply]
  split
  · rename_i hbyte
    rw [BitVec.getLsbD_xor, BitVec.getLsbD_twoPow, ← hbyte]
    congr 1
    rw [decide_eq_true (Nat.mod_lt i (by decide)), Bool.true_and, decide_eq_decide]
    omega
  · rename_i hbyte
    have hne : l ≠ i := fun h => hbyte (by rw [h])
    rw [decide_eq_false hne, Bool.xor_false]

/-- **The code detects bursts** of at most 26 of the protected bits: pages that
differ so get different codes.  In particular a page with its code that has a single
protected bit changed does not have its code any more. -/
theorem code_detects_bursts :
    (∀ (page page' : Page) (p : Nat),
      (∀ i < 0x1066, i < p ∨ p + 26 ≤ i → protectedBit page i = protectedBit page' i) →
      (∃ i < 0x1066, protectedBit page i ≠ protectedBit page' i) →
        storedEcc (sfcxCalcecc page) ≠ storedEcc (sfcxCalcecc page')) ∧
    ∀ (page : Page), ∀ i < 0x1066,
      storedEcc (sfcxCalcecc (flipBit (sfcxCalcecc page) i))
        ≠ storedEcc (flipBit (sfcxCalcecc page) i) := by
  refine ⟨fun page page' p => storedEcc_ne_of_burst, fun page i hi => ?_⟩
  -- the code that is stored is still the one of the page before
  have hstored : storedEcc (flipBit (sfcxCalcecc page) i)
      = storedEcc (sfcxCalcecc (sfcxCalcecc page)) := by
    rw [calcecc_calcecc]
    refine storedEcc_congr fun l hl => ?_
    rw [protectedBit_flipBit, decide_eq_false (by omega), Bool.xor_false]
  rw [hstored]
  refine storedEcc_ne_of_burst (p := i) (fun l _ hout => ?_) ⟨i, hi, ?_⟩
  · rw [protectedBit_flipBit, decide_eq_false (by omega), Bool.xor_false]
  · rw [protectedBit_flipBit]
    simp

end LibXenon
