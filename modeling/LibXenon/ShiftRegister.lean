/-
LibXenon/ShiftRegister.lean

A linear feedback shift register, and the bursts it detects.

The register moves down one place at a time.  A bit is fed in by adding it to the
low end first; when a one falls out at the low end, the taps are added.  Taps
whose highest bit is bit `d` keep the register below `2 ^ d`.

The register after two sequences of bits differs by the register after their
difference (`run_xor`), so two sequences are told apart if their difference
does not lead back to zero.  It cannot when the difference is confined to `d`
places (`run_ne_zero`): a register that is zero `j` bits later is below `2 ^ j`
now, while a one that falls out sets bit `d - 1`.
-/
import Mathlib.Data.BitVec

namespace ShiftRegister

variable {w : Nat}

/-- The register moves down; a one that falls out is fed back through the taps. -/
def advance (taps s : BitVec w) : BitVec w := (if s.getLsbD 0 then s ^^^ taps else s) >>> 1

/-- A bit at the low end. -/
def bit (w : Nat) (b : Bool) : BitVec w := BitVec.setWidth w (BitVec.ofBool b)

def feed (taps s : BitVec w) (b : Bool) : BitVec w := advance taps (s ^^^ bit w b)

/-- The register after the first `n` bits of a sequence. -/
def run (taps : BitVec w) (e : Nat → Bool) : Nat → BitVec w
  | 0 => 0
  | n + 1 => feed taps (run taps e n) (e n)

variable {taps : BitVec w} {d n i j m : Nat} {e e' : Nat → Bool}

theorem run_congr (h : ∀ i < n, e i = e' i) : run taps e n = run taps e' n := by
  induction n with
  | zero => rfl
  | succ n ih =>
    rw [run, run, h n (Nat.lt_succ_self n)]
    rw [ih fun i hi => h i (Nat.lt_succ_of_lt hi)]

/-! ### Differences -/

theorem bit_false : bit w false = 0 := BitVec.setWidth_zero w 1

theorem bit_xor (b c : Bool) : bit w (b ^^ c) = bit w b ^^^ bit w c := by
  apply BitVec.eq_of_getLsbD_eq
  intro i hi
  simp only [bit, BitVec.getLsbD_xor]
  cases b <;> cases c <;> cases i <;> simp [hi]

theorem advance_xor (s t : BitVec w) :
    advance taps (s ^^^ t) = advance taps s ^^^ advance taps t := by
  have hcancel : s ^^^ taps ^^^ (t ^^^ taps) = s ^^^ t := by
    rw [BitVec.xor_comm t, BitVec.xor_assoc, ← BitVec.xor_assoc taps, BitVec.xor_self,
      BitVec.zero_xor]
  simp only [advance, BitVec.getLsbD_xor, ← BitVec.ushiftRight_xor_distrib]
  cases s.getLsbD 0 <;> cases t.getLsbD 0
  · rfl
  · simp only [Bool.false_xor, if_true, Bool.false_eq_true, if_false]
    rw [BitVec.xor_assoc]
  · simp only [Bool.xor_false, if_true, Bool.false_eq_true, if_false]
    rw [BitVec.xor_assoc, BitVec.xor_assoc, BitVec.xor_comm t]
  · simp only [Bool.xor_self, if_true, Bool.false_eq_true, if_false]
    rw [hcancel]

/-- **Linearity.** -/
theorem run_xor (taps : BitVec w) (e e' : Nat → Bool) (n : Nat) :
    run taps (fun i => e i ^^ e' i) n = run taps e n ^^^ run taps e' n := by
  induction n with
  | zero => exact (BitVec.xor_self (x := (0 : BitVec w))).symm
  | succ n ih =>
    simp only [run, feed]
    rw [ih, bit_xor, ← advance_xor]
    congr 1
    ac_rfl

theorem xor_bit_cancel (s : BitVec w) (b : Bool) : s ^^^ bit w b ^^^ bit w b = s := by
  rw [BitVec.xor_assoc, BitVec.xor_self, BitVec.xor_zero]

theorem run_false (n : Nat) : run taps (fun _ => false) n = 0 := by
  induction n with
  | zero => rfl
  | succ n ih =>
    rw [run, feed, ih, bit_false, advance]
    simp

/-! ### The size of the register -/

theorem bit_toNat_le (b : Bool) : (bit w b).toNat ≤ 1 := by
  have hb : (BitVec.ofBool b).toNat ≤ 1 := by cases b <;> decide
  rw [bit, BitVec.toNat_setWidth]
  exact (Nat.mod_le _ _).trans hb

theorem xor_bit_lt {s : BitVec w} (hs : s.toNat < 2 ^ (m + 1)) (b : Bool) :
    (s ^^^ bit w b).toNat < 2 ^ (m + 1) := by
  have hone : 1 < 2 ^ (m + 1) := Nat.one_lt_two_pow (Nat.succ_ne_zero m)
  exact Nat.xor_lt_two_pow hs ((bit_toNat_le b).trans_lt hone)

section Degree

variable (hdeg : taps.getLsbD (d + 1) = true) (htaps : taps.toNat < 2 ^ (d + 2))

include htaps in
theorem advance_lt {s : BitVec w} (hs : s.toNat < 2 ^ (d + 1)) :
    (advance taps s).toNat < 2 ^ (d + 1) := by
  have hwide : s.toNat < 2 ^ (d + 2) := hs.trans (Nat.pow_lt_pow_right Nat.one_lt_two (by omega))
  have hdouble : 2 ^ (d + 2) = 2 * 2 ^ (d + 1) := Nat.pow_succ'
  rw [advance, BitVec.toNat_ushiftRight, Nat.shiftRight_eq_div_pow, Nat.pow_one]
  split
  · have hxor : (s ^^^ taps).toNat < 2 ^ (d + 2) := by
      rw [BitVec.toNat_xor]
      exact Nat.xor_lt_two_pow hwide htaps
    omega
  · omega

include htaps in
theorem run_lt (e : Nat → Bool) (n : Nat) : (run taps e n).toNat < 2 ^ (d + 1) := by
  induction n with
  | zero =>
    show (0 : BitVec w).toNat < _
    rw [BitVec.ofNat_eq_ofNat, BitVec.toNat_ofNat, Nat.zero_mod]
    exact Nat.two_pow_pos _
  | succ n ih => exact advance_lt htaps (xor_bit_lt ih _)

include hdeg in
theorem eq_false_of_bit {b : Bool} (h : (bit w b).getLsbD 0 = false) : b = false := by
  have hw : 0 < w := by
    by_contra hw
    rw [BitVec.getLsbD_of_ge taps (d + 1) (by omega)] at hdeg
    cases hdeg
  rw [bit, BitVec.getLsbD_setWidth, decide_eq_true hw, Bool.true_and] at h
  cases b with
  | false => rfl
  | true => cases h

include hdeg in
theorem low_of_advance_lt {s : BitVec w} (hs : s.toNat < 2 ^ (d + 1))
    (hlt : (advance taps s).toNat < 2 ^ d) : s.getLsbD 0 = false := by
  by_contra hlow
  rw [Bool.not_eq_false] at hlow
  have htop : (advance taps s).getLsbD d = true := by
    have hbit : s.getLsbD (d + 1) = false := Nat.testBit_lt_two_pow hs
    rw [advance, hlow, if_pos rfl, BitVec.getLsbD_ushiftRight, BitVec.getLsbD_xor,
      Nat.add_comm 1 d, hbit, hdeg]
    rfl
  have hnot : (advance taps s).getLsbD d = false := Nat.testBit_lt_two_pow hlt
  rw [htop] at hnot
  cases hnot

include hdeg htaps

theorem run_back (hm : m ≤ d) (hlt : (run taps e (i + 1)).toNat < 2 ^ m) :
    (run taps e i ^^^ bit w (e i)).getLsbD 0 = false ∧
      (run taps e i ^^^ bit w (e i)).toNat < 2 ^ (m + 1) := by
  have hbound := xor_bit_lt (run_lt htaps e i) (e i)
  have hlow := low_of_advance_lt hdeg hbound
    (hlt.trans_le (Nat.pow_le_pow_right Nat.two_pos hm))
  refine ⟨hlow, ?_⟩
  rw [run, feed, advance, hlow, if_neg Bool.false_ne_true, BitVec.toNat_ushiftRight,
    Nat.shiftRight_eq_div_pow, Nat.pow_one] at hlt
  omega

/-- A register that is zero `j` bits later is below `2 ^ j`. -/
theorem run_lt_of_zero (hj : j ≤ d + 1) (hzero : run taps e (i + j) = 0) :
    (run taps e i).toNat < 2 ^ j := by
  induction j generalizing i with
  | zero =>
    rw [Nat.add_zero] at hzero
    rw [hzero]
    exact Nat.lt_of_le_of_lt (Nat.mod_le 0 _) Nat.one_pos
  | succ j ih =>
    have hnext : run taps e (i + 1 + j) = 0 := by
      rw [Nat.add_right_comm]
      exact hzero
    have hsmall := (run_back hdeg htaps (by omega) (ih (by omega) hnext)).2
    have hback := xor_bit_lt hsmall (e i)
    rw [xor_bit_cancel] at hback
    exact hback

theorem run_of_next_zero (hzero : run taps e (i + 1) = 0) : run taps e i = bit w (e i) := by
  have hnext : (run taps e (i + 1)).toNat < 2 ^ 0 :=
    run_lt_of_zero hdeg htaps (Nat.zero_le _) hzero
  obtain ⟨hlow, hlt⟩ := run_back hdeg htaps (Nat.zero_le d) hnext
  have hnone : run taps e i ^^^ bit w (e i) = 0 := by
    apply BitVec.eq_of_toNat_eq
    rw [BitVec.getLsbD, Nat.testBit_zero, decide_eq_false_iff_not] at hlow
    rw [BitVec.ofNat_eq_ofNat, BitVec.toNat_ofNat, Nat.zero_mod]
    omega
  rw [← xor_bit_cancel (run taps e i) (e i), hnone]
  exact BitVec.zero_xor

theorem run_zero_of_quiet (hquiet : ∀ l, i ≤ l → l < i + j → e l = false)
    (hzero : run taps e (i + j) = 0) : run taps e i = 0 := by
  induction j generalizing i with
  | zero => exact hzero
  | succ j ih =>
    have hnext : run taps e (i + 1) = 0 := by
      refine ih (fun l hl hlt => hquiet l (by omega) (by omega)) ?_
      rw [Nat.add_right_comm]
      exact hzero
    rw [run_of_next_zero hdeg htaps hnext, hquiet i (Nat.le_refl i) (by omega)]
    exact bit_false

theorem quiet_of_burst (hj : j ≤ d + 1) (hstart : run taps e i = 0)
    (hzero : run taps e (i + j) = 0) : ∀ l, i ≤ l → l < i + j → e l = false := by
  induction j generalizing i with
  | zero =>
    intro l hl hlt
    omega
  | succ j ih =>
    have hlast : run taps e (i + 1 + j) = 0 := by
      rw [Nat.add_right_comm]
      exact hzero
    -- the first bit would fall out again at once and set the highest bit
    have hfirst : e i = false := by
      have hlt := run_lt_of_zero hdeg htaps (by omega) hlast
      have hlow := (run_back hdeg htaps (by omega) hlt).1
      rw [hstart, BitVec.ofNat_eq_ofNat, BitVec.zero_xor] at hlow
      exact eq_false_of_bit hdeg hlow
    have hnext : run taps e (i + 1) = 0 := by
      rw [run, feed, hstart, hfirst, bit_false, advance]
      simp
    intro l hl hlt
    rcases Nat.eq_or_lt_of_le hl with rfl | hlt'
    · exact hfirst
    · exact ih (by omega) hnext hlast l hlt' (by omega)

/-- **Bursts.**  A sequence whose ones lie within `d + 1` places does not lead back
to zero. -/
theorem run_ne_zero {p : Nat} (houtside : ∀ i < n, i < p ∨ p + (d + 1) ≤ i → e i = false)
    (hone : ∃ i < n, e i = true) : run taps e n ≠ 0 := by
  intro hzero
  obtain ⟨i, hi, hei⟩ := hone
  have hwindow : p ≤ i ∧ i < p + (d + 1) := by
    by_contra hout
    rw [houtside i hi (by omega)] at hei
    cases hei
  -- in front of the window the register is zero, and behind it, going backwards
  have hstart : run taps e p = 0 := by
    have hsame : ∀ l < p, e l = false := fun l hl => houtside l (by omega) (.inl hl)
    rw [run_congr hsame]
    exact run_false p
  obtain ⟨q, hq⟩ : ∃ q, q = min n (p + (d + 1)) := ⟨_, rfl⟩
  have hend : run taps e (p + (q - p)) = 0 := by
    have hpq : p + (q - p) = q := by omega
    rw [hpq]
    refine run_zero_of_quiet (j := n - q) hdeg htaps
      (fun l hl hlt => houtside l (by omega) (by omega)) ?_
    rw [show q + (n - q) = n by omega]
    exact hzero
  have hquiet := quiet_of_burst hdeg htaps (by omega) hstart hend i hwindow.1 (by omega)
  rw [hquiet] at hei
  cases hei

end Degree

end ShiftRegister
