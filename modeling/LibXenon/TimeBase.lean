/-
LibXenon/TimeBase.lean

The time base, read in two halves.

`mftb` reads the low half first.  After a carry between the two reads its value is
ahead of the time base, and a loop that waits can stop early; otherwise the values
are right (`mftb_iff`).
-/
import Mathlib.Algebra.Group.Int.Defs
import Mathlib.Algebra.GroupWithZero.Nat
import Mathlib.Order.Monotone.Basic

namespace LibXenon

/-- `mftb`, with the time base at `mftbl` and at `mftbu`. -/
def mftb (l u : Nat) : Nat := (u / 2 ^ 32 % 2 ^ 32) <<< 32 ||| l % 2 ^ 32

/-- Call `k` of `mftb`, where `tb i` is the time base at register read `i`. -/
def mftbCall (tb : Nat → Nat) (k : Nat) : Nat := mftb (tb (2 * k)) (tb (2 * k + 1))

/-- `while (mftb() < t)` from call `k` on, with the call that ends it. -/
def waitUntil (tb : Nat → Nat) (t k : Nat) : Nat → Option Nat
  | 0 => none
  | fuel + 1 => if mftbCall tb k < t then waitUntil tb t (k + 1) fuel else some k

/-- `tdelay`; the end is a `uint64_t`. -/
def tdelay (tb : Nat → Nat) (i : Int) (k fuel : Nat) : Option Nat :=
  waitUntil tb ((mftbCall tb k + i) % 2 ^ 64).toNat (k + 1) fuel

/-- `PPC_TIMEBASE_FREQ * u / 1000000`. -/
def microTicks (u : Int) : Int := (3192000000 / 64 * u).tdiv 1000000

def udelay (tb : Nat → Nat) (u : Int) (k fuel : Nat) : Option Nat := tdelay tb (microTicks u) k fuel

/-- The product is an `int`; the loop is that of `tdelay`. -/
def stallExecution (tb : Nat → Nat) (i : Int) (k fuel : Nat) : Option Nat :=
  tdelay tb ((i * 0x32).bmod (2 ^ 32)) k fuel

variable {tb : Nat → Nat} {t k n fuel : Nat}

theorem mftbCall_eq : mftbCall tb k =
    tb (2 * k + 1) / 2 ^ 32 % 2 ^ 32 * 2 ^ 32 + tb (2 * k) % 2 ^ 32 := by
  have hlow : tb (2 * k) % 2 ^ 32 < 2 ^ 32 := Nat.mod_lt _ (by decide)
  rw [mftbCall, mftb, ← Nat.shiftLeft_add_eq_or_of_lt hlow, Nat.shiftLeft_eq]

theorem waitUntil_spec (h : waitUntil tb t k fuel = some n) : k ≤ n ∧ t ≤ mftbCall tb n := by
  induction fuel generalizing k with
  | zero => cases h
  | succ fuel ih =>
    rw [waitUntil] at h
    split at h
    · obtain ⟨hk, ht⟩ := ih h
      exact ⟨Nat.le_of_succ_le hk, ht⟩
    · cases h
      exact ⟨Nat.le_refl _, by omega⟩

theorem tdelay_spec (hmono : Monotone tb) (hlow : tb (2 * k) ≤ mftbCall tb k)
    (hhigh : ∀ n, mftbCall tb n ≤ tb (2 * n + 1)) {i : Int} (hend : mftbCall tb k + i < 2 ^ 64)
    (h : tdelay tb i k fuel = some n) : tb (2 * k) + i ≤ tb (2 * n + 1) := by
  obtain ⟨hk, ht⟩ := waitUntil_spec h
  have hlater : tb (2 * k) ≤ tb (2 * n + 1) := hmono (by omega)
  have hn := hhigh n
  by_cases hi : i ≤ 0
  · omega
  · rw [Int.emod_eq_of_lt (by omega) hend] at ht
    omega

/-- **The time base.**  The values lie between the two reads, never decrease and make the
delays long enough exactly when no low half is smaller at the second read.  The ends of the
delays are to be below 2 ^ 64, and the product of `stall_execution` an `int`. -/
theorem mftb_iff (tb : Nat → Nat) (hmono : Monotone tb) (hlt : ∀ i, tb i < 2 ^ 64) :
    ((∀ k, tb (2 * k) ≤ mftbCall tb k ∧ mftbCall tb k ≤ tb (2 * k + 1)) ∧
      Monotone (mftbCall tb) ∧
      (∀ u k fuel n, mftbCall tb k + microTicks u < 2 ^ 64 → udelay tb u k fuel = some n →
        tb (2 * k) + microTicks u ≤ tb (2 * n + 1)) ∧
      ∀ (i : Int) k fuel n, -2 ^ 31 ≤ i * 0x32 → i * 0x32 < 2 ^ 31 →
        mftbCall tb k + i * 0x32 < 2 ^ 64 → stallExecution tb i k fuel = some n →
        tb (2 * k) + i * 0x32 ≤ tb (2 * n + 1)) ↔
      ∀ k, tb (2 * k) % 2 ^ 32 ≤ tb (2 * k + 1) % 2 ^ 32 := by
  constructor
  · intro h k
    have hle := (h.1 k).2
    have hread := hlt (2 * k + 1)
    rw [mftbCall_eq] at hle
    omega
  · intro h
    have hbetween : ∀ k, tb (2 * k) ≤ mftbCall tb k ∧ mftbCall tb k ≤ tb (2 * k + 1) := by
      intro k
      have hread := hlt (2 * k + 1)
      have hstep : tb (2 * k) ≤ tb (2 * k + 1) := hmono (Nat.le_succ _)
      have hhalf := h k
      rw [mftbCall_eq]
      omega
    refine ⟨hbetween, monotone_nat_of_le_succ fun k => ?_, fun u k fuel n hend hs => ?_,
      fun i k fuel n hlow hhigh hend hs => ?_⟩
    · exact (hbetween k).2.trans ((hmono (by omega)).trans (hbetween (k + 1)).1)
    · exact tdelay_spec hmono (hbetween k).1 (fun n => (hbetween n).2) hend hs
    · rw [stallExecution, Int.bmod_eq_of_le (by omega) (by omega)] at hs
      exact tdelay_spec hmono (hbetween k).1 (fun n => (hbetween n).2) hend hs

/-- A thousand ticks pass after call 0. -/
def leap (i : Nat) : Nat := if i < 2 then 0 else 1000

theorem udelay_leap : (leap 0 : Int) + microTicks 1 ≤ leap 3 :=
  ((mftb_iff leap (fun i j h => by unfold leap; split_ifs <;> omega)
    (fun i => by unfold leap; split_ifs <;> omega)).mpr
    fun k => by unfold leap; split_ifs <;> omega).2.2.1 1 0 1 1 (by decide) (by decide)

/-- A carry between the reads of call 1. -/
def carryRead (i : Nat) : Nat := 2 ^ 32 - 10 + if i < 2 then 0 else min (i + 7) 11

/-- The value is ahead, the next one smaller, and a second is over after ten ticks. -/
theorem mftb_carry : Monotone carryRead ∧ carryRead 3 < mftbCall carryRead 1 ∧
    mftbCall carryRead 2 < mftbCall carryRead 1 ∧
    udelay carryRead 1000000 0 1 = some 1 ∧ carryRead 3 = carryRead 0 + 10 := by
  refine ⟨fun i j h => ?_, by decide +kernel⟩
  unfold carryRead
  split_ifs <;> omega

end LibXenon
