/-
LibXenon/Enet.lean

The two descriptor rings of enet.c.

Driver and network chip share 16 descriptors of four words in each direction,
and a buffer of 1528 bytes for each.  Bit 31 of the second word says that the
descriptor belongs to the chip; bit 31 of the fourth that the next descriptor
is the first one again.  Words are as the chip sees them, that is after
`__builtin_bswap32`.  The processor has the memory at 0x80000000 and the chip
at 0; a memory here is by the chip's addresses.
-/
import LibXenon.ByteMemory
import LibXenon.Handover
import Mathlib.Algebra.GroupWithZero.Nat

namespace LibXenon

open ByteMemory

/-- The four words of a descriptor. -/
structure Descriptor where
  length : BitVec 32
  status : BitVec 32
  address : BitVec 32
  limit : BitVec 32

def descriptorNum : Nat := 16

def mtu : Nat := 1528

/-- `& 0x80000000`. -/
def bit31 (w : BitVec 32) : Bool := w.msb

/-- The descriptor belongs to the chip. -/
def Descriptor.owned (d : Descriptor) : Bool := bit31 d.status

/-- The chip gives the descriptor back. -/
def Descriptor.release (d : Descriptor) : Descriptor := { d with status := d.status &&& 0x7fffffff }

/-- The fourth word. -/
def limitWord (len i : Nat) : BitVec 32 :=
  BitVec.ofNat 32 len ||| if i = descriptorNum - 1 then 0x80000000 else 0

/-- Where the chip goes after this descriptor. -/
def Descriptor.next (d : Descriptor) (i : Nat) : Nat := if bit31 d.limit then 0 else i + 1

@[simp] theorem owned_release (d : Descriptor) : d.release.owned = false := by
  have hmask : BitVec.msb (0x7fffffff : BitVec 32) = false := by decide
  rw [Descriptor.owned, bit31, Descriptor.release, BitVec.msb_and, hmask, Bool.and_false]

theorem bit31_limitWord {len i : Nat} (h : len < 2 ^ 31) :
    bit31 (limitWord len i) = decide (i = 15) := by
  have hlen : (BitVec.ofNat 32 len).msb = false := by
    rw [BitVec.msb_eq_decide, BitVec.toNat_ofNat, decide_eq_false_iff_not]
    omega
  rw [bit31, limitWord, BitVec.msb_or, hlen, Bool.false_or, descriptorNum]
  by_cases hi : i = 15
  · rw [if_pos hi, decide_eq_true hi]
    decide
  · rw [if_neg hi, decide_eq_false hi]
    decide

theorem next_eq_slot {d : Descriptor} {len i : Nat} (h : len < 2 ^ 31) (hi : i < 16)
    (hd : d.limit = limitWord len i) : d.next i = Handover.slot 16 i 1 := by
  rw [Descriptor.next, hd, bit31_limitWord h, Handover.slot_eq hi (by decide)]
  by_cases h15 : i = 15
  · rw [decide_eq_true h15, if_pos rfl, if_neg (by omega), h15]
  · rw [decide_eq_false h15, if_neg Bool.false_ne_true, if_pos (by omega)]

/-! ### Addresses -/

/-- `virt_to_phys`. -/
def virtToPhys (a : Nat) : Nat := a % 2 ^ 31

/-- Descriptors and buffers of one direction, at an address as the processor has
it. -/
structure EnetArea where
  base : Nat
  mapped : 2 ^ 31 ≤ base
  fits : base + 16 * 0x10 + 16 * 1528 < 2 ^ 32

/-- `base + 16 * 0x10 + i * MTU`. -/
def EnetArea.buffer (area : EnetArea) (i : Nat) : Nat :=
  area.base + descriptorNum * 0x10 + i * mtu

/-- A buffer as the chip has it. -/
def EnetArea.phys (area : EnetArea) (i : Nat) : Nat := virtToPhys (area.buffer i)

variable (area : EnetArea) {i j : Nat}

theorem virtToPhys_eq {off : Nat} (hi : i < 16) (hoff : off ≤ 1528) :
    virtToPhys (area.buffer i + off) + 2 ^ 31 = area.base + 256 + i * 1528 + off := by
  have hmapped := area.mapped
  have hfits := area.fits
  have hbuffer : area.buffer i = area.base + 256 + i * 1528 := rfl
  have hrange : area.buffer i + off = (area.buffer i + off - 2 ^ 31) + 2 ^ 31 := by omega
  rw [virtToPhys, hrange, Nat.add_mod_right]
  omega

theorem phys_eq (hi : i < 16) : area.phys i + 2 ^ 31 = area.base + 256 + i * 1528 :=
  virtToPhys_eq area hi (Nat.zero_le 1528)

theorem virtToPhys_buffer {off : Nat} (hi : i < 16) (hoff : off ≤ 1528) :
    virtToPhys (area.buffer i + off) = area.phys i + off := by
  have hoffset := virtToPhys_eq area hi hoff
  have hphys := phys_eq area hi
  omega

theorem phys_apart (hi : i < 16) (hj : j < 16) (hne : i ≠ j) :
    area.phys i + 1528 ≤ area.phys j ∨ area.phys j + 1528 ≤ area.phys i := by
  have hphysi := phys_eq area hi
  have hphysj := phys_eq area hj
  omega

theorem toNat_phys (i : Nat) : (BitVec.ofNat 32 (area.phys i)).toNat = area.phys i := by
  have hlt : area.phys i < 2 ^ 31 := Nat.mod_lt _ (by decide)
  rw [BitVec.toNat_ofNat]
  omega

end LibXenon
