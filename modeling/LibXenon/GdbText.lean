/-
LibXenon/GdbText.lean

The numbers in the packets of the debugger stub: the functions of gdbroutines.c
that read them from the buffer and put them there.

A packet is a string in a buffer of 2048 bytes.  `hexToInt` reads digits up to
the first byte that is none, wherever that is, so it comes to an end in the buffer
if there is a NUL (`Buffer.Closed`, `hexToInt_closed`); the other functions read
at most eight digits.  An `int` is a word of 32 bits.
-/
import LibXenon.GdbPacket
import Mathlib.Algebra.GroupWithZero.Nat

namespace LibXenon

/-! ### Reading -/

/-- `hexToInt` from an index on, with the room that is left in the buffer: the
number of digits, the value and the index of the first byte that is no digit.
`none` if there is none in the buffer. -/
def hexLoop (b : Buffer) : Nat → Nat → Nat → BitVec 32 → Option (Nat × BitVec 32 × Nat)
  | 0, _, _, _ => none
  | room + 1, ptr, cnt, val =>
    if b ptr = 0 ∨ hex (b ptr) < 0 then some (cnt, val, ptr)
    else hexLoop b room (ptr + 1) (cnt + 1) (val <<< 4 ||| BitVec.ofInt 32 (hex (b ptr)))

def hexToInt (b : Buffer) (ptr : Nat) : Option (Nat × BitVec 32 × Nat) :=
  hexLoop b (bufmax - ptr) ptr 0 0

/-- `hstr2nibble`. -/
def hstr2nibble (ch : UInt8) : Option (BitVec 32) :=
  if 0x30 ≤ ch ∧ ch ≤ 0x39 then some (BitVec.ofNat 32 (ch.toNat - 0x30))
  else if 0x61 ≤ ch ∧ ch ≤ 0x66 then some (BitVec.ofNat 32 (ch.toNat - 0x61 + 10))
  else if 0x41 ≤ ch ∧ ch ≤ 0x46 then some (BitVec.ofNat 32 (ch.toNat - 0x41 + 10))
  else none

/-- The zeros at an index, at most so many. -/
def leadingZeros (b : Buffer) : Nat → Nat → Nat
  | 0, _ => 0
  | n + 1, ptr => if b ptr = 0x30 then leadingZeros b n (ptr + 1) + 1 else 0

/-- The second loop of `vhstr2int`; `digits` says whether there has been one. -/
def vhDigits (b : Buffer) : Nat → Nat → BitVec 32 → Bool → Option (BitVec 32 × Nat)
  | 0, ptr, val, _ => if (hstr2nibble (b ptr)).isSome then none else some (val, ptr)
  | n + 1, ptr, val, digits =>
    match hstr2nibble (b ptr) with
    | none => if digits then some (val, ptr) else none
    | some nibble => vhDigits b n (ptr + 1) (val <<< 4 ||| nibble) true

/-- `vhstr2int`: up to eight digits, with the index behind them. -/
def vhstr2int (b : Buffer) (ptr : Nat) : Option (BitVec 32 × Nat) :=
  let i := leadingZeros b 8 ptr
  vhDigits b (8 - i) (ptr + i) 0 (i != 0)

def fhDigits (b : Buffer) : Nat → Nat → BitVec 32 → Option (BitVec 32 × Nat)
  | 0, ptr, val => some (val, ptr)
  | n + 1, ptr, val =>
    match hstr2nibble (b ptr) with
    | none => none
    | some nibble => fhDigits b n (ptr + 1) (val <<< 4 ||| nibble)

/-- `fhstr2int`: eight digits. -/
def fhstr2int (b : Buffer) (ptr : Nat) : Option (BitVec 32 × Nat) := fhDigits b 8 ptr 0

/-- `fhstr2thread`: eight zeros and eight digits. -/
def fhstr2thread (b : Buffer) (ptr : Nat) : Option (BitVec 32 × Nat) :=
  if leadingZeros b 8 ptr = 8 then fhDigits b 8 (ptr + 8) 0 else none

/-- `parseqp`: the mask and the thread. -/
def parseqp (b : Buffer) : Option (BitVec 32 × BitVec 32) :=
  match fhstr2int b 2 with
  | none => none
  | some (mask, ptr) => (fhstr2thread b ptr).map fun r => (mask, r.1)

/-- What a packet for a breakpoint says. -/
structure ZBreak where
  type : BitVec 32
  addr : BitVec 32
  len : BitVec 32
  deriving DecidableEq

/-- `parsezbreak`. -/
def parsezbreak (b : Buffer) : Option ZBreak :=
  match hstr2nibble (b 1) with
  | none => none
  | some type =>
    if b 2 ≠ 0x2C then none
    else
      match vhstr2int b 3 with
      | none => none
      | some (addr, ptr) =>
        if b ptr ≠ 0x2C then none
        else
          match vhstr2int b (ptr + 1) with
          | none => none
          | some (len, _) => if len.toInt < 1 then none else some ⟨type, addr, len⟩

/-! ### Writing -/

/-- The bytes of a text. -/
def text (s : String) : List UInt8 := s.toList.map fun c => UInt8.ofNat c.toNat

/-- `hexchars[n]`. -/
def hexChar (n : Nat) : UInt8 :=
  if n < 10 then UInt8.ofNat (0x30 + n) else UInt8.ofNat (0x61 + n - 10)

/-- The digits of `%X`. -/
def upperHexChar (n : Nat) : UInt8 :=
  if n < 10 then UInt8.ofNat (0x30 + n) else UInt8.ofNat (0x41 + n - 10)

/-- The digits of a number, at most so many. -/
def hexText (char : Nat → UInt8) : Nat → Nat → List UInt8
  | 0, _ => []
  | k + 1, n => if n < 16 then [char n] else hexText char k (n / 16) ++ [char (n % 16)]

/-- `%x` and `%02.2X` of an `unsigned int`. -/
def formatx (n : Nat) : List UInt8 := hexText hexChar 8 n

def format02X (n : Nat) : List UInt8 :=
  if n < 16 then [0x30, upperHexChar n] else hexText upperHexChar 8 n

/-- `mem2hstr`, without the NUL behind it. -/
def mem2hstr (mem : List UInt8) : List UInt8 :=
  mem.flatMap fun ch => [hexChar (ch.toNat / 16), hexChar (ch.toNat % 16)]

/-- `int2fhstr`. -/
def int2fhstr (val : BitVec 32) : List UInt8 :=
  (List.range 8).map fun i => hexChar (val.toNat / 16 ^ (7 - i) % 16)

/-- `thread2fhstr`. -/
def thread2fhstr (thread : BitVec 32) : List UInt8 := List.replicate 8 0x30 ++ int2fhstr thread

/-- Two digits of a length. -/
def lengthDigits (len : Nat) : List UInt8 := [hexChar (len / 16 % 16), hexChar (len % 16)]

/-- The part of `packqq` for the name.  What is copied is not the name but the
bytes that start with the pointer to it. -/
def packName (name : List UInt8) (field : Nat → UInt8) : List UInt8 :=
  text "00000008" ++ lengthDigits name.length ++ (List.range name.length).map field

/-- `packqq`: the bytes it writes; `none` if the thread is needed and is NULL. -/
def packqq (mask thread : BitVec 32) (pthr : Option (List UInt8 × (Nat → UInt8))) :
    Option (List UInt8) := do
  let name ←
    if mask &&& 8 ≠ 0 then pthr.map fun t => packName t.1 t.2 else some []
  some (text "qQ" ++ int2fhstr mask ++ thread2fhstr thread ++
    (if mask &&& 1 ≠ 0 then text "0000000110" ++ thread2fhstr thread else []) ++
    (if mask &&& 2 ≠ 0 then text "00000002011" else []) ++
    (if mask &&& 4 ≠ 0 then text "00000004" ++ lengthDigits 1 ++ [0] else []) ++
    name ++
    (if mask &&& 0x10 ≠ 0 then text "00000010" ++ lengthDigits 1 ++ [0] else []))

/-! ### Digits that end -/

/-- There is a NUL in the buffer, at this index or behind it. -/
def Buffer.Closed (b : Buffer) (i : Nat) : Prop := ∃ k, i ≤ k ∧ k < bufmax ∧ b k = 0

variable {b : Buffer} {i : Nat}

theorem Buffer.Closed.succ (h : b.Closed i) (hi : b i ≠ 0) : b.Closed (i + 1) := by
  obtain ⟨k, hik, hk, hz⟩ := h
  refine ⟨k, Nat.lt_of_le_of_ne hik fun heq => hi ?_, hk, hz⟩
  rw [heq, hz]

theorem hexLoop_closed {room cnt : Nat} {val : BitVec 32} (h : b.Closed i)
    (hroom : bufmax - i ≤ room) :
    ∃ cnt' val' ptr, hexLoop b room i cnt val = some (cnt', val', ptr) ∧ b.Closed ptr := by
  induction room generalizing i cnt val with
  | zero =>
    obtain ⟨k, hik, hk, -⟩ := h
    omega
  | succ room ih =>
    rw [hexLoop]
    by_cases hstop : b i = 0 ∨ hex (b i) < 0
    · exact ⟨cnt, val, i, if_pos hstop, h⟩
    · rw [if_neg hstop]
      exact ih (h.succ fun hz => hstop (.inl hz)) (by omega)

/-- **The digits end** in a buffer with a NUL, before it or at it. -/
theorem hexToInt_closed (h : b.Closed i) :
    ∃ cnt val ptr, hexToInt b i = some (cnt, val, ptr) ∧ b.Closed ptr :=
  hexLoop_closed h (Nat.le_refl _)

/-! ### Lengths -/

theorem length_mem2hstr (mem : List UInt8) : (mem2hstr mem).length = 2 * mem.length := by
  induction mem with
  | nil => rfl
  | cons ch mem ih =>
    rw [mem2hstr, List.flatMap_cons, List.length_append, ← mem2hstr, ih]
    simp only [List.length_cons, List.length_nil]
    omega

theorem length_hexText (char : Nat → UInt8) (k n : Nat) : (hexText char k n).length ≤ k := by
  induction k generalizing n with
  | zero => exact Nat.le_refl _
  | succ k ih =>
    rw [hexText]
    split
    · exact Nat.succ_le_succ (Nat.zero_le _)
    · rw [List.length_append]
      exact Nat.succ_le_succ (ih _)

end LibXenon
