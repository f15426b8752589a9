/-
LibXenon/Pm4.lean

A command processor that executes a stream of packets.

The stream is a list of 32-bit words.  The two top bits of a header say what
follows it: type 0 writes the words after it into consecutive registers (or,
with bit 15, all into one), type 2 is a filler of one word, type 3 carries an
opcode and a payload.  The processor takes one word at a time (`Cp.step`), so
that a stream may be cut anywhere; `Runs ws f` says that `ws` is a whole
number of packets, with the effect `f`.

What a type-3 packet does is a parameter of the processor: only the register
file is fixed here.

* `Runs.append`, `Runs.type0`, `Runs.type3` — streams put together;
* `Runs.packets` — a list of packets whose headers are known, with
  `keeps_packets` for the registers none of them names.
-/
import Mathlib.Algebra.GroupWithZero.Nat
import Mathlib.Data.List.Basic

namespace Pm4

open List

abbrev Word := BitVec 32

/-- What the processor expects next. -/
inductive Mode
  | header
  | write (reg left : Nat) (oneReg : Bool)
  | packet3 (opcode left : Nat) (payload : List Word)
  deriving DecidableEq, Repr

/-- Read a header.  Type-1 packets are not used and read as fillers. -/
def decode (word : Word) : Mode :=
  if word.toNat / 2 ^ 30 = 0 then
    .write (word.toNat % 2 ^ 15) (word.toNat / 2 ^ 16 % 2 ^ 14 + 1) (word.getLsbD 15)
  else if word.toNat / 2 ^ 30 = 3 then
    .packet3 (word.toNat / 2 ^ 8 % 2 ^ 8) (word.toNat / 2 ^ 16 % 2 ^ 14 + 1) []
  else .header

/-- The registers, and whatever else the device holds. -/
structure Device (P : Type*) where
  regs : Nat → Word
  other : P

variable {P : Type*}

/-- Write one register. -/
def Device.set (g : Device P) (reg : Nat) (word : Word) : Device P :=
  { g with regs := fun r => if r = reg then word else g.regs r }

/-- Write consecutive registers. -/
def Device.setRange (g : Device P) (reg : Nat) (vals : List Word) : Device P :=
  { g with regs := fun r => if reg ≤ r then vals.getD (r - reg) (g.regs r) else g.regs r }

/-- The processor between two words. -/
structure Cp (P : Type*) where
  mode : Mode
  dev : Device P

variable (exec : Nat → List Word → P → P)

/-- A type-3 packet is carried out when its last word has come. -/
def Device.packet3 (g : Device P) (opcode : Nat) (payload : List Word) : Device P :=
  { g with other := exec opcode payload g.other }

/-- Take one word. -/
def Cp.step (c : Cp P) (word : Word) : Cp P :=
  match c.mode with
  | .header => { c with mode := decode word }
  | .write reg left oneReg =>
    { mode := if left ≤ 1 then .header else
        .write (if oneReg then reg else reg + 1) (left - 1) oneReg
      dev := c.dev.set reg word }
  | .packet3 opcode left payload =>
    if left ≤ 1 then
      { mode := .header, dev := c.dev.packet3 exec opcode (payload ++ [word]) }
    else { c with mode := .packet3 opcode (left - 1) (payload ++ [word]) }

/-- Take a stream. -/
def Cp.feed (c : Cp P) (ws : List Word) : Cp P := ws.foldl (Cp.step exec) c

/-- Execute a stream from a packet boundary. -/
def execute (ws : List Word) (g : Device P) : Device P := (Cp.feed exec ⟨.header, g⟩ ws).dev

/-- `ws` is a whole number of packets and does `f` to the device. -/
def Runs (ws : List Word) (f : Device P → Device P) : Prop :=
  ∀ g, Cp.feed exec ⟨.header, g⟩ ws = ⟨.header, f g⟩

variable {exec} {ws ws' : List Word} {f f' : Device P → Device P} {g : Device P}

/-! ### Putting streams together -/

theorem Runs.nil : Runs exec [] (id : Device P → Device P) := fun _ => rfl

theorem Runs.append (h : Runs exec ws f) (h' : Runs exec ws' f') :
    Runs exec (ws ++ ws') (f' ∘ f) := by
  intro g
  have hfeed := h g
  rw [Cp.feed] at hfeed
  rw [Cp.feed, foldl_append, hfeed]
  exact h' (f g)

theorem Runs.filler (n : Nat) : Runs exec (List.replicate n 0x80000000) (id : Device P → Device P) := by
  induction n with
  | zero => exact Runs.nil
  | succ n ih =>
    intro g
    exact ih g

theorem Device.setRange_nil (g : Device P) (reg : Nat) : g.setRange reg [] = g := by
  simp [Device.setRange]

theorem Device.setRange_cons (g : Device P) (reg : Nat) (word : Word) (vals : List Word) :
    g.setRange reg (word :: vals) = (g.set reg word).setRange (reg + 1) vals := by
  simp only [Device.setRange, Device.set, Device.mk.injEq, and_true]
  funext r
  rcases Nat.lt_trichotomy r reg with h | rfl | h
  · simp [Nat.not_le.mpr h, Nat.not_le.mpr (Nat.lt_succ_of_lt h), Nat.ne_of_lt h]
  · have hnot : ¬ r + 1 ≤ r := by omega
    simp [hnot]
  · have hsucc : r - reg = (r - (reg + 1)) + 1 := by omega
    simp [Nat.le_of_lt h, Nat.succ_le_of_lt h, Nat.ne_of_gt h, hsucc]

theorem feed_write (vals : List Word) (g : Device P) (reg : Nat) (hne : vals ≠ []) :
    Cp.feed exec ⟨.write reg vals.length false, g⟩ vals = ⟨.header, g.setRange reg vals⟩ := by
  induction vals generalizing g reg with
  | nil => exact absurd rfl hne
  | cons word vals ih =>
    rw [Device.setRange_cons, Cp.feed]
    cases vals with
    | nil => rw [Device.setRange_nil]; rfl
    | cons v vs => exact ih (g.set reg word) (reg + 1) (cons_ne_nil _ _)

theorem Runs.type0 {hdr : Word} {vals : List Word} {reg : Nat}
    (hdecode : decode hdr = .write reg vals.length false) (hne : vals ≠ []) :
    Runs exec (hdr :: vals) (fun g : Device P => g.setRange reg vals) := by
  intro g
  rw [Cp.feed, foldl_cons]
  have hstep : Cp.step exec ⟨.header, g⟩ hdr = ⟨.write reg vals.length false, g⟩ := by
    rw [← hdecode]
    rfl
  rw [hstep]
  exact feed_write vals g reg hne

theorem feed_packet3 (vals payload : List Word) (g : Device P) (opcode : Nat) (hne : vals ≠ []) :
    Cp.feed exec ⟨.packet3 opcode vals.length payload, g⟩ vals =
      ⟨.header, g.packet3 exec opcode (payload ++ vals)⟩ := by
  induction vals generalizing payload with
  | nil => exact absurd rfl hne
  | cons word vals ih =>
    cases vals with
    | nil => rfl
    | cons v vs =>
      -- the payload so far grows at its end: `ih` for any payload
      have hrest := ih (payload ++ [word]) (cons_ne_nil _ _)
      rw [append_assoc] at hrest
      exact hrest

theorem Runs.type3 {hdr : Word} {vals : List Word} {opcode : Nat}
    (hdecode : decode hdr = .packet3 opcode vals.length []) (hne : vals ≠ []) :
    Runs exec (hdr :: vals) (fun g : Device P => g.packet3 exec opcode vals) := by
  intro g
  rw [Cp.feed, foldl_cons]
  have hstep : Cp.step exec ⟨.header, g⟩ hdr = ⟨.packet3 opcode vals.length [], g⟩ := by
    rw [← hdecode]
    rfl
  rw [hstep]
  exact feed_packet3 vals [] g opcode hne

/-! ### Lists of packets -/

/-- A header with as many words behind it as it announces. -/
def wellFormed : List Word → Bool
  | [] => false
  | hdr :: vals =>
    match decode hdr with
    | .write _ left oneReg => left == vals.length && !oneReg
    | .packet3 _ left _ => left == vals.length
    | .header => false

/-- The effect of one packet. -/
def packetEffect (exec : Nat → List Word → P → P) (ps : List Word) (g : Device P) : Device P :=
  match ps with
  | [] => g
  | hdr :: vals =>
    match decode hdr with
    | .write reg _ _ => g.setRange reg vals
    | .packet3 opcode _ _ => g.packet3 exec opcode vals
    | .header => g

/-- The registers a packet names: the first of them, and how many. -/
def footprint : List Word → Nat × Nat
  | [] => (0, 0)
  | hdr :: vals =>
    match decode hdr with
    | .write reg _ _ => (reg, vals.length)
    | _ => (0, 0)

theorem decode_packet3 {hdr : Word} {opcode left : Nat} {payload : List Word}
    (h : decode hdr = .packet3 opcode left payload) : payload = [] ∧ left ≠ 0 := by
  rw [decode] at h
  split at h
  · cases h
  · split at h
    · cases h
      exact ⟨rfl, Nat.succ_ne_zero _⟩
    · cases h

theorem decode_write {hdr : Word} {reg left : Nat} {oneReg : Bool}
    (h : decode hdr = .write reg left oneReg) : left ≠ 0 := by
  rw [decode] at h
  split at h
  · cases h
    exact Nat.succ_ne_zero _
  · split at h
    · cases h
    · cases h

theorem Runs.packet {p : List Word} (h : wellFormed p = true) :
    Runs exec p (packetEffect (P := P) exec p) := by
  cases p with
  | nil => cases h
  | cons hdr vals =>
    rw [wellFormed] at h
    rcases hd : decode hdr with - | ⟨reg, left, oneReg⟩ | ⟨opcode, left, payload⟩
    · rw [hd] at h
      cases h
    · rw [hd] at h
      -- type 0: the values are written to registers
      simp only [Bool.and_eq_true, beq_iff_eq, Bool.not_eq_true'] at h
      obtain ⟨rfl, rfl⟩ := h
      have hne : vals ≠ [] := fun hnil => decode_write hd (by rw [hnil]; rfl)
      have heffect : packetEffect (P := P) exec (hdr :: vals) = fun g => g.setRange reg vals := by
        funext g
        rw [packetEffect, hd]
      rw [heffect]
      exact Runs.type0 hd hne
    · rw [hd] at h
      -- type 3: a command with its payload
      obtain ⟨rfl, hleft⟩ := decode_packet3 hd
      obtain rfl : left = vals.length := by simpa using h
      have hne : vals ≠ [] := fun hnil => hleft (by rw [hnil]; rfl)
      have heffect : packetEffect (P := P) exec (hdr :: vals) =
          fun g => g.packet3 exec opcode vals := by
        funext g
        rw [packetEffect, hd]
      rw [heffect]
      exact Runs.type3 hd hne

/-- The effect of several packets. -/
def packetsEffect (exec : Nat → List Word → P → P) (ps : List (List Word)) (g : Device P) :
    Device P :=
  ps.foldl (fun g p => packetEffect exec p g) g

/-- **A list of packets.**  Whether it is well formed only depends on the
headers. -/
theorem Runs.packets (ps : List (List Word)) (h : ps.all wellFormed = true) :
    Runs exec ps.flatten (packetsEffect (P := P) exec ps) := by
  induction ps with
  | nil => exact Runs.nil
  | cons p ps ih =>
    rw [all_cons, Bool.and_eq_true] at h
    exact (Runs.packet h.1).append (ih h.2)

/-- Some registers, given by the first and their number, are none of those
from `lo` up to `hi`. -/
def apart (lo hi : Nat) (iv : Nat × Nat) : Bool := iv.1 + iv.2 ≤ lo || hi ≤ iv.1

theorem Device.regs_setRange (g : Device P) (reg : Nat) (vals : List Word) (r : Nat) :
    (g.setRange reg vals).regs r =
      if reg ≤ r then vals.getD (r - reg) (g.regs r) else g.regs r := rfl

theorem Device.regs_setRange_out {reg r : Nat} {vals : List Word}
    (h : r < reg ∨ reg + vals.length ≤ r) : (g.setRange reg vals).regs r = g.regs r := by
  rw [Device.regs_setRange]
  split
  · rw [getD_eq_getElem?_getD, List.getElem?_eq_none (by omega)]
    rfl
  · rfl

theorem regs_packetEffect {p : List Word} {lo hi r : Nat} (h : apart lo hi (footprint p) = true)
    (hlo : lo ≤ r) (hhi : r < hi) : (packetEffect exec p g).regs r = g.regs r := by
  cases p with
  | nil => rfl
  | cons hdr vals =>
    rw [apart, footprint] at h
    rw [packetEffect]
    split
    · rename_i reg left oneReg hd
      rw [hd] at h
      simp only [Bool.or_eq_true, decide_eq_true_eq] at h
      exact Device.regs_setRange_out (by omega)
    · rfl
    · rfl

/-- … nor does a list of packets outside what they name. -/
theorem keeps_packets {ps : List (List Word)} {lo hi r : Nat}
    (h : (ps.map footprint).all (apart lo hi) = true) (hlo : lo ≤ r) (hhi : r < hi)
    (g : Device P) : (packetsEffect exec ps g).regs r = g.regs r := by
  induction ps generalizing g with
  | nil => rfl
  | cons p ps ih =>
    rw [map_cons, all_cons, Bool.and_eq_true] at h
    exact (ih h.2 _).trans (regs_packetEffect h.1 hlo hhi)

/-- … in particular a single register. -/
theorem keeps_register {ps : List (List Word)} {r : Nat}
    (h : (ps.map footprint).all (apart r (r + 1)) = true) (g : Device P) :
    (packetsEffect exec ps g).regs r = g.regs r :=
  keeps_packets h (Nat.le_refl r) (Nat.lt_succ_self r) g

end Pm4
