/-
LibXenon/GdbPacket.lean

How the debugger stub reads a packet from the network: `net_getpacket` of
gdb.c.

A packet is `$`, the payload, `#` and two hex digits of a checksum.  Each turn
of the loop calls `recv` once and treats what it got as one packet: a first
byte other than `$` is a request to stop the program, the checksum is behind
the first `#`, and what follows is dropped.  Nothing is kept for the next turn
but the character that was looked at last.

* A chunk that is a packet is delivered (`turn_packet`), so all packets are,
  in order, when each comes in a chunk of its own (`delivered_of_reach`).
* Two packets in one chunk are one delivered and one lost
  (`second_packet_lost`).

The buffer has 2048 bytes, and a chunk of that length is closed with a NUL
behind it; a `Buffer` here goes on behind the array.
-/
import LibXenon.Transition
import Mathlib.Data.List.Basic
import Mathlib.Data.List.TakeWhile

namespace LibXenon

open Transition List

/-! ### Buffers -/

abbrev Buffer := Nat → UInt8

def bufmax : Nat := 2048

namespace Buffer

def set (b : Buffer) (i : Nat) (c : UInt8) : Buffer := fun j => if j = i then c else b j

/-- What `recv` writes. -/
def fill (b : Buffer) (bytes : List UInt8) : Buffer := fun i =>
  if h : i < bytes.length then bytes[i] else b i

/-- `for (; n; n--, i++) buffer[i - d] = buffer[i];` -/
def moveDown (d : Nat) : Nat → Nat → Buffer → Buffer
  | 0, _, b => b
  | n + 1, i, b => moveDown d n (i + 1) (b.set (i - d) (b i))

/-- The string from an index on, of at most so many characters. -/
def stringFrom (b : Buffer) : Nat → Nat → List UInt8
  | 0, _ => []
  | n + 1, i => if b i = 0 then [] else b i :: b.stringFrom n (i + 1)

/-- The string in the buffer. -/
def string (b : Buffer) : List UInt8 := b.stringFrom bufmax 0

theorem set_self (b : Buffer) (i : Nat) (c : UInt8) : b.set i c i = c := if_pos rfl

theorem set_of_ne {b : Buffer} {i j : Nat} {c : UInt8} (h : j ≠ i) : b.set i c j = b j := if_neg h

theorem moveDown_apply {d : Nat} (hd : 0 < d) (n i : Nat) (hi : d ≤ i) (b : Buffer) (j : Nat) :
    moveDown d n i b j = if i - d ≤ j ∧ j < i - d + n then b (j + d) else b j := by
  induction n generalizing i b with
  | zero => rw [moveDown, if_neg (by omega)]
  | succ n ih =>
    rw [moveDown, ih (i + 1) (by omega)]
    by_cases hj : j = i - d
    · rw [if_neg (by omega), if_pos (by omega), hj, set_self]
      congr 1
      omega
    · by_cases hin : i - d ≤ j ∧ j < i - d + (n + 1)
      · rw [if_pos (by omega), if_pos hin, set_of_ne (by omega)]
      · rw [if_neg (by omega), if_neg hin, set_of_ne hj]

/-- The bytes of `l` are in the buffer from index `i` on. -/
def At (b : Buffer) : Nat → List UInt8 → Prop
  | _, [] => True
  | i, c :: l => b i = c ∧ b.At (i + 1) l

section At

variable {b b' : Buffer} {l l' : List UInt8} {i n : Nat}

theorem at_append : b.At i (l ++ l') ↔ b.At i l ∧ b.At (i + l.length) l' := by
  induction l generalizing i with
  | nil => exact (iff_of_eq (true_and _)).symm
  | cons c l ih =>
    rw [cons_append, At, At, ih, and_assoc, length_cons, Nat.add_assoc, Nat.add_comm 1]

theorem At.shift {d : Nat} (h : b.At (i + d) l)
    (hsame : ∀ k, i ≤ k → k < i + l.length → b' k = b (k + d)) : b'.At i l := by
  induction l generalizing i with
  | nil => trivial
  | cons c l ih =>
    rw [length_cons] at hsame
    obtain ⟨hc, hl⟩ := h
    rw [Nat.add_right_comm] at hl
    exact ⟨(hsame i (Nat.le_refl i) (by omega)).trans hc,
      ih hl fun k hk hk' => hsame k (by omega) (by omega)⟩

theorem at_fill (b : Buffer) (l : List UInt8) : (b.fill l).At 0 l := by
  have hget {i : Nat} {l : List UInt8} {b : Buffer}
      (h : ∀ k (hk : k < l.length), b (i + k) = l[k]) : b.At i l := by
    induction l generalizing i with
    | nil => trivial
    | cons c l ih =>
      refine ⟨h 0 (Nat.succ_pos _), ih fun k hk => ?_⟩
      rw [Nat.add_right_comm]
      exact h (k + 1) (Nat.succ_lt_succ hk)
  refine hget fun k hk => ?_
  rw [Nat.zero_add]
  exact dif_pos hk

theorem stringFrom_eq (hn : l.length < n) (hl : b.At i (l ++ 0 :: l')) :
    b.stringFrom n i = l.takeWhile (· ≠ 0) := by
  induction l generalizing n i with
  | nil =>
    obtain ⟨n, rfl⟩ := Nat.exists_eq_add_one.mpr hn
    exact if_pos hl.1
  | cons c l ih =>
    obtain ⟨n, rfl⟩ := Nat.exists_eq_add_one.mpr (Nat.zero_lt_of_lt hn)
    rw [stringFrom, hl.1, ih (Nat.lt_of_succ_lt_succ hn) hl.2]
    by_cases hz : c = 0
    · rw [if_pos hz, takeWhile_cons_of_neg (by simp [hz])]
    · rw [if_neg hz, takeWhile_cons_of_pos (by simp [hz])]

theorem at_stringFrom (b : Buffer) (n i : Nat) : 0 ∉ b.stringFrom n i ∧
    ((b.stringFrom n i).length < n → b.At i (b.stringFrom n i ++ [0])) := by
  induction n generalizing i with
  | zero => exact ⟨not_mem_nil, fun h => absurd h (Nat.not_lt_zero _)⟩
  | succ n ih =>
    obtain ⟨hne, hat⟩ := ih (i + 1)
    rw [stringFrom]
    split
    · exact ⟨not_mem_nil, fun _ => ⟨‹_›, trivial⟩⟩
    · rename_i hz
      refine ⟨?_, fun hlt => ⟨rfl, hat (Nat.lt_of_succ_lt_succ hlt)⟩⟩
      rw [mem_cons, not_or]
      exact ⟨fun h => hz h.symm, hne⟩

end At

theorem string_moveDown {b : Buffer} (hlong : 2 < b.string.length)
    (hlt : b.string.length < bufmax) :
    (b.moveDown 3 (b.string.length - 2) 3).string = b.string.drop 3 := by
  obtain ⟨hne, hat⟩ := b.at_stringFrom bufmax 0
  have hdrop : (b.string.drop 3).takeWhile (· ≠ 0) = b.string.drop 3 := by
    rw [takeWhile_eq_self_iff]
    intro c hc
    exact decide_eq_true fun hz => hne (hz ▸ mem_of_mem_drop hc)
  -- the NUL comes along
  have hrest : b.At (0 + 3) (b.string.drop 3 ++ [0]) := by
    have htake : (b.string.take 3).length = 3 := length_take_of_le hlong
    have hall : b.At 0 (b.string ++ [0]) := hat hlt
    rw [← take_append_drop 3 b.string, append_assoc, at_append, htake] at hall
    exact hall.2
  rw [← hdrop]
  refine stringFrom_eq (by rw [length_drop]; omega) (hrest.shift fun k _ hk => ?_)
  rw [length_append, length_drop, length_singleton] at hk
  rw [moveDown_apply (by decide) _ _ (by decide), if_pos (by omega)]

end Buffer

/-! ### `net_getpacket` -/

/-- `hex`. -/
def hex (ch : UInt8) : Int :=
  if 0x61 ≤ ch ∧ ch ≤ 0x66 then ch.toNat - 0x61 + 10
  else if 0x30 ≤ ch ∧ ch ≤ 0x39 then ch.toNat - 0x30
  else if 0x41 ≤ ch ∧ ch ≤ 0x46 then ch.toNat - 0x41 + 10
  else -1

/-- `xmitsum` from the two digits behind `#`, as an `unsigned char`. -/
def xmitsum (hi lo : UInt8) : UInt8 :=
  UInt8.ofInt (hex (hi &&& 0x7f) * 16) ||| UInt8.ofInt (hex (lo &&& 0x7f))

/-- What `recv` says: some bytes, nothing there yet, or another error. -/
inductive Received
  | data (bytes : List UInt8)
  | eagain
  | error

/-- The buffer, the flags of gdb.c, and what was sent with `net_putchar`. -/
structure Gdb where
  buffer : Buffer
  active : Bool
  attached : Bool
  running : Bool
  replies : List UInt8

/-- A turn of the loop: once more, with `ch` as it is, or a return. -/
inductive Turn
  | again (g : Gdb) (ch : UInt8)
  | returned (value : Int) (g : Gdb)

/-- The search for `#`: with `n` bytes left it gives `cnt`, `ch` and `chksum`. -/
def scan (b : Buffer) : Nat → Nat → UInt8 → UInt8 → Nat × UInt8 × UInt8
  | 0, cnt, ch, chksum => (cnt, ch, chksum)
  | n + 1, cnt, _, chksum =>
    if b cnt = 0x23 then (cnt, b cnt, chksum)
    else scan b n (cnt + 1) (b cnt) (chksum + b cnt)

/-- `buffer[0] = '?'; buffer[1] = '\0'; active = 1; return 0;` -/
def Gdb.simulate (g : Gdb) : Turn :=
  .returned 0 { g with buffer := (g.buffer.set 0 0x3f).set 1 0, active := true }

/-- A chunk that does not start with `$`. -/
def Gdb.onBreak (g : Gdb) (ch : UInt8) : Turn :=
  if !g.active && g.attached && g.running then { g with running := false }.simulate
  else
    let g := if g.active then g else { g with active := true, running := false }
    .again { g with attached := true } ch

/-- What a packet with the right checksum leaves in the buffer, and the answer:
the first two characters are a sequence number if a colon follows. -/
def Gdb.accept (g : Gdb) : Gdb :=
  let g := { g with replies := g.replies ++ [0x2b] }
  if g.buffer 2 = 0x3a then
    let cnt := g.buffer.string.length
    { g with
      replies := g.replies ++ [g.buffer 0, g.buffer 1]
      buffer := g.buffer.moveDown 3 (cnt - 2) 3 }
  else g

/-- The `#` was found at `cnt`. -/
def Gdb.finish (g : Gdb) (len cnt : Nat) (chksum : UInt8) : Turn :=
  let sum := xmitsum (g.buffer (cnt + 1)) (g.buffer (cnt + 2))
  let g := { g with buffer := (g.buffer.set cnt 0).moveDown 1 (len - 1) 1 }
  if chksum = sum then .returned 0 g.accept
  else .again { g with replies := g.replies ++ [0x2d] } 0x23

/-- One turn of `net_getpacket`, by what `recv` says. -/
def Gdb.turn (g : Gdb) (ch : UInt8) : Received → Turn
  | .eagain => if !g.active && g.attached && !g.running then g.simulate else .again g ch
  | .error => .returned (-1) g
  | .data bytes =>
    let len := bytes.length
    let g := { g with buffer := (g.buffer.fill bytes).set len 0 }
    if g.buffer 0 ≠ 0x24 then g.onBreak ch
    else
      let (cnt, ch, chksum) := scan g.buffer (len - 1) 1 ch 0
      -- `packet overrun`, which leaves the loop only for an empty sum
      if len < cnt then if chksum = 0 then .returned 0 g else .again g ch
      else if ch = 0x23 then g.finish len cnt chksum
      -- no `#`: the sum is compared with an `xmitsum` of 0
      else if chksum = 0 then .returned 0 g
      else .again g ch

/-! ### Packets -/

/-- `chksum` over the payload. -/
def checksum (payload : List UInt8) : UInt8 := payload.foldl (· + ·) 0

/-- A packet with the right checksum. -/
structure GdbPacket where
  payload : List UInt8
  hi : UInt8
  lo : UInt8
  short : payload.length ≤ bufmax - 5
  plain : ∀ c ∈ payload, c ≠ 0x24 ∧ c ≠ 0x23 ∧ c ≠ 0
  third : payload[2]? ≠ some 0x3a
  digits : hex hi ≠ -1 ∧ hex lo ≠ -1
  sum : xmitsum hi lo = checksum payload

/-- `$payload#hh`. -/
def GdbPacket.bytes (p : GdbPacket) : List UInt8 := 0x24 :: p.payload ++ [0x23, p.hi, p.lo]

theorem GdbPacket.length_bytes (p : GdbPacket) : p.bytes.length = p.payload.length + 4 := by
  rw [GdbPacket.bytes, cons_append, length_cons, length_append]
  rfl

/-- The search stops at the first `#` with the sum of what is before it. -/
theorem scan_eq {b : Buffer} {l rest : List UInt8} {n cnt : Nat} {ch chksum : UInt8}
    (hn : l.length < n) (hl : b.At cnt (l ++ 0x23 :: rest)) (hne : ∀ c ∈ l, c ≠ 0x23) :
    scan b n cnt ch chksum = (cnt + l.length, 0x23, l.foldl (· + ·) chksum) := by
  induction l generalizing n cnt ch chksum with
  | nil =>
    obtain ⟨n, rfl⟩ := Nat.exists_eq_add_one.mpr hn
    rw [scan, if_pos hl.1, hl.1]
    rfl
  | cons c l ih =>
    obtain ⟨n, rfl⟩ := Nat.exists_eq_add_one.mpr (Nat.zero_lt_of_lt hn)
    rw [scan, hl.1, if_neg (hne c mem_cons_self), ih (Nat.lt_of_succ_lt_succ hn) hl.2
      fun x hx => hne x (mem_cons_of_mem c hx), length_cons, foldl_cons, Nat.add_assoc,
      Nat.add_comm 1]

/-- What a packet leaves of its payload: it ends at a NUL, and a colon at index 2
takes three characters away, if it comes before the end. -/
def deliveredText (payload : List UInt8) : List UInt8 :=
  let text := payload.takeWhile (· ≠ 0)
  if payload[2]? = some 0x3a ∧ 2 < text.length then text.drop 3 else text

/-- A chunk with a `#`: the search stops there, with the bytes of the chunk in
the buffer and a NUL behind them. -/
theorem turn_hash (g : Gdb) (ch : UInt8) {payload rest bytes : List UInt8} {b : Buffer}
    (hbytes : bytes = 0x24 :: payload ++ 0x23 :: rest) (hplain : ∀ c ∈ payload, c ≠ 0x23)
    (hb : b = (g.buffer.fill bytes).set bytes.length 0) :
    g.turn ch (.data bytes) =
        Gdb.finish { g with buffer := b } bytes.length (1 + payload.length) (checksum payload) ∧
      b.At 1 (payload ++ 0x23 :: rest) := by
  have hlen : bytes.length = payload.length + rest.length + 2 := by
    rw [hbytes, cons_append, length_cons, length_append, length_cons]
    omega
  have hat : b.At 0 bytes := by
    rw [hb]
    exact (g.buffer.at_fill bytes).shift (d := 0) fun k _ hk => Buffer.set_of_ne (by omega)
  rw [hbytes] at hat
  obtain ⟨h0, hrest⟩ := hat
  have hscan : scan b (bytes.length - 1) 1 ch 0 = (1 + payload.length, 0x23, checksum payload) :=
    scan_eq (by omega) hrest hplain
  refine ⟨?_, hrest⟩
  rw [Gdb.turn]
  dsimp only
  rw [← hb, if_neg (not_not.mpr h0), hscan]
  dsimp only
  rw [if_neg (by omega), if_pos rfl]

/-- A payload at the start of the buffer, with a NUL and two hex digits behind
it. -/
structure Buffer.Holds (b : Buffer) (payload : List UInt8) (hi lo : UInt8) : Prop where
  short : payload.length < bufmax
  digits : hex hi ≠ -1 ∧ hex lo ≠ -1
  bytes : b.At 0 (payload ++ [0, hi, lo])

variable {payload : List UInt8} {hi lo : UInt8} {b : Buffer}

/-- The colon `accept` looks for is one of the payload: a shorter one has the NUL
or a digit at index 2. -/
theorem Buffer.Holds.colon_iff (h : b.Holds payload hi lo) :
    b 2 = 0x3a ↔ payload[2]? = some 0x3a := by
  have hdigit : hex 0x3a = -1 := by decide
  obtain ⟨-, ⟨hhi, hlo⟩, hat⟩ := h
  rcases payload with - | ⟨c₀, - | ⟨c₁, - | ⟨c₂, rest⟩⟩⟩
  all_goals
    obtain ⟨-, -, h2, -⟩ := hat
    change b 2 = _ at h2
    rw [h2]
  · exact iff_of_false (fun hc => hlo (hc ▸ hdigit)) nofun
  · exact iff_of_false (fun hc => hhi (hc ▸ hdigit)) nofun
  · exact iff_of_false (by decide) nofun
  · exact Option.some_inj.symm

theorem Buffer.Holds.string_eq (h : b.Holds payload hi lo) :
    b.string = payload.takeWhile (· ≠ 0) :=
  Buffer.stringFrom_eq h.short h.bytes

/-- What `accept` leaves of the payload. -/
theorem Buffer.Holds.string_accept (h : b.Holds payload hi lo) (g : Gdb) :
    (Gdb.accept { g with buffer := b }).buffer.string = deliveredText payload := by
  have hlt : b.string.length < bufmax := by
    rw [h.string_eq]
    exact Nat.lt_of_le_of_lt ( takeWhile_prefix _).length_le h.short
  rw [Gdb.accept, deliveredText, ← h.string_eq]
  dsimp only
  by_cases hc : payload[2]? = some 0x3a
  · rw [if_pos (h.colon_iff.mpr hc)]
    by_cases hlong : 2 < b.string.length
    · rw [if_pos ⟨hc, hlong⟩, Buffer.string_moveDown hlong hlt]
    · rw [if_neg fun hand => hlong hand.2, show b.string.length - 2 = 0 by omega]
      rfl
  · rw [if_neg fun hcolon => hc (h.colon_iff.mp hcolon), if_neg fun hand => hc hand.1]

/-- The buffer that `finish` looks at: everything one byte further down. -/
theorem holds_of_finish {bytes rest : List UInt8}
    (hlen : bytes.length = payload.length + rest.length + 4) (hshort : payload.length < bufmax)
    (hdigits : hex hi ≠ -1 ∧ hex lo ≠ -1)
    (hat : b.At 1 (payload ++ 0x23 :: hi :: lo :: rest)) :
    Buffer.Holds ((b.set (1 + payload.length) 0).moveDown 1 (bytes.length - 1) 1) payload hi lo := by
  have hcut : (b.set (1 + payload.length) 0).At (0 + 1) (payload ++ [0, hi, lo]) := by
    obtain ⟨hpay, -, hhi, hlo, -⟩ := Buffer.at_append.mp hat
    refine Buffer.at_append.mpr ⟨?_, b.set_self _ 0, ?_, ?_, trivial⟩
    · exact hpay.shift (d := 0) fun k _ hk => Buffer.set_of_ne (by omega)
    · exact (Buffer.set_of_ne (by omega)).trans hhi
    · exact (Buffer.set_of_ne (by omega)).trans hlo
  refine ⟨hshort, hdigits, hcut.shift fun k _ hk => ?_⟩
  rw [length_append, length_cons, length_cons, length_singleton] at hk
  rw [Buffer.moveDown_apply (by decide) _ _ (by decide), if_pos (by omega)]

/-- **A chunk with two hex digits behind its first `#`** is accepted if they are
the checksum, and answered with a `-` if they are not. -/
theorem turn_frame (g : Gdb) (ch : UInt8) (bytes rest : List UInt8)
    (hbytes : bytes = 0x24 :: payload ++ 0x23 :: hi :: lo :: rest)
    (hplain : ∀ c ∈ payload, c ≠ 0x23) (hdigits : hex hi ≠ -1 ∧ hex lo ≠ -1)
    (hshort : payload.length < bufmax) :
    ∃ b : Buffer, b.Holds payload hi lo ∧ g.turn ch (.data bytes) =
      if checksum payload = xmitsum hi lo then .returned 0 (Gdb.accept { g with buffer := b })
      else .again { g with buffer := b, replies := g.replies ++ [0x2d] } 0x23 := by
  obtain ⟨b, hb⟩ : ∃ b, b = (g.buffer.fill bytes).set bytes.length 0 := ⟨_, rfl⟩
  obtain ⟨hturn, hat⟩ := turn_hash g ch hbytes hplain hb
  have hlen : bytes.length = payload.length + rest.length + 4 := by
    rw [hbytes]
    simp only [cons_append, length_cons, length_append]
    omega
  refine ⟨_, holds_of_finish hlen hshort hdigits hat, ?_⟩
  rw [hturn, Gdb.finish]
  dsimp only
  obtain ⟨-, -, hhi, hlo, -⟩ := Buffer.at_append.mp hat
  rw [Nat.add_assoc _ 1 1] at hlo
  simp only [hhi, hlo]

/-- **A packet in a chunk of its own** is accepted and delivered. -/
theorem turn_packet (g : Gdb) (ch : UInt8) (p : GdbPacket) :
    ∃ g', g.turn ch (.data p.bytes) = .returned 0 g' ∧ g'.buffer.string = p.payload ∧
      g'.replies = g.replies ++ [0x2b] := by
  have hshort : p.payload.length < bufmax := by
    have := p.short
    rw [bufmax] at *
    omega
  obtain ⟨b, hb, hturn⟩ := turn_frame g ch p.bytes [] rfl
    (fun c hc => (p.plain c hc).2.1) p.digits hshort
  rw [if_pos p.sum.symm] at hturn
  refine ⟨_, hturn, ?_, ?_⟩
  · have hself : p.payload.takeWhile (· ≠ 0) = p.payload :=
      takeWhile_eq_self_iff.mpr fun c hc => decide_eq_true (p.plain c hc).2.2
    rw [hb.string_accept, deliveredText, if_neg fun hand => p.third hand.1, hself]
  · rw [Gdb.accept, if_neg fun hc => p.third (hb.colon_iff.mp hc)]

/-! ### The link -/

/-- The bytes of packets sent one after the other. -/
def stream (packets : List GdbPacket) : List UInt8 := packets.flatMap GdbPacket.bytes

/-- Both ends: what was sent, how many of its bytes `recv` has returned, the
stub, the call of `net_getpacket` that is running with its `ch`, and the strings
that calls have delivered. -/
structure GdbLink where
  sent : List GdbPacket
  received : Nat
  gdb : Gdb
  call : Option UInt8
  delivered : List (List UInt8)

def GdbLink.start (buffer : Buffer) : GdbLink where
  sent := []
  received := 0
  gdb := ⟨buffer, false, false, false, []⟩
  call := none
  delivered := []

inductive LinkAction
  /-- The debugger sends a packet. -/
  | send (p : GdbPacket)
  /-- `net_getpacket` is called; `ch` is not initialised. -/
  | call (ch : UInt8)
  /-- `recv` returns the next bytes of the stream. -/
  | recv (n : Nat)
  /-- `recv` finds nothing. -/
  | eagain
  /-- Commands and interrupts set the flags. -/
  | flags (active attached running : Bool)

/-- A turn of the running call. -/
def GdbLink.take (s : GdbLink) : Turn → GdbLink
  | .again g ch => { s with gdb := g, call := some ch }
  | .returned value g =>
    { s with
      gdb := g
      call := none
      delivered := if value = 0 then s.delivered ++ [g.buffer.string] else s.delivered }

def linkStep (s : GdbLink) : LinkAction → Option GdbLink
  | .send p => some { s with sent := s.sent ++ [p] }
  | .call ch =>
    match s.call with
    | some _ => none
    | none => some { s with call := some ch }
  | .recv n =>
    match s.call with
    | none => none
    | some ch =>
      if 1 ≤ n ∧ n ≤ bufmax ∧ s.received + n ≤ (stream s.sent).length then
        some ({ s with received := s.received + n }.take
          (s.gdb.turn ch (.data (((stream s.sent).drop s.received).take n))))
      else none
  | .eagain =>
    match s.call with
    | none => none
    | some ch => some (s.take (s.gdb.turn ch .eagain))
  | .flags active attached running =>
    some { s with gdb := { s.gdb with active := active, attached := attached, running := running } }

/-- `recv` returns the next packet, whole and alone, and finds nothing only
while the program is not stopped by itself. -/
def GdbLink.onePacket (s : GdbLink) : LinkAction → Prop
  | .recv n => ∃ k < s.sent.length, s.received = (stream (s.sent.take k)).length ∧
      (s.sent[k]?).map (fun p => p.bytes.length) = some n
  | .eagain => ¬ (s.gdb.active = false ∧ s.gdb.attached = true ∧ s.gdb.running = false)
  | .send _ | .call _ | .flags _ _ _ => True

instance (s : GdbLink) (a : LinkAction) : Decidable (s.onePacket a) := by
  cases a <;> dsimp only [GdbLink.onePacket] <;> infer_instance

variable {s s' : GdbLink}

/-- What was received is whole packets, and they are what was delivered. -/
def GdbLink.InStep (s : GdbLink) : Prop :=
  ∃ k ≤ s.sent.length, s.received = (stream (s.sent.take k)).length ∧
    s.delivered = (s.sent.take k).map GdbPacket.payload

theorem stream_append (xs ys : List GdbPacket) : stream (xs ++ ys) = stream xs ++ stream ys :=
  flatMap_append

theorem stream_take_inj {packets : List GdbPacket} {j k : Nat} (hj : j ≤ packets.length)
    (hk : k ≤ packets.length)
    (h : (stream (packets.take j)).length = (stream (packets.take k)).length) : j = k := by
  -- a longer prefix has the bytes of one packet more at least
  have hlt : ∀ {i j : Nat}, i < j → j ≤ packets.length →
      (stream (packets.take i)).length < (stream (packets.take j)).length := by
    intro i j hij hle
    have hsplit : packets.take j = packets.take i ++ (packets.drop i).take (j - i) := by
      rw [← take_add]
      congr 1
      omega
    obtain ⟨p, ps, hps⟩ : ∃ p ps, (packets.drop i).take (j - i) = p :: ps := by
      refine exists_cons_of_ne_nil fun hnil => ?_
      have hlen := congrArg List.length hnil
      rw [length_take, length_drop, length_nil] at hlen
      omega
    rw [hsplit, hps, stream_append, length_append]
    have hpos := p.length_bytes
    have hcons : stream (p :: ps) = p.bytes ++ stream ps := flatMap_cons
    rw [hcons, length_append]
    omega
  rcases Nat.lt_trichotomy j k with hjk | hjk | hjk
  · exact absurd h (Nat.ne_of_lt (hlt hjk hk))
  · exact hjk
  · exact absurd h.symm (Nat.ne_of_lt (hlt hjk hj))

theorem take_drop_stream {packets : List GdbPacket} {k : Nat} {p : GdbPacket}
    (hp : packets[k]? = some p) :
    (((stream packets).drop (stream (packets.take k)).length).take p.bytes.length) = p.bytes := by
  obtain ⟨hk, hget⟩ := List.getElem?_eq_some_iff.mp hp
  have hsplit : packets = packets.take k ++ p :: packets.drop (k + 1) := by
    rw [← hget, ← drop_eq_getElem_cons hk, take_append_drop]
  have hstream : stream packets =
      stream (packets.take k) ++ (p.bytes ++ stream (packets.drop (k + 1))) := by
    conv_lhs => rw [hsplit, stream_append]
    rfl
  rw [hstream, drop_left, take_left]

theorem GdbLink.InStep.recv {n : Nat} {ch : UInt8} (h : s.InStep) (hg : s.onePacket (.recv n)) :
    ({ s with received := s.received + n }.take
      (s.gdb.turn ch (.data (((stream s.sent).drop s.received).take n)))).InStep := by
  obtain ⟨k, hk, hrec, hn⟩ := hg
  obtain ⟨j, hj, hrecj, hdel⟩ := h
  obtain ⟨p, hp, hlen⟩ := Option.map_eq_some_iff.mp hn
  obtain rfl := stream_take_inj hj (Nat.le_of_lt hk) (hrecj.symm.trans hrec)
  obtain ⟨g', hturn, hstring, -⟩ := turn_packet s.gdb ch p
  have htake : s.sent.take (j + 1) = s.sent.take j ++ [p] := by
    rw [take_add_one, hp]
    rfl
  rw [hrec, ← hlen, take_drop_stream hp, hturn]
  refine ⟨j + 1, hk, ?_, ?_⟩
  · change _ = (stream (s.sent.take (j + 1))).length
    have hone : stream [p] = p.bytes := append_nil p.bytes
    rw [htake, stream_append, length_append, hone]
    rfl
  · change s.delivered ++ [g'.buffer.string] = (s.sent.take (j + 1)).map GdbPacket.payload
    rw [htake, map_append, hdel, hstring]
    rfl

theorem GdbLink.InStep.send (h : s.InStep) (p : GdbPacket) :
    GdbLink.InStep { s with sent := s.sent ++ [p] } := by
  obtain ⟨k, hk, hrec, hdel⟩ := h
  have htake : (s.sent ++ [p]).take k = s.sent.take k := take_append_of_le_length hk
  refine ⟨k, Nat.le_trans hk (by simp), ?_, ?_⟩
  · exact htake ▸ hrec
  · exact htake ▸ hdel

theorem turn_eagain {g : Gdb} (ch : UInt8)
    (h : ¬ (g.active = false ∧ g.attached = true ∧ g.running = false)) :
    g.turn ch .eagain = .again g ch := by
  have hno : ¬ (!g.active && g.attached && !g.running) = true := by
    rw [Bool.and_eq_true, Bool.and_eq_true, Bool.not_eq_true', Bool.not_eq_true', and_assoc]
    exact h
  rw [Gdb.turn, if_neg hno]

theorem GdbLink.InStep.step {a : LinkAction} (h : s.InStep) (hg : s.onePacket a)
    (hs : linkStep s a = some s') : s'.InStep := by
  cases a with
  | send p =>
    cases hs
    exact h.send p
  | call ch =>
    rw [linkStep] at hs
    split at hs <;> cases hs
    exact h
  | recv n =>
    rw [linkStep] at hs
    split at hs
    · cases hs
    · split at hs <;> cases hs
      exact h.recv hg
  | eagain =>
    rw [linkStep] at hs
    split at hs <;> cases hs
    rw [turn_eagain _ hg]
    exact h
  | flags active attached running =>
    cases hs
    exact h

/-- **Packets are delivered.**  When each packet comes in a chunk of its own,
the strings that calls of `net_getpacket` have delivered are at any time the
payloads of the packets received, in order; and all of them once the stream is
received. -/
theorem delivered_of_reach {buffer : Buffer}
    (hrun : Reach linkStep GdbLink.onePacket (.start buffer) s) :
    (∃ k ≤ s.sent.length, s.received = (stream (s.sent.take k)).length ∧
      s.delivered = (s.sent.take k).map GdbPacket.payload) ∧
    (s.received = (stream s.sent).length → s.delivered = s.sent.map GdbPacket.payload) := by
  have h : s.InStep := hrun.invariant ⟨0, Nat.zero_le _, rfl, rfl⟩ fun _ _ _ hI hg hs => hI.step hg hs
  refine ⟨h, fun hall => ?_⟩
  obtain ⟨k, hk, hrec, hdel⟩ := h
  have hend : (stream (s.sent.take s.sent.length)).length = (stream (s.sent.take k)).length := by
    rw [take_length, ← hall, hrec]
  obtain rfl := stream_take_inj (Nat.le_refl _) hk hend
  rw [hdel, take_length]

/-- `$a#61`. -/
def packetA : GdbPacket :=
  ⟨[0x61], 0x36, 0x31, by decide, by simp, by decide, by decide, by decide⟩

/-- `$b#62`. -/
def packetB : GdbPacket :=
  ⟨[0x62], 0x36, 0x32, by decide, by simp, by decide, by decide, by decide⟩

/-- Two packets, each in its chunk. -/
def twoChunks : List LinkAction :=
  [.send packetA, .call 0, .eagain, .recv 5, .send packetB, .call 0, .recv 5]

theorem delivered_twoChunks :
    ∃ s, Reach linkStep GdbLink.onePacket (.start fun _ => 0) s ∧
      s.sent.map GdbPacket.payload = [[0x61], [0x62]] ∧
      s.delivered = s.sent.map GdbPacket.payload := by
  exact exists_reach_imp twoChunks (fun s => s.sent.map GdbPacket.payload = [[0x61], [0x62]] ∧
      s.received = (stream s.sent).length) (by decide +kernel)
    fun s hreach ⟨hsent, hall⟩ => ⟨hsent, (delivered_of_reach hreach).2 hall⟩

/-- Two packets in one chunk. -/
def oneChunk : List LinkAction := [.send packetA, .send packetB, .call 0, .recv 10]

/-- The second packet of a chunk is received and not delivered. -/
theorem second_packet_lost :
    ∃ s, Reach linkStep (fun _ _ => True) (.start fun _ => 0) s ∧
      s.received = (stream s.sent).length ∧
      s.sent.map GdbPacket.payload = [[0x61], [0x62]] ∧ s.delivered = [[0x61]] := by
  exact exists_reach oneChunk (by decide +kernel)

end LibXenon
