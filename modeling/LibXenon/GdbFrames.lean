/-
LibXenon/GdbFrames.lean

Which chunks `net_getpacket` takes for a packet.

A frame is `$`, a payload without `#`, a `#` and two hex digits, and anything
behind that.  A chunk that is a frame is accepted exactly if the digits are the
checksum of the payload (`turn_frame`), and what is delivered is the payload up
to its first NUL, without an `xx:` in front (`deliveredText`).

But the test at the end of the loop is only `chksum == xmitsum`, and other
chunks pass it.  Without a `#` the two sums are compared as they are, with
`xmitsum` still 0.  A `#` at the end is compared with the NUL behind the chunk
and an old byte of the buffer; and `hex` gives -1 for what is no digit, which
makes the sum 0xFF or 0xF0 and the second digit.

`accepted_iff_frame` says for which of the accepted chunks all is as it should
be.
-/
import LibXenon.GdbPacket

namespace LibXenon

/-! ### Frames -/

/-- `$payload#hh` and what follows. -/
structure GdbFrame where
  payload : List UInt8
  hi : UInt8
  lo : UInt8
  rest : List UInt8
  plain : ∀ c ∈ payload, c ≠ 0x23
  digits : hex hi ≠ -1 ∧ hex lo ≠ -1

def GdbFrame.bytes (f : GdbFrame) : List UInt8 :=
  0x24 :: f.payload ++ 0x23 :: f.hi :: f.lo :: f.rest

/-- What the two digits say. -/
def GdbFrame.value (f : GdbFrame) : Int := hex f.hi * 16 + hex f.lo

/-- A payload minus an `xx:` in front. -/
def withoutSequence (payload : List UInt8) : List UInt8 :=
  if payload[2]? = some 0x3a then payload.drop 3 else payload

theorem deliveredText_eq {payload : List UInt8} (h : 0 ∉ payload) :
    deliveredText payload = withoutSequence payload := by
  have hself : payload.takeWhile (· ≠ 0) = payload :=
    List.takeWhile_eq_self_iff.mpr fun c hc => decide_eq_true fun hz => h (hz ▸ hc)
  rw [deliveredText, withoutSequence, hself]
  by_cases hc : payload[2]? = some 0x3a
  · have hlong : 2 < payload.length := (List.getElem?_eq_some_iff.mp hc).1
    rw [if_pos ⟨hc, hlong⟩, if_pos hc]
  · rw [if_neg fun hand => hc hand.1, if_neg hc]

/-! ### Digits -/

theorem hex_digit {c : UInt8} (h : hex c ≠ -1) :
    c &&& 0x7f = c ∧ ∃ n : Fin 16, hex c = (n.val : Int) := by
  have hall : ∀ i : Fin 256, hex (.ofNat i.val) ≠ -1 →
      UInt8.ofNat i.val &&& 0x7f = .ofNat i.val ∧
        ∃ n : Fin 16, hex (.ofNat i.val) = (n.val : Int) := by decide +kernel
  have hc := hall ⟨c.toNat, c.toNat_lt⟩
  rw [UInt8.ofNat_toNat] at hc
  exact hc h

/-- `xmitsum` is the value of the digits. -/
theorem toNat_xmitsum {hi lo : UInt8} (h : hex hi ≠ -1 ∧ hex lo ≠ -1) :
    ((xmitsum hi lo).toNat : Int) = hex hi * 16 + hex lo := by
  obtain ⟨hhi, a, ha⟩ := hex_digit h.1
  obtain ⟨hlo, b, hb⟩ := hex_digit h.2
  rw [xmitsum, hhi, hlo, ha, hb]
  have hall : ∀ a b : Fin 16, ((UInt8.ofInt ((a.val : Int) * 16) ||| UInt8.ofInt (b.val : Int)).toNat
      : Int) = (a.val : Int) * 16 + (b.val : Int) := by decide
  exact hall a b

theorem GdbFrame.value_eq_iff (f : GdbFrame) :
    f.value = (checksum f.payload).toNat ↔ checksum f.payload = xmitsum f.hi f.lo := by
  rw [GdbFrame.value, ← toNat_xmitsum f.digits, Int.ofNat_inj, UInt8.toNat_inj]
  exact eq_comm

/-! ### Accepted chunks -/

variable {g g' : Gdb} {ch : UInt8} {bytes : List UInt8}

theorem GdbFrame.accepted (f : GdbFrame) (hlen : f.bytes.length < bufmax)
    (hacc : g.turn ch (.data f.bytes) = .returned 0 g') :
    f.value = (checksum f.payload).toNat ∧ g'.buffer.string = deliveredText f.payload := by
  have hshort : f.payload.length < bufmax := by
    rw [GdbFrame.bytes, List.length_append, List.length_cons] at hlen
    omega
  obtain ⟨b, hb, hturn⟩ := turn_frame g ch f.bytes _ rfl f.plain f.digits hshort
  rw [hacc] at hturn
  by_cases hsum : checksum f.payload = xmitsum f.hi f.lo
  · rw [if_pos hsum] at hturn
    obtain ⟨-, rfl⟩ := Turn.returned.inj hturn
    exact ⟨f.value_eq_iff.mpr hsum, hb.string_accept g⟩
  · rw [if_neg hsum] at hturn
    cases hturn

/-- **Accepted chunks.**  A chunk of less than 2048 bytes that is accepted is a
frame with the right checksum, delivered as it should be, exactly if it is a
frame at all and its payload is not cut short by a NUL; that a payload has none is
enough (`deliveredText_eq`). -/
theorem accepted_iff_frame (hlen : bytes.length < bufmax)
    (hacc : g.turn ch (.data bytes) = .returned 0 g') :
    (∃ f : GdbFrame, bytes = f.bytes ∧ f.value = (checksum f.payload).toNat ∧
        g'.buffer.string = withoutSequence f.payload) ↔
      ∃ f : GdbFrame, bytes = f.bytes ∧ deliveredText f.payload = withoutSequence f.payload := by
  constructor
  · rintro ⟨f, rfl, -, hstring⟩
    exact ⟨f, rfl, (f.accepted hlen hacc).2.symm.trans hstring⟩
  · rintro ⟨f, rfl, htext⟩
    obtain ⟨hvalue, hstring⟩ := f.accepted hlen hacc
    exact ⟨f, rfl, hvalue, hstring.trans htext⟩

/-- The stub with an empty buffer. -/
def idleGdb : Gdb := ⟨fun _ => 0, false, false, false, []⟩

/-- `$12:a#fe`, with a sequence number, and bytes behind it. -/
def frameWithSequence : GdbFrame :=
  ⟨[0x31, 0x32, 0x3a, 0x61], 0x66, 0x65, [0x24, 0x62], by decide +kernel, by decide⟩

theorem accepted_withSequence :
    ∃ g', idleGdb.turn 0 (.data frameWithSequence.bytes) = .returned 0 g' ∧
      ∃ f : GdbFrame, frameWithSequence.bytes = f.bytes ∧
        f.value = (checksum f.payload).toNat ∧ g'.buffer.string = withoutSequence f.payload := by
  obtain ⟨b, -, hturn⟩ := turn_frame idleGdb 0 frameWithSequence.bytes _ rfl
    frameWithSequence.plain frameWithSequence.digits (by decide)
  exact ⟨_, hturn, (accepted_iff_frame (by decide) hturn).mpr
    ⟨frameWithSequence, rfl, deliveredText_eq (by decide)⟩⟩

/-- What a turn delivers. -/
def Turn.delivered : Turn → Option (List UInt8)
  | .again _ _ => none
  | .returned value g => if value = 0 then some g.buffer.string else none

/-- Three chunks that are accepted: a `$` alone, `$` 0xFF `#zz`, and a frame with
a NUL in its payload, `$a` NUL `b#c3`, of which `a` is delivered. -/
theorem chunks_accepted_wrongly :
    ((idleGdb.turn 0 (.data [0x24])).delivered = some [0x24] ∧
      ¬ ∃ f : GdbFrame, [0x24] = f.bytes) ∧
    ((idleGdb.turn 0 (.data [0x24, 0xff, 0x23, 0x7a, 0x7a])).delivered = some [0xff] ∧
      ¬ ∃ f : GdbFrame, [0x24, 0xff, 0x23, 0x7a, 0x7a] = f.bytes) ∧
    (idleGdb.turn 0 (.data [0x24, 0x61, 0, 0x62, 0x23, 0x63, 0x33])).delivered = some [0x61] := by
  refine ⟨⟨by decide +kernel, ?_⟩, ⟨by decide +kernel, ?_⟩, by decide +kernel⟩
  · rintro ⟨f, hf⟩
    rw [GdbFrame.bytes] at hf
    simp at hf
  · rintro ⟨⟨payload, hi, lo, rest, hplain, hdigits⟩, hf⟩
    -- the payload is the 0xFF, so the first digit is a `z`
    rw [GdbFrame.bytes] at hf
    rcases payload with - | ⟨a, - | ⟨b, payload⟩⟩
    · simp at hf
    · simp only [List.cons_append, List.nil_append, List.cons.injEq] at hf
      exact hdigits.1 (hf.2.2.2.1 ▸ rfl)
    · simp only [List.cons_append, List.cons.injEq] at hf
      exact hplain b (by simp) hf.2.2.1.symm

end LibXenon
