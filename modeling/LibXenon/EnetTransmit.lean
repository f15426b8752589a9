/-
LibXenon/EnetTransmit.lean

Sending frames: `enet_linkoutput` and `tx_data` of enet.c.

`enet_linkoutput` copies a frame into the buffer of the next descriptor, and
`tx_data` then waits until that descriptor is free and fills it.  So with all
16 descriptors taken the copy goes into a buffer that still waits to be sent.

* While no call starts with the next descriptor taken, the chip sends the
  frames that were submitted, in order (`wire_of_reach`).
* A seventeenth frame takes the place of the first (`first_frame_overwritten`).

A pbuf is a list of bytes and a chain a list of them.  One `memcpy`, one store to
a descriptor and one access of the chip are one step each; `Q0_START` and the
cache are not modelled, so the chip may look at any time.
-/
import LibXenon.Enet
import LibXenon.Transition

namespace LibXenon

open Function Transition ByteMemory Handover List

/-- The places in `tx_data`. -/
inductive TxLine
  | waitEmptyTx
  | length
  | address
  | limit
  | status
  | advance
  deriving DecidableEq, Repr

/-- Where a call of `enet_linkoutput` is, with its pbuf chain. -/
inductive Linkoutput
  | idle
  /-- `offset` bytes are copied, and the pbufs from `q` on are left. -/
  | copying (p : List (List UInt8)) (offset : Nat) (q : List (List UInt8))
  | txData (p : List (List UInt8)) (line : TxLine)
  deriving DecidableEq

/-- Driver, descriptors and buffers, and the chip: its descriptor and what it
has read of it, the frames on the wire and the frames submitted. -/
structure Transmit where
  mem : Nat → UInt8
  descriptor : Nat → Descriptor
  wptr : Nat
  call : Linkoutput
  position : Nat
  latch : Option (List UInt8)
  wire : List (List UInt8)
  submitted : List (List UInt8)

/-- After `tx_init`. -/
def Transmit.start (mem : Nat → UInt8) : Transmit where
  mem := mem
  descriptor i := ⟨0, 0, 0, if i ≠ descriptorNum - 1 then 0 else 0x80000000⟩
  wptr := 0
  call := .idle
  position := 0
  latch := none
  wire := []
  submitted := []

def Transmit.owned (s : Transmit) (i : Nat) : Prop := (s.descriptor i).owned = true

instance Transmit.decidableOwned (s : Transmit) (i : Nat) : Decidable (s.owned i) :=
  inferInstanceAs (Decidable (_ = true))

def Transmit.setDescriptor (s : Transmit) (i : Nat) (d : Descriptor) : Transmit :=
  { s with descriptor := update s.descriptor i d }

section Steps

variable (area : EnetArea)

/-- A line of `tx_data` for the descriptor at `wptr`. -/
def Transmit.txData (s : Transmit) (p : List (List UInt8)) : TxLine → Option Transmit
  | .waitEmptyTx => if s.owned s.wptr then none else some { s with call := .txData p .length }
  | .length =>
    some { s.setDescriptor s.wptr
      { s.descriptor s.wptr with length := BitVec.ofNat 32 p.flatten.length } with
        call := .txData p .address }
  | .address =>
    some { s.setDescriptor s.wptr
      { s.descriptor s.wptr with address := BitVec.ofNat 32 (virtToPhys (area.buffer s.wptr)) } with
        call := .txData p .limit }
  | .limit =>
    some { s.setDescriptor s.wptr
      { s.descriptor s.wptr with limit := limitWord p.flatten.length s.wptr } with
        call := .txData p .status }
  | .status =>
    some { s.setDescriptor s.wptr { s.descriptor s.wptr with status := 0xc0230000 } with
      call := .txData p .advance }
  | .advance => some { s with wptr := (s.wptr + 1) % descriptorNum, call := .idle }

inductive TransmitAction
  /-- `enet_linkoutput` is called. -/
  | linkoutput (p : List (List UInt8))
  /-- The call goes on. -/
  | driver
  /-- The chip reads the buffer of its descriptor. -/
  | read
  /-- The chip has sent what it read, and gives the descriptor back. -/
  | sent

def transmitStep (s : Transmit) : TransmitAction → Option Transmit
  | .linkoutput p =>
    match s.call with
    | .idle =>
      if p.flatten.length ≤ mtu then
        some { s with call := .copying p 0 p, submitted := s.submitted ++ [p.flatten] }
      else none
    | .copying _ _ _ | .txData _ _ => none
  | .driver =>
    match s.call with
    | .idle => none
    | .copying p _ [] => some { s with call := .txData p .waitEmptyTx }
    | .copying p offset (payload :: q) =>
      some { s with
        mem := store s.mem (virtToPhys (area.buffer s.wptr + offset)) payload
        call := .copying p (offset + payload.length) q }
    | .txData p line => s.txData area p line
  | .read =>
    match s.latch with
    | some _ => none
    | none =>
      if s.owned s.position then
        some { s with latch := some (load s.mem (s.descriptor s.position).address.toNat
          (s.descriptor s.position).length.toNat) }
      else none
  | .sent =>
    match s.latch with
    | none => none
    | some frame =>
      some { s.setDescriptor s.position (s.descriptor s.position).release with
        position := (s.descriptor s.position).next s.position
        latch := none
        wire := s.wire ++ [frame] }

end Steps

/-- No call starts with the next descriptor taken. -/
def Transmit.free (s : Transmit) : TransmitAction → Prop
  | .linkoutput _ => ¬ s.owned s.wptr
  | .driver | .read | .sent => True

instance (s : Transmit) (a : TransmitAction) : Decidable (s.free a) := by
  cases a <;> dsimp only [Transmit.free] <;> infer_instance

/-! ### The queue -/

variable {area : EnetArea} {mem : Nat → UInt8} {desc : Nat → Descriptor}
variable {frame : List UInt8}

/-- The descriptor and its buffer have this frame. -/
structure Ready (area : EnetArea) (mem : Nat → UInt8) (d : Descriptor) (i : Nat)
    (frame : List UInt8) : Prop where
  short : frame.length ≤ 1528
  length : d.length = BitVec.ofNat 32 frame.length
  address : d.address = BitVec.ofNat 32 (area.phys i)
  limit : d.limit = limitWord frame.length i
  bytes : load mem (area.phys i) frame.length = frame

/-- The descriptors of the chip, from its own on, have these frames. -/
def TxQueue (area : EnetArea) (mem : Nat → UInt8) (desc : Nat → Descriptor) (position : Nat)
    (q : List (List UInt8)) : Prop :=
  Occupied 16 (fun i => (desc i).owned = true) (fun i => Ready area mem (desc i) i) position q

variable {position i : Nat} {q : List (List UInt8)}

theorem TxQueue.store (h : TxQueue area mem desc position q) (hi : i < 16)
    (hfree : ¬ (desc i).owned = true) {offset : Nat} {payload : List UInt8}
    (hfit : offset + payload.length ≤ 1528) :
    TxQueue area (ByteMemory.store mem (area.phys i + offset) payload) desc position q := by
  refine h.congr (fun _ _ => Iff.rfl) fun j hj howned frame hready => ?_
  -- what the chip has still to read is in another buffer
  have hne : j ≠ i := fun heq => hfree (heq ▸ howned)
  refine ⟨hready.short, hready.length, hready.address, hready.limit, ?_⟩
  have hshort := hready.short
  rw [load_store_apart, hready.bytes]
  rcases phys_apart area hj hi hne with hlow | hhigh
  · exact .inl (by omega)
  · exact .inr (by omega)

theorem TxQueue.setFree (h : TxQueue area mem desc position q) (hfree : ¬ (desc i).owned = true)
    {d : Descriptor} (hstatus : d.status = (desc i).status) :
    TxQueue area mem (update desc i d) position q := by
  have howned : d.owned = (desc i).owned := by rw [Descriptor.owned, Descriptor.owned, hstatus]
  refine h.congr (fun j _ => update_cases (by rw [howned]) (fun _ _ => Iff.rfl) j)
    fun j _ hj frame hready => ?_
  rw [update_of_ne fun heq : j = i => hfree (heq ▸ hj)]
  exact hready

theorem TxQueue.put (h : TxQueue area mem desc position q)
    (hi : i = slot 16 position q.length) (hfree : ¬ (desc i).owned = true)
    (hready : Ready area mem (desc i) i frame) :
    TxQueue area mem (update desc i { desc i with status := 0xc0230000 }) position
      (q ++ [frame]) := by
  refine Occupied.put h (hi ▸ hfree) (fun j _ => ?_) ?_ fun j _ hj y hy => ?_
  · have hset : bit31 0xc0230000 = true := by decide
    rw [← hi]
    exact update_cases (iff_of_true hset (.inr rfl)) (fun j hne => (or_iff_left hne).symm) j
  · rw [← hi, update_self]
    exact ⟨hready.short, hready.length, hready.address, hready.limit, hready.bytes⟩
  · rw [update_of_ne fun heq : j = i => hfree (heq ▸ hj)]
    exact hy

theorem TxQueue.take (h : TxQueue area mem desc position (frame :: q)) :
    TxQueue area mem (update desc position (desc position).release)
      ((desc position).next position) q := by
  have hready : Ready area mem (desc position) position frame := h.holds_tail
  have hshort := hready.short
  -- the chip goes by bit 31 of the limit word, which only the last descriptor has
  rw [next_eq_slot (by omega) h.tail_lt hready.limit]
  refine Occupied.take h (fun j _ => ?_) fun j _ hj y hy => ?_
  · refine update_cases ?_ (fun j hne => (and_iff_left hne).symm) j
    rw [owned_release]
    exact iff_of_false Bool.false_ne_true fun hand => hand.2 rfl
  · have hne : j ≠ position := by
      rintro rfl
      rw [update_self, owned_release] at hj
      cases hj
    rw [update_of_ne hne]
    exact hy

/-! ### The invariant -/

/-- The words of a descriptor that are written before a line. -/
def Written (area : EnetArea) (d : Descriptor) (i len : Nat) : TxLine → Prop
  | .waitEmptyTx | .length | .advance => True
  | .address => d.length = BitVec.ofNat 32 len
  | .limit => d.length = BitVec.ofNat 32 len ∧ d.address = BitVec.ofNat 32 (area.phys i)
  | .status => d.length = BitVec.ofNat 32 len ∧ d.address = BitVec.ofNat 32 (area.phys i) ∧
      d.limit = limitWord len i

/-- The descriptor at `wptr` is free and comes next, and the frame of the call
fits. -/
structure Next (desc : Nat → Descriptor) (wptr position : Nat) (p q : List (List UInt8)) : Prop where
  next : wptr = slot 16 position q.length
  free : ¬ (desc wptr).owned = true
  short : p.flatten.length ≤ 1528

/-- What a call has done, with `q` handed over; and the frame it still has. -/
def InCall (area : EnetArea) (s : Transmit) (q : List (List UInt8)) :
    Linkoutput → List (List UInt8) → Prop
  | .idle, hand => hand = [] ∧ s.wptr = slot 16 s.position q.length
  | .copying p offset rest, hand =>
    hand = [p.flatten] ∧ Next s.descriptor s.wptr s.position p q ∧
      ∃ done, p.flatten = done ++ rest.flatten ∧ offset = done.length ∧
        load s.mem (area.phys s.wptr) done.length = done
  | .txData _ .advance, hand => hand = [] ∧ slot 16 s.wptr 1 = slot 16 s.position q.length
  | .txData p line, hand =>
    hand = [p.flatten] ∧ Next s.descriptor s.wptr s.position p q ∧
      load s.mem (area.phys s.wptr) p.flatten.length = p.flatten ∧
      Written area (s.descriptor s.wptr) s.wptr p.flatten.length line

/-- The chip has the frames that were handed over, and read the first. -/
structure Transmit.Sound (area : EnetArea) (s : Transmit) (q hand : List (List UInt8)) : Prop where
  queue : TxQueue area s.mem s.descriptor s.position q
  submitted : s.submitted = s.wire ++ (q ++ hand)
  wptr : s.wptr < 16
  latch : ∀ frame, s.latch = some frame → ∃ rest, q = frame :: rest
  call : InCall area s q s.call hand

variable {s s' : Transmit} {hand p rest : List (List UInt8)}

theorem Transmit.Sound.start (mem : Nat → UInt8) :
    Transmit.Sound area (.start mem) [] [] where
  queue := Occupied.nil (Nat.zero_lt_succ 15) fun i _ h => by
    change bit31 0 = true at h
    revert h
    decide
  submitted := rfl
  wptr := Nat.zero_lt_succ 15
  latch _ h := nomatch h
  call := ⟨rfl, rfl⟩

theorem Transmit.Sound.linkoutput (h : s.Sound area q hand) (hidle : s.call = .idle)
    (hfree : ¬ s.owned s.wptr) (hshort : p.flatten.length ≤ 1528) :
    Transmit.Sound area { s with
      call := .copying p 0 p, submitted := s.submitted ++ [p.flatten] } q [p.flatten] := by
  have hcall := h.call
  rw [hidle] at hcall
  obtain ⟨rfl, hnext⟩ := hcall
  refine ⟨h.queue, ?_, h.wptr, h.latch, rfl, ⟨hnext, hfree, hshort⟩, [], rfl, rfl, rfl⟩
  rw [h.submitted, append_nil, append_assoc]

theorem Transmit.Sound.copy {offset : Nat} {payload : List UInt8} (h : s.Sound area q hand)
    (hcall : s.call = .copying p offset (payload :: rest)) :
    Transmit.Sound area { s with
      mem := store s.mem (virtToPhys (area.buffer s.wptr + offset)) payload
      call := .copying p (offset + payload.length) rest } q hand := by
  have hc := h.call
  rw [hcall] at hc
  obtain ⟨hhand, hnext, done, hsplit, hoff, hload⟩ := hc
  have hlen : p.flatten.length = done.length + (payload.length + rest.flatten.length) := by
    rw [hsplit, flatten_cons, length_append, length_append]
  have hshort := hnext.short
  rw [virtToPhys_buffer area h.wptr (by omega)]
  -- `done` is what is in the buffer so far, and grows by the payload
  refine ⟨h.queue.store h.wptr hnext.free (by omega), h.submitted, h.wptr, h.latch, hhand,
    ⟨hnext.next, hnext.free, hnext.short⟩, done ++ payload, ?_, ?_, ?_⟩
  · rw [hsplit, flatten_cons, append_assoc]
  · rw [length_append, hoff]
  · rw [length_append, hoff]
    exact load_store_append hload

theorem Transmit.Sound.copied {offset : Nat} (h : s.Sound area q hand)
    (hcall : s.call = .copying p offset []) :
    Transmit.Sound area { s with call := .txData p .waitEmptyTx } q hand := by
  have hc := h.call
  rw [hcall] at hc
  obtain ⟨hhand, hnext, done, hsplit, hoff, hload⟩ := hc
  rw [flatten_nil, append_nil] at hsplit
  refine ⟨h.queue, h.submitted, h.wptr, h.latch, hhand, ⟨hnext.next, hnext.free, hnext.short⟩, ?_,
    trivial⟩
  rw [hsplit]
  exact hload

theorem inCall_txData {line : TxLine} (hline : line ≠ .advance) :
    InCall area s q (.txData p line) hand ↔
      hand = [p.flatten] ∧ Next s.descriptor s.wptr s.position p q ∧
        load s.mem (area.phys s.wptr) p.flatten.length = p.flatten ∧
        Written area (s.descriptor s.wptr) s.wptr p.flatten.length line := by
  cases line with
  | waitEmptyTx | length | address | limit | status => exact Iff.rfl
  | advance => exact absurd rfl hline

section

variable (h : s.Sound area q hand)
include h

/-- A line of `tx_data` that writes one word of the descriptor, or none. -/
theorem Transmit.Sound.setWord {line line' : TxLine}
    (hcall : s.call = .txData p line) (hline : line ≠ .advance) (hline' : line' ≠ .advance)
    {d : Descriptor} (hstatus : d.status = (s.descriptor s.wptr).status)
    (hwritten : Written area (s.descriptor s.wptr) s.wptr p.flatten.length line →
      Written area d s.wptr p.flatten.length line') :
    Transmit.Sound area { s.setDescriptor s.wptr d with call := .txData p line' } q hand := by
  have hc := h.call
  rw [hcall, inCall_txData hline] at hc
  obtain ⟨hhand, hnext, hload, hold⟩ := hc
  have hself : update s.descriptor s.wptr d s.wptr = d := update_self ..
  have howned : d.owned = (s.descriptor s.wptr).owned := by
    rw [Descriptor.owned, Descriptor.owned, hstatus]
  refine ⟨h.queue.setFree hnext.free hstatus, h.submitted, h.wptr, h.latch,
    (inCall_txData hline').mpr ⟨hhand, ⟨hnext.next, ?_, hnext.short⟩, hload, ?_⟩⟩
  · change ¬ (update s.descriptor s.wptr d s.wptr).owned = true
    rw [hself, howned]
    exact hnext.free
  · change Written area (update s.descriptor s.wptr d s.wptr) _ _ _
    rw [hself]
    exact hwritten hold

theorem Transmit.Sound.handOver (hcall : s.call = .txData p .status) :
    Transmit.Sound area { s.setDescriptor s.wptr
      { s.descriptor s.wptr with status := 0xc0230000 } with call := .txData p .advance }
      (q ++ [p.flatten]) [] := by
  have hc := h.call
  rw [hcall] at hc
  obtain ⟨rfl, hnext, hload, hlength, haddress, hlimit⟩ := hc
  refine ⟨h.queue.put hnext.next hnext.free ⟨hnext.short, hlength, haddress, hlimit, hload⟩, ?_,
    h.wptr, fun frame hl => ?_, rfl, ?_⟩
  · rw [append_nil]
    exact h.submitted
  · obtain ⟨rest, hq⟩ := h.latch frame hl
    exact ⟨rest ++ [p.flatten], by rw [hq]; rfl⟩
  · change slot 16 s.wptr 1 = slot 16 s.position (q ++ [p.flatten]).length
    rw [hnext.next, slot_slot, length_append]
    rfl

theorem Transmit.Sound.advance (hcall : s.call = .txData p .advance) :
    Transmit.Sound area { s with wptr := (s.wptr + 1) % descriptorNum, call := .idle } q hand := by
  have hc := h.call
  rw [hcall] at hc
  exact ⟨h.queue, h.submitted, Nat.mod_lt _ (by decide), h.latch, hc⟩

/-- A line of `tx_data`. -/
theorem Transmit.Sound.txData {line : TxLine}
    (hcall : s.call = .txData p line) (hs : s.txData area p line = some s') :
    ∃ q hand, s'.Sound area q hand := by
  cases line with
  | waitEmptyTx =>
    rw [Transmit.txData] at hs
    split at hs
    · cases hs
    · cases hs
      -- the wait writes no word
      have hset : Transmit.Sound area { s.setDescriptor s.wptr (s.descriptor s.wptr) with
          call := .txData p .length } q hand :=
        h.setWord hcall (by decide) (by decide) rfl id
      have hsame : s.setDescriptor s.wptr (s.descriptor s.wptr) = s := by
        rw [Transmit.setDescriptor, update_eq_self]
      rw [hsame] at hset
      exact ⟨q, hand, hset⟩
  | length =>
    cases hs
    exact ⟨q, hand, h.setWord hcall (by decide) (by decide) rfl fun _ => rfl⟩
  | address =>
    cases hs
    exact ⟨q, hand, h.setWord hcall (by decide) (by decide) rfl fun hold => ⟨hold, rfl⟩⟩
  | limit =>
    cases hs
    exact ⟨q, hand, h.setWord hcall (by decide) (by decide) rfl fun hold =>
      ⟨hold.1, hold.2, rfl⟩⟩
  | status =>
    cases hs
    exact ⟨_, _, h.handOver hcall⟩
  | advance =>
    cases hs
    exact ⟨q, hand, h.advance hcall⟩

theorem Transmit.Sound.read (howned : s.owned s.position) :
    Transmit.Sound area { s with latch := some (load s.mem
      (s.descriptor s.position).address.toNat (s.descriptor s.position).length.toNat) } q hand := by
  obtain ⟨frame, rest, hq⟩ : ∃ frame rest, q = frame :: rest :=
    exists_cons_of_ne_nil (h.queue.full_tail_iff.mp howned)
  subst hq
  have hready : Ready area s.mem (s.descriptor s.position) s.position frame := h.queue.holds_tail
  have hshort := hready.short
  have hlen : (s.descriptor s.position).length.toNat = frame.length := by
    rw [hready.length, BitVec.toNat_ofNat]
    omega
  refine ⟨h.queue, h.submitted, h.wptr, fun frame' hl => ?_, h.call⟩
  rw [hready.address, toNat_phys, hlen, hready.bytes] at hl
  cases hl
  exact ⟨rest, rfl⟩

end

theorem Next.sent {wptr : Nat} (howned : (desc position).owned = true)
    (h : Next desc wptr position p (frame :: q)) :
    update desc position (desc position).release wptr = desc wptr ∧
      Next (update desc position (desc position).release) wptr (slot 16 position 1) p q := by
  have hne : wptr ≠ position := fun heq => h.free (heq ▸ howned)
  have hsame : update desc position (desc position).release wptr = desc wptr :=
    update_of_ne hne ..
  refine ⟨hsame, ?_, ?_, h.short⟩
  · rw [slot_succ]
    exact h.next
  · rw [hsame]
    exact h.free

theorem Transmit.Sound.sent (h : s.Sound area q hand) (hlatch : s.latch = some frame) :
    ∃ rest, Transmit.Sound area { s.setDescriptor s.position (s.descriptor s.position).release with
      position := (s.descriptor s.position).next s.position
      latch := none
      wire := s.wire ++ [frame] } rest hand := by
  obtain ⟨rest, rfl⟩ := h.latch frame hlatch
  have hready : Ready area s.mem (s.descriptor s.position) s.position frame := h.queue.holds_tail
  have hshort := hready.short
  have howned : (s.descriptor s.position).owned = true :=
    h.queue.full_tail_iff.mpr (cons_ne_nil frame rest)
  have hposition := next_eq_slot (by omega) h.queue.tail_lt hready.limit
  refine ⟨rest, h.queue.take, ?_, h.wptr, nofun, ?_⟩
  · rw [append_assoc]
    exact h.submitted
  · rw [hposition]
    have hc := h.call
    change InCall area _ rest s.call hand
    -- the driver may be anywhere in a call, always on another descriptor
    rcases hcall : s.call with - | ⟨p, offset, q⟩ | ⟨p, line⟩
    · rw [hcall] at hc
      refine ⟨hc.1, ?_⟩
      rw [slot_succ]
      exact hc.2
    · rw [hcall] at hc
      obtain ⟨hhand, hnext, hdone⟩ := hc
      exact ⟨hhand, (hnext.sent howned).2, hdone⟩
    · rw [hcall] at hc
      by_cases hline : line = .advance
      · subst hline
        refine ⟨hc.1, ?_⟩
        rw [slot_succ]
        exact hc.2
      · rw [inCall_txData hline] at hc ⊢
        obtain ⟨hhand, hnext, hload, hwritten⟩ := hc
        obtain ⟨hsame, hnext'⟩ := hnext.sent howned
        refine ⟨hhand, hnext', hload, ?_⟩
        change Written area (update s.descriptor s.position _ s.wptr) _ _ _
        rw [hsame]
        exact hwritten

theorem Transmit.Sound.step {a : TransmitAction} (h : s.Sound area q hand) (hg : s.free a)
    (hs : transmitStep area s a = some s') : ∃ q hand, s'.Sound area q hand := by
  cases a with
  | linkoutput p =>
    rcases hcall : s.call with - | ⟨p', offset, q'⟩ | ⟨p', line⟩
    all_goals rw [transmitStep, hcall] at hs
    · dsimp only at hs
      split at hs
      · cases hs
        exact ⟨q, _, h.linkoutput hcall hg ‹_›⟩
      · cases hs
    · cases hs
    · cases hs
  | driver =>
    rcases hcall : s.call with - | ⟨p, offset, rest⟩ | ⟨p, line⟩
    all_goals rw [transmitStep, hcall] at hs
    · cases hs
    · rcases rest with - | ⟨payload, rest⟩
      · cases hs
        exact ⟨q, hand, h.copied hcall⟩
      · cases hs
        exact ⟨q, hand, h.copy hcall⟩
    · exact h.txData hcall hs
  | read =>
    rcases hlatch : s.latch with - | frame
    all_goals rw [transmitStep, hlatch] at hs
    · dsimp only at hs
      split at hs
      · cases hs
        exact ⟨q, hand, h.read ‹_›⟩
      · cases hs
    · cases hs
  | sent =>
    rcases hlatch : s.latch with - | frame
    all_goals rw [transmitStep, hlatch] at hs
    · cases hs
    · cases hs
      obtain ⟨rest, hsent⟩ := h.sent hlatch
      exact ⟨rest, hand, hsent⟩

/-! ### Runs -/

theorem sound_of_reach (hrun : Reach (transmitStep area) Transmit.free (.start mem) s) :
    ∃ q hand, s.Sound area q hand := by
  induction hrun with
  | refl => exact ⟨[], [], Transmit.Sound.start mem⟩
  | tail _ hg hs ih =>
    obtain ⟨q, hand, h⟩ := ih
    exact h.step hg hs

/-- **Frames are sent as submitted.**  While no call starts with the next
descriptor taken: what is on the wire is a first part of what was submitted,
and all of it once no call runs and the chip has no descriptor; and a call never
writes a buffer whose descriptor is the chip's. -/
theorem wire_of_reach (hrun : Reach (transmitStep area) Transmit.free (.start mem) s) :
    s.wire <+: s.submitted ∧
      (s.call = .idle → (∀ i < 16, ¬ s.owned i) → s.wire = s.submitted) ∧
      ∀ p offset q, s.call = .copying p offset q → ¬ s.owned s.wptr := by
  obtain ⟨q, hand, h⟩ := sound_of_reach hrun
  refine ⟨⟨q ++ hand, h.submitted.symm⟩, fun hidle hnone => ?_, fun p offset rest hcall => ?_⟩
  · have hc := h.call
    rw [hidle] at hc
    have hq : q = [] := by
      by_contra hne
      exact hnone s.position h.queue.tail_lt (h.queue.full_tail_iff.mpr hne)
    rw [h.submitted, hq, hc.1, append_nil, append_nil]
  · have hc := h.call
    rw [hcall] at hc
    exact hc.2.1.free

/-- An area at the start of the memory. -/
def lowArea : EnetArea := ⟨2 ^ 31, by decide, by decide⟩

/-- Seventeen frames of two pbufs; the chip sends one before the last is submitted, and
then the others. -/
def wholeRing : List TransmitAction :=
  (List.range 16).flatMap (fun k => .linkoutput [[UInt8.ofNat k], [7, 8]] ::
      List.replicate 9 .driver) ++
    [.read, .sent, .linkoutput [[16], [7, 8]]] ++ List.replicate 9 .driver ++
    (List.replicate 16 [.read, .sent]).flatten

theorem wire_wholeRing :
    ∃ s, Reach (transmitStep lowArea) Transmit.free (.start fun _ => 0) s ∧
      s.wire.length = 17 ∧ s.wire = s.submitted := by
  exact exists_reach_imp wholeRing
    (fun s => s.wire.length = 17 ∧ s.call = .idle ∧ ∀ i < 16, ¬ s.owned i) (by decide +kernel)
    fun s hreach ⟨hlen, hidle, hnone⟩ => ⟨hlen, (wire_of_reach hreach).2.1 hidle hnone⟩

/-- Sixteen frames of one byte, a seventeenth while the chip has not looked at
the first, and then the chip. -/
def seventeenFrames : List TransmitAction :=
  (List.range 16).flatMap (fun k => .linkoutput [[UInt8.ofNat k]] :: List.replicate 8 .driver) ++
    [.linkoutput [[16]], .driver, .read, .sent]

/-- The buffer of the first frame is overwritten while its descriptor is the
chip's, and the chip sends the seventeenth in its place. -/
theorem first_frame_overwritten :
    ∃ s, Reach (transmitStep lowArea) (fun _ _ => True) (.start fun _ => 0) s ∧
      s.submitted.head? = some [0] ∧ s.wire = [[16]] := by
  exact exists_reach seventeenFrames (by decide +kernel)

end LibXenon
