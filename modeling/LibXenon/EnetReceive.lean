/-
LibXenon/EnetReceive.lean

Receiving frames: `rx_init` and `enet_linkinput` of enet.c.

The chip owns all descriptors at the start.  It stores a frame and its length
and gives the descriptor back; `enet_linkinput` copies the frame into a chain of
pbufs, as long as the frame in sum, and makes the descriptor the chip's again.

For every interleaving the results of the calls are the frames in the order they
came, with their bytes, where `pbuf_alloc` gave a chain, and the chip never
writes a buffer that is not copied yet (`frames_of_reach`).

A call that finds no frame returns NULL too; such results are left out of
`returned`.  What `pbuf_alloc` gives is chosen from outside: NULL, or any pbufs
whose lengths add up to the size asked for.
-/
import LibXenon.Bits
import LibXenon.Enet
import LibXenon.Transition

namespace LibXenon

open Function Transition ByteMemory Handover List

/-- The stores that reclaim a descriptor, in their order. -/
inductive RxLine
  | address
  | limit
  | length
  | status
  | advance
  deriving DecidableEq, Repr

/-- Where a call of `enet_linkinput` is. -/
inductive Linkinput
  | idle
  | checkOwnership
  | readSize
  | pbufAlloc (size : Nat)
  /-- The pbufs in `p` are filled with `rptr` bytes, and pbufs of the lengths
  `len` are left. -/
  | copying (p : List (List UInt8)) (rptr : Nat) (len : List Nat)
  | reclaim (p : Option (List (List UInt8))) (line : RxLine)

/-- Driver, descriptors and buffers, and the chip: its descriptor, the frame it
has stored there, and the frames it has given to the driver.  `failed` has an
entry for each `pbuf_alloc`, `returned` the results of the calls that found a
frame, and `uncopied` says which buffers have a frame that no call has copied or
dropped. -/
structure Receive where
  mem : Nat → UInt8
  descriptor : Nat → Descriptor
  rptr : Nat
  call : Linkinput
  position : Nat
  stored : Option (List UInt8)
  received : List (List UInt8)
  failed : List Bool
  returned : List (Option (List (List UInt8)))
  uncopied : Nat → Bool

section Steps

variable (area : EnetArea)

/-- After `rx_init`. -/
def Receive.start (mem : Nat → UInt8) : Receive where
  mem := mem
  descriptor i := ⟨0, 0xc0000000, BitVec.ofNat 32 (virtToPhys (area.buffer i)), limitWord mtu i⟩
  rptr := 0
  call := .idle
  position := 0
  stored := none
  received := []
  failed := []
  returned := []
  uncopied _ := false

def Receive.owned (s : Receive) (i : Nat) : Prop := (s.descriptor i).owned = true

instance Receive.decidableOwned (s : Receive) (i : Nat) : Decidable (s.owned i) :=
  inferInstanceAs (Decidable (_ = true))

def Receive.setDescriptor (s : Receive) (i : Nat) (d : Descriptor) : Receive :=
  { s with descriptor := update s.descriptor i d }

/-- The frame at `rptr` is copied, or given up. -/
def Receive.done (s : Receive) (p : Option (List (List UInt8))) : Receive :=
  { s with call := .reclaim p .address, uncopied := update s.uncopied s.rptr false }

/-- A line that reclaims the descriptor at `rptr`. -/
def Receive.reclaim (s : Receive) (p : Option (List (List UInt8))) : RxLine → Receive
  | .address =>
    { s.setDescriptor s.rptr
      { s.descriptor s.rptr with address := BitVec.ofNat 32 (virtToPhys (area.buffer s.rptr)) } with
        call := .reclaim p .limit }
  | .limit =>
    { s.setDescriptor s.rptr { s.descriptor s.rptr with limit := limitWord mtu s.rptr } with
      call := .reclaim p .length }
  | .length =>
    { s.setDescriptor s.rptr { s.descriptor s.rptr with length := 0 } with
      call := .reclaim p .status }
  | .status =>
    { s.setDescriptor s.rptr { s.descriptor s.rptr with status := 0xc0000000 } with
      call := .reclaim p .advance }
  | .advance =>
    { s with
      rptr := (s.rptr + 1) % descriptorNum, call := .idle, returned := s.returned ++ [p] }

inductive ReceiveAction
  /-- `enet_linkinput` is called. -/
  | linkinput
  /-- The call goes on. -/
  | driver
  /-- `pbuf_alloc` returns NULL or pbufs of these lengths. -/
  | alloc (result : Option (List Nat))
  /-- The chip stores a frame and its length. -/
  | store (frame : List UInt8)
  /-- The chip gives the descriptor to the driver. -/
  | give

def receiveStep (s : Receive) : ReceiveAction → Option Receive
  | .linkinput =>
    match s.call with
    | .idle => some { s with call := .checkOwnership }
    | .checkOwnership | .readSize | .pbufAlloc _ | .copying _ _ _ | .reclaim _ _ => none
  | .driver =>
    match s.call with
    | .idle | .pbufAlloc _ => none
    | .checkOwnership =>
      if s.owned s.rptr then some { s with call := .idle } else some { s with call := .readSize }
    | .readSize =>
      some { s with call := .pbufAlloc ((s.descriptor s.rptr).length &&& 0xffff).toNat }
    | .copying p _ [] => some (s.done (some p))
    | .copying p rptr (n :: len) =>
      let payload := load s.mem (virtToPhys (area.buffer s.rptr + rptr)) n
      some { s with call := .copying (p ++ [payload]) (rptr + n) len }
    | .reclaim p line => some (s.reclaim area p line)
  | .alloc result =>
    match s.call with
    | .pbufAlloc size =>
      match result with
      | none => some { s.done none with failed := s.failed ++ [true] }
      | some len =>
        if len.sum = size then
          some { s with call := .copying [] 0 len, failed := s.failed ++ [false] }
        else none
    | .idle | .checkOwnership | .readSize | .copying _ _ _ | .reclaim _ _ => none
  | .store frame =>
    match s.stored with
    | some _ => none
    | none =>
      if s.owned s.position ∧ frame.length ≤ mtu then
        some { s.setDescriptor s.position
          { s.descriptor s.position with length := BitVec.ofNat 32 frame.length } with
            mem := ByteMemory.store s.mem (s.descriptor s.position).address.toNat frame
            stored := some frame }
      else none
  | .give =>
    match s.stored with
    | none => none
    | some frame =>
      some { s.setDescriptor s.position (s.descriptor s.position).release with
        position := (s.descriptor s.position).next s.position
        stored := none
        received := s.received ++ [frame]
        uncopied := update s.uncopied s.position true }

end Steps

/-! ### The queue -/

variable {area : EnetArea} {mem : Nat → UInt8} {desc : Nat → Descriptor} {i tail : Nat}
  {frame : List UInt8} {q : List (List UInt8)} {uncopied : Nat → Bool}

/-- The buffer has this frame, and the descriptor its length. -/
structure StoredFrame (area : EnetArea) (mem : Nat → UInt8) (d : Descriptor) (i : Nat)
    (frame : List UInt8) : Prop where
  short : frame.length ≤ 1528
  length : d.length = BitVec.ofNat 32 frame.length
  bytes : load mem (area.phys i) frame.length = frame

/-- The buffers that are not copied, from `tail` on. -/
def RxQueue (area : EnetArea) (mem : Nat → UInt8) (desc : Nat → Descriptor) (uncopied : Nat → Bool)
    (tail : Nat) (q : List (List UInt8)) : Prop :=
  Occupied 16 (fun i => uncopied i = true) (fun i => StoredFrame area mem (desc i) i) tail q

theorem RxQueue.setDescriptor (h : RxQueue area mem desc uncopied tail q)
    (hi : uncopied i = false) (d : Descriptor) :
    RxQueue area mem (update desc i d) uncopied tail q := by
  refine h.congr (fun _ _ => Iff.rfl) fun j _ hj frame hstored => ?_
  rw [update_of_ne fun heq : j = i => Bool.false_ne_true (hi.symm.trans (heq ▸ hj))]
  exact hstored

theorem RxQueue.store (h : RxQueue area mem desc uncopied tail q) (hi : i < 16)
    (hcopied : uncopied i = false) (hshort : frame.length ≤ 1528) :
    RxQueue area (ByteMemory.store mem (area.phys i) frame) desc uncopied tail q := by
  refine h.congr (fun _ _ => Iff.rfl) fun j hj hfull frame' hstored => ?_
  have hne : j ≠ i := fun heq =>
    Bool.false_ne_true (hcopied.symm.trans (heq ▸ hfull))
  have hshort' := hstored.short
  refine ⟨hstored.short, hstored.length, ?_⟩
  rw [load_store_apart, hstored.bytes]
  rcases phys_apart area hj hi hne with hlow | hhigh
  · exact .inl (by omega)
  · exact .inr (by omega)

theorem RxQueue.put (h : RxQueue area mem desc uncopied tail q) (hi : i = slot 16 tail q.length)
    (hcopied : uncopied i = false) (hstored : StoredFrame area mem (desc i) i frame) {d : Descriptor}
    (hlength : d.length = (desc i).length) :
    RxQueue area mem (update desc i d) (update uncopied i true) tail
      (q ++ [frame]) := by
  have hfree : ¬ uncopied i = true := by
    rw [hcopied]
    exact Bool.false_ne_true
  refine Occupied.put h (hi ▸ hfree) (fun j _ => ?_) ?_ fun j _ hj y hy => ?_
  · rw [← hi]
    exact update_cases (iff_of_true rfl (.inr rfl)) (fun j hne => (or_iff_left hne).symm) j
  · rw [← hi, update_self]
    exact ⟨hstored.short, hlength.trans hstored.length, hstored.bytes⟩
  · rw [update_of_ne fun heq : j = i => hfree (heq ▸ hj)]
    exact hy

theorem RxQueue.take (h : RxQueue area mem desc uncopied tail (frame :: q)) :
    RxQueue area mem desc (update uncopied tail false) (slot 16 tail 1) q := by
  refine Occupied.take h (fun j _ => ?_) fun j _ _ y hy => hy
  exact update_cases (iff_of_false nofun fun hboth => hboth.2 rfl)
    (fun j hne => (and_iff_left hne).symm) j

/-! ### The invariant -/

/-- The results of the calls against the frames they were for. -/
structure Answers (returned : List (Option (List (List UInt8)))) (taken : List (List UInt8)) :
    Prop where
  length : returned.length = taken.length
  bytes : ∀ (k : Nat) (p : List (List UInt8)),
    returned[k]? = some (some p) → taken[k]? = some p.flatten

variable {returned : List (Option (List (List UInt8)))} {failed : List Bool}
  {taken : List (List UInt8)}
variable {p : Option (List (List UInt8))}

theorem Answers.append (h : Answers returned taken)
    (hp : ∀ chain, p = some chain → chain.flatten = frame) :
    Answers (returned ++ [p]) (taken ++ [frame]) := by
  refine ⟨?_, fun k chain hk => ?_⟩
  · rw [length_append, length_append, h.length]
    rfl
  · rcases Nat.lt_trichotomy k returned.length with hlt | heq | hgt
    · rw [List.getElem?_append_left hlt] at hk
      rw [List.getElem?_append_left (h.length ▸ hlt)]
      exact h.bytes k chain hk
    · rw [heq, List.getElem?_concat_length] at hk
      rw [heq, h.length, List.getElem?_concat_length, hp chain (Option.some.inj hk)]
    · rw [List.getElem?_eq_none (by rw [length_append, length_singleton]; omega)] at hk
      cases hk

/-- Every descriptor has its buffer and its place in the ring. -/
def LaidOut (area : EnetArea) (desc : Nat → Descriptor) : Prop :=
  ∀ i < 16, (desc i).address = BitVec.ofNat 32 (area.phys i) ∧ (desc i).limit = limitWord 1528 i

theorem LaidOut.update (h : LaidOut area desc) {d : Descriptor}
    (hd : d.address = BitVec.ofNat 32 (area.phys i) ∧ d.limit = limitWord 1528 i) :
    LaidOut area (update desc i d) :=
  update_cases (fun _ => hd) fun j _ => h j

/-- The descriptor at `rptr` is neither the chip's nor waited for. -/
def Linkinput.reclaiming : Linkinput → Prop
  | .reclaim _ line => line ≠ .advance
  | .idle | .checkOwnership | .readSize | .pbufAlloc _ | .copying _ _ _ => False

/-- The first buffer that is not copied. -/
def tailOf (rptr : Nat) : Linkinput → Nat
  | .reclaim _ _ => slot 16 rptr 1
  | .idle | .checkOwnership | .readSize | .pbufAlloc _ | .copying _ _ _ => rptr

/-- What a call has done, with the frames `taken` and the frames `q` waiting. -/
def InInput (returned : List (Option (List (List UInt8)))) (failed : List Bool)
    (taken q : List (List UInt8)) : Linkinput → Prop
  | .idle | .checkOwnership => Answers returned taken ∧ failed = returned.map Option.isNone
  | .readSize => (Answers returned taken ∧ failed = returned.map Option.isNone) ∧ q ≠ []
  | .pbufAlloc size => (Answers returned taken ∧ failed = returned.map Option.isNone) ∧
      ∃ frame rest, q = frame :: rest ∧ size = frame.length
  | .copying p offset len => Answers returned taken ∧ failed = returned.map Option.isNone ++ [false] ∧
      ∃ frame rest, q = frame :: rest ∧ p.flatten = frame.take offset ∧
        offset + len.sum = frame.length
  | .reclaim p _ => ∃ done frame, taken = done ++ [frame] ∧ Answers returned done ∧
      failed = returned.map Option.isNone ++ [p.isNone] ∧
        ∀ chain, p = some chain → chain.flatten = frame

structure Receive.Sound (area : EnetArea) (s : Receive) (taken q : List (List UInt8)) : Prop where
  queue : RxQueue area s.mem s.descriptor s.uncopied (tailOf s.rptr s.call) q
  position : s.position = slot 16 (tailOf s.rptr s.call) q.length
  rptr : s.rptr < 16
  layout : LaidOut area s.descriptor
  owned : ∀ i < 16, (s.descriptor i).owned = true ↔
    s.uncopied i = false ∧ ¬ (s.call.reclaiming ∧ i = s.rptr)
  copied : s.call.reclaiming → s.uncopied s.rptr = false
  stored : ∀ frame, s.stored = some frame →
    (s.descriptor s.position).owned = true ∧
      StoredFrame area s.mem (s.descriptor s.position) s.position frame
  received : s.received = taken ++ q
  call : InInput s.returned s.failed taken q s.call

variable {s s' : Receive}

theorem Receive.Sound.start (mem : Nat → UInt8) : Receive.Sound area (.start area mem) [] [] where
  queue := Occupied.nil (Nat.zero_lt_succ 15) fun _ _ => Bool.false_ne_true
  position := rfl
  rptr := Nat.zero_lt_succ 15
  layout _ _ := ⟨rfl, rfl⟩
  owned i _ := by
    have hset : bit31 0xc0000000 = true := by decide
    exact ⟨fun _ => ⟨rfl, And.left⟩, fun _ => hset⟩
  copied h := h.elim
  stored _ h := nomatch h
  received := rfl
  call := ⟨⟨rfl, nofun⟩, rfl⟩

theorem Receive.Sound.position_lt (h : s.Sound area taken q) : s.position < 16 := by
  rw [h.position]
  exact slot_lt h.queue.tail_lt _

/-- A step that only moves the call on, with `rptr` as it was. -/
theorem Receive.Sound.moveOn (h : s.Sound area taken q) {at' call : Linkinput}
    (hat : s.call = at') (hrec : ¬ at'.reclaiming) (hrec' : ¬ call.reclaiming)
    (htail : tailOf s.rptr call = tailOf s.rptr at') {failed : List Bool}
    (hcall : InInput s.returned failed taken q call) :
    Receive.Sound area { s with call := call, failed := failed } taken q := by
  subst hat
  refine ⟨?_, ?_, h.rptr, h.layout, fun i hi => ?_, fun hc => absurd hc hrec', h.stored,
    h.received, hcall⟩
  · dsimp only
    rw [htail]
    exact h.queue
  · dsimp only
    rw [htail]
    exact h.position
  · dsimp only
    rw [h.owned i hi]
    exact ⟨fun hc => ⟨hc.1, fun hr => hrec' hr.1⟩, fun hc => ⟨hc.1, fun hr => hrec hr.1⟩⟩

/-- The frame at `rptr` leaves the queue. -/
theorem Receive.Sound.done {rest : List (List UInt8)} (h : s.Sound area taken (frame :: rest))
    {at' : Linkinput} (hat : s.call = at') (hrec : ¬ at'.reclaiming)
    (htail : tailOf s.rptr at' = s.rptr) {failed : List Bool} (hanswers : Answers s.returned taken)
    (hfailed : failed = s.returned.map Option.isNone ++ [p.isNone])
    (hp : ∀ chain, p = some chain → chain.flatten = frame) :
    Receive.Sound area { s.done p with failed := failed } (taken ++ [frame]) rest := by
  subst hat
  have hqueue := h.queue
  have hposition := h.position
  rw [htail] at hqueue hposition
  have hfull : s.uncopied s.rptr = true := hqueue.full_tail_iff.mpr (cons_ne_nil frame rest)
  -- from here on the descriptor is nobody's, until its status is stored
  have hline : RxLine.address ≠ .advance := by decide
  refine ⟨hqueue.take, ?_, h.rptr, h.layout, fun i hi => ?_, fun _ => update_self ..,
    h.stored, ?_, taken, frame, rfl, hanswers, hfailed, hp⟩
  · change s.position = slot 16 (slot 16 s.rptr 1) rest.length
    rw [slot_succ]
    exact hposition
  · change (s.descriptor i).owned = true ↔
      update s.uncopied s.rptr false i = false ∧ ¬ (RxLine.address ≠ .advance ∧ i = s.rptr)
    rw [h.owned i hi]
    by_cases hir : i = s.rptr
    · rw [hir, hfull]
      exact ⟨fun hc => absurd hc.1.symm Bool.false_ne_true, fun hc => absurd ⟨hline, rfl⟩ hc.2⟩
    · rw [update_of_ne hir]
      exact ⟨fun hc => ⟨hc.1, fun hr => hir hr.2⟩, fun hc => ⟨hc.1, fun hr => hrec hr.1⟩⟩
  · change s.received = taken ++ [frame] ++ rest
    rw [append_assoc]
    exact h.received

/-! ### The driver's steps -/

section

variable (h : s.Sound area taken q)
include h

theorem Receive.Sound.checkOwnership (hcall : s.call = .checkOwnership)
    (howned : ¬ s.owned s.rptr) :
    Receive.Sound area { s with call := .readSize } taken q := by
  have hc := h.call
  have hqueue := h.queue
  have howned' := h.owned s.rptr h.rptr
  rw [hcall] at hc hqueue howned'
  have hfull : s.uncopied s.rptr = true := by
    rw [← Bool.not_eq_false]
    exact fun hfalse => howned (howned'.mpr ⟨hfalse, fun hr => hr.1⟩)
  exact h.moveOn hcall id id (by rfl) ⟨hc, hqueue.full_tail_iff.mp hfull⟩

theorem Receive.Sound.readSize (hcall : s.call = .readSize) :
    Receive.Sound area { s with
      call := .pbufAlloc ((s.descriptor s.rptr).length &&& 0xffff).toNat } taken q := by
  have hc := h.call
  have hqueue := h.queue
  rw [hcall] at hc hqueue
  obtain ⟨hanswers, hne⟩ := hc
  obtain ⟨frame, rest, rfl⟩ := exists_cons_of_ne_nil hne
  have hstored : StoredFrame area s.mem (s.descriptor s.rptr) s.rptr frame := hqueue.holds_tail
  have hshort := hstored.short
  have hsize : ((s.descriptor s.rptr).length &&& 0xffff).toNat = frame.length := by
    rw [Bits.toNat_and_mask (k := 16) rfl, hstored.length, BitVec.toNat_ofNat]
    omega
  refine h.moveOn hcall id id (by rfl) ?_
  exact ⟨hanswers, frame, rest, rfl, hsize⟩

theorem Receive.Sound.allocated {size : Nat} {len : List Nat}
    (hcall : s.call = .pbufAlloc size) (hsum : len.sum = size) :
    Receive.Sound area { s with call := .copying [] 0 len, failed := s.failed ++ [false] }
      taken q := by
  have hc := h.call
  rw [hcall] at hc
  obtain ⟨⟨hanswers, hfailed⟩, frame, rest, hq, hsize⟩ := hc
  refine h.moveOn hcall id id (by rfl) ?_
  refine ⟨hanswers, by rw [hfailed], frame, rest, hq, take_zero.symm, ?_⟩
  rw [hsum, hsize, Nat.zero_add]

theorem Receive.Sound.dropped {size : Nat} (hcall : s.call = .pbufAlloc size) :
    ∃ taken q, Receive.Sound area { s.done none with failed := s.failed ++ [true] } taken q := by
  have hc := h.call
  rw [hcall] at hc
  obtain ⟨⟨hanswers, hfailed⟩, frame, rest, rfl, hsize⟩ := hc
  refine ⟨_, _, h.done hcall id rfl hanswers ?_ nofun⟩
  rw [hfailed]
  rfl

theorem Receive.Sound.copy {p : List (List UInt8)} {offset n : Nat} {len : List Nat}
    (hcall : s.call = .copying p offset (n :: len)) :
    Receive.Sound area { s with
      call := .copying (p ++ [load s.mem (virtToPhys (area.buffer s.rptr + offset)) n]) (offset + n)
        len } taken q := by
  have hc := h.call
  have hqueue := h.queue
  rw [hcall] at hc hqueue
  obtain ⟨hanswers, hfailed, frame, rest, rfl, hcopied, hsum⟩ := hc
  rw [sum_cons] at hsum
  have hstored : StoredFrame area s.mem (s.descriptor s.rptr) s.rptr frame := hqueue.holds_tail
  have hshort := hstored.short
  have hpart : load s.mem (virtToPhys (area.buffer s.rptr + offset)) n =
      (frame.drop offset).take n := by
    rw [virtToPhys_buffer area h.rptr (by omega), ← load_slice s.mem _ frame.length (by omega),
      hstored.bytes]
  refine h.moveOn hcall id id (by rfl) ?_
  refine ⟨hanswers, hfailed, frame, rest, rfl, ?_, by omega⟩
  rw [flatten_append, hcopied, flatten_singleton, hpart, ← take_add]

theorem Receive.Sound.copied_all {p : List (List UInt8)} {offset : Nat}
    (hcall : s.call = .copying p offset []) :
    ∃ taken q, (s.done (some p)).Sound area taken q := by
  have hc := h.call
  rw [hcall] at hc
  obtain ⟨hanswers, hfailed, frame, rest, rfl, hcopied, hsum⟩ := hc
  have hall : p.flatten = frame := by
    rw [hcopied]
    exact take_of_length_le (by rw [sum_nil] at hsum; omega)
  refine ⟨_, _, h.done hcall id rfl hanswers hfailed fun chain hchain => ?_⟩
  rw [← Option.some.inj hchain, hall]

/-- A store to the descriptor at `rptr`, the last of which makes it the chip's
again. -/
theorem Receive.Sound.reclaimWord {line line' : RxLine} (hcall : s.call = .reclaim p line)
    (hline : line ≠ .advance)
    {d : Descriptor} (hgive : line' = .advance ∧ d.owned = true ∨
      line' ≠ .advance ∧ d.status = (s.descriptor s.rptr).status)
    (hd : d.address = BitVec.ofNat 32 (area.phys s.rptr) ∧ d.limit = limitWord 1528 s.rptr) :
    Receive.Sound area { s.setDescriptor s.rptr d with call := .reclaim p line' } taken q := by
  have hrec : s.call.reclaiming := by
    rw [hcall]
    exact hline
  have hc := h.call
  have hqueue := h.queue
  have hposition := h.position
  have howned := h.owned
  rw [hcall] at hc hqueue hposition howned
  have hself : update s.descriptor s.rptr d s.rptr = d := update_self ..
  have hfree : ¬ (s.descriptor s.rptr).owned = true := fun ho =>
    ((howned s.rptr h.rptr).mp ho).2 ⟨hline, rfl⟩
  -- `d[1]` is stored last, so that no other store gives the descriptor away
  have hnow : d.owned = true ↔ line' = .advance := by
    rcases hgive with ⟨hlast, hset⟩ | ⟨hnot, hsame⟩
    · exact ⟨fun _ => hlast, fun _ => hset⟩
    · rw [Descriptor.owned, hsame]
      exact ⟨fun ho => absurd ho hfree, fun hl => absurd hl hnot⟩
  refine ⟨hqueue.setDescriptor (h.copied hrec) d, hposition, h.rptr, h.layout.update hd,
    fun i hi => ?_, fun _ => h.copied hrec, fun frame hs => ?_, h.received, hc⟩
  · change (update s.descriptor s.rptr d i).owned = true ↔
      s.uncopied i = false ∧ ¬ (line' ≠ .advance ∧ i = s.rptr)
    by_cases hir : i = s.rptr
    · rw [hir, hself, hnow]
      exact ⟨fun hl => ⟨h.copied hrec, fun hr => hr.1 hl⟩,
        fun hn => not_not.mp fun hl => hn.2 ⟨hl, rfl⟩⟩
    · rw [update_of_ne hir, howned i hi]
      exact ⟨fun hn => ⟨hn.1, fun hr => hir hr.2⟩, fun hn => ⟨hn.1, fun hr => hir hr.2⟩⟩
  · -- the chip is at another descriptor, which is its own
    obtain ⟨ho, hst⟩ := h.stored frame hs
    have hne : s.position ≠ s.rptr := fun heq => hfree (heq ▸ ho)
    change (update s.descriptor s.rptr d s.position).owned = true ∧
      StoredFrame area s.mem (update s.descriptor s.rptr d s.position) s.position frame
    rw [update_of_ne hne]
    exact ⟨ho, hst⟩

theorem Receive.Sound.advance (hcall : s.call = .reclaim p .advance) :
    Receive.Sound area { s with
      rptr := (s.rptr + 1) % descriptorNum, call := .idle, returned := s.returned ++ [p] }
      taken q := by
  have hc := h.call
  have hqueue := h.queue
  have hposition := h.position
  have howned := h.owned
  rw [hcall] at hc hqueue hposition howned
  obtain ⟨done, frame, rfl, hanswers, hfailed, hp⟩ := hc
  refine ⟨hqueue, hposition, Nat.mod_lt _ (by decide), h.layout, fun i hi => ?_,
    fun hr => hr.elim, h.stored, h.received, hanswers.append hp, ?_⟩
  · rw [howned i hi]
    exact ⟨fun hn => ⟨hn.1, fun hr => hr.1⟩, fun hn => ⟨hn.1, fun hr => hr.1 rfl⟩⟩
  · dsimp only
    rw [hfailed, map_append]
    rfl

theorem Receive.Sound.reclaim {line : RxLine} (hcall : s.call = .reclaim p line) :
    (s.reclaim area p line).Sound area taken q := by
  have hlayout := h.layout s.rptr h.rptr
  cases line with
  | address =>
    exact h.reclaimWord hcall (by decide) (.inr ⟨by decide, rfl⟩) ⟨rfl, hlayout.2⟩
  | limit => exact h.reclaimWord hcall (by decide) (.inr ⟨by decide, rfl⟩) ⟨hlayout.1, rfl⟩
  | length => exact h.reclaimWord hcall (by decide) (.inr ⟨by decide, rfl⟩) hlayout
  | status =>
    have hset : bit31 0xc0000000 = true := by decide
    exact h.reclaimWord hcall (by decide) (.inl ⟨rfl, hset⟩) hlayout
  | advance => exact h.advance hcall

end

/-! ### The chip's steps -/

theorem InInput.append {call : Linkinput} (h : InInput returned failed taken q call)
    (frame : List UInt8) : InInput returned failed taken (q ++ [frame]) call := by
  cases call with
  | idle | checkOwnership | reclaim p line => exact h
  | readSize => exact ⟨h.1, append_ne_nil_of_left_ne_nil h.2 _⟩
  | pbufAlloc size =>
    obtain ⟨hanswers, first, rest, rfl, hsize⟩ := h
    exact ⟨hanswers, first, rest ++ [frame], rfl, hsize⟩
  | copying p offset len =>
    obtain ⟨hanswers, hfailed, first, rest, rfl, hcopied⟩ := h
    exact ⟨hanswers, hfailed, first, rest ++ [frame], rfl, hcopied⟩

theorem Receive.Sound.store (h : s.Sound area taken q) (howned : s.owned s.position)
    (hshort : frame.length ≤ 1528) :
    Receive.Sound area { s.setDescriptor s.position
      { s.descriptor s.position with length := BitVec.ofNat 32 frame.length } with
        mem := ByteMemory.store s.mem (s.descriptor s.position).address.toNat frame
        stored := some frame } taken q := by
  have hlt := h.position_lt
  have hcopied := ((h.owned s.position hlt).mp howned).1
  obtain ⟨d, hd⟩ : ∃ d, d =
    { s.descriptor s.position with length := BitVec.ofNat 32 frame.length } := ⟨_, rfl⟩
  have hsame : ∀ i, (update s.descriptor s.position d i).owned = (s.descriptor i).owned :=
    update_cases (hd ▸ rfl) fun _ _ => rfl
  rw [← hd, (h.layout s.position hlt).1, toNat_phys]
  refine ⟨(h.queue.setDescriptor hcopied d).store hlt hcopied hshort, h.position, h.rptr,
    h.layout.update (hd ▸ h.layout s.position hlt), fun i hi => ?_, h.copied, fun frame' hs => ?_,
    h.received, h.call⟩
  · change (update s.descriptor s.position d i).owned = true ↔ _
    rw [hsame i]
    exact h.owned i hi
  · cases hs
    refine ⟨?_, hshort, ?_, load_store_self ..⟩
    · change (update s.descriptor s.position d s.position).owned = true
      rw [hsame s.position]
      exact howned
    · change (update s.descriptor s.position d s.position).length = _
      rw [update_self, hd]

theorem Receive.Sound.give (h : s.Sound area taken q) (hstored : s.stored = some frame) :
    Receive.Sound area { s.setDescriptor s.position (s.descriptor s.position).release with
      position := (s.descriptor s.position).next s.position
      stored := none
      received := s.received ++ [frame]
      uncopied := update s.uncopied s.position true } taken (q ++ [frame]) := by
  have hlt := h.position_lt
  obtain ⟨howned, hst⟩ := h.stored frame hstored
  obtain ⟨hcopied, hrec⟩ := (h.owned s.position hlt).mp howned
  have hnext := next_eq_slot (by decide) hlt (h.layout s.position hlt).2
  have hself : update s.descriptor s.position (s.descriptor s.position).release s.position =
      (s.descriptor s.position).release := update_self ..
  refine ⟨h.queue.put h.position hcopied hst rfl, ?_, h.rptr,
    h.layout.update (h.layout s.position hlt), fun i hi => ?_, fun hr => ?_, nofun, ?_,
    h.call.append frame⟩
  · change (s.descriptor s.position).next s.position =
      slot 16 (tailOf s.rptr s.call) (q ++ [frame]).length
    rw [hnext, h.position, slot_slot, length_append]
    rfl
  · change (update s.descriptor s.position _ i).owned = true ↔
      update s.uncopied s.position true i = false ∧ ¬ (s.call.reclaiming ∧ i = s.rptr)
    -- the descriptor goes to the driver, the others keep their owner
    by_cases hip : i = s.position
    · rw [hip, hself, owned_release, update_self]
      exact ⟨nofun, fun hn => absurd hn.1.symm Bool.false_ne_true⟩
    · rw [update_of_ne hip, update_of_ne hip]
      exact h.owned i hi
  · have hne : s.rptr ≠ s.position := fun heq => hrec ⟨hr, heq.symm⟩
    exact (update_of_ne hne ..).trans (h.copied hr)
  · change s.received ++ [frame] = taken ++ (q ++ [frame])
    rw [h.received, append_assoc]

/-! ### Runs -/

theorem Receive.Sound.driver (h : s.Sound area taken q)
    (hs : receiveStep area s .driver = some s') : ∃ taken q, s'.Sound area taken q := by
  rcases hcall : s.call with - | - | - | size | ⟨p, offset, len⟩ | ⟨p, line⟩
  all_goals rw [receiveStep, hcall] at hs
  · cases hs
  · dsimp only at hs
    split at hs
    · cases hs
      have hc := h.call
      rw [hcall] at hc
      exact ⟨taken, q, h.moveOn hcall id id (by rfl) hc⟩
    · cases hs
      exact ⟨taken, q, h.checkOwnership hcall ‹_›⟩
  · cases hs
    exact ⟨taken, q, h.readSize hcall⟩
  · cases hs
  · rcases len with - | ⟨n, len⟩
    · cases hs
      exact h.copied_all hcall
    · cases hs
      exact ⟨taken, q, h.copy hcall⟩
  · cases hs
    exact ⟨taken, q, h.reclaim hcall⟩

theorem Receive.Sound.step {a : ReceiveAction} (h : s.Sound area taken q)
    (hs : receiveStep area s a = some s') : ∃ taken q, s'.Sound area taken q := by
  cases a with
  | linkinput =>
    rcases hcall : s.call with - | - | - | size | ⟨p, offset, len⟩ | ⟨p, line⟩
    all_goals rw [receiveStep, hcall] at hs; cases hs
    have hc := h.call
    rw [hcall] at hc
    exact ⟨taken, q, h.moveOn hcall id id (by rfl) hc⟩
  | driver => exact h.driver hs
  | alloc result =>
    rcases hcall : s.call with - | - | - | size | ⟨p, offset, len⟩ | ⟨p, line⟩
    case pbufAlloc =>
      rw [receiveStep, hcall] at hs
      rcases result with - | len
      · cases hs
        exact h.dropped hcall
      · dsimp only at hs
        split at hs
        · cases hs
          exact ⟨taken, q, h.allocated hcall ‹_›⟩
        · cases hs
    all_goals
      rw [receiveStep, hcall] at hs
      cases hs
  | store frame =>
    rcases hstored : s.stored with - | frame'
    all_goals rw [receiveStep, hstored] at hs
    · dsimp only at hs
      split at hs
      · rename_i hcond
        cases hs
        exact ⟨taken, q, h.store hcond.1 hcond.2⟩
      · cases hs
    · cases hs
  | give =>
    rcases hstored : s.stored with - | frame
    all_goals rw [receiveStep, hstored] at hs; cases hs
    exact ⟨taken, q ++ [frame], h.give hstored⟩

theorem receive_sound_of_reach
    (hrun : Reach (receiveStep area) (fun _ _ => True) (.start area mem) s) :
    ∃ taken q, s.Sound area taken q := by
  induction hrun with
  | refl => exact ⟨[], [], Receive.Sound.start mem⟩
  | tail _ _ hs ih =>
    obtain ⟨taken, q, h⟩ := ih
    exact h.step hs

theorem InInput.answers {call : Linkinput} (h : InInput returned failed taken q call) :
    ∃ done rest, taken = done ++ rest ∧ Answers returned done ∧
      ∃ more, failed = returned.map Option.isNone ++ more := by
  cases call with
  | idle | checkOwnership =>
    exact ⟨taken, [], (append_nil taken).symm, h.1, [], by rw [h.2, append_nil]⟩
  | readSize | pbufAlloc size =>
    exact ⟨taken, [], (append_nil taken).symm, h.1.1, [], by rw [h.1.2, append_nil]⟩
  | copying p offset len =>
    exact ⟨taken, [], (append_nil taken).symm, h.1, [false], h.2.1⟩
  | reclaim p line =>
    obtain ⟨done, frame, htaken, hanswers, hfailed, -⟩ := h
    exact ⟨done, [frame], htaken, hanswers, _, hfailed⟩

theorem Receive.Sound.frame_of_returned (h : s.Sound area taken q) {k : Nat}
    {r : Option (List (List UInt8))} (hk : s.returned[k]? = some r) :
    ∃ frame, s.received[k]? = some frame ∧ s.failed[k]? = some r.isNone ∧
      ∀ p, r = some p → p.flatten = frame := by
  obtain ⟨done, rest, htaken, hanswers, more, hfailed⟩ := h.call.answers
  obtain ⟨hlt, -⟩ := List.getElem?_eq_some_iff.mp hk
  have hlt' : k < done.length := hanswers.length ▸ hlt
  have hreceived : s.received[k]? = some done[k] := by
    rw [h.received, htaken, append_assoc, List.getElem?_append_left hlt',
      List.getElem?_eq_getElem hlt']
  refine ⟨done[k], hreceived, ?_, fun p hp => ?_⟩
  · rw [hfailed, List.getElem?_append_left (by rw [length_map]; exact hlt),
      List.getElem?_map, hk]
    rfl
  · rw [hp] at hk
    have hbytes := hanswers.bytes k p hk
    rw [List.getElem?_eq_getElem hlt'] at hbytes
    exact (Option.some.inj hbytes).symm

theorem Receive.Sound.length_returned (h : s.Sound area taken q) (hidle : s.call = .idle)
    (hall : ∀ i < 16, s.owned i) : s.returned.length = s.received.length := by
  have hc := h.call
  have hqueue := h.queue
  rw [hidle] at hc hqueue
  have hq : q = [] := by
    by_contra hne
    have hcopied := ((h.owned s.rptr h.rptr).mp (hall s.rptr h.rptr)).1
    exact nomatch hcopied.symm.trans (hqueue.full_tail_iff.mpr hne)
  rw [hc.1.length, h.received, hq, append_nil]

theorem Receive.Sound.copied_of_store (h : s.Sound area taken q) {frame : List UInt8}
    (hstore : (receiveStep area s (.store frame)).isSome) : s.uncopied s.position = false := by
  rw [receiveStep] at hstore
  split at hstore
  · cases hstore
  · split at hstore
    · rename_i hcond
      exact ((h.owned s.position h.position_lt).mp hcond.1).1
    · cases hstore

/-- **Frames are received as they came.**  For every interleaving: the result of
the `k`-th call that found a frame is for the `k`-th frame, NULL if `pbuf_alloc`
failed for it and else pbufs with its bytes; every frame has a result once no
call runs and all descriptors are the chip's; and the chip stores a frame only
to a buffer that is copied. -/
theorem frames_of_reach
    (hrun : Reach (receiveStep area) (fun _ _ => True) (.start area mem) s) :
    (∀ (k : Nat) (r : Option (List (List UInt8))), s.returned[k]? = some r →
      ∃ frame, s.received[k]? = some frame ∧ s.failed[k]? = some r.isNone ∧
        ∀ p, r = some p → p.flatten = frame) ∧
    (s.call = .idle → (∀ i < 16, s.owned i) → s.returned.length = s.received.length) ∧
    ∀ frame, (receiveStep area s (.store frame)).isSome → s.uncopied s.position = false := by
  obtain ⟨taken, q, h⟩ := receive_sound_of_reach hrun
  exact ⟨fun k r => h.frame_of_returned, h.length_returned, fun frame => h.copied_of_store⟩

/-- An area in the lower half of the memory. -/
def rxArea : EnetArea := ⟨2 ^ 31 + 0x8000, by decide, by decide⟩

/-- Two frames come; one is copied into two pbufs and the other dropped. -/
def twoFrames : List ReceiveAction :=
  [.store [1, 2, 3], .give, .linkinput, .driver, .driver, .store [4], .alloc (some [2, 1]), .give] ++
    List.replicate 8 .driver ++
    [.linkinput, .driver, .driver, .alloc none] ++ List.replicate 5 .driver

theorem frames_twoFrames :
    ∃ s, Reach (receiveStep rxArea) (fun _ _ => True) (.start rxArea fun _ => 0) s ∧
      s.returned = [some [[1, 2], [3]], none] ∧
      ∃ frame, s.received[0]? = some frame ∧ [[1, 2], [3]].flatten = frame := by
  refine exists_reach_imp twoFrames (fun s => s.returned = [some [[1, 2], [3]], none])
    (by decide +kernel) fun s hreach hreturned => ⟨hreturned, ?_⟩
  obtain ⟨frame, hreceived, -, hbytes⟩ := (frames_of_reach hreach).1 0 (some [[1, 2], [3]])
    (by rw [hreturned]; rfl)
  exact ⟨frame, hreceived, hbytes _ rfl⟩

end LibXenon
