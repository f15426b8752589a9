/-
LibXenon/XenosState.lean

What `Xe_pSetState` does to the GPU.

`Ring.Leaves r g d` says that the commands in the ring take the GPU from `g`
to `d` and end at a packet boundary.  Each part of `Xe_pSetState` is followed
by what it does to `d`: which registers it sets to what, and which it leaves
alone.  The register ranges of the parts are disjoint, so every part of the
shadow state is dealt with by its own part alone.
-/
import LibXenon.Xenos

namespace LibXenon

open Pm4 DirtyBlocks List

/-! ### The state the commands leave -/

/-- The commands in the ring lead from `g` to `d`. -/
def Ring.Leaves (r : Ring) (g d : Gpu) : Prop :=
  Cp.feed gpuPacket ⟨.header, g⟩ r.emitted = ⟨.header, d⟩

variable {r r' : Ring} {g d d' : Gpu} {ws : List Word} {f : Gpu → Gpu}
variable {xe xe' : XenosDevice} {shader : PShader → XenosShader} {fl : Floats}
variable {vals : List Word} {reg n : Nat} {p : Option PShader}

theorem Ring.Leaves.of_nil (h : r.emitted = []) : r.Leaves g g := by
  rw [Ring.Leaves, h]
  rfl

theorem Ring.Leaves.gpu_eq (h : xe.ring.Leaves g d) : xe.gpu g = d := by
  rw [XenosDevice.gpu, execute, h]

theorem Ring.Leaves.rput (h : r.Leaves g d) (hr : Runs gpuPacket ws f) :
    (r.rput ws).Leaves g (f d) := by
  rw [Ring.Leaves, Cp.feed] at h
  rw [Ring.Leaves, Ring.rput, Cp.feed, foldl_append, h]
  exact hr d

theorem Ring.align_eq (rounds : Nat) (r : Ring) :
    ∃ n, r.align rounds = r.rput (List.replicate n 0x80000000) := by
  induction rounds generalizing r with
  | zero => exact ⟨0, by simp [Ring.align, Ring.rput]⟩
  | succ rounds ih =>
    rw [Ring.align]
    split
    · obtain ⟨n, hn⟩ := ih (r.rput [0x80000000])
      refine ⟨n + 1, ?_⟩
      rw [hn]
      simp [Ring.rput, replicate_succ]
      omega
    · exact ⟨0, by simp [Ring.rput]⟩

/-- With enough rounds the loop of `Xe_pAlign` is over; three always suffice. -/
theorem Ring.align_wptr (rounds : Nat) (r : Ring) (h : 3 ≤ r.wptr % 4 + rounds) :
    (r.align rounds).wptr % 4 = 3 := by
  induction rounds generalizing r with
  | zero =>
    rw [Ring.align]
    omega
  | succ rounds ih =>
    rw [Ring.align]
    split
    · refine ih _ ?_
      simp only [Ring.rput, length_singleton]
      omega
    · omega

theorem Ring.Leaves.align (h : r.Leaves g d) (rounds : Nat) : (r.align rounds).Leaves g d := by
  obtain ⟨n, hn⟩ := r.align_eq rounds
  rw [hn]
  exact h.rput (Runs.filler n)

/-! ### Words of an array -/

@[simp] theorem length_slice (a : Nat → Word) (start len : Nat) :
    (slice a start len).length = len := by
  rw [slice, length_map, length_range]

theorem getD_slice (a : Nat → Word) (start : Nat) {len i : Nat} (hi : i < len) (x : Word) :
    (slice a start len).getD i x = a (start + i) := by
  rw [getD_eq_getElem?_getD, slice, List.getElem?_map, List.getElem?_range hi]
  rfl

theorem regs_setRange_slice (d : Gpu) (a : Nat → Word) (start reg : Nat) {len i : Nat}
    (hi : i < len) : (d.setRange reg (slice a start len)).regs (reg + i) = a (start + i) := by
  rw [Device.regs_setRange, if_pos (Nat.le_add_right reg i), Nat.add_sub_cancel_left,
    getD_slice a start hi]

theorem regs_setRange_slice_out {d : Gpu} {a : Nat → Word} {start reg len k : Nat}
    (hk : k < reg ∨ reg + len ≤ k) :
    (d.setRange reg (slice a start len)).regs k = d.regs k := by
  refine Device.regs_setRange_out ?_
  rw [length_slice]
  exact hk

theorem runs_slice {hdr : Word} (a : Nat → Word) (start : Nat)
    (hdecode : decode hdr = .write reg n false) (hn : 0 < n) :
    Runs gpuPacket (hdr :: slice a start n) fun d : Gpu => d.setRange reg (slice a start n) := by
  refine Runs.type0 ?_ fun hnil => ?_
  · rw [length_slice]
    exact hdecode
  · have hlen := congrArg List.length hnil
    rw [length_slice, length_nil] at hlen
    omega

theorem memcpy_eq_some {size start : Nat} {a a' : Nat → Word}
    (h : memcpy size a start vals = some a') :
    start + vals.length ≤ size ∧
      ∀ i, i < start ∨ start + vals.length ≤ i → a' i = a i := by
  rw [memcpy] at h
  split at h
  · rename_i hle
    cases h
    refine ⟨hle, fun i hi => ?_⟩
    dsimp only
    split
    · rw [getD_eq_getElem?_getD, List.getElem?_eq_none (by omega)]
      rfl
    · rfl
  · cases h

theorem memcpy_isSome {size start : Nat} (a : Nat → Word)
    (h : start + vals.length ≤ size) : ∃ a', memcpy size a start vals = some a' :=
  ⟨_, if_pos h⟩

/-! ### Dirty flags -/

theorem or_and_of_disjoint {dirty flag flag' : BitVec 32} (h : flag &&& flag' = 0) :
    (dirty ||| flag) &&& flag' = dirty &&& flag' := by
  rw [BitVec.and_comm, BitVec.and_or_distrib_left, BitVec.and_comm flag' flag, h,
    BitVec.and_comm]
  exact BitVec.or_zero

theorem or_and_self (dirty flag : BitVec 32) : (dirty ||| flag) &&& flag = flag := by
  refine BitVec.eq_of_getLsbD_eq fun i _ => ?_
  rw [BitVec.getLsbD_and, BitVec.getLsbD_or]
  cases dirty.getLsbD i <;> simp

theorem isDirty_or_self (xe : XenosDevice) {flag : BitVec 32}
    (hdirty : xe'.dirty = xe.dirty ||| flag)
    (hflag : flag ≠ 0) : xe'.isDirty flag = true := by
  rw [XenosDevice.isDirty, hdirty, or_and_self]
  simpa using hflag

theorem isDirty_or_of_disjoint {flag flag' : BitVec 32} (hdirty : xe'.dirty = xe.dirty ||| flag)
    (h : flag &&& flag' = 0) : xe'.isDirty flag' = xe.isDirty flag' := by
  rw [XenosDevice.isDirty, XenosDevice.isDirty, hdirty, or_and_of_disjoint h]

/-- The marks that the next `Xe_pSetState` will look at. -/
def XenosDevice.aluPending (xe : XenosDevice) : BitVec 32 :=
  if xe.isDirty dirtyAlu then xe.aluDirty else 0

def XenosDevice.fetchPending (xe : XenosDevice) : BitVec 32 :=
  if xe.isDirty dirtyFetch then xe.fetchDirty else 0

theorem getLsbD_of_pending {flag : Bool} {m : BitVec 32} {i : Nat}
    (h : (if flag then m else 0).getLsbD i = true) : m.getLsbD i = true := by
  split at h
  · exact h
  · rw [BitVec.ofNat_eq_ofNat, BitVec.getLsbD_zero] at h
    cases h

/-- A part of `Xe_pSetState` runs or is skipped. -/
theorem whenDirty_cases {flag : BitVec 32} {up : XenosDevice → Option XenosDevice}
    (hs : xe.whenDirty flag up = some xe') :
    xe.isDirty flag = true ∧ up xe = some xe' ∨ xe.isDirty flag = false ∧ xe' = xe := by
  rw [XenosDevice.whenDirty] at hs
  split at hs
  · rename_i hflag
    exact .inl ⟨hflag, hs⟩
  · rename_i hflag
    exact .inr ⟨Bool.eq_false_iff.mpr hflag, (Option.some.inj hs).symm⟩

theorem whenDirty_ends (flag : BitVec 32) (up : XenosDevice → Option XenosDevice)
    (xe : XenosDevice) (hup : ∃ xe', up xe = some xe') :
    ∃ xe', xe.whenDirty flag up = some xe' := by
  rw [XenosDevice.whenDirty]
  split
  · exact hup
  · exact ⟨xe, rfl⟩

/-! ### Uploads of marked blocks -/

/-- The headers `Xe_pUploadALUConstants` and `Xe_pUploadFetchConstants` build
name the registers of the run. -/
def GoodHeaders (reg : Word) (B : Nat) : Prop :=
  ∀ start < 32, ∀ stop < 33, start < stop →
    decode (reg ||| BitVec.ofNat 32 (start * B) |||
      BitVec.ofNat 32 ((stop - start) * B - 1) <<< 16) =
        .write (reg.toNat + start * B) ((stop - start) * B) false

theorem goodHeaders_alu : GoodHeaders 0x00004000 64 := by
  unfold GoodHeaders
  decide +kernel

theorem goodHeaders_fetch : GoodHeaders 0x00004800 6 := by
  unfold GoodHeaders
  decide +kernel

/-- The registers of a bank, numbered from its first. -/
def bank (d : Gpu) (reg i : Nat) : Word := d.regs (reg + i)

theorem leaves_sendRun {reg : Word} {B start stop : Nat} {shadow : Nat → Word}
    (hh : GoodHeaders reg B) (hB : 0 < B) (hlt : start < stop) (hle : stop ≤ 32)
    (h : r.Leaves g d) :
    (sendRun reg B shadow start stop r).Leaves g
      (d.setRange (reg.toNat + start * B) (slice shadow (start * B) ((stop - start) * B))) :=
  (h.align 3).rput (runs_slice _ _ (hh start (by omega) stop (by omega) hlt)
    (Nat.mul_pos (by omega) hB))

/-- **The upload loop** ends with no block marked; it has sent the marked
blocks and written no other register. -/
theorem leaves_drain {reg : Word} {B : Nat} (shadow : Nat → Word) (hh : GoodHeaders reg B)
    (hB : 0 < B) (m : BitVec 32) (h : r.Leaves g d) :
    ∃ r' d', drain (sendRun reg B shadow) 33 m r = some (0#32, r') ∧ r'.Leaves g d' ∧
      Sent B m 0#32 shadow (bank d reg.toNat) (bank d' reg.toNat) ∧
      (∀ k, k < reg.toNat ∨ reg.toNat + 32 * B ≤ k → d'.regs k = d.regs k) ∧
      d'.other = d.other := by
  -- the invariant: the blocks whose bits are gone have been sent
  have hrule := drain_rule (sendRun reg B shadow)
    (I := fun m' r' => ∃ d', r'.Leaves g d' ∧
      Sent B m m' shadow (bank d reg.toNat) (bank d' reg.toNat) ∧
      (∀ k, k < reg.toNat ∨ reg.toNat + 32 * B ≤ k → d'.regs k = d.regs k) ∧
      d'.other = d.other) ?_ (m := m) (s := r) ⟨d, h, Sent.refl, fun _ _ => rfl, rfl⟩
  · obtain ⟨r', hr', d', hleaves, hsent, hout, hother⟩ := hrule
    exact ⟨r', d', hr', hleaves, hsent, hout, hother⟩
  · rintro m₁ m₂ start stop r₁ hround ⟨d₁, hleaves, hsent, hout, hother⟩
    have hlt := hround.lt
    have hle := hround.le
    have hlast : stop * B ≤ 32 * B := Nat.mul_le_mul_right B hle
    have hlen : start * B + (stop - start) * B = stop * B := by
      rw [← Nat.add_mul]
      congr 1
      omega
    refine ⟨_, leaves_sendRun hh hB hlt hle hleaves, hsent.round hround ?_ ?_, fun k hk => ?_,
      hother⟩
    · intro i hlow hhigh
      obtain ⟨j, rfl⟩ := Nat.exists_eq_add_of_le hlow
      rw [bank, ← Nat.add_assoc, regs_setRange_slice d₁ shadow _ _ (by omega)]
    · exact fun i hi => regs_setRange_slice_out (by omega)
    · rw [← hout k hk]
      exact regs_setRange_slice_out (by omega)

/-! ### The parts of Xe_pSetState -/

/-- From `xe` to `xe'` nothing but the ring changes; the new commands take
the GPU from `d` to `d'`, load no program, and leave the registers in `K`
alone. -/
structure Puts (g : Gpu) (xe xe' : XenosDevice) (d d' : Gpu) (K : Nat → Prop) : Prop where
  ring : xe' = { xe with ring := xe'.ring }
  leaves : xe'.ring.Leaves g d'
  other : d'.other = d.other
  keeps : ∀ k, K k → d'.regs k = d.regs k

theorem Puts.refl {K : Nat → Prop} (h : xe.ring.Leaves g d) : Puts g xe xe d d K :=
  ⟨rfl, h, rfl, fun _ _ => rfl⟩

/-- A register bank is sent as a whole, behind the filler that `r` may end with. -/
theorem puts_array {hdr : Word} (reg n : Nat) (a : Nat → Word) (h : r.Leaves g d)
    (hdecode : decode hdr = .write reg n false) (hn : 0 < n) :
    ∃ d', Puts g xe ({ xe with ring := r }.rput (hdr :: slice a 0 n)) d d'
        (fun k => k < reg ∨ reg + n ≤ k) ∧ ∀ i < n, d'.regs (reg + i) = a i := by
  refine ⟨_, ⟨rfl, h.rput (runs_slice a 0 hdecode hn), rfl, fun k hk => ?_⟩, fun i hi => ?_⟩
  · exact regs_setRange_slice_out hk
  · rw [regs_setRange_slice d a 0 reg hi, Nat.zero_add]

theorem part_puts {flag : BitVec 32} {up : XenosDevice → XenosDevice} {K : Nat → Prop}
    {P : Gpu → Prop} (hs : xe.whenDirty flag (fun xe => some (up xe)) = some xe')
    (h : xe.ring.Leaves g d) (hup : ∃ d', Puts g xe (up xe) d d' K ∧ P d') :
    ∃ d', Puts g xe xe' d d' K ∧ (xe.isDirty flag = true → P d') ∧
      (xe.isDirty flag = false → d' = d) := by
  rcases whenDirty_cases hs with ⟨hflag, hs⟩ | ⟨hflag, rfl⟩
  · obtain rfl := Option.some.inj hs
    obtain ⟨d', hputs, hd'⟩ := hup
    rw [hflag]
    exact ⟨d', hputs, fun _ => hd', nofun⟩
  · rw [hflag]
    exact ⟨d, Puts.refl h, fun hf => (nomatch hf), fun _ => rfl⟩

/-- The registers `DIRTY_MISC` stands for: first and number, packet by
packet. -/
theorem footprint_miscPackets : (xe.miscPackets fl).map footprint =
    [(0x2080, 3), (0x2000, 3), (0x200d, 1), (0x2100, 2), (0x2104, 1), (0x210c, 9), (0x2301, 1),
      (0x2312, 1)] := by
  rw [XenosDevice.miscPackets, XenosDevice.clipPacket]
  split <;> rfl

theorem wellFormed_miscPackets : (xe.miscPackets fl).all wellFormed = true := by
  rw [XenosDevice.miscPackets, XenosDevice.clipPacket]
  split <;> rfl

theorem puts_misc (fl : Floats) (h : xe.ring.Leaves g d) :
    ∃ d', Puts g xe (xe.rputs (xe.miscPackets fl)) d d'
        (fun k => 0x2115 ≤ k ∧ k < 0x2301 ∨ 0x2313 ≤ k) ∧
      ∀ i < 2, d'.regs (0x210c + i) = xe.stencildata i := by
  refine ⟨packetsEffect gpuPacket (xe.miscPackets fl) d,
    ⟨rfl, h.rput (Runs.packets _ wellFormed_miscPackets), ?_, fun k hk => ?_⟩, fun i hi => ?_⟩
  · rw [XenosDevice.miscPackets, XenosDevice.clipPacket]
    split <;> rfl
  · refine keeps_register ?_ d
    rw [footprint_miscPackets]
    simp only [all_cons, all_nil, apart, Bool.and_eq_true, Bool.or_eq_true,
      decide_eq_true_eq, and_true]
    omega
  · rw [XenosDevice.miscPackets, XenosDevice.clipPacket]
    obtain rfl | rfl : i = 0 ∨ i = 1 := by omega
    · split <;> rfl
    · split <;> rfl

theorem part_alu (hs : xe.whenDirty dirtyAlu XenosDevice.uploadALUConstants = some xe')
    (h : xe.ring.Leaves g d) :
    ∃ r d', xe' = { xe with
        aluDirty := if xe.isDirty dirtyAlu then 0 else xe.aluDirty
        ring := r } ∧ r.Leaves g d' ∧
      Sent 64 xe.aluPending 0#32 xe.aluConstants (bank d 0x4000) (bank d' 0x4000) ∧
      (∀ k, k < 0x4000 ∨ 0x4800 ≤ k → d'.regs k = d.regs k) ∧ d'.other = d.other := by
  rw [XenosDevice.aluPending]
  rcases whenDirty_cases hs with ⟨hflag, hs⟩ | ⟨hflag, rfl⟩
  · obtain ⟨r, d', hdrain, hl, hsent, hout, hother⟩ :=
      leaves_drain xe.aluConstants goodHeaders_alu (by decide) xe.aluDirty h
    rw [XenosDevice.uploadALUConstants, hdrain] at hs
    cases hs
    rw [hflag]
    exact ⟨r, d', rfl, hl, hsent, hout, hother⟩
  · rw [hflag]
    exact ⟨xe'.ring, d, rfl, h, Sent.refl, fun _ _ => rfl, rfl⟩

theorem part_alu_ends (xe : XenosDevice) :
    ∃ xe', xe.whenDirty dirtyAlu XenosDevice.uploadALUConstants = some xe' := by
  refine whenDirty_ends dirtyAlu _ xe ?_
  obtain ⟨r, hr⟩ := drain_ends (sendRun 0x00004000 64 xe.aluConstants) xe.aluDirty xe.ring
  rw [XenosDevice.uploadALUConstants, hr]
  exact ⟨_, rfl⟩

theorem part_fetch (hs : xe.whenDirty dirtyFetch XenosDevice.uploadFetch = some xe')
    (h : xe.ring.Leaves g d) :
    ∃ r d', xe' = { xe with
        fetchDirty := if xe.isDirty dirtyFetch then 0 else xe.fetchDirty
        ring := r } ∧ r.Leaves g d' ∧
      Sent 6 xe.fetchPending 0#32 xe.fetchConstants (bank d 0x4800) (bank d' 0x4800) ∧
      (∀ k, k < 0x4800 ∨ 0x48c0 ≤ k ∧ k < 0x5000 → d'.regs k = d.regs k) ∧
      d'.other = d.other := by
  rw [XenosDevice.fetchPending]
  rcases whenDirty_cases hs with ⟨hflag, hs⟩ | ⟨hflag, rfl⟩
  · obtain ⟨r, d₁, hdrain, hl, hsent, hout, hother⟩ :=
      leaves_drain xe.fetchConstants goodHeaders_fetch (by decide) xe.fetchDirty h
    rw [XenosDevice.uploadFetch, XenosDevice.uploadFetchConstants, hdrain] at hs
    cases hs
    rw [hflag]
    -- the packet behind the fetch constants writes from 0x5000 on
    have hlast : ∀ k, k < 0x5000 → (d₁.setRange 0x5000 [0x00000000, 0x00025000, 0x00000000]).regs k
        = d₁.regs k := fun k hk => Device.regs_setRange_out (.inl hk)
    have hrun : Runs gpuPacket [0x00025000, 0x00000000, 0x00025000, 0x00000000]
        (fun d : Gpu => d.setRange 0x5000 [0x00000000, 0x00025000, 0x00000000]) :=
      Runs.type0 (by decide) (by decide)
    refine ⟨_, _, rfl, hl.rput hrun, ⟨hsent.mono, fun i hi => ?_⟩, fun k hk => ?_, hother⟩
    · exact (hlast (0x4800 + i) (by omega)).trans (hsent.dev_eq i hi)
    · rw [hlast k (by omega)]
      exact hout k (by change k < 0x4800 ∨ 0x4800 + 32 * 6 ≤ k; omega)
  · rw [hflag]
    exact ⟨xe'.ring, d, rfl, h, Sent.refl, fun _ _ => rfl, rfl⟩

theorem part_fetch_ends (xe : XenosDevice) :
    ∃ xe', xe.whenDirty dirtyFetch XenosDevice.uploadFetch = some xe' := by
  refine whenDirty_ends dirtyFetch _ xe ?_
  obtain ⟨r, hr⟩ := drain_ends (sendRun 0x00004800 6 xe.fetchConstants) xe.fetchDirty xe.ring
  rw [XenosDevice.uploadFetch, XenosDevice.uploadFetchConstants, hr]
  exact ⟨_, rfl⟩

/-! ### Constants stored by a shader -/

/-- A store of `vals` from constant `start` on that marks `count` constants,
enough to cover it, keeps the unmarked blocks in step. -/
theorem synced_storeAlu {alu dev : Nat → Word} {start count : Nat}
    (h : Synced 64 xe.aluPending xe.aluConstants dev)
    (hcopy : memcpy 2048 xe.aluConstants (start * 4) vals = some alu)
    (hcount : vals.length ≤ count * 4) :
    Synced 64 ({ xe with aluConstants := alu }.dirtyAluConstant start count).aluPending alu dev := by
  have hflag : ({ xe with aluConstants := alu }.dirtyAluConstant start count).isDirty dirtyAlu
      = true := isDirty_or_self xe rfl (by decide)
  rw [XenosDevice.aluPending, if_pos hflag]
  refine h.store (fun i hi => getLsbD_mark_mono _ (getLsbD_of_pending hi)) fun i hi hclear => ?_
  refine (memcpy_eq_some hcopy).2 i ?_
  by_contra hin
  -- a word that is stored is in a marked block
  have hset : (mark 16 (count + start % 16) xe.aluDirty (start / 16)
      (count + start % 16)).getLsbD (i / 64) = true :=
    (getLsbD_mark (by decide) xe.aluDirty (by omega) le_rfl).mpr (.inr (by omega))
  exact Bool.noConfusion (hset.symm.trans hclear)

/-- What `Xe_pUploadShader` may do to the shadow state: store ALU constants
with their marks and integer constants with their flag, and nothing else. -/
structure Stored (xe xe' : XenosDevice) : Prop where
  frame : xe' = { xe with
    aluConstants := xe'.aluConstants
    aluDirty := xe'.aluDirty
    integerConstants := xe'.integerConstants
    dirty := xe'.dirty
    ring := xe'.ring }
  flags : ∀ flag, dirtyAlu &&& flag = 0 → dirtyInteger &&& flag = 0 →
    xe'.isDirty flag = xe.isDirty flag
  alu : ∀ dev, Synced 64 xe.aluPending xe.aluConstants dev →
    Synced 64 xe'.aluPending xe'.aluConstants dev
  marked : (xe.aluDirty ≠ 0 → xe.isDirty dirtyAlu = true) →
    xe'.aluDirty ≠ 0 → xe'.isDirty dirtyAlu = true
  integer : xe'.isDirty dirtyInteger = true ∨
    xe'.integerConstants = xe.integerConstants ∧
      xe'.isDirty dirtyInteger = xe.isDirty dirtyInteger

theorem Stored.of_ring (h : xe' = { xe with ring := xe'.ring }) : Stored xe xe' := by
  have hdirty : ∀ flag, xe'.isDirty flag = xe.isDirty flag := fun flag => by rw [h]; rfl
  have halu : xe'.aluDirty = xe.aluDirty := by rw [h]
  refine ⟨?_, fun flag _ _ => hdirty flag, fun dev hdev => ?_, fun hm => ?_,
    .inr ⟨by rw [h], hdirty _⟩⟩
  · rw [h]
  · rw [h]
    exact hdev
  · rw [halu, hdirty]
    exact hm

theorem Stored.refl : Stored xe xe := Stored.of_ring rfl

theorem Stored.trans {xe₁ : XenosDevice} (h : Stored xe xe₁) (h' : Stored xe₁ xe') :
    Stored xe xe' := by
  refine ⟨?_, fun flag hf hf' => (h'.flags flag hf hf').trans (h.flags flag hf hf'),
    fun dev hdev => h'.alu dev (h.alu dev hdev), fun hm => h'.marked (h.marked hm), ?_⟩
  · rw [h'.frame, h.frame]
  · rcases h'.integer with hset | ⟨heq, hflag⟩
    · exact .inl hset
    · rcases h.integer with hset | ⟨heq₁, hflag₁⟩
      · exact .inl (hflag.trans hset)
      · exact .inr ⟨heq.trans heq₁, hflag.trans hflag₁⟩

theorem stored_alu {alu : Nat → Word} {start count : Nat}
    (hcopy : memcpy 2048 xe.aluConstants (start * 4) vals = some alu)
    (hcount : vals.length ≤ count * 4) :
    Stored xe ({ xe with aluConstants := alu }.dirtyAluConstant start count) := by
  have hor : ∀ flag, dirtyAlu &&& flag = 0 →
      ({ xe with aluConstants := alu }.dirtyAluConstant start count).isDirty flag =
        xe.isDirty flag := fun flag hf => isDirty_or_of_disjoint rfl hf
  refine ⟨rfl, fun flag hf _ => hor flag hf, fun dev hdev => ?_, fun _ _ => ?_, ?_⟩
  · exact synced_storeAlu hdev hcopy hcount
  · exact isDirty_or_self xe rfl (by decide)
  · exact .inr ⟨rfl, hor dirtyInteger (by decide)⟩

theorem stored_integer (xe : XenosDevice) (int : Nat → Word) :
    Stored xe { xe with
      integerConstants := int
      dirty := xe.dirty ||| dirtyInteger } := by
  have hor : ∀ flag, dirtyInteger &&& flag = 0 →
      { xe with
        integerConstants := int
        dirty := xe.dirty ||| dirtyInteger }.isDirty flag = xe.isDirty flag :=
    fun flag hf => isDirty_or_of_disjoint rfl hf
  refine ⟨rfl, fun flag _ hf => hor flag hf, fun dev hdev => ?_, fun hm hne => ?_, ?_⟩
  · rw [XenosDevice.aluPending, hor dirtyAlu (by decide)]
    exact hdev
  · rw [hor dirtyAlu (by decide)]
    exact hm hne
  · exact .inl (isDirty_or_self xe rfl (by decide))

theorem stored_floats {e : ConstantEntry} (h : xe.storeFloats e = some xe') :
    Stored xe xe' ∧ xe'.ring = xe.ring := by
  obtain ⟨alu, hcopy, rfl⟩ := Option.map_eq_some_iff.mp h
  exact ⟨stored_alu hcopy (by omega), rfl⟩

theorem stored_ints {e : ConstantEntry} (h : xe.storeInts e = some xe') :
    Stored xe xe' ∧ xe'.ring = xe.ring := by
  rw [XenosDevice.storeInts] at h
  split at h
  · cases h
  · obtain ⟨int, -, rfl⟩ := Option.map_eq_some_iff.mp h
    exact ⟨stored_integer xe int, rfl⟩

theorem stored_foldlM {f : XenosDevice → ConstantEntry → Option XenosDevice}
    (hf : ∀ xe e xe', f xe e = some xe' → Stored xe xe' ∧ xe'.ring = xe.ring)
    (l : List ConstantEntry) {xe xe' : XenosDevice} (h : l.foldlM f xe = some xe') :
    Stored xe xe' ∧ xe'.ring = xe.ring := by
  induction l generalizing xe with
  | nil =>
    cases h
    exact ⟨Stored.refl, rfl⟩
  | cons e l ih =>
    obtain ⟨xe₁, h₁, h₂⟩ := Option.bind_eq_some_iff.mp h
    obtain ⟨hs₁, hr₁⟩ := hf xe e xe₁ h₁
    obtain ⟨hs₂, hr₂⟩ := ih h₂
    exact ⟨hs₁.trans hs₂, hr₂.trans hr₁⟩

/-- A shader whose constant tables end and stay inside the shadow arrays. -/
def XenosShader.fits (sh : XenosShader) : Bool :=
  match constantTables sh.image with
  | none => false
  | some tables =>
    tables.1.all (fun e => e.start * 4 + e.values.length ≤ 2048) &&
      tables.2.all fun e =>
        0 ≤ intIndex e.start && (intIndex e.start).toNat + e.values.length ≤ 40

theorem foldlM_ends {f : XenosDevice → ConstantEntry → Option XenosDevice}
    (l : List ConstantEntry) (hf : ∀ xe, ∀ e ∈ l, ∃ xe', f xe e = some xe') (xe : XenosDevice) :
    ∃ xe', l.foldlM f xe = some xe' := by
  induction l generalizing xe with
  | nil => exact ⟨xe, rfl⟩
  | cons e l ih =>
    obtain ⟨xe₁, h₁⟩ := hf xe e mem_cons_self
    obtain ⟨xe₂, h₂⟩ := ih (fun xe e he => hf xe e (mem_cons_of_mem _ he)) xe₁
    refine ⟨xe₂, ?_⟩
    rw [foldlM_cons, h₁]
    exact h₂

theorem shaderConstants_end {sh : XenosShader} (h : sh.fits = true) (xe : XenosDevice) :
    ∃ xe', xe.uploadShaderConstants sh = some xe' := by
  rw [XenosShader.fits] at h
  rcases ht : constantTables sh.image with - | ⟨floats, ints⟩
  · rw [ht] at h
    cases h
  · rw [ht, Bool.and_eq_true, all_eq_true, all_eq_true] at h
    obtain ⟨xe₁, h₁⟩ := foldlM_ends (f := XenosDevice.storeFloats) floats (fun xe e he => by
      obtain ⟨alu, halu⟩ := memcpy_isSome xe.aluConstants (of_decide_eq_true (h.1 e he))
      rw [XenosDevice.storeFloats, halu]
      exact ⟨_, rfl⟩) xe
    obtain ⟨xe₂, h₂⟩ := foldlM_ends (f := XenosDevice.storeInts) ints (fun xe e he => by
      have hint := h.2 e he
      rw [Bool.and_eq_true, decide_eq_true_eq, decide_eq_true_eq] at hint
      obtain ⟨int, hcopy⟩ := memcpy_isSome xe.integerConstants hint.2
      rw [XenosDevice.storeInts, if_neg (by omega), hcopy]
      exact ⟨_, rfl⟩) xe₁
    refine ⟨xe₂, ?_⟩
    rw [XenosDevice.uploadShaderConstants, ht]
    exact (congrArg (Option.bind · _) h₁).trans h₂

theorem stored_shaderConstants {sh : XenosShader} (h : xe.uploadShaderConstants sh = some xe') :
    Stored xe xe' ∧ xe'.ring = xe.ring := by
  obtain ⟨tables, -, h⟩ := Option.bind_eq_some_iff.mp h
  obtain ⟨xe₁, h₁, h₂⟩ := Option.bind_eq_some_iff.mp h
  obtain ⟨hs₁, hr₁⟩ := stored_foldlM (fun _ _ _ => stored_floats) _ h₁
  obtain ⟨hs₂, hr₂⟩ := stored_foldlM (fun _ _ _ => stored_ints) _ h₂
  exact ⟨hs₁.trans hs₂, hr₂.trans hr₁⟩

/-! ### Programs -/

theorem high_bits : ∀ i < 32, 2 ≤ i →
    (~~~3#32).getLsbD i = true ∧ (0#32).getLsbD i = false ∧ (1#32).getLsbD i = false := by
  decide

theorem address_of_aligned {addr type : Word} (h : addr &&& 0xFF = 0)
    (htype : type = 0 ∨ type = 1) :
    (addr ||| type) &&& ~~~3 = addr ∧ (addr ||| type).getLsbD 0 = type.getLsbD 0 := by
  have hbit₀ : addr.getLsbD 0 = false := by
    simpa using congrArg (fun w : Word => w.getLsbD 0) h
  have hbit₁ : addr.getLsbD 1 = false := by
    simpa using congrArg (fun w : Word => w.getLsbD 1) h
  refine ⟨BitVec.eq_of_getLsbD_eq fun i hi => ?_, by rw [BitVec.getLsbD_or, hbit₀, Bool.false_or]⟩
  rw [BitVec.getLsbD_and, BitVec.getLsbD_or]
  match i, hi with
  | 0, _ =>
    have hmask : (~~~3#32).getLsbD 0 = false := by decide
    exact (congrArg _ hmask).trans ((Bool.and_false _).trans hbit₀.symm)
  | 1, _ =>
    have hmask : (~~~3#32).getLsbD 1 = false := by decide
    exact (congrArg _ hmask).trans ((Bool.and_false _).trans hbit₁.symm)
  | i + 2, hi =>
    obtain ⟨hmask, hzero, hone⟩ := high_bits (i + 2) hi (by omega)
    have hclear : type.getLsbD (i + 2) = false := by
      rcases htype with rfl | rfl
      · exact hzero
      · exact hone
    rw [hclear, Bool.or_false]
    exact (congrArg _ hmask).trans (Bool.and_true _)

/-- The program of a shader that is set. -/
def programOf (shader : PShader → XenosShader) (p : Option PShader) (index : Nat) :
    Option Program :=
  p.map fun p => .memory ((shader p).shaderPhys index) (shader p).shaderPhysSize

/-- The programs after a shader, if it is set, was loaded into a stage. -/
def Programs.after (ps : Programs) (pixel : Bool) (prog : Option Program) : Programs :=
  if pixel then { ps with pixel := prog.or ps.pixel } else { ps with vertex := prog.or ps.vertex }

theorem stored_load {index : Nat} {type : Word}
    (hs : xe.loadShader shader p index type = some xe') : Stored xe xe' := by
  cases p with
  | none =>
    cases hs
    exact Stored.refl
  | some p =>
    have hput : Stored xe (xe.rput [0xc0012700, (shader p).shaderPhys index ||| type,
        (shader p).shaderPhysSize]) := Stored.of_ring rfl
    exact hput.trans (stored_shaderConstants hs).1

theorem part_load {index : Nat} {type : Word}
    (htype : type = 0 ∨ type = 1) (hs : xe.loadShader shader p index type = some xe')
    (h : xe.ring.Leaves g d) :
    xe'.ring.Leaves g ⟨d.regs, d.other.after (type.getLsbD 0) (programOf shader p index)⟩ := by
  cases p with
  | none =>
    cases hs
    rw [programOf, Programs.after]
    split
    · exact h
    · exact h
  | some p =>
    obtain ⟨haddr, hstage⟩ := address_of_aligned ((shader p).aligned index) htype
    have hrun : Runs gpuPacket [0xc0012700, (shader p).shaderPhys index ||| type,
        (shader p).shaderPhysSize] (fun d : Gpu => d.packet3 gpuPacket 0x27
          [(shader p).shaderPhys index ||| type, (shader p).shaderPhysSize]) :=
      Runs.type3 rfl (cons_ne_nil _ _)
    have heffect : d.packet3 gpuPacket 0x27
        [(shader p).shaderPhys index ||| type, (shader p).shaderPhysSize] =
        ⟨d.regs, d.other.after (type.getLsbD 0) (programOf shader (some p) index)⟩ := by
      rw [Device.packet3, gpuPacket, Programs.load, haddr, hstage]
      rfl
    rw [(stored_shaderConstants hs).2, ← heffect]
    exact h.rput hrun

/-- What the GPU knows of the shaders that are set: program control, context
and the programs themselves. -/
structure ShadersLoaded (shader : PShader → XenosShader) (xe : XenosDevice) (d : Gpu) : Prop where
  control : d.regs 0x2180 = ofShader shader xe.ps XenosShader.programControl |||
    ofShader shader xe.vs XenosShader.programControl
  context : d.regs 0x2181 = ofShader shader xe.ps XenosShader.contextMisc |||
    ofShader shader xe.vs XenosShader.contextMisc
  pixel : xe.ps ≠ none → d.other.pixel = programOf shader xe.ps 0
  vertex : xe.vs ≠ none → d.other.vertex = programOf shader xe.vs xe.vsIndex

theorem ShadersLoaded.congr (h : ShadersLoaded shader xe d)
    (hregs : ∀ k, 0x2180 ≤ k → k < 0x2182 → d'.regs k = d.regs k) (hother : d'.other = d.other)
    (hps : xe'.ps = xe.ps) (hvs : xe'.vs = xe.vs) (hindex : xe'.vsIndex = xe.vsIndex) :
    ShadersLoaded shader xe' d' := by
  refine ⟨?_, ?_, ?_, ?_⟩
  · rw [hregs 0x2180 (by omega) (by omega), hps, hvs]
    exact h.control
  · rw [hregs 0x2181 (by omega) (by omega), hps, hvs]
    exact h.context
  · rw [hother, hps]
    exact h.pixel
  · rw [hother, hvs, hindex]
    exact h.vertex

theorem programOf_or {index : Nat} {prog : Option Program}
    (hp : p ≠ none) : (programOf shader p index).or prog = programOf shader p index := by
  cases p with
  | none => exact absurd rfl hp
  | some p => rfl

theorem runs_programControl (a b c : Word) : Runs gpuPacket [0x00022180, a, b, c]
    (fun d : Gpu => d.setRange 0x2180 [a, b, c]) := Runs.type0 rfl (cons_ne_nil _ _)

theorem part_shader (hs : xe.whenDirty dirtyShader (XenosDevice.uploadShader shader) = some xe')
    (h : xe.ring.Leaves g d) :
    Stored xe xe' ∧ ∃ d', xe'.ring.Leaves g d' ∧
      (∀ k, k < 0x2180 ∨ 0x2183 ≤ k → d'.regs k = d.regs k) ∧
      (xe.isDirty dirtyShader = true → ShadersLoaded shader xe d') ∧
      (xe.isDirty dirtyShader = false → d' = d) := by
  rcases whenDirty_cases hs with ⟨hflag, hs⟩ | ⟨hflag, rfl⟩
  · -- the pixel shader, the vertex shader, the control packet
    obtain ⟨xe₁, h₁, hs⟩ := Option.bind_eq_some_iff.mp hs
    obtain ⟨xe₂, h₂, hs⟩ := Option.bind_eq_some_iff.mp hs
    have hst₁ := stored_load h₁
    have hst₂ := stored_load h₂
    have hl₂ := part_load (.inl rfl) h₂ (part_load (.inr rfl) h₁ h)
    have hframe := (hst₁.trans hst₂).frame
    have hps : xe₂.ps = xe.ps := by rw [hframe]
    have hvs : xe₂.vs = xe.vs := by rw [hframe]
    have hvs₁ : xe₁.vs = xe.vs := by rw [hst₁.frame]
    have hindex₁ : xe₁.vsIndex = xe.vsIndex := by rw [hst₁.frame]
    cases hs
    refine ⟨(hst₁.trans hst₂).trans (Stored.of_ring rfl), _,
      hl₂.rput (runs_programControl _ _ _), fun k hk => ?_, fun _ => ?_, fun hf => ?_⟩
    · exact Device.regs_setRange_out hk
    · refine ⟨?_, ?_, fun hp => ?_, fun hp => ?_⟩
      · rw [← hps, ← hvs]
        rfl
      · rw [← hps, ← hvs]
        rfl
      · exact programOf_or hp
      · rw [hvs₁, hindex₁]
        exact programOf_or hp
    · rw [hflag] at hf
      cases hf
  · rw [hflag]
    exact ⟨Stored.refl, d, h, fun _ _ => rfl, fun hf => (nomatch hf), fun _ => rfl⟩

/-! ### The whole of Xe_pSetState -/

/-- A bank of registers after its part: the array if the flag was set, and
what it was before otherwise. -/
def Refreshed (flag : Bool) (a : Nat → Word) (reg n : Nat) (d d' : Gpu) : Prop :=
  ∀ i < n, d'.regs (reg + i) = if flag then a i else d.regs (reg + i)

/-- `Xe_pSetState` from `xe` to `xe'`, and the GPU from `d` to `d'`.  The
shadow state when the constants are sent is that of `x`: the shaders' own
constants have been stored by then. -/
structure SetsState (shader : PShader → XenosShader) (g : Gpu) (xe x xe' : XenosDevice)
    (d d' : Gpu) : Prop where
  stored : Stored xe x
  frame : xe' = { x with
    aluDirty := if x.isDirty dirtyAlu then 0 else x.aluDirty
    fetchDirty := if x.isDirty dirtyFetch then 0 else x.fetchDirty
    dirty := 0
    ring := xe'.ring }
  leaves : xe'.ring.Leaves g d'
  control : Refreshed (xe.isDirty dirtyControl) xe.controlpacket 0x2200 9 d d'
  programs : if xe.isDirty dirtyShader then ShadersLoaded shader xe d'
    else d'.other = d.other ∧ ∀ k, 0x2180 ≤ k → k < 0x2182 → d'.regs k = d.regs k
  alu : Sent 64 x.aluPending 0#32 x.aluConstants (bank d 0x4000) (bank d' 0x4000)
  fetch : Sent 6 x.fetchPending 0#32 x.fetchConstants (bank d 0x4800) (bank d' 0x4800)
  clip : Refreshed (x.isDirty dirtyClip) x.clipplane 0x2388 24 d d'
  integer : Refreshed (x.isDirty dirtyInteger) x.integerConstants 0x4900 40 d d'
  stencil : Refreshed (x.isDirty dirtyMisc) x.stencildata 0x210c 2 d d'

theorem refreshed_of {flag : Bool} {a : Nat → Word} {d₀ d₁ d₂ d₃ : Gpu}
    (hbefore : ∀ i < n, d₁.regs (reg + i) = d₀.regs (reg + i))
    (hset : flag = true → ∀ i < n, d₂.regs (reg + i) = a i) (hkeep : flag = false → d₂ = d₁)
    (hafter : ∀ i < n, d₃.regs (reg + i) = d₂.regs (reg + i)) :
    Refreshed flag a reg n d₀ d₃ := by
  intro i hi
  rw [hafter i hi]
  cases flag with
  | true => exact hset rfl i hi
  | false =>
    rw [hkeep rfl]
    exact hbefore i hi

theorem sent_of {m : BitVec 32} {B reg : Nat} {a : Nat → Word} {d₀ d₁ d₂ d₃ : Gpu}
    (hbefore : ∀ i < 32 * B, d₁.regs (reg + i) = d₀.regs (reg + i))
    (h : Sent B m 0#32 a (bank d₁ reg) (bank d₂ reg))
    (hafter : ∀ i < 32 * B, d₃.regs (reg + i) = d₂.regs (reg + i)) :
    Sent B m 0#32 a (bank d₀ reg) (bank d₃ reg) := by
  refine ⟨h.mono, fun i hi => ?_⟩
  have h₁ : bank d₁ reg i = bank d₀ reg i := hbefore i hi
  have h₃ : bank d₃ reg i = bank d₂ reg i := hafter i hi
  rw [h₃, ← h₁]
  exact h.dev_eq i hi

/-- **Xe_pSetState**, part by part. -/
theorem setState_sets (hs : xe.setState shader fl = some xe') (h : xe.ring.Leaves g d) :
    ∃ x d', SetsState shader g xe x xe' d d' := by
  obtain ⟨xe₁, h₁, hs⟩ := Option.bind_eq_some_iff.mp hs
  obtain ⟨xe₂, h₂, hs⟩ := Option.bind_eq_some_iff.mp hs
  obtain ⟨xe₃, h₃, hs⟩ := Option.bind_eq_some_iff.mp hs
  obtain ⟨xe₄, h₄, hs⟩ := Option.bind_eq_some_iff.mp hs
  obtain ⟨xe₅, h₅, hs⟩ := Option.bind_eq_some_iff.mp hs
  obtain ⟨xe₆, h₆, hs⟩ := Option.bind_eq_some_iff.mp hs
  obtain ⟨xe₇, h₇, hs⟩ := Option.bind_eq_some_iff.mp hs
  obtain ⟨d₁, p₁, hset₁, hkeep₁⟩ := part_puts h₁ h
    (puts_array 0x2200 9 xe.controlpacket h (by decide) (by decide))
  obtain ⟨hstored, d₂, l₂, k₂, hset₂, hkeep₂⟩ := part_shader h₂ p₁.leaves
  obtain ⟨r₃, d₃, e₃, l₃, hsent₃, k₃, o₃⟩ := part_alu h₃ l₂
  rw [e₃] at h₄
  obtain ⟨r₄, d₄, e₄, l₄, hsent₄, k₄, o₄⟩ := part_fetch h₄ l₃
  rw [e₄] at h₅
  obtain ⟨d₅, p₅, hset₅, hkeep₅⟩ := part_puts h₅ l₄
    (puts_array 0x2388 24 xe₂.clipplane (l₄.align 3) (by decide) (by decide))
  obtain ⟨d₆, p₆, hset₆, hkeep₆⟩ := part_puts h₆ p₅.leaves
    (puts_array 0x4900 40 xe₅.integerConstants (p₅.leaves.align 3) (by decide) (by decide))
  obtain ⟨d₇, p₇, hset₇, hkeep₇⟩ := part_puts h₇ p₆.leaves (puts_misc fl p₆.leaves)
  have k₁ := p₁.keeps
  have k₅ := p₅.keeps
  have k₆ := p₆.keeps
  have k₇ := p₇.keeps
  have hstored₂ : Stored xe xe₂ := (Stored.of_ring p₁.ring).trans hstored
  have hother : d₇.other = d₂.other := by
    rw [p₇.other, p₆.other, p₅.other, o₄, o₃]
  have hprogram : ∀ k, 0x2180 ≤ k → k < 0x2182 → d₇.regs k = d₂.regs k := fun k hlow hhigh => by
    simp (disch := omega) only [k₇, k₆, k₅, k₄, k₃]
  obtain rfl : { xe₇ with dirty := 0 } = xe' := Option.some.inj hs
  -- the later parts find the flags and arrays of `xe₂`
  have hring₅ := p₅.ring
  have hring₆ := p₆.ring
  have hflag₆ : xe₅.isDirty dirtyInteger = xe₂.isDirty dirtyInteger := by rw [hring₅]; rfl
  have hflag₇ : xe₆.isDirty dirtyMisc = xe₂.isDirty dirtyMisc := by rw [hring₆, hring₅]; rfl
  have hint₆ : xe₅.integerConstants = xe₂.integerConstants := by rw [hring₅]
  have hstencil₇ : xe₆.stencildata = xe₂.stencildata := by rw [hring₆, hring₅]
  have hflag₁ : xe₁.isDirty dirtyShader = xe.isDirty dirtyShader := by rw [p₁.ring]; rfl
  refine ⟨xe₂, d₇, ⟨hstored₂, ?_, p₇.leaves, ?_, ?_, ?_, ?_, ?_, ?_, ?_⟩⟩
  · rw [p₇.ring, hring₆, hring₅]
    rfl
  · refine refreshed_of (fun _ _ => rfl) hset₁ hkeep₁ fun i hi => ?_
    simp (disch := omega) only [k₇, k₆, k₅, k₄, k₃, k₂]
  · rw [hflag₁] at hset₂ hkeep₂
    have hring₁ := p₁.ring
    split
    · rename_i hflag
      exact (hset₂ hflag).congr hprogram hother (by rw [hring₁]) (by rw [hring₁]) (by rw [hring₁])
    · rename_i hflag
      have hsame : d₂ = d₁ := hkeep₂ (Bool.eq_false_iff.mpr hflag)
      refine ⟨by rw [hother, hsame, p₁.other], fun k hlow hhigh => ?_⟩
      rw [hprogram k hlow hhigh, hsame, k₁ _ (by omega)]
  · refine sent_of (fun i hi => ?_) hsent₃ fun i hi => ?_
    · simp (disch := omega) only [k₂, k₁]
    · simp (disch := omega) only [k₇, k₆, k₅, k₄]
  · refine sent_of (fun i hi => ?_) hsent₄ fun i hi => ?_
    · simp (disch := omega) only [k₃, k₂, k₁]
    · simp (disch := omega) only [k₇, k₆, k₅]
  · refine refreshed_of (fun i hi => ?_) hset₅ hkeep₅ fun i hi => ?_
    · simp (disch := omega) only [k₄, k₃, k₂, k₁]
    · simp (disch := omega) only [k₇, k₆]
  · rw [hflag₆, hint₆] at hset₆
    rw [hflag₆] at hkeep₆
    refine refreshed_of (fun i hi => ?_) hset₆ hkeep₆ fun i hi => ?_
    · simp (disch := omega) only [k₅, k₄, k₃, k₂, k₁]
    · rw [k₇ _ (by omega)]
  · rw [hflag₇, hstencil₇] at hset₇
    rw [hflag₇] at hkeep₇
    refine refreshed_of (fun i hi => ?_) hset₇ hkeep₇ fun _ _ => rfl
    simp (disch := omega) only [k₆, k₅, k₄, k₃, k₂, k₁]

/-- The shaders that are set fit. -/
def XenosDevice.shadersFit (shader : PShader → XenosShader) (xe : XenosDevice) : Prop :=
  ∀ p, xe.ps = some p ∨ xe.vs = some p → (shader p).fits = true

theorem loadShader_ends (hfits : ∀ q, p = some q → (shader q).fits = true)
    (index : Nat) (type : Word) (xe : XenosDevice) :
    ∃ xe', xe.loadShader shader p index type = some xe' := by
  cases p with
  | none => exact ⟨xe, rfl⟩
  | some q => exact shaderConstants_end (hfits q rfl) _

theorem part_shader_ends (hfits : xe.shadersFit shader) :
    ∃ xe', xe.whenDirty dirtyShader (XenosDevice.uploadShader shader) = some xe' := by
  refine whenDirty_ends dirtyShader _ xe ?_
  obtain ⟨xe₁, h₁⟩ := loadShader_ends (fun q hq => hfits q (.inl hq)) 0 1 xe
  have hvs : xe₁.vs = xe.vs := by rw [(stored_load h₁).frame]
  obtain ⟨xe₂, h₂⟩ := loadShader_ends
    (fun q (hq : xe₁.vs = some q) => hfits q (.inr (hvs.symm.trans hq))) xe₁.vsIndex 0 xe₁
  rw [XenosDevice.uploadShader, h₁]
  exact ⟨_, congrArg (Option.bind · _) h₂⟩

/-- **Xe_pSetState returns** if the shaders that are set fit: the upload loops
always end. -/
theorem setState_ends (fl : Floats) (hfits : xe.shadersFit shader) :
    ∃ xe', xe.setState shader fl = some xe' := by
  obtain ⟨xe₁, h₁⟩ := whenDirty_ends dirtyControl (fun xe => some xe.uploadControl) xe ⟨_, rfl⟩
  -- the control packet touches no shader
  have hfits₁ : xe₁.shadersFit shader := by
    rcases whenDirty_cases h₁ with ⟨-, hup⟩ | ⟨-, rfl⟩
    · obtain rfl := Option.some.inj hup
      exact hfits
    · exact hfits
  obtain ⟨xe₂, h₂⟩ := part_shader_ends hfits₁
  obtain ⟨xe₃, h₃⟩ := part_alu_ends xe₂
  obtain ⟨xe₄, h₄⟩ := part_fetch_ends xe₃
  obtain ⟨xe₅, h₅⟩ := whenDirty_ends dirtyClip (fun xe => some xe.uploadClipPlane) xe₄ ⟨_, rfl⟩
  obtain ⟨xe₆, h₆⟩ :=
    whenDirty_ends dirtyInteger (fun xe => some xe.uploadIntegerConstants) xe₅ ⟨_, rfl⟩
  obtain ⟨xe₇, h₇⟩ :=
    whenDirty_ends dirtyMisc (fun xe => some (xe.rputs (xe.miscPackets fl))) xe₆ ⟨_, rfl⟩
  refine ⟨{ xe₇ with dirty := 0 }, ?_⟩
  simp only [XenosDevice.setState, Option.bind_eq_bind, h₁, h₂, h₃, h₄, h₅, h₆, h₇,
    Option.bind_some]

end LibXenon
