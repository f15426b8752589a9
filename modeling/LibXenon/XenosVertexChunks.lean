/-
LibXenon/XenosVertexChunks.lean

What `Xe_VBPut` puts into the buffers of a chain.

Two models of the chain meet here.  In XenosVertices the chain and the pool are lists of
buffers with their contents, and lengths are natural numbers; in XenosVertexPool they are
links between buffers with memory, and the numbers are those of C.  `VbDevice.listed`
reads the lists off the links.  Each round of `Xe_VBPut` on the links is a round on the
lists (`filling_extend`, `filling_fill`), so that what XenosVertexLists says of the lists
is true of the memory, and the loop on the links ends like the one on the lists
(`vbPutLoop_progress`).

`batch_holds_data` is the result for `Xe_VBBegin`, any number of `Xe_VBPut` and
`Xe_VBEnd`.
-/
import LibXenon.XenosConstants
import LibXenon.XenosRing
import LibXenon.XenosVertexLists
import LibXenon.XenosVertexPool

namespace LibXenon

open Function Pm4 Links SlotLists List

/-! ### `Xe_VBPut` on the links -/

/-- How far a function has come: it needs more rounds, it has stopped in `Xe_Fatal`,
without memory or where C says nothing, or it has returned. -/
inductive VbProgress (α : Type)
  | running
  | stopped
  | done (a : α)

def VbProgress.bind {α β : Type} : VbProgress α → (α → VbProgress β) → VbProgress β
  | .running, _ => .running
  | .stopped, _ => .stopped
  | .done a, f => f a

namespace VbDevice

variable (alloc : Nat → Int → Option Word)

/-- The loop of `Xe_VBPut`, for so many rounds. -/
def vbPutLoop : Nat → VbDevice → List Word → VbProgress VbDevice
  | 0, _, _ => .running
  | rounds + 1, d, data =>
    if data = [] then .done d
    else if d.vbRemaining data.length = 0 then
      match d.vbExtend alloc with
      | some (_, d) => vbPutLoop rounds d data
      | none => .stopped
    else
      match d.vbFill (d.vbRemaining data.length) data with
      | some d' => vbPutLoop rounds d' (data.drop (d.vbRemaining data.length).toNat)
      | none => .stopped

/-- `Xe_VBPut`. -/
def vbPut (rounds : Nat) (d : VbDevice) (data : List Word) : VbProgress VbDevice :=
  if d.vbCurrentPitch = 0 ∨ (data.length : Int).tmod d.vbCurrentPitch ≠ 0 then .stopped
  else vbPutLoop alloc rounds d data

/-- One `Xe_VBPut` after the other. -/
def vbPuts (rounds : Nat) : VbDevice → List (List Word) → VbProgress VbDevice
  | d, [] => .done d
  | d, data :: puts => (d.vbPut alloc rounds data).bind fun d => vbPuts rounds d puts

/-- `Xe_VBBegin`, so many `Xe_VBPut` and `Xe_VBEnd`, with the chain that is returned. -/
def vbBatch (rounds : Nat) (d : VbDevice) (pitch : Int) (puts : List (List Word)) :
    VbProgress (Option Nat × VbDevice) :=
  match d.vbBegin pitch with
  | none => .stopped
  | some d => (vbPuts alloc rounds d puts).bind fun d =>
    match d.vbEnd with
    | none => .running
    | some r => .done (r.1, r.2.1)

end VbDevice

/-! ### The lists of a device -/

/-- A buffer with its contents. -/
def VbBuffer.listed (b : VbBuffer) : XenosVertexBuffer :=
  ⟨b.physBase, b.vertices.toNat, b.size.toNat, b.space.toNat,
    slice b.memory 0 (b.size.toNat / 4), false⟩

/-- The device with lists in place of links; the other fields are those of `xe`. -/
def VbDevice.listed (d : VbDevice) (l : VbRoot → List Nat) (xe : XenosDevice) : XenosDevice :=
  { xe with
    vbChain := (l .vbHead).map fun vb => (d.buffer vb).listed
    vbCurrentPitch := d.vbCurrentPitch.toNat
    vbPool := (l .vbPool).map fun vb => (d.buffer vb).listed
    allocated := d.made }

/-- Memory as the lists see it: sizes are natural, addresses physical. -/
def listedAlloc (alloc : Nat → Int → Option Word) (n size : Nat) : Option Word :=
  (alloc n size).map (· &&& ~~~0x80000000)

section Listed

variable {alloc : Nat → Int → Option Word} {d d' : VbDevice} {l : VbRoot → List Nat} {vb : Nat}
  {data : List Word} {p n : Nat}

theorem listed_empty {b : VbBuffer} (h : b.vertices = 0 ∧ b.size = 0) :
    b.listed = ⟨b.physBase, 0, 0, b.space.toNat, [], false⟩ := by
  rw [VbBuffer.listed, h.1, h.2]
  simp [slice]

theorem listed_update {b : VbBuffer} {vbs : List Nat} (h : vb ∉ vbs) :
    (vbs.map fun c => (update d.buffer vb b c).listed)
      = vbs.map fun c => (d.buffer c).listed := by
  refine map_congr_left fun c hc => ?_
  have hne : c ≠ vb := fun e => h (e ▸ hc)
  rw [update_of_ne hne]

/-- `d'` is `d` with a buffer `vb` emptied, or new, that is no longer in the pool. -/
structure Handing (d : VbDevice) (l : VbRoot → List Nat) (d' : VbDevice) (pool : List Nat)
    (vb : Nat) : Prop where
  free : VbFree d' (update l .vbPool pool) vb
  pitch : d'.vbCurrentPitch = d.vbCurrentPitch
  empty : (d'.buffer vb).vertices = 0 ∧ (d'.buffer vb).size = 0
  others : d'.buffer = update d.buffer vb (d'.buffer vb)

theorem Handing.notMem_head {pool : List Nat} (h : Handing d l d' pool vb) : vb ∉ l .vbHead := by
  have hfree := h.free.free .vbHead
  exact hfree

theorem Handing.listed {pool : List Nat} (h : Handing d l d' pool vb) (xe : XenosDevice) :
    d'.listed (update l .vbPool pool) xe = { d.listed l xe with
      vbPool := pool.map fun c => (d.buffer c).listed
      allocated := d'.made } := by
  have hne : VbRoot.vbHead ≠ .vbPool := nofun
  have hpool := h.free.free .vbPool
  rw [update_self] at hpool
  rw [VbDevice.listed, VbDevice.listed, update_of_ne hne, update_self, h.pitch,
    h.others, listed_update h.notMem_head, listed_update hpool]

theorem taken_handing {l₁ l₂ : List Nat} (h : VbOwned d l) (hl : l .vbPool = l₁ ++ vb :: l₂) :
    Handing d l (d.taken (endSlot (.root .vbPool) l₁) vb) (l₁ ++ l₂) vb := by
  have hbuffer : (d.taken (endSlot (.root .vbPool) l₁) vb).buffer vb
      = { d.buffer vb with size := 0, vertices := 0 } := update_self ..
  refine ⟨taken_free h hl, rfl, ?_, ?_⟩
  · rw [hbuffer]
    exact ⟨rfl, rfl⟩
  · rw [hbuffer]
    rfl

theorem created_handing {size : Int} (h : VbOwned d l)
    (hcreate : d.createVertexBuffer alloc size = some (vb, d')) :
    Handing d l d' (l .vbPool) vb := by
  have hfree := created_free h hcreate
  obtain ⟨base, -, heq⟩ := Option.map_eq_some_iff.mp hcreate
  obtain ⟨rfl, rfl⟩ := Prod.mk.inj heq
  refine ⟨?_, rfl, ?_, ?_⟩
  · rw [update_eq_self]
    exact hfree
  · dsimp only
    rw [update_self]
    exact ⟨rfl, rfl⟩
  · dsimp only
    rw [update_self]

theorem taken_listed (alloc : Nat → Nat → Option Word) (xe : XenosDevice) {size : Nat}
    {l₁ l₂ : List Nat} (hsize : 0 < size) (h : VbOwned d l) (hl : l .vbPool = l₁ ++ vb :: l₂)
    (hbefore : ∀ b ∈ l₁, (d.buffer b).space < size) (hfit : size ≤ (d.buffer vb).space) :
    (d.listed l xe).vbPoolAlloc alloc size
      = some (((d.taken (endSlot (.root .vbPool) l₁) vb).buffer vb).listed,
        (d.taken (endSlot (.root .vbPool) l₁) vb).listed
          (update l .vbPool (l₁ ++ l₂)) xe) := by
  have hhanding := taken_handing h hl
  have hbuffer : (d.taken (endSlot (.root .vbPool) l₁) vb).buffer vb
      = { d.buffer vb with size := 0, vertices := 0 } := update_self ..
  have hfirst : firstFit size (d.listed l xe).vbPool
      = some ((d.buffer vb).listed, (l₁ ++ l₂).map fun c => (d.buffer c).listed) := by
    rw [VbDevice.listed, hl, map_append, map_cons, map_append]
    refine firstFit_append (fun b hb => ?_) ?_
    · obtain ⟨c, hc, rfl⟩ := mem_map.mp hb
      have hlt := hbefore c hc
      dsimp only [VbBuffer.listed]
      omega
    · dsimp only [VbBuffer.listed]
      omega
  rw [XenosDevice.vbPoolAlloc, hfirst, hhanding.listed, listed_empty hhanding.empty, hbuffer]
  rfl

theorem created_listed (xe : XenosDevice) {size : Nat} (hsize : 0 < size) (h : VbOwned d l)
    (hsmall : ∀ b ∈ l .vbPool, (d.buffer b).space < size)
    (hcreate : d.createVertexBuffer alloc size = some (vb, d')) :
    (d.listed l xe).vbPoolAlloc (listedAlloc alloc) size
      = some ((d'.buffer vb).listed,
        d'.listed (update l .vbPool (l .vbPool)) xe) := by
  have hhanding := created_handing h hcreate
  have hfirst : firstFit size (d.listed l xe).vbPool = none := by
    refine firstFit_eq_none fun b hb => ?_
    obtain ⟨c, hc, rfl⟩ := mem_map.mp hb
    have hlt := hsmall c hc
    dsimp only [VbBuffer.listed]
    omega
  obtain ⟨base, hbase, heq⟩ := Option.map_eq_some_iff.mp hcreate
  obtain ⟨rfl, rfl⟩ := Prod.mk.inj heq
  rw [XenosDevice.vbPoolAlloc, hfirst, hhanding.listed, listed_empty hhanding.empty,
    XenosDevice.createVertexBuffer]
  dsimp only [listedAlloc, VbDevice.listed]
  rw [hbase, update_self]
  rfl

/-- `Xe_VBPoolAlloc` on the links does what it does on the lists. -/
theorem vbPoolAlloc_listed (alloc : Nat → Int → Option Word) (xe : XenosDevice) (h : VbOwned d l)
    {size : Nat} (hsize : 0 < size) :
    (d.vbPoolAlloc alloc size = none ∧ alloc d.made size = none) ∨
    ∃ vb d' pool, d.vbPoolAlloc alloc size = some (vb, d') ∧ Handing d l d' pool vb ∧
      (d.listed l xe).vbPoolAlloc (listedAlloc alloc) size
        = some ((d'.buffer vb).listed, d'.listed (update l .vbPool pool) xe) := by
  obtain ⟨l₁, vb, l₂, hl, hbefore, hfit, heq⟩ | ⟨hsmall, heq⟩ := vbPoolAlloc_cases alloc h size
  · exact .inr ⟨vb, _, l₁ ++ l₂, heq, taken_handing h hl,
      taken_listed _ xe hsize h hl hbefore hfit⟩
  · rw [heq]
    cases hcreate : d.createVertexBuffer alloc size with
    | none => exact .inl ⟨rfl, Option.map_eq_none_iff.mp hcreate⟩
    | some r => exact .inr ⟨r.1, r.2, l .vbPool, rfl, created_handing h hcreate,
        created_listed xe hsize h hsmall hcreate⟩

end Listed

/-! ### Rounds on the links -/

/-- The chain of a device holds `words` as the lists say; its numbers have no signs. -/
structure VbFilling (fits : List Nat) (p : Nat) (xe : XenosDevice) (d : VbDevice)
    (l : VbRoot → List Nat) (words : List Word) : Prop where
  owned : VbOwned d l
  pitch : d.vbCurrentPitch = p
  signs : ∀ vb ∈ l .vbHead, 0 ≤ (d.buffer vb).vertices ∧ 0 ≤ (d.buffer vb).size
  packed : Packed fits (d.listed l xe) words

section Rounds

variable {alloc : Nat → Int → Option Word} {fits : List Nat} {p : Nat} {xe : XenosDevice}
  {d d' : VbDevice} {l : VbRoot → List Nat} {words data : List Word} {vb len n : Nat}

theorem listed_pitch (l : VbRoot → List Nat) (xe : XenosDevice) (h : d.vbCurrentPitch = p) :
    (d.listed l xe).vbCurrentPitch = p := by
  rw [VbDevice.listed, h]
  rfl

theorem VbFilling.pitch_pos (h : VbFilling fits p xe d l words) : 0 < p := by
  have hpos := h.packed.pitch
  rw [listed_pitch l xe h.pitch] at hpos
  exact hpos

theorem VbFilling.whole (h : VbFilling fits p xe d l words) (hvb : vb ∈ l .vbHead) :
    (d.buffer vb).listed.Whole p := by
  have hwhole := h.packed.whole (d.buffer vb).listed (mem_map.mpr ⟨vb, hvb, rfl⟩)
  rw [listed_pitch l xe h.pitch] at hwhole
  exact hwhole

theorem VbFilling.bounds (h : VbFilling fits p xe d l words) (hvb : vb ∈ l .vbHead) :
    0 ≤ (d.buffer vb).vertices ∧ 0 ≤ (d.buffer vb).size ∧
      (d.buffer vb).size ≤ (d.buffer vb).space ∧
      (d.buffer vb).size = 4 * (p * (d.buffer vb).vertices) := by
  have hwhole := h.whole hvb
  obtain ⟨hvertices, hsize⟩ := h.signs vb hvb
  have hlen := hwhole.vertices
  have hbytes := hwhole.size
  have hspace := hwhole.space
  have hlarge := hwhole.large
  have hpos := h.pitch_pos
  rw [hlen] at hbytes
  dsimp only [VbBuffer.listed] at hbytes hspace hlarge
  have hprod : (p : Int) * (d.buffer vb).vertices
      = ((p * (d.buffer vb).vertices.toNat : Nat) : Int) := by
    rw [Int.natCast_mul, Int.toNat_of_nonneg hvertices]
  refine ⟨hvertices, hsize, by omega, ?_⟩
  omega

theorem vbRemaining_listed (h : VbFilling fits p xe d l words) (len : Nat) :
    d.vbRemaining len = ((d.listed l xe).vbRemaining len : Int) := by
  have hclip {z : Int} {a : Nat} (hz : z = a) : (if z - z.tmod p > len then (len : Int)
      else z - z.tmod p) = ((min (a - a % p) len : Nat) : Int) := by
    subst hz
    have hle := Nat.mod_le a p
    have hmod : (a : Int).tmod p = ((a % p : Nat) : Int) := rfl
    split
    · omega
    · omega
  rw [VbDevice.vbRemaining, XenosDevice.vbRemaining, listed_pitch l xe h.pitch, h.pitch,
    h.owned.current]
  dsimp only [VbDevice.listed]
  rw [List.getLast?_map]
  cases hlast : (l .vbHead).getLast? with
  | none => exact hclip rfl
  | some vb =>
    obtain ⟨-, hsize, hspace, -⟩ := h.bounds (mem_of_getLast? hlast)
    have hroom : ((d.buffer vb).space - (d.buffer vb).size).tdiv 4
        = (((d.buffer vb).listed.space - (d.buffer vb).listed.size) / 4 : Nat) := by
      dsimp only [VbBuffer.listed]
      rw [Int.tdiv_eq_ediv_of_nonneg (by omega)]
      omega
    exact hclip hroom

theorem Handing.signs {pool : List Nat} (h : Handing d l d' pool vb)
    (hsigns : ∀ c ∈ l .vbHead, 0 ≤ (d.buffer c).vertices ∧ 0 ≤ (d.buffer c).size) :
    ∀ c ∈ l .vbHead ++ [vb], 0 ≤ (d'.buffer c).vertices ∧ 0 ≤ (d'.buffer c).size := by
  rw [forall_mem_append, forall_mem_singleton, h.empty.1, h.empty.2]
  refine ⟨fun c hc => ?_, Int.le_refl 0, Int.le_refl 0⟩
  have hne : c ≠ vb := fun e => h.notMem_head (e ▸ hc)
  rw [h.others, update_of_ne hne]
  exact hsigns c hc

theorem Handing.extended {pool : List Nat} (h : Handing d l d' pool vb) (xe : XenosDevice) :
    VbDevice.listed { d' with
        links := d'.links.set (endSlot (.root .vbHead) (l .vbHead)) (some vb)
        vbCurrent := some vb }
      (update (update l .vbPool pool) .vbHead (l .vbHead ++ [vb])) xe
      = { d'.listed (update l .vbPool pool) xe with
        vbChain := (d.listed l xe).vbChain ++ [(d'.buffer vb).listed] } := by
  have hne : VbRoot.vbPool ≠ .vbHead := nofun
  have hchain : ((l .vbHead).map fun c => (d'.buffer c).listed) = (d.listed l xe).vbChain := by
    rw [h.others, listed_update h.notMem_head]
    rfl
  rw [VbDevice.listed, VbDevice.listed, update_self, update_of_ne hne,
    map_append, hchain]
  rfl

theorem filling_extend (alloc : Nat → Int → Option Word) (h : VbFilling fits p xe d l words)
    (hlen : 0 < len) (hrem : d.vbRemaining len = 0) :
    (d.vbExtend alloc = none ∧
      (isInt (2000 * 3 * p) → alloc d.made (2000 * 3 * p) = none)) ∨
    ∃ vb d' l' b y, d.vbExtend alloc = some (vb, d') ∧ VbFilling fits p xe d' l' words ∧
      d'.vbRemaining len ≠ 0 ∧
      (d.listed l xe).vbPoolAlloc (listedAlloc alloc)
        (2000 * 3 * (d.listed l xe).vbCurrentPitch) = some (b, y) ∧
      d'.listed l' xe = { y with vbChain := (d.listed l xe).vbChain ++ [b] } := by
  have hsize : 2000 * 3 * d.vbCurrentPitch = ((2000 * 3 * p : Nat) : Int) := by
    rw [h.pitch]
    rfl
  have hpos : 0 < 2000 * 3 * p := by
    have hpitch := h.pitch_pos
    omega
  rw [vbExtend_eq alloc h.owned, hsize]
  split
  · obtain ⟨hnone, halloc⟩ | ⟨vb, d', pool, halloc, hhanding, hlist⟩ :=
      vbPoolAlloc_listed alloc xe h.owned hpos
    · rw [hnone]
      exact .inl ⟨rfl, fun _ => halloc⟩
    · have hhead : update l .vbPool pool .vbHead = l .vbHead := by
        have hne : VbRoot.vbHead ≠ .vbPool := nofun
        exact update_of_ne hne ..
      have howned := hhanding.free.extend
      rw [hhead] at howned
      have hrem' : (d.listed l xe).vbRemaining len = 0 := by
        rw [vbRemaining_listed h] at hrem
        exact Int.natCast_eq_zero.mp hrem
      rw [← listed_pitch l xe h.pitch] at hlist
      -- in the model with lists the same buffer is added
      obtain ⟨hpacked, hroom⟩ := packed_extend h.packed hlen hrem' hlist
      rw [← hhanding.extended] at hpacked hroom
      have hfilling := VbFilling.mk howned (hhanding.pitch.trans h.pitch) ?_ hpacked
      · refine .inr ⟨vb, _, _, _, _, ?_, hfilling, ?_, hlist, hhanding.extended xe⟩
        · rw [halloc]
          rfl
        · rw [vbRemaining_listed hfilling]
          exact Int.natCast_ne_zero.mpr hroom
      · rw [update_self]
        exact hhanding.signs h.signs
  · rename_i hint
    exact .inl ⟨rfl, fun h => absurd h hint⟩

/-- A buffer with words copied behind the others. -/
def VbBuffer.filled (b : VbBuffer) (pitch : Int) (data : List Word) : VbBuffer :=
  { b with
    memory := fun i => if (b.size / 4).toNat ≤ i
      then data.getD (i - (b.size / 4).toNat) (b.memory i) else b.memory i
    size := b.size + (data.length : Int) * 4
    vertices := b.vertices + (data.length : Int).tdiv pitch }

theorem vbFill_eq (hpitch : d.vbCurrentPitch = p) (hcurrent : d.vbCurrent = some vb)
    (hn : n ≤ data.length)
    (hroom : ((d.buffer vb).size / 4).toNat + n ≤ ((d.buffer vb).space / 4).toNat) :
    d.vbFill n data = some { d with
      buffer := update d.buffer vb ((d.buffer vb).filled p (data.take n)) } := by
  have hlen : (data.take n).length = n := by
    rw [length_take, Nat.min_eq_left hn]
  have hsigned : ¬ (n : Int) < 0 := by omega
  rw [VbDevice.vbFill, if_neg hsigned, hcurrent, Int.toNat_natCast, VbBuffer.filled, hlen,
    ← hpitch]
  dsimp only [Option.bind_eq_bind, Option.bind_some]
  rw [memcpy, hlen, if_pos hroom]
  rfl

theorem filled_signs (p : Nat) (data : List Word) {b : VbBuffer} (hvertices : 0 ≤ b.vertices)
    (hsize : 0 ≤ b.size) : 0 ≤ (b.filled p data).vertices ∧ 0 ≤ (b.filled p data).size := by
  have hquot : 0 ≤ (data.length : Int).tdiv p :=
    Int.tdiv_nonneg (Int.natCast_nonneg _) (Int.natCast_nonneg _)
  dsimp only [VbBuffer.filled]
  omega

theorem listed_filled (p : Nat) (data : List Word) {b : VbBuffer} (hvertices : 0 ≤ b.vertices)
    (hsize : 0 ≤ b.size) : (b.filled p data).listed = b.listed.put p data := by
  have hstart : (b.size / 4).toNat = b.size.toNat / 4 := by omega
  have hend : (b.size + (data.length : Int) * 4).toNat / 4
      = b.size.toNat / 4 + data.length := by omega
  have hbytes : (b.size + (data.length : Int) * 4).toNat
      = b.size.toNat + data.length * 4 := by omega
  have hquot : (data.length : Int).tdiv p = ((data.length / p : Nat) : Int) := rfl
  have hcount : (b.vertices + (data.length : Int).tdiv p).toNat
      = b.vertices.toNat + data.length / p := by
    rw [hquot, Int.toNat_add hvertices (Int.natCast_nonneg _), Int.toNat_natCast]
  have hslice := slice_write b.memory 0 (b.size.toNat / 4) data
  rw [Nat.zero_add] at hslice
  rw [VbBuffer.listed, VbBuffer.listed, VbBuffer.filled, XenosVertexBuffer.put]
  rw [hcount, hend, hbytes, hstart, hslice]

theorem listed_last {init : List Nat} (h : VbOwned d l) (hhead : l .vbHead = init ++ [vb])
    (b : VbBuffer) (xe : XenosDevice) :
    VbDevice.listed { d with buffer := update d.buffer vb b } l xe
      = { d.listed l xe with vbChain := (d.listed l xe).vbChain.dropLast ++ [b.listed] } := by
  have hmem : vb ∈ l .vbHead := by
    rw [hhead]
    exact mem_concat_self
  have hpool : vb ∉ l .vbPool := fun hvb => (nomatch h.owns.apart hmem hvb)
  have hinit : vb ∉ init := by
    have hnodup := (h.owns.spans .vbHead).nodup
    rw [hhead, nodup_append] at hnodup
    exact fun hvb => hnodup.2.2 vb hvb vb mem_cons_self rfl
  rw [VbDevice.listed, VbDevice.listed, listed_update hpool, hhead]
  dsimp only
  rw [map_append, map_append, map_singleton, map_singleton,
    dropLast_concat, update_self, listed_update hinit]

theorem filling_fill (h : VbFilling fits p xe d l words) (hdata : p ∣ data.length)
    (hrem : d.vbRemaining data.length ≠ 0) :
    ∃ n d' b, d.vbRemaining data.length = (n : Nat) ∧ 0 < n ∧ n ≤ data.length ∧ p ∣ n ∧
      d.vbFill n data = some d' ∧ VbFilling fits p xe d' l (words ++ data.take n) ∧
      (d.listed l xe).vbChain.getLast? = some b ∧
      d'.listed l xe = { d.listed l xe with
        vbChain := (d.listed l xe).vbChain.dropLast
          ++ [b.put (d.listed l xe).vbCurrentPitch (data.take n)] } ∧
      0 < (b.put (d.listed l xe).vbCurrentPitch (data.take n)).vertices := by
  obtain ⟨n, hn⟩ : ∃ n, n = (d.listed l xe).vbRemaining data.length := ⟨_, rfl⟩
  rw [vbRemaining_listed h, ← hn] at hrem ⊢
  have hpos : 0 < n := Nat.pos_of_ne_zero fun hzero => hrem (congrArg _ hzero)
  obtain hnil | ⟨init, vb, hhead⟩ := eq_nil_or_concat' (l .vbHead)
  · -- an empty chain has no room
    rw [XenosDevice.vbRemaining, VbDevice.listed, hnil] at hn
    simp at hn
    omega
  · have hmem : vb ∈ l .vbHead := by
      rw [hhead]
      exact mem_concat_self
    have hchain : (d.listed l xe).vbChain
        = (d.listed l xe).vbChain.dropLast ++ [(d.buffer vb).listed] := by
      rw [VbDevice.listed, hhead]
      simp
    have hdata' : (d.listed l xe).vbCurrentPitch ∣ data.length := by
      rw [listed_pitch l xe h.pitch]
      exact hdata
    obtain ⟨hpacked, hdvd, hle, hcount⟩ := packed_fill h.packed hchain hdata' hn hpos
    rw [listed_pitch l xe h.pitch] at hdvd
    have hspace := (hpacked.whole _ mem_concat_self).space
    obtain ⟨hvertices, hsize, -, -⟩ := h.bounds hmem
    have hlisted := listed_last h.owned hhead ((d.buffer vb).filled p (data.take n)) xe
    have hput : ((d.buffer vb).filled p (data.take n)).listed
        = (d.buffer vb).listed.put (d.listed l xe).vbCurrentPitch (data.take n) := by
      rw [listed_pitch l xe h.pitch]
      exact listed_filled p _ hvertices hsize
    rw [hput] at hlisted
    have hcurrent : d.vbCurrent = some vb := by
      rw [h.owned.current, hhead, List.getLast?_concat]
    have hfill := vbFill_eq h.pitch hcurrent hle (by
      dsimp only [XenosVertexBuffer.put, VbBuffer.listed] at hspace
      rw [length_take, Nat.min_eq_left hle] at hspace
      omega)
    refine ⟨n, _, (d.buffer vb).listed, rfl, hpos, hle, hdvd, hfill, ?_, ?_, hlisted, hcount⟩
    · refine ⟨vbFill_owned h.owned hfill, h.pitch, ?_, ?_⟩
      · intro c hc
        dsimp only
        by_cases hcvb : c = vb
        · rw [hcvb, update_self]
          exact filled_signs p _ hvertices hsize
        · rw [update_of_ne hcvb]
          exact h.signs c hc
      · rw [hlisted]
        exact hpacked
    · rw [hchain, List.getLast?_concat]

/-! ### The loop -/

/-- The last buffer of the chain has a vertex. -/
def Begun (xe : XenosDevice) : Prop := ∀ vb, xe.vbChain.getLast? = some vb → 0 < vb.vertices

/-- A bound for the rounds that are left: every other one puts something. -/
def VbDevice.pending (d : VbDevice) (len : Nat) : Nat :=
  if d.vbRemaining len = 0 then 2 * len else 2 * len - 1

/-- What `Xe_VBPut` has come to after `n` rounds from `d`.  If it has returned, so has it
on the lists, with the same result. -/
def PutProgress (alloc : Nat → Int → Option Word) (fits : List Nat) (p : Nat) (xe : XenosDevice)
    (d : VbDevice) (l : VbRoot → List Nat) (n : Nat) (words data : List Word) :
    VbProgress VbDevice → Prop
  | .running => n ≤ d.pending data.length
  | .stopped => isInt (2000 * 3 * p) → ∃ k, alloc k (2000 * 3 * p) = none
  | .done d' => ∃ l', (d.listed l xe).vbPutLoop (listedAlloc alloc) n data
      = some (d'.listed l' xe) ∧ VbFilling fits p xe d' l' (words ++ data) ∧
        Begun (d'.listed l' xe)

theorem PutProgress.round {l' : VbRoot → List Nat} {words' data' : List Word}
    {o : VbProgress VbDevice} (h : PutProgress alloc fits p xe d' l' n words' data' o)
    (hpending : d'.pending data'.length < d.pending data.length)
    (hloop : (d.listed l xe).vbPutLoop (listedAlloc alloc) (n + 1) data
      = (d'.listed l' xe).vbPutLoop (listedAlloc alloc) n data')
    (hwords : words' ++ data' = words ++ data) :
    PutProgress alloc fits p xe d l (n + 1) words data o := by
  cases o with
  | running => exact Nat.lt_of_le_of_lt h hpending
  | stopped => exact h
  | done d'' =>
    obtain ⟨l'', hdone, hfilling, hbegun⟩ := h
    rw [hwords] at hfilling
    exact ⟨l'', hloop.trans hdone, hfilling, hbegun⟩

theorem vbPutLoop_progress (alloc : Nat → Int → Option Word) (n : Nat)
    (h : VbFilling fits p xe d l words) (hdata : p ∣ data.length)
    (hbegun : data = [] → Begun (d.listed l xe)) :
    PutProgress alloc fits p xe d l n words data (d.vbPutLoop alloc n data) := by
  induction n generalizing d l words data with
  | zero => exact Nat.zero_le _
  | succ n ih =>
    rw [VbDevice.vbPutLoop]
    split
    · rename_i hnil
      subst hnil
      refine ⟨l, ?_, ?_, hbegun rfl⟩
      · rw [XenosDevice.vbPutLoop, if_pos rfl]
      · rw [append_nil]
        exact h
    · rename_i hne
      have hlen : 0 < data.length := length_pos_iff.mpr hne
      split
      · rename_i hrem
        have hrem' : (d.listed l xe).vbRemaining data.length = 0 := by
          rw [vbRemaining_listed h] at hrem
          exact Int.natCast_eq_zero.mp hrem
        -- no room: a buffer is added, or there is no memory
        obtain ⟨hnone, halloc⟩ | ⟨vb, d', l', b, y, hextend, hfilling, hroom, hlist, hlisted⟩ :=
          filling_extend alloc h hlen hrem
        · rw [hnone]
          exact fun hint => ⟨d.made, halloc hint⟩
        · rw [hextend]
          refine (ih hfilling hdata fun hnil => absurd hnil hne).round ?_ ?_ rfl
          · rw [VbDevice.pending, VbDevice.pending, if_neg hroom, if_pos hrem]
            omega
          · rw [hlisted]
            exact vbPutLoop_extend hne hrem' hlist
      · rename_i hrem
        -- room for `m` words: they go in, and less is pending
        obtain ⟨m, d', b, hm, hpos, hle, hdvd, hfill, hfilling, hlast, hlisted, hcount⟩ :=
          filling_fill h hdata hrem
        have hm' : (d.listed l xe).vbRemaining data.length = m := by
          rw [vbRemaining_listed h] at hm
          exact Int.ofNat_inj.mp hm
        have hdrop : (data.drop m).length = data.length - m := length_drop
        have hbegun' : Begun (d'.listed l xe) := by
          intro b' hb'
          rw [hlisted, List.getLast?_concat] at hb'
          exact Option.some.inj hb' ▸ hcount
        have hrest : p ∣ (data.drop m).length := by
          rw [hdrop]
          exact Nat.dvd_sub hdata hdvd
        rw [hm, hfill]
        refine (ih hfilling hrest fun _ => hbegun').round ?_ ?_ ?_
        · rw [VbDevice.pending, VbDevice.pending, if_neg hrem, hdrop]
          split
          · omega
          · omega
        · rw [hlisted]
          exact vbPutLoop_fill hne hm' hpos hlast
        · rw [append_assoc, take_append_drop]

/-! ### Batches -/

/-- The spaces of the buffers of the pool that a batch of this pitch can take. -/
def VbDevice.fitting (d : VbDevice) (l : VbRoot → List Nat) (p : Nat) : List Nat :=
  ((l .vbPool).map fun vb => (d.buffer vb).space.toNat).filter (2000 * 3 * p ≤ ·)

/-- What a number of `Xe_VBPut` has come to. -/
def PutsProgress (alloc : Nat → Int → Option Word) (fits : List Nat) (p : Nat) (xe : XenosDevice)
    (rounds : Nat) (words : List Word) (puts : List (List Word)) : VbProgress VbDevice → Prop
  | .running => ∃ data ∈ puts, rounds ≤ 2 * data.length
  | .stopped => isInt (2000 * 3 * p) → ∃ k, alloc k (2000 * 3 * p) = none
  | .done d' => ∃ l', VbFilling fits p xe d' l' (words ++ puts.flatten) ∧ Begun (d'.listed l' xe)

theorem vbPut_eq (alloc : Nat → Int → Option Word) (rounds : Nat)
    (h : VbFilling fits p xe d l words) (hdata : p ∣ data.length) :
    d.vbPut alloc rounds data = d.vbPutLoop alloc rounds data := by
  have hpitch : (p : Int) ≠ 0 := Int.natCast_ne_zero.mpr (Nat.ne_of_gt h.pitch_pos)
  have heven : (data.length : Int).tmod p = 0 :=
    congrArg Int.ofNat (Nat.mod_eq_zero_of_dvd hdata)
  rw [VbDevice.vbPut, if_neg]
  rw [h.pitch, heven]
  exact fun hor => hor.elim hpitch fun hne => hne rfl

theorem pending_le (d : VbDevice) (len : Nat) : d.pending len ≤ 2 * len := by
  rw [VbDevice.pending]
  split
  · exact Nat.le_refl _
  · exact Nat.sub_le _ _

theorem vbPuts_progress (alloc : Nat → Int → Option Word) (rounds : Nat)
    {puts : List (List Word)} (h : VbFilling fits p xe d l words) (hbegun : Begun (d.listed l xe))
    (hputs : ∀ data ∈ puts, p ∣ data.length) :
    PutsProgress alloc fits p xe rounds words puts (d.vbPuts alloc rounds puts) := by
  induction puts generalizing d l words with
  | nil =>
    refine ⟨l, ?_, hbegun⟩
    rw [flatten_nil, append_nil]
    exact h
  | cons data puts ih =>
    rw [forall_mem_cons] at hputs
    have hloop := vbPutLoop_progress alloc rounds h hputs.1 fun _ => hbegun
    rw [VbDevice.vbPuts, vbPut_eq alloc rounds h hputs.1]
    generalize d.vbPutLoop alloc rounds data = o at hloop ⊢
    cases o with
    | running => exact ⟨data, mem_cons_self, Nat.le_trans hloop (pending_le d _)⟩
    | stopped => exact hloop
    | done d' =>
      obtain ⟨l', -, hfilling, hbegun'⟩ := hloop
      have hrest := ih hfilling hbegun' hputs.2
      rw [VbProgress.bind]
      generalize d'.vbPuts alloc rounds puts = o at hrest ⊢
      cases o with
      | running =>
        obtain ⟨data', hmem, hle⟩ := hrest
        exact ⟨data', mem_cons_of_mem _ hmem, hle⟩
      | stopped => exact hrest
      | done d'' =>
        obtain ⟨l'', hfilling'', hbegun''⟩ := hrest
        rw [append_assoc] at hfilling''
        exact ⟨l'', hfilling'', hbegun''⟩

/-- `Xe_VBBegin` with no buffer in the chain. -/
theorem vbBegin_filling (h : VbOwned d l) (hidle : l .vbHead = []) (hp : 0 < p)
    (xe : XenosDevice) :
    ∃ d', d.vbBegin p = some d' ∧ VbFilling (d.fitting l p) p xe d' l [] := by
  have hroot : d.links.root .vbHead = none := by
    rw [root_eq_head h, hidle]
    rfl
  have hcurrent : d.vbCurrent = none := by
    rw [h.current, hidle]
    rfl
  refine ⟨{ d with vbCurrentPitch := p }, ?_, ⟨h.owns, h.current, h.made⟩, rfl, ?_, ?_⟩
  · rw [VbDevice.vbBegin, if_neg]
    exact fun hor => hor.elim (· hroot) (· hcurrent)
  · rw [hidle]
    exact fun vb hvb => absurd hvb not_mem_nil
  · have hchain : (VbDevice.listed { d with vbCurrentPitch := p } l xe).vbChain = [] := by
      rw [VbDevice.listed, hidle]
      rfl
    refine ⟨?_, ?_, ?_, ?_, ⟨0, ?_, fun _ => rfl⟩⟩
    · rw [listed_pitch l xe rfl]
      exact hp
    · rw [hchain]
      rfl
    · rw [hchain]
      exact fun vb hvb => absurd hvb not_mem_nil
    · rw [hchain]
      exact fun vb hvb => absurd hvb not_mem_nil
    · rw [hchain, replicate_zero, append_nil, XenosDevice.fitting, VbDevice.listed,
        map_map]
      rfl

/-- The chain that a batch has returned. -/
structure BatchDone (fits : List Nat) (p : Nat) (words : List Word) (res : Option Nat)
    (d' : VbDevice) (chain : List Nat) : Prop where
  spans : Forward d'.links.next res chain
  made : chain.length < d'.made + 1
  bounds : ∀ vb ∈ chain, 0 ≤ (d'.buffer vb).vertices ∧ 0 ≤ (d'.buffer vb).size ∧
    (d'.buffer vb).size ≤ (d'.buffer vb).space ∧
    (d'.buffer vb).size = 4 * (p * (d'.buffer vb).vertices)
  listed : ∃ y : XenosDevice, y.vbCurrentPitch = p ∧ Packed fits y words ∧ Begun y ∧
    y.vbChain = chain.map fun vb => (d'.buffer vb).listed

/-- What a batch has come to. -/
def BatchProgress (alloc : Nat → Int → Option Word) (fits : List Nat) (p : Nat) (rounds : Nat)
    (puts : List (List Word)) : VbProgress (Option Nat × VbDevice) → Prop
  | .running => ∃ data ∈ puts, rounds ≤ 2 * data.length
  | .stopped => isInt (2000 * 3 * p) → ∃ k, alloc k (2000 * 3 * p) = none
  | .done (res, d') => ∃ chain, BatchDone fits p puts.flatten res d' chain

theorem vbBatch_progress (alloc : Nat → Int → Option Word) (rounds : Nat)
    {puts : List (List Word)} (h : VbOwned d l) (hidle : l .vbHead = []) (hp : 0 < p)
    (hputs : ∀ data ∈ puts, p ∣ data.length) :
    BatchProgress alloc (d.fitting l p) p rounds puts (d.vbBatch alloc rounds p puts) := by
  obtain ⟨d₁, hbegin, hfilling⟩ := vbBegin_filling h hidle hp XenosDevice.cleared
  have hbegun : Begun (d₁.listed l .cleared) := by
    intro vb hvb
    rw [VbDevice.listed, hidle] at hvb
    nomatch hvb
  have hrun := vbPuts_progress alloc rounds hfilling hbegun hputs
  rw [VbDevice.vbBatch, hbegin]
  dsimp only
  generalize d₁.vbPuts alloc rounds puts = o at hrun ⊢
  cases o with
  | running | stopped => exact hrun
  | done d₂ =>
    obtain ⟨l₂, hfilled, hbegun₂⟩ := hrun
    obtain ⟨effects, hend⟩ := vbEnd_eq hfilled.owned
    rw [VbProgress.bind, hend]
    refine ⟨l₂ .vbHead, hfilled.owned.owns.spans .vbHead, length_lt hfilled.owned .vbHead,
      fun vb hvb => hfilled.bounds hvb, d₂.listed l₂ .cleared, ?_, hfilled.packed, hbegun₂, rfl⟩
    exact listed_pitch l₂ .cleared hfilled.pitch

end Rounds

/-- The words in the first `size` bytes of a buffer. -/
def VbDevice.contents (d : VbDevice) (vb : Nat) : List Word :=
  slice (d.buffer vb).memory 0 ((d.buffer vb).size / 4).toNat

section Batches

variable {alloc : Nat → Int → Option Word} {fits : List Nat} {p : Nat} {d d' : VbDevice}
  {l : VbRoot → List Nat} {words : List Word} {res : Option Nat} {chain : List Nat}

theorem BatchDone.contents (h : BatchDone fits p words res d' chain) :
    chain.flatMap d'.contents = words := by
  obtain ⟨y, -, hpacked, -, hchain⟩ := h.listed
  rw [← hpacked.contents, hchain, flatMap_map]
  refine flatMap_congr fun vb _ => ?_
  rw [VbDevice.contents]
  congr 1
  omega

/-- **Batches.**  Between `Xe_VBBegin` and `Xe_VBEnd`, whatever buffers are in the pool, every
`Xe_VBPut` of whole vertices ends, unless there is no memory for a buffer; the chain that
`Xe_VBEnd` returns holds what was put, and each buffer holds as many whole vertices as it
says, within its space. -/
theorem batch_holds_data (alloc : Nat → Int → Option Word) (pitch : Int)
    (puts : List (List Word)) (rounds : Nat) (h : VbOwned d l) (hidle : l .vbHead = [])
    (hpitch : 1 ≤ pitch) (hint : isInt (2000 * 3 * pitch))
    (hputs : ∀ data ∈ puts, pitch ∣ data.length)
    (hrounds : ∀ data ∈ puts, 2 * data.length < rounds) :
    d.vbBatch alloc rounds pitch puts ≠ .running ∧
    (d.vbBatch alloc rounds pitch puts = .stopped → ∃ k, alloc k (2000 * 3 * pitch) = none) ∧
    ∀ res d', d.vbBatch alloc rounds pitch puts = .done (res, d') →
      ∃ chain, Forward d'.links.next res chain ∧
        chain.flatMap d'.contents = puts.flatten ∧
        ∀ vb ∈ chain, 0 ≤ (d'.buffer vb).vertices ∧
          (d'.buffer vb).size = 4 * (pitch * (d'.buffer vb).vertices) ∧
          (d'.buffer vb).size ≤ (d'.buffer vb).space := by
  obtain ⟨p, rfl⟩ := Int.eq_ofNat_of_zero_le (Int.le_trans (by decide) hpitch)
  have hrun := vbBatch_progress alloc rounds h hidle (Int.ofNat_lt.mp hpitch)
    fun data hdata => Int.ofNat_dvd.mp (hputs data hdata)
  refine ⟨fun hcase => ?_, fun hcase => ?_, fun res d' hcase => ?_⟩
  · rw [hcase] at hrun
    obtain ⟨data, hdata, hle⟩ := hrun
    exact Nat.not_le_of_lt (hrounds data hdata) hle
  · rw [hcase] at hrun
    exact hrun hint
  · rw [hcase] at hrun
    obtain ⟨chain, hdone⟩ := hrun
    refine ⟨chain, hdone.spans, hdone.contents, fun vb hvb => ?_⟩
    obtain ⟨hvertices, -, hspace, hsize⟩ := hdone.bounds vb hvb
    exact ⟨hvertices, hsize, hspace⟩

/-- A put that fills a buffer after `Xe_Init`, and a vertex more. -/
theorem filled_holds_data :
    ∃ res d' chain,
      (VbSystem.init fun _ => noBuffer).device.vbBatch pageAlloc 9001 3
        [List.replicate 4500 7, [8, 9, 10]] = .done (res, d') ∧
      Forward d'.links.next res chain ∧
      chain.flatMap d'.contents = List.replicate 4500 7 ++ [8, 9, 10] := by
  have hinit := (good_init fun _ => noBuffer).owned
  have hputs {P : Nat → Prop} (hlong : P 4500) (hshort : P 3) : ∀ data ∈
      ([List.replicate 4500 7, [8, 9, 10]] : List (List Word)), P data.length := by
    rw [forall_mem_cons, forall_mem_singleton, length_replicate]
    exact ⟨hlong, hshort⟩
  obtain ⟨hrunning, hstopped, hdone⟩ := batch_holds_data pageAlloc 3
    [List.replicate 4500 7, [8, 9, 10]] 9001 hinit rfl (by decide) (by decide)
    (hputs (P := fun k => (3 : Int) ∣ k) (by decide) (by decide))
    (hputs (P := fun k => 2 * k < 9001) (by decide) (by decide))
  cases hcase : (VbSystem.init fun _ => noBuffer).device.vbBatch pageAlloc 9001 3
      [List.replicate 4500 7, [8, 9, 10]] with
  | running => exact absurd hcase hrunning
  | stopped =>
    obtain ⟨k, hk⟩ := hstopped hcase
    nomatch hk
  | done r =>
    obtain ⟨chain, hchain, hcontents, -⟩ := hdone r.1 r.2 hcase
    exact ⟨r.1, r.2, chain, rfl, hchain, hcontents⟩

end Batches

end LibXenon
