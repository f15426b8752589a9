/-
LibXenon/XenosVertices.lean

Vertex buffers that are filled piece by piece: `Xe_VBBegin`, `Xe_VBPut`,
`Xe_VBEnd` and the pool the buffers come from.

`Xe_VBPut` takes a buffer from the pool, the first with enough space, when the
current one is full, and makes a new one if there is none.  `Xe_pAlloc` is a
parameter: `alloc n size` is the physical address of the `n`-th block it hands
out, or `none` if it is out of memory.
-/
import LibXenon.Xenos

namespace LibXenon

open Pm4

/-- `Xe_pInvalidateGpuCache`. -/
def invalidateGpuCache (base size : Word) : List (List Word) :=
  [[0x00000a31, 0x01000000],
    [0x00010a2f, size, base],
    [0xc0043c00, 0x00000003, 0x00000a31, 0x00000000, 0x80000000, 0x00000008]]

/-- `Xe_pInvalidateGpuCacheAll`. -/
def invalidateGpuCacheAll (base size : Word) : List (List Word) :=
  [[0x00000a31, 0x03000100],
    [0x00010a2f, size, base],
    [0xc0043c00, 0x00000003, 0x00000a31, 0x00000000, 0x80000000, 0x00000008]]

/-- The first buffer of a pool with enough space, and the others. -/
def firstFit (size : Nat) :
    List XenosVertexBuffer → Option (XenosVertexBuffer × List XenosVertexBuffer)
  | [] => none
  | vb :: pool =>
    if size ≤ vb.space then some (vb, pool)
    else (firstFit size pool).map fun r => (r.1, vb :: r.2)

section Alloc

variable (alloc : Nat → Nat → Option Word)

/-- `Xe_CreateVertexBuffer`. -/
def XenosDevice.createVertexBuffer (xe : XenosDevice) (size : Nat) :
    Option (XenosVertexBuffer × XenosDevice) :=
  (alloc xe.allocated size).map fun phys =>
    (⟨phys, 0, 0, size, [], false⟩, { xe with allocated := xe.allocated + 1 })

/-- `Xe_VBPoolAlloc`. -/
def XenosDevice.vbPoolAlloc (xe : XenosDevice) (size : Nat) :
    Option (XenosVertexBuffer × XenosDevice) :=
  match firstFit size xe.vbPool with
  | some (vb, pool) =>
    some ({ vb with
      size := 0
      vertices := 0
      contents := [] }, { xe with vbPool := pool })
  | none => xe.createVertexBuffer alloc size

/-- How many words of `data` go into the current buffer. -/
def XenosDevice.vbRemaining (xe : XenosDevice) (len : Nat) : Nat :=
  let remaining := match xe.vbChain.getLast? with
    | some vb => (vb.space - vb.size) / 4
    | none => 0
  min (remaining - remaining % xe.vbCurrentPitch) len

/-- Put words into a buffer of the current pitch. -/
def XenosVertexBuffer.put (vb : XenosVertexBuffer) (pitch : Nat) (data : List Word) :
    XenosVertexBuffer :=
  { vb with
    contents := vb.contents ++ data
    size := vb.size + data.length * 4
    vertices := vb.vertices + data.length / pitch }

/-- The loop of `Xe_VBPut`, for so many rounds. -/
def XenosDevice.vbPutLoop : Nat → XenosDevice → List Word → Option XenosDevice
  | 0, _, _ => none
  | rounds + 1, xe, data =>
    if data = [] then some xe
    else if xe.vbRemaining data.length = 0 then do
      let r ← xe.vbPoolAlloc alloc (2000 * 3 * xe.vbCurrentPitch)
      XenosDevice.vbPutLoop rounds { r.2 with vbChain := xe.vbChain ++ [r.1] } data
    else do
      let vb ← xe.vbChain.getLast?
      let n := xe.vbRemaining data.length
      XenosDevice.vbPutLoop rounds
        { xe with
          vbChain := xe.vbChain.dropLast ++ [vb.put xe.vbCurrentPitch (data.take n)] }
        (data.drop n)

/-- `Xe_VBPut`.  Every other round puts at least one word. -/
def XenosDevice.vbPut (xe : XenosDevice) (data : List Word) : Option XenosDevice :=
  if xe.vbCurrentPitch = 0 ∨ data.length % xe.vbCurrentPitch ≠ 0 then none
  else XenosDevice.vbPutLoop alloc (2 * data.length + 1) xe data

end Alloc

/-- `Xe_VBBegin`. -/
def XenosDevice.vbBegin (xe : XenosDevice) (pitch : Nat) : Option XenosDevice :=
  if xe.vbChain = [] then some { xe with vbCurrentPitch := pitch } else none

/-- `Xe_VBEnd`: the chain, and the device with the GPU told about it. -/
def XenosDevice.vbEnd (xe : XenosDevice) : List XenosVertexBuffer × XenosDevice :=
  (xe.vbChain,
    { xe with
      vbChain := []
      ring := xe.ring.rput (xe.vbChain.flatMap fun vb =>
        (invalidateGpuCache vb.physBase (BitVec.ofNat 32 (vb.space + 0x1000))).flatten) })

/-- `Xe_VBPoolAdd`. -/
def XenosDevice.vbPoolAdd (xe : XenosDevice) (chain : List XenosVertexBuffer) : XenosDevice :=
  { xe with vbPoolAfterFrame := xe.vbPoolAfterFrame ++ chain }

/-! ### A buffer from the pool -/

/-- The address of the buffer `Xe_VBPoolAlloc` will return. -/
def XenosDevice.poolAddress (alloc : Nat → Nat → Option Word) (xe : XenosDevice) (size : Nat) :
    Option Word :=
  match firstFit size xe.vbPool with
  | some r => some r.1.physBase
  | none => alloc xe.allocated size

theorem firstFit_space {size : Nat} {pool : List XenosVertexBuffer}
    {r : XenosVertexBuffer × List XenosVertexBuffer} (h : firstFit size pool = some r) :
    size ≤ r.1.space := by
  induction pool generalizing r with
  | nil => cases h
  | cons vb pool ih =>
    rw [firstFit] at h
    split at h
    · rename_i hle
      cases h
      exact hle
    · obtain ⟨r', hr', rfl⟩ := Option.map_eq_some_iff.mp h
      have hspace := ih hr'
      exact hspace

variable {alloc : Nat → Nat → Option Word} {xe xe' y : XenosDevice} {vb : XenosVertexBuffer}

/-- A buffer from the pool, or a new one, is empty and large enough. -/
structure Handed (alloc : Nat → Nat → Option Word) (xe : XenosDevice) (size : Nat)
    (vb : XenosVertexBuffer) (y : XenosDevice) : Prop where
  space : size ≤ vb.space
  empty : vb.size = 0
  address : xe.poolAddress alloc size = some vb.physBase
  frame : y = { xe with
    vbPool := y.vbPool
    allocated := y.allocated }

theorem vbPoolAlloc_handed {size : Nat} (h : xe.vbPoolAlloc alloc size = some (vb, y)) :
    Handed alloc xe size vb y := by
  rw [XenosDevice.vbPoolAlloc] at h
  rcases hfit : firstFit size xe.vbPool with - | ⟨vb', pool⟩
  · rw [hfit] at h
    obtain ⟨phys, hphys, h⟩ := Option.map_eq_some_iff.mp h
    cases h
    refine ⟨le_rfl, rfl, ?_, rfl⟩
    rw [XenosDevice.poolAddress, hfit]
    exact hphys
  · rw [hfit] at h
    cases h
    refine ⟨firstFit_space hfit, rfl, ?_, rfl⟩
    rw [XenosDevice.poolAddress, hfit]

theorem vbRemaining_first {len : Nat} (hchain : xe.vbChain = [vb]) (hempty : vb.size = 0)
    (hpitch : 0 < xe.vbCurrentPitch) (hspace : 2000 * 3 * xe.vbCurrentPitch ≤ vb.space)
    (hroom : len ≤ 1500 * xe.vbCurrentPitch) : xe.vbRemaining len = len := by
  rw [XenosDevice.vbRemaining, hchain]
  simp only [List.getLast?_singleton, hempty, Nat.sub_zero]
  refine Nat.min_eq_right (hroom.trans ?_)
  have hquot : 1500 ≤ vb.space / 4 / xe.vbCurrentPitch := by
    rw [Nat.le_div_iff_mul_le hpitch]
    omega
  have hdiv := Nat.div_add_mod (vb.space / 4) xe.vbCurrentPitch
  have hmul := Nat.mul_le_mul_left xe.vbCurrentPitch hquot
  omega

theorem vbPut_first {data : List Word} (hchain : xe.vbChain = [])
    (hroom : data.length ≤ 1500 * xe.vbCurrentPitch) (hne : data ≠ [])
    (h : xe.vbPut alloc data = some xe') :
    ∃ vb y, Handed alloc xe (2000 * 3 * xe.vbCurrentPitch) vb y ∧
      xe' = { y with vbChain := [vb.put xe.vbCurrentPitch data] } := by
  have hlen : data.length ≠ 0 := fun hzero => hne (List.length_eq_zero_iff.mp hzero)
  have hrounds : 2 * data.length + 1 = 2 * (data.length - 1) + 3 := by omega
  rw [XenosDevice.vbPut] at h
  split at h
  · cases h
  · rename_i hpitch
    rw [not_or] at hpitch
    have hnone : xe.vbRemaining data.length = 0 := by
      rw [XenosDevice.vbRemaining, hchain]
      simp
    -- the first round takes a buffer, the second fills it, the third ends
    rw [hrounds, XenosDevice.vbPutLoop, if_neg hne, if_pos hnone] at h
    obtain ⟨⟨vb, y⟩, halloc, h⟩ := Option.bind_eq_some_iff.mp h
    have hhanded := vbPoolAlloc_handed halloc
    have hpitchEq : y.vbCurrentPitch = xe.vbCurrentPitch := by rw [hhanded.frame]
    have hfull : { y with vbChain := xe.vbChain ++ [vb] }.vbRemaining data.length =
        data.length := by
      refine vbRemaining_first ?_ hhanded.empty ?_ ?_ ?_
      · rw [hchain]
        rfl
      · dsimp only
        omega
      · dsimp only
        rw [hpitchEq]
        exact hhanded.space
      · dsimp only
        rw [hpitchEq]
        exact hroom
    rw [XenosDevice.vbPutLoop, if_neg hne, hfull, if_neg hlen] at h
    simp only [hchain, List.nil_append, List.getLast?_singleton, List.dropLast_singleton,
      List.take_length, List.drop_length] at h
    obtain ⟨vb', hvb', h⟩ := Option.bind_eq_some_iff.mp h
    cases hvb'
    rw [XenosDevice.vbPutLoop, if_pos rfl] at h
    refine ⟨vb, y, hhanded, ?_⟩
    rw [← hpitchEq]
    exact (Option.some.inj h).symm

theorem vbBegin_eq {pitch : Nat} (h : xe.vbBegin pitch = some xe') :
    xe.vbChain = [] ∧ xe' = { xe with vbCurrentPitch := pitch } := by
  rw [XenosDevice.vbBegin] at h
  split at h
  · rename_i hchain
    exact ⟨hchain, (Option.some.inj h).symm⟩
  · cases h

end LibXenon
