/-
LibXenon/XenosResolve.lean

`Xe_ResolveInto` and `Xe_Clear`, and the shadow state after them.

A resolve draws a rectangle with a shader and a vertex buffer of its own.  It
writes the registers for them behind the back of the shadow state and then
sets `dirty` to all ones, so that the next `Xe_pSetState` sends everything
again.  For the fetch constants that is not enough: `DIRTY_FETCH` only makes
`Xe_pUploadFetchConstants` look at `fetch_dirty`, and the block the resolve
overwrote need not be marked there.  `Xe_InvalidateState` sets that mask too.
-/
import LibXenon.XenosConstants
import LibXenon.XenosVertices

namespace LibXenon

open Pm4 DirtyBlocks

/-! ### The functions -/

/-- The two words `Xe_pSetClearValues` computes. -/
def clearWords (colorformat color : Word) : Word × Word :=
  if colorformat = 0 ∨ colorformat = 1 then (color, color)
  else if colorformat = 4 ∨ colorformat = 5 then
    let hi := (color &&& 0xFF000000#32 ||| (color &&& 0x00FF0000#32) >>> 8) >>> 1
    let lo := ((color &&& 0x0000FF00#32) <<< 16 ||| (color &&& 0x000000FF#32) <<< 8) >>> 1
    (hi ||| hi >>> 8 &&& 0x00FF00FF#32, lo ||| lo >>> 8 &&& 0x00FF00FF#32)
  else (0, 0)

/-- `Xe_pSetClearValues`. -/
def XenosDevice.clearValues (xe : XenosDevice) : List (List Word) :=
  [writeReg 0x8c74 xe.clearStencilZ,
    writeReg 0x8c78 (clearWords xe.edramColorformat xe.clearColor).1,
    writeReg 0x8c7c (clearWords xe.edramColorformat xe.clearColor).2]

/-- The pitch of a resolve target; `Xe_Fatal` on other formats. -/
def resolvePitch (surface : XenosSurface) : Option Word :=
  if surface.format &&& 0x3F = 6 then some (surface.wpitch.sdiv 4)
  else if surface.format &&& 0x3F = 26 then some (surface.wpitch.sdiv 8)
  else none

/-- `Xe_ResolveInto`, from the EDRAM layout up to the vertex buffer. -/
def XenosDevice.resolveSetup (xe : XenosDevice) (surface : XenosSurface)
    (source clear pitch : Word) : List (List Word) :=
  [xe.edramLayout,
    [0x00002104, xe.colorMask],
    [0x0005210f, 0x44000000, 0x44000000, 0xc3b40000, 0x43b40000, 0x3f800000, 0x00000000],
    [0x00032318,
      0x00100000#32 ||| ![0#32, 4#32, 6#32] xe.msaaSamples <<< 4 ||| clear <<< 8 ||| source,
      surface.ptr,
      xy32 pitch surface.height,
      0x01000000#32 ||| (surface.format &&& 0x3F) <<< 7 |||
        (surface.format &&& ~~~0x3F).sshiftRight 6]] ++
  xe.clearValues ++
  [[0x00002208, 0x00000006],
    [0x00002208, if clear &&& 1 ≠ 0 ∨ surface.base then 6 else 5],
    [0x00002200, 0x8777],
    [0x000005c8, 0x00020000],
    [0xc0003b00, 0x00000100],
    [0xc0102b00, 0x00000000, 0x0000000f,
      0x10011002, 0x00001200, 0xc4000000, 0x00000000, 0x1003c200, 0x22000000,
      0x00080000, 0x00253b48, 0x00000002, 0xc80f803e, 0x00000000, 0xc2000000,
      0x00000000, 0x00000000, 0x00000000],
    [0x00012180, 0x00010002, 0x00000000],
    [0x00002203, 0x00000000],
    [0x00022100, 0x0000ffff, 0x00000000, 0x00000000],
    [0x00022204, 0x00010000, 0x00010000, 0x00000300],
    [0x00002312, 0x0000ffff],
    [0x0000200d, 0x00000000]]

/-- The fetch constant of the rectangle. -/
def quadFetch (phys : Word) : List Word := [phys ||| 3, 0x1000001a, 0, 0, 0, 0]

/-- The rest of `Xe_ResolveInto`: the draw and the cleanup. -/
def resolveDraw (surface : XenosSurface) : List (List Word) :=
  [[0x00025000, 0x00000000, 0x00000000, 0x00000000],
    [0xc0003600, 0x00030088],
    [0xc0004600, 0x00000006],
    [0x00002007, 0x00000000]] ++
  invalidateGpuCacheAll surface.ptr (surface.wpitch * surface.height) ++
  [[0x0000057e, 0x00010001],
    [0x00002318, 0x00000000],
    [0x0000231b, 0x00000000]]

/-- The commands from the EDRAM layout on. -/
def XenosDevice.resolveStream (xe : XenosDevice) (surface : XenosSurface)
    (source clear pitch : Word) (phys : Word) : List (List Word) :=
  xe.resolveSetup surface source clear pitch ++ [0x00054800 :: quadFetch phys] ++
    resolveDraw surface

/-- They are emitted, and everything counts as dirty. -/
def XenosDevice.resolveEmit (xe : XenosDevice) (surface : XenosSurface)
    (source clear pitch phys : Word) : XenosDevice :=
  { xe.rputs (xe.resolveStream surface source clear pitch phys) with dirty := 0xFFFFFFFF }

section Resolve

variable (alloc : Nat → Nat → Option Word) (fl : Floats)

/-- The corners of the rectangle. -/
def quadVertices (surface : XenosSurface) : List Word :=
  [0xbf000000, 0xbf000000, fl.minusHalf surface.width.toInt, 0, fl.minusHalf surface.width.toInt,
    fl.minusHalf surface.height.toInt]

/-- `Xe_ResolveInto`. -/
def XenosDevice.resolveInto (xe : XenosDevice) (surface : XenosSurface) (source clear : Word) :
    Option XenosDevice := do
  let xe := xe.rput (surfaceClip 0 0 0 0 surface.width surface.height)
  let xe ← xe.vbBegin 2
  let xe ← xe.vbPut alloc (quadVertices fl surface)
  let r := xe.vbEnd
  let xe := r.2.vbPoolAdd r.1
  let vb ← r.1.head?
  let pitch ← resolvePitch surface
  some (xe.resolveEmit surface source clear pitch vb.physBase)

/-- `Xe_Clear`. -/
def XenosDevice.clear (xe : XenosDevice) (flags : Word) : Option XenosDevice := do
  let rt ← xe.rt
  xe.resolveInto alloc fl { rt with base := false } 0 flags

end Resolve

/-! ### What a resolve does to the GPU -/

variable {alloc : Nat → Nat → Option Word} {shader : PShader → XenosShader} {fl : Floats}
variable {g d : Gpu} {xe xe₁ xe' : XenosDevice} {surface : XenosSurface}
variable {source clear pitch : Word}

/-- The registers a resolve leaves alone: stencil data, clip planes, ALU
constants, all but the first six words of the fetch constants, and integer
constants. -/
def resolveKeeps (k : Nat) : Prop :=
  0x210c ≤ k ∧ k < 0x210f ∨ 0x2388 ≤ k ∧ k < 0x23a0 ∨ 0x4000 ≤ k ∧ k < 0x4800 ∨
    0x4806 ≤ k ∧ k < 0x5000

theorem footprint_resolveSetup : (xe.resolveSetup surface source clear pitch).map footprint =
    [(0x2000, 3), (0x2104, 1), (0x210f, 6), (0x2318, 4), (0x231d, 1), (0x231e, 1), (0x231f, 1),
      (0x2208, 1), (0x2208, 1), (0x2200, 1), (0x05c8, 1), (0, 0), (0, 0), (0x2180, 2),
      (0x2203, 1), (0x2100, 3), (0x2204, 3), (0x2312, 1), (0x200d, 1)] := rfl

theorem footprint_resolveDraw : (resolveDraw surface).map footprint =
    [(0x5000, 3), (0, 0), (0, 0), (0x2007, 1), (0x0a31, 1), (0x0a2f, 2), (0, 0), (0x057e, 1),
      (0x2318, 1), (0x231b, 1)] := rfl

theorem wellFormed_invalidateGpuCache (base size : Word) :
    (invalidateGpuCache base size).all wellFormed = true := rfl

theorem Ring.Leaves.packets {r : Ring} (h : r.Leaves g d) {ps : List (List Word)}
    (hw : ps.all wellFormed = true) :
    (r.rput ps.flatten).Leaves g (packetsEffect gpuPacket ps d) :=
  h.rput (Runs.packets ps hw)

/-- What `Xe_ResolveInto` does; `phys` is the address of the vertex buffer. -/
structure Resolved (alloc : Nat → Nat → Option Word) (g : Gpu) (xe xe' : XenosDevice)
    (d d' : Gpu) (phys : Word) : Prop where
  frame : xe' = { xe with
    vbChain := []
    vbCurrentPitch := 2
    vbPool := xe'.vbPool
    vbPoolAfterFrame := xe'.vbPoolAfterFrame
    allocated := xe'.allocated
    ring := xe'.ring
    dirty := 0xFFFFFFFF }
  address : xe.poolAddress alloc (2000 * 3 * 2) = some phys
  leaves : xe'.ring.Leaves g d'
  quad : slice (bank d' 0x4800) 0 6 = quadFetch phys
  keeps : ∀ k, resolveKeeps k → d'.regs k = d.regs k

theorem keeps_resolveSetup {k : Nat} (hk : resolveKeeps k) (d : Gpu) :
    (packetsEffect gpuPacket (xe.resolveSetup surface source clear pitch) d).regs k =
      d.regs k := by
  refine keeps_register ?_ d
  rw [footprint_resolveSetup]
  rw [resolveKeeps] at hk
  simp only [List.all_cons, List.all_nil, apart, Bool.and_eq_true, Bool.or_eq_true,
    decide_eq_true_eq, and_true]
  omega

theorem keeps_resolveDraw {k : Nat} (hk : resolveKeeps k ∨ 0x4800 ≤ k ∧ k < 0x4806) (d : Gpu) :
    (packetsEffect gpuPacket (resolveDraw surface) d).regs k = d.regs k := by
  refine keeps_register ?_ d
  rw [footprint_resolveDraw]
  rw [resolveKeeps] at hk
  simp only [List.all_cons, List.all_nil, apart, Bool.and_eq_true, Bool.or_eq_true,
    decide_eq_true_eq, and_true]
  omega

theorem keeps_invalidateGpuCache {base size : Word} {k : Nat} (hk : resolveKeeps k) (d : Gpu) :
    (packetsEffect gpuPacket (invalidateGpuCache base size) d).regs k = d.regs k := by
  have hfoot : ((invalidateGpuCache base size).map footprint).all (apart 0x2000 0x5000) = true :=
    rfl
  rw [resolveKeeps] at hk
  exact keeps_packets hfoot (by omega) (by omega) d

theorem slice_eq_iff {a b : Nat → Word} {n : Nat} :
    slice a 0 n = slice b 0 n ↔ ∀ i < n, a i = b i := by
  rw [slice, slice, List.map_inj_left]
  simp only [List.mem_range, Nat.zero_add]

theorem slice_quad (e : Gpu) (phys : Word) :
    slice (bank (e.setRange 0x4800 (quadFetch phys)) 0x4800) 0 6 = quadFetch phys := rfl

theorem wellFormed_resolveStream (xe : XenosDevice) (surface : XenosSurface)
    (source clear pitch phys : Word) :
    (xe.resolveStream surface source clear pitch phys).all wellFormed = true := rfl

/-- The quad's fetch constant is what stands in the first block afterwards;
the kept registers are as before. -/
theorem resolveStream_effect (xe : XenosDevice) (surface : XenosSurface)
    (source clear pitch phys : Word) (d : Gpu) :
    slice (bank (packetsEffect gpuPacket (xe.resolveStream surface source clear pitch phys) d)
        0x4800) 0 6 = quadFetch phys ∧
      ∀ k, resolveKeeps k →
        (packetsEffect gpuPacket (xe.resolveStream surface source clear pitch phys) d).regs k =
          d.regs k := by
  obtain ⟨e, he, hkeeps⟩ : ∃ e : Gpu,
      packetsEffect gpuPacket (xe.resolveStream surface source clear pitch phys) d =
        packetsEffect gpuPacket (resolveDraw surface) (e.setRange 0x4800 (quadFetch phys)) ∧
      ∀ k, resolveKeeps k → e.regs k = d.regs k := by
    refine ⟨packetsEffect gpuPacket (xe.resolveSetup surface source clear pitch) d, ?_,
      fun k hk => keeps_resolveSetup hk d⟩
    rfl
  rw [he]
  refine ⟨?_, fun k hk => ?_⟩
  · rw [← slice_quad e phys, slice_eq_iff]
    intro i hi
    exact keeps_resolveDraw (.inr (by omega)) _
  · have hout : k < 0x4800 ∨ 0x4800 + (quadFetch phys).length ≤ k := by
      rw [resolveKeeps] at hk
      change k < 0x4800 ∨ 0x4806 ≤ k
      omega
    rw [keeps_resolveDraw (.inl hk), Device.regs_setRange_out hout, hkeeps k hk]

theorem length_quadVertices : (quadVertices fl surface).length = 6 := rfl

theorem resolveEmit_frame (phys : Word) :
    xe.resolveEmit surface source clear pitch phys =
      { xe with
        ring := (xe.resolveEmit surface source clear pitch phys).ring
        dirty := 0xFFFFFFFF } := rfl

/-- A resolve up to its commands: `z` is the device that emits them, `vb` the
vertex buffer of the rectangle. -/
theorem resolveInto_emits (hr : xe.resolveInto alloc fl surface source clear = some xe') :
    ∃ (vb : XenosVertexBuffer) (z : XenosDevice) (pitch : Word),
      xe' = z.resolveEmit surface source clear pitch vb.physBase ∧
      xe.poolAddress alloc (2000 * 3 * 2) = some vb.physBase ∧
      z = { xe with
        vbChain := []
        vbCurrentPitch := 2
        vbPool := z.vbPool
        vbPoolAfterFrame := z.vbPoolAfterFrame
        allocated := z.allocated
        ring := z.ring } ∧
      z.ring = (xe.ring.rput (surfaceClip 0 0 0 0 surface.width surface.height)).rput
        (invalidateGpuCache vb.physBase (BitVec.ofNat 32 (vb.space + 0x1000))).flatten := by
  obtain ⟨x₁, hbegin, hr⟩ := Option.bind_eq_some_iff.mp hr
  obtain ⟨x₂, hput, hr⟩ := Option.bind_eq_some_iff.mp hr
  obtain ⟨vb, hhead, hr⟩ := Option.bind_eq_some_iff.mp hr
  obtain ⟨pitch, -, hr⟩ := Option.bind_eq_some_iff.mp hr
  obtain ⟨hchain, hx₁⟩ := vbBegin_eq hbegin
  have hchain₁ : x₁.vbChain = [] := by rw [hx₁]; exact hchain
  have hpitch₁ : x₁.vbCurrentPitch = 2 := by rw [hx₁]
  have hroom : (quadVertices fl surface).length ≤ 1500 * x₁.vbCurrentPitch := by
    rw [length_quadVertices]
    omega
  -- the vertices of the quad fit into the first buffer
  obtain ⟨vb', y, hhanded, hx₂⟩ := vbPut_first hchain₁ hroom (List.cons_ne_nil _ _) hput
  have hframe := hhanded.frame
  rw [hx₁] at hframe
  have haddress := hhanded.address
  rw [hx₁] at haddress
  rw [hx₂] at hhead hr
  obtain rfl := Option.some.inj hhead
  refine ⟨vb', _, pitch, (Option.some.inj hr).symm, haddress, ?_, ?_⟩
  · rw [hframe]
    rfl
  · rw [hframe]
    rfl

theorem resolveInto_resolved (hr : xe.resolveInto alloc fl surface source clear = some xe')
    (h : xe.ring.Leaves g d) : ∃ phys d', Resolved alloc g xe xe' d d' phys := by
  obtain ⟨vb, z, pitch, hxe', haddress, hframe, hring⟩ := resolveInto_emits hr
  have hclip : Runs gpuPacket (surfaceClip 0 0 0 0 surface.width surface.height)
      (fun d : Gpu => d.setRange 0x2080 _) := Runs.type0 rfl (List.cons_ne_nil _ _)
  have hcache := (h.rput hclip).packets (wellFormed_invalidateGpuCache vb.physBase
    (BitVec.ofNat 32 (vb.space + 0x1000)))
  rw [← hring] at hcache
  obtain ⟨hquad, hkeeps⟩ := resolveStream_effect z surface source clear pitch vb.physBase
    (packetsEffect gpuPacket (invalidateGpuCache vb.physBase
      (BitVec.ofNat 32 (vb.space + 0x1000))) (d.setRange 0x2080 _))
  refine ⟨vb.physBase, _, ⟨?_, haddress, ?_, hquad, fun k hk => ?_⟩⟩
  · rw [hxe', resolveEmit_frame, hframe]
  · rw [hxe']
    exact hcache.packets (wellFormed_resolveStream z surface source clear pitch vb.physBase)
  · rw [hkeeps k hk, keeps_invalidateGpuCache hk]
    refine Device.regs_setRange_out ?_
    rw [resolveKeeps] at hk
    change k < 0x2080 ∨ 0x2083 ≤ k
    omega

/-! ### Agreement -/

/-- The GPU and the shadow state agree. -/
structure Agrees (shader : PShader → XenosShader) (xe : XenosDevice) (d : Gpu) : Prop where
  control : ∀ i < 9, d.regs (0x2200 + i) = xe.controlpacket i
  fetch : ∀ i < 192, d.regs (0x4800 + i) = xe.fetchConstants i
  alu : ∀ i < 2048, d.regs (0x4000 + i) = xe.aluConstants i
  integer : ∀ i < 40, d.regs (0x4900 + i) = xe.integerConstants i
  clip : ∀ i < 24, d.regs (0x2388 + i) = xe.clipplane i
  stencil : ∀ i < 2, d.regs (0x210c + i) = xe.stencildata i
  programs : ShadersLoaded shader xe d

theorem Refreshed.of_dirty {flag : Bool} {a : Nat → Word} {reg n : Nat} {d d' : Gpu}
    (h : Refreshed flag a reg n d d') (hflag : flag = true) :
    ∀ i < n, d'.regs (reg + i) = a i := by
  intro i hi
  rw [h i hi, if_pos hflag]

theorem isDirty_of_ones (hdirty : xe.dirty = 0xFFFFFFFF) {flag : BitVec 32} (hflag : flag ≠ 0) :
    xe.isDirty flag = true := by
  have hones : (0xFFFFFFFF : BitVec 32) = BitVec.allOnes 32 := by decide
  rw [XenosDevice.isDirty, hdirty, hones, BitVec.allOnes_and]
  simpa using hflag

/-- With every flag set, **Xe_pSetState** restores agreement, but for the
fetch constants that are not marked. -/
theorem setState_restores {x : XenosDevice} {d₁ d' : Gpu}
    (hset : SetsState shader g xe₁ x xe' d₁ d') (hdirty : xe₁.dirty = 0xFFFFFFFF)
    (halu : ∀ i < 2048, d₁.regs (0x4000 + i) = xe₁.aluConstants i) :
    Agrees shader xe' d' ↔ ∀ i < 192, d'.regs (0x4800 + i) = xe'.fetchConstants i := by
  refine ⟨Agrees.fetch, fun hfetch => ?_⟩
  have hframe := hset.frame
  have hstored := hset.stored
  -- the resolve has marked everything
  have hall : ∀ flag : BitVec 32, flag ≠ 0 → xe₁.isDirty flag = true :=
    fun _ => isDirty_of_ones hdirty
  have hinteger : x.isDirty dirtyInteger = true := by
    rcases hstored.integer with h | ⟨-, h⟩
    · exact h
    · exact h.trans (hall _ (by decide))
  have hclip : x.isDirty dirtyClip = true :=
    (hstored.flags dirtyClip (by decide) (by decide)).trans (hall _ (by decide))
  have hmisc : x.isDirty dirtyMisc = true :=
    (hstored.flags dirtyMisc (by decide) (by decide)).trans (hall _ (by decide))
  have hcontrolEq : xe'.controlpacket = xe₁.controlpacket := by rw [hframe, hstored.frame]
  have haluEq : xe'.aluConstants = x.aluConstants := by rw [hframe]
  have hintegerEq : xe'.integerConstants = x.integerConstants := by rw [hframe]
  have hclipEq : xe'.clipplane = x.clipplane := by rw [hframe]
  have hstencilEq : xe'.stencildata = x.stencildata := by rw [hframe]
  have hloaded : ShadersLoaded shader xe₁ d' := by
    have h := hset.programs
    rwa [if_pos (hall _ (by decide))] at h
  refine ⟨?_, hfetch, ?_, ?_, ?_, ?_, ?_⟩
  · rw [hcontrolEq]
    exact hset.control.of_dirty (hall _ (by decide))
  · rw [haluEq]
    exact fun i hi => (hstored.alu _ fun j hj _ => halu j hj).upload hset.alu hi
  · rw [hintegerEq]
    exact hset.integer.of_dirty hinteger
  · rw [hclipEq]
    exact hset.clip.of_dirty hclip
  · rw [hstencilEq]
    exact hset.stencil.of_dirty hmisc
  · exact hloaded.congr (fun _ _ _ => rfl) rfl (by rw [hframe, hstored.frame])
      (by rw [hframe, hstored.frame]) (by rw [hframe, hstored.frame])

/-- `Xe_ResolveInto` with its arguments, or `Xe_Clear`. -/
inductive ResolveCall
  | into (surface : XenosSurface) (source clear : Word)
  | clear (flags : Word)

def XenosDevice.resolveCall (alloc : Nat → Nat → Option Word) (fl : Floats) (xe : XenosDevice) :
    ResolveCall → Option XenosDevice
  | .into surface source clear => xe.resolveInto alloc fl surface source clear
  | .clear flags => xe.clear alloc fl flags

theorem resolveCall_resolved {call : ResolveCall} (hr : xe.resolveCall alloc fl call = some xe')
    (h : xe.ring.Leaves g d) : ∃ phys d', Resolved alloc g xe xe' d d' phys := by
  cases call with
  | into surface source clear => exact resolveInto_resolved hr h
  | clear flags =>
    obtain ⟨rt, -, hr⟩ := Option.bind_eq_some_iff.mp hr
    exact resolveInto_resolved hr h

/-- The fetch constants after a resolve and `Xe_pSetState`: the first block
is the rectangle's unless it was marked. -/
theorem fetch_after_resolve {x : XenosDevice} {d₁ d' : Gpu} {phys : Word}
    (hr : Resolved alloc g xe xe₁ d d₁ phys) (hset : SetsState shader g xe₁ x xe' d₁ d')
    (hfetch : ∀ i < 192, d.regs (0x4800 + i) = xe.fetchConstants i) :
    (∀ i < 192, d'.regs (0x4800 + i) = xe'.fetchConstants i) ↔
      xe.fetchDirty.getLsbD 0 = true ∨ slice xe.fetchConstants 0 6 = quadFetch phys := by
  have hshadow : xe'.fetchConstants = xe.fetchConstants := by
    rw [hset.frame, hset.stored.frame, hr.frame]
  have hdirty : xe₁.isDirty dirtyFetch = true :=
    isDirty_of_ones (by rw [hr.frame]) (by decide)
  have hpending : x.fetchPending = xe.fetchDirty := by
    rw [XenosDevice.fetchPending, hset.stored.flags dirtyFetch (by decide) (by decide), hdirty,
      if_pos rfl, hset.stored.frame, hr.frame]
  have hx : x.fetchConstants = xe.fetchConstants := by rw [hset.stored.frame, hr.frame]
  have hsent := hset.fetch
  rw [hpending, hx] at hsent
  rw [hshadow, ← hr.quad]
  -- beyond the first block nothing has happened
  have hrest : ∀ i < 192, 6 ≤ i → d'.regs (0x4800 + i) = xe.fetchConstants i := by
    intro i hi hlow
    refine (hsent.done hi).trans ?_
    split
    · rfl
    · rw [bank, hr.keeps _ (by rw [resolveKeeps]; omega), hfetch i hi]
  have hfirst : ∀ i < 6, d'.regs (0x4800 + i) =
      if xe.fetchDirty.getLsbD 0 = true then xe.fetchConstants i else bank d₁ 0x4800 i := by
    intro i hi
    have hblock : i / 6 = 0 := by omega
    have h := hsent.done (i := i) (by omega)
    rwa [hblock] at h
  constructor
  · intro heq
    by_cases hmark : xe.fetchDirty.getLsbD 0 = true
    · exact .inl hmark
    · refine .inr (slice_eq_iff.mpr fun i hi => ?_)
      rw [← heq i (by omega), hfirst i hi, if_neg hmark]
  · intro h i hi
    by_cases hlow : i < 6
    · rw [hfirst i hlow]
      split
      · rfl
      · rename_i hmark
        exact (slice_eq_iff.mp (h.resolve_left hmark) i hlow).symm
    · exact hrest i hi (by omega)

/-- **A resolve and the shadow state.**  After `Xe_ResolveInto` or `Xe_Clear`
and `Xe_pSetState` the GPU agrees with the shadow state again exactly if the
first block of fetch constants was marked before, or happened to be the
rectangle's own. -/
theorem agrees_after_resolve_iff {xe₂ : XenosDevice} (call : ResolveCall)
    (hring : xe.ring.emitted = []) (hagrees : Agrees shader xe g)
    (hcall : xe.resolveCall alloc fl call = some xe₁)
    (hstate : xe₁.setState shader fl = some xe₂) :
    Agrees shader xe₂ (xe₂.gpu g) ↔ xe.fetchDirty.getLsbD 0 = true ∨
      (xe.poolAddress alloc 12000).map quadFetch = some (slice xe.fetchConstants 0 6) := by
  have hleaves : xe.ring.Leaves g g := Ring.Leaves.of_nil hring
  obtain ⟨phys, d₁, hr⟩ := resolveCall_resolved hcall hleaves
  obtain ⟨x, d₂, hset⟩ := setState_sets hstate hr.leaves
  have halu : ∀ i < 2048, d₁.regs (0x4000 + i) = xe₁.aluConstants i := by
    have hshadow : xe₁.aluConstants = xe.aluConstants := by rw [hr.frame]
    intro i hi
    rw [hr.keeps _ (by rw [resolveKeeps]; omega), hshadow]
    exact hagrees.alu i hi
  have haddress : xe.poolAddress alloc 12000 = some phys := hr.address
  rw [hset.leaves.gpu_eq, setState_restores hset (by rw [hr.frame]) halu,
    fetch_after_resolve hr hset hagrees.fetch, haddress, Option.map_some, Option.some_inj]
  exact or_congr_right eq_comm

/-- The device of `Xe_Init` with a render target and some blocks of fetch
constants marked. -/
def XenosDevice.withTarget (fetchDirty : BitVec 32) : XenosDevice :=
  { XenosDevice.cleared with
    rt := some smallTexture
    fetchDirty := fetchDirty }

theorem agrees_withTarget (fetchDirty : BitVec 32) :
    Agrees shader (.withTarget fetchDirty) clearedGpu := by
  have hzero : (0 : Word) = 0 ||| 0 := by decide
  exact ⟨fun _ _ => rfl, fun _ _ => rfl, fun _ _ => rfl, fun _ _ => rfl, fun _ _ => rfl,
    fun _ _ => rfl, hzero, hzero, fun h => absurd rfl h, fun h => absurd rfl h⟩

/-- With the first block marked, as after `Xe_SetTexture(xe, 0, NULL)`, a clear
does no harm. -/
theorem agrees_after_marked_clear : ∃ xe₁ xe₂ : XenosDevice,
    (XenosDevice.withTarget 1).clear (fun _ _ => some 0x2000) zeroFloats 3 = some xe₁ ∧
    xe₁.setState (fun _ => smallShader) zeroFloats = some xe₂ ∧
    Agrees (fun _ => smallShader) xe₂ (xe₂.gpu clearedGpu) := by
  have hexec : ((XenosDevice.withTarget 1).clear (fun _ _ => some 0x2000) zeroFloats 3).map
      (fun xe₁ => (xe₁.setState (fun _ => smallShader) zeroFloats).map
        fun xe₂ => xe₂.fetchDirty) = some (some 0) := by decide +kernel
  obtain ⟨xe₁, hclear, hstate⟩ := Option.map_eq_some_iff.mp hexec
  obtain ⟨xe₂, hstate, -⟩ := Option.map_eq_some_iff.mp hstate
  have hiff := agrees_after_resolve_iff (.clear 3) rfl (agrees_withTarget 1) hclear hstate
  exact ⟨xe₁, xe₂, hclear, hstate, hiff.mpr (.inl rfl)⟩

/-- With nothing marked, `Xe_Clear` and `Xe_pSetState` leave the rectangle's
vertex buffer in the first fetch constant. -/
theorem disagrees_after_clear : ∃ xe₁ xe₂ : XenosDevice,
    Agrees (fun _ => smallShader) (.withTarget 0) clearedGpu ∧
    (XenosDevice.withTarget 0).clear (fun _ _ => some 0x2000) zeroFloats 3 = some xe₁ ∧
    xe₁.setState (fun _ => smallShader) zeroFloats = some xe₂ ∧
    (xe₂.gpu clearedGpu).regs 0x4800 = 0x2003 ∧ xe₂.fetchConstants 0 = 0 := by
  have hexec : ((XenosDevice.withTarget 0).clear (fun _ _ => some 0x2000) zeroFloats 3).map
      (fun xe₁ => (xe₁.setState (fun _ => smallShader) zeroFloats).map
        fun xe₂ => ((xe₂.gpu clearedGpu).regs 0x4800, xe₂.fetchConstants 0)) =
      some (some (0x2003, 0)) := by decide +kernel
  obtain ⟨xe₁, hclear, hvals⟩ := Option.map_eq_some_iff.mp hexec
  obtain ⟨xe₂, hstate, hvals⟩ := Option.map_eq_some_iff.mp hvals
  obtain ⟨hreg, hshadow⟩ := Prod.mk.inj hvals
  exact ⟨xe₁, xe₂, agrees_withTarget 0, hclear, hstate, hreg, hshadow⟩

end LibXenon
