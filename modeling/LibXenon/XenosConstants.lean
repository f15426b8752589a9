/-
LibXenon/XenosConstants.lean

The shadow state and the GPU over whole runs.

A run is any sequence of setters and of `Xe_pSetState`.  Between two calls of
`Xe_pSetState` the GPU is behind; what holds all the time is that a block of
constants that is not marked, or an array whose flag is not set, is the same
on both sides.  Each setter keeps this by marking what it stores, and
`Xe_pSetState` turns it into equality.

* ALU, integer and boolean constants follow, whatever is set and whatever
  shaders bring along.
* Fetch constants follow as long as `Xe_SetTexture` is used for the first
  three textures, or for one that is marked already: it passes
  `index + index * 3` to `Xe_DirtyFetch`, which is not in units of three.
-/
import LibXenon.Transition
import LibXenon.XenosState

namespace LibXenon

open Pm4 DirtyBlocks Transition

variable {shader : PShader → XenosShader} {fl : Floats} {g d : Gpu} {xe₀ xe xe' : XenosDevice}

/-- The device `Xe_Init` starts from, `memset(xe, 0, sizeof(*xe))`. -/
def XenosDevice.cleared : XenosDevice where
  aluConstants _ := 0
  fetchConstants _ := 0
  aluDirty := 0
  fetchDirty := 0
  clipplane _ := 0
  integerConstants _ := 0
  controlpacket _ := 0
  stencildata _ := 0
  alpharef := 0
  vs := none
  ps := none
  vsIndex := 0
  dirty := 0
  ring := ⟨0, []⟩
  rt := none
  vpXres := 0
  vpYres := 0
  vpXoffset := 0
  vpYoffset := 0
  vpZnear := 0
  vpZfar := 0
  clearColor := 0
  clearStencilZ := 0
  msaaSamples := 0
  vbChain := []
  vbCurrentPitch := 0
  vbPool := []
  vbPoolAfterFrame := []
  currentVb := none
  edramColorformat := 0
  edramDepthbase := 0
  edramColor0base := 0
  edramHizpitch := 0
  edramPitch := 0
  scissorEnable := false
  scissorLtrb _ := 0
  colorMask := 0
  allocated := 0

/-- A GPU with all registers zero and no programs. -/
def clearedGpu : Gpu := ⟨fun _ => 0, ⟨none, none⟩⟩

/-- Conversions for runs in which no float is computed. -/
def zeroFloats : Floats := ⟨fun _ => 0, fun _ => 0, fun _ => 0⟩

/-! ### ALU and integer constants -/

/-- The calls that set constants. -/
inductive ConstantAction
  | vertexF (start : Nat) (data : List Word) (count : Nat)
  | pixelF (start : Nat) (data : List Word) (count : Nat)
  | vertexB (index : Nat) (value : Bool)
  | pixelB (index : Nat) (value : Bool)
  | pixelShader (sh : Option PShader)
  | vertexShader (sh : PShader) (index : Nat)
  | setState

/-- The arguments that are in range: constants of that shader stage, and
shaders whose tables stay inside the shadow arrays. -/
def inRange (shader : PShader → XenosShader) : ConstantAction → Bool
  | .vertexF start _ count | .pixelF start _ count => start + count ≤ 256
  | .vertexB index _ | .pixelB index _ => index < 128
  | .pixelShader sh => sh.all fun p => (shader p).fits
  | .vertexShader sh _ => (shader sh).fits
  | .setState => true

def constantStep (shader : PShader → XenosShader) (fl : Floats) (xe : XenosDevice) :
    ConstantAction → Option XenosDevice
  | .vertexF start data count => xe.setVertexShaderConstantF start data count
  | .pixelF start data count => xe.setPixelShaderConstantF start data count
  | .vertexB index value => xe.setVertexShaderConstantB index value
  | .pixelB index value => xe.setPixelShaderConstantB index value
  | .pixelShader sh => some (xe.setPixelShader sh)
  | .vertexShader sh index => xe.setVertexShader shader sh index
  | .setState => xe.setState shader fl

/-- Block marks are only there together with the flag.  Every function of
xe.c keeps this. -/
def XenosDevice.Flagged (xe : XenosDevice) : Prop :=
  xe.aluDirty ≠ 0 → xe.isDirty dirtyAlu = true

/-- What is not marked has arrived. -/
structure ConstantsFollow (shader : PShader → XenosShader) (g : Gpu) (xe : XenosDevice)
    (d : Gpu) : Prop where
  leaves : xe.ring.Leaves g d
  alu : Synced 64 xe.aluPending xe.aluConstants (bank d 0x4000)
  integer : xe.isDirty dirtyInteger = false →
    ∀ i < 40, d.regs (0x4900 + i) = xe.integerConstants i
  flagged : xe.Flagged
  fit : xe.shadersFit shader

theorem ConstantsFollow.store (h : ConstantsFollow shader g xe d) (hs : Stored xe xe')
    (hring : xe'.ring = xe.ring) : ConstantsFollow shader g xe' d := by
  refine ⟨hring ▸ h.leaves, hs.alu _ h.alu, fun hclear => ?_, hs.marked h.flagged, ?_⟩
  · rcases hs.integer with hset | ⟨heq, hflag⟩
    · rw [hset] at hclear
      cases hclear
    · rw [heq]
      exact h.integer (hflag.symm.trans hclear)
  · have hps : xe'.ps = xe.ps := by rw [hs.frame]
    have hvs : xe'.vs = xe.vs := by rw [hs.frame]
    rw [XenosDevice.shadersFit, hps, hvs]
    exact h.fit

theorem stored_constantF {start count : Nat} {data : List Word}
    (hs : xe.setVertexShaderConstantF start data count = some xe') :
    Stored xe xe' ∧ xe'.ring = xe.ring := by
  obtain ⟨alu, hcopy, rfl⟩ := Option.map_eq_some_iff.mp hs
  refine ⟨stored_alu hcopy ?_, rfl⟩
  rw [List.length_take]
  exact Nat.min_le_left _ _

theorem stored_constantB {index : Nat} {value : Bool}
    (hs : xe.setVertexShaderConstantB index value = some xe') :
    Stored xe xe' ∧ xe'.ring = xe.ring := by
  obtain ⟨int, -, rfl⟩ := Option.map_eq_some_iff.mp hs
  exact ⟨stored_integer xe int, rfl⟩

/-- Setting shaders that fit: only `DIRTY_SHADER` is new. -/
theorem ConstantsFollow.setShader (h : ConstantsFollow shader g xe d) {ps vs : Option PShader}
    {index : Nat} (hfit : ∀ p, ps = some p ∨ vs = some p → (shader p).fits = true) :
    ConstantsFollow shader g
      { xe with
        ps := ps
        vs := vs
        vsIndex := index
        dirty := xe.dirty ||| dirtyShader } d := by
  have hor : ∀ flag, dirtyShader &&& flag = 0 →
      { xe with
        ps := ps
        vs := vs
        vsIndex := index
        dirty := xe.dirty ||| dirtyShader }.isDirty flag = xe.isDirty flag :=
    fun flag hf => isDirty_or_of_disjoint rfl hf
  refine ⟨h.leaves, ?_, fun hclear => ?_, fun hne => ?_, hfit⟩
  · rw [XenosDevice.aluPending, hor dirtyAlu (by decide)]
    exact h.alu
  · rw [hor dirtyInteger (by decide)] at hclear
    exact h.integer hclear
  · rw [hor dirtyAlu (by decide)]
    exact h.flagged hne

/-- **Xe_pSetState** brings the GPU up to date. -/
theorem ConstantsFollow.setState (h : ConstantsFollow shader g xe d)
    (hs : xe.setState shader fl = some xe') :
    ∃ d', ConstantsFollow shader g xe' d' ∧ xe'.aluDirty = 0 ∧
      (∀ i < 2048, d'.regs (0x4000 + i) = xe'.aluConstants i) ∧
      ∀ i < 40, d'.regs (0x4900 + i) = xe'.integerConstants i := by
  obtain ⟨x, d', hset⟩ := setState_sets hs h.leaves
  have hframe := hset.frame
  have halu : ∀ i < 2048, d'.regs (0x4000 + i) = x.aluConstants i := fun i hi =>
    (hset.stored.alu _ h.alu).upload hset.alu hi
  have hint : ∀ i < 40, d'.regs (0x4900 + i) = x.integerConstants i := by
    intro i hi
    rw [hset.integer i hi]
    split
    · rfl
    · rename_i hclear
      -- not sent: then the flag was clear before as well
      rcases hset.stored.integer with hflag | ⟨heq, hflag⟩
      · exact absurd hflag hclear
      · rw [heq]
        exact h.integer (hflag.symm.trans (Bool.eq_false_iff.mpr hclear)) i hi
  have hdirty : xe'.aluDirty = 0 := by
    rw [hframe]
    split
    · rfl
    · rename_i hclear
      by_contra hne
      exact hclear (hset.stored.marked h.flagged hne)
  have haluEq : xe'.aluConstants = x.aluConstants := by rw [hframe]
  have hintEq : xe'.integerConstants = x.integerConstants := by rw [hframe]
  have hps : xe'.ps = xe.ps := by rw [hframe, hset.stored.frame]
  have hvs : xe'.vs = xe.vs := by rw [hframe, hset.stored.frame]
  rw [← haluEq] at halu
  rw [← hintEq] at hint
  refine ⟨d', ⟨hset.leaves, fun i hi _ => halu i hi, fun _ => hint, fun hne => ?_, ?_⟩, hdirty,
    halu, hint⟩
  · exact absurd hdirty hne
  · rw [XenosDevice.shadersFit, hps, hvs]
    exact h.fit

theorem ConstantsFollow.step {a : ConstantAction} (h : ConstantsFollow shader g xe d)
    (hr : inRange shader a = true) (hs : constantStep shader fl xe a = some xe') :
    ∃ d', ConstantsFollow shader g xe' d' := by
  cases a with
  | vertexF start data count | pixelF start data count =>
    obtain ⟨hstored, hring⟩ := stored_constantF hs
    exact ⟨d, h.store hstored hring⟩
  | vertexB index value | pixelB index value =>
    obtain ⟨hstored, hring⟩ := stored_constantB hs
    exact ⟨d, h.store hstored hring⟩
  | pixelShader sh =>
    obtain rfl := Option.some.inj hs
    rw [XenosDevice.setPixelShader]
    split
    · refine ⟨d, h.setShader fun p hp => ?_⟩
      rcases hp with rfl | hp
      · exact hr
      · exact h.fit p (.inr hp)
    · exact ⟨d, h⟩
  | vertexShader sh index =>
    rw [constantStep, XenosDevice.setVertexShader] at hs
    split at hs
    · split at hs
      · obtain rfl := Option.some.inj hs
        refine ⟨d, h.setShader fun p hp => ?_⟩
        rcases hp with hp | hp
        · exact h.fit p (.inl hp)
        · cases hp
          exact hr
      · obtain rfl := Option.some.inj hs
        exact ⟨d, h⟩
    · cases hs
  | setState =>
    obtain ⟨d', hfollow, -⟩ := h.setState hs
    exact ⟨d', hfollow⟩

/-- **Constants arrive.**  However constants and shaders are set, the next
`Xe_pSetState` returns with no block marked, and the GPU's ALU and integer
registers are the shadow arrays. -/
theorem constants_arrive (hring : xe₀.ring.emitted = [])
    (halu : ∀ i < 2048, g.regs (0x4000 + i) = xe₀.aluConstants i)
    (hint : ∀ i < 40, g.regs (0x4900 + i) = xe₀.integerConstants i)
    (hflagged : xe₀.Flagged) (hfit : xe₀.shadersFit shader)
    (hrun : Reach (constantStep shader fl) (fun _ a => inRange shader a = true) xe₀ xe) :
    ∃ xe', xe.setState shader fl = some xe' ∧ xe'.aluDirty = 0 ∧
      (∀ i < 2048, (xe'.gpu g).regs (0x4000 + i) = xe'.aluConstants i) ∧
      ∀ i < 40, (xe'.gpu g).regs (0x4900 + i) = xe'.integerConstants i := by
  have hstart : ∃ d, ConstantsFollow shader g xe₀ d :=
    ⟨g, Ring.Leaves.of_nil hring, fun i hi _ => halu i hi, fun _ => hint, hflagged, hfit⟩
  obtain ⟨d, hd⟩ := hrun.invariant (I := fun xe => ∃ d, ConstantsFollow shader g xe d) hstart
    fun _ _ _ ⟨d, h⟩ hr hs => h.step hr hs
  obtain ⟨xe', hs⟩ := setState_ends fl hd.fit
  obtain ⟨d', hfollow, hdirty, halu', hint'⟩ := hd.setState hs
  refine ⟨xe', hs, hdirty, ?_, ?_⟩
  · rw [hfollow.leaves.gpu_eq]
    exact halu'
  · rw [hfollow.leaves.gpu_eq]
    exact hint'

/-- A shader file with one float table entry (two words for constant 1) and
one integer table entry (a word for register 0x2304). -/
def smallShader : XenosShader where
  image := [0, 0, 0, 0, 0, 0, 0, 0, 0, 0, 0, 0, 0, 0, 0, 0, 0, 0, 0, 0, 0, 0, 0, 4,
    0, 1, 0, 2, 0, 0, 0, 52, 0, 0, 0, 0,
    0x23, 4, 0, 1, 0, 0, 0, 5, 0, 0, 0, 0, 0, 0, 0, 0,
    0x3f, 0x80, 0, 0, 0x40, 0, 0, 0]
  shaderPhys _ := 0x1000
  shaderPhysSize := 24
  programControl := 1
  contextMisc := 2
  shaderInstance _ := true
  aligned _ := by decide

/-- Two vertex constants, a boolean and a shader, and then `Xe_pSetState`:
the shader's own constants arrive as well. -/
theorem constants_arrive_after_shader : ∃ xe xe' : XenosDevice,
    Reach (constantStep (fun _ => smallShader) zeroFloats)
      (fun _ a => inRange (fun _ => smallShader) a = true) .cleared xe ∧
    xe.setState (fun _ => smallShader) zeroFloats = some xe' ∧ xe'.aluDirty = 0 ∧
    (xe'.gpu clearedGpu).regs 0x4004 = 0x3f800000 ∧ (xe'.gpu clearedGpu).regs 0x4901 = 5 := by
  obtain ⟨xe, hreach, xe', hs, halu₄, hint₁⟩ :
      ∃ xe, Reach (constantStep (fun _ => smallShader) zeroFloats)
        (fun _ a => inRange (fun _ => smallShader) a = true) .cleared xe ∧
      ∃ xe', xe.setState (fun _ => smallShader) zeroFloats = some xe' ∧
        xe'.aluConstants 4 = 0x3f800000 ∧ xe'.integerConstants 1 = 5 :=
    exists_reach [.vertexF 15 [1, 2, 3, 4, 5, 6, 7, 8] 2, .pixelB 127 true, .vertexShader 0 0]
      (by decide +kernel)
  have halu₀ : ∀ i < 2048, clearedGpu.regs (0x4000 + i) = XenosDevice.cleared.aluConstants i :=
    fun _ _ => rfl
  have hint₀ : ∀ i < 40, clearedGpu.regs (0x4900 + i) = XenosDevice.cleared.integerConstants i :=
    fun _ _ => rfl
  obtain ⟨_, hs', hdirty, halu, hint⟩ := constants_arrive rfl halu₀ hint₀
    (fun h => absurd rfl h) (fun p hp => by rcases hp with hp | hp <;> cases hp) hreach
  cases hs.symm.trans hs'
  exact ⟨xe, xe', hreach, hs, hdirty, (halu 4 (by decide)).trans halu₄,
    (hint 1 (by decide)).trans hint₁⟩

/-! ### Fetch constants -/

/-- The calls that set fetch constants. -/
inductive FetchAction
  | setTexture (index : Nat) (tex : Option XenosSurface)
  | setStreamSource (vb : XenosVertexBuffer) (offset : Word)
  | setState

/-- Textures 0 to 30; texture 31 would share its words with stream 0. -/
def textureStep (shader : PShader → XenosShader) (fl : Floats) (xe : XenosDevice) :
    FetchAction → Option XenosDevice
  | .setTexture index tex => if index ≤ 30 then xe.setTexture index tex else none
  | .setStreamSource vb offset => xe.setStreamSource 0 vb offset
  | .setState => xe.setState shader fl

/-- `Xe_SetTexture` marks the words of a texture only for the first three. -/
def marksTexture (xe : XenosDevice) : FetchAction → Bool
  | .setTexture index _ => index ≤ 2 || xe.fetchDirty.getLsbD index
  | .setStreamSource _ _ | .setState => true

theorem synced_storeFetch {fetch dev : Nat → Word} {vals : List Word} {start base len k : Nat}
    {x : XenosDevice} (h : Synced 6 xe.fetchPending xe.fetchConstants dev)
    (hx : x.fetchDirty = xe.fetchDirty)
    (hcopy : memcpy 192 xe.fetchConstants start vals = some fetch)
    (hblock : ∀ i, start ≤ i → i < start + vals.length → i / 6 = k)
    (hmarked : (x.dirtyFetchConstant base len).fetchDirty.getLsbD k = true) :
    Synced 6 (x.dirtyFetchConstant base len).fetchPending fetch dev := by
  have hflag : (x.dirtyFetchConstant base len).isDirty dirtyFetch = true :=
    isDirty_or_self x rfl (by decide)
  rw [XenosDevice.fetchPending, if_pos hflag]
  refine h.store (fun i hi => getLsbD_mark_mono _ ?_) fun i hi hclear => ?_
  · rw [hx]
    exact getLsbD_of_pending hi
  · refine (memcpy_eq_some hcopy).2 i ?_
    by_contra hin
    rw [hblock i (by omega) (by omega), hmarked] at hclear
    cases hclear

/-- What is not marked has arrived. -/
structure FetchFollows (g : Gpu) (xe : XenosDevice) (d : Gpu) : Prop where
  leaves : xe.ring.Leaves g d
  fetch : Synced 6 xe.fetchPending xe.fetchConstants (bank d 0x4800)

theorem length_textureWords {tex : Option XenosSurface} {vals : List Word}
    (h : textureWords tex = some vals) : vals.length = 6 := by
  cases tex with
  | none =>
    cases h
    rfl
  | some tex =>
    obtain ⟨pitch, -, rfl⟩ := Option.map_eq_some_iff.mp h
    rfl

theorem FetchFollows.setTexture {index : Nat} {tex : Option XenosSurface}
    (h : FetchFollows g xe d) (hle : index ≤ 30)
    (hm : index ≤ 2 ∨ xe.fetchDirty.getLsbD index = true)
    (hs : xe.setTexture index tex = some xe') : FetchFollows g xe' d := by
  obtain ⟨vals, hvals, hs⟩ := Option.bind_eq_some_iff.mp hs
  obtain ⟨fetch, hcopy, hs⟩ := Option.bind_eq_some_iff.mp hs
  obtain rfl := Option.some.inj hs
  have hlen := length_textureWords hvals
  refine ⟨h.leaves, synced_storeFetch (k := index) h.fetch rfl hcopy (fun i hlow hhigh => by omega) ?_⟩
  rcases hm with hm | hm
  · -- `4 * index / 3` is `index` below three
    exact (getLsbD_mark (by decide) xe.fetchDirty (by omega) le_rfl).mpr (.inr (by omega))
  · exact getLsbD_mark_mono _ hm

theorem FetchFollows.setStreamSource {vb : XenosVertexBuffer} {offset : Word}
    (h : FetchFollows g xe d) (hs : xe.setStreamSource 0 vb offset = some xe') :
    FetchFollows g xe' d := by
  rw [XenosDevice.setStreamSource] at hs
  split at hs
  · cases hs
  · obtain ⟨fetch, hcopy, rfl⟩ := Option.map_eq_some_iff.mp hs
    refine ⟨h.leaves, synced_storeFetch (k := 31) h.fetch rfl hcopy (fun i hlow hhigh => ?_) ?_⟩
    · simp only [vertexFetch, List.length_cons, List.length_nil] at hhigh
      omega
    · exact (getLsbD_mark (by decide) xe.fetchDirty (by omega) le_rfl).mpr (.inr (by omega))

theorem FetchFollows.setState (h : FetchFollows g xe d) (hs : xe.setState shader fl = some xe') :
    ∃ d', FetchFollows g xe' d' ∧ ∀ i < 192, d'.regs (0x4800 + i) = xe'.fetchConstants i := by
  obtain ⟨x, d', hset⟩ := setState_sets hs h.leaves
  have hframe := hset.frame
  have hfetch : x.fetchConstants = xe.fetchConstants := by rw [hset.stored.frame]
  have hpending : x.fetchPending = xe.fetchPending := by
    rw [XenosDevice.fetchPending, XenosDevice.fetchPending,
      hset.stored.flags dirtyFetch (by decide) (by decide), hset.stored.frame]
  have hsent := hset.fetch
  rw [hfetch, hpending] at hsent
  have hfetch' : xe'.fetchConstants = xe.fetchConstants := by rw [hframe, ← hfetch]
  have heq : ∀ i < 192, d'.regs (0x4800 + i) = xe'.fetchConstants i := by
    intro i hi
    rw [hfetch']
    exact h.fetch.upload hsent hi
  exact ⟨d', ⟨hset.leaves, fun i hi _ => heq i hi⟩, heq⟩

theorem FetchFollows.step {a : FetchAction} (h : FetchFollows g xe d)
    (hm : marksTexture xe a = true) (hs : textureStep shader fl xe a = some xe') :
    ∃ d', FetchFollows g xe' d' := by
  cases a with
  | setTexture index tex =>
    rw [textureStep] at hs
    rw [marksTexture, Bool.or_eq_true, decide_eq_true_eq] at hm
    split at hs
    · rename_i hle
      exact ⟨d, h.setTexture hle hm hs⟩
    · cases hs
  | setStreamSource vb offset => exact ⟨d, h.setStreamSource hs⟩
  | setState =>
    obtain ⟨d', hfollow, -⟩ := h.setState hs
    exact ⟨d', hfollow⟩

theorem textureStep_shaders {a : FetchAction} (h : xe.ring.Leaves g d)
    (hs : textureStep shader fl xe a = some xe') : xe'.ps = xe.ps ∧ xe'.vs = xe.vs := by
  cases a with
  | setTexture index tex =>
    rw [textureStep] at hs
    split at hs
    · obtain ⟨vals, -, hs⟩ := Option.bind_eq_some_iff.mp hs
      obtain ⟨fetch, -, hs⟩ := Option.bind_eq_some_iff.mp hs
      obtain rfl := Option.some.inj hs
      exact ⟨rfl, rfl⟩
    · cases hs
  | setStreamSource vb offset =>
    rw [textureStep, XenosDevice.setStreamSource] at hs
    split at hs
    · cases hs
    · obtain ⟨fetch, -, rfl⟩ := Option.map_eq_some_iff.mp hs
      exact ⟨rfl, rfl⟩
  | setState =>
    obtain ⟨x, d', hset⟩ := setState_sets hs h
    rw [hset.frame, hset.stored.frame]
    exact ⟨rfl, rfl⟩

/-- **Fetch constants arrive** as long as every `Xe_SetTexture` is for a
texture below three or one whose block is marked already: after each
`Xe_pSetState` the GPU's fetch constants are the shadow array.  It always
returns, if the shaders that are set fit. -/
theorem fetch_arrives (hring : xe₀.ring.emitted = [])
    (hfetch : ∀ i < 192, g.regs (0x4800 + i) = xe₀.fetchConstants i)
    (hrun : Reach (textureStep shader fl) (fun xe a => marksTexture xe a = true) xe₀ xe) :
    (∀ xe', xe.setState shader fl = some xe' →
      ∀ i < 192, (xe'.gpu g).regs (0x4800 + i) = xe'.fetchConstants i) ∧
    (xe₀.shadersFit shader → ∃ xe', xe.setState shader fl = some xe') := by
  obtain ⟨d, hd, hps, hvs⟩ := hrun.invariant
    (I := fun xe => ∃ d, FetchFollows g xe d ∧ xe.ps = xe₀.ps ∧ xe.vs = xe₀.vs)
    ⟨g, ⟨Ring.Leaves.of_nil hring, fun i hi _ => hfetch i hi⟩, rfl, rfl⟩
    fun xe a xe' ⟨d, h, hps, hvs⟩ hm hs => by
      obtain ⟨d', h'⟩ := h.step hm hs
      obtain ⟨hps', hvs'⟩ := textureStep_shaders h.leaves hs
      exact ⟨d', h', hps'.trans hps, hvs'.trans hvs⟩
  refine ⟨fun xe' hs => ?_, fun hfit => ?_⟩
  · obtain ⟨d', hfollow, heq⟩ := hd.setState hs
    rw [hfollow.leaves.gpu_eq]
    exact heq
  · refine setState_ends fl ?_
    rw [XenosDevice.shadersFit, hps, hvs]
    exact hfit

/-- A texture of 64 by 64 in format 8888. -/
def smallTexture : XenosSurface where
  width := 64
  height := 64
  wpitch := 256
  tiled := 1
  format := 6
  ptr := 0x100000
  ptrMip := 0
  useFiltering := 1
  uAddressing := 0
  vAddressing := 0
  base := true

/-- Texture 2 and then texture 3, whose block texture 2 has marked as well. -/
theorem fetch_arrives_for_neighbours : ∃ xe xe' : XenosDevice,
    Reach (textureStep (fun _ => smallShader) zeroFloats)
      (fun xe a => marksTexture xe a = true) .cleared xe ∧
    xe.setState (fun _ => smallShader) zeroFloats = some xe' ∧
    ∀ i < 192, (xe'.gpu clearedGpu).regs (0x4800 + i) = xe'.fetchConstants i := by
  obtain ⟨xe, hreach, -⟩ : ∃ xe, Reach (textureStep (fun _ => smallShader) zeroFloats)
      (fun xe a => marksTexture xe a = true) .cleared xe ∧ xe.fetchDirty = 0b11100 :=
    exists_reach [.setTexture 2 (some smallTexture), .setTexture 3 (some smallTexture)]
      (by decide +kernel)
  have hfetch₀ : ∀ i < 192, clearedGpu.regs (0x4800 + i) = XenosDevice.cleared.fetchConstants i :=
    fun _ _ => rfl
  obtain ⟨harrive, hends⟩ := fetch_arrives rfl hfetch₀ hreach
  obtain ⟨xe', hs⟩ := hends fun p hp => by rcases hp with hp | hp <;> cases hp
  exact ⟨xe, xe', hreach, hs, harrive xe' hs⟩

/-- Texture 3 alone: block 4 is marked and sent, block 3 is not, and the GPU
keeps the old texture. -/
theorem texture_three_lost : ∃ xe xe' : XenosDevice,
    (∀ i < 192, clearedGpu.regs (0x4800 + i) = XenosDevice.cleared.fetchConstants i) ∧
    Reach (textureStep (fun _ => smallShader) zeroFloats) (fun _ _ => True) .cleared xe ∧
    xe.setState (fun _ => smallShader) zeroFloats = some xe' ∧
    (xe'.gpu clearedGpu).regs (0x4800 + 18) = 0 ∧ xe'.fetchConstants 18 = 0x80800002 := by
  obtain ⟨xe, hr, xe', hs, hvals⟩ :
      ∃ xe, Reach (textureStep (fun _ => smallShader) zeroFloats) (fun _ _ => True) .cleared xe ∧
      ∃ xe', xe.setState (fun _ => smallShader) zeroFloats = some xe' ∧
        (xe'.gpu clearedGpu).regs (0x4800 + 18) = 0 ∧ xe'.fetchConstants 18 = 0x80800002 :=
    exists_reach [.setTexture 3 (some smallTexture)] (by decide +kernel)
  exact ⟨xe, xe', fun _ _ => rfl, hr, hs, hvals⟩

end LibXenon
