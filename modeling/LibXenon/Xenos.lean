/-
LibXenon/Xenos.lean

The Xenos driver's shadow state: `struct XenosDevice` of xe.h and the functions
of xe.c that set it, mark it dirty, and send it to the GPU.

The CPU keeps a copy of the GPU's ALU constants, fetch constants, integer
constants, clip planes, control registers and stencil data.  A setter changes
the copy and sets a bit of `dirty`; for the ALU and fetch constants it also
marks blocks in a second mask.  `Xe_pSetState` emits packets for what is dirty.
Commands go into the secondary ring; here the ring is the list of words
emitted, with the write pointer, on which the filler of `Xe_pAlign` depends.

A function that can end in `Xe_Fatal`, `abort`, a failed `assert`, a loop that
does not end or an access outside an array has an `Option` result.  Floating
point is not interpreted: a `float` is its 32 bits, and `Floats` has the
conversions the code applies to integers.
-/
import LibXenon.DirtyBlocks
import LibXenon.Pm4
import Mathlib.Data.Fin.VecNotation

namespace LibXenon

open Pm4 DirtyBlocks

/-! ### Data -/

/-- The bits of the floats computed from integers. -/
structure Floats where
  /-- `x / 2.0` -/
  half : Int → Word
  /-- `x - .5` -/
  minusHalf : Int → Word
  /-- the conversion of an `unsigned int` -/
  ofUnsigned : Word → Word

/-- A shader object, by number. -/
abbrev PShader := Nat

/-- `struct XenosShader`.  `image` is the shader file in memory. -/
structure XenosShader where
  image : List UInt8
  shaderPhys : Nat → Word
  shaderPhysSize : Word
  programControl : Word
  contextMisc : Word
  shaderInstance : Nat → Bool
  /-- `Xe_InstantiateShader` allocates with an alignment of 0x100 -/
  aligned : ∀ i, shaderPhys i &&& 0xFF = 0

/-- `struct XenosSurface`; `base` says whether the pointer is set. -/
structure XenosSurface where
  width : Word
  height : Word
  wpitch : Word
  tiled : Word
  format : Word
  ptr : Word
  ptrMip : Word
  useFiltering : Word
  uAddressing : Word
  vAddressing : Word
  base : Bool

/-- `struct XenosVertexBuffer`; `contents` are the words put so far and
`locked` says whether `lock.start` is set. -/
structure XenosVertexBuffer where
  physBase : Word
  vertices : Nat
  size : Nat
  space : Nat
  contents : List Word
  locked : Bool

/-- The secondary ring: the write pointer and the words emitted. -/
structure Ring where
  wptr : Nat
  emitted : List Word

/-- `struct XenosDevice`.  Of an array only the entries below its length
exist: 2048 ALU constants, 192 fetch constants, 24 words of clip planes, 40
integer constants, 9 control registers, 2 stencil words, 4 scissor
coordinates.  The linked lists of vertex buffers are lists; `vb_head` is the
first and `vb_current` the last of `vbChain`. -/
structure XenosDevice where
  aluConstants : Nat → Word
  fetchConstants : Nat → Word
  aluDirty : BitVec 32
  fetchDirty : BitVec 32
  clipplane : Nat → Word
  integerConstants : Nat → Word
  controlpacket : Nat → Word
  stencildata : Nat → Word
  alpharef : Word
  vs : Option PShader
  ps : Option PShader
  vsIndex : Nat
  dirty : BitVec 32
  ring : Ring
  rt : Option XenosSurface
  vpXres : Word
  vpYres : Word
  vpXoffset : Word
  vpYoffset : Word
  vpZnear : Word
  vpZfar : Word
  clearColor : Word
  clearStencilZ : Word
  msaaSamples : Fin 3
  vbChain : List XenosVertexBuffer
  vbCurrentPitch : Nat
  vbPool : List XenosVertexBuffer
  vbPoolAfterFrame : List XenosVertexBuffer
  currentVb : Option XenosVertexBuffer
  edramColorformat : Word
  edramDepthbase : Word
  edramColor0base : Word
  edramHizpitch : Word
  edramPitch : Word
  scissorEnable : Bool
  scissorLtrb : Nat → Word
  colorMask : Word
  /-- blocks `Xe_pAlloc` has handed out so far -/
  allocated : Nat

def dirtyAlu : BitVec 32 := 0x0001
def dirtyFetch : BitVec 32 := 0x0002
def dirtyClip : BitVec 32 := 0x0004
def dirtyInteger : BitVec 32 := 0x0008
def dirtyControl : BitVec 32 := 0x0010
def dirtyShader : BitVec 32 := 0x0020
def dirtyMisc : BitVec 32 := 0x0040

/-- `xe->dirty & flag`. -/
def XenosDevice.isDirty (xe : XenosDevice) (flag : BitVec 32) : Bool := xe.dirty &&& flag != 0

/-- Copy words into an array of `size` entries. -/
def memcpy (size : Nat) (a : Nat → Word) (start : Nat) (vals : List Word) :
    Option (Nat → Word) :=
  if start + vals.length ≤ size then
    some fun i => if start ≤ i then vals.getD (i - start) (a i) else a i
  else none

/-- `len` words of an array. -/
def slice (a : Nat → Word) (start len : Nat) : List Word :=
  (List.range len).map fun i => a (start + i)

/-! ### Emitting -/

/-- `rput32` and `rput`. -/
def Ring.rput (r : Ring) (ws : List Word) : Ring :=
  { wptr := r.wptr + ws.length, emitted := r.emitted ++ ws }

/-- `Xe_pAlign`, for so many rounds. -/
def Ring.align : Nat → Ring → Ring
  | 0, r => r
  | rounds + 1, r => if r.wptr % 4 ≠ 3 then Ring.align rounds (r.rput [0x80000000]) else r

def XenosDevice.rput (xe : XenosDevice) (ws : List Word) : XenosDevice :=
  { xe with ring := xe.ring.rput ws }

/-- `Xe_pAlign`: three words always suffice. -/
def XenosDevice.align (xe : XenosDevice) : XenosDevice := { xe with ring := xe.ring.align 3 }

/-- Several packets, each with its header first. -/
def XenosDevice.rputs (xe : XenosDevice) (ps : List (List Word)) : XenosDevice :=
  xe.rput ps.flatten

/-- `CP_PACKET0(reg, 0)` and a value: `Xe_pWriteReg`. -/
def writeReg (reg val : Word) : List Word := [reg >>> 2, val]

def xy32 (x y : Word) : Word := x ||| y <<< 16

/-! ### Marking -/

/-- `Xe_DirtyAluConstant`. -/
def XenosDevice.dirtyAluConstant (xe : XenosDevice) (base len : Nat) : XenosDevice :=
  { xe with
    aluDirty := mark 16 (len + base % 16) xe.aluDirty (base / 16) (len + base % 16)
    dirty := xe.dirty ||| dirtyAlu }

/-- `Xe_DirtyFetch`. -/
def XenosDevice.dirtyFetchConstant (xe : XenosDevice) (base len : Nat) : XenosDevice :=
  { xe with
    fetchDirty := mark 3 (len + base % 3) xe.fetchDirty (base / 3) (len + base % 3)
    dirty := xe.dirty ||| dirtyFetch }

/-! ### Fetch constants -/

def vertexFetch (base len : Word) : List Word := [base ||| 3, 0x10000002 ||| len <<< 2]

/-- The pitch field of `TEXTURE_FETCH`; `abort()` on an unknown format. -/
def pitchField (format pitch : Word) : Option Word :=
  if format &&& 0x3F = 2 then some (pitch.sdiv 32)
  else if format &&& 0x3F = 3 then some (pitch.sdiv 64)
  else if format &&& 0x3F = 4 then some (pitch.sdiv 64)
  else if format &&& 0x3F = 26 then some (pitch.sdiv 256)
  else if format &&& 0x3F = 6 then some (pitch.sdiv 128)
  else none

/-- `TEXTURE_FETCH`. -/
def textureFetch (base width height pitch tiled format baseMip anisop filter uaddr vaddr : Word) :
    Option (List Word) :=
  (pitchField format pitch).map fun (pitch : Word) =>
    [0x00000002#32 ||| pitch <<< 22 ||| tiled <<< 31 ||| uaddr <<< 10 ||| vaddr <<< 13,
      base ||| format,
      height <<< 13 ||| width,
      0x00a00c14#32 ||| anisop <<< 25 ||| filter <<< 19,
      if baseMip ≠ 0 then 0x00000e03 else 0,
      0x00000a00 ||| baseMip]

/-- The six words `Xe_SetTexture` stores. -/
def textureWords : Option XenosSurface → Option (List Word)
  | some tex =>
    textureFetch tex.ptr (tex.width - 1) (tex.height - 1) tex.wpitch tex.tiled tex.format
      tex.ptrMip 2 tex.useFiltering tex.uAddressing tex.vAddressing
  | none => some (List.replicate 6 0)

/-- `Xe_SetTexture`. -/
def XenosDevice.setTexture (xe : XenosDevice) (index : Nat) (tex : Option XenosSurface) :
    Option XenosDevice := do
  let vals ← textureWords tex
  let fetch ← memcpy 192 xe.fetchConstants (index * 6) vals
  some ({ xe with fetchConstants := fetch }.dirtyFetchConstant (index + index * 3) 3)

/-- `Xe_SetStreamSource`; the stride is not used. -/
def XenosDevice.setStreamSource (xe : XenosDevice) (index : Nat) (vb : XenosVertexBuffer)
    (offset : Word) : Option XenosDevice :=
  if vb.locked then none
  else
    (memcpy 192 xe.fetchConstants ((95 + index) * 2)
      (vertexFetch (vb.physBase + offset) (BitVec.ofNat 32 vb.space - offset))).map fun fetch =>
        { xe with
          fetchConstants := fetch
          currentVb := some vb }.dirtyFetchConstant (95 + index) 1

/-! ### ALU, integer and boolean constants -/

/-- `Xe_SetVertexShaderConstantF`; `data` has four words per constant. -/
def XenosDevice.setVertexShaderConstantF (xe : XenosDevice) (start : Nat) (data : List Word)
    (count : Nat) : Option XenosDevice :=
  (memcpy 2048 xe.aluConstants (start * 4) (data.take (count * 4))).map fun alu =>
    { xe with aluConstants := alu }.dirtyAluConstant start count

/-- `Xe_SetPixelShaderConstantF`. -/
def XenosDevice.setPixelShaderConstantF (xe : XenosDevice) (start : Nat) (data : List Word)
    (count : Nat) : Option XenosDevice :=
  xe.setVertexShaderConstantF (start + 256) data count

/-- `Xe_SetVertexShaderConstantB`. -/
def XenosDevice.setVertexShaderConstantB (xe : XenosDevice) (index : Nat) (value : Bool) :
    Option XenosDevice :=
  let bit : Word := (1 : Word) <<< (index % 32)
  let old := xe.integerConstants (index / 32)
  (memcpy 40 xe.integerConstants (index / 32)
    [if value then old ||| bit else old &&& ~~~bit]).map fun int =>
      { xe with
        integerConstants := int
        dirty := xe.dirty ||| dirtyInteger }

/-- `Xe_SetPixelShaderConstantB`. -/
def XenosDevice.setPixelShaderConstantB (xe : XenosDevice) (index : Nat) (value : Bool) :
    Option XenosDevice :=
  xe.setVertexShaderConstantB (index + 128) value

/-! ### Constants in a shader file -/

/-- A big-endian half word of the file. -/
def u16At (image : List UInt8) (pos : Nat) : Option Nat := do
  let hi ← image[pos]?
  let lo ← image[pos + 1]?
  some (hi.toNat * 256 + lo.toNat)

def u32At (image : List UInt8) (pos : Nat) : Option Word := do
  let hi ← u16At image pos
  let lo ← u16At image (pos + 2)
  some (BitVec.ofNat 32 (hi * 65536 + lo))

def wordsAt (image : List UInt8) (pos count : Nat) : Option (List Word) :=
  (List.range count).mapM fun i => u32At image (pos + 4 * i)

/-- An entry of a constant table: where it goes, and as many words as its
`count` says. -/
structure ConstantEntry where
  start : Nat
  values : List Word

/-- The float constants from `pos` on; their values are found from `code`
on.  Also returned is where the table ends. -/
def floatTable (image : List UInt8) (code : Nat) : Nat → Nat → Option (List ConstantEntry × Nat)
  | 0, _ => none
  | rounds + 1, pos => do
      let start ← u16At image pos
      let count ← u16At image (pos + 2)
      if count = 0 then some ([], pos + 4)
      else
        let offset ← u32At image (pos + 4)
        let values ← wordsAt image (code + offset.toNat) count
        let rest ← floatTable image code rounds (pos + 8)
        some (⟨start, values⟩ :: rest.1, rest.2)

/-- The integer constants, with their values in the table itself. -/
def intTable (image : List UInt8) : Nat → Nat → Option (List ConstantEntry)
  | 0, _ => none
  | rounds + 1, pos => do
      let start ← u16At image pos
      let count ← u16At image (pos + 2)
      if count = 0 then some []
      else
        let values ← wordsAt image (pos + 4) count
        let rest ← intTable image rounds (pos + 4 + count * 4 + 4)
        some (⟨start, values⟩ :: rest)

/-- The float and integer constants of a shader.  Reading them does not look
at the device, so they are read first and stored afterwards; an entry takes at
least four bytes. -/
def constantTables (image : List UInt8) : Option (List ConstantEntry × List ConstantEntry) := do
  let offConstants ← u32At image 20
  if offConstants = 0 then some ([], [])
  else
    let offset ← u32At image 4
    let floats ← floatTable image offset.toNat (image.length + 1) (offConstants.toNat + 20)
    let ints ← intTable image (image.length + 1) floats.2
    some (floats.1, ints)

/-- `memcpy(xe->alu_constants + start * 4, c, count * 4)`: `count` words are
copied, and `count` constants of four words marked. -/
def XenosDevice.storeFloats (xe : XenosDevice) (e : ConstantEntry) : Option XenosDevice :=
  (memcpy 2048 xe.aluConstants (e.start * 4) e.values).map fun alu =>
    { xe with aluConstants := alu }.dirtyAluConstant e.start e.values.length

/-- `&xe->integer_constants[(start-0x2300)/4]`. -/
def intIndex (start : Nat) : Int := ((start : Int) - 0x2300).tdiv 4

def XenosDevice.storeInts (xe : XenosDevice) (e : ConstantEntry) : Option XenosDevice :=
  if intIndex e.start < 0 then none
  else
    (memcpy 40 xe.integerConstants (intIndex e.start).toNat e.values).map fun int =>
      { xe with
        integerConstants := int
        dirty := xe.dirty ||| dirtyInteger }

/-- `Xe_pUploadShaderConstants`. -/
def XenosDevice.uploadShaderConstants (xe : XenosDevice) (sh : XenosShader) :
    Option XenosDevice := do
  let tables ← constantTables sh.image
  let xe ← tables.1.foldlM XenosDevice.storeFloats xe
  tables.2.foldlM XenosDevice.storeInts xe

/-! ### Xe_pSetState -/

/-- One run of constants: the registers from `reg` on, `B` words per dirty
bit. -/
def sendRun (reg : Word) (B : Nat) (shadow : Nat → Word) (start stop : Nat) (r : Ring) : Ring :=
  (r.align 3).rput
    ((reg ||| BitVec.ofNat 32 (start * B) ||| BitVec.ofNat 32 ((stop - start) * B - 1) <<< 16) ::
      slice shadow (start * B) ((stop - start) * B))

/-- `Xe_pUploadALUConstants`. -/
def XenosDevice.uploadALUConstants (xe : XenosDevice) : Option XenosDevice :=
  (drain (sendRun 0x00004000 64 xe.aluConstants) 33 xe.aluDirty xe.ring).map fun r =>
    { xe with
      aluDirty := r.1
      ring := r.2 }

/-- `Xe_pUploadFetchConstants`. -/
def XenosDevice.uploadFetchConstants (xe : XenosDevice) : Option XenosDevice :=
  (drain (sendRun 0x00004800 6 xe.fetchConstants) 33 xe.fetchDirty xe.ring).map fun r =>
    { xe with
      fetchDirty := r.1
      ring := r.2 }

/-- `Xe_pUploadControl`. -/
def XenosDevice.uploadControl (xe : XenosDevice) : XenosDevice :=
  xe.rput (0x00082200 :: slice xe.controlpacket 0 9)

/-- `Xe_pUploadClipPlane`. -/
def XenosDevice.uploadClipPlane (xe : XenosDevice) : XenosDevice :=
  xe.align.rput (0x00172388 :: slice xe.clipplane 0 24)

/-- `Xe_pUploadIntegerConstants`. -/
def XenosDevice.uploadIntegerConstants (xe : XenosDevice) : XenosDevice :=
  xe.align.rput (0x00274900 :: slice xe.integerConstants 0 40)

section Shaders

variable (shader : PShader → XenosShader)

/-- Load one shader, if it is set, and store its constants. -/
def XenosDevice.loadShader (xe : XenosDevice) (p : Option PShader) (index : Nat) (type : Word) :
    Option XenosDevice :=
  match p with
  | none => some xe
  | some p =>
    (xe.rput [0xc0012700, (shader p).shaderPhys index ||| type,
      (shader p).shaderPhysSize]).uploadShaderConstants (shader p)

/-- A word of a shader that is set. -/
def ofShader (p : Option PShader) (field : XenosShader → Word) : Word :=
  match p with
  | none => 0
  | some p => field (shader p)

/-- `Xe_pUploadShader`: pixel shader, vertex shader, program control. -/
def XenosDevice.uploadShader (xe : XenosDevice) : Option XenosDevice := do
  let xe ← xe.loadShader shader xe.ps 0 1
  let xe ← xe.loadShader shader xe.vs xe.vsIndex 0
  some (xe.rput [0x00022180,
    ofShader shader xe.ps XenosShader.programControl |||
      ofShader shader xe.vs XenosShader.programControl,
    ofShader shader xe.ps XenosShader.contextMisc |||
      ofShader shader xe.vs XenosShader.contextMisc,
    0xFFFFFFFF])

/-- `Xe_SetShader(xe, SHADER_TYPE_PIXEL, sh, index)`. -/
def XenosDevice.setPixelShader (xe : XenosDevice) (sh : Option PShader) : XenosDevice :=
  if xe.ps ≠ sh then
    { xe with
      ps := sh
      dirty := xe.dirty ||| dirtyShader }
  else xe

/-- `Xe_SetShader(xe, SHADER_TYPE_VERTEX, sh, index)`, with its assertion. -/
def XenosDevice.setVertexShader (xe : XenosDevice) (sh : PShader) (index : Nat) :
    Option XenosDevice :=
  if (shader sh).shaderInstance index then
    if xe.vs ≠ some sh ∨ xe.vsIndex ≠ index then
      some { xe with
        vs := some sh
        vsIndex := index
        dirty := xe.dirty ||| dirtyShader }
    else some xe
  else none

end Shaders

/-- `Xe_pSetSurfaceClip`. -/
def surfaceClip (offsetX offsetY left top right bottom : Word) : List Word :=
  [0x00022080, xy32 offsetX offsetY, xy32 left top, xy32 right bottom]

/-- `Xe_pSetEDRAMLayout`. -/
def XenosDevice.edramLayout (xe : XenosDevice) : List Word :=
  [0x00022000,
    xe.edramPitch ||| BitVec.ofNat 32 xe.msaaSamples.val <<< 16 ||| xe.edramHizpitch <<< 18,
    xe.edramColorformat <<< 16 ||| xe.edramColor0base,
    xe.edramDepthbase]

/-- The scissor rectangle, or the whole viewport. -/
def XenosDevice.clipPacket (xe : XenosDevice) : List Word :=
  if xe.scissorEnable then
    surfaceClip 0 0 (xe.scissorLtrb 0) (xe.scissorLtrb 1) (xe.scissorLtrb 2) (xe.scissorLtrb 3)
  else surfaceClip 0 0 0 0 xe.vpXres xe.vpYres

/-- The viewport and stencil registers that `DIRTY_MISC` stands for. -/
def XenosDevice.miscPackets (fl : Floats) (xe : XenosDevice) : List (List Word) :=
  [xe.clipPacket,
    xe.edramLayout,
    [0x0000200d, 0x00000000],
    [0x00012100, 0x00ffffff, 0x00000000],
    [0x00002104, 0x0000000f],
    [0x0008210c,
      xe.stencildata 0,
      xe.stencildata 1,
      fl.ofUnsigned xe.alpharef,
      fl.half (xe.vpXres - xe.vpXoffset).toInt,
      fl.half xe.vpXres.toInt,
      fl.half (-xe.vpYres).toInt,
      fl.half xe.vpYres.toInt,
      xe.vpZnear,
      xe.vpZfar],
    [0x00002301, ![0#32, 2#32 ||| 4#32 <<< 13, 4#32 ||| 6#32 <<< 13] xe.msaaSamples],
    [0x00002312, 0x0000ffff]]

/-- Do `f` if the flag is set. -/
def XenosDevice.whenDirty (flag : BitVec 32) (f : XenosDevice → Option XenosDevice)
    (xe : XenosDevice) : Option XenosDevice :=
  if xe.isDirty flag then f xe else some xe

/-- The fetch constants, and the packet after them. -/
def XenosDevice.uploadFetch (xe : XenosDevice) : Option XenosDevice :=
  xe.uploadFetchConstants.map fun xe => xe.rput [0x00025000, 0x00000000, 0x00025000, 0x00000000]

/-- `Xe_pSetState`. -/
def XenosDevice.setState (shader : PShader → XenosShader) (fl : Floats) (xe : XenosDevice) :
    Option XenosDevice := do
  let xe ← xe.whenDirty dirtyControl fun xe => some xe.uploadControl
  let xe ← xe.whenDirty dirtyShader (XenosDevice.uploadShader shader)
  let xe ← xe.whenDirty dirtyAlu XenosDevice.uploadALUConstants
  let xe ← xe.whenDirty dirtyFetch XenosDevice.uploadFetch
  let xe ← xe.whenDirty dirtyClip fun xe => some xe.uploadClipPlane
  let xe ← xe.whenDirty dirtyInteger fun xe => some xe.uploadIntegerConstants
  let xe ← xe.whenDirty dirtyMisc fun xe => some (xe.rputs (xe.miscPackets fl))
  some { xe with dirty := 0 }

/-! ### The GPU -/

/-- A loaded program: at an address, or sent along. -/
inductive Program
  | memory (address size : Word)
  | immediate (code : List Word)
  deriving DecidableEq, Repr

/-- The programs of the two shader stages. -/
structure Programs where
  vertex : Option Program
  pixel : Option Program

/-- Load into the stage that bit 0 of the first word names. -/
def Programs.load (ps : Programs) (type : Word) (prog : Program) : Programs :=
  if type.getLsbD 0 then { ps with pixel := some prog } else { ps with vertex := some prog }

/-- The type-3 packets that load a shader (0x27) or bring one along (0x2b);
the others concern neither registers nor programs. -/
def gpuPacket (opcode : Nat) (payload : List Word) (ps : Programs) : Programs :=
  match opcode, payload with
  | 0x27, [address, size] => ps.load address (.memory (address &&& ~~~3) size)
  | 0x2b, type :: _ :: code => ps.load type (.immediate code)
  | _, _ => ps

abbrev Gpu := Device Programs

/-- The GPU after the commands emitted so far. -/
def XenosDevice.gpu (xe : XenosDevice) (g : Gpu) : Gpu := execute gpuPacket xe.ring.emitted g

end LibXenon
