/-
LibXenon/XenosTextures.lean

The rows of a texture, for the CPU and for the GPU.

`Xe_CreateTexture` rounds the bytes of a row up to the pitch of the surface,
and the CPU finds row `y` at `y` times this pitch.  The GPU is told the pitch
in units of 32 texels, in nine bits of the first fetch word; `TEXTURE_FETCH`
divides and drops the rest.

The alignment in `Xe_CreateTexture` is `128 / bypp`: 128 bytes counted in
texels, but applied to a size in bytes.  For one and two bytes per pixel it is
still a multiple of 32 texels; for four and eight it is not, and the rest that
`TEXTURE_FETCH` drops is zero only for some widths (`texturePitch_iff`).
-/
import LibXenon.Bits
import LibXenon.XenosConstants
import Mathlib.Tactic.IntervalCases

namespace LibXenon

open Pm4 Bits

/-! ### `Xe_CreateTexture` -/

/-- A surface with the two more fields that `Xe_CreateTexture` fills in. -/
structure XenosTexture extends XenosSurface where
  hpitch : Word
  bypp : Word

/-- The bytes per pixel of a format; the `assert` fails for the others. -/
def bytesPerPixel (format : Word) : Option Word :=
  if format &&& 0x3F = 2 then some 1
  else if format &&& 0x3F = 3 then some 2
  else if format &&& 0x3F = 4 then some 2
  else if format &&& 0x3F = 6 then some 4
  else if format &&& 0x3F = 26 then some 8
  else none

/-- `Xe_pAlloc`: the physical address of a block, given what `memalign`
returns for an alignment and a size; `Xe_Fatal` without memory. -/
def xePAlloc (memalign : Word → Word → Option Word) (size align : Word) : Option Word :=
  (memalign (if align = 0 then size else align) size).map fun r => r &&& ~~~0x80000000

/-- `(x + mask) & ~mask`. -/
def roundUp (x mask : Word) : Word := (x + mask) &&& ~~~mask

/-- `Xe_CreateTexture`; the number of levels is not used. -/
def xeCreateTexture (memalign : Word → Word → Option Word) (width height format tiled : Word) :
    Option XenosTexture := do
  let bypp ← bytesPerPixel format
  let walign : Word := (128 : Word).sdiv bypp - 1
  let wpitch := roundUp (width * bypp) walign
  let hpitch := roundUp height 31
  let ptr ← xePAlloc memalign (hpitch * wpitch) 4096
  some
    { width, height, wpitch, hpitch, tiled, format, ptr, bypp
      ptrMip := 0
      base := true
      useFiltering := 1
      uAddressing := 0
      vAddressing := 0 }

/-! ### The pitch field -/

/-- Nine bits of a fetch word hold the pitch. -/
def fetchPitch (w : Word) : Nat := (w >>> 22 &&& 0x1FF).toNat

theorem fetchPitch_eq {pitch uaddr vaddr : Word} (tiled : Word) (hpitch : pitch.toNat < 2 ^ 9)
    (hu : uaddr.toNat < 2 ^ 3) (hv : vaddr.toNat < 2 ^ 3) :
    fetchPitch (0x00000002#32 ||| pitch <<< 22 ||| tiled <<< 31 ||| uaddr <<< 10 ||| vaddr <<< 13)
      = pitch.toNat := by
  rw [fetchPitch]
  congr 1
  apply BitVec.eq_of_getLsbD_eq
  intro i hi
  have hmask : BitVec.toNat (0x1FF : Word) = 2 ^ 9 - 1 := by decide
  rw [BitVec.getLsbD_and, getLsbD_mask hmask, BitVec.getLsbD_ushiftRight]
  by_cases hlow : i < 9
  · -- each of the other parts ends below bit 22 or begins at bit 31
    have htwo : BitVec.getLsbD 0x00000002#32 (22 + i) = false :=
      getLsbD_of_toNat_lt (k := 2) (by decide) (by omega)
    have hu' : uaddr.getLsbD (22 + i - 10) = false := getLsbD_of_toNat_lt hu (by omega)
    have hv' : vaddr.getLsbD (22 + i - 13) = false := getLsbD_of_toNat_lt hv (by omega)
    have hself : 22 + i - 22 = i := by omega
    have htiled : 22 + i < 31 := by omega
    have hword : 22 + i < 32 := by omega
    simp only [BitVec.getLsbD_or, BitVec.getLsbD_shiftLeft, htwo, hu', hv']
    simp [htiled, hword, hlow]
  · rw [getLsbD_of_toNat_lt hpitch (by omega), decide_eq_false hlow, Bool.and_false]

/-! ### The two pitches -/

/-- What `Xe_CreateTexture` makes of a row: the bytes per pixel are a power of
two up to 8, the pitch is the row rounded up to a multiple of `128 / bypp`
bytes, and the pitch field is the pitch in units of 32 texels. -/
structure Pitched (tex : XenosTexture) (e : Nat) : Prop where
  exponent : e ≤ 3
  bypp : tex.bypp.toNat = 2 ^ e
  wpitch : tex.wpitch = roundUp (tex.width * tex.bypp) (BitVec.ofNat 32 (2 ^ (7 - e) - 1))
  field : pitchField tex.format tex.wpitch
    = some (tex.wpitch.sdiv (BitVec.ofNat 32 (2 ^ (5 + e))))

theorem Pitched.wpitch_toNat {tex : XenosTexture} {e : Nat} (hP : Pitched tex e)
    (hsmall : tex.width.toNat * 2 ^ e < 2 ^ 31) :
    tex.wpitch.toNat
      = (tex.width.toNat * 2 ^ e + (2 ^ (7 - e) - 1)) / 2 ^ (7 - e) * 2 ^ (7 - e) := by
  have hle : 2 ^ (7 - e) ≤ 2 ^ 7 := Nat.pow_le_pow_right Nat.two_pos (Nat.sub_le 7 e)
  have hmask : (BitVec.ofNat 32 (2 ^ (7 - e) - 1)).toNat = 2 ^ (7 - e) - 1 := by
    rw [BitVec.toNat_ofNat, Nat.mod_eq_of_lt (by omega)]
  have hsum : (tex.width * tex.bypp + BitVec.ofNat 32 (2 ^ (7 - e) - 1)).toNat
      = tex.width.toNat * 2 ^ e + (2 ^ (7 - e) - 1) := by
    rw [BitVec.toNat_add, BitVec.toNat_mul, hmask, hP.bypp, Nat.mod_add_mod,
      Nat.mod_eq_of_lt (by omega)]
  rw [hP.wpitch, roundUp, toNat_and_not_mask hmask, hsum]

theorem Pitched.field_toNat {tex : XenosTexture} {e : Nat} (hP : Pitched tex e)
    (hfit : tex.wpitch.toNat / 2 ^ (5 + e) < 512) :
    (tex.wpitch.sdiv (BitVec.ofNat 32 (2 ^ (5 + e)))).toNat = tex.wpitch.toNat / 2 ^ (5 + e) := by
  have he := hP.exponent
  have hle : 2 ^ (5 + e) ≤ 2 ^ 8 := Nat.pow_le_pow_right Nat.two_pos (by omega)
  have hunit : (BitVec.ofNat 32 (2 ^ (5 + e))).toNat = 2 ^ (5 + e) :=
    toNat_ofNat_two_pow (by omega)
  have hwpitch : tex.wpitch.toNat < 2 ^ 31 := by
    have hlt := (Nat.div_lt_iff_lt_mul (Nat.two_pow_pos (5 + e))).mp hfit
    calc tex.wpitch.toNat < 512 * 2 ^ (5 + e) := hlt
      _ ≤ 512 * 2 ^ 8 := Nat.mul_le_mul_left 512 hle
      _ ≤ 2 ^ 31 := by decide
  have hmsb : ∀ {x : Word}, x.toNat < 2 ^ 31 → x.msb = false :=
    fun hx => BitVec.msb_eq_false_iff_two_mul_lt.mpr (by omega)
  rw [toNat_sdiv_of_nonneg (hmsb hwpitch) (hmsb (by omega)), hunit]

/-- Every format that `Xe_CreateTexture` accepts has its unit in
`TEXTURE_FETCH`. -/
theorem pitchField_of_bytesPerPixel {format bypp : Word}
    (hbypp : bytesPerPixel format = some bypp) :
    ∃ e ≤ 3, bypp = BitVec.ofNat 32 (2 ^ e) ∧ ∀ pitch,
      pitchField format pitch = some (pitch.sdiv (BitVec.ofNat 32 (2 ^ (5 + e)))) := by
  unfold bytesPerPixel at hbypp
  simp only [pitchField]
  generalize format &&& 0x3F = f at hbypp ⊢
  -- one case for each format that both functions know
  by_cases h8 : f = 2
  · rw [if_pos h8] at hbypp
    cases hbypp
    exact ⟨0, by decide, rfl, fun pitch => if_pos h8⟩
  rw [if_neg h8] at hbypp
  by_cases h5551 : f = 3
  · rw [if_pos h5551] at hbypp
    cases hbypp
    exact ⟨1, by decide, rfl, fun pitch => (if_neg h8).trans (if_pos h5551)⟩
  rw [if_neg h5551] at hbypp
  by_cases h565 : f = 4
  · rw [if_pos h565] at hbypp
    cases hbypp
    exact ⟨1, by decide, rfl, fun pitch => by rw [if_neg h8, if_neg h5551, if_pos h565]; rfl⟩
  rw [if_neg h565] at hbypp
  by_cases h8888 : f = 6
  · rw [if_pos h8888] at hbypp
    cases hbypp
    subst h8888
    exact ⟨2, by decide, rfl, fun pitch => rfl⟩
  rw [if_neg h8888] at hbypp
  by_cases h16 : f = 26
  · rw [if_pos h16] at hbypp
    cases hbypp
    subst h16
    exact ⟨3, by decide, rfl, fun pitch => rfl⟩
  rw [if_neg h16] at hbypp
  cases hbypp

theorem walign_eq {e : Nat} (he : e ≤ 3) :
    (128 : Word).sdiv (BitVec.ofNat 32 (2 ^ e)) - 1 = BitVec.ofNat 32 (2 ^ (7 - e) - 1) := by
  interval_cases e <;> decide

theorem xeCreateTexture_spec {memalign : Word → Word → Option Word}
    {width height format tiled : Word} {tex : XenosTexture}
    (hcreate : xeCreateTexture memalign width height format tiled = some tex) :
    (∃ e, Pitched tex e) ∧ tex.width = width ∧ tex.uAddressing = 0 ∧ tex.vAddressing = 0 := by
  simp only [xeCreateTexture, Option.bind_eq_bind, Option.bind_eq_some_iff,
    Option.some.injEq] at hcreate
  obtain ⟨bypp, hbypp, ptr, -, rfl⟩ := hcreate
  obtain ⟨e, he, rfl, hfield⟩ := pitchField_of_bytesPerPixel hbypp
  refine ⟨⟨e, he, ?_, ?_, hfield _⟩, rfl, rfl, rfl⟩
  · exact toNat_ofNat_two_pow (by omega)
  · simp only [walign_eq he]

theorem memcpy_apply {size start : Nat} {a a' : Nat → Word} {vals : List Word}
    (hcopy : memcpy size a start vals = some a') (i : Nat) :
    a' i = if start ≤ i then vals.getD (i - start) (a i) else a i := by
  rw [memcpy] at hcopy
  split at hcopy
  · cases hcopy
    rfl
  · cases hcopy

theorem setTexture_fetch {xe xe' : XenosDevice} {index : Nat} {tex : XenosSurface} {pitch : Word}
    (hset : xe.setTexture index (some tex) = some xe')
    (hpitch : pitchField tex.format tex.wpitch = some pitch) :
    xe'.fetchConstants (index * 6) = 0x00000002#32 ||| pitch <<< 22 ||| tex.tiled <<< 31
      ||| tex.uAddressing <<< 10 ||| tex.vAddressing <<< 13 := by
  obtain ⟨vals, hvals, hset⟩ := Option.bind_eq_some_iff.mp hset
  obtain ⟨fetch, hcopy, hset⟩ := Option.bind_eq_some_iff.mp hset
  obtain rfl := Option.some.inj hset
  rw [textureWords, textureFetch, hpitch, Option.map_some, Option.some.injEq] at hvals
  subst hvals
  have hfirst := (memcpy_apply hcopy (index * 6)).trans (if_pos le_rfl)
  rw [Nat.sub_self] at hfirst
  exact hfirst

/-- The widths whose rows end, after rounding, at a multiple of 32 texels. -/
def RowsWhole (bypp width : Nat) : Prop :=
  bypp ≤ 2 ∨ width % 32 = 0 ∨ bypp = 4 ∧ 25 ≤ width % 32 ∨ bypp = 8 ∧ 31 ≤ width % 32

/-- The arithmetic: a row rounded up to `2 ^ (7 - e)` bytes, counted in units of
32 texels. -/
theorem units_iff {e width wpitch : Nat} (he : e ≤ 3)
    (hpitch : wpitch = (width * 2 ^ e + (2 ^ (7 - e) - 1)) / 2 ^ (7 - e) * 2 ^ (7 - e)) :
    width * 2 ^ e ≤ wpitch ∧
      (wpitch / 2 ^ (5 + e) * (32 * 2 ^ e) = wpitch ↔ RowsWhole (2 ^ e) width) := by
  unfold RowsWhole
  interval_cases e <;> norm_num at hpitch ⊢ <;> omega

/-- **The pitch of a texture.**  The pitch of the surface is enough for a row,
and it is the pitch the GPU is told exactly for the widths of `RowsWhole`: all
of them for one and two bytes per pixel, and for 8888 and 16161616 those that
end in the last 8 or 2 texels of a block of 32. -/
theorem texturePitch_iff {memalign : Word → Word → Option Word}
    {width height format tiled : Word} {tex : XenosTexture} {xe xe' : XenosDevice} {index : Nat}
    (hcreate : xeCreateTexture memalign width height format tiled = some tex)
    (hsmall : width.toNat * tex.bypp.toNat < 2 ^ 31)
    (hfit : tex.wpitch.toNat / (32 * tex.bypp.toNat) < 512)
    (hset : xe.setTexture index (some tex.toXenosSurface) = some xe') :
    width.toNat * tex.bypp.toNat ≤ tex.wpitch.toNat ∧
      (fetchPitch (xe'.fetchConstants (index * 6)) * (32 * tex.bypp.toNat) = tex.wpitch.toNat ↔
        RowsWhole tex.bypp.toNat width.toNat) := by
  obtain ⟨⟨e, hP⟩, rfl, hu, hv⟩ := xeCreateTexture_spec hcreate
  rw [hP.bypp] at hsmall hfit ⊢
  have hpitch := hP.wpitch_toNat hsmall
  obtain ⟨henough, hunits⟩ := units_iff hP.exponent hpitch
  have hunit : 32 * 2 ^ e = 2 ^ (5 + e) := by rw [Nat.pow_add]
  have hfield : fetchPitch (xe'.fetchConstants (index * 6)) = tex.wpitch.toNat / 2 ^ (5 + e) := by
    rw [hunit] at hfit
    have hdiv := hP.field_toNat hfit
    rw [setTexture_fetch hset hP.field, hu, hv, fetchPitch_eq _ _ (by decide) (by decide), hdiv]
    rw [hdiv]
    exact hfit
  rw [hfield]
  exact ⟨henough, hunits⟩

/-- The surface of a texture of `width` by 8 in format 8888, given its pitch. -/
def texture8888 (width wpitch : Word) : XenosTexture where
  width := width
  height := 8
  wpitch := wpitch
  tiled := 0
  format := 6
  ptr := 0x100000
  ptrMip := 0
  useFiltering := 1
  uAddressing := 0
  vAddressing := 0
  base := true
  hpitch := 32
  bypp := 4

/-- A row of 60 texels is rounded up to 64, that is to two units. -/
theorem texturePitch_sixty : ∃ tex xe',
    xeCreateTexture (fun _ _ => some 0x80100000) 60 8 6 0 = some tex ∧
    XenosDevice.cleared.setTexture 0 (some tex.toXenosSurface) = some xe' ∧
    fetchPitch (xe'.fetchConstants (0 * 6)) * (32 * tex.bypp.toNat) = tex.wpitch.toNat := by
  have hcreate : xeCreateTexture (fun _ _ => some 0x80100000) 60 8 6 0
      = some (texture8888 60 256) := rfl
  have hset : (XenosDevice.cleared.setTexture 0
      (some (texture8888 60 256).toXenosSurface)).isSome := rfl
  obtain ⟨xe', hset⟩ := Option.isSome_iff_exists.mp hset
  have hpitch := (texturePitch_iff hcreate (by decide) (by decide) hset).2
  exact ⟨_, xe', hcreate, hset, hpitch.mpr (by unfold RowsWhole; decide)⟩

/-- A row of 8 texels in format 8888 takes 32 bytes, and the pitch field is 0:
for the GPU every row starts where the first one does. -/
theorem texturePitch_eight_fails : ∃ tex xe',
    xeCreateTexture (fun _ _ => some 0x80100000) 8 8 6 0 = some tex ∧
    XenosDevice.cleared.setTexture 0 (some tex.toXenosSurface) = some xe' ∧
    tex.wpitch.toNat = 32 ∧ fetchPitch (xe'.fetchConstants (0 * 6)) = 0 := by
  have hset : (XenosDevice.cleared.setTexture 0 (some (texture8888 8 32).toXenosSurface)).map
      (fun xe' => fetchPitch (xe'.fetchConstants (0 * 6))) = some 0 := by decide +kernel
  obtain ⟨xe', hset, hfield⟩ := Option.map_eq_some_iff.mp hset
  exact ⟨texture8888 8 32, xe', rfl, hset, rfl, hfield⟩

end LibXenon
