/-
LibXenon/ConsoleTiles.lean

Where `console_pset32` puts a pixel.

The frame buffer consists of tiles of 32 by 32 pixels, one behind the other.  The tile
decides the upper bits of the index and the place in the tile the ten lower ones, which
are a permutation of the bits of the two coordinates with one of them crossed with
another (`inTile`).  Both parts can be read back from the index, so it is a bijection,
and a row of tiles is one block of the memory (`consoleIndex_bijOn`).
-/
import Mathlib.Data.Nat.Bitwise
import Mathlib.Tactic.Ring

namespace LibXenon

/-- The index `console_pset32` writes to, its `base`.  The source computes it with `int`:
no term is negative, and before the last operation their sum is below the number of
pixels (`consoleIndex_eq`), far from 2^31. -/
def consoleIndex (width x y : Nat) : Nat :=
  ((y >>> 5) * 32 * width + ((x >>> 5) <<< 10) + (x &&& 3) + ((y &&& 1) <<< 2) +
    (((x &&& 31) >>> 2) <<< 3) + (((y &&& 31) >>> 1) <<< 6)) ^^^ ((y &&& 8) <<< 2)

/-! ### The place in the tile -/

def inTile (x y : Nat) : Nat :=
  ((x &&& 3) + ((y &&& 1) <<< 2) + ((x >>> 2) <<< 3) + ((y >>> 1) <<< 6)) ^^^ ((y &&& 8) <<< 2)

/-- The column that is at a place of the tile. -/
def tileX (i : Nat) : Nat := ((i &&& 3) + (((i >>> 3) &&& 7) <<< 2)) ^^^ (((i >>> 8) &&& 1) <<< 4)

def tileY (i : Nat) : Nat := ((i >>> 2) &&& 1) + ((i >>> 6) <<< 1)

theorem tile_inTile : ∀ x < 32, ∀ y < 32,
    inTile x y < 1024 ∧ tileX (inTile x y) = x ∧ tileY (inTile x y) = y := by
  decide +kernel

theorem inTile_tile : ∀ i < 1024,
    tileX i < 32 ∧ tileY i < 32 ∧ inTile (tileX i) (tileY i) = i := by
  decide +kernel

/-! ### The index -/

theorem tile_xor {a b : Nat} (k : Nat) (ha : a < 1024) (hb : b < 1024) :
    (1024 * k + a) ^^^ b = 1024 * k + (a ^^^ b) := by
  have hdiv : ((1024 * k + a) ^^^ b) / 2 ^ 10 = k := by
    rw [Nat.xor_div_two_pow, Nat.div_eq_of_lt (a := b) hb, Nat.xor_zero]
    omega
  have hmod : ((1024 * k + a) ^^^ b) % 2 ^ 10 = a ^^^ b := by
    rw [Nat.xor_mod_two_pow, Nat.mod_eq_of_lt (a := b) hb]
    congr 1
    omega
  omega

/-- The tile and the place in it. -/
theorem consoleIndex_eq (W x y : Nat) :
    consoleIndex (32 * W) x y = 1024 * (W * (y / 32) + x / 32) + inTile (x % 32) (y % 32) := by
  have hlow : ∀ n m, 31 &&& m = m → n &&& m = n % 32 &&& m := fun n m hm => by
    rw [← Nat.and_two_pow_sub_one_eq_mod n 5, Nat.and_assoc, hm]
  have hsmall : ∀ u < 32, ∀ v < 32, (u &&& 3) + ((v &&& 1) <<< 2) + ((u >>> 2) <<< 3) +
      ((v >>> 1) <<< 6) < 1024 ∧ (v &&& 8) <<< 2 < 1024 := by decide +kernel
  obtain ⟨ha, hb⟩ := hsmall _ (Nat.mod_lt x (by decide)) _ (Nat.mod_lt y (by decide))
  rw [inTile, ← tile_xor _ ha hb, consoleIndex, hlow x 3 rfl, hlow y 1 rfl,
    hlow y 8 rfl, Nat.and_two_pow_sub_one_eq_mod x 5, Nat.and_two_pow_sub_one_eq_mod y 5,
    Nat.shiftRight_eq_div_pow y 5, Nat.shiftRight_eq_div_pow x 5, Nat.shiftLeft_eq (x / 2 ^ 5)]
  congr 1
  ring

/-- The pixel an index belongs to, with `W` tiles in a row. -/
def pixelAt (W i : Nat) : Nat × Nat :=
  (32 * (i / 1024 % W) + tileX (i % 1024), 32 * (i / 1024 / W) + tileY (i % 1024))

variable {W x y : Nat}

theorem consoleIndex_tile (x y : Nat) : consoleIndex (32 * W) x y / 1024 = W * (y / 32) + x / 32 ∧
    consoleIndex (32 * W) x y % 1024 = inTile (x % 32) (y % 32) := by
  have hlt := (tile_inTile _ (Nat.mod_lt x (by decide)) _ (Nat.mod_lt y (by decide))).1
  rw [consoleIndex_eq]
  omega

theorem pixelAt_consoleIndex (hx : x < 32 * W) :
    pixelAt W (consoleIndex (32 * W) x y) = (x, y) := by
  obtain ⟨-, htx, hty⟩ := tile_inTile _ (Nat.mod_lt x (by decide)) _ (Nat.mod_lt y (by decide))
  obtain ⟨hdiv, hmod⟩ := consoleIndex_tile (W := W) x y
  have hcol : x / 32 < W := by omega
  rw [pixelAt, hdiv, hmod, htx, hty, Nat.mul_add_mod, Nat.mod_eq_of_lt hcol,
    Nat.mul_add_div (Nat.zero_lt_of_lt hcol), Nat.div_eq_of_lt hcol, Nat.add_zero, Nat.div_add_mod,
    Nat.div_add_mod]

theorem consoleIndex_pixelAt (hW : 0 < W) (i : Nat) :
    (pixelAt W i).1 < 32 * W ∧ consoleIndex (32 * W) (pixelAt W i).1 (pixelAt W i).2 = i := by
  obtain ⟨hu, hv, hplace⟩ := inTile_tile (i % 1024) (Nat.mod_lt _ (by decide))
  have hcol := Nat.mod_lt (i / 1024) hW
  refine ⟨?_, ?_⟩
  · show 32 * (i / 1024 % W) + tileX (i % 1024) < 32 * W
    omega
  · rw [consoleIndex_eq, pixelAt, Nat.mul_add_mod, Nat.mul_add_mod, Nat.mod_eq_of_lt hu,
      Nat.mod_eq_of_lt hv, hplace, Nat.mul_add_div (by decide), Nat.mul_add_div (by decide),
      Nat.div_eq_of_lt hu, Nat.div_eq_of_lt hv, Nat.add_zero, Nat.add_zero, Nat.div_add_mod,
      Nat.div_add_mod]

/-- The rows of tiles are blocks. -/
theorem consoleIndex_div (hx : x < 32 * W) :
    consoleIndex (32 * W) x y / (32 * (32 * W)) = y / 32 := by
  have hcol : x / 32 < W := by omega
  rw [← Nat.mul_assoc, ← Nat.div_div_eq_div_mul, (consoleIndex_tile x y).1,
    Nat.mul_add_div (Nat.zero_lt_of_lt hcol), Nat.div_eq_of_lt hcol, Nat.add_zero]

/-- For any choice of rows of tiles. -/
theorem consoleIndex_bijOn_rows (hW : 0 < W) (rows : Set Nat) :
    Set.BijOn (fun p : Nat × Nat => consoleIndex (32 * W) p.1 p.2)
      {p | p.1 < 32 * W ∧ p.2 / 32 ∈ rows} {i | i / (32 * (32 * W)) ∈ rows} := by
  have hleft : Set.LeftInvOn (pixelAt W) (fun p : Nat × Nat => consoleIndex (32 * W) p.1 p.2)
      {p | p.1 < 32 * W ∧ p.2 / 32 ∈ rows} := fun p hp => pixelAt_consoleIndex hp.1
  refine Set.InvOn.bijOn ⟨hleft, fun i _ => (consoleIndex_pixelAt hW i).2⟩ ?_ ?_
  · intro p hp
    show consoleIndex (32 * W) p.1 p.2 / _ ∈ rows
    rw [consoleIndex_div hp.1]
    exact hp.2
  · intro i hi
    obtain ⟨hx, hback⟩ := consoleIndex_pixelAt hW i
    refine ⟨hx, ?_⟩
    rw [← consoleIndex_div hx, hback]
    exact hi

/-- **The index of a pixel** runs through the frame buffer once, and through one block for
each row of tiles. -/
theorem consoleIndex_bijOn (width height : Nat) (hw : 0 < width) (hwidth : 32 ∣ width)
    (hheight : 32 ∣ height) :
    Set.BijOn (fun p : Nat × Nat => consoleIndex width p.1 p.2)
        {p | p.1 < width ∧ p.2 < height} {i | i < width * height} ∧
      ∀ band < height / 32, Set.BijOn (fun p : Nat × Nat => consoleIndex width p.1 p.2)
        {p | p.1 < width ∧ 32 * band ≤ p.2 ∧ p.2 < 32 * band + 32}
        {i | 32 * width * band ≤ i ∧ i < 32 * width * band + 32 * width} := by
  obtain ⟨W, rfl⟩ := hwidth
  obtain ⟨H, rfl⟩ := hheight
  have hpos : 0 < 32 * (32 * W) := by omega
  refine ⟨?_, fun band _ => ?_⟩
  · convert consoleIndex_bijOn_rows (W := W) (by omega) (Set.Iio H) using 1
    · ext p
      simp only [Set.mem_ofPred_eq, Set.mem_Iio]
      omega
    · ext i
      rw [Set.mem_ofPred_eq, Set.mem_ofPred_eq, Set.mem_Iio, Nat.div_lt_iff_lt_mul hpos,
        show 32 * W * (32 * H) = H * (32 * (32 * W)) by ring]
  · convert consoleIndex_bijOn_rows (W := W) (by omega) {band} using 1
    · ext p
      simp only [Set.mem_ofPred_eq, Set.mem_singleton_iff]
      omega
    · ext i
      rw [Set.mem_ofPred_eq, Set.mem_ofPred_eq, Set.mem_singleton_iff, Nat.div_eq_iff hpos,
        Nat.mul_comm band]
      omega

theorem consoleIndex_bijOn_screen :
    Set.BijOn (fun p : Nat × Nat => consoleIndex 640 p.1 p.2) {p | p.1 < 640 ∧ p.2 < 480}
      {i | i < 640 * 480} :=
  (consoleIndex_bijOn 640 480 (by decide) (by decide) (by decide)).1

end LibXenon
