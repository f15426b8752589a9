/-
LibXenon/Sfcx.lean

The NAND flash behind xenon_sfcx.c.

The flash is a sequence of pages of 0x210 bytes, 0x200 of user data and 0x10
spare ones; a block is erased as a whole and its pages are then programmed one
by one.  The chip is ideal: a raw read returns what is stored, an erase leaves
0xFF everywhere in the block, and programming an erased page stores the data.
What programming does to a page that is not erased is left open.

The last 26 bits of the spare area are the error correction code of the 0x1066
bits before them.  `sfcx_calcecc` shifts these bits through a register one by
one, the low bit of each byte first, and touches no other bit of the page: so
it finds the same code when it is run again.
-/
import LibXenon.ByteMemory

namespace LibXenon

open ByteMemory

/-! ### Geometry -/

/-- `META_TYPE_0` to `META_TYPE_2`, the layouts of the spare area. -/
inductive MetaType where
  | type0
  | type1
  | type2
deriving DecidableEq, Repr

/-- `struct sfc`, with a block size of 16, 128 or 256 KB. -/
structure Sfc where
  initialized : Int
  metaType : MetaType
  blockSz : Nat
  sized : blockSz = 0x4000 ∨ blockSz = 0x20000 ∨ blockSz = 0x40000
deriving DecidableEq

def sfcxInitialized : Int := 1

/-- `sfc.page_sz`. -/
def pageSz : Nat := 0x200

/-- `sfc.meta_sz`. -/
def metaSz : Nat := 0x10

/-- `sfc.page_sz_phys`. -/
def pageSzPhys : Nat := pageSz + metaSz

def Sfc.pagesInBlock (sfc : Sfc) : Nat := sfc.blockSz / pageSz

def Sfc.blockSzPhys (sfc : Sfc) : Nat := sfc.pagesInBlock * pageSzPhys

/-- The controllers `sfcx_init` knows, by its configuration register; `emmc`
stands for the test of the bridge revision and of `SFCX_PHISON`. -/
def sfcxInit (emmc : Bool) (config : BitVec 32) : Except Nat Sfc :=
  if emmc then .error 3
  else
    match (config >>> 17 &&& 0x03).toNat, (config >>> 4 &&& 0x3).toNat with
    | 0, 0 => .error 1
    | 0, _ => .ok ⟨sfcxInitialized, .type0, 0x4000, by decide⟩
    | 1, 0 => .error 2
    | 1, 1 => .ok ⟨sfcxInitialized, .type1, 0x4000, by decide⟩
    | 2, 0 => .ok ⟨sfcxInitialized, .type1, 0x4000, by decide⟩
    | 2, 1 => .ok ⟨sfcxInitialized, .type1, 0x4000, by decide⟩
    | 1, 2 | 2, 2 => .ok ⟨sfcxInitialized, .type2, 0x20000, by decide⟩
    | 1, _ | 2, _ => .ok ⟨sfcxInitialized, .type2, 0x40000, by decide⟩
    | _, _ => .error 3

/-- A console with 16 KB blocks. -/
def smallBlocks : Sfc := ⟨sfcxInitialized, .type0, 0x4000, by decide⟩

example : sfcxInit false 0x10 = .ok smallBlocks := by rfl

variable (sfc : Sfc)
variable {page page' : Page}

theorem Sfc.blockSz_eq : sfc.blockSz = sfc.pagesInBlock * pageSz := by
  rw [pagesInBlock, pageSz]
  rcases sfc.sized with h | h | h <;> rw [h]

theorem Sfc.pagesInBlock_cases :
    sfc.pagesInBlock = 32 ∨ sfc.pagesInBlock = 256 ∨ sfc.pagesInBlock = 512 := by
  rw [pagesInBlock, pageSz]
  rcases sfc.sized with h | h | h <;> simp [h]

theorem Sfc.pagesInBlock_pos : 0 < sfc.pagesInBlock := by
  rcases sfc.pagesInBlock_cases with h | h | h <;> rw [h] <;> decide

/-! ### Pages -/

abbrev Byte := BitVec 8

/-- The bytes of a page, by their offset. -/
abbrev Page := Nat → Byte

def erasedPage : Page := fun _ => 0xFF

/-- `sfcx_is_pageerased`. -/
def sfcxIsPageerased (page : Page) : Prop := ∀ k < pageSzPhys, page k = 0xFF

instance (page : Page) : Decidable (sfcxIsPageerased page) := by
  unfold sfcxIsPageerased
  infer_instance

/-- `sfcx_is_pagevalid`. -/
def sfcxIsPagevalid (page : Page) : Bool :=
  match sfc.metaType with
  | .type0 => page (pageSz + 0x5) == 0xFF
  | .type1 => page (pageSz + 0x5) == 0xFF
  | .type2 => page (pageSz + 0x0) == 0xFF

theorem erased_congr (h : ∀ k < pageSzPhys, page k = page' k) :
    sfcxIsPageerased page ↔ sfcxIsPageerased page' :=
  forall₂_congr fun k hk => by rw [h k hk]

theorem pagevalid_congr (h : ∀ k < pageSzPhys, page k = page' k) :
    sfcxIsPagevalid sfc page = sfcxIsPagevalid sfc page' := by
  rw [sfcxIsPagevalid, sfcxIsPagevalid, h (pageSz + 0x5) (by decide), h (pageSz + 0x0) (by decide)]

/-! ### The error correction code -/

/-- `__builtin_bswap32(*data)`, which on this machine is the little-endian word. -/
def dataWord (page : Page) (k : Nat) : BitVec 32 :=
  page (4 * k + 3) ++ page (4 * k + 2) ++ page (4 * k + 1) ++ page (4 * k)

/-- The variables of the loop of `sfcx_calcecc`. -/
structure Ecc where
  val : BitVec 32
  v : BitVec 32

def eccStep (page : Page) (i : Nat) (s : Ecc) : Ecc :=
  let v := if i % 32 = 0 then ~~~(dataWord page (i / 32)) else s.v
  let val := s.val ^^^ (v &&& 1)
  let val := if val &&& 1 ≠ 0 then val ^^^ 0x6954559 else val
  { val := val >>> 1, v := v >>> 1 }

def eccLoop (page : Page) : Nat → Ecc
  | 0 => { val := 0, v := 0 }
  | i + 1 => eccStep page i (eccLoop page i)

/-- What `sfcx_calcecc` stores, the code in the low 26 bits. -/
def eccOf (page : Page) : BitVec 32 := ~~~(eccLoop page 0x1066).val

def sfcxCalcecc (page : Page) : Page := fun k =>
  if k = pageSz + 0xC then (eccOf page <<< 6 ||| (page k &&& 0x3F).setWidth 32).setWidth 8
  else if k = pageSz + 0xD then (eccOf page >>> 2).setWidth 8
  else if k = pageSz + 0xE then (eccOf page >>> 10).setWidth 8
  else if k = pageSz + 0xF then (eccOf page >>> 18).setWidth 8
  else page k

/-- One of the protected bits, in the order in which they are shifted in. -/
def protectedBit (page : Page) (i : Nat) : Bool := (page (i / 8)).getLsbD (i % 8)

/-- The register takes in one bit. -/
def shiftIn (val : BitVec 32) (b : Bool) : BitVec 32 :=
  let val := val ^^^ BitVec.setWidth 32 (BitVec.ofBool b)
  let val := if val &&& 1 ≠ 0 then val ^^^ 0x6954559 else val
  val >>> 1

def eccBits (page : Page) : Nat → BitVec 32
  | 0 => 0
  | i + 1 => shiftIn (eccBits page i) (!protectedBit page i)

theorem getLsbD_dataWord (page : Page) (k : Nat) {r : Nat} (hr : r < 32) :
    (dataWord page k).getLsbD r = (page (4 * k + r / 8)).getLsbD (r % 8) := by
  have hbyte : r / 8 = 0 ∨ r / 8 = 1 ∨ r / 8 = 2 ∨ r / 8 = 3 := by omega
  rw [dataWord]
  simp only [BitVec.getLsbD_append]
  rcases hbyte with h | h | h | h
  · rw [if_pos (by omega), h, Nat.add_zero, show r % 8 = r by omega]
  · rw [if_neg (by omega), if_pos (by omega), h, show r % 8 = r - 8 by omega]
  · rw [if_neg (by omega), if_neg (by omega), if_pos (by omega), h,
      show r % 8 = r - 8 - 8 by omega]
  · rw [if_neg (by omega), if_neg (by omega), if_neg (by omega), h,
      show r % 8 = r - 8 - 8 - 8 by omega]

theorem eccLoop_word (page : Page) (i : Nat) :
    (if i % 32 = 0 then ~~~(dataWord page (i / 32)) else (eccLoop page i).v)
      = ~~~(dataWord page (i / 32)) >>> (i % 32) := by
  induction i with
  | zero => rfl
  | succ i ih =>
    -- a new word is loaded after 32 bits; until then the old one is shifted
    by_cases h : (i + 1) % 32 = 0
    · rw [if_pos h, h, BitVec.ushiftRight_zero]
    · have hword : (i + 1) / 32 = i / 32 := by omega
      have hbit : (i + 1) % 32 = i % 32 + 1 := by omega
      rw [if_neg h, eccLoop, eccStep, ih, hword, hbit, BitVec.shiftRight_add]

theorem eccLoop_val (page : Page) (i : Nat) : (eccLoop page i).val = eccBits page i := by
  induction i with
  | zero => rfl
  | succ i ih =>
    have hbit : (~~~(dataWord page (i / 32)) >>> (i % 32)).getLsbD 0 = !protectedBit page i := by
      have hr : i % 32 < 32 := Nat.mod_lt i (by decide)
      rw [BitVec.getLsbD_ushiftRight, Nat.add_zero, BitVec.getLsbD_not, decide_eq_true hr,
        Bool.true_and, getLsbD_dataWord page (i / 32) hr, protectedBit]
      rw [show 4 * (i / 32) + i % 32 / 8 = i / 8 by omega, show i % 32 % 8 = i % 8 by omega]
    have hlow : ~~~(dataWord page (i / 32)) >>> (i % 32) &&& 1
        = BitVec.setWidth 32 (BitVec.ofBool (!protectedBit page i)) := by
      rw [← hbit]
      exact BitVec.and_one_eq_setWidth_ofBool_getLsbD
    rw [eccLoop, eccStep, eccBits, shiftIn, eccLoop_word, ih, hlow]

theorem eccBits_congr {n : Nat} (h : ∀ i < n, protectedBit page i = protectedBit page' i) :
    eccBits page n = eccBits page' n := by
  induction n with
  | zero => rfl
  | succ n ih => rw [eccBits, eccBits, ih fun i hi => h i (by omega), h n (by omega)]

theorem eccOf_congr
    (h : ∀ i < 0x1066, protectedBit page i = protectedBit page' i) : eccOf page = eccOf page' := by
  rw [eccOf, eccOf, eccLoop_val, eccLoop_val, eccBits_congr h]

/-- `sfcx_calcecc` leaves everything before the code. -/
theorem calcecc_before (page : Page) {k : Nat} (hk : k < pageSz + 0xC) :
    sfcxCalcecc page k = page k := by
  rw [sfcxCalcecc, if_neg (by omega), if_neg (by omega), if_neg (by omega), if_neg (by omega)]

theorem and_low_eq_iff {x y : Byte} :
    x &&& 0x3F = y &&& 0x3F ↔ ∀ j < 6, x.getLsbD j = y.getLsbD j := by
  have hmask : ∀ j < 8, BitVec.getLsbD (0x3F : Byte) j = decide (j < 6) := by decide
  constructor
  · intro h j hj
    have hbit : (x &&& 0x3F).getLsbD j = (y &&& 0x3F).getLsbD j := by rw [h]
    rw [BitVec.getLsbD_and, BitVec.getLsbD_and, hmask j (by omega), decide_eq_true hj,
      Bool.and_true, Bool.and_true] at hbit
    exact hbit
  · intro h
    refine BitVec.eq_of_getLsbD_eq fun j hj => ?_
    rw [BitVec.getLsbD_and, BitVec.getLsbD_and, hmask j hj]
    by_cases hlow : j < 6
    · rw [h j hlow]
    · rw [decide_eq_false hlow, Bool.and_false, Bool.and_false]

theorem calcecc_shared (page : Page) :
    sfcxCalcecc page (pageSz + 0xC) &&& 0x3F = page (pageSz + 0xC) &&& 0x3F := by
  rw [sfcxCalcecc, if_pos rfl, and_low_eq_iff]
  intro j hj
  have hmask : ∀ j < 6, BitVec.getLsbD (0x3F : Byte) j = true := by decide
  rw [BitVec.getLsbD_setWidth, BitVec.getLsbD_or, BitVec.getLsbD_shiftLeft,
    BitVec.getLsbD_setWidth, BitVec.getLsbD_and, hmask j hj]
  simp [hj, show j < 8 by omega, show j < 32 by omega]

theorem protectedBit_calcecc (page : Page) {i : Nat} (hi : i < 0x1066) :
    protectedBit (sfcxCalcecc page) i = protectedBit page i := by
  rw [protectedBit, protectedBit]
  -- the last six protected bits are in the byte that the code begins in
  by_cases hbefore : i / 8 < pageSz + 0xC
  · rw [calcecc_before page hbefore]
  · have hbyte : i / 8 = pageSz + 0xC := by
      rw [pageSz] at hbefore ⊢
      omega
    have hbit : i % 8 < 6 := by
      rw [pageSz] at hbyte
      omega
    rw [hbyte]
    exact and_low_eq_iff.mp (calcecc_shared page) (i % 8) hbit

/-- **`sfcx_calcecc` finds a page that it has been run on as it is.** -/
theorem calcecc_calcecc (page : Page) : sfcxCalcecc (sfcxCalcecc page) = sfcxCalcecc page := by
  have hecc : eccOf (sfcxCalcecc page) = eccOf page :=
    eccOf_congr fun _ => protectedBit_calcecc page
  funext k
  by_cases hk : k = pageSz + 0xC
  · subst hk
    rw [sfcxCalcecc, if_pos rfl, hecc, calcecc_shared page, sfcxCalcecc, if_pos rfl]
  · rw [sfcxCalcecc, if_neg hk, hecc, sfcxCalcecc, if_neg hk]
    split
    · rfl
    · split
      · rfl
      · split <;> rfl

/-! ### The flash -/

/-- An ideal chip. -/
structure Nand where
  program : Page → Page → Page
  program_erased : ∀ page, program erasedPage page = page

/-- The chips are NAND cells: programming clears bits. -/
def Nand.cells : Nand where
  program old new := fun k => old k &&& new k
  program_erased page := by
    funext k
    exact BitVec.allOnes_and

/-- A command that changes the flash. -/
inductive NandOp where
  | erase (address : Nat)
  | write (address : Nat) (page : Page)

/-- The pages, and the commands given so far. -/
structure Flash where
  pages : Nat → Page
  ops : List NandOp

/-- The raw read of `sfcx_read_page`. -/
def Flash.readPage (flash : Flash) (address : Nat) : Page := flash.pages (address / pageSz)

/-- `sfcx_write_page`. -/
def Flash.writePage (nand : Nand) (flash : Flash) (data : Page) (address : Nat) : Flash where
  pages := Function.update flash.pages (address / pageSz)
    (nand.program (flash.pages (address / pageSz)) data)
  ops := flash.ops ++ [.write address data]

/-- `sfcx_erase_block`. -/
def Flash.eraseBlock (flash : Flash) (address : Nat) : Flash where
  pages := fun q =>
    if q / sfc.pagesInBlock = address / sfc.blockSz then erasedPage else flash.pages q
  ops := flash.ops ++ [.erase address]

/-- The bytes from `first` on of one page after another. -/
def pageData (first size : Nat) (pages : Nat → Page) : Nat → Byte := fun a =>
  pages (a / size) (first + a % size)

/-- The user data, by the addresses of the controller. -/
def userData (pages : Nat → Page) : Nat → Byte := pageData 0 pageSz pages

/-- The spare bytes. -/
def spareData (pages : Nat → Page) : Nat → Byte := pageData pageSz metaSz pages

/-- The pages with their spare bytes. -/
def rawData (pages : Nat → Page) : Nat → Byte := pageData 0 pageSzPhys pages

theorem address_page (q : Nat) : q * pageSz / pageSz = q := Nat.mul_div_cancel q (by decide)

theorem cell_lt {j n k size : Nat} (hj : j < n) (hk : k < size) : j * size + k < n * size :=
  calc j * size + k < (j + 1) * size := by rw [Nat.add_mul, Nat.one_mul]; omega
    _ ≤ n * size := Nat.mul_le_mul_right size hj

theorem pageData_page (first : Nat) {size : Nat} (pages : Nat → Page) (q : Nat) {k : Nat}
    (hk : k < size) : pageData first size pages (q * size + k) = pages q (first + k) := by
  have hsize : 0 < size := by omega
  rw [pageData, Nat.mul_comm, Nat.mul_add_div hsize, Nat.div_eq_of_lt hk, Nat.add_zero,
    Nat.mul_add_mod, Nat.mod_eq_of_lt hk]

theorem load_gather {first size b j : Nat} {pages : Nat → Page} {buf : Nat → Byte}
    (h : load buf 0 (j * size) = load (pageData first size pages) (b * size) (j * size)) :
    load (store buf (j * size) (load (pages (b + j)) first size)) 0 ((j + 1) * size)
      = load (pageData first size pages) (b * size) ((j + 1) * size) := by
  have hpage : load (pages (b + j)) first size
      = load (pageData first size pages) (b * size + j * size) size := by
    refine load_congr fun k hk => ?_
    rw [← Nat.add_mul, pageData_page first pages (b + j) hk]
  have hstore : load (store buf (0 + j * size) (load (pages (b + j)) first size)) 0
      (j * size + (load (pages (b + j)) first size).length) = _ := load_store_append h
  rw [length_load, Nat.zero_add] at hstore
  rw [Nat.add_mul, Nat.one_mul, hstore, load_add, hpage]

@[simp] theorem readPage_page (flash : Flash) (q : Nat) :
    flash.readPage (q * pageSz) = flash.pages q := by
  rw [Flash.readPage, address_page]

theorem writePage_pages (nand : Nand) {flash : Flash} {data : Page} {q : Nat}
    (h : flash.pages q = erasedPage) :
    (flash.writePage nand data (q * pageSz)).pages = Function.update flash.pages q data := by
  rw [Flash.writePage, address_page, h, nand.program_erased]

theorem eraseBlock_pages (flash : Flash) (q p : Nat) :
    (flash.eraseBlock sfc (q * pageSz)).pages p
      = if p / sfc.pagesInBlock = q / sfc.pagesInBlock then erasedPage else flash.pages p := by
  rw [Flash.eraseBlock, sfc.blockSz_eq, Nat.mul_comm sfc.pagesInBlock, ← Nat.div_div_eq_div_mul,
    address_page]

end LibXenon
