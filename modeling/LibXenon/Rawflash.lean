/-
LibXenon/Rawflash.lean

Writing a raw image to the flash, `rawflash_writeImage` of xenon_sfcx.c.

Block after block is read raw, to see from its status and from two of its pages
whether it is bad; then the next piece of the image file is read into the same
buffer, and a good block is erased and written from the buffer.  Bad blocks
are passed over, but their piece of the file is read.

`read` may deliver less than it was asked for, and the loop takes any result
that is not negative for a whole block.  What it has not delivered is still the
old block in the buffer, and the file stays behind the blocks from then on.
-/
import LibXenon.Sfcx

namespace LibXenon

open ByteMemory

/-! ### Reading and writing a block -/

def statusBbEr : BitVec 32 := 0x40

def statusEccEr : BitVec 32 := 0x1C

variable (nand : Nand) (sfc : Sfc)

/-- The loop of a raw `sfcx_read_block`; `statusOf` are the results of
`sfcx_read_page`. -/
def sfcxReadBlock (statusOf : Nat → BitVec 32) (flash : Flash) (address : Nat) :
    Nat → Nat → (Nat → Byte) → BitVec 32 → (Nat → Byte) × BitVec 32
  | 0, _, data, status => (data, status)
  | n + 1, p, data, status =>
    sfcxReadBlock statusOf flash address n (p + 1)
      (store data (p * pageSzPhys) (load (flash.readPage (address + p * pageSz)) 0 pageSzPhys))
      (status ||| statusOf ((address + p * pageSz) / pageSz))

/-- The loop of `sfcx_write_block`. -/
def sfcxWriteBlock (data : Nat → Byte) (address : Nat) : Nat → Nat → Flash → Flash
  | 0, _, flash => flash
  | n + 1, p, flash =>
    sfcxWriteBlock data address n (p + 1)
      (flash.writePage nand (fun k => data (p * pageSzPhys + k)) (address + p * pageSz))

/-! ### The loop -/

/-- The image file: its bytes, and the results of the calls of `read`. -/
structure ImageFile where
  content : Nat → Byte
  result : Nat → Int
  readable : ∀ k, -1 ≤ result k ∧ result k ≤ sfc.blockSzPhys

/-- The flash, the position in the file and `blockbuf`. -/
structure RawState where
  flash : Flash
  pos : Nat
  blockbuf : Nat → Byte

def Sfc.secondPgOffset : Nat :=
  match sfc.metaType with
  | .type2 => 0x1080
  | .type0 | .type1 => pageSzPhys

/-- `sfcx_read_block`, and the test of the two pages. -/
def probe (statusOf : Nat → BitVec 32) (i : Nat) (s : RawState) : (Nat → Byte) × BitVec 32 :=
  let block := sfcxReadBlock statusOf s.flash (i * sfc.blockSz) sfc.pagesInBlock 0 s.blockbuf 0
  if sfcxIsPagevalid sfc block.1 = false
      ∨ sfcxIsPagevalid sfc (fun k => block.1 (sfc.secondPgOffset + k)) = false then
    (block.1, block.2 ||| statusBbEr)
  else block

variable {sfc}

/-- A turn of the loop; it fails if `read` does. -/
def rawflashTurn (statusOf : Nat → BitVec 32) (file : ImageFile sfc) (i : Nat) (s : RawState) :
    Option RawState :=
  let block := probe sfc statusOf i s
  let r := file.result i
  if r < 0 then none
  else
    -- `r` may be less than the size of a block: the rest of the buffer stays
    let blockbuf := store block.1 0 (load file.content s.pos r.toNat)
    let flash :=
      if block.2 &&& (statusBbEr ||| statusEccEr) = 0 then
        sfcxWriteBlock nand blockbuf (i * sfc.blockSz) sfc.pagesInBlock 0
          (s.flash.eraseBlock sfc (i * sfc.blockSz))
      else s.flash
    some { flash, pos := s.pos + r.toNat, blockbuf }

def rawflashLoop (statusOf : Nat → BitVec 32) (file : ImageFile sfc) :
    Nat → Nat → RawState → Int × Flash
  | 0, _, s => (1, s.flash)
  | n + 1, i, s =>
    match rawflashTurn nand statusOf file i s with
    | none => (0, s.flash)
    | some s' => rawflashLoop statusOf file n (i + 1) s'

variable (sfc) in
/-- `len/sfc.block_sz_phys`. -/
def Sfc.numblocks (len : Int) : Nat := (len.tdiv sfc.blockSzPhys).toNat

/-- `rawflash_writeImage`, on a flash with the given pages; `blockbuf` is what
`malloc` returns. -/
def rawflashWriteImage (statusOf : Nat → BitVec 32) (blockbuf : Option (Nat → Byte)) (len : Int)
    (file : ImageFile sfc) (pages : Nat → Page) : Int × Flash :=
  match blockbuf with
  | none => (0, { pages, ops := [] })
  | some blockbuf =>
    rawflashLoop nand statusOf file (sfc.numblocks len) 0
      { flash := { pages, ops := [] }, pos := 0, blockbuf }

/-! ### The judgement of a block -/

/-- The status of a whole block, by its first page. -/
def blockStatus (statusOf : Nat → BitVec 32) (b : Nat) : Nat → BitVec 32
  | 0 => 0
  | n + 1 => blockStatus statusOf b n ||| statusOf (b + n)

variable (sfc) in
/-- The page that is tested besides the first. -/
def Sfc.secondPage : Nat :=
  match sfc.metaType with
  | .type2 => 8
  | .type0 | .type1 => 1

variable (sfc) in
/-- The block is judged good. -/
def goodBlock (statusOf : Nat → BitVec 32) (pages : Nat → Page) (i : Nat) : Prop :=
  blockStatus statusOf (i * sfc.pagesInBlock) sfc.pagesInBlock &&& (statusBbEr ||| statusEccEr) = 0
    ∧ sfcxIsPagevalid sfc (pages (i * sfc.pagesInBlock)) = true
    ∧ sfcxIsPagevalid sfc (pages (i * sfc.pagesInBlock + sfc.secondPage)) = true

instance (statusOf : Nat → BitVec 32) (pages : Nat → Page) (i : Nat) :
    Decidable (goodBlock sfc statusOf pages i) :=
  inferInstanceAs (Decidable (_ ∧ _ ∧ _))

theorem block_address (i p : Nat) :
    i * sfc.blockSz + p * pageSz = (i * sfc.pagesInBlock + p) * pageSz := by
  rw [sfc.blockSz_eq, ← Nat.mul_assoc, Nat.add_mul]

variable (sfc) in
theorem readBlock_loads (statusOf : Nat → BitVec 32) (flash : Flash) (i n p : Nat)
    (data : Nat → Byte)
    (hdata : load data 0 (p * pageSzPhys)
      = load (rawData flash.pages) (i * sfc.pagesInBlock * pageSzPhys) (p * pageSzPhys)) :
    load (sfcxReadBlock statusOf flash (i * sfc.blockSz) n p data
        (blockStatus statusOf (i * sfc.pagesInBlock) p)).1 0 ((p + n) * pageSzPhys)
        = load (rawData flash.pages) (i * sfc.pagesInBlock * pageSzPhys) ((p + n) * pageSzPhys)
      ∧ (sfcxReadBlock statusOf flash (i * sfc.blockSz) n p data
          (blockStatus statusOf (i * sfc.pagesInBlock) p)).2
        = blockStatus statusOf (i * sfc.pagesInBlock) (p + n) := by
  induction n generalizing p data with
  | zero => exact ⟨hdata, rfl⟩
  | succ n ih =>
    rw [sfcxReadBlock, block_address, readPage_page, address_page,
      show p + (n + 1) = p + 1 + n by omega]
    exact ih (p + 1) _ (load_gather hdata)

variable (sfc) in
theorem Sfc.secondPage_lt : sfc.secondPage < sfc.pagesInBlock := by
  have hsecond : sfc.secondPage ≤ 8 := by
    rw [secondPage]
    split <;> decide
  rcases sfc.pagesInBlock_cases with h | h | h <;> omega

variable (sfc) in
theorem Sfc.secondPgOffset_eq : sfc.secondPgOffset = sfc.secondPage * pageSzPhys := by
  rw [secondPgOffset, secondPage]
  split <;> rfl

theorem bad_status (status : BitVec 32) :
    (status ||| statusBbEr) &&& (statusBbEr ||| statusEccEr) ≠ 0 := by
  intro h
  have hbit : ((status ||| statusBbEr) &&& (statusBbEr ||| statusEccEr)).getLsbD 6 = false := by
    rw [h]
    decide
  have hbb : statusBbEr.getLsbD 6 = true := by decide
  rw [BitVec.getLsbD_and, BitVec.getLsbD_or, BitVec.getLsbD_or, hbb] at hbit
  simp at hbit

section Probe

variable (statusOf : Nat → BitVec 32) (i : Nat) (s : RawState)

variable (sfc) in
theorem readBlock_spec :
    (∀ k < sfc.blockSzPhys, (sfcxReadBlock statusOf s.flash (i * sfc.blockSz) sfc.pagesInBlock 0
        s.blockbuf 0).1 k = rawData s.flash.pages (i * sfc.blockSzPhys + k))
      ∧ (sfcxReadBlock statusOf s.flash (i * sfc.blockSz) sfc.pagesInBlock 0 s.blockbuf 0).2
        = blockStatus statusOf (i * sfc.pagesInBlock) sfc.pagesInBlock := by
  obtain ⟨hdata, hstatus⟩ := readBlock_loads sfc statusOf s.flash i sfc.pagesInBlock 0 s.blockbuf
    (by simp [load])
  rw [Nat.zero_add] at hstatus
  refine ⟨fun k hk => ?_, hstatus⟩
  rw [Nat.zero_add, Nat.mul_assoc] at hdata
  have hcell := eq_of_load_eq hdata hk
  rw [Nat.zero_add] at hcell
  exact hcell

theorem readBlock_page {p k : Nat} (hp : p < sfc.pagesInBlock) (hk : k < pageSzPhys) :
    (sfcxReadBlock statusOf s.flash (i * sfc.blockSz) sfc.pagesInBlock 0 s.blockbuf 0).1
        (p * pageSzPhys + k) = s.flash.pages (i * sfc.pagesInBlock + p) k := by
  rw [(readBlock_spec sfc statusOf i s).1 _ (cell_lt hp hk), Sfc.blockSzPhys, ← Nat.mul_assoc, ← Nat.add_assoc,
    ← Nat.add_mul, rawData, pageData_page 0 _ _ hk, Nat.zero_add]

theorem probe_data {k : Nat} (hk : k < sfc.blockSzPhys) :
    (probe sfc statusOf i s).1 k = rawData s.flash.pages (i * sfc.blockSzPhys + k) := by
  rw [← (readBlock_spec sfc statusOf i s).1 k hk, probe]
  split <;> rfl

theorem probe_good_iff :
    (probe sfc statusOf i s).2 &&& (statusBbEr ||| statusEccEr) = 0
      ↔ goodBlock sfc statusOf s.flash.pages i := by
  -- the tests of the buffer are tests of two pages of the flash
  have hfirst := pagevalid_congr sfc fun k hk =>
    readBlock_page statusOf i s sfc.pagesInBlock_pos hk
  have hsecond := pagevalid_congr sfc fun k hk =>
    readBlock_page statusOf i s sfc.secondPage_lt hk
  simp only [Nat.zero_mul, Nat.zero_add, Nat.add_zero] at hfirst
  rw [probe, sfc.secondPgOffset_eq, goodBlock, ← hfirst, ← hsecond,
    ← (readBlock_spec sfc statusOf i s).2]
  split
  · next hinvalid =>
      refine ⟨fun h => absurd h (bad_status _), fun h => ?_⟩
      rcases hinvalid with hinvalid | hinvalid
      · exact absurd (hinvalid.symm.trans h.2.1) (by decide)
      · exact absurd (hinvalid.symm.trans h.2.2) (by decide)
  · next hvalid =>
      rw [not_or, Bool.not_eq_false, Bool.not_eq_false] at hvalid
      exact ⟨fun h => ⟨h, hvalid⟩, fun h => h.1⟩

end Probe

/-! ### Writing a block -/

theorem div_block {i p pib : Nat} (hp : p < pib) : (i * pib + p) / pib = i := by
  rw [Nat.mul_comm, Nat.mul_add_div (by omega), Nat.div_eq_of_lt hp, Nat.add_zero]

variable (sfc) in
/-- The first pages of an erased block are written. -/
structure Writing (before : Nat → Page) (data : Nat → Byte) (i p : Nat) (now : Nat → Page) :
    Prop where
  written : ∀ m < p, now (i * sfc.pagesInBlock + m) = fun k => data (m * pageSzPhys + k)
  erased : ∀ m, p ≤ m → m < sfc.pagesInBlock → now (i * sfc.pagesInBlock + m) = erasedPage
  kept : ∀ q, q / sfc.pagesInBlock ≠ i → now q = before q

variable {before : Nat → Page} {data : Nat → Byte} {i p : Nat}

variable (sfc) in
theorem Writing.start (flash : Flash) (data : Nat → Byte) (i : Nat) :
    Writing sfc flash.pages data i 0 (flash.eraseBlock sfc (i * sfc.blockSz)).pages := by
  have hpages (q : Nat) : (flash.eraseBlock sfc (i * sfc.blockSz)).pages q
      = if q / sfc.pagesInBlock = i then erasedPage else flash.pages q := by
    rw [Flash.eraseBlock, Nat.mul_div_cancel i (by rcases sfc.sized with h | h | h <;> omega)]
  refine ⟨fun m hm => absurd hm (Nat.not_lt_zero m), fun m _ hm => ?_, fun q hq => ?_⟩
  · rw [hpages, if_pos (div_block hm)]
  · rw [hpages, if_neg hq]

theorem Writing.step {flash : Flash} (h : Writing sfc before data i p flash.pages)
    (hp : p < sfc.pagesInBlock) :
    Writing sfc before data i (p + 1) (flash.writePage nand (fun k => data (p * pageSzPhys + k))
      (i * sfc.blockSz + p * pageSz)).pages := by
  rw [block_address, writePage_pages nand (h.erased p (Nat.le_refl p) hp)]
  refine ⟨fun m hm => ?_, fun m hm hm' => ?_, fun q hq => ?_⟩
  · by_cases hmp : m = p
    · rw [hmp, Function.update_self]
    · rw [Function.update_of_ne (by omega)]
      exact h.written m (by omega)
  · rw [Function.update_of_ne (by omega)]
    exact h.erased m (by omega) hm'
  · have hne : q ≠ i * sfc.pagesInBlock + p := fun e => hq (e ▸ div_block hp)
    rw [Function.update_of_ne hne]
    exact h.kept q hq

theorem Writing.loop (n : Nat) {flash : Flash} (h : Writing sfc before data i p flash.pages)
    (hn : p + n ≤ sfc.pagesInBlock) :
    Writing sfc before data i (p + n)
      (sfcxWriteBlock nand data (i * sfc.blockSz) n p flash).pages := by
  induction n generalizing p flash with
  | zero => exact h
  | succ n ih =>
    rw [show p + (n + 1) = p + 1 + n by omega]
    exact ih (h.step nand (by omega)) (by omega)

theorem page_lt_of_block {k : Nat} (hk : k < sfc.blockSzPhys) :
    k / pageSzPhys < sfc.pagesInBlock :=
  Nat.div_lt_of_lt_mul (by rw [Nat.mul_comm]; exact hk)

variable (sfc) in
theorem rawData_block (pages : Nat → Page) (i k : Nat) :
    rawData pages (i * sfc.blockSzPhys + k)
      = pages (i * sfc.pagesInBlock + k / pageSzPhys) (k % pageSzPhys) := by
  have haddress : i * sfc.blockSzPhys + k
      = (i * sfc.pagesInBlock + k / pageSzPhys) * pageSzPhys + k % pageSzPhys := by
    rw [Sfc.blockSzPhys, Nat.add_mul, Nat.add_assoc, Nat.div_add_mod', Nat.mul_assoc]
  rw [haddress, rawData, pageData_page 0 pages _ (Nat.mod_lt k (by decide)), Nat.zero_add]

theorem rawData_block_congr {pages pages' : Nat → Page} {i k : Nat}
    (h : ∀ q, q / sfc.pagesInBlock = i → pages q = pages' q) (hk : k < sfc.blockSzPhys) :
    rawData pages (i * sfc.blockSzPhys + k) = rawData pages' (i * sfc.blockSzPhys + k) := by
  rw [rawData_block, rawData_block, h _ (div_block (page_lt_of_block hk))]

theorem goodBlock_congr (statusOf : Nat → BitVec 32) {pages pages' : Nat → Page} {i : Nat}
    (h : ∀ q, q / sfc.pagesInBlock = i → pages q = pages' q) :
    goodBlock sfc statusOf pages i ↔ goodBlock sfc statusOf pages' i := by
  have hfirst := h (i * sfc.pagesInBlock + 0) (div_block sfc.pagesInBlock_pos)
  rw [Nat.add_zero] at hfirst
  rw [goodBlock, goodBlock, hfirst, h _ (div_block sfc.secondPage_lt)]

variable (sfc) in
theorem writeBlock_spec (flash : Flash) (data : Nat → Byte) (i : Nat) :
    (∀ k < sfc.blockSzPhys, rawData (sfcxWriteBlock nand data (i * sfc.blockSz) sfc.pagesInBlock 0
        (flash.eraseBlock sfc (i * sfc.blockSz))).pages (i * sfc.blockSzPhys + k) = data k)
      ∧ ∀ q, q / sfc.pagesInBlock ≠ i →
        (sfcxWriteBlock nand data (i * sfc.blockSz) sfc.pagesInBlock 0
          (flash.eraseBlock sfc (i * sfc.blockSz))).pages q = flash.pages q := by
  have h := (Writing.start sfc flash data i).loop nand sfc.pagesInBlock (by omega)
  refine ⟨fun k hk => ?_, h.kept⟩
  rw [rawData_block, h.written _ (by have := page_lt_of_block hk; omega)]
  exact congrArg data (Nat.div_add_mod' k pageSzPhys)

/-! ### The whole image -/

variable {statusOf : Nat → BitVec 32} {file : ImageFile sfc} {pages : Nat → Page}

/-- How many bytes a call of `read` delivers. -/
def ImageFile.got (file : ImageFile sfc) (i : Nat) : Nat := (file.result i).toNat

/-- The position in the file before block `i`. -/
def ImageFile.pos (file : ImageFile sfc) : Nat → Nat
  | 0 => 0
  | i + 1 => file.pos i + file.got i

/-- What the buffer holds when block `i` is written. -/
def ImageFile.buffer (file : ImageFile sfc) (pages : Nat → Page) (i k : Nat) : Byte :=
  if k < file.got i then file.content (file.pos i + k)
  else rawData pages (i * sfc.blockSzPhys + k)

/-- The state before block `i`. -/
structure RawWritten (statusOf : Nat → BitVec 32) (file : ImageFile sfc) (pages : Nat → Page)
    (i : Nat) (flash : Flash) : Prop where
  good : ∀ j < i, goodBlock sfc statusOf pages j → ∀ k < sfc.blockSzPhys,
    rawData flash.pages (j * sfc.blockSzPhys + k) = file.buffer pages j k
  bad : ∀ q, q / sfc.pagesInBlock < i → ¬goodBlock sfc statusOf pages (q / sfc.pagesInBlock) →
    flash.pages q = pages q
  ahead : ∀ q, i ≤ q / sfc.pagesInBlock → flash.pages q = pages q

theorem rawflashTurn_effect {s s' : RawState} (h : rawflashTurn nand statusOf file i s = some s') :
    s'.pos = s.pos + file.got i
      ∧ (∀ q, q / sfc.pagesInBlock ≠ i → s'.flash.pages q = s.flash.pages q)
      ∧ (goodBlock sfc statusOf s.flash.pages i → ∀ k < sfc.blockSzPhys,
        rawData s'.flash.pages (i * sfc.blockSzPhys + k)
          = if k < file.got i then file.content (s.pos + k)
            else rawData s.flash.pages (i * sfc.blockSzPhys + k))
      ∧ (¬goodBlock sfc statusOf s.flash.pages i → s'.flash = s.flash) := by
  rw [rawflashTurn] at h
  by_cases hfail : file.result i < 0
  · rw [if_pos hfail] at h
    cases h
  rw [if_neg hfail] at h
  cases h
  -- behind a short read the buffer has what the probe read
  have hbuffer (k : Nat) (hk : k < sfc.blockSzPhys) :
      store (probe sfc statusOf i s).1 0 (load file.content s.pos (file.got i)) k
        = if k < file.got i then file.content (s.pos + k)
          else rawData s.flash.pages (i * sfc.blockSzPhys + k) := by
    by_cases hgot : k < file.got i
    · have hcell : store (probe sfc statusOf i s).1 0 (load file.content s.pos (file.got i)) (0 + k)
          = _ := store_inside (by rw [length_load]; exact hgot)
      rw [Nat.zero_add] at hcell
      rw [if_pos hgot, hcell, getElem_load]
    · rw [if_neg hgot, store_outside (by rw [length_load]; omega), probe_data statusOf i s hk]
  by_cases hgood : goodBlock sfc statusOf s.flash.pages i
  · obtain ⟨hwritten, hkept⟩ := writeBlock_spec nand sfc s.flash
      (store (probe sfc statusOf i s).1 0 (load file.content s.pos (file.got i))) i
    rw [if_pos ((probe_good_iff statusOf i s).mpr hgood)]
    exact ⟨rfl, hkept, fun _ k hk => (hwritten k hk).trans (hbuffer k hk), absurd hgood⟩
  · rw [if_neg fun h => hgood ((probe_good_iff statusOf i s).mp h)]
    exact ⟨rfl, fun _ _ => rfl, fun h => absurd h hgood, fun _ => rfl⟩

theorem RawWritten.turn {s s' : RawState} (h : RawWritten statusOf file pages i s.flash)
    (hpos : s.pos = file.pos i) (hturn : rawflashTurn nand statusOf file i s = some s') :
    RawWritten statusOf file pages (i + 1) s'.flash ∧ s'.pos = file.pos (i + 1) := by
  obtain ⟨hpos', hother, hgood, hbad⟩ := rawflashTurn_effect nand hturn
  -- the block is still as it was before the first turn
  have hsame (q : Nat) (hq : q / sfc.pagesInBlock = i) : s.flash.pages q = pages q :=
    h.ahead q (by omega)
  have hjudge := goodBlock_congr statusOf hsame
  refine ⟨⟨fun j hj hj' k hk => ?_, fun q hq hq' => ?_, fun q hq => ?_⟩, ?_⟩
  · by_cases hji : j = i
    · subst hji
      rw [hgood (hjudge.mpr hj') k hk, hpos, rawData_block_congr hsame hk, ImageFile.buffer]
    · rw [rawData_block_congr (fun q hq => hother q (by omega)) hk]
      exact h.good j (by omega) hj' k hk
  · by_cases hqi : q / sfc.pagesInBlock = i
    · rw [hqi] at hq'
      rw [hbad fun hg => hq' (hjudge.mp hg), hsame q hqi]
    · rw [hother q hqi]
      exact h.bad q (by omega) hq'
  · rw [hother q (by omega)]
    exact h.ahead q (by omega)
  · rw [hpos', hpos, ImageFile.pos]

/-- The loop writes all blocks, or those up to a failed `read`. -/
theorem RawWritten.loop (n : Nat) {s : RawState} {result : Int} {after : Flash}
    (h : RawWritten statusOf file pages i s.flash) (hpos : s.pos = file.pos i)
    (hloop : rawflashLoop nand statusOf file n i s = (result, after)) :
    (result = 1 ∧ RawWritten statusOf file pages (i + n) after)
      ∨ (result = 0 ∧ ∃ m < n, file.result (i + m) < 0
        ∧ RawWritten statusOf file pages (i + m) after) := by
  induction n generalizing i s with
  | zero =>
    cases hloop
    exact .inl ⟨rfl, h⟩
  | succ n ih =>
    rw [rawflashLoop] at hloop
    rcases hturn : rawflashTurn nand statusOf file i s with - | s'
    · rw [hturn] at hloop
      cases hloop
      have hfail : file.result i < 0 := by
        by_contra hread
        rw [rawflashTurn, if_neg hread] at hturn
        cases hturn
      exact .inr ⟨rfl, 0, Nat.succ_pos n, hfail, h⟩
    · rw [hturn] at hloop
      obtain ⟨h', hpos'⟩ := h.turn nand hpos hturn
      rw [show i + (n + 1) = i + 1 + n by omega]
      rcases ih h' hpos' hloop with hdone | ⟨hresult, m, hm, hfail, hwritten⟩
      · exact .inl hdone
      · rw [show i + 1 + m = i + (m + 1) by omega] at hfail hwritten
        exact .inr ⟨hresult, m + 1, by omega, hfail, hwritten⟩

/-- How `rawflash_writeImage` ends. -/
theorem rawflashWriteImage_cases {blockbuf : Option (Nat → Byte)} {len : Int} {result : Int}
    {after : Flash}
    (h : rawflashWriteImage nand statusOf blockbuf len file pages = (result, after)) :
    (result = 1 ∧ RawWritten statusOf file pages (sfc.numblocks len) after)
      ∨ (result = 0 ∧ (blockbuf = none ∨ ∃ m < sfc.numblocks len, file.result m < 0)
        ∧ ∃ m ≤ sfc.numblocks len, RawWritten statusOf file pages m after) := by
  have hstart : RawWritten statusOf file pages 0 ⟨pages, []⟩ :=
    ⟨fun j hj => absurd hj (Nat.not_lt_zero j), fun q hq => absurd hq (Nat.not_lt_zero _),
      fun _ _ => rfl⟩
  rcases blockbuf with - | blockbuf
  · cases h
    exact .inr ⟨rfl, .inl rfl, 0, Nat.zero_le _, hstart⟩
  · rcases hstart.loop nand (s := ⟨⟨pages, []⟩, 0, blockbuf⟩) (sfc.numblocks len) rfl h with
      hdone | ⟨hresult, m, hm, hfail, hwritten⟩
    · rw [Nat.zero_add] at hdone
      exact .inl hdone
    · rw [Nat.zero_add] at hfail hwritten
      exact .inr ⟨hresult, .inr ⟨m, hm, hfail⟩, m, by omega, hwritten⟩

/-- The block is as the image has it if it is good, and as it was otherwise. -/
def BlockWritten (statusOf : Nat → BitVec 32) (file : ImageFile sfc) (pages : Nat → Page)
    (after : Flash) (i : Nat) : Prop :=
  (goodBlock sfc statusOf pages i → ∀ k < sfc.blockSzPhys,
      rawData after.pages (i * sfc.blockSzPhys + k) = file.content (i * sfc.blockSzPhys + k))
    ∧ (¬goodBlock sfc statusOf pages i → ∀ q, q / sfc.pagesInBlock = i → after.pages q = pages q)

/-- **What `rawflash_writeImage` leaves in the flash.**  Blocks behind the image
are unchanged.  If it returns 1, all blocks are as they should be if and only if
for each good block the bytes `read` has delivered, completed by the old block,
are those of the image; they are if `read` always delivers a whole block
(`ImageFile.buffer_of_full`). -/
theorem rawflashWriteImage_iff {blockbuf : Option (Nat → Byte)} {len : Int} {result : Int}
    {after : Flash}
    (h : rawflashWriteImage nand statusOf blockbuf len file pages = (result, after)) :
    (∀ q, sfc.numblocks len ≤ q / sfc.pagesInBlock → after.pages q = pages q)
      ∧ (result = 1 →
        ((∀ i < sfc.numblocks len, BlockWritten statusOf file pages after i)
          ↔ ∀ i < sfc.numblocks len, goodBlock sfc statusOf pages i → ∀ k < sfc.blockSzPhys,
            file.buffer pages i k = file.content (i * sfc.blockSzPhys + k))) := by
  rcases rawflashWriteImage_cases nand h with ⟨-, hwritten⟩ | ⟨hresult, -, m, hm, hwritten⟩
  · refine ⟨hwritten.ahead, fun _ => ⟨fun hall i hi hgood k hk => ?_, fun hall i hi => ⟨?_, ?_⟩⟩⟩
    · rw [← hwritten.good i hi hgood k hk, (hall i hi).1 hgood k hk]
    · intro hgood k hk
      rw [hwritten.good i hi hgood k hk, hall i hi hgood k hk]
    · intro hbad q hq
      exact hwritten.bad q (by omega) (by rwa [hq])
  · refine ⟨fun q hq => hwritten.ahead q (by omega), fun hone => ?_⟩
    rw [hresult] at hone
    cases hone

/-! ### Whole reads and short reads -/

theorem ImageFile.pos_of_full (hfull : ∀ j < i, file.result j = sfc.blockSzPhys) :
    file.pos i = i * sfc.blockSzPhys := by
  induction i with
  | zero => rw [pos, Nat.zero_mul]
  | succ i ih =>
    have hgot : file.got i = sfc.blockSzPhys := by
      rw [got, hfull i (Nat.lt_succ_self i), Int.toNat_natCast]
    rw [pos, ih fun j hj => hfull j (by omega), hgot, Nat.add_mul, Nat.one_mul]

/-- If `read` always delivers a whole block, the buffer holds the image. -/
theorem ImageFile.buffer_of_full (hfull : ∀ j, file.result j = sfc.blockSzPhys)
    (pages : Nat → Page) (i : Nat) {k : Nat} (hk : k < sfc.blockSzPhys) :
    file.buffer pages i k = file.content (i * sfc.blockSzPhys + k) := by
  have hgot : file.got i = sfc.blockSzPhys := by
    rw [got, hfull i, Int.toNat_natCast]
  rw [buffer, if_pos (hgot ▸ hk), pos_of_full fun j _ => hfull j]

/-- A file of zeros, of which each `read` delivers the same number of bytes. -/
def zeroFile (n : Nat) (h : n ≤ smallBlocks.blockSzPhys) : ImageFile smallBlocks where
  content _ := 0
  result _ := n
  readable _ := ⟨by omega, by omega⟩

theorem rawflashWriteImage_zeroFile (n : Nat) (h : n ≤ smallBlocks.blockSzPhys) :
    ∃ after, rawflashWriteImage Nand.cells (fun _ => 0) (some fun _ => 0) 0x8400 (zeroFile n h)
        (fun _ => erasedPage) = (1, after)
      ∧ RawWritten (fun _ => 0) (zeroFile n h) (fun _ => erasedPage) 2 after := by
  rcases hout : rawflashWriteImage Nand.cells (fun _ => 0) (some fun _ => 0) 0x8400 (zeroFile n h)
    (fun _ => erasedPage) with ⟨result, after⟩
  rcases rawflashWriteImage_cases Nand.cells hout with ⟨rfl, hwritten⟩ | ⟨-, hfail, -⟩
  · exact ⟨after, rfl, hwritten⟩
  · rcases hfail with hfail | ⟨m, -, hfail⟩
    · cases hfail
    · exact absurd hfail (Int.not_lt.mpr (Int.natCast_nonneg n))

theorem goodBlock_erased (i : Nat) :
    goodBlock smallBlocks (fun _ => 0) (fun _ => erasedPage) i := by
  have hstatus (b n : Nat) : blockStatus (fun _ => 0) b n = 0 := by
    induction n with
    | zero => rfl
    | succ n ih => exact (congrArg (· ||| 0) ih).trans rfl
  refine ⟨?_, rfl, rfl⟩
  rw [hstatus]
  decide

/-- With whole reads the zeros arrive. -/
theorem rawflashWriteImage_whole : ∃ after : Flash,
    rawflashWriteImage Nand.cells (fun _ => 0) (some fun _ => 0) 0x8400
        (zeroFile smallBlocks.blockSzPhys (Nat.le_refl _)) (fun _ => erasedPage) = (1, after)
      ∧ ∀ i < 2, BlockWritten (fun _ => 0) (zeroFile smallBlocks.blockSzPhys (Nat.le_refl _))
        (fun _ => erasedPage) after i := by
  obtain ⟨after, h, -⟩ := rawflashWriteImage_zeroFile smallBlocks.blockSzPhys (Nat.le_refl _)
  exact ⟨after, h, ((rawflashWriteImage_iff Nand.cells h).2 rfl).mpr fun i _ _ k hk =>
    ImageFile.buffer_of_full (fun _ => rfl) _ i hk⟩

/-- `read` delivers one page less than a block: the last page of the block is
the old one, and 1 is returned. -/
theorem rawflashWriteImage_short : ∃ (after : Flash) (n : Nat) (hn : n ≤ smallBlocks.blockSzPhys),
    rawflashWriteImage Nand.cells (fun _ => 0) (some fun _ => 0) 0x8400 (zeroFile n hn)
        (fun _ => erasedPage) = (1, after)
      ∧ ¬BlockWritten (fun _ => 0) (zeroFile n hn) (fun _ => erasedPage) after 0 := by
  have hn : 0x3FF0 ≤ smallBlocks.blockSzPhys := by decide
  obtain ⟨after, h, hwritten⟩ := rawflashWriteImage_zeroFile 0x3FF0 hn
  refine ⟨after, 0x3FF0, hn, h, fun hblock => ?_⟩
  have hk : 0x3FF0 < smallBlocks.blockSzPhys := by decide
  have hcell := hwritten.good 0 (by omega) (goodBlock_erased 0) 0x3FF0 hk
  rw [hblock.1 (goodBlock_erased 0) 0x3FF0 hk, ImageFile.buffer] at hcell
  have hbyte : (0 : Byte) = 0xFF := hcell
  exact absurd hbyte (by decide)

end LibXenon
