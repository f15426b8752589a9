/-
LibXenon/UpdateXell.lean

Flashing a new loader, `updateXeLL` of xb360.c.

The loader may be at one of six addresses, and is there if it ends in sixteen
`x`.  An address need not be the first of a block, nor of a page: so the
blocks around the 256 KB from it on are read into memory, user data and spare
bytes apart, the image is copied over, and the blocks are erased and written
again, page by page.  A page that is erased is not written.  The four spare
bytes with the error correction code are cleared before the code is computed;
the code however has 26 bits and not 32.

In the end the user data is as it was, but for the image, and every page that
was written has its code.  The six bits of the cleared bytes that are not part
of the code are lost.
-/
import LibXenon.Sfcx

namespace LibXenon

open ByteMemory

/-! ### The update -/

def xellSize : Nat := 256 * 1024

def xellFooterOffset : Nat := 256 * 1024 - 16

/-- Sixteen `x`. -/
def xellFooter : List Byte := List.replicate 16 0x78

def xelloffsets : List Nat := [0x70000, 0x95060, 0x100000, 0xC0000, 0xE0000, 0xB80000]

variable (nand : Nand) (sfc : Sfc)

def Sfc.offsetinblock (current : Nat) : Nat := current % sfc.blockSz

def Sfc.startblock (current : Nat) : Nat := current / sfc.blockSz

def Sfc.blockcnt (current : Nat) : Nat :=
  if sfc.offsetinblock current ≠ 0 then xellSize / sfc.blockSz + 1 else xellSize / sfc.blockSz

/-- The first page of the window. -/
def Sfc.first (current : Nat) : Nat := sfc.startblock current * sfc.pagesInBlock

/-- The number of its pages. -/
def Sfc.count (current : Nat) : Nat := sfc.blockcnt current * sfc.pagesInBlock

/-- The first loop: raw pages are split into `user` and `spare`. -/
def readWindow (flash : Flash) :
    Nat → Nat → Nat → (Nat → Byte) → (Nat → Byte) → (Nat → Byte) × (Nat → Byte)
  | 0, _, _, user, spare => (user, spare)
  | n + 1, i, j, user, spare =>
    -- the status of the read is not looked at
    let pagebuf := flash.readPage (i * pageSz)
    readWindow flash n (i + 1) (j + 1)
      (store user (j * pageSz) (load pagebuf 0 pageSz))
      (store spare (j * metaSz) (load pagebuf pageSz metaSz))

/-- The two copies that fill `pagebuf`. -/
def assemble (user spare : Nat → Byte) (j : Nat) : Page := fun k =>
  if k < pageSz then user (j * pageSz + k) else spare (j * metaSz + (k - pageSz))

/-- `memset(&pagebuf[sfc.page_sz+0x0C],0x0, 4)`. -/
def clearEdc (page : Page) : Page := store page (pageSz + 0x0C) [0, 0, 0, 0]

/-- What is written for a page. -/
def encode (page : Page) : Page := sfcxCalcecc (clearEdc page)

/-- The first page of a block erases it. -/
def beginBlock (i : Nat) (flash : Flash) : Flash :=
  if i % sfc.pagesInBlock = 0 then flash.eraseBlock sfc (i * pageSz) else flash

/-- A turn of the second loop. -/
def rewritePage (pagebuf : Page) (i : Nat) (flash : Flash) : Flash :=
  -- an erased page need not be written to an erased block
  if sfcxIsPageerased pagebuf then beginBlock sfc i flash
  else (beginBlock sfc i flash).writePage nand (encode pagebuf) (i * pageSz)

def rewriteWindow (user spare : Nat → Byte) : Nat → Nat → Nat → Flash → Flash
  | 0, _, _, flash => flash
  | n + 1, i, j, flash =>
    rewriteWindow user spare n (i + 1) (j + 1)
      (rewritePage nand sfc (assemble user spare j) i flash)

/-- How a call of `updateXeLL` ends: it returns, or it writes past the end of
`user`, or it has flashed the image and loops. -/
inductive XellOutcome where
  | returned (result : Int) (flash : Flash)
  | overrun
  | flashed (flash : Flash)

/-- The footer was found. -/
def flashXell (image : List Byte) (flash : Flash) (current : Nat) (user spare : Nat → Byte) :
    XellOutcome :=
  if sfc.offsetinblock current + image.length ≤ sfc.blockcnt current * sfc.blockSz then
    .flashed (rewriteWindow nand sfc (store user (sfc.offsetinblock current) image) spare
      (sfc.count current) (sfc.first current) 0 flash)
  else .overrun

/-- What `malloc` returns in the turns of the outer loop. -/
structure XellHeap where
  spare : Nat → Option (Nat → Byte)
  user : Nat → Option (Nat → Byte)

def xellRounds (heap : XellHeap) (image : List Byte) (flash : Flash) : List Nat → Nat → XellOutcome
  | [], _ => .returned (-1) flash
  | current :: rest, k =>
    match heap.spare k with
    | none => .returned (-1) flash
    | some spare =>
      match heap.user k with
      | none => .returned (-1) flash
      | some user =>
        let window := readWindow flash (sfc.count current) (sfc.first current) 0 user spare
        if load window.1 (sfc.offsetinblock current + xellFooterOffset) 16 = xellFooter then
          flashXell nand sfc image flash current window.1 window.2
        else xellRounds heap image flash rest (k + 1)

/-- `updateXeLL`, on a flash with the given pages. -/
def updateXeLL (heap : XellHeap) (image : List Byte) (pages : Nat → Page) : XellOutcome :=
  let flash : Flash := { pages, ops := [] }
  if sfc.initialized ≠ sfcxInitialized then .returned (-1) flash
  else xellRounds nand sfc heap image flash xelloffsets 0

/-! ### The window -/

theorem Sfc.first_address (current : Nat) :
    sfc.first current * pageSz + sfc.offsetinblock current = current := by
  rw [first, startblock, offsetinblock, Nat.mul_assoc, ← sfc.blockSz_eq, Nat.mul_comm,
    Nat.div_add_mod]

theorem Sfc.count_size (current : Nat) :
    sfc.count current * pageSz = sfc.blockcnt current * sfc.blockSz := by
  rw [count, Nat.mul_assoc, ← sfc.blockSz_eq]

theorem Sfc.window_size (current : Nat) :
    sfc.offsetinblock current + xellSize ≤ sfc.count current * pageSz := by
  rw [count_size, blockcnt, offsetinblock, xellSize]
  rcases sfc.sized with h | h | h <;> rw [h] <;> split <;> omega

theorem readWindow_loads (flash : Flash) (b n j : Nat) (user spare : Nat → Byte)
    (huser : load user 0 (j * pageSz) = load (userData flash.pages) (b * pageSz) (j * pageSz))
    (hspare : load spare 0 (j * metaSz) = load (spareData flash.pages) (b * metaSz) (j * metaSz)) :
    load (readWindow flash n (b + j) j user spare).1 0 ((j + n) * pageSz)
        = load (userData flash.pages) (b * pageSz) ((j + n) * pageSz)
      ∧ load (readWindow flash n (b + j) j user spare).2 0 ((j + n) * metaSz)
        = load (spareData flash.pages) (b * metaSz) ((j + n) * metaSz) := by
  induction n generalizing j user spare with
  | zero => exact ⟨huser, hspare⟩
  | succ n ih =>
    rw [readWindow, readPage_page, show j + (n + 1) = j + 1 + n by omega]
    exact ih (j + 1) _ _ (load_gather huser) (load_gather hspare)

/-- Two buffers with the pages of the window. -/
structure Gathered (pages : Nat → Page) (current : Nat) (user spare : Nat → Byte) : Prop where
  user : load user 0 (sfc.count current * pageSz)
    = load (userData pages) (sfc.first current * pageSz) (sfc.count current * pageSz)
  spare : load spare 0 (sfc.count current * metaSz)
    = load (spareData pages) (sfc.first current * metaSz) (sfc.count current * metaSz)

theorem readWindow_gathered (flash : Flash) (current : Nat) (user spare : Nat → Byte) :
    Gathered sfc flash.pages current
      (readWindow flash (sfc.count current) (sfc.first current) 0 user spare).1
      (readWindow flash (sfc.count current) (sfc.first current) 0 user spare).2 := by
  have h := readWindow_loads flash (sfc.first current) (sfc.count current) 0 user spare
    (by simp [load]) (by simp [load])
  rw [Nat.zero_add] at h
  exact ⟨h.1, h.2⟩

/-- The footer in the flash. -/
def footerAt (pages : Nat → Page) (current : Nat) : Prop :=
  load (userData pages) (current + xellFooterOffset) 16 = xellFooter

instance (pages : Nat → Page) (current : Nat) : Decidable (footerAt pages current) := by
  unfold footerAt
  infer_instance

variable {sfc} {pages : Nat → Page} {current : Nat} {user spare : Nat → Byte}

theorem Gathered.footer_iff (h : Gathered sfc pages current user spare) :
    load user (sfc.offsetinblock current + xellFooterOffset) 16 = xellFooter
      ↔ footerAt pages current := by
  have hsize : sfc.offsetinblock current + xellFooterOffset + 16 ≤ sfc.count current * pageSz := by
    have := sfc.window_size current
    rw [xellSize] at this
    rw [xellFooterOffset]
    omega
  have hslice : load user (sfc.offsetinblock current + xellFooterOffset) 16
      = load (userData pages) (current + xellFooterOffset) 16 := by
    have hpart := load_part h.user hsize
    rwa [Nat.zero_add, ← Nat.add_assoc, sfc.first_address] at hpart
  rw [hslice, footerAt]

/-- A page with the image copied over its user data. -/
def patchedPage (pages : Nat → Page) (current : Nat) (image : List Byte) (q : Nat) : Page := fun k =>
  if k < pageSz then store (userData pages) current image (q * pageSz + k) else pages q k

/-- What `pagebuf` holds in a turn of the second loop. -/
theorem Gathered.assemble_eq (h : Gathered sfc pages current user spare) (image : List Byte)
    {j : Nat} (hj : j < sfc.count current) {k : Nat} (hk : k < pageSzPhys) :
    assemble (store user (sfc.offsetinblock current) image) spare j k
      = patchedPage pages current image (sfc.first current + j) k := by
  rw [assemble, patchedPage]
  by_cases huser : k < pageSz
  · have hcell := eq_of_load_eq h.user (cell_lt hj huser)
    rw [Nat.zero_add] at hcell
    rw [if_pos huser, if_pos huser, store_shift hcell, sfc.first_address, Nat.add_mul,
      Nat.add_assoc]
  · obtain ⟨m, rfl⟩ : ∃ m, k = pageSz + m := ⟨k - pageSz, by omega⟩
    have hm : m < metaSz := by
      rw [pageSzPhys] at hk
      omega
    have hcell := eq_of_load_eq h.spare (cell_lt hj hm)
    rw [Nat.zero_add, ← Nat.add_assoc, ← Nat.add_mul] at hcell
    rw [if_neg huser, if_neg huser, Nat.add_sub_cancel_left, hcell, spareData,
      pageData_page pageSz pages _ hm]

/-! ### The second loop -/

/-- What the second loop leaves of a page. -/
def rewritten (page : Page) : Page := if sfcxIsPageerased page then erasedPage else encode page

variable (sfc) in
/-- The flash before the second loop comes to page `i`: the pages behind it are
as they will be, and the rest of its block is erased if the block has been
begun. -/
structure Rewriting (pages buf : Nat → Page) (first i : Nat) (now : Nat → Page) : Prop where
  done : ∀ q, first ≤ q → q < i → now q = rewritten (buf (q - first))
  erased : ∀ q, i ≤ q → i % sfc.pagesInBlock ≠ 0 →
    q / sfc.pagesInBlock = i / sfc.pagesInBlock → now q = erasedPage
  kept : ∀ q, q < first ∨ (i ≤ q ∧
    (i % sfc.pagesInBlock ≠ 0 → q / sfc.pagesInBlock ≠ i / sfc.pagesInBlock)) → now q = pages q

theorem le_of_div_eq {p i q : Nat} (hi : i % p = 0) (hq : q / p = i / p) : i ≤ q :=
  calc i = p * (i / p) := by rw [Nat.mul_div_cancel' (Nat.dvd_of_mod_eq_zero hi)]
    _ = p * (q / p) := by rw [hq]
    _ ≤ q := Nat.mul_div_le q p

theorem succ_div_of_mod {p i : Nat} (h : (i + 1) % p ≠ 0) : (i + 1) / p = i / p := by
  rw [Nat.succ_div, if_neg fun hd => h (Nat.mod_eq_zero_of_dvd hd), Nat.add_zero]

theorem div_ne_of_mod {p i q : Nat} (h : (i + 1) % p = 0) (hq : i + 1 ≤ q) :
    q / p ≠ i / p := by
  have hnext : (i + 1) / p = i / p + 1 := by
    rw [Nat.succ_div, if_pos (Nat.dvd_of_mod_eq_zero h)]
  have hle : (i + 1) / p ≤ q / p := Nat.div_le_div_right hq
  omega

variable {buf now : Nat → Page} {first i : Nat}

theorem Rewriting.begin {flash : Flash} (h : Rewriting sfc pages buf first i flash.pages)
    (hi : first ≤ i) :
    (∀ q, first ≤ q → q < i → (beginBlock sfc i flash).pages q = rewritten (buf (q - first)))
      ∧ (∀ q, i ≤ q → q / sfc.pagesInBlock = i / sfc.pagesInBlock →
        (beginBlock sfc i flash).pages q = erasedPage)
      ∧ ∀ q, q < first ∨ (i ≤ q ∧ q / sfc.pagesInBlock ≠ i / sfc.pagesInBlock) →
        (beginBlock sfc i flash).pages q = pages q := by
  have hkept (q : Nat) (hq : q < first ∨ (i ≤ q ∧ q / sfc.pagesInBlock ≠ i / sfc.pagesInBlock)) :
      flash.pages q = pages q :=
    h.kept q (hq.imp_right fun hq => ⟨hq.1, fun _ => hq.2⟩)
  -- the erased block begins with page `i`, so no page behind is lost
  by_cases hblock : i % sfc.pagesInBlock = 0
  · have hbefore (q : Nat) (hq : q < i) : q / sfc.pagesInBlock ≠ i / sfc.pagesInBlock := fun e =>
      absurd (le_of_div_eq hblock e) (by omega)
    rw [beginBlock, if_pos hblock]
    refine ⟨fun q hq hqi => ?_, fun q _ hq => ?_, fun q hq => ?_⟩
    · rw [eraseBlock_pages, if_neg (hbefore q hqi), h.done q hq hqi]
    · rw [eraseBlock_pages, if_pos hq]
    · have hne : q / sfc.pagesInBlock ≠ i / sfc.pagesInBlock := by
        rcases hq with hq | hq
        · exact hbefore q (by omega)
        · exact hq.2
      rw [eraseBlock_pages, if_neg hne, hkept q hq]
  · rw [beginBlock, if_neg hblock]
    exact ⟨h.done, fun q hq => h.erased q hq hblock, hkept⟩

theorem Rewriting.step {flash : Flash} (h : Rewriting sfc pages buf first i flash.pages)
    (hi : first ≤ i) :
    Rewriting sfc pages buf first (i + 1)
      (rewritePage nand sfc (buf (i - first)) i flash).pages := by
  obtain ⟨hdone, herased, hkept⟩ := h.begin hi
  -- page `i` is erased here: it stays so, or what is written is stored
  have hpage (q : Nat) : (rewritePage nand sfc (buf (i - first)) i flash).pages q
      = if q = i then rewritten (buf (i - first)) else (beginBlock sfc i flash).pages q := by
    rw [rewritePage, rewritten]
    by_cases hbuf : sfcxIsPageerased (buf (i - first))
    · rw [if_pos hbuf, if_pos hbuf]
      by_cases hq : q = i
      · rw [if_pos hq, hq, herased i (Nat.le_refl i) rfl]
      · rw [if_neg hq]
    · rw [if_neg hbuf, if_neg hbuf, writePage_pages nand (herased i (Nat.le_refl i) rfl)]
      by_cases hq : q = i
      · rw [if_pos hq, hq, Function.update_self]
      · rw [if_neg hq, Function.update_of_ne hq]
  constructor
  · intro q hq hqi
    rw [hpage]
    by_cases hqi' : q = i
    · rw [if_pos hqi', hqi']
    · rw [if_neg hqi', hdone q hq (by omega)]
  · intro q hq hmod hdiv
    rw [succ_div_of_mod hmod] at hdiv
    rw [hpage, if_neg (by omega), herased q (by omega) hdiv]
  · intro q hq
    rw [hpage, if_neg (by omega)]
    refine hkept q ?_
    rcases hq with hq | ⟨hq, hdiv⟩
    · exact .inl hq
    · refine .inr ⟨by omega, ?_⟩
      by_cases hmod : (i + 1) % sfc.pagesInBlock = 0
      · exact div_ne_of_mod hmod hq
      · rw [← succ_div_of_mod hmod]
        exact hdiv hmod

theorem Rewriting.window {user spare : Nat → Byte} (n j : Nat) (flash : Flash)
    (h : Rewriting sfc pages (assemble user spare) first (first + j) flash.pages) :
    Rewriting sfc pages (assemble user spare) first (first + j + n)
      (rewriteWindow nand sfc user spare n (first + j) j flash).pages := by
  induction n generalizing j flash with
  | zero => exact h
  | succ n ih =>
    have hstep := h.step nand (by omega)
    rw [Nat.add_sub_cancel_left] at hstep
    rw [show first + j + (n + 1) = first + (j + 1) + n by omega]
    exact ih (j + 1) _ hstep

theorem rewriteWindow_pages (user spare : Nat → Byte) (pages : Nat → Page) {b n : Nat}
    (hb : b % sfc.pagesInBlock = 0) (hn : (b + n) % sfc.pagesInBlock = 0) :
    (∀ j < n, (rewriteWindow nand sfc user spare n b 0 ⟨pages, []⟩).pages (b + j)
        = rewritten (assemble user spare j))
      ∧ ∀ q, q < b ∨ b + n ≤ q →
        (rewriteWindow nand sfc user spare n b 0 ⟨pages, []⟩).pages q = pages q := by
  have hstart : Rewriting sfc pages (assemble user spare) b (b + 0) pages :=
    ⟨fun q hq hqi => absurd hq (by omega), fun q _ hmod => absurd hb hmod, fun _ _ => rfl⟩
  have hend := Rewriting.window nand n 0 ⟨pages, []⟩ hstart
  refine ⟨fun j hj => ?_, fun q hq => hend.kept q (hq.imp_right fun hq => ⟨hq, absurd hn⟩)⟩
  have hdone := hend.done (b + j) (Nat.le_add_right b j) (by omega)
  rwa [Nat.add_sub_cancel_left] at hdone

theorem mem_ops_rewritePage {flash : Flash} {pagebuf : Page} {address : Nat} {page : Page} :
    .write address page ∈ (rewritePage nand sfc pagebuf i flash).ops
      ↔ .write address page ∈ flash.ops
        ∨ (¬sfcxIsPageerased pagebuf ∧ address = i * pageSz ∧ page = encode pagebuf) := by
  have hbegin : NandOp.write address page ∈ (beginBlock sfc i flash).ops
      ↔ NandOp.write address page ∈ flash.ops := by
    rw [beginBlock]
    split
    · simp [Flash.eraseBlock]
    · exact Iff.rfl
  rw [rewritePage]
  by_cases hbuf : sfcxIsPageerased pagebuf
  · rw [if_pos hbuf, hbegin]
    simp [hbuf]
  · rw [if_neg hbuf, Flash.writePage, List.mem_append, hbegin]
    simp [hbuf]

variable (sfc) in
theorem mem_ops_rewriteWindow (user spare : Nat → Byte) (b n j : Nat) (flash : Flash)
    (address : Nat) (page : Page) :
    .write address page ∈ (rewriteWindow nand sfc user spare n (b + j) j flash).ops
      ↔ .write address page ∈ flash.ops
        ∨ ∃ m, j ≤ m ∧ m < j + n ∧ ¬sfcxIsPageerased (assemble user spare m)
          ∧ address = (b + m) * pageSz ∧ page = encode (assemble user spare m) := by
  induction n generalizing j flash with
  | zero =>
    rw [rewriteWindow]
    refine ⟨.inl, fun h => h.resolve_right ?_⟩
    rintro ⟨m, hm, hmn, -⟩
    omega
  | succ n ih =>
    rw [rewriteWindow, Nat.add_assoc b j 1, ih (j + 1), mem_ops_rewritePage, or_assoc]
    refine or_congr Iff.rfl ⟨?_, ?_⟩
    · rintro (h | ⟨m, hm, hmn, h⟩)
      · exact ⟨j, Nat.le_refl j, by omega, h⟩
      · exact ⟨m, by omega, by omega, h⟩
    · rintro ⟨m, hm, hmn, h⟩
      by_cases hmj : m = j
      · exact .inl (hmj ▸ h)
      · exact .inr ⟨m, by omega, by omega, h⟩

/-! ### The effect of the update -/

variable {image : List Byte} {after : Flash}

variable (sfc) in
/-- A page of the blocks that are rewritten. -/
def Sfc.InWindow (current q : Nat) : Prop :=
  sfc.first current ≤ q ∧ q < sfc.first current + sfc.count current

instance (current q : Nat) : Decidable (sfc.InWindow current q) :=
  inferInstanceAs (Decidable (_ ∧ _))

variable (sfc) in
/-- The flash after the second loop, and the pages that were written. -/
structure Updated (pages : Nat → Page) (current : Nat) (image : List Byte) (after : Flash) :
    Prop where
  outside : ∀ q, ¬sfc.InWindow current q → after.pages q = pages q
  inside : ∀ q, sfc.InWindow current q → ∃ page : Page,
    (∀ k < pageSzPhys, page k = patchedPage pages current image q k)
      ∧ after.pages q = rewritten page
  writes : ∀ address page, .write address page ∈ after.ops ↔ ∃ q, sfc.InWindow current q
    ∧ ¬sfcxIsPageerased (patchedPage pages current image q)
    ∧ address = q * pageSz ∧ page = after.pages q

theorem Sfc.inWindow_add {j : Nat} (hj : j < sfc.count current) :
    sfc.InWindow current (sfc.first current + j) :=
  ⟨Nat.le_add_right _ _, by omega⟩

theorem Sfc.InWindow.exists_eq {q : Nat} (h : sfc.InWindow current q) :
    ∃ j < sfc.count current, q = sfc.first current + j :=
  ⟨q - sfc.first current, by have := h.1; have := h.2; omega, (Nat.add_sub_cancel' h.1).symm⟩

theorem Gathered.updated (h : Gathered sfc pages current user spare) (image : List Byte) :
    Updated sfc pages current image
      (rewriteWindow nand sfc (store user (sfc.offsetinblock current) image) spare
        (sfc.count current) (sfc.first current) 0 { pages, ops := [] }) := by
  have hb : sfc.first current % sfc.pagesInBlock = 0 := Nat.mul_mod_left _ _
  have hn : (sfc.first current + sfc.count current) % sfc.pagesInBlock = 0 := by
    rw [Sfc.first, Sfc.count, ← Nat.add_mul, Nat.mul_mod_left]
  obtain ⟨hdone, hkept⟩ := rewriteWindow_pages nand
    (store user (sfc.offsetinblock current) image) spare pages hb hn
  have hpage {j : Nat} (hj : j < sfc.count current) (k : Nat) (hk : k < pageSzPhys) :=
    h.assemble_eq image hj hk
  refine ⟨fun q hq => hkept q ?_, fun q hq => ?_, fun address page => ?_⟩
  · by_contra hin
    exact hq ⟨by omega, by omega⟩
  · obtain ⟨j, hj, rfl⟩ := hq.exists_eq
    exact ⟨_, hpage hj, hdone j hj⟩
  · have hops := mem_ops_rewriteWindow nand sfc (store user (sfc.offsetinblock current) image)
      spare (sfc.first current) (sfc.count current) 0 ⟨pages, []⟩ address page
    rw [Nat.add_zero] at hops
    rw [hops]
    constructor
    · rintro (hmem | ⟨j, -, hj, hbuf, haddress, hencode⟩)
      · cases hmem
      · rw [Nat.zero_add] at hj
        refine ⟨_, Sfc.inWindow_add hj, (erased_congr (hpage hj)).not.mp hbuf, haddress, ?_⟩
        rw [hencode, hdone j hj, rewritten, if_neg hbuf]
    · rintro ⟨q, hq, hpatched, haddress, hafter⟩
      obtain ⟨j, hj, rfl⟩ := hq.exists_eq
      have hbuf := (erased_congr (hpage hj)).not.mpr hpatched
      refine .inr ⟨j, Nat.zero_le j, by omega, hbuf, haddress, ?_⟩
      rw [hafter, hdone j hj, rewritten, if_neg hbuf]

/-- Some `malloc` fails. -/
def XellHeap.Fails (heap : XellHeap) : Prop := ∃ k, heap.spare k = none ∨ heap.user k = none

theorem xellRounds_cases (heap : XellHeap) (image : List Byte) (flash : Flash) (offsets : List Nat)
    (k : Nat) :
    (xellRounds nand sfc heap image flash offsets k = .returned (-1) flash
        ∧ (offsets.find? (footerAt flash.pages ·) = none ∨ heap.Fails))
      ∨ ∃ current user spare, offsets.find? (footerAt flash.pages ·) = some current
        ∧ Gathered sfc flash.pages current user spare
        ∧ xellRounds nand sfc heap image flash offsets k
          = flashXell nand sfc image flash current user spare := by
  induction offsets generalizing k with
  | nil => exact .inl ⟨rfl, .inl rfl⟩
  | cons current rest ih =>
    rw [xellRounds]
    rcases hspare : heap.spare k with - | spare
    · exact .inl ⟨rfl, .inr ⟨k, .inl hspare⟩⟩
    rcases huser : heap.user k with - | user
    · exact .inl ⟨rfl, .inr ⟨k, .inr huser⟩⟩
    -- the footer is looked for in the buffer, which holds the window
    have hgathered := readWindow_gathered sfc flash current user spare
    dsimp only
    by_cases hfooter : footerAt flash.pages current
    · rw [if_pos (hgathered.footer_iff.mpr hfooter)]
      exact .inr ⟨current, _, _, List.find?_cons_of_pos (by simpa using hfooter),
        hgathered, rfl⟩
    · rw [if_neg fun h => hfooter (hgathered.footer_iff.mp h),
        List.find?_cons_of_neg (by simpa using hfooter)]
      exact ih (k + 1)

variable (sfc) in
/-- How `updateXeLL` ends, and why. -/
theorem updateXeLL_cases (heap : XellHeap) (image : List Byte) (pages : Nat → Page) :
    (updateXeLL nand sfc heap image pages = .returned (-1) ⟨pages, []⟩
        ∧ (sfc.initialized ≠ sfcxInitialized ∨ xelloffsets.find? (footerAt pages ·) = none
          ∨ heap.Fails))
      ∨ ∃ current, xelloffsets.find? (footerAt pages ·) = some current
        ∧ ((sfc.blockcnt current * sfc.blockSz < sfc.offsetinblock current + image.length
            ∧ updateXeLL nand sfc heap image pages = .overrun)
          ∨ (sfc.offsetinblock current + image.length ≤ sfc.blockcnt current * sfc.blockSz
            ∧ ∃ after, updateXeLL nand sfc heap image pages = .flashed after
              ∧ Updated sfc pages current image after)) := by
  rw [updateXeLL]
  by_cases hinit : sfc.initialized ≠ sfcxInitialized
  · exact .inl ⟨if_pos hinit, .inl hinit⟩
  rw [if_neg hinit]
  rcases xellRounds_cases nand heap image ⟨pages, []⟩ xelloffsets 0 with h | h
  · exact .inl ⟨h.1, .inr h.2⟩
  obtain ⟨current, user, spare, hfind, hgathered, h⟩ := h
  refine .inr ⟨current, hfind, ?_⟩
  rw [h, flashXell]
  by_cases hfits : sfc.offsetinblock current + image.length ≤ sfc.blockcnt current * sfc.blockSz
  · rw [if_pos hfits]
    exact .inr ⟨hfits, _, rfl, hgathered.updated nand image⟩
  · rw [if_neg hfits]
    exact .inl ⟨by omega, rfl⟩

theorem updated_of_flashed {heap : XellHeap}
    (h : updateXeLL nand sfc heap image pages = .flashed after) :
    ∃ current, xelloffsets.find? (footerAt pages ·) = some current
      ∧ sfc.offsetinblock current + image.length ≤ sfc.blockcnt current * sfc.blockSz
      ∧ Updated sfc pages current image after := by
  rcases updateXeLL_cases nand sfc heap image pages with ⟨h', -⟩ | ⟨current, hfind, h'⟩
  · rw [h] at h'
    cases h'
  · rcases h' with ⟨-, h'⟩ | ⟨hfits, after', h', hupdated⟩ <;> rw [h] at h' <;> cases h'
    exact ⟨current, hfind, hfits, hupdated⟩

/-! ### The user data -/

theorem rewritten_before (page : Page) {k : Nat} (hk : k < pageSz + 0xC) :
    rewritten page k = page k := by
  rw [rewritten]
  -- a page that is not written was, and is, 0xFF throughout
  by_cases herased : sfcxIsPageerased page
  · rw [if_pos herased, herased k (by rw [pageSzPhys, metaSz]; omega), erasedPage]
  · rw [if_neg herased, encode, calcecc_before _ hk, clearEdc, store_outside (.inl hk)]

theorem Updated.page_before (h : Updated sfc pages current image after) {q k : Nat}
    (hq : sfc.InWindow current q) (hk : k < pageSz + 0xC) :
    after.pages q k = patchedPage pages current image q k := by
  obtain ⟨page, hpage, hafter⟩ := h.inside q hq
  rw [hafter, rewritten_before page hk, hpage k (by rw [pageSzPhys, metaSz]; omega)]

theorem Updated.userData_eq (h : Updated sfc pages current image after)
    (hfits : sfc.offsetinblock current + image.length ≤ sfc.blockcnt current * sfc.blockSz) :
    userData after.pages = store (userData pages) current image := by
  funext a
  have hk : a % pageSz < pageSz := Nat.mod_lt a (by decide)
  have ha : a / pageSz * pageSz + a % pageSz = a := Nat.div_add_mod' a pageSz
  by_cases hq : sfc.InWindow current (a / pageSz)
  · have hcell := h.page_before hq (Nat.lt_add_right 0xC hk)
    rw [patchedPage, if_pos hk, ha] at hcell
    rw [userData, pageData, Nat.zero_add, hcell]
  · -- an address outside the window is outside the image
    have hstart := sfc.first_address current
    have houtside : a < current ∨ current + image.length ≤ a := by
      by_contra hin
      refine hq ⟨?_, ?_⟩
      · exact (Nat.le_div_iff_mul_le (by decide)).mpr (by omega)
      · rw [Nat.div_lt_iff_lt_mul (by decide), Nat.add_mul, sfc.count_size]
        omega
    rw [store_outside houtside, userData, userData, pageData, pageData, h.outside _ hq]

theorem Updated.calcecc_written (h : Updated sfc pages current image after) {address : Nat}
    {page : Page} (hwrite : .write address page ∈ after.ops) :
    sfcxCalcecc page = page ∧ after.pages (address / pageSz) = page := by
  obtain ⟨q, hq, hpatched, rfl, rfl⟩ := (h.writes address page).mp hwrite
  rw [address_page]
  refine ⟨?_, rfl⟩
  obtain ⟨buf, hbuf, hafter⟩ := h.inside q hq
  have hne : ¬sfcxIsPageerased buf := (erased_congr hbuf).not.mpr hpatched
  rw [hafter, rewritten, if_neg hne, encode, calcecc_calcecc]

variable (sfc) in
/-- **If `updateXeLL` returns, nothing was erased or written.**  If it does not,
the user data is as before but for the image, which is at the first offset with
a footer, and each written page is stored with the code that `sfcx_calcecc`
computes for it. -/
theorem updateXeLL_userData (heap : XellHeap) (pages : Nat → Page) {image : List Byte}
    (hlen : image.length ≤ xellSize) :
    (∀ result after, updateXeLL nand sfc heap image pages = .returned result after →
        after.ops = [] ∧ after.pages = pages)
      ∧ updateXeLL nand sfc heap image pages ≠ .overrun
      ∧ ∀ after, updateXeLL nand sfc heap image pages = .flashed after → ∃ current,
        xelloffsets.find? (footerAt pages ·) = some current
        ∧ userData after.pages = store (userData pages) current image
        ∧ ∀ address page, .write address page ∈ after.ops →
          sfcxCalcecc page = page ∧ after.pages (address / pageSz) = page := by
  refine ⟨fun result after hreturn => ?_, fun hoverrun => ?_, fun after hflashed => ?_⟩
  · rcases updateXeLL_cases nand sfc heap image pages with ⟨h, -⟩ | ⟨_, -, ⟨-, h⟩ | ⟨-, _, h, -⟩⟩ <;>
      rw [hreturn] at h <;> cases h
    exact ⟨rfl, rfl⟩
  · rcases updateXeLL_cases nand sfc heap image pages with
      ⟨h, -⟩ | ⟨current, -, ⟨hlong, -⟩ | ⟨-, _, h, -⟩⟩
    · rw [hoverrun] at h
      cases h
    · have := sfc.window_size current
      rw [sfc.count_size] at this
      omega
    · rw [hoverrun] at h
      cases h
  · obtain ⟨current, hfind, hfits, hupdated⟩ := updated_of_flashed nand hflashed
    exact ⟨current, hfind, hupdated.userData_eq hfits, fun _ _ => hupdated.calcecc_written⟩

def enoughMemory : XellHeap := ⟨fun _ => some fun _ => 0, fun _ => some fun _ => 0⟩

/-- Pages full of `x`, but for one spare byte. -/
def xPages (b : Byte) : Nat → Page := fun _ k => if k = pageSz + 0xC then b else 0x78

theorem userData_xPages (b : Byte) : userData (xPages b) = fun _ => 0x78 := by
  funext a
  have hk : a % pageSz < pageSz := Nat.mod_lt a (by decide)
  rw [userData, pageData, xPages, if_neg (by omega)]

theorem find_xPages (b : Byte) : xelloffsets.find? (footerAt (xPages b) ·) = some 0x70000 := by
  have hfooter : footerAt (xPages b) 0x70000 := by
    rfl
  exact List.find?_cons_of_pos (by simpa using hfooter)

theorem updateXeLL_xPages (b : Byte) (image : List Byte) (hlen : image.length ≤ xellSize) :
    ∃ after, updateXeLL nand smallBlocks enoughMemory image (xPages b) = .flashed after
      ∧ Updated smallBlocks (xPages b) 0x70000 image after := by
  rcases updateXeLL_cases nand smallBlocks enoughMemory image (xPages b) with ⟨-, h⟩ | ⟨current, hfind, h⟩
  · rcases h with h | h | ⟨k, h | h⟩
    · exact absurd rfl h
    · rw [find_xPages] at h
      cases h
    · cases h
    · cases h
  · rw [find_xPages] at hfind
    cases hfind
    rcases h with ⟨hlong, -⟩ | ⟨-, h⟩
    · have := smallBlocks.window_size 0x70000
      rw [smallBlocks.count_size] at this
      omega
    · exact h

/-- An image of a block and one byte is flashed. -/
theorem updateXeLL_twoBlocks : ∃ after : Flash,
    updateXeLL Nand.cells smallBlocks enoughMemory (List.replicate 0x4001 0x01) (xPages 0) =
        .flashed after
      ∧ userData after.pages = store (fun _ => 0x78) 0x70000 (List.replicate 0x4001 0x01) := by
  have hlen : (List.replicate 0x4001 (0x01 : Byte)).length ≤ xellSize := by
    rw [List.length_replicate]
    decide
  obtain ⟨after, h, -⟩ := updateXeLL_xPages Nand.cells 0 (List.replicate 0x4001 0x01) hlen
  obtain ⟨current, hfind, huser, -⟩ :=
    (updateXeLL_userData Nand.cells smallBlocks enoughMemory (xPages 0) hlen).2.2 after h
  rw [find_xPages] at hfind
  cases hfind
  rw [userData_xPages] at huser
  exact ⟨after, h, huser⟩

/-! ### The spare bytes -/

/-- The spare bytes agree but for the 26 bits of the code. -/
def SpareKept (before after : Page) : Prop :=
  (∀ k, pageSz ≤ k → k < pageSz + 0xC → after k = before k)
    ∧ after (pageSz + 0xC) &&& 0x3F = before (pageSz + 0xC) &&& 0x3F

theorem encode_shared (page : Page) : encode page (pageSz + 0xC) &&& 0x3F = 0 := by
  have hclear : clearEdc page (pageSz + 0xC + 0) = 0 := store_inside (by decide)
  rw [encode, calcecc_shared, hclear]
  decide

theorem Updated.spareKept_iff (h : Updated sfc pages current image after) {q : Nat}
    (hq : sfc.InWindow current q)
    (hpatched : ¬sfcxIsPageerased (patchedPage pages current image q)) :
    SpareKept (pages q) (after.pages q) ↔ pages q (pageSz + 0xC) &&& 0x3F = 0 := by
  have hbefore (k : Nat) (hk : pageSz ≤ k) (hk' : k < pageSz + 0xC) :
      after.pages q k = pages q k := by
    rw [h.page_before hq hk', patchedPage, if_neg (by omega)]
  have hshared : after.pages q (pageSz + 0xC) &&& 0x3F = 0 := by
    obtain ⟨page, hpage, hafter⟩ := h.inside q hq
    have hne : ¬sfcxIsPageerased page := (erased_congr hpage).not.mpr hpatched
    rw [hafter, rewritten, if_neg hne, encode_shared]
  rw [SpareKept, hshared]
  exact ⟨fun hkept => hkept.2.symm, fun hzero => ⟨hbefore, hzero.symm⟩⟩

/-- **The spare bytes of the pages that `updateXeLL` writes.**  But for the code
they are kept on all pages if and only if the low six bits of the byte that the
code begins in were clear, on each page of the window that is not erased. -/
theorem updateXeLL_spareKept_iff {heap : XellHeap}
    (h : updateXeLL nand sfc heap image pages = .flashed after) :
    (∀ q page, .write (q * pageSz) page ∈ after.ops → SpareKept (pages q) (after.pages q))
      ↔ ∀ current, xelloffsets.find? (footerAt pages ·) = some current →
        ∀ q, sfc.InWindow current q → ¬sfcxIsPageerased (patchedPage pages current image q) →
          pages q (pageSz + 0xC) &&& 0x3F = 0 := by
  obtain ⟨current, hfind, -, hupdated⟩ := updated_of_flashed nand h
  constructor
  · intro hkept current' hfind' q hq hpatched
    rw [hfind] at hfind'
    cases hfind'
    have hwrite := (hupdated.writes (q * pageSz) _).mpr ⟨q, hq, hpatched, rfl, rfl⟩
    exact (hupdated.spareKept_iff hq hpatched).mp (hkept q _ hwrite)
  · intro hzero q page hwrite
    obtain ⟨q', hq, hpatched, haddress, -⟩ := (hupdated.writes (q * pageSz) page).mp hwrite
    obtain rfl : q = q' := Nat.mul_right_cancel (by decide) haddress
    exact (hupdated.spareKept_iff hq hpatched).mpr (hzero current hfind q hq hpatched)

/-- A flash on which they are kept. -/
theorem updateXeLL_spareKept_clear : ∃ after : Flash,
    updateXeLL Nand.cells smallBlocks enoughMemory [0x01] (xPages 0) = .flashed after
      ∧ ∀ q page, .write (q * pageSz) page ∈ after.ops →
        SpareKept (xPages 0 q) (after.pages q) := by
  obtain ⟨after, h, -⟩ := updateXeLL_xPages Nand.cells 0 [0x01] (by simp [xellSize])
  exact ⟨after, h, (updateXeLL_spareKept_iff Nand.cells h).mpr fun _ _ q _ _ => by
    rw [xPages]
    decide⟩

/-- The first page of the window, where the byte is an `x`, loses three bits. -/
theorem updateXeLL_spare_lost : ∃ (after : Flash) (q : Nat) (page : Page),
    updateXeLL Nand.cells smallBlocks enoughMemory [0x01] (xPages 0x78) = .flashed after
      ∧ .write (q * pageSz) page ∈ after.ops
      ∧ ¬SpareKept (xPages 0x78 q) (after.pages q) := by
  obtain ⟨after, h, hupdated⟩ := updateXeLL_xPages Nand.cells 0x78 [0x01] (by simp [xellSize])
  have hq : smallBlocks.InWindow 0x70000 0x380 := by decide
  have hpatched : ¬sfcxIsPageerased (patchedPage (xPages 0x78) 0x70000 [0x01] 0x380) := by
    intro herased
    have hspare := herased pageSz (by decide)
    exact absurd hspare (by decide)
  refine ⟨after, 0x380, after.pages 0x380, h,
    (hupdated.writes _ _).mpr ⟨0x380, hq, hpatched, rfl, rfl⟩, fun hkept => ?_⟩
  have hzero := (hupdated.spareKept_iff hq hpatched).mp hkept
  exact absurd hzero (by decide)

end LibXenon
