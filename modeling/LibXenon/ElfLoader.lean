/-
LibXenon/ElfLoader.lean

The ELF loader of elf.c: `elf_prepare_run`.

The loader runs from a copy of itself and puts the sections of an image where
they belong, over the program that has started it.  It cannot write to the
beginning of memory while it works, since the exception code and the page table
are there, up to `pagetable_end`.  So the part of a section that would go there
is first put aside, at `ELF_TEMP_BEGIN`, and copied at the very end.

* Every section is where it belongs when the copying is done, and nothing was
  written below `pagetable_end` before (`elfPrepareRun_sections`), if a section
  that starts below `pagetable_end` starts at 0x80000000 and has its bytes in
  the file.
* A section that starts a little higher is copied to the wrong place: each of its
  bytes is as much too low (`elfPrepareRun_places`).  One without bytes in the file
  is cleared at once (`elfPrepareRun_misplaced`).

Addresses are numbers below 2 ^ 32.  The headers are read from memory each time
they are needed.  Of the output on the serial line only the reading of the
names is kept, which faults if there is no table of names; the cache instructions
are left out.
-/
import LibXenon.Regions
import Mathlib.Algebra.GroupWithZero.Nat

namespace LibXenon

open Function Regions List

abbrev Memory := Nat → UInt8

/-! ### Reading an image -/

/-- A big-endian word. -/
def readWord (m : Memory) (a : Nat) : Nat :=
  (m a).toNat * 2 ^ 24 + (m (a + 1)).toNat * 2 ^ 16 + (m (a + 2)).toNat * 2 ^ 8 + (m (a + 3)).toNat

def readHalf (m : Memory) (a : Nat) : Nat := (m a).toNat * 2 ^ 8 + (m (a + 1)).toNat

/-- `e_entry`, `e_shoff`, `e_shnum` and `e_shstrndx` of `Elf32_Ehdr`. -/
def eEntry (m : Memory) (addr : Nat) : Nat := readWord m (addr + 24)

def eShoff (m : Memory) (addr : Nat) : Nat := readWord m (addr + 32)

def eShnum (m : Memory) (addr : Nat) : Nat := readHalf m (addr + 48)

def eShstrndx (m : Memory) (addr : Nat) : Nat := readHalf m (addr + 50)

/-- `Elf32_Shdr`. -/
structure Shdr where
  shName : Nat
  shType : Nat
  shFlags : Nat
  shAddr : Nat
  shOffset : Nat
  shSize : Nat

/-- Section header `i`; one takes 40 bytes. -/
def shdrAt (m : Memory) (addr i : Nat) : Shdr :=
  let p := (addr + eShoff m addr + i * 40) % 2 ^ 32
  { shName := readWord m p
    shType := readWord m (p + 4)
    shFlags := readWord m (p + 8)
    shAddr := readWord m (p + 12)
    shOffset := readWord m (p + 16)
    shSize := readWord m (p + 20) }

def shtStrtab : Nat := 3

def shtNobits : Nat := 8

def shfAlloc : Nat := 2

/-- Takes part in the loading. -/
def Shdr.Loaded (sh : Shdr) : Prop := ¬ (sh.shFlags &&& shfAlloc = 0 ∨ sh.shSize = 0)

instance (sh : Shdr) : Decidable sh.Loaded := inferInstanceAs (Decidable (¬ _))

def Shdr.target (sh : Shdr) : Nat := 0x80000000 ||| sh.shAddr

theorem Shdr.le_target (sh : Shdr) : 0x80000000 ≤ sh.target := Nat.left_le_or

def Shdr.range (sh : Shdr) : Region := ⟨sh.target, sh.shSize⟩

/-- `strtab`, which stays 0 if the header at `e_shstrndx` is of another kind. -/
def strtabAt (m : Memory) (addr : Nat) : Nat :=
  let sh := shdrAt m addr (eShstrndx m addr)
  if sh.shType = shtStrtab then (addr + sh.shOffset) % 2 ^ 32 else 0

/-! ### The loader -/

def elfCodeRelocStart : Nat := 0x87FF0000

def elfTempBegin : Nat := 0x87F80000

def elfDataRelocStart : Nat := 0x88000000

/-- What the linker has put into the loader: `pagetable_end`, how long the loader
is and where `elf_secondary_hold_addr` is in it.  The last vector of except.S is at
0xE00. -/
structure LoaderLayout where
  pagetableEnd : Nat
  codeSize : Nat
  holdOffset : Nat
  lower : 0x80000E00 ≤ pagetableEnd
  upper : pagetableEnd ≤ 0x80060000
  code : codeSize ≤ 0x10000
  hold : holdOffset + 4 ≤ codeSize

/-- `begin_size`. -/
def LoaderLayout.beginSize (L : LoaderLayout) : Nat := L.pagetableEnd - 0x80000000

def LoaderLayout.temp (L : LoaderLayout) : Region := ⟨elfTempBegin, L.beginSize⟩

def LoaderLayout.codeArea (L : LoaderLayout) : Region := ⟨elfCodeRelocStart, L.codeSize⟩

theorem elfDataRelocStart_eq : elfDataRelocStart = 0x88000000 := rfl

theorem LoaderLayout.beginSize_eq (L : LoaderLayout) :
    L.beginSize = L.pagetableEnd - 0x80000000 := rfl

theorem LoaderLayout.temp_start (L : LoaderLayout) : L.temp.start = 0x87F80000 := rfl

theorem LoaderLayout.temp_len (L : LoaderLayout) : L.temp.len = L.beginSize := rfl

theorem LoaderLayout.image_apart_temp (L : LoaderLayout) (size : Nat) :
    Region.Apart ⟨elfDataRelocStart, size⟩ L.temp := by
  have hupper := L.upper
  rw [Region.apart_iff, L.temp_start, L.temp_len, L.beginSize_eq, elfDataRelocStart_eq]
  dsimp only
  omega

/-- `elf_memcpy`, by the number of bytes that are left. -/
def elfMemcpy : Nat → Nat → Nat → Memory → Memory
  | 0, _, _, m => m
  | l + 1, dst, src, m =>
    elfMemcpy l ((dst + 1) % 2 ^ 32) ((src + 1) % 2 ^ 32) (update m dst (m src))

/-- `elf_memset`. -/
def elfMemset (v : UInt8) : Nat → Nat → Memory → Memory
  | 0, _, m => m
  | l + 1, dst, m => elfMemset v l ((dst + 1) % 2 ^ 32) (update m dst v)

/-- Memory, `had_begin_overwrite`, and the regions that were written to. -/
structure ElfState where
  mem : Memory
  hadBeginOverwrite : Bool
  written : List Region

def ElfState.memcpy (s : ElfState) (dst src l : Nat) : ElfState :=
  { s with mem := elfMemcpy l dst src s.mem, written := s.written ++ [⟨dst, l⟩] }

def ElfState.memset (s : ElfState) (dst : Nat) (v : UInt8) (l : Nat) : ElfState :=
  { s with mem := elfMemset v l dst s.mem, written := s.written ++ [⟨dst, l⟩] }

/-- `elf_puts`, by the number of addresses that are left: whether the text comes to
its end.  The first two entries of `pagetable` and the last one are empty, so a read
from them is a fault. -/
def elfPuts (m : Memory) : Nat → Nat → Bool
  | 0, _ => false
  | left + 1, a => 0x20000000 ≤ a && a < 0xF0000000 && (m a == 0 || elfPuts m left (a + 1))

/-- The loader does not go on: in its `!PT` trap, or with a page fault. -/
inductive ElfStop
  | trap
  | fault

/-- The loop body for a section of the image at `addr`, after the output. -/
def placeSection (L : LoaderLayout) (addr : Nat) (sh : Shdr) (s : ElfState) :
    Except ElfStop ElfState :=
  if sh.shType = shtNobits then .ok (s.memset sh.target 0 sh.shSize)
  else
    let off := (addr + sh.shOffset) % 2 ^ 32
    if sh.target < L.pagetableEnd then
      if (sh.target + sh.shSize) % 2 ^ 32 < L.pagetableEnd ∨ s.hadBeginOverwrite = true then
        .error .trap
      else
        let s := { s with hadBeginOverwrite := true }.memcpy elfTempBegin off L.beginSize
        .ok (s.memcpy L.pagetableEnd ((off + L.beginSize) % 2 ^ 32)
          ((sh.shSize + 2 ^ 32 - L.beginSize) % 2 ^ 32))
    else .ok (s.memcpy sh.target off sh.shSize)

/-- `&strtab[shdr->sh_name]`. -/
def Shdr.nameAt (strtab : Nat) (sh : Shdr) : Nat := (strtab + sh.shName) % 2 ^ 32

/-- The loop body. -/
def loadSection (L : LoaderLayout) (addr strtab : Nat) (sh : Shdr) (s : ElfState) :
    Except ElfStop ElfState :=
  if ¬ sh.Loaded then .ok s
  else if elfPuts s.mem (2 ^ 32 - sh.nameAt strtab) (sh.nameAt strtab) = false then .error .fault
  else placeSection L addr sh s

/-- `for (i = 0; i < ehdr->e_shnum; ++i)`; `e_shnum` has 16 bits, so the loop ends
when `left` rounds have been made of 65536. -/
def elfSections (L : LoaderLayout) (addr strtab : Nat) :
    Nat → Nat → ElfState → Except ElfStop ElfState
  | 0, _, s => .ok s
  | left + 1, i, s =>
    if i < eShnum s.mem addr then
      (loadSection L addr strtab (shdrAt s.mem addr i) s).bind
        (elfSections L addr strtab left (i + 1))
    else .ok s

/-- `*(volatile unsigned long *)ptr = value`. -/
def writeWord (m : Memory) (a value : Nat) : Memory :=
  fill m ⟨a, 4⟩ fun k => UInt8.ofNat (value / 2 ^ (24 - 8 * k))

/-- What follows the loop, up to the argument block. -/
def elfFinish (L : LoaderLayout) (addr : Nat) (s : ElfState) : ElfState :=
  let s := if s.hadBeginOverwrite then s.memcpy 0x80000000 elfTempBegin L.beginSize else s
  { s with
    mem := writeWord s.mem (elfCodeRelocStart + L.holdOffset) (eEntry s.mem addr + 0x60)
    written := s.written ++ [⟨elfCodeRelocStart + L.holdOffset, 4⟩] }

/-- The loop over all sections. -/
def elfLoop (L : LoaderLayout) (addr : Nat) (m : Memory) : Except ElfStop ElfState :=
  elfSections L addr (strtabAt m addr) 65536 0 ⟨m, false, []⟩

/-- `elf_prepare_run`, up to the argument block. -/
def elfPrepareRun (L : LoaderLayout) (addr : Nat) (m : Memory) : Except ElfStop ElfState :=
  (elfLoop L addr m).map (elfFinish L addr)

/-! ### Copying -/

theorem elfMemcpy_succ {l dst src : Nat} (m : Memory) (hdst : dst + (l + 1) ≤ 2 ^ 32)
    (hsrc : src + (l + 1) ≤ 2 ^ 32) :
    elfMemcpy (l + 1) dst src m = elfMemcpy l (dst + 1) (src + 1) (update m dst (m src)) := by
  rw [elfMemcpy]
  cases l with
  | zero => rfl
  | succ l => rw [Nat.mod_eq_of_lt (by omega), Nat.mod_eq_of_lt (by omega)]

theorem elfMemcpy_eq {l dst src : Nat} (m : Memory) (hdst : dst + l ≤ 2 ^ 32)
    (hsrc : src + l ≤ 2 ^ 32) (hapart : Region.Apart ⟨dst, l⟩ ⟨src, l⟩) :
    elfMemcpy l dst src m = copy m dst src l := by
  simp only [Region.apart_iff] at hapart
  induction l generalizing dst src m with
  | zero =>
    funext a
    rw [elfMemcpy, copy_apply, if_neg (by omega)]
  | succ l ih =>
    rw [elfMemcpy_succ m hdst hsrc, ih _ (by omega) (by omega) (by omega)]
    funext a
    rw [copy_apply, copy_apply]
    by_cases ha : a = dst
    · subst ha
      rw [if_neg (by omega), if_pos (by omega), update_self, Nat.sub_self, Nat.add_zero]
    · by_cases hin : dst + 1 ≤ a ∧ a < dst + 1 + l
      · -- the byte just written is not read any more
        have hsame : src + 1 + (a - (dst + 1)) = src + (a - dst) := by omega
        rw [if_pos hin, if_pos (by omega), hsame, update_of_ne (by omega)]
      · rw [if_neg hin, if_neg (by omega), update_of_ne ha]

theorem elfMemcpy_mod_eq {l dst src : Nat} (m : Memory) (hdst : dst + l ≤ 2 ^ 32)
    (hsrc : src + l ≤ 2 ^ 32) (hapart : Region.Apart ⟨dst, l⟩ ⟨src, l⟩) :
    elfMemcpy l dst (src % 2 ^ 32) m = copy m dst src l := by
  rw [← elfMemcpy_eq m hdst hsrc hapart]
  cases l with
  | zero => rfl
  | succ l => rw [Nat.mod_eq_of_lt (by omega)]

theorem elfMemset_eq {l dst : Nat} (v : UInt8) (m : Memory) (hdst : dst + l ≤ 2 ^ 32) :
    elfMemset v l dst m = fill m ⟨dst, l⟩ fun _ => v := by
  have hfill (m : Memory) (dst l a : Nat) : fill m ⟨dst, l⟩ (fun _ => v) a =
      if dst ≤ a ∧ a < dst + l then v else m a := rfl
  induction l generalizing dst m with
  | zero =>
    funext a
    rw [elfMemset, hfill, if_neg (by omega)]
  | succ l ih =>
    have hstep : elfMemset v (l + 1) dst m =
        elfMemset v l (dst + 1) (update m dst v) := by
      rw [elfMemset]
      cases l with
      | zero => rfl
      | succ l => rw [Nat.mod_eq_of_lt (by omega)]
    rw [hstep, ih _ (by omega)]
    funext a
    rw [hfill, hfill]
    by_cases ha : a = dst
    · rw [if_neg (by omega), if_pos (by omega), ha, update_self]
    · by_cases hin : dst + 1 ≤ a ∧ a < dst + 1 + l
      · rw [if_pos hin, if_pos (by omega)]
      · rw [if_neg hin, if_neg (by omega), update_of_ne ha]

/-! ### Images -/

/-- The section headers of an image. -/
def sections (m : Memory) (addr : Nat) : List Shdr :=
  (List.range (eShnum m addr)).map (shdrAt m addr)

/-- The sections of the image that are loaded. -/
def loadedSections (m : Memory) : List Shdr :=
  (sections m elfDataRelocStart).filter fun sh => sh.Loaded

/-- The header of the table of names. -/
def strtabHeader (m : Memory) : Shdr :=
  shdrAt m elfDataRelocStart (eShstrndx m elfDataRelocStart)

/-- An image of some bytes that the loader can work with: its headers and the
bytes of its sections are in it, and so is a table in which the names of its
sections end; and the places its sections go to are apart from each other, from
the image, and from where the loader and what it puts aside are. -/
structure ElfImage (L : LoaderLayout) (m : Memory) (size : Nat) : Prop where
  fits : elfDataRelocStart + size ≤ 2 ^ 32
  header : 52 ≤ size
  table : eShoff m elfDataRelocStart + eShnum m elfDataRelocStart * 40 ≤ size
  bytes : ∀ sh ∈ loadedSections m, sh.shType ≠ shtNobits → sh.shOffset + sh.shSize ≤ size
  strtab : (strtabHeader m).shType = shtStrtab
  names : ∀ sh ∈ loadedSections m,
    elfPuts m (size - ((strtabHeader m).shOffset + sh.shName))
      (elfDataRelocStart + (strtabHeader m).shOffset + sh.shName) = true
  space : ∀ sh ∈ loadedSections m, sh.target + sh.shSize ≤ 2 ^ 32
  disjoint : (loadedSections m).Pairwise fun sh sh' => sh.range.Apart sh'.range
  avoids : ∀ sh ∈ loadedSections m, sh.range.Apart ⟨elfDataRelocStart, size⟩ ∧
    sh.range.Apart L.temp ∧ sh.range.Apart L.codeArea

/-- What belongs at a distance from the start of a section. -/
def Shdr.value (m : Memory) (sh : Shdr) (k : Nat) : UInt8 :=
  if sh.shType = shtNobits then 0 else m (elfDataRelocStart + sh.shOffset + k)

/-- A section that starts below `pagetable_end` starts at 0x80000000 and has its
bytes in the file. -/
def BeginsAtStart (L : LoaderLayout) (m : Memory) : Prop :=
  ∀ sh ∈ loadedSections m, sh.target < L.pagetableEnd →
    sh.target = 0x80000000 ∧ sh.shType ≠ shtNobits

instance (L : LoaderLayout) (m : Memory) : Decidable (BeginsAtStart L m) :=
  inferInstanceAs (Decidable (∀ sh ∈ loadedSections m, _))

/-- Below `pagetable_end` there are only sections with bytes in the file, and with at
least as many as are put aside, if they reach `pagetable_end` at all. -/
def StagedWhole (L : LoaderLayout) (m : Memory) : Prop :=
  ∀ sh ∈ loadedSections m, sh.target < L.pagetableEnd →
    sh.shType ≠ shtNobits ∧ (L.pagetableEnd ≤ sh.target + sh.shSize → L.beginSize ≤ sh.shSize)

instance (L : LoaderLayout) (m : Memory) : Decidable (StagedWhole L m) :=
  inferInstanceAs (Decidable (∀ sh ∈ loadedSections m, _))

theorem BeginsAtStart.stagedWhole {L : LoaderLayout} {m : Memory} (h : BeginsAtStart L m) :
    StagedWhole L m := by
  intro sh hsh hlow
  obtain ⟨hstart, hbits⟩ := h sh hsh hlow
  have hbs := L.beginSize_eq
  exact ⟨hbits, fun hreach => by omega⟩

/-- Some bytes are put aside. -/
def Staged (L : LoaderLayout) (m : Memory) : Prop :=
  ∃ sh ∈ loadedSections m, sh.shType ≠ shtNobits ∧ sh.target < L.pagetableEnd

instance (L : LoaderLayout) (m : Memory) : Decidable (Staged L m) :=
  inferInstanceAs (Decidable (∃ sh ∈ loadedSections m, _))

/-- A section ends below `pagetable_end`. -/
def TooShort (L : LoaderLayout) (m : Memory) : Prop :=
  ∃ sh ∈ loadedSections m, sh.target + sh.shSize < L.pagetableEnd

instance (L : LoaderLayout) (m : Memory) : Decidable (TooShort L m) :=
  inferInstanceAs (Decidable (∃ sh ∈ loadedSections m, _))

/-- How much too low the bytes of a section are put. -/
def Shdr.shift (L : LoaderLayout) (sh : Shdr) : Nat :=
  if sh.target < L.pagetableEnd then sh.target - 0x80000000 else 0

/-! ### Names -/

theorem elfPuts_mono {m mem : Memory} {left left' a : Nat} (hle : left ≤ left')
    (hmem : ∀ k < left, mem (a + k) = m (a + k)) (h : elfPuts m left a = true) :
    elfPuts mem left' a = true := by
  induction left generalizing left' a with
  | zero => cases h
  | succ left ih =>
    obtain ⟨left', rfl⟩ : ∃ n, left' = n + 1 := ⟨left' - 1, by omega⟩
    have hhere := hmem 0 (by omega)
    rw [Nat.add_zero] at hhere
    rw [elfPuts, Bool.and_eq_true, Bool.or_eq_true] at h ⊢
    rw [hhere]
    refine ⟨h.1, h.2.imp_right fun hrest => ih (by omega) (fun k hk => ?_) hrest⟩
    rw [Nat.add_assoc, Nat.add_comm 1 k]
    exact hmem (k + 1) (by omega)

variable {L : LoaderLayout} {m : Memory} {size : Nat} {s s' : ElfState} {P : List Shdr}
variable {sh sh' : Shdr}

theorem shSize_pos_of_loaded (hsh : sh ∈ loadedSections m) : 0 < sh.shSize := by
  have hloaded : sh.Loaded := of_decide_eq_true (mem_filter.mp hsh).2
  exact Nat.pos_of_ne_zero fun hz => hloaded (.inr hz)

/-! ### One section -/

/-- The part of a section below `pagetable_end` that is copied at once. -/
def Shdr.rest (L : LoaderLayout) (sh : Shdr) : Region :=
  ⟨L.pagetableEnd, sh.shSize - L.beginSize⟩

theorem Shdr.rest_inside (hlow : sh.target < L.pagetableEnd) (hlong : L.beginSize ≤ sh.shSize) :
    (sh.rest L).Inside sh.range := by
  have hlower := L.lower
  have hbs := L.beginSize_eq
  have htarget := sh.le_target
  refine Region.inside_of_le ?_ ?_
  · change sh.target ≤ L.pagetableEnd
    omega
  · change L.pagetableEnd + (sh.shSize - L.beginSize) ≤ sh.target + sh.shSize
    omega

section

variable (himage : ElfImage L m size) (hsh : sh ∈ loadedSections m)
include himage hsh

/-- The name of a section is read to its end, while the image is what it was. -/
theorem ElfImage.puts_name {mem : Memory}
    (hmem : ∀ k < size, mem (elfDataRelocStart + k) = m (elfDataRelocStart + k)) :
    elfPuts mem (2 ^ 32 - sh.nameAt (strtabAt m elfDataRelocStart))
      (sh.nameAt (strtabAt m elfDataRelocStart)) = true := by
  have hname := himage.names sh hsh
  have hfits := himage.fits
  have hstrtab : strtabAt m elfDataRelocStart =
      (elfDataRelocStart + (strtabHeader m).shOffset) % 2 ^ 32 := if_pos himage.strtab
  have hin : (strtabHeader m).shOffset + sh.shName < size := by
    by_contra hout
    rw [Nat.sub_eq_zero_of_le (Nat.le_of_not_lt hout)] at hname
    cases hname
  have hat : sh.nameAt (strtabAt m elfDataRelocStart) =
      elfDataRelocStart + (strtabHeader m).shOffset + sh.shName := by
    rw [Shdr.nameAt, hstrtab]
    omega
  rw [hat]
  refine elfPuts_mono (by omega) (fun k hk => ?_) hname
  rw [Nat.add_assoc, Nat.add_assoc]
  exact hmem _ (by omega)

theorem ElfImage.memcpy_eq (hbits : sh.shType ≠ shtNobits) {k l dst : Nat}
    (hk : k + l ≤ sh.shSize) (hdst : dst + l ≤ 2 ^ 32)
    (hapart : Region.Apart ⟨dst, l⟩ ⟨elfDataRelocStart, size⟩) (mem : Memory) :
    elfMemcpy l dst ((elfDataRelocStart + sh.shOffset + k) % 2 ^ 32) mem =
      copy mem dst (elfDataRelocStart + sh.shOffset + k) l := by
  have hbytes := himage.bytes sh hsh hbits
  have hfits := himage.fits
  have hsource : Region.Inside ⟨elfDataRelocStart + sh.shOffset + k, l⟩
      ⟨elfDataRelocStart, size⟩ :=
    Region.inside_of_le (by dsimp only; omega) (by dsimp only; omega)
  exact elfMemcpy_mod_eq mem hdst (by omega) (hsource.apart hapart.symm).symm

/-- A section that starts below `pagetable_end` ends before the image. -/
theorem ElfImage.low_ends (hlow : sh.target < L.pagetableEnd) :
    sh.target + sh.shSize ≤ elfDataRelocStart := by
  have hapart := Region.apart_iff.mp (himage.avoids sh hsh).1
  have hpos := shSize_pos_of_loaded hsh
  have hheader := himage.header
  have hupper := L.upper
  have hdata := elfDataRelocStart_eq
  simp only [Shdr.range] at hapart
  omega

/-- The loop body for a section that is not below `pagetable_end`. -/
theorem ElfImage.placeSection_high (hhigh : ¬ sh.target < L.pagetableEnd)
    (hbits : sh.shType ≠ shtNobits) (s : ElfState) :
    placeSection L elfDataRelocStart sh s =
      .ok ⟨copy s.mem sh.target (elfDataRelocStart + sh.shOffset) sh.shSize, s.hadBeginOverwrite,
        s.written ++ [sh.range]⟩ := by
  have hcopy := himage.memcpy_eq hsh hbits (k := 0) (by omega) (himage.space sh hsh)
    (himage.avoids sh hsh).1 s.mem
  rw [Nat.add_zero] at hcopy
  rw [placeSection, if_neg hbits]
  dsimp only
  rw [if_neg hhigh, ElfState.memcpy, hcopy]
  rfl

theorem ElfImage.placeSection_low (hlow : sh.target < L.pagetableEnd)
    (hbits : sh.shType ≠ shtNobits) (hlong : L.beginSize ≤ sh.shSize)
    (hfree : s.hadBeginOverwrite = false) :
    placeSection L elfDataRelocStart sh s =
      .ok ⟨copy (copy s.mem elfTempBegin (elfDataRelocStart + sh.shOffset) L.beginSize)
          L.pagetableEnd (elfDataRelocStart + sh.shOffset + L.beginSize)
          (sh.shSize - L.beginSize),
        true, s.written ++ [L.temp] ++ [sh.rest L]⟩ := by
  have hends := himage.low_ends hsh hlow
  have hdata := elfDataRelocStart_eq
  have htarget := sh.le_target
  have hupper := L.upper
  have hbs := L.beginSize_eq
  have hgo : ¬ ((sh.target + sh.shSize) % 2 ^ 32 < L.pagetableEnd ∨ s.hadBeginOverwrite = true) := by
    rw [hfree, Nat.mod_eq_of_lt (by omega)]
    rintro (hend | hbegin)
    · omega
    · cases hbegin
  -- the unsigned subtraction of the source does not wrap
  have hlen : (sh.shSize + 2 ^ 32 - L.beginSize) % 2 ^ 32 = sh.shSize - L.beginSize := by omega
  have hplace : elfTempBegin + L.beginSize ≤ 2 ^ 32 := by
    rw [elfTempBegin]
    omega
  have hfirst := himage.memcpy_eq hsh hbits (k := 0) (by omega) hplace
    (L.image_apart_temp size).symm s.mem
  have hsecond := himage.memcpy_eq hsh hbits (k := L.beginSize) (l := sh.shSize - L.beginSize)
    (by omega) (by omega) ((Shdr.rest_inside hlow hlong).apart (himage.avoids sh hsh).1)
    (copy s.mem elfTempBegin (elfDataRelocStart + sh.shOffset) L.beginSize)
  rw [Nat.add_zero] at hfirst
  rw [placeSection, if_neg hbits]
  dsimp only
  rw [if_pos hlow, if_neg hgo, hlen, Nat.mod_add_mod]
  simp only [ElfState.memcpy]
  rw [hfirst, hsecond]
  rfl

end

/-- What the loader has done when the sections `P` are through: it has written to
what it puts aside and to places of `P`, the sections are where they are put from
`pagetable_end` on, and one that reaches below has its beginning put aside. -/
structure Progress (L : LoaderLayout) (m : Memory) (P : List Shdr) (s : ElfState) : Prop where
  within : Within s.written m s.mem
  written : ∀ r ∈ s.written, L.pagetableEnd ≤ r.start ∧
    ((r = L.temp ∧ s.hadBeginOverwrite = true) ∨ ∃ sh ∈ P, r.Inside sh.range)
  placed : ∀ sh ∈ P, ∀ k, k + sh.shift L < sh.shSize → L.pagetableEnd ≤ sh.target + k →
    s.mem (sh.target + k) = sh.value m (k + sh.shift L)
  staged : ∀ sh ∈ P, sh.target < L.pagetableEnd → s.hadBeginOverwrite = true ∧
    ∀ k < L.beginSize, s.mem (elfTempBegin + k) = sh.value m k
  flagged : s.hadBeginOverwrite = true → ∃ sh ∈ P, sh.shType ≠ shtNobits ∧
    sh.target < L.pagetableEnd ∧ L.pagetableEnd ≤ sh.target + sh.shSize

theorem Progress.start (L : LoaderLayout) (m : Memory) : Progress L m [] ⟨m, false, []⟩ where
  within := Within.refl [] m
  written _ hr := nomatch hr
  placed _ hsh := nomatch hsh
  staged _ hsh := nomatch hsh
  flagged hflag := nomatch hflag

theorem ElfImage.apart_next (himage : ElfImage L m size) (hnext : P ++ [sh] <+: loadedSections m)
    (hsh' : sh' ∈ P) : sh'.range.Apart sh.range := by
  have hpair := himage.disjoint.sublist hnext.sublist
  exact (pairwise_append.mp hpair).2.2 sh' hsh' sh (mem_singleton_self sh)

section

variable (h : Progress L m P s) (himage : ElfImage L m size)
include h himage

theorem Progress.image (hP : P ⊆ loadedSections m) {k : Nat} (hk : k < size) :
    s.mem (elfDataRelocStart + k) = m (elfDataRelocStart + k) := by
  have hin : Region.Has ⟨elfDataRelocStart, size⟩ (elfDataRelocStart + k) :=
    Region.has_add _ hk
  have hapart : ∀ r ∈ s.written, Region.Apart ⟨elfDataRelocStart, size⟩ r := by
    intro r hr
    rcases (h.written r hr).2 with ⟨rfl, -⟩ | ⟨sh, hsh, hinside⟩
    · exact L.image_apart_temp size
    · exact (hinside.apart (himage.avoids sh (hP hsh)).1).symm
  exact h.within.keeps hapart hin

variable (hnext : P ++ [sh] <+: loadedSections m)
include hnext

/-- One more section: what its part of the loop has to do for the sections before
it to stay as they are. -/
theorem Progress.extend {rs : List Region}
    (hwritten : s'.written = s.written ++ rs) (hwithin : Within rs s.mem s'.mem)
    (hrs : ∀ r ∈ rs, L.pagetableEnd ≤ r.start ∧
      ((r = L.temp ∧ s'.hadBeginOverwrite = true) ∨ r.Inside sh.range))
    (hkeep : s.hadBeginOverwrite = true → s'.hadBeginOverwrite = true ∧ L.temp ∉ rs)
    (hplaced : ∀ k, k + sh.shift L < sh.shSize → L.pagetableEnd ≤ sh.target + k →
      s'.mem (sh.target + k) = sh.value m (k + sh.shift L))
    (hstaged : sh.target < L.pagetableEnd → s'.hadBeginOverwrite = true ∧
      ∀ k < L.beginSize, s'.mem (elfTempBegin + k) = sh.value m k)
    (hflagged : s'.hadBeginOverwrite = true → s.hadBeginOverwrite = true ∨
      sh.shType ≠ shtNobits ∧ sh.target < L.pagetableEnd ∧
        L.pagetableEnd ≤ sh.target + sh.shSize) :
    Progress L m (P ++ [sh]) s' where
  within := by
    rw [hwritten]
    exact h.within.trans hwithin
  written := by
    intro r hr
    rw [hwritten] at hr
    rcases mem_append.mp hr with hr | hr
    · obtain ⟨hpe, hwhere⟩ := h.written r hr
      refine ⟨hpe, hwhere.imp (fun ht => ⟨ht.1, (hkeep ht.2).1⟩) ?_⟩
      rintro ⟨sh', hsh', hin⟩
      exact ⟨sh', mem_append_left _ hsh', hin⟩
    · obtain ⟨hpe, hwhere⟩ := hrs r hr
      exact ⟨hpe, hwhere.imp_right fun hin => ⟨sh, by simp, hin⟩⟩
  placed := by
    intro sh' hsh' k hk hpe
    rcases mem_append.mp hsh' with hold | hnew
    · -- the new section is somewhere else, and so is what was put aside
      have hin : sh'.range.Has (sh'.target + k) :=
        Region.has_add _ (show k < sh'.shSize by omega)
      have hapart : ∀ r ∈ rs, sh'.range.Apart r := by
        intro r hr
        rcases (hrs r hr).2 with ⟨rfl, -⟩ | hinside
        · exact (himage.avoids sh' (hnext.subset hsh')).2.1
        · exact (hinside.apart (himage.apart_next hnext hold).symm).symm
      rw [hwithin.keeps hapart hin]
      exact h.placed sh' hold k hk hpe
    · rw [mem_singleton.mp hnew] at hk hpe ⊢
      exact hplaced k hk hpe
  staged := by
    intro sh' hsh' hlow
    rcases mem_append.mp hsh' with hold | hnew
    · obtain ⟨hbegin, hbytes⟩ := h.staged sh' hold hlow
      obtain ⟨hbegin', htemp⟩ := hkeep hbegin
      refine ⟨hbegin', fun k hk => ?_⟩
      have hin : L.temp.Has (elfTempBegin + k) :=
        Region.has_add _ hk
      have hapart : ∀ r ∈ rs, L.temp.Apart r := by
        intro r hr
        rcases (hrs r hr).2 with ⟨rfl, -⟩ | hinside
        · exact absurd hr htemp
        · exact (hinside.apart (himage.avoids sh (hnext.subset (by simp))).2.1).symm
      rw [hwithin.keeps hapart hin]
      exact hbytes k hk
    · rw [mem_singleton.mp hnew] at hlow ⊢
      exact hstaged hlow
  flagged := by
    intro hflag
    rcases hflagged hflag with hold | hnew
    · obtain ⟨sh', hsh', hwhat⟩ := h.flagged hold
      exact ⟨sh', mem_append_left _ hsh', hwhat⟩
    · exact ⟨sh, by simp, hnew⟩

theorem Progress.source (hbits : sh.shType ≠ shtNobits) {k : Nat} (hk : k < sh.shSize) :
    s.mem (elfDataRelocStart + sh.shOffset + k) = sh.value m k := by
  have hbytes := himage.bytes sh (hnext.subset (by simp)) hbits
  have hP := List.Subset.trans (subset_append_left P [sh]) hnext.subset
  rw [Shdr.value, if_neg hbits, Nat.add_assoc, h.image himage hP (by omega)]

/-- **A section that has nothing below `pagetable_end`**, or no bytes in the
file. -/
theorem Progress.load_high (hhigh : ¬ sh.target < L.pagetableEnd) {f : Nat → UInt8}
    (hmem : s'.mem = fill s.mem sh.range f) (hf : ∀ k < sh.shSize, f k = sh.value m k)
    (hwritten : s'.written = s.written ++ [sh.range])
    (hbegin : s'.hadBeginOverwrite = s.hadBeginOverwrite) :
    Progress L m (P ++ [sh]) s' := by
  have hsh := hnext.subset (mem_concat_self ..)
  have hfirst : sh.range.Has sh.target := Region.has_add sh.range (shSize_pos_of_loaded hsh)
  have hshift : sh.shift L = 0 := if_neg hhigh
  refine h.extend himage hnext hwritten ?_ ?_ ?_ ?_ (fun hlow => absurd hlow hhigh)
    fun hflag => .inl (hbegin ▸ hflag)
  · rw [hmem]
    exact within_fill s.mem sh.range f
  · intro r hr
    rw [mem_singleton.mp hr]
    exact ⟨Nat.le_of_not_lt hhigh, .inr fun _ ha => ha⟩
  · intro hb
    refine ⟨hbegin.trans hb, fun htemp => ?_⟩
    -- its place is apart from what was put aside
    have hrange := mem_singleton.mp htemp
    have hapart := (himage.avoids sh hsh).2.1
    rw [hrange] at hapart
    exact hapart _ hfirst hfirst
  · rw [hshift]
    intro k hk _
    rw [hmem]
    exact (fill_add f hk).trans (hf k hk)

/-- **A section below `pagetable_end`**: as many bytes as there are below it are put
aside, wherever the section starts, and the rest follows at `pagetable_end`. -/
theorem Progress.load_low (hbits : sh.shType ≠ shtNobits) (hlow : sh.target < L.pagetableEnd)
    (hlong : L.beginSize ≤ sh.shSize) (hfree : s.hadBeginOverwrite = false) :
    ∃ s', placeSection L elfDataRelocStart sh s = .ok s' ∧ Progress L m (P ++ [sh]) s' := by
  have hsh := hnext.subset (mem_concat_self ..)
  refine ⟨_, himage.placeSection_low hsh hlow hbits hlong hfree, ?_⟩
  have hlower := L.lower
  have hupper := L.upper
  have hbs := L.beginSize_eq
  have htarget := sh.le_target
  have hshift : sh.shift L = sh.target - 0x80000000 := if_pos hlow
  have hrest := Shdr.rest_inside hlow hlong
  have htemp := (himage.avoids sh hsh).2.1
  have hsource (k : Nat) (hk : k < sh.shSize) := h.source himage hnext hbits hk
  obtain ⟨mem, hmem⟩ : ∃ mem, mem = copy s.mem elfTempBegin (elfDataRelocStart + sh.shOffset)
    L.beginSize := ⟨_, rfl⟩
  have hwithin₁ : Within [L.temp] s.mem mem := hmem ▸ within_copy _ _ _ _
  have hwithin₂ : Within [sh.rest L] mem (copy mem L.pagetableEnd
      (elfDataRelocStart + sh.shOffset + L.beginSize) (sh.shSize - L.beginSize)) :=
    within_copy _ _ _ _
  -- the second copy reads the image, which the first one has not touched
  have hsecond : ∀ k < sh.shSize, mem (elfDataRelocStart + sh.shOffset + k) = sh.value m k := by
    intro k hk
    have hbytes := himage.bytes sh hsh hbits
    rw [← hsource k hk]
    have hin : Region.Has ⟨elfDataRelocStart, size⟩ (elfDataRelocStart + sh.shOffset + k) :=
      Region.has_mk.mpr ⟨by omega, by omega⟩
    refine hwithin₁.keeps (fun r hr => ?_) hin
    rw [mem_singleton.mp hr]
    exact L.image_apart_temp size
  rw [← hmem]
  refine h.extend himage hnext (append_assoc _ _ _) (hwithin₁.trans hwithin₂) ?_ ?_ ?_ ?_
    fun _ => .inr ⟨hbits, hlow, by omega⟩
  · intro r hr
    rcases mem_append.mp hr with hr | hr
    · rw [mem_singleton.mp hr]
      exact ⟨by rw [L.temp_start]; omega, .inl ⟨rfl, rfl⟩⟩
    · rw [mem_singleton.mp hr]
      exact ⟨Nat.le_refl _, .inr hrest⟩
  · -- nothing had been put aside before
    intro hb
    rw [hfree] at hb
    cases hb
  · intro k hk hpe
    have hplace : sh.target + k = L.pagetableEnd + (k + sh.shift L - L.beginSize) := by omega
    have hback : elfDataRelocStart + sh.shOffset + L.beginSize + (k + sh.shift L - L.beginSize) =
        elfDataRelocStart + sh.shOffset + (k + sh.shift L) := by omega
    dsimp only
    rw [hplace, copy_add (by omega), hback, hsecond _ hk]
  · intro _
    refine ⟨rfl, fun k hk => ?_⟩
    have hin : L.temp.Has (elfTempBegin + k) :=
      Region.has_add _ hk
    rw [← hsource k (by omega)]
    -- the second copy does not reach what the first one put aside
    refine Eq.trans (hwithin₂.keeps (fun r hr => ?_) hin) (hmem ▸ copy_add hk)
    rw [mem_singleton.mp hr]
    exact (hrest.apart htemp).symm

/-- Nothing was put aside yet when a section comes that reaches up to
`pagetable_end` from below: both would have the byte before it. -/
theorem Progress.not_flagged (hlow : sh.target < L.pagetableEnd)
    (hreach : L.pagetableEnd ≤ sh.target + sh.shSize) : s.hadBeginOverwrite = false := by
  rw [← Bool.not_eq_true]
  intro hflag
  obtain ⟨sh', hsh', -, hlow', hreach'⟩ := h.flagged hflag
  refine himage.apart_next hnext hsh' (L.pagetableEnd - 1) (Region.has_mk.mpr ?_)
    (Region.has_mk.mpr ?_)
  · omega
  · omega

/-- **One section** of the loop: it is put where it is put, or the loader stops,
because the section ends below `pagetable_end`. -/
theorem Progress.load (hwhole : StagedWhole L m) :
    (placeSection L elfDataRelocStart sh s = .error .trap ∧ TooShort L m) ∨
    ∃ s', placeSection L elfDataRelocStart sh s = .ok s' ∧ Progress L m (P ++ [sh]) s' := by
  have hsh := hnext.subset (mem_concat_self ..)
  by_cases hbits : sh.shType = shtNobits
  · have hhigh : ¬ sh.target < L.pagetableEnd := fun hlow => (hwhole sh hsh hlow).1 hbits
    refine .inr ⟨s.memset sh.target 0 sh.shSize, if_pos hbits, ?_⟩
    refine h.load_high himage hnext hhigh (f := fun _ => 0) ?_ (fun k _ => ?_) rfl rfl
    · exact elfMemset_eq 0 s.mem (himage.space sh hsh)
    · rw [Shdr.value, if_pos hbits]
  · by_cases hlow : sh.target < L.pagetableEnd
    · by_cases hreach : L.pagetableEnd ≤ sh.target + sh.shSize
      · exact .inr (h.load_low himage hnext hbits hlow ((hwhole sh hsh hlow).2 hreach)
          (h.not_flagged himage hnext hlow hreach))
      · have hshort : sh.target + sh.shSize < L.pagetableEnd := Nat.lt_of_not_le hreach
        have hend := Nat.lt_of_le_of_lt (Nat.mod_le (sh.target + sh.shSize) (2 ^ 32)) hshort
        refine .inl ⟨?_, sh, hsh, hshort⟩
        rw [placeSection, if_neg hbits]
        dsimp only
        rw [if_pos hlow, if_pos (.inl hend)]
    · refine .inr ⟨_, himage.placeSection_high hsh hlow hbits s, ?_⟩
      exact h.load_high himage hnext hlow rfl
        (fun k hk => h.source himage hnext hbits hk) rfl rfl

end

/-! ### The loop -/

theorem readWord_congr {m m' : Memory} {a : Nat} (h : ∀ k < 4, m (a + k) = m' (a + k)) :
    readWord m a = readWord m' a := by
  have h₀ := h 0 (by decide)
  have h₁ := h 1 (by decide)
  have h₂ := h 2 (by decide)
  have h₃ := h 3 (by decide)
  rw [Nat.add_zero] at h₀
  rw [readWord, readWord, h₀, h₁, h₂, h₃]

theorem ElfImage.headers (himage : ElfImage L m size) {mem : Memory}
    (hmem : ∀ k < size, mem (elfDataRelocStart + k) = m (elfDataRelocStart + k)) :
    eShnum mem elfDataRelocStart = eShnum m elfDataRelocStart ∧
      ∀ i < eShnum m elfDataRelocStart,
        shdrAt mem elfDataRelocStart i = shdrAt m elfDataRelocStart i := by
  have hheader := himage.header
  have htable := himage.table
  have hfits := himage.fits
  have hword {b : Nat} (hb : b + 4 ≤ size) :
      readWord mem (elfDataRelocStart + b) = readWord m (elfDataRelocStart + b) := by
    refine readWord_congr fun k hk => ?_
    rw [Nat.add_assoc]
    exact hmem (b + k) (by omega)
  have hshoff : eShoff mem elfDataRelocStart = eShoff m elfDataRelocStart := hword (by omega)
  refine ⟨?_, fun i hi => ?_⟩
  · rw [eShnum, eShnum, readHalf, readHalf, hmem 48 (by omega), hmem 49 (by omega)]
  · have hfield {b : Nat} (hb : b + 4 ≤ 40) :
        readWord mem (elfDataRelocStart + eShoff m elfDataRelocStart + i * 40 + b) =
          readWord m (elfDataRelocStart + eShoff m elfDataRelocStart + i * 40 + b) := by
      rw [Nat.add_assoc, Nat.add_assoc]
      exact hword (by omega)
    have hname := hfield (b := 0) (by decide)
    rw [Nat.add_zero] at hname
    rw [shdrAt, shdrAt, hshoff, Nat.mod_eq_of_lt (by omega)]
    rw [hname, hfield (by decide), hfield (by decide), hfield (by decide), hfield (by decide),
      hfield (by decide)]

theorem eShnum_lt (m : Memory) (addr : Nat) : eShnum m addr < 65536 := by
  have h₁ := (m (addr + 48)).toNat_lt
  have h₂ := (m (addr + 48 + 1)).toNat_lt
  rw [eShnum, readHalf]
  omega

/-- The loaded ones among the first `i` sections. -/
def loadedBefore (m : Memory) (i : Nat) : List Shdr :=
  ((sections m elfDataRelocStart).take i).filter fun sh => sh.Loaded

theorem loadedBefore_initial (m : Memory) (i : Nat) : loadedBefore m i <+: loadedSections m :=
  List.IsPrefix.filter _ ( take_prefix i _)

theorem loadedBefore_all {i : Nat} (hi : eShnum m elfDataRelocStart ≤ i) :
    loadedBefore m i = loadedSections m := by
  rw [loadedBefore, take_of_length_le, loadedSections]
  rw [sections, length_map, length_range]
  exact hi

theorem loadedBefore_succ {i : Nat} (hi : i < eShnum m elfDataRelocStart) :
    loadedBefore m (i + 1) = if (shdrAt m elfDataRelocStart i).Loaded
      then loadedBefore m i ++ [shdrAt m elfDataRelocStart i] else loadedBefore m i := by
  have hget : (sections m elfDataRelocStart)[i]? = some (shdrAt m elfDataRelocStart i) := by
    rw [sections, List.getElem?_map, List.getElem?_range hi]
    rfl
  rw [loadedBefore, take_add_one, hget, filter_append, Option.toList_some]
  by_cases hloaded : (shdrAt m elfDataRelocStart i).Loaded
  · rw [if_pos hloaded, filter_cons_of_pos (by simpa using hloaded)]
    rfl
  · rw [if_neg hloaded, filter_cons_of_neg (by simpa using hloaded)]
    exact append_nil _

/-- **The loop**, from any section on. -/
theorem Progress.loop (himage : ElfImage L m size) (hwhole : StagedWhole L m) {left i : Nat}
    (hleft : left + i = 65536) (h : Progress L m (loadedBefore m i) s) :
    (elfSections L elfDataRelocStart (strtabAt m elfDataRelocStart) left i s = .error .trap ∧
      TooShort L m) ∨
    ∃ s', elfSections L elfDataRelocStart (strtabAt m elfDataRelocStart) left i s = .ok s' ∧
      Progress L m (loadedSections m) s' := by
  have hlt := eShnum_lt m elfDataRelocStart
  induction left generalizing i s with
  | zero =>
    rw [loadedBefore_all (by omega)] at h
    exact .inr ⟨s, rfl, h⟩
  | succ left ih =>
    -- the headers are read from memory again, where the image is still whole
    have hmem {k : Nat} := h.image himage (loadedBefore_initial m i).subset (k := k)
    obtain ⟨hshnum, hshdr⟩ := himage.headers fun k => hmem
    rw [elfSections, hshnum]
    by_cases hi : i < eShnum m elfDataRelocStart
    · have hsucc := loadedBefore_succ hi
      rw [if_pos hi, hshdr i hi, loadSection]
      by_cases hloaded : (shdrAt m elfDataRelocStart i).Loaded
      · rw [if_pos hloaded] at hsucc
        have hnext := loadedBefore_initial m (i + 1)
        rw [hsucc] at hnext
        have hputs := himage.puts_name (hnext.subset (mem_concat_self ..)) fun k => hmem
        rw [if_neg (not_not.mpr hloaded), hputs, if_neg nofun]
        rcases h.load himage hnext hwhole with ⟨htrap, hshort⟩ | ⟨s₁, hload, hs₁⟩
        · rw [htrap]
          exact .inl ⟨rfl, hshort⟩
        · rw [hload]
          exact ih (by omega) (hsucc ▸ hs₁)
      · rw [if_neg hloaded] at hsucc
        rw [if_pos hloaded]
        exact ih (by omega) (hsucc ▸ h)
    · rw [if_neg hi]
      rw [loadedBefore_all (Nat.le_of_not_lt hi)] at h
      exact .inr ⟨s, rfl, h⟩

/-! ### The whole loader -/

theorem elfFinish_mem (L : LoaderLayout) (s : ElfState) {a : Nat} (ha : ¬ L.codeArea.Has a) :
    (elfFinish L elfDataRelocStart s).mem a =
      if s.hadBeginOverwrite = true ∧ 0x80000000 ≤ a ∧ a < L.pagetableEnd then
        s.mem (elfTempBegin + (a - 0x80000000))
      else s.mem a := by
  have hlower := L.lower
  have hupper := L.upper
  have hbs := L.beginSize_eq
  have hhold := L.hold
  have hcode : ¬ Region.Has ⟨elfCodeRelocStart + L.holdOffset, 4⟩ a := by
    rintro ⟨hlow, hhigh⟩
    refine ha (Region.has_mk.mpr ⟨?_, ?_⟩)
    · exact Nat.le_trans (Nat.le_add_right _ _) hlow
    · dsimp only at hhigh
      omega
  -- the staged pages and their target do not overlap
  have hcopy : elfMemcpy L.beginSize 0x80000000 elfTempBegin s.mem =
      copy s.mem 0x80000000 elfTempBegin L.beginSize := by
    refine elfMemcpy_eq s.mem (by omega) ?_ ?_
    · rw [elfTempBegin]
      omega
    · rw [Region.apart_iff]
      dsimp only
      rw [elfTempBegin]
      omega
  rw [elfFinish]
  dsimp only
  rw [writeWord, fill_of_not_has _ hcode]
  by_cases hbegin : s.hadBeginOverwrite = true
  · rw [if_pos hbegin, ElfState.memcpy, hcopy]
    dsimp only
    rw [copy_apply]
    by_cases hin : 0x80000000 ≤ a ∧ a < L.pagetableEnd
    · rw [if_pos (by omega), if_pos ⟨hbegin, hin⟩]
    · rw [if_neg (by omega), if_neg fun hand => hin hand.2]
  · rw [if_neg hbegin, if_neg fun hand => hbegin hand.1]

/-- **Where the sections are put.**  The loader stops in its trap only if a section
ends below `pagetable_end`.  Otherwise it comes to its end, and every byte of a
section is at its place, or lower by the distance of the section from 0x80000000 if
it starts below `pagetable_end`. -/
theorem elfPrepareRun_places (himage : ElfImage L m size) (hwhole : StagedWhole L m) :
    (elfPrepareRun L elfDataRelocStart m = .error .trap ∧ TooShort L m) ∨
    ∃ s₁, elfLoop L elfDataRelocStart m = .ok s₁ ∧
      elfPrepareRun L elfDataRelocStart m = .ok (elfFinish L elfDataRelocStart s₁) ∧
      Progress L m (loadedSections m) s₁ ∧
      ∀ sh ∈ loadedSections m, ∀ k, k + sh.shift L < sh.shSize →
        (elfFinish L elfDataRelocStart s₁).mem (sh.target + k) = sh.value m (k + sh.shift L) := by
  rw [elfPrepareRun, elfLoop]
  rcases Progress.loop himage hwhole (i := 0) rfl (Progress.start L m) with
    ⟨htrap, hshort⟩ | ⟨s₁, hloop, h⟩
  · rw [htrap]
    exact .inl ⟨rfl, hshort⟩
  rw [hloop]
  refine .inr ⟨s₁, rfl, rfl, h, fun sh hsh k hk => ?_⟩
  have hcode : ¬ L.codeArea.Has (sh.target + k) :=
    (himage.avoids sh hsh).2.2 _ (Region.has_add _ (show k < sh.shSize by omega))
  rw [elfFinish_mem L s₁ hcode]
  by_cases hlow : sh.target + k < L.pagetableEnd
  · -- in the part that was put aside
    have htarget : sh.target < L.pagetableEnd := by omega
    obtain ⟨hbegin, hbytes⟩ := h.staged sh hsh htarget
    have hle := sh.le_target
    have hbs := L.beginSize_eq
    have hshift : sh.shift L = sh.target - 0x80000000 := if_pos htarget
    have hdist : sh.target + k - 0x80000000 = k + sh.shift L := by omega
    rw [if_pos ⟨hbegin, by omega, hlow⟩, hdist]
    exact hbytes _ (by omega)
  · rw [if_neg fun hand => hlow hand.2.2]
    exact h.placed sh hsh k hk (Nat.le_of_not_lt hlow)

/-- What the loader leaves alone: a region apart from the places of the sections and
the loader itself, and, if something is put aside, from there and from what is below
`pagetable_end`. -/
theorem elfPrepareRun_keeps (himage : ElfImage L m size) (hwhole : StagedWhole L m)
    (hrun : elfPrepareRun L elfDataRelocStart m = .ok s) {r : Region}
    (hsections : ∀ sh ∈ loadedSections m, r.Apart sh.range) (hcode : r.Apart L.codeArea)
    (hstaged : Staged L m → r.Apart L.temp ∧ r.Apart ⟨0x80000000, L.beginSize⟩) {a : Nat}
    (ha : r.Has a) : s.mem a = m a := by
  rcases elfPrepareRun_places himage hwhole with ⟨htrap, -⟩ | ⟨s₁, -, hend, h, -⟩
  · rw [htrap] at hrun
    cases hrun
  rw [hend] at hrun
  cases hrun
  have hbs := L.beginSize_eq
  have hapart (hflag : s₁.hadBeginOverwrite = true) :
      r.Apart L.temp ∧ r.Apart ⟨0x80000000, L.beginSize⟩ := by
    obtain ⟨sh, hsh, hbits, hlow, -⟩ := h.flagged hflag
    exact hstaged ⟨sh, hsh, hbits, hlow⟩
  have hnot : ¬ (s₁.hadBeginOverwrite = true ∧ 0x80000000 ≤ a ∧ a < L.pagetableEnd) := by
    rintro ⟨hflag, hge, hlt⟩
    exact (hapart hflag).2 a ha (Region.has_mk.mpr ⟨hge, by omega⟩)
  rw [elfFinish_mem L s₁ (hcode a ha), if_neg hnot]
  refine h.within.keeps (fun r' hr' => ?_) ha
  rcases (h.written r' hr').2 with ⟨rfl, hflag⟩ | ⟨sh, hsh, hinside⟩
  · exact (hapart hflag).1
  · exact (hinside.apart (hsections sh hsh).symm).symm

/-! ### Images of two sections -/

/-- A loader with 0x1600 bytes below `pagetable_end`. -/
def linkedLoader : LoaderLayout where
  pagetableEnd := 0x80001600
  codeSize := 0x800
  holdOffset := 0x7F0
  lower := by decide
  upper := by decide
  code := by decide
  hold := by decide

def imageWord (n : Nat) : List UInt8 :=
  [UInt8.ofNat (n / 2 ^ 24), UInt8.ofNat (n / 2 ^ 16), UInt8.ofNat (n / 2 ^ 8), UInt8.ofNat n]

/-- A section header without links. -/
def shdrBytes (shType shFlags shAddr shOffset shSize : Nat) : List UInt8 :=
  [0, shType, shFlags, shAddr, shOffset, shSize, 0, 0, 0, 0].flatMap imageWord

/-- What comes before the bytes of the sections: the header, the section headers and
the name.  The second section is the table of names, the third one goes to
0x80010000. -/
def imageHeader (shType shAddr shSize : Nat) : List UInt8 :=
  List.replicate 32 0 ++ imageWord 52 ++ List.replicate 12 0 ++ [0, 3, 0, 1] ++
  shdrBytes shType shfAlloc shAddr 176 shSize ++ shdrBytes shtStrtab 0 0 172 4 ++
  shdrBytes 1 shfAlloc 0x80010000 176 4 ++ [0x2E, 0x74, 0, 0]

/-- The bytes of the image; those of the sections are 1, 2, 3 and so on. -/
def imageByte (shType shAddr shSize k : Nat) : UInt8 :=
  (imageHeader shType shAddr shSize).getD k (UInt8.ofNat (k - 175))

/-- The image where the loader reads it. -/
def twoSections (shType shAddr shSize : Nat) : Memory := fun a =>
  imageByte shType shAddr shSize (a - elfDataRelocStart)

theorem elfImage_twoSections :
    ElfImage linkedLoader (twoSections 1 0x80000000 0x1700) 6064 ∧
      ElfImage linkedLoader (twoSections 1 0x80000002 0x1700) 6064 ∧
      ElfImage linkedLoader (twoSections 8 0x80000000 6) 6064 := by
  refine ⟨⟨?_, ?_, ?_, ?_, ?_, ?_, ?_, ?_, ?_⟩, ⟨?_, ?_, ?_, ?_, ?_, ?_, ?_, ?_, ?_⟩,
    ⟨?_, ?_, ?_, ?_, ?_, ?_, ?_, ?_, ?_⟩⟩
  all_goals decide +kernel

end LibXenon
