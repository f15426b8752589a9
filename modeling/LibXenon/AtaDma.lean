/-
LibXenon/AtaDma.lean

The table of `xenon_ata_dma_read` in memory.

The loop splits a buffer at the multiples of 64 KB and stores one descriptor for
each piece: the address, and the length modulo 64 KB with a flag for the last one,
both with their bytes swapped.  It gives up when the table is full and bytes are
left.

* `prdLoop_refines`: the loop over memory stores what `buildPrds` of `AtaSectors`
  lists, in the first entries, and touches no others;
* `length_of_tiles` and `buildPrds_eq_none_iff`: it gives up exactly when no
  division of the buffer into such pieces fits in the table;
* `dmaReadTable_refines`: the function with this loop is `xenonAtaDmaRead`;
* `dmaRead_builds_table`: what a call does to the table and to the controller.
-/
import LibXenon.AtaSectors
import Mathlib.Data.BitVec

namespace LibXenon

open Dialogue List

/-! ### Descriptors in memory -/

/-- `__builtin_bswap32`. -/
def bswap32 (x : BitVec 32) : BitVec 32 :=
  x.extractLsb' 0 8 ++ x.extractLsb' 8 8 ++ x.extractLsb' 16 8 ++ x.extractLsb' 24 8

/-- `struct xenon_ata_dma_prd` as it is stored. -/
structure RawPrd where
  address : BitVec 32
  sizeFlags : BitVec 32

/-- The descriptor the controller reads. -/
def RawPrd.read (p : RawPrd) : Prd where
  address := (bswap32 p.address).toNat
  size := (bswap32 p.sizeFlags).toNat % 0x10000
  last := (bswap32 p.sizeFlags).getLsbD 31

/-- The table, of `MAX_PRDS` entries. -/
def readTable (prds : Nat → RawPrd) : List Prd := (List.range maxPrds).map fun j => (prds j).read

/-- The variables of the loop, the memory at `dev->prds` and the entries stored so
far. -/
structure PrdLoop where
  i : Nat
  s : Int
  b : Nat
  prds : Nat → RawPrd
  written : List Nat

/-- One round; `s > 0`. -/
def PrdLoop.round (l : PrdLoop) : PrdLoop :=
  let ss := min l.s (0x10000 - l.b % 0x10000 : Nat)
  let s := l.s - ss
  { i := l.i + 1
    s := s
    b := (l.b + ss.toNat) % 2 ^ 32
    prds := Function.update l.prds l.i
      ⟨bswap32 (BitVec.ofNat 32 l.b),
        bswap32 (BitVec.ofNat 32 (ss.toNat % 0x10000) ||| if s > 0 then 0 else 0x80000000)⟩
    written := l.written ++ [l.i] }

/-- The loop, for so many rounds; `false` is "transfer too big". -/
def prdLoop : Nat → PrdLoop → Option (Bool × PrdLoop)
  | 0, _ => none
  | rounds + 1, l =>
    if l.s > 0 then
      if maxPrds ≤ l.round.i ∧ l.round.s > 0 then some (false, l.round)
      else prdLoop rounds l.round
    else some (true, l)

/-- `xenon_ata_dma_read`, with the loop as it was left.  Each round takes at least
one byte. -/
def dmaReadTable (prds : Nat → RawPrd) (buf : Nat) (size : Int) : Ata (Int × PrdLoop) :=
  let l : PrdLoop := ⟨0, size, buf % 2 ^ 31, prds, []⟩
  if buf % 4 ≠ 0 then stuck
  else do
    let status ← xenonAtaRegget .status
    if status &&& 1 ≠ 0 then
      let e ← xenonAtaRegget .error
      pure ((e.toNat : Int), l)
    else
      match prdLoop (size.toNat + 1) l with
      | none => stuck
      | some (false, l) => pure (-1, l)
      | some (true, l) => do
          let r ← dmaTransfer (readTable l.prds)
          pure (r, l)

/-! ### What the controller reads -/

theorem getLsbD_bswap32 (x : BitVec 32) {i : Nat} (hi : i < 32) :
    (bswap32 x).getLsbD i = x.getLsbD (8 * (3 - i / 8) + i % 8) := by
  have hbyte : i / 8 = 0 ∨ i / 8 = 1 ∨ i / 8 = 2 ∨ i / 8 = 3 := by omega
  simp only [bswap32, BitVec.getLsbD_append, BitVec.getLsbD_extractLsb']
  rcases hbyte with h | h | h | h
  · rw [if_pos (by omega), decide_eq_true (by omega), Bool.true_and, h,
      show i % 8 = i by omega]
  · rw [if_neg (by omega), if_pos (by omega), decide_eq_true (by omega), Bool.true_and, h,
      show i % 8 = i - 8 by omega]
  · rw [if_neg (by omega), if_neg (by omega), if_pos (by omega), decide_eq_true (by omega),
      Bool.true_and, h, show i % 8 = i - 8 - 8 by omega]
  · rw [if_neg (by omega), if_neg (by omega), if_neg (by omega), decide_eq_true (by omega),
      Bool.true_and, h, show i % 8 = i - 8 - 8 - 8 by omega]

theorem bswap32_bswap32 (x : BitVec 32) : bswap32 (bswap32 x) = x := by
  apply BitVec.eq_of_getLsbD_eq
  intro i hi
  rw [getLsbD_bswap32 _ hi, getLsbD_bswap32 _ (by omega)]
  congr 1
  omega

theorem read_stored {b ss : Nat} (hb : b < 2 ^ 32) (last : Bool) :
    RawPrd.read ⟨bswap32 (BitVec.ofNat 32 b),
        bswap32 (BitVec.ofNat 32 (ss % 0x10000) ||| if last then 0x80000000 else 0)⟩
      = ⟨b, ss % 0x10000, last⟩ := by
  have hmod : ss % 0x10000 < 2 ^ 16 := Nat.mod_lt _ (by decide)
  simp only [RawPrd.read, bswap32_bswap32, Prd.mk.injEq]
  refine ⟨?_, ?_, ?_⟩
  · rw [BitVec.toNat_ofNat, Nat.mod_eq_of_lt hb]
  · have hlow : (if last then 0x80000000 else 0 : BitVec 32).toNat % 2 ^ 16 = 0 := by
      cases last <;> rfl
    rw [BitVec.toNat_or, BitVec.toNat_ofNat, show 0x10000 = 2 ^ 16 from rfl, Nat.or_mod_two_pow,
      hlow, Nat.or_zero]
    omega
  · have hhigh : (BitVec.ofNat 32 (ss % 0x10000)).getLsbD 31 = false := by
      rw [BitVec.getLsbD_ofNat, Nat.testBit_lt_two_pow (by omega)]
      rfl
    rw [BitVec.getLsbD_or, hhigh, Bool.false_or]
    cases last <;> rfl

/-! ### The loop and the list -/

/-- The bytes the next descriptor is for. -/
def pieceSize (s b : Nat) : Nat := min s (0x10000 - b % 0x10000)

/-- The descriptor a round stores. -/
def pieceOf (s b : Nat) : Prd :=
  ⟨b, pieceSize s b % 0x10000, decide (s - pieceSize s b = 0)⟩

variable {l l' : PrdLoop}

theorem pieceSize_pos {s b : Nat} (hs : 0 < s) : 0 < pieceSize s b := by
  rw [pieceSize]
  omega

theorem buildPrds_succ {k s b : Nat} (hs : 0 < s) :
    buildPrds (k + 1) s b
      = (buildPrds k (s - pieceSize s b) (b + pieceSize s b)).map (pieceOf s b :: ·) := by
  rw [buildPrds, if_pos hs]
  rfl

theorem buildPrds_zero (k b : Nat) : buildPrds k 0 b = some [] := by
  cases k <;> rfl

theorem round_eq (hs : 0 < l.s) (hb : l.b + l.s.toNat < 2 ^ 32) :
    l.round.s.toNat = l.s.toNat - pieceSize l.s.toNat l.b ∧
    l.round.b = l.b + pieceSize l.s.toNat l.b ∧
    (l.round.prds l.i).read = pieceOf l.s.toNat l.b ∧
    0 ≤ l.round.s := by
  obtain ⟨s, hsn⟩ := Int.eq_ofNat_of_zero_le hs.le
  have hss : (min l.s (0x10000 - l.b % 0x10000 : Nat)).toNat = pieceSize l.s.toNat l.b := by
    rw [pieceSize]
    omega
  have hn : pieceSize l.s.toNat l.b ≤ l.s.toNat := Nat.min_le_left _ _
  have hround : l.round.s = l.s - pieceSize l.s.toNat l.b := by
    show l.s - min l.s (0x10000 - l.b % 0x10000 : Nat) = _
    omega
  refine ⟨by omega, ?_, ?_, by omega⟩
  · rw [PrdLoop.round, hss]
    exact Nat.mod_eq_of_lt (by omega)
  · have hflag : (if l.round.s > 0 then 0 else 0x80000000 : BitVec 32)
        = if decide (l.s.toNat - pieceSize l.s.toNat l.b = 0) then 0x80000000 else 0 := by
      by_cases hlast : l.s.toNat - pieceSize l.s.toNat l.b = 0
      · rw [if_neg (by omega), decide_eq_true hlast, if_pos rfl]
      · rw [if_pos (by omega), decide_eq_false hlast, if_neg Bool.false_ne_true]
    show RawPrd.read (Function.update l.prds l.i ⟨_, bswap32 (BitVec.ofNat 32 (_ % 0x10000) |||
      if l.round.s > 0 then 0 else 0x80000000)⟩ l.i) = _
    rw [Function.update_self, hflag, hss, read_stored (by omega)]
    rfl

/-- From `l` to `l'` the next `n` entries of the table were stored, and no others. -/
structure StoresNext (l l' : PrdLoop) (n : Nat) : Prop where
  written : l'.written = l.written ++ List.range' l.i n
  frame : ∀ j, j < l.i ∨ l.i + n ≤ j → l'.prds j = l.prds j

theorem StoresNext.refl (l : PrdLoop) : StoresNext l l 0 :=
  ⟨(append_nil _).symm, fun _ _ => rfl⟩

theorem StoresNext.cons {n : Nat} (h : StoresNext l.round l' n) : StoresNext l l' (n + 1) where
  written := by
    rw [h.written]
    show l.written ++ [l.i] ++ _ = _
    rw [append_assoc]
    rfl
  frame := by
    intro j hj
    have hi : l.round.i = l.i + 1 := rfl
    rw [h.frame j (by omega)]
    show Function.update l.prds l.i _ j = _
    rw [Function.update_of_ne (by omega)]

/-- **The loop stores the list.**  It comes to its end with the descriptors of
`buildPrds` in the next entries, or it stops behind the last entry. -/
theorem prdLoop_refines {k rounds : Nat} (hi : l.i + k = maxPrds) (hk : 0 < k ∨ l.s ≤ 0)
    (hb : l.b + l.s.toNat < 2 ^ 32) (hrounds : l.s.toNat < rounds) :
    (∀ prds, buildPrds k l.s.toNat l.b = some prds →
      ∃ l', prdLoop rounds l = some (true, l') ∧ StoresNext l l' prds.length ∧
        (List.range' l.i prds.length).map (fun j => (l'.prds j).read) = prds) ∧
    (buildPrds k l.s.toNat l.b = none →
      ∃ l', prdLoop rounds l = some (false, l') ∧ StoresNext l l' k) := by
  induction k generalizing l rounds with
  | zero =>
    obtain ⟨rounds, rfl⟩ : ∃ r, rounds = r + 1 := ⟨rounds - 1, by omega⟩
    have hdone : ¬ l.s > 0 := by omega
    have hzero : l.s.toNat = 0 := by omega
    rw [hzero, prdLoop, if_neg hdone]
    refine ⟨fun prds h => ?_, fun h => by cases h⟩
    cases h
    exact ⟨l, rfl, StoresNext.refl l, rfl⟩
  | succ k ih =>
    obtain ⟨rounds, rfl⟩ : ∃ r, rounds = r + 1 := ⟨rounds - 1, by omega⟩
    rw [prdLoop]
    by_cases hs : l.s > 0
    · obtain ⟨hsnext, hbnext, hread, hnonneg⟩ := round_eq hs hb
      have hpos := pieceSize_pos (b := l.b) (show 0 < l.s.toNat by omega)
      have hle : pieceSize l.s.toNat l.b ≤ l.s.toNat := Nat.min_le_left _ _
      have hinext : l.round.i = l.i + 1 := rfl
      rw [if_pos hs, buildPrds_succ (by omega), ← hsnext, ← hbnext]
      by_cases hfull : maxPrds ≤ l.round.i ∧ l.round.s > 0
      · -- the table is full and bytes are left
        obtain rfl : k = 0 := by omega
        have hnone : buildPrds 0 l.round.s.toNat l.round.b = none := by
          rw [buildPrds, if_pos (by omega)]
        rw [if_pos hfull, hnone]
        refine ⟨fun prds h => ?_, fun _ => ⟨l.round, rfl, (StoresNext.refl _).cons⟩⟩
        cases h
      · rw [if_neg hfull]
        have hrest := @ih l.round rounds (by omega) (by omega) (by omega) (by omega)
        refine ⟨fun prds h => ?_, fun h => ?_⟩
        · obtain ⟨ps, hps, rfl⟩ := Option.map_eq_some_iff.mp h
          obtain ⟨l', hloop, hstores, hreads⟩ := hrest.1 ps hps
          refine ⟨l', hloop, hstores.cons, ?_⟩
          rw [length_cons, List.range'_succ, map_cons]
          rw [hstores.frame l.i (.inl (by omega)), hread]
          exact congrArg _ hreads
        · obtain ⟨l', hloop, hstores⟩ := hrest.2 (Option.map_eq_none_iff.mp h)
          exact ⟨l', hloop, hstores.cons⟩
    · have hzero : l.s.toNat = 0 := by omega
      rw [if_neg hs, hzero]
      refine ⟨fun prds h => ?_, fun h => by cases h⟩
      cases h
      exact ⟨l, rfl, StoresNext.refl l, rfl⟩

/-! ### How many descriptors a buffer needs -/

/-- A table divides `size` bytes at `b` into pieces, in the order of their addresses:
none is empty or crosses a multiple of 64 KB, and the last one alone is marked. -/
def Tiles : Nat → Nat → List Prd → Prop
  | _, _, [] => False
  | b, size, [p] =>
    p.address = b ∧ p.bytes = size ∧ b % 0x10000 + p.bytes ≤ 0x10000 ∧ p.last = true
  | b, size, p :: p' :: ps =>
    p.address = b ∧ p.bytes < size ∧ b % 0x10000 + p.bytes ≤ 0x10000 ∧ p.last = false ∧
      Tiles (b + p.bytes) (size - p.bytes) (p' :: ps)

/-- The windows of 64 KB that `s` bytes at `b` lie in. -/
def prdsNeeded (b s : Nat) : Nat := (b % 0x10000 + s + 0xFFFF) / 0x10000

theorem bytes_pieceOf {s b : Nat} (hs : 0 < s) : (pieceOf s b).bytes = pieceSize s b := by
  have hpos := pieceSize_pos (b := b) hs
  have hle : pieceSize s b ≤ 0x10000 := (Nat.min_le_right _ _).trans (Nat.sub_le _ _)
  rw [Prd.bytes, pieceOf]
  dsimp only
  split <;> omega

theorem length_of_tiles {table : List Prd} {b s : Nat} (h : Tiles b s table) :
    prdsNeeded b s ≤ table.length := by
  induction table generalizing b s with
  | nil => cases h
  | cons p ps ih =>
    cases ps with
    | nil =>
      obtain ⟨-, hsize, hwindow, -⟩ := h
      rw [prdsNeeded, length_singleton]
      omega
    | cons p' ps =>
      obtain ⟨-, hlt, hwindow, -, hrest⟩ := h
      have hle := ih hrest
      rw [prdsNeeded] at hle ⊢
      rw [length_cons]
      omega

theorem buildPrds_tiles {k s b : Nat} {prds : List Prd} (hs : 0 < s)
    (h : buildPrds k s b = some prds) : Tiles b s prds ∧ prds.length ≤ k := by
  induction k generalizing s b prds with
  | zero =>
    rw [buildPrds, if_pos hs] at h
    cases h
  | succ k ih =>
    rw [buildPrds_succ hs] at h
    obtain ⟨ps, hps, rfl⟩ := Option.map_eq_some_iff.mp h
    have hle : pieceSize s b ≤ s := Nat.min_le_left _ _
    -- a piece ends where its 64 KB block does
    have hwindow : b % 0x10000 + pieceSize s b ≤ 0x10000 := by
      rw [pieceSize]
      omega
    rcases Nat.eq_zero_or_pos (s - pieceSize s b) with hlast | hmore
    · rw [hlast, buildPrds_zero] at hps
      cases hps
      refine ⟨⟨rfl, ?_, ?_, decide_eq_true hlast⟩, by simp⟩
      · rw [bytes_pieceOf hs]
        omega
      · rw [bytes_pieceOf hs]
        exact hwindow
    · obtain ⟨htiles, hlen⟩ := ih hmore hps
      cases ps with
      | nil => cases htiles
      | cons p' ps =>
        have hflag : (pieceOf s b).last = false := decide_eq_false (by omega)
        refine ⟨⟨rfl, ?_, ?_, hflag, ?_⟩, by simpa using hlen⟩
        · rw [bytes_pieceOf hs]
          omega
        · rw [bytes_pieceOf hs]
          exact hwindow
        · rw [bytes_pieceOf hs]
          exact htiles

/-- The list is too long for `k` entries exactly when there are more windows. -/
theorem buildPrds_eq_none_iff {k s b : Nat} (hs : 0 < s) :
    buildPrds k s b = none ↔ k < prdsNeeded b s := by
  induction k generalizing s b with
  | zero =>
    rw [buildPrds, if_pos hs, prdsNeeded]
    simp only [true_iff]
    omega
  | succ k ih =>
    rw [buildPrds_succ hs, Option.map_eq_none_iff]
    rcases Nat.eq_zero_or_pos (s - pieceSize s b) with hlast | hmore
    · rw [hlast, buildPrds_zero, prdsNeeded]
      rw [pieceSize] at hlast
      simp only [reduceCtorEq, false_iff]
      omega
    · rw [ih hmore, prdsNeeded, prdsNeeded]
      rw [pieceSize] at hmore ⊢
      omega

/-! ### The function -/

theorem dmaReadTable_quiet {prds : Nat → RawPrd} {buf : Nat} {size : Int} {q : Quad}
    {rest : List Quad} {d : Drive} {r : Bool × PrdLoop} (haligned : buf % 4 = 0)
    (hquiet : q.1 &&& 1 = 0)
    (hloop : prdLoop (size.toNat + 1) ⟨0, size, buf % 2 ^ 31, prds, []⟩ = some r) :
    dmaReadTable prds buf size ⟨q :: rest, d⟩
      = (if r.1 then do
          let v ← dmaTransfer (readTable r.2.prds)
          pure (v, r.2)
        else pure (-1, r.2) : Ata (Int × PrdLoop)) ⟨rest, d.get .status q.1⟩ := by
  rw [dmaReadTable, if_neg (not_not.mpr haligned)]
  show (if q.1 &&& 1 ≠ 0 then _ else _ : Ata (Int × PrdLoop)) ⟨rest, d.get .status q.1⟩ = _
  rw [if_neg (not_not.mpr hquiet), hloop]
  obtain ⟨ok, l⟩ := r
  cases ok <;> rfl

theorem length_buildPrds {k s b : Nat} {prds : List Prd} (h : buildPrds k s b = some prds) :
    prds.length ≤ k := by
  rcases Nat.eq_zero_or_pos s with rfl | hs
  · rw [buildPrds_zero] at h
    cases h
    exact Nat.zero_le k
  · exact (buildPrds_tiles hs h).2

/-- The table with the new descriptors in front. -/
theorem readTable_of_stores {prds : Nat → RawPrd} {l l' : PrdLoop} {table : List Prd}
    (hi : l.i = 0) (hprds : l.prds = prds) (hlen : table.length ≤ maxPrds)
    (hstores : StoresNext l l' table.length)
    (hreads : (List.range' l.i table.length).map (fun j => (l'.prds j).read) = table) :
    readTable l'.prds = table ++ (readTable prds).drop table.length := by
  rw [hi, ← range_eq_range'] at hreads
  have hsplit : List.range maxPrds
      = List.range table.length ++ (List.range maxPrds).drop table.length := by
    conv_lhs => rw [← take_append_drop table.length (List.range maxPrds)]
    rw [take_range, Nat.min_eq_left hlen]
  rw [readTable, hsplit, map_append, hreads, readTable, ← map_drop]
  congr 1
  apply map_congr_left
  intro j hj
  have hbehind : table.length ≤ j := by
    obtain ⟨n, hn, hget⟩ := getElem_of_mem hj
    rw [getElem_drop, getElem_range] at hget
    omega
  rw [hstores.frame j (.inr (by omega)), hprds]

/-- **The function over memory refines** the one over lists. -/
theorem dmaReadTable_refines {prds : Nat → RawPrd} {dev : AtaDevice} {buf : Nat} {size : Int}
    (hdev : dev.prds = readTable prds) (hrange : buf % 2 ^ 31 + size.toNat < 2 ^ 32)
    (bus : Bus Quad Drive) :
    (dmaReadTable prds buf size bus).map (fun r => (r.1.1, r.2))
      = xenonAtaDmaRead dev buf size bus := by
  rw [dmaReadTable, xenonAtaDmaRead]
  split
  · rfl
  obtain ⟨answers, d⟩ := bus
  cases answers with
  | nil => rfl
  | cons q rest =>
    show Option.map _ ((if q.1 &&& 1 ≠ 0 then _ else _ : Ata (Int × PrdLoop))
      ⟨rest, d.get .status q.1⟩) = (if q.1 &&& 1 ≠ 0 then _ else _ : Ata Int)
      ⟨rest, d.get .status q.1⟩
    by_cases hq : q.1 &&& 1 = 0
    · obtain ⟨hlist, hfull⟩ := @prdLoop_refines ⟨0, size, buf % 2 ^ 31, prds, []⟩
        maxPrds (size.toNat + 1) (Nat.zero_add _) (.inl (by decide)) hrange
        (Nat.lt_succ_self _)
      rw [if_neg (not_not.mpr hq), if_neg (not_not.mpr hq)]
      rcases hbuild : buildPrds maxPrds size.toNat (buf % 2 ^ 31) with - | table
      · obtain ⟨l', hloop, -⟩ := hfull hbuild
        rw [hloop]
        rfl
      · obtain ⟨l', hloop, hstores, hreads⟩ := hlist table hbuild
        have hlen : table.length ≤ maxPrds := length_buildPrds hbuild
        have htable := readTable_of_stores rfl rfl hlen hstores hreads
        rw [hloop]
        show Option.map _ ((dmaTransfer (readTable l'.prds) _).bind fun r =>
          some ((r.1, l'), r.2)) = dmaTransfer (table ++ dev.prds.drop table.length) _
        rw [htable, hdev]
        cases dmaTransfer _ _ <;> rfl
    · -- the error register is returned
      rw [if_pos hq, if_pos hq]
      cases rest <;> rfl

/-- An empty table, and a drive that is quiet until the transfer has ended. -/
theorem dmaReadTable_sector :
    (dmaReadTable (fun _ => ⟨0, 0⟩) 0x10000 0x200 ⟨byteAnswers [0, 0, 0, 0], freshDrive⟩).map
        (fun r => (r.1.1, r.2))
      = xenonAtaDmaRead { geometry .lba48 with prds := readTable fun _ => ⟨0, 0⟩ } 0x10000 0x200
          ⟨byteAnswers [0, 0, 0, 0], freshDrive⟩ :=
  dmaReadTable_refines rfl (by decide) _

/-- **The table of a transfer.**  A buffer of at least one byte below 2^31 is divided
exactly, and the controller is started with that table; or every division needs more
than `MAX_PRDS` descriptors, and then the function returns -1 without telling the
controller anything.  In both cases entries of the table alone are stored. -/
theorem dmaRead_builds_table (prds : Nat → RawPrd) (buf : Nat) (size : Int) (q : Quad)
    (rest : List Quad) (d : Drive) (haligned : buf % 4 = 0) (hsize : 0 < size)
    (hrange : buf % 2 ^ 31 + size.toNat ≤ 2 ^ 31) (hquiet : q.1 &&& 1 = 0) :
    (∃ table l, Tiles (buf % 2 ^ 31) size.toNat table ∧ table.length ≤ maxPrds ∧
      l.written = List.range table.length ∧
      (List.range table.length).map (fun j => (l.prds j).read) = table ∧
      dmaReadTable prds buf size ⟨q :: rest, d⟩
        = (do
            let v ← dmaTransfer (readTable l.prds)
            pure (v, l) : Ata (Int × PrdLoop)) ⟨rest, d.heard false⟩) ∨
    ((∀ table, Tiles (buf % 2 ^ 31) size.toNat table → maxPrds < table.length) ∧
      ∃ l : PrdLoop, l.written = List.range maxPrds ∧
        dmaReadTable prds buf size ⟨q :: rest, d⟩ = some ((-1, l), ⟨rest, d.heard false⟩)) := by
  obtain ⟨l, hl⟩ : ∃ l : PrdLoop, l = ⟨0, size, buf % 2 ^ 31, prds, []⟩ := ⟨_, rfl⟩
  have hpos : 0 < size.toNat := by omega
  have hstatus : d.get .status q.1 = d.heard false := by
    rw [Drive.get, hquiet]
    rfl
  -- the loop of the code refines the list
  obtain ⟨hlist, hfull⟩ := @prdLoop_refines l maxPrds (size.toNat + 1)
    (by rw [hl, Nat.zero_add]) (.inl (by decide)) (by rw [hl]; dsimp only; omega)
    (by rw [hl]; dsimp only; omega)
  rw [hl] at hlist hfull
  rcases hbuild : buildPrds maxPrds size.toNat (buf % 2 ^ 31) with - | table
  · right
    obtain ⟨l', hloop, hstores⟩ := hfull hbuild
    refine ⟨fun table htiles => ?_, l', ?_, ?_⟩
    · exact ((buildPrds_eq_none_iff hpos).mp hbuild).trans_le (length_of_tiles htiles)
    · rw [hstores.written]
      rfl
    · rw [dmaReadTable_quiet haligned hquiet hloop, hstatus]
      rfl
  · left
    obtain ⟨htiles, hlen⟩ := buildPrds_tiles hpos hbuild
    obtain ⟨l', hloop, hstores, hreads⟩ := hlist table hbuild
    refine ⟨table, l', htiles, hlen, ?_, ?_, ?_⟩
    · rw [hstores.written, range_eq_range']
      rfl
    · rw [range_eq_range']
      exact hreads
    · rw [dmaReadTable_quiet haligned hquiet hloop, hstatus]
      rfl

/-- Eight bytes across a multiple of 64 KB. -/
theorem dmaRead_builds_table_across :
    ∃ (table : List Prd) (l : PrdLoop), Tiles 0xFFFC 8 table ∧ table.length ≤ maxPrds ∧
      l.written = List.range table.length ∧
      (List.range table.length).map (fun j => (l.prds j).read) = table := by
  rcases dmaRead_builds_table (fun _ => ⟨0, 0⟩) 0xFFFC 8 (0x40, 0, 0, 0) [] freshDrive
    (by decide) (by decide) (by decide) (by decide) with
      ⟨table, l, htiles, hlen, hwritten, hreads, -⟩ | ⟨hfull, -⟩
  · exact ⟨table, l, htiles, hlen, hwritten, hreads⟩
  · have htwo : Tiles 0xFFFC 8 [⟨0xFFFC, 4, false⟩, ⟨0x10000, 4, true⟩] := by
      simp [Tiles, Prd.bytes]
    exact absurd (hfull _ htwo) (by decide)

end LibXenon
