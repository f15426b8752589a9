/-
LibXenon/XenosTriangles.lean

Triangles that are put into a chain of vertex buffers and drawn by `Xe_Draw`.

`Xe_Draw` draws each buffer of a chain as a triangle list of its own, so a triangle that
begins in one buffer and ends in the next is lost.  How many vertices go into a buffer
depends on how large it is: a new one holds 1500, but one from the pool was made for
some other pitch.  Besides, the number of vertices is the upper half of the word that
starts a draw.

`triangles_whole_iff` says for which pools all is well.  After a batch of pitch 4 there is
a buffer in the pool that holds 2000 vertices of pitch 3, and a batch of 2001 of them
loses the last triangle (`pitch_three_splits`).
-/
import LibXenon.Pieces
import LibXenon.XenosVertexChunks
import Mathlib.Algebra.BigOperators.Ring.List
import Mathlib.Algebra.Ring.Nat

namespace LibXenon

open Pm4 Links SlotLists Pieces List

/-! ### Drawing -/

/-- `XE_PRIMTYPE_TRIANGLELIST`. -/
def primtypeTrianglelist : Word := 4

/-- `Xe_pDrawNonIndexed`. -/
def drawNonIndexed (numPoints : Int) (primtype : Word) : List Word :=
  [0xc0012201, 0x00000000, (0x00000080 : Word) ||| BitVec.ofInt 32 numPoints <<< 16 ||| primtype]

namespace VbDevice

/-- The loop of `Xe_Draw` without an index buffer: each stream source, and the packet that
starts the draw. -/
def xeDrawLoop (d : VbDevice) : Nat → Option Nat → Option (List (Nat × List Word))
  | 0, _ => none
  | _ + 1, none => some []
  | n + 1, some vb => (xeDrawLoop d n (d.links.next vb)).map
      ((vb, drawNonIndexed (d.buffer vb).vertices primtypeTrianglelist) :: ·)

/-- `Xe_Draw` without an index buffer, for buffers that are not locked.  It reads the lock
of the first buffer, so there has to be one. -/
def xeDraw (d : VbDevice) : Option Nat → Option (List (Nat × List Word))
  | none => none
  | some vb => d.xeDrawLoop (d.made + 1) (some vb)

/-- The triangles the GPU reads from a stream source of this pitch, for a draw of a
triangle list. -/
def drawn (d : VbDevice) (pitch : Nat) : Nat × List Word → List (List Word)
  | (vb, [_, _, word]) =>
    groups (3 * pitch) (slice (d.buffer vb).memory 0 (pitch * (word >>> 16).toNat))
  | _ => []

end VbDevice

/-- Each buffer of the chain but the last holds whole triangles, and what `Xe_Draw` draws are
the triangles of the words that were put. -/
structure TrianglesWhole (d : VbDevice) (pitch : Nat) (res : Option Nat) (chain : List Nat)
    (words : List Word) : Prop where
  thirds : ∀ vb ∈ chain.dropLast, 3 ∣ (d.buffer vb).vertices
  drawn : chain ≠ [] → ∃ draws, d.xeDraw res = some draws ∧
    draws.flatMap (d.drawn pitch) = groups (3 * pitch) words

/-- How many vertices of this pitch the buffers of the pool hold that a batch can take. -/
def VbDevice.poolCapacities (d : VbDevice) (l : VbRoot → List Nat) (pitch : Nat) : List Nat :=
  (d.fitting l pitch).map fun space => space / 4 / pitch

/-! ### How a batch is spread -/

section Spread

variable {fits : List Nat} {xe : XenosDevice} {words : List Word}

theorem length_words (h : Packed fits xe words) :
    words.length = xe.vbCurrentPitch * (xe.vbChain.map XenosVertexBuffer.vertices).sum := by
  have hlengths : (xe.vbChain.map fun vb => vb.contents.length)
      = xe.vbChain.map fun vb => xe.vbCurrentPitch * vb.vertices :=
    map_congr_left fun vb hvb => (h.whole vb hvb).vertices
  rw [← h.contents, length_flatMap, hlengths, sum_map_mul_left]

/-- The chain takes the vertices as containers do: those of the pool first, then new ones of
1500 vertices. -/
theorem packed_spread (h : Packed fits xe words) (hbegun : Begun xe) :
    ∃ k, words.length / xe.vbCurrentPitch ≤ k ∧
      xe.vbChain.map XenosVertexBuffer.vertices
        = spread ((fits.map fun space => space / 4 / xe.vbCurrentPitch) ++ List.replicate k 1500)
          (words.length / xe.vbCurrentPitch) := by
  have hcount : words.length / xe.vbCurrentPitch
      = (xe.vbChain.map XenosVertexBuffer.vertices).sum := by
    rw [length_words h]
    exact Nat.mul_div_cancel_left _ h.pitch
  rw [hcount]
  obtain hnil | ⟨init, last, hchain⟩ := eq_nil_or_concat' xe.vbChain
  · rw [hnil]
    exact ⟨0, Nat.le_refl 0, (spread_zero _).symm⟩
  · have hlast := h.whole last (by rw [hchain]; exact mem_concat_self)
    have hpos : 0 < last.vertices := hbegun last (by rw [hchain, List.getLast?_concat])
    -- all buffers but the last are full
    have hinit : init.map XenosVertexBuffer.vertices
        = init.map fun vb => vb.capacity xe.vbCurrentPitch := by
      have hfull := h.full
      rw [hchain, dropLast_concat] at hfull
      exact map_congr_left hfull
    -- a buffer that is made has room for 1500 vertices, whatever the pitch
    have hnew : 2000 * 3 * xe.vbCurrentPitch / 4 / xe.vbCurrentPitch = 1500 := by
      have hpitch := h.pitch
      rw [Nat.div_div_eq_div_mul, Nat.mul_comm 4, Nat.mul_comm (2000 * 3),
        Nat.mul_div_mul_left _ _ hpitch]
    obtain ⟨k, horder, -⟩ := h.order
    have hcaps : (init.map fun vb => vb.capacity xe.vbCurrentPitch) ++
          last.capacity xe.vbCurrentPitch ::
            xe.fitting.map (fun space => space / 4 / xe.vbCurrentPitch)
        = (fits.map fun space => space / 4 / xe.vbCurrentPitch) ++ List.replicate k 1500 := by
      have hmap := congrArg (List.map fun space => space / 4 / xe.vbCurrentPitch) horder
      simp only [hchain, map_append, map_map, map_cons, map_nil,
        map_replicate, hnew, append_assoc, cons_append, nil_append] at hmap
      exact hmap
    refine ⟨k + (xe.vbChain.map XenosVertexBuffer.vertices).sum, Nat.le_add_left _ _, ?_⟩
    rw [replicate_add, ← append_assoc, ← hcaps, append_assoc, cons_append,
      hchain, map_append, sum_append, hinit, map_singleton, sum_singleton,
      spread_full hpos (hlast.vertices_le h.pitch)]

end Spread

/-! ### What is drawn -/

section Drawn

variable {alloc : Nat → Int → Option Word} {fits : List Nat} {p : Nat} {d d' : VbDevice}
  {l : VbRoot → List Nat} {words : List Word} {res : Option Nat} {chain : List Nat}

theorem drawn_eq (d : VbDevice) (pitch vb : Nat) (hv : 0 ≤ (d.buffer vb).vertices) :
    d.drawn pitch (vb, drawNonIndexed (d.buffer vb).vertices primtypeTrianglelist)
      = groups (3 * pitch) (slice (d.buffer vb).memory 0
          (pitch * ((d.buffer vb).vertices.toNat % 65536))) := by
  obtain ⟨v, hv⟩ := Int.eq_ofNat_of_zero_le hv
  have hword : (((0x00000080 : Word) ||| BitVec.ofInt 32 (d.buffer vb).vertices <<< 16 |||
      primtypeTrianglelist) >>> 16).toNat = (d.buffer vb).vertices.toNat % 65536 := by
    rw [hv, primtypeTrianglelist, BitVec.ushiftRight_or_distrib, BitVec.ushiftRight_or_distrib,
      BitVec.ofInt_natCast, Int.toNat_natCast]
    have hlow : (0x00000080 : Word) >>> 16 = 0#32 := rfl
    have htype : (4 : Word) >>> 16 = 0#32 := rfl
    rw [hlow, htype, BitVec.zero_or, BitVec.or_zero, BitVec.toNat_ushiftRight,
      BitVec.toNat_shiftLeft, BitVec.toNat_ofNat, Nat.shiftLeft_eq, Nat.shiftRight_eq_div_pow]
    omega
  rw [drawNonIndexed, VbDevice.drawn, hword]

theorem xeDrawLoop_eq {n : Nat} {ptr : Option Nat} (h : Forward d.links.next ptr chain)
    (hn : chain.length < n) :
    d.xeDrawLoop n ptr = some (chain.map fun vb =>
      (vb, drawNonIndexed (d.buffer vb).vertices primtypeTrianglelist)) := by
  induction chain generalizing ptr n with
  | nil =>
    obtain ⟨n, rfl⟩ := Nat.exists_eq_add_of_lt hn
    rw [show ptr = none from h]
    rfl
  | cons vb chain ih =>
    obtain ⟨n, rfl⟩ := Nat.exists_eq_add_of_lt hn
    have hlen : chain.length < (vb :: chain).length + n := by
      rw [length_cons]
      omega
    rw [h.1, VbDevice.xeDrawLoop, ih h.2 hlen]
    rfl

theorem BatchDone.xeDraw_eq (h : BatchDone fits p words res d chain) (hne : chain ≠ []) :
    d.xeDraw res = some (chain.map fun vb =>
      (vb, drawNonIndexed (d.buffer vb).vertices primtypeTrianglelist)) := by
  have hspans := h.spans
  cases chain with
  | nil => exact absurd rfl hne
  | cons vb chain =>
    have hloop := xeDrawLoop_eq h.spans h.made
    rw [hspans.1] at hloop ⊢
    exact hloop

/-- The numbers of vertices in the buffers of a chain. -/
def VbDevice.counts (d : VbDevice) (chain : List Nat) : List Nat :=
  chain.map fun vb => (d.buffer vb).vertices.toNat

section

variable (h : BatchDone fits p words res d chain)
include h

theorem BatchDone.counts_eq :
    ∃ k, words.length / p ≤ k ∧ d.counts chain
      = spread ((fits.map fun space => space / 4 / p) ++ List.replicate k 1500)
        (words.length / p) := by
  obtain ⟨y, rfl, hpacked, hbegun, hchain⟩ := h.listed
  obtain ⟨k, hk, hspread⟩ := packed_spread hpacked hbegun
  refine ⟨k, hk, ?_⟩
  rw [← hspread, hchain, map_map]
  rfl

theorem BatchDone.lawful_iff :
    Lawful 3 65536 (d.counts chain) ↔
      Suits 3 65536 (fits.map fun space => space / 4 / p) (words.length / p) := by
  obtain ⟨k, hk, hcounts⟩ := h.counts_eq
  rw [hcounts]
  exact spread_lawful_iff (by decide) (by decide) (by omega) _

theorem BatchDone.length_contents {vb : Nat} (hvb : vb ∈ chain) :
    ((d.buffer vb).size / 4).toNat = p * (d.buffer vb).vertices.toNat := by
  obtain ⟨hvertices, -, -, hsize⟩ := h.bounds vb hvb
  obtain ⟨v, hv⟩ := Int.eq_ofNat_of_zero_le hvertices
  rw [hsize, hv, Int.mul_ediv_cancel_left _ (by decide), ← Int.natCast_mul, Int.toNat_natCast,
    Int.toNat_natCast]

theorem BatchDone.drawn_eq :
    (chain.map fun vb =>
        (vb, drawNonIndexed (d.buffer vb).vertices primtypeTrianglelist)).flatMap (d.drawn p)
      = chain.flatMap fun vb => groups (3 * p) (slice (d.buffer vb).memory 0
          (p * ((d.buffer vb).vertices.toNat % 65536))) := by
  rw [flatMap_map]
  exact flatMap_congr fun vb hvb => LibXenon.drawn_eq d p vb (h.bounds vb hvb).1

theorem BatchDone.groups_words (hp : 0 < p)
    (hthirds : ∀ vb ∈ chain.dropLast, 3 ∣ (d.buffer vb).vertices.toNat) :
    groups (3 * p) words = chain.flatMap fun vb => groups (3 * p) (slice (d.buffer vb).memory 0
      (p * (d.buffer vb).vertices.toNat)) := by
  have hcontents : chain.flatMap d.contents = chain.flatMap fun vb =>
      slice (d.buffer vb).memory 0 (p * (d.buffer vb).vertices.toNat) := by
    refine flatMap_congr fun vb hvb => ?_
    rw [VbDevice.contents, h.length_contents hvb]
  rw [← h.contents, hcontents, flatMap_def, groups_flatten (by omega), flatMap_map]
  intro ws hws
  rw [← map_dropLast] at hws
  obtain ⟨vb, hvb, rfl⟩ := mem_map.mp hws
  rw [length_slice, Nat.mul_comm 3]
  exact Nat.mul_dvd_mul_left p (hthirds vb hvb)

theorem BatchDone.drawn_iff (hp : 0 < p)
    (hthirds : ∀ vb ∈ chain.dropLast, 3 ∣ (d.buffer vb).vertices.toNat) :
    (chain.flatMap fun vb => groups (3 * p) (slice (d.buffer vb).memory 0
        (p * ((d.buffer vb).vertices.toNat % 65536)))) = groups (3 * p) words ↔
      ∀ vb ∈ chain, (d.buffer vb).vertices.toNat < 65536 := by
  rw [h.groups_words hp hthirds]
  constructor
  · intro heq
    -- fewer vertices are drawn from a buffer, so there are fewer triangles
    have hlen := congrArg List.length heq
    have hthird (v : Nat) : p * v / (3 * p) = v / 3 := by
      rw [Nat.mul_comm p, Nat.mul_div_mul_right _ _ hp]
    simp only [length_flatMap, length_groups, length_slice, hthird] at hlen
    intro vb hvb
    have hsame := eq_of_sum_eq (fun b _ => Nat.div_le_div_right (Nat.mod_le _ _)) hlen vb hvb
    omega
  · intro hlt
    refine flatMap_congr fun vb hvb => ?_
    rw [Nat.mod_eq_of_lt (hlt vb hvb)]

theorem BatchDone.thirds_iff :
    (∀ vb ∈ chain.dropLast, 3 ∣ (d.buffer vb).vertices) ↔
      ∀ vb ∈ chain.dropLast, 3 ∣ (d.buffer vb).vertices.toNat := by
  refine forall₂_congr fun vb hvb => ?_
  have hvertices := (h.bounds vb (mem_of_mem_dropLast hvb)).1
  omega

theorem BatchDone.trianglesWhole_iff (hp : 0 < p) :
    TrianglesWhole d p res chain words ↔ Lawful 3 65536 (d.counts chain) := by
  rw [Lawful, VbDevice.counts, ← map_dropLast, forall_mem_map, forall_mem_map]
  constructor
  · rintro ⟨hthirds, hdrawn⟩
    rw [h.thirds_iff] at hthirds
    refine ⟨hthirds, fun vb hvb => ?_⟩
    obtain ⟨draws, hdraws, heq⟩ := hdrawn (ne_nil_of_mem hvb)
    rw [h.xeDraw_eq (ne_nil_of_mem hvb)] at hdraws
    cases hdraws
    rw [h.drawn_eq] at heq
    exact (h.drawn_iff hp hthirds).mp heq vb hvb
  · rintro ⟨hthirds, hlt⟩
    refine ⟨h.thirds_iff.mpr hthirds, fun hne => ⟨_, h.xeDraw_eq hne, ?_⟩⟩
    rw [h.drawn_eq]
    exact (h.drawn_iff hp hthirds).mpr hlt

end

/-- **Triangles.**  The chain of a batch of whole triangles is drawn as it was put, with no
triangle split between two buffers, if and only if the buffers of the pool suit it: each
that is filled before the last vertex holds a number of vertices divisible by three, and
none gets 65536 vertices. -/
theorem triangles_whole_iff (alloc : Nat → Int → Option Word) (pitch : Int)
    (puts : List (List Word)) (rounds : Nat) (h : VbOwned d l) (hidle : l .vbHead = [])
    (hpitch : 1 ≤ pitch) (hputs : ∀ data ∈ puts, 3 * pitch ∣ data.length)
    (hrun : d.vbBatch alloc rounds pitch puts = .done (res, d')) :
    ∃ chain, Forward d'.links.next res chain ∧
      (TrianglesWhole d' pitch.toNat res chain puts.flatten ↔
        Suits 3 65536 (d.poolCapacities l pitch.toNat) (puts.flatten.length / pitch.toNat)) := by
  obtain ⟨p, rfl⟩ := Int.eq_ofNat_of_zero_le (Int.le_trans (by decide) hpitch)
  have hp : 0 < p := Int.ofNat_lt.mp hpitch
  have hbatch := vbBatch_progress alloc rounds h hidle hp
    fun data hdata => Int.ofNat_dvd.mp (Int.dvd_trans (Int.dvd_mul_left 3 p) (hputs data hdata))
  rw [hrun] at hbatch
  obtain ⟨chain, hdone⟩ := hbatch
  exact ⟨chain, hdone.spans, (hdone.trianglesWhole_iff hp).trans hdone.lawful_iff⟩

theorem vbBatch_returns (p rounds : Nat) (puts : List (List Word)) (h : VbOwned d l)
    (hidle : l .vbHead = []) (hp : 0 < p) (hputs : ∀ data ∈ puts, p ∣ data.length)
    (hint : isInt (2000 * 3 * p)) (halloc : ∀ k, alloc k (2000 * 3 * p) ≠ none)
    (hrounds : ∀ data ∈ puts, 2 * data.length < rounds) :
    ∃ res d' chain, d.vbBatch alloc rounds p puts = .done (res, d') ∧
      BatchDone (d.fitting l p) p puts.flatten res d' chain := by
  have hbatch := vbBatch_progress alloc rounds h hidle hp hputs
  generalize d.vbBatch alloc rounds p puts = o at hbatch ⊢
  cases o with
  | running =>
    obtain ⟨data, hdata, hle⟩ := hbatch
    exact absurd hle (Nat.not_le_of_lt (hrounds data hdata))
  | stopped =>
    obtain ⟨k, hk⟩ := hbatch hint
    exact absurd hk (halloc k)
  | done r =>
    obtain ⟨chain, hdone⟩ := hbatch
    exact ⟨r.1, r.2, chain, rfl, hdone⟩

theorem pageAlloc_ne_none (k : Nat) (size : Int) : pageAlloc k size ≠ none := nofun

/-- A batch of one triangle of pitch 4, whose buffer goes back to the pool. -/
def pitchFour : List VbAction :=
  [.vbBegin 4, .vbPut (List.replicate 12 0), .round, .round, .round, .vbEnd 0, .vbPoolAdd 0,
    .sync]

theorem pitchFour_leaves :
    ∃ s l, Transition.Reach (vbStep pageAlloc) (fun _ _ => True) (.init fun _ => noBuffer) s ∧
      VbOwned s.device l ∧ l .vbHead = [] ∧ s.device.fitting l 3 = [24000] ∧
      s.device.fitting l 4 = [24000] := by
  obtain ⟨s, hs, hhead, hpool, hnext, hspace⟩ :
      ∃ s, Transition.Reach (vbStep pageAlloc) (fun _ _ => True) (.init fun _ => noBuffer) s ∧
      s.device.links.root .vbHead = none ∧ s.device.links.root .vbPool = some 0 ∧
      s.device.links.next 0 = none ∧ (s.device.buffer 0).space = 24000 :=
    Transition.exists_reach pitchFour (by decide +kernel)
  obtain ⟨l, hl⟩ := reach_good hs
  refine ⟨s, l, hs, hl.owned, ?_, ?_⟩
  · have hroot := root_eq_head hl.owned .vbHead
    rw [hhead] at hroot
    exact List.head?_eq_none_iff.mp hroot.symm
  · have hlist : l .vbPool = [0] := by
      have hone : Forward s.device.links.next (s.device.links.root .vbPool) [0] := ⟨hpool, hnext⟩
      exact (hl.owned.owns.spans .vbPool).unique hone
    rw [VbDevice.fitting, VbDevice.fitting, hlist, map_singleton, hspace]
    exact ⟨rfl, rfl⟩

/-- 500 triangles of pitch 4 fill the buffer that a batch of this pitch has left, and
another one goes into a new buffer. -/
theorem pitch_four_whole :
    ∃ s, Transition.Reach (vbStep pageAlloc) (fun _ _ => True) (.init fun _ => noBuffer) s ∧
      ∃ res d' chain,
        s.device.vbBatch pageAlloc 12001 4 [List.replicate 6000 7, List.replicate 12 8]
          = .done (res, d') ∧
        Forward d'.links.next res chain ∧
        TrianglesWhole d' 4 res chain (List.replicate 6000 7 ++ List.replicate 12 8) := by
  obtain ⟨s, l, hs, howned, hidle, -, hfitting⟩ := pitchFour_leaves
  have hputs {P : Nat → Prop} (hlong : P 6000) (hshort : P 12) : ∀ data ∈
      ([List.replicate 6000 7, List.replicate 12 8] : List (List Word)), P data.length := by
    rw [forall_mem_cons, forall_mem_singleton, length_replicate,
      length_replicate]
    exact ⟨hlong, hshort⟩
  obtain ⟨res, d', -, hrun, -⟩ := vbBatch_returns 4 12001 _ howned hidle (by decide)
    (hputs (by decide) (by decide)) (by decide) (pageAlloc_ne_none · _)
    (hputs (P := fun k => 2 * k < 12001) (by decide) (by decide))
  obtain ⟨chain, hchain, hiff⟩ := triangles_whole_iff pageAlloc 4 _ 12001 howned hidle (by decide)
    (hputs (P := fun k => (3 * 4 : Int) ∣ k) (by decide) (by decide)) hrun
  refine ⟨s, hs, res, d', chain, hrun, hchain, hiff.mpr ?_⟩
  have hcapacity : s.device.poolCapacities l 4 = [1500] := by
    rw [VbDevice.poolCapacities, hfitting]
    rfl
  change Suits 3 65536 (s.device.poolCapacities l 4) _
  rw [hcapacity, suits_cons]
  exact ⟨⟨fun _ => by decide, by omega⟩, fun before c after h => absurd h (by simp)⟩

/-- Of 667 triangles of pitch 3 that are put after a batch of pitch 4, the last is split
between two buffers and is not drawn. -/
theorem pitch_three_splits :
    ∃ s, Transition.Reach (vbStep pageAlloc) (fun _ _ => True) (.init fun _ => noBuffer) s ∧
      ∃ res d' a b draws,
        s.device.vbBatch pageAlloc 12007 3 [List.replicate 6003 0] = .done (res, d') ∧
        Forward d'.links.next res [a, b] ∧
        (d'.buffer a).vertices = 2000 ∧ (d'.buffer b).vertices = 1 ∧
        d'.xeDraw res = some draws ∧ (draws.flatMap (d'.drawn 3)).length = 666 := by
  obtain ⟨s, l, hs, howned, hidle, hfitting, -⟩ := pitchFour_leaves
  have hput : ([List.replicate 6003 0] : List (List Word)).flatten.length / 3 = 2001 := by
    rw [flatten_singleton, length_replicate]
  have hwhole : ∀ data ∈ ([List.replicate 6003 0] : List (List Word)), 3 ∣ data.length := by
    rw [forall_mem_singleton, length_replicate]
    decide
  have hrounds : ∀ data ∈ ([List.replicate 6003 0] : List (List Word)),
      2 * data.length < 12007 := by
    rw [forall_mem_singleton, length_replicate]
    decide
  obtain ⟨res, d', chain, hrun, hdone⟩ := vbBatch_returns 3 12007 _ howned hidle (by decide)
    hwhole (by decide) (pageAlloc_ne_none · _) hrounds
  -- the buffer in the pool holds 2000 vertices, so the last one goes into another
  have hcounts : d'.counts chain = [2000, 1] := by
    obtain ⟨k, hk, hspread⟩ := hdone.counts_eq
    rw [hput] at hk hspread
    obtain ⟨k, rfl⟩ := Nat.exists_eq_add_of_lt hk
    rw [hspread, hfitting]
    rfl
  obtain ⟨a, rest, rfl, ha, hrest⟩ := map_eq_cons_iff.mp hcounts
  obtain ⟨b, rest, rfl, hb, hnil⟩ := map_eq_cons_iff.mp hrest
  obtain rfl := map_eq_nil_iff.mp hnil
  have hsigna := (hdone.bounds a (by simp)).1
  have hsignb := (hdone.bounds b (by simp)).1
  refine ⟨s, hs, res, d', a, b, _, hrun, hdone.spans, by omega, by omega,
    hdone.xeDraw_eq (cons_ne_nil _ _), ?_⟩
  rw [hdone.drawn_eq, flatMap_cons, flatMap_singleton, length_append,
    length_groups, length_groups, length_slice, length_slice, ha, hb]

end Drawn

end LibXenon
