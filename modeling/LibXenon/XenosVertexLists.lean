/-
LibXenon/XenosVertexLists.lean

What the rounds of `Xe_VBPut` do to a chain, for the chains and pools of XenosVertices.

`Packed` is what a round keeps: the chain holds what was put, in whole vertices, and each
buffer was full before the next one was begun; the buffers are those of the pool that
are large enough, in their order, and then new ones.  `packed_extend` is the round that
takes another buffer, `packed_fill` the one that fills the last.
-/
import LibXenon.XenosVertices

namespace LibXenon

open Pm4 List

/-! ### Chains -/

/-- How many vertices there is room for. -/
def XenosVertexBuffer.capacity (vb : XenosVertexBuffer) (pitch : Nat) : Nat :=
  vb.space / 4 / pitch

/-- The buffer holds whole vertices, within its space. -/
structure XenosVertexBuffer.Whole (vb : XenosVertexBuffer) (pitch : Nat) : Prop where
  size : vb.size = 4 * vb.contents.length
  vertices : vb.contents.length = pitch * vb.vertices
  space : vb.size ≤ vb.space
  large : 2000 * 3 * pitch ≤ vb.space

/-- The spaces of the buffers of the pool that are large enough. -/
def XenosDevice.fitting (xe : XenosDevice) : List Nat :=
  (xe.vbPool.map XenosVertexBuffer.space).filter (2000 * 3 * xe.vbCurrentPitch ≤ ·)

/-- The chain took the buffers that were large enough, whose spaces were `fits`, in their
order, and then new ones. -/
def TookInOrder (fits : List Nat) (xe : XenosDevice) : Prop :=
  ∃ k, xe.vbChain.map XenosVertexBuffer.space ++ xe.fitting
      = fits ++ List.replicate k (2000 * 3 * xe.vbCurrentPitch) ∧ (xe.fitting ≠ [] → k = 0)

/-- The chain holds `words`, and each buffer but the last is full. -/
structure Packed (fits : List Nat) (xe : XenosDevice) (words : List Word) : Prop where
  pitch : 0 < xe.vbCurrentPitch
  contents : xe.vbChain.flatMap XenosVertexBuffer.contents = words
  whole : ∀ vb ∈ xe.vbChain, vb.Whole xe.vbCurrentPitch
  full : ∀ vb ∈ xe.vbChain.dropLast, vb.vertices = vb.capacity xe.vbCurrentPitch
  order : TookInOrder fits xe

section Lists

variable {alloc : Nat → Nat → Option Word} {xe y : XenosDevice} {vb : XenosVertexBuffer}
  {chain pool pool' : List XenosVertexBuffer} {fits : List Nat} {words data : List Word}
  {pitch size len n : Nat}

theorem firstFit_append (hbefore : ∀ b ∈ pool, b.space < size) (hfit : size ≤ vb.space) :
    firstFit size (pool ++ vb :: pool') = some (vb, pool ++ pool') := by
  induction pool with
  | nil => exact if_pos hfit
  | cons b pool ih =>
    rw [forall_mem_cons] at hbefore
    rw [cons_append, firstFit, if_neg (Nat.not_le_of_lt hbefore.1), ih hbefore.2]
    rfl

theorem firstFit_eq_none (hsmall : ∀ b ∈ pool, b.space < size) : firstFit size pool = none := by
  induction pool with
  | nil => rfl
  | cons b pool ih =>
    rw [forall_mem_cons] at hsmall
    rw [firstFit, if_neg (Nat.not_le_of_lt hsmall.1), ih hsmall.2]
    rfl

theorem filter_firstFit (size : Nat) (pool : List XenosVertexBuffer) :
    (pool.map XenosVertexBuffer.space).filter (size ≤ ·) =
      match firstFit size pool with
      | some r => r.1.space :: (r.2.map XenosVertexBuffer.space).filter (size ≤ ·)
      | none => [] := by
  induction pool with
  | nil => rfl
  | cons b pool ih =>
    rw [map_cons, firstFit]
    by_cases hfit : size ≤ b.space
    · rw [filter_cons, if_pos (decide_eq_true hfit), if_pos hfit]
    · rw [filter_cons_of_neg (by simpa using hfit), if_neg hfit, ih]
      cases firstFit size pool with
      | none => rfl
      | some r =>
        dsimp only [Option.map_some]
        rw [map_cons, filter_cons_of_neg (by simpa using hfit)]

/-! ### Room in a buffer -/

theorem XenosVertexBuffer.Whole.vertices_le (h : vb.Whole pitch) (hpitch : 0 < pitch) :
    vb.vertices ≤ vb.capacity pitch := by
  have hsize := h.size
  have hspace := h.space
  rw [h.vertices] at hsize
  rw [XenosVertexBuffer.capacity, Nat.le_div_iff_mul_le hpitch, Nat.mul_comm]
  omega

theorem XenosVertexBuffer.Whole.capacity_pos (h : vb.Whole pitch) (hpitch : 0 < pitch) :
    0 < vb.capacity pitch := by
  have hlarge := h.large
  rw [XenosVertexBuffer.capacity, Nat.div_pos_iff]
  omega

theorem vbRemaining_whole (h : vb.Whole xe.vbCurrentPitch)
    (hlast : xe.vbChain.getLast? = some vb) :
    xe.vbRemaining len
      = min (xe.vbCurrentPitch * (vb.capacity xe.vbCurrentPitch - vb.vertices)) len := by
  have hroom : (vb.space - vb.size) / 4
      = vb.space / 4 - xe.vbCurrentPitch * vb.vertices := by
    rw [h.size, h.vertices]
    omega
  have hwhole (a : Nat) :
      a - a % xe.vbCurrentPitch = xe.vbCurrentPitch * (a / xe.vbCurrentPitch) := by
    have hdiv := Nat.div_add_mod a xe.vbCurrentPitch
    omega
  rw [XenosDevice.vbRemaining, hlast]
  dsimp only
  rw [hroom, hwhole, Nat.sub_mul_div]
  rfl

theorem XenosVertexBuffer.Whole.put (h : vb.Whole pitch) (hpitch : 0 < pitch)
    (hn : n ≤ vb.capacity pitch - vb.vertices) (hdata : data.length = pitch * n) :
    (vb.put pitch data).Whole pitch ∧ (vb.put pitch data).vertices = vb.vertices + n := by
  have hquot : data.length / pitch = n := by
    rw [hdata]
    exact Nat.mul_div_cancel_left n hpitch
  have hle := h.vertices_le hpitch
  have hroom : pitch * (vb.vertices + n) ≤ vb.space / 4 := by
    rw [Nat.mul_comm, ← Nat.le_div_iff_mul_le hpitch]
    exact Nat.add_le_of_le_sub' hle hn
  have hsize := h.size
  have hvertices := h.vertices
  rw [Nat.mul_add, ← hvertices, ← hdata] at hroom
  refine ⟨⟨?_, ?_, ?_, h.large⟩, congrArg (vb.vertices + ·) hquot⟩
  · rw [XenosVertexBuffer.put]
    dsimp only
    rw [length_append]
    omega
  · rw [XenosVertexBuffer.put]
    dsimp only
    rw [length_append, hquot, Nat.mul_add, hvertices, hdata]
  · rw [XenosVertexBuffer.put]
    dsimp only
    omega

/-! ### Rounds -/

/-- A buffer from the pool is the first that is large enough, a new one is as large as
asked for; both are empty. -/
theorem vbPoolAlloc_effect (h : xe.vbPoolAlloc alloc size = some (vb, y)) :
    (size ≤ vb.space ∧ vb.size = 0 ∧ vb.vertices = 0 ∧ vb.contents = []) ∧
    (y.vbCurrentPitch = xe.vbCurrentPitch) ∧
    ((xe.vbPool.map XenosVertexBuffer.space).filter (size ≤ ·)
        = vb.space :: (y.vbPool.map XenosVertexBuffer.space).filter (size ≤ ·) ∨
      (xe.vbPool.map XenosVertexBuffer.space).filter (size ≤ ·) = [] ∧
        y.vbPool = xe.vbPool ∧ vb.space = size) := by
  have hfilter := filter_firstFit size xe.vbPool
  rw [XenosDevice.vbPoolAlloc] at h
  rcases hfit : firstFit size xe.vbPool with - | ⟨b, pool⟩
  · rw [hfit] at h hfilter
    obtain ⟨phys, -, heq⟩ := Option.map_eq_some_iff.mp h
    cases heq
    exact ⟨⟨Nat.le_refl size, rfl, rfl, rfl⟩, rfl, .inr ⟨hfilter, rfl, rfl⟩⟩
  · rw [hfit] at h hfilter
    cases h
    exact ⟨⟨firstFit_space hfit, rfl, rfl, rfl⟩, rfl, .inl hfilter⟩

theorem full_of_vbRemaining (h : Packed fits xe words) (hlen : 0 < len)
    (hrem : xe.vbRemaining len = 0) :
    ∀ vb ∈ xe.vbChain, vb.vertices = vb.capacity xe.vbCurrentPitch := by
  obtain hnil | ⟨init, last, hchain⟩ := eq_nil_or_concat' xe.vbChain
  · rw [hnil]
    exact fun vb hvb => (nomatch hvb)
  · have hfull := h.full
    have hlast := h.whole last (hchain ▸ mem_concat_self)
    rw [vbRemaining_whole hlast (by rw [hchain, List.getLast?_concat])] at hrem
    rw [hchain, dropLast_concat] at hfull
    rw [hchain]
    intro vb hvb
    obtain hvb | hvb := mem_append.mp hvb
    · exact hfull vb hvb
    · rw [mem_singleton] at hvb
      subst hvb
      have hroom : xe.vbCurrentPitch * (vb.capacity xe.vbCurrentPitch - vb.vertices) = 0 := by
        omega
      have hle := hlast.vertices_le h.pitch
      have hzero := (Nat.mul_eq_zero.mp hroom).resolve_left (Nat.ne_of_gt h.pitch)
      omega

theorem tookInOrder_extend (h : TookInOrder fits xe)
    (halloc : xe.vbPoolAlloc alloc (2000 * 3 * xe.vbCurrentPitch) = some (vb, y)) :
    TookInOrder fits { y with vbChain := xe.vbChain ++ [vb] } := by
  obtain ⟨-, hpitch, hpool⟩ := vbPoolAlloc_effect halloc
  obtain ⟨k, horder, hk⟩ := h
  rw [XenosDevice.fitting] at horder hk
  rw [TookInOrder, XenosDevice.fitting]
  rw [hpitch, map_append]
  obtain hpool | ⟨hnone, hsame, hnew⟩ := hpool
  · -- the first of those that are large enough goes over to the chain
    rw [hpool] at horder hk
    refine ⟨k, ?_, fun _ => hk (cons_ne_nil _ _)⟩
    rw [append_assoc]
    exact horder
  · rw [hnone, append_nil] at horder
    refine ⟨k + 1, ?_, fun hne => absurd hnone (hsame ▸ hne)⟩
    rw [hsame, hnone, append_nil, horder, replicate_succ', append_assoc,
      map_singleton, hnew]

theorem packed_extend (h : Packed fits xe words) (hlen : 0 < len)
    (hrem : xe.vbRemaining len = 0)
    (halloc : xe.vbPoolAlloc alloc (2000 * 3 * xe.vbCurrentPitch) = some (vb, y)) :
    Packed fits { y with vbChain := xe.vbChain ++ [vb] } words ∧
      XenosDevice.vbRemaining { y with vbChain := xe.vbChain ++ [vb] } len ≠ 0 := by
  obtain ⟨⟨hspace, hsize, hvertices, hcontents⟩, hpitch, -⟩ := vbPoolAlloc_effect halloc
  have hwhole : vb.Whole xe.vbCurrentPitch := by
    refine ⟨?_, ?_, ?_, hspace⟩
    · rw [hsize, hcontents]
      rfl
    · rw [hcontents, hvertices]
      rfl
    · rw [hsize]
      exact Nat.zero_le _
  constructor
  · refine ⟨?_, ?_, ?_, ?_, tookInOrder_extend h.order halloc⟩
    · dsimp only
      rw [hpitch]
      exact h.pitch
    · rw [flatMap_append, h.contents, flatMap_singleton, hcontents, append_nil]
    · dsimp only
      rw [hpitch, forall_mem_append, forall_mem_singleton]
      exact ⟨h.whole, hwhole⟩
    · dsimp only
      rw [dropLast_concat, hpitch]
      exact full_of_vbRemaining h hlen hrem
  · have hlast : XenosDevice.vbRemaining { y with vbChain := xe.vbChain ++ [vb] } len
        = min (y.vbCurrentPitch * (vb.capacity y.vbCurrentPitch - vb.vertices)) len :=
      vbRemaining_whole (hpitch ▸ hwhole) List.getLast?_concat
    have hpos := Nat.mul_pos h.pitch (hwhole.capacity_pos h.pitch)
    rw [hlast, hpitch, hvertices, Nat.sub_zero]
    omega

theorem packed_fill {init : List XenosVertexBuffer} (h : Packed fits xe words)
    (hchain : xe.vbChain = init ++ [vb]) (hdata : xe.vbCurrentPitch ∣ data.length)
    (hn : n = xe.vbRemaining data.length) (hpos : 0 < n) :
    Packed fits { xe with
        vbChain := init ++ [vb.put xe.vbCurrentPitch (data.take n)] } (words ++ data.take n) ∧
      xe.vbCurrentPitch ∣ n ∧ n ≤ data.length ∧
      0 < (vb.put xe.vbCurrentPitch (data.take n)).vertices := by
  have hvb := h.whole vb (hchain ▸ mem_concat_self)
  obtain ⟨m, hm⟩ := hdata
  -- counted in vertices, the room and the data are both whole
  rw [vbRemaining_whole hvb (by rw [hchain, List.getLast?_concat]), hm,
    Nat.mul_min_mul_left] at hn
  have hle : n ≤ data.length := by
    rw [hn, hm]
    exact Nat.mul_le_mul_left _ (Nat.min_le_right _ _)
  have hlen : (data.take n).length = xe.vbCurrentPitch
      * min (vb.capacity xe.vbCurrentPitch - vb.vertices) m := by
    rw [length_take, Nat.min_eq_left hle, hn]
  obtain ⟨hput, hcount⟩ := hvb.put h.pitch (Nat.min_le_left _ _) hlen
  refine ⟨⟨h.pitch, ?_, ?_, ?_, ?_⟩, ⟨_, hn⟩, hle, ?_⟩
  · have hcontents := h.contents
    rw [hchain, flatMap_append, flatMap_singleton] at hcontents
    rw [flatMap_append, flatMap_singleton, ← hcontents, append_assoc]
    rfl
  · have hwhole := h.whole
    rw [hchain, forall_mem_append] at hwhole
    dsimp only
    rw [forall_mem_append, forall_mem_singleton]
    exact ⟨hwhole.1, hput⟩
  · have hfull := h.full
    rw [hchain, dropLast_concat] at hfull
    dsimp only
    rw [dropLast_concat]
    exact hfull
  · have horder := h.order
    rw [TookInOrder, hchain, map_append] at horder
    rw [TookInOrder, map_append]
    exact horder
  · rw [hcount]
    have hmin : min (vb.capacity xe.vbCurrentPitch - vb.vertices) m ≠ 0 := by
      intro hzero
      rw [hzero, Nat.mul_zero] at hn
      omega
    omega

theorem vbPutLoop_extend (hne : data ≠ []) (hrem : xe.vbRemaining data.length = 0)
    (halloc : xe.vbPoolAlloc alloc (2000 * 3 * xe.vbCurrentPitch) = some (vb, y)) :
    xe.vbPutLoop alloc (n + 1) data
      = XenosDevice.vbPutLoop alloc n { y with vbChain := xe.vbChain ++ [vb] } data := by
  rw [XenosDevice.vbPutLoop, if_neg hne, if_pos hrem, halloc]
  rfl

theorem vbPutLoop_fill {m : Nat} (hne : data ≠ []) (hm : xe.vbRemaining data.length = m)
    (hpos : 0 < m) (hlast : xe.vbChain.getLast? = some vb) :
    xe.vbPutLoop alloc (n + 1) data
      = XenosDevice.vbPutLoop alloc n { xe with
          vbChain := xe.vbChain.dropLast ++ [vb.put xe.vbCurrentPitch (data.take m)] }
        (data.drop m) := by
  rw [XenosDevice.vbPutLoop, if_neg hne, hm, if_neg (Nat.ne_of_gt hpos), hlast]
  rfl

end Lists

end LibXenon
