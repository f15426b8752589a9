/-
LibXenon/XenosVertexPool.lean

The vertex buffers of a device with their links: `Xe_VBBegin`, `Xe_VBPut`,
`Xe_VBEnd`, `Xe_VBPoolAdd` and the part of `Xe_Sync` that gets buffers back.

A buffer has one link.  It is in the pool of free buffers, in the list of buffers that
come back after the frame, in the chain that is being filled, or in a chain that
`Xe_VBEnd` has returned and the caller keeps in a variable.  Whole chains move from one
list to another by a single write to the slot at the end of a list.

In the system a round of the loop in `Xe_VBPut` is a step of its own, so that what
holds in every state reached also holds between the rounds.  `buffers_owned_once` says
that the lists stay apart and end, and that no buffer is handed out between
`Xe_VBPoolAdd` and `Xe_Sync`.  What is put into the buffers is in XenosVertexChunks.
-/
import LibXenon.SlotLists
import LibXenon.XenosLocks

namespace LibXenon

open Function Pm4 Links SlotLists Transition List

/-! ### The device -/

/-- The pointers to lists: those of the device, and the variables of the caller. -/
inductive VbRoot
  | vbPool
  | vbPoolAfterFrame
  | vbHead
  | held (i : Nat)
  deriving DecidableEq

/-- `struct XenosVertexBuffer` but for its link; `memory` are the words from `base` on. -/
structure VbBuffer where
  physBase : Word
  vertices : Int
  size : Int
  space : Int
  base : Word
  memory : Nat → Word

/-- What the functions use of `struct XenosDevice`, with the buffers by number. -/
structure VbDevice where
  links : Store VbRoot Nat
  buffer : Nat → VbBuffer
  vbCurrent : Option Nat
  vbCurrentPitch : Int
  /-- buffers made so far -/
  made : Nat

/-- The value is an `int`; computations with another result are undefined. -/
def isInt (z : Int) : Bool := -2 ^ 31 ≤ z ∧ z < 2 ^ 31

namespace VbDevice

section Alloc

-- `memalign`: the address of the block for the n-th buffer, or `none` without memory
variable (alloc : Nat → Int → Option Word)

/-- `Xe_CreateVertexBuffer`.  What is in the memory is not known. -/
def createVertexBuffer (d : VbDevice) (size : Int) : Option (Nat × VbDevice) :=
  (alloc d.made size).map fun base =>
    (d.made,
      { d with
        links := d.links.set (.next d.made) none
        buffer := update d.buffer d.made
          ⟨base &&& ~~~0x80000000, 0, 0, size, base, (d.buffer d.made).memory⟩
        made := d.made + 1 })

/-- A buffer that is found in the pool is cut out and empty. -/
def taken (d : VbDevice) (vbp : Slot VbRoot Nat) (vb : Nat) : VbDevice :=
  { d with
    links := (d.links.set vbp (d.links.next vb)).set (.next vb) none
    buffer := update d.buffer vb { d.buffer vb with size := 0, vertices := 0 } }

/-- `Xe_VBPoolAlloc`. -/
def vbPoolAlloc (d : VbDevice) (size : Int) : Option (Nat × VbDevice) := do
  let found ← d.links.find (fun vb => (d.buffer vb).space ≥ size) (d.made + 1) (.root .vbPool)
  match found with
  | some (vbp, vb) => some (vb, d.taken vbp vb)
  | none => d.createVertexBuffer alloc size

/-- `n` in `Xe_VBPut`: where the next buffer of the chain goes. -/
def nextSlot (d : VbDevice) : Option (Slot VbRoot Nat) :=
  match d.links.root .vbHead with
  | some _ => d.vbCurrent.map .next
  | none => some (.root .vbHead)

/-- The branch of `Xe_VBPut` that takes another buffer. -/
def vbExtend (d : VbDevice) : Option (Nat × VbDevice) := do
  let n ← d.nextSlot
  let size := 2000 * 3 * d.vbCurrentPitch
  if isInt size then
    let (vb, d) ← d.vbPoolAlloc alloc size
    some (vb, { d with
      links := d.links.set n (some vb)
      vbCurrent := some vb })
  else none

end Alloc

/-- `remaining` in `Xe_VBPut`. -/
def vbRemaining (d : VbDevice) (len : Nat) : Int :=
  let remaining : Int := match d.vbCurrent with
    | some vb => ((d.buffer vb).space - (d.buffer vb).size).tdiv 4
    | none => 0
  let remaining := remaining - remaining.tmod d.vbCurrentPitch
  if remaining > len then len else remaining

/-- The branch of `Xe_VBPut` that fills the current buffer. -/
def vbFill (d : VbDevice) (remaining : Int) (data : List Word) : Option VbDevice :=
  if remaining < 0 then none
  else do
    let vb ← d.vbCurrent
    let memory ← memcpy ((d.buffer vb).space / 4).toNat (d.buffer vb).memory
      ((d.buffer vb).size / 4).toNat (data.take remaining.toNat)
    some { d with
      buffer := update d.buffer vb
        { d.buffer vb with
          memory := memory
          size := (d.buffer vb).size + remaining * 4
          vertices := (d.buffer vb).vertices + remaining.tdiv d.vbCurrentPitch } }

/-- `Xe_VBBegin`. -/
def vbBegin (d : VbDevice) (pitch : Int) : Option VbDevice :=
  if d.links.root .vbHead ≠ none ∨ d.vbCurrent ≠ none then none
  else some { d with vbCurrentPitch := pitch }

/-- The loop of `Xe_VBEnd`. -/
def vbEndLoop (d : VbDevice) : Nat → Option Nat → Option (List XeEffect)
  | 0, _ => none
  | _ + 1, none => some []
  | n + 1, some vb => (vbEndLoop d n (d.links.next vb)).map fun effects =>
    .syncToDevice (d.buffer vb).base (BitVec.ofInt 32 (d.buffer vb).space) ::
      .rput (invalidateGpuCache (d.buffer vb).physBase
        (BitVec.ofInt 32 ((d.buffer vb).space + 0x1000))) :: effects

/-- `Xe_VBEnd`. -/
def vbEnd (d : VbDevice) : Option (Option Nat × VbDevice × List XeEffect) :=
  (d.vbEndLoop (d.made + 1) (d.links.root .vbHead)).map fun effects =>
    (d.links.root .vbHead,
      { d with
        links := d.links.set (.root .vbHead) none
        vbCurrent := none },
      effects)

/-- Where the walk to the end of a list begins. -/
def walkFrom (d : VbDevice) (r : VbRoot) : Slot VbRoot Nat :=
  match d.links.root r with
  | some vb => .next vb
  | none => .root r

/-- `Xe_VBPoolAdd`. -/
def vbPoolAdd (d : VbDevice) (vb : Option Nat) : Option VbDevice :=
  (d.links.toEnd (d.made + 1) (d.walkFrom .vbPoolAfterFrame)).map fun vbp =>
    { d with links := d.links.set vbp vb }

/-- `Xe_VBReclaim`. -/
def vbReclaim (d : VbDevice) : Option VbDevice :=
  (d.links.toEnd (d.made + 1) (d.walkFrom .vbPool)).map fun vbp =>
    { d with
      links := (d.links.set vbp (d.links.root .vbPoolAfterFrame)).set
        (.root .vbPoolAfterFrame) none }

end VbDevice

/-! ### Runs -/

/-- What matters for who has a buffer when. -/
inductive VbEvent
  | handedOut (vb : Nat)
  | added (vbs : List Nat)
  | synced
  deriving DecidableEq

/-- `putting` is what is left to put, while `Xe_VBPut` is running. -/
structure VbSystem where
  device : VbDevice
  putting : Option (List Word)
  /-- the last event first -/
  log : List VbEvent

/-- The device after `Xe_Init`. -/
def VbSystem.init (buffer : Nat → VbBuffer) : VbSystem :=
  ⟨⟨⟨fun _ => none, fun _ => none⟩, buffer, none, 0, 0⟩, none, []⟩

/-- Calls, and the rounds of `Xe_VBPut`.  `Xe_VBEnd` returns to a variable that holds
nothing; a variable that has gone to `Xe_VBPoolAdd` holds nothing any more. -/
inductive VbAction
  | vbBegin (pitch : Int)
  | vbPut (data : List Word)
  | round
  | vbEnd (i : Nat)
  | vbPoolAdd (i : Nat)
  | sync

def vbStep (alloc : Nat → Int → Option Word) (s : VbSystem) : VbAction → Option VbSystem
  | .round =>
    match s.putting with
    | none => none
    | some [] => some { s with putting := none }
    | some (w :: rest) =>
      let data := w :: rest
      let remaining := s.device.vbRemaining data.length
      if remaining = 0 then
        (s.device.vbExtend alloc).map fun r =>
          { s with
            device := r.2
            log := .handedOut r.1 :: s.log }
      else
        (s.device.vbFill remaining data).map fun d =>
          { s with
            device := d
            putting := some (data.drop remaining.toNat) }
  | .vbBegin pitch =>
    if s.putting.isSome then none
    else (s.device.vbBegin pitch).map fun d => { s with device := d }
  | .vbPut data =>
    if s.putting.isSome ∨ s.device.vbCurrentPitch = 0 ∨
        (data.length : Int).tmod s.device.vbCurrentPitch ≠ 0 then none
    else some { s with putting := some data }
  | .vbEnd i =>
    if s.putting.isSome ∨ (s.device.links.root (.held i)).isSome then none
    else s.device.vbEnd.map fun r =>
      { s with device := { r.2.1 with links := r.2.1.links.set (.root (.held i)) r.1 } }
  | .vbPoolAdd i =>
    if s.putting.isSome then none
    else
      let vb := s.device.links.root (.held i)
      (s.device.vbPoolAdd vb).map fun d =>
        { s with
          device := { d with links := d.links.set (.root (.held i)) none }
          log := .added (s.device.links.nodes s.device.made vb) :: s.log }
  | .sync =>
    if s.putting.isSome then none
    else s.device.vbReclaim.map fun d =>
      { s with
        device := d
        log := .synced :: s.log }

/-! ### The law -/

/-- The buffers added since the last `Xe_Sync`. -/
def addedSince : List VbEvent → List Nat
  | [] => []
  | .synced :: _ => []
  | .added vbs :: log => vbs ++ addedSince log
  | .handedOut _ :: log => addedSince log

/-- No buffer was handed out that had been added since the last `Xe_Sync` before. -/
def HandedOutLawful : List VbEvent → Prop
  | [] => True
  | .handedOut vb :: log => vb ∉ addedSince log ∧ HandedOutLawful log
  | .added _ :: log => HandedOutLawful log
  | .synced :: log => HandedOutLawful log

/-! ### The lists of a device -/

/-- The lists of a device: apart, ending, with the current buffer at the end of the chain
that is being filled. -/
structure VbOwned (d : VbDevice) (l : VbRoot → List Nat) : Prop where
  owns : Owns d.links l
  current : d.vbCurrent = (l .vbHead).getLast?
  made : ∀ r, ∀ vb ∈ l r, vb < d.made

variable {alloc : Nat → Int → Option Word} {d d' : VbDevice} {l : VbRoot → List Nat} {r : VbRoot}
  {vb : Nat} {size : Int}

theorem root_eq_head (h : VbOwned d l) (r : VbRoot) : d.links.root r = (l r).head? := by
  have hspans := h.owns.spans r
  generalize l r = chain at hspans ⊢
  cases chain with
  | nil => exact hspans
  | cons a rest => exact hspans.1

theorem length_lt (h : VbOwned d l) (r : VbRoot) : (l r).length < d.made + 1 := by
  have hsub : l r ⊆ List.range d.made := fun vb hvb => mem_range.mpr (h.made r vb hvb)
  have hlen := (subperm_of_subset (h.owns.spans r).nodup hsub).length_le
  rw [length_range] at hlen
  exact Nat.lt_succ_of_le hlen

theorem toEnd_walkFrom (h : VbOwned d l) (r : VbRoot) :
    d.links.toEnd (d.made + 1) (d.walkFrom r) = some (endSlot (.root r) (l r)) := by
  have hspans := h.owns.spans r
  have hlen := length_lt h r
  rw [VbDevice.walkFrom, root_eq_head h r]
  generalize l r = chain at hspans hlen ⊢
  cases chain with
  | nil => exact toEnd_eq hspans hlen
  | cons a rest =>
    rw [endSlot_cons]
    exact toEnd_eq hspans.2 (Nat.lt_of_succ_lt hlen)

/-! ### Taking a buffer -/

/-- The first buffer of the pool that is large enough is cut out, and if there is none a new
one is made. -/
theorem vbPoolAlloc_cases (alloc : Nat → Int → Option Word) (h : VbOwned d l) (size : Int) :
    (∃ l₁ vb l₂, l .vbPool = l₁ ++ vb :: l₂ ∧ (∀ b ∈ l₁, (d.buffer b).space < size) ∧
      size ≤ (d.buffer vb).space ∧
      d.vbPoolAlloc alloc size = some (vb, d.taken (endSlot (.root .vbPool) l₁) vb)) ∨
    ((∀ b ∈ l .vbPool, (d.buffer b).space < size) ∧
      d.vbPoolAlloc alloc size = d.createVertexBuffer alloc size) := by
  have hspans := h.owns.spans .vbPool
  have hlen := length_lt h .vbPool
  have hsmall {b : Nat} (hb : decide ((d.buffer b).space ≥ size) = false) :
      (d.buffer b).space < size := by
    have hnot := of_decide_eq_false hb
    omega
  obtain hnone | ⟨l₁, vb, l₂, hl, hbefore, hfit⟩ :=
    exists_first (fun vb => decide ((d.buffer vb).space ≥ size)) (l .vbPool)
  · refine .inr ⟨fun b hb => hsmall (hnone b hb), ?_⟩
    rw [VbDevice.vbPoolAlloc, find_eq_none hspans hlen hnone]
    rfl
  · rw [hl] at hspans hlen
    refine .inl ⟨l₁, vb, l₂, hl, fun b hb => hsmall (hbefore b hb), of_decide_eq_true hfit, ?_⟩
    rw [VbDevice.vbPoolAlloc, find_eq_some hspans hlen hbefore hfit]
    rfl

/-- A buffer that is in no list, with nothing behind it, and the lists besides. -/
structure VbFree (d : VbDevice) (l : VbRoot → List Nat) (vb : Nat) : Prop where
  owned : VbOwned d l
  free : ∀ r, vb ∉ l r
  next : d.links.next vb = none
  made : vb < d.made

theorem taken_free {l₁ l₂ : List Nat} (h : VbOwned d l) (hl : l .vbPool = l₁ ++ vb :: l₂) :
    VbFree (d.taken (endSlot (.root .vbPool) l₁) vb)
      (update l .vbPool (l₁ ++ l₂)) vb := by
  obtain ⟨howns, hfree⟩ := h.owns.take hl
  have hmem : vb ∈ l .vbPool := by
    rw [hl]
    exact mem_append_right l₁ mem_cons_self
  refine ⟨⟨howns.set_free hfree none, ?_, ?_⟩, hfree, update_self .., h.made _ vb hmem⟩
  · exact h.current
  · intro r b hb
    obtain ⟨rfl, hb⟩ | ⟨-, hb⟩ := mem_update hb
    · refine h.made .vbPool b ?_
      rw [hl]
      exact ((sublist_cons_self vb l₂).append_left l₁).subset hb
    · exact h.made r b hb

theorem created_free (h : VbOwned d l)
    (hcreate : d.createVertexBuffer alloc size = some (vb, d')) : VbFree d' l vb := by
  obtain ⟨base, -, heq⟩ := Option.map_eq_some_iff.mp hcreate
  obtain ⟨rfl, rfl⟩ := Prod.mk.inj heq
  have hfree : ∀ r, d.made ∉ l r := fun r hr => Nat.lt_irrefl _ (h.made r _ hr)
  refine ⟨⟨h.owns.set_free hfree none, h.current, ?_⟩, hfree, update_self ..,
    Nat.lt_succ_self _⟩
  intro r b hb
  exact Nat.lt_succ_of_lt (h.made r b hb)

/-- `Xe_VBPoolAlloc` returns a buffer that is in no list. -/
theorem vbPoolAlloc_free (h : VbOwned d l) (halloc : d.vbPoolAlloc alloc size = some (vb, d')) :
    ∃ pool, VbFree d' (update l .vbPool pool) vb ∧
      ∀ b ∈ pool, b ∈ l .vbPool := by
  obtain ⟨l₁, b, l₂, hl, -, -, heq⟩ | ⟨-, heq⟩ := vbPoolAlloc_cases alloc h size
  · rw [heq] at halloc
    obtain ⟨rfl, rfl⟩ := Prod.mk.inj (Option.some.inj halloc)
    refine ⟨l₁ ++ l₂, taken_free h hl, fun c hc => ?_⟩
    rw [hl]
    exact ((sublist_cons_self b l₂).append_left l₁).subset hc
  · rw [heq] at halloc
    refine ⟨l .vbPool, ?_, fun c hc => hc⟩
    rw [update_eq_self]
    exact created_free h halloc

theorem nextSlot_eq (h : VbOwned d l) :
    d.nextSlot = some (endSlot (.root .vbHead) (l .vbHead)) := by
  rw [VbDevice.nextSlot, root_eq_head h, h.current, endSlot]
  cases l .vbHead with
  | nil => rfl
  | cons a rest =>
    rw [List.head?_cons, List.getLast?_cons]
    rfl

theorem VbFree.extend (h : VbFree d l vb) :
    VbOwned { d with
        links := d.links.set (endSlot (.root .vbHead) (l .vbHead)) (some vb)
        vbCurrent := some vb }
      (update l .vbHead (l .vbHead ++ [vb])) := by
  refine ⟨h.owned.owns.give h.free h.next .vbHead, ?_, ?_⟩
  · rw [update_self, List.getLast?_concat]
  · intro r b hb
    obtain ⟨-, hb⟩ | ⟨-, hb⟩ := mem_update hb
    · obtain hb | hb := mem_append.mp hb
      · exact h.owned.made .vbHead b hb
      · rw [mem_singleton] at hb
        exact hb ▸ h.made
    · exact h.owned.made r b hb

theorem vbExtend_eq (alloc : Nat → Int → Option Word) (h : VbOwned d l) :
    d.vbExtend alloc =
      if isInt (2000 * 3 * d.vbCurrentPitch) then
        (d.vbPoolAlloc alloc (2000 * 3 * d.vbCurrentPitch)).map fun r => (r.1, { r.2 with
          links := r.2.links.set (endSlot (.root .vbHead) (l .vbHead)) (some r.1)
          vbCurrent := some r.1 })
      else none := by
  rw [VbDevice.vbExtend, nextSlot_eq h]
  dsimp only [Option.bind_some]
  split
  · cases d.vbPoolAlloc alloc (2000 * 3 * d.vbCurrentPitch) with
    | none | some r => rfl
  · rfl

theorem vbExtend_eq_some (hextend : d.vbExtend alloc = some (vb, d')) (h : VbOwned d l) :
    ∃ d₁, d.vbPoolAlloc alloc (2000 * 3 * d.vbCurrentPitch) = some (vb, d₁) ∧
      d' = { d₁ with
        links := d₁.links.set (endSlot (.root .vbHead) (l .vbHead)) (some vb)
        vbCurrent := some vb } := by
  rw [vbExtend_eq alloc h] at hextend
  split at hextend
  · obtain ⟨⟨b, d₁⟩, halloc, heq⟩ := Option.map_eq_some_iff.mp hextend
    obtain ⟨rfl, rfl⟩ := Prod.mk.inj heq
    exact ⟨d₁, halloc, rfl⟩
  · nomatch hextend

theorem vbExtend_owned (h : VbOwned d l) (hextend : d.vbExtend alloc = some (vb, d')) :
    ∃ pool, VbOwned d' (update (update l .vbPool pool) .vbHead
      (l .vbHead ++ [vb])) ∧ ∀ r, vb ∉ update l .vbPool pool r := by
  obtain ⟨d₁, halloc, rfl⟩ := vbExtend_eq_some hextend h
  obtain ⟨pool, hfree, -⟩ := vbPoolAlloc_free h halloc
  have howned := hfree.extend
  exact ⟨pool, howned, hfree.free⟩

theorem vbFill_owned {remaining : Int} {data : List Word} (h : VbOwned d l)
    (hfill : d.vbFill remaining data = some d') : VbOwned d' l := by
  rw [VbDevice.vbFill] at hfill
  split at hfill
  · nomatch hfill
  · obtain ⟨b, -, hfill⟩ := Option.bind_eq_some_iff.mp hfill
    obtain ⟨memory, -, heq⟩ := Option.bind_eq_some_iff.mp hfill
    cases heq
    exact ⟨h.owns, h.current, h.made⟩

/-! ### Moving whole lists -/

theorem VbOwned.moved {r r' : VbRoot} {links : Store VbRoot Nat} (h : VbOwned d l) (hne : r' ≠ r)
    (hhead : r ≠ .vbHead)
    (hlinks : links
      = (d.links.set (endSlot (.root r) (l r)) (d.links.root r')).set (.root r') none)
    (current : Option Nat) (hcurrent : current = if r' = .vbHead then none else d.vbCurrent) :
    VbOwned { d with
        links := links
        vbCurrent := current }
      (update (update l r (l r ++ l r')) r' []) := by
  subst hlinks
  refine ⟨h.owns.move hne, ?_, ?_⟩
  · rw [hcurrent]
    split
    · rename_i hr'
      subst hr'
      rw [update_self]
      rfl
    · rename_i hr'
      rw [update_of_ne (Ne.symm hr'), update_of_ne (Ne.symm hhead)]
      exact h.current
  · intro s b hb
    obtain ⟨-, hb⟩ | ⟨-, hb⟩ := mem_update hb
    · nomatch hb
    · obtain ⟨-, hb⟩ | ⟨-, hb⟩ := mem_update hb
      · obtain hb | hb := mem_append.mp hb
        · exact h.made r b hb
        · exact h.made r' b hb
      · exact h.made s b hb

theorem vbPoolAdd_eq (h : VbOwned d l) (ptr : Option Nat) :
    d.vbPoolAdd ptr = some { d with
      links := d.links.set (endSlot (.root .vbPoolAfterFrame) (l .vbPoolAfterFrame)) ptr } := by
  rw [VbDevice.vbPoolAdd, toEnd_walkFrom h]
  rfl

theorem vbReclaim_eq (h : VbOwned d l) :
    d.vbReclaim = some { d with
      links := (d.links.set (endSlot (.root .vbPool) (l .vbPool))
        (d.links.root .vbPoolAfterFrame)).set (.root .vbPoolAfterFrame) none } := by
  rw [VbDevice.vbReclaim, toEnd_walkFrom h]
  rfl

theorem vbEndLoop_ends {n : Nat} {ptr : Option Nat} {l : List Nat}
    (h : Forward d.links.next ptr l) (hn : l.length < n) :
    ∃ effects, d.vbEndLoop n ptr = some effects := by
  induction l generalizing ptr n with
  | nil =>
    obtain ⟨n, rfl⟩ := Nat.exists_eq_add_of_lt hn
    rw [show ptr = none from h]
    exact ⟨[], rfl⟩
  | cons a l ih =>
    obtain ⟨n, rfl⟩ := Nat.exists_eq_add_of_lt hn
    have hlen : l.length < (a :: l).length + n := by
      rw [length_cons]
      omega
    obtain ⟨effects, heffects⟩ := ih h.2 hlen
    rw [h.1, VbDevice.vbEndLoop, heffects]
    exact ⟨_, rfl⟩

theorem vbEnd_eq (h : VbOwned d l) :
    ∃ effects, d.vbEnd = some (d.links.root .vbHead,
      { d with
        links := d.links.set (.root .vbHead) none
        vbCurrent := none },
      effects) := by
  obtain ⟨effects, heffects⟩ := vbEndLoop_ends (h.owns.spans .vbHead) (length_lt h .vbHead)
  refine ⟨effects, ?_⟩
  rw [VbDevice.vbEnd, heffects]
  rfl

/-! ### Steps -/

variable {s s' : VbSystem}

/-- What every state of a run has. -/
structure VbGood (s : VbSystem) (l : VbRoot → List Nat) : Prop where
  owned : VbOwned s.device l
  added : ∀ vb ∈ addedSince s.log, vb ∈ l .vbPoolAfterFrame
  lawful : HandedOutLawful s.log

theorem good_extend (h : VbGood s l) (hextend : s.device.vbExtend alloc = some (vb, d')) :
    ∃ l', VbGood { s with
      device := d'
      log := .handedOut vb :: s.log } l' := by
  obtain ⟨pool, howned, hfree⟩ := vbExtend_owned h.owned hextend
  have hpool := hfree .vbPoolAfterFrame
  refine ⟨_, howned, ?_, fun hvb => hpool (h.added vb hvb), h.lawful⟩
  exact h.added

theorem good_end {i : Nat} (h : VbGood s l) (hfree : s.device.links.root (.held i) = none) :
    ∃ l', VbGood { s with
      device := { s.device with
        links := (s.device.links.set (.root .vbHead) none).set (.root (.held i))
          (s.device.links.root .vbHead)
        vbCurrent := none } } l' := by
  have hempty : l (.held i) = [] := by
    have hroot := root_eq_head h.owned (.held i)
    rw [hfree] at hroot
    exact List.head?_eq_none_iff.mp hroot.symm
  have hne : VbRoot.vbHead ≠ .held i := nofun
  -- the two variables are written in the other order
  have hlinks : (s.device.links.set (.root .vbHead) none).set (.root (.held i))
        (s.device.links.root .vbHead)
      = (s.device.links.set (endSlot (.root (.held i)) (l (.held i)))
          (s.device.links.root .vbHead)).set (.root .vbHead) none := by
    rw [hempty]
    exact congrArg (fun root => Store.mk root s.device.links.next)
      (update_comm hne ..)
  have hne' : VbRoot.held i ≠ .vbHead := nofun
  refine ⟨_, h.owned.moved hne hne' hlinks none (if_pos rfl).symm, ?_, h.lawful⟩
  exact h.added

theorem good_poolAdd {i : Nat} (h : VbGood s l) :
    ∃ l', VbGood { s with
      device := { s.device with
        links := (s.device.links.set (endSlot (.root .vbPoolAfterFrame) (l .vbPoolAfterFrame))
          (s.device.links.root (.held i))).set (.root (.held i)) none }
      log := .added (s.device.links.nodes s.device.made (s.device.links.root (.held i))) ::
        s.log } l' := by
  have hne : VbRoot.held i ≠ .vbPoolAfterFrame := nofun
  have hhead : VbRoot.vbPoolAfterFrame ≠ .vbHead := nofun
  have hcur : ¬ VbRoot.held i = .vbHead := nofun
  have hnodes := nodes_eq (h.owned.owns.spans (.held i))
    (Nat.le_of_lt_succ (length_lt h.owned (.held i)))
  refine ⟨_, h.owned.moved hne hhead rfl _ (if_neg hcur).symm, ?_, h.lawful⟩
  rw [hnodes, update_of_ne (Ne.symm hne)]
  intro vb hvb
  obtain hvb | hvb := mem_append.mp hvb
  · exact mem_append_right _ hvb
  · exact mem_append_left _ (h.added vb hvb)

theorem good_sync (h : VbGood s l) :
    ∃ l', VbGood { s with
      device := { s.device with
        links := (s.device.links.set (endSlot (.root .vbPool) (l .vbPool))
          (s.device.links.root .vbPoolAfterFrame)).set (.root .vbPoolAfterFrame) none }
      log := .synced :: s.log } l' := by
  have hne : VbRoot.vbPoolAfterFrame ≠ .vbPool := nofun
  have hhead : VbRoot.vbPool ≠ .vbHead := nofun
  have hcur : ¬ VbRoot.vbPoolAfterFrame = .vbHead := nofun
  exact ⟨_, h.owned.moved hne hhead rfl _ (if_neg hcur).symm, fun vb hvb => (nomatch hvb),
    h.lawful⟩

theorem good_round (h : VbGood s l) (hstep : vbStep alloc s .round = some s') :
    ∃ l', VbGood s' l' := by
  unfold vbStep at hstep
  dsimp only at hstep
  split at hstep
  · nomatch hstep
  · cases hstep
    exact ⟨l, h.owned, h.added, h.lawful⟩
  · split at hstep
    · obtain ⟨⟨vb, d'⟩, hextend, rfl⟩ := Option.map_eq_some_iff.mp hstep
      exact good_extend h hextend
    · obtain ⟨d', hfill, rfl⟩ := Option.map_eq_some_iff.mp hstep
      exact ⟨l, vbFill_owned h.owned hfill, h.added, h.lawful⟩

theorem good_step {a : VbAction} (h : VbGood s l) (hstep : vbStep alloc s a = some s') :
    ∃ l', VbGood s' l' := by
  cases a
  case round => exact good_round h hstep
  -- the other calls need that no `Xe_VBPut` is running
  all_goals
    unfold vbStep at hstep
    dsimp only at hstep
    split at hstep
    · nomatch hstep
  case vbBegin.isFalse =>
    obtain ⟨d', hbegin, rfl⟩ := Option.map_eq_some_iff.mp hstep
    rw [VbDevice.vbBegin] at hbegin
    split at hbegin
    · nomatch hbegin
    · cases hbegin
      exact ⟨l, ⟨h.owned.owns, h.owned.current, h.owned.made⟩, h.added, h.lawful⟩
  case vbPut.isFalse =>
    cases hstep
    exact ⟨l, h.owned, h.added, h.lawful⟩
  case vbEnd.isFalse i hguard =>
    rw [not_or, Bool.not_eq_true, Option.isSome_eq_false_iff, Bool.not_eq_true,
      Option.isSome_eq_false_iff, Option.isNone_iff_eq_none, Option.isNone_iff_eq_none] at hguard
    obtain ⟨effects, hend⟩ := vbEnd_eq h.owned
    rw [hend] at hstep
    cases hstep
    exact good_end h hguard.2
  case vbPoolAdd.isFalse =>
    rw [vbPoolAdd_eq h.owned] at hstep
    cases hstep
    exact good_poolAdd h
  case sync.isFalse =>
    rw [vbReclaim_eq h.owned] at hstep
    cases hstep
    exact good_sync h

theorem good_init (buffer : Nat → VbBuffer) : VbGood (.init buffer) fun _ => [] where
  owned := ⟨⟨fun _ => rfl, nofun⟩, rfl, nofun⟩
  added _ h := nomatch h
  lawful := True.intro

theorem reach_good {buffer : Nat → VbBuffer}
    (h : Reach (vbStep alloc) (fun _ _ => True) (.init buffer) s) : ∃ l, VbGood s l := by
  refine h.invariant (I := fun s => ∃ l, VbGood s l) ⟨_, good_init buffer⟩ ?_
  rintro s a s' ⟨l, hl⟩ - hstep
  exact good_step hl hstep

/-- While no `Xe_VBPut` is running, the walks of the other functions come to their ends. -/
theorem calls_return (alloc : Nat → Int → Option Word) (h : VbOwned s.device l)
    (hidle : s.putting = none) :
    (∃ s', vbStep alloc s .sync = some s') ∧
    (∀ i, ∃ s', vbStep alloc s (.vbPoolAdd i) = some s') ∧
    ∀ i, s.device.links.root (.held i) = none → ∃ s', vbStep alloc s (.vbEnd i) = some s' := by
  refine ⟨?_, fun i => ?_, fun i hi => ?_⟩
  · simp only [vbStep, hidle, vbReclaim_eq h]
    exact ⟨_, rfl⟩
  · simp only [vbStep, hidle, vbPoolAdd_eq h]
    exact ⟨_, rfl⟩
  · obtain ⟨effects, hend⟩ := vbEnd_eq h
    simp only [vbStep, hidle, hi, hend]
    exact ⟨_, rfl⟩

/-- **Buffers.**  In every state reached, the list from each pointer of the device and from
each variable of the caller comes to an end, no buffer is twice in a list or in two of
them, and no buffer has been handed out between `Xe_VBPoolAdd` and `Xe_Sync`.  The
functions that walk along the lists return. -/
theorem buffers_owned_once (alloc : Nat → Int → Option Word) (buffer : Nat → VbBuffer)
    {s : VbSystem} (h : Reach (vbStep alloc) (fun _ _ => True) (.init buffer) s) :
    (∃ l : VbRoot → List Nat,
      (∀ r, Forward s.device.links.next (s.device.links.root r) (l r) ∧ (l r).Nodup) ∧
      ∀ r r' vb, vb ∈ l r → vb ∈ l r' → r = r') ∧
    HandedOutLawful s.log ∧
    (s.putting = none →
      (∃ s', vbStep alloc s .sync = some s') ∧
      (∀ i, ∃ s', vbStep alloc s (.vbPoolAdd i) = some s') ∧
      ∀ i, s.device.links.root (.held i) = none → ∃ s', vbStep alloc s (.vbEnd i) = some s') := by
  obtain ⟨l, hl⟩ := reach_good h
  have hspans := hl.owned.owns.spans
  exact ⟨⟨l, fun r => ⟨hspans r, (hspans r).nodup⟩, fun _ _ _ => hl.owned.owns.apart⟩, hl.lawful,
    calls_return alloc hl.owned⟩

/-- Memory with a page for each buffer. -/
def pageAlloc (n : Nat) (_ : Int) : Option Word := some (BitVec.ofNat 32 (0x80000000 + 0x1000 * n))

def noBuffer : VbBuffer := ⟨0, 0, 0, 0, 0, fun _ => 0⟩

/-- The buffer of the first batch is put back before the second one is made. -/
def twoBatches : List VbAction :=
  [.vbBegin 1, .vbPut [7], .round, .round, .round, .vbEnd 0, .vbPoolAdd 0,
    .vbBegin 1, .vbPut [8], .round, .round, .round, .vbEnd 0, .sync,
    .vbBegin 1, .vbPut [9], .round]

/-- The second batch gets a new buffer, and the third one, after `Xe_Sync`, the first again. -/
theorem twoBatches_owned :
    ∃ s, Reach (vbStep pageAlloc) (fun _ _ => True) (.init fun _ => noBuffer) s ∧
      s.log = [.handedOut 0, .synced, .handedOut 1, .added [0], .handedOut 0] ∧
      HandedOutLawful s.log := by
  exact exists_reach_imp twoBatches
    (fun s => s.log = [.handedOut 0, .synced, .handedOut 1, .added [0], .handedOut 0])
    (by decide +kernel)
    fun s hs hlog => ⟨hlog, (buffers_owned_once pageAlloc (fun _ => noBuffer) hs).2.1⟩

end LibXenon
