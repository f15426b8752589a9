/-
LibXenon/UserPageMap.lean

What the user page table of `vm.c` stands for.

The abstract map gives each user address the page base and the flags it is
mapped to, if any.  In `userpagetable` both share one word, and an empty page is
the word 0.  `Refines m s` says that the table of `s` and the map `m` translate
every user address alike.

* `vm_destroy_user_mapping` and `vm_set_user_mapping_flags` do what their
  counterparts on the map do (`refines_destroy`, `refines_setFlags`).
* `vm_create_user_mapping` takes a physical address of 64 bits and puts it into
  an `int`: it maps the range to that address modulo 2 ^ 32
  (`translate_create`).

So a sequence of calls agrees with the map all along exactly if no page is
created at a physical address of 2 ^ 32 or more
(`userCalls_refine_iff`).  The TLB is told of all that they change, whatever the
range is (`userCalls_told`).
-/
import LibXenon.UserPages

namespace LibXenon

open List

/-! ### The map -/

structure Mapping where
  base : Nat
  flags : Nat
deriving DecidableEq

def UserMap := Nat → Option Mapping

def UserMap.empty : UserMap := fun _ => none

/-- Page `k` of the range goes to page `k` from `phys` on. -/
def UserMap.create (m : UserMap) (virt size phys flags : Nat) : UserMap := fun a =>
  if virt ≤ a ∧ a < virt + size then some ⟨phys + (a - virt) / 65536 * 65536, flags⟩ else m a

def UserMap.destroy (m : UserMap) (virt size : Nat) : UserMap := fun a =>
  if virt ≤ a ∧ a < virt + size then none else m a

def UserMap.setFlags (m : UserMap) (virt size flags : Nat) : UserMap := fun a =>
  if virt ≤ a ∧ a < virt + size then (m a).map fun p => ⟨p.base, flags⟩ else m a

/-! ### Entries -/

/-- What an entry of the table says. -/
def decodeEntry (entry : BitVec 32) : Option Mapping :=
  if entry = 0 then none
  else some ⟨(entry &&& ~~~ vmUserPageMask).toNat, (entry &&& vmUserPageMask).toNat⟩

def UserPages.translate (s : UserPages) (a : Nat) : Option Mapping :=
  decodeEntry (s.userpagetable ((a - 0x30000000) / 65536))

def Refines (m : UserMap) (s : UserPages) : Prop :=
  ∀ a, 0x30000000 ≤ a → a < 0x80000000 → s.translate a = m a

theorem decodeEntry_eq {entry : BitVec 32} {base flags : Nat} (hbase : base % 65536 = 0)
    (hflags : 0 < flags) (hlt : flags < 65536) (hentry : entry.toNat = base + flags) :
    decodeEntry entry = some ⟨base, flags⟩ := by
  have hne : entry ≠ 0 := by
    intro h
    rw [h] at hentry
    change 0 = base + flags at hentry
    omega
  have hb : entry.toNat / 65536 * 65536 = base := by omega
  have hf : entry.toNat % 65536 = flags := by omega
  rw [decodeEntry, if_neg hne, toNat_and_not_vmUserPageMask, toNat_and_vmUserPageMask, hb, hf]

theorem or_eq_add {base flags : Nat} (hbase : base % 65536 = 0) (hlt : flags < 65536) :
    base ||| flags = base + flags := by
  have hmul : base = 2 ^ 16 * (base / 65536) := by omega
  rw [hmul]
  exact (Nat.two_pow_add_eq_or_of_lt hlt (base / 65536)).symm

/-! ### The calls -/

/-- Whole pages among the user addresses. -/
structure UserRange where
  virtAddr : BitVec 32
  size : BitVec 32
  virtAddr_aligned : virtAddr.toNat % 65536 = 0
  size_aligned : size.toNat % 65536 = 0
  lower : 0x30000000 ≤ virtAddr.toNat
  start : virtAddr.toNat < 0x80000000
  upper : virtAddr.toNat + size.toNat ≤ 0x80000000

/-- Flags that leave the page address alone and show that there is one. -/
structure PageFlags where
  wimg : BitVec 32
  pos : 0 < wimg.toNat
  lt : wimg.toNat < 0x10000

/-- A 64-bit address of a page. -/
structure PhysPage where
  physAddr : BitVec 64
  aligned : physAddr.toNat % 65536 = 0

inductive UserCall where
  | create (r : UserRange) (p : PhysPage) (f : PageFlags)
  | destroy (r : UserRange)
  | setFlags (r : UserRange) (f : PageFlags)

def UserCall.run (fuel : Nat) (s : UserPages) : UserCall → Option UserPages
  | .create r p f => vmCreateUserMapping fuel s r.virtAddr p.physAddr r.size f.wimg
  | .destroy r => vmDestroyUserMapping fuel s r.virtAddr r.size
  | .setFlags r f => vmSetUserMappingFlags fuel s r.virtAddr r.size f.wimg

/-- The same call on the map. -/
def UserCall.apply (m : UserMap) : UserCall → UserMap
  | .create r p f => m.create r.virtAddr.toNat r.size.toNat p.physAddr.toNat f.wimg.toNat
  | .destroy r => m.destroy r.virtAddr.toNat r.size.toNat
  | .setFlags r f => m.setFlags r.virtAddr.toNat r.size.toNat f.wimg.toNat

def runCalls (fuel : Nat) (s : UserPages) (calls : List UserCall) : Option UserPages :=
  calls.foldlM (UserCall.run fuel) s

/-- A call creates no page at 2 ^ 32 or above. -/
def UserCall.Below4G : UserCall → Prop
  | .create r p _ => r.size.toNat = 0 ∨ p.physAddr.toNat + r.size.toNat ≤ 2 ^ 32
  | .destroy _ => True
  | .setFlags _ _ => True

/-! ### What one call does to a translation -/

variable {fuel : Nat} {s : UserPages} {m : UserMap}

def UserRange.pageIdx (r : UserRange) : Nat := (r.virtAddr.toNat - 0x30000000) / 65536

theorem UserRange.getIdx (r : UserRange) :
    vmCommonCheckGetIdx r.virtAddr r.size = some r.pageIdx := by
  have h₁ := r.virtAddr_aligned
  have h₂ := r.lower
  have h₃ := r.start
  rw [vmCommonCheckGetIdx_eq_some, UserRange.pageIdx, userPageCount]
  exact ⟨by omega, by omega, r.size_aligned⟩

theorem UserRange.fuel_of_lt (r : UserRange) (hfuel : userPageCount < fuel) :
    r.size.toNat / 65536 < fuel := by
  have h₁ := r.upper
  have h₂ := r.lower
  rw [userPageCount] at hfuel
  omega

theorem UserRange.page_mem_iff (r : UserRange) {a : Nat} (ha : 0x30000000 ≤ a) :
    (r.pageIdx ≤ (a - 0x30000000) / 65536 ∧
        (a - 0x30000000) / 65536 < r.pageIdx + r.size.toNat / 65536) ↔
      r.virtAddr.toNat ≤ a ∧ a < r.virtAddr.toNat + r.size.toNat := by
  have h₁ := r.virtAddr_aligned
  have h₂ := r.size_aligned
  have h₃ := r.lower
  rw [UserRange.pageIdx]
  omega

theorem UserRange.page_sub (r : UserRange) {a : Nat} (ha : r.virtAddr.toNat ≤ a) :
    (a - 0x30000000) / 65536 - r.pageIdx = (a - r.virtAddr.toNat) / 65536 := by
  have h₁ := r.virtAddr_aligned
  have h₂ := r.lower
  rw [UserRange.pageIdx]
  omega

theorem Visits.translate_sweep {body : UserPages → Nat → BitVec 32 → BitVec 32 → UserPages}
    {entry : BitVec 32 → BitVec 32 → BitVec 32} (h : Visits body entry) (r : UserRange)
    (pageAddr : BitVec 32) (s : UserPages) {a : Nat} (ha : 0x30000000 ≤ a) :
    (sweep body (r.size.toNat / 65536) r.pageIdx r.virtAddr pageAddr s).translate a =
      if r.virtAddr.toNat ≤ a ∧ a < r.virtAddr.toNat + r.size.toNat then
        decodeEntry (entry (s.userpagetable ((a - 0x30000000) / 65536))
          (pageAddr + BitVec.ofNat 32 ((a - r.virtAddr.toNat) / 65536 * 65536)))
      else s.translate a := by
  rw [UserPages.translate, h.table_sweep]
  by_cases hin : r.virtAddr.toNat ≤ a ∧ a < r.virtAddr.toNat + r.size.toNat
  · rw [if_pos ((r.page_mem_iff ha).mpr hin), if_pos hin, r.page_sub hin.1]
  · rw [if_neg (fun h => hin ((r.page_mem_iff ha).mp h)), if_neg hin, UserPages.translate]

theorem toNat_pageAddr (p : PhysPage) (f : PageFlags) :
    ((p.physAddr ||| f.wimg.signExtend 64).setWidth 32).toNat =
      (p.physAddr.toNat + f.wimg.toNat) % 2 ^ 32 := by
  have hmsb : f.wimg.msb = false := by
    rw [BitVec.msb_eq_false_iff_two_mul_lt]
    have := f.lt
    omega
  have hext : (f.wimg.signExtend 64).toNat = f.wimg.toNat := by
    rw [BitVec.signExtend_eq_setWidth_of_msb_false hmsb, BitVec.toNat_setWidth]
    have := f.lt
    omega
  rw [BitVec.toNat_setWidth, BitVec.toNat_or, hext, or_eq_add p.aligned f.lt]

theorem decodeEntry_pageAddr (p : PhysPage) (f : PageFlags) (k : Nat) :
    decodeEntry ((p.physAddr ||| f.wimg.signExtend 64).setWidth 32 +
        BitVec.ofNat 32 (k * 65536)) =
      some ⟨(p.physAddr.toNat + k * 65536) % 2 ^ 32, f.wimg.toNat⟩ := by
  have hp := p.aligned
  have hf := f.lt
  apply decodeEntry_eq
  · omega
  · exact f.pos
  · exact f.lt
  · rw [BitVec.toNat_add, toNat_pageAddr, BitVec.toNat_ofNat]
    omega

theorem decodeEntry_reflag (f : PageFlags) (old : BitVec 32) :
    decodeEntry (reflag f.wimg old) =
      (decodeEntry old).map fun p => ⟨p.base, f.wimg.toNat⟩ := by
  by_cases hold : old = 0
  · simp [reflag, decodeEntry, hold]
  · have hor : ((old &&& ~~~ vmUserPageMask) ||| f.wimg).toNat =
        old.toNat / 65536 * 65536 + f.wimg.toNat := by
      rw [BitVec.toNat_or, toNat_and_not_vmUserPageMask, or_eq_add (by omega) f.lt]
    rw [reflag, if_pos hold, decodeEntry_eq (by omega) f.pos f.lt hor, decodeEntry, if_neg hold,
      toNat_and_not_vmUserPageMask]
    rfl

section

variable (hfuel : userPageCount < fuel)
include hfuel

/-- What `vm_create_user_mapping` does to each translation. -/
theorem translate_create (r : UserRange) (p : PhysPage) (f : PageFlags) :
    ∃ s', UserCall.run fuel s (.create r p f) = some s' ∧ ∀ a, 0x30000000 ≤ a →
      s'.translate a = if r.virtAddr.toNat ≤ a ∧ a < r.virtAddr.toNat + r.size.toNat then
          some ⟨(p.physAddr.toNat + (a - r.virtAddr.toNat) / 65536 * 65536) % 2 ^ 32, f.wimg.toNat⟩
        else s.translate a := by
  have hphys : p.physAddr &&& vmUserPageMask.setWidth 64 = 0 := by
    rw [← BitVec.toNat_inj, Bits.toNat_and_mask (k := 16) rfl]
    exact p.aligned
  refine ⟨_, vmCreateUserMapping_eq hphys r.getIdx (r.fuel_of_lt hfuel), fun a ha => ?_⟩
  rw [visits_create.translate_sweep r _ s ha, decodeEntry_pageAddr]

theorem refines_create (h : Refines m s) {r : UserRange}
    {p : PhysPage} {f : PageFlags} (hbelow : (UserCall.create r p f).Below4G) :
    ∃ s', UserCall.run fuel s (.create r p f) = some s' ∧
      Refines (UserCall.apply m (.create r p f)) s' := by
  obtain ⟨s', hrun, htr⟩ := translate_create (s := s) hfuel r p f
  refine ⟨s', hrun, fun a hlow hhigh => ?_⟩
  rw [htr a hlow, h a hlow hhigh, UserCall.apply, UserMap.create]
  by_cases hin : r.virtAddr.toNat ≤ a ∧ a < r.virtAddr.toNat + r.size.toNat
  · -- an address of the range: its page is below 4 GB
    have hpage : p.physAddr.toNat + (a - r.virtAddr.toNat) / 65536 * 65536 < 2 ^ 32 := by
      rcases hbelow with hzero | hle <;> omega
    rw [if_pos hin, if_pos hin, Nat.mod_eq_of_lt hpage]
  · rw [if_neg hin, if_neg hin]

theorem refines_destroy (h : Refines m s) (r : UserRange) :
    ∃ s', UserCall.run fuel s (.destroy r) = some s' ∧
      Refines (UserCall.apply m (.destroy r)) s' := by
  refine ⟨_, vmDestroyUserMapping_eq r.getIdx (r.fuel_of_lt hfuel), fun a hlow hhigh => ?_⟩
  rw [visits_destroy.translate_sweep r 0 s hlow, h a hlow hhigh]
  rfl

theorem refines_setFlags (h : Refines m s) (r : UserRange) (f : PageFlags) :
    ∃ s', UserCall.run fuel s (.setFlags r f) = some s' ∧
      Refines (UserCall.apply m (.setFlags r f)) s' := by
  refine ⟨_, vmSetUserMappingFlags_eq r.getIdx (r.fuel_of_lt hfuel), fun a hlow hhigh => ?_⟩
  have hold := h a hlow hhigh
  rw [UserPages.translate] at hold
  rw [(visits_setFlags f.wimg).translate_sweep r 0 s hlow, decodeEntry_reflag, hold,
    h a hlow hhigh]
  rfl

/-! ### Sequences of calls -/

theorem refines_call (h : Refines m s) {c : UserCall} (hc : c.Below4G) :
    ∃ s', UserCall.run fuel s c = some s' ∧ Refines (UserCall.apply m c) s' := by
  cases c with
  | create r p f => exact refines_create hfuel h hc
  | destroy r => exact refines_destroy hfuel h r
  | setFlags r f => exact refines_setFlags hfuel h r f

theorem refines_calls (h : Refines m s) {calls : List UserCall} (hcalls : ∀ c ∈ calls, c.Below4G) :
    ∃ s', runCalls fuel s calls = some s' ∧ Refines (calls.foldl UserCall.apply m) s' := by
  induction calls generalizing s m with
  | nil => exact ⟨s, rfl, h⟩
  | cons c calls ih =>
    obtain ⟨s₁, hrun₁, h₁⟩ := refines_call hfuel h (hcalls c mem_cons_self)
    obtain ⟨s₂, hrun₂, h₂⟩ := ih h₁ fun c' hc' => hcalls c' (mem_cons_of_mem c hc')
    refine ⟨s₂, ?_, h₂⟩
    rw [runCalls, foldlM_cons, hrun₁]
    exact hrun₂

theorem not_refines_create {r : UserRange} {p : PhysPage}
    {f : PageFlags} (hover : ¬ (UserCall.create r p f).Below4G) {s' : UserPages}
    (hrun : UserCall.run fuel s (.create r p f) = some s') :
    ¬ Refines (UserCall.apply m (.create r p f)) s' := by
  intro h
  obtain ⟨s₁, hrun₁, htr⟩ := translate_create (s := s) hfuel r p f
  obtain rfl : s₁ = s' := Option.some_inj.mp (hrun₁.symm.trans hrun)
  have h₁ := r.lower
  have h₂ := r.upper
  have h₃ := r.size_aligned
  have h₄ := p.aligned
  rw [UserCall.Below4G] at hover
  -- the last page of the range
  have hlow : 0x30000000 ≤ r.virtAddr.toNat + (r.size.toNat - 65536) := by omega
  have hin : r.virtAddr.toNat ≤ r.virtAddr.toNat + (r.size.toNat - 65536) ∧
      r.virtAddr.toNat + (r.size.toNat - 65536) < r.virtAddr.toNat + r.size.toNat := by omega
  have heq := h _ hlow (by omega)
  rw [htr _ hlow, if_pos hin, UserCall.apply, UserMap.create, if_pos hin] at heq
  have hbase := congrArg Mapping.base (Option.some_inj.mp heq)
  dsimp only at hbase
  omega

end

/-- **The table is the map.**  From an empty table on, every sequence of calls
runs to its end, and after each call the table translates every user address as
the map does, exactly if no call creates a page at 2 ^ 32 or above. -/
theorem userCalls_refine_iff (calls : List UserCall) (fuel : Nat) (hfuel : userPageCount < fuel) :
    (∀ k, ∃ s, runCalls fuel (.ofTable 0) (calls.take k) = some s ∧
        Refines ((calls.take k).foldl UserCall.apply .empty) s) ↔
      ∀ c ∈ calls, c.Below4G := by
  constructor
  · intro h c hc
    by_contra hover
    obtain ⟨before, after, rfl⟩ := append_of_mem hc
    obtain ⟨s', hrun, href⟩ := h (before.length + 1)
    have htake : (before ++ c :: after).take (before.length + 1) = before ++ [c] := by
      rw [take_length_add_append]
      rfl
    rw [htake, runCalls, foldlM_append] at hrun
    rw [htake, foldl_append] at href
    obtain ⟨s₁, -, hc₁⟩ := Option.bind_eq_some_iff.mp hrun
    rw [foldlM_cons] at hc₁
    obtain ⟨s₂, hc₂, hend⟩ := Option.bind_eq_some_iff.mp hc₁
    obtain rfl : s₂ = s' := Option.some_inj.mp hend
    cases c with
    | create r p f => exact not_refines_create hfuel hover hc₂ href
    | destroy r | setFlags r f => exact hover trivial
  · intro hcalls k
    have hstart : Refines .empty (.ofTable 0) := fun _ _ _ => rfl
    exact refines_calls hfuel hstart fun c hc => hcalls c (mem_of_mem_take hc)

/-- The first page of the user addresses. -/
def firstUserPage : UserRange :=
  ⟨0x30000000, 0x10000, by decide, by decide, by decide, by decide, by decide⟩

/-- Two pages are created, the first gets other flags and is taken away. -/
def twoPageCalls : List UserCall :=
  [.create ⟨0x30000000, 0x20000, by decide, by decide, by decide, by decide, by decide⟩
      ⟨0xFFFE0000, rfl⟩ ⟨1, by decide, by decide⟩,
    .setFlags firstUserPage ⟨2, by decide, by decide⟩, .destroy firstUserPage]

/-- They end right below 4 GB, and the table agrees with the map after each call. -/
theorem userCalls_refine_twoPages :
    (∀ c ∈ twoPageCalls, c.Below4G) ∧
      ∀ k, ∃ s, runCalls 20481 (.ofTable 0) (twoPageCalls.take k) = some s ∧
        Refines ((twoPageCalls.take k).foldl UserCall.apply .empty) s := by
  have hbelow : ∀ c ∈ twoPageCalls, c.Below4G := by
    intro c hc
    simp only [twoPageCalls, mem_cons, not_mem_nil, or_false] at hc
    rcases hc with rfl | rfl | rfl
    · exact .inr (by decide)
    · trivial
    · trivial
  exact ⟨hbelow, (userCalls_refine_iff twoPageCalls 20481 (by decide)).mpr hbelow⟩

/-- Mapped to the processor's registers at 0x20000000000 with flags 1, the page
goes to the first page of memory instead. -/
theorem userPage_mapped_low :
    (UserCall.run 2 (.ofTable 0)
        (.create firstUserPage ⟨0x20000000000, rfl⟩ ⟨1, by decide, by decide⟩)).bind
          (·.translate 0x30000000) = some ⟨0, 1⟩ ∧
      UserCall.apply .empty
        (.create firstUserPage ⟨0x20000000000, rfl⟩ ⟨1, by decide, by decide⟩) 0x30000000 =
          some ⟨0x20000000000, 1⟩ := by
  refine ⟨by decide, by decide⟩

/-! ### The TLB -/

/-- A call with any arguments, also for a range that ends behind the table. -/
inductive VmCall where
  | create (virtAddr : BitVec 32) (physAddr : BitVec 64) (size wimg : BitVec 32)
  | destroy (virtAddr size : BitVec 32)
  | setFlags (virtAddr size wimg : BitVec 32)

def VmCall.run (fuel : Nat) (s : UserPages) : VmCall → Option UserPages
  | .create virtAddr physAddr size wimg =>
    vmCreateUserMapping fuel s virtAddr physAddr size wimg
  | .destroy virtAddr size => vmDestroyUserMapping fuel s virtAddr size
  | .setFlags virtAddr size wimg => vmSetUserMappingFlags fuel s virtAddr size wimg

/-- The assertions of the call hold. -/
def VmCall.Asserted : VmCall → Prop
  | .create virtAddr physAddr size _ =>
    physAddr &&& vmUserPageMask.setWidth 64 = 0 ∧
      (vmCommonCheckGetIdx virtAddr size).isSome = true
  | .destroy virtAddr size | .setFlags virtAddr size _ =>
    (vmCommonCheckGetIdx virtAddr size).isSome = true

instance (c : VmCall) : Decidable c.Asserted := by
  cases c <;> dsimp only [VmCall.Asserted] <;> infer_instance

theorem call_told (hfuel : 65536 ≤ fuel) (s : UserPages) {c : VmCall} (hc : c.Asserted) :
    ∃ s', c.run fuel s = some s' ∧ Told s s' := by
  -- read without a sign, a size has at most 65535 pages
  have hrounds (size : BitVec 32) : size.toNat / 65536 < fuel := by omega
  have haddr {virtAddr size : BitVec 32} {pageIdx : Nat}
      (hidx : vmCommonCheckGetIdx virtAddr size = some pageIdx) :
      userPageAddr pageIdx = virtAddr := by
    obtain ⟨hvirt, -, -⟩ := vmCommonCheckGetIdx_eq_some.mp hidx
    rw [userPageAddr, ← hvirt, BitVec.ofNat_toNat, BitVec.setWidth_eq]
  cases c with
  | create virtAddr physAddr size wimg =>
    obtain ⟨pageIdx, hidx⟩ := Option.isSome_iff_exists.mp hc.2
    exact ⟨_, vmCreateUserMapping_eq hc.1 hidx (hrounds size), haddr hidx ▸ visits_create.told ..⟩
  | destroy virtAddr size =>
    obtain ⟨pageIdx, hidx⟩ := Option.isSome_iff_exists.mp hc
    exact ⟨_, vmDestroyUserMapping_eq hidx (hrounds size), haddr hidx ▸ visits_destroy.told ..⟩
  | setFlags virtAddr size wimg =>
    obtain ⟨pageIdx, hidx⟩ := Option.isSome_iff_exists.mp hc
    exact ⟨_, vmSetUserMappingFlags_eq hidx (hrounds size),
      haddr hidx ▸ (visits_setFlags wimg).told ..⟩

/-- **The TLB follows the table.**  Any calls that pass the assertions, on any table,
come to their end and have invalidated every page that has another entry then; also
those that a range behind the table or a negative size reaches. -/
theorem userCalls_told (calls : List VmCall) (hcalls : ∀ c ∈ calls, c.Asserted) (fuel : Nat)
    (hfuel : 65536 ≤ fuel) (table : Nat → BitVec 32) :
    ∃ s, calls.foldlM (VmCall.run fuel) (.ofTable table) = some s ∧
      ∀ i, s.userpagetable i ≠ table i → userPageAddr i ∈ s.invalidated := by
  obtain ⟨s, hrun, h⟩ : ∃ s, calls.foldlM (VmCall.run fuel) (.ofTable table) = some s ∧
      Told (.ofTable table) s := by
    generalize UserPages.ofTable table = s₀
    induction calls generalizing s₀ with
    | nil => exact ⟨s₀, rfl, Told.refl s₀⟩
    | cons c calls ih =>
      obtain ⟨s₁, hrun₁, h₁⟩ := call_told hfuel s₀ (hcalls c mem_cons_self)
      obtain ⟨s₂, hrun₂, h₂⟩ := ih (fun c' hc' => hcalls c' (mem_cons_of_mem c hc')) s₁
      refine ⟨s₂, ?_, h₁.trans h₂⟩
      rw [foldlM_cons, hrun₁]
      exact hrun₂
  exact ⟨s, hrun, h.tells⟩

/-- The two last pages of the table and one behind it, which is not mapped before;
then the first of them is taken away. -/
def callsPastTable : List VmCall := [.create 0x7FFE0000 0 0x30000 1, .destroy 0x7FFE0000 0x10000]

/-- The page behind the table is invalidated. -/
theorem userCalls_told_pastTable :
    ∃ s, callsPastTable.foldlM (VmCall.run 65536) (.ofTable 0) = some s ∧
      userPageAddr 20480 ∈ s.invalidated := by
  obtain ⟨s, hrun, htold⟩ := userCalls_told callsPastTable (by decide) 65536 (by decide) 0
  have hentry : (callsPastTable.foldlM (VmCall.run 65536) (.ofTable 0)).map
      (fun s => s.userpagetable 20480) = some 0x20001 := by decide +kernel
  rw [hrun] at hentry
  have hentry : s.userpagetable 20480 = 0x20001 := Option.some_inj.mp hentry
  refine ⟨s, hrun, htold 20480 ?_⟩
  rw [hentry]
  decide

end LibXenon
