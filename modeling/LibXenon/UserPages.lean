/-
LibXenon/UserPages.lean

The user page table of `vm.c`.

`userpagetable` has one word for each page of 64 KB of the 1280 MB from
0x30000000 on.  The three functions that change it check that the range starts
there and that address and size are whole pages; then a loop goes through the
pages until the size is down to 0.  The size is a signed 32-bit number, which
the loop takes 0x10000 from at a time, and nothing compares the end of the
range with the end of the table.

* Each loop ends: it makes as many rounds as the size, read without a sign, has
  pages (`vmLoop_eq`).
* It stays in the table exactly if the range ends at 0x80000000 or before
  (`userPages_inTable_iff`).
* No entry changes without `vm_invalidate_tlb` for its page
  (`Visits.told`).

The table goes on behind its 20480 entries here, as memory does; `touched` are
the indices at which it was read or written, `invalidated` the addresses given
to `vm_invalidate_tlb`.  A failed assertion is `none`, and so is a loop that has
used up its `fuel`.
-/
import LibXenon.Bits
import Mathlib.Tactic.Ring

namespace LibXenon

open Function List

/-! ### The functions -/

/-- `VM_USER_PAGE_SIZE`. -/
def vmUserPageSize : BitVec 32 := 0x10000

/-- `VM_USER_PAGE_MASK`. -/
def vmUserPageMask : BitVec 32 := 0xFFFF

/-- How many entries `userpagetable` has. -/
def userPageCount : Nat := 20480

structure UserPages where
  userpagetable : Nat → BitVec 32
  touched : List Nat
  invalidated : List (BitVec 32)

/-- The table as it is, before any of the functions. -/
def UserPages.ofTable (table : Nat → BitVec 32) : UserPages := ⟨table, [], []⟩

/-- A new entry, and the TLB told about it. -/
def UserPages.write (s : UserPages) (pageIdx : Nat) (virtAddr entry : BitVec 32) : UserPages where
  userpagetable := update s.userpagetable pageIdx entry
  touched := s.touched ++ [pageIdx]
  invalidated := s.invalidated ++ [virtAddr]

/-- `vm_common_check_get_idx`. -/
def vmCommonCheckGetIdx (virtAddr size : BitVec 32) : Option Nat :=
  if virtAddr &&& vmUserPageMask ≠ 0 then none
  else if size &&& vmUserPageMask ≠ 0 then none
  else if ¬ (0x30000000 ≤ virtAddr ∧ virtAddr < 0x80000000) then none
  else some ((virtAddr - 0x30000000) >>> 16).toNat

/-- `while (size)`: the body is given `page_idx`, `virt_addr` and `page_addr`,
which only `vm_create_user_mapping` has. -/
def vmLoop (body : UserPages → Nat → BitVec 32 → BitVec 32 → UserPages) :
    Nat → BitVec 32 → Nat → BitVec 32 → BitVec 32 → UserPages → Option UserPages
  | 0, _, _, _, _, _ => none
  | fuel + 1, size, pageIdx, virtAddr, pageAddr, s =>
    if size = 0 then some s
    else vmLoop body fuel (size - vmUserPageSize) (pageIdx + 1) (virtAddr + vmUserPageSize)
      (pageAddr + vmUserPageSize) (body s pageIdx virtAddr pageAddr)

/-- `vm_create_user_mapping`. -/
def vmCreateUserMapping (fuel : Nat) (s : UserPages) (virtAddr : BitVec 32) (physAddr : BitVec 64)
    (size wimg : BitVec 32) : Option UserPages :=
  if physAddr &&& vmUserPageMask.setWidth 64 ≠ 0 then none
  else do
    let pageIdx ← vmCommonCheckGetIdx virtAddr size
    vmLoop UserPages.write fuel size pageIdx virtAddr
      ((physAddr ||| wimg.signExtend 64).setWidth 32) s

/-- `vm_destroy_user_mapping`. -/
def vmDestroyUserMapping (fuel : Nat) (s : UserPages) (virtAddr size : BitVec 32) :
    Option UserPages := do
  let pageIdx ← vmCommonCheckGetIdx virtAddr size
  vmLoop (fun s pageIdx virtAddr _ => s.write pageIdx virtAddr 0) fuel size pageIdx virtAddr 0 s

/-- The new flags of one page, if it is mapped. -/
def UserPages.setFlags (wimg : BitVec 32) (s : UserPages) (pageIdx : Nat) (virtAddr : BitVec 32) :
    UserPages :=
  if s.userpagetable pageIdx ≠ 0 then
    s.write pageIdx virtAddr ((s.userpagetable pageIdx &&& ~~~ vmUserPageMask) ||| wimg)
  else { s with touched := s.touched ++ [pageIdx] }

/-- `vm_set_user_mapping_flags`. -/
def vmSetUserMappingFlags (fuel : Nat) (s : UserPages) (virtAddr size wimg : BitVec 32) :
    Option UserPages := do
  let pageIdx ← vmCommonCheckGetIdx virtAddr size
  vmLoop (fun s pageIdx virtAddr _ => s.setFlags wimg pageIdx virtAddr) fuel size pageIdx virtAddr
    0 s

/-! ### Words and masks -/

theorem toNat_vmUserPageSize : vmUserPageSize.toNat = 65536 := rfl

theorem toNat_and_vmUserPageMask (w : BitVec 32) :
    (w &&& vmUserPageMask).toNat = w.toNat % 65536 :=
  Bits.toNat_and_mask (k := 16) rfl

theorem toNat_and_not_vmUserPageMask (w : BitVec 32) :
    (w &&& ~~~ vmUserPageMask).toNat = w.toNat / 65536 * 65536 :=
  Bits.toNat_and_not_mask (k := 16) rfl

theorem and_mask_eq_zero {w : BitVec 32} : w &&& vmUserPageMask = 0 ↔ w.toNat % 65536 = 0 := by
  rw [← toNat_and_vmUserPageMask, ← BitVec.toNat_inj]
  rfl

/-- What the assertions say. -/
theorem vmCommonCheckGetIdx_eq_some {virtAddr size : BitVec 32} {pageIdx : Nat} :
    vmCommonCheckGetIdx virtAddr size = some pageIdx ↔
      virtAddr.toNat = 0x30000000 + pageIdx * 65536 ∧ pageIdx < userPageCount ∧
        size.toNat % 65536 = 0 := by
  -- the subtraction does not wrap above the base
  have hidx (h : 0x30000000 ≤ virtAddr) : ((virtAddr - 0x30000000) >>> 16).toNat =
      (virtAddr.toNat - 0x30000000) / 65536 := by
    have hle : 0x30000000 ≤ virtAddr.toNat := h
    rw [BitVec.toNat_ushiftRight, Nat.shiftRight_eq_div_pow, BitVec.toNat_sub_of_le h]
    rfl
  have hbounds : (0x30000000 ≤ virtAddr ∧ virtAddr < 0x80000000) ↔
      0x30000000 ≤ virtAddr.toNat ∧ virtAddr.toNat < 0x80000000 := Iff.rfl
  simp only [vmCommonCheckGetIdx, ne_eq, and_mask_eq_zero, userPageCount]
  constructor
  · intro h
    split at h
    · cases h
    split at h
    · cases h
    split at h
    · cases h
    rename_i hvirt hsize hrange
    have hrange := not_not.mp hrange
    cases h
    rw [hidx hrange.1]
    have hb := hbounds.mp hrange
    omega
  · rintro ⟨hvirt, hlt, hsize⟩
    have hrange := hbounds.mpr ⟨by omega, by omega⟩
    rw [if_neg (by omega), if_neg (by omega), if_neg (not_not.mpr hrange), hidx hrange.1]
    congr 1
    omega

/-! ### The loop -/

/-- So many rounds of a loop. -/
def sweep (body : UserPages → Nat → BitVec 32 → BitVec 32 → UserPages) :
    Nat → Nat → BitVec 32 → BitVec 32 → UserPages → UserPages
  | 0, _, _, _, s => s
  | n + 1, pageIdx, virtAddr, pageAddr, s =>
    sweep body n (pageIdx + 1) (virtAddr + vmUserPageSize) (pageAddr + vmUserPageSize)
      (body s pageIdx virtAddr pageAddr)

variable {body : UserPages → Nat → BitVec 32 → BitVec 32 → UserPages}

/-- **The loop ends**, after one round for each page of the size. -/
theorem vmLoop_eq {fuel : Nat} {size : BitVec 32} (hsize : size.toNat % 65536 = 0)
    (hfuel : size.toNat / 65536 < fuel) (pageIdx : Nat) (virtAddr pageAddr : BitVec 32)
    (s : UserPages) :
    vmLoop body fuel size pageIdx virtAddr pageAddr s =
      some (sweep body (size.toNat / 65536) pageIdx virtAddr pageAddr s) := by
  induction fuel generalizing size pageIdx virtAddr pageAddr s with
  | zero => omega
  | succ fuel ih =>
    rw [vmLoop]
    by_cases hz : size = 0
    · rw [if_pos hz, hz]
      rfl
    · have hpos : size.toNat ≠ 0 := fun h => hz (BitVec.toNat_inj.mp h)
      have hsub : (size - vmUserPageSize).toNat = size.toNat - 65536 := by
        have hle : vmUserPageSize ≤ size := by
          rw [BitVec.le_def, toNat_vmUserPageSize]
          omega
        rw [BitVec.toNat_sub_of_le hle, toNat_vmUserPageSize]
      have hrounds : size.toNat / 65536 = (size.toNat - 65536) / 65536 + 1 := by omega
      rw [if_neg hz, ih (by omega) (by omega), hsub, hrounds, sweep]

/-- What each round does: it looks at one entry, which it makes a function of the
entry and the page address, and tells the TLB if it changes. -/
structure Visits (body : UserPages → Nat → BitVec 32 → BitVec 32 → UserPages)
    (entry : BitVec 32 → BitVec 32 → BitVec 32) : Prop where
  touched : ∀ s i virt addr, (body s i virt addr).touched = s.touched ++ [i]
  table : ∀ s i virt addr, (body s i virt addr).userpagetable =
    update s.userpagetable i (entry (s.userpagetable i) addr)
  keeps : ∀ s i virt addr, s.invalidated ⊆ (body s i virt addr).invalidated
  tells : ∀ s i virt addr, entry (s.userpagetable i) addr ≠ s.userpagetable i →
    virt ∈ (body s i virt addr).invalidated

variable {entry : BitVec 32 → BitVec 32 → BitVec 32}

theorem Visits.touched_sweep (h : Visits body entry) (n pageIdx : Nat)
    (virtAddr pageAddr : BitVec 32) (s : UserPages) :
    (sweep body n pageIdx virtAddr pageAddr s).touched = s.touched ++ List.range' pageIdx n := by
  induction n generalizing pageIdx virtAddr pageAddr s with
  | zero => simp [sweep]
  | succ n ih =>
    rw [sweep, ih, h.touched, append_assoc, List.range'_succ, singleton_append]

/-- The address or page address of round `i - pageIdx`, counted from the second one. -/
theorem add_page_add {pageIdx i : Nat} (hi : pageIdx + 1 ≤ i) (addr : BitVec 32) :
    addr + vmUserPageSize + BitVec.ofNat 32 ((i - (pageIdx + 1)) * 65536) =
      addr + BitVec.ofNat 32 ((i - pageIdx) * 65536) := by
  have hround : i - pageIdx = i - (pageIdx + 1) + 1 := by omega
  have hpage : vmUserPageSize = BitVec.ofNat 32 65536 := rfl
  rw [hround, Nat.add_mul, Nat.one_mul, BitVec.ofNat_add, hpage, BitVec.add_assoc,
    BitVec.add_comm (BitVec.ofNat 32 65536)]

/-- The table after some rounds: each page of the range has its entry, from the
one it had and the page address of its round. -/
theorem Visits.table_sweep (h : Visits body entry) (n pageIdx : Nat)
    (virtAddr pageAddr : BitVec 32) (s : UserPages) (i : Nat) :
    (sweep body n pageIdx virtAddr pageAddr s).userpagetable i =
      if pageIdx ≤ i ∧ i < pageIdx + n then
        entry (s.userpagetable i) (pageAddr + BitVec.ofNat 32 ((i - pageIdx) * 65536))
      else s.userpagetable i := by
  induction n generalizing pageIdx virtAddr pageAddr s with
  | zero =>
    rw [sweep, if_neg (by omega)]
  | succ n ih =>
    rw [sweep, ih, h.table]
    by_cases hi : i = pageIdx
    · rw [hi, if_neg (by omega), if_pos (by omega), update_self, Nat.sub_self]
      simp
    · rw [update_of_ne hi]
      by_cases hin : pageIdx + 1 ≤ i ∧ i < pageIdx + 1 + n
      · rw [if_pos hin, if_pos (by omega), add_page_add hin.1]
      · rw [if_neg hin, if_neg (by omega)]

/-- The user address of a page of the table. -/
def userPageAddr (i : Nat) : BitVec 32 := BitVec.ofNat 32 (0x30000000 + i * 65536)

/-- From `s` to `s'` no page changes without `vm_invalidate_tlb`. -/
structure Told (s s' : UserPages) : Prop where
  keeps : s.invalidated ⊆ s'.invalidated
  tells : ∀ i, s'.userpagetable i ≠ s.userpagetable i → userPageAddr i ∈ s'.invalidated

theorem Told.refl (s : UserPages) : Told s s := ⟨List.Subset.refl _, fun _ hi => absurd rfl hi⟩

theorem Told.trans {s₁ s₂ s₃ : UserPages} (h : Told s₁ s₂) (h' : Told s₂ s₃) : Told s₁ s₃ := by
  refine ⟨List.Subset.trans h.keeps h'.keeps, fun i hi => ?_⟩
  by_cases hlast : s₃.userpagetable i = s₂.userpagetable i
  · rw [hlast] at hi
    exact h'.keeps (h.tells i hi)
  · exact h'.tells i hlast

/-- **The TLB is told** of every page that the loop changes. -/
theorem Visits.told (h : Visits body entry) (n pageIdx : Nat) (pageAddr : BitVec 32)
    (s : UserPages) : Told s (sweep body n pageIdx (userPageAddr pageIdx) pageAddr s) := by
  induction n generalizing pageIdx pageAddr s with
  | zero => exact Told.refl s
  | succ n ih =>
    have hround : Told s (body s pageIdx (userPageAddr pageIdx) pageAddr) := by
      refine ⟨h.keeps .., fun i hi => ?_⟩
      rw [h.table] at hi
      by_cases hpage : i = pageIdx
      · subst hpage
        rw [update_self] at hi
        exact h.tells _ _ _ _ hi
      · rw [update_of_ne hpage] at hi
        exact absurd rfl hi
    have hnext : userPageAddr pageIdx + vmUserPageSize = userPageAddr (pageIdx + 1) := by
      rw [userPageAddr, userPageAddr, Nat.add_mul, ← Nat.add_assoc, BitVec.ofNat_add _ (1 * 65536)]
      rfl
    rw [sweep, hnext]
    exact hround.trans (ih ..)

theorem visits_write (value : BitVec 32 → BitVec 32) :
    Visits (fun s i virt addr => s.write i virt (value addr)) fun _ addr => value addr where
  touched _ _ _ _ := rfl
  table _ _ _ _ := rfl
  keeps s _ virt _ := subset_append_left s.invalidated [virt]
  tells s _ virt _ _ := mem_append_right s.invalidated (mem_singleton_self virt)

theorem visits_create : Visits UserPages.write fun _ addr => addr := visits_write id

theorem visits_destroy : Visits (fun s i virt _ => s.write i virt 0) fun _ _ => 0 :=
  visits_write fun _ => 0

/-- An entry with new flags; an empty one stays empty. -/
def reflag (wimg old : BitVec 32) : BitVec 32 :=
  if old ≠ 0 then (old &&& ~~~ vmUserPageMask) ||| wimg else old

theorem visits_setFlags (wimg : BitVec 32) :
    Visits (fun s i virt _ => s.setFlags wimg i virt) fun old _ => reflag wimg old := by
  refine ⟨fun s i virt _ => ?_, fun s i virt _ => ?_, fun s i virt _ => ?_, fun s i virt _ => ?_⟩
  · rw [UserPages.setFlags]
    split <;> rfl
  · rw [UserPages.setFlags, reflag]
    split
    · rfl
    · exact (update_eq_self i s.userpagetable).symm
  · rw [UserPages.setFlags]
    split
    · exact subset_append_left s.invalidated [virt]
    · exact List.Subset.refl _
  · intro hchange
    rw [UserPages.setFlags]
    by_cases hentry : s.userpagetable i ≠ 0
    · rw [if_pos hentry]
      exact mem_append_right s.invalidated (mem_singleton_self virt)
    · rw [reflag, if_neg hentry] at hchange
      exact absurd rfl hchange

/-! ### The functions as sweeps -/

variable {virtAddr size : BitVec 32} {fuel pageIdx : Nat} {s : UserPages}

theorem vmCreateUserMapping_eq {physAddr : BitVec 64} {wimg : BitVec 32}
    (hphys : physAddr &&& vmUserPageMask.setWidth 64 = 0)
    (hidx : vmCommonCheckGetIdx virtAddr size = some pageIdx) (hfuel : size.toNat / 65536 < fuel) :
    vmCreateUserMapping fuel s virtAddr physAddr size wimg =
      some (sweep UserPages.write (size.toNat / 65536) pageIdx virtAddr
        ((physAddr ||| wimg.signExtend 64).setWidth 32) s) := by
  obtain ⟨-, -, hsize⟩ := vmCommonCheckGetIdx_eq_some.mp hidx
  rw [vmCreateUserMapping, if_neg (not_not.mpr hphys), hidx]
  exact vmLoop_eq hsize hfuel _ _ _ _

theorem vmDestroyUserMapping_eq
    (hidx : vmCommonCheckGetIdx virtAddr size = some pageIdx) (hfuel : size.toNat / 65536 < fuel) :
    vmDestroyUserMapping fuel s virtAddr size =
      some (sweep (fun s i virt _ => s.write i virt 0) (size.toNat / 65536) pageIdx virtAddr 0 s) := by
  obtain ⟨-, -, hsize⟩ := vmCommonCheckGetIdx_eq_some.mp hidx
  rw [vmDestroyUserMapping, hidx]
  exact vmLoop_eq hsize hfuel _ _ _ _

theorem vmSetUserMappingFlags_eq {wimg : BitVec 32}
    (hidx : vmCommonCheckGetIdx virtAddr size = some pageIdx) (hfuel : size.toNat / 65536 < fuel) :
    vmSetUserMappingFlags fuel s virtAddr size wimg =
      some (sweep (fun s i virt _ => s.setFlags wimg i virt) (size.toNat / 65536) pageIdx virtAddr
        0 s) := by
  obtain ⟨-, -, hsize⟩ := vmCommonCheckGetIdx_eq_some.mp hidx
  rw [vmSetUserMappingFlags, hidx]
  exact vmLoop_eq hsize hfuel _ _ _ _

/-! ### Staying in the table -/

/-- The indices a loop touches are in the table exactly if its range ends where
the table does, or before. -/
theorem Visits.inTable_iff (h : Visits body entry)
    (hidx : vmCommonCheckGetIdx virtAddr size = some pageIdx) (pageAddr : BitVec 32)
    (table : Nat → BitVec 32) :
    (∀ i ∈ (sweep body (size.toNat / 65536) pageIdx virtAddr pageAddr (.ofTable table)).touched,
      i < userPageCount) ↔ virtAddr.toNat + size.toNat ≤ 0x80000000 := by
  obtain ⟨hvirt, hlt, hsize⟩ := vmCommonCheckGetIdx_eq_some.mp hidx
  rw [h.touched_sweep, UserPages.ofTable, nil_append]
  simp only [mem_range'_1, userPageCount] at hlt ⊢
  constructor
  · intro hall
    by_contra hover
    -- the last page of the range
    have hlast := hall (pageIdx + (size.toNat / 65536 - 1)) ⟨by omega, by omega⟩
    omega
  · intro hend i hi
    omega

/-- **Ends and bounds.**  For every address, size and flags that pass the
assertions the three functions end; and they touch the table at its own indices
only, exactly if the range, with its size read without a sign, ends at
0x80000000 or before. -/
theorem userPages_inTable_iff (table : Nat → BitVec 32) (physAddr : BitVec 64) (wimg : BitVec 32)
    (hphys : physAddr &&& vmUserPageMask.setWidth 64 = 0)
    (hidx : vmCommonCheckGetIdx virtAddr size = some pageIdx) :
    ∃ created destroyed flagged, (∀ fuel > size.toNat / 65536,
        vmCreateUserMapping fuel (.ofTable table) virtAddr physAddr size wimg = some created ∧
        vmDestroyUserMapping fuel (.ofTable table) virtAddr size = some destroyed ∧
        vmSetUserMappingFlags fuel (.ofTable table) virtAddr size wimg = some flagged) ∧
      ((∀ i ∈ created.touched, i < userPageCount) ↔
        virtAddr.toNat + size.toNat ≤ 0x80000000) ∧
      ((∀ i ∈ destroyed.touched, i < userPageCount) ↔
        virtAddr.toNat + size.toNat ≤ 0x80000000) ∧
      ((∀ i ∈ flagged.touched, i < userPageCount) ↔
        virtAddr.toNat + size.toNat ≤ 0x80000000) := by
  have hcreate := visits_create.inTable_iff hidx ((physAddr ||| wimg.signExtend 64).setWidth 32)
    table
  have hdestroy := visits_destroy.inTable_iff hidx 0 table
  have hflags := (visits_setFlags wimg).inTable_iff hidx 0 table
  refine ⟨_, _, _, fun fuel hfuel => ⟨?_, ?_, ?_⟩, hcreate, hdestroy, hflags⟩
  · exact vmCreateUserMapping_eq hphys hidx hfuel
  · exact vmDestroyUserMapping_eq hidx hfuel
  · exact vmSetUserMappingFlags_eq hidx hfuel

/-- The two last pages of the table, mapped to the first of memory. -/
theorem userPages_inTable_lastPages :
    vmCommonCheckGetIdx 0x7FFE0000 0x20000 = some 20478 ∧
      ∃ created destroyed flagged, (∀ fuel > (0x20000 : BitVec 32).toNat / 65536,
        vmCreateUserMapping fuel (.ofTable 0) 0x7FFE0000 0 0x20000 1 = some created ∧
        vmDestroyUserMapping fuel (.ofTable 0) 0x7FFE0000 0x20000 = some destroyed ∧
        vmSetUserMappingFlags fuel (.ofTable 0) 0x7FFE0000 0x20000 1 = some flagged) ∧
      ((∀ i ∈ created.touched, i < userPageCount) ↔
        (0x7FFE0000 : BitVec 32).toNat + (0x20000 : BitVec 32).toNat ≤ 0x80000000) ∧
      ((∀ i ∈ destroyed.touched, i < userPageCount) ↔
        (0x7FFE0000 : BitVec 32).toNat + (0x20000 : BitVec 32).toNat ≤ 0x80000000) ∧
      ((∀ i ∈ flagged.touched, i < userPageCount) ↔
        (0x7FFE0000 : BitVec 32).toNat + (0x20000 : BitVec 32).toNat ≤ 0x80000000) := by
  have hidx : vmCommonCheckGetIdx 0x7FFE0000 0x20000 = some 20478 := by decide
  exact ⟨hidx, userPages_inTable_iff 0 0 1 (by decide) hidx⟩

/-- One page more, and the assertions still hold: `vm_destroy_user_mapping` clears
the word behind the table. -/
theorem userPages_past_table :
    vmCommonCheckGetIdx 0x7FFE0000 0x30000 = some 20478 ∧
      (vmDestroyUserMapping 4 (.ofTable 0) 0x7FFE0000 0x30000).map UserPages.touched =
        some [20478, 20479, 20480] ∧ ¬ 20480 < userPageCount := by
  refine ⟨by decide, by decide, by decide⟩

end LibXenon
