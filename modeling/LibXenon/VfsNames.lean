/-
LibXenon/VfsNames.lean

Names of devices: which slot a path finds, over whole runs of `AddDevice` and
`RemoveDevice`.

`FindDevice` takes the first slot whose name the path begins with, followed by
a colon or by a digit and a colon.  So `usb0:` finds a device called `usb` if
that comes before the one called `usb0`.  `AddDevice` replaces a device of the
same name only if no slot before it is free; otherwise there are two of that
name.  Where names that differ by a digit do not meet and a name is not added
again behind a hole, every path finds its device.
-/
import LibXenon.VfsSystem

namespace LibXenon

open Transition List

variable {s s' : Vfs}

/-! ### Names in paths -/

/-- `b` is `a` followed by a digit. -/
def extendsByDigit (a b : List Char) : Bool :=
  b.dropLast == a && b.getLast?.any Char.isDigit

theorem extendsByDigit_iff {a b : List Char} :
    extendsByDigit a b = true ↔ ∃ c : Char, c.isDigit = true ∧ b = a ++ [c] := by
  rw [extendsByDigit, Bool.and_eq_true, beq_iff_eq]
  constructor
  · rintro ⟨rfl, hlast⟩
    rcases eq_nil_or_concat b with rfl | ⟨l, c, rfl⟩
    · cases hlast
    · rw [concat_eq_append, List.getLast?_concat] at hlast
      exact ⟨c, hlast, by rw [concat_eq_append, dropLast_concat]⟩
  · rintro ⟨c, hc, rfl⟩
    rw [dropLast_concat, List.getLast?_concat]
    exact ⟨rfl, hc⟩

theorem extendsByDigit_self (a : List Char) : extendsByDigit a a = false := by
  rw [Bool.eq_false_iff]
  intro h
  obtain ⟨c, -, heq⟩ := extendsByDigit_iff.mp h
  have hlen := congrArg List.length heq
  rw [length_append, length_singleton] at hlen
  omega

theorem matchesName_cons (a b : Char) (name path : List Char) :
    matchesName (a :: name) (b :: path) = (a == b && matchesName name path) := by
  rw [matchesName, matchesName, isPrefixOf_cons_cons, length_cons, drop_succ_cons,
    Bool.and_assoc]

theorem matchesName_nil {c : Char} {path : List Char} (hc : c ≠ ':') :
    matchesName [] (c :: path) = (c.isDigit && path.head? == some ':') := by
  rw [matchesName, length_nil, drop_zero, isPrefixOf_nil_left, Bool.true_and]
  split
  · rename_i h
    cases h
    exact absurd rfl hc
  · rename_i h
    cases h
    exact (Bool.and_true _).symm
  · rename_i h
    cases path with
    | nil => exact (Bool.and_false _).symm
    | cons d path =>
      have hd : (some d == some ':') = false := by
        rw [Bool.eq_false_iff]
        intro heq
        rw [beq_iff_eq] at heq
        cases heq
        exact h c path rfl
      rw [List.head?_cons, hd, Bool.and_false]

theorem extendsByDigit_cons (a b : Char) (name other : List Char) :
    extendsByDigit (a :: name) (b :: other) = true ↔ a = b ∧ extendsByDigit name other = true := by
  rw [extendsByDigit_iff, extendsByDigit_iff]
  constructor
  · rintro ⟨c, hc, heq⟩
    rw [cons_append, List.cons.injEq] at heq
    exact ⟨heq.1.symm, c, hc, heq.2⟩
  · rintro ⟨rfl, c, hc, rfl⟩
    exact ⟨c, hc, rfl⟩

theorem matchesName_path {name other : List Char} (rest : List Char) (hname : ':' ∉ name)
    (hother : ':' ∉ other) :
    matchesName name (other ++ ':' :: rest) = true ↔
      name = other ∨ extendsByDigit name other = true := by
  induction name generalizing other with
  | nil =>
    cases other with
    | nil => exact ⟨fun _ => .inl rfl, fun _ => rfl⟩
    | cons c other =>
      rw [mem_cons, not_or] at hother
      rw [cons_append, matchesName_nil (Ne.symm hother.1), extendsByDigit_iff,
        Bool.and_eq_true, beq_iff_eq]
      cases other with
      | nil => simp
      | cons d other =>
        have hd : d ≠ ':' := fun heq => hother.2 (heq ▸ mem_cons_self)
        simp [hd]
  | cons a name ih =>
    rw [mem_cons, not_or] at hname
    cases other with
    | nil =>
      rw [nil_append, matchesName_cons]
      simp [Ne.symm hname.1, extendsByDigit]
    | cons b other =>
      rw [mem_cons, not_or] at hother
      rw [cons_append, matchesName_cons, Bool.and_eq_true, beq_iff_eq,
        ih hname.2 hother.2, extendsByDigit_cons, List.cons.injEq]
      exact and_or_left

/-! ### Adding and removing -/

/-- The name in a slot. -/
def Vfs.name (s : Vfs) (i : Nat) : List Char := (s.devoptabList i).name

/-- A device is registered in the slot. -/
def Vfs.registered (s : Vfs) (i : Nat) : Prop :=
  3 ≤ i ∧ i < 16 ∧ s.name i ≠ dotabStdnull.name

/-- Names a device may have: no colon, and neither of the built-in ones. -/
def ordinaryName (name : List Char) : Bool :=
  !decide (':' ∈ name) && name != dotabStdnull.name && name != consoleOptab.name

/-- No name in the table, nor that of a free slot, differs from the new one by
a digit at the end; and the new name is not in a slot behind a free one. -/
def Vfs.fitsIn (s : Vfs) (name : List Char) : Bool :=
  (List.range stdMax).all (fun i =>
    !extendsByDigit (s.name i) name && !extendsByDigit name (s.name i)) &&
  !extendsByDigit dotabStdnull.name name &&
  (List.range stdMax).all fun i => (List.range i).all fun j =>
    !(decide (3 ≤ j) && s.name j == dotabStdnull.name && s.name i == name)

/-- `AddDevice` only with such names. -/
def addsApart (s : Vfs) : VfsAction → Bool
  | .addDevice device => ordinaryName device.name && s.fitsIn device.name
  | .removeDevice _ | .setDefaultDevice _ | .openFile _ _ _ | .close _ => true

/-- Every registered name is there once, and no name of the table is one of
them without a digit. -/
structure NamesApart (s : Vfs) : Prop where
  colon : ∀ i, i < 16 → ':' ∉ s.name i
  low : ∀ i, i < 3 → s.name i = consoleOptab.name ∨ s.name i = dotabStdnull.name
  high : ∀ i, 3 ≤ i → i < 16 → s.name i ≠ consoleOptab.name
  unique : ∀ i j, s.registered i → s.registered j → s.name i = s.name j → i = j
  apart : ∀ i j, i < 16 → s.registered j → extendsByDigit (s.name i) (s.name j) = false
  null : ∀ j, s.registered j → extendsByDigit dotabStdnull.name (s.name j) = false

theorem name_setDevice (i j : Nat) (d : Devoptab) :
    (s.setDevice i d).name j = if j = i then d.name else s.name j := by
  rw [Vfs.name, Vfs.setDevice]
  dsimp only
  split
  · rfl
  · rfl

theorem NamesApart.start : NamesApart Vfs.start := by
  have hnull : ∀ i, 3 ≤ i → Vfs.start.name i = dotabStdnull.name := fun i hi => by
    have h : (Vfs.start.devoptabList i) = dotabStdnull := if_neg (by omega)
    rw [Vfs.name, h]
  have hconsole : ∀ i, i < 3 → Vfs.start.name i = consoleOptab.name := fun i hi => by
    have h : (Vfs.start.devoptabList i) = consoleOptab := if_pos hi
    rw [Vfs.name, h]
  have hnone : ∀ i, ¬ Vfs.start.registered i := fun i h => h.2.2 (hnull i h.1)
  refine ⟨fun i hi => ?_, fun i hi => .inl (hconsole i hi), fun i hlow hhigh => ?_,
    fun i j hi => absurd hi (hnone i), fun i j _ hj => absurd hj (hnone j),
    fun j hj => absurd hj (hnone j)⟩
  · by_cases hlow : i < 3
    · rw [hconsole i hlow]
      decide
    · rw [hnull i (by omega)]
      decide
  · rw [hnull i hlow]
    decide

/-- A device in slot `k`; a name that it registers is a new one. -/
theorem NamesApart.set (h : NamesApart s) {d : Devoptab} {k : Nat} (hcolon : ':' ∉ d.name)
    (hlow : k < 3 → d.name = consoleOptab.name ∨ d.name = dotabStdnull.name)
    (hhigh : d.name ≠ consoleOptab.name)
    (hext : ∀ j, s.registered j → extendsByDigit d.name (s.name j) = false)
    (hnew : d.name ≠ dotabStdnull.name → (∀ j, j ≠ k → s.registered j → s.name j ≠ d.name) ∧
      (∀ i, i < 16 → extendsByDigit (s.name i) d.name = false) ∧
      extendsByDigit dotabStdnull.name d.name = false) : NamesApart (s.setDevice k d) := by
  -- a registered name is the new one, or an old one of another slot
  have hreg : ∀ j, (s.setDevice k d).registered j →
      j = k ∧ d.name ≠ dotabStdnull.name ∧ (s.setDevice k d).name j = d.name ∨
      j ≠ k ∧ s.registered j ∧ (s.setDevice k d).name j = s.name j := by
    rintro j ⟨hj, hj', hne⟩
    rw [name_setDevice] at hne ⊢
    by_cases hjk : j = k
    · rw [if_pos hjk] at hne ⊢
      exact .inl ⟨hjk, hne, rfl⟩
    · rw [if_neg hjk] at hne ⊢
      exact .inr ⟨hjk, ⟨hj, hj', hne⟩, rfl⟩
  refine ⟨fun i hi => ?_, fun i hi => ?_, fun i hi hi' => ?_, fun i j hi hj heq => ?_,
    fun i j hi hj => ?_, fun j hj => ?_⟩
  · rw [name_setDevice]
    split
    · exact hcolon
    · exact h.colon i hi
  · rw [name_setDevice]
    split
    · rename_i hik
      exact hlow (hik ▸ hi)
    · exact h.low i hi
  · rw [name_setDevice]
    split
    · exact hhigh
    · exact h.high i hi hi'
  · rcases hreg i hi with ⟨hik, hd, hni⟩ | ⟨hik, hi', hni⟩
    · rcases hreg j hj with ⟨hjk, -, -⟩ | ⟨hjk, hj', hnj⟩
      · rw [hik, hjk]
      · rw [hni, hnj] at heq
        exact absurd heq.symm ((hnew hd).1 j hjk hj')
    · rcases hreg j hj with ⟨-, hd, hnj⟩ | ⟨-, hj', hnj⟩
      · rw [hni, hnj] at heq
        exact absurd heq ((hnew hd).1 i hik hi')
      · rw [hni, hnj] at heq
        exact h.unique i j hi' hj' heq
  · rcases hreg j hj with ⟨-, hd, hnj⟩ | ⟨-, hj', hnj⟩
    · rw [hnj, name_setDevice]
      split
      · exact extendsByDigit_self d.name
      · exact (hnew hd).2.1 i hi
    · rw [hnj, name_setDevice]
      split
      · exact hext j hj'
      · exact h.apart i j hi hj'
  · rcases hreg j hj with ⟨-, hd, hnj⟩ | ⟨-, hj', hnj⟩
    · rw [hnj]
      exact (hnew hd).2.2
    · rw [hnj]
      exact h.null j hj'

theorem NamesApart.free (h : NamesApart s) (k : Nat) : NamesApart (s.setDevice k dotabStdnull) :=
  h.set (by decide) (fun _ => .inr rfl) (by decide) h.null fun hne => absurd rfl hne

/-- What `fitsIn` asks for. -/
structure FitsIn (s : Vfs) (name : List Char) : Prop where
  apart : ∀ i, i < 16 →
    extendsByDigit (s.name i) name = false ∧ extendsByDigit name (s.name i) = false
  null : extendsByDigit dotabStdnull.name name = false
  hole : ∀ i, i < 16 → ∀ j, j < i → 3 ≤ j → s.name j = dotabStdnull.name → s.name i ≠ name

theorem fitsIn_of_true {name : List Char} (h : s.fitsIn name = true) : FitsIn s name := by
  rw [Vfs.fitsIn, Bool.and_eq_true, Bool.and_eq_true, all_eq_true, all_eq_true,
    Bool.not_eq_true'] at h
  obtain ⟨⟨hapart, hnull⟩, hhole⟩ := h
  refine ⟨fun i hi => ?_, hnull, fun i hi j hj hlow hfree heq => ?_⟩
  · have hpair := hapart i (mem_range.mpr hi)
    rw [Bool.and_eq_true, Bool.not_eq_true', Bool.not_eq_true'] at hpair
    exact hpair
  · have hall := all_eq_true.mp (hhole i (mem_range.mpr hi)) j (mem_range.mpr hj)
    rw [decide_eq_true hlow, beq_iff_eq.mpr hfree, beq_iff_eq.mpr heq] at hall
    cases hall

/-- The slot `AddDevice` takes is the first that is free or has the name. -/
theorem addSlot_spec {name : List Char} {k : Nat} (h : s.addSlot name = some k) :
    3 ≤ k ∧ k < 16 ∧ (s.name k = name ∨ s.name k = dotabStdnull.name) ∧
      ∀ j, 3 ≤ j → j < k → s.name j ≠ name := by
  obtain ⟨hk, hmem, hfirst⟩ := List.find?_range_eq_some.mp h
  rw [Bool.and_eq_true, decide_eq_true_eq, Bool.or_eq_true, beq_iff_eq, beq_iff_eq] at hk
  refine ⟨hk.1, mem_range.mp hmem, hk.2, fun j hlow hj heq => ?_⟩
  have hno := hfirst j hj
  have hname : ((s.devoptabList j).name == name) = true := beq_iff_eq.mpr heq
  rw [decide_eq_true hlow, hname] at hno
  cases hno

theorem NamesApart.add (h : NamesApart s) {d : Devoptab} {k : Nat}
    (hord : ordinaryName d.name = true) (hfit : FitsIn s d.name)
    (hslot : s.addSlot d.name = some k) : NamesApart (s.setDevice k d) := by
  rw [ordinaryName, Bool.and_eq_true, Bool.and_eq_true, Bool.not_eq_true', decide_eq_false_iff_not,
    bne_iff_ne, bne_iff_ne] at hord
  obtain ⟨⟨hcolon, hnotnull⟩, hnotconsole⟩ := hord
  obtain ⟨hk3, hk16, hkname, hfirst⟩ := addSlot_spec hslot
  -- no other registered slot has the new name
  have hother : ∀ j, j ≠ k → s.registered j → s.name j ≠ d.name := by
    rintro j hjk ⟨hlow, hhigh, hreg⟩ heq
    rcases Nat.lt_or_gt_of_ne hjk with hlt | hgt
    · exact hfirst j hlow hlt heq
    · rcases hkname with hsame | hfree
      · have hkreg : s.registered k := ⟨hk3, hk16, by rw [hsame]; exact hnotnull⟩
        exact hjk (h.unique j k ⟨hlow, hhigh, hreg⟩ hkreg (heq.trans hsame.symm))
      · exact hfit.hole j hhigh k hgt hk3 hfree heq
  exact h.set hcolon (fun hlow => by omega) hnotconsole (fun j hj => (hfit.apart j hj.2.1).2)
    fun _ => ⟨hother, fun i hi => (hfit.apart i hi).1, hfit.null⟩

theorem NamesApart.congr (h : NamesApart s) (heq : s'.devoptabList = s.devoptabList) :
    NamesApart s' := by
  have hname : s'.name = s.name := by
    funext i
    rw [Vfs.name, Vfs.name, heq]
  have hreg : s'.registered = s.registered := by
    funext i
    rw [Vfs.registered, Vfs.registered, hname]
  refine ⟨?_, ?_, ?_, ?_, ?_, ?_⟩
  · rw [hname]
    exact h.colon
  · rw [hname]
    exact h.low
  · rw [hname]
    exact h.high
  · rw [hname, hreg]
    exact h.unique
  · rw [hname, hreg]
    exact h.apart
  · rw [hname, hreg]
    exact h.null

theorem NamesApart.step {a : VfsAction} (h : NamesApart s) (hg : addsApart s a = true)
    (hs : vfsStep s a = some s') : NamesApart s' := by
  cases vfsStep_effect hs with
  | add hslot =>
    rw [addsApart, Bool.and_eq_true] at hg
    exact h.add hg.1 (fitsIn_of_true hg.2) hslot
  | free k => exact h.free k
  | default hlow hhigh => exact h.congr rfl
  | handles hfrom => exact h.congr (by rw [hfrom.frame])

/-! ### Finding -/

theorem NamesApart.findDevice (h : NamesApart s) {k : Nat} (hk : s.registered k)
    (rest : List Char) : s.findDevice (s.name k ++ ':' :: rest) = k := by
  have hcolon : ':' ∈ s.name k ++ ':' :: rest :=
    mem_append_right _ mem_cons_self
  have hfind : (List.range stdMax).find?
      (fun i => matchesName (s.devoptabList i).name (s.name k ++ ':' :: rest)) = some k := by
    refine List.find?_range_eq_some.mpr
      ⟨(matchesName_path rest (h.colon k hk.2.1) (h.colon k hk.2.1)).mpr (.inl rfl),
        mem_range.mpr hk.2.1, fun j hj => ?_⟩
    have hj16 : j < 16 := Nat.lt_trans hj hk.2.1
    rw [Bool.not_eq_true', Bool.eq_false_iff]
    intro hfits
    rcases (matchesName_path rest (h.colon j hj16) (h.colon k hk.2.1)).mp hfits with heq | hext
    · -- an equal name is registered, or built in
      by_cases hlow : j < 3
      · rcases h.low j hlow with hcon | hnull
        · exact h.high k hk.1 hk.2.1 (heq ▸ hcon)
        · exact hk.2.2 (heq ▸ hnull)
      · have hjreg : s.registered j := ⟨Nat.not_lt.mp hlow, hj16, by rw [heq]; exact hk.2.2⟩
        exact absurd (h.unique j k hjreg hk heq) (Nat.ne_of_lt hj)
    · rw [h.apart j k hj16 hk] at hext
      cases hext
  rw [Vfs.findDevice, if_pos hcolon, hfind]

/-- **Devices are found.**  As long as names are added that fit in, each is in
one slot at most, and a path that begins with it finds that slot. -/
theorem devices_found (hrun : Reach vfsStep (fun s a => addsApart s a = true) .start s) :
    (∀ i j, s.registered i → s.registered j → s.name i = s.name j → i = j) ∧
      ∀ k, s.registered k → ∀ rest, s.findDevice (s.name k ++ ':' :: rest) = k := by
  have h : NamesApart s := hrun.invariant NamesApart.start fun _ _ _ h hg hs => h.step hg hs
  exact ⟨h.unique, fun k hk rest => h.findDevice hk rest⟩

/-- Two devices, the first of them removed, and a third in its place. -/
theorem devices_found_after_remove : ∃ s, Reach vfsStep (fun s a => addsApart s a = true) .start s ∧
    s.name 3 = "dvd".toList ∧ s.name 4 = "usb".toList ∧
    s.findDevice "usb:file".toList = 4 ∧ s.findDevice "dvd:file".toList = 3 := by
  refine exists_reach_imp [.addDevice ⟨3, "hdd".toList, fun _ => true⟩, .addDevice usbDriver,
      .removeDevice "hdd:".toList, .addDevice ⟨4, "dvd".toList, fun _ => true⟩]
    (fun s => s.name 3 = "dvd".toList ∧ s.name 4 = "usb".toList) (by decide +kernel)
    fun s hreach ⟨hname₃, hname₄⟩ => ?_
  have hfound := (devices_found hreach).2
  have h₃ := hfound 3 ⟨by decide, by decide, by rw [hname₃]; decide⟩ "file".toList
  have h₄ := hfound 4 ⟨by decide, by decide, by rw [hname₄]; decide⟩ "file".toList
  rw [hname₃] at h₃
  rw [hname₄] at h₄
  exact ⟨hname₃, hname₄, h₄, h₃⟩

/-- A name added again behind a hole is there twice; and the path of `usb0` finds
`usb`. -/
theorem devices_lost :
    (∃ s, Reach vfsStep (fun _ _ => True) .start s ∧
      s.name 3 = "usb".toList ∧ s.name 4 = "usb".toList) ∧
    ∃ s, Reach vfsStep (fun _ _ => True) .start s ∧
      s.name 4 = "usb0".toList ∧ s.findDevice "usb0:file".toList = 3 := by
  constructor
  · exact exists_reach [.addDevice ⟨3, "hdd".toList, fun _ => true⟩, .addDevice usbDriver,
      .removeDevice "hdd:".toList, .addDevice usbDriver] (by decide +kernel)
  · exact exists_reach [.addDevice usbDriver, .addDevice ⟨3, "usb0".toList, fun _ => true⟩]
      (by decide +kernel)

end LibXenon
