/-
LibXenon/DirtyBlocks.lean

A shadow copy of a device's memory with one dirty bit per block.

The host keeps a copy `shadow` of the device memory `dev`, divided into `w`
blocks of `B` entries.  A store into the copy marks the blocks it touches in
a mask; an upload finds the runs of marked blocks one after the other, clears
their bits, and sends each run.

* `mark` — set the bits of as many blocks as a length covers;
* `firstSet`, `clearRun` — the two scans that find and clear a run;
* `drain` — the loop over the runs, with `drain_rule`, its invariant rule;
* `Synced` — unmarked blocks agree; `Sent` — what an upload has done so far;
  `Synced.store` and `Synced.upload` are the two ends of the protocol.
-/
import Mathlib.Data.Nat.Basic
import Mathlib.Order.Basic
import Mathlib.Tactic.Common

namespace DirtyBlocks

variable {w : Nat}

/-! ### Marking -/

/-- `while (len > 0) { m |= 1 << base; ++base; len -= unit; }`, for so many
rounds. -/
def mark (unit : Nat) : Nat → BitVec w → Nat → Nat → BitVec w
  | 0, m, _, _ => m
  | rounds + 1, m, base, len =>
    if 0 < len then mark unit rounds (m ||| 1#w <<< base) (base + 1) (len - unit) else m

theorem getLsbD_one_shiftLeft {i base : Nat} (hi : i < w) :
    (1#w <<< base).getLsbD i = decide (i = base) := by
  rw [BitVec.getLsbD_shiftLeft, BitVec.getLsbD_one]
  rcases Nat.lt_trichotomy i base with h | h | h
  · simp [h, Nat.ne_of_lt h]
  · simp [h]
    omega
  · have : i - base ≠ 0 := by omega
    simp [this, Nat.ne_of_gt h]

/-- Block `i` is marked afterwards if it was, or if the length reaches it. -/
theorem getLsbD_mark {unit rounds base len i : Nat} (hu : 0 < unit) (m : BitVec w) (hi : i < w)
    (hrounds : len ≤ rounds) :
    (mark unit rounds m base len).getLsbD i = true ↔
      m.getLsbD i = true ∨ base ≤ i ∧ (i - base) * unit < len := by
  induction rounds generalizing m base len with
  | zero =>
    obtain rfl : len = 0 := Nat.le_zero.mp hrounds
    simp [mark]
  | succ rounds ih =>
    rw [mark]
    split
    · rename_i hlen
      rw [ih _ (by omega), BitVec.getLsbD_or, getLsbD_one_shiftLeft hi, Bool.or_eq_true,
        decide_eq_true_eq, or_assoc]
      refine or_congr_right ?_
      rcases Nat.lt_trichotomy i base with h | rfl | h
      · simp only [Nat.ne_of_lt h, false_or]
        omega
      · simp [hlen]
      · -- one block further, one unit less
        have hstep : (i - base) * unit = (i - (base + 1)) * unit + unit := by
          rw [← Nat.succ_mul]
          congr 1
          omega
        simp only [Nat.ne_of_gt h, false_or]
        omega
    · rename_i hlen
      have hzero : len = 0 := by omega
      simp [hzero]

theorem getLsbD_mark_mono {unit rounds base len i : Nat} (m : BitVec w)
    (h : m.getLsbD i = true) : (mark unit rounds m base len).getLsbD i = true := by
  induction rounds generalizing m base len with
  | zero => exact h
  | succ rounds ih =>
    rw [mark]
    split
    · refine ih _ ?_
      rw [BitVec.getLsbD_or, h, Bool.true_or]
    · exact h

/-! ### Runs of marked blocks -/

/-- `for (start = 0; start < w; ++start) if (m & (1 << start)) break;` -/
def firstSet (m : BitVec w) : Nat → Nat → Nat
  | 0, start => start
  | rounds + 1, start => if m.getLsbD start then start else firstSet m rounds (start + 1)

/-- `for (stop = start; stop < w; ++stop)` — leave at the first clear bit,
clear the others. -/
def clearRun : Nat → BitVec w → Nat → BitVec w × Nat
  | 0, m, stop => (m, stop)
  | rounds + 1, m, stop =>
    if m.getLsbD stop then clearRun rounds (m &&& ~~~(1#w <<< stop)) (stop + 1) else (m, stop)

theorem firstSet_spec (m : BitVec w) (rounds start : Nat) :
    start ≤ firstSet m rounds start ∧ firstSet m rounds start ≤ start + rounds ∧
      (∀ i, start ≤ i → i < firstSet m rounds start → m.getLsbD i = false) ∧
      (firstSet m rounds start < start + rounds →
        m.getLsbD (firstSet m rounds start) = true) := by
  induction rounds generalizing start with
  | zero =>
    rw [firstSet]
    exact ⟨le_rfl, le_rfl, fun i hi hlt => by omega, fun h => by omega⟩
  | succ rounds ih =>
    rw [firstSet]
    split
    · rename_i hset
      exact ⟨le_rfl, by omega, fun i hi hlt => by omega, fun _ => hset⟩
    · rename_i hclear
      obtain ⟨hlow, hhigh, hfalse, htrue⟩ := ih (start + 1)
      refine ⟨by omega, by omega, fun i hi hlt => ?_, fun h => htrue (by omega)⟩
      rcases Nat.eq_or_lt_of_le hi with rfl | hi
      · exact Bool.eq_false_iff.mpr hclear
      · exact hfalse i hi hlt

theorem clearRun_spec (rounds : Nat) (m : BitVec w) (stop : Nat) (hw : stop + rounds ≤ w) :
    stop ≤ (clearRun rounds m stop).2 ∧ (clearRun rounds m stop).2 ≤ stop + rounds ∧
      (∀ i, stop ≤ i → i < (clearRun rounds m stop).2 → m.getLsbD i = true) ∧
      ∀ i, (clearRun rounds m stop).1.getLsbD i =
        (m.getLsbD i && !decide (stop ≤ i ∧ i < (clearRun rounds m stop).2)) := by
  induction rounds generalizing m stop with
  | zero =>
    rw [clearRun]
    refine ⟨le_rfl, le_rfl, fun i hi hlt => by omega, fun i => ?_⟩
    have hempty : ¬ (stop ≤ i ∧ i < stop) := by omega
    simp [hempty]
  | succ rounds ih =>
    rw [clearRun]
    split
    · rename_i hset
      obtain ⟨hlow, hhigh, htrue, hbits⟩ := ih (m &&& ~~~(1#w <<< stop)) (stop + 1) (by omega)
      -- one more bit is cleared, the others stay
      have hother : ∀ i, i ≠ stop → i < w →
          (m &&& ~~~(1#w <<< stop)).getLsbD i = m.getLsbD i := by
        intro i hi hiw
        rw [BitVec.getLsbD_and, BitVec.getLsbD_not, getLsbD_one_shiftLeft hiw]
        simp [hi, hiw]
      refine ⟨by omega, by omega, fun i hi hlt => ?_, fun i => ?_⟩
      · rcases Nat.eq_or_lt_of_le hi with rfl | hi
        · exact hset
        · rw [← hother i (by omega) (by omega)]
          exact htrue i hi hlt
      · rw [hbits]
        by_cases hiw : i < w
        · by_cases hi : i = stop
          · subst hi
            have hin : i ≤ i ∧ i < (clearRun rounds (m &&& ~~~(1#w <<< i)) (i + 1)).2 := by
              omega
            rw [BitVec.getLsbD_and, BitVec.getLsbD_not, getLsbD_one_shiftLeft hiw,
              decide_eq_true hin]
            simp
          · rw [hother i hi hiw]
            congr 2
            rw [decide_eq_decide]
            omega
        · rw [BitVec.getLsbD_of_ge _ _ (by omega), BitVec.getLsbD_of_ge _ _ (by omega)]
          rfl
    · rename_i hclear
      refine ⟨le_rfl, by omega, fun i hi hlt => by omega, fun i => ?_⟩
      have hempty : ¬ (stop ≤ i ∧ i < stop) := by omega
      simp [hempty]

/-- One round of the upload: `[start, stop)` is the first run of `m`, and `m'`
is `m` without it. -/
structure Round (m m' : BitVec w) (start stop : Nat) : Prop where
  lt : start < stop
  le : stop ≤ w
  before : ∀ i, i < start → m.getLsbD i = false
  marked : ∀ i, start ≤ i → i < stop → m.getLsbD i = true
  rest : ∀ i, m'.getLsbD i = (m.getLsbD i && !decide (start ≤ i ∧ i < stop))

theorem exists_getLsbD {m : BitVec w} (h : m ≠ 0#w) : ∃ i, i < w ∧ m.getLsbD i = true := by
  by_contra hnone
  refine h (BitVec.eq_of_getLsbD_eq fun i hi => ?_)
  rw [BitVec.getLsbD_zero]
  exact Bool.eq_false_iff.mpr fun hset => hnone ⟨i, hi, hset⟩

theorem round_of_ne_zero {m : BitVec w} (h : m ≠ 0#w) :
    Round m (clearRun (w - firstSet m w 0) m (firstSet m w 0)).1 (firstSet m w 0)
      (clearRun (w - firstSet m w 0) m (firstSet m w 0)).2 := by
  obtain ⟨-, -, hfalse, htrue⟩ := firstSet_spec m w 0
  have hlt : firstSet m w 0 < w := by
    obtain ⟨i, hi, hset⟩ := exists_getLsbD h
    by_contra hge
    rw [hfalse i (Nat.zero_le i) (by omega)] at hset
    cases hset
  have hset := htrue (by omega)
  obtain ⟨-, hhigh, hrun, hbits⟩ :=
    clearRun_spec (w - firstSet m w 0) m (firstSet m w 0) (by omega)
  refine ⟨?_, by omega, fun i hi => hfalse i (Nat.zero_le i) hi, hrun, hbits⟩
  -- the run holds at least its first block
  obtain ⟨rounds, hrounds⟩ := Nat.exists_eq_succ_of_ne_zero (Nat.sub_ne_zero_of_lt hlt)
  have hone := (clearRun_spec rounds (m &&& ~~~(1#w <<< firstSet m w 0)) (firstSet m w 0 + 1)
    (by omega)).1
  rw [hrounds, clearRun, if_pos hset]
  exact hone

/-! ### The upload loop -/

variable {S : Type*}

/-- `while (m) { … }`: send the runs one after the other.  `none` when the
rounds do not suffice. -/
def drain (send : Nat → Nat → S → S) : Nat → BitVec w → S → Option (BitVec w × S)
  | 0, _, _ => none
  | rounds + 1, m, s =>
    if m = 0#w then some (m, s)
    else
      let start := firstSet m w 0
      let run := clearRun (w - start) m start
      drain send rounds run.1 (send start run.2 s)

/-- **The loop rule.**  The loop ends, with the mask zero, and what every
round preserves holds then. -/
theorem drain_rule (send : Nat → Nat → S → S) {I : BitVec w → S → Prop}
    (hround : ∀ m m' start stop s, Round m m' start stop → I m s → I m' (send start stop s))
    {m : BitVec w} {s : S} (h : I m s) :
    ∃ s', drain send (w + 1) m s = some (0#w, s') ∧ I 0#w s' := by
  -- each round clears all bits below a higher block
  suffices hmain : ∀ rounds k (m : BitVec w) (s : S), w - k < rounds →
      (∀ i, i < k → m.getLsbD i = false) → I m s →
      ∃ s', drain send rounds m s = some (0#w, s') ∧ I 0#w s' by
    exact hmain (w + 1) 0 m s (by omega) (fun i hi => by omega) h
  intro rounds
  induction rounds with
  | zero =>
    intro k m s hk
    omega
  | succ rounds ih =>
    intro k m s hk hlow hI
    rw [drain]
    split
    · rename_i hzero
      rw [hzero] at hI ⊢
      exact ⟨s, rfl, hI⟩
    · rename_i hne
      have hr := round_of_ne_zero hne
      have hk' : k ≤ firstSet m w 0 := by
        by_contra hlt
        have hset := hr.marked _ le_rfl hr.lt
        rw [hlow _ (by omega)] at hset
        cases hset
      have hlt := hr.lt
      have hle := hr.le
      refine ih (clearRun (w - firstSet m w 0) m (firstSet m w 0)).2 _ _ (by omega)
        (fun i hi => ?_) (hround _ _ _ _ _ hr hI)
      rw [hr.rest]
      by_cases hi' : i < firstSet m w 0
      · rw [hr.before i hi', Bool.false_and]
      · have hin : firstSet m w 0 ≤ i ∧
            i < (clearRun (w - firstSet m w 0) m (firstSet m w 0)).2 := ⟨by omega, hi⟩
        rw [decide_eq_true hin]
        simp

theorem drain_ends (send : Nat → Nat → S → S) (m : BitVec w) (s : S) :
    ∃ s', drain send (w + 1) m s = some (0#w, s') := by
  obtain ⟨s', hs, -⟩ := drain_rule send (I := fun _ _ => True) (fun _ _ _ _ _ _ _ => trivial)
    (m := m) (s := s) trivial
  exact ⟨s', hs⟩

/-! ### Agreement of the unmarked blocks -/

variable {α : Type*} {B : Nat} {m m' : BitVec w} {shadow shadow' dev dev' : Nat → α}

/-- The unmarked blocks of the device agree with the copy. -/
def Synced (B : Nat) (m : BitVec w) (shadow dev : Nat → α) : Prop :=
  ∀ i, i < w * B → m.getLsbD (i / B) = false → dev i = shadow i

theorem Synced.store (h : Synced B m shadow dev)
    (hmono : ∀ i, m.getLsbD i = true → m'.getLsbD i = true)
    (hmarked : ∀ i, i < w * B → m'.getLsbD (i / B) = false → shadow' i = shadow i) :
    Synced B m' shadow' dev := by
  intro i hi hclear
  rw [hmarked i hi hclear]
  refine h i hi (Bool.eq_false_iff.mpr fun hset => ?_)
  rw [hmono _ hset] at hclear
  cases hclear

/-- Of the blocks marked in `m₀`, those no longer marked in `m` have been
sent, and nothing else. -/
structure Sent (B : Nat) (m₀ m : BitVec w) (shadow dev₀ dev : Nat → α) : Prop where
  mono : ∀ i, m.getLsbD i = true → m₀.getLsbD i = true
  dev_eq : ∀ i, i < w * B → dev i =
    if m₀.getLsbD (i / B) = true ∧ m.getLsbD (i / B) = false then shadow i else dev₀ i

variable {m₀ : BitVec w} {dev₀ : Nat → α}

theorem Sent.refl : Sent B m₀ m₀ shadow dev dev where
  mono _ h := h
  dev_eq i _ := by
    rw [if_neg]
    rintro ⟨hset, hclear⟩
    rw [hset] at hclear
    cases hclear

theorem Sent.round (h : Sent B m₀ m shadow dev₀ dev) {start stop : Nat}
    (hr : Round m m' start stop)
    (hin : ∀ i, start * B ≤ i → i < stop * B → dev' i = shadow i)
    (hout : ∀ i, i < start * B ∨ stop * B ≤ i → dev' i = dev i) :
    Sent B m₀ m' shadow dev₀ dev' := by
  refine ⟨fun i hi => ?_, fun i hi => ?_⟩
  · rw [hr.rest, Bool.and_eq_true] at hi
    exact h.mono i hi.1
  · have hB : 0 < B := Nat.pos_of_mul_pos_left (Nat.zero_lt_of_lt hi)
    have hlow : start ≤ i / B ↔ start * B ≤ i := Nat.le_div_iff_mul_le hB
    have hhigh : i / B < stop ↔ i < stop * B := Nat.div_lt_iff_lt_mul hB
    rw [hr.rest]
    by_cases hrun : start ≤ i / B ∧ i / B < stop
    · rw [hin i (hlow.mp hrun.1) (hhigh.mp hrun.2), if_pos]
      refine ⟨h.mono _ (hr.marked _ hrun.1 hrun.2), ?_⟩
      rw [decide_eq_true hrun]
      simp
    · rw [hout i (by omega), h.dev_eq i hi, decide_eq_false hrun]
      simp

theorem Sent.done (h : Sent B m₀ 0#w shadow dev₀ dev) {i : Nat} (hi : i < w * B) :
    dev i = if m₀.getLsbD (i / B) = true then shadow i else dev₀ i := by
  rw [h.dev_eq i hi]
  simp

/-- … so that a device that agreed outside the marks agrees everywhere. -/
theorem Synced.upload (h : Synced B m₀ shadow dev₀) (hsent : Sent B m₀ 0#w shadow dev₀ dev)
    {i : Nat} (hi : i < w * B) : dev i = shadow i := by
  rw [hsent.done hi]
  split
  · rfl
  · rename_i hclear
    exact h i hi (Bool.eq_false_iff.mpr hclear)

end DirtyBlocks
