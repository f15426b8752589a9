/-
LibXenon/XenosRing.lean

The secondary ring buffer in memory: `rput32`, `rput` and `Xe_pRBKick`.

The driver stores commands behind each other without looking at the end of the
buffer.  A kick hands the words since the last one to the primary ring as an
indirect buffer, rounds the write pointer up to 32 words, and goes back to the
start once the pointer is past the first half: the second half is a guard
band.  `Xe_Fatal` ends a run whose pointer has reached the end, but only at
the kick, when the words have been stored.

So nothing bounds an index by itself.  What the guard band is good for is that
up to its size words may be emitted between two kicks, and no more.
-/
import LibXenon.Transition
import LibXenon.XenosState

namespace LibXenon

open Pm4 Transition List

/-! ### The buffer -/

/-- `RINGBUFFER_SECONDARY_SIZE`, in words. -/
def ringSecondarySize : Nat := 0x400000 / 4

/-- `RINGBUFFER_SECONDARY_GUARD`, in words. -/
def ringSecondaryGuard : Nat := 0x200000 / 4

/-- The memory from `rb_secondary` on, with the two pointers.  Recorded along
the way: the indices stored to, the words emitted, how many of them since the
last kick, and the segments handed to the primary ring as they were then. -/
structure SecondaryRing where
  mem : Nat → Word
  wptr : Nat
  lastWptr : Nat
  stored : List Nat
  emitted : List Word
  sinceKick : Nat
  segments : List (List Word)

/-- The state of `Xe_Init`. -/
def SecondaryRing.start (mem : Nat → Word) : SecondaryRing := ⟨mem, 0, 0, [], [], 0, []⟩

/-- `rput`, and `rput32` for a single word. -/
def SecondaryRing.rput (s : SecondaryRing) (ws : List Word) : SecondaryRing :=
  { s with
    mem := fun i => if s.wptr ≤ i then ws.getD (i - s.wptr) (s.mem i) else s.mem i
    wptr := s.wptr + ws.length
    stored := s.stored ++ List.range' s.wptr ws.length
    emitted := s.emitted ++ ws
    sinceKick := s.sinceKick + ws.length }

/-- `Xe_pRBKickSegment`. -/
def SecondaryRing.kickSegment (s : SecondaryRing) (base len : Nat) : SecondaryRing :=
  { s with segments := s.segments ++ [slice s.mem base len] }

/-- `wptr += (-wptr) & 0x1F`. -/
def align32 (wptr : Nat) : Nat := wptr + (32 - wptr % 32) % 32

/-- Where the next segment starts: aligned, or at the beginning again.  `none`
is "increase guardband". -/
def nextWptr (wptr : Nat) : Option Nat :=
  if ringSecondarySize ≤ align32 wptr then none
  else if ringSecondarySize - ringSecondaryGuard < align32 wptr then some 0
  else some (align32 wptr)

/-- `Xe_pRBKick`. -/
def SecondaryRing.kick (s : SecondaryRing) : Option SecondaryRing :=
  (nextWptr s.wptr).map fun wptr =>
    { s.kickSegment s.lastWptr (s.wptr - s.lastWptr) with
      wptr := wptr
      lastWptr := wptr
      sinceKick := 0 }

inductive RingAction
  | rput (ws : List Word)
  | kick

def ringStep (s : SecondaryRing) : RingAction → Option SecondaryRing
  | .rput ws => some (s.rput ws)
  | .kick => s.kick

/-- No more than a guard band of words between two kicks. -/
def withinGuard (s : SecondaryRing) : RingAction → Bool
  | .rput ws => s.sinceKick + ws.length ≤ ringSecondaryGuard
  | .kick => true

/-! ### The invariant -/

/-- The pointers are a guard band apart at most, the first of them in the
first half, and the words between them are those not handed over yet. -/
structure RingSound (s : SecondaryRing) : Prop where
  stored : ∀ i ∈ s.stored, i < ringSecondarySize
  last : s.lastWptr + ringSecondaryGuard ≤ ringSecondarySize
  wptr : s.wptr = s.lastWptr + s.sinceKick
  since : s.sinceKick ≤ ringSecondaryGuard
  words : s.segments.flatten ++ slice s.mem s.lastWptr s.sinceKick = s.emitted

variable {s s' : SecondaryRing} {mem : Nat → Word}

theorem RingSound.start (mem : Nat → Word) : RingSound (.start mem) := by
  have hsize : 0 + ringSecondaryGuard ≤ ringSecondarySize := by decide
  exact ⟨nofun, hsize, rfl, Nat.zero_le _, rfl⟩

/-- A slice grows by the words written behind it. -/
theorem slice_write (a : Nat → Word) (base n : Nat) (ws : List Word) :
    slice (fun i => if base + n ≤ i then ws.getD (i - (base + n)) (a i) else a i) base
      (n + ws.length) = slice a base n ++ ws := by
  refine ext_getElem ?_ fun i h₁ h₂ => ?_
  · rw [length_slice, length_append, length_slice]
  · rw [length_slice] at h₁
    simp only [slice, getElem_map, getElem_range]
    by_cases hi : i < n
    · rw [if_neg (by omega), getElem_append_left (by simpa using hi), getElem_map,
        getElem_range]
    · have hlt : base + i - (base + n) < ws.length := by omega
      rw [if_pos (by omega), getD_eq_getElem?_getD, List.getElem?_eq_getElem hlt,
        getElem_append_right (by simpa using hi), Option.getD_some]
      congr 1
      rw [length_map, length_range]
      omega

theorem SecondaryRing.rput_wptr (s : SecondaryRing) (ws : List Word) :
    (s.rput ws).wptr = s.wptr + ws.length := rfl

theorem RingSound.rput (h : RingSound s) {ws : List Word}
    (hg : s.sinceKick + ws.length ≤ ringSecondaryGuard) : RingSound (s.rput ws) := by
  have hlast := h.last
  have hwptr := h.wptr
  refine ⟨fun i hi => ?_, h.last, ?_, hg, ?_⟩
  · rcases mem_append.mp hi with hi | hi
    · exact h.stored i hi
    · -- the new cells end at most a guard behind the last kick
      obtain ⟨-, hlt⟩ := mem_range'_1.mp hi
      omega
  · rw [SecondaryRing.rput_wptr, hwptr, Nat.add_assoc]
    rfl
  · dsimp only [SecondaryRing.rput]
    rw [hwptr, slice_write, ← append_assoc, h.words]

theorem nextWptr_le {wptr wptr' : Nat} (h : nextWptr wptr = some wptr') :
    wptr' + ringSecondaryGuard ≤ ringSecondarySize := by
  have hsize : ringSecondaryGuard ≤ ringSecondarySize := by decide
  rw [nextWptr] at h
  split at h
  · cases h
  · split at h
    · cases h
      omega
    · cases h
      omega

/-- A kick that does not fail has handed over all words, and starts in the
first half. -/
theorem RingSound.kick (h : RingSound s) (hs : s.kick = some s') :
    RingSound s' ∧ s'.segments.flatten = s'.emitted := by
  have hsince : s.wptr - s.lastWptr = s.sinceKick := by
    rw [h.wptr]
    omega
  have hwords : (s.segments ++ [slice s.mem s.lastWptr s.sinceKick]).flatten = s.emitted := by
    rw [flatten_append, flatten_singleton]
    exact h.words
  rw [SecondaryRing.kick, hsince] at hs
  obtain ⟨wptr, hnext, rfl⟩ := Option.map_eq_some_iff.mp hs
  refine ⟨⟨h.stored, nextWptr_le hnext, rfl, Nat.zero_le _, ?_⟩, hwords⟩
  exact (append_nil _).trans hwords

theorem RingSound.step {a : RingAction} (h : RingSound s) (hg : withinGuard s a = true)
    (hs : ringStep s a = some s') : RingSound s' := by
  cases a with
  | rput ws =>
    obtain rfl := Option.some.inj hs
    exact h.rput (of_decide_eq_true hg)
  | kick => exact (h.kick hs).1

theorem ringSound_of_reach
    (hrun : Reach ringStep (fun s a => withinGuard s a = true) (.start mem) s) : RingSound s :=
  hrun.invariant (RingSound.start mem) fun _ _ _ h hg hs => h.step hg hs

/-! ### Runs -/

/-- **The guard band.**  As long as no more than its size is emitted between
two kicks, every word goes to an index inside the buffer, the pointers are in
order, and the segments handed over, followed by the words since, are the
words emitted; right after a kick there are none since. -/
theorem ring_within_guard
    (hrun : Reach ringStep (fun s a => withinGuard s a = true) (.start mem) s) :
    (∀ i ∈ s.stored, i < ringSecondarySize) ∧ s.lastWptr ≤ s.wptr ∧
      s.segments.flatten ++ slice s.mem s.lastWptr (s.wptr - s.lastWptr) = s.emitted ∧
      ∀ s', s.kick = some s' → s'.segments.flatten = s'.emitted := by
  have h := ringSound_of_reach hrun
  have hwptr := h.wptr
  have hsince : s.wptr - s.lastWptr = s.sinceKick := by omega
  refine ⟨h.stored, by omega, ?_, fun s' hs => (h.kick hs).2⟩
  rw [hsince]
  exact h.words

/-- Three words and a kick, a fourth and a kick. -/
theorem ring_within_guard_twice : ∃ s s' : SecondaryRing,
    Reach ringStep (fun s a => withinGuard s a = true) (.start fun _ => 0) s ∧
    s.kick = some s' ∧ s'.wptr = 64 ∧ s'.segments.flatten = [1, 2, 3, 4] := by
  obtain ⟨s, hreach, s', hkick, hwptr, hemitted⟩ :
      ∃ s, Reach ringStep (fun s a => withinGuard s a = true) (.start fun _ => 0) s ∧
      ∃ s', s.kick = some s' ∧ s'.wptr = 64 ∧ s'.emitted = [1, 2, 3, 4] :=
    exists_reach [.rput [1, 2], .rput [3], .kick, .rput [4]] (by decide +kernel)
  exact ⟨s, s', hreach, hkick, hwptr, ((ring_within_guard hreach).2.2.2 s' hkick).trans hemitted⟩

/-- The limit is exact.  After a first segment of a whole guard band the
pointer is at the end of the first half; one word more than a guard band, and
the last of them goes behind the buffer. -/
theorem ring_overrun : ∃ (s : SecondaryRing) (ws : List Word),
    Reach ringStep (fun s a => withinGuard s a = true) (.start fun _ => 0) s ∧
    s.sinceKick = 0 ∧ ws.length = ringSecondaryGuard + 1 ∧
    ringSecondarySize ∈ (s.rput ws).stored := by
  -- fill the guard and kick, then write one word too many
  have hnext : nextWptr (0 + ringSecondaryGuard) = some ringSecondaryGuard := by decide
  obtain ⟨s₁, hs₁⟩ : ∃ s, s = (SecondaryRing.start fun _ => 0).rput
      (List.replicate ringSecondaryGuard 0) := ⟨_, rfl⟩
  have hwptr : s₁.wptr = 0 + ringSecondaryGuard := by
    rw [hs₁, SecondaryRing.rput_wptr, length_replicate]
    rfl
  have hguard : withinGuard (.start fun _ => 0)
      (.rput (List.replicate ringSecondaryGuard 0)) = true := by
    rw [withinGuard, length_replicate]
    decide
  have hreach : Reach ringStep (fun s a => withinGuard s a = true) (.start fun _ => 0) s₁ :=
    Reach.tail Reach.refl hguard (congrArg some hs₁.symm)
  obtain ⟨s₂, hkick, hwptr₂, hsince₂⟩ : ∃ s₂, s₁.kick = some s₂ ∧
      s₂.wptr = ringSecondaryGuard ∧ s₂.sinceKick = 0 := by
    rw [SecondaryRing.kick, hwptr, hnext]
    exact ⟨_, rfl, rfl, rfl⟩
  refine ⟨s₂, List.replicate (ringSecondaryGuard + 1) 0, hreach.tail (a := .kick) rfl hkick, hsince₂,
    length_replicate, mem_append_right _ (mem_range'_1.mpr ?_)⟩
  rw [hwptr₂, length_replicate]
  decide

end LibXenon
