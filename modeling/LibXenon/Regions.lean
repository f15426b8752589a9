/-
LibXenon/Regions.lean

Regions of a memory, and which of them a piece of code writes to.

A region is a first address and a length.  `fill` gives the cells of a region
new contents, `copy` those of another place.  `Within rs m m'` says that `m'`
differs from `m` at most in the regions `rs`; it is how the effects of writes
are put together, and a region that is apart from all of `rs` has kept its
contents.
-/
import Mathlib.Data.List.Basic

namespace Regions

structure Region where
  start : Nat
  len : Nat

def Region.Has (r : Region) (a : Nat) : Prop := r.start ≤ a ∧ a < r.start + r.len

instance (r : Region) (a : Nat) : Decidable (r.Has a) :=
  inferInstanceAs (Decidable (_ ∧ _))

theorem Region.has_mk {start len a : Nat} :
    Region.Has ⟨start, len⟩ a ↔ start ≤ a ∧ a < start + len := Iff.rfl

theorem Region.has_add (r : Region) {k : Nat} (hk : k < r.len) : r.Has (r.start + k) :=
  ⟨Nat.le_add_right _ _, Nat.add_lt_add_left hk _⟩

/-- No address is in both. -/
def Region.Apart (r s : Region) : Prop := ∀ a, r.Has a → ¬ s.Has a

/-- Every address of the first is in the second. -/
def Region.Inside (r s : Region) : Prop := ∀ a, r.Has a → s.Has a

variable {α : Type*} {m m' m'' : Nat → α} {r s t : Region} {rs rs' : List Region} {a : Nat}

theorem Region.Apart.symm (h : r.Apart s) : s.Apart r := fun a hs hr => h a hr hs

theorem Region.Inside.apart (h : r.Inside s) (hs : s.Apart t) : r.Apart t :=
  fun a hr => hs a (h a hr)

theorem Region.apart_iff : r.Apart s ↔
    r.len = 0 ∨ s.len = 0 ∨ r.start + r.len ≤ s.start ∨ s.start + s.len ≤ r.start := by
  constructor
  · intro h
    by_contra hno
    -- the later one of the two starts is in both
    have hmax := h (max r.start s.start)
    simp only [Region.Has] at hmax
    omega
  · rintro h a ⟨hlow, hhigh⟩ ⟨hlow', hhigh'⟩
    omega

instance (r s : Region) : Decidable (r.Apart s) := decidable_of_iff' _ Region.apart_iff

/-- The first ends where the second starts, or before. -/
def Region.Before (r s : Region) : Prop := r.start + r.len ≤ s.start

theorem Region.Before.trans (h : r.Before s) (h' : s.Before t) : r.Before t := by
  rw [Region.Before] at *
  omega

theorem Region.Before.apart (h : r.Before s) : r.Apart s :=
  Region.apart_iff.mpr (.inr (.inr (.inl h)))

instance : Trans Region.Before Region.Before Region.Before := ⟨Region.Before.trans⟩

theorem pairwise_apart_of_chain (h : rs.IsChain Region.Before) : rs.Pairwise Region.Apart :=
  (List.isChain_iff_pairwise.mp h).imp Region.Before.apart

theorem Region.inside_of_le (hstart : s.start ≤ r.start)
    (hend : r.start + r.len ≤ s.start + s.len) : r.Inside s := by
  rintro a ⟨hlow, hhigh⟩
  exact ⟨by omega, by omega⟩

/-! ### Writing to a region -/

/-- New contents for a region, by the distance from its start. -/
def fill (m : Nat → α) (r : Region) (f : Nat → α) : Nat → α := fun a =>
  if r.Has a then f (a - r.start) else m a

/-- `memcpy`. -/
def copy (m : Nat → α) (dst src len : Nat) : Nat → α := fill m ⟨dst, len⟩ fun k => m (src + k)

theorem fill_of_has (f : Nat → α) (h : r.Has a) : fill m r f a = f (a - r.start) := if_pos h

theorem fill_of_not_has (f : Nat → α) (h : ¬ r.Has a) : fill m r f a = m a := if_neg h

theorem copy_apply (m : Nat → α) (dst src len a : Nat) : copy m dst src len a =
    if dst ≤ a ∧ a < dst + len then m (src + (a - dst)) else m a := rfl

theorem fill_add {start len k : Nat} (f : Nat → α) (h : k < len) :
    fill m ⟨start, len⟩ f (start + k) = f k := by
  rw [fill_of_has f ⟨Nat.le_add_right start k, Nat.add_lt_add_left h start⟩]
  rw [Nat.add_sub_cancel_left]

theorem copy_add {dst src len k : Nat} (h : k < len) : copy m dst src len (dst + k) = m (src + k) :=
  fill_add _ h

/-! ### What was written -/

def Within (rs : List Region) (m m' : Nat → α) : Prop := ∀ a, (∀ r ∈ rs, ¬ r.Has a) → m' a = m a

theorem Within.refl (rs : List Region) (m : Nat → α) : Within rs m m := fun _ _ => rfl

theorem within_fill (m : Nat → α) (r : Region) (f : Nat → α) : Within [r] m (fill m r f) :=
  fun _ h => fill_of_not_has f (h r (List.mem_singleton_self r))

theorem within_copy (m : Nat → α) (dst src len : Nat) :
    Within [⟨dst, len⟩] m (copy m dst src len) := within_fill m ⟨dst, len⟩ _

theorem Within.trans (h : Within rs m m') (h' : Within rs' m' m'') : Within (rs ++ rs') m m'' := by
  intro a ha
  rw [h' a fun r hr => ha r (List.mem_append_right rs hr),
    h a fun r hr => ha r (List.mem_append_left rs' hr)]

theorem Within.mono (h : Within rs m m') (hsub : ∀ r ∈ rs, ∃ r' ∈ rs', r.Inside r') :
    Within rs' m m' := by
  intro a ha
  refine h a fun r hr hin => ?_
  obtain ⟨r', hr', hinside⟩ := hsub r hr
  exact ha r' hr' (hinside a hin)

theorem Within.keeps (h : Within rs m m') (hr : ∀ s ∈ rs, r.Apart s) (ha : r.Has a) :
    m' a = m a :=
  h a fun s hs hin => hr s hs a ha hin

end Regions
