/-
LibXenon/Pieces.lean

Things in a row that are put into containers, and read back in groups.

Containers are filled one after the other, each to its capacity before the next one
is begun: `spread caps t` is how many of `t` things each container gets.  A reader
that takes whole groups of `k` out of each container, `groups k`, sees the groups of the
row if no container but the last ends within a group (`groups_flatten`).
`spread_lawful_iff` says for which capacities this is so, for containers that are at hand
and others of one size as they are needed.
-/
import Mathlib.Algebra.GroupWithZero.Nat
import Mathlib.Algebra.Order.BigOperators.Group.List
import Mathlib.Algebra.Order.Group.Nat

namespace Pieces

open List

variable {α : Type*}

/-! ### Containers -/

/-- How many of `t` things go into each container.  A container that gets nothing is not
begun. -/
def spread : List Nat → Nat → List Nat
  | [], _ => []
  | c :: caps, t => if t = 0 then [] else if t ≤ c then [t] else c :: spread caps (t - c)

theorem spread_zero (caps : List Nat) : spread caps 0 = [] := by
  cases caps with
  | nil => rfl
  | cons c caps => rw [spread, if_pos rfl]

theorem spread_ne_nil {caps : List Nat} {t : Nat} (hcaps : caps ≠ []) (ht : t ≠ 0) :
    spread caps t ≠ [] := by
  cases caps with
  | nil => exact absurd rfl hcaps
  | cons c caps =>
    rw [spread, if_neg ht]
    split
    · exact cons_ne_nil _ _
    · exact cons_ne_nil _ _

theorem spread_full {full rest : List Nat} {c v : Nat} (hv : 0 < v) (hc : v ≤ c) :
    spread (full ++ c :: rest) (full.sum + v) = full ++ [v] := by
  induction full with
  | nil =>
    have hne : ([] : List Nat).sum + v ≠ 0 := by
      omega
    rw [nil_append, spread, if_neg hne, sum_nil, Nat.zero_add, if_pos hc]
    rfl
  | cons a full ih =>
    have hne : a + full.sum + v ≠ 0 := by omega
    have hgt : ¬ a + full.sum + v ≤ a := by omega
    have hsub : a + full.sum + v - a = full.sum + v := by omega
    rw [cons_append, sum_cons, spread, if_neg hne, if_neg hgt, hsub, ih]
    rfl

/-- No container but the last ends within a group of `m`, and none gets `bound` things or
more. -/
def Lawful (m bound : Nat) (counts : List Nat) : Prop :=
  (∀ v ∈ counts.dropLast, m ∣ v) ∧ ∀ v ∈ counts, v < bound

theorem Lawful.nil (m bound : Nat) : Lawful m bound [] :=
  ⟨fun _ h => (nomatch h), fun _ h => (nomatch h)⟩

theorem lawful_singleton {m bound v : Nat} : Lawful m bound [v] ↔ v < bound := by
  rw [Lawful, dropLast_singleton]
  constructor
  · intro h
    exact h.2 v mem_cons_self
  · intro h
    refine ⟨fun _ hw => (nomatch hw), fun w hw => ?_⟩
    rw [mem_singleton] at hw
    exact hw ▸ h

theorem lawful_cons {m bound v : Nat} {counts : List Nat} (hne : counts ≠ []) :
    Lawful m bound (v :: counts) ↔ m ∣ v ∧ v < bound ∧ Lawful m bound counts := by
  rw [Lawful, Lawful, dropLast_cons_of_ne_nil hne, forall_mem_cons,
    forall_mem_cons]
  constructor
  · rintro ⟨⟨hdvd, hinit⟩, hlt, hall⟩
    exact ⟨hdvd, hlt, hinit, hall⟩
  · rintro ⟨hdvd, hlt, hinit, hall⟩
    exact ⟨⟨hdvd, hinit⟩, hlt, hall⟩

/-- The capacities suit `t` things: a container that is filled before the last thing is
a number of groups, and none of them gets `bound` things. -/
def Suits (m bound : Nat) (caps : List Nat) (t : Nat) : Prop :=
  ∀ before c after, caps = before ++ c :: after →
    (before.sum + c < t → m ∣ c) ∧ min c (t - before.sum) < bound

theorem suits_cons {m bound c t : Nat} {caps : List Nat} :
    Suits m bound (c :: caps) t ↔
      ((c < t → m ∣ c) ∧ min c t < bound) ∧ Suits m bound caps (t - c) := by
  constructor
  · intro h
    have hfirst := h [] c caps rfl
    rw [sum_nil, Nat.zero_add, Nat.sub_zero] at hfirst
    refine ⟨hfirst, fun before c' after hcaps => ?_⟩
    have hrest := h (c :: before) c' after (congrArg (c :: ·) hcaps)
    rw [sum_cons, ← Nat.sub_sub] at hrest
    refine ⟨fun hlt => hrest.1 ?_, hrest.2⟩
    omega
  · rintro ⟨hfirst, hrest⟩ before c' after hcaps
    cases before with
    | nil =>
      obtain ⟨rfl, -⟩ := List.cons.inj hcaps
      rw [sum_nil, Nat.zero_add, Nat.sub_zero]
      exact hfirst
    | cons b before =>
      obtain ⟨rfl, htail⟩ := List.cons.inj hcaps
      obtain ⟨hdvd, hlt⟩ := hrest before c' after htail
      rw [sum_cons, ← Nat.sub_sub]
      refine ⟨fun hsum => hdvd ?_, hlt⟩
      omega

theorem suits_zero {m bound : Nat} (hbound : 0 < bound) (caps : List Nat) :
    Suits m bound caps 0 := by
  intro before c after _
  rw [Nat.zero_sub, Nat.min_zero]
  exact ⟨fun h => (nomatch h), hbound⟩

theorem lawful_replicate {m bound f : Nat} (hdvd : m ∣ f) (hf : f < bound) (k t : Nat) :
    Lawful m bound (spread (List.replicate k f) t) := by
  induction k generalizing t with
  | zero => exact Lawful.nil m bound
  | succ k ih =>
    rw [replicate_succ, spread]
    split
    · exact Lawful.nil m bound
    · split
      · rename_i hle
        exact lawful_singleton.mpr (Nat.lt_of_le_of_lt hle hf)
      · by_cases hnil : spread (List.replicate k f) (t - f) = []
        · rw [hnil]
          exact lawful_singleton.mpr hf
        · exact (lawful_cons hnil).mpr ⟨hdvd, hf, ih _⟩

/-- The containers at hand come first, and there are as many others of size `f` as are
needed. -/
theorem spread_lawful_iff {m bound f k t : Nat} (hdvd : m ∣ f) (hf : f < bound)
    (hk : t ≤ k * f) (caps : List Nat) :
    Lawful m bound (spread (caps ++ List.replicate k f) t) ↔ Suits m bound caps t := by
  induction caps generalizing t with
  | nil =>
    rw [nil_append]
    exact ⟨fun _ before c after h => absurd h (by simp), fun _ => lawful_replicate hdvd hf k t⟩
  | cons c caps ih =>
    have hbound : 0 < bound := Nat.lt_of_le_of_lt (Nat.zero_le f) hf
    rw [cons_append, spread, suits_cons]
    split
    · rename_i ht
      subst ht
      rw [Nat.zero_sub, Nat.min_zero]
      exact ⟨fun _ => ⟨⟨fun h => (nomatch h), hbound⟩, suits_zero hbound caps⟩,
        fun _ => Lawful.nil m bound⟩
    · rename_i ht
      split
      · rename_i hle
        have hzero : t - c = 0 := Nat.sub_eq_zero_of_le hle
        -- all of it goes into this piece, the last
        rw [lawful_singleton, hzero, Nat.min_eq_right hle]
        exact ⟨fun h => ⟨⟨fun hlt => absurd hle (Nat.not_le_of_lt hlt), h⟩,
          suits_zero hbound caps⟩, fun h => h.1.2⟩
      · rename_i hgt
        have hlt : c < t := Nat.lt_of_not_le hgt
        have hrest : t - c ≠ 0 := Nat.sub_ne_zero_of_lt hlt
        -- the piece is filled, and something is left for the others
        have hkpos : k ≠ 0 := by
          rintro rfl
          omega
        have hcaps : caps ++ List.replicate k f ≠ [] := by
          intro h
          exact hkpos (replicate_eq_nil_iff f |>.mp (append_eq_nil_iff.mp h).2)
        rw [lawful_cons (spread_ne_nil hcaps hrest), ih (Nat.le_trans (Nat.sub_le t c) hk),
          Nat.min_eq_left (Nat.le_of_lt hlt)]
        constructor
        · rintro ⟨hc, hcb, hsuits⟩
          exact ⟨⟨fun _ => hc, hcb⟩, hsuits⟩
        · rintro ⟨⟨hc, hcb⟩, hsuits⟩
          exact ⟨hc hlt, hcb, hsuits⟩

/-! ### Groups -/

/-- The whole groups of `k` of a list; what is left over is no group. -/
def groups (k : Nat) (l : List α) : List (List α) :=
  (List.range (l.length / k)).map fun i => (l.drop (k * i)).take k

@[simp] theorem length_groups (k : Nat) (l : List α) : (groups k l).length = l.length / k := by
  rw [groups, length_map, length_range]

@[simp] theorem groups_nil (k : Nat) : groups k ([] : List α) = [] := by
  rw [groups, length_nil, Nat.zero_div]
  rfl

theorem groups_append {k : Nat} (hk : 0 < k) {l₁ : List α} (h : k ∣ l₁.length) (l₂ : List α) :
    groups k (l₁ ++ l₂) = groups k l₁ ++ groups k l₂ := by
  obtain ⟨n, hn⟩ := h
  have hdiv : (l₁ ++ l₂).length / k = n + l₂.length / k := by
    rw [length_append, hn, Nat.mul_add_div hk]
  have hdiv₁ : l₁.length / k = n := by
    rw [hn]
    exact Nat.mul_div_cancel_left n hk
  rw [groups, groups, groups, hdiv, hdiv₁, range_add, map_append, map_map]
  congr 1
  · refine map_congr_left fun i hi => ?_
    have hi := mem_range.mp hi
    have hle : k * i + k ≤ l₁.length := by
      rw [hn]
      exact Nat.mul_le_mul_left k hi
    rw [drop_append_of_le_length (by omega),
      take_append_of_le_length (by rw [length_drop]; omega)]
  · refine map_congr_left fun i _ => ?_
    have hpos : k * (n + i) = l₁.length + k * i := by
      rw [hn, Nat.mul_add]
    rw [Function.comp_apply, hpos, drop_length_add_append]

theorem groups_flatten {k : Nat} (hk : 0 < k) {ls : List (List α)}
    (h : ∀ l ∈ ls.dropLast, k ∣ l.length) : groups k ls.flatten = ls.flatMap (groups k) := by
  induction ls with
  | nil => exact groups_nil k
  | cons l ls ih =>
    cases ls with
    | nil => simp
    | cons l' ls =>
      rw [dropLast_cons_of_ne_nil (cons_ne_nil l' ls), forall_mem_cons] at h
      rw [flatten_cons, groups_append hk h.1, ih h.2]
      rfl

theorem eq_of_sum_eq {f g : α → Nat} {l : List α} (hle : ∀ a ∈ l, f a ≤ g a)
    (h : (l.map f).sum = (l.map g).sum) : ∀ a ∈ l, f a = g a := by
  induction l with
  | nil => exact fun _ ha => (nomatch ha)
  | cons a l ih =>
    rw [forall_mem_cons] at hle ⊢
    have hrest : (l.map f).sum ≤ (l.map g).sum := sum_le_sum hle.2
    rw [map_cons, map_cons, sum_cons, sum_cons] at h
    exact ⟨by omega, ih hle.2 (by omega)⟩

end Pieces
