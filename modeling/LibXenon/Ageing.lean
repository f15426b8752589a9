/-
LibXenon/Ageing.lean

Choosing by age.

Each member of a finite set `S` has an age, at most `M`.  In a round one of
the oldest members wins; its age goes back to 0, and that of the others grows
by one, up to the ceiling `M`.  Nothing is said about how ties are broken.

* `Rounds.wins` — when `S` has at most `M + 1` members, each of them wins in
  every `M + S.card` consecutive rounds.  A member that does not win is at the
  ceiling after `M` rounds; from then on winners come from the ceiling and
  need `M` rounds to get back to it, so they do not repeat too soon;
* `Distinct.starves` — when `S` has more, a member that loses all ties never
  wins, once the ages below the ceiling are distinct: they can be those of at
  most `M` members, so there is always somebody else at the ceiling.
-/
import Mathlib.Data.Finset.Card

namespace Ageing

open List

variable {α : Type*}

/-- One round: `w` wins, the ages `b` become `b'`. -/
structure Round (S : Finset α) (M : Nat) (b : α → Nat) (w : α) (b' : α → Nat) : Prop where
  mem : w ∈ S
  oldest : ∀ x ∈ S, b x ≤ b w
  reset : b' w = 0
  older : ∀ x ∈ S, x ≠ w → b' x = min (b x + 1) M

/-- Consecutive rounds, with their winners.  Only the ages in `S` count. -/
inductive Rounds (S : Finset α) (M : Nat) : (α → Nat) → List α → (α → Nat) → Prop
  | nil {b b' : α → Nat} : (∀ x ∈ S, b' x = b x) → Rounds S M b [] b'
  | cons {b b' b'' : α → Nat} {w : α} {ws : List α} :
      Round S M b w b' → Rounds S M b' ws b'' → Rounds S M b (w :: ws) b''

variable {S : Finset α} {M : Nat} {b b' c : α → Nat} {w t x z : α} {ws us vs : List α}

theorem Round.congr (h : Round S M b w b') (hc : ∀ x ∈ S, c x = b x) : Round S M c w b' where
  mem := h.mem
  oldest x hx := by
    rw [hc x hx, hc w h.mem]
    exact h.oldest x hx
  reset := h.reset
  older x hx hxw := by
    rw [hc x hx]
    exact h.older x hx hxw

theorem Rounds.congr (h : Rounds S M b ws b') (hc : ∀ x ∈ S, c x = b x) : Rounds S M c ws b' := by
  cases h with
  | nil hb => exact Rounds.nil fun x hx => (hb x hx).trans (hc x hx).symm
  | cons hround hrest => exact Rounds.cons (hround.congr hc) hrest

theorem Rounds.split (h : Rounds S M b (us ++ vs) b') :
    ∃ c, Rounds S M b us c ∧ Rounds S M c vs b' := by
  induction us generalizing b with
  | nil => exact ⟨b, Rounds.nil fun _ _ => rfl, h⟩
  | cons u us ih =>
    cases h with
    | cons hround hrest =>
      obtain ⟨c, hus, hvs⟩ := ih hrest
      exact ⟨c, Rounds.cons hround hus, hvs⟩

theorem Rounds.winners_mem (h : Rounds S M b ws b') : ∀ w ∈ ws, w ∈ S := by
  induction h with
  | nil _ => exact fun w hw => absurd hw not_mem_nil
  | cons hround _ ih =>
    intro w hw
    rcases mem_cons.mp hw with rfl | hw
    · exact hround.mem
    · exact ih w hw

/-! ### Few members -/

theorem Rounds.age_of_not_winner (h : Rounds S M b ws b') (ht : t ∈ S) (hM : b t ≤ M)
    (hlose : t ∉ ws) : b' t = min (b t + ws.length) M := by
  induction h with
  | nil hb =>
    rw [hb t ht, length_nil, Nat.add_zero, Nat.min_eq_left hM]
  | @cons b b₁ _ w ws hround _ ih =>
    rw [mem_cons, not_or] at hlose
    have hage := hround.older t ht hlose.1
    have hnext := ih (by rw [hage]; exact Nat.min_le_right _ _) hlose.2
    rw [hnext, length_cons]
    omega

/-- With somebody at the ceiling who does not win, a member that is too young
to get there in these rounds does not win either. -/
theorem Rounds.young_loses (h : Rounds S M b ws b') (ht : t ∈ S) (htop : b t = M)
    (hlose : t ∉ ws) (hx : x ∈ S) (hyoung : b x + ws.length ≤ M) : x ∉ ws := by
  induction h with
  | nil _ => exact not_mem_nil
  | @cons b b₁ _ w ws hround _ ih =>
    rw [mem_cons, not_or] at hlose ⊢
    rw [length_cons] at hyoung
    have hxw : x ≠ w := by
      rintro rfl
      have := hround.oldest t ht
      omega
    have htop' : b₁ t = M := by
      rw [hround.older t ht hlose.1]
      omega
    have hyoung' : b₁ x + ws.length ≤ M := by
      rw [hround.older x hx hxw]
      omega
    exact ⟨hxw, ih htop' hlose.2 hyoung'⟩

/-- While somebody at the ceiling is waiting, no one wins twice within
`M + 1` rounds. -/
theorem Rounds.winners_nodup (h : Rounds S M b ws b') (ht : t ∈ S) (htop : b t = M)
    (hlose : t ∉ ws) (hlen : ws.length ≤ M + 1) : ws.Nodup := by
  induction h with
  | nil _ => exact nodup_nil
  | @cons b b₁ _ w ws hround hrest ih =>
    rw [mem_cons, not_or] at hlose
    rw [length_cons] at hlen
    have htop' : b₁ t = M := by
      rw [hround.older t ht hlose.1]
      omega
    have hw : w ∉ ws := by
      apply hrest.young_loses ht htop' hlose.2 hround.mem
      rw [hround.reset]
      omega
    exact nodup_cons.mpr ⟨hw, ih htop' hlose.2 (by omega)⟩

/-- **Few members: everybody wins.** -/
theorem Rounds.wins [DecidableEq α] (h : Rounds S M b ws b') (hcard : S.card ≤ M + 1) (ht : t ∈ S)
    (hM : b t ≤ M) (hlen : M + S.card ≤ ws.length) : t ∈ ws := by
  by_contra hlose
  -- the first `M` rounds bring `t` to the ceiling, the next `S.card` are too many
  have hcut : ws = ws.take M ++ ((ws.drop M).take S.card ++ (ws.drop M).drop S.card) := by
    rw [take_append_drop, take_append_drop]
  rw [hcut] at h hlose
  rw [mem_append, mem_append, not_or, not_or] at hlose
  obtain ⟨c, hfirst, hrest⟩ := h.split
  obtain ⟨d, hsecond, -⟩ := hrest.split
  have hlen₁ : (ws.take M).length = M := by
    rw [length_take]
    omega
  have hlen₂ : ((ws.drop M).take S.card).length = S.card := by
    rw [length_take, length_drop]
    omega
  have htop : c t = M := by
    rw [hfirst.age_of_not_winner ht hM hlose.1, hlen₁]
    omega
  have hnodup := hsecond.winners_nodup ht htop hlose.2.1 (by rw [hlen₂]; exact hcard)
  have hsub : ((ws.drop M).take S.card).toFinset ⊆ S.erase t := by
    intro x hx
    rw [mem_toFinset] at hx
    refine Finset.mem_erase.mpr ⟨?_, hsecond.winners_mem x hx⟩
    rintro rfl
    exact hlose.2.1 hx
  have hle := Finset.card_le_card hsub
  rw [toFinset_card_of_nodup hnodup, hlen₂, Finset.card_erase_of_mem ht] at hle
  have hpos := Finset.card_pos.mpr ⟨t, ht⟩
  omega

/-! ### Many members -/

/-- No two members below the ceiling have the same age. -/
def Distinct (S : Finset α) (M : Nat) (b : α → Nat) : Prop :=
  ∀ x ∈ S, ∀ y ∈ S, b x < M → b x = b y → x = y

/-- Of members of distinct ages, at most `M` are below the ceiling. -/
theorem Distinct.card_le (h : Distinct S M b) {T : Finset α} (hT : T ⊆ S)
    (hlow : ∀ x ∈ T, b x < M) : T.card ≤ M := by
  have hinj : Set.InjOn b T := fun x hx y hy hxy =>
    h x (hT hx) y (hT hy) (hlow x hx) hxy
  have hsub : T.image b ⊆ Finset.range M := by
    intro v hv
    obtain ⟨x, hx, rfl⟩ := Finset.mem_image.mp hv
    exact Finset.mem_range.mpr (hlow x hx)
  have hle := Finset.card_le_card hsub
  rw [Finset.card_image_of_injOn hinj, Finset.card_range] at hle
  exact hle

theorem Round.distinct (h : Round S M b w b') (hd : Distinct S M b) : Distinct S M b' := by
  intro x hx y hy hlow hxy
  by_cases hxw : x = w <;> by_cases hyw : y = w
  · rw [hxw, hyw]
  · -- a loser is not of age 0 when the ceiling is positive
    have hyold := h.older y hy hyw
    rw [hxw, h.reset] at hlow hxy
    omega
  · have hxold := h.older x hx hxw
    rw [hyw, h.reset] at hxy
    omega
  · have hxold := h.older x hx hxw
    have hyold := h.older y hy hyw
    apply hd x hx y hy <;> omega

/-- **Many members: who loses all ties does not win.** -/
theorem Distinct.starves [DecidableEq α] (hd : Distinct S M b) (hcard : M + 2 ≤ S.card)
    (hz : z ∈ S) (hM : b z ≤ M) (hties : w = z → ∀ x ∈ S, x ≠ z → b x < b z) : w ≠ z := by
  intro hwz
  have hle : (S.erase z).card ≤ M := by
    apply hd.card_le (Finset.erase_subset z S)
    intro x hx
    obtain ⟨hxz, hxS⟩ := Finset.mem_erase.mp hx
    exact Nat.lt_of_lt_of_le (hties hwz x hxS hxz) hM
  rw [Finset.card_erase_of_mem hz] at hle
  omega

end Ageing
