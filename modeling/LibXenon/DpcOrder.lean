/-
LibXenon/DpcOrder.lean

Where `dpc_queue` puts a DPC.

The list of a processor is kept in order of priority, the highest first, and a
new entry belongs behind those of its own priority: entries of one priority are
run in the order in which they were queued.

The search of `dpc_queue` looks at the first two entries only, since it does not
move on.  So it finds the place exactly when at most one entry has the priority
of the new one or a higher one; otherwise the call does not return, whatever
the length of the list (`dpcQueue_ordered_iff`).
-/
import LibXenon.DpcSystem

namespace LibXenon

open Links List

variable {heap heap' : DpcHeap} {list list' : Option PDpc} {l : List PDpc} {d : PDpc}
  {a : DpcParams}

/-! ### Lists in order -/

/-- In non-increasing order of priority. -/
def Descending (heap : DpcHeap) (l : List PDpc) : Prop :=
  l.Pairwise fun x y => (heap y).priority ≤ (heap x).priority

/-- The list from `list'` on in `heap'` is `l` with `d` behind all entries of its
priority or a higher one, and in front of the others. -/
def QueuedInOrder (heap heap' : DpcHeap) (list' : Option PDpc) (d : PDpc) (l : List PDpc) : Prop :=
  ∃ l₁ l₂, l = l₁ ++ l₂ ∧ (∀ x ∈ l₁, (heap d).priority ≤ (heap x).priority) ∧
    (∀ x ∈ l₂, (heap x).priority < (heap d).priority) ∧
    Forward (fun b => (heap' b).nextDPC) list' (l₁ ++ d :: l₂) ∧
    Descending heap' (l₁ ++ d :: l₂)

/-- How many entries have the priority of `d` or a higher one. -/
def outranking (heap : DpcHeap) (d : PDpc) (l : List PDpc) : Nat :=
  l.countP fun x => decide ((heap d).priority ≤ (heap x).priority)

theorem Inserted.priority {l' : List PDpc} (h : Inserted heap heap' list' d a l l') (b : PDpc) :
    (heap' b).priority = (heap b).priority := by
  by_cases hb : b = d
  · rw [hb, h.self]
    rfl
  · rw [h.other b hb]
    rfl

theorem Inserted.inOrder (l₁ l₂ : List PDpc)
    (h : Inserted heap heap' list' d a (l₁ ++ l₂) (l₁ ++ d :: l₂))
    (hl : Descending heap (l₁ ++ l₂)) (hhigh : ∀ x ∈ l₁, (heap d).priority ≤ (heap x).priority)
    (hlow : ∀ x ∈ l₂, (heap x).priority < (heap d).priority) :
    QueuedInOrder heap heap' list' d (l₁ ++ l₂) := by
  refine ⟨l₁, l₂, rfl, hhigh, hlow, h.forward, ?_⟩
  obtain ⟨hl₁, hl₂, hacross⟩ := pairwise_append.mp hl
  rw [Descending]
  simp only [h.priority]
  refine pairwise_append.mpr ⟨hl₁, pairwise_cons.mpr ⟨?_, hl₂⟩, ?_⟩
  · exact fun x hx => UInt32.le_of_lt (hlow x hx)
  · intro x hx y hy
    rcases mem_cons.mp hy with rfl | hy
    · exact hhigh x hx
    · exact hacross x hx y hy

theorem Descending.low {b : PDpc} (h : Descending heap (b :: l))
    (hb : (heap b).priority < (heap d).priority) :
    ∀ x ∈ b :: l, (heap x).priority < (heap d).priority := by
  intro x hx
  rcases mem_cons.mp hx with rfl | hx
  · exact hb
  · exact UInt32.lt_of_le_of_lt ((pairwise_cons.mp h).1 x hx) hb

theorem outranking_of_low (h : ∀ x ∈ l, (heap x).priority < (heap d).priority) :
    outranking heap d l = 0 := by
  rw [outranking, countP_eq_zero]
  intro x hx
  rw [decide_eq_true_eq, UInt32.not_le]
  exact h x hx

theorem outranking_cons_of_le {b : PDpc} (hb : (heap d).priority ≤ (heap b).priority) :
    outranking heap d (b :: l) = outranking heap d l + 1 :=
  countP_cons_of_pos (decide_eq_true hb)

/-! ### The search -/

theorem priority_accept (b : PDpc) :
    (heap.modify d (Dpc.accept a) b).priority = (heap b).priority := by
  by_cases hb : b = d
  · rw [hb, DpcHeap.modify_self]
    rfl
  · rw [DpcHeap.modify_of_ne _ _ hb]

theorem dpcQueue_cons (hq : (heap d).queued = false) (rounds : Nat) (first : PDpc) :
    dpcQueue rounds heap (some first) d a =
      if (heap first).priority < (heap d).priority then
        some ((heap.modify d (Dpc.accept a)).modify d (Dpc.link (some first)), some d, true)
      else (insertBehind rounds (heap.modify d (Dpc.accept a)) first d).map
        fun heap => (heap, some first, true) := by
  rw [dpcQueue, if_neg (by rw [hq]; exact Bool.false_ne_true)]
  dsimp only
  rw [priority_accept, priority_accept]

theorem insertBehind_isSome {first : PDpc}
    (hnext : ∀ n, (heap first).nextDPC = some n → (heap n).priority < (heap d).priority) :
    ∃ heap', insertBehind 1 heap first d = some heap' := by
  rw [insertBehind]
  rcases hn : (heap first).nextDPC with - | n
  · exact ⟨_, rfl⟩
  · dsimp only
    rw [if_pos (hnext n hn)]
    exact ⟨_, rfl⟩

/-- **The call returns** when at most one entry outranks the new one. -/
theorem dpcQueue_returns (hq : (heap d).queued = false)
    (hl : Forward (fun b => (heap b).nextDPC) list l) (hd : d ∉ l)
    (hfew : outranking heap d l ≤ 1) :
    ∃ heap' list', dpcQueue 1 heap list d a = some (heap', list', true) := by
  cases l with
  | nil =>
    cases hl
    rw [dpcQueue, if_neg (by rw [hq]; exact Bool.false_ne_true)]
    exact ⟨_, _, rfl⟩
  | cons first r =>
    obtain rfl := hl.1
    rw [dpcQueue_cons hq]
    split
    · exact ⟨_, _, rfl⟩
    · rename_i hhigh
      have hfirst : first ≠ d := fun h => hd (h ▸ mem_cons_self)
      rw [outranking_cons_of_le (UInt32.not_lt.mp hhigh)] at hfew
      -- what stands behind the first ranks below `d`
      have hsecond : ∀ n, ((heap.modify d (Dpc.accept a)) first).nextDPC = some n →
          ((heap.modify d (Dpc.accept a)) n).priority
            < ((heap.modify d (Dpc.accept a)) d).priority := by
        intro n hn
        rw [DpcHeap.modify_of_ne _ _ hfirst] at hn
        rw [priority_accept, priority_accept]
        have hr : Forward _ (heap first).nextDPC r := hl.2
        rw [hn] at hr
        cases r with
        | nil => cases hr
        | cons b r =>
          obtain rfl : n = b := Option.some.inj hr.1
          by_contra hnot
          rw [outranking_cons_of_le (UInt32.not_lt.mp hnot)] at hfew
          omega
      obtain ⟨heap', hins⟩ := insertBehind_isSome hsecond
      exact ⟨heap', some first, by rw [hins]; rfl⟩

/-- **The call does not return** when the first two entries outrank the new
one. -/
theorem dpcQueue_spins (hq : (heap d).queued = false)
    (hl : Forward (fun b => (heap b).nextDPC) list l) (hd : d ∉ l) (hsorted : Descending heap l)
    (hmany : ¬ outranking heap d l ≤ 1) (rounds : Nat) : dpcQueue rounds heap list d a = none := by
  -- the first entry outranks `d`, or none does
  have hhead : ∀ {b : PDpc} {k : List PDpc}, Descending heap (b :: k) →
      outranking heap d (b :: k) ≠ 0 → ¬ (heap b).priority < (heap d).priority :=
    fun hk hne hlow => hne (outranking_of_low (hk.low hlow))
  cases l with
  | nil => exact absurd (Nat.zero_le 1) hmany
  | cons first r =>
    obtain rfl := hl.1
    have hfirst : first ≠ d := fun h => hd (h ▸ mem_cons_self)
    have hhigh := hhead hsorted (by omega)
    rw [outranking_cons_of_le (UInt32.not_lt.mp hhigh)] at hmany
    cases r with
    | nil => exact absurd (Nat.le_refl 1) hmany
    | cons n r =>
      have hn := hhead (pairwise_cons.mp hsorted).2 (by omega)
      rw [dpcQueue_cons hq, if_neg hhigh, insertBehind_stuck (n := n)]
      · rfl
      · rw [DpcHeap.modify_of_ne _ _ hfirst]
        exact hl.2.1
      · rw [priority_accept, priority_accept]
        exact hn

theorem dpcQueue_inOrder (hq : (heap d).queued = false) (hnull : (heap d).nextDPC = none)
    (hl : Forward (fun b => (heap b).nextDPC) list l) (hd : d ∉ l) (hsorted : Descending heap l)
    {rounds : Nat} {rval : Bool} (h : dpcQueue rounds heap list d a = some (heap', list', rval)) :
    rval = true ∧ QueuedInOrder heap heap' list' d l := by
  have hfew : outranking heap d l ≤ 1 := by
    by_contra hmany
    rw [dpcQueue_spins hq hl hd hsorted hmany] at h
    cases h
  obtain ⟨hrval, hplace⟩ := dpcQueue_place hq hnull hl hd h
  refine ⟨hrval, ?_⟩
  cases l with
  | nil =>
    exact Inserted.inOrder [] [] hplace hsorted (fun x hx => nomatch hx)
      (fun x hx => nomatch hx)
  | cons first r =>
    rw [insertedAt] at hplace
    split at hplace
    · rename_i hlow
      exact Inserted.inOrder [] _ hplace hsorted (fun x hx => nomatch hx)
        (hsorted.low hlow)
    · rename_i hhigh
      rw [outranking_cons_of_le (UInt32.not_lt.mp hhigh)] at hfew
      refine Inserted.inOrder [first] r hplace hsorted (fun x hx => ?_) fun x hx => ?_
      · rw [mem_singleton.mp hx]
        exact UInt32.not_lt.mp hhigh
      · by_contra hnot
        have hpos : 0 < outranking heap d r :=
          countP_pos_iff.mpr ⟨x, hx, decide_eq_true (UInt32.not_lt.mp hnot)⟩
        omega

/-- **The order of the list.**  For a list in order of priority, of any length,
and an object that is not queued: `dpc_queue` returns 1 with the object in its
place exactly when at most one entry has its priority or a higher one, and
otherwise it never returns. -/
theorem dpcQueue_ordered_iff (heap : DpcHeap) (dpcList : Option PDpc) (l : List PDpc) (d : PDpc)
    (a : DpcParams) (hl : Forward (fun b => (heap b).nextDPC) dpcList l)
    (hsorted : Descending heap l) (hq : (heap d).queued = false)
    (hnull : (heap d).nextDPC = none) (hd : d ∉ l) :
    ((∃ rounds heap' list', dpcQueue rounds heap dpcList d a = some (heap', list', true) ∧
      QueuedInOrder heap heap' list' d l) ↔ outranking heap d l ≤ 1) ∧
    (1 < outranking heap d l → ∀ rounds, dpcQueue rounds heap dpcList d a = none) := by
  have hspins (hmany : ¬ outranking heap d l ≤ 1) (rounds : Nat) :=
    dpcQueue_spins (a := a) hq hl hd hsorted hmany rounds
  refine ⟨⟨?_, fun hfew => ?_⟩, fun hmany => hspins (Nat.not_le.mpr hmany)⟩
  · rintro ⟨rounds, heap', list', hrun, -⟩
    by_contra hmany
    rw [hspins hmany] at hrun
    cases hrun
  · obtain ⟨heap', list', hrun⟩ := dpcQueue_returns (a := a) hq hl hd hfew
    exact ⟨1, heap', list', hrun, (dpcQueue_inOrder hq hnull hl hd hsorted hrun).2⟩

/-! ### Lists of a few entries -/

/-- Objects 0 and 1 are in the list, in this order; object 2 is not. -/
def threeDpcs (priority : PDpc → UInt32) : DpcHeap := fun d =>
  { dpcInitialize 0 (priority d) with
    nextDPC := if d = 0 then some 1 else none
    queued := d < 2 }

def mixedPriority : PDpc → UInt32
  | 0 => 2
  | 1 => 0
  | _ => 1

/-- Priorities 2, 0 and 1: the new entry goes between the two. -/
theorem dpcQueue_ordered_between :
    ∃ rounds heap' list', dpcQueue rounds (threeDpcs mixedPriority) (some 0) 2 {} =
        some (heap', list', true) ∧
      QueuedInOrder (threeDpcs mixedPriority) heap' list' 2 [0, 1] := by
  have h := dpcQueue_ordered_iff (threeDpcs mixedPriority) (some 0) [0, 1] 2 {} ⟨rfl, rfl, rfl⟩
    (by unfold Descending; decide) rfl rfl (by decide)
  exact h.1.mpr (by decide)

/-- Three objects of one priority: the third call does not return. -/
theorem dpcQueue_third_spins :
    Forward (fun b => (threeDpcs (fun _ => 1) b).nextDPC) (some 0) [0, 1] ∧
      Descending (threeDpcs fun _ => 1) [0, 1] ∧ (threeDpcs (fun _ => 1) 2).queued = false ∧
      (threeDpcs (fun _ => 1) 2).nextDPC = none ∧
      ∀ rounds, dpcQueue rounds (threeDpcs fun _ => 1) (some 0) 2 {} = none := by
  have hl : Forward (fun b => (threeDpcs (fun _ => 1) b).nextDPC) (some 0) [0, 1] :=
    ⟨rfl, rfl, rfl⟩
  have hsorted : Descending (threeDpcs fun _ => 1) [0, 1] := by
    unfold Descending
    decide
  exact ⟨hl, hsorted, rfl, rfl, dpcQueue_spins rfl hl (by decide) hsorted (by decide)⟩

end LibXenon
