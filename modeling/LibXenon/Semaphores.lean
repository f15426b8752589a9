/-
LibXenon/Semaphores.lean

Threads by the points they are at, and the semaphores they pass.

The threads of a system are given by their program counters `pc : T → C`,
and a step moves one of them (`Function.update`).

* `Census w pc n` — the weights of the points where the threads are add up to
  `n`; with weights 0 and 1 it counts the threads at some points.  Moving one
  thread changes a census by the weights of its old and its new point
  (`Census.update`), so the invariants of counting semaphores become
  equations between such numbers.
* `OwnedBy q pc free o` — a lock of one unit that guards the points in `q`:
  either its unit is free and nobody is there, or one thread `o` has it.
* `Under q pc free c₀ P` — the state that the lock protects is as `P` says of
  the point where the thread with the lock is, or of `c₀` when there is none.
  The four kinds of step (`Under.inside`, `Under.acquire`, `Under.release`,
  `Under.outside`) say what has to be shown of each.
-/
import Mathlib.Algebra.Order.BigOperators.Group.Finset

namespace Semaphores

variable {T C : Type*} {q : C → Bool} {pc : T → C} {t : T} {c : C}
variable {o : Option T}

/-- The weights of the points where the threads are add up to `n`. -/
def Census (w : C → Nat) (pc : T → C) (n : Nat) : Prop :=
  ∃ F : Finset T, (∀ t, t ∉ F → w (pc t) = 0) ∧ ∑ t ∈ F, w (pc t) = n

theorem Census.zero {w : C → Nat} (h : ∀ t, w (pc t) = 0) : Census w pc 0 :=
  ⟨∅, fun t _ => h t, Finset.sum_empty⟩

theorem Census.le {w : C → Nat} {n : Nat} (h : Census w pc n) (t : T) : w (pc t) ≤ n := by
  obtain ⟨F, hout, rfl⟩ := h
  by_cases ht : t ∈ F
  · exact Finset.single_le_sum (f := fun t => w (pc t)) (fun _ _ => Nat.zero_le _) ht
  · rw [hout t ht]
    exact Nat.zero_le _

/-- A lock of one unit around the points in `q`, with `free` units left and
`o` the thread that has it. -/
def OwnedBy (q : C → Bool) (pc : T → C) (free : Nat) : Option T → Prop
  | none => free = 1 ∧ ∀ u, q (pc u) = false
  | some t => free = 0 ∧ ∀ u, q (pc u) = true ↔ u = t

theorem OwnedBy.free_le {free : Nat} (h : OwnedBy q pc free o) : free ≤ 1 := by
  cases o with
  | none => exact h.1.le
  | some t => exact h.1.le.trans (Nat.zero_le 1)

theorem OwnedBy.owner {free : Nat} (h : OwnedBy q pc free o) (ht : q (pc t) = true) :
    o = some t ∧ free = 0 := by
  cases o with
  | none =>
    rw [h.2 t] at ht
    cases ht
  | some u => exact ⟨by rw [(h.2 t).mp ht], h.1⟩

section Moves

variable [DecidableEq T]

/-- **Moving one thread** changes a census by that thread. -/
theorem Census.update {w : C → Nat} {n : Nat} (h : Census w pc n) (t : T) (c : C) :
    ∃ n', Census w (Function.update pc t c) n' ∧ n' + w (pc t) = n + w c := by
  obtain ⟨F, hout, rfl⟩ := h
  have hother : ∀ u, u ≠ t → Function.update pc t c u = pc u :=
    fun u hu => Function.update_of_ne hu c pc
  -- the threads other than `t` weigh what they did
  have hrest : ∑ u ∈ F.erase t, w (Function.update pc t c u) = ∑ u ∈ F.erase t, w (pc u) := by
    apply Finset.sum_congr rfl
    intro u hu
    rw [hother u (Finset.ne_of_mem_erase hu)]
  have hold : ∑ u ∈ F, w (pc u) = w (pc t) + ∑ u ∈ F.erase t, w (pc u) := by
    by_cases ht : t ∈ F
    · exact (Finset.add_sum_erase F (fun u => w (pc u)) ht).symm
    · rw [hout t ht, Finset.erase_eq_of_notMem ht, Nat.zero_add]
  refine ⟨w c + ∑ u ∈ F.erase t, w (pc u), ⟨insert t F, ?_, ?_⟩, ?_⟩
  · intro u hu
    rw [Finset.mem_insert, not_or] at hu
    rw [hother u hu.1]
    exact hout u hu.2
  · rw [← Finset.add_sum_erase (insert t F) _ (Finset.mem_insert_self t F),
      Finset.erase_insert_eq_erase, Function.update_self, hrest]
  · rw [hold]
    omega

theorem OwnedBy.keep {free : Nat} (h : OwnedBy q pc free o) (hc : q c = q (pc t)) :
    OwnedBy q (Function.update pc t c) free o := by
  have hsame : ∀ u, q (Function.update pc t c u) = q (pc u) := by
    intro u
    by_cases hu : u = t
    · rw [hu, Function.update_self, hc]
    · rw [Function.update_of_ne hu]
  cases o with
  | none => exact ⟨h.1, fun u => (hsame u).trans (h.2 u)⟩
  | some v => exact ⟨h.1, fun u => by rw [hsame u]; exact h.2 u⟩

/-- Taking the unit: nobody had it, and now `t` does. -/
theorem OwnedBy.acquire {free : Nat} (h : OwnedBy q pc free o) (hfree : 0 < free)
    (hc : q c = true) : o = none ∧ OwnedBy q (Function.update pc t c) (free - 1) (some t) := by
  cases o with
  | some v => exact absurd h.1 hfree.ne'
  | none =>
    refine ⟨rfl, by rw [h.1], fun u => ?_⟩
    by_cases hu : u = t
    · simp [hu, hc]
    · simp [hu, h.2 u]

theorem OwnedBy.release {free : Nat} (h : OwnedBy q pc free o) (ht : q (pc t) = true)
    (hc : q c = false) : o = some t ∧ OwnedBy q (Function.update pc t c) (free + 1) none := by
  obtain ⟨rfl, hfree⟩ := h.owner ht
  refine ⟨rfl, by rw [hfree], fun u => ?_⟩
  by_cases hu : u = t
  · rw [hu, Function.update_self, hc]
  · rw [Function.update_of_ne hu, ← Bool.not_eq_true, h.2 u]
    exact hu

end Moves

/-! ### What a lock protects -/

/-- `P` holds of the point where the thread with the lock is, and of `c₀`
when nobody has it. -/
def Under (q : C → Bool) (pc : T → C) (free : Nat) (c₀ : C) (P : C → Prop) : Prop :=
  ∃ o, OwnedBy q pc free o ∧ P (o.elim c₀ pc)

section Steps

variable {free : Nat} {c₀ : C} {P P' : C → Prop}

theorem Under.of_locked (h : Under q pc free c₀ P) (ht : q (pc t) = true) : P (pc t) := by
  obtain ⟨o, howned, hP⟩ := h
  obtain ⟨rfl, -⟩ := howned.owner ht
  exact hP

theorem Under.vacant (h : Under q pc free c₀ P) (hfree : 0 < free) : P c₀ := by
  obtain ⟨o, howned, hP⟩ := h
  cases o with
  | none => exact hP
  | some t => exact absurd howned.1 hfree.ne'

theorem Under.exists (h : Under q pc free c₀ P) : ∃ c, P c := by
  obtain ⟨o, -, hP⟩ := h
  exact ⟨_, hP⟩

theorem Under.free_le (h : Under q pc free c₀ P) : free ≤ 1 := by
  obtain ⟨o, howned, -⟩ := h
  exact howned.free_le

variable [DecidableEq T]

theorem Under.inside (h : Under q pc free c₀ P) (ht : q (pc t) = true) (hc : q c = true)
    (hstep : P (pc t) → P' c) : Under q (Function.update pc t c) free c₀ P' := by
  obtain ⟨o, howned, hP⟩ := h
  obtain ⟨rfl, -⟩ := howned.owner ht
  refine ⟨some t, howned.keep (hc.trans ht.symm), ?_⟩
  rw [Option.elim_some, Function.update_self]
  exact hstep hP

theorem Under.acquire (h : Under q pc free c₀ P) (hfree : 0 < free) (hc : q c = true)
    (hstep : P c₀ → P' c) : Under q (Function.update pc t c) (free - 1) c₀ P' := by
  obtain ⟨o, howned, hP⟩ := h
  obtain ⟨rfl, howned'⟩ := howned.acquire (t := t) hfree hc
  refine ⟨some t, howned', ?_⟩
  rw [Option.elim_some, Function.update_self]
  exact hstep hP

theorem Under.release (h : Under q pc free c₀ P) (ht : q (pc t) = true) (hc : q c = false)
    (hstep : P (pc t) → P' c₀) : Under q (Function.update pc t c) (free + 1) c₀ P' := by
  obtain ⟨o, howned, hP⟩ := h
  obtain ⟨rfl, howned'⟩ := howned.release ht hc
  exact ⟨none, howned', hstep hP⟩

theorem Under.outside (h : Under q pc free c₀ P) (ht : q (pc t) = false) (hc : q c = false)
    (hstep : ∀ c, P c → P' c) : Under q (Function.update pc t c) free c₀ P' := by
  obtain ⟨o, howned, hP⟩ := h
  refine ⟨o, howned.keep (hc.trans ht.symm), hstep _ ?_⟩
  cases o with
  | none => exact hP
  | some u =>
    have hu : u ≠ t := by
      rintro rfl
      rw [(howned.2 u).mpr rfl] at ht
      cases ht
    rw [Option.elim_some, Function.update_of_ne hu]
    exact hP

end Steps

end Semaphores
