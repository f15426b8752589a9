/-
LibXenon/Transition.lean

Partial step functions and the states they reach.

A system is a function `step : S → A → Option S`: `step s a` is the state
after the atomic action `a`, or `none` when `a` cannot be taken in `s`.  A
*guard* `G : S → A → Prop` restricts the actions of a run by a condition on
the state they are taken in; the unguarded runs are those of `fun _ _ => True`.

* `Reach step G s₀ s` — some run from `s₀` ends in `s`, and every action of
  it met `G`;
* `Reach.invariant` — what holds at the start and survives each guarded
  step holds in every state reached;
* `guardedExec` — the same runs, computed; `Reach.of_guardedExec` turns a
  computed run into a reachability proof, and `exists_reach` takes what was
  decided of its last state along;
* `bind_eq_ok` — a computation that can fail, taken apart;
* `update_cases` — what holds at an updated place and everywhere else.
-/
import Mathlib.Data.Option.Basic

namespace Transition

variable {S A : Type*}

/-- `Reach step G s₀ s`: a run from `s₀` to `s`, every action of which meets
`G` in the state it is taken in. -/
inductive Reach (step : S → A → Option S) (G : S → A → Prop) (s₀ : S) : S → Prop
  | refl : Reach step G s₀ s₀
  | tail {s s' : S} {a : A} :
      Reach step G s₀ s → G s a → step s a = some s' → Reach step G s₀ s'

variable {step : S → A → Option S} {G : S → A → Prop} {s₀ s s' : S}

/-- **The invariant rule.**  A property of the initial state that every
guarded step preserves holds in every state reached. -/
theorem Reach.invariant {I : S → Prop} (hinit : I s₀)
    (hstep : ∀ s a s', I s → G s a → step s a = some s' → I s')
    (h : Reach step G s₀ s) : I s := by
  induction h with
  | refl => exact hinit
  | tail _ hg hs ih => exact hstep _ _ _ ih hg hs

/-! ### Computed runs -/

instance decidableExistsEqSome {α : Type*} {p : α → Prop} [DecidablePred p] (o : Option α) :
    Decidable (∃ a, o = some a ∧ p a) :=
  Option.decidableExistsMem o

instance decidableEqError {ε α : Type*} [DecidableEq ε] (x : Except ε α) (e : ε) :
    Decidable (x = .error e) :=
  match x with
  | .ok _ => .isFalse nofun
  | .error e' => decidable_of_iff (e' = e) (by rw [Except.error.injEq])

/-- Run a list of actions, giving up at the first one that misses the guard
or cannot be taken. -/
def guardedExec (step : S → A → Option S) (G : S → A → Prop)
    [∀ s a, Decidable (G s a)] (s : S) : List A → Option S
  | [] => some s
  | a :: as =>
    if G s a then
      match step s a with
      | some s' => guardedExec step G s' as
      | none => none
    else none

theorem Reach.of_guardedExec [∀ s a, Decidable (G s a)] (as : List A)
    (h : Reach step G s₀ s) (he : guardedExec step G s as = some s') :
    Reach step G s₀ s' := by
  induction as generalizing s with
  | nil =>
    cases he
    exact h
  | cons a as ih =>
    rw [guardedExec] at he
    split at he
    · rename_i hg
      split at he
      · exact ih (h.tail hg ‹_›) he
      · cases he
    · cases he

section

variable [∀ s a, Decidable (G s a)] {I : Type*} {start : Option I} {init : I → S}

/-- A computed run reaches a state with `P`. -/
theorem exists_reach {P : S → Prop} (as : List A) (h : ∃ s ∈ guardedExec step G s₀ as, P s) :
    ∃ s, Reach step G s₀ s ∧ P s := by
  obtain ⟨s, hrun, hP⟩ := h
  exact ⟨s, Reach.of_guardedExec as Reach.refl hrun, hP⟩

theorem exists_reach_imp {Q : S → Prop} (as : List A) (P : S → Prop)
    (h : ∃ s ∈ guardedExec step G s₀ as, P s) (hQ : ∀ s, Reach step G s₀ s → P s → Q s) :
    ∃ s, Reach step G s₀ s ∧ Q s := by
  obtain ⟨s, hr, hP⟩ := exists_reach as h
  exact ⟨s, hr, hQ s hr hP⟩

/-- The same from a start that is computed too. -/
theorem exists_reach_start {P : S → Prop} (as : List A)
    (h : ∃ i ∈ start, ∃ s ∈ guardedExec step G (init i) as, P s) :
    ∃ i s, start = some i ∧ Reach step G (init i) s ∧ P s := by
  obtain ⟨i, hstart, hrun⟩ := h
  obtain ⟨s, hr, hP⟩ := exists_reach as hrun
  exact ⟨i, s, hstart, hr, hP⟩

theorem exists_reach_start_imp {Q : I → S → Prop} (as : List A) (P : S → Prop)
    (h : ∃ i ∈ start, ∃ s ∈ guardedExec step G (init i) as, P s)
    (hQ : ∀ i s, start = some i → Reach step G (init i) s → P s → Q i s) :
    ∃ i s, start = some i ∧ Reach step G (init i) s ∧ Q i s := by
  obtain ⟨i, s, hstart, hr, hP⟩ := exists_reach_start as h
  exact ⟨i, s, hstart, hr, hQ i s hstart hr hP⟩

end

theorem bind_eq_ok {ε α β : Type} {x : Except ε α} {f : α → Except ε β} {b : β} :
    (x >>= f) = .ok b ↔ ∃ a, x = .ok a ∧ f a = .ok b := by
  constructor
  · intro h
    cases x with
    | error e => cases h
    | ok a => exact ⟨a, rfl, h⟩
  · rintro ⟨a, rfl, h⟩
    exact h

/-! ### States that are functions -/

@[elab_as_elim]
theorem update_cases {ι α : Type*} [DecidableEq ι] {f : ι → α} {i : ι} {v : α}
    {motive : ι → α → Prop} (hself : motive i v) (hother : ∀ j, j ≠ i → motive j (f j)) (j : ι) :
    motive j (Function.update f i v j) := by
  by_cases hj : j = i
  · subst hj
    rw [Function.update_self]
    exact hself
  · rw [Function.update_of_ne hj]
    exact hother j hj

end Transition
