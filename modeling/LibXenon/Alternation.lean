/-
LibXenon/Alternation.lean

Requests and their answers in a history of events.

A history is a list of events, oldest first.  For one client, `role` says of
every event whether it is a request of that client, an answer to a given
request of it, or neither.  Reading the history from left to right, at most
one request is open at a time, and an answer must be the answer to the open
request: `Reads role w es w'` holds when the events `es`, read with `w` open,
keep to that and leave `w'` open.

* `Reads.answers_of_open` — a request is answered exactly once before the
  next request, or is still open;
* `Reads.opened` — the open request was made, and nothing of the client's
  came after it.

`Justified ok es` is the simpler statement that every event of a history is
allowed by those before it.
-/
import Mathlib.Data.List.Induction

namespace Alternation

open List

/-- What an event is to a client with requests of type `R`. -/
inductive Role (R : Type*)
  | request (r : R)
  | answer (r : R)
  | neither

variable {E R : Type*} [DecidableEq R] {role : E → Role R}
variable {w w' w'' : Option R} {es es' : List E} {e : E} {r : R}

/-- The open request after one more event, `none` (outside) if the event
may not come now. -/
def read (role : E → Role R) (w : Option R) (e : E) : Option (Option R) :=
  match role e with
  | .neither => some w
  | .request r => if w = none then some (some r) else none
  | .answer r => if w = some r then some none else none

/-- The events `es` alternate, from the open request `w` to `w'`. -/
def Reads (role : E → Role R) (w : Option R) (es : List E) (w' : Option R) : Prop :=
  es.foldlM (read role) w = some w'

/-- The answers among `es` that come before the next request. -/
def answers (role : E → Role R) : List E → List R
  | [] => []
  | e :: es =>
    match role e with
    | .neither => answers role es
    | .answer r => r :: answers role es
    | .request _ => []

/-! ### Reading in parts -/

theorem Reads.nil_iff : Reads role w [] w' ↔ w = w' := by
  exact Option.some_inj

theorem Reads.cons_iff :
    Reads role w (e :: es) w'' ↔ ∃ w', read role w e = some w' ∧ Reads role w' es w'' := by
  exact Option.bind_eq_some_iff

theorem Reads.append_iff :
    Reads role w (es ++ es') w'' ↔ ∃ w', Reads role w es w' ∧ Reads role w' es' w'' := by
  rw [Reads, foldlM_append]
  exact Option.bind_eq_some_iff

theorem Reads.snoc (h : Reads role w es w') (he : read role w' e = some w'') :
    Reads role w (es ++ [e]) w'' :=
  append_iff.mpr ⟨w', h, cons_iff.mpr ⟨w'', he, nil_iff.mpr rfl⟩⟩

theorem read_neither (he : role e = .neither) : read role w e = some w := by
  rw [read, he]

theorem read_request (he : role e = .request r) : read role none e = some (some r) := by
  rw [read, he]
  exact if_pos rfl

theorem read_answer (he : role e = .answer r) : read role (some r) e = some none := by
  rw [read, he]
  exact if_pos rfl

theorem of_read_request (he : role e = .request r) (h : read role w e = some w') :
    w = none ∧ w' = some r := by
  rw [read, he] at h
  dsimp only at h
  split at h
  · cases h
    exact ⟨‹_›, rfl⟩
  · cases h

theorem of_read_answer (he : role e = .answer r) (h : read role w e = some w') :
    w = some r ∧ w' = none := by
  rw [read, he] at h
  dsimp only at h
  split at h
  · cases h
    exact ⟨‹_›, rfl⟩
  · cases h

theorem of_read_neither (he : role e = .neither) (h : read role w e = some w') : w' = w := by
  rw [read_neither he] at h
  exact (Option.some.inj h).symm

/-! ### What alternation gives -/

theorem Reads.answers_of_none (h : Reads role none es w) : answers role es = [] := by
  induction es with
  | nil => rfl
  | cons e es ih =>
    obtain ⟨w', he, hes⟩ := cons_iff.mp h
    rw [answers]
    rcases hr : role e with r | r | -
    · rfl
    · cases (of_read_answer hr he).1
    · rw [of_read_neither hr he] at hes
      exact ih hes

/-- **Answered once.**  The open request is answered exactly once before the
next request, or it is open still. -/
theorem Reads.answers_of_open (h : Reads role (some r) es w) :
    answers role es = [r] ∨ answers role es = [] ∧ w = some r := by
  induction es with
  | nil => exact .inr ⟨rfl, (nil_iff.mp h).symm⟩
  | cons e es ih =>
    obtain ⟨w', he, hes⟩ := cons_iff.mp h
    rw [answers]
    rcases hr : role e with r' | r' | -
    · cases (of_read_request hr he).1
    · obtain ⟨hopen, rfl⟩ := of_read_answer hr he
      cases hopen
      rw [hes.answers_of_none]
      exact .inl rfl
    · rw [of_read_neither hr he] at hes
      exact ih hes

theorem Reads.opened (h : Reads role none es (some r)) :
    ∃ before e since, es = before ++ e :: since ∧ role e = .request r ∧
      ∀ x ∈ since, role x = .neither := by
  induction es using List.reverseRecOn with
  | nil => cases nil_iff.mp h
  | append_singleton es e ih =>
    -- from the end: the last event that is a request or an answer decides
    obtain ⟨w', hes, he⟩ := append_iff.mp h
    obtain ⟨w'', he, hnil⟩ := cons_iff.mp he
    cases nil_iff.mp hnil
    rcases hr : role e with r' | r' | -
    · cases (of_read_request hr he).2
      exact ⟨es, e, [], rfl, hr, fun x hx => nomatch hx⟩
    · cases (of_read_answer hr he).2
    · rw [← of_read_neither hr he] at hes
      obtain ⟨before, e', since, rfl, hreq, hsince⟩ := ih hes
      refine ⟨before, e', since ++ [e], by simp, hreq, fun x hx => ?_⟩
      rcases mem_append.mp hx with hx | hx
      · exact hsince x hx
      · rw [mem_singleton.mp hx]
        exact hr

/-! ### Justified histories -/

/-- Every event of `es` is allowed by those before it. -/
def Justified (ok : List E → E → Prop) (es : List E) : Prop :=
  ∀ earlier e later, es = earlier ++ e :: later → ok earlier e

variable {ok : List E → E → Prop}

theorem Justified.nil : Justified ok ([] : List E) := by
  intro earlier e later h
  exact absurd h (by simp)

theorem Justified.snoc (h : Justified ok es) (he : ok es e) : Justified ok (es ++ [e]) := by
  intro earlier x later hx
  rcases eq_nil_or_concat later with rfl | ⟨later, y, rfl⟩
  · obtain ⟨rfl, hxe⟩ := append_inj' hx rfl
    rw [← head_eq_of_cons_eq hxe]
    exact he
  · rw [concat_eq_append, ← cons_append, ← append_assoc] at hx
    exact h earlier x later (append_inj' hx rfl).1

end Alternation
