/-
LibXenon/Dialogue.lean

Programs that talk to a device.

A program asks the device for values and tells it things.  What the device
answers is a list that is fixed in advance and can be any list, so a statement
about all lists is one about every behaviour of the device; a program that asks
for more than there is has not come to its end.  The second part of the state is
the side of the device: what it has been told and what it has answered.

`Post d p Q` is partial correctness: if the device is in `d` and `p` comes to
its end, then `Q` holds of the result and of the device; `Stable J p` is an
invariant.  `Decides d P₀ P p Q S` says exactly when the device is in `P` at the end: if
`P₀` holds and the answers fit a script `S` that reads them as the program does.  There
is one rule for each way to build a program, among them the loop that asks until an
answer is good (`Post.askUntil`, `Decides.askUntil`).
-/
import Mathlib.Data.Option.Basic

namespace Dialogue

variable {I D α β : Type}

/-- The answers to come, and the side of the device. -/
structure Bus (I D : Type) where
  answers : List I
  device : D

abbrev Prog (I D α : Type) := StateT (Bus I D) Option α

def tell (f : D → D) : Prog I D Unit := fun b => some ((), { b with device := f b.device })

/-- The next answer, and what the device makes of having given it. -/
def ask (note : I → D → D) : Prog I D I := fun b =>
  match b.answers with
  | [] => none
  | i :: rest => some (i, ⟨rest, note i b.device⟩)

def askUntilFrom (note : I → D → D) (good : I → Bool) : List I → D → Option (I × Bus I D)
  | [], _ => none
  | i :: rest, d =>
    if good i then some (i, ⟨rest, note i d⟩) else askUntilFrom note good rest (note i d)

/-- Ask again and again, until an answer is good. -/
def askUntil (note : I → D → D) (good : I → Bool) : Prog I D I := fun b =>
  askUntilFrom note good b.answers b.device

/-- The program does not go on. -/
def stuck : Prog I D α := fun _ => none

/-! ### What holds at the end -/

def Post (d : D) (p : Prog I D α) (Q : α → D → Prop) : Prop :=
  ∀ answers a b, p ⟨answers, d⟩ = some (a, b) → Q a b.device

variable {d : D} {p : Prog I D α} {f : α → Prog I D β} {note : I → D → D}

theorem Post.trivial : Post d p fun _ _ => True := fun _ _ _ _ => True.intro

theorem Post.mono {Q R : α → D → Prop} (h : Post d p Q) (hqr : ∀ a d', Q a d' → R a d') :
    Post d p R := fun answers a b hp => hqr a b.device (h answers a b hp)

theorem Post.pure {Q : α → D → Prop} {a : α} (h : Q a d) : Post d (pure a : Prog I D α) Q := by
  intro answers a' b hp
  cases hp
  exact h

theorem Post.bind {Q : α → D → Prop} {R : β → D → Prop} (hp : Post d p Q)
    (hf : ∀ a d', Q a d' → Post d' (f a) R) : Post d (p >>= f) R := by
  intro answers c b hrun
  obtain ⟨⟨a, b₁⟩, hfirst, hrest⟩ := Option.bind_eq_some_iff.mp hrun
  exact hf a b₁.device (hp answers a b₁ hfirst) b₁.answers c b hrest

theorem Post.tell {g : D → D} {Q : Unit → D → Prop} (h : Q () (g d)) :
    Post d (tell g : Prog I D Unit) Q := by
  intro answers a b hp
  cases hp
  exact h

theorem Post.tell_bind {g : D → D} {f : Unit → Prog I D β} {R : β → D → Prop}
    (h : Post (g d) (f ()) R) : Post d (Dialogue.tell g >>= f) R :=
  fun answers c b hrun => h answers c b hrun

theorem Post.ask {Q : I → D → Prop} (h : ∀ i, Q i (note i d)) : Post d (ask note) Q := by
  intro answers a b hp
  cases answers with
  | nil => cases hp
  | cons i rest =>
    cases hp
    exact h a

theorem Post.askUntil {good : I → Bool} {J : D → Prop} {Q : I → D → Prop} (hd : J d)
    (hkeep : ∀ i d', J d' → good i = false → J (note i d'))
    (hlast : ∀ i d', J d' → good i = true → Q i (note i d')) : Post d (askUntil note good) Q := by
  intro answers a b hp
  change askUntilFrom note good answers d = some (a, b) at hp
  induction answers generalizing d with
  | nil => cases hp
  | cons i rest ih =>
    rw [askUntilFrom] at hp
    cases hgood : good i with
    | true =>
      rw [hgood, if_pos rfl] at hp
      cases hp
      exact hlast a d hd hgood
    | false =>
      rw [hgood, if_neg Bool.false_ne_true] at hp
      exact ih (hkeep i d hd hgood) hp

theorem Post.stuck {Q : α → D → Prop} : Post d (stuck : Prog I D α) Q :=
  nofun

/-- `p` keeps a condition on the device. -/
def Stable (J : D → Prop) (p : Prog I D α) : Prop := ∀ d, J d → Post d p fun _ => J

section

variable {J : D → Prop}

theorem Stable.pure {a : α} : Stable J (pure a : Prog I D α) := fun _ h => Post.pure h

theorem Stable.bind (hp : Stable J p) (hf : ∀ a, Stable J (f a)) : Stable J (p >>= f) :=
  fun d h => Post.bind (hp d h) fun a d' => hf a d'

theorem Stable.tell {g : D → D} (hg : ∀ d, J d → J (g d)) : Stable J (tell g : Prog I D Unit) :=
  fun d h => Post.tell (hg d h)

theorem Stable.ask (hnote : ∀ i d, J d → J (note i d)) : Stable J (ask note) :=
  fun d h => Post.ask fun i => hnote i d h

theorem Stable.askUntil {good : I → Bool} (hnote : ∀ i d, J d → J (note i d)) :
    Stable J (askUntil note good) := fun _ h =>
  Post.askUntil h (fun i d' h _ => hnote i d' h) fun i d' h _ => hnote i d' h

end

/-! ### What the answers decide -/

/-- A condition on the answers to come. -/
abbrev Script (I : Type) := List I → Bool

/-- One answer, and the others after it. -/
def Script.next (S : I → Script I) : Script I
  | [] => false
  | i :: rest => S i rest

/-- Clean answers up to a good one. -/
def Script.upTo (good clean : I → Bool) (S : Script I) : Script I
  | [] => false
  | i :: rest => clean i && if good i then S rest else upTo good clean S rest

/-- If `p` comes to its end, then with the device in `P` and with answers left that
fit `Q`, exactly if `P₀` holds and the answers fit `S`. -/
def Decides (d : D) (P₀ : Prop) (P : α → D → Prop) (p : Prog I D α) (Q : α → Script I)
    (S : Script I) : Prop :=
  ∀ answers a b, p ⟨answers, d⟩ = some (a, b) →
    ((P a b.device ∧ Q a b.answers = true) ↔ (P₀ ∧ S answers = true))

section

variable {P₀ : Prop} {P : α → D → Prop} {P' : β → D → Prop} {Q : α → Script I}
variable {Q' : β → Script I} {S : Script I}

theorem Decides.pure {a : α} : Decides d (P a d) P (pure a : Prog I D α) Q (Q a) := by
  intro answers a' b hp
  cases hp
  exact Iff.rfl

theorem Decides.tell {g : D → D} {P : Unit → D → Prop} {Q : Unit → Script I} :
    Decides d (P () (g d)) P (tell g : Prog I D Unit) Q (Q ()) := by
  intro answers a b hp
  cases hp
  exact Iff.rfl

theorem Decides.tell_bind {g : D → D} {f : Unit → Prog I D β}
    (hf : Decides (g d) P₀ P' (f ()) Q' S) : Decides d P₀ P' (Dialogue.tell g >>= f) Q' S :=
  fun answers c b hrun => hf answers c b hrun

theorem Decides.bind_post {E M : α → D → Prop} (hp : Decides d P₀ M p Q S) (hE : Post d p E)
    (hf : ∀ a d', E a d' → Decides d' (M a d') P' (f a) Q' (Q a)) :
    Decides d P₀ P' (p >>= f) Q' S := by
  intro answers c b hrun
  obtain ⟨⟨a, b₁⟩, hfirst, hrest⟩ := Option.bind_eq_some_iff.mp hrun
  have hend := hE answers a b₁ hfirst
  exact (hf a b₁.device hend b₁.answers c b hrest).trans (hp answers a b₁ hfirst)

theorem Decides.bind {M : α → D → Prop} (hp : Decides d P₀ M p Q S)
    (hf : ∀ a d', Decides d' (M a d') P' (f a) Q' (Q a)) : Decides d P₀ P' (p >>= f) Q' S :=
  hp.bind_post Post.trivial fun a d' _ => hf a d'

theorem Decides.ask {c : I → Bool} {P : I → D → Prop} {Q : I → Script I}
    (hnote : ∀ i, P i (note i d) ↔ P₀ ∧ c i = true) :
    Decides d P₀ P (ask note) Q (Script.next fun i rest => c i && Q i rest) := by
  intro answers a b hp
  cases answers with
  | nil => cases hp
  | cons i rest =>
    cases hp
    rw [Script.next, Bool.and_eq_true, ← and_assoc, hnote]

theorem Decides.askUntil {good clean : I → Bool} {P : D → Prop}
    (hnote : ∀ i d, P (note i d) ↔ P d ∧ clean i = true) :
    Decides d (P d) (fun _ => P) (askUntil note good) (fun _ => S)
      (Script.upTo good clean S) := by
  intro answers a b hp
  change askUntilFrom note good answers d = some (a, b) at hp
  induction answers generalizing d with
  | nil => cases hp
  | cons i rest ih =>
    rw [askUntilFrom] at hp
    rw [Script.upTo, Bool.and_eq_true, ← and_assoc, ← hnote]
    cases hgood : good i with
    | true =>
      rw [hgood, if_pos rfl] at hp
      cases hp
      rfl
    | false =>
      -- asked again, with the answer noted
      rw [hgood, if_neg Bool.false_ne_true] at hp
      exact ih hp

theorem Decides.stuck : Decides d P₀ P (stuck : Prog I D α) Q S :=
  nofun

/-- What does not depend on the answers holds at the end. -/
theorem Decides.post (h : Decides d P₀ P p (fun _ _ => true) S)
    (hend : Decides d True (fun _ _ => True) p (fun _ _ => true) S) (h₀ : P₀) : Post d p P :=
  fun answers a b hrun =>
    ((h answers a b hrun).mpr ⟨h₀, ((hend answers a b hrun).mp ⟨trivial, rfl⟩).2⟩).1

end

end Dialogue
