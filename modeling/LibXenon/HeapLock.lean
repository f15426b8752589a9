/-
LibXenon/HeapLock.lean

The lock of the heap in xenon_syscalls.c.

`xenon_malloc_lock` is a recursive lock made of two spin locks.  Under
`safety_spinlock` it takes a snapshot of `lockcount` and `lockowner` and reads
who is calling; by the snapshot it either takes `malloc_spinlock` and enters,
or counts one level more.  The snapshot is old by the time it is used, so the
lock rests on this: only the owner itself can find its own name in it, and what
it found stays true until it acts.

A section under `safety_spinlock` is one step, and so is taking
`malloc_spinlock`.  A caller is named by a thread id, or by a processor id
before threading starts, and `identity` says which name each has at the moment;
no two have the same.

* The lock is correct when nobody's name changes between the call of an
  outermost `xenon_malloc_lock` and its unlock, and no caller is 2 ^ 31 levels
  deep (`heapLock_of_reach`).
* `lockcount` is an `int`, and the name written to `lockowner` is the one that
  was read before the wait (`heapLock_assertions_fail`).
-/
import LibXenon.Transition
import Mathlib.Algebra.Group.Int.Defs
import Mathlib.Algebra.GroupWithZero.Nat
import Mathlib.Data.Fintype.Basic

namespace LibXenon

open Function Transition

/-- A name as `lockowner` and `pir_` have it: an `unsigned int`. -/
abbrev CallerId := BitVec 32

/-- Where a caller is in `xenon_malloc_lock`, with `pir_` as it was read. -/
inductive HeapCall
  | outside
  | waiting (pir : CallerId)
  | entering (pir : CallerId)
  | again
  deriving DecidableEq, Repr

/-- The two counters, `malloc_spinlock`, and for each caller its name, the place
in the code and how many locks it has that were not unlocked. -/
structure HeapLock (C : Type) where
  mallocSpinlock : Bool
  lockcount : BitVec 32
  lockowner : CallerId
  identity : C → CallerId
  call : C → HeapCall
  depth : C → Nat
  /-- An assertion has failed. -/
  aborted : Bool

variable {C : Type} [DecidableEq C]

def HeapLock.start (identity : C → CallerId) : HeapLock C where
  mallocSpinlock := false
  lockcount := 0
  lockowner := -1
  identity := identity
  call _ := .outside
  depth _ := 0
  aborted := false

def HeapLock.at (s : HeapLock C) (c : C) (p : HeapCall) : HeapLock C :=
  { s with call := update s.call c p }

def HeapLock.setDepth (s : HeapLock C) (c : C) (n : Nat) : HeapLock C :=
  { s with depth := update s.depth c n }

def HeapLock.abort (s : HeapLock C) : HeapLock C := { s with aborted := true }

/-! ### The sections -/

/-- The first section of `xenon_malloc_lock` and the choice made by it. -/
def HeapLock.snapshot (s : HeapLock C) (c : C) : HeapLock C :=
  let llc := s.lockcount
  let llo := s.lockowner
  let pir := s.identity c
  if llc.toInt < 0 then s.abort
  else if llc = 0 ∨ llo ≠ pir then s.at c (.waiting pir)
  else s.at c .again

/-- `++lockcount; lockowner = pir_;` behind `malloc_spinlock`. -/
def HeapLock.enter (s : HeapLock C) (c : C) (pir : CallerId) : HeapLock C :=
  { (s.at c .outside).setDepth c (s.depth c + 1) with
    lockcount := s.lockcount + 1, lockowner := pir }

/-- `++lockcount;` of the owner. -/
def HeapLock.count (s : HeapLock C) (c : C) : HeapLock C :=
  { (s.at c .outside).setDepth c (s.depth c + 1) with lockcount := s.lockcount + 1 }

/-- `xenon_malloc_unlock`. -/
def HeapLock.unlock (s : HeapLock C) (c : C) : HeapLock C :=
  let pir := s.identity c
  let llc := s.lockcount
  let llo := s.lockowner
  let s := { s with lockcount := s.lockcount - 1 }
  if llc.toInt ≤ 0 then s.abort
  else if llo ≠ pir then s.abort
  else
    let s := s.setDepth c (s.depth c - 1)
    if llc = 1 then { s with mallocSpinlock := false, lockowner := -1 } else s

inductive HeapAction (C : Type)
  | lock (c : C)
  | spin (c : C)
  | advance (c : C)
  | unlock (c : C)
  /-- Threading starts or ends: the callers get other names. -/
  | identify (identity : C → CallerId)

/-- One section of one caller. -/
def HeapLock.move (s : HeapLock C) : HeapAction C → Option (HeapLock C)
  | .lock c =>
    match s.call c with
    | .outside => some (s.snapshot c)
    | .waiting _ | .entering _ | .again => none
  | .spin c =>
    match s.call c with
    | .waiting pir =>
      -- `lock(&malloc_spinlock)` spins while it is taken
      if s.mallocSpinlock then none
      else some { s.at c (.entering pir) with mallocSpinlock := true }
    | .outside | .entering _ | .again => none
  | .advance c =>
    match s.call c with
    | .entering pir => some (s.enter c pir)
    | .again => some (s.count c)
    | .outside | .waiting _ => none
  | .unlock c =>
    match s.call c with
    | .outside => some (s.unlock c)
    | .waiting _ | .entering _ | .again => none
  | .identify identity => some { s with identity := identity }

/-- A failed assertion ends everything. -/
def heapStep (s : HeapLock C) (a : HeapAction C) : Option (HeapLock C) :=
  if s.aborted then none else s.move a

/-! ### What is asked of the callers -/

/-- Calls nest, names are different, and nobody who holds the lock gets a new
one. -/
def HeapLock.nested (s : HeapLock C) : HeapAction C → Prop
  | .unlock c => s.depth c ≠ 0
  | .identify identity =>
    (∀ c c', identity c = identity c' → c = c') ∧ ∀ c, s.depth c ≠ 0 → identity c = s.identity c
  | .lock _ | .spin _ | .advance _ => True

/-- The same, with names that also last while a call waits, and a bound on the
depth. -/
def HeapLock.steady (s : HeapLock C) : HeapAction C → Prop
  | .lock c => s.depth c + 1 < 2 ^ 31
  | .unlock c => s.depth c ≠ 0
  | .identify identity =>
    (∀ c c', identity c = identity c' → c = c') ∧
      ∀ c, s.depth c ≠ 0 ∨ s.call c ≠ .outside → identity c = s.identity c
  | .spin _ | .advance _ => True

instance [Fintype C] (s : HeapLock C) (a : HeapAction C) : Decidable (s.nested a) := by
  cases a <;> dsimp only [HeapLock.nested] <;> infer_instance

instance [Fintype C] (s : HeapLock C) (a : HeapAction C) : Decidable (s.steady a) := by
  cases a <;> dsimp only [HeapLock.steady] <;> infer_instance

/-! ### What one step does -/

variable {s s' : HeapLock C} {c c' : C}

inductive HeapEffect (s : HeapLock C) : HeapAction C → HeapLock C → Prop
  | snapshot (c : C) (hout : s.call c = .outside) : HeapEffect s (.lock c) (s.snapshot c)
  | spin (c : C) (pir : CallerId) (hwait : s.call c = .waiting pir)
      (hfree : s.mallocSpinlock = false) :
      HeapEffect s (.spin c) { s.at c (.entering pir) with mallocSpinlock := true }
  | enter (c : C) (pir : CallerId) (henter : s.call c = .entering pir) :
      HeapEffect s (.advance c) (s.enter c pir)
  | count (c : C) (hagain : s.call c = .again) : HeapEffect s (.advance c) (s.count c)
  | unlock (c : C) (hout : s.call c = .outside) : HeapEffect s (.unlock c) (s.unlock c)
  | identify (identity : C → CallerId) :
      HeapEffect s (.identify identity) { s with identity := identity }

theorem move_effect {a : HeapAction C} (hs : s.move a = some s') : HeapEffect s a s' := by
  cases a with
  | lock c =>
    rcases hc : s.call c with - | pir | pir | -
    all_goals rw [HeapLock.move, hc] at hs; cases hs
    exact .snapshot c hc
  | spin c =>
    rcases hc : s.call c with - | pir | pir | -
    all_goals rw [HeapLock.move, hc] at hs
    · cases hs
    · rcases hm : s.mallocSpinlock <;> rw [hm] at hs <;> cases hs
      exact .spin c pir hc hm
    · cases hs
    · cases hs
  | advance c =>
    rcases hc : s.call c with - | pir | pir | -
    all_goals rw [HeapLock.move, hc] at hs; cases hs
    · exact .enter c pir hc
    · exact .count c hc
  | unlock c =>
    rcases hc : s.call c with - | pir | pir | -
    all_goals rw [HeapLock.move, hc] at hs; cases hs
    exact .unlock c hc
  | identify identity =>
    cases hs
    exact .identify identity

theorem heapStep_effect {a : HeapAction C} (hs : heapStep s a = some s') : HeapEffect s a s' := by
  rw [heapStep] at hs
  split at hs
  · cases hs
  · exact move_effect hs

/-! ### The invariant -/

/-- The caller has `malloc_spinlock`. -/
def HeapLock.uses (s : HeapLock C) (c : C) : Prop :=
  s.depth c ≠ 0 ∨ ∃ pir, s.call c = .entering pir

/-- The lock against its callers: one of them at most has `malloc_spinlock`,
the counters speak of that one, and the names that were read are still true. -/
structure HeapLock.Correct (s : HeapLock C) : Prop where
  running : s.aborted = false
  names : ∀ c c', s.identity c = s.identity c' → c = c'
  read : ∀ c pir, s.call c = .waiting pir ∨ s.call c = .entering pir → pir = s.identity c
  taken : ∀ c, s.uses c → s.mallocSpinlock = true
  single : ∀ c c', s.uses c → s.uses c' → c = c'
  idle : (∀ c, s.depth c = 0) → s.lockcount = 0
  holder : ∀ c, s.depth c ≠ 0 → s.lockcount = BitVec.ofNat 32 (s.depth c) ∧
    s.lockowner = s.identity c ∧ s.depth c < 2 ^ 31
  entering : ∀ c pir, s.call c = .entering pir → s.depth c = 0
  again : ∀ c, s.call c = .again → s.depth c ≠ 0 ∧ s.depth c + 1 < 2 ^ 31

omit [DecidableEq C] in
theorem HeapLock.Correct.start {identity : C → CallerId}
    (h : ∀ c c', identity c = identity c' → c = c') : (HeapLock.start identity).Correct where
  running := rfl
  names := h
  read _ _ hc := by rcases hc with hc | hc <;> cases hc
  taken _ hu := by rcases hu with hu | ⟨_, hu⟩ <;> first | exact absurd rfl hu | cases hu
  single _ _ hu _ := by rcases hu with hu | ⟨_, hu⟩ <;> first | exact absurd rfl hu | cases hu
  idle _ := rfl
  holder _ hd := absurd rfl hd
  entering _ _ hc := nomatch hc
  again _ hc := nomatch hc

theorem toInt_ofNat_of_lt {n : Nat} (h : n < 2 ^ 31) : (BitVec.ofNat 32 n).toInt = n := by
  rw [BitVec.toInt_ofNat', Int.bmod_def]
  omega

omit [DecidableEq C] in
theorem HeapLock.Correct.toInt_lockcount (h : s.Correct) (hd : s.depth c ≠ 0) :
    s.lockcount.toInt = s.depth c := by
  obtain ⟨hcount, -, hlt⟩ := h.holder c hd
  rw [hcount, toInt_ofNat_of_lt hlt]

omit [DecidableEq C] in
theorem HeapLock.Correct.lockcount_nonneg (h : s.Correct) : ¬ s.lockcount.toInt < 0 := by
  by_cases hidle : ∀ c, s.depth c = 0
  · rw [h.idle hidle]
    decide
  · obtain ⟨c, hd⟩ := not_forall.mp hidle
    rw [h.toInt_lockcount hd]
    omega

omit [DecidableEq C] in
theorem HeapLock.Correct.depth_of_snapshot (h : s.Correct) (hcount : s.lockcount ≠ 0)
    (hname : s.lockowner = s.identity c) : s.depth c ≠ 0 := by
  have hbusy : ¬ ∀ c, s.depth c = 0 := fun hidle => hcount (h.idle hidle)
  obtain ⟨c', hd⟩ := not_forall.mp hbusy
  have hsame := h.names c c' (hname.symm.trans (h.holder c' hd).2.1)
  rw [hsame]
  exact hd

/-! ### What the steps keep -/

theorem call_at (s : HeapLock C) (c : C) (p : HeapCall) (c' : C) :
    (s.at c p).call c' = if c' = c then p else s.call c' := update_apply ..

theorem of_call_at {p q : HeapCall} (h : (s.at c p).call c' = q) :
    c' = c ∧ p = q ∨ c' ≠ c ∧ s.call c' = q := by
  rw [call_at] at h
  split at h
  · exact .inl ⟨‹_›, h⟩
  · exact .inr ⟨‹_›, h⟩

theorem depth_setDepth (s : HeapLock C) (c : C) (n : Nat) (c' : C) :
    (s.setDepth c n).depth c' = if c' = c then n else s.depth c' := update_apply ..

section

variable (h : s.Correct)
include h

theorem HeapLock.Correct.at {p : HeapCall} (hp : p = .waiting (s.identity c) ∨
      p = .again ∧ s.depth c ≠ 0 ∧ s.depth c + 1 < 2 ^ 31) : (s.at c p).Correct := by
  have hentering : ∀ pir, p ≠ .entering pir := by
    rcases hp with rfl | ⟨rfl, -⟩ <;> exact nofun
  have huses : ∀ c', (s.at c p).uses c' → s.uses c' := by
    rintro c' (hd | ⟨pir, hc⟩)
    · exact .inl hd
    · rcases of_call_at hc with ⟨-, hc⟩ | ⟨-, hc⟩
      · exact absurd hc (hentering pir)
      · exact .inr ⟨pir, hc⟩
  refine ⟨h.running, h.names, fun c' pir hc => ?_, fun c' hu => h.taken c' (huses c' hu),
    fun c₁ c₂ hu₁ hu₂ => h.single c₁ c₂ (huses c₁ hu₁) (huses c₂ hu₂), h.idle, h.holder,
    fun c' pir hc => ?_, fun c' hc => ?_⟩
  · rcases hc with hc | hc
    · rcases of_call_at hc with ⟨rfl, hself⟩ | ⟨-, hc⟩
      · rcases hp with rfl | ⟨rfl, -⟩
        · exact (HeapCall.waiting.inj hself).symm
        · cases hself
      · exact h.read c' pir (.inl hc)
    · rcases of_call_at hc with ⟨-, hc⟩ | ⟨-, hc⟩
      · exact absurd hc (hentering pir)
      · exact h.read c' pir (.inr hc)
  · rcases of_call_at hc with ⟨-, hc⟩ | ⟨-, hc⟩
    · exact absurd hc (hentering pir)
    · exact h.entering c' pir hc
  · rcases of_call_at hc with ⟨rfl, hself⟩ | ⟨-, hc⟩
    · rcases hp with rfl | ⟨-, hdepth⟩
      · cases hself
      · exact hdepth
    · exact h.again c' hc

theorem HeapLock.Correct.snapshot (hdeep : s.depth c + 1 < 2 ^ 31) :
    (s.snapshot c).Correct := by
  rw [HeapLock.snapshot, if_neg h.lockcount_nonneg]
  split
  · exact h.at (.inl rfl)
  · rename_i hown
    obtain ⟨hcount, hname⟩ := not_or.mp hown
    exact h.at (.inr ⟨rfl, h.depth_of_snapshot hcount (not_not.mp hname), hdeep⟩)

theorem HeapLock.Correct.spin {pir : CallerId} (hwait : s.call c = .waiting pir)
    (hfree : s.mallocSpinlock = false) :
    HeapLock.Correct { s.at c (.entering pir) with mallocSpinlock := true } := by
  have hnone : ∀ c', ¬ s.uses c' := fun c' hu => by
    rw [h.taken c' hu] at hfree
    cases hfree
  have hdepth : ∀ c', s.depth c' = 0 := fun c' => by
    by_contra hd
    exact hnone c' (.inl hd)
  -- the one who has `malloc_spinlock` now
  have huses : ∀ c', HeapLock.uses { s.at c (.entering pir) with mallocSpinlock := true } c' →
      c' = c := by
    rintro c' (hd | ⟨pir', hc⟩)
    · exact absurd (hdepth c') hd
    · rcases of_call_at hc with ⟨heq, -⟩ | ⟨-, hc⟩
      · exact heq
      · exact absurd (.inr ⟨pir', hc⟩) (hnone c')
  refine ⟨h.running, h.names, fun c' pir' hc => ?_, fun _ _ => rfl,
    fun c₁ c₂ hu₁ hu₂ => (huses c₁ hu₁).trans (huses c₂ hu₂).symm, h.idle, h.holder,
    fun c' pir' _ => hdepth c', fun c' hc => ?_⟩
  · rcases hc with hc | hc
    · rcases of_call_at hc with ⟨-, hc⟩ | ⟨-, hc⟩
      · cases hc
      · exact h.read c' pir' (.inl hc)
    · rcases of_call_at hc with ⟨rfl, hself⟩ | ⟨-, hc⟩
      · rw [← HeapCall.entering.inj hself]
        exact h.read c' pir (.inl hwait)
      · exact h.read c' pir' (.inr hc)
  · rcases of_call_at hc with ⟨-, hc⟩ | ⟨-, hc⟩
    · cases hc
    · exact h.again c' hc

/-- The last section of a lock, by the one who has `malloc_spinlock`: the count
goes up with the depth. -/
theorem HeapLock.Correct.deeper (huse : s.uses c)
    (hcount : s.lockcount = BitVec.ofNat 32 (s.depth c)) (hdeep : s.depth c + 1 < 2 ^ 31)
    {owner : CallerId} (howner : owner = s.identity c) : (s.enter c owner).Correct := by
  have hcall {c' : C} {q : HeapCall} (hc : (s.at c .outside).call c' = q) (hq : q ≠ .outside) :
      c' ≠ c ∧ s.call c' = q :=
    (of_call_at hc).resolve_left fun hself => hq hself.2.symm
  have hdepth := depth_setDepth (s.at c .outside) c (s.depth c + 1)
  -- only `c` is inside
  have hothers : ∀ c', c' ≠ c → s.depth c' = 0 := fun c' hne => by
    by_contra hd
    exact hne (h.single c' c (.inl hd) huse)
  have huses : ∀ c', (s.enter c owner).uses c' → c' = c := by
    rintro c' (hd | ⟨pir, hc⟩)
    · by_contra hne
      change ((s.at c .outside).setDepth c (s.depth c + 1)).depth c' ≠ 0 at hd
      rw [hdepth, if_neg hne] at hd
      exact hd (hothers c' hne)
    · exact h.single c' c (.inr ⟨pir, (hcall hc nofun).2⟩) huse
  refine ⟨h.running, h.names, fun c' pir hc => ?_, fun _ _ => h.taken c huse,
    fun c₁ c₂ hu₁ hu₂ => (huses c₁ hu₁).trans (huses c₂ hu₂).symm, fun hidle => ?_,
    fun c' hd => ?_, fun c' pir hc => ?_, fun c' hc => ?_⟩
  · rcases hc with hc | hc
    · exact h.read c' pir (.inl (hcall hc nofun).2)
    · exact h.read c' pir (.inr (hcall hc nofun).2)
  · have hzero : ((s.at c .outside).setDepth c (s.depth c + 1)).depth c = 0 := hidle c
    rw [hdepth, if_pos rfl] at hzero
    cases hzero
  · have hself := huses c' (.inl hd)
    have hnew : (s.enter c owner).depth c' = s.depth c + 1 := by
      rw [hself]
      exact (hdepth c).trans (if_pos rfl)
    rw [hnew, BitVec.ofNat_add, ← hcount, hself]
    exact ⟨rfl, howner, hdeep⟩
  · obtain ⟨hne, hc⟩ := hcall hc nofun
    exact absurd (h.single c' c (.inr ⟨pir, hc⟩) huse) hne
  · obtain ⟨hne, hc⟩ := hcall hc nofun
    exact absurd (hothers c' hne) (h.again c' hc).1

theorem HeapLock.Correct.enter {pir : CallerId}
    (henter : s.call c = .entering pir) : (s.enter c pir).Correct := by
  have huse : s.uses c := .inr ⟨pir, henter⟩
  have hzero := h.entering c pir henter
  -- nobody holds the lock, since `malloc_spinlock` was free
  have hidle : ∀ c', s.depth c' = 0 := fun c' => by
    by_contra hd
    obtain rfl := h.single c' c (.inl hd) huse
    exact hd hzero
  refine h.deeper huse ?_ (by omega) (h.read c pir (.inr henter))
  rw [h.idle hidle, hzero]
  rfl

theorem HeapLock.Correct.count (hagain : s.call c = .again) :
    (s.count c).Correct := by
  obtain ⟨hd, hdeep⟩ := h.again c hagain
  obtain ⟨hcount, howner, -⟩ := h.holder c hd
  exact h.deeper (.inl hd) hcount hdeep howner

/-- What `xenon_malloc_unlock` does for the holder: the assertions hold, and
the last level gives `malloc_spinlock` back. -/
theorem HeapLock.Correct.unlock_eq (hd : s.depth c ≠ 0) :
    s.unlock c = { s with
      lockcount := s.lockcount - 1
      depth := update s.depth c (s.depth c - 1)
      mallocSpinlock := if s.depth c = 1 then false else s.mallocSpinlock
      lockowner := if s.depth c = 1 then -1 else s.lockowner } := by
  obtain ⟨hcount, howner, hlt⟩ := h.holder c hd
  have hint := h.toInt_lockcount hd
  have hone : s.lockcount = 1 ↔ s.depth c = 1 := by
    rw [← BitVec.toInt_inj, hint]
    change (s.depth c : Int) = 1 ↔ _
    omega
  rw [HeapLock.unlock, if_neg (by omega), if_neg (not_not.mpr howner)]
  by_cases h1 : s.depth c = 1
  · rw [if_pos (hone.mpr h1), if_pos h1, if_pos h1]
    rfl
  · rw [if_neg (fun hc => h1 (hone.mp hc)), if_neg h1, if_neg h1]
    rfl

theorem HeapLock.Correct.depth_unlock (hd : s.depth c ≠ 0) :
    (s.unlock c).depth c = s.depth c - 1 ∧ ∀ c', c' ≠ c → (s.unlock c).depth c' = 0 := by
  rw [h.unlock_eq hd]
  refine ⟨update_self .., fun c' hne => (update_of_ne hne _ _).trans ?_⟩
  by_contra hd'
  exact hne (h.single c' c (.inl hd') (.inl hd))

theorem HeapLock.Correct.lockcount_unlock (hd : s.depth c ≠ 0) :
    (s.unlock c).lockcount = BitVec.ofNat 32 (s.depth c - 1) := by
  obtain ⟨hcount, -, hlt⟩ := h.holder c hd
  have hone : BitVec.toNat (1 : BitVec 32) = 1 := rfl
  rw [h.unlock_eq hd]
  rw [hcount, ← BitVec.toNat_inj, BitVec.toNat_sub, BitVec.toNat_ofNat, BitVec.toNat_ofNat]
  omega

theorem HeapLock.Correct.uses_unlock (hout : s.call c = .outside)
    (hd : s.depth c ≠ 0) (huse : (s.unlock c).uses c') : c' = c ∧ s.depth c ≠ 1 := by
  obtain ⟨hself, hothers⟩ := h.depth_unlock hd
  rcases huse with hd' | ⟨pir, hc⟩
  · by_cases heq : c' = c
    · rw [heq, hself] at hd'
      exact ⟨heq, by omega⟩
    · exact absurd (hothers c' heq) hd'
  · rw [h.unlock_eq hd] at hc
    obtain rfl := h.single c' c (.inr ⟨pir, hc⟩) (.inl hd)
    cases hout.symm.trans hc

theorem HeapLock.Correct.unlock (hout : s.call c = .outside)
    (hd : s.depth c ≠ 0) : (s.unlock c).Correct := by
  obtain ⟨hself, hothers⟩ := h.depth_unlock hd
  have hcount := h.lockcount_unlock hd
  have hcall : (s.unlock c).call = s.call := by rw [h.unlock_eq hd]
  refine ⟨?_, ?_, fun c' pir hc => ?_, fun c' hu => ?_,
    fun c₁ c₂ hu₁ hu₂ => (h.uses_unlock hout hd hu₁).1.trans (h.uses_unlock hout hd hu₂).1.symm,
    fun hidle => ?_, fun c' hd' => ?_, fun c' pir hc => ?_, fun c' hc => ?_⟩
  · rw [h.unlock_eq hd]
    exact h.running
  · rw [h.unlock_eq hd]
    exact h.names
  · rw [hcall] at hc
    rw [h.unlock_eq hd]
    exact h.read c' pir hc
  · have hmore := (h.uses_unlock hout hd hu).2
    rw [h.unlock_eq hd]
    exact (if_neg hmore).trans (h.taken c (.inl hd))
  · rw [hcount, ← hself, hidle c]
    rfl
  · obtain ⟨rfl, hmore⟩ := h.uses_unlock hout hd (.inl hd')
    obtain ⟨-, howner, hlt⟩ := h.holder c' hd
    rw [hself, hcount]
    refine ⟨rfl, ?_, by omega⟩
    rw [h.unlock_eq hd]
    exact (if_neg hmore).trans howner
  · rw [hcall] at hc
    have hne : c' ≠ c := by
      rintro rfl
      cases hout.symm.trans hc
    exact hothers c' hne
  · -- only the holder counts one level more, and this one is outside
    rw [hcall] at hc
    obtain rfl := h.single c' c (.inl (h.again c' hc).1) (.inl hd)
    cases hout.symm.trans hc

end

omit [DecidableEq C] in
theorem HeapLock.Correct.identify (h : s.Correct) {identity : C → CallerId}
    (hnames : ∀ c c', identity c = identity c' → c = c')
    (hkeep : ∀ c, s.depth c ≠ 0 ∨ s.call c ≠ .outside → identity c = s.identity c) :
    HeapLock.Correct { s with identity := identity } := by
  refine ⟨h.running, hnames, fun c pir hc => ?_, h.taken, h.single, h.idle, fun c hd => ?_,
    h.entering, h.again⟩
  · have hin : s.call c ≠ .outside := by
      intro hout
      change s.call c = _ ∨ s.call c = _ at hc
      rw [hout] at hc
      rcases hc with hc | hc <;> cases hc
    exact (h.read c pir hc).trans (hkeep c (.inr hin)).symm
  · obtain ⟨hcount, howner, hlt⟩ := h.holder c hd
    exact ⟨hcount, howner.trans (hkeep c (.inl hd)).symm, hlt⟩

theorem HeapLock.Correct.step {a : HeapAction C} (h : s.Correct) (hg : s.steady a)
    (hs : heapStep s a = some s') : s'.Correct := by
  cases heapStep_effect hs with
  | snapshot c hout => exact h.snapshot hg
  | spin c pir hwait hfree => exact h.spin hwait hfree
  | enter c pir henter => exact h.enter henter
  | count c hagain => exact h.count hagain
  | unlock c hout => exact h.unlock hout hg
  | identify identity => exact h.identify hg.1 hg.2

/-- **The heap lock.**  With steady names and less than 2 ^ 31 levels, one
caller at most is between an outermost lock and its unlock; `lockcount` is its
depth and `lockowner` its name; and no assertion fails. -/
theorem heapLock_of_reach {identity : C → CallerId}
    (hnames : ∀ c c', identity c = identity c' → c = c')
    (hrun : Reach heapStep HeapLock.steady (.start identity) s) :
    (∀ c c', s.depth c ≠ 0 → s.depth c' ≠ 0 → c = c') ∧
      (∀ c, s.depth c ≠ 0 → s.lockcount.toInt = s.depth c ∧ s.lockowner = s.identity c) ∧
      ((∀ c, s.depth c = 0) → s.lockcount.toInt = 0) ∧ s.aborted = false := by
  have h : s.Correct :=
    hrun.invariant (HeapLock.Correct.start hnames) fun _ _ _ hI hg hs => hI.step hg hs
  refine ⟨fun c c' hd hd' => h.single c c' (.inl hd) (.inl hd'),
    fun c hd => ⟨h.toInt_lockcount hd, (h.holder c hd).2.1⟩, fun hidle => ?_, h.running⟩
  rw [h.idle hidle]
  rfl

/-- One caller is two levels deep, the other waits, and threading starts with
the names kept. -/
def twoLevels : List (HeapAction Bool) :=
  [.lock true, .spin true, .advance true, .lock true, .advance true, .lock false,
    .identify fun c => if c then 1 else 0]

theorem heapLock_twoLevels :
    ∃ s, Reach heapStep HeapLock.steady (.start fun c : Bool => if c then 1 else 0) s ∧
      s.depth true ≠ 0 ∧ s.lockcount.toInt = 2 ∧ s.lockowner = s.identity true := by
  refine exists_reach_imp twoLevels (fun s => s.depth true = 2) (by decide +kernel)
    fun s hreach hdepth => ?_
  have hheld : s.depth true ≠ 0 := by
    rw [hdepth]
    exact Nat.succ_ne_zero 1
  obtain ⟨hcount, howner⟩ := (heapLock_of_reach (by decide) hreach).2.1 true hheld
  rw [hdepth] at hcount
  exact ⟨hheld, hcount, howner⟩

/-! ### Where it fails -/

/-- One caller, `n` levels deep. -/
def HeapLock.deep (n : Nat) : HeapLock Unit where
  mallocSpinlock := true
  lockcount := BitVec.ofNat 32 n
  lockowner := 0
  identity _ := 0
  call _ := .outside
  depth _ := n
  aborted := false

theorem heapStep_deep {n : Nat} (h : n + 1 < 2 ^ 31) :
    heapStep (.deep (n + 1)) (.lock ()) = some ((HeapLock.deep (n + 1)).at () .again) := by
  have hint := toInt_ofNat_of_lt h
  have hpos : ¬ (BitVec.ofNat 32 (n + 1)).toInt < 0 := by omega
  have hne : BitVec.ofNat 32 (n + 1) ≠ 0 := by
    rw [← BitVec.toInt_ne, hint]
    change ((n + 1 : Nat) : Int) ≠ 0
    omega
  have hown : ¬ (BitVec.ofNat 32 (n + 1) = 0 ∨ (0 : CallerId) ≠ 0) := by
    rintro (hz | hz)
    · exact hne hz
    · exact hz rfl
  change some (HeapLock.snapshot (.deep (n + 1)) ()) = _
  exact congrArg some ((if_neg hpos).trans (if_neg hown))

/-- As many levels as the `int` can count, and one more. -/
theorem reach_deep (n : Nat) (h : n + 1 ≤ 2 ^ 31) :
    Reach heapStep HeapLock.nested (.start fun _ : Unit => 0) (.deep (n + 1)) := by
  induction n with
  | zero =>
    have hlock : Reach heapStep HeapLock.nested (.start fun _ : Unit => 0)
        (HeapLock.at (.start fun _ => 0) () (.waiting 0)) :=
      Reach.refl.tail (a := .lock ()) trivial rfl
    have hspin : Reach heapStep HeapLock.nested (.start fun _ : Unit => 0)
        { HeapLock.at (.start fun _ => 0) () (.entering 0) with mallocSpinlock := true } :=
      hlock.tail (a := .spin ()) trivial rfl
    exact hspin.tail (a := .advance ()) trivial rfl
  | succ n ih =>
    have hlock : Reach heapStep HeapLock.nested (.start fun _ : Unit => 0)
        ((HeapLock.deep (n + 1)).at () .again) :=
      (ih (by omega)).tail (a := .lock ()) trivial (heapStep_deep (by omega))
    refine hlock.tail (a := .advance ()) trivial (congrArg some ?_)
    have hcount : BitVec.ofNat 32 (n + 1) + 1 = BitVec.ofNat 32 (n + 1 + 1) :=
      (BitVec.ofNat_add (n + 1) 1).symm
    change { HeapLock.deep (n + 1 + 1) with lockcount := BitVec.ofNat 32 (n + 1) + 1 } = _
    rw [hcount]
    rfl

/-- A caller reads its name and waits, gets another name, and enters. -/
def renamed : List (HeapAction Unit) :=
  [.lock (), .identify fun _ => 1, .spin (), .advance (), .unlock ()]

/-- An assertion fails at 2 ^ 31 levels, and for a caller that is renamed while
it waits. -/
theorem heapLock_assertions_fail :
    (∃ s, Reach heapStep HeapLock.nested (.start fun _ : Unit => 0) s ∧
      s.depth () = 2 ^ 31 ∧ s.lockcount.toInt = -2 ^ 31 ∧
      ∃ s', heapStep s (.lock ()) = some s' ∧ s'.aborted = true) ∧
    ∃ s, Reach heapStep HeapLock.nested (.start fun _ : Unit => 0) s ∧ s.aborted = true := by
  constructor
  · exact ⟨_, reach_deep (2 ^ 31 - 1) (by decide), rfl, by decide, _, rfl, by decide⟩
  · exact exists_reach renamed (by decide +kernel)

end LibXenon
