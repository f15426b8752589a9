/-
LibXenon/IpiSystem.lean

Every interprocessor interrupt is acknowledged once.

For every call and every other processor the invariant records how far the
processor has come with that call (`Ack`): not asked, interrupt pending,
handler entered, entry point run, `IpiProc` cleared, counter incremented.
What the mailbox, the pending interrupts and the handler of a processor look
like is a function of that (`Ack.Fits`).  Only the holder of `ipi_lock` can
have a processor in between, so at each processor at most one call is active,
and the mailbox is its own; when the counter of a call shows 5, none of its
processors is left in between.

The invariant has three parts, on the points of the callers (`Phases`), on
the blocks (`Boxes`) and on counters and history (`Log`).  For each part
there is a lemma on a caller that moves on, on the request, and on a handler
that goes to the next phase (`advance`); the lemmas on the steps of the code
put them together.
-/
import LibXenon.Alternation
import LibXenon.Ipi
import Mathlib.Data.Fintype.Basic
import Mathlib.Data.Finset.Card

namespace LibXenon

open Function Alternation Transition List

/-! ### Phases -/

/-- Between `lock(&ipi_lock)` and `unlock(&ipi_lock)`. -/
def SendPc.inside : SendPc → Bool
  | .idle | .locking | .leave _ | .returned => false
  | .fill _ | .store _ | .stored _ | .request | .own | .wait _ | .release _ => true

/-- The interrupts have been requested. -/
def SendPc.asked : SendPc → Bool
  | .idle | .locking | .fill _ | .store _ | .stored _ | .request => false
  | .own | .wait _ | .release _ | .leave _ | .returned => true

/-- The counter has been seen at 5. -/
def SendPc.complete : SendPc → Bool
  | .release _ | .leave _ | .returned => true
  | _ => false

/-- The mailbox of `q` has been filled, if it is to be filled, and no
interrupt has been requested yet. -/
def SendPc.filled (q : Processor) : SendPc → Bool
  | .fill i | .store i => q.val < i
  | .stored i => q.val ≤ i
  | .request => true
  | _ => false

/-- The handler has nothing left to do with its mailbox. -/
def HandlerPc.quiet : HandlerPc → Bool
  | .idle | .unlock => true
  | .lock | .test | .running | .clear | .bump => false

/-- How far a processor has come with a call. -/
inductive Ack
  | unasked
  | requested
  | entered
  | called
  | cleared
  | counted
  deriving DecidableEq

/-- Between the request and the increment. -/
def Ack.active : Ack → Bool
  | .unasked | .counted => false
  | .requested | .entered | .called | .cleared => true

/-- The entry point has been run. -/
def Ack.hasRun : Ack → Bool
  | .unasked | .requested | .entered => false
  | .called | .cleared | .counted => true

/-- What a processor looks like in each active phase of a call with the
entry point `f`. -/
def Ack.Fits (f : IpiProc) (b : IpiBlock) : Ack → Prop
  | .requested => b.pending = 1 ∧ b.handler.quiet = true ∧ b.ipiProc = some f
  | .entered => b.pending = 0 ∧ (b.handler = .lock ∨ b.handler = .test) ∧ b.ipiProc = some f
  | .called => b.pending = 0 ∧ (b.handler = .running ∨ b.handler = .clear)
  | .cleared => b.pending = 0 ∧ b.handler = .bump
  | .unasked | .counted => True

/-- The block is not concerned with any call. -/
def IpiBlock.Quiet (b : IpiBlock) : Prop := b.pending = 0 ∧ b.handler.quiet = true

/-- The mailbox holds context and counter of call `c`. -/
def IpiBlock.Carries (call : IpiCall → IpiRequest) (c : IpiCall) (b : IpiBlock) : Prop :=
  b.ipiContext = (call c).context ∧ b.ipiIncrement = some c

/-! ### The invariant -/

/-- Whether an event may come after these. -/
def IpiEvent.Ok (call : IpiCall → IpiRequest) (earlier : List IpiEvent) : IpiEvent → Prop
  | .ran q counter f x =>
    ∃ c, counter = some c ∧ f = (call c).entrypoint ∧ x = (call c).context ∧
      q ≠ (call c).processor ∧ .begun c ∈ earlier ∧ ∀ r, .returned c r ∉ earlier
  | .incremented q c =>
    q ≠ (call c).processor ∧ .begun c ∈ earlier ∧ ∀ r, .returned c r ∉ earlier
  | .returned c _ =>
    (∀ q, q ≠ (call c).processor → earlier.filter (IpiEvent.ranFor q c) =
      [.ran q (some c) (call c).entrypoint (call c).context]) ∧
    earlier.countP (IpiEvent.increments c) = 5
  | .begun _ | .ranOwn _ _ _ => True

/-- `ack` is how far each processor has come with each call, seen from the
callers. -/
structure Phases (call : IpiCall → IpiRequest) (ack : IpiCall → Processor → Ack)
    (sender : IpiCall → SendPc) (lock : Option IpiCall) : Prop where
  holder : ∀ c, (sender c).inside = true ↔ lock = some c
  unasked : ∀ c q, ack c q = .unasked ↔ (sender c).asked = false ∨ q = (call c).processor
  complete : ∀ c q, (sender c).complete = true → q ≠ (call c).processor → ack c q = .counted

/-- … from the blocks … -/
structure Boxes (call : IpiCall → IpiRequest) (ack : IpiCall → Processor → Ack)
    (sender : IpiCall → SendPc) (block : Processor → IpiBlock) : Prop where
  fits : ∀ c q, (ack c q).active = true →
    (block q).Carries call c ∧ (ack c q).Fits (call c).entrypoint (block q)
  quiet : ∀ q, (∀ c, (ack c q).active = false) → (block q).Quiet
  filled : ∀ c q, (sender c).filled q = true → q ≠ (call c).processor →
    (block q).Carries call c ∧ (block q).ipiProc = some (call c).entrypoint

/-- … and from what happened. -/
structure Log (call : IpiCall → IpiRequest) (ack : IpiCall → Processor → Ack)
    (sender : IpiCall → SendPc) (count : IpiCall → Nat) (history : List IpiEvent) : Prop where
  runs : ∀ c q, history.filter (IpiEvent.ranFor q c) =
    if (ack c q).hasRun then [.ran q (some c) (call c).entrypoint (call c).context] else []
  count_eq : ∀ c, count c = (Finset.univ.filter fun q => ack c q = .counted).card
  increments : ∀ c, history.countP (IpiEvent.increments c) = count c
  begun : ∀ c, sender c ≠ .idle → .begun c ∈ history
  returned : ∀ c r, .returned c r ∈ history → sender c = .returned
  justified : Justified (IpiEvent.Ok call) history

structure Acked (call : IpiCall → IpiRequest) (ack : IpiCall → Processor → Ack)
    (s : IpiSys) : Prop where
  phases : Phases call ack s.sender s.ipiLock
  boxes : Boxes call ack s.sender s.block
  log : Log call ack s.sender s.count s.history

variable {call : IpiCall → IpiRequest} {ack : IpiCall → Processor → Ack} {s s' : IpiSys}
variable {sender : IpiCall → SendPc} {lock lock' : Option IpiCall}
variable {block : Processor → IpiBlock} {count : IpiCall → Nat} {history : List IpiEvent}
variable {c c' : IpiCall} {q q' : Processor} {d pc : SendPc} {k : Ack}
variable {b : IpiBlock} {i : Nat}

theorem acked_start (call : IpiCall → IpiRequest) :
    Acked call (fun _ _ => .unasked) IpiSys.start where
  phases :=
    { holder := fun _ => by simp [IpiSys.start, SendPc.inside]
      unasked := fun _ _ => by simp [IpiSys.start, SendPc.asked]
      complete := nofun }
  boxes :=
    { fits := nofun
      quiet := fun _ _ => ⟨rfl, rfl⟩
      filled := nofun }
  log :=
    { runs := fun _ _ => rfl
      count_eq := fun _ => by simp [IpiSys.start]
      increments := fun _ => rfl
      begun := fun _ h => absurd rfl h
      returned := nofun
      justified := Justified.nil }

theorem Ack.ne_of_active (h : k.active = true) : k ≠ .unasked ∧ k ≠ .counted := by
  constructor <;> (rintro rfl; cases h)

/-- Only the holder of `ipi_lock` has active processors. -/
theorem Phases.holder_of_active (h : Phases call ack sender lock)
    (ha : (ack c q).active = true) : lock = some c := by
  obtain ⟨hasked, hcounted⟩ := Ack.ne_of_active ha
  rw [Ne, h.unasked c q] at hasked
  have hopen : (sender c).complete ≠ true := fun hd =>
    hcounted (h.complete c q hd fun hq => hasked (.inr hq))
  rw [← h.holder c]
  cases hpc : sender c <;> rw [hpc] at hasked hopen
  all_goals first | rfl | exact absurd rfl hopen | exact absurd (.inl rfl) hasked

theorem Phases.active_unique (h : Phases call ack sender lock) (ha : (ack c q).active = true)
    (ha' : (ack c' q').active = true) : c' = c :=
  Option.some.inj ((h.holder_of_active ha').symm.trans (h.holder_of_active ha))

theorem Phases.ne_own (h : Phases call ack sender lock) (ha : (ack c q).active = true) :
    q ≠ (call c).processor := fun hq =>
  (Ack.ne_of_active ha).1 ((h.unasked c q).mpr (.inr hq))

theorem Phases.inactive (h : Phases call ack sender lock) (hin : (sender c).inside = true)
    (hasked : (sender c).asked = false) (c' : IpiCall) (q : Processor) :
    (ack c' q).active = false := by
  rw [Bool.eq_false_iff]
  intro ha
  obtain rfl := Option.some.inj ((h.holder_of_active ha).symm.trans ((h.holder c).mp hin))
  exact (Ack.ne_of_active ha).1 ((h.unasked c' q).mpr (.inl hasked))

theorem SendPc.inside_of_filled (h : pc.filled q = true) :
    pc.inside = true ∧ pc.asked = false := by
  cases pc <;> simp_all [SendPc.filled, SendPc.inside, SendPc.asked]

theorem Phases.eq_of_filled (h : Phases call ack sender lock) (hin : (sender c).inside = true)
    (hf : (update sender c pc c').filled q = true) : c' = c ∧ pc.filled q = true := by
  have hc : c' = c := by
    by_contra hc
    rw [update_of_ne hc] at hf
    have hholder := (h.holder c').mp (SendPc.inside_of_filled hf).1
    exact hc (Option.some.inj (hholder.symm.trans ((h.holder c).mp hin)))
  subst hc
  rw [update_self] at hf
  exact ⟨rfl, hf⟩

theorem Phases.not_filled (h : Phases call ack sender lock) (ha : (ack c q).active = true)
    (c' : IpiCall) (q' : Processor) : (sender c').filled q' = false := by
  rw [Bool.eq_false_iff]
  intro hf
  obtain ⟨hin, hasked⟩ := SendPc.inside_of_filled hf
  rw [h.inactive hin hasked c q] at ha
  cases ha

theorem Boxes.exists_active (h : Boxes call ack sender block) (hq : ¬ (block q).Quiet) :
    ∃ c, (ack c q).active = true := by
  by_contra hnone
  refine hq (h.quiet q fun c => ?_)
  rw [Bool.eq_false_iff]
  exact fun hc => hnone ⟨c, hc⟩

theorem Acked.in_progress (h : Acked call ack s) (ha : (ack c q).active = true) :
    .begun c ∈ s.history ∧ ∀ r, .returned c r ∉ s.history := by
  have hin := (h.phases.holder c).mpr (h.phases.holder_of_active ha)
  refine ⟨h.log.begun c fun hi => ?_, fun r hr => ?_⟩
  · rw [hi] at hin
    cases hin
  · rw [h.log.returned c r hr] at hin
    cases hin

theorem Acked.five_iff (h : Acked call ack s) :
    s.count c = 5 ↔ ∀ q, q ≠ (call c).processor → ack c q = .counted := by
  have hsub : (Finset.univ.filter fun q => ack c q = .counted) ⊆
      Finset.univ.erase (call c).processor := by
    intro x hx
    refine Finset.mem_erase.mpr ⟨fun hown => ?_, Finset.mem_univ x⟩
    have hx := (Finset.mem_filter.mp hx).2
    rw [(h.phases.unasked c x).mpr (.inr hown)] at hx
    cases hx
  have herase : (Finset.univ.erase (call c).processor).card = 5 := by
    rw [Finset.card_erase_of_mem (Finset.mem_univ _)]
    rfl
  rw [h.log.count_eq, ← herase]
  refine ⟨fun hcard q hq => ?_, fun hall => congrArg _ (hsub.antisymm fun q hq => ?_)⟩
  · have hmem := Finset.mem_erase.mpr ⟨hq, Finset.mem_univ q⟩
    rw [← Finset.eq_of_subset_of_card_le hsub hcard.ge] at hmem
    exact (Finset.mem_filter.mp hmem).2
  · exact Finset.mem_filter.mpr ⟨Finset.mem_univ q, hall q (Finset.ne_of_mem_erase hq)⟩

/-! ### A caller moves on -/

theorem Phases.move (h : Phases call ack sender lock) (hpc : sender c = d)
    (hlock : pc.inside = true ↔ lock' = some c)
    (hothers : ∀ c', c' ≠ c → (lock' = some c' ↔ lock = some c'))
    (hasked : pc.asked = d.asked) (hcomplete : pc.complete = true →
      ∀ q, q ≠ (call c).processor → ack c q = .counted) :
    Phases call ack (update sender c pc) lock' := by
  refine ⟨fun c' => ?_, fun c' q => ?_, fun c' q => ?_⟩
  · refine update_cases hlock (fun c' hc => ?_) c'
    rw [hothers c' hc]
    exact h.holder c'
  · refine update_cases ?_ (fun c' _ => h.unasked c' q) c'
    rw [hasked, ← hpc]
    exact h.unasked c q
  · exact update_cases (fun hd => hcomplete hd q) (fun c' _ => h.complete c' q) c'

/-- … without taking or releasing the lock. -/
theorem Phases.keep (h : Phases call ack sender lock) (hpc : sender c = d)
    (hin : pc.inside = d.inside) (hasked : pc.asked = d.asked) (hcomplete : pc.complete = true →
      ∀ q, q ≠ (call c).processor → ack c q = .counted) :
    Phases call ack (update sender c pc) lock := by
  refine h.move hpc ?_ (fun _ _ => Iff.rfl) hasked hcomplete
  rw [hin, ← hpc]
  exact h.holder c

theorem Boxes.move (h : Boxes call ack sender block)
    (hfilled : ∀ q, pc.filled q = true → q ≠ (call c).processor → (sender c).filled q = true) :
    Boxes call ack (update sender c pc) block where
  fits := h.fits
  quiet := h.quiet
  filled c' q := update_cases (fun hf hq => h.filled c q (hfilled q hf hq) hq)
    (fun c' _ => h.filled c' q) c'

theorem Log.move (h : Log call ack sender count history) (hpc : sender c = d)
    {es : List IpiEvent} (hruns : ∀ c q, es.filter (IpiEvent.ranFor q c) = [])
    (hincs : ∀ c, es.countP (IpiEvent.increments c) = 0)
    (hbegun : .begun c ∈ history ++ es) (hnot : d ≠ .returned)
    (hreturned : ∀ c' r, .returned c' r ∈ es → c' = c ∧ pc = .returned)
    (hjust : Justified (IpiEvent.Ok call) (history ++ es)) :
    Log call ack (update sender c pc) count (history ++ es) := by
  refine ⟨fun c' q => ?_, h.count_eq, fun c' => ?_, fun c' hc => ?_, fun c' r hr => ?_, hjust⟩
  · rw [filter_append, hruns, append_nil]
    exact h.runs c' q
  · rw [countP_append, hincs]
    exact h.increments c'
  · by_cases hcc : c' = c
    · subst hcc
      exact hbegun
    · rw [update_of_ne hcc] at hc
      exact mem_append_left _ (h.begun c' hc)
  · rcases mem_append.mp hr with hr | hr
    · have hret := h.returned c' r hr
      have hc : c' ≠ c := by
        rintro rfl
        exact hnot (hpc.symm.trans hret)
      rw [update_of_ne hc]
      exact hret
    · obtain ⟨rfl, hpc'⟩ := hreturned c' r hr
      rw [update_self]
      exact hpc'

/-- … in particular when nothing is recorded at all. -/
theorem Log.silent (h : Log call ack sender count history) (hpc : sender c = d)
    (hbegun : d ≠ .idle) (hnot : d ≠ .returned) :
    Log call ack (update sender c pc) count history := by
  have hmove : Log call ack (update sender c pc) count (history ++ []) :=
    h.move hpc (fun _ _ => rfl) (fun _ => rfl)
      (mem_append_left _ (h.begun c (hpc ▸ hbegun))) hnot nofun (by rw [append_nil]; exact h.justified)
  rw [append_nil] at hmove
  exact hmove

/-! ### The blocks under a caller -/

/-- What a phase says about a block does not depend on its `IpiLock`. -/
theorem Ack.Fits.setLock {f : IpiProc} (h : k.Fits f b) (l : Bool) :
    k.Fits f { b with ipiLock := l } := by
  cases k <;> exact h

theorem Boxes.handler (h : Boxes call ack sender block)
    (hcarries : ∀ c, (block q).Carries call c → b.Carries call c)
    (hproc : b.ipiProc = (block q).ipiProc)
    (hfits : ∀ (k : Ack) (f : IpiProc), k.Fits f (block q) → k.Fits f b)
    (hquiet : (block q).Quiet → b.Quiet) :
    Boxes call ack sender (update block q b) := by
  refine ⟨fun c' q' => ?_, ?_, fun c' q' => ?_⟩
  · refine update_cases (fun ha => ?_) (fun q' _ => h.fits c' q') q'
    exact ⟨hcarries c' (h.fits c' q ha).1, hfits _ _ (h.fits c' q ha).2⟩
  · exact update_cases (fun hq => hquiet (h.quiet q hq)) fun q' _ => h.quiet q'
  · refine update_cases (fun hf hq => ?_) (fun q' _ => h.filled c' q') q'
    exact ⟨hcarries c' (h.filled c' q hf hq).1, hproc.trans (h.filled c' q hf hq).2⟩

theorem Boxes.setLock (h : Boxes call ack sender block) (q : Processor) (l : Bool) :
    Boxes call ack sender (update block q { block q with ipiLock := l }) :=
  h.handler (fun _ => id) rfl (fun _ _ hf => hf.setLock l) id

/-- The stores into the mailbox of processor `i`. -/
theorem Boxes.store (h : Boxes call ack sender block) (hp : Phases call ack sender lock)
    (hi : i < 6) (hpc : sender c = .store i) :
    Boxes call ack (update sender c (.stored i))
      (update block ⟨i, hi⟩ { block ⟨i, hi⟩ with
        ipiProc := some (call c).entrypoint
        ipiContext := (call c).context
        ipiIncrement := some c }) := by
  have hin : (sender c).inside = true := by rw [hpc]; rfl
  have hasked : (sender c).asked = false := by rw [hpc]; rfl
  refine ⟨fun c' q ha => ?_, fun q hq => ?_, fun c' q hf hq => ?_⟩
  · rw [hp.inactive hin hasked c' q] at ha
    cases ha
  · exact update_cases (h.quiet _) (fun q _ => h.quiet q) q hq
  · obtain ⟨rfl, hf'⟩ := hp.eq_of_filled hin hf
    by_cases hqi : q = ⟨i, hi⟩
    · subst hqi
      rw [update_self]
      exact ⟨⟨rfl, rfl⟩, rfl⟩
    · rw [update_of_ne hqi]
      refine h.filled c' q ?_ hq
      have hne : q.val ≠ i := fun hv => hqi (Fin.ext hv)
      rw [hpc]
      simp only [SendPc.filled, decide_eq_true_eq] at hf' ⊢
      omega

/-! ### The request -/

/-- All other processors are asked. -/
def askAll (call : IpiCall → IpiRequest) (ack : IpiCall → Processor → Ack) (c : IpiCall) :
    IpiCall → Processor → Ack := fun c' q =>
  if c' = c ∧ q ≠ (call c).processor then .requested else ack c' q

theorem askAll_pos (hq : q ≠ (call c).processor) : askAll call ack c c q = .requested :=
  if_pos ⟨rfl, hq⟩

theorem askAll_own : askAll call ack c c (call c).processor = ack c (call c).processor :=
  if_neg fun h => h.2 rfl

theorem askAll_of_ne (hc : c' ≠ c) : askAll call ack c c' q = ack c' q :=
  if_neg fun h => hc h.1

theorem askAll_cases (call : IpiCall → IpiRequest) (ack : IpiCall → Processor → Ack)
    (c c' : IpiCall) (q : Processor) :
    askAll call ack c c' q = ack c' q ∨
      c' = c ∧ q ≠ (call c).processor ∧ askAll call ack c c' q = .requested := by
  by_cases hc : c' = c ∧ q ≠ (call c).processor
  · exact .inr ⟨hc.1, hc.2, if_pos hc⟩
  · exact .inl (if_neg hc)

theorem Phases.request (h : Phases call ack sender lock) (hpc : sender c = .request) :
    Phases call (askAll call ack c) (update sender c .own) lock := by
  refine ⟨fun c' => ?_, fun c' q => ?_, fun c' q hd hq => ?_⟩
  · refine update_cases ⟨fun _ => ?_, fun _ => rfl⟩ (fun c' _ => h.holder c') c'
    exact (h.holder c).mp (by rw [hpc]; rfl)
  · by_cases hc : c' = c
    · subst hc
      rw [update_self]
      by_cases hq : q = (call c').processor
      · subst hq
        rw [askAll_own, h.unasked, hpc]
        exact ⟨fun _ => .inr rfl, fun _ => .inl rfl⟩
      · rw [askAll_pos hq]
        refine ⟨nofun, fun hown => ?_⟩
        rcases hown with hown | hown
        · cases hown
        · exact absurd hown hq
    · rw [update_of_ne hc, askAll_of_ne hc]
      exact h.unasked c' q
  · by_cases hc : c' = c
    · subst hc
      rw [update_self] at hd
      cases hd
    · rw [update_of_ne hc] at hd
      rw [askAll_of_ne hc]
      exact h.complete c' q hd hq

theorem Boxes.request (h : Boxes call ack sender block) (hp : Phases call ack sender lock)
    (hpc : sender c = .request) :
    Boxes call (askAll call ack c) (update sender c .own) fun q =>
      if q = (call c).processor then block q
      else { block q with pending := (block q).pending + 1 } := by
  have hin : (sender c).inside = true := by rw [hpc]; rfl
  -- nobody was active, so all blocks were quiet
  have hnone := hp.inactive hin (by rw [hpc]; rfl)
  have hquiet : ∀ q, (block q).Quiet := fun q => h.quiet q fun c' => hnone c' q
  refine ⟨fun c' q ha => ?_, fun q hq => ?_, fun c' q hf hq => ?_⟩
  · rcases askAll_cases call ack c c' q with heq | ⟨rfl, hq, heq⟩
    · rw [heq, hnone] at ha
      cases ha
    · rw [heq, if_neg hq]
      obtain ⟨hcarries, hproc⟩ := h.filled c' q (by rw [hpc]; rfl) hq
      exact ⟨hcarries, by rw [(hquiet q).1], (hquiet q).2, hproc⟩
  · have hown : q = (call c).processor := by
      by_contra hne
      have hasked := hq c
      rw [askAll_pos hne] at hasked
      cases hasked
    rw [if_pos hown]
    exact hquiet q
  · obtain ⟨rfl, hf'⟩ := hp.eq_of_filled hin hf
    cases hf'

theorem Log.ask (h : Log call ack sender count history) (hunasked : ∀ q, ack c q = .unasked) :
    Log call (askAll call ack c) sender count history := by
  refine ⟨fun c' q => ?_, fun c' => ?_, h.increments, h.begun, h.returned, h.justified⟩
  · have hruns := h.runs c' q
    rcases askAll_cases call ack c c' q with heq | ⟨rfl, -, heq⟩
    · rw [heq]
      exact hruns
    · rw [hunasked] at hruns
      rw [heq]
      exact hruns
  · refine (h.count_eq c').trans (congrArg Finset.card (Finset.filter_congr fun q _ => ?_))
    rcases askAll_cases call ack c c' q with heq | ⟨rfl, -, heq⟩
    · rw [heq]
    · rw [heq, hunasked]
      simp

/-- **The write to the interrupt-request register.** -/
theorem Acked.request (h : Acked call ack s) (hpc : s.sender c = .request) :
    Acked call (askAll call ack c) (requestStep call s c) := by
  have hunasked : ∀ q, ack c q = .unasked := fun q =>
    (h.phases.unasked c q).mpr (.inl (by rw [hpc]; rfl))
  exact ⟨h.phases.request hpc, h.boxes.request h.phases hpc,
    (h.log.ask hunasked).silent hpc nofun nofun⟩

/-! ### A handler moves on -/

/-- Processor `q` comes to phase `k` of call `c`. -/
def setAck (ack : IpiCall → Processor → Ack) (c : IpiCall) (q : Processor) (k : Ack) :
    IpiCall → Processor → Ack := fun c' q' => if c' = c ∧ q' = q then k else ack c' q'

theorem setAck_self : setAck ack c q k c q = k := if_pos ⟨rfl, rfl⟩

theorem setAck_of_ne (h : ¬ (c' = c ∧ q' = q)) : setAck ack c q k c' q' = ack c' q' := if_neg h

theorem Phases.advance (h : Phases call ack sender lock) (ha : (ack c q).active = true)
    (hk : k ≠ .unasked) : Phases call (setAck ack c q k) sender lock := by
  refine ⟨h.holder, fun c' q' => ?_, fun c' q' hd hq => ?_⟩
  · by_cases hc : c' = c ∧ q' = q
    · obtain ⟨rfl, rfl⟩ := hc
      rw [setAck_self, ← h.unasked c' q']
      exact ⟨fun hu => absurd hu hk, fun hu => absurd hu (Ack.ne_of_active ha).1⟩
    · rw [setAck_of_ne hc]
      exact h.unasked c' q'
  · by_cases hc : c' = c ∧ q' = q
    · obtain ⟨rfl, rfl⟩ := hc
      exact absurd (h.complete c' q' hd hq) (Ack.ne_of_active ha).2
    · rw [setAck_of_ne hc]
      exact h.complete c' q' hd hq

theorem Boxes.advance (h : Boxes call ack sender block) (hp : Phases call ack sender lock)
    (ha : (ack c q).active = true) (hcarries : (block q).Carries call c → b.Carries call c)
    (hfits : k.active = true → k.Fits (call c).entrypoint b) (hquiet : k.active = false → b.Quiet) :
    Boxes call (setAck ack c q k) sender (update block q b) := by
  refine ⟨fun c' q' ha' => ?_, fun q' hq => ?_, fun c' q' hf hq => ?_⟩
  · by_cases hqq : q' = q
    · subst hqq
      rw [update_self]
      by_cases hc : c' = c
      · subst hc
        rw [setAck_self] at ha' ⊢
        exact ⟨hcarries (h.fits c' q' ha).1, hfits ha'⟩
      · rw [setAck_of_ne fun h => hc h.1] at ha'
        exact absurd (hp.active_unique ha ha') hc
    · rw [setAck_of_ne fun h => hqq h.2] at ha' ⊢
      rw [update_of_ne hqq]
      exact h.fits c' q' ha'
  · by_cases hqq : q' = q
    · subst hqq
      rw [update_self]
      have hself := hq c
      rw [setAck_self] at hself
      exact hquiet hself
    · rw [update_of_ne hqq]
      refine h.quiet q' fun c' => ?_
      have hc' := hq c'
      rw [setAck_of_ne fun h => hqq h.2] at hc'
      exact hc'
  · rw [hp.not_filled ha c' q'] at hf
    cases hf

/-- Among the processors that have counted there is one more exactly when
`k` is the last phase. -/
theorem card_setAck (ha : (ack c q).active = true) (c' : IpiCall) :
    (Finset.univ.filter fun q' => setAck ack c q k c' q' = .counted).card =
      (Finset.univ.filter fun q' => ack c' q' = .counted).card +
        if c' = c ∧ k = .counted then 1 else 0 := by
  have hq := (Ack.ne_of_active ha).2
  by_cases hc : c' = c ∧ k = .counted
  · rw [if_pos hc]
    obtain ⟨rfl, hk⟩ := hc
    have hinsert : (Finset.univ.filter fun q' => setAck ack c' q k c' q' = .counted) =
        insert q (Finset.univ.filter fun q' => ack c' q' = .counted) := by
      ext q'
      by_cases hqq : q' = q
      · subst hqq
        simp [setAck_self, hk]
      · simp [setAck_of_ne fun h : c' = c' ∧ q' = q => hqq h.2, hqq]
    rw [hinsert, Finset.card_insert_of_notMem (by simp [hq])]
  · rw [if_neg hc]
    refine congrArg Finset.card (Finset.filter_congr fun q' _ => ?_)
    by_cases hqq : c' = c ∧ q' = q
    · obtain ⟨rfl, rfl⟩ := hqq
      rw [setAck_self]
      exact ⟨fun h => absurd ⟨rfl, h⟩ hc, fun h => absurd h hq⟩
    · rw [setAck_of_ne hqq]

/-- What a handler records when it goes to phase `k`. -/
structure Records (call : IpiCall → IpiRequest) (ack : IpiCall → Processor → Ack) (c : IpiCall)
    (q : Processor) (k : Ack) (count count' : IpiCall → Nat) (es : List IpiEvent) : Prop where
  runs : (if k.hasRun then [.ran q (some c) (call c).entrypoint (call c).context] else []) =
    (if (ack c q).hasRun then [.ran q (some c) (call c).entrypoint (call c).context] else []) ++
      es.filter (IpiEvent.ranFor q c)
  other_runs : ∀ c' q', ¬ (c' = c ∧ q' = q) → es.filter (IpiEvent.ranFor q' c') = []
  count_eq : ∀ c', count' c' = count c' + if c' = c ∧ k = .counted then 1 else 0
  increments : ∀ c', es.countP (IpiEvent.increments c') = if c' = c ∧ k = .counted then 1 else 0
  returned : ∀ c' r, .returned c' r ∉ es

theorem Records.silent (hrun : k.hasRun = (ack c q).hasRun) (hk : k ≠ .counted) :
    Records call ack c q k count count [] where
  runs := by rw [hrun]; simp
  other_runs _ _ _ := rfl
  count_eq c' := by rw [if_neg fun h => hk h.2]; rfl
  increments c' := by rw [if_neg fun h => hk h.2]; rfl
  returned _ _ h := nomatch h

theorem Log.advance (h : Log call ack sender count history) (ha : (ack c q).active = true)
    {count' : IpiCall → Nat} {es : List IpiEvent} (hr : Records call ack c q k count count' es)
    (hjust : Justified (IpiEvent.Ok call) (history ++ es)) :
    Log call (setAck ack c q k) sender count' (history ++ es) := by
  refine ⟨fun c' q' => ?_, fun c' => ?_, fun c' => ?_, fun c' hc => ?_, fun c' r hm => ?_, hjust⟩
  · rw [filter_append, h.runs c' q']
    by_cases hc : c' = c ∧ q' = q
    · obtain ⟨rfl, rfl⟩ := hc
      rw [setAck_self, hr.runs]
    · rw [setAck_of_ne hc, hr.other_runs c' q' hc, append_nil]
  · rw [card_setAck ha, hr.count_eq, h.count_eq]
  · rw [countP_append, h.increments, hr.increments, hr.count_eq]
  · exact mem_append_left _ (h.begun c' hc)
  · rcases mem_append.mp hm with hm | hm
    · exact h.returned c' r hm
    · exact absurd hm (hr.returned c' r)

/-! ### The steps of the code -/

section

variable (h : Acked call ack s)
include h

/-- A step inside the lock short of the request, with the blocks done to what
`Boxes` allows. -/
theorem Acked.filling (hpc : s.sender c = d) (hin : d.inside = true) (hin' : pc.inside = d.inside)
    (hasked : pc.asked = d.asked) (hcomplete : pc.complete = false)
    (hboxes : Boxes call ack (update s.sender c pc) block) :
    Acked call ack { s with
      sender := update s.sender c pc
      block := block } where
  phases := h.phases.keep hpc hin' hasked fun hd => by
    rw [hcomplete] at hd
    cases hd
  boxes := hboxes
  log := by
    refine h.log.silent hpc ?_ ?_ <;> (rintro rfl; cases hin)

theorem Acked.fill (hpc : s.sender c = .fill i)
    (hs : fillStep call s c i = some s') : Acked call ack s' := by
  rw [fillStep] at hs
  split at hs
  · rename_i hi
    split at hs
    · rename_i hown
      cases hs
      refine h.filling hpc rfl rfl rfl rfl (h.boxes.move fun q hf hq => ?_)
      -- the own processor is passed over
      have hne : q.val ≠ i := by
        intro hv
        refine hq ?_
        rw [← hown]
        exact Fin.ext hv
      rw [hpc]
      simp only [SendPc.filled, decide_eq_true_eq] at hf ⊢
      omega
    · split at hs
      · cases hs
      · cases hs
        refine h.filling hpc rfl rfl rfl rfl ((h.boxes.move fun q hf _ => ?_).setLock _ true)
        rw [hpc]
        exact hf
  · rename_i hi
    cases hs
    refine h.filling hpc rfl rfl rfl rfl (h.boxes.move fun q _ _ => ?_)
    rw [hpc]
    have hq := q.isLt
    simp only [SendPc.filled, decide_eq_true_eq]
    omega

theorem Acked.storeStep (hpc : s.sender c = .store i)
    (hs : storeStep call s c i = some s') : Acked call ack s' := by
  rw [LibXenon.storeStep] at hs
  split at hs
  · rename_i hi
    cases hs
    exact h.filling hpc rfl rfl rfl rfl (h.boxes.store h.phases hi hpc)
  · cases hs

theorem Acked.storedStep (hpc : s.sender c = .stored i)
    (hs : storedStep s c i = some s') : Acked call ack s' := by
  rw [LibXenon.storedStep] at hs
  split at hs
  · cases hs
    refine h.filling hpc rfl rfl rfl rfl ((h.boxes.move fun q hf _ => ?_).setLock _ false)
    rw [hpc]
    simp only [SendPc.filled, decide_eq_true_eq] at hf ⊢
    omega
  · cases hs

theorem Acked.send {rval : UInt32}
    (hs : sendStep call s c rval = some s') : ∃ ack, Acked call ack s' := by
  rw [sendStep] at hs
  rcases hpc : s.sender c with _ | _ | i | i | i | _ | _ | r | r | r | _ <;> rw [hpc] at hs
  case idle =>
    cases hs
    refine ⟨ack, h.phases.keep hpc rfl rfl nofun, h.boxes.move nofun, ?_⟩
    exact h.log.move hpc (fun _ _ => rfl) (fun _ => rfl) (by simp) nofun (by simp)
      (h.log.justified.snoc trivial)
  case locking =>
    dsimp only at hs
    split at hs
    · rename_i hfree
      cases hs
      refine ⟨ack, h.phases.move hpc ⟨fun _ => rfl, fun _ => rfl⟩ (fun c' hc => ?_) (by rfl)
        nofun, h.boxes.move fun _ hf => ?_, h.log.silent hpc nofun nofun⟩
      · rw [hfree]
        exact ⟨fun hl => absurd (Option.some.inj hl).symm hc, nofun⟩
      · simp [SendPc.filled] at hf
    · cases hs
  case fill => exact ⟨ack, h.fill hpc hs⟩
  case store => exact ⟨ack, h.storeStep hpc hs⟩
  case stored => exact ⟨ack, h.storedStep hpc hs⟩
  case request =>
    cases hs
    exact ⟨_, h.request hpc⟩
  case own =>
    cases hs
    have hbegun := h.log.begun c (by rw [hpc]; exact nofun)
    refine ⟨ack, h.phases.keep hpc rfl rfl nofun, h.boxes.move nofun, ?_⟩
    exact h.log.move hpc (fun _ _ => rfl) (fun _ => rfl) (mem_append_left _ hbegun) nofun
      (by simp) (h.log.justified.snoc trivial)
  case wait =>
    dsimp only at hs
    split at hs
    · rename_i hfive
      cases hs
      exact ⟨ack, h.phases.keep hpc rfl rfl fun _ => h.five_iff.mp hfive, h.boxes.move nofun,
        h.log.silent hpc nofun nofun⟩
    · cases hs
  case release =>
    cases hs
    -- the lock goes back, and no other call thinks it has it
    have hlock := (h.phases.holder c).mp (by rw [hpc]; rfl)
    refine ⟨ack, h.phases.move hpc ⟨nofun, nofun⟩ (fun c' hc => ?_)
      rfl (fun _ q hq => h.phases.complete c q (by rw [hpc]; rfl) hq),
      h.boxes.move nofun, h.log.silent hpc nofun nofun⟩
    rw [hlock]
    exact ⟨nofun, fun hl => absurd (Option.some.inj hl).symm hc⟩
  case leave =>
    cases hs
    have hbegun := h.log.begun c (by rw [hpc]; exact nofun)
    -- by now all five have counted: what the log says of a return
    have hcounted : ∀ q, q ≠ (call c).processor → ack c q = .counted := fun q hq =>
      h.phases.complete c q (by rw [hpc]; rfl) hq
    refine ⟨ack, h.phases.keep hpc rfl rfl fun _ => hcounted, h.boxes.move nofun, ?_⟩
    refine h.log.move hpc (fun _ _ => rfl) (fun _ => rfl) (mem_append_left _ hbegun) nofun
      (by simp) (h.log.justified.snoc ⟨fun q hq => ?_, ?_⟩)
    · rw [h.log.runs, hcounted q hq]
      rfl
    · rw [h.log.increments]
      exact h.five_iff.mpr hcounted
  case returned => cases hs

end

/-- The phase a running handler is in. -/
def HandlerPc.phase : HandlerPc → Option Ack
  | .idle | .unlock => none
  | .lock | .test => some .entered
  | .running | .clear => some .called
  | .bump => some .cleared

theorem Ack.Fits.phase_eq {f : IpiProc} {k k' : Ack} (h : k.Fits f b)
    (ha : k.active = true) (hk : b.handler.phase = some k') : k = k' := by
  cases k with
  | unasked | counted => cases ha
  | requested =>
    have hquiet := h.2.1
    revert hquiet hk
    cases b.handler <;> simp [HandlerPc.quiet, HandlerPc.phase]
  | entered =>
    rcases h.2.1 with hh | hh
    · rw [hh] at hk
      exact Option.some.inj hk
    · rw [hh] at hk
      exact Option.some.inj hk
  | called =>
    rcases h.2 with hh | hh
    · rw [hh] at hk
      exact Option.some.inj hk
    · rw [hh] at hk
      exact Option.some.inj hk
  | cleared =>
    rw [h.2] at hk
    exact Option.some.inj hk

theorem Boxes.busy (h : Boxes call ack sender block) (hk : (block q).handler.phase = some k) :
    ∃ c, ack c q = k ∧ (ack c q).active = true ∧ (block q).Carries call c ∧
      k.Fits (call c).entrypoint (block q) := by
  obtain ⟨c, ha⟩ := h.exists_active (q := q) (by
    rintro ⟨-, hquiet⟩
    revert hquiet hk
    cases (block q).handler <;> simp [HandlerPc.quiet, HandlerPc.phase])
  obtain ⟨hcarries, hfits⟩ := h.fits c q ha
  have heq := hfits.phase_eq ha hk
  rw [heq] at hfits
  exact ⟨c, heq, ha, hcarries, hfits⟩

section

variable (h : Acked call ack s)
include h

/-- **A handler goes on to the next phase.** -/
theorem Acked.advance (ha : (ack c q).active = true) (hk : k ≠ .unasked)
    (hcarries : (s.block q).Carries call c → b.Carries call c)
    (hfits : k.active = true → k.Fits (call c).entrypoint b)
    (hquiet : k.active = false → b.Quiet) {es : List IpiEvent}
    (hr : Records call ack c q k s.count count es)
    (hjust : Justified (IpiEvent.Ok call) (s.history ++ es)) :
    Acked call (setAck ack c q k) { s with
      block := update s.block q b
      count := count
      history := s.history ++ es } where
  phases := h.phases.advance ha hk
  boxes := h.boxes.advance h.phases ha hcarries hfits hquiet
  log := h.log.advance ha hr hjust

/-- … recording nothing. -/
theorem Acked.advance_silent (ha : (ack c q).active = true)
    (hk : k.active = true) (hrun : k.hasRun = (ack c q).hasRun)
    (hcarries : (s.block q).Carries call c → b.Carries call c)
    (hfits : k.Fits (call c).entrypoint b) :
    Acked call (setAck ack c q k) (s.setBlock q b) := by
  have hne := Ack.ne_of_active hk
  have hadv := h.advance ha hne.1 hcarries (fun _ => hfits)
    (fun hf => by rw [hk] at hf; cases hf) (Records.silent hrun hne.2)
    (by rw [append_nil]; exact h.log.justified)
  rw [append_nil] at hadv
  exact hadv

theorem Acked.deliver (hs : deliverStep s q = some s') :
    ∃ ack, Acked call ack s' := by
  rw [deliverStep] at hs
  split at hs
  · obtain ⟨c, ha⟩ := h.boxes.exists_active (q := q) fun hquiet => by
      have hzero := hquiet.1
      omega
    obtain ⟨-, hfits⟩ := h.boxes.fits c q ha
    -- of the active phases, only the first has an interrupt pending
    rcases hk : ack c q with _ | _ | _ | _ | _ | _ <;> rw [hk] at ha hfits
    case requested =>
      cases hs
      refine ⟨_, h.advance_silent (c := c) (k := .entered) (by rw [hk]; rfl) rfl
        (by rw [hk]; rfl) id ⟨?_, .inl rfl, hfits.2.2⟩⟩
      simp [hfits.1]
    case unasked | counted => cases ha
    case entered | called | cleared =>
      have hzero := hfits.1
      omega
  · cases hs

theorem Acked.test (hh : (s.block q).handler = .test) :
    ∃ ack, Acked call ack (testStep s q) := by
  obtain ⟨c, hk, ha, ⟨hcontext, hincrement⟩, hfits⟩ := h.boxes.busy (by rw [hh]; rfl)
  have hstep : testStep s q = (s.setBlock q { s.block q with handler := .running }).record
      (.ran q (some c) (call c).entrypoint (call c).context) := by
    rw [← hcontext, ← hincrement, testStep]
    split
    · rename_i f hf
      rw [Option.some.inj (hfits.2.2.symm.trans hf)]
    · rename_i hf
      exact nomatch hf.symm.trans hfits.2.2
  rw [hstep]
  refine ⟨_, h.advance (c := c) (k := .called) ha nofun
    (b := { s.block q with handler := .running }) id (fun _ => ⟨hfits.1, .inl rfl⟩)
    nofun ?_ (h.log.justified.snoc ?_)⟩
  · refine ⟨?_, fun c' q' hne => ?_, fun c' => ?_, fun c' => ?_, fun c' r => ?_⟩
    · simp [hk, Ack.hasRun, IpiEvent.ranFor]
    · refine filter_eq_nil_iff.mpr fun e he hr => hne ?_
      rw [mem_singleton.mp he] at hr
      simp only [IpiEvent.ranFor, Bool.and_eq_true, decide_eq_true_eq] at hr
      exact ⟨(Option.some.inj hr.2).symm, hr.1.symm⟩
    · rw [if_neg fun hf => nomatch hf.2]
      rfl
    · simp [IpiEvent.increments]
    · simp
  · have hprogress := h.in_progress ha
    exact ⟨c, rfl, rfl, rfl, h.phases.ne_own ha, hprogress.1, hprogress.2⟩

theorem Acked.bump (hh : (s.block q).handler = .bump) :
    ∃ ack, Acked call ack (bumpStep s q) := by
  obtain ⟨c, hk, ha, ⟨-, hincrement⟩, hfits⟩ := h.boxes.busy (by rw [hh]; rfl)
  have hstep : bumpStep s q = { (s.setBlock q { s.block q with handler := .unlock }).record
      (.incremented q c) with count := update s.count c (s.count c + 1) } := by
    rw [bumpStep]
    split
    · rename_i c' hc
      rw [Option.some.inj (hincrement.symm.trans hc)]
    · rename_i hc
      exact nomatch hc.symm.trans hincrement
  rw [hstep]
  refine ⟨_, h.advance (c := c) (k := .counted) ha nofun
    (b := { s.block q with handler := .unlock }) id nofun
    (fun _ => ⟨hfits.1, rfl⟩) ?_ (h.log.justified.snoc ?_)⟩
  · refine ⟨?_, fun c' q' _ => rfl, fun c' => ?_, fun c' => ?_, fun c' r => ?_⟩
    · simp [hk, Ack.hasRun, IpiEvent.ranFor]
    · by_cases hc : c' = c
      · subst hc
        simp
      · simp [hc]
    · by_cases hc : c' = c
      · simp [IpiEvent.increments, hc]
      · simp [IpiEvent.increments, hc, Ne.symm hc]
    · simp
  · have hprogress := h.in_progress ha
    exact ⟨h.phases.ne_own ha, hprogress.1, hprogress.2⟩

theorem Acked.within (hcarries : ∀ c, (s.block q).Carries call c → b.Carries call c)
    (hproc : b.ipiProc = (s.block q).ipiProc)
    (hfits : ∀ (k : Ack) (f : IpiProc), k.Fits f (s.block q) → k.Fits f b)
    (hquiet : (s.block q).Quiet → b.Quiet) : Acked call ack (s.setBlock q b) :=
  ⟨h.phases, h.boxes.handler hcarries hproc hfits hquiet, h.log⟩

theorem Acked.handle (hs : handlerStep s q = some s') :
    ∃ ack, Acked call ack s' := by
  rw [handlerStep] at hs
  rcases hh : (s.block q).handler with _ | _ | _ | _ | _ | _ | _ <;> rw [hh] at hs
  case idle => cases hs
  case lock =>
    dsimp only at hs
    split at hs
    · cases hs
    · cases hs
      refine ⟨ack, h.within (fun _ => id) rfl (fun k f hf => ?_) fun hquiet => ?_⟩
      · cases k <;> simp_all [Ack.Fits, HandlerPc.quiet]
      · simp [IpiBlock.Quiet, hh, HandlerPc.quiet] at hquiet
  case test =>
    cases hs
    exact h.test hh
  case running =>
    cases hs
    refine ⟨ack, h.within (fun _ => id) rfl (fun k f hf => ?_) fun hquiet => ?_⟩
    · cases k <;> simp_all [Ack.Fits, HandlerPc.quiet]
    · simp [IpiBlock.Quiet, hh, HandlerPc.quiet] at hquiet
  case clear =>
    cases hs
    obtain ⟨c, hk, ha, -, hfits⟩ := h.boxes.busy (q := q) (by rw [hh]; rfl)
    exact ⟨_, h.advance_silent (c := c) (k := .cleared) ha rfl (by rw [hk]; rfl) id
      ⟨hfits.1, rfl⟩⟩
  case bump =>
    cases hs
    exact h.bump hh
  case unlock =>
    cases hs
    refine ⟨ack, h.within (fun _ => id) rfl (fun k f hf => ?_) fun hquiet => ⟨hquiet.1, rfl⟩⟩
    cases k <;> simp_all [Ack.Fits, HandlerPc.quiet]

theorem Acked.step {act : IpiAct} (hs : ipiStep call s act = some s') :
    ∃ ack, Acked call ack s' := by
  cases act with
  | send c rval => exact h.send hs
  | deliver q => exact h.deliver hs
  | handle q => exact h.handle hs

end

/-- … and so does every run. -/
theorem exists_acked (hr : Reach (ipiStep call) (fun _ _ => True) IpiSys.start s) :
    ∃ ack, Acked call ack s :=
  hr.invariant (I := fun s => ∃ ack, Acked call ack s) ⟨_, acked_start call⟩
    fun _ _ _ ⟨_, h⟩ _ hs => h.step hs

/-! ### What it means -/

/-- **Interprocessor interrupts.**  In every run of any number of calls of
`thread_send_ipi`:

* before a call returns, each of the other five processors has run its entry
  point exactly once, with its context, and its counter has been incremented
  exactly five times, and never after;
* a handler runs an entry point only for a call that has begun and has not
  returned;
* a counter is incremented only while its call is in progress. -/
theorem ipi_acknowledged_once (call : IpiCall → IpiRequest) (s : IpiSys)
    (hr : Reach (ipiStep call) (fun _ _ => True) IpiSys.start s) :
    (∀ c rval earlier later, s.history = earlier ++ .returned c rval :: later →
      (∀ q, q ≠ (call c).processor → earlier.filter (IpiEvent.ranFor q c) =
        [.ran q (some c) (call c).entrypoint (call c).context]) ∧
      earlier.countP (IpiEvent.increments c) = 5 ∧
      s.history.countP (IpiEvent.increments c) = 5) ∧
    (∀ q counter f context earlier later,
      s.history = earlier ++ .ran q counter f context :: later →
      ∃ c, counter = some c ∧ f = (call c).entrypoint ∧ context = (call c).context ∧
        q ≠ (call c).processor ∧ .begun c ∈ earlier ∧ ∀ rval, .returned c rval ∉ earlier) ∧
    (∀ q c earlier later, s.history = earlier ++ .incremented q c :: later →
      .begun c ∈ earlier ∧ ∀ rval, .returned c rval ∉ earlier) ∧
    ∀ c, s.count c = s.history.countP (IpiEvent.increments c) := by
  obtain ⟨ack, h⟩ := exists_acked hr
  have hjust := h.log.justified
  refine ⟨fun c rval earlier later hh => ?_, fun q counter f x earlier later hh =>
    hjust _ _ _ hh, fun q c earlier later hh => (hjust _ _ _ hh).2, fun c =>
    (h.log.increments c).symm⟩
  have hok := hjust _ _ _ hh
  refine ⟨hok.1, hok.2, ?_⟩
  have hret : s.sender c = .returned := h.log.returned c rval (by rw [hh]; simp)
  rw [h.log.increments]
  exact h.five_iff.mpr fun q hq => h.phases.complete c q (by rw [hret]; rfl) hq

/-- The interrupt arrives at each of the processors and its handler runs. -/
def handledBy (qs : List Processor) : List IpiAct :=
  qs.flatMap fun q => .deliver q :: List.replicate 6 (.handle q)

/-- Call 1 begins and has to wait for `ipi_lock`; call 0 sends, is answered and
returns; then the same for call 1. -/
def twoCalls : List IpiAct :=
  .send 1 0 :: List.replicate 20 (.send 0 0) ++ handledBy [1, 2, 3, 4, 5] ++
    List.replicate 4 (.send 0 0) ++ List.replicate 20 (.send 1 9) ++
    handledBy [0, 2, 3, 4, 5] ++ List.replicate 3 (.send 1 0)

/-- Two calls at once, on processors 0 and 1: the second one waits for
`ipi_lock` and is answered like the first. -/
theorem ipi_acknowledged_twice :
    ∃ s, Reach (ipiStep fun c => ⟨if c = 0 then 0 else 1, 0x8000, 7⟩) (fun _ _ => True)
        IpiSys.start s ∧
      ∃ earlier later, s.history = earlier ++ .returned 1 9 :: later ∧
        earlier.filter (IpiEvent.ranFor 5 1) = [.ran 5 (some 1) 0x8000 7] ∧
        s.history.countP (IpiEvent.increments 1) = 5 := by
  refine exists_reach_imp twoCalls (fun s => s.history.getLast? = some (.returned 1 9))
    (by decide +kernel) fun s hr hlast => ?_
  obtain ⟨earlier, hh⟩ := List.getLast?_eq_some_iff.mp hlast
  obtain ⟨hone, hfive, htotal⟩ := (ipi_acknowledged_once _ s hr).1 1 9 earlier [] hh
  exact ⟨earlier, [], hh, hone 5 (by decide), htotal⟩

end LibXenon
