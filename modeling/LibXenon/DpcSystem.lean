/-
LibXenon/DpcSystem.lean

Every accepted DPC is called exactly once.

The invariant gives each object one place: free, in the list of one
processor, or in the hands of `thread_process_dpc` of one processor, before
or after its call.  That an object is in one list at most, and never in a
list while it is run, is then a matter of types.  Beside it stand the list of
nodes of every processor and, for every object, the reading of the history as
an alternation of accepted `dpc_queue` calls and procedure calls
(`Alternation.Reads`), with the accepted call open as long as the object is
listed or taken.

One lemma per kind of step keeps the invariant; `Whereabouts.step` collects them.
-/
import LibXenon.Alternation
import LibXenon.Dpc
import LibXenon.Links

namespace LibXenon

open Function Alternation Links Transition List

/-! ### The history of one object -/

/-- An accepted `dpc_queue` of `d` requests a call of `f`, the procedure of
`d`, on its own processor; a call answers it. -/
def DpcEvent.role (f : DpcProc) (d : PDpc) :
    DpcEvent → Role (Processor × DpcProc × DpcParams)
  | .queued p d' a rval => if d' = d ∧ rval = true then .request (p, f, a) else .neither
  | .called p d' g a => if d' = d then .answer (p, g, a) else .neither

theorem role_accepted (f : DpcProc) (d : PDpc) (p : Processor) (a : DpcParams) :
    (DpcEvent.queued p d a true).role f d = .request (p, f, a) := if_pos ⟨rfl, rfl⟩

theorem role_called (f g : DpcProc) (d : PDpc) (p : Processor) (a : DpcParams) :
    (DpcEvent.called p d g a).role f d = .answer (p, g, a) := if_pos rfl

/-- Only an accepted `dpc_queue` is a request. -/
theorem eq_queued_of_role {f g : DpcProc} {d : PDpc} {p : Processor} {a : DpcParams}
    {e : DpcEvent} (h : e.role f d = .request (p, g, a)) :
    e = .queued p d a true ∧ g = f := by
  cases e with
  | queued p' d' a' rval =>
    rw [DpcEvent.role] at h
    split at h
    · rename_i hd
      cases h
      rw [hd.1, hd.2]
      exact ⟨rfl, rfl⟩
    · cases h
  | called p' d' g' a' =>
    rw [DpcEvent.role] at h
    split at h <;> cases h

/-! ### What dpc_queue does -/

section Queue

variable {rounds : Nat} {heap heap' : DpcHeap} {list list' : Option PDpc} {l : List PDpc}
variable {d : PDpc} {a : DpcParams} {rval : Bool}

/-- `heap'` is `heap` with `d` accepted and the links of `d` and of the nodes
of `l` rewritten, as the list `l'`. -/
structure Inserted (heap heap' : DpcHeap) (list' : Option PDpc) (d : PDpc) (a : DpcParams)
    (l l' : List PDpc) : Prop where
  forward : Forward (fun b => (heap' b).nextDPC) list' l'
  mem_iff : ∀ b, b ∈ l' ↔ b = d ∨ b ∈ l
  self : heap' d = ((heap d).accept a).link (heap' d).nextDPC
  other : ∀ b, b ≠ d → heap' b = (heap b).link (heap' b).nextDPC
  frame : ∀ b, b ≠ d → b ∉ l → heap' b = heap b

/-- The first entry: `processor->DPCList = dpc`. -/
theorem inserted_empty (hnull : (heap d).nextDPC = none) :
    Inserted heap (heap.modify d (Dpc.accept a)) (some d) d a [] [d] where
  forward := by
    have hself : (heap.modify d (Dpc.accept a) d).nextDPC = none := by
      rw [DpcHeap.modify_self]
      exact hnull
    exact ⟨rfl, hself⟩
  mem_iff b := by simp
  self := by rw [DpcHeap.modify_self]; rfl
  other b hb := by rw [DpcHeap.modify_of_ne _ _ hb]; rfl
  frame b hb _ := DpcHeap.modify_of_ne _ _ hb

theorem inserted_front (hl : Forward (fun b => (heap b).nextDPC) list l) (hd : d ∉ l) :
    Inserted heap ((heap.modify d (Dpc.accept a)).modify d (Dpc.link list)) (some d) d a l
      (d :: l) where
  forward := by
    refine hl.push ?_ fun b hb => ?_
    · rw [DpcHeap.modify_self]; rfl
    · have hbd : b ≠ d := fun h => hd (h ▸ hb)
      rw [DpcHeap.modify_of_ne _ _ hbd, DpcHeap.modify_of_ne _ _ hbd]
  mem_iff b := mem_cons
  self := by rw [DpcHeap.modify_self, DpcHeap.modify_self]; rfl
  other b hb := by rw [DpcHeap.modify_of_ne _ _ hb, DpcHeap.modify_of_ne _ _ hb]; rfl
  frame b hb _ := by rw [DpcHeap.modify_of_ne _ _ hb, DpcHeap.modify_of_ne _ _ hb]

theorem inserted_behind {first : PDpc} {r : List PDpc}
    (hl : Forward (fun b => (heap b).nextDPC) list (first :: r)) (hd : d ∉ first :: r)
    (hheap : heap' = ((heap.modify d (Dpc.accept a)).modify d
      (Dpc.link (heap first).nextDPC)).modify first (Dpc.link (some d))) :
    Inserted heap heap' list d a (first :: r) (first :: d :: r) := by
  have hfd : first ≠ d := fun h => hd (h ▸ mem_cons_self)
  have hout : ∀ b, b ≠ d → b ≠ first → heap' b = heap b := by
    intro b hbd hbf
    rw [hheap, DpcHeap.modify_of_ne _ _ hbf, DpcHeap.modify_of_ne _ _ hbd,
      DpcHeap.modify_of_ne _ _ hbd]
  have hself : heap' d = ((heap d).accept a).link (heap first).nextDPC := by
    rw [hheap, DpcHeap.modify_of_ne _ _ (Ne.symm hfd), DpcHeap.modify_self, DpcHeap.modify_self]
  refine ⟨hl.insert ?_ ?_ fun b hb => ?_, fun b => ?_, ?_, fun b hb => ?_, fun b hb hbl => ?_⟩
  · rw [hheap, DpcHeap.modify_self]; rfl
  · rw [hself]; rfl
  · have hbf : b ≠ first := fun h => (nodup_cons.mp hl.nodup).1 (h ▸ hb)
    have hbd : b ≠ d := fun h => hd (h ▸ mem_cons_of_mem first hb)
    rw [hout b hbd hbf]
  · simp only [mem_cons]
    tauto
  · rw [hself]; rfl
  · by_cases hbf : b = first
    · subst hbf
      rw [hheap, DpcHeap.modify_self, DpcHeap.modify_of_ne _ _ hb, DpcHeap.modify_of_ne _ _ hb]; rfl
    · rw [hout b hb hbf]; rfl
  · exact hout b hb fun h => hbl (h ▸ mem_cons_self)

theorem dpcQueue_refused (hq : (heap d).queued = true)
    (h : dpcQueue rounds heap list d a = some (heap', list', rval)) :
    heap' = heap ∧ list' = list ∧ rval = false := by
  rw [dpcQueue, if_pos hq] at h
  cases h
  exact ⟨rfl, rfl, rfl⟩

/-- Where a call that completes puts `d`: in front of a first entry of lower
priority, else right behind the first entry. -/
def insertedAt (heap : DpcHeap) (d : PDpc) : List PDpc → List PDpc
  | [] => [d]
  | first :: r =>
    if (heap first).priority < (heap d).priority then d :: first :: r else first :: d :: r

/-- **An accepted call** that completes. -/
theorem dpcQueue_place (hq : (heap d).queued = false) (hnull : (heap d).nextDPC = none)
    (hl : Forward (fun b => (heap b).nextDPC) list l) (hd : d ∉ l)
    (h : dpcQueue rounds heap list d a = some (heap', list', rval)) :
    rval = true ∧ Inserted heap heap' list' d a l (insertedAt heap d l) := by
  rw [dpcQueue, if_neg (by rw [hq]; exact Bool.false_ne_true)] at h
  cases l with
  | nil =>
    cases hl
    cases h
    exact ⟨rfl, inserted_empty hnull⟩
  | cons first r =>
    obtain rfl := hl.1
    dsimp only at h
    have hfd : first ≠ d := fun h => hd (h ▸ mem_cons_self)
    have hpriority : (heap.modify d (Dpc.accept a) d).priority = (heap d).priority := by
      rw [DpcHeap.modify_self]
      rfl
    rw [hpriority, DpcHeap.modify_of_ne _ _ hfd] at h
    rw [insertedAt]
    split at h
    · rename_i hlow
      cases h
      rw [if_pos hlow]
      exact ⟨rfl, inserted_front hl hd⟩
    · rename_i hhigh
      obtain ⟨heap₁, hins, hr⟩ := Option.map_eq_some_iff.mp h
      cases hr
      rw [if_neg hhigh]
      refine ⟨rfl, ?_⟩
      refine inserted_behind hl hd ?_
      rcases insertBehind_eq_some hins with ⟨hend, rfl⟩ | rfl
      · -- at the end of the list the link of `d` is not written: it is null
        rw [DpcHeap.modify_of_ne _ _ hfd] at hend
        have hkeep : (heap.modify d (Dpc.accept a)).modify d (Dpc.link (heap first).nextDPC) =
            heap.modify d (Dpc.accept a) := by
          rw [hend, ← hnull]
          funext b
          by_cases hb : b = d
          · subst hb
            rw [DpcHeap.modify_self, DpcHeap.modify_self]; rfl
          · rw [DpcHeap.modify_of_ne _ _ hb]
        rw [hkeep]
      · rw [DpcHeap.modify_of_ne _ _ hfd]

end Queue

/-! ### The invariant -/

/-- Where an object is.  In hand, the flag says whether its procedure has
been called. -/
inductive DpcPlace
  | free
  | listed (p : Processor)
  | inHand (p : Processor) (called : Bool)
  deriving DecidableEq

/-- The object `thread_process_dpc` holds, and whether its call is made. -/
def DpcPc.holds : DpcPc → Option (PDpc × Bool)
  | .idle | .test => none
  | .taken d => some (d, false)
  | .running d | .returned d | .cleared d => some (d, true)

theorem DpcPc.hand_eq_some_iff {c : DpcPc} {d : PDpc} :
    c.hand = some d ↔ ∃ called, c.holds = some (d, called) := by
  cases c <;> simp [DpcPc.hand, DpcPc.holds]

/-- The request that is open for the object `x` at this place. -/
def DpcPlace.waiting (x : Dpc) : DpcPlace → Option (Processor × DpcProc × DpcParams)
  | .listed p | .inHand p false => some (p, x.procedure, x.params)
  | .inHand _ true | .free => none

/-- `lists` are the nodes of the six lists and `place` is where each object
is. -/
structure Whereabouts (procedure : PDpc → DpcProc) (lists : Processor → List PDpc)
    (place : PDpc → DpcPlace) (s : DpcSys) : Prop where
  forward : ∀ p, Forward s.nextDPC (s.block p).dpcList (lists p)
  listed : ∀ p d, d ∈ lists p ↔ place d = .listed p
  inHand : ∀ p d c, (s.block p).pc.holds = some (d, c) ↔ place d = .inHand p c
  queued : ∀ d, (s.dpc d).queued = true ↔ place d ≠ .free
  /-- nothing is left in the link of an object that may be queued again -/
  free_null : ∀ d, place d = .free → (s.dpc d).nextDPC = none
  cleared_null : ∀ p d, (s.block p).pc = .cleared d → (s.dpc d).nextDPC = none
  procedure_eq : ∀ d, (s.dpc d).procedure = procedure d
  history : ∀ d, Reads (DpcEvent.role (procedure d) d) none s.history
    ((place d).waiting (s.dpc d))

variable {procedure : PDpc → DpcProc} {priority : PDpc → UInt32}
variable {lists : Processor → List PDpc} {place : PDpc → DpcPlace} {s s' : DpcSys}
variable {p : Processor} {d : PDpc}

theorem whereabouts_start :
    Whereabouts procedure (fun _ => []) (fun _ => .free) (DpcSys.start procedure priority) where
  forward _ := rfl
  listed _ _ := by simp
  inHand _ _ _ := by simp [DpcSys.start, DpcPc.holds]
  queued _ := by simp [DpcSys.start, dpcInitialize]
  free_null _ _ := rfl
  cleared_null _ _ h := nomatch h
  procedure_eq _ := rfl
  history _ := Reads.nil_iff.mpr rfl

/-! ### What a step may do -/

/-- The processor an object is with. -/
def DpcPlace.owner : DpcPlace → Option Processor
  | .free => none
  | .listed p => some p
  | .inHand p _ => some p

/-- A step of processor `p` on object `d`: other processors do not move, and
of other objects only the links of those in the list of `p` may change.
Afterwards `p` has the list `l` and `d` is at the place `k`. -/
structure Touch (procedure : PDpc → DpcProc) (lists : Processor → List PDpc)
    (place : PDpc → DpcPlace) (s s' : DpcSys) (p : Processor) (d : PDpc) (l : List PDpc)
    (k : DpcPlace) : Prop where
  block : ∀ q, q ≠ p → s'.block q = s.block q
  other : ∀ b, b ≠ d → s'.dpc b = (s.dpc b).link (s'.dpc b).nextDPC
  frame : ∀ b, b ≠ d → b ∉ lists p → s'.dpc b = s.dpc b
  forward : Forward s'.nextDPC (s'.block p).dpcList l
  mem_iff : ∀ b, b ≠ d → (b ∈ l ↔ b ∈ lists p)
  self_mem : d ∈ l ↔ k = .listed p
  owner_old : ∀ q, q ≠ p → (place d).owner ≠ some q
  owner_new : ∀ q, q ≠ p → k.owner ≠ some q
  holds : ∀ b c, b ≠ d →
    ((s'.block p).pc.holds = some (b, c) ↔ (s.block p).pc.holds = some (b, c))
  self_holds : ∀ c, (s'.block p).pc.holds = some (d, c) ↔ k = .inHand p c
  queued : (s'.dpc d).queued = true ↔ k ≠ .free
  free_null : k = .free → (s'.dpc d).nextDPC = none
  cleared_null : ∀ b, (s'.block p).pc = .cleared b → (s'.dpc b).nextDPC = none
  procedure_eq : (s'.dpc d).procedure = (s.dpc d).procedure
  history : ∀ b, b ≠ d → ∀ w, Reads (DpcEvent.role (procedure b) b) none s.history w →
    Reads (DpcEvent.role (procedure b) b) none s'.history w
  self_history : Reads (DpcEvent.role (procedure d) d) none s'.history (k.waiting (s'.dpc d))

section

variable (h : Whereabouts procedure lists place s)
include h

theorem Whereabouts.holds_of_cleared
    (hc : (s.block p).pc = .cleared d) : place d = .inHand p true := by
  rw [← h.inHand, hc]
  rfl

/-- **The step lemma.**  The invariant at the processor and the object a
step touches is the invariant everywhere. -/
theorem Whereabouts.touch {l : List PDpc} {k : DpcPlace}
    (ht : Touch procedure lists place s s' p d l k) :
    Whereabouts procedure (update lists p l) (update place d k) s' := by
  -- what is in another list is neither `d` nor in this one
  have hfar : ∀ q, q ≠ p → ∀ b ∈ lists q, b ≠ d ∧ b ∉ lists p := by
    intro q hq b hb
    have hplace := (h.listed q b).mp hb
    refine ⟨fun hbd => ?_, fun hbp => ?_⟩
    · subst hbd
      exact ht.owner_old q hq (by rw [hplace]; rfl)
    · rw [(h.listed p b).mp hbp] at hplace
      exact hq (DpcPlace.listed.inj hplace).symm
  refine ⟨fun q => ?_, fun q b => ?_, fun q b c => ?_, fun b => ?_, fun b => ?_,
    fun q b hc => ?_, fun b => ?_, fun b => ?_⟩
  · refine update_cases ht.forward (fun q hq => ?_) q
    rw [ht.block q hq]
    refine (h.forward q).congr fun b hb => ?_
    rw [DpcSys.nextDPC, ht.frame b (hfar q hq b hb).1 (hfar q hq b hb).2]
    rfl
  · refine update_cases ?_ (fun q hq => ?_) q
    · refine update_cases ht.self_mem (fun b hb => ?_) b
      rw [ht.mem_iff b hb]
      exact h.listed p b
    · refine update_cases ?_ (fun b _ => h.listed q b) b
      refine ⟨fun hm => absurd rfl (hfar q hq d hm).1, fun hk => ?_⟩
      exact absurd (by rw [hk]; rfl) (ht.owner_new q hq)
  · by_cases hq : q = p
    · subst hq
      refine update_cases (ht.self_holds c) (fun b hb => ?_) b
      rw [ht.holds b c hb]
      exact h.inHand q b c
    · rw [ht.block q hq, h.inHand q b c]
      refine update_cases ?_ (fun _ _ => Iff.rfl) b
      refine ⟨fun hk => absurd ?_ (ht.owner_old q hq), fun hk => absurd ?_ (ht.owner_new q hq)⟩
      · rw [hk]; rfl
      · rw [hk]; rfl
  · refine update_cases ht.queued (fun b hb => ?_) b
    rw [ht.other b hb]
    exact h.queued b
  · refine update_cases ht.free_null (fun b hbd hb => ?_) b
    rw [ht.frame b hbd fun hm => nomatch hb.symm.trans ((h.listed p b).mp hm)]
    exact h.free_null b hb
  · by_cases hq : q = p
    · subst hq
      exact ht.cleared_null b hc
    · rw [ht.block q hq] at hc
      have hplace := h.holds_of_cleared hc
      have hbd : b ≠ d := by
        rintro rfl
        exact ht.owner_old q hq (by rw [hplace]; rfl)
      rw [ht.frame b hbd fun hm => nomatch hplace.symm.trans ((h.listed p b).mp hm)]
      exact h.cleared_null q b hc
  · by_cases hb : b = d
    · subst hb
      rw [ht.procedure_eq]
      exact h.procedure_eq b
    · rw [ht.other b hb]
      exact h.procedure_eq b
  · refine update_cases ht.self_history (fun b hb => ?_) b
    rw [ht.other b hb]
    exact ht.history b hb _ (h.history b)

theorem Whereabouts.setBlock {b : DpcBlock}
    (hlist : b.dpcList = (s.block p).dpcList) (hholds : b.pc.holds = (s.block p).pc.holds)
    (hcleared : ∀ d, b.pc ≠ .cleared d) : Whereabouts procedure lists place (s.setBlock p b) := by
  have hblock : ∀ q, ((s.setBlock p b).block q).dpcList = (s.block q).dpcList ∧
      ((s.setBlock p b).block q).pc.holds = (s.block q).pc.holds ∧
      ∀ d, ((s.setBlock p b).block q).pc = .cleared d → (s.block q).pc = .cleared d := by
    intro q
    dsimp only [DpcSys.setBlock]
    exact update_cases ⟨hlist, hholds, fun d hd => absurd hd (hcleared d)⟩
      (fun _ _ => ⟨rfl, rfl, fun _ hd => hd⟩) q
  refine ⟨fun q => ?_, h.listed, fun q d c => ?_, h.queued, h.free_null, fun q d hc => ?_,
    h.procedure_eq, h.history⟩
  · rw [(hblock q).1]
    exact h.forward q
  · rw [(hblock q).2.1]
    exact h.inHand q d c
  · exact h.cleared_null q d ((hblock q).2.2 d hc)

/-! ### The steps -/

/-- `d`, free so far, is put into the list of `p`. -/
theorem Whereabouts.accept {a : DpcParams} {l : List PDpc}
    {list : Option PDpc} (hfree : place d = .free)
    (hins : Inserted s.dpc s'.dpc list d a (lists p) l)
    (hp : s'.block p = { s.block p with dpcList := list })
    (hblock : ∀ q, q ≠ p → s'.block q = s.block q)
    (hhistory : s'.history = s.history ++ [.queued p d a true]) :
    ∃ lists place, Whereabouts procedure lists place s' := by
  have hholds : ∀ c, (s.block p).pc.holds ≠ some (d, c) := fun c hc =>
    nomatch hfree.symm.trans ((h.inHand p d c).mp hc)
  have hprocedure : (s'.dpc d).procedure = (s.dpc d).procedure := by rw [hins.self]; rfl
  have hparams : (s'.dpc d).params = a := by rw [hins.self]; rfl
  refine ⟨_, _, h.touch (p := p) (d := d) (l := l) (k := .listed p) ?_⟩
  refine
    { block := hblock
      other := hins.other
      frame := hins.frame
      forward := ?_
      mem_iff := fun b hb => by rw [hins.mem_iff, or_iff_right hb]
      self_mem := by simp [hins.mem_iff]
      owner_old := fun q _ hk => by rw [hfree] at hk; cases hk
      owner_new := fun q hq hk => hq (Option.some.inj hk).symm
      holds := fun b c _ => by rw [hp]
      self_holds := fun c => ?_
      queued := by rw [hins.self]; simp [Dpc.accept, Dpc.link]
      free_null := nofun
      cleared_null := fun b hb => ?_
      procedure_eq := hprocedure
      history := fun b hb w hw => ?_
      self_history := ?_ }
  · rw [hp]
    exact hins.forward
  · rw [hp]
    exact ⟨fun hc => absurd hc (hholds c), nofun⟩
  · rw [hp] at hb
    -- one that has been cleared is in a hand, and `d` was free
    have hplace := h.holds_of_cleared hb
    have hbd : b ≠ d := by
      rintro rfl
      exact nomatch hfree.symm.trans hplace
    rw [hins.frame b hbd fun hm => nomatch hplace.symm.trans ((h.listed p b).mp hm)]
    exact h.cleared_null p b hb
  · rw [hhistory]
    exact hw.snoc (read_neither (if_neg fun hd => hb hd.1.symm))
  · have hclosed := h.history d
    rw [hfree] at hclosed
    rw [DpcPlace.waiting, hprocedure, hparams, h.procedure_eq, hhistory]
    exact hclosed.snoc (read_request (role_accepted ..))

/-- A completed `dpc_queue`. -/
theorem Whereabouts.queue {a : DpcParams} {rounds : Nat} (hs : queueStep s p d a rounds = some s') :
    ∃ lists place, Whereabouts procedure lists place s' := by
  rw [queueStep] at hs
  split at hs
  swap
  · cases hs
  obtain ⟨⟨heap', list', rval⟩, hr, rfl⟩ := Option.map_eq_some_iff.mp hs
  rcases hq : (s.dpc d).queued with - | -
  · have hfree : place d = .free := by
      by_contra hne
      rw [(h.queued d).mpr hne] at hq
      cases hq
    have hd : d ∉ lists p := fun hm => nomatch hfree.symm.trans ((h.listed p d).mp hm)
    obtain ⟨rfl, hins⟩ := dpcQueue_place hq (h.free_null d hfree) (h.forward p) hd hr
    exact h.accept hfree hins (update_self ..) (fun q hq => update_of_ne hq ..) rfl
  · obtain ⟨rfl, rfl, rfl⟩ := dpcQueue_refused hq hr
    have hkeep : update s.block p { s.block p with dpcList := (s.block p).dpcList } =
        s.block := update_eq_self ..
    refine ⟨lists, place, ?_⟩
    rw [hkeep]
    exact ⟨h.forward, h.listed, h.inHand, h.queued, h.free_null, h.cleared_null,
      h.procedure_eq, fun b => (h.history b).snoc (read_neither (if_neg fun hd => nomatch hd.2))⟩

theorem Whereabouts.take (hpc : (s.block p).pc = .test) (hlist : (s.block p).dpcList = some d) :
    ∃ lists place, Whereabouts procedure lists place
      (s.setBlock p { s.block p with
        dpcList := (s.dpc d).nextDPC
        pc := .taken d }) := by
  have hforward := h.forward p
  rw [hlist] at hforward
  -- the head of the list is what `DPCList` names
  obtain ⟨r, hr⟩ : ∃ r, lists p = d :: r := by
    rcases hl : lists p with - | ⟨b, r⟩
    · rw [hl] at hforward
      cases hforward
    · rw [hl] at hforward
      exact ⟨r, by rw [Option.some.inj hforward.1]⟩
  rw [hr] at hforward
  have hplace : place d = .listed p := (h.listed p d).mp (by rw [hr]; exact mem_cons_self)
  have hnodup := nodup_cons.mp hforward.nodup
  refine ⟨_, _, h.touch (p := p) (d := d) (l := r) (k := .inHand p false) ?_⟩
  have hblock : (s.setBlock p { s.block p with
      dpcList := (s.dpc d).nextDPC
      pc := .taken d }).block p = { s.block p with
      dpcList := (s.dpc d).nextDPC
      pc := .taken d } := update_self ..
  refine
    { block := fun q hq => update_of_ne hq ..
      other := fun b _ => rfl
      frame := fun b _ _ => rfl
      forward := ?_
      mem_iff := fun b hb => by rw [hr, mem_cons, or_iff_right hb]
      self_mem := ⟨fun hm => absurd hm hnodup.1, nofun⟩
      owner_old := fun q hq hk => ?_
      owner_new := fun q hq hk => hq (Option.some.inj hk).symm
      holds := fun b c hb => ?_
      self_holds := fun c => ?_
      queued := ?_
      free_null := nofun
      cleared_null := fun b hb => ?_
      procedure_eq := rfl
      history := fun b _ w hw => hw
      self_history := ?_ }
  · rw [hblock]
    exact hforward.2
  · rw [hplace] at hk
    exact hq (Option.some.inj hk).symm
  · rw [hblock, hpc]
    simp only [DpcPc.holds, Option.some.injEq, Prod.mk.injEq, reduceCtorEq, iff_false, not_and]
    exact fun hd => absurd hd.symm hb
  · rw [hblock]
    simp [DpcPc.holds, eq_comm]
  · refine ⟨fun _ => nofun, fun _ => (h.queued d).mpr ?_⟩
    rw [hplace]
    exact nofun
  · rw [hblock] at hb
    cases hb
  · have hopen := h.history d
    rw [hplace] at hopen
    exact hopen

/-- The steps with `d` in hand: `p` goes on to `pc`, the object becomes
`f` of itself, and what is recorded concerns no other object. -/
theorem Whereabouts.hand {c : Bool} {pc : DpcPc} {k : DpcPlace}
    {f : Dpc → Dpc} (hpc : (s.block p).pc.holds = some (d, c)) (hdpc : s'.dpc = s.dpc.modify d f)
    (hblock : s'.block = update s.block p { s.block p with pc := pc })
    (hholds : ∀ b c, pc.holds = some (b, c) ↔ b = d ∧ k = .inHand p c)
    (hk : k = .free ∨ k = .inHand p true)
    (hqueued : (f (s.dpc d)).queued = true ↔ k ≠ .free)
    (hnull : k = .free → (f (s.dpc d)).nextDPC = none)
    (hcleared : pc = .cleared d → (f (s.dpc d)).nextDPC = none)
    (hprocedure : (f (s.dpc d)).procedure = (s.dpc d).procedure)
    (hhistory : ∀ b, b ≠ d → ∀ w, Reads (DpcEvent.role (procedure b) b) none s.history w →
      Reads (DpcEvent.role (procedure b) b) none s'.history w)
    (hself : Reads (DpcEvent.role (procedure d) d) none s'.history none) :
    ∃ lists place, Whereabouts procedure lists place s' := by
  have hplace : place d = .inHand p c := (h.inHand p d c).mp hpc
  have hd : d ∉ lists p := fun hm => nomatch hplace.symm.trans ((h.listed p d).mp hm)
  have hp : s'.block p = { s.block p with pc := pc } := by
    rw [hblock]
    exact update_self ..
  have hdself : s'.dpc d = f (s.dpc d) := by
    rw [hdpc]
    exact DpcHeap.modify_self ..
  have hdother : ∀ b, b ≠ d → s'.dpc b = s.dpc b := by
    intro b hb
    rw [hdpc]
    exact DpcHeap.modify_of_ne _ _ hb
  -- the lists stay: only the place of `d` changes
  refine ⟨_, _, h.touch (p := p) (d := d) (l := lists p) (k := k) ?_⟩
  refine
    { block := fun q hq => by rw [hblock]; exact update_of_ne hq ..
      other := fun b hb => by rw [hdother b hb]; rfl
      frame := fun b hb _ => hdother b hb
      forward := ?_
      mem_iff := fun b _ => Iff.rfl
      self_mem := ⟨fun hm => absurd hm hd, fun hl => ?_⟩
      owner_old := fun q hq ho => ?_
      owner_new := fun q hq ho => ?_
      holds := fun b c' hb => ?_
      self_holds := fun c' => by rw [hp]; exact (hholds d c').trans (and_iff_right rfl)
      queued := by rw [hdself]; exact hqueued
      free_null := fun hf => by rw [hdself]; exact hnull hf
      cleared_null := fun b hb => ?_
      procedure_eq := by rw [hdself]; exact hprocedure
      history := hhistory
      self_history := ?_ }
  · rw [hp]
    refine (h.forward p).congr fun b hb => ?_
    rw [DpcSys.nextDPC, hdother b fun hbd => hd (hbd ▸ hb)]
    rfl
  · rcases hk with rfl | rfl <;> cases hl
  · rw [hplace] at ho
    exact hq (Option.some.inj ho).symm
  · rcases hk with rfl | rfl
    · cases ho
    · exact hq (Option.some.inj ho).symm
  · rw [hp, hpc]
    refine iff_of_false (fun hb' => hb ((hholds b c').mp hb').1) fun hb' => ?_
    cases hb'
    exact hb rfl
  · rw [hp] at hb
    obtain rfl : pc = .cleared b := hb
    obtain ⟨rfl, -⟩ := (hholds b true).mp rfl
    rw [hdself]
    exact hcleared rfl
  · rcases hk with rfl | rfl <;> exact hself

theorem Whereabouts.closed (hpc : (s.block p).pc.holds = some (d, true)) :
    Reads (DpcEvent.role (procedure d) d) none s.history none := by
  have hclosed := h.history d
  rw [(h.inHand p d true).mp hpc] at hclosed
  exact hclosed

theorem Whereabouts.queued_of_holds {c : Bool}
    (hpc : (s.block p).pc.holds = some (d, c)) : (s.dpc d).queued = true := by
  rw [h.queued, (h.inHand p d c).mp hpc]
  exact nofun

theorem Whereabouts.call (hs : callStep s p = some s') :
    ∃ lists place, Whereabouts procedure lists place s' := by
  rw [callStep] at hs
  split at hs
  · rename_i d hpc
    have hholds : (s.block p).pc.holds = some (d, false) := by rw [hpc]; rfl
    cases hs
    refine h.hand (d := d) (k := .inHand p true) (f := id) hholds ?_ rfl
      (fun _ _ => by simp [DpcPc.holds, eq_comm]) (.inr rfl) ?_ nofun nofun rfl ?_ ?_
    · exact (update_eq_self ..).symm
    · simp [h.queued_of_holds hholds]
    · exact fun b hb w hw => hw.snoc (read_neither (if_neg (Ne.symm hb)))
    · have hopen := h.history d
      rw [(h.inHand p d false).mp hholds] at hopen
      exact hopen.snoc (read_answer (role_called ..))
  · cases hs

theorem Whereabouts.clear (hs : clearStep s p = some s') :
    ∃ lists place, Whereabouts procedure lists place s' := by
  rw [clearStep] at hs
  split at hs
  · rename_i d hpc
    have hholds : (s.block p).pc.holds = some (d, true) := by rw [hpc]; rfl
    cases hs
    refine h.hand (d := d) (k := .inHand p true) (f := Dpc.clear) hholds rfl rfl
      (fun _ _ => by simp [DpcPc.holds, eq_comm]) (.inr rfl) ?_ nofun (fun _ => rfl) rfl
      (fun b _ w hw => hw) (h.closed hholds)
    simp [Dpc.clear, h.queued_of_holds hholds]
  · cases hs

/-- `Queued = 0`: the object is free again, its link null. -/
theorem Whereabouts.unqueue (hs : unqueueStep s p = some s') :
    ∃ lists place, Whereabouts procedure lists place s' := by
  rw [unqueueStep] at hs
  split at hs
  · rename_i d hpc
    have hholds : (s.block p).pc.holds = some (d, true) := by rw [hpc]; rfl
    cases hs
    refine h.hand (d := d) (k := .free) (f := Dpc.unqueue) hholds rfl rfl
      (fun _ _ => by simp [DpcPc.holds]) (.inl rfl) ?_ (fun _ => h.cleared_null p d hpc) nofun
      rfl (fun b _ w hw => hw) (h.closed hholds)
    simp [Dpc.unqueue]
  · cases hs

theorem Whereabouts.fetch (hs : fetchStep s p = some s') :
    ∃ lists place, Whereabouts procedure lists place s' := by
  rw [fetchStep] at hs
  split at hs
  · rename_i hpc
    split at hs
    · rename_i d hlist
      cases hs
      exact h.take hpc hlist
    · cases hs
      exact ⟨lists, place, h.setBlock rfl (by rw [hpc]; rfl) nofun⟩
  · cases hs

theorem Whereabouts.step {act : DpcAct}
    (hs : dpcStep s act = some s') : ∃ lists place, Whereabouts procedure lists place s' := by
  cases act with
  | queue p d a rounds => exact h.queue hs
  | enter p =>
    rw [dpcStep, enterStep] at hs
    split at hs
    · rename_i hpc
      cases hs
      exact ⟨lists, place, h.setBlock rfl (by rw [hpc.1]; rfl) nofun⟩
    · cases hs
  | fetch p => exact h.fetch hs
  | call p => exact h.call hs
  | ret p =>
    rw [dpcStep, retStep] at hs
    split at hs
    · rename_i d hpc
      cases hs
      exact ⟨lists, place, h.setBlock rfl (by rw [hpc]; rfl) nofun⟩
    · cases hs
  | clear p => exact h.clear hs
  | unqueue p => exact h.unqueue hs

end

/-- … and so does every run. -/
theorem exists_whereabouts
    (hr : Reach dpcStep (fun _ _ => True) (DpcSys.start procedure priority) s) :
    ∃ lists place, Whereabouts procedure lists place s :=
  hr.invariant (I := fun s => ∃ lists place, Whereabouts procedure lists place s)
    ⟨_, _, whereabouts_start⟩ fun _ _ _ ⟨_, _, h⟩ _ hs => h.step hs

/-! ### What it means -/

/-- `Queued` is set exactly on the objects in one list and on those that are
run. -/
theorem Whereabouts.queued_iff (h : Whereabouts procedure lists place s) (d : PDpc) :
    (s.dpc d).queued = true ↔ (∃! p, d ∈ lists p) ∨ ∃ p, s.Runs p d := by
  rw [h.queued]
  constructor
  · intro hk
    rcases hp : place d with - | p | ⟨p, c⟩
    · exact absurd hp hk
    · refine .inl ⟨p, (h.listed p d).mpr hp, fun q hq => ?_⟩
      rw [(h.listed q d).mp hq] at hp
      exact DpcPlace.listed.inj hp
    · exact .inr ⟨p, DpcPc.hand_eq_some_iff.mpr ⟨c, (h.inHand p d c).mpr hp⟩⟩
  · rintro (⟨p, hp, -⟩ | ⟨p, hp⟩) hk
    · exact nomatch hk.symm.trans ((h.listed p d).mp hp)
    · obtain ⟨c, hc⟩ := DpcPc.hand_eq_some_iff.mp hp
      exact nomatch hk.symm.trans ((h.inHand p d c).mp hc)

theorem Whereabouts.not_drained (h : Whereabouts procedure lists place s) {r : DpcProc × DpcParams}
    (hw : (place d).waiting (s.dpc d) = some (p, r)) : ¬ s.Drained p := by
  rintro ⟨hlist, hidle⟩
  rcases hp : place d with - | q | ⟨q, c⟩
  · rw [hp] at hw
    cases hw
  · rw [hp] at hw
    cases hw
    have hforward := h.forward p
    rw [hlist] at hforward
    have hm := (h.listed p d).mpr hp
    have hnil : lists p = [] := hforward.unique rfl
    rw [hnil] at hm
    cases hm
  · rw [hp] at hw
    have hc := (h.inHand q d c).mpr hp
    cases c with
    | false =>
      cases hw
      rw [hidle] at hc
      cases hc
    | true => cases hw

/-- **DPCs.**  In every state of every run of the six processors:

* every list runs through finitely many objects, none twice, to null;
* `Queued` is set exactly on the objects in one processor's list or being
  run;
* an accepted `dpc_queue` has been followed, before the object was accepted
  again, by exactly one call of its procedure on its processor with its
  parameters, or by none as long as the processor is not drained;
* every call is the answer to an accepted `dpc_queue`, with nothing of that
  object but refused calls in between. -/
theorem dpc_called_once (procedure : PDpc → DpcProc) (priority : PDpc → UInt32) (s : DpcSys)
    (hr : Reach dpcStep (fun _ _ => True) (DpcSys.start procedure priority) s) :
    ∃ lists : Processor → List PDpc,
      (∀ p, Forward s.nextDPC (s.block p).dpcList (lists p) ∧ (lists p).Nodup) ∧
      (∀ d, (s.dpc d).queued = true ↔ (∃! p, d ∈ lists p) ∨ ∃ p, s.Runs p d) ∧
      (∀ p d a earlier later, s.history = earlier ++ .queued p d a true :: later →
        answers (DpcEvent.role (procedure d) d) later = [(p, procedure d, a)] ∨
          answers (DpcEvent.role (procedure d) d) later = [] ∧ ¬ s.Drained p) ∧
      (∀ p d f a earlier later, s.history = earlier ++ .called p d f a :: later →
        f = procedure d ∧ ∃ before since, earlier = before ++ .queued p d a true :: since ∧
          ∀ e ∈ since, e.role (procedure d) d = .neither) := by
  obtain ⟨lists, place, h⟩ := exists_whereabouts hr
  refine ⟨lists, fun p => ⟨h.forward p, (h.forward p).nodup⟩, h.queued_iff, ?_, ?_⟩
  · intro p d a earlier later hh
    have hread := h.history d
    rw [hh] at hread
    obtain ⟨w, -, hread⟩ := Reads.append_iff.mp hread
    obtain ⟨w', hreq, hread⟩ := Reads.cons_iff.mp hread
    -- the accepted call finds nothing open and opens its own request
    obtain ⟨-, rfl⟩ := of_read_request (role_accepted ..) hreq
    rcases hread.answers_of_open with hone | ⟨hnone, hopen⟩
    · exact .inl hone
    · exact .inr ⟨hnone, h.not_drained hopen⟩
  · intro p d f a earlier later hh
    have hread := h.history d
    rw [hh] at hread
    obtain ⟨w, hearlier, hread⟩ := Reads.append_iff.mp hread
    obtain ⟨w', hans, -⟩ := Reads.cons_iff.mp hread
    -- the call finds its own request open
    obtain ⟨rfl, -⟩ := of_read_answer (role_called ..) hans
    obtain ⟨before, e, since, rfl, he, hsince⟩ := hearlier.opened
    obtain ⟨rfl, rfl⟩ := eq_queued_of_role he
    exact ⟨rfl, before, since, rfl, hsince⟩

/-- A thread on processor 0 queues object 0, processor 1 is refused it, and
the procedure of object 0 queues object 1; when processor 0 is drained, the
first `dpc_queue` has had its one call. -/
theorem dpc_called_after_drain :
    ∃ s, Reach dpcStep (fun _ _ => True) (DpcSys.start (fun _ => 0x8000) fun _ => 0) s ∧
      s.Drained 0 ∧ ∃ later, s.history = .queued 0 0 ⟨1, 2, 3⟩ true :: later ∧
        answers (DpcEvent.role 0x8000 0) later = [(0, 0x8000, ⟨1, 2, 3⟩)] := by
  refine exists_reach_imp [.queue 0 0 ⟨1, 2, 3⟩ 0, .queue 1 0 ⟨4, 5, 6⟩ 0, .enter 0, .fetch 0,
      .call 0, .queue 0 1 ⟨7, 8, 9⟩ 0, .ret 0, .clear 0, .unqueue 0, .fetch 0, .call 0, .ret 0,
      .clear 0, .unqueue 0, .fetch 0]
    (fun s => s.Drained 0 ∧ s.history = [.queued 0 0 ⟨1, 2, 3⟩ true,
      .queued 1 0 ⟨4, 5, 6⟩ false, .called 0 0 0x8000 ⟨1, 2, 3⟩, .queued 0 1 ⟨7, 8, 9⟩ true,
      .called 0 1 0x8000 ⟨7, 8, 9⟩]) (by decide +kernel)
    fun s hr ⟨hdrained, hhistory⟩ => ⟨hdrained, _, hhistory, ?_⟩
  obtain ⟨lists, -, -, honce, -⟩ := dpc_called_once _ _ s hr
  rcases honce 0 0 ⟨1, 2, 3⟩ [] _ hhistory with hone | ⟨-, hnot⟩
  · exact hone
  · exact absurd hdrained hnot

end LibXenon
