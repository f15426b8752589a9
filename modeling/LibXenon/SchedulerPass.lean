/-
LibXenon/SchedulerPass.lean

What a scheduling pass does to the lists of its processor.

One lemma for each part of `thread_schedule_core` says which lists it
leaves behind and what it does to the bodies of the thread objects:

* `firstPass_spec` — the dead threads leave the ring, except that the scan
  ends at once when the first thread of the ring is dead (`survivors`);
* `swapIn_spec`    — the swap list goes, reversed, to the front of the ring;
* `populate_spec`  — the ready list is the ready part of the ring, reversed;
* `pickWinner_spec`, `boostLosers_spec` — the choice and the ageing.

`threadScheduleCore_spec` puts them together, and `threadSchedule_spec` says
what the whole of `thread_schedule` does.
-/
import LibXenon.RunLists

namespace LibXenon

open Links List

variable {m m' m'' : Machine} {p : Processor} {t a z : PThread} {l S : List PThread}
variable {R : List PThread} {win : PThread}

/-! ### Reaping one thread -/

theorem plain_invalidate : Plain Thread.invalidate := {}

theorem Ringed.reap_spec (h : Ringed m p l) (ht : t ∈ l) (hne : l.erase t ≠ [])
    (hfull : FullLinked m t) :
    ∃ m', reap m p t = some m' ∧ Ringed m' p (l.erase t) ∧ RingEdit p l m m' ∧
      (m'.processor p).firstSwapProcess = (m.processor p).firstSwapProcess ∧
      m'.next .run t = m.next .run t ∧
      ∀ x, (m'.thread x).body
        = if x = t then (m.thread x).body.invalidate else (m.thread x).body := by
  obtain ⟨a, z, ha, hz⟩ := h.exists_links ht
  -- off the ring, then off the list of all threads
  obtain ⟨m₁, hm₁, hedit₁, hu₁⟩ := unlink_spec ha hz
  have hfull₁ : FullLinked m₁ t := hedit₁.fullLinked (by decide) hfull
  obtain ⟨a', ha'⟩ := Option.ne_none_iff_exists'.mp hfull₁.1
  obtain ⟨z', hz'⟩ := Option.ne_none_iff_exists'.mp hfull₁.2
  obtain ⟨m₂, hm₂, hedit₂, hu₂⟩ := unlink_spec ha' hz'
  have hu : Unlink (m.next .run) (m.prev .run) (m₂.next .run) (m₂.prev .run) t a z := by
    rw [hedit₂.next .run (by decide), hedit₂.prev .run (by decide)]
    exact hu₁
  have hproc : m₂.processor = m.processor := hedit₂.processor.trans hedit₁.processor
  refine ⟨(leaveEnds m₂ p t).modifyThread t Thread.invalidate, ?_,
    (h.detach ht hne hu hproc).plain plain_invalidate t,
    ⟨?_, ?_, ?_, ?_, ?_, ?_, ?_, ?_⟩, ?_, ?_, ?_⟩
  · rw [reap, hm₁]
    show ((unlink .full m₁ t).bind _) = _
    rw [hm₂]
    rfl
  · intro q hq
    rw [processor_modifyThread, leaveEnds, processor_modifyProcessor_of_ne _ _ hq, hproc]
  · rw [processor_modifyThread, leaveEnds, processor_modifyProcessor, hproc]
  · exact hedit₂.threadList.trans hedit₁.threadList
  · exact hedit₂.clock.trans hedit₁.clock
  · exact hedit₂.image.trans hedit₁.image
  · intro x hx
    have hx₂ := fullLinked_of_unlink hu₂ (hedit₁.fullLinked (by decide) hx)
    exact (plain_invalidate.ringEdit (leaveEnds m₂ p t) p t).full x hx₂
  · intro x hx
    rw [plain_invalidate.next_modify]
    exact (h.unlink_frame ht hne hu hx).1
  · intro x hx
    rw [plain_invalidate.prev_modify]
    exact (h.unlink_frame ht hne hu hx).2
  · rw [processor_modifyThread, leaveEnds, processor_modifyProcessor, hproc]
  · -- it keeps its own link, through which the scan goes on
    rw [plain_invalidate.next_modify]
    show m₂.next .run t = _
    rw [hu.next_join, hu.next_eq, ite_self]
  · intro x
    rw [plain_invalidate.body_modify]
    show (if x = t then (m₂.thread x).body.invalidate else (m₂.thread x).body) = _
    rw [hedit₂.body, hedit₁.body]

/-! ### The first pass -/

theorem plain_processTimer (clock : Nat) : Plain (processTimer clock) :=
  .ite (.ite {} {} fun _ => Iff.rfl) {} fun _ => Iff.rfl

/-- What the first pass does to a thread it looks at. -/
def settle (clock : Nat) (x : Thread) : Thread :=
  if x.reapable then (processTimer clock x).invalidate else processTimer clock x

theorem reapable_processTimer (clock : Nat) (x : Thread) :
    (processTimer clock x).reapable = x.reapable := by
  obtain ⟨v, hv⟩ := processTimer_eq clock x
  rw [hv]
  rfl

/-- Terminated threads without a handle. -/
def Machine.dead (m : Machine) (t : PThread) : Bool := (m.thread t).reapable

/-- The ring after the first pass: a dead first thread ends the scan. -/
def survivors (dead : PThread → Bool) : List PThread → List PThread
  | [] => []
  | t :: r => if dead t then r else t :: r.filter fun x => !dead x

/-- The threads the first pass looks at. -/
def scanned (dead : PThread → Bool) : List PThread → List PThread
  | [] => []
  | t :: r => if dead t then [t] else t :: r

theorem survivors_sublist (dead : PThread → Bool) (l : List PThread) :
    (survivors dead l).Sublist l := by
  cases l with
  | nil => exact List.Sublist.refl _
  | cons t r =>
    rw [survivors]
    split
    · exact sublist_cons_self t r
    · exact List.Sublist.cons_cons t filter_sublist

theorem scanned_subset (dead : PThread → Bool) (l : List PThread) : scanned dead l ⊆ l := by
  cases l with
  | nil => exact List.Subset.refl _
  | cons t r =>
    rw [scanned]
    split
    · simp
    · exact List.Subset.refl _

theorem mem_survivors_iff {dead : PThread → Bool} (hn : l.Nodup) (ht : t ∈ l) :
    t ∈ survivors dead l ↔ ¬ (t ∈ scanned dead l ∧ dead t = true) := by
  cases l with
  | nil => cases ht
  | cons b r =>
    have hb := (nodup_cons.mp hn).1
    rw [survivors, scanned]
    rcases mem_cons.mp ht with rfl | htr
    · cases hd : dead t <;> simp [hb, hd]
    · have htb : t ≠ b := fun htb => hb (htb ▸ htr)
      cases hd : dead b <;> simp [htr, htb]

/-- `m'` is `m` after the first pass has looked at the threads `seen` of the
ring `l` and left the ring `l'`. -/
structure Scanned (p : Processor) (l seen l' : List PThread) (m m' : Machine) : Prop where
  ringed : Ringed m' p l'
  edit : RingEdit p l m m'
  swap : (m'.processor p).firstSwapProcess = (m.processor p).firstSwapProcess
  body : ∀ x, (m'.thread x).body
    = if x ∈ seen then settle m.clock (m.thread x).body else (m.thread x).body

theorem Scanned.body_of_notMem {l' rest : List PThread} (h : Scanned p l [t] l' m m')
    (ht : t ∉ rest) : ∀ x ∈ rest, (m'.thread x).body = (m.thread x).body := by
  intro x hx
  have hne : x ∉ [t] := fun hxt => ht (mem_singleton.mp hxt ▸ hx)
  rw [h.body x, if_neg hne]

theorem Scanned.trans {rest l₁ l₂ : List PThread} (h₁ : Scanned p l [t] l₁ m m')
    (h₂ : Scanned p l₁ rest l₂ m' m'') (ht : t ∉ rest) (hsub : l₁ ⊆ l) :
    Scanned p l (t :: rest) l₂ m m'' where
  ringed := h₂.ringed
  edit := h₁.edit.trans h₂.edit (List.Subset.refl l) hsub
  swap := h₂.swap.trans h₁.swap
  body x := by
    rw [h₂.body, h₁.body, h₁.edit.clock]
    by_cases hxt : x = t
    · subst hxt
      rw [if_neg ht, if_pos (by simp), if_pos (by simp)]
    · have hmem : x ∈ t :: rest ↔ x ∈ rest := by simp [hxt]
      have hsing : x ∉ [t] := by simpa using hxt
      simp only [hmem, if_neg hsing]

theorem Scanned.filter_reapable {rest l₁ : List PThread} (h : Scanned p l [t] l₁ m m')
    (ht : t ∉ rest) : rest.filter (fun x => !m'.dead x) = rest.filter fun x => !m.dead x :=
  filter_congr fun x hx => congrArg (fun y => !y.reapable) (h.body_of_notMem ht x hx)

theorem Ringed.visit_spec (h : Ringed m p l) (ht : t ∈ l) (hfull : FullLinked m t)
    (hkeep : m.dead t = true → l.erase t ≠ []) :
    ∃ m', visit p m t = some m' ∧ m'.next .run t = m.next .run t ∧
      Scanned p l [t] (if m.dead t then l.erase t else l) m m' := by
  have hplain := plain_processTimer m.clock
  have h₀ := h.plain hplain t
  have hedit₀ := hplain.ringEdit m p t
  have hself : (m.modifyThread t (processTimer m.clock)).thread t
      = processTimer m.clock (m.thread t) := Heap.modify_self _ _ _
  simp only [visit]
  rw [hself, reapable_processTimer]
  change ∃ m', (if m.dead t = true then _ else _) = some m' ∧ _
  rcases hd : m.dead t with - | -
  · -- it stays, with its sleep time looked at
    refine ⟨_, if_neg Bool.false_ne_true, by rw [hplain.next_modify], ?_,
      hedit₀.trans (RingEdit.refl p l _) (by simp) (List.Subset.refl l), rfl, ?_⟩
    · rw [if_neg Bool.false_ne_true]
      exact h₀
    · intro x
      simp only [hplain.body_modify, mem_singleton]
      split
      · rename_i hx
        have hd' : (m.thread x).body.reapable = false := by rw [hx]; exact hd
        rw [settle, hd', if_neg Bool.false_ne_true]
      · rfl
  · -- it is reaped
    obtain ⟨m', hm', hring, hedit, hswap, hnext, hbody⟩ :=
      h₀.reap_spec ht (hkeep hd) (hedit₀.full t hfull)
    refine ⟨m', (if_pos rfl).trans hm', ?_, ?_,
      hedit₀.trans hedit (by simp) (List.Subset.refl l), hswap, ?_⟩
    · rw [hnext, hplain.next_modify]
    · rw [if_pos rfl]
      exact hring
    · intro x
      simp only [hbody, hplain.body_modify, mem_singleton]
      split
      · rename_i hx
        have hd' : (m.thread x).body.reapable = true := by rw [hx]; exact hd
        rw [settle, hd', if_pos rfl]
      · rfl

theorem firstPass_succ {fuel : Nat} (hvisit : visit p m t = some m') :
    firstPass p (fuel + 1) m t
      = if m'.next .run t = (m'.processor p).firstThread then some m'
        else
          match m'.next .run t with
          | none => none
          | some u => firstPass p fuel m' u := by
  show (visit p m t).bind _ = _
  rw [hvisit]
  rfl

/-- One thread of the ring `done ++ t :: rest`. -/
theorem Ringed.scan_spec (done : List PThread) {rest : List PThread}
    (h : Ringed m p (done ++ t :: rest)) (hfull : FullLinked m t) (hkeep : m.dead t = true → done ++ rest ≠ []) :
    ∃ m₁, visit p m t = some m₁ ∧ m₁.next .run t = (rest ++ done ++ [t]).head? ∧
      Scanned p (done ++ t :: rest) [t] (done ++ if m.dead t then rest else t :: rest) m m₁ := by
  have herase := erase_of_append h.nodup
  obtain ⟨m₁, hvisit, hnext, hscan⟩ := h.visit_spec (by simp) hfull (herase ▸ hkeep)
  rw [herase, ← apply_ite (done ++ ·)] at hscan
  exact ⟨m₁, hvisit, hnext.trans h.ring.next_eq_head, hscan⟩

/-- The first pass, thread by thread: it looks at `t` and goes on to `rest`. -/
inductive Scans (p : Processor) : Machine → PThread → List PThread → Machine → Prop
  | last {m m' : Machine} {t : PThread} : visit p m t = some m' →
      m'.next .run t = (m'.processor p).firstThread → Scans p m t [] m'
  | next {m m₁ m' : Machine} {t u : PThread} {rest : List PThread} : visit p m t = some m₁ →
      m₁.next .run t = some u → some u ≠ (m₁.processor p).firstThread →
      (∀ x ∈ u :: rest, (m₁.thread x).body = (m.thread x).body) →
      Scans p m₁ u rest m' → Scans p m t (u :: rest) m'

theorem Scans.firstPass_eq {rest : List PThread} (h : Scans p m t rest m') :
    ∀ {fuel : Nat}, rest.length < fuel → firstPass p fuel m t = some m' := by
  induction h with
  | last hvisit hback =>
    intro fuel hfuel
    obtain ⟨fuel, rfl⟩ := Nat.exists_eq_add_one.mpr hfuel
    rw [firstPass_succ hvisit, if_pos hback]
  | next hvisit hnext hfirst _ _ ih =>
    intro fuel hfuel
    obtain ⟨fuel, rfl⟩ := Nat.exists_eq_add_one.mpr (Nat.zero_lt_of_lt hfuel)
    rw [firstPass_succ hvisit, hnext, if_neg hfirst]
    exact ih (Nat.lt_of_succ_lt_succ hfuel)

theorem scans_tail (rest : List PThread) : ∀ (done : List PThread) {t : PThread} {m : Machine},
    Ringed m p (a :: done ++ t :: rest) → (∀ x ∈ t :: rest, FullLinked m x) →
      ∃ m', Scans p m t rest m' ∧ Scanned p (a :: done ++ t :: rest) (t :: rest)
        (a :: done ++ (t :: rest).filter fun x => !m.dead x) m m' := by
  induction rest with
  | nil =>
    intro done t m h hfull
    obtain ⟨m₁, hvisit, hnext, hscan⟩ := h.scan_spec _ (hfull t mem_cons_self) nofun
    have hfilter : [t].filter (fun x => !m.dead x) = if m.dead t then [] else [t] := by
      cases hd : m.dead t <;> simp [hd]
    rw [hfilter]
    exact ⟨m₁, .last hvisit (hnext.trans hscan.ringed.first.symm), hscan⟩
  | cons b r ih =>
    intro done t m h hfull
    obtain ⟨m₁, hvisit, hnext, hscan⟩ := h.scan_spec _ (hfull t mem_cons_self) nofun
    have htr : t ∉ b :: r := (nodup_cons.mp (nodup_append.mp h.nodup).2.1).1
    have hfirst : some b ≠ (m₁.processor p).firstThread := by
      rw [hscan.ringed.first]
      rintro ⟨⟩
      exact (nodup_cons.mp h.nodup).1 (by simp)
    -- what lies behind the scan grows by `t` if it stays
    obtain ⟨done', hring, hfilter⟩ : ∃ done',
        (a :: done ++ if m.dead t then b :: r else t :: b :: r) = a :: done' ++ b :: r ∧
        a :: done ++ (t :: b :: r).filter (fun x => !m.dead x)
          = a :: done' ++ (b :: r).filter fun x => !m.dead x := by
      rcases hd : m.dead t with - | -
      · exact ⟨done ++ [t], by simp, by simp [filter_cons (x := t), hd]⟩
      · exact ⟨done, rfl, by simp [filter_cons (x := t), hd]⟩
    have hsub : (a :: done ++ if m.dead t then b :: r else t :: b :: r)
        ⊆ a :: done ++ t :: b :: r := by
      intro x
      split <;> simp
      tauto
    rw [hring] at hscan hsub
    obtain ⟨m', hscans, hscan'⟩ := ih done' hscan.ringed
      (fun x hx => hscan.edit.full x (hfull x (mem_cons_of_mem _ hx)))
    rw [hscan.filter_reapable htr, ← hfilter] at hscan'
    exact ⟨m', .next hvisit hnext hfirst (hscan.body_of_notMem htr) hscans,
      hscan.trans hscan' htr hsub⟩

theorem scanned_cons (dead : PThread → Bool) (t : PThread) (l : List PThread) :
    scanned dead (t :: l) = t :: if dead t then [] else l := by
  rw [scanned]
  split <;> rfl

/-- **The scan** of a ring ends at once if its first thread is dead, and goes
round otherwise. -/
theorem Ringed.scans (h : Ringed m p (t :: l)) (hfull : ∀ x ∈ t :: l, FullLinked m x)
    (hkeep : ∃ x ∈ t :: l, m.dead x = false) :
    ∃ m', Scans p m t (if m.dead t then [] else l) m' ∧
      Scanned p (t :: l) (scanned m.dead (t :: l)) (survivors m.dead (t :: l)) m m' := by
  have hne : m.dead t = true → l ≠ [] := by
    rintro hd rfl
    obtain ⟨x, hx, hlive⟩ := hkeep
    rw [mem_singleton.mp hx, hd] at hlive
    cases hlive
  obtain ⟨m₁, hvisit, hnext, hscan⟩ := Ringed.scan_spec [] h (hfull t mem_cons_self) hne
  have hfirst := hscan.ringed.first
  rw [append_nil] at hnext
  rw [nil_append, nil_append] at hscan
  rw [scanned, survivors]
  rcases hd : m.dead t with - | -
  · rw [hd] at hscan hfirst
    cases l with
    | nil => exact ⟨m₁, .last hvisit (hnext.trans hfirst.symm), hscan⟩
    | cons b r =>
      have htr : t ∉ b :: r := (nodup_cons.mp h.nodup).1
      obtain ⟨m', hscans, hscan'⟩ := scans_tail r [] hscan.ringed
        (fun x hx => hscan.edit.full x (hfull x (mem_cons_of_mem _ hx)))
      refine ⟨m', .next hvisit hnext ?_ (hscan.body_of_notMem htr) hscans, ?_⟩
      · rw [hfirst]
        rintro ⟨⟩
        exact htr mem_cons_self
      · rw [hscan.filter_reapable htr] at hscan'
        exact hscan.trans hscan' htr (List.Subset.refl _)
  · -- the scan stops at the new first thread
    rw [hd] at hscan hfirst
    rw [head?_append_of_ne_nil _ (hne hd)] at hnext
    exact ⟨m₁, .last hvisit (hnext.trans hfirst.symm), hscan⟩

/-- **The first pass**: expired sleepers are woken and dead threads leave
the ring, as far as the scan goes. -/
theorem firstPass_spec (fuel : Nat) (h : Ringed m p (t :: l))
    (hfull : ∀ x ∈ t :: l, FullLinked m x)
    (hkeep : ∃ x ∈ t :: l, m.dead x = false) (hfuel : l.length < fuel) :
    ∃ m', firstPass p fuel m t = some m' ∧
      Scanned p (t :: l) (scanned m.dead (t :: l)) (survivors m.dead (t :: l)) m m' := by
  obtain ⟨m', hscans, hscan⟩ := h.scans hfull hkeep
  refine ⟨m', hscans.firstPass_eq ?_, hscan⟩
  split
  · exact Nat.zero_lt_of_lt hfuel
  · exact hfuel

/-! ### The swap list -/

theorem plain_adopt (p : Processor) (block : UInt64) : Plain (adopt p block) := {}

/-- `m'` is `m` after the threads `S` of the swap list have been taken over
to the ring `l'`, and `S'` are left. -/
structure TakenOver (p : Processor) (l S l' S' : List PThread) (m m' : Machine) : Prop where
  ringed : Ringed m' p l'
  swapped : Swapped m' p S'
  edit : RingEdit p l m m'
  body : ∀ x, (m'.thread x).body
    = if x ∈ S then adopt p (m.blockAddress p) (m.thread x).body else (m.thread x).body

theorem notMem_cons_of_apart {S l : List PThread} (hn : (t :: S).Nodup)
    (hdis : ∀ x ∈ t :: S, x ∉ l) : ∀ x ∈ S, x ∉ t :: l := by
  intro x hx hmem
  rcases mem_cons.mp hmem with rfl | hmem
  · exact (nodup_cons.mp hn).1 hx
  · exact hdis x (mem_cons_of_mem _ hx) hmem

theorem takeOver_spec (h : Ringed m p l) (hne : l ≠ []) (hS : Swapped m p (t :: S))
    (hdis : ∀ x ∈ t :: S, x ∉ l) :
    ∃ m', takeOver p m t = some m' ∧ TakenOver p (t :: S ++ l) [t] (t :: l) S m m' := by
  have hplain := plain_adopt p (m.blockAddress p)
  set m₁ := m.modifyThread t (adopt p (m.blockAddress p)) with hm₁
  have hnextt : m₁.next .run t = S.head? := by
    rw [hm₁, hplain.next_modify, hS.list.next_head]
  have hprevt : m₁.prev .run t = none := by
    rw [hm₁, hplain.prev_modify]
    exact hS.list.prev_head t rfl
  set m₂ := m₁.storeIf S.head? (Thread.setPrev .run none) with hm₂
  have hedit₂ := linkEdit_storeIf_setPrev .run m₁ S.head? none
  rw [← hm₂] at hedit₂
  have hnext₂ : ∀ x, m₂.next .run x = m.next .run x := by
    intro x
    rw [hm₂, next_storeIf_setPrev, hm₁, hplain.next_modify]
  have hprev₂ : ∀ x, m₂.prev .run x = if S.head? = some x then none else m.prev .run x := by
    intro x
    rw [hm₂, prev_storeIf_setPrev, hm₁, hplain.prev_modify]
  have hhead : ∀ x, x ∉ S → S.head? ≠ some x := fun x hx hh => hx (mem_of_head? hh)
  obtain ⟨htS, hSn⟩ := nodup_cons.mp hS.nodup
  set m₃ := m₂.modifyProcessor p fun b => { b with firstSwapProcess := S.head? } with hm₃
  have hring₃ : Ringed m₃ p l := by
    refine h.congr (fun x _ => hnext₂ x) (fun x hx => (hprev₂ x).trans (if_neg ?_)) ?_ ?_
    · exact hhead x fun hxS => hdis x (mem_cons_of_mem _ hxS) hx
    · rw [hm₃, processor_modifyProcessor, hedit₂.processor]
      rfl
    · rw [hm₃, processor_modifyProcessor, hedit₂.processor]
      rfl
  obtain ⟨m', hm', hring, hedit, hswap, -, hbody⟩ :=
    hring₃.insertFirst_spec hne (hdis t (by simp))
  have hedit₃ : RingEdit p S m m₃ := by
    refine (hplain.ringEdit m p t).trans (hedit₂.ringEdit (fun _ => rfl) ?_ ?_)
      (nil_subset S) (List.Subset.refl S)
    · exact fun x _ => next_storeIf_setPrev .run m₁ _ _ x
    · intro x hx
      rw [hm₂, prev_storeIf_setPrev, if_neg (hhead x hx)]
  have htake : takeOver p m t = some m' := by
    have hn₂ : (m₂.thread t).nextThread = S.head? := (hnext₂ t).trans hS.list.next_head
    have hp₂ : (m₂.thread t).previousThread = none := by
      refine (hprev₂ t).trans ?_
      rw [if_neg (hhead t htS)]
      exact hS.list.prev_head t rfl
    simp only [takeOver]
    rw [← hm₁]
    rw [Machine.next, Thread.next] at hnextt
    rw [Machine.prev, Thread.prev] at hprevt
    rw [hnextt, hprevt, ← hm₂, hp₂]
    simp only [Machine.storeIf, hn₂]
    exact hm'
  refine ⟨m', htake, hring, ⟨hSn, ?_, ?_, ?_⟩, hedit₃.trans hedit ?_ ?_, ?_⟩
  · -- the rest of the swap list loses its first thread's backward link only
    have hout := notMem_cons_of_apart hS.nodup hdis
    refine hS.list.pop hS.nodup ?_ ?_ ?_
    · exact fun x hx => (hedit.next x (hout x hx)).trans (hnext₂ x)
    · intro x hx
      exact (hedit.prev x (hout x (mem_of_head? hx))).trans ((hprev₂ x).trans (if_pos hx))
    · intro x hx
      refine (hedit.prev x (hout x (tail_subset _ hx))).trans ((hprev₂ x).trans (if_neg ?_))
      exact fun hh => head_notMem_tail hSn hh hx
  · rw [hswap, hm₃, processor_modifyProcessor]
  · rw [hedit.lastSwap, hedit₃.lastSwap]
    exact hS.last
  · exact fun x hx => mem_cons_of_mem _ (mem_append_left _ hx)
  · intro x hx
    simp at hx ⊢
    tauto
  · intro x
    rw [hbody]
    show (m₂.thread x).body = _
    rw [hedit₂.body, hm₁, hplain.body_modify]
    simp only [mem_singleton]

/-- **The swap list** ends up, reversed, in front of the ring. -/
theorem swapIn_spec (S : List PThread) :
    ∀ (fuel : Nat) {l : List PThread} {m : Machine}, Ringed m p l → l ≠ [] → Swapped m p S →
      (∀ x ∈ S, x ∉ l) → S.length < fuel →
      ∃ m', swapIn p fuel m = some m' ∧ TakenOver p (S ++ l) S (S.reverse ++ l) [] m m' := by
  -- on the swap list, whose first thread comes to the front of the ring
  induction S with
  | nil =>
    intro fuel l m h _ hS _ hfuel
    obtain ⟨fuel, rfl⟩ := Nat.exists_eq_add_one.mpr hfuel
    refine ⟨m, ?_, h, hS, RingEdit.refl p _ m, fun x => (if_neg (by simp)).symm⟩
    rw [swapIn, hS.first]
    rfl
  | cons t S ih =>
    intro fuel l m h hne hS hdis hfuel
    obtain ⟨fuel, rfl⟩ := Nat.exists_eq_add_one.mpr (Nat.zero_lt_of_lt hfuel)
    obtain ⟨m₁, hm₁, h₁⟩ := takeOver_spec h hne hS hdis
    obtain ⟨m', hm', h'⟩ := ih _ h₁.ringed (by simp) h₁.swapped
      (notMem_cons_of_apart hS.nodup hdis) (Nat.lt_of_succ_lt_succ hfuel)
    refine ⟨m', ?_, ?_, h'.swapped, ?_, ?_⟩
    · rw [swapIn, hS.first]
      show (takeOver p m t).bind _ = _
      rw [hm₁]
      exact hm'
    · rw [reverse_cons, append_assoc]
      exact h'.ringed
    · refine h₁.edit.trans h'.edit (List.Subset.refl _) ?_
      intro x hx
      simp at hx ⊢
      tauto
    · intro x
      have haddr : m₁.blockAddress p = m.blockAddress p := by
        rw [Machine.blockAddress, h₁.edit.image]
        rfl
      rw [h'.body, h₁.body, haddr]
      by_cases hxt : x = t
      · subst hxt
        rw [if_neg (nodup_cons.mp hS.nodup).1, if_pos (by simp), if_pos (by simp)]
      · have hmem : x ∈ t :: S ↔ x ∈ S := by simp [hxt]
        have hsing : x ∉ [t] := by simpa using hxt
        simp only [hmem, if_neg hsing]

/-! ### The ready list -/

theorem Ringed.next_last {done : List PThread} (h : Ringed m p (done ++ [t])) :
    (m.thread t).nextThread = (m.processor p).firstThread := by
  have hnext : m.next .run t = _ := h.ring.next_eq_head
  rw [h.first]
  exact hnext

theorem Ringed.next_inner {done r : List PThread} {b : PThread}
    (h : Ringed m p (done ++ t :: b :: r)) :
    (m.thread t).nextThread = some b ∧ some b ≠ (m.processor p).firstThread := by
  refine ⟨h.ring.next_eq_head, fun hfirst => ?_⟩
  rw [append_cons] at h
  rw [h.first, List.head?_append_of_ne_nil _ (by simp)] at hfirst
  exact (nodup_append.mp h.nodup).2.2 b (mem_of_head? hfirst.symm) b (by simp) rfl

theorem populate_tail (rest : List PThread) :
    ∀ {done acc : List PThread} {t : PThread} {fuel : Nat}, Ringed m p (done ++ t :: rest) →
      rest.length < fuel → populate p m fuel acc t
        = some (((t :: rest).filter fun x => (m.thread x).ready).reverse ++ acc) := by
  induction rest with
  | nil =>
    intro done acc t fuel h hfuel
    obtain ⟨fuel, rfl⟩ := Nat.exists_eq_add_one.mpr hfuel
    rw [populate, if_pos h.next_last]
    rcases hr : (m.thread t).ready with - | - <;> simp [hr]
  | cons b r ih =>
    intro done acc t fuel h hfuel
    obtain ⟨fuel, rfl⟩ := Nat.exists_eq_add_one.mpr (Nat.zero_lt_of_lt hfuel)
    obtain ⟨hb, hfirst⟩ := h.next_inner
    rw [append_cons] at h
    rw [populate, hb, if_neg hfirst]
    show populate p m fuel _ b = _
    rw [ih h (Nat.lt_of_succ_lt_succ hfuel)]
    rw [filter_cons (x := t)]
    rcases hr : (m.thread t).ready with - | -
    · rfl
    · rw [if_pos rfl, if_pos rfl, reverse_cons, append_assoc]
      rfl

/-- **The ready list** is the ready part of the ring, last one first. -/
theorem populate_spec {fuel : Nat} (h : Ringed m p (t :: l)) (hfuel : l.length < fuel) :
    populate p m fuel [] t = some ((t :: l).filter fun x => (m.thread x).ready).reverse := by
  have h' : Ringed m p ([] ++ t :: l) := h
  rw [populate_tail l h' hfuel, append_nil]

/-! ### The choice -/

theorem pickWinner_spec (h : Heap) (l : List PThread) : ∀ w : PThread, ∃ l₁ l₂,
    w :: l = l₁ ++ pickWinner h w l :: l₂ ∧
      (∀ x ∈ l₁, (h x).level < (h (pickWinner h w l)).level) ∧
      ∀ x ∈ l₂, (h x).level ≤ (h (pickWinner h w l)).level := by
  induction l with
  | nil => exact fun w => ⟨[], [], rfl, by simp, by simp⟩
  | cons b r ih =>
    intro w
    rw [pickWinner]
    split
    · rename_i hwb
      obtain ⟨l₁, l₂, hl, h₁, h₂⟩ := ih b
      have hb : (h b).level ≤ (h (pickWinner h b r)).level := by
        have hmem : b ∈ l₁ ++ pickWinner h b r :: l₂ := by
          rw [← hl]
          simp
        rcases mem_append.mp hmem with hb | hb
        · exact (h₁ b hb).le
        · rcases mem_cons.mp hb with hb | hb
          · rw [← hb]
          · exact h₂ b hb
      refine ⟨w :: l₁, l₂, by rw [hl]; rfl, ?_, h₂⟩
      intro x hx
      rcases mem_cons.mp hx with rfl | hx
      · exact lt_of_lt_of_le hwb hb
      · exact h₁ x hx
    · rename_i hwb
      obtain ⟨l₁, l₂, hl, h₁, h₂⟩ := ih w
      rcases l₁ with - | ⟨y, l₁⟩
      · -- the first thread is still the winner
        rw [nil_append] at hl
        injection hl with hw hr
        rw [← hw] at h₂ ⊢
        refine ⟨[], b :: r, rfl, by simp, ?_⟩
        intro x hx
        rcases mem_cons.mp hx with rfl | hx
        · exact Nat.le_of_not_lt hwb
        · exact h₂ x (hr ▸ hx)
      · injection hl with hw hr
        subst hw
        refine ⟨w :: b :: l₁, l₂, congrArg (fun k => w :: b :: k) hr, ?_, h₂⟩
        have hw := h₁ w (by simp)
        intro x hx
        simp only [mem_cons] at hx
        rcases hx with rfl | rfl | hx
        · exact hw
        · exact lt_of_le_of_lt (Nat.le_of_not_lt hwb) hw
        · exact h₁ x (mem_cons_of_mem _ hx)

theorem boostLosers_spec (win : PThread) (l : List PThread) : ∀ (h : Heap), l.Nodup → ∀ x,
    boostLosers win h l x = if x ∈ l ∧ x ≠ win then (h x).boost else h x := by
  induction l with
  | nil =>
    intro h _ x
    rw [boostLosers, if_neg (by simp)]
  | cons b r ih =>
    intro h hn x
    obtain ⟨hb, hr⟩ := nodup_cons.mp hn
    rw [boostLosers, ih _ hr]
    by_cases hxb : x = b
    · subst hxb
      by_cases hxw : x = win
      · simp [hxw]
      · simp [hb, hxw]
    · have hval : (if b ≠ win then h.modify b Thread.boost else h) x = h x := by
        split
        · exact Heap.modify_of_ne h _ hxb
        · rfl
      rw [hval]
      simp [hxb]

/-! ### A whole pass -/

theorem plain_boost : Plain Thread.boost := .ite {} {} fun _ => Iff.rfl

/-- A thread when `thread_schedule_core` makes its choice: its sleep time has
expired if it could, it may have been reaped or taken over. -/
def settled (p : Processor) (m : Machine) (R S : List PThread) (x : PThread) : Thread :=
  let y := if x ∈ scanned m.dead R then settle m.clock (m.thread x) else m.thread x
  if x ∈ S then adopt p (m.blockAddress p) y else y

/-- The ring when the choice is made. -/
def preparedRing (m : Machine) (R S : List PThread) : List PThread :=
  S.reverse ++ survivors m.dead R

/-- The ready list of `thread_schedule_core`. -/
def settledReady (p : Processor) (m : Machine) (R S : List PThread) : List PThread :=
  ((preparedRing m R S).filter fun x => (settled p m R S x).ready).reverse

/-- The machine on which `thread_schedule` calls `thread_schedule_core`: the
current thread of the processor has stopped. -/
def Machine.stopCurrent (m : Machine) (p : Processor) : Machine :=
  { m with thread := fun x =>
      if (m.processor p).currentThread = some x then (m.thread x).stop else m.thread x }

/-- A thread when `thread_schedule` makes its choice. -/
def prepared (p : Processor) (m : Machine) (R S : List PThread) (x : PThread) : Thread :=
  settled p (m.stopCurrent p) R S x

/-- The ready list of `thread_schedule`. -/
def preparedReady (p : Processor) (m : Machine) (R S : List PThread) : List PThread :=
  settledReady p (m.stopCurrent p) R S

/-- A thread after the pass. -/
def outcome (p : Processor) (m : Machine) (R S : List PThread) (win x : PThread) : Thread :=
  let y := prepared p m R S x
  if x = win then y.crown else if x ∈ preparedReady p m R S then y.boost else y

theorem stopCurrent_field {β : Type*} (g : Thread → β) (m : Machine) (p : Processor) (x : PThread)
    (hg : ∀ x : Thread, g x.stop = g x := by intro _; rfl) :
    g ((m.stopCurrent p).thread x) = g (m.thread x) := by
  rw [Machine.stopCurrent]
  dsimp only
  split
  · exact hg _
  · rfl

theorem dead_stopCurrent (m : Machine) (p : Processor) : (m.stopCurrent p).dead = m.dead := by
  funext x
  exact stopCurrent_field Thread.reapable m p x

theorem preparedRing_stopCurrent (m : Machine) (p : Processor) (R S : List PThread) :
    preparedRing (m.stopCurrent p) R S = preparedRing m R S := by
  rw [preparedRing, preparedRing, dead_stopCurrent]

theorem preparedReady_eq (p : Processor) (m : Machine) (R S : List PThread) :
    preparedReady p m R S
      = ((preparedRing m R S).filter fun x => (prepared p m R S x).ready).reverse := by
  rw [preparedReady, settledReady, preparedRing_stopCurrent]
  rfl

theorem mem_preparedReady_iff {x : PThread} : x ∈ preparedReady p m R S ↔
    x ∈ preparedRing m R S ∧ (prepared p m R S x).ready = true := by
  rw [preparedReady_eq, mem_reverse, mem_filter]

theorem boost_eq (x : Thread) : ∃ b, x.boost = { x with priorityBoost := b } := by
  unfold Thread.boost
  split
  · exact ⟨_, rfl⟩
  · exact ⟨x.priorityBoost, rfl⟩

theorem outcome_field {β : Type*} (g : Thread → β)
    (hg : ∀ x b r, g { x with priorityBoost := b, threadIsRunning := r } = g x)
    (p : Processor) (m : Machine) (R S : List PThread) (win x : PThread) :
    g (outcome p m R S win x) = g (prepared p m R S x) := by
  simp only [outcome]
  split
  · exact hg _ 0 true
  · split
    · obtain ⟨b, hb⟩ := boost_eq (prepared p m R S x)
      rw [hb]
      exact hg _ b _
    · rfl

theorem settle_eq (clock : Nat) (x : Thread) : settle clock x
    = { x with sleepTime := (processTimer clock x).sleepTime, valid := x.valid && !x.reapable } := by
  obtain ⟨v, hv⟩ := processTimer_eq clock x
  rw [settle, hv]
  rcases hd : x.reapable with - | -
  · rw [if_neg Bool.false_ne_true, Bool.not_false, Bool.and_true]
  · rw [Bool.not_true, Bool.and_false]
    rfl

theorem settle_of_ready (clock : Nat) {x : Thread} (hx : x.ready = true) :
    settle clock x = x := by
  simp only [Thread.ready, Bool.and_eq_true, Bool.not_eq_true', beq_iff_eq] at hx
  obtain ⟨⟨⟨hterm, -⟩, hsleep⟩, -⟩ := hx
  have hreap : x.reapable = false := by rw [Thread.reapable, hterm, Bool.false_and]
  rw [settle, hreap, if_neg Bool.false_ne_true, processTimer, if_neg (not_not.mpr hsleep)]

theorem settled_field {β : Type*} (g : Thread → β)
    (p : Processor) (m : Machine) (R S : List PThread) (x : PThread) (hg : ∀ x s v q c, g { x with
        sleepTime := s, valid := v, thisProcessor := q, context := c } = g x := by intros; rfl) :
    g (settled p m R S x) = g (m.thread x) := by
  simp only [settled, settle_eq]
  split_ifs <;> exact hg (m.thread x) _ _ _ _

theorem prepared_field {β : Type*} (g : Thread → β)
    (p : Processor) (m : Machine) (R S : List PThread) (x : PThread) (hg : ∀ x s v q c, g { x with
        sleepTime := s, valid := v, thisProcessor := q, context := c } = g x := by intros; rfl)
    (hstop : ∀ x : Thread, g x.stop = g x := by intro _; rfl) :
    g (prepared p m R S x) = g (m.thread x) :=
  (settled_field g p (m.stopCurrent p) R S x hg).trans (stopCurrent_field g m p x hstop)

theorem ready_prepared {R S : List PThread} {x : PThread} (hx : (m.thread x).ready = true) :
    (prepared p m R S x).ready = true := by
  rw [← stopCurrent_field Thread.ready m p x] at hx
  simp only [prepared, settled]
  rw [settle_of_ready _ hx, ite_self]
  split <;> exact hx

theorem valid_prepared (p : Processor) (m : Machine) (R S : List PThread) (x : PThread) :
    (prepared p m R S x).valid
      = if x ∈ scanned m.dead R then (m.thread x).valid && !m.dead x else (m.thread x).valid := by
  simp only [prepared, settled, settle_eq, dead_stopCurrent]
  rw [← stopCurrent_field Thread.valid m p, ← dead_stopCurrent m p]
  split_ifs <;> rfl

theorem thisProcessor_prepared (p : Processor) (m : Machine) (R S : List PThread) (x : PThread) :
    (prepared p m R S x).thisProcessor
      = if x ∈ S then some p else (m.thread x).thisProcessor := by
  simp only [prepared, settled, settle_eq]
  rw [← stopCurrent_field Thread.thisProcessor m p]
  split_ifs <;> rfl

/-- The winner comes first among the threads of the highest level. -/
def Foremost (level : PThread → Nat) (l : List PThread) (win : PThread) : Prop :=
  ∃ l₁ l₂, l = l₁ ++ win :: l₂ ∧ (∀ x ∈ l₁, level x < level win) ∧ ∀ x ∈ l₂, level x ≤ level win

theorem Foremost.mem {level : PThread → Nat} {l : List PThread}
    (h : Foremost level l win) : win ∈ l := by
  obtain ⟨l₁, l₂, rfl, -, -⟩ := h
  exact mem_append_right l₁ mem_cons_self

theorem Foremost.level_le {level : PThread → Nat} {l : List PThread} {win x : PThread}
    (h : Foremost level l win) (hx : x ∈ l) : level x ≤ level win := by
  obtain ⟨l₁, l₂, rfl, hbefore, hafter⟩ := h
  rcases mem_append.mp hx with hx | hx
  · exact (hbefore x hx).le
  · rcases mem_cons.mp hx with rfl | hx
    · exact Nat.le_refl _
    · exact hafter x hx

/-- `m'` is `m` after a scheduling pass on `p`, with ring `R` and swap list
`S` before, that chose `win`. -/
structure Scheduled (p : Processor) (R S : List PThread) (win : PThread) (m m' : Machine) :
    Prop where
  ringed : Ringed m' p (preparedRing m R S)
  swapped : Swapped m' p []
  edit : RingEdit p (S ++ R) m m'
  current : (m'.processor p).currentThread = some win
  body : ∀ x, (m'.thread x).body = (outcome p m R S win x).body
  choice : Foremost (fun x => (prepared p m R S x).level) (preparedReady p m R S) win

theorem Scheduled.win_prepared (h : Scheduled p R S win m m') :
    win ∈ preparedRing m R S ∧ (prepared p m R S win).ready = true :=
  mem_preparedReady_iff.mp h.choice.mem

/-- What a pass does to a field that is no link and no boost, and does not say
whether the thread runs. -/
theorem Scheduled.field {β : Type*} (h : Scheduled p R S win m m') (g : Thread → β) (x : PThread)
    (hlinks : ∀ x : Thread, g x.body = g x := by intro _; rfl)
    (hg : ∀ x b r, g { x with priorityBoost := b, threadIsRunning := r } = g x := by intros; rfl) :
    g (m'.thread x) = g (prepared p m R S x) := by
  rw [← hlinks, h.body, hlinks]
  exact outcome_field g hg p m R S win x

theorem Scheduled.context (h : Scheduled p R S win m m')
    (x : PThread) : (m'.thread x).context = if x ∈ S
      then (adopt p (m.blockAddress p) (m.thread x)).context else (m.thread x).context := by
  rw [h.field Thread.context]
  simp only [prepared, settled, settle_eq, Machine.stopCurrent]
  split_ifs <;> rfl

theorem plain_stop : Plain Thread.stop := {}

theorem plain_crown : Plain Thread.crown := {}

theorem plain_settle (clock : Nat) : Plain (settle clock) :=
  ((plain_processTimer clock).comp plain_invalidate).ite (plain_processTimer clock) fun _ => Iff.rfl

/-- The end of a pass: the losers are boosted, the winner gets the
processor. -/
def finish (p : Processor) (win : PThread) (readyList : List PThread) (m : Machine) : Machine :=
  ({ m with thread := boostLosers win m.thread readyList }.modifyThread win
    Thread.crown).modifyProcessor p fun b => { b with currentThread := some win }

theorem thread_finish {readyList : List PThread} (hn : readyList.Nodup)
    (x : PThread) : (finish p win readyList m).thread x
      = if x = win then (m.thread x).crown
        else if x ∈ readyList then (m.thread x).boost else m.thread x := by
  rw [finish, thread_modifyProcessor, thread_modifyThread]
  show (if x = win then (boostLosers win m.thread readyList x).crown
    else boostLosers win m.thread readyList x) = _
  rw [boostLosers_spec win readyList m.thread hn]
  by_cases hx : x = win
  · rw [if_pos hx, if_pos hx, if_neg (fun hand => hand.2 hx)]
  · rw [if_neg hx, if_neg hx]
    simp only [ne_eq, hx, not_false_eq_true, and_true]

theorem finish_links (win : PThread) {readyList : List PThread} (hn : readyList.Nodup)
    (c : Chain) (x : PThread) : (finish p win readyList m).next c x = m.next c x ∧
      (finish p win readyList m).prev c x = m.prev c x := by
  rw [Machine.next, Machine.prev, thread_finish hn]
  split
  · exact ⟨plain_crown.next c _, plain_crown.prev c _⟩
  · split
    · exact ⟨plain_boost.next c _, plain_boost.prev c _⟩
    · exact ⟨rfl, rfl⟩

theorem finish_ringEdit (win : PThread) {readyList : List PThread} (hn : readyList.Nodup) :
    RingEdit p [] m (finish p win readyList m) where
  other q hq := processor_modifyProcessor_of_ne _ _ hq
  lastSwap := by
    rw [finish, processor_modifyProcessor]
    rfl
  threadList := rfl
  clock := rfl
  image := rfl
  full x hx := by
    obtain ⟨hnext, hprev⟩ := finish_links (p := p) (m := m) win hn .full x
    exact ⟨hnext ▸ hx.1, hprev ▸ hx.2⟩
  next x _ := (finish_links _ hn .run x).1
  prev x _ := (finish_links _ hn .run x).2

/-- The part of `thread_schedule_core` before the choice. -/
theorem settle_spec {fuel : Nat} (h : Ringed m p R) (hS : Swapped m p S)
    (hdis : ∀ x ∈ S, x ∉ R) (hfull : ∀ x ∈ R, FullLinked m x)
    (hkeep : ∃ x ∈ R, m.dead x = false) (hfuel : S.length + R.length < fuel) :
    ∃ r m₁ m₂, (m.processor p).firstThread = some r ∧ firstPass p fuel m r = some m₁ ∧
      swapIn p fuel m₁ = some m₂ ∧ Ringed m₂ p (preparedRing m R S) ∧ Swapped m₂ p [] ∧
      RingEdit p (S ++ R) m m₂ ∧ ∀ x, (m₂.thread x).body = (settled p m R S x).body := by
  obtain ⟨y, hyR, hylive⟩ := hkeep
  obtain ⟨r, R, rfl⟩ := exists_cons_of_ne_nil (ne_nil_of_mem hyR)
  obtain ⟨m₁, hfirst, hscan⟩ := firstPass_spec fuel h hfull ⟨y, hyR, hylive⟩
    (by rw [length_cons] at hfuel; omega)
  have hedit₁ : RingEdit p (r :: R) m m₁ := hscan.edit
  have hS₁ : Swapped m₁ p S := by
    refine hS.congr (fun x hx => hedit₁.next x (hdis x hx))
      (fun x hx => hedit₁.prev x (hdis x hx)) hscan.swap hedit₁.lastSwap
  have hsurv := survivors_sublist m.dead (r :: R)
  obtain ⟨m₂, hswap, htake⟩ := swapIn_spec S fuel hscan.ringed
    (ne_nil_of_mem ((mem_survivors_iff h.nodup hyR).mpr
      fun hdead => Bool.false_ne_true (hylive.symm.trans hdead.2))) hS₁
    (fun x hx hmem => hdis x hx (hsurv.subset hmem)) (by omega)
  refine ⟨r, m₁, m₂, h.first, hfirst, hswap, htake.ringed, htake.swapped, ?_, ?_⟩
  · refine hedit₁.trans htake.edit (subset_append_right _ _) ?_
    intro x hx
    rcases mem_append.mp hx with hx | hx
    · exact mem_append_left _ hx
    · exact mem_append_right _ (hsurv.subset hx)
  · intro x
    have haddr : m₁.blockAddress p = m.blockAddress p := by
      rw [Machine.blockAddress, hedit₁.image]
      rfl
    rw [htake.body, hscan.body, haddr, settled, (plain_adopt _ _).body_ite,
      (plain_settle _).body_ite]

/-- **`thread_schedule_core`** with a thread that will be ready comes to its
end, chooses among the ready threads and boosts the others. -/
theorem threadScheduleCore_spec (fuel : Nat) (h : Ringed m p R)
    (hS : Swapped m p S) (hdis : ∀ x ∈ S, x ∉ R) (hfull : ∀ x ∈ R, FullLinked m x)
    (hkeep : ∃ x ∈ R, m.dead x = false)
    (hready : ∃ x ∈ preparedRing m R S, (settled p m R S x).ready = true)
    (hfuel : S.length + R.length < fuel) :
    ∃ m₂ win, threadScheduleCore fuel m p
        = some ({ m₂ with thread := boostLosers win m₂.thread (settledReady p m R S) }, win) ∧
      Ringed m₂ p (preparedRing m R S) ∧ Swapped m₂ p [] ∧ RingEdit p (S ++ R) m m₂ ∧
      (∀ x, (m₂.thread x).body = (settled p m R S x).body) ∧
      Foremost (fun x => (settled p m R S x).level) (settledReady p m R S) win := by
  obtain ⟨r, m₁, m₂, hfirst, hpass, hswap, hring, hswapped, hedit, hbody⟩ :=
    settle_spec h hS hdis hfull hkeep hfuel
  obtain ⟨y, hyR, hy⟩ := hready
  have hlevel : ∀ x, (m₂.thread x).level = (settled p m R S x).level := by
    intro x
    have hx := congrArg Thread.level (hbody x)
    exact hx
  -- the ready list is computed from the machine as it is then
  have hfilter : ((preparedRing m R S).filter fun x => (m₂.thread x).ready).reverse
      = settledReady p m R S := by
    rw [settledReady]
    congr 1
    apply filter_congr
    intro x _
    have hr := congrArg Thread.ready (hbody x)
    exact hr
  have hlen : (preparedRing m R S).length ≤ S.length + R.length := by
    have hsurv := (survivors_sublist m.dead R).length_le
    rw [preparedRing, length_append, length_reverse]
    omega
  obtain ⟨r₂, l₂, hl₂⟩ := exists_cons_of_ne_nil (ne_nil_of_mem hyR)
  have hpop : populate p m₂ fuel [] r₂ = some (settledReady p m R S) := by
    rw [← hfilter, hl₂]
    rw [hl₂] at hring hlen
    exact populate_spec hring (by rw [length_cons] at hlen; omega)
  have hyready : y ∈ settledReady p m R S := by
    rw [settledReady, mem_reverse, mem_filter]
    exact ⟨hyR, hy⟩
  obtain ⟨w, rest, hw⟩ := exists_cons_of_ne_nil (ne_nil_of_mem hyready)
  obtain ⟨k₁, k₂, hk, hk₁, hk₂⟩ := pickWinner_spec m₂.thread rest w
  refine ⟨m₂, pickWinner m₂.thread w rest, ?_, hring, hswapped, hedit, hbody, k₁, k₂,
    hw.trans hk, ?_, ?_⟩
  · rw [threadScheduleCore, hfirst]
    show ((firstPass p fuel m r).bind _) = _
    rw [hpass]
    show afterFirstPass fuel m₁ p = _
    rw [afterFirstPass, hswap]
    show ((m₂.processor p).firstThread.bind _) = _
    rw [hring.first, hl₂]
    show ((populate p m₂ fuel [] r₂).bind _) = _
    rw [hpop, hw]
    rfl
  · intro x hx
    dsimp only
    rw [← hlevel, ← hlevel]
    exact hk₁ x hx
  · intro x hx
    dsimp only
    rw [← hlevel, ← hlevel]
    exact hk₂ x hx

theorem dead_stop (m : Machine) (cur : PThread) :
    (m.modifyThread cur Thread.stop).dead = m.dead := by
  funext x
  exact Heap.modify_field m.thread cur x Thread.reapable fun _ => rfl

theorem modifyThread_stop (m : Machine) {cur : PThread}
    (hcur : (m.processor p).currentThread = some cur) :
    m.modifyThread cur Thread.stop = m.stopCurrent p := by
  have hthread : (m.modifyThread cur Thread.stop).thread = (m.stopCurrent p).thread := by
    funext x
    rw [thread_modifyThread, Machine.stopCurrent, hcur]
    simp only [Option.some.injEq, eq_comm]
  show { m with thread := (m.modifyThread cur Thread.stop).thread } = _
  rw [hthread]
  rfl

/-- **A scheduling pass** on a processor with a thread that will be ready
comes to its end and chooses the first ready thread of the highest level. -/
theorem threadSchedule_spec (fuel : Nat) (hcur : (m.processor p).currentThread ≠ none)
    (h : Ringed m p R) (hS : Swapped m p S) (hdis : ∀ x ∈ S, x ∉ R)
    (hfull : ∀ x ∈ R, FullLinked m x) (hkeep : ∃ x ∈ R, m.dead x = false)
    (hready : ∃ x ∈ preparedRing m R S, (prepared p m R S x).ready = true)
    (hfuel : S.length + R.length < fuel) :
    ∃ m' win, threadSchedule fuel m p = some (m', (m'.thread win).context) ∧
      Scheduled p R S win m m' := by
  obtain ⟨cur, hcur⟩ := Option.ne_none_iff_exists'.mp hcur
  -- the current thread is stopped first; nothing else depends on it
  have hstop := modifyThread_stop m hcur
  have hedit₀ : RingEdit p [] m (m.stopCurrent p) := hstop ▸ plain_stop.ringEdit m p cur
  obtain ⟨m₂, win, hcore, hring, hswapped, hedit, hbody, hchoice⟩ :=
    threadScheduleCore_spec fuel (hstop ▸ h.plain plain_stop cur)
      (hstop ▸ hS.plain plain_stop cur) hdis (fun x hx => hedit₀.full x (hfull x hx))
      (by rw [dead_stopCurrent]; exact hkeep) (by rw [preparedRing_stopCurrent]; exact hready)
      hfuel
  rw [preparedRing_stopCurrent] at hring
  have hn : (preparedReady p m R S).Nodup := by
    rw [preparedReady_eq]
    exact nodup_reverse.mpr (hring.nodup.filter _)
  -- what is left is the boosts, the winner and `CurrentThread`
  have hfin := finish_ringEdit (p := p) (m := m₂) win hn
  refine ⟨finish p win (preparedReady p m R S) m₂, win, ?_, ?_, ?_, ?_, ?_, ?_, hchoice⟩
  · rw [threadSchedule, hcur]
    show ((threadScheduleCore fuel (m.modifyThread cur Thread.stop) p).bind _) = _
    rw [hstop, hcore]
    rfl
  · refine hring.congr (fun x _ => (finish_links _ hn .run x).1)
      (fun x _ => (finish_links _ hn .run x).2) ?_ ?_
    · rw [finish, processor_modifyProcessor]
      rfl
    · rw [finish, processor_modifyProcessor]
      rfl
  · refine hswapped.congr (fun x _ => (finish_links _ hn .run x).1)
      (fun x _ => (finish_links _ hn .run x).2) ?_ hfin.lastSwap
    rw [finish, processor_modifyProcessor]
    rfl
  · have hedit' := hedit₀.trans hedit (by simp) (List.Subset.refl (S ++ R))
    exact hedit'.trans hfin (List.Subset.refl _) (by simp)
  · rw [finish, processor_modifyProcessor]
  · intro x
    rw [thread_finish hn]
    simp only [outcome]
    rw [apply_ite Thread.body, apply_ite Thread.body, plain_crown.body, plain_boost.body,
      hbody x, apply_ite Thread.body, apply_ite Thread.body, plain_crown.body, plain_boost.body]
    rfl

end LibXenon
