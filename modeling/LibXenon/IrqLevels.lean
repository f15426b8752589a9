/-
LibXenon/IrqLevels.lean

The interrupt level of a processor: `thread_raise_irql`, `thread_lower_irql`,
`thread_spinlock`, `thread_unlock`, `thread_send_ipi` and
`external_interrupt_handler` of c_threads.c.

Code that is well nested is a tree of brackets: what is done between a spin lock
and its unlock, between a raise and the lower that restores what it returned,
by the routine of an inter-processor interrupt on the processor that sends it,
and by the routine of an external interrupt.  Running it gives the moments it
goes through, each with the level of the processor and the levels at which the
brackets around it were entered.

`thread_raise_irql` stores the level it is asked for, also when that is below
the one there is; it only prints a line.  So the level inside a bracket is at
least the one outside exactly when every bracket asks for at least the level it
is entered at (`irqLevels_iff`): a spin lock taken above level 2 lowers the
level.  The level after a bracket is the one before it in any case, but for an
external interrupt at level 255, the value that `external_interrupt_handler`
uses for "nothing to restore".

`char` is unsigned on the PowerPC.  The acknowledging stores to the interrupt
controller and the messages are left out.
-/
import Mathlib.Data.List.Basic
import Mathlib.Order.Basic

namespace LibXenon

open List

/-! ### The functions -/

/-- `thread_raise_irql`: the level returned, and the level stored. -/
def threadRaiseIrql (irq : UInt8) (irql : UInt32) : UInt8 × UInt8 := (irq, irql.toUInt8)

/-- `thread_lower_irql`, the same stores. -/
def threadLowerIrql (irq : UInt8) (irql : UInt32) : UInt8 × UInt8 := (irq, irql.toUInt8)

/-- `thread_spinlock`, its effect on the level. -/
def threadSpinlock (irq : UInt8) : UInt8 × UInt8 := threadRaiseIrql irq 2

/-- `thread_unlock`, its effect on the level. -/
def threadUnlock (irq : UInt8) (irql : UInt32) : UInt8 := (threadLowerIrql irq irql).2

/-- The start of `thread_send_ipi`: "make sure we are running at dispatch
level". -/
def dispatchLevel (irq : UInt8) : UInt8 × UInt8 :=
  if irq < 2 then threadRaiseIrql irq 2 else (irq, irq)

/-- The end of `external_interrupt_handler`. -/
def restoreIrq (irq saved : UInt8) : UInt8 := if saved ≠ 255 then saved else irq

/-! ### Nested code -/

/-- Brackets in a row, each with the code inside it and the code that follows. -/
inductive LevelCode
  | done
  /-- `thread_spinlock` … `thread_unlock` -/
  | spinlock (inside after : LevelCode)
  /-- `thread_raise_irql(irql)` … `thread_lower_irql` of what it returned -/
  | raise (irql : UInt32) (inside after : LevelCode)
  /-- `thread_send_ipi`, with what its routine does on this processor -/
  | sendIpi (inside after : LevelCode)
  /-- an external interrupt that has a routine -/
  | interrupt (source : UInt64) (inside after : LevelCode)

/-- The level at some moment, and the levels at which the brackets around it were
entered. -/
structure LevelMoment where
  entered : List UInt8
  irq : UInt8

/-- The moments of a run inside brackets entered at `entered`, from level `irq`,
and the level at its end. -/
def LevelCode.run : LevelCode → List UInt8 → UInt8 → List LevelMoment × UInt8
  | .done, entered, irq => ([⟨entered, irq⟩], irq)
  | .spinlock inside after, entered, irq =>
    let (irql, irq₁) := threadSpinlock irq
    let (moments, irq₂) := inside.run (irq :: entered) irq₁
    let (rest, irq₃) := after.run entered (threadUnlock irq₂ irql.toUInt32)
    (⟨entered, irq⟩ :: (moments ++ rest), irq₃)
  | .raise level inside after, entered, irq =>
    let (irql, irq₁) := threadRaiseIrql irq level
    let (moments, irq₂) := inside.run (irq :: entered) irq₁
    let (rest, irq₃) := after.run entered (threadLowerIrql irq₂ irql.toUInt32).2
    (⟨entered, irq⟩ :: (moments ++ rest), irq₃)
  | .sendIpi inside after, entered, irq =>
    let (irql, irq₁) := dispatchLevel irq
    let (moments, irq₂) := inside.run (irq :: entered) (threadRaiseIrql irq₁ 0x78).2
    let (rest, irq₃) := after.run entered (threadLowerIrql irq₂ irql.toUInt32).2
    (⟨entered, irq⟩ :: ⟨irq :: entered, irq₁⟩ :: (moments ++ rest), irq₃)
  | .interrupt source inside after, entered, irq =>
    let (moments, irq₁) := inside.run (irq :: entered) source.toUInt8
    let (rest, irq₂) := after.run entered (restoreIrq irq₁ irq)
    (⟨entered, irq⟩ :: (moments ++ rest), irq₂)

/-- The level is at least that at which any bracket around was entered. -/
def LevelMoment.Above (x : LevelMoment) : Prop := ∀ e ∈ x.entered, e ≤ x.irq

instance (x : LevelMoment) : Decidable x.Above :=
  inferInstanceAs (Decidable (∀ e ∈ x.entered, e ≤ x.irq))

/-- Every bracket asks for at least the level it is entered at. -/
def LevelCode.Rising : LevelCode → UInt8 → Prop
  | .done, _ => True
  | .spinlock inside after, irq => irq ≤ 2 ∧ inside.Rising 2 ∧ after.Rising irq
  | .raise irql inside after, irq =>
    irq ≤ irql.toUInt8 ∧ inside.Rising irql.toUInt8 ∧ after.Rising irq
  | .sendIpi inside after, irq => irq ≤ 0x78 ∧ inside.Rising 0x78 ∧ after.Rising irq
  | .interrupt source inside after, irq =>
    irq ≤ source.toUInt8 ∧ inside.Rising source.toUInt8 ∧ after.Rising irq

/-- No interrupt from a lower level than 255 is taken at level 255. -/
def LevelCode.Restoring : LevelCode → UInt8 → Prop
  | .done, _ => True
  | .spinlock inside after, irq => inside.Restoring 2 ∧ after.Restoring irq
  | .raise irql inside after, irq => inside.Restoring irql.toUInt8 ∧ after.Restoring irq
  | .sendIpi inside after, irq => inside.Restoring 0x78 ∧ after.Restoring irq
  | .interrupt source inside after, irq =>
    (irq = 255 → source.toUInt8 = 255) ∧ inside.Restoring source.toUInt8 ∧ after.Restoring irq

variable {code inside after : LevelCode} {entered : List UInt8} {irq irq₁ : UInt8}

/-! ### After a bracket -/

@[simp] theorem lower_restores (irq saved : UInt8) :
    (threadLowerIrql irq saved.toUInt32).2 = saved := UInt8.toUInt8_toUInt32 saved

@[simp] theorem unlock_restores (irq saved : UInt8) : threadUnlock irq saved.toUInt32 = saved :=
  lower_restores irq saved

@[simp] theorem dispatchLevel_saved (irq : UInt8) : (dispatchLevel irq).1 = irq := by
  rw [dispatchLevel]
  split <;> rfl

/-- An interrupt is left at the level it was taken at, if that is not 255 or the
routine has stayed there. -/
theorem restoreIrq_eq (h : irq = 255 → irq₁ = 255) : restoreIrq irq₁ irq = irq := by
  rw [restoreIrq]
  split
  · rfl
  · rename_i hirq
    rw [h (not_not.mp hirq), not_not.mp hirq]

/-- **The level after the code** is the level before it. -/
theorem LevelCode.run_level (code : LevelCode) (entered : List UInt8) (irq : UInt8)
    (h : code.Restoring irq) : (code.run entered irq).2 = irq := by
  induction code generalizing entered irq with
  | done => rfl
  | spinlock inside after _ ihafter =>
    rw [LevelCode.run]
    dsimp only
    rw [unlock_restores]
    exact ihafter entered irq h.2
  | raise irql inside after _ ihafter =>
    rw [LevelCode.run]
    dsimp only
    rw [lower_restores]
    exact ihafter entered irq h.2
  | sendIpi inside after _ ihafter =>
    rw [LevelCode.run]
    dsimp only
    rw [lower_restores, dispatchLevel_saved]
    exact ihafter entered irq h.2
  | interrupt source inside after ihinside ihafter =>
    obtain ⟨htop, hinside, hafter⟩ := h
    rw [LevelCode.run]
    dsimp only
    rw [ihinside (irq :: entered) source.toUInt8 hinside, restoreIrq_eq htop]
    exact ihafter entered irq hafter

theorem LevelCode.Rising.restoring (h : code.Rising irq) : code.Restoring irq := by
  induction code generalizing irq with
  | done => trivial
  | spinlock inside after ihinside ihafter | raise irql inside after ihinside ihafter
  | sendIpi inside after ihinside ihafter => exact ⟨ihinside h.2.1, ihafter h.2.2⟩
  | interrupt source inside after ihinside ihafter =>
    refine ⟨?_, ihinside h.2.1, ihafter h.2.2⟩
    rintro rfl
    -- no level is above 255
    have hle := UInt8.le_iff_toNat_le.mp h.1
    have hlt := source.toUInt8.toNat_lt
    change 255 ≤ source.toUInt8.toNat at hle
    exact UInt8.toNat.inj (by change source.toUInt8.toNat = 255; omega)

/-! ### Inside a bracket -/

theorem LevelCode.start_mem (code : LevelCode) (entered : List UInt8) (irq : UInt8) :
    ⟨entered, irq⟩ ∈ (code.run entered irq).1 := by
  cases code <;> exact mem_cons_self

theorem LevelMoment.above_cons : LevelMoment.Above ⟨irq :: entered, irq₁⟩ ↔
    irq ≤ irq₁ ∧ LevelMoment.Above ⟨entered, irq₁⟩ := forall_mem_cons

theorem LevelMoment.Above.raise (h : LevelMoment.Above ⟨entered, irq⟩) (hle : irq ≤ irq₁) :
    LevelMoment.Above ⟨irq :: entered, irq₁⟩ :=
  above_cons.mpr ⟨hle, fun e he => UInt8.le_trans (h e he) hle⟩

/-- The moments inside a bracket that asks for `irq₁`, from what is known of the
code in it. -/
theorem inside_iff (hbase : LevelMoment.Above ⟨entered, irq⟩)
    (ih : ∀ entered irq, LevelMoment.Above ⟨entered, irq⟩ →
      ((∀ x ∈ (inside.run entered irq).1, x.Above) ↔ inside.Rising irq)) :
    (∀ x ∈ (inside.run (irq :: entered) irq₁).1, x.Above) ↔ irq ≤ irq₁ ∧ inside.Rising irq₁ := by
  constructor
  · intro h
    have hstart := h _ (inside.start_mem (irq :: entered) irq₁)
    exact ⟨(LevelMoment.above_cons.mp hstart).1, (ih _ _ hstart).mp h⟩
  · rintro ⟨hle, hrising⟩
    exact (ih _ _ (hbase.raise hle)).mpr hrising

theorem forall_moments {P : LevelMoment → Prop} {x : LevelMoment} {l k : List LevelMoment}
    (hx : P x) : (∀ y ∈ x :: (l ++ k), P y) ↔ (∀ y ∈ l, P y) ∧ ∀ y ∈ k, P y := by
  rw [forall_mem_cons, forall_mem_append]
  exact and_iff_right hx

/-- **Inside every bracket** the level is at least the one it was entered at, if
and only if every bracket asks for that much. -/
theorem LevelCode.above_iff (code : LevelCode) (entered : List UInt8) (irq : UInt8)
    (hbase : LevelMoment.Above ⟨entered, irq⟩) :
    (∀ x ∈ (code.run entered irq).1, x.Above) ↔ code.Rising irq := by
  induction code generalizing entered irq with
  | done =>
    refine iff_of_true (fun x hx => ?_) trivial
    rw [mem_singleton.mp hx]
    exact hbase
  | spinlock inside after ihinside ihafter =>
    rw [LevelCode.run]
    rw [forall_moments hbase, unlock_restores, LevelCode.Rising, ← and_assoc]
    exact and_congr (inside_iff hbase ihinside) (ihafter entered irq hbase)
  | raise irql inside after ihinside ihafter =>
    rw [LevelCode.run]
    rw [forall_moments hbase, lower_restores, LevelCode.Rising, ← and_assoc]
    exact and_congr (inside_iff hbase ihinside) (ihafter entered irq hbase)
  | sendIpi inside after ihinside ihafter =>
    -- before the routine the level is 2, or what it was
    have hdispatch : LevelMoment.Above ⟨irq :: entered, (dispatchLevel irq).2⟩ := by
      refine hbase.raise ?_
      rw [dispatchLevel]
      split
      · rename_i hlow
        exact UInt8.le_of_lt hlow
      · exact UInt8.le_refl irq
    rw [LevelCode.run]
    rw [forall_mem_cons, and_iff_right hbase, forall_moments hdispatch, lower_restores,
      dispatchLevel_saved, LevelCode.Rising, ← and_assoc]
    exact and_congr (inside_iff hbase ihinside) (ihafter entered irq hbase)
  | interrupt source inside after ihinside ihafter =>
    rw [LevelCode.run]
    rw [forall_moments hbase, LevelCode.Rising, ← and_assoc, inside_iff hbase ihinside]
    refine and_congr_right fun hrising => ?_
    -- code that rises leaves the routine at the level it began with
    have hall : (LevelCode.interrupt source inside .done).Rising irq :=
      ⟨hrising.1, hrising.2, trivial⟩
    rw [inside.run_level _ _ hrising.2.restoring, restoreIrq_eq hall.restoring.1]
    exact ihafter entered irq hbase

/-- **The level of a processor**, for every level it starts at and all well-nested
code: inside every bracket it is at least the one at which the bracket was
entered, if and only if every bracket asks for at least that level; and after
the code it is what it was, unless an interrupt is taken at level 255. -/
theorem irqLevels_iff (code : LevelCode) (start : UInt8) :
    ((∀ x ∈ (code.run [] start).1, x.Above) ↔ code.Rising start) ∧
      (code.Restoring start → (code.run [] start).2 = start) :=
  ⟨code.above_iff [] start nofun, code.run_level [] start⟩

/-- A routine of an inter-processor interrupt that takes a spin lock. -/
def ipiLocking : LevelCode := .interrupt 0x78 (.spinlock .done .done) .done

/-- An inter-processor interrupt is sent under a spin lock and its routine interrupted;
then a spin lock at level 2. -/
def ipiUnderLock : LevelCode :=
  .spinlock (.sendIpi (.interrupt 0x7C (.raise 0x7E .done .done) .done) .done)
    (.raise 2 (.spinlock .done .done) .done)

theorem irqLevels_ipiUnderLock :
    (∀ x ∈ (ipiUnderLock.run [] 0).1, x.Above) ∧ (ipiUnderLock.run [] 0).2 = 0 := by
  have hrising : ipiUnderLock.Rising 0 := by
    simp only [ipiUnderLock, LevelCode.Rising, and_true]
    decide +kernel
  exact ⟨(irqLevels_iff ipiUnderLock 0).1.mpr hrising,
    (irqLevels_iff ipiUnderLock 0).2 hrising.restoring⟩

/-- In such a routine the level goes down to 2. -/
theorem ipiLocking_lowers :
    ⟨[0x78, 0], 2⟩ ∈ (ipiLocking.run [] 0).1 ∧ ¬ LevelMoment.Above ⟨[0x78, 0], 2⟩ := by
  refine ⟨?_, by decide +kernel⟩
  refine mem_cons_of_mem _ (mem_append_left _ (mem_cons_of_mem _ ?_))
  exact mem_append_left _ (mem_singleton_self _)

end LibXenon
