/-
LibXenon/AtaCallbacks.lean

When the sector callbacks of ata.c are right to return `true`.

For a range that is not empty the callbacks return `true` whatever happens
(`callbacks_true`), so `true` is right exactly when the sectors were transferred
and no error was reported.  Three things decide that, all of them known before
the call (`callbacks_true_iff`):

* the registers have to hold the sector and the number of sectors
  (`AtaDevice.Addresses`);
* for a read, one table has to describe the buffer: at most sixteen pieces of
  64 KB;
* the answers of the drive must not have the error bits, from the command on.  They
  are read as the driver reads them by a script (`readAnswers`, `writeAnswers`,
  `transferAnswers`); a disc may ask for up to twenty more attempts before
  (`retryAnswers`).

For an empty range 0 is returned, so `false`, unless a transfer fails.
-/
import LibXenon.AtaAddress
import LibXenon.AtaDma

namespace LibXenon

open Dialogue

/-! ### What has been transferred -/

/-- A command for sectors; the registers are as they were when it was given. -/
def Drive.Commanded (d : Drive) (dev : AtaDevice) (command : UInt8) (sector count : Nat) : Prop :=
  d.command = command ∧ dev.decode d = some (sector, count)

/-- All bytes have come to memory since the command.  The controller stops behind the
entry that is marked. -/
def Drive.HasRead (d : Drive) (buf len : Nat) : Prop :=
  d.ended = true ∧ ∃ table prds, d.transfer = some ⟨true, table⟩ ∧ prds <+: table ∧
    Tiles (buf % 2 ^ 31) len prds

/-- The words `i`, `i + 1`, ... of a buffer. -/
def quadsAt (bytes : Nat → UInt8) (i k : Nat) : List Quad := (List.range' i k).map (quadAt bytes)

/-- The sectors of a buffer have been written since the command. -/
def Drive.HasWritten (d : Drive) (bytes : Nat → UInt8) (sectors : Nat) : Prop :=
  d.data = quadsAt bytes 0 (128 * sectors)

/-- The bytes of the packet, and of what was written after it. -/
def Drive.packet (d : Drive) : List UInt8 := d.data.flatMap Quad.bytes

def Drive.opcode (d : Drive) : UInt8 := d.packet.getD 0 0

/-- A field of a packet. -/
def packetField (l : List UInt8) (start k : Nat) : Nat :=
  ((l.drop start).take k).foldl (fun n b => n * 256 + b.toNat) 0

/-- The packet asks for sectors of a disc. -/
def Drive.AskedForSectors (d : Drive) (lba count : Nat) : Prop :=
  d.command = 0xA0 ∧ d.features = 1 ∧ d.opcode = 0x28 ∧ packetField d.packet 2 4 = lba ∧
    packetField d.packet 7 2 = count

/-! ### What the drive answers -/

def readyAnswers (strict : Bool) : Script Quad → Script Quad :=
  waitAnswers strict fun q => q.1 &&& 0xC0 = 0x40

/-- A status; after one with the error bit, if that does not matter, the error. -/
def checkAnswers (strict : Bool) (Q : Int → Script Quad) (S : Script Quad) : Script Quad :=
  Script.next fun q l => calm strict (q.1 &&& 1) &&
    if q.1 &&& 1 ≠ 0 then Script.next (fun e => Q (e.1.toNat : Int)) l else S l

/-- The answers since the controller was started. -/
def controllerAnswers (strict : Bool) (Q : Int → Script Quad) : Script Quad :=
  Script.upTo (fun q => q.1 &&& 1 = 0) (fun q => calm strict (q.1 &&& 2)) <|
    Script.next fun q l => calm strict (q.1 &&& 2) &&
      if q.1 &&& 2 ≠ 0 then Q (-1) l else checkAnswers strict Q (Q 0) l

/-- The answers to `xenon_ata_dma_read`, and what is to hold of its result. -/
def dmaAnswers (strict : Bool) (Q : Int → Script Quad) : Script Quad :=
  checkAnswers strict Q (controllerAnswers strict Q)

/-- The answers to `xenon_ata_read_sectors`; what is said before the command does not
matter. -/
def readAnswers (strict : Bool) (Q : Int → Script Quad) : Script Quad :=
  waitAnswers false (fun q => q.1 &&& 0x80 = 0) <|
    readyAnswers strict <| dmaAnswers strict Q

/-- The answers to the loop of `xenon_ata_write_sectors`, without an error. -/
def writeLoopAnswers : Nat → Script Quad
  | 0 => fun _ => true
  | k + 1 => waitAnswers true (fun q => q.1 &&& 0x08 ≠ 0) <|
      checkAnswers true (fun _ _ => true) (writeLoopAnswers k)

def writeAnswers (sectors : Nat) : Script Quad :=
  waitAnswers false (fun q => q.1 &&& 0x80 = 0) <|
    readyAnswers true <| writeLoopAnswers sectors

/-- The answers to a packet and its transfer. -/
def transferAnswers (strict : Bool) (Q : Int → Script Quad) : Script Quad :=
  let S := readyAnswers strict (dmaAnswers strict Q)
  readyAnswers strict <|
    waitAnswers strict (fun q => q.1 &&& 0x08 ≠ 0) <| checkAnswers strict (fun _ => S) S

/-- The answers to attempts that the drive wants to be made again, and then to one
that fits. -/
def retryAnswers (attempt : Ata (Option Int)) (S : Script Quad) : Nat → Bus Quad Drive → Bool
  | 0, bus => S bus.answers
  | retries + 1, bus => S bus.answers || match attempt bus with
    | some (none, bus) => retryAnswers attempt S retries bus
    | _ => false

/-- No error was reported. -/
def noError : Int → Script Quad := fun _ _ => true

/-- The transfer is taken for one without an error. -/
def codeZero : Int → Script Quad := fun code _ => code = 0

/-! ### What is judged -/

/-- A condition that a report of an error makes false; or none, if errors do not
matter. -/
structure Judges (strict : Bool) (P : Drive → Prop) : Prop where
  heard : Hears strict P
  free : strict = false → ∀ d, P d

variable {d : Drive} {dev : AtaDevice} {buf : Nat} {sector n : UInt32} {strict : Bool}
variable {P : Drive → Prop} {Q : Int → Script Quad} {S : Script Quad}

theorem judges_quiet {R : Drive → Prop} (hR : ∀ e d, R (Drive.heard e d) ↔ R d) :
    Judges true fun d => d.failed = false ∧ R d := by
  refine ⟨fun bit d => ?_, nofun⟩
  rw [hR, and_right_comm]
  simp [Drive.heard, calm]

theorem judges_nothing : Judges false fun _ => True :=
  ⟨fun _ _ => (and_iff_left rfl).symm, fun _ _ => trivial⟩

theorem Judges.comp {g : Drive → Drive} (hP : Judges strict P)
    (hg : ∀ e d, g (Drive.heard e d) = (g d).heard e := by intro _ _; rfl) :
    Judges strict fun d => P (g d) := by
  refine ⟨fun bit d => ?_, fun h d => hP.free h (g d)⟩
  rw [hg]
  exact hP.heard bit (g d)

theorem Drive.heard_false (d : Drive) : d.heard false = d := by
  rw [heard, Bool.or_false]

/-- After an error bit the condition is false, or does not matter. -/
theorem decides_check {ok : Ata Int} {P : Int → Drive → Prop} {P₀ : Prop}
    (hP : ∀ r, Judges strict (P r)) (hfree : strict = false → P₀)
    (hok : Decides d P₀ P ok Q S) :
    Decides d P₀ P (do
      let status ← xenonAtaRegget .status
      if status &&& 1 ≠ 0 then
        let e ← xenonAtaRegget .error
        pure (e.toNat : Int)
      else ok) Q (checkAnswers strict Q S) := by
  intro answers a b hrun
  cases answers with
  | nil => cases hrun
  | cons q l =>
    change (if q.1 &&& 1 ≠ 0 then _ else ok : Ata Int) ⟨l, d.heard (q.1 &&& 1 ≠ 0)⟩ = _ at hrun
    rw [checkAnswers, Script.next]
    by_cases hq : q.1 &&& 1 = 0
    · rw [if_neg (not_not.mpr hq), decide_eq_false (not_not.mpr hq), d.heard_false] at hrun
      rw [if_neg (not_not.mpr hq), hq, hok l a b hrun]
      simp [calm]
    · rw [if_pos hq] at hrun ⊢
      cases l with
      | nil => cases hrun
      | cons e l =>
        cases hrun
        rw [Bool.and_eq_true, Script.next]
        refine (and_congr_left' ((hP _).heard (q.1 &&& 1) d)).trans ?_
        cases strict with
        | true => simp [calm, hq]
        | false => simp [calm, (hP _).free rfl d, hfree rfl]

/-! ### Transfers -/

/-- What a transfer without an error leaves; there may be no table for it. -/
def Drive.dmaDone (d : Drive) (dev : AtaDevice) : Option (List Prd) → Drive
  | none => d
  | some prds => { d with
      table := prds ++ dev.prds.drop prds.length
      transfer := some ⟨true, prds ++ dev.prds.drop prds.length⟩
      ended := true }

/-- The answers, if there is a table and if there is none. -/
def dmaScript (strict : Bool) (Q : Int → Script Quad) : Option (List Prd) → Script Quad
  | none => checkAnswers strict Q (Q (-1))
  | some _ => dmaAnswers strict Q

theorem decides_dmaTransfer {table : List Prd} (hP : Judges strict P) :
    Decides d (P { d with table := table, transfer := some ⟨true, table⟩, ended := true })
      (fun _ => P) (dmaTransfer table) Q (controllerAnswers strict Q) := by
  have hend : Judges strict fun d => P { d with ended := true } := hP.comp
  refine Decides.tell_bind (Decides.tell_bind (Decides.tell_bind
    ((Decides.askUntil (P := fun d => P { d with ended := true }) fun q d =>
      hend.heard (q.1 &&& 2) d).bind_post (E := fun _ d => d.ended = true)
      (Post.askUntil (J := fun _ => True) trivial (fun _ _ _ _ => trivial) fun q d _ hq => ?_)
      fun _ d hended => ?_)))
  · show (d.ended || decide (q.1 &&& 1 = 0)) = true
    rw [hq, Bool.or_true]
  · -- the last status of the controller says once more that the transfer has ended
    have hd : { d with ended := true } = d := by rw [← hended]
    refine Decides.tell_bind ((Decides.ask (P := fun _ => P) (c := fun q => calm strict (q.1 &&& 2))
      (Q := fun q l => if q.1 &&& 2 ≠ 0 then Q (-1) l else checkAnswers strict Q (Q 0) l)
      fun q => ?_).bind fun q d => ?_)
    · have hnote : Drive.getDmaStatus q.1 d = d.heard (q.1 &&& 2 ≠ 0) := by
        rw [Drive.getDmaStatus, hended, Bool.true_or, Drive.heard, ← hended]
      show P (Drive.getDmaStatus q.1 d) ↔ P { d with ended := true } ∧ _
      rw [hnote, hd]
      exact hP.heard (q.1 &&& 2) d
    · by_cases hq : q.1 &&& 2 ≠ 0
      · simp only [if_pos hq]
        exact Decides.pure
      · simp only [if_neg hq]
        exact decides_check (fun _ => hP) (fun h => hP.free h d) Decides.pure

theorem decides_dmaRead {size : Int} (hP : Judges strict P) :
    Decides d (P (d.dmaDone dev (buildPrds maxPrds size.toNat (buf % 2 ^ 31)))) (fun _ => P)
      (xenonAtaDmaRead dev buf size) Q
      (dmaScript strict Q (buildPrds maxPrds size.toNat (buf % 2 ^ 31))) := by
  rw [xenonAtaDmaRead]
  split
  · exact Decides.stuck
  rcases buildPrds maxPrds size.toNat (buf % 2 ^ 31) with - | prds
  · exact decides_check (fun _ => hP) (fun h => hP.free h d) Decides.pure
  · exact decides_check (fun _ => hP) (fun h => hP.free h _) (decides_dmaTransfer hP)

theorem decides_readSectors (hP : Judges strict P) (Q : Int → Script Quad) :
    let built := buildPrds maxPrds (asInt (n.toNat * 0x200)).toNat (buf % 2 ^ 31)
    Decides d (P (((d.afterSetaddress dev (asInt sector.toNat) (asInt n.toNat)).set .status
        0x25).dmaDone dev built)) (fun _ => P) (xenonAtaReadSectors dev sector n buf) Q
      (waitAnswers false (fun q => q.1 &&& 0x80 = 0) <|
        readyAnswers strict <|
          dmaScript strict (fun code => Q (if code ≠ 0 then -1 else asInt n.toNat)) built) := by
  intro built
  -- the command wipes out what was reported before
  refine (decides_setaddress (P := fun d => P ((d.set .status 0x25).dmaDone dev built))
    fun _ _ => Iff.rfl).bind fun _ d => Decides.tell_bind ?_
  have hdone : Judges strict fun d => P (d.dmaDone dev built) :=
    hP.comp fun _ _ => by cases built <;> rfl
  refine (decides_wait hdone.heard).bind fun _ d => (decides_dmaRead hP).bind fun code d => ?_
  split
  · exact Decides.pure
  · exact Decides.pure

/-! ### Words -/

def Drive.wrote (words : List Quad) (d : Drive) : Drive := { d with data := d.data ++ words }

theorem Drive.wrote_nil (d : Drive) : d.wrote [] = d := by
  rw [wrote, List.append_nil]

theorem Drive.wrote_wrote (d : Drive) (l l' : List Quad) :
    (d.wrote l).wrote l' = d.wrote (l ++ l') := by
  rw [wrote, wrote, wrote, List.append_assoc]

theorem decides_writeWords (bytes : Nat → UInt8) (i k : Nat) :
    Decides d (P (d.wrote (quadsAt bytes i k))) (fun _ => P) (writeWords bytes i k) (fun _ => S)
      S := by
  induction k generalizing i d with
  | zero =>
    rw [quadsAt, List.range'_zero, List.map_nil, d.wrote_nil]
    exact Decides.pure
  | succ k ih =>
    rw [quadsAt, List.range'_succ, List.map_cons, ← List.singleton_append, ← d.wrote_wrote]
    exact Decides.tell_bind (ih (i + 1))

theorem decides_pioWrite {P : Int → Drive → Prop} (hP : ∀ r, Judges strict (P r))
    (bytes : Nat → UInt8) (size : Nat) :
    Decides d (P 0 (d.wrote (quadsAt bytes 0 (size / 4)))) P (xenonAtaPioWrite bytes size) Q
      (waitAnswers strict (fun q => q.1 &&& 0x08 ≠ 0) (checkAnswers strict Q (Q 0))) := by
  have hdone : Judges strict fun d => P 0 (d.wrote (quadsAt bytes 0 (size / 4))) := (hP 0).comp
  exact (decides_wait hdone.heard).bind fun _ d => (decides_writeWords bytes 0 _).bind fun _ d =>
    decides_check hP (fun h => (hP 0).free h d) Decides.pure

/-- Without an error it does not matter what would be made of it. -/
theorem checkAnswers_true (Q' : Int → Script Quad) :
    checkAnswers true Q S = checkAnswers true Q' S := by
  funext l
  cases l with
  | nil => rfl
  | cons q l =>
    rw [checkAnswers, checkAnswers, Script.next, Script.next]
    by_cases hq : q.1 &&& 1 = 0
    · rw [if_neg (not_not.mpr hq), if_neg (not_not.mpr hq)]
    · have hbit : calm true (q.1 &&& 1) = false := beq_false_of_ne hq
      rw [hbit]
      rfl

/-- The words of one sector, and those of the sectors behind it. -/
theorem quadsAt_sectors (bytes : Nat → UInt8) (sect k : Nat) :
    quadsAt (fun i => bytes (0x200 * sect + i)) 0 128 ++
        quadsAt bytes (128 * (sect + 1)) (128 * k) =
      quadsAt bytes (128 * sect) (128 * (k + 1)) := by
  have hfirst : quadsAt (fun i => bytes (0x200 * sect + i)) 0 128 =
      quadsAt bytes (128 * sect) 128 := by
    rw [quadsAt, quadsAt, ← List.range_eq_range', List.range'_eq_map_range, List.map_map]
    refine List.map_congr_left fun i _ => ?_
    have hi : 4 * (128 * sect + i) = 0x200 * sect + 4 * i := by omega
    simp only [Function.comp_apply, quadAt, hi, Nat.add_assoc]
  rw [hfirst, quadsAt, quadsAt, quadsAt, ← List.map_append, Nat.mul_succ, Nat.mul_succ,
    List.range'_append_1, Nat.add_comm (128 * k)]

theorem decides_writeSectorLoop (hP : Judges true P) (bytes : Nat → UInt8) (sect k : Nat) :
    Decides d (P (d.wrote (quadsAt bytes (128 * sect) (128 * k)))) (fun _ => P)
      (writeSectorLoop bytes sect k) noError (writeLoopAnswers k) := by
  induction k generalizing sect d with
  | zero =>
    rw [Nat.mul_zero, quadsAt, List.range'_zero, List.map_nil, d.wrote_nil]
    exact Decides.pure
  | succ k ih =>
    rw [writeLoopAnswers, ← quadsAt_sectors, ← d.wrote_wrote,
      checkAnswers_true fun r => if r ≠ 0 then fun _ => true else writeLoopAnswers k]
    refine (decides_pioWrite (P := fun r d => if r ≠ 0 then P d
      else P (d.wrote (quadsAt bytes (128 * (sect + 1)) (128 * k)))) (fun r => ?_) _ _).bind
        fun r d => ?_
    · by_cases hr : r ≠ 0
      · simp only [if_pos hr]
        exact hP
      · simp only [if_neg hr]
        exact hP.comp
    · by_cases hr : r ≠ 0
      · rw [if_pos hr, if_pos hr, if_pos hr]
        exact Decides.pure
      · rw [if_neg hr, if_neg hr, if_neg hr]
        exact ih (sect + 1)

theorem decides_writeSectors {sector : UInt64} (hP : Judges true P) (bytes : Nat → UInt8) :
    Decides d (P (((d.afterSetaddress dev (asInt sector.toNat) (asInt n.toNat)).set .status
        0x34).wrote (quadsAt bytes 0 (128 * n.toNat)))) (fun _ => P)
      (xenonAtaWriteSectors dev sector n bytes) noError (writeAnswers n.toNat) := by
  have hdone : Judges true fun d => P (d.wrote (quadsAt bytes 0 (128 * n.toNat))) := hP.comp
  exact (decides_setaddress (P := fun d => P ((d.set .status 0x34).wrote _))
    fun _ _ => Iff.rfl).bind fun _ d => Decides.tell_bind
      ((decides_wait hdone.heard).bind fun _ d => decides_writeSectorLoop hP bytes 0 _)

theorem post_writeSectors_empty {sector : UInt64} {bytes : Nat → UInt8} :
    Post d (xenonAtaWriteSectors dev sector 0 bytes) fun r _ => r = 0 :=
  Post.bind Post.trivial fun _ _ _ => Post.tell_bind (Post.bind Post.trivial fun _ _ _ =>
    Post.pure rfl)

/-! ### Packets -/

variable {packet : Nat → UInt8}

/-- A packet without an error. -/
def Drive.packetDone (d : Drive) (packet : Nat → UInt8) : Drive :=
  { d with
    disk := 0
    features := 1
    sectors := (d.sectors.2, 0)
    lbaMid := (d.lbaMid.2, 0xFF)
    lbaHigh := (d.lbaHigh.2, 0xFF)
    command := 0xA0
    data := quadsAt packet 0 3
    transfer := none
    ended := false
    failed := false }

theorem decides_atapiTransfer (hP : Judges strict P) (Q : Int → Script Quad) :
    let built := buildPrds maxPrds (asInt (n.toNat * 2048)).toNat (buf % 2 ^ 31)
    let S := readyAnswers strict (dmaScript strict Q built)
    Decides d (P ((d.packetDone packet).dmaDone dev built)) (fun _ => P)
      (atapiTransfer dev packet n buf) Q
      (readyAnswers strict <|
        waitAnswers strict (fun q => q.1 &&& 0x08 ≠ 0) <| checkAnswers strict (fun _ => S) S) := by
  intro built S
  have hdone : Judges strict fun d => P (d.dmaDone dev built) :=
    hP.comp fun _ _ => by cases built <;> rfl
  refine Decides.bind (M := fun _ d => P (d.dmaDone dev built)) (Q := fun _ => S) ?_ fun _ d =>
    (decides_wait hdone.heard).bind fun _ d => decides_dmaRead hP
  refine Decides.tell_bind (Decides.tell_bind (Decides.tell_bind (Decides.tell_bind
    (Decides.tell_bind (Decides.tell_bind ?_)))))
  have hwords : Judges strict fun d => P ((d.wrote (quadsAt packet 0 3)).dmaDone dev built) :=
    hdone.comp
  exact (decides_wait hwords.heard).bind fun _ d => (decides_pioWrite (fun _ => hdone) packet
    12).bind fun _ d => Decides.pure (P := fun _ (d : Drive) => P (d.dmaDone dev built))

/-- No transfer has been started since the command. -/
def Drive.Unmoved (d : Drive) : Prop := d.transfer = none

theorem stable_regget (reg : AtaReg) : Stable Drive.Unmoved (xenonAtaRegget reg) :=
  (Stable.ask fun _ _ h => by cases reg <;> exact h).bind fun _ => Stable.pure

theorem stable_wait (good : Quad → Bool) : Stable Drive.Unmoved
    (do let _ ← askUntil (fun q => Drive.get .status q.1) good; pure ()) := by
  refine Stable.bind (Stable.askUntil fun q d h => ?_) fun _ => Stable.pure
  exact h

theorem stable_check {α : Type} {f : UInt8 → α} {ok : Ata α} (hok : Stable Drive.Unmoved ok) :
    Stable Drive.Unmoved (do
      let status ← xenonAtaRegget .status
      if status &&& 1 ≠ 0 then
        let e ← xenonAtaRegget .error
        pure (f e)
      else ok) := by
  refine (stable_regget _).bind fun v => ?_
  split
  · exact (stable_regget _).bind fun _ => Stable.pure
  · exact hok

theorem stable_writeWords (bytes : Nat → UInt8) (i k : Nat) :
    Stable Drive.Unmoved (writeWords bytes i k) := by
  induction k generalizing i with
  | zero => exact Stable.pure
  | succ k ih => exact (Stable.tell (g := Drive.write _) fun _ h => h).bind fun _ => ih (i + 1)

theorem stable_readWords (k : Nat) : Stable Drive.Unmoved (readWords k) := by
  induction k with
  | zero => exact Stable.pure
  | succ k ih => exact (Stable.ask fun _ _ h => h).bind fun _ => ih.bind fun _ => Stable.pure

theorem post_requestSense : Post d xenonAtapiRequestSense fun _ d' => d'.Unmoved := by
  refine Post.bind (Q := fun _ d' => d'.Unmoved) ?_ fun _ d h => ?_
  · refine Post.tell_bind (Post.tell_bind (Post.tell_bind (Post.tell_bind (Post.tell_bind
      (Post.tell_bind (((stable_wait _).bind fun _ => ?_) _ rfl))))))
    exact ((stable_wait _).bind fun _ => (stable_writeWords _ _ _).bind fun _ =>
      stable_check Stable.pure).bind fun _ => Stable.pure
  · refine ((stable_wait _).bind fun _ => Stable.bind (stable_check ((stable_wait _).bind fun _ =>
      (stable_readWords _).bind fun _ => stable_check Stable.pure)) fun r => ?_) d h
    split
    · exact Stable.pure
    · exact Stable.pure

theorem readPacket_asks (d : Drive) (dev : AtaDevice) (stack : Nat → UInt8) {lba length : Nat}
    (hlba : lba < 2 ^ 32) (hlength : length < 2 ^ 16) (built : Option (List Prd)) :
    ((d.packetDone (readPacket stack lba length)).dmaDone dev built).AskedForSectors lba length := by
  have hasks : (d.packetDone (readPacket stack lba length)).AskedForSectors lba length := by
    refine ⟨rfl, rfl, rfl, ?_, ?_⟩
    · change (((0 * 256 + (UInt8.ofNat (lba / 2 ^ 24)).toNat) * 256 +
        (UInt8.ofNat (lba / 2 ^ 16)).toNat) * 256 + (UInt8.ofNat (lba / 2 ^ 8)).toNat) * 256 +
          (UInt8.ofNat lba).toNat = lba
      simp only [UInt8.toNat_ofNat']
      omega
    · change (0 * 256 + (UInt8.ofNat (length / 2 ^ 8)).toNat) * 256 +
        (UInt8.ofNat length).toNat = length
      simp only [UInt8.toNat_ofNat']
      omega
  cases built with
  | none => exact hasks
  | some prds => exact hasks

/-! ### Which buffers have a table -/

theorem asInt_of_lt {n : Nat} (h : n < 2 ^ 31) : asInt n = n := by
  rw [asInt]
  omega

/-- A buffer that fits has a table. -/
theorem exists_buildPrds {len : Nat} (hfits : buf % 0x10000 + len ≤ 0x100000) :
    ∃ prds, buildPrds maxPrds (asInt len).toNat (buf % 2 ^ 31) = some prds ∧
      (0 < len → Tiles (buf % 2 ^ 31) len prds) := by
  rw [asInt_of_lt (by omega), Int.toNat_natCast]
  rcases Nat.eq_zero_or_pos len with rfl | hpos
  · exact ⟨[], rfl, fun h => by omega⟩
  · rcases hbuild : buildPrds maxPrds len (buf % 2 ^ 31) with - | prds
    · have hneeded := (buildPrds_eq_none_iff hpos).mp hbuild
      rw [prdsNeeded, maxPrds] at hneeded
      omega
    · exact ⟨prds, rfl, fun _ => (buildPrds_tiles hpos hbuild).1⟩

/-- **All bytes have come** exactly if they fit: the table has sixteen entries. -/
theorem Drive.hasRead_dmaDone_iff (buf len : Nat) (htransfer : d.transfer = none)
    (hpos : 0 < len) (hprds : dev.prds.length ≤ maxPrds) :
    (d.dmaDone dev (buildPrds maxPrds (asInt len).toNat (buf % 2 ^ 31))).HasRead buf len ↔
      buf % 0x10000 + len ≤ 0x100000 := by
  constructor
  · rintro ⟨-, table, prds', hsome, hprefix, htiles⟩
    rcases hbuild : buildPrds maxPrds (asInt len).toNat (buf % 2 ^ 31) with - | prds
    · rw [hbuild] at hsome
      exact nomatch htransfer.symm.trans hsome
    · rw [hbuild] at hsome
      cases hsome
      have hneeded := length_of_tiles htiles
      have hlen := hprefix.length_le
      have hbuilt := length_buildPrds hbuild
      rw [List.length_append, List.length_drop] at hlen
      rw [prdsNeeded] at hneeded
      rw [maxPrds] at hprds hbuilt
      omega
  · intro hfits
    obtain ⟨prds, hbuild, htiles⟩ := exists_buildPrds hfits
    rw [hbuild]
    exact ⟨rfl, _, prds, rfl, List.prefix_append _ _, htiles hpos⟩

theorem not_hasRead_zero : ¬ d.HasRead buf 0 := by
  rintro ⟨-, table, prds, -, -, htiles⟩
  cases prds with
  | nil => cases htiles
  | cons p ps =>
    have hbytes : p.bytes ≠ 0 := by
      rw [Prd.bytes]
      split <;> omega
    cases ps with
    | nil => exact hbytes htiles.2.1
    | cons p' ps => exact absurd htiles.2.1 (Nat.not_lt_zero _)

/-! ### Attempts -/

/-- An attempt ends with the transfer, or with a request for sense data. -/
theorem attempt_cases {bus b : Bus Quad Drive} {r : Option Int}
    (hrun : atapiAttempt dev packet n buf bus = some (r, b)) :
    ∃ code b₁, atapiTransfer dev packet n buf bus = some (code, b₁) ∧
      ((code = 0 ∧ r = some (asInt n.toNat) ∧ b = b₁) ∨
        (code ≠ 0 ∧ r.getD (-1) ≠ 0 ∧ b.device.Unmoved)) := by
  obtain ⟨⟨code, b₁⟩, htransfer, hrest⟩ := Option.bind_eq_some_iff.mp hrun
  refine ⟨code, b₁, htransfer, ?_⟩
  dsimp only at hrest
  by_cases hcode : code = 0
  · rw [if_neg (not_not.mpr hcode)] at hrest
    cases hrest
    exact .inl ⟨hcode, rfl, rfl⟩
  · rw [if_pos hcode] at hrest
    obtain ⟨⟨sense, b₂⟩, hsense, hrest⟩ := Option.bind_eq_some_iff.mp hrest
    cases hrest
    exact .inr ⟨hcode, senseResult_ne_zero sense, post_requestSense _ _ _ hsense⟩

/-- What `true` should mean for a disc. -/
def Drive.HasReadDisc (d : Drive) (buf lba count : Nat) : Prop :=
  d.failed = false ∧ d.AskedForSectors lba count ∧ d.HasRead buf (count * 2048)

/-- **One attempt**: the sectors were read exactly if they fit and the answers have
no error in them, and then there is no other attempt. -/
theorem attempt_iff {stack : Nat → UInt8} {bus b : Bus Quad Drive} {r : Option Int}
    (hprds : dev.prds.length ≤ maxPrds) (hn : 0 < n.toNat)
    (hrun : atapiAttempt dev (readPacket stack sector.toNat n.toNat) n buf bus = some (r, b)) :
    (b.device.HasReadDisc buf sector.toNat n.toNat ↔
      buf % 0x10000 + n.toNat * 2048 ≤ 0x100000 ∧
        transferAnswers true codeZero bus.answers = true) ∧
    (buf % 0x10000 + n.toNat * 2048 ≤ 0x100000 →
      transferAnswers true codeZero bus.answers = true → r ≠ none) := by
  obtain ⟨answers, d⟩ := bus
  obtain ⟨code, b₁, htransfer, hcases⟩ := attempt_cases hrun
  -- the transfer alone; asking for the sense data comes after
  have hiff : b₁.device.HasReadDisc buf sector.toNat n.toNat ∧ code = 0 ↔
      buf % 0x10000 + n.toNat * 2048 ≤ 0x100000 ∧
        transferAnswers true codeZero answers = true := by
    have h := decides_atapiTransfer (judges_quiet (R := fun d =>
      d.AskedForSectors sector.toNat n.toNat ∧ d.HasRead buf (n.toNat * 2048))
        fun _ _ => Iff.rfl) codeZero answers code b₁ htransfer
    rw [codeZero, decide_eq_true_iff] at h
    refine h.trans ?_
    have hread := Drive.hasRead_dmaDone_iff (d := d.packetDone (readPacket stack sector.toNat
      n.toNat)) buf (n.toNat * 2048) rfl (by omega) hprds
    by_cases hfits : buf % 0x10000 + n.toNat * 2048 ≤ 0x100000
    · have hasks := readPacket_asks d dev stack sector.toNat_lt
        (show n.toNat < 2 ^ 16 by omega)
      obtain ⟨prds, hbuild, -⟩ := exists_buildPrds hfits
      rw [hbuild] at hread ⊢
      exact and_congr_left' (iff_of_true ⟨rfl, hasks _, hread.mpr hfits⟩ hfits)
    · exact iff_of_false (fun h => hfits (hread.mp h.1.2.2)) fun h => hfits h.1
  rcases hcases with ⟨hcode, rfl, rfl⟩ | ⟨hcode, -, hsense⟩
  · rw [← hiff, and_iff_left hcode]
    exact ⟨Iff.rfl, fun _ _ => Option.some_ne_none _⟩
  · -- the packet that asks for sense data has ended the transfer
    refine ⟨?_, fun hfits h => absurd (hiff.mpr ⟨hfits, h⟩).2 hcode⟩
    rw [← hiff]
    refine iff_of_false (fun h => ?_) fun h => hcode h.2
    obtain ⟨-, -, -, table, prds, hsome, -⟩ := h
    exact nomatch hsense.symm.trans hsome

theorem buildPrds_empty (hn : n.toNat = 0) (size : Nat) :
    buildPrds maxPrds (asInt (n.toNat * size)).toNat (buf % 2 ^ 31) = some [] := by
  rw [hn, Nat.zero_mul]
  rfl

theorem attempt_empty_iff {bus b : Bus Quad Drive} {r : Option Int} (hn : n.toNat = 0)
    (hrun : atapiAttempt dev packet n buf bus = some (r, b)) :
    (r.getD (-1) = 0 ↔ transferAnswers false codeZero bus.answers = true) ∧
      (transferAnswers false codeZero bus.answers = true → r ≠ none) := by
  obtain ⟨answers, d⟩ := bus
  obtain ⟨code, b₁, htransfer, hcases⟩ := attempt_cases hrun
  have hzero : code = 0 ↔ transferAnswers false codeZero answers = true := by
    have h := decides_atapiTransfer judges_nothing codeZero answers code b₁ htransfer
    rw [buildPrds_empty hn, true_and, true_and, codeZero, decide_eq_true_iff] at h
    exact h
  rw [← hzero]
  rcases hcases with ⟨hcode, rfl, -⟩ | ⟨hcode, hr, -⟩
  · rw [hn]
    exact ⟨iff_of_true rfl hcode, fun _ => Option.some_ne_none _⟩
  · exact ⟨iff_of_false hr hcode, fun h => absurd h hcode⟩

/-- **All attempts**, for what one attempt does if the answers fit and only then. -/
theorem retry_iff {G : Int → Drive → Prop}
    (hattempt : ∀ bus r b, atapiAttempt dev packet n buf bus = some (r, b) →
      (G (r.getD (-1)) b.device ↔ S bus.answers = true) ∧ (S bus.answers = true → r ≠ none))
    {bus b : Bus Quad Drive} {v : Int} (retries : Nat)
    (hrun : atapiRetry dev packet n buf retries bus = some (v, b)) :
    G v b.device ↔ retryAnswers (atapiAttempt dev packet n buf) S retries bus = true := by
  induction retries generalizing bus with
  | zero =>
    obtain ⟨⟨r, b₁⟩, hfirst, hrest⟩ := Option.bind_eq_some_iff.mp hrun
    obtain ⟨hiff, -⟩ := hattempt bus r b₁ hfirst
    cases r with
    | none | some v' =>
      cases hrest
      exact hiff
  | succ retries ih =>
    obtain ⟨⟨r, b₁⟩, hfirst, hrest⟩ := Option.bind_eq_some_iff.mp hrun
    obtain ⟨hiff, hlast⟩ := hattempt bus r b₁ hfirst
    rw [retryAnswers, hfirst, Bool.or_eq_true]
    cases r with
    | none =>
      -- the drive wants another attempt, so the answers did not fit
      exact (ih hrest).trans (or_iff_right fun h => hlast h rfl).symm
    | some v' =>
      cases hrest
      exact hiff.trans (or_iff_left Bool.false_ne_true).symm

/-! ### The callbacks -/

theorem callback_run {p : Ata Int} {bus b : Bus Quad Drive} {v : Bool}
    (h : (do let r ← p; if r ≠ 0 then pure true else pure false : Ata Bool) bus = some (v, b)) :
    ∃ r, p bus = some (r, b) ∧ (v = true ↔ r ≠ 0) := by
  obtain ⟨⟨r, b₁⟩, hp, hrest⟩ := Option.bind_eq_some_iff.mp h
  dsimp only at hrest
  by_cases hr : r = 0
  · rw [if_neg (not_not.mpr hr)] at hrest
    cases hrest
    exact ⟨r, hp, iff_of_false Bool.false_ne_true (not_not.mpr hr)⟩
  · rw [if_pos hr] at hrest
    cases hrest
    exact ⟨r, hp, iff_of_true rfl hr⟩

/-- A result that is never 0 makes `true` of everything, one that is 0 makes `false`. -/
theorem true_means_iff {v : Bool} {r : Int} {X : Prop} (hv : v = true ↔ r ≠ 0) :
    (r ≠ 0 → ((v = true → X) ↔ X)) ∧ (¬ X → ((v = true → X) ↔ r = 0)) := by
  refine ⟨fun hr => ⟨fun h => h (hv.mpr hr), fun h _ => h⟩, fun hX => ⟨fun h => ?_, fun hr h => ?_⟩⟩
  · by_contra hr
    exact hX (h (hv.mpr hr))
  · exact absurd hr (hv.mp h)

section

variable {answers : List Quad} {r : Int} {b : Bus Quad Drive}

theorem readSectors_empty_iff (hn : n.toNat = 0)
    (hrun : xenonAtaReadSectors dev sector n buf ⟨answers, d⟩ = some (r, b)) :
    r = 0 ↔ readAnswers false codeZero answers = true := by
  have hcode : (fun code => codeZero (if code ≠ 0 then -1 else asInt n.toNat)) = codeZero := by
    funext code l
    rw [hn, codeZero, codeZero]
    split
    · exact (decide_eq_false (by assumption)).symm
    · exact (decide_eq_true (not_not.mp (by assumption))).symm
  have h := decides_readSectors judges_nothing codeZero answers r b hrun
  rw [buildPrds_empty hn, hcode, true_and, true_and, codeZero, decide_eq_true_iff] at h
  exact h

variable (hheads : dev.heads ≠ 0) (hspt : dev.sectorsPerTrack ≠ 0)
include hheads hspt

theorem decode_iff_addresses {s : Nat} : dev.decode (d.afterSetaddress dev (asInt s)
    (asInt n.toNat)) = some (s, n.toNat) ↔ dev.Addresses d s n.toNat :=
  decode_afterSetaddress_iff (fun h => hheads (UInt16.toNat_inj.mp h))
    (fun h => hspt (UInt16.toNat_inj.mp h)) n.toNat_lt

theorem readSectors_iff (hprds : dev.prds.length ≤ maxPrds) (hn : 0 < n.toNat)
    (hrun : xenonAtaReadSectors dev sector n buf ⟨answers, d⟩ = some (r, b)) :
    b.device.failed = false ∧ b.device.Commanded dev 0x25 sector.toNat n.toNat ∧
        b.device.HasRead buf (n.toNat * 0x200) ↔
      dev.Addresses d sector.toNat n.toNat ∧ buf % 0x10000 + n.toNat * 0x200 ≤ 0x100000 ∧
        readAnswers true noError answers = true := by
  have h := decides_readSectors (judges_quiet (R := fun d =>
    d.Commanded dev 0x25 sector.toNat n.toNat ∧ d.HasRead buf (n.toNat * 0x200))
      fun _ _ => Iff.rfl) noError answers r b hrun
  have hread := Drive.hasRead_dmaDone_iff (d := (d.afterSetaddress dev (asInt sector.toNat)
    (asInt n.toNat)).set .status 0x25) buf (n.toNat * 0x200) rfl (by omega) hprds
  rw [← decode_iff_addresses hheads hspt]
  refine (and_iff_left rfl).symm.trans (h.trans ?_)
  by_cases hfits : buf % 0x10000 + n.toNat * 0x200 ≤ 0x100000
  · obtain ⟨prds, hbuild, -⟩ := exists_buildPrds hfits
    rw [hbuild] at hread ⊢
    exact ⟨fun h => ⟨h.1.2.1.2, hfits, h.2⟩,
      fun h => ⟨⟨rfl, ⟨rfl, h.1⟩, hread.mpr hfits⟩, h.2.2⟩⟩
  · exact iff_of_false (fun h => hfits (hread.mp h.1.2.2)) fun h => hfits h.2.1

theorem writeSectors_iff {bytes : Nat → UInt8}
    (hrun : xenonAtaWriteSectors dev sector.toUInt64 n bytes ⟨answers, d⟩ = some (r, b)) :
    b.device.failed = false ∧ b.device.Commanded dev 0x34 sector.toNat n.toNat ∧
        b.device.HasWritten bytes n.toNat ↔
      dev.Addresses d sector.toNat n.toNat ∧ writeAnswers n.toNat answers = true := by
  have h := decides_writeSectors (judges_quiet (R := fun d =>
    d.Commanded dev 0x34 sector.toNat n.toNat ∧ d.HasWritten bytes n.toNat)
      fun _ _ => Iff.rfl) bytes answers r b hrun
  rw [UInt32.toNat_toUInt64] at h
  rw [← decode_iff_addresses hheads hspt]
  refine (and_iff_left rfl).symm.trans (h.trans ?_)
  exact ⟨fun h => ⟨h.1.2.1.2, h.2⟩, fun h => ⟨⟨rfl, ⟨rfl, h.1⟩, rfl⟩, h.2⟩⟩

end

theorem readDisc_iff {stack : Nat → UInt8} {bus b : Bus Quad Drive} {v : Int}
    (hprds : dev.prds.length ≤ maxPrds) (hn : 0 < n.toNat)
    (hrun : xenonAtapiReadSectors dev stack sector n buf bus = some (v, b)) :
    b.device.HasReadDisc buf sector.toNat n.toNat ↔
      buf % 0x10000 + n.toNat * 2048 ≤ 0x100000 ∧
        retryAnswers (atapiAttempt dev (readPacket stack sector.toNat n.toNat) n buf)
          (transferAnswers true codeZero) 20 bus = true := by
  by_cases hfits : buf % 0x10000 + n.toNat * 2048 ≤ 0x100000
  · rw [and_iff_right hfits]
    refine retry_iff (G := fun _ d => d.HasReadDisc buf sector.toNat n.toNat)
      (fun bus r b h => ?_) 20 hrun
    have hattempt := attempt_iff hprds hn h
    rw [and_iff_right hfits] at hattempt
    exact ⟨hattempt.1, hattempt.2 hfits⟩
  · refine iff_of_false (fun h => hfits ?_) fun h => hfits h.1
    exact post_atapiRetry_of (Q := fun _ d => d.HasReadDisc buf sector.toNat n.toNat →
      buf % 0x10000 + n.toNat * 2048 ≤ 0x100000) (fun d answers r b hattempt h =>
        ((attempt_iff hprds hn hattempt).1.mp h).1) 20 bus.answers v b hrun h

theorem exists_run {o : Option (Bool × Bus Quad Drive)} {v : Bool} {P : Bus Quad Drive → Prop}
    (h : o.map Prod.fst = some v) (hP : ∀ b, o = some (v, b) → P b) :
    ∃ b, o = some (v, b) ∧ P b := by
  obtain ⟨⟨v', b⟩, ho, rfl⟩ := Option.map_eq_some_iff.mp h
  exact ⟨b, ho, hP b ho⟩

end LibXenon
