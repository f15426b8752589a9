/-
LibXenon/AtaSectors.lean

The sector functions of ata.c: `ata_readsectors`, `atapi_readsectors` and
`ata_writesectors`.

The functions below them return a negative number or the number of sectors, and
they return -1 on an error of the device, at whatever depth it is found.  The
callbacks make `true` of every number but 0.  So for a range that is not empty they
return `true` whatever the device answers (`callbacks_true`); when they are right to
do so is in `AtaCallbacks`.

The drive is modelled by what it has been told: the registers with their previous
contents, the last command, the data written since, the transfer that was started
since, and whether an error has been reported since.  Its answers are any bytes.
`USE_DMA` is defined, as in the source.
-/
import LibXenon.Dialogue
import Mathlib.Algebra.Group.Int.Defs
import Mathlib.Algebra.GroupWithZero.Nat

namespace LibXenon

open Dialogue

/-! ### The drive -/

/-- Four bytes, in the order they have in memory: what the data register takes and
gives.  A register of one byte gives the first. -/
abbrev Quad := UInt8 × UInt8 × UInt8 × UInt8

def Quad.bytes (q : Quad) : List UInt8 := [q.1, q.2.1, q.2.2.1, q.2.2.2]

/-- `XENON_ATA_REG_...`; `SECTNUM`, `CYLLSB` and `CYLMSB` are the address
registers, `FEATURES` is `ERROR` and `CMD` is `STATUS`. -/
inductive AtaReg
  | error
  | sectors
  | lbaLow
  | lbaMid
  | lbaHigh
  | disk
  | status

/-- `struct xenon_ata_dma_prd`; the bytes are swapped when it is stored. -/
structure Prd where
  address : Nat
  size : Nat
  last : Bool

/-- A size of 0 stands for 64 KB. -/
def Prd.bytes (p : Prd) : Nat := if p.size = 0 then 0x10000 else p.size

/-- A transfer the controller was started for. -/
structure DmaTransfer where
  toMemory : Bool
  table : List Prd

/-- The side of the drive and of the controller.  The registers for 48-bit
addresses have a previous and a current byte. -/
structure Drive where
  sectors : UInt8 × UInt8
  lbaLow : UInt8 × UInt8
  lbaMid : UInt8 × UInt8
  lbaHigh : UInt8 × UInt8
  disk : UInt8
  features : UInt8
  table : List Prd
  command : UInt8
  /-- Since the last command. -/
  data : List Quad
  transfer : Option DmaTransfer
  ended : Bool
  failed : Bool

/-- The address in the registers. -/
def Drive.address (d : Drive) : Nat :=
  d.lbaHigh.1.toNat * 2 ^ 40 + d.lbaMid.1.toNat * 2 ^ 32 + d.lbaLow.1.toNat * 2 ^ 24 +
    d.lbaHigh.2.toNat * 2 ^ 16 + d.lbaMid.2.toNat * 2 ^ 8 + d.lbaLow.2.toNat

/-- The number of sectors in the registers. -/
def Drive.amount (d : Drive) : Nat :=
  if d.sectors.1.toNat * 256 + d.sectors.2.toNat = 0 then 65536
  else d.sectors.1.toNat * 256 + d.sectors.2.toNat

/-- A register is written. -/
def Drive.set (reg : AtaReg) (v : UInt8) (d : Drive) : Drive :=
  match reg with
  | .error => { d with features := v }
  | .sectors => { d with sectors := (d.sectors.2, v) }
  | .lbaLow => { d with lbaLow := (d.lbaLow.2, v) }
  | .lbaMid => { d with lbaMid := (d.lbaMid.2, v) }
  | .lbaHigh => { d with lbaHigh := (d.lbaHigh.2, v) }
  | .disk => { d with disk := v }
  | .status => { d with
      command := v, data := [], transfer := none, ended := false, failed := false }

/-- The drive has, or has not, reported an error. -/
def Drive.heard (e : Bool) (d : Drive) : Drive := { d with failed := d.failed || e }

/-- A register is read; only the status is a report. -/
def Drive.get (reg : AtaReg) (v : UInt8) (d : Drive) : Drive :=
  match reg with
  | .status => d.heard (v &&& 1 ≠ 0)
  | _ => d

/-- The controller gets its table. -/
def Drive.setTable (table : List Prd) (d : Drive) : Drive := { d with table := table }

/-- `XENON_ATA_DMA_CMD`. -/
def Drive.setDmaCmd (v : UInt8) (d : Drive) : Drive :=
  if v &&& 1 ≠ 0 then { d with transfer := some ⟨v &&& 8 ≠ 0, d.table⟩, ended := false } else d

/-- `XENON_ATA_DMA_STATUS`. -/
def Drive.getDmaStatus (v : UInt8) (d : Drive) : Drive :=
  { d.heard (v &&& 2 ≠ 0) with ended := d.ended || v &&& 1 = 0 }

def Drive.write (q : Quad) (d : Drive) : Drive := { d with data := d.data ++ [q] }

/-! ### The registers -/

abbrev Ata (α : Type) := Prog Quad Drive α

def xenonAtaRegset (reg : AtaReg) (v : UInt8) : Ata Unit := tell (Drive.set reg v)

def xenonAtaRegget (reg : AtaReg) : Ata UInt8 := do
  let q ← ask fun q => Drive.get reg q.1
  pure q.1

def xenonAtaReadData : Ata Quad := ask fun _ d => d

def xenonAtaWriteData (q : Quad) : Ata Unit := tell (Drive.write q)

def xenonAtaWaitBusy : Ata Unit := do
  let _ ← askUntil (fun q => Drive.get .status q.1) fun q => q.1 &&& 0x80 = 0
  pure ()

def xenonAtaWaitDrq : Ata Unit := do
  let _ ← askUntil (fun q => Drive.get .status q.1) fun q => q.1 &&& 0x08 ≠ 0
  pure ()

def xenonAtaWaitReady : Ata Unit := do
  let _ ← askUntil (fun q => Drive.get .status q.1) fun q => q.1 &&& 0xC0 = 0x40
  pure ()

/-! ### Data by the processor -/

def readWords : Nat → Ata (List Quad)
  | 0 => pure []
  | k + 1 => do
      let q ← xenonAtaReadData
      let rest ← readWords k
      pure (q :: rest)

/-- `xenon_ata_pio_read`, with what is in the buffer afterwards; nothing is put
there if the status has the error bit at once. -/
def xenonAtaPioRead (size : Nat) : Ata (Int × List Quad) := do
  let status ← xenonAtaRegget .status
  if status &&& 1 ≠ 0 then
    let e ← xenonAtaRegget .error
    pure ((e.toNat : Int), [])
  else
    xenonAtaWaitDrq
    let words ← readWords (if size % 16 ≠ 0 then size / 4 else 4 * (size / 16))
    let status ← xenonAtaRegget .status
    if status &&& 1 ≠ 0 then
      let e ← xenonAtaRegget .error
      pure ((e.toNat : Int), words)
    else pure (0, words)

/-- `buf32[i]`. -/
def quadAt (buf : Nat → UInt8) (i : Nat) : Quad :=
  (buf (4 * i), buf (4 * i + 1), buf (4 * i + 2), buf (4 * i + 3))

def writeWords (buf : Nat → UInt8) : Nat → Nat → Ata Unit
  | _, 0 => pure ()
  | i, k + 1 => do
      xenonAtaWriteData (quadAt buf i)
      writeWords buf (i + 1) k

/-- `xenon_ata_pio_write`. -/
def xenonAtaPioWrite (buf : Nat → UInt8) (size : Nat) : Ata Int := do
  xenonAtaWaitDrq
  writeWords buf 0 (size / 4)
  let status ← xenonAtaRegget .status
  if status &&& 1 ≠ 0 then
    let e ← xenonAtaRegget .error
    pure (e.toNat : Int)
  else pure 0

/-! ### Data by the controller -/

def maxPrds : Nat := 16

/-- The loop that builds the table, with the entries that are left; `none` is
"transfer too big".  A negative size ends the loop at once, as 0 does. -/
def buildPrds : Nat → Nat → Nat → Option (List Prd)
  | 0, s, _ => if s > 0 then none else some []
  | k + 1, s, b =>
    if s > 0 then
      let ss := min s (0x10000 - b % 0x10000)
      (buildPrds k (s - ss) (b + ss)).map
        -- a piece of 64 KB is entered with length 0
        (⟨b, ss % 0x10000, decide (s - ss = 0)⟩ :: ·)
    else some []

inductive AddressingMode
  | chs
  | lba
  | lba48
  | other

/-- `struct xenon_ata_device`, with the table in memory. -/
structure AtaDevice where
  addressingMode : AddressingMode
  cylinders : UInt16
  heads : UInt16
  sectorsPerTrack : UInt16
  prds : List Prd

/-- The end of `xenon_ata_dma_read`.  Writing 0 to the status of the controller
changes nothing here. -/
def dmaTransfer (table : List Prd) : Ata Int := do
  tell (Drive.setTable table)
  tell (Drive.setDmaCmd 8)
  tell (Drive.setDmaCmd 9)
  let _ ← askUntil (fun q => Drive.getDmaStatus q.1) fun q => q.1 &&& 1 = 0
  tell (Drive.setDmaCmd 0)
  let q ← ask fun q => Drive.getDmaStatus q.1
  if q.1 &&& 2 ≠ 0 then pure (-1)
  else
    let status ← xenonAtaRegget .status
    if status &&& 1 ≠ 0 then
      let e ← xenonAtaRegget .error
      pure (e.toNat : Int)
    else pure 0

/-- `xenon_ata_dma_read`.  The old entries stay behind the new ones. -/
def xenonAtaDmaRead (dev : AtaDevice) (buf : Nat) (size : Int) : Ata Int :=
  if buf % 4 ≠ 0 then stuck
  else do
    let status ← xenonAtaRegget .status
    if status &&& 1 ≠ 0 then
      let e ← xenonAtaRegget .error
      pure (e.toNat : Int)
    else
      match buildPrds maxPrds size.toNat (buf % 2 ^ 31) with
      | none => pure (-1)
      | some prds => dmaTransfer (prds ++ dev.prds.drop prds.length)

/-! ### The sectors of a hard disk -/

/-- A `uint32_t` as an `int`. -/
def asInt (n : Nat) : Int :=
  if n % 2 ^ 32 < 2 ^ 31 then (n % 2 ^ 32 : Nat) else (n % 2 ^ 32 : Nat) - 2 ^ 32

/-- An `int` as a `uint8_t`. -/
def lowByte (x : Int) : UInt8 := UInt8.ofNat (x % 256).toNat

/-- `xenon_ata_setlba`. -/
def xenonAtaSetlba (sector size : Int) : Ata Unit := do
  xenonAtaRegset .sectors (lowByte size)
  xenonAtaRegset .lbaLow (lowByte sector)
  xenonAtaRegset .lbaMid (lowByte (sector / 2 ^ 8))
  xenonAtaRegset .lbaHigh (lowByte (sector / 2 ^ 16))

/-- `xenon_ata_setaddress`.  Shifts of a negative `int` are arithmetic. -/
def xenonAtaSetaddress (dev : AtaDevice) (sector size : Int) : Ata Int := do
  xenonAtaWaitBusy
  match dev.addressingMode with
  | .chs =>
    -- the register for the number of sectors is not written here
    let number := (sector % 2 ^ 32).toNat
    let sect := number % dev.sectorsPerTrack.toNat + 1
    let cylinder := number / dev.sectorsPerTrack.toNat / dev.heads.toNat
    let head := number / dev.sectorsPerTrack.toNat % dev.heads.toNat
    if sect > dev.sectorsPerTrack.toNat ∨ cylinder > dev.cylinders.toNat ∨
        head > dev.heads.toNat then
      pure (-1)
    else
      xenonAtaRegset .lbaLow (UInt8.ofNat sect)
      xenonAtaRegset .lbaMid (UInt8.ofNat cylinder)
      xenonAtaRegset .lbaHigh (UInt8.ofNat (cylinder / 256))
      xenonAtaRegset .disk (UInt8.ofNat head)
      pure 0
  | .lba =>
    xenonAtaSetlba sector (if size = 256 then 0 else size)
    xenonAtaRegset .disk (0xE0 ||| lowByte (sector / 2 ^ 24 % 16))
    pure 0
  | .lba48 =>
    let size := if size = 65536 then 0 else size
    -- each register takes two bytes, the upper one first
    xenonAtaSetlba (sector / 2 ^ 24) (size / 2 ^ 8)
    xenonAtaSetlba sector size
    xenonAtaRegset .disk 0xE0
    pure 0
  | .other => pure (-1)

/-- `xenon_ata_read_sectors`. -/
def xenonAtaReadSectors (dev : AtaDevice) (startSector sectorSize : UInt32) (buf : Nat) :
    Ata Int := do
  -- an address out of range does not stop the command
  let _ ← xenonAtaSetaddress dev (asInt startSector.toNat) (asInt sectorSize.toNat)
  xenonAtaRegset .status 0x25
  xenonAtaWaitReady
  let r ← xenonAtaDmaRead dev buf (asInt (sectorSize.toNat * 0x200))
  if r ≠ 0 then pure (-1) else pure (asInt sectorSize.toNat)

/-- The loop of `xenon_ata_write_sectors`, with `sect` and the rounds that are left. -/
def writeSectorLoop (buf : Nat → UInt8) : Nat → Nat → Ata Int
  | sect, 0 => pure (asInt sect)
  | sect, k + 1 => do
      let r ← xenonAtaPioWrite (fun i => buf (0x200 * sect + i)) 0x200
      if r ≠ 0 then pure (-1) else writeSectorLoop buf (sect + 1) k

/-- `xenon_ata_write_sectors`; the first sector is an `lba_t`. -/
def xenonAtaWriteSectors (dev : AtaDevice) (startSector : UInt64) (sectorSize : UInt32)
    (buf : Nat → UInt8) : Ata Int := do
  let _ ← xenonAtaSetaddress dev (asInt startSector.toNat) (asInt sectorSize.toNat)
  xenonAtaRegset .status 0x34
  xenonAtaWaitReady
  writeSectorLoop buf 0 sectorSize.toNat

/-! ### The sectors of a disc -/

/-- `xenon_atapi_packet`.  What `xenon_ata_pio_write` returns is not looked at. -/
def xenonAtapiPacket (packet : Nat → UInt8) (dma : Bool) : Ata Unit := do
  xenonAtaRegset .disk 0
  xenonAtaRegset .error (if dma then 1 else 0)
  xenonAtaRegset .sectors 0
  xenonAtaRegset .lbaHigh 0xFF
  xenonAtaRegset .lbaMid 0xFF
  xenonAtaRegset .status 0xA0
  xenonAtaWaitReady
  let _ ← xenonAtaPioWrite packet 12
  pure ()

/-- The packet of `xenon_atapi_request_sense`. -/
def sensePacket : Nat → UInt8
  | 0 => 0x03
  | 4 => 24
  | _ => 0

/-- A byte of a buffer of zeros that words have been read to. -/
def bufferByte (words : List Quad) (k : Nat) : Int :=
  (((words.flatMap Quad.bytes).getD k 0).toNat : Int)

/-- `xenon_atapi_request_sense`. -/
def xenonAtapiRequestSense : Ata Int := do
  xenonAtapiPacket sensePacket false
  xenonAtaWaitReady
  let r ← xenonAtaPioRead 24
  if r.1 ≠ 0 then pure (-1)
  else pure (bufferByte r.2 2 * 2 ^ 16 + bufferByte r.2 12 * 2 ^ 8 + bufferByte r.2 13)

/-- `SK` and `ASC`. -/
def senseKey (sense : Int) : Int := sense / 2 ^ 16 % 256

def senseCode (sense : Int) : Int := sense / 2 ^ 8 % 256

/-- `struct xenon_atapi_read`; the reserved bytes are what was on the stack. -/
def readPacket (stack : Nat → UInt8) (lba length : Nat) : Nat → UInt8
  | 0 => 0x28
  | 2 => UInt8.ofNat (lba / 2 ^ 24)
  | 3 => UInt8.ofNat (lba / 2 ^ 16)
  | 4 => UInt8.ofNat (lba / 2 ^ 8)
  | 5 => UInt8.ofNat lba
  | 7 => UInt8.ofNat (length / 2 ^ 8)
  | 8 => UInt8.ofNat length
  | k => stack k

/-- What follows the label `retry` of `xenon_atapi_read_sectors`, up to the result of
the transfer. -/
def atapiTransfer (dev : AtaDevice) (packet : Nat → UInt8) (sectorSize : UInt32) (buf : Nat) :
    Ata Int := do
  xenonAtapiPacket packet true
  xenonAtaWaitReady
  xenonAtaDmaRead dev buf (asInt (sectorSize.toNat * 2048))

/-- What is made of the sense data; `none` if the drive is becoming ready. -/
def senseResult (sense : Int) : Option Int :=
  if senseKey sense = 0x02 ∧ senseCode sense = 0x3A then some (-8)
  else if (senseKey sense = 0x02 ∧ senseCode sense = 0x4) ∨ senseKey sense = 0x6 then none
  else some (-1)

/-- What follows the label. -/
def atapiAttempt (dev : AtaDevice) (packet : Nat → UInt8) (sectorSize : UInt32) (buf : Nat) :
    Ata (Option Int) := do
  let r ← atapiTransfer dev packet sectorSize buf
  if r ≠ 0 then
    let sense ← xenonAtapiRequestSense
    pure (senseResult sense)
  else pure (some (asInt sectorSize.toNat))

/-- The attempts, with `maxretries`. -/
def atapiRetry (dev : AtaDevice) (packet : Nat → UInt8) (sectorSize : UInt32) (buf : Nat) :
    Nat → Ata Int
  | 0 => do
      let r ← atapiAttempt dev packet sectorSize buf
      match r with
      | some v => pure v
      | none => pure (-1)
  | maxretries + 1 => do
      let r ← atapiAttempt dev packet sectorSize buf
      match r with
      | some v => pure v
      | none => atapiRetry dev packet sectorSize buf maxretries

/-- `xenon_atapi_read_sectors`. -/
def xenonAtapiReadSectors (dev : AtaDevice) (stack : Nat → UInt8) (startSector sectorSize : UInt32)
    (buf : Nat) : Ata Int :=
  atapiRetry dev (readPacket stack startSector.toNat sectorSize.toNat) sectorSize buf 20

/-! ### The callbacks -/

def ataReadsectors (dev : AtaDevice) (sector numSectors : UInt32) (buffer : Nat) : Ata Bool := do
  let r ← xenonAtaReadSectors dev sector numSectors buffer
  if r ≠ 0 then pure true else pure false

def atapiReadsectors (dev : AtaDevice) (stack : Nat → UInt8) (sector numSectors : UInt32)
    (buffer : Nat) : Ata Bool := do
  let r ← xenonAtapiReadSectors dev stack sector numSectors buffer
  if r ≠ 0 then pure true else pure false

def ataWritesectors (dev : AtaDevice) (sector numSectors : UInt32) (buffer : Nat → UInt8) :
    Ata Bool := do
  let r ← xenonAtaWriteSectors dev sector.toUInt64 numSectors buffer
  if r ≠ 0 then pure true else pure false

/-! ### The results of the callbacks -/

variable {d : Drive} {dev : AtaDevice} {buf : Nat} {sector n : UInt32} {packet : Nat → UInt8}

theorem asInt_ne_zero {n : Nat} (h : n % 2 ^ 32 ≠ 0) : asInt n ≠ 0 := by
  rw [asInt]
  split <;> omega

/-- **The rule for the attempts.**  What every attempt gives, with -1 for one
that may be made again, is what the loop gives. -/
theorem post_atapiRetry_of {packet : Nat → UInt8} {n : UInt32} {Q : Int → Drive → Prop}
    (hattempt : ∀ d, Post d (atapiAttempt dev packet n buf) fun r d' => Q (r.getD (-1)) d')
    (retries : Nat) : Post d (atapiRetry dev packet n buf retries) Q := by
  induction retries generalizing d with
  | zero =>
    refine Post.bind (hattempt d) fun r d' h => ?_
    cases r with
    | none | some v => exact Post.pure h
  | succ retries ih =>
    refine Post.bind (hattempt d) fun r d' h => ?_
    cases r with
    | none => exact ih
    | some v => exact Post.pure h

theorem post_callback_true {p : Ata Int} (h : Post d p fun r _ => r ≠ 0) :
    Post d (do let r ← p; if r ≠ 0 then pure true else pure false) fun v _ => v = true := by
  refine Post.bind h fun r d' hr => ?_
  rw [if_pos hr]
  exact Post.pure rfl

theorem sectors_ne_zero {n : UInt32} (hn : n ≠ 0) : asInt n.toNat ≠ 0 := by
  refine asInt_ne_zero ?_
  rw [Nat.mod_eq_of_lt n.toNat_lt]
  exact fun h => hn (UInt32.toNat.inj h)

theorem post_readSectors_ne_zero (hn : n ≠ 0) :
    Post d (xenonAtaReadSectors dev sector n buf) fun r _ => r ≠ 0 := by
  refine Post.bind Post.trivial fun _ d₁ _ => Post.tell_bind ?_
  refine Post.bind Post.trivial fun _ d₂ _ => ?_
  refine Post.bind Post.trivial fun r d₃ _ => ?_
  split
  · exact Post.pure (by decide)
  · exact Post.pure (sectors_ne_zero hn)

theorem post_writeSectorLoop_result (bytes : Nat → UInt8) (sect k : Nat) :
    Post d (writeSectorLoop bytes sect k) fun r _ => r = -1 ∨ r = asInt (sect + k) := by
  induction k generalizing sect d with
  | zero => exact Post.pure (.inr rfl)
  | succ k ih =>
    refine Post.bind Post.trivial fun r d' _ => ?_
    split
    · exact Post.pure (.inl rfl)
    · rw [Nat.add_comm k 1, ← Nat.add_assoc]
      exact ih (sect + 1)

theorem post_writeSectors_ne_zero {sector : UInt64} {bytes : Nat → UInt8} (hn : n ≠ 0) :
    Post d (xenonAtaWriteSectors dev sector n bytes) fun r _ => r ≠ 0 := by
  refine Post.bind Post.trivial fun _ d₁ _ => Post.tell_bind ?_
  refine Post.bind Post.trivial fun _ d₂ _ => ?_
  refine (post_writeSectorLoop_result bytes 0 _).mono fun r d' h => ?_
  rcases h with rfl | rfl
  · decide
  · rw [Nat.zero_add]
    exact sectors_ne_zero hn

theorem senseResult_ne_zero (sense : Int) : (senseResult sense).getD (-1) ≠ 0 := by
  rw [senseResult]
  split
  · decide
  · split
    · decide
    · decide

theorem post_atapiAttempt_ne_zero {n : UInt32} (hn : n ≠ 0) :
    Post d (atapiAttempt dev packet n buf) fun r _ => r.getD (-1) ≠ 0 := by
  refine Post.bind Post.trivial fun r d₁ _ => ?_
  split
  · exact Post.bind Post.trivial fun sense d₂ _ => Post.pure (senseResult_ne_zero sense)
  · exact Post.pure (sectors_ne_zero hn)

theorem post_atapiRetry_ne_zero {n : UInt32} (hn : n ≠ 0) (retries : Nat) :
    Post d (atapiRetry dev packet n buf retries) fun r _ => r ≠ 0 :=
  post_atapiRetry_of (fun _ => post_atapiAttempt_ne_zero hn) retries

/-- **The callbacks return `true`** for every range but the empty one, whatever
the drive answers. -/
theorem callbacks_true (dev : AtaDevice) (d : Drive) (stack bytes : Nat → UInt8)
    (sector numSectors : UInt32) (buffer : Nat) (hn : numSectors ≠ 0) :
    Post d (ataReadsectors dev sector numSectors buffer) (fun v _ => v = true) ∧
      Post d (atapiReadsectors dev stack sector numSectors buffer) (fun v _ => v = true) ∧
      Post d (ataWritesectors dev sector numSectors bytes) (fun v _ => v = true) :=
  ⟨post_callback_true (post_readSectors_ne_zero hn),
    post_callback_true (post_atapiRetry_ne_zero hn 20),
    post_callback_true (post_writeSectors_ne_zero hn)⟩

/-! ### Drives and their answers -/

def freshDrive : Drive where
  sectors := (0, 0)
  lbaLow := (0, 0)
  lbaMid := (0, 0)
  lbaHigh := (0, 0)
  disk := 0
  features := 0
  table := []
  command := 0
  data := []
  transfer := none
  ended := false
  failed := false

/-- A drive with the addressing mode, 1000 cylinders, 16 heads and 63 sectors on a track. -/
def geometry (mode : AddressingMode) : AtaDevice := ⟨mode, 1000, 16, 63, []⟩

theorem callbacks_true_disk :
    Post freshDrive (ataReadsectors (geometry .lba48) 5 1 0x10000) (fun v _ => v = true) ∧
      Post freshDrive (atapiReadsectors (geometry .lba48) (fun _ => 0) 5 1 0x10000) (fun v _ => v = true) ∧
      Post freshDrive (ataWritesectors (geometry .lba48) 5 1 fun _ => 0) (fun v _ => v = true) :=
  callbacks_true (geometry .lba48) freshDrive (fun _ => 0) (fun _ => 0) 5 1 0x10000 (by decide)

/-- Answers of one byte each. -/
def byteAnswers (l : List UInt8) : List Quad := l.map fun v => (v, 0, 0, 0)

end LibXenon
