/-
LibXenon/AtaAddress.lean

The address registers when a command is given.

`xenon_ata_setaddress` encodes a sector and a number of sectors in the registers,
in the layout of the addressing mode of the drive.  `AtaDevice.decode` reads them
back.  A command should be given only if the registers say what was asked for, and
there should be no command, but an error, for what a mode cannot express.

The functions that give the commands do not look at what `xenon_ata_setaddress`
returns, so a command is given in any case (`issue_ends`), and everything depends on
what the registers hold then:

* a sector is an `int` on the way, so 48-bit addresses have the sign in their upper
  bits;
* 28-bit addresses and the number of sectors are cut to what the registers hold;
* for CHS the number of sectors is not written at all.

`sectors_addressed_iff` is the exact condition.
-/
import LibXenon.AtaSectors

namespace LibXenon

open Dialogue

/-! ### Commands for sectors -/

/-- The part of both functions that gives the command. -/
def ataIssue (dev : AtaDevice) (sector size : Int) (command : UInt8) : Ata Unit := do
  let _ ← xenonAtaSetaddress dev sector size
  xenonAtaRegset .status command

theorem readSectors_eq_issue (dev : AtaDevice) (startSector sectorSize : UInt32) (buf : Nat) :
    xenonAtaReadSectors dev startSector sectorSize buf
      = (do
          ataIssue dev (asInt startSector.toNat) (asInt sectorSize.toNat) 0x25
          xenonAtaWaitReady
          let r ← xenonAtaDmaRead dev buf (asInt (sectorSize.toNat * 0x200))
          if r ≠ 0 then pure (-1) else pure (asInt sectorSize.toNat)) := by
  simp only [xenonAtaReadSectors, ataIssue, bind_assoc]

theorem writeSectors_eq_issue (dev : AtaDevice) (startSector : UInt64) (sectorSize : UInt32)
    (buf : Nat → UInt8) :
    xenonAtaWriteSectors dev startSector sectorSize buf
      = (do
          ataIssue dev (asInt startSector.toNat) (asInt sectorSize.toNat) 0x34
          xenonAtaWaitReady
          writeSectorLoop buf 0 sectorSize.toNat) := by
  simp only [xenonAtaWriteSectors, ataIssue, bind_assoc]

/-! ### What the registers say -/

/-- A register of one byte for a number of sectors; 0 stands for 256. -/
def byteCount (v : UInt8) : Nat := if v = 0 then 256 else v.toNat

/-- The sector and the number of sectors in the registers, in the layout of the mode.
Bit 6 of the disk register tells LBA from CHS; a CHS address is one of the
geometry. -/
def AtaDevice.decode (dev : AtaDevice) (d : Drive) : Option (Nat × Nat) :=
  match dev.addressingMode with
  | .chs =>
    let sect := d.lbaLow.2.toNat
    let cylinder := d.lbaHigh.2.toNat * 256 + d.lbaMid.2.toNat
    let head := d.disk.toNat % 16
    if d.disk &&& 0x40 = 0 ∧ 0 < sect ∧ sect ≤ dev.sectorsPerTrack.toNat ∧
        head < dev.heads.toNat ∧ cylinder < dev.cylinders.toNat then
      some ((cylinder * dev.heads.toNat + head) * dev.sectorsPerTrack.toNat + (sect - 1),
        byteCount d.sectors.2)
    else none
  | .lba =>
    if d.disk &&& 0x40 ≠ 0 then
      some (d.disk.toNat % 16 * 2 ^ 24 + d.lbaHigh.2.toNat * 2 ^ 16 + d.lbaMid.2.toNat * 2 ^ 8 +
        d.lbaLow.2.toNat, byteCount d.sectors.2)
    else none
  | .lba48 => if d.disk &&& 0x40 ≠ 0 then some (d.address, d.amount) else none
  | .other => none

/-- A mode can express a sector and a number of sectors. -/
def AtaDevice.Expresses (dev : AtaDevice) (sector count : Nat) : Prop :=
  ∃ d, dev.decode d = some (sector, count)

/-- The law for a function that begins with `command`: the command is given only if the
registers decode to what was asked for; and what the mode cannot express is an error. -/
structure AddressedRightly (dev : AtaDevice) (d : Drive) (sector count : Nat)
    (command : Ata Unit) (function : Ata Int) : Prop where
  begins : ∃ rest : Ata Int, function = command >>= fun _ => rest
  command : ∀ answers b, command ⟨answers, d⟩ = some ((), b) →
    dev.decode b.device = some (sector, count)
  error : ¬ dev.Expresses sector count → ∀ answers r b,
    function ⟨answers, d⟩ = some (r, b) → r < 0

/-- The exact condition for the registers to say what was asked for. -/
def AtaDevice.Addresses (dev : AtaDevice) (d : Drive) (sector count : Nat) : Prop :=
  match dev.addressingMode with
  | .chs =>
    -- the number of sectors is what was in the register
    byteCount d.sectors.2 = count ∧
      if sector % 2 ^ 32 / dev.sectorsPerTrack.toNat / dev.heads.toNat ≤ dev.cylinders.toNat then
        sector < 2 ^ 32 ∧ sector % dev.sectorsPerTrack.toNat < 255 ∧
          sector / dev.sectorsPerTrack.toNat % dev.heads.toNat < 16 ∧
          sector / dev.sectorsPerTrack.toNat / dev.heads.toNat < dev.cylinders.toNat
      else
        -- no register is written
        (dev.decode d).map Prod.fst = some sector
  | .lba => sector < 2 ^ 28 ∧ 0 < count ∧ count ≤ 256
  | .lba48 =>
    (sector < 2 ^ 31 ∨ 2 ^ 48 - 2 ^ 31 ≤ sector ∧ sector < 2 ^ 48) ∧ 0 < count ∧ count ≤ 65536
  | .other => False

/-! ### The registers after `xenon_ata_setaddress` -/

/-- The registers for 48-bit addresses. -/
def Drive.addressed (sector size : Int) (d : Drive) : Drive :=
  { d with
    sectors := (lowByte (size / 2 ^ 8), lowByte size)
    lbaLow := (lowByte (sector / 2 ^ 24), lowByte sector)
    lbaMid := (lowByte (sector / 2 ^ 24 / 2 ^ 8), lowByte (sector / 2 ^ 8))
    lbaHigh := (lowByte (sector / 2 ^ 24 / 2 ^ 16), lowByte (sector / 2 ^ 16))
    disk := 0xE0 }

def Drive.setlba (sector size : Int) (d : Drive) : Drive :=
  { d with
    sectors := (d.sectors.2, lowByte size)
    lbaLow := (d.lbaLow.2, lowByte sector)
    lbaMid := (d.lbaMid.2, lowByte (sector / 2 ^ 8))
    lbaHigh := (d.lbaHigh.2, lowByte (sector / 2 ^ 16)) }

/-- What `xenon_ata_setaddress` leaves in the registers. -/
def Drive.afterSetaddress (dev : AtaDevice) (sector size : Int) (d : Drive) : Drive :=
  match dev.addressingMode with
  | .chs =>
    let number := (sector % 2 ^ 32).toNat
    let sect := number % dev.sectorsPerTrack.toNat + 1
    let cylinder := number / dev.sectorsPerTrack.toNat / dev.heads.toNat
    let head := number / dev.sectorsPerTrack.toNat % dev.heads.toNat
    if sect > dev.sectorsPerTrack.toNat ∨ cylinder > dev.cylinders.toNat ∨
        head > dev.heads.toNat then d
    else
      { d with
        lbaLow := (d.lbaLow.2, UInt8.ofNat sect)
        lbaMid := (d.lbaMid.2, UInt8.ofNat cylinder)
        lbaHigh := (d.lbaHigh.2, UInt8.ofNat (cylinder / 256))
        disk := UInt8.ofNat head }
  | .lba =>
    { d.setlba sector (if size = 256 then 0 else size) with
      disk := 0xE0 ||| lowByte (sector / 2 ^ 24 % 16) }
  | .lba48 => d.addressed sector (if size = 65536 then 0 else size)
  | .other => d

variable {dev : AtaDevice} {d : Drive} {sector size : Int} {command : UInt8}
variable {strict : Bool} {P : Drive → Prop} {S : Script Quad}

/-- An error bit is not set, if it matters. -/
def calm (strict : Bool) (bit : UInt8) : Bool := !strict || bit == 0

/-- Statuses up to one with what is waited for. -/
def waitAnswers (strict : Bool) (good : Quad → Bool) (S : Script Quad) : Script Quad :=
  Script.upTo good (fun q => calm strict (q.1 &&& 1)) S

/-- A condition on the drive that the report of an error makes false, if it matters. -/
def Hears (strict : Bool) (P : Drive → Prop) : Prop :=
  ∀ (bit : UInt8) (d : Drive), P (d.heard (bit ≠ 0)) ↔ P d ∧ calm strict bit = true

theorem decides_wait {good : Quad → Bool} (hP : Hears strict P) :
    Decides d (P d) (fun _ => P)
      (do let _ ← askUntil (fun q => Drive.get .status q.1) good; pure ()) (fun _ => S)
      (waitAnswers strict good S) :=
  (Decides.askUntil fun q d => hP (q.1 &&& 1) d).bind fun _ _ => Decides.pure

theorem decides_setlba :
    Decides d (P (d.setlba sector size)) (fun _ => P) (xenonAtaSetlba sector size) (fun _ => S) S :=
  Decides.tell_bind (Decides.tell_bind (Decides.tell_bind Decides.tell))

theorem afterSetaddress_heard (e : Bool) :
    (d.heard e).afterSetaddress dev sector size
      = (d.afterSetaddress dev sector size).heard e := by
  simp only [Drive.afterSetaddress]
  cases dev.addressingMode with
  | chs =>
    dsimp only
    split <;> rfl
  | lba | lba48 | other => rfl

theorem decides_setaddress (hP : ∀ e d, P (Drive.heard e d) ↔ P d) :
    Decides d (P (d.afterSetaddress dev sector size)) (fun _ => P)
      (xenonAtaSetaddress dev sector size) (fun _ => S)
      (waitAnswers false (fun q => q.1 &&& 0x80 = 0) S) := by
  refine (decides_wait (P := fun d => P (d.afterSetaddress dev sector size))
    fun bit d => ?_).bind fun _ d => ?_
  · dsimp only
    rw [afterSetaddress_heard, hP]
    exact (and_iff_left rfl).symm
  · simp only [Drive.afterSetaddress]
    cases dev.addressingMode with
    | chs =>
      dsimp only
      split
      · exact Decides.pure
      · exact Decides.tell_bind (Decides.tell_bind (Decides.tell_bind (Decides.tell_bind
          Decides.pure)))
    | lba =>
      exact (decides_setlba (P := fun d => P (d.set .disk _))).bind fun _ _ =>
        Decides.tell_bind Decides.pure
    | lba48 =>
      refine (decides_setlba (P := fun d => P ((d.setlba _ _).set .disk _))).bind fun _ _ => ?_
      exact (decides_setlba (P := fun d => P (d.set .disk _))).bind fun _ _ =>
        Decides.tell_bind Decides.pure
    | other => exact Decides.pure

theorem issue_ends (dev : AtaDevice) (d : Drive) (sector size : Int) (command : UInt8) :
    ∃ b, ataIssue dev sector size command ⟨[(0, 0, 0, 0)], d⟩ = some ((), b) := by
  rw [ataIssue, xenonAtaSetaddress]
  cases dev.addressingMode with
  | chs =>
    dsimp only
    split
    · exact ⟨_, rfl⟩
    · exact ⟨_, rfl⟩
  | lba | lba48 | other => exact ⟨_, rfl⟩

/-! ### Encoding and decoding -/

theorem toNat_lowByte (x : Int) : ((lowByte x).toNat : Int) = x % 256 := by
  rw [lowByte, UInt8.toNat_ofNat']
  omega

theorem byteCount_eq (v : UInt8) : byteCount v = if v.toNat = 0 then 256 else v.toNat := by
  have hzero : v = 0 ↔ v.toNat = 0 := UInt8.toNat_inj.symm
  exact if_congr hzero rfl rfl

theorem asInt_cases (n : Nat) :
    (n % 2 ^ 32 < 2 ^ 31 ∧ asInt n = (n % 2 ^ 32 : Nat)) ∨
      (2 ^ 31 ≤ n % 2 ^ 32 ∧ asInt n = (n % 2 ^ 32 : Nat) - 2 ^ 32) := by
  rw [asInt]
  split
  · exact .inl ⟨by assumption, rfl⟩
  · exact .inr ⟨by omega, rfl⟩

theorem disk_lba {v : UInt8} (hv : v.toNat < 16) :
    (0xE0 ||| v) &&& 0x40 ≠ 0 ∧ (0xE0 ||| v).toNat % 16 = v.toNat := by
  have hall : ∀ n < 16, (0xE0 ||| UInt8.ofNat n) &&& 0x40 ≠ 0 ∧
      (0xE0 ||| UInt8.ofNat n).toNat % 16 = (UInt8.ofNat n).toNat := by decide
  have hdisk := hall v.toNat hv
  rw [UInt8.ofNat_toNat] at hdisk
  exact hdisk

theorem count_lba (count : Nat) (hcount : count < 2 ^ 32) :
    byteCount (lowByte (if asInt count = 256 then 0 else asInt count)) = count ↔
      0 < count ∧ count ≤ 256 := by
  have hx := asInt_cases count
  obtain ⟨n, hn⟩ : ∃ n : Int, n = if asInt count = 256 then 0 else asInt count := ⟨_, rfl⟩
  have hb := toNat_lowByte n
  rw [← hn, byteCount_eq]
  split at hn <;> split <;> omega

theorem amount_lba48 (count : Nat) (hcount : count < 2 ^ 32) :
    (d.addressed sector (if asInt count = 65536 then 0 else asInt count)).amount = count ↔
      0 < count ∧ count ≤ 65536 := by
  have hx := asInt_cases count
  obtain ⟨n, hn⟩ : ∃ n : Int, n = if asInt count = 65536 then 0 else asInt count := ⟨_, rfl⟩
  have h1 := toNat_lowByte (n / 2 ^ 8)
  have h2 := toNat_lowByte n
  rw [← hn, Drive.amount, Drive.addressed]
  dsimp only
  split at hn <;> split <;> omega

theorem address_eq_mod (z n : Int) : ((d.addressed z n).address : Int) = z % 2 ^ 48 := by
  have h1 := toNat_lowByte (z / 2 ^ 24 / 2 ^ 16)
  have h2 := toNat_lowByte (z / 2 ^ 24 / 2 ^ 8)
  have h3 := toNat_lowByte (z / 2 ^ 24)
  have h4 := toNat_lowByte (z / 2 ^ 16)
  have h5 := toNat_lowByte (z / 2 ^ 8)
  have h6 := toNat_lowByte z
  rw [Drive.address, Drive.addressed]
  dsimp only
  omega

theorem address_lba48 (sector : Nat) (n : Int) :
    (d.addressed (asInt sector) n).address = sector ↔
      sector < 2 ^ 31 ∨ 2 ^ 48 - 2 ^ 31 ≤ sector ∧ sector < 2 ^ 48 := by
  have hx := asInt_cases sector
  have hmod := address_eq_mod (d := d) (asInt sector) n
  omega

theorem address_lba (sector : Nat) :
    (lowByte (asInt sector / 2 ^ 24 % 16)).toNat * 2 ^ 24 +
      (lowByte (asInt sector / 2 ^ 16)).toNat * 2 ^ 16 +
      (lowByte (asInt sector / 2 ^ 8)).toNat * 2 ^ 8 + (lowByte (asInt sector)).toNat = sector ↔
      sector < 2 ^ 28 := by
  have hx := asInt_cases sector
  have h1 := toNat_lowByte (asInt sector / 2 ^ 24 % 16)
  have h4 := toNat_lowByte (asInt sector / 2 ^ 16)
  have h5 := toNat_lowByte (asInt sector / 2 ^ 8)
  have h6 := toNat_lowByte (asInt sector)
  omega

theorem chs_eq_iff {heads spt c h s sector : Nat} (hh : h < heads) (hs : s < spt) :
    (c * heads + h) * spt + s = sector ↔
      c = sector / spt / heads ∧ h = sector / spt % heads ∧ s = sector % spt := by
  constructor
  · intro heq
    have htrack : sector / spt = c * heads + h ∧ sector % spt = s := by
      refine (Nat.div_mod_unique (by omega)).mpr ⟨?_, hs⟩
      rw [← heq, Nat.add_comm, Nat.mul_comm]
    have hcylinder : sector / spt / heads = c ∧ sector / spt % heads = h := by
      refine (Nat.div_mod_unique (by omega)).mpr ⟨?_, hh⟩
      rw [htrack.1, Nat.add_comm, Nat.mul_comm]
    obtain ⟨-, hmod⟩ := htrack
    obtain ⟨hdiv', hmod'⟩ := hcylinder
    exact ⟨hdiv'.symm, hmod'.symm, hmod.symm⟩
  · rintro ⟨rfl, rfl, rfl⟩
    rw [Nat.div_add_mod', Nat.div_add_mod']

theorem disk_chs {head : Nat} (hhead : head < 16) : UInt8.ofNat head &&& 0x40 = 0 := by
  have hall : ∀ n < 16, UInt8.ofNat n &&& 0x40 = 0 := by decide
  exact hall head hhead

/-- The cylinder, head and sector of `n`, cut to the registers, are those of `sector`. -/
theorem chs_registers_iff {heads spt sector n : Nat} (hheads : 0 < heads) (hspt : 0 < spt)
    (hn : n = sector % 2 ^ 32) :
    (0 < (n % spt + 1) % 256 ∧ (n % spt + 1) % 256 ≤ spt ∧ n / spt % heads % 256 % 16 < heads) ∧
      (n / spt / heads * heads + n / spt % heads % 256 % 16) * spt + ((n % spt + 1) % 256 - 1)
        = sector ↔
    sector < 2 ^ 32 ∧ sector % spt < 255 ∧ sector / spt % heads < 16 := by
  have hsect := Nat.mod_lt n hspt
  have hhead := Nat.mod_lt (n / spt) hheads
  constructor
  · rintro ⟨⟨hpos, hle, hlt⟩, heq⟩
    -- what the registers lose makes the number smaller, so `sector` is below 2^32
    have hsmall : sector ≤ n := by
      have hwhole : (n / spt / heads * heads + n / spt % heads) * spt + n % spt = n :=
        (chs_eq_iff hhead hsect).mpr ⟨rfl, rfl, rfl⟩
      have hcut : n / spt % heads % 256 % 16 ≤ n / spt % heads :=
        Nat.le_trans (Nat.mod_le _ _) (Nat.mod_le _ _)
      have hmul := Nat.mul_le_mul_right spt (Nat.add_le_add_left hcut (n / spt / heads * heads))
      omega
    obtain ⟨-, hh, hs⟩ := (chs_eq_iff hlt (by omega)).mp heq
    refine ⟨by omega, by omega, by omega⟩
  · rintro ⟨hlt, hs, hh⟩
    obtain rfl : n = sector := by omega
    have hheadeq : n / spt % heads % 256 % 16 = n / spt % heads := by omega
    have hsecteq : (n % spt + 1) % 256 - 1 = n % spt := by omega
    refine ⟨⟨by omega, by omega, by omega⟩, ?_⟩
    rw [hheadeq, hsecteq]
    exact (chs_eq_iff hhead hsect).mpr ⟨rfl, rfl, rfl⟩

theorem decode_chs {sector count : Nat} (hmode : dev.addressingMode = .chs)
    (hheads : dev.heads.toNat ≠ 0) (hspt : dev.sectorsPerTrack.toNat ≠ 0) :
    dev.decode (d.afterSetaddress dev (asInt sector) (asInt count)) = some (sector, count) ↔
      dev.Addresses d sector count := by
  have hnumber : (asInt sector % 2 ^ 32).toNat = sector % 2 ^ 32 := by
    have hx := asInt_cases sector
    omega
  have hcyl : dev.cylinders.toNat < 65536 := dev.cylinders.toNat_lt
  simp only [AtaDevice.Addresses, hmode, Drive.afterSetaddress, hnumber]
  have hsect := Nat.mod_lt (sector % 2 ^ 32) (Nat.pos_of_ne_zero hspt)
  have hhead := Nat.mod_lt (sector % 2 ^ 32 / dev.sectorsPerTrack.toNat) (Nat.pos_of_ne_zero hheads)
  by_cases hrange : sector % 2 ^ 32 / dev.sectorsPerTrack.toNat / dev.heads.toNat
      ≤ dev.cylinders.toNat
  · rw [if_pos hrange, if_neg (by omega)]
    -- the address is accepted: the registers say the sector if its parts fit
    generalize hn : sector % 2 ^ 32 = n at hrange hsect hhead ⊢
    have hregs := chs_registers_iff (Nat.pos_of_ne_zero hheads) (Nat.pos_of_ne_zero hspt) hn.symm
    have hword : ∀ c < 65536, c / 256 % 2 ^ 8 * 256 + c % 2 ^ 8 = c := fun c hc => by omega
    have hcylinder := hword _ (Nat.lt_of_le_of_lt hrange hcyl)
    simp only [AtaDevice.decode, hmode, UInt8.toNat_ofNat', hcylinder]
    constructor
    · intro h
      split at h
      · rename_i hvalid
        obtain ⟨-, hpos, hle, hlt, hcyls⟩ := hvalid
        obtain ⟨hsector, hcount⟩ := Prod.mk.inj (Option.some.inj h)
        obtain ⟨hword, hs, hh⟩ := hregs.mp ⟨⟨hpos, hle, hlt⟩, hsector⟩
        obtain rfl : n = sector := by omega
        exact ⟨hcount, hword, hs, hh, hcyls⟩
      · cases h
    · rintro ⟨hcount, hword, hs, hh, hcyls⟩
      obtain ⟨⟨hpos, hle, hlt⟩, hsector⟩ := hregs.mpr ⟨hword, hs, hh⟩
      obtain rfl : n = sector := by omega
      rw [if_pos ⟨disk_chs hh, hpos, hle, hlt, hcyls⟩, hcount]
      exact congrArg (fun x => some (x, count)) hsector
  · rw [if_neg hrange, if_pos (by omega)]
    -- it is refused: the registers say what they said before
    have hdecode : ∀ p, dev.decode d = some p → p.2 = byteCount d.sectors.2 := by
      intro p hp
      simp only [AtaDevice.decode, hmode] at hp
      split at hp
      · cases hp
        rfl
      · cases hp
    rcases hd : dev.decode d with - | ⟨a, b⟩
    · simp
    · have hb := hdecode _ hd
      dsimp only at hb
      simp only [Option.some.injEq, Prod.mk.injEq, Option.map_some, hb]
      exact and_comm

theorem decode_afterSetaddress_iff {sector count : Nat} (hheads : dev.heads.toNat ≠ 0)
    (hspt : dev.sectorsPerTrack.toNat ≠ 0) (hcount : count < 2 ^ 32) :
    dev.decode (d.afterSetaddress dev (asInt sector) (asInt count)) = some (sector, count) ↔
      dev.Addresses d sector count := by
  cases hmode : dev.addressingMode with
  | chs => exact decode_chs hmode hheads hspt
  | lba =>
    simp only [AtaDevice.decode, Drive.afterSetaddress, Drive.setlba, AtaDevice.Addresses, hmode]
    have hsmall : (lowByte (asInt sector / 2 ^ 24 % 16)).toNat < 16 := by
      have hb := toNat_lowByte (asInt sector / 2 ^ 24 % 16)
      omega
    obtain ⟨hbit, hlow⟩ := disk_lba hsmall
    rw [if_pos hbit, hlow, Option.some.injEq, Prod.mk.injEq, address_lba, count_lba _ hcount]
  | lba48 =>
    simp only [AtaDevice.decode, Drive.afterSetaddress, AtaDevice.Addresses, hmode]
    have hdisk : (d.addressed (asInt sector)
        (if asInt count = 65536 then 0 else asInt count)).disk &&& 0x40 ≠ 0 :=
      show (0xE0 : UInt8) &&& 0x40 ≠ 0 by decide
    rw [if_pos hdisk, Option.some.injEq, Prod.mk.injEq, address_lba48, amount_lba48 _ hcount]
  | other => simp [AtaDevice.decode, AtaDevice.Addresses, hmode]

/-! ### Commands -/

theorem post_issue_decode :
    Post d (ataIssue dev sector size command) fun _ d' =>
      dev.decode d' = dev.decode (d.afterSetaddress dev sector size) := by
  refine Post.bind ((decides_setaddress (P := fun d' => dev.decode d' =
    dev.decode (d.afterSetaddress dev sector size)) fun _ _ => Iff.rfl).post
      (decides_setaddress (P := fun _ => True) fun _ _ => Iff.rfl) rfl) fun _ d' h => Post.tell ?_
  exact h

theorem addressedRightly_iff {sector count : Nat} {function : Ata Int}
    (hheads : dev.heads ≠ 0) (hspt : dev.sectorsPerTrack ≠ 0) (hcount : count < 2 ^ 32)
    (hbegins : ∃ rest : Ata Int,
      function = ataIssue dev (asInt sector) (asInt count) command >>= fun _ => rest) :
    AddressedRightly dev d sector count (ataIssue dev (asInt sector) (asInt count) command)
      function ↔ dev.Addresses d sector count := by
  have hheads' : dev.heads.toNat ≠ 0 := fun h => hheads (UInt16.toNat_inj.mp h)
  have hspt' : dev.sectorsPerTrack.toNat ≠ 0 := fun h => hspt (UInt16.toNat_inj.mp h)
  rw [← decode_afterSetaddress_iff hheads' hspt' hcount]
  constructor
  · intro h
    obtain ⟨b, hb⟩ := issue_ends dev d (asInt sector) (asInt count) command
    rw [← post_issue_decode _ _ _ hb]
    exact h.command _ b hb
  · intro h
    refine ⟨hbegins, fun answers b hb => ?_, fun hnot => absurd ⟨_, h⟩ hnot⟩
    rw [post_issue_decode _ _ _ hb]
    exact h

/-- **Addresses.**  A call gives its command only if the registers decode to the sector and
the number of sectors, and reports what the mode cannot express as an error, if and only
if the condition holds of the sector, the number and the registers before the call. -/
theorem sectors_addressed_iff (dev : AtaDevice) (d : Drive) (hheads : dev.heads ≠ 0)
    (hspt : dev.sectorsPerTrack ≠ 0) :
    (∀ (startSector sectorSize : UInt32) (buf : Nat),
      AddressedRightly dev d startSector.toNat sectorSize.toNat
          (ataIssue dev (asInt startSector.toNat) (asInt sectorSize.toNat) 0x25)
          (xenonAtaReadSectors dev startSector sectorSize buf) ↔
        dev.Addresses d startSector.toNat sectorSize.toNat) ∧
    (∀ (startSector : UInt64) (sectorSize : UInt32) (buf : Nat → UInt8),
      AddressedRightly dev d startSector.toNat sectorSize.toNat
          (ataIssue dev (asInt startSector.toNat) (asInt sectorSize.toNat) 0x34)
          (xenonAtaWriteSectors dev startSector sectorSize buf) ↔
        dev.Addresses d startSector.toNat sectorSize.toNat) := by
  constructor
  · intro startSector sectorSize buf
    exact addressedRightly_iff hheads hspt sectorSize.toNat_lt
      ⟨_, readSectors_eq_issue dev startSector sectorSize buf⟩
  · intro startSector sectorSize buf
    exact addressedRightly_iff hheads hspt sectorSize.toNat_lt
      ⟨_, writeSectors_eq_issue dev startSector sectorSize buf⟩

/-- The last sector of a 28-bit address is read rightly. -/
theorem last_lba_addressed :
    AddressedRightly (geometry .lba) freshDrive 0xFFFFFFF 256
      (ataIssue (geometry .lba) (asInt 0xFFFFFFF) (asInt 256) 0x25)
      (xenonAtaReadSectors (geometry .lba) 0xFFFFFFF 256 0) :=
  ((sectors_addressed_iff (geometry .lba) freshDrive (by decide) (by decide)).1
    0xFFFFFFF 256 0).mpr ⟨by decide, by decide, by decide⟩

theorem lba_of_decode {sector count : Nat} (hmode : dev.addressingMode = .lba)
    (h : dev.decode d = some (sector, count)) : sector < 2 ^ 28 := by
  simp only [AtaDevice.decode, hmode] at h
  split at h
  · injection h with h
    obtain ⟨rfl, -⟩ := Prod.mk.inj h
    have hlow := d.lbaLow.2.toNat_lt
    have hmid := d.lbaMid.2.toNat_lt
    have hhigh := d.lbaHigh.2.toNat_lt
    omega
  · nomatch h

/-- One sector further the registers hold sector 0, which is read without an error. -/
theorem beyond_lba_reads_zero :
    ¬ (geometry .lba).Expresses 0x10000000 1 ∧
    (ataIssue (geometry .lba) (asInt 0x10000000) (asInt 1) 0x25
        ⟨[(0x40, 0, 0, 0)], freshDrive⟩).map (fun r => (geometry .lba).decode r.2.device)
      = some (some (0, 1)) ∧
    (xenonAtaReadSectors (geometry .lba) 0x10000000 1 0
        ⟨List.replicate 6 (0x40, 0, 0, 0), freshDrive⟩).map Prod.fst = some 1 := by
  refine ⟨?_, by decide +kernel, by decide +kernel⟩
  rintro ⟨d, h⟩
  exact absurd (lba_of_decode rfl h) (by decide)

end LibXenon
