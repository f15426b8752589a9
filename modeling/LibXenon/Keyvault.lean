/-
LibXenon/Keyvault.lean

Decrypting the keyvault, `kv_read` of xb360.c, with the cipher of rc4.c.

The keyvault has 0x4000 bytes, at an offset in the flash that is stored in the
first page.  Its first sixteen bytes are a hash of the rest, keyed with the CPU
key, and the rest is encrypted with a key that is made from the hash.  `kv_read`
collects the pages, decrypts them in place and computes the hash once more.
The hash function is a parameter.

The CPU key comes from the fuses, or from a page of the flash that stands for
them; if that page is not there, it is whatever the stack holds.
-/
import LibXenon.Bits
import LibXenon.Sfcx
import LibXenon.StreamCipher
import Mathlib.Algebra.Group.Int.Defs
import Mathlib.Algebra.GroupWithZero.Nat

namespace LibXenon

open ByteMemory StreamCipher

/-! ### The cipher -/

/-- The array of rc4.c.  All its indices are taken modulo 256. -/
abbrev Rc4State := Byte → Byte

def rc4Swap (state : Rc4State) (i j : Byte) : Rc4State :=
  Function.update (Function.update state i (state j)) j (state i)

/-- The first loop of `rc4_init`. -/
def rc4Fill : Nat → Nat → Rc4State → Rc4State
  | 0, _, state => state
  | n + 1, i, state =>
    rc4Fill n (i + 1) (Function.update state (BitVec.ofNat 8 i) (BitVec.ofNat 8 i))

/-- The second loop. -/
def rc4Schedule (key : Nat → Byte) (len : Nat) : Nat → Nat → Byte → Rc4State → Rc4State
  | 0, _, _, state => state
  | n + 1, i, j, state =>
    let j := j + state (BitVec.ofNat 8 i) + key (i % len)
    rc4Schedule key len n (i + 1) j (rc4Swap state (BitVec.ofNat 8 i) j)

def rc4Init (state : Rc4State) (key : Nat → Byte) (len : Nat) : Rc4State :=
  rc4Schedule key len 256 0 0 (rc4Fill 256 0 state)

/-- The variables of the loop of `rc4_crypt`. -/
structure Rc4 where
  i : Byte
  j : Byte
  state : Rc4State

/-- A turn of the loop, with the byte that the data is combined with. -/
def Rc4.next (s : Rc4) : Rc4 × Byte :=
  let i := s.i + 1
  let j := s.j + s.state i
  let state := rc4Swap s.state i j
  ({ i, j, state }, state (state i + state j))

/-- `rc4_crypt`, on the bytes of a memory from `x` on. -/
def rc4Crypt (state : Rc4State) (data : Nat → Byte) (x len : Nat) : Nat → Byte :=
  (crypt Rc4.next (· ^^^ ·) len x { i := 0, j := 0, state } data).2

theorem rc4Fill_apply (n i : Nat) (state : Rc4State) (h : i + n ≤ 256) (b : Byte) :
    rc4Fill n i state b = if i ≤ b.toNat ∧ b.toNat < i + n then b else state b := by
  induction n generalizing i state with
  | zero => rw [rc4Fill, if_neg (by omega)]
  | succ n ih =>
    rw [rc4Fill, ih (i + 1) _ (by omega)]
    by_cases hb : b = BitVec.ofNat 8 i
    · have hi : b.toNat = i := by
        rw [hb, BitVec.toNat_ofNat]
        omega
      rw [if_neg (by omega), if_pos (by omega), hb, Function.update_self]
    · have hi : b.toNat ≠ i := fun e => hb (by rw [← e, BitVec.ofNat_toNat, BitVec.setWidth_eq])
      rw [Function.update_of_ne hb]
      by_cases hin : i ≤ b.toNat ∧ b.toNat < i + (n + 1)
      · rw [if_pos (by omega), if_pos hin]
      · rw [if_neg (by omega), if_neg hin]

theorem rc4Init_state (state state' : Rc4State) (key : Nat → Byte) (len : Nat) :
    rc4Init state key len = rc4Init state' key len := by
  have hfill (state : Rc4State) : rc4Fill 256 0 state = id := by
    funext b
    rw [rc4Fill_apply 256 0 state (Nat.le_refl 256), if_pos ⟨Nat.zero_le _, by omega⟩, id]
  rw [rc4Init, rc4Init, hfill, hfill]

/-! ### The CPU key -/

/-- The bytes of a 64-bit word in memory. -/
def wordBytes (w : BitVec 64) : List Byte :=
  (List.range 8).map fun k => (w >>> (8 * (7 - k))).setWidth 8

/-- `cpu_get_key`. -/
def cpuGetKey (fuses : Nat → BitVec 64) (data : Nat → Byte) : Nat → Byte :=
  store (store data 0 (wordBytes (fuses 3))) 8 (wordBytes (fuses 5))

/-- `STATUS_ERROR`. -/
def statusError : BitVec 32 := 0x800 ||| 0x80 ||| 0x40 ||| 0x20 ||| 0x1C ||| 0x2

/-- The flash as `kv_read` sees it: its logical bytes by their 32-bit address,
and the status of the read of the page with the virtual fuses. -/
structure KvFlash where
  bytes : Nat → Byte
  status : BitVec 32

def vfusesOffset : Nat := 0x95000

/-- `get_virtual_cpukey`, on an initialised controller. -/
def getVirtualCpukey (flash : KvFlash) (data : Nat → Byte) : Int × (Nat → Byte) :=
  if flash.status &&& statusError ≠ 0 then (2, data)
  else if load flash.bytes vfusesOffset 4 = [0xC0, 0xFF, 0xFF, 0xFF] then
    (0, store data 0 (load flash.bytes (vfusesOffset + 0x20) 0x10))
  else (1, data)

/-! ### Reading the keyvault -/

def kvFlashSize : Nat := 0x4000

def kvFlashPages : Nat := kvFlashSize / 0x200

def kvFlashPtr : Nat := 0x6C

/-- The logical read of `sfcx_read_page`: the register has 32 bits. -/
def KvFlash.readPage (flash : KvFlash) (address : Int) : List Byte :=
  load flash.bytes (address % 2 ^ 32).toNat pageSz

/-- `kv_offset`. -/
def kvOffset (buffer : Nat → Byte) : BitVec 32 :=
  let byte (k : Nat) : BitVec 32 := (buffer (kvFlashPtr + k)).setWidth 32
  (((byte 0 <<< 8 ||| byte 1) <<< 8 ||| byte 2) <<< 8) ||| byte 3

/-- The loop that collects the pages. -/
def kvPages (flash : KvFlash) : Nat → Int → Nat → (Nat → Byte) → (Nat → Byte)
  | 0, _, _, data => data
  | togo + 1, page, cntr, data =>
    kvPages flash togo (page + 1) (cntr + 1)
      (store data (cntr * pageSz) (flash.readPage (page * pageSz)))

/-- A console: the fuses, the flash, and what the stack holds where `cpu_key` is. -/
structure Console where
  sfc : Sfc
  fuses : Nat → BitVec 64
  flash : KvFlash
  stack : Nat → Byte

/-- The key that `kv_read` uses. -/
def Console.cpuKey (console : Console) (virtualcpukey : Bool) : List Byte :=
  load (if virtualcpukey then (getVirtualCpukey console.flash console.stack).2
    else cpuGetKey console.fuses console.stack) 0 0x10

variable (hash : List Byte → List Byte → Vector Byte 20)

/-- `HMAC_SHA1` keeps sixteen bytes of the hash. -/
def hmacSha1 (key message : List Byte) : List Byte := (hash key message).toList.take 0x10

/-- The first half of `kv_read`: the pages of the keyvault are collected. -/
def kvCollect (flash : KvFlash) (data : Nat → Byte) : Nat → Byte :=
  let buffer := store (fun _ => 0) 0 (flash.readPage 0)
  kvPages flash kvFlashPages ((kvOffset buffer).toInt.tdiv pageSz) 0 data

/-- They are decrypted in place. -/
def kvDecrypt (key : List Byte) (data : Nat → Byte) : Nat → Byte :=
  let rc4Key := store (fun _ => 0) 0 (hmacSha1 hash key (load data 0 0x10))
  let rc4State := rc4Init (fun _ => 0) rc4Key 0x10
  rc4Crypt rc4State data 0x10 (kvFlashSize - 0x10)

/-- `kv_read`, with `data` as it leaves it. -/
def kvRead (console : Console) (data : Nat → Byte) (virtualcpukey : Bool) : Int × (Nat → Byte) :=
  if console.sfc.initialized ≠ sfcxInitialized then (1, data)
  else
    let key := console.cpuKey virtualcpukey
    let data := kvDecrypt hash key (kvCollect console.flash data)
    let out := hmacSha1 hash key (load data 0x10 (kvFlashSize - 0x10) ++ [0x07, 0x12])
    -- sixteen bytes are compared one by one
    if load data 0 0x10 = out then (0, data) else (2, data)

/-! ### The offset of the keyvault -/

/-- The number that is stored in a list of bytes, the high byte first. -/
def bigEndian (xs : List Byte) : Nat := xs.foldl (fun n b => n * 256 + b.toNat) 0

theorem toNat_shift_byte {x : BitVec 32} {n : Nat} (hx : x.toNat = n) (hn : n < 2 ^ 24) (b : Byte) :
    (x <<< 8 ||| b.setWidth 32).toNat = n * 256 + b.toNat := by
  have hb : b.toNat < 2 ^ 8 := b.isLt
  have hbyte : (b.setWidth 32).toNat = b.toNat := by
    rw [BitVec.toNat_setWidth, Nat.mod_eq_of_lt (by omega)]
  rw [Bits.toNat_shiftLeft_or (by omega) (by omega), hbyte, hx]
  omega

theorem toNat_kvOffset (buffer : Nat → Byte) :
    (kvOffset buffer).toNat = bigEndian (load buffer kvFlashPtr 4) := by
  have hbytes : load buffer kvFlashPtr 4 = [buffer (kvFlashPtr + 0), buffer (kvFlashPtr + 1),
    buffer (kvFlashPtr + 2), buffer (kvFlashPtr + 3)] := rfl
  have hzero : ((buffer (kvFlashPtr + 0)).setWidth 32).toNat = (buffer (kvFlashPtr + 0)).toNat := by
    rw [BitVec.toNat_setWidth, Nat.mod_eq_of_lt (by omega)]
  have hone := toNat_shift_byte hzero (by omega) (buffer (kvFlashPtr + 1))
  have htwo := toNat_shift_byte hone (by omega) (buffer (kvFlashPtr + 2))
  have hthree := toNat_shift_byte htwo (by omega) (buffer (kvFlashPtr + 3))
  rw [kvOffset, hthree, hbytes]
  simp [bigEndian]

theorem kvOffset_page {buffer : Nat → Byte} {p : Nat}
    (hptr : bigEndian (load buffer kvFlashPtr 4) = p * pageSz) (hpos : p * pageSz < 2 ^ 31) :
    (kvOffset buffer).toInt.tdiv pageSz = p := by
  have hnat : (kvOffset buffer).toNat = p * pageSz := by rw [toNat_kvOffset, hptr]
  have hint : (kvOffset buffer).toInt = (p * pageSz : Nat) := by
    rw [BitVec.toInt_eq_toNat_of_lt (by omega), hnat]
  rw [hint, Int.natCast_mul, Int.mul_tdiv_cancel _ (by decide)]

/-! ### The pages -/

theorem readPage_of_lt (flash : KvFlash) {p : Nat} (h : (p + 1) * pageSz ≤ 2 ^ 32) :
    flash.readPage ((p : Int) * pageSz) = load flash.bytes (p * pageSz) pageSz := by
  have haddress : ((p : Int) * pageSz % 2 ^ 32).toNat = p * pageSz := by
    rw [pageSz] at h ⊢
    omega
  rw [KvFlash.readPage, haddress]

theorem kvPages_loads (flash : KvFlash) (p n c : Nat) (data : Nat → Byte)
    (hfits : (p + c + n) * pageSz ≤ 2 ^ 32)
    (hdata : load data 0 (c * pageSz) = load flash.bytes (p * pageSz) (c * pageSz)) :
    load (kvPages flash n ((p + c : Nat) : Int) c data) 0 ((c + n) * pageSz)
      = load flash.bytes (p * pageSz) ((c + n) * pageSz) := by
  induction n generalizing c data with
  | zero => exact hdata
  | succ n ih =>
    have hpage : flash.readPage (((p + c : Nat) : Int) * pageSz)
        = load flash.bytes (p * pageSz + c * pageSz) pageSz := by
      rw [readPage_of_lt flash (Nat.le_trans (Nat.mul_le_mul_right pageSz (by omega)) hfits),
        Nat.add_mul]
    have hstore : load (store data (0 + c * pageSz)
        (load flash.bytes (p * pageSz + c * pageSz) pageSz)) 0
        (c * pageSz + (load flash.bytes (p * pageSz + c * pageSz) pageSz).length) = _ :=
      load_store_append hdata
    rw [length_load, Nat.zero_add, ← load_add] at hstore
    rw [kvPages, hpage, show c + (n + 1) = c + 1 + n by omega]
    refine ih (c + 1) _ (by rwa [show p + (c + 1) + n = p + c + (n + 1) by omega]) ?_
    rw [Nat.add_mul]
    exact hstore

theorem kvCollect_loads {flash : KvFlash} {p : Nat} (data : Nat → Byte)
    (hptr : bigEndian (load flash.bytes kvFlashPtr 4) = p * pageSz) (hpos : p * pageSz < 2 ^ 31) :
    load (kvCollect flash data) 0 kvFlashSize = load flash.bytes (p * pageSz) kvFlashSize := by
  have hfirst : flash.readPage 0 = load flash.bytes 0 pageSz := by
    have hread := readPage_of_lt flash (p := 0) (by decide)
    rwa [Nat.zero_mul] at hread
  have hbuffer : load (store (fun _ => 0) 0 (flash.readPage 0)) kvFlashPtr 4
      = load flash.bytes kvFlashPtr 4 := by
    have hstored := load_store_self (fun _ => 0) 0 (load flash.bytes 0 pageSz)
    rw [length_load] at hstored
    have hpart := load_part hstored (show kvFlashPtr + 4 ≤ pageSz by decide)
    rwa [Nat.zero_add, ← hfirst] at hpart
  have hpage : (kvOffset (store (fun _ => 0) 0 (flash.readPage 0))).toInt.tdiv pageSz = p :=
    kvOffset_page (by rw [hbuffer, hptr]) hpos
  have hloads := kvPages_loads flash p kvFlashPages 0 data
    (by rw [kvFlashPages, kvFlashSize]; rw [pageSz] at hpos ⊢; omega) (by simp [load])
  rw [kvCollect, hpage]
  rwa [Nat.add_zero, Nat.zero_add] at hloads

/-! ### Decryption -/

/-- A list encrypted by `rc4_init` and `rc4_crypt`, in an array that held
`state`. -/
def rc4Encrypted (state : Rc4State) (key xs : List Byte) : List Byte :=
  load (rc4Crypt (rc4Init state (store (fun _ => 0) 0 key) 0x10) (store (fun _ => 0) 0 xs) 0
    xs.length) 0 xs.length

@[simp] theorem length_rc4Encrypted (state : Rc4State) (key xs : List Byte) :
    (rc4Encrypted state key xs).length = xs.length := by
  rw [rc4Encrypted, length_load]

/-- `rc4_crypt` decrypts. -/
theorem load_rc4Crypt {state : Rc4State} {key xs : List Byte} {data : Nat → Byte} {x : Nat}
    (h : load data x xs.length = rc4Encrypted state key xs) :
    load (rc4Crypt (rc4Init (fun _ => 0) (store (fun _ => 0) 0 key) 0x10) data x xs.length) x
      xs.length = xs := by
  have hxor (a k : Byte) : a ^^^ k ^^^ k = a := by
    rw [BitVec.xor_assoc, BitVec.xor_self, BitVec.xor_zero]
  -- both sides are the same stream, from the same scheduled state
  rw [rc4Encrypted, rc4Init_state state fun _ => 0, rc4Crypt, load_crypt, load_store_self] at h
  rw [rc4Crypt, load_crypt, h, stream_stream hxor]

/-- The hash of a keyvault with the body `b`. -/
def kvHash (key b : List Byte) : List Byte := hmacSha1 hash key (b ++ [0x07, 0x12])

/-- The flash holds a keyvault with the body `b`: its hash, and the body
encrypted with the key that is made from the hash. -/
structure KvStored (key b : List Byte) (offset : Nat) (flash : KvFlash) : Prop where
  pointer : bigEndian (load flash.bytes kvFlashPtr 4) = offset
  positive : offset < 2 ^ 31
  aligned : pageSz ∣ offset
  body : b.length = kvFlashSize - 0x10
  stored : ∃ state, load flash.bytes offset kvFlashSize
    = kvHash hash key b ++ rc4Encrypted state (hmacSha1 hash key (kvHash hash key b)) b

variable {hash}

theorem length_kvHash (key b : List Byte) : (kvHash hash key b).length = 0x10 := by
  rw [kvHash, hmacSha1]
  simp

theorem load_keyvault (m : Nat → Byte) :
    load m 0 kvFlashSize = load m 0 0x10 ++ load m 0x10 (kvFlashSize - 0x10) := by
  rw [show kvFlashSize = 0x10 + (kvFlashSize - 0x10) by decide, load_add, Nat.zero_add,
    Nat.add_sub_cancel_left]

theorem KvStored.decrypt {key b : List Byte} {offset : Nat} {flash : KvFlash}
    (h : KvStored hash key b offset flash) (data : Nat → Byte) :
    load (kvDecrypt hash key (kvCollect flash data)) 0 0x10 = kvHash hash key b
      ∧ load (kvDecrypt hash key (kvCollect flash data)) 0x10 (kvFlashSize - 0x10) = b := by
  obtain ⟨p, hp⟩ : ∃ p, offset = p * pageSz := ⟨_, (Nat.div_mul_cancel h.aligned).symm⟩
  obtain ⟨state, hstored⟩ := h.stored
  have hcollect := kvCollect_loads data (h.pointer.trans hp) (hp ▸ h.positive)
  rw [← hp, hstored, load_keyvault] at hcollect
  -- hash and body are where they were stored, the body still encrypted
  obtain ⟨hhead, hbody⟩ := List.append_inj hcollect (by rw [length_load, length_kvHash])
  rw [kvDecrypt, hhead, ← h.body]
  rw [← h.body] at hbody
  exact ⟨by rw [rc4Crypt, load_crypt_apart _ _ (by decide), hhead], load_rc4Crypt hbody⟩

variable (hash) in
/-- **`kv_read` decrypts a keyvault that is stored in the flash, and returns 0
only if the hash of what it leaves is right.** -/
theorem kvRead_keyvault (console : Console) (data : Nat → Byte) (virtualcpukey : Bool) :
    (∀ b offset, console.sfc.initialized = sfcxInitialized →
        KvStored hash (console.cpuKey virtualcpukey) b offset console.flash →
        ∃ data', kvRead hash console data virtualcpukey = (0, data')
          ∧ load data' 0 kvFlashSize = kvHash hash (console.cpuKey virtualcpukey) b ++ b)
      ∧ ∀ data', kvRead hash console data virtualcpukey = (0, data') →
        load data' 0 0x10 = kvHash hash (console.cpuKey virtualcpukey)
          (load data' 0x10 (kvFlashSize - 0x10)) := by
  constructor
  · intro b offset hinit hstored
    obtain ⟨hhead, hbody⟩ := hstored.decrypt data
    refine ⟨kvDecrypt hash (console.cpuKey virtualcpukey) (kvCollect console.flash data), ?_, ?_⟩
    · rw [kvRead, if_neg (not_not_intro hinit)]
      refine if_pos ?_
      rw [hhead, hbody, kvHash]
    · rw [load_keyvault, hhead, hbody]
  · intro data' hread
    rw [kvRead] at hread
    split at hread
    · exact absurd (Prod.mk.inj hread).1 (by decide)
    dsimp only at hread
    split at hread
    · next hmatch =>
        rw [(Prod.mk.inj hread).2] at hmatch
        exact hmatch
    · exact absurd (Prod.mk.inj hread).1 (by decide)

variable (hash) in
/-- A flash with a keyvault at 0x4000. -/
def vaultFlash (key b : List Byte) : KvFlash where
  bytes := store (store (fun _ => 0) kvFlashPtr [0x00, 0x00, 0x40, 0x00]) 0x4000
    (kvHash hash key b ++ rc4Encrypted (fun _ => 0) (hmacSha1 hash key (kvHash hash key b)) b)
  status := 0

theorem vaultFlash_stored (key : List Byte) {b : List Byte} (hb : b.length = kvFlashSize - 0x10) :
    KvStored hash key b 0x4000 (vaultFlash hash key b) := by
  refine ⟨?_, by decide, by decide, hb, fun _ => 0, ?_⟩
  · have hpointer := load_store_self (fun _ => (0 : Byte)) kvFlashPtr [0x00, 0x00, 0x40, 0x00]
    exact (congrArg bigEndian hpointer).trans (by decide)
  · have hlen : (kvHash hash key b ++ rc4Encrypted (fun _ => 0)
        (hmacSha1 hash key (kvHash hash key b)) b).length = kvFlashSize := by
      rw [List.length_append, length_kvHash, length_rc4Encrypted, hb]
      decide
    rw [← hlen]
    exact load_store_self _ _ _

/-- A hash for which the key and the message matter: their sum. -/
def byteSum (key message : List Byte) : Vector Byte 20 := Vector.replicate 20 (key ++ message).sum

/-- A console whose keyvault has the body `b`. -/
def vaultConsole (fuses : Nat → BitVec 64) (b : List Byte) : Console :=
  ⟨smallBlocks, fuses, vaultFlash byteSum (load (cpuGetKey fuses fun _ => 0) 0 0x10) b, fun _ => 0⟩

theorem kvRead_vaultConsole : ∃ data',
    kvRead byteSum (vaultConsole (fun i => BitVec.ofNat 64 (0x0123456789 * i))
        (List.replicate (kvFlashSize - 0x10) 0x5A)) (fun _ => 0) false = (0, data')
      ∧ load data' 0x10 (kvFlashSize - 0x10) = List.replicate (kvFlashSize - 0x10) 0x5A := by
  obtain ⟨data', hread, hdata⟩ := (kvRead_keyvault byteSum (vaultConsole
    (fun i => BitVec.ofNat 64 (0x0123456789 * i)) (List.replicate (kvFlashSize - 0x10) 0x5A))
    (fun _ => 0) false).1 _ 0x4000 rfl (vaultFlash_stored _ (List.length_replicate))
  refine ⟨data', hread, ?_⟩
  rw [load_keyvault] at hdata
  exact (List.append_inj hdata (by rw [length_load, length_kvHash])).2

end LibXenon
