/-
LibXenon/GdbThreadIds.lean

Thread ids and numbers in packets: what `thread2vhstr` and `thread2fhstr` write, and
what `vhstr2thread` and `fhstr2thread` make of it; and the same for `int2vhstr` and
`int2fhstr`, and the packets that `parsezbreak` takes (`parsezbreak_grammar`).

The digits of a number are its nibbles, and reading them shifts the number in again
(`fhDigits_nibbles`, `vhDigits_nibbles`).  `vhstr2thread` has its test for an empty
string the wrong way round: it takes a string without digits for the id 0, and does
not take a string of zeros (`thread_roundtrip_iff`).
-/
import LibXenon.Bits
import LibXenon.GdbText

namespace LibXenon

/-! ### The functions -/

/-- `(thread>>shift)&0x0f` in the `i`th round of the loops. -/
def nibble (val : BitVec 32) (i : Nat) : Nat := val.toNat / 16 ^ (7 - i) % 16

/-- `thread2vhstr`: the digits from the first one that is not zero on, or one zero. -/
def thread2vhstr (thread : BitVec 32) : List UInt8 :=
  match (List.range 8).find? fun i => nibble thread i ≠ 0 with
  | none => [0x30]
  | some i => (List.range' i (8 - i)).map fun j => hexChar (nibble thread j)

/-- `int2vhstr`: the same loops. -/
def int2vhstr (val : BitVec 32) : List UInt8 := thread2vhstr val

/-- `vhstr2thread`.  The second loop is that of `vhstr2int`, but an empty string is refused
if zeros were found. -/
def vhstr2thread (b : Buffer) (ptr : Nat) : Option (BitVec 32 × Nat) :=
  let i := leadingZeros b 16 ptr
  vhDigits b (16 - i) (ptr + i) 0 (i == 0)

/-- The bytes are in the buffer at an index. -/
def Buffer.Spells (b : Buffer) : Nat → List UInt8 → Prop
  | _, [] => True
  | i, c :: l => b i = c ∧ b.Spells (i + 1) l

/-! ### Digits -/

variable {b : Buffer} {ptr : Nat} {id : BitVec 32}

theorem Buffer.spells_append {l l' : List UInt8} :
    b.Spells ptr (l ++ l') ↔ b.Spells ptr l ∧ b.Spells (ptr + l.length) l' := by
  induction l generalizing ptr with
  | nil => simp [Buffer.Spells]
  | cons c l ih =>
    simp only [List.cons_append, Buffer.Spells, ih, and_assoc, List.length_cons]
    rw [Nat.add_right_comm, Nat.add_assoc]

theorem hstr2nibble_hexChar {n : Nat} (h : n < 16) :
    hstr2nibble (hexChar n) = some (BitVec.ofNat 32 n) := by
  have hall : ∀ n < 16, hstr2nibble (hexChar n) = some (BitVec.ofNat 32 n) := by decide
  exact hall n h

theorem hexChar_ne_digit_zero {n : Nat} (h : n < 16) (hn : n ≠ 0) : hexChar n ≠ 0x30 := by
  have hall : ∀ n < 16, n ≠ 0 → hexChar n ≠ 0x30 := by decide
  exact hall n h hn

/-- Shifting in the next nibble. -/
theorem shift_nibble (id : BitVec 32) {k : Nat} (hk : k < 8) :
    id >>> (4 * (k + 1)) <<< 4 ||| BitVec.ofNat 32 (nibble id (7 - k)) = id >>> (4 * k) := by
  have hpow : (16 : Nat) ^ k = 2 ^ (4 * k) := by rw [Nat.pow_mul]
  have hx : id.toNat / 2 ^ (4 * k) < 2 ^ 32 := Nat.lt_of_le_of_lt (Nat.div_le_self ..) id.isLt
  have hhigh : (id >>> (4 * (k + 1))).toNat = id.toNat / 2 ^ (4 * k) / 16 := by
    rw [BitVec.toNat_ushiftRight, Nat.shiftRight_eq_div_pow, Nat.div_div_eq_div_mul, Nat.mul_succ,
      Nat.pow_add]
  have hlow : (BitVec.ofNat 32 (nibble id (7 - k))).toNat = id.toNat / 2 ^ (4 * k) % 16 := by
    rw [nibble, Nat.sub_sub_self (by omega), hpow, BitVec.toNat_ofNat]
    omega
  apply BitVec.eq_of_toNat_eq
  rw [Bits.toNat_shiftLeft_or (by omega) (by omega), hhigh, hlow, BitVec.toNat_ushiftRight,
    Nat.shiftRight_eq_div_pow]
  omega

/-- The last `k` digits. -/
def lastDigits (id : BitVec 32) (k : Nat) : List UInt8 :=
  (List.range' (8 - k) k).map fun j => hexChar (nibble id j)

theorem lastDigits_succ (id : BitVec 32) {k : Nat} (hk : k < 8) :
    lastDigits id (k + 1) = hexChar (nibble id (7 - k)) :: lastDigits id k := by
  have hfirst : 8 - (k + 1) = 7 - k := by omega
  have hrest : 7 - k + 1 = 8 - k := by omega
  rw [lastDigits, List.range'_succ, List.map_cons, hfirst, hrest, lastDigits]

theorem nibble_lt (id : BitVec 32) (i : Nat) : nibble id i < 16 := Nat.mod_lt _ (by decide)

/-- **Eight digits** shift the number in. -/
theorem fhDigits_nibbles {k : Nat} (hk : k ≤ 8) (h : b.Spells ptr (lastDigits id k)) :
    fhDigits b k ptr (id >>> (4 * k)) = some (id, ptr + k) := by
  induction k generalizing ptr with
  | zero => simp [fhDigits]
  | succ k ih =>
    rw [lastDigits_succ id hk] at h
    rw [fhDigits, h.1, hstr2nibble_hexChar (nibble_lt id _)]
    dsimp only
    rw [shift_nibble id hk, ih (by omega) h.2, Nat.add_right_comm, Nat.add_assoc]

/-- **Digits up to another character** shift the number in, if there are not too many. -/
theorem vhDigits_nibbles {k n : Nat} {digits : Bool} (hk : k ≤ 8) (hn : k ≤ n)
    (hdigits : k = 0 → digits = true) (h : b.Spells ptr (lastDigits id k))
    (hstop : hstr2nibble (b (ptr + k)) = none) :
    vhDigits b n ptr (id >>> (4 * k)) digits = some (id, ptr + k) := by
  induction k generalizing ptr n digits with
  | zero => cases n <;> simp_all [vhDigits]
  | succ k ih =>
    obtain ⟨n, rfl⟩ := Nat.exists_eq_add_one.mpr (Nat.zero_lt_of_lt hn)
    rw [lastDigits_succ id hk] at h
    rw [vhDigits, h.1, hstr2nibble_hexChar (nibble_lt id _)]
    dsimp only
    have hend : ptr + 1 + k = ptr + (k + 1) := by omega
    rw [shift_nibble id hk, ih (by omega) (by omega) (fun _ => rfl) h.2 (by rw [hend]; exact hstop),
      hend]

theorem leadingZeros_replicate {k n : Nat} (hk : k ≤ n)
    (h : b.Spells ptr (List.replicate k 0x30)) (hstop : k < n → b (ptr + k) ≠ 0x30) :
    leadingZeros b n ptr = k := by
  induction k generalizing ptr n with
  | zero =>
    cases n with
    | zero => rfl
    | succ n => exact if_neg (hstop (by omega))
  | succ k ih =>
    obtain ⟨n, rfl⟩ := Nat.exists_eq_add_one.mpr (Nat.zero_lt_of_lt hk)
    have hend : ptr + 1 + k = ptr + (k + 1) := by omega
    rw [leadingZeros, if_pos h.1, ih (by omega) h.2]
    intro hlt
    rw [hend]
    exact hstop (by omega)

theorem ne_zero_of_stop (h : hstr2nibble (b ptr) = none) : b ptr ≠ 0x30 := by
  intro he
  rw [he] at h
  cases h

/-! ### The round trips -/

theorem ushiftRight_all (id : BitVec 32) : id >>> (4 * 8) = 0 := by
  apply BitVec.eq_of_toNat_eq
  rw [BitVec.toNat_ushiftRight, Nat.shiftRight_eq_div_pow]
  exact Nat.div_eq_of_lt id.isLt

theorem fhstr2int_int2fhstr (h : b.Spells ptr (int2fhstr id)) :
    fhstr2int b ptr = some (id, ptr + 8) := by
  have hall : int2fhstr id = lastDigits id 8 := by simp [int2fhstr, lastDigits, nibble,
    List.range_eq_range']
  rw [hall] at h
  rw [fhstr2int, ← ushiftRight_all id]
  exact fhDigits_nibbles (le_refl 8) h

theorem fhstr2thread_thread2fhstr (h : b.Spells ptr (thread2fhstr id)) :
    fhstr2thread b ptr = some (id, ptr + 16) := by
  obtain ⟨hzeros, hdigits⟩ := Buffer.spells_append.mp h
  have hlead : leadingZeros b 8 ptr = 8 := leadingZeros_replicate (le_refl 8) hzeros (by omega)
  rw [fhstr2thread, if_pos hlead]
  exact fhstr2int_int2fhstr hdigits

/-- What is before the first digit that is not zero is zero. -/
theorem ushiftRight_of_nibbles {k : Nat} (hk : k ≤ 8) (hzero : ∀ j < 8 - k, nibble id j = 0) :
    id >>> (4 * k) = 0 := by
  -- downwards from all eight digits, one at a time
  obtain ⟨n, hn⟩ := Nat.exists_eq_add_of_le hk
  induction n generalizing k with
  | zero =>
    obtain rfl : k = 8 := hn.symm
    exact ushiftRight_all id
  | succ n ih =>
    have hlt : k < 8 := by omega
    have hnext := shift_nibble id hlt
    rw [ih hlt (fun j hj => hzero j (by omega)) (by omega), hzero (7 - k) (by omega)] at hnext
    exact hnext.symm

theorem thread2vhstr_cases (id : BitVec 32) :
    ∃ k ≤ 8, 0 < k ∧ thread2vhstr id = lastDigits id k ∧ id >>> (4 * k) = 0 ∧
      (id ≠ 0 → nibble id (8 - k) ≠ 0) := by
  rw [thread2vhstr]
  cases hfind : (List.range 8).find? fun i => nibble id i ≠ 0 with
  | none =>
    have hzero : id >>> (4 * 0) = 0 := ushiftRight_of_nibbles (Nat.zero_le 8) fun j hj => by
      simpa using List.find?_eq_none.mp hfind j (List.mem_range.mpr hj)
    obtain rfl : id = 0 := by simpa using hzero
    exact ⟨1, by omega, Nat.one_pos, rfl, rfl, fun h => absurd rfl h⟩
  | some i =>
    obtain ⟨hi, hlt, hbefore⟩ := List.find?_range_eq_some.mp hfind
    have hlt : i < 8 := List.mem_range.mp hlt
    refine ⟨8 - i, by omega, by omega, ?_, ?_, fun _ => ?_⟩
    · rw [lastDigits, Nat.sub_sub_self hlt.le]
    · exact ushiftRight_of_nibbles (by omega) fun j hj => by simpa using hbefore j (by omega)
    · rw [Nat.sub_sub_self hlt.le]
      simpa using hi

/-- A zero that is all there is is refused. -/
theorem vhstr2thread_zero (h : b ptr = 0x30) (hstop : hstr2nibble (b (ptr + 1)) = none) :
    vhstr2thread b ptr = none := by
  have hlead : leadingZeros b 16 ptr = 1 :=
    leadingZeros_replicate (by omega) ⟨h, trivial⟩ fun _ => ne_zero_of_stop hstop
  simp [vhstr2thread, hlead, vhDigits, hstop]

/-- No digits at all are taken for 0. -/
theorem vhstr2thread_stop (hstop : hstr2nibble (b ptr) = none) :
    vhstr2thread b ptr = some (0, ptr) := by
  have hlead : leadingZeros b 16 ptr = 0 :=
    leadingZeros_replicate (Nat.zero_le _) trivial fun _ => ne_zero_of_stop hstop
  simp [vhstr2thread, hlead, vhDigits, hstop]

theorem vhstr2thread_thread2vhstr (hne : id ≠ 0) (h : b.Spells ptr (thread2vhstr id))
    (hstop : hstr2nibble (b (ptr + (thread2vhstr id).length)) = none) :
    vhstr2thread b ptr = some (id, ptr + (thread2vhstr id).length) := by
  obtain ⟨k, hk, hpos, htext, hshift, hfirst⟩ := thread2vhstr_cases id
  have hlen : (thread2vhstr id).length = k := by simp [htext, lastDigits]
  rw [hlen] at hstop ⊢
  rw [htext] at h
  have hdigits := @vhDigits_nibbles b ptr id k 16 true hk (by omega) (fun _ => rfl) h hstop
  have hlead : leadingZeros b 16 ptr = 0 := by
    refine leadingZeros_replicate (Nat.zero_le _) trivial fun _ => ?_
    obtain ⟨j, rfl⟩ := Nat.exists_eq_succ_of_ne_zero hpos.ne'
    rw [lastDigits_succ id hk] at h
    rw [Nat.add_zero, h.1]
    refine hexChar_ne_digit_zero (nibble_lt id _) ?_
    have hfirst := hfirst hne
    rwa [Nat.succ_eq_add_one, show 8 - (j + 1) = 7 - j by omega] at hfirst
  rw [hshift] at hdigits
  rw [vhstr2thread, hlead]
  exact hdigits

/-- **The round trips** and the refusal of a string without digits, for what is at one index:
they hold if and only if there is a digit, and not a zero alone. -/
theorem thread_roundtrip_iff (b : Buffer) (ptr : Nat) :
    ((∀ id, b.Spells ptr (thread2vhstr id) →
        hstr2nibble (b (ptr + (thread2vhstr id).length)) = none →
        vhstr2thread b ptr = some (id, ptr + (thread2vhstr id).length)) ∧
      (∀ id, b.Spells ptr (thread2fhstr id) →
        hstr2nibble (b (ptr + (thread2fhstr id).length)) = none →
        fhstr2thread b ptr = some (id, ptr + (thread2fhstr id).length)) ∧
      (hstr2nibble (b ptr) = none → vhstr2thread b ptr = none)) ↔
      hstr2nibble (b ptr) ≠ none ∧ (b ptr = 0x30 → hstr2nibble (b (ptr + 1)) ≠ none) := by
  constructor
  · rintro ⟨hvh, -, hreject⟩
    refine ⟨fun hstop => ?_, fun hzero hstop => ?_⟩
    · have hnone := hreject hstop
      rw [vhstr2thread_stop hstop] at hnone
      cases hnone
    · have hsome := hvh 0 ⟨hzero, trivial⟩ hstop
      rw [vhstr2thread_zero hzero hstop] at hsome
      cases hsome
  · rintro ⟨hdigit, hzero⟩
    refine ⟨fun id h hstop => vhstr2thread_thread2vhstr ?_ h hstop, fun id h _ => ?_,
      fun hstop => absurd hstop hdigit⟩
    · rintro rfl
      exact hzero h.1 hstop
    · exact fhstr2thread_thread2fhstr h

/-- A buffer with some text. -/
def textBuffer (s : String) : Buffer := fun i => (text s).getD i 0

/-- The id 0 does not come back, and a string without digits is taken for it. -/
theorem thread_zero_lost :
    (textBuffer "0;").Spells 0 (thread2vhstr 0) ∧ hstr2nibble (textBuffer "0;" 1) = none ∧
      vhstr2thread (textBuffer "0;") 0 = none ∧ hstr2nibble (textBuffer ";" 0) = none ∧
      vhstr2thread (textBuffer ";") 0 = some (0, 0) := by
  refine ⟨⟨?_, trivial⟩, ?_, ?_, ?_, ?_⟩ <;> decide

/-! ### The numbers of a breakpoint -/

/-- The number that so many digits at an index spell. -/
def hexNumber (b : Buffer) (ptr : Nat) : Nat → Nat
  | 0 => 0
  | m + 1 => hexNumber b ptr m * 16 + ((hstr2nibble (b (ptr + m))).getD 0).toNat

/-- One to eight digits, and then a byte that is none. -/
structure HexRun (b : Buffer) (ptr m : Nat) : Prop where
  digit : ∀ i < m, hstr2nibble (b (ptr + i)) ≠ none
  stop : hstr2nibble (b (ptr + m)) = none
  pos : 0 < m
  le : m ≤ 8

theorem hstr2nibble_lt {c : UInt8} {x : BitVec 32} (h : hstr2nibble c = some x) :
    x.toNat < 16 := by
  have hall : ∀ n < 256, ((hstr2nibble (UInt8.ofNat n)).getD 0).toNat < 16 := by decide +kernel
  have hc := hall c.toNat c.toNat_lt
  rw [UInt8.ofNat_toNat, h] at hc
  exact hc

/-- A run of at least `k` digits gives the number `v` and ends at `e`. -/
def Reads (b : Buffer) (ptr k : Nat) (v : BitVec 32) (e : Nat) : Prop :=
  ∃ m, k ≤ m ∧ HexRun b ptr m ∧ v.toNat = hexNumber b ptr m ∧ e = ptr + m

theorem reads_iff_of_stop {k e : Nat} {val v : BitVec 32} (hpos : 0 < k) (hle : k ≤ 8)
    (hdigit : ∀ i < k, hstr2nibble (b (ptr + i)) ≠ none) (hval : val.toNat = hexNumber b ptr k)
    (hstop : hstr2nibble (b (ptr + k)) = none) :
    some (val, ptr + k) = some (v, e) ↔ Reads b ptr k v e := by
  rw [Option.some.injEq, Prod.mk.injEq]
  constructor
  · rintro ⟨rfl, rfl⟩
    exact ⟨k, le_rfl, ⟨hdigit, hstop, hpos, hle⟩, hval, rfl⟩
  · rintro ⟨m, hkm, hrun, hv, rfl⟩
    obtain rfl : k = m := by
      by_contra hne
      exact hrun.digit k (by omega) hstop
    exact ⟨BitVec.eq_of_toNat_eq (hval.trans hv.symm), rfl⟩

/-- **The second loop**, after `k` of the eight digits. -/
theorem vhDigits_iff {n k e : Nat} {val v : BitVec 32} (hn : n + k = 8)
    (hdigit : ∀ i < k, hstr2nibble (b (ptr + i)) ≠ none) (hval : val.toNat = hexNumber b ptr k)
    (hlt : val.toNat < 16 ^ k) :
    vhDigits b n (ptr + k) val (k != 0) = some (v, e) ↔ Reads b ptr k v e := by
  induction n generalizing k val with
  | zero =>
    rw [vhDigits]
    cases hstop : hstr2nibble (b (ptr + k)) with
    | none => exact reads_iff_of_stop (by omega) (by omega) hdigit hval hstop
    | some x =>
      -- a ninth digit: no run of at most eight ends there
      refine iff_of_false nofun ?_
      rintro ⟨m, hkm, hrun, -⟩
      obtain rfl : m = k := le_antisymm (by have := hrun.le; omega) hkm
      exact absurd (hstop.symm.trans hrun.stop) nofun
  | succ n ih =>
    rw [vhDigits]
    cases hstop : hstr2nibble (b (ptr + k)) with
    | none =>
      rcases Nat.eq_zero_or_pos k with rfl | hpos
      · refine iff_of_false nofun ?_
        rintro ⟨m, -, hrun, -⟩
        exact hrun.digit 0 hrun.pos hstop
      · rw [if_pos (bne_iff_ne.mpr hpos.ne')]
        exact reads_iff_of_stop hpos (by omega) hdigit hval hstop
    | some x =>
      have hx := hstr2nibble_lt hstop
      have hlow : 16 ^ k ≤ 16 ^ 7 := Nat.pow_le_pow_right (by decide) (by omega)
      have hnext := Bits.toNat_shiftLeft_or (x := val) (y := x) (k := 4) (by omega) hx
      -- a run does not stop at a digit
      have hmore : Reads b ptr (k + 1) v e ↔ Reads b ptr k v e := by
        refine exists_congr fun m => and_congr_left fun h => ⟨Nat.le_of_succ_le, fun hkm => ?_⟩
        refine Nat.lt_of_le_of_ne hkm fun hkm => ?_
        rw [hkm, h.1.stop] at hstop
        cases hstop
      rw [← hmore]
      refine ih (k := k + 1) (by omega) (fun i hi => ?_) ?_ ?_
      · rcases Nat.lt_succ_iff_lt_or_eq.mp hi with hi | rfl
        · exact hdigit i hi
        · rw [hstop]
          exact Option.some_ne_none x
      · rw [hnext, hexNumber, hstop, hval]
        rfl
      · rw [hnext, Nat.pow_succ]
        omega

/-- The zeros that are skipped would be read as digits. -/
theorem vhDigits_leadingZeros (n ptr : Nat) (digits : Bool) :
    vhDigits b (n - leadingZeros b n ptr) (ptr + leadingZeros b n ptr) 0
      (digits || leadingZeros b n ptr != 0) = vhDigits b n ptr 0 digits := by
  induction n generalizing ptr digits with
  | zero => simp [leadingZeros, vhDigits]
  | succ n ih =>
    rw [leadingZeros]
    split
    · rename_i hzero
      have hrest := ih (ptr + 1) true
      rw [Bool.true_or] at hrest
      have hread : vhDigits b (n + 1) ptr 0 digits = vhDigits b n (ptr + 1) 0 true := by
        rw [vhDigits, hzero]
        rfl
      rw [hread, ← hrest, Nat.add_sub_add_right, Nat.add_right_comm, Nat.add_assoc]
      simp
    · simp

theorem vhstr2int_eq (b : Buffer) (ptr : Nat) : vhstr2int b ptr = vhDigits b 8 ptr 0 false :=
  vhDigits_leadingZeros 8 ptr false

theorem vhstr2int_iff {v : BitVec 32} {e : Nat} :
    vhstr2int b ptr = some (v, e) ↔ Reads b ptr 0 v e := by
  rw [vhstr2int_eq]
  exact vhDigits_iff (k := 0) rfl nofun rfl (by decide)

theorem vhstr2int_int2vhstr (h : b.Spells ptr (int2vhstr id))
    (hstop : hstr2nibble (b (ptr + (int2vhstr id).length)) = none) :
    vhstr2int b ptr = some (id, ptr + (int2vhstr id).length) := by
  obtain ⟨k, hk, hpos, htext, hshift, -⟩ := thread2vhstr_cases id
  have hlen : (int2vhstr id).length = k := by simp [int2vhstr, htext, lastDigits]
  rw [int2vhstr, htext] at h
  rw [hlen] at hstop ⊢
  rw [vhstr2int_eq, ← hshift]
  exact vhDigits_nibbles hk hk (by omega) h hstop

theorem toInt_pos_iff (v : BitVec 32) : ¬ v.toInt < 1 ↔ 1 ≤ v.toNat ∧ v.toNat < 2 ^ 31 := by
  rw [BitVec.toInt_eq_toNat_cond]
  split <;> omega

/-- **Numbers in packets.**  What `int2fhstr` and `int2vhstr` write is read back, and
`parsezbreak` takes a character, a digit, and two runs of digits with their commas, the
second one a positive `int`. -/
theorem parsezbreak_grammar :
    (∀ (b : Buffer) ptr val, b.Spells ptr (int2fhstr val) →
      fhstr2int b ptr = some (val, ptr + 8)) ∧
    (∀ (b : Buffer) ptr val, b.Spells ptr (int2vhstr val) →
      hstr2nibble (b (ptr + (int2vhstr val).length)) = none →
      vhstr2int b ptr = some (val, ptr + (int2vhstr val).length)) ∧
    ∀ (b : Buffer) z, parsezbreak b = some z ↔ ∃ k m, hstr2nibble (b 1) = some z.type ∧
      b 2 = 0x2C ∧ HexRun b 3 k ∧ b (3 + k) = 0x2C ∧ HexRun b (3 + k + 1) m ∧
      z.addr.toNat = hexNumber b 3 k ∧ z.len.toNat = hexNumber b (3 + k + 1) m ∧
      1 ≤ z.len.toNat ∧ z.len.toNat < 2 ^ 31 := by
  refine ⟨fun b ptr val => fhstr2int_int2fhstr, fun b ptr val => vhstr2int_int2vhstr,
    fun b z => ⟨fun h => ?_, ?_⟩⟩
  · obtain ⟨ptr, e, htype, hcomma, haddr, hcomma', hlen, hpos⟩ : ∃ ptr e,
        hstr2nibble (b 1) = some z.type ∧ b 2 = 0x2C ∧ vhstr2int b 3 = some (z.addr, ptr) ∧
          b ptr = 0x2C ∧ vhstr2int b (ptr + 1) = some (z.len, e) ∧ ¬ z.len.toInt < 1 := by
      grind [parsezbreak]
    obtain ⟨k, -, hk, hval, rfl⟩ := vhstr2int_iff.mp haddr
    obtain ⟨m, -, hm, hval', rfl⟩ := vhstr2int_iff.mp hlen
    exact ⟨k, m, htype, hcomma, hk, hcomma', hm, hval, hval', (toInt_pos_iff _).mp hpos⟩
  · rintro ⟨k, m, htype, hcomma, hk, hcomma', hm, haddr, hlen, hpos⟩
    have haddr := vhstr2int_iff.mpr ⟨k, Nat.zero_le k, hk, haddr, rfl⟩
    have hlen := vhstr2int_iff.mpr ⟨m, Nat.zero_le m, hm, hlen, rfl⟩
    have hpos := (toInt_pos_iff z.len).mpr hpos
    simp [parsezbreak, htype, hcomma, haddr, hcomma', hlen, hpos]

/-- A breakpoint of four bytes. -/
theorem parsezbreak_four :
    parsezbreak (textBuffer "Z0,1000,4#") = some ⟨0, 0x1000, 4⟩ ∧
      vhstr2int (textBuffer "1a2;") 0 = some (0x1A2, 3) := by
  refine ⟨(parsezbreak_grammar.2.2 _ _).mpr ⟨4, 1, ?_⟩, parsezbreak_grammar.2.1 _ 0 _ ?_ ?_⟩
  · refine ⟨?_, ?_, ⟨?_, ?_, ?_, ?_⟩, ?_, ⟨?_, ?_, ?_, ?_⟩, ?_, ?_, ?_, ?_⟩ <;> decide +kernel
  · refine ⟨?_, ?_, ?_, trivial⟩ <;> decide +kernel
  · decide +kernel

end LibXenon
