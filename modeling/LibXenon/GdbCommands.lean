/-
LibXenon/GdbCommands.lean

The commands of the debugger stub: `parse_cmd` of gdb.c.

The remote protocol is in lock step: gdb sends a command and waits for one reply,
but after the commands that let the program go on.  `parse_cmd` is a switch over
the first byte of the packet, with a second one for `q`.

* Which packets get the replies they should, in a state in which the two threads
  of the debugger are pool threads, is `Answerable`; the others get none, because a
  branch sends nothing, because a NULL pointer is followed or because a text runs
  over the end of an array (`parseCmd_replies_iff`).
* A `Z0` packet that is answered with `OK` has set a breakpoint exactly if there was
  one or an entry was free whose own address is not the word to stop at.
* What goes wrong otherwise: `parseCmd_unanswered`.

`putpacket` sends once: what it does when a reply is not acknowledged is left out.
The registers and the memory are those of the model of threads and of breakpoints.
-/
import LibXenon.Breakpoints
import LibXenon.DebugHalt
import LibXenon.GdbText

namespace LibXenon

open Transition List

/-! ### The stub -/

/-- The ways in which `parse_cmd` does not return: a pointer that is NULL, an
address without memory, and an index outside an array. -/
inductive GdbFault
  | null
  | unmapped
  | outside
  deriving DecidableEq

/-- The variables of gdb.c, the threads and the memory.  `nameField` is what is in
memory from the field `Name` of a thread on. -/
structure Stub where
  pool : DebugPool
  current : PThread
  nameField : PThread → Nat → UInt8
  memory : WordMemory
  mapped : Address → Bool
  ctrlthread : Option PThread
  otherthread : Option PThread
  attached : Bool
  active : Bool
  running : Bool
  signal : BitVec 32

/-- What `parse_cmd` returns, and the packets it has sent. -/
structure GdbOutcome where
  value : Nat
  stub : Stub
  replies : List (List UInt8)

/-- `putpacket`: the reply gets five bytes around it, in an array of 2048. -/
def Stub.answer (s : Stub) (reply : List UInt8) : Except GdbFault GdbOutcome :=
  if reply.length + 5 > bufmax then .error .outside else .ok ⟨0, s, [reply]⟩

/-- A string is put in an array of some size first. -/
def Stub.answerFrom (s : Stub) (size : Nat) (bytes : List UInt8) : Except GdbFault GdbOutcome :=
  if bytes.length + 1 > size then .error .outside else s.answer (bytes.takeWhile (· ≠ 0))

/-- A branch that sends nothing. -/
def Stub.silent (s : Stub) : Except GdbFault GdbOutcome := .ok ⟨0, s, []⟩

def Stub.thread (s : Stub) (t : PThread) : Thread := s.pool.machine.thread t

/-- `thread_get_pool`. -/
def threadGetPool (i : Int) : Option PThread :=
  if 0 ≤ i ∧ i < maxThreadCount then some i.toNat else none

/-- `hexToInt`, which reads on where there is no buffer any more if there is no end. -/
def readHex (b : Buffer) (ptr : Nat) : Except GdbFault (Nat × BitVec 32 × Nat) :=
  match hexToInt b ptr with
  | none => .error .outside
  | some r => .ok r

/-! ### Queries -/

/-- The second byte of a packet that starts with `q`. -/
inductive QueryLetter
  | S
  | C
  | A
  | O
  | f
  | s
  | T
  | P
  | other

def queryLetter (ch : UInt8) : QueryLetter :=
  match Char.ofNat ch.toNat with
  | 'S' => .S
  | 'C' => .C
  | 'A' => .A
  | 'O' => .O
  | 'f' => .f
  | 's' => .s
  | 'T' => .T
  | 'P' => .P
  | _ => .other

/-- `qfThreadInfo`: the ids of the valid threads.  `ThreadId` is one byte. -/
def Stub.threadList (s : Stub) : List UInt8 :=
  text "m" ++ ((List.range maxThreadCount).filter fun t => (s.thread t).valid).flatMap fun t =>
    formatx ((s.thread t).threadId % 256 + 1) ++ text ","

/-- The bytes of a name, up to a NUL. -/
def nameBytes (name : String) : List UInt8 := (text name).takeWhile (· ≠ 0)

/-- What `qThreadExtraInfo` says of a thread. -/
def Stub.threadExtraInfo (s : Stub) (pthr : Option PThread) : List UInt8 :=
  match pthr with
  | none => text "No Name"
  | some t =>
    match s.pool.name t with
    | none => text "No Name"
    | some name => if (s.thread t).valid then text "Name: " ++ nameBytes name else text "No Name"

/-- `sprintf(ptr, "%x", tempbuffer[i])` every two bytes. -/
def hexPairs (l : List UInt8) : List UInt8 :=
  l.flatMap fun ch =>
    if ch.toNat < 16 then [hexChar ch.toNat, 0]
    else [hexChar (ch.toNat / 16), hexChar (ch.toNat % 16)]

def Stub.parseExtraInfo (s : Stub) (b : Buffer) : Except GdbFault GdbOutcome := do
  let (_, thread, _) ← readHex b 17
  let info := s.threadExtraInfo (threadGetPool (thread - 1).toInt)
  if info.length + 1 > bufmax / 4 then .error .outside
  else s.answerFrom bufmax (hexPairs info)

/-- A thread without a name gets an empty one, if `packqq` asks for it. -/
def Stub.setEmptyName (s : Stub) (mask : BitVec 32) (pthr : Option PThread) : Stub :=
  match pthr with
  | none => s
  | some t =>
    if mask &&& 8 ≠ 0 ∧ s.pool.name t = none then
      { s with pool := { s.pool with name := Function.update s.pool.name t (some "") } }
    else s

def Stub.parseThreadInfo (s : Stub) (b : Buffer) : Except GdbFault GdbOutcome :=
  match parseqp b with
  | none => s.answer (text "E01")
  | some (mask, rthread) =>
    if mask &&& ~~~0x1F ≠ 0 then s.answer (text "E01")
    else
      let pthr := threadGetPool (rthread - 1).toInt
      match packqq mask rthread (pthr.map fun t =>
        (((s.pool.name t).map nameBytes).getD [], s.nameField t)) with
      | none => .error .null
      | some bytes => (s.setEmptyName mask pthr).answerFrom bufmax bytes

/-- The packets that start with `q`. -/
def Stub.parseQuery (s : Stub) (b : Buffer) : Except GdbFault GdbOutcome :=
  match queryLetter (b 1) with
  | .S => s.answer (if b 2 = 0x75 then text "PacketSize=2048" else text "OK")
  | .C =>
    match s.otherthread with
    | none => s.answerFrom bufmax (text "QC-1")
    | some t => s.answerFrom bufmax (text "QC" ++ formatx ((s.thread t).threadId % 256 + 1))
  | .A => s.answer (text "1")
  | .O => s.answer (text "Text=0;Data=0;Bss=0")
  | .f => s.answerFrom bufmax s.threadList
  | .s => s.answer (text "l")
  | .T => if b 2 = 0x68 then s.parseExtraInfo b else s.answer []
  | .P => s.parseThreadInfo b
  | .other => s.silent

/-! ### The other commands -/

/-- `H`: the thread for the commands that follow. -/
def Stub.parseH (s : Stub) (b : Buffer) : Except GdbFault GdbOutcome := do
  let (_, thread, _) ← readHex b 2
  let pthr := (threadGetPool (thread - 1).toInt).filter fun t => (s.thread t).valid
  if b 1 = 0x63 then
    if thread = 0 then s.answer (text "OK")
    else if pthr.isSome then Stub.answer { s with ctrlthread := pthr } (text "OK")
    else s.answer (text "E01")
  else if b 1 = 0x67 then
    if thread = 0 then s.answer (text "OK")
    else if pthr.isSome then Stub.answer { s with otherthread := pthr } (text "OK")
    else s.answer (text "E01")
  else s.answer (text "E01")

/-- The last `k` bytes of a register, as they are in memory. -/
def lowBytes (k : Nat) (v : UInt64) : List UInt8 :=
  (List.range k).map fun i => UInt8.ofNat (v.toNat / 2 ^ (8 * (k - 1 - i)))

/-- The registers, in the order of the packet. -/
def Context.bytes (c : Context) : List UInt8 :=
  ((List.finRange 32).flatMap fun reg => lowBytes 4 (c.gpr reg)) ++
    ((List.finRange 32).flatMap fun reg => lowBytes 8 (c.fpr reg)) ++
    lowBytes 4 c.iar ++ lowBytes 4 c.msr ++ lowBytes 4 c.cr ++ lowBytes 4 c.lr ++ lowBytes 4 c.ctr ++
    lowBytes 4 c.xer ++ lowBytes 4 c.fpscr

/-- `g`. -/
def Stub.parseG (s : Stub) : Except GdbFault GdbOutcome :=
  match s.otherthread with
  | none => s.answer (text "E01")
  | some t => s.answerFrom bufmax (mem2hstr (s.thread t).context.bytes)

/-- `ptr_seems_valid`. -/
def ptrSeemsValid (a : Address) : Bool := 0x80000000 ≤ a.toNat && a.toNat < 0xA0000000

/-- A byte of the memory. -/
def memoryByte (m : WordMemory) (a : Address) : UInt8 :=
  UInt8.ofNat ((m (a - BitVec.ofNat 32 (a.toNat % 4))).toNat / 2 ^ (24 - 8 * (a.toNat % 4)))

/-- The address and the length of an `m` packet, or the number of the error. -/
def parseRange (b : Buffer) : Except GdbFault (Except Nat (Address × BitVec 32)) := do
  let (cnt, addr, ptr) ← readHex b 1
  if cnt = 0 then .ok (.error 0)
  else if b ptr ≠ 0x2C then .ok (.error 1)
  else
    let (cnt, len, _) ← readHex b (ptr + 1)
    if cnt = 0 then .ok (.error 2)
    else if !ptrSeemsValid addr then .ok (.error 3)
    else .ok (.ok (addr, len))

/-- `m`.  A negative length reads nothing. -/
def Stub.parseM (s : Stub) (b : Buffer) : Except GdbFault GdbOutcome := do
  match ← parseRange b with
  | .error e => s.answer (text "E0" ++ [hexChar e])
  | .ok (addr, len) =>
    let addrs := (List.range len.toInt.toNat).map fun k => addr + BitVec.ofNat 32 k
    if addrs.all fun a => s.mapped a then
      s.answerFrom bufmax (mem2hstr (addrs.map (memoryByte s.memory)))
    else .error .unmapped

/-- `active = 0; running = 1; resume_threads();` -/
def Stub.resume (s : Stub) : Except GdbFault Stub :=
  match resumeThreads s.pool s.current with
  | none => .error .null
  | some pool => .ok { s with pool := pool, active := false, running := true }

/-- `D`. -/
def Stub.parseD (s : Stub) : Except GdbFault GdbOutcome := do
  let s ← Stub.resume { s with attached := false }
  let o ← s.answer (text "OK")
  .ok { o with value := 1 }

/-- `c`. -/
def Stub.parseContinue (s : Stub) : Except GdbFault GdbOutcome := do
  let s ← Stub.resume { s with signal := 3 }
  s.silent

/-- `C`. -/
def Stub.parseContinueSignal (s : Stub) (b : Buffer) : Except GdbFault GdbOutcome := do
  let (_, val, _) ← readHex b 1
  let s ← Stub.resume { s with signal := val }
  s.silent

/-- `pthr->Context.Msr |= 0x400;` -/
def enableSingleStep (x : Thread) : Thread :=
  { x with context := { x.context with msr := x.context.msr ||| 0x400 } }

/-- `s`.  If there is no thread, another one is chosen but not used. -/
def Stub.parseStep (s : Stub) : Except GdbFault GdbOutcome :=
  match s.ctrlthread with
  | none => .error .null
  | some t => do
      let machine := s.pool.machine.modifyThread t enableSingleStep
      let s ← Stub.resume { s with pool := { s.pool with machine := machine } }
      s.silent

/-- `S`. -/
def Stub.parseStepSignal (s : Stub) (b : Buffer) : Except GdbFault GdbOutcome := do
  let (_, val, _) ← readHex b 1
  Stub.parseStep { s with signal := val }

/-- `T`.  The two tests of the thread have empty bodies, so the answer does not
depend on it. -/
def Stub.parseT (s : Stub) (b : Buffer) : Except GdbFault GdbOutcome := do
  let (_, _, _) ← readHex b 1
  s.answer (text "OK")

/-- `z` and `Z`, up to the call for the breakpoint. -/
def Stub.parseBreakpoint (s : Stub) (b : Buffer)
    (call : WordMemory → Address → Except GdbFault WordMemory) : Except GdbFault GdbOutcome :=
  match parsezbreak b with
  | none => s.answer (text "E01")
  | some r =>
    if r.type ≠ 0 then s.silent
    else if r.len.toInt < 4 then s.answer (text "E02")
    else do
      let memory ← call s.memory r.addr
      Stub.answer { s with memory := memory } (text "OK")

/-- `remove_breakpoint`, which writes to the address of an entry. -/
def Stub.callRemove (s : Stub) (t : BreakpointTable) (m : WordMemory) (addr : Address) :
    Except GdbFault WordMemory :=
  if getBreakpoint t m addr ≠ none ∧ s.mapped addr = false then .error .unmapped
  else .ok (removeBreakpoint t m addr).2

/-- `set_breakpoint`, which reads from the address of a new entry. -/
def Stub.callSet (s : Stub) (t : BreakpointTable) (m : WordMemory) (addr : Address) :
    Except GdbFault WordMemory :=
  if getBreakpoint t m addr = none ∧ freeBreakpoint t m ≠ none ∧ s.mapped addr = false then
    .error .unmapped
  else .ok (setBreakpoint t m addr).2

/-! ### `parse_cmd` -/

/-- The first byte of a packet. -/
inductive CommandLetter
  | q
  | H
  | halt
  | g
  | D
  | m
  | c
  | C
  | S
  | s
  | T
  | z
  | Z
  | other
  deriving DecidableEq

def commandLetter (ch : UInt8) : CommandLetter :=
  match Char.ofNat ch.toNat with
  | 'q' => .q
  | 'H' => .H
  | '?' => .halt
  | 'g' => .g
  | 'D' => .D
  | 'm' => .m
  | 'c' => .c
  | 'C' => .C
  | 'S' => .S
  | 's' => .s
  | 'T' => .T
  | 'z' => .z
  | 'Z' => .Z
  | _ => .other

/-- `parse_cmd`. -/
def parseCmd (t : BreakpointTable) (s : Stub) (b : Buffer) : Except GdbFault GdbOutcome :=
  match commandLetter (b 0) with
  | .q => s.parseQuery b
  | .H => s.parseH b
  | .halt => s.answerFrom 4 (text "S" ++ format02X s.signal.toNat)
  | .g => s.parseG
  | .D => s.parseD
  | .m => s.parseM b
  | .c => s.parseContinue
  | .C => s.parseContinueSignal b
  | .S => s.parseStepSignal b
  | .s => s.parseStep
  | .T => s.parseT b
  | .z => s.parseBreakpoint b (s.callRemove t)
  | .Z => s.parseBreakpoint b (s.callSet t)
  | .other => s.answer []

/-! ### Numbers of replies -/

/-- `parse_cmd` returns and has sent so many packets. -/
def Replies (r : Except GdbFault GdbOutcome) (n : Nat) : Prop :=
  ∃ o, r = .ok o ∧ o.replies.length = n

/-- A string that fits in an array, and in a packet. -/
def Fits (size : Nat) (bytes : List UInt8) : Prop :=
  bytes.length + 1 ≤ size ∧ (bytes.takeWhile (· ≠ 0)).length + 5 ≤ bufmax

variable {s : Stub} {b : Buffer} {t : BreakpointTable}

theorem not_replies_error (e : GdbFault) (n : Nat) : ¬ Replies (.error e) n := by
  rintro ⟨o, ho, -⟩
  cases ho

theorem not_replies_silent : ¬ Replies s.silent 1 := by
  rintro ⟨o, ho, hlen⟩
  cases ho
  cases hlen

theorem replies_answer {reply : List UInt8} :
    Replies (s.answer reply) 1 ↔ reply.length + 5 ≤ bufmax := by
  rw [Stub.answer]
  split
  · exact iff_of_false (not_replies_error _ _) (by omega)
  · exact iff_of_true ⟨_, rfl, rfl⟩ (by omega)

theorem replies_answerFrom {size : Nat} {bytes : List UInt8} :
    Replies (s.answerFrom size bytes) 1 ↔ Fits size bytes := by
  rw [Stub.answerFrom, Fits]
  split
  · exact iff_of_false (not_replies_error _ _) (by omega)
  · rw [replies_answer]
    exact ⟨fun h => ⟨by omega, h⟩, And.right⟩

theorem replies_bind {α : Type} {x : Except GdbFault α} {f : α → Except GdbFault GdbOutcome}
    {n : Nat} :
    Replies (x >>= f) n ↔ ∃ a, x = .ok a ∧ Replies (f a) n := by
  constructor
  · rintro ⟨o, ho, hlen⟩
    obtain ⟨a, ha, hf⟩ := bind_eq_ok.mp ho
    exact ⟨a, ha, o, hf, hlen⟩
  · rintro ⟨a, ha, o, ho, hlen⟩
    exact ⟨o, bind_eq_ok.mpr ⟨a, ha, ho⟩, hlen⟩

theorem readHex_eq_ok {ptr : Nat} {r : Nat × BitVec 32 × Nat} :
    readHex b ptr = .ok r ↔ hexToInt b ptr = some r := by
  rw [readHex]
  rcases hexToInt b ptr with - | r'
  · exact iff_of_false nofun nofun
  · constructor
    · exact fun h => congrArg some (Except.ok.inj h)
    · exact fun h => congrArg Except.ok (Option.some_inj.mp h)

theorem replies_readHex {ptr n : Nat} {f : Nat × BitVec 32 × Nat → Except GdbFault GdbOutcome} :
    Replies (readHex b ptr >>= f) n ↔
      ∃ cnt val e, hexToInt b ptr = some (cnt, val, e) ∧ Replies (f (cnt, val, e)) n := by
  simp only [replies_bind, readHex_eq_ok, Prod.exists]

/-- `strlen` stops at the end of the bytes. -/
theorem length_takeWhile_le (bytes : List UInt8) :
    (bytes.takeWhile fun c => decide (c ≠ 0)).length ≤ bytes.length :=
  (takeWhile_sublist _).length_le

theorem fits_of_length {bytes : List UInt8} (h : bytes.length + 5 ≤ bufmax) : Fits bufmax bytes := by
  have htake := length_takeWhile_le bytes
  exact ⟨by omega, by omega⟩

theorem forall_parsed_iff {α β : Type} {a : α} {b : β} {P : α → β → Prop} :
    (∀ a' b', (a, b) = (a', b') → P a' b') ↔ P a b := by
  constructor
  · exact fun h => h a b rfl
  · intro h a' b' heq
    cases heq
    exact h

/-! ### Queries -/

theorem length_formatx_le {n : Nat} (h : n ≤ 256) : (formatx n).length ≤ 3 := by
  have hall : ∀ n < 257, (formatx n).length ≤ 3 := by decide +kernel
  exact hall n (by omega)

theorem length_flatMap_le {α : Type} {f : α → List UInt8} {k : Nat} (hf : ∀ a, (f a).length ≤ k)
    (l : List α) : (l.flatMap f).length ≤ l.length * k := by
  induction l with
  | nil => exact Nat.zero_le _
  | cons a l ih =>
    have ha := hf a
    rw [flatMap_cons, length_append, length_cons, Nat.succ_mul]
    omega

theorem length_threadList (s : Stub) : s.threadList.length ≤ 1025 := by
  have hitem (t : PThread) :
      (formatx ((s.thread t).threadId % 256 + 1) ++ text ",").length ≤ 4 := by
    rw [length_append]
    exact Nat.succ_le_succ (length_formatx_le (by omega))
  have hlist := length_flatMap_le hitem
    ((List.range maxThreadCount).filter fun t => (s.thread t).valid)
  have hcount : ((List.range maxThreadCount).filter fun t => (s.thread t).valid).length ≤ 256 := by
    refine (length_filter_le _ _).trans ?_
    rw [length_range]
    exact Nat.le_refl _
  rw [Stub.threadList, length_append]
  have hm : (text "m").length = 1 := rfl
  omega

theorem length_hexPairs (l : List UInt8) : (hexPairs l).length ≤ l.length * 2 := by
  refine length_flatMap_le (fun ch => ?_) l
  split
  · exact Nat.le_refl _
  · exact Nat.le_refl _

/-- Which queries get a reply. -/
def AnswerableQuery (s : Stub) (b : Buffer) : Prop :=
  match queryLetter (b 1) with
  | .T => b 2 = 0x68 → ∃ cnt thread ptr, hexToInt b 17 = some (cnt, thread, ptr) ∧
      (s.threadExtraInfo (threadGetPool (thread - 1).toInt)).length < 512
  | .P => ∀ mask thread, parseqp b = some (mask, thread) → mask &&& ~~~0x1F = 0 →
      ∃ bytes, packqq mask thread ((threadGetPool (thread - 1).toInt).map fun t =>
        (((s.pool.name t).map nameBytes).getD [], s.nameField t)) = some bytes ∧ Fits bufmax bytes
  | .other => False
  | _ => True

theorem parseExtraInfo_replies_iff :
    Replies (s.parseExtraInfo b) 1 ↔ ∃ cnt thread ptr, hexToInt b 17 = some (cnt, thread, ptr) ∧
      (s.threadExtraInfo (threadGetPool (thread - 1).toInt)).length < 512 := by
  have hinfo (info : List UInt8) : Replies (if info.length + 1 > bufmax / 4 then .error .outside
      else s.answerFrom bufmax (hexPairs info)) 1 ↔ info.length < 512 := by
    have hquarter : bufmax / 4 = 512 := rfl
    split
    · exact iff_of_false (not_replies_error _ _) (by omega)
    · have hlen := length_hexPairs info
      refine iff_of_true (replies_answerFrom.mpr (fits_of_length ?_)) (by omega)
      omega
  rw [Stub.parseExtraInfo, replies_readHex]
  simp only [hinfo]

theorem parseThreadInfo_replies_iff :
    Replies (s.parseThreadInfo b) 1 ↔ ∀ mask thread, parseqp b = some (mask, thread) →
      mask &&& ~~~0x1F = 0 → ∃ bytes, packqq mask thread
        ((threadGetPool (thread - 1).toInt).map fun t =>
          (((s.pool.name t).map nameBytes).getD [], s.nameField t)) = some bytes ∧
        Fits bufmax bytes := by
  rw [Stub.parseThreadInfo]
  rcases hparse : parseqp b with - | ⟨mask, thread⟩
  · refine iff_of_true (replies_answer.mpr (by decide)) ?_
    intro mask thread h
    cases h
  · dsimp only
    simp only [Option.some.injEq, forall_parsed_iff]
    by_cases hmask : mask &&& ~~~0x1F = 0
    · rw [if_neg (not_not.mpr hmask)]
      rcases packqq mask thread _ with - | bytes
      · refine iff_of_false (not_replies_error _ _) fun h => ?_
        obtain ⟨bytes, hbytes, -⟩ := h hmask
        cases hbytes
      · rw [replies_answerFrom]
        constructor
        · exact fun h _ => ⟨bytes, rfl, h⟩
        · intro h
          obtain ⟨bytes', hbytes, hfits⟩ := h hmask
          cases hbytes
          exact hfits
    · rw [if_pos hmask]
      exact iff_of_true (replies_answer.mpr (by decide)) fun h => absurd h hmask

theorem parseQuery_replies_iff : Replies (s.parseQuery b) 1 ↔ AnswerableQuery s b := by
  rw [Stub.parseQuery, AnswerableQuery]
  cases queryLetter (b 1) with
  | S =>
    refine iff_of_true (replies_answer.mpr ?_) True.intro
    split <;> decide
  | C =>
    refine iff_of_true ?_ True.intro
    dsimp only
    split
    · exact replies_answerFrom.mpr (fits_of_length (by decide))
    · refine replies_answerFrom.mpr (fits_of_length ?_)
      rw [length_append]
      have hid := length_hexText hexChar 8 ((s.thread ‹_›).threadId % 256 + 1)
      change 2 + (formatx _).length + 5 ≤ 2048
      rw [formatx]
      omega
  | A | O | s => exact iff_of_true (replies_answer.mpr (by decide)) True.intro
  | f =>
    -- the ids of all threads of the pool have room in the buffer
    have hlen := length_threadList s
    refine iff_of_true (replies_answerFrom.mpr (fits_of_length ?_)) True.intro
    change _ ≤ 2048
    omega
  | T =>
    by_cases hinfo : b 2 = 0x68
    · rw [if_pos hinfo, parseExtraInfo_replies_iff]
      exact ⟨fun h _ => h, fun h => h hinfo⟩
    · rw [if_neg hinfo]
      exact iff_of_true (replies_answer.mpr (by decide)) fun h => absurd h hinfo
  | P => exact parseThreadInfo_replies_iff
  | other =>
    -- the `default` of the inner `switch` sends nothing
    exact iff_of_false not_replies_silent id

/-! ### The other commands -/

/-- The two threads of the debugger are threads of the pool, and a valid thread
has a processor. -/
structure Stub.Sound (s : Stub) : Prop where
  homed : s.pool.Homed
  ctrl : ∃ t < maxThreadCount, s.ctrlthread = some t
  other : ∃ t < maxThreadCount, s.otherthread = some t

theorem parseH_replies_iff : Replies (s.parseH b) 1 ↔ (hexToInt b 2).isSome = true := by
  rw [Stub.parseH, replies_readHex, Option.isSome_iff_exists]
  constructor
  · rintro ⟨cnt, thread, ptr, hread, -⟩
    exact ⟨_, hread⟩
  · rintro ⟨r, hread⟩
    refine ⟨r.1, r.2.1, r.2.2, hread, ?_⟩
    -- whatever is chosen, the reply is "OK" or "E01"
    have hok (s : Stub) : Replies (s.answer (text "OK")) 1 := replies_answer.mpr (by decide)
    have hno (s : Stub) : Replies (s.answer (text "E01")) 1 := replies_answer.mpr (by decide)
    dsimp only
    split
    · split
      · exact hok _
      · split
        · exact hok _
        · exact hno _
    · split
      · split
        · exact hok _
        · split
          · exact hok _
          · exact hno _
      · exact hno _

theorem length_format02X {n : Nat} : (format02X n).length ≤ 2 ↔ n < 256 := by
  rw [format02X]
  split
  · exact iff_of_true (Nat.le_refl _) (by omega)
  · rw [hexText, if_neg ‹_›, length_append, hexText]
    split
    · exact iff_of_true (Nat.le_refl _) (by omega)
    · rw [length_append, hexText]
      refine iff_of_false ?_ (by omega)
      split
      · simp
      · simp only [length_append, length_cons, length_nil]
        omega

theorem halt_replies_iff :
    Replies (s.answerFrom 4 (text "S" ++ format02X s.signal.toNat)) 1 ↔ s.signal.toNat < 256 := by
  rw [replies_answerFrom, ← length_format02X, Fits, length_append]
  have htake := length_takeWhile_le (text "S" ++ format02X s.signal.toNat)
  rw [length_append] at htake
  have hS : (text "S").length = 1 := rfl
  have hmax : bufmax = 2048 := rfl
  omega

theorem length_lowBytes (k : Nat) (v : UInt64) : (lowBytes k v).length = k := by
  rw [lowBytes, length_map, length_range]

theorem length_bytes (c : Context) : c.bytes.length = 412 := by
  have hall (k : Nat) (f : Fin 32 → UInt64) :
      ((List.finRange 32).flatMap fun reg => lowBytes k (f reg)).length = 32 * k := by
    rw [length_flatMap]
    simp only [length_lowBytes, map_const', sum_replicate]
    rfl
  simp only [Context.bytes, length_append, length_lowBytes, hall]

theorem parseG_replies (s : Stub) : Replies s.parseG 1 := by
  rw [Stub.parseG]
  split
  · exact replies_answer.mpr (by decide)
  · refine replies_answerFrom.mpr (fits_of_length ?_)
    rw [length_mem2hstr, length_bytes]
    decide

theorem hexChar_ne_zero {n : Nat} (h : n < 16) : hexChar n ≠ 0 := by
  have hall : ∀ n < 16, hexChar n ≠ 0 := by decide
  exact hall n h

theorem takeWhile_mem2hstr (mem : List UInt8) :
    (mem2hstr mem).takeWhile (· ≠ 0) = mem2hstr mem := by
  rw [takeWhile_eq_self_iff]
  intro c hc
  obtain ⟨ch, -, hch⟩ := mem_flatMap.mp hc
  have hlt := ch.toNat_lt
  refine decide_eq_true ?_
  simp only [mem_cons, not_mem_nil, or_false] at hch
  rcases hch with rfl | rfl
  · exact hexChar_ne_zero (by omega)
  · exact hexChar_ne_zero (by omega)

theorem fits_mem2hstr_iff {mem : List UInt8} : Fits bufmax (mem2hstr mem) ↔ mem.length ≤ 1021 := by
  have hmax : bufmax = 2048 := rfl
  rw [Fits, takeWhile_mem2hstr, length_mem2hstr]
  omega

/-- In a closed buffer the range of an `m` packet is read. -/
theorem parseRange_ok (hb : b.Closed 1) : ∃ r, parseRange b = .ok r := by
  obtain ⟨cnt, addr, ptr, hread, hptr⟩ := hexToInt_closed hb
  rw [parseRange, readHex_eq_ok.mpr hread]
  change ∃ r, (if cnt = 0 then _ else _) = _
  split
  · exact ⟨_, rfl⟩
  · split
    · exact ⟨_, rfl⟩
    · rename_i hcomma
      have hnext := hptr.succ fun hz => hcomma (by rw [hz]; decide)
      obtain ⟨cnt', len, ptr', hread', -⟩ := hexToInt_closed hnext
      rw [readHex_eq_ok.mpr hread']
      change ∃ r, (if cnt' = 0 then _ else _) = _
      split
      · exact ⟨_, rfl⟩
      · split
        · exact ⟨_, rfl⟩
        · exact ⟨_, rfl⟩

theorem parseM_replies_iff (hb : b.Closed 1) :
    Replies (s.parseM b) 1 ↔ ∀ addr len, parseRange b = .ok (.ok (addr, len)) →
      len.toInt ≤ 1021 ∧ ∀ k < len.toInt.toNat, s.mapped (addr + BitVec.ofNat 32 k) = true := by
  obtain ⟨r, hr⟩ := parseRange_ok hb
  rw [Stub.parseM, hr]
  cases r with
  | error e =>
    have hanswer : Replies (s.answer (text "E0" ++ [hexChar e])) 1 :=
      replies_answer.mpr (show 3 + 5 ≤ 2048 by decide)
    refine iff_of_true hanswer fun addr len h => ?_
    cases h
  | ok r =>
    simp only [Except.ok.injEq, forall_parsed_iff]
    change Replies (if _ then _ else _) 1 ↔ _
    simp only [all_eq_true, mem_map, mem_range, forall_exists_index, and_imp,
      forall_apply_eq_imp_iff₂]
    split
    · rename_i hall
      rw [replies_answerFrom, fits_mem2hstr_iff, length_map, length_map,
        length_range]
      constructor
      · exact fun h => ⟨by omega, hall⟩
      · exact fun h => by omega
    · exact iff_of_false (not_replies_error _ _) fun h => ‹¬ _› h.2

theorem resume_ok (hhomed : s.pool.Homed) : ∃ s', s.resume = .ok s' ∧ s'.pool.Homed := by
  obtain ⟨pool, hpool, hhomed'⟩ :=
    hhomed.toggle (resumePass (s.pool.machine.thread s.current).threadId) 1 0
  rw [Stub.resume, resumeThreads, hpool]
  exact ⟨_, rfl, hhomed'⟩

theorem parseD_replies (hs : s.Sound) : Replies s.parseD 1 := by
  obtain ⟨s', hresume, -⟩ := resume_ok (s := { s with attached := false }) hs.homed
  refine replies_bind.mpr ⟨s', hresume, ⟨1, s', [text "OK"]⟩, rfl, rfl⟩

theorem parseContinue_replies (hs : s.Sound) : Replies s.parseContinue 0 := by
  obtain ⟨s', hresume, -⟩ := resume_ok (s := { s with signal := 3 }) hs.homed
  exact replies_bind.mpr ⟨s', hresume, _, rfl, rfl⟩

theorem parseContinueSignal_replies (hs : s.Sound) (hb : b.Closed 1) :
    Replies (s.parseContinueSignal b) 0 := by
  obtain ⟨cnt, val, ptr, hread, -⟩ := hexToInt_closed hb
  obtain ⟨s', hresume, -⟩ := resume_ok (s := { s with signal := val }) hs.homed
  exact replies_readHex.mpr ⟨_, _, _, hread, replies_bind.mpr ⟨s', hresume, _, rfl, rfl⟩⟩

/-- Single step changes neither `Valid` nor the processor of a thread. -/
theorem homed_enableSingleStep {d : DebugPool} (h : d.Homed) (t : PThread) :
    DebugPool.Homed { d with machine := d.machine.modifyThread t enableSingleStep } := by
  intro x hx
  rw [thread_modifyThread]
  split
  · exact h x hx
  · exact h x hx

theorem parseStep_replies (hs : s.Sound) : Replies s.parseStep 0 := by
  obtain ⟨t, -, hctrl⟩ := hs.ctrl
  obtain ⟨s', hresume, -⟩ := resume_ok (s := { s with pool := { s.pool with
    machine := s.pool.machine.modifyThread t enableSingleStep } })
    (homed_enableSingleStep hs.homed t)
  rw [Stub.parseStep]
  split
  · rename_i hnone
    rw [hctrl] at hnone
    cases hnone
  · rename_i t' hsome
    obtain rfl : t = t' := Option.some_inj.mp (hctrl.symm.trans hsome)
    exact replies_bind.mpr ⟨s', hresume, _, rfl, rfl⟩

theorem parseStepSignal_replies (hs : s.Sound) (hb : b.Closed 1) :
    Replies (s.parseStepSignal b) 0 := by
  obtain ⟨cnt, val, ptr, hread, -⟩ := hexToInt_closed hb
  exact replies_readHex.mpr ⟨_, _, _, hread, parseStep_replies ⟨hs.homed, hs.ctrl, hs.other⟩⟩

theorem parseT_replies (hb : b.Closed 1) : Replies (s.parseT b) 1 := by
  obtain ⟨cnt, val, ptr, hread, -⟩ := hexToInt_closed hb
  exact replies_readHex.mpr ⟨_, _, _, hread, replies_answer.mpr (by decide)⟩

/-- `z` and `Z`: the type has to be 0, and the call has to return. -/
theorem parseBreakpoint_replies_iff {call : WordMemory → Address → Except GdbFault WordMemory} :
    Replies (s.parseBreakpoint b call) 1 ↔ ∀ r, parsezbreak b = some r →
      r.type = 0 ∧ (4 ≤ r.len.toInt → ∃ m, call s.memory r.addr = .ok m) := by
  rw [Stub.parseBreakpoint]
  rcases hparse : parsezbreak b with - | r
  · exact iff_of_true (replies_answer.mpr (by decide)) fun r h => nomatch h
  · dsimp only
    simp only [Option.some.injEq, forall_eq']
    by_cases htype : r.type = 0
    · rw [if_neg (not_not.mpr htype)]
      by_cases hlen : r.len.toInt < 4
      · rw [if_pos hlen]
        exact iff_of_true (replies_answer.mpr (by decide)) ⟨htype, fun h => by omega⟩
      · rw [if_neg hlen, replies_bind]
        constructor
        · rintro ⟨m, hm, -⟩
          exact ⟨htype, fun _ => ⟨m, hm⟩⟩
        · rintro ⟨-, h⟩
          obtain ⟨m, hm⟩ := h (by omega)
          exact ⟨m, hm, replies_answer.mpr (by decide)⟩
    · rw [if_pos htype]
      exact iff_of_false not_replies_silent fun h => htype h.1

theorem guarded_ok_iff {c : Prop} [Decidable c] {m : WordMemory} :
    (∃ m', (if c then .error .unmapped else .ok m : Except GdbFault _) = .ok m') ↔ ¬ c := by
  split
  · exact iff_of_false (fun ⟨m', hm⟩ => nomatch hm) (not_not.mpr ‹c›)
  · exact iff_of_true ⟨m, rfl⟩ ‹¬ c›

theorem callRemove_ok_iff {m : WordMemory} {addr : Address} :
    (∃ m', s.callRemove t m addr = .ok m') ↔
      (getBreakpoint t m addr ≠ none → s.mapped addr = true) := by
  rw [Stub.callRemove, guarded_ok_iff, not_and, Bool.not_eq_false]

theorem callSet_ok_iff {m : WordMemory} {addr : Address} :
    (∃ m', s.callSet t m addr = .ok m') ↔
      (getBreakpoint t m addr = none → freeBreakpoint t m ≠ none → s.mapped addr = true) := by
  rw [Stub.callSet, guarded_ok_iff, not_and, not_and, Bool.not_eq_false]

/-! ### Which packets are answered -/

/-- The commands after which gdb does not wait. -/
def CommandLetter.resumes : CommandLetter → Bool
  | .c | .C | .S | .s => true
  | _ => false

/-- The packets that get the replies they should: no unknown query and no other kind
of breakpoint; numbers that end; a signal of two digits, and texts that fit; memory
where it is read or written. -/
def Answerable (t : BreakpointTable) (s : Stub) (b : Buffer) : Prop :=
  match commandLetter (b 0) with
  | .q => AnswerableQuery s b
  | .H => (hexToInt b 2).isSome = true
  | .halt => s.signal.toNat < 256
  | .m => ∀ addr len, parseRange b = .ok (.ok (addr, len)) →
      len.toInt ≤ 1021 ∧ ∀ k < len.toInt.toNat, s.mapped (addr + BitVec.ofNat 32 k) = true
  | .z => ∀ r, parsezbreak b = some r → r.type = 0 ∧ (4 ≤ r.len.toInt →
      getBreakpoint t s.memory r.addr ≠ none → s.mapped r.addr = true)
  | .Z => ∀ r, parsezbreak b = some r → r.type = 0 ∧ (4 ≤ r.len.toInt →
      getBreakpoint t s.memory r.addr = none → freeBreakpoint t s.memory ≠ none →
        s.mapped r.addr = true)
  | _ => True

theorem parseCmd_answerable_iff (hs : s.Sound) (hb : b.Closed 0) :
    Replies (parseCmd t s b) (if (commandLetter (b 0)).resumes then 0 else 1) ↔
      Answerable t s b := by
  have hclosed (h : commandLetter (b 0) ≠ .other) : b.Closed 1 := by
    refine hb.succ fun hz => h ?_
    rw [hz]
    rfl
  rw [parseCmd, Answerable]
  cases hletter : commandLetter (b 0) with
  | q => exact parseQuery_replies_iff
  | H => exact parseH_replies_iff
  | halt => exact halt_replies_iff
  | g => exact iff_of_true (parseG_replies s) True.intro
  | D => exact iff_of_true (parseD_replies hs) True.intro
  | m => exact parseM_replies_iff (hclosed (by rw [hletter]; decide))
  | c => exact iff_of_true (parseContinue_replies hs) True.intro
  | C =>
    refine iff_of_true (parseContinueSignal_replies hs (hclosed ?_)) True.intro
    rw [hletter]
    decide
  | S =>
    refine iff_of_true (parseStepSignal_replies hs (hclosed ?_)) True.intro
    rw [hletter]
    decide
  | s => exact iff_of_true (parseStep_replies hs) True.intro
  | T => exact iff_of_true (parseT_replies (hclosed (by rw [hletter]; decide))) True.intro
  | z =>
    refine parseBreakpoint_replies_iff.trans ?_
    simp only [callRemove_ok_iff]
  | Z =>
    refine parseBreakpoint_replies_iff.trans ?_
    simp only [callSet_ok_iff]
  | other => exact iff_of_true (replies_answer.mpr (by decide)) True.intro

/-! ### Breakpoints -/

/-- The entries for a word after the trap is written to it, be it a word of the table:
over the address of an entry it takes the entry away, and over its `valid` it makes
the entry count. -/
theorem isFor_trapped_iff {m : WordMemory} {addr : Address} {j : Nat}
    (hne : breakpointInstr ≠ addr) :
    (t.entry (m.write addr breakpointInstr) j).isFor addr ↔
      t.addrAt j ≠ addr ∧ (t.entry m j).addr = addr ∧
        (t.validAt j = addr ∨ (t.entry m j).valid ≠ 0) := by
  rw [Breakpoint.isFor, BreakpointTable.entry, BreakpointTable.entry]
  dsimp only
  by_cases haddr : t.addrAt j = addr
  · rw [haddr, write_self]
    exact iff_of_false (fun h => hne h.2) fun h => h.1 rfl
  rw [write_of_ne haddr]
  by_cases hvalid : t.validAt j = addr
  · rw [hvalid, write_self]
    exact ⟨fun h => ⟨haddr, h.2, .inl rfl⟩, fun h => ⟨by decide, h.2.1⟩⟩
  · rw [write_of_ne hvalid]
    exact ⟨fun h => ⟨haddr, h.2, .inr h.1⟩, fun h => ⟨h.2.2.resolve_left hvalid, h.2.1⟩⟩

/-- After `set_breakpoint` there is an entry for the address exactly if there was one
or one was free, and the address is not where the entry keeps its own. -/
theorem setBreakpoint_isFor_iff {m : WordMemory} {addr : Address}
    (hne : breakpointInstr ≠ addr) :
    (∃ i < maxBreakpoints, (t.entry (setBreakpoint t m addr).2 i).isFor addr) ↔
      getBreakpoint t m addr ≠ none ∨ ∃ i, freeBreakpoint t m = some i ∧ t.addrAt i ≠ addr := by
  rcases hget : getBreakpoint t m addr with - | i
  · rw [setBreakpoint, hget]
    rcases hfree : freeBreakpoint t m with - | i
    · refine iff_of_false ?_ (by simp)
      rintro ⟨i, hi, hfor⟩
      exact getBreakpoint_none hget i hi hfor
    · obtain ⟨hi, -⟩ := freeBreakpoint_some hfree
      dsimp only
      simp only [isFor_trapped_iff hne, ne_eq, not_true_eq_false, false_or, Option.some.injEq,
        exists_eq_left']
      constructor
      · rintro ⟨j, hj, haddr, hfor, hvalid⟩ heq
        -- an entry other than the new one was for the address before, or its `valid`
        -- was the word that the trap is written to
        have hji : j ≠ i := fun h => haddr (h ▸ heq)
        rw [entry_fill hi hj, if_neg hji] at hfor hvalid
        rcases hvalid with hvalid | hvalid
        · have hj : j < 100 := hj
          have hword := (word_inj (by omega) (by omega)).mp (hvalid.trans heq.symm)
          omega
        · exact getBreakpoint_none hget j hj ⟨hvalid, hfor⟩
      · intro haddr
        refine ⟨i, hi, haddr, ?_⟩
        rw [entry_fill hi hi, if_pos rfl]
        exact ⟨rfl, .inr (show (1 : BitVec 32) ≠ 0 by decide)⟩
  · obtain ⟨hi, hfor⟩ := getBreakpoint_some hget
    refine iff_of_true ⟨i, hi, ?_⟩ (.inl (Option.some_ne_none i))
    rw [setBreakpoint, hget]
    exact hfor

/-- **One reply for each command.**  In a state in which the two threads of the
debugger are pool threads, and for a string in the buffer: `parse_cmd` sends one
packet, or none for a command that resumes, exactly if the packet is answerable.
And a `Z0` packet for a word that is answered with `OK` has an entry afterwards
exactly if there was one or an entry was free, and the word, if it is one of the
table, is not the address of that entry. -/
theorem parseCmd_replies_iff (t : BreakpointTable) (s : Stub) (b : Buffer) (hs : s.Sound)
    (hb : b.Closed 0) :
    (Replies (parseCmd t s b) (if (commandLetter (b 0)).resumes then 0 else 1) ↔
      Answerable t s b) ∧
    (∀ r o, commandLetter (b 0) = .Z → parsezbreak b = some r → r.type = 0 →
      r.addr.toNat % 4 = 0 → parseCmd t s b = .ok o → o.replies = [text "OK"] →
      ((∃ i < maxBreakpoints, (t.entry o.stub.memory i).isFor r.addr) ↔
        getBreakpoint t s.memory r.addr ≠ none ∨
          ∃ i, freeBreakpoint t s.memory = some i ∧ t.addrAt i ≠ r.addr)) := by
  refine ⟨parseCmd_answerable_iff hs hb, ?_⟩
  intro r o hletter hparse htype haligned hrun hreply
  rw [parseCmd, hletter] at hrun
  change s.parseBreakpoint b (s.callSet t) = .ok o at hrun
  rw [Stub.parseBreakpoint, hparse] at hrun
  dsimp only at hrun
  rw [if_neg (not_not.mpr htype)] at hrun
  split at hrun
  · -- a length below 4 is refused, so the reply was not `OK`
    have hno : [text "E02"] ≠ [text "OK"] := by decide
    cases hrun
    exact absurd hreply hno
  · obtain ⟨m, hm, hrun⟩ := bind_eq_ok.mp hrun
    cases hrun
    rw [Stub.callSet] at hm
    split at hm
    · cases hm
    · cases hm
      -- the trap, read as an address, is not that of a word
      refine setBreakpoint_isFor_iff fun heq => ?_
      rw [← heq] at haligned
      exact absurd haligned (by decide)

/-! ### Some packets -/

def packetBuffer (packet : String) : Buffer := fun i => (text packet).getD i 0

/-- A stub for a program of two threads, with all memory there. -/
def debugStub (memory : WordMemory) (signal : BitVec 32) : Stub where
  pool := twoThreads "worker" 0
  current := 0
  nameField _ _ := 0
  memory := memory
  mapped _ := true
  ctrlthread := some 1
  otherthread := some 1
  attached := true
  active := true
  running := false
  signal := signal

theorem sound_debugStub (memory : WordMemory) (signal : BitVec 32) :
    (debugStub memory signal).Sound :=
  ⟨homed_twoThreads "worker" 0, ⟨1, by decide, rfl⟩, ⟨1, by decide, rfl⟩⟩

/-- The replies to a packet. -/
def repliesTo (memory : WordMemory) (signal : BitVec 32) (packet : String) :
    Except GdbFault (List (List UInt8)) :=
  (parseCmd tableAt1000 (debugStub memory signal) (packetBuffer packet)).map GdbOutcome.replies

/-- A breakpoint in an empty table. -/
theorem parseCmd_replies_breakpoint :
    Replies (parseCmd tableAt1000 (debugStub nops 3) (packetBuffer "Z0,90000000,4")) 1 ∧
      ∃ o, parseCmd tableAt1000 (debugStub nops 3) (packetBuffer "Z0,90000000,4") = .ok o ∧
        ∃ i < maxBreakpoints, (tableAt1000.entry o.stub.memory i).isFor 0x90000000 := by
  obtain ⟨hone, hset⟩ := parseCmd_replies_iff tableAt1000 (debugStub nops 3)
    (packetBuffer "Z0,90000000,4") (sound_debugStub nops 3) ⟨13, by decide, by decide, by decide⟩
  have hparse : parsezbreak (packetBuffer "Z0,90000000,4") = some ⟨0, 0x90000000, 4⟩ := by
    decide +kernel
  have hans : Answerable tableAt1000 (debugStub nops 3) (packetBuffer "Z0,90000000,4") := by
    intro r hr
    rw [hparse] at hr
    cases hr
    exact ⟨rfl, fun _ _ _ => rfl⟩
  have hreplies : repliesTo nops 3 "Z0,90000000,4" = .ok [text "OK"] := by decide +kernel
  obtain ⟨o, ho, hlen⟩ := hone.mpr hans
  refine ⟨hone.mpr hans, o, ho, ?_⟩
  rw [repliesTo, ho] at hreplies
  refine (hset _ o (by decide) hparse rfl (by decide) ho (Except.ok.inj hreplies)).mpr ?_
  exact .inr ⟨0, by decide +kernel, by decide⟩

/-- All entries are for other addresses. -/
def fullTable : WordMemory := fun a =>
  if a.toNat % 12 = 8 then 0x80000000 + a else 1

/-- An unknown query and a breakpoint of another kind get no reply; 1024 bytes of
memory and a signal of three digits run over the end of an array.  And with a full table a `Z0` packet is answered with `OK`, but
there is no entry. -/
theorem parseCmd_unanswered :
    repliesTo nops 3 "qX" = .ok [] ∧
    repliesTo nops 3 "Z1,90000000,4" = .ok [] ∧
    repliesTo nops 3 "m80000000,400" = .error .outside ∧
    repliesTo nops 0x100 "?" = .error .outside ∧
    repliesTo fullTable 3 "Z0,90000000,4" = .ok [text "OK"] ∧
    (parseCmd tableAt1000 (debugStub fullTable 3) (packetBuffer "Z0,90000000,4")).map
      (fun o => getBreakpoint tableAt1000 o.stub.memory 0x90000000) = .ok none := by
  refine ⟨?_, ?_, ?_, ?_, ?_, ?_⟩
  all_goals decide +kernel

/-! ### Sessions -/

/-- If `parse_cmd` returns, the stub has a property. -/
def KeepsStub (P : Stub → Prop) (r : Except GdbFault GdbOutcome) : Prop := ∀ o, r = .ok o → P o.stub

section Keeping

variable {P : Stub → Prop}

theorem keeps_error (e : GdbFault) : KeepsStub P (.error e) := nofun

theorem keeps_answer (h : P s) {reply : List UInt8} : KeepsStub P (s.answer reply) := by
  intro o ho
  rw [Stub.answer] at ho
  split at ho
  · cases ho
  · cases ho
    exact h

theorem keeps_answerFrom (h : P s) {size : Nat} {bytes : List UInt8} :
    KeepsStub P (s.answerFrom size bytes) := by
  rw [Stub.answerFrom]
  split
  · exact keeps_error _
  · exact keeps_answer h

theorem keeps_silent (h : P s) : KeepsStub P s.silent := by
  intro o ho
  cases ho
  exact h

theorem keeps_bind {α : Type} {x : Except GdbFault α} {f : α → Except GdbFault GdbOutcome}
    (h : ∀ a, x = .ok a → KeepsStub P (f a)) : KeepsStub P (x >>= f) := by
  intro o ho
  obtain ⟨a, ha, hf⟩ := bind_eq_ok.mp ho
  exact h a ha o hf

end Keeping

theorem threadGetPool_lt {i : Int} {x : PThread} (h : threadGetPool i = some x) :
    x < maxThreadCount := by
  rw [threadGetPool] at h
  split at h
  · rename_i hrange
    obtain rfl := Option.some_inj.mp h
    have hlt : i < 256 := hrange.2
    change i.toNat < 256
    omega
  · cases h

theorem keeps_resume (hs : s.Sound) {f : Stub → Except GdbFault GdbOutcome}
    (hf : ∀ s' : Stub, s'.Sound → KeepsStub Stub.Sound (f s')) :
    KeepsStub Stub.Sound (s.resume >>= f) := by
  refine keeps_bind fun s' hs' => hf s' ?_
  obtain ⟨s'', hresume, hhomed⟩ := resume_ok hs.homed
  obtain rfl : s'' = s' := Except.ok.inj (hresume.symm.trans hs')
  rw [Stub.resume] at hs'
  split at hs'
  · cases hs'
  · cases hs'
    exact ⟨hhomed, hs.ctrl, hs.other⟩

theorem keeps_parseStep (hs : s.Sound) : KeepsStub Stub.Sound s.parseStep := by
  rw [Stub.parseStep]
  split
  · exact keeps_error _
  · refine keeps_resume ?_ fun s' hs' => keeps_silent hs'
    exact ⟨homed_enableSingleStep hs.homed _, hs.ctrl, hs.other⟩

theorem keeps_parseH (hs : s.Sound) : KeepsStub Stub.Sound (s.parseH b) := by
  refine keeps_bind fun r _ => ?_
  dsimp only
  have hpool {i : Int} {p : PThread → Bool} (h : ((threadGetPool i).filter p).isSome = true) :
      ∃ x < maxThreadCount, (threadGetPool i).filter p = some x := by
    obtain ⟨x, hx⟩ := Option.isSome_iff_exists.mp h
    exact ⟨x, threadGetPool_lt (Option.filter_eq_some_iff.mp hx).1, hx⟩
  split
  · split
    · exact keeps_answer hs
    · split
      · rename_i hsome
        exact keeps_answer ⟨hs.homed, hpool hsome, hs.other⟩
      · exact keeps_answer hs
  · split
    · split
      · exact keeps_answer hs
      · split
        · rename_i hsome
          exact keeps_answer ⟨hs.homed, hs.ctrl, hpool hsome⟩
        · exact keeps_answer hs
    · exact keeps_answer hs

theorem sound_setEmptyName (hs : s.Sound) (mask : BitVec 32) (pthr : Option PThread) :
    (s.setEmptyName mask pthr).Sound := by
  cases pthr with
  | none => exact hs
  | some x =>
    rw [Stub.setEmptyName]
    split
    · exact ⟨hs.homed, hs.ctrl, hs.other⟩
    · exact hs

theorem keeps_parseQuery (hs : s.Sound) : KeepsStub Stub.Sound (s.parseQuery b) := by
  rw [Stub.parseQuery]
  cases queryLetter (b 1) with
  | C =>
    dsimp only
    split
    · exact keeps_answerFrom hs
    · exact keeps_answerFrom hs
  | S | A | O | s => exact keeps_answer hs
  | f => exact keeps_answerFrom hs
  | T =>
    dsimp only
    split
    · refine keeps_bind fun r _ => ?_
      dsimp only
      split
      · exact keeps_error _
      · exact keeps_answerFrom hs
    · exact keeps_answer hs
  | P =>
    dsimp only
    rw [Stub.parseThreadInfo]
    split
    · exact keeps_answer hs
    · split
      · exact keeps_answer hs
      · dsimp only
        split
        · exact keeps_error _
        · exact keeps_answerFrom (sound_setEmptyName hs _ _)
  | other => exact keeps_silent hs

theorem keeps_parseBreakpoint (hs : s.Sound)
    {call : WordMemory → Address → Except GdbFault WordMemory} :
    KeepsStub Stub.Sound (s.parseBreakpoint b call) := by
  rw [Stub.parseBreakpoint]
  split
  · exact keeps_answer hs
  · split
    · exact keeps_silent hs
    · split
      · exact keeps_answer hs
      · exact keeps_bind fun m _ => keeps_answer ⟨hs.homed, hs.ctrl, hs.other⟩

theorem parseCmd_sound (hs : s.Sound) : KeepsStub Stub.Sound (parseCmd t s b) := by
  rw [parseCmd]
  -- one case for each letter; most change nothing that counts
  cases commandLetter (b 0) with
  | q => exact keeps_parseQuery hs
  | H => exact keeps_parseH hs
  | halt => exact keeps_answerFrom hs
  | g =>
    dsimp only
    rw [Stub.parseG]
    split
    · exact keeps_answer hs
    · exact keeps_answerFrom hs
  | D =>
    refine keeps_resume (s := { s with attached := false }) ⟨hs.homed, hs.ctrl, hs.other⟩ ?_
    exact fun s' hs' => keeps_bind fun o ho => fun o' ho' => by
      cases ho'
      exact keeps_answer hs' o ho
  | m =>
    refine keeps_bind fun r _ => ?_
    split
    · exact keeps_answer hs
    · dsimp only
      split
      · exact keeps_answerFrom hs
      · exact keeps_error _
  | c =>
    refine keeps_resume ?_ fun s' hs' => keeps_silent hs'
    exact ⟨hs.homed, hs.ctrl, hs.other⟩
  | C =>
    refine keeps_bind fun r _ => keeps_resume ?_ fun s' hs' => keeps_silent hs'
    exact ⟨hs.homed, hs.ctrl, hs.other⟩
  | S => exact keeps_bind fun r _ => keeps_parseStep ⟨hs.homed, hs.ctrl, hs.other⟩
  | s => exact keeps_parseStep hs
  | T => exact keeps_bind fun r _ => keeps_answer hs
  | z | Z => exact keeps_parseBreakpoint hs
  | other => exact keeps_answer hs

/-- The stub takes a packet, if `parse_cmd` returns. -/
def gdbStep (t : BreakpointTable) (s : Stub) (b : Buffer) : Option Stub :=
  match parseCmd t s b with
  | .error _ => none
  | .ok o => some o.stub

/-- **Whole sessions.**  Through any packets the two threads stay in the pool; so
an answerable packet gets its reply wherever the session has come to. -/
theorem session_replies {s₀ : Stub} (h₀ : s₀.Sound)
    (h : Reach (gdbStep t) (fun _ _ => True) s₀ s) (hb : b.Closed 0) (hans : Answerable t s b) :
    Replies (parseCmd t s b) (if (commandLetter (b 0)).resumes then 0 else 1) := by
  have hs : s.Sound := by
    refine h.invariant (I := Stub.Sound) h₀ fun s b s' hs _ hstep => ?_
    rw [gdbStep] at hstep
    split at hstep
    · cases hstep
    · rename_i o ho
      cases hstep
      exact parseCmd_sound hs o ho
  exact (parseCmd_answerable_iff hs hb).mpr hans

/-- With a breakpoint set and the program gone on, the registers are sent. -/
theorem session_replies_registers :
    ∃ s, Reach (gdbStep tableAt1000) (fun _ _ => True) (debugStub nops 3) s ∧
      Replies (parseCmd tableAt1000 s (packetBuffer "g")) 1 := by
  exact exists_reach_imp [packetBuffer "Z0,90000000,4", packetBuffer "c"] (fun _ => True)
    (by decide +kernel) fun s hr _ => session_replies (sound_debugStub nops 3) hr
      ⟨1, by decide, by decide, by decide⟩ trivial

end LibXenon
