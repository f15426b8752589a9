/-
LibXenon/WorkingDirectory.lean

`chdir` of newlib.c and the working directory.

`chdir` copies the path, or without a colon in it the working directory, into
an array on its stack, looks for the colon there, applies the rest of the path
with `_concatenate_path` and asks the device.  Only when the device agrees are
the working directory and the default device changed.

The working directory starts as `/`, without a device.  The search for the
colon then fails, and the byte behind NULL is examined.  A directory with a
device is kept by every later call (`workDir_of_reach`), with two provisos: the
device name in the path has no separator in it, since `_concatenate_path` takes
the first separator for the root; and the array is long enough.
-/
import LibXenon.PathResolution
import LibXenon.VfsNames

namespace LibXenon

open ByteMemory CStrings Transition List

/-! ### `chdir` -/

/-- The tables of the file layer and `_current_working_directory`, up to its
first NUL. -/
structure WorkDir where
  vfs : Vfs
  cwd : List Char

/-- A call: the path, where `temp_cwd` lies on the stack and what the stack
holds, and what `chdir_r` of the device returns if it is asked. -/
structure ChdirCall where
  path : List Char
  noNul : NUL ∉ path
  temp : Nat
  stack : Nat → Char
  answer : Int

/-- What must not happen: `NULL + 1` is examined, a string is not terminated,
or an index is outside `devoptab_list`. -/
inductive ChdirFault
  | failedSearch
  | unterminated
  | device (fault : Fault)
  deriving DecidableEq, Repr

inductive ChdirErrno
  | path (errno : PathErrno)
  | ENODEV
  | driver
  deriving DecidableEq, Repr

/-- Whether a device has `chdir_r`: the two devices of newlib.c have not. -/
def Devoptab.hasChdir (drivers : Nat → Bool) (d : Devoptab) : Bool :=
  d.address != consoleOptab.address && d.address != dotabStdnull.address && drivers d.address

/-- The string at `p`, if it ends within `n` bytes. -/
def stringAt (m : Nat → Char) (p n : Nat) : Option (List Char) :=
  if strnlen m p n < n then some (load m p (strnlen m p n)) else none

/-- What is copied into `temp_cwd`. -/
def chdirSource (s : WorkDir) (path : List Char) : List Char :=
  if ':' ∈ path then path else s.cwd

/-- The path behind the device name. -/
def chdirExtra (path : List Char) : List Char :=
  if ':' ∈ path then (path.dropWhile (· != ':')).drop 1 else path

/-- The end of `chdir`: find the device of the new directory and ask it. -/
def chdirDevice (drivers : Nat → Bool) (maxPathLen : Nat) (s : WorkDir) (answer : Int)
    (temp : List Char) : Except ChdirFault (Option ChdirErrno × WorkDir) :=
  if s.vfs.findDevice temp < 0 then .ok (some .ENODEV, s)
  else
    match s.vfs.deviceAt (s.vfs.findDevice temp) with
    | .error fault => .error (.device fault)
    | .ok device =>
      if device.hasChdir drivers = false then .ok (some .ENODEV, s)
      else if answer = -1 then .ok (some .driver, s)
      else .ok (none,
        { vfs := s.vfs.setDefaultDevice (BitVec.ofInt 32 (s.vfs.findDevice temp))
          cwd := temp.take maxPathLen })

/-- `chdir`: the error if it returns -1.  `_concatenate_path` leaves a string of
at most two bytes too many. -/
def chdir (drivers : Nat → Bool) (maxPathLen : Nat) (s : WorkDir) (call : ChdirCall) :
    Except ChdirFault (Option ChdirErrno × WorkDir) :=
  if maxPathLen ≤ call.path.length then .ok (some (.path .ENAMETOOLONG), s)
  else
    let mem := store call.stack call.temp (strncpyBytes (chdirSource s call.path) maxPathLen)
    match strchr mem ':' call.temp maxPathLen with
    | none => .error .unterminated
    | some none => .error .failedSearch
    | some (some colon) =>
      if mem (colon + 1) ≠ '/' then .ok (some (.path .ENOENT), s)
      else
        match concatenatePath maxPathLen call.temp ⟨mem, []⟩ (chdirExtra call.path) with
        | none => .error .unterminated
        | some (some errno, _) => .ok (some (.path errno), s)
        | some (none, buf) =>
          match stringAt buf.mem call.temp (maxPathLen + 2) with
          | none => .error .unterminated
          | some temp => chdirDevice drivers maxPathLen s call.answer temp

/-- Calls, and devices that come and go. -/
inductive WorkDirAct
  | addDevice (device : Devoptab)
  | removeDevice (path : List Char)
  | chdir (call : ChdirCall)

def workDirStep (drivers : Nat → Bool) (maxPathLen : Nat) (s : WorkDir) :
    WorkDirAct → Option WorkDir
  | .addDevice device => some { s with vfs := s.vfs.addDevice device }
  | .removeDevice path => (s.vfs.removeDevice path).map fun vfs => { s with vfs }
  | .chdir call => (LibXenon.chdir drivers maxPathLen s call).toOption.map Prod.snd

/-- Before the first call. -/
def WorkDir.start : WorkDir := ⟨Vfs.start, ['/']⟩

/-! ### Good calls and good states -/

/-- The path names a device without a separator, or the working directory has a
device; and every directory on the way fits. -/
def ChdirCall.Good (maxPathLen : Nat) (s : WorkDir) (call : ChdirCall) : Prop :=
  (if ':' ∈ call.path then '/' ∉ call.path.takeWhile (· != ':') else ':' ∈ s.cwd) ∧
    ∀ d ∈ passed maxPathLen (chdirSource s call.path) (chdirExtra call.path),
      d.length < maxPathLen

instance (maxPathLen : Nat) (s : WorkDir) (call : ChdirCall) :
    Decidable (call.Good maxPathLen s) :=
  inferInstanceAs (Decidable ((if ':' ∈ call.path then '/' ∉ call.path.takeWhile (· != ':')
    else ':' ∈ s.cwd) ∧ ∀ d ∈ passed maxPathLen (chdirSource s call.path) (chdirExtra call.path),
      d.length < maxPathLen))

/-- `device:/` and names, each with a separator. -/
def Rooted (dir : List Char) : Prop :=
  ∃ device names, dir = pathText device names ∧ ('/' ∉ device ∧ ':' ∉ device) ∧
    ∀ n ∈ names, '/' ∉ n

/-- The working directory is an absolute path of the default device. -/
def WorkDir.NamesDefault (s : WorkDir) : Prop :=
  Rooted s.cwd ∧ s.vfs.findDevice s.cwd = s.vfs.defaultDevice

structure WorkDir.Sound (drivers : Nat → Bool) (maxPathLen : Nat) (s : WorkDir) : Prop where
  cwd : s.cwd = ['/'] ∨ Rooted s.cwd
  noNul : NUL ∉ s.cwd
  length_lt : s.cwd.length < maxPathLen
  console : ∀ i < 3, (s.vfs.devoptabList i).hasChdir drivers = false

variable {drivers : Nat → Bool} {maxPathLen : Nat} {s s' : WorkDir} {call : ChdirCall}

theorem WorkDir.Sound.start (hlen : 1 < maxPathLen) : WorkDir.start.Sound drivers maxPathLen where
  cwd := .inl rfl
  noNul := by decide
  length_lt := hlen
  console := by
    intro i hi
    have hslot : WorkDir.start.vfs.devoptabList i = consoleOptab := if_pos hi
    rw [hslot]
    rfl

/-! ### What a call reads -/

/-- `strncpy` of a string that is shorter than the array. -/
theorem cstring_strncpy {text : List Char} {n : Nat} (m : Nat → Char) (p : Nat)
    (hnul : NUL ∉ text) (hlen : text.length < n) :
    CString (store m p (strncpyBytes text n)) p text := by
  obtain ⟨k, hk⟩ : ∃ k, n - text.length = k + 1 := ⟨n - text.length - 1, by omega⟩
  have hbytes : strncpyBytes text n = text ++ NUL :: List.replicate k NUL := by
    rw [strncpyBytes, take_of_length_le hlen.le, hk]
    rfl
  rw [hbytes]
  refine ⟨⟨load_eq_iff.mpr fun i hi => ?_, hnul⟩, ?_⟩
  · rw [store_inside (by rw [length_append]; omega), getElem_append_left hi]
  · rw [store_inside (by simp)]
    simp

theorem separator_of_mem {m : Nat → Char} {p : Nat} {text : List Char} (htext : CString m p text)
    (hcolon : ':' ∈ text) (hslash : m (p + (text.takeWhile (· != ':')).length + 1) = '/') :
    ∃ rest, text = text.takeWhile (· != ':') ++ ':' :: '/' :: rest := by
  obtain ⟨u, r, rfl, hu⟩ := eq_append_cons_of_mem hcolon
  rw [takeWhile_name hu] at hslash ⊢
  rcases r with - | ⟨b, rest⟩
  · have hstop := htext.stop
    rw [length_append, length_singleton, ← Nat.add_assoc, hslash] at hstop
    exact absurd hstop (by decide)
  · have hbehind := (text_cons_iff.mp (text_append_iff.mp htext.toText).2).2.2
    rw [(text_cons_iff.mp hbehind).1] at hslash
    exact ⟨rest, by rw [hslash]⟩

/-- What both kinds of call start from: a string with a colon, and if a
separator follows the colon, a directory of the device in front of it. -/
structure Prepared (maxPathLen : Nat) (text extra : List Char) : Prop where
  noNul : NUL ∉ text ∧ NUL ∉ extra
  length_lt : text.length < maxPathLen
  colon : ':' ∈ text
  start : ∀ rest, text = text.takeWhile (· != ':') ++ ':' :: '/' :: rest →
    (extra = [] → text.getLast? = some '/') ∧ ∃ device names,
      startDir text extra = pathText device names ∧ ('/' ∉ device ∧ ':' ∉ device) ∧
        ∀ n ∈ names, '/' ∉ n

theorem prepared_of_good (hS : s.Sound drivers maxPathLen) (hgood : call.Good maxPathLen s)
    (hshort : call.path.length < maxPathLen) :
    Prepared maxPathLen (chdirSource s call.path) (chdirExtra call.path) := by
  obtain ⟨hdevice, -⟩ := hgood
  rw [chdirSource, chdirExtra]
  by_cases hcolon : ':' ∈ call.path
  · -- the path names a device: the text in front of the colon is the start
    simp only [if_pos hcolon] at hdevice ⊢
    have hextra : NUL ∉ (call.path.dropWhile (· != ':')).drop 1 := fun h =>
      call.noNul (dropWhile_subset _ (drop_subset 1 _ h))
    refine ⟨⟨call.noNul, hextra⟩, hshort, hcolon, fun rest hrest => ?_⟩
    have hdrop : (call.path.dropWhile (· != ':')).drop 1 = '/' :: rest := by
      have hsplit := takeWhile_append_dropWhile (p := (· != ':')) (l := call.path)
      have hsame := append_cancel_left (hsplit.trans hrest)
      rw [hsame]
      rfl
    have hnoColon : ':' ∉ call.path.takeWhile (· != ':') := fun h => by
      simpa using mem_takeWhile_imp h
    have hroot : '/' ∉ call.path.takeWhile (· != ':') ++ [':'] := by simp [hdevice]
    have hpath : call.path = call.path.takeWhile (· != ':') ++ [':'] ++ '/' :: rest := by
      rw [append_assoc]
      exact hrest
    rw [hdrop]
    refine ⟨fun h => (nomatch h), call.path.takeWhile (· != ':'), [], ?_, ⟨hdevice, hnoColon⟩,
      fun n hn => (nomatch hn)⟩
    have hstart : startDir (call.path.takeWhile (· != ':') ++ [':'] ++ '/' :: rest) ('/' :: rest)
        = _ := startDir_root hroot rest rfl
    rw [← hpath] at hstart
    rw [hstart]
    simp [pathText]
  · -- else the working directory is the start
    simp only [if_neg hcolon] at hdevice ⊢
    obtain ⟨device, names, hcwd, hnoSep, hnames⟩ : Rooted s.cwd := by
      refine hS.cwd.resolve_left fun h => ?_
      rw [h] at hdevice
      exact absurd hdevice (by decide)
    refine ⟨⟨hS.noNul, call.noNul⟩, hS.length_lt, hdevice, fun _ _ => ⟨fun _ => ?_, device,
      resolveStart names call.path, ?_, hnoSep, ?_⟩⟩
    · rw [hcwd]
      exact pathText_sep device names
    · rw [hcwd]
      exact startDir_pathText hnoSep.1 names call.path
    · exact resolveStart_noSep hnames call.path

/-! ### What a call does -/

/-- The result of a call that does no harm. -/
def HarmlessChdir (drivers : Nat → Bool) (maxPathLen : Nat) (s : WorkDir)
    (r : Except ChdirFault (Option ChdirErrno × WorkDir)) : Prop :=
  ∃ e s', r = .ok (e, s') ∧ (e ≠ none → s' = s) ∧ (e = none → s'.NamesDefault) ∧
    s'.Sound drivers maxPathLen

theorem harmless_of_error (hS : s.Sound drivers maxPathLen) (e : ChdirErrno) :
    HarmlessChdir drivers maxPathLen s (.ok (some e, s)) :=
  ⟨some e, s, rfl, fun _ => rfl, fun h => (nomatch h), hS⟩

theorem findDevice_colon {v : Vfs} {temp : List Char} (hcolon : ':' ∈ temp)
    (hdev : ¬ v.findDevice temp < 0) : ∃ i : Nat, i < 16 ∧ v.findDevice temp = i := by
  rw [Vfs.findDevice, if_pos hcolon] at hdev ⊢
  split at hdev
  · rename_i i hfind
    exact ⟨i, mem_range.mp (mem_of_find?_eq_some hfind), rfl⟩
  · exact absurd (by decide) hdev

theorem Rooted.colon {dir : List Char} (h : Rooted dir) : ':' ∈ dir := by
  obtain ⟨device, names, rfl, -, -⟩ := h
  simp [pathText]

theorem chdirDevice_harmless (hS : s.Sound drivers maxPathLen) {temp : List Char}
    (hroot : Rooted temp) (hnul : NUL ∉ temp) (hlen : temp.length < maxPathLen) (answer : Int) :
    HarmlessChdir drivers maxPathLen s (chdirDevice drivers maxPathLen s answer temp) := by
  rw [chdirDevice]
  split
  · exact harmless_of_error hS _
  · rename_i hdev
    obtain ⟨i, hi, hfind⟩ := findDevice_colon hroot.colon hdev
    have hat : s.vfs.deviceAt (i : Int) = .ok (s.vfs.devoptabList i) := deviceAt_ok (by omega)
    rw [hfind, hat]
    dsimp only
    split
    · exact harmless_of_error hS _
    · rename_i hchdir
      split
      · exact harmless_of_error hS _
      · -- the first three devices have no `chdir_r`
        have hthree : 3 ≤ i := by
          by_contra hlow
          exact hchdir (hS.console i (by omega))
        have hint : (BitVec.ofInt 32 (i : Int)).toInt = i := by
          rw [BitVec.toInt_ofInt, Int.bmod_eq_of_le (by omega) (by omega)]
        have hstd : stdMax = 16 := rfl
        have hdefault : s.vfs.setDefaultDevice (BitVec.ofInt 32 (i : Int))
            = { s.vfs with defaultDevice := i } := by
          rw [Vfs.setDefaultDevice, hint, if_pos (by omega)]
        rw [hdefault, take_of_length_le hlen.le]
        refine ⟨none, _, rfl, fun h => absurd rfl h, fun _ => ⟨hroot, ?_⟩,
          .inr hroot, hnul, hlen, hS.console⟩
        have hsame : Vfs.findDevice { s.vfs with defaultDevice := i } temp
            = s.vfs.findDevice temp := by
          simp only [Vfs.findDevice, if_pos hroot.colon]
        exact hsame.trans hfind

/-- **A call from a sound state.**  Nothing is examined that should not be, a
call that returns -1 changes nothing, and a call that returns 0 leaves an
absolute path of the default device. -/
theorem chdir_harmless (hS : s.Sound drivers maxPathLen) (hgood : call.Good maxPathLen s) :
    HarmlessChdir drivers maxPathLen s (chdir drivers maxPathLen s call) := by
  rw [chdir]
  split
  · exact harmless_of_error hS _
  · rename_i hlong
    have hP := prepared_of_good hS hgood (Nat.lt_of_not_le hlong)
    have htext := cstring_strncpy call.stack call.temp hP.noNul.1 hP.length_lt
    have hfits := hgood.2
    generalize chdirSource s call.path = text at *
    generalize chdirExtra call.path = extra at *
    generalize store call.stack call.temp (strncpyBytes text maxPathLen) = mem at *
    dsimp only
    rw [strchr_eq htext.toText hP.colon hP.length_lt.le]
    dsimp only
    split
    · exact harmless_of_error hS _
    · rename_i hslash
      -- behind the colon is a separator
      obtain ⟨rest, hrest⟩ := separator_of_mem htext hP.colon (not_not.mp hslash)
      have hsep : '/' ∈ text := by
        rw [hrest]
        simp
      obtain ⟨hclosed, device, names, hstart, hdevice, hnames⟩ := hP.start rest hrest
      obtain ⟨c, e, b', hcall, hC, hO⟩ :=
        concatenatePath_outcome htext hP.length_lt hsep hP.noNul.2
      rw [hcall]
      rcases hresult : (pathWalk maxPathLen text.length (startDir text extra) extra).2 with err | d
      · rw [hO.error err hresult]
        exact harmless_of_error hS _
      · have hstring := hC.cstring hO hresult hclosed
        have hlen := hC.length_lt hP.length_lt hresult hclosed hfits
        -- what is read back is the path that was made
        have hread : stringAt b'.mem call.temp (maxPathLen + 2) = some d := by
          rw [stringAt, strnlen_eq hstring (by omega), if_pos (by omega), hstring.cells]
        rw [(hO.text d hresult).1]
        dsimp only
        rw [hread]
        rw [hstart] at hresult
        obtain ⟨result, -, hd, hresultNames⟩ :=
          walk_resolve hdevice.1 hnames (components_noSep extra) hresult
        exact chdirDevice_harmless hS ⟨device, result, hd, hdevice, hresultNames⟩ hstring.noNul
          hlen _

theorem chdir_unchanged {e : ChdirErrno} (h : chdir drivers maxPathLen s call = .ok (some e, s')) :
    s' = s := by
  have hdevice : ∀ {temp}, chdirDevice drivers maxPathLen s call.answer temp = .ok (some e, s') →
      s' = s := by
    intro temp h
    rw [chdirDevice] at h
    split at h
    · cases h
      rfl
    · split at h
      · cases h
      · split at h
        · cases h
          rfl
        · split at h
          · cases h
            rfl
          · cases h
  rw [chdir] at h
  split at h
  · cases h
    rfl
  · dsimp only at h
    split at h
    · cases h
    · cases h
    · split at h
      · cases h
        rfl
      · split at h
        · cases h
        · cases h
          rfl
        · split at h
          · cases h
          · exact hdevice h

theorem chdir_failedSearch (hrel : ':' ∉ call.path) (hlen : call.path.length < maxPathLen)
    (hcwd : ':' ∉ s.cwd) (hnul : NUL ∉ s.cwd) (hshort : s.cwd.length < maxPathLen) :
    chdir drivers maxPathLen s call = .error .failedSearch := by
  have hsource : chdirSource s call.path = s.cwd := if_neg hrel
  have htext := cstring_strncpy call.stack call.temp hnul hshort
  have hsearch := strchr_eq_none htext hcwd (by decide) hshort
  rw [chdir, if_neg (Nat.not_le.mpr hlen), hsource]
  dsimp only
  rw [hsearch]

/-! ### Runs -/

/-- The calls of a good run. -/
def goodChdir (maxPathLen : Nat) (s : WorkDir) : WorkDirAct → Prop
  | .chdir call => call.Good maxPathLen s
  | _ => True

instance (maxPathLen : Nat) (s : WorkDir) (a : WorkDirAct) : Decidable (goodChdir maxPathLen s a) :=
  match a with
  | .addDevice _ => inferInstanceAs (Decidable True)
  | .removeDevice _ => inferInstanceAs (Decidable True)
  | .chdir call => inferInstanceAs (Decidable (call.Good maxPathLen s))

theorem WorkDir.Sound.step {a : WorkDirAct} (hS : s.Sound drivers maxPathLen)
    (hgood : goodChdir maxPathLen s a) (hstep : workDirStep drivers maxPathLen s a = some s') :
    s'.Sound drivers maxPathLen := by
  cases a with
  | addDevice device =>
    cases hstep
    refine ⟨hS.cwd, hS.noNul, hS.length_lt, fun i hi => ?_⟩
    show ((s.vfs.addDevice device).devoptabList i).hasChdir drivers = false
    rw [Vfs.addDevice]
    split
    · rename_i k hslot
      have hk := (addSlot_spec hslot).1
      have hsame : (s.vfs.setDevice k device).devoptabList i = s.vfs.devoptabList i :=
        if_neg (by omega)
      rw [hsame]
      exact hS.console i hi
    · exact hS.console i hi
  | removeDevice path =>
    obtain ⟨vfs, hremove, rfl⟩ := Option.map_eq_some_iff.mp hstep
    refine ⟨hS.cwd, hS.noNul, hS.length_lt, fun i hi => ?_⟩
    show (vfs.devoptabList i).hasChdir drivers = false
    rw [Vfs.removeDevice] at hremove
    split at hremove
    · cases hremove
      exact hS.console i hi
    · split at hremove
      · cases hremove
        show (if i = _ then dotabStdnull else s.vfs.devoptabList i).hasChdir drivers = false
        split
        · rfl
        · exact hS.console i hi
      · cases hremove
  | chdir call =>
    obtain ⟨e, s₁, hcall, -, -, hS₁⟩ := chdir_harmless hS hgood
    simp only [workDirStep, hcall, Except.toOption, Option.map_some, Option.some.injEq] at hstep
    exact hstep ▸ hS₁

/-- **The working directory.**  In every run of good calls, whatever devices come
and go: a good call examines nothing behind a failed search, and if it returns 0
the working directory is an absolute path of the default device.  A call that
returns -1, good or not, changes nothing. -/
theorem workDir_of_reach (hlen : 1 < maxPathLen) :
    (∀ s, Reach (workDirStep drivers maxPathLen) (goodChdir maxPathLen) .start s →
      ∀ call : ChdirCall, call.Good maxPathLen s →
        ∃ e s', chdir drivers maxPathLen s call = .ok (e, s') ∧ (e = none → s'.NamesDefault)) ∧
    ∀ s call e s', chdir drivers maxPathLen s call = .ok (some e, s') → s' = s := by
  refine ⟨fun s hrun call hgood => ?_, fun s call e s' h => chdir_unchanged h⟩
  have hS : s.Sound drivers maxPathLen :=
    hrun.invariant (WorkDir.Sound.start hlen) fun _ _ _ hI hG hstep => hI.step hG hstep
  obtain ⟨e, s', hcall, -, hnames, -⟩ := chdir_harmless hS hgood
  exact ⟨e, s', hcall, hnames⟩

/-- A device with all functions. -/
def usbOptab : Devoptab := ⟨7, "usb".toList, fun _ => true⟩

/-- A call to which the device agrees. -/
def chdirTo (path : String) (h : NUL ∉ path.toList) : ChdirCall :=
  ⟨path.toList, h, 0, fun _ => 'x', 0⟩

/-- A device is added, `usb:/a` and then `../b` is made the working directory. -/
theorem workDir_usb : ∃ s, Reach (workDirStep (fun _ => true) 20) (goodChdir 20) .start s ∧
    s.cwd = "usb:/a/".toList ∧
    ∃ s', chdir (fun _ => true) 20 s (chdirTo "../b" (by decide +kernel)) = .ok (none, s') ∧
      s'.NamesDefault := by
  refine exists_reach_imp [.addDevice usbOptab, .chdir (chdirTo "usb:/a" (by decide +kernel))]
    (fun s => s.cwd = "usb:/a/".toList ∧ (chdirTo "../b" (by decide +kernel)).Good 20 s ∧
      (chdir (fun _ => true) 20 s (chdirTo "../b" (by decide +kernel))).toOption.map Prod.fst =
        some none) (by decide +kernel) fun s hrun ⟨hcwd, hgood, hret⟩ => ⟨hcwd, ?_⟩
  obtain ⟨e, s', hcall, hnames⟩ := (workDir_of_reach (by decide)).1 s hrun _ hgood
  rw [hcall] at hret
  obtain rfl : e = none := Option.some.inj hret
  exact ⟨s', hcall, hnames rfl⟩

/-- The first call with a relative path examines the byte behind NULL.  And when
there is a default device, `/x:/y` is accepted and leaves a working directory
without a device. -/
theorem chdir_without_device :
    chdir (fun _ => true) 1024 .start (chdirTo "foo" (by decide +kernel)) = .error .failedSearch ∧
    ∃ s, Reach (workDirStep (fun _ => true) 20) (fun _ _ => True) .start s ∧
      s.cwd = "/y/".toList ∧ s.vfs.defaultDevice = 3 := by
  refine ⟨chdir_failedSearch (by decide +kernel) (by decide +kernel) (by decide +kernel)
    (by decide +kernel) (by decide +kernel), ?_⟩
  exact exists_reach [.addDevice usbOptab, .chdir (chdirTo "usb:/" (by decide +kernel)),
    .chdir (chdirTo "/x:/y" (by decide +kernel))] (by decide +kernel)

end LibXenon
