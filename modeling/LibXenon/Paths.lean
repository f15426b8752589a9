/-
LibXenon/Paths.lean

`_concatenate_path` of newlib.c: a path is applied to a directory in place.

The directory is a string in memory, `pathEnd` points behind what has been
built of it and `pathLength` is what the length checks go by.  The model runs
over the memory and keeps the addresses it writes.

`walk` is what the loop does to the directory as a text, with the same count.
The two differ in where the last separator is written and in nothing else
(`concatenatePath_outcome`).  The count is the length of the text only as long
as it starts from a directory with its separator and meets no `..`: a separator
that is added at the start, and the one in front of a removed component, are
not counted, and neither is the separator at the very end.  So the checks let
through directories that need one or two bytes more than there are
(`concatenatePath_safe_iff`).
-/
import LibXenon.CStrings
import Mathlib.Data.List.Infix

namespace LibXenon

open ByteMemory CStrings List

/-! ### `_concatenate_path` -/

inductive PathErrno
  | ENAMETOOLONG | ENOENT
  deriving DecidableEq, Repr

/-- A memory, and the addresses written so far. -/
structure PathBuffer where
  mem : Nat → Char
  written : List Nat

def PathBuffer.write (b : PathBuffer) (a : Nat) (cs : List Char) : PathBuffer where
  mem := store b.mem a cs
  written := b.written ++ List.range' a cs.length

/-- The variables of the loop. -/
structure Cursor where
  buf : PathBuffer
  pathEnd : Nat
  pathLength : Nat

/-- `strncmp(extra, name, sizeof (name) - 1) == 0`, followed by a separator or
the end. -/
def isDirectory (name extra : List Char) : Bool :=
  name.isPrefixOf extra && (extra.drop name.length).head?.all (· == '/')

/-- `extraSize`: the next directory name of `extra` with its separator. -/
def extraSize (extra : List Char) : Nat :=
  (extra.takeWhile (· != '/')).length + if '/' ∈ extra then 1 else 0

/-- The three branches for a directory name.  `strrchr` finds the end of the
string at `pathEnd` or before. -/
def concatenateName (maxLength path : Nat) (extra : List Char) (c : Cursor) :
    Option (Option PathErrno × Cursor) :=
  if isDirectory ['.'] extra then some (none, c)
  else if isDirectory ['.', '.'] extra then
    let buf :=
      if c.buf.mem (c.pathEnd - 1) = '/' then c.buf.write (c.pathEnd - 1) [NUL] else c.buf
    match strrchr buf.mem '/' path (c.pathEnd + 1 - path) with
    | none => none
    | some none => some (some .ENOENT, { c with buf })
    | some (some sep) => some (none, { buf, pathEnd := sep + 1, pathLength := sep - path })
  else if maxLength ≤ c.pathLength + extraSize extra then some (some .ENAMETOOLONG, c)
  else
    some (none,
      { buf := c.buf.write c.pathEnd (extra.take (extraSize extra))
        pathEnd := c.pathEnd + extraSize extra
        pathLength := c.pathLength + extraSize extra })

/-- `pathEnd[0] = '\0'`. -/
def Cursor.terminate (c : Cursor) : Cursor := { c with buf := c.buf.write c.pathEnd [NUL] }

/-- The loop, for so many rounds: each one takes a name off `extra`. -/
def concatenateLoop (maxLength path : Nat) : Nat → List Char → Cursor →
    Option (Option PathErrno × Cursor)
  | 0, _, _ => none
  | rounds + 1, extra, c =>
    let extra := extra.dropWhile (· == '/')
    if extraSize extra = 0 then some (none, c)
    else
      match concatenateName maxLength path extra c with
      | none => none
      | some (some e, c) => some (some e, c)
      | some (none, c) =>
        concatenateLoop maxLength path rounds (extra.drop (extraSize extra)) c.terminate

/-- The separator at the end of the path. -/
def addSeparator (buf : PathBuffer) (pathEnd : Nat) : PathBuffer × Nat :=
  if buf.mem (pathEnd - 1) = '/' then (buf, pathEnd) else (buf.write pathEnd ['/'], pathEnd + 1)

/-- The part in front of the loop.  `none` is a search that does not find the
root. -/
def concatenateStart (path pathLength : Nat) (buf : PathBuffer) (extra : List Char) :
    Option Cursor :=
  let (buf, pathEnd) := addSeparator buf (path + pathLength)
  if extra.head? = some '/' then
    match strchr buf.mem '/' path (pathLength + 1) with
    | some (some sep) => some ⟨buf.write (sep + 1) [NUL], sep + 1, pathLength⟩
    | _ => none
  else some ⟨buf, pathEnd, pathLength⟩

/-- The part behind the loop. -/
def concatenateEnd : Option PathErrno × Cursor → Option PathErrno × PathBuffer
  | (some e, c) => (some e, c.buf)
  | (none, c) =>
    if c.buf.mem (c.pathEnd - 1) = '/' then (none, c.buf)
    else (none, (c.buf.write c.pathEnd ['/']).write (c.pathEnd + 1) [NUL])

/-- `_concatenate_path`: the error number if it returns -1, and what it leaves
in memory. -/
def concatenatePath (maxLength path : Nat) (buf : PathBuffer) (extra : List Char) :
    Option (Option PathErrno × PathBuffer) :=
  let pathLength := strnlen buf.mem path maxLength
  if maxLength ≤ pathLength then some (some .ENAMETOOLONG, buf)
  else do
    let c ← concatenateStart path pathLength buf extra
    (concatenateLoop maxLength path (extra.length + 1) extra c).map concatenateEnd

/-! ### Directories as texts -/

/-- The names in a path. -/
def components (extra : List Char) : List (List Char) :=
  (extra.splitOn '/').filter (· ≠ [])

/-- The directory above one that ends in a separator. -/
def goUp (dir : List Char) : Option (List Char) :=
  let up := dir.dropLast.rdropWhile (· != '/')
  if up = [] then none else some up

/-- One name applied to a directory, with the count; `closed` if a separator
follows the name. -/
def advance (maxLength : Nat) (closed : Bool) (dir : List Char) (count : Nat)
    (name : List Char) : Except PathErrno (List Char × Nat) :=
  if name = ['.'] then .ok (dir, count)
  else if name = ['.', '.'] then
    match goUp dir with
    | none => .error .ENOENT
    | some up => .ok (up, up.length - 1)
  else if maxLength ≤ count + (name.length + closed.toNat) then .error .ENAMETOOLONG
  else .ok (dir ++ name ++ ['/'], count + (name.length + closed.toNat))

/-- The names one after the other: the directories passed through and the
result.  `closed` if a separator follows the last name. -/
def walk (maxLength : Nat) (closed : Bool) : List Char → Nat → List (List Char) →
    List (List Char) × Except PathErrno (List Char)
  | dir, _, [] => ([], .ok dir)
  | dir, count, name :: names =>
    match advance maxLength (closed || !names.isEmpty) dir count name with
    | .error e => ([], .error e)
    | .ok (dir, count) =>
      let (passed, result) := walk maxLength closed dir count names
      (dir :: passed, result)

/-- A path with a separator at its end. -/
def closeDir (path : List Char) : List Char :=
  if path.getLast? = some '/' then path else path ++ ['/']

/-- The directory `_concatenate_path` starts from: the path with a separator, or
for an absolute `extra` its root. -/
def startDir (path extra : List Char) : List Char :=
  if extra.head? = some '/' then (closeDir path).takeWhile (· != '/') ++ ['/'] else closeDir path

/-- The walk that `_concatenate_path` makes. -/
def pathWalk (maxLength count : Nat) (dir extra : List Char) :
    List (List Char) × Except PathErrno (List Char) :=
  walk maxLength (decide (extra.getLast? = some '/')) dir count (components extra)

/-! ### Taking names off a path -/

variable {maxLength path : Nat} {c : Cursor} {dir name tail : List Char}
variable {closed : Bool} {d : List Char} {dir' : List Char}

theorem components_nil : components [] = [] := rfl

theorem components_cons_sep (extra : List Char) : components ('/' :: extra) = components extra := by
  rfl

theorem components_strip (extra : List Char) :
    components (extra.dropWhile (· == '/')) = components extra := by
  induction extra with
  | nil => rfl
  | cons a extra ih =>
    by_cases ha : a = '/'
    · subst ha
      rw [dropWhile_cons_of_pos (by rfl), components_cons_sep, ih]
    · rw [dropWhile_cons_of_neg (by simpa using ha)]

/-- A name as it stands in a path, in front of `tail`. -/
structure IsName (name tail : List Char) : Prop where
  ne_nil : name ≠ []
  noSep : '/' ∉ name
  next : tail.head?.all (· == '/')

theorem components_name (hname : IsName name tail) :
    components (name ++ tail) = name :: components (tail.drop 1) := by
  have hkept : decide (name ≠ []) = true := decide_eq_true hname.ne_nil
  rcases tail with - | ⟨b, rest⟩
  · rw [append_nil, components, splitOn_eq_singleton hname.noSep,
      filter_cons_of_pos (p := (· ≠ [])) hkept]
    rfl
  · obtain rfl : b = '/' := by simpa using hname.next
    rw [components, splitOn_append_cons_self_of_not_mem hname.noSep,
      filter_cons_of_pos (p := (· ≠ [])) hkept]
    rfl

theorem strip_cases (extra : List Char) :
    extra.dropWhile (· == '/') = [] ∨ ∃ name tail, IsName name tail ∧
      extra.dropWhile (· == '/') = name ++ tail := by
  rcases hstrip : extra.dropWhile (· == '/') with - | ⟨a, rest⟩
  · exact .inl rfl
  · have ha : a ≠ '/' := by
      have hhead := List.head?_dropWhile_not (· == '/') extra
      rw [hstrip] at hhead
      simpa using hhead
    refine .inr ⟨(a :: rest).takeWhile (· != '/'), (a :: rest).dropWhile (· != '/'), ⟨?_, ?_, ?_⟩,
      takeWhile_append_dropWhile.symm⟩
    · rw [takeWhile_cons_of_pos (by simpa using ha)]
      exact cons_ne_nil _ _
    · intro hmem
      simpa using mem_takeWhile_imp hmem
    · have hhead := List.head?_dropWhile_not (· != '/') (a :: rest)
      cases hdrop : ((a :: rest).dropWhile (· != '/')).head? with
      | none => rfl
      | some b =>
        rw [hdrop] at hhead
        simpa using hhead

theorem components_eq_nil {extra : List Char} (h : components extra = []) :
    ∀ a ∈ extra, a = '/' := by
  have hstrip := components_strip extra
  rcases strip_cases extra with hnil | ⟨name, tail, hname, hmore⟩
  · intro a ha
    rw [← takeWhile_append_dropWhile (p := (· == '/')) (l := extra), hnil,
      append_nil] at ha
    simpa using mem_takeWhile_imp ha
  · rw [hmore, components_name hname, h] at hstrip
    cases hstrip

/-! ### The walk, name by name -/

theorem pathWalk_strip (maxLength count : Nat) (dir extra : List Char) :
    pathWalk maxLength count dir (extra.dropWhile (· == '/'))
      = pathWalk maxLength count dir extra := by
  rw [pathWalk, pathWalk, components_strip]
  by_cases hstrip : extra.dropWhile (· == '/') = []
  · rw [← components_strip extra, hstrip]
    rfl
  · have hlast : (extra.dropWhile (· == '/')).getLast? = extra.getLast? := by
      conv_rhs => rw [← takeWhile_append_dropWhile (p := (· == '/')) (l := extra)]
      rw [List.getLast?_append_of_ne_nil _ hstrip]
    rw [hlast]

theorem pathWalk_name (hname : IsName name tail) (maxLength count : Nat) (dir : List Char) :
    pathWalk maxLength count dir (name ++ tail)
      = match advance maxLength (decide (tail ≠ [])) dir count name with
        | .error e => ([], .error e)
        | .ok (dir, count) =>
          (dir :: (pathWalk maxLength count dir (tail.drop 1)).1,
            (pathWalk maxLength count dir (tail.drop 1)).2) := by
  rw [pathWalk, components_name hname, walk]
  rcases tail with - | ⟨b, rest⟩
  · have hopen : name.getLast? ≠ some '/' := fun h => hname.noSep (mem_of_getLast? h)
    rw [append_nil, decide_eq_false hopen]
    rfl
  · obtain rfl : b = '/' := by simpa using hname.next
    by_cases hrest : components rest = []
    · -- no name follows: the path ends in the separators
      have hlast : (name ++ '/' :: rest).getLast? = some '/' := by
        rw [List.getLast?_append_of_ne_nil _ (cons_ne_nil _ _)]
        rcases eq_nil_or_concat rest with rfl | ⟨r, a, rfl⟩
        · rfl
        · rw [components_eq_nil hrest a (by simp), concat_eq_append]
          exact List.getLast?_concat (l := '/' :: r)
      simp [hlast, pathWalk, hrest, walk]
    · have hne : rest ≠ [] := fun h => hrest (h ▸ components_nil)
      have hlast : (name ++ '/' :: rest).getLast? = rest.getLast? := by
        rw [List.getLast?_append_of_ne_nil _ (cons_ne_nil _ _),
          List.getLast?_cons_of_ne_nil hne]
      have hmore : (components rest).isEmpty = false := by simpa using hrest
      simp [hlast, hmore, pathWalk]

/-! ### A name in memory -/

/-- The directory `dir` has been built. -/
structure Stands (path : Nat) (dir : List Char) (c : Cursor) : Prop where
  text : Text c.buf.mem path dir
  pathEnd : c.pathEnd = path + dir.length

theorem Stands.last {a : Char} (hS : Stands path (dir ++ [a]) c) :
    c.pathEnd - 1 = path + dir.length ∧ c.buf.mem (path + dir.length) = a := by
  refine ⟨?_, (text_cons_iff.mp (text_append_iff.mp hS.text).2).1⟩
  rw [hS.pathEnd, length_append, length_singleton]
  omega

/-- Some cells were written, each of them in the old directory or up to
`path + top`, and this one too. -/
def WritesUpTo (path old top : Nat) (b b' : PathBuffer) : Prop :=
  ∃ ws, b'.written = b.written ++ ws ∧ path + top ∈ ws ∧
    ∀ a ∈ ws, path ≤ a ∧ (a < path + old ∨ a ≤ path + top)

theorem extraSize_eq (hname : IsName name tail) :
    extraSize (name ++ tail) = name.length + (decide (tail ≠ [])).toNat := by
  have htake : (name ++ tail).takeWhile (· != '/') = name := by
    rw [takeWhile_append_of_pos (fun a ha => by
      simpa using fun h : a = '/' => hname.noSep (h ▸ ha))]
    cases tail with
    | nil => simp
    | cons b tail =>
      have hb : b = '/' := by simpa using hname.next
      rw [takeWhile_cons_of_neg (by simp [hb]), append_nil]
  rw [extraSize, htake]
  cases tail with
  | nil =>
    rw [append_nil, if_neg hname.noSep]
    rfl
  | cons b tail =>
    have hb : b = '/' := by simpa using hname.next
    rw [if_pos (by simp [hb])]
    rfl

theorem isDirectory_iff (hd : '/' ∉ d) (hname : IsName name tail) :
    isDirectory d (name ++ tail) = true ↔ name = d := by
  rw [isDirectory, Bool.and_eq_true, isPrefixOf_iff_prefix]
  constructor
  · rintro ⟨⟨r, hr⟩, hnext⟩
    rw [← hr, drop_left] at hnext
    rcases append_eq_append_iff.mp hr with ⟨x, hx, rfl⟩ | ⟨x, hx, rfl⟩
    · -- the name goes on behind `d`, not with a separator
      cases x with
      | nil => rw [hx, append_nil]
      | cons b x =>
        have hb : b = '/' := by simpa using hnext
        exact absurd (by rw [hx, hb]; simp) hname.noSep
    · cases x with
      | nil => rw [hx, append_nil]
      | cons b x =>
        have hb : b = '/' := by simpa using hname.next
        exact absurd (by rw [hx, hb]; simp) hd
  · rintro rfl
    refine ⟨prefix_append _ _, ?_⟩
    rw [drop_left]
    exact hname.next

/-! ### What a name does -/

theorem advance_eq_ok {count count' : Nat}
    (hok : advance maxLength closed dir count name = .ok (dir', count')) :
    name = ['.'] ∧ dir' = dir ∧ count' = count ∨
    name = ['.', '.'] ∧ goUp dir = some dir' ∧ count' = dir'.length - 1 ∨
    (name ≠ ['.'] ∧ name ≠ ['.', '.']) ∧ dir' = dir ++ name ++ ['/'] ∧
      count' = count + (name.length + closed.toNat) ∧ count' < maxLength := by
  rw [advance] at hok
  split at hok
  · rename_i hthis
    obtain ⟨rfl, rfl⟩ := Prod.mk.inj (Except.ok.inj hok)
    exact .inl ⟨hthis, rfl, rfl⟩
  · rename_i hthis
    split at hok
    · rename_i hparent
      split at hok
      · cases hok
      · rename_i up hup
        obtain ⟨rfl, rfl⟩ := Prod.mk.inj (Except.ok.inj hok)
        exact .inr (.inl ⟨hparent, hup, rfl⟩)
    · rename_i hparent
      split at hok
      · cases hok
      · rename_i hfits
        obtain ⟨rfl, rfl⟩ := Prod.mk.inj (Except.ok.inj hok)
        exact .inr (.inr ⟨⟨hthis, hparent⟩, rfl, rfl, Nat.lt_of_not_le hfits⟩)

theorem advance_eq_error {count : Nat} {e : PathErrno}
    (herr : advance maxLength closed dir count name = .error e) :
    name = ['.', '.'] ∧ goUp dir = none ∧ e = .ENOENT ∨
    (name ≠ ['.'] ∧ name ≠ ['.', '.']) ∧ maxLength ≤ count + (name.length + closed.toNat) ∧
      e = .ENAMETOOLONG := by
  rw [advance] at herr
  split at herr
  · cases herr
  · rename_i hthis
    split at herr
    · rename_i hparent
      split at herr
      · rename_i hup
        cases herr
        exact .inl ⟨hparent, hup, rfl⟩
      · cases herr
    · rename_i hparent
      split at herr
      · cases herr
        exact .inr ⟨⟨hthis, hparent⟩, ‹_›, rfl⟩
      · cases herr

/-- `pathEnd[0] = '\0'` completes a string. -/
theorem Stands.terminate (hS : Stands path dir c) :
    Stands path dir c.terminate ∧ CString c.terminate.buf.mem path dir := by
  have htext : Text c.terminate.buf.mem path dir := by
    refine hS.text.store ?_ [NUL]
    rw [hS.pathEnd]
  have hstop : c.terminate.buf.mem (path + dir.length) = NUL := by
    rw [← hS.pathEnd]
    exact store_cell c.buf.mem c.pathEnd NUL
  exact ⟨⟨htext, hS.pathEnd⟩, htext, hstop⟩

theorem concatenateName_this (hname : IsName name tail) (hthis : name = ['.']) :
    concatenateName maxLength path (name ++ tail) c = some (none, c) := by
  have hdir := (isDirectory_iff (d := ['.']) (by decide) hname).mpr hthis
  rw [concatenateName, if_pos hdir]

/-- `..` cuts the directory at the separator in front of its last name. -/
theorem concatenateName_parent (hS : Stands path (dir ++ ['/']) c) (hname : IsName name tail)
    (hparent : name = ['.', '.']) :
    ∃ buf, buf = c.buf.write (path + dir.length) [NUL] ∧ Text buf.mem path dir ∧
      concatenateName maxLength path (name ++ tail) c = some
        (if dir.rdropWhile (· != '/') = [] then (some .ENOENT, { c with buf })
          else (none,
            { buf
              pathEnd := path + (dir.rdropWhile (· != '/')).length
              pathLength := (dir.rdropWhile (· != '/')).length - 1 })) := by
  have hthis : isDirectory ['.'] (name ++ tail) ≠ true := fun h => by
    have := (isDirectory_iff (by decide) hname).mp h
    rw [hparent] at this
    cases this
  have hdir := (isDirectory_iff (d := ['.', '.']) (by decide) hname).mpr hparent
  have htext := (text_append_iff.mp hS.text).1
  obtain ⟨hend, hat⟩ := hS.last
  refine ⟨_, rfl, htext.store le_rfl [NUL], ?_⟩
  have hstring : CString (c.buf.write (path + dir.length) [NUL]).mem path dir :=
    ⟨htext.store le_rfl [NUL], store_cell _ _ NUL⟩
  have hroom : dir.length < c.pathEnd + 1 - path := by omega
  simp only [concatenateName, if_neg hthis, if_pos hdir, hend, if_pos hat,
    strrchr_eq hstring hroom]
  by_cases hroot : dir.rdropWhile (· != '/') = []
  · simp only [if_pos hroot]
  · simp only [if_neg hroot]
    have hpos : 0 < (dir.rdropWhile (· != '/')).length := length_pos_of_ne_nil hroot
    have hnext : path + ((dir.rdropWhile (· != '/')).length - 1) + 1
        = path + (dir.rdropWhile (· != '/')).length := by omega
    rw [hnext, Nat.add_sub_cancel_left]

theorem concatenateName_other (maxLength path : Nat) (c : Cursor) (hname : IsName name tail)
    (hthis : name ≠ ['.']) (hparent : name ≠ ['.', '.']) :
    concatenateName maxLength path (name ++ tail) c =
      if maxLength ≤ c.pathLength + (name.length + (decide (tail ≠ [])).toNat) then
        some (some .ENAMETOOLONG, c)
      else some (none,
        { buf := c.buf.write c.pathEnd (name ++ tail.take 1)
          pathEnd := c.pathEnd + (name ++ tail.take 1).length
          pathLength := c.pathLength + (name.length + (decide (tail ≠ [])).toNat) }) := by
  have hthis' : isDirectory ['.'] (name ++ tail) ≠ true := fun h =>
    hthis ((isDirectory_iff (by decide) hname).mp h)
  have hparent' : isDirectory ['.', '.'] (name ++ tail) ≠ true := fun h =>
    hparent ((isDirectory_iff (by decide) hname).mp h)
  have hsize := extraSize_eq hname
  have htake : (name ++ tail).take (extraSize (name ++ tail)) = name ++ tail.take 1 := by
    rw [hsize, take_length_add_append]
    cases tail <;> rfl
  have hlen : (name ++ tail.take 1).length = extraSize (name ++ tail) := by
    rw [hsize, length_append]
    cases tail <;> rfl
  rw [concatenateName, if_neg hthis', if_neg hparent', htake, hlen, hsize]

/-- The directory after a name and its terminator; a last name without a
separator is still without it. -/
structure Took (path : Nat) (closed : Bool) (dir dir' : List Char) (count : Nat) (c c' : Cursor)
    (front : List Char) : Prop where
  stands : Stands path front c'
  stop : c'.buf.mem (path + front.length) = NUL
  count : c'.pathLength = count
  writes : WritesUpTo path dir.length front.length c.buf c'.buf
  front : front = dir' ∨
    closed = false ∧ dir' = front ++ ['/'] ∧ ∃ u a, front = u ++ [a] ∧ a ≠ '/'

theorem WritesUpTo.terminate (hS : Stands path dir c) (old : Nat) {b : PathBuffer} (ws : List Nat)
    (hws : c.buf.written = b.written ++ ws)
    (hin : ∀ a ∈ ws, path ≤ a ∧ (a < path + old ∨ a ≤ path + dir.length)) :
    WritesUpTo path old dir.length b c.terminate.buf := by
  refine ⟨ws ++ [path + dir.length], ?_, by simp, ?_⟩
  · show c.buf.written ++ List.range' c.pathEnd 1 = _
    rw [hws, hS.pathEnd, append_assoc]
    rfl
  · intro a ha
    rcases mem_append.mp ha with ha | ha
    · exact hin a ha
    · rw [mem_singleton.mp ha]
      omega

/-- `.` leaves the directory as it is. -/
theorem took_this (hS : Stands path dir c) :
    Took path closed dir dir c.pathLength c c.terminate dir where
  stands := hS.terminate.1
  stop := hS.terminate.2.stop
  count := rfl
  writes := WritesUpTo.terminate hS _ [] (append_nil _).symm nofun
  front := .inl rfl

theorem goUp_concat (u : List Char) : goUp (u ++ ['/'])
    = if u.rdropWhile (· != '/') = [] then none else some (u.rdropWhile (· != '/')) := by
  rw [goUp, dropLast_concat]

/-- `..` goes to the directory above. -/
theorem took_parent {up : List Char} (hS : Stands path dir c)
    (hsep : dir.getLast? = some '/') (hname : IsName name tail)
    (hparent : name = ['.', '.']) (hup : goUp dir = some up) :
    ∃ c', concatenateName maxLength path (name ++ tail) c = some (none, c') ∧
      Took path closed dir up (up.length - 1) c c'.terminate up := by
  obtain ⟨u, rfl⟩ := List.getLast?_eq_some_iff.mp hsep
  obtain ⟨buf, hbuf, htext, hturn⟩ := concatenateName_parent hS hname hparent
  rw [goUp_concat] at hup
  split at hup
  · cases hup
  · rename_i hroot
    obtain rfl := Option.some.inj hup
    rw [if_neg hroot] at hturn
    obtain ⟨r, hr⟩ := rdropWhile_prefix (p := (· != '/')) u
    have hstands : Stands path (u.rdropWhile (· != '/')) ⟨buf,
        path + (u.rdropWhile (· != '/')).length, (u.rdropWhile (· != '/')).length - 1⟩ := by
      rw [← hr] at htext
      exact ⟨(text_append_iff.mp htext).1, rfl⟩
    have hws : buf.written = c.buf.written ++ [path + u.length] := by
      rw [hbuf]
      rfl
    refine ⟨_, hturn, hstands.terminate.1, hstands.terminate.2.stop, rfl,
      WritesUpTo.terminate hstands _ _ hws fun a ha => ?_, .inl rfl⟩
    rw [mem_singleton.mp ha, length_append, length_singleton]
    omega

theorem nul_notMem_taken (hnul : NUL ∉ name) (hname : IsName name tail) :
    NUL ∉ name ++ tail.take 1 := by
  refine mem_append.not.mpr (not_or.mpr ⟨hnul, ?_⟩)
  cases tail with
  | nil => exact not_mem_nil
  | cons b tail =>
    obtain rfl : b = '/' := by simpa using hname.next
    show NUL ∉ ['/']
    decide

theorem took_other (hS : Stands path dir c) (hname : IsName name tail)
    (hnul : NUL ∉ name) (hclosed : closed = decide (tail ≠ []))
    (hthis : name ≠ ['.']) (hparent : name ≠ ['.', '.'])
    (hfits : c.pathLength + (name.length + closed.toNat) < maxLength) :
    ∃ c', concatenateName maxLength path (name ++ tail) c = some (none, c') ∧
      Took path closed dir (dir ++ name ++ ['/']) (c.pathLength + (name.length + closed.toNat)) c
        c'.terminate (dir ++ (name ++ tail.take 1)) := by
  have hturn := concatenateName_other maxLength path c hname hthis hparent
  rw [← hclosed, if_neg (Nat.not_le_of_lt hfits)] at hturn
  have hlen : (dir ++ (name ++ tail.take 1)).length
      = dir.length + (name ++ tail.take 1).length := length_append
  have hpathEnd := hS.pathEnd
  have hfront : Stands path (dir ++ (name ++ tail.take 1))
      ⟨c.buf.write c.pathEnd (name ++ tail.take 1), c.pathEnd + (name ++ tail.take 1).length,
        c.pathLength + (name.length + closed.toNat)⟩ := by
    refine ⟨?_, ?_⟩
    · rw [hpathEnd]
      exact hS.text.store_append (nul_notMem_taken hnul hname)
    · show c.pathEnd + (name ++ tail.take 1).length = _
      omega
  refine ⟨_, hturn, hfront.terminate.1, hfront.terminate.2.stop, rfl,
    WritesUpTo.terminate hfront _ _ rfl fun a ha => ?_, ?_⟩
  · obtain ⟨hlow, hhigh⟩ := mem_range'_1.mp ha
    omega
  · cases tail with
    | nil =>
      -- the last name: its last character is not a separator
      rw [take_nil, append_nil]
      obtain ⟨u, a, rfl⟩ := (eq_nil_or_concat name).resolve_left hname.ne_nil
      refine .inr ⟨hclosed, rfl, dir ++ u, a, ?_, fun ha => hname.noSep ?_⟩
      · rw [concat_eq_append, append_assoc]
      · simp [ha]
    | cons b tail =>
      obtain rfl : b = '/' := by simpa using hname.next
      exact .inl (append_assoc _ _ _).symm

theorem concatenateName_ok {count' : Nat}
    (hS : Stands path dir c) (hsep : dir.getLast? = some '/')
    (hname : IsName name tail) (hnul : NUL ∉ name) (hclosed : closed = decide (tail ≠ []))
    (hok : advance maxLength closed dir c.pathLength name = .ok (dir', count')) :
    ∃ c' front, concatenateName maxLength path (name ++ tail) c = some (none, c') ∧
      Took path closed dir dir' count' c c'.terminate front := by
  rcases advance_eq_ok hok with ⟨hthis, rfl, rfl⟩ | ⟨hparent, hup, rfl⟩ |
    ⟨⟨hthis, hparent⟩, rfl, rfl, hfits⟩
  · exact ⟨c, dir', concatenateName_this hname hthis, took_this hS⟩
  · obtain ⟨c', hturn, htook⟩ := took_parent hS hsep hname hparent hup
    exact ⟨c', dir', hturn, htook⟩
  · obtain ⟨c', hturn, htook⟩ := took_other hS hname hnul hclosed hthis hparent hfits
    exact ⟨c', _, hturn, htook⟩

theorem concatenateName_error {e : PathErrno}
    (hS : Stands path dir c) (hsep : dir.getLast? = some '/')
    (hname : IsName name tail) (hclosed : closed = decide (tail ≠ []))
    (herr : advance maxLength closed dir c.pathLength name = .error e) :
    ∃ c' ws, concatenateName maxLength path (name ++ tail) c = some (some e, c') ∧
      c'.buf.written = c.buf.written ++ ws ∧ ∀ a ∈ ws, path ≤ a ∧ a < path + dir.length := by
  rcases advance_eq_error herr with ⟨hparent, hup, rfl⟩ | ⟨⟨hthis, hparent⟩, hlong, rfl⟩
  · obtain ⟨u, rfl⟩ := List.getLast?_eq_some_iff.mp hsep
    obtain ⟨buf, hbuf, htext, hturn⟩ := concatenateName_parent hS hname hparent
    rw [goUp_concat] at hup
    split at hup
    · rename_i hroot
      rw [if_pos hroot] at hturn
      refine ⟨_, [path + u.length], hturn, by rw [hbuf]; rfl, fun a ha => ?_⟩
      rw [mem_singleton.mp ha, length_append, length_singleton]
      omega
    · cases hup
  · have hturn := concatenateName_other maxLength path c hname hthis hparent
    rw [← hclosed, if_pos hlong] at hturn
    exact ⟨c, [], hturn, (append_nil _).symm, fun a ha => nomatch ha⟩

/-! ### The loop -/

theorem goUp_eq_some {up : List Char} (hup : goUp dir = some up) :
    up.getLast? = some '/' ∧ up.length ≤ dir.length := by
  rw [goUp] at hup
  split at hup
  · cases hup
  · rename_i hne
    obtain rfl := Option.some.inj hup
    constructor
    · have hlast := rdropWhile_last_not (· != '/') dir.dropLast hne
      rw [List.getLast?_eq_getLast_of_ne_nil hne]
      simpa using hlast
    · have hprefix := ( rdropWhile_prefix (p := (· != '/')) dir.dropLast).length_le
      rw [length_dropLast] at hprefix
      omega

/-- A directory ends in its separator, and is at most one longer than the
count. -/
structure DirCounted (maxLength : Nat) (dir : List Char) (count : Nat) : Prop where
  sep : dir.getLast? = some '/'
  length_le : dir.length ≤ count + 1
  lt : count < maxLength

theorem advance_sep {count count' : Nat} (hsep : dir.getLast? = some '/')
    (hok : advance maxLength closed dir count name = .ok (dir', count')) :
    dir'.getLast? = some '/' := by
  rcases advance_eq_ok hok with ⟨-, rfl, -⟩ | ⟨-, hup, -⟩ | ⟨-, rfl, -, -⟩
  · exact hsep
  · exact (goUp_eq_some hup).1
  · exact List.getLast?_concat

theorem DirCounted.advance {count count' : Nat} (hC : DirCounted maxLength dir count)
    (hok : advance maxLength true dir count name = .ok (dir', count')) :
    DirCounted maxLength dir' count' := by
  have hle := hC.length_le
  have hlt := hC.lt
  have hsep := advance_sep hC.sep hok
  rcases advance_eq_ok hok with ⟨-, rfl, rfl⟩ | ⟨-, hup, rfl⟩ | ⟨-, rfl, rfl, hfits⟩
  · exact hC
  · have hshort := (goUp_eq_some hup).2
    exact ⟨hsep, by omega, by omega⟩
  · refine ⟨hsep, ?_, hfits⟩
    simp only [length_append, length_singleton, Bool.toNat_true]
    omega

/-- What the rest of a call does, from the buffer `b` on, for a walk. -/
structure Outcome (maxLength path : Nat) (b : PathBuffer)
    (w : List (List Char) × Except PathErrno (List Char)) (e : Option PathErrno) (b' : PathBuffer) :
    Prop where
  writes : ∃ ws, b'.written = b.written ++ ws ∧ (∀ a ∈ ws, path ≤ a) ∧
    ((∀ a ∈ ws, a < path + maxLength) ↔ ∀ d ∈ w.1, d.length < maxLength)
  error : ∀ err, w.2 = .error err → e = some err
  text : ∀ d, w.2 = .ok d → e = none ∧ Text b'.mem path d
  stop : ∀ d, w.2 = .ok d → w.1 ≠ [] → b'.mem (path + d.length) = NUL
  idle : ∀ d, w.2 = .ok d → w.1 = [] → b' = b

theorem WritesUpTo.inBounds {old top : Nat} {b b' : PathBuffer}
    (hw : WritesUpTo path old top b b') (hold : old ≤ maxLength) (ws : List Nat) :
    ∃ ws', b'.written ++ ws = b.written ++ ws' ∧
      ((∀ a ∈ ws, path ≤ a) → ∀ a ∈ ws', path ≤ a) ∧
      ((∀ a ∈ ws', a < path + maxLength) ↔
        top < maxLength ∧ ∀ a ∈ ws, a < path + maxLength) := by
  obtain ⟨vs, hvs, htop, hin⟩ := hw
  refine ⟨vs ++ ws, by rw [hvs, append_assoc], ?_, ?_⟩
  · intro hws a ha
    rcases mem_append.mp ha with ha | ha
    · exact (hin a ha).1
    · exact hws a ha
  · rw [forall_mem_append]
    refine and_congr_left fun _ => ⟨fun hall => ?_, fun hlt a ha => ?_⟩
    · have := hall _ htop
      omega
    · have := (hin a ha).2
      omega

theorem Outcome.cons {old : Nat} {b b₁ b' : PathBuffer} {e : Option PathErrno}
    {w : List (List Char) × Except PathErrno (List Char)} (hold : old ≤ maxLength)
    (hw : WritesUpTo path old dir.length b b₁) (hstop : b₁.mem (path + dir.length) = NUL)
    (hend : ∀ d, w.2 = .ok d → w.1 = [] → d = dir) (hO : Outcome maxLength path b₁ w e b') :
    Outcome maxLength path b (dir :: w.1, w.2) e b' := by
  obtain ⟨ws, hws, hlow, hhigh⟩ := hO.writes
  obtain ⟨ws', hws', hlow', hhigh'⟩ := hw.inBounds hold ws
  refine ⟨⟨ws', hws.trans hws', hlow' hlow, ?_⟩, hO.error, hO.text, ?_,
    fun d _ hnil => nomatch hnil⟩
  · rw [hhigh', hhigh, forall_mem_cons]
  · intro d hd _
    by_cases hnil : w.1 = []
    · rw [hO.idle d hd hnil, hend d hd hnil]
      exact hstop
    · exact hO.stop d hd hnil

theorem outcome_idle {b : PathBuffer} (htext : Text b.mem path dir) :
    Outcome maxLength path b ([], .ok dir) none b where
  writes := ⟨[], (append_nil _).symm, nofun, by simp⟩
  error := nofun
  text d hd := by
    cases hd
    exact ⟨rfl, htext⟩
  stop _ _ hne := absurd rfl hne
  idle _ _ _ := rfl

theorem concatenateEnd_sep (hS : Stands path dir c) (hsep : dir.getLast? = some '/') :
    concatenateEnd (none, c) = (none, c.buf) := by
  obtain ⟨u, rfl⟩ := List.getLast?_eq_some_iff.mp hsep
  obtain ⟨hend, hat⟩ := hS.last
  rw [concatenateEnd, hend, if_pos hat]

theorem outcome_error {b b' : PathBuffer} {e : PathErrno} {ws : List Nat}
    (hold : dir.length ≤ maxLength) (hws : b'.written = b.written ++ ws)
    (hin : ∀ a ∈ ws, path ≤ a ∧ a < path + dir.length) :
    Outcome maxLength path b ([], .error e) (some e) b' where
  writes := by
    refine ⟨ws, hws, fun a ha => (hin a ha).1, nofun, fun _ a ha => ?_⟩
    have := (hin a ha).2
    omega
  error err herr := by
    cases herr
    rfl
  text := nofun
  stop := nofun
  idle := nofun

theorem outcome_last {dir' front : List Char} {count' : Nat} {c' : Cursor}
    (hold : dir.length ≤ maxLength) (hT : Took path closed dir dir' count' c c' front)
    (hsep : dir'.getLast? = some '/') :
    ∃ b', concatenateEnd (none, c') = (none, b') ∧
      Outcome maxLength path c.buf ([dir'], .ok dir') none b' := by
  rcases hT.front with rfl | ⟨-, rfl, hopen⟩
  · refine ⟨c'.buf, concatenateEnd_sep hT.stands hsep, ?_⟩
    refine (outcome_idle hT.stands.text).cons hold hT.writes hT.stop fun d hd _ => ?_
    cases hd
    rfl
  · have hpathEnd := hT.stands.pathEnd
    have hat : c'.buf.mem (c'.pathEnd - 1) ≠ '/' := by
      obtain ⟨u, a, rfl, ha⟩ := hopen
      obtain ⟨hend, hat⟩ := hT.stands.last
      rw [hend, hat]
      exact ha
    -- the separator and a new terminator
    have hclosed : Stands path (front ++ ['/'])
        ⟨c'.buf.write c'.pathEnd ['/'], c'.pathEnd + 1, c'.pathLength⟩ := by
      refine ⟨?_, ?_⟩
      · rw [hpathEnd]
        exact hT.stands.text.store_append (by decide)
      · show c'.pathEnd + 1 = _
        rw [hpathEnd, length_append, length_singleton, Nat.add_assoc]
    obtain ⟨ws, hws, -, hin⟩ := hT.writes
    have hwrites : WritesUpTo path dir.length (front ++ ['/']).length c.buf
        (Cursor.terminate ⟨c'.buf.write c'.pathEnd ['/'], c'.pathEnd + 1, c'.pathLength⟩).buf := by
      refine WritesUpTo.terminate hclosed _ (ws ++ [c'.pathEnd]) ?_ fun a ha => ?_
      · rw [← append_assoc, ← hws]
        rfl
      · rw [length_append, length_singleton]
        rcases mem_append.mp ha with ha | ha
        · have := hin a ha
          omega
        · rw [mem_singleton.mp ha]
          omega
    refine ⟨_, by rw [concatenateEnd, if_neg hat], ?_⟩
    obtain ⟨hstands, hstring⟩ := hclosed.terminate
    refine (outcome_idle hstands.text).cons hold hwrites hstring.stop fun d hd _ => ?_
    cases hd
    rfl

theorem concatenateLoop_nil {rounds : Nat} {extra : List Char}
    (hstrip : extra.dropWhile (· == '/') = []) :
    concatenateLoop maxLength path (rounds + 1) extra c = some (none, c) := by
  simp only [concatenateLoop, hstrip]
  rfl

theorem concatenateLoop_name {rounds : Nat} {extra : List Char} (hname : IsName name tail)
    (hstrip : extra.dropWhile (· == '/') = name ++ tail) :
    concatenateLoop maxLength path (rounds + 1) extra c =
      match concatenateName maxLength path (name ++ tail) c with
      | none => none
      | some (some e, c) => some (some e, c)
      | some (none, c) => concatenateLoop maxLength path rounds (tail.drop 1) c.terminate := by
  have hsize := extraSize_eq hname
  have hpos : 0 < name.length := length_pos_of_ne_nil hname.ne_nil
  have hdrop : (name ++ tail).drop (extraSize (name ++ tail)) = tail.drop 1 := by
    rw [hsize, drop_length_add_append]
    cases tail <;> rfl
  simp only [concatenateLoop, hstrip, hdrop]
  rw [if_neg (by omega)]

theorem walk_eq_ok {count : Nat} {names : List (List Char)}
    (hok : (walk maxLength closed dir count names).2 = .ok d) :
    names = [] ∧ (walk maxLength closed dir count names).1 = [] ∧ d = dir ∨
      d ∈ (walk maxLength closed dir count names).1 := by
  induction names generalizing dir count with
  | nil => exact .inl ⟨rfl, rfl, (Except.ok.inj hok).symm⟩
  | cons name names ih =>
    rw [walk] at hok ⊢
    split at hok
    · cases hok
    · right
      rcases ih hok with ⟨-, -, rfl⟩ | hmem
      · exact mem_cons_self
      · exact mem_cons_of_mem _ hmem

theorem DirCounted.length_le_max {count : Nat} (h : DirCounted maxLength dir count) :
    dir.length ≤ maxLength := by
  have hle := h.length_le
  have hlt := h.lt
  omega

/-- **The loop.**  The rest of a call does to the memory what the walk does to
the directory. -/
theorem concatenateLoop_outcome (rounds : Nat) (extra : List Char) (hrounds : extra.length < rounds)
    (hnul : NUL ∉ extra) (hS : Stands path dir c) (hC : DirCounted maxLength dir c.pathLength) :
    ∃ e b', (concatenateLoop maxLength path rounds extra c).map concatenateEnd = some (e, b') ∧
      Outcome maxLength path c.buf (pathWalk maxLength c.pathLength dir extra) e b' := by
  -- on the rounds; each one uses up a name of `extra`
  induction rounds generalizing extra dir c with
  | zero => exact absurd hrounds (Nat.not_lt_zero _)
  | succ rounds ih =>
    have hold := hC.length_le_max
    have hshort := length_dropWhile_le (· == '/') extra
    have hnul' : NUL ∉ extra.dropWhile (· == '/') :=
      fun h => hnul (dropWhile_subset _ h)
    rw [← pathWalk_strip]
    rcases strip_cases extra with hstrip | ⟨name, tail, hname, hstrip⟩
    · refine ⟨none, c.buf, ?_, ?_⟩
      · rw [concatenateLoop_nil hstrip, Option.map_some, concatenateEnd_sep hS hC.sep]
      · rw [hstrip]
        exact outcome_idle hS.text
    · have hpos := length_pos_of_ne_nil hname.ne_nil
      rw [hstrip] at hshort hnul' ⊢
      obtain ⟨hnul₁, hnul₂⟩ := not_or.mp (mem_append.not.mp hnul')
      rw [concatenateLoop_name hname hstrip, pathWalk_name hname]
      rw [length_append] at hshort
      rcases hadv : advance maxLength (decide (tail ≠ [])) dir c.pathLength name with
        err | ⟨dir', count'⟩
      · obtain ⟨c', ws, hturn, hws, hin⟩ :=
          concatenateName_error hS hC.sep hname rfl hadv
        rw [hturn]
        exact ⟨some err, c'.buf, rfl, outcome_error hold hws hin⟩
      · obtain ⟨c', front, hturn, hT⟩ :=
          concatenateName_ok hS hC.sep hname hnul₁ rfl hadv
        rw [hturn]
        rcases tail with - | ⟨b, rest⟩
        · -- the last name: there is no separator behind it yet
          obtain ⟨rounds, rfl⟩ := Nat.exists_eq_succ_of_ne_zero (n := rounds) (by omega)
          obtain ⟨b', hend, hO⟩ := outcome_last hold hT (advance_sep hC.sep hadv)
          exact ⟨none, b', congrArg some hend, hO⟩
        · obtain rfl : front = dir' := hT.front.resolve_right fun h => Bool.noConfusion h.1
          have hC' := hC.advance hadv
          rw [← hT.count] at hC'
          have hlen : rest.length < rounds := by
            rw [length_cons] at hshort
            omega
          obtain ⟨e, b', hloop, hO⟩ := ih rest hlen (fun h => hnul₂ (mem_cons_of_mem _ h))
            hT.stands hC'
          refine ⟨e, b', hloop, ?_⟩
          rw [hT.count] at hO
          refine hO.cons hold hT.writes hT.stop fun d hd hnil => ?_
          rcases walk_eq_ok hd with ⟨-, -, hsame⟩ | hmem
          · exact hsame
          · rw [pathWalk] at hnil
            rw [hnil] at hmem
            cases hmem

/-! ### The call -/

/-- What the part in front of the loop has done for the string `text`. -/
structure Started (maxLength path : Nat) (mem : Nat → Char) (text extra : List Char)
    (c : Cursor) : Prop where
  stands : Stands path (startDir text extra) c
  count : c.pathLength = text.length
  counted : DirCounted maxLength (startDir text extra) c.pathLength
  writes : ∀ a ∈ c.buf.written, path ≤ a ∧ a < path + maxLength
  root : extra.head? = some '/' → (startDir text extra).length < maxLength ∧
    c.buf.mem (path + (startDir text extra).length) = NUL
  behind : extra.head? ≠ some '/' → ∀ i, text.length < i → c.buf.mem (path + i) = mem (path + i)
  closed : extra.head? ≠ some '/' → text.getLast? = some '/' →
    startDir text extra = text ∧ c.buf.mem (path + text.length) = NUL

variable {mem : Nat → Char} {text extra : List Char}

theorem length_closeDir_le (text : List Char) : (closeDir text).length ≤ text.length + 1 := by
  rw [closeDir]
  split
  · omega
  · rw [length_append, length_singleton]

theorem closeDir_sep (text : List Char) : (closeDir text).getLast? = some '/' := by
  rw [closeDir]
  split
  · assumption
  · exact List.getLast?_concat

theorem addSeparator_spec (htext : CString mem path text) (hne : text ≠ []) :
    ∃ buf, addSeparator ⟨mem, []⟩ (path + text.length) = (buf, path + (closeDir text).length) ∧
      Text buf.mem path (closeDir text) ∧ (∀ a ∈ buf.written, a = path + text.length) ∧
      (∀ i, text.length < i → buf.mem (path + i) = mem (path + i)) ∧
      (text.getLast? = some '/' → buf.mem (path + text.length) = NUL) := by
  obtain ⟨u, b, rfl⟩ := (eq_nil_or_concat text).resolve_left hne
  rw [concat_eq_append] at *
  have hend : path + (u ++ [b]).length - 1 = path + u.length := by
    rw [length_append, length_singleton]
    omega
  have hat : mem (path + u.length) = b :=
    (text_cons_iff.mp (text_append_iff.mp htext.toText).2).1
  have hlast : (u ++ [b]).getLast? = some b := List.getLast?_concat
  simp only [addSeparator, hend, hat, closeDir, hlast, Option.some.injEq]
  by_cases hb : b = '/'
  · simp only [if_pos hb]
    exact ⟨_, rfl, htext.toText, fun a ha => (nomatch ha), fun _ _ => rfl, fun _ => htext.stop⟩
  · simp only [if_neg hb]
    refine ⟨PathBuffer.write ⟨mem, []⟩ (path + (u ++ [b]).length) ['/'], ?_,
      htext.toText.store_append (by decide), ?_, ?_, fun h => absurd h hb⟩
    · simp only [length_append, length_singleton, Nat.add_assoc]
    · intro a ha
      exact mem_singleton.mp ha
    · intro i hi
      refine store_outside (.inr ?_)
      rw [length_singleton]
      omega

theorem takeWhile_name {a : Char} {u : List Char} (hu : a ∉ u) (r : List Char) :
    (u ++ a :: r).takeWhile (· != a) = u := by
  rw [takeWhile_append_of_pos fun b hb => by simpa using fun h : b = a => hu (h ▸ hb),
    takeWhile_cons_of_neg (by simp), append_nil]

theorem closeDir_root {u : List Char} (hu : '/' ∉ u) (r : List Char) :
    (∃ r', closeDir (u ++ '/' :: r) = u ++ '/' :: r') ∧
      (closeDir (u ++ '/' :: r)).takeWhile (· != '/') = u := by
  obtain ⟨r', hr'⟩ : ∃ r', closeDir (u ++ '/' :: r) = u ++ '/' :: r' := by
    rw [closeDir]
    split
    · exact ⟨r, rfl⟩
    · exact ⟨r ++ ['/'], append_assoc _ _ _⟩
  exact ⟨⟨r', hr'⟩, by rw [hr', takeWhile_name hu]⟩

theorem startDir_root {u : List Char} (hu : '/' ∉ u) (r : List Char)
    (habs : extra.head? = some '/') : startDir (u ++ '/' :: r) extra = u ++ ['/'] := by
  rw [startDir, if_pos habs, (closeDir_root hu r).2]

theorem concatenateStart_spec (htext : CString mem path text) (hlen : text.length < maxLength)
    (hsep : '/' ∈ text) (extra : List Char) :
    ∃ c, concatenateStart path text.length ⟨mem, []⟩ extra = some c ∧
      Started maxLength path mem text extra c := by
  have hne : text ≠ [] := ne_nil_of_mem hsep
  obtain ⟨buf, hadd, hdir, hwritten, hbehind, hclosed⟩ := addSeparator_spec htext hne
  have hlong := length_closeDir_le text
  have hin : ∀ a ∈ buf.written, path ≤ a ∧ a < path + maxLength := by
    intro a ha
    rw [hwritten a ha]
    omega
  by_cases habs : extra.head? = some '/'
  · -- cut the path behind its first separator
    obtain ⟨u, r, rfl, hu⟩ := eq_append_cons_of_mem hsep
    have hmem := mem_of_getLast? (closeDir_sep (u ++ '/' :: r))
    obtain ⟨⟨r', hr'⟩, hroot⟩ := closeDir_root hu r
    have hstart := startDir_root hu r habs
    have hsearch := strchr_eq hdir hmem hlong
    rw [hroot] at hsearch
    have hrootLen : (startDir (u ++ '/' :: r) extra).length = u.length + 1 := by
      rw [hstart, length_append, length_singleton]
    have hle : u.length + 1 ≤ (u ++ '/' :: r).length := by
      rw [length_append, length_cons]
      omega
    have htextRoot : Text buf.mem path (startDir (u ++ '/' :: r) extra) := by
      have hsplit : u ++ '/' :: r' = u ++ ['/'] ++ r' := by simp
      rw [hr', hsplit, ← hstart] at hdir
      exact (text_append_iff.mp hdir).1
    have hend : path + u.length + 1 = path + (startDir (u ++ '/' :: r) extra).length := by omega
    refine ⟨⟨buf.write (path + (startDir (u ++ '/' :: r) extra).length) [NUL],
      path + (startDir (u ++ '/' :: r) extra).length, (u ++ '/' :: r).length⟩, ?_, ?_⟩
    · simp only [concatenateStart, hadd, if_pos habs, hsearch, hend]
    · have hcount : (startDir (u ++ '/' :: r) extra).length ≤ (u ++ '/' :: r).length + 1 := by omega
      refine ⟨⟨htextRoot.store le_rfl _, rfl⟩, rfl, ⟨?_, hcount, hlen⟩, ?_,
        fun _ => ⟨by omega, store_cell _ _ _⟩, fun h => absurd habs h, fun h => absurd habs h⟩
      · rw [hstart]
        exact List.getLast?_concat
      · intro a ha
        rcases mem_append.mp ha with ha | ha
        · exact hin a ha
        · rw [mem_singleton.mp ha]
          omega
  · have hstart : startDir text extra = closeDir text := if_neg habs
    refine ⟨⟨buf, path + (closeDir text).length, text.length⟩, ?_, ?_⟩
    · simp only [concatenateStart, hadd, if_neg habs]
    · rw [← hstart] at hdir hlong
      refine ⟨⟨hdir, congrArg _ (congrArg _ hstart.symm)⟩, rfl, ⟨?_, hlong, hlen⟩, hin,
        fun h => absurd h habs, fun _ => hbehind, fun _ hsep' => ⟨?_, hclosed hsep'⟩⟩
      · rw [hstart]
        exact closeDir_sep text
      · rw [hstart, closeDir, if_pos hsep']

/-- **What a call does.**  It returns, and it does to the string what the walk
does to the directory. -/
theorem concatenatePath_outcome (htext : CString mem path text) (hlen : text.length < maxLength)
    (hsep : '/' ∈ text) (hnul : NUL ∉ extra) :
    ∃ c e b', concatenatePath maxLength path ⟨mem, []⟩ extra = some (e, b') ∧
      Started maxLength path mem text extra c ∧
      Outcome maxLength path c.buf (pathWalk maxLength text.length (startDir text extra) extra)
        e b' := by
  obtain ⟨c, hstart, hC⟩ := concatenateStart_spec htext hlen hsep extra
  obtain ⟨e, b', hloop, hO⟩ := concatenateLoop_outcome (extra.length + 1) extra
    (Nat.lt_succ_self _) hnul hC.stands hC.counted
  rw [hC.count] at hO
  refine ⟨c, e, b', ?_, hC, hO⟩
  simp only [concatenatePath, strnlen_eq htext hlen, if_neg (Nat.not_le.mpr hlen), hstart,
    Option.bind_eq_bind, Option.bind_some, hloop]

theorem eq_nil_of_components (hnames : components extra = []) (hrel : extra.head? ≠ some '/') :
    extra = [] := by
  rcases extra with - | ⟨b, rest⟩
  · rfl
  · rw [components_eq_nil hnames b mem_cons_self] at hrel
    exact absurd rfl hrel

/-- A call that returns 0 leaves the directory as a string, unless it was given
the empty path and a directory without its separator. -/
theorem Started.cstring {e : Option PathErrno} {b' : PathBuffer}
    (hC : Started maxLength path mem text extra c) (hO : Outcome maxLength path c.buf
      (pathWalk maxLength text.length (startDir text extra) extra) e b')
    (hok : (pathWalk maxLength text.length (startDir text extra) extra).2 = .ok d)
    (hclosed : extra = [] → text.getLast? = some '/') : CString b'.mem path d := by
  refine ⟨(hO.text d hok).2, ?_⟩
  rcases walk_eq_ok hok with ⟨hnames, hnil, rfl⟩ | hmem
  · rw [hO.idle _ hok hnil]
    by_cases habs : extra.head? = some '/'
    · exact (hC.root habs).2
    · obtain ⟨hsame, hstop⟩ := hC.closed habs (hclosed (eq_nil_of_components hnames habs))
      rw [hsame]
      exact hstop
  · exact hO.stop d hok (ne_nil_of_mem hmem)

/-! ### Writing inside the array -/

/-- The directories that a call passes through, one after each name. -/
def passed (maxLength : Nat) (text extra : List Char) : List (List Char) :=
  (pathWalk maxLength text.length (startDir text extra) extra).1

theorem length_of_advance {count count' : Nat}
    (h : advance maxLength closed dir count name = .ok (dir', count')) :
    dir'.length ≤ dir.length + name.length + 1 := by
  rcases advance_eq_ok h with ⟨-, rfl, -⟩ | ⟨-, hup, -⟩ | ⟨-, rfl, -⟩
  · omega
  · have hshort := (goUp_eq_some hup).2
    omega
  · rw [length_append, length_append, length_singleton]

/-- A directory has no more than its start and the rest of the path. -/
theorem length_of_pathWalk (count : Nat) (dir extra : List Char) :
    ∀ d ∈ (pathWalk maxLength count dir extra).1, d.length ≤ dir.length + extra.length + 1 := by
  induction hn : extra.length using Nat.strongRecOn generalizing count dir extra with
  | ind n ih =>
    subst hn
    have hshort := length_dropWhile_le (· == '/') extra
    rw [← pathWalk_strip]
    rcases strip_cases extra with hnil | ⟨name, tail, hname, hmore⟩
    · rw [hnil]
      nofun
    · rw [hmore, length_append] at hshort
      rw [hmore, pathWalk_name hname]
      rcases hadv : advance maxLength (decide (tail ≠ [])) dir count name with e | ⟨dir', count'⟩
      · nofun
      · have hdir' := length_of_advance hadv
        have hpos := length_pos_iff.mpr hname.ne_nil
        intro d hd
        rcases mem_cons.mp hd with rfl | hd
        · omega
        · cases tail with
          | nil => cases hd
          | cons b tail =>
            rw [length_cons] at hshort
            have hrest := ih tail.length (by omega) count' dir' tail rfl d hd
            omega

theorem length_startDir (text extra : List Char) :
    (startDir text extra).length ≤ text.length + 1 := by
  have hclose := length_closeDir_le text
  rw [startDir]
  split
  · -- the root ends at the first separator
    have hprefix := takeWhile_prefix (· != '/') (l := closeDir text)
    have hlt : ((closeDir text).takeWhile (· != '/')).length < (closeDir text).length := by
      refine lt_of_le_of_ne hprefix.length_le fun heq => ?_
      have hmem := hprefix.eq_of_length heq ▸ mem_of_getLast? (closeDir_sep text)
      simpa using mem_takeWhile_imp hmem
    rw [length_append, length_singleton]
    omega
  · exact hclose

/-- **Short paths fit.**  Two characters more than the path and `extra` together, and the
NUL, are enough. -/
theorem passed_lt_of_short (hshort : text.length + extra.length + 2 < maxLength) :
    ∀ d ∈ passed maxLength text extra, d.length < maxLength := by
  intro d hd
  have hwalk := length_of_pathWalk _ _ _ d hd
  have hstart := length_startDir text extra
  omega

theorem Started.length_lt (hC : Started maxLength path mem text extra c)
    (hlen : text.length < maxLength)
    (hok : (pathWalk maxLength text.length (startDir text extra) extra).2 = .ok d)
    (hclosed : extra = [] → text.getLast? = some '/')
    (hfit : ∀ d ∈ passed maxLength text extra, d.length < maxLength) : d.length < maxLength := by
  rcases walk_eq_ok hok with ⟨hnames, -, rfl⟩ | hmem
  · by_cases habs : extra.head? = some '/'
    · exact (hC.root habs).1
    · rw [(hC.closed habs (hclosed (eq_nil_of_components hnames habs))).1]
      exact hlen
  · exact hfit d hmem

/-- **Bounds.**  A call writes inside `path[0 .. maxLength - 1]` and leaves a
string there exactly if every directory it passes through fits, with its
separator and NUL, and the path it is called with ends in a separator when
`extra` is empty (or there happens to be a NUL further on).  Short paths fit
(`passed_lt_of_short`). -/
theorem concatenatePath_safe_iff (htext : CString mem path text) (hlen : text.length < maxLength)
    (hsep : '/' ∈ text) (hnul : NUL ∉ extra) :
    ∃ e b', concatenatePath maxLength path ⟨mem, []⟩ extra = some (e, b') ∧
      (((∀ a ∈ b'.written, path ≤ a ∧ a < path + maxLength) ∧
          (e = none → ∃ i < maxLength, b'.mem (path + i) = NUL)) ↔
        (∀ d ∈ passed maxLength text extra, d.length < maxLength) ∧
          (extra = [] → text.getLast? = some '/' ∨
            ∃ i, text.length < i ∧ i < maxLength ∧ mem (path + i) = NUL)) := by
  obtain ⟨c, e, b', hcall, hC, hO⟩ := concatenatePath_outcome htext hlen hsep hnul
  obtain ⟨ws, hws, hlow, hhigh⟩ := hO.writes
  refine ⟨e, b', hcall, ⟨fun ⟨hin, hstop⟩ => ⟨?_, ?_⟩, fun ⟨hfit, hend⟩ => ⟨?_, ?_⟩⟩⟩
  · refine hhigh.mp fun a ha => (hin a ?_).2
    rw [hws]
    exact mem_append_right _ ha
  · rintro rfl
    by_contra hnot
    obtain ⟨hopen, hnone⟩ := not_or.mp hnot
    have hidle := hO.idle _ rfl rfl
    obtain ⟨i, hi, hnul'⟩ := hstop (hO.text _ rfl).1
    rw [hidle] at hnul'
    have hrel : ([] : List Char).head? ≠ some '/' := by simp
    -- the old NUL is overwritten, and nothing is written behind it
    by_cases hle : i ≤ text.length
    · refine hC.stands.text.ne_nul (k := i) ?_ hnul'
      rw [startDir, if_neg hrel, closeDir, if_neg hopen, length_append,
        length_singleton]
      omega
    · refine hnone ⟨i, by omega, hi, ?_⟩
      rw [← hC.behind hrel i (by omega)]
      exact hnul'
  · intro a ha
    rw [hws] at ha
    rcases mem_append.mp ha with ha | ha
    · exact hC.writes a ha
    · exact ⟨hlow a ha, hhigh.mpr hfit a ha⟩
  · intro he
    rcases hresult : (pathWalk maxLength text.length (startDir text extra) extra).2 with err | d
    · have := hO.error err hresult
      rw [he] at this
      cases this
    · by_cases hclosed : extra = [] → text.getLast? = some '/'
      · exact ⟨d.length, hC.length_lt hlen hresult hclosed hfit,
          (hC.cstring hO hresult hclosed).stop⟩
      · -- nothing was written but a separator over the NUL
        obtain ⟨rfl, hopen⟩ := Classical.not_imp.mp hclosed
        obtain ⟨i, hi, hlt, hat⟩ := (hend rfl).resolve_left hopen
        rw [hO.idle _ rfl rfl]
        exact ⟨i, hlt, (hC.behind (by simp) i hi).trans hat⟩

/-- A string at the address 0, with other characters behind its NUL. -/
def stringMem (s : String) : Nat → Char := store (fun _ => 'x') 0 (s.toList ++ [NUL])

/-- A directory with a last name without a separator, in ten bytes. -/
theorem concatenatePath_safe_usb :
    ∃ e b', concatenatePath 10 0 ⟨stringMem "usb:/", []⟩ "a/b".toList = some (e, b') ∧
      (∀ a ∈ b'.written, 0 ≤ a ∧ a < 0 + 10) ∧
      (e = none → ∃ i < 10, b'.mem (0 + i) = NUL) := by
  have htext : CString (stringMem "usb:/") 0 "usb:/".toList := by
    refine ⟨⟨?_, ?_⟩, ?_⟩ <;> decide +kernel
  have hlen : "usb:/".toList.length < 10 := by decide
  have hnul : NUL ∉ "a/b".toList := by decide +kernel
  obtain ⟨e, b', hcall, hsafe⟩ := concatenatePath_safe_iff htext hlen (by decide +kernel) hnul
  refine ⟨e, b', hcall, hsafe.mpr ⟨?_, fun h => ?_⟩⟩
  · decide +kernel
  · exact absurd h (by decide +kernel)

/-- `../bb/` applied to `d:/a/` in six bytes returns 0 and writes a seventh; the
empty path applied to `/a` in three bytes returns 0 and leaves no NUL. -/
theorem concatenatePath_overruns :
    (∃ b', concatenatePath 6 0 ⟨stringMem "d:/a/", []⟩ "../bb/".toList = some (none, b') ∧
      6 ∈ b'.written) ∧
    ∃ b', concatenatePath 3 0 ⟨stringMem "/a", []⟩ [] = some (none, b') ∧
      load b'.mem 0 3 = "/a/".toList := by
  have hover : (concatenatePath 6 0 ⟨stringMem "d:/a/", []⟩ "../bb/".toList).map
      (fun r => (r.1, r.2.written)) = some (none, [4, 3, 3, 4, 5, 6]) := by decide +kernel
  have hopen : (concatenatePath 3 0 ⟨stringMem "/a", []⟩ []).map
      (fun r => (r.1, load r.2.mem 0 3)) = some (none, "/a/".toList) := by decide +kernel
  obtain ⟨⟨e, b'⟩, hcall, hr⟩ := Option.map_eq_some_iff.mp hover
  obtain ⟨rfl, hwritten⟩ := Prod.mk.inj hr
  obtain ⟨⟨e, b''⟩, hcall', hr'⟩ := Option.map_eq_some_iff.mp hopen
  obtain ⟨rfl, hload⟩ := Prod.mk.inj hr'
  refine ⟨⟨b', hcall, ?_⟩, b'', hcall', hload⟩
  have hwritten' : b'.written = [4, 3, 3, 4, 5, 6] := hwritten
  rw [hwritten']
  decide

end LibXenon
