/-
LibXenon/PathResolution.lean

`_concatenate_path` as resolution of a path.

A directory is a device and a list of names.  Applying a path to it is a fold
over the names in the path: `.` is dropped, `..` takes the last name away, any
other name is added, and an absolute path starts from the empty list.
`pathText` is the directory as a string, and the walk over strings of
`Paths` is the fold over lists (`walk_resolve`).

When the call returns 0 the string is the resolved directory, for every path.
It may return -1 without a reason only after a jump to the root, which cuts the
string and not the count: up to the first `..`, which counts anew, the names of
the path have to fit behind the directory that was left
(`concatenatePath_resolved_iff`).
-/
import LibXenon.Paths

namespace LibXenon

open ByteMemory CStrings List

/-! ### Resolution -/

/-- `device:/` and the names, each with a separator. -/
def pathText (device : List Char) (names : List (List Char)) : List Char :=
  device ++ [':', '/'] ++ names.flatMap (· ++ ['/'])

/-- A name applied to a directory; there is nothing above the root. -/
def resolveName (names : List (List Char)) (name : List Char) : Option (List (List Char)) :=
  if name = ['.'] then some names
  else if name = ['.', '.'] then (if names = [] then none else some names.dropLast)
  else some (names ++ [name])

/-- Where the resolution of a path starts. -/
def resolveStart (names : List (List Char)) (extra : List Char) : List (List Char) :=
  if extra.head? = some '/' then [] else names

/-- A path applied to a directory. -/
def resolve (names : List (List Char)) (extra : List Char) : Option (List (List Char)) :=
  (components extra).foldlM resolveName (resolveStart names extra)

/-- Every intermediate result, with its NUL, fits in `maxLength` bytes. -/
def ResolutionFits (maxLength : Nat) (device : List Char) (names : List (List Char))
    (extra : List Char) : Prop :=
  ∀ first, first <+: components extra →
    ∀ result, first.foldlM resolveName (resolveStart names extra) = some result →
      (pathText device result).length < maxLength

/-- The call did what resolution says: it left the resolved directory if it
returned 0, and had a reason if it returned -1. -/
def PathResolved (maxLength path : Nat) (device : List Char) (names : List (List Char))
    (extra : List Char) (e : Option PathErrno) (b : PathBuffer) : Prop :=
  (e = none → ∃ result, resolve names extra = some result ∧
    CString b.mem path (pathText device result)) ∧
  (e ≠ none → resolve names extra = none ∨ ¬ ResolutionFits maxLength device names extra)

/-- What the length checks add up for the names in front of the first `..`;
`closed` if a separator follows the last name. -/
def countedSize (closed : Bool) : List (List Char) → Nat
  | [] => 0
  | name :: names =>
    if name = ['.'] then countedSize closed names
    else if name = ['.', '.'] then 0
    else name.length + (closed || !names.isEmpty).toNat + countedSize closed names

/-- The names of `extra` in front of its first `..` fit behind the directory
the call is made in, also if `extra` starts at the root. -/
def FitsBehind (maxLength : Nat) (device : List Char) (names : List (List Char))
    (extra : List Char) : Prop :=
  (pathText device names).length
    + countedSize (decide (extra.getLast? = some '/')) (components extra) < maxLength

/-! ### Directories and their texts -/

variable {maxLength path : Nat} {device : List Char} {names result : List (List Char)}
variable {closed : Bool} {dirs : List (List Char)} {count : Nat}

theorem pathText_concat (device : List Char) (names : List (List Char)) (name : List Char) :
    pathText device (names ++ [name]) = pathText device names ++ name ++ ['/'] := by
  simp [pathText]

theorem pathText_sep (device : List Char) (names : List (List Char)) :
    (pathText device names).getLast? = some '/' := by
  rcases eq_nil_or_concat names with rfl | ⟨first, name, rfl⟩
  · rw [pathText, flatMap_nil]
    simp
  · rw [concat_eq_append, pathText_concat]
    exact List.getLast?_concat

/-- `..` on the string. -/
theorem goUp_pathText (hdevice : '/' ∉ device) (hnames : ∀ n ∈ names, '/' ∉ n) :
    goUp (pathText device names)
      = if names = [] then none else some (pathText device names.dropLast) := by
  rcases eq_nil_or_concat names with rfl | ⟨first, name, rfl⟩
  · rw [if_pos rfl, goUp, if_pos]
    have hroot : pathText device [] = (device ++ [':']) ++ ['/'] := by simp [pathText]
    rw [hroot, dropLast_concat, rdropWhile_eq_nil_iff]
    intro a ha
    rcases mem_append.mp ha with ha | ha
    · simpa using fun h : a = '/' => hdevice (h ▸ ha)
    · rw [mem_singleton.mp ha]
      rfl
  · rw [concat_eq_append] at *
    have hname : ∀ a ∈ name.reverse, (a != '/') = true := by
      intro a ha
      have hsep := hnames name (mem_append_right _ (mem_singleton_self name))
      simpa using fun h : a = '/' => hsep (h ▸ mem_reverse.mp ha)
    have hcut : (pathText device first ++ name).rdropWhile (· != '/') = pathText device first := by
      rw [List.rdropWhile, reverse_append, dropWhile_append_of_pos hname]
      refine rdropWhile_eq_self_iff.mpr fun hne => ?_
      have hlast := pathText_sep device first
      rw [List.getLast?_eq_getLast_of_ne_nil hne, Option.some.injEq] at hlast
      rw [hlast]
      decide
    have hne : pathText device first ≠ [] := append_ne_nil_of_left_ne_nil (by simp) _
    rw [if_neg (by simp), dropLast_concat, goUp, pathText_concat, dropLast_concat, hcut,
      if_neg hne]

theorem components_noSep (extra : List Char) : ∀ name ∈ components extra, '/' ∉ name := by
  induction hlen : extra.length using Nat.strong_induction_on generalizing extra with
  | _ n ih =>
    have hshort := length_dropWhile_le (· == '/') extra
    rw [← components_strip]
    rcases strip_cases extra with hstrip | ⟨first, tail, hfirst, hstrip⟩
    · rw [hstrip]
      nofun
    · have hpos := length_pos_of_ne_nil hfirst.ne_nil
      rw [hstrip, length_append] at hshort
      rw [hstrip, components_name hfirst, forall_mem_cons]
      refine ⟨hfirst.noSep, ih (tail.drop 1).length ?_ _ rfl⟩
      rw [length_drop]
      omega

/-! ### The walk as resolution -/

theorem resolveName_noSep {name : List Char} {names' : List (List Char)}
    (hnames : ∀ n ∈ names, '/' ∉ n) (hname : '/' ∉ name)
    (h : resolveName names name = some names') : ∀ n ∈ names', '/' ∉ n := by
  rw [resolveName] at h
  split at h
  · cases h
    exact hnames
  · split at h
    · split at h
      · cases h
      · cases h
        exact fun n hn => hnames n (mem_of_mem_dropLast hn)
    · cases h
      intro n hn
      rcases mem_append.mp hn with hn | hn
      · exact hnames n hn
      · rw [mem_singleton.mp hn]
        exact hname

theorem advance_resolve {count count' : Nat} {name dir' : List Char}
    (hdevice : '/' ∉ device) (hnames : ∀ n ∈ names, '/' ∉ n)
    (hok : advance maxLength closed (pathText device names) count name = .ok (dir', count')) :
    ∃ names', resolveName names name = some names' ∧ dir' = pathText device names' := by
  rcases advance_eq_ok hok with ⟨rfl, rfl, -⟩ | ⟨rfl, hup, -⟩ | ⟨⟨hthis, hparent⟩, rfl, -, -⟩
  · exact ⟨names, if_pos rfl, rfl⟩
  · rw [goUp_pathText hdevice hnames] at hup
    split at hup
    · cases hup
    · rename_i hne
      obtain rfl := Option.some.inj hup
      exact ⟨names.dropLast, by simp [resolveName, hne], rfl⟩
  · exact ⟨names ++ [name], by simp [resolveName, hthis, hparent], (pathText_concat _ _ _).symm⟩

theorem walk_resolve {d : List Char}
    (hdevice : '/' ∉ device) (hnames : ∀ n ∈ names, '/' ∉ n) (hdirs : ∀ n ∈ dirs, '/' ∉ n)
    (hok : (walk maxLength closed (pathText device names) count dirs).2 = .ok d) :
    ∃ result, dirs.foldlM resolveName names = some result ∧ d = pathText device result ∧
      ∀ n ∈ result, '/' ∉ n := by
  induction dirs generalizing names count with
  | nil => exact ⟨names, rfl, (Except.ok.inj hok).symm, hnames⟩
  | cons name dirs ih =>
    rw [walk] at hok
    split at hok
    · cases hok
    · rename_i dir' count' hadv
      obtain ⟨names', hstep, rfl⟩ := advance_resolve hdevice hnames hadv
      have hname : '/' ∉ name := hdirs name mem_cons_self
      rw [foldlM_cons, hstep]
      exact ih (resolveName_noSep hnames hname hstep)
        (fun n hn => hdirs n (mem_cons_of_mem _ hn)) hok

theorem walk_refused (dir : List Char)
    (hcount : count < maxLength) (hlong : maxLength ≤ count + countedSize closed dirs) :
    ∃ e, (walk maxLength closed dir count dirs).2 = .error e := by
  induction dirs generalizing dir count with
  | nil =>
    rw [countedSize] at hlong
    omega
  | cons name dirs ih =>
    rw [walk]
    split
    · rename_i err hadv
      exact ⟨err, rfl⟩
    · rename_i dir' count' hadv
      rw [countedSize] at hlong
      rcases advance_eq_ok hadv with
        ⟨rfl, -, rfl⟩ | ⟨rfl, -, -⟩ | ⟨⟨hthis, hparent⟩, -, rfl, hfits⟩
      · rw [if_pos rfl] at hlong
        exact ih _ hcount hlong
      · -- nothing is counted in front of the `..`
        rw [if_neg (by decide), if_pos rfl] at hlong
        omega
      · rw [if_neg hthis, if_neg hparent] at hlong
        exact ih _ (by omega) (by omega)

/-- The length checks ahead have a directory to go by, or nothing to refuse. -/
def CountSound (maxLength : Nat) (closed : Bool) (dir : List Char) (count : Nat)
    (dirs : List (List Char)) : Prop :=
  count ≤ dir.length ∨ count + countedSize closed dirs < maxLength

theorem CountSound.advance {count count' : Nat} {dir dir' name : List Char}
    (hsound : CountSound maxLength closed dir count (name :: dirs))
    (hok : advance maxLength (closed || !dirs.isEmpty) dir count name = .ok (dir', count')) :
    CountSound maxLength closed dir' count' dirs := by
  rw [CountSound, countedSize] at hsound
  rcases advance_eq_ok hok with ⟨rfl, rfl, rfl⟩ | ⟨-, -, rfl⟩ | ⟨⟨hthis, hparent⟩, rfl, rfl, -⟩
  · exact hsound
  · -- `..` counts anew
    exact .inl (Nat.sub_le _ _)
  · rw [if_neg hthis, if_neg hparent] at hsound
    refine hsound.imp (fun hle => ?_) fun hlt => ?_
    · rw [length_append, length_append, length_singleton]
      have hbit := Bool.toNat_le (closed || !dirs.isEmpty)
      omega
    · omega

/-- A name that is refused with a sound count is refused for a reason: the
directory with the name does not fit. -/
theorem CountSound.refused {name : List Char}
    (hsound : CountSound maxLength closed (pathText device names) count (name :: dirs))
    (hname : name ≠ ['.'] ∧ name ≠ ['.', '.'])
    (hlong : maxLength ≤ count + (name.length + (closed || !dirs.isEmpty).toNat)) :
    maxLength ≤ (pathText device (names ++ [name])).length := by
  rw [CountSound, countedSize, if_neg hname.1, if_neg hname.2] at hsound
  rw [pathText_concat, length_append, length_append, length_singleton]
  have hbit := Bool.toNat_le (closed || !dirs.isEmpty)
  omega

theorem walk_error {e : PathErrno}
    (hdevice : '/' ∉ device) (hnames : ∀ n ∈ names, '/' ∉ n) (hdirs : ∀ n ∈ dirs, '/' ∉ n)
    (hsound : CountSound maxLength closed (pathText device names) count dirs)
    (herr : (walk maxLength closed (pathText device names) count dirs).2 = .error e) :
    dirs.foldlM resolveName names = none ∨ ∃ first, first <+: dirs ∧ ∃ result,
      first.foldlM resolveName names = some result ∧
        maxLength ≤ (pathText device result).length := by
  induction dirs generalizing names count with
  | nil => cases herr
  | cons name dirs ih =>
    rw [walk] at herr
    rw [foldlM_cons]
    split at herr
    · rename_i err hadv
      -- refused at this name: nothing is above the root, or the path is too long
      rcases advance_eq_error hadv with ⟨rfl, hroot, -⟩ | ⟨⟨hthis, hparent⟩, hlong, -⟩
      · left
        rw [goUp_pathText hdevice hnames] at hroot
        split at hroot
        · rename_i hnil
          rw [hnil]
          rfl
        · cases hroot
      · have hstep : resolveName names name = some (names ++ [name]) := by
          simp [resolveName, hthis, hparent]
        refine .inr ⟨[name], cons_prefix_cons.mpr ⟨rfl, nil_prefix⟩,
          names ++ [name], ?_, hsound.refused ⟨hthis, hparent⟩ hlong⟩
        rw [foldlM_cons, hstep]
        rfl
    · rename_i dir' count' hadv
      have hsound' := hsound.advance hadv
      obtain ⟨names', hstep, rfl⟩ := advance_resolve hdevice hnames hadv
      have hname : '/' ∉ name := hdirs name mem_cons_self
      rcases ih (resolveName_noSep hnames hname hstep)
        (fun n hn => hdirs n (mem_cons_of_mem _ hn)) hsound' herr with
          hnone | ⟨first, hfirst, result, hfold, hlong⟩
      · left
        rw [hstep]
        exact hnone
      · refine .inr ⟨name :: first, cons_prefix_cons.mpr ⟨rfl, hfirst⟩, result, ?_, hlong⟩
        rw [foldlM_cons, hstep]
        exact hfold

/-! ### `_concatenate_path` on a directory -/

theorem startDir_pathText (hdevice : '/' ∉ device) (names : List (List Char)) (extra : List Char) :
    startDir (pathText device names) extra = pathText device (resolveStart names extra) := by
  rw [resolveStart]
  by_cases habs : extra.head? = some '/'
  · have hroot : pathText device names
        = (device ++ [':']) ++ '/' :: names.flatMap (· ++ ['/']) := by simp [pathText]
    have hnoSep : '/' ∉ device ++ [':'] := by simp [hdevice]
    rw [if_pos habs, hroot, startDir_root hnoSep _ habs]
    simp [pathText]
  · rw [if_neg habs, startDir, if_neg habs, closeDir, if_pos (pathText_sep device names)]

theorem resolveStart_noSep (hnames : ∀ n ∈ names, '/' ∉ n) (extra : List Char) :
    ∀ n ∈ resolveStart names extra, '/' ∉ n := by
  rw [resolveStart]
  split
  · exact fun n hn => nomatch hn
  · exact hnames

/-- The walk of a call fails for a reason, unless it starts at the root of
another directory and the names do not fit behind that. -/
theorem pathWalk_error {extra : List Char} {e : PathErrno} (hdevice : '/' ∉ device)
    (hnames : ∀ n ∈ names, '/' ∉ n)
    (hfits : extra.head? = some '/' → names ≠ [] → FitsBehind maxLength device names extra)
    (herr : (pathWalk maxLength (pathText device names).length
      (pathText device (resolveStart names extra)) extra).2 = .error e) :
    resolve names extra = none ∨ ¬ ResolutionFits maxLength device names extra := by
  have hsound : CountSound maxLength (decide (extra.getLast? = some '/'))
      (pathText device (resolveStart names extra)) (pathText device names).length
      (components extra) := by
    by_cases hjump : extra.head? = some '/' ∧ names ≠ []
    · exact .inr (hfits hjump.1 hjump.2)
    · -- the count is the length of the directory the path is applied to
      have hsame : resolveStart names extra = names := by
        rw [resolveStart]
        split
        · rename_i habs
          exact (not_not.mp fun hne => hjump ⟨habs, hne⟩).symm
        · rfl
      rw [hsame]
      exact .inl (Nat.le_refl _)
  rcases walk_error hdevice (resolveStart_noSep hnames extra) (components_noSep extra) hsound herr
    with hnone | ⟨first, hfirst, result, hfold, hlong⟩
  · exact .inl hnone
  · exact .inr fun hall => absurd (hall first hfirst result hfold) (Nat.not_lt.mpr hlong)

/-- **Resolution.**  The call returns, and it does what resolution says if and
only if it is not one that starts at the root of another directory and has
names in front of the first `..` that fit there but not behind that directory. -/
theorem concatenatePath_resolved_iff {mem : Nat → Char} {extra : List Char}
    (hdevice : '/' ∉ device) (hnames : ∀ n ∈ names, '/' ∉ n)
    (htext : CString mem path (pathText device names))
    (hlen : (pathText device names).length < maxLength) (hnul : NUL ∉ extra) :
    ∃ e b', concatenatePath maxLength path ⟨mem, []⟩ extra = some (e, b') ∧
      (PathResolved maxLength path device names extra e b' ↔
        (extra.head? = some '/' → names ≠ [] → resolve names extra ≠ none →
          ResolutionFits maxLength device names extra →
            FitsBehind maxLength device names extra)) := by
  have hclosed := pathText_sep device names
  obtain ⟨c, e, b', hcall, hC, hO⟩ :=
    concatenatePath_outcome htext hlen (mem_of_getLast? hclosed) hnul
  have hwalk := startDir_pathText hdevice names extra
  refine ⟨e, b', hcall, ?_⟩
  rcases hresult : (pathWalk maxLength (pathText device names).length
      (startDir (pathText device names) extra) extra).2 with err | d
  · have he : e ≠ none := by
      rw [hO.error err hresult]
      exact Option.some_ne_none err
    rw [hwalk] at hresult
    constructor
    · intro hresolved _ _ hsome hfits
      rcases hresolved.2 he with hnone | hlong
      · exact absurd hnone hsome
      · exact absurd hfits hlong
    · refine fun hcond => ⟨fun hnone => absurd hnone he, fun _ => ?_⟩
      by_contra hno
      obtain ⟨hsome, hfits⟩ := not_or.mp hno
      exact hno (pathWalk_error hdevice hnames
        (fun habs hne => hcond habs hne hsome (not_not.mp hfits)) hresult)
  · have hstring := hC.cstring hO hresult fun _ => hclosed
    have hzero := (hO.text d hresult).1
    rw [hwalk] at hresult
    constructor
    · -- names that do not fit would have been refused
      intro _ _ _ _ _
      by_contra hlong
      obtain ⟨err, herr⟩ := walk_refused (pathText device (resolveStart names extra)) hlen
        (Nat.not_lt.mp hlong)
      rw [pathWalk, herr] at hresult
      cases hresult
    · intro _
      obtain ⟨result, hfold, rfl, -⟩ := walk_resolve hdevice (resolveStart_noSep hnames extra)
        (components_noSep extra) hresult
      exact ⟨fun _ => ⟨result, hfold, hstring⟩, fun hne => absurd hzero hne⟩

/-- `/b` applied to `usb:/a/`. -/
theorem concatenatePath_resolved_root :
    ∃ b', concatenatePath 20 0 ⟨stringMem "usb:/a/", []⟩ "/b".toList = some (none, b') ∧
      CString b'.mem 0 "usb:/b/".toList := by
  have htext : CString (stringMem "usb:/a/") 0 (pathText "usb".toList [['a']]) := by
    refine ⟨⟨?_, ?_⟩, ?_⟩ <;> decide +kernel
  have hlen : (pathText "usb".toList [['a']]).length < 20 := by decide +kernel
  have hnul : NUL ∉ "/b".toList := by decide +kernel
  obtain ⟨e, b', hcall, hresolved⟩ := concatenatePath_resolved_iff (by decide +kernel)
    (by decide +kernel) htext hlen hnul
  have hret : (concatenatePath 20 0 ⟨stringMem "usb:/a/", []⟩ "/b".toList).map Prod.fst
      = some none := by decide +kernel
  rw [hcall] at hret
  obtain rfl : e = none := Option.some.inj hret
  have hfits : FitsBehind 20 "usb".toList [['a']] "/b".toList := by
    rw [FitsBehind]
    decide +kernel
  obtain ⟨result, hresolve, hstring⟩ := (hresolved.mpr fun _ _ _ _ => hfits).1 rfl
  have hb : resolve [['a']] "/b".toList = some [['b']] := by decide +kernel
  obtain rfl := Option.some.inj (hb.symm.trans hresolve)
  exact ⟨b', hcall, hstring⟩

/-- `/bb` applied to `d:/aaaa/` in ten bytes returns -1: the count goes on from
the eight bytes of the directory, though `d:/bb/` has six. -/
theorem concatenatePath_keeps_count :
    (concatenatePath 10 0 ⟨stringMem "d:/aaaa/", []⟩ "/bb".toList).map Prod.fst
      = some (some .ENAMETOOLONG) ∧
    resolve ["aaaa".toList] "/bb".toList = some ["bb".toList] ∧
    ResolutionFits 10 "d".toList ["aaaa".toList] "/bb".toList := by
  refine ⟨by decide +kernel, by decide +kernel, fun first hfirst result hfold => ?_⟩
  have hcomps : components "/bb".toList = ["bb".toList] := by decide +kernel
  have hstart : resolveStart ["aaaa".toList] "/bb".toList = [] := by decide +kernel
  rw [hstart] at hfold
  rw [hcomps, ← mem_inits] at hfirst
  have hcases : first = [] ∨ first = ["bb".toList] := by simpa [List.inits] using hfirst
  rcases hcases with rfl | rfl
  · cases hfold
    decide +kernel
  · have hbb : ["bb".toList].foldlM resolveName [] = some ["bb".toList] := by decide +kernel
    obtain rfl := Option.some.inj (hbb.symm.trans hfold)
    decide +kernel

end LibXenon
