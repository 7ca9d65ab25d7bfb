/- # Names of files

Files are named by paths with forward slashes.  A normal path has no empty and no `.` segment,
and `..` only at the start of a relative path; an absolute path cannot leave the root.

Component files end in `.vue`.  To the module resolver each of them also appears as a script
of the same name with `.ts` appended, except below `node_modules`.
-/
namespace ComponentHost.Path

/-! ## 1. Segments -/

/-- The parts of a path between slashes. -/
def splitSegments : List Char → List (List Char)
  | [] => [[]]
  | c :: r =>
    if c == '/' then [] :: splitSegments r
    else
      match splitSegments r with
      | [] => [[c]]
      | s :: ss => (c :: s) :: ss

/-- Parts with slashes between them. -/
def joinSegments : List (List Char) → List Char
  | [] => []
  | [s] => s
  | s :: ss => s ++ '/' :: joinSegments ss

/-- The current directory. -/
def dot : List Char := ['.']

/-- The parent directory. -/
def dots : List Char := ['.', '.']

/-- Takes one more segment; what is read so far is kept backwards.  A step up cancels the segment
before it.  Where there is none it is kept in a relative path and lost in an absolute one. -/
def push (absolute : Bool) (read : List (List Char)) (s : List Char) : List (List Char) :=
  if s = [] ∨ s = dot then read
  else if s = dots then
    match read with
    | [] => if absolute then [] else [dots]
    | last :: before => if last = dots then (if absolute then read else dots :: read) else before
  else s :: read

/-- The segments of a path with steps up resolved. -/
def resolve (absolute : Bool) (segments : List (List Char)) : List (List Char) :=
  (segments.foldl (push absolute) []).reverse

/-! ## 2. Normal paths -/

/-- Both sorts of slashes are separators. -/
def slashed (cs : List Char) : List Char := cs.map fun c => if c == '\\' then '/' else c

/-- The characters of a normal path. -/
def normalizeChars (cs : List Char) : List Char :=
  let cs := slashed cs
  let absolute := cs.head? == some '/'
  let body := joinSegments (resolve absolute (splitSegments cs))
  if absolute then '/' :: body else body

/-- The normal form of a path. -/
def normalize (path : String) : String := String.ofList (normalizeChars path.toList)

/-- The part of a text after the last slash, and the part before it; `none` if there is none. -/
def splitLast (cs : List Char) : Option (List Char × List Char) :=
  let name := (cs.reverse.takeWhile (· != '/')).reverse
  if name.length == cs.length then none
  else some (cs.take (cs.length - name.length - 1), name)

/-- The directory of a normal path. -/
def directoryOf (path : String) : String :=
  match splitLast path.toList with
  | none => "."
  | some ([], _) => "/"
  | some (dir, _) => String.ofList dir

theorem length_of_splitLast {cs dir name : List Char} (h : splitLast cs = some (dir, name)) :
    dir.length + name.length + 1 = cs.length := by
  unfold splitLast at h
  simp only at h
  split at h
  · cases h
  · next hne =>
    have hle := (List.takeWhile_sublist (l := cs.reverse) (· != '/')).length_le
    simp only [List.length_reverse, beq_iff_eq] at hne hle
    simp only [Option.some.injEq, Prod.mk.injEq] at h
    obtain ⟨rfl, rfl⟩ := h
    simp only [List.length_take, List.length_reverse]
    omega

theorem eq_slash_of_splitLast {cs : List Char} (h : splitLast cs = some ([], [])) : cs = ['/'] := by
  have hlength := length_of_splitLast h
  match cs, hlength with
  | [c], _ =>
    by_cases hc : c = '/'
    · rw [hc]
    · simp [splitLast, hc] at h

/-- Going up shortens a path, unless it stays or leaves what is known. -/
theorem length_directoryOf_lt {path : String} (hself : directoryOf path ≠ path)
    (hdot : directoryOf path ≠ ".") : (directoryOf path).length < path.length := by
  unfold directoryOf at hself hdot ⊢
  split at hdot
  · exact absurd rfl hdot
  · next name hsplit =>
    have hlength := length_of_splitLast hsplit
    simp only [List.length_nil, String.length_toList] at hlength
    match name with
    | [] =>
      have hslash := congrArg String.ofList (eq_slash_of_splitLast hsplit)
      rw [String.ofList_toList] at hslash
      rw [hsplit] at hself
      exact absurd hslash.symm hself
    | c :: r =>
      simp only [List.length_cons] at hlength
      change 1 < path.length
      omega
  · next dir name _ hsplit =>
    have hlength := length_of_splitLast hsplit
    simp only [String.length_toList] at hlength
    rw [String.length_ofList]
    omega

/-- A path relative to a directory. -/
def join (dir relative : String) : String :=
  if relative.startsWith "/" then normalize relative else normalize (dir ++ "/" ++ relative)

/-- Does the path start at the root? -/
def isAbsolute (path : String) : Bool := path.startsWith "/"

/-- Is the name of a module relative to the file that names it? -/
def isRelativeName (name : String) : Bool :=
  name.startsWith "./" || name.startsWith "../" || name == "." || name == ".."

/-! ## 3. Paths on disk

A path on disk is kept as it was written: its text names the file in messages. -/

/-- The path of an entry of a directory; an absolute name stands for itself. -/
def child (dir name : String) : String :=
  if dir.isEmpty || isAbsolute name then name
  else if dir.endsWith "/" then dir ++ name
  else dir ++ "/" ++ name

/-- Drops what says nothing at the end of a path, which is read backwards: slashes, but for the
root itself, and `.` segments. -/
def trimBackwards : List Char → List Char
  | '/' :: r => if r.isEmpty then ['/'] else trimBackwards r
  | '.' :: ('/' :: r) => trimBackwards ('/' :: r)
  | cs => cs

/-- The directory that holds the file; none for the root. -/
def parent? (path : String) : Option String :=
  match trimBackwards path.toList.reverse with
  | [] | ['/'] => none
  | _ :: before => some (String.ofList (trimBackwards (before.dropWhile (· != '/'))).reverse)

theorem length_trimBackwards_le (cs : List Char) : (trimBackwards cs).length ≤ cs.length := by
  fun_induction trimBackwards cs <;> simp_all <;> omega

theorem length_parent?_lt {path dir : String} (h : parent? path = some dir) :
    dir.length < path.length := by
  unfold parent? at h
  split at h
  · cases h
  · cases h
  · next c before hroot heq =>
    simp only [Option.some.injEq] at h
    subst h
    have hpath := length_trimBackwards_le path.toList.reverse
    rw [heq] at hpath
    have htrim := length_trimBackwards_le (before.dropWhile (· != '/'))
    have hdrop := (List.dropWhile_sublist (l := before) (· != '/')).length_le
    simp only [List.length_cons, List.length_reverse, String.length_toList] at hpath
    simp only [String.length_ofList, List.length_reverse]
    omega

/-- The path and the directories above it, nearest first. -/
def ancestors (path : String) : List String :=
  path :: match _h : parent? path with
    | some dir => ancestors dir
    | none => []
termination_by path.length
decreasing_by exact length_parent?_lt (by assumption)

/-! ## 4. Components -/

/-- Is the file a component? -/
def isComponent (name : String) : Bool := name.endsWith ".vue"

/-- Does the text occur in a list of characters? -/
def occursIn (word : List Char) : List Char → Bool
  | [] => word.isEmpty
  | c :: r => word.isPrefixOf (c :: r) || occursIn word r

/-- Does the path lead through installed packages? -/
def inPackages (name : String) : Bool := occursIn "node_modules".toList name.toList

/-- Is the name that of a component as the resolver sees it? -/
def isViewName (name : String) : Bool := name.endsWith ".vue.ts" && !inPackages name

/-- The suffix under which components appear to the resolver. -/
def viewSuffix : String := ".ts"

/-- The name of a component as the resolver sees it. -/
def viewName (name : String) : String := name ++ viewSuffix

/-- The name without the resolver's suffix. -/
def ofViewName (name : String) : String :=
  if name.endsWith viewSuffix then String.ofList (name.toList.take (name.length - viewSuffix.length))
  else name

end ComponentHost.Path
