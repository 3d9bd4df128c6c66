/-
# `std::path` on every path

A path that begins with `\\?\`, just as it stands, is verbatim: only `\` separates its names, so
that a name can have `/` in it, and `.` counts as a component.  `Lib/WindowsPath` and
`Lib/PathComponents` read all other paths, but for a device path without a device (`\\.\`); here
these two kinds are added.

On a drive or on a share both readings are the same (`OnVolume.components_eq`,
`OnVolume.join_name`).
-/
import DcsDashboard.Lib.PathComponents

namespace DcsDashboard.Lib.StdPath

open WindowsPath
open FileTree (Name)

/-! ## 1. Verbatim paths -/

/-- `is_verbatim_sep`. -/
def isVerbatimSep (c : Char) : Bool := c = '\\'

/-- Inside a name of a verbatim path. -/
def inVerbatimName (c : Char) : Bool := !isVerbatimSep c

/-- `Prefix::is_verbatim`. -/
def isVerbatim (p : List Char) : Bool := "\\\\?\\".toList.isPrefixOf p

/-- The length of the prefix behind `\\?\`: a share, a drive, or else the first name. -/
def verbatimLength (path : List Char) : Nat :=
  if "UNC".toList.isPrefixOf path && hasRoot (path.drop 3) then
    let server := (path.drop 4).takeWhile inVerbatimName
    let share := (path.drop (4 + server.length + 1)).takeWhile inVerbatimName
    4 + server.length + if share = [] then 0 else 1 + share.length
  else if hasDrive path && atEnd (path.drop 2) then 2
  else (path.takeWhile inVerbatimName).length

/-- `parse_prefix`: the prefix of a verbatim path and what comes after it. -/
def splitVerbatim (p : List Char) : List Char × List Char :=
  p.splitAt (4 + verbatimLength (p.drop 4))

/-- The root of a verbatim path, and its names. -/
def splitRoot (rest : List Char) : List Char × List Char :=
  rest.splitAt (if hasRoot rest then 1 else 0)

/-- The names of a verbatim path. -/
def verbatimBody (p : List Char) : List Char := (splitRoot (splitVerbatim p).2).2

/-- The last name of a verbatim path. -/
def verbatimName (p : List Char) : List Char :=
  ((verbatimBody p).rdropWhile isVerbatimSep).rtakeWhile inVerbatimName

/-- `parse_single_component`, in a verbatim path. -/
def verbatimComponent (part : List Char) : Component :=
  if part = ['.'] then .curDir else component part

/-- `Path::components` of a verbatim path. -/
def verbatimComponents (p : List Char) : List Component :=
  .volume (splitVerbatim p).1 ::
    ((if hasRoot (splitVerbatim p).2 then [.rootDir] else []) ++
      (((verbatimBody p).splitOn '\\').filter (· ≠ [])).map verbatimComponent)

/-! ## 2. All paths -/

/-- A device path without a device. -/
def isBareDevice : List Char → Bool
  | a :: b :: '.' :: c :: rest => isSep a && isSep b && isSep c && atEnd rest
  | _ => false

/-- `Path::file_name`. -/
def fileName (p : List Char) : Option Name :=
  if isVerbatim p then
    if verbatimName p = [] ∨ verbatimName p = ['.'] ∨ verbatimName p = ['.', '.'] then none
    else some (verbatimName p)
  else WindowsPath.fileName p

/-- `Path::components`. -/
def components (p : List Char) : List Component :=
  if isVerbatim p then verbatimComponents p
  else if isBareDevice p then
    .volume (p.take 4) :: .rootDir :: (nameParts (p.drop 4)).map component
  else WindowsPath.components p

/-- `Path::prefix` is there. -/
def hasPrefix (p : List Char) : Bool := isVerbatim p || isBareDevice p || (splitPrefix p).1 ≠ []

/-- `Component::as_os_str`. -/
def text : Component → List Char
  | .volume volume => volume
  | .rootDir => ['\\']
  | .curDir => ['.']
  | .parentDir => ['.', '.']
  | .normal name => name

/-- A component is pushed onto those of a verbatim path. -/
def pushComponent (buf : List Component) : Component → List Component
  | .rootDir => buf.take 1 ++ [.rootDir]
  | .curDir => buf
  | .parentDir =>
    match buf.getLast? with
    | some (.normal _) => buf.dropLast
    | _ => buf
  | c => buf ++ [c]

/-- The text of a verbatim path. -/
def verbatimText : Bool → List Component → List Char
  | _, [] => []
  | needSep, c :: rest =>
    (if needSep && c ≠ .rootDir then ['\\'] else []) ++ text c ++ verbatimText (c ≠ .rootDir) rest

/-- `Path::join`. -/
def join (dir path : List Char) : List Char :=
  if hasPrefix path then path
  else if isVerbatim dir && path ≠ [] then
    verbatimText false ((components path).foldl pushComponent (components dir))
  else if isBareDevice dir && hasRoot path then dir.take 4 ++ path
  else WindowsPath.join dir path

/-! ## 3. Drives and shares -/

/-- The path is on a drive or on a share, and not verbatim. -/
structure OnVolume (p : List Char) : Prop where
  volume : (splitPrefix p).1 ≠ []
  plain : isVerbatim p = false

/-- No drive and no share is a device path without a device. -/
theorem splitPrefix_bareDevice {p : List Char} (h : isBareDevice p = true) :
    (splitPrefix p).1 = [] := by
  unfold isBareDevice at h
  split at h
  case h_2 => cases h
  case h_1 a b c rest =>
    obtain ⟨⟨⟨ha, hb⟩, hc⟩, hend⟩ : ((isSep a = true ∧ isSep b = true) ∧ isSep c = true) ∧
        atEnd rest = true := by simpa using h
    have hserver : ('.' :: c :: rest).takeWhile inName = ['.'] :=
      @takeWhile_inName ['.'] (c :: rest) (by simp [inName, isSep]) (by simpa [atEnd] using hc)
    have hshare : rest.takeWhile inName = [] :=
      @takeWhile_inName [] rest (by simp) hend
    rw [splitPrefix, if_neg (by simp [hasDrive_of_isSep hb]), shareLength]
    simp [hserver, hshare]

/-- What a path on a volume begins with decides how it is read. -/
theorem isVerbatim_append {p : List Char} (h : (splitPrefix p).1 ≠ []) (t : List Char) :
    isVerbatim (p ++ t) = isVerbatim p := by
  have hlong {p : List Char} (hlength : 4 ≤ p.length) : isVerbatim (p ++ t) = isVerbatim p := by
    match p, hlength with
    | a :: b :: c :: d :: rest, _ => simp [isVerbatim, List.isPrefixOf]
  rcases splitPrefix_cases p with ⟨l, rest, -, rfl, -⟩ |
    ⟨a, b, server, c, share, rest, hs, -, rfl, -⟩ | hp
  · simp [isVerbatim, List.isPrefixOf]
  · refine hlong ?_
    have hserver := List.length_pos_iff.mpr hs.server_ne
    have hshare := List.length_pos_iff.mpr hs.share_ne
    simp only [List.length_cons, List.length_append]
    omega
  · exact absurd (by rw [hp]) h

namespace OnVolume

variable {dir : List Char}

theorem not_bareDevice (h : OnVolume dir) : isBareDevice dir = false :=
  Bool.eq_false_iff.mpr fun hbare => h.volume (splitPrefix_bareDevice hbare)

theorem components_eq (h : OnVolume dir) : components dir = WindowsPath.components dir := by
  rw [components, if_neg (by simp [h.plain]), if_neg (by simp [h.not_bareDevice])]

/-- Nothing is normalised when a path is joined to a directory on a volume. -/
theorem join_eq (h : OnVolume dir) {path : List Char} (hpath : hasPrefix path = false) :
    join dir path = WindowsPath.join dir path := by
  rw [join, if_neg (by simp [hpath]), if_neg (by simp [h.plain]),
    if_neg (by simp [h.not_bareDevice])]

end OnVolume

theorem hasPrefix_name {name : Name} (h : IsName name) : hasPrefix name = false := by
  obtain ⟨c, rest, rfl⟩ := List.exists_cons_of_ne_nil h.ne_nil
  have hc : isSep c = false := by simpa [inName] using h.inside c (by simp)
  have hverbatim : isVerbatim (c :: rest) = false := by
    have hback : c ≠ '\\' := by
      rintro rfl
      exact absurd hc (by decide)
    simp [isVerbatim, List.isPrefixOf, Ne.symm hback]
  have hbare : isBareDevice (c :: rest) = false := by
    unfold isBareDevice
    split
    · rename_i heq
      obtain ⟨rfl, -⟩ := List.cons.inj heq
      simp [hc]
    · rfl
  simp [hasPrefix, hverbatim, hbare, h.no_prefix]

namespace OnVolume

variable {dir : List Char} {name : Name}

theorem join_name (h : OnVolume dir) (hname : IsName name) :
    join dir name = atName dir ++ name :=
  (h.join_eq (hasPrefix_name hname)).trans (WindowsPath.join_name hname dir)

/-- A name joined to a directory stays on its volume. -/
theorem join (h : OnVolume dir) (hname : IsName name) : OnVolume (StdPath.join dir name) := by
  obtain ⟨after, -, hsplit⟩ := exists_atName h.volume
  rw [h.join_name hname]
  refine ⟨by rw [(hsplit name).1]; exact h.volume, ?_⟩
  have htext : ∃ t, atName dir ++ name = dir ++ t := by
    unfold atName
    split
    · exact ⟨'\\' :: name, by simp⟩
    · exact ⟨name, rfl⟩
  obtain ⟨t, ht⟩ := htext
  rw [ht, isVerbatim_append h.volume, h.plain]

/-- **A name joined to a directory** on a volume comes after its components. -/
theorem components_join (h : OnVolume dir) (hname : IsName name) (hdot : name ≠ ['.']) :
    components (StdPath.join dir name) = components dir ++ [component name] := by
  rw [(h.join hname).components_eq, h.components_eq, h.join_eq (hasPrefix_name hname),
    WindowsPath.components_join hname hdot h.volume]

end OnVolume

/-! ## 4. Last components -/

theorem mem_verbatimName {p : List Char} {c : Char} (h : c ∈ verbatimName p) : c ≠ '\\' := by
  have hin : inVerbatimName c = true := List.mem_rtakeWhile_imp h
  simpa [inVerbatimName, isVerbatimSep] using hin

/-- A last component has no `\`. -/
theorem backslash_notMem_fileName {p name : List Char} (h : fileName p = some name) :
    '\\' ∉ name := by
  intro hc
  rw [fileName] at h
  split at h
  · split at h
    · cases h
    · obtain rfl := Option.some.inj h
      exact mem_verbatimName hc rfl
  · exact absurd (fileName_inName h hc) (by decide)

theorem splitVerbatim_append (p : List Char) : (splitVerbatim p).1 ++ (splitVerbatim p).2 = p := by
  rw [splitVerbatim, List.splitAt_eq, List.take_append_drop]

theorem atEnd_behind_name (s : List Char) :
    atEnd (s.drop (s.takeWhile inVerbatimName).length) = true := by
  have hdrop : s.drop (s.takeWhile inVerbatimName).length = s.dropWhile inVerbatimName := by
    have hs : s.takeWhile inVerbatimName ++ s.dropWhile inVerbatimName = s :=
      List.takeWhile_append_dropWhile
    calc s.drop (s.takeWhile inVerbatimName).length
        = (s.takeWhile inVerbatimName ++ s.dropWhile inVerbatimName).drop
            (s.takeWhile inVerbatimName).length := by rw [hs]
      _ = s.dropWhile inVerbatimName := List.drop_left
  have hhead := List.head?_dropWhile_not inVerbatimName s
  rw [hdrop, atEnd]
  cases h : (s.dropWhile inVerbatimName).head? with
  | none => rfl
  | some c =>
    obtain rfl : c = '\\' := by simpa [h, inVerbatimName, isVerbatimSep] using hhead
    rfl

/-- Behind its prefix a verbatim path is at its root. -/
theorem atEnd_splitVerbatim (p : List Char) : atEnd (splitVerbatim p).2 = true := by
  have hrest : (splitVerbatim p).2 = (p.drop 4).drop (verbatimLength (p.drop 4)) := by
    rw [splitVerbatim, List.splitAt_eq, List.drop_drop]
  rw [hrest]
  generalize p.drop 4 = path
  simp only [verbatimLength]
  split
  · split
    · rw [Nat.add_zero, ← List.drop_drop]
      exact atEnd_behind_name _
    · rw [← Nat.add_assoc, ← List.drop_drop]
      exact atEnd_behind_name _
  · split
    · rename_i hdrive
      simp only [Bool.and_eq_true] at hdrive
      exact hdrive.2
    · exact atEnd_behind_name path

/-- The names of a verbatim path stand behind its root. -/
theorem verbatimBody_cases (p : List Char) :
    verbatimBody p = [] ∨
      ∃ c, isSep c = true ∧ ((splitVerbatim p).1 ++ [c]) ++ verbatimBody p = p := by
  have hp := splitVerbatim_append p
  have hend := atEnd_splitVerbatim p
  cases hrest : (splitVerbatim p).2 with
  | nil => exact .inl (by rw [verbatimBody, hrest]; rfl)
  | cons c rest =>
    have hc : isSep c = true := by simpa [hrest, atEnd] using hend
    have hbody : verbatimBody p = rest := by simp [verbatimBody, hrest, splitRoot, hasRoot, hc]
    exact .inr ⟨c, hc, by rw [hbody, List.append_assoc, List.singleton_append, ← hrest, hp]⟩

end DcsDashboard.Lib.StdPath
