/-
# Downloads stay under their root

`resolve_under` (`routes/downloads.rs`) turns the path of a request into a file to send.  The text
is read as the components of a path; anything but names is refused.  The names are followed from
what the configured root means, links included, and what they mean has to lie under the root, to be
a regular file and to have one of the allowed extensions.

Whatever links the tree holds, what is sent is a regular file under the root with no link on its
way, and a refusal says nothing about the disk: which one it is depends on the text alone
(`downloadUnder_contained`).  The texts that are read as names are those that begin with a name and
go up nowhere (`requestedNames_eq_ok`).
-/
import DcsDashboard.Downloads.ContentDisposition
import DcsDashboard.Lib.LowerCase
import DcsDashboard.Lib.PathComponents
import DcsDashboard.Lib.TextLines

namespace DcsDashboard.Downloads

open Lib FileTree WindowsPath

/-! ## 1. Requests -/

/-- A file: what is in it, and when it was last modified, in milliseconds since the Unix epoch. -/
structure FileData where
  bytes : List UInt8
  modifiedMs : Option Nat
  deriving DecidableEq

/-- `metadata.len()`. -/
def FileData.size (data : FileData) : Nat := data.bytes.length

/-- Why a download could not be served. -/
inductive DownloadError
  | badRequest (msg : String)
  | notFound
  | notConfigured (msg : String)
  | io (msg : String)
  deriving DecidableEq, Repr

/-- The status and the `error` of the response. -/
def DownloadError.intoResponse : DownloadError → Nat × String
  | .badRequest msg => (400, msg)
  | .notFound => (404, "File not found")
  | .notConfigured msg => (404, msg)
  | .io msg => (500, msg)

/-- Both separators are read as `/`. -/
def normalised (text : List Char) : List Char := text.map fun c => if c = '\\' then '/' else c

/-- The names a request asks for. -/
def requestedNames (rel : List Char) : Except DownloadError (List Name) :=
  let trimmed := trim rel
  if trimmed = [] then .error (.badRequest "No path provided")
  else
    match normalNames (components (normalised trimmed)) with
    | some names => .ok names
    | none => .error (.badRequest "Invalid path")

/-- `has_allowed_extension`. -/
def hasAllowedExtension (T : LowerCase) (path : Place) (allowed : List (List Char)) : Bool :=
  match path.getLast? with
  | none => false
  | some name => allowed.any fun ext => (T.toLowercase ext).isSuffixOf (T.toLowercase name)

variable {fold : Char → Char} {T : LowerCase} {fs : Fs fold FileData} {root : Place}
  {allowed : List (List Char)} {rel : List Char}

/-- A file under the root that is one to be served. -/
def servable (T : LowerCase) (fs : Fs fold FileData) (rootCanonical resolved : Place)
    (allowed : List (List Char)) : Except DownloadError Place :=
  if !rootCanonical.isPrefixOf resolved then .error .notFound
  else
    match lookup fs resolved with
    | some (.file _) => if hasAllowedExtension T resolved allowed then .ok resolved else .error .notFound
    | _ => .error .notFound

/-- `resolve_under`. -/
def resolveUnder (T : LowerCase) (fs : Fs fold FileData) (root : Place) (rel : List Char)
    (allowed : List (List Char)) : Except DownloadError Place :=
  match requestedNames rel with
  | .error e => .error e
  | .ok names =>
    match canonicalize fs root with
    | none => .error .notFound
    | some rootCanonical =>
      match canonicalize fs (rootCanonical ++ names) with
      | none => .error .notFound
      | some resolved => servable T fs rootCanonical resolved allowed

/-- What is sent. -/
structure Download where
  contentLength : Nat
  disposition : List Char
  body : List UInt8
  deriving DecidableEq

/-- `stream_download`. -/
def streamDownload (fs : Fs fold FileData) (path : Place) : Except DownloadError Download :=
  match lookup fs path with
  | some (.file data) =>
    .ok ⟨data.size, contentDisposition (path.getLast?.getD "download".toList), data.bytes⟩
  | _ => .error (.io "The system cannot find the file specified.")

/-- What `mission_download` and `tacview_download` do with a root. -/
def downloadUnder (T : LowerCase) (fs : Fs fold FileData) (root : Place) (rel : List Char)
    (allowed : List (List Char)) : Except DownloadError Download :=
  match resolveUnder T fs root rel allowed with
  | .ok path => streamDownload fs path
  | .error e => .error e

/-- `mission_download`. -/
def missionDownload (T : LowerCase) (fs : Fs fold FileData) (missionsDir : Place)
    (rel : List Char) : Except DownloadError Download :=
  downloadUnder T fs missionsDir rel [".miz".toList]

/-- `tacview_download`. -/
def tacviewDownload (T : LowerCase) (fs : Fs fold FileData) (tacviewDir : Option Place)
    (rel : List Char) : Except DownloadError Download :=
  match tacviewDir with
  | none => .error (.notConfigured "TACVIEW_DIR is not configured")
  | some root => downloadUnder T fs root rel [".acmi".toList]

/-! ## 2. The text of a request -/

/-- Parts that are all names. -/
theorem eq_of_map_component {parts names : List Name}
    (h : parts.map component = names.map Component.normal) :
    ['.', '.'] ∉ parts ∧ names = parts := by
  induction parts generalizing names with
  | nil =>
    obtain rfl : names = [] := by simpa using h.symm
    exact ⟨by simp, rfl⟩
  | cons part parts ih =>
    cases names with
    | nil => simp at h
    | cons name names =>
      obtain ⟨hpart, hrest⟩ := List.cons.inj h
      obtain ⟨hdots, rfl⟩ := ih hrest
      by_cases hpartdots : part = ['.', '.']
      · rw [component, if_pos hpartdots] at hpart
        cases hpart
      · rw [component, if_neg hpartdots] at hpart
        cases hpart
        exact ⟨by simp [hdots, Ne.symm hpartdots], rfl⟩

/-- A path begins with a name if its first component is one. -/
theorem eq_of_start {implicitRoot : Bool} {p : List Char} {cs : List Component} {names : List Name}
    (h : start [] implicitRoot p ++ cs = names.map Component.normal) :
    implicitRoot = false ∧ hasRoot p = false ∧ leadingDot p = false := by
  have hhead (c : Component) (hc : ∀ name, c ≠ .normal name) (rest : List Component) :
      [c] ++ rest ≠ names.map Component.normal := by
    intro heq
    obtain ⟨name, -, hname⟩ := List.mem_map.mp (heq ▸ List.mem_cons_self : c ∈ names.map .normal)
    exact hc name hname.symm
  rw [start] at h
  split at h
  · exact absurd h (hhead .rootDir (by simp) cs)
  · rename_i hroot
    split at h
    · exact absurd h (hhead .curDir (by simp) cs)
    · rename_i hdot
      have hdot' : leadingDot p = false := Bool.eq_false_iff.mpr fun htrue => hdot ⟨rfl, htrue⟩
      simpa [hdot'] using hroot

/-- Components that are all names. -/
theorem normalNames_components {p : List Char} {names : List Name} :
    normalNames (components p) = some names ↔
      (splitPrefix p).1 = [] ∧ hasRoot p = false ∧ leadingDot p = false ∧
        ['.', '.'] ∉ nameParts p ∧ names = nameParts p := by
  have hrest (hbefore : (splitPrefix p).1 = []) : (splitPrefix p).2 = p := by
    simpa [hbefore] using splitPrefix_append p
  constructor
  · intro h
    have heq := eq_of_normalNames h
    rw [components] at heq
    by_cases hbefore : (splitPrefix p).1 = []
    · rw [if_pos hbefore, hrest hbefore, List.nil_append, hbefore] at heq
      obtain ⟨-, hroot, hdot⟩ := eq_of_start heq
      have hstart : start [] (decide (([] : List Char) ≠ []) && !hasDrive p) p = [] := by
        rw [start]
        simp [hroot, hdot]
      rw [hstart, List.nil_append] at heq
      exact ⟨hbefore, hroot, hdot, eq_of_map_component heq⟩
    · rw [if_neg hbefore, List.append_assoc] at heq
      cases names <;> simp at heq
  · rintro ⟨hbefore, hroot, hdot, hdots, rfl⟩
    have hmap : (nameParts p).map component = (nameParts p).map Component.normal := by
      refine List.map_congr_left fun part hpart => if_neg ?_
      rintro rfl
      exact hdots hpart
    have hcomponents : components p = (nameParts p).map Component.normal := by
      rw [components, if_pos hbefore, hrest hbefore, start]
      simp [hbefore, hroot, hdot, hmap]
    rw [hcomponents, normalNames_map]

/-- A text that begins with a name has one. -/
theorem nameParts_ne_nil {p : List Char} (hne : p ≠ []) (hroot : hasRoot p = false)
    (hdot : leadingDot p = false) : nameParts p ≠ [] := by
  have hp : p.takeWhile inName ++ p.dropWhile inName = p := List.takeWhile_append_dropWhile
  have hinside : ∀ c ∈ p.takeWhile inName, inName c = true := fun c hc => List.mem_takeWhile_imp hc
  have hend := atEnd_dropWhile p
  generalize p.takeWhile inName = name at hp hinside
  generalize p.dropWhile inName = rest at hp hend
  subst hp
  have hname : name ≠ [] := by
    rintro rfl
    cases rest with
    | nil => exact hne rfl
    | cons c rest =>
      have hc : isSep c = true := by simpa [atEnd] using hend
      simp [hasRoot, hc] at hroot
  have hnamedot : name ≠ ['.'] := by
    rintro rfl
    simp [leadingDot, hend] at hdot
  have hparts := nameParts_name hname hnamedot hinside
  cases rest with
  | nil => simp [hparts]
  | cons c rest =>
    have hc : isSep c = true := by simpa [atEnd] using hend
    simp [nameParts_append_sep name hc, hparts]

/-- The texts that ask for names. -/
theorem requestedNames_eq_ok {names : List Name} :
    requestedNames rel = .ok names ↔
      trim rel ≠ [] ∧ (splitPrefix (normalised (trim rel))).1 = [] ∧
        hasRoot (normalised (trim rel)) = false ∧ leadingDot (normalised (trim rel)) = false ∧
        ['.', '.'] ∉ nameParts (normalised (trim rel)) ∧
        names = nameParts (normalised (trim rel)) := by
  rw [← normalNames_components]
  simp only [requestedNames]
  split
  · simp_all
  · split
    · rename_i hsome
      simp [*]
    · rename_i hnone
      simp [hnone]

/-- A request asks for at least one name. -/
theorem ne_nil_of_requestedNames {names : List Name} (h : requestedNames rel = .ok names) :
    names ≠ [] := by
  obtain ⟨hne, -, hroot, hdot, -, rfl⟩ := requestedNames_eq_ok.mp h
  exact nameParts_ne_nil (by simpa [normalised] using hne) hroot hdot

/-! ## 3. What is sent -/

theorem servable_eq_ok {c p place : Place} :
    servable T fs c p allowed = .ok place ↔
      place = p ∧ c <+: p ∧ (∃ data, lookup fs p = some (.file data)) ∧
        hasAllowedExtension T p allowed = true := by
  rw [servable]
  by_cases hin : c <+: p
  · rw [if_neg (by simpa using hin)]
    split
    · rename_i data hdata
      by_cases hext : hasAllowedExtension T p allowed = true
      · rw [if_pos hext]
        constructor
        · intro h
          cases h
          exact ⟨rfl, hin, ⟨data, hdata⟩, hext⟩
        · rintro ⟨rfl, -⟩
          rfl
      · rw [if_neg hext]
        simp [hext]
    · rename_i hother
      constructor
      · intro h
        cases h
      · rintro ⟨-, -, ⟨data, hdata⟩, -⟩
        exact absurd hdata (hother data)
  · have hout : c.isPrefixOf p = false :=
      Bool.eq_false_iff.mpr fun h => hin (List.isPrefixOf_iff_prefix.mp h)
    rw [if_pos (by simp [hout])]
    simp [hin]

theorem servable_error {c p : Place} {e : DownloadError} (h : servable T fs c p allowed = .error e) :
    e = .notFound := by
  rw [servable] at h
  split at h
  · cases h; rfl
  · split at h
    · split at h <;> cases h
      rfl
    · cases h; rfl

/-- When a file is found. -/
theorem resolveUnder_eq_ok {place : Place} :
    resolveUnder T fs root rel allowed = .ok place ↔
      ∃ names c, requestedNames rel = .ok names ∧ canonicalize fs root = some c ∧
        canonicalize fs (c ++ names) = some place ∧ servable T fs c place allowed = .ok place := by
  rw [resolveUnder]
  split
  · rename_i e he
    simp [he]
  · rename_i names hnames
    split
    · rename_i hroot
      simp [hroot]
    · rename_i c hroot
      split
      · rename_i hpath
        simp_all
      · rename_i p hpath
        constructor
        · intro h
          obtain ⟨rfl, -⟩ := servable_eq_ok.mp h
          exact ⟨names, c, hnames, hroot, hpath, h⟩
        · rintro ⟨names', c', hnames', hroot', hpath', h⟩
          cases hnames.symm.trans hnames'
          cases hroot.symm.trans hroot'
          cases hpath.symm.trans hpath'
          exact h

/-- How a text is refused: the same way wherever it is refused. -/
def refusal (rel : List Char) : DownloadError :=
  match requestedNames rel with
  | .error e => e
  | .ok _ => .notFound

theorem resolveUnder_error {e : DownloadError} (h : resolveUnder T fs root rel allowed = .error e) :
    e = refusal rel := by
  rw [resolveUnder] at h
  rw [refusal]
  cases hnames : requestedNames rel with
  | error e' =>
    simp only [hnames] at h
    cases h
    rfl
  | ok names =>
    simp only [hnames] at h
    split at h
    · cases h; rfl
    · split at h
      · cases h; rfl
      · exact servable_error h

/-- What is found lies under the root and is a file. -/
theorem resolveUnder_under {place : Place} (h : resolveUnder T fs root rel allowed = .ok place) :
    ∃ c rest data, canonicalize fs root = some c ∧ place = c ++ rest ∧ rest ≠ [] ∧
      fs.get place = some (.file data) ∧ hasAllowedExtension T place allowed = true := by
  obtain ⟨names, c, hnames, hroot, hpath, hservable⟩ := resolveUnder_eq_ok.mp h
  obtain ⟨-, ⟨rest, rfl⟩, ⟨data, hdata⟩, hext⟩ := servable_eq_ok.mp hservable
  have hfile : fs.get (c ++ rest) = some (.file data) := by
    rwa [lookup, canonicalize_idem hpath, Option.bind_some] at hdata
  refine ⟨c, rest, data, hroot, rfl, ?_, hfile, hext⟩
  rintro rfl
  -- a name is looked up in the root, so that the root is no file
  obtain ⟨node, hnode, hlink⟩ := get_canonicalize hroot
  rw [canonicalize_append hnode hlink] at hpath
  obtain ⟨name, names, rfl⟩ := List.exists_cons_of_ne_nil (ne_nil_of_requestedNames hnames)
  rw [List.append_nil] at hfile
  rw [follow, hfile] at hpath
  cases hpath

/-- **Downloads stay under their root.**  What is sent is a regular file under what the root means,
whose place holds no link and whose name has an allowed extension; a refusal is the one that the
text of the request determines, whatever is on the disk. -/
theorem downloadUnder_contained (T : LowerCase) (fs : Fs fold FileData) (root : Place)
    (rel : List Char) (allowed : List (List Char)) :
    (∀ sent, downloadUnder T fs root rel allowed = .ok sent →
      ∃ c rest name data, canonicalize fs root = some c ∧
        fs.get (c ++ rest ++ [name]) = some (.file data) ∧
        hasAllowedExtension T (c ++ rest ++ [name]) allowed = true ∧
        sent = ⟨data.bytes.length, contentDisposition name, data.bytes⟩) ∧
    (∀ e, downloadUnder T fs root rel allowed = .error e → e = refusal rel) := by
  rw [downloadUnder]
  cases hresolve : resolveUnder T fs root rel allowed with
  | error e =>
    refine ⟨by simp, ?_⟩
    rintro e' ⟨⟩
    exact resolveUnder_error hresolve
  | ok place =>
    obtain ⟨c, rest, data, hroot, rfl, hne, hfile, hext⟩ := resolveUnder_under hresolve
    obtain ⟨init, name, rfl⟩ := (List.eq_nil_or_concat' rest).resolve_left hne
    have hsent : streamDownload fs (c ++ (init ++ [name])) =
        .ok ⟨data.bytes.length, contentDisposition name, data.bytes⟩ := by
      rw [streamDownload, lookup, canonicalize_of_get hfile rfl, Option.bind_some, hfile,
        ← List.append_assoc, List.getLast?_concat]
      rfl
    rw [← List.append_assoc] at hfile hext
    simp only [hsent]
    refine ⟨?_, by simp⟩
    rintro sent ⟨⟩
    exact ⟨c, init, name, data, hroot, hfile, hext, rfl⟩

end DcsDashboard.Downloads
