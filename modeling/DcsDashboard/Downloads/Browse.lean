/-
# Listings and the downloads they offer

`mission_browse` (`routes/system.rs`) lists the missions below `Missions/`, `tacview_browse`
(`routes/downloads.rs`) the newest recordings below `TACVIEW_DIR`.  The pages ask for a download by
the path they were given (`handleDownload` of `mission/page.tsx` and `tacview/page.tsx`).

Every mission that is neither hidden nor an upload, and no deeper than three directories, is listed
once; one whose path has `Missions/Uploads` in it is not, wherever that stands
(`missionBrowse_exact`).  The recordings shown are the newest of all there are
(`tacviewBrowse_newest`).  What a listing shows can be downloaded as it was listed, unless its path
begins with white space, or, on the mission page, has another `Missions` directory inside
(`tacviewBrowse_downloads`, `missionBrowse_downloads`).
-/
import DcsDashboard.Downloads.ResolveUnder
import DcsDashboard.Downloads.TreeListing
import DcsDashboard.Foothold.ConfigHelp

namespace DcsDashboard.Downloads

open Lib FileTree WindowsPath Lua

variable {fold : Char → Char}

/-! ## 1. The listings -/

/-- A path below the root, with `/` as its separator. -/
def relText (names : List Name) : List Char := normalised (['\\'].intercalate names)

/-- The directories `mission_browse` passes over, and the names it wants. -/
def missionFilter : FileFilter where
  skips name := name.head? = some '.' || name = "Uploads".toList
  wants name := ".miz".toList.isSuffixOf name

/-- The directories `tacview_browse` passes over, and the names it wants. -/
def tacviewFilter (T : LowerCase) : FileFilter where
  skips name := name.head? = some '.'
  wants name := ".acmi".toList.isSuffixOf (T.toLowercase name)

/-- What `retain` keeps. -/
def keepsPath (path : List Char) : Bool :=
  !decide ("Missions\\Uploads".toList <:+: path) && !decide ("Missions/Uploads".toList <:+: path)

/-- `mission_browse`. -/
def missionBrowse (fs : Fs fold FileData) (denied : Place → Bool) (missionsDir : Place) :
    List (List Char) :=
  ((treeFiles missionFilter fs denied missionsDir).map fun f => relText f.names).filter keepsPath

structure TacviewFile where
  path : List Char
  name : List Char
  size : Nat
  modifiedMs : Option Nat
  deriving DecidableEq

def tacviewFile (f : Found FileData) : TacviewFile where
  path := relText f.names
  name := f.names.getLast?.getD []
  size := f.data.size
  modifiedMs := f.data.modifiedMs

/-- When a file was modified; before everything else if that is not known. -/
def TacviewFile.age (file : TacviewFile) : Nat := file.modifiedMs.elim 0 (· + 1)

/-- The order of the recordings: newest first, then by name. -/
def newestFirst (a b : TacviewFile) : Bool :=
  decide (b.age < a.age) || (decide (a.age = b.age) && textLe a.name b.name)

/-- `TACVIEW_LIST_LIMIT`. -/
def tacviewListLimit : Nat := 200

inductive TacviewAnswer
  | notConfigured
  | cannotRead (root : Place)
  | listed (files : List TacviewFile) (total : Nat)

/-- `tacview_browse`. -/
def tacviewBrowse (T : LowerCase) (fs : Fs fold FileData) (denied : Place → Bool)
    (tacviewDir : Option Place) : TacviewAnswer :=
  match tacviewDir with
  | none => .notConfigured
  | some root =>
    if (readDir fs denied root).isNone then .cannotRead root
    else
      let files := ((treeFiles (tacviewFilter T) fs denied root).map tacviewFile).mergeSort newestFirst
      .listed (files.take tacviewListLimit) files.length

/-! ## 2. What the pages ask for -/

/-- What `encodeURIComponent` keeps. -/
def isUriComponentChar (c : Char) : Bool :=
  c.isAlphanum || c ∈ ['-', '_', '.', '!', '~', '*', '\'', '(', ')']

/-- `encodeURIComponent`. -/
def encodeURIComponent (s : List Char) : List Char :=
  Percent.encode isUriComponentChar (utf8Bytes s)

/-- A value of a query as the server reads it. -/
def queryValue (s : List Char) : Option (List Char) := do
  let bytes ← Percent.decode (s.map fun c => if c = '+' then ' ' else c)
  let text ← toStr bytes
  return text.toList

/-- The characters `.` does not stand for. -/
def isLineTerminator (c : Char) : Bool := c ∈ ['\n', '\r', '\u2028', '\u2029']

/-- What comes after the first `/Missions/` or `/missions/`. -/
def afterMissions : List Char → Option (List Char)
  | [] => none
  | c :: s =>
    if "/Missions/".toList <+: c :: s ∨ "/missions/".toList <+: c :: s then some ((c :: s).drop 10)
    else if isLineTerminator c then none
    else afterMissions s

/-- The `relPath` of `handleDownload`. -/
def relPath (rawPath : List Char) : List Char :=
  (afterMissions (normalised rawPath)).getD (normalised rawPath)

/-! ## 3. Paths of names -/

theorem normalised_eq_self {s : List Char} (h : '\\' ∉ s) : normalised s = s := by
  refine (List.map_congr_left fun c hc => if_neg ?_).trans (List.map_id s)
  rintro rfl
  exact h hc

theorem normalised_append (s t : List Char) : normalised (s ++ t) = normalised s ++ normalised t :=
  List.map_append

theorem backslash_notMem {name : Name} (h : ValidName name) : '\\' ∉ name :=
  fun hc => (h.inside _ hc).2.1 rfl

/-- The names of a path with `/` between them. -/
theorem relText_eq {names : List Name} (h : ∀ name ∈ names, ValidName name) :
    relText names = ['/'].intercalate names := by
  unfold relText
  induction names with
  | nil => rfl
  | cons name names ih =>
    have hname := normalised_eq_self (backslash_notMem (h name (by simp)))
    cases names with
    | nil => simpa using hname
    | cons next names =>
      have hrest := ih fun n hn => h n (List.mem_cons_of_mem _ hn)
      rw [List.intercalate_cons_cons, List.intercalate_cons_cons, normalised_append,
        normalised_append, hname, hrest]
      rfl

theorem backslash_notMem_relText {names : List Name} (h : ∀ name ∈ names, ValidName name) :
    '\\' ∉ relText names := by
  rw [relText_eq h]
  intro hmem
  rcases mem_intercalate hmem with heq | ⟨name, hname, hc⟩
  · exact absurd heq (by decide)
  · exact backslash_notMem (h name hname) hc

theorem relText_inj {names names' : List Name} (h : ∀ name ∈ names, ValidName name)
    (h' : ∀ name ∈ names', ValidName name) (heq : relText names = relText names') :
    names = names' := by
  rw [relText_eq h, relText_eq h'] at heq
  have hcomponents := congrArg (fun p => normalNames (components p)) heq
  simpa [components_intercalate h, components_intercalate h', normalNames_map] using hcomponents

variable {fs : Fs fold FileData} {denied : Place → Bool} {root : Place} {filter : FileFilter}
  {f : Found FileData}

theorem Listed.valid (h : Listed filter fs denied root f) : ∀ name ∈ f.names, ValidName name := by
  obtain ⟨c, dir, name, node, -, -, -, hnames, -, hnode, -⟩ := h
  intro n hn
  refine Fs.valid_of_get hnode n ?_
  rw [hnames] at hn
  rw [List.append_assoc]
  exact List.mem_append_right c hn

/-! ## 4. Missions -/

theorem backslash_mem : '\\' ∈ "Missions\\Uploads".toList := by decide

/-- A path without `\` is kept unless it has `Missions/Uploads` in it. -/
theorem keepsPath_iff {path : List Char} (h : '\\' ∉ path) :
    keepsPath path = true ↔ ¬ "Missions/Uploads".toList <:+: path := by
  have hback : ¬ "Missions\\Uploads".toList <:+: path :=
    fun hinner => h (hinner.subset backslash_mem)
  unfold keepsPath
  rw [Bool.and_eq_true, Bool.not_eq_true', Bool.not_eq_true', decide_eq_false_iff_not,
    decide_eq_false_iff_not]
  exact ⟨And.right, fun h' => ⟨hback, h'⟩⟩

theorem mem_missionBrowse {path : List Char} :
    path ∈ missionBrowse fs denied root ↔
      ∃ f, Listed missionFilter fs denied root f ∧ path = relText f.names ∧
        ¬ "Missions/Uploads".toList <:+: path := by
  rw [missionBrowse, List.mem_filter, List.mem_map]
  constructor
  · rintro ⟨⟨f, hf, hpath⟩, hkeeps⟩
    have hlisted := mem_treeFiles.mp hf
    exact ⟨f, hlisted, hpath.symm,
      (keepsPath_iff (hpath ▸ backslash_notMem_relText hlisted.valid)).mp hkeeps⟩
  · rintro ⟨f, hf, hpath, huploads⟩
    exact ⟨⟨f, mem_treeFiles.mpr hf, hpath.symm⟩,
      (keepsPath_iff (hpath ▸ backslash_notMem_relText hf.valid)).mpr huploads⟩

/-- **Every mission is listed once**: those below directories that are neither hidden nor `Uploads`,
at most three deep, and without `Missions/Uploads` in their path. -/
theorem missionBrowse_exact (fs : Fs fold FileData) (denied : Place → Bool) (missionsDir : Place) :
    (missionBrowse fs denied missionsDir).Nodup ∧
      ∀ path, path ∈ missionBrowse fs denied missionsDir ↔
        ∃ f, Listed missionFilter fs denied missionsDir f ∧ path = ['/'].intercalate f.names ∧
          ¬ "Missions/Uploads".toList <:+: path := by
  constructor
  · refine List.Nodup.filter _ ?_
    have hnodup := nodup_treeFiles missionFilter fs denied missionsDir
    refine (List.Nodup.of_map _ hnodup).map_on ?_
    intro f hf g hg heq
    have hf := mem_treeFiles.mp hf
    have hg := mem_treeFiles.mp hg
    exact hf.data_eq hg (relText_inj hf.valid hg.valid heq)
  · intro path
    rw [mem_missionBrowse]
    refine exists_congr fun f => and_congr_right fun hf => ?_
    rw [relText_eq hf.valid]

/-! ## 5. The newest recordings -/

theorem newestFirst_total (a b : TacviewFile) : (newestFirst a b || newestFirst b a) = true := by
  have hname := textLe_total a.name b.name
  simp only [newestFirst, Bool.or_eq_true, Bool.and_eq_true, decide_eq_true_eq] at hname ⊢
  rcases Nat.lt_trichotomy a.age b.age with h | h | h
  · exact .inr (.inl h)
  · exact hname.imp (fun hab => .inr ⟨h, hab⟩) fun hba => .inr ⟨h.symm, hba⟩
  · exact .inl (.inl h)

theorem newestFirst_trans (a b c : TacviewFile) (hab : newestFirst a b = true)
    (hbc : newestFirst b c = true) : newestFirst a c = true := by
  simp only [newestFirst, Bool.or_eq_true, Bool.and_eq_true, decide_eq_true_eq] at hab hbc ⊢
  rcases hab with hlt | ⟨heq, hab⟩
  · exact .inl (by omega)
  · rcases hbc with hlt' | ⟨heq', hbc⟩
    · exact .inl (by omega)
    · exact .inr ⟨heq.trans heq', textLe_trans hab hbc⟩

theorem age_le_of_newestFirst {a b : TacviewFile} (h : newestFirst a b = true) : b.age ≤ a.age := by
  simp only [newestFirst, Bool.or_eq_true, Bool.and_eq_true, decide_eq_true_eq] at h
  omega

/-- The recordings there are, with what the listing says of them. -/
def recordings (T : LowerCase) (fs : Fs fold FileData) (denied : Place → Bool) (root : Place) :
    List TacviewFile :=
  (treeFiles (tacviewFilter T) fs denied root).map tacviewFile

theorem nodup_recordings (T : LowerCase) (fs : Fs fold FileData) (denied : Place → Bool)
    (root : Place) : (recordings T fs denied root).Nodup := by
  have hnodup := nodup_treeFiles (tacviewFilter T) fs denied root
  refine (List.Nodup.of_map _ hnodup).map_on ?_
  intro f hf g hg heq
  have hf := mem_treeFiles.mp hf
  have hg := mem_treeFiles.mp hg
  exact hf.data_eq hg (relText_inj hf.valid hg.valid (congrArg TacviewFile.path heq))

/-- **The newest recordings are shown.**  Of all recordings, each listed once, the answer has the
first in the order of the listing, and says how many there are. -/
theorem tacviewBrowse_newest (T : LowerCase) (fs : Fs fold FileData) (denied : Place → Bool)
    (root : Place) (files : List TacviewFile) (total : Nat)
    (h : tacviewBrowse T fs denied (some root) = .listed files total) :
    ∃ all rest : List TacviewFile, all.Nodup ∧
      (∀ file, file ∈ all ↔
        ∃ f, Listed (tacviewFilter T) fs denied root f ∧ file = tacviewFile f) ∧
      total = all.length ∧ files.length = min tacviewListLimit total ∧ (files ++ rest).Perm all ∧
      files.Pairwise (fun a b => newestFirst a b = true) ∧
      ∀ shown ∈ files, ∀ left ∈ rest, newestFirst shown left = true := by
  simp only [tacviewBrowse] at h
  split at h
  · cases h
  · obtain ⟨rfl, rfl⟩ := TacviewAnswer.listed.inj h
    set sorted := ((treeFiles (tacviewFilter T) fs denied root).map tacviewFile).mergeSort newestFirst
      with hsorted
    have hperm : sorted.Perm (recordings T fs denied root) := List.mergeSort_perm _ _
    have horder : sorted.Pairwise fun a b => newestFirst a b = true :=
      List.pairwise_mergeSort newestFirst_trans newestFirst_total _
    have hsplit := List.take_append_drop tacviewListLimit sorted
    rw [← hsplit, List.pairwise_append] at horder
    refine ⟨recordings T fs denied root, sorted.drop tacviewListLimit,
      nodup_recordings T fs denied root,
      fun file => ?_, hperm.length_eq, List.length_take, by rwa [hsplit], horder.1, horder.2.2⟩
    simp only [recordings, List.mem_map, mem_treeFiles]
    exact exists_congr fun f => and_congr_right fun _ => eq_comm

/-! ## 6. Extensions in lower case -/

/-- What comes last is put in lower case last. -/
theorem exists_toLowercaseFrom_append (T : LowerCase) (before s t : List Char) :
    ∃ u, T.toLowercaseFrom before (s ++ t) = u ++ T.toLowercaseFrom (before ++ s) t := by
  induction s generalizing before with
  | nil => exact ⟨[], by simp⟩
  | cons c s ih =>
    obtain ⟨u, hu⟩ := ih (before ++ [c])
    refine ⟨T.formAt before c (s ++ t) ++ u, ?_⟩
    rw [List.cons_append, LowerCase.toLowercaseFrom, hu]
    simp

/-- A text in lower-case ASCII stays as it is. -/
theorem toLowercaseFrom_ascii (T : LowerCase) (before : List Char) {t : List Char}
    (h : ∀ c ∈ t, c.toNat < 128 ∧ c.toLower = c) : T.toLowercaseFrom before t = t := by
  induction t generalizing before with
  | nil => rfl
  | cons c t ih =>
    obtain ⟨hc, hlower⟩ := h c (by simp)
    rw [LowerCase.toLowercaseFrom, LowerCase.formAt_ascii hc, hlower,
      ih _ fun d hd => h d (List.mem_cons_of_mem _ hd)]
    rfl

/-- An extension in lower-case ASCII is one in lower case. -/
theorem isSuffixOf_toLowercase (T : LowerCase) {ext name : List Char}
    (hext : ∀ c ∈ ext, c.toNat < 128 ∧ c.toLower = c) (h : ext.isSuffixOf name = true) :
    (T.toLowercase ext).isSuffixOf (T.toLowercase name) = true := by
  obtain ⟨s, rfl⟩ := List.isSuffixOf_iff_suffix.mp h
  obtain ⟨u, hu⟩ := exists_toLowercaseFrom_append T [] s ext
  rw [List.isSuffixOf_iff_suffix, LowerCase.toLowercase, LowerCase.toLowercase, hu,
    toLowercaseFrom_ascii T _ hext, toLowercaseFrom_ascii T _ hext]
  exact List.suffix_append u ext

/-- White space in lower case is no letter. -/
theorem formAt_whitespace (T : LowerCase) {c : Char} (hc : isWhitespace c = true)
    (before after : List Char) : (T.formAt before c after).getLast? ≠ some 'i' := by
  by_cases hascii : c.toNat < 128
  · have hall : ∀ n < 128, isWhitespace (Char.ofNat n) = true → (Char.ofNat n).toLower ≠ 'i' := by
      decide
    have hne := hall c.toNat hascii (by rwa [Char.ofNat_toNat])
    rw [Char.ofNat_toNat] at hne
    rw [LowerCase.formAt_ascii hascii]
    simpa using hne
  · rcases LowerCase.formAt_beyond (T := T) (Nat.le_of_not_lt hascii) before after with
      hform | hform | ⟨-, hform⟩
    · rw [hform]
      decide
    · rw [hform]
      decide
    · intro hlast
      have hi := hform 'i' (List.mem_of_getLast? hlast)
      exact absurd hi (by decide)

/-- A name that ends with `i` in lower case does not end with white space. -/
theorem last_of_toLowercase (T : LowerCase) {init : List Char} {c : Char}
    (h : (T.toLowercase (init ++ [c])).getLast? = some 'i') : isWhitespace c = false := by
  by_contra hc
  obtain ⟨u, hu⟩ := exists_toLowercaseFrom_append T [] init [c]
  have hform : T.toLowercase (init ++ [c]) = u ++ T.formAt init c [] := by
    rw [LowerCase.toLowercase, hu]
    simp [LowerCase.toLowercaseFrom]
  have hne : T.formAt init c [] ≠ [] := by
    by_cases hascii : c.toNat < 128
    · simp [LowerCase.formAt_ascii hascii]
    · rcases LowerCase.formAt_beyond (T := T) (Nat.le_of_not_lt hascii) init [] with
        hform | hform | ⟨hne, -⟩
      · simp [hform]
      · simp [hform]
      · exact hne
  rw [hform, getLast?_behind hne] at h
  exact formAt_whitespace T (by simpa using hc) init [] h

/-! ## 7. Downloads of what is listed -/

/-- The file is no link. -/
def IsRegular (fs : Fs fold FileData) (root : Place) (f : Found FileData) : Prop :=
  ∃ c, canonicalize fs root = some c ∧ fs.get (c ++ f.names) = some (.file f.data)

/-- What a download of a file sends. -/
def sentFile (f : Found FileData) : Download :=
  ⟨f.data.size, contentDisposition (f.names.getLast?.getD []), f.data.bytes⟩

/-- A path of names is read as these names. -/
theorem requestedNames_relText {names : List Name} (hvalid : ∀ name ∈ names, ValidName name)
    (hne : names ≠ []) (hhead : ∀ c, (relText names).head? = some c → isWhitespace c = false)
    (hlast : ∀ c, (relText names).getLast? = some c → isWhitespace c = false) :
    requestedNames (relText names) = .ok names := by
  have hback := backslash_notMem_relText hvalid
  have hnil : relText names ≠ [] := by
    intro heq
    exact hne (relText_inj hvalid (by simp) heq)
  simp only [requestedNames, trim_eq_self hhead hlast, normalised_eq_self hback, if_neg hnil]
  rw [relText_eq hvalid, components_intercalate hvalid, normalNames_map]

/-- The last character of a path is that of its last name. -/
theorem getLast?_relText {dir : List Name} {name : Name}
    (hvalid : ∀ n ∈ dir ++ [name], ValidName n) :
    (relText (dir ++ [name])).getLast? = name.getLast? := by
  rw [relText_eq hvalid]
  have hne : name ≠ [] := (hvalid name (by simp)).ne_nil
  induction dir with
  | nil => simp
  | cons n dir ih =>
    have hrest := ih fun m hm => hvalid m (List.mem_cons_of_mem _ hm)
    obtain ⟨next, rest, hdir⟩ : ∃ next rest, dir ++ [name] = next :: rest :=
      List.exists_cons_of_ne_nil (by simp)
    have htail : ['/'].intercalate (next :: rest) ≠ [] := by
      intro heq
      rw [← hdir] at heq
      rw [heq] at hrest
      exact hne (List.getLast?_eq_none_iff.mp hrest.symm)
    rw [List.cons_append, hdir, List.intercalate_cons_cons, getLast?_behind htail, ← hdir, hrest]

/-- **A listed file is sent** when it is asked for by its path. -/
theorem downloadUnder_listed {T : LowerCase} {allowed : List (List Char)}
    (h : Listed filter fs denied root f) (hregular : IsRegular fs root f)
    (hext : ∀ c, hasAllowedExtension T (c ++ f.names) allowed = true)
    (hhead : ∀ c, (relText f.names).head? = some c → isWhitespace c = false)
    (hlast : ∀ c, (relText f.names).getLast? = some c → isWhitespace c = false) :
    downloadUnder T fs root (relText f.names) allowed = .ok (sentFile f) := by
  have hvalid := h.valid
  obtain ⟨-, dir, name, -, -, -, -, hnames, -⟩ := h
  obtain ⟨c, hroot, hfile⟩ := hregular
  have hne : f.names ≠ [] := by simp [hnames]
  have hlookup : lookup fs (c ++ f.names) = some (.file f.data) := by
    rw [lookup, canonicalize_of_get hfile rfl, Option.bind_some, hfile]
  have hservable : servable T fs c (c ++ f.names) allowed = .ok (c ++ f.names) :=
    servable_eq_ok.mpr ⟨rfl, List.prefix_append c _, ⟨f.data, hlookup⟩, hext c⟩
  have hresolve : resolveUnder T fs root (relText f.names) allowed = .ok (c ++ f.names) :=
    resolveUnder_eq_ok.mpr ⟨f.names, c, requestedNames_relText hvalid hne hhead hlast, hroot,
      canonicalize_of_get hfile rfl, hservable⟩
  have hname : (c ++ f.names).getLast? = f.names.getLast? := by simp [hnames]
  rw [downloadUnder, hresolve]
  simp only [streamDownload, hlookup, hname, sentFile]
  rw [hnames, List.getLast?_concat]
  rfl

theorem isUriComponentChar_spec {c : Char} (h : isUriComponentChar c = true) :
    c ≠ '%' ∧ c ≠ '+' ∧ c.toNat < 128 := by
  rw [isUriComponentChar, Bool.or_eq_true] at h
  rcases h with h | h
  · have hprintable := isAlphanum_printable h
    refine ⟨?_, ?_, by omega⟩
    · rintro rfl
      exact absurd h (by decide)
    · rintro rfl
      exact absurd h (by decide)
  · have hall : ∀ d ∈ ['-', '_', '.', '!', '~', '*', '\'', '(', ')'],
        d ≠ '%' ∧ d ≠ '+' ∧ d.toNat < 128 := by simp
    exact hall c (by simpa using h)

theorem plus_notMem_encode (bytes : List UInt8) : '+' ∉ Percent.encode isUriComponentChar bytes := by
  intro hmem
  obtain ⟨b, -, hb⟩ := List.mem_flatMap.mp hmem
  have hlt : b.toNat < 256 := b.toNat_lt
  have hdigit {n : Nat} (hn : n < 16) : '+' ≠ Percent.upperHex n := by
    have hall : ∀ n < 16, '+' ≠ Percent.upperHex n := by decide
    exact hall n hn
  unfold Percent.encodeByte at hb
  split at hb
  · rename_i hkept
    rw [← List.mem_singleton.mp hb] at hkept
    exact (isUriComponentChar_spec hkept).2.1 rfl
  · simp only [List.mem_cons, List.not_mem_nil, or_false] at hb
    rcases hb with hb | hb | hb
    · exact absurd hb (by decide)
    · exact hdigit (by omega) hb
    · exact hdigit (by omega) hb

/-- The server reads what the page wrote. -/
theorem queryValue_encode (s : List Char) : queryValue (encodeURIComponent s) = some s := by
  have hplus : (encodeURIComponent s).map (fun c => if c = '+' then ' ' else c) =
      encodeURIComponent s := by
    refine (List.map_congr_left fun c hc => if_neg ?_).trans (List.map_id _)
    rintro rfl
    exact plus_notMem_encode _ hc
  have hdecode : Percent.decode (encodeURIComponent s) = some (utf8Bytes s) :=
    Percent.decode_encode (fun c hc =>
      ⟨(isUriComponentChar_spec hc).1, (isUriComponentChar_spec hc).2.2⟩) _
  simp only [queryValue, hplus, hdecode, Option.bind_eq_bind, Option.bind_some, toStr_utf8Bytes,
    Option.pure_def, String.toList_ofList]

/-- A `Missions` directory inside a path. -/
theorem infix_of_afterMissions {s : List Char} (h : afterMissions s ≠ none) :
    "/Missions/".toList <:+: s ∨ "/missions/".toList <:+: s := by
  induction s with
  | nil => exact absurd rfl h
  | cons c s ih =>
    rw [afterMissions] at h
    split at h
    · rename_i hhere
      exact hhere.imp List.IsPrefix.isInfix List.IsPrefix.isInfix
    · split at h
      · exact absurd rfl h
      · exact (ih h).imp (·.trans (List.suffix_cons c s).isInfix) (·.trans (List.suffix_cons c s).isInfix)

/-- What stands between two separators of a path is a directory inside it. -/
theorem mem_inner {names : List Name} (hvalid : ∀ name ∈ names, ValidName name) {dir : Name}
    (hdir : '/' ∉ dir) (h : '/' :: dir ++ ['/'] <:+: ['/'].intercalate names) :
    dir ∈ names.tail.dropLast := by
  obtain ⟨u, v, h⟩ := h
  have hslash : ∀ name ∈ names, '/' ∉ name :=
    fun name hname hc => ((hvalid name hname).inside _ hc).1 rfl
  have hne : names ≠ [] := by
    rintro rfl
    simp at h
  have hsplit := congrArg (List.splitOn '/') h
  rw [List.splitOn_intercalate '/' hslash hne] at hsplit
  have htext : u ++ ('/' :: dir ++ ['/']) ++ v = u ++ '/' :: (dir ++ '/' :: v) := by simp
  rw [htext, List.splitOn_append_cons_self, List.splitOn_append_cons_self_of_not_mem hdir] at hsplit
  obtain ⟨a, as, ha⟩ := List.exists_cons_of_ne_nil (List.splitOn_ne_nil '/' u)
  have hv := List.splitOn_ne_nil '/' v
  rw [← hsplit, ha, List.cons_append, List.tail_cons, List.dropLast_append_of_ne_nil (by simp),
    List.dropLast_cons_of_ne_nil hv]
  simp

/-- No directory inside a path is another `Missions`. -/
def NoMissionsInside (names : List Name) : Prop :=
  ∀ dir ∈ names.tail.dropLast, dir ≠ "Missions".toList ∧ dir ≠ "missions".toList

/-- The mission page asks for a path as it is. -/
theorem relPath_relText {names : List Name} (hvalid : ∀ name ∈ names, ValidName name)
    (hinside : NoMissionsInside names) : relPath (relText names) = relText names := by
  have hnone : afterMissions (relText names) = none := by
    by_contra h
    have hinner := infix_of_afterMissions h
    rw [relText_eq hvalid] at hinner
    rcases hinner with hinner | hinner
    · have hdir : '/' :: "Missions".toList ++ ['/'] <:+: ['/'].intercalate names := hinner
      exact (hinside _ (mem_inner hvalid (by decide) hdir)).1 rfl
    · have hdir : '/' :: "missions".toList ++ ['/'] <:+: ['/'].intercalate names := hinner
      exact (hinside _ (mem_inner hvalid (by decide) hdir)).2 rfl
  rw [relPath, normalised_eq_self (backslash_notMem_relText hvalid), hnone]
  rfl

/-- **A mission is downloaded** by the path it is listed under, from the request the page writes to
the bytes of the file. -/
theorem missionBrowse_downloads (T : LowerCase) (fs : Fs fold FileData) (denied : Place → Bool)
    (missionsDir : Place) (path : List Char) (h : path ∈ missionBrowse fs denied missionsDir) :
    ∃ f, Listed missionFilter fs denied missionsDir f ∧ path = relText f.names ∧
      (IsRegular fs missionsDir f → NoMissionsInside f.names →
        (∀ c, path.head? = some c → isWhitespace c = false) →
        (queryValue (encodeURIComponent (relPath path))).map (missionDownload T fs missionsDir) =
          some (.ok (sentFile f))) := by
  obtain ⟨hpath, -⟩ := List.mem_filter.mp h
  obtain ⟨f, hf, rfl⟩ := List.mem_map.mp hpath
  have hlisted := mem_treeFiles.mp hf
  refine ⟨f, hlisted, rfl, ?_⟩
  intro hregular hinside hhead
  have hvalid := hlisted.valid
  obtain ⟨-, dir, name, -, -, -, -, hnames, hwants, -⟩ := id hlisted
  have hmiz : ".miz".toList.isSuffixOf name = true := hwants
  have hlast : ∀ c, (relText f.names).getLast? = some c → isWhitespace c = false := by
    rw [hnames, getLast?_relText (hnames ▸ hvalid)]
    obtain ⟨s, rfl⟩ := List.isSuffixOf_iff_suffix.mp hmiz
    rw [getLast?_behind (by decide)]
    intro c hc
    obtain rfl : 'z' = c := by simpa using hc
    decide
  have hext (c : Place) : hasAllowedExtension T (c ++ f.names) [".miz".toList] = true := by
    rw [hnames, ← List.append_assoc, hasAllowedExtension, List.getLast?_concat]
    simpa using isSuffixOf_toLowercase T (by simp) hmiz
  rw [relPath_relText hvalid hinside, queryValue_encode, Option.map_some]
  exact congrArg some (downloadUnder_listed hlisted hregular hext hhead hlast)

/-- **A recording is downloaded** by the path it is listed under, with the size and the name that
the listing shows. -/
theorem tacviewBrowse_downloads (T : LowerCase) (fs : Fs fold FileData) (denied : Place → Bool)
    (root : Place) (files : List TacviewFile) (total : Nat)
    (h : tacviewBrowse T fs denied (some root) = .listed files total) (file : TacviewFile)
    (hfile : file ∈ files) :
    ∃ f, Listed (tacviewFilter T) fs denied root f ∧ file = tacviewFile f ∧
      (IsRegular fs root f → (∀ c, file.path.head? = some c → isWhitespace c = false) →
        (queryValue (encodeURIComponent file.path)).map (tacviewDownload T fs (some root)) =
          some (.ok ⟨file.size, contentDisposition file.name, f.data.bytes⟩)) := by
  simp only [tacviewBrowse] at h
  split at h
  · cases h
  · obtain ⟨rfl, -⟩ := TacviewAnswer.listed.inj h
    have hall := (List.mergeSort_perm _ _).subset (List.mem_of_mem_take hfile)
    obtain ⟨f, hf, rfl⟩ := List.mem_map.mp hall
    have hlisted := mem_treeFiles.mp hf
    refine ⟨f, hlisted, rfl, ?_⟩
    intro hregular hhead
    have hvalid := hlisted.valid
    obtain ⟨-, dir, name, -, -, -, -, hnames, hwants, -⟩ := id hlisted
    have hacmi : ".acmi".toList.isSuffixOf (T.toLowercase name) = true := hwants
    have hname : name ≠ [] := (hvalid name (by simp [hnames])).ne_nil
    have hlast : ∀ c, (relText f.names).getLast? = some c → isWhitespace c = false := by
      rw [hnames, getLast?_relText (hnames ▸ hvalid)]
      obtain ⟨init, d, rfl⟩ := (List.eq_nil_or_concat' name).resolve_left hname
      intro c hc
      obtain rfl : d = c := by simpa using hc
      obtain ⟨s, hs⟩ := List.isSuffixOf_iff_suffix.mp hacmi
      have hi : (T.toLowercase (init ++ [d])).getLast? = some 'i' := by
        rw [← hs, getLast?_behind (by decide)]
        rfl
      exact last_of_toLowercase T hi
    have hext (c : Place) : hasAllowedExtension T (c ++ f.names) [".acmi".toList] = true := by
      have hlower : T.toLowercase ".acmi".toList = ".acmi".toList :=
        toLowercaseFrom_ascii T [] (by simp)
      rw [hnames, ← List.append_assoc, hasAllowedExtension, List.getLast?_concat]
      simp only [List.any_cons, List.any_nil, Bool.or_false, hlower, hacmi]
    rw [queryValue_encode, Option.map_some]
    exact congrArg some (downloadUnder_listed hlisted hregular hext hhead hlast)

/-! ## 8. Examples -/

/-- A drive with one mission and one recording, each in a directory of its own. -/
def smallDrive : Fs id FileData where
  names := ⟨["Missions".toList, "Tacview".toList], by decide, by decide⟩
  child name :=
    if name = "Missions".toList then
      .dir ⟨["Night coop".toList], by decide, by decide⟩ fun _ =>
        .dir ⟨["Day #2 (100%).miz".toList], by decide, by decide⟩ fun _ => .file ⟨[80, 75], some 7⟩
    else .dir ⟨["May".toList], by decide, by decide⟩ fun _ =>
      .dir ⟨["Sortie 1+2.Acmi".toList], by decide, by decide⟩ fun _ => .file ⟨[70], none⟩

def coop : Found FileData :=
  ⟨["Night coop".toList, "Day #2 (100%).miz".toList], ⟨[80, 75], some 7⟩⟩

def sortie : Found FileData := ⟨["May".toList, "Sortie 1+2.Acmi".toList], ⟨[70], none⟩⟩

theorem coop_listed :
    Listed missionFilter smallDrive (fun _ => false) ["Missions".toList] coop :=
  ⟨["Missions".toList], ["Night coop".toList], "Day #2 (100%).miz".toList, .file coop.data, rfl,
    ⟨⟨_, _, rfl⟩, by decide, by simp⟩, by decide, rfl, by decide, rfl, rfl⟩

/-- What is below a root that has one file. -/
theorem sortie_files : treeFiles (tacviewFilter Foothold.plainLowerCase) smallDrive (fun _ => false)
    ["Tacview".toList] = [sortie] := by
  rw [treeFiles_eq]
  rfl

/-- The answer for the recording. -/
theorem tacviewBrowse_sortie :
    tacviewBrowse Foothold.plainLowerCase smallDrive (fun _ => false) (some ["Tacview".toList]) =
      .listed [tacviewFile sortie] 1 := by
  have hread : (readDir smallDrive (fun _ => false) ["Tacview".toList]).isNone = false := rfl
  have hsort : ([sortie].map tacviewFile).mergeSort newestFirst = [tacviewFile sortie] := by simp
  simp only [tacviewBrowse, hread, sortie_files, hsort]
  rfl

theorem missionBrowse_downloads_coop :
    encodeURIComponent (relPath "Night coop/Day #2 (100%).miz".toList) =
        "Night%20coop%2FDay%20%232%20(100%25).miz".toList ∧
      (queryValue (encodeURIComponent (relPath "Night coop/Day #2 (100%).miz".toList))).map
          (missionDownload Foothold.plainLowerCase smallDrive ["Missions".toList]) =
        some (.ok ⟨2, contentDisposition "Day #2 (100%).miz".toList, [80, 75]⟩) := by
  have hmem : "Night coop/Day #2 (100%).miz".toList ∈
      missionBrowse smallDrive (fun _ => false) ["Missions".toList] :=
    mem_missionBrowse.mpr ⟨coop, coop_listed, rfl, by decide⟩
  obtain ⟨f, hf, hpath, hsent⟩ := missionBrowse_downloads Foothold.plainLowerCase smallDrive
    (fun _ => false) ["Missions".toList] "Night coop/Day #2 (100%).miz".toList hmem
  have hnames : coop.names = f.names := relText_inj coop_listed.valid hf.valid hpath
  obtain rfl : coop = f := coop_listed.data_eq hf hnames
  refine ⟨by decide, hsent ⟨["Missions".toList], rfl, rfl⟩ (by simp [NoMissionsInside, coop])
    fun c hc => ?_⟩
  obtain rfl : 'N' = c := Option.some.inj hc
  decide

theorem tacviewBrowse_downloads_sortie :
    (queryValue (encodeURIComponent "May/Sortie 1+2.Acmi".toList)).map
        (tacviewDownload Foothold.plainLowerCase smallDrive (some ["Tacview".toList])) =
      some (.ok ⟨1, contentDisposition "Sortie 1+2.Acmi".toList, [70]⟩) := by
  obtain ⟨f, hf, hfile, hsent⟩ := tacviewBrowse_downloads Foothold.plainLowerCase smallDrive
    (fun _ => false) ["Tacview".toList] [tacviewFile sortie] 1 tacviewBrowse_sortie
    (tacviewFile sortie) (by simp)
  have hf' : f ∈ [sortie] := sortie_files ▸ mem_treeFiles.mpr hf
  obtain rfl : f = sortie := List.mem_singleton.mp hf'
  refine hsent ⟨["Tacview".toList], rfl, rfl⟩ ?_
  intro c hc
  obtain rfl : 'M' = c := Option.some.inj hc
  decide

/-- A recording that is kept under its number. -/
def numberedName (n : Nat) : Name := "Sortie ".toList ++ Nat.toDigits 10 n ++ ".acmi".toList

theorem numberedName_injective : Function.Injective numberedName := by
  intro m n h
  have hdigits := List.append_cancel_left (List.append_cancel_right h)
  have hvalues := congrArg (fun ds => Nat.ofDigitChars 10 ds 0) hdigits
  simpa only [Nat.ofDigitChars_ten_toDigits] using hvalues

theorem numberedName_head? (n : Nat) : (numberedName n).head? = some 'S' := rfl

theorem numberedName_valid (n : Nat) : ValidName (numberedName n) where
  ne_nil h := absurd (congrArg List.head? h) (by rw [numberedName_head?]; decide)
  inside c hc := by
    unfold numberedName at hc
    rcases List.mem_append.mp hc with hc | hc
    · rcases List.mem_append.mp hc with hc | hc
      · exact of_decide_eq_true (List.all_eq_true.mp (by decide : ("Sortie ".toList.all fun c =>
          decide (c ≠ '/' ∧ c ≠ '\\' ∧ c ≠ ':')) = true) c hc)
      · have hdigit := Nat.isDigit_of_mem_toDigits (by decide) (by decide) hc
        refine ⟨?_, ?_, ?_⟩ <;> rintro rfl <;> exact absurd hdigit (by decide)
    · exact of_decide_eq_true (List.all_eq_true.mp (by decide : (".acmi".toList.all fun c =>
        decide (c ≠ '/' ∧ c ≠ '\\' ∧ c ≠ ':')) = true) c hc)
  ne_dot h := absurd (congrArg List.head? h) (by rw [numberedName_head?]; decide)
  ne_dots h := absurd (congrArg List.head? h) (by rw [numberedName_head?]; decide)

/-- So many recordings, each a minute newer than the one before. -/
def numbered (count : Nat) : Names id where
  list := (List.range count).map numberedName
  distinct := by
    rw [show List.map (id : Char → Char) = id from funext List.map_id, List.map_id]
    exact List.nodup_range.map numberedName_injective
  valid name hname := by
    obtain ⟨n, -, rfl⟩ := List.mem_map.mp hname
    exact numberedName_valid n

/-- The number in a name. -/
def nameNumber (name : Name) : Nat := Nat.ofDigitChars 10 (name.filter Char.isDigit) 0

theorem nameNumber_numberedName (n : Nat) : nameNumber (numberedName n) = n := by
  have hdigits : (Nat.toDigits 10 n).filter Char.isDigit = Nat.toDigits 10 n :=
    List.filter_eq_self.mpr fun _ hc => Nat.isDigit_of_mem_toDigits (by decide) (by decide) hc
  have hfront : "Sortie ".toList.filter Char.isDigit = [] := by decide
  have hback : ".acmi".toList.filter Char.isDigit = [] := by decide
  unfold nameNumber numberedName
  rw [List.filter_append, List.filter_append, hfront, hdigits, hback, List.nil_append,
    List.append_nil, Nat.ofDigitChars_ten_toDigits]

/-- A drive with so many recordings, each newer than those with smaller numbers. -/
def recordedDrive (count : Nat) : Fs id FileData where
  names := ⟨["Tacview".toList], by decide, by decide⟩
  child _ := .dir (numbered count) fun name => .file ⟨[], some (nameNumber name)⟩

def recording (n : Nat) : Found FileData := ⟨[numberedName n], ⟨[], some n⟩⟩

/-- What is below a folder of recordings. -/
theorem recorded_files (count : Nat) :
    treeFiles (tacviewFilter Foothold.plainLowerCase) (recordedDrive count) (fun _ => false)
      ["Tacview".toList] = (List.range count).map recording := by
  have hlower : Foothold.plainLowerCase.toLowercase ".acmi".toList = ".acmi".toList :=
    toLowercaseFrom_ascii _ [] (by simp)
  have hwants (n : Nat) : (tacviewFilter Foothold.plainLowerCase).wants (numberedName n) = true := by
    have hends : ".acmi".toList.isSuffixOf (numberedName n) = true :=
      List.isSuffixOf_iff_suffix.mpr (List.suffix_append _ _)
    have hsuffix := isSuffixOf_toLowercase Foothold.plainLowerCase (by simp) hends
    rwa [hlower] at hsuffix
  have hfound : ((numbered count).list.filterMap fun name =>
      foundEntry (tacviewFilter Foothold.plainLowerCase) []
        (name, (.file ⟨[], some (nameNumber name)⟩ : Node id FileData))) =
      (List.range count).map recording := by
    rw [numbered, List.filterMap_map, ← List.filterMap_eq_map]
    refine List.filterMap_congr ?_
    intro n _
    simp [foundEntry, hwants, nameNumber_numberedName, recording]
  have hnext : ((numbered count).list.filterMap fun name =>
      nextEntry (tacviewFilter Foothold.plainLowerCase) []
        (name, (.file ⟨[], some (nameNumber name)⟩ : Node id FileData))) = [] := by
    simp [nextEntry]
  have hvisit : visitDir (tacviewFilter Foothold.plainLowerCase) (recordedDrive count)
      (fun _ => false) ["Tacview".toList] [] = some ⟨(List.range count).map recording, []⟩ := by
    rw [visitDir_open (c := ["Tacview".toList]) rfl rfl, if_neg (by decide), hfound, hnext]
  rw [treeFiles_eq, preorder, hvisit]
  simp

theorem recording_age (n : Nat) : (tacviewFile (recording n)).age = n + 1 := rfl

theorem tacviewBrowse_recorded (count : Nat) :
    ∃ files, tacviewBrowse Foothold.plainLowerCase (recordedDrive count) (fun _ => false)
      (some ["Tacview".toList]) = .listed files count := by
  have hread :
      (readDir (recordedDrive count) (fun _ => false) ["Tacview".toList]).isNone = false := rfl
  simp only [tacviewBrowse, hread, recorded_files]
  exact ⟨_, congrArg (TacviewAnswer.listed _) (by simp)⟩

/-- Of 201 recordings the newest stands first and the oldest is left out. -/
theorem tacviewBrowse_newest_numbered :
    ∃ files, tacviewBrowse Foothold.plainLowerCase (recordedDrive 201) (fun _ => false)
        (some ["Tacview".toList]) = .listed files 201 ∧
      files.length = 200 ∧ files.Pairwise (fun a b => newestFirst a b = true) ∧
      files.head? = some (tacviewFile (recording 200)) ∧ tacviewFile (recording 0) ∉ files := by
  obtain ⟨files, hlisted⟩ := tacviewBrowse_recorded 201
  obtain ⟨all, rest, hnodup, hall, htotal, hlength, hperm, hsorted, hleft⟩ :=
    tacviewBrowse_newest Foothold.plainLowerCase (recordedDrive 201) (fun _ => false)
      ["Tacview".toList] files 201 hlisted
  have hmem (file : TacviewFile) :
      file ∈ files ++ rest ↔ ∃ n < 201, tacviewFile (recording n) = file := by
    rw [hperm.mem_iff, hall]
    constructor
    · rintro ⟨f, hf, rfl⟩
      obtain ⟨n, hn, rfl⟩ := List.mem_map.mp (recorded_files 201 ▸ mem_treeFiles.mpr hf)
      exact ⟨n, List.mem_range.mp hn, rfl⟩
    · rintro ⟨n, hn, rfl⟩
      refine ⟨recording n, mem_treeFiles.mp ?_, rfl⟩
      rw [recorded_files]
      exact List.mem_map_of_mem (List.mem_range.mpr hn)
  have hshown : files.length = 200 := hlength
  refine ⟨files, hlisted, hshown, hsorted, ?_, ?_⟩
  · cases files with
    | nil => cases hshown
    | cons x files =>
      obtain ⟨k, hk, rfl⟩ := (hmem x).mp (by simp)
      have hnewest : tacviewFile (recording 200) ∈ tacviewFile (recording k) :: (files ++ rest) :=
        (hmem _).mpr ⟨200, by omega, rfl⟩
      have hage : 200 ≤ k := by
        rcases List.mem_cons.mp hnewest with heq | hbehind
        · have hages := congrArg TacviewFile.age heq
          rw [recording_age, recording_age] at hages
          omega
        · have hle := age_le_of_newestFirst <| (List.mem_append.mp hbehind).elim
            (List.rel_of_pairwise_cons hsorted) (hleft _ List.mem_cons_self _)
          rw [recording_age, recording_age] at hle
          omega
      obtain rfl : k = 200 := by omega
      rfl
  · intro hzero
    have hrest : rest.length = 1 := by
      have htwo := hperm.length_eq
      rw [List.length_append] at htwo
      omega
    obtain ⟨left, rfl⟩ := List.length_eq_one_iff.mp hrest
    obtain ⟨k, -, rfl⟩ := (hmem left).mp (by simp)
    -- nothing is older than the first recording, so it would be shown and left out
    have hle := age_le_of_newestFirst (hleft _ hzero _ (List.mem_singleton_self _))
    rw [recording_age, recording_age] at hle
    obtain rfl : k = 0 := by omega
    exact List.disjoint_of_nodup_append (hperm.nodup_iff.mpr hnodup) hzero (by simp)

end DcsDashboard.Downloads
