/-
# Where an uploaded mission is written

`mission_upload` (`routes/system.rs`) takes the first part of the request that is called `file`,
wants a name that ends with `.miz`, cuts it down to its last component and joins that to
`Missions/Uploads`.  On Windows a last component can still begin with a drive (`x/C:evil.miz`), or,
in a verbatim path, have `/` in it (`\\?\C:\../evil.miz`); and a name can be a share or a verbatim
prefix as a whole, which has no last component.

An upload is written directly into `Uploads` in all other cases, and only in these
(`missionUpload_inside_iff`).
-/
import DcsDashboard.Lib.StdPath

namespace DcsDashboard.Downloads

open Lib WindowsPath
open FileTree (Name)
open StdPath (OnVolume)

/-! ## 1. The handler -/

/-- Why a multipart body cannot be read further. -/
structure MultipartError where
  status : Nat
  text : String

/-- A part of a multipart body. -/
structure Field where
  name : Option (List Char)
  fileName : Option (List Char)
  bytes : Except MultipartError (List UInt8)

/-- `MISSION_UPLOAD_LIMIT_BYTES`. -/
def missionUploadLimitBytes : Nat := 100 * 1024 * 1024

/-- `err_413_too_large`. -/
def tooLarge : Nat × String :=
  (413, s!"File is too large (limit {missionUploadLimitBytes / (1024 * 1024)} MB). " ++
    "If you are behind a reverse proxy, its own body-size limit applies too.")

/-- What an upload comes to. -/
inductive Upload
  | refused (status : Nat) (error : String)
  | written (path : List Char) (bytes : List UInt8)
  deriving DecidableEq

/-- The loop over the parts: the first one called `file`. -/
def uploadedField : List (Except MultipartError Field) →
    Except (Nat × String) (Option (Option (List Char) × List UInt8))
  | [] => .ok none
  | .error e :: _ => .error (if e.status = 413 then tooLarge else (400, e.text))
  | .ok field :: fields =>
    if field.name = some "file".toList then
      match field.bytes with
      | .ok bytes => .ok (some (field.fileName, bytes))
      | .error e => .error (if e.status = 413 then tooLarge else (500, e.text))
    else uploadedField fields

/-- The name without the directories before it. -/
def basename (name : List Char) : List Char := (StdPath.fileName name).getD name

/-- `missions_dir`. -/
def missionsDir (dcsSavedGamesDir : List Char) : List Char :=
  StdPath.join dcsSavedGamesDir "Missions".toList

/-- `uploads_dir`. -/
def uploadsDir (dcsSavedGamesDir : List Char) : List Char :=
  StdPath.join (missionsDir dcsSavedGamesDir) "Uploads".toList

/-- `mission_upload`, where directories can be made and files written. -/
def missionUpload (dcsSavedGamesDir : List Char) (fields : List (Except MultipartError Field)) :
    Upload :=
  match uploadedField fields with
  | .error (status, text) => .refused status text
  | .ok (some (some name, bytes)) =>
    if name = [] then .refused 400 "No file provided"
    else if !".miz".toList.isSuffixOf name then .refused 400 "Only .miz files are allowed"
    else .written (StdPath.join (uploadsDir dcsSavedGamesDir) (basename name)) bytes
  | .ok _ => .refused 400 "No file provided"

/-! ## 2. The last component -/

/-- A text that ends in `z` ends in a name. -/
theorem trimRight_of_last {s : List Char} (h : s.getLast? = some 'z') : trimRight s = s := by
  obtain ⟨init, rfl⟩ := List.getLast?_eq_some_iff.mp h
  have htrim : trimRev ('z' :: init.reverse) = 'z' :: init.reverse := by
    rw [trimRev, if_neg (by simp [isSep])]
  simp [trimRight, htrim]

/-- What is left of a text, without its beginning, ends as the text does. -/
theorem getLast?_of_append {before rest s : List Char} (h : before ++ rest = s) (hne : rest ≠ []) :
    rest.getLast? = s.getLast? := by
  rw [← h, getLast?_behind hne]

theorem splitBody_last {s : List Char} (h : s.getLast? = some 'z') : (splitBody s).2 ≠ [] := by
  cases s with
  | nil => cases h
  | cons c s =>
    rw [splitBody]
    split
    · rename_i hc
      rintro rfl
      obtain rfl : c = 'z' := by simpa using h
      exact absurd hc (by decide)
    · simp

/-- The names of a path that ends in `z`, unless all of it is a prefix. -/
theorem body_of_last {p : List Char} (h : p.getLast? = some 'z') (hrest : (splitPrefix p).2 ≠ []) :
    (body p).getLast? = some 'z' := by
  have hlast := (getLast?_of_append (splitPrefix_append p) hrest).trans h
  have hbody := (getLast?_of_append (splitBody_append _) (splitBody_last hlast)).trans hlast
  rw [body, trimRight_of_last hbody, hbody]

theorem rtakeWhile_last {s : List Char} (h : s.getLast? = some 'z') :
    (s.rtakeWhile inName).getLast? = some 'z' := by
  obtain ⟨init, rfl⟩ := List.getLast?_eq_some_iff.mp h
  rw [List.rtakeWhile_concat, if_pos (by decide), List.getLast?_concat]

/-- The last component of a name that ends in `z`. -/
theorem fileName_of_last {p : List Char} (h : p.getLast? = some 'z')
    (hrest : (splitPrefix p).2 ≠ []) :
    ∃ b, WindowsPath.fileName p = some b := by
  have hname := rtakeWhile_last (body_of_last h hrest)
  refine ⟨_, if_neg ?_⟩
  rintro (hnil | hdots)
  · rw [hnil] at hname
    cases hname
  · rw [hdots] at hname
    exact absurd hname (by decide)

/-- What stands before a last component. -/
def EndsBefore (before : List Char) : Prop := ∀ c ∈ before.getLast?, isSep c = true ∨ c = ':'

theorem endsBefore_of_last {before : List Char} {c : Char} (hc : isSep c = true ∨ c = ':') :
    EndsBefore (before ++ [c]) := by
  intro d hd
  rw [List.getLast?_concat] at hd
  exact Option.some.inj hd ▸ hc

/-- A name stands at the end of a path, behind what does not belong to it. -/
theorem exists_before (before s : List Char) (inside : Char → Bool)
    (hinside : ∀ c, inside c = false → isSep c = true)
    (hbefore : s.rtakeWhile inside = s → EndsBefore before) :
    ∃ x, before ++ s = x ++ s.rtakeWhile inside ∧ EndsBefore x := by
  have hs : s.rdropWhile inside ++ s.rtakeWhile inside = s := List.rdropWhile_append_rtakeWhile
  rcases List.eq_nil_or_concat' (s.rdropWhile inside) with hnil | ⟨init, c, hinit⟩
  · rw [hnil, List.nil_append] at hs
    exact ⟨before, by rw [hs], hbefore hs⟩
  · refine ⟨before ++ (init ++ [c]), ?_, ?_⟩
    · rw [← hinit, List.append_assoc, hs]
    · have hlast := List.rdropWhile_last_not inside s (by simp [hinit])
      simp only [hinit, List.getLast_concat] at hlast
      rw [← List.append_assoc]
      exact endsBefore_of_last (.inl (hinside c (by simpa using hlast)))

/-- What comes before the names is a root, a drive, or nothing. -/
theorem endsBefore_body {p : List Char} (hne : (splitBody (splitPrefix p).2).2 ≠ [])
    (hname : ∀ c ∈ (splitBody (splitPrefix p).2).2, inName c = true) :
    EndsBefore (beforeBody p) := by
  have hstart : atEnd (splitBody (splitPrefix p).2).2 = false := by
    obtain ⟨c, rest, heq⟩ := List.exists_cons_of_ne_nil hne
    simpa [heq, atEnd, inName] using hname c (by simp [heq])
  rw [beforeBody]
  cases hrest : (splitPrefix p).2 with
  | nil => simp [hrest, splitBody] at hne
  | cons c rest =>
    rw [hrest, splitBody] at hstart
    rw [splitBody]
    by_cases hc : isSep c || (c = '.' && atEnd rest)
    · rw [if_pos hc] at hstart ⊢
      have hstart' : atEnd rest = false := hstart
      exact endsBefore_of_last (.inl (by simpa [hstart'] using hc))
    · rw [if_neg hc, List.append_nil]
      rcases splitPrefix_cases p with ⟨l, rest', -, -, hp⟩ |
        ⟨a, b, server, d, share, rest', -, hend, -, hp⟩ | hp
      · rw [hp]
        exact @endsBefore_of_last [l] ':' (.inr rfl)
      · -- a share without a root has nothing behind it
        obtain rfl : rest' = c :: rest := by simpa [hp] using hrest
        exact absurd (by simpa [atEnd] using hend) fun hsep => hc (by simp [hsep])
      · rw [hp]
        simp [EndsBefore]

theorem rdropWhile_of_last {s : List Char} {c : Char} (h : s.getLast? = some c) (hc : c ≠ '\\') :
    s.rdropWhile StdPath.isVerbatimSep = s := by
  obtain ⟨init, rfl⟩ := List.getLast?_eq_some_iff.mp h
  exact List.rdropWhile_concat_neg _ _ _ (by simpa [StdPath.isVerbatimSep] using hc)

/-- Where the last component stands in a path that ends in `z`. -/
theorem fileName_split {p b : List Char} (h : StdPath.fileName p = some b)
    (hz : p.getLast? = some 'z') : ∃ x, p = x ++ b ∧ EndsBefore x := by
  rw [StdPath.fileName] at h
  split at h
  · -- a verbatim path
    split at h
    · cases h
    rename_i hname
    obtain rfl := Option.some.inj h
    have hbody : StdPath.verbatimBody p ≠ [] := by
      intro hnil
      exact hname (.inl (by rw [StdPath.verbatimName, hnil]; rfl))
    obtain ⟨c, hc, hp⟩ := (StdPath.verbatimBody_cases p).resolve_left hbody
    have hlast := (getLast?_of_append hp hbody).trans hz
    obtain ⟨x, hx, hends⟩ := exists_before ((StdPath.splitVerbatim p).1 ++ [c])
      (StdPath.verbatimBody p) StdPath.inVerbatimName
      (fun d hd => by
        obtain rfl : d = '\\' := by simpa [StdPath.inVerbatimName, StdPath.isVerbatimSep] using hd
        rfl)
      fun _ => endsBefore_of_last (.inl hc)
    rw [StdPath.verbatimName, rdropWhile_of_last hlast (by decide)]
    exact ⟨x, hp.symm.trans hx, hends⟩
  · obtain ⟨hne, rfl⟩ := fileName_eq h
    have hrest : (splitPrefix p).2 ≠ [] := by
      intro hnil
      exact hne (by rw [body, hnil]; rfl)
    have hlast := (getLast?_of_append (splitPrefix_append p) hrest).trans hz
    have hnames := splitBody_last hlast
    have hbody : body p = (splitBody (splitPrefix p).2).2 :=
      trimRight_of_last ((getLast?_of_append (splitBody_append _) hnames).trans hlast)
    have hp : beforeBody p ++ (splitBody (splitPrefix p).2).2 = p := by
      rw [beforeBody, List.append_assoc, splitBody_append, splitPrefix_append]
    obtain ⟨x, hx, hends⟩ := exists_before (beforeBody p) (splitBody (splitPrefix p).2).2 inName
      (fun c hc => by simpa [inName] using hc)
      fun hall => endsBefore_body hnames (List.rtakeWhile_eq_self_iff.mp hall)
    rw [hbody]
    exact ⟨x, hp.symm.trans hx, hends⟩

/-- The last component of a name ends as the name does. -/
theorem fileName_miz {p b : List Char} (h : StdPath.fileName p = some b)
    (hmiz : ".miz".toList <:+ p) : ".miz".toList <:+ b ∧ b.getLast? = some 'z' := by
  have hz (s : List Char) (hs : ".miz".toList <:+ s) : s.getLast? = some 'z' := by
    obtain ⟨t, rfl⟩ := hs
    rw [getLast?_behind (by decide)]
    rfl
  obtain ⟨x, rfl, hends⟩ := fileName_split h (hz p hmiz)
  suffices hb : ".miz".toList <:+ b from ⟨hb, hz b hb⟩
  rcases List.suffix_or_suffix_of_suffix hmiz (List.suffix_append x b) with hb | ⟨e, he⟩
  · exact hb
  · -- what stands before the component ends with none of these characters
    obtain ⟨u, hu⟩ := hmiz
    rw [← he, ← List.append_assoc] at hu
    obtain rfl := List.append_cancel_right hu
    rcases List.eq_nil_or_concat' e with rfl | ⟨init, c, rfl⟩
    · exact ⟨[], he.symm⟩
    · have hc : c ∈ ".miz".toList := he ▸ by simp
      have hsep := hends c (by simp)
      obtain rfl | rfl | rfl | rfl : c = '.' ∨ c = 'm' ∨ c = 'i' ∨ c = 'z' := by simpa using hc
      all_goals exact absurd hsep (by decide)

theorem last_of_miz {name : List Char} (h : ".miz".toList.isSuffixOf name = true) :
    name.getLast? = some 'z' := by
  obtain ⟨s, rfl⟩ := List.isSuffixOf_iff_suffix.mp h
  rw [getLast?_behind (by decide)]
  rfl

/-! ## 3. Where it is written -/

/-- The path of a mission directly in the directory. -/
def Directly (dir path : List Char) : Prop :=
  ∃ name, IsName name ∧ ".miz".toList <:+ name ∧ path = dir ++ '\\' :: name ∧
    StdPath.components path = StdPath.components dir ++ [.normal name]

theorem isName_missions : IsName "Missions".toList :=
  ⟨by decide, List.all_eq_true.mp (by decide), by decide⟩

theorem isName_uploads : IsName "Uploads".toList :=
  ⟨by decide, List.all_eq_true.mp (by decide), by decide⟩

section Saved

variable {saved : List Char} (hsaved : OnVolume saved)

include hsaved

/-- The directory for uploads is on the volume of the saved games. -/
theorem onVolume_uploadsDir : OnVolume (uploadsDir saved) :=
  (hsaved.join isName_missions).join isName_uploads

/-- The components of the directory for uploads. -/
theorem components_uploadsDir :
    StdPath.components (uploadsDir saved) =
      StdPath.components saved ++ [.normal "Missions".toList, .normal "Uploads".toList] := by
  rw [uploadsDir, missionsDir,
    (hsaved.join isName_missions).components_join isName_uploads (by decide),
    hsaved.components_join isName_missions (by decide), List.append_assoc]
  rfl

/-- A separator is put behind the directory for uploads. -/
theorem atName_uploadsDir : atName (uploadsDir saved) = uploadsDir saved ++ ['\\'] := by
  have hdir : uploadsDir saved = atName (missionsDir saved) ++ "Uploads".toList :=
    (hsaved.join isName_missions).join_name isName_uploads
  have hlength : (uploadsDir saved).length ≠ 2 := by
    rw [hdir, List.length_append]
    simp
  have hlast : (uploadsDir saved).getLast? = some 's' := by
    rw [hdir, getLast?_behind (by decide)]
    rfl
  have hsep : needSep (uploadsDir saved) = true := by
    rw [needSep, hlast, decide_eq_false hlength, Bool.and_false]
    rfl
  rw [atName, if_pos hsep]

theorem join_uploadsDir {name : Name} (hname : IsName name) :
    StdPath.join (uploadsDir saved) name = uploadsDir saved ++ '\\' :: name := by
  rw [(onVolume_uploadsDir hsaved).join_name hname, atName_uploadsDir hsaved, List.append_assoc]
  rfl

/-- A bare name is joined to the directory. -/
theorem directly_of_name {name : Name} (hname : IsName name) (hmiz : ".miz".toList <:+ name)
    (hz : name.getLast? = some 'z') :
    Directly (uploadsDir saved) (StdPath.join (uploadsDir saved) name) := by
  have hdot : name ≠ ['.'] := by
    rintro rfl
    exact absurd hz (by decide)
  have hdots : name ≠ ['.', '.'] := by
    rintro rfl
    exact absurd hz (by decide)
  refine ⟨name, hname, hmiz, join_uploadsDir hsaved hname, ?_⟩
  rw [(onVolume_uploadsDir hsaved).components_join hname hdot, component, if_neg hdots]

/-- A last component that is no bare name is not joined so. -/
theorem not_directly_of_fileName {b : List Char} (hback : '\\' ∉ b) (hname : ¬ IsName b) :
    ¬ Directly (uploadsDir saved) (StdPath.join (uploadsDir saved) b) := by
  rintro ⟨name, hbare, -, hpath, -⟩
  have hmem (before : List Char) : '\\' ∈ before ++ '\\' :: name := by simp
  cases hvolume : StdPath.hasPrefix b with
  | true =>
    rw [StdPath.join, if_pos hvolume] at hpath
    exact hback (hpath ▸ hmem _)
  | false =>
    rw [(onVolume_uploadsDir hsaved).join_eq hvolume, WindowsPath.join] at hpath
    split at hpath
    · exact hback (hpath ▸ hmem _)
    · split at hpath
      · -- behind the volume there is the rest of the directory
        have hrest : (splitPrefix (uploadsDir saved)).1 ++ b =
            (splitPrefix (uploadsDir saved)).1 ++
              ((splitPrefix (uploadsDir saved)).2 ++ '\\' :: name) := by
          rw [← List.append_assoc, splitPrefix_append, hpath]
        exact hback (List.append_cancel_left hrest ▸ hmem _)
      · rw [atName_uploadsDir hsaved, List.append_assoc] at hpath
        obtain rfl : b = name := (List.cons.inj (List.append_cancel_left hpath)).2
        exact hname hbare

end Saved

/-- A path that is all prefix is a share. -/
theorem components_share {p : List Char} (hz : p.getLast? = some 'z')
    (hrest : (splitPrefix p).2 = []) :
    (splitPrefix p).1 ≠ [] ∧ WindowsPath.components p = [.volume p, .rootDir] := by
  rcases splitPrefix_cases p with ⟨l, rest, hdrive, rfl, hp⟩ |
    ⟨a, b, server, c, share, rest, hs, -, hp, hsplit⟩ | hp
  · obtain rfl : rest = [] := by simpa [hp] using hrest
    exact absurd hz (by simp)
  · obtain rfl : rest = [] := by simpa [hsplit] using hrest
    rw [List.append_nil] at hp
    have hdrive : hasDrive p = false := by
      have hcolon : b ≠ ':' := by
        rintro rfl
        exact absurd hs.seps.2.1 (by decide)
      rw [hp]
      unfold hasDrive
      split
      · rename_i heq
        simp only [List.cons.injEq] at heq
        exact absurd heq.2.1 hcolon
      · rfl
    refine ⟨by simp [hsplit], ?_⟩
    have hne : p ≠ [] := by simp [hp]
    rw [WindowsPath.components, hsplit, ← hp, nameParts_nil]
    simp [start, hdrive, hne]
  · rw [hp] at hrest
    obtain rfl : p = [] := hrest
    cases hz

/-- A name without a last component has a prefix, and is nowhere in the directory for uploads. -/
theorem no_fileName {saved name : List Char} (hsaved : OnVolume saved)
    (hz : name.getLast? = some 'z') (h : StdPath.fileName name = none) :
    StdPath.hasPrefix name = true ∧ ¬ Directly (uploadsDir saved) name := by
  cases hverbatim : StdPath.isVerbatim name with
  | true =>
    refine ⟨by simp [StdPath.hasPrefix, hverbatim], ?_⟩
    rintro ⟨b, -, -, rfl, -⟩
    have hdir := onVolume_uploadsDir hsaved
    rw [StdPath.isVerbatim_append hdir.volume, hdir.plain] at hverbatim
    cases hverbatim
  | false =>
    rw [StdPath.fileName, if_neg (by simp [hverbatim])] at h
    have hrest : (splitPrefix name).2 = [] := by
      by_contra hne
      obtain ⟨b, hb⟩ := fileName_of_last hz hne
      rw [h] at hb
      cases hb
    obtain ⟨hvolume, hcomponents⟩ := components_share hz hrest
    refine ⟨by simp [StdPath.hasPrefix, hvolume], ?_⟩
    rintro ⟨b, -, -, -, hinside⟩
    have hlength := congrArg List.length hinside
    rw [OnVolume.components_eq ⟨hvolume, hverbatim⟩, hcomponents, components_uploadsDir hsaved]
      at hlength
    simp at hlength

/-- What is written comes from the first part called `file`. -/
theorem eq_of_written {saved : List Char} {fields : List (Except MultipartError Field)}
    {path : List Char} {bytes : List UInt8} (h : missionUpload saved fields = .written path bytes) :
    ∃ name, uploadedField fields = .ok (some (some name, bytes)) ∧
      ".miz".toList.isSuffixOf name = true ∧
      path = StdPath.join (uploadsDir saved) (basename name) := by
  rw [missionUpload] at h
  split at h
  · cases h
  · rename_i name bytes' hfield
    split at h
    · cases h
    · split at h
      · cases h
      · rename_i hmiz
        obtain ⟨rfl, rfl⟩ := Upload.written.inj h
        exact ⟨name, hfield, by simpa using hmiz, rfl⟩
  · cases h

/-- **Where an upload is written**: directly in `Missions/Uploads` just if the name has a last
component and that is a bare name.  Otherwise the path is what the client has named, or there is a
`/` in what stands behind the directory. -/
theorem missionUpload_inside_iff {saved : List Char} (hsaved : OnVolume saved)
    (fields : List (Except MultipartError Field)) {path : List Char} {bytes : List UInt8}
    (h : missionUpload saved fields = .written path bytes) :
    ∃ name, uploadedField fields = .ok (some (some name, bytes)) ∧
      (Directly (uploadsDir saved) path ↔ ∃ b, StdPath.fileName name = some b ∧ IsName b) ∧
      (¬ Directly (uploadsDir saved) path → path = basename name ∨ '/' ∈ basename name) := by
  obtain ⟨name, hfield, hmiz, rfl⟩ := eq_of_written h
  refine ⟨name, hfield, ?_⟩
  cases hlast : StdPath.fileName name with
  | none =>
    obtain ⟨hvolume, hout⟩ := no_fileName hsaved (last_of_miz hmiz) hlast
    have hbase : basename name = name := by rw [basename, hlast]; rfl
    rw [hbase, StdPath.join, if_pos hvolume]
    exact ⟨by simp [hout], fun _ => .inl rfl⟩
  | some b =>
    have hbase : basename name = b := by rw [basename, hlast]; rfl
    have hback := StdPath.backslash_notMem_fileName hlast
    obtain ⟨hbmiz, hbz⟩ := fileName_miz hlast (List.isSuffixOf_iff_suffix.mp hmiz)
    rw [hbase]
    by_cases hname : IsName b
    · have hin := directly_of_name hsaved hname hbmiz hbz
      exact ⟨by simp [hin, hname], fun hout => absurd hin hout⟩
    · have hout := not_directly_of_fileName hsaved hback hname
      refine ⟨by simp [hout, hname], ?_⟩
      intro _
      by_cases hslash : '/' ∈ b
      · exact .inr hslash
      · -- nothing but a drive keeps it from being a bare name
        have hdrive : hasDrive b = true := by
          by_contra hno
          refine hname ⟨?_, ?_, by simpa using hno⟩
          · rintro rfl
            cases hbz
          · intro c hc
            have hne : c ≠ '\\' ∧ c ≠ '/' :=
              ⟨fun heq => hback (heq ▸ hc), fun heq => hslash (heq ▸ hc)⟩
            simp [inName, isSep, hne]
        exact .inl (if_pos (by simp [StdPath.hasPrefix, volume_of_drive hdrive]))

/-- A request with one part. -/
def miz (name : String) : List (Except MultipartError Field) :=
  [.ok ⟨some "file".toList, some name.toList, .ok [80, 75]⟩]

/-- A name as browsers send it, and a verbatim one that leaves the directory. -/
theorem missionUpload_inside_coop :
    Directly (uploadsDir "D:\\DCS".toList) "D:\\DCS\\Missions\\Uploads\\Coop.miz".toList ∧
      missionUpload "D:\\DCS".toList (miz "\\\\?\\C:\\../evil.miz") =
        .written "D:\\DCS\\Missions\\Uploads\\../evil.miz".toList [80, 75] ∧
      ¬ Directly (uploadsDir "D:\\DCS".toList)
        "D:\\DCS\\Missions\\Uploads\\../evil.miz".toList := by
  have hwritten : missionUpload "D:\\DCS".toList (miz "C:\\fakepath\\Coop.miz") =
      .written "D:\\DCS\\Missions\\Uploads\\Coop.miz".toList [80, 75] := by decide +kernel
  have hverbatim : missionUpload "D:\\DCS".toList (miz "\\\\?\\C:\\../evil.miz") =
      .written "D:\\DCS\\Missions\\Uploads\\../evil.miz".toList [80, 75] := by decide +kernel
  refine ⟨?_, hverbatim, ?_⟩
  · obtain ⟨name, hname, hiff, -⟩ := missionUpload_inside_iff ⟨by decide, by decide⟩ _ hwritten
    obtain rfl : "C:\\fakepath\\Coop.miz".toList = name := by simpa [miz, uploadedField] using hname
    exact hiff.mpr ⟨"Coop.miz".toList, by decide +kernel, by decide,
      List.all_eq_true.mp (by decide), by decide⟩
  · obtain ⟨name, hname, hiff, -⟩ := missionUpload_inside_iff ⟨by decide, by decide⟩ _ hverbatim
    obtain rfl : "\\\\?\\C:\\../evil.miz".toList = name := by simpa [miz, uploadedField] using hname
    intro hin
    obtain ⟨b, hb, hbare⟩ := hiff.mp hin
    have hlast : StdPath.fileName "\\\\?\\C:\\../evil.miz".toList = some "../evil.miz".toList := by
      decide +kernel
    obtain rfl : "../evil.miz".toList = b := Option.some.inj (hlast.symm.trans hb)
    exact absurd (hbare.inside '/' (by decide)) (by decide)

end DcsDashboard.Downloads
