/-
# Uploaded missions

`mission_upload` (`routes/system.rs`) makes `Missions/Uploads` and writes the mission into it.
`list_uploaded_missions` (`routes/dcs.rs`) lists what is there, and the mission page asks for a
download by the name that it cuts out of a listed path.  The disk may refuse to make one of the
directories or to open the file, and may stop before all bytes are written.

The directory is a store of missions by name, of which case does not count (`Holds.upload`).  So a
mission that was uploaded is downloaded as it was sent, whatever is uploaded meanwhile under other
names (`upload_downloaded`), and the page lists each mission once and downloads it by the name that
it shows (`uploads_listed`).
-/
import DcsDashboard.Downloads.Browse
import DcsDashboard.Downloads.Uploads
import DcsDashboard.Lib.FileWriting
import DcsDashboard.Lib.Runs
import DcsDashboard.Lib.SpelledStore

namespace DcsDashboard.Downloads

open Lib FileTree WindowsPath SpelledStore
open StdPath (OnVolume)

/-! ## 1. The handlers -/

/-- What the disk does with an upload: it makes no more than so many of the two directories, or does
not open the file, or writes as many bytes as this into it. -/
inductive Disk
  | noDirectory (made : Nat) (error : List Char)
  | noFile (error : List Char)
  | writes (length : Nat) (modifiedMs : Option Nat) (error : List Char)

/-- A request with what the disk does. -/
structure UploadAct where
  fields : List (Except MultipartError Field)
  disk : Disk

inductive UploadAnswer
  | success (fileName : List Char)
  | refused (status : Nat) (error : String)
  | failed (error : List Char)

variable {fold : Char → Char}

/-- `missions_dir`, from the directory of saved games. -/
def missionsPlace (savedPlace : Place) : Place := savedPlace ++ ["Missions".toList]

/-- `uploads_dir`. -/
def uploadsPlace (savedPlace : Place) : Place := missionsPlace savedPlace ++ ["Uploads".toList]

/-- The place a path leads to, if it lies below the directory of saved games. -/
def placeBelow (saved : List Char) (savedPlace : Place) (path : List Char) : Option Place :=
  let dir := StdPath.components saved
  if dir <+: StdPath.components path then
    (normalNames ((StdPath.components path).drop dir.length)).map (savedPlace ++ ·)
  else none

/-- The directories that are made, below that of saved games. -/
def uploadDirs : List Name := ["Missions".toList, "Uploads".toList]

/-- A file that the disk writes to, as far as it comes. -/
def writeUpload (fs : Fs fold FileData) (target : Place) (path : List Char) (bytes : List UInt8) :
    Disk → Fs fold FileData × UploadAnswer
  | .noDirectory _ error | .noFile error => (fs, .failed error)
  | .writes length modifiedMs error =>
    let written : FileData := ⟨bytes.take length, modifiedMs⟩
    match writeFile fs target.dropLast (target.getLast?.getD []) written with
    | (fs', true) => (fs', if bytes.length ≤ length then .success path else .failed error)
    | (fs', false) => (fs', .failed error)

/-- `mission_upload`; nothing is said of a path that does not lie below the directory of saved
games. -/
def missionUploadOn (saved : List Char) (savedPlace : Place) (fs : Fs fold FileData)
    (act : UploadAct) : Option (Fs fold FileData × UploadAnswer) :=
  match missionUpload saved act.fields, act.disk with
  | .refused status error, _ => some (fs, .refused status error)
  | .written _ _, .noDirectory made error =>
    some ((createDirAll ⟨[], none⟩ fs savedPlace (uploadDirs.take made)).1, .failed error)
  | .written path bytes, disk =>
    (placeBelow saved savedPlace path).map fun target =>
      match createDirAll ⟨[], none⟩ fs savedPlace uploadDirs with
      | (fs', true) => writeUpload fs' target path bytes disk
      | (fs', false) => (fs', .failed [])

/-- `list_uploaded_missions`. -/
def listUploadedMissions (fs : Fs fold FileData) (denied : Place → Bool) (saved : List Char)
    (savedPlace : Place) : List (List Char) :=
  match readDir fs denied (uploadsPlace savedPlace) with
  | none => []
  | some entries =>
    (entries.filter fun entry => ".miz".toList.isSuffixOf entry.1).map fun entry =>
      StdPath.join (uploadsDir saved) entry.1

/-- What the page shows of a listed path. -/
def uploadedFilename (missionPath : List Char) : List Char :=
  let last := ((missionPath.splitOn '\\').getLast?.getD []).splitOn '/'
  if last.getLast?.getD [] = [] then missionPath else last.getLast?.getD []

/-- The path its download asks for. -/
def uploadedPath (filename : List Char) : List Char := "Uploads/".toList ++ filename

/-! ## 2. What an upload is to do -/

/-- The name and the bytes that an upload writes, if it writes. -/
def UploadAct.entry (act : UploadAct) : Option (Name × List UInt8) :=
  match uploadedField act.fields, act.disk with
  | .ok (some (some name, bytes)), .writes length _ _ =>
    if ".miz".toList.isSuffixOf name then some (basename name, bytes.take length) else none
  | _, _ => none

/-- The mission has a file name, and none that Windows reads as a drive, as a part of a file or as
more than one name. -/
def Plain (act : UploadAct) : Prop :=
  ∀ name bytes, uploadedField act.fields = .ok (some (some name, bytes)) →
    ".miz".toList.isSuffixOf name → ∃ b, StdPath.fileName name = some b ∧ ':' ∉ b ∧ '/' ∉ b

/-! ## 3. The directory as a store -/

/-- Files by their names, with these bytes in them. -/
structure Files (names : Names fold) (child : Name → Node fold FileData)
    (store : List (Name × List UInt8)) : Prop where
  names_eq : store.map Prod.fst = names.list
  child_eq : ∀ entry ∈ store, ∃ modifiedMs, child entry.1 = .file ⟨entry.2, modifiedMs⟩

section Files

variable {names : Names fold} {child : Name → Node fold FileData}
  {store : List (Name × List UInt8)} {name n : Name}

/-- Names are found in the directory as they are in the store. -/
theorem Files.find (h : Files names child store) (name : Name) :
    (stored (List.map fold) store name).map Prod.fst = names.find name := by
  rw [Names.find, ← h.names_eq, List.find?_map]
  rfl

theorem Files.mem_names (h : Files names child store) {entry : Name × List UInt8}
    (hentry : entry ∈ store) : entry.1 ∈ names.list :=
  h.names_eq ▸ List.mem_map_of_mem hentry

theorem Files.all_files (h : Files names child store) :
    ∀ n ∈ names.list, ∃ old, child n = .file old := by
  intro n hn
  rw [← h.names_eq] at hn
  obtain ⟨entry, hentry, rfl⟩ := List.mem_map.mp hn
  obtain ⟨modifiedMs, hfile⟩ := h.child_eq entry hentry
  exact ⟨_, hfile⟩

/-- The names in the store differ in more than their case. -/
theorem Files.nodup (h : Files names child store) :
    (store.map fun entry => entry.1.map fold).Nodup := by
  have hdistinct := names.distinct
  rwa [← h.names_eq, List.map_map] at hdistinct

/-- A file is put into the directory as its bytes are put into the store. -/
theorem Files.put (h : Files names child store) (hvalid : ValidName name)
    (hn : names.find name = some n ∨ names.find name = none ∧ n = name) (data : FileData) :
    Files (names.insert n) (fun m => if m = n then .file data else child m)
      (put (List.map fold) store name data.bytes) := by
  have hfind := h.find name
  rcases hn with hn | ⟨hnone, rfl⟩
  · obtain ⟨hmem, hsame⟩ := Names.mem_of_find hn
    have hstored : (stored (List.map fold) store name).isSome = true := by
      rw [← Option.isSome_map, hfind, hn]
      rfl
    rw [Names.insert_of_find (names.find_self hmem), SpelledStore.put, if_pos hstored]
    constructor
    · rw [List.map_map, ← h.names_eq]
      refine List.map_congr_left ?_
      intro entry _
      by_cases hkey : entry.1.map fold = name.map fold
      · simp [hkey]
      · simp [hkey]
    · intro entry' hentry'
      obtain ⟨entry, hentry, rfl⟩ := List.mem_map.mp hentry'
      by_cases hkey : entry.1.map fold = name.map fold
      · -- the entry of this name
        have hself : entry.1 = n :=
          Option.some.inj ((Names.find_same (h.mem_names hentry) hkey).symm.trans hn)
        rw [if_pos hkey]
        exact ⟨data.modifiedMs, if_pos hself⟩
      · have hother : entry.1 ≠ n := by
          intro heq
          exact hkey (heq ▸ hsame)
        rw [if_neg hkey, if_neg hother]
        exact h.child_eq entry hentry
  · have hstored : ¬ (stored (List.map fold) store n).isSome = true := by
      rw [← Option.isSome_map, hfind, hnone]
      simp
    rw [SpelledStore.put, if_neg hstored]
    constructor
    · rw [Names.list_insert hnone hvalid, List.map_append, h.names_eq]
      rfl
    · intro entry hentry
      rcases List.mem_append.mp hentry with hold | hnew
      · have hother : entry.1 ≠ n := by
          intro heq
          rw [← heq, names.find_self (h.mem_names hold)] at hnone
          cases hnone
        rw [if_neg hother]
        exact h.child_eq entry hold
      · obtain rfl := List.mem_singleton.mp hnew
        exact ⟨data.modifiedMs, if_pos rfl⟩

end Files

/-- `Uploads` is there, and its files have these bytes in them. -/
def Stores (savedPlace : Place) (fs : Fs fold FileData) (store : List (Name × List UInt8)) :
    Prop :=
  ∃ c u names child, canonicalize fs (missionsPlace savedPlace) = some c ∧
    u.map fold = "Uploads".toList.map fold ∧ fs.get (c ++ [u]) = some (.dir names child) ∧
    Files names child store

/-- Before the first upload there may be no directory for it. -/
def Holds (savedPlace : Place) (fs : Fs fold FileData) (store : List (Name × List UInt8)) : Prop :=
  Stores savedPlace fs store ∨
    store = [] ∧ (Lacks fs savedPlace "Missions".toList ∨
      Lacks fs (missionsPlace savedPlace) "Uploads".toList)

variable {fs fs' : Fs fold FileData} {savedPlace : Place} {store : List (Name × List UInt8)}

theorem validName_missions : ValidName "Missions".toList := by decide

theorem validName_uploads : ValidName "Uploads".toList := by decide

/-- The path of the directory leads to it. -/
theorem canonicalize_uploads {c : Place} {u : Name} {names : Names fold}
    {child : Name → Node fold FileData}
    (hroot : canonicalize fs (missionsPlace savedPlace) = some c)
    (hu : u.map fold = "Uploads".toList.map fold)
    (hget : fs.get (c ++ [u]) = some (.dir names child)) :
    canonicalize fs (uploadsPlace savedPlace) = some (c ++ [u]) := by
  refine canonicalize_on hroot ?_
  intro startOver
  rw [follow_below hget rfl hu, follow]

/-- The directory once it is made. -/
theorem stores_made {c : Place} (hroot : canonicalize fs (missionsPlace savedPlace) = some c)
    (hget : fs.get (c ++ ["Uploads".toList]) = some (emptyDir ⟨[], none⟩)) :
    Stores savedPlace fs [] :=
  ⟨c, "Uploads".toList, _, _, hroot, rfl, hget, rfl, by simp⟩

/-- **Making the directory** leaves what is stored, and the directory is there. -/
theorem Holds.createDirAll (h : Holds savedPlace fs store) :
    ∃ fs', createDirAll ⟨[], none⟩ fs savedPlace uploadDirs = (fs', true) ∧
      Stores savedPlace fs' store := by
  have hmake (fs : Fs fold FileData)
      (hlacks : Lacks fs (missionsPlace savedPlace) "Uploads".toList) :
      ∃ fs', FileTree.createDirAll ⟨[], none⟩ fs (missionsPlace savedPlace) ["Uploads".toList] =
        (fs', true) ∧ Stores savedPlace fs' [] := by
    obtain ⟨fs', c, hmade, hroot, -, hget⟩ :=
      createDirAll_new ⟨[], none⟩ hlacks validName_uploads []
    exact ⟨fs', by rw [hmade, FileTree.createDirAll], stores_made hroot hget⟩
  rcases h with hstores | ⟨rfl, hlacks | hlacks⟩
  · obtain ⟨c, u, names, child, hroot, hu, hget, hfiles⟩ := id hstores
    obtain ⟨above, child', hmissions, -⟩ := Fs.dir_of_get hget
    have hthere := createDirAll_old ⟨[], none⟩ (canonicalize_uploads hroot hu hget) hget []
    rw [FileTree.createDirAll] at hthere
    exact ⟨fs, (createDirAll_old _ hroot hmissions _).trans hthere, hstores⟩
  · obtain ⟨fs', c, hmade, -, hroot, hget⟩ :=
      createDirAll_new ⟨[], none⟩ hlacks validName_missions ["Uploads".toList]
    obtain ⟨fs'', hmade', hstores⟩ := hmake fs' ⟨_, _, _, hroot, hget, rfl⟩
    exact ⟨fs'', hmade.trans hmade', hstores⟩
  · obtain ⟨c, names, child, hroot, hget, -⟩ := id hlacks
    obtain ⟨fs', hmade, hstores⟩ := hmake fs hlacks
    exact ⟨fs', (createDirAll_old _ hroot hget _).trans hmade, hstores⟩

/-- Directories that are made before the disk refuses. -/
theorem Holds.createSome (h : Holds savedPlace fs store) (made : Nat) :
    Holds savedPlace (FileTree.createDirAll ⟨[], none⟩ fs savedPlace (uploadDirs.take made)).1
      store := by
  have hthere {c : Place} {names : Names fold} {child : Name → Node fold FileData}
      (hroot : canonicalize fs (missionsPlace savedPlace) = some c)
      (hget : fs.get c = some (.dir names child)) :
      (FileTree.createDirAll ⟨[], none⟩ fs savedPlace ["Missions".toList]).1 = fs := by
    rw [createDirAll_old _ hroot hget, FileTree.createDirAll]
  rcases made with _ | _ | made
  · exact h
  · rw [show uploadDirs.take (0 + 1) = ["Missions".toList] from rfl]
    rcases h with hstores | ⟨rfl, hlacks | hlacks⟩
    · obtain ⟨c, u, names, child, hroot, -, hget, -⟩ := id hstores
      obtain ⟨above, child', hmissions, -⟩ := Fs.dir_of_get hget
      exact .inl ((hthere hroot hmissions).symm ▸ hstores)
    · obtain ⟨fs', c, hmade, -, hroot, hget⟩ :=
        createDirAll_new ⟨[], none⟩ hlacks validName_missions []
      rw [hmade, FileTree.createDirAll]
      exact .inr ⟨rfl, .inr ⟨_, _, _, hroot, hget, rfl⟩⟩
    · obtain ⟨c, names, child, hroot, hget, -⟩ := id hlacks
      exact .inr ⟨rfl, .inr ((hthere hroot hget).symm ▸ hlacks)⟩
  · obtain ⟨fs', hmade, hstores⟩ := h.createDirAll
    rw [List.take_of_length_le (by simp [uploadDirs]), hmade]
    exact .inl hstores

/-- **Writing a mission** puts its bytes into the store. -/
theorem Stores.writeFile (h : Stores savedPlace fs store) {name : Name} (hvalid : ValidName name)
    (data : FileData) :
    ∃ fs', writeFile fs (uploadsPlace savedPlace) name data = (fs', true) ∧
      Stores savedPlace fs' (put (List.map fold) store name data.bytes) := by
  obtain ⟨c, u, names, child, hroot, hu, hget, hfiles⟩ := h
  obtain ⟨n, hn, hwritten, hgrows⟩ := writeFile_into (canonicalize_uploads hroot hu hget) hget
    hfiles.all_files hvalid data
  exact ⟨_, hwritten, c, u, _, _, hgrows.canonicalize hroot, hu, Fs.get_put hget n (.file data),
    hfiles.put hvalid hn data⟩

/-! ## 4. Uploads -/

variable {saved : List Char} {act : UploadAct}

/-- A name that ends as a mission does and names no drive. -/
theorem validName_of_plain {name b : List Char} (hmiz : ".miz".toList.isSuffixOf name = true)
    (hb : StdPath.fileName name = some b) (hcolon : ':' ∉ b) (hslash : '/' ∉ b) :
    ValidName b ∧ b.getLast? = some 'z' := by
  obtain ⟨-, hz⟩ := fileName_miz hb (List.isSuffixOf_iff_suffix.mp hmiz)
  have hback := StdPath.backslash_notMem_fileName hb
  refine ⟨⟨?_, fun c hc => ⟨?_, ?_, ?_⟩, ?_, ?_⟩, hz⟩
  · rintro rfl
    cases hz
  · rintro rfl
    exact hslash hc
  · rintro rfl
    exact hback hc
  · rintro rfl
    exact hcolon hc
  · rintro rfl
    exact absurd hz (by decide)
  · rintro rfl
    exact absurd hz (by decide)

theorem isName_of_valid {name : Name} (h : ValidName name) : IsName name := by
  refine ⟨h.ne_nil, inName_of_valid h, ?_⟩
  by_contra hdrive
  obtain ⟨l, rest, rfl⟩ := eq_of_hasDrive (by simpa using hdrive)
  exact (h.inside ':' (by simp)).2.2 rfl

/-- Where a mission is written. -/
theorem placeBelow_upload (hsaved : OnVolume saved) {b : Name} (hb : ValidName b)
    (savedPlace : Place) :
    placeBelow saved savedPlace (StdPath.join (uploadsDir saved) b) =
      some (uploadsPlace savedPlace ++ [b]) := by
  have hcomponents : StdPath.components (StdPath.join (uploadsDir saved) b) =
      StdPath.components saved ++
        ["Missions".toList, "Uploads".toList, b].map Component.normal := by
    rw [(onVolume_uploadsDir hsaved).components_join (isName_of_valid hb) hb.ne_dot,
      components_uploadsDir hsaved, component_valid hb, List.append_assoc]
    rfl
  simp only [placeBelow, hcomponents]
  rw [if_pos (List.prefix_append _ _), List.drop_left, normalNames_map]
  simp [uploadsPlace, missionsPlace]

/-- What an upload writes, from what the handler reads of the request. -/
theorem entry_cases (act : UploadAct) (saved : List Char) :
    (act.entry = none ∧ ∃ status error, missionUpload saved act.fields = .refused status error) ∨
    ∃ name bytes, uploadedField act.fields = .ok (some (some name, bytes)) ∧
      ".miz".toList.isSuffixOf name = true ∧
      missionUpload saved act.fields =
        .written (StdPath.join (uploadsDir saved) (basename name)) bytes ∧
      act.entry = match act.disk with
        | .writes length _ _ => some (basename name, bytes.take length)
        | _ => none := by
  cases hupload : missionUpload saved act.fields with
  | refused status error =>
    refine .inl ⟨?_, status, error, rfl⟩
    unfold missionUpload at hupload
    unfold UploadAct.entry
    split
    · rename_i name bytes length modifiedMs text hfield hdisk
      rw [hfield] at hupload
      simp only at hupload
      split
      · next hmiz =>
        have hne : name ≠ [] := by
          rintro rfl
          exact absurd hmiz (by decide)
        rw [if_neg hne, hmiz, if_neg (by simp)] at hupload
        cases hupload
      · rfl
    · rfl
  | written path bytes =>
    obtain ⟨name, hfield, hmiz, rfl⟩ := eq_of_written hupload
    refine .inr ⟨name, bytes, hfield, hmiz, rfl, ?_⟩
    unfold UploadAct.entry
    cases hdisk : act.disk with
    | noDirectory made error => simp [hfield]
    | noFile error => simp [hfield]
    | writes length modifiedMs error =>
      simp only [hfield]
      rw [if_pos hmiz]

/-- The names that plain uploads write. -/
theorem entry_valid {name : Name} {bytes : List UInt8} (hplain : Plain act)
    (h : act.entry = some (name, bytes)) : ValidName name ∧ name.getLast? = some 'z' := by
  rcases entry_cases act [] with ⟨hnone, -⟩ | ⟨full, bytes', hfield, hmiz, -, hentry⟩
  · rw [hnone] at h
    cases h
  · obtain ⟨b, hb, hcolon, hslash⟩ := hplain full bytes' hfield hmiz
    have hbase : basename full = b := by rw [basename, hb]; rfl
    rw [h] at hentry
    split at hentry
    · obtain ⟨rfl, -⟩ := Prod.mk.inj (Option.some.inj hentry)
      exact hbase ▸ validName_of_plain hmiz hb hcolon hslash
    · cases hentry

/-- A mission that the disk writes to. -/
theorem Holds.write (hsaved : OnVolume saved) (h : Holds savedPlace fs store)
    {b : Name} {bytes : List UInt8} (hb : ValidName b)
    (hwritten : missionUpload saved act.fields = .written (StdPath.join (uploadsDir saved) b) bytes)
    {length : Nat} {modifiedMs : Option Nat} {error : List Char}
    (hdisk : act.disk = .writes length modifiedMs error) :
    ∃ fs', missionUploadOn saved savedPlace fs act = some (fs',
        if bytes.length ≤ length then .success (StdPath.join (uploadsDir saved) b)
        else .failed error) ∧
      Stores savedPlace fs' (put (List.map fold) store b (bytes.take length)) := by
  obtain ⟨made, hmade, hstores⟩ := h.createDirAll
  obtain ⟨fs', hfile, hstores'⟩ := hstores.writeFile hb ⟨bytes.take length, modifiedMs⟩
  refine ⟨fs', ?_, hstores'⟩
  simp only [missionUploadOn, hwritten, hdisk, placeBelow_upload hsaved hb, Option.map_some, hmade,
    writeUpload, List.dropLast_concat, List.getLast?_concat, Option.getD_some, hfile]

/-- **An upload** puts what it writes into the store; one that is answered with success has written
all it was given. -/
theorem Holds.upload (hsaved : OnVolume saved) (h : Holds savedPlace fs store)
    (hplain : Plain act) {answer : UploadAnswer}
    (hstep : missionUploadOn saved savedPlace fs act = some (fs', answer)) :
    Holds savedPlace fs' (puts (List.map fold) store act.entry.toList) ∧
      ∀ path, answer = .success path → ∃ name bytes,
        uploadedField act.fields = .ok (some (some name, bytes)) ∧
        path = StdPath.join (uploadsDir saved) (basename name) ∧
        act.entry = some (basename name, bytes) := by
  rcases entry_cases act saved with
    ⟨hnone, status, error, hrefused⟩ | ⟨name, bytes, hfield, hmiz, hwritten, hentry⟩
  · simp only [missionUploadOn, hrefused] at hstep
    obtain ⟨rfl, rfl⟩ := Prod.mk.inj (Option.some.inj hstep)
    rw [hnone]
    exact ⟨h, by simp⟩
  · obtain ⟨b, hb, hcolon, hslash⟩ := hplain name bytes hfield hmiz
    have hbase : basename name = b := by rw [basename, hb]; rfl
    obtain ⟨hvalid, -⟩ := validName_of_plain hmiz hb hcolon hslash
    rw [hbase] at hwritten hentry
    rw [hentry]
    cases hdisk : act.disk with
    | noDirectory made error =>
      simp only [missionUploadOn, hwritten, hdisk] at hstep
      obtain ⟨rfl, rfl⟩ := Prod.mk.inj (Option.some.inj hstep)
      exact ⟨h.createSome made, by simp⟩
    | noFile error =>
      obtain ⟨made, hmade, hstores⟩ := h.createDirAll
      simp only [missionUploadOn, hwritten, hdisk, placeBelow_upload hsaved hvalid, Option.map_some,
        hmade, writeUpload] at hstep
      obtain ⟨rfl, rfl⟩ := Prod.mk.inj (Option.some.inj hstep)
      exact ⟨.inl hstores, by simp⟩
    | writes length modifiedMs error =>
      obtain ⟨fs'', heq, hstores⟩ := h.write hsaved hvalid hwritten hdisk
      rw [heq] at hstep
      obtain ⟨rfl, rfl⟩ := Prod.mk.inj (Option.some.inj hstep)
      refine ⟨.inl hstores, ?_⟩
      intro path hpath
      split at hpath
      · next hlength =>
        refine ⟨name, bytes, hfield, ?_, ?_⟩
        · rw [hbase]
          exact (UploadAnswer.success.inj hpath).symm
        · simp only [hbase, List.take_of_length_le hlength]
      · cases hpath

/-- What one request after the other does to the disk. -/
def uploadStep (saved : List Char) (savedPlace : Place) (fs : Fs fold FileData) (act : UploadAct) :
    Option (Fs fold FileData) :=
  (missionUploadOn saved savedPlace fs act).map Prod.fst

/-- **After any uploads** the directory has what they wrote, one after the other. -/
theorem Holds.run (hsaved : OnVolume saved) (h : Holds savedPlace fs store)
    {acts : List UploadAct}
    (hrun : Run (uploadStep saved savedPlace) (fun _ => Plain) fs acts fs') :
    Holds savedPlace fs' (puts (List.map fold) store (acts.filterMap UploadAct.entry)) := by
  refine hrun.history (I := fun acts fs =>
    Holds savedPlace fs (puts (List.map fold) store (acts.filterMap UploadAct.entry))) h ?_
  intro acts fs act fs' hholds hplain hstep
  obtain ⟨⟨fs'', answer⟩, hupload, rfl⟩ := Option.map_eq_some_iff.mp hstep
  obtain ⟨hnext, -⟩ := hholds.upload hsaved hplain hupload
  rw [List.filterMap_append, puts_append]
  cases hentry : act.entry with
  | none => simpa [hentry] using hnext
  | some entry => simpa [hentry] using hnext

/-! ## 5. The page -/

theorem getLast?_splitOn {sep : Char} (before : List Char) {name : Name} (h : sep ∉ name) :
    ((before ++ sep :: name).splitOn sep).getLast? = some name := by
  rw [List.splitOn_append_cons_self, List.splitOn_eq_singleton h, List.getLast?_concat]

/-- The page shows the name that a mission was written under. -/
theorem uploadedFilename_join (hsaved : OnVolume saved) {name : Name} (h : ValidName name) :
    uploadedFilename (StdPath.join (uploadsDir saved) name) = name := by
  have hslash : '/' ∉ name := fun hc => (h.inside _ hc).1 rfl
  have hlast := getLast?_splitOn (uploadsDir saved) (backslash_notMem h)
  simp only [uploadedFilename, join_uploadsDir hsaved (isName_of_valid h), hlast, Option.getD_some,
    List.splitOn_eq_singleton hslash, List.getLast?_singleton]
  rw [if_neg h.ne_nil]

theorem Holds.nodup (h : Holds savedPlace fs store) :
    (store.map fun entry => entry.1.map fold).Nodup := by
  rcases h with ⟨c, u, names, child, -, -, -, hfiles⟩ | ⟨rfl, -⟩
  · exact hfiles.nodup
  · exact List.nodup_nil

theorem Holds.valid (h : Holds savedPlace fs store) {entry : Name × List UInt8}
    (hentry : entry ∈ store) : ValidName entry.1 := by
  rcases h with ⟨c, u, names, child, -, -, -, hfiles⟩ | ⟨rfl, -⟩
  · exact names.valid entry.1 (hfiles.mem_names hentry)
  · cases hentry

/-- **The listing** has the missions of the store. -/
theorem listUploadedMissions_eq (h : Holds savedPlace fs store) {denied : Place → Bool}
    (hread : denied (uploadsPlace savedPlace) = false) (saved : List Char) :
    listUploadedMissions fs denied saved savedPlace =
      (store.filter fun entry => ".miz".toList.isSuffixOf entry.1).map fun entry =>
        StdPath.join (uploadsDir saved) entry.1 := by
  rcases h with ⟨c, u, names, child, hroot, hu, hget, hfiles⟩ | ⟨rfl, hlacks⟩
  · have hlookup : lookup fs (uploadsPlace savedPlace) = some (.dir names child) := by
      rw [lookup, canonicalize_uploads hroot hu hget, Option.bind_some, hget]
    simp only [listUploadedMissions, readDir, hread, hlookup, ← hfiles.names_eq]
    simp [List.filter_map, Function.comp_def]
  · have hlookup : lookup fs (uploadsPlace savedPlace) = none := by
      rw [lookup, Option.bind_eq_none_iff]
      intro place hplace
      rcases hlacks with hlacks | hlacks
      · rw [uploadsPlace, missionsPlace, List.append_assoc, List.singleton_append,
          hlacks.canonicalize] at hplace
        cases hplace
      · rw [uploadsPlace, hlacks.canonicalize] at hplace
        cases hplace
    simp [listUploadedMissions, readDir, hread, hlookup]

/-! ## 6. Downloads -/

theorem valid_uploadNames {name : Name} (h : ValidName name) :
    ∀ n ∈ ["Uploads".toList] ++ [name], ValidName n := by
  intro n hn
  rcases List.mem_append.mp hn with hn | hn
  · exact List.mem_singleton.mp hn ▸ validName_uploads
  · exact List.mem_singleton.mp hn ▸ h

theorem uploadedPath_eq {name : Name} (h : ValidName name) :
    uploadedPath name = relText (["Uploads".toList] ++ [name]) := by
  rw [relText_eq (valid_uploadNames h), List.singleton_append, List.intercalate_cons_cons,
    List.intercalate_singleton]
  rfl

/-- What the page's request for an upload asks for. -/
theorem requested_upload {name : Name} (h : ValidName name) (hz : name.getLast? = some 'z') :
    relPath (uploadedPath name) = uploadedPath name ∧
      requestedNames (uploadedPath name) = .ok ["Uploads".toList, name] := by
  have hvalid := valid_uploadNames h
  rw [uploadedPath_eq h]
  refine ⟨relPath_relText hvalid (by simp [NoMissionsInside]), ?_⟩
  refine requestedNames_relText hvalid (by simp) ?_ ?_
  · intro c hc
    rw [← uploadedPath_eq h] at hc
    obtain rfl : 'U' = c := Option.some.inj hc
    decide
  · intro c hc
    rw [getLast?_relText hvalid, hz] at hc
    obtain rfl : 'z' = c := Option.some.inj hc
    decide

/-- What the server sends for the name of a mission that is stored. -/
def sentUpload (T : LowerCase) (entry : Name × List UInt8) : Except DownloadError Download :=
  if hasAllowedExtension T [entry.1] [".miz".toList] then
    .ok ⟨entry.2.length, contentDisposition entry.1, entry.2⟩
  else .error .notFound

/-- **A stored mission is sent.** -/
theorem Holds.download (h : Holds savedPlace fs store) (T : LowerCase) {name : Name}
    (hvalid : ValidName name) (hz : name.getLast? = some 'z') {entry : Name × List UInt8}
    (hentry : stored (List.map fold) store name = some entry) :
    (queryValue (encodeURIComponent (relPath (uploadedPath name)))).map
        (missionDownload T fs (missionsPlace savedPlace)) = some (sentUpload T entry) := by
  obtain ⟨hrel, hnames⟩ := requested_upload hvalid hz
  have hstores : Stores savedPlace fs store := by
    rcases h with hstores | ⟨rfl, -⟩
    · exact hstores
    · cases hentry
  obtain ⟨c, u, names, child, hroot, hu, hget, hfiles⟩ := hstores
  obtain ⟨modifiedMs, hfile⟩ := hfiles.child_eq entry (List.mem_of_find?_eq_some hentry)
  have hfind : names.find name = some entry.1 := by
    rw [← hfiles.find, hentry]
    rfl
  have hplace : fs.get (c ++ [u] ++ [entry.1]) = some (.file ⟨entry.2, modifiedMs⟩) := by
    rw [Fs.get_snoc hget (Names.mem_of_find hfind).1, hfile]
  have hpath : canonicalize fs (c ++ ["Uploads".toList, name]) = some (c ++ [u] ++ [entry.1]) := by
    refine canonicalize_on (canonicalize_idem hroot) ?_
    intro startOver
    rw [follow_below hget rfl hu, follow_single hget hfind (by rw [hfile]; rfl)]
  have hlookup : lookup fs (c ++ [u] ++ [entry.1]) = some (.file ⟨entry.2, modifiedMs⟩) := by
    rw [lookup, canonicalize_of_get hplace rfl, Option.bind_some, hplace]
  have hin : c.isPrefixOf (c ++ [u] ++ [entry.1]) = true := by
    rw [List.isPrefixOf_iff_prefix, List.append_assoc]
    exact List.prefix_append _ _
  have hlast (before : Place) : hasAllowedExtension T (before ++ [entry.1]) [".miz".toList] =
      hasAllowedExtension T [entry.1] [".miz".toList] := by
    rw [hasAllowedExtension, List.getLast?_concat]
    rfl
  rw [hrel, queryValue_encode, Option.map_some, missionDownload, downloadUnder, resolveUnder,
    hnames, hroot]
  simp only [hpath, servable, hin, Bool.not_true, hlookup, hlast, sentUpload]
  cases hasAllowedExtension T [entry.1] [".miz".toList] with
  | false => rfl
  | true =>
    simp only [Bool.false_eq_true, if_false, if_true, streamDownload, hlookup, List.getLast?_concat]
    rfl

/-- **An upload is downloaded as it was sent.**  Once an upload has been answered with success, the
page gets its bytes by the name it was given, until something is written under that name again;
only how the name is spelled may be older. -/
theorem upload_downloaded (hsaved : OnVolume saved) (hstart : Holds savedPlace fs store)
    {before after : List UploadAct} {fs₁ fs₂ : Fs fold FileData} {path : List Char}
    (hbefore : Run (uploadStep saved savedPlace) (fun _ => Plain) fs before fs₁)
    (hplain : Plain act)
    (hact : missionUploadOn saved savedPlace fs₁ act = some (fs₂, .success path))
    (hlater : Run (uploadStep saved savedPlace) (fun _ => Plain) fs₂ after fs')
    (hafter : ∀ later ∈ after, ∀ entry, later.entry = some entry →
      entry.1.map fold ≠ (uploadedFilename path).map fold) (T : LowerCase) :
    ∃ name bytes spelled, uploadedField act.fields = .ok (some (some name, bytes)) ∧
      uploadedFilename path = basename name ∧ spelled.map fold = (basename name).map fold ∧
      (queryValue (encodeURIComponent (relPath (uploadedPath (uploadedFilename path))))).map
        (missionDownload T fs' (missionsPlace savedPlace)) =
        some (sentUpload T (spelled, bytes)) := by
  obtain ⟨hholds, hsuccess⟩ := (hstart.run hsaved hbefore).upload hsaved hplain hact
  obtain ⟨name, bytes, hfield, rfl, hentry⟩ := hsuccess path rfl
  obtain ⟨hvalid, hz⟩ := entry_valid hplain hentry
  have hshown := uploadedFilename_join hsaved hvalid
  rw [hshown] at hafter ⊢
  have hnot : ∀ entry ∈ after.filterMap UploadAct.entry,
      entry.1.map fold ≠ (basename name).map fold := by
    intro entry hentry
    obtain ⟨later, hmem, hwrites⟩ := List.mem_filterMap.mp hentry
    exact hafter later hmem entry hwrites
  have hlast := hholds.run hsaved hlater
  rw [hentry] at hlast
  obtain ⟨spelled, hspelled, hstored⟩ := stored_puts hnot bytes
  exact ⟨name, bytes, spelled, hfield, rfl, hspelled, hlast.download T hvalid hz hstored⟩

/-- A directory of saved games with nothing in it. -/
def noGames : Fs id FileData := ⟨.empty, fun _ => .file ⟨[], none⟩⟩

theorem noGames_holds : Holds [] noGames [] :=
  .inr ⟨rfl, .inl ⟨[], _, _, rfl, rfl, rfl⟩⟩

theorem onVolume_games : OnVolume "D:\\DCS".toList := ⟨by decide, by decide⟩

def coopUpload : UploadAct where
  fields := [.ok ⟨some "file".toList, some "Coop.miz".toList, .ok [80, 75]⟩]
  disk := .writes 2 (some 7) []

def coopPath : List Char := "D:\\DCS\\Missions\\Uploads\\Coop.miz".toList

theorem coopUpload_plain : Plain coopUpload := by
  intro name bytes hfield _
  obtain ⟨rfl, -⟩ : "Coop.miz".toList = name ∧ [80, 75] = bytes := by
    simpa [coopUpload, uploadedField] using hfield
  exact ⟨"Coop.miz".toList, by decide +kernel, by decide, by decide⟩

/-- The mission is written. -/
theorem coopUpload_success : ∃ fs',
    missionUploadOn "D:\\DCS".toList [] noGames coopUpload = some (fs', .success coopPath) := by
  have hpath : StdPath.join (uploadsDir "D:\\DCS".toList) "Coop.miz".toList = coopPath := by
    decide +kernel
  have hwritten : missionUpload "D:\\DCS".toList coopUpload.fields =
      .written (StdPath.join (uploadsDir "D:\\DCS".toList) "Coop.miz".toList) [80, 75] := by
    decide +kernel
  obtain ⟨fs', heq, -⟩ := noGames_holds.write onVolume_games (by decide) hwritten rfl
  rw [if_pos (by decide), hpath] at heq
  exact ⟨fs', heq⟩

theorem upload_downloaded_coop : ∃ fs',
    missionUploadOn "D:\\DCS".toList [] noGames coopUpload = some (fs', .success coopPath) ∧
      (queryValue (encodeURIComponent (relPath (uploadedPath (uploadedFilename coopPath))))).map
        (missionDownload Foothold.plainLowerCase fs' (missionsPlace [])) =
        some (sentUpload Foothold.plainLowerCase ("Coop.miz".toList, [80, 75])) := by
  obtain ⟨fs', hact⟩ := coopUpload_success
  obtain ⟨name, bytes, spelled, hfield, -, hspelled, hsent⟩ := upload_downloaded onVolume_games
    noGames_holds (.nil _) coopUpload_plain hact (.nil _) (by simp) Foothold.plainLowerCase
  obtain ⟨rfl, rfl⟩ : "Coop.miz".toList = name ∧ [80, 75] = bytes := by
    simpa [coopUpload, uploadedField] using hfield
  have hbase : basename "Coop.miz".toList = "Coop.miz".toList := by decide +kernel
  rw [hbase, List.map_id, List.map_id] at hspelled
  exact ⟨fs', hact, hspelled ▸ hsent⟩

/-- **The page lists the uploads**: the missions of the store, each under one name, which the page
shows and downloads it by. -/
theorem uploads_listed (hsaved : OnVolume saved) (hstart : Holds savedPlace fs store)
    {acts : List UploadAct}
    (hrun : Run (uploadStep saved savedPlace) (fun _ => Plain) fs acts fs') (denied : Place → Bool)
    (hread : denied (uploadsPlace savedPlace) = false) :
    let listed := listUploadedMissions fs' denied saved savedPlace
    (listed.map fun path => (uploadedFilename path).map fold).Nodup ∧
      (∀ path, path ∈ listed ↔
        ∃ entry ∈ puts (List.map fold) store (acts.filterMap UploadAct.entry),
          ".miz".toList.isSuffixOf entry.1 ∧ path = StdPath.join (uploadsDir saved) entry.1) ∧
      ∀ entry ∈ puts (List.map fold) store (acts.filterMap UploadAct.entry),
        ".miz".toList.isSuffixOf entry.1 →
        uploadedFilename (StdPath.join (uploadsDir saved) entry.1) = entry.1 ∧
        ∀ T, (queryValue (encodeURIComponent (relPath (uploadedPath entry.1)))).map
          (missionDownload T fs' (missionsPlace savedPlace)) =
          some (.ok ⟨entry.2.length, contentDisposition entry.1, entry.2⟩) := by
  have hholds := hstart.run hsaved hrun
  generalize puts (List.map fold) store (acts.filterMap UploadAct.entry) = final at hholds ⊢
  have hlisted := listUploadedMissions_eq hholds hread saved
  have hdifferent := hholds.nodup
  set missions := final.filter fun entry => ".miz".toList.isSuffixOf entry.1 with hmissions
  have hshown : (missions.map fun entry => StdPath.join (uploadsDir saved) entry.1).map
      (fun path => (uploadedFilename path).map fold) =
      missions.map fun entry => entry.1.map fold := by
    rw [List.map_map]
    refine List.map_congr_left ?_
    intro entry hentry
    have hvalid := hholds.valid (List.mem_of_mem_filter hentry)
    exact congrArg (List.map fold) (uploadedFilename_join hsaved hvalid)
  simp only [hlisted]
  refine ⟨?_, ?_, ?_⟩
  · rw [hshown]
    exact hdifferent.sublist (List.filter_sublist.map _)
  · intro path
    simp only [hmissions, List.mem_map, List.mem_filter, and_assoc]
    exact exists_congr fun entry => and_congr_right fun _ => and_congr_right fun _ => eq_comm
  · intro entry hentry hmiz
    have hvalid := hholds.valid hentry
    refine ⟨uploadedFilename_join hsaved hvalid, ?_⟩
    intro T
    have hstored := stored_of_mem hdifferent hentry
    rw [hholds.download T hvalid (last_of_miz hmiz) hstored, sentUpload, if_pos]
    rw [hasAllowedExtension, List.getLast?_singleton]
    simpa using isSuffixOf_toLowercase T (by simp) hmiz

theorem uploads_listed_coop : ∃ fs',
    missionUploadOn "D:\\DCS".toList [] noGames coopUpload = some (fs', .success coopPath) ∧
      coopPath ∈ listUploadedMissions fs' (fun _ => false) "D:\\DCS".toList [] ∧
      (queryValue (encodeURIComponent (relPath (uploadedPath "Coop.miz".toList)))).map
        (missionDownload Foothold.plainLowerCase fs' (missionsPlace [])) =
        some (.ok ⟨2, contentDisposition "Coop.miz".toList, [80, 75]⟩) := by
  obtain ⟨fs', hact⟩ := coopUpload_success
  have hrun : Run (uploadStep "D:\\DCS".toList []) (fun _ => Plain) noGames [coopUpload] fs' :=
    Run.single coopUpload_plain (congrArg (Option.map Prod.fst) hact)
  have hmem : ("Coop.miz".toList, [80, 75]) ∈
      puts (List.map id) [] ([coopUpload].filterMap UploadAct.entry) := by decide +kernel
  have hmiz : ".miz".toList.isSuffixOf "Coop.miz".toList = true := by decide
  obtain ⟨-, hlisted, hsent⟩ := uploads_listed onVolume_games noGames_holds
    hrun (fun _ => false) rfl
  exact ⟨fs', hact, (hlisted _).mpr ⟨_, hmem, hmiz, by decide +kernel⟩,
    (hsent _ hmem hmiz).2 Foothold.plainLowerCase⟩

end DcsDashboard.Downloads
