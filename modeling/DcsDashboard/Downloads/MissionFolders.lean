/-
# The folders of the mission page

`MissionPage` (`mission/page.tsx`) has the paths the server lists and shows them a folder at a time:
the files in `currentFolder` and the folders in it, each a button, with the way to it as
breadcrumbs above.  A search shows what it finds in all folders instead.  The list is asked for
again every five seconds; the first one that is not empty says where the page opens.

Whatever has happened on the page, a folder shows each file in it and each folder with files below
it (`displayedFiles_perm`, `mem_displayedFolders`), and from the root the buttons lead to exactly
the folders with files below them (`folders_exact`).  So each mission of the server is found by
pressing its directories one after the other (`mission_found`).
-/
import DcsDashboard.Airboss.CarrierDetection
import DcsDashboard.Downloads.Browse
import DcsDashboard.Lib.Folders
import DcsDashboard.Lib.JoinedText
import DcsDashboard.Lib.Runs

namespace DcsDashboard.Downloads.MissionPage

open Lib FileTree WindowsPath Airboss Relation
open scoped List

/-! ## 1. What a folder shows -/

/-- `prefix`. -/
def folderPrefix (currentFolder : List Char) : List Char :=
  if currentFolder = [] then [] else currentFolder ++ ['/']

def breadcrumbs (currentFolder : List Char) : List Name :=
  if currentFolder = [] then [] else currentFolder.splitOn '/'

/-- `foldersSet` and `displayedFiles`. -/
structure Shown where
  foldersSet : List Name
  displayedFiles : List (List Char)

/-- `foldersSet.add(part)`. -/
def Shown.addFolder (shown : Shown) (part : Name) : Shown :=
  if part ∈ shown.foldersSet then shown
  else { shown with foldersSet := shown.foldersSet ++ [part] }

/-- What `forEach` does with a file. -/
def showFile (currentFolder : List Char) (shown : Shown) (file : List Char) : Shown :=
  if folderPrefix currentFolder <+: file then
    match (file.drop (folderPrefix currentFolder).length).splitOn '/' with
    | part :: _ :: _ => shown.addFolder part
    | _ => { shown with displayedFiles := shown.displayedFiles ++ [file] }
  else shown

/-- How `sort` orders texts. -/
def textOrder (s t : List Char) : Bool :=
  decide (utf16 (String.ofList s) ≤ utf16 (String.ofList t))

/-! ## 2. The page -/

structure Page where
  serverFiles : List (List Char)
  searchQuery : List Char
  currentFolder : List Char
  initializedFolder : Bool

/-- The page as it is opened. -/
def start : Page := ⟨[], [], [], false⟩

namespace Page

variable (page : Page)

def normalizedServerFiles : List (List Char) := page.serverFiles.map normalised

def isSearching : Bool := decide (jsTrim (String.ofList page.searchQuery) ≠ "")

def folderShown : Shown :=
  page.normalizedServerFiles.foldl (showFile page.currentFolder) ⟨[], []⟩

def displayedFolders : List Name :=
  if page.isSearching then [] else page.folderShown.foldersSet.mergeSort textOrder

def displayedFiles (T : LowerCase) : List (List Char) :=
  if page.isSearching then
    page.normalizedServerFiles.filter fun file =>
      decide (T.toLowercase page.searchQuery <:+: T.toLowercase file)
  else page.folderShown.displayedFiles.mergeSort textOrder

end Page

/-- `/^(.*\/missions)/i`: the longest beginning of a line that ends in `/missions`. -/
def missionsMatch (first : List Char) : Option (List Char) :=
  (first.inits.filter fun s =>
    "/missions".toList.isSuffixOf (s.map Char.toLower) && !s.any isLineTerminator).getLast?

/-- What happens on the page: the server answers with its list, a search is typed, or one of the
buttons of the browser is pressed. -/
inductive Act
  | answered (files : List (List Char))
  | search (query : List Char)
  | root
  | crumb (idx : Nat)
  | folder (name : Name)
  deriving DecidableEq

/-- Where the page opens. -/
def initialFolder : List (List Char) → List Char
  | [] => []
  | first :: _ => (missionsMatch (normalised first)).getD []

def answer (page : Page) (files : List (List Char)) : Page :=
  if page.initializedFolder = false ∧ files ≠ [] then
    { page with
      serverFiles := files, currentFolder := initialFolder files, initializedFolder := true }
  else { page with serverFiles := files }

/-- One act; a button can be pressed while it is shown. -/
def step (page : Page) : Act → Option Page
  | .answered files => some (answer page files)
  | .search query => some { page with searchQuery := query }
  | .root => if page.isSearching then none else some { page with currentFolder := [] }
  | .crumb idx =>
    if page.isSearching ∨ (breadcrumbs page.currentFolder).length ≤ idx then none
    else some { page with
      currentFolder := ['/'].intercalate ((breadcrumbs page.currentFolder).take (idx + 1)) }
  | .folder name =>
    if name ∈ page.displayedFolders then
      some { page with
        currentFolder :=
          if page.currentFolder = [] then name else page.currentFolder ++ '/' :: name }
    else none

/-! ## 3. Texts as paths -/

/-- The names of a path. -/
def names (file : List Char) : List Name := file.splitOn '/'

/-- The folder a file lies in. -/
def folderOf (file : List Char) : List Name := (names file).dropLast

variable {folder file : List Char} {name : Name}

theorem names_ne_nil (file : List Char) : names file ≠ [] := List.splitOn_ne_nil '/' file

theorem names_below (h : folderPrefix folder <+: file) :
    names file = breadcrumbs folder ++ names (file.drop (folderPrefix folder).length) := by
  obtain ⟨rest, rfl⟩ := h
  rw [List.drop_left]
  unfold folderPrefix breadcrumbs names
  by_cases hroot : folder = []
  · rw [if_pos hroot, if_pos hroot, List.nil_append, List.nil_append]
  · rw [if_neg hroot, if_neg hroot, List.append_assoc, List.singleton_append,
      List.splitOn_append_cons_self]

/-- What begins with the names of a folder begins with its prefix. -/
theorem prefix_of_names {rest : List Name} (h : names file = breadcrumbs folder ++ rest)
    (hrest : rest ≠ []) : folderPrefix folder <+: file := by
  unfold folderPrefix
  by_cases hroot : folder = []
  · rw [if_pos hroot]
    exact List.nil_prefix
  · have hjoin : ['/'].intercalate (names file) = file := List.intercalate_splitOn '/'
    have hfolder : ['/'].intercalate (breadcrumbs folder) = folder := by
      rw [breadcrumbs, if_neg hroot, List.intercalate_splitOn]
    have hne : breadcrumbs folder ≠ [] := by
      rw [breadcrumbs, if_neg hroot]
      exact List.splitOn_ne_nil '/' folder
    rw [h, intercalate_append '/' hne hrest, hfolder] at hjoin
    rw [if_neg hroot, ← hjoin]
    exact ⟨['/'].intercalate rest, List.append_assoc folder ['/'] _⟩

theorem breadcrumbs_join {folder : List Name} (hnames : ∀ name ∈ folder, '/' ∉ name)
    (hhead : folder.head? ≠ some []) : breadcrumbs (['/'].intercalate folder) = folder := by
  cases folder with
  | nil => rfl
  | cons name folder =>
    have hname : name ≠ [] := fun hnil => hhead (congrArg some hnil)
    have hne : ['/'].intercalate (name :: folder) ≠ [] := by
      cases folder with
      | nil => simpa using hname
      | cons next folder => simp [List.intercalate_cons_cons]
    rw [breadcrumbs, if_neg hne, List.splitOn_intercalate '/' hnames (by simp)]

/-! ## 4. Folders show what is in them -/

/-- The paths of a list of files. -/
def pathsOf (files : List (List Char)) : Set (List Name) :=
  {path | ∃ file ∈ files, names file = path}

/-- What the loop does with a file, by where the file is. -/
theorem showFile_cases (folder : List Char) (shown : Shown) (file : List Char) :
    (∃ part rest, rest ≠ [] ∧ names file = breadcrumbs folder ++ part :: rest ∧
      showFile folder shown file = shown.addFolder part) ∨
    (∃ name, names file = breadcrumbs folder ++ [name] ∧
      showFile folder shown file =
        { shown with displayedFiles := shown.displayedFiles ++ [file] }) ∨
    (∀ rest, names file = breadcrumbs folder ++ rest → rest = []) ∧
      showFile folder shown file = shown := by
  unfold showFile
  by_cases hin : folderPrefix folder <+: file
  · have hnames := names_below hin
    rw [if_pos hin]
    match hrest : (file.drop (folderPrefix folder).length).splitOn '/' with
    | [] => exact absurd hrest (List.splitOn_ne_nil '/' _)
    | [name] =>
      exact .inr (.inl ⟨name, hnames.trans (congrArg _ hrest), rfl⟩)
    | part :: next :: rest =>
      exact .inl ⟨part, next :: rest, by simp, hnames.trans (congrArg _ hrest), rfl⟩
  · rw [if_neg hin]
    refine .inr (.inr ⟨?_, rfl⟩)
    intro rest hrest
    by_contra hne
    exact hin (prefix_of_names hrest hne)

theorem Shown.mem_addFolder {shown : Shown} {part : Name} :
    name ∈ (shown.addFolder part).foldersSet ↔ name ∈ shown.foldersSet ∨ name = part := by
  unfold Shown.addFolder
  split
  · next hmem =>
    constructor
    · exact .inl
    · rintro (h | rfl)
      · exact h
      · exact hmem
  · simp

theorem Shown.nodup_addFolder {shown : Shown} (h : shown.foldersSet.Nodup) (part : Name) :
    (shown.addFolder part).foldersSet.Nodup := by
  unfold Shown.addFolder
  split
  · exact h
  · next hnew => simpa using h.concat hnew

@[simp] theorem Shown.displayedFiles_addFolder (shown : Shown) (part : Name) :
    (shown.addFolder part).displayedFiles = shown.displayedFiles := by
  unfold Shown.addFolder
  split <;> rfl

/-- The files in a folder. -/
def filesIn (folder : List Name) (files : List (List Char)) : List (List Char) :=
  files.filter fun file => folderOf file = folder

theorem folderOf_iff {folder : List Name} :
    folderOf file = folder ↔ ∃ name, names file = folder ++ [name] := by
  constructor
  · intro h
    have hsplit := List.dropLast_append_getLast (names_ne_nil file)
    rw [← folderOf, h] at hsplit
    exact ⟨_, hsplit.symm⟩
  · rintro ⟨name, hnames⟩
    rw [folderOf, hnames, List.dropLast_concat]

theorem filesIn_concat {folder : List Name} {files : List (List Char)}
    (h : folderOf file = folder) :
    filesIn folder (files ++ [file]) = filesIn folder files ++ [file] := by
  rw [filesIn, List.filter_append, List.filter_cons_of_pos (by simpa using h), List.filter_nil]
  rfl

theorem filesIn_concat_of_ne {folder : List Name} {files : List (List Char)}
    (h : folderOf file ≠ folder) : filesIn folder (files ++ [file]) = filesIn folder files := by
  rw [filesIn, List.filter_append, List.filter_cons_of_neg (by simpa using h), List.filter_nil,
    List.append_nil]
  rfl

theorem mem_pathsOf_concat {files : List (List Char)} {path : List Name} :
    path ∈ pathsOf (files ++ [file]) ↔ path ∈ pathsOf files ∨ names file = path := by
  unfold pathsOf
  simp only [Set.mem_ofPred_eq, List.mem_append, List.mem_singleton, or_and_right, exists_or,
    exists_eq_left]

theorem shows_concat {files : List (List Char)} {folder : List Name} :
    Folders.Shows (pathsOf (files ++ [file])) folder name ↔
      Folders.Shows (pathsOf files) folder name ∨
        ∃ rest, rest ≠ [] ∧ names file = folder ++ name :: rest := by
  simp only [Folders.Shows, mem_pathsOf_concat, and_or_left, exists_or]

/-- What is shown of the files gone through. -/
structure ShowsFiles (folder : List Name) (files : List (List Char)) (shown : Shown) : Prop where
  nodup : shown.foldersSet.Nodup
  mem_folders : ∀ name, name ∈ shown.foldersSet ↔ Folders.Shows (pathsOf files) folder name
  files_eq : shown.displayedFiles = filesIn folder files

/-- The loop goes through one more file. -/
theorem ShowsFiles.showFile {files : List (List Char)} {shown : Shown}
    (h : ShowsFiles (breadcrumbs folder) files shown) (file : List Char) :
    ShowsFiles (breadcrumbs folder) (files ++ [file]) (showFile folder shown file) := by
  rcases showFile_cases folder shown file with
    ⟨part, rest, hrest, hnames, heq⟩ | ⟨name, hnames, heq⟩ | ⟨hout, heq⟩
  · have hfolder : folderOf file ≠ breadcrumbs folder := by
      intro hfolder
      obtain ⟨name, hname⟩ := folderOf_iff.mp hfolder
      have hcons := List.append_cancel_left (hnames.symm.trans hname)
      exact hrest (List.cons.inj hcons).2
    rw [heq]
    refine ⟨Shown.nodup_addFolder h.nodup part, ?_, ?_⟩
    · intro name
      rw [Shown.mem_addFolder, h.mem_folders, shows_concat]
      refine or_congr_right ⟨?_, ?_⟩
      · rintro rfl
        exact ⟨rest, hrest, hnames⟩
      · rintro ⟨rest', -, hnames'⟩
        have hcons := List.append_cancel_left (hnames.symm.trans hnames')
        exact (List.cons.inj hcons).1.symm
    · rw [Shown.displayedFiles_addFolder, h.files_eq, filesIn_concat_of_ne hfolder]
  · rw [heq]
    refine ⟨h.nodup, ?_, ?_⟩
    · intro part
      rw [h.mem_folders, shows_concat, or_iff_left]
      rintro ⟨rest, hrest, hnames'⟩
      have hcons := List.append_cancel_left (hnames.symm.trans hnames')
      exact hrest (List.cons.inj hcons).2.symm
    · rw [filesIn_concat (folderOf_iff.mpr ⟨name, hnames⟩), h.files_eq]
  · have hfolder : folderOf file ≠ breadcrumbs folder := by
      intro hfolder
      obtain ⟨name, hname⟩ := folderOf_iff.mp hfolder
      exact absurd (hout _ hname) (List.cons_ne_nil _ _)
    rw [heq]
    refine ⟨h.nodup, ?_, ?_⟩
    · intro part
      rw [h.mem_folders, shows_concat, or_iff_left]
      rintro ⟨rest, -, hnames'⟩
      exact absurd (hout _ hnames') (List.cons_ne_nil _ _)
    · rw [h.files_eq, filesIn_concat_of_ne hfolder]

theorem showsFiles_foldl (folder : List Char) (files : List (List Char)) :
    ShowsFiles (breadcrumbs folder) files (files.foldl (showFile folder) ⟨[], []⟩) := by
  induction files using List.reverseRecOn with
  | nil =>
    refine ⟨List.nodup_nil, fun name => ?_, rfl⟩
    simp [Folders.Shows, pathsOf]
  | append_singleton files file ih =>
    rw [List.foldl_concat]
    exact ih.showFile file

variable {page page' : Page}

/-- **A folder shows the files in it**, as often as they are listed. -/
theorem displayedFiles_perm (T : LowerCase) (h : page.isSearching = false) :
    page.displayedFiles T ~
      filesIn (breadcrumbs page.currentFolder) page.normalizedServerFiles := by
  have hshown := showsFiles_foldl page.currentFolder page.normalizedServerFiles
  rw [Page.displayedFiles, h, if_neg (by simp), Page.folderShown, hshown.files_eq]
  exact List.mergeSort_perm _ _

/-- **A folder shows the folders with files below them**, each once. -/
theorem displayedFolders_shows (h : page.isSearching = false) :
    page.displayedFolders.Nodup ∧ ∀ name, name ∈ page.displayedFolders ↔
      Folders.Shows (pathsOf page.normalizedServerFiles) (breadcrumbs page.currentFolder) name := by
  have hshown := showsFiles_foldl page.currentFolder page.normalizedServerFiles
  rw [Page.displayedFolders, h, if_neg (by simp), Page.folderShown]
  refine ⟨(List.mergeSort_perm _ _).nodup_iff.mpr hshown.nodup, ?_⟩
  intro name
  rw [List.mem_mergeSort, hshown.mem_folders]

/-! ## 5. Buttons -/

/-- No path begins with a separator. -/
def Relative (files : List (List Char)) : Prop := ∀ file ∈ files, file.head? ≠ some '/'

theorem slash_notMem_names (h : name ∈ names file) : '/' ∉ name := by
  induction file generalizing name with
  | nil =>
    obtain rfl := List.mem_singleton.mp h
    exact List.not_mem_nil
  | cons c file ih =>
    rw [names, List.splitOn_cons_eq_if_modifyHead] at h
    split at h
    · rcases List.mem_cons.mp h with rfl | h
      · exact List.not_mem_nil
      · exact ih h
    · next hc =>
      obtain ⟨first, rest, hsplit⟩ := List.exists_cons_of_ne_nil (names_ne_nil file)
      rw [← names, hsplit, List.modifyHead_cons] at h
      rw [hsplit] at ih
      rcases List.mem_cons.mp h with rfl | h
      · rw [List.mem_cons, not_or]
        exact ⟨fun heq => hc (beq_iff_eq.mpr heq.symm), ih List.mem_cons_self⟩
      · exact ih (List.mem_cons_of_mem first h)

theorem head?_of_names {rest : List Name} (h : names file = [] :: rest) (hrest : rest ≠ []) :
    file.head? = some '/' := by
  cases file with
  | nil =>
    obtain rfl : [] = rest := (List.cons.inj h).2
    exact absurd rfl hrest
  | cons c file =>
    rw [names, List.splitOn_cons_eq_if_modifyHead] at h
    split at h
    · next hc => rw [List.head?_cons, beq_iff_eq.mp hc]
    · obtain ⟨first, rest', hsplit⟩ := List.exists_cons_of_ne_nil (names_ne_nil file)
      rw [← names, hsplit, List.modifyHead_cons] at h
      exact absurd (List.cons.inj h).1 (List.cons_ne_nil c first)

/-- The text of a folder with files below it has the names of the folder. -/
theorem breadcrumbs_of_below {files : List (List Char)} (hrel : Relative files) {folder : List Name}
    (h : Folders.Below (pathsOf files) folder) :
    breadcrumbs (['/'].intercalate folder) = folder := by
  obtain ⟨rest, hrest, file, hfile, hnames⟩ := h
  refine breadcrumbs_join ?_ ?_
  · intro name hname
    have hmem : name ∈ names file := hnames ▸ List.mem_append_left rest hname
    exact slash_notMem_names hmem
  · intro hhead
    obtain ⟨tail, rfl⟩ := List.head?_eq_some_iff.mp hhead
    refine hrel file hfile (head?_of_names hnames ?_)
    simp [hrest]

theorem join_concat (folder : List Name) (name : Name) (hfolder : folder ≠ []) :
    ['/'].intercalate (folder ++ [name]) = ['/'].intercalate folder ++ '/' :: name := by
  rw [intercalate_append '/' hfolder (List.cons_ne_nil name []), List.intercalate_singleton]

/-- What pressing a folder does to the names of the way to it. -/
theorem folder_pressed {files : List (List Char)} (hrel : Relative files)
    (h : Folders.Shows (pathsOf files) (breadcrumbs folder) name) :
    breadcrumbs (if folder = [] then name else folder ++ '/' :: name) =
      breadcrumbs folder ++ [name] := by
  have hbelow := breadcrumbs_of_below hrel (Folders.shows_iff.mp h)
  by_cases hroot : folder = []
  · subst hroot
    simpa [breadcrumbs] using hbelow
  · have hne : breadcrumbs folder ≠ [] := by
      rw [breadcrumbs, if_neg hroot]
      exact List.splitOn_ne_nil '/' folder
    rw [join_concat _ _ hne] at hbelow
    rw [if_neg hroot]
    have hfolder : ['/'].intercalate (breadcrumbs folder) = folder := by
      rw [breadcrumbs, if_neg hroot, List.intercalate_splitOn]
    rwa [hfolder] at hbelow

/-- The answers within a run all have the same files. -/
def Relists (files : List (List Char)) (_ : Page) : Act → Prop
  | .answered answered => answered = files
  | _ => True

/-- Where a button leads. -/
inductive Pressed (page : Page) : List Char → Prop
  | root : Pressed page []
  | crumb (idx : Nat) : idx < (breadcrumbs page.currentFolder).length →
      Pressed page (['/'].intercalate ((breadcrumbs page.currentFolder).take (idx + 1)))
  | folder (name : Name) : name ∈ page.displayedFolders →
      Pressed page (if page.currentFolder = [] then name else page.currentFolder ++ '/' :: name)

/-- What an act does. -/
theorem step_cases {act : Act} (h : step page act = some page') :
    (∃ files, act = .answered files ∧ page' = answer page files) ∨
      (∃ query, page' = { page with searchQuery := query }) ∨
      ∃ folder, page' = { page with currentFolder := folder } ∧ page.isSearching = false ∧
        Pressed page folder := by
  cases act with
  | answered files => exact .inl ⟨files, rfl, (Option.some.inj h).symm⟩
  | search query => exact .inr (.inl ⟨query, (Option.some.inj h).symm⟩)
  | root =>
    simp only [step] at h
    split at h
    · cases h
    · next hsearch =>
      exact .inr (.inr ⟨[], (Option.some.inj h).symm, by simpa using hsearch, .root⟩)
  | crumb idx =>
    simp only [step] at h
    split at h
    · cases h
    · next hidx =>
      rw [not_or, Nat.not_le] at hidx
      exact .inr (.inr ⟨_, (Option.some.inj h).symm, by simpa using hidx.1, .crumb idx hidx.2⟩)
  | folder name =>
    simp only [step] at h
    split at h
    · next hname =>
      have hsearch : page.isSearching = false := by
        by_contra hsearch
        rw [Page.displayedFolders, if_pos (by simpa using hsearch)] at hname
        exact absurd hname List.not_mem_nil
      exact .inr (.inr ⟨_, (Option.some.inj h).symm, hsearch, .folder name hname⟩)
    · cases h

/-- The page opens somewhere with the first list that is not empty. -/
def Opened (page : Page) : Prop := page.initializedFolder = true ∨ page.serverFiles = []

theorem Opened.step (h : Opened page) {act : Act} (hstep : step page act = some page') :
    Opened page' := by
  rcases step_cases hstep with ⟨files, -, rfl⟩ | ⟨query, rfl⟩ | ⟨folder, rfl, -, -⟩
  · unfold answer
    split
    · exact .inl rfl
    · next hnot =>
      by_cases hinit : page.initializedFolder = true
      · exact .inl hinit
      · exact .inr (not_not.mp fun hne => hnot ⟨by simpa using hinit, hne⟩)
  · exact h
  · exact h

theorem serverFiles_answer (page : Page) (files : List (List Char)) :
    (answer page files).serverFiles = files := by
  unfold answer
  split <;> rfl

/-- A list that is given again changes nothing. -/
theorem answer_again (h : Opened page) : answer page page.serverFiles = page := by
  unfold answer
  rw [if_neg]
  rintro ⟨hinit, hne⟩
  rcases h with hopened | hempty
  · exact absurd hopened (by simp [hinit])
  · exact hne hempty

/-- A button leads a step over the folders. -/
theorem Pressed.step (hrel : Relative page.normalizedServerFiles)
    (hsearch : page.isSearching = false)
    (hfolder : breadcrumbs page.currentFolder = [] ∨
      Folders.Below (pathsOf page.normalizedServerFiles) (breadcrumbs page.currentFolder))
    (h : Pressed page folder) :
    Folders.Step (pathsOf page.normalizedServerFiles) (breadcrumbs page.currentFolder)
      (breadcrumbs folder) := by
  cases h with
  | root => exact .root _
  | crumb idx hidx =>
    have hstep : Folders.Step (pathsOf page.normalizedServerFiles) (breadcrumbs page.currentFolder)
        ((breadcrumbs page.currentFolder).take (idx + 1)) := .up _ _
    rcases hstep.below hfolder with hnil | hbelow
    · rw [hnil]
      exact .root _
    · rwa [breadcrumbs_of_below hrel hbelow]
  | folder name hname =>
    have hshows := ((displayedFolders_shows hsearch).2 name).mp hname
    rw [folder_pressed hrel hshows]
    exact .down hshows

/-! ## 6. Walks -/

/-- The page once its search is empty and Root has been pressed. -/
def atRoot (page : Page) : Page := { page with searchQuery := [], currentFolder := [] }

theorem exec_atRoot (page : Page) (more : List Act) :
    exec step page (.search [] :: .root :: more) = exec step (atRoot page) more := rfl

/-- A page on which the buttons have led from the root to where it is. -/
structure Inside (files : List (List Char)) (page : Page) : Prop where
  files_eq : page.serverFiles = files
  opened : Opened page
  reached : ReflTransGen (Folders.Step (pathsOf (files.map normalised))) []
    (breadcrumbs page.currentFolder)

theorem Inside.step {files : List (List Char)} (hrel : Relative (files.map normalised))
    (h : Inside files page) {act : Act} (hact : Relists files page act)
    (hstep : step page act = some page') : Inside files page' := by
  have hopened := h.opened.step hstep
  obtain rfl := h.files_eq
  rcases step_cases hstep with ⟨files, rfl, rfl⟩ | ⟨query, rfl⟩ | ⟨folder, rfl, hsearch, hpressed⟩
  · obtain rfl : files = page.serverFiles := hact
    rwa [answer_again h.opened]
  · exact ⟨rfl, hopened, h.reached⟩
  · have hover := hpressed.step hrel hsearch (Folders.reaches_iff.mp h.reached)
    exact ⟨rfl, hopened, h.reached.tail hover⟩

/-- Pressing the folders of a way one after the other. -/
theorem exec_folders (hrel : Relative page.normalizedServerFiles) {folder : List Name}
    (h : folder = [] ∨ Folders.Below (pathsOf page.normalizedServerFiles) folder) :
    exec step (atRoot page) (folder.map Act.folder) =
      some { atRoot page with currentFolder := ['/'].intercalate folder } := by
  induction folder using List.reverseRecOn with
  | nil => rfl
  | append_singleton folder name ih =>
    have hbelow : Folders.Below (pathsOf page.normalizedServerFiles) (folder ++ [name]) :=
      h.resolve_left (by simp)
    have hupto : folder = [] ∨ Folders.Below (pathsOf page.normalizedServerFiles) folder :=
      .inr (hbelow.of_prefix (List.prefix_append folder [name]))
    have hcrumbs : breadcrumbs (['/'].intercalate folder) = folder :=
      breadcrumbs_of_below hrel (hbelow.of_prefix (List.prefix_append folder [name]))
    have hshown : name ∈
        Page.displayedFolders { atRoot page with currentFolder := ['/'].intercalate folder } := by
      refine ((displayedFolders_shows rfl).2 name).mpr ?_
      rw [hcrumbs]
      exact Folders.shows_iff.mpr hbelow
    have hjoin : (if ['/'].intercalate folder = [] then name
        else ['/'].intercalate folder ++ '/' :: name) = ['/'].intercalate (folder ++ [name]) := by
      by_cases hfolder : folder = []
      · subst hfolder
        simp
      · rw [join_concat folder name hfolder, if_neg]
        intro hempty
        rw [hempty] at hcrumbs
        exact hfolder hcrumbs.symm
    rw [List.map_append, exec_append]
    refine ⟨_, ih hupto, ?_⟩
    rw [List.map_singleton, exec_cons]
    refine ⟨_, if_pos hshown, ?_⟩
    rw [← hjoin]
    rfl

theorem Inside.atRoot (h : Opened page) : Inside page.serverFiles (atRoot page) :=
  ⟨rfl, h, .refl⟩

theorem opened_of_run {acts : List Act} (h : Run step Always start acts page) : Opened page :=
  h.invariant (.inr rfl) fun _ _ _ hopened _ hstep => hopened.step hstep

/-- **Walking over the folders.**  From the root the buttons lead to exactly the folders that have
files below them, whatever has happened on the page before.  Wherever they lead, the files in the
folder are shown, and each folder with files below it once, so that every file below the folder is
in it or behind one of the folders shown. -/
theorem folders_exact {acts : List Act} (hrun : Run step Always start acts page)
    (hrel : Relative page.normalizedServerFiles) :
    (∀ folder : List Name,
      (∃ more page', Run step (Relists page.serverFiles) (atRoot page) more page' ∧
        breadcrumbs page'.currentFolder = folder) ↔
      folder = [] ∨ ∃ file ∈ page.normalizedServerFiles, ∃ rest, rest ≠ [] ∧
        names file = folder ++ rest) ∧
    ∀ (T : LowerCase) more page', Run step (Relists page.serverFiles) (atRoot page) more page' →
      page'.isSearching = false →
      page'.displayedFiles T ~
        page.normalizedServerFiles.filter (folderOf · = breadcrumbs page'.currentFolder) ∧
      page'.displayedFolders.Nodup ∧
      ∀ file ∈ page.normalizedServerFiles, breadcrumbs page'.currentFolder <+: names file →
        names file ≠ breadcrumbs page'.currentFolder →
        file ∈ page'.displayedFiles T ∨
          ∃! name, name ∈ page'.displayedFolders ∧
            breadcrumbs page'.currentFolder ++ [name] <+: names file := by
  have hinside {more : List Act} {page' : Page}
      (hmore : Run step (Relists page.serverFiles) (atRoot page) more page') :
      Inside page.serverFiles page' :=
    hmore.invariant (Inside.atRoot (opened_of_run hrun)) fun _ _ _ h hact => h.step hrel hact
  have hbelow (folder : List Name) : Folders.Below (pathsOf page.normalizedServerFiles) folder ↔
      ∃ file ∈ page.normalizedServerFiles, ∃ rest, rest ≠ [] ∧ names file = folder ++ rest := by
    unfold Folders.Below pathsOf
    simp only [Set.mem_ofPred_eq]
    constructor
    · rintro ⟨rest, hrest, file, hfile, hnames⟩
      exact ⟨file, hfile, rest, hrest, hnames⟩
    · rintro ⟨file, hfile, rest, hrest, hnames⟩
      exact ⟨rest, hrest, file, hfile, hnames⟩
  constructor
  · intro folder
    rw [← hbelow]
    constructor
    · rintro ⟨more, page', hmore, rfl⟩
      exact Folders.reaches_iff.mp (hinside hmore).reached
    · intro hfolder
      refine ⟨folder.map Act.folder, _, run_of_exec ?_ (exec_folders hrel hfolder), ?_⟩
      · intro act hact other
        obtain ⟨name, -, rfl⟩ := List.mem_map.mp hact
        trivial
      · rcases hfolder with rfl | hfolder
        · rfl
        · exact breadcrumbs_of_below hrel hfolder
  · intro T more page' hmore hsearch
    have hfiles : page'.normalizedServerFiles = page.normalizedServerFiles :=
      congrArg (List.map normalised) (hinside hmore).files_eq
    have hdisplayed := displayedFiles_perm T hsearch
    obtain ⟨hnodup, hshows⟩ := displayedFolders_shows hsearch
    rw [hfiles] at hdisplayed hshows
    refine ⟨hdisplayed, hnodup, ?_⟩
    intro file hfile hbelow hne
    have hpath : names file ∈ pathsOf page.normalizedServerFiles := ⟨file, hfile, rfl⟩
    rcases Folders.below_cases hpath hne hbelow with hname | ⟨name, hname, hprefix⟩
    · refine .inl (hdisplayed.mem_iff.mpr (List.mem_filter.mpr ⟨hfile, ?_⟩))
      exact decide_eq_true (folderOf_iff.mpr hname)
    · refine .inr ⟨name, ⟨(hshows name).mpr hname, hprefix⟩, ?_⟩
      rintro name' ⟨-, hprefix'⟩
      exact Folders.shown_unique hprefix' hprefix

/-- Missions on three levels. -/
def nestedFiles : List (List Char) :=
  ["Day.miz".toList, "Old/Coop.miz".toList, "Old/Deep/Night.miz".toList]

/-- The page after the button of the folder is pressed. -/
def inOld : Page := { atRoot (answer start nestedFiles) with currentFolder := "Old".toList }

/-- The folder `Old` shows its one file, and the other file below it is behind one of its folders. -/
theorem folders_exact_nested :
    (∃ more page', Run step (Relists nestedFiles) (atRoot (answer start nestedFiles)) more page' ∧
      breadcrumbs page'.currentFolder = ["Old".toList, "Deep".toList]) ∧
    Run step (Relists nestedFiles) (atRoot (answer start nestedFiles))
      [.folder "Old".toList] inOld ∧
    inOld.displayedFiles Foothold.plainLowerCase ~ ["Old/Coop.miz".toList] ∧
    inOld.displayedFolders.Nodup ∧
    ∃! name, name ∈ inOld.displayedFolders ∧
      ["Old".toList] ++ [name] <+: names "Old/Deep/Night.miz".toList := by
  have hrun : Run step Always start [.answered nestedFiles] (answer start nestedFiles) :=
    Run.single trivial rfl
  have hserver : (answer start nestedFiles).normalizedServerFiles = nestedFiles := by decide
  have hrel : Relative (answer start nestedFiles).normalizedServerFiles := by
    intro file hfile
    rw [hserver] at hfile
    rcases List.mem_cons.mp hfile with rfl | hfile
    · decide
    rcases List.mem_cons.mp hfile with rfl | hfile
    · decide
    obtain rfl := List.mem_singleton.mp hfile
    decide
  obtain ⟨hreached, hshown⟩ := folders_exact hrun hrel
  have hfolder : Folders.Below (pathsOf (answer start nestedFiles).normalizedServerFiles)
      ["Old".toList] :=
    ⟨["Coop.miz".toList], by decide, "Old/Coop.miz".toList, by decide, by decide⟩
  have hexec : exec step (atRoot (answer start nestedFiles)) [.folder "Old".toList] = some inOld :=
    exec_folders hrel (.inr hfolder)
  have hold : Run step (Relists nestedFiles) (atRoot (answer start nestedFiles))
      [.folder "Old".toList] inOld :=
    run_of_exec (fun act hact _ => List.mem_singleton.mp hact ▸ trivial) hexec
  obtain ⟨hfiles, hfolders, hbelow⟩ := hshown Foothold.plainLowerCase _ _ hold (by decide)
  refine ⟨(hreached _).mpr (.inr ?_), hold, ?_, hfolders, ?_⟩
  · exact ⟨"Old/Deep/Night.miz".toList, by decide, ["Night.miz".toList], by decide, by decide⟩
  · exact hfiles
  · exact (hbelow "Old/Deep/Night.miz".toList (by decide) (by decide) (by decide)).resolve_left
      fun hfile => absurd (hfiles.mem_iff.mp hfile) (by decide)

/-! ## 7. The missions of the server -/

variable {fold : Char → Char} {fs : Fs fold FileData} {denied : Place → Bool} {root : Place}
  {f : Found FileData}

theorem normalised_relText (hf : ∀ name ∈ f.names, ValidName name) :
    normalised (relText f.names) = relText f.names :=
  normalised_eq_self (backslash_notMem_relText hf)

theorem names_relText (h : Listed missionFilter fs denied root f) :
    names (relText f.names) = f.names := by
  have hne : f.names ≠ [] := by
    obtain ⟨c, dir, name, node, -, -, -, hnames, -⟩ := h
    simp [hnames]
  rw [relText_eq h.valid, names, List.splitOn_intercalate '/' ?_ hne]
  exact fun name hname hslash => ((h.valid name hname).inside _ hslash).1 rfl

theorem relative_missionBrowse (hfiles : page.serverFiles = missionBrowse fs denied root) :
    Relative page.normalizedServerFiles := by
  intro file hfile hhead
  rw [Page.normalizedServerFiles, hfiles] at hfile
  obtain ⟨path, hpath, rfl⟩ := List.mem_map.mp hfile
  obtain ⟨f, hf, rfl, -⟩ := mem_missionBrowse.mp hpath
  rw [normalised_relText hf.valid, relText_eq hf.valid, head?_intercalate hf.valid] at hhead
  obtain ⟨name, hname, hslash⟩ := Option.bind_eq_some_iff.mp hhead
  have hvalid := hf.valid name (List.mem_of_mem_head? hname)
  exact (hvalid.inside '/' (List.mem_of_mem_head? hslash)).1 rfl

theorem mem_normalizedServerFiles (hfiles : page.serverFiles = missionBrowse fs denied root)
    (hf : Listed missionFilter fs denied root f)
    (huploads : ¬ "Missions/Uploads".toList <:+: relText f.names) :
    relText f.names ∈ page.normalizedServerFiles := by
  rw [Page.normalizedServerFiles, hfiles]
  refine List.mem_map.mpr ⟨_, mem_missionBrowse.mpr ⟨f, hf, rfl, huploads⟩, ?_⟩
  exact normalised_relText hf.valid

/-- Where a mission is shown. -/
theorem shown_iff (T : LowerCase) (hfiles : page.serverFiles = missionBrowse fs denied root)
    (hf : Listed missionFilter fs denied root f)
    (huploads : ¬ "Missions/Uploads".toList <:+: relText f.names)
    (hsearch : page.isSearching = false) :
    relText f.names ∈ page.displayedFiles T ↔
      breadcrumbs page.currentFolder = f.names.dropLast := by
  rw [(displayedFiles_perm T hsearch).mem_iff, filesIn, List.mem_filter, decide_eq_true_iff,
    folderOf, names_relText hf]
  constructor
  · rintro ⟨-, h⟩
    exact h.symm
  · intro h
    exact ⟨mem_normalizedServerFiles hfiles hf huploads, h.symm⟩

/-- **Every mission is found.**  While the page has the list of the server, a mission in it is shown
in the folder of its directories, in no other, and that folder is reached from any page by emptying
the search, pressing Root and then at most three folders. -/
theorem mission_found (T : LowerCase) (hfiles : page.serverFiles = missionBrowse fs denied root)
    (hf : Listed missionFilter fs denied root f)
    (huploads : ¬ "Missions/Uploads".toList <:+: relText f.names) :
    ∃ page', exec step page (.search [] :: .root :: f.names.dropLast.map Act.folder) = some page' ∧
      breadcrumbs page'.currentFolder = f.names.dropLast ∧
      relText f.names ∈ page'.displayedFiles T ∧ f.names.dropLast.length ≤ 3 ∧
      ∀ other : Page, other.serverFiles = missionBrowse fs denied root →
        other.isSearching = false →
        (relText f.names ∈ other.displayedFiles T ↔
          breadcrumbs other.currentFolder = f.names.dropLast) := by
  have hrel := relative_missionBrowse hfiles
  obtain ⟨c, dir, name, node, -, -, hdepth, hnames, -⟩ := id hf
  have hdir : f.names.dropLast = dir := by rw [hnames, List.dropLast_concat]
  rw [hdir]
  have hbelow : Folders.Below (pathsOf page.normalizedServerFiles) dir := by
    refine ⟨[name], by simp, relText f.names, mem_normalizedServerFiles hfiles hf huploads, ?_⟩
    rw [names_relText hf, hnames]
  set page' : Page := { atRoot page with currentFolder := ['/'].intercalate dir } with hpage'
  have hcrumbs : breadcrumbs page'.currentFolder = dir := breadcrumbs_of_below hrel hbelow
  have hsearch : page'.isSearching = false := rfl
  have hfiles' : page'.serverFiles = missionBrowse fs denied root := hfiles
  refine ⟨page', ?_, hcrumbs, ?_, hdepth, ?_⟩
  · rw [exec_atRoot]
    exact exec_folders hrel (.inr hbelow)
  · rw [shown_iff T hfiles' hf huploads hsearch, hdir]
    exact hcrumbs
  · intro other hother hsearch
    rw [shown_iff T hother hf huploads hsearch, hdir]

/-- A directory with one name. -/
def oneName (name : Name) (h : ValidName name) : Names id :=
  ⟨[name], List.nodup_singleton _, fun _ hn => List.mem_singleton.mp hn ▸ h⟩

/-- A drive with a mission in a directory of its own. -/
def nestedDrive : Fs id FileData where
  names := oneName "Missions".toList (by decide)
  child _ := .dir (oneName "Old".toList (by decide)) fun _ =>
    .dir (oneName "Coop.miz".toList (by decide)) fun _ => .file ⟨[80, 75], some 7⟩

def oldCoop : Found FileData := ⟨["Old".toList, "Coop.miz".toList], ⟨[80, 75], some 7⟩⟩

theorem oldCoop_listed :
    Listed missionFilter nestedDrive (fun _ => false) ["Missions".toList] oldCoop := by
  have hskips : ∀ name ∈ ["Old".toList], missionFilter.skips name = false := by decide
  exact ⟨["Missions".toList], ["Old".toList], "Coop.miz".toList, .file oldCoop.data, rfl,
    ⟨⟨_, _, rfl⟩, hskips, by simp⟩, by simp [maxDepth], rfl, by decide, rfl, rfl⟩

/-- The page when it has opened on that drive. -/
def opened : Page := answer start (missionBrowse nestedDrive (fun _ => false) ["Missions".toList])

theorem mission_found_oldCoop :
    ∃ page', exec step opened [.search [], .root, .folder "Old".toList] = some page' ∧
      "Old/Coop.miz".toList ∈ page'.displayedFiles Foothold.plainLowerCase := by
  obtain ⟨page', hexec, -, hshown, -⟩ := mission_found Foothold.plainLowerCase
    (serverFiles_answer start _) oldCoop_listed (by decide)
  exact ⟨page', hexec, hshown⟩

end DcsDashboard.Downloads.MissionPage
