/-
# Writing files

What writing a file and making a directory do to a tree of files.  Both put something under a name
in a directory (`Fs.put`): a file that is there is replaced, and a name that is not there is added
as it is spelled.  A link on the way is followed.

A tree GROWS when directories gain names, files change what is in them, and nothing else happens:
what a path meant, it still means (`Grows.canonicalize`).  Putting a file under a name that is new
or that of a file lets the tree grow (`put_grows`), so does writing a file into a directory of files
(`writeFile_into`), and a directory that is made is there and empty (`createDirAll_new`).
-/
import DcsDashboard.Lib.FileTree

namespace DcsDashboard.Lib.FileTree

variable {fold : Char → Char} {μ : Type}

/-! ## 1. Putting something under a name -/

/-- A name is added unless the directory has it or cannot hold it. -/
def Names.insert (names : Names fold) (name : Name) : Names fold :=
  if h : names.find name = none ∧ ValidName name then
    { list := names.list ++ [name]
      distinct := by
        rw [List.map_append, List.nodup_append]
        refine ⟨names.distinct, by simp, ?_⟩
        rintro a ha b hb rfl
        obtain ⟨n, hn, rfl⟩ := List.mem_map.mp ha
        have hnone := List.find?_eq_none.mp h.1 n hn
        exact hnone (decide_eq_true (by simpa using hb))
      valid := by
        intro n hn
        rcases List.mem_append.mp hn with hn | hn
        · exact names.valid n hn
        · exact List.mem_singleton.mp hn ▸ h.2 }
  else names

/-- Puts something under a name in the directory that a place leads to. -/
def Node.put : Node fold μ → Place → Name → Node fold μ → Node fold μ
  | .dir names child, [], name, new =>
    .dir (names.insert name) fun n => if n = name then new else child n
  | .dir names child, n :: place, name, new =>
    .dir names fun m => if m = n then (child n).put place name new else child m
  | node, _, _, _ => node

def Fs.put (fs : Fs fold μ) (place : Place) (name : Name) (new : Node fold μ) : Fs fold μ :=
  match place with
  | [] => ⟨fs.names.insert name, fun n => if n = name then new else fs.child n⟩
  | n :: rest => ⟨fs.names, fun m => if m = n then (fs.child n).put rest name new else fs.child m⟩

theorem Fs.top_put (fs : Fs fold μ) (place : Place) (name : Name) (new : Node fold μ) :
    (fs.put place name new).top = fs.top.put place name new := by
  cases place <;> rfl

/-- `File::create` and writing to it; `false` if there is no file to write to. -/
def writeFile (fs : Fs fold μ) (dir : List Name) (name : Name) (data : μ) : Fs fold μ × Bool :=
  match canonicalize fs (dir ++ [name]) with
  | some place =>
    match fs.get place with
    | some (.file _) => (fs.put place.dropLast (place.getLast?.getD []) (.file data), true)
    | _ => (fs, false)
  | none =>
    match (canonicalize fs dir).map fun place => (place, fs.get place) with
    | some (place, some (.dir names _)) =>
      if names.find name = none ∧ ValidName name then (fs.put place name (.file data), true)
      else (fs, false)
    | _ => (fs, false)

def Names.empty : Names fold := ⟨[], List.nodup_nil, fun _ hn => absurd hn List.not_mem_nil⟩

/-- A directory with nothing in it; the data is not looked at. -/
def emptyDir (filler : μ) : Node fold μ := .dir .empty fun _ => .file filler

/-- `fs::create_dir`. -/
def createDir (filler : μ) (fs : Fs fold μ) (dir : List Name) (name : Name) : Fs fold μ × Bool :=
  match (canonicalize fs dir).map fun place => (place, fs.get place) with
  | some (place, some (.dir names _)) =>
    if names.find name = none ∧ ValidName name then (fs.put place name (emptyDir filler), true)
    else (fs, false)
  | _ => (fs, false)

/-- `Path::is_dir`. -/
def isDir (fs : Fs fold μ) (path : List Name) : Bool :=
  match lookup fs path with
  | some (.dir _ _) => true
  | _ => false

/-- `fs::create_dir_all`, below a directory that is there. -/
def createDirAll (filler : μ) : Fs fold μ → List Name → List Name → Fs fold μ × Bool
  | fs, _, [] => (fs, true)
  | fs, dir, name :: rest =>
    if isDir fs (dir ++ [name]) then createDirAll filler fs (dir ++ [name]) rest
    else
      match createDir filler fs dir name with
      | (fs', true) => createDirAll filler fs' (dir ++ [name]) rest
      | (fs', false) => (fs', false)

/-! ## 2. What is there afterwards -/

theorem Names.mem_of_find_self {names : Names fold} {name : Name}
    (h : names.find name = some name) : name ∈ names.list :=
  (Names.mem_of_find h).1

theorem Names.insert_of_find {names : Names fold} {name n : Name} (h : names.find name = some n) :
    names.insert name = names := by
  rw [Names.insert, dif_neg]
  rintro ⟨hnone, -⟩
  rw [h] at hnone
  cases hnone

theorem Names.list_insert {names : Names fold} {name : Name} (h : names.find name = none)
    (hvalid : ValidName name) : (names.insert name).list = names.list ++ [name] := by
  rw [Names.insert, dif_pos ⟨h, hvalid⟩]

/-- What was found is found as before. -/
theorem Names.find_insert {names : Names fold} {name n : Name} (h : names.find name = some n)
    (name' : Name) : (names.insert name').find name = some n := by
  by_cases hnew : names.find name' = none ∧ ValidName name'
  · rw [Names.find, Names.list_insert hnew.1 hnew.2, List.find?_append]
    exact congrArg (Option.or · _) h
  · rwa [Names.insert, dif_neg hnew]

/-- The directory that something is put in. -/
theorem Node.get_put {node : Node fold μ} {place : Place} {names : Names fold}
    {child : Name → Node fold μ} (h : node.get place = some (.dir names child)) (name : Name)
    (new : Node fold μ) :
    (node.put place name new).get place =
      some (.dir (names.insert name) fun n => if n = name then new else child n) := by
  induction place generalizing node with
  | nil =>
    obtain rfl : node = .dir names child := by simpa [Node.get] using h
    rfl
  | cons n place ih =>
    cases node with
    | file data => simp [Node.get] at h
    | link data target => simp [Node.get] at h
    | dir names' child' =>
      by_cases hn : n ∈ names'.list
      · rw [Node.get, if_pos hn] at h
        rw [Node.put, Node.get, if_pos hn, if_pos rfl, ih h]
      · rw [Node.get, if_neg hn] at h
        cases h

theorem Fs.get_put {fs : Fs fold μ} {place : Place} {names : Names fold}
    {child : Name → Node fold μ} (h : fs.get place = some (.dir names child)) (name : Name)
    (new : Node fold μ) :
    (fs.put place name new).get place =
      some (.dir (names.insert name) fun n => if n = name then new else child n) := by
  rw [Fs.get, Fs.top_put]
  exact Node.get_put h name new

/-! ## 3. Trees that grow -/

/-- Directories gain names, files change what is in them, and nothing else happens. -/
inductive Grows : Node fold μ → Node fold μ → Prop
  | file (data data' : μ) : Grows (.file data) (.file data')
  | link (data : μ) (target : Place) : Grows (.link data target) (.link data target)
  | dir {names names' : Names fold} {child child' : Name → Node fold μ} :
      (∀ name n, names.find name = some n → names'.find name = some n) →
      (∀ n ∈ names.list, Grows (child n) (child' n)) →
      Grows (.dir names child) (.dir names' child')

theorem Grows.refl (node : Node fold μ) : Grows node node := by
  induction node with
  | file data => exact .file data data
  | link data target => exact .link data target
  | dir names child ih => exact .dir (fun _ _ h => h) fun n _ => ih n

/-- What stands at a place grows with the tree. -/
theorem Grows.get {node node' : Node fold μ} (h : Grows node node') {place : Place}
    {below : Node fold μ} (hget : node.get place = some below) :
    ∃ below', node'.get place = some below' ∧ Grows below below' := by
  induction place generalizing node node' with
  | nil =>
    obtain rfl : node = below := by simpa [Node.get] using hget
    exact ⟨node', by cases node' <;> rfl, h⟩
  | cons n place ih =>
    cases h with
    | file data data' => simp [Node.get] at hget
    | link data target => simp [Node.get] at hget
    | @dir names names' child child' hfind hchild =>
      by_cases hn : n ∈ names.list
      · rw [Node.get, if_pos hn] at hget
        have hn' : n ∈ names'.list := Names.mem_of_find_self (hfind n n (names.find_self hn))
        rw [Node.get, if_pos hn']
        exact ih (hchild n hn) hget
      · rw [Node.get, if_neg hn] at hget
        cases hget

/-- Something can be put under a name without taking anything away. -/
def Fits (names : Names fold) (child : Name → Node fold μ) (name : Name) (new : Node fold μ) :
    Prop :=
  name ∈ names.list → Grows (child name) new

theorem put_grows {node : Node fold μ} {place : Place} {names : Names fold}
    {child : Name → Node fold μ} (h : node.get place = some (.dir names child)) {name : Name}
    {new : Node fold μ} (hfits : Fits names child name new) :
    Grows node (node.put place name new) := by
  induction place generalizing node with
  | nil =>
    obtain rfl : node = .dir names child := by simpa [Node.get] using h
    refine .dir (fun _ _ hn => Names.find_insert hn name) fun n hn => ?_
    split
    · next heq => exact heq ▸ hfits (heq ▸ hn)
    · exact .refl _
  | cons n place ih =>
    cases node with
    | file data => simp [Node.get] at h
    | link data target => simp [Node.get] at h
    | dir names' child' =>
      by_cases hn : n ∈ names'.list
      · rw [Node.get, if_pos hn] at h
        refine .dir (fun _ _ hn => hn) fun m hm => ?_
        split
        · next heq =>
          subst heq
          exact ih h
        · exact .refl _
      · rw [Node.get, if_neg hn] at h
        cases h

variable {fs fs' : Fs fold μ}

/-- Following names goes as before. -/
theorem Grows.follow (h : Grows fs.top fs'.top) {startOver startOver' : Place → Option Place}
    (hstart : ∀ path place, startOver path = some place → startOver' path = some place)
    {p place : Place} {path : List Name} (hpath : follow fs startOver p path = some place) :
    follow fs' startOver' p path = some place := by
  induction path generalizing p with
  | nil => simpa [FileTree.follow] using hpath
  | cons name path ih =>
    unfold FileTree.follow at hpath ⊢
    cases hdir : fs.get p with
    | none => simp [hdir] at hpath
    | some above =>
      obtain ⟨above', hdir', hgrows⟩ := h.get hdir
      rw [show fs'.get p = some above' from hdir']
      cases hgrows with
      | file data data' => simp [hdir] at hpath
      | link data target => simp [hdir] at hpath
      | @dir names names' child child' hfind hchild =>
        simp only [hdir] at hpath ⊢
        obtain ⟨n, hn, hpath⟩ := Option.bind_eq_some_iff.mp hpath
        rw [hfind name n hn, Option.bind_some]
        have hbelow := hchild n (Names.mem_of_find hn).1
        generalize child n = below at hpath hbelow
        generalize child' n = below' at hbelow ⊢
        cases hbelow with
        | file data data' => exact ih hpath
        | link data target => exact hstart _ _ hpath
        | dir _ _ => exact ih hpath

/-- **What a path meant, it still means.** -/
theorem Grows.canonicalize (h : Grows fs.top fs'.top) {path : List Name} {place : Place}
    (hpath : canonicalize fs path = some place) :
    FileTree.canonicalize fs' path = some place := by
  have hresolve (links : Nat) : ∀ path place, resolve fs links path = some place →
      resolve fs' links path = some place := by
    induction links with
    | zero => exact fun path place hpath => h.follow (by simp) hpath
    | succ links ih => exact fun path place hpath => h.follow ih hpath
  exact hresolve linkLimit path place hpath

/-! ## 4. What the operations do -/

variable {dir : List Name} {c : Place} {names : Names fold} {child : Name → Node fold μ}
  {name n : Name}

/-- A name that a directory does not have leads nowhere. -/
theorem follow_missing (h : fs.get c = some (.dir names child)) (hn : names.find name = none)
    (startOver : Place → Option Place) (rest : List Name) :
    follow fs startOver c (name :: rest) = none := by
  rw [FileTree.follow, h]
  simp only [hn, Option.bind_none]

/-- A name leads to what the directory has under it. -/
theorem follow_single (h : fs.get c = some (.dir names child)) (hn : names.find name = some n)
    (hlink : (child n).isLink = false) (startOver : Place → Option Place) :
    follow fs startOver c [name] = some (c ++ [n]) := by
  rw [follow_cons h hn hlink, FileTree.follow]

/-- A name is found however it is spelled. -/
theorem Names.find_same (hn : n ∈ names.list) (hsame : n.map fold = name.map fold) :
    names.find name = some n := by
  rw [Names.find, ← hsame]
  exact names.find_self hn

/-- A step to what stands below a place. -/
theorem follow_below {node : Node fold μ} (hget : fs.get (c ++ [n]) = some node)
    (hlink : node.isLink = false) (hsame : n.map fold = name.map fold)
    (startOver : Place → Option Place) (rest : List Name) :
    follow fs startOver c (name :: rest) = follow fs startOver (c ++ [n]) rest := by
  obtain ⟨names, child, hdir, hn, hchild⟩ := Fs.dir_of_get hget
  obtain rfl : child n = node := by simpa [Node.get] using hchild
  exact follow_cons hdir (Names.find_same hn hsame) hlink rest

theorem writeFile_new (hdir : canonicalize fs dir = some c)
    (hget : fs.get c = some (.dir names child)) (hn : names.find name = none)
    (hvalid : ValidName name) (data : μ) :
    writeFile fs dir name data = (fs.put c name (.file data), true) := by
  have hpath : canonicalize fs (dir ++ [name]) = none :=
    canonicalize_on hdir fun startOver => follow_missing hget hn startOver []
  simp only [writeFile, hpath, hdir, Option.map_some, hget]
  rw [if_pos ⟨hn, hvalid⟩]

theorem writeFile_old (hdir : canonicalize fs dir = some c)
    (hget : fs.get c = some (.dir names child)) (hn : names.find name = some n) {old : μ}
    (hfile : child n = .file old) (data : μ) :
    writeFile fs dir name data = (fs.put c n (.file data), true) := by
  have hpath : canonicalize fs (dir ++ [name]) = some (c ++ [n]) :=
    canonicalize_on hdir fun startOver => follow_single hget hn (by rw [hfile]; rfl) startOver
  have hold : fs.get (c ++ [n]) = some (.file old) := by
    rw [Fs.get_snoc hget (Names.mem_of_find hn).1, hfile]
  simp only [writeFile, hpath, hold]
  rw [List.dropLast_concat, List.getLast?_concat]
  rfl

/-- **Writing a file** into a directory that has only files: the tree grows, and the file is there
under the name it had, or under its own. -/
theorem writeFile_into (hdir : canonicalize fs dir = some c)
    (hget : fs.get c = some (.dir names child))
    (hfiles : ∀ n ∈ names.list, ∃ old, child n = .file old) (hvalid : ValidName name) (data : μ) :
    ∃ n, (names.find name = some n ∨ names.find name = none ∧ n = name) ∧
      writeFile fs dir name data = (fs.put c n (.file data), true) ∧
      Grows fs.top (fs.put c n (.file data)).top := by
  cases hn : names.find name with
  | none =>
    refine ⟨name, .inr ⟨rfl, rfl⟩, writeFile_new hdir hget hn hvalid data, ?_⟩
    rw [Fs.top_put]
    refine put_grows hget ?_
    intro hmem
    rw [names.find_self hmem] at hn
    cases hn
  | some n =>
    obtain ⟨old, hfile⟩ := hfiles n (Names.mem_of_find hn).1
    refine ⟨n, .inl rfl, writeFile_old hdir hget hn hfile data, ?_⟩
    rw [Fs.top_put]
    exact put_grows hget fun _ => hfile ▸ .file old data

/-- The path leads to a directory without such a name. -/
def Lacks (fs : Fs fold μ) (dir : List Name) (name : Name) : Prop :=
  ∃ c names child, canonicalize fs dir = some c ∧ fs.get c = some (.dir names child) ∧
    names.find name = none

/-- A path goes nowhere from there. -/
theorem Lacks.canonicalize (h : Lacks fs dir name) (rest : List Name) :
    FileTree.canonicalize fs (dir ++ name :: rest) = none := by
  obtain ⟨c, names, child, hdir, hget, hn⟩ := h
  exact canonicalize_on hdir fun startOver => follow_missing hget hn startOver rest

/-- A directory that is there is not made. -/
theorem createDirAll_old (filler : μ) (hdir : canonicalize fs (dir ++ [name]) = some c)
    (hget : fs.get c = some (.dir names child)) (rest : List Name) :
    createDirAll filler fs dir (name :: rest) = createDirAll filler fs (dir ++ [name]) rest := by
  have hthere : isDir fs (dir ++ [name]) = true := by
    rw [isDir, lookup, hdir, Option.bind_some, hget]
  rw [createDirAll, if_pos hthere]

/-- **A directory that is made** has nothing in it. -/
theorem createDirAll_new (filler : μ) (h : Lacks fs dir name) (hvalid : ValidName name)
    (rest : List Name) :
    ∃ fs' c, createDirAll filler fs dir (name :: rest) =
        createDirAll filler fs' (dir ++ [name]) rest ∧
      canonicalize fs' dir = some c ∧ canonicalize fs' (dir ++ [name]) = some (c ++ [name]) ∧
      fs'.get (c ++ [name]) = some (emptyDir filler) := by
  have hmissing : isDir fs (dir ++ [name]) = false := by
    rw [isDir, lookup, h.canonicalize []]
    rfl
  obtain ⟨c, names, child, hdir, hget, hn⟩ := h
  have hmade : createDir filler fs dir name = (fs.put c name (emptyDir filler), true) := by
    simp only [createDir, hdir, Option.map_some, hget]
    rw [if_pos ⟨hn, hvalid⟩]
  have hgrows : Grows fs.top (fs.put c name (emptyDir filler)).top := by
    rw [Fs.top_put]
    refine put_grows hget ?_
    intro hmem
    rw [names.find_self hmem] at hn
    cases hn
  have hdir' := hgrows.canonicalize hdir
  have hmem : name ∈ (names.insert name).list := by
    rw [Names.list_insert hn hvalid]
    exact List.mem_append_right _ List.mem_cons_self
  have hget' := Fs.get_snoc (Fs.get_put hget name (emptyDir filler)) hmem
  rw [if_pos rfl] at hget'
  refine ⟨fs.put c name (emptyDir filler), c, ?_, hdir', canonicalize_rest hdir' hget' rfl, hget'⟩
  rw [createDirAll, hmissing, if_neg (by simp), hmade]

end DcsDashboard.Lib.FileTree
