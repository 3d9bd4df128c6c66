/-
# The files below a directory

`mission_browse` (`routes/system.rs`) and `tacview_browse` (`routes/downloads.rs`) walk a directory
with a stack of directories still to be read, three levels deep.  They differ in the directories
they pass over and in the names they want, which are parameters here.  Directories that cannot be
read (`denied`) are passed over too, and a link is never walked into: it is listed like a file.

What is listed are the wanted names below directories that are neither passed over nor denied
(`mem_treeFiles`), each once (`nodup_treeFiles`).
-/
import DcsDashboard.Lib.FileTree
import DcsDashboard.Lib.WorkStack

namespace DcsDashboard.Downloads

open Lib FileTree

variable {fold : Char → Char} {μ : Type}

/-! ## 1. The walk -/

/-- `fs::read_dir`: the entries, each with what the directory says of it. -/
def readDir (fs : Fs fold μ) (denied : Place → Bool) (path : List Name) :
    Option (List (Name × Node fold μ)) :=
  if denied path then none
  else
    match lookup fs path with
    | some (.dir names child) => some (names.list.map fun name => (name, child name))
    | _ => none

/-- A file that is found, by the names below the root, with its metadata. -/
structure Found (μ : Type) where
  names : List Name
  data : μ

/-- Which directories are passed over, and which names are wanted. -/
structure FileFilter where
  skips : Name → Bool
  wants : Name → Bool

/-- An entry that is no directory. -/
def foundEntry (filter : FileFilter) (dir : List Name) : Name × Node fold μ → Option (Found μ)
  | (_, .dir _ _) => none
  | (name, .file data) | (name, .link data _) =>
    if filter.wants name then some ⟨dir ++ [name], data⟩ else none

/-- An entry that is a directory. -/
def nextEntry (filter : FileFilter) (dir : List Name) : Name × Node fold μ → Option (List Name)
  | (name, .dir _ _) => if filter.skips name then none else some (dir ++ [name])
  | _ => none

/-- One directory below the root. -/
def visitDir (filter : FileFilter) (fs : Fs fold μ) (denied : Place → Bool) (root : Place)
    (dir : List Name) : Option (Visit (List Name) (Found μ)) :=
  (readDir fs denied (root ++ dir)).map fun entries =>
    ⟨entries.filterMap (foundEntry filter dir), entries.filterMap (nextEntry filter dir)⟩

/-- `TACVIEW_MAX_DEPTH`, and the depth of `mission_browse`. -/
def maxDepth : Nat := 3

def treeFiles (filter : FileFilter) (fs : Fs fold μ) (denied : Place → Bool) (root : Place) :
    List (Found μ) :=
  walk (visitDir filter fs denied root) maxDepth [([], 0)] []

/-! ## 2. What is to be found -/

/-- What a directory entry says of what stands at a place. -/
def Node.metadata : Node fold μ → Option μ
  | .file data => some data
  | .link data _ => some data
  | .dir _ _ => none

/-- A directory that the walk comes to. -/
structure Open (filter : FileFilter) (fs : Fs fold μ) (denied : Place → Bool) (root c : Place)
    (dir : List Name) : Prop where
  isDir : ∃ names child, fs.get (c ++ dir) = some (.dir names child)
  kept : ∀ name ∈ dir, filter.skips name = false
  readable : ∀ p, p <+: dir → denied (root ++ p) = false

/-- What the listing is to hold. -/
def Listed (filter : FileFilter) (fs : Fs fold μ) (denied : Place → Bool) (root : Place)
    (f : Found μ) : Prop :=
  ∃ c dir name node, canonicalize fs root = some c ∧ Open filter fs denied root c dir ∧
    dir.length ≤ maxDepth ∧ f.names = dir ++ [name] ∧ filter.wants name = true ∧
    fs.get (c ++ dir ++ [name]) = some node ∧ Node.metadata node = some f.data

variable {filter : FileFilter} {fs : Fs fold μ} {denied : Place → Bool} {root c : Place}

/-! ## 3. Reading a directory -/

/-- Reading a directory below the root. -/
theorem visitDir_open (h : canonicalize fs root = some c) {dir : List Name} {names : Names fold}
    {child : Name → Node fold μ} (hdir : fs.get (c ++ dir) = some (.dir names child)) :
    visitDir filter fs denied root dir =
      if denied (root ++ dir) then none
      else some ⟨names.list.filterMap fun name => foundEntry filter dir (name, child name),
        names.list.filterMap fun name => nextEntry filter dir (name, child name)⟩ := by
  rw [visitDir, readDir, lookup_rest h hdir rfl]
  split
  · rfl
  · simp [List.filterMap_map]

theorem mem_found {dir : List Name} {names : Names fold} {child : Name → Node fold μ}
    {f : Found μ} :
    f ∈ (names.list.filterMap fun name => foundEntry filter dir (name, child name)) ↔
      ∃ name ∈ names.list, f.names = dir ++ [name] ∧ filter.wants name = true ∧
        Node.metadata (child name) = some f.data := by
  rw [List.mem_filterMap]
  refine exists_congr fun name => and_congr_right fun _ => ?_
  cases hc : child name with
  | dir names' child' => simp [foundEntry, Node.metadata]
  | file data =>
    obtain ⟨fnames, fdata⟩ := f
    simp only [foundEntry, Node.metadata, Option.ite_none_right_eq_some, Option.some.injEq,
      Found.mk.injEq]
    tauto
  | link data target =>
    obtain ⟨fnames, fdata⟩ := f
    simp only [foundEntry, Node.metadata, Option.ite_none_right_eq_some, Option.some.injEq,
      Found.mk.injEq]
    tauto

theorem mem_next {dir next : List Name} {names : Names fold} {child : Name → Node fold μ} :
    next ∈ (names.list.filterMap fun name => nextEntry filter dir (name, child name)) ↔
      ∃ name ∈ names.list, next = dir ++ [name] ∧ filter.skips name = false ∧
        ∃ names' child', child name = .dir names' child' := by
  rw [List.mem_filterMap]
  refine exists_congr fun name => and_congr_right fun _ => ?_
  cases hc : child name with
  | file data => simp [nextEntry]
  | link data target => simp [nextEntry]
  | dir names' child' =>
    cases hskips : filter.skips name <;> simp [nextEntry, hskips, eq_comm]

/-! ## 4. The directories that are walked -/

/-- A visit is one of a directory that can be read. -/
theorem visitDir_eq_some (filter : FileFilter) (h : canonicalize fs root = some c)
    {dir : List Name} {names : Names fold} {child : Name → Node fold μ}
    (hdir : fs.get (c ++ dir) = some (.dir names child)) {v : Visit (List Name) (Found μ)} :
    visitDir filter fs denied root dir = some v ↔
      denied (root ++ dir) = false ∧
        v = ⟨names.list.filterMap fun name => foundEntry filter dir (name, child name),
          names.list.filterMap fun name => nextEntry filter dir (name, child name)⟩ := by
  rw [visitDir_open h hdir]
  cases denied (root ++ dir) <;> simp [eq_comm]

/-- Where the walk goes. -/
theorem open_of_leads (h : canonicalize fs root = some c) {k : Nat} {dir dir' : List Name}
    (hleads : Leads (visitDir filter fs denied root) k dir dir')
    (hdir : ∃ names child, fs.get (c ++ dir) = some (.dir names child)) :
    ∃ q, dir' = dir ++ q ∧ q.length = k ∧ (∃ names child, fs.get (c ++ dir') = some (.dir names child)) ∧
      (∀ name ∈ q, filter.skips name = false) ∧
      ∀ p, p <+: q → p ≠ q → denied (root ++ dir ++ p) = false := by
  induction hleads with
  | here dir => exact ⟨[], by simp, rfl, hdir, by simp, by simp⟩
  | @step k dir next dir' v hv hnext hleads ih =>
    obtain ⟨names, child, hdir⟩ := hdir
    obtain ⟨hreadable, rfl⟩ := (visitDir_eq_some filter h hdir).mp hv
    obtain ⟨name, hname, rfl, hskips, names', child', hchild⟩ := mem_next.mp hnext
    have hbelow : fs.get (c ++ (dir ++ [name])) = some (.dir names' child') := by
      rw [← List.append_assoc, Fs.get_snoc hdir hname, hchild]
    obtain ⟨q, rfl, hlength, hisDir, hkept, hreadable'⟩ := ih ⟨names', child', hbelow⟩
    refine ⟨name :: q, by simp, by simp [hlength], hisDir, ?_, ?_⟩
    · simpa [hskips] using hkept
    · intro p hp hne
      cases p with
      | nil => simpa using hreadable
      | cons n p =>
        obtain ⟨rfl, -⟩ := List.cons_prefix_cons.mp hp
        have hdenied := hreadable' p (List.cons_prefix_cons.mp hp).2 (by simpa using hne)
        simpa using hdenied

/-- Every directory that can be come to is come to. -/
theorem leads_of_open (h : canonicalize fs root = some c) (dir : List Name) {q : List Name}
    (hdir : ∃ names child, fs.get (c ++ (dir ++ q)) = some (.dir names child))
    (hkept : ∀ name ∈ q, filter.skips name = false)
    (hreadable : ∀ p, p <+: q → p ≠ q → denied (root ++ dir ++ p) = false) :
    Leads (visitDir filter fs denied root) q.length dir (dir ++ q) := by
  induction q generalizing dir with
  | nil => simpa using Leads.here dir
  | cons name q ih =>
    obtain ⟨names', child', hq⟩ := hdir
    rw [← List.append_assoc] at hq
    obtain ⟨names, child, habove, hname, hget⟩ := Fs.dir_of_get hq
    have hassoc : dir ++ name :: q = (dir ++ [name]) ++ q := by simp
    have hnext : ∃ names child, fs.get (c ++ ((dir ++ [name]) ++ q)) = some (.dir names child) :=
      ⟨names', child', by simpa using hq⟩
    have hchild : ∃ names child', child name = .dir names child' := by
      cases q with
      | nil => exact ⟨names', child', by simpa [Node.get] using hget⟩
      | cons name' q =>
        cases hc : child name with
        | file data => simp [hc, Node.get] at hget
        | link data target => simp [hc, Node.get] at hget
        | dir names child => exact ⟨names, child, rfl⟩
    have hvisit := (visitDir_eq_some filter h habove).mpr
      ⟨by simpa using hreadable [] (by simp) (by simp), rfl⟩
    rw [hassoc, List.length_cons]
    refine Leads.step hvisit (mem_next.mpr ⟨name, hname, rfl, hkept name (by simp), hchild⟩) ?_
    refine ih (dir ++ [name]) hnext (fun n hn => hkept n (List.mem_cons_of_mem _ hn)) fun p hp hne => ?_
    have hdenied := hreadable (name :: p) (List.cons_prefix_cons.mpr ⟨rfl, hp⟩) (by simpa using hne)
    simpa using hdenied

/-! ## 5. What is listed -/

theorem treeFiles_eq (filter : FileFilter) (fs : Fs fold μ) (denied : Place → Bool) (root : Place) :
    treeFiles filter fs denied root =
      preorder (visitDir filter fs denied root) (maxDepth + 1) [] := by
  simp [treeFiles, walk_eq, foundFrom]

/-- Nothing is read of a root that is no directory. -/
theorem root_of_visitDir {v : Visit (List Name) (Found μ)}
    (h : visitDir filter fs denied root [] = some v) :
    ∃ c names child, canonicalize fs root = some c ∧ fs.get c = some (.dir names child) := by
  rw [visitDir, readDir, List.append_nil, lookup] at h
  split at h
  · simp at h
  · split at h
    · rename_i names child hlookup
      obtain ⟨c, hc, hdir⟩ := Option.bind_eq_some_iff.mp hlookup
      exact ⟨c, names, child, hc, hdir⟩
    · simp at h

/-- **What is listed.** -/
theorem mem_treeFiles {f : Found μ} :
    f ∈ treeFiles filter fs denied root ↔ Listed filter fs denied root f := by
  rw [treeFiles_eq, mem_preorder]
  constructor
  · rintro ⟨k, hk, dir, v, hleads, hv, hf⟩
    obtain ⟨c, names, child, hroot, hdir⟩ : ∃ c names child, canonicalize fs root = some c ∧
        fs.get c = some (.dir names child) := by
      cases hleads with
      | here => exact root_of_visitDir hv
      | step hv' _ _ => exact root_of_visitDir hv'
    obtain ⟨q, hq, hlength, ⟨names', child', hisDir⟩, hkept, hreadable⟩ :=
      open_of_leads hroot hleads ⟨names, child, by simpa using hdir⟩
    obtain rfl : dir = q := by simpa using hq
    obtain ⟨hdenied, rfl⟩ := (visitDir_eq_some filter hroot hisDir).mp hv
    obtain ⟨name, hname, hnames, hwants, hdata⟩ := mem_found.mp hf
    refine ⟨c, dir, name, child' name, hroot, ⟨⟨names', child', hisDir⟩, hkept, fun p hp => ?_⟩,
      by omega, hnames, hwants, Fs.get_snoc hisDir hname, hdata⟩
    by_cases hpdir : p = dir
    · rwa [hpdir]
    · simpa using hreadable p hp hpdir
  · rintro ⟨c, dir, name, node, hroot, ⟨hisDir, hkept, hreadable⟩, hdepth, hnames, hwants, hnode, hdata⟩
    obtain ⟨names, child, hdir, hname, hget⟩ := Fs.dir_of_get hnode
    obtain rfl : child name = node := by simpa [Node.get] using hget
    have hleads := leads_of_open hroot [] hisDir hkept
      fun p hp _ => by simpa using hreadable p hp
    have hvisit := (visitDir_eq_some filter hroot hdir).mpr
      ⟨hreadable dir (List.prefix_refl _), rfl⟩
    exact ⟨dir.length, by omega, dir, _, hleads, hvisit,
      mem_found.mpr ⟨name, hname, hnames, hwants, hdata⟩⟩

/-- What a visit gives, of whatever directory. -/
theorem exists_of_visitDir {dir : List Name} {v : Visit (List Name) (Found μ)}
    (h : visitDir filter fs denied root dir = some v) :
    ∃ (names : Names fold) (child : Name → Node fold μ),
      v = ⟨names.list.filterMap fun name => foundEntry filter dir (name, child name),
        names.list.filterMap fun name => nextEntry filter dir (name, child name)⟩ := by
  obtain ⟨entries, hentries, rfl⟩ := Option.map_eq_some_iff.mp h
  rw [readDir] at hentries
  split at hentries
  · cases hentries
  · split at hentries
    · rename_i names child _
      obtain rfl := Option.some.inj hentries
      exact ⟨names, child, by simp [List.filterMap_map]⟩
    · cases hentries

/-- A file is below the directories its names begin with. -/
def Below (dir : List Name) (f : Found μ) : Prop := ∃ name rest, f.names = dir ++ name :: rest

theorem Below.up {dir : List Name} {name : Name} {f : Found μ} (h : Below (dir ++ [name]) f) :
    ∃ next rest, f.names = dir ++ name :: next :: rest := by
  obtain ⟨next, rest, h⟩ := h
  exact ⟨next, rest, by simpa using h⟩

theorem nodup_list (names : Names fold) : names.list.Nodup := List.Nodup.of_map _ names.distinct

/-- Directories divide up the files below them. -/
theorem divides (filter : FileFilter) (fs : Fs fold μ) (denied : Place → Bool) (root : Place) :
    Divides (visitDir filter fs denied root) Below where
  found := by
    intro dir v hv
    obtain ⟨names, child, rfl⟩ := exists_of_visitDir hv
    refine (nodup_list names).filterMap ?_
    intro a a' f hf hf'
    have hnames {b : Name} (hb : f ∈ foundEntry filter dir (b, child b)) : f.names = dir ++ [b] := by
      cases hc : child b <;> simp [hc, foundEntry] at hb <;> simp [← hb.2]
    simpa using (hnames hf).symm.trans (hnames hf')
  under := by
    intro dir v f hv hf
    obtain ⟨names, child, rfl⟩ := exists_of_visitDir hv
    obtain ⟨name, -, hnames, -⟩ := mem_found.mp hf
    exact ⟨name, [], hnames⟩
  up := by
    intro dir v next f hv hnext hbelow
    obtain ⟨names, child, rfl⟩ := exists_of_visitDir hv
    obtain ⟨name, -, rfl, -⟩ := mem_next.mp hnext
    obtain ⟨next, rest, hnames⟩ := hbelow.up
    exact ⟨name, next :: rest, hnames⟩
  apart := by
    intro dir v hv
    obtain ⟨names, child, rfl⟩ := exists_of_visitDir hv
    rw [List.pairwise_filterMap]
    refine (nodup_list names).imp_of_mem ?_
    intro a b _ _ hab da hda db hdb f hfa hfb
    have hnext {n : Name} {d : List Name} (hd : nextEntry filter dir (n, child n) = some d) :
        d = dir ++ [n] := by
      cases hc : child n <;> simp [hc, nextEntry] at hd
      exact hd.2.symm
    rw [hnext hda] at hfa
    rw [hnext hdb] at hfb
    obtain ⟨x, rest, hx⟩ := hfa.up
    obtain ⟨y, rest', hy⟩ := hfb.up
    have heq := List.append_cancel_left (hx.symm.trans hy)
    exact hab (List.cons.inj heq).1
  below := by
    intro dir v next f hv hnext hf hbelow
    obtain ⟨names, child, rfl⟩ := exists_of_visitDir hv
    obtain ⟨name, -, rfl, -⟩ := mem_next.mp hnext
    obtain ⟨name', -, hnames, -⟩ := mem_found.mp hf
    obtain ⟨next, rest, hnames'⟩ := hbelow.up
    simpa using List.append_cancel_left (hnames.symm.trans hnames')

/-- What is listed under given names is determined. -/
theorem Listed.data_eq {f g : Found μ} (hf : Listed filter fs denied root f)
    (hg : Listed filter fs denied root g) (h : f.names = g.names) : f = g := by
  obtain ⟨c, dir, name, node, hroot, -, -, hnames, -, hnode, hdata⟩ := hf
  obtain ⟨c', dir', name', node', hroot', -, -, hnames', -, hnode', hdata'⟩ := hg
  cases hroot.symm.trans hroot'
  rw [List.append_assoc, ← hnames] at hnode
  rw [List.append_assoc, ← hnames', ← h] at hnode'
  cases hnode.symm.trans hnode'
  obtain ⟨fnames, fdata⟩ := f
  obtain ⟨gnames, gdata⟩ := g
  simp_all

/-- **Each file is listed once.** -/
theorem nodup_treeFiles (filter : FileFilter) (fs : Fs fold μ) (denied : Place → Bool) (root : Place) :
    ((treeFiles filter fs denied root).map Found.names).Nodup := by
  refine List.Nodup.map_on ?_ ?_
  · exact fun f hf g hg h => (mem_treeFiles.mp hf).data_eq (mem_treeFiles.mp hg) h
  · rw [treeFiles_eq]
    exact (divides filter fs denied root).nodup_preorder _ _

end DcsDashboard.Downloads
