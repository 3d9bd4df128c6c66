/-
# A tree of files, directories and links

What the operating system keeps, as far as paths are concerned.  A directory holds names that
differ in more than their case (`fold` is what the system compares of a character), and every name
is one that a path can spell.  A place is the list of names from the top of the tree.

A link stands for another place.  `canonicalize` follows the links on the way and gives the place
that a path means, spelled as the directories spell it; as in the system, only so many links are
followed.  A place with no link on the way means itself (`canonicalize_of_get`), and a path is
followed from what a part of it means (`canonicalize_append`).
-/
import Mathlib.Data.List.Nodup

namespace DcsDashboard.Lib.FileTree

abbrev Name := List Char

/-- The names from the top of the tree. -/
abbrev Place := List Name

/-! ## 1. Trees -/

/-- A name that a directory can hold. -/
structure ValidName (name : Name) : Prop where
  ne_nil : name ≠ []
  inside : ∀ c ∈ name, c ≠ '/' ∧ c ≠ '\\' ∧ c ≠ ':'
  ne_dot : name ≠ ['.']
  ne_dots : name ≠ ['.', '.']

instance (name : Name) : Decidable (ValidName name) :=
  decidable_of_iff (name ≠ [] ∧ (name.all fun c => c ≠ '/' ∧ c ≠ '\\' ∧ c ≠ ':') ∧ name ≠ ['.'] ∧
    name ≠ ['.', '.'])
    ⟨fun ⟨h₁, h₂, h₃, h₄⟩ => ⟨h₁, by simpa using h₂, h₃, h₄⟩,
      fun ⟨h₁, h₂, h₃, h₄⟩ => ⟨h₁, by simpa using h₂, h₃, h₄⟩⟩

/-- The names in a directory. -/
structure Names (fold : Char → Char) where
  list : List Name
  distinct : (list.map (List.map fold)).Nodup
  valid : ∀ name ∈ list, ValidName name

/-- A file or a link with its data, or a directory; only the children of the names count. -/
inductive Node (fold : Char → Char) (μ : Type)
  | file (data : μ)
  | link (data : μ) (target : Place)
  | dir (names : Names fold) (child : Name → Node fold μ)

variable {fold : Char → Char} {μ : Type}

def Node.isLink : Node fold μ → Bool
  | .link _ _ => true
  | _ => false

/-- What stands at a place, with its names as they are spelled and no link followed. -/
def Node.get : Node fold μ → Place → Option (Node fold μ)
  | node, [] => some node
  | .dir names child, name :: place => if name ∈ names.list then (child name).get place else none
  | _, _ :: _ => none

/-- A file system: what stands at the top is a directory. -/
structure Fs (fold : Char → Char) (μ : Type) where
  names : Names fold
  child : Name → Node fold μ

def Fs.top (fs : Fs fold μ) : Node fold μ := .dir fs.names fs.child

def Fs.get (fs : Fs fold μ) (place : Place) : Option (Node fold μ) := fs.top.get place

/-! ## 2. Following links -/

/-- The name in a directory that a name in a path means. -/
def Names.find (names : Names fold) (name : Name) : Option Name :=
  names.list.find? fun n => n.map fold = name.map fold

/-- Goes from a place along names, and starts over with what a link stands for. -/
def follow (fs : Fs fold μ) (startOver : Place → Option Place) : Place → List Name → Option Place
  | place, [] => some place
  | place, name :: rest =>
    match fs.get place with
    | some (.dir names child) =>
      (names.find name).bind fun n =>
        match child n with
        | .link _ target => startOver (target ++ rest)
        | _ => follow fs startOver (place ++ [n]) rest
    | _ => none

/-- Follows at most so many links. -/
def resolve (fs : Fs fold μ) : Nat → Place → Option Place
  | 0 => follow fs (fun _ => none) []
  | links + 1 => follow fs (resolve fs links) []

/-- How many links are followed. -/
def linkLimit : Nat := 63

/-- `fs::canonicalize`. -/
def canonicalize (fs : Fs fold μ) (path : List Name) : Option Place := resolve fs linkLimit path

/-- What a path means, as `fs::metadata` and `fs::read_dir` see it. -/
def lookup (fs : Fs fold μ) (path : List Name) : Option (Node fold μ) :=
  (canonicalize fs path).bind fs.get

/-! ## 3. What stands at a place -/

theorem Node.get_append (node : Node fold μ) (p q : Place) :
    node.get (p ++ q) = (node.get p).bind fun n => n.get q := by
  induction p generalizing node with
  | nil => simp [Node.get]
  | cons name p ih =>
    cases node with
    | file data => simp [Node.get]
    | link data target => simp [Node.get]
    | dir names child =>
      by_cases hname : name ∈ names.list
      · simp [Node.get, hname, ih]
      · simp [Node.get, hname]

theorem Fs.get_append (fs : Fs fold μ) (p q : Place) :
    fs.get (p ++ q) = (fs.get p).bind fun n => n.get q :=
  Node.get_append fs.top p q

theorem Fs.get_snoc {fs : Fs fold μ} {place : Place} {names : Names fold}
    {child : Name → Node fold μ} (h : fs.get place = some (.dir names child)) {name : Name}
    (hname : name ∈ names.list) : fs.get (place ++ [name]) = some (child name) := by
  rw [Fs.get_append, h]
  simp [Node.get, hname]

/-- What a place lies in is a directory that holds the next name. -/
theorem Fs.dir_of_get {fs : Fs fold μ} {p : Place} {name : Name} {q : Place} {node : Node fold μ}
    (h : fs.get (p ++ name :: q) = some node) :
    ∃ names child, fs.get p = some (.dir names child) ∧ name ∈ names.list ∧
      (child name).get q = some node := by
  rw [Fs.get_append] at h
  obtain ⟨above, habove, hnode⟩ := Option.bind_eq_some_iff.mp h
  cases above with
  | file data => simp [Node.get] at hnode
  | link data target => simp [Node.get] at hnode
  | dir names child =>
    by_cases hname : name ∈ names.list
    · exact ⟨names, child, habove, hname, by simpa [Node.get, hname] using hnode⟩
    · simp [Node.get, hname] at hnode

/-- Names on the way to what stands at a place are valid. -/
theorem Fs.valid_of_get {fs : Fs fold μ} {place : Place} {node : Node fold μ}
    (h : fs.get place = some node) : ∀ name ∈ place, ValidName name := by
  intro name hname
  obtain ⟨p, q, rfl⟩ := List.append_of_mem hname
  obtain ⟨names, child, -, hmem, -⟩ := Fs.dir_of_get h
  exact names.valid name hmem

/-- A name that a directory holds means itself. -/
theorem Names.find_self (names : Names fold) {name : Name} (h : name ∈ names.list) :
    names.find name = some name := by
  obtain ⟨list, distinct, valid⟩ := names
  simp only [Names.find] at h ⊢
  clear valid
  induction list with
  | nil => simp at h
  | cons n list ih =>
    simp only [List.map_cons, List.nodup_cons] at distinct
    rw [List.find?_cons]
    rcases List.mem_cons.mp h with rfl | hmem
    · simp
    · have hne : n.map fold ≠ name.map fold := by
        intro heq
        exact distinct.1 (heq ▸ List.mem_map_of_mem (f := List.map fold) hmem)
      simp only [hne, decide_false]
      exact ih distinct.2 hmem

theorem Names.mem_of_find {names : Names fold} {name n : Name} (h : names.find name = some n) :
    n ∈ names.list ∧ n.map fold = name.map fold :=
  ⟨List.mem_of_find?_eq_some h, by simpa using List.find?_some h⟩

/-! ## 4. What a path means -/

/-- A step along a name that is no link. -/
theorem follow_cons {fs : Fs fold μ} {startOver : Place → Option Place} {place : Place}
    {names : Names fold} {child : Name → Node fold μ} (h : fs.get place = some (.dir names child))
    {name n : Name} (hn : names.find name = some n) (hlink : (child n).isLink = false)
    (rest : List Name) :
    follow fs startOver place (name :: rest) = follow fs startOver (place ++ [n]) rest := by
  rw [follow, h]
  simp only [hn, Option.bind_some]
  cases hc : child n with
  | link data target => simp [hc, Node.isLink] at hlink
  | file data => rfl
  | dir names' child' => rfl

/-- Along a place with no link on the way. -/
theorem follow_append {fs : Fs fold μ} {startOver : Place → Option Place} {p q : Place}
    {node : Node fold μ} (h : fs.get (p ++ q) = some node) (hlink : node.isLink = false)
    (rest : List Name) :
    follow fs startOver p (q ++ rest) = follow fs startOver (p ++ q) rest := by
  induction q generalizing p with
  | nil => simp
  | cons name q ih =>
    obtain ⟨names, child, hdir, hname, hq⟩ := Fs.dir_of_get h
    have hchild : (child name).isLink = false := by
      cases q with
      | nil =>
        obtain rfl : child name = node := by simpa [Node.get] using hq
        exact hlink
      | cons name' q =>
        cases hc : child name with
        | file data => rfl
        | link data target => simp [hc, Node.get] at hq
        | dir names' child' => rfl
    have hassoc : p ++ name :: q = (p ++ [name]) ++ q := by simp
    rw [List.cons_append, follow_cons hdir (names.find_self hname) hchild, ih (hassoc ▸ h), hassoc]

/-- Nothing but a link is where following names ends. -/
theorem get_follow {fs : Fs fold μ} {startOver : Place → Option Place}
    (hstart : ∀ path place, startOver path = some place →
      ∃ node, fs.get place = some node ∧ node.isLink = false)
    {p : Place} {node : Node fold μ} (hp : fs.get p = some node) (hlink : node.isLink = false)
    {path : List Name} {place : Place} (h : follow fs startOver p path = some place) :
    ∃ node, fs.get place = some node ∧ node.isLink = false := by
  induction path generalizing p node with
  | nil =>
    obtain rfl : p = place := by simpa [follow] using h
    exact ⟨node, hp, hlink⟩
  | cons name rest ih =>
    rw [follow, hp] at h
    cases node with
    | file data => simp at h
    | link data target => simp at h
    | dir names child =>
      simp only at h
      obtain ⟨n, hn, h⟩ := Option.bind_eq_some_iff.mp h
      have hchild := Fs.get_snoc hp (Names.mem_of_find hn).1
      cases hc : child n with
      | link data target =>
        simp only [hc] at h
        exact hstart _ _ h
      | file data =>
        simp only [hc] at h
        exact ih (hc ▸ hchild) rfl h
      | dir names' child' =>
        simp only [hc] at h
        exact ih (hc ▸ hchild) rfl h

theorem get_resolve {fs : Fs fold μ} {links : Nat} {path : List Name} {place : Place}
    (h : resolve fs links path = some place) :
    ∃ node, fs.get place = some node ∧ node.isLink = false := by
  induction links generalizing path place with
  | zero => exact get_follow (by simp) rfl rfl h
  | succ links ih => exact get_follow (fun path place hstart => ih hstart) rfl rfl h

/-- **What a path means** exists, and is no link. -/
theorem get_canonicalize {fs : Fs fold μ} {path : List Name} {place : Place}
    (h : canonicalize fs path = some place) :
    ∃ node, fs.get place = some node ∧ node.isLink = false :=
  get_resolve h

/-- What a path means is followed on as the path is. -/
theorem canonicalize_append {fs : Fs fold μ} {place : Place} {node : Node fold μ}
    (h : fs.get place = some node) (hlink : node.isLink = false) (rest : List Name) :
    canonicalize fs (place ++ rest) = follow fs (resolve fs (linkLimit - 1)) place rest :=
  follow_append (p := []) h hlink rest

/-- **A place with no link on the way** means itself. -/
theorem canonicalize_of_get {fs : Fs fold μ} {place : Place} {node : Node fold μ}
    (h : fs.get place = some node) (hlink : node.isLink = false) :
    canonicalize fs place = some place := by
  have hrest := canonicalize_append h hlink []
  rwa [List.append_nil] at hrest

theorem canonicalize_idem {fs : Fs fold μ} {path : List Name} {place : Place}
    (h : canonicalize fs path = some place) : canonicalize fs place = some place := by
  obtain ⟨node, hnode, hlink⟩ := get_canonicalize h
  exact canonicalize_of_get hnode hlink

/-- Following goes on from where the first names lead, if no link comes after them. -/
theorem follow_rest {fs : Fs fold μ} {startOver : Place → Option Place} {c : Place}
    {rest : List Name} {result : Option Place}
    (hrest : ∀ startOver, follow fs startOver c rest = result)
    (hstart : ∀ path, startOver path = some c → startOver (path ++ rest) = result)
    {path : List Name} {p : Place} (h : follow fs startOver p path = some c) :
    follow fs startOver p (path ++ rest) = result := by
  induction path generalizing p with
  | nil =>
    obtain rfl : p = c := by simpa [follow] using h
    exact hrest startOver
  | cons name path ih =>
    rw [List.cons_append]
    unfold follow at h ⊢
    cases hdir : fs.get p with
    | none => simp [hdir] at h
    | some above =>
      cases above with
      | file data => simp [hdir] at h
      | link data target => simp [hdir] at h
      | dir names child =>
        simp only [hdir] at h ⊢
        obtain ⟨n, hn, h⟩ := Option.bind_eq_some_iff.mp h
        rw [hn, Option.bind_some]
        cases hc : child n with
        | link data target =>
          simp only [hc] at h ⊢
          rw [← List.append_assoc]
          exact hstart _ h
        | file data =>
          simp only [hc] at h ⊢
          exact ih h
        | dir names' child' =>
          simp only [hc] at h ⊢
          exact ih h

/-- What comes after a path is followed from what the path means, if it meets no link. -/
theorem canonicalize_on {fs : Fs fold μ} {path : List Name} {c : Place}
    (h : canonicalize fs path = some c) {rest : List Name} {result : Option Place}
    (hrest : ∀ startOver, follow fs startOver c rest = result) :
    canonicalize fs (path ++ rest) = result := by
  have hresolve (links : Nat) : ∀ path, resolve fs links path = some c →
      resolve fs links (path ++ rest) = result := by
    induction links with
    | zero => exact fun path hpath => follow_rest hrest (by simp) hpath
    | succ links ih => exact fun path hpath => follow_rest hrest ih hpath
  exact hresolve linkLimit path h

/-- **What lies below a path** lies below what the path means. -/
theorem canonicalize_rest {fs : Fs fold μ} {path : List Name} {c : Place}
    (h : canonicalize fs path = some c) {rest : List Name} {node : Node fold μ}
    (hnode : fs.get (c ++ rest) = some node) (hlink : node.isLink = false) :
    canonicalize fs (path ++ rest) = some (c ++ rest) := by
  refine canonicalize_on h ?_
  intro startOver
  have hfollow : follow fs startOver c (rest ++ []) = follow fs startOver (c ++ rest) [] :=
    follow_append hnode hlink []
  rwa [List.append_nil] at hfollow

theorem lookup_rest {fs : Fs fold μ} {path : List Name} {c : Place}
    (h : canonicalize fs path = some c) {rest : List Name} {node : Node fold μ}
    (hnode : fs.get (c ++ rest) = some node) (hlink : node.isLink = false) :
    lookup fs (path ++ rest) = some node := by
  rw [lookup, canonicalize_rest h hnode hlink, Option.bind_some, hnode]

end DcsDashboard.Lib.FileTree
