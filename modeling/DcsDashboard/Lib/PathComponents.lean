/-
# The components of a Windows path

`Path::components`: what the prefix of a path is, whether the path begins at a root or, without a
prefix, at `.`, and its names; empty names and the name `.` further on do not count.  A share is
always at its root.

Texts joined from names have just these names as their components (`components_intercalate`), and
a name joined to a directory on a drive or on a share comes after the directory's own components
(`components_join`).
-/
import DcsDashboard.Lib.WindowsPath
import DcsDashboard.Lib.FileTree
import DcsDashboard.Lib.JoinedText

namespace DcsDashboard.Lib.WindowsPath

open FileTree (Name ValidName)

/-! ## 1. Components -/

/-- `Component`; `volume` is its `Prefix`. -/
inductive Component
  | volume (text : List Char)
  | rootDir
  | curDir
  | parentDir
  | normal (name : Name)
  deriving DecidableEq

/-- The names of a text without a prefix. -/
def nameParts (s : List Char) : List (List Char) :=
  (s.splitOnP isSep).filter fun part => part ≠ [] ∧ part ≠ ['.']

/-- `parse_single_component`. -/
def component (part : List Char) : Component := if part = ['.', '.'] then .parentDir else .normal part

/-- `include_cur_dir`. -/
def leadingDot : List Char → Bool
  | '.' :: rest => atEnd rest
  | _ => false

/-- What comes before the names. -/
def start (before : List Char) (implicitRoot : Bool) (rest : List Char) : List Component :=
  if implicitRoot || hasRoot rest then [.rootDir]
  else if before = [] ∧ leadingDot rest then [.curDir]
  else []

/-- `Path::components`. -/
def components (p : List Char) : List Component :=
  let before := (splitPrefix p).1
  let rest := (splitPrefix p).2
  (if before = [] then [] else [.volume before]) ++
    start before (before ≠ [] && !hasDrive p) rest ++ (nameParts rest).map component

/-- The names of a path that has nothing but names. -/
def normalNames : List Component → Option (List Name)
  | [] => some []
  | .normal name :: rest => (normalNames rest).map (name :: ·)
  | _ :: _ => none

theorem normalNames_map (names : List Name) :
    normalNames (names.map Component.normal) = some names := by
  induction names with
  | nil => rfl
  | cons name names ih => simp [normalNames, ih]

theorem eq_of_normalNames {cs : List Component} {names : List Name}
    (h : normalNames cs = some names) : cs = names.map Component.normal := by
  induction cs generalizing names with
  | nil =>
    obtain rfl : [] = names := by simpa [normalNames] using h
    rfl
  | cons c cs ih =>
    cases c with
    | normal name =>
      obtain ⟨rest, hrest, rfl⟩ := Option.map_eq_some_iff.mp h
      rw [ih hrest, List.map_cons]
    | volume text => simp [normalNames] at h
    | rootDir => simp [normalNames] at h
    | curDir => simp [normalNames] at h
    | parentDir => simp [normalNames] at h

/-! ## 2. Names -/

theorem isSep_of_inside {name : Name} (h : ∀ c ∈ name, inName c = true) :
    ∀ c ∈ name, isSep c = false := fun c hc => by simpa [inName] using h c hc

theorem nameParts_nil : nameParts [] = [] := by simp [nameParts, List.splitOnP_nil]

/-- A separator divides the names. -/
theorem nameParts_append_sep (s : List Char) {c : Char} (hc : isSep c = true) (t : List Char) :
    nameParts (s ++ c :: t) = nameParts s ++ nameParts t := by
  rw [nameParts, List.splitOnP_append_cons s t hc, List.filter_append]
  rfl

theorem nameParts_name {name : Name} (hne : name ≠ []) (hdot : name ≠ ['.'])
    (hinside : ∀ c ∈ name, inName c = true) : nameParts name = [name] := by
  rw [nameParts, List.splitOnP_eq_singleton (isSep_of_inside hinside)]
  simp [hne, hdot]

theorem inName_of_valid {name : Name} (h : ValidName name) : ∀ c ∈ name, inName c = true := by
  intro c hc
  obtain ⟨hslash, hback, -⟩ := h.inside c hc
  simp [inName, isSep, hslash, hback]

theorem component_valid {name : Name} (h : ValidName name) : component name = .normal name :=
  if_neg h.ne_dots

theorem leadingDot_name {name : Name} (hdot : name ≠ ['.']) (hinside : ∀ c ∈ name, inName c = true) :
    leadingDot name = false := by
  unfold leadingDot
  split
  · rename_i rest
    cases rest with
    | nil => exact absurd rfl hdot
    | cons c rest =>
      have hc : isSep c = false := isSep_of_inside hinside c (by simp)
      simp [atEnd, hc]
  · rfl

theorem hasRoot_name {name : Name} (hinside : ∀ c ∈ name, inName c = true) :
    hasRoot name = false := by
  cases name with
  | nil => rfl
  | cons c rest => simpa [hasRoot] using isSep_of_inside hinside c (by simp)

/-! ## 3. Paths put together from names -/

theorem nameParts_intercalate {names : List Name} (h : ∀ name ∈ names, ValidName name) :
    nameParts (['/'].intercalate names) = names := by
  induction names with
  | nil => exact nameParts_nil
  | cons name names ih =>
    have hname := h name (by simp)
    have hparts := nameParts_name hname.ne_nil hname.ne_dot (inName_of_valid hname)
    cases names with
    | nil => simpa using hparts
    | cons next names =>
      have hrest := ih fun n hn => h n (List.mem_cons_of_mem _ hn)
      rw [List.intercalate_cons_cons, List.append_assoc, List.singleton_append,
        nameParts_append_sep _ (by decide), hparts, hrest]
      rfl

/-- No text with a name first has a prefix. -/
theorem splitPrefix_of_name {p : List Char} (hcolon : ':' ∉ p) (hroot : hasRoot p = false) :
    splitPrefix p = ([], p) := by
  rcases splitPrefix_cases p with ⟨l, rest, -, rfl, -⟩ | ⟨a, b, server, c, share, rest, hs, -, rfl, -⟩ |
    hp
  · exact absurd (by simp) hcolon
  · simp [hasRoot, hs.seps.1] at hroot
  · exact hp

theorem colon_notMem_intercalate {names : List Name} (h : ∀ name ∈ names, ValidName name) :
    ':' ∉ ['/'].intercalate names := by
  intro hmem
  rcases mem_intercalate hmem with heq | ⟨name, hname, hc⟩
  · exact absurd heq (by decide)
  · exact ((h name hname).inside _ hc).2.2 rfl

theorem head?_intercalate {names : List Name} (h : ∀ name ∈ names, ValidName name) :
    (['/'].intercalate names).head? = names.head?.bind List.head? := by
  cases names with
  | nil => rfl
  | cons name names =>
    obtain ⟨c, rest, rfl⟩ := List.exists_cons_of_ne_nil (h name (by simp)).ne_nil
    cases names <;> simp [List.intercalate_cons_cons]

theorem hasRoot_intercalate {names : List Name} (h : ∀ name ∈ names, ValidName name) :
    hasRoot (['/'].intercalate names) = false := by
  rw [hasRoot, head?_intercalate h]
  cases names with
  | nil => rfl
  | cons name names =>
    have hinside := inName_of_valid (h name (by simp))
    simpa [hasRoot] using hasRoot_name hinside

theorem leadingDot_intercalate {names : List Name} (h : ∀ name ∈ names, ValidName name) :
    leadingDot (['/'].intercalate names) = false := by
  cases names with
  | nil => rfl
  | cons name names =>
    have hname := h name (by simp)
    have hdot := leadingDot_name hname.ne_dot (inName_of_valid hname)
    cases names with
    | nil => simpa using hdot
    | cons next names =>
      obtain ⟨c, rest, rfl⟩ := List.exists_cons_of_ne_nil hname.ne_nil
      rw [List.intercalate_cons_cons, List.append_assoc, List.singleton_append, List.cons_append]
      unfold leadingDot
      split
      · rename_i heq
        obtain ⟨rfl, rfl⟩ := List.cons.inj heq
        cases rest with
        | nil => exact absurd rfl hname.ne_dot
        | cons d rest =>
          have hd : isSep d = false := isSep_of_inside (inName_of_valid hname) d (by simp)
          simp [atEnd, hd]
      · rfl

/-- **A path put together from names** has just these names. -/
theorem components_intercalate {names : List Name} (h : ∀ name ∈ names, ValidName name) :
    components (['/'].intercalate names) = names.map Component.normal := by
  rw [components, splitPrefix_of_name (colon_notMem_intercalate h) (hasRoot_intercalate h)]
  simp only [start, hasRoot_intercalate h, leadingDot_intercalate h, nameParts_intercalate h]
  simp only [ne_eq, not_true_eq_false, decide_false, Bool.false_and, Bool.or_self, if_true,
    Bool.false_eq_true, if_false, List.nil_append]
  exact List.map_congr_left fun name hname => component_valid (h name hname)

/-! ## 4. A name joined to a directory -/

/-- The text behind the prefix of a directory, and what a name is put after there. -/
def AtName (implicitRoot : Bool) (rest after : List Char) : Prop :=
  after = rest ∧ (rest = [] ∨ rest.getLast?.any isSep) ∨
    after = rest ++ ['\\'] ∧ (rest ≠ [] ∨ implicitRoot = true)

theorem nameParts_atName {implicitRoot : Bool} {rest after : List Char}
    (h : AtName implicitRoot rest after) {name : Name} (hparts : nameParts name = [name]) :
    nameParts (after ++ name) = nameParts rest ++ [name] := by
  rcases h with ⟨rfl, rfl | hlast⟩ | ⟨rfl, -⟩
  · rw [nameParts_nil, List.nil_append, List.nil_append, hparts]
  · have hafter : after ≠ [] := by
      rintro rfl
      simp at hlast
    obtain ⟨init, c, rfl⟩ := (List.eq_nil_or_concat' after).resolve_left hafter
    have hc : isSep c = true := by simpa using hlast
    rw [List.append_assoc, List.singleton_append, nameParts_append_sep init hc,
      nameParts_append_sep init hc, nameParts_nil, hparts, List.append_nil]
  · rw [List.append_assoc, List.singleton_append, nameParts_append_sep rest (by decide), hparts]

theorem leadingDot_atName {implicitRoot : Bool} {c : Char} {rest after : List Char}
    (h : AtName implicitRoot (c :: rest) after) (name : Name) :
    leadingDot (after ++ name) = leadingDot (c :: rest) := by
  by_cases hc : c = '.'
  · subst hc
    cases rest with
    | nil =>
      rcases h with ⟨-, hdot | hdot⟩ | ⟨rfl, -⟩
      · cases hdot
      · exact absurd hdot (by decide)
      · rfl
    | cons d rest => rcases h with ⟨rfl, -⟩ | ⟨rfl, -⟩ <;> rfl
  · have hne (t : List Char) : leadingDot (c :: t) = false := by
      unfold leadingDot
      split
      · rename_i heq
        exact absurd (List.cons.inj heq).1 hc
      · rfl
    rcases h with ⟨rfl, -⟩ | ⟨rfl, -⟩ <;> simp [hne]

theorem start_atName {before : List Char} {implicitRoot : Bool} {rest after : List Char}
    (h : AtName implicitRoot rest after) {name : Name} (hroot : hasRoot name = false)
    (hdot : leadingDot name = false) :
    start before implicitRoot (after ++ name) = start before implicitRoot rest := by
  cases implicitRoot with
  | true => rfl
  | false =>
    cases rest with
    | nil =>
      rcases h with ⟨rfl, -⟩ | ⟨-, hne | hfalse⟩
      · have hroot' : hasRoot [] = false := rfl
        have hdot' : leadingDot [] = false := rfl
        simp only [List.nil_append, start, hroot, hdot, hroot', hdot']
      · exact absurd rfl hne
      · cases hfalse
    | cons c rest =>
      have hsame : hasRoot (after ++ name) = hasRoot (c :: rest) := by
        rcases h with ⟨rfl, -⟩ | ⟨rfl, -⟩ <;> rfl
      rw [start, leadingDot_atName h, hsame]
      rfl

theorem atEnd_append {rest : List Char} (h : atEnd rest = true) (hne : rest ≠ []) (t : List Char) :
    atEnd (rest ++ t) = true := by
  cases rest with
  | nil => exact absurd rfl hne
  | cons c rest => simpa [atEnd] using h

/-- The last character of a text with a beginning that is no part of it. -/
theorem getLast?_behind {before rest : List Char} (h : rest ≠ []) :
    (before ++ rest).getLast? = rest.getLast? := by
  rw [List.getLast?_append, List.getLast?_eq_some_getLast h]
  rfl

/-- Where a directory has names behind its prefix. -/
theorem exists_after (before : List Char) {rest : List Char} (hne : rest ≠ [])
    (hlength : hasDrive (before ++ rest) = true → (before ++ rest).length ≠ 2)
    (implicitRoot : Bool) :
    ∃ after, AtName implicitRoot rest after ∧ atName (before ++ rest) = before ++ after := by
  cases hsep : needSep (before ++ rest) with
  | true =>
    exact ⟨rest ++ ['\\'], .inr ⟨rfl, .inl hne⟩, by simp [atName, hsep]⟩
  | false =>
    refine ⟨rest, .inl ⟨rfl, .inr ?_⟩, by simp [atName, hsep]⟩
    obtain ⟨init, c, rfl⟩ := (List.eq_nil_or_concat' rest).resolve_left hne
    have hlast : needSep (before ++ (init ++ [c])) = inName c := by
      rw [needSep, getLast?_behind hne]
      cases hdrive : hasDrive (before ++ (init ++ [c])) with
      | false => simp
      | true =>
        have hne' : decide ((before ++ (init ++ [c])).length = 2) = false :=
          decide_eq_false (hlength hdrive)
        rw [hne']
        simp
    simpa [inName] using hlast.symm.trans hsep

/-- What a name is put after, behind a drive. -/
theorem exists_atName_drive {l : Char} {rest : List Char}
    (hdrive : hasDrive (l :: ':' :: rest) = true) :
    ∃ after, AtName false rest after ∧ ∀ name,
      splitPrefix (atName (l :: ':' :: rest) ++ name) = ([l, ':'], after ++ name) ∧
        hasDrive (atName (l :: ':' :: rest) ++ name) = true := by
  have hdrive' (t : List Char) : hasDrive (l :: ':' :: t) = true := by
    simpa [hasDrive] using hdrive
  have hsplit (t : List Char) : splitPrefix (l :: ':' :: t) = ([l, ':'], t) := by
    rw [splitPrefix, if_pos (hdrive' t), List.splitAt_eq]
    rfl
  obtain ⟨after, hafter, hat⟩ : ∃ after,
      AtName false rest after ∧ atName ([l, ':'] ++ rest) = [l, ':'] ++ after := by
    cases rest with
    | nil => exact ⟨[], .inl ⟨rfl, .inl rfl⟩, by simp [atName, needSep, hdrive']⟩
    | cons d rest => exact exists_after [l, ':'] (by simp) (by simp) false
  refine ⟨after, hafter, ?_⟩
  intro name
  have hat' : atName (l :: ':' :: rest) ++ name = l :: ':' :: (after ++ name) := by
    rw [show l :: ':' :: rest = [l, ':'] ++ rest from rfl, hat]
    rfl
  rw [hat', hsplit, hdrive']
  exact ⟨rfl, rfl⟩

section Share

variable {a b c : Char} {server share : List Char} (hs : IsShare a b server c share)

include hs

/-- A name that is put after a share begins a directory. -/
theorem atName_share : atName (a :: b :: (server ++ c :: share)) =
    (a :: b :: (server ++ c :: share)) ++ ['\\'] := by
  obtain ⟨init, x, rfl⟩ := (List.eq_nil_or_concat' share).resolve_left hs.share_ne
  have hx : inName x = true := hs.share_name x (by simp)
  have hlast : (a :: b :: (server ++ c :: (init ++ [x]))).getLast? = some x := by
    rw [show a :: b :: (server ++ c :: (init ++ [x])) =
      (a :: b :: (server ++ c :: init)) ++ [x] by simp, List.getLast?_concat]
  have hneed : needSep (a :: b :: (server ++ c :: (init ++ [x]))) = true := by
    simp [needSep, hlast, hx, hasDrive_of_isSep hs.seps.2.1]
  rw [atName, if_pos hneed]

/-- What a name is put after, behind a share. -/
theorem exists_atName_share {rest : List Char} (hend : atEnd rest = true) :
    ∃ after, AtName true rest after ∧ ∀ name,
      splitPrefix (atName (a :: b :: (server ++ c :: (share ++ rest))) ++ name) =
          (a :: b :: (server ++ c :: share), after ++ name) ∧
        hasDrive (atName (a :: b :: (server ++ c :: (share ++ rest))) ++ name) = false := by
  have hdrive := fun t => @hasDrive_of_isSep a b hs.seps.2.1 t
  have htext : a :: b :: (server ++ c :: (share ++ rest)) =
      (a :: b :: (server ++ c :: share)) ++ rest := by simp
  obtain ⟨after, hafter, hend', hat⟩ : ∃ after, AtName true rest after ∧
      (∀ name, atEnd (after ++ name) = true) ∧
      atName ((a :: b :: (server ++ c :: share)) ++ rest) =
        (a :: b :: (server ++ c :: share)) ++ after := by
    cases rest with
    | nil =>
      refine ⟨['\\'], .inr ⟨rfl, .inr rfl⟩, fun name => rfl, ?_⟩
      rw [List.append_nil, atName_share hs]
    | cons d rest =>
      obtain ⟨after, hafter, hat⟩ := exists_after (a :: b :: (server ++ c :: share))
        (List.cons_ne_nil d rest) (by simp [hdrive]) true
      refine ⟨after, hafter, fun name => ?_, hat⟩
      rcases hafter with ⟨rfl, -⟩ | ⟨rfl, -⟩
      · exact atEnd_append hend (by simp) name
      · rw [List.append_assoc]
        exact atEnd_append hend (by simp) _
  refine ⟨after, hafter, ?_⟩
  intro name
  have hat' : atName (a :: b :: (server ++ c :: (share ++ rest))) ++ name =
      a :: b :: (server ++ c :: (share ++ (after ++ name))) := by
    rw [htext, hat]
    simp
  rw [hat', splitPrefix_share hs (hend' name), hdrive]
  exact ⟨rfl, rfl⟩

end Share

/-- What a name is put after, behind the prefix. -/
theorem exists_atName {p : List Char} (h : (splitPrefix p).1 ≠ []) :
    ∃ after, AtName ((splitPrefix p).1 ≠ [] && !hasDrive p) (splitPrefix p).2 after ∧
      ∀ name, splitPrefix (atName p ++ name) = ((splitPrefix p).1, after ++ name) ∧
        hasDrive (atName p ++ name) = hasDrive p := by
  rcases splitPrefix_cases p with ⟨l, rest, hdrive, rfl, hp⟩ |
    ⟨a, b, server, c, share, rest, hs, hend, rfl, hp⟩ | hp
  · obtain ⟨after, hafter, hname⟩ := exists_atName_drive hdrive
    rw [hp, hdrive]
    exact ⟨after, by simpa using hafter, hname⟩
  · obtain ⟨after, hafter, hname⟩ := exists_atName_share hs hend
    rw [hp, hasDrive_of_isSep hs.seps.2.1]
    exact ⟨after, by simpa using hafter, hname⟩
  · exact absurd (by rw [hp]) h

/-- **A name joined to a directory** on a drive or on a share comes after its components. -/
theorem components_join {name : Name} (h : IsName name) (hdot : name ≠ ['.']) {dir : List Char}
    (hdir : (splitPrefix dir).1 ≠ []) :
    components (join dir name) = components dir ++ [component name] := by
  obtain ⟨after, hafter, hsplit⟩ := exists_atName hdir
  have hparts := nameParts_name h.ne_nil hdot h.inside
  have hroot := hasRoot_name h.inside
  have hleading := leadingDot_name hdot h.inside
  obtain ⟨hjoin, hdrive⟩ := hsplit name
  rw [join_name h, components, components, hjoin, hdrive]
  simp only [start_atName hafter hroot hleading, nameParts_atName hafter hparts, List.map_append,
    List.map_cons, List.map_nil, List.append_assoc]

end DcsDashboard.Lib.WindowsPath
