/-
# Windows paths

The operations of `std::path` on the text of a path, under Windows rules: `\` and `/` both
separate names, and a path may begin with a drive (`C:`), with a share (`\\server\share`) or with a
device (`\\.\device`).  Verbatim paths (`\\?\`) are not meant here; `Lib/StdPath` reads those.

A path is cut into its prefix, what stands before its names (a root, or a first `.`) and its names
(`splitPrefix`, `splitBody`).  Separators and `.` at the end of the names do not count.

A name joined to a directory gives another path for each directory (`join_injective`).
-/
import Mathlib.Data.List.DropRight

namespace DcsDashboard.Lib.WindowsPath

/-! ## 1. The parts of a path -/

def isSep (c : Char) : Bool := c = '\\' || c = '/'

/-- Inside a name. -/
def inName (c : Char) : Bool := !isSep c

/-- A drive at the beginning. -/
def hasDrive : List Char → Bool
  | c :: ':' :: _ => c.isAlpha
  | _ => false

/-- The length of a share at the beginning. -/
def shareLength : List Char → Nat
  | a :: b :: rest =>
    let server := rest.takeWhile inName
    let share := (rest.drop (server.length + 1)).takeWhile inName
    if isSep a ∧ isSep b ∧ server ≠ [] ∧ share ≠ [] then 2 + server.length + 1 + share.length
    else 0
  | _ => 0

/-- `parse_prefix`: the prefix and what comes after it. -/
def splitPrefix (p : List Char) : List Char × List Char :=
  if hasDrive p then p.splitAt 2 else p.splitAt (shareLength p)

/-- Where a name may end. -/
def atEnd (rest : List Char) : Bool := rest.head?.all isSep

/-- The root or the first `.`, and the names. -/
def splitBody : List Char → List Char × List Char
  | [] => ([], [])
  | c :: rest => if isSep c || (c = '.' && atEnd rest) then ([c], rest) else ([], c :: rest)

/-- Without the separators and the names `.` at the end; the text is turned round. -/
def trimRev : List Char → List Char
  | [] => []
  | c :: rev => if isSep c || (c = '.' && atEnd rev) then trimRev rev else c :: rev

/-- The names without what does not count at their end. -/
def trimRight (body : List Char) : List Char := (trimRev body.reverse).reverse

/-- What stands before the names. -/
def beforeBody (p : List Char) : List Char := (splitPrefix p).1 ++ (splitBody (splitPrefix p).2).1

/-- The names. -/
def body (p : List Char) : List Char := trimRight (splitBody (splitPrefix p).2).2

/-! ## 2. `std::path` -/

/-- `Path::file_name`. -/
def fileName (p : List Char) : Option (List Char) :=
  let name := (body p).rtakeWhile inName
  if body p = [] ∨ name = ['.', '.'] then none else some name

/-- `rsplit_file_at_dot`, and the part that `file_stem` takes of it. -/
def stemOf (name : List Char) : List Char :=
  let before := (name.rdropWhile (· ≠ '.')).dropLast
  if before = [] then name else before

/-- `Path::file_stem`. -/
def fileStem (p : List Char) : Option (List Char) := (fileName p).map stemOf

/-- `Path::parent`. -/
def parent (p : List Char) : Option (List Char) :=
  if body p ≠ [] then some (beforeBody p ++ trimRight ((body p).rdropWhile inName))
  else if (splitBody (splitPrefix p).2).1 = ['.'] then some (splitPrefix p).1
  else none

/-- The parent, or the empty path. -/
def directory (p : List Char) : List Char := (parent p).getD []

/-- `Path::has_root`, without a prefix. -/
def hasRoot (p : List Char) : Bool := p.head?.any isSep

/-- A separator is needed before what is added; not after a drive. -/
def needSep (dir : List Char) : Bool :=
  dir.getLast?.any inName && !(hasDrive dir && dir.length = 2)

/-- The text a name is put after. -/
def atName (dir : List Char) : List Char := if needSep dir then dir ++ ['\\'] else dir

/-- `Path::join`. -/
def join (dir path : List Char) : List Char :=
  if (splitPrefix path).1 ≠ [] then path
  else if hasRoot path then (splitPrefix dir).1 ++ path
  else atName dir ++ path

/-! ## 3. Prefixes -/

/-- A share: `a` and `b` stand for the separators before the server, `c` for the one after it. -/
structure IsShare (a b : Char) (server : List Char) (c : Char) (share : List Char) : Prop where
  seps : isSep a ∧ isSep b ∧ isSep c
  server_ne : server ≠ []
  server_name : ∀ x ∈ server, inName x
  share_ne : share ≠ []
  share_name : ∀ x ∈ share, inName x

/-- Where a name ends in a text. -/
theorem takeWhile_inName {name rest : List Char} (hname : ∀ x ∈ name, inName x)
    (hrest : atEnd rest = true) : (name ++ rest).takeWhile inName = name := by
  rw [List.takeWhile_append_of_pos hname]
  cases rest with
  | nil => simp
  | cons c rest =>
    have hc : isSep c = true := by simpa [atEnd] using hrest
    simp [inName, hc]

theorem atEnd_dropWhile (s : List Char) : atEnd (s.dropWhile inName) = true := by
  have hhead := List.head?_dropWhile_not inName s
  unfold atEnd
  cases h : (s.dropWhile inName).head? with
  | none => rfl
  | some c => simpa [h, inName] using hhead

/-- A path with a separator in second place names no drive. -/
theorem hasDrive_of_isSep {a b : Char} (hb : isSep b) (t : List Char) :
    hasDrive (a :: b :: t) = false := by
  unfold hasDrive
  split
  · rename_i heq
    obtain ⟨-, rfl, -⟩ : a = _ ∧ b = ':' ∧ _ := by simpa using heq
    exact absurd hb (by decide)
  · rfl

/-- A share is read as what it is. -/
theorem splitPrefix_share {a b c : Char} {server share rest : List Char}
    (h : IsShare a b server c share) (hrest : atEnd rest = true) :
    splitPrefix (a :: b :: (server ++ c :: (share ++ rest))) =
      (a :: b :: (server ++ c :: share), rest) := by
  obtain ⟨⟨ha, hb, hc⟩, hserver, hservername, hshare, hsharename⟩ := h
  have hend : atEnd (c :: (share ++ rest)) = true := by simp [atEnd, hc]
  have hlength : shareLength (a :: b :: (server ++ c :: (share ++ rest))) =
      2 + server.length + 1 + share.length := by
    simp only [shareLength, takeWhile_inName hservername hend]
    have hdrop : (server ++ c :: (share ++ rest)).drop (server.length + 1) = share ++ rest := by
      simp
    rw [hdrop, takeWhile_inName hsharename hrest, if_pos ⟨ha, hb, hserver, hshare⟩]
  have htext : a :: b :: (server ++ c :: (share ++ rest)) =
      (a :: b :: (server ++ c :: share)) ++ rest := by simp
  have hcount : 2 + server.length + 1 + share.length =
      (a :: b :: (server ++ c :: share)).length := by
    simp
    omega
  rw [splitPrefix, if_neg (by simp [hasDrive_of_isSep hb]), hlength, htext, hcount, List.splitAt_eq,
    List.take_left, List.drop_left]

theorem eq_of_hasDrive {p : List Char} (h : hasDrive p = true) :
    ∃ l rest, p = l :: ':' :: rest := by
  unfold hasDrive at h
  split at h
  · exact ⟨_, _, rfl⟩
  · cases h

theorem hasDrive_eq_false {c : Char} (hc : c.isAlpha = false) (s : List Char) :
    hasDrive (c :: s) = false := by
  unfold hasDrive
  split
  · rename_i heq
    rwa [← (List.cons.inj heq).1]
  · rfl

/-- What a path can begin with. -/
theorem splitPrefix_cases (p : List Char) :
    (∃ l rest, hasDrive p = true ∧ p = l :: ':' :: rest ∧ splitPrefix p = ([l, ':'], rest)) ∨
      (∃ a b server c share rest, IsShare a b server c share ∧ atEnd rest = true ∧
        p = a :: b :: (server ++ c :: (share ++ rest)) ∧
        splitPrefix p = (a :: b :: (server ++ c :: share), rest)) ∨
      splitPrefix p = ([], p) := by
  by_cases hdrive : hasDrive p = true
  · left
    obtain ⟨l, rest, rfl⟩ := eq_of_hasDrive hdrive
    exact ⟨l, rest, hdrive, rfl, by rw [splitPrefix, if_pos hdrive, List.splitAt_eq]; rfl⟩
  · right
    by_cases hzero : shareLength p = 0
    · right
      rw [splitPrefix, if_neg hdrive, hzero, List.splitAt_eq]
      rfl
    · left
      match p with
      | [] | [_] => exact absurd rfl hzero
      | a :: b :: rest =>
        simp only [shareLength] at hzero
        split at hzero
        case isFalse => exact absurd rfl hzero
        case isTrue hparts =>
          obtain ⟨ha, hb, hserver, hshare⟩ := hparts
          generalize hs : rest.takeWhile inName = server at *
          have hrest : rest = server ++ rest.dropWhile inName := by
            rw [← hs, List.takeWhile_append_dropWhile]
          have hend := atEnd_dropWhile rest
          generalize rest.dropWhile inName = tail at *
          subst hrest
          cases tail with
          | nil => simp at hshare
          | cons c tail =>
            have hc : isSep c = true := by simpa [atEnd] using hend
            have hdrop : (server ++ c :: tail).drop (server.length + 1) = tail := by simp
            rw [hdrop] at hshare
            have hshape : IsShare a b server c (tail.takeWhile inName) :=
              ⟨⟨ha, hb, hc⟩, hserver, fun x hx => List.mem_takeWhile_imp (hs ▸ hx), hshare,
                fun x hx => List.mem_takeWhile_imp hx⟩
            have htail : tail = tail.takeWhile inName ++ tail.dropWhile inName :=
              List.takeWhile_append_dropWhile.symm
            refine ⟨a, b, server, c, _, tail.dropWhile inName, hshape, atEnd_dropWhile tail, ?_, ?_⟩
            · rw [← htail]
            · conv_lhs => rw [htail]
              exact splitPrefix_share hshape (atEnd_dropWhile tail)

theorem splitPrefix_append (p : List Char) : (splitPrefix p).1 ++ (splitPrefix p).2 = p := by
  unfold splitPrefix
  split <;> rw [List.splitAt_eq, List.take_append_drop]

/-- A prefix does not end with a separator. -/
theorem getLast_splitPrefix {p u : List Char} {c : Char} (h : (splitPrefix p).1 = u ++ [c]) :
    isSep c = false := by
  rcases splitPrefix_cases p with ⟨l, rest, -, -, hp⟩ | ⟨a, b, server, d, share, rest, hs, -, -, hp⟩ |
    hp
  · have hlast := congrArg List.getLast? h
    rw [hp] at hlast
    obtain rfl : ':' = c := by simpa using hlast
    decide
  · obtain ⟨init, x, rfl⟩ := (List.eq_nil_or_concat' share).resolve_left hs.share_ne
    have hsplit : (a :: b :: (server ++ d :: init)) ++ [x] = u ++ [c] := by simpa [hp] using h
    obtain rfl : x = c := by simpa using (List.append_inj' hsplit rfl).2
    simpa [inName] using hs.share_name x (by simp)
  · rw [hp] at h
    simp at h

/-! ## 4. Names -/

theorem trimRev_suffix (s : List Char) : trimRev s <:+ s := by
  induction s with
  | nil => simp [trimRev]
  | cons c s ih =>
    rw [trimRev]
    split
    · exact ih.trans (List.suffix_cons c s)
    · exact List.suffix_refl _

theorem isPrefix_trimRight (b : List Char) : trimRight b <+: b := by
  have hsuffix := List.reverse_prefix.mpr (trimRev_suffix b.reverse)
  rwa [List.reverse_reverse] at hsuffix

theorem head_trimRev {s v : List Char} {c : Char} (h : trimRev s = c :: v) : isSep c = false := by
  induction s with
  | nil => cases h
  | cons d s ih =>
    rw [trimRev] at h
    split at h
    · exact ih h
    · rename_i hd
      obtain ⟨rfl, -⟩ := List.cons.inj h
      exact Bool.eq_false_iff.mpr fun hsep => hd (by simp [hsep])

/-- Names do not end with a separator. -/
theorem getLast_trimRight {b u : List Char} {c : Char} (h : trimRight b = u ++ [c]) :
    isSep c = false := by
  have hrev : trimRev b.reverse = c :: u.reverse := by
    rw [← List.reverse_reverse (trimRev _), show (trimRev b.reverse).reverse = u ++ [c] from h]
    simp
  exact head_trimRev hrev

theorem splitBody_append (s : List Char) : (splitBody s).1 ++ (splitBody s).2 = s := by
  unfold splitBody
  split
  · rfl
  · split <;> rfl

theorem isInfix_body (p : List Char) : body p <:+: p := by
  have hbody : body p <+: (splitBody (splitPrefix p).2).2 := isPrefix_trimRight _
  have hrest : (splitBody (splitPrefix p).2).2 <:+ (splitPrefix p).2 :=
    ⟨_, splitBody_append (splitPrefix p).2⟩
  exact hbody.isInfix.trans (hrest.trans ⟨_, splitPrefix_append p⟩).isInfix

theorem fileName_eq {p name : List Char} (h : fileName p = some name) :
    body p ≠ [] ∧ name = (body p).rtakeWhile inName := by
  simp only [fileName] at h
  split at h
  · cases h
  · rename_i hne
    exact ⟨fun hnil => hne (.inl hnil), (Option.some.inj h).symm⟩

theorem isInfix_fileName {p name : List Char} (h : fileName p = some name) : name <:+: p :=
  (fileName_eq h).2 ▸ ((List.rtakeWhile_suffix inName (body p)).isInfix.trans (isInfix_body p))

theorem fileName_inName {p name : List Char} (h : fileName p = some name) {c : Char}
    (hc : c ∈ name) : inName c = true := by
  rw [(fileName_eq h).2] at hc
  exact List.mem_rtakeWhile_imp hc

theorem isPrefix_stemOf (name : List Char) : stemOf name <+: name := by
  rw [stemOf]
  split
  · exact List.prefix_refl _
  · exact (List.dropLast_prefix _).trans (List.rdropWhile_prefix _ _)

/-- The stem of a file stands in its path, and is a name. -/
theorem fileStem_spec {p stem : List Char} (h : fileStem p = some stem) :
    stem <:+: p ∧ ∀ c ∈ stem, inName c = true := by
  obtain ⟨name, hname, rfl⟩ := Option.map_eq_some_iff.mp h
  have hpre := isPrefix_stemOf name
  exact ⟨hpre.isInfix.trans (isInfix_fileName hname),
    fun c hc => fileName_inName hname (hpre.subset hc)⟩

/-! ## 5. Directories -/

theorem directory_cases (p : List Char) :
    (body p ≠ [] ∧ directory p = beforeBody p ++ trimRight ((body p).rdropWhile inName)) ∨
      ((splitBody (splitPrefix p).2).1 = ['.'] ∧ directory p = (splitPrefix p).1) ∨
      directory p = [] := by
  by_cases hbody : body p = []
  · by_cases hdot : (splitBody (splitPrefix p).2).1 = ['.']
    · exact .inr (.inl ⟨hdot, by simp [directory, parent, hbody, hdot]⟩)
    · exact .inr (.inr (by simp [directory, parent, hbody, hdot]))
  · exact .inl ⟨hbody, by simp [directory, parent, hbody]⟩

/-- What stands before the names is the prefix, and at most one character. -/
theorem splitBody_cases (s : List Char) :
    (splitBody s).1 = [] ∨ ∃ c, (splitBody s).1 = [c] := by
  unfold splitBody
  split
  · exact .inl rfl
  · split
    · exact .inr ⟨_, rfl⟩
    · exact .inl rfl

/-- A directory that ends with a separator is a root. -/
theorem directory_root {p d : List Char} {c : Char} (h : directory p = d ++ [c])
    (hc : isSep c = true) : d = (splitPrefix p).1 := by
  rcases directory_cases p with ⟨-, hp⟩ | ⟨-, hp⟩ | hp
  · rcases List.eq_nil_or_concat' (trimRight ((body p).rdropWhile inName)) with hnil | ⟨t, x, hx⟩
    · rw [hp, hnil, List.append_nil, beforeBody] at h
      rcases splitBody_cases (splitPrefix p).2 with hroot | ⟨x, hroot⟩
      · rw [hroot, List.append_nil] at h
        exact absurd hc (by simp [getLast_splitPrefix h])
      · rw [hroot] at h
        exact (List.append_inj' h rfl).1.symm
    · rw [hp, hx, ← List.append_assoc] at h
      obtain rfl : x = c := by simpa using (List.append_inj' h rfl).2
      exact absurd hc (by simp [getLast_trimRight hx])
  · exact absurd hc (by simp [getLast_splitPrefix (hp.symm.trans h)])
  · rw [hp] at h
    simp at h

theorem isPrefix_directory (p : List Char) : directory p <+: p := by
  have hp : beforeBody p ++ (splitBody (splitPrefix p).2).2 = p := by
    rw [beforeBody, List.append_assoc, splitBody_append, splitPrefix_append]
  rcases directory_cases p with ⟨-, h⟩ | ⟨-, h⟩ | h
  · rw [h]
    conv_rhs => rw [← hp]
    refine (List.prefix_append_right_inj _).mpr ?_
    exact (isPrefix_trimRight _).trans ((List.rdropWhile_prefix _ _).trans (isPrefix_trimRight _))
  · exact h ▸ ⟨_, splitPrefix_append p⟩
  · exact h ▸ List.nil_prefix

/-- A directory is not a share without its root. -/
theorem directory_ne_share {p a b server c share} (hs : IsShare a b server c share) :
    directory p ≠ a :: b :: (server ++ c :: share) := by
  intro h
  obtain ⟨r, hr⟩ := isPrefix_directory p
  -- the share goes on as far as a name does
  have hlonger : IsShare a b server c (share ++ r.takeWhile inName) :=
    { hs with
      share_ne := by simp [hs.share_ne]
      share_name := fun x hx => (List.mem_append.mp hx).elim (hs.share_name x)
        fun hx => List.mem_takeWhile_imp hx }
  have hp : splitPrefix p =
      (a :: b :: (server ++ c :: (share ++ r.takeWhile inName)), r.dropWhile inName) := by
    have hshare := splitPrefix_share hlonger (atEnd_dropWhile r)
    rw [List.append_assoc, List.takeWhile_append_dropWhile] at hshare
    rw [← hshare, ← hr, h]
    simp
  have hend := atEnd_dropWhile r
  have hne : directory p ≠ [] := by simp [h]
  rcases directory_cases p with ⟨hbody, hdir⟩ | ⟨hdot, -⟩ | hnil
  · rw [beforeBody, hp, h] at hdir
    have hlength := congrArg List.length hdir
    simp only [List.length_append, List.length_cons] at hlength
    have hroot : (splitBody (r.dropWhile inName)).1 = [] :=
      List.length_eq_zero_iff.mp (by omega)
    cases hrest : r.dropWhile inName with
    | nil =>
      refine hbody ?_
      rw [body, hp, hrest]
      rfl
    | cons d rest =>
      have hd : isSep d = true := by simpa [atEnd, hrest] using hend
      rw [hrest, splitBody, if_pos (by simp [hd])] at hroot
      cases hroot
  · rw [hp] at hdot
    cases hrest : r.dropWhile inName with
    | nil =>
      rw [hrest] at hdot
      cases hdot
    | cons d rest =>
      have hd : isSep d = true := by simpa [atEnd, hrest] using hend
      rw [hrest, splitBody, if_pos (by simp [hd])] at hdot
      obtain rfl : d = '.' := by simpa using hdot
      exact absurd hd (by decide)
  · exact hne hnil

/-! ## 6. Joining a name to a directory -/

/-- A file name: it is not empty, is in no directory, and names no drive. -/
structure IsName (name : List Char) : Prop where
  ne_nil : name ≠ []
  inside : ∀ c ∈ name, inName c = true
  no_drive : hasDrive name = false

theorem IsName.no_prefix {name : List Char} (h : IsName name) : (splitPrefix name).1 = [] := by
  obtain ⟨x, y, rfl⟩ := List.exists_cons_of_ne_nil h.ne_nil
  have hx : isSep x = false := by simpa [inName] using h.inside x (by simp)
  rcases splitPrefix_cases (x :: y) with ⟨l, rest, hdrive, -, -⟩ |
    ⟨a, b, server, d, share, rest, hs, -, heq, -⟩ | hp
  · rw [h.no_drive] at hdrive
    cases hdrive
  · obtain ⟨rfl, -⟩ := List.cons.inj heq
    rw [hs.seps.1] at hx
    cases hx
  · rw [hp]

theorem join_name {name : List Char} (h : IsName name) (d : List Char) :
    join d name = atName d ++ name := by
  have hroot : hasRoot name = false := by
    obtain ⟨c, rest, rfl⟩ := List.exists_cons_of_ne_nil h.ne_nil
    simpa [hasRoot, inName] using h.inside c (by simp)
  rw [join, if_neg (by simp [h.no_prefix]), if_neg (by simp [hroot])]

theorem volume_of_drive {path : List Char} (h : hasDrive path = true) :
    (splitPrefix path).1 ≠ [] := by
  obtain ⟨l, rest, rfl⟩ := eq_of_hasDrive h
  rw [splitPrefix, if_pos h, List.splitAt_eq]
  simp

/-- A path with a drive is not moved. -/
theorem join_drive {path : List Char} (h : hasDrive path = true) (d : List Char) :
    join d path = path := by
  rw [join, if_pos (volume_of_drive h)]

/-- A name is put after a separator, or after the colon of a drive. -/
theorem getLast_atName {d u : List Char} {c : Char} (h : atName d = u ++ [c]) :
    isSep c = true ∨ c = ':' := by
  unfold atName at h
  split at h
  · obtain rfl : '\\' = c := by simpa using (List.append_inj' h rfl).2
    exact .inl (by decide)
  · rename_i hneed
    rw [h] at hneed
    by_cases hc : isSep c = true
    · exact .inl hc
    · right
      obtain ⟨hdrive, hlength⟩ : hasDrive (u ++ [c]) = true ∧ (u ++ [c]).length = 2 := by
        simpa [needSep, inName, hc] using hneed
      obtain ⟨l, rest, hl⟩ := eq_of_hasDrive hdrive
      rw [hl] at hlength
      obtain rfl : rest = [] := List.length_eq_zero_iff.mp (by simpa using hlength)
      have hcolon : u ++ [c] = [l] ++ [':'] := hl
      simpa using (List.append_inj' hcolon rfl).2

/-- A path that ends with a separator after another directory is that directory's root, and no
separator is put there. -/
theorem directory_ne_sep {p q : List Char} (hp : needSep (directory p) = true) :
    directory q ≠ directory p ++ ['\\'] := by
  intro h
  have hq := directory_root h (by decide)
  rcases splitPrefix_cases q with ⟨l, rest, hdrive, rfl, hsplit⟩ |
    ⟨a, b, server, c, share, rest, hs, -, -, hsplit⟩ | hsplit
  · rw [hsplit] at hq
    have hdrive' : hasDrive [l, ':'] = true := by simpa [hasDrive] using hdrive
    simp [hq, needSep, hdrive'] at hp
  · rw [hsplit] at hq
    exact directory_ne_share hs hq
  · rw [hsplit] at hq
    simp [hq, needSep] at hp

theorem atName_injective {p q : List Char} (h : atName (directory p) = atName (directory q)) :
    directory p = directory q := by
  unfold atName at h
  split at h <;> split at h
  · exact List.append_cancel_right h
  · rename_i hp _
    exact absurd h.symm (directory_ne_sep hp)
  · rename_i _ hq
    exact absurd h (directory_ne_sep hq)
  · exact h

/-- **A name joined to a directory** gives another path for each directory. -/
theorem join_injective {name : List Char} (h : IsName name) {p q : List Char}
    (heq : join (directory p) name = join (directory q) name) : directory p = directory q := by
  rw [join_name h, join_name h] at heq
  exact atName_injective (List.append_cancel_right heq)

end DcsDashboard.Lib.WindowsPath
