/-
# Editing the mission queue in place

`mutate_queue` reads the settings, changes the list of missions, and replaces the text from the
first `["missionList"]` to the first closing brace after the first opening brace after it.  The
writer of the list escapes backslashes only.

So the edit is right when that text is what it is taken for (`OwnBlock`: one field of the table
`cfg`, its value a constructor without braces in it, followed by a comma or by the end of the
table, and not set again), and the names can be written (`IsQuotable`).  It goes wrong on a name
with a closing brace that is already in the list (`brace_breaks_file`).
-/
import DcsDashboard.Lib.LuaReplacing
import DcsDashboard.Lib.RustText
import DcsDashboard.Settings.RoundTrip

namespace DcsDashboard.Settings

open Lib Lua

/-! ## 1. The edit -/

inductive QueueAction
  | add
  | remove
  deriving DecidableEq

/-- The text that `replace_mission_list_block` replaces, between what stands before and after
it. -/
def findBlock (content : List Char) : Option (List Char × List Char × List Char) :=
  (findText "[\"missionList\"]".toList content).bind fun (before, rest) =>
    (findText ['{'] rest).bind fun (head, body) =>
      (findText ['}'] body).map fun (inner, tail) =>
        (before, head ++ inner ++ tail.take 1, tail.drop 1)

/-- The comma after the block goes with it. -/
def dropComma (after : List Char) : List Char :=
  if after.head? = some ',' then after.drop 1 else after

/-- `replace_mission_list_block`. -/
def replaceMissionListBlock (content replacement : List Char) : Option (List Char) :=
  (findBlock content).map fun (before, _, after) => before ++ replacement ++ dropComma after

/-- The queue after an action. -/
def queueAfter (action : QueueAction) (file : String) (queue : List String) : List String :=
  match action with
  | .add => if file ∈ queue then queue else queue ++ [file]
  | .remove => queue.erase file

/-- The block that `mutate_queue` writes. -/
def queueBlock (queue : List String) : List Char :=
  "[\"missionList\"] = \r\n\t\x7b\r\n".toList ++ queueLines 0 queue ++ "\t\x7d,".toList

/-- `mutate_queue`: the file after it. -/
def mutateQueue (F : NumberFormat) (action : QueueAction) (file : String) (content : List Char) :
    Except SettingsError (List Char) :=
  (parseBlocking F content).bind fun settings =>
    let queue := missionList settings
    if action = .add ∧ file ∈ queue then .ok content
    else
      match replaceMissionListBlock content (queueBlock (queueAfter action file queue)) with
      | some content => .ok content
      | none => .error .blockNotFound

/-! ## 2. The block in the file -/

/-- The key of the list of missions. -/
def listKey : List UInt8 := utf8Bytes "missionList".toList

def cfgName : List Char := "cfg".toList

/-- After the text, a field of the table `cfg` may begin. -/
def BeginsField (F : NumberFormat) (before : List Char) (g : List (List Char × Value)) (f : Frame) :
    Prop :=
  ∃ ts, Lexes .normal before ts .normal ∧
    readTokens F.round ⟨[], .statement⟩ ts = some ⟨g, .fieldOrEnd f (.global cfgName)⟩

/-- The tokens are the field of the list, its value a constructor without braces in it. -/
def IsListField (ts : List Token) : Prop :=
  ∃ inner, ts = [.sym '[', .string listKey, .sym ']', .sym '=', .sym '{'] ++ inner ++ [.sym '}'] ∧
    ∀ t ∈ inner, t ≠ .sym '{' ∧ t ≠ .sym '}'

/-- From a reader on, the text goes on with a comma or with the end of the table, and neither
assigns `cfg` again nor sets the list again. -/
def KeepsList (F : NumberFormat) (r : Reader) (after : List Char) : Prop :=
  ∃ ts, Lexes .normal (after ++ ['\n']) ts .normal ∧
    (after.head? = some ',' ∨ ts.head? = some (.sym '}')) ∧ keeps F.round cfgName listKey r ts

/-- **The text that is replaced is the field of the list.** -/
def OwnBlock (F : NumberFormat) (content : List Char) : Prop :=
  ∃ before field after g f ts r, findBlock content = some (before, field, after) ∧
    BeginsField F before g f ∧ Lexes .normal field ts .normal ∧ IsListField ts ∧
    readTokens F.round ⟨g, .fieldOrEnd f (.global cfgName)⟩ ts = some r ∧ KeepsList F r after

theorem findBlock_spec {content before field after : List Char}
    (h : findBlock content = some (before, field, after)) :
    content = before ++ (field ++ after) := by
  obtain ⟨⟨b, rest⟩, h1, h⟩ := Option.bind_eq_some_iff.mp h
  obtain ⟨⟨head, body⟩, h2, h⟩ := Option.bind_eq_some_iff.mp h
  obtain ⟨⟨inner, tail⟩, h3, h⟩ := Option.map_eq_some_iff.mp h
  simp only [Prod.mk.injEq] at h
  obtain ⟨rfl, rfl, rfl⟩ := h
  rw [(findText_spec h1).1, (findText_spec h2).1, (findText_spec h3).1]
  simp only [List.append_assoc, List.take_append_drop]

section
variable {F : NumberFormat}

/-- The new block sets the list, and a comma follows it. -/
theorem extends_queueBlock (hF : F.Lawful) {queue : List String}
    (hnames : ∀ name ∈ queue, IsQuotable name.toList) (hlen : queue.length ≤ 2 ^ 53) (f : Frame) :
    Extends F.round (queueBlock queue) f { f.beforeField with
      entries := f.beforeField.entries.set (.string listKey) (.table (indexed 1 queue)) } := by
  have hplain : ∀ c ∈ "missionList".toList, IsPlain '"' c := isPlain_of_isIdentifier (by decide)
  have hblank : Lexes .normal "\r\n\t".toList [] .normal := by decide
  have hset : f.beforeField.set (.string (utf8Bytes "missionList".toList))
      (.table (indexed 1 queue)) = some { f.beforeField with
        entries := f.beforeField.entries.set (.string listKey) (.table (indexed 1 queue)) } := rfl
  have hfield := extends_field hplain ((written_queue hF hnames hlen).space hblank) hset
  have hopen : "[\"missionList\"] = \r\n\t\x7b\r\n".toList =
      "[\"".toList ++ "missionList".toList ++ "\"] = ".toList ++
        ("\r\n\t".toList ++ '{' :: "\r\n".toList) := by decide
  have hclose : "\t\x7d,".toList = "\t".toList ++ ['}'] ++ [','] := by decide
  have htext : queueBlock queue = "[\"".toList ++ "missionList".toList ++ "\"] = ".toList ++
      ("\r\n\t".toList ++ ('{' :: ("\r\n".toList ++ queueLines 0 queue ++ "\t".toList) ++ ['}']) ++
        [',']) :=
    (congrArg₂ (fun before after => before ++ queueLines 0 queue ++ after) hopen hclose).trans
      (by simp only [List.append_assoc, List.cons_append])
  rw [htext]
  exact hfield

/-! ## 3. The settings after the edit -/

theorem toStr_eq_some {bytes : List UInt8} {s : String} (h : toStr bytes = some s) :
    bytes = utf8Bytes s.toList := by
  unfold toStr String.fromUTF8? at h
  split at h
  · next hvalid =>
    obtain rfl := Option.some.inj h
    have hbytes : bytes.toByteArray = (utf8Bytes
        (String.fromUTF8 bytes.toByteArray hvalid).toList).toByteArray := by
      have hencode := String.utf8Encode_toList (b := String.fromUTF8 bytes.toByteArray hvalid)
      exact hencode.symm
    have hlist := congrArg (fun b : ByteArray => b.data.toList) hbytes
    simpa using hlist
  · cases h

theorem keyName_missionList {k : Key} (h : keyName F k = some "missionList") :
    k = .string listKey := by
  cases k with
  | bool b => cases h
  | string bytes => exact congrArg Key.string (toStr_eq_some h)
  | number x =>
    obtain ⟨i, -, hi⟩ := Option.map_eq_some_iff.mp h
    have htext : intText i = "missionList".toList := by
      have hlist := congrArg String.toList hi
      simpa using hlist
    -- the text of an integer begins with a minus or a digit
    unfold intText at htext
    split at htext
    · simp at htext
    · have hm : 'm' ∈ Nat.toDigits 10 i.natAbs := by rw [htext]; decide
      exact absurd (Nat.isDigit_of_mem_toDigits (by omega) (by omega) hm) (by decide)

/-- An entry other than the list is read whatever the list is. -/
theorem readEntry_of_ne {e : Key × Value} (he : e.1 ≠ .string listKey) {q₀ q : ServerSettings}
    (h : readEntry F q₀ e = .ok q) {q₁ : ServerSettings} (hscalars : q₁.scalars = q₀.scalars)
    (hadvanced : q₁.advanced = q₀.advanced) :
    ∃ q', readEntry F q₁ e = .ok q' ∧ q'.scalars = q.scalars ∧ q'.advanced = q.advanced ∧
      q'.missionList = q₁.missionList := by
  unfold readEntry at h ⊢
  cases hname : keyName F e.1 with
  | none =>
    rw [hname] at h
    obtain rfl := Except.ok.inj h
    exact ⟨q₁, rfl, hscalars, hadvanced, rfl⟩
  | some name =>
    have hne : name ≠ "missionList" := by
      rintro rfl
      exact he (keyName_missionList hname)
    simp only [hname, if_neg hne] at h ⊢
    split at h
    · next hadv =>
      obtain rfl := Except.ok.inj h
      exact ⟨_, if_pos hadv, hscalars, rfl, rfl⟩
    · next hadv =>
      rw [if_neg hadv]
      cases hv : scalarToJson F e.2 with
      | none =>
        rw [hv] at h
        obtain rfl := Except.ok.inj h
        exact ⟨q₁, rfl, hscalars, hadvanced, rfl⟩
      | some v =>
        rw [hv] at h
        obtain rfl := Except.ok.inj h
        exact ⟨_, rfl, by rw [hscalars], hadvanced, rfl⟩

/-- Reading a table whose list has been replaced. -/
theorem foldlM_patch {v : Value} {names : List String} (hv : missionListFromLua v = .ok names)
    {es : Entries} {q₀ q : ServerSettings} (h : es.foldlM (readEntry F) q₀ = .ok q)
    {q₁ : ServerSettings} (hscalars : q₁.scalars = q₀.scalars)
    (hadvanced : q₁.advanced = q₀.advanced)
    (hlist : Entries.Has (.string listKey) es ∨ q₁.missionList = some names) :
    (Entries.patch (.string listKey) v es).foldlM (readEntry F) q₁ =
      .ok { q with missionList := some names } := by
  induction es generalizing q₀ q₁ with
  | nil =>
    obtain rfl := Except.ok.inj h
    have hnames : q₁.missionList = some names := hlist.resolve_left (by simp [Entries.Has])
    exact congrArg Except.ok (ServerSettings.ext hscalars hadvanced hnames)
  | cons e es ih =>
    obtain ⟨q₀', hentry, hrest⟩ : ∃ q₀', readEntry F q₀ e = .ok q₀' ∧
        es.foldlM (readEntry F) q₀' = .ok q := by
      cases hentry : readEntry F q₀ e with
      | error _ => simp [hentry, bind, Except.bind] at h
      | ok q₀' => exact ⟨q₀', rfl, by simpa [hentry, bind, Except.bind] using h⟩
    by_cases he : e.1 = .string listKey
    · -- the list: the new one is read
      have hname : keyName F (.string listKey) = some "missionList" := by
        have hstr := toStr_utf8Bytes "missionList".toList
        rwa [String.ofList_toList] at hstr
      have hpatched : readEntry F q₁ (.string listKey, v) =
          .ok { q₁ with missionList := some names } := by
        simp [readEntry, hname, hv, Except.map]
      have hold : q₀'.scalars = q₀.scalars ∧ q₀'.advanced = q₀.advanced := by
        simp only [readEntry, he, hname, if_true] at hentry
        cases hl : missionListFromLua e.2 with
        | error _ => simp [hl, Except.map] at hentry
        | ok l =>
          rw [hl] at hentry
          obtain rfl := Except.ok.inj hentry
          exact ⟨rfl, rfl⟩
      have hih : (Entries.patch (.string listKey) v es).foldlM (readEntry F)
          { q₁ with missionList := some names } = .ok { q with missionList := some names } :=
        ih hrest (hscalars.trans hold.1.symm) (hadvanced.trans hold.2.symm) (.inr rfl)
      simpa [Entries.patch, he, hpatched, bind, Except.bind] using hih
    · obtain ⟨q₁', hq₁', hs, ha, hm⟩ := readEntry_of_ne he hentry hscalars hadvanced
      have hlist' : Entries.Has (.string listKey) es ∨ q₁'.missionList = some names := by
        rcases hlist with hlist | hlist
        · left
          simpa [Entries.Has, Ne.symm he] using hlist
        · exact .inr (hm.trans hlist)
      have hih := ih hrest hs ha hlist'
      simpa [Entries.patch, he, hq₁', bind, Except.bind] using hih

/-- The constructor with the old list and the one with the new list. -/
theorem patchedFrame_block {f : Frame} {es : Entries} {v : Value} (hv : v ≠ .nil) :
    PatchedFrame listKey v
      { f with entries := f.entries.set (.string listKey) (.table es) }
      { f with entries := f.entries.set (.string listKey) v } where
  eq := by
    have hself : Entries.patch (.string listKey) v (f.entries.set (.string listKey) (.table es)) =
        f.entries.set (.string listKey) v := Entries.patch_set_self (by simp) hv
    rw [hself]
  has := Entries.has_set_self (v := .table es) (by simp)

/-- After the block, the rest of the file is read in step.  Where no comma follows the old block,
the table ends there, and the comma of the new one is the last of it. -/
theorem rest_in_step {g : List (List Char × Value)} {f f' : Frame} {v : Value} {after : List Char}
    {vs : List Token} {r : Reader} (hf : PatchedFrame listKey v f f')
    (hafter : Lexes .normal (after ++ ['\n']) vs .normal)
    (hseparator : after.head? = some ',' ∨ vs.head? = some (.sym '}'))
    (hkeeps : keeps F.round cfgName listKey ⟨g, .separatorOrEnd f (.global cfgName)⟩ vs)
    (hr : readTokens F.round ⟨g, .separatorOrEnd f (.global cfgName)⟩ vs = some r) :
    ∃ ws s, Lexes .normal (dropComma after ++ ['\n']) ws .normal ∧
      readTokens F.round ⟨g, .fieldOrEnd f' (.global cfgName)⟩ ws = some s ∧
      Patched cfgName listKey v r s := by
  by_cases hcomma : after.head? = some ','
  · obtain ⟨rest, rfl⟩ : ∃ rest, after = ',' :: rest := by
      cases after with
      | nil => cases hcomma
      | cons c rest => exact ⟨rest, by rw [Option.some.inj hcomma]⟩
    obtain ⟨ts, m, ws, hstep, hws, rfl⟩ := lexes_cons.mp hafter
    obtain ⟨rfl, rfl⟩ : [.sym ','] = ts ∧ Mode.normal = m := by
      have hnormal : lexStep .normal ',' = some ([.sym ','], .normal) := by decide
      simpa using hnormal.symm.trans hstep
    have hstep' : readToken F.round ⟨g, .separatorOrEnd f (.global cfgName)⟩ (.sym ',') =
        some ⟨g, .fieldOrEnd f (.global cfgName)⟩ := rfl
    simp only [List.singleton_append, readTokens_cons, hstep', Option.bind_some] at hr
    simp only [List.singleton_append, keeps, hstep', Bool.and_eq_true] at hkeeps
    obtain ⟨s, hs, hrs⟩ := (Patched.fieldOrEnd (.here hf)).readTokens hkeeps.2 hr
    exact ⟨ws, s, by simpa [dropComma] using hws, hs, hrs⟩
  · obtain ⟨ws, rfl⟩ : ∃ ws, vs = .sym '}' :: ws := by
      cases vs with
      | nil => simp [hcomma] at hseparator
      | cons t ws => exact ⟨ws, by rw [Option.some.inj (hseparator.resolve_left hcomma)]⟩
    rw [readTokens_cons] at hr
    obtain ⟨r₁, hclose, hr⟩ := Option.bind_eq_some_iff.mp hr
    simp only [keeps, hclose, Bool.and_eq_true] at hkeeps
    have hclosed : closeTable F.round g f (.global cfgName) = some r₁ := hclose
    obtain ⟨s₁, hs₁, h₁⟩ := (PatchedField.here hf).closeTable hclosed
    obtain ⟨s, hs, hrs⟩ := h₁.readTokens hkeeps.2 hr
    refine ⟨.sym '}' :: ws, s, by simpa [dropComma, hcomma] using hafter, ?_, hrs⟩
    have hclose' : readToken F.round ⟨g, .fieldOrEnd f' (.global cfgName)⟩ (.sym '}') = some s₁ :=
      hs₁
    rw [readTokens_cons, hclose', Option.bind_some, hs]

/-- **The file after the replacement.**  It is read as before, with the new list. -/
theorem readChunk_replace (hF : F.Lawful) {content : List Char} {queue : List String}
    (hblock : OwnBlock F content) (hnames : ∀ name ∈ queue, IsQuotable name.toList)
    (hlen : queue.length ≤ 2 ^ 53) {globals : List (List Char × Value)}
    (hread : readChunk F.round content = some globals) :
    ∃ new globals', replaceMissionListBlock content (queueBlock queue) = some new ∧
      readChunk F.round new = some globals' ∧
      PatchedGlobals cfgName listKey (.table (indexed 1 queue)) globals globals' := by
  obtain ⟨before, field, after, g, f, us, r, hcut, ⟨ts, hbefore, hstart⟩, hfield, hlist, hr,
    vs, hafter, hseparator, hkeeps⟩ := hblock
  obtain ⟨inner, rfl, hinner⟩ := hlist
  obtain ⟨es, rfl⟩ := field_closed hinner hr
  obtain ⟨all, e, hlex, hall, he⟩ := readChunk_eq_some_iff.mp hread
  -- the tokens of the file are those of its three parts
  have hparts := hbefore.append (hfield.append hafter)
  rw [← List.append_assoc field, ← List.append_assoc before, ← findBlock_spec hcut] at hparts
  obtain ⟨rfl, -⟩ := hlex.unique hparts
  rw [readTokens_append, hstart, Option.bind_some, readTokens_append, hr, Option.bind_some] at hall
  have hframe : PatchedFrame listKey (.table (indexed 1 queue))
      { f.beforeField with
        entries := f.beforeField.entries.set (.string listKey) (.table es) }
      { f.beforeField with
        entries := f.beforeField.entries.set (.string listKey) (.table (indexed 1 queue)) } :=
    patchedFrame_block (by simp)
  obtain ⟨ws, s, hws, hs, hpatched⟩ := rest_in_step hframe hafter hseparator hkeeps hall
  obtain ⟨bs, hbs, hnew⟩ := extends_queueBlock hF hnames hlen f
  have hglobals : PatchedGlobals cfgName listKey (.table (indexed 1 queue)) globals s.globals ∧
      s.expecting = e := by
    cases hpatched with
    | statement hg _ => exact ⟨hg, rfl⟩
    | _ => rcases he with he | he <;> cases he
  refine ⟨before ++ queueBlock queue ++ dropComma after, s.globals, ?_, ?_, hglobals.1⟩
  · rw [replaceMissionListBlock, hcut, Option.map_some]
  · refine readChunk_eq_some_iff.mpr ⟨ts ++ (bs ++ ws), e, ?_, ?_, he⟩
    · have hnewparts := hbefore.append (hbs.append hws)
      simpa using hnewparts
    · rw [readTokens_append, hstart, Option.bind_some, readTokens_append, hnew, Option.bind_some,
        hs, ← hglobals.2]

/-- A settings file with nothing but a queue of missions. -/
def queueFile (queue : List String) : List Char :=
  "cfg = \r\n\x7b\r\n".toList ++ missionListBlock (queue.map .str) ++
    "\x7d -- end of cfg\r\n".toList

theorem parse_queueFile (hF : F.Lawful) {queue : List String} (hlen : queue.length ≤ 2 ^ 53)
    (hnames : ∀ name ∈ queue, IsQuotable name.toList) :
    parseBlocking F (queueFile queue) =
      .ok { ServerSettings.empty with missionList := some queue } := by
  have hempty : Built F [] [] .empty := ⟨extends_blank (by decide), rfl⟩
  obtain ⟨es, hbuilt⟩ := hempty.missionList hF (by simp) rfl (o := some (.arr (queue.map .str)))
    fun v hv => ⟨queue, (Option.some.inj hv).symm, hlen, hnames⟩
  have hread : (queue.map Json.str).filterMap Json.asStr = queue := by
    simp [List.filterMap_map, Function.comp_def, Json.asStr]
  have hparse : parseBlocking F (queueFile queue) = .ok { ServerSettings.empty with
      missionList := some ((queue.map Json.str).filterMap Json.asStr) } := hbuilt.parse
  rw [hparse, hread]

/-! ## 4. The edit is right -/

/-- **When the edit does what it is for**: nothing is to be written, or the block is the field of
the list and the names of the new queue can be written. -/
def Editable (F : NumberFormat) (action : QueueAction) (file : String) (content : List Char)
    (settings : ServerSettings) : Prop :=
  (action = .add ∧ file ∈ missionList settings) ∨
    OwnBlock F content ∧
      (∀ name ∈ queueAfter action file (missionList settings), IsQuotable name.toList) ∧
      (queueAfter action file (missionList settings)).length ≤ 2 ^ 53

/-- What the parser makes of a file with another block. -/
theorem parse_replace (hF : F.Lawful) {content : List Char} {settings : ServerSettings}
    (hparse : parseBlocking F content = .ok settings) {queue : List String}
    (hblock : OwnBlock F content) (hnames : ∀ name ∈ queue, IsQuotable name.toList)
    (hlen : queue.length ≤ 2 ^ 53) :
    ∃ new, replaceMissionListBlock content (queueBlock queue) = some new ∧
      parseBlocking F new = .ok { settings with missionList := some queue } := by
  have hchunk : ∃ globals, readChunk F.round content = some globals := by
    cases hc : readChunk F.round content with
    | none => simp [parseBlocking, hc] at hparse
    | some globals => exact ⟨globals, rfl⟩
  obtain ⟨globals, hglobals⟩ := hchunk
  obtain ⟨new, globals', hreplace, hread, es, hlookup, has, hlookup'⟩ :=
    readChunk_replace hF hblock hnames hlen hglobals
  have hes : es.foldlM (readEntry F) .empty = .ok settings := by
    have hvalue : globalValue globals "cfg" = .table es := by
      rw [globalValue, ← cfgName, hlookup, Option.getD_some]
    simpa [parseBlocking, hglobals, hvalue] using hparse
  have hvalue' : globalValue globals' "cfg" = .table (Entries.patch (.string listKey)
      (.table (indexed 1 queue)) es) := by
    rw [globalValue, ← cfgName, hlookup', Option.getD_some]
  refine ⟨new, hreplace, ?_⟩
  simp only [parseBlocking, hread, hvalue']
  exact foldlM_patch (missionListFromLua_indexed _) hes rfl rfl (.inl has)

/-- **The mission queue is edited and nothing else.** -/
theorem mutateQueue_settings (hF : F.Lawful) {action : QueueAction} {file : String}
    {content new : List Char} {settings : ServerSettings}
    (hparse : parseBlocking F content = .ok settings)
    (heditable : Editable F action file content settings)
    (hok : mutateQueue F action file content = .ok new) :
    parseBlocking F new = .ok { settings with
      missionList := some (queueAfter action file (missionList settings)) } := by
  simp only [mutateQueue, hparse, Except.bind] at hok
  split at hok
  · -- the file is in the queue already
    next hnone =>
    obtain rfl := Except.ok.inj hok
    have hlist : settings.missionList = some (queueAfter action file (missionList settings)) := by
      obtain ⟨rfl, hmem⟩ := hnone
      cases hl : settings.missionList with
      | none => simp [missionList, hl] at hmem
      | some l => simp_all [queueAfter, missionList]
    rw [hparse, ← hlist]
  · next hsome =>
    obtain ⟨hblock, hnames, hlen⟩ := heditable.resolve_left hsome
    obtain ⟨new', hreplace, hread⟩ := parse_replace hF hparse hblock hnames hlen
    rw [hreplace] at hok
    obtain rfl := Except.ok.inj hok
    exact hread

end

/-- The block of a file with one mission. -/
theorem ownBlock_oneMission : OwnBlock integers (queueFile ["a.miz"]) := by
  refine ⟨"cfg = \r\n\x7b\r\n\t".toList,
    "[\"missionList\"] = \r\n\t\x7b\r\n\t\t[1] = \"a.miz\",\r\n\t\x7d".toList,
    ", -- end of [\"missionList\"]\r\n\x7d -- end of cfg\r\n".toList, [], .empty,
    [.sym '[', .string listKey, .sym ']', .sym '=', .sym '{', .sym '[', .number 1, .sym ']',
      .sym '=', .string (utf8Bytes "a.miz".toList), .sym ',', .sym '}'],
    ⟨[], .separatorOrEnd ⟨[(.string listKey, .table (indexed 1 ["a.miz"]))], 0, []⟩
      (.global cfgName)⟩, by decide +kernel, ⟨[.name cfgName, .sym '=', .sym '{'], by decide, rfl⟩,
    by decide +kernel, ⟨[.sym '[', .number 1, .sym ']', .sym '=',
      .string (utf8Bytes "a.miz".toList), .sym ','], rfl, by decide⟩, ?_,
    [.sym ',', .sym '}'], by decide +kernel, .inl (by decide), by decide +kernel⟩
  rfl

/-- A mission is added to a file with one mission. -/
theorem mutateQueue_settings_queueFile :
    ∃ new, mutateQueue integers .add "b.miz" (queueFile ["a.miz"]) = .ok new ∧
      parseBlocking integers new =
        .ok { ServerSettings.empty with missionList := some ["a.miz", "b.miz"] } := by
  have hparse : parseBlocking integers (queueFile ["a.miz"]) =
      .ok { ServerSettings.empty with missionList := some ["a.miz"] } :=
    parse_queueFile integers_lawful (by decide) (by decide)
  have hqueue : queueAfter .add "b.miz" ["a.miz"] = ["a.miz", "b.miz"] := by decide
  have hblock := ownBlock_oneMission
  have hreplace : ((replaceMissionListBlock (queueFile ["a.miz"])
      (queueBlock ["a.miz", "b.miz"])).isSome) = true := by decide +kernel
  obtain ⟨new, hnew⟩ := Option.isSome_iff_exists.mp hreplace
  have hok : mutateQueue integers .add "b.miz" (queueFile ["a.miz"]) = .ok new := by
    simp [mutateQueue, hparse, Except.bind, missionList, hqueue, hnew]
  have hedited := mutateQueue_settings integers_lawful hparse
    (.inr ⟨hblock, by decide, by decide⟩) hok
  exact ⟨new, hok, hedited⟩

/-- **A name with a closing brace, already in the queue, breaks the file.**  The block ends at
the brace in the name, and the rest of the name is left behind. -/
theorem brace_breaks_file :
    parseBlocking integers (queueFile ["Op \x7bnight\x7d.miz"]) =
        .ok { ServerSettings.empty with missionList := some ["Op \x7bnight\x7d.miz"] } ∧
      ∃ new, mutateQueue integers .add "b.miz" (queueFile ["Op \x7bnight\x7d.miz"]) = .ok new ∧
        parseBlocking integers new = .error .evaluate := by
  have hparse : parseBlocking integers (queueFile ["Op \x7bnight\x7d.miz"]) =
      .ok { ServerSettings.empty with missionList := some ["Op \x7bnight\x7d.miz"] } :=
    parse_queueFile integers_lawful (by decide) (by decide)
  have hreplace : ((replaceMissionListBlock (queueFile ["Op \x7bnight\x7d.miz"])
      (queueBlock ["Op \x7bnight\x7d.miz", "b.miz"])).any fun new =>
        (readChunk integers.round new).isNone) = true := by decide +kernel
  obtain ⟨new, hnew, hchunk⟩ := (Option.any_eq_true _ _).mp hreplace
  refine ⟨hparse, new, ?_, ?_⟩
  · have hqueue : queueAfter .add "b.miz" ["Op \x7bnight\x7d.miz"] =
        ["Op \x7bnight\x7d.miz", "b.miz"] := by decide
    simp [mutateQueue, hparse, Except.bind, missionList, hqueue, hnew]
  · rw [parseBlocking, Option.isNone_iff_eq_none.mp hchunk]

end DcsDashboard.Settings
