/-
# Injected scripts

`carrier_recovery.rs` sends the mission a script that calls the controller, and the names of the
carriers are written into it between quotes.  What guards the script is `parse_group_names`: the
names it accepts are in a conservative character set (`parseGroupNames_eq_ok`), so that each of
them is read back as one string and the rest of the script as it was written
(`parseGroupNames_safe`).

The text of the controller is a parameter.  All that is used of it is that it is a whole number of
tokens.
-/
import DcsDashboard.Airboss.TargetPanel
import DcsDashboard.Lib.Grouping
import DcsDashboard.Lib.LuaWriting
import DcsDashboard.Lib.TextLines

namespace DcsDashboard.Carrier.Injection

open Lib Lua

/-! ## 1. Group names -/

/-- `MAX_BATCH_GROUPS`. -/
def maxBatchGroups : Nat := 16

/-- The loop of `parse_group_names`. -/
def collectNames (names : List (List Char)) :
    List (List Char) → Except (List Char) (List (List Char))
  | [] => .ok names
  | part :: parts =>
    let name := trim part
    if name = [] then collectNames names parts
    else if Airboss.isValidGroupName (String.ofList name) = false then
      .error ("Invalid carrier group name: ".toList ++ name)
    else collectNames (if name ∈ names then names else names ++ [name]) parts

/-- `parse_group_names`. -/
def parseGroupNames (raw : List Char) : Except (List Char) (List (List Char)) :=
  match collectNames [] (raw.splitOn ',') with
  | .error message => .error message
  | .ok names =>
    if names = [] then .error "No carrier group name given".toList
    else if names.length > maxBatchGroups then
      .error ("At most ".toList ++ Nat.toDigits 10 maxBatchGroups ++
        " carriers per request".toList)
    else .ok names

/-! ## 2. Scripts -/

structure Scripts where
  probe : List Char
  install : List Char

/-- `version_check`. -/
def versionCheck : List Char :=
  "CarrierRecovery and CarrierRecovery.VERSION == \"1.2.0\"".toList

/-- `scripts_for`. -/
def scriptsFor (luaModule call : List Char) : Scripts where
  probe := "if ".toList ++ versionCheck ++ " then\n".toList ++ call ++
    "\nelse\nreturn \x7b needs_install = true \x7d\nend".toList
  install := "if not (".toList ++ versionCheck ++ ") then\n(function()\n".toList ++ luaModule ++
    "\nend)()\nend\n".toList ++ call

/-- `format!("\"{g}\"")`. -/
def quoted (name : List Char) : List Char := '"' :: name ++ ['"']

/-- `wind_reports_scripts`. -/
def windReportsScripts (luaModule : List Char) (groups : List (List Char)) : Scripts :=
  scriptsFor luaModule ("return CarrierRecovery.windReports(\x7b ".toList ++
    ", ".toList.intercalate (groups.map quoted) ++ " \x7d)".toList)

/-! ## 3. Accepted names -/

/-- One to 64 characters of the set. -/
def IsGroupName (name : List Char) : Prop :=
  (1 ≤ name.length ∧ name.length ≤ 64) ∧
    ∀ c ∈ name, c.isAlphanum = true ∨ c ∈ [' ', '_', '.', '-']

theorem isValidGroupName_iff {name : List Char} :
    Airboss.isValidGroupName (String.ofList name) = true ↔ IsGroupName name := by
  simp only [Airboss.isValidGroupName, IsGroupName, String.toList_ofList, Bool.and_eq_true,
    decide_eq_true_eq, List.all_eq_true, Bool.or_eq_true]

/-- The trimmed parts that are not empty. -/
def groupParts (parts : List (List Char)) : List (List Char) :=
  (parts.map trim).filter (· ≠ [])

theorem groupParts_cons (part : List Char) (parts : List (List Char)) :
    groupParts (part :: parts) =
      if trim part = [] then groupParts parts else trim part :: groupParts parts := by
  unfold groupParts
  rw [List.map_cons, List.filter_cons]
  by_cases hpart : trim part = []
  · simp [hpart]
  · simp [hpart]

/-- The loop keeps the first occurrences of the parts it has read. -/
theorem collectNames_eq_ok {done parts v : List (List Char)} :
    collectNames done.eraseDups parts = .ok v ↔
      (∀ name ∈ groupParts parts, IsGroupName name) ∧
        v = (done ++ groupParts parts).eraseDups := by
  induction parts generalizing done with
  | nil => simp [collectNames, groupParts, eq_comm]
  | cons part parts ih =>
    rw [collectNames, groupParts_cons]
    by_cases hempty : trim part = []
    · simp only [hempty, if_true]
      exact ih
    · simp only [hempty, if_false]
      by_cases hvalid : Airboss.isValidGroupName (String.ofList (trim part)) = true
      · have hnames : (if trim part ∈ done.eraseDups then done.eraseDups
            else done.eraseDups ++ [trim part]) = (done ++ [trim part]).eraseDups := by
          rw [eraseDups_concat]
          simp only [List.mem_eraseDups]
        rw [if_neg (by simp [hvalid]), hnames, ih]
        simp [isValidGroupName_iff.mp hvalid, List.append_assoc]
      · rw [if_pos (by simpa using hvalid)]
        simp [← isValidGroupName_iff, hvalid]

/-- **The accepted queries.** -/
theorem parseGroupNames_eq_ok {raw : List Char} {v : List (List Char)} :
    parseGroupNames raw = .ok v ↔
      v = (groupParts (raw.splitOn ',')).eraseDups ∧ (1 ≤ v.length ∧ v.length ≤ 16) ∧
        ∀ name ∈ v, IsGroupName name := by
  have hloop : ∀ w, collectNames [] (raw.splitOn ',') = .ok w ↔
      (∀ name ∈ w, IsGroupName name) ∧ w = (groupParts (raw.splitOn ',')).eraseDups := by
    intro w
    have hrun := @collectNames_eq_ok [] (raw.splitOn ',') w
    rw [List.nil_append, List.eraseDups_nil] at hrun
    rw [hrun]
    refine and_congr_left ?_
    intro hw
    simp only [hw, List.mem_eraseDups]
  rw [parseGroupNames]
  cases hcollect : collectNames [] (raw.splitOn ',') with
  | error message =>
    constructor
    · intro h
      cases h
    · rintro ⟨hv, -, hvalid⟩
      have hok := (hloop v).mpr ⟨hvalid, hv⟩
      rw [hcollect] at hok
      cases hok
  | ok w =>
    obtain ⟨hvalid, hw⟩ := (hloop w).mp hcollect
    rw [← hw]
    constructor
    · intro h
      dsimp only at h
      split at h
      · cases h
      · rename_i hempty
        split at h
        · cases h
        · rename_i hmany
          cases h
          exact ⟨rfl, ⟨List.length_pos_iff.mpr hempty, Nat.le_of_not_lt hmany⟩, hvalid⟩
    · rintro ⟨rfl, ⟨hlow, hhigh⟩, -⟩
      have hmany : ¬ v.length > maxBatchGroups := Nat.not_lt.mpr hhigh
      dsimp only
      rw [if_neg (List.length_pos_iff.mp hlow), if_neg hmany]

/-- Accepted names are trimmed. -/
theorem trim_of_parsed {raw : List Char} {v : List (List Char)} (h : parseGroupNames raw = .ok v)
    {name : List Char} (hname : name ∈ v) : trim name = name := by
  rw [(parseGroupNames_eq_ok.mp h).1, List.mem_eraseDups] at hname
  obtain ⟨part, -, rfl⟩ := List.mem_map.mp (List.mem_of_mem_filter hname)
  exact trim_trim part

theorem isPlain_of_isGroupName {name : List Char} (h : IsGroupName name) {c : Char}
    (hc : c ∈ name) : IsPlain '"' c ∧ c ≠ ',' := by
  have hall : ∀ c ∈ [' ', '_', '.', '-'], IsPlain '"' c ∧ c ≠ ',' := by
    simp [IsPlain, isNewline]
  rcases h.2 c hc with halnum | hmem
  · refine ⟨isPlain_of_isNameChar (by simp [isNameChar, halnum]), ?_⟩
    rintro rfl
    exact absurd halnum (by decide)
  · exact hall c hmem

/-- **The names are parsed again** when they are joined with commas. -/
theorem parseGroupNames_intercalate {raw : List Char} {v : List (List Char)}
    (h : parseGroupNames raw = .ok v) : parseGroupNames ([','].intercalate v) = .ok v := by
  obtain ⟨hv, hlength, hvalid⟩ := parseGroupNames_eq_ok.mp h
  have hsplit : ([','].intercalate v).splitOn ',' = v := by
    refine List.splitOn_intercalate ',' ?_ ?_
    · intro name hname hcomma
      exact (isPlain_of_isGroupName (hvalid name hname) hcomma).2 rfl
    · exact List.length_pos_iff.mp hlength.1
  have hparts : groupParts v = v := by
    have htrim : v.map trim = v := by
      rw [List.map_congr_left fun name hname => trim_of_parsed h hname, List.map_id']
    rw [groupParts, htrim]
    refine List.filter_eq_self.mpr ?_
    intro name hname
    have hpos := (hvalid name hname).1.1
    simpa using List.length_pos_iff.mp hpos
  have hnodup : v.Nodup := by
    rw [hv]
    exact nodup_eraseDups _
  refine parseGroupNames_eq_ok.mpr ⟨?_, hlength, hvalid⟩
  rw [hsplit, hparts]
  exact (eraseDups_of_nodup hnodup).symm

/-! ## 4. The tokens of a script -/

/-- A name or a reserved word. -/
def word (x : String) : Token := .name x.toList

/-- `CarrierRecovery and CarrierRecovery.VERSION == "1.2.0"`. -/
def checkTokens : List Token :=
  [word "CarrierRecovery", word "and", word "CarrierRecovery", .sym '.',
    word "VERSION", .sym '=', .sym '=', .string (utf8Bytes "1.2.0".toList)]

/-- The probe around a call. -/
def probeTokens (call : List Token) : List Token :=
  [word "if"] ++ checkTokens ++ [word "then"] ++ call ++
    [word "else", word "return", .sym '{', word "needs_install",
      .sym '=', word "true", .sym '}', word "end"]

/-- The install script around the controller and a call. -/
def installTokens (moduleTokens call : List Token) : List Token :=
  [word "if", word "not", .sym '('] ++ checkTokens ++
    [.sym ')', word "then", .sym '(', word "function", .sym '(', .sym ')'] ++
    moduleTokens ++
    [word "end", .sym ')', .sym '(', .sym ')', word "end"] ++ call

/-- The strings of a table constructor. -/
def nameTokens (names : List (List Char)) : List Token :=
  (names.map fun name => .string (utf8Bytes name)).intersperse (.sym ',')

/-- `return CarrierRecovery.windReports({ ... })`. -/
def windReportsTokens (names : List (List Char)) : List Token :=
  [word "return", word "CarrierRecovery", .sym '.', word "windReports",
    .sym '(', .sym '{'] ++ nameTokens names ++ [.sym '}', .sym ')']

theorem lexes_quoted {name : List Char} (h : IsGroupName name) :
    Lexes .normal (quoted name) [.string (utf8Bytes name)] .normal := by
  have hbody : Lexes (.string '"' []) name [] (.string '"' (utf8Bytes name)) := by
    have hplain := @lexes_string_plains '"' [] name fun c hc => (isPlain_of_isGroupName h hc).1
    simpa using hplain
  have hend : Lexes (.string '"' (utf8Bytes name)) ['"'] [.string (utf8Bytes name)] .normal := by
    simp [lexes_cons, lexStep, lexString]
  exact Lexes.skip (by decide) (hbody.append hend)

/-- Each name is one string. -/
theorem lexes_names {names : List (List Char)} (h : ∀ name ∈ names, IsGroupName name) :
    Lexes .normal (", ".toList.intercalate (names.map quoted)) (nameTokens names) .normal := by
  induction names with
  | nil => decide
  | cons name names ih =>
    have hname := lexes_quoted (h name (by simp))
    cases names with
    | nil => simpa [nameTokens] using hname
    | cons next rest =>
      have hcomma : Lexes .normal ", ".toList [.sym ','] .normal := by decide
      have hrest := ih fun n hn => h n (List.mem_cons_of_mem _ hn)
      have hall := hname.append (hcomma.append hrest)
      simpa [nameTokens] using hall

theorem lexes_windReports {names : List (List Char)} (h : ∀ name ∈ names, IsGroupName name) :
    Lexes .normal ("return CarrierRecovery.windReports(\x7b ".toList ++
      ", ".toList.intercalate (names.map quoted) ++ " \x7d)".toList)
      (windReportsTokens names) .normal := by
  have hopen : Lexes .normal "return CarrierRecovery.windReports(\x7b ".toList
      [word "return", word "CarrierRecovery", .sym '.',
        word "windReports", .sym '(', .sym '{'] .normal := by decide +kernel
  have hclose : Lexes .normal " \x7d)".toList [.sym '}', .sym ')'] .normal := by decide
  exact (hopen.append (lexes_names h)).append hclose

theorem lexes_versionCheck : Lexes .normal versionCheck checkTokens .normal := by
  decide +kernel

section
variable {luaModule call : List Char} {moduleTokens callTokens : List Token}

/-- The probe is read around its call. -/
theorem lex_probe (hcall : Lexes .normal call callTokens .normal) :
    lex (scriptsFor luaModule call).probe = some (probeTokens callTokens) := by
  have hif : Lexes .normal "if ".toList [word "if"] .normal := by decide
  have hthen : Lexes .normal " then\n".toList [word "then"] .normal := by decide
  have helse : Lexes .normal ("\nelse\nreturn \x7b needs_install = true \x7d\nend".toList ++
      ['\n'])
      [word "else", word "return", .sym '{', word "needs_install",
        .sym '=', word "true", .sym '}', word "end"] .normal := by
    decide +kernel
  have hall := (((hif.append lexes_versionCheck).append hthen).append hcall).append helse
  rw [lex_eq_some_iff]
  simpa only [scriptsFor, probeTokens, List.append_assoc] using hall

/-- The install script is read around the controller and its call. -/
theorem lex_install (hmodule : Lexes .normal (luaModule ++ ['\n']) moduleTokens .normal)
    (hcall : Lexes .normal call callTokens .normal) :
    lex (scriptsFor luaModule call).install = some (installTokens moduleTokens callTokens) := by
  have hif : Lexes .normal "if not (".toList [word "if", word "not", .sym '(']
      .normal := by decide
  have hfunction : Lexes .normal ") then\n(function()\n".toList
      [.sym ')', word "then", .sym '(', word "function", .sym '(', .sym ')']
      .normal := by decide +kernel
  have hend : Lexes .normal "end)()\nend\n".toList
      [word "end", .sym ')', .sym '(', .sym ')', word "end"] .normal := by
    decide
  have hfeed : Lexes .normal ['\n'] [] .normal := by decide
  have hall := (((((hif.append lexes_versionCheck).append hfunction).append hmodule).append
    hend).append hcall).append hfeed
  have hlines : "\nend)()\nend\n".toList = '\n' :: "end)()\nend\n".toList := rfl
  rw [lex_eq_some_iff]
  simpa only [scriptsFor, hlines, installTokens, List.append_assoc, List.cons_append,
    List.nil_append, List.append_nil] using hall

end

/-- **Group names cannot alter the script.**  A query is accepted when its trimmed parts, each
once, are 1 to 16 group names; the scripts for them are the fixed texts around a table constructor
with these names as its strings, and the names joined with commas are the same query. -/
theorem parseGroupNames_safe {luaModule : List Char} {moduleTokens : List Token}
    (hmodule : Lexes .normal (luaModule ++ ['\n']) moduleTokens .normal) (raw : List Char)
    (v : List (List Char)) :
    (parseGroupNames raw = .ok v ↔
      v = (groupParts (raw.splitOn ',')).eraseDups ∧ (1 ≤ v.length ∧ v.length ≤ 16) ∧
        ∀ name ∈ v, IsGroupName name) ∧
    (parseGroupNames raw = .ok v →
      lex (windReportsScripts luaModule v).probe = some (probeTokens (windReportsTokens v)) ∧
        lex (windReportsScripts luaModule v).install =
          some (installTokens moduleTokens (windReportsTokens v)) ∧
        parseGroupNames ([','].intercalate v) = .ok v) := by
  refine ⟨parseGroupNames_eq_ok, ?_⟩
  intro h
  have hcall := lexes_windReports (parseGroupNames_eq_ok.mp h).2.2
  exact ⟨lex_probe hcall, lex_install hmodule hcall, parseGroupNames_intercalate h⟩

def twoCarriers : List (List Char) := ["CVN-72".toList, "CVN-74".toList]

theorem parseGroupNames_safe_carriers :
    parseGroupNames "CVN-72, CVN-74,,CVN-72".toList = .ok twoCarriers ∧
      lex (windReportsScripts "CarrierRecovery = CarrierRecovery or \x7b\x7d".toList
        twoCarriers).probe = some (probeTokens (windReportsTokens twoCarriers)) := by
  have hmodule : Lexes .normal ("CarrierRecovery = CarrierRecovery or \x7b\x7d".toList ++ ['\n'])
      [word "CarrierRecovery", .sym '=', word "CarrierRecovery",
        word "or", .sym '{', .sym '}'] .normal := by decide +kernel
  have hvalid : (twoCarriers.all fun name =>
      Airboss.isValidGroupName (String.ofList name)) = true := by decide +kernel
  have hparsed : parseGroupNames "CVN-72, CVN-74,,CVN-72".toList = .ok twoCarriers :=
    (parseGroupNames_safe hmodule _ _).1.mpr ⟨by decide +kernel, by decide,
      fun name hname => isValidGroupName_iff.mp (List.all_eq_true.mp hvalid name hname)⟩
  exact ⟨hparsed, ((parseGroupNames_safe hmodule _ _).2 hparsed).1⟩

end DcsDashboard.Carrier.Injection
