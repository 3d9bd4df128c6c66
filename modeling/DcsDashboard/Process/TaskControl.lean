/-
# What PowerShell is given to run

`routes/system.rs` starts and stops scheduled tasks and Windows services, and starts a process that
it could not launch in the session of the user, by texts that PowerShell runs.  The names stand in
them between single quotes, which are doubled.

The text of a request reads as the commands on the name of the request, and nothing else, if and
only if the name has none of the curly quotes (`taskRequest_exact`, `startCommand_exact`).  The names
of services have none unless the configuration does (`serviceRequest_exact`).  Every task that is
listed can be controlled (`listed_task_controlled`).  A command line is split into its quoted
executable and the arguments unless these end with a single quote (`startCommand_exact`).
-/
import DcsDashboard.Foothold.ConfigHelp
import DcsDashboard.Lib.Json
import DcsDashboard.Lib.LowerCase
import DcsDashboard.Lib.PowerShellText
import DcsDashboard.Lib.TextLines
import DcsDashboard.Lib.WindowsPath

namespace DcsDashboard.Process

open Lib Lib.PowerShell Lib.WindowsPath

/-! ## 1. Scheduled tasks -/

/-- A row of `tasks_get`. -/
structure Task where
  name : List Char
  state : String
  rawState : Json

section
-- `as_i64` looks at how a number is written: it has none for `3.0`
variable (asI64 : Json → Option Int)

/-- The name of a state of the scheduler. -/
def taskState (rawState : Json) : String :=
  match asI64 rawState with
  | some 4 => "Running"
  | some 3 => "Ready"
  | some 1 => "Disabled"
  | _ => "Unknown"

def readTask (t : Json) : Task :=
  let rawState := (t.get "State").getD .null
  ⟨(((t.get "TaskName").bind Json.asStr).getD "").toList, taskState asI64 rawState, rawState⟩

/-- `tasks_get`, of what PowerShell has printed. -/
def tasksGet (T : LowerCase) (whitelist : List (List Char)) (parsed : Json) : List Task :=
  let rawTasks := match parsed with
    | .arr a => a
    | other => [other]
  let tasks := rawTasks.map (readTask asI64)
  if whitelist ≠ [] then tasks.filter fun task => T.toLowercase task.name ∈ whitelist
  else tasks.mergeSort fun a b => textLe a.name b.name

end

/-- A response, or what PowerShell is given to run. -/
inductive TaskReply
  | badRequest (error : String)
  | forbidden (error : String)
  | run (script : List Char)

/-- The text for an action. -/
def taskScript (action : String) (safe : List Char) : Option (List Char) :=
  if action = "start" then some ("Start-ScheduledTask -TaskName '".toList ++ safe ++ "'".toList)
  else if action = "stop" then some ("Stop-ScheduledTask -TaskName '".toList ++ safe ++ "'".toList)
  else if action = "restart" then
    some ("Stop-ScheduledTask -TaskName '".toList ++ safe ++
      "'; Start-ScheduledTask -TaskName '".toList ++ safe ++ "'".toList)
  else none

/-- `tasks_post`, up to what is run. -/
def tasksPost (T : LowerCase) (whitelist : List (List Char)) (taskName : Option (List Char))
    (action : Option String) : TaskReply :=
  let taskName := taskName.getD []
  let action := action.getD ""
  if taskName = [] ∨ action = "" then .badRequest "Missing taskName or action"
  else if whitelist ≠ [] ∧ T.toLowercase taskName ∉ whitelist then
    .forbidden "Task is not in the allowed whitelist."
  else
    match taskScript action (doubleQuotes taskName) with
    | some script => .run script
    | none => .badRequest "Invalid action"

/-! ## 2. Services -/

inductive ServiceReply
  | notConfigured
  | badRequest
  | run (script : List Char)

/-- `windows_services_post`, up to what is run. -/
def servicesPost (services : List (List Char)) (name : List Char) (action : String) :
    ServiceReply :=
  if !services.any fun s => eqIgnoreAsciiCase s name then .notConfigured
  else if action = "start" then
    .run ("Start-Service -Name '".toList ++ doubleQuotes name ++ "'".toList)
  else if action = "stop" then
    .run ("Stop-Service -Name '".toList ++ doubleQuotes name ++ "' -Force".toList)
  else if action = "restart" then
    .run ("Restart-Service -Name '".toList ++ doubleQuotes name ++ "' -Force".toList)
  else .badRequest

/-! ## 3. Commands -/

/-- `split_command`: the executable and its arguments. -/
def splitCommand (rawCmd : List Char) : List Char × List Char :=
  let cmd := trimMatches '\'' (trim rawCmd)
  match cmd with
  | '"' :: unquoted =>
    match splitOnce '"' unquoted with
    | some (exe, rest) => (exe, trim rest)
    | none => (cmd, [])
  | _ =>
    match splitOnce ' ' cmd with
    | some (exe, rest) => (exe, trim rest)
    | none => (cmd, [])

/-- An option and its value, quoted. -/
def optionText (option value : List Char) : List Char :=
  ' ' :: option ++ " '".toList ++ doubleQuotes value ++ "'".toList

/-- The text that starts a process. -/
def startText (exe args : List Char) (workingDir : Option (List Char)) : List Char :=
  "Start-Process".toList ++ (optionText "-FilePath".toList exe ++
    ((if args = [] then [] else optionText "-ArgumentList".toList args) ++
      match workingDir with
      | some dir => optionText "-WorkingDirectory".toList dir
      | none => []))

/-- The fallback of `start_via_command`. -/
def startScript (rawCmd : List Char) : List Char :=
  startText (splitCommand rawCmd).1 (splitCommand rawCmd).2 (parent (splitCommand rawCmd).1)

/-! ## 4. What is meant -/

def taskCommand (command : String) (name : List Char) : List Token :=
  [.word command.toList, .word "-TaskName".toList, .verbatim name]

/-- The commands of an action on a task. -/
def taskCommands (action : String) (name : List Char) : List Token :=
  if action = "start" then taskCommand "Start-ScheduledTask" name
  else if action = "stop" then taskCommand "Stop-ScheduledTask" name
  else taskCommand "Stop-ScheduledTask" name ++ .symbol ';' ::
    taskCommand "Start-ScheduledTask" name

/-- The command of an action on a service. -/
def serviceCommand (action : String) (name : List Char) : List Token :=
  if action = "start" then
    [.word "Start-Service".toList, .word "-Name".toList, .verbatim name]
  else if action = "stop" then
    [.word "Stop-Service".toList, .word "-Name".toList, .verbatim name, .word "-Force".toList]
  else [.word "Restart-Service".toList, .word "-Name".toList, .verbatim name, .word "-Force".toList]

def optionTokens (option value : List Char) : List Token := [.word option, .verbatim value]

/-- The command that starts a process. -/
def startCommand (exe args : List Char) (workingDir : Option (List Char)) : List Token :=
  .word "Start-Process".toList :: (optionTokens "-FilePath".toList exe ++
    ((if args = [] then [] else optionTokens "-ArgumentList".toList args) ++
      match workingDir with
      | some dir => optionTokens "-WorkingDirectory".toList dir
      | none => []))

/-! ## 5. How the texts are spelled -/

/-- A word that PowerShell takes for one. -/
def IsWord (s : List Char) : Prop := s ≠ [] ∧ s.all isWordChar = true

instance (s : List Char) : Decidable (IsWord s) := inferInstanceAs (Decidable (_ ∧ _))

theorem spells_word {s : List Char} (hs : IsWord s) {text : List Char} {tokens : List Token}
    (htext : text.head?.all endsWord = true) (h : Spells text tokens) :
    Spells (s ++ text) (.word s :: tokens) :=
  .word hs.1 hs.2 htext h

/-- An option with a quoted value. -/
theorem spells_option (option : List Char) (hoption : IsWord option) (value : List Char)
    {text : List Char} {tokens : List Token} (htext : text.head?.any isQuote = false)
    (h : Spells text tokens) :
    Spells (optionText option value ++ text) (optionTokens option value ++ tokens) := by
  have hvalue := Spells.blank (Spells.verbatim value htext h)
  simpa [optionText, optionTokens, quoted] using Spells.blank (spells_word hoption rfl hvalue)

theorem spells_taskCommand (command : String) (hcommand : IsWord command.toList)
    (name : List Char) {text : List Char} {tokens : List Token}
    (htext : text.head?.any isQuote = false) (h : Spells text tokens) :
    Spells (command.toList ++ (" -TaskName '".toList ++ (doubleQuotes name ++ ('\'' :: text))))
      (taskCommand command name ++ tokens) := by
  have hoption := spells_option "-TaskName".toList (by decide) name htext h
  simpa [optionText, optionTokens, taskCommand] using spells_word hcommand rfl hoption

theorem spells_taskScript {action : String} {name script : List Char}
    (h : taskScript action (doubleQuotes name) = some script) :
    Spells script (taskCommands action name) := by
  rw [taskScript] at h
  rw [taskCommands]
  by_cases hstart : action = "start"
  · rw [if_pos hstart] at h ⊢
    cases h
    simpa using spells_taskCommand "Start-ScheduledTask" (by decide) name rfl .nil
  · rw [if_neg hstart] at h ⊢
    by_cases hstop : action = "stop"
    · rw [if_pos hstop] at h ⊢
      cases h
      simpa using spells_taskCommand "Stop-ScheduledTask" (by decide) name rfl .nil
    · rw [if_neg hstop] at h ⊢
      split at h
      · cases h
        have hstart :=
          spells_taskCommand "Start-ScheduledTask" (by decide) name rfl .nil
        have hsymbol := Spells.symbol (c := ';') (by decide) (Spells.blank hstart)
        simpa using spells_taskCommand "Stop-ScheduledTask" (by decide) name rfl hsymbol
      · cases h

theorem spells_serviceScript {services : List (List Char)} {name script : List Char}
    {action : String} (h : servicesPost services name action = .run script) :
    Spells script (serviceCommand action name) := by
  have hforce : Spells " -Force".toList [.word "-Force".toList] := by
    simpa using Spells.blank (spells_word (s := "-Force".toList) (by decide) rfl .nil)
  have hcommand (command : String) (hword : IsWord command.toList) {text : List Char}
      {tokens : List Token} (htext : text.head?.any isQuote = false) (h : Spells text tokens) :
      Spells (command.toList ++ (" -Name '".toList ++ (doubleQuotes name ++ ('\'' :: text))))
        (.word command.toList :: .word "-Name".toList :: .verbatim name :: tokens) := by
    have hoption := spells_option "-Name".toList (by decide) name htext h
    simpa [optionText, optionTokens] using spells_word hword rfl hoption
  rw [servicesPost] at h
  split at h
  · cases h
  · rw [serviceCommand]
    by_cases hstart : action = "start"
    · rw [if_pos hstart] at h ⊢
      cases h
      simpa using hcommand "Start-Service" (by decide) rfl .nil
    · rw [if_neg hstart] at h ⊢
      by_cases hstop : action = "stop"
      · rw [if_pos hstop] at h ⊢
        cases h
        simpa using hcommand "Stop-Service" (by decide) rfl hforce
      · rw [if_neg hstop] at h ⊢
        split at h
        · cases h
          simpa using hcommand "Restart-Service" (by decide) rfl hforce
        · cases h

theorem spells_startText (exe args : List Char) (workingDir : Option (List Char)) :
    Spells (startText exe args workingDir) (startCommand exe args workingDir) := by
  have hdir : ∃ text tokens, Spells text tokens ∧ text.head?.any isQuote = false ∧
      startText exe args workingDir = "Start-Process".toList ++ (optionText "-FilePath".toList exe ++
        ((if args = [] then [] else optionText "-ArgumentList".toList args) ++ text)) ∧
      startCommand exe args workingDir = .word "Start-Process".toList ::
        (optionTokens "-FilePath".toList exe ++
          ((if args = [] then [] else optionTokens "-ArgumentList".toList args) ++ tokens)) := by
    cases workingDir with
    | none => exact ⟨[], [], .nil, rfl, rfl, rfl⟩
    | some dir =>
      have hoption := spells_option "-WorkingDirectory".toList (by decide) dir rfl .nil
      rw [List.append_nil, List.append_nil] at hoption
      exact ⟨_, _, hoption, rfl, rfl, rfl⟩
  obtain ⟨text, tokens, hspells, htext, heq, htokens⟩ := hdir
  rw [heq, htokens]
  by_cases hargs : args = []
  · rw [if_pos hargs, if_pos hargs]
    exact spells_word (by decide) rfl (spells_option _ (by decide) exe htext hspells)
  · rw [if_neg hargs, if_neg hargs]
    have hoption := spells_option "-ArgumentList".toList (by decide) args htext hspells
    exact spells_word (by decide) rfl (spells_option _ (by decide) exe rfl hoption)

/-! ## 6. Requests -/

theorem noCurly_taskCommands {action : String} {name : List Char} :
    (∀ s, Token.verbatim s ∈ taskCommands action name → NoCurly s) ↔ NoCurly name := by
  rw [taskCommands]
  split
  · simp [taskCommand]
  · split
    · simp [taskCommand]
    · simp [taskCommand]

theorem taskScript_isSome {action : String} (safe : List Char) :
    (taskScript action safe).isSome = true ↔ action ∈ ["start", "stop", "restart"] := by
  rw [taskScript]
  split
  · simp_all
  · split
    · simp_all
    · split <;> simp_all

/-- **What a request on a task runs.**  The task is one that the whitelist allows, and the text
reads as the commands on that task if and only if its name has no curly quote. -/
theorem taskRequest_exact (T : LowerCase) (whitelist : List (List Char))
    (taskName : Option (List Char)) (action : Option String) (script : List Char)
    (h : tasksPost T whitelist taskName action = .run script) :
    ∃ name act, taskName = some name ∧ name ≠ [] ∧ action = some act ∧
      act ∈ ["start", "stop", "restart"] ∧ (whitelist = [] ∨ T.toLowercase name ∈ whitelist) ∧
      (lex script = some (taskCommands act name) ↔ NoCurly name) := by
  rw [tasksPost] at h
  split at h
  · cases h
  · rename_i hmissing
    obtain ⟨hname, haction⟩ := not_or.mp hmissing
    split at h
    · cases h
    · rename_i hallowed
      split at h
      · rename_i script' hscript
        cases h
        cases taskName with
        | none => exact absurd rfl hname
        | some name =>
          cases action with
          | none => exact absurd rfl haction
          | some act =>
            refine ⟨name, act, rfl, hname, rfl, ?_, ?_, ?_⟩
            · exact (taskScript_isSome _).mp (Option.isSome_iff_exists.mpr ⟨_, hscript⟩)
            · simpa [or_iff_not_imp_left] using hallowed
            · exact (spells_taskScript hscript).lex_iff.trans noCurly_taskCommands
      · cases h

/-- **A listed task can be controlled**, and what is run reads as the commands on it if and only if
its name has no curly quote. -/
theorem listed_task_controlled (asI64 : Json → Option Int) (T : LowerCase)
    (whitelist : List (List Char)) (parsed : Json) (task : Task)
    (h : task ∈ tasksGet asI64 T whitelist parsed) (hname : task.name ≠ [])
    (action : String) (haction : action ∈ ["start", "stop", "restart"]) :
    ∃ script, tasksPost T whitelist (some task.name) (some action) = .run script ∧
      (lex script = some (taskCommands action task.name) ↔ NoCurly task.name) := by
  have hallowed : ¬ (whitelist ≠ [] ∧ T.toLowercase task.name ∉ whitelist) := by
    rintro ⟨hne, hnot⟩
    simp only [tasksGet, if_pos hne] at h
    exact hnot (by simpa using (List.mem_filter.mp h).2)
  have hne : action ≠ "" := by
    rintro rfl
    simp at haction
  obtain ⟨script, hscript⟩ := Option.isSome_iff_exists.mp
    ((taskScript_isSome (doubleQuotes task.name)).mpr haction)
  refine ⟨script, ?_, (spells_taskScript hscript).lex_iff.trans noCurly_taskCommands⟩
  simp only [tasksPost, Option.getD_some, hname, hne, or_self, if_false, if_neg hallowed, hscript]

theorem servicesPost_eq_run {services : List (List Char)} {name script : List Char}
    {action : String} (h : servicesPost services name action = .run script) :
    ∃ s ∈ services, eqIgnoreAsciiCase s name = true := by
  rw [servicesPost] at h
  split at h
  · cases h
  · rename_i hany
    exact List.any_eq_true.mp (by simpa using hany)

theorem toLower_ascii {c : Char} (h : c.toNat < 128) : c.toLower.toNat < 128 := by
  by_cases hrange : c.val ≥ 'A'.val ∧ c.val ≤ 'Z'.val
  · have hle := hrange.2
    rw [UInt32.le_iff_toNat_le] at hle
    have hz : 'Z'.val.toNat = 90 := rfl
    have hshift : ('a'.val - 'A'.val).toNat = 32 := by decide
    have hlower : c.toLower.val = c.val + ('a'.val - 'A'.val) := congrArg Char.val (dif_pos hrange)
    have hval : c.toLower.toNat = c.toLower.val.toNat := rfl
    rw [hval, hlower, UInt32.toNat_add, hshift]
    omega
  · have hlower : c.toLower = c := dif_neg hrange
    rwa [hlower]

theorem curly_beyond {c : Char} (h : isCurly c = true) : 128 ≤ c.toNat := by
  have hcases : ((c = '\u2018' ∨ c = '\u2019') ∨ c = '\u201a') ∨ c = '\u201b' := by
    simpa [isCurly] using h
  rcases hcases with ((rfl | rfl) | rfl) | rfl <;> decide

/-- Case does not matter to curly quotes. -/
theorem noCurly_of_eqIgnoreAsciiCase {s name : List Char} (h : eqIgnoreAsciiCase s name = true)
    (hs : NoCurly s) : NoCurly name := by
  intro c hc
  refine Bool.eq_false_iff.mpr ?_
  intro hcurly
  have hbeyond := curly_beyond hcurly
  have hlower : s.map Char.toLower = name.map Char.toLower := by
    simpa [eqIgnoreAsciiCase] using h
  have hmem : c ∈ s.map Char.toLower := by
    rw [hlower, ← LowerCase.toLower_beyond hbeyond]
    exact List.mem_map_of_mem hc
  obtain ⟨d, hd, heq⟩ := List.mem_map.mp hmem
  have hd' : 128 ≤ d.toNat := by
    by_contra hascii
    have := toLower_ascii (Nat.lt_of_not_le hascii)
    rw [heq] at this
    omega
  rw [LowerCase.toLower_beyond hd'] at heq
  subst heq
  simp [hs d hd] at hcurly

theorem noCurly_serviceCommand {action : String} {name : List Char} :
    (∀ s, Token.verbatim s ∈ serviceCommand action name → NoCurly s) ↔ NoCurly name := by
  rw [serviceCommand]
  split
  · simp
  · split
    · simp
    · simp

/-- **What a request on a service runs** is the command on that service, which the configuration
names up to the case of its letters, where no configured name has a curly quote. -/
theorem serviceRequest_exact (services : List (List Char)) (hservices : ∀ s ∈ services, NoCurly s)
    (name : List Char) (action : String) (script : List Char)
    (h : servicesPost services name action = .run script) :
    (∃ s ∈ services, eqIgnoreAsciiCase s name = true) ∧
      lex script = some (serviceCommand action name) := by
  obtain ⟨s, hs, hname⟩ := servicesPost_eq_run h
  refine ⟨⟨s, hs, hname⟩, (spells_serviceScript h).lex_iff.mpr ?_⟩
  exact noCurly_serviceCommand.mpr (noCurly_of_eqIgnoreAsciiCase hname (hservices s hs))

theorem noCurly_startCommand {exe args : List Char} {workingDir : Option (List Char)} :
    (∀ s, Token.verbatim s ∈ startCommand exe args workingDir → NoCurly s) ↔
      NoCurly exe ∧ NoCurly args ∧ ∀ dir, workingDir = some dir → NoCurly dir := by
  have hempty : NoCurly ([] : List Char) := by simp [NoCurly]
  by_cases hargs : args = []
  · cases workingDir <;> simp [startCommand, optionTokens, hargs, hempty]
  · cases workingDir <;> simp [startCommand, optionTokens, hargs]

theorem parent_noCurly {exe dir : List Char} (h : parent exe = some dir) (hexe : NoCurly exe) :
    NoCurly dir := by
  have hstart := isPrefix_directory exe
  rw [directory, h] at hstart
  exact fun c hc => hexe c (hstart.subset hc)

/-- A command line as it can be configured: an executable between double quotes and its arguments,
with white space before, between and after, and single quotes at either end. -/
structure CommandLine where
  before : List Char
  opening : Nat
  exe : List Char
  gap : List Char
  args : List Char
  closing : Nat
  after : List Char
  blank_before : Blank before
  blank_gap : Blank gap
  blank_after : Blank after
  exe_unquoted : '"' ∉ exe
  args_trimmed : trim args = args

def CommandLine.text (line : CommandLine) : List Char :=
  line.before ++ (List.replicate line.opening '\'' ++ ('"' :: line.exe ++ '"' ::
    (line.gap ++ line.args ++ List.replicate line.closing '\'' ++ line.after)))

theorem splitOnce_append {c : Char} {s : List Char} (h : c ∉ s) (rest : List Char) :
    splitOnce c (s ++ c :: rest) = some (s, rest) := by
  have hs : ∀ d ∈ s, decide (d ≠ c) = true := fun d hd => by
    simpa using fun heq : d = c => h (heq ▸ hd)
  rw [splitOnce, List.dropWhile_append_of_pos hs, List.takeWhile_append_of_pos hs]
  simp

theorem blank_unquoted {s : List Char} (h : Blank s) : s.rdropWhile (· = '\'') = s := by
  refine List.rdropWhile_eq_self_iff.mpr ?_
  intro hne hquote
  have hblank := h _ (List.getLast_mem hne)
  rw [of_decide_eq_true hquote] at hblank
  exact absurd hblank (by decide)

/-- Single quotes at the end are stripped behind the white space before them. -/
theorem unquoted_rest {gap args after : List Char} (hgap : Blank gap) (hafter : Blank after)
    (htrim : trim args = args) (closing : Nat) :
    trim ((trimEnd (gap ++ args ++ List.replicate closing '\'' ++ after)).rdropWhile (· = '\'')) =
      trim (args.rdropWhile (· = '\'')) := by
  have hargs : trim ((gap ++ args).rdropWhile (· = '\'')) = trim (args.rdropWhile (· = '\'')) := by
    rw [rdropWhile_append]
    split
    · rename_i hnil
      rw [blank_unquoted hgap, hnil, ← List.append_nil gap, trim_blank_append hgap]
    · exact trim_blank_append hgap _
  rw [trimEnd_append_blank _ hafter]
  cases closing with
  | zero =>
    rw [List.replicate_zero, List.append_nil]
    by_cases hnil : args = []
    · have hblank : trimEnd gap = [] := List.rdropWhile_eq_nil_iff.mpr hgap
      simp [hnil, hblank]
    · have hend : trimEnd (gap ++ args) = gap ++ args := by
        have hne : args.rdropWhile isWhitespace ≠ [] := by
          rwa [show args.rdropWhile isWhitespace = args from trimEnd_of_trim htrim]
        rw [trimEnd, rdropWhile_append, if_neg hne]
        exact congrArg (gap ++ ·) (trimEnd_of_trim htrim)
      rw [hend, hargs]
  | succ closing =>
    have hquotes : trimEnd (gap ++ args ++ List.replicate (closing + 1) '\'') =
        gap ++ args ++ List.replicate (closing + 1) '\'' := by
      rw [List.replicate_succ', ← List.append_assoc]
      exact List.rdropWhile_concat_neg _ _ _ (by decide)
    have hstripped : (List.replicate (closing + 1) '\'').rdropWhile (· = '\'') = [] :=
      List.rdropWhile_eq_nil_iff.mpr fun c hc => by simpa using List.eq_of_mem_replicate hc
    rw [hquotes, rdropWhile_append, if_pos hstripped, hargs]

/-- What a command line is split into. -/
theorem splitCommand_text (line : CommandLine) :
    splitCommand line.text = (line.exe, trim (line.args.rdropWhile (· = '\''))) := by
  set tail := line.gap ++ line.args ++ List.replicate line.closing '\'' ++ line.after with htail
  have hclosed {p : Char → Bool} (hp : p '"' = false) (start rest : List Char) :
      (start ++ '"' :: rest).rdropWhile p = start ++ '"' :: rest.rdropWhile p := by
    rw [← List.singleton_append, ← List.append_assoc, rdropWhile_append]
    split
    · rename_i hnil
      rw [List.rdropWhile_concat_neg _ _ _ (by simp [hp]), hnil]
    · simp
  have htrimmed : trim line.text =
      List.replicate line.opening '\'' ++ ('"' :: line.exe ++ '"' :: trimEnd tail) := by
    rw [CommandLine.text, ← htail, trim_blank_append line.blank_before, trim_eq_trimEnd]
    have hhead : (List.replicate line.opening '\'' ++ ('"' :: line.exe ++ '"' :: tail)).dropWhile
        isWhitespace = List.replicate line.opening '\'' ++ ('"' :: line.exe ++ '"' :: tail) := by
      cases line.opening with
      | zero => exact List.dropWhile_cons_of_neg (by decide)
      | succ n => exact List.dropWhile_cons_of_neg (by decide)
    rw [hhead, ← List.append_assoc, trimEnd, hclosed (by decide), List.append_assoc, trimEnd]
  have hunquoted : trimMatches '\'' (trim line.text) =
      '"' :: (line.exe ++ '"' :: (trimEnd tail).rdropWhile (· = '\'')) := by
    rw [htrimmed, trimMatches, List.dropWhile_append_of_pos (by simp),
      List.cons_append, List.dropWhile_cons_of_neg (by decide), ← List.cons_append,
      hclosed (by decide), List.cons_append]
  rw [splitCommand, hunquoted]
  simp only [splitOnce_append line.exe_unquoted, htail,
    unquoted_rest line.blank_gap line.blank_after line.args_trimmed]

/-- The arguments come out unless they end with a single quote. -/
theorem splitCommand_text_iff (line : CommandLine) :
    splitCommand line.text = (line.exe, line.args) ↔ line.args.getLast? ≠ some '\'' := by
  rw [splitCommand_text, Prod.mk.injEq, and_iff_right rfl]
  constructor
  · intro h hlast
    obtain ⟨init, hargs⟩ := List.getLast?_eq_some_iff.mp hlast
    rw [hargs, List.rdropWhile_concat_pos _ _ _ (by simp)] at h
    obtain ⟨front, back, hsplit, -, -⟩ := exists_trim_append (init.rdropWhile (· = '\''))
    have hshort := (List.rdropWhile_prefix (· = '\'') init).length_le
    have hlength := congrArg List.length hsplit
    rw [h] at hlength
    simp only [List.length_append, List.length_singleton] at hlength
    omega
  · intro hlast
    have hkept : line.args.rdropWhile (· = '\'') = line.args :=
      List.rdropWhile_eq_self_iff.mpr fun hne hquote => hlast <| by
        rw [List.getLast?_eq_some_getLast hne, of_decide_eq_true hquote]
    rw [hkept, line.args_trimmed]

/-- **What starts a process.**  Whatever is configured, the text reads as the command that starts
the executable with the arguments that the line is split into, in the directory of the executable,
if and only if neither has a curly quote; and a line with a quoted executable is split into that
executable and its arguments if and only if these do not end with a single quote. -/
theorem startCommand_exact :
    (∀ rawCmd, lex (startScript rawCmd) =
        some (startCommand (splitCommand rawCmd).1 (splitCommand rawCmd).2
          (parent (splitCommand rawCmd).1)) ↔
      NoCurly (splitCommand rawCmd).1 ∧ NoCurly (splitCommand rawCmd).2) ∧
    ∀ line : CommandLine, splitCommand line.text = (line.exe, line.args) ↔
      line.args.getLast? ≠ some '\'' := by
  refine ⟨fun rawCmd => ?_, splitCommand_text_iff⟩
  rw [startScript, (spells_startText _ _ _).lex_iff, noCurly_startCommand]
  constructor
  · exact fun h => ⟨h.1, h.2.1⟩
  · exact fun h => ⟨h.1, h.2, fun dir hdir => parent_noCurly hdir h.1⟩

/-! ## 7. Examples -/

theorem taskRequest_exact_nightly :
    lex "Start-ScheduledTask -TaskName 'Nightly ''A'''".toList =
      some (taskCommands "start" "Nightly 'A'".toList) := by
  obtain ⟨name, act, hname, -, haction, -, -, hiff⟩ := taskRequest_exact Foothold.plainLowerCase []
    (some "Nightly 'A'".toList) (some "start")
    "Start-ScheduledTask -TaskName 'Nightly ''A'''".toList rfl
  obtain rfl := Option.some.inj hname
  obtain rfl := Option.some.inj haction
  exact hiff.mpr (by decide)

/-- `as_i64` of numbers that are written without a point. -/
def wholeI64 : Json → Option Int
  | .num n => if n.den = 1 then some n.num else none
  | _ => none

/-- A list of one task, which PowerShell prints without brackets. -/
def oneTask : Json := .obj [("TaskName", .str "DCS Start"), ("State", .num 3)]

theorem listed_task_controlled_dcsStart :
    ∃ script, tasksPost Foothold.plainLowerCase ["dcs start".toList] (some "DCS Start".toList)
        (some "restart") = .run script ∧
      lex script = some (taskCommands "restart" "DCS Start".toList) := by
  obtain ⟨script, hrun, hiff⟩ := listed_task_controlled wholeI64 Foothold.plainLowerCase
    ["dcs start".toList] oneTask ⟨"DCS Start".toList, "Ready", .num 3⟩
    (List.mem_singleton.mpr rfl) (by decide) "restart" (by decide)
  exact ⟨script, hrun, hiff.mpr (by decide)⟩

theorem serviceRequest_exact_spooler :
    lex "Restart-Service -Name 'spooler' -Force".toList =
      some (serviceCommand "restart" "spooler".toList) :=
  (serviceRequest_exact ["Spooler".toList] (by decide) "spooler".toList "restart" _ rfl).2

def serverExe : List Char := "C:\\DCS\\DCS_server.exe".toList

def serverArgs : List Char := "-w \"O'Brien\" --norender".toList

theorem serverExe_unquoted : '"' ∉ serverExe := by decide

theorem serverArgs_trimmed : trim serverArgs = serverArgs := by decide

theorem blank_spaces (n : Nat) : Blank (List.replicate n ' ') := by
  intro c hc
  rw [List.eq_of_mem_replicate hc]
  decide

/-- A command line between single quotes. -/
def serverLine : CommandLine :=
  ⟨List.replicate 0 ' ', 1, serverExe, List.replicate 2 ' ', serverArgs, 1, List.replicate 1 ' ',
    blank_spaces 0, blank_spaces 2, blank_spaces 1, serverExe_unquoted, serverArgs_trimmed⟩

theorem startCommand_exact_server :
    splitCommand "'\"C:\\DCS\\DCS_server.exe\"  -w \"O'Brien\" --norender' ".toList =
        (serverExe, serverArgs) ∧
      lex (startScript serverLine.text) =
        some (startCommand serverExe serverArgs (some "C:\\DCS".toList)) := by
  have hsplit : splitCommand serverLine.text = (serverLine.exe, serverLine.args) :=
    (startCommand_exact.2 serverLine).mpr (by decide)
  have htext := (startCommand_exact.1 serverLine.text).mpr (by rw [hsplit]; decide)
  rw [hsplit] at htext
  exact ⟨hsplit, htext⟩

end DcsDashboard.Process
