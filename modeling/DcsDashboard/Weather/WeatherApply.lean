/-
# Injecting weather into the next mission

`weather_apply` runs the weather generator on a mission file and lets DCS load it.  Servers rotate
between two copies of a mission, `.._A.miz` and `.._B.miz`, of which the running one is locked, so
that the other one is generated.

DCS reports the running mission by its name only.  Its directory is that of the FIRST entry of the
mission list whose path contains the name, without `_A` or `_B`, anywhere: in a folder, or as a
part of another mission's name.  `weatherApply_target` says when that is the right directory.
-/
import DcsDashboard.Lib.Json
import DcsDashboard.Lib.RustText
import DcsDashboard.Lib.WindowsPath
import Mathlib.Data.List.Infix

namespace DcsDashboard.Weather

open Lib WindowsPath

/-! ## 1. The handler -/

/-- `str::strip_suffix`. -/
def stripSuffix (suffix s : List Char) : Option (List Char) :=
  if suffix <:+ s then some (s.take (s.length - suffix.length)) else none

/-- `strip_ab_suffix`. -/
def stripAbSuffix (name : List Char) : List Char :=
  ((stripSuffix "_A".toList name).or (stripSuffix "_B".toList name)).getD name

/-- What the handler finds out before it runs the generator. -/
structure Situation where
  /-- the name DCS reports, if it answers -/
  missionName : Option (List Char)
  /-- the mission list, if the settings can be read -/
  missionList : Option (List (List Char))
  /-- `dto.json`, if it can be read -/
  dto : Option Json

/-- The file of a mission: `format!("{name}.miz")`. -/
def mizFile (name : List Char) : List Char := name ++ ".miz".toList

/-- 1. Ask DCS for the active mission and rebuild its absolute path. -/
def missionFromDcs (s : Situation) : List Char :=
  match s.missionName with
  | none | some [] => []
  | some active =>
    match (s.missionList.getD []).find? fun raw => stripAbSuffix active <:+: raw with
    | some raw => join (directory raw) (mizFile active)
    | none => []

/-- 2. Fall back to dto.json. -/
def missionFromDto (s : Situation) : List Char :=
  (((s.dto.bind (Json.get "mission")).bind Json.asStr).map String.toList).getD []

/-- 3. Fall back to the first entry of the mission list. -/
def missionFromList (s : Situation) : List Char := (s.missionList.getD []).head?.getD []

/-- The currently running mission (three fallbacks). -/
def currentMission (s : Situation) : List Char :=
  if missionFromDcs s ≠ [] then missionFromDcs s
  else if missionFromDto s ≠ [] then missionFromDto s
  else missionFromList s

/-- A text with one suffix gets another, and the other way round. -/
def exchange (a b s : List Char) : List Char :=
  match stripSuffix a s, stripSuffix b s with
  | some stem, _ => stem ++ b
  | none, some stem => stem ++ a
  | none, none => s

/-- A/B swap so the generator writes the inactive (unlocked) file. -/
def targetMission (current : List Char) : List Char :=
  exchange "_A.miz".toList "_B.miz".toList current

/-- `replace('\\', "\\\\")`. -/
def doubleBackslashes (s : List Char) : List Char :=
  s.flatMap fun c => if c = '\\' then ['\\', '\\'] else [c]

/-- `WeatherApplyBody`. -/
structure WeatherApplyBody where
  presetId : Option Json
  timeOfDay : Option (List Char)

/-- What the handler is configured with, and how it prints a number. -/
structure Config where
  weatherDir : Option (List Char)
  pythonExe : List Char
  number : ℚ → List Char

/-- How the generator ends. -/
inductive Outcome
  | failed (message : List Char)
  | timedOut
  | exited (status : List Char) (stderr : List Char)
  | success (stdout : List Char)

/-- What the handler does to the outside. -/
inductive Action
  | run (program : List Char) (args : List (List Char)) (dir : List Char)
  | loadMission (file : List Char)
  deriving DecidableEq

inductive Response
  | badRequest (message : List Char)
  | serverError (message : List Char)
  | applied (output : List Char)
  deriving DecidableEq

/-- The preset, if there is one. -/
def presetOf (number : ℚ → List Char) : Option Json → Option (List Char)
  | some (.str s) => if s.toList = [] then none else some s.toList
  | some (.num n) => some (number n)
  | _ => none

/-- The arguments of the generator. -/
def generatorArgs (dir preset : List Char) (timeOfDay : Option (List Char))
    (target : List Char) : List (List Char) :=
  [join dir "weather_generator.py".toList, dir, "--preset=".toList ++ preset] ++
    (timeOfDay.map fun tod => "--time=".toList ++ tod).toList ++
    if target = [] then [] else ["--mission=".toList ++ target]

/-- What follows the generator: the regenerated mission is loaded. -/
def afterGenerator (outcome : Outcome) (load : Except (List Char) Unit) (target : List Char) :
    Response × List Action :=
  match outcome with
  | .failed message => (.serverError message, [])
  | .timedOut => (.serverError "weather generator timed out".toList, [])
  | .exited status stderr =>
    (.serverError ("weather generator exited with status ".toList ++ status ++ ": ".toList ++ stderr),
      [])
  | .success stdout =>
    if target = [] then (.applied stdout, [])
    else
      (match load with
        | .ok _ => .applied stdout
        | .error message => .serverError message, [.loadMission (doubleBackslashes target)])

/-- `weather_apply`, given how the generator and DCS answer. -/
def weatherApply (config : Config) (s : Situation) (body : WeatherApplyBody)
    (outcome : Outcome) (load : Except (List Char) Unit) : Response × List Action :=
  match presetOf config.number body.presetId with
  | none => (.badRequest "preset_id is required".toList, [])
  | some preset =>
    match config.weatherDir with
    | none =>
      (.serverError "DCS_DYNAMIC_WEATHER_DIR is not configured in environment".toList, [])
    | some dir =>
      let target := targetMission (currentMission s)
      let (response, actions) := afterGenerator outcome load target
      (response,
        .run config.pythonExe (generatorArgs dir preset body.timeOfDay target) dir :: actions)

/-! ## 2. Suffixes -/

theorem stripSuffix_append (suffix s : List Char) : stripSuffix suffix (s ++ suffix) = some s := by
  rw [stripSuffix, if_pos (List.suffix_append s suffix)]
  simp

theorem eq_of_stripSuffix {suffix s stem : List Char} (h : stripSuffix suffix s = some stem) :
    s = stem ++ suffix := by
  unfold stripSuffix at h
  split at h
  · rename_i hs
    obtain ⟨t, rfl⟩ := hs
    obtain rfl : t = stem := by simpa using h
    rfl
  · cases h

theorem stripSuffix_eq_none {suffix s : List Char} :
    stripSuffix suffix s = none ↔ ¬suffix <:+ s := by
  unfold stripSuffix
  split <;> simp_all

/-- A suffix is stripped wherever the end of the text is found. -/
theorem stripSuffix_prepend {suffix n : List Char} (p : List Char)
    (h : suffix <:+ p ++ n ↔ suffix <:+ n) :
    stripSuffix suffix (p ++ n) = (stripSuffix suffix n).map (p ++ ·) := by
  by_cases hn : suffix <:+ n
  · obtain ⟨stem, rfl⟩ := hn
    rw [← List.append_assoc, stripSuffix_append, stripSuffix_append]
    rfl
  · rw [stripSuffix_eq_none.mpr hn, stripSuffix_eq_none.mpr fun hpn => hn (h.mp hpn)]
    rfl

/-- What follows a suffix is a part of it. -/
theorem stripSuffix_extend (suffix s e : List Char) :
    stripSuffix (suffix ++ e) (s ++ e) = stripSuffix suffix s := by
  by_cases hs : suffix <:+ s
  · obtain ⟨stem, rfl⟩ := hs
    rw [List.append_assoc, stripSuffix_append, stripSuffix_append]
  · rw [stripSuffix_eq_none.mpr hs, stripSuffix_eq_none.mpr]
    rintro ⟨t, ht⟩
    rw [← List.append_assoc] at ht
    exact hs ⟨t, List.append_cancel_right ht⟩

theorem exchange_prepend {a b n : List Char} (p : List Char) (ha : a <:+ p ++ n ↔ a <:+ n)
    (hb : b <:+ p ++ n ↔ b <:+ n) : exchange a b (p ++ n) = p ++ exchange a b n := by
  simp only [exchange, stripSuffix_prepend p ha, stripSuffix_prepend p hb]
  cases stripSuffix a n <;> cases stripSuffix b n <;> simp

theorem exchange_extend (a b s e : List Char) :
    exchange (a ++ e) (b ++ e) (s ++ e) = exchange a b s ++ e := by
  simp only [exchange, stripSuffix_extend]
  cases stripSuffix a s <;> cases stripSuffix b s <;> simp

/-- A suffix of two characters is inside a text that is put after another character. -/
theorem suffix_pair {x y : Char} {p n : List Char} (hn : n ≠ []) (hp : ¬[x] <:+ p) :
    [x, y] <:+ p ++ n ↔ [x, y] <:+ n := by
  refine ⟨?_, fun h => h.trans (List.suffix_append p n)⟩
  rintro ⟨t, ht⟩
  obtain ⟨m, z, rfl⟩ := (List.eq_nil_or_concat' n).resolve_left hn
  have hlast : (t ++ [x]) ++ [y] = (p ++ m) ++ [z] := by simpa using ht
  obtain ⟨hinit, hz⟩ := List.append_inj' hlast rfl
  rcases List.eq_nil_or_concat' m with rfl | ⟨m, w, rfl⟩
  · exact absurd ⟨t, by simpa using hinit⟩ hp
  · rw [← List.append_assoc] at hinit
    obtain ⟨-, hw⟩ := List.append_inj' hinit rfl
    exact ⟨m, by simp_all⟩

/-- The other copy of a mission. -/
def exchangeAb (name : List Char) : List Char := exchange "_A".toList "_B".toList name

/-- A name is its own without a suffix, and one of the suffixes. -/
theorem stripAbSuffix_cases (name : List Char) :
    ∃ suffix ∈ [[], "_A".toList, "_B".toList], name = stripAbSuffix name ++ suffix := by
  unfold stripAbSuffix
  cases ha : stripSuffix "_A".toList name with
  | some stem => exact ⟨"_A".toList, by simp, eq_of_stripSuffix ha⟩
  | none =>
    cases hb : stripSuffix "_B".toList name with
    | some stem => exact ⟨"_B".toList, by simp, eq_of_stripSuffix hb⟩
    | none => exact ⟨[], by simp, by simp⟩

theorem isPrefix_stripAbSuffix (name : List Char) : stripAbSuffix name <+: name := by
  obtain ⟨suffix, -, h⟩ := stripAbSuffix_cases name
  exact ⟨suffix, h.symm⟩

theorem exchangeAb_cases (name : List Char) :
    exchangeAb name = name ∨ ∃ stem, ∃ x ∈ ['A', 'B'], ∃ y ∈ ['A', 'B'],
      name = stem ++ ['_', x] ∧ exchangeAb name = stem ++ ['_', y] := by
  unfold exchangeAb exchange
  cases ha : stripSuffix "_A".toList name with
  | some stem => exact .inr ⟨stem, 'A', by simp, 'B', by simp, eq_of_stripSuffix ha, rfl⟩
  | none =>
    cases hb : stripSuffix "_B".toList name with
    | some stem => exact .inr ⟨stem, 'B', by simp, 'A', by simp, eq_of_stripSuffix hb, rfl⟩
    | none => exact .inl rfl

/-! ## 3. The target -/

/-- The entry of the mission list is a copy of the mission. -/
def IsCopyOf (active raw : List Char) : Prop :=
  (fileStem raw).map stripAbSuffix = some (stripAbSuffix active)

instance (active raw : List Char) : Decidable (IsCopyOf active raw) :=
  inferInstanceAs (Decidable (_ = _))

/-- The first entry of the list whose path contains the name is in a directory. -/
def FoundIn (queue : List (List Char)) (active dir : List Char) : Prop :=
  ∃ raw, queue.find? (fun raw => stripAbSuffix active <:+: raw) = some raw ∧ directory raw = dir

/-- The generator is run on a file, and DCS loads that file if it succeeds. -/
def injecting (config : Config) (body : WeatherApplyBody) (outcome : Outcome)
    (dir preset file : List Char) : List Action :=
  .run config.pythonExe (generatorArgs dir preset body.timeOfDay file) dir ::
    match outcome with
    | .success _ => [.loadMission (doubleBackslashes file)]
    | _ => []

section
variable {active : List Char}

/-- A copy has the name in its path, and the name is a part of a file name. -/
theorem IsCopyOf.spec {raw : List Char} (h : IsCopyOf active raw) :
    stripAbSuffix active <:+: raw ∧ ∀ c ∈ active, inName c = true := by
  obtain ⟨stem, hstem, hbase⟩ := Option.map_eq_some_iff.mp h
  obtain ⟨hin, hinside⟩ := fileStem_spec hstem
  have hpre := isPrefix_stripAbSuffix stem
  rw [hbase] at hpre
  refine ⟨hpre.isInfix.trans hin, ?_⟩
  intro c hc
  obtain ⟨suffix, hsuffix, hactive⟩ := stripAbSuffix_cases active
  rw [hactive] at hc
  rcases List.mem_append.mp hc with hc | hc
  · exact hinside c (hpre.subset hc)
  · have hall : ([[], "_A".toList, "_B".toList].all fun suffix => suffix.all inName) = true := by
      decide
    exact List.all_eq_true.mp (List.all_eq_true.mp hall suffix hsuffix) c hc

theorem hasDrive_mizFile (hne : active ≠ []) : hasDrive (mizFile active) = hasDrive active := by
  match active, hne with
  | [c], _ => simp [mizFile, hasDrive]
  | c :: d :: rest, _ =>
    by_cases hd : d = ':'
    · subst hd
      rfl
    · simp [mizFile, hasDrive, hd]

theorem hasDrive_exchangeAb (active : List Char) :
    hasDrive (exchangeAb active) = hasDrive active := by
  rcases exchangeAb_cases active with h | ⟨stem, x, hx, y, hy, rfl, h⟩
  · rw [h]
  · rw [h]
    match stem with
    | [] => simp [hasDrive_eq_false (show '_'.isAlpha = false by decide)]
    | [c] => simp [hasDrive]
    | c :: d :: rest =>
      by_cases hd : d = ':'
      · subst hd
        rfl
      · simp [hasDrive, hd]

theorem exchangeAb_ne_nil (hne : active ≠ []) : exchangeAb active ≠ [] := by
  rcases exchangeAb_cases active with h | ⟨stem, x, hx, y, hy, rfl, h⟩
  · rwa [h]
  · simp [h]

theorem mizFile_isName (hne : active ≠ []) (hinside : ∀ c ∈ active, inName c = true)
    (hdrive : hasDrive active = false) : IsName (mizFile active) where
  ne_nil := by simp [mizFile]
  inside c hc := by
    have hmiz : ".miz".toList.all inName = true := by decide
    exact (List.mem_append.mp hc).elim (hinside c) (List.all_eq_true.mp hmiz c)
  no_drive := by rw [hasDrive_mizFile hne, hdrive]

theorem exchangeAb_inName (hinside : ∀ c ∈ active, inName c = true) :
    ∀ c ∈ exchangeAb active, inName c = true := by
  rcases exchangeAb_cases active with h | ⟨stem, x, hx, y, hy, rfl, h⟩
  · rwa [h]
  · rw [h]
    intro c hc
    rcases List.mem_append.mp hc with hc | hc
    · exact hinside c (by simp [hc])
    · have hall : (['A', 'B'].all fun y => ['_', y].all inName) = true := by decide
      exact List.all_eq_true.mp (List.all_eq_true.mp hall y hy) c hc

/-- In every directory a mission is exchanged for its other copy. -/
theorem targetMission_join (hne : active ≠ []) (hinside : ∀ c ∈ active, inName c = true)
    (d : List Char) :
    targetMission (join d (mizFile active)) = join d (mizFile (exchangeAb active)) := by
  have hne' := exchangeAb_ne_nil hne
  have hmiz : ∀ n : List Char, targetMission (n ++ ".miz".toList) = mizFile (exchangeAb n) :=
    fun n => exchange_extend "_A".toList "_B".toList n ".miz".toList
  by_cases hdrive : hasDrive active = true
  · have hdrive' : hasDrive (exchangeAb active) = true := (hasDrive_exchangeAb active).trans hdrive
    rw [join_drive ((hasDrive_mizFile hne).trans hdrive),
      join_drive ((hasDrive_mizFile hne').trans hdrive')]
    exact hmiz active
  · have hdrive := Bool.eq_false_iff.mpr hdrive
    have hdrive' : hasDrive (exchangeAb active) = false := (hasDrive_exchangeAb active).trans hdrive
    rw [join_name (mizFile_isName hne hinside hdrive),
      join_name (mizFile_isName hne' (exchangeAb_inName hinside) hdrive')]
    -- what the name is put after ends with no underscore
    have hunderscore : ¬['_'] <:+ atName d := by
      rintro ⟨u, hu⟩
      have hlast := getLast_atName hu.symm
      exact absurd hlast (by decide)
    have hexchange : exchangeAb (atName d ++ active) = atName d ++ exchangeAb active :=
      exchange_prepend (atName d) (suffix_pair hne hunderscore) (suffix_pair hne hunderscore)
    rw [mizFile, ← List.append_assoc, hmiz, hexchange, mizFile, mizFile, List.append_assoc]

/-- The target is another one for each directory, unless the name has a drive. -/
theorem join_exchanged_iff (hne : active ≠ []) (hinside : ∀ c ∈ active, inName c = true)
    (p q : List Char) :
    join (directory p) (mizFile (exchangeAb active)) =
        join (directory q) (mizFile (exchangeAb active)) ↔
      directory p = directory q ∨ hasDrive active = true := by
  have hne' := exchangeAb_ne_nil hne
  constructor
  · intro h
    by_cases hdrive : hasDrive active = true
    · exact .inr hdrive
    · have hdrive' : hasDrive (exchangeAb active) = false :=
        (hasDrive_exchangeAb active).trans (Bool.eq_false_iff.mpr hdrive)
      exact .inl (join_injective (mizFile_isName hne' (exchangeAb_inName hinside) hdrive') h)
  · rintro (h | hdrive)
    · rw [h]
    · have hdrive' : hasDrive (mizFile (exchangeAb active)) = true := by
        rw [hasDrive_mizFile hne', hasDrive_exchangeAb, hdrive]
      rw [join_drive hdrive', join_drive hdrive']

theorem missionFromDcs_found {s : Situation} {queue : List (List Char)} {raw : List Char}
    (hname : s.missionName = some active) (hne : active ≠ [])
    (hqueue : s.missionList = some queue)
    (hfound : queue.find? (fun raw => stripAbSuffix active <:+: raw) = some raw) :
    missionFromDcs s = join (directory raw) (mizFile active) := by
  obtain ⟨c, rest, rfl⟩ := List.exists_cons_of_ne_nil hne
  simp [missionFromDcs, hname, hqueue, hfound]

theorem join_ne_nil {d name : List Char} (h : name ≠ []) : join d name ≠ [] := by
  unfold join
  split
  · exact h
  · split <;> simp [h]

theorem generatorArgs_injective {dir preset : List Char} {tod : Option (List Char)}
    {target target' : List Char} (h : target ≠ []) (h' : target' ≠ [])
    (heq : generatorArgs dir preset tod target = generatorArgs dir preset tod target') :
    target = target' := by
  simpa [generatorArgs, h, h'] using heq

/-- An accepted request injects weather into its target. -/
theorem weatherApply_actions {config : Config} {s : Situation} {body : WeatherApplyBody}
    {dir preset : List Char} (hpreset : presetOf config.number body.presetId = some preset)
    (hdir : config.weatherDir = some dir) (outcome : Outcome) (load : Except (List Char) Unit)
    (hne : targetMission (currentMission s) ≠ []) :
    (weatherApply config s body outcome load).2 =
      injecting config body outcome dir preset (targetMission (currentMission s)) := by
  simp only [weatherApply, hpreset, hdir]
  cases outcome <;> simp [afterGenerator, injecting, hne]

/-- **Weather goes to the sibling of the running mission** exactly when the first entry of the
list whose path contains the name is in the directory of its copies. -/
theorem weatherApply_target {config : Config} {s : Situation} {body : WeatherApplyBody}
    {queue : List (List Char)} {dir preset missionDir : List Char}
    (hpreset : presetOf config.number body.presetId = some preset)
    (hdir : config.weatherDir = some dir) (hname : s.missionName = some active)
    (hne : active ≠ []) (hqueue : s.missionList = some queue)
    (hcopy : ∃ raw ∈ queue, IsCopyOf active raw)
    (hone : ∀ raw ∈ queue, IsCopyOf active raw → directory raw = missionDir)
    (outcome : Outcome) (load : Except (List Char) Unit) :
    (weatherApply config s body outcome load).2 =
        injecting config body outcome dir preset
          (join missionDir (mizFile (exchangeAb active))) ↔
      FoundIn queue active missionDir ∨ hasDrive active = true := by
  obtain ⟨copy, hmem, hcopy⟩ := hcopy
  obtain ⟨hin, hinside⟩ := hcopy.spec
  obtain rfl := hone copy hmem hcopy
  -- some entry is found, if only the copy
  obtain ⟨raw, hfound⟩ : ∃ raw, queue.find? (fun raw => stripAbSuffix active <:+: raw) = some raw :=
    Option.isSome_iff_exists.mp
      (List.find?_isSome.mpr ⟨copy, hmem, decide_eq_true hin⟩)
  have hmiz : ∀ n, mizFile n ≠ [] := fun n => by simp [mizFile]
  have hcurrent : currentMission s = join (directory raw) (mizFile active) := by
    have hdcs := missionFromDcs_found hname hne hqueue hfound
    rw [currentMission, if_pos (by rw [hdcs]; exact join_ne_nil (hmiz active)), hdcs]
  have htarget : targetMission (currentMission s) =
      join (directory raw) (mizFile (exchangeAb active)) := by
    rw [hcurrent, targetMission_join hne hinside]
  have htarget_ne : targetMission (currentMission s) ≠ [] := by
    rw [htarget]
    exact join_ne_nil (hmiz _)
  rw [weatherApply_actions hpreset hdir outcome load htarget_ne, htarget]
  have hdirs := join_exchanged_iff hne hinside raw copy
  constructor
  · intro h
    obtain ⟨hrun, -⟩ := List.cons.inj h
    simp only [Action.run.injEq] at hrun
    have hfiles := generatorArgs_injective (join_ne_nil (hmiz _)) (join_ne_nil (hmiz _)) hrun.2.1
    exact (hdirs.mp hfiles).imp_left fun hd => ⟨raw, hfound, hd⟩
  · rintro (⟨raw', hfound', hd⟩ | hdrive)
    · obtain rfl : raw = raw' := Option.some.inj (hfound.symm.trans hfound')
      rw [hd]
    · rw [hdirs.mpr (.inr hdrive)]

end

/-! ## 4. Two mission lists -/

def exampleConfig : Config := ⟨some "C:\\Weather".toList, "python".toList, fun _ => []⟩

def exampleBody : WeatherApplyBody := ⟨some (.str "storm"), none⟩

/-- DCS runs the copy `Foo_A`, with this mission list. -/
def fooRunning (queue : List String) : Situation :=
  ⟨some "Foo_A".toList, some (queue.map String.toList), none⟩

/-- The copy is found where it is the first mission of its name. -/
theorem weatherApply_target_alone :
    (weatherApply exampleConfig (fooRunning ["D:\\X\\Foo_A.miz", "C:\\M\\Foobar.miz"])
      exampleBody (.success []) (.ok ())).2 =
    injecting exampleConfig exampleBody (.success []) "C:\\Weather".toList "storm".toList
      (join "D:\\X".toList (mizFile (exchangeAb "Foo_A".toList))) := by
  have hcopy : ∃ raw ∈ ["D:\\X\\Foo_A.miz", "C:\\M\\Foobar.miz"].map String.toList,
      IsCopyOf "Foo_A".toList raw := by decide
  have hone : ∀ raw ∈ ["D:\\X\\Foo_A.miz", "C:\\M\\Foobar.miz"].map String.toList,
      IsCopyOf "Foo_A".toList raw → directory raw = "D:\\X".toList := by decide
  exact (weatherApply_target rfl rfl rfl (by decide) rfl hcopy hone _ _).mpr
    (.inl ⟨"D:\\X\\Foo_A.miz".toList, by decide, by decide⟩)

/-- **The wrong directory.**  `Foobar` contains `Foo`, and comes first. -/
theorem foobar_is_taken :
    let queue := ["C:\\M\\Foobar.miz", "D:\\X\\Foo_A.miz"]
    let actions := (weatherApply exampleConfig (fooRunning queue) exampleBody (.success []) (.ok ())).2
    let generating := injecting exampleConfig exampleBody (.success []) "C:\\Weather".toList
      "storm".toList
    (∃ raw ∈ queue.map String.toList, IsCopyOf "Foo_A".toList raw) ∧
      (∀ raw ∈ queue.map String.toList, IsCopyOf "Foo_A".toList raw →
        directory raw = "D:\\X".toList) ∧
      actions = generating "C:\\M\\Foo_B.miz".toList ∧
      actions ≠ generating (join "D:\\X".toList (mizFile (exchangeAb "Foo_A".toList))) := by
  decide

end DcsDashboard.Weather
