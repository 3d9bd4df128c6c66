/-
# Concurrent requests on the mission queue

`mission_action` hands each request to `mutate_queue`, which reads `serverSettings.lua`, awaits,
and writes the whole file back.  No lock is held, so concurrent requests are those of
`Lib.ReadModifyWrite`.  When no other request writes between the read and the write of one,
every change is kept (`queue_kept`); when one does, the change it overwrites is lost
(`queue_update_lost`), and a file queued twice stays queued once after its removal in any case.
-/
import DcsDashboard.Lib.ReadModifyWrite
import DcsDashboard.Settings.MissionQueue

namespace DcsDashboard.Settings

open Lib Lua Lib.ReadModifyWrite

/-! ## 1. Requests -/

/-- A request: what to do with which file. -/
structure QueueRequest where
  action : QueueAction
  file : String
  deriving DecidableEq

/-- What `mutate_queue` writes, if anything, after it has read the file. -/
def queueWrite (F : NumberFormat) (request : QueueRequest) (content : List Char) :
    Except SettingsError (Option (List Char)) :=
  (parseBlocking F content).bind fun settings =>
    let queue := missionList settings
    if request.action = .add ∧ request.file ∈ queue then .ok none
    else
      match replaceMissionListBlock content
          (queueBlock (queueAfter request.action request.file queue)) with
      | some new => .ok (some new)
      | none => .error .blockNotFound

/-- The file after `mutate_queue` is what it writes, or what it was. -/
theorem mutateQueue_eq (F : NumberFormat) (request : QueueRequest) (content : List Char) :
    mutateQueue F request.action request.file content =
      (queueWrite F request content).map fun written => written.getD content := by
  unfold mutateQueue queueWrite
  cases parseBlocking F content with
  | error e => rfl
  | ok settings =>
    simp only [Except.bind]
    by_cases hadd : request.action = .add ∧ request.file ∈ missionList settings
    · simp only [if_pos hadd, Except.map, Option.getD_none]
    · simp only [if_neg hadd]
      cases replaceMissionListBlock content
        (queueBlock (queueAfter request.action request.file (missionList settings))) <;> rfl

section

variable {ι : Type*} [DecidableEq ι] (F : NumberFormat)

/-- Concurrent `mission_action` requests. -/
def missionAction (requests : ι → QueueRequest) : Edit ι (List Char) SettingsError :=
  fun i content => queueWrite F (requests i) content

/-- The request reads a file that it edits rightly. -/
def EditsRightly (requests : ι → QueueRequest) (i : ι) (content : List Char) : Prop :=
  ∀ settings, parseBlocking F content = .ok settings →
    Editable F (requests i).action (requests i).file content settings

/-- What the queue owes the requests that have succeeded. -/
structure Keeps (requests : ι → QueueRequest) (order : List ι) (queue : List String) : Prop where
  added : ∀ i ∈ order, (requests i).action = .add → (requests i).file ∈ queue
  once : ∀ i, (requests i).action = .remove → queue.count (requests i).file ≤ 1
  removed : ∀ i ∈ order, (requests i).action = .remove → (requests i).file ∉ queue

variable {F} {requests : ι → QueueRequest}

theorem count_queueAfter_of_ne {action : QueueAction} {file name : String} {queue : List String}
    (h : name ≠ file) : (queueAfter action file queue).count name = queue.count name := by
  cases action with
  | add =>
    by_cases hmem : file ∈ queue
    · simp [queueAfter, hmem]
    · simp [queueAfter, hmem, List.count_append, Ne.symm h]
  | remove => exact List.count_erase_of_ne h

omit [DecidableEq ι] in
/-- **One request.**  The next of the requests keeps what is owed to the others. -/
theorem Keeps.queueAfter {order : List ι} {queue : List String}
    (h : Keeps requests order queue)
    (hdistinct : Function.Injective fun i => (requests i).file) (i : ι) :
    Keeps requests (order ++ [i])
      (queueAfter (requests i).action (requests i).file queue) := by
  have hothers : ∀ j, j ≠ i → (Settings.queueAfter (requests i).action (requests i).file
      queue).count (requests j).file = queue.count (requests j).file :=
    fun j hj => count_queueAfter_of_ne fun heq => hj (hdistinct heq)
  refine ⟨?_, ?_, ?_⟩
  · intro j hj hadd
    by_cases hji : j = i
    · subst hji
      rw [hadd]
      by_cases hmem : (requests j).file ∈ queue
      · simp [Settings.queueAfter, hmem]
      · simp [Settings.queueAfter, hmem]
    · have hmem : j ∈ order := by simpa [hji] using hj
      rw [← List.count_pos_iff, hothers j hji, List.count_pos_iff]
      exact h.added j hmem hadd
  · intro j hremove
    by_cases hji : j = i
    · subst hji
      have honce := h.once j hremove
      have hself : (queue.erase (requests j).file).count (requests j).file =
          queue.count (requests j).file - 1 := List.count_erase_self
      rw [hremove]
      show (queue.erase _).count _ ≤ 1
      omega
    · rw [hothers j hji]
      exact h.once j hremove
  · intro j hj hremove
    by_cases hji : j = i
    · subst hji
      have honce := h.once j hremove
      have hself : (queue.erase (requests j).file).count (requests j).file =
          queue.count (requests j).file - 1 := List.count_erase_self
      rw [hremove, ← List.count_eq_zero]
      show (queue.erase _).count _ = 0
      omega
    · have hmem : j ∈ order := by simpa [hji] using hj
      rw [← List.count_eq_zero, hothers j hji, List.count_eq_zero]
      exact h.removed j hmem hremove

omit [DecidableEq ι] in
/-- The queue in the file after a request. -/
theorem missionList_queueWrite (hF : F.Lawful) {request : QueueRequest} {content : List Char}
    {settings : ServerSettings} (hparse : parseBlocking F content = .ok settings)
    (heditable : Editable F request.action request.file content settings)
    {written : Option (List Char)} (hok : queueWrite F request content = .ok written) :
    ∃ settings', parseBlocking F (written.getD content) = .ok settings' ∧
      missionList settings' = queueAfter request.action request.file (missionList settings) := by
  simp only [queueWrite, hparse, Except.bind] at hok
  split at hok
  · next hqueued =>
    obtain rfl := Except.ok.inj hok
    exact ⟨settings, hparse, by simp [queueAfter, hqueued]⟩
  · next hedits =>
    obtain ⟨hblock, hnames, hlen⟩ := heditable.resolve_left hedits
    obtain ⟨new, hreplace, hread⟩ := parse_replace hF hparse hblock hnames hlen
    rw [hreplace] at hok
    obtain rfl := Except.ok.inj hok
    exact ⟨_, hread, rfl⟩

omit [DecidableEq ι] in
/-- One after the other, the requests leave a queue that has what they added and nothing that
they removed. -/
theorem serial_missionAction (hF : F.Lawful)
    (hdistinct : Function.Injective fun i => (requests i).file) {content final : List Char}
    {settings : ServerSettings} (hparse : parseBlocking F content = .ok settings)
    (honce : ∀ i, (requests i).action = .remove →
      (missionList settings).count (requests i).file ≤ 1) {order : List ι}
    (h : Serial (missionAction F requests) (EditsRightly F requests) content order final) :
    ∃ settings', parseBlocking F final = .ok settings' ∧
      Keeps requests order (missionList settings') := by
  have hstep : ∀ order c i written, (∃ settings', parseBlocking F c = .ok settings' ∧
      Keeps requests order (missionList settings')) → EditsRightly F requests i c →
      queueWrite F (requests i) c = .ok written →
      ∃ settings', parseBlocking F (written.getD c) = .ok settings' ∧
        Keeps requests (order ++ [i]) (missionList settings') := by
    rintro order c i written ⟨settings', hparse', hkeeps⟩ hrightly hok
    obtain ⟨settings'', hparse'', hlist⟩ :=
      missionList_queueWrite hF hparse' (hrightly settings' hparse') hok
    exact ⟨settings'', hparse'', hlist ▸ hkeeps.queueAfter hdistinct i⟩
  refine h.invariant (P := fun order c => ∃ settings', parseBlocking F c = .ok settings' ∧
    Keeps requests order (missionList settings'))
    ⟨settings, hparse, ⟨by simp, honce, by simp⟩⟩ ?_ ?_
  · intro order c i ih hE he
    exact hstep order c i none ih hE he
  · intro order c c' i ih hE he
    exact hstep order c i (some c') ih hE he

/-- **No lost queue update,** when every write finds the file as its request read it. -/
theorem queue_kept (hF : F.Lawful) (hdistinct : Function.Injective fun i => (requests i).file)
    {content : List Char} {settings : ServerSettings}
    (hparse : parseBlocking F content = .ok settings)
    (honce : ∀ i, (requests i).action = .remove →
      (missionList settings).count (requests i).file ≤ 1)
    {acts : List (Act ι)} {t : Shared ι (List Char)}
    (h : Run (step (missionAction F requests)) (Undisturbed (EditsRightly F requests))
      (initial ι content) acts t)
    (hdone : ∀ i, t.phase i = .finished true) :
    ∃ settings', parseBlocking F t.cell = .ok settings' ∧
      ∀ i, match (requests i).action with
        | .add => (requests i).file ∈ missionList settings'
        | .remove => (requests i).file ∉ missionList settings' := by
  obtain ⟨order, hserial, -, hmem⟩ := serializable h
  obtain ⟨settings', hparse', hkeeps⟩ :=
    serial_missionAction hF hdistinct hparse honce hserial
  refine ⟨settings', hparse', ?_⟩
  intro i
  have hi : i ∈ order := (hmem i).mpr (hdone i)
  cases haction : (requests i).action with
  | add => exact hkeeps.added i hi haction
  | remove => exact hkeeps.removed i hi haction

end

/-! ## 2. Runs -/

/-- What a request writes to a file with nothing but a queue. -/
theorem queueWrite_queueFile {request : QueueRequest} {queue : List String} {new : List Char}
    (hlen : queue.length ≤ 2 ^ 53) (hnames : ∀ name ∈ queue, IsQuotable name.toList)
    (hnew : ¬(request.action = .add ∧ request.file ∈ queue))
    (hreplace : replaceMissionListBlock (queueFile queue)
      (queueBlock (queueAfter request.action request.file queue)) = some new) :
    queueWrite integers request (queueFile queue) = .ok (some new) := by
  unfold queueWrite
  rw [parse_queueFile integers_lawful hlen hnames]
  show (if request.action = .add ∧ request.file ∈ queue then _ else _) = _
  rw [if_neg hnew]
  show (match replaceMissionListBlock (queueFile queue)
    (queueBlock (queueAfter request.action request.file queue)) with
    | some new => Except.ok (some new)
    | none => _) = _
  rw [hreplace]

/-- The block of a file with two missions. -/
theorem ownBlock_twoMissions : OwnBlock integers (queueFile ["a.miz", "b.miz"]) := by
  refine ⟨"cfg = \r\n\x7b\r\n\t".toList,
    ("[\"missionList\"] = \r\n\t\x7b\r\n\t\t[1] = \"a.miz\",\r\n" ++
      "\t\t[2] = \"b.miz\",\r\n\t\x7d").toList,
    ", -- end of [\"missionList\"]\r\n\x7d -- end of cfg\r\n".toList, [], .empty,
    [.sym '[', .string listKey, .sym ']', .sym '=', .sym '{', .sym '[', .number 1, .sym ']',
      .sym '=', .string (utf8Bytes "a.miz".toList), .sym ',', .sym '[', .number 2, .sym ']',
      .sym '=', .string (utf8Bytes "b.miz".toList), .sym ',', .sym '}'],
    ⟨[], .separatorOrEnd ⟨[(.string listKey, .table (indexed 1 ["a.miz", "b.miz"]))], 0, []⟩
      (.global cfgName)⟩, by decide +kernel, ⟨[.name cfgName, .sym '=', .sym '{'], by decide, rfl⟩,
    by decide +kernel, ⟨[.sym '[', .number 1, .sym ']', .sym '=',
      .string (utf8Bytes "a.miz".toList), .sym ',', .sym '[', .number 2, .sym ']', .sym '=',
      .string (utf8Bytes "b.miz".toList), .sym ','], rfl, by decide⟩, ?_,
    [.sym ',', .sym '}'], by decide +kernel, .inl (by decide), by decide +kernel⟩
  rfl

/-- The file of one mission with another one added. -/
theorem queueWrite_add (file : String) (hfile : file ∈ ["b.miz", "c.miz"]) :
    queueWrite integers ⟨.add, file⟩ (queueFile ["a.miz"]) =
      .ok (some (queueFile ["a.miz", file])) := by
  have hcases : file = "b.miz" ∨ file = "c.miz" := by simpa using hfile
  rcases hcases with rfl | rfl
  · exact queueWrite_queueFile (by decide) (by decide) (by decide) (by decide +kernel)
  · exact queueWrite_queueFile (by decide) (by decide) (by decide) (by decide +kernel)

/-- One request adds a mission, and another one removes one after it. -/
theorem queue_kept_addThenRemove :
    ∃ t, Run (step (missionAction integers fun i : Bool =>
          if i then ⟨.remove, "a.miz"⟩ else ⟨.add, "b.miz"⟩))
        (Undisturbed (EditsRightly integers fun i : Bool =>
          if i then ⟨.remove, "a.miz"⟩ else ⟨.add, "b.miz"⟩))
        (initial Bool (queueFile ["a.miz"]))
        [.read false, .write false, .read true, .write true] t ∧
      ∃ settings, parseBlocking integers t.cell = .ok settings ∧
        ∀ i : Bool, match (if i then (⟨.remove, "a.miz"⟩ : QueueRequest)
            else ⟨.add, "b.miz"⟩).action with
          | .add => (if i then (⟨.remove, "a.miz"⟩ : QueueRequest) else ⟨.add, "b.miz"⟩).file ∈
              missionList settings
          | .remove => (if i then (⟨.remove, "a.miz"⟩ : QueueRequest) else ⟨.add, "b.miz"⟩).file ∉
              missionList settings := by
  let requests : Bool → QueueRequest := fun i => if i then ⟨.remove, "a.miz"⟩ else ⟨.add, "b.miz"⟩
  have hadd : missionAction integers requests false (queueFile ["a.miz"]) =
      .ok (some (queueFile ["a.miz", "b.miz"])) := queueWrite_add "b.miz" (by simp)
  have hremove : missionAction integers requests true (queueFile ["a.miz", "b.miz"]) =
      .ok (some (queueFile ["b.miz"])) := by
    show queueWrite integers ⟨.remove, "a.miz"⟩ _ = _
    exact queueWrite_queueFile (by decide) (by decide) (by decide) (by decide +kernel)
  have hparse : ∀ queue : List String, queue.length ≤ 2 ^ 53 →
      (∀ name ∈ queue, IsQuotable name.toList) → parseBlocking integers (queueFile queue) =
        .ok { ServerSettings.empty with missionList := some queue } :=
    fun queue => parse_queueFile integers_lawful
  have hfirst : EditsRightly integers requests false (queueFile ["a.miz"]) := by
    intro settings hs
    rw [hparse _ (by decide) (by decide)] at hs
    cases hs
    exact .inr ⟨ownBlock_oneMission, by decide, by decide⟩
  have hsecond : EditsRightly integers requests true (queueFile ["a.miz", "b.miz"]) := by
    intro settings hs
    rw [hparse _ (by decide) (by decide)] at hs
    cases hs
    exact .inr ⟨ownBlock_twoMissions, by decide, by decide⟩
  have hrun : ∃ t, Run (step (missionAction integers requests))
      (Undisturbed (EditsRightly integers requests)) (initial Bool (queueFile ["a.miz"]))
      [.read false, .write false, .read true, .write true] t ∧
      ∀ i, t.phase i = .finished true := by
    refine ⟨_, .cons hfirst (step_read rfl hadd) (.cons ?_ (step_write rfl)
      (.cons hsecond (step_read rfl hremove) (.single ?_ (step_write rfl)))), ?_⟩
    · intro seen new heq
      cases heq
      rfl
    · intro seen new heq
      cases heq
      rfl
    · intro i
      cases i <;> rfl
  obtain ⟨t, hrun, hdone⟩ := hrun
  refine ⟨t, hrun, queue_kept integers_lawful ?_ (hparse _ (by decide) (by decide)) ?_ hrun hdone⟩
  · intro i j hij
    cases i <;> cases j <;> simp_all
  · intro i _
    cases i <;> decide

/-- **A queue update is lost.**  Two requests read the file before either writes, and the one
that writes first loses the mission it added.  And a request alone takes only one of two equal
entries away. -/
theorem queue_update_lost :
    (∃ t, Run (step (missionAction integers fun i : Bool =>
          ⟨.add, if i then "c.miz" else "b.miz"⟩)) Always (initial Bool (queueFile ["a.miz"]))
        [.read false, .read true, .write false, .write true] t ∧
      (∀ i, t.phase i = .finished true) ∧
      ∃ settings, parseBlocking integers t.cell = .ok settings ∧
        "b.miz" ∉ missionList settings) ∧
    ∃ t, Run (step (missionAction integers fun _ : Unit => ⟨.remove, "a.miz"⟩)) Always
        (initial Unit (queueFile ["a.miz", "a.miz"])) [.read (), .write ()] t ∧
      (∀ i, t.phase i = .finished true) ∧
      ∃ settings, parseBlocking integers t.cell = .ok settings ∧
        "a.miz" ∈ missionList settings := by
  constructor
  · have hb : missionAction integers (fun i : Bool => ⟨.add, if i then "c.miz" else "b.miz"⟩)
        false (queueFile ["a.miz"]) = .ok (some (queueFile ["a.miz", "b.miz"])) :=
      queueWrite_add "b.miz" (by simp)
    have hc : missionAction integers (fun i : Bool => ⟨.add, if i then "c.miz" else "b.miz"⟩)
        true (queueFile ["a.miz"]) = .ok (some (queueFile ["a.miz", "c.miz"])) :=
      queueWrite_add "c.miz" (by simp)
    refine ⟨_, .cons trivial (step_read rfl hb) (.cons trivial (step_read rfl hc)
      (.cons trivial (step_write rfl) (.single trivial (step_write rfl)))), ?_, ?_⟩
    · intro i
      cases i <;> rfl
    · exact ⟨_, parse_queueFile integers_lawful (by decide) (by decide), by decide⟩
  · have hremove : missionAction integers (fun _ : Unit => ⟨.remove, "a.miz"⟩) ()
        (queueFile ["a.miz", "a.miz"]) = .ok (some (queueFile ["a.miz"])) := by
      show queueWrite integers ⟨.remove, "a.miz"⟩ _ = _
      exact queueWrite_queueFile (by decide) (by decide) (by decide) (by decide +kernel)
    refine ⟨_, .cons trivial (step_read rfl hremove) (.single trivial (step_write rfl)), ?_, ?_⟩
    · intro i
      rfl
    · exact ⟨_, parse_queueFile integers_lawful (by decide) (by decide), by decide⟩

end DcsDashboard.Settings
