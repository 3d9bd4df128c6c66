/-
# Radar batching

`deckTracking.ts`: the page collects the messages of the radar stream into a batch
(`createRadarBatch` for the first, `appendToRadarBatch` for those that follow) and commits the
batch to its snapshot with `applyRadarBatch` once the stream has been quiet for a moment.

A message WRITES at most one id: a unit update writes its sample, a gone notice writes that
there is none.  What a batch says about an id is what the last of its messages writes there
(`BuiltFrom`), so committing batches is last-writer-wins whatever the cut.  One id is
different: `appendToRadarBatch` assigns the sample of `__proto__` where `createRadarBatch`
defines it, and unless the batch already has the property the sample is lost
(`dropsProto`).  The ids of the stream are numbers, so `transparent` holds of all it sends.

How JavaScript prints and reads numbers is a parameter (`JsNumber`); all that is used of it is
what a printed number begins with (`PrintsNumbers`).
-/
import DcsDashboard.Lib.JsRecord
import Mathlib.Data.List.Induction

namespace DcsDashboard.Airboss.DeckTracking

open Lib

/-! ## 1. The stream -/

/-- What the code uses of JavaScript's numbers: `String(n)`, `Number(text)`, `Number.isFinite`. -/
structure JsNumber (ν : Type*) where
  text : ν → String
  ofText : String → ν
  isFinite : ν → Bool

/-- `number | string`. -/
inductive NumberOrString (ν : Type*)
  | number (n : ν)
  | string (s : String)
  deriving DecidableEq

/-- A unit of the stream; `fields` is everything but its id. -/
structure RadarUnit (ν δ : Type*) where
  id : Option (NumberOrString ν)
  fields : δ
  deriving DecidableEq

/-- `gone` of a stream message. -/
structure RadarGone (ν : Type*) where
  id : Option (NumberOrString ν)

structure RadarStreamMessage (ν δ : Type*) where
  time : Option (NumberOrString ν)
  update : Option String
  unit : Option (RadarUnit ν δ)
  gone : Option (RadarGone ν)

structure RadarUnitSample (ν δ : Type*) where
  time : Option ν
  unit : RadarUnit ν δ
  deriving DecidableEq

structure RadarBatch (ν δ : Type*) where
  sampleUpdates : JsRecord (RadarUnitSample ν δ)
  goneIds : List String

structure RadarSnapshot (ν δ : Type*) where
  samples : JsRecord (RadarUnitSample ν δ)

variable {ν δ : Type*} (js : JsNumber ν)

/-- `String(id)`. -/
def idText : NumberOrString ν → String
  | .number n => js.text n
  | .string s => s

/-- `parseFrameTime`. -/
def parseFrameTime : Option (NumberOrString ν) → Option ν
  | none => none
  | some value =>
    let parsed := match value with
      | .number n => n
      | .string s => js.ofText s
    if js.isFinite parsed then some parsed else none

/-! ## 2. The batch functions -/

/-- `createRadarBatch`. -/
def createRadarBatch (message : RadarStreamMessage ν δ) : Option (RadarBatch ν δ) :=
  let time := parseFrameTime js message.time
  let updated := if message.update = some "unit" then
    message.unit.bind fun unit => unit.id.map fun id => (id, unit) else none
  let gone := if message.update = some "gone" then message.gone.bind fun gone => gone.id else none
  match updated with
  | some (id, unit) => some
      { sampleUpdates := JsRecord.define ∅ (idText js id) { time, unit }
        goneIds := [] }
  | none => gone.map fun id => { sampleUpdates := ∅, goneIds := [idText js id] }

/-- The loop of `appendToRadarBatch` over the added samples. -/
def appendSamples (batch : RadarBatch ν δ) (added : JsRecord (RadarUnitSample ν δ)) :
    RadarBatch ν δ :=
  added.entries.foldl (fun batch entry =>
    { sampleUpdates := batch.sampleUpdates.assign entry.1 entry.2
      goneIds := batch.goneIds.filter fun goneId => goneId ≠ entry.1 }) batch

/-- The loop of `appendToRadarBatch` over the added gone ids. -/
def appendGone (batch : RadarBatch ν δ) (added : List String) : RadarBatch ν δ :=
  added.foldl (fun batch id =>
    { sampleUpdates := batch.sampleUpdates.delete id
      goneIds := if batch.goneIds.contains id then batch.goneIds else batch.goneIds ++ [id] })
    batch

/-- `appendToRadarBatch`: the batch as it leaves it, and what it returns. -/
def appendToRadarBatch (batch : RadarBatch ν δ) (message : RadarStreamMessage ν δ) :
    RadarBatch ν δ × Bool :=
  match createRadarBatch js message with
  | none => (batch, false)
  | some addition =>
    (appendGone (appendSamples batch addition.sampleUpdates) addition.goneIds, true)

/-- `applyRadarBatch`. -/
def applyRadarBatch (snapshot : RadarSnapshot ν δ) (batch : RadarBatch ν δ) :
    RadarSnapshot ν δ :=
  { samples := batch.goneIds.foldl JsRecord.delete (snapshot.samples.spread batch.sampleUpdates) }

/-! ## 3. The page -/

/-- `source.onmessage`: the pending batch after a message. -/
def onMessage (pending : Option (RadarBatch ν δ)) (message : RadarStreamMessage ν δ) :
    Option (RadarBatch ν δ) :=
  match createRadarBatch js message with
  | none => pending
  | some nextBatch =>
    match pending with
    | none => some nextBatch
    | some batch => some (appendToRadarBatch js batch message).1

/-- The batch that consecutive messages build. -/
def buildBatch (messages : List (RadarStreamMessage ν δ)) : Option (RadarBatch ν δ) :=
  messages.foldl (onMessage js) none

/-- `commitPendingBatch`, what it does to the snapshot. -/
def commitBatch (snapshot : RadarSnapshot ν δ) : Option (RadarBatch ν δ) → RadarSnapshot ν δ
  | none => snapshot
  | some batch => applyRadarBatch snapshot batch

/-- A sequence of messages cut into batches, committed one after the other. -/
def applyBatches (snapshot : RadarSnapshot ν δ) (cut : List (List (RadarStreamMessage ν δ))) :
    RadarSnapshot ν δ :=
  cut.foldl (fun snapshot messages => commitBatch snapshot (buildBatch js messages)) snapshot

/-- The messages committed one at a time. -/
def applyEach (snapshot : RadarSnapshot ν δ) (messages : List (RadarStreamMessage ν δ)) :
    RadarSnapshot ν δ :=
  messages.foldl (fun snapshot message => commitBatch snapshot (createRadarBatch js message))
    snapshot

/-- Two snapshots are the same map from id to sample. -/
def RadarSnapshot.SameMap (s t : RadarSnapshot ν δ) : Prop :=
  ∀ id, s.samples.lookup id = t.samples.lookup id

/-- No id is both updated and gone, and no id is gone twice. -/
def RadarBatch.Clean (batch : RadarBatch ν δ) : Prop :=
  (∀ id ∈ batch.goneIds, id ∉ batch.sampleUpdates) ∧ batch.goneIds.Nodup

/-! ## 4. What messages and batches say -/

/-- What a message writes: an id, and its sample unless the unit is gone. -/
def writes? (message : RadarStreamMessage ν δ) : Option (String × Option (RadarUnitSample ν δ)) :=
  match (if message.update = some "unit" then
      message.unit.bind fun unit => unit.id.map fun id => (id, unit) else none) with
  | some (id, unit) =>
    some (idText js id, some { time := parseFrameTime js message.time, unit })
  | none =>
    (if message.update = some "gone" then message.gone.bind fun gone => gone.id else none).map
      fun id => (idText js id, none)

/-- The writes of a sequence of messages. -/
def writes (messages : List (RadarStreamMessage ν δ)) :
    List (String × Option (RadarUnitSample ν δ)) := messages.filterMap (writes? js)

/-- The batch of a single write. -/
def batchOf : String × Option (RadarUnitSample ν δ) → RadarBatch ν δ
  | (id, some sample) => { sampleUpdates := JsRecord.define ∅ id sample, goneIds := [] }
  | (id, none) => { sampleUpdates := ∅, goneIds := [id] }

/-- What appending a write does to a batch. -/
def RadarBatch.append (batch : RadarBatch ν δ) :
    String × Option (RadarUnitSample ν δ) → RadarBatch ν δ
  | (id, some sample) =>
    { sampleUpdates := batch.sampleUpdates.assign id sample
      goneIds := batch.goneIds.filter fun goneId => goneId ≠ id }
  | (id, none) =>
    { sampleUpdates := batch.sampleUpdates.delete id
      goneIds := if batch.goneIds.contains id then batch.goneIds else batch.goneIds ++ [id] }

/-- What a batch says about an id: nothing, its sample, or that it is gone. -/
def RadarBatch.entry (batch : RadarBatch ν δ) (id : String) :
    Option (Option (RadarUnitSample ν δ)) :=
  if id ∈ batch.goneIds then some none else (batch.sampleUpdates.lookup id).map some

variable {js}

theorem createRadarBatch_eq (message : RadarStreamMessage ν δ) :
    createRadarBatch js message = (writes? js message).map batchOf := by
  unfold createRadarBatch writes?
  generalize (if message.update = some "unit" then
    message.unit.bind fun unit => unit.id.map fun id => (id, unit) else none) = updated
  generalize (if message.update = some "gone" then
    message.gone.bind fun gone => gone.id else none) = gone
  cases updated with
  | some p => rfl
  | none => cases gone <;> rfl

theorem appendToRadarBatch_eq {batch : RadarBatch ν δ} {message : RadarStreamMessage ν δ}
    {w : String × Option (RadarUnitSample ν δ)} (h : writes? js message = some w) :
    appendToRadarBatch js batch message = (batch.append w, true) := by
  unfold appendToRadarBatch
  rw [createRadarBatch_eq, h]
  obtain ⟨id, _ | sample⟩ := w <;> rfl

/-! ## 5. One write -/

theorem lookup_foldl_delete (ids : List String) (o : JsRecord (RadarUnitSample ν δ)) (k : String) :
    (ids.foldl JsRecord.delete o).lookup k = if k ∈ ids then none else o.lookup k := by
  induction ids generalizing o with
  | nil => simp
  | cons id ids ih =>
    rw [List.foldl_cons, ih]
    by_cases hk : k = id
    · subst hk; simp
    · simp [hk, JsRecord.lookup_delete_of_ne o hk]

/-- **Applying a batch.**  An id becomes what the batch says about it. -/
theorem lookup_applyRadarBatch (snapshot : RadarSnapshot ν δ) (batch : RadarBatch ν δ)
    (k : String) :
    (applyRadarBatch snapshot batch).samples.lookup k =
      (batch.entry k).getD (snapshot.samples.lookup k) := by
  unfold applyRadarBatch RadarBatch.entry
  rw [lookup_foldl_delete]
  by_cases hk : k ∈ batch.goneIds
  · simp [hk]
  · rw [if_neg hk, if_neg hk, JsRecord.lookup_spread]
    cases batch.sampleUpdates.lookup k <;> rfl

theorem entry_batchOf (w : String × Option (RadarUnitSample ν δ)) (k : String) :
    (batchOf w).entry k = lastWrite k [w] := by
  obtain ⟨id, x⟩ := w
  by_cases hk : k = id
  · subst hk
    cases x <;> simp [batchOf, RadarBatch.entry, lastWrite]
  · have hlast : lastWrite k [(id, x)] = none := by simpa [lastWrite] using hk
    rw [hlast]
    cases x with
    | none => simp [batchOf, RadarBatch.entry, hk]
    | some sample => simp [batchOf, RadarBatch.entry, JsRecord.lookup_define_of_ne _ _ hk]

/-- Appending a write leaves the other ids alone. -/
theorem entry_append_of_ne (batch : RadarBatch ν δ) {w : String × Option (RadarUnitSample ν δ)}
    {k : String} (h : k ≠ w.1) : (batch.append w).entry k = batch.entry k := by
  obtain ⟨id, x⟩ := w
  have hk : k ≠ id := h
  cases x with
  | none =>
    have hmem : (k ∈ (batch.append (id, none)).goneIds) ↔ k ∈ batch.goneIds := by
      simp only [RadarBatch.append]
      split <;> simp [hk]
    simp only [RadarBatch.entry, hmem]
    simp only [RadarBatch.append, JsRecord.lookup_delete_of_ne _ hk]
  | some sample =>
    simp [RadarBatch.entry, RadarBatch.append, hk, JsRecord.lookup_assign_of_ne _ _ hk]

theorem entry_append_gone (batch : RadarBatch ν δ) (id : String) :
    (batch.append (id, none)).entry id = some none := by
  have hmem : id ∈ (batch.append (id, none)).goneIds := by
    simp only [RadarBatch.append]
    split
    · rename_i h; simpa using h
    · simp
  exact if_pos hmem

/-- An appended sample is what the batch says, unless its assignment was not one. -/
theorem entry_append_sample (batch : RadarBatch ν δ) (id : String)
    (sample : RadarUnitSample ν δ) :
    (batch.append (id, some sample)).entry id =
      if id = protoKey ∧ id ∉ batch.sampleUpdates then none else some (some sample) := by
  have hgone : id ∉ (batch.append (id, some sample)).goneIds := by simp [RadarBatch.append]
  rw [RadarBatch.entry, if_neg hgone]
  split
  · rename_i h
    obtain ⟨rfl, hmem⟩ := h
    simp only [RadarBatch.append, JsRecord.assign_proto hmem, AList.lookup_eq_none.mpr hmem,
      Option.map_none]
  · rename_i h
    have hown : id = protoKey → id ∈ batch.sampleUpdates := fun hid => by
      by_contra hmem; exact h ⟨hid, hmem⟩
    have heq := JsRecord.assign_eq_define hown sample
    simp only [RadarBatch.append, heq, JsRecord.lookup_define_self, Option.map_some]

theorem clean_batchOf (w : String × Option (RadarUnitSample ν δ)) : (batchOf w).Clean := by
  obtain ⟨id, _ | sample⟩ := w <;> simp [batchOf, RadarBatch.Clean]

/-- **Appending a write keeps a batch clean.** -/
theorem RadarBatch.Clean.append {batch : RadarBatch ν δ} (h : batch.Clean)
    (w : String × Option (RadarUnitSample ν δ)) : (batch.append w).Clean := by
  obtain ⟨hdisjoint, hnodup⟩ := h
  obtain ⟨id, _ | sample⟩ := w
  · constructor
    · intro gone hgone hmem
      have hmem' : gone ≠ id ∧ gone ∈ batch.sampleUpdates := AList.mem_erase.mp hmem
      have hgone' : gone ∈ batch.goneIds := by
        simp only [RadarBatch.append] at hgone
        split at hgone
        · exact hgone
        · simpa [hmem'.1] using hgone
      exact hdisjoint gone hgone' hmem'.2
    · simp only [RadarBatch.append]
      split
      · exact hnodup
      · rename_i hid
        refine List.nodup_append.mpr ⟨hnodup, List.nodup_singleton _, ?_⟩
        intro a ha b hb
        rw [List.mem_singleton.mp hb]
        rintro rfl
        exact hid (by simpa using ha)
  · constructor
    · intro gone hgone hmem
      simp only [RadarBatch.append, List.mem_filter, decide_eq_true_eq] at hgone
      have hsame : (batch.append (id, some sample)).sampleUpdates.lookup gone =
          batch.sampleUpdates.lookup gone :=
        JsRecord.lookup_assign_of_ne _ _ hgone.2
      refine hdisjoint gone hgone.1 (AList.lookup_isSome.mp ?_)
      rw [← hsame]
      exact AList.lookup_isSome.mpr hmem
    · exact hnodup.filter _

/-! ## 6. A batch of several messages -/

/-- The pending batch after one write more. -/
def addWrite (pending : Option (RadarBatch ν δ))
    (w : String × Option (RadarUnitSample ν δ)) : Option (RadarBatch ν δ) :=
  match pending with
  | none => some (batchOf w)
  | some batch => some (batch.append w)

theorem foldl_onMessage (messages : List (RadarStreamMessage ν δ))
    (pending : Option (RadarBatch ν δ)) :
    messages.foldl (onMessage js) pending = (writes js messages).foldl addWrite pending := by
  induction messages generalizing pending with
  | nil => rfl
  | cons message messages ih =>
    rw [List.foldl_cons, ih]
    cases hw : writes? js message with
    | none =>
      have hnext : onMessage js pending message = pending := by
        simp [onMessage, createRadarBatch_eq, hw]
      simp [writes, hw, hnext]
    | some w =>
      have hnext : onMessage js pending message = addWrite pending w := by
        cases pending with
        | none => simp [onMessage, createRadarBatch_eq, hw, addWrite]
        | some batch =>
          simp [onMessage, createRadarBatch_eq, hw, addWrite, appendToRadarBatch_eq hw]
      simp [writes, hw, hnext]

/-- The batch opens with an update of `__proto__` and has no gone notice for it: its samples
hold that id as a property of their own. -/
def holdsProto (ws : List (String × Option (RadarUnitSample ν δ))) : Bool :=
  (ws.head?.any fun w => w.1 = protoKey && w.2.isSome) &&
    ws.all fun w => !(w.1 = protoKey && w.2.isNone)

/-- The last of the writes to `__proto__` is an update, and the batch loses it. -/
def dropsProto (ws : List (String × Option (RadarUnitSample ν δ))) : Bool :=
  (lastWrite protoKey ws).any Option.isSome && !holdsProto ws

theorem holdsProto_concat {ws : List (String × Option (RadarUnitSample ν δ))} (h : ws ≠ [])
    (w : String × Option (RadarUnitSample ν δ)) :
    holdsProto (ws ++ [w]) = (holdsProto ws && !(w.1 = protoKey && w.2.isNone)) := by
  obtain ⟨first, rest, rfl⟩ := List.exists_cons_of_ne_nil h
  simp [holdsProto, Bool.and_assoc]

/-- The batch `batch` has been built from the writes `ws`. -/
structure BuiltFrom (ws : List (String × Option (RadarUnitSample ν δ)))
    (batch : RadarBatch ν δ) : Prop where
  entry : ∀ k ≠ protoKey, batch.entry k = lastWrite k ws
  entryProto : batch.entry protoKey = if dropsProto ws then none else lastWrite protoKey ws
  holds : protoKey ∈ batch.sampleUpdates ↔ holdsProto ws = true
  clean : batch.Clean

theorem builtFrom_batchOf (w : String × Option (RadarUnitSample ν δ)) :
    BuiltFrom [w] (batchOf w) where
  entry k _ := entry_batchOf w k
  entryProto := by
    have hkeeps : dropsProto [w] = false := by
      obtain ⟨id, x⟩ := w
      by_cases hid : id = protoKey
      · subst hid
        cases x <;> simp [dropsProto, holdsProto, lastWrite]
      · have hlast : lastWrite protoKey [(id, x)] = none := by
          simpa [lastWrite] using Ne.symm hid
        simp [dropsProto, hlast]
    rw [hkeeps, entry_batchOf]
    rfl
  holds := by
    obtain ⟨id, _ | sample⟩ := w
    · simp [batchOf, holdsProto]
    · have hmem : protoKey ∈ (batchOf (id, some sample)).sampleUpdates ↔ protoKey = id :=
        (AList.mem_insert ∅).trans (by simp)
      rw [hmem]
      simp [holdsProto, eq_comm]
  clean := clean_batchOf w

/-- **The step.**  Appending a write to a batch built from earlier ones. -/
theorem BuiltFrom.append {ws : List (String × Option (RadarUnitSample ν δ))}
    {batch : RadarBatch ν δ} (h : BuiltFrom ws batch) (hne : ws ≠ [])
    (w : String × Option (RadarUnitSample ν δ)) : BuiltFrom (ws ++ [w]) (batch.append w) := by
  obtain ⟨id, x⟩ := w
  have hholds := holdsProto_concat hne (id, x)
  refine ⟨?_, ?_, ?_, h.clean.append _⟩
  · intro k hk
    by_cases hid : k = id
    · subst hid
      rw [lastWrite_concat_self]
      cases x with
      | none => exact entry_append_gone batch k
      | some sample =>
        rw [entry_append_sample, if_neg fun hp => hk hp.1]
    · rw [entry_append_of_ne batch hid, lastWrite_concat_of_ne ws x hid, h.entry k hk]
  · by_cases hid : protoKey = id
    · subst hid
      cases x with
      | none => simp [entry_append_gone, dropsProto, lastWrite_concat_self]
      | some sample =>
        have hsame : holdsProto (ws ++ [(protoKey, some sample)]) = holdsProto ws := by
          rw [hholds]; simp
        rw [entry_append_sample, dropsProto, lastWrite_concat_self, hsame]
        simp [h.holds]
    · have hsame : holdsProto (ws ++ [(id, x)]) = holdsProto ws := by
        rw [hholds]; simp [Ne.symm hid]
      rw [entry_append_of_ne batch hid, h.entryProto, dropsProto, dropsProto, hsame,
        lastWrite_concat_of_ne ws x hid]
  · rw [hholds]
    by_cases hid : id = protoKey
    · subst hid
      cases x with
      | none => simp [RadarBatch.append, JsRecord.delete]
      | some sample =>
        by_cases hmem : protoKey ∈ batch.sampleUpdates
        · simp [RadarBatch.append, JsRecord.assign, hmem, h.holds.mp hmem]
        · simp [RadarBatch.append, JsRecord.assign_proto hmem, h.holds]
    · have hsame : protoKey ∈ (batch.append (id, x)).sampleUpdates ↔
          protoKey ∈ batch.sampleUpdates := by
        rw [← AList.lookup_isSome, ← AList.lookup_isSome]
        cases x with
        | none => rw [RadarBatch.append, JsRecord.lookup_delete_of_ne _ (Ne.symm hid)]
        | some sample => rw [RadarBatch.append, JsRecord.lookup_assign_of_ne _ _ (Ne.symm hid)]
      rw [hsame, h.holds]
      simp [hid]

/-- **The run.**  The batch of consecutive writes. -/
theorem builtFrom_foldl {ws : List (String × Option (RadarUnitSample ν δ))} (h : ws ≠ []) :
    ∃ batch, ws.foldl addWrite none = some batch ∧ BuiltFrom ws batch := by
  induction ws using List.reverseRecOn with
  | nil => exact absurd rfl h
  | append_singleton ws w ih =>
    by_cases hws : ws = []
    · subst hws
      exact ⟨_, rfl, builtFrom_batchOf w⟩
    · obtain ⟨batch, hbatch, hbuilt⟩ := ih hws
      exact ⟨batch.append w, by simp [hbatch, addWrite], hbuilt.append hws w⟩

theorem builtFrom_buildBatch {messages : List (RadarStreamMessage ν δ)} {batch : RadarBatch ν δ}
    (h : buildBatch js messages = some batch) : BuiltFrom (writes js messages) batch := by
  unfold buildBatch at h
  rw [foldl_onMessage] at h
  by_cases hws : writes js messages = []
  · rw [hws] at h; cases h
  · obtain ⟨batch', hbatch', hbuilt⟩ := builtFrom_foldl hws
    rw [h] at hbatch'
    cases hbatch'
    exact hbuilt

/-- What the batch of consecutive messages says about an id. -/
theorem lookup_commitBatch (snapshot : RadarSnapshot ν δ)
    (messages : List (RadarStreamMessage ν δ)) (k : String) :
    (commitBatch snapshot (buildBatch js messages)).samples.lookup k =
      (if k = protoKey ∧ dropsProto (writes js messages) then none
        else lastWrite k (writes js messages)).getD (snapshot.samples.lookup k) := by
  cases hb : buildBatch js messages with
  | none =>
    have hws : writes js messages = [] := by
      by_contra hne
      obtain ⟨batch, hbatch, -⟩ := builtFrom_foldl hne
      rw [buildBatch, foldl_onMessage, hbatch] at hb
      cases hb
    simp [commitBatch, hws]
  | some batch =>
    have hbuilt := builtFrom_buildBatch hb
    rw [commitBatch, lookup_applyRadarBatch]
    by_cases hk : k = protoKey
    · subst hk
      rw [hbuilt.entryProto]
      simp
    · rw [hbuilt.entry k hk, if_neg fun h => hk h.1]

/-! ## 7. Batches and single messages -/

@[simp] theorem writes_append (ms ms' : List (RadarStreamMessage ν δ)) :
    writes js (ms ++ ms') = writes js ms ++ writes js ms' := List.filterMap_append

/-- One at a time, the last message about an id decides. -/
theorem lookup_applyEach (snapshot : RadarSnapshot ν δ)
    (messages : List (RadarStreamMessage ν δ)) (k : String) :
    (applyEach js snapshot messages).samples.lookup k =
      (lastWrite k (writes js messages)).getD (snapshot.samples.lookup k) := by
  induction messages using List.reverseRecOn with
  | nil => rfl
  | append_singleton ms m ih =>
    have hsnoc : applyEach js snapshot (ms ++ [m]) =
        commitBatch (applyEach js snapshot ms) (createRadarBatch js m) := by
      simp [applyEach]
    rw [hsnoc, writes_append, lastWrite_append, createRadarBatch_eq]
    cases hw : writes? js m with
    | none => simpa [commitBatch, writes, hw] using ih
    | some w =>
      have hone : writes js [m] = [w] := by simp [writes, hw]
      rw [hone]
      simp only [Option.map_some, commitBatch, lookup_applyRadarBatch, entry_batchOf, ih]
      cases lastWrite k [w] <;> rfl

/-- The batches of a cut that do not lose their last update of `__proto__`. -/
def keeping (js : JsNumber ν) (cut : List (List (RadarStreamMessage ν δ))) :
    List (List (RadarStreamMessage ν δ)) :=
  cut.filter fun messages => !dropsProto (writes js messages)

/-- **In batches, the last message about an id decides,** for `__proto__` among the batches
that do not lose it. -/
theorem lookup_applyBatches (snapshot : RadarSnapshot ν δ)
    (cut : List (List (RadarStreamMessage ν δ))) (k : String) :
    (applyBatches js snapshot cut).samples.lookup k =
      (lastWrite k (writes js (if k = protoKey then keeping js cut else cut).flatten)).getD
        (snapshot.samples.lookup k) := by
  induction cut using List.reverseRecOn with
  | nil => simp [applyBatches, keeping, writes]
  | append_singleton cut messages ih =>
    have hsnoc : applyBatches js snapshot (cut ++ [messages]) =
        commitBatch (applyBatches js snapshot cut) (buildBatch js messages) := by
      simp [applyBatches]
    rw [hsnoc, lookup_commitBatch, ih]
    by_cases hk : k = protoKey
    · by_cases hd : dropsProto (writes js messages) = true
      · simp [hk, hd, keeping]
      · simp only [hk, hd, if_true, keeping, List.filter_append, List.flatten_append,
          writes_append, lastWrite_append, and_false, if_false, Bool.false_eq_true]
        simp only [List.filter_cons, hd, List.filter_nil, Bool.not_false, if_true,
          List.flatten_cons, List.flatten_nil, List.append_nil]
        cases lastWrite protoKey (writes js messages) <;> rfl
    · simp only [hk, false_and, if_false, List.flatten_append, writes_append, lastWrite_append,
        List.flatten_cons, List.flatten_nil, List.append_nil]
      cases lastWrite k (writes js messages) <;> rfl

/-- Batching is transparent for a cut: the batches, committed one after the other to any
snapshot, give the same map as the messages one at a time, and each of them is clean. -/
def Transparent (js : JsNumber ν) (cut : List (List (RadarStreamMessage ν δ))) : Prop :=
  (∀ snapshot, (applyBatches js snapshot cut).SameMap (applyEach js snapshot cut.flatten)) ∧
    ∀ messages ∈ cut, ∀ batch, buildBatch js messages = some batch → batch.Clean

theorem keeping_of_forall {cut : List (List (RadarStreamMessage ν δ))}
    (h : ∀ messages ∈ cut, dropsProto (writes js messages) = false) : keeping js cut = cut :=
  List.filter_eq_self.mpr fun messages hm => by simp [h messages hm]

/-- **Radar batching.**  A cut is transparent exactly when the last message about `__proto__`
says the same with and without the batches that lose their last update of it. -/
theorem transparent_iff (cut : List (List (RadarStreamMessage ν δ))) :
    Transparent js cut ↔
      lastWrite protoKey (writes js cut.flatten) =
        lastWrite protoKey (writes js (keeping js cut).flatten) := by
  constructor
  · rintro ⟨hsame, -⟩
    by_cases hdrops : ∀ messages ∈ cut, dropsProto (writes js messages) = false
    · rw [keeping_of_forall hdrops]
    · push Not at hdrops
      obtain ⟨messages, -, hm⟩ := hdrops
      obtain ⟨sample, -⟩ : ∃ sample : RadarUnitSample ν δ, True := by
        simp only [dropsProto, ne_eq, Bool.not_eq_false, Bool.and_eq_true,
          Option.any_eq_true] at hm
        obtain ⟨⟨x, -, hx⟩, -⟩ := hm
        exact ⟨x.get hx, trivial⟩
      have : Nontrivial (Option (RadarUnitSample ν δ)) := ⟨⟨none, some sample, by simp⟩⟩
      refine eq_of_getD_eq ?_
      intro x
      -- a snapshot in which the sample of `__proto__` is `x`
      obtain ⟨snapshot, hsnapshot⟩ : ∃ snapshot : RadarSnapshot ν δ,
          snapshot.samples.lookup protoKey = x := by
        cases x with
        | none => exact ⟨⟨∅⟩, rfl⟩
        | some v => exact ⟨⟨JsRecord.define ∅ protoKey v⟩, JsRecord.lookup_define_self _ _ _⟩
      have h := hsame snapshot protoKey
      rw [lookup_applyBatches, lookup_applyEach, if_pos rfl, hsnapshot] at h
      exact h.symm
  · intro hlast
    constructor
    · intro snapshot k
      rw [lookup_applyBatches, lookup_applyEach]
      split
      · rename_i hk; rw [hk, hlast]
      · rfl
    · intro messages _ batch hbatch
      exact (builtFrom_buildBatch hbatch).clean

/-- Batching is transparent for a stream in which no id is `__proto__`. -/
theorem transparent_of_no_proto {cut : List (List (RadarStreamMessage ν δ))}
    (h : ∀ w ∈ writes js cut.flatten, w.1 ≠ protoKey) : Transparent js cut := by
  have hkeeping : keeping js cut = cut := by
    refine keeping_of_forall ?_
    intro messages hm
    have hnone : lastWrite protoKey (writes js messages) = none := by
      refine lastWrite_eq_none fun w hw => h w ?_
      obtain ⟨before, after, rfl⟩ := List.append_of_mem hm
      simp [hw]
    simp [dropsProto, hnone]
  constructor
  · intro snapshot k
    rw [lookup_applyBatches, lookup_applyEach, hkeeping, ite_self]
  · intro messages _ batch hbatch
    exact (builtFrom_buildBatch hbatch).clean

/-! ## 8. The stream's ids -/

/-- `String(n)` opens with a digit or a sign, or is `Infinity` or `NaN`. -/
def JsNumber.PrintsNumbers (js : JsNumber ν) : Prop :=
  ∀ n, ∃ c ∈ (js.text n).toList.head?, c.isDigit = true ∨ c ∈ ['-', 'I', 'N']

/-- An id of the stream: a number, or the text of one. -/
def NumberOrString.Numeric (js : JsNumber ν) : NumberOrString ν → Prop
  | .number _ => True
  | .string s => ∃ n, s = js.text n

/-- The ids a message speaks of. -/
def RadarStreamMessage.ids (message : RadarStreamMessage ν δ) : List (NumberOrString ν) :=
  (message.unit.bind RadarUnit.id).toList ++ (message.gone.bind RadarGone.id).toList

theorem idText_ne_proto (hjs : js.PrintsNumbers) {id : NumberOrString ν} (h : id.Numeric js) :
    idText js id ≠ protoKey := by
  have htext : ∀ n, js.text n ≠ protoKey := by
    intro n hn
    obtain ⟨c, hc, hprinted⟩ := hjs n
    rw [hn] at hc
    obtain rfl : '_' = c := by simpa [protoKey] using hc
    exact absurd hprinted (by decide)
  cases id with
  | number n => exact htext n
  | string s =>
    obtain ⟨n, rfl⟩ := h
    exact htext n

/-- A message writes under one of its ids. -/
theorem writes?_id {message : RadarStreamMessage ν δ} {w : String × Option (RadarUnitSample ν δ)}
    (h : writes? js message = some w) : ∃ id ∈ message.ids, w.1 = idText js id := by
  unfold writes? at h
  split at h
  · rename_i id unit hupdated
    obtain ⟨u, hu, huid⟩ : ∃ u, message.unit = some u ∧ u.id = some id := by
      split at hupdated
      · obtain ⟨u, hu, hmap⟩ := Option.bind_eq_some_iff.mp hupdated
        obtain ⟨id', hid, heq⟩ := Option.map_eq_some_iff.mp hmap
        obtain ⟨rfl, -⟩ := Prod.mk.inj heq
        exact ⟨u, hu, hid⟩
      · cases hupdated
    cases h
    exact ⟨id, by simp [RadarStreamMessage.ids, hu, huid], rfl⟩
  · obtain ⟨id, hgone, rfl⟩ := Option.map_eq_some_iff.mp h
    split at hgone
    · exact ⟨id, by simp [RadarStreamMessage.ids, hgone], rfl⟩
    · cases hgone

/-- **Radar batching is transparent** for the stream of units, whose ids are numbers: however
the messages are cut into batches, committing these one after the other gives the map that the
messages give one at a time, and every batch is clean. -/
theorem transparent (hjs : js.PrintsNumbers) {cut : List (List (RadarStreamMessage ν δ))}
    (hids : ∀ messages ∈ cut, ∀ message ∈ messages, ∀ id ∈ message.ids, id.Numeric js) :
    Transparent js cut := by
  refine transparent_of_no_proto ?_
  intro w hw
  obtain ⟨message, hm, hwrites⟩ := List.mem_filterMap.mp hw
  obtain ⟨messages, hmessages, hm⟩ := List.mem_flatten.mp hm
  obtain ⟨id, hid, htext⟩ := writes?_id hwrites
  rw [htext]
  exact idText_ne_proto hjs (hids messages hmessages message hm id hid)

/-- JavaScript's numbers, for whole numbers. -/
def wholeNumbers : JsNumber Nat where
  text n := Nat.repr n
  ofText s := s.toNat?.getD 0
  isFinite _ := true

theorem wholeNumbers_printsNumbers : wholeNumbers.PrintsNumbers := by
  intro n
  have htext : (wholeNumbers.text n).toList = Nat.toDigits 10 n := String.toList_ofList
  rw [htext]
  cases hdigits : Nat.toDigits 10 n with
  | nil => exact absurd hdigits Nat.toDigits_ne_nil
  | cons c cs =>
    have hc : c ∈ Nat.toDigits 10 n := by rw [hdigits]; exact List.mem_cons_self
    exact ⟨c, rfl, .inl (Nat.isDigit_of_mem_toDigits (by decide) (by decide) hc)⟩

/-- A unit update of the stream. -/
def unitUpdate (id : NumberOrString Nat) : RadarStreamMessage Nat Unit where
  time := some (.number 124)
  update := some "unit"
  unit := some { id := some id, fields := () }
  gone := none

/-- A gone notice of the stream. -/
def unitGone (id : NumberOrString Nat) : RadarStreamMessage Nat Unit where
  time := some (.number 125)
  update := some "gone"
  unit := none
  gone := some { id := some id }

/-- A unit appears, is removed and appears again, another one under its id as text, with a cut
between the removal and what follows. -/
theorem transparent_reappearing :
    Transparent wholeNumbers
      [[unitUpdate (.number 72), unitUpdate (.string "71"), unitGone (.number 72)],
        [unitUpdate (.number 72), unitGone (.number 71), unitGone (.number 71)]] := by
  refine transparent wholeNumbers_printsNumbers ?_
  have hnumber : ∀ n, (NumberOrString.number n).Numeric wholeNumbers := fun _ => trivial
  have htext : (NumberOrString.string "71").Numeric wholeNumbers := ⟨71, rfl⟩
  simp [unitUpdate, unitGone, RadarStreamMessage.ids, hnumber, htext]

/-! ## 9. The page's runs -/

/-- What happens to the page: a message arrives, or the settle timer fires. -/
inductive PageEvent (ν δ : Type*)
  | message (m : RadarStreamMessage ν δ)
  | commitPendingBatch

/-- The page as far as the stream moves it. -/
structure Page (ν δ : Type*) where
  pending : Option (RadarBatch ν δ)
  snapshot : RadarSnapshot ν δ

/-- The radar stream effect. -/
def Page.step (js : JsNumber ν) (page : Page ν δ) : PageEvent ν δ → Page ν δ
  | .message m => { page with pending := onMessage js page.pending m }
  | .commitPendingBatch =>
    { pending := none, snapshot := commitBatch page.snapshot page.pending }

/-- The messages of a run. -/
def PageEvent.message? : PageEvent ν δ → Option (RadarStreamMessage ν δ)
  | .message m => some m
  | .commitPendingBatch => none

/-- **Every run of the page is a cut.**  Whenever the timer fires, the snapshot is that of the
messages committed so far, cut into batches, and the rest is the pending batch. -/
theorem page_run (js : JsNumber ν) (snapshot : RadarSnapshot ν δ) (events : List (PageEvent ν δ)) :
    ∃ cut rest, events.filterMap PageEvent.message? = cut.flatten ++ rest ∧
      events.foldl (Page.step js) ⟨none, snapshot⟩ =
        ⟨buildBatch js rest, applyBatches js snapshot cut⟩ := by
  induction events using List.reverseRecOn with
  | nil => exact ⟨[], [], rfl, rfl⟩
  | append_singleton events e ih =>
    obtain ⟨cut, rest, hmessages, hpage⟩ := ih
    cases e with
    | message m =>
      refine ⟨cut, rest ++ [m], by simp [hmessages, PageEvent.message?], ?_⟩
      simp [hpage, Page.step, buildBatch]
    | commitPendingBatch =>
      refine ⟨cut ++ [rest], [], by simp [hmessages, PageEvent.message?], ?_⟩
      simp [hpage, Page.step, applyBatches, buildBatch]

/-- **The snapshot of a page.**  In a run whose stream has no id `__proto__`, once the pending
batch has been committed the snapshot is that of the messages one at a time. -/
theorem page_snapshot {snapshot : RadarSnapshot ν δ} {events : List (PageEvent ν δ)}
    (h : ∀ w ∈ writes js (events.filterMap PageEvent.message?), w.1 ≠ protoKey) :
    RadarSnapshot.SameMap
      ((events ++ [PageEvent.commitPendingBatch]).foldl (Page.step js) ⟨none, snapshot⟩).snapshot
      (applyEach js snapshot (events.filterMap PageEvent.message?)) := by
  obtain ⟨cut, rest, hmessages, hpage⟩ := page_run js snapshot events
  have hcommit : ((events ++ [PageEvent.commitPendingBatch]).foldl (Page.step js)
      ⟨none, snapshot⟩).snapshot = applyBatches js snapshot (cut ++ [rest]) := by
    simp [hpage, Page.step, applyBatches]
  have hflat : events.filterMap PageEvent.message? = (cut ++ [rest]).flatten := by
    simp [hmessages]
  rw [hcommit, hflat]
  rw [hflat] at h
  exact (transparent_of_no_proto h).1 snapshot

end DcsDashboard.Airboss.DeckTracking
