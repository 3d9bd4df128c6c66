/-
# Reordering what is visible

Both preference files move an item in the full order, with the hidden items in between, to the
place another visible item has: one step with two splices (`moveVisible` of the left panel), or
anywhere by filtering the item out and splicing it in (`moveVisibleIndex`).  What the user sees is
that the item has moved among the visible ones and that nothing else has happened
(`reorders_as_seen`).
-/
import DcsDashboard.Lib.Moving
import DcsDashboard.Preferences.HideColumn

namespace DcsDashboard.Preferences

open Lib

/-! ## 1. Splices -/

section

variable {α : Type*} [DecidableEq α] {a b c : List α} {x y : α}

omit [DecidableEq α] in
theorem notMem_of_nodup_split (hnodup : (a ++ x :: b).Nodup) : x ∉ a := fun hx =>
  (List.nodup_cons.mp (List.nodup_middle.mp hnodup)).1 (List.mem_append_left b hx)

theorem indexOf_at_split (hy : y ∉ a) (b : List α) : indexOf (a ++ y :: b) y = a.length := by
  have hmem : y ∈ a ++ y :: b := by simp
  rw [indexOf, if_pos hmem, List.idxOf_append_of_notMem hy]
  simp

theorem indexOf_of_getElem? {l : List α} (hnodup : l.Nodup) {i : Nat} (h : l[i]? = some x) :
    indexOf l x = i := by
  obtain ⟨a, b, rfl, rfl⟩ := exists_split_one h
  exact indexOf_at_split (notMem_of_nodup_split hnodup) b

omit [DecidableEq α] in
theorem spliceStart_length (a b : List α) : spliceStart (a ++ b) a.length = a.length := by
  simp [spliceStart]

omit [DecidableEq α] in
theorem spliceIn_at_split (a b : List α) (x : α) :
    spliceIn (a ++ b) a.length x = a ++ x :: b := by
  rw [spliceIn, spliceStart_length, List.take_left, List.drop_left]

omit [DecidableEq α] in
theorem spliceOut_at_split (a b : List α) (x : α) :
    spliceOut (a ++ x :: b) a.length = a ++ b := by
  rw [spliceOut, spliceStart_length, eraseIdx_at_split]

theorem filter_ne_at_split (hnodup : (a ++ x :: b).Nodup) :
    ((a ++ x :: b).filter fun item => item ≠ x) = a ++ b := by
  obtain ⟨-, hb, hdisjoint⟩ := List.nodup_append.mp hnodup
  have ha : ∀ item ∈ a, decide (item ≠ x) = true := fun item hitem => by
    simpa using hdisjoint item hitem x (by simp)
  have hb' : ∀ item ∈ b, decide (item ≠ x) = true := fun item hitem => by
    have hx : x ∉ b := (List.nodup_cons.mp hb).1
    simpa using fun heq : item = x => hx (heq ▸ hitem)
  rw [List.filter_append, List.filter_cons_of_neg (by simp), List.filter_eq_self.mpr ha,
    List.filter_eq_self.mpr hb']

end

@[simp] theorem at?_natCast {α : Type*} (l : List α) (i : Nat) : at? l (i : Int) = l[i]? := by
  simp [at?]

/-! ## 2. Moves in the full order -/

/-- What `moveVisibleIndex` of both preference files does to the full order. -/
def movedOrder (order : List String) (id targetId : String) (source target : Int) : List String :=
  let next := order.filter fun item => item ≠ id
  let targetIndex := indexOf next targetId
  spliceIn next (if source < target then targetIndex + 1 else targetIndex) id

/-- What `moveVisible` of the left panel does to the full order. -/
def steppedOrder (order : List String) (id targetId : String) : List String :=
  spliceIn (spliceOut order (indexOf order id)) (indexOf order targetId) id

section

variable {a b c : List String} {id targetId : String} {source target : Int}

theorem movedOrder_down (hnodup : (a ++ id :: (b ++ targetId :: c)).Nodup)
    (hdown : source < target) :
    movedOrder (a ++ id :: (b ++ targetId :: c)) id targetId source target =
      a ++ (b ++ targetId :: id :: c) := by
  have hnext : ((a ++ id :: (b ++ targetId :: c)).filter fun item => item ≠ id) =
      (a ++ b) ++ targetId :: c := by
    rw [filter_ne_at_split hnodup, List.append_assoc]
  have htarget : targetId ∉ a ++ b := by
    have hwhole : ((a ++ id :: b) ++ targetId :: c).Nodup := by simpa using hnodup
    intro hmem
    refine notMem_of_nodup_split hwhole ?_
    rcases List.mem_append.mp hmem with hmem | hmem <;> simp [hmem]
  have hassoc : (a ++ b) ++ targetId :: c = (a ++ b ++ [targetId]) ++ c := by simp
  have hplace : ((a ++ b).length : Int) + 1 = ((a ++ b ++ [targetId]).length : Int) := by
    simp only [List.length_append, List.length_singleton]
    omega
  simp only [movedOrder, hnext, if_pos hdown, indexOf_at_split htarget]
  rw [hplace, hassoc, spliceIn_at_split]
  simp

theorem movedOrder_up (hnodup : (a ++ targetId :: (b ++ id :: c)).Nodup)
    (hup : ¬ source < target) :
    movedOrder (a ++ targetId :: (b ++ id :: c)) id targetId source target =
      a ++ id :: targetId :: (b ++ c) := by
  have hassoc : a ++ targetId :: (b ++ id :: c) = (a ++ targetId :: b) ++ id :: c := by simp
  have hnext : ((a ++ targetId :: (b ++ id :: c)).filter fun item => item ≠ id) =
      a ++ targetId :: (b ++ c) := by
    rw [hassoc] at hnodup ⊢
    rw [filter_ne_at_split hnodup]
    simp
  simp only [movedOrder, hnext, if_neg hup, indexOf_at_split (notMem_of_nodup_split hnodup)]
  rw [spliceIn_at_split]

/-- A step down to the next visible item. -/
theorem steppedOrder_down (hnodup : (a ++ id :: (b ++ targetId :: c)).Nodup) :
    steppedOrder (a ++ id :: (b ++ targetId :: c)) id targetId =
      a ++ (b ++ targetId :: id :: c) := by
  have hassoc : a ++ id :: (b ++ targetId :: c) = (a ++ id :: b) ++ targetId :: c := by simp
  have htarget : targetId ∉ a ++ id :: b := by
    rw [hassoc] at hnodup
    exact notMem_of_nodup_split hnodup
  have hindex : indexOf (a ++ id :: (b ++ targetId :: c)) targetId =
      ((a ++ b ++ [targetId]).length : Int) := by
    rw [hassoc, indexOf_at_split htarget]
    simp only [List.length_append, List.length_cons, List.length_nil]
    omega
  have hrest : a ++ (b ++ targetId :: c) = (a ++ b ++ [targetId]) ++ c := by simp
  rw [steppedOrder, hindex, indexOf_at_split (notMem_of_nodup_split hnodup), spliceOut_at_split,
    hrest, spliceIn_at_split]
  simp

/-- A step up to the visible item before. -/
theorem steppedOrder_up (hnodup : (a ++ targetId :: (b ++ id :: c)).Nodup) :
    steppedOrder (a ++ targetId :: (b ++ id :: c)) id targetId =
      a ++ id :: targetId :: (b ++ c) := by
  have hassoc : a ++ targetId :: (b ++ id :: c) = (a ++ targetId :: b) ++ id :: c := by simp
  have hindex : indexOf (a ++ targetId :: (b ++ id :: c)) id = ((a ++ targetId :: b).length : Int) := by
    rw [hassoc] at hnodup ⊢
    exact indexOf_at_split (notMem_of_nodup_split hnodup) c
  have hout : spliceOut (a ++ targetId :: (b ++ id :: c)) ((a ++ targetId :: b).length : Int) =
      a ++ targetId :: (b ++ c) := by
    rw [hassoc, spliceOut_at_split]
    simp
  rw [steppedOrder, hindex, hout, indexOf_at_split (notMem_of_nodup_split hnodup),
    spliceIn_at_split]

end

section

variable {order : List String} {p : String → Bool} {i j : Nat} {id targetId : String}

/-- **A move to the place of another visible item.** -/
theorem movedShown_movedOrder (hnodup : order.Nodup) (hne : i ≠ j)
    (hid : (order.filter p)[i]? = some id) (htarget : (order.filter p)[j]? = some targetId) :
    MovedShown p order (movedOrder order id targetId i j) i j := by
  rcases Nat.lt_or_gt_of_ne hne with hlt | hgt
  · obtain ⟨a, b, c, rfl, hp, hp', rfl, rfl⟩ := exists_split_of_filter hlt hid htarget
    rw [movedOrder_down hnodup (by exact_mod_cast hlt)]
    exact movedShown_down a b c hp hp'
  · obtain ⟨a, b, c, rfl, hp', hp, rfl, rfl⟩ := exists_split_of_filter hgt htarget hid
    rw [movedOrder_up hnodup (by exact_mod_cast Nat.not_lt_of_gt hgt)]
    exact movedShown_up a b c hp hp'

/-- **Both ways of moving are the same.** -/
theorem steppedOrder_eq (hnodup : order.Nodup) (hne : i ≠ j)
    (hid : (order.filter p)[i]? = some id) (htarget : (order.filter p)[j]? = some targetId) :
    steppedOrder order id targetId = movedOrder order id targetId i j := by
  rcases Nat.lt_or_gt_of_ne hne with hlt | hgt
  · obtain ⟨a, b, c, rfl, -, -, -, -⟩ := exists_split_of_filter hlt hid htarget
    rw [steppedOrder_down hnodup, movedOrder_down hnodup (by exact_mod_cast hlt)]
  · obtain ⟨a, b, c, rfl, -, -, -, -⟩ := exists_split_of_filter hgt htarget hid
    rw [steppedOrder_up hnodup, movedOrder_up hnodup (by exact_mod_cast Nat.not_lt_of_gt hgt)]

end

/-! ## 3. Slots -/

theorem indexOfSlot_eq (i s : Nat) :
    indexOfSlot i s = ((if i < s then s - 1 else s : Nat) : Int) := by
  unfold indexOfSlot
  split <;> split <;> omega

/-- The slots on either side of an item. -/
theorem indexOfSlot_near {i s : Nat} (h : s = i ∨ s = i + 1) : indexOfSlot i s = i := by
  rw [indexOfSlot_eq]
  split <;> omega

/-! ## 4. The left panel -/

namespace Nav

/-- What the user sees of a move: the visible page at `i` is now at `j`. -/
structure MovesVisible (prefs prefs' : NavPrefs) (pages : List NavPage) (i j : Nat) : Prop where
  visible : (resolveNav prefs' pages).visible = moved (resolveNav prefs pages).visible i j
  hidden : (resolveNav prefs' pages).hidden = (resolveNav prefs pages).hidden
  stored : prefs'.hidden = prefs.hidden

section

variable {prefs : NavPrefs} {pages : List NavPage} {i j : Nat} {id targetId : String}

/-- Which ids are visible depends on the stored hidden ids only. -/
def shown (prefs : NavPrefs) (pages : List NavPage) (id : String) : Bool :=
  id ∉ hiddenIds prefs pages

theorem fullOrder_nodup : (fullOrder prefs pages).Nodup := (mergeOrder_placed _ _).1

theorem id_of_byId {page : NavPage} (h : byId pages id = some page) : page.id = id := by
  simpa using List.find?_some h

section Distinct

variable (hdistinct : (pages.map NavPage.id).Nodup)

include hdistinct

/-- The pages in display order are those of the full order. -/
theorem ordered_eq (prefs : NavPrefs) :
    ordered prefs pages = (fullOrder prefs pages).filterMap (byId pages) := by
  have hmerge : ordered prefs pages = merge (byId pages) prefs.order (pages.map NavPage.id) := by
    rw [ordered, foldl_placePage hdistinct fun _ hp => hp]
    rfl
  rw [hmerge, merge_eq_filterMap (isSome_byId hdistinct)]
  rfl

theorem filter_ordered (prefs : NavPrefs) (p : String → Bool) :
    (ordered prefs pages).filter (fun page => p page.id) =
      ((fullOrder prefs pages).filter p).filterMap (byId pages) := by
  rw [ordered_eq hdistinct, List.filter_filterMap, List.filterMap_filter]
  refine List.filterMap_congr ?_
  intro id _
  cases hpage : byId pages id with
  | none => simp
  | some page => simp [Option.filter, id_of_byId hpage]

theorem visible_eq (prefs : NavPrefs) : (resolveNav prefs pages).visible =
    ((fullOrder prefs pages).filter (shown prefs pages)).filterMap (byId pages) :=
  filter_ordered hdistinct prefs (shown prefs pages)

theorem hidden_eq (prefs : NavPrefs) : (resolveNav prefs pages).hidden =
    ((fullOrder prefs pages).filter fun id => !shown prefs pages id).filterMap (byId pages) := by
  rw [← filter_ordered hdistinct prefs]
  simp [resolveNav, shown]

theorem isSome_byId_of_fullOrder (hid : id ∈ fullOrder prefs pages) : (byId pages id).isSome :=
  (isSome_byId hdistinct id).mpr (((mergeOrder_placed _ _).2 id).mp hid)

/-- The ids of the visible pages. -/
theorem visible_ids (prefs : NavPrefs) : (resolveNav prefs pages).visible.map NavPage.id =
    (fullOrder prefs pages).filter (shown prefs pages) := by
  rw [visible_eq hdistinct, List.map_filterMap]
  refine (List.filterMap_congr fun id hid => ?_).trans List.filterMap_some
  obtain ⟨page, hpage⟩ := Option.isSome_iff_exists.mp
    (isSome_byId_of_fullOrder hdistinct (List.mem_of_mem_filter hid))
  simp [hpage, id_of_byId hpage]

/-- A move in the full order, as the user sees it. -/
theorem movesVisible_of_movedShown {order : List String}
    (h : MovedShown (shown prefs pages) (fullOrder prefs pages) order i j) :
    MovesVisible prefs { prefs with order } pages i j := by
  have horder : fullOrder { prefs with order } pages = order :=
    mergeOrder_of_complete (h.perm.nodup_iff.mpr fullOrder_nodup) fun id =>
      h.perm.mem_iff.trans ((mergeOrder_placed _ _).2 id)
  have hshown : shown { prefs with order } pages = shown prefs pages := rfl
  refine ⟨?_, ?_, rfl⟩
  · rw [visible_eq hdistinct, visible_eq hdistinct, horder, hshown, h.shown]
    exact moved_filterMap (fun id hid =>
      isSome_byId_of_fullOrder hdistinct (List.mem_of_mem_filter hid)) i j
  · rw [hidden_eq hdistinct, hidden_eq hdistinct, horder, hshown, h.others]

theorem visible_length (prefs : NavPrefs) : (resolveNav prefs pages).visible.length =
    ((fullOrder prefs pages).filter (shown prefs pages)).length := by
  rw [← visible_ids hdistinct, List.length_map]

/-- `moveVisibleIndex` between two visible pages. -/
theorem moveVisibleIndex_eq (hne : i ≠ j)
    (hid : ((fullOrder prefs pages).filter (shown prefs pages))[i]? = some id)
    (htarget : ((fullOrder prefs pages).filter (shown prefs pages))[j]? = some targetId) :
    moveVisibleIndex prefs i j pages =
      { prefs with order := movedOrder (fullOrder prefs pages) id targetId i j } := by
  have hi := (List.getElem?_eq_some_iff.mp hid).1
  have hj := (List.getElem?_eq_some_iff.mp htarget).1
  simp only [moveVisibleIndex, visible_ids hdistinct, at?_natCast, hid, htarget]
  rw [if_neg (by omega)]
  rfl

/-- `moveVisible` to a page next to the page `id`. -/
theorem moveVisible_eq {direction : Int} (hj : (i : Int) + direction = j)
    (hid : ((fullOrder prefs pages).filter (shown prefs pages))[i]? = some id)
    (htarget : ((fullOrder prefs pages).filter (shown prefs pages))[j]? = some targetId) :
    moveVisible prefs id direction pages =
      { prefs with order := steppedOrder (fullOrder prefs pages) id targetId } := by
  have hnodup : ((fullOrder prefs pages).filter (shown prefs pages)).Nodup :=
    fullOrder_nodup.filter _
  have hlen := (List.getElem?_eq_some_iff.mp htarget).1
  simp only [moveVisible, visible_ids hdistinct, indexOf_of_getElem? hnodup hid, hj, at?_natCast, htarget]
  rw [if_neg (by omega), if_neg (by omega)]
  rfl

/-- **A move to the place of another visible page.** -/
theorem movesVisible (hi : i < (resolveNav prefs pages).visible.length)
    (hj : j < (resolveNav prefs pages).visible.length) :
    MovesVisible prefs (moveVisibleIndex prefs i j pages) pages i j := by
  rw [visible_length hdistinct] at hi hj
  by_cases hne : i = j
  · subst hne
    have hsame : moveVisibleIndex prefs i i pages = prefs := by simp [moveVisibleIndex]
    rw [hsame]
    exact ⟨(moved_self _ i).symm, rfl, rfl⟩
  · have hid := List.getElem?_eq_getElem hi
    have htarget := List.getElem?_eq_getElem hj
    rw [moveVisibleIndex_eq hdistinct hne hid htarget]
    exact movesVisible_of_movedShown hdistinct
      (movedShown_movedOrder fullOrder_nodup hne hid htarget)

/-- **One step is a move to the next visible page**, and nothing at the end of the list. -/
theorem moveVisible_eq_moveVisibleIndex {page : NavPage} {direction : Int}
    (hpage : (resolveNav prefs pages).visible[i]? = some page)
    (hdirection : direction = -1 ∨ direction = 1) :
    moveVisible prefs page.id direction pages = moveVisibleIndex prefs i (i + direction) pages := by
  have hid : ((fullOrder prefs pages).filter (shown prefs pages))[i]? = some page.id := by
    rw [← visible_ids hdistinct, List.getElem?_map, hpage]
    rfl
  have hi := (List.getElem?_eq_some_iff.mp hid).1
  by_cases hrange : 0 ≤ (i : Int) + direction ∧
      (i : Int) + direction < ((fullOrder prefs pages).filter (shown prefs pages)).length
  · obtain ⟨j, hj⟩ := Int.eq_ofNat_of_zero_le hrange.1
    have hne : i ≠ j := by omega
    have hlen : j < ((fullOrder prefs pages).filter (shown prefs pages)).length := by omega
    have htarget := List.getElem?_eq_getElem hlen
    rw [moveVisible_eq hdistinct hj hid htarget, hj,
      moveVisibleIndex_eq hdistinct hne hid htarget,
      steppedOrder_eq fullOrder_nodup hne hid htarget]
  · -- there is no visible page on that side
    have hnodup : ((fullOrder prefs pages).filter (shown prefs pages)).Nodup :=
      fullOrder_nodup.filter _
    have hstep : moveVisible prefs page.id direction pages = prefs := by
      simp only [moveVisible, visible_ids hdistinct, indexOf_of_getElem? hnodup hid]
      rw [if_neg (by omega), if_pos (by omega)]
    have hmove : moveVisibleIndex prefs i (i + direction) pages = prefs := by
      simp only [moveVisibleIndex, visible_ids hdistinct]
      rw [if_pos (by omega)]
    rw [hstep, hmove]

omit hdistinct in
/-- A drop is a move to the slot. -/
theorem finishDrag_eq (prefs : NavPrefs) (i : Nat) (slot : Int) :
    finishDrag prefs i slot pages = moveVisibleIndex prefs i (slotToIndex i slot) pages := by
  by_cases hsame : slotToIndex i slot = i
  · simp [finishDrag, hsame, moveVisibleIndex]
  · simp [finishDrag, hsame]

/-- **A drop on a slot.**  On either side of the page it changes nothing; elsewhere the page ends
up just before what was at the slot. -/
theorem finishDrag_slot {page : NavPage} {s : Nat}
    (hpage : (resolveNav prefs pages).visible[i]? = some page)
    (hs : s ≤ (resolveNav prefs pages).visible.length) :
    (s = i ∨ s = i + 1 → finishDrag prefs i s pages = prefs) ∧
      (s ≠ i → s ≠ i + 1 → ∃ before after,
        (resolveNav (finishDrag prefs i s pages) pages).visible = before ++ page :: after ∧
          after.head? = (resolveNav prefs pages).visible[s]?) := by
  have hi := (List.getElem?_eq_some_iff.mp hpage).1
  constructor
  · intro hnear
    have hsame : slotToIndex i s = i := indexOfSlot_near hnear
    simp [finishDrag, hsame]
  · intro hbefore hafter
    have hindex : slotToIndex i s = ((if i < s then s - 1 else s : Nat) : Int) := indexOfSlot_eq i s
    rw [finishDrag_eq, hindex, (movesVisible hdistinct hi (by split <;> omega)).visible]
    exact moved_slot hpage hs hbefore hafter

end Distinct

end

end Nav

/-! ## 5. The tables -/

namespace Columns

/-- What the user sees of a move: the visible column at `i` is now at `j`. -/
structure MovesVisible (prefs prefs' : ColumnPrefs) (spec : TableSpec) (i j : Nat) : Prop where
  visible : (resolveColumns prefs' spec).visible = moved (resolveColumns prefs spec).visible i j
  hidden : (resolveColumns prefs' spec).hidden = (resolveColumns prefs spec).hidden
  stored : prefs'.hidden = prefs.hidden

/-- Which columns are visible: those not stored as hidden, or all if there would be none. -/
def shown (prefs : ColumnPrefs) (spec : TableSpec) (id : String) : Bool :=
  id ∉ prefs.hidden || spec.columns.all fun column => column ∈ prefs.hidden

section

variable {prefs : ColumnPrefs} {spec : TableSpec} {i j : Nat} {c targetId : String}

theorem fullOrder_nodup : (fullOrder prefs spec).Nodup := (mergeOrder_placed _ _).1

theorem shown_of_someShown (h : SomeShown prefs spec) (id : String) :
    shown prefs spec id = decide (id ∉ prefs.hidden) := by
  have hall : spec.columns.all (fun column => column ∈ prefs.hidden) = false := by
    obtain ⟨id, hid, hnot⟩ := h
    simpa using ⟨id, hid, hnot⟩
  rw [shown, hall, Bool.or_false]

theorem shown_of_not_someShown (h : ¬ SomeShown prefs spec) (id : String) :
    shown prefs spec id = true := by
  have hall : spec.columns.all (fun column => column ∈ prefs.hidden) = true := by
    simpa [SomeShown] using h
  rw [shown, hall, Bool.or_true]

theorem visible_eq (prefs : ColumnPrefs) (spec : TableSpec) :
    (resolveColumns prefs spec).visible = (fullOrder prefs spec).filter (shown prefs spec) := by
  by_cases h : SomeShown prefs spec
  · rw [visible_of_someShown h]
    exact List.filter_congr fun id _ => (shown_of_someShown h id).symm
  · rw [visible_of_not_someShown h]
    exact (List.filter_eq_self.mpr fun id _ => shown_of_not_someShown h id).symm

theorem hidden_eq (prefs : ColumnPrefs) (spec : TableSpec) :
    (resolveColumns prefs spec).hidden =
      (fullOrder prefs spec).filter fun id => !shown prefs spec id := by
  by_cases h : SomeShown prefs spec
  · have hpos : ((fullOrder prefs spec).filter fun id => id ∉ prefs.hidden).length ≠ 0 := by
      obtain ⟨id, hid, hnot⟩ := h
      have hmem : id ∈ (fullOrder prefs spec).filter fun id => id ∉ prefs.hidden :=
        List.mem_filter.mpr ⟨((mergeOrder_placed _ _).2 id).mpr hid, by simpa using hnot⟩
      exact (List.length_pos_of_mem hmem).ne'
    simp only [resolveColumns, if_neg hpos]
    exact List.filter_congr fun id _ => by simp [shown_of_someShown h]
  · have hnil : ((fullOrder prefs spec).filter fun id => id ∉ prefs.hidden) = [] := by
      refine List.filter_eq_nil_iff.mpr ?_
      intro id hid
      have hdeclared : id ∈ spec.columns := ((mergeOrder_placed _ _).2 id).mp hid
      simpa using not_not.mp fun hnot => h ⟨id, hdeclared, hnot⟩
    simp only [resolveColumns, hnil, List.length_nil, if_true]
    exact (List.filter_eq_nil_iff.mpr fun id _ => by simp [shown_of_not_someShown h]).symm

/-- A move in the full order, as the user sees it. -/
theorem movesVisible_of_movedShown {order : List String}
    (h : MovedShown (shown prefs spec) (fullOrder prefs spec) order i j) :
    MovesVisible prefs { prefs with order } spec i j := by
  have horder : fullOrder { prefs with order } spec = order :=
    mergeOrder_of_complete (h.perm.nodup_iff.mpr fullOrder_nodup) fun id =>
      h.perm.mem_iff.trans ((mergeOrder_placed _ _).2 id)
  have hshown : shown { prefs with order } spec = shown prefs spec := rfl
  refine ⟨?_, ?_, rfl⟩
  · rw [visible_eq, visible_eq, horder, hshown, h.shown]
  · rw [hidden_eq, hidden_eq, horder, hshown, h.others]

/-- **A move to the place of another visible column.** -/
theorem movesVisible (hi : i < (resolveColumns prefs spec).visible.length)
    (hj : j < (resolveColumns prefs spec).visible.length) :
    MovesVisible prefs (moveVisibleIndex prefs i j spec) spec i j := by
  by_cases hne : i = j
  · subst hne
    have hsame : moveVisibleIndex prefs i i spec = prefs := by simp [moveVisibleIndex]
    rw [hsame]
    exact ⟨(moved_self _ i).symm, rfl, rfl⟩
  · obtain ⟨c, hc⟩ : ∃ c, (resolveColumns prefs spec).visible[i]? = some c :=
      ⟨_, List.getElem?_eq_getElem hi⟩
    obtain ⟨targetId, htarget⟩ : ∃ id, (resolveColumns prefs spec).visible[j]? = some id :=
      ⟨_, List.getElem?_eq_getElem hj⟩
    have hmove : moveVisibleIndex prefs i j spec =
        { prefs with order := movedOrder (fullOrder prefs spec) c targetId i j } := by
      simp only [moveVisibleIndex, at?_natCast, hc, htarget]
      rw [if_neg (by omega)]
      rfl
    rw [visible_eq] at hc htarget
    rw [hmove]
    exact movesVisible_of_movedShown (movedShown_movedOrder fullOrder_nodup hne hc htarget)

/-- **One step is a move to the next visible column.** -/
theorem moveVisible_eq_moveVisibleIndex (hc : (resolveColumns prefs spec).visible[i]? = some c)
    (direction : Int) :
    moveVisible prefs c direction spec = moveVisibleIndex prefs i (i + direction) spec := by
  simp only [moveVisible, indexOf_of_getElem? visible_nodup hc]
  rw [if_neg (by omega)]

/-- A drop is a move to the slot. -/
theorem finishDrag_eq (prefs : ColumnPrefs) (i : Nat) (slot : Int) :
    finishDrag prefs i slot spec = moveVisibleIndex prefs i (slotToIndex i slot) spec := by
  by_cases hsame : slotToIndex i slot = i
  · simp [finishDrag, hsame, moveVisibleIndex]
  · simp [finishDrag, hsame]

/-- **A drop on a slot.** -/
theorem finishDrag_slot {s : Nat} (hc : (resolveColumns prefs spec).visible[i]? = some c)
    (hs : s ≤ (resolveColumns prefs spec).visible.length) :
    (s = i ∨ s = i + 1 → finishDrag prefs i s spec = prefs) ∧
      (s ≠ i → s ≠ i + 1 → ∃ before after,
        (resolveColumns (finishDrag prefs i s spec) spec).visible = before ++ c :: after ∧
          after.head? = (resolveColumns prefs spec).visible[s]?) := by
  have hi := (List.getElem?_eq_some_iff.mp hc).1
  constructor
  · intro hnear
    have hsame : slotToIndex i s = i := indexOfSlot_near hnear
    simp [finishDrag, hsame]
  · intro hbefore hafter
    have hindex : slotToIndex i s = ((if i < s then s - 1 else s : Nat) : Int) := indexOfSlot_eq i s
    rw [finishDrag_eq, hindex, (movesVisible hi (by split <;> omega)).visible]
    exact moved_slot hc hs hbefore hafter

end

end Columns

/-! ## 6. What the user sees -/

/-- **Reordering is what the user sees.**  A visible item that is moved to another place is taken
out of the visible ones and put back there, and what is hidden stays as it is; a step is a move to
the next place; and a drop puts the item before the one at the slot, or changes nothing on either
side of the item itself. -/
theorem reorders_as_seen :
    (∀ (pages : List Nav.NavPage) (prefs : Nav.NavPrefs), (pages.map Nav.NavPage.id).Nodup →
      let visible := (Nav.resolveNav prefs pages).visible
      (∀ i j : Nat, i < visible.length → j < visible.length →
        Nav.MovesVisible prefs (Nav.moveVisibleIndex prefs i j pages) pages i j) ∧
      (∀ (i : Nat) (page : Nav.NavPage), visible[i]? = some page →
        Nav.fullOrder (Nav.moveUp prefs page.id pages) pages =
            Nav.fullOrder (Nav.moveVisibleIndex prefs i (i - 1) pages) pages ∧
          Nav.fullOrder (Nav.moveDown prefs page.id pages) pages =
            Nav.fullOrder (Nav.moveVisibleIndex prefs i (i + 1) pages) pages) ∧
      ∀ (i s : Nat) (page : Nav.NavPage), visible[i]? = some page → s ≤ visible.length →
        let prefs' := Nav.moveVisibleIndex prefs i (Nav.slotToIndex i s) pages
        Nav.finishDrag prefs i s pages = prefs' ∧
          (s = i ∨ s = i + 1 → prefs' = prefs) ∧
          (s ≠ i → s ≠ i + 1 → ∃ before after,
            (Nav.resolveNav prefs' pages).visible = before ++ page :: after ∧
              after.head? = visible[s]?)) ∧
    ∀ (spec : Columns.TableSpec) (prefs : Columns.ColumnPrefs), spec.columns.Nodup →
      let visible := (Columns.resolveColumns prefs spec).visible
      (∀ i j : Nat, i < visible.length → j < visible.length →
        Columns.MovesVisible prefs (Columns.moveVisibleIndex prefs i j spec) spec i j) ∧
      (∀ (i : Nat) (c : String), visible[i]? = some c →
        Columns.fullOrder (Columns.moveVisible prefs c (-1) spec) spec =
            Columns.fullOrder (Columns.moveVisibleIndex prefs i (i - 1) spec) spec ∧
          Columns.fullOrder (Columns.moveVisible prefs c 1 spec) spec =
            Columns.fullOrder (Columns.moveVisibleIndex prefs i (i + 1) spec) spec) ∧
      ∀ (i s : Nat) (c : String), visible[i]? = some c → s ≤ visible.length →
        let prefs' := Columns.moveVisibleIndex prefs i (Columns.slotToIndex i s) spec
        Columns.finishDrag prefs i s spec = prefs' ∧
          (s = i ∨ s = i + 1 → prefs' = prefs) ∧
          (s ≠ i → s ≠ i + 1 → ∃ before after,
            (Columns.resolveColumns prefs' spec).visible = before ++ c :: after ∧
              after.head? = visible[s]?) := by
  constructor
  · intro pages prefs hdistinct
    refine ⟨fun i j hi hj => Nav.movesVisible hdistinct hi hj, fun i page hpage => ⟨?_, ?_⟩,
      fun i s page hpage hs => ?_⟩
    · rw [Nav.moveUp, Nav.moveVisible_eq_moveVisibleIndex hdistinct hpage (.inl rfl)]
      rfl
    · rw [Nav.moveDown, Nav.moveVisible_eq_moveVisibleIndex hdistinct hpage (.inr rfl)]
    · have hdrag : Nav.finishDrag prefs i s pages =
          Nav.moveVisibleIndex prefs i (Nav.slotToIndex i s) pages := Nav.finishDrag_eq prefs i s
      exact ⟨hdrag, hdrag ▸ Nav.finishDrag_slot hdistinct hpage hs⟩
  · intro spec prefs _
    refine ⟨fun i j hi hj => Columns.movesVisible hi hj, fun i c hc => ⟨?_, ?_⟩,
      fun i s c hc hs => ?_⟩
    · rw [Columns.moveVisible_eq_moveVisibleIndex hc]
      rfl
    · rw [Columns.moveVisible_eq_moveVisibleIndex hc]
    · have hdrag : Columns.finishDrag prefs i s spec =
          Columns.moveVisibleIndex prefs i (Columns.slotToIndex i s) spec :=
        Columns.finishDrag_eq prefs i s
      exact ⟨hdrag, hdrag ▸ Columns.finishDrag_slot hc hs⟩

/-- Two visible pages with a hidden one between them, and two columns in their own order. -/
theorem reorders_as_seen_hidden :
    (let pages : List Nav.NavPage := [⟨"status", true⟩, ⟨"mission", false⟩, ⟨"lso", false⟩]
      let prefs : Nav.NavPrefs := { order := [], hidden := ["mission"] }
      Nav.MovesVisible prefs (Nav.moveVisibleIndex prefs 0 1 pages) pages 0 1 ∧
        Nav.fullOrder (Nav.moveDown prefs "status" pages) pages =
          Nav.fullOrder (Nav.moveVisibleIndex prefs 0 (0 + 1) pages) pages ∧
        ∃ before after, (Nav.resolveNav (Nav.moveVisibleIndex prefs 0 (Nav.slotToIndex 0 2) pages)
          pages).visible = before ++ ⟨"status", true⟩ :: after ∧ after.head? = none) ∧
    (let spec : Columns.TableSpec := { columns := ["status", "grade"], defaultHidden := [] }
      let prefs := Columns.defaultColumnPrefs spec
      Columns.MovesVisible prefs (Columns.moveVisibleIndex prefs 1 0 spec) spec 1 0) :=
  let panel := reorders_as_seen.1 [⟨"status", true⟩, ⟨"mission", false⟩, ⟨"lso", false⟩]
    { order := [], hidden := ["mission"] } (by decide)
  ⟨⟨panel.1 0 1 (by decide) (by decide), (panel.2.1 0 ⟨"status", true⟩ (by decide)).2,
      (panel.2.2 0 2 ⟨"status", true⟩ (by decide) (by decide)).2.2 (by decide) (by decide)⟩,
    (reorders_as_seen.2 ⟨["status", "grade"], []⟩ _ (by decide)).1 1 0 (by decide) (by decide)⟩

end DcsDashboard.Preferences
