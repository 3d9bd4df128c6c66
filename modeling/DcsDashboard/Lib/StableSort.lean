/-
# Sorting with a comparison function

`Array.prototype.sort` takes a function whose sign says how two items compare.  Where it is
consistent (`IsComparison`) the result is determined; with the position of an item as the last
criterion it is the stable sort (`sortStable`), whatever the algorithm.

A sorted list falls into groups of items that compare equal (`exists_groups`).  Sorting the other
way round reverses the groups, and not the items in them (`sortStable_reverse`).
-/
import Mathlib.Data.List.Sort
import Mathlib.Algebra.Order.Ring.Rat
import Mathlib.Data.Nat.Cast.Order.Ring

namespace DcsDashboard.Lib

variable {α : Type*}

/-! ## 1. Comparison functions -/

/-- A comparison function that is a total preorder. -/
structure IsComparison (cmp : α → α → ℚ) : Prop where
  swap : ∀ a b, cmp a b < 0 ↔ 0 < cmp b a
  trans : ∀ a b c, cmp a b ≤ 0 → cmp b c ≤ 0 → cmp a c ≤ 0

namespace IsComparison

variable {cmp : α → α → ℚ} (h : IsComparison cmp) {a b c : α}

include h

theorem le_iff : cmp a b ≤ 0 ↔ 0 ≤ cmp b a := by
  have hswap := h.swap b a
  constructor
  · intro hab
    exact not_lt.mp fun hba => absurd (hswap.mp hba) (not_lt.mpr hab)
  · intro hba
    exact not_lt.mp fun hab => absurd (hswap.mpr hab) (not_lt.mpr hba)

theorem total (a b : α) : cmp a b ≤ 0 ∨ cmp b a ≤ 0 := by
  rcases le_or_gt (cmp a b) 0 with hab | hab
  · exact .inl hab
  · exact .inr ((h.swap b a).mpr hab).le

theorem self (a : α) : cmp a a = 0 := by
  rcases h.total a a with haa | haa <;> exact le_antisymm haa (h.le_iff.mp haa)

theorem eq_comm : cmp a b = 0 ↔ cmp b a = 0 := by
  constructor
  · intro hab
    exact le_antisymm (h.le_iff.mpr hab.ge) (h.le_iff.mp hab.le)
  · intro hba
    exact le_antisymm (h.le_iff.mpr hba.ge) (h.le_iff.mp hba.le)

theorem eq_trans (hab : cmp a b = 0) (hbc : cmp b c = 0) : cmp a c = 0 :=
  le_antisymm (h.trans a b c hab.le hbc.le)
    (h.le_iff.mp (h.trans c b a (h.eq_comm.mp hbc).le (h.eq_comm.mp hab).le))

theorem lt_of_le_of_lt (hab : cmp a b ≤ 0) (hbc : cmp b c < 0) : cmp a c < 0 := by
  refine (h.trans a b c hab hbc.le).lt_of_ne ?_
  intro hac
  have hcb : cmp c b ≤ 0 := h.trans c a b (h.eq_comm.mp hac).le hab
  exact absurd ((h.swap b c).mp hbc) (not_lt.mpr hcb)

theorem lt_of_lt_of_le (hab : cmp a b < 0) (hbc : cmp b c ≤ 0) : cmp a c < 0 := by
  refine (h.trans a b c hab.le hbc).lt_of_ne ?_
  intro hac
  have hba : cmp b a ≤ 0 := h.trans b c a hbc (h.eq_comm.mp hac).le
  exact absurd ((h.swap a b).mp hab) (not_lt.mpr hba)

/-- The comparison turned round. -/
theorem neg : IsComparison fun a b => -cmp a b where
  swap a b := by
    rw [neg_neg_iff_pos, neg_pos]
    exact (h.swap b a).symm
  trans a b c hab hbc := by
    have hba : cmp b a ≤ 0 := h.le_iff.mpr (neg_nonpos.mp hab)
    have hcb : cmp c b ≤ 0 := h.le_iff.mpr (neg_nonpos.mp hbc)
    exact neg_nonpos.mpr (h.le_iff.mp (h.trans c b a hcb hba))

/-- Comparing by what items stand for. -/
theorem comap {β : Type*} (f : β → α) : IsComparison fun x y => cmp (f x) (f y) :=
  ⟨fun x y => h.swap (f x) (f y), fun x y z => h.trans (f x) (f y) (f z)⟩

end IsComparison

/-! ## 2. Sorting -/

/-- `Array.prototype.sort` with a consistent comparison function. -/
def sortBy (cmp : α → α → ℚ) (l : List α) : List α := l.mergeSort fun a b => decide (cmp a b ≤ 0)

/-- `x || y` of numbers. -/
def orElse (x y : ℚ) : ℚ := if x = 0 then y else x

/-- Items with the same place in the order keep their positions: the position is compared last. -/
def byPosition (cmp : α → α → ℚ) (a b : α × Nat) : ℚ :=
  orElse (cmp a.1 b.1) ((a.2 : ℚ) - b.2)

/-- The stable sort. -/
def sortStable (cmp : α → α → ℚ) (l : List α) : List α :=
  (sortBy (byPosition cmp) l.zipIdx).map Prod.fst

/-- One item with its position comes before another. -/
def Before (cmp : α → α → ℚ) (a b : α × Nat) : Prop :=
  cmp a.1 b.1 < 0 ∨ cmp a.1 b.1 = 0 ∧ a.2 < b.2

/-- The items with their positions in the order they are sorted in. -/
structure SortsTo (cmp : α → α → ℚ) (l : List α) (s : List (α × Nat)) : Prop where
  perm : s.Perm l.zipIdx
  sorted : s.Pairwise (Before cmp)

section
variable {cmp : α → α → ℚ} {l : List α} {s t : List (α × Nat)}

theorem byPosition_le_iff {a b : α × Nat} :
    byPosition cmp a b ≤ 0 ↔ cmp a.1 b.1 < 0 ∨ cmp a.1 b.1 = 0 ∧ a.2 ≤ b.2 := by
  unfold byPosition orElse
  by_cases hzero : cmp a.1 b.1 = 0
  · have hcast : ((a.2 : ℚ) ≤ b.2) ↔ a.2 ≤ b.2 := Nat.cast_le
    simp [hzero, hcast]
  · simp [hzero, lt_iff_le_and_ne]

/-- The positions make the order strict. -/
theorem byPosition_isComparison (h : IsComparison cmp) : IsComparison (byPosition cmp) where
  swap a b := by
    unfold byPosition orElse
    by_cases hzero : cmp a.1 b.1 = 0
    · simp [hzero, h.eq_comm.mp hzero]
    · have hzero' : cmp b.1 a.1 ≠ 0 := fun hba => hzero (h.eq_comm.mp hba)
      simpa [hzero, hzero'] using h.swap a.1 b.1
  trans a b c := by
    simp only [byPosition_le_iff]
    rintro (hab | ⟨hab, hpos⟩) (hbc | ⟨hbc, hpos'⟩)
    · exact .inl (h.lt_of_lt_of_le hab hbc.le)
    · exact .inl (h.lt_of_lt_of_le hab hbc.le)
    · exact .inl (h.lt_of_le_of_lt hab.le hbc)
    · exact .inr ⟨h.eq_trans hab hbc, hpos.trans hpos'⟩

theorem pairwise_zipIdx (l : List α) (k : Nat) : (l.zipIdx k).Pairwise fun a b => a.2 < b.2 := by
  have hindices : ((l.zipIdx k).map Prod.snd).Pairwise (· < ·) := by
    rw [List.zipIdx_map_snd]
    exact List.pairwise_lt_range'
  exact List.pairwise_map.mp hindices

/-- **The sort sorts.** -/
theorem sortsTo_sortBy (h : IsComparison cmp) (l : List α) :
    SortsTo cmp l (sortBy (byPosition cmp) l.zipIdx) := by
  have hcmp := byPosition_isComparison h
  have hperm : (sortBy (byPosition cmp) l.zipIdx).Perm l.zipIdx := List.mergeSort_perm _ _
  refine ⟨hperm, ?_⟩
  have hsorted : (sortBy (byPosition cmp) l.zipIdx).Pairwise fun a b => byPosition cmp a b ≤ 0 := by
    have hpairs := @List.pairwise_mergeSort _ (fun a b => decide (byPosition cmp a b ≤ 0))
      (fun a b c hab hbc => by simpa using hcmp.trans a b c (by simpa using hab) (by simpa using hbc))
      (fun a b => by simpa using hcmp.total a b) l.zipIdx
    simpa [sortBy] using hpairs
  have hdistinct : (sortBy (byPosition cmp) l.zipIdx).Pairwise fun a b => a.2 ≠ b.2 :=
    (hperm.pairwise_iff fun hne => hne.symm).mpr
      ((pairwise_zipIdx l 0).imp fun hlt => hlt.ne)
  refine (hsorted.and hdistinct).imp fun ⟨hle, hne⟩ => ?_
  exact (byPosition_le_iff.mp hle).imp_right fun hpos => ⟨hpos.1, lt_of_le_of_ne hpos.2 hne⟩

/-- **There is one sorted order.** -/
theorem SortsTo.unique (h : IsComparison cmp) (hs : SortsTo cmp l s) (ht : SortsTo cmp l t) :
    s = t := by
  refine (hs.perm.trans ht.perm.symm).eq_of_pairwise (fun a b _ _ hab hba => ?_) hs.sorted ht.sorted
  rcases hab with hab | ⟨hab, hpos⟩ <;> rcases hba with hba | ⟨hba, hpos'⟩
  · exact absurd ((h.swap a.1 b.1).mp hab) (not_lt.mpr hba.le)
  · exact absurd (h.eq_comm.mp hba) hab.ne
  · exact absurd (h.eq_comm.mp hab) hba.ne
  · exact absurd hpos (Nat.not_lt.mpr hpos'.le)

theorem SortsTo.eq_sortStable (h : IsComparison cmp) (hs : SortsTo cmp l s) :
    s.map Prod.fst = sortStable cmp l := by
  rw [hs.unique h (sortsTo_sortBy h l)]
  rfl

/-! ## 3. What sorting keeps -/

theorem sortStable_perm (cmp : α → α → ℚ) (l : List α) : (sortStable cmp l).Perm l := by
  have hperm : ((sortBy (byPosition cmp) l.zipIdx).map Prod.fst).Perm (l.zipIdx.map Prod.fst) :=
    (List.mergeSort_perm _ _).map _
  rwa [List.zipIdx_map_fst] at hperm

theorem sortStable_sorted (h : IsComparison cmp) (l : List α) :
    (sortStable cmp l).Pairwise fun a b => cmp a b ≤ 0 := by
  refine List.pairwise_map.mpr ((sortsTo_sortBy h l).sorted.imp fun hbefore => ?_)
  rcases hbefore with hlt | ⟨heq, -⟩
  · exact hlt.le
  · exact heq.le

theorem map_fst_filter (p : α → Bool) (s : List (α × Nat)) :
    (s.filter fun x => p x.1).map Prod.fst = (s.map Prod.fst).filter p := by
  rw [List.filter_map]
  rfl

/-- What compares equal is sorted by its positions. -/
theorem SortsTo.filter_eq (hs : SortsTo cmp l s) {p : α → Bool}
    (hp : ∀ a b, p a = true → p b = true → cmp a b = 0) :
    s.filter (fun x => p x.1) = l.zipIdx.filter fun x => p x.1 := by
  have hsorted : (s.filter fun x => p x.1).Pairwise fun x y => x.2 < y.2 := by
    refine List.Pairwise.imp_of_mem ?_ (hs.sorted.filter _)
    intro x y hx hy hbefore
    have hxy : cmp x.1 y.1 = 0 := hp _ _ (List.mem_filter.mp hx).2 (List.mem_filter.mp hy).2
    rcases hbefore with hlt | ⟨-, hpos⟩
    · exact absurd hxy hlt.ne
    · exact hpos
  exact (hs.perm.filter _).eq_of_pairwise
    (fun x y _ _ hxy hyx => absurd hxy (Nat.not_lt.mpr hyx.le)) hsorted
    ((pairwise_zipIdx l 0).filter _)

/-- **Items that compare equal keep their order.** -/
theorem sortStable_filter (h : IsComparison cmp) (l : List α) {p : α → Bool}
    (hp : ∀ a b, p a = true → p b = true → cmp a b = 0) :
    (sortStable cmp l).filter p = l.filter p := by
  have hmap := congrArg (List.map Prod.fst) ((sortsTo_sortBy h l).filter_eq hp)
  rwa [map_fst_filter, map_fst_filter, List.zipIdx_map_fst] at hmap

/-! ## 4. Groups -/

/-- Groups of items that compare equal, in increasing order. -/
structure Grouped (cmp : α → α → ℚ) (groups : List (List α)) : Prop where
  ne_nil : ∀ g ∈ groups, g ≠ []
  equal : ∀ g ∈ groups, ∀ a ∈ g, ∀ b ∈ g, cmp a b = 0
  increasing : groups.Pairwise fun g g' => ∀ a ∈ g, ∀ b ∈ g', cmp a b < 0

theorem Grouped.map {β : Type*} {f : β → α} {groups : List (List β)}
    (h : Grouped (fun x y => cmp (f x) (f y)) groups) : Grouped cmp (groups.map (List.map f)) := by
  refine ⟨?_, ?_, ?_⟩
  · intro g hg
    obtain ⟨g', hg', rfl⟩ := List.mem_map.mp hg
    simpa using h.ne_nil g' hg'
  · intro g hg a ha b hb
    obtain ⟨g', hg', rfl⟩ := List.mem_map.mp hg
    obtain ⟨x, hx, rfl⟩ := List.mem_map.mp ha
    obtain ⟨y, hy, rfl⟩ := List.mem_map.mp hb
    exact h.equal g' hg' x hx y hy
  · refine List.pairwise_map.mpr (h.increasing.imp fun hlt a ha b hb => ?_)
    obtain ⟨x, hx, rfl⟩ := List.mem_map.mp ha
    obtain ⟨y, hy, rfl⟩ := List.mem_map.mp hb
    exact hlt x hx y hy

/-- **A sorted list is made of groups.** -/
theorem exists_groups (h : IsComparison cmp) {l : List α}
    (hsorted : l.Pairwise fun a b => cmp a b ≤ 0) :
    ∃ groups, l = groups.flatten ∧ Grouped cmp groups := by
  induction l with
  | nil => exact ⟨[], rfl, by simp, by simp, .nil⟩
  | cons a l ih =>
    obtain ⟨hle, hrest⟩ := List.pairwise_cons.mp hsorted
    obtain ⟨groups, rfl, hgroups⟩ := ih hrest
    cases groups with
    | nil => exact ⟨[[a]], by simp, by simp, by simp [h.self a], by simp⟩
    | cons g groups =>
      obtain ⟨b, g, rfl⟩ := List.exists_cons_of_ne_nil (hgroups.ne_nil g (by simp))
      have hequal := hgroups.equal (b :: g) (by simp)
      obtain ⟨hfirst, hlater⟩ := List.pairwise_cons.mp hgroups.increasing
      have hab : cmp a b ≤ 0 := hle b (by simp)
      by_cases hzero : cmp a b = 0
      · -- the item joins the first group
        have hself : ∀ x ∈ b :: g, cmp a x = 0 := fun x hx =>
          h.eq_trans hzero (hequal b (by simp) x hx)
        refine ⟨(a :: b :: g) :: groups, by simp, ?_, ?_, ?_⟩
        · exact List.forall_mem_cons.mpr
            ⟨by simp, fun g' hg' => hgroups.ne_nil g' (List.mem_cons_of_mem _ hg')⟩
        · refine List.forall_mem_cons.mpr
            ⟨?_, fun g' hg' => hgroups.equal g' (List.mem_cons_of_mem _ hg')⟩
          intro x hx y hy
          have hself' : ∀ z ∈ a :: b :: g, cmp a z = 0 :=
            List.forall_mem_cons.mpr ⟨h.self a, hself⟩
          exact h.eq_trans (h.eq_comm.mp (hself' x hx)) (hself' y hy)
        · refine List.pairwise_cons.mpr ⟨fun g' hg' x hx y hy => ?_, hlater⟩
          rcases List.mem_cons.mp hx with rfl | hx
          · exact h.lt_of_le_of_lt hab (hfirst g' hg' b (by simp) y hy)
          · exact hfirst g' hg' x hx y hy
      · -- the item is a group of its own
        have hlt : cmp a b < 0 := lt_of_le_of_ne hab hzero
        refine ⟨[a] :: (b :: g) :: groups, by simp, ?_, ?_, ?_⟩
        · exact List.forall_mem_cons.mpr ⟨by simp, hgroups.ne_nil⟩
        · exact List.forall_mem_cons.mpr ⟨by simp [h.self a], hgroups.equal⟩
        · refine List.pairwise_cons.mpr ⟨?_, hgroups.increasing⟩
          intro g' hg' x hx y hy
          rw [List.mem_singleton.mp hx]
          rcases List.mem_cons.mp hg' with rfl | hg'
          · exact h.lt_of_lt_of_le hlt (hequal b (by simp) y hy).le
          · exact h.lt_of_lt_of_le hlt (hfirst g' hg' b (by simp) y hy).le

end

/-! ## 5. The other way round -/

/-- `cmp'` compares the other way round, except that some items are last for both. -/
structure Reverses (cmp cmp' : α → α → ℚ) (last : α → Bool) : Prop where
  last_last : ∀ a b, last a = true → last b = true → cmp a b = 0 ∧ cmp' a b = 0
  before_last : ∀ a b, last a = false → last b = true → cmp a b < 0 ∧ cmp' a b < 0
  reversed : ∀ a b, last a = false → last b = false → cmp' a b = -cmp a b

section
variable {cmp cmp' : α → α → ℚ} {last : α → Bool} {l : List α} {s : List (α × Nat)}

/-- A list in which some items come after all others. -/
theorem eq_filter_append {β : Type*} {p : β → Bool} {s : List β}
    (h : s.Pairwise fun x y => p x = true → p y = true) :
    s = s.filter (fun x => !p x) ++ s.filter p := by
  induction s with
  | nil => rfl
  | cons x s ih =>
    obtain ⟨hx, hs⟩ := List.pairwise_cons.mp h
    cases hp : p x with
    | false =>
      rw [List.filter_cons_of_pos (by simp [hp]), List.filter_cons_of_neg (by simp [hp]),
        List.cons_append, ← ih hs]
    | true =>
      have hall : ∀ y ∈ s, p y = true := fun y hy => hx y hy hp
      have hnone : s.filter (fun y => !p y) = [] :=
        List.filter_eq_nil_iff.mpr fun y hy => by simp [hall y hy]
      rw [List.filter_cons_of_neg (by simp [hp]), hnone, List.nil_append,
        List.filter_eq_self.mpr (List.forall_mem_cons.mpr ⟨hp, hall⟩)]

/-- The groups of what is not last, the other way round. -/
theorem SortsTo.reverse (h : IsComparison cmp) (hrev : Reverses cmp cmp' last) (hs : SortsTo cmp l s)
    {groups : List (List (α × Nat))} {lasts : List (α × Nat)} (hsplit : s = groups.flatten ++ lasts)
    (hgroups : Grouped (fun x y => cmp x.1 y.1) groups)
    (hfirst : ∀ x ∈ groups.flatten, last x.1 = false) (hlast : ∀ x ∈ lasts, last x.1 = true) :
    SortsTo cmp' l (groups.reverse.flatten ++ lasts) := by
  have hperm : (groups.reverse.flatten ++ lasts).Perm s := by
    rw [hsplit]
    exact (List.Perm.flatten (List.reverse_perm groups)).append_right lasts
  have hsorted := hs.sorted
  rw [hsplit, List.pairwise_append, List.pairwise_flatten] at hsorted
  obtain ⟨⟨hinside, -⟩, hlasts, -⟩ := hsorted
  have hnot : ∀ g ∈ groups, ∀ x ∈ g, last x.1 = false := fun g hg x hx =>
    hfirst x (List.mem_flatten.mpr ⟨g, hg, hx⟩)
  refine ⟨hperm.trans hs.perm, List.pairwise_append.mpr ⟨List.pairwise_flatten.mpr ⟨?_, ?_⟩, ?_, ?_⟩⟩
  · -- in a group the positions decide, as before
    intro g hg
    have hg' : g ∈ groups := List.mem_reverse.mp hg
    refine List.Pairwise.imp_of_mem ?_ (hinside g hg')
    intro x y hx hy hbefore
    have hxy : cmp x.1 y.1 = 0 := hgroups.equal g hg' x hx y hy
    rcases hbefore with hlt | ⟨-, hpos⟩
    · exact absurd hxy hlt.ne
    · exact .inr ⟨by rw [hrev.reversed _ _ (hnot g hg' x hx) (hnot g hg' y hy), hxy, neg_zero], hpos⟩
  · -- between groups the comparison is turned round, and so is their order
    refine List.pairwise_reverse.mpr (List.Pairwise.imp_of_mem ?_ hgroups.increasing)
    intro g g' hg hg' hlt y hy x hx
    have hyx : 0 < cmp y.1 x.1 := (h.swap x.1 y.1).mp (hlt x hx y hy)
    refine .inl ?_
    rw [hrev.reversed _ _ (hnot g' hg' y hy) (hnot g hg x hx)]
    exact neg_neg_of_pos hyx
  · refine List.Pairwise.imp_of_mem ?_ hlasts
    intro x y hx hy hbefore
    obtain ⟨hxy, hxy'⟩ := hrev.last_last x.1 y.1 (hlast x hx) (hlast y hy)
    rcases hbefore with hlt | ⟨-, hpos⟩
    · exact absurd hxy hlt.ne
    · exact .inr ⟨hxy', hpos⟩
  · intro x hx y hy
    obtain ⟨g, hg, hxg⟩ := List.mem_flatten.mp hx
    exact .inl (hrev.before_last x.1 y.1 (hnot g (List.mem_reverse.mp hg) x hxg) (hlast y hy)).2

/-- **Sorting the other way round** turns the groups round, and nothing else. -/
theorem sortStable_reverse (h : IsComparison cmp) (h' : IsComparison cmp')
    (hrev : Reverses cmp cmp' last) (l : List α) :
    ∃ groups, Grouped cmp groups ∧ (∀ g ∈ groups, ∀ a ∈ g, last a = false) ∧
      sortStable cmp l = groups.flatten ++ l.filter last ∧
      sortStable cmp' l = groups.reverse.flatten ++ l.filter last := by
  have hs := sortsTo_sortBy h l
  generalize sortBy (byPosition cmp) l.zipIdx = s at hs
  -- the last items come last
  have hsplit : s = s.filter (fun x => !last x.1) ++ s.filter fun x => last x.1 := by
    refine eq_filter_append (hs.sorted.imp fun {x y} hbefore hx => ?_)
    by_contra hy
    have hyx : cmp y.1 x.1 < 0 := (hrev.before_last y.1 x.1 (by simpa using hy) hx).1
    rcases hbefore with hlt | ⟨heq, -⟩
    · exact absurd ((h.swap y.1 x.1).mp hyx) (not_lt.mpr hlt.le)
    · exact absurd (h.eq_comm.mp heq) hyx.ne
  have hfirst : (s.filter fun x => !last x.1).Pairwise fun x y => cmp x.1 y.1 ≤ 0 :=
    (hs.sorted.filter _).imp fun hbefore => hbefore.elim le_of_lt fun heq => heq.1.le
  obtain ⟨groups, hflatten, hgroups⟩ := exists_groups (h.comap Prod.fst) hfirst
  have hnot : ∀ x ∈ groups.flatten, last x.1 = false := fun x hx => by
    rw [← hflatten] at hx
    simpa using (List.mem_filter.mp hx).2
  have hlasts : (s.filter fun x => last x.1).map Prod.fst = l.filter last := by
    rw [hs.filter_eq fun a b ha hb => (hrev.last_last a b ha hb).1, map_fst_filter,
      List.zipIdx_map_fst]
  rw [hflatten] at hsplit
  have hreverse := hs.reverse h hrev hsplit hgroups hnot fun x hx => (List.mem_filter.mp hx).2
  refine ⟨groups.map (List.map Prod.fst), hgroups.map, ?_, ?_, ?_⟩
  · intro g hg a ha
    obtain ⟨g', hg', rfl⟩ := List.mem_map.mp hg
    obtain ⟨x, hx, rfl⟩ := List.mem_map.mp ha
    exact hnot x (List.mem_flatten.mpr ⟨g', hg', hx⟩)
  · rw [← hs.eq_sortStable h]
    conv_lhs => rw [hsplit]
    rw [List.map_append, hlasts, List.map_flatten]
  · rw [← hreverse.eq_sortStable h', List.map_append, hlasts, List.map_flatten, List.map_reverse]

end

end DcsDashboard.Lib
