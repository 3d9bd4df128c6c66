/-
# A traversal with an explicit stack and a depth limit

`walk visit limit stack out` takes the top of the stack, visits it unless it is too deep, adds what
was found to `out` and puts what is to be visited next on the stack.  A node that cannot be visited
is passed over.

The loop does what a recursion with the remaining depth does (`walk_eq`), so that what it finds is
what a chain of visits reaches (`mem_preorder`), and nothing twice where the nodes divide up what
can be found (`nodup_preorder`).
-/
import Mathlib.Algebra.Ring.Nat
import Mathlib.Data.List.Nodup

namespace DcsDashboard.Lib

variable {ν ι : Type*}

/-! ## 1. The loop -/

/-- What visiting a node gives. -/
structure Visit (ν ι : Type*) where
  found : List ι
  next : List ν

variable (visit : ν → Option (Visit ν ι))

/-- How many nodes are taken from the stack for a node, at most `depth` deep. -/
def visits : Nat → ν → Nat
  | 0, _ => 1
  | depth + 1, node => 1 + (visit node).elim 0 fun v => (v.next.map (visits depth)).sum

theorem visits_pos (depth : Nat) (node : ν) : 0 < visits visit depth node := by
  cases depth with
  | zero => simp [visits]
  | succ depth => rw [visits]; omega

/-- How many nodes are taken from a stack. -/
def stackVisits (limit : Nat) (stack : List (ν × Nat)) : Nat :=
  (stack.map fun e => visits visit (limit + 1 - e.2) e.1).sum

theorem stackVisits_cons (limit : Nat) (e : ν × Nat) (stack : List (ν × Nat)) :
    stackVisits visit limit (e :: stack) =
      visits visit (limit + 1 - e.2) e.1 + stackVisits visit limit stack := by
  simp [stackVisits]

/-- The nodes to visit next, the last one on top. -/
def pushed (v : Visit ν ι) (depth : Nat) : List (ν × Nat) :=
  v.next.reverse.map fun node => (node, depth + 1)

theorem stackVisits_pushed {limit depth : Nat} (h : depth ≤ limit) (v : Visit ν ι)
    (stack : List (ν × Nat)) :
    stackVisits visit limit (pushed v depth ++ stack) =
      (v.next.map (visits visit (limit - depth))).sum + stackVisits visit limit stack := by
  have hdepth : limit + 1 - (depth + 1) = limit - depth := by omega
  simp [stackVisits, pushed, Function.comp_def, hdepth, List.sum_reverse]

/-- The loop; the head of the list is the top of the stack. -/
def walk (limit : Nat) : List (ν × Nat) → List ι → List ι
  | [], out => out
  | (node, depth) :: stack, out =>
    if _ : limit < depth then walk limit stack out
    else
      match _ : visit node with
      | none => walk limit stack out
      | some v => walk limit (pushed v depth ++ stack) (out ++ v.found)
termination_by stack => stackVisits visit limit stack
decreasing_by
  · rw [stackVisits_cons]
    have := visits_pos visit (limit + 1 - depth) node
    simp only
    omega
  · rw [stackVisits_cons]
    have := visits_pos visit (limit + 1 - depth) node
    simp only
    omega
  · have hdepth : limit + 1 - depth = (limit - depth) + 1 := by omega
    rw [stackVisits_pushed visit (by omega), stackVisits_cons]
    simp only [hdepth, visits, ‹visit node = some v›, Option.elim]
    omega

/-! ## 2. The recursion -/

/-- What is found from a node, at most `depth` deep. -/
def preorder : Nat → ν → List ι
  | 0, _ => []
  | depth + 1, node =>
    (visit node).elim [] fun v => v.found ++ v.next.reverse.flatMap (preorder depth)

/-- What is found from a stack. -/
def foundFrom (limit : Nat) (stack : List (ν × Nat)) : List ι :=
  stack.flatMap fun e => preorder visit (limit + 1 - e.2) e.1

theorem foundFrom_pushed {limit depth : Nat} (h : depth ≤ limit) (v : Visit ν ι)
    (stack : List (ν × Nat)) :
    foundFrom visit limit (pushed v depth ++ stack) =
      v.next.reverse.flatMap (preorder visit (limit - depth)) ++ foundFrom visit limit stack := by
  have hdepth : limit + 1 - (depth + 1) = limit - depth := by omega
  simp only [foundFrom, List.flatMap_append, pushed, List.flatMap_map, hdepth]

/-- **The loop is the recursion.** -/
theorem walk_eq (limit : Nat) (stack : List (ν × Nat)) (out : List ι) :
    walk visit limit stack out = out ++ foundFrom visit limit stack := by
  induction stack, out using walk.induct visit limit with
  | case1 out => simp [walk, foundFrom]
  | case2 node depth stack out h ih =>
    have hdepth : limit + 1 - depth = 0 := by omega
    rw [walk.eq_def]
    simp [h, ih, foundFrom, hdepth, preorder]
  | case3 node depth stack out h hv ih =>
    have hdepth : limit + 1 - depth = (limit - depth) + 1 := by omega
    rw [walk.eq_def]
    simp only [h, dite_false]
    split
    · simp [ih, foundFrom, hdepth, preorder, hv]
    · simp_all
  | case4 node depth stack out h v hv ih =>
    have hdepth : limit + 1 - depth = (limit - depth) + 1 := by omega
    rw [walk.eq_def]
    simp only [h, dite_false]
    split
    · simp_all
    · rename_i v' hv'
      obtain rfl : v = v' := Option.some.inj (hv.symm.trans hv')
      rw [ih, foundFrom_pushed visit (by omega)]
      simp [foundFrom, hdepth, preorder, hv]

/-! ## 3. What is found -/

variable {visit}

/-- `Leads visit k node node'`: `node'` is visited `k` visits after `node`. -/
inductive Leads (visit : ν → Option (Visit ν ι)) : Nat → ν → ν → Prop
  | here (node : ν) : Leads visit 0 node node
  | step {k : Nat} {node next node' : ν} {v : Visit ν ι} :
      visit node = some v → next ∈ v.next → Leads visit k next node' →
        Leads visit (k + 1) node node'

/-- What is found is found in a node that is not too deep. -/
theorem mem_preorder {depth : Nat} {node : ν} {x : ι} :
    x ∈ preorder visit depth node ↔
      ∃ k < depth, ∃ node' v, Leads visit k node node' ∧ visit node' = some v ∧ x ∈ v.found := by
  induction depth generalizing node with
  | zero => simp [preorder]
  | succ depth ih =>
    constructor
    · intro hx
      rw [preorder] at hx
      cases hv : visit node with
      | none => simp [hv] at hx
      | some v =>
        simp only [hv, Option.elim, List.mem_append, List.mem_flatMap, List.mem_reverse] at hx
        rcases hx with hx | ⟨next, hnext, hx⟩
        · exact ⟨0, by omega, node, v, .here node, hv, hx⟩
        · obtain ⟨k, hk, node', v', hleads, hv', hx'⟩ := ih.mp hx
          exact ⟨k + 1, by omega, node', v', .step hv hnext hleads, hv', hx'⟩
    · rintro ⟨k, hk, node', v', hleads, hv', hx⟩
      rw [preorder]
      cases hleads with
      | here => simp [hv', hx]
      | step hv hnext hleads =>
        simp only [hv, Option.elim, List.mem_append, List.mem_flatMap, List.mem_reverse]
        exact .inr ⟨_, hnext, ih.mpr ⟨_, by omega, node', v', hleads, hv', hx⟩⟩

/-- The nodes divide up what can be found: `Under node x` holds of what is found from `node`, and
of two nodes that are visited next for none at once. -/
structure Divides (visit : ν → Option (Visit ν ι)) (Under : ν → ι → Prop) : Prop where
  found : ∀ {node v}, visit node = some v → v.found.Nodup
  under : ∀ {node v x}, visit node = some v → x ∈ v.found → Under node x
  up : ∀ {node v next x}, visit node = some v → next ∈ v.next → Under next x → Under node x
  apart : ∀ {node v}, visit node = some v →
    v.next.Pairwise fun a b => ∀ x, Under a x → ¬ Under b x
  below : ∀ {node v next x}, visit node = some v → next ∈ v.next → x ∈ v.found → ¬ Under next x

theorem Divides.under_preorder {Under : ν → ι → Prop} (h : Divides visit Under) {depth : Nat}
    {node : ν} {x : ι} (hx : x ∈ preorder visit depth node) : Under node x := by
  induction depth generalizing node with
  | zero => simp [preorder] at hx
  | succ depth ih =>
    rw [preorder] at hx
    cases hv : visit node with
    | none => simp [hv] at hx
    | some v =>
      simp only [hv, Option.elim, List.mem_append, List.mem_flatMap, List.mem_reverse] at hx
      rcases hx with hx | ⟨next, hnext, hx⟩
      · exact h.under hv hx
      · exact h.up hv hnext (ih hx)

/-- **Nothing is found twice.** -/
theorem Divides.nodup_preorder {Under : ν → ι → Prop} (h : Divides visit Under) (depth : Nat)
    (node : ν) : (preorder visit depth node).Nodup := by
  induction depth generalizing node with
  | zero => simp [preorder]
  | succ depth ih =>
    rw [preorder]
    cases hv : visit node with
    | none => simp
    | some v =>
      have hdisjoint : v.next.reverse.Pairwise fun a b =>
          (preorder visit depth a).Disjoint (preorder visit depth b) := by
        rw [List.pairwise_reverse]
        refine (h.apart hv).imp ?_
        intro a b hab x hxb hxa
        exact hab x (h.under_preorder hxa) (h.under_preorder hxb)
      simp only [Option.elim]
      refine List.nodup_append.mpr ⟨h.found hv, ?_, ?_⟩
      · exact List.nodup_flatMap.mpr ⟨fun next _ => ih next, hdisjoint⟩
      · rintro x hx _ hx' rfl
        obtain ⟨next, hnext, hx''⟩ := List.mem_flatMap.mp hx'
        exact h.below hv (List.mem_reverse.mp hnext) hx (h.under_preorder hx'')

end DcsDashboard.Lib
