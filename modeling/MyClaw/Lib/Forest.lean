import MyClaw.Lib.Fuel
import Mathlib.Data.List.Nodup
import Mathlib.Data.List.Perm.Subperm
import Mathlib.Logic.Relation

set_option autoImplicit false

/-!
# Forests of nodes that name their parents

A list of nodes, each with its key and the key of its parent if it has one, and the walk from a node
down to its descendants that keeps a stack of the nodes whose children it has still to look at.  The
walk does not remember where it has been: that it ends, and finds each descendant once, is due to
the shape of the list.

## Main definitions

* `Forest.Child` — the relation of parent and child.
* `Forest.IsForest` — keys are distinct, parents are in the list, and no node descends from itself.
* `Forest.walk` — the walk with a stack, on fuel.

## Main results

* `Forest.returns_walk` — the walk ends with the node and its descendants, each once, if keys are
  distinct and the node does not descend from itself.
* `Forest.IsForest.append`, `Forest.IsForest.filter` — new leaves keep a forest, and so does the
  removal of nodes with all their descendants. -/

namespace Forest

open Relation

variable {κ : Type*} {nodes : List (κ × Option κ)} {k p x y : κ} {result stack : List κ}

/-- `y` is a child of `x`. -/
def Child (nodes : List (κ × Option κ)) (x y : κ) : Prop := (y, some x) ∈ nodes

/-- The keys of the nodes. -/
def keys (nodes : List (κ × Option κ)) : List κ := nodes.map Prod.fst

/-- Keys are distinct, parents are nodes, and no node descends from itself. -/
structure IsForest (nodes : List (κ × Option κ)) : Prop where
  nodup : (keys nodes).Nodup
  parent_mem : ∀ x ∈ nodes, ∀ p ∈ x.2, p ∈ keys nodes
  acyclic : ∀ k, ¬ TransGen (Child nodes) k k

lemma Child.mem_keys (h : Child nodes x y) : y ∈ keys nodes := List.mem_map_of_mem h

/-- With distinct keys, a node has one parent. -/
lemma Child.unique (hnodup : (keys nodes).Nodup) (h : Child nodes x y) (h' : Child nodes p y) :
    x = p := by
  have heq := List.inj_on_of_nodup_map hnodup h h' rfl
  exact Option.some.inj (Prod.mk.inj heq).2

/-! ## What the walk keeps -/

/-- What the walk from `k` has found, and the nodes on its stack, whose children it has not looked
at. -/
structure WalkInv (nodes : List (κ × Option κ)) (k : κ) (result stack : List κ) : Prop where
  nodup : result.Nodup
  stack_nodup : stack.Nodup
  stack_subset : stack ⊆ result
  root : k ∈ result
  reached : ∀ x ∈ result, ReflTransGen (Child nodes) k x
  /-- What is found is the root or a child of a node that has left the stack. -/
  found : ∀ x ∈ result, x = k ∨ ∃ y ∈ result, y ∉ stack ∧ Child nodes y x
  /-- The children of the nodes that have left the stack are found. -/
  closed : ∀ y ∈ result, y ∉ stack → ∀ x, Child nodes y x → x ∈ result

lemma WalkInv.start (nodes : List (κ × Option κ)) (k : κ) : WalkInv nodes k [k] [k] where
  nodup := List.nodup_singleton k
  stack_nodup := List.nodup_singleton k
  stack_subset := List.Subset.refl _
  root := List.mem_singleton_self k
  reached _ hx := List.mem_singleton.1 hx ▸ .refl
  found _ hx := .inl (List.mem_singleton.1 hx)
  closed _ hy hnot := absurd hy hnot

/-- The children of the node on top of the stack are new. -/
lemma WalkInv.child_notMem (h : WalkInv nodes k result (x :: stack)) (hnodup : (keys nodes).Nodup)
    (hacyclic : ¬ TransGen (Child nodes) k k) (hchild : Child nodes x y) : y ∉ result := by
  intro hy
  rcases h.found y hy with rfl | ⟨z, -, hz, hzy⟩
  · have hx := h.reached x (h.stack_subset List.mem_cons_self)
    exact hacyclic (TransGen.tail' hx hchild)
  · exact hz (hchild.unique hnodup hzy ▸ List.mem_cons_self)

/-- What is found is in the list, the root apart. -/
lemma WalkInv.length_le (h : WalkInv nodes k result stack) : result.length ≤ nodes.length + 1 := by
  have hsubset : result ⊆ k :: keys nodes := by
    intro x hx
    rcases h.found x hx with rfl | ⟨y, -, -, hchild⟩
    · exact List.mem_cons_self
    · exact List.mem_cons_of_mem k hchild.mem_keys
  have hle := (h.nodup.subperm hsubset).length_le
  rwa [List.length_cons, keys, List.length_map] at hle

/-- At its end, the walk has found the root and its descendants. -/
lemma WalkInv.mem_iff (h : WalkInv nodes k result []) :
    x ∈ result ↔ ReflTransGen (Child nodes) k x := by
  refine ⟨h.reached x, fun hreach => ?_⟩
  induction hreach with
  | refl => exact h.root
  | tail _ hchild ih => exact h.closed _ ih List.not_mem_nil _ hchild

/-! ## The walk -/

section Walk

variable [DecidableEq κ]

/-- The children of a node, in the order of the list. -/
def children (nodes : List (κ × Option κ)) (x : κ) : List κ :=
  (nodes.filter (·.2 = some x)).map Prod.fst

/-- The loop of the walk: the children of the node on top of the stack are found, and put on the
stack. -/
def walk (nodes : List (κ × Option κ)) : ℕ → List κ → List κ → Option (List κ)
  | 0, _, _ => none
  | _ + 1, result, [] => some result
  | fuel + 1, result, x :: stack =>
    walk nodes fuel (result ++ children nodes x) ((children nodes x).reverse ++ stack)

lemma mem_children : y ∈ children nodes x ↔ Child nodes x y := by
  simp only [children, List.mem_map, List.mem_filter, decide_eq_true_eq, Child]
  constructor
  · rintro ⟨⟨z, q⟩, ⟨hmem, hq⟩, hz⟩
    subst hq hz
    exact hmem
  · exact fun h => ⟨(y, some x), ⟨h, rfl⟩, rfl⟩

lemma nodup_children (hnodup : (keys nodes).Nodup) : (children nodes x).Nodup :=
  hnodup.sublist (List.filter_sublist.map _)

/-- One turn of the walk. -/
lemma WalkInv.step (h : WalkInv nodes k result (x :: stack)) (hnodup : (keys nodes).Nodup)
    (hacyclic : ¬ TransGen (Child nodes) k k) :
    WalkInv nodes k (result ++ children nodes x) ((children nodes x).reverse ++ stack) := by
  have hx := h.stack_subset List.mem_cons_self
  obtain ⟨hxstack, hstack⟩ := List.nodup_cons.1 h.stack_nodup
  have hsubset : stack ⊆ result := fun y hy => h.stack_subset (List.mem_cons_of_mem x hy)
  have hnew : ∀ y ∈ children nodes x, y ∉ result := fun y hy =>
    h.child_notMem hnodup hacyclic (mem_children.1 hy)
  have hxnew : x ∉ children nodes x := fun hmem => hnew x hmem hx
  refine ⟨?_, ?_, ?_, List.mem_append_left _ h.root, ?_, ?_, ?_⟩
  · exact List.nodup_append'.2
      ⟨h.nodup, nodup_children hnodup, fun y hy hchild => hnew y hchild hy⟩
  · refine List.nodup_append'.2 ⟨List.nodup_reverse.2 (nodup_children hnodup), hstack, ?_⟩
    exact fun y hchild hy => hnew y (List.mem_reverse.1 hchild) (hsubset hy)
  · intro y hy
    rcases List.mem_append.1 hy with hchild | hy
    · exact List.mem_append_right _ (List.mem_reverse.1 hchild)
    · exact List.mem_append_left _ (hsubset hy)
  · intro y hy
    rcases List.mem_append.1 hy with hy | hchild
    · exact h.reached y hy
    · exact (h.reached x hx).tail (mem_children.1 hchild)
  · intro y hy
    rcases List.mem_append.1 hy with hy | hchild
    · rcases h.found y hy with rfl | ⟨z, hzmem, hz, hzy⟩
      · exact .inl rfl
      · refine .inr ⟨z, List.mem_append_left _ hzmem, fun hmem => ?_, hzy⟩
        rcases List.mem_append.1 hmem with hzchild | hzstack
        · exact hnew z (List.mem_reverse.1 hzchild) hzmem
        · exact hz (List.mem_cons_of_mem x hzstack)
    · refine .inr ⟨x, List.mem_append_left _ hx, fun hmem => ?_, mem_children.1 hchild⟩
      rcases List.mem_append.1 hmem with hmem | hmem
      · exact hxnew (List.mem_reverse.1 hmem)
      · exact hxstack hmem
  · intro y hy hout z hz
    rw [List.mem_append, List.mem_reverse, not_or] at hout
    rcases List.mem_append.1 hy with hy | hchild
    · by_cases heq : y = x
      · exact List.mem_append_right _ (mem_children.2 (heq ▸ hz))
      · refine List.mem_append_left _ (h.closed y hy ?_ z hz)
        exact fun hmem => (List.mem_cons.1 hmem).elim heq hout.2
    · exact absurd hchild hout.1

/-- The walk goes on to its end: a turn takes one node from the stack, and puts new ones there of which
there are only so many. -/
lemma WalkInv.exists_walk_eq (h : WalkInv nodes k result stack) (hnodup : (keys nodes).Nodup)
    (hacyclic : ¬ TransGen (Child nodes) k k) :
    ∃ r, WalkInv nodes k r [] ∧
      ∀ fuel, 2 * (nodes.length + 1 - result.length) + stack.length < fuel →
        walk nodes fuel result stack = some r := by
  induction hm : 2 * (nodes.length + 1 - result.length) + stack.length
    using Nat.strongRecOn generalizing result stack with
  | ind m ih =>
    cases stack with
    | nil =>
      refine ⟨result, h, fun fuel hfuel => ?_⟩
      obtain ⟨fuel, rfl⟩ := Nat.exists_eq_add_one_of_ne_zero (Nat.ne_zero_of_lt hfuel)
      rfl
    | cons x stack =>
      have hstep := h.step hnodup hacyclic
      have hle := hstep.length_le
      rw [List.length_append] at hle
      rw [List.length_cons] at hm
      obtain ⟨r, hr, hwalk⟩ := ih _ (by
        rw [List.length_append, List.length_append, List.length_reverse]
        omega) hstep rfl
      refine ⟨r, hr, fun fuel hfuel => ?_⟩
      obtain ⟨fuel, rfl⟩ := Nat.exists_eq_add_one_of_ne_zero (Nat.ne_zero_of_lt hfuel)
      refine hwalk fuel ?_
      rw [List.length_append, List.length_append, List.length_reverse]
      omega

/-- **The walk ends with the node and its descendants, each once.** -/
theorem returns_walk (hnodup : (keys nodes).Nodup) (hacyclic : ¬ TransGen (Child nodes) k k) :
    ∃ r, Fuel.Returns (fun fuel => walk nodes fuel [k] [k]) r ∧ r.Nodup ∧
      ∀ x, x ∈ r ↔ ReflTransGen (Child nodes) k x := by
  obtain ⟨r, hr, hwalk⟩ := (WalkInv.start nodes k).exists_walk_eq hnodup hacyclic
  exact ⟨r, ⟨_, fun fuel hfuel => hwalk fuel hfuel⟩, hr.nodup, fun x => hr.mem_iff⟩

end Walk

/-! ## What keeps a forest -/

namespace IsForest

lemma nil : IsForest ([] : List (κ × Option κ)) where
  nodup := List.nodup_nil
  parent_mem := nofun
  acyclic k h := by
    obtain ⟨y, hchild, -⟩ := TransGen.head'_iff.1 h
    exact absurd hchild List.not_mem_nil

/-- **New leaves keep a forest**: nodes with new keys, under a node of the forest or under none. -/
theorem append (h : IsForest nodes) {new : List κ} {parent : Option κ} (hnew : new.Nodup)
    (hfresh : ∀ x ∈ new, x ∉ keys nodes) (hparent : ∀ p ∈ parent, p ∈ keys nodes) :
    IsForest (nodes ++ new.map fun x => (x, parent)) := by
  have hkeys : keys (nodes ++ new.map fun x => (x, parent)) = keys nodes ++ new := by
    rw [keys, List.map_append, List.map_map]
    exact congrArg _ (List.map_id new)
  have hchild (x y : κ) (hxy : Child (nodes ++ new.map fun x => (x, parent)) x y) :
      Child nodes x y ∨ (y ∈ new ∧ x ∈ keys nodes) := by
    rcases List.mem_append.1 hxy with hmem | hmem
    · exact .inl hmem
    · obtain ⟨z, hz, heq⟩ := List.mem_map.1 hmem
      obtain ⟨rfl, rfl⟩ := Prod.mk.inj heq
      exact .inr ⟨hz, hparent x rfl⟩
  have hparents (x y : κ) (hxy : Child (nodes ++ new.map fun x => (x, parent)) x y) :
      x ∈ keys nodes := by
    rcases hchild x y hxy with hmem | hmem
    · exact h.parent_mem _ hmem x rfl
    · exact hmem.2
  refine ⟨?_, fun x hx p hp => ?_, fun k hk => ?_⟩
  · rw [hkeys]
    exact List.nodup_append'.2 ⟨h.nodup, hnew, fun x hx hmem => hfresh x hmem hx⟩
  · rw [hkeys]
    obtain ⟨y, q⟩ := x
    obtain rfl : q = some p := hp
    exact List.mem_append_left _ (hparents p y hx)
  · -- A new node has no children, so that a cycle is one of the old nodes.
    refine h.acyclic k ?_
    have hk' : k ∈ keys nodes := by
      obtain ⟨y, hky, -⟩ := TransGen.head'_iff.1 hk
      exact hparents k y hky
    have hold (y : κ) (hy : TransGen (Child (nodes ++ new.map fun x => (x, parent))) k y)
        (hmem : y ∈ keys nodes) : TransGen (Child nodes) k y := by
      induction hy with
      | single hchild' =>
        rcases hchild _ _ hchild' with hold | ⟨hnew', -⟩
        · exact .single hold
        · exact absurd hmem (hfresh _ hnew')
      | tail _ hchild' ih =>
        rcases hchild _ _ hchild' with hold | ⟨hnew', -⟩
        · exact (ih (hparents _ _ hchild')).tail hold
        · exact absurd hmem (hfresh _ hnew')
    exact hold k hk hk'

/-- **The removal of nodes with their descendants keeps a forest.** -/
theorem filter (h : IsForest nodes) (keep : κ → Bool)
    (hclosed : ∀ x y, Child nodes x y → keep y = true → keep x = true) :
    IsForest (nodes.filter fun x => keep x.1) := by
  refine ⟨h.nodup.sublist (List.filter_sublist.map _), fun x hx p hp => ?_, fun k hk => ?_⟩
  · obtain ⟨hmem, hkeep⟩ := List.mem_filter.1 hx
    obtain ⟨y, q⟩ := x
    obtain rfl : q = some p := hp
    obtain ⟨z, hz, rfl⟩ := List.mem_map.1 (h.parent_mem _ hmem p rfl)
    exact List.mem_map_of_mem (List.mem_filter.2 ⟨hz, hclosed _ _ hmem hkeep⟩)
  · have hle : Child (nodes.filter fun x => keep x.1) ≤ Child nodes := fun x y hxy =>
      (List.mem_filter.1 hxy).1
    exact h.acyclic k (TransGen.mono hle k k hk)

end IsForest

end Forest
