import Mathlib.Data.List.Chain
import Mathlib.Data.List.DropRight

set_option autoImplicit false

/-!
# A list in blocks

A predicate `p` cuts a list into blocks: each element outside `p`, the head of its block, with the
contiguous run of `p`-elements right after it.  The `p`-elements in front of the first head belong
to no block.

## Main definitions

* `Blocks.Block` — a head and its run; the structure carries that the head is outside `p` and the
  run inside.
* `Blocks.blocks` — the blocks of a list.

## Main results

* `Blocks.takeWhile_append_blocks` — a list is its leading run followed by its blocks.
* `Blocks.blocks_append` — a leading run followed by blocks has these blocks.
* `Blocks.blocks_filter`, `Blocks.blocks_rdropWhile` — a filter that keeps every head, and heads
  dropped from the end.
* `Blocks.pairwise_rdropWhile`, `Blocks.isChain_rdropWhile` — quantifiers over what is left.
* `Blocks.isChain_flatMap` — a relation between neighbours, read off the blocks.
-/

namespace Blocks

variable {α : Type*}

/-- A head outside `p` and the run of `p`-elements after it. -/
@[ext] structure Block (p : α → Bool) where
  head : α
  run : List α
  head_not : p head = false
  run_all : ∀ a ∈ run, p a = true

variable {p : α → Bool}

namespace Block

/-- The elements of a block in order. -/
def elems (b : Block p) : List α := b.head :: b.run

/-- The last element of a block. -/
def last (b : Block p) : α := b.run.getLast?.getD b.head

/-- The block with only the elements of its run that meet `q`. -/
def filterRun (q : α → Bool) (b : Block p) : Block p :=
  { b with
    run := b.run.filter q
    run_all := fun a ha => b.run_all a (List.mem_of_mem_filter ha) }

@[simp] lemma head_filterRun (q : α → Bool) (b : Block p) : (b.filterRun q).head = b.head := rfl

@[simp] lemma run_filterRun (q : α → Bool) (b : Block p) :
    (b.filterRun q).run = b.run.filter q := rfl

lemma getLast?_elems (b : Block p) : b.elems.getLast? = some b.last := by
  rw [elems, List.getLast?_cons, last]

end Block

/-- The blocks of a list. -/
def blocks (p : α → Bool) : List α → List (Block p)
  | [] => []
  | a :: l =>
    if h : p a = true then blocks p l
    else
      { head := a
        run := l.takeWhile p
        head_not := by simpa using h
        run_all := fun _ ha => List.mem_takeWhile_imp ha } :: blocks p l

/-- **A list is its leading run followed by its blocks.** -/
theorem takeWhile_append_blocks (l : List α) :
    l.takeWhile p ++ (blocks p l).flatMap Block.elems = l := by
  induction l with
  | nil => simp [blocks]
  | cons a l ih =>
    by_cases h : p a = true
    · simp [blocks, h, ih]
    · simp [blocks, h, Block.elems, ih]

lemma takeWhile_flatMap (bs : List (Block p)) :
    (bs.flatMap Block.elems).takeWhile p = [] := by
  cases bs with
  | nil => rfl
  | cons b bs => simp [Block.elems, b.head_not]

/-- The leading run of a list that is given as a run and blocks. -/
theorem takeWhile_append {lead : List α} (hl : ∀ a ∈ lead, p a = true) (bs : List (Block p)) :
    (lead ++ bs.flatMap Block.elems).takeWhile p = lead := by
  rw [List.takeWhile_append_of_pos hl, takeWhile_flatMap, List.append_nil]

lemma blocks_append_of_all {lead : List α} (hl : ∀ a ∈ lead, p a = true) (l : List α) :
    blocks p (lead ++ l) = blocks p l := by
  induction lead with
  | nil => rfl
  | cons a lead ih =>
    have ha : p a = true := hl a List.mem_cons_self
    rw [List.cons_append, blocks, dif_pos ha, ih fun x hx => hl x (List.mem_cons_of_mem _ hx)]

lemma blocks_flatMap (bs : List (Block p)) : blocks p (bs.flatMap Block.elems) = bs := by
  induction bs with
  | nil => rfl
  | cons b bs ih =>
    have hne : ¬ p b.head = true := by simp [b.head_not]
    rw [List.flatMap_cons, Block.elems, List.cons_append, blocks, dif_neg hne,
      blocks_append_of_all b.run_all, ih]
    congr 1
    ext1
    · rfl
    · exact takeWhile_append b.run_all bs

/-- **The blocks of a list that is given as a run and blocks.** -/
theorem blocks_append {lead : List α} (hl : ∀ a ∈ lead, p a = true) (bs : List (Block p)) :
    blocks p (lead ++ bs.flatMap Block.elems) = bs := by
  rw [blocks_append_of_all hl, blocks_flatMap]

/-- Every element is in the leading run, the head of a block, or in the run of a block. -/
lemma mem_iff {a : α} {l : List α} :
    a ∈ l ↔ a ∈ l.takeWhile p ∨ ∃ b ∈ blocks p l, a = b.head ∨ a ∈ b.run := by
  conv_lhs => rw [← takeWhile_append_blocks (p := p) l]
  simp [Block.elems]

/-- The head of a block is an element of the list. -/
lemma head_mem {l : List α} {b : Block p} (h : b ∈ blocks p l) : b.head ∈ l :=
  mem_iff.2 (.inr ⟨b, h, .inl rfl⟩)

/-- The run of a block consists of elements of the list. -/
lemma run_mem {l : List α} {b : Block p} (h : b ∈ blocks p l) {a : α} (ha : a ∈ b.run) : a ∈ l :=
  mem_iff.2 (.inr ⟨b, h, .inr ha⟩)

/-! ## Filters and heads dropped from the end -/

section Filter

variable {q : α → Bool} (hq : ∀ a, p a = false → q a = true)

include hq in
lemma filter_flatMap (bs : List (Block p)) :
    (bs.flatMap Block.elems).filter q = (bs.map (Block.filterRun q)).flatMap Block.elems := by
  induction bs with
  | nil => rfl
  | cons b bs ih =>
    rw [List.flatMap_cons, List.filter_append, ih, List.map_cons, List.flatMap_cons]
    simp [Block.elems, hq _ b.head_not]

include hq in
lemma filter_eq (l : List α) :
    l.filter q = (l.takeWhile p).filter q ++
      ((blocks p l).map (Block.filterRun q)).flatMap Block.elems := by
  conv_lhs => rw [← takeWhile_append_blocks (p := p) l]
  rw [List.filter_append, filter_flatMap hq]

lemma filter_takeWhile_all (l : List α) : ∀ a ∈ (l.takeWhile p).filter q, p a = true :=
  fun _ ha => List.mem_takeWhile_imp (List.mem_of_mem_filter ha)

include hq in
/-- A filter that keeps every head filters the runs of the blocks. -/
theorem blocks_filter (l : List α) :
    blocks p (l.filter q) = (blocks p l).map (Block.filterRun q) := by
  rw [filter_eq hq, blocks_append (filter_takeWhile_all l)]

include hq in
/-- A filter that keeps every head filters the leading run. -/
theorem takeWhile_filter (l : List α) :
    (l.filter q).takeWhile p = (l.takeWhile p).filter q := by
  rw [filter_eq hq, takeWhile_append (filter_takeWhile_all l)]

end Filter

section DropRight

variable {q : α → Bool} (hq : ∀ a, q a = true → p a = false)

/-- A block that consists of its head alone, which meets `q`. -/
def Bare (q : α → Bool) (b : Block p) : Bool := q b.head && b.run.isEmpty

include hq in
lemma rdropWhile_eq {lead : List α} (hl : ∀ a ∈ lead, p a = true) (bs : List (Block p)) :
    (lead ++ bs.flatMap Block.elems).rdropWhile q =
      lead ++ (bs.rdropWhile (Bare q)).flatMap Block.elems := by
  have hnot : ∀ a, p a = true → ¬ q a = true := fun a ha h => by simp [hq a h] at ha
  induction bs using List.reverseRecOn with
  | nil =>
    rw [List.flatMap_nil, List.append_nil, List.rdropWhile_nil, List.flatMap_nil, List.append_nil,
      List.rdropWhile_eq_self_iff]
    exact fun hne => hnot _ (hl _ (List.getLast_mem hne))
  | append_singleton bs b ih =>
    have hflat : lead ++ (bs ++ [b]).flatMap Block.elems =
        (lead ++ bs.flatMap Block.elems) ++ b.elems := by simp
    rw [hflat]
    by_cases hb : Bare q b = true
    · have hrun : b.run = [] := by simpa using (Bool.and_eq_true_iff.1 hb).2
      rw [List.rdropWhile_concat_pos _ _ _ hb, ← ih, Block.elems, hrun,
        List.rdropWhile_concat_pos _ _ _ (Bool.and_eq_true_iff.1 hb).1]
    · rw [List.rdropWhile_concat_neg _ _ _ hb, ← hflat, List.rdropWhile_eq_self_iff]
      intro hne hlast
      refine hb (Bool.and_eq_true_iff.2 ?_)
      have hgl : (lead ++ (bs ++ [b]).flatMap Block.elems).getLast hne = b.last := by
        rw [List.getLast_eq_iff_getLast?_eq_some, hflat,
          List.getLast?_append_of_ne_nil _ (by simp [Block.elems]), b.getLast?_elems]
      rw [hgl] at hlast
      rcases List.eq_nil_or_concat b.run with hrun | ⟨r, x, hrun⟩
      · simpa [Block.last, hrun] using hlast
      · have hx : b.last = x := by simp [Block.last, hrun]
        have hpx : p x = true := b.run_all x (by simp [hrun])
        rw [hx] at hlast
        exact absurd hlast (hnot x hpx)

include hq in
/-- Heads that are dropped from the end are the blocks that consist of them alone. -/
theorem blocks_rdropWhile (l : List α) :
    blocks p (l.rdropWhile q) = (blocks p l).rdropWhile (Bare q) := by
  have hl : ∀ a ∈ l.takeWhile p, p a = true := fun _ ha => List.mem_takeWhile_imp ha
  conv_lhs => rw [← takeWhile_append_blocks (p := p) l, rdropWhile_eq hq hl]
  exact blocks_append hl _

include hq in
/-- Heads that are dropped from the end leave the leading run. -/
theorem takeWhile_rdropWhile (l : List α) :
    (l.rdropWhile q).takeWhile p = l.takeWhile p := by
  have hl : ∀ a ∈ l.takeWhile p, p a = true := fun _ ha => List.mem_takeWhile_imp ha
  conv_lhs => rw [← takeWhile_append_blocks (p := p) l, rdropWhile_eq hq hl]
  exact takeWhile_append hl _

end DropRight

/-! ## Heads changed -/

section Heads

variable {α : Type*} {p : α → Bool} {f : α → α}

/-- The block with another head. -/
def Block.mapHead (f : α → α) (hf : ∀ a, p a = false → p (f a) = false) (b : Block p) : Block p :=
  { b with head := f b.head, head_not := hf b.head b.head_not }

@[simp] lemma Block.head_mapHead (hf : ∀ a, p a = false → p (f a) = false) (b : Block p) :
    (b.mapHead f hf).head = f b.head := rfl

@[simp] lemma Block.run_mapHead (hf : ∀ a, p a = false → p (f a) = false) (b : Block p) :
    (b.mapHead f hf).run = b.run := rfl

/-- A map that changes heads only gives the blocks with changed heads. -/
theorem blocks_map (hf : ∀ a, p a = false → p (f a) = false) (hfix : ∀ a, p a = true → f a = a)
    (l : List α) : blocks p (l.map f) = (blocks p l).map (Block.mapHead f hf) := by
  have helems : ∀ b : Block p, b.elems.map f = (b.mapHead f hf).elems := fun b => by
    have hrun : b.run.map f = b.run :=
      (List.map_congr_left fun a ha => hfix a (b.run_all a ha)).trans (List.map_id _)
    rw [Block.elems, List.map_cons, hrun]
    rfl
  have hlead : ∀ a ∈ (l.takeWhile p).map f, p a = true := by
    intro a ha
    obtain ⟨a', ha', rfl⟩ := List.mem_map.1 ha
    have hp : p a' = true := List.mem_takeWhile_imp ha'
    rwa [hfix a' hp]
  conv_lhs => rw [← takeWhile_append_blocks (p := p) l, List.map_append, List.map_flatMap]
  simp only [helems]
  rw [← List.flatMap_map, blocks_append hlead]

/-- A map that changes heads only leaves the leading run. -/
theorem takeWhile_map (hf : ∀ a, p a = false → p (f a) = false) (hfix : ∀ a, p a = true → f a = a)
    (l : List α) : (l.map f).takeWhile p = l.takeWhile p := by
  induction l with
  | nil => rfl
  | cons a l ih =>
    by_cases ha : p a = true
    · rw [List.map_cons, hfix a ha, List.takeWhile_cons_of_pos ha, List.takeWhile_cons_of_pos ha, ih]
    · have hfa : ¬ p (f a) = true := by simp [hf a (by simpa using ha)]
      rw [List.map_cons, List.takeWhile_cons_of_neg hfa, List.takeWhile_cons_of_neg ha]

end Heads

/-! ## Quantifiers over a list whose end is dropped -/

section Quantifiers

variable {β : Type*} {q : β → Bool}

lemma forall_mem_rdropWhile {Q : β → Prop} (h : ∀ b, q b = true → Q b) (l : List β) :
    (∀ b ∈ l.rdropWhile q, Q b) ↔ ∀ b ∈ l, Q b := by
  conv_rhs => rw [← List.rdropWhile_append_rtakeWhile (p := q) (l := l)]
  simp only [List.mem_append]
  constructor
  · rintro hd b (hb | hb)
    · exact hd b hb
    · exact h b (List.mem_rtakeWhile_imp hb)
  · exact fun hall b hb => hall b (.inl hb)

/-- A fact of every element with a later one that stays is a fact of every element with a later
one in the shortened list. -/
lemma pairwise_rdropWhile {Q : β → Prop} (l : List β) :
    (l.rdropWhile q).Pairwise (fun b _ => Q b) ↔ l.Pairwise fun b c => q c = false → Q b := by
  induction l using List.reverseRecOn with
  | nil => simp
  | append_singleton l c ih =>
    rw [List.pairwise_append]
    by_cases hc : q c = true
    · rw [List.rdropWhile_concat_pos _ _ _ hc, ih]
      simp [hc]
    · rw [List.rdropWhile_concat_neg _ _ _ hc, List.pairwise_append]
      simp only [List.mem_singleton, forall_eq, hc, List.pairwise_singleton, true_and,
        forall_const]
      refine and_congr_left fun hQ => ⟨fun _ => ?_, fun _ => ?_⟩
      · exact List.pairwise_of_forall_mem_list fun b hb _ _ _ => hQ b hb
      · exact List.pairwise_of_forall_mem_list fun b hb _ _ => hQ b hb

lemma isChain_rdropWhile {R : β → β → Prop} (h : ∀ b c, q c = true → R b c) (l : List β) :
    (l.rdropWhile q).IsChain R ↔ l.IsChain R := by
  induction l using List.reverseRecOn with
  | nil => simp
  | append_singleton l c ih =>
    by_cases hc : q c = true
    · rw [List.rdropWhile_concat_pos _ _ _ hc, ih, List.isChain_append]
      simp [h _ c hc]
    · rw [List.rdropWhile_concat_neg _ _ _ hc]

end Quantifiers

/-! ## Neighbours -/

section Chain

variable {R : α → α → Prop} (hR : ∀ x y, p y = true → R x y)

include hR in
lemma isChain_elems (b : Block p) : b.elems.IsChain R := by
  refine List.isChain_cons.2 ⟨fun y hy => hR _ _ (b.run_all y (List.mem_of_head? hy)), ?_⟩
  have hall : ∀ run : List α, (∀ a ∈ run, p a = true) → run.IsChain R := by
    intro run
    induction run with
    | nil => simp
    | cons a run ih =>
      intro h
      refine List.isChain_cons.2 ⟨fun y hy => hR _ _ ?_, ih fun x hx => h x (.tail _ hx)⟩
      exact h y (List.mem_cons_of_mem _ (List.mem_of_head? hy))
  exact hall b.run b.run_all

include hR in
/-- **Neighbours, read off the blocks**: a relation that holds in front of every `p`-element holds
between neighbours when it holds between the last element of a block and the next head. -/
theorem isChain_flatMap (bs : List (Block p)) :
    (bs.flatMap Block.elems).IsChain R ↔ bs.IsChain fun b c => R b.last c.head := by
  have hne : [] ∉ bs.map Block.elems := by simp [Block.elems]
  rw [List.flatMap_def, List.isChain_flatten hne, List.isChain_map]
  have hin : ∀ l ∈ bs.map Block.elems, l.IsChain R := by
    simp only [List.mem_map]
    rintro _ ⟨b, -, rfl⟩
    exact isChain_elems hR b
  rw [and_iff_right hin]
  have hhead : ∀ b : Block p, b.elems.head? = some b.head := fun b => rfl
  simp only [Block.getLast?_elems, hhead, Option.mem_def, Option.some.injEq, forall_eq']

end Chain

end Blocks
