import Mathlib.Data.List.Basic

set_option autoImplicit false

/-!
# Texts split at separators

A list that is split at the elements which meet a predicate, and put together again with one of them.

## Main results

* `Split.splitOnP_append_left` — what has no separator belongs to the first part.
* `Split.length_splitOnP` — how many parts there are.
* `Split.eq_false_of_mem_splitOnP` — no part has a separator.
* `Split.splitOnP_intercalate` — parts that are put together are split again.
* `Split.length_intercalate_append_le` — the length of parts that are put together.
* `Split.intercalate_groups` — parts of parts.
* `Split.exists_splitOn_append` — what follows a text goes on with its last part.
* `Split.infix_intercalate_iff` — a text without the separator stands within one part.
-/

namespace Split

variable {α : Type*} {p : α → Bool} {xs ys : List α} {parts : List (List α)} {sep : α}

/-- What has no separator belongs to the first part. -/
lemma splitOnP_append_left (h : ∀ x ∈ xs, p x = false) :
    (xs ++ ys).splitOnP p = (ys.splitOnP p).modifyHead (xs ++ ·) := by
  induction xs with
  | nil =>
    obtain ⟨first, rest, hys⟩ := List.exists_cons_of_ne_nil (List.splitOnP_ne_nil p ys)
    rw [List.nil_append, hys, List.modifyHead_cons, List.nil_append]
  | cons x xs ih =>
    have hx : p x = false := h x List.mem_cons_self
    obtain ⟨first, rest, hys⟩ := List.exists_cons_of_ne_nil (List.splitOnP_ne_nil p ys)
    rw [List.cons_append, List.splitOnP_cons_eq_if_modifyHead, hx,
      ih fun y hy => h y (List.mem_cons_of_mem _ hy), hys]
    rfl

/-- There is one part more than separators. -/
lemma length_splitOnP (p : α → Bool) (xs : List α) : (xs.splitOnP p).length = xs.countP p + 1 := by
  induction xs with
  | nil => rfl
  | cons x xs ih =>
    rw [List.splitOnP_cons_eq_if_modifyHead, List.countP_cons]
    split_ifs with hx
    · rw [List.length_cons, ih]
    · rw [List.length_modifyHead, ih, Nat.add_zero]

/-- No part has a separator. -/
lemma eq_false_of_mem_splitOnP {part : List α} (h : part ∈ xs.splitOnP p) :
    ∀ x ∈ part, p x = false := by
  induction xs generalizing part with
  | nil =>
    rw [List.splitOnP_nil, List.mem_singleton] at h
    rw [h]
    nofun
  | cons y xs ih =>
    rw [List.splitOnP_cons_eq_if_modifyHead] at h
    obtain ⟨first, rest, hxs⟩ := List.exists_cons_of_ne_nil (List.splitOnP_ne_nil p xs)
    rw [hxs] at h ih
    split at h
    · rcases List.mem_cons.1 h with rfl | h
      · nofun
      · exact ih h
    · rename_i hy
      rw [List.modifyHead_cons] at h
      rcases List.mem_cons.1 h with rfl | h
      · intro x hx
        rcases List.mem_cons.1 hx with rfl | hx
        · simpa using hy
        · exact ih List.mem_cons_self x hx
      · exact ih (List.mem_cons_of_mem _ h)

/-- **Parts that are put together are split again.** -/
theorem splitOnP_intercalate (hsep : p sep = true) (hparts : parts ≠ [])
    (h : ∀ part ∈ parts, ∀ x ∈ part, p x = false) :
    ([sep].intercalate parts).splitOnP p = parts := by
  induction parts with
  | nil => exact absurd rfl hparts
  | cons part parts ih =>
    have hpart := h part List.mem_cons_self
    cases parts with
    | nil => rw [List.intercalate_singleton, List.splitOnP_eq_singleton hpart]
    | cons next parts =>
      rw [List.intercalate_cons_cons, List.append_assoc, List.singleton_append,
        List.splitOnP_append_cons_of_forall_mem hpart sep hsep,
        ih (List.cons_ne_nil _ _) fun x hx => h x (List.mem_cons_of_mem _ hx)]

/-- Two lists of parts that are put together are no longer than each of them with a separator
between. -/
lemma length_intercalate_append_le (sep : List α) (parts others : List (List α)) :
    (sep.intercalate (parts ++ others)).length ≤
      (sep.intercalate parts).length + sep.length + (sep.intercalate others).length := by
  induction parts with
  | nil =>
    rw [List.nil_append]
    exact Nat.le_add_left _ _
  | cons part rest ih =>
    by_cases hrest : rest = []
    · subst hrest
      by_cases hothers : others = []
      · subst hothers
        exact Nat.le_trans (Nat.le_add_right _ _) (Nat.le_add_right _ _)
      · rw [List.cons_append, List.nil_append, List.intercalate_cons_of_ne_nil hothers,
          List.intercalate_singleton]
        simp only [List.length_append]
        omega
    · rw [List.cons_append, List.intercalate_cons_of_ne_nil hrest,
        List.intercalate_cons_of_ne_nil (List.append_ne_nil_of_left_ne_nil hrest _)]
      simp only [List.length_append]
      omega

/-! ## Parts of parts -/

/-- What is put together comes from the separator or a part. -/
lemma mem_intercalate {x : α} {sep : List α} (h : x ∈ sep.intercalate parts) :
    x ∈ sep ∨ ∃ part ∈ parts, x ∈ part := by
  induction parts with
  | nil => cases h
  | cons part parts ih =>
    cases parts with
    | nil => exact .inr ⟨part, List.mem_cons_self, by simpa using h⟩
    | cons next parts =>
      rw [List.intercalate_cons_cons, List.append_assoc, List.mem_append, List.mem_append] at h
      rcases h with h | h | h
      · exact .inr ⟨part, List.mem_cons_self, h⟩
      · exact .inl h
      · exact (ih h).imp_right fun ⟨p, hp, hx⟩ => ⟨p, List.mem_cons_of_mem _ hp, hx⟩

/-- The parts come to what is put together. -/
lemma mem_intercalate_of_mem {x : α} {sep part : List α} (hx : x ∈ part) (hpart : part ∈ parts) :
    x ∈ sep.intercalate parts := by
  induction parts with
  | nil => cases hpart
  | cons first parts ih =>
    cases parts with
    | nil =>
      rw [List.mem_singleton.1 hpart] at hx
      rwa [List.intercalate_singleton]
    | cons next parts =>
      rw [List.intercalate_cons_cons]
      rcases List.mem_cons.1 hpart with rfl | hpart
      · exact List.mem_append_left _ (List.mem_append_left _ hx)
      · exact List.mem_append_right _ (ih hpart)

/-- Two lists of parts that are put together. -/
lemma intercalate_append {sep : List α} {others : List (List α)} (h : parts ≠ []) (h' : others ≠ []) :
    sep.intercalate (parts ++ others) = sep.intercalate parts ++ sep ++ sep.intercalate others := by
  induction parts with
  | nil => exact absurd rfl h
  | cons part parts ih =>
    cases parts with
    | nil =>
      rw [List.singleton_append, List.intercalate_cons_of_ne_nil h', List.intercalate_singleton]
    | cons next parts =>
      rw [List.cons_append, List.cons_append, List.intercalate_cons_cons, ← List.cons_append,
        ih (List.cons_ne_nil _ _), List.intercalate_cons_cons]
      simp only [List.append_assoc]

/-- Groups of parts with two separators between them are the parts with an empty one between the
groups. -/
lemma intercalate_groups {groups : List (List (List α))} (h : ∀ group ∈ groups, group ≠ []) :
    [sep, sep].intercalate (groups.map [sep].intercalate) =
      [sep].intercalate ([[]].intercalate groups) := by
  induction groups with
  | nil => rfl
  | cons group groups ih =>
    cases groups with
    | nil => simp only [List.map_singleton, List.intercalate_singleton]
    | cons next groups =>
      have hnext : [[]].intercalate (next :: groups) ≠ [] := by
        obtain ⟨part, rest, hpart⟩ := List.exists_cons_of_ne_nil
          (h next (List.mem_cons_of_mem _ List.mem_cons_self))
        rw [hpart, List.intercalate_cons_cons_left]
        exact List.cons_ne_nil _ _
      have ih := ih fun g hg => h g (List.mem_cons_of_mem _ hg)
      rw [List.map_cons] at ih
      rw [List.map_cons, List.map_cons, List.intercalate_cons_cons, ih, List.intercalate_cons_cons,
        List.append_assoc, List.append_assoc, intercalate_append (h group List.mem_cons_self) (by simp),
        List.singleton_append, List.intercalate_cons_of_ne_nil hnext]
      simp

/-! ## A text within the parts -/

/-- What has no separator stands on one side of it. -/
lemma infix_append_cons_iff {pat : List α} (h : sep ∉ pat) :
    pat <:+: xs ++ sep :: ys ↔ pat <:+: xs ∨ pat <:+: ys := by
  constructor
  · rintro ⟨before, after, heq⟩
    rw [List.append_assoc] at heq
    rcases List.append_eq_append_iff.1 heq with ⟨rest, rfl, hrest⟩ | ⟨rest, rfl, hrest⟩
    · rcases List.append_eq_append_iff.1 hrest with ⟨rest', rfl, -⟩ | ⟨rest', rfl, hrest'⟩
      · exact .inl ⟨before, rest', by rw [List.append_assoc]⟩
      · cases rest' with
        | nil => exact .inl ⟨before, [], by simp⟩
        | cons c rest' =>
          obtain rfl : sep = c := (List.cons.inj hrest').1
          exact absurd (List.mem_append_right _ List.mem_cons_self) h
    · cases rest with
      | nil =>
        cases pat with
        | nil => exact .inl List.nil_infix
        | cons c pat =>
          obtain rfl : sep = c := (List.cons.inj hrest).1
          exact absurd List.mem_cons_self h
      | cons c rest => exact .inr ⟨rest, after, by simpa using (List.cons.inj hrest).2.symm⟩
  · rintro (h' | h')
    · exact h'.trans (List.prefix_append _ _).isInfix
    · exact h'.trans ((List.suffix_cons _ _).trans (List.suffix_append _ _)).isInfix

/-- What has no separator stands within one part. -/
lemma infix_intercalate_iff {pat : List α} (h : sep ∉ pat) (hne : pat ≠ []) :
    pat <:+: [sep].intercalate parts ↔ ∃ part ∈ parts, pat <:+: part := by
  induction parts with
  | nil => simpa using hne
  | cons part parts ih =>
    cases parts with
    | nil => simp
    | cons next parts =>
      rw [List.intercalate_cons_cons, List.append_assoc, List.singleton_append,
        infix_append_cons_iff h, ih]
      simp

/-! ## The last part -/

section LastPart

variable [BEq α] [LawfulBEq α]

/-- What follows a text goes on with its last part. -/
lemma exists_splitOn_append (sep : α) (xs : List α) :
    ∃ (parts : List (List α)) (last : List α), sep ∉ last ∧
      ∀ ys, (xs ++ ys).splitOn sep = parts ++ (last ++ ys).splitOn sep := by
  induction xs with
  | nil => exact ⟨[], [], List.not_mem_nil, fun _ => rfl⟩
  | cons x xs ih =>
    obtain ⟨parts, last, hlast, hparts⟩ := ih
    by_cases hx : x = sep
    · refine ⟨[] :: parts, last, hlast, fun ys => ?_⟩
      rw [List.cons_append, List.splitOn_cons_eq_if_modifyHead, if_pos (beq_iff_eq.2 hx), hparts,
        List.cons_append]
    · have hcons (zs : List α) :
          (x :: zs).splitOn sep = (zs.splitOn sep).modifyHead (x :: ·) := by
        rw [List.splitOn_cons_eq_if_modifyHead, if_neg (mt beq_iff_eq.1 hx)]
      cases parts with
      | nil =>
        refine ⟨[], x :: last, fun hmem => ?_, fun ys => ?_⟩
        · rcases List.mem_cons.1 hmem with heq | hmem
          · exact hx heq.symm
          · exact hlast hmem
        · rw [List.cons_append, hcons, hparts, List.nil_append, List.nil_append, List.cons_append, hcons]
      | cons part parts =>
        refine ⟨(x :: part) :: parts, last, hlast, fun ys => ?_⟩
        rw [List.cons_append, hcons, hparts]
        rfl

end LastPart

end Split
