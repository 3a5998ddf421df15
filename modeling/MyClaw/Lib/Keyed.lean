import Mathlib.Data.List.Perm.Basic

set_option autoImplicit false

/-!
# One element of a list apart

A table is a list of pairs with distinct keys, and an array of tasks is a list with an index for
each.  A step takes one element, changes it and puts it back; what is said of the others is said of
the list without it.

## Main results

* `Keyed.perm_of_lookup` — the entry of a key and the entries of the other keys.
* `Keyed.perm_of_getElem?`, `Keyed.set_perm` — the element of an index and the others, before and
  after a change.
* `Keyed.eraseP_eq_filter` — the first element that is found, taken away.
-/

namespace Keyed

/-! ## Entries of a table -/

section

variable {α β : Type*} [DecidableEq α] {l : List (α × β)} {k : α} {v : β}

lemma filter_ne_of_notMem (h : k ∉ l.map (·.1)) : l.filter (·.1 ≠ k) = l := by
  rw [List.filter_eq_self]
  intro x hx
  exact decide_eq_true fun heq => h (heq ▸ List.mem_map_of_mem hx)

/-- The entry of a key and the others. -/
lemma perm_of_lookup (hkeys : (l.map (·.1)).Nodup) (h : l.lookup k = some v) :
    l.Perm ((k, v) :: l.filter (·.1 ≠ k)) := by
  obtain ⟨l₁, l₂, rfl, -⟩ := List.lookup_eq_some_iff.1 h
  have hother : k ∉ (l₁ ++ l₂).map (·.1) := by
    have hperm : (l₁ ++ (k, v) :: l₂).Perm ((k, v) :: (l₁ ++ l₂)) := List.perm_middle
    exact (List.nodup_cons.1 ((hperm.map (·.1)).nodup_iff.1 hkeys)).1
  have hfilter : (l₁ ++ (k, v) :: l₂).filter (·.1 ≠ k) = l₁ ++ l₂ := by
    rw [← filter_ne_of_notMem hother, List.filter_append, List.filter_cons_of_neg (by simp),
      List.filter_append]
  rw [hfilter]
  exact List.perm_middle

/-- A key that is not found is not there. -/
lemma notMem_of_lookup (h : l.lookup k = none) : k ∉ l.map (·.1) := by
  rw [List.mem_map]
  rintro ⟨x, hx, rfl⟩
  have hne := List.lookup_eq_none_iff.1 h x hx
  simp at hne

/-- The other keys stay distinct, and the key is free among them. -/
lemma nodup_cons_filter_ne (hkeys : (l.map (·.1)).Nodup) :
    (((k, v) :: l.filter (·.1 ≠ k)).map (·.1)).Nodup := by
  rw [List.map_cons, List.nodup_cons]
  refine ⟨?_, hkeys.sublist (List.filter_sublist.map _)⟩
  rw [List.mem_map]
  rintro ⟨x, hx, hkey⟩
  exact of_decide_eq_true (List.mem_filter.1 hx).2 hkey

end

/-! ## Elements of an array -/

section

variable {α : Type*} {l : List α} {i j : ℕ} {a b c : α}

/-- The element of an index and the others. -/
lemma perm_of_getElem? (h : l[i]? = some a) : l.Perm (a :: l.eraseIdx i) := by
  obtain ⟨hi, rfl⟩ := List.getElem?_eq_some_iff.1 h
  exact (List.getElem_cons_eraseIdx_perm hi).symm

/-- The element of an index, changed, and the others. -/
lemma set_perm (h : l[i]? = some a) (b : α) : (l.set i b).Perm (b :: l.eraseIdx i) :=
  List.set_perm_cons_eraseIdx (List.getElem?_eq_some_iff.1 h).1 b

lemma modify_eq_set (h : l[i]? = some a) (f : α → α) : l.modify i f = l.set i (f a) := by
  rw [List.modify_eq_set_getElem?, h]
  rfl

/-- What a change keeps of every element, it keeps at every index. -/
lemma getElem?_set_keeps {β : Type*} {f : α → β} (h : l[i]? = some a) (hf : f b = f a)
    (hj : l[j]? = some c) : ∃ d, (l.set i b)[j]? = some d ∧ f d = f c := by
  by_cases hij : i = j
  · subst hij
    rw [h] at hj
    obtain rfl := Option.some.inj hj
    exact ⟨b, List.getElem?_set_self (List.getElem?_eq_some_iff.1 h).1, hf⟩
  · exact ⟨c, by rw [List.getElem?_set_ne hij, hj], rfl⟩

end

/-! ## The first element found -/

section

variable {α κ : Type*} [DecidableEq κ] {key : α → κ} {p q : α → Bool} {l : List α} {a : α}

/-- Where the keys are distinct, the element that is found goes with its key. -/
lemma eraseP_eq_filter (hkeys : (l.map key).Nodup) (h : l.find? p = some a) :
    l.eraseP p = l.filter (key · ≠ key a) := by
  induction l with
  | nil => cases h
  | cons b l ih =>
    obtain ⟨hb, hl⟩ := List.nodup_cons.1 hkeys
    rw [List.find?_cons] at h
    cases hp : p b with
    | true =>
      simp only [hp, Option.some.injEq] at h
      subst h
      rw [List.eraseP_cons_of_pos hp, List.filter_cons_of_neg (by simp), eq_comm,
        List.filter_eq_self]
      intro x hx
      exact decide_eq_true fun hkey => hb (hkey ▸ List.mem_map_of_mem hx)
    | false =>
      simp only [hp] at h
      have hne : key b ≠ key a := fun hkey =>
        hb (hkey ▸ List.mem_map_of_mem (List.mem_of_find?_eq_some h))
      rw [List.eraseP_cons_of_neg (by simp [hp]), List.filter_cons_of_pos (by simpa using hne),
        ih hl h]

/-- The first of the elements that meet `q` is taken from among them. -/
lemma filter_eraseP_and : (l.eraseP fun a => p a && q a).filter q = (l.filter q).eraseP p := by
  induction l with
  | nil => rfl
  | cons b l ih =>
    cases hq : q b with
    | false => simp [hq, ih]
    | true =>
      cases hp : p b with
      | false => simp [hq, hp, ih]
      | true => simp [hq, hp]

end

end Keyed
