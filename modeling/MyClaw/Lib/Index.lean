import Mathlib.Logic.Function.Basic
import Mathlib.Data.List.Induction

set_option autoImplicit false

/-!
# A table and its secondary indexes

A table maps keys to records, and an index maps a field of the records back to the keys.  The index
is kept by hand: a record that changes releases the old value of its field and takes the new one.  A
table and its indexes may also be read from a list of entries.

## Main definitions

* `Index.IsInverse` — the index is exactly the inverse of the field.
* `Index.reindex` — an index after the field of one record has changed.
* `Index.load`, `Index.loadIndex` — a table and an index read from a list.

## Main results

* `Index.IsInverse.put` — a change to a free value keeps the index exact.
* `Index.load_eq_some_iff`, `Index.isInverse_loadIndex` — what is read from a list whose entries do not
  contradict each other.
-/

namespace Index

variable {κ ν ι : Type*}

/-- The index is exactly the inverse of the field of the records. -/
def IsInverse (table : κ → Option ν) (field : ν → Option ι) (index : ι → Option κ) : Prop :=
  ∀ i k, index i = some k ↔ ∃ v, table k = some v ∧ field v = some i

/-! ## Changing a record -/

section

variable [DecidableEq ι] {table : κ → Option ν} {field : ν → Option ι}
  {index : ι → Option κ} {k : κ} {v : ν}

/-- The index after the field of the record of `k` has changed from `old` to `new`. -/
def reindex (index : ι → Option κ) (k : κ) (old new : Option ι) : ι → Option κ := fun i =>
  if new = some i then some k else if old = some i then none else index i

/-- A field that does not change leaves the index as it is. -/
lemma IsInverse.reindex_self (h : IsInverse table field index) (k : κ) :
    reindex index k ((table k).bind field) ((table k).bind field) = index := by
  funext i
  unfold reindex
  split_ifs with hold
  · obtain ⟨v, hv, hfield⟩ := Option.bind_eq_some_iff.1 hold
    exact ((h i k).2 ⟨v, hv, hfield⟩).symm
  · rfl

/-- A new value releases nothing where there was none. -/
lemma reindex_none (i : ι) : reindex index k none (some i) = Function.update index i (some k) := by
  funext j
  unfold reindex
  by_cases hj : j = i
  · subst hj
    rw [if_pos rfl, Function.update_self]
  · rw [if_neg fun heq => hj (Option.some.inj heq).symm, if_neg (by simp),
      Function.update_of_ne hj]

/-- Releasing the old value and taking the new one. -/
lemma reindex_some (i j : ι) :
    reindex index k (some i) (some j) =
      Function.update (Function.update index i none) j (some k) := by
  funext x
  unfold reindex
  by_cases hj : x = j
  · subst hj
    rw [if_pos rfl, Function.update_self]
  · rw [if_neg fun heq => hj (Option.some.inj heq).symm, Function.update_of_ne hj]
    by_cases hi : x = i
    · subst hi
      rw [if_pos rfl, Function.update_self]
    · rw [if_neg fun heq => hi (Option.some.inj heq).symm, Function.update_of_ne hi]

/-- **A change to a free value** keeps the index exact. -/
lemma IsInverse.put [DecidableEq κ] (h : IsInverse table field index)
    (hfree : ∀ i, field v = some i → index i = none ∨ index i = some k) :
    IsInverse (Function.update table k (some v)) field
      (reindex index k ((table k).bind field) (field v)) := by
  intro i k'
  unfold reindex
  by_cases hkey : k' = k
  · subst hkey
    rw [Function.update_self]
    constructor
    · intro hi
      split_ifs at hi with hnew hold
      · exact ⟨v, rfl, hnew⟩
      · obtain ⟨w, hw, hfield⟩ := (h i k').1 hi
        exact absurd (Option.bind_eq_some_iff.2 ⟨w, hw, hfield⟩) hold
    · rintro ⟨w, hw, hfield⟩
      obtain rfl := Option.some.inj hw
      rw [if_pos hfield]
  · rw [Function.update_of_ne hkey]
    constructor
    · intro hi
      split_ifs at hi with hnew hold
      · exact absurd (Option.some.inj hi).symm hkey
      · exact (h i k').1 hi
    · rintro ⟨w, hw, hfield⟩
      have hi := (h i k').2 ⟨w, hw, hfield⟩
      have hnew : field v ≠ some i := fun hnew => by
        rcases hfree i hnew with hno | hno <;> rw [hi] at hno
        · cases hno
        · exact hkey (Option.some.inj hno)
      have hold : (table k).bind field ≠ some i := fun hold => by
        obtain ⟨x, hx, hxfield⟩ := Option.bind_eq_some_iff.1 hold
        have hk := (h i k).2 ⟨x, hx, hxfield⟩
        rw [hi] at hk
        exact hkey (Option.some.inj hk)
      rw [if_neg hnew, if_neg hold, hi]

end

/-! ## Reading a list -/

section

variable {field : ν → Option ι} {l : List (κ × ν)} {k : κ} {v : ν}

/-- The table of a list: of several entries with one key, the last counts. -/
def load [DecidableEq κ] (l : List (κ × ν)) : κ → Option ν :=
  l.foldl (fun table x => Function.update table x.1 (some x.2)) fun _ => none

/-- The index with the entry `x`. -/
def insertIndex [DecidableEq ι] (field : ν → Option ι) (index : ι → Option κ) (x : κ × ν) :
    ι → Option κ :=
  match field x.2 with
  | some i => Function.update index i (some x.1)
  | none => index

/-- The index of a list. -/
def loadIndex [DecidableEq ι] (field : ν → Option ι) (l : List (κ × ν)) : ι → Option κ :=
  l.foldl (insertIndex field) fun _ => none

lemma load_concat [DecidableEq κ] (x : κ × ν) :
    load (l ++ [x]) = Function.update (load l) x.1 (some x.2) := List.foldl_append ..

/-- What is in the table is in the list. -/
lemma mem_of_load [DecidableEq κ] (h : load l k = some v) : (k, v) ∈ l := by
  induction l using List.reverseRecOn with
  | nil => cases h
  | append_singleton l x ih =>
    rw [load_concat] at h
    by_cases hkey : k = x.1
    · subst hkey
      rw [Function.update_self] at h
      obtain rfl := Option.some.inj h
      exact List.mem_append_right _ (List.mem_singleton_self _)
    · rw [Function.update_of_ne hkey] at h
      exact List.mem_append_left _ (ih h)

/-- A key of the list is in the table. -/
lemma exists_load_of_mem [DecidableEq κ] (h : (k, v) ∈ l) : ∃ w, load l k = some w := by
  induction l using List.reverseRecOn with
  | nil => cases h
  | append_singleton l x ih =>
    rw [load_concat]
    by_cases hkey : k = x.1
    · subst hkey
      exact ⟨x.2, Function.update_self ..⟩
    · rw [Function.update_of_ne hkey]
      rcases List.mem_append.1 h with h | h
      · exact ih h
      · exact absurd (congrArg Prod.fst (List.mem_singleton.1 h)) hkey

/-- **A table read from a list** without two records of one key has the entries of the list. -/
lemma load_eq_some_iff [DecidableEq κ] (hl : ∀ v w, (k, v) ∈ l → (k, w) ∈ l → v = w) :
    load l k = some v ↔ (k, v) ∈ l := by
  refine ⟨mem_of_load, fun h => ?_⟩
  obtain ⟨w, hw⟩ := exists_load_of_mem h
  rw [hw, hl w v (mem_of_load hw) h]

/-- What an index read from a list says. -/
lemma loadIndex_spec [DecidableEq ι] (i : ι) :
    (∀ k, loadIndex field l i = some k → ∃ v, (k, v) ∈ l ∧ field v = some i) ∧
      (loadIndex field l i = none → ∀ x ∈ l, field x.2 ≠ some i) := by
  induction l using List.reverseRecOn with
  | nil => exact ⟨fun k h => (by cases h), fun _ x hx => absurd hx List.not_mem_nil⟩
  | append_singleton l x ih =>
    have hconcat : loadIndex field (l ++ [x]) = insertIndex field (loadIndex field l) x :=
      List.foldl_append ..
    rw [hconcat, insertIndex]
    cases hfield : field x.2 with
    | none =>
      refine ⟨fun k h => ?_, fun h y hy => ?_⟩
      · obtain ⟨v, hv, hvfield⟩ := ih.1 k h
        exact ⟨v, List.mem_append_left _ hv, hvfield⟩
      · rcases List.mem_append.1 hy with hy | hy
        · exact ih.2 h y hy
        · rw [List.mem_singleton.1 hy, hfield]
          simp
    | some j =>
      dsimp only
      by_cases hij : i = j
      · subst hij
        rw [Function.update_self]
        refine ⟨fun k h => ?_, fun h => (by cases h)⟩
        obtain rfl := Option.some.inj h
        exact ⟨x.2, List.mem_append_right _ (List.mem_singleton_self _), hfield⟩
      · rw [Function.update_of_ne hij]
        refine ⟨fun k h => ?_, fun h y hy => ?_⟩
        · obtain ⟨v, hv, hvfield⟩ := ih.1 k h
          exact ⟨v, List.mem_append_left _ hv, hvfield⟩
        · rcases List.mem_append.1 hy with hy | hy
          · exact ih.2 h y hy
          · rw [List.mem_singleton.1 hy, hfield]
            exact fun heq => hij (Option.some.inj heq).symm

/-- **An index read from a list** whose entries have different fields is exact. -/
lemma isInverse_loadIndex [DecidableEq κ] [DecidableEq ι]
    (hl : ∀ k v w, (k, v) ∈ l → (k, w) ∈ l → v = w)
    (hfields : ∀ x ∈ l, ∀ y ∈ l, ∀ i, field x.2 = some i → field y.2 = some i → x.1 = y.1) :
    IsInverse (load l) field (loadIndex field l) := by
  intro i k
  constructor
  · intro h
    obtain ⟨v, hv, hfield⟩ := (loadIndex_spec i).1 k h
    exact ⟨v, (load_eq_some_iff (hl k)).2 hv, hfield⟩
  · rintro ⟨v, hv, hfield⟩
    have hmem := mem_of_load hv
    cases hi : loadIndex field l i with
    | none => exact absurd hfield ((loadIndex_spec i).2 hi _ hmem)
    | some k' =>
      obtain ⟨w, hw, hwfield⟩ := (loadIndex_spec i).1 k' hi
      exact congrArg some (hfields _ hw _ hmem i hwfield hfield)

end

end Index
