import Mathlib.Data.List.Basic

set_option autoImplicit false

/-!
# Updating the first entry with a key

A table that is kept as a list is read with `find?` and changed in place at the first entry with a
key.  Entries with the same key further on are never reached.

## Main definitions

* `FirstMatch.update` — change the first entry with a key.

## Main results

* `FirstMatch.find?_update_self`, `FirstMatch.find?_update_of_ne` — what is found afterwards.
* `FirstMatch.update_eq_self_iff` — the list stays as it is exactly when the entry does.
-/

namespace FirstMatch

variable {α κ : Type*} [DecidableEq κ] (key : α → κ)

/-- Change the first entry whose key is `k`. -/
def update (k : κ) (f : α → α) : List α → List α
  | [] => []
  | a :: l => if key a = k then f a :: l else a :: update k f l

variable {key} {k j : κ} {f : α → α} {l : List α} {a : α}

/-- What a change keeps of every entry, it keeps of the list. -/
lemma map_update {β : Type*} {g : α → β} (hg : ∀ a, g (f a) = g a) :
    (update key k f l).map g = l.map g := by
  induction l with
  | nil => rfl
  | cons a l ih =>
    unfold update
    split
    · simp [hg]
    · simp [ih]

@[simp] lemma map_key_update (hf : ∀ a, key (f a) = key a) :
    (update key k f l).map key = l.map key :=
  map_update hf

@[simp] lemma length_update : (update key k f l).length = l.length := by
  induction l with
  | nil => rfl
  | cons a l ih =>
    unfold update
    split
    · rfl
    · simp [ih]

/-- The entry that is found has been changed. -/
lemma find?_update_self (hf : ∀ a, key (f a) = key a) :
    (update key k f l).find? (key · = k) = (l.find? (key · = k)).map f := by
  induction l with
  | nil => rfl
  | cons a l ih =>
    unfold update
    by_cases ha : key a = k
    · simp [ha, hf]
    · simp [ha, ih]

/-- Other keys find what they found before. -/
lemma find?_update_of_ne (hf : ∀ a, key (f a) = key a) (hj : j ≠ k) :
    (update key k f l).find? (key · = j) = l.find? (key · = j) := by
  induction l with
  | nil => rfl
  | cons a l ih =>
    unfold update
    by_cases ha : key a = k
    · have hne : ¬ k = j := Ne.symm hj
      simp [ha, hf, hne]
    · rw [if_neg ha, List.find?_cons, List.find?_cons, ih]

/-- An entry of the new list is an old one or the changed one. -/
lemma mem_update (h : a ∈ update key k f l) :
    a ∈ l ∨ ∃ b, l.find? (key · = k) = some b ∧ a = f b := by
  induction l with
  | nil => cases h
  | cons b l ih =>
    unfold update at h
    by_cases hb : key b = k
    · rw [if_pos hb] at h
      rcases List.mem_cons.1 h with h | h
      · exact .inr ⟨b, by simp [hb], h⟩
      · exact .inl (List.mem_cons_of_mem _ h)
    · rw [if_neg hb] at h
      rcases List.mem_cons.1 h with h | h
      · exact .inl (h ▸ List.mem_cons_self)
      · rcases ih h with h | ⟨c, hc, hac⟩
        · exact .inl (List.mem_cons_of_mem _ h)
        · exact .inr ⟨c, by simp [hb, hc], hac⟩

/-- Where no key is there twice, every entry with the key is the first one. -/
lemma update_eq_map (h : (l.map key).Nodup) :
    update key k f l = l.map fun a => if key a = k then f a else a := by
  induction l with
  | nil => rfl
  | cons b l ih =>
    obtain ⟨hb, hl⟩ := List.nodup_cons.1 h
    unfold update
    rw [List.map_cons]
    by_cases hk : key b = k
    · have hrest : (l.map fun a => if key a = k then f a else a) = l := by
        refine (List.map_congr_left fun a ha => if_neg ?_).trans (List.map_id l)
        exact fun ha' => hb ((hk.trans ha'.symm) ▸ List.mem_map_of_mem ha)
      rw [if_pos hk, if_pos hk, hrest]
    · rw [if_neg hk, if_neg hk, ih hl]

/-- **No change**: the list stays as it is exactly when the entry that is found does. -/
lemma update_eq_self_iff (h : l.find? (key · = k) = some a) : update key k f l = l ↔ f a = a := by
  induction l with
  | nil => cases h
  | cons b l ih =>
    unfold update
    by_cases hb : key b = k
    · have hba : b = a := by simpa [hb] using h
      subst hba
      rw [if_pos hb]
      simp
    · have h' : l.find? (key · = k) = some a := by simpa [hb] using h
      rw [if_neg hb]
      simp [ih h']

/-- Only what becomes of the entry that is found matters. -/
lemma update_congr {g : α → α} (h : l.find? (key · = k) = some a) (hfg : f a = g a) :
    update key k f l = update key k g l := by
  induction l with
  | nil => cases h
  | cons b l ih =>
    unfold update
    by_cases hb : key b = k
    · have hba : b = a := by simpa [hb] using h
      rw [if_pos hb, if_pos hb, hba, hfg]
    · have h' : l.find? (key · = k) = some a := by simpa [hb] using h
      rw [if_neg hb, if_neg hb, ih h']

/-- Without an entry of the key nothing changes. -/
lemma update_of_find?_none (h : l.find? (key · = k) = none) : update key k f l = l := by
  induction l with
  | nil => rfl
  | cons b l ih =>
    have hb : ¬ key b = k := by
      intro hb
      simp [hb] at h
    have h' : l.find? (key · = k) = none := by simpa [hb] using h
    unfold update
    rw [if_neg hb, ih h']

end FirstMatch
