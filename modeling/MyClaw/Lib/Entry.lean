import Mathlib.Data.List.AList
import Mathlib.Data.List.Induction

set_option autoImplicit false

/-!
# Entries of a table

A table from keys to values, in the order in which it is gone through.  An entry is looked up and filled
if it is vacant, or changed in place; a table of queues is filled by appending to the entries.

## Main definitions

* `Entry.orInsert` — fills the entry of a key if it is vacant.
* `Entry.upsert` — changes the entry of a key, with a default value if it is vacant.
* `Entry.orInsertAll`, `Entry.appendAll` — the same for a list of keys and values.
* `Entry.insertAll` — the entries of a list, later ones over earlier ones.
* `Entry.contents` — what is in a table of queues, each element with its key.

## Main results

* `Entry.lookup_orInsertAll` — the entry there was, or else the first one of the list, is in the table.
* `Entry.lookup_insertAll` — the only value that is put in for a key is found.
* `Entry.contents_appendAll` — the elements of the table and those of the list are in it, each once.
-/

namespace Entry

universe u v

/-- A table; its keys are distinct. -/
abbrev Table (κ : Type u) (β : Type v) := AList fun _ : κ => β

variable {κ : Type u} {β : Type v} [DecidableEq κ] {t : Table κ β} {k k' : κ}

/-- The entry of `k` is `v` if it was vacant. -/
def orInsert (k : κ) (v : β) (t : Table κ β) : Table κ β :=
  match t.lookup k with
  | some _ => t
  | none => t.insert k v

/-- The entry of `k` is changed; a vacant one has the value `d` before. -/
def upsert (k : κ) (d : β) (f : β → β) (t : Table κ β) : Table κ β :=
  t.insert k (f ((t.lookup k).getD d))

/-- The entries of a list are put where they find a vacant one. -/
def orInsertAll (l : List (κ × β)) (t : Table κ β) : Table κ β :=
  l.foldl (fun t p => orInsert p.1 p.2 t) t

/-- The table as a list. -/
def toList (t : Table κ β) : List (κ × β) := t.entries.map fun e => (e.1, e.2)

/-! ## Looking up -/

lemma lookup_erase_eq : (t.erase k).lookup k' = if k' = k then none else t.lookup k' := by
  split_ifs with h
  · subst h
    exact AList.lookup_erase k' t
  · exact AList.lookup_erase_ne h

lemma lookup_insert_eq {v : β} :
    (t.insert k v).lookup k' = if k' = k then some v else t.lookup k' := by
  split_ifs with h
  · subst h
    exact AList.lookup_insert t
  · exact AList.lookup_insert_ne h

lemma lookup_upsert {d : β} {f : β → β} : (upsert k d f t).lookup k' =
    if k' = k then some (f ((t.lookup k).getD d)) else t.lookup k' := lookup_insert_eq

lemma lookup_orInsert {v : β} : (orInsert k v t).lookup k' =
    if k' = k then some ((t.lookup k).getD v) else t.lookup k' := by
  unfold orInsert
  cases h : t.lookup k with
  | some w =>
    dsimp only
    split_ifs with hk
    · rw [hk, h]
      rfl
    · rfl
  | none => exact lookup_insert_eq

/-- **The entry there was**, or else the first one of the list, is in the table. -/
theorem lookup_orInsertAll (l : List (κ × β)) (t : Table κ β) : (orInsertAll l t).lookup k =
    (t.lookup k).or ((l.find? (·.1 = k)).map (·.2)) := by
  induction l generalizing t with
  | nil => simp [orInsertAll]
  | cons p l ih =>
    have hcons : orInsertAll (p :: l) t = orInsertAll l (orInsert p.1 p.2 t) := rfl
    rw [hcons, ih, lookup_orInsert, List.find?_cons]
    by_cases hk : k = p.1
    · subst hk
      cases t.lookup p.1 <;> simp
    · have hne : ¬p.1 = k := fun h => hk h.symm
      simp [hk, hne]

/-- The entries of a list are put into a table, later ones over earlier ones. -/
def insertAll (l : List (κ × β)) (t : Table κ β) : Table κ β :=
  l.foldl (fun t p => t.insert p.1 p.2) t

lemma lookup_insertAll_append {p : κ × β} {l : List (κ × β)} : (insertAll (l ++ [p]) t).lookup k =
    if k = p.1 then some p.2 else (insertAll l t).lookup k := by
  rw [insertAll, List.foldl_append]
  exact lookup_insert_eq

/-- What is found was put in, or was there. -/
lemma mem_of_lookup_insertAll {v : β} {l : List (κ × β)}
    (h : (insertAll l t).lookup k = some v) : (k, v) ∈ l ∨ t.lookup k = some v := by
  induction l using List.reverseRecOn with
  | nil => exact .inr h
  | append_singleton l p ih =>
    rw [lookup_insertAll_append] at h
    split_ifs at h with hk
    · obtain rfl := Option.some.inj h
      subst hk
      exact .inl (List.mem_append_right l (List.mem_singleton.2 rfl))
    · exact (ih h).imp (List.mem_append_left _) id

/-- **The only value that is put in for a key** is found. -/
theorem lookup_insertAll {v : β} {l : List (κ × β)} (h : (k, v) ∈ l)
    (honly : ∀ v', (k, v') ∈ l → v' = v) : (insertAll l t).lookup k = some v := by
  induction l using List.reverseRecOn with
  | nil => exact absurd h List.not_mem_nil
  | append_singleton l p ih =>
    rw [lookup_insertAll_append]
    split_ifs with hk
    · subst hk
      rw [honly p.2 (List.mem_append_right l (List.mem_singleton.2 rfl))]
    · rcases List.mem_append.1 h with hl | hp
      · exact ih hl fun v' hv' => honly v' (List.mem_append_left _ hv')
      · exact absurd (congrArg Prod.fst (List.mem_singleton.1 hp)) hk

lemma mem_toList {v : β} : (k, v) ∈ toList t ↔ t.lookup k = some v := by
  rw [toList, List.mem_map]
  constructor
  · rintro ⟨e, he, heq⟩
    cases heq
    exact AList.mem_lookup_iff.2 he
  · exact fun h => ⟨⟨k, v⟩, AList.mem_lookup_iff.1 h, rfl⟩

/-- The first entry of a key in the order of a table is its entry. -/
lemma find_toList : ((toList t).find? (·.1 = k)).map (·.2) = t.lookup k := by
  unfold toList AList.lookup
  induction t.entries with
  | nil => rfl
  | cons e l ih =>
    rw [List.map_cons, List.find?_cons]
    by_cases hk : k = e.1
    · subst hk
      rw [decide_eq_true rfl]
      exact (List.dlookup_cons_eq l e.1 e.2).symm
    · rw [decide_eq_false fun h => hk h.symm, List.dlookup_cons_ne l e hk]
      exact ih

/-- A key whose entry is vacant is not there to be removed. -/
lemma erase_of_vacant (h : t.lookup k = none) : t.erase k = t :=
  AList.ext (List.kerase_of_notMem_keys (AList.lookup_eq_none.1 h))

/-- The entry of a key and the others. -/
lemma toList_perm {v : β} (h : t.lookup k = some v) :
    (toList t).Perm ((k, v) :: toList (t.erase k)) := by
  have hmem : k ∈ t.entries.keys := AList.lookup_isSome.1 (h ▸ rfl)
  obtain ⟨w, l₁, l₂, -, hsplit, herase⟩ := List.exists_of_kerase hmem
  have hv : w = v := by
    have hw : ⟨k, w⟩ ∈ t.entries := hsplit ▸ List.mem_append_right l₁ List.mem_cons_self
    exact Option.some.inj ((AList.mem_lookup_iff.2 hw).symm.trans h)
  have herased : toList (t.erase k) = (l₁ ++ l₂).map fun e => (e.1, e.2) :=
    congrArg (List.map _) herase
  rw [herased, toList, hsplit, ← hv]
  exact (List.perm_middle (a := ⟨k, w⟩)).map fun e : (_ : κ) × β => (e.1, e.2)

/-! ## Queues -/

section Queues

variable {M : Type v} {q : Table κ (List M)}

/-- The elements of the queues of a list are appended to those of the table. -/
def appendAll (l : List (κ × List M)) (q : Table κ (List M)) : Table κ (List M) :=
  l.foldl (fun q p => upsert p.1 [] (· ++ p.2) q) q

/-- What is in the queues, each element with its key. -/
def contents (q : Table κ (List M)) : List (κ × M) := (toList q).flatMap fun p => p.2.map (p.1, ·)

lemma mem_contents {p : κ × M} :
    p ∈ contents q ↔ ∃ queue, q.lookup p.1 = some queue ∧ p.2 ∈ queue := by
  obtain ⟨k, m⟩ := p
  rw [contents, List.mem_flatMap]
  constructor
  · rintro ⟨⟨k', queue⟩, hqueue, hm⟩
    obtain ⟨m', hm', heq⟩ := List.mem_map.1 hm
    cases heq
    exact ⟨queue, mem_toList.1 hqueue, hm'⟩
  · rintro ⟨queue, hqueue, hm⟩
    exact ⟨(k, queue), mem_toList.2 hqueue, List.mem_map.2 ⟨m, hm, rfl⟩⟩

/-- A queue that is there, and the others. -/
lemma contents_erase {queue : List M} (h : q.lookup k = some queue) :
    (contents q).Perm (queue.map (k, ·) ++ contents (q.erase k)) :=
  (toList_perm h).flatMap_right _

lemma contents_insert (queue : List M) :
    contents (q.insert k queue) = queue.map (k, ·) ++ contents (q.erase k) := rfl

/-- **Elements more in a queue** are elements more in the table. -/
lemma contents_upsert (more : List M) :
    (contents (upsert k [] (· ++ more) q)).Perm (contents q ++ more.map (k, ·)) := by
  rw [upsert, contents_insert]
  cases h : q.lookup k with
  | none =>
    rw [erase_of_vacant h]
    exact List.perm_append_comm
  | some queue =>
    rw [Option.getD_some, List.map_append, List.append_assoc]
    have hswap : (more.map (k, ·) ++ contents (q.erase k)).Perm
        (contents (q.erase k) ++ more.map (k, ·)) := List.perm_append_comm
    refine (hswap.append_left _).trans ?_
    rw [← List.append_assoc]
    exact (contents_erase h).symm.append_right _

/-- **The elements of the table and those of the list** are in the table, each once. -/
theorem contents_appendAll (l : List (κ × List M)) (q : Table κ (List M)) :
    (contents (appendAll l q)).Perm (contents q ++ l.flatMap fun p => p.2.map (p.1, ·)) := by
  induction l generalizing q with
  | nil => simp [appendAll]
  | cons p l ih =>
    have hcons : appendAll (p :: l) q = appendAll l (upsert p.1 [] (· ++ p.2) q) := rfl
    rw [hcons, List.flatMap_cons, ← List.append_assoc]
    exact (ih _).trans ((contents_upsert p.2).append_right _)

/-- A queue of the table, with what the list has for it. -/
lemma lookup_appendAll (l : List (κ × List M)) (q : Table κ (List M)) :
    ((appendAll l q).lookup k).getD [] =
      (q.lookup k).getD [] ++ (l.filter (·.1 = k)).flatMap (·.2) := by
  induction l generalizing q with
  | nil => simp [appendAll]
  | cons p l ih =>
    have hcons : appendAll (p :: l) q = appendAll l (upsert p.1 [] (· ++ p.2) q) := rfl
    rw [hcons, ih, lookup_upsert, List.filter_cons]
    by_cases hk : k = p.1
    · subst hk
      simp
    · have hne : ¬p.1 = k := fun h => hk h.symm
      simp [hk, hne]

end Queues

end Entry
