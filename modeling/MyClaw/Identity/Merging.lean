import MyClaw.Identity.Contacts
import MyClaw.Lib.Entry

set_option autoImplicit false

/-!
# Merging identities

The contacts and the mailbox of `KnownUsersRegistry` (`identity/known_users/registry.rs`) as the tables
that they are, when identities are merged: `migrate_identity` folds one key into another, and
`rekey_legacy_to` all keys that are no routing keys into one user.

## Main definitions

* `UserTables` — the contacts and the mailbox.
* `UserTables.migrateIdentity`, `UserTables.rekeyLegacyTo` — the two merges.

## Main results

* `UserTables.entry_migrateIdentity` — what a migration makes of the entries.
* `UserTables.merge_keeps` — what both merges keep.

## Implementation notes

The order of a table is the one in which it is gone through, which is any order.  The mails are not
looked at. -/

namespace MyClaw

open Entry

/-- The contacts of an owner, by peer. -/
abbrev ContactMap := Table String ContactEntry

/-- The contacts, the mailbox and the flag that they have changed. -/
structure UserTables (M : Type) where
  contacts : Table String ContactMap
  userMailbox : Table String (List M)
  dirty : Bool

namespace UserTables

variable {M : Type} (r : UserTables M) (oldRk newUid target : String)

/-! ## `migrate_identity` -/

/-- The mailbox of the old key goes to the end of the one of the new key; whether there was a mail. -/
def moveMailbox (userMailbox : Table String (List M)) : Table String (List M) × Bool :=
  match userMailbox.lookup oldRk with
  | some mails => (upsert newUid [] (· ++ mails) (userMailbox.erase oldRk), !mails.isEmpty)
  | none => (userMailbox, false)

/-- The contacts of the old key as an owner go under the new key; whether there was one. -/
def moveOwner (contacts : Table String ContactMap) : Table String ContactMap × Bool :=
  match contacts.lookup oldRk with
  | some own =>
    (upsert newUid ∅ (orInsertAll (toList own)) (contacts.erase oldRk), !own.entries.isEmpty)
  | none => (contacts, false)

/-- The entry of an owner for the old key becomes one for the new key; whether there was one. -/
def movePeer (contacts : Table String ContactMap) (owner : String) : Table String ContactMap × Bool :=
  match contacts.lookup owner with
  | some map =>
    match map.lookup oldRk with
    | some entry => (contacts.insert owner (orInsert newUid entry (map.erase oldRk)), true)
    | none => (contacts, false)
  | none => (contacts, false)

/-- The owners with an entry for the old key. -/
def affected (contacts : Table String ContactMap) : List String :=
  ((toList contacts).filter fun p => (p.2.lookup oldRk).isSome).map (·.1)

/-- The entries for the old key become entries for the new key; whether there was one. -/
def movePeers (contacts : Table String ContactMap) : Table String ContactMap × Bool :=
  (affected oldRk contacts).foldl
    (fun (contacts, moved) owner =>
      let (contacts, movedOne) := movePeer oldRk newUid contacts owner
      (contacts, moved || movedOne))
    (contacts, false)

/-- `migrate_identity`. -/
def migrateIdentity : UserTables M :=
  if oldRk = newUid then r
  else
    let (userMailbox, movedMailbox) := moveMailbox oldRk newUid r.userMailbox
    let (contacts, movedOwner) := moveOwner oldRk newUid r.contacts
    let (contacts, movedPeer) := movePeers oldRk newUid contacts
    ⟨contacts, userMailbox, r.dirty || movedMailbox || movedOwner || movedPeer⟩

/-! ## `rekey_legacy_to` -/

/-- A routing key stays, any other key becomes the target. -/
def rekeyed (key : String) : String := if ':' ∈ key.toList then key else target

/-- The entries in the order in which they are gone through. -/
def flatContacts (contacts : Table String ContactMap) : List ((String × String) × ContactEntry) :=
  (toList contacts).flatMap fun p => (toList p.2).map fun q => ((p.1, q.1), q.2)

/-- The entries under their new keys, without those that have become ones of a user for itself. -/
def rekeyedContacts (contacts : Table String ContactMap) : List ((String × String) × ContactEntry) :=
  ((flatContacts contacts).map fun p => ((rekeyed target p.1.1, rekeyed target p.1.2), p.2)).filter
    fun p => p.1.1 ≠ p.1.2

/-- An entry is put where it finds a vacant one. -/
def putContact (contacts : Table String ContactMap) (p : (String × String) × ContactEntry) :
    Table String ContactMap :=
  upsert p.1.1 ∅ (orInsert p.1.2 p.2) contacts

/-- The queues under their new keys. -/
def rekeyedMail (userMailbox : Table String (List M)) : List (String × List M) :=
  (toList userMailbox).map fun p => (rekeyed target p.1, p.2)

/-- `rekey_legacy_to`; without an entry, or without a queue, to be written, the table is left as it
is. -/
def rekeyLegacyTo : UserTables M :=
  let contacts := rekeyedContacts target r.contacts
  let mail := rekeyedMail target r.userMailbox
  ⟨if contacts.isEmpty then r.contacts else contacts.foldl putContact ∅,
    if mail.isEmpty then r.userMailbox else appendAll mail ∅,
    r.dirty || !contacts.isEmpty || !mail.isEmpty⟩

/-! ## What the entries become -/

end UserTables

namespace Contacts

variable {c d : Contacts} {old new x y : String}

/-- Where there is no entry for the old key, there is none to fold. -/
lemma foldPeer_of_vacant (h : c (x, old) = none) : c.foldPeer old new (x, y) = c (x, y) := by
  show (if y = old then none else if y = new then (c (x, new)).or (c (x, old)) else c (x, y)) = _
  rw [h, Option.or_none]
  split_ifs with hold hnew
  · rw [hold, h]
  · rw [hnew]
  · rfl

/-- The entries of an owner are folded by themselves. -/
lemma foldPeer_congr (h : ∀ y, d (x, y) = c (x, y)) :
    d.foldPeer old new (x, y) = c.foldPeer old new (x, y) := by
  show (if y = old then none else if y = new then (d (x, new)).or (d (x, old)) else d (x, y)) = _
  rw [h, h, h]
  rfl

/-- Entries that were folded have none to fold. -/
lemma foldPeer_foldPeer (h : ∀ y, d (x, y) = c.foldPeer old new (x, y)) :
    d.foldPeer old new (x, y) = c.foldPeer old new (x, y) := by
  rw [foldPeer_of_vacant, h]
  rw [h]
  exact if_pos rfl

end Contacts

namespace UserTables

variable {M : Type}

/-- The entry of an owner for a peer. -/
def entry (contacts : Table String ContactMap) : Contacts := fun p =>
  (contacts.lookup p.1).bind (·.lookup p.2)

variable {oldRk newUid target : String} {contacts : Table String ContactMap} {x y owner : String}

lemma entry_of_lookup {m : ContactMap} (h : contacts.lookup x = some m) :
    entry contacts (x, y) = m.lookup y := by
  simp [entry, h]

lemma entry_of_vacant (h : contacts.lookup x = none) : entry contacts (x, y) = none := by
  simp [entry, h]

/-- What is looked up in the contacts of an owner, who may have none. -/
lemma lookup_getD_empty : ((contacts.lookup x).getD ∅).lookup y = entry contacts (x, y) := by
  cases h : contacts.lookup x with
  | none => rw [entry_of_vacant h, Option.getD_none, AList.lookup_empty]
  | some m => rw [entry_of_lookup h, Option.getD_some]

lemma entry_insert {m : ContactMap} : entry (contacts.insert owner m) (x, y) =
    if x = owner then m.lookup y else entry contacts (x, y) := by
  unfold entry
  rw [lookup_insert_eq]
  split_ifs <;> rfl

lemma entry_upsert {f : ContactMap → ContactMap} : entry (upsert owner ∅ f contacts) (x, y) =
    if x = owner then (f ((contacts.lookup owner).getD ∅)).lookup y else entry contacts (x, y) :=
  entry_insert

lemma entry_erase : entry (contacts.erase owner) (x, y) =
    if x = owner then none else entry contacts (x, y) := by
  unfold entry
  rw [lookup_erase_eq]
  split_ifs <;> rfl

/-- **The contacts of the old key** are folded into those of the new one. -/
lemma entry_moveOwner (hne : oldRk ≠ newUid) :
    entry (moveOwner oldRk newUid contacts).1 = (entry contacts).foldOwner oldRk newUid := by
  funext ⟨x, y⟩
  unfold moveOwner
  cases hown : contacts.lookup oldRk with
  | none =>
    show entry contacts (x, y) = if x = oldRk then none
      else if x = newUid then (entry contacts (newUid, y)).or (entry contacts (oldRk, y))
      else entry contacts (x, y)
    rw [entry_of_vacant hown, Option.or_none]
    split_ifs with hold hnew
    · rw [hold, entry_of_vacant hown]
    · rw [hnew]
    · rfl
  | some own =>
    show entry (upsert newUid ∅ (orInsertAll (toList own)) (contacts.erase oldRk)) (x, y) =
      if x = oldRk then none
      else if x = newUid then (entry contacts (newUid, y)).or (entry contacts (oldRk, y))
      else entry contacts (x, y)
    rw [entry_upsert, entry_erase, lookup_orInsertAll, find_toList, lookup_getD_empty, entry_erase,
      entry_of_lookup hown, if_neg (Ne.symm hne)]
    split_ifs with hnew hold hold
    · exact absurd (hold.symm.trans hnew) hne
    · rfl
    · rfl
    · rfl

/-- **The entry of one owner** for the old key is folded into that for the new one. -/
lemma entry_movePeer (hne : oldRk ≠ newUid) :
    entry (movePeer oldRk newUid contacts owner).1 (x, y) =
      if x = owner then (entry contacts).foldPeer oldRk newUid (x, y) else entry contacts (x, y) := by
  have hsame (hvacant : entry contacts (owner, oldRk) = none) : entry contacts (x, y) =
      if x = owner then (entry contacts).foldPeer oldRk newUid (x, y) else entry contacts (x, y) := by
    split_ifs with hx
    · subst hx
      exact (Contacts.foldPeer_of_vacant hvacant).symm
    · rfl
  unfold movePeer
  cases hmap : contacts.lookup owner with
  | none => exact hsame (entry_of_vacant hmap)
  | some map =>
    cases hentry : map.lookup oldRk with
    | none =>
      dsimp only
      rw [hentry]
      exact hsame ((entry_of_lookup hmap).trans hentry)
    | some e =>
      dsimp only
      rw [hentry]
      dsimp only
      rw [entry_insert]
      split_ifs with hx
      · subst hx
        show _ = if y = oldRk then none
          else if y = newUid then (entry contacts (x, newUid)).or (entry contacts (x, oldRk))
          else entry contacts (x, y)
        rw [entry_of_lookup hmap, entry_of_lookup hmap, entry_of_lookup hmap, hentry, lookup_orInsert,
          lookup_erase_eq, lookup_erase_eq, if_neg (Ne.symm hne)]
        split_ifs with hnew hold hold
        · exact absurd (hold.symm.trans hnew) hne
        · cases map.lookup newUid <;> rfl
        · rfl
        · rfl
      · rfl

/-- The flag does not matter for the table. -/
lemma movePeers_fst (owners : List String) (contacts : Table String ContactMap) (moved : Bool) :
    (owners.foldl (fun (contacts, moved) owner =>
      let (contacts, movedOne) := movePeer oldRk newUid contacts owner
      (contacts, moved || movedOne)) (contacts, moved)).1 =
    owners.foldl (fun contacts owner => (movePeer oldRk newUid contacts owner).1) contacts := by
  induction owners generalizing contacts moved with
  | nil => rfl
  | cons owner owners ih => exact ih _ _

/-- The entries of some owners for the old key are folded into those for the new one. -/
lemma entry_foldl_movePeer (hne : oldRk ≠ newUid) (owners : List String)
    (contacts : Table String ContactMap) :
    entry (owners.foldl (fun contacts owner => (movePeer oldRk newUid contacts owner).1) contacts)
        (x, y) =
      if x ∈ owners then (entry contacts).foldPeer oldRk newUid (x, y) else entry contacts (x, y) := by
  induction owners generalizing contacts with
  | nil => rfl
  | cons owner owners ih =>
    have hrow (y : String) : entry (movePeer oldRk newUid contacts owner).1 (x, y) =
        if x = owner then (entry contacts).foldPeer oldRk newUid (x, y) else entry contacts (x, y) :=
      entry_movePeer hne
    rw [List.foldl_cons, ih]
    by_cases howner : x = owner
    · simp only [if_pos howner] at hrow
      have hmem : x ∈ owner :: owners := List.mem_cons.2 (.inl howner)
      rw [if_pos hmem, Contacts.foldPeer_foldPeer hrow, hrow, ite_self]
    · simp only [if_neg howner] at hrow
      rw [Contacts.foldPeer_congr hrow, hrow]
      simp [howner]

lemma mem_affected : x ∈ affected oldRk contacts ↔ (entry contacts (x, oldRk)).isSome = true := by
  rw [affected, List.mem_map]
  constructor
  · rintro ⟨⟨x, map⟩, hmem, rfl⟩
    obtain ⟨hmap, hsome⟩ := List.mem_filter.1 hmem
    rw [entry_of_lookup (mem_toList.1 hmap)]
    exact hsome
  · intro h
    cases hmap : contacts.lookup x with
    | none =>
      rw [entry_of_vacant hmap] at h
      cases h
    | some map =>
      rw [entry_of_lookup hmap] at h
      exact ⟨(x, map), List.mem_filter.2 ⟨mem_toList.2 hmap, h⟩, rfl⟩

/-- **The entries of all owners** for the old key are folded into those for the new one. -/
lemma entry_movePeers (hne : oldRk ≠ newUid) :
    entry (movePeers oldRk newUid contacts).1 = (entry contacts).foldPeer oldRk newUid := by
  funext ⟨x, y⟩
  rw [movePeers, movePeers_fst, entry_foldl_movePeer hne]
  split_ifs with haffected
  · rfl
  · rw [mem_affected] at haffected
    exact (Contacts.foldPeer_of_vacant (Option.not_isSome_iff_eq_none.1 haffected)).symm

/-- **What a migration makes of the entries**. -/
theorem entry_migrateIdentity (r : UserTables M) : entry (r.migrateIdentity oldRk newUid).contacts =
    (entry r.contacts).migrateIdentity oldRk newUid := by
  unfold migrateIdentity Contacts.migrateIdentity
  split_ifs with hne
  · rfl
  · show entry (movePeers oldRk newUid (moveOwner oldRk newUid r.contacts).1).1 = _
    rw [entry_movePeers hne, entry_moveOwner hne]

/-- What `rekey_legacy_to` writes: the first entry of the list with a key. -/
lemma entry_foldl_putContact (l : List ((String × String) × ContactEntry))
    (contacts : Table String ContactMap) : entry (l.foldl putContact contacts) (x, y) =
      (entry contacts (x, y)).or ((l.find? (·.1 = (x, y))).map (·.2)) := by
  induction l generalizing contacts with
  | nil => simp
  | cons p l ih =>
    obtain ⟨⟨owner, peer⟩, e⟩ := p
    have hput : entry (putContact contacts ((owner, peer), e)) (x, y) =
        if (owner, peer) = (x, y) then some ((entry contacts (x, y)).getD e)
        else entry contacts (x, y) := by
      unfold putContact
      rw [entry_upsert, lookup_orInsert, lookup_getD_empty, lookup_getD_empty]
      grind
    rw [List.foldl_cons, ih, hput, List.find?_cons]
    by_cases hk : (owner, peer) = (x, y)
    · rw [if_pos hk, decide_eq_true hk]
      cases entry contacts (x, y) <;> rfl
    · rw [if_neg hk, decide_eq_false hk]

lemma mem_flatContacts {e : ContactEntry} :
    ((x, y), e) ∈ flatContacts contacts ↔ entry contacts (x, y) = some e := by
  rw [flatContacts, List.mem_flatMap]
  constructor
  · rintro ⟨⟨owner, map⟩, howner, hmem⟩
    obtain ⟨⟨peer, e'⟩, hpeer, heq⟩ := List.mem_map.1 hmem
    cases heq
    rw [entry_of_lookup (mem_toList.1 howner)]
    exact mem_toList.1 hpeer
  · intro h
    cases hmap : contacts.lookup x with
    | none =>
      rw [entry_of_vacant hmap] at h
      cases h
    | some map =>
      rw [entry_of_lookup hmap] at h
      exact ⟨(x, map), mem_toList.2 hmap, List.mem_map.2 ⟨(y, e), mem_toList.2 h, rfl⟩⟩

/-- **What `rekey_legacy_to` makes of the entries**, if there is one to write: the first entry that
comes under a key, and none of a user for itself. -/
theorem entry_rekeyLegacyTo (r : UserTables M) (hwrite : rekeyedContacts target r.contacts ≠ []) :
    entry (r.rekeyLegacyTo target).contacts (x, y) =
      if x = y then none
      else ((flatContacts r.contacts).find? fun p =>
        (rekeyed target p.1.1, rekeyed target p.1.2) = (x, y)).map (·.2) := by
  have hcontacts : (r.rekeyLegacyTo target).contacts =
      (rekeyedContacts target r.contacts).foldl putContact ∅ := by
    show (if _ then _ else _) = _
    rw [if_neg (by simpa using hwrite)]
  have hempty : entry ∅ (x, y) = none := rfl
  rw [hcontacts, entry_foldl_putContact, hempty, Option.none_or, rekeyedContacts, List.find?_filter,
    List.find?_map, Option.map_map]
  split_ifs with hself
  · rw [Option.map_eq_none_iff, List.find?_eq_none]
    rintro ⟨⟨owner, peer⟩, e⟩ -
    simp only [Function.comp_apply, decide_eq_true_eq, Prod.mk.injEq]
    rintro ⟨hne, rfl, rfl⟩
    exact hne hself
  · refine congrArg₂ Option.map rfl (congrArg (List.find? · _) ?_)
    funext ⟨⟨owner, peer⟩, e⟩
    simp only [Function.comp_apply, Prod.mk.injEq, decide_eq_true_eq, decide_eq_decide]
    constructor
    · exact fun h => h.2
    · rintro ⟨rfl, rfl⟩
      exact ⟨hself, rfl, rfl⟩

/-! ## The mails -/

/-- The key under which a user goes on after a migration. -/
def migrated (oldRk newUid key : String) : String := if key = oldRk then newUid else key

/-- Every mail is queued once under the key that its old one has become, and those of one queue are in
their order. -/
structure MailsMerged (rename : String → String) (before after : UserTables M) : Prop where
  once : (contents after.userMailbox).Perm
    ((contents before.userMailbox).map fun p => (rename p.1, p.2))
  order : ∀ key queue, before.userMailbox.lookup key = some queue →
    queue.Sublist ((after.userMailbox.lookup (rename key)).getD [])

/-- No retired key is left, and the entries of different users are kept, each under the keys that
its old ones have become. -/
structure ContactsMerged (rename : String → String) (before after : UserTables M) : Prop where
  owner : ∀ x, rename x ≠ x → x ∉ after.contacts
  peer : ∀ x y, rename y ≠ y → entry after.contacts (x, y) = none
  /-- A relationship of two users is not lost. -/
  kept : ∀ x y e, entry before.contacts (x, y) = some e → rename x ≠ rename y →
    entry after.contacts (rename x, rename y) ≠ none
  /-- The entry that is there is one of those that were merged. -/
  merged : ∀ x y e, entry after.contacts (x, y) = some e → x ≠ y →
    ∃ x' y', rename x' = x ∧ rename y' = y ∧ entry before.contacts (x', y') = some e

/-- Where the old key has no queue, no key changes. -/
lemma map_contents_of_vacant {q : Table String (List M)} (h : q.lookup oldRk = none) :
    (contents q).map (fun p => (migrated oldRk newUid p.1, p.2)) = contents q := by
  refine (List.map_congr_left fun p hp => ?_).trans (List.map_id _)
  obtain ⟨queue, hqueue, -⟩ := mem_contents.1 hp
  have hkey : p.1 ≠ oldRk := by
    intro hkey
    rw [hkey, h] at hqueue
    cases hqueue
  rw [migrated, if_neg hkey]
  rfl

lemma mailsMerged_refl (r : UserTables M) {rename : String → String} (h : ∀ key, rename key = key) :
    MailsMerged rename r r := by
  refine ⟨?_, fun key queue hqueue => ?_⟩
  · simp only [h]
    rw [List.map_id']
  · rw [h, hqueue, Option.getD_some]

/-- **A migration** appends the mails of the old key to those of the new one. -/
lemma mailsMerged_migrateIdentity (r : UserTables M) :
    MailsMerged (migrated oldRk newUid) r (r.migrateIdentity oldRk newUid) := by
  by_cases hne : oldRk = newUid
  · rw [migrateIdentity, if_pos hne]
    refine mailsMerged_refl r fun key => ?_
    rw [migrated]
    split_ifs with hkey
    · rw [hkey, hne]
    · rfl
  have hmailbox : (r.migrateIdentity oldRk newUid).userMailbox =
      (moveMailbox oldRk newUid r.userMailbox).1 := by
    unfold migrateIdentity
    rw [if_neg hne]
  have hvacant : (r.userMailbox.erase oldRk).lookup oldRk = none := AList.lookup_erase ..
  cases hmails : r.userMailbox.lookup oldRk with
  | none =>
    have hsame : (r.migrateIdentity oldRk newUid).userMailbox = r.userMailbox := by
      rw [hmailbox, moveMailbox, hmails]
    refine ⟨?_, fun key queue hqueue => ?_⟩
    · rw [hsame, map_contents_of_vacant hmails]
    · have hkey : key ≠ oldRk := by
        rintro rfl
        rw [hmails] at hqueue
        cases hqueue
      rw [hsame, migrated, if_neg hkey, hqueue, Option.getD_some]
  | some mails =>
    have hmoved : (r.migrateIdentity oldRk newUid).userMailbox =
        upsert newUid [] (· ++ mails) (r.userMailbox.erase oldRk) := by
      rw [hmailbox, moveMailbox, hmails]
    refine ⟨?_, fun key queue hqueue => ?_⟩
    · have hold := (contents_erase hmails).map fun p => (migrated oldRk newUid p.1, p.2)
      rw [List.map_append, map_contents_of_vacant hvacant, List.map_map] at hold
      have hnew : mails.map ((fun p => (migrated oldRk newUid p.1, p.2)) ∘ (oldRk, ·)) =
          mails.map (newUid, ·) := by
        simp [Function.comp_def, migrated]
      rw [hnew] at hold
      rw [hmoved]
      exact ((contents_upsert mails).trans List.perm_append_comm).trans hold.symm
    · rw [hmoved, lookup_upsert, lookup_erase_eq, lookup_erase_eq, if_neg (Ne.symm hne), migrated]
      by_cases hkey : key = oldRk
      · obtain rfl : mails = queue := by
          rw [hkey, hmails] at hqueue
          exact Option.some.inj hqueue
        rw [if_pos hkey, if_pos rfl]
        exact List.sublist_append_right ..
      · rw [if_neg hkey, if_neg hkey]
        split_ifs with hnew
        · rw [← hnew, hqueue]
          exact List.sublist_append_left ..
        · rw [hqueue, Option.getD_some]

/-- **`rekey_legacy_to`** puts the queues of a new key one behind the other. -/
lemma mailsMerged_rekeyLegacyTo (r : UserTables M) :
    MailsMerged (rekeyed target) r (r.rekeyLegacyTo target) := by
  have hmailbox : (r.rekeyLegacyTo target).userMailbox =
      if (rekeyedMail target r.userMailbox).isEmpty then r.userMailbox
      else appendAll (rekeyedMail target r.userMailbox) ∅ := rfl
  by_cases hempty : (rekeyedMail target r.userMailbox).isEmpty = true
  · have hlist : toList r.userMailbox = [] := by
      rw [List.isEmpty_iff, rekeyedMail, List.map_eq_nil_iff] at hempty
      exact hempty
    rw [if_pos hempty] at hmailbox
    refine ⟨?_, fun key queue hqueue => ?_⟩
    · rw [hmailbox, contents, hlist]
      exact List.Perm.nil
    · rw [← mem_toList, hlist] at hqueue
      cases hqueue
  · rw [if_neg hempty] at hmailbox
    refine ⟨?_, fun key queue hqueue => ?_⟩
    · have hall := contents_appendAll (rekeyedMail target r.userMailbox) ∅
      rw [hmailbox]
      refine hall.trans (List.Perm.of_eq ?_)
      have hempty : contents (∅ : Table String (List M)) = [] := rfl
      rw [hempty, List.nil_append, rekeyedMail, List.flatMap_map, contents, List.map_flatMap]
      simp [Function.comp_def]
    · rw [hmailbox, lookup_appendAll, List.flatMap_def]
      refine List.Sublist.trans (List.sublist_flatten_of_mem ?_) (List.sublist_append_right ..)
      refine List.mem_map.2 ⟨(rekeyed target key, queue), List.mem_filter.2 ⟨?_, ?_⟩, rfl⟩
      · exact List.mem_map.2 ⟨(key, queue), mem_toList.2 hqueue, rfl⟩
      · exact decide_eq_true rfl

/-! ## The contacts -/

/-- The entries after a migration, for two different users. -/
lemma contacts_migrateIdentity (c : Contacts) (hne : oldRk ≠ newUid) (hxy : x ≠ y) :
    c.migrateIdentity oldRk newUid (x, y) = if x = oldRk ∨ y = oldRk then none
      else if x = newUid then (c (newUid, y)).or (c (oldRk, y))
      else if y = newUid then (c (x, newUid)).or (c (x, oldRk)) else c (x, y) := by
  rw [Contacts.migrateIdentity, if_neg hne]
  unfold Contacts.foldPeer Contacts.foldOwner
  have hne' : newUid ≠ oldRk := Ne.symm hne
  by_cases hold : y = oldRk
  · simp [hold]
  · by_cases hx : x = oldRk
    · simp [hx, hold]
    · by_cases hnew : x = newUid
      · have hy : ¬y = newUid := fun hy => hxy (hnew.trans hy.symm)
        simp [hnew, hold, hy, hne']
      · simp [hx, hold, hnew]

/-- Moving an entry makes no owner. -/
lemma notMem_movePeer (h : oldRk ∉ contacts) : oldRk ∉ (movePeer oldRk newUid contacts owner).1 := by
  unfold movePeer
  cases hmap : contacts.lookup owner with
  | none => exact h
  | some map =>
    cases hentry : map.lookup oldRk with
    | none =>
      dsimp only
      rw [hentry]
      exact h
    | some e =>
      dsimp only
      rw [hentry]
      dsimp only
      rw [AList.mem_insert]
      rintro (hold | hold)
      · exact h (hold ▸ AList.lookup_isSome.1 (hmap ▸ rfl))
      · exact h hold

/-- No table under the old key is left. -/
lemma notMem_migrateIdentity (r : UserTables M) (hne : oldRk ≠ newUid) :
    oldRk ∉ (r.migrateIdentity oldRk newUid).contacts := by
  have hcontacts : (r.migrateIdentity oldRk newUid).contacts =
      (movePeers oldRk newUid (moveOwner oldRk newUid r.contacts).1).1 := by
    unfold migrateIdentity
    rw [if_neg hne]
  have howner : oldRk ∉ (moveOwner oldRk newUid r.contacts).1 := by
    unfold moveOwner
    cases hown : r.contacts.lookup oldRk with
    | none => exact AList.lookup_eq_none.1 hown
    | some own =>
      dsimp only
      rw [upsert, AList.mem_insert, AList.mem_erase]
      rintro (hold | hold)
      · exact hne hold
      · exact hold.1 rfl
  rw [hcontacts, movePeers, movePeers_fst]
  generalize affected oldRk (moveOwner oldRk newUid r.contacts).1 = owners
  generalize (moveOwner oldRk newUid r.contacts).1 = contacts at howner ⊢
  induction owners generalizing contacts with
  | nil => exact howner
  | cons owner owners ih => exact ih _ (notMem_movePeer howner)

/-- **A migration** leaves no contact under the old key, and no relationship of two users out. -/
lemma contactsMerged_migrateIdentity (r : UserTables M) :
    ContactsMerged (migrated oldRk newUid) r (r.migrateIdentity oldRk newUid) := by
  by_cases hne : oldRk = newUid
  · have hsame (key : String) : migrated oldRk newUid key = key := by
      rw [migrated]
      split_ifs with hkey
      · rw [hkey, hne]
      · rfl
    rw [migrateIdentity, if_pos hne]
    refine ⟨fun x hx => absurd (hsame x) hx, fun x y hy => absurd (hsame y) hy, ?_, ?_⟩
    · intro x y e he _
      rw [hsame, hsame, he]
      exact nofun
    · exact fun x y e he _ => ⟨x, y, hsame x, hsame y, he⟩
  have hretired {key : String} (hkey : migrated oldRk newUid key ≠ key) : key = oldRk := by
    by_contra hno
    exact hkey (if_neg hno)
  refine ⟨fun x hx => ?_, fun x y hy => ?_, fun x y e he hxy => ?_, fun x y e he hxy => ?_⟩
  · rw [hretired hx]
    exact notMem_migrateIdentity r hne
  · rw [entry_migrateIdentity, Contacts.migrateIdentity, if_neg hne]
    exact if_pos (hretired hy)
  · rw [entry_migrateIdentity, contacts_migrateIdentity _ hne hxy]
    unfold migrated at hxy ⊢
    grind
  · rw [entry_migrateIdentity, contacts_migrateIdentity _ hne hxy] at he
    have hold : migrated oldRk newUid oldRk = newUid := if_pos rfl
    have hkept {key : String} (hkey : key ≠ oldRk) : migrated oldRk newUid key = key := if_neg hkey
    split_ifs at he with hgone hx hy
    · obtain ⟨hx', hy'⟩ := not_or.1 hgone
      rcases Option.or_eq_some_iff.1 he with he | ⟨-, he⟩
      · exact ⟨newUid, y, (hkept (Ne.symm hne)).trans hx.symm, hkept hy', he⟩
      · exact ⟨oldRk, y, hold.trans hx.symm, hkept hy', he⟩
    · obtain ⟨hx', hy'⟩ := not_or.1 hgone
      rcases Option.or_eq_some_iff.1 he with he | ⟨-, he⟩
      · exact ⟨x, newUid, hkept hx', (hkept (Ne.symm hne)).trans hy.symm, he⟩
      · exact ⟨x, oldRk, hkept hx', hold.trans hy.symm, he⟩
    · obtain ⟨hx', hy'⟩ := not_or.1 hgone
      exact ⟨x, y, hkept hx', hkept hy', he⟩

/-- A key that has become another one stays. -/
lemma rekeyed_rekeyed (key : String) : rekeyed target (rekeyed target key) = rekeyed target key := by
  unfold rekeyed
  split_ifs <;> rfl

/-- The owners that `rekey_legacy_to` writes are those of its list. -/
lemma mem_foldl_putContact {l : List ((String × String) × ContactEntry)}
    (h : x ∈ l.foldl putContact contacts) : x ∈ contacts ∨ ∃ p ∈ l, p.1.1 = x := by
  induction l generalizing contacts with
  | nil => exact .inl h
  | cons p l ih =>
    rcases ih h with hput | ⟨p', hp', rfl⟩
    · rw [putContact, upsert, AList.mem_insert] at hput
      rcases hput with rfl | hput
      · exact .inr ⟨p, List.mem_cons_self, rfl⟩
      · exact .inl hput
    · exact .inr ⟨p', List.mem_cons_of_mem p hp', rfl⟩

/-- **`rekey_legacy_to`** leaves no contact under a retired key, and no relationship of two users
out, if there is an entry to write. -/
lemma contactsMerged_rekeyLegacyTo (r : UserTables M)
    (hwrite : rekeyedContacts target r.contacts ≠ []) :
    ContactsMerged (rekeyed target) r (r.rekeyLegacyTo target) := by
  refine ⟨fun x hx hmem => ?_, fun x y hy => ?_, fun x y e he hxy => ?_, fun x y e he hxy => ?_⟩
  · have hcontacts : (r.rekeyLegacyTo target).contacts =
        (rekeyedContacts target r.contacts).foldl putContact ∅ := by
      show (if _ then _ else _) = _
      rw [if_neg (by simpa using hwrite)]
    rw [hcontacts] at hmem
    rcases mem_foldl_putContact hmem with hnone | ⟨p, hp, rfl⟩
    · exact AList.notMem_empty x hnone
    · obtain ⟨p', -, rfl⟩ := List.mem_map.1 (List.mem_filter.1 hp).1
      exact hx (rekeyed_rekeyed _)
  · rw [entry_rekeyLegacyTo r hwrite]
    split_ifs with hself
    · rfl
    · rw [Option.map_eq_none_iff, List.find?_eq_none]
      rintro p - hp
      rw [decide_eq_true_eq, Prod.mk.injEq] at hp
      exact hy (hp.2 ▸ rekeyed_rekeyed p.1.2)
  · rw [entry_rekeyLegacyTo r hwrite, if_neg hxy]
    intro hnone
    rw [Option.map_eq_none_iff, List.find?_eq_none] at hnone
    exact hnone ((x, y), e) (mem_flatContacts.2 he) (decide_eq_true rfl)
  · rw [entry_rekeyLegacyTo r hwrite, if_neg hxy, Option.map_eq_some_iff] at he
    obtain ⟨⟨⟨x', y'⟩, e'⟩, hfind, rfl⟩ := he
    have hkeys := List.find?_some hfind
    rw [decide_eq_true_eq, Prod.mk.injEq] at hkeys
    exact ⟨x', y', hkeys.1, hkeys.2, mem_flatContacts.1 (List.mem_of_find?_eq_some hfind)⟩

/-! ## What both merges keep -/

/-- An entry of two users that is written by `rekey_legacy_to`. -/
lemma rekeyedContacts_ne_nil {e : ContactEntry} (he : entry contacts (x, y) = some e)
    (hxy : rekeyed target x ≠ rekeyed target y) : rekeyedContacts target contacts ≠ [] := by
  refine List.ne_nil_of_mem (a := ((rekeyed target x, rekeyed target y), e))
    (List.mem_filter.2 ⟨?_, ?_⟩)
  · exact List.mem_map.2 ⟨((x, y), e), mem_flatContacts.2 he, rfl⟩
  · exact decide_eq_true hxy

/-- **Identity merging loses no mail and no relationship of two users**.  In a migration the entry
of the merged identity stays, if it has one; `rekey_legacy_to` keeps the entry that it meets first,
and no entry of a user for itself. -/
theorem merge_keeps (r : UserTables M) :
    (∀ oldRk newUid, MailsMerged (migrated oldRk newUid) r (r.migrateIdentity oldRk newUid) ∧
      ContactsMerged (migrated oldRk newUid) r (r.migrateIdentity oldRk newUid) ∧
      ∀ x y e, entry r.contacts (x, y) = some e → x ≠ y → migrated oldRk newUid x = x →
        migrated oldRk newUid y = y →
        entry (r.migrateIdentity oldRk newUid).contacts (x, y) = some e) ∧
    ∀ target, MailsMerged (rekeyed target) r (r.rekeyLegacyTo target) ∧
      ((∃ x y, entry r.contacts (x, y) ≠ none ∧ rekeyed target x ≠ rekeyed target y) →
        ContactsMerged (rekeyed target) r (r.rekeyLegacyTo target) ∧
        (∀ x, entry (r.rekeyLegacyTo target).contacts (x, x) = none) ∧
        ∀ x y, x ≠ y → entry (r.rekeyLegacyTo target).contacts (x, y) =
          ((flatContacts r.contacts).find? fun p =>
            (rekeyed target p.1.1, rekeyed target p.1.2) = (x, y)).map (·.2)) := by
  refine ⟨fun oldRk newUid => ⟨mailsMerged_migrateIdentity r, contactsMerged_migrateIdentity r, ?_⟩,
    fun target => ⟨mailsMerged_rekeyLegacyTo r, ?_⟩⟩
  · intro x y e he hxy hx hy
    rw [entry_migrateIdentity]
    by_cases hne : oldRk = newUid
    · rw [Contacts.migrateIdentity, if_pos hne, he]
    · rw [contacts_migrateIdentity _ hne hxy]
      unfold migrated at hx hy
      grind
  · rintro ⟨x, y, hentry, hxy⟩
    obtain ⟨e, he⟩ := Option.ne_none_iff_exists'.1 hentry
    have hwrite := rekeyedContacts_ne_nil he hxy
    refine ⟨contactsMerged_rekeyLegacyTo r hwrite, fun x => ?_, fun x y hxy => ?_⟩
    · rw [entry_rekeyLegacyTo r hwrite, if_pos rfl]
    · rw [entry_rekeyLegacyTo r hwrite, if_neg hxy]

/-- A contact with a status, asked for by its owner. -/
private def contact (status : ContactStatus) : ContactEntry := ⟨status, .outward, 0, 0, 0⟩

/-- Two accounts, of which the first has blocked `t:bob`, and the second is his friend. -/
private def twoAccounts (first second : String) : UserTables ℕ :=
  ⟨((∅ : Table String ContactMap).insert first ((∅ : ContactMap).insert "t:bob" (contact .blocked))).insert
    second ((∅ : ContactMap).insert "t:bob" (contact .accepted)), ∅, false⟩

/-- **A merge hides a block** behind the entry of the merged identity, or behind one that is met
first; and entries of the merged users for each other become ones of a user for itself, or are not
merged. -/
theorem merge_hides_block :
    (entry (twoAccounts "t:al" "t:alice").contacts).status "t:al" "t:bob" = some .blocked ∧
    (entry ((twoAccounts "t:al" "t:alice").migrateIdentity "t:al" "t:alice").contacts).status
      "t:alice" "t:bob" = some .accepted ∧
    (entry (twoAccounts "al" "alice").contacts).status "al" "t:bob" = some .blocked ∧
    (entry ((twoAccounts "al" "alice").rekeyLegacyTo "t:root").contacts).status
      "t:root" "t:bob" = some .accepted ∧
    entry ((twoAccounts "t:al" "t:alice").migrateIdentity "t:alice" "t:bob").contacts
      ("t:bob", "t:bob") ≠ none ∧
    "al" ∈ ((⟨(∅ : Table String ContactMap).insert "al" ((∅ : ContactMap).insert "bob" (contact .accepted)),
      ∅, false⟩ : UserTables ℕ).rekeyLegacyTo "t:root").contacts := by
  decide

end UserTables

end MyClaw
