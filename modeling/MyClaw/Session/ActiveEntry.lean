import MyClaw.Session.Table
import MyClaw.Lib.Run
import Mathlib.Data.List.Nodup

set_option autoImplicit false

/-!
# The active session of a routing key

Routing keys of one user can be linked, and a linked key may switch to a session of another.  So an
active entry names a session of the same user.  A sub-session has the owner of its parent: an entry
can come to name one when a switch asks for it, or when the session that a linked key deletes is
active and the latest remaining session of its owner is a sub-session.

## Main definitions

* `ActiveNamesSession` — every active entry names a session of the same user.
* `NoActiveSub` — no active entry names a sub-session.
* `SparesSubs` — no switch and no deletion chooses a sub-session.
* `SessionTransition` — the operations by their checks.

## Main results

* `activeNamesSession_always` — the first holds in every state of every run, the second in
  every state of a run whose operations choose no sub-session.
-/

namespace MyClaw

/-- Every active entry names an existing session whose owner is the same user as the key. -/
def ActiveNamesSession (resolve : String → String) (t : SessionTable) : Prop :=
  ∀ key id, t.active key = some id →
    ∃ e ∈ t.sessions, e.id = id ∧ resolve e.owner = resolve key

/-- Every active entry names an existing top-level session that the key itself owns. -/
def ActiveOwnsTopLevel (t : SessionTable) : Prop :=
  ∀ key id, t.active key = some id →
    ∃ e ∈ t.sessions, e.id = id ∧ e.owner = key ∧ e.parentSessionId = none

/-- No active entry names a sub-session. -/
def NoActiveSub (t : SessionTable) : Prop :=
  ∀ key, ∀ e ∈ t.sessions, t.active key = some e.id → e.parentSessionId = none

/-- The sessions that remain when a session and its sub-sessions are deleted. -/
def SessionTable.remaining (t : SessionTable) (id : String) : SessionTable :=
  { t with sessions := t.sessions.filter fun e => e.id ≠ id ∧ e.parentSessionId ≠ some id }

/-- A switch names no sub-session; and when a deletion takes the active session of another key of the
user, the latest remaining session of that key, if there is one, is a top-level session. -/
def SparesSubs (resolve : String → String) (t : SessionTable) : SessionEvent → Prop
  | .switchSession key id =>
    ∀ e ∈ t.getSession id, resolve e.owner = resolve key → e.parentSessionId = none
  | .deleteSession key id =>
    ∀ other, other ≠ key → resolve other = resolve key → t.active other = some id →
      ∀ e ∈ ((t.remaining id).listSessions other).head?, e.parentSessionId = none
  | _ => True

/-! ## Replaced entries -/

section

variable {α β : Type*} {p : α → Bool} {f : α → α}

/-- An update that keeps a field keeps all of them. -/
lemma map_updateFirst {g : α → β} (h : ∀ a, g (f a) = g a) (l : List α) :
    (updateFirst p f l).map g = l.map g := by
  induction l with
  | nil => rfl
  | cons a l ih =>
    unfold updateFirst
    split_ifs
    · simp [h]
    · simp [ih]

/-- An entry after an update is an old or an updated one. -/
lemma mem_updateFirst {l : List α} {b : α} (h : b ∈ updateFirst p f l) :
    b ∈ l ∨ ∃ a ∈ l, p a = true ∧ b = f a := by
  induction l with
  | nil => simp [updateFirst] at h
  | cons a l ih =>
    unfold updateFirst at h
    split_ifs at h with hp
    · rcases List.mem_cons.1 h with rfl | h
      · exact .inr ⟨a, List.mem_cons_self, hp, rfl⟩
      · exact .inl (List.mem_cons_of_mem _ h)
    · rcases List.mem_cons.1 h with rfl | h
      · exact .inl List.mem_cons_self
      · rcases ih h with h | ⟨a', ha', hp', rfl⟩
        · exact .inl (List.mem_cons_of_mem _ h)
        · exact .inr ⟨a', List.mem_cons_of_mem _ ha', hp', rfl⟩

end

/-! ## The invariant -/

namespace SessionTable

/-- The ids of the sessions with their owners. -/
def owners (t : SessionTable) : List (String × String) := t.sessions.map fun e => (e.id, e.owner)

/-- The owners of the ids are those of the entries. -/
lemma mem_owners {t : SessionTable} {id owner : String} :
    (id, owner) ∈ t.owners ↔ ∃ e ∈ t.sessions, e.id = id ∧ e.owner = owner := by
  simp [owners]

/-- The sessions of an owner. -/
lemma mem_listSessions {t : SessionTable} {owner : String} {e : SessionEntry} :
    e ∈ t.listSessions owner ↔ e ∈ t.sessions ∧ e.owner = owner := by
  simp [listSessions, byActivity]

end SessionTable

/-- What every operation keeps: active entries name sessions of the same user, every owner of a
session has an active entry, and the ids differ. -/
structure TableInv (resolve : String → String) (t : SessionTable) : Prop where
  names : ∀ key id, t.active key = some id →
    ∃ owner, (id, owner) ∈ t.owners ∧ resolve owner = resolve key
  hasActive : ∀ id owner, (id, owner) ∈ t.owners → t.active owner ≠ none
  nodup : (t.owners.map Prod.fst).Nodup

section

variable {resolve : String → String} {t : SessionTable}

/-- The invariant has the property in it. -/
lemma TableInv.activeNamesSession (h : TableInv resolve t) : ActiveNamesSession resolve t := by
  intro key id hactive
  obtain ⟨owner, hmem, howner⟩ := h.names key id hactive
  obtain ⟨e, he, hid, rfl⟩ := SessionTable.mem_owners.1 hmem
  exact ⟨e, he, hid, howner⟩

/-- Two sessions with one id are one. -/
lemma TableInv.eq_of_id_eq (h : TableInv resolve t) {a b : SessionEntry} (ha : a ∈ t.sessions)
    (hb : b ∈ t.sessions) (hid : a.id = b.id) : a = b := by
  have hnodup : (t.sessions.map (·.id)).Nodup := by
    have := h.nodup
    rwa [SessionTable.owners, List.map_map] at this
  exact List.inj_on_of_nodup_map hnodup ha hb hid

/-- An entry is found under its id. -/
lemma TableInv.getSession_eq (h : TableInv resolve t) {e : SessionEntry} (he : e ∈ t.sessions) :
    t.getSession e.id = some e := by
  cases hget : t.getSession e.id with
  | none =>
    have := List.find?_eq_none.1 hget e he
    simp at this
  | some a =>
    have hid : a.id = e.id := by simpa using List.find?_some hget
    rw [h.eq_of_id_eq (List.mem_of_find?_eq_some hget) he hid]

/-- What is found is an entry with the id. -/
lemma mem_of_getSession {id : String} {e : SessionEntry} (h : t.getSession id = some e) :
    e ∈ t.sessions ∧ e.id = id :=
  ⟨List.mem_of_find?_eq_some h, by simpa using List.find?_some h⟩

/-- The invariant depends on the ids, the owners and the active entries only. -/
lemma TableInv.congr (h : TableInv resolve t) {t' : SessionTable} (howners : t'.owners = t.owners)
    (hactive : t'.active = t.active) : TableInv resolve t' where
  names := by
    rw [howners, hactive]
    exact h.names
  hasActive := by
    rw [howners, hactive]
    exact h.hasActive
  nodup := by
    rw [howners]
    exact h.nodup

/-! ## Single operations -/

/-- An entry is pointed at a session of the same user. -/
lemma TableInv.setActive (h : TableInv resolve t) {key id owner : String}
    (hmem : (id, owner) ∈ t.owners) (howner : resolve owner = resolve key) :
    TableInv resolve (t.setActive key id) where
  names := by
    intro key' id' hactive
    by_cases hkey : key' = key
    · subst hkey
      have hid : id = id' := by simpa [SessionTable.setActive] using hactive
      exact ⟨owner, hid ▸ hmem, howner⟩
    · have hactive' : t.active key' = some id' := by
        simpa [SessionTable.setActive, hkey] using hactive
      exact h.names key' id' hactive'
  hasActive := by
    intro id' owner' hmem'
    by_cases hkey : owner' = key
    · simp [SessionTable.setActive, hkey]
    · simpa [SessionTable.setActive, hkey] using h.hasActive id' owner' hmem'
  nodup := h.nodup

/-- A new entry is inserted at its place. -/
lemma sessions_backendCreate (owner : String) (name : Option String) (fresh : FreshSession) :
    (t.backendCreate owner name fresh).sessions =
      t.sessions.insertIdx (min fresh.position t.sessions.length)
        { id := fresh.id, owner := owner, displayName := name, lastActivity := fresh.now } := by
  unfold SessionTable.backendCreate
  dsimp only
  split_ifs <;> rfl

/-- The entries are the old ones and the new one. -/
lemma mem_sessions_backendCreate {owner : String} {name : Option String} {fresh : FreshSession}
    {e : SessionEntry} : e ∈ (t.backendCreate owner name fresh).sessions ↔
      e = { id := fresh.id, owner := owner, displayName := name, lastActivity := fresh.now } ∨
        e ∈ t.sessions := by
  rw [sessions_backendCreate, List.mem_insertIdx (min_le_right _ _)]

/-- The first session of an owner becomes the active one. -/
lemma active_backendCreate (owner : String) (name : Option String) (fresh : FreshSession) :
    (t.backendCreate owner name fresh).active =
      if t.active owner = none then Function.update t.active owner (some fresh.id)
      else t.active := by
  unfold SessionTable.backendCreate
  dsimp only
  split_ifs <;> rfl

/-- The owners of the ids get the new one. -/
lemma owners_backendCreate_perm (owner : String) (name : Option String) (fresh : FreshSession) :
    (t.backendCreate owner name fresh).owners.Perm ((fresh.id, owner) :: t.owners) := by
  rw [SessionTable.owners, sessions_backendCreate]
  exact (List.perm_insertIdx _ _ (min_le_right _ _)).map _

/-- A fresh id is not in use. -/
lemma not_mem_of_isFresh {fresh : FreshSession} (hfresh : t.isFresh fresh = true)
    {e : SessionEntry} (he : e ∈ t.sessions) : e.id ≠ fresh.id := by
  simpa using List.all_eq_true.1 hfresh e he

/-- **A new session** of the backend. -/
lemma TableInv.backendCreate (h : TableInv resolve t) {fresh : FreshSession}
    (hfresh : t.isFresh fresh = true) (owner : String) (name : Option String) :
    TableInv resolve (t.backendCreate owner name fresh) := by
  have hperm := owners_backendCreate_perm (t := t) owner name fresh
  have hself : (fresh.id, owner) ∈ (t.backendCreate owner name fresh).owners :=
    hperm.mem_iff.2 List.mem_cons_self
  have hold : ∀ p, p ∈ t.owners → p ∈ (t.backendCreate owner name fresh).owners :=
    fun p hp => hperm.mem_iff.2 (List.mem_cons_of_mem _ hp)
  refine ⟨?_, ?_, ?_⟩
  · intro key id hactive
    rw [active_backendCreate] at hactive
    have hcase : (key = owner ∧ id = fresh.id) ∨ t.active key = some id := by
      split_ifs at hactive with hnone
      · by_cases hkey : key = owner
        · rw [hkey, Function.update_self] at hactive
          exact .inl ⟨hkey, (Option.some.inj hactive).symm⟩
        · rw [Function.update_of_ne hkey] at hactive
          exact .inr hactive
      · exact .inr hactive
    rcases hcase with ⟨rfl, rfl⟩ | hactive
    · exact ⟨key, hself, rfl⟩
    · obtain ⟨o, ho, hres⟩ := h.names key id hactive
      exact ⟨o, hold _ ho, hres⟩
  · intro id o hmem
    rw [active_backendCreate]
    by_cases ho : o = owner
    · subst ho
      split_ifs with hnone
      · simp
      · exact hnone
    · have hmem' : (id, o) ∈ t.owners := by
        rcases List.mem_cons.1 (hperm.mem_iff.1 hmem) with heq | hmem
        · exact absurd (Prod.mk.inj heq).2 ho
        · exact hmem
      split_ifs
      · rw [Function.update_of_ne ho]
        exact h.hasActive id o hmem'
      · exact h.hasActive id o hmem'
  · rw [(hperm.map Prod.fst).nodup_iff, List.map_cons, List.nodup_cons]
    refine ⟨?_, h.nodup⟩
    intro hmem
    obtain ⟨⟨id, o⟩, hp, hid⟩ := List.mem_map.1 hmem
    obtain ⟨e, he, rfl, -⟩ := SessionTable.mem_owners.1 hp
    exact not_mem_of_isFresh hfresh he hid

/-- A deletion takes the id out of the owners. -/
lemma owners_backendDelete (id : String) :
    (t.backendDelete id).owners = t.owners.filter (·.1 ≠ id) := by
  simp only [SessionTable.owners, SessionTable.backendDelete, List.filter_map]
  rfl

/-- **A deleted session**: an entry that named it is pointed at a session of its own key. -/
lemma TableInv.backendDelete (h : TableInv resolve t) (id : String) :
    TableInv resolve (t.backendDelete id) := by
  have howners := owners_backendDelete (t := t) id
  refine ⟨?_, ?_, ?_⟩
  · intro key id' hactive
    simp only [SessionTable.backendDelete] at hactive
    split_ifs at hactive with hid
    · obtain ⟨e, he, rfl⟩ := Option.map_eq_some_iff.1 hactive
      have hlist := SessionTable.mem_listSessions.1 (List.mem_of_find?_eq_some he)
      refine ⟨key, ?_, rfl⟩
      exact SessionTable.mem_owners.2 ⟨e, hlist.1, rfl, hlist.2⟩
    · obtain ⟨owner, hmem, hres⟩ := h.names key id' hactive
      refine ⟨owner, ?_, hres⟩
      rw [howners, List.mem_filter]
      refine ⟨hmem, ?_⟩
      have hne : id' ≠ id := fun heq => hid (heq ▸ hactive)
      simpa using hne
  · intro id' owner hmem
    rw [howners, List.mem_filter] at hmem
    obtain ⟨hmem, hne⟩ := hmem
    simp only [SessionTable.backendDelete]
    split_ifs with hid
    · obtain ⟨e, he, hid', howner⟩ := SessionTable.mem_owners.1 hmem
      have hlist : e ∈ SessionTable.listSessions
          { t with sessions := t.sessions.filter (·.id ≠ id) } owner := by
        refine SessionTable.mem_listSessions.2 ⟨List.mem_filter.2 ⟨he, ?_⟩, howner⟩
        rw [hid']
        simpa using hne
      intro hnone
      have hfind := List.find?_eq_none.1 (Option.map_eq_none_iff.1 hnone) e hlist
      rw [hid'] at hfind
      exact hfind hne
    · exact h.hasActive id' owner hmem
  · rw [howners]
    exact h.nodup.sublist (List.filter_sublist.map _)

/-- Any number of deletions keeps the invariant. -/
lemma TableInv.foldl_backendDelete (h : TableInv resolve t) (subs : List SessionEntry) :
    TableInv resolve (subs.foldl (fun t sub => t.backendDelete sub.id) t) := by
  induction subs generalizing t with
  | nil => exact h
  | cons sub subs ih => exact ih (h.backendDelete sub.id)

/-- The parent of a session is not its owner. -/
lemma owners_saveParent (id parent agentName : String) :
    (t.saveParent id parent agentName).owners = t.owners := by
  rw [SessionTable.owners, SessionTable.saveParent]
  exact map_updateFirst (fun _ => by rfl) _

/-- Nor is the time of its last use. -/
lemma owners_touch (id : String) (now : Nat) : (t.touch id now).owners = t.owners := by
  rw [SessionTable.owners, SessionTable.touch]
  exact map_updateFirst (fun _ => by rfl) _

/-- A deletion that is not refused. -/
lemma deleteSession_eq_ok {key id : String} {t' : SessionTable}
    (h : t.deleteSession resolve key id = .ok t') :
    t.active key ≠ some id ∧ (∃ e, t.getSession id = some e ∧ resolve e.owner = resolve key) ∧
      t' = ((t.listSubSessions id).foldl (fun t sub => t.backendDelete sub.id) t).backendDelete
        id := by
  unfold SessionTable.deleteSession at h
  split_ifs at h with hactive
  cases hget : t.getSession id with
  | none => simp [hget] at h
  | some info =>
    simp only [hget] at h
    split_ifs at h with howner
    exact ⟨hactive, ⟨info, rfl, not_not.1 howner⟩, (Except.ok.inj h).symm⟩

/-- A switch that is not refused. -/
lemma switchSession_eq_ok {key id : String} {t' : SessionTable}
    (h : t.switchSession resolve key id = .ok t') :
    ∃ e, t.getSession id = some e ∧ resolve e.owner = resolve key ∧ t' = t.setActive key id := by
  unfold SessionTable.switchSession at h
  cases hget : t.getSession id with
  | none => simp [hget] at h
  | some info =>
    simp only [hget] at h
    split_ifs at h with howner
    exact ⟨info, rfl, not_not.1 howner, (Except.ok.inj h).symm⟩

/-- What a new sub-session does when its parent is known. -/
lemma createSubSession_eq_ok {parent agentName : String} {fresh : FreshSession} {t' : SessionTable}
    (h : t.createSubSession parent agentName fresh = .ok t') :
    ∃ info, t.getSession parent = some info ∧
      t' = (t.backendCreate info.owner (some ("sub:" ++ parent ++ ":" ++ agentName))
        fresh).saveParent fresh.id parent agentName := by
  unfold SessionTable.createSubSession at h
  cases hget : t.getSession parent with
  | none => simp [hget] at h
  | some info =>
    simp only [hget] at h
    exact ⟨info, rfl, (Except.ok.inj h).symm⟩

/-- A new session of a user keeps the invariant. -/
lemma TableInv.newSession (h : TableInv resolve t) {fresh : FreshSession}
    (hfresh : t.isFresh fresh = true) (key : String) (name : Option String) :
    TableInv resolve ((t.backendCreate key name fresh).setActive key fresh.id) :=
  (h.backendCreate hfresh key name).setActive
    ((owners_backendCreate_perm key name fresh).mem_iff.2 List.mem_cons_self) rfl

/-- **An operation by its checks**: it is accepted, or the table stays as it is. -/
inductive SessionTransition (resolve : String → String) (t : SessionTable) :
    SessionEvent → SessionTable → Prop
  | newSession (key : String) (name : Option String) {fresh : FreshSession}
      (hfresh : t.isFresh fresh = true) : SessionTransition resolve t (.newSession key name fresh)
      ((t.backendCreate key name fresh).setActive key fresh.id)
  | switchSession {key id : String} {info : SessionEntry} (hget : t.getSession id = some info)
      (howner : resolve info.owner = resolve key) :
      SessionTransition resolve t (.switchSession key id) (t.setActive key id)
  | deleteSession {key id : String} {info : SessionEntry} (hactive : t.active key ≠ some id)
      (hget : t.getSession id = some info) (howner : resolve info.owner = resolve key) :
      SessionTransition resolve t (.deleteSession key id)
      (((t.listSubSessions id).foldl (fun t sub => t.backendDelete sub.id) t).backendDelete id)
  | createSubSession {parent : String} (agentName : String) {fresh : FreshSession}
      {info : SessionEntry} (hfresh : t.isFresh fresh = true)
      (hget : t.getSession parent = some info) :
      SessionTransition resolve t (.createSubSession parent agentName fresh)
      ((t.backendCreate info.owner (some ("sub:" ++ parent ++ ":" ++ agentName)) fresh).saveParent
        fresh.id parent agentName)
  | getOrCreate (key : String) {fresh : FreshSession} (hfresh : t.isFresh fresh = true) :
      SessionTransition resolve t (.getOrCreate key fresh)
      ((t.backendCreate key none fresh).setActive key fresh.id)
  | touch (id : String) (now : Nat) : SessionTransition resolve t (.touch id now) (t.touch id now)
  | refused (e : SessionEvent) : SessionTransition resolve t e t

/-- Every operation is one of these. -/
theorem sessionTransition_sessionStep (resolve : String → String) (t : SessionTable)
    (e : SessionEvent) : SessionTransition resolve t e (sessionStep resolve t e) := by
  cases e with
  | newSession key name fresh =>
    unfold sessionStep
    dsimp only
    split_ifs with hfresh
    · exact .newSession key name hfresh
    · exact .refused _
  | switchSession key id =>
    unfold sessionStep
    dsimp only
    cases hok : t.switchSession resolve key id with
    | error => exact .refused _
    | ok t' =>
      obtain ⟨info, hget, howner, rfl⟩ := switchSession_eq_ok hok
      exact .switchSession hget howner
  | deleteSession key id =>
    unfold sessionStep
    dsimp only
    cases hok : t.deleteSession resolve key id with
    | error => exact .refused _
    | ok t' =>
      obtain ⟨hactive, ⟨info, hget, howner⟩, rfl⟩ := deleteSession_eq_ok hok
      exact .deleteSession hactive hget howner
  | createSubSession parent agentName fresh =>
    unfold sessionStep
    dsimp only
    split_ifs with hfresh
    · cases hok : t.createSubSession parent agentName fresh with
      | error => exact .refused _
      | ok t' =>
        obtain ⟨info, hget, rfl⟩ := createSubSession_eq_ok hok
        exact .createSubSession agentName hfresh hget
    · exact .refused _
  | getOrCreate key fresh =>
    unfold sessionStep SessionTable.getOrCreate
    dsimp only
    split_ifs with hfresh
    · cases t.active key with
      | none => exact .getOrCreate key hfresh
      | some id => exact .refused _
    · exact .refused _
  | touch id now => exact .touch id now

/-- So does every transition. -/
lemma TableInv.transition (h : TableInv resolve t) {e : SessionEvent} {t' : SessionTable}
    (ht : SessionTransition resolve t e t') : TableInv resolve t' := by
  cases ht with
  | newSession key name hfresh => exact h.newSession hfresh key name
  | @switchSession key id info hget howner =>
    obtain ⟨hmem, hid⟩ := mem_of_getSession hget
    exact h.setActive (SessionTable.mem_owners.2 ⟨info, hmem, hid, rfl⟩) howner
  | deleteSession hactive hget howner => exact (h.foldl_backendDelete _).backendDelete _
  | @createSubSession parent agentName fresh info hfresh hget =>
    exact (h.backendCreate hfresh info.owner _).congr (owners_saveParent ..) rfl
  | getOrCreate key hfresh => exact h.newSession hfresh key none
  | touch id now => exact h.congr (owners_touch id now) rfl
  | refused => exact h

/-- **Every operation keeps the invariant.** -/
theorem TableInv.step (h : TableInv resolve t) (e : SessionEvent) :
    TableInv resolve (sessionStep resolve t e) :=
  h.transition (sessionTransition_sessionStep resolve t e)

end

/-! ## Sub-sessions -/

section

variable {resolve : String → String} {t : SessionTable}

/-- A new session of the backend has no parent. -/
lemma NoActiveSub.backendCreate (h : NoActiveSub t) {fresh : FreshSession}
    (hfresh : t.isFresh fresh = true) (owner : String) (name : Option String) :
    NoActiveSub (t.backendCreate owner name fresh) := by
  intro key e he hactive
  rcases mem_sessions_backendCreate.1 he with rfl | he
  · rfl
  · rw [active_backendCreate] at hactive
    split_ifs at hactive with hnone
    · by_cases hkey : key = owner
      · rw [hkey, Function.update_self] at hactive
        exact absurd (Option.some.inj hactive).symm (not_mem_of_isFresh hfresh he)
      · rw [Function.update_of_ne hkey] at hactive
        exact h key e he hactive
    · exact h key e he hactive

/-- An entry is pointed at a session without a parent. -/
lemma NoActiveSub.setActive (h : NoActiveSub t) {key id : String}
    (htop : ∀ e ∈ t.sessions, e.id = id → e.parentSessionId = none) :
    NoActiveSub (t.setActive key id) := by
  intro key' e he hactive
  by_cases hkey : key' = key
  · subst hkey
    have hid : id = e.id := by simpa [SessionTable.setActive] using hactive
    exact htop e he hid.symm
  · have hactive' : t.active key' = some e.id := by
      simpa [SessionTable.setActive, hkey] using hactive
    exact h key' e he hactive'

/-- A new session of a user is no sub-session. -/
lemma NoActiveSub.newSession (h : NoActiveSub t) {fresh : FreshSession}
    (hfresh : t.isFresh fresh = true) (key : String) (name : Option String) :
    NoActiveSub ((t.backendCreate key name fresh).setActive key fresh.id) := by
  refine (h.backendCreate hfresh key name).setActive ?_
  intro e he hid
  rcases mem_sessions_backendCreate.1 he with rfl | he
  · rfl
  · exact absurd hid (not_mem_of_isFresh hfresh he)

/-- **A sub-session does not become active**: its owner has an active session already. -/
lemma NoActiveSub.createSub (h : NoActiveSub t) (hinv : TableInv resolve t) {fresh : FreshSession}
    (hfresh : t.isFresh fresh = true) {info : SessionEntry} (hinfo : info ∈ t.sessions)
    (name : Option String) (parent agentName : String) :
    NoActiveSub ((t.backendCreate info.owner name fresh).saveParent fresh.id parent agentName) := by
  have hactive₀ : (t.backendCreate info.owner name fresh).active = t.active := by
    rw [active_backendCreate, if_neg]
    exact hinv.hasActive info.id info.owner (SessionTable.mem_owners.2 ⟨info, hinfo, rfl, rfl⟩)
  intro key e he hactive
  have hold : t.active key = some e.id := by
    rw [← hactive₀]
    exact hactive
  -- an active entry names an older session, which the saved parent does not touch
  obtain ⟨owner, hmem, -⟩ := hinv.names key e.id hold
  obtain ⟨a, ha, hid, -⟩ := SessionTable.mem_owners.1 hmem
  have hne : e.id ≠ fresh.id := hid ▸ not_mem_of_isFresh hfresh ha
  rcases mem_updateFirst he with he | ⟨b, -, hb, rfl⟩
  · rcases mem_sessions_backendCreate.1 he with rfl | he
    · exact absurd rfl hne
    · exact h key e he hold
  · exact absurd (by simpa using hb) hne

/-- A session that no entry names is deleted. -/
lemma backendDelete_of_not_active {id : String} (h : ∀ key, t.active key ≠ some id) :
    t.backendDelete id = { t with sessions := t.sessions.filter (·.id ≠ id) } := by
  unfold SessionTable.backendDelete
  simp [h]

/-- Sessions that no entry names are deleted one after the other. -/
lemma foldl_backendDelete_of_not_active (subs : List SessionEntry)
    (h : ∀ sub ∈ subs, ∀ key, t.active key ≠ some sub.id) :
    subs.foldl (fun t sub => t.backendDelete sub.id) t =
      { t with sessions := t.sessions.filter fun e => e.id ∉ subs.map (·.id) } := by
  induction subs generalizing t with
  | nil => simp
  | cons sub subs ih =>
    rw [List.foldl_cons, backendDelete_of_not_active (h sub List.mem_cons_self)]
    have hrest := ih (t := { t with sessions := t.sessions.filter (·.id ≠ sub.id) })
      fun s hs => h s (List.mem_cons_of_mem _ hs)
    refine hrest.trans ?_
    simp only [List.filter_filter]
    congr 1
    refine List.filter_congr fun e _ => ?_
    simp only [List.map_cons, List.mem_cons, not_or, Bool.decide_and]
    exact Bool.and_comm _ _

/-- The sub-sessions of a session. -/
lemma TableInv.mem_listSubSessions (hinv : TableInv resolve t) {id : String} {e : SessionEntry} :
    e ∈ t.listSubSessions id ↔ e ∈ t.sessions ∧ e.parentSessionId = some id := by
  simp only [SessionTable.listSubSessions, SessionTable.byActivity, List.mem_filter,
    List.mem_mergeSort, decide_eq_true_eq]
  refine and_congr_right fun he => ?_
  rw [hinv.getSession_eq he]
  rfl

/-- **A deletion as a whole**: the session and its sub-sessions go, and an entry that named the
session is pointed at the latest remaining session of its key. -/
lemma NoActiveSub.cascade_eq (h : NoActiveSub t) (hinv : TableInv resolve t) (id : String) :
    ((t.listSubSessions id).foldl (fun t sub => t.backendDelete sub.id) t).backendDelete id =
      { t.remaining id with
        active := fun owner =>
          if t.active owner = some id then
            (((t.remaining id).listSessions owner).head?).map (·.id)
          else t.active owner } := by
  have hsubs : ∀ sub ∈ t.listSubSessions id, ∀ key, t.active key ≠ some sub.id := by
    intro sub hsub key hactive
    obtain ⟨hmem, hparent⟩ := hinv.mem_listSubSessions.1 hsub
    rw [h key sub hmem hactive] at hparent
    cases hparent
  have hsessions : (t.sessions.filter fun e => e.id ∉ (t.listSubSessions id).map (·.id)).filter
      (fun e => decide (e.id ≠ id)) = (t.remaining id).sessions := by
    rw [List.filter_filter]
    refine List.filter_congr fun e he => ?_
    have hiff : e.id ∈ (t.listSubSessions id).map (·.id) ↔ e.parentSessionId = some id := by
      constructor
      · intro hmem
        obtain ⟨sub, hsub, hid⟩ := List.mem_map.1 hmem
        obtain ⟨hsub, hparent⟩ := hinv.mem_listSubSessions.1 hsub
        rwa [← hinv.eq_of_id_eq hsub he hid]
      · intro hparent
        exact List.mem_map.2 ⟨e, hinv.mem_listSubSessions.2 ⟨he, hparent⟩, rfl⟩
    simp [hiff]
  rw [foldl_backendDelete_of_not_active _ hsubs]
  unfold SessionTable.backendDelete
  dsimp only
  rw [hsessions]
  have hlist : ∀ owner, ((t.remaining id).listSessions owner).find? (fun e => decide (e.id ≠ id)) =
      ((t.remaining id).listSessions owner).head? := by
    intro owner
    cases hl : (t.remaining id).listSessions owner with
    | nil => rfl
    | cons e l =>
      have he : e ∈ (t.remaining id).listSessions owner := hl ▸ List.mem_cons_self
      have hmem := (SessionTable.mem_listSessions.1 he).1
      have hne : e.id ≠ id := by
        have := (List.mem_filter.1 hmem).2
        simp only [decide_eq_true_eq] at this
        exact this.1
      simp [hne]
  rw [SessionTable.mk.injEq]
  refine ⟨rfl, ?_⟩
  funext owner
  have := hlist owner
  simp only [SessionTable.listSessions] at this ⊢
  rw [this]

/-- A deletion that chooses no sub-session. -/
lemma NoActiveSub.deleteSession (h : NoActiveSub t) (hinv : TableInv resolve t) {key id : String}
    {info : SessionEntry} (hnot : t.active key ≠ some id) (hget : t.getSession id = some info)
    (howner : resolve info.owner = resolve key)
    (hspares : SparesSubs resolve t (.deleteSession key id)) :
    NoActiveSub (((t.listSubSessions id).foldl (fun t sub => t.backendDelete sub.id) t).backendDelete
      id) := by
  rw [h.cascade_eq hinv id]
  intro other e he hactive
  have hmem : e ∈ t.sessions := (List.mem_filter.1 he).1
  dsimp only at hactive
  split_ifs at hactive with hother
  · obtain ⟨a, ha, hid⟩ := Option.map_eq_some_iff.1 hactive
    have hlist := SessionTable.mem_listSessions.1 (List.mem_of_head? ha)
    obtain rfl : a = e := hinv.eq_of_id_eq (List.mem_filter.1 hlist.1).1 hmem hid
    -- the deleted session belongs to the user of both keys
    obtain ⟨o, ho, hres⟩ := hinv.names other id hother
    obtain ⟨b, hb, hbid, rfl⟩ := SessionTable.mem_owners.1 ho
    obtain ⟨hinfo, hinfoid⟩ := mem_of_getSession hget
    obtain rfl : b = info := hinv.eq_of_id_eq hb hinfo (hbid.trans hinfoid.symm)
    refine hspares other ?_ (hres.symm.trans howner) hother a ha
    rintro rfl
    exact hnot hother
  · exact h other e hmem hactive

/-- No step that spares the sub-sessions makes one active. -/
lemma NoActiveSub.transition (h : NoActiveSub t) (hinv : TableInv resolve t) {e : SessionEvent}
    {t' : SessionTable} (ht : SessionTransition resolve t e t') (hspares : SparesSubs resolve t e) :
    NoActiveSub t' := by
  cases ht with
  | newSession key name hfresh => exact h.newSession hfresh key name
  | @switchSession key id info hget howner =>
    obtain ⟨hmem, hid⟩ := mem_of_getSession hget
    refine h.setActive fun e he heq => ?_
    obtain rfl : e = info := hinv.eq_of_id_eq he hmem (heq.trans hid.symm)
    exact hspares e hget howner
  | deleteSession hactive hget howner => exact h.deleteSession hinv hactive hget howner hspares
  | createSubSession agentName hfresh hget =>
    exact h.createSub hinv hfresh (mem_of_getSession hget).1 _ _ _
  | getOrCreate key hfresh => exact h.newSession hfresh key none
  | touch id now =>
    intro key e he hactive
    rcases mem_updateFirst he with he | ⟨a, ha, -, rfl⟩
    · exact h key e he hactive
    · exact h key a ha hactive
  | refused => exact h

/-- **Operations that choose no sub-session** keep sub-sessions out of the active entries. -/
theorem NoActiveSub.step (h : NoActiveSub t) (hinv : TableInv resolve t) (e : SessionEvent)
    (hspares : SparesSubs resolve t e) : NoActiveSub (sessionStep resolve t e) :=
  h.transition hinv (sessionTransition_sessionStep resolve t e) hspares

end

/-! ## Runs -/

/-- The invariant holds of the empty table. -/
lemma tableInv_empty (resolve : String → String) : TableInv resolve {} where
  names := by
    rintro key id ⟨⟩
  hasActive := by simp [SessionTable.owners]
  nodup := by simp [SessionTable.owners]

/-- **The active session**: in every run of creations, switches, deletions, sub-sessions and lookups,
every active entry names an existing session of the same user; and as long as no switch and no
deletion chooses a sub-session, none of them names one. -/
theorem activeNamesSession_always (resolve : String → String) (es : List SessionEvent) :
    Run.Always (sessionStep resolve) (ActiveNamesSession resolve) {} es ∧
      (Run.EachStep (sessionStep resolve) (SparesSubs resolve) {} es →
        Run.Always (sessionStep resolve) NoActiveSub {} es) := by
  constructor
  · have hinv : Run.Always (sessionStep resolve) (TableInv resolve) {} es :=
      Run.always_of_forall_step (fun t e h => h.step e) (tableInv_empty resolve) es
    exact hinv.imp fun t h => h.activeNamesSession
  · intro hspares
    have hboth : Run.Always (sessionStep resolve) (fun t => TableInv resolve t ∧ NoActiveSub t) {}
        es :=
      Run.always_of_step (fun t e h hs => ⟨h.1.step e, h.2.step h.1 e hs⟩)
        ⟨tableInv_empty resolve, by simp [NoActiveSub]⟩ hspares
    exact hboth.imp fun t h => h.2

/-- A session gets a sub-session, the key starts a new one, and the first is deleted. -/
theorem activeNamesSession_always_deletedParent :
    Run.Always (sessionStep id) NoActiveSub {}
      [.newSession "telegram:default:1" none { id := "s1", now := 1, position := 0 },
        .createSubSession "s1" "coder" { id := "s1.2", now := 2, position := 0 },
        .newSession "telegram:default:1" none { id := "s3", now := 3, position := 0 },
        .deleteSession "telegram:default:1" "s1"] :=
  (activeNamesSession_always id _).2
    ⟨trivial, trivial, trivial, fun _ hne hres => absurd hres hne, trivial⟩

/-! ## Linked keys -/

namespace LinkedKeys

/-- Two keys of one user. -/
def resolve (_ : String) : String := "user"

/-- Each key has a session of its own, and the second switches to that of the first. -/
def run : List SessionEvent :=
  [.newSession "telegram:default:1" none { id := "s1", now := 1, position := 0 },
    .newSession "web:default:1" none { id := "s2", now := 2, position := 0 },
    .switchSession "web:default:1" "s1"]

end LinkedKeys

open LinkedKeys in
/-- A linked key may make a session active that another key owns. -/
theorem not_activeOwnsTopLevel_linkedKeys :
    ¬ Run.Always (sessionStep resolve) ActiveOwnsTopLevel {} run := by
  intro h
  obtain ⟨e, he, hid, howner, -⟩ := h.last "web:default:1" "s1" (by decide)
  revert e
  decide

end MyClaw
