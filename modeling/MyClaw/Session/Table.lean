import MyClaw.Storage.JsonFile
import Mathlib.Logic.Function.Basic

set_option autoImplicit false

/-!
# The table of sessions

What `SessionManager` (`agents/session/manager.rs`) does to the sessions of the JSON-file backend
(`storage/json_file/session_backend.rs`) as a whole: one directory for each session with its owner
and its parent, and `active.json` with the active session of each routing key.  A sub-session has
the owner of its parent.  Generated ids, the moments, and the place where a new directory turns up
in a listing are inputs.

## Main definitions

* `SessionTable` — the sessions and the active entries.
* `SessionTable.backendCreate`, `backendDelete` — the operations of the backend.
* `SessionTable.newSession`, `switchSession`, `deleteSession`, `createSubSession`,
  `getOrCreate` — the operations of the manager.
* `SessionEvent`, `sessionStep` — the machine.
-/

namespace MyClaw

/-- The part of a session's `meta.json` that the table of sessions uses. -/
structure SessionEntry where
  id : String
  owner : String
  displayName : Option String
  lastActivity : Nat
  parentSessionId : Option String := none
  agentName : Option String := none

/-- The sessions in the order of a directory listing, and the active session of each owner. -/
structure SessionTable where
  sessions : List SessionEntry := []
  active : String → Option String := fun _ => none

/-- What the environment gives a new session: its id, the moment, and the place of its directory in
a listing. -/
structure FreshSession where
  id : String
  now : Nat
  position : Nat

/-- Why the manager refuses an operation. -/
inductive SessionError
  | notFound
  | notOwned
  | isActive

namespace SessionTable

/-- `get_session`. -/
def getSession (t : SessionTable) (id : String) : Option SessionEntry :=
  t.sessions.find? (·.id = id)

/-- The sort of a listing: the latest activity first. -/
def byActivity (sessions : List SessionEntry) : List SessionEntry :=
  sessions.mergeSort fun a b => decide (b.lastActivity ≤ a.lastActivity)

/-- `list_sessions` of the backend: sub-sessions are among them. -/
def listSessions (t : SessionTable) (owner : String) : List SessionEntry :=
  byActivity (t.sessions.filter (·.owner = owner))

/-- `list_sub_sessions`. -/
def listSubSessions (t : SessionTable) (parent : String) : List SessionEntry :=
  (byActivity t.sessions).filter fun e =>
    (t.getSession e.id).bind (·.parentSessionId) = some parent

/-- `set_active_session`. -/
def setActive (t : SessionTable) (key id : String) : SessionTable :=
  { t with active := Function.update t.active key (some id) }

/-- `create_session` of the backend: the first session of an owner becomes the active one. -/
def backendCreate (t : SessionTable) (owner : String) (name : Option String) (fresh : FreshSession) :
    SessionTable :=
  let t := { t with
    sessions := t.sessions.insertIdx (min fresh.position t.sessions.length)
      { id := fresh.id, owner := owner, displayName := name, lastActivity := fresh.now } }
  if t.active owner = none then t.setActive owner fresh.id else t

/-- `delete_session` of the backend: an entry that names the session is pointed at the latest
remaining session of its owner, if there is one. -/
def backendDelete (t : SessionTable) (id : String) : SessionTable :=
  let t := { t with sessions := t.sessions.filter (·.id ≠ id) }
  { t with active := fun owner =>
      if t.active owner = some id then
        ((t.listSessions owner).find? (·.id ≠ id)).map (·.id)
      else t.active owner }

/-- `save_parent_session_id` and `save_agent_name`. -/
def saveParent (t : SessionTable) (id parent agentName : String) : SessionTable :=
  { t with
    sessions := updateFirst (·.id = id) (fun e =>
      { e with
        parentSessionId := if parent = "" then none else some parent
        agentName := if agentName = "" ∨ agentName = "main" then none else some agentName })
      t.sessions }

/-- `new_session`. -/
def newSession (t : SessionTable) (key : String) (name : Option String) (fresh : FreshSession) :
    SessionTable :=
  (t.backendCreate key name fresh).setActive key fresh.id

/-- `switch_session`; `resolve` says which user a routing key belongs to. -/
def switchSession (resolve : String → String) (t : SessionTable) (key id : String) :
    Except SessionError SessionTable :=
  match t.getSession id with
  | none => .error .notFound
  | some info =>
    if resolve info.owner ≠ resolve key then .error .notOwned else .ok (t.setActive key id)

/-- `delete_session`: the sub-sessions go first, then the session. -/
def deleteSession (resolve : String → String) (t : SessionTable) (key id : String) :
    Except SessionError SessionTable :=
  if t.active key = some id then .error .isActive
  else
    match t.getSession id with
    | none => .error .notFound
    | some info =>
      if resolve info.owner ≠ resolve key then .error .notOwned
      else .ok (((t.listSubSessions id).foldl (fun t sub => t.backendDelete sub.id) t).backendDelete
        id)

/-- `create_sub_session`: a session of the parent's owner, whose parent is saved afterwards. -/
def createSubSession (t : SessionTable) (parent agentName : String) (fresh : FreshSession) :
    Except SessionError SessionTable :=
  match t.getSession parent with
  | none => .error .notFound
  | some info =>
    .ok ((t.backendCreate info.owner (some ("sub:" ++ parent ++ ":" ++ agentName)) fresh).saveParent
      fresh.id parent agentName)

/-- `get_or_create`: the table when the active session of a key has been resolved. -/
def getOrCreate (t : SessionTable) (key : String) (fresh : FreshSession) : SessionTable :=
  match t.active key with
  | some _ => t
  | none => (t.backendCreate key none fresh).setActive key fresh.id

/-- A session's `last_activity` moves on. -/
def touch (t : SessionTable) (id : String) (now : Nat) : SessionTable :=
  { t with sessions := updateFirst (·.id = id) (fun e => { e with lastActivity := now }) t.sessions }

/-- The id is not that of a session. -/
def isFresh (t : SessionTable) (fresh : FreshSession) : Bool :=
  t.sessions.all (·.id ≠ fresh.id)

end SessionTable

/-- The operations on the table. -/
inductive SessionEvent
  | newSession (key : String) (name : Option String) (fresh : FreshSession)
  | switchSession (key id : String)
  | deleteSession (key id : String)
  | createSubSession (parent agentName : String) (fresh : FreshSession)
  | getOrCreate (key : String) (fresh : FreshSession)
  /-- A message of a session. -/
  | touch (id : String) (now : Nat)

/-- The table after an operation: one that is refused changes nothing, and generated ids are
fresh. -/
def sessionStep (resolve : String → String) (t : SessionTable) : SessionEvent → SessionTable
  | .newSession key name fresh => if t.isFresh fresh then t.newSession key name fresh else t
  | .switchSession key id =>
    match t.switchSession resolve key id with
    | .ok t => t
    | .error _ => t
  | .deleteSession key id =>
    match t.deleteSession resolve key id with
    | .ok t => t
    | .error _ => t
  | .createSubSession parent agentName fresh =>
    if t.isFresh fresh then
      match t.createSubSession parent agentName fresh with
      | .ok t => t
      | .error _ => t
    else t
  | .getOrCreate key fresh => if t.isFresh fresh then t.getOrCreate key fresh else t
  | .touch id now => t.touch id now

end MyClaw
