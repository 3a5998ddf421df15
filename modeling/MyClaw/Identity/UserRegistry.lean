import MyClaw.Identity.Ids
import MyClaw.Lib.Index

set_option autoImplicit false

/-!
# The user registry

`identity/user_registry.rs` keeps the users of the instance in memory, with an index of their emails
and one of their usernames, and writes each user who changes to a file `users/{uuid}/meta.json`.  At
start it reads these files; where there is none it reads the older file `users.json`.

## Main definitions

* `User`, `UsersDisk`, `UserRegistry` — a user, the files, the registry.
* `UserRegistry.register`, `UserRegistry.setEmail`, `UserRegistry.setUsername`,
  `UserRegistry.ensureRoot` — the edits.
* `openRegistry` — reading the files.
* `RegistryEvent`, `registryStep` — the machine.

## Implementation notes

The registry is a persistent one and file writes succeed.  A directory holds a user or nothing that
parses as one.  `Fqid::new` never returns the uid of a registered user.
-/

namespace MyClaw

/-! ## Users and their files -/

/-- `User`. -/
structure User where
  uid : String
  /-- Empty in old data. -/
  username : String
  email : Option String
  active : Bool
  createdMs : ℕ
  deriving DecidableEq

/-- The username, if there is one. -/
def User.usernameField (user : User) : Option String :=
  if user.username = "" then none else some user.username

/-- `RegisterError`. -/
inductive RegisterError
  | invalidUsername (text : String)
  | reservedUsername (username : String)
  | usernameTaken (username : String)
  | invalidEmail (text : String)
  | emailTaken (email : String)
  | noSuchUser (uid : String)

/-- The files of the registry. -/
structure UsersDisk where
  /-- The users of `users.json` under their keys, if it is there and parses. -/
  legacy : List (String × User)
  /-- What is read in the `meta.json` of each directory of `users/`. -/
  dirs : List (String × Option User)

/-- The users of the directories, under their uids. -/
def UsersDisk.own (d : UsersDisk) : List (String × User) :=
  d.dirs.filterMap fun dir => dir.2.map fun user => (user.uid, user)

/-- The users that are read: those of the directories, and those of `users.json` if there are none. -/
def UsersDisk.stored (d : UsersDisk) : List (String × User) :=
  if d.own = [] then d.legacy else d.own

/-- `UserRegistry`, with its files. -/
structure UserRegistry where
  users : String → Option User := fun _ => none
  emailIndex : String → Option String := fun _ => none
  usernameIndex : String → Option String := fun _ => none
  disk : UsersDisk

/-- The parts that the registry calls. -/
structure RegistryEnv where
  /-- A uuid in its standard form. -/
  parseUuid : String → Option String
  /-- `str::to_lowercase`. -/
  toLowercase : String → String

/-! ## Reading -/

namespace UserRegistry

/-- One turn of the loops that read users. -/
def insertLoaded (reg : UserRegistry) (entry : String × User) : UserRegistry :=
  { reg with
    emailIndex :=
      match entry.2.email with
      | some email => Function.update reg.emailIndex email (some entry.1)
      | none => reg.emailIndex
    usernameIndex :=
      if entry.2.username = "" then reg.usernameIndex
      else Function.update reg.usernameIndex entry.2.username (some entry.1)
    users := Function.update reg.users entry.1 (some entry.2) }

end UserRegistry

/-- `load_from_disk` of a new registry. -/
def openRegistry (d : UsersDisk) : UserRegistry :=
  d.stored.foldl UserRegistry.insertLoaded { disk := d }

/-! ## Checks -/

/-- `RESERVED_USERNAMES`. -/
def reservedUsernames : List String := ["root", "admin", "system", "bot", "help", "register"]

/-- `ROOT_USERNAME`. -/
def rootUsername : String := "root"

/-- The text, trimmed and in lower case. -/
def RegistryEnv.normalize (env : RegistryEnv) (text : String) : String :=
  env.toLowercase
    (String.ofList ((text.toList.dropWhile isWhiteSpace).reverse.dropWhile isWhiteSpace).reverse)

/-- `validate_username`. -/
def validateUsername (env : RegistryEnv) (username : String) : Except RegisterError String :=
  let username := env.normalize username
  if username.utf8ByteSize < 3 ∨ 32 < username.utf8ByteSize then
    .error (.invalidUsername ("username 长度须为 3–32 个字符（当前 " ++
      toString username.utf8ByteSize ++ " 个）"))
  else if !username.toList.all fun c => c.isLower || c.isDigit || c = '_' then
    .error (.invalidUsername "username 只能包含小写字母、数字和下划线（[a-z0-9_]+）")
  else if username ∈ reservedUsernames then .error (.reservedUsername username)
  else .ok username

/-- `validate_email`. -/
def validateEmail (env : RegistryEnv) (email : String) : Except RegisterError String :=
  let email := env.normalize email
  let invalid := .invalidEmail "邮箱格式不正确（应为 user@example.com）"
  if email = "" ∨ 254 < email.utf8ByteSize then .error invalid
  else
    match splitOnce '@' email.toList with
    | none => .error invalid
    | some (localPart, domain) =>
      if localPart = [] ∨ domain = [] ∨ '@' ∈ domain then .error invalid else .ok email

/-! ## Edits -/

namespace UserRegistry

/-- `save_user`. -/
def saveUser (env : RegistryEnv) (reg : UserRegistry) (uid : String) : UserRegistry :=
  match reg.users uid with
  | none => reg
  | some user =>
    let dir := bareDirNameOf env.parseUuid uid
    { reg with
      disk := { reg.disk with dirs := (dir, some user) :: reg.disk.dirs.filter (·.1 ≠ dir) } }

/-- `register`, with the new uid. -/
def register (env : RegistryEnv) (reg : UserRegistry) (email username uid : String) (nowMs : ℕ) :
    Except RegisterError User × UserRegistry :=
  match validateUsername env username with
  | .error err => (.error err, reg)
  | .ok username =>
    match validateEmail env email with
    | .error err => (.error err, reg)
    | .ok email =>
      if (reg.usernameIndex username).isSome then (.error (.usernameTaken username), reg)
      else if (reg.emailIndex email).isSome then (.error (.emailTaken email), reg)
      else
        let user : User :=
          { uid := uid, username := username, email := some email, active := true
            createdMs := nowMs }
        let reg :=
          { reg with
            users := Function.update reg.users uid (some user)
            emailIndex := Function.update reg.emailIndex email (some uid)
            usernameIndex := Function.update reg.usernameIndex username (some uid) }
        (.ok user, reg.saveUser env uid)

/-- The index after a user's email has been released. -/
def releaseEmail (index : String → Option String) : Option String → String → Option String
  | some old => Function.update index old none
  | none => index

/-- The index after a released email has been taken back. -/
def restoreEmail (index : String → Option String) (old : Option String) (uid : String) :
    String → Option String :=
  match old with
  | some old => Function.update index old (some uid)
  | none => index

/-- `set_email`. -/
def setEmail (env : RegistryEnv) (reg : UserRegistry) (uid newEmail : String) :
    Except RegisterError Unit × UserRegistry :=
  match validateEmail env newEmail with
  | .error err => (.error err, reg)
  | .ok newEmail =>
    match reg.users uid with
    | none => (.error (.noSuchUser uid), reg)
    | some user =>
      if user.email = some newEmail then (.ok (), reg)
      else
        let released := releaseEmail reg.emailIndex user.email
        if (released newEmail).isSome then
          (.error (.emailTaken newEmail),
            { reg with emailIndex := restoreEmail released user.email uid })
        else
          let reg :=
            { reg with
              emailIndex := Function.update released newEmail (some uid)
              users := Function.update reg.users uid (some { user with email := some newEmail }) }
          (.ok (), reg.saveUser env uid)

/-- `set_username`. -/
def setUsername (env : RegistryEnv) (reg : UserRegistry) (uid newUsername : String) :
    Except RegisterError Unit × UserRegistry :=
  match validateUsername env newUsername with
  | .error err => (.error err, reg)
  | .ok newUsername =>
    match reg.users uid with
    | none => (.error (.noSuchUser uid), reg)
    | some user =>
      if user.username = newUsername then (.ok (), reg)
      else if (reg.usernameIndex newUsername).any (· ≠ uid) then
        (.error (.usernameTaken newUsername), reg)
      else
        let released :=
          if user.username = "" then reg.usernameIndex
          else Function.update reg.usernameIndex user.username none
        let reg :=
          { reg with
            usernameIndex := Function.update released newUsername (some uid)
            users := Function.update reg.users uid (some { user with username := newUsername }) }
        (.ok (), reg.saveUser env uid)

/-- `ensure_root`, with the new uid. -/
def ensureRoot (env : RegistryEnv) (reg : UserRegistry) (uid : String) (nowMs : ℕ) : UserRegistry :=
  if (reg.usernameIndex rootUsername).isSome then reg
  else
    let user : User :=
      { uid := uid, username := rootUsername, email := none, active := true, createdMs := nowMs }
    let reg :=
      { reg with
        users := Function.update reg.users uid (some user)
        usernameIndex := Function.update reg.usernameIndex rootUsername (some uid) }
    reg.saveUser env uid

end UserRegistry

/-! ## The machine -/

/-- What happens to the registry; `uid` is the one that `Fqid::new` returns. -/
inductive RegistryEvent
  | register (email username uid : String) (nowMs : ℕ)
  | setEmail (uid newEmail : String)
  | setUsername (uid newUsername : String)
  | ensureRoot (uid : String) (nowMs : ℕ)
  /-- The process ends and a new one opens the registry. -/
  | reopen
  deriving DecidableEq

/-- The registry after an event. -/
def registryStep (env : RegistryEnv) (reg : UserRegistry) : RegistryEvent → UserRegistry
  | .register email username uid nowMs =>
    if (reg.users uid).isSome then reg else (reg.register env email username uid nowMs).2
  | .setEmail uid newEmail => (reg.setEmail env uid newEmail).2
  | .setUsername uid newUsername => (reg.setUsername env uid newUsername).2
  | .ensureRoot uid nowMs =>
    if (reg.users uid).isSome then reg else reg.ensureRoot env uid nowMs
  | .reopen => openRegistry reg.disk

/-- The error that an event returns. -/
def registryError (env : RegistryEnv) (reg : UserRegistry) : RegistryEvent → Option RegisterError
  | .register email username uid nowMs =>
    match (reg.register env email username uid nowMs).1 with
    | .error err => some err
    | .ok _ => none
  | .setEmail uid newEmail =>
    match (reg.setEmail env uid newEmail).1 with
    | .error err => some err
    | .ok _ => none
  | .setUsername uid newUsername =>
    match (reg.setUsername env uid newUsername).1 with
    | .error err => some err
    | .ok _ => none
  | _ => none

/-! ## What is read -/

/-- **What a registry reads**: the table and the two indexes of the users that are stored. -/
lemma openRegistry_eq (d : UsersDisk) :
    openRegistry d =
      { users := Index.load d.stored
        emailIndex := Index.loadIndex User.email d.stored
        usernameIndex := Index.loadIndex User.usernameField d.stored
        disk := d } := by
  have hfold : ∀ (l : List (String × User)) (reg : UserRegistry),
      l.foldl UserRegistry.insertLoaded reg =
        { users := l.foldl (fun table x => Function.update table x.1 (some x.2)) reg.users
          emailIndex := l.foldl (Index.insertIndex User.email) reg.emailIndex
          usernameIndex := l.foldl (Index.insertIndex User.usernameField) reg.usernameIndex
          disk := reg.disk } := by
    intro l
    induction l with
    | nil => exact fun _ => rfl
    | cons x l ih =>
      intro reg
      rw [List.foldl_cons, ih]
      simp only [List.foldl_cons, UserRegistry.insertLoaded, Index.insertIndex, User.usernameField]
      cases x.2.email <;> split_ifs <;> rfl
  exact hfold d.stored { disk := d }

end MyClaw
