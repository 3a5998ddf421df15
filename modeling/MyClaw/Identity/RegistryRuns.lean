import MyClaw.Identity.UserRegistry
import MyClaw.Lib.Keyed
import MyClaw.Lib.Run
import Mathlib.Data.List.Nodup

set_option autoImplicit false

/-!
# Runs of the user registry

An edit writes the file of one user.  The users that a registry has read from `users.json` have no
file of their own, and once one of them has, the next start reads nothing else.

## Main definitions

* `LegalDisk` — files whose users contradict each other in nothing.
* `RegistrySound` — the indexes are exact, and a new start reads the users there are.
* `changedUser`, `UserRegistry.put` — what an edit is for.
* `FileFits`, `KeepsUsers` — the condition of an edit.

## Main results

* `registryStep_eq` — every edit of the code does what it is for.
* `registrySound_iff` — a run keeps the users exactly when each of its steps does.
* `not_registrySound_legacyPair` — one of two users of `users.json` changes her email.
-/

namespace MyClaw

/-! ## The property and its condition -/

/-- The same files, read in any order. -/
def UsersDisk.SameFiles (d d' : UsersDisk) : Prop := d.legacy.Perm d'.legacy ∧ d.dirs.Perm d'.dirs

/-- **A legal content of the files**: the users that are read have different uids, emails and
usernames. -/
structure LegalDisk extends UsersDisk where
  uids : (toUsersDisk.stored.map (·.1)).Nodup
  emails : ∀ x ∈ toUsersDisk.stored, ∀ y ∈ toUsersDisk.stored, ∀ i, x.2.email = some i →
    y.2.email = some i → x.1 = y.1
  usernames : ∀ x ∈ toUsersDisk.stored, ∀ y ∈ toUsersDisk.stored, ∀ i,
    x.2.usernameField = some i → y.2.usernameField = some i → x.1 = y.1

/-- **A sound registry**: its indexes are the inverse of the emails and usernames of its users, and
opening its files yields exactly these users. -/
structure RegistrySound (reg : UserRegistry) : Prop where
  emails : Index.IsInverse reg.users User.email reg.emailIndex
  usernames : Index.IsInverse reg.users User.usernameField reg.usernameIndex
  reopens : ∀ d, d.SameFiles reg.disk → (openRegistry d).users = reg.users

/-- **An operation that returns an error** changes neither the memory nor the files. -/
def ErrorUnchanged (env : RegistryEnv) (reg : UserRegistry) (e : RegistryEvent) : Prop :=
  ∀ err, registryError env reg e = some err → registryStep env reg e = reg

/-- The user that an event changes or adds, with the new record. -/
def changedUser (env : RegistryEnv) (reg : UserRegistry) : RegistryEvent → Option (String × User)
  | .register email username uid nowMs =>
    match validateUsername env username, validateEmail env email with
    | .ok username, .ok email =>
      if reg.users uid = none ∧ reg.usernameIndex username = none ∧ reg.emailIndex email = none then
        some (uid, ⟨uid, username, some email, true, nowMs⟩)
      else none
    | _, _ => none
  | .setEmail uid newEmail =>
    match validateEmail env newEmail, reg.users uid with
    | .ok newEmail, some user =>
      if user.email ≠ some newEmail ∧ reg.emailIndex newEmail = none then
        some (uid, { user with email := some newEmail })
      else none
    | _, _ => none
  | .setUsername uid newUsername =>
    match validateUsername env newUsername, reg.users uid with
    | .ok newUsername, some user =>
      if user.username ≠ newUsername ∧ reg.usernameIndex newUsername = none then
        some (uid, { user with username := newUsername })
      else none
    | _, _ => none
  | .ensureRoot uid nowMs =>
    if reg.users uid = none ∧ reg.usernameIndex rootUsername = none then
      some (uid, ⟨uid, rootUsername, none, true, nowMs⟩)
    else none
  | .reopen => none

/-- **The file of an edit fits**: the record carries the uid that it is kept under, the records of all
other users are in other directories, and no other directory has a record of the uid. -/
structure FileFits (env : RegistryEnv) (reg : UserRegistry) (uid : String) (user : User) : Prop where
  keyed : user.uid = uid
  others : ∀ v w, v ≠ uid → reg.users v = some w →
    ∃ dir ∈ reg.disk.dirs, dir.1 ≠ bareDirNameOf env.parseUuid uid ∧ dir.2 = some w
  alone : ∀ dir ∈ reg.disk.dirs, dir.1 ≠ bareDirNameOf env.parseUuid uid →
    ∀ w, dir.2 = some w → w.uid ≠ uid

/-- **The condition of a step**: the file of an edit fits. -/
def KeepsUsers (env : RegistryEnv) (reg : UserRegistry) (e : RegistryEvent) : Prop :=
  ∀ uid user, changedUser env reg e = some (uid, user) → FileFits env reg uid user

/-- The registry with a new record of a user. -/
def UserRegistry.put (env : RegistryEnv) (reg : UserRegistry) (uid : String) (user : User) :
    UserRegistry where
  users := Function.update reg.users uid (some user)
  emailIndex := Index.reindex reg.emailIndex uid ((reg.users uid).bind User.email) user.email
  usernameIndex :=
    Index.reindex reg.usernameIndex uid ((reg.users uid).bind User.usernameField) user.usernameField
  disk :=
    let dir := bareDirNameOf env.parseUuid uid
    { reg.disk with dirs := (dir, some user) :: reg.disk.dirs.filter (·.1 ≠ dir) }

/-! ## Opening the files in any order -/

section

variable {env : RegistryEnv} {reg : UserRegistry} {d d' : UsersDisk} {k uid : String}
  {v user : User}

lemma mem_own : (k, v) ∈ d.own ↔ v.uid = k ∧ ∃ dir ∈ d.dirs, dir.2 = some v := by
  unfold UsersDisk.own
  rw [List.mem_filterMap]
  constructor
  · rintro ⟨dir, hdir, heq⟩
    obtain ⟨w, hw, hpair⟩ := Option.map_eq_some_iff.1 heq
    obtain ⟨rfl, rfl⟩ := Prod.mk.inj hpair
    exact ⟨rfl, dir, hdir, hw⟩
  · rintro ⟨rfl, dir, hdir, hw⟩
    exact ⟨dir, hdir, by rw [hw]; rfl⟩

/-- Where a directory has a user, the directories are read. -/
lemma stored_eq_own (h : (k, v) ∈ d.own) : d.stored = d.own := by
  unfold UsersDisk.stored
  rw [if_neg (List.ne_nil_of_mem h)]

lemma UsersDisk.SameFiles.mem_stored (h : d.SameFiles d') : (k, v) ∈ d.stored ↔ (k, v) ∈ d'.stored := by
  have hown : d.own.Perm d'.own := h.2.filterMap _
  unfold UsersDisk.stored
  by_cases hnil : d.own = []
  · rw [if_pos hnil, if_pos (by rwa [hnil, List.nil_perm] at hown)]
    exact h.1.mem_iff
  · rw [if_neg hnil, if_neg fun hnil' => hnil (by rwa [hnil', List.perm_nil] at hown)]
    exact hown.mem_iff

/-- An entry can be the last one that is read. -/
lemma exists_sameFiles_load (h : (k, v) ∈ d.stored) :
    ∃ d' : UsersDisk, d'.SameFiles d ∧ Index.load d'.stored k = some v := by
  unfold UsersDisk.stored at h
  by_cases hnil : d.own = []
  · rw [if_pos hnil] at h
    obtain ⟨as, bs, heq⟩ := List.append_of_mem h
    refine ⟨⟨(as ++ bs) ++ [(k, v)], d.dirs⟩, ⟨?_, .refl _⟩, ?_⟩
    · rw [heq]
      exact List.perm_append_singleton .. |>.trans List.perm_middle.symm
    · have hown : (⟨(as ++ bs) ++ [(k, v)], d.dirs⟩ : UsersDisk).own = [] := hnil
      rw [UsersDisk.stored, if_pos hown, Index.load_concat, Function.update_self]
  · rw [if_neg hnil] at h
    obtain ⟨rfl, dir, hdir, hdirUser⟩ := mem_own.1 h
    obtain ⟨as, bs, heq⟩ := List.append_of_mem hdir
    refine ⟨⟨d.legacy, (as ++ bs) ++ [dir]⟩, ⟨.refl _, ?_⟩, ?_⟩
    · rw [heq]
      exact List.perm_append_singleton .. |>.trans List.perm_middle.symm
    · have hown : (⟨d.legacy, (as ++ bs) ++ [dir]⟩ : UsersDisk).own =
          (⟨d.legacy, as ++ bs⟩ : UsersDisk).own ++ [(v.uid, v)] := by
        rw [UsersDisk.own, List.filterMap_append, UsersDisk.own]
        simp [hdirUser]
      rw [UsersDisk.stored, if_neg (by rw [hown]; simp), hown, Index.load_concat,
        Function.update_self]

/-- **A new start yields the users**, in whatever order it reads, exactly when the users are those that
are stored. -/
lemma reopens_iff {users : String → Option User} :
    (∀ d', d'.SameFiles d → (openRegistry d').users = users) ↔
      ∀ k v, users k = some v ↔ (k, v) ∈ d.stored := by
  simp only [openRegistry_eq]
  constructor
  · intro h k v
    constructor
    · intro hv
      rw [← h d ⟨.refl _, .refl _⟩] at hv
      exact Index.mem_of_load hv
    · intro hmem
      obtain ⟨d', hsame, hload⟩ := exists_sameFiles_load hmem
      rw [← h d' hsame, hload]
  · intro h d' hsame
    funext k
    refine Option.ext fun v => ?_
    rw [Index.load_eq_some_iff fun x y hx hy => ?_, hsame.mem_stored, h]
    have hx' := (h k x).2 (hsame.mem_stored.1 hx)
    rw [(h k y).2 (hsame.mem_stored.1 hy)] at hx'
    exact (Option.some.inj hx').symm

/-- The users of a sound registry are those that are stored. -/
lemma RegistrySound.mem_stored (h : RegistrySound reg) (k : String) (v : User) :
    reg.users k = some v ↔ (k, v) ∈ reg.disk.stored := reopens_iff.1 h.reopens k v

/-- What is opened is sound where the files do not contradict themselves. -/
lemma registrySound_openRegistry (hfun : ∀ k v w, (k, v) ∈ d.stored → (k, w) ∈ d.stored → v = w)
    (hemails : ∀ x ∈ d.stored, ∀ y ∈ d.stored, ∀ i, x.2.email = some i → y.2.email = some i →
      x.1 = y.1)
    (husernames : ∀ x ∈ d.stored, ∀ y ∈ d.stored, ∀ i, x.2.usernameField = some i →
      y.2.usernameField = some i → x.1 = y.1) : RegistrySound (openRegistry d) := by
  rw [openRegistry_eq]
  exact {
    emails := Index.isInverse_loadIndex hfun hemails
    usernames := Index.isInverse_loadIndex hfun husernames
    reopens := reopens_iff.2 fun k v => Index.load_eq_some_iff (hfun k) }

/-- **The first start** is sound. -/
lemma LegalDisk.registrySound (d : LegalDisk) : RegistrySound (openRegistry d.toUsersDisk) := by
  refine registrySound_openRegistry (fun k v w hv hw => ?_) d.emails d.usernames
  have heq := List.inj_on_of_nodup_map d.uids hv hw rfl
  exact (Prod.mk.inj heq).2

/-- **Another start** of a sound registry is sound. -/
lemma RegistrySound.reopen (h : RegistrySound reg) : RegistrySound (openRegistry reg.disk) := by
  have hinverse : ∀ {field : User → Option String} {index : String → Option String},
      Index.IsInverse reg.users field index → ∀ x ∈ reg.disk.stored, ∀ y ∈ reg.disk.stored, ∀ i,
        field x.2 = some i → field y.2 = some i → x.1 = y.1 := by
    intro field index hindex x hx y hy i hxi hyi
    have hx' := (hindex i x.1).2 ⟨x.2, (h.mem_stored _ _).2 hx, hxi⟩
    rw [(hindex i y.1).2 ⟨y.2, (h.mem_stored _ _).2 hy, hyi⟩] at hx'
    exact (Option.some.inj hx').symm
  refine registrySound_openRegistry (fun k v w hv hw => ?_) (hinverse h.emails)
    (hinverse h.usernames)
  have hv' := (h.mem_stored k v).2 hv
  rw [(h.mem_stored k w).2 hw] at hv'
  exact (Option.some.inj hv').symm

/-! ## A new record -/

lemma mem_stored_put :
    (k, v) ∈ (reg.put env uid user).disk.stored ↔ (k, v) = (user.uid, user) ∨
      v.uid = k ∧ ∃ dir ∈ reg.disk.dirs, dir.1 ≠ bareDirNameOf env.parseUuid uid ∧
        dir.2 = some v := by
  have hself : (user.uid, user) ∈ (reg.put env uid user).disk.own :=
    mem_own.2 ⟨rfl, _, List.mem_cons_self, rfl⟩
  rw [stored_eq_own hself, mem_own, Prod.mk.injEq]
  simp only [UserRegistry.put, List.mem_cons, List.mem_filter, decide_eq_true_eq]
  constructor
  · rintro ⟨rfl, dir, rfl | ⟨hdir, hne⟩, hv⟩
    · obtain rfl := Option.some.inj hv
      exact .inl ⟨rfl, rfl⟩
    · exact .inr ⟨rfl, dir, hdir, hne, hv⟩
  · rintro (⟨rfl, rfl⟩ | ⟨rfl, dir, hdir, hne, hv⟩)
    · exact ⟨rfl, _, .inl rfl, rfl⟩
    · exact ⟨rfl, dir, .inr ⟨hdir, hne⟩, hv⟩

/-- **A new record whose file fits** keeps the registry sound. -/
lemma RegistrySound.put (h : RegistrySound reg)
    (hemail : ∀ i, user.email = some i → reg.emailIndex i = none ∨ reg.emailIndex i = some uid)
    (husername : ∀ i, user.usernameField = some i →
      reg.usernameIndex i = none ∨ reg.usernameIndex i = some uid)
    (hfits : FileFits env reg uid user) : RegistrySound (reg.put env uid user) where
  emails := h.emails.put hemail
  usernames := h.usernames.put husername
  reopens := by
    refine reopens_iff.2 fun k v => ?_
    rw [mem_stored_put]
    change Function.update reg.users uid (some user) k = some v ↔ _
    have hown : ∀ {dir : String × Option User} {w : User}, dir ∈ reg.disk.dirs → dir.2 = some w →
        (w.uid, w) ∈ reg.disk.stored := fun hdir hw => by
      have hmem := mem_own.2 ⟨rfl, _, hdir, hw⟩
      rw [stored_eq_own hmem]
      exact hmem
    by_cases hk : k = uid
    · subst hk
      rw [Function.update_self, hfits.keyed]
      constructor
      · intro heq
        rw [Option.some.inj heq]
        exact .inl rfl
      · rintro (heq | ⟨hkey, dir, hdir, hne, hv⟩)
        · rw [(Prod.mk.inj heq).2]
        · exact absurd hkey (hfits.alone dir hdir hne v hv)
    · rw [Function.update_of_ne hk]
      constructor
      · intro hv
        obtain ⟨dir, hdir, hne, hdirUser⟩ := hfits.others k v hk hv
        refine .inr ⟨?_, dir, hdir, hne, hdirUser⟩
        have hmem := (h.mem_stored k v).1 hv
        rw [stored_eq_own (mem_own.2 ⟨rfl, _, hdir, hdirUser⟩)] at hmem
        exact (mem_own.1 hmem).1
      · rintro (heq | ⟨rfl, dir, hdir, hne, hv⟩)
        · rw [hfits.keyed] at heq
          exact absurd (Prod.mk.inj heq).1 hk
        · exact (h.mem_stored _ _).2 (hown hdir hv)

/-- **A record whose file does not fit** is not what a new start reads, or not all of it. -/
lemma RegistrySound.fileFits (h : RegistrySound reg) (hchanged : reg.users uid ≠ some user)
    (hnext : RegistrySound (reg.put env uid user)) : FileFits env reg uid user := by
  have hmem : ∀ k v, Function.update reg.users uid (some user) k = some v ↔
      (k, v) = (user.uid, user) ∨ v.uid = k ∧ ∃ dir ∈ reg.disk.dirs,
        dir.1 ≠ bareDirNameOf env.parseUuid uid ∧ dir.2 = some v := fun k v =>
    (hnext.mem_stored k v).trans mem_stored_put
  have hkeyed : user.uid = uid := by
    rcases (hmem uid user).1 (Function.update_self ..) with heq | ⟨hkey, -⟩
    · exact (Prod.mk.inj heq).1.symm
    · exact hkey
  refine ⟨hkeyed, fun v w hv hw => ?_, fun dir hdir hne w hw hkey => ?_⟩
  · rcases (hmem v w).1 (by rw [Function.update_of_ne hv, hw]) with heq | ⟨-, hdir⟩
    · rw [hkeyed] at heq
      exact absurd (Prod.mk.inj heq).1 hv
    · exact hdir
  · have hnew := (hmem uid w).2 (.inr ⟨hkey, dir, hdir, hne, hw⟩)
    rw [Function.update_self] at hnew
    obtain rfl := Option.some.inj hnew
    -- the record would be an old one
    have hown := mem_own.2 ⟨hkey, dir, hdir, hw⟩
    have hold := (h.mem_stored uid user).2 (by rw [stored_eq_own hown]; exact hown)
    exact hchanged hold

/-! ## Edits -/

/-- Saving a new record whose values the indexes have taken. -/
lemma saveUser_eq_put {emails usernames : String → Option String}
    (hemails : emails =
      Index.reindex reg.emailIndex uid ((reg.users uid).bind User.email) user.email)
    (husernames : usernames = Index.reindex reg.usernameIndex uid
      ((reg.users uid).bind User.usernameField) user.usernameField) :
    UserRegistry.saveUser env
      { reg with
        users := Function.update reg.users uid (some user)
        emailIndex := emails
        usernameIndex := usernames } uid = reg.put env uid user := by
  subst hemails husernames
  simp only [UserRegistry.saveUser, Function.update_self, UserRegistry.put]

lemma ne_empty_of_validateUsername {username name : String}
    (h : validateUsername env username = .ok name) : name ≠ "" := by
  rintro rfl
  unfold validateUsername at h
  dsimp only at h
  split_ifs at h with hsize
  rw [Except.ok.inj h] at hsize
  exact hsize (.inl (by decide))

lemma usernameField_eq {user : User} (h : user.username ≠ "") :
    user.usernameField = some user.username := if_neg h

/-- **Registering** does what it is for. -/
lemma register_eq (email username uid : String) (nowMs : ℕ) :
    registryStep env reg (.register email username uid nowMs) =
      match changedUser env reg (.register email username uid nowMs) with
      | none => reg
      | some (uid, user) => reg.put env uid user := by
  rw [registryStep, changedUser]
  cases hold : reg.users uid with
  | some user =>
    rw [Option.isSome_some, if_pos rfl]
    cases validateUsername env username <;> cases validateEmail env email <;> simp
  | none =>
    rw [Option.isSome_none, if_neg Bool.false_ne_true, UserRegistry.register]
    cases hname : validateUsername env username with
    | error err => rfl
    | ok name =>
      cases hmail : validateEmail env email with
      | error err => rfl
      | ok mail =>
        dsimp only
        cases hnameFree : reg.usernameIndex name with
        | some owner => simp
        | none =>
          cases hmailFree : reg.emailIndex mail with
          | some owner => simp
          | none =>
            rw [Option.isSome_none, if_neg Bool.false_ne_true, if_neg Bool.false_ne_true,
              if_pos ⟨rfl, rfl, rfl⟩]
            refine saveUser_eq_put ?_ ?_
            · rw [hold, Option.bind_none, Index.reindex_none]
            · rw [hold, Option.bind_none, usernameField_eq (ne_empty_of_validateUsername hname),
                Index.reindex_none]

/-- **Making root** does what it is for. -/
lemma ensureRoot_eq (uid : String) (nowMs : ℕ) :
    registryStep env reg (.ensureRoot uid nowMs) =
      match changedUser env reg (.ensureRoot uid nowMs) with
      | none => reg
      | some (uid, user) => reg.put env uid user := by
  rw [registryStep, changedUser]
  cases hold : reg.users uid with
  | some user => simp
  | none =>
    rw [Option.isSome_none, if_neg Bool.false_ne_true, UserRegistry.ensureRoot]
    cases hroot : reg.usernameIndex rootUsername with
    | some owner => simp
    | none =>
      rw [Option.isSome_none, if_neg Bool.false_ne_true, if_pos ⟨rfl, rfl⟩]
      refine saveUser_eq_put ?_ ?_
      · rw [hold, Option.bind_none]
        rfl
      · rw [hold, Option.bind_none, usernameField_eq (by decide : rootUsername ≠ ""),
          Index.reindex_none]

lemma releaseEmail_of_ne {index : String → Option String} {old : Option String} {email : String}
    (hne : old ≠ some email) : UserRegistry.releaseEmail index old email = index email := by
  cases old with
  | none => rfl
  | some old => exact Function.update_of_ne (fun heq => hne (by rw [heq])) ..

/-- An email that has been released and taken back leaves the index as it was. -/
lemma restoreEmail_releaseEmail (h : RegistrySound reg) (hold : reg.users uid = some user) :
    UserRegistry.restoreEmail (UserRegistry.releaseEmail reg.emailIndex user.email) user.email uid =
      reg.emailIndex := by
  cases hemail : user.email with
  | none => rfl
  | some old =>
    have hindex : reg.emailIndex old = some uid := (h.emails old uid).2 ⟨user, hold, hemail⟩
    rw [UserRegistry.restoreEmail, UserRegistry.releaseEmail, Function.update_idem, ← hindex,
      Function.update_eq_self]

/-- **Setting an email** does what it is for. -/
lemma setEmail_eq (h : RegistrySound reg) (uid newEmail : String) :
    registryStep env reg (.setEmail uid newEmail) =
      match changedUser env reg (.setEmail uid newEmail) with
      | none => reg
      | some (uid, user) => reg.put env uid user := by
  rw [registryStep, changedUser, UserRegistry.setEmail]
  cases hmail : validateEmail env newEmail with
  | error err => rfl
  | ok mail =>
    cases hold : reg.users uid with
    | none => rfl
    | some user =>
      dsimp only
      by_cases hsame : user.email = some mail
      · simp [hsame]
      · rw [if_neg hsame, releaseEmail_of_ne hsame]
        cases hfree : reg.emailIndex mail with
        | some owner =>
          rw [Option.isSome_some, if_pos rfl, restoreEmail_releaseEmail h hold]
          simp
        | none =>
          rw [Option.isSome_none, if_neg Bool.false_ne_true, if_pos ⟨hsame, rfl⟩]
          refine saveUser_eq_put ?_ ?_
          · rw [hold, Option.bind_some]
            cases user.email with
            | none => exact (Index.reindex_none mail).symm
            | some old => exact (Index.reindex_some old mail).symm
          · exact (by simpa [hold, User.usernameField] using h.usernames.reindex_self uid :
              Index.reindex reg.usernameIndex uid _ _ = reg.usernameIndex).symm

/-- **Setting a username** does what it is for. -/
lemma setUsername_eq (h : RegistrySound reg) (uid newUsername : String) :
    registryStep env reg (.setUsername uid newUsername) =
      match changedUser env reg (.setUsername uid newUsername) with
      | none => reg
      | some (uid, user) => reg.put env uid user := by
  rw [registryStep, changedUser, UserRegistry.setUsername]
  cases hname : validateUsername env newUsername with
  | error err => rfl
  | ok name =>
    cases hold : reg.users uid with
    | none => rfl
    | some user =>
      dsimp only
      by_cases hsame : user.username = name
      · simp [hsame]
      · rw [if_neg hsame]
        cases hfree : reg.usernameIndex name with
        | some owner =>
          have hother : owner ≠ uid := by
            rintro rfl
            obtain ⟨w, hw, hfield⟩ := (h.usernames name owner).1 hfree
            rw [hold] at hw
            obtain rfl := Option.some.inj hw
            unfold User.usernameField at hfield
            split_ifs at hfield
            exact hsame (Option.some.inj hfield)
          simp [hother]
        | none =>
          have hfresh : user.username ≠ name ∧ (none : Option String) = none := ⟨hsame, rfl⟩
          rw [Option.any_none, if_neg Bool.false_ne_true, if_pos hfresh]
          refine saveUser_eq_put ?_ ?_
          · exact (by simpa [hold] using h.emails.reindex_self uid :
              Index.reindex reg.emailIndex uid _ _ = reg.emailIndex).symm
          · have hnew : ({ user with username := name } : User).usernameField = some name :=
              usernameField_eq (ne_empty_of_validateUsername hname)
            rw [hold, Option.bind_some, hnew]
            by_cases hempty : user.username = ""
            · rw [if_pos hempty, User.usernameField, if_pos hempty, Index.reindex_none]
            · rw [if_neg hempty, usernameField_eq hempty, Index.reindex_some]

/-- **Every edit of the code does what it is for.** -/
theorem registryStep_eq (h : RegistrySound reg) {e : RegistryEvent} (he : e ≠ .reopen) :
    registryStep env reg e =
      match changedUser env reg e with
      | none => reg
      | some (uid, user) => reg.put env uid user := by
  cases e with
  | register email username uid nowMs => exact register_eq email username uid nowMs
  | setEmail uid newEmail => exact setEmail_eq h uid newEmail
  | setUsername uid newUsername => exact setUsername_eq h uid newUsername
  | ensureRoot uid nowMs => exact ensureRoot_eq uid nowMs
  | reopen => exact absurd rfl he

/-- **A new record** takes free values only, and is another record than the old one. -/
lemma changedUser_spec (h : RegistrySound reg) {e : RegistryEvent}
    (he : changedUser env reg e = some (uid, user)) :
    (∀ i, user.email = some i → reg.emailIndex i = none ∨ reg.emailIndex i = some uid) ∧
      (∀ i, user.usernameField = some i →
        reg.usernameIndex i = none ∨ reg.usernameIndex i = some uid) ∧
      reg.users uid ≠ some user := by
  cases e with
  | register email username uid' nowMs =>
    rw [changedUser] at he
    split at he
    · rename_i name mail hname hmail
      split_ifs at he with hfree
      obtain ⟨rfl, rfl⟩ := Prod.mk.inj (Option.some.inj he)
      obtain ⟨hnone, hnameFree, hmailFree⟩ := hfree
      refine ⟨fun i hi => ?_, fun i hi => ?_, by rw [hnone]; simp⟩
      · obtain rfl := Option.some.inj hi
        exact .inl hmailFree
      · rw [usernameField_eq (ne_empty_of_validateUsername hname)] at hi
        obtain rfl := Option.some.inj hi
        exact .inl hnameFree
    · cases he
  | setEmail uid' newEmail =>
    rw [changedUser] at he
    split at he
    · rename_i mail old hmail hold
      split_ifs at he with hfree
      obtain ⟨rfl, rfl⟩ := Prod.mk.inj (Option.some.inj he)
      refine ⟨fun i hi => ?_, fun i hi => ?_, fun heq => ?_⟩
      · obtain rfl := Option.some.inj hi
        exact .inl hfree.2
      · exact .inr ((h.usernames i uid').2 ⟨old, hold, hi⟩)
      · rw [hold] at heq
        exact hfree.1 (congrArg User.email (Option.some.inj heq))
    · cases he
  | setUsername uid' newUsername =>
    rw [changedUser] at he
    split at he
    · rename_i name old hname hold
      split_ifs at he with hfree
      obtain ⟨rfl, rfl⟩ := Prod.mk.inj (Option.some.inj he)
      refine ⟨fun i hi => ?_, fun i hi => ?_, fun heq => ?_⟩
      · exact .inr ((h.emails i uid').2 ⟨old, hold, hi⟩)
      · rw [usernameField_eq (ne_empty_of_validateUsername hname)] at hi
        obtain rfl := Option.some.inj hi
        exact .inl hfree.2
      · rw [hold] at heq
        exact hfree.1 (congrArg User.username (Option.some.inj heq))
    · cases he
  | ensureRoot uid' nowMs =>
    rw [changedUser] at he
    split_ifs at he with hfree
    obtain ⟨rfl, rfl⟩ := Prod.mk.inj (Option.some.inj he)
    refine ⟨fun i hi => (by cases hi), fun i hi => ?_, by rw [hfree.1]; simp⟩
    rw [usernameField_eq (by decide : rootUsername ≠ "")] at hi
    obtain rfl := Option.some.inj hi
    exact .inl hfree.2
  | reopen => cases he

/-- **One step** from a sound registry leads to a sound one exactly when it keeps the users. -/
lemma registrySound_step_iff (h : RegistrySound reg) (e : RegistryEvent) :
    RegistrySound (registryStep env reg e) ↔ KeepsUsers env reg e := by
  by_cases he : e = .reopen
  · subst he
    exact ⟨fun _ uid user hno => (by cases hno), fun _ => h.reopen⟩
  · rw [registryStep_eq h he, KeepsUsers]
    cases hchanged : changedUser env reg e with
    | none => exact ⟨fun _ uid user hno => (by cases hno), fun _ => h⟩
    | some entry =>
      obtain ⟨uid, user⟩ := entry
      obtain ⟨hemail, husername, hne⟩ := changedUser_spec h hchanged
      constructor
      · intro hnext uid' user' heq
        obtain ⟨rfl, rfl⟩ := Prod.mk.inj (Option.some.inj heq)
        exact h.fileFits hne hnext
      · exact fun hkeeps => h.put hemail husername (hkeeps uid user rfl)

lemma register_error {email username : String} {nowMs : ℕ} {err : RegisterError}
    (h : (reg.register env email username uid nowMs).1 = .error err) :
    (reg.register env email username uid nowMs).2 = reg := by
  unfold UserRegistry.register at h ⊢
  cases hname : validateUsername env username with
  | error err => rfl
  | ok name =>
    cases hmail : validateEmail env email with
    | error err => rfl
    | ok mail =>
      rw [hname, hmail] at h
      dsimp only at h ⊢
      by_cases hnameTaken : (reg.usernameIndex name).isSome = true
      · rw [if_pos hnameTaken]
      · by_cases hmailTaken : (reg.emailIndex mail).isSome = true
        · rw [if_neg hnameTaken, if_pos hmailTaken]
        · rw [if_neg hnameTaken, if_neg hmailTaken] at h
          cases h

lemma setUsername_error {newUsername : String} {err : RegisterError}
    (h : (reg.setUsername env uid newUsername).1 = .error err) :
    (reg.setUsername env uid newUsername).2 = reg := by
  unfold UserRegistry.setUsername at h ⊢
  cases hname : validateUsername env newUsername with
  | error err => rfl
  | ok name =>
    cases hold : reg.users uid with
    | none => rfl
    | some user =>
      rw [hname, hold] at h
      dsimp only at h ⊢
      by_cases hsame : user.username = name
      · rw [if_pos hsame]
      · by_cases htaken : (reg.usernameIndex name).any (· ≠ uid) = true
        · rw [if_neg hsame, if_pos htaken]
        · rw [if_neg hsame, if_neg htaken] at h
          cases h

/-- An email that is taken leaves the old one in its place. -/
lemma setEmail_error (hsound : RegistrySound reg) {newEmail : String} {err : RegisterError}
    (h : (reg.setEmail env uid newEmail).1 = .error err) :
    (reg.setEmail env uid newEmail).2 = reg := by
  unfold UserRegistry.setEmail at h ⊢
  cases hmail : validateEmail env newEmail with
  | error err => rfl
  | ok mail =>
    cases hold : reg.users uid with
    | none => rfl
    | some user =>
      rw [hmail, hold] at h
      dsimp only at h ⊢
      by_cases hsame : user.email = some mail
      · rw [if_pos hsame]
      · by_cases htaken :
            (UserRegistry.releaseEmail reg.emailIndex user.email mail).isSome = true
        · rw [if_neg hsame, if_pos htaken]
          dsimp only
          rw [restoreEmail_releaseEmail hsound hold]
        · rw [if_neg hsame, if_neg htaken] at h
          cases h

/-- **An error changes nothing** in a sound registry. -/
lemma RegistrySound.errorUnchanged (h : RegistrySound reg) (e : RegistryEvent) :
    ErrorUnchanged env reg e := by
  intro err herr
  cases e with
  | register email username uid nowMs =>
    rw [registryError] at herr
    rw [registryStep]
    split_ifs
    · rfl
    · cases hresult : (reg.register env email username uid nowMs).1 with
      | error err => exact register_error hresult
      | ok user =>
        rw [hresult] at herr
        cases herr
  | setEmail uid newEmail =>
    rw [registryError] at herr
    cases hresult : (reg.setEmail env uid newEmail).1 with
    | error err => exact setEmail_error h hresult
    | ok _ =>
      rw [hresult] at herr
      cases herr
  | setUsername uid newUsername =>
    rw [registryError] at herr
    cases hresult : (reg.setUsername env uid newUsername).1 with
    | error err => exact setUsername_error hresult
    | ok _ =>
      rw [hresult] at herr
      cases herr
  | ensureRoot uid nowMs => cases herr
  | reopen => cases herr

end

/-! ## Runs -/

/-- **The registry keeps its users and its indexes**, and an operation that returns an error changes
nothing, throughout a run exactly when the file of each edit fits. -/
theorem registrySound_iff (env : RegistryEnv) (d : LegalDisk) (es : List RegistryEvent) :
    Run.Always (registryStep env) RegistrySound (openRegistry d.toUsersDisk) es ∧
        Run.EachStep (registryStep env) (ErrorUnchanged env) (openRegistry d.toUsersDisk) es ↔
      Run.EachStep (registryStep env) (KeepsUsers env) (openRegistry d.toUsersDisk) es :=
  Run.always_and_eachStep_iff (fun _ e h =>
    (and_iff_left (h.errorUnchanged e)).trans (registrySound_step_iff h e)) d.registrySound

/-! ## Two users of `users.json` -/

/-- A user of the older file. -/
def oldUser (uid username email : String) : String × User :=
  (uid, ⟨uid, username, some email, true, 0⟩)

/-- The older file has two users, and there are no directories. -/
def oldPair : UsersDisk :=
  ⟨[oldUser "myclaw/u/1" "anna" "anna@x.org", oldUser "myclaw/u/2" "ben" "ben@x.org"], []⟩

/-- The two users share no email. -/
lemma oldPair_emails :
    ∀ x ∈ oldPair.stored, ∀ y ∈ oldPair.stored, x.2.email = y.2.email → x.1 = y.1 := by
  decide

/-- The two users share no username. -/
lemma oldPair_usernames : ∀ x ∈ oldPair.stored, ∀ y ∈ oldPair.stored,
    x.2.usernameField = y.2.usernameField → x.1 = y.1 := by
  decide

/-- The older file of the two users, which is legal. -/
def legacyPair : LegalDisk where
  toUsersDisk := oldPair
  uids := by decide
  emails x hx y hy _ hxi hyi := oldPair_emails x hx y hy (hxi.trans hyi.symm)
  usernames x hx y hy _ hxi hyi := oldPair_usernames x hx y hy (hxi.trans hyi.symm)

/-- **The other user is gone at the next start** when one of two users of the older file has changed
her email. -/
theorem not_registrySound_legacyPair :
    ¬ (Run.Always (registryStep ⟨some, id⟩) RegistrySound (openRegistry legacyPair.toUsersDisk)
          [.setEmail "myclaw/u/1" "a@x.org"] ∧
        Run.EachStep (registryStep ⟨some, id⟩) (ErrorUnchanged ⟨some, id⟩)
          (openRegistry legacyPair.toUsersDisk) [.setEmail "myclaw/u/1" "a@x.org"]) := by
  rintro ⟨h, -⟩
  have hreopens := h.last.reopens _ ⟨.refl _, .refl _⟩
  have hben := congrFun hreopens "myclaw/u/2"
  revert hben
  decide

end MyClaw
