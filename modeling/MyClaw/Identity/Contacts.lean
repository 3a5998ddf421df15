import MyClaw.Lib.Run
import Mathlib.Logic.Function.Basic

set_option autoImplicit false

/-!
# Contacts

The contacts of `KnownUsersRegistry` (`identity/known_users/registry.rs`): a relationship is two
entries, one under each of the two users, and each operation of one user changes its own entry and
mirrors the change to the other under a condition of its own.

## Main definitions

* `Contacts` — owner and peer to contact entry.
* `Contacts.requestFriend` to `Contacts.removeFriend` — the operations of a user.
* `Contacts.migrateIdentity` — the contacts of one key are folded into another.
* `Contacts.deliveryVerdict` — may a message be delivered?
* `FriendRegistry.step` — one operation on the registry.

## Main results

* `Contacts.acceptFriend_cases`, `Contacts.declineFriend_cases` — an operation does
  nothing or what it is for.

## Implementation notes

The operations are those of the source after the two ids have been resolved;
`FriendRegistry.step` resolves them, and a user is one of the ids that it gives.  An operation
holds its locks one after the other; here it is one step.  The flag that the table has changed is in
the module of the mailbox.
-/

namespace MyClaw

/-! ## Types -/

/-- `ContactDirection`, as the owner of the entry sees it. -/
inductive ContactDirection
  /-- The peer has asked. -/
  | inward
  /-- The owner has asked. -/
  | outward
  deriving DecidableEq

/-- `ContactStatus`. -/
inductive ContactStatus
  | pending
  | accepted
  | declined
  | blocked
  deriving DecidableEq

/-- `ContactEntry`; times are in milliseconds. -/
structure ContactEntry where
  status : ContactStatus
  direction : ContactDirection
  requestedAt : ℕ
  acceptedAt : ℕ
  lastDeclinedAt : ℕ
  deriving DecidableEq

/-- `RequestOutcome`. -/
inductive RequestOutcome
  | new
  | alreadyPending
  | alreadyAccepted
  | blockedByPeer
  | declinedTooSoon
  deriving DecidableEq

/-- `DeliveryVerdict`. -/
inductive DeliveryVerdict
  | allowed
  | notFriends
  | blocked
  deriving DecidableEq

/-- `FRIEND_REQUEST_COOLDOWN_MS`. -/
def friendRequestCooldownMs : ℕ := 24 * 60 * 60 * 1000

/-- The entry of an owner for a peer. -/
abbrev Contacts := String × String → Option ContactEntry

/-! ## The operations -/

/-- What an entry of the peer answers to a request. -/
def peerView (now : ℕ) : Option ContactEntry → Option RequestOutcome
  | none => none
  | some entry =>
    match entry.status with
    | .blocked => some .blockedByPeer
    | .accepted => some .alreadyAccepted
    | .declined =>
      if now - entry.lastDeclinedAt < friendRequestCooldownMs then some .declinedTooSoon else none
    | .pending => some .alreadyPending

/-- What an entry of the owner answers to its own request. -/
def ownerView : Option ContactEntry → Option RequestOutcome
  | none => none
  | some entry =>
    match entry.status with
    | .accepted => some .alreadyAccepted
    | .pending => some .alreadyPending
    | .blocked | .declined => none

namespace Contacts

variable (c : Contacts) (now : ℕ) (owner peer : String)

/-- The outcome of a request. -/
def requestOutcome : RequestOutcome :=
  ((peerView now (c (peer, owner))).or (ownerView (c (owner, peer)))).getD .new

/-- The two entries of a new request. -/
def putRequest : Contacts :=
  Function.update (Function.update c (owner, peer) (some ⟨.pending, .outward, now, 0, 0⟩))
    (peer, owner) (some ⟨.pending, .inward, now, 0, 0⟩)

/-- `request_friend`. -/
def requestFriend : Contacts × RequestOutcome :=
  match c.requestOutcome now owner peer with
  | .new => (c.putRequest now owner peer, .new)
  | outcome => (c, outcome)

/-- A change of the entry of the owner, and of that of the peer if there is one. -/
def mirror (entry : ContactEntry) (f : ContactEntry → ContactEntry) : Contacts :=
  let c := Function.update c (owner, peer) (some (f entry))
  Function.update c (peer, owner) ((c (peer, owner)).map f)

/-- `accept_friend`. -/
def acceptFriend : Contacts × Bool :=
  match c (owner, peer) with
  | some entry =>
    if entry.status = .pending ∧ entry.direction = .inward then
      (c.mirror owner peer entry fun e => { e with status := .accepted, acceptedAt := now }, true)
    else (c, false)
  | none => (c, false)

/-- `decline_friend`; the direction is not looked at. -/
def declineFriend : Contacts × Bool :=
  match c (owner, peer) with
  | some entry =>
    if entry.status = .pending then
      (c.mirror owner peer entry fun e => { e with status := .declined, lastDeclinedAt := now }, true)
    else (c, false)
  | none => (c, false)

/-- `block_friend`; the entry of the peer stays as it is. -/
def blockFriend : Contacts :=
  let entry := (c (owner, peer)).getD ⟨.pending, .inward, now, 0, 0⟩
  Function.update c (owner, peer) (some { entry with status := .blocked })

/-- The entry of the owner is removed if it has a status. -/
def dropStatus (status : ContactStatus) : Contacts × Bool :=
  match c (owner, peer) with
  | some entry =>
    if entry.status = status then (Function.update c (owner, peer) none, true) else (c, false)
  | none => (c, false)

/-- `unblock_friend`; the entry of the peer stays as it is. -/
def unblockFriend : Contacts × Bool := c.dropStatus owner peer .blocked

/-- `remove_friend`. -/
def removeFriend : Contacts × Bool :=
  let first := c.dropStatus owner peer .accepted
  if first.2 then ((first.1.dropStatus peer owner .accepted).1, true) else first

/-- The entries of `old` as an owner, under `new`; where `new` has an entry it stays. -/
def foldOwner (old new : String) : Contacts := fun k =>
  if k.1 = old then none
  else if k.1 = new then (c (new, k.2)).or (c (old, k.2))
  else c k

/-- The entries of others for `old`, for `new`; where there is one for `new` it stays. -/
def foldPeer (old new : String) : Contacts := fun k =>
  if k.2 = old then none
  else if k.2 = new then (c (k.1, new)).or (c (k.1, old))
  else c k

/-- `migrate_identity`, its part about contacts; the keys are not resolved. -/
def migrateIdentity (oldRk newUid : String) : Contacts :=
  if oldRk = newUid then c else (c.foldOwner oldRk newUid).foldPeer oldRk newUid

/-- `delivery_verdict`, for resolved ids. -/
def deliveryVerdict (from_ to_ : String) : DeliveryVerdict :=
  match c (to_, from_) with
  | some entry =>
    match entry.status with
    | .accepted => .allowed
    | .blocked => .blocked
    | _ => .notFriends
  | none => .notFriends

end Contacts

/-! ## The registry -/

/-- An operation on the contacts, with the time at which it is made. -/
inductive FriendOp
  | request (now : ℕ) (owner peer : String)
  | accept (now : ℕ) (owner peer : String)
  | decline (now : ℕ) (owner peer : String)
  | block (now : ℕ) (owner peer : String)
  | unblock (owner peer : String)
  | remove (owner peer : String)
  | migrate (oldRk newUid : String)
  deriving DecidableEq

/-- The operation on the ids that `resolve` gives. -/
def FriendOp.resolved (resolve : String → String) : FriendOp → FriendOp
  | request now owner peer => .request now (resolve owner) (resolve peer)
  | accept now owner peer => .accept now (resolve owner) (resolve peer)
  | decline now owner peer => .decline now (resolve owner) (resolve peer)
  | block now owner peer => .block now (resolve owner) (resolve peer)
  | unblock owner peer => .unblock (resolve owner) (resolve peer)
  | remove owner peer => .remove (resolve owner) (resolve peer)
  | migrate oldRk newUid => .migrate oldRk newUid

/-- What an operation makes of the contacts. -/
def Contacts.apply (c : Contacts) : FriendOp → Contacts
  | .request now owner peer => (c.requestFriend now owner peer).1
  | .accept now owner peer => (c.acceptFriend now owner peer).1
  | .decline now owner peer => (c.declineFriend now owner peer).1
  | .block now owner peer => c.blockFriend now owner peer
  | .unblock owner peer => (c.unblockFriend owner peer).1
  | .remove owner peer => (c.removeFriend owner peer).1
  | .migrate oldRk newUid => c.migrateIdentity oldRk newUid

/-- The registry, its part about contacts; the resolver, where one is installed, has the overrides of
`UserResolver`. -/
structure FriendRegistry where
  contacts : Contacts
  resolver : Option (String → Option String)

/-- An operation, or an identity that is bound in the resolver. -/
inductive FriendEvent
  | op (op : FriendOp)
  | bind (routingKey userId : String)

namespace FriendRegistry

/-- The registry before its first contact. -/
def empty (resolver : Option (String → Option String)) : FriendRegistry := ⟨fun _ => none, resolver⟩

/-- `resolve_uid`. -/
def resolveUid (r : FriendRegistry) (key : String) : String :=
  match r.resolver with
  | some overrides => (overrides key).getD key
  | none => key

/-- One operation on the registry. -/
def step (r : FriendRegistry) : FriendEvent → FriendRegistry
  | .op op => { r with contacts := r.contacts.apply (op.resolved r.resolveUid) }
  | .bind routingKey userId =>
    { r with resolver := r.resolver.map fun overrides =>
        Function.update overrides routingKey (some userId) }

end FriendRegistry

/-! ## What an operation does -/

namespace Contacts

/-- The status of an entry, if there is one. -/
def status (c : Contacts) (owner peer : String) : Option ContactStatus :=
  (c (owner, peer)).map (·.status)

variable {c : Contacts} {now : ℕ} {owner peer : String} {x y : String}

lemma status_eq_some_iff {s : ContactStatus} :
    c.status x y = some s ↔ ∃ e, c (x, y) = some e ∧ e.status = s := Option.map_eq_some_iff

@[simp] lemma status_eq_none_iff : c.status x y = none ↔ c (x, y) = none := Option.map_eq_none_iff

lemma deliveryVerdict_eq_allowed_iff :
    c.deliveryVerdict x y = .allowed ↔ c.status y x = some .accepted := by
  unfold deliveryVerdict status
  cases c (y, x) with
  | none => simp
  | some e => cases h : e.status <;> simp [h]

/-- **A request is new** exactly when neither entry refuses it. -/
lemma requestOutcome_eq_new_iff : c.requestOutcome now owner peer = .new
    ↔ peerView now (c (peer, owner)) = none ∧ ownerView (c (owner, peer)) = none := by
  have hpeer : peerView now (c (peer, owner)) ≠ some .new := by
    unfold peerView
    split
    · exact nofun
    · split
      · exact nofun
      · exact nofun
      · split <;> exact nofun
      · exact nofun
  have howner : ownerView (c (owner, peer)) ≠ some .new := by
    unfold ownerView
    split
    · exact nofun
    · split <;> exact nofun
  unfold requestOutcome
  cases hp : peerView now (c (peer, owner)) with
  | some o => simpa [hp] using hpeer
  | none =>
    cases ho : ownerView (c (owner, peer)) with
    | some o => simpa [ho] using howner
    | none => simp

lemma requestFriend_fst : (c.requestFriend now owner peer).1
    = if c.requestOutcome now owner peer = .new then c.putRequest now owner peer else c := by
  unfold requestFriend
  split
  · rename_i h
    rw [if_pos h]
  · rename_i h
    rw [if_neg h]

lemma peerView_eq_none_iff : peerView now (c (x, y)) = none ↔
    c (x, y) = none ∨ ∃ e, c (x, y) = some e ∧ e.status = .declined
      ∧ friendRequestCooldownMs ≤ now - e.lastDeclinedAt := by
  unfold peerView
  cases c (x, y) with
  | none => simp
  | some e => cases h : e.status <;> simp [h]

lemma ownerView_eq_none_iff : ownerView (c (x, y)) = none ↔
    c.status x y = none ∨ c.status x y = some .blocked ∨ c.status x y = some .declined := by
  unfold ownerView status
  cases c (x, y) with
  | none => simp
  | some e => cases h : e.status <;> simp [h]

/-- The two entries of a new request. -/
lemma putRequest_apply : c.putRequest now owner peer (x, y)
    = if x = peer ∧ y = owner then some ⟨.pending, .inward, now, 0, 0⟩
      else if x = owner ∧ y = peer then some ⟨.pending, .outward, now, 0, 0⟩ else c (x, y) := by
  simp [putRequest, Function.update_apply, Prod.ext_iff]

/-- The two entries of a mirrored change. -/
lemma mirror_apply {e : ContactEntry} {f : ContactEntry → ContactEntry} (hne : owner ≠ peer) :
    c.mirror owner peer e f (x, y) = if x = owner ∧ y = peer then some (f e)
      else if x = peer ∧ y = owner then (c (peer, owner)).map f else c (x, y) := by
  have hpair : ((peer, owner) : String × String) ≠ (owner, peer) := fun h =>
    hne (congrArg Prod.snd h)
  unfold mirror
  rw [Function.update_of_ne hpair, Function.update_apply, Function.update_apply]
  simp only [Prod.mk.injEq]
  split <;> rename_i h
  · rw [if_neg (fun h' => hne (h'.1.symm.trans h.1))]
  · rfl

/-- The statuses after a mirrored change. -/
lemma status_mirror {e : ContactEntry} {f : ContactEntry → ContactEntry} {s : ContactStatus}
    (hf : ∀ e, (f e).status = s) :
    (c.mirror owner peer e f).status x y = if x = owner ∧ y = peer then some s
      else if x = peer ∧ y = owner then (c.status peer owner).map fun _ => s
      else c.status x y := by
  by_cases hne : owner = peer
  · subst hne
    unfold mirror status
    by_cases h : x = owner ∧ y = owner
    · simp [h, hf]
    · simp [h, Prod.ext_iff]
  · unfold status
    rw [mirror_apply hne]
    split
    · simp [hf]
    · split
      · cases c (peer, owner) <;> simp [hf]
      · rfl

variable (c now owner peer) in
/-- Accepting does nothing without a pending request of the peer. -/
lemma acceptFriend_cases : (c.acceptFriend now owner peer).1 = c ∧
      (∀ e ∈ c (owner, peer), ¬ (e.status = .pending ∧ e.direction = .inward)) ∨
    ∃ e, c (owner, peer) = some e ∧ e.status = .pending ∧ e.direction = .inward ∧
      (c.acceptFriend now owner peer).1
        = c.mirror owner peer e fun e => { e with status := .accepted, acceptedAt := now } := by
  unfold acceptFriend
  cases h : c (owner, peer) with
  | none => exact .inl ⟨rfl, nofun⟩
  | some e =>
    dsimp only
    split
    · rename_i hpending
      exact .inr ⟨e, rfl, hpending.1, hpending.2, rfl⟩
    · rename_i hpending
      exact .inl ⟨rfl, fun e' he' => Option.some.inj he' ▸ hpending⟩

variable (c now owner peer) in
/-- Declining does nothing without a pending entry. -/
lemma declineFriend_cases : (c.declineFriend now owner peer).1 = c ∧
      c.status owner peer ≠ some .pending ∨
    ∃ e, c (owner, peer) = some e ∧ e.status = .pending ∧
      (c.declineFriend now owner peer).1
        = c.mirror owner peer e fun e => { e with status := .declined, lastDeclinedAt := now } := by
  unfold declineFriend status
  cases h : c (owner, peer) with
  | none => exact .inl ⟨rfl, nofun⟩
  | some e =>
    dsimp only
    split
    · rename_i hpending
      exact .inr ⟨e, rfl, hpending, rfl⟩
    · rename_i hpending
      exact .inl ⟨rfl, fun hsome => hpending (Option.some.inj hsome)⟩

lemma dropStatus_cases (c : Contacts) (owner peer : String) (s : ContactStatus) :
    c.dropStatus owner peer s = (c, false) ∧ c.status owner peer ≠ some s ∨
    c.dropStatus owner peer s = (Function.update c (owner, peer) none, true) ∧
      c.status owner peer = some s := by
  unfold dropStatus status
  cases h : c (owner, peer) with
  | none => exact .inl ⟨rfl, nofun⟩
  | some e =>
    dsimp only
    split
    · rename_i hs
      exact .inr ⟨rfl, congrArg some hs⟩
    · rename_i hs
      exact .inl ⟨rfl, fun hsome => hs (Option.some.inj hsome)⟩

end Contacts

end MyClaw
