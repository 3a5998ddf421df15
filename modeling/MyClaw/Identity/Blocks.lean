import MyClaw.Identity.Contacts

set_option autoImplicit false

/-!
# Blocked contacts

`block_friend` is to stop delivery in both directions until `unblock_friend`
(`identity/known_users/registry.rs`).

## Main definitions

* `Contacts.Blocks` — an owner has blocked a peer.
* `Contacts.BlocksHold` — no message is delivered between two users of whom one blocks the
  other.
* `Contacts.KeepsBlocks` — an operation leaves every block but the one that it is to lift.
* `Contacts.BlockSafe` — the condition under which it does both.

## Main results

* `FriendRegistry.blocks_hold_iff` — blocks hold throughout a run exactly when all of its
  operations are safe.
* `FriendRegistry.blocked_friend_still_reached` — the user who blocks a friend can still write
  to it.
-/

namespace MyClaw

/-- The id under which a user goes on after an operation. -/
def FriendOp.renamed : FriendOp → String → String
  | .migrate oldRk newUid, x => if x = oldRk then newUid else x
  | _, x => x

lemma FriendOp.renamed_migrate {old new x : String} :
    (FriendOp.migrate old new).renamed x = if x = old then new else x := rfl

namespace Contacts

/-! ## Blocks and their condition -/

/-- `owner` has blocked `peer`. -/
def Blocks (c : Contacts) (owner peer : String) : Prop := c.status owner peer = some .blocked

instance (c : Contacts) (owner peer : String) : Decidable (c.Blocks owner peer) :=
  inferInstanceAs (Decidable (_ = _))

/-- No message is delivered between two users of whom one blocks the other. -/
def BlocksHold (c : Contacts) : Prop :=
  ∀ a b, c.deliveryVerdict a b = .allowed → ¬ c.Blocks a b ∧ ¬ c.Blocks b a

/-- Every block is still there after the operation, unless it is the unblock of the user who has
blocked. -/
def KeepsBlocks (c : Contacts) (op : FriendOp) : Prop :=
  ∀ a b, c.Blocks a b → op ≠ .unblock a b → (c.apply op).Blocks (op.renamed a) (op.renamed b)

/-- Folding `old` into `new` hides no block behind another entry, and joins no block of one of the two
with a friendship of the other. -/
structure MergeSafe (c : Contacts) (old new : String) : Prop where
  own : ∀ x, x ≠ old → x ≠ new → c.Blocks old x → ∀ s ∈ c.status new x, s = .blocked
  others : ∀ x, x ≠ old → x ≠ new → c.Blocks x old → ∀ s ∈ c.status x new, s = .blocked
  /-- The entries of the two for each other become one, the first there is in this order. -/
  each : c.Blocks new new ∨ c.Blocks old new ∨ c.Blocks new old ∨ c.Blocks old old →
    ((c.status new new).or (c.status old new)).or ((c.status new old).or (c.status old old))
      = some .blocked
  blocksOld : ∀ x, x ≠ old → x ≠ new → c.Blocks x old → c.status x new = none →
    c.status new x ≠ some .accepted
  blocksNew : ∀ x, x ≠ old → x ≠ new → c.Blocks x new → c.status new x = none →
    c.status old x ≠ some .accepted
  oldBlocks : ∀ x, x ≠ old → x ≠ new → c.Blocks old x → c.status new x = none →
    c.status x new ≠ some .accepted
  newBlocks : ∀ x, x ≠ old → x ≠ new → c.Blocks new x → c.status x new = none →
    c.status x old ≠ some .accepted

/-- The condition of an operation: no request to a user whom one blocks, unless it is refused; no
answer to a request of a user who blocks the one that answers; no block of a user by whom one is
accepted; and a safe merge. -/
def BlockSafe (c : Contacts) : FriendOp → Prop
  | .request now owner peer => c.Blocks owner peer → peerView now (c (peer, owner)) ≠ none
  | .accept _ owner peer => c.Blocks peer owner →
      ∀ e ∈ c (owner, peer), ¬ (e.status = .pending ∧ e.direction = .inward)
  | .decline _ owner peer => c.Blocks peer owner → c.status owner peer ≠ some .pending
  | .block _ owner peer => owner ≠ peer → c.status peer owner ≠ some .accepted
  | .unblock .. | .remove .. => True
  | .migrate oldRk newUid => oldRk ≠ newUid → c.MergeSafe oldRk newUid

/-! ## The operations on two entries -/

section Steps

variable {c : Contacts} {now : ℕ} {owner peer a b x y old new : String}

lemma blocksHold_iff : c.BlocksHold ↔ ∀ a b, c.status b a = some .accepted → ¬ c.Blocks a b := by
  unfold BlocksHold
  constructor
  · intro h a b hab
    exact (h a b (deliveryVerdict_eq_allowed_iff.2 hab)).1
  · intro h a b hab
    rw [deliveryVerdict_eq_allowed_iff] at hab
    refine ⟨h a b hab, fun hblocks => ?_⟩
    rw [Blocks, hab] at hblocks
    cases hblocks

/-- A change that makes no entry accepted and no entry blocked leaves blocks in force. -/
lemma BlocksHold.of_less {d : Contacts} (h : c.BlocksHold)
    (haccepted : ∀ x y, d.status x y = some .accepted → c.status x y = some .accepted)
    (hblocked : ∀ x y, d.Blocks x y → c.Blocks x y) : d.BlocksHold :=
  blocksHold_iff.2 fun a b hab hblocks =>
    blocksHold_iff.1 h a b (haccepted b a hab) (hblocked a b hblocks)

/-- A request keeps the blocks exactly if it is safe. -/
lemma blockSafe_request (h : c.BlocksHold) :
    (c.apply (.request now owner peer)).BlocksHold ∧ c.KeepsBlocks (.request now owner peer)
      ↔ c.BlockSafe (.request now owner peer) := by
  have hstatus : c.requestOutcome now owner peer = .new → ∀ x y,
      (c.apply (.request now owner peer)).status x y
        = if (x = peer ∧ y = owner) ∨ (x = owner ∧ y = peer) then some .pending
          else c.status x y := by
    intro hnew x y
    simp only [apply, requestFriend_fst, if_pos hnew]
    unfold status
    rw [putRequest_apply]
    grind
  by_cases hnew : c.requestOutcome now owner peer = .new
  · have hstatus := hstatus hnew
    obtain ⟨hpeer, howner⟩ := requestOutcome_eq_new_iff.1 hnew
    have hpeer' : ¬ c.Blocks peer owner := by
      intro hblocks
      obtain ⟨e, he, hs⟩ := status_eq_some_iff.1 hblocks
      rw [he, peerView, hs] at hpeer
      cases hpeer
    constructor
    · rintro ⟨-, hkeeps⟩ hblocks
      have hgone := hkeeps owner peer hblocks nofun
      simp only [FriendOp.renamed, Blocks, hstatus] at hgone
      simp at hgone
    · intro hsafe
      have howner' : ¬ c.Blocks owner peer := fun hblocks => hsafe hblocks hpeer
      refine ⟨h.of_less (fun x y hxy => ?_) fun x y hxy => ?_, fun a b hab _ => ?_⟩
      · rw [hstatus] at hxy
        split at hxy
        · cases hxy
        · exact hxy
      · rw [Blocks, hstatus] at hxy
        split at hxy
        · cases hxy
        · exact hxy
      · show (c.apply _).Blocks a b
        rw [Blocks, hstatus, if_neg]
        · exact hab
        · rintro (⟨rfl, rfl⟩ | ⟨rfl, rfl⟩)
          · exact hpeer' hab
          · exact howner' hab
  · have hsame : c.apply (.request now owner peer) = c := by
      simp only [apply, requestFriend_fst, if_neg hnew]
    rw [hsame]
    refine ⟨fun _ hblocks hpeer => hnew ?_, fun _ => ⟨h, fun a b hab _ => ?_⟩⟩
    · exact requestOutcome_eq_new_iff.2
        ⟨hpeer, ownerView_eq_none_iff.2 (.inr (.inl hblocks))⟩
    · rw [hsame]
      exact hab

/-- An answer to a pending entry, mirrored to the peer. -/
lemma blockSafe_mirror {op : FriendOp} {e : ContactEntry} {f : ContactEntry → ContactEntry}
    {s : ContactStatus} (h : c.BlocksHold) (he : c (owner, peer) = some e)
    (hpending : e.status = .pending) (happly : c.apply op = c.mirror owner peer e f)
    (hf : ∀ e, (f e).status = s) (hs : s ≠ .blocked) (hop : ∀ a b, op ≠ .unblock a b)
    (hren : ∀ a, op.renamed a = a) :
    (c.apply op).BlocksHold ∧ c.KeepsBlocks op ↔ ¬ c.Blocks peer owner := by
  have hstatus : ∀ x y, (c.apply op).status x y = if x = owner ∧ y = peer then some s
      else if x = peer ∧ y = owner then (c.status peer owner).map fun _ => s
      else c.status x y := fun x y => by rw [happly, status_mirror hf]
  have howner : ¬ c.Blocks owner peer := by
    simp [Blocks, status, he, hpending]
  have hmirror : (c.status peer owner).map (fun _ => s) ≠ some .blocked := by
    cases c.status peer owner <;> simp [hs]
  constructor
  · rintro ⟨-, hkeeps⟩ hblocks
    have hgone := hkeeps peer owner hblocks (hop _ _)
    rw [hren, hren, Blocks, hstatus] at hgone
    grind [Blocks]
  · intro hpeer
    refine ⟨blocksHold_iff.2 fun a b hab hblocks => ?_, fun a b hab _ => ?_⟩
    · rw [hstatus] at hab
      rw [Blocks, hstatus] at hblocks
      have hold := blocksHold_iff.1 h a b
      grind [Blocks]
    · rw [hren, hren, Blocks, hstatus]
      grind [Blocks]

lemma blockSafe_accept (h : c.BlocksHold) :
    (c.apply (.accept now owner peer)).BlocksHold ∧ c.KeepsBlocks (.accept now owner peer)
      ↔ c.BlockSafe (.accept now owner peer) := by
  rcases acceptFriend_cases c now owner peer with
    ⟨hsame, hnone⟩ | ⟨e, he, hpending, hdirection, happly⟩
  · have hsame : c.apply (.accept now owner peer) = c := hsame
    rw [hsame]
    exact ⟨fun _ _ => hnone, fun _ => ⟨h, fun a b hab _ => by rw [hsame]; exact hab⟩⟩
  · have hiff : (c.apply (.accept now owner peer)).BlocksHold ∧ c.KeepsBlocks (.accept now owner peer)
        ↔ ¬ c.Blocks peer owner :=
      blockSafe_mirror h he hpending happly (fun _ => rfl) (by decide) nofun fun _ => rfl
    rw [hiff]
    constructor
    · exact fun hno hblocks => absurd hblocks hno
    · exact fun hsafe hblocks => hsafe hblocks e he ⟨hpending, hdirection⟩

lemma blockSafe_decline (h : c.BlocksHold) :
    (c.apply (.decline now owner peer)).BlocksHold ∧ c.KeepsBlocks (.decline now owner peer)
      ↔ c.BlockSafe (.decline now owner peer) := by
  rcases declineFriend_cases c now owner peer with
    ⟨hsame, hnone⟩ | ⟨e, he, hpending, happly⟩
  · have hsame : c.apply (.decline now owner peer) = c := hsame
    rw [hsame]
    exact ⟨fun _ _ => hnone, fun _ => ⟨h, fun a b hab _ => by rw [hsame]; exact hab⟩⟩
  · have hiff : (c.apply (.decline now owner peer)).BlocksHold ∧ c.KeepsBlocks (.decline now owner peer)
        ↔ ¬ c.Blocks peer owner :=
      blockSafe_mirror h he hpending happly (fun _ => rfl) (by decide) nofun fun _ => rfl
    rw [hiff]
    constructor
    · exact fun hno hblocks => absurd hblocks hno
    · exact fun hsafe hblocks => hsafe hblocks (status_eq_some_iff.2 ⟨e, he, hpending⟩)

/-- So does a block. -/
lemma blockSafe_block (h : c.BlocksHold) :
    (c.apply (.block now owner peer)).BlocksHold ∧ c.KeepsBlocks (.block now owner peer)
      ↔ c.BlockSafe (.block now owner peer) := by
  have hstatus : ∀ x y, (c.apply (.block now owner peer)).status x y
      = if x = owner ∧ y = peer then some .blocked else c.status x y := by
    intro x y
    simp only [apply, blockFriend, status, Function.update_apply, Prod.mk.injEq]
    split <;> rfl
  constructor
  · rintro ⟨hhold, -⟩ hne haccepted
    refine blocksHold_iff.1 hhold owner peer ?_ ?_
    · rw [hstatus, if_neg (fun h' => hne h'.2), haccepted]
    · rw [Blocks, hstatus, if_pos ⟨rfl, rfl⟩]
  · intro hsafe
    refine ⟨blocksHold_iff.2 fun a b hab hblocks => ?_, fun a b hab _ => ?_⟩
    · rw [hstatus] at hab
      rw [Blocks, hstatus] at hblocks
      have hold := blocksHold_iff.1 h a b
      unfold BlockSafe at hsafe
      grind [Blocks]
    · show (c.apply _).Blocks a b
      rw [Blocks, hstatus]
      split
      · rfl
      · exact hab

/-- An entry is dropped that has a status. -/
lemma status_drop {x y : String} : status (Function.update c (owner, peer) none) x y
    = if x = owner ∧ y = peer then none else c.status x y := by
  simp only [status, Function.update_apply, Prod.mk.injEq]
  split <;> rfl

/-- Dropping entries brings no block into question. -/
lemma BlocksHold.drop (h : c.BlocksHold) :
    BlocksHold (Function.update c (owner, peer) none) := by
  refine h.of_less (fun x y hxy => ?_) fun x y hxy => ?_
  · rw [status_drop] at hxy
    split at hxy
    · cases hxy
    · exact hxy
  · rw [Blocks, status_drop] at hxy
    split at hxy
    · cases hxy
    · exact hxy

lemma BlocksHold.dropStatus (h : c.BlocksHold) (s : ContactStatus) :
    (c.dropStatus owner peer s).1.BlocksHold := by
  rcases c.dropStatus_cases owner peer s with ⟨hsame, -⟩ | ⟨hdrop, -⟩
  · rw [hsame]
    exact h
  · rw [hdrop]
    exact h.drop

/-- Dropping an entry with another status leaves a block. -/
lemma Blocks.dropStatus (h : c.Blocks a b) {s : ContactStatus}
    (hs : s ≠ .blocked ∨ ¬ (a = owner ∧ b = peer)) : (c.dropStatus owner peer s).1.Blocks a b := by
  rcases c.dropStatus_cases owner peer s with ⟨hsame, -⟩ | ⟨hdrop, hstatus⟩
  · rw [hsame]
    exact h
  · rw [hdrop, Blocks, status_drop, if_neg]
    · exact h
    · rintro ⟨rfl, rfl⟩
      rcases hs with hs | hs
      · exact hs (Option.some.inj (hstatus.symm.trans h))
      · exact hs ⟨rfl, rfl⟩

lemma blocksHold_unblock (h : c.BlocksHold) :
    (c.apply (.unblock owner peer)).BlocksHold ∧ c.KeepsBlocks (.unblock owner peer) :=
  ⟨h.dropStatus _, fun _ _ hab hne => hab.dropStatus (.inr fun h' => hne (by rw [h'.1, h'.2]))⟩

lemma blocksHold_remove (h : c.BlocksHold) :
    (c.apply (.remove owner peer)).BlocksHold ∧ c.KeepsBlocks (.remove owner peer) := by
  have hremove : ∀ P : Contacts → Prop, P (c.dropStatus owner peer .accepted).1 →
      P ((c.dropStatus owner peer .accepted).1.dropStatus peer owner .accepted).1 →
      P (c.apply (.remove owner peer)) := by
    intro P h₁ h₂
    simp only [apply, removeFriend]
    split
    · exact h₂
    · exact h₁
  constructor
  · exact hremove _ (h.dropStatus _) ((h.dropStatus _).dropStatus _)
  · intro a b hab _
    have hkeep : (c.dropStatus owner peer .accepted).1.Blocks a b := hab.dropStatus (.inl nofun)
    exact hremove (fun d => d.Blocks a b) hkeep (hkeep.dropStatus (.inl nofun))

/-- The statuses after a merge. -/
lemma status_migrate (hne : old ≠ new) : (c.migrateIdentity old new).status x y
    = if x = old ∨ y = old then none
      else if x = new then
        if y = new then
          ((c.status new new).or (c.status old new)).or ((c.status new old).or (c.status old old))
        else (c.status new y).or (c.status old y)
      else if y = new then (c.status x new).or (c.status x old) else c.status x y := by
  have hne' : ¬ new = old := fun h => hne h.symm
  unfold migrateIdentity
  rw [if_neg hne]
  simp only [status, foldPeer, foldOwner]
  by_cases hy : y = old
  · simp [hy]
  · by_cases hx : x = old
    · by_cases hy' : y = new <;> simp [hx, hy, hy']
    · by_cases hx' : x = new
      · by_cases hy' : y = new
        · simp [hx', hy', hne', Option.map_or]
        · simp [hx', hy, hy', hne', Option.map_or]
      · by_cases hy' : y = new <;> simp [hx, hx', hy, hy', hne', Option.map_or]

/-- A merge that keeps blocks and leaves them in force is a safe one. -/
lemma mergeSafe_of_keeps (hne : old ≠ new) (hhold : (c.migrateIdentity old new).BlocksHold)
    (hkeeps : c.KeepsBlocks (.migrate old new)) : c.MergeSafe old new := by
  have hnew : ∀ x, x ≠ old → x ≠ new →
      (c.migrateIdentity old new).status new x = (c.status new x).or (c.status old x) := by
    intro x hx hx'
    rw [status_migrate hne, if_neg (by simp [hx, Ne.symm hne]), if_pos rfl, if_neg hx']
  have hpeer : ∀ x, x ≠ old → x ≠ new →
      (c.migrateIdentity old new).status x new = (c.status x new).or (c.status x old) := by
    intro x hx hx'
    rw [status_migrate hne, if_neg (by simp [hx, Ne.symm hne]), if_neg hx', if_pos rfl]
  have hkept : ∀ a b, c.Blocks a b → (c.migrateIdentity old new).status
      (if a = old then new else a) (if b = old then new else b) = some .blocked :=
    fun a b hab => hkeeps a b hab nofun
  have hcross := blocksHold_iff.1 hhold
  constructor
  · intro x hx hx' hblocks s hs
    have h := hkept old x hblocks
    rw [if_pos rfl, if_neg hx, hnew x hx hx', Option.mem_def.1 hs] at h
    exact Option.some.inj h
  · intro x hx hx' hblocks s hs
    have h := hkept x old hblocks
    rw [if_pos rfl, if_neg hx, hpeer x hx hx', Option.mem_def.1 hs] at h
    exact Option.some.inj h
  · intro hblocks
    have hmerged : (c.migrateIdentity old new).status new new = some .blocked := by
      rcases hblocks with h | h | h | h
      · simpa [Ne.symm hne] using hkept _ _ h
      · simpa [Ne.symm hne] using hkept _ _ h
      · simpa [Ne.symm hne] using hkept _ _ h
      · simpa using hkept _ _ h
    rw [status_migrate hne, if_neg (by simp [Ne.symm hne]), if_pos rfl, if_pos rfl] at hmerged
    exact hmerged
  · intro x hx hx' hblocks hnone haccepted
    refine hcross x new ?_ ?_
    · rw [hnew x hx hx', haccepted]
      rfl
    · rw [Blocks, hpeer x hx hx', hnone]
      exact hblocks
  · intro x hx hx' hblocks hnone haccepted
    refine hcross x new ?_ ?_
    · rw [hnew x hx hx', hnone]
      exact haccepted
    · rw [Blocks, hpeer x hx hx', hblocks]
      rfl
  · intro x hx hx' hblocks hnone haccepted
    refine hcross new x ?_ ?_
    · rw [hpeer x hx hx', haccepted]
      rfl
    · rw [Blocks, hnew x hx hx', hnone]
      exact hblocks
  · intro x hx hx' hblocks hnone haccepted
    refine hcross new x ?_ ?_
    · rw [hpeer x hx hx', hnone]
      exact haccepted
    · rw [Blocks, hnew x hx hx', hblocks]
      rfl

/-- A safe merge keeps blocks. -/
lemma MergeSafe.keepsBlocks (h : c.MergeSafe old new) (hne : old ≠ new) :
    c.KeepsBlocks (.migrate old new) := by
  intro a b hab _
  show (c.migrateIdentity old new).status _ _ = some .blocked
  rw [FriendOp.renamed_migrate, FriendOp.renamed_migrate, status_migrate hne]
  have hne' : ¬ new = old := fun h => hne h.symm
  have hab' : c.status a b = some .blocked := hab
  by_cases ha : a = old
  · by_cases hb : b = old
    · subst ha hb
      simpa [hne'] using h.each (.inr (.inr (.inr hab)))
    · subst ha
      by_cases hb' : b = new
      · subst hb'
        simpa [hne'] using h.each (.inr (.inl hab))
      · have hown := h.own b hb hb' hab
        cases hs : c.status new b with
        | none => simp [hne', hb, hb', hs, hab']
        | some s => simp [hne', hb, hb', hs, hown s hs]
  · by_cases hb : b = old
    · subst hb
      by_cases ha' : a = new
      · subst ha'
        simpa [hne'] using h.each (.inr (.inr (.inl hab)))
      · have hothers := h.others a ha ha' hab
        cases hs : c.status a new with
        | none => simp [hne', ha, ha', hs, hab']
        | some s => simp [hne', ha, ha', hs, hothers s hs]
    · by_cases ha' : a = new
      · by_cases hb' : b = new
        · subst ha' hb'
          simp [hne', hab']
        · simp [ha', hne', hb, hb', ha' ▸ hab']
      · by_cases hb' : b = new
        · simp [ha, ha', hb', hne', hb' ▸ hab']
        · simp [ha, ha', hb, hb', hab']

/-- A safe merge leaves blocks in force. -/
lemma MergeSafe.blocksHold (h : c.MergeSafe old new) (hhold : c.BlocksHold) (hne : old ≠ new) :
    (c.migrateIdentity old new).BlocksHold := by
  have hcross := blocksHold_iff.1 hhold
  refine blocksHold_iff.2 fun a b hab hblocks => ?_
  rw [status_migrate hne] at hab
  rw [Blocks, status_migrate hne] at hblocks
  by_cases hold : b = old ∨ a = old
  · rw [if_pos hold] at hab
    cases hab
  · push Not at hold
    obtain ⟨hb, ha⟩ := hold
    rw [if_neg (by simp [ha, hb])] at hab hblocks
    by_cases hb' : b = new
    · by_cases ha' : a = new
      · rw [if_pos hb', if_pos ha'] at hab
        rw [if_pos ha', if_pos hb', hab] at hblocks
        cases hblocks
      · rw [if_pos hb', if_neg ha'] at hab
        rw [if_neg ha', if_pos hb'] at hblocks
        rcases Option.or_eq_some_iff.1 hab with hab | ⟨hnone, hab⟩
        · rcases Option.or_eq_some_iff.1 hblocks with hbl | ⟨hnone', hbl⟩
          · exact hcross a new hab hbl
          · exact h.blocksOld a ha ha' hbl hnone' hab
        · rcases Option.or_eq_some_iff.1 hblocks with hbl | ⟨hnone', hbl⟩
          · exact h.blocksNew a ha ha' hbl hnone hab
          · exact hcross a old hab hbl
    · by_cases ha' : a = new
      · rw [if_neg hb', if_pos ha'] at hab
        rw [if_pos ha', if_neg hb'] at hblocks
        rcases Option.or_eq_some_iff.1 hab with hab | ⟨hnone, hab⟩
        · rcases Option.or_eq_some_iff.1 hblocks with hbl | ⟨hnone', hbl⟩
          · exact hcross new b hab hbl
          · exact h.oldBlocks b hb hb' hbl hnone' hab
        · rcases Option.or_eq_some_iff.1 hblocks with hbl | ⟨hnone', hbl⟩
          · exact h.newBlocks b hb hb' hbl hnone hab
          · exact hcross old b hab hbl
      · rw [if_neg hb', if_neg ha'] at hab
        rw [if_neg ha', if_neg hb'] at hblocks
        exact hcross a b hab hblocks

lemma blockSafe_migrate (h : c.BlocksHold) :
    (c.apply (.migrate old new)).BlocksHold ∧ c.KeepsBlocks (.migrate old new)
      ↔ c.BlockSafe (.migrate old new) := by
  by_cases hne : old = new
  · have hsame : c.apply (.migrate old new) = c := if_pos hne
    rw [hsame]
    refine ⟨fun _ hne' => absurd hne hne', fun _ => ⟨h, fun a b hab _ => ?_⟩⟩
    have hren : ∀ z, (FriendOp.migrate old new).renamed z = z := by
      intro z
      rw [FriendOp.renamed_migrate, hne]
      split
      · rename_i hz
        exact hz.symm
      · rfl
    rw [hsame, hren, hren]
    exact hab
  · exact ⟨fun hboth _ => mergeSafe_of_keeps hne hboth.1 hboth.2,
      fun hsafe => ⟨(hsafe hne).blocksHold h hne, (hsafe hne).keepsBlocks hne⟩⟩

/-- **The condition of an operation is exact.** -/
lemma blockSafe_iff (h : c.BlocksHold) (op : FriendOp) :
    (c.apply op).BlocksHold ∧ c.KeepsBlocks op ↔ c.BlockSafe op := by
  cases op with
  | request now owner peer => exact blockSafe_request h
  | accept now owner peer => exact blockSafe_accept h
  | decline now owner peer => exact blockSafe_decline h
  | block now owner peer => exact blockSafe_block h
  | unblock owner peer => exact ⟨fun _ => trivial, fun _ => blocksHold_unblock h⟩
  | remove owner peer => exact ⟨fun _ => trivial, fun _ => blocksHold_remove h⟩
  | migrate oldRk newUid => exact blockSafe_migrate h

end Steps

end Contacts

/-! ## Runs -/

namespace FriendRegistry

/-- An operation on the registry leaves every block but the one that it is to lift. -/
def KeepsBlocks (r : FriendRegistry) : FriendEvent → Prop
  | .op op => r.contacts.KeepsBlocks (op.resolved r.resolveUid)
  | .bind .. => True

/-- The condition of an operation on the registry. -/
def BlockSafe (r : FriendRegistry) : FriendEvent → Prop
  | .op op => r.contacts.BlockSafe (op.resolved r.resolveUid)
  | .bind .. => True

/-- **When blocks hold**: in every state that a run of operations passes through, no message is
delivered past a block, and none of its operations removes or overwrites a block but the unblock of
its owner, exactly when every operation is safe. -/
theorem blocks_hold_iff (resolver : Option (String → Option String)) (es : List FriendEvent) :
    (Run.Always step (fun r => r.contacts.BlocksHold) (empty resolver) es ∧
        Run.EachStep step KeepsBlocks (empty resolver) es)
      ↔ Run.EachStep step BlockSafe (empty resolver) es := by
  refine Run.always_and_eachStep_iff (fun r e h => ?_) (Contacts.blocksHold_iff.2 nofun)
  cases e with
  | op op => exact Contacts.blockSafe_iff h (op.resolved r.resolveUid)
  | bind routingKey userId => exact ⟨fun _ => trivial, fun _ => ⟨h, trivial⟩⟩

/-- Two users become friends, and one of them blocks the other. -/
def blockedFriend : List FriendEvent :=
  [.op (.request 0 "alice" "bob"), .op (.accept 1 "bob" "alice"), .op (.block 2 "alice" "bob")]

/-- A user asks for a friendship and then blocks the peer, who accepts the request. -/
def acceptedBlock : List FriendEvent :=
  [.op (.request 0 "alice" "bob"), .op (.block 1 "alice" "bob"), .op (.accept 2 "bob" "alice")]

/-- A user asks for the friendship of one whom it has blocked. -/
def requestedBlock : List FriendEvent :=
  [.op (.block 0 "alice" "bob"), .op (.request 1 "alice" "bob")]

/-- **Blocks do not hold**: after blocking a friend one can still write to it, and a block goes away by
the answer of the user that is blocked and by a request of the user that has blocked. -/
theorem blocked_friend_still_reached :
    ¬ Run.Always step (fun r => r.contacts.BlocksHold) (empty none) blockedFriend ∧
      ¬ Run.EachStep step KeepsBlocks (empty none) acceptedBlock ∧
      ¬ Run.EachStep step KeepsBlocks (empty none) requestedBlock := by
  refine ⟨fun h => ?_, fun h => ?_, fun h => ?_⟩
  · exact (h.last "alice" "bob" (by decide)).1 (by decide)
  · have hkeeps := h.2.2.1 "alice" "bob" (by decide) (by decide)
    revert hkeeps
    decide
  · have hkeeps := h.2.1 "alice" "bob" (by decide) (by decide)
    revert hkeeps
    decide

end FriendRegistry

end MyClaw
