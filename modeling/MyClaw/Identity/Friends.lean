import MyClaw.Identity.Blocks

set_option autoImplicit false

/-!
# Friends by consent

A relationship is two entries that are to agree: both accepted, or a request seen from its two sides
(`identity/known_users/registry.rs`).

## Main definitions

* `Matching` — two entries for each other agree.
* `Contacts.Mutual` — no user is its own contact, and the two entries of a pair agree.
* `Contacts.ByConsent` — an operation makes friends, starts a cooldown and ends a relationship
  only as it should.
* `Contacts.ConsentSafe` — the condition under which it does and leaves the entries in agreement.

## Main results

* `FriendRegistry.mutual_iff` — friendship is mutual and by consent throughout a run exactly when
  all of its operations are safe.
* `FriendRegistry.unblock_leaves_one_side` — after an unblock the peer still counts as a friend.
-/

namespace MyClaw

/-! ## Entries that agree -/

/-- A pending request in a direction. -/
def IsPending (u : Option ContactEntry) (d : ContactDirection) : Prop :=
  ∃ e, u = some e ∧ e.status = .pending ∧ e.direction = d

/-- An entry with a status. -/
def HasStatus (u : Option ContactEntry) (s : ContactStatus) : Prop := u.map (·.status) = some s

instance (u : Option ContactEntry) (d : ContactDirection) : Decidable (IsPending u d) :=
  match u with
  | none => isFalse nofun
  | some e => decidable_of_iff (e.status = .pending ∧ e.direction = d) <| by simp [IsPending]

instance (u : Option ContactEntry) (s : ContactStatus) : Decidable (HasStatus u s) :=
  inferInstanceAs (Decidable (_ = _))

/-- An entry agrees with that of the peer: unless one of them is a block, both are accepted or none is,
and a pending request faces itself from the other side. -/
structure Matching (u v : Option ContactEntry) : Prop where
  accepted : ¬ HasStatus u .blocked → ¬ HasStatus v .blocked →
    (HasStatus u .accepted ↔ HasStatus v .accepted)
  asked : IsPending u .outward → IsPending v .inward
  received : IsPending u .inward → IsPending v .outward

/-- No cooldown of an entry is running. -/
def CooledDown (now : ℕ) (u : Option ContactEntry) : Prop :=
  ∀ e ∈ u, e.status = .declined → friendRequestCooldownMs ≤ now - e.lastDeclinedAt

namespace Contacts

/-- No user is its own contact, and entries for each other agree. -/
structure Mutual (c : Contacts) : Prop where
  no_self : ∀ a, c (a, a) = none
  matching : ∀ a b, Matching (c (a, b)) (c (b, a))

/-- Either user may ask the other again, once its cooldown is over. -/
def FreshRequest (c : Contacts) (a b : String) : Prop :=
  ∀ now, CooledDown now (c (a, b)) → CooledDown now (c (b, a)) →
    c.requestOutcome now a b = .new ∧ c.requestOutcome now b a = .new

/-- `a` and `b` are the owner and the peer, in some order. -/
def IsPair (owner peer a b : String) : Prop := a = owner ∧ b = peer ∨ a = peer ∧ b = owner

/-- What an operation does by consent only. -/
structure ByConsent (c : Contacts) (op : FriendOp) : Prop where
  /-- A pair is accepted by the user that has received the request. -/
  accepted : ∀ a b, HasStatus ((c.apply op) (a, b)) .accepted → ¬ HasStatus (c (a, b)) .accepted →
    ∃ now owner peer, op = .accept now owner peer ∧ IsPending (c (owner, peer)) .inward ∧
      IsPair owner peer a b
  /-- A request is received from the user that makes it. -/
  received : ∀ a b, IsPending ((c.apply op) (a, b)) .inward → ¬ IsPending (c (a, b)) .inward →
    ∃ now, op = .request now b a
  /-- A cooldown is started by the user that has received the request. -/
  declined : ∀ a b, HasStatus ((c.apply op) (a, b)) .declined → (c.apply op) (a, b) ≠ c (a, b) →
    ∃ now owner peer, op = .decline now owner peer ∧ IsPending (c (owner, peer)) .inward ∧
      IsPair owner peer a b
  /-- A friendship that was removed can be asked for again. -/
  removed : ∀ owner peer, op = .remove owner peer → HasStatus (c (owner, peer)) .accepted →
    (c.apply op).FreshRequest owner peer
  /-- So can one after the only block is lifted. -/
  unblocked : ∀ owner peer, op = .unblock owner peer → HasStatus (c (owner, peer)) .blocked →
    ¬ HasStatus (c (peer, owner)) .blocked → (c.apply op).FreshRequest owner peer

/-- The condition of an operation: no request to oneself and no block of oneself, no block of a user
with whom a request is pending, no decline of one's own request, no unblock of a user by whom one is
accepted, and no removal of a friend that has blocked the owner. -/
def ConsentSafe (c : Contacts) : FriendOp → Prop
  | .request _ owner peer => owner ≠ peer
  | .accept .. => True
  | .decline _ owner peer => ¬ IsPending (c (owner, peer)) .outward
  | .block _ owner peer => owner ≠ peer ∧ ¬ HasStatus (c (peer, owner)) .pending
  | .unblock owner peer =>
    HasStatus (c (owner, peer)) .blocked → ¬ HasStatus (c (peer, owner)) .accepted
  | .remove owner peer =>
    HasStatus (c (owner, peer)) .accepted → ¬ HasStatus (c (peer, owner)) .blocked
  | .migrate .. => True

end Contacts

/-! ## Pairs of entries -/

section Entries

variable {u v : Option ContactEntry} {e : ContactEntry} {d : ContactDirection} {s : ContactStatus}

lemma isPending_some : IsPending (some e) d ↔ e.status = .pending ∧ e.direction = d := by
  simp [IsPending]

lemma hasStatus_some : HasStatus (some e) s ↔ e.status = s := by simp [HasStatus]

lemma not_hasStatus_none : ¬ HasStatus none s := by simp [HasStatus]

lemma IsPending.hasStatus (h : IsPending u d) : HasStatus u .pending := by
  obtain ⟨e, rfl, hs, -⟩ := h
  exact hasStatus_some.2 hs

lemma HasStatus.isPending (h : HasStatus u .pending) : IsPending u .inward ∨ IsPending u .outward := by
  obtain ⟨e, rfl, hs⟩ := Option.map_eq_some_iff.1 h
  cases hd : e.direction with
  | inward => exact .inl ⟨e, rfl, hs, hd⟩
  | outward => exact .inr ⟨e, rfl, hs, hd⟩

lemma HasStatus.unique {s' : ContactStatus} (h : HasStatus u s) (h' : HasStatus u s') : s = s' :=
  Option.some.inj (h.symm.trans h')

/-- Entries agree that have the same status, none of them pending. -/
lemma Matching.of_not_pending (hu : ¬ HasStatus u .pending)
    (haccepted : ¬ HasStatus u .blocked → ¬ HasStatus v .blocked →
      (HasStatus u .accepted ↔ HasStatus v .accepted)) : Matching u v :=
  ⟨haccepted, fun h => absurd h.hasStatus hu, fun h => absurd h.hasStatus hu⟩

end Entries

namespace Contacts

variable {c d : Contacts} {now : ℕ} {owner peer a b : String}

/-- Entries for each other agree after a change of a single pair. -/
lemma Mutual.of_pair (h : c.Mutual) (hne : owner ≠ peer)
    (hother : ∀ x y, ¬ IsPair owner peer x y → d (x, y) = c (x, y))
    (hout : Matching (d (owner, peer)) (d (peer, owner)))
    (hback : Matching (d (peer, owner)) (d (owner, peer))) : d.Mutual where
  no_self x := by
    rw [hother x x]
    · exact h.no_self x
    · rintro (⟨rfl, rfl⟩ | ⟨rfl, rfl⟩) <;> exact hne rfl
  matching x y := by
    by_cases hpair : IsPair owner peer x y
    · rcases hpair with ⟨rfl, rfl⟩ | ⟨rfl, rfl⟩
      · exact hout
      · exact hback
    · rw [hother x y hpair, hother y x]
      · exact h.matching x y
      · rintro (⟨rfl, rfl⟩ | ⟨rfl, rfl⟩)
        · exact hpair (.inr ⟨rfl, rfl⟩)
        · exact hpair (.inl ⟨rfl, rfl⟩)

/-- An operation that changes nothing. -/
lemma byConsent_of_same {op : FriendOp} (hsame : c.apply op = c)
    (hremoved : ∀ owner peer, op = .remove owner peer → ¬ HasStatus (c (owner, peer)) .accepted)
    (hunblocked : ∀ owner peer, op = .unblock owner peer → ¬ HasStatus (c (owner, peer)) .blocked) :
    c.ByConsent op := by
  constructor
  · intro a b h hnot
    exact absurd (hsame ▸ h) hnot
  · intro a b h hnot
    exact absurd (hsame ▸ h) hnot
  · intro a b _ hne
    exact absurd (by rw [hsame]) hne
  · exact fun owner peer hop h => absurd h (hremoved owner peer hop)
  · exact fun owner peer hop h => absurd h (hunblocked owner peer hop)

variable (owner peer) in
/-- A change of one pair in which nothing is accepted, declined or received anew. -/
lemma byConsent_of_pair {op : FriendOp}
    (hother : ∀ x y, ¬ IsPair owner peer x y → c.apply op (x, y) = c (x, y))
    (hpair : ∀ x y, IsPair owner peer x y → c.apply op (x, y) = c (x, y) ∨
      c.apply op (x, y) = none ∨ HasStatus (c.apply op (x, y)) .blocked)
    (hremoved : ∀ owner peer, op = .remove owner peer → HasStatus (c (owner, peer)) .accepted →
      (c.apply op).FreshRequest owner peer)
    (hunblocked : ∀ owner peer, op = .unblock owner peer → HasStatus (c (owner, peer)) .blocked →
      ¬ HasStatus (c (peer, owner)) .blocked → (c.apply op).FreshRequest owner peer) :
    c.ByConsent op := by
  have hcases : ∀ x y, c.apply op (x, y) = c (x, y) ∨ c.apply op (x, y) = none ∨
      HasStatus (c.apply op (x, y)) .blocked := by
    intro x y
    by_cases h : IsPair owner peer x y
    · exact hpair x y h
    · exact .inl (hother x y h)
  have hquiet : ∀ {x y s}, HasStatus (c.apply op (x, y)) s → s ≠ .blocked →
      c.apply op (x, y) = c (x, y) := by
    intro x y s hstatus hs
    rcases hcases x y with h | h | h
    · exact h
    · exact absurd (h ▸ hstatus) not_hasStatus_none
    · exact absurd (hstatus.unique h) hs
  refine ⟨fun a b hab hnot => ?_, fun a b hab hnot => ?_, fun a b hab hnot => ?_, hremoved, hunblocked⟩
  · exact absurd (hquiet hab nofun ▸ hab) hnot
  · exact absurd (hquiet hab.hasStatus nofun ▸ hab) hnot
  · exact absurd (hquiet hab nofun) hnot

/-! ## The operations -/

section Request

/-- So does a request. -/
lemma consentSafe_request (h : c.Mutual) :
    (c.apply (.request now owner peer)).Mutual ∧ c.ByConsent (.request now owner peer)
      ↔ c.ConsentSafe (.request now owner peer) := by
  by_cases hnew : c.requestOutcome now owner peer = .new
  · have happly : c.apply (.request now owner peer) = c.putRequest now owner peer := by
      simp only [apply, requestFriend_fst, if_pos hnew]
    constructor
    · rintro ⟨hmutual, -⟩ rfl
      have hself := hmutual.no_self owner
      rw [happly, putRequest_apply, if_pos ⟨rfl, rfl⟩] at hself
      cases hself
    · intro (hne : owner ≠ peer)
      have hown : c.apply (.request now owner peer) (owner, peer)
          = some ⟨.pending, .outward, now, 0, 0⟩ := by
        rw [happly, putRequest_apply, if_neg (fun h => hne h.1), if_pos ⟨rfl, rfl⟩]
      have hpeer : c.apply (.request now owner peer) (peer, owner)
          = some ⟨.pending, .inward, now, 0, 0⟩ := by
        rw [happly, putRequest_apply, if_pos ⟨rfl, rfl⟩]
      have hother : ∀ x y, ¬ IsPair owner peer x y →
          c.apply (.request now owner peer) (x, y) = c (x, y) := by
        intro x y hxy
        rw [happly, putRequest_apply, if_neg (fun h => hxy (.inr h)), if_neg (fun h => hxy (.inl h))]
      refine ⟨h.of_pair hne hother ?_ ?_, ?_, ?_, ?_, by rintro _ _ ⟨⟩, by rintro _ _ ⟨⟩⟩
      · rw [hown, hpeer]
        constructor <;> simp [hasStatus_some, isPending_some]
      · rw [hown, hpeer]
        constructor <;> simp [hasStatus_some, isPending_some]
      · intro a b hab hnot
        by_cases hpair : IsPair owner peer a b
        · rcases hpair with ⟨rfl, rfl⟩ | ⟨rfl, rfl⟩
          · rw [hown, hasStatus_some] at hab
            cases hab
          · rw [hpeer, hasStatus_some] at hab
            cases hab
        · exact absurd (hother a b hpair ▸ hab) hnot
      · intro a b hab hnot
        by_cases hpair : IsPair owner peer a b
        · rcases hpair with ⟨rfl, rfl⟩ | ⟨rfl, rfl⟩
          · rw [hown, isPending_some] at hab
            cases hab.2
          · exact ⟨now, rfl⟩
        · exact absurd (hother a b hpair ▸ hab) hnot
      · intro a b hab hnot
        by_cases hpair : IsPair owner peer a b
        · rcases hpair with ⟨rfl, rfl⟩ | ⟨rfl, rfl⟩
          · rw [hown, hasStatus_some] at hab
            cases hab
          · rw [hpeer, hasStatus_some] at hab
            cases hab
        · exact absurd (hother a b hpair) hnot
  · have hsame : c.apply (.request now owner peer) = c := by
      simp only [apply, requestFriend_fst, if_neg hnew]
    rw [hsame]
    refine ⟨fun _ => ?_, fun _ => ⟨h, byConsent_of_same hsame (by rintro _ _ ⟨⟩) (by rintro _ _ ⟨⟩)⟩⟩
    rintro rfl
    refine hnew (requestOutcome_eq_new_iff.2 ?_)
    rw [h.no_self owner]
    exact ⟨rfl, rfl⟩

end Request

section Answer

variable {op : FriendOp} {e : ContactEntry} {f : ContactEntry → ContactEntry} {s : ContactStatus}

/-- The two entries after an answer to a request, when they agreed before it. -/
lemma answer_entries (h : c.Mutual) (he : c (owner, peer) = some e) (hpending : e.status = .pending)
    (happly : c.apply op = c.mirror owner peer e f) (hf : ∀ e, (f e).status = s) :
    owner ≠ peer ∧ HasStatus (c.apply op (owner, peer)) s ∧ HasStatus (c.apply op (peer, owner)) s ∧
      ∀ x y, ¬ IsPair owner peer x y → c.apply op (x, y) = c (x, y) := by
  have hne : owner ≠ peer := by
    rintro rfl
    rw [h.no_self] at he
    cases he
  have hpeer : ∃ e', c (peer, owner) = some e' := by
    have hstatus : HasStatus (c (owner, peer)) .pending := by rw [he, hasStatus_some, hpending]
    rcases hstatus.isPending with hd | hd
    · obtain ⟨e', he', -⟩ := (h.matching owner peer).received hd
      exact ⟨e', he'⟩
    · obtain ⟨e', he', -⟩ := (h.matching owner peer).asked hd
      exact ⟨e', he'⟩
  obtain ⟨e', he'⟩ := hpeer
  refine ⟨hne, ?_, ?_, fun x y hxy => ?_⟩
  · rw [happly, mirror_apply hne, if_pos ⟨rfl, rfl⟩, hasStatus_some, hf]
  · rw [happly, mirror_apply hne, if_neg (fun h => hne h.2), if_pos ⟨rfl, rfl⟩, he']
    exact hasStatus_some.2 (hf e')
  · rw [happly, mirror_apply hne, if_neg (fun h => hxy (.inl h)), if_neg (fun h => hxy (.inr h))]

/-- An answer leaves the entries in agreement. -/
lemma Mutual.answer (h : c.Mutual) (he : c (owner, peer) = some e) (hpending : e.status = .pending)
    (happly : c.apply op = c.mirror owner peer e f) (hf : ∀ e, (f e).status = s) (hs : s ≠ .pending) :
    (c.apply op).Mutual := by
  obtain ⟨hne, hown, hpeer, hother⟩ := answer_entries h he hpending happly hf
  refine h.of_pair hne hother ?_ ?_
  · refine Matching.of_not_pending (fun h' => hs (hown.unique h')) fun _ _ => ?_
    exact ⟨fun h' => hown.unique h' ▸ hpeer, fun h' => hpeer.unique h' ▸ hown⟩
  · refine Matching.of_not_pending (fun h' => hs (hpeer.unique h')) fun _ _ => ?_
    exact ⟨fun h' => hpeer.unique h' ▸ hown, fun h' => hown.unique h' ▸ hpeer⟩

/-- An answer to a request always leaves all as it should be. -/
lemma consentSafe_accept (h : c.Mutual) :
    (c.apply (.accept now owner peer)).Mutual ∧ c.ByConsent (.accept now owner peer) := by
  rcases acceptFriend_cases c now owner peer with
    ⟨hsame, -⟩ | ⟨e, he, hpending, hdirection, happly⟩
  · have hsame : c.apply (.accept now owner peer) = c := hsame
    exact ⟨hsame.symm ▸ h, byConsent_of_same hsame nofun nofun⟩
  · have happly : c.apply (.accept now owner peer) = c.mirror owner peer e _ := happly
    obtain ⟨hne, hown, hpeer, hother⟩ := answer_entries h he hpending happly fun _ => rfl
    refine ⟨h.answer he hpending happly (fun _ => rfl) (by decide), ?_, ?_, ?_, nofun, nofun⟩
    · intro a b hab hnot
      by_cases hpair : IsPair owner peer a b
      · exact ⟨now, owner, peer, rfl, ⟨e, he, hpending, hdirection⟩, hpair⟩
      · exact absurd (hother a b hpair ▸ hab) hnot
    · intro a b hab hnot
      by_cases hpair : IsPair owner peer a b
      · rcases hpair with ⟨rfl, rfl⟩ | ⟨rfl, rfl⟩
        · cases hown.unique hab.hasStatus
        · cases hpeer.unique hab.hasStatus
      · exact absurd (hother a b hpair ▸ hab) hnot
    · intro a b hab hnot
      by_cases hpair : IsPair owner peer a b
      · rcases hpair with ⟨rfl, rfl⟩ | ⟨rfl, rfl⟩
        · cases hown.unique hab
        · cases hpeer.unique hab
      · exact absurd (hother a b hpair) hnot

/-- So does a refusal. -/
lemma consentSafe_decline (h : c.Mutual) :
    (c.apply (.decline now owner peer)).Mutual ∧ c.ByConsent (.decline now owner peer)
      ↔ c.ConsentSafe (.decline now owner peer) := by
  rcases declineFriend_cases c now owner peer with
    ⟨hsame, hnone⟩ | ⟨e, he, hpending, happly⟩
  · have hsame : c.apply (.decline now owner peer) = c := hsame
    refine ⟨fun _ hout => hnone hout.hasStatus, fun _ => ?_⟩
    exact ⟨hsame.symm ▸ h, byConsent_of_same hsame nofun nofun⟩
  · have happly : c.apply (.decline now owner peer) = c.mirror owner peer e _ := happly
    obtain ⟨hne, hown, hpeer, hother⟩ := answer_entries h he hpending happly fun _ => rfl
    constructor
    · rintro ⟨-, hconsent⟩ hout
      have hchanged : c.apply (.decline now owner peer) (owner, peer) ≠ c (owner, peer) := by
        intro heq
        rw [heq] at hown
        cases hown.unique hout.hasStatus
      obtain ⟨now', owner', peer', hop, hin, -⟩ := hconsent.declined owner peer hown hchanged
      cases hop
      obtain ⟨e₁, he₁, -, hd₁⟩ := hin
      obtain ⟨e₂, he₂, -, hd₂⟩ := hout
      rw [Option.some.inj (he₁.symm.trans he₂), hd₂] at hd₁
      cases hd₁
    · intro (hsafe : ¬ IsPending (c (owner, peer)) .outward)
      have hin : IsPending (c (owner, peer)) .inward := by
        have hstatus : HasStatus (c (owner, peer)) .pending := by rw [he, hasStatus_some, hpending]
        exact hstatus.isPending.resolve_right hsafe
      refine ⟨h.answer he hpending happly (fun _ => rfl) (by decide), ?_, ?_, ?_, nofun, nofun⟩
      · intro a b hab hnot
        by_cases hpair : IsPair owner peer a b
        · rcases hpair with ⟨rfl, rfl⟩ | ⟨rfl, rfl⟩
          · cases hown.unique hab
          · cases hpeer.unique hab
        · exact absurd (hother a b hpair ▸ hab) hnot
      · intro a b hab hnot
        by_cases hpair : IsPair owner peer a b
        · rcases hpair with ⟨rfl, rfl⟩ | ⟨rfl, rfl⟩
          · cases hown.unique hab.hasStatus
          · cases hpeer.unique hab.hasStatus
        · exact absurd (hother a b hpair ▸ hab) hnot
      · intro a b hab hnot
        by_cases hpair : IsPair owner peer a b
        · exact ⟨now, owner, peer, rfl, hin, hpair⟩
        · exact absurd (hother a b hpair) hnot

end Answer

section Lift

/-- So does a block. -/
lemma consentSafe_block (h : c.Mutual) :
    (c.apply (.block now owner peer)).Mutual ∧ c.ByConsent (.block now owner peer)
      ↔ c.ConsentSafe (.block now owner peer) := by
  have hown : HasStatus (c.apply (.block now owner peer) (owner, peer)) .blocked := by
    simp [apply, blockFriend, hasStatus_some]
  have hrest : ∀ x y, ¬ (x = owner ∧ y = peer) →
      c.apply (.block now owner peer) (x, y) = c (x, y) := by
    intro x y hxy
    simp only [apply, blockFriend]
    rw [Function.update_of_ne (by simpa using hxy)]
  constructor
  · rintro ⟨hmutual, -⟩
    have hne : owner ≠ peer := by
      rintro rfl
      rw [hmutual.no_self] at hown
      exact not_hasStatus_none hown
    refine ⟨hne, fun hpending => ?_⟩
    have hpeer := hrest peer owner fun h' => hne h'.2
    have hmatch := hmutual.matching peer owner
    rw [hpeer] at hmatch
    rcases hpending.isPending with hd | hd
    · cases hown.unique (hmatch.received hd).hasStatus
    · cases hown.unique (hmatch.asked hd).hasStatus
  · rintro ⟨hne, hpeer⟩
    have hpeer' := hrest peer owner fun h' => hne h'.2
    refine ⟨h.of_pair hne (fun x y hxy => hrest x y fun h' => hxy (.inl h')) ?_ ?_, ?_⟩
    · exact Matching.of_not_pending (fun h' => by cases hown.unique h') fun h' _ => absurd hown h'
    · rw [hpeer']
      exact Matching.of_not_pending hpeer fun _ h' => absurd hown h'
    · refine byConsent_of_pair owner peer (fun x y hxy => hrest x y fun h' => hxy (.inl h')) ?_
        (by rintro _ _ ⟨⟩) (by rintro _ _ ⟨⟩)
      rintro x y (⟨rfl, rfl⟩ | ⟨rfl, rfl⟩)
      · exact .inr (.inr hown)
      · exact .inl hpeer'

/-- Two users of whom none has an entry but a declined one can ask each other again. -/
lemma freshRequest_of_quiet (ha : ∀ s, HasStatus (c (a, b)) s → s = .declined)
    (hb : ∀ s, HasStatus (c (b, a)) s → s = .declined) : c.FreshRequest a b := by
  intro now hca hcb
  have hview : ∀ x y, (∀ s, HasStatus (c (x, y)) s → s = .declined) → CooledDown now (c (x, y)) →
      peerView now (c (x, y)) = none ∧ ownerView (c (x, y)) = none := by
    intro x y hquiet hcool
    rw [peerView_eq_none_iff, ownerView_eq_none_iff]
    cases hxy : c (x, y) with
    | none => exact ⟨.inl rfl, .inl (by simp [hxy])⟩
    | some e =>
      have hs : e.status = .declined := hquiet _ (by rw [hxy, hasStatus_some])
      exact ⟨.inr ⟨e, rfl, hs, hcool e (by rw [hxy]; rfl) hs⟩,
        .inr (.inr (status_eq_some_iff.2 ⟨e, hxy, hs⟩))⟩
  obtain ⟨hpa, hoa⟩ := hview a b ha hca
  obtain ⟨hpb, hob⟩ := hview b a hb hcb
  exact ⟨requestOutcome_eq_new_iff.2 ⟨hpb, hoa⟩, requestOutcome_eq_new_iff.2 ⟨hpa, hob⟩⟩

/-- The entry of the owner is gone after it is dropped. -/
lemma drop_self : Function.update c (owner, peer) none (owner, peer) = none :=
  Function.update_self ..

lemma drop_of_ne {x y : String} (hxy : ¬ (x = owner ∧ y = peer)) :
    Function.update c (owner, peer) none (x, y) = c (x, y) :=
  Function.update_of_ne (by simpa using hxy) ..

lemma matching_none_of (hu : ∀ s, HasStatus (c (a, b)) s → s = .declined ∨ s = .blocked) :
    Matching none (c (a, b)) ∧ Matching (c (a, b)) none := by
  have hpending : ¬ HasStatus (c (a, b)) .pending := fun h => by
    rcases hu _ h with h | h <;> cases h
  have haccepted : ¬ HasStatus (c (a, b)) .accepted := fun h => by
    rcases hu _ h with h | h <;> cases h
  exact ⟨.of_not_pending not_hasStatus_none fun _ _ =>
      ⟨fun h => absurd h not_hasStatus_none, fun h => absurd h haccepted⟩,
    .of_not_pending hpending fun _ _ =>
      ⟨fun h => absurd h haccepted, fun h => absurd h not_hasStatus_none⟩⟩

/-- So does an unblock. -/
lemma consentSafe_unblock (h : c.Mutual) :
    (c.apply (.unblock owner peer)).Mutual ∧ c.ByConsent (.unblock owner peer)
      ↔ c.ConsentSafe (.unblock owner peer) := by
  rcases c.dropStatus_cases owner peer .blocked with ⟨hsame, hnone⟩ | ⟨hdrop, hblocked⟩
  · have hsame' : c.apply (.unblock owner peer) = c := by simp only [apply, unblockFriend, hsame]
    refine ⟨fun _ hblocked => absurd hblocked hnone, fun _ => ?_⟩
    refine ⟨hsame'.symm ▸ h, byConsent_of_same hsame' (by rintro _ _ ⟨⟩) ?_⟩
    intro owner' peer' hop
    cases hop
    exact hnone
  · have happly : c.apply (.unblock owner peer) = Function.update c (owner, peer) none := by
      simp only [apply, unblockFriend, hdrop]
    have hblocked : HasStatus (c (owner, peer)) .blocked := hblocked
    have hne : owner ≠ peer := by
      rintro rfl
      rw [h.no_self] at hblocked
      exact not_hasStatus_none hblocked
    have hpeer : Function.update c (owner, peer) none (peer, owner) = c (peer, owner) :=
      drop_of_ne fun h' => hne h'.2
    have hpending : ¬ HasStatus (c (peer, owner)) .pending := by
      intro hp
      rcases hp.isPending with hd | hd
      · cases hblocked.unique ((h.matching peer owner).received hd).hasStatus
      · cases hblocked.unique ((h.matching peer owner).asked hd).hasStatus
    rw [happly]
    constructor
    · rintro ⟨hmutual, -⟩ - haccepted
      have hmatch := hmutual.matching peer owner
      rw [hpeer, drop_self] at hmatch
      have hnot : ¬ HasStatus (c (peer, owner)) .blocked := fun h' => by cases haccepted.unique h'
      exact not_hasStatus_none ((hmatch.accepted hnot not_hasStatus_none).1 haccepted)
    · intro hsafe
      have hnot : ¬ HasStatus (c (peer, owner)) .accepted := hsafe hblocked
      have hquiet : ∀ s, HasStatus (c (peer, owner)) s → s = .declined ∨ s = .blocked := by
        intro s hs
        cases s with
        | pending => exact absurd hs hpending
        | accepted => exact absurd hs hnot
        | declined => exact .inl rfl
        | blocked => exact .inr rfl
      obtain ⟨hout, hback⟩ := matching_none_of hquiet
      refine ⟨h.of_pair hne (fun x y hxy => drop_of_ne fun h' => hxy (.inl h')) ?_ ?_, ?_⟩
      · rw [drop_self, hpeer]
        exact hout
      · rw [drop_self, hpeer]
        exact hback
      · refine byConsent_of_pair owner peer ?_ ?_ (by rintro _ _ ⟨⟩) ?_
        · intro x y hxy
          rw [happly]
          exact drop_of_ne fun h' => hxy (.inl h')
        · rintro x y (⟨rfl, rfl⟩ | ⟨rfl, rfl⟩)
          · exact .inr (.inl (by rw [happly, drop_self]))
          · exact .inl (by rw [happly, hpeer])
        · intro owner' peer' hop _ honly
          cases hop
          rw [happly]
          refine freshRequest_of_quiet (fun s hs => ?_) fun s hs => ?_
          · rw [drop_self] at hs
            exact absurd hs not_hasStatus_none
          · rw [hpeer] at hs
            rcases hquiet s hs with h' | h'
            · exact h'
            · exact absurd (h' ▸ hs) honly

/-- A removal leaves all as it should be exactly if it is safe. -/
lemma consentSafe_remove (h : c.Mutual) :
    (c.apply (.remove owner peer)).Mutual ∧ c.ByConsent (.remove owner peer)
      ↔ c.ConsentSafe (.remove owner peer) := by
  rcases c.dropStatus_cases owner peer .accepted with ⟨hsame, hnone⟩ | ⟨hdrop, haccepted⟩
  · have hsame' : c.apply (.remove owner peer) = c := by
      simp only [apply, removeFriend, hsame, Bool.false_eq_true, if_false]
    refine ⟨fun _ haccepted => absurd haccepted hnone, fun _ => ?_⟩
    refine ⟨hsame'.symm ▸ h, byConsent_of_same hsame' ?_ (by rintro _ _ ⟨⟩)⟩
    intro owner' peer' hop
    cases hop
    exact hnone
  · have happly : c.apply (.remove owner peer)
        = (dropStatus (Function.update c (owner, peer) none) peer owner .accepted).1 := by
      simp only [apply, removeFriend, hdrop, if_true]
    have haccepted : HasStatus (c (owner, peer)) .accepted := haccepted
    have hne : owner ≠ peer := by
      rintro rfl
      rw [h.no_self] at haccepted
      exact not_hasStatus_none haccepted
    have hpeer : Function.update c (owner, peer) none (peer, owner) = c (peer, owner) :=
      drop_of_ne fun h' => hne h'.2
    constructor
    · rintro ⟨-, hconsent⟩ - hblocked
      have hkept : c.apply (.remove owner peer) = Function.update c (owner, peer) none := by
        rcases dropStatus_cases (Function.update c (owner, peer) none) peer owner .accepted with
          ⟨hsame, -⟩ | ⟨-, haccepted'⟩
        · rw [happly, hsame]
        · have haccepted' : HasStatus (Function.update c (owner, peer) none (peer, owner)) .accepted :=
            haccepted'
          rw [hpeer] at haccepted'
          cases hblocked.unique haccepted'
      -- no cooldown runs, yet the request is refused
      have hfresh := hconsent.removed owner peer rfl haccepted 0
      rw [hkept, drop_self, hpeer] at hfresh
      obtain ⟨e, he, hs⟩ := Option.map_eq_some_iff.1 hblocked
      have hcool : CooledDown 0 (c (peer, owner)) := by
        intro e' he' hs'
        rw [he] at he'
        rw [← Option.some.inj he', hs] at hs'
        cases hs'
      obtain ⟨hview, -⟩ := requestOutcome_eq_new_iff.1 (hfresh (by rintro _ ⟨⟩) hcool).1
      rw [hpeer, he, peerView, hs] at hview
      cases hview
    · intro hsafe
      have hpeerAccepted : HasStatus (c (peer, owner)) .accepted := by
        refine ((h.matching owner peer).accepted (fun h' => ?_) (hsafe haccepted)).1 haccepted
        cases haccepted.unique h'
      have hboth : c.apply (.remove owner peer)
          = Function.update (Function.update c (owner, peer) none) (peer, owner) none := by
        rcases dropStatus_cases (Function.update c (owner, peer) none) peer owner .accepted with
          ⟨-, hnot⟩ | ⟨hdrop', -⟩
        · refine absurd ?_ hnot
          show HasStatus (Function.update c (owner, peer) none (peer, owner)) .accepted
          rw [hpeer]
          exact hpeerAccepted
        · rw [happly, hdrop']
      have hown : c.apply (.remove owner peer) (owner, peer) = none := by
        rw [hboth, drop_of_ne (fun h' => hne h'.1), drop_self]
      have hback : c.apply (.remove owner peer) (peer, owner) = none := by
        rw [hboth, drop_self]
      have hother : ∀ x y, ¬ IsPair owner peer x y →
          c.apply (.remove owner peer) (x, y) = c (x, y) := by
        intro x y hxy
        rw [hboth, drop_of_ne (fun h' => hxy (.inr h')), drop_of_ne (fun h' => hxy (.inl h'))]
      have hmatch : Matching none none :=
        .of_not_pending not_hasStatus_none fun _ _ => Iff.rfl
      refine ⟨h.of_pair hne hother ?_ ?_, byConsent_of_pair owner peer hother ?_ ?_ (by rintro _ _ ⟨⟩)⟩
      · rw [hown, hback]
        exact hmatch
      · rw [hown, hback]
        exact hmatch
      · rintro x y (⟨rfl, rfl⟩ | ⟨rfl, rfl⟩)
        · exact .inr (.inl hown)
        · exact .inr (.inl hback)
      · intro owner' peer' hop _
        cases hop
        refine freshRequest_of_quiet (fun s hs => ?_) fun s hs => ?_
        · exact absurd (hown ▸ hs) not_hasStatus_none
        · exact absurd (hback ▸ hs) not_hasStatus_none

end Lift

/-- **The condition of an operation is exact.** -/
lemma consentSafe_iff (h : c.Mutual) (op : FriendOp) (hop : ∀ old new, op ≠ .migrate old new) :
    (c.apply op).Mutual ∧ c.ByConsent op ↔ c.ConsentSafe op := by
  cases op with
  | request now owner peer => exact consentSafe_request h
  | accept now owner peer => exact ⟨fun _ => trivial, fun _ => consentSafe_accept h⟩
  | decline now owner peer => exact consentSafe_decline h
  | block now owner peer => exact consentSafe_block h
  | unblock owner peer => exact consentSafe_unblock h
  | remove owner peer => exact consentSafe_remove h
  | migrate oldRk newUid => exact absurd rfl (hop oldRk newUid)

end Contacts

/-! ## Runs -/

namespace FriendRegistry

/-- An operation on the registry makes friends, starts a cooldown and ends a relationship only as it
should. -/
def ByConsent (r : FriendRegistry) : FriendEvent → Prop
  | .op op => r.contacts.ByConsent (op.resolved r.resolveUid)
  | .bind .. => True

/-- The condition of an operation on the registry. -/
def ConsentSafe (r : FriendRegistry) : FriendEvent → Prop
  | .op op => r.contacts.ConsentSafe (op.resolved r.resolveUid)
  | .bind .. => True

/-- **When friendship is mutual and by consent**: in every state that a run of friend operations passes
through the entries agree, and each of its operations does by consent what it does, exactly when every
operation is safe. -/
theorem mutual_iff (resolver : Option (String → Option String)) (es : List FriendEvent)
    (hes : ∀ e ∈ es, ∀ oldRk newUid, e ≠ .op (.migrate oldRk newUid)) :
    (Run.Always step (fun r => r.contacts.Mutual) (empty resolver) es ∧
        Run.EachStep step ByConsent (empty resolver) es)
      ↔ Run.EachStep step ConsentSafe (empty resolver) es := by
  have hempty : (empty resolver).contacts.Mutual :=
    ⟨fun _ => rfl, fun _ _ => .of_not_pending not_hasStatus_none fun _ _ => Iff.rfl⟩
  refine Run.always_and_eachStep_iff_of (fun r e h hU => ?_) hempty
    ((Run.eachStep_true _ es).and_mem hes)
  cases e with
  | op op =>
    refine Contacts.consentSafe_iff h (op.resolved r.resolveUid) fun old new hop => ?_
    cases op with
    | migrate oldRk newUid => exact hU.1 oldRk newUid rfl
    | _ => cases hop
  | bind routingKey userId => exact ⟨fun _ => trivial, fun _ => ⟨h, trivial⟩⟩

/-- A friend is blocked and unblocked. -/
def liftedBlock : List FriendEvent :=
  [.op (.request 0 "alice" "bob"), .op (.accept 1 "bob" "alice"), .op (.block 2 "alice" "bob"),
    .op (.unblock "alice" "bob")]

/-- A user asks for its own friendship. -/
def selfRequest : List FriendEvent := [.op (.request 0 "alice" "alice")]

/-- A user declines its own request. -/
def ownDecline : List FriendEvent :=
  [.op (.request 0 "alice" "bob"), .op (.decline 1 "alice" "bob")]

/-- **Friendship is one-sided**: after an unblock the peer still counts the user as a friend and a fresh
request is refused; a user can be its own contact; and the user who has made a request can start the
cooldown by declining it. -/
theorem unblock_leaves_one_side :
    ¬ Run.Always step (fun r => r.contacts.Mutual) (empty none) liftedBlock ∧
      (Run.exec step (empty none) liftedBlock).contacts.requestOutcome 3 "alice" "bob"
        = .alreadyAccepted ∧
      ¬ Run.Always step (fun r => r.contacts.Mutual) (empty none) selfRequest ∧
      ¬ Run.EachStep step ByConsent (empty none) ownDecline := by
  refine ⟨fun h => ?_, by decide, fun h => ?_, fun h => ?_⟩
  · have hmatch := h.last.matching "alice" "bob"
    exact absurd ((hmatch.accepted (by decide) (by decide)).2 (by decide)) (by decide)
  · exact absurd (h.last.no_self "alice") (by decide)
  · obtain ⟨now, owner, peer, hop, hin, -⟩ :=
      h.2.1.declined "alice" "bob" (by decide) (by decide)
    cases hop
    revert hin
    decide

/-- Two users become friends, and the friendship is removed. -/
def shortFriendship : List FriendEvent :=
  [.op (.request 0 "alice" "bob"), .op (.accept 1 "bob" "alice"), .op (.remove "alice" "bob")]

theorem mutual_shortFriendship :
    Run.Always step (fun r => r.contacts.Mutual) (empty none) shortFriendship ∧
      Run.EachStep step ByConsent (empty none) shortFriendship :=
  (mutual_iff none shortFriendship (by simp [shortFriendship])).2
    ⟨(by decide : "alice" ≠ "bob"), trivial, fun _ => by decide, trivial⟩

end FriendRegistry

end MyClaw
