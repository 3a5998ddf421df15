import MyClaw.Agent.AskRouter

set_option autoImplicit false

/-!
# Replies to `ask_user`

What the router of `ask_user` promises, in every order of its steps.  A message that `fulfill` takes
goes to the wait of its session that was registered last, and to no other; a guard leaves the slots
of other waits alone; a session none of whose waits is live has no slot once the guards have run.  A
wait that is cancelled before its guard has run still has its slot: the message that `fulfill` takes
then is received by nobody.

## Main definitions

* `AskInv` — what every step keeps.
* `AskSafe` — what the calls and the tools behind them rely on.
* `AskDelivered` — what `fulfill` returns `true` for is received by the newest wait.

## Main results

* `AskInv.step` — every step keeps the invariant.
* `askSafe_run` — after every run the router is safe.
* `not_askDelivered_cancelled` — a cancelled wait swallows a message.
-/

namespace MyClaw

variable {M : Type} {s : AskState M}

/-- Only the entry that is set changes. -/
lemma entry_of_update {α β : Type} [DecidableEq α] {g : α → Option β} {x y : α} {b c : β}
    (h : Function.update g x (some b) y = some c) : (y = x ∧ c = b) ∨ (y ≠ x ∧ g y = some c) := by
  rw [Function.update_apply] at h
  split_ifs at h with hxy
  · exact .inl ⟨hxy, (Option.some.inj h).symm⟩
  · exact .inr ⟨hxy, h⟩

/-- An entry stays when another one is added. -/
lemma update_of_entry {α β : Type} [DecidableEq α] {g : α → Option β} {x y : α} {c : β}
    (hx : g x = none) (hy : g y = some c) (b : β) : Function.update g x (some b) y = some c := by
  have hxy : y ≠ x := by
    rintro rfl
    exact absurd (hx.symm.trans hy) nofun
  rw [Function.update_of_ne hxy, hy]

/-! ## What a run keeps -/

/-- The slot holds the sender of the newest wait of the session, which has not ended by itself. -/
structure SlotHeld (s : AskState M) (sessionId : String) (ask : PendingAsk) (a : Wait M) : Prop where
  wait : s.waits ask.wait = some a
  session : a.sessionId = sessionId
  generation : a.generation = ask.generation
  channel : a.channel = .empty
  phase : a.phase = .waiting ∨ a.phase = .over .cancelled
  newest : s.newest sessionId = some ask.wait
  superseded : s.superseded ask.wait = false
  untaken : ∀ f r, s.fulfills f = some r → r.target ≠ some ask.wait

/-- What a slot holds does not depend on the rest of the state. -/
lemma SlotHeld.of_eq {t : AskState M} {sessionId : String} {ask : PendingAsk} {a : Wait M}
    (h : SlotHeld s sessionId ask a) (hwait : t.waits ask.wait = s.waits ask.wait)
    (hnewest : t.newest sessionId = s.newest sessionId)
    (hsuperseded : t.superseded ask.wait = s.superseded ask.wait)
    (huntaken : ∀ f r, t.fulfills f = some r → r.target ≠ some ask.wait) :
    SlotHeld t sessionId ask a where
  wait := hwait.trans h.wait
  session := h.session
  generation := h.generation
  channel := h.channel
  phase := h.phase
  newest := hnewest.trans h.newest
  superseded := hsuperseded.trans h.superseded
  untaken := huntaken

lemma SlotHeld.untagged {sessionId : String} {ask : PendingAsk} {a : Wait M}
    (h : SlotHeld s sessionId ask a) : a.isTagged = false := by
  rw [Wait.isTagged]
  rcases h.phase with hphase | hphase
  · rw [hphase]
  · rw [hphase]

/-- The sender of the wait was taken by a message, as the newest one of its session. -/
structure Taken (s : AskState M) (r : Fulfill M) (w : ℕ) (a : Wait M) : Prop where
  wait : s.waits w = some a
  target : r.target = some w
  session : a.sessionId = r.sessionId
  newest : r.newest = some w
  superseded : s.superseded w = false
  untagged : a.isTagged = false
  unsent : r.sent = false → a.channel = .empty ∧ (a.phase = .waiting ∨ a.outcome = some .cancelled)
  sent : r.sent = true → (a.channel = .sent r.reply ∧ a.phase = .waiting) ∨
    a.outcome = some (.reply r.reply) ∨ a.outcome = some .cancelled

/-- What was taken does not depend on the rest of the state. -/
lemma Taken.of_eq {t : AskState M} {r : Fulfill M} {w : ℕ} {a : Wait M} (h : Taken s r w a)
    (hwait : t.waits w = s.waits w) (hsuperseded : t.superseded w = s.superseded w) :
    Taken t r w a where
  wait := hwait.trans h.wait
  target := h.target
  session := h.session
  newest := h.newest
  superseded := hsuperseded.trans h.superseded
  untagged := h.untagged
  unsent := h.unsent
  sent := h.sent

/-- What was taken stays so while the wait goes on. -/
lemma Taken.setWait {r : Fulfill M} {w : ℕ} {a b : Wait M} (h : Taken s r w a)
    (hsession : b.sessionId = a.sessionId) (htag : b.isTagged = false)
    (hunsent : a.channel = .empty → a.phase = .waiting ∨ a.outcome = some .cancelled →
      b.channel = .empty ∧ (b.phase = .waiting ∨ b.outcome = some .cancelled))
    (hsent : (a.channel = .sent r.reply ∧ a.phase = .waiting) ∨
        a.outcome = some (.reply r.reply) ∨ a.outcome = some .cancelled →
      (b.channel = .sent r.reply ∧ b.phase = .waiting) ∨
        b.outcome = some (.reply r.reply) ∨ b.outcome = some .cancelled) :
    Taken (s.setWait w b) r w b where
  wait := (AskState.waits_setWait s w w b).trans (if_pos rfl)
  target := h.target
  session := hsession.trans h.session
  newest := h.newest
  superseded := h.superseded
  untagged := htag
  unsent hs := hunsent (h.unsent hs).1 (h.unsent hs).2
  sent hs := hsent (h.sent hs)

/-- What every step keeps. -/
structure AskInv (s : AskState M) : Prop where
  gen_lt : ∀ w a, s.waits w = some a → a.generation < s.router.nextGen
  gen_inj : ∀ w a w' b, s.waits w = some a → s.waits w' = some b →
    a.generation = b.generation → w = w'
  tagged : ∀ w a, s.waits w = some a → a.isTagged = true → a.channel = .empty
  slot : ∀ sessionId ask, s.router.pending sessionId = some ask → ∃ a, SlotHeld s sessionId ask a
  taken : ∀ f r w, s.fulfills f = some r → r.target = some w → ∃ a, Taken s r w a
  target_inj : ∀ f r f' r' w, s.fulfills f = some r → s.fulfills f' = some r' →
    r.target = some w → r'.target = some w → f = f'
  received : ∀ w a msg, s.waits w = some a →
    a.channel = .sent msg ∨ a.outcome = some (.reply msg) →
      ∃ f r, s.fulfills f = some r ∧ r.target = some w ∧ r.reply = msg
  superseded : ∀ w, s.superseded w = true → ∃ a, s.waits w = some a ∧ a.isTagged = false

namespace AskInv

variable {w : ℕ} {a b : Wait M} {sessionId : String}

lemma new : AskInv (.new : AskState M) where
  gen_lt := nofun
  gen_inj := nofun
  tagged := nofun
  slot := nofun
  taken := nofun
  target_inj := nofun
  received := nofun
  superseded := nofun

/-! ### Parts of steps -/

/-- A slot is emptied. -/
lemma remove (h : AskInv s) (sessionId : String) :
    AskInv { s with router := s.router.remove sessionId } where
  gen_lt := h.gen_lt
  gen_inj := h.gen_inj
  tagged := h.tagged
  slot other ask hask := by
    have hpending : (s.router.remove sessionId).pending other = some ask := hask
    rw [AskRouter.pending_remove] at hpending
    split_ifs at hpending
    obtain ⟨a, ha⟩ := h.slot other ask hpending
    exact ⟨a, ha.of_eq rfl rfl rfl ha.untaken⟩
  taken f r w hf hr := by
    obtain ⟨a, ha⟩ := h.taken f r w hf hr
    exact ⟨a, ha.of_eq rfl rfl⟩
  target_inj := h.target_inj
  received := h.received
  superseded := h.superseded

lemma removeIf (h : AskInv s) (sessionId : String) (generation : ℕ) :
    AskInv { s with router := s.router.removeIf sessionId generation } := by
  rw [AskRouter.removeIf]
  split_ifs
  · exact h.remove sessionId
  · exact h

/-- A wait goes on. -/
lemma setWait (h : AskInv s) (ha : s.waits w = some a) (hsession : b.sessionId = a.sessionId)
    (hgen : b.generation = a.generation) (htag : b.isTagged = false)
    (hslot : ∀ sessionId ask, s.router.pending sessionId = some ask → ask.wait = w →
      b.channel = .empty ∧ (b.phase = .waiting ∨ b.phase = .over .cancelled))
    (htaken : ∀ f r, s.fulfills f = some r → Taken s r w a → Taken (s.setWait w b) r w b)
    (hreceived : ∀ msg, b.channel = .sent msg ∨ b.outcome = some (.reply msg) →
      a.channel = .sent msg ∨ a.outcome = some (.reply msg)) : AskInv (s.setWait w b) := by
  have hgens (w' : ℕ) (c : Wait M) (hc : (s.setWait w b).waits w' = some c) :
      ∃ d, s.waits w' = some d ∧ d.generation = c.generation := by
    rcases entry_of_update hc with ⟨rfl, rfl⟩ | ⟨-, hc⟩
    · exact ⟨a, ha, hgen.symm⟩
    · exact ⟨c, hc, rfl⟩
  have hself : (s.setWait w b).waits w = some b := by rw [AskState.waits_setWait, if_pos rfl]
  have hother (w' : ℕ) (hw : w' ≠ w) : (s.setWait w b).waits w' = s.waits w' := by
    rw [AskState.waits_setWait, if_neg hw]
  refine ⟨fun w' c hc => ?_, fun w' c w'' d hc hd heq => ?_, fun w' c hc htagged => ?_,
    fun other ask hask => ?_, fun f r w' hf hr => ?_, h.target_inj, fun w' c msg hc hmsg => ?_,
    fun w' hw => ?_⟩
  · obtain ⟨d, hd, hdgen⟩ := hgens w' c hc
    exact hdgen ▸ h.gen_lt w' d hd
  · obtain ⟨c', hc', hcgen⟩ := hgens w' c hc
    obtain ⟨d', hd', hdgen⟩ := hgens w'' d hd
    exact h.gen_inj w' c' w'' d' hc' hd' (by rw [hcgen, hdgen, heq])
  · rcases entry_of_update hc with ⟨rfl, rfl⟩ | ⟨-, hc⟩
    · rw [htag] at htagged
      exact absurd htagged Bool.false_ne_true
    · exact h.tagged w' c hc htagged
  · obtain ⟨c, hc⟩ := h.slot other ask hask
    by_cases hw : ask.wait = w
    · obtain rfl : a = c := Option.some.inj (ha.symm.trans (hw ▸ hc.wait))
      obtain ⟨hchannel, hphase⟩ := hslot other ask hask hw
      exact ⟨b, hw ▸ hself, hsession.trans hc.session, hgen.trans hc.generation, hchannel, hphase,
        hc.newest, hc.superseded, hc.untaken⟩
    · exact ⟨c, hc.of_eq (hother ask.wait hw) rfl rfl hc.untaken⟩
  · obtain ⟨c, hc⟩ := h.taken f r w' hf hr
    by_cases hw : w' = w
    · subst hw
      obtain rfl : a = c := Option.some.inj (ha.symm.trans hc.wait)
      exact ⟨b, htaken f r hf hc⟩
    · exact ⟨c, hc.of_eq (hother w' hw) rfl⟩
  · rcases entry_of_update hc with ⟨rfl, rfl⟩ | ⟨-, hc⟩
    · exact h.received w' a msg ha (hreceived msg hmsg)
    · exact h.received w' c msg hc hmsg
  · obtain ⟨c, hc, hctag⟩ := h.superseded w' hw
    by_cases heq : w' = w
    · exact ⟨b, heq ▸ hself, htag⟩
    · exact ⟨c, (hother w' heq).trans hc, hctag⟩

/-- A sender that is in no slot and was not taken is dropped. -/
lemma dropSender (h : AskInv s) (ha : s.waits w = some a) (htag : a.isTagged = false)
    (hslot : ∀ sessionId ask, s.router.pending sessionId = some ask → ask.wait ≠ w)
    (huntaken : ∀ f r, s.fulfills f = some r → r.target ≠ some w) : AskInv (s.dropSender w) := by
  have hset : AskInv (s.setWait w { a with channel := .closed }) :=
    h.setWait ha rfl rfl htag (fun other ask hask hw => absurd hw (hslot other ask hask))
      (fun f r hf hr => absurd hr.target (huntaken f r hf))
      fun msg hmsg => .inr (hmsg.resolve_left nofun)
  have hdrop : s.dropSender w = { s.setWait w { a with channel := .closed } with
      superseded := Function.update s.superseded w true } := by
    rw [AskState.dropSender, ha]
  have hsuperseded (w' : ℕ) : Function.update s.superseded w true w' =
      if w' = w then true else s.superseded w' := Function.update_apply ..
  rw [hdrop]
  refine ⟨hset.gen_lt, hset.gen_inj, hset.tagged, fun other ask hask => ?_, fun f r w' hf hr => ?_,
    hset.target_inj, hset.received, fun w' hw => ?_⟩
  · obtain ⟨c, hc⟩ := hset.slot other ask hask
    have hkeep := (hsuperseded ask.wait).trans (if_neg (hslot other ask hask))
    exact ⟨c, hc.of_eq rfl rfl hkeep hc.untaken⟩
  · obtain ⟨c, hc⟩ := hset.taken f r w' hf hr
    have hne : w' ≠ w := fun heq => huntaken f r hf (heq ▸ hr)
    exact ⟨c, hc.of_eq rfl ((hsuperseded w').trans (if_neg hne))⟩
  · have hw' : Function.update s.superseded w true w' = true := hw
    rw [hsuperseded] at hw'
    split_ifs at hw' with heq
    · exact ⟨{ a with channel := .closed },
        (AskState.waits_setWait s w w' _).trans (if_pos heq), htag⟩
    · exact hset.superseded w' hw'

/-- A wait takes the slot of its session. -/
lemma fill (h : AskInv s) (ha : s.waits w = some a) (htag : a.isTagged = true) :
    AskInv { s.setWait w { a with phase := .waiting } with
      router := s.router.insert a.sessionId ⟨a.generation, w⟩
      newest := Function.update s.newest a.sessionId (some w) } := by
  have huntaken (f : ℕ) (r : Fulfill M) (hf : s.fulfills f = some r) : r.target ≠ some w := by
    intro hr
    obtain ⟨c, hc⟩ := h.taken f r w hf hr
    obtain rfl : a = c := Option.some.inj (ha.symm.trans hc.wait)
    exact absurd (htag.symm.trans hc.untagged) (Ne.symm Bool.false_ne_true)
  have hunslotted (other : String) (ask : PendingAsk) (hask : s.router.pending other = some ask) :
      ask.wait ≠ w := by
    rintro rfl
    obtain ⟨c, hc⟩ := h.slot other ask hask
    obtain rfl : a = c := Option.some.inj (ha.symm.trans hc.wait)
    exact absurd (htag.symm.trans hc.untagged) (Ne.symm Bool.false_ne_true)
  have hlive : s.superseded w = false := by
    by_contra hw
    obtain ⟨c, hc, hctag⟩ := h.superseded w (by simpa using hw)
    obtain rfl : a = c := Option.some.inj (ha.symm.trans hc)
    exact absurd (htag.symm.trans hctag) (Ne.symm Bool.false_ne_true)
  have hset : AskInv (s.setWait w { a with phase := .waiting }) :=
    h.setWait ha rfl rfl rfl (fun other ask hask hw => absurd hw (hunslotted other ask hask))
      (fun f r hf hr => absurd hr.target (huntaken f r hf))
      fun msg hmsg => .inl (hmsg.resolve_right nofun)
  refine ⟨hset.gen_lt, hset.gen_inj, hset.tagged, fun other ask hask => ?_, fun f r w' hf hr => ?_,
    hset.target_inj, hset.received, hset.superseded⟩
  · have hpending : (s.router.insert a.sessionId ⟨a.generation, w⟩).pending other = some ask := hask
    rw [AskRouter.pending_insert] at hpending
    split_ifs at hpending with hsession
    · obtain rfl := Option.some.inj hpending
      refine ⟨{ a with phase := .waiting }, ?_, hsession.symm, rfl, h.tagged w a ha htag, .inl rfl,
        ?_, hlive, huntaken⟩
      · rw [AskState.waits_setWait, if_pos rfl]
      · exact (Function.update_apply ..).trans (if_pos hsession)
    · obtain ⟨c, hc⟩ := hset.slot other ask hpending
      exact ⟨c, hc.of_eq rfl ((Function.update_apply ..).trans (if_neg hsession)) rfl hc.untaken⟩
  · obtain ⟨c, hc⟩ := hset.taken f r w' hf hr
    exact ⟨c, hc.of_eq rfl rfl⟩

/-- The taken sender sends its message. -/
lemma deliver {f : ℕ} {r : Fulfill M} (h : AskInv s) (hf : s.fulfills f = some r)
    (ha : Taken s r w a) (hsent : r.sent = false) :
    AskInv { s.setWait w (a.send r.reply) with
      fulfills := Function.update s.fulfills f (some { r with sent := true }) } := by
  obtain ⟨hchannel, hlive⟩ := ha.unsent hsent
  have hother (w' : ℕ) (hw : w' ≠ w) : (s.setWait w (a.send r.reply)).waits w' = s.waits w' := by
    rw [AskState.waits_setWait, if_neg hw]
  have hgens (w' : ℕ) (c : Wait M) (hc : (s.setWait w (a.send r.reply)).waits w' = some c) :
      ∃ d, s.waits w' = some d ∧ d.generation = c.generation := by
    rcases entry_of_update hc with ⟨rfl, rfl⟩ | ⟨-, hc⟩
    · exact ⟨a, ha.wait, rfl⟩
    · exact ⟨c, hc, rfl⟩
  have hcalls (f' : ℕ) (r' : Fulfill M)
      (hr : Function.update s.fulfills f (some { r with sent := true }) f' = some r') :
      ∃ r'', s.fulfills f' = some r'' ∧ r''.target = r'.target := by
    rcases entry_of_update hr with ⟨rfl, rfl⟩ | ⟨-, hr⟩
    · exact ⟨r, hf, rfl⟩
    · exact ⟨r', hr, rfl⟩
  refine ⟨fun w' c hc => ?_, fun w' c w'' d hc hd heq => ?_, fun w' c hc htagged => ?_,
    fun other ask hask => ?_, fun f' r' w' hr hw => ?_, fun f' r' f'' r'' w' hr hr' hw hw' => ?_,
    fun w' c msg hc hmsg => ?_, fun w' hw => ?_⟩
  · obtain ⟨d, hd, hdgen⟩ := hgens w' c hc
    exact hdgen ▸ h.gen_lt w' d hd
  · obtain ⟨c', hc', hcgen⟩ := hgens w' c hc
    obtain ⟨d', hd', hdgen⟩ := hgens w'' d hd
    exact h.gen_inj w' c' w'' d' hc' hd' (by rw [hcgen, hdgen, heq])
  · rcases entry_of_update hc with ⟨rfl, rfl⟩ | ⟨-, hc⟩
    · exact absurd (htagged.symm.trans ha.untagged) (Ne.symm Bool.false_ne_true)
    · exact h.tagged w' c hc htagged
  · obtain ⟨c, hc⟩ := h.slot other ask hask
    have hw : ask.wait ≠ w := fun heq => hc.untaken f r hf (heq ▸ ha.target)
    refine ⟨c, hc.of_eq (hother ask.wait hw) rfl rfl fun f' r' hr => ?_⟩
    obtain ⟨r'', hr'', heq⟩ := hcalls f' r' hr
    exact heq ▸ hc.untaken f' r'' hr''
  · rcases entry_of_update hr with ⟨rfl, rfl⟩ | ⟨hne, hr⟩
    · obtain rfl : w = w' := Option.some.inj (ha.target.symm.trans hw)
      refine ⟨a.send r.reply, (AskState.waits_setWait s w w _).trans (if_pos rfl), ha.target,
        ha.session, ha.newest, ha.superseded, ha.untagged, nofun, fun _ => ?_⟩
      rcases hlive with hwaiting | hend
      · refine .inl ⟨?_, hwaiting⟩
        rw [Wait.send, Wait.isWaiting, hwaiting, if_pos rfl]
      · exact .inr (.inr hend)
    · obtain ⟨c, hc⟩ := h.taken f' r' w' hr hw
      have hww : w' ≠ w := fun heq => hne (h.target_inj f' r' f r w' hr hf hw (heq ▸ ha.target))
      exact ⟨c, hc.of_eq (hother w' hww) rfl⟩
  · obtain ⟨q, hq, heq⟩ := hcalls f' r' hr
    obtain ⟨q', hq', heq'⟩ := hcalls f'' r'' hr'
    exact h.target_inj f' q f'' q' w' hq hq' (heq.trans hw) (heq'.trans hw')
  · have hkeep (hend : ∃ f r, s.fulfills f = some r ∧ r.target = some w' ∧ r.reply = msg) :
        ∃ f' r', Function.update s.fulfills f (some { r with sent := true }) f' = some r' ∧
          r'.target = some w' ∧ r'.reply = msg := by
      obtain ⟨f', r', hr, hw, hreply⟩ := hend
      by_cases heq : f' = f
      · subst heq
        obtain rfl : r = r' := Option.some.inj (hf.symm.trans hr)
        exact ⟨f', { r with sent := true }, Function.update_self .., hw, hreply⟩
      · exact ⟨f', r', (Function.update_of_ne heq ..).trans hr, hw, hreply⟩
    rcases entry_of_update hc with ⟨rfl, rfl⟩ | ⟨-, hc⟩
    · rcases hmsg with hmsg | hend
      · refine hkeep ⟨f, r, hf, ha.target, ?_⟩
        have hchan : (if a.isWaiting then .sent r.reply else Oneshot.closed) = Oneshot.sent msg := hmsg
        split_ifs at hchan
        exact Oneshot.sent.inj hchan
      · exact hkeep (h.received w' a msg ha.wait (.inr hend))
    · exact hkeep (h.received w' c msg hc hmsg)
  · obtain ⟨c, hc, hctag⟩ := h.superseded w' hw
    by_cases heq : w' = w
    · exact ⟨a.send r.reply, (AskState.waits_setWait s w w' _).trans (if_pos heq), ha.untagged⟩
    · exact ⟨c, (hother w' heq).trans hc, hctag⟩

/-! ### Steps -/

/-- A wait is in one slot at most. -/
lemma slot_session (h : AskInv s) {sessionId other : String} {ask ask' : PendingAsk}
    (hask : s.router.pending sessionId = some ask) (hask' : s.router.pending other = some ask')
    (heq : ask.wait = ask'.wait) : sessionId = other := by
  obtain ⟨a, ha⟩ := h.slot sessionId ask hask
  obtain ⟨b, hb⟩ := h.slot other ask' hask'
  obtain rfl : a = b := Option.some.inj (ha.wait.symm.trans (heq ▸ hb.wait))
  exact ha.session.symm.trans hb.session

/-- A new call keeps the invariant. -/
lemma call (h : AskInv s) (w : ℕ) (sessionId : String) : AskInv (askStep s (.call w sessionId)) := by
  rw [askStep]
  cases hw : s.waits w with
  | some a => exact h
  | none =>
    have hne (w' : ℕ) (c : Wait M) (hc : s.waits w' = some c) : w' ≠ w := by
      rintro rfl
      exact absurd (hw.symm.trans hc) nofun
    have hold (w' : ℕ) (c : Wait M) (hc : s.waits w' = some c) :
        (s.setWait w ⟨sessionId, s.router.nextGen, .empty, .tagged⟩).waits w' = s.waits w' := by
      rw [AskState.waits_setWait, if_neg (hne w' c hc)]
    refine ⟨fun w' c hc => ?_, fun w' c w'' d hc hd heq => ?_, fun w' c hc htag => ?_,
      fun other ask hask => ?_, fun f r w' hf hr => ?_, h.target_inj, fun w' c msg hc hmsg => ?_,
      fun w' hw' => ?_⟩
    · rcases entry_of_update hc with ⟨-, rfl⟩ | ⟨-, hc⟩
      · exact Nat.lt_succ_self _
      · exact Nat.lt_succ_of_lt (h.gen_lt w' c hc)
    · rcases entry_of_update hc with ⟨rfl, rfl⟩ | ⟨-, hc⟩
      · rcases entry_of_update hd with ⟨rfl, -⟩ | ⟨-, hd⟩
        · rfl
        · exact absurd (heq ▸ h.gen_lt w'' d hd) (Nat.lt_irrefl _)
      · rcases entry_of_update hd with ⟨-, rfl⟩ | ⟨-, hd⟩
        · exact absurd (heq ▸ h.gen_lt w' c hc) (Nat.lt_irrefl _)
        · exact h.gen_inj w' c w'' d hc hd heq
    · rcases entry_of_update hc with ⟨-, rfl⟩ | ⟨-, hc⟩
      · rfl
      · exact h.tagged w' c hc htag
    · obtain ⟨c, hc⟩ := h.slot other ask hask
      exact ⟨c, hc.of_eq (hold ask.wait c hc.wait) rfl rfl hc.untaken⟩
    · obtain ⟨c, hc⟩ := h.taken f r w' hf hr
      exact ⟨c, hc.of_eq (hold w' c hc.wait) rfl⟩
    · rcases entry_of_update hc with ⟨-, rfl⟩ | ⟨-, hc⟩
      · exact absurd hmsg (by rintro (hsent | hend) <;> contradiction)
      · exact h.received w' c msg hc hmsg
    · obtain ⟨c, hc, htag⟩ := h.superseded w' hw'
      exact ⟨c, (hold w' c hc).trans hc, htag⟩

/-- A registration keeps the invariant. -/
lemma register (h : AskInv s) (w : ℕ) : AskInv (askStep s (.register w)) := by
  rw [askStep]
  cases hw : s.waits w with
  | none => exact h
  | some a =>
    simp only
    split_ifs with htag
    · have hfill := h.fill hw htag
      rw [AskState.register]
      cases hold : s.router.pending a.sessionId with
      | none => exact hfill
      | some old =>
        obtain ⟨c, hc⟩ := h.slot a.sessionId old hold
        have hne : old.wait ≠ w := by
          intro heq
          obtain rfl : a = c := Option.some.inj (hw.symm.trans (heq ▸ hc.wait))
          exact absurd (htag.symm.trans (hc.untagged)) (Ne.symm Bool.false_ne_true)
        refine hfill.dropSender ?_ (hc.untagged) (fun other ask hask => ?_) hc.untaken
        · exact (AskState.waits_setWait s w old.wait _).trans ((if_neg hne).trans hc.wait)
        · have hpending : (s.router.insert a.sessionId ⟨a.generation, w⟩).pending other = some ask :=
            hask
          rw [AskRouter.pending_insert] at hpending
          split_ifs at hpending with hsession
          · obtain rfl := Option.some.inj hpending
            exact hne.symm
          · exact fun heq => hsession (h.slot_session hpending hold heq)
    · exact h

/-- A poll keeps the invariant. -/
lemma poll (h : AskInv s) (w : ℕ) : AskInv (askStep s (.poll w)) := by
  rw [askStep]
  cases hw : s.waits w with
  | none => exact h
  | some a =>
    have hunslotted (hne : a.channel ≠ .empty) (other : String) (ask : PendingAsk)
        (hask : s.router.pending other = some ask) : ask.wait ≠ w := by
      rintro rfl
      obtain ⟨c, hc⟩ := h.slot other ask hask
      obtain rfl : a = c := Option.some.inj (hw.symm.trans hc.wait)
      exact hne hc.channel
    simp only
    split_ifs with hwaiting
    · have hrunning := Wait.outcome_of_isWaiting hwaiting
      cases hchannel : a.channel with
      | empty => exact h
      | sent msg =>
        have hne : a.channel ≠ .empty := by simp [hchannel]
        refine h.setWait hw rfl rfl rfl
          (fun other ask hask heq => absurd heq (hunslotted hne other ask hask))
          (fun f r hf hr => hr.setWait rfl rfl (fun hempty _ => absurd hempty hne) ?_)
          fun msg' hmsg => ?_
        · rintro (⟨hsent, -⟩ | hend | hend)
          · obtain rfl := Oneshot.sent.inj (hchannel.symm.trans hsent)
            exact .inr (.inl rfl)
          · exact absurd (hrunning.symm.trans hend) nofun
          · exact absurd (hrunning.symm.trans hend) nofun
        · rcases hmsg with hsent | hend
          · exact .inl (hchannel.trans hsent)
          · obtain rfl : msg = msg' := WaitEnd.reply.inj (Option.some.inj hend)
            exact .inl hchannel
      | closed =>
        have hne : a.channel ≠ .empty := by simp [hchannel]
        refine h.setWait hw rfl rfl rfl
          (fun other ask hask heq => absurd heq (hunslotted hne other ask hask))
          (fun f r hf hr => hr.setWait rfl rfl (fun hempty _ => absurd hempty hne) ?_)
          fun msg' hmsg => ?_
        · rintro (⟨hsent, -⟩ | hend | hend)
          · exact absurd (hchannel.symm.trans hsent) nofun
          · exact absurd (hrunning.symm.trans hend) nofun
          · exact absurd (hrunning.symm.trans hend) nofun
        · rcases hmsg with hsent | hend
          · exact absurd hsent nofun
          · exact absurd hend nofun
    · exact h

lemma cancel (h : AskInv s) (w : ℕ) : AskInv (askStep s (.cancel w)) := by
  rw [askStep]
  cases hw : s.waits w with
  | none => exact h
  | some a =>
    simp only
    split_ifs with hwaiting
    · refine h.setWait hw rfl rfl rfl (fun other ask hask heq => ⟨?_, .inr rfl⟩)
        (fun f r hf hr => hr.setWait rfl rfl (fun hempty _ => ⟨hempty, .inr rfl⟩)
          fun _ => .inr (.inr rfl))
        fun msg hmsg => hmsg.imp id (fun hend => absurd hend nofun)
      obtain ⟨c, hc⟩ := h.slot other ask hask
      obtain rfl : a = c := Option.some.inj (hw.symm.trans (heq ▸ hc.wait))
      exact hc.channel
    · exact h

/-- The drop of a guard keeps the invariant. -/
lemma dropGuard (h : AskInv s) (w : ℕ) : AskInv (askStep s (.dropGuard w)) := by
  rw [askStep]
  cases hw : s.waits w with
  | none => exact h
  | some a =>
    simp only
    split
    · rename_i e hphase
      have houtcome : a.outcome = some e := by rw [Wait.outcome, hphase]
      have hgone := h.removeIf a.sessionId a.generation
      refine hgone.setWait hw rfl rfl rfl (fun other ask hask heq => ?_)
        (fun f r hf hr => hr.setWait rfl rfl (fun hempty hlive => ⟨hempty, .inr ?_⟩) fun hend => ?_)
        fun msg hmsg => hmsg.imp id (fun hend => houtcome.trans hend)
      · have hpending : (s.router.removeIf a.sessionId a.generation).pending other = some ask := hask
        rw [AskRouter.pending_removeIf] at hpending
        split_ifs at hpending with hmine
        obtain ⟨c, hc⟩ := h.slot other ask hpending
        obtain rfl : a = c := Option.some.inj (hw.symm.trans (heq ▸ hc.wait))
        have hown : s.router.pending a.sessionId = some ask := hc.session ▸ hpending
        exact absurd ⟨hc.session.symm, by rw [hown]; simpa using hc.generation.symm⟩ hmine
      · rcases hlive with hwaiting | hend
        · cases hphase.symm.trans hwaiting
        · exact houtcome.symm.trans hend
      · rcases hend with ⟨-, hwaiting⟩ | hend
        · cases hphase.symm.trans hwaiting
        · exact .inr (hend.imp (fun hend => houtcome.symm.trans hend) fun hend =>
            houtcome.symm.trans hend)
    · exact h

/-- A call of `fulfill` is entered, with the wait whose sender it has taken. -/
lemma enter {f : ℕ} {r : Fulfill M} (h : AskInv s) (hf : s.fulfills f = none)
    (hslot : ∀ sessionId ask, s.router.pending sessionId = some ask → r.target ≠ some ask.wait)
    (htaken : ∀ w, r.target = some w → ∃ a, Taken s r w a)
    (huntaken : ∀ w, r.target = some w → ∀ f' r', s.fulfills f' = some r' → r'.target ≠ some w) :
    AskInv { s with fulfills := Function.update s.fulfills f (some r) } := by
  refine ⟨h.gen_lt, h.gen_inj, h.tagged, fun other ask hask => ?_, fun f' r' w hr hw => ?_,
    fun f' r' f'' r'' w hr hr' hw hw' => ?_, fun w a msg ha hmsg => ?_, h.superseded⟩
  · obtain ⟨c, hc⟩ := h.slot other ask hask
    refine ⟨c, hc.of_eq rfl rfl rfl fun f' r' hr => ?_⟩
    rcases entry_of_update hr with ⟨-, rfl⟩ | ⟨-, hr⟩
    · exact hslot other ask hask
    · exact hc.untaken f' r' hr
  · rcases entry_of_update hr with ⟨-, rfl⟩ | ⟨-, hr⟩
    · obtain ⟨a, ha⟩ := htaken w hw
      exact ⟨a, ha.of_eq rfl rfl⟩
    · obtain ⟨a, ha⟩ := h.taken f' r' w hr hw
      exact ⟨a, ha.of_eq rfl rfl⟩
  · rcases entry_of_update hr with ⟨rfl, rfl⟩ | ⟨-, hold⟩
    · rcases entry_of_update hr' with ⟨rfl, -⟩ | ⟨-, hold'⟩
      · rfl
      · exact absurd hw' (huntaken w hw f'' r'' hold')
    · rcases entry_of_update hr' with ⟨rfl, rfl⟩ | ⟨-, hold'⟩
      · exact absurd hw (huntaken w hw' f' r' hold)
      · exact h.target_inj f' r' f'' r'' w hold hold' hw hw'
  · obtain ⟨f', r', hr, hw⟩ := h.received w a msg ha hmsg
    exact ⟨f', r', update_of_entry hf hr r, hw⟩

lemma fulfill (h : AskInv s) (f : ℕ) (sessionId : String) (reply : M) :
    AskInv (askStep s (.fulfill f sessionId reply)) := by
  rw [askStep]
  cases hf : s.fulfills f with
  | some r => exact h
  | none =>
    simp only
    cases hpending : s.router.pending sessionId with
    | none => exact h.enter hf nofun nofun nofun
    | some ask =>
      obtain ⟨a, ha⟩ := h.slot sessionId ask hpending
      refine (h.remove sessionId).enter hf (fun other ask' hask heq => ?_) (fun w hw => ?_)
        fun w hw => ?_
      · have hother : (s.router.remove sessionId).pending other = some ask' := hask
        rw [AskRouter.pending_remove] at hother
        split_ifs at hother with hsession
        exact hsession (h.slot_session hother hpending (Option.some.inj heq).symm)
      · obtain rfl : ask.wait = w := Option.some.inj hw
        exact ⟨a, ha.wait, rfl, ha.session, ha.newest, ha.superseded, ha.untagged,
          fun _ => ⟨ha.channel, ha.phase.imp id fun hphase => by rw [Wait.outcome, hphase]⟩, nofun⟩
      · obtain rfl : ask.wait = w := Option.some.inj hw
        exact ha.untaken

lemma send (h : AskInv s) (f : ℕ) : AskInv (askStep s (.send f)) := by
  rw [askStep]
  cases hf : s.fulfills f with
  | none => exact h
  | some r =>
    simp only
    split_ifs with hsent
    · exact h
    · cases htarget : r.target with
      | none => exact h
      | some w =>
        obtain ⟨a, ha⟩ := h.taken f r w hf htarget
        have hdeliver := h.deliver hf ha (Bool.eq_false_iff.2 hsent)
        simp only [htarget] at hdeliver
        rw [Option.bind_some, ha.wait]
        exact hdeliver

/-- **Every step keeps the invariant.** -/
theorem step (h : AskInv s) (e : AskEvent M) : AskInv (askStep s e) := by
  cases e with
  | call w sessionId => exact h.call w sessionId
  | register w => exact h.register w
  | poll w => exact h.poll w
  | cancel w => exact h.cancel w
  | dropGuard w => exact h.dropGuard w
  | fulfill f sessionId reply => exact h.fulfill f sessionId reply
  | send f => exact h.send f

end AskInv

/-! ## Safety -/

/-- **The invariant holds after every run.** -/
theorem askInv_run (events : List (AskEvent M)) : AskInv (Run.exec askStep .new events) :=
  Run.exec_of_step (fun _ e h => h.step e) AskInv.new events

/-- The guard of the wait has run. -/
def Wait.isDone (a : Wait M) : Bool := a.phase matches .done _

/-- What the callers of the router rely on. -/
structure AskSafe (s : AskState M) : Prop where
  /-- `fulfill` returns `true` only with the sender of the newest wait of its session.  Once it has
  sent, the wait has the message, or was cancelled. -/
  answered : ∀ f r, s.fulfills f = some r → r.returns = true →
    ∃ w a, r.newest = some w ∧ s.waits w = some a ∧ a.sessionId = r.sessionId ∧
      (r.sent = true → (a.channel = .sent r.reply ∧ a.isWaiting = true) ∨
        a.outcome = some (.reply r.reply) ∨ a.outcome = some .cancelled)
  /-- What a wait receives was sent to its session, and the wait was not superseded. -/
  received : ∀ w a msg, s.waits w = some a → a.outcome = some (.reply msg) →
    s.superseded w = false ∧ ∃ f r, s.fulfills f = some r ∧ r.returns = true ∧ r.newest = some w ∧
      r.sessionId = a.sessionId ∧ r.reply = msg
  /-- A guard leaves the slots of the other waits alone. -/
  guarded : ∀ w sessionId ask, s.router.pending sessionId = some ask → ask.wait ≠ w →
    (askStep s (.dropGuard w)).router.pending sessionId = some ask
  /-- A session whose waits have run their guards has no slot. -/
  cleared : ∀ sessionId,
    (∀ w a, s.waits w = some a → a.sessionId = sessionId → a.isTagged = true ∨ a.isDone = true) →
      s.router.pending sessionId = none

namespace AskInv

/-- A guard finds its own generation in the slot of its own wait only. -/
lemma guarded (h : AskInv s) (w : ℕ) (sessionId : String) (ask : PendingAsk)
    (hask : s.router.pending sessionId = some ask) (hw : ask.wait ≠ w) :
    (askStep s (.dropGuard w)).router.pending sessionId = some ask := by
  rw [askStep]
  cases ha : s.waits w with
  | none => exact hask
  | some a =>
    simp only
    split
    · have hother : ¬(sessionId = a.sessionId ∧
          (s.router.pending a.sessionId).any (·.generation = a.generation)) := by
        rintro ⟨rfl, hgen⟩
        obtain ⟨c, hc⟩ := h.slot _ ask hask
        rw [hask, Option.any_some, decide_eq_true_eq, ← hc.generation] at hgen
        exact hw (h.gen_inj _ c w a hc.wait ha hgen)
      exact (AskRouter.pending_removeIf ..).trans ((if_neg hother).trans hask)
    · exact hask

/-- A slot belongs to a wait that is registered and whose guard has not run. -/
lemma cleared (h : AskInv s) (sessionId : String)
    (hdone : ∀ w a, s.waits w = some a → a.sessionId = sessionId →
      a.isTagged = true ∨ a.isDone = true) : s.router.pending sessionId = none := by
  cases hask : s.router.pending sessionId with
  | none => rfl
  | some ask =>
    obtain ⟨a, ha⟩ := h.slot sessionId ask hask
    rcases hdone ask.wait a ha.wait ha.session with htag | hend
    · exact absurd (htag.symm.trans ha.untagged) (Ne.symm Bool.false_ne_true)
    · rw [Wait.isDone] at hend
      rcases ha.phase with hphase | hphase
      · rw [hphase] at hend
        exact absurd hend Bool.false_ne_true
      · rw [hphase] at hend
        exact absurd hend Bool.false_ne_true

/-- **The invariant is enough to be safe.** -/
theorem askSafe (h : AskInv s) : AskSafe s where
  answered f r hf hr := by
    obtain ⟨w, hw⟩ := Option.isSome_iff_exists.1 hr
    obtain ⟨a, ha⟩ := h.taken f r w hf hw
    refine ⟨w, a, ha.newest, ha.wait, ha.session, fun hsent => ?_⟩
    rcases ha.sent hsent with ⟨hchannel, hphase⟩ | hend
    · exact .inl ⟨hchannel, by rw [Wait.isWaiting, hphase]⟩
    · exact .inr hend
  received w a msg hw hend := by
    obtain ⟨f, r, hf, htarget, hreply⟩ := h.received w a msg hw (.inr hend)
    obtain ⟨c, hc⟩ := h.taken f r w hf htarget
    obtain rfl : a = c := Option.some.inj (hw.symm.trans hc.wait)
    exact ⟨hc.superseded, f, r, hf, Option.isSome_iff_exists.2 ⟨w, htarget⟩, hc.newest,
      hc.session.symm, hreply⟩
  guarded := h.guarded
  cleared := h.cleared

end AskInv

/-- **A reply reaches the newest question and only it**, unless that one is cancelled: the router is
safe after every run of its steps. -/
theorem askSafe_run (events : List (AskEvent M)) : AskSafe (Run.exec askStep .new events) :=
  (askInv_run events).askSafe

/-- What `fulfill` has returned `true` for is received by the newest wait of the session, when that
one has ended. -/
def AskDelivered (s : AskState M) : Prop :=
  ∀ f r, s.fulfills f = some r → r.returns = true → r.sent = true →
    ∃ w a, r.newest = some w ∧ s.waits w = some a ∧
      (a.outcome = none ∨ a.outcome = some (.reply r.reply))

/-- A wait is cancelled, and a message arrives before its guard has run. -/
def cancelledRun : List (AskEvent Unit) :=
  [.call 0 "s", .register 0, .cancel 0, .fulfill 0 "s" (), .send 0, .dropGuard 0]

/-- **A cancelled wait swallows a message.** -/
theorem not_askDelivered_cancelled :
    ¬∀ events : List (AskEvent Unit), AskDelivered (Run.exec askStep .new events) := by
  intro h
  obtain ⟨w, a, hw, ha, hend⟩ :=
    h cancelledRun 0 ⟨"s", (), some 0, some 0, true⟩ rfl rfl rfl
  obtain rfl : 0 = w := Option.some.inj hw
  obtain rfl : ⟨"s", 0, .closed, .done .cancelled⟩ = a := Option.some.inj ha
  rcases hend with hend | hend
  · exact absurd hend nofun
  · exact absurd hend nofun

end MyClaw
