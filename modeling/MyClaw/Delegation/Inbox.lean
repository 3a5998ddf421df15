import MyClaw.Lib.Run
import Mathlib.Data.List.Perm.Basic
import Mathlib.Algebra.Ring.Nat

set_option autoImplicit false

/-!
# The inbox of a sub-agent

A parent sends mails to a running sub-agent through a channel of bounded capacity
(`agents/delegation_coordinator/messenger.rs`).  The sub-agent drains it before each request to the
model (`agents/agent/injections.rs`), injects the newest mails that fit the budget
(`agents/delegation.rs`) and puts the older ones back into the channel.  When its turn has ended, what
is left is attached to its result (`agents/delegation_coordinator/delegate.rs`).

## Main definitions

* `selectWithinInjectionBudget` — the split of a drained batch.
* `SubAgentInbox`, `inboxStep` — the channel with the two tasks that use it.
* `ReachesSubAgent`, `KeepsMail` — that no mail is lost, and the condition on the steps.
* `AwaitsItself` — the sub-agent waits for room in the channel that only it empties.

## Main results

* `selectWithinInjectionBudget_spec` — what is kept is the longest part at the end that fits.
* `inbox_conserved` — in every run each mail that was accepted is in one place.
* `reachesSubAgent_iff` — when no mail is lost.
* `awaitsItself_forever` — a sub-agent that waits for itself is only ended from outside, and a
  parent that keeps sending brings it there.

## Implementation notes

A receive is one step, so the parent may send between any two of them.  A send that waits for room is
a step that does nothing while there is none.  The ledgers of what was accepted and what was dropped
are not part of the program.
-/

namespace MyClaw

/-! ## Mails and the budget of an injection -/

/-- `AgentMail`. -/
structure AgentMail where
  msgId : String
  senderName : String
  text : String
  timestamp : ℕ
  deriving DecidableEq

/-- The characters that `estimate_tokens` counts one token for. -/
def isCjk (c : Char) : Bool :=
  (0x4E00 ≤ c.toNat && c.toNat ≤ 0x9FFF) || (0x3400 ≤ c.toNat && c.toNat ≤ 0x4DBF) ||
    (0x3040 ≤ c.toNat && c.toNat ≤ 0x30FF) || (0xAC00 ≤ c.toNat && c.toNat ≤ 0xD7AF) ||
      (0xFF00 ≤ c.toNat && c.toNat ≤ 0xFFEF)

/-- `estimate_tokens` (`providers/tokens.rs`). -/
def estimateTextTokens (text : List Char) : ℕ :=
  let otherBytes := ((text.filter (! isCjk ·)).map Char.utf8Size).sum
  text.countP isCjk + (otherBytes + 3) / 4

/-- `render_mail_line`; `clock` writes the time of day. -/
def renderMailLine (clock : ℕ → String) (mail : AgentMail) : String :=
  "- [来自 " ++ mail.senderName ++ "] " ++ clock mail.timestamp ++ "\n" ++ mail.text

/-- The cost of a mail: its line, and the separator. -/
def mailCost (clock : ℕ → String) (mail : AgentMail) : ℕ :=
  estimateTextTokens (renderMailLine clock mail).toList + 1

/-- `INJECTION_BUDGET_TOKENS`. -/
def injectionBudgetTokens : ℕ := 2048

/-- The loop of `select_within_injection_budget` over the mails, the newest first. -/
def keepNewest (clock : ℕ → String) :
    ℕ → List AgentMail → List AgentMail → List AgentMail × List AgentMail
  | _, kept, [] => (kept, [])
  | total, kept, mail :: older =>
    if injectionBudgetTokens < total + mailCost clock mail ∧ kept ≠ [] then
      (kept, (mail :: older).reverse)
    else keepNewest clock (total + mailCost clock mail) (mail :: kept) older

/-- `select_within_injection_budget`: what is injected, and what is put back. -/
def selectWithinInjectionBudget (clock : ℕ → String) (mails : List AgentMail) :
    List AgentMail × List AgentMail :=
  keepNewest clock 0 [] mails.reverse

/-- `SUB_AGENT_INBOX_CAPACITY`. -/
def subAgentInboxCapacity : ℕ := 64

/-! ## The machine -/

/-- How far the task of the sub-agent has come with its inbox. -/
inductive InboxStage
  /-- The turn runs, between two drains. -/
  | working
  /-- In the loop before a request, with what it has received. -/
  | draining (pending : List AgentMail)
  /-- The older mails go back into the channel. -/
  | requeueing (kept deferred : List AgentMail)
  /-- In the loop behind the turn. -/
  | collecting (undelivered : List AgentMail)
  /-- Nobody receives any more. -/
  | ended
  deriving DecidableEq

/-- The mails that the task holds. -/
def InboxStage.hand : InboxStage → List AgentMail
  | .working => []
  | .draining pending => pending
  | .requeueing kept deferred => deferred ++ kept
  | .collecting undelivered => undelivered
  | .ended => []

/-- The inbox of a sub-agent: whether a send finds it (the coordinator has it in its table, and the
receiver is there), the channel, the task, what was injected and what is part of the result; and the
ledgers. -/
structure SubAgentInbox where
  registered : Bool := true
  channel : List AgentMail := []
  stage : InboxStage := .working
  injected : List (List AgentMail) := []
  attached : List AgentMail := []
  accepted : List AgentMail := []
  dropped : List AgentMail := []

/-- A step of the parent or of the sub-agent. -/
inductive InboxEvent
  /-- `send_to_sub_agent`. -/
  | send (mail : AgentMail)
  /-- `inject_per_round` begins. -/
  | beginRound
  /-- `try_recv`; if the channel is empty, the loop ends. -/
  | tryRecv
  /-- The next mail is put back; after the last one the reminder is pushed. -/
  | requeue
  /-- The turn ends by itself. -/
  | finishTurn
  /-- The timer of the delegation fires and drops the turn. -/
  | timeOut
  /-- The task ends without the last loop: a panic, or an error before the turn. -/
  | die
  /-- The receiver is dropped with the session, or the coordinator removes the inbox from its table. -/
  | unregister

namespace SubAgentInbox

/-- The channel takes another mail. -/
def hasRoom (s : SubAgentInbox) : Prop := s.channel.length < subAgentInboxCapacity

instance (s : SubAgentInbox) : Decidable s.hasRoom := Nat.decLt _ _

/-- `send_to_sub_agent` returns `Ok`. -/
def accepts (s : SubAgentInbox) : Prop := s.registered = true ∧ s.hasRoom

instance (s : SubAgentInbox) : Decidable s.accepts := instDecidableAnd

/-- The mail is sent. -/
def send (s : SubAgentInbox) (mail : AgentMail) : SubAgentInbox :=
  if s.accepts then
    { s with channel := s.channel ++ [mail], accepted := s.accepted ++ [mail] }
  else s

/-- One turn of a loop of `try_recv`. -/
def tryRecv (clock : ℕ → String) (s : SubAgentInbox) : SubAgentInbox :=
  match s.stage, s.channel with
  | .draining pending, mail :: rest =>
    { s with channel := rest, stage := .draining (pending ++ [mail]) }
  | .draining [], [] => { s with stage := .working }
  | .draining (mail :: pending), [] =>
    let (kept, deferred) := selectWithinInjectionBudget clock (mail :: pending)
    { s with stage := .requeueing kept deferred }
  | .collecting undelivered, mail :: rest =>
    { s with channel := rest, stage := .collecting (undelivered ++ [mail]) }
  | .collecting undelivered, [] => { s with stage := .ended, attached := undelivered }
  | _, _ => s

/-- `mailbox.tx.send(mail).await`, or the push of the reminder. -/
def requeue (s : SubAgentInbox) : SubAgentInbox :=
  match s.stage with
  | .requeueing kept [] => { s with stage := .working, injected := s.injected ++ [kept] }
  | .requeueing kept (mail :: deferred) =>
    if s.hasRoom then
      { s with channel := s.channel ++ [mail], stage := .requeueing kept deferred }
    else s
  | _ => s

/-- The turn is dropped, with what it holds. -/
def timeOut (s : SubAgentInbox) : SubAgentInbox :=
  match s.stage with
  | .working | .draining _ | .requeueing _ _ =>
    { s with stage := .collecting [], dropped := s.dropped ++ s.stage.hand }
  | _ => s

end SubAgentInbox

/-- A step. -/
def inboxStep (clock : ℕ → String) (s : SubAgentInbox) : InboxEvent → SubAgentInbox
  | .send mail => s.send mail
  | .beginRound => if s.stage = .working then { s with stage := .draining [] } else s
  | .tryRecv => s.tryRecv clock
  | .requeue => s.requeue
  | .finishTurn => if s.stage = .working then { s with stage := .collecting [] } else s
  | .timeOut => s.timeOut
  | .die => { s with stage := .ended, dropped := s.dropped ++ s.stage.hand }
  | .unregister => { s with registered := false }

/-! ## The split of a batch -/

section

variable {clock : ℕ → String}

/-- The cost of a batch. -/
def batchCost (clock : ℕ → String) (mails : List AgentMail) : ℕ := (mails.map (mailCost clock)).sum

@[simp] lemma batchCost_cons (mail : AgentMail) (mails : List AgentMail) :
    batchCost clock (mail :: mails) = mailCost clock mail + batchCost clock mails := by
  simp [batchCost]

/-- What a split of a batch should be: the newest mails that fit, at least one of them, and as many as
fit. -/
structure NewestWithin (clock : ℕ → String) (mails kept deferred : List AgentMail) : Prop where
  parts : deferred ++ kept = mails
  nonempty : mails ≠ [] → kept ≠ []
  fits : batchCost clock kept ≤ injectionBudgetTokens ∨ kept.length = 1
  /-- The next older one does not fit. -/
  maximal : ∀ older mail, deferred = older ++ [mail] →
    injectionBudgetTokens < batchCost clock (mail :: kept)

/-- The loop, from what it has kept so far. -/
lemma keepNewest_spec {total : ℕ} {kept newestFirst : List AgentMail}
    (htotal : total = batchCost clock kept)
    (hfits : batchCost clock kept ≤ injectionBudgetTokens ∨ kept.length = 1) :
    NewestWithin clock (newestFirst.reverse ++ kept) (keepNewest clock total kept newestFirst).1
      (keepNewest clock total kept newestFirst).2 := by
  induction newestFirst generalizing total kept with
  | nil => exact ⟨rfl, id, hfits, fun older mail h => by simp [keepNewest] at h⟩
  | cons mail older ih =>
    rw [keepNewest]
    split_ifs with hstop
    · refine ⟨rfl, fun _ => hstop.2, hfits, fun older' mail' h => ?_⟩
      obtain ⟨-, rfl⟩ : older.reverse = older' ∧ mail = mail' := by
        simpa [List.append_inj_left', List.append_inj_right'] using h
      rw [batchCost_cons, ← htotal]
      omega
    · have hnext : total + mailCost clock mail = batchCost clock (mail :: kept) := by
        rw [batchCost_cons, htotal]
        omega
      have hfits' : batchCost clock (mail :: kept) ≤ injectionBudgetTokens ∨
          (mail :: kept).length = 1 := by
        by_cases hnil : kept = []
        · exact .inr (by simp [hnil])
        · exact .inl (by rw [← hnext]; exact Nat.le_of_not_lt fun hlt => hstop ⟨hlt, hnil⟩)
      have hrest := ih hnext hfits'
      rwa [List.reverse_cons, List.append_assoc, List.singleton_append]

/-- **A batch is split at the budget**: the mails that are kept are the newest ones, they fit or are a
single one, and the next older one would not fit. -/
theorem selectWithinInjectionBudget_spec (clock : ℕ → String) (mails : List AgentMail) :
    NewestWithin clock mails (selectWithinInjectionBudget clock mails).1
      (selectWithinInjectionBudget clock mails).2 := by
  have h := @keepNewest_spec clock 0 [] mails.reverse rfl (.inl (Nat.zero_le _))
  rwa [List.reverse_reverse, List.append_nil] at h

end

/-! ## Each mail is in one place -/

namespace SubAgentInbox

/-- Where the mails are: injected, part of the result, held by the task, in the channel, or lost. -/
def places (s : SubAgentInbox) : List AgentMail :=
  s.injected.flatten ++ s.attached ++ s.stage.hand ++ s.channel ++ s.dropped

/-- What holds in every state of a run. -/
structure Conserved (s : SubAgentInbox) : Prop where
  perm : s.accepted.Perm s.places
  room : s.channel.length ≤ subAgentInboxCapacity
  /-- Nothing is attached before the end. -/
  later : s.stage ≠ .ended → s.attached = []

lemma accepted_perm_iff {s : SubAgentInbox} :
    s.accepted.Perm s.places ↔ ∀ mail, s.accepted.count mail =
      s.injected.flatten.count mail + s.attached.count mail + s.stage.hand.count mail +
        s.channel.count mail + s.dropped.count mail := by
  simp [List.perm_iff_count, places, List.count_append, Nat.add_assoc]

/-- A fresh inbox. -/
lemma conserved_fresh : Conserved {} := ⟨.refl _, Nat.zero_le _, fun _ => rfl⟩

end SubAgentInbox

section

open SubAgentInbox

variable {clock : ℕ → String} {s : SubAgentInbox}

lemma SubAgentInbox.Conserved.send (h : s.Conserved) (mail : AgentMail) :
    (s.send mail).Conserved := by
  rw [SubAgentInbox.send]
  split_ifs with haccepts
  · refine ⟨accepted_perm_iff.2 fun other => ?_, ?_, h.later⟩
    · have hcount := accepted_perm_iff.1 h.perm other
      simp only [List.count_append]
      omega
    · have hroom : s.channel.length < subAgentInboxCapacity := haccepts.2
      simp only [List.length_append, List.length_singleton]
      omega
  · exact h

/-- A state in which only the channel and the stage have changed, and hold the same mails. -/
lemma SubAgentInbox.Conserved.move (h : s.Conserved) {channel : List AgentMail} {stage : InboxStage}
    (hroom : channel.length ≤ subAgentInboxCapacity) (hturn : s.stage ≠ .ended)
    (hcount : ∀ mail, stage.hand.count mail + channel.count mail =
      s.stage.hand.count mail + s.channel.count mail) :
    { s with channel := channel, stage := stage }.Conserved := by
  refine ⟨accepted_perm_iff.2 fun mail => ?_, hroom, fun _ => h.later hturn⟩
  have hbefore := accepted_perm_iff.1 h.perm mail
  have hmoved := hcount mail
  dsimp only
  omega

lemma SubAgentInbox.Conserved.tryRecv (h : s.Conserved) : (s.tryRecv clock).Conserved := by
  unfold SubAgentInbox.tryRecv
  split
  · rename_i pending mail rest hstage hchannel
    have hroom := h.room
    refine h.move ?_ (by simp [hstage]) fun other => ?_
    · rw [hchannel, List.length_cons] at hroom
      omega
    · rw [hstage, hchannel]
      simp only [InboxStage.hand, List.count_append, List.count_cons, List.count_nil]
      omega
  · rename_i hstage hchannel
    exact h.move h.room (by simp [hstage]) fun other => by simp [hstage, InboxStage.hand]
  · rename_i mail pending hstage hchannel
    have hsplit := selectWithinInjectionBudget_spec clock (mail :: pending)
    refine h.move h.room (by simp [hstage]) fun other => ?_
    rw [hstage]
    exact congrArg (·.count other + s.channel.count other) hsplit.parts
  · rename_i undelivered mail rest hstage hchannel
    have hroom := h.room
    refine h.move ?_ (by simp [hstage]) fun other => ?_
    · rw [hchannel, List.length_cons] at hroom
      omega
    · rw [hstage, hchannel]
      simp only [InboxStage.hand, List.count_append, List.count_cons, List.count_nil]
      omega
  · rename_i undelivered hstage hchannel
    refine ⟨accepted_perm_iff.2 fun mail => ?_, h.room, fun hturn => absurd rfl hturn⟩
    have hcount := accepted_perm_iff.1 h.perm mail
    have hnothing : s.attached = [] := h.later (by simp [hstage])
    simp only [hstage, hnothing, InboxStage.hand, List.count_nil] at hcount ⊢
    omega
  · exact h

lemma SubAgentInbox.Conserved.requeue (h : s.Conserved) : s.requeue.Conserved := by
  unfold SubAgentInbox.requeue
  split
  · rename_i kept hstage
    refine ⟨accepted_perm_iff.2 fun mail => ?_, h.room, fun _ => h.later (by simp [hstage])⟩
    have hcount := accepted_perm_iff.1 h.perm mail
    simp only [hstage, InboxStage.hand, List.nil_append, List.flatten_append, List.count_append,
      List.flatten_cons, List.flatten_nil, List.append_nil, List.count_nil] at hcount ⊢
    omega
  · rename_i kept mail deferred hstage
    split_ifs with hroom
    · refine h.move ?_ (by simp [hstage]) fun other => ?_
      · have hlt : s.channel.length < subAgentInboxCapacity := hroom
        simp only [List.length_append, List.length_singleton]
        omega
      · rw [hstage]
        simp only [InboxStage.hand, List.cons_append, List.count_append, List.count_cons,
          List.count_nil]
        omega
    · exact h
  · exact h

/-- The task drops what it holds. -/
lemma SubAgentInbox.Conserved.drop (h : s.Conserved) {stage : InboxStage} (hhand : stage.hand = [])
    (hlater : stage ≠ .ended → s.stage ≠ .ended) :
    { s with stage := stage, dropped := s.dropped ++ s.stage.hand }.Conserved := by
  refine ⟨accepted_perm_iff.2 fun mail => ?_, h.room, fun hturn => h.later (hlater hturn)⟩
  have hcount := accepted_perm_iff.1 h.perm mail
  simp only [hhand, List.count_append, List.count_nil]
  omega

lemma SubAgentInbox.Conserved.timeOut (h : s.Conserved) : s.timeOut.Conserved := by
  unfold SubAgentInbox.timeOut
  split
  · rename_i hstage
    exact h.drop rfl fun _ => by simp [hstage]
  · rename_i pending hstage
    exact h.drop rfl fun _ => by simp [hstage]
  · rename_i kept deferred hstage
    exact h.drop rfl fun _ => by simp [hstage]
  · exact h

/-- A step keeps each mail in one place. -/
lemma conserved_inboxStep (e : InboxEvent) (h : s.Conserved) : (inboxStep clock s e).Conserved := by
  cases e with
  | send mail => exact h.send mail
  | beginRound =>
    rw [inboxStep]
    split_ifs with hstage
    · exact h.move h.room (by simp [hstage]) fun mail => by simp [hstage, InboxStage.hand]
    · exact h
  | tryRecv => exact h.tryRecv
  | requeue => exact h.requeue
  | finishTurn =>
    rw [inboxStep]
    split_ifs with hstage
    · exact h.move h.room (by simp [hstage]) fun mail => by simp [hstage, InboxStage.hand]
    · exact h
  | timeOut => exact h.timeOut
  | die => exact h.drop rfl fun hturn => absurd rfl hturn
  | unregister => exact ⟨h.perm, h.room, h.later⟩

/-- **No mail is duplicated, and none vanishes**: in every state of every run each mail that was
accepted is injected, attached, held, in the channel or dropped, and in one of these only; and the
channel has no more than its capacity. -/
theorem inbox_conserved (clock : ℕ → String) (es : List InboxEvent) :
    Run.Always (inboxStep clock) Conserved {} es :=
  Run.always_of_forall_step (fun _ e h => conserved_inboxStep e h) conserved_fresh es

/-! ## When no mail is lost -/

/-- No mail is lost so far: none was dropped, and none is in the channel when nobody receives. -/
def ReachesSubAgent (s : SubAgentInbox) : Prop :=
  s.dropped = [] ∧ (s.stage = .ended → s.channel = [])

/-- The turn is not over. -/
def InboxStage.inTurn : InboxStage → Bool
  | .working | .draining _ | .requeueing _ _ => true
  | .collecting _ | .ended => false

/-- **The condition on the steps**: no mail is accepted when nobody receives any more, the timer fires
between two drains, and a task that ends without the last loop leaves nothing. -/
def KeepsMail (s : SubAgentInbox) : InboxEvent → Prop
  | .send _ => s.accepts → s.stage ≠ .ended
  | .timeOut => s.stage.inTurn = true → s.stage.hand = []
  | .die => s.stage.hand = [] ∧ s.channel = []
  | _ => True

/-- A step loses no mail exactly when it meets the condition. -/
lemma reachesSubAgent_inboxStep_iff (e : InboxEvent) (h : ReachesSubAgent s) :
    ReachesSubAgent (inboxStep clock s e) ↔ KeepsMail s e := by
  obtain ⟨hdropped, hended⟩ := h
  cases e with
  | send mail =>
    rw [inboxStep, SubAgentInbox.send]
    split_ifs with haccepts
    · refine ⟨fun h _ hstage => absurd (h.2 hstage) (by simp), fun h => ⟨hdropped, fun hstage => ?_⟩⟩
      exact absurd hstage (h haccepts)
    · exact ⟨fun _ haccepts' => absurd haccepts' haccepts, fun _ => ⟨hdropped, hended⟩⟩
  | beginRound =>
    rw [inboxStep]
    split_ifs with hstage
    · exact iff_of_true ⟨hdropped, nofun⟩ trivial
    · exact iff_of_true ⟨hdropped, hended⟩ trivial
  | tryRecv =>
    refine iff_of_true ?_ trivial
    simp only [inboxStep]
    unfold SubAgentInbox.tryRecv
    split
    · exact ⟨hdropped, nofun⟩
    · exact ⟨hdropped, nofun⟩
    · exact ⟨hdropped, nofun⟩
    · exact ⟨hdropped, nofun⟩
    · rename_i hchannel
      exact ⟨hdropped, fun _ => hchannel⟩
    · exact ⟨hdropped, hended⟩
  | requeue =>
    refine iff_of_true ?_ trivial
    simp only [inboxStep]
    unfold SubAgentInbox.requeue
    split
    · exact ⟨hdropped, nofun⟩
    · split_ifs
      · exact ⟨hdropped, nofun⟩
      · exact ⟨hdropped, hended⟩
    · exact ⟨hdropped, hended⟩
  | finishTurn =>
    rw [inboxStep]
    split_ifs with hstage
    · exact iff_of_true ⟨hdropped, nofun⟩ trivial
    · exact iff_of_true ⟨hdropped, hended⟩ trivial
  | timeOut =>
    simp only [inboxStep, KeepsMail]
    unfold SubAgentInbox.timeOut
    split
    · simp_all [ReachesSubAgent, InboxStage.inTurn]
    · simp_all [ReachesSubAgent, InboxStage.inTurn]
    · simp_all [ReachesSubAgent, InboxStage.inTurn]
    · rename_i hworking hdraining hrequeueing
      refine iff_of_true ⟨hdropped, hended⟩ fun hturn => ?_
      cases hstage : s.stage <;> simp_all [InboxStage.inTurn]
  | die => simp [inboxStep, ReachesSubAgent, KeepsMail, hdropped]
  | unregister => exact iff_of_true ⟨hdropped, hended⟩ trivial

/-- **When no mail is lost**: in every state of a run no mail is lost, exactly when all of its steps
meet the condition. -/
theorem reachesSubAgent_iff (clock : ℕ → String) (es : List InboxEvent) :
    Run.Always (inboxStep clock) ReachesSubAgent {} es ↔
      Run.EachStep (inboxStep clock) KeepsMail {} es :=
  Run.always_iff_eachStep (I := fun _ => True) (fun _ _ _ => trivial)
    (fun _ e _ h => reachesSubAgent_inboxStep_iff e h) trivial ⟨rfl, fun _ => rfl⟩

/-- A lost mail stays lost. -/
lemma reachesSubAgent_of_inboxStep (e : InboxEvent)
    (h : ReachesSubAgent (inboxStep clock s e)) : ReachesSubAgent s := by
  obtain ⟨hdropped, hended⟩ := h
  cases e with
  | send mail =>
    rw [inboxStep, SubAgentInbox.send] at hdropped hended
    split_ifs at hdropped hended with haccepts
    · exact ⟨hdropped, fun hstage => absurd (hended hstage) (by simp)⟩
    · exact ⟨hdropped, hended⟩
  | beginRound =>
    rw [inboxStep] at hdropped hended
    split_ifs at hdropped hended with hstage
    · exact ⟨hdropped, by simp [hstage]⟩
    · exact ⟨hdropped, hended⟩
  | tryRecv =>
    simp only [inboxStep] at hdropped hended
    unfold SubAgentInbox.tryRecv at hdropped hended
    split at hdropped <;> simp_all [ReachesSubAgent]
  | requeue =>
    simp only [inboxStep] at hdropped hended
    unfold SubAgentInbox.requeue at hdropped hended
    split at hdropped
    · simp_all [ReachesSubAgent]
    · split_ifs at hdropped hended <;> simp_all [ReachesSubAgent]
    · simp_all [ReachesSubAgent]
  | finishTurn =>
    rw [inboxStep] at hdropped hended
    split_ifs at hdropped hended with hstage
    · exact ⟨hdropped, by simp [hstage]⟩
    · exact ⟨hdropped, hended⟩
  | timeOut =>
    simp only [inboxStep] at hdropped hended
    unfold SubAgentInbox.timeOut at hdropped hended
    split at hdropped <;> simp_all [ReachesSubAgent]
  | die =>
    obtain ⟨hbefore, -⟩ := List.append_eq_nil_iff.1 hdropped
    exact ⟨hbefore, fun _ => hended rfl⟩
  | unregister => exact ⟨hdropped, hended⟩

/-- **Which mails arrive**: when the task has ended, each mail that was accepted was injected or is
part of the result, once, exactly when every step of the run has met the condition. -/
theorem arrives_iff (clock : ℕ → String) (es : List InboxEvent)
    (hended : (Run.exec (inboxStep clock) {} es).stage = .ended) :
    (Run.exec (inboxStep clock) {} es).accepted.Perm
        ((Run.exec (inboxStep clock) {} es).injected.flatten ++
          (Run.exec (inboxStep clock) {} es).attached) ↔
      Run.EachStep (inboxStep clock) KeepsMail {} es := by
  have hperm := (inbox_conserved clock es).last.perm
  have hback : Run.Always (inboxStep clock) ReachesSubAgent {} es ↔
      ReachesSubAgent (Run.exec (inboxStep clock) {} es) :=
    Run.always_iff_last (I := fun _ => True) (fun _ _ _ => trivial)
      (fun _ e _ h => reachesSubAgent_of_inboxStep e h) trivial
  rw [← reachesSubAgent_iff, hback]
  generalize Run.exec (inboxStep clock) {} es = s at hended hperm
  have hplaces : s.places = s.injected.flatten ++ s.attached ++ (s.channel ++ s.dropped) := by
    simp [SubAgentInbox.places, hended, InboxStage.hand]
  rw [hplaces] at hperm
  constructor
  · intro h
    have hlength := h.length_eq.symm.trans hperm.length_eq
    simp only [List.length_append] at hlength
    have hnothing : s.channel ++ s.dropped = [] := by
      apply List.length_eq_zero_iff.1
      rw [List.length_append]
      omega
    obtain ⟨hchannel, hdropped⟩ := List.append_eq_nil_iff.1 hnothing
    exact ⟨hdropped, fun _ => hchannel⟩
  · rintro ⟨hdropped, hchannel⟩
    rwa [hchannel hended, hdropped, List.append_nil, List.append_nil] at hperm

/-- A turn that a mail reaches, and one that comes behind its last drain. -/
def shortTurn : List InboxEvent :=
  [.send ⟨"m1", "main", "look at src", 0⟩, .beginRound, .tryRecv, .tryRecv, .requeue,
    .send ⟨"m2", "main", "stop", 1⟩, .finishTurn, .unregister, .tryRecv, .tryRecv]

/-- Both mails of a short turn arrive. -/
theorem arrives_shortTurn :
    (Run.exec (inboxStep fun _ => "12:00") {} shortTurn).stage = .ended ∧
      ((Run.exec (inboxStep fun _ => "12:00") {} shortTurn).accepted.Perm
          ((Run.exec (inboxStep fun _ => "12:00") {} shortTurn).injected.flatten ++
            (Run.exec (inboxStep fun _ => "12:00") {} shortTurn).attached) ↔
        Run.EachStep (inboxStep fun _ => "12:00") KeepsMail {} shortTurn) :=
  ⟨by decide +kernel, arrives_iff _ shortTurn (by decide +kernel)⟩

/-! ## A sub-agent that waits for itself -/

/-- The sub-agent puts a mail back into a channel that is full: it waits for room, which only a receive
would make, and it is the one that receives. -/
def AwaitsItself (s : SubAgentInbox) : Prop :=
  ∃ kept mail deferred, s.stage = .requeueing kept (mail :: deferred) ∧ ¬ s.hasRoom

/-- The event does not end the task from outside. -/
def InboxEvent.fromInside : InboxEvent → Bool
  | .timeOut | .die => false
  | _ => true

/-- A step that does not end the task changes at most the table of the coordinator. -/
lemma AwaitsItself.inboxStep {e : InboxEvent} (h : AwaitsItself s) (he : e.fromInside = true) :
    ∃ registered, inboxStep clock s e = { s with registered := registered } := by
  obtain ⟨kept, mail, deferred, hstage, hroom⟩ := h
  cases e with
  | send other =>
    refine ⟨s.registered, ?_⟩
    rw [MyClaw.inboxStep, SubAgentInbox.send, if_neg fun haccepts => hroom haccepts.2]
  | beginRound => exact ⟨s.registered, by rw [MyClaw.inboxStep, if_neg (by simp [hstage])]⟩
  | tryRecv =>
    refine ⟨s.registered, ?_⟩
    simp only [MyClaw.inboxStep]
    unfold SubAgentInbox.tryRecv
    split <;> first | rfl | simp_all
  | requeue =>
    refine ⟨s.registered, ?_⟩
    simp only [MyClaw.inboxStep]
    unfold SubAgentInbox.requeue
    split
    · simp_all
    · rw [if_neg hroom]
    · rfl
  | finishTurn => exact ⟨s.registered, by rw [MyClaw.inboxStep, if_neg (by simp [hstage])]⟩
  | timeOut => cases he
  | die => cases he
  | unregister => exact ⟨false, rfl⟩

/-- **A sub-agent that waits for itself waits for ever**: no run of mails, receives and sends gets it
any further, until its timer fires or its task dies. -/
theorem AwaitsItself.forever (h : AwaitsItself s) {es : List InboxEvent}
    (hes : ∀ e ∈ es, e.fromInside = true) :
    ∃ registered, Run.exec (MyClaw.inboxStep clock) s es = { s with registered := registered } := by
  induction es generalizing s with
  | nil => exact ⟨s.registered, rfl⟩
  | cons e es ih =>
    obtain ⟨registered, hstep⟩ := @AwaitsItself.inboxStep clock s e h (hes e List.mem_cons_self)
    have hstill : AwaitsItself { s with registered := registered } := h
    obtain ⟨registered', hrest⟩ := ih hstill fun e' he' => hes e' (List.mem_cons_of_mem e he')
    refine ⟨registered', ?_⟩
    show Run.exec (MyClaw.inboxStep clock) (MyClaw.inboxStep clock s e) es = _
    rw [hstep, hrest]

/-! ## A flood of mails -/

/-- As many mails as there is room for are accepted. -/
lemma exec_sends (mail : AgentMail) {n : ℕ} (hregistered : s.registered = true)
    (hroom : s.channel.length + n ≤ subAgentInboxCapacity) :
    Run.exec (inboxStep clock) s (List.replicate n (.send mail)) =
      { s with channel := s.channel ++ List.replicate n mail
               accepted := s.accepted ++ List.replicate n mail } := by
  induction n generalizing s with
  | zero => simp
  | succ n ih =>
    have hstep : inboxStep clock s (.send mail) =
        { s with channel := s.channel ++ [mail], accepted := s.accepted ++ [mail] } := by
      have hlt : s.hasRoom := show s.channel.length < subAgentInboxCapacity by omega
      exact if_pos ⟨hregistered, hlt⟩
    have hrest := @ih { s with channel := s.channel ++ [mail], accepted := s.accepted ++ [mail] }
      hregistered (by simp only [List.length_append, List.length_singleton]; omega)
    rw [List.replicate_succ, Run.exec_cons, hstep, hrest]
    simp [List.replicate_succ]

/-- The loop before a request receives all that is in the channel. -/
lemma exec_tryRecvs {pending mails : List AgentMail} (hstage : s.stage = .draining pending)
    (hchannel : s.channel = mails) :
    Run.exec (inboxStep clock) s (List.replicate mails.length .tryRecv) =
      { s with channel := [], stage := .draining (pending ++ mails) } := by
  induction mails generalizing s pending with
  | nil =>
    obtain ⟨registered, channel, stage, injected, attached, accepted, dropped⟩ := s
    obtain rfl : stage = .draining pending := hstage
    obtain rfl : channel = [] := hchannel
    rw [List.append_nil]
    rfl
  | cons mail mails ih =>
    have hstep : inboxStep clock s .tryRecv =
        { s with channel := mails, stage := .draining (pending ++ [mail]) } := by
      show s.tryRecv clock = _
      rw [SubAgentInbox.tryRecv, hstage, hchannel]
    rw [List.length_cons, List.replicate_succ, Run.exec_cons, hstep, ih rfl rfl]
    simp

/-- A mail that is over the budget of an injection. -/
def longMail : AgentMail where
  msgId := "m1"
  senderName := "main"
  text := String.ofList (List.replicate 2048 '中')
  timestamp := 0

lemma lt_mailCost_longMail : injectionBudgetTokens < mailCost clock longMail := by
  have hcjk : isCjk '中' = true := by decide
  have htext : longMail.text.toList.countP isCjk = 2048 := by
    show (String.ofList (List.replicate 2048 '中')).toList.countP isCjk = 2048
    rw [String.toList_ofList, List.countP_replicate, if_pos hcjk]
  have hcount : longMail.text.toList.countP isCjk ≤
      (renderMailLine clock longMail).toList.countP isCjk := by
    simp only [renderMailLine, String.toList_append, List.countP_append]
    omega
  rw [mailCost, estimateTextTokens, injectionBudgetTokens]
  omega

/-- The long mails of a batch are injected one at a time. -/
lemma select_longMails (n : ℕ) :
    selectWithinInjectionBudget clock (List.replicate (n + 1) longMail) =
      ([longMail], List.replicate n longMail) := by
  have hspec := selectWithinInjectionBudget_spec clock (List.replicate (n + 1) longMail)
  have hlong := @lt_mailCost_longMail clock
  generalize selectWithinInjectionBudget clock (List.replicate (n + 1) longMail) = split at hspec ⊢
  obtain ⟨kept, deferred⟩ := split
  dsimp only at hspec
  have hmem : ∀ mail ∈ deferred ++ kept, mail = longMail := fun mail hmail =>
    List.eq_of_mem_replicate (hspec.parts ▸ hmail)
  have hone : kept.length = 1 := by
    rcases hspec.fits with hfits | hone
    · obtain ⟨mail, rest, rfl⟩ := List.exists_cons_of_ne_nil (hspec.nonempty (by simp))
      obtain rfl := hmem mail (by simp)
      rw [batchCost_cons] at hfits
      omega
    · exact hone
  have hdeferred : deferred.length = n := by
    have hlength := congrArg List.length hspec.parts
    rw [List.length_append, List.length_replicate] at hlength
    omega
  obtain ⟨mail, rfl⟩ := List.length_eq_one_iff.1 hone
  obtain rfl := hmem mail (by simp)
  rw [List.eq_replicate_of_mem fun other hother => hmem other (List.mem_append_left _ hother),
    hdeferred]

/-- A run that ends with a sub-agent that waits for itself: the parent fills the channel, and again
while the older mails are on their way back. -/
def mailFlood : List InboxEvent :=
  List.replicate 64 (.send longMail) ++ .beginRound :: List.replicate 64 .tryRecv ++
    .tryRecv :: List.replicate 64 (.send longMail)

/-- **A parent that writes much stops its sub-agent.** -/
theorem awaitsItself_mailFlood (clock : ℕ → String) :
    AwaitsItself (Run.exec (inboxStep clock) {} mailFlood) ∧ ∀ e ∈ mailFlood, e.fromInside = true := by
  constructor
  · have hsend : Run.exec (inboxStep clock) {} (List.replicate 64 (.send longMail)) =
        { channel := List.replicate 64 longMail, accepted := List.replicate 64 longMail } :=
      exec_sends longMail rfl (by decide)
    have hrecv := @exec_tryRecvs clock
      { channel := List.replicate 64 longMail, accepted := List.replicate 64 longMail
        stage := .draining [] } [] (List.replicate 64 longMail) rfl rfl
    rw [List.length_replicate] at hrecv
    have hselect : inboxStep clock
        { channel := [], accepted := List.replicate 64 longMail
          stage := .draining ([] ++ List.replicate 64 longMail) } .tryRecv =
        { channel := [], accepted := List.replicate 64 longMail
          stage := .requeueing [longMail] (List.replicate 63 longMail) } := by
      have hsplit := @select_longMails clock 63
      rw [List.replicate_succ] at hsplit
      simp only [inboxStep, SubAgentInbox.tryRecv, List.nil_append, List.replicate_succ (n := 63),
        hsplit]
    rw [mailFlood, List.append_assoc, Run.exec_append, hsend, List.cons_append, Run.exec_cons]
    show AwaitsItself
      (Run.exec (inboxStep clock) { channel := _, accepted := _, stage := .draining [] } _)
    rw [Run.exec_append, hrecv, Run.exec_cons, hselect, exec_sends longMail rfl (by decide)]
    exact ⟨_, _, _, rfl, by simp [SubAgentInbox.hasRoom, subAgentInboxCapacity]⟩
  · intro e he
    simp only [mailFlood, List.mem_append, List.mem_cons, List.mem_replicate] at he
    rcases he with ((⟨-, rfl⟩ | rfl | ⟨-, rfl⟩) | rfl | ⟨-, rfl⟩) <;> rfl

/-- **A sub-agent that waits for itself**: a parent that keeps sending brings its sub-agent there, and then
no run of mails, receives and sends gets it any further, until its timer fires or its task dies. -/
theorem awaitsItself_forever (clock : ℕ → String) :
    (∃ es : List InboxEvent, (∀ e ∈ es, e.fromInside = true) ∧
      AwaitsItself (Run.exec (inboxStep clock) {} es)) ∧
    ∀ s : SubAgentInbox, AwaitsItself s → ∀ es : List InboxEvent, (∀ e ∈ es, e.fromInside = true) →
      ∃ registered, Run.exec (inboxStep clock) s es = { s with registered := registered } :=
  ⟨⟨mailFlood, (awaitsItself_mailFlood clock).2, (awaitsItself_mailFlood clock).1⟩,
    fun _ h _ hes => h.forever hes⟩

end

end MyClaw
