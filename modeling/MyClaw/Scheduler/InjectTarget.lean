import MyClaw.Identity.RateLimit
import MyClaw.Scheduler.Types

set_option autoImplicit false

/-!
# Where an injected job runs, and where its output goes

`run_cron_task` (`agents/orchestrator/scheduled.rs`) runs the turn of a job in the session of its user
and sends the text of the turn to a channel.  The session is found by `resolve_user_routing_key`, the
channel by `send_to_target_internal`.  The first one does not look at the account of the job.

## Main definitions

* `resolveUserRoutingKey`, `sendToTargetInternal` — the session and the target.
* `CronTrigger.effectiveSessionKey`, `CronTrigger.delivered` — both, for a trigger.
* `SameSession` — the output goes to the channel and the account of the session.

## Main results

* `sameSession_iff` — exactly when a job with a fixed delivery does so.

## Implementation notes

The last channel and the last recipient are the same at both places.
-/

namespace MyClaw

/-! ## The two resolutions -/

/-- What the scheduler remembers of the last message of a user: `channel:account`, and the sender. -/
structure LastSeen where
  channel : Option String
  recipient : Option String

/-- `last.split_once(':')`. -/
def LastSeen.target (last : LastSeen) : Option (String × String) :=
  last.channel.bind fun key =>
    (splitOnce ':' key.toList).map fun (ch, acc) => (String.ofList ch, String.ofList acc)

/-- `resolve_user_routing_key`. -/
def resolveUserRoutingKey (last : LastSeen) (targetChannel targetRecipient : Option String) :
    Option String := do
  let (chType, accId) ← match targetChannel with
    | some ch => some (ch, "default")
    | none => last.target
  let recipient ← match targetRecipient with
    | some r => some r
    | none => last.recipient
  some (routingKey chType accId recipient)

/-- A text that is handed to a channel. -/
structure Delivered where
  channel : String
  account : String
  recipient : String
  thread : Option String

/-- `send_to_target_internal`, with the channels that are registered. -/
def sendToTargetInternal (channels : List (String × String)) (last : LastSeen)
    (targetChannel targetAccount targetRecipient targetThread : Option String) :
    Option Delivered := do
  let (chType, accId) ← match targetChannel, targetAccount with
    | some ch, some acc => some (ch, acc)
    | some ch, none => some (ch, "default")
    | none, _ => last.target
  if (chType, accId) ∈ channels then
    let recipient := match targetRecipient with
      | some r => r
      | none => last.recipient.getD ""
    some ⟨chType, accId, recipient, targetThread⟩
  else none

namespace CronTrigger

variable (last : LastSeen) (t : CronTrigger)

/-- The routing key of the user, for a trigger. -/
def userRoutingKey : Option String :=
  resolveUserRoutingKey last t.targetChannel t.targetRecipient

/-- The session that `run_cron_task` runs the turn in. -/
def effectiveSessionKey : String :=
  match t.contextPolicy with
  | .inject =>
    match t.userRoutingKey last with
    | some key => key
    | none => t.sessionKey
  | .isolated => t.sessionKey

/-- Where `run_cron_task` sends a text of the turn that is not blank. -/
def delivered (channels : List (String × String)) : Option Delivered :=
  if t.deliverySuppressed then none
  else
    sendToTargetInternal channels last t.targetChannel t.targetAccount t.targetRecipient
      t.targetThread

end CronTrigger

/-! ## The property -/

/-- **One session**: a trigger that injects its turn into the session of a user sends the text of the
turn to the channel and the account of this session. -/
def SameSession (channels : List (String × String)) (last : LastSeen) (t : CronTrigger) : Prop :=
  t.contextPolicy = .inject → (t.userRoutingKey last).isSome = true →
    ∀ d ∈ t.delivered last channels,
      ∃ sender, t.effectiveSessionKey last = routingKey d.channel d.account sender

/-- The account of a fixed delivery. -/
def DeliveryConfig.account (delivery : DeliveryConfig) : String := delivery.accountId.getD "default"

/-- What the channel, the account and the recipient of a fixed delivery have to satisfy: where a channel
is set, its account is the default one; or it has a colon, and the default account with the recipient
reads as this account with another recipient. -/
def InjectsAtTarget (channels : List (String × String)) (last : LastSeen) (job : JobEntry) : Prop :=
  job.contextPolicy = .inject → ∀ ch ∈ job.delivery.channel, (ch, job.delivery.account) ∈ channels →
    ∀ recipient ∈ job.delivery.recipient.or last.recipient,
      job.delivery.account.toList ++ [':'] <+: "default:".toList ++ recipient.toList

/-! ## Routing keys -/

/-- The three parts of a routing key. -/
lemma routingKey_toList (channel account userId : String) :
    (routingKey channel account userId).toList =
      channel.toList ++ ':' :: (account.toList ++ ':' :: userId.toList) := by
  simp [routingKey, String.toList_append]

/-- A key of the default account is one of another account. -/
lemma exists_sender_iff (channel account recipient : String) :
    (∃ sender, routingKey channel "default" recipient = routingKey channel account sender) ↔
      account.toList ++ [':'] <+: "default:".toList ++ recipient.toList := by
  have hdefault : "default:".toList = "default".toList ++ [':'] := rfl
  constructor
  · rintro ⟨sender, h⟩
    have hlist := congrArg String.toList h
    rw [routingKey_toList, routingKey_toList, List.append_cancel_left_eq, List.cons.injEq] at hlist
    refine ⟨sender.toList, ?_⟩
    rw [hdefault, List.append_assoc, List.append_assoc]
    exact hlist.2.symm
  · rintro ⟨sender, h⟩
    refine ⟨String.ofList sender, String.toList_inj.1 ?_⟩
    rw [hdefault, List.append_assoc, List.append_assoc] at h
    simp only [routingKey_toList, String.toList_ofList]
    exact congrArg (channel.toList ++ ':' :: ·) h.symm

/-! ## The result -/

section

variable {env : SchedulerEnv} {channels : List (String × String)} {last : LastSeen} {job : JobEntry}

/-- The session of a job, where its channel is set. -/
lemma userRoutingKey_of_channel (hfixed : job.delivery.mode = .fixed) {ch : String}
    (hch : job.delivery.channel = some ch) :
    (job.trigger env).userRoutingKey last =
      (job.delivery.recipient.or last.recipient).map (routingKey ch "default") := by
  unfold CronTrigger.userRoutingKey resolveUserRoutingKey JobEntry.trigger cronDeliveryFields
  simp only [hfixed, hch]
  cases job.delivery.recipient <;> cases last.recipient <;> rfl

/-- The session of a job, where its channel is not set. -/
lemma userRoutingKey_of_last (hfixed : job.delivery.mode = .fixed)
    (hch : job.delivery.channel = none) :
    (job.trigger env).userRoutingKey last =
      last.target.bind fun target =>
        (job.delivery.recipient.or last.recipient).map (routingKey target.1 target.2) := by
  unfold CronTrigger.userRoutingKey resolveUserRoutingKey JobEntry.trigger cronDeliveryFields
  simp only [hfixed, hch]
  cases last.target <;> cases job.delivery.recipient <;> cases last.recipient <;> rfl

/-- The target of a job, where its channel is set. -/
lemma delivered_of_channel (hfixed : job.delivery.mode = .fixed) {ch : String}
    (hch : job.delivery.channel = some ch) {d : Delivered}
    (h : (job.trigger env).delivered last channels = some d) :
    (ch, job.delivery.account) ∈ channels ∧ d.channel = ch ∧ d.account = job.delivery.account := by
  unfold CronTrigger.delivered sendToTargetInternal JobEntry.trigger cronDeliveryFields at h
  simp only [hfixed, hch, Bool.false_eq_true, if_false, Option.bind_eq_bind, Option.bind_some] at h
  split at h
  · rename_i hmem
    obtain rfl := Option.some.inj h
    exact ⟨hmem, rfl, rfl⟩
  · cases h

/-- A registered target is delivered to. -/
lemma exists_delivered (hfixed : job.delivery.mode = .fixed) {ch : String}
    (hch : job.delivery.channel = some ch) (hmem : (ch, job.delivery.account) ∈ channels) :
    ∃ d, (job.trigger env).delivered last channels = some d := by
  unfold CronTrigger.delivered sendToTargetInternal JobEntry.trigger cronDeliveryFields
  simp only [hfixed, hch, Bool.false_eq_true, if_false, Option.bind_eq_bind, Option.bind_some]
  exact ⟨_, if_pos hmem⟩

/-- The target of a job, where its channel is not set. -/
lemma delivered_of_last (hfixed : job.delivery.mode = .fixed) (hch : job.delivery.channel = none)
    {d : Delivered} (h : (job.trigger env).delivered last channels = some d) :
    last.target = some (d.channel, d.account) := by
  unfold CronTrigger.delivered sendToTargetInternal JobEntry.trigger cronDeliveryFields at h
  simp only [hfixed, hch, Bool.false_eq_true, if_false] at h
  cases htarget : last.target with
  | none => simp [htarget] at h
  | some target =>
    simp only [htarget, Option.bind_eq_bind, Option.bind_some] at h
    split at h
    · obtain rfl := Option.some.inj h
      rfl
    · cases h

/-- Injection uses the routing key. -/
lemma effectiveSessionKey_of_inject {t : CronTrigger} (hpolicy : t.contextPolicy = .inject)
    {key : String} (hkey : t.userRoutingKey last = some key) : t.effectiveSessionKey last = key := by
  unfold CronTrigger.effectiveSessionKey
  simp only [hpolicy, hkey]

end

/-- **Fixed deliveries**: a job runs in the session of the channel and the account that its output goes
to exactly when its account is the default one, wherever its channel is set. -/
theorem sameSession_iff (env : SchedulerEnv) (channels : List (String × String)) (last : LastSeen)
    (job : JobEntry) (hfixed : job.delivery.mode = .fixed) :
    SameSession channels last (job.trigger env) ↔ InjectsAtTarget channels last job := by
  refine imp_congr_right fun hpolicy => ?_
  cases hch : job.delivery.channel with
  | none =>
    -- both take the last channel, with its account
    refine iff_of_true (fun hsome d hd => ?_) nofun
    obtain ⟨key, hkey⟩ := Option.isSome_iff_exists.1 hsome
    rw [effectiveSessionKey_of_inject hpolicy hkey]
    rw [userRoutingKey_of_last hfixed hch, delivered_of_last hfixed hch hd, Option.bind_some] at hkey
    obtain ⟨recipient, -, rfl⟩ := Option.map_eq_some_iff.1 hkey
    exact ⟨recipient, rfl⟩
  | some ch =>
    have hkeys : (job.trigger env).userRoutingKey last =
        (job.delivery.recipient.or last.recipient).map (routingKey ch "default") :=
      userRoutingKey_of_channel hfixed hch
    constructor
    · rintro h ch' hch' hmem recipient hrecipient
      obtain rfl := Option.some.inj hch'
      have hkey : (job.trigger env).userRoutingKey last = some (routingKey ch "default" recipient) := by
        rw [hkeys, hrecipient, Option.map_some]
      obtain ⟨d, hd⟩ : ∃ d, (job.trigger env).delivered last channels = some d :=
        exists_delivered hfixed hch hmem
      obtain ⟨-, hchannel, haccount⟩ := delivered_of_channel hfixed hch hd
      have hsender := h (by rw [hkey]; rfl) d hd
      rw [effectiveSessionKey_of_inject hpolicy hkey, hchannel, haccount] at hsender
      exact (exists_sender_iff ch _ recipient).1 hsender
    · intro h hsome d hd
      obtain ⟨key, hkey⟩ := Option.isSome_iff_exists.1 hsome
      obtain ⟨hmem, hchannel, haccount⟩ := delivered_of_channel hfixed hch hd
      rw [effectiveSessionKey_of_inject hpolicy hkey, hchannel, haccount]
      rw [hkeys] at hkey
      obtain ⟨recipient, hrecipient, rfl⟩ := Option.map_eq_some_iff.1 hkey
      exact (exists_sender_iff ch _ recipient).2 (h ch rfl hmem recipient hrecipient)

/-- A job of the account `work` of a channel. -/
def workJob : JobEntry where
  id := "myclaw/job/1"
  schedule := none
  prompt := "Summarise the week."
  name := none
  delivery :=
    { mode := .fixed, channel := some "telegram", accountId := some "work", recipient := some "42" }

/-- The third-party parts, for jobs whose ids are no uuids. -/
def plainSchedulerEnv : SchedulerEnv where
  representable _ := true
  cronAfter _ _ _ := none
  minuteOfDay _ _ := 0
  parseUuid _ := none

/-- A job that is delivered to the account `default`. -/
theorem sameSession_iff_default :
    let job := { workJob with delivery := { workJob.delivery with accountId := none } }
    SameSession [("telegram", "default")] ⟨none, none⟩ (job.trigger plainSchedulerEnv) := by
  refine (sameSession_iff plainSchedulerEnv [("telegram", "default")] ⟨none, none⟩ _ rfl).2 ?_
  rintro - ch - - recipient -
  exact ⟨recipient.toList, rfl⟩

/-- The turn of a job of the account `work` runs in the session of the default account. -/
theorem not_sameSession : ¬ ∀ (env : SchedulerEnv) (channels : List (String × String))
    (last : LastSeen) (job : JobEntry), job.delivery.mode = .fixed →
    SameSession channels last (job.trigger env) := by
  intro h
  obtain ⟨sender, hsender⟩ := h plainSchedulerEnv [("telegram", "work")] ⟨none, none⟩ workJob rfl rfl
    rfl ⟨"telegram", "work", "42", none⟩ rfl
  have hpre := (exists_sender_iff "telegram" "work" "42").1 ⟨sender, hsender⟩
  revert hpre
  decide

end MyClaw
