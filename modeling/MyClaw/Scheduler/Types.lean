import MyClaw.Session.Types
import Mathlib.Data.Int.Order.Basic
import Mathlib.Data.Fintype.Defs

set_option autoImplicit false

/-!
# Cron jobs

The data of the scheduler: a job with its timer channel, its run history and its counters, the
update of a job, and the trigger that a tick sends.

## Main definitions

* `Stamp` — a stored timestamp, which may be a text that is none.
* `ScheduleSpec`, `JobEntry`, `JobUpdate` — a schedule, a job, an update.
* `CronTrigger` — what a tick sends for a due job.
* `SchedulerEnv` — the third-party parts: time zones, cron expressions, uuids.
* `dirName`, `bareDirName` — the names of a job's directory and of its session.

## Implementation notes

Moments are milliseconds since 1970; the timestamps of the source are RFC 3339 texts, and what does not
parse as one is kept as a text.  The counters are natural numbers, 32 bits wide in the source.
-/

namespace MyClaw

/-- A stored timestamp: a moment, or a text that does not parse. -/
inductive Stamp
  | moment (ms : ℤ)
  | text (content : String)
  deriving DecidableEq

/-- `parse_from_rfc3339`. -/
def Stamp.time? : Stamp → Option ℤ
  | .moment ms => some ms
  | .text _ => none

@[simp] lemma Stamp.time?_moment (ms : ℤ) : (Stamp.moment ms).time? = some ms := rfl

@[simp] lemma Stamp.time?_text (content : String) : (Stamp.text content).time? = none := rfl

/-- The kinds of a schedule. -/
inductive ScheduleKind
  /-- A cron expression. -/
  | cron (expr : String)
  /-- A fixed interval. -/
  | every (intervalMs : ℕ)
  /-- Once, at a time. -/
  | atTime (time : Stamp)
  deriving DecidableEq

/-- A schedule, with the legacy form that is a bare cron expression. -/
inductive ScheduleSpec
  | legacy (expr : String)
  | kind (k : ScheduleKind)
  deriving DecidableEq

/-- `ScheduleSpec::kind`. -/
def ScheduleSpec.toKind : ScheduleSpec → ScheduleKind
  | .legacy expr => .cron expr
  | .kind k => k

/-- `ScheduleSpec::is_at`. -/
def ScheduleSpec.isAt (spec : ScheduleSpec) : Bool :=
  match spec.toKind with
  | .atTime _ => true
  | _ => false

/-- How the output of a job is routed. -/
inductive DeliveryMode
  | last
  | none
  | fixed
  deriving DecidableEq

/-- The delivery of a job. -/
structure DeliveryConfig where
  mode : DeliveryMode := .last
  channel : Option String := Option.none
  accountId : Option String := Option.none
  recipient : Option String := Option.none
  threadId : Option String := Option.none
  deriving DecidableEq

/-- The retry policy of a job. -/
structure RetryConfig where
  maxAttempts : ℕ := 3
  backoffMs : List ℕ := [30000, 60000, 300000]
  deriving DecidableEq

/-- When to alert on consecutive failures. -/
structure FailureAlertConfig where
  after : ℕ := 3
  cooldownSecs : ℕ := 3600
  includeSkipped : Bool := false
  deriving DecidableEq

/-- A condition on the payload of a webhook. -/
structure WebhookFilter where
  field : String
  equals : Option String
  matching : Option String
  negated : Bool
  deriving DecidableEq

/-- The webhook channel of a job. -/
structure WebhookDef where
  auth : String
  secret : String
  events : Option (List String)
  filters : Option (List WebhookFilter)
  payloadOff : Bool
  deriving DecidableEq

/-- How a run went. -/
inductive RunStatus
  | ok
  | error
  | timeout
  | skipped
  deriving DecidableEq

/-- The record of a run. -/
structure RunRecord where
  runAt : Stamp
  status : RunStatus
  trigger : Option String
  durationMs : ℕ
  outputPreview : String
  error : Option String
  deriving DecidableEq

/-- Whether a job runs in the session of its user. -/
inductive ContextPolicy
  | inject
  | isolated
  deriving DecidableEq

/-- A cron job. -/
structure JobEntry where
  id : String
  schedule : Option ScheduleSpec
  prompt : String
  name : Option String
  tz : Option String := none
  activeHours : Option String := none
  enabled : Bool := true
  lastRunAt : Option Stamp := none
  nextRunAt : Option Stamp := none
  createdAt : Option Stamp := none
  delivery : DeliveryConfig := {}
  lastRuns : List RunRecord := []
  enabledTools : Option (List String) := none
  disabledTools : Option (List String) := none
  retry : Option RetryConfig := none
  failureAlert : Option FailureAlertConfig := none
  consecutiveErrors : ℕ := 0
  consecutiveSkipped : ℕ := 0
  maxRuns : Option ℕ := none
  completedRuns : ℕ := 0
  deleteAfterRun : Bool := false
  model : Option String := none
  provider : Option String := none
  lastFailureAlertAt : Option Stamp := none
  contextPolicy : ContextPolicy := .inject
  webhook : Option WebhookDef := none
  creator : Option String := none
  deriving DecidableEq

/-- The fields of an update that are set. -/
structure JobUpdate where
  name : Option String := none
  schedule : Option (Option ScheduleSpec) := none
  scheduleChanged : Bool := false
  webhook : Option (Option WebhookDef) := none
  webhookChanged : Bool := false
  prompt : Option String := none
  tz : Option String := none
  activeHours : Option String := none
  enabled : Option Bool := none
  delivery : Option DeliveryConfig := none
  enabledTools : Option (List String) := none
  disabledTools : Option (List String) := none
  retry : Option RetryConfig := none
  failureAlert : Option FailureAlertConfig := none
  maxRuns : Option (Option ℕ) := none
  deleteAfterRun : Option Bool := none
  model : Option (Option String) := none
  provider : Option (Option String) := none
  /-- Force the job due now. -/
  triggerNow : Bool := false
  deriving DecidableEq

/-- What a tick sends for a due job. -/
structure CronTrigger where
  sessionKey : String
  prompt : String
  targetChannel : Option String
  targetAccount : Option String
  targetRecipient : Option String
  targetThread : Option String
  deliverySuppressed : Bool
  jobId : String
  model : Option String
  contextPolicy : ContextPolicy
  creator : Option String

/-- The third-party parts that the scheduler calls. -/
structure SchedulerEnv where
  /-- `from_timestamp_millis` accepts the moment. -/
  representable : ℤ → Bool
  /-- The first occurrence of a cron expression after a moment, in a time zone: none if the expression
  does not parse or has no occurrence left. -/
  cronAfter : String → String → ℤ → Option ℤ
  /-- The minute of the day in a time zone. -/
  minuteOfDay : String → ℤ → ℕ
  /-- A uuid in its standard form. -/
  parseUuid : String → Option String

/-! ## Names -/

/-- `dir_name`: an id as the name of a directory. -/
def dirName (id : String) : String :=
  String.ofList (id.toList.flatMap fun c =>
    if c = '_' then ['_', '_'] else if c = '/' then ['_'] else [c])

/-- The text before the first separator, and the text after it. -/
def splitOnce (sep : Char) : List Char → Option (List Char × List Char)
  | [] => none
  | c :: cs =>
    if c = sep then some ([], cs)
    else (splitOnce sep cs).map fun (before, rest) => (c :: before, rest)

section

variable {sep : Char} {before after text : List Char}

/-- A text that has the separator is split at the first one. -/
lemma splitOnce_append (h : sep ∉ before) :
    splitOnce sep (before ++ sep :: after) = some (before, after) := by
  induction before with
  | nil => simp [splitOnce]
  | cons c before ih =>
    rw [List.mem_cons, not_or] at h
    simp [splitOnce, Ne.symm h.1, ih h.2]

/-- A text without the separator is not split. -/
lemma splitOnce_of_notMem (h : sep ∉ text) : splitOnce sep text = none := by
  induction text with
  | nil => rfl
  | cons c text ih =>
    rw [List.mem_cons, not_or] at h
    simp [splitOnce, Ne.symm h.1, ih h.2]

end

/-- The default namespace of identifiers. -/
def defaultNamespace : String := "myclaw"

/-- `bare_dir_name`: the uuid of an identifier of the default namespace, else the directory name. -/
def bareDirName (env : SchedulerEnv) (id : String) : String :=
  match splitOnce '/' id.toList with
  | none => dirName id
  | some (ns, rest) =>
    if String.ofList ns ≠ defaultNamespace then dirName id
    else
      match splitOnce '/' rest with
      | none => dirName id
      | some (typeSeg, uuid) =>
        if typeSeg = [] ∨ uuid = [] then dirName id
        else (env.parseUuid (String.ofList uuid)).getD (dirName id)

/-- `cron_delivery_fields`: channel, account, recipient, thread, and whether delivery is
suppressed. -/
def cronDeliveryFields (delivery : DeliveryConfig) :
    Option String × Option String × Option String × Option String × Bool :=
  match delivery.mode with
  | .none => (none, none, none, none, true)
  | .fixed =>
    (delivery.channel, some (delivery.accountId.getD "default"), delivery.recipient,
      delivery.threadId, false)
  | .last => (none, none, delivery.recipient, delivery.threadId, false)

/-- The trigger of a due job. -/
def JobEntry.trigger (env : SchedulerEnv) (job : JobEntry) : CronTrigger :=
  let (channel, account, recipient, thread, suppressed) := cronDeliveryFields job.delivery
  { sessionKey := "_job_" ++ bareDirName env job.id
    prompt := job.prompt
    targetChannel := channel
    targetAccount := account
    targetRecipient := recipient
    targetThread := thread
    deliverySuppressed := suppressed
    jobId := job.id
    model := job.model
    contextPolicy := job.contextPolicy
    creator := job.creator }

@[simp] lemma JobEntry.trigger_jobId (env : SchedulerEnv) (job : JobEntry) :
    (job.trigger env).jobId = job.id := rfl

end MyClaw
