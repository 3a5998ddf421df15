import Mathlib.Logic.Function.Basic
import MyClaw.Context.Suspension
import MyClaw.Delegation.Outcome
import Mathlib.Algebra.Ring.Nat

set_option autoImplicit false

/-!
# The coordinator of background delegations

The state of `DelegationCoordinator` (`agents/delegation_coordinator/`) together with what its
operations reach: the suspensions of sessions, the durable checkpoints, and the tasks that run.  The
operations are split where the source can be interrupted; `Delegation/Request.lean` puts them
together to whole requests, and `Delegation/Tables.lean` to a machine that interleaves them.

A task started by `spawn_delegate_async` runs the turn in an inner task of its own, and one started
by `recover_async` runs it itself.

## Main definitions

* `Coordinator` — the state.
* `DelegationTask`, `TaskStage` — a task, and where it stands.
* `Coordinator.launch`, `Coordinator.insertRunning`,
  `Coordinator.registerMailbox` — the steps that start a task.
-/

namespace MyClaw

/-- `SUB_AGENT_TIMEOUT_MAX_SECS`. -/
def subAgentTimeoutMaxSecs : Nat := 1800

/-- The largest `u64`. -/
def u64Max : Nat := 2 ^ 64 - 1

/-- An entry of the `running` table. -/
structure RunningEntry where
  /-- The task that the entry can abort. -/
  handle : Nat
  agentName : String
  parentSessionId : String
  startedAt : Nat
  timeoutSecs : Nat
  allowedTools : Option (List String)
  deriving DecidableEq

/-- How the turn of a task ends. -/
inductive TurnExit
  | returned (result : Except DelegationError String)
  | panicked (payload : String)
  deriving DecidableEq

/-- Where a task stands on its way out. -/
inductive TaskStage
  /-- It waits for the turn. -/
  | waiting
  /-- The turn has ended. -/
  | ended (exit : TurnExit)
  /-- It sends the terminal event. -/
  | sending (result : Except DelegationError String)
  /-- It has no point left at which it can be aborted, and both tables are still to be cleared. -/
  | leaving (result : Except DelegationError String)
  /-- It has removed its entry from `running`. -/
  | leftRunning (result : Except DelegationError String)
  /-- It has removed its inbox, too; the checkpoint is still to be settled. -/
  | leftMailboxes (result : Except DelegationError String)
  /-- It has returned, was aborted, or has panicked. -/
  | done
  deriving DecidableEq

/-- A task of a background delegation. -/
structure DelegationTask where
  no : Nat
  subSessionId : String
  parentSessionId : String
  /-- The turn runs in an inner task. -/
  layered : Bool
  /-- There was an event sender when the task was started. -/
  eventSender : Bool
  /-- The turn is still going on. -/
  working : Bool := true
  stage : TaskStage := .waiting
  /-- `abort` has been called on the handle. -/
  abortRequested : Bool := false
  deriving DecidableEq

/-- The result that the task exits with: only a turn in an inner task can panic without taking the
task along. -/
def DelegationTask.exitResult (t : DelegationTask) :
    TurnExit → Option (Except DelegationError String)
  | .returned result => some result
  | .panicked payload =>
    if t.layered then some (.error (.other ("sub-agent panicked: " ++ payload))) else none

/-- What the task sends when its turn has ended. -/
def DelegationTask.exitEvent (t : DelegationTask) (exit : TurnExit)
    (durationSecs sentMessageCount : Nat) : Option DelegationEvent :=
  if t.eventSender then
    (t.exitResult exit).map fun result =>
      terminalEvent t.subSessionId t.parentSessionId result durationSecs sentMessageCount
  else none

/-- The coordinator with what it reaches. -/
structure Coordinator where
  agents : String → Option SubAgentConfig := fun _ => none
  /-- The names of the agents, for an error. -/
  available : List String := []
  maxDepth : Nat := 2
  sessionDepth : String → Nat := fun _ => 1
  /-- The session is one that the backend has. -/
  sessions : String → Bool := fun _ => false
  /-- The context of the session is registered. -/
  registered : String → Bool := fun _ => false
  /-- `turn_suspension` of a session: the one in memory where its context is registered, else the
  persisted one. -/
  suspensions : String → Option TurnSuspension := fun _ => none
  running : String → Option RunningEntry := fun _ => none
  /-- The inboxes, each with the number of the task that is to read it. -/
  mailboxes : String → Option Nat := fun _ => none
  checkpoints : String → Option DelegationCheckpoint := fun _ => none
  runtimeInstalled : Bool := true
  eventSender : Bool := true
  tasks : List DelegationTask := []
  /-- The number of the next task. -/
  next : Nat := 0
  /-- The terminal events that have been sent. -/
  events : List DelegationEvent := []

/-- `add_pending_task` on a suspension that may not be there. -/
def armPending (suspension : Option TurnSuspension) (subSessionId : String) : TurnSuspension :=
  match suspension with
  | some t => t.addPending subSessionId
  | none => { pending := [subSessionId] }

namespace Coordinator

variable (s : Coordinator)

/-- `add_pending_task` of a session. -/
def addPendingTask (sessionId subSessionId : String) : Coordinator :=
  { s with
    suspensions := Function.update s.suspensions sessionId
      (some (armPending (s.suspensions sessionId) subSessionId)) }

/-- The inbox of the task that is started next. -/
def registerMailbox (subSessionId : String) : Coordinator :=
  { s with mailboxes := Function.update s.mailboxes subSessionId (some s.next) }

/-- `tokio::spawn` of the outer task. -/
def launch (subSessionId parentSessionId : String) (layered : Bool) : Coordinator :=
  { s with
    tasks := s.tasks ++
      [{ no := s.next, subSessionId := subSessionId, parentSessionId := parentSessionId
         layered := layered, eventSender := s.eventSender }]
    next := s.next + 1 }

/-- The caller's `running.insert`. -/
def insertRunning (subSessionId : String) (entry : RunningEntry) : Coordinator :=
  { s with running := Function.update s.running subSessionId (some entry) }

/-- `running.remove`. -/
def removeRunning (subSessionId : String) : Coordinator :=
  { s with running := Function.update s.running subSessionId none }

/-- `mailboxes.remove`. -/
def removeMailbox (subSessionId : String) : Coordinator :=
  { s with mailboxes := Function.update s.mailboxes subSessionId none }

/-- `save_delegation_checkpoint`. -/
def saveCheckpoint (cp : DelegationCheckpoint) : Coordinator :=
  { s with checkpoints := Function.update s.checkpoints cp.subSessionId (some cp) }

/-- `persist_terminal_checkpoint`. -/
def persistTerminalCheckpoint (subSessionId : String) (status : DelegationStatus) : Coordinator :=
  { s with
    checkpoints := Function.update s.checkpoints subSessionId
      (tombstone (s.checkpoints subSessionId) status) }

/-- The checkpoint of a delegation that has ended with a result. -/
def settle (subSessionId : String) (result : Except DelegationError String) : Coordinator :=
  { s with
    checkpoints := Function.update s.checkpoints subSessionId
      (settleCheckpoint (s.checkpoints subSessionId) result) }

/-- The terminal event, if there is somebody to send it to. -/
def send (event : DelegationEvent) : Coordinator :=
  if s.eventSender then { s with events := s.events ++ [event] } else s

/-! ## The requests up to their first effect -/

/-- The checks of `spawn_delegate_async`, where `created` is what `create_sub_session_context`
returns. -/
def checkSpawn (agentName parentSessionId : String) (created : Except String String) :
    Except DelegationError String :=
  match s.agents agentName with
  | none => .error (unknownSubAgent agentName s.available)
  | some _ =>
    match checkDepth (s.sessionDepth parentSessionId) s.maxDepth with
    | .error e => .error e
    | .ok () =>
      match created with
      | .error text => .error (.other text)
      | .ok subSessionId => .ok subSessionId

/-- The parent is suspended for the new task if its context is registered. -/
def armRegistered (parentSessionId subSessionId : String) : Coordinator :=
  if s.registered parentSessionId then s.addPendingTask parentSessionId subSessionId else s

section

variable (parentSessionId subSessionId : String)

@[simp] lemma eventSender_armRegistered :
    (s.armRegistered parentSessionId subSessionId).eventSender = s.eventSender := by
  unfold armRegistered
  split_ifs <;> rfl

@[simp] lemma tasks_armRegistered :
    (s.armRegistered parentSessionId subSessionId).tasks = s.tasks := by
  unfold armRegistered
  split_ifs <;> rfl

@[simp] lemma running_armRegistered :
    (s.armRegistered parentSessionId subSessionId).running = s.running := by
  unfold armRegistered
  split_ifs <;> rfl

@[simp] lemma mailboxes_armRegistered :
    (s.armRegistered parentSessionId subSessionId).mailboxes = s.mailboxes := by
  unfold armRegistered
  split_ifs <;> rfl

end

/-- The checks of `resume_timed_out`: the checkpoint is that of a delegation that has timed out. -/
def checkResume (subSessionId : String) : Except DelegationError DelegationCheckpoint :=
  match s.running subSessionId with
  | some _ => .error (.other ("sub-agent '" ++ subSessionId ++ "' is already running"))
  | none =>
    match s.checkpoints subSessionId with
    | none => .error (.other ("no delegation checkpoint for '" ++ subSessionId ++ "'"))
    | some cp =>
      if cp.status ≠ DelegationStatus.timedOut.asStr then
        .error (.other ("sub-agent '" ++ subSessionId ++ "' is not resumable (checkpoint status: '" ++
          cp.status ++ "'; only timed_out delegations can be resumed)"))
      else .ok cp

/-- The parent's context is registered, or can be loaded. -/
def hasContext (sessionId : String) : Bool := s.registered sessionId || s.sessions sessionId

/-- The checkpoint of a delegation that is resumed. -/
def resumedCheckpoint (subSessionId : String) (cp : DelegationCheckpoint) (extraSecs : Option Nat)
    (now : Nat) : DelegationCheckpoint :=
  { parentSessionId := cp.parentSessionId, subSessionId := subSessionId, agentName := cp.agentName
    status := DelegationStatus.running.asStr, startedAt := now
    timeoutSecs := max 1 (min (extraSecs.getD (max (min (cp.timeoutSecs * 2) u64Max) 600))
      subAgentTimeoutMaxSecs)
    allowedTools := cp.allowedTools }

/-- The entry that `recover_async` makes for the task it starts next. -/
def recoveredEntry (agentName parentSessionId : String) (timeoutSecs : Nat)
    (allowedTools : Option (List String)) (now : Nat) : RunningEntry :=
  { handle := s.next, agentName := agentName, parentSessionId := parentSessionId
    startedAt := now, timeoutSecs := timeoutSecs, allowedTools := allowedTools }

end Coordinator

end MyClaw
