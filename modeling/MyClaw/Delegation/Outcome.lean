import MyClaw.Delegation.Types

set_option autoImplicit false

/-!
# How a delegation ends

`delegate_with_parent` (`agents/delegation_coordinator/delegate.rs`) runs a sub-agent under a
wall-clock timer, merges its worktree back, and folds the messages that the sub-agent has sent and
the mail that it has not read into the result.  The wrapper of a background delegation
(`lifecycle.rs`) and the tail of a synchronous one then classify the result: a timeout is recognised
by the type of the error.  Folding messages into an error makes a new error of a plain text, so the
type is lost.

What the model of the sub-agent and `git` do are inputs.

## Main definitions

* `composeDelegationResult` — the folding.
* `delegateWithParent` — a delegation as a whole.
* `spawnedTask`, `syncDelegation` — what the two wrappers leave behind.
* `TimeoutClassified` — a delegation is classified as timed out exactly when its timer has
  fired.

## Main results

* `timeoutClassified_iff` — that holds exactly when a fired timer meets an empty outbox, an
  empty inbox, and a merge that does not fail.
-/

namespace MyClaw

/-! ## Inputs -/

/-- Whether a sub-agent works in a git worktree of its own. -/
inductive AgentIsolation
  | shared
  | worktree

/-- The part of a sub-agent's configuration that the delegation reads. -/
structure SubAgentConfig where
  name : String
  isolation : AgentIsolation

/-- A request to delegate; `isAsync` when the sub-agent has an inbox. -/
structure DelegationCall where
  agentName : String
  parentSessionId : String
  subSessionId : String
  timeoutSecs : Nat
  allowedTools : Option (List String) := none
  workspace : Option String := none
  isAsync : Bool

/-- How the turn of the sub-agent ends. -/
inductive TurnEnd
  | finished (text : String)
  | failed (error : String)
  /-- The wall-clock timer fires first. -/
  | timerFired

/-- How the merge of a worktree's branch goes. -/
inductive MergeBack
  /-- No commits, merged, or git could not be run. -/
  | fine
  /-- The merge has conflicts, in the named files. -/
  | conflict (files worktreePath : String)
  /-- The main branch could not be checked out. -/
  | checkoutFailed (mainBranch stderr branch worktreePath : String)

/-- How a task ends that does not return. -/
inductive Interruption
  | panicked (payload : String)
  | cancelled
  | joinError (text : String)

/-- What a delegation meets. -/
structure DelegationEnv where
  /-- `session_depth` of the parent. -/
  parentDepth : Nat
  maxDepth : Nat
  agent : Option SubAgentConfig
  /-- The names of the sub-agents that there are. -/
  available : List String := []
  /-- The text of the error when the worktree cannot be made. -/
  worktreeError : Option String := none
  runtimeInstalled : Bool
  now : Nat
  turn : TurnEnd
  mergeBack : MergeBack := .fine
  /-- The messages that the sub-agent has sent and that are still recorded. -/
  sentMessages : List String := []
  /-- The mail in the inbox of the sub-agent when it stops. -/
  unread : List String := []
  /-- The task does not return, once the turn has begun. -/
  interruption : Option Interruption := none
  eventSender : Bool
  durationSecs : Nat := 0
  sentMessageCount : Nat := 0

/-! ## A delegation -/

/-- `compose_delegation_result`. -/
def composeDelegationResult (result : Except DelegationError String)
    (sentMessages undelivered : List String) : Except DelegationError String :=
  match result with
  | .ok text =>
    .ok ("\n\n".intercalate ([text] ++
      (if sentMessages = [] then []
        else ["[子代理消息]：\n" ++ "\n---\n".intercalate sentMessages]) ++
      (if undelivered = [] then []
        else ["[主 agent 有 " ++ toString undelivered.length ++
          " 条消息在任务结束后到达，未处理]：\n" ++ "\n---\n".intercalate undelivered])))
  | .error e =>
    let detail :=
      (if sentMessages = [] then ""
        else "\n[子代理消息]：\n" ++ "\n---\n".intercalate sentMessages) ++
      (if undelivered = [] then ""
        else "\n(另有 " ++ toString undelivered.length ++ " 条主 agent 消息在任务结束后到达，未处理：" ++
          " | ".intercalate undelivered ++ ")")
    if detail = "" then .error e else .error (.other (e.text ++ detail))

/-- `check_depth`: the error when the child would be too deep. -/
def checkDepth (parentDepth maxDepth : Nat) : Except DelegationError Unit :=
  if parentDepth + 1 > maxDepth then
    .error (.other ("maximum delegation depth exceeded: depth " ++ toString (parentDepth + 1) ++
      " > max_depth " ++ toString maxDepth ++
      " (main agent = depth 1; raise [delegation] max_depth to allow deeper nesting)"))
  else .ok ()

/-- The error of a sub-agent that does not exist. -/
def unknownSubAgent (agentName : String) (available : List String) : DelegationError :=
  .other ("Unknown sub-agent '" ++ agentName ++ "'. Available: " ++ ", ".intercalate available)

/-- The checks before the checkpoint is written. -/
def prepareDelegation (c : DelegationCall) (env : DelegationEnv) :
    Except DelegationError SubAgentConfig :=
  match checkDepth env.parentDepth env.maxDepth with
  | .error e => .error e
  | .ok () =>
    match env.agent with
    | none => .error (unknownSubAgent c.agentName env.available)
    | some config =>
      match config.isolation with
      | .shared => .ok config
      | .worktree =>
        if c.workspace = none then
          .error (.other ("agent '" ++ config.name ++
            "' uses worktree isolation: the 'workspace' parameter is required (git repo root where the sub-agent's worktree is created and merged back)"))
        else
          match env.worktreeError with
          | some text => .error (.other text)
          | none => .ok config

/-- The checkpoint of a delegation that begins. -/
def runningCheckpoint (c : DelegationCall) (env : DelegationEnv) : DelegationCheckpoint :=
  { parentSessionId := c.parentSessionId, subSessionId := c.subSessionId, agentName := c.agentName
    status := DelegationStatus.running.asStr, startedAt := env.now, timeoutSecs := c.timeoutSecs
    allowedTools := c.allowedTools }

/-- The result of the turn under its timer. -/
def turnResult (c : DelegationCall) (config : SubAgentConfig) :
    TurnEnd → Except DelegationError String
  | .finished text => .ok text
  | .failed error => .error (.other error)
  | .timerFired => .error (.timeout { agent := config.name, secs := c.timeoutSecs })

/-- The error of a merge that fails; only a worktree is merged. -/
def mergeError (config : SubAgentConfig) (mergeBack : MergeBack) : Option DelegationError :=
  match config.isolation, mergeBack with
  | .worktree, .conflict files worktreePath =>
    some (.other ("sub-agent '" ++ config.name ++
      "' completed but merge failed (conflict). Worktree preserved at " ++ worktreePath ++ "." ++
      (if files = "" then "" else "\nConflicted files:\n" ++ files)))
  | .worktree, .checkoutFailed mainBranch stderr branch worktreePath =>
    some (.other ("sub-agent '" ++ config.name ++ "' completed but checkout of main branch '" ++
      mainBranch ++ "' failed: " ++ stderr ++ ". Sub-agent branch '" ++ branch ++
      "' has commits that were NOT merged; recover manually (worktree preserved at " ++
      worktreePath ++ ")"))
  | _, _ => none

/-- The mail that comes with the result: only a background sub-agent has an inbox. -/
def undeliveredMail (c : DelegationCall) (env : DelegationEnv) : List String :=
  if c.isAsync then env.unread else []

/-- The end of a delegation whose turn has ended: merge, folding, and for a synchronous one the
checkpoint. -/
def finishDelegation (c : DelegationCall) (env : DelegationEnv) (config : SubAgentConfig)
    (checkpoint : Option DelegationCheckpoint) :
    Except DelegationError String × Option DelegationCheckpoint :=
  match mergeError config env.mergeBack with
  | some e => (.error e, if c.isAsync then checkpoint else tombstone checkpoint .failed)
  | none =>
    let result := composeDelegationResult (turnResult c config env.turn) env.sentMessages
      (undeliveredMail c env)
    (result, if c.isAsync then checkpoint else settleCheckpoint checkpoint result)

/-- `delegate_with_parent`, from the checkpoint that there was; no result when its task does not
return. -/
def delegateWithParent (c : DelegationCall) (env : DelegationEnv)
    (checkpoint : Option DelegationCheckpoint) :
    Except Interruption (Except DelegationError String) × Option DelegationCheckpoint :=
  match prepareDelegation c env with
  | .error e => (.ok (.error e), checkpoint)
  | .ok config =>
    let checkpoint := some (runningCheckpoint c env)
    if env.runtimeInstalled = false then
      (.ok (.error (.other "DelegationCoordinator: runtime not installed")), checkpoint)
    else
      match env.interruption with
      | some why => (.error why, checkpoint)
      | none =>
        let (result, checkpoint) := finishDelegation c env config checkpoint
        (.ok result, checkpoint)

/-! ## The two wrappers -/

/-- What the outer task of `spawn_delegate_async` makes of the end of the inner one; `none` when the
task was cancelled. -/
def joinedResult :
    Except Interruption (Except DelegationError String) → Option (Except DelegationError String)
  | .ok result => some result
  | .error (.panicked payload) => some (.error (.other ("sub-agent panicked: " ++ payload)))
  | .error .cancelled => none
  | .error (.joinError text) => some (.error (.other ("sub-agent task join error: " ++ text)))

/-- What a delegation leaves behind: the event for the parent and the checkpoint. -/
structure DelegationEnd where
  event : Option DelegationEvent
  checkpoint : Option DelegationCheckpoint

/-- The exit of a background task with a result: the event is sent, and the checkpoint is settled. -/
def exitWith (c : DelegationCall) (env : DelegationEnv) (checkpoint : Option DelegationCheckpoint)
    (result : Except DelegationError String) : DelegationEnd :=
  { event :=
      if env.eventSender then
        some (terminalEvent c.subSessionId c.parentSessionId result env.durationSecs
          env.sentMessageCount)
      else none
    checkpoint := settleCheckpoint checkpoint result }

/-- The task that `spawn_delegate_async` starts, from its first step to its exit. -/
def spawnedTask (c : DelegationCall) (env : DelegationEnv)
    (checkpoint : Option DelegationCheckpoint) : DelegationEnd :=
  let (inner, checkpoint) := delegateWithParent c env checkpoint
  match joinedResult inner with
  | some result => exitWith c env checkpoint result
  | none => { event := none, checkpoint := checkpoint }

/-- A synchronous delegation: the parent has the result of its tool call, and no event. -/
def syncDelegation (c : DelegationCall) (env : DelegationEnv)
    (checkpoint : Option DelegationCheckpoint) : DelegationEnd :=
  { event := none, checkpoint := (delegateWithParent c env checkpoint).2 }

/-! ## Classification -/

/-- The delegation gets as far as its turn, and the timer fires. -/
def TimerFires (c : DelegationCall) (env : DelegationEnv) : Prop :=
  (∃ config, prepareDelegation c env = .ok config) ∧ env.runtimeInstalled = true ∧
    env.turn = .timerFired

/-- The checkpoint is one that `agent_resume` accepts. -/
def SettledTimedOut (e : DelegationEnd) : Prop :=
  ∃ cp, e.checkpoint = some cp ∧ cp.status = DelegationStatus.timedOut.asStr

/-- The event tells the parent of a timeout. -/
def EmitsTimedOut (e : DelegationEnd) : Prop :=
  ∃ subSessionId parentSessionId timeoutSecs durationSecs,
    e.event = some (.timedOut subSessionId parentSessionId timeoutSecs durationSecs)

/-- The end of a new delegation, by the way it was started. -/
def delegationEnd (c : DelegationCall) (env : DelegationEnv) : DelegationEnd :=
  if c.isAsync then spawnedTask c env none else syncDelegation c env none

/-- A delegation whose timer fires is settled as timed out, and in the background the parent is told
so; no other delegation is. -/
def TimeoutClassified (c : DelegationCall) (env : DelegationEnv) : Prop :=
  (TimerFires c env → SettledTimedOut (delegationEnd c env) ∧
    (c.isAsync = true → EmitsTimedOut (delegationEnd c env))) ∧
  (¬ TimerFires c env → ¬ SettledTimedOut (delegationEnd c env) ∧
    ¬ EmitsTimedOut (delegationEnd c env))

/-- Nothing comes between a fired timer and the classification. -/
structure KeepsTimeout (c : DelegationCall) (env : DelegationEnv) : Prop where
  /-- The sub-agent's messages have all been delivered. -/
  sent : env.sentMessages = []
  /-- A background sub-agent has read all its mail. -/
  read : c.isAsync = true → env.unread = []
  /-- A worktree is merged back, or has nothing to merge. -/
  merged : ∀ config, env.agent = some config → config.isolation = .worktree →
    env.mergeBack = .fine
  /-- The task returns. -/
  returns : env.interruption = none
  /-- There is somebody to tell. -/
  sender : c.isAsync = true → env.eventSender = true

/-! ## Results that are timeouts -/

/-- The result is the structured error of a timeout. -/
def IsTimeout (result : Except DelegationError String) : Prop := ∃ t, result = .error (.timeout t)

section

variable {c : DelegationCall} {env : DelegationEnv} {config : SubAgentConfig}

lemma not_isTimeout_other (text : String) : ¬ IsTimeout (.error (.other text)) := by
  rintro ⟨t, h⟩
  cases h

/-- **Folding keeps a timeout** only when there is nothing to fold. -/
lemma isTimeout_composeDelegationResult {result : Except DelegationError String}
    {sentMessages undelivered : List String} :
    IsTimeout (composeDelegationResult result sentMessages undelivered) ↔
      IsTimeout result ∧ sentMessages = [] ∧ undelivered = [] := by
  cases result with
  | ok text =>
    constructor
    · rintro ⟨t, h⟩
      cases h
    · rintro ⟨⟨t, h⟩, -⟩
      cases h
  | error e =>
    unfold composeDelegationResult
    dsimp only
    by_cases hs : sentMessages = []
    · by_cases hu : undelivered = []
      · simp [hs, hu]
      · rw [if_neg]
        · simp [hu, not_isTimeout_other]
        · simp [hs, hu]
    · rw [if_neg]
      · simp [hs, not_isTimeout_other]
      · simp [hs]

/-- No check before the checkpoint makes a timeout. -/
lemma downcastTimeout_of_prepareDelegation {e : DelegationError}
    (h : prepareDelegation c env = .error e) : e.downcastTimeout = none := by
  unfold prepareDelegation checkDepth unknownSubAgent at h
  by_cases hdepth : env.parentDepth + 1 > env.maxDepth
  · rw [if_pos hdepth] at h
    cases h
    rfl
  · rw [if_neg hdepth] at h
    dsimp only at h
    rcases hagent : env.agent with _ | config
    · rw [hagent] at h
      cases h
      rfl
    · rw [hagent] at h
      dsimp only at h
      cases hiso : config.isolation with
      | shared => simp [hiso] at h
      | worktree =>
        simp only [hiso] at h
        by_cases hws : c.workspace = none
        · rw [if_pos hws] at h
          cases h
          rfl
        · rw [if_neg hws] at h
          rcases herr : env.worktreeError with _ | text
          · simp [herr] at h
          · rw [herr] at h
            cases h
            rfl

/-- A delegation that passes the checks is one to a sub-agent that exists. -/
lemma agent_of_prepareDelegation (h : prepareDelegation c env = .ok config) :
    env.agent = some config := by
  unfold prepareDelegation checkDepth at h
  by_cases hdepth : env.parentDepth + 1 > env.maxDepth
  · rw [if_pos hdepth] at h
    cases h
  · rw [if_neg hdepth] at h
    dsimp only at h
    rcases hagent : env.agent with _ | config'
    · simp [hagent] at h
    · rw [hagent] at h
      dsimp only at h
      cases hiso : config'.isolation with
      | shared => simpa [hiso] using h
      | worktree =>
        simp only [hiso] at h
        by_cases hws : c.workspace = none
        · rw [if_pos hws] at h
          cases h
        · rw [if_neg hws] at h
          rcases herr : env.worktreeError with _ | text
          · simpa [herr] using h
          · simp [herr] at h

lemma mergeError_eq_none_iff {mergeBack : MergeBack} :
    mergeError config mergeBack = none ↔ (config.isolation = .worktree → mergeBack = .fine) := by
  unfold mergeError
  cases hiso : config.isolation <;> cases mergeBack <;> simp

lemma downcastTimeout_mergeError {mergeBack : MergeBack} {e : DelegationError}
    (h : mergeError config mergeBack = some e) : e.downcastTimeout = none := by
  unfold mergeError at h
  cases hiso : config.isolation <;> cases mergeBack <;> simp only [hiso, reduceCtorEq,
    Option.some.injEq] at h <;> (rw [← h]; rfl)

lemma isTimeout_turnResult : IsTimeout (turnResult c config env.turn) ↔ env.turn = .timerFired := by
  cases env.turn <;> simp [turnResult, IsTimeout]

lemma not_isTimeout_of_downcast {e : DelegationError} (h : e.downcastTimeout = none) :
    ¬ IsTimeout (.error e) := by
  rintro ⟨t, heq⟩
  cases heq
  cases h

/-- **A delegation returns a timeout** exactly when its timer fires, its task returns, and nothing is
merged in vain or folded into the error. -/
lemma delegateWithParent_isTimeout (checkpoint : Option DelegationCheckpoint) :
    (∃ result, (delegateWithParent c env checkpoint).1 = .ok result ∧ IsTimeout result) ↔
      TimerFires c env ∧ env.interruption = none ∧ env.sentMessages = [] ∧
        undeliveredMail c env = [] ∧
        ∀ config, env.agent = some config → config.isolation = .worktree →
          env.mergeBack = .fine := by
  unfold delegateWithParent TimerFires
  cases hprep : prepareDelegation c env with
  | error e =>
    have hnot := not_isTimeout_of_downcast (downcastTimeout_of_prepareDelegation hprep)
    simp [hnot]
  | ok config =>
    have hagent := agent_of_prepareDelegation hprep
    dsimp only
    by_cases hrt : env.runtimeInstalled = false
    · simp [hrt, not_isTimeout_other]
    · rw [if_neg hrt]
      simp only [Bool.not_eq_false] at hrt
      cases hint : env.interruption with
      | some why => simp
      | none =>
        simp only [hrt, hagent, Except.ok.injEq, exists_eq', true_and, Option.some.injEq,
          forall_eq', exists_eq_left']
        unfold finishDelegation
        cases hmerge : mergeError config env.mergeBack with
        | some e =>
          have hnot := not_isTimeout_of_downcast (downcastTimeout_mergeError hmerge)
          have hbad : ¬ (config.isolation = .worktree → env.mergeBack = .fine) := by
            rw [← mergeError_eq_none_iff, hmerge]
            simp
          simp only [hnot, false_iff]
          exact fun h => hbad h.2.2.2
        | none =>
          have hgood := mergeError_eq_none_iff.1 hmerge
          dsimp only
          rw [isTimeout_composeDelegationResult, isTimeout_turnResult]
          exact ⟨fun h => ⟨h.1, h.2.1, h.2.2, hgood⟩, fun h => ⟨h.1, h.2.1, h.2.2.1⟩⟩

/-! ## What the wrappers make of it -/

/-- The result of `delegate_with_parent` for a new delegation is a timeout. -/
def ReturnsTimeout (c : DelegationCall) (env : DelegationEnv) : Prop :=
  ∃ result, (delegateWithParent c env none).1 = .ok result ∧ IsTimeout result

lemma isSome_downcastTimeout_iff {e : DelegationError} :
    e.downcastTimeout.isSome = true ↔ IsTimeout (.error e) := by
  cases e <;> simp [DelegationError.downcastTimeout, IsTimeout]

lemma terminalStatus_eq_timedOut_iff {result : Except DelegationError String} :
    terminalStatus result = .timedOut ↔ IsTimeout result := by
  unfold terminalStatus
  cases result with
  | ok text => simp [IsTimeout]
  | error e =>
    rw [← isSome_downcastTimeout_iff]
    by_cases h : e.downcastTimeout.isSome = true <;> simp [h]

/-- A checkpoint that was there is settled as timed out exactly by a timeout. -/
lemma settleCheckpoint_timedOut_iff {cp : DelegationCheckpoint}
    {result : Except DelegationError String} :
    (∃ cp', settleCheckpoint (some cp) result = some cp' ∧
      cp'.status = DelegationStatus.timedOut.asStr) ↔ IsTimeout result := by
  rw [← terminalStatus_eq_timedOut_iff]
  unfold settleCheckpoint tombstone
  by_cases hdone : terminalStatus result = .completed
  · simp [hdone]
  · simp [hdone, DelegationStatus.asStr_injective.eq_iff]

/-- The event is one of a timeout exactly for a timeout. -/
lemma terminalEvent_timedOut_iff {subSessionId parentSessionId : String}
    {result : Except DelegationError String} {durationSecs sentMessageCount : Nat} :
    (∃ sub parent timeoutSecs duration,
      terminalEvent subSessionId parentSessionId result durationSecs sentMessageCount =
        .timedOut sub parent timeoutSecs duration) ↔ IsTimeout result := by
  unfold terminalEvent
  rcases result with (t | text) | summary <;> simp [DelegationError.downcastTimeout, IsTimeout]

variable (env) in
/-- The task of a background delegation leaves the checkpoint it has written to its wrapper. -/
lemma checkpoint_delegateWithParent_async (hasync : c.isAsync = true) :
    (delegateWithParent c env none).2 = some (runningCheckpoint c env) ∨
      (delegateWithParent c env none).2 = none ∧ ¬ ReturnsTimeout c env := by
  unfold ReturnsTimeout
  rw [delegateWithParent_isTimeout]
  unfold delegateWithParent TimerFires finishDelegation
  cases hprep : prepareDelegation c env with
  | error e => exact .inr ⟨rfl, by simp⟩
  | ok config =>
    left
    dsimp only
    by_cases hrt : env.runtimeInstalled = false
    · rw [if_pos hrt]
    · rw [if_neg hrt]
      cases env.interruption with
      | some why => rfl
      | none => cases hmerge : mergeError config env.mergeBack <;> simp [hasync]

/-- **The wrapper settles a checkpoint as timed out** exactly when the task returns a timeout. -/
lemma settledTimedOut_spawnedTask (hasync : c.isAsync = true) :
    SettledTimedOut (spawnedTask c env none) ↔ ReturnsTimeout c env := by
  unfold SettledTimedOut spawnedTask
  rcases checkpoint_delegateWithParent_async env hasync with hcp | ⟨hcp, hnot⟩
  · dsimp only
    rw [hcp]
    unfold ReturnsTimeout
    rcases (delegateWithParent c env none).1 with (payload | _ | text) | result
    · simpa [joinedResult, exitWith, settleCheckpoint_timedOut_iff] using not_isTimeout_other _
    · simp [joinedResult, runningCheckpoint, DelegationStatus.asStr_injective.eq_iff]
    · simpa [joinedResult, exitWith, settleCheckpoint_timedOut_iff] using not_isTimeout_other _
    · simp [joinedResult, exitWith, settleCheckpoint_timedOut_iff]
  · simp only [hnot, iff_false, not_exists, not_and]
    intro cp heq
    exfalso
    revert heq
    rw [hcp]
    rcases joinedResult (delegateWithParent c env none).1 with _ | result
    · simp
    · simp [exitWith, settleCheckpoint, tombstone]

/-- **The wrapper tells the parent of a timeout** exactly when the task returns one and there is
somebody to tell. -/
lemma emitsTimedOut_spawnedTask :
    EmitsTimedOut (spawnedTask c env none) ↔ ReturnsTimeout c env ∧ env.eventSender = true := by
  unfold EmitsTimedOut spawnedTask ReturnsTimeout
  dsimp only
  by_cases hsender : env.eventSender = true
  · rcases (delegateWithParent c env none).1 with (payload | _ | text) | result
    · simpa [joinedResult, exitWith, hsender, terminalEvent_timedOut_iff]
        using not_isTimeout_other _
    · simp [joinedResult]
    · simpa [joinedResult, exitWith, hsender, terminalEvent_timedOut_iff]
        using not_isTimeout_other _
    · simp [joinedResult, exitWith, hsender, terminalEvent_timedOut_iff]
  · rcases joinedResult (delegateWithParent c env none).1 with _ | result
    · simp [hsender]
    · simp [exitWith, hsender]

/-- **A synchronous delegation settles its own checkpoint**, as the wrapper of a background one
does. -/
lemma settledTimedOut_syncDelegation (hsync : c.isAsync = false) :
    SettledTimedOut (syncDelegation c env none) ↔ ReturnsTimeout c env := by
  have hrunning : (runningCheckpoint c env).status ≠ DelegationStatus.timedOut.asStr := by
    simp [runningCheckpoint, DelegationStatus.asStr_injective.eq_iff]
  unfold SettledTimedOut syncDelegation ReturnsTimeout delegateWithParent
  cases hprep : prepareDelegation c env with
  | error e =>
    have hnot := not_isTimeout_of_downcast (downcastTimeout_of_prepareDelegation hprep)
    simp [hnot]
  | ok config =>
    dsimp only
    by_cases hrt : env.runtimeInstalled = false
    · simp [hrt, hrunning, not_isTimeout_other]
    · rw [if_neg hrt]
      cases env.interruption with
      | some why => simp [hrunning]
      | none =>
        unfold finishDelegation
        cases hmerge : mergeError config env.mergeBack with
        | some e =>
          have hnot := not_isTimeout_of_downcast (downcastTimeout_mergeError hmerge)
          simp [hsync, hnot, tombstone, DelegationStatus.asStr_injective.eq_iff]
        | none => simp [hsync, settleCheckpoint_timedOut_iff]

/-- However it was started, a delegation is settled as timed out exactly when its task returns a
timeout. -/
lemma settledTimedOut_delegationEnd :
    SettledTimedOut (delegationEnd c env) ↔ ReturnsTimeout c env := by
  unfold delegationEnd
  cases hasync : c.isAsync with
  | true => simpa using settledTimedOut_spawnedTask hasync
  | false => simpa using settledTimedOut_syncDelegation hasync

lemma emitsTimedOut_delegationEnd :
    EmitsTimedOut (delegationEnd c env) ↔
      c.isAsync = true ∧ ReturnsTimeout c env ∧ env.eventSender = true := by
  unfold delegationEnd
  cases hasync : c.isAsync with
  | true => simpa using emitsTimedOut_spawnedTask
  | false => simp [EmitsTimedOut, syncDelegation]

/-- No timeout is returned without a timer that has fired. -/
lemma ReturnsTimeout.timerFires (h : ReturnsTimeout c env) : TimerFires c env :=
  ((delegateWithParent_isTimeout none).1 h).1

/-- With a fired timer, the conditions are those under which the timeout is returned and told. -/
lemma keepsTimeout_iff (hfires : TimerFires c env) :
    KeepsTimeout c env ↔
      ReturnsTimeout c env ∧ (c.isAsync = true → env.eventSender = true) := by
  unfold ReturnsTimeout
  rw [delegateWithParent_isTimeout]
  unfold undeliveredMail
  constructor
  · intro h
    refine ⟨⟨hfires, h.returns, h.sent, ?_, h.merged⟩, h.sender⟩
    by_cases hasync : c.isAsync = true
    · rw [if_pos hasync]
      exact h.read hasync
    · rw [if_neg hasync]
  · rintro ⟨⟨-, hreturns, hsent, hread, hmerged⟩, hsender⟩
    refine ⟨hsent, fun hasync => ?_, hmerged, hreturns, hsender⟩
    rwa [if_pos hasync] at hread

end

/-- **A timed-out delegation is classified as one** exactly when nothing comes between the fired
timer and the classification. -/
theorem timeoutClassified_iff (c : DelegationCall) (env : DelegationEnv) :
    TimeoutClassified c env ↔ (TimerFires c env → KeepsTimeout c env) := by
  unfold TimeoutClassified
  rw [settledTimedOut_delegationEnd, emitsTimedOut_delegationEnd]
  constructor
  · intro h hfires
    obtain ⟨hret, hemits⟩ := h.1 hfires
    exact (keepsTimeout_iff hfires).2 ⟨hret, fun hasync => (hemits hasync).2.2⟩
  · intro h
    refine ⟨fun hfires => ?_, fun hnot => ?_⟩
    · obtain ⟨hret, hsender⟩ := (keepsTimeout_iff hfires).1 (h hfires)
      exact ⟨hret, fun hasync => ⟨hasync, hret, hsender hasync⟩⟩
    · exact ⟨fun hret => hnot hret.timerFires, fun hemits => hnot hemits.2.1.timerFires⟩

/-- A background delegation whose timer fires while one message of its parent is unread. -/
def unreadMailCall : DelegationCall :=
  { agentName := "coder", parentSessionId := "p", subSessionId := "s", timeoutSecs := 600
    isAsync := true }

/-- The environment of `unreadMailCall`: everything is in order but for the unread message. -/
def unreadMailEnv : DelegationEnv :=
  { parentDepth := 1, maxDepth := 2, agent := some { name := "coder", isolation := .shared }
    runtimeInstalled := true, now := 0, turn := .timerFired, unread := ["are you done?"]
    eventSender := true, durationSecs := 600 }

/-- **One unread message hides a timeout**: the checkpoint is left as failed. -/
theorem not_timeoutClassified_unreadMail : ¬ TimeoutClassified unreadMailCall unreadMailEnv := by
  intro h
  have hfires : TimerFires unreadMailCall unreadMailEnv := ⟨⟨_, rfl⟩, rfl, rfl⟩
  obtain ⟨cp, hcp, hstatus⟩ := (h.1 hfires).1
  have hfailed : (delegationEnd unreadMailCall unreadMailEnv).checkpoint =
      some { runningCheckpoint unreadMailCall unreadMailEnv with status := "failed" } := by
    decide +kernel
  rw [hfailed] at hcp
  cases hcp
  revert hstatus
  decide

end MyClaw
