import MyClaw.Agent.LoopBreaker
import MyClaw.Session.Types

set_option autoImplicit false

/-!
# The tool phase

`execute_tool_batch` (`agents/agent/tool_phase.rs`) runs the tool calls of one response in their
order.  The assistant message with all its calls is written to the session file before the first
call runs; three early exits then strip the calls that did not run, in memory.

What the tools answer, the moments, and what the queue of yield events holds are inputs.  A batch
whose inputs end before its calls do is a task that was dropped while a tool ran.  The wait of
`park_for_yield` gives up the locks of the session, so it splits the batch: `wakeFromPark` is
what the parked task does when it wakes.

## Main definitions

* `Frame` — what a batch works on: the session with its file, and the request messages.
* `executeToolBatch` — a batch, up to its end or to the wait of a `sessions_yield`.
* `wakeFromPark` — the end of the wait.
-/

namespace MyClaw

/-- What a tool returns. -/
structure ToolResult where
  success : Bool
  output : String
  error : Option String

/-- The text of a tool result message, and whether it is an error. -/
def resultContent : Except String ToolResult → String × Bool
  | .ok r =>
    match r.error with
    | some err => (if r.output = "" then "error: " ++ err else r.output, !r.success)
    | none => (r.output, !r.success)
  | .error e => ("error: " ++ e, true)

/-- The run of one call: what the executor returns, when the loop breaker looks at it, and whether
the arguments, read as JSON, ask for the mode `async`. -/
structure Execution where
  result : Except String ToolResult
  now : Nat
  asyncMode : Bool := false

/-- The flags that a turn carries through its batches. -/
structure TurnState where
  turnCalledMemory : Bool := false
  turnHadError : Bool := false
  asyncDelegationSpawned : Bool := false
  shellPendingSpawned : Bool := false

/-- `has_pending`. -/
def TurnState.hasPending (t : TurnState) : Bool := t.asyncDelegationSpawned || t.shellPendingSpawned

/-- A response with tool calls; `usage` is what `llm_usage` makes of it. -/
structure CollectedResponse where
  text : String
  toolCalls : List ToolCall
  reasoningContent : Option String := none
  thinkingSignature : Option String := none
  actualModel : Option String := none
  usage : Option ChatMessageUsage := none

/-- How a batch ends. -/
inductive ToolBatchOutcome
  | continue
  | endTurn (text : String) (hasPending : Bool)
  | abort (reason : LoopBreakReason)
  | superseded

/-- Where a batch stops: with an outcome, in the wait of a `sessions_yield`, or because its task was
dropped. -/
inductive BatchStop
  | done (outcome : ToolBatchOutcome)
  | parked (toolCallId : String)
  | dropped

/-- The handle for the in-frame wait of a `sessions_yield`: none, or a live one with what
`drain_pending_yield_for_fill` takes from the queue of events. -/
inductive YieldPark
  | absent
  | live (queued : Option String)

/-- What a batch works on. -/
structure Frame where
  dir : SessionDir
  session : Session
  messages : List ChatMessage
  breaker : LoopBreakerCounter
  turnState : TurnState := {}

/-- The assistant message of the request; a signature alone makes no thinking part here. -/
def requestAssistant (response : CollectedResponse) : ChatMessage :=
  { ChatMessage.assistantText response.text with
    parts :=
      (match response.reasoningContent with
        | some thinking => [.thinking thinking response.thinkingSignature]
        | none => []) ++ (ChatMessage.assistantText response.text).parts
    toolCalls := some response.toolCalls }

/-- The tool message of the request; it carries no name. -/
def requestResult (toolCallId content : String) (isError : Bool) : ChatMessage :=
  toolResult toolCallId none content isError

/-- `call.name == "sessions_yield" && !is_error`. -/
def isDeferredYield (call : ToolCall) (isError : Bool) : Bool :=
  decide (call.name = "sessions_yield") && !isError

/-- The text that closes an earlier yield when a newer one comes. -/
def supersededText : String :=
  "A newer sessions_yield call superseded this one before it received any update. Anything that was in flight will be delivered via the newer yield instead."

namespace Frame

/-- `add_tool_result` and `persist_last`. -/
def persistResult (J : Serde) (f : Frame) (toolCallId name content : String) (isError : Bool) :
    Frame :=
  let (dir, session) := (f.session.addToolResult toolCallId name content isError).persistLast J f.dir
  { f with dir := dir, session := session }

/-- A tool message of the request. -/
def pushRequest (f : Frame) (toolCallId content : String) (isError : Bool) : Frame :=
  { f with messages := f.messages ++ [requestResult toolCallId content isError] }

/-- The flags after a call. -/
def flag (f : Frame) (call : ToolCall) (content : String) (isError : Bool) : Frame :=
  { f with turnState :=
    { f.turnState with
      turnCalledMemory := f.turnState.turnCalledMemory || decide (call.name = "memory_manage")
      turnHadError := f.turnState.turnHadError || isError
      shellPendingSpawned := f.turnState.shellPendingSpawned ||
        (decide (call.name = "shell") && !isError &&
          "state=running".toList.isPrefixOf content.toList) } }

/-- The flag for an asynchronous delegation, set after its result is persisted. -/
def flagDelegation (f : Frame) (call : ToolCall) (isError asyncMode : Bool) : Frame :=
  { f with turnState :=
    { f.turnState with
      asyncDelegationSpawned := f.turnState.asyncDelegationSpawned ||
        (decide (call.name = "agent_delegate") && !isError && asyncMode) } }

/-- The last calls of the assistant message, removed in memory. -/
def strip (f : Frame) (remaining : Nat) : Frame :=
  { f with session := f.session.stripTrailingToolCalls remaining }

/-- A detected loop: the result is added, the remaining calls are stripped, and the result is
persisted. -/
def abortLoop (J : Serde) (f : Frame) (call : ToolCall) (content : String) (isError : Bool)
    (remaining : Nat) : Frame :=
  let f := f.pushRequest call.id content isError
  let session := (f.session.addToolResult call.id call.name content isError).stripTrailingToolCalls
    remaining
  let (dir, session) := session.persistLast J f.dir
  { f with dir := dir, session := session }

/-- A deferred yield: an earlier pending yield is closed, and this call becomes the pending one. -/
def deferYield (J : Serde) (f : Frame) (call : ToolCall) : Frame :=
  let f :=
    match f.session.pendingYield with
    | some orphaned =>
      { f with session := { f.session with pendingYield := none } }.persistResult J
        orphaned.toolCallId "sessions_yield" supersededText false
    | none => f
  { f with session :=
    { f.session with pendingYield := some { toolCallId := call.id, implicit := false } } }

/-- The content of the events is written as the result of the yield. -/
def fillYield (J : Serde) (f : Frame) (toolCallId content : String) : Frame :=
  { f with session := { f.session with pendingYield := none } }.persistResult J toolCallId
    "sessions_yield" content false

/-- A successful `sessions_yield` ends the batch: the remaining calls are stripped, and the task
waits for an event, unless one is queued or there is no handle to wait with. -/
def yieldTurn (J : Serde) (f : Frame) (response : CollectedResponse) (park : YieldPark)
    (call : ToolCall) (remaining : Nat) : Frame × BatchStop :=
  let f := (f.deferYield J call).strip remaining
  match park with
  | .absent => (f, .done (.endTurn response.text f.turnState.hasPending))
  | .live (some content) => (f.fillYield J call.id content, .done .continue)
  | .live none => (f, .parked call.id)

/-- One call with its result. `none` when the batch goes on with the next call. -/
def executeCall (J : Serde) (f : Frame) (response : CollectedResponse) (park : YieldPark)
    (call : ToolCall) (remaining : Nat) (ex : Execution) : Frame × Option BatchStop :=
  let (content, isError) := resultContent ex.result
  let f := f.flag call content isError
  let (verdict, breaker) := f.breaker.recordAndCheck call.name call.arguments content ex.now
  let f := { f with breaker := breaker }
  match verdict with
  | some reason => (f.abortLoop J call content isError remaining, some (.done (.abort reason)))
  | none =>
    if isDeferredYield call isError then
      let (f, stop) := f.yieldTurn J response park call remaining
      (f, some stop)
    else
      let f := ((f.pushRequest call.id content isError).persistResult J call.id call.name content
        isError).flagDelegation call isError ex.asyncMode
      if f.breaker.totalCalls ≥ f.breaker.config.maxToolCalls then
        (f.strip remaining, some (.done (.abort
          (.maxCalls f.breaker.totalCalls f.breaker.config.maxToolCalls))))
      else (f, none)

/-- The calls of a batch in their order. -/
def executeCalls (J : Serde) (response : CollectedResponse) (park : YieldPark) :
    Frame → List ToolCall → List Execution → Frame × BatchStop
  | f, [], _ => (f, .done .continue)
  | f, _ :: _, [] => (f, .dropped)
  | f, call :: rest, ex :: exs =>
    match f.executeCall J response park call rest.length ex with
    | (f, some stop) => (f, stop)
    | (f, none) => executeCalls J response park f rest exs

end Frame

/-- The assistant message that a batch adds to the session. -/
def batchAssistant (response : CollectedResponse) (modelId : String) : ChatMessage :=
  Session.assistantWithTools response.text response.toolCalls response.reasoningContent
    response.thinkingSignature (some (response.actualModel.getD modelId)) response.usage

/-- `execute_tool_batch`. -/
def executeToolBatch (J : Serde) (f : Frame) (response : CollectedResponse) (modelId : String)
    (park : YieldPark) (executions : List Execution) : Frame × BatchStop :=
  let session := f.session.addAssistantWithTools response.text response.toolCalls
    response.reasoningContent response.thinkingSignature
    (some (response.actualModel.getD modelId)) response.usage
  let (dir, session) := session.persistLast J f.dir
  { f with
    dir := dir, session := session
    messages := f.messages ++ [requestAssistant response] }.executeCalls J response park
      response.toolCalls executions

/-- The end of the wait of `park_for_yield`: the content that was sent, or `none` when the waiter
was cancelled. Content for a call that is no longer the pending one goes back to the queue. -/
def wakeFromPark (J : Serde) (f : Frame) (toolCallId : String) (outcome : Option String) :
    Frame × ToolBatchOutcome :=
  match outcome with
  | none => (f, .superseded)
  | some content =>
    if f.session.pendingYield.any (·.toolCallId = toolCallId) then
      (f.fillYield J toolCallId content, .continue)
    else (f, .superseded)

end MyClaw
