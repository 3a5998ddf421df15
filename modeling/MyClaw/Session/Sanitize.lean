import MyClaw.Session.Breakpoint
import Mathlib.Data.List.DropRight

set_option autoImplicit false

/-!
# Sanitizing a history

`sanitize_history` and `sanitize_paired` (`agents/session/session_override.rs`): the passes that
prepare a history for a provider, and the shorter version that a reload uses.

## Main definitions

* `removeOrphanResults` — tool results of calls that no assistant message declares go.
* `trimUnfulfilledTail` — assistant messages at the end whose calls are all unanswered go.
* `closeInterruptedToolRounds` — open rounds before a later turn get cancelled results.
* `mergeAdjacentSameRole` — neighbouring user or assistant messages become one.
* `ensureAtLeastOneUser` — a history without a user message gets one.
* `sanitizeHistory`, `sanitizePaired` — the passes in order.

## Implementation notes

The source closes rounds and merges messages in place, with indices into a vector that grows. Here
each is a recursion over the list that carries what the loop keeps between two indices: the open
round, and the last message written.
-/

namespace MyClaw

/-! ## Orphan results and the unanswered tail -/

/-- The ids that the assistant messages declare. -/
def knownToolIds (history : List ChatMessage) : List String :=
  (history.filter fun m => m.role = "assistant").flatMap ChatMessage.callIds

/-- A tool message stays when it answers a known call; every other message stays. -/
def keepsResult (known : List String) (msg : ChatMessage) : Bool :=
  if msg.role = "tool" then
    match msg.toolCallId with
    | some id => known.contains id
    | none => false
  else true

/-- Steps 1 and 2: tool messages that answer no declared call are removed. -/
def removeOrphanResults (history : List ChatMessage) : List ChatMessage :=
  history.filter (keepsResult (knownToolIds history))

/-- The ids that the tool messages answer. -/
def fulfilledIds (history : List ChatMessage) : List String :=
  (history.filter fun m => m.role = "tool").filterMap (·.toolCallId)

/-- An assistant message with calls, none of them answered. -/
def unfulfilled (fulfilled : List String) (msg : ChatMessage) : Bool :=
  decide (msg.role = "assistant") && !msg.calls.isEmpty &&
    msg.calls.all fun tc => !fulfilled.contains tc.id

/-- Steps 3 and 4: the assistant messages at the end whose calls are all unanswered are removed. -/
def trimUnfulfilledTail (history : List ChatMessage) : List ChatMessage :=
  history.rdropWhile (unfulfilled (fulfilledIds history))

/-! ## Interrupted rounds -/

/-- The result that closes a call of an interrupted round. -/
def cancelledResult (tc : ToolCall) : ChatMessage :=
  toolResult tc.id (some tc.name) "cancelled: turn interrupted" true

/-- The assistant message between tool results and a user message. -/
def placeholder : ChatMessage := ChatMessage.assistantText "（继续）"

/-- An open tool round: the calls of its assistant message and the ids answered so far. -/
structure ToolRound where
  calls : List ToolCall
  fulfilled : List String

/-- The round that a message opens, if it is an assistant message with calls. -/
def ToolRound.openedBy (msg : ChatMessage) : Option ToolRound :=
  if msg.role = "assistant" ∧ msg.calls ≠ [] then some { calls := msg.calls, fulfilled := [] }
  else none

/-- The round with one more tool message of its run. -/
def ToolRound.answer (r : ToolRound) (msg : ChatMessage) : ToolRound :=
  { r with fulfilled := r.fulfilled ++ msg.toolCallId.toList }

/-- The calls of a round that its run of tool messages does not answer. -/
def ToolRound.missing (r : ToolRound) : List ToolCall :=
  r.calls.filter fun tc => !r.fulfilled.contains tc.id

/-- What is inserted in front of the message after a round. -/
def closing : Option ToolRound → ChatMessage → List ChatMessage
  | none, _ => []
  | some r, next =>
    r.missing.map cancelledResult ++ if next.role = "user" then [placeholder] else []

/-- The rest of a history, with the open round that its head may belong to. A round at the end of
the history is the live tail and stays open. -/
def closeRounds : Option ToolRound → List ChatMessage → List ChatMessage
  | _, [] => []
  | round, msg :: rest =>
    if msg.role = "tool" then msg :: closeRounds (round.map (·.answer msg)) rest
    else closing round msg ++ msg :: closeRounds (ToolRound.openedBy msg) rest

/-- Step 5: every round that a later message follows gets a result for each call, and an assistant
message when a user message follows. -/
def closeInterruptedToolRounds (history : List ChatMessage) : List ChatMessage :=
  closeRounds none history

/-! ## Merging -/

/-- A user or assistant message without calls. -/
def canMerge (msg : ChatMessage) : Bool :=
  (decide (msg.role = "user") || decide (msg.role = "assistant")) && msg.calls.isEmpty

/-- A non-empty text part. -/
def hasText (msg : ChatMessage) : Bool :=
  msg.parts.any fun p =>
    match p with
    | .text t => t ≠ ""
    | _ => false

/-- Two neighbouring messages that become one. -/
def mergeable (last msg : ChatMessage) : Bool :=
  canMerge msg && canMerge last && decide (last.role = msg.role)

/-- The parts one after the other, texts separated by a blank line; model and usage of the later
message when it has them. -/
def mergeMessages (last msg : ChatMessage) : ChatMessage :=
  { last with
    parts := last.parts ++ (if hasText last && hasText msg then [.text "\n\n"] else []) ++ msg.parts
    model := msg.model <|> last.model
    usage := msg.usage <|> last.usage }

/-- The rest of a history after `last`, the last message written. -/
def mergeGo : ChatMessage → List ChatMessage → List ChatMessage
  | last, [] => [last]
  | last, msg :: rest =>
    if mergeable last msg then mergeGo (mergeMessages last msg) rest
    else last :: mergeGo msg rest

/-- Step 6: neighbouring user or assistant messages without calls become one. -/
def mergeAdjacentSameRole : List ChatMessage → List ChatMessage
  | [] => []
  | msg :: rest => mergeGo msg rest

/-! ## The recovery user message -/

/-- The user message of an empty history. -/
def recoveryEmpty : ChatMessage :=
  ChatMessage.userText
    "[CONTEXT RECOVERY] prior turns were dropped; continue from the latest request."

/-- The user message in front of a history without one. -/
def recoveryPrefix : ChatMessage :=
  ChatMessage.userText
    "[CONTEXT RECOVERY] earlier user turns were dropped to fit the context window; treat the following as prior work product and continue."

/-- Step 7: a history without a user message gets one at its front. -/
def ensureAtLeastOneUser (history : List ChatMessage) : List ChatMessage :=
  if history.any fun m => m.role = "user" then history
  else if history = [] then [recoveryEmpty]
  else recoveryPrefix :: history

/-! ## The passes in order -/

/-- `sanitize_history`. -/
def sanitizeHistory (history : List ChatMessage) : List ChatMessage :=
  ensureAtLeastOneUser (mergeAdjacentSameRole (closeInterruptedToolRounds
    (trimUnfulfilledTail (removeOrphanResults history))))

/-- `sanitize_paired`: orphan results and the unanswered tail are removed, each message together
with its id. -/
def sanitizePaired (pairs : List (Int × ChatMessage)) : List (Int × ChatMessage) :=
  let known := knownToolIds (pairs.map Prod.snd)
  let result := pairs.filter fun p => keepsResult known p.2
  result.rdropWhile fun p => unfulfilled (fulfilledIds (result.map Prod.snd)) p.2

/-! ## Which results are orphans -/

/-- The known ids are the declared ones. -/
lemma mem_knownToolIds {history : List ChatMessage} {id : String} :
    id ∈ knownToolIds history ↔ Declared history id := by
  simp [knownToolIds, Declared, and_assoc]

/-- The fulfilled ids are the answered ones. -/
lemma mem_fulfilledIds {history : List ChatMessage} {id : String} :
    id ∈ fulfilledIds history ↔ Answered history id := by
  simp [fulfilledIds, Answered, and_assoc]

/-- Every tool message answers a declared call. -/
def NoOrphanResult (history : List ChatMessage) : Prop :=
  ∀ m ∈ history, m.role = "tool" → ∃ id, m.toolCallId = some id ∧ Declared history id

/-- A result is kept if its call is known. -/
lemma keepsResult_eq_true {known : List String} {msg : ChatMessage} :
    keepsResult known msg = true ↔
      (msg.role = "tool" → ∃ id, msg.toolCallId = some id ∧ id ∈ known) := by
  unfold keepsResult
  by_cases ht : msg.role = "tool"
  · cases hid : msg.toolCallId <;> simp [ht]
  · simp [ht]

/-- Nothing is removed exactly when there is no orphan result. -/
lemma removeOrphanResults_eq_self {history : List ChatMessage} :
    removeOrphanResults history = history ↔ NoOrphanResult history := by
  rw [removeOrphanResults, List.filter_eq_self]
  simp only [keepsResult_eq_true, mem_knownToolIds]
  rfl

end MyClaw
