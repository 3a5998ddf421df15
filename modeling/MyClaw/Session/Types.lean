import MyClaw.Storage.JsonFile

set_option autoImplicit false

/-!
# Sessions in memory

The fields of `Session` (`agents/session/types.rs`) that hold the conversation, and the methods
that change them.  Every message has a slot in `message_ids`, which is 0 until the message is
persisted and for a compaction summary.

## Main definitions

* `Session` — the conversation part of a session.
* `Session.addAssistantWithTools`, `addToolResult` — appends.
* `Session.stripTrailingToolCalls` — calls that were not executed, removed in memory.
* `Session.applyCompaction` — a range replaced by its summary.
* `Session.persistLast` — the last message written to the backend.
-/

namespace MyClaw

/-- An unanswered `sessions_yield` call that the next event is delivered to. -/
structure PendingYield where
  toolCallId : String
  /-- The framework made the call, not the model. -/
  implicit : Bool
  deriving DecidableEq

/-- What the last compaction recorded. -/
structure SummaryMetadata where
  version : Nat
  tokenEstimate : Nat
  upToMessage : Int
  deriving DecidableEq

/-- The conversation part of a session. -/
structure Session where
  history : List ChatMessage := []
  messageIds : List Int := []
  compactVersion : Nat := 0
  summaryMetadata : Option SummaryMetadata := none
  incompleteTurn : Bool := false
  pendingYield : Option PendingYield := none
  deriving DecidableEq

/-- A character that `str::trim` removes: Unicode white space. -/
def isWhiteSpace (c : Char) : Bool :=
  let n := c.toNat
  (0x09 ≤ n && n ≤ 0x0D) || n == 0x20 || n == 0x85 || n == 0xA0 || n == 0x1680 ||
    (0x2000 ≤ n && n ≤ 0x200A) || n == 0x2028 || n == 0x2029 || n == 0x202F || n == 0x205F ||
    n == 0x3000

/-- `str::trim`: the text without the white space around it. -/
def trimChars (text : List Char) : List Char :=
  ((text.dropWhile isWhiteSpace).reverse.dropWhile isWhiteSpace).reverse

/-- A trimmed text has no other characters. -/
lemma trimChars_subset (line : List Char) : trimChars line ⊆ line := by
  intro c hc
  unfold trimChars at hc
  have hback := (List.dropWhile_suffix isWhiteSpace).subset (List.mem_reverse.1 hc)
  exact (List.dropWhile_suffix isWhiteSpace).subset (List.mem_reverse.1 hback)

/-- `str::parse` of an unsigned integer that is `max` at most. -/
def parseUnsigned (max : Nat) (text : List Char) : Option Nat :=
  let digits := if text.head? = some '+' then text.tail else text
  if digits = [] ∨ digits.any (fun c => !c.isDigit) then none
  else
    let n := digits.foldl (fun acc c => 10 * acc + (c.toNat - '0'.toNat)) 0
    if n ≤ max then some n else none

/-- `text.trim().is_empty()`. -/
def isBlank (text : String) : Bool := text.toList.all isWhiteSpace

/-- A tool result message. -/
def toolResult (toolCallId : String) (name : Option String) (content : String)
    (isError : Bool) : ChatMessage :=
  { ChatMessage.text "tool" content with
    toolCallId := some toolCallId, name := name, isError := some isError }

@[simp] lemma role_toolResult (id : String) (n : Option String) (c : String) (e : Bool) :
    (toolResult id n c e).role = "tool" := rfl

@[simp] lemma toolCallId_toolResult (id : String) (n : Option String) (c : String) (e : Bool) :
    (toolResult id n c e).toolCallId = some id := rfl

/-- The thinking block in front of an assistant message: the reasoning with its signature, or an
empty block that carries a signature alone. -/
def thinkingParts : Option String → Option String → List ContentPart
  | some thinking, signature => [.thinking thinking signature]
  | none, some sig => [.thinking "" (some sig)]
  | none, none => []

namespace Session

/-- A message at the end, with an id slot that is not assigned yet. -/
def push (s : Session) (msg : ChatMessage) : Session :=
  { s with history := s.history ++ [msg], messageIds := s.messageIds ++ [0] }

/-- `add_assistant`: a blank text is not added. -/
def addAssistant (s : Session) (text : String) : Session :=
  if isBlank text then s else s.push (ChatMessage.assistantText text)

/-- The assistant message of a response with tool calls, as the session keeps it. -/
def assistantWithTools (text : String) (toolCalls : List ToolCall)
    (thinking thinkingSignature model : Option String) (usage : Option ChatMessageUsage) :
    ChatMessage :=
  let msg := ChatMessage.assistantText text
  { msg with
    parts := thinkingParts thinking thinkingSignature ++ msg.parts
    toolCalls := some toolCalls, model := model, usage := usage }

/-- `add_assistant_with_tools`: skipped only when the text is blank and there are no calls. -/
def addAssistantWithTools (s : Session) (text : String) (toolCalls : List ToolCall)
    (thinking thinkingSignature model : Option String) (usage : Option ChatMessageUsage) :
    Session :=
  if isBlank text && toolCalls.isEmpty then s
  else s.push (assistantWithTools text toolCalls thinking thinkingSignature model usage)

/-- `add_tool_result`. -/
def addToolResult (s : Session) (toolCallId name content : String) (isError : Bool) : Session :=
  s.push (toolResult toolCallId (some name) content isError)

/-- The calls of the last assistant message, in a list of messages from the last to the first,
without the last `count` of them. -/
def stripReversed (count : Nat) : List ChatMessage → List ChatMessage
  | [] => []
  | msg :: rest =>
    if msg.role = "assistant" then
      { msg with toolCalls := msg.toolCalls.map fun calls => calls.take (calls.length - count) } ::
        rest
    else msg :: stripReversed count rest

/-- `strip_trailing_tool_calls`: the last `count` calls of the last assistant message are removed,
in memory only. -/
def stripTrailingToolCalls (s : Session) (count : Nat) : Session :=
  if count = 0 then s
  else { s with history := (stripReversed count s.history.reverse).reverse }

/-- `apply_compaction`: `history[start..end]` is replaced by the summary, whose id is 0. -/
def applyCompaction (s : Session) (compactStart compactEnd : Nat) (summaryMsg : ChatMessage)
    (version : Nat) (upToMessage : Int) (summaryTokens : Nat) : Session :=
  { s with
    history := s.history.take compactStart ++ summaryMsg :: s.history.drop compactEnd
    messageIds := s.messageIds.take compactStart ++ 0 :: s.messageIds.drop compactEnd
    compactVersion := version
    summaryMetadata := some
      { version := version, tokenEstimate := summaryTokens, upToMessage := upToMessage } }

/-- The last element of a list is replaced. -/
def setLast {α : Type*} (l : List α) (a : α) : List α := if l = [] then [] else l.dropLast ++ [a]

/-- `persist_last` with the hook of the JSON-file backend: the last message is appended to the
file, and the returned id goes to its slot. -/
def persistLast (J : Serde) (d : SessionDir) (s : Session) : SessionDir × Session :=
  match s.history.getLast? with
  | none => (d, s)
  | some msg =>
    match d.appendMessage J msg with
    | none => (d, s)
    | some (d', id) => (d', { s with messageIds := setLast s.messageIds id })

/-- `insert_implicit_yield` with a fresh call id: an assistant message without text that makes
one `sessions_yield` call, persisted. -/
def insertImplicitYield (J : Serde) (d : SessionDir) (s : Session) (toolCallId : String) :
    SessionDir × Session :=
  let call : ToolCall := { id := toolCallId, name := "sessions_yield", arguments := "\x7b\x7d" }
  let (d, s) := persistLast J d (s.addAssistantWithTools "" [call] none none none none)
  (d, { s with pendingYield := some { toolCallId := toolCallId, implicit := true } })

@[simp] lemma history_push (s : Session) (msg : ChatMessage) :
    (s.push msg).history = s.history ++ [msg] := rfl

/-- With calls the reply is pushed as one message. -/
lemma addAssistantWithTools_of_ne_nil (s : Session) (text : String) {toolCalls : List ToolCall}
    (h : toolCalls ≠ []) (thinking signature model : Option String)
    (usage : Option ChatMessageUsage) :
    s.addAssistantWithTools text toolCalls thinking signature model usage =
      s.push (assistantWithTools text toolCalls thinking signature model usage) := by
  have hne : toolCalls.isEmpty = false := by simpa using h
  simp [addAssistantWithTools, hne]

end Session

end MyClaw
