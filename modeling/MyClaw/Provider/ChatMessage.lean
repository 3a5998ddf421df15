import Mathlib.Data.List.Basic

set_option autoImplicit false

/-!
# Chat messages

The message type of the provider layer (`providers/capability_chat.rs`): what a session keeps in
memory, what the JSON-file backend writes as one line of `history.jsonl`, and what an LLM request
carries.

## Main definitions

* `ChatMessage` — a message, with the tool calls it declares or the call it answers.
* `ChatMessage.callIds` — the ids of the tool calls that a message declares.
* `ChatMessage.textContent` — the text parts, joined.
-/

namespace MyClaw

/-- One segment of a message's content. -/
inductive ContentPart
  | text (text : String)
  | file (path : String) (mimeType name : Option String) (sizeBytes : Option Nat)
  | thinking (thinking : String) (signature : Option String)
  deriving DecidableEq

/-- The text of a `Text` part. -/
def ContentPart.text? : ContentPart → Option String
  | .text t => some t
  | _ => none

/-- A tool call of an assistant message; `arguments` is a JSON text. -/
structure ToolCall where
  id : String
  name : String
  arguments : String
  deriving DecidableEq

/-- The usage that is kept with an assistant message. -/
structure ChatMessageUsage where
  provider : Option String := none
  model : Option String := none
  inputTokens : Option Nat := none
  cachedInputTokens : Option Nat := none
  outputTokens : Option Nat := none
  reasoningTokens : Option Nat := none
  cacheWriteTokens : Option Nat := none
  stopReason : Option String := none
  deriving DecidableEq

/-- A chat message. The role is a plain string, as in the source. -/
structure ChatMessage where
  role : String
  parts : List ContentPart
  name : Option String := none
  toolCallId : Option String := none
  toolCalls : Option (List ToolCall) := none
  isError : Option Bool := none
  model : Option String := none
  usage : Option ChatMessageUsage := none
  deriving DecidableEq

namespace ChatMessage

/-- A message of one text part. -/
def text (role text : String) : ChatMessage := { role := role, parts := [.text text] }

/-- `ChatMessage::user_text`. -/
def userText (t : String) : ChatMessage := text "user" t

/-- `ChatMessage::assistant_text`. -/
def assistantText (t : String) : ChatMessage := text "assistant" t

/-- `ChatMessage::system_text`. -/
def systemText (t : String) : ChatMessage := text "system" t

/-- The texts of the text parts, joined. -/
def textContent (m : ChatMessage) : String := String.join (m.parts.filterMap ContentPart.text?)

/-- The tool calls of a message, none when the field is absent. -/
def calls (m : ChatMessage) : List ToolCall := m.toolCalls.getD []

/-- The ids of the tool calls that a message declares. -/
def callIds (m : ChatMessage) : List String := m.calls.map (·.id)

@[simp] lemma role_text (r t : String) : (text r t).role = r := rfl

/-- A compaction summary written back as a user message keeps its text. -/
@[simp] lemma textContent_text (r t : String) : (text r t).textContent = t := by
  simp [text, textContent, ContentPart.text?, String.join]

end ChatMessage

end MyClaw
