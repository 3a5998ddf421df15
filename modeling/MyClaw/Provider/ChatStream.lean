import MyClaw.Provider.ChatMessage

set_option autoImplicit false

/-!
# The events of a chat stream

The events that a provider streams (`providers/capability_chat.rs`) and the loop of `collect_stream`
(`agents/agent/stream_collect.rs`) that makes one response of them.  The display of the chunks and
the timeouts of the loop are left out: a timeout fails the turn.

## Main definitions

* `StreamEvent` — an event of a stream.
* `collectStream` — the response of a stream, up to its first terminal event.
-/

namespace MyClaw

/-- Why a stream ended. -/
inductive StopReason
  | endTurn
  | maxTokens
  | stopSequence
  | contentFilter
  | toolUse
  | timeout
  | contextOverflow
  | continue
  deriving DecidableEq

/-- Token usage of a response. -/
structure ChatUsage where
  inputTokens : Option ℕ := none
  outputTokens : Option ℕ := none
  cachedInputTokens : Option ℕ := none
  reasoningTokens : Option ℕ := none
  cacheWriteTokens : Option ℕ := none
  deriving DecidableEq

/-- An event of a chat stream. -/
inductive StreamEvent
  | delta (text : String)
  | thinking (text : String)
  | thinkingSignature (signature : String)
  | toolCallStart (id name initialArguments : String)
  | toolCallDelta (index : ℕ) (id name delta : String)
  | toolCallEnd (id name arguments : String)
  | usage (u : ChatUsage)
  | modelUsed (model : String)
  | done (reason : StopReason)
  | error (message : String)
  | httpError (status : ℕ) (message : String)
  deriving DecidableEq

namespace StreamEvent

/-- The events that carry an answer: text, reasoning and tool calls. -/
def isContent : StreamEvent → Bool
  | .delta _ | .thinking _ | .thinkingSignature _ | .toolCallStart .. | .toolCallDelta ..
  | .toolCallEnd .. => true
  | _ => false

/-- The two events that report a failure. -/
def isFailure : StreamEvent → Bool
  | .error _ | .httpError .. => true
  | _ => false

/-- The event that names the model of a stream. -/
def isAnnouncement : StreamEvent → Bool
  | .modelUsed _ => true
  | _ => false

/-- The text of a delta. -/
def deltaText : StreamEvent → String
  | .delta text => text
  | _ => ""

end StreamEvent

/-- The locals of the loop of `collect_stream`. -/
structure Collected where
  text : String := ""
  reasoningContent : Option String := none
  thinkingSignature : Option String := none
  toolCalls : List ToolCall := []
  toolCallEvents : ℕ := 0
  usage : Option ChatUsage := none
  actualModel : Option String := none
  deriving DecidableEq

/-- How `collect_stream` fails. -/
inductive CollectError
  | truncated
  | stream (message : String)
  | http (status : ℕ) (message : String)
  deriving DecidableEq

/-- A later usage report overwrites the counts that it has. -/
def ChatUsage.merge (old new : ChatUsage) : ChatUsage :=
  { old with
    inputTokens := new.inputTokens.or old.inputTokens
    outputTokens := new.outputTokens.or old.outputTokens
    cachedInputTokens := new.cachedInputTokens.or old.cachedInputTokens }

/-- A delta of the call at a place; missing calls before it are filled with empty ones. -/
def addCallDelta (calls : List ToolCall) (index : ℕ) (id name delta : String) : List ToolCall :=
  let empty : ToolCall := ⟨"", "", ""⟩
  (calls ++ List.replicate (index + 1 - calls.length) empty).modify index fun call =>
    { id := if id = "" then call.id else id
      name := if name = "" then call.name else name
      arguments := call.arguments ++ delta }

/-- The end of a call: the first call with the id gets its final name and arguments. -/
def endCall (id name arguments : String) : List ToolCall → List ToolCall
  | [] => []
  | call :: calls =>
    if call.id = id then { call with name, arguments } :: calls
    else call :: endCall id name arguments calls

/-- What the loop does with an event that does not end it. -/
def Collected.absorb (c : Collected) : StreamEvent → Collected
  | .delta text => { c with text := c.text ++ text }
  | .thinking text =>
    if text = "" then c
    else { c with reasoningContent := some (c.reasoningContent.getD "" ++ text) }
  | .thinkingSignature signature => { c with thinkingSignature := some signature }
  | .toolCallStart id name initialArguments =>
    { c with
      toolCallEvents := c.toolCallEvents + 1
      toolCalls := c.toolCalls ++ [⟨id, name, initialArguments⟩] }
  | .toolCallDelta index id name delta =>
    { c with
      toolCallEvents := c.toolCallEvents + 1
      toolCalls := addCallDelta c.toolCalls index id name delta }
  | .toolCallEnd id name arguments =>
    { c with
      toolCallEvents := c.toolCallEvents + 1
      toolCalls := endCall id name arguments c.toolCalls }
  | .usage u => { c with usage := some ((c.usage.map (·.merge u)).getD u) }
  -- The last announcement wins.
  | .modelUsed model => { c with actualModel := some model }
  | .done _ | .error _ | .httpError .. => c

/-- The loop of `collect_stream`. -/
def collectStream (c : Collected) : List StreamEvent → Except CollectError (Collected × StopReason)
  | [] => .error .truncated
  | .done reason :: _ => .ok (c, reason)
  | .error message :: _ => .error (.stream message)
  | .httpError status message :: _ => .error (.http status message)
  | e :: es => collectStream (c.absorb e) es

lemma text_absorb (c : Collected) (e : StreamEvent) :
    (c.absorb e).text = c.text ++ e.deltaText := by
  cases e with
  | thinking text =>
    by_cases h : text = "" <;> simp [Collected.absorb, StreamEvent.deltaText, h]
  | delta text => rfl
  | _ => exact (String.append_empty).symm

end MyClaw
