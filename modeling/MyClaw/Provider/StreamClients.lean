import MyClaw.Lib.Run
import MyClaw.Lib.Utf8
import MyClaw.Provider.StreamParsers

set_option autoImplicit false

/-!
# The stream loops of the protocol clients

What the four chat clients (`providers/protocols/`) send for the reply of a provider: the loop that all
of them have over the pieces of a body, with the decoder of `providers/infra.rs`, and what each does
with a line and at the end.

## Main definitions

* `utf8Push` — `Utf8StreamDecoder::push`.
* `ChatClient`, `ChatClient.loop` — what a client does with a line and at the end, and the
  loop.
* `openaiClient`, `responsesClient`, `anthropicClient`, `googleClient`.
* `ChatProtocol.events` — the events that are sent for a reply.
* `received` — the lines that have arrived when a body ends or breaks off.

## Main results

* `ChatClient.loop_eq` — the events depend only on the lines that arrive, not on the pieces.

## Implementation notes

A body that stays open is one that has not ended yet: its events are those of its lines.  A receiver
that is gone is not modelled, and neither are the logs.
-/

namespace MyClaw

/-! ## The decoder -/

/-- The character of a whole sequence. -/
def charOf : List UInt8 → Char
  | [a] => Char.ofNat a.toNat
  | [a, b] => Char.ofNat (a.toNat % 32 * 64 + b.toNat % 64)
  | [a, b, c] => Char.ofNat ((a.toNat % 16 * 64 + b.toNat % 64) * 64 + c.toNat % 64)
  | [a, b, c, d] =>
    Char.ofNat (((a.toNat % 8 * 64 + b.toNat % 64) * 64 + c.toNat % 64) * 64 + d.toNat % 64)
  | _ => '\uFFFD'

/-- The text of at most so many sequences, and the octets that wait for more. -/
def utf8PushUpTo : ℕ → List UInt8 → List Char × List UInt8
  | 0, buf => ([], buf)
  | _ + 1, [] => ([], [])
  | n + 1, b :: l =>
    let (sequence, rest, whole) := Utf8.chunk b l
    if whole then
      let (text, buf) := utf8PushUpTo n rest
      (charOf sequence :: text, buf)
    -- a sequence that breaks off at the end may still be completed; any other is skipped
    else if rest = [] ∧ (Utf8.tailRanges b).isSome then ([], b :: l)
    else utf8PushUpTo n rest

/-- `Utf8StreamDecoder::push`. -/
def utf8Push (buf bytes : List UInt8) : List Char × List UInt8 :=
  utf8PushUpTo (buf ++ bytes).length (buf ++ bytes)

/-! ## The loop -/

/-- The pieces of a body, or the error that ends it. -/
abbrev BodyItem := Except String (List UInt8)

/-- What a client does with a line, and when the body has ended. -/
structure ChatClient (σ : Type) where
  start : σ
  line : σ → List Char → σ × List StreamEvent
  finish : σ → List StreamEvent

namespace ChatClient

variable {σ : Type} (c : ChatClient σ)

/-- The state after a line. -/
def next (s : σ) (line : List Char) : σ := (c.line s line).1

/-- What is sent for the lines of a buffer. -/
def emitted : σ → List (List Char) → List StreamEvent
  | _, [] => []
  | s, line :: lines => (c.line s line).2 ++ emitted (c.next s line) lines

/-- The loop over the body, with the octets and the characters that wait for more. -/
def loop : σ → List UInt8 → List Char → List BodyItem → List StreamEvent
  | s, _, _, [] => c.finish s
  | _, _, _, .error message :: _ => [.error message]
  | s, buf, buffer, .ok bytes :: items =>
    let (text, buf) := utf8Push buf bytes
    let (lines, buffer) := Chars.cutLines (buffer ++ text)
    c.emitted s lines ++ loop (Run.exec c.next s lines) buf buffer items

/-- What is sent for lines that have arrived when the body ends, or breaks off with an error. -/
def eventsFrom (s : σ) (lines : List (List Char)) (broken : Option String) : List StreamEvent :=
  c.emitted s lines ++
    match broken with
    | some message => [.error message]
    | none => c.finish (Run.exec c.next s lines)

end ChatClient

/-- The lines that arrive until a body ends, and the error if it breaks off. -/
def receivedFrom : List UInt8 → List Char → List BodyItem → List (List Char) × Option String
  | _, _, [] => ([], none)
  | _, _, .error message :: _ => ([], some message)
  | buf, buffer, .ok bytes :: items =>
    let (text, buf) := utf8Push buf bytes
    let (lines, buffer) := Chars.cutLines (buffer ++ text)
    let (more, broken) := receivedFrom buf buffer items
    (lines ++ more, broken)

/-- The same from the beginning of a body. -/
def received (items : List BodyItem) : List (List Char) × Option String := receivedFrom [] [] items

namespace ChatClient

variable {σ : Type} (c : ChatClient σ)

lemma emitted_append (s : σ) (as bs : List (List Char)) :
    c.emitted s (as ++ bs) = c.emitted s as ++ c.emitted (Run.exec c.next s as) bs := by
  induction as generalizing s with
  | nil => rfl
  | cons line as ih => simp [emitted, ih]

/-- **The events depend on the lines that arrive** and on how the body ends. -/
theorem loop_eq (s : σ) (buf : List UInt8) (buffer : List Char) (items : List BodyItem) :
    c.loop s buf buffer items =
      c.eventsFrom s (receivedFrom buf buffer items).1 (receivedFrom buf buffer items).2 := by
  induction items generalizing s buf buffer with
  | nil => rfl
  | cons item items ih =>
    cases item with
    | error message => rfl
    | ok bytes =>
      simp only [loop, receivedFrom, ih, eventsFrom, emitted_append, Run.exec_append,
        List.append_assoc]

end ChatClient

/-! ## The four clients -/

/-- A start or a delta of a tool call. -/
def StreamEvent.isToolStartOrDelta : StreamEvent → Bool
  | .toolCallStart .. | .toolCallDelta .. => true
  | _ => false

/-- An event of a tool call. -/
def StreamEvent.isToolCall : StreamEvent → Bool
  | .toolCallStart .. | .toolCallDelta .. | .toolCallEnd .. => true
  | _ => false

/-- The locals of the loop of chat completions. -/
structure OpenaiState where
  sawToolCall : Bool := false
  sseStopReason : Option StopReason := none
  sawDoneSentinel : Bool := false
  toolIndexMap : List (ℕ × String) := []

/-- `resolve_stream_outcome`. -/
def resolveStreamOutcome (sseStopReason : Option StopReason) (sawToolCall : Bool) : StreamEvent :=
  let finalReason :=
    match sseStopReason with
    | some .toolUse => .toolUse
    | some r => if sawToolCall then .toolUse else r
    | none => if sawToolCall then .toolUse else .endTurn
  if finalReason = .toolUse ∧ !sawToolCall then
    .error (toolCallParseLossTag ++ ": provider reported finish_reason=tool_calls but no tool call " ++
      "could be parsed from the stream (SSE chunk parse failure — " ++
      "see the preceding WARN for the raw chunk dump)")
  else .done finalReason

/-- The client of chat completions; it keeps the `done` of a line for the end. -/
def openaiClient (env : StreamEnv) : ChatClient OpenaiState where
  start := {}
  line s line :=
    let (ids, events) := parseOpenaiSse env s.toolIndexMap line
    ({ sawToolCall := s.sawToolCall || events.any StreamEvent.isToolStartOrDelta
       sseStopReason := (events.filterMap doneOf).getLast?.or s.sseStopReason
       sawDoneSentinel := s.sawDoneSentinel || dataOf line = some doneSentinel
       toolIndexMap := ids },
      events.filter fun e => (doneOf e).isNone)
  finish s :=
    if s.sseStopReason.isSome || s.sawDoneSentinel then
      [resolveStreamOutcome s.sseStopReason s.sawToolCall]
    else
      [.error ("stream closed before completion (no finish_reason / [DONE]; " ++
        "likely upstream truncation)")]

/-- The locals of the loop of Responses. -/
structure ResponsesState where
  sawToolCall : Bool := false
  streamCompleted : Bool := false
  maps : ResponsesMaps := {}
  currentEventType : Option String := none

/-- What a line of Responses is. -/
inductive ResponsesLine
  | event (eventType : String)
  | blank
  | data (data : List Char)
  | other

/-- The kind of a line. -/
def responsesLine (line : List Char) : ResponsesLine :=
  let trimmed := trimChars line
  match Chars.stripPrefix "event:".toList trimmed with
  | some ev => .event (String.ofList (trimChars ev))
  | none =>
    if trimmed = [] then .blank
    else
      match dataOf line with
      | some data => if data = [] then .other else .data data
      | none => .other

/-- The client of Responses. -/
def responsesClient (env : StreamEnv) : ChatClient ResponsesState where
  start := {}
  line s line :=
    match responsesLine line with
    | .event eventType => ({ s with currentEventType := some eventType }, [])
    | .blank => ({ s with currentEventType := none }, [])
    | .other => (s, [])
    | .data data =>
      let (maps, events) := parseResponsesSse env s.maps (s.currentEventType.getD "") data
      ({ s with
          maps
          sawToolCall := s.sawToolCall || events.any StreamEvent.isToolCall
          streamCompleted := s.streamCompleted || !(events.filterMap doneOf).isEmpty },
        events)
  finish s :=
    if s.streamCompleted then []
    else if s.sawToolCall then [.done .toolUse]
    else [.error "responses stream closed before completion (no response.completed)"]

/-- The locals of the loop of Anthropic. -/
structure AnthropicState where
  maps : AnthropicMaps := {}
  sawTerminal : Bool := false

/-- The client of Anthropic. -/
def anthropicClient (env : StreamEnv) : ChatClient AnthropicState where
  start := {}
  line s line :=
    let (maps, events) := parseAnthropicSse env s.maps line
    ({ maps, sawTerminal := s.sawTerminal || !(events.filterMap doneOf).isEmpty }, events)
  finish s :=
    if s.sawTerminal then []
    else
      [.error ("Anthropic stream closed before completion (no message_stop; " ++
        "likely upstream truncation)")]

/-- The client of Google, which keeps `saw_terminal`. -/
def googleClient (env : StreamEnv) : ChatClient Bool where
  start := false
  line sawTerminal line :=
    let events := parseGoogleSse env line
    (sawTerminal || !(events.filterMap doneOf).isEmpty, events)
  finish sawTerminal :=
    if sawTerminal then []
    else
      [.error ("Google stream closed before completion (no finishReason; " ++
        "likely upstream truncation)")]

/-! ## The events of a reply -/

/-- The four protocols. -/
inductive ChatProtocol
  | chatCompletions
  | responses
  | anthropic
  | google
  deriving DecidableEq

/-- How a provider replies to the request. -/
inductive ChatReply
  | sendFails (message : String)
  | sendTimesOut
  /-- A status that is no success, with its text, and the body or nothing. -/
  | httpStatus (status : ℕ) (statusText : String) (body : List Char)
  | stream (items : List BodyItem)

/-- `parse_anthropic_error_body`. -/
def parseAnthropicErrorBody (env : StreamEnv) (body : List Char) : Option String := do
  let v ← env.fromStr body
  let err ← v.get "error"
  let msg ← err.strAt "message"
  some ((err.strAt "type").getD "error" ++ ": " ++ msg)

/-- `parse_google_error_body`. -/
def parseGoogleErrorBody (env : StreamEnv) (body : List Char) : Option String := do
  let v ← env.fromStr body
  let err ← v.get "error"
  let msg ← err.strAt "message"
  some ((err.strAt "status").getD "ERROR" ++ " (" ++ toString ((err.u64At "code").getD 0) ++ "): "
    ++ msg)

namespace ChatProtocol

/-- The message of a status that is no success. -/
def statusMessage (env : StreamEnv) (p : ChatProtocol) (statusText : String) (body : List Char) :
    String :=
  let plain := "HTTP " ++ statusText ++ ": " ++ String.ofList body
  match p with
  | .chatCompletions | .responses => plain
  | .anthropic => (parseAnthropicErrorBody env body).getD plain
  | .google => (parseGoogleErrorBody env body).getD plain

/-- What is sent for lines that have arrived when the body ends, or breaks off with an error. -/
def lineEvents (env : StreamEnv) (p : ChatProtocol) (lines : List (List Char))
    (broken : Option String) : List StreamEvent :=
  match p with
  | .chatCompletions => (openaiClient env).eventsFrom (openaiClient env).start lines broken
  | .responses => (responsesClient env).eventsFrom (responsesClient env).start lines broken
  | .anthropic => (anthropicClient env).eventsFrom (anthropicClient env).start lines broken
  | .google => (googleClient env).eventsFrom (googleClient env).start lines broken

/-- The loop of a client. -/
def streamEvents (env : StreamEnv) (p : ChatProtocol) (items : List BodyItem) : List StreamEvent :=
  match p with
  | .chatCompletions => (openaiClient env).loop (openaiClient env).start [] [] items
  | .responses => (responsesClient env).loop (responsesClient env).start [] [] items
  | .anthropic => (anthropicClient env).loop (anthropicClient env).start [] [] items
  | .google => (googleClient env).loop (googleClient env).start [] [] items

/-- The events that a client sends for a reply. -/
def events (env : StreamEnv) (p : ChatProtocol) : ChatReply → List StreamEvent
  | .sendFails message => [.error message]
  | .sendTimesOut => [.error "request timed out after 300s"]
  | .httpStatus status statusText body => [.httpError status (p.statusMessage env statusText body)]
  | .stream items => p.streamEvents env items

lemma streamEvents_eq (env : StreamEnv) (p : ChatProtocol) (items : List BodyItem) :
    p.streamEvents env items = p.lineEvents env (received items).1 (received items).2 := by
  cases p
  case chatCompletions => exact ChatClient.loop_eq _ _ _ _ _
  case responses => exact ChatClient.loop_eq _ _ _ _ _
  case anthropic => exact ChatClient.loop_eq _ _ _ _ _
  case google => exact ChatClient.loop_eq _ _ _ _ _

end ChatProtocol

end MyClaw
