import MyClaw.Lib.Chars
import MyClaw.Scheduler.Timing

set_option autoImplicit false

/-!
# The messages of an MCP server

The JSON-RPC messages that an MCP server sends (`mcp/protocol.rs`) and how a transport finds them in a
text or in a stream of events (the shared helpers of `mcp/transport/mod.rs`).

## Main definitions

* `JsonRpcResponse` — a message that was read as a response.
* `JsonRpcResponse.Answers` — it is the response to the request with a given id.
* `parseJsonrpcResponseText` — the message of a reply that is a text.
* `readFirstJsonrpcFromSse` — the message of a reply that is a stream of events.
* `sseMessages` — all messages of a stream of events.

## Main results

* `readFirstJsonrpcFromSse_eq` — a stream of events is read up to its first message.

## Implementation notes

Texts are lists of characters.  The JSON reader is a parameter.  A message that has a `method` is a
request or a notification; serde drops the member, so nothing in the source can look at it.
-/

namespace MyClaw

/-- A JSON value where a message has its id. -/
inductive JsonId
  /-- An integer of 64 bits without a sign. -/
  | num (n : ℕ)
  | str (s : String)
  /-- Any other value, as its text. -/
  | other (text : String)
  deriving DecidableEq

/-- `as_u64`. -/
def JsonId.asU64 : JsonId → Option ℕ
  | .num n => some n
  | _ => none

/-- `JsonRpcError`. -/
structure JsonRpcError where
  code : ℤ
  message : String
  data : Option String := none
  deriving DecidableEq

/-- `JsonRpcResponse`; the values are JSON texts.  The source has no field for `method`. -/
structure JsonRpcResponse where
  jsonrpc : String := "2.0"
  id : Option JsonId
  result : Option String := none
  error : Option JsonRpcError := none
  method : Option String := none
  deriving DecidableEq

/-- The message is a response, and to the request with the id `id`. -/
def JsonRpcResponse.Answers (m : JsonRpcResponse) (id : ℕ) : Prop :=
  m.method = none ∧ m.id = some (.num id)

instance (m : JsonRpcResponse) (id : ℕ) : Decidable (m.Answers id) :=
  inferInstanceAs (Decidable (_ ∧ _))

/-- The JSON reader: a text as a message, at once or by way of a JSON value. -/
structure McpEnv where
  fromStr : List Char → Option JsonRpcResponse
  fromValue : List Char → Option JsonRpcResponse

/-! ## A reply that is a text -/

/-- The text after `data:`, without the blank that may follow it. -/
def dataField (line : List Char) : Option (List Char) :=
  (Chars.stripPrefix "data:".toList line).map fun rest => (Chars.stripPrefix [' '] rest).getD rest

/-- One line of `extract_json_from_sse_text`: the data of the event so far, and of the last event. -/
def extractLine : List (List Char) × List (List Char) → List Char →
    List (List Char) × List (List Char)
  | (current, last), rawLine =>
    let line := ((rawLine.reverse.dropWhile (· = '\r')).reverse).dropWhile isWhiteSpace
    if line = [] then
      if current ≠ [] then ([], current) else (current, last)
    else if line.head? = some ':' then (current, last)
    else
      match dataField line with
      | some rest => (current ++ [rest], last)
      | none => (current, last)

/-- `extract_json_from_sse_text`. -/
def extractJsonFromSseText (respText : List Char) : List Char :=
  let text := respText.dropWhile (· = '\uFEFF')
  let (current, last) := (text.splitOn '\n').foldl extractLine ([], [])
  let last := if current ≠ [] then current else last
  if last = [] then trimChars text else trimChars (['\n'].intercalate last)

/-- `looks_like_sse_text`. -/
def looksLikeSseText (text : List Char) : Bool :=
  "data:".toList.isPrefixOf text || "event:".toList.isPrefixOf text ||
    decide ("\ndata:".toList <:+: text) || decide ("\nevent:".toList <:+: text)

/-- The JSON text of `parse_jsonrpc_response_text`. -/
def jsonText (respText : List Char) : List Char :=
  let trimmed := trimChars respText
  if looksLikeSseText trimmed then extractJsonFromSseText trimmed else trimmed

/-- `parse_jsonrpc_response_text`. -/
def parseJsonrpcResponseText (env : McpEnv) (respText : List Char) :
    Except String JsonRpcResponse :=
  if trimChars respText = [] then .error "MCP server returned no response"
  else
    match env.fromStr (jsonText respText) with
    | some m => .ok m
    | none => .error "invalid JSON-RPC response"

/-! ## A reply that is a stream of events -/

/-- The event that the lines so far belong to. -/
structure SseEvent where
  curEvent : Option (List Char) := none
  curId : Option (List Char) := none
  curData : List (List Char) := []
  deriving DecidableEq

/-- The name of an event. -/
def SseEvent.name (e : SseEvent) : List Char := e.curEvent.getD "message".toList

/-- The data of an event, trimmed. -/
def SseEvent.data (e : SseEvent) : List Char := trimChars (['\n'].intercalate e.curData)

/-- `eq_ignore_ascii_case`. -/
def eqIgnoreAsciiCase (a b : List Char) : Bool := a.map Char.toLower = b.map Char.toLower

/-- The event has the name of a message, not that of an endpoint or another one. -/
def SseEvent.isMessage (e : SseEvent) : Bool :=
  !eqIgnoreAsciiCase e.name "endpoint".toList && !eqIgnoreAsciiCase e.name "mcp-endpoint".toList &&
    eqIgnoreAsciiCase e.name "message".toList

/-- One line of a stream of events: the event so far, and the event that the line ends.  Only the
reader of the SSE transport keeps ids. -/
def SseEvent.line (keepsId : Bool) (e : SseEvent) (rawLine : List Char) :
    SseEvent × Option SseEvent :=
  let line := if rawLine.getLast? = some '\r' then rawLine.dropLast else rawLine
  if line = [] then
    if e = {} then (e, none) else ({}, some e)
  else if line.head? = some ':' then (e, none)
  else
    let e := ((Chars.stripPrefix "event:".toList line).map fun rest =>
      { e with curEvent := some (trimChars rest) }).getD e
    let e := ((dataField line).map fun rest => { e with curData := e.curData ++ [rest] }).getD e
    let e := if keepsId then
        ((Chars.stripPrefix "id:".toList line).map fun rest =>
          { e with curId := some (trimChars rest) }).getD e
      else e
    (e, none)

/-- The message that a reply of `read_first_jsonrpc_from_sse_response` has in one of its events. -/
def SseEvent.message (env : McpEnv) (e : SseEvent) : Option JsonRpcResponse :=
  if e.isMessage then
    if e.data = [] then none else env.fromStr (extractJsonFromSseText e.data)
  else none

/-- The loop of `read_first_jsonrpc_from_sse_response`, over the lines until the stream ends. -/
def readFirstFrom (env : McpEnv) : SseEvent → List (List Char) → Option JsonRpcResponse
  | _, [] => none
  | e, line :: lines =>
    let (e, ended) := e.line false line
    match ended.bind (SseEvent.message env) with
    | some m => some m
    | none => readFirstFrom env e lines

/-- `read_first_jsonrpc_from_sse_response`. -/
def readFirstJsonrpcFromSse (env : McpEnv) (lines : List (List Char)) : Option JsonRpcResponse :=
  readFirstFrom env {} lines

/-- The events of a stream. -/
def sseEvents : SseEvent → List (List Char) → List SseEvent
  | _, [] => []
  | e, line :: lines => (e.line false line).2.toList ++ sseEvents (e.line false line).1 lines

/-- The messages of a stream, in their order. -/
def sseMessages (env : McpEnv) (lines : List (List Char)) : List JsonRpcResponse :=
  (sseEvents {} lines).filterMap (SseEvent.message env)

/-- The loop reads up to the first message of the events that are left. -/
lemma readFirstFrom_eq (env : McpEnv) (e : SseEvent) (lines : List (List Char)) :
    readFirstFrom env e lines = ((sseEvents e lines).filterMap (SseEvent.message env)).head? := by
  induction lines generalizing e with
  | nil => rfl
  | cons line lines ih =>
    rw [readFirstFrom, sseEvents, List.filterMap_append]
    cases hended : (e.line false line).2 with
    | none => simpa [hended] using ih _
    | some ended =>
      cases hm : ended.message env with
      | none => simpa [hended, hm] using ih _
      | some m => simp [hended, hm]

/-- **A stream of events is read up to its first message**, whatever that message is. -/
theorem readFirstJsonrpcFromSse_eq (env : McpEnv) (lines : List (List Char)) :
    readFirstJsonrpcFromSse env lines = (sseMessages env lines).head? :=
  readFirstFrom_eq env {} lines

/-- A text is read as a message exactly when it is not blank and its JSON is that message. -/
lemma parseJsonrpcResponseText_eq_ok (env : McpEnv) (respText : List Char) (m : JsonRpcResponse) :
    parseJsonrpcResponseText env respText = .ok m ↔
      trimChars respText ≠ [] ∧ env.fromStr (jsonText respText) = some m := by
  unfold parseJsonrpcResponseText
  by_cases hblank : trimChars respText = []
  · simp [hblank]
  · cases h : env.fromStr (jsonText respText) <;> simp [hblank]

end MyClaw
