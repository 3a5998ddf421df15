import MyClaw.Lib.Chars
import MyClaw.Lib.Json
import MyClaw.Provider.ChatStream
import MyClaw.Provider.ErrorClass
import MyClaw.Scheduler.Timing

set_option autoImplicit false

/-!
# The parsers of the provider streams

What each of the four protocols makes of a line of its stream (`parse_openai_sse`,
`parse_responses_sse`, `parse_anthropic_sse` and `parse_google_sse` under `providers/protocols/`).

## Main definitions

* `parseOpenaiSse`, `parseResponsesSse`, `parseAnthropicSse`,
  `parseGoogleSse` — the events of a line, and what the parser keeps.
* `openaiFinishes`, `responsesFinishes`, `anthropicFinishes`,
  `googleFinishes` — the line has the end marker of its protocol.

## Main results

* `parseGoogleSse_shape`, `parseAnthropicSse_shape`,
  `parseResponsesSse_shape` — at most the last event of a line ends the stream, and it is `done`
  exactly when the line has the end marker.
* `parseOpenaiSse_done_isEmpty`, `not_isFailure_of_mem_parseOpenaiSse` — the same for the
  lines of chat completions, which may have several choices.

## Implementation notes

Lines are lists of characters.  The JSON reader, typed for the chunks of chat completions, and the JSON
text of a value are parameters.  The maps of the parsers are lists of pairs, the newest first.
-/

namespace MyClaw

/-! ## The lines and the maps -/

/-- `FuncDelta`. -/
structure FuncDelta where
  name : Option String := none
  arguments : Option String := none

/-- `TcDelta`. -/
structure TcDelta where
  index : ℕ
  id : Option String := none
  function : Option FuncDelta := none

/-- `Delta`. -/
structure ChunkDelta where
  content : Option String := none
  reasoningContent : Option String := none
  toolCalls : Option (List TcDelta) := none

/-- `Choice`. -/
structure ChunkChoice where
  delta : ChunkDelta := {}
  finishReason : Option String := none

/-- `ChunkUsage`; the details hold the cached tokens. -/
structure ChunkUsage where
  promptTokens : Option ℕ := none
  completionTokens : Option ℕ := none
  promptTokensDetails : Option (Option ℕ) := none

/-- `Chunk`. -/
structure OpenaiChunk where
  choices : List ChunkChoice := []
  usage : Option ChunkUsage := none

/-- The JSON library. -/
structure StreamEnv where
  fromStr : List Char → Option JsonValue
  chunkFromStr : List Char → Option OpenaiChunk
  toText : JsonValue → String

/-- What follows `data:` in a line, trimmed.  A blank line and a comment do not begin so. -/
def dataOf (line : List Char) : Option (List Char) :=
  (Chars.stripPrefix "data:".toList (trimChars line)).map trimChars

/-- The sentinel at the end of a stream of chat completions. -/
def doneSentinel : List Char := "[DONE]".toList

/-- The data of a line, if it is not the sentinel. -/
def payloadOf (line : List Char) : Option (List Char) :=
  (dataOf line).filter (· ≠ doneSentinel)

/-- A map with one more entry. -/
def mapInsert {α : Type} (k : ℕ) (v : α) (m : List (ℕ × α)) : List (ℕ × α) :=
  (k, v) :: m.filter (·.1 ≠ k)

/-- `is_context_overflow_reason`. -/
def isContextOverflowReason (reason : String) : Bool :=
  let r := toAsciiLowercase reason
  strContains r "context" &&
    (strContains r "exceed" || strContains r "window" || strContains r "overflow")

/-! ## Chat completions -/

/-- The stop reason of a `finish_reason`. -/
def openaiStopReason (r : String) : StopReason :=
  if r = "stop" then .endTurn
  else if r = "length" then .maxTokens
  else if r = "content_filter" ∨ r = "sensitive" then .contentFilter
  else if r = "tool_calls" then .toolUse
  else if isContextOverflowReason r then .contextOverflow
  else .endTurn

/-- One tool call of a chunk, with the ids that the indices have. -/
def parseOpenaiToolCall (ids : List (ℕ × String)) (tc : TcDelta) :
    List (ℕ × String) × List StreamEvent :=
  let id := tc.id.getD ""
  let name := tc.function.bind FuncDelta.name
  let args := (tc.function.bind FuncDelta.arguments).getD ""
  if id ≠ "" ∧ name.isSome then
    (mapInsert tc.index id ids, [.toolCallStart id (name.getD "") args])
  else if args ≠ "" then
    if id = "" then
      (ids, [.toolCallDelta tc.index ((ids.lookup tc.index).getD "") (name.getD "") args])
    else (mapInsert tc.index id ids, [.toolCallDelta tc.index id (name.getD "") args])
  else (ids, [])

/-- The tool calls of a choice. -/
def parseOpenaiToolCalls : List (ℕ × String) → List TcDelta → List (ℕ × String) × List StreamEvent
  | ids, [] => (ids, [])
  | ids, tc :: tcs =>
    let (ids, events) := parseOpenaiToolCall ids tc
    let (ids, more) := parseOpenaiToolCalls ids tcs
    (ids, events ++ more)

/-- The text and the reasoning of a choice. -/
def openaiText (delta : ChunkDelta) : List StreamEvent :=
  (match delta.content with
    | some text => if text = "" then [] else [.delta text]
    | none => []) ++
  match delta.reasoningContent with
  | some text => if text = "" then [] else [.thinking text]
  | none => []

/-- One choice of a chunk; its text is skipped if it has tool events. -/
def parseOpenaiChoice (ids : List (ℕ × String)) (choice : ChunkChoice) :
    List (ℕ × String) × List StreamEvent :=
  let (ids, calls) := parseOpenaiToolCalls ids (choice.delta.toolCalls.getD [])
  (ids, calls ++ (if calls = [] then openaiText choice.delta else []) ++
    (choice.finishReason.map fun r => StreamEvent.done (openaiStopReason r)).toList)

/-- The choices of a chunk. -/
def parseOpenaiChoices :
    List (ℕ × String) → List ChunkChoice → List (ℕ × String) × List StreamEvent
  | ids, [] => (ids, [])
  | ids, choice :: choices =>
    let (ids, events) := parseOpenaiChoice ids choice
    let (ids, more) := parseOpenaiChoices ids choices
    (ids, events ++ more)

/-- The usage report of a chunk without choices. -/
def ChunkUsage.event (u : ChunkUsage) : StreamEvent :=
  .usage
    { inputTokens := u.promptTokens
      outputTokens := u.completionTokens
      cachedInputTokens := u.promptTokensDetails.bind id }

/-- `parse_openai_sse`. -/
def parseOpenaiSse (env : StreamEnv) (ids : List (ℕ × String)) (line : List Char) :
    List (ℕ × String) × List StreamEvent :=
  match (payloadOf line).bind env.chunkFromStr with
  | none => (ids, [])
  | some chunk =>
    if chunk.choices = [] then (ids, (chunk.usage.map ChunkUsage.event).toList)
    else parseOpenaiChoices ids chunk.choices

/-- The line has a `finish_reason`. -/
def openaiFinishes (env : StreamEnv) (line : List Char) : Bool :=
  match (payloadOf line).bind env.chunkFromStr with
  | none => false
  | some chunk => chunk.choices.any fun choice => choice.finishReason.isSome

/-! ## Responses -/

/-- What the parser of Responses keeps: the call id and the place of each output index. -/
structure ResponsesMaps where
  indexToCallId : List (ℕ × String) := []
  indexToToolIdx : List (ℕ × ℕ) := []

/-- The item of an event, if it is a function call. -/
def functionCallItem (value : JsonValue) : Option JsonValue :=
  (value.get "item").filter fun item => item.strAt "type" = some "function_call"

/-- The usage report of a response. -/
def responsesUsage (usage : JsonValue) : StreamEvent :=
  .usage
    { inputTokens := (usage.u64At "input_tokens").or (usage.u64At "prompt_tokens")
      outputTokens := (usage.u64At "output_tokens").or (usage.u64At "completion_tokens")
      cachedInputTokens := ((usage.pointer ["input_tokens_details", "cached_tokens"]).or
        (usage.pointer ["prompt_tokens_details", "cached_tokens"])).bind JsonValue.asU64
      reasoningTokens := ((usage.pointer ["output_tokens_details", "reasoning_tokens"]).or
        (usage.pointer ["completion_tokens_details", "reasoning_tokens"])).bind JsonValue.asU64 }

/-- A response that is complete calls a function. -/
def hasFunctionCall (value : JsonValue) : Bool :=
  (((value.pointer ["response", "output"]).bind JsonValue.asArray).getD []).any fun item =>
    item.strAt "type" = some "function_call"

/-- The stop reason of a response that is incomplete. -/
def incompleteReason (value : JsonValue) : StopReason :=
  match (value.pointer ["response", "incomplete_details", "reason"]).bind JsonValue.asStr with
  | some r =>
    if r = "max_output_tokens" ∨ r = "max_tokens" then .maxTokens
    else if r = "content_filter" then .contentFilter
    else .maxTokens
  | none => .maxTokens

/-- A delta of text of an event, unless it is empty. -/
def textDelta (make : String → StreamEvent) (value : JsonValue) : List StreamEvent :=
  match value.strAt "delta" with
  | some delta => if delta = "" then [] else [make delta]
  | none => []

/-- `parse_responses_sse`. -/
def parseResponsesSse (env : StreamEnv) (maps : ResponsesMaps) (eventType : String)
    (data : List Char) : ResponsesMaps × List StreamEvent :=
  match env.fromStr data with
  | none => (maps, [])
  | some value =>
    if eventType = "response.output_text.delta" then (maps, textDelta .delta value)
    else if eventType = "response.reasoning_summary_text.delta" then (maps, textDelta .thinking value)
    else if eventType = "response.output_item.added" then
      match functionCallItem value with
      | none => (maps, [])
      | some item =>
        let callId := (item.strAt "call_id").getD ""
        let outputIndex := (value.u64At "output_index").getD 0
        ({ indexToCallId := mapInsert outputIndex callId maps.indexToCallId
           indexToToolIdx := mapInsert outputIndex maps.indexToToolIdx.length maps.indexToToolIdx },
          [.toolCallStart callId ((item.strAt "name").getD "") ""])
    else if eventType = "response.function_call_arguments.delta" then
      let delta := (value.strAt "delta").getD ""
      let outputIndex := (value.u64At "output_index").getD 0
      if delta = "" then (maps, [])
      else (maps, [.toolCallDelta ((maps.indexToToolIdx.lookup outputIndex).getD 0)
        ((maps.indexToCallId.lookup outputIndex).getD "") "" delta])
    else if eventType = "response.output_item.done" then
      match functionCallItem value with
      | none => (maps, [])
      | some item =>
        (maps, [.toolCallEnd ((item.strAt "call_id").getD "") ((item.strAt "name").getD "")
          ((item.strAt "arguments").getD "\x7b\x7d")])
    else if eventType = "response.completed" then
      (maps, ((value.pointer ["response", "usage"]).map responsesUsage).toList ++
        [.done (if hasFunctionCall value then .toolUse else .endTurn)])
    else if eventType = "response.incomplete" then (maps, [.done (incompleteReason value)])
    else if eventType = "response.failed" ∨ eventType = "response.error" then
      (maps, [.error (((value.pointer ["error", "message"]).bind JsonValue.asStr).getD
        "responses API returned an error")])
    else (maps, [])

/-- The data has the end marker of a response. -/
def responsesFinishes (env : StreamEnv) (eventType : String) (data : List Char) : Bool :=
  (env.fromStr data).isSome &&
    (eventType = "response.completed" || eventType = "response.incomplete")

/-- The data reports that the response has failed. -/
def responsesFails (env : StreamEnv) (eventType : String) (data : List Char) : Bool :=
  (env.fromStr data).isSome && (eventType = "response.failed" || eventType = "response.error")

/-! ## Anthropic -/

/-- What the parser of Anthropic keeps: the id and name of the call in each block, how many calls
there were, and the place of the call in each block. -/
structure AnthropicMaps where
  toolIndexMap : List (ℕ × String × String) := []
  nextToolIndex : ℕ := 0
  anthropicToToolIndex : List (ℕ × ℕ) := []

/-- The stop reason of a `stop_reason`. -/
def anthropicStopReason (r : String) : StopReason :=
  if r = "end_turn" then .endTurn
  else if r = "max_tokens" then .maxTokens
  else if r = "tool_use" then .toolUse
  else if r = "content_filter" then .contentFilter
  else if isContextOverflowReason r then .contextOverflow
  else .endTurn

/-- `content_block_start`: a block that calls a tool. -/
def anthropicBlockStart (maps : AnthropicMaps) (evt : JsonValue) :
    AnthropicMaps × List StreamEvent :=
  match evt.u64At "index", evt.get "content_block" with
  | some index, some cb =>
    let id := (cb.strAt "id").getD ""
    let name := (cb.strAt "name").getD ""
    if cb.strAt "type" = some "tool_use" ∧ id ≠ "" ∧ name ≠ "" then
      ({ toolIndexMap := mapInsert index (id, name) maps.toolIndexMap
         nextToolIndex := maps.nextToolIndex + 1
         anthropicToToolIndex := mapInsert index maps.nextToolIndex maps.anthropicToToolIndex },
        [.toolCallStart id name ""])
    else (maps, [])
  | _, _ => (maps, [])

/-- A text of a block, unless it is empty. -/
def blockText (make : String → StreamEvent) (key : String) (delta : JsonValue) :
    List StreamEvent :=
  let text := (delta.strAt key).getD ""
  if text = "" then [] else [make text]

/-- `content_block_delta`. -/
def anthropicBlockDelta (maps : AnthropicMaps) (evt : JsonValue) : List StreamEvent :=
  match evt.get "delta" with
  | none => []
  | some delta =>
    let kind := (delta.strAt "type").getD ""
    if kind = "text_delta" then blockText .delta "text" delta
    else if kind = "thinking_delta" then blockText .thinking "thinking" delta
    else if kind = "signature_delta" then blockText .thinkingSignature "signature" delta
    else if kind = "input_json_delta" then
      match (evt.u64At "index").bind fun i => (maps.toolIndexMap.lookup i).map (i, ·) with
      | none => []
      | some (index, id, _) =>
        [.toolCallDelta ((maps.anthropicToToolIndex.lookup index).getD (index % 2 ^ 32)) id ""
          ((delta.strAt "partial_json").getD "")]
    else []

/-- The usage report of a message. -/
def anthropicUsage (evt : JsonValue) : List StreamEvent :=
  ((((evt.get "message").bind (JsonValue.get "usage")).or (evt.get "usage")).map fun usage =>
    StreamEvent.usage
      { inputTokens := usage.u64At "input_tokens"
        outputTokens := usage.u64At "output_tokens"
        cachedInputTokens := usage.u64At "cache_read_input_tokens"
        cacheWriteTokens := usage.u64At "cache_creation_input_tokens" }).toList

/-- The `stop_reason` of a `message_delta`. -/
def anthropicStop (evt : JsonValue) : Option String :=
  (evt.get "delta").bind (JsonValue.strAt "stop_reason")

/-- `parse_anthropic_sse`. -/
def parseAnthropicSse (env : StreamEnv) (maps : AnthropicMaps) (line : List Char) :
    AnthropicMaps × List StreamEvent :=
  match (payloadOf line).bind env.fromStr with
  | none => (maps, [])
  | some evt =>
    match evt.strAt "type" with
    | none => (maps, [])
    | some ty =>
      if ty = "content_block_start" then anthropicBlockStart maps evt
      else if ty = "content_block_delta" then (maps, anthropicBlockDelta maps evt)
      else if ty = "message_start" then (maps, anthropicUsage evt)
      else if ty = "message_delta" then
        (maps, anthropicUsage evt ++
          ((anthropicStop evt).map fun r => StreamEvent.done (anthropicStopReason r)).toList)
      else if ty = "message_stop" then (maps, [.done .endTurn])
      else (maps, [])

/-- The line has `message_stop` or a `stop_reason`. -/
def anthropicFinishes (env : StreamEnv) (line : List Char) : Bool :=
  match (payloadOf line).bind env.fromStr with
  | none => false
  | some evt =>
    evt.strAt "type" = some "message_stop" ||
      (evt.strAt "type" = some "message_delta" && (anthropicStop evt).isSome)

/-! ## Google -/

/-- The stop reason of a `finishReason`. -/
def googleStopReason (r : String) : StopReason :=
  if r = "STOP" then .endTurn
  else if r = "MAX_TOKENS" then .maxTokens
  else if r = "SAFETY" ∨ r = "RECITATION" then .contentFilter
  else if isContextOverflowReason r then .contextOverflow
  else .endTurn

/-- The usage report of a chunk. -/
def googleUsage (evt : JsonValue) : List StreamEvent :=
  ((evt.get "usageMetadata").map fun usage =>
    StreamEvent.usage
      { inputTokens := usage.u64At "promptTokenCount"
        outputTokens := usage.u64At "candidatesTokenCount"
        cachedInputTokens := usage.u64At "cachedContentTokenCount"
        reasoningTokens := usage.u64At "thoughtsTokenCount" }).toList

/-- The signature that a part carries. -/
def googleSignature (part : JsonValue) : List StreamEvent :=
  ((part.strAt "thoughtSignature").map StreamEvent.thinkingSignature).toList

/-- The text of a part. -/
def googleText (part : JsonValue) : List StreamEvent :=
  match part.strAt "text" with
  | none => []
  | some text =>
    if text = "" then []
    else if ((part.get "thought").bind JsonValue.asBool).getD false then
      .thinking text :: googleSignature part
    else [.delta text]

/-- The id that is made up for a call: the API has none. -/
def googleCallId (name : String) : String := "google_" ++ name

/-- The arguments of a call, as JSON. -/
def googleArgs (env : StreamEnv) (fc : JsonValue) : String :=
  match (fc.get "args").getD .null with
  | .null => "\x7b\x7d"
  | args => env.toText args

/-- The function call of a part. -/
def googleCall (env : StreamEnv) (part : JsonValue) : List StreamEvent :=
  match part.get "functionCall" with
  | none => []
  | some fc =>
    let name := (fc.strAt "name").getD ""
    (if name = "" then []
      else [.toolCallStart (googleCallId name) name (googleArgs env fc)]) ++ googleSignature part

/-- The first candidate of a chunk. -/
def googleCandidate (evt : JsonValue) : Option JsonValue :=
  ((evt.get "candidates").bind JsonValue.asArray).bind List.head?

/-- The parts of a candidate. -/
def googleParts (candidate : JsonValue) : List JsonValue :=
  (((candidate.get "content").bind (JsonValue.get "parts")).bind JsonValue.asArray).getD []

/-- `parse_google_sse`. -/
def parseGoogleSse (env : StreamEnv) (line : List Char) : List StreamEvent :=
  match (payloadOf line).bind env.fromStr with
  | none => []
  | some evt =>
    googleUsage evt ++
      match googleCandidate evt with
      | none => []
      | some candidate =>
        (googleParts candidate).flatMap (fun part => googleText part ++ googleCall env part) ++
          ((candidate.strAt "finishReason").map fun r =>
            StreamEvent.done (googleStopReason r)).toList

/-- The line has a `finishReason`. -/
def googleFinishes (env : StreamEnv) (line : List Char) : Bool :=
  match (payloadOf line).bind env.fromStr with
  | none => false
  | some evt => ((googleCandidate evt).bind (JsonValue.strAt "finishReason")).isSome

/-! ## The shape of what a line yields -/

/-- The three events that end a stream. -/
def StreamEvent.isTerminal : StreamEvent → Bool
  | .done _ | .error _ | .httpError .. => true
  | _ => false

/-- No event of the list ends the stream. -/
def Open (events : List StreamEvent) : Prop := ∀ e ∈ events, e.isTerminal = false

/-- At most the last event of a line ends the stream: with `done` if the line has the end marker, with
an error if it reports a failure. -/
inductive LineShape : List StreamEvent → (finishes fails : Bool) → Prop
  | going (body : List StreamEvent) (h : Open body) : LineShape body false false
  | finished (body : List StreamEvent) (h : Open body) (r : StopReason) :
    LineShape (body ++ [.done r]) true false
  | failed (body : List StreamEvent) (h : Open body) (m : String) :
    LineShape (body ++ [.error m]) false true

@[simp] lemma open_nil : Open [] := nofun

@[simp] lemma open_cons (e : StreamEvent) (es : List StreamEvent) :
    Open (e :: es) ↔ e.isTerminal = false ∧ Open es := List.forall_mem_cons

@[simp] lemma open_append (as bs : List StreamEvent) : Open (as ++ bs) ↔ Open as ∧ Open bs :=
  List.forall_mem_append

lemma LineShape.nil : LineShape [] false false := .going [] open_nil

/-- A line whose events end with an optional `done`. -/
lemma lineShape_append_done {body : List StreamEvent} (h : Open body) (r : Option StopReason) :
    LineShape (body ++ (r.map StreamEvent.done).toList) r.isSome false := by
  cases r with
  | none => simpa using LineShape.going body h
  | some r => exact .finished body h r

/-! ### Google -/

lemma open_googleSignature (part : JsonValue) : Open (googleSignature part) := by
  unfold googleSignature
  cases part.strAt "thoughtSignature" <;> simp [StreamEvent.isTerminal]

lemma open_googleText (part : JsonValue) : Open (googleText part) := by
  unfold googleText
  split
  · exact open_nil
  · split
    · exact open_nil
    · split
      · simpa [StreamEvent.isTerminal] using open_googleSignature part
      · simp [StreamEvent.isTerminal]

lemma open_googleCall (env : StreamEnv) (part : JsonValue) : Open (googleCall env part) := by
  unfold googleCall
  split
  · exact open_nil
  · refine (open_append _ _).2 ⟨?_, open_googleSignature part⟩
    split <;> simp [StreamEvent.isTerminal]

lemma open_googleUsage (evt : JsonValue) : Open (googleUsage evt) := by
  unfold googleUsage
  cases evt.get "usageMetadata" <;> simp [StreamEvent.isTerminal]

/-- A line of Google ends with `done` exactly when it has a `finishReason`. -/
theorem parseGoogleSse_shape (env : StreamEnv) (line : List Char) :
    LineShape (parseGoogleSse env line) (googleFinishes env line) false := by
  unfold parseGoogleSse googleFinishes
  split
  · exact .nil
  · rename_i evt _
    cases googleCandidate evt with
    | none => simpa using LineShape.going _ (open_googleUsage evt)
    | some candidate =>
      have hparts : Open ((googleParts candidate).flatMap fun part =>
          googleText part ++ googleCall env part) := by
        intro e he
        obtain ⟨part, -, he⟩ := List.mem_flatMap.1 he
        exact (open_append _ _).2 ⟨open_googleText part, open_googleCall env part⟩ e he
      have h := lineShape_append_done ((open_append _ _).2 ⟨open_googleUsage evt, hparts⟩)
        ((candidate.strAt "finishReason").map googleStopReason)
      simpa [List.append_assoc, Option.map_map, Function.comp_def] using h

/-! ### Anthropic -/

lemma open_anthropicUsage (evt : JsonValue) : Open (anthropicUsage evt) := by
  unfold anthropicUsage
  cases ((evt.get "message").bind (JsonValue.get "usage")).or (evt.get "usage") <;>
    simp [StreamEvent.isTerminal]

lemma open_anthropicBlockStart (maps : AnthropicMaps) (evt : JsonValue) :
    Open (anthropicBlockStart maps evt).2 := by
  unfold anthropicBlockStart
  split
  · dsimp only
    split <;> simp [StreamEvent.isTerminal]
  · exact open_nil

lemma open_blockText (make : String → StreamEvent) (hmake : ∀ s, (make s).isTerminal = false)
    (key : String) (delta : JsonValue) : Open (blockText make key delta) := by
  unfold blockText
  dsimp only
  split
  · exact open_nil
  · simp [hmake]

lemma open_anthropicBlockDelta (maps : AnthropicMaps) (evt : JsonValue) :
    Open (anthropicBlockDelta maps evt) := by
  unfold anthropicBlockDelta
  split
  · exact open_nil
  · dsimp only
    split
    · exact open_blockText .delta (fun _ => rfl) _ _
    split
    · exact open_blockText .thinking (fun _ => rfl) _ _
    split
    · exact open_blockText .thinkingSignature (fun _ => rfl) _ _
    split
    · split <;> simp [StreamEvent.isTerminal]
    · exact open_nil

/-- A line of Anthropic ends with `done` exactly when it has `message_stop` or a `stop_reason`. -/
theorem parseAnthropicSse_shape (env : StreamEnv) (maps : AnthropicMaps) (line : List Char) :
    LineShape (parseAnthropicSse env maps line).2 (anthropicFinishes env line) false := by
  unfold parseAnthropicSse anthropicFinishes
  split
  · exact .nil
  · rename_i evt _
    cases hty : evt.strAt "type" with
    | none => simpa using LineShape.nil
    | some ty =>
      dsimp only
      split
      · rename_i h
        simpa [h] using LineShape.going _ (open_anthropicBlockStart maps evt)
      split
      · rename_i h
        simpa [h] using LineShape.going _ (open_anthropicBlockDelta maps evt)
      split
      · rename_i h
        simpa [h] using LineShape.going _ (open_anthropicUsage evt)
      split
      · rename_i h
        have hshape := lineShape_append_done (open_anthropicUsage evt)
          ((anthropicStop evt).map anthropicStopReason)
        simpa [h, Option.map_map, Function.comp_def] using hshape
      split
      · rename_i h
        simpa [h] using LineShape.finished [] open_nil .endTurn
      · rename_i hdelta hstop
        simpa [hdelta, hstop] using LineShape.nil

/-! ### Responses -/

lemma open_textDelta (make : String → StreamEvent) (hmake : ∀ s, (make s).isTerminal = false)
    (value : JsonValue) : Open (textDelta make value) := by
  unfold textDelta
  split
  · split
    · exact open_nil
    · simp [hmake]
  · exact open_nil

/-- Data of Responses ends with `done` exactly when it has the end marker, and with an error exactly
when it reports a failure. -/
theorem parseResponsesSse_shape (env : StreamEnv) (maps : ResponsesMaps) (eventType : String)
    (data : List Char) :
    LineShape (parseResponsesSse env maps eventType data).2 (responsesFinishes env eventType data)
      (responsesFails env eventType data) := by
  unfold parseResponsesSse responsesFinishes responsesFails
  cases hvalue : env.fromStr data with
  | none => exact .nil
  | some value =>
    dsimp only
    split
    · rename_i h
      simpa [h] using LineShape.going _ (open_textDelta .delta (fun _ => rfl) value)
    split
    · rename_i h
      simpa [h] using LineShape.going _ (open_textDelta .thinking (fun _ => rfl) value)
    split
    · rename_i h
      split
      · simpa [h] using LineShape.nil
      · simpa [h] using LineShape.going [.toolCallStart _ _ _] (by simp [StreamEvent.isTerminal])
    split
    · rename_i h
      split
      · simpa [h] using LineShape.nil
      · simpa [h] using
          LineShape.going [.toolCallDelta _ _ _ _] (by simp [StreamEvent.isTerminal])
    split
    · rename_i h
      split
      · simpa [h] using LineShape.nil
      · simpa [h] using LineShape.going [.toolCallEnd _ _ _] (by simp [StreamEvent.isTerminal])
    split
    · rename_i h
      have husage : Open ((value.pointer ["response", "usage"]).map responsesUsage).toList := by
        cases value.pointer ["response", "usage"] <;>
          simp [responsesUsage, StreamEvent.isTerminal]
      simpa [h] using LineShape.finished _ husage _
    split
    · rename_i h
      simpa [h] using LineShape.finished [] open_nil _
    split
    · rename_i h
      rcases h with h | h <;> simpa [h] using LineShape.failed [] open_nil _
    · rename_i hcompleted hincomplete hfails
      obtain ⟨hfailed, herror⟩ := not_or.1 hfails
      simpa [hcompleted, hincomplete, hfailed, herror] using LineShape.nil

/-! ### Chat completions -/

lemma open_parseOpenaiToolCall (ids : List (ℕ × String)) (tc : TcDelta) :
    Open (parseOpenaiToolCall ids tc).2 := by
  unfold parseOpenaiToolCall
  dsimp only
  split
  · simp [StreamEvent.isTerminal]
  split
  · split <;> simp [StreamEvent.isTerminal]
  · exact open_nil

lemma open_parseOpenaiToolCalls (ids : List (ℕ × String)) (tcs : List TcDelta) :
    Open (parseOpenaiToolCalls ids tcs).2 := by
  induction tcs generalizing ids with
  | nil => exact open_nil
  | cons tc tcs ih => exact (open_append _ _).2 ⟨open_parseOpenaiToolCall ids tc, ih _⟩

lemma open_openaiText (delta : ChunkDelta) : Open (openaiText delta) := by
  refine (open_append _ _).2 ⟨?_, ?_⟩
  · split
    · split <;> simp [StreamEvent.isTerminal]
    · exact open_nil
  · split
    · split <;> simp [StreamEvent.isTerminal]
    · exact open_nil

/-- A choice ends with `done` exactly when it has a `finish_reason`. -/
lemma parseOpenaiChoice_shape (ids : List (ℕ × String)) (choice : ChunkChoice) :
    LineShape (parseOpenaiChoice ids choice).2 choice.finishReason.isSome false := by
  have htext : Open (if (parseOpenaiToolCalls ids (choice.delta.toolCalls.getD [])).2 = [] then
      openaiText choice.delta else []) := by
    split
    · exact open_openaiText choice.delta
    · exact open_nil
  have h := lineShape_append_done
    ((open_append _ _).2 ⟨open_parseOpenaiToolCalls ids (choice.delta.toolCalls.getD []), htext⟩)
    (choice.finishReason.map openaiStopReason)
  simpa [parseOpenaiChoice, Option.map_map, Function.comp_def] using h

/-- The `done` of a list of events. -/
def doneOf : StreamEvent → Option StopReason
  | .done r => some r
  | _ => none

lemma not_isFailure_of_open {events : List StreamEvent} (h : Open events) :
    ∀ e ∈ events, e.isFailure = false := by
  intro e he
  have hterminal := h e he
  cases e <;> first | rfl | cases hterminal

lemma doneOf_of_open {events : List StreamEvent} (h : Open events) :
    events.filterMap doneOf = [] := by
  refine List.filterMap_eq_nil_iff.2 fun e he => ?_
  have hterminal := h e he
  cases e <;> first | rfl | cases hterminal

namespace LineShape

variable {events : List StreamEvent} {finishes fails : Bool}

/-- A line has a `done` exactly when it has the end marker. -/
lemma doneOf_isEmpty (h : LineShape events finishes fails) :
    (events.filterMap doneOf).isEmpty = !finishes := by
  cases h with
  | going body h => simp [doneOf_of_open h]
  | finished body h r => simp [doneOf]
  | failed body h m => simp [doneOf_of_open h, doneOf]

lemma not_isFailure (h : LineShape events finishes false) : ∀ e ∈ events, e.isFailure = false := by
  cases h with
  | going body h => exact not_isFailure_of_open h
  | finished body h r =>
    intro e he
    rcases List.mem_append.1 he with he | he
    · exact not_isFailure_of_open h e he
    · cases List.mem_singleton.1 he
      rfl

end LineShape

/-- The choices of a chunk report no failure, and have a `done` exactly when one of them has a
`finish_reason`. -/
lemma parseOpenaiChoices_spec (ids : List (ℕ × String)) (choices : List ChunkChoice) :
    (∀ e ∈ (parseOpenaiChoices ids choices).2, e.isFailure = false) ∧
      ((parseOpenaiChoices ids choices).2.filterMap doneOf).isEmpty =
        !choices.any fun choice => choice.finishReason.isSome := by
  induction choices generalizing ids with
  | nil => exact ⟨nofun, rfl⟩
  | cons choice choices ih =>
    have hshape := parseOpenaiChoice_shape ids choice
    obtain ⟨hfailure, hdone⟩ := ih (parseOpenaiChoice ids choice).1
    constructor
    · intro e he
      rcases List.mem_append.1 he with he | he
      · exact hshape.not_isFailure e he
      · exact hfailure e he
    · have happend (as bs : List StopReason) :
          (as ++ bs).isEmpty = (as.isEmpty && bs.isEmpty) := by
        cases as <;> rfl
      rw [parseOpenaiChoices, List.filterMap_append, happend, hshape.doneOf_isEmpty, hdone,
        List.any_cons, Bool.not_or]

/-- **A line of chat completions** reports no failure. -/
theorem not_isFailure_of_mem_parseOpenaiSse (env : StreamEnv) (ids : List (ℕ × String))
    (line : List Char) : ∀ e ∈ (parseOpenaiSse env ids line).2, e.isFailure = false := by
  unfold parseOpenaiSse
  split
  · nofun
  · split
    · rename_i chunk _ _
      cases chunk.usage <;> simp [ChunkUsage.event, StreamEvent.isFailure]
    · exact (parseOpenaiChoices_spec ids _).1

/-- **A line of chat completions** has a `done` exactly when it has a `finish_reason`. -/
theorem parseOpenaiSse_done_isEmpty (env : StreamEnv) (ids : List (ℕ × String))
    (line : List Char) :
    ((parseOpenaiSse env ids line).2.filterMap doneOf).isEmpty = !openaiFinishes env line := by
  unfold parseOpenaiSse openaiFinishes
  split
  · rfl
  · split
    · rename_i chunk _ h
      rw [h]
      cases chunk.usage <;> simp [ChunkUsage.event, doneOf]
    · exact (parseOpenaiChoices_spec ids _).2

end MyClaw
