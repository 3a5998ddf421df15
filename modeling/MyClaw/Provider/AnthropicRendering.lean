import MyClaw.Lib.Json
import MyClaw.Lib.KeyRuns
import MyClaw.Provider.Media

set_option autoImplicit false

/-!
# The messages of an Anthropic request

`render_anthropic_messages` (`providers/protocols/anthropic/message_rendering.rs`): the system texts go
to the top level, every other message becomes blocks under one of two roles, neighbours of one role are
merged, and blank texts and messages without content are dropped.

## Main definitions

* `renderBlocks` — the content blocks of a message.
* `renderRawMessage` — a message before the merge.
* `mergeRendered` — two neighbours of one role as one message.
* `renderAnthropicMessages` — the rendering.

## Main results

* `renderAnthropicMessages_eq` — the messages of the output are the runs of one role, without
  blank texts, unless nothing is left.

## Implementation notes

The JSON reader of the tool arguments is a parameter, as are the files. A rendered message is a
structure with the two members that the source's JSON object has.
-/

namespace MyClaw

/-- What the rendering takes from outside. -/
structure RenderEnv where
  files : MediaFiles
  /-- `serde_json::from_str`. -/
  fromStr : String → Option JsonValue

/-- A message of the request. -/
structure RenderedMessage where
  role : String
  content : JsonValue

/-- `RenderedAnthropicMessages`. -/
structure RenderedAnthropicMessages where
  systemPrompt : Option String
  messages : List RenderedMessage

/-! ## Blocks -/

/-- A `text` block. -/
def textBlock (text : String) : JsonValue := .obj [("type", .str "text"), ("text", .str text)]

/-- An `image` block. -/
def imageBlock (mime data : String) : JsonValue :=
  .obj [("type", .str "image"), ("source",
    .obj [("type", .str "base64"), ("media_type", .str mime), ("data", .str data)])]

/-- A `thinking` block. -/
def thinkingBlock (thinking signature : String) : JsonValue :=
  .obj [("type", .str "thinking"), ("thinking", .str thinking), ("signature", .str signature)]

/-- A `tool_result` block. -/
def toolResultBlock (toolUseId content : String) (isError : Bool) : JsonValue :=
  .obj [("type", .str "tool_result"), ("tool_use_id", .str toolUseId), ("content", .str content),
    ("is_error", .bool isError)]

/-- A `tool_use` block; arguments that are no JSON become an empty object. -/
def toolUseBlock (env : RenderEnv) (call : ToolCall) : JsonValue :=
  .obj [("type", .str "tool_use"), ("id", .str call.id), ("name", .str call.name),
    ("input", (env.fromStr call.arguments).getD (.obj []))]

/-- A file: an image with its bytes, else a text that stands for it. -/
def fileBlock (env : RenderEnv) (path : String) (mime : Option String) : JsonValue :=
  if modalityFromMime env.files mime path ≠ .image then textBlock (markerForFile env.files path mime)
  else
    match env.files.read path with
    | .error e => textBlock (imageMarkerPath path ++ "（读取失败: " ++ e ++ "）")
    | .ok bytes =>
      imageBlock ((mime.or (inferImageMime path)).getD "image/jpeg") (env.files.encode bytes)

/-- The message comes from a Gemini model. -/
def ChatMessage.isGeminiOrigin (m : ChatMessage) : Bool :=
  match m.model with
  | some model => "gemini".toList.isPrefixOf model.toList
  | none => false

/-- The block of a part; reasoning that the endpoint would reject has none. -/
def partBlock (env : RenderEnv) (m : ChatMessage) : ContentPart → Option JsonValue
  | .text text => some (textBlock text)
  | .file path mime _ _ => some (fileBlock env path mime)
  | .thinking thinking signature =>
    if m.isGeminiOrigin then none
    else
      match signature with
      | none => none
      | some sig => if thinking = "" then none else some (thinkingBlock thinking sig)

/-- The role under which a message is rendered. -/
def renderRole (m : ChatMessage) : String := if m.role = "assistant" then "assistant" else "user"

/-- The blocks of a message: the result of a tool call, else its parts and the calls it declares. -/
def renderBlocks (env : RenderEnv) (m : ChatMessage) : List JsonValue :=
  match m.toolCallId with
  | some id => [toolResultBlock id m.textContent (m.isError.getD false)]
  | none =>
    m.parts.filterMap (partBlock env m) ++
      if m.role = "assistant" then m.calls.map (toolUseBlock env) else []

/-- A block that the filter before the merge keeps. -/
def isNonEmptyBlock (block : JsonValue) : Bool :=
  match block.strAt "type" with
  | some "text" => (block.strAt "text").getD "" ≠ ""
  | some "tool_result" => true
  | some "tool_use" => (block.strAt "id").getD "" ≠ ""
  | _ => true

/-- A message before the merge; an assistant message without blocks is left out, a user message without
blocks has null as its content. -/
def renderRawMessage (env : RenderEnv) (m : ChatMessage) : Option RenderedMessage :=
  let nonEmpty := (renderBlocks env m).filter isNonEmptyBlock
  if renderRole m = "assistant" ∧ nonEmpty = [] then none
  else some ⟨renderRole m, if nonEmpty = [] then .null else .arr nonEmpty⟩

/-! ## Merging and the final passes -/

/-- The items that a message adds to the one before. -/
def newItems : JsonValue → List JsonValue
  | .arr items => items
  | other => [other]

/-- A message joined to the one before. -/
def mergeRendered (last msg : RenderedMessage) : RenderedMessage :=
  { last with
    content :=
      match last.content with
      | .arr items => .arr (items ++ newItems msg.content)
      | .null => .arr (newItems msg.content)
      | other => .arr (other :: newItems msg.content) }

/-- A block that the pass after the merge keeps. -/
def isShownBlock (block : JsonValue) : Bool :=
  if block.strAt "type" = some "text" then !isBlank ((block.strAt "text").getD "") else true

/-- The content without blank texts. -/
def dropBlankTexts (msg : RenderedMessage) : RenderedMessage :=
  { msg with
    content :=
      match msg.content with
      | .arr items => .arr (items.filter isShownBlock)
      | other => other }

/-- The content is not empty. -/
def hasContent (msg : RenderedMessage) : Bool :=
  match msg.content with
  | .arr items => !items.isEmpty
  | .str s => !isBlank s
  | .null => false
  | _ => true

/-- The texts of the system messages, joined by newlines. -/
def renderSystem (messages : List ChatMessage) : String :=
  "\n".intercalate
    (((messages.filter fun m => m.role = "system").map ChatMessage.textContent).filter (· ≠ ""))

/-- `render_anthropic_messages`. -/
def renderAnthropicMessages (env : RenderEnv) (messages : List ChatMessage) :
    RenderedAnthropicMessages :=
  let system := renderSystem messages
  let raw := (messages.filter fun m => m.role ≠ "system").filterMap (renderRawMessage env)
  let merged := raw.foldl (KeyRuns.mergeStep RenderedMessage.role mergeRendered) []
  { systemPrompt := if system = "" then none else some system
    messages := (merged.map dropBlankTexts).filter hasContent }

/-! ## The output by runs -/

/-- The blocks of a message that are left before the merge. -/
def sentBlocks (env : RenderEnv) (m : ChatMessage) : List JsonValue :=
  (renderBlocks env m).filter isNonEmptyBlock

/-- The message is rendered: no system message, and no assistant message without blocks. -/
def isRendered (env : RenderEnv) (m : ChatMessage) : Bool :=
  m.role ≠ "system" && !(renderRole m = "assistant" && (sentBlocks env m).isEmpty)

/-- A message before the merge, if it is rendered. -/
def rawMessage (env : RenderEnv) (m : ChatMessage) : RenderedMessage :=
  ⟨renderRole m, if sentBlocks env m = [] then .null else .arr (sentBlocks env m)⟩

/-- What a message adds to the run that it continues: null if it has no block. -/
def addedItems (env : RenderEnv) (m : ChatMessage) : List JsonValue :=
  if sentBlocks env m = [] then [.null] else sentBlocks env m

/-- The content of a run of one role before the last pass. -/
def runItems (env : RenderEnv) : List ChatMessage → List JsonValue
  | [] => []
  | m :: rest => sentBlocks env m ++ rest.flatMap (addedItems env)

/-- The message that a run becomes, if anything in it is left. -/
def renderRun (env : RenderEnv) (run : List ChatMessage) : Option RenderedMessage :=
  let items := (runItems env run).filter isShownBlock
  if items = [] then none else run.head?.map fun m => ⟨renderRole m, .arr items⟩

lemma newItems_rawMessage (env : RenderEnv) (m : ChatMessage) :
    newItems (rawMessage env m).content = addedItems env m := by
  unfold rawMessage addedItems
  split_ifs <;> rfl

@[simp] lemma role_mergeRendered (last msg : RenderedMessage) :
    (mergeRendered last msg).role = last.role := rfl

/-- A run whose first message has blocks already. -/
lemma foldl_mergeRendered (env : RenderEnv) (role : String) (items : List JsonValue)
    (rest : List ChatMessage) :
    (rest.map (rawMessage env)).foldl mergeRendered ⟨role, .arr items⟩ =
      ⟨role, .arr (items ++ rest.flatMap (addedItems env))⟩ := by
  induction rest generalizing items with
  | nil => simp
  | cons m rest ih =>
    rw [List.map_cons, List.foldl_cons, mergeRendered]
    dsimp only
    rw [newItems_rawMessage, ih, List.flatMap_cons, List.append_assoc]

/-- A run is merged into one message, and what the last passes make of that. -/
lemma joinRun_mergeRendered (env : RenderEnv) (run : List ChatMessage) :
    ((KeyRuns.joinRun mergeRendered (run.map (rawMessage env))).map dropBlankTexts).filter hasContent =
      renderRun env run := by
  have hlast : ∀ role items, ((some ⟨role, .arr items⟩ : Option RenderedMessage).map
      dropBlankTexts).filter hasContent =
        if items.filter isShownBlock = [] then none
        else some ⟨role, .arr (items.filter isShownBlock)⟩ := by
    intro role items
    rw [Option.map_some, dropBlankTexts]
    split_ifs with h
    · simp [hasContent, h]
    · simp [Option.filter, hasContent, h]
  cases run with
  | nil => rfl
  | cons m rest =>
    have hrun : renderRun env (m :: rest) =
        if (sentBlocks env m ++ rest.flatMap (addedItems env)).filter isShownBlock = [] then none
        else some ⟨renderRole m,
          .arr ((sentBlocks env m ++ rest.flatMap (addedItems env)).filter isShownBlock)⟩ := rfl
    rw [List.map_cons, KeyRuns.joinRun, hrun, rawMessage]
    by_cases hm : sentBlocks env m = []
    · rw [if_pos hm, hm, List.nil_append]
      cases rest with
      | nil => rfl
      | cons next rest =>
        rw [List.map_cons, List.foldl_cons, mergeRendered]
        dsimp only
        rw [newItems_rawMessage, foldl_mergeRendered, hlast, List.flatMap_cons]
    · rw [if_neg hm, foldl_mergeRendered, hlast]

/-- The messages before the merge. -/
lemma filterMap_renderRawMessage (env : RenderEnv) (messages : List ChatMessage) :
    (messages.filter fun m => m.role ≠ "system").filterMap (renderRawMessage env) =
      (messages.filter (isRendered env)).map (rawMessage env) := by
  induction messages with
  | nil => rfl
  | cons m messages ih =>
    by_cases hsystem : m.role = "system"
    · rw [List.filter_cons_of_neg (by simp [hsystem]), ih,
        List.filter_cons_of_neg (by simp [isRendered, hsystem])]
    · rw [List.filter_cons_of_pos (by simp [hsystem])]
      by_cases hnone : renderRole m = "assistant" ∧ sentBlocks env m = []
      · rw [List.filterMap_cons_none (by rw [renderRawMessage]; exact if_pos hnone), ih,
          List.filter_cons_of_neg (by simp [isRendered, hnone])]
      · rw [List.filterMap_cons_some (by rw [renderRawMessage]; exact if_neg hnone), ih,
          List.filter_cons_of_pos ?_, List.map_cons]
        · rfl
        · rw [isRendered]
          simp only [Bool.and_eq_true, Bool.not_eq_true', decide_eq_true_eq]
          refine ⟨hsystem, ?_⟩
          simpa [not_and] using hnone

/-- **The messages of the output are the runs of one role**, without blank texts, unless nothing of a
run is left. -/
theorem renderAnthropicMessages_eq (env : RenderEnv) (messages : List ChatMessage) :
    (renderAnthropicMessages env messages).messages =
      (KeyRuns.runs renderRole (messages.filter (isRendered env))).filterMap (renderRun env) := by
  rw [renderAnthropicMessages]
  dsimp only
  rw [filterMap_renderRawMessage, KeyRuns.foldl_mergeStep _ _ role_mergeRendered, KeyRuns.runs_map,
    List.filterMap_map, List.map_filterMap, List.filter_filterMap]
  refine List.filterMap_congr fun run _ => ?_
  rw [← joinRun_mergeRendered]
  rfl

end MyClaw
