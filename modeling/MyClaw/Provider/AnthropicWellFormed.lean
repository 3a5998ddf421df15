import MyClaw.Provider.AnthropicRendering

set_option autoImplicit false

/-!
# Well formed Anthropic messages

What the Messages endpoint asks of a request, and the conversations that `render_anthropic_messages`
meets it on.  Texts are dropped twice, and a user message without blocks becomes null: a second user
message without blocks leaves the null in the content, and a message of one role of which nothing is
left in the end has kept its neighbours of the other role apart.

## Main definitions

* `WellFormedMessages` — the roles alternate, every content is a list of blocks, the results of
  tools come first, and the blocks are in order.
* `RendersWell` — the conversations without the three arrangements that break this.

## Main results

* `wellFormed_renderAnthropicMessages_iff` — the messages are well formed on those conversations
  only.
-/

namespace MyClaw

/-! ## The requirement -/

/-- A block that may be sent: an object with a type, and no blank text. -/
structure IsSendable (block : JsonValue) : Prop where
  isObject : ∃ members, block = .obj members
  typed : ∃ type, block.strAt "type" = some type
  notBlank : block.strAt "type" = some "text" → isBlank ((block.strAt "text").getD "") = false

/-- A `tool_result` block. -/
def IsToolResult (block : JsonValue) : Prop := block.strAt "type" = some "tool_result"

/-- The messages without the system messages. -/
def conversation (messages : List ChatMessage) : List ChatMessage :=
  messages.filter fun m => m.role ≠ "system"

/-- Every result of a tool directly follows, other results aside, the assistant message that declares
the call. -/
def ResultsFollow (messages : List ChatMessage) : Prop :=
  ∀ front result rest id, conversation messages = front ++ result :: rest →
    result.toolCallId = some id →
      ∃ before call results, front = before ++ call :: results ∧ call.role = "assistant" ∧
        id ∈ call.callIds ∧ ∀ m ∈ results, m.toolCallId.isSome

/-- **Well formed messages** for the blocks that the messages of the input have. -/
structure WellFormedMessages (env : RenderEnv) (input : List ChatMessage) (out : List RenderedMessage) :
    Prop where
  roles : ∀ m ∈ out, m.role = "user" ∨ m.role = "assistant"
  alternates : out.IsChain fun a b => a.role ≠ b.role
  contents : ∀ m ∈ out, ∃ items, m.content = .arr items ∧ items ≠ [] ∧ ∀ b ∈ items, IsSendable b
  resultsFirst : ResultsFollow input → ∀ m ∈ out, m.role = "user" →
    ∀ items, m.content = .arr items → items.Pairwise fun a b => IsToolResult b → IsToolResult a
  ordered : (out.flatMap fun m => newItems m.content).Sublist
    ((conversation input).flatMap (renderBlocks env))

/-! ## What a message shows -/

/-- A part becomes a block, if its text is as wanted. -/
def ContentPart.hasBlockIf (m : ChatMessage) (p : String → Bool) : ContentPart → Bool
  | .text t => p t
  | .file _ _ _ _ => true
  | .thinking t signature => !m.isGeminiOrigin && signature.isSome && t ≠ ""

/-- A message has a block, its texts being as wanted: it answers a call, a part of it becomes a block,
or it is an assistant message that declares a call with an id. -/
def ChatMessage.hasBlockIf (p : String → Bool) (m : ChatMessage) : Bool :=
  m.toolCallId.isSome || m.parts.any (ContentPart.hasBlockIf m p) ||
    (m.role = "assistant" && m.callIds.any (· ≠ ""))

/-- A message has a block that is not an empty text. -/
def ChatMessage.hasBlock : ChatMessage → Bool := ChatMessage.hasBlockIf (· ≠ "")

/-- A message has a block that is not a blank text. -/
def ChatMessage.showsBlock : ChatMessage → Bool := ChatMessage.hasBlockIf (!isBlank ·)

/-- The messages that a request is made of: no system message, and no assistant message without a
block. -/
def renderedTurns (messages : List ChatMessage) : List ChatMessage :=
  messages.filter fun m => m.role ≠ "system" && !(m.role = "assistant" && !m.hasBlock)

/-- The conversations that are rendered well. -/
structure RendersWell (messages : List ChatMessage) : Prop where
  /-- A message on the user's side that follows another one has a block. -/
  noEmptyUser : ∀ a b, [a, b] <:+: renderedTurns messages → a.role ≠ "assistant" →
    b.role ≠ "assistant" → b.hasBlock
  /-- Between two messages of one role that show a block with no such message between them, there is
  none of the other role. -/
  nothingHidden : KeyRuns.NothingHidden renderRole ChatMessage.showsBlock (renderedTurns messages)
  /-- If results follow their calls, a result with an empty id does not come after a message on the
  user's side that shows something else, with no assistant message between them. -/
  noLateResult : ResultsFollow messages →
    ∀ a between b, a :: between ++ [b] <:+: renderedTurns messages →
      (∀ m ∈ a :: between ++ [b], m.role ≠ "assistant") → a.showsBlock → a.toolCallId = none →
        b.toolCallId ≠ some ""

/-! ## Blocks -/

section Blocks

variable (env : RenderEnv)

@[simp] lemma type_textBlock (t : String) : (textBlock t).strAt "type" = some "text" := rfl
@[simp] lemma text_textBlock (t : String) : (textBlock t).strAt "text" = some t := rfl
@[simp] lemma type_imageBlock (mime data : String) :
    (imageBlock mime data).strAt "type" = some "image" := rfl
@[simp] lemma type_thinkingBlock (t s : String) :
    (thinkingBlock t s).strAt "type" = some "thinking" := rfl
@[simp] lemma type_toolResultBlock (id content : String) (e : Bool) :
    (toolResultBlock id content e).strAt "type" = some "tool_result" := rfl
@[simp] lemma type_toolUseBlock (call : ToolCall) :
    (toolUseBlock env call).strAt "type" = some "tool_use" := rfl
@[simp] lemma id_toolUseBlock (call : ToolCall) :
    (toolUseBlock env call).strAt "id" = some call.id := rfl

/-- The text that stands for an image that cannot be read is not blank. -/
lemma isBlank_readFailure (path e : String) :
    isBlank (imageMarkerPath path ++ "（读取失败: " ++ e ++ "）") = false := by
  refine isBlank_eq_false_of_mem (c := '[') ?_ (by decide)
  simp [imageMarkerPath]

/-- A file becomes a text that is not blank, or an image. -/
lemma fileBlock_cases (path : String) (mime : Option String) :
    (∃ t, fileBlock env path mime = textBlock t ∧ isBlank t = false) ∨
      ∃ mime' data, fileBlock env path mime = imageBlock mime' data := by
  unfold fileBlock
  split_ifs
  · exact .inl ⟨_, rfl, isBlank_markerForFile env.files path mime⟩
  · cases env.files.read path with
    | error e => exact .inl ⟨_, rfl, isBlank_readFailure path e⟩
    | ok bytes => exact .inr ⟨_, _, rfl⟩

/-- The empty text is blank. -/
lemma ne_empty_of_isBlank {t : String} (h : isBlank t = false) : t ≠ "" := by
  rintro rfl
  exact absurd h (by decide)

/-- A condition on blocks that comes down to one on texts, and to the id of a call that is declared. -/
structure JudgesTexts (judge : JsonValue → Bool) (p : String → Bool) : Prop where
  text : ∀ t, judge (textBlock t) = p t
  image : ∀ mime data, judge (imageBlock mime data) = true
  thinking : ∀ t s, judge (thinkingBlock t s) = true
  toolResult : ∀ id content e, judge (toolResultBlock id content e) = true
  toolUse : ∀ call, judge (toolUseBlock env call) = decide (call.id ≠ "")
  notBlank : ∀ t, isBlank t = false → p t = true

variable {env} {judge : JsonValue → Bool} {p : String → Bool}

/-- A part has a block that meets the condition if its text does. -/
lemma JudgesTexts.part (h : JudgesTexts env judge p) (m : ChatMessage) (part : ContentPart) :
    (partBlock env m part).any judge = part.hasBlockIf m p := by
  cases part with
  | text t => exact h.text t
  | file path mime name size =>
    rw [partBlock, ContentPart.hasBlockIf, Option.any_some]
    rcases fileBlock_cases env path mime with ⟨t, heq, ht⟩ | ⟨mime', data, heq⟩
    · rw [heq, h.text, h.notBlank t ht]
    · rw [heq, h.image]
  | thinking t signature =>
    unfold partBlock ContentPart.hasBlockIf
    cases m.isGeminiOrigin with
    | true => rfl
    | false =>
      cases signature with
      | none => rfl
      | some sig =>
        by_cases ht : t = ""
        · simp [ht]
        · simp [ht, h.thinking]

/-- A message has a block that meets the condition if it has one by its texts. -/
lemma JudgesTexts.any_renderBlocks (h : JudgesTexts env judge p) (m : ChatMessage) :
    (renderBlocks env m).any judge = m.hasBlockIf p := by
  rw [renderBlocks, ChatMessage.hasBlockIf]
  cases m.toolCallId with
  | some id => rw [List.any_cons, h.toolResult]; rfl
  | none =>
    have hparts : (m.parts.filterMap (partBlock env m)).any judge =
        m.parts.any (ContentPart.hasBlockIf m p) := by
      rw [List.any_filterMap]
      exact congrArg (fun f => m.parts.any f) (funext fun part => h.part m part)
    rw [List.any_append, hparts, Option.isSome_none, Bool.false_or]
    refine congrArg _ ?_
    split_ifs with hrole
    · rw [List.any_map, ChatMessage.callIds, List.any_map, decide_eq_true hrole, Bool.true_and]
      exact congrArg (fun f => m.calls.any f) (funext fun call => h.toolUse call)
    · rw [decide_eq_false hrole]
      rfl

variable (env)

/-- The filter before the merge drops the empty texts. -/
lemma judgesTexts_isNonEmptyBlock : JudgesTexts env isNonEmptyBlock (· ≠ "") where
  text _ := rfl
  image _ _ := rfl
  thinking _ _ := rfl
  toolResult _ _ _ := rfl
  toolUse _ := rfl
  notBlank _ h := decide_eq_true (ne_empty_of_isBlank h)

/-- Both filters together drop the blank texts. -/
lemma judgesTexts_isShownBlock :
    JudgesTexts env (fun b => isShownBlock b && isNonEmptyBlock b) (!isBlank ·) where
  text t := by
    by_cases ht : t = ""
    · subst ht; rfl
    · simp [isShownBlock, isNonEmptyBlock, ht]
  image _ _ := rfl
  thinking _ _ := rfl
  toolResult _ _ _ := rfl
  toolUse _ := rfl
  notBlank _ h := by rw [h]; rfl

/-- A message has no block before the merge if it has none but empty texts. -/
lemma sentBlocks_eq_nil_iff (m : ChatMessage) : sentBlocks env m = [] ↔ m.hasBlock = false := by
  rw [sentBlocks, List.filter_eq_nil_iff, ChatMessage.hasBlock,
    ← (judgesTexts_isNonEmptyBlock env).any_renderBlocks, List.any_eq_false]

/-- The blocks of a message that the output shows. -/
def shownBlocks (m : ChatMessage) : List JsonValue :=
  (sentBlocks env m).filter isShownBlock

/-- A message shows nothing if it has only blank texts. -/
lemma shownBlocks_eq_nil_iff (m : ChatMessage) : shownBlocks env m = [] ↔ m.showsBlock = false := by
  rw [shownBlocks, sentBlocks, List.filter_filter, List.filter_eq_nil_iff, ChatMessage.showsBlock,
    ← (judgesTexts_isShownBlock env).any_renderBlocks, List.any_eq_false]

end Blocks

/-- The messages that are rendered, by what they say. -/
lemma filter_isRendered (env : RenderEnv) (messages : List ChatMessage) :
    messages.filter (isRendered env) = renderedTurns messages := by
  refine List.filter_congr fun m _ => ?_
  rw [isRendered]
  refine congrArg _ (congrArg _ ?_)
  have hrole : (renderRole m = "assistant") ↔ m.role = "assistant" := by
    unfold renderRole
    split_ifs with h <;> simp [h]
  have hempty : (sentBlocks env m).isEmpty = !m.hasBlock := by
    rw [Bool.eq_iff_iff, List.isEmpty_iff, sentBlocks_eq_nil_iff]
    simp
  rw [hempty, decide_eq_decide.2 hrole]

/-- The user's side is everything but the assistant. -/
lemma renderRole_eq_user_iff {m : ChatMessage} : renderRole m = "user" ↔ m.role ≠ "assistant" := by
  unfold renderRole
  split_ifs with h <;> simp [h]

/-- There are two roles. -/
lemma renderRole_cases (m : ChatMessage) : renderRole m = "user" ∨ renderRole m = "assistant" := by
  unfold renderRole
  split_ifs <;> simp

section Blocks

variable {env : RenderEnv} {m : ChatMessage} {b : JsonValue}

/-- What a block is: the result of a call, in a message that has nothing else, or one of a part or of a
call that is declared. -/
lemma mem_renderBlocks (h : b ∈ renderBlocks env m) :
    (m.toolCallId.isSome ∧ ∃ id content e, b = toolResultBlock id content e) ∨
      (m.toolCallId = none ∧ ((∃ t, b = textBlock t) ∨ (∃ mime data, b = imageBlock mime data) ∨
        (∃ t s, b = thinkingBlock t s) ∨ ∃ call, b = toolUseBlock env call)) := by
  rw [renderBlocks] at h
  cases hid : m.toolCallId with
  | some id =>
    rw [hid] at h
    exact .inl ⟨rfl, _, _, _, List.mem_singleton.1 h⟩
  | none =>
    rw [hid] at h
    refine .inr ⟨rfl, ?_⟩
    rcases List.mem_append.1 h with h | h
    · obtain ⟨part, -, hpart⟩ := List.mem_filterMap.1 h
      cases part with
      | text t => exact .inl ⟨t, (Option.some.inj hpart).symm⟩
      | file path mime name size =>
        rw [partBlock, Option.some.injEq] at hpart
        rcases fileBlock_cases env path mime with ⟨t, heq, -⟩ | ⟨mime', data, heq⟩
        · exact .inl ⟨t, hpart.symm.trans heq⟩
        · exact .inr (.inl ⟨mime', data, hpart.symm.trans heq⟩)
      | thinking t signature =>
        unfold partBlock at hpart
        split_ifs at hpart
        cases signature with
        | none => exact absurd hpart nofun
        | some sig =>
          dsimp only at hpart
          split_ifs at hpart
          exact .inr (.inr (.inl ⟨t, sig, (Option.some.inj hpart).symm⟩))
    · split_ifs at h
      · obtain ⟨call, -, rfl⟩ := List.mem_map.1 h
        exact .inr (.inr (.inr ⟨call, rfl⟩))
      · exact absurd h List.not_mem_nil

/-- The results of tools are the blocks of the messages that answer a call. -/
lemma isToolResult_iff (h : b ∈ renderBlocks env m) : IsToolResult b ↔ m.toolCallId.isSome := by
  unfold IsToolResult
  rcases mem_renderBlocks h with ⟨hid, _, _, _, rfl⟩ | ⟨hid, hb⟩
  · simp [hid]
  · rcases hb with ⟨_, rfl⟩ | ⟨_, _, rfl⟩ | ⟨_, _, rfl⟩ | ⟨_, rfl⟩ <;> simp [hid]

lemma mem_renderBlocks_of_mem_shown (h : b ∈ shownBlocks env m) : b ∈ renderBlocks env m :=
  List.mem_of_mem_filter (List.mem_of_mem_filter h)

/-- A block that is shown may be sent. -/
lemma isSendable_of_mem_shown (h : b ∈ shownBlocks env m) : IsSendable b := by
  have hshown : isShownBlock b = true := List.of_mem_filter h
  have htext : b.strAt "type" = some "text" → isBlank ((b.strAt "text").getD "") = false := by
    intro htype
    rw [isShownBlock, if_pos htype] at hshown
    simpa using hshown
  have hobject : (∃ members, b = .obj members) ∧ ∃ type, b.strAt "type" = some type := by
    rcases mem_renderBlocks (mem_renderBlocks_of_mem_shown h) with ⟨-, _, _, _, rfl⟩ | ⟨-, hb⟩
    · exact ⟨⟨_, rfl⟩, _, rfl⟩
    · rcases hb with ⟨_, rfl⟩ | ⟨_, _, rfl⟩ | ⟨_, _, rfl⟩ | ⟨_, rfl⟩ <;> exact ⟨⟨_, rfl⟩, _, rfl⟩
  exact ⟨hobject.1, hobject.2, htext⟩

end Blocks

/-! ## Runs without null -/

section Runs

variable {env : RenderEnv} {messages : List ChatMessage}

/-- No message but the first of a run is without a block. -/
def RunsFull (messages : List ChatMessage) : Prop :=
  ∀ run ∈ KeyRuns.runs renderRole (renderedTurns messages), ∀ m ∈ run.tail, m.hasBlock

/-- The messages that a request is made of, as a part of the conversation. -/
lemma renderedTurns_eq (messages : List ChatMessage) : renderedTurns messages =
    (conversation messages).filter fun m => !(m.role = "assistant" && !m.hasBlock) := by
  rw [conversation, List.filter_filter]
  exact List.filter_congr fun m _ => Bool.and_comm _ _

/-- An assistant message that is rendered has a block. -/
lemma hasBlock_of_mem_renderedTurns {m : ChatMessage} (h : m ∈ renderedTurns messages)
    (hrole : m.role = "assistant") : m.hasBlock := by
  have hm := List.of_mem_filter h
  simpa [hrole] using hm

/-- Only a message on the user's side may be without a block. -/
lemma runsFull_iff : RunsFull messages ↔
    ∀ a b, [a, b] <:+: renderedTurns messages → a.role ≠ "assistant" → b.role ≠ "assistant" →
      b.hasBlock := by
  constructor
  · intro h a b hin ha hb
    have hkey : ∀ x ∈ [a, b], renderRole x = "user" := by
      simpa using ⟨renderRole_eq_user_iff.2 ha, renderRole_eq_user_iff.2 hb⟩
    obtain ⟨run, hrun, front, back, heq⟩ := KeyRuns.exists_run_of_infix renderRole hin
      (List.cons_ne_nil _ _) fun x hx y hy => (hkey x hx).trans (hkey y hy).symm
    refine h run hrun b ?_
    subst heq
    cases front <;> simp
  · intro h run hrun m hm
    obtain ⟨a, hpair⟩ := KeyRuns.exists_pair_of_mem_tail hm
    have hin := hpair.trans (KeyRuns.isInfix_of_mem_runs renderRole hrun)
    by_cases hrole : m.role = "assistant"
    · exact hasBlock_of_mem_renderedTurns (hin.subset (by simp)) hrole
    · refine h a m hin ?_ hrole
      have hkey := KeyRuns.key_eq_of_mem_runs renderRole hrun (hpair.subset (by simp : a ∈ [a, m]))
        (List.mem_of_mem_tail hm)
      rw [renderRole_eq_user_iff.2 hrole] at hkey
      exact renderRole_eq_user_iff.1 hkey

/-- A run in which nothing becomes null has the blocks of its messages. -/
lemma filter_runItems {run : List ChatMessage} (h : ∀ m ∈ run.tail, m.hasBlock) :
    (runItems env run).filter isShownBlock = run.flatMap (shownBlocks env) := by
  have hitems : runItems env run = run.flatMap (sentBlocks env) := by
    cases run with
    | nil => rfl
    | cons first rest =>
      rw [runItems, List.flatMap_cons]
      refine congrArg _ (List.flatMap_congr fun m hm => ?_)
      rw [addedItems, if_neg]
      rw [sentBlocks_eq_nil_iff, h m hm]
      exact Bool.noConfusion
  rw [hitems, List.filter_flatMap]
  rfl

/-- The blocks of a run are shown if one of its messages shows any. -/
lemma flatMap_shownBlocks_eq_nil_iff {run : List ChatMessage} :
    run.flatMap (shownBlocks env) = [] ↔ run.any ChatMessage.showsBlock = false := by
  rw [List.flatMap_eq_nil_iff, List.any_eq_false]
  simp only [shownBlocks_eq_nil_iff, Bool.not_eq_true]

/-- The messages of the output are what the runs show. -/
lemma mem_render_iff (h : RunsFull messages) {out : RenderedMessage} :
    out ∈ (renderAnthropicMessages env messages).messages ↔
      ∃ m rest, m :: rest ∈ KeyRuns.runs renderRole (renderedTurns messages) ∧
        (m :: rest).flatMap (shownBlocks env) ≠ [] ∧
          out = ⟨renderRole m, .arr ((m :: rest).flatMap (shownBlocks env))⟩ := by
  rw [renderAnthropicMessages_eq, filter_isRendered, List.mem_filterMap]
  constructor
  · rintro ⟨run, hrun, hout⟩
    cases run with
    | nil => exact absurd rfl (KeyRuns.ne_nil_of_mem_runs renderRole hrun)
    | cons m rest =>
      rw [renderRun, filter_runItems (h _ hrun)] at hout
      split_ifs at hout with hne
      exact ⟨m, rest, hrun, hne, (Option.some.inj hout).symm⟩
  · rintro ⟨m, rest, hrun, hne, rfl⟩
    refine ⟨_, hrun, ?_⟩
    rw [renderRun, filter_runItems (h _ hrun)]
    exact if_neg hne

/-- **A message that becomes null stays in the content**: only where the runs are full does every
content consist of blocks that may be sent. -/
lemma runsFull_of_contents
    (h : ∀ m ∈ (renderAnthropicMessages env messages).messages, ∃ items,
      m.content = .arr items ∧ items ≠ [] ∧ ∀ b ∈ items, IsSendable b) : RunsFull messages := by
  intro run hrun m hm
  by_contra hnone
  rw [Bool.not_eq_true] at hnone
  cases run with
  | nil => exact List.not_mem_nil hm
  | cons first rest =>
    have hnull : JsonValue.null ∈ (runItems env (first :: rest)).filter isShownBlock := by
      refine List.mem_filter.2 ⟨?_, rfl⟩
      refine List.mem_append_right _ (List.mem_flatMap.2 ⟨m, hm, ?_⟩)
      rw [addedItems, if_pos ((sentBlocks_eq_nil_iff env m).2 hnone)]
      exact List.mem_singleton_self _
    have hout : (⟨renderRole first, .arr ((runItems env (first :: rest)).filter isShownBlock)⟩ :
        RenderedMessage) ∈ (renderAnthropicMessages env messages).messages := by
      rw [renderAnthropicMessages_eq, filter_isRendered, List.mem_filterMap]
      exact ⟨_, hrun, if_neg (List.ne_nil_of_mem hnull)⟩
    obtain ⟨items, hitems, -, hall⟩ := h _ hout
    obtain ⟨members, hobject⟩ := (hall .null (JsonValue.arr.inj hitems ▸ hnull)).isObject
    exact absurd hobject nofun

/-- What full runs show may be sent. -/
lemma contents_of_runsFull (h : RunsFull messages) :
    ∀ m ∈ (renderAnthropicMessages env messages).messages, ∃ items,
      m.content = .arr items ∧ items ≠ [] ∧ ∀ b ∈ items, IsSendable b := by
  intro out hout
  obtain ⟨m, rest, -, hne, rfl⟩ := (mem_render_iff h).1 hout
  refine ⟨_, rfl, hne, fun b hb => ?_⟩
  obtain ⟨x, -, hx⟩ := List.mem_flatMap.1 hb
  exact isSendable_of_mem_shown hx

variable (env) in
/-- The roles of the output are those of the runs that show something. -/
lemma map_role_render (h : RunsFull messages) :
    (renderAnthropicMessages env messages).messages.map RenderedMessage.role =
      KeyRuns.keptKeys renderRole ChatMessage.showsBlock (renderedTurns messages) := by
  rw [renderAnthropicMessages_eq, filter_isRendered, List.map_filterMap, KeyRuns.keptKeys]
  refine List.filterMap_congr fun run hrun => ?_
  rw [renderRun, filter_runItems (h run hrun), KeyRuns.keptKey]
  cases hany : run.any ChatMessage.showsBlock with
  | false => rw [if_pos (flatMap_shownBlocks_eq_nil_iff.2 hany)]; rfl
  | true =>
    have hne : run.flatMap (shownBlocks env) ≠ [] := by
      rw [Ne, flatMap_shownBlocks_eq_nil_iff, hany]
      exact Bool.noConfusion
    rw [if_neg hne, if_pos rfl, Option.map_map]
    rfl

/-- **The output has every block that is no blank text, in the order of the input.** -/
theorem flatMap_newItems_render (h : RunsFull messages) :
    ((renderAnthropicMessages env messages).messages.flatMap fun m => newItems m.content) =
      (renderedTurns messages).flatMap (shownBlocks env) := by
  have hrun : ∀ run ∈ KeyRuns.runs renderRole (renderedTurns messages),
      ((renderRun env run).map fun m => newItems m.content).getD [] =
        run.flatMap (shownBlocks env) := by
    intro run hrun
    rw [renderRun, filter_runItems (h run hrun)]
    cases run with
    | nil => rfl
    | cons m rest =>
      split_ifs with hnil
      · exact hnil.symm
      · rfl
  rw [renderAnthropicMessages_eq, filter_isRendered]
  conv_rhs => rw [← KeyRuns.flatten_runs renderRole (renderedTurns messages)]
  generalize KeyRuns.runs renderRole (renderedTurns messages) = runs at hrun ⊢
  induction runs with
  | nil => rfl
  | cons run runs ih =>
    rw [List.flatten_cons, List.flatMap_append, ← hrun run List.mem_cons_self,
      ← ih fun r hr => hrun r (List.mem_cons_of_mem run hr)]
    cases hout : renderRun env run with
    | none => rw [List.filterMap_cons_none hout]; rfl
    | some out => rw [List.filterMap_cons_some hout]; rfl

/-- The blocks of the output are in the order of the input. -/
lemma ordered_of_runsFull (h : RunsFull messages) :
    ((renderAnthropicMessages env messages).messages.flatMap fun m => newItems m.content).Sublist
      ((conversation messages).flatMap (renderBlocks env)) := by
  rw [flatMap_newItems_render h, renderedTurns_eq]
  induction conversation messages with
  | nil => exact List.Sublist.refl _
  | cons m rest ih =>
    have hm : (shownBlocks env m).Sublist (renderBlocks env m) :=
      List.filter_sublist.trans List.filter_sublist
    rw [List.flatMap_cons, List.filter_cons]
    split_ifs
    · exact hm.append ih
    · exact ih.trans (List.sublist_append_right _ _)

/-! ## Results of tools -/

/-- No result comes after something else in one run on the user's side. -/
def NoLateResult (messages : List ChatMessage) : Prop :=
  ∀ a between b, a :: between ++ [b] <:+: renderedTurns messages →
    (∀ m ∈ a :: between ++ [b], m.role ≠ "assistant") → a.showsBlock → a.toolCallId = none →
      b.toolCallId = none

/-- Two messages have the results first unless the second one answers a call and the first one shows
something else. -/
lemma resultsFirst_pair_iff {a b : ChatMessage} :
    (∀ x ∈ shownBlocks env a, ∀ y ∈ shownBlocks env b, IsToolResult y → IsToolResult x) ↔
      (a.showsBlock → a.toolCallId = none → b.toolCallId = none) := by
  have hexists : ∀ m : ChatMessage, m.showsBlock → ∃ x, x ∈ shownBlocks env m := by
    intro m hm
    refine List.exists_mem_of_ne_nil _ fun hnil => ?_
    rw [shownBlocks_eq_nil_iff, hm] at hnil
    exact Bool.noConfusion hnil
  constructor
  · intro h hshown ha
    by_contra hb
    have hsome : b.toolCallId.isSome := Option.isSome_iff_ne_none.2 hb
    obtain ⟨x, hx⟩ := hexists a hshown
    obtain ⟨y, hy⟩ := hexists b (by simp [ChatMessage.showsBlock, ChatMessage.hasBlockIf, hsome])
    have hresult := h x hx y hy ((isToolResult_iff (mem_renderBlocks_of_mem_shown hy)).2 hsome)
    rw [isToolResult_iff (mem_renderBlocks_of_mem_shown hx), ha] at hresult
    exact Bool.noConfusion hresult
  · intro h x hx y hy hresult
    rw [isToolResult_iff (mem_renderBlocks_of_mem_shown hy)] at hresult
    rw [isToolResult_iff (mem_renderBlocks_of_mem_shown hx)]
    by_contra ha
    have hshown : a.showsBlock := by
      by_contra hnone
      rw [Bool.not_eq_true, ← shownBlocks_eq_nil_iff env] at hnone
      exact List.ne_nil_of_mem hx hnone
    rw [h hshown (Option.not_isSome_iff_eq_none.1 ha)] at hresult
    exact Bool.noConfusion hresult

/-- The blocks of a run have the results first if its messages have. -/
lemma pairwise_flatMap_iff {run : List ChatMessage} :
    (run.flatMap (shownBlocks env)).Pairwise (fun a b => IsToolResult b → IsToolResult a) ↔
      ∀ a between b, a :: between ++ [b] <:+: run → a.showsBlock → a.toolCallId = none →
        b.toolCallId = none := by
  have hone : ∀ m ∈ run, (shownBlocks env m).Pairwise fun a b => IsToolResult b → IsToolResult a := by
    refine fun m _ => List.pairwise_of_forall_mem_list fun x hx y hy hresult => ?_
    rw [isToolResult_iff (mem_renderBlocks_of_mem_shown hy)] at hresult
    exact (isToolResult_iff (mem_renderBlocks_of_mem_shown hx)).2 hresult
  rw [List.pairwise_flatMap, and_iff_right hone, KeyRuns.pairwise_iff_infix]
  simp only [resultsFirst_pair_iff]

/-- The results come first in every message of the user if none is late. -/
lemma resultsFirst_iff (h : RunsFull messages) :
    (∀ m ∈ (renderAnthropicMessages env messages).messages, m.role = "user" → ∀ items,
      m.content = .arr items → items.Pairwise fun a b => IsToolResult b → IsToolResult a) ↔
      NoLateResult messages := by
  constructor
  · intro hfirst a between b hin huser hshown
    have hkey : ∀ m ∈ a :: between ++ [b], renderRole m = "user" :=
      fun m hm => renderRole_eq_user_iff.2 (huser m hm)
    obtain ⟨run, hrun, hstretch⟩ := KeyRuns.exists_run_of_infix renderRole hin (List.cons_ne_nil _ _)
      fun x hx y hy => (hkey x hx).trans (hkey y hy).symm
    have ha : a ∈ a :: between ++ [b] := List.mem_cons_self
    cases run with
    | nil => exact absurd rfl (KeyRuns.ne_nil_of_mem_runs renderRole hrun)
    | cons m rest =>
      have hrole : renderRole m = "user" :=
        (KeyRuns.key_eq_of_mem_runs renderRole hrun List.mem_cons_self (hstretch.subset ha)).trans
          (hkey a ha)
      have hne : (m :: rest).flatMap (shownBlocks env) ≠ [] := by
        rw [Ne, flatMap_shownBlocks_eq_nil_iff, List.any_eq_false]
        exact fun hall => hall a (hstretch.subset ha) hshown
      have hpairwise := hfirst _ ((mem_render_iff h).2 ⟨m, rest, hrun, hne, rfl⟩) hrole _ rfl
      exact pairwise_flatMap_iff.1 hpairwise a between b hstretch hshown
  · intro hlate out hout hrole items hitems
    obtain ⟨m, rest, hrun, -, rfl⟩ := (mem_render_iff h).1 hout
    obtain rfl := JsonValue.arr.inj hitems
    refine pairwise_flatMap_iff.2 fun a between b hin => ?_
    refine hlate a between b (hin.trans (KeyRuns.isInfix_of_mem_runs renderRole hrun)) fun x hx => ?_
    rw [← renderRole_eq_user_iff, ← hrole]
    exact KeyRuns.key_eq_of_mem_runs renderRole hrun (hin.subset hx) List.mem_cons_self

/-- **A result that directly follows its call is late only if its id is empty**: the call then has no
block of its own. -/
lemma toolCallId_eq_empty (h : ResultsFollow messages) {a b : ChatMessage} {between : List ChatMessage}
    (hin : a :: between ++ [b] <:+: renderedTurns messages)
    (huser : ∀ m ∈ a :: between ++ [b], m.role ≠ "assistant") (ha : a.toolCallId = none) {id : String}
    (hid : b.toolCallId = some id) : id = "" := by
  by_contra hne
  obtain ⟨front, back, hturns⟩ := hin
  rw [renderedTurns_eq, List.append_assoc, List.append_assoc, List.singleton_append,
    ← List.append_assoc, eq_comm, List.filter_eq_append_iff] at hturns
  obtain ⟨left, right, hconv, hleft, hright⟩ := hturns
  obtain ⟨skipped, rest, rfl, hskipped, -, -⟩ := List.filter_eq_cons_iff.1 hright
  rw [← List.append_assoc] at hconv
  obtain ⟨before, call, results, heq, hrole, hcall, hresults⟩ := h _ b rest id hconv hid
  have hfilter := congrArg (List.filter fun m => !(m.role = "assistant" && !m.hasBlock)) heq
  have hkept : call.hasBlock := by
    have hany : call.callIds.any (· ≠ "") := List.any_eq_true.2 ⟨id, hcall, by simpa using hne⟩
    rw [ChatMessage.hasBlock, ChatMessage.hasBlockIf, hany, decide_eq_true hrole, Bool.true_and,
      Bool.or_true]
  rw [List.filter_append, hleft, List.filter_eq_nil_iff.2 hskipped, List.append_nil, List.filter_append,
    List.filter_cons_of_pos (by simp [hkept])] at hfilter
  -- the call is behind `a`, or `a` is one of the results that follow it
  have hcases : call ∈ a :: between ∨ a ∈ results ∨ call = a := by
    rcases List.append_eq_append_iff.1 hfilter with ⟨middle, -, hsplit⟩ | ⟨middle, -, hsplit⟩
    · exact .inl (hsplit ▸ List.mem_append_right _ List.mem_cons_self)
    · cases middle with
      | nil => exact .inr (.inr (List.cons.inj hsplit).1)
      | cons c middle =>
        have hmem : a ∈ results.filter fun m => !(m.role = "assistant" && !m.hasBlock) := by
          rw [(List.cons.inj hsplit).2]
          exact List.mem_append_right _ List.mem_cons_self
        exact .inr (.inl (List.mem_of_mem_filter hmem))
  rcases hcases with hmem | hmem | rfl
  · exact huser call (List.mem_append_left _ hmem) hrole
  · have hsome := hresults a hmem
    rw [ha] at hsome
    exact Bool.noConfusion hsome
  · exact huser call (List.mem_append_left _ List.mem_cons_self) hrole

end Runs

/-- **The messages are well formed on the conversations that are rendered well, and on no other.** -/
theorem wellFormed_renderAnthropicMessages_iff (env : RenderEnv) (messages : List ChatMessage) :
    WellFormedMessages env messages (renderAnthropicMessages env messages).messages ↔
      RendersWell messages := by
  constructor
  · intro h
    have hfull := runsFull_of_contents h.contents
    refine ⟨runsFull_iff.1 hfull, ?_, fun hfollow a between b hin huser hshown ha hb => ?_⟩
    · rw [← KeyRuns.isChain_keptKeys_iff, ← map_role_render env hfull, List.isChain_map]
      exact h.alternates
    · have hlate := (resultsFirst_iff hfull).1 (h.resultsFirst hfollow) a between b hin huser hshown ha
      rw [hlate] at hb
      exact absurd hb nofun
  · intro h
    have hfull := runsFull_iff.2 h.noEmptyUser
    refine ⟨fun m hm => ?_, ?_, contents_of_runsFull hfull, fun hfollow => ?_,
      ordered_of_runsFull hfull⟩
    · obtain ⟨first, rest, -, -, rfl⟩ := (mem_render_iff hfull).1 hm
      exact renderRole_cases first
    · rw [← List.isChain_map RenderedMessage.role, map_role_render env hfull,
        KeyRuns.isChain_keptKeys_iff]
      exact h.nothingHidden
    · refine (resultsFirst_iff hfull).2 fun a between b hin huser hshown ha => ?_
      by_contra hb
      obtain ⟨id, hid⟩ := Option.ne_none_iff_exists'.1 hb
      refine h.noLateResult hfollow a between b hin huser hshown ha ?_
      rw [hid, toolCallId_eq_empty hfollow hin huser ha hid]

/-- No files and no reader of JSON. -/
def bareEnv : RenderEnv := ⟨⟨fun _ => .error "not found", fun _ => ""⟩, fun _ => none⟩

/-- A second message of the user without a text, and a blank one between two answers. -/
def emptiedMessages : List ChatMessage :=
  [.userText "hi", .userText "", .assistantText "a", .userText " ", .assistantText "b"]

/-- **The null stays, and the answers become neighbours.** -/
theorem not_wellFormed_emptiedMessages :
    (renderAnthropicMessages bareEnv emptiedMessages).messages =
        [⟨"user", .arr [textBlock "hi", .null]⟩, ⟨"assistant", .arr [textBlock "a"]⟩,
          ⟨"assistant", .arr [textBlock "b"]⟩] ∧
      ¬ WellFormedMessages bareEnv emptiedMessages
        (renderAnthropicMessages bareEnv emptiedMessages).messages := by
  have hout : (renderAnthropicMessages bareEnv emptiedMessages).messages =
      [⟨"user", .arr [textBlock "hi", .null]⟩, ⟨"assistant", .arr [textBlock "a"]⟩,
        ⟨"assistant", .arr [textBlock "b"]⟩] := rfl
  refine ⟨hout, fun h => ?_⟩
  have halternates := h.alternates
  rw [hout, List.isChain_cons_cons, List.isChain_cons_cons] at halternates
  exact halternates.2.1 rfl

end MyClaw
