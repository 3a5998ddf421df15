import MyClaw.Channels.Fences
import MyClaw.Lib.Json
import MyClaw.Lib.StrSlice
import MyClaw.Webhook.Auth

set_option autoImplicit false

/-!
# The streaming preview of a turn

`TelegramTurnStream` (`channels/telegram/turn_stream.rs`): one message that is edited while a turn runs.
In partial mode it shows the text of the turn, and in the end the whole answer; in progress mode it
shows the tool calls, and in the end a line that sums them up.  The stream reports how far the
answer was delivered, and its caller sends the answer itself unless that is `FinalDelivered`.

## Main definitions

* `TurnEvent` — what happens in a turn.
* `TelegramTurnStream` — the stream, with `previewText`, `flushPreview`, `collapseToSummary`,
  `push` and `finish`.
* `StreamOp`, `streamStep` — a call of the stream with the replies of Telegram to it, and
  its step.

## Implementation notes

A call of the stream makes at most one edit and one send, so it comes with one reply for each, and with
the clock before and after them.  Instants are milliseconds, counters have 64 bits and wrap around.  The
calls made so far, with the texts as the stream hands them over, and the text of `Done` are kept in the
state; the source has no such fields.
-/

namespace MyClaw

/-! ## Tool lines -/

/-- `clip_detail`. -/
def clipDetail (s : List Char) : List Char :=
  if s.length ≤ 300 then s else trimEnd (s.take 299) ++ ['…']

/-- `to_lowercase`, for the comparison with names in ASCII: of the other characters, only the Kelvin
sign becomes a letter of ASCII. -/
def lowerKey (name : String) : String :=
  String.ofList (name.toList.map fun c => if c = '\u212a' then 'k' else c.toLower)

/-- The emoji and the label of a tool, by its name in lower case. -/
def toolDisplay (name : String) : String × String :=
  match lowerKey name with
  | "shell" => ("🛠️", "Shell")
  | "file_read" | "read_file" | "read" => ("📖", "Read")
  | "file_write" | "write_file" | "write" => ("✍️", "Write")
  | "file_edit" | "edit" | "patch" => ("📝", "Edit")
  | "web_search" => ("🔍", "Search")
  | "http_request" => ("🌐", "HTTP")
  | "content_search" | "grep" => ("🔎", "Grep")
  | "glob_search" | "glob" => ("📂", "Glob")
  | "list_dir" | "ls" => ("📂", "List")
  | "memory_manage" => ("🧠", "Memory")
  | "memory_search" => ("🧠", "Memory")
  | "agent_delegate" | "delegate" => ("✨", "Delegate")
  | "calculator" => ("🔢", "Calc")
  | "view_image" => ("🖼️", "Image")
  | "view_video" => ("🎬", "Video")
  | "hear_audio" => ("🎵", "Audio")
  | "skill_view" => ("📜", "Skill")
  | "skill_manage" => ("📜", "Skill")
  | "send_message" => ("💬", "Send")
  | "ask_user" => ("❓", "Ask")
  | "task_create" => ("📋", "Task")
  | "task_update" => ("📋", "Task")
  | "task_list" => ("📋", "Task")
  | "task_delete" => ("📋", "Task")
  | "shell_poll" => ("📊", "Poll")
  | _ => ("🔧", name)

/-- The arguments of a tool that tell what it is called for. -/
def detailKeys (name : String) : List String :=
  match lowerKey name with
  | "shell" | "shell_poll" => ["command", "cmd"]
  | "file_read" | "read_file" | "read" => ["path", "file_path"]
  | "file_write" | "write_file" | "write" => ["path", "file_path"]
  | "file_edit" | "edit" | "patch" => ["path", "file_path"]
  | "web_search" => ["query", "q"]
  | "http_request" => ["url", "method"]
  | "content_search" | "grep" => ["pattern", "regex"]
  | "glob_search" | "glob" => ["pattern"]
  | "list_dir" | "ls" => ["path"]
  | "memory_manage" => ["name", "action"]
  | "memory_search" => ["query"]
  | "agent_delegate" | "delegate" => ["agent", "task"]
  | "calculator" => ["expression"]
  | "view_image" => ["path"]
  | "view_video" => ["path"]
  | "hear_audio" => ["path"]
  | "skill_view" | "skill_manage" => ["name", "action"]
  | "task_create" => ["subject"]
  | "task_update" => ["task_id", "status"]
  | "task_delete" => ["task_id"]
  | _ => []

/-- The argument as it is shown. -/
def shownDetail (s : List Char) : List Char :=
  let s := trimChars s
  if 50 < s.length then s.take 47 ++ ['…'] else s

/-- `resolve_tool_display`. -/
def resolveToolDisplay (name : String) (args : JsonValue) : List Char × List Char × List Char :=
  let (emoji, label) := toolDisplay name
  let detail := (detailKeys name).findSome? fun k =>
    ((args.get k).bind JsonValue.asStr).map fun s => shownDetail s.toList
  (emoji.toList, label.toList, detail.getD [])

/-- `format_tool_line`. -/
def formatToolLine (name : String) (args : JsonValue) : List Char :=
  let (emoji, label, detail) := resolveToolDisplay name args
  let labelFull := emoji ++ [' '] ++ label
  if detail.isEmpty then "**".toList ++ labelFull ++ "**".toList
  else "**".toList ++ labelFull ++ "** `".toList ++ clipDetail detail ++ "`".toList

/-- `tool_line_with_status`. -/
def toolLineWithStatus (line : List Char) (success : Bool) : List Char :=
  if success then line else line ++ " _failed_".toList

/-! ## The state -/

/-- `TurnEvent`. -/
inductive TurnEvent
  | chunk (delta : List Char)
  | thinking (delta : List Char)
  | toolCall (name : String) (args : JsonValue)
  | toolResult (name : String) (isError : Bool)
  | cancelled (partialText : List Char)
  | done (text : List Char)
  | emptyResponse
  | error

/-- `StreamDelivery`. -/
inductive StreamDelivery
  | pending
  | visible
  | finalDelivered

/-- `StreamingMode`, of a stream that there is. -/
inductive StreamMode
  | partialText
  | progress
  deriving DecidableEq

/-- `FoldCandidate`. -/
structure FoldCandidate where
  msgId : String
  text : List Char
  thinkingSteps : UInt64
  toolCount : UInt64
  commentaryNotes : UInt64
  startedAtUnixSecs : Option ℕ

/-- How Telegram takes an edit: with success, as one that changes nothing, with another status, or
not at all. -/
inductive EditReply
  | edited
  | unchanged
  | refused
  | failed
  deriving DecidableEq

/-- How Telegram takes a message: with success, perhaps without naming it, or not at all. -/
inductive SendReply
  | sent (msgId : Option ℤ)
  | failed

/-- `edit_message_rich`: only a request that fails is an error. -/
def EditReply.result : EditReply → Except Unit Bool
  | .edited => .ok true
  | .unchanged => .ok false
  | .refused => .ok false
  | .failed => .error ()

/-- `send_rich_message_simple`. -/
def SendReply.result : SendReply → Except Unit (Option ℤ)
  | .sent msgId => .ok msgId
  | .failed => .error ()

/-- The message has the text of the edit now. -/
def EditReply.shows : EditReply → Bool
  | .edited => true
  | .unchanged => true
  | _ => false

/-- The text of the message was delivered. -/
def SendReply.shows : SendReply → Bool
  | .sent _ => true
  | .failed => false

/-- A call of Telegram. -/
inductive TelegramCall
  | edit (msgId : ℤ) (text : List Char) (reply : EditReply)
  | send (text : List Char) (reply : SendReply)
  | delete (msgId : ℤ)

/-- What a call of the stream meets: the clock before and after, and the replies of Telegram. -/
structure CallReplies where
  now : ℤ
  after : ℤ
  edit : EditReply
  send : SendReply

/-- `TelegramTurnStream`, with the calls made so far and the text of the `Done` that was handled. -/
structure TelegramTurnStream where
  mode : StreamMode
  msgId : Option ℤ
  accumulated : List Char
  toolLines : List (List Char)
  toolCount : UInt64
  thinkingSteps : UInt64
  commentaryNotes : UInt64
  thinkingTokens : UInt64
  thinkingActive : Bool
  pendingCommentary : List Char
  inheritedPreview : Option (List Char)
  deferCollapse : Bool
  finalTakeover : Bool
  start : ℤ
  absoluteStart : ℕ
  lastEdit : ℤ
  delivery : StreamDelivery
  finished : Bool
  calls : List TelegramCall
  answer : Option (List Char)

/-- `STREAM_THROTTLE`. -/
def streamThrottle : ℤ := 1500

/-- `STREAM_PREVIEW_LIMIT`. -/
def streamPreviewLimit : ℕ := 4000

/-- Paragraphs that are joined. -/
def joinParagraphs (paragraphs : List (List Char)) : List Char :=
  ['\n', '\n'].intercalate paragraphs

/-- `split("\n\n")`. -/
def splitParagraphs : List Char → List (List Char)
  | [] => [[]]
  | '\n' :: '\n' :: rest => [] :: splitParagraphs rest
  | c :: rest => (splitParagraphs rest).modifyHead (c :: ·)

/-- A counter as it is shown. -/
def counterText (n : UInt64) : List Char := (toString n).toList

/-- A line of commentary. -/
def commentaryLine (text : List Char) : List Char := "💬 ".toList ++ clipDetail text

/-- The line of a round of thinking. -/
def thinkingLine (tokens : UInt64) : List Char :=
  "🧠 Thinking… (~".toList ++ counterText tokens ++ " tokens)".toList

namespace TelegramTurnStream

/-- `new_stream`. -/
def newStream (now : ℤ) (nowUnix : ℕ) (mode : StreamMode) (fold : Option FoldCandidate) :
    TelegramTurnStream where
  mode := mode
  msgId := fold.bind fun f => parseI64 f.msgId.toUTF8.toList
  accumulated := if mode = .partialText then (fold.map (·.text)).getD [] else []
  toolLines := []
  toolCount := (fold.map (·.toolCount)).getD 0
  thinkingSteps := (fold.map (·.thinkingSteps)).getD 0
  commentaryNotes := (fold.map (·.commentaryNotes)).getD 0
  thinkingTokens := 0
  thinkingActive := false
  pendingCommentary := []
  inheritedPreview := fold.map (·.text)
  deferCollapse := false
  finalTakeover := false
  start := now - 1000 * ((fold.bind (·.startedAtUnixSecs)).map (nowUnix - ·)).getD 0
  absoluteStart := (fold.bind (·.startedAtUnixSecs)).getD nowUnix
  lastEdit := now - streamThrottle
  delivery := .pending
  finished := false
  calls := []
  answer := none

/-- `is_progress`. -/
def isProgress (s : TelegramTurnStream) : Bool := s.mode = .progress

/-- The commentary without the white space around it. -/
def commentary (s : TelegramTurnStream) : List Char := trimChars s.pendingCommentary

/-- `done_note`. -/
def doneNote (s : TelegramTurnStream) (text : List Char) : List Char × TelegramTurnStream :=
  if s.commentary.isEmpty then (text, s) else (s.pendingCommentary, { s with pendingCommentary := [] })

/-- `flush_completed_thinking`. -/
def flushCompletedThinking (s : TelegramTurnStream) : TelegramTurnStream :=
  if s.thinkingActive then
    { s with
      thinkingActive := false
      toolLines := if 0 < s.thinkingTokens then s.toolLines ++ [thinkingLine s.thinkingTokens]
        else s.toolLines
      thinkingTokens := 0 }
  else s

/-! ## The preview -/

/-- The leading lines of the preview: those of the message that was taken over, and the commentary where
there are no steps yet. -/
def previewBody (s : TelegramTurnStream) : List (List Char) :=
  (s.inheritedPreview.map fun inherited => splitParagraphs (trimChars inherited)).getD [] ++
    if !s.commentary.isEmpty && s.toolLines.isEmpty && !s.thinkingActive then
      ["**".toList ++ clipDetail s.commentary ++ "**".toList]
    else []

/-- The last lines of the preview: the commentary after steps, and the thinking that goes on. -/
def previewTail (s : TelegramTurnStream) : List (List Char) :=
  (if !s.commentary.isEmpty && !s.toolLines.isEmpty then [commentaryLine s.commentary] else []) ++
    if s.thinkingActive && 0 < s.thinkingTokens then [thinkingLine s.thinkingTokens] else []

/-- How many lines are dropped: as few as leave the others and the tail under the limit, or all. -/
def skippedLines (all tail : List (List Char)) : ℕ :=
  ((List.range all.length).find? fun s =>
    (joinParagraphs (all.drop s ++ tail)).length ≤ streamPreviewLimit).getD all.length

/-- The line that stands for the dropped ones. -/
def skipMarker (skip : ℕ) : List Char :=
  "… ".toList ++ counterText (UInt64.ofNat skip) ++ " earlier".toList

/-- The preview in progress mode. -/
def progressText (s : TelegramTurnStream) : List Char :=
  let all := s.previewBody ++ s.toolLines
  let skip := skippedLines all s.previewTail
  joinParagraphs ((if 0 < skip ∧ skip < all.length then [skipMarker skip] else []) ++
    all.drop skip ++ s.previewTail)

/-- `preview_text`. -/
def previewText (s : TelegramTurnStream) : List Char :=
  if s.isProgress then s.progressText else s.accumulated.take streamPreviewLimit

/-! ## Calls of Telegram -/

/-- A call is made. -/
def record (s : TelegramTurnStream) (call : TelegramCall) : TelegramTurnStream :=
  { s with calls := s.calls ++ [call] }

/-- The preview is sent as a new message. -/
def sendPreview (s : TelegramTurnStream) (preview : List Char) (r : CallReplies) :
    TelegramTurnStream :=
  let s := s.record (.send preview r.send)
  match r.send.result with
  | .ok (some msgId) => { s with msgId := some msgId, delivery := .visible }
  | _ => s

/-- The loop of `flush_preview`: a message that cannot be edited any more is sent anew. -/
def showPreview (s : TelegramTurnStream) (preview : List Char) (r : CallReplies) :
    TelegramTurnStream :=
  match s.msgId with
  | some msgId =>
    let s := s.record (.edit msgId preview r.edit)
    match r.edit.result with
    | .ok _ => { s with delivery := .visible }
    | .error _ => { s with msgId := none }.sendPreview preview r
  | none => s.sendPreview preview r

/-- `flush_preview`. -/
def flushPreview (s : TelegramTurnStream) (r : CallReplies) : TelegramTurnStream :=
  if s.previewText.isEmpty then s
  else { s.showPreview s.previewText r with lastEdit := r.after }

/-- The preview is shown if the last time is long enough ago. -/
def flushIfDue (s : TelegramTurnStream) (r : CallReplies) : TelegramTurnStream :=
  if streamThrottle ≤ r.now - s.lastEdit then s.flushPreview r else s

/-- `delete_preview`. -/
def deletePreview (s : TelegramTurnStream) : TelegramTurnStream :=
  match s.msgId with
  | some msgId => { s with msgId := none }.record (.delete msgId)
  | none => s

/-- A part of the summary: a counter that is not zero, with its word. -/
def summaryPart (emoji : String) (n : UInt64) (one many : String) : List (List Char) :=
  if 0 < n then
    [emoji.toList ++ counterText n ++ [' '] ++ (if n = 1 then one.toList else many.toList)]
  else []

/-- `collapse_summary`. -/
def collapseSummary (s : TelegramTurnStream) (now : ℤ) : List Char :=
  let elapsed := max (UInt64.ofNat ((now - s.start) / 1000).toNat) 1
  " · ".toList.intercalate (summaryPart "🧠 " s.thinkingSteps "thought" "thoughts" ++
    summaryPart "💬 " s.commentaryNotes "note" "notes" ++
    summaryPart "🛠️ " s.toolCount "tool call" "tool calls" ++
    ["⏱️ ".toList ++ counterText elapsed ++ ['s']])

/-- `collapse_to_summary`. -/
def collapseToSummary (s : TelegramTurnStream) (r : CallReplies) : TelegramTurnStream :=
  match s.msgId with
  | some msgId =>
    let s := s.record (.edit msgId (s.collapseSummary r.now) r.edit)
    match r.edit.result with
    | .ok _ => s
    | .error _ => s.deletePreview
  | none => s.deletePreview

/-! ## Events -/

/-- Commentary that a step follows becomes a line of its own. -/
def flushCommentary (s : TelegramTurnStream) : TelegramTurnStream :=
  if s.commentary.isEmpty then s
  else
    { s with
      commentaryNotes := s.commentaryNotes + 1
      toolLines := s.toolLines ++ [commentaryLine s.commentary]
      pendingCommentary := [] }

/-- The last line of the tool that has not failed yet is marked. -/
def markFailed (label : List Char) : List (List Char) → List (List Char)
  | [] => []
  | line :: lines =>
    if lines.any fun l => label <:+: l ∧ ¬ "_failed_".toList <:+: l then line :: markFailed label lines
    else if label <:+: line ∧ ¬ "_failed_".toList <:+: line then
      toolLineWithStatus line false :: lines
    else line :: lines

/-- A turn that goes on keeps its preview: its answer is one more line. -/
def deferDone (s : TelegramTurnStream) (text : List Char) (r : CallReplies) : TelegramTurnStream :=
  let (note, s) := s.doneNote text
  let s := if (trimChars note).isEmpty then s
    else
      { s with
        commentaryNotes := s.commentaryNotes + 1
        toolLines := s.toolLines ++ [commentaryLine (trimChars note)] }
  { s.flushPreview r with finished := true }

/-- `push` in progress mode. -/
def pushProgress (s : TelegramTurnStream) (r : CallReplies) : TurnEvent → TelegramTurnStream
  | .chunk delta =>
    let s := s.flushCompletedThinking
    { s with pendingCommentary := s.pendingCommentary ++ delta }.flushIfDue r
  | .toolCall name args =>
    let s := s.flushCompletedThinking.flushCommentary
    { s with
      toolCount := s.toolCount + 1
      toolLines := s.toolLines ++ [formatToolLine name args] }.flushIfDue r
  | .thinking delta =>
    let s := if s.thinkingActive then s
      else
        let s := s.flushCommentary
        { s with thinkingSteps := s.thinkingSteps + 1, thinkingTokens := 0 }
    { s with
      thinkingActive := true
      thinkingTokens := s.thinkingTokens +
        UInt64.ofNat (max (StrSlice.byteLen delta / 4) 1) }.flushIfDue r
  | .toolResult name isError =>
    if isError then
      { s with toolLines := markFailed (resolveToolDisplay name .null).2.1 s.toolLines }
    else s
  | .done text =>
    let s := { s with answer := some text }
    if s.deferCollapse then s.deferDone text r
    else if s.finalTakeover then { s.collapseToSummary r with finished := true }
    else { s.collapseToSummary r with finished := true }
  | .cancelled _ => { s.deletePreview with finished := true }
  | .error => { s.deletePreview with finished := true }
  | .emptyResponse => { s.deletePreview with finished := true }

/-- `push` in partial mode. -/
def pushPartial (s : TelegramTurnStream) (r : CallReplies) : TurnEvent → TelegramTurnStream
  | .chunk delta => { s with accumulated := s.accumulated ++ delta }.flushIfDue r
  | .done text =>
    let s := { s with answer := some text }
    if s.deferCollapse then
      { s with accumulated := s.accumulated ++ text, finished := true }.flushPreview r
    else
      let s := { s with accumulated := text, finished := true }
      if streamPreviewLimit < s.accumulated.length then s.deletePreview
      else { s.flushPreview r with delivery := .finalDelivered }
  | .error => { s with finished := true }
  | .emptyResponse => { s with finished := true }
  | .cancelled partialText =>
    { s with accumulated := partialText, finished := true }.flushPreview r
  | _ => s

/-- `push`. -/
def push (s : TelegramTurnStream) (r : CallReplies) (event : TurnEvent) : TelegramTurnStream :=
  if s.finished then s
  else if s.isProgress then s.pushProgress r event
  else s.pushPartial r event

/-- `finish`: the stream as it ends. -/
def finish (s : TelegramTurnStream) (r : CallReplies) : TelegramTurnStream :=
  if !s.finished && !s.accumulated.isEmpty then s.flushPreview r else s

end TelegramTurnStream

/-! ## Runs -/

/-- A call of the stream. -/
inductive StreamOp
  | push (event : TurnEvent) (replies : CallReplies)
  | deferCollapse
  | finalTakeover

/-- A step of the stream. -/
def streamStep (s : TelegramTurnStream) : StreamOp → TelegramTurnStream
  | .push event replies => s.push replies event
  | .deferCollapse => { s with deferCollapse := true }
  | .finalTakeover => { s with finalTakeover := true }

end MyClaw
