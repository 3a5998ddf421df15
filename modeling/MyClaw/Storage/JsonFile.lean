import MyClaw.Storage.Serde

set_option autoImplicit false

/-!
# The JSON-file session backend

One session's directory as the backend (`storage/json_file`) keeps it: `meta.json` with the
segment table, the active `history.jsonl`, and one archived `history.NNNN.jsonl` per completed
rotation.  Every operation is the one of the source; writes to the file system succeed.

## Main definitions

* `SegmentRecord`, `SessionMeta`, `SessionDir` — the on-disk types.
* `SessionDir.readHistoryWithIds` — the rows of the active segment, each compaction summary
  inserted at its recorded position with id 0.
* `SessionDir.appendMessage`, `removeLastMessage`, `deleteMessageById`, `updateMessage`,
  `truncateMessages`, `rotateHistoryImpl` — the operations that change the history.
* `SessionDir.queryMessage`, `loadIncremental`, `loadLatestSummary` — the other readers.

## Implementation notes

`updateFirst` is the source's `iter_mut().find(..)` followed by a field assignment.  A session
without `meta.json` is the value `none` of `SessionDir.metaJson`, which the source's operations
test one by one.
-/

namespace MyClaw

open Lines

/-! ## On-disk types -/

/-- A compaction summary that replaced a range of messages, kept in `meta.json`. -/
structure CompactionEntry where
  /-- Position among the real messages where the summary goes when the history is rebuilt. -/
  position : Nat
  text : String
  version : Nat

/-- The segment table's entry of one segment file. -/
structure SegmentRecord where
  segment : Nat
  /-- Global id of the first real message of the segment. -/
  startId : Int
  /-- Number of real messages of the segment. -/
  count : Nat
  compactions : List CompactionEntry := []

/-- The fields of `meta.json` that the history operations use. -/
structure SessionMeta where
  messageCount : Nat
  segment : Nat
  compactVersion : Nat
  compactTokenEstimate : Option Nat
  segments : List SegmentRecord

/-- One session's directory. -/
structure SessionDir where
  metaJson : Option SessionMeta
  /-- `history.jsonl`; `none` when the file does not exist. -/
  history : Option Bytes
  /-- `history.{segment:04}.jsonl`. -/
  archive : Nat → Option Bytes

/-- The first element that meets `p` is replaced by its image. -/
def updateFirst {α : Type*} (p : α → Bool) (f : α → α) : List α → List α
  | [] => []
  | a :: as => if p a then f a :: as else a :: updateFirst p f as

namespace SessionMeta

/-- The record of the active segment. -/
def activeSeg (m : SessionMeta) : Option SegmentRecord :=
  m.segments.find? fun s => s.segment == m.segment

/-- The record of the active segment is replaced. -/
def updateActive (m : SessionMeta) (f : SegmentRecord → SegmentRecord) : SessionMeta :=
  { m with segments := updateFirst (fun s => s.segment == m.segment) f m.segments }

end SessionMeta

/-- `seg.count = seg.count.saturating_sub(1)`. -/
def SegmentRecord.decr (s : SegmentRecord) : SegmentRecord := { s with count := s.count - 1 }

/-- `seg.count += 1`. -/
def SegmentRecord.incr (s : SegmentRecord) : SegmentRecord := { s with count := s.count + 1 }

/-- A compaction summary to be saved. -/
structure SummaryRecord where
  version : Nat
  summary : String
  tokenEstimate : Option Nat

/-! ## Reading -/

/-- The raw line that holds the message of a sequence index: a line that is not UTF-8, is blank
or does not parse takes no index. -/
def nthParseableLineIndex (J : Serde) : List Bytes → Nat → Option Nat
  | [], _ => none
  | line :: lines, seqIdx =>
    match J.readLine line, seqIdx with
    | none, seqIdx => (nthParseableLineIndex J lines seqIdx).map (· + 1)
    | some _, 0 => some 0
    | some _, seqIdx + 1 => (nthParseableLineIndex J lines seqIdx).map (· + 1)

/-- Rows numbered from `startId` on. -/
def numberFrom (startId : Int) (ms : List ChatMessage) : List (Int × ChatMessage) :=
  ms.mapIdx fun i msg => (startId + i, msg)

/-- Each summary inserted at its recorded position with id 0, if that position exists yet. -/
def insertCompactions (comps : List CompactionEntry) (rows : List (Int × ChatMessage)) :
    List (Int × ChatMessage) :=
  comps.foldl (fun result comp =>
    if comp.position ≤ result.length then
      result.insertIdx comp.position (0, ChatMessage.userText comp.text)
    else result) rows

namespace SessionDir

variable (J : Serde)

/-- The active segment's `start_id`, 1 without a record. -/
def startId (d : SessionDir) : Int :=
  ((d.metaJson.bind SessionMeta.activeSeg).map SegmentRecord.startId).getD 1

/-- The messages of the active `history.jsonl`; none when the file is missing. -/
def messages (d : SessionDir) : List ChatMessage := (d.history.map J.messages).getD []

/-- `read_history_with_ids`: the rows of the active segment. -/
def readHistoryWithIds (d : SessionDir) : List (Int × ChatMessage) :=
  match d.metaJson with
  | none => []
  | some m =>
    let comps := (m.activeSeg.map SegmentRecord.compactions).getD []
    let startId := (m.activeSeg.map SegmentRecord.startId).getD 1
    match d.history with
    | none => insertCompactions comps []
    | some content => insertCompactions comps (numberFrom startId (J.messages content))

/-- `load_messages`. -/
def loadMessages (d : SessionDir) : List ChatMessage := (d.readHistoryWithIds J).map Prod.snd

/-- `load_incremental`: the rows with an id above the given one. -/
def loadIncremental (d : SessionDir) (afterMessageId : Int) : List (Int × ChatMessage) :=
  (d.readHistoryWithIds J).filter fun r => decide (afterMessageId < r.1)

/-- A text cut to its first 200 characters. -/
def preview (text : String) : String :=
  if 200 < text.length then String.ofList (text.toList.take 200) else text

/-- `query_message`: the role and a preview of the message with a global id, from the segment
whose id range contains it. -/
def queryMessage (d : SessionDir) (messageId : Int) : Option (String × String) := do
  let m ← d.metaJson
  let seg ← m.segments.find? fun s =>
    decide (s.startId ≤ messageId ∧ messageId < s.startId + s.count)
  let content ← if seg.segment == m.segment then d.history else d.archive seg.segment
  let lines := splitLF content
  let idx ← nthParseableLineIndex J lines (messageId - seg.startId).toNat
  let line ← lines[idx]?
  let msg ← J.readLine line
  some (msg.role, preview msg.textContent)

/-- `load_latest_summary`: the last summary of the active segment, with the saved version. -/
def loadLatestSummary (d : SessionDir) : Option SummaryRecord := do
  let m ← d.metaJson
  if m.compactVersion = 0 then none
  else
    let text := ((m.activeSeg.bind fun s => s.compactions.getLast?).map
      CompactionEntry.text).getD ""
    some { version := m.compactVersion, summary := text, tokenEstimate := m.compactTokenEstimate }

/-! ## Writing -/

/-- `create_session`: an empty first segment that starts at id 1. -/
def createSession : SessionDir where
  metaJson := some
    { messageCount := 0, segment := 0, compactVersion := 0, compactTokenEstimate := none
      segments := [{ segment := 0, startId := 1, count := 0 }] }
  history := none
  archive := fun _ => none

/-- The new `meta.json`, when there is one. -/
def modifyMeta (d : SessionDir) (f : SessionMeta → SessionMeta) : SessionDir :=
  { d with metaJson := d.metaJson.map f }

/-- `append_message`: the line is written, then the counters; the returned id is one more than
the global `message_count`. `none` stands for the `NotFound` error of a missing session. -/
def appendMessage (d : SessionDir) (message : ChatMessage) : Option (SessionDir × Int) :=
  match d.metaJson with
  | none => none
  | some m =>
    let newId : Int := (m.messageCount : Int) + 1
    let line := J.toString message ++ [lf]
    let d' := { d with history := some (d.history.getD [] ++ line) }
    some (d'.modifyMeta fun m =>
      { m with messageCount := newId.toNat }.updateActive SegmentRecord.incr, newId)

/-- `remove_last_message`: the last raw line goes, whatever it holds. -/
def removeLastMessage (d : SessionDir) : SessionDir × Bool :=
  match d.history with
  | none => (d, false)
  | some content =>
    let lines := rawLines content
    if lines = [] then (d, false)
    else
      let d' := { d with history := some (joinLines lines.dropLast) }
      (d'.modifyMeta fun m =>
        { m.updateActive SegmentRecord.decr with messageCount := m.messageCount - 1 }, true)

/-- `delete_message_by_id`: the line of a message of the active segment goes; `message_count`
stays. -/
def deleteMessageById (d : SessionDir) (messageId : Int) : SessionDir × Bool :=
  match d.history with
  | none => (d, false)
  | some content =>
    let lines := rawLines content
    if messageId < d.startId then (d, false)
    else
      match nthParseableLineIndex J lines (messageId - d.startId).toNat with
      | none => (d, false)
      | some idx =>
        let d' := { d with history := some (joinLines (lines.eraseIdx idx)) }
        (d'.modifyMeta fun m => m.updateActive SegmentRecord.decr, true)

/-- `update_message`: the line of a message of the active segment is replaced. -/
def updateMessage (d : SessionDir) (messageId : Int) (message : ChatMessage) :
    SessionDir × Bool :=
  match d.history with
  | none => (d, false)
  | some content =>
    let lines := rawLines content
    if messageId < d.startId then (d, false)
    else
      match nthParseableLineIndex J lines (messageId - d.startId).toNat with
      | none => (d, false)
      | some idx => ({ d with history := some (joinLines (lines.set idx (J.toString message))) },
          true)

/-- `truncate_messages`: the first `keepCount` non-empty lines stay, and the counters are set as
if each of them were a message. -/
def truncateMessages (d : SessionDir) (keepCount : Nat) : SessionDir :=
  match d.history with
  | none => d
  | some content =>
    let lines := (splitLF content).filter (· ≠ [])
    if lines.length ≤ keepCount then d
    else
      let d' := { d with history := some (joinLines (lines.take keepCount)) }
      d'.modifyMeta fun m =>
        let archivedTotal := ((m.segments.filter (·.segment ≠ m.segment)).map (·.count)).sum
        { m.updateActive (fun s => { s with count := keepCount }) with
          messageCount := archivedTotal + keepCount }

/-- The real messages that a rotation carries over: those with an id. -/
def realMessages (surviving : List (Int × ChatMessage)) : List ChatMessage :=
  (surviving.filter (·.1 ≠ 0)).map Prod.snd

/-- The summaries that a rotation carries over, each with the number of real messages before
it. -/
def newCompactions (version : Nat) : Nat → List (Int × ChatMessage) → List CompactionEntry
  | _, [] => []
  | realCount, (id, msg) :: rest =>
    if id = 0 then
      { position := realCount, text := msg.textContent, version := version } ::
        newCompactions version realCount rest
    else newCompactions version (realCount + 1) rest

/-- The number of lines that a rotation records for the archived file: its non-empty lines, and 0
when the file as a whole is not UTF-8. -/
def archivedCount (history : Option Bytes) : Nat :=
  match history with
  | none => 0
  | some content =>
    if validUtf8 content then ((strLines content).filter (· ≠ [])).length else 0

/-- The start id of the segment that a rotation archives. -/
def archivedStartId (m : SessionMeta) : Int :=
  (m.activeSeg.map SegmentRecord.startId).getD
    ((m.segments.filter (·.segment < m.segment)).foldl (fun _ r => r.startId + r.count) 1)

/-- `rotate_history_impl`: the active file is archived and a new segment starts with the
survivors; `message_count` stays. -/
def rotateHistoryImpl (d : SessionDir) (surviving : List (Int × ChatMessage)) : SessionDir :=
  match d.metaJson with
  | none => d
  | some m =>
    let archived : SegmentRecord :=
      { segment := m.segment, startId := archivedStartId m, count := archivedCount d.history }
    let active : SegmentRecord :=
      { segment := m.segment + 1
        startId := archived.startId + archived.count
        count := (realMessages surviving).length
        compactions := newCompactions m.compactVersion 0 surviving }
    let kept := m.segments.filter fun s => s.segment ≠ m.segment ∧ s.segment ≠ m.segment + 1
    { metaJson := some { m with segments := kept ++ [archived] ++ [active], segment := m.segment + 1 }
      history := if surviving = [] then none else some (J.writeMessages (realMessages surviving))
      archive := match d.history with
        | none => d.archive
        | some content => Function.update d.archive m.segment (some content) }

/-- `save_summary`: only the version and the token estimate are saved; the text goes to the
segment record at the next rotation. -/
def saveSummary (d : SessionDir) (summary : SummaryRecord) : SessionDir :=
  d.modifyMeta fun m =>
    { m with compactVersion := summary.version, compactTokenEstimate := summary.tokenEstimate }

end SessionDir

/-! ## Operations of a run -/

/-- The operations on the history of one session. -/
inductive Op
  | append (message : ChatMessage)
  | update (messageId : Int) (message : ChatMessage)
  | delete (messageId : Int)
  | removeLast
  | truncate (keepCount : Nat)
  | rotate (surviving : List (Int × ChatMessage))

/-- The directory after an operation. -/
def SessionDir.apply (J : Serde) (d : SessionDir) : Op → SessionDir
  | .append message => ((d.appendMessage J message).map Prod.fst).getD d
  | .update messageId message => (d.updateMessage J messageId message).1
  | .delete messageId => (d.deleteMessageById J messageId).1
  | .removeLast => d.removeLastMessage.1
  | .truncate keepCount => d.truncateMessages keepCount
  | .rotate surviving => d.rotateHistoryImpl J surviving

end MyClaw
