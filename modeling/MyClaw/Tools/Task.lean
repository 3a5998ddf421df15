import MyClaw.Agent.ToolPhase
import MyClaw.Channels.Markup
import MyClaw.Identity.Ids
import MyClaw.Lib.Forest
import MyClaw.Lib.Json

set_option autoImplicit false

/-!
# The task board

The tools `task_create`, `task_update` and `task_delete` (`tools/task.rs`).  The board of a session is a
file of tasks; each call loads it, changes it in memory and saves it again.

## Main definitions

* `Task`, `TaskState` — a task, and a board in memory.
* `TaskState.load`, `TaskState.save` — a board and its file.
* `TaskState.collectDescendantIds` — a task and those below it.
* `taskCreate`, `taskUpdate`, `taskDelete` — the tools.

## Implementation notes

The files are a function of their paths, and writing one succeeds.  JSON, `Debug` of a string, uuids and
times are parameters.  The loop over the descendants runs on fuel.
-/

namespace MyClaw

/-- `Task`. -/
structure Task where
  id : String
  parentId : Option String
  subject : String
  description : String
  status : String
  createdAt : String

/-- What the tools take from elsewhere; `γ` is the contents of a file. -/
structure TaskEnv (γ : Type) where
  /-- `serde_json::to_string_pretty` of a board. -/
  encode : List Task → γ
  /-- `serde_json::from_str` of a board. -/
  decode : γ → Option (List Task)
  /-- A board is read as it was written. -/
  decode_encode : ∀ tasks, decode (encode tasks) = some tasks
  /-- `serde_json::to_string`. -/
  render : JsonValue → String
  /-- `{:?}` of a string. -/
  debugStr : String → String
  /-- `Uuid::parse_str`, in the standard form. -/
  parseUuid : String → Option String

/-- The files of all boards by their paths. -/
abbrev TaskFiles (γ : Type) := String → Option γ

/-- The result of a call that fails. -/
def ToolResult.failure (error : String) : ToolResult := ⟨false, "", some error⟩

variable {γ : Type} (env : TaskEnv γ)

/-! ## Boards -/

/-- `TaskState`. -/
structure TaskState where
  tasks : List Task
  nspace : String
  savePath : Option String

namespace TaskState

/-- `TaskState::load`. -/
def load (files : TaskFiles γ) (path nspace : String) : TaskState :=
  ⟨((files path).bind env.decode).getD [], nspace, some path⟩

/-- `TaskState::save`. -/
def save (state : TaskState) (files : TaskFiles γ) : TaskFiles γ :=
  match state.savePath with
  | none => files
  | some path => Function.update files path (some (env.encode state.tasks))

/-- `next_id`, for a new uuid. -/
def nextId (state : TaskState) (uuid : String) : String := state.nspace ++ "/t/" ++ uuid

/-- `find_task`. -/
def findTask (state : TaskState) (id : String) : Option Task := state.tasks.find? (·.id = id)

/-- The loop of `collect_descendant_ids`; the stack has its top in front. -/
def descendantLoop (tasks : List Task) : ℕ → List String → List String → Option (List String)
  | 0, _, _ => none
  | _ + 1, result, [] => some result
  | fuel + 1, result, current :: stack =>
    let found := (tasks.filter (·.parentId = some current)).map Task.id
    descendantLoop tasks fuel (result ++ found) (found.reverse ++ stack)

/-- `collect_descendant_ids`. -/
def collectDescendantIds (state : TaskState) (id : String) (fuel : ℕ) : Option (List String) :=
  descendantLoop state.tasks fuel [id] [id]

end TaskState

/-- `TaskBoards`. -/
structure TaskBoards where
  sessionsRoot : String
  nspace : String

namespace TaskBoards

/-- `board_path`. -/
def boardPath (boards : TaskBoards) (sessionId : String) : String :=
  boards.sessionsRoot ++ "/" ++ bareDirNameOf env.parseUuid sessionId ++ "/tasks.json"

/-- `TaskBoards::load`. -/
def load (boards : TaskBoards) (files : TaskFiles γ) (sessionId : String) : TaskState :=
  TaskState.load env files (boards.boardPath env sessionId) boards.nspace

end TaskBoards

/-! ## Unknown tasks -/

/-- `truncate_line`. -/
def truncateLine (s : String) (maxChars : ℕ) : String :=
  let firstLine := (textLines s.toList).headD []
  if firstLine.length ≤ maxChars then String.ofList firstLine
  else String.ofList (firstLine.take (maxChars - 3)) ++ "..."

/-- `UNKNOWN_TASK_LISTING_CAP`. -/
def unknownTaskListingCap : ℕ := 20

/-- `UNKNOWN_TASK_SUBJECT_PREVIEW_CHARS`. -/
def unknownTaskSubjectPreviewChars : ℕ := 60

/-- `format_unknown_task_listing`. -/
def formatUnknownTaskListing (state : TaskState) : String :=
  if state.tasks = [] then " This session's task board is empty."
  else
    let shown := (state.tasks.reverse.take unknownTaskListingCap).map fun t =>
      "  " ++ t.id ++ " status=" ++ t.status ++ " subject="
        ++ env.debugStr (truncateLine t.subject unknownTaskSubjectPreviewChars)
    let omitted := state.tasks.length - shown.length
    " This session's tasks (use task_list to browse the tree):\n" ++ "\n".intercalate shown
      ++ if 0 < omitted then "\n  ... and " ++ toString omitted ++ " more" else ""

/-! ## The tools -/

/-- The text of a member of the arguments. -/
def strArg (args : JsonValue) (key : String) : Option String := (args.get key).bind JsonValue.asStr

/-- The subjects of `task_create`: a text, or the texts of an array. -/
def subjectsArg (args : JsonValue) : Option (List String) :=
  match args.get "subject" with
  | some (.str s) => some [s]
  | some (.arr items) => some (items.filterMap JsonValue.asStr)
  | _ => none

/-- The tasks that `task_create` adds, with a uuid and a time for each. -/
def newTasks (state : TaskState) (parent : Option String) (description : String)
    (uuid now : ℕ → String) (subjects : List String) : List Task :=
  subjects.mapIdx fun i subject =>
    { id := state.nextId (uuid i)
      parentId := parent
      subject
      description := if subjects.length = 1 then description else ""
      status := "pending"
      createdAt := now i }

/-- The output of `task_create`. -/
def createdJson (kind : String) (tasks : List Task) : JsonValue :=
  match tasks with
  | [task] => .obj [("ok", .bool true), ("kind", .str kind), ("task_id", .str task.id),
      ("subject", .str task.subject)]
  | tasks => .obj [("ok", .bool true), ("kind", .str kind),
      ("tasks", .arr (tasks.map fun t => .obj [("task_id", .str t.id), ("subject", .str t.subject)])),
      ("count", .num tasks.length)]

/-- `TaskCreateTool::execute`. -/
def taskCreate (boards : TaskBoards) (sessionId : String) (uuid now : ℕ → String) (args : JsonValue)
    (files : TaskFiles γ) : Except String ToolResult × TaskFiles γ :=
  let parent := strArg args "parent"
  let description := (strArg args "details").getD ""
  let state := boards.load env files sessionId
  match parent.filter fun id => (state.findTask id).isNone with
  | some id =>
    (.ok (.failure ("parent task not found: " ++ id ++ "." ++ formatUnknownTaskListing env state)),
      files)
  | none =>
    match subjectsArg args with
    | none => (.ok (.failure "subject must be a string or array of strings"), files)
    | some [] => (.ok (.failure "subject cannot be empty"), files)
    | some subjects =>
      let created := newTasks state parent description uuid now subjects
      let kind := if parent.isSome then "task" else "goal"
      (.ok ⟨true, env.render (createdJson kind created), none⟩,
        TaskState.save env { state with tasks := state.tasks ++ created } files)

/-- The statuses of a task. -/
def validStatuses : List String := ["pending", "in_progress", "completed", "cancelled"]

/-- The first task of the id, with another status. -/
def setStatus (id status : String) : List Task → List Task
  | [] => []
  | t :: tasks =>
    if t.id = id then { t with status := status } :: tasks else t :: setStatus id status tasks

/-- `TaskUpdateTool::execute`. -/
def taskUpdate (boards : TaskBoards) (sessionId : String) (args : JsonValue) (files : TaskFiles γ) :
    Except String ToolResult × TaskFiles γ :=
  match strArg args "task_id", strArg args "status" with
  | none, _ => (.error "missing 'task_id'", files)
  | some _, none => (.error "missing 'status'", files)
  | some id, some status =>
    if status ∉ validStatuses then
      (.ok (.failure ("invalid status: " ++ status ++ ". Must be one of: ["
        ++ ", ".intercalate (validStatuses.map env.debugStr) ++ "]")), files)
    else
      let state := boards.load env files sessionId
      match state.findTask id with
      | some task =>
        (.ok ⟨true, env.render (.obj [("ok", .bool true), ("task_id", .str id),
            ("subject", .str task.subject), ("new_status", .str status)]), none⟩,
          TaskState.save env { state with tasks := setStatus id status state.tasks } files)
      | none =>
        (.ok (.failure ("task not found: " ++ id ++ "." ++ formatUnknownTaskListing env state)), files)

/-- `TaskDeleteTool::execute`. -/
def taskDelete (boards : TaskBoards) (sessionId : String) (args : JsonValue) (files : TaskFiles γ)
    (fuel : ℕ) : Option (Except String ToolResult × TaskFiles γ) :=
  match strArg args "task_id" with
  | none => some (.error "missing 'task_id'", files)
  | some id =>
    let state := boards.load env files sessionId
    if (state.findTask id).isNone then
      some (.ok (.failure ("task not found: " ++ id ++ "." ++ formatUnknownTaskListing env state)),
        files)
    else
      (state.collectDescendantIds id fuel).map fun idsToRemove =>
        (.ok ⟨true, env.render (.obj [("ok", .bool true), ("deleted", .arr (idsToRemove.map .str)),
            ("count", .num idsToRemove.length)]), none⟩,
          TaskState.save env { state with tasks := state.tasks.filter (·.id ∉ idsToRemove) } files)

end MyClaw
