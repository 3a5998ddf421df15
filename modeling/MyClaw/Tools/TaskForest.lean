import MyClaw.Tools.Task

set_option autoImplicit false

/-!
# The task board is a forest

What holds of the boards of all sessions after any calls of the task tools: parent links form a
forest, the walk over the descendants of a task ends with each of them once, a deletion removes
these and nothing else, and a call that fails changes nothing.

## Main definitions

* `taskNodes` — the tasks of a board with their parents.
* `TaskCall` — a call of one of the tools, with the uuids and times it draws.
* `TasksReachable` — the files after calls that draw new ids, from no boards.
* `BoardsSound` — what holds of the files.

## Main results

* `exists_returns_run` — each call returns.
* `isForest_run` — a call that draws new ids keeps all boards forests.
* `boardsSound_of_reachable` — the boards are sound after any calls.
-/

namespace MyClaw

open Relation

variable {γ : Type} {env : TaskEnv γ} {boards : TaskBoards} {files files' : TaskFiles γ}
  {tasks : List Task}

/-- The tasks of a board with their parents. -/
def taskNodes (tasks : List Task) : List (String × Option String) :=
  tasks.map fun t => (t.id, t.parentId)

/-- The tasks on the board of a session. -/
def boardTasks (env : TaskEnv γ) (boards : TaskBoards) (files : TaskFiles γ) (sessionId : String) :
    List Task := (boards.load env files sessionId).tasks

/-! ## The walk -/

/-- The loop over the descendants is the walk over the nodes of the board. -/
lemma descendantLoop_eq_walk (tasks : List Task) (fuel : ℕ) (result stack : List String) :
    TaskState.descendantLoop tasks fuel result stack =
      Forest.walk (taskNodes tasks) fuel result stack := by
  have hchildren (current : String) : (tasks.filter (·.parentId = some current)).map Task.id =
      Forest.children (taskNodes tasks) current := by
    rw [Forest.children, taskNodes, List.filter_map, List.map_map]
    rfl
  induction fuel generalizing result stack with
  | zero => rfl
  | succ fuel ih =>
    cases stack with
    | nil => rfl
    | cons current stack =>
      rw [TaskState.descendantLoop, Forest.walk, hchildren]
      exact ih _ _

/-- **The descendants of a task are collected**, each once, on a board that is a forest. -/
theorem returns_collectDescendantIds {state : TaskState}
    (h : Forest.IsForest (taskNodes state.tasks)) (id : String) :
    ∃ r, Fuel.Returns (state.collectDescendantIds id) r ∧ r.Nodup ∧
      ∀ x, x ∈ r ↔ ReflTransGen (Forest.Child (taskNodes state.tasks)) id x := by
  obtain ⟨r, hreturns, hr⟩ := Forest.returns_walk h.nodup (h.acyclic id)
  refine ⟨r, ?_, hr⟩
  have heq : state.collectDescendantIds id =
      fun fuel => Forest.walk (taskNodes state.tasks) fuel [id] [id] :=
    funext fun fuel => descendantLoop_eq_walk state.tasks fuel [id] [id]
  rwa [heq]

/-! ## Calls -/

/-- A tool that changes boards. -/
inductive TaskTool
  | create
  | update
  | delete

/-- A call of a tool, with the uuids and the times that it draws. -/
structure TaskCall where
  tool : TaskTool
  sessionId : String
  args : JsonValue
  uuid : ℕ → String
  now : ℕ → String

namespace TaskCall

/-- The result of the call and the files behind it. -/
def run (env : TaskEnv γ) (boards : TaskBoards) (c : TaskCall) (files : TaskFiles γ) (fuel : ℕ) :
    Option (Except String ToolResult × TaskFiles γ) :=
  match c.tool with
  | .create => some (taskCreate env boards c.sessionId c.uuid c.now c.args files)
  | .update => some (taskUpdate env boards c.sessionId c.args files)
  | .delete => taskDelete env boards c.sessionId c.args files fuel

/-- The ids that the call generates. -/
def generatedIds (boards : TaskBoards) (c : TaskCall) : List String :=
  match c.tool with
  | .create =>
    (List.range ((subjectsArg c.args).getD []).length).map fun i =>
      boards.nspace ++ "/t/" ++ c.uuid i
  | _ => []

/-- The ids that the call generates are new on its board. -/
def Fresh (env : TaskEnv γ) (boards : TaskBoards) (c : TaskCall) (files : TaskFiles γ) : Prop :=
  (c.generatedIds boards).Nodup ∧
    ∀ id ∈ c.generatedIds boards, id ∉ (boardTasks env boards files c.sessionId).map Task.id

end TaskCall

/-- The call reports a failure. -/
def TaskFailed : Except String ToolResult → Prop
  | .error _ => True
  | .ok result => result.success = false

/-- The files that calls lead to, from files that have no board. -/
inductive TasksReachable (env : TaskEnv γ) (boards : TaskBoards) : TaskFiles γ → Prop
  | start {files : TaskFiles γ} (h : ∀ sessionId, boardTasks env boards files sessionId = []) :
    TasksReachable env boards files
  | call {files files' : TaskFiles γ} {c : TaskCall} {out : Except String ToolResult}
    (h : TasksReachable env boards files) (hfresh : c.Fresh env boards files)
    (hrun : Fuel.Returns (c.run env boards files) (out, files')) : TasksReachable env boards files'

/-- The tasks are on the board of the session, and on no board of another path. -/
def BoardSaved (env : TaskEnv γ) (boards : TaskBoards) (files : TaskFiles γ) (sessionId : String)
    (tasks : List Task) (files' : TaskFiles γ) : Prop :=
  ∀ other, boardTasks env boards files' other =
    if boards.boardPath env other = boards.boardPath env sessionId then tasks
    else boardTasks env boards files other

/-- What holds of the boards: they are forests, descendants are collected, each call returns, changes
nothing if it fails, and a deletion removes a task with its descendants. -/
structure BoardsSound (env : TaskEnv γ) (boards : TaskBoards) (files : TaskFiles γ) : Prop where
  forest : ∀ sessionId, Forest.IsForest (taskNodes (boardTasks env boards files sessionId))
  collects : ∀ sessionId id, ∃ r,
    Fuel.Returns ((boards.load env files sessionId).collectDescendantIds id) r ∧ r.Nodup ∧
      ∀ x, x ∈ r ↔
        ReflTransGen (Forest.Child (taskNodes (boardTasks env boards files sessionId))) id x
  returns : ∀ c : TaskCall, ∃ out files', Fuel.Returns (c.run env boards files) (out, files')
  fails : ∀ (c : TaskCall) out files', Fuel.Returns (c.run env boards files) (out, files') →
    TaskFailed out → files' = files
  deletes : ∀ (c : TaskCall) out files' id, c.tool = .delete → strArg c.args "task_id" = some id →
    Fuel.Returns (c.run env boards files) (out, files') → ¬ TaskFailed out →
      ∃ removed : List String, removed.Nodup ∧
        (∀ x, x ∈ removed ↔
          ReflTransGen (Forest.Child (taskNodes (boardTasks env boards files c.sessionId))) id x) ∧
        BoardSaved env boards files c.sessionId
          ((boardTasks env boards files c.sessionId).filter (·.id ∉ removed)) files'

/-! ## What a call does -/

lemma boardSaved_save (ts : List Task) (sessionId : String) :
    BoardSaved env boards files sessionId ts
      (TaskState.save env { boards.load env files sessionId with tasks := ts } files) := by
  intro other
  rw [boardTasks, TaskBoards.load, TaskState.load, TaskState.save]
  simp only [TaskBoards.load, TaskState.load, Function.update_apply]
  split_ifs with hpath
  · rw [Option.bind_some, env.decode_encode, Option.getD_some]
  · rfl

lemma keys_taskNodes (tasks : List Task) : Forest.keys (taskNodes tasks) = tasks.map Task.id := by
  rw [Forest.keys, taskNodes, List.map_map]
  rfl

/-- The nodes that a creation adds. -/
lemma taskNodes_newTasks {state : TaskState} {parent : Option String} {description : String}
    {uuid now : ℕ → String} {subjects : List String} :
    taskNodes (newTasks state parent description uuid now subjects) =
      ((List.range subjects.length).map fun i => state.nextId (uuid i)).map fun id =>
        (id, parent) :=
  List.ext_getElem (by simp [taskNodes, newTasks]) fun i _ _ => by simp [taskNodes, newTasks]

/-- What a call that does not fail makes of the tasks of its board. -/
def TaskWrites (boards : TaskBoards) (c : TaskCall) (tasks ts : List Task) : Prop :=
  match c.tool with
  | .create => ∃ parent : Option String, (∀ p ∈ parent, p ∈ tasks.map Task.id) ∧
      taskNodes ts = taskNodes tasks ++ (c.generatedIds boards).map fun id => (id, parent)
  | .update => taskNodes ts = taskNodes tasks
  | .delete => ∃ (id : String) (removed : List String), strArg c.args "task_id" = some id ∧
      removed.Nodup ∧ (∀ x, x ∈ removed ↔ ReflTransGen (Forest.Child (taskNodes tasks)) id x) ∧
      ts = tasks.filter (·.id ∉ removed)

/-- A call fails and changes nothing, or writes its board. -/
def TaskCallDone (env : TaskEnv γ) (boards : TaskBoards) (c : TaskCall) (files : TaskFiles γ)
    (r : Except String ToolResult × TaskFiles γ) : Prop :=
  (TaskFailed r.1 ∧ r.2 = files) ∨
    (¬ TaskFailed r.1 ∧ ∃ ts, BoardSaved env boards files c.sessionId ts r.2 ∧
      TaskWrites boards c (boardTasks env boards files c.sessionId) ts)

/-- **A creation** adds leaves under no task or one of the board. -/
lemma taskCallDone_create (sessionId : String) (args : JsonValue) (uuid now : ℕ → String) :
    TaskCallDone env boards ⟨.create, sessionId, args, uuid, now⟩ files
      (taskCreate env boards sessionId uuid now args files) := by
  rw [taskCreate]
  cases hparent : (strArg args "parent").filter fun id =>
      ((boards.load env files sessionId).findTask id).isNone with
  | some id => exact .inl ⟨rfl, rfl⟩
  | none =>
    cases hsubjects : subjectsArg args with
    | none => exact .inl ⟨rfl, rfl⟩
    | some subjects =>
      cases subjects with
      | nil => exact .inl ⟨rfl, rfl⟩
      | cons subject subjects =>
        refine .inr ⟨nofun, _, boardSaved_save _ sessionId, strArg args "parent", fun p hp => ?_, ?_⟩
        · have hfound := Option.filter_eq_none_iff.1 hparent p hp
          rw [Option.isNone_iff_eq_none, TaskState.findTask, List.find?_eq_none] at hfound
          simpa [boardTasks] using hfound
        · rw [taskNodes, List.map_append, TaskCall.generatedIds, hsubjects]
          exact congrArg (_ ++ ·) taskNodes_newTasks

lemma taskNodes_setStatus (id status : String) (tasks : List Task) :
    taskNodes (setStatus id status tasks) = taskNodes tasks := by
  induction tasks with
  | nil => rfl
  | cons t tasks ih =>
    rw [setStatus]
    split_ifs
    · rfl
    · exact congrArg (_ :: ·) ih

/-- **An update** leaves the ids and the parents as they are. -/
lemma taskCallDone_update (sessionId : String) (args : JsonValue) (uuid now : ℕ → String) :
    TaskCallDone env boards ⟨.update, sessionId, args, uuid, now⟩ files
      (taskUpdate env boards sessionId args files) := by
  rw [taskUpdate]
  cases strArg args "task_id" with
  | none => exact .inl ⟨trivial, rfl⟩
  | some id =>
    cases strArg args "status" with
    | none => exact .inl ⟨trivial, rfl⟩
    | some status =>
      simp only
      by_cases hvalid : status ∈ validStatuses
      · rw [if_neg (not_not.2 hvalid)]
        cases (boards.load env files sessionId).findTask id with
        | none => exact .inl ⟨rfl, rfl⟩
        | some task =>
          exact .inr ⟨nofun, _, boardSaved_save _ sessionId, taskNodes_setStatus id status _⟩
      · rw [if_pos hvalid]
        exact .inl ⟨rfl, rfl⟩

/-- **A deletion** returns, and removes a task with its descendants. -/
lemma taskCallDone_delete (sessionId : String) (args : JsonValue) (uuid now : ℕ → String)
    (h : Forest.IsForest (taskNodes (boardTasks env boards files sessionId))) :
    ∃ r, Fuel.Returns (taskDelete env boards sessionId args files) r ∧
      TaskCallDone env boards ⟨.delete, sessionId, args, uuid, now⟩ files r := by
  cases hid : strArg args "task_id" with
  | none =>
    have hrun (fuel : ℕ) : taskDelete env boards sessionId args files fuel =
        some (.error "missing 'task_id'", files) := by
      rw [taskDelete, hid]
    exact ⟨_, ⟨0, fun fuel _ => hrun fuel⟩, .inl ⟨trivial, rfl⟩⟩
  | some id =>
    by_cases hnone : ((boards.load env files sessionId).findTask id).isNone = true
    · have hrun (fuel : ℕ) : taskDelete env boards sessionId args files fuel =
          some (.ok (.failure ("task not found: " ++ id ++ "."
            ++ formatUnknownTaskListing env (boards.load env files sessionId))), files) := by
        rw [taskDelete, hid]
        exact if_pos hnone
      exact ⟨_, ⟨0, fun fuel _ => hrun fuel⟩, .inl ⟨rfl, rfl⟩⟩
    · obtain ⟨removed, ⟨least, hleast⟩, hnodup, hmem⟩ := returns_collectDescendantIds h id
      have hrun (fuel : ℕ) (hfuel : least ≤ fuel) :
          taskDelete env boards sessionId args files fuel =
            some (.ok ⟨true, env.render (.obj [("ok", .bool true),
              ("deleted", .arr (removed.map .str)), ("count", .num removed.length)]), none⟩,
              TaskState.save env { boards.load env files sessionId with
                tasks := (boardTasks env boards files sessionId).filter (·.id ∉ removed) } files) := by
        have hcollect := hleast fuel hfuel
        rw [taskDelete, hid]
        simp only [if_neg hnone]
        exact congrArg (Option.map _) hcollect
      exact ⟨_, ⟨least, hrun⟩,
        .inr ⟨nofun, _, boardSaved_save _ sessionId, id, removed, hid, hnodup, hmem, rfl⟩⟩

/-- **Each call returns**, and fails and changes nothing or writes its board. -/
theorem exists_returns_run
    (h : ∀ sessionId, Forest.IsForest (taskNodes (boardTasks env boards files sessionId)))
    (c : TaskCall) :
    ∃ r, Fuel.Returns (c.run env boards files) r ∧ TaskCallDone env boards c files r := by
  obtain ⟨tool, sessionId, args, uuid, now⟩ := c
  cases tool with
  | create => exact ⟨_, Fuel.Returns.pure _, taskCallDone_create sessionId args uuid now⟩
  | update => exact ⟨_, Fuel.Returns.pure _, taskCallDone_update sessionId args uuid now⟩
  | delete => exact taskCallDone_delete sessionId args uuid now (h sessionId)

/-- So does whatever it returns. -/
lemma taskCallDone_of_returns
    (h : ∀ sessionId, Forest.IsForest (taskNodes (boardTasks env boards files sessionId)))
    {c : TaskCall} {r : Except String ToolResult × TaskFiles γ}
    (hrun : Fuel.Returns (c.run env boards files) r) : TaskCallDone env boards c files r := by
  obtain ⟨r', hreturns, hdone⟩ := exists_returns_run h c
  exact hreturns.unique hrun ▸ hdone

/-! ## Sound boards -/

/-- A call that draws new ids writes a forest. -/
lemma isForest_of_taskWrites {c : TaskCall} {ts : List Task}
    (h : Forest.IsForest (taskNodes (boardTasks env boards files c.sessionId)))
    (hfresh : c.Fresh env boards files)
    (hwrites : TaskWrites boards c (boardTasks env boards files c.sessionId) ts) :
    Forest.IsForest (taskNodes ts) := by
  rw [TaskWrites] at hwrites
  split at hwrites
  · obtain ⟨parent, hparent, hnodes⟩ := hwrites
    rw [hnodes]
    refine h.append hfresh.1 (fun id hid => ?_) fun p hp => ?_
    · rw [keys_taskNodes]
      exact hfresh.2 id hid
    · rw [keys_taskNodes]
      exact hparent p hp
  · rwa [hwrites]
  · obtain ⟨id, removed, -, -, hmem, rfl⟩ := hwrites
    have hfilter : taskNodes ((boardTasks env boards files c.sessionId).filter (·.id ∉ removed)) =
        (taskNodes (boardTasks env boards files c.sessionId)).filter
          fun x => x.1 ∉ removed := by
      rw [taskNodes, taskNodes, List.filter_map]
      rfl
    rw [hfilter]
    refine h.filter (fun y => decide (y ∉ removed)) fun x y hxy hy => ?_
    simp only [decide_eq_true_eq] at hy ⊢
    exact fun hx => hy ((hmem y).2 (((hmem x).1 hx).tail hxy))

/-- **A call that draws new ids keeps all boards forests.** -/
theorem isForest_run
    (h : ∀ sessionId, Forest.IsForest (taskNodes (boardTasks env boards files sessionId)))
    {c : TaskCall} {out : Except String ToolResult} (hfresh : c.Fresh env boards files)
    (hrun : Fuel.Returns (c.run env boards files) (out, files')) (sessionId : String) :
    Forest.IsForest (taskNodes (boardTasks env boards files' sessionId)) := by
  rcases taskCallDone_of_returns h hrun with ⟨-, rfl⟩ | ⟨-, ts, hsaved, hwrites⟩
  · exact h sessionId
  · rw [hsaved sessionId]
    split_ifs
    · exact isForest_of_taskWrites (h c.sessionId) hfresh hwrites
    · exact h sessionId

/-- **The boards of all sessions are sound after any calls that draw new ids.**

The boards are forests by induction on the calls.  On a forest, the walk over the descendants ends,
so that each call returns, and what it writes says what it has done. -/
theorem boardsSound_of_reachable (h : TasksReachable env boards files) :
    BoardsSound env boards files := by
  have hforest : ∀ sessionId, Forest.IsForest (taskNodes (boardTasks env boards files sessionId)) := by
    induction h with
    | start h =>
      intro sessionId
      rw [h sessionId]
      exact Forest.IsForest.nil
    | call _ hfresh hrun ih => exact isForest_run ih hfresh hrun
  refine ⟨hforest, fun sessionId id => returns_collectDescendantIds (hforest sessionId) id,
    fun c => ?_, fun c out files' hrun hfailed => ?_, fun c out files' id htool hid hrun hok => ?_⟩
  · obtain ⟨⟨out, files'⟩, hreturns, -⟩ := exists_returns_run hforest c
    exact ⟨out, files', hreturns⟩
  · rcases taskCallDone_of_returns hforest hrun with ⟨-, hfiles⟩ | ⟨hok, -⟩
    · exact hfiles
    · exact absurd hfailed hok
  · rcases taskCallDone_of_returns hforest hrun with ⟨hfailed, -⟩ | ⟨-, ts, hsaved, hwrites⟩
    · exact absurd hfailed hok
    · rw [TaskWrites, htool] at hwrites
      obtain ⟨id', removed, hid', hnodup, hmem, rfl⟩ := hwrites
      obtain rfl := Option.some.inj (hid.symm.trans hid')
      exact ⟨removed, hnodup, hmem, hsaved⟩

/-- Boards are written as they are. -/
def TaskEnv.plain : TaskEnv (List Task) where
  encode := id
  decode := some
  decode_encode _ := rfl
  render _ := ""
  debugStr s := s
  parseUuid _ := none

/-- The files behind calls that have three units of fuel each. -/
def filesBehind (calls : List TaskCall) : TaskFiles (List Task) :=
  calls.foldl (fun files c =>
    ((c.run .plain ⟨"sessions", "myclaw"⟩ files 3).map Prod.snd).getD files) fun _ => none

/-- A goal is created. -/
def createGoal : TaskCall :=
  ⟨.create, "s", .obj [("subject", .str "goal")], fun _ => "0", fun _ => ""⟩

/-- A task is created below it. -/
def createStep : TaskCall :=
  ⟨.create, "s", .obj [("subject", .str "step"), ("parent", .str "myclaw/t/0")], fun _ => "1",
    fun _ => ""⟩

/-- The goal is deleted. -/
def deleteGoal : TaskCall :=
  ⟨.delete, "s", .obj [("task_id", .str "myclaw/t/0")], fun _ => "", fun _ => ""⟩

/-- A goal with a task below it, and the boards behind its deletion. -/
theorem boardsSound_deleteGoal :
    (boardTasks .plain ⟨"sessions", "myclaw"⟩ (filesBehind [createGoal, createStep]) "s").length = 2 ∧
      BoardsSound .plain ⟨"sessions", "myclaw"⟩ (filesBehind [createGoal, createStep, deleteGoal]) := by
  refine ⟨by decide +kernel, boardsSound_of_reachable ?_⟩
  have hnone : TasksReachable .plain ⟨"sessions", "myclaw"⟩ (filesBehind []) := .start fun _ => rfl
  have hgoal : TasksReachable .plain ⟨"sessions", "myclaw"⟩ (filesBehind [createGoal]) :=
    .call (c := createGoal) hnone ⟨by decide +kernel, by decide +kernel⟩ ⟨0, fun _ _ => rfl⟩
  have hstep : TasksReachable .plain ⟨"sessions", "myclaw"⟩ (filesBehind [createGoal, createStep]) :=
    .call (c := createStep) hgoal ⟨by decide +kernel, by decide +kernel⟩ ⟨0, fun _ _ => rfl⟩
  have hdelete : Fuel.Returns
      (deleteGoal.run .plain ⟨"sessions", "myclaw"⟩ (filesBehind [createGoal, createStep]))
      (.ok ⟨true, "", none⟩, filesBehind [createGoal, createStep, deleteGoal]) := by
    refine ⟨3, fun fuel hfuel => ?_⟩
    obtain ⟨n, rfl⟩ := Nat.exists_eq_add_of_le' hfuel
    rfl
  exact .call (c := deleteGoal) hstep ⟨List.nodup_nil, by decide +kernel⟩ hdelete

end MyClaw
