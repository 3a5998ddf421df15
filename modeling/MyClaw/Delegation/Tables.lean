import MyClaw.Delegation.Coordinator

set_option autoImplicit false

/-!
# The tables of running delegations

A background delegation has an entry in `running`, which its caller inserts after it has started the
task, and an inbox in `mailboxes`.  The task clears both on its way out; `cancel`,
`reconcile_notice_completed` and `checkpoint_and_cancel_all` remove entries as well.  The operations
here are the sections between which they interleave; a call between two sections is in a pool.

An abort takes effect when the task yields next, and it takes the rest of the task away: what the
task would have cleared stays.

## Main definitions

* `DelegationMachine`, `TableCall` — the coordinator with the calls that have not
  returned.
* `TableEvent`, `tableStep` — the machine.
* `TablesClear` — no table has an entry of a delegation that is over.
* `LeavesTables` — what a step has to satisfy for that.

## Main results

* `tablesClear_always` — the first holds in every state of a run whose steps all satisfy the
  second.
-/

namespace MyClaw

/-- A call between two of its sections. -/
inductive TableCall
  /-- `resume_timed_out` after its checks. -/
  | checked (subSessionId : String) (cp : DelegationCheckpoint) (extraSecs : Option Nat) (now : Nat)
  /-- `recover_async` begins. -/
  | recover (subSessionId : String) (cp : DelegationCheckpoint) (now : Nat)
  /-- `recover_async` has registered the inbox. -/
  | registered (subSessionId : String) (cp : DelegationCheckpoint) (now : Nat)
  /-- The task has been started, and its entry is not in `running` yet. -/
  | insert (subSessionId : String) (entry : RunningEntry)
  /-- `cancel` has called `abort`. -/
  | cancel (subSessionId parentSessionId : String)
  /-- `reconcile_notice_completed` has taken the entry from `running`. -/
  | reconcile (subSessionId parentSessionId summary : String)
      (durationSecs sentMessageCount : Nat)
  /-- `checkpoint_and_cancel_all` takes the entries of these ids from `running`. -/
  | takeAll (existing : List DelegationCheckpoint) (keys : List String)
      (entries : List (String × RunningEntry)) (now : Nat)
  /-- It writes the checkpoints of the entries it has taken. -/
  | saveAll (existing : List DelegationCheckpoint) (todo entries : List (String × RunningEntry))
      (now : Nat)
  /-- It aborts the tasks of the entries it has taken. -/
  | abortAll (entries : List (String × RunningEntry))
  deriving DecidableEq

/-- The coordinator with the calls that have not returned. -/
structure DelegationMachine where
  coordinator : Coordinator
  calls : List TableCall := []

namespace Coordinator

variable (s : Coordinator)

/-- A task is at its next stage. -/
def replaceTask (t u : DelegationTask) : Coordinator :=
  { s with tasks := u :: s.tasks.erase t }

/-- `abort` on a handle. -/
def requestAbort (handle : Nat) : Coordinator :=
  { s with tasks := s.tasks.map fun t =>
      if t.no = handle then { t with abortRequested := true } else t }

/-- The ids in `running`. -/
def runningIds : List String :=
  (s.tasks.map (·.subSessionId)).dedup.filter fun id => (s.running id).isSome

/-- `send_to_sub_agent`, where `delivery` is what the channel answers. -/
def sendToSubAgent (subSessionId : String) (delivery : Except String Unit) : Except String Unit :=
  match s.mailboxes subSessionId with
  | some _ => delivery.mapError ("消息投递失败（子代理收件箱已满或已关闭）：" ++ ·)
  | none => .error ("sub_session_id '" ++ subSessionId ++
      "' 不存在或子代理已结束（仅 async 子代理可接收消息）")

/-- The checkpoint that `checkpoint_and_cancel_all` writes for an entry. -/
def shutdownCheckpoint (existing : List DelegationCheckpoint) (subSessionId : String)
    (entry : RunningEntry) (now : Nat) : DelegationCheckpoint :=
  match existing.find? (·.subSessionId = subSessionId) with
  | some cp => { cp with status := DelegationStatus.checkpointed.asStr, lastCheckpoint := some now }
  | none =>
    { parentSessionId := entry.parentSessionId, subSessionId := subSessionId
      agentName := entry.agentName, status := DelegationStatus.checkpointed.asStr
      startedAt := entry.startedAt, timeoutSecs := entry.timeoutSecs
      allowedTools := entry.allowedTools, lastCheckpoint := some now }

end Coordinator

/-- What happens to the tables. -/
inductive TableEvent
  /-- `spawn_delegate_async` up to the start of the task. -/
  | spawn (agentName parentSessionId : String) (timeoutSecs : Nat)
      (allowedTools : Option (List String)) (created : Except String String) (now : Nat)
  /-- The checks of `resume_timed_out`. -/
  | resume (subSessionId : String) (extraSecs : Option Nat) (now : Nat)
  /-- `cancel` up to `abort`. -/
  | cancel (subSessionId : String)
  /-- `reconcile_notice_completed` up to `running.remove`. -/
  | reconcile (subSessionId summary : String) (durationSecs sentMessageCount : Nat)
  /-- `checkpoint_and_cancel_all` collects the ids in `running`. -/
  | checkpointAndCancelAll (now : Nat)
  /-- The next section of a call. -/
  | advance (call : TableCall)
  /-- The turn of a task ends. -/
  | turnEnds (task : DelegationTask) (exit : TurnExit)
  /-- A task takes its next step on the way out. -/
  | exits (task : DelegationTask) (durationSecs sentMessageCount : Nat)
  /-- A requested abort takes effect. -/
  | aborts (task : DelegationTask)

namespace DelegationMachine

variable (m : DelegationMachine)

/-- A call leaves one section behind, and is then at the next one or has returned. -/
def proceed (call : TableCall) (next : Option TableCall) (s : Coordinator) : DelegationMachine :=
  { coordinator := s, calls := next.toList ++ m.calls.erase call }

/-- The next section of a call. -/
def advance (call : TableCall) : DelegationMachine :=
  let s := m.coordinator
  match call with
  | .checked id cp extraSecs now =>
    if s.hasContext cp.parentSessionId then
      let s := s.addPendingTask cp.parentSessionId id
      if s.sessions id then
        let resumed := Coordinator.resumedCheckpoint id cp extraSecs now
        m.proceed call (some (.recover id resumed now)) (s.saveCheckpoint resumed)
      else m.proceed call none s
    else m.proceed call none s
  | .recover id cp now => m.proceed call (some (.registered id cp now)) (s.registerMailbox id)
  | .registered id cp now =>
    if s.runtimeInstalled then
      m.proceed call
        (some (.insert id
          (s.recoveredEntry cp.agentName cp.parentSessionId cp.timeoutSecs cp.allowedTools now)))
        (s.launch id cp.parentSessionId false)
    else m.proceed call none s
  | .insert id entry => m.proceed call none (s.insertRunning id entry)
  | .cancel id parentSessionId =>
    m.proceed call none ((s.removeRunning id).send (.failed id parentSessionId "cancelled"))
  | .reconcile id parentSessionId summary durationSecs sentMessageCount =>
    m.proceed call none ((s.removeMailbox id).send
      (.completed id parentSessionId summary durationSecs sentMessageCount))
  | .takeAll existing [] entries now => m.proceed call (some (.saveAll existing entries entries now)) s
  | .takeAll existing (key :: keys) entries now =>
    m.proceed call
      (some (.takeAll existing keys (entries ++ ((s.running key).map (key, ·)).toList) now))
      (s.removeRunning key)
  | .saveAll _ [] entries _ => m.proceed call (some (.abortAll entries)) s
  | .saveAll existing ((id, entry) :: todo) entries now =>
    m.proceed call (some (.saveAll existing todo entries now))
      (s.saveCheckpoint (Coordinator.shutdownCheckpoint existing id entry now))
  | .abortAll [] => m.proceed call none s
  | .abortAll ((_, entry) :: entries) =>
    m.proceed call (some (.abortAll entries)) (s.requestAbort entry.handle)

/-- A new call is in the pool. -/
def begin (call : TableCall) (s : Coordinator) : DelegationMachine :=
  { coordinator := s, calls := call :: m.calls }

/-- A task is at its next stage, in a state where it has done its last step. -/
def setTask (t u : DelegationTask) (s : Coordinator) : DelegationMachine :=
  { m with coordinator := s.replaceTask t u }

/-- The next step of a task on its way out. -/
def exits (t : DelegationTask) (durationSecs sentMessageCount : Nat) : DelegationMachine :=
  let s := m.coordinator
  let id := t.subSessionId
  match t.stage with
  | .waiting => m
  | .ended exit =>
    match t.exitResult exit with
    | some result =>
      m.setTask t { t with stage := if t.eventSender then .sending result else .leaving result } s
    | none => m.setTask t { t with stage := .done } s
  | .sending result =>
    let event := t.exitEvent (.returned result) durationSecs sentMessageCount
    m.setTask t { t with stage := .leaving result } { s with events := s.events ++ event.toList }
  | .leaving result => m.setTask t { t with stage := .leftRunning result } (s.removeRunning id)
  | .leftRunning result => m.setTask t { t with stage := .leftMailboxes result } (s.removeMailbox id)
  | .leftMailboxes result => m.setTask t { t with stage := .done } (s.settle id result)
  | .done => m

end DelegationMachine

/-- The task can be aborted here. -/
def TaskStage.abortable : TaskStage → Bool
  | .waiting | .ended _ | .sending _ => true
  | _ => false

/-- The state after an event; an event of a call or a task that is not there, or of one that is not
enabled, changes nothing. -/
def tableStep (m : DelegationMachine) : TableEvent → DelegationMachine
  | .spawn agentName parentSessionId timeoutSecs allowedTools created now =>
    let s := m.coordinator
    match s.checkSpawn agentName parentSessionId created with
    | .error _ => m
    | .ok id =>
      m.begin (.insert id
          { handle := s.next, agentName := agentName, parentSessionId := parentSessionId
            startedAt := now, timeoutSecs := timeoutSecs, allowedTools := allowedTools })
        (((s.armRegistered parentSessionId id).registerMailbox id).launch id parentSessionId true)
  | .resume id extraSecs now =>
    match m.coordinator.checkResume id with
    | .error _ => m
    | .ok cp => m.begin (.checked id cp extraSecs now) m.coordinator
  | .cancel id =>
    match m.coordinator.running id with
    | none => m
    | some entry =>
      m.begin (.cancel id entry.parentSessionId)
        ((m.coordinator.persistTerminalCheckpoint id .cancelled).requestAbort entry.handle)
  | .reconcile id summary durationSecs sentMessageCount =>
    match m.coordinator.running id with
    | none => m
    | some entry =>
      m.begin (.reconcile id entry.parentSessionId summary durationSecs sentMessageCount)
        (m.coordinator.removeRunning id)
  | .checkpointAndCancelAll now =>
    let keys := m.coordinator.runningIds
    m.begin (.takeAll (keys.filterMap m.coordinator.checkpoints) keys [] now) m.coordinator
  | .advance call => if call ∈ m.calls then m.advance call else m
  | .turnEnds t exit =>
    if t ∈ m.coordinator.tasks ∧ t.working = true then
      m.setTask t
        { t with working := false, stage := if t.stage = .waiting then .ended exit else t.stage }
        m.coordinator
    else m
  | .exits t durationSecs sentMessageCount =>
    if t ∈ m.coordinator.tasks then m.exits t durationSecs sentMessageCount else m
  | .aborts t =>
    if t ∈ m.coordinator.tasks ∧ t.abortRequested = true ∧ t.stage.abortable = true then
      m.setTask t { t with working := t.working && t.layered, stage := .done } m.coordinator
    else m

/-- A coordinator that has just been made: it has no tasks and no entries. -/
def DelegationMachine.start (s : Coordinator) : DelegationMachine :=
  { coordinator :=
      { s with running := fun _ => none, mailboxes := fun _ => none, tasks := [] } }

/-! ## Entries and their owners -/

/-- The task has yet to remove its entry from `running`. -/
def TaskStage.ownsRunning : TaskStage → Bool
  | .waiting | .ended _ | .sending _ | .leaving _ => true
  | _ => false

/-- The task has yet to remove its inbox. -/
def TaskStage.ownsMailbox : TaskStage → Bool
  | .waiting | .ended _ | .sending _ | .leaving _ | .leftRunning _ => true
  | _ => false

/-- The call has yet to remove the entry of the id from `running`. -/
def TableCall.ownsRunning (id : String) : TableCall → Bool
  | .cancel id' _ => id' = id
  | .takeAll _ keys _ _ => id ∈ keys
  | _ => false

/-- The call has yet to remove the inbox of the id, or to start its task. -/
def TableCall.ownsMailbox (id : String) : TableCall → Bool
  | .reconcile id' .. => id' = id
  | .registered id' .. => id' = id
  | _ => false

/-- Some task of the id or some call is an owner. -/
def Owned (p : TaskStage → Bool) (q : TableCall → Bool) (tasks : List DelegationTask)
    (calls : List TableCall) (id : String) : Prop :=
  (∃ t ∈ tasks, t.subSessionId = id ∧ p t.stage = true) ∨ ∃ c ∈ calls, q c = true

/-- Each entry of the id has an owner among these tasks and calls. -/
structure Guarded (s : Coordinator) (tasks : List DelegationTask) (calls : List TableCall)
    (id : String) : Prop where
  running : (s.running id).isSome = true →
    Owned TaskStage.ownsRunning (TableCall.ownsRunning id) tasks calls id
  mailbox : (s.mailboxes id).isSome = true →
    Owned TaskStage.ownsMailbox (TableCall.ownsMailbox id) tasks calls id

/-- A task of the id goes on, or a call is about to change its entries. -/
def Busy (m : DelegationMachine) (id : String) : Prop :=
  (∃ t ∈ m.coordinator.tasks, t.subSessionId = id ∧ (t.working = true ∨ t.stage ≠ .done)) ∨
    ∃ c ∈ m.calls, c.ownsRunning id = true ∨ c.ownsMailbox id = true

/-- Nothing is left of a delegation in the tables: it is unknown to senders, and its resumption is not
refused as running. -/
structure Cleared (s : Coordinator) (id : String) : Prop where
  running : s.running id = none
  mailbox : s.mailboxes id = none
  unknown : ∀ delivery, s.sendToSubAgent id delivery =
    .error ("sub_session_id '" ++ id ++ "' 不存在或子代理已结束（仅 async 子代理可接收消息）")
  resumable : s.checkResume id ≠
    .error (.other ("sub-agent '" ++ id ++ "' is already running"))

/-- A delegation that is over has no entry in a table. -/
def TablesClear (m : DelegationMachine) : Prop :=
  ∀ id, ¬ Busy m id → Cleared m.coordinator id

/-- What is lost in a step does not leave an entry without an owner: an entry is inserted while there
is one, a recovery finds the runtime, and a task that is aborted, or that panics with its turn, is not
the last owner. -/
def LeavesTables (m : DelegationMachine) : TableEvent → Prop
  | .advance (.insert id entry) =>
    .insert id entry ∈ m.calls →
      Owned TaskStage.ownsRunning (TableCall.ownsRunning id) m.coordinator.tasks m.calls id
  | .advance (.registered id cp now) =>
    .registered id cp now ∈ m.calls → m.coordinator.runtimeInstalled = false →
      Guarded m.coordinator m.coordinator.tasks (m.calls.erase (.registered id cp now)) id
  | .exits t _ _ =>
    t ∈ m.coordinator.tasks → ∀ exit, t.stage = .ended exit → t.exitResult exit = none →
      Guarded m.coordinator (m.coordinator.tasks.erase t) m.calls t.subSessionId
  | .aborts t =>
    t ∈ m.coordinator.tasks → t.abortRequested = true → t.stage.abortable = true →
      Guarded m.coordinator (m.coordinator.tasks.erase t) m.calls t.subSessionId
  | _ => True

/-! ## Owners through a step -/

section

variable {p : TaskStage → Bool} {q : TableCall → Bool} {tasks : List DelegationTask}
  {calls : List TableCall} {id : String}

/-- An owner stays one when a task moves on that is none, or that stays one. -/
lemma Owned.replaceTask {t u : DelegationTask} (h : Owned p q tasks calls id)
    (hsub : u.subSessionId = t.subSessionId)
    (hown : t.subSessionId = id → p t.stage = true → p u.stage = true) :
    Owned p q (u :: tasks.erase t) calls id := by
  rcases h with ⟨v, hv, hid, hp⟩ | h
  · left
    by_cases heq : v = t
    · subst heq
      exact ⟨u, List.mem_cons_self, hsub.trans hid, hown hid hp⟩
    · exact ⟨v, List.mem_cons_of_mem _ ((List.mem_erase_of_ne heq).2 hv), hid, hp⟩
  · exact .inr h

lemma Owned.mono_tasks {tasks' : List DelegationTask} (h : Owned p q tasks calls id)
    (hsub : ∀ t ∈ tasks, ∃ u ∈ tasks', u.subSessionId = t.subSessionId ∧ u.stage = t.stage) :
    Owned p q tasks' calls id := by
  rcases h with ⟨t, ht, hid, hp⟩ | h
  · obtain ⟨u, hu, hid', hstage⟩ := hsub t ht
    exact .inl ⟨u, hu, hid'.trans hid, by rw [hstage]; exact hp⟩
  · exact .inr h

lemma Owned.cons_call {call : TableCall} (h : Owned p q tasks calls id) :
    Owned p q tasks (call :: calls) id :=
  h.imp_right fun ⟨c, hc, hq⟩ => ⟨c, List.mem_cons_of_mem _ hc, hq⟩

lemma Owned.cons_task {u : DelegationTask} (h : Owned p q tasks calls id) :
    Owned p q (u :: tasks) calls id :=
  h.imp_left fun ⟨t, ht, hp⟩ => ⟨t, List.mem_cons_of_mem _ ht, hp⟩

lemma Owned.append_task {u : DelegationTask} (h : Owned p q tasks calls id) :
    Owned p q (tasks ++ [u]) calls id :=
  h.imp_left fun ⟨t, ht, hp⟩ => ⟨t, List.mem_append_left _ ht, hp⟩

/-- An owner stays one when a call moves on that is none, or that stays one. -/
lemma Owned.proceed {call : TableCall} {next : Option TableCall} (h : Owned p q tasks calls id)
    (hown : q call = true → ∃ c ∈ next, q c = true) :
    Owned p q tasks (next.toList ++ calls.erase call) id := by
  rcases h with h | ⟨c, hc, hq⟩
  · exact .inl h
  · right
    by_cases heq : c = call
    · subst heq
      obtain ⟨c', hc', hq'⟩ := hown hq
      exact ⟨c', List.mem_append_left _ (by simpa using hc'), hq'⟩
    · exact ⟨c, List.mem_append_right _ ((List.mem_erase_of_ne heq).2 hc), hq⟩

end

section

variable {s s' : Coordinator} {tasks tasks' : List DelegationTask} {calls calls' : List TableCall}
  {id : String}

/-- Entries stay guarded when none is added and the owners stay. -/
lemma Guarded.mono (h : Guarded s tasks calls id)
    (hrunning : (s'.running id).isSome = true → (s.running id).isSome = true)
    (hmailbox : (s'.mailboxes id).isSome = true → (s.mailboxes id).isSome = true)
    (hr : (s'.running id).isSome = true →
      Owned TaskStage.ownsRunning (TableCall.ownsRunning id) tasks calls id →
      Owned TaskStage.ownsRunning (TableCall.ownsRunning id) tasks' calls' id)
    (hm : (s'.mailboxes id).isSome = true →
      Owned TaskStage.ownsMailbox (TableCall.ownsMailbox id) tasks calls id →
      Owned TaskStage.ownsMailbox (TableCall.ownsMailbox id) tasks' calls' id) :
    Guarded s' tasks' calls' id :=
  ⟨fun hs => hr hs (h.running (hrunning hs)), fun hs => hm hs (h.mailbox (hmailbox hs))⟩

/-- A call that owns nothing moves on. -/
lemma Guarded.proceed {call : TableCall} {next : Option TableCall} (h : Guarded s tasks calls id)
    (hrunning : s'.running = s.running) (hmailbox : s'.mailboxes = s.mailboxes)
    (hr : call.ownsRunning id = true → ∃ c ∈ next, c.ownsRunning id = true)
    (hm : call.ownsMailbox id = true → ∃ c ∈ next, c.ownsMailbox id = true) :
    Guarded s' tasks (next.toList ++ calls.erase call) id :=
  h.mono (by rw [hrunning]; exact fun hs => hs) (by rw [hmailbox]; exact fun hs => hs)
    (fun _ ho => ho.proceed hr) (fun _ ho => ho.proceed hm)

/-- A task moves on that stays an owner of what it owns. -/
lemma Guarded.replaceTask {t u : DelegationTask} (h : Guarded s tasks calls id)
    (hrunning : s'.running = s.running) (hmailbox : s'.mailboxes = s.mailboxes)
    (hsub : u.subSessionId = t.subSessionId)
    (hr : t.stage.ownsRunning = true → u.stage.ownsRunning = true)
    (hm : t.stage.ownsMailbox = true → u.stage.ownsMailbox = true) :
    Guarded s' (u :: tasks.erase t) calls id :=
  h.mono (by rw [hrunning]; exact fun hs => hs) (by rw [hmailbox]; exact fun hs => hs)
    (fun _ ho => ho.replaceTask hsub fun _ => hr) (fun _ ho => ho.replaceTask hsub fun _ => hm)

/-- A task is lost that is not the last owner of its entries. -/
lemma Guarded.loseTask {t u : DelegationTask} (h : Guarded s tasks calls id)
    (hrunning : s'.running = s.running) (hmailbox : s'.mailboxes = s.mailboxes)
    (hsub : u.subSessionId = t.subSessionId)
    (hrest : Guarded s (tasks.erase t) calls t.subSessionId) :
    Guarded s' (u :: tasks.erase t) calls id := by
  by_cases hid : t.subSessionId = id
  · subst hid
    exact ⟨fun hs => (hrest.running (by rwa [hrunning] at hs)).cons_task,
      fun hs => (hrest.mailbox (by rwa [hmailbox] at hs)).cons_task⟩
  · exact h.mono (by rw [hrunning]; exact fun hs => hs) (by rw [hmailbox]; exact fun hs => hs)
      (fun _ ho => ho.replaceTask hsub fun heq => absurd heq hid)
      (fun _ ho => ho.replaceTask hsub fun heq => absurd heq hid)

end

/-! ## What the operations do to the tables -/

section

variable (s : Coordinator) (id : String) (event : DelegationEvent)

@[simp] lemma Coordinator.running_send : (s.send event).running = s.running := by
  unfold Coordinator.send
  split_ifs <;> rfl

@[simp] lemma Coordinator.mailboxes_send : (s.send event).mailboxes = s.mailboxes := by
  unfold Coordinator.send
  split_ifs <;> rfl

@[simp] lemma Coordinator.tasks_send : (s.send event).tasks = s.tasks := by
  unfold Coordinator.send
  split_ifs <;> rfl

lemma isSome_of_removeRunning {id' : String}
    (h : ((s.removeRunning id).running id').isSome = true) :
    id' ≠ id ∧ (s.running id').isSome = true := by
  unfold Coordinator.removeRunning at h
  by_cases heq : id' = id
  · simp [heq] at h
  · exact ⟨heq, by simpa [Function.update_of_ne heq] using h⟩

lemma isSome_of_removeMailbox {id' : String}
    (h : ((s.removeMailbox id).mailboxes id').isSome = true) :
    id' ≠ id ∧ (s.mailboxes id').isSome = true := by
  unfold Coordinator.removeMailbox at h
  by_cases heq : id' = id
  · simp [heq] at h
  · exact ⟨heq, by simpa [Function.update_of_ne heq] using h⟩

/-- A handle that is aborted leaves its task at its stage. -/
lemma stage_requestAbort (handle : Nat) :
    ∀ t ∈ s.tasks, ∃ u ∈ (s.requestAbort handle).tasks,
      u.subSessionId = t.subSessionId ∧ u.stage = t.stage := by
  intro t ht
  refine ⟨_, List.mem_map_of_mem ht, ?_⟩
  split_ifs <;> exact ⟨rfl, rfl⟩

end

/-! ## The steps -/

/-- Every entry has an owner. -/
def TablesGuarded (m : DelegationMachine) : Prop :=
  ∀ id, Guarded m.coordinator m.coordinator.tasks m.calls id

section

variable {m : DelegationMachine}

/-- **A section of a call** leaves every entry with an owner. -/
lemma TablesGuarded.advance (h : TablesGuarded m) {call : TableCall} (hmem : call ∈ m.calls)
    (hleaves : LeavesTables m (.advance call)) : TablesGuarded (m.advance call) := by
  intro id
  cases call with
  | checked id' cp extraSecs now =>
    unfold DelegationMachine.advance DelegationMachine.proceed
    dsimp only
    split_ifs <;> exact (h id).proceed rfl rfl (by simp [TableCall.ownsRunning])
      (by simp [TableCall.ownsMailbox])
  | recover id' cp now =>
    have hown : (TableCall.recover id' cp now).ownsRunning id = true →
        ∃ c ∈ some (TableCall.registered id' cp now), c.ownsRunning id = true := by
      simp [TableCall.ownsRunning]
    refine ⟨fun hs => ((h id).running hs).proceed hown, fun hs => ?_⟩
    by_cases heq : id' = id
    · refine .inr ⟨.registered id' cp now, List.mem_append_left _ List.mem_cons_self, ?_⟩
      simp [TableCall.ownsMailbox, heq]
    · change (Function.update m.coordinator.mailboxes id' _ id).isSome = true at hs
      rw [Function.update_of_ne (Ne.symm heq)] at hs
      exact ((h id).mailbox hs).proceed (by simp [TableCall.ownsMailbox])
  | registered id' cp now =>
    unfold DelegationMachine.advance
    dsimp only
    split_ifs with hrt
    · -- the new task takes the inbox over from the call
      refine ⟨fun hs => ?_, fun hs => ?_⟩
      · exact (((h id).running hs).proceed (by simp [TableCall.ownsRunning])).append_task
      · by_cases heq : id' = id
        · exact .inl ⟨_, List.mem_append_right _ List.mem_cons_self, heq, rfl⟩
        · exact (((h id).mailbox hs).proceed (by simp [TableCall.ownsMailbox, heq])).append_task
    · by_cases heq : id' = id
      · subst heq
        exact hleaves hmem (by simpa using hrt)
      · exact (h id).proceed rfl rfl (by simp [TableCall.ownsRunning])
          (by simp [TableCall.ownsMailbox, heq])
  | insert id' entry =>
    refine ⟨fun hs => ?_, fun hs => ((h id).mailbox hs).proceed (by simp [TableCall.ownsMailbox])⟩
    by_cases heq : id' = id
    · subst heq
      exact (hleaves hmem).proceed (by simp [TableCall.ownsRunning])
    · change (Function.update m.coordinator.running id' _ id).isSome = true at hs
      rw [Function.update_of_ne (Ne.symm heq)] at hs
      exact ((h id).running hs).proceed (by simp [TableCall.ownsRunning])
  | cancel id' parentSessionId =>
    unfold DelegationMachine.advance DelegationMachine.proceed
    dsimp only
    refine ⟨fun hs => ?_, fun hs => ?_⟩
    · rw [Coordinator.running_send] at hs
      obtain ⟨hne, hs⟩ := isSome_of_removeRunning _ _ hs
      rw [Coordinator.tasks_send]
      exact ((h id).running hs).proceed (by simp [TableCall.ownsRunning, Ne.symm hne])
    · rw [Coordinator.mailboxes_send] at hs
      rw [Coordinator.tasks_send]
      exact ((h id).mailbox hs).proceed (by simp [TableCall.ownsMailbox])
  | reconcile id' parentSessionId summary durationSecs sentMessageCount =>
    unfold DelegationMachine.advance DelegationMachine.proceed
    dsimp only
    refine ⟨fun hs => ?_, fun hs => ?_⟩
    · rw [Coordinator.running_send] at hs
      rw [Coordinator.tasks_send]
      exact ((h id).running hs).proceed (by simp [TableCall.ownsRunning])
    · rw [Coordinator.mailboxes_send] at hs
      obtain ⟨hne, hs⟩ := isSome_of_removeMailbox _ _ hs
      rw [Coordinator.tasks_send]
      exact ((h id).mailbox hs).proceed (by simp [TableCall.ownsMailbox, Ne.symm hne])
  | takeAll existing keys entries now =>
    cases keys with
    | nil =>
      exact (h id).proceed rfl rfl (by simp [TableCall.ownsRunning]) (by simp [TableCall.ownsMailbox])
    | cons key keys =>
      refine ⟨fun hs => ?_, fun hs => ((h id).mailbox hs).proceed (by simp [TableCall.ownsMailbox])⟩
      obtain ⟨hne, hs⟩ := isSome_of_removeRunning _ _ hs
      refine ((h id).running hs).proceed fun hq => ⟨_, rfl, ?_⟩
      simpa [TableCall.ownsRunning, hne] using hq
  | saveAll existing todo entries now =>
    rcases todo with _ | ⟨⟨key, entry⟩, todo⟩ <;>
      exact (h id).proceed rfl rfl (by simp [TableCall.ownsRunning])
        (by simp [TableCall.ownsMailbox])
  | abortAll entries =>
    rcases entries with _ | ⟨⟨key, entry⟩, entries⟩
    · exact (h id).proceed rfl rfl (by simp [TableCall.ownsRunning])
        (by simp [TableCall.ownsMailbox])
    · refine ⟨fun hs => ?_, fun hs => ?_⟩
      · exact (((h id).running hs).mono_tasks (stage_requestAbort _ _)).proceed
          (by simp [TableCall.ownsRunning])
      · exact (((h id).mailbox hs).mono_tasks (stage_requestAbort _ _)).proceed
          (by simp [TableCall.ownsMailbox])

/-- **A task on its way out** clears what it owns before it stops being an owner. -/
lemma TablesGuarded.exits (h : TablesGuarded m) {t : DelegationTask} (hmem : t ∈ m.coordinator.tasks)
    {durationSecs sentMessageCount : Nat}
    (hleaves : LeavesTables m (.exits t durationSecs sentMessageCount)) :
    TablesGuarded (m.exits t durationSecs sentMessageCount) := by
  intro id
  unfold DelegationMachine.exits
  cases hstage : t.stage with
  | waiting => exact h id
  | ended exit =>
    dsimp only
    cases hexit : t.exitResult exit with
    | some result =>
      refine (h id).replaceTask rfl rfl rfl (fun _ => ?_) (fun _ => ?_) <;>
        (dsimp only; split_ifs <;> rfl)
    | none =>
      dsimp only
      exact (h id).loseTask rfl rfl rfl (hleaves hmem exit hstage hexit)
  | sending result =>
    exact (h id).replaceTask rfl rfl rfl (fun _ => rfl) (fun _ => rfl)
  | leaving result =>
    refine ⟨fun hs => ?_, fun hs => ((h id).mailbox hs).replaceTask rfl fun _ _ => rfl⟩
    obtain ⟨hne, hs⟩ := isSome_of_removeRunning _ _ hs
    exact ((h id).running hs).replaceTask rfl fun heq => absurd heq.symm hne
  | leftRunning result =>
    refine ⟨fun hs => ((h id).running hs).replaceTask rfl fun _ hown => ?_, fun hs => ?_⟩
    · simp [hstage, TaskStage.ownsRunning] at hown
    · obtain ⟨hne, hs⟩ := isSome_of_removeMailbox _ _ hs
      exact ((h id).mailbox hs).replaceTask rfl fun heq => absurd heq.symm hne
  | leftMailboxes result =>
    refine (h id).replaceTask rfl rfl rfl ?_ ?_ <;>
      simp [hstage, TaskStage.ownsRunning, TaskStage.ownsMailbox]
  | done => exact h id

/-- **A step** that leaves the tables to an owner leaves every entry with one. -/
lemma TablesGuarded.step (h : TablesGuarded m) (e : TableEvent) (hleaves : LeavesTables m e) :
    TablesGuarded (tableStep m e) := by
  cases e with
  | spawn agentName parentSessionId timeoutSecs allowedTools created now =>
    unfold tableStep
    dsimp only
    cases m.coordinator.checkSpawn agentName parentSessionId created with
    | error e => exact h
    | ok id' =>
      intro id
      refine ⟨fun hs => ?_, fun hs => ?_⟩
      · change ((m.coordinator.armRegistered parentSessionId id').running id).isSome = true at hs
        rw [Coordinator.running_armRegistered] at hs
        change Owned _ _ ((m.coordinator.armRegistered parentSessionId id').tasks ++ _) _ id
        rw [Coordinator.tasks_armRegistered]
        exact ((h id).running hs).append_task.cons_call
      · change (Function.update (m.coordinator.armRegistered parentSessionId id').mailboxes id' _
          id).isSome = true at hs
        change Owned _ _ ((m.coordinator.armRegistered parentSessionId id').tasks ++ _) _ id
        rw [Coordinator.tasks_armRegistered]
        by_cases heq : id' = id
        · exact .inl ⟨_, List.mem_append_right _ List.mem_cons_self, heq, rfl⟩
        · rw [Function.update_of_ne (Ne.symm heq), Coordinator.mailboxes_armRegistered] at hs
          exact ((h id).mailbox hs).append_task.cons_call
  | resume id' extraSecs now =>
    unfold tableStep
    dsimp only
    cases m.coordinator.checkResume id' with
    | error e => exact h
    | ok cp =>
      exact fun id => ⟨fun hs => ((h id).running hs).cons_call,
        fun hs => ((h id).mailbox hs).cons_call⟩
  | cancel id' =>
    unfold tableStep
    dsimp only
    cases m.coordinator.running id' with
    | none => exact h
    | some entry =>
      exact fun id =>
        ⟨fun hs => (((h id).running hs).mono_tasks (stage_requestAbort _ _)).cons_call,
          fun hs => (((h id).mailbox hs).mono_tasks (stage_requestAbort _ _)).cons_call⟩
  | reconcile id' summary durationSecs sentMessageCount =>
    unfold tableStep
    dsimp only
    cases m.coordinator.running id' with
    | none => exact h
    | some entry =>
      refine fun id => ⟨fun hs => ?_, fun hs => ((h id).mailbox hs).cons_call⟩
      exact ((h id).running (isSome_of_removeRunning _ _ hs).2).cons_call
  | checkpointAndCancelAll now =>
    exact fun id => ⟨fun hs => ((h id).running hs).cons_call,
      fun hs => ((h id).mailbox hs).cons_call⟩
  | advance call =>
    unfold tableStep
    dsimp only
    split_ifs with hmem
    · exact h.advance hmem hleaves
    · exact h
  | turnEnds t exit =>
    unfold tableStep
    dsimp only
    by_cases hmem : t ∈ m.coordinator.tasks ∧ t.working = true
    · rw [if_pos hmem]
      refine fun id => (h id).replaceTask rfl rfl rfl (fun hown => ?_) (fun hown => ?_)
      · by_cases hstage : t.stage = .waiting
        · rw [if_pos hstage]
          rfl
        · rw [if_neg hstage]
          exact hown
      · by_cases hstage : t.stage = .waiting
        · rw [if_pos hstage]
          rfl
        · rw [if_neg hstage]
          exact hown
    · rw [if_neg hmem]
      exact h
  | exits t durationSecs sentMessageCount =>
    unfold tableStep
    dsimp only
    split_ifs with hmem
    · exact h.exits hmem hleaves
    · exact h
  | aborts t =>
    unfold tableStep
    dsimp only
    split_ifs with hmem
    · exact fun id => (h id).loseTask rfl rfl rfl (hleaves hmem.1 hmem.2.1 hmem.2.2)
    · exact h

end

/-! ## Runs -/

lemma tablesGuarded_start (s : Coordinator) : TablesGuarded (.start s) :=
  fun _ => ⟨fun hs => absurd hs Bool.false_ne_true, fun hs => absurd hs Bool.false_ne_true⟩

/-- A missing entry is all that senders and resumptions look at. -/
lemma Cleared.of_tables {s : Coordinator} {id : String} (hrunning : s.running id = none)
    (hmailbox : s.mailboxes id = none) : Cleared s id where
  running := hrunning
  mailbox := hmailbox
  unknown delivery := by simp [Coordinator.sendToSubAgent, hmailbox]
  resumable h := by
    unfold Coordinator.checkResume at h
    rw [hrunning] at h
    cases hcp : s.checkpoints id with
    | none =>
      rw [hcp] at h
      simp only [Except.error.injEq, DelegationError.other.injEq] at h
      have hfirst := congrArg (fun text : String => text.toList.head?) h
      simp at hfirst
    | some cp =>
      rw [hcp] at h
      dsimp only at h
      split_ifs at h
      simp only [Except.error.injEq, DelegationError.other.injEq, String.append_assoc,
        String.append_right_inj] at h
      have hcolon := congrArg (fun text : String => text.toList.drop 6) h
      simp at hcolon

/-- An owner keeps the id busy. -/
lemma TablesGuarded.tablesClear {m : DelegationMachine} (h : TablesGuarded m) : TablesClear m := by
  intro id hidle
  refine Cleared.of_tables ?_ ?_
  · by_contra hsome
    rcases (h id).running (Option.isSome_iff_ne_none.2 hsome) with ⟨t, ht, hid, hp⟩ | ⟨c, hc, hq⟩
    · refine hidle (.inl ⟨t, ht, hid, .inr fun hover => ?_⟩)
      simp [hover, TaskStage.ownsRunning] at hp
    · exact hidle (.inr ⟨c, hc, .inl hq⟩)
  · by_contra hsome
    rcases (h id).mailbox (Option.isSome_iff_ne_none.2 hsome) with ⟨t, ht, hid, hp⟩ | ⟨c, hc, hq⟩
    · refine hidle (.inl ⟨t, ht, hid, .inr fun hover => ?_⟩)
      simp [hover, TaskStage.ownsMailbox] at hp
    · exact hidle (.inr ⟨c, hc, .inr hq⟩)

/-- **The tables of running delegations**: in every interleaving in which no step leaves an entry
without an owner, no table has an entry of a delegation that is over. -/
theorem tablesClear_always (s : Coordinator) (es : List TableEvent)
    (h : Run.EachStep tableStep LeavesTables (.start s) es) :
    Run.Always tableStep TablesClear (.start s) es := by
  have hguarded : Run.Always tableStep TablesGuarded (.start s) es :=
    Run.always_of_step (fun m e hm hleaves => hm.step e hleaves) (tablesGuarded_start s) h
  exact hguarded.imp fun m hm => hm.tablesClear

/-! ## Two runs -/

namespace TableRuns

/-- A coordinator with one agent. -/
def coordinator : Coordinator := { agents := fun _ => some { name := "coder", isolation := .shared } }

/-- The entry of the task. -/
def entry : RunningEntry :=
  { handle := 0, agentName := "coder", parentSessionId := "p", startedAt := 0, timeoutSecs := 600
    allowedTools := none }

/-- The task in a stage. -/
def task (stage : TaskStage) (working abortRequested : Bool) : DelegationTask :=
  { no := 0, subSessionId := "s", parentSessionId := "p", layered := true, eventSender := true
    working := working, stage := stage, abortRequested := abortRequested }

/-- The task is started, and its entry is inserted. -/
def started : List TableEvent :=
  [.spawn "coder" "p" 600 none (.ok "s") 0, .advance (.insert "s" entry)]

/-- The task ends by itself. -/
def finished : List TableEvent :=
  started ++
    [.turnEnds (task .waiting true false) (.returned (.ok "done")),
      .exits (task (.ended (.returned (.ok "done"))) false false) 1 0,
      .exits (task (.sending (.ok "done")) false false) 1 0,
      .exits (task (.leaving (.ok "done")) false false) 1 0,
      .exits (task (.leftRunning (.ok "done")) false false) 1 0,
      .exits (task (.leftMailboxes (.ok "done")) false false) 1 0]

/-- The task is cancelled while it waits for its turn, which ends later. -/
def cancelled : List TableEvent :=
  started ++
    [.cancel "s", .aborts (task .waiting true true), .advance (.cancel "s" "p"),
      .turnEnds (task .done true true) (.returned (.ok "done"))]

end TableRuns

open TableRuns in
/-- A delegation that ends by itself clears the tables. -/
theorem tablesClear_always_finished :
    Run.Always tableStep TablesClear (.start coordinator) finished := by
  refine tablesClear_always coordinator finished ⟨trivial, fun _ => ?_, trivial, ?_⟩
  · exact .inl ⟨task .waiting true false, by decide, rfl, rfl⟩
  · refine ⟨fun _ exit hstage hexit => ?_, ?_⟩
    · cases hstage
      cases hexit
    · refine ⟨?_, ?_, ?_, ?_, trivial⟩ <;> (intro _ exit hstage; cases hstage)

open TableRuns in
/-- **A cancelled delegation leaves its inbox behind.** -/
theorem not_tablesClear_always_cancelled :
    ¬ Run.Always tableStep TablesClear (.start coordinator) cancelled := by
  intro h
  have hidle : ¬ Busy (Run.exec tableStep (.start coordinator) cancelled) "s" := by
    have htasks : (Run.exec tableStep (.start coordinator) cancelled).coordinator.tasks =
        [task .done false true] := by decide
    have hcalls : (Run.exec tableStep (.start coordinator) cancelled).calls = [] := by decide
    unfold Busy
    rw [htasks, hcalls]
    simp [task]
  exact absurd (h.last "s" hidle).mailbox (by decide)

end MyClaw
