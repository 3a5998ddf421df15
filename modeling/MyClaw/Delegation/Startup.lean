import MyClaw.Session.Breakpoint
import MyClaw.Delegation.Request

set_option autoImplicit false

/-!
# Recovery at startup

`run_startup` (`agents/orchestrator/turn_recovery.rs`) after a daemon has died: every unfinished
sub-agent is restarted, or reported as failed, or skipped; then the persisted suspensions are
recovered, where a pending task that the first loop takes care of is left alone and every other one
is recorded as failed, unless it is a shell process that still runs.  The recovery of the active
sessions' own turns, in between, does not touch suspensions and is left out.

## Main definitions

* `StartupEnv`, `StartupState` — what the daemon finds, and what it has done.
* `recoverSubAgent`, `recoverSuspension`, `runStartup` — the recovery.
* `StrandsNone` — every pending task is taken care of.
* `CoversPending` — what the daemon has to find for that.

## Main results

* `strandsNone_iff` — the first holds exactly under the second.
-/

namespace MyClaw

/-- A sub-agent whose session ends in the middle of a turn. -/
structure UnfinishedSubAgent where
  agentName : String
  parentSessionId : String
  subSessionId : String
  timeoutSecs : Nat
  allowedTools : Option (List String) := none

/-- An entry of the shell registry; `stale` when its output is old. -/
structure ShellEntry where
  state : String
  stale : Bool := false

/-- `ProcEntry::is_running`. -/
def ShellEntry.isRunning (e : ShellEntry) : Bool := e.state = "running"

/-- The registry of background commands, with the text that `recovery_lost_content` has for an id. -/
structure ShellRegistry where
  entries : String → Option ShellEntry
  lostContent : String → String

/-- `is_shell_process_id`. -/
def isShellProcessId (id : String) : Bool := "sh_".isPrefixOf id

/-- What the daemon finds besides its coordinator. -/
structure StartupEnv where
  allSessions : List String
  unfinished : List UnfinishedSubAgent
  /-- The history of a session that exists. -/
  histories : String → List ChatMessage
  /-- Sub-agents are enabled. -/
  delegator : Bool
  shells : Option ShellRegistry
  now : Nat

/-- What the daemon has done. -/
structure StartupState where
  coordinator : Coordinator
  /-- `recently_recorded_terminals` of a session. -/
  recent : String → List (String × Nat)
  /-- What `record_terminal` has answered, for which session and task. -/
  records : List (String × String × TerminalRecord) := []
  /-- The failures that a session is told of. -/
  notices : List (String × List String) := []

/-- `is_terminal_checkpoint_status`. -/
def isTerminalCheckpointStatus (status : String) : Bool :=
  status ∈ ["completed", "failed", "timed_out", "cancelled"]

/-- The checkpoint of the id is a terminal one. -/
def Coordinator.hasTombstone (s : Coordinator) (id : String) : Bool :=
  (s.checkpoints id).any fun cp => isTerminalCheckpointStatus cp.status

/-! ## Sub-agents -/

section

variable (env : StartupEnv)

/-- `CompletionSink::fail`: a daemon without sub-agents tells nobody. -/
def sinkFail (s : Coordinator) (sa : UnfinishedSubAgent) (error : String) : Coordinator :=
  if env.delegator then s.send (.failed sa.subSessionId sa.parentSessionId error) else s

/-- The session of the sub-agent is there, and its turn is incomplete. -/
def StartupEnv.needsRecovery (s : Coordinator) (id : String) : Bool :=
  s.sessions id && (!(env.histories id).isEmpty && historyHasIncompleteTurn (env.histories id))

/-- Why a sub-agent is not restarted. -/
def StartupEnv.failReason (s : Coordinator) (id : String) : String :=
  if s.sessions id = false then "daemon 重启，子代理会话未找到"
  else if (env.histories id).isEmpty then "daemon 重启，子代理会话历史为空"
  else "daemon 重启，子代理任务已完成"

/-- The time that a sub-agent has left. -/
def StartupEnv.remainingSecs (s : Coordinator) (sa : UnfinishedSubAgent) : Nat :=
  match s.checkpoints sa.subSessionId with
  | some cp => max 1 (cp.timeoutSecs - (env.now - cp.startedAt))
  | none => sa.timeoutSecs

/-- What is done about one unfinished sub-agent, where `tombstone` are the ids that had a terminal
checkpoint at the beginning. -/
def recoverSubAgent (tombstone : String → Bool) (s : Coordinator) (sa : UnfinishedSubAgent) :
    Coordinator :=
  if sa.subSessionId = "" ∨ sa.parentSessionId = "" then s
  else if tombstone sa.subSessionId then
    { s with checkpoints := Function.update s.checkpoints sa.subSessionId none }
  else if env.needsRecovery s sa.subSessionId = false then
    sinkFail env s sa (env.failReason s sa.subSessionId)
  else if env.delegator then
    s.recoverAsync sa.subSessionId sa.agentName sa.parentSessionId (env.remainingSecs s sa)
      sa.allowedTools env.now
  else sinkFail env s sa "daemon restarts, sub-agents disabled"

/-! ## Suspensions -/

/-- The ids that the loop over the sub-agents is to complete. -/
def StartupEnv.covered (s : Coordinator) (id : String) : Bool :=
  !s.hasTombstone id && env.unfinished.any (·.subSessionId = id)

/-- The id is that of a background command which still runs. -/
def StartupEnv.shellRunning (id : String) : Bool :=
  isShellProcessId id && (env.shells.bind (·.entries id)).any (·.isRunning)

/-- The recovery of one suspension on its way. -/
structure SuspensionRecovery where
  suspension : Option TurnSuspension
  recent : List (String × Nat)
  records : List (String × TerminalRecord) := []
  failed : List String := []

/-- A pending task is recorded as failed; a stale one without a notice. -/
def SuspensionRecovery.record (r : SuspensionRecovery) (id content : String) (stale : Bool)
    (now : Nat) : SuspensionRecovery :=
  let (suspension, recent, answer) :=
    recordTerminal r.suspension r.recent id .failed content 0 now
  { suspension := suspension, recent := recent, records := r.records ++ [(id, answer)]
    failed :=
      match answer with
      | .recorded _ => if stale then r.failed else r.failed ++ [content]
      | _ => r.failed }

/-- The failure of a background command. -/
def StartupEnv.shellContent (id : String) : String :=
  match env.shells with
  | some registry => registry.lostContent id
  | none => "[系统通知] 后台命令状态未知 (process_id: " ++ id ++
      "): daemon 重启，无法查询该进程记录。若仍需要这次任务的结果，请重新执行。"

/-- The failure of a sub-agent, with its progress reports. -/
def subAgentContent (snapshot : TurnSuspension) (id : String) : String :=
  let progress := (snapshot.progressBySubSession.lookup id).getD []
  "[系统通知] 子代理后台任务中断 (session_id: " ++ id ++
    "): daemon 重启，子代理进程已终止。请重新委托该任务。" ++
    (if progress.isEmpty then ""
      else "\n\n任务过程记录：\n" ++ String.join (progress.map fun line => "- " ++ line ++ "\n"))

/-- What `recover_suspension` does about one pending task; `s` is the coordinator that the daemon
started with. -/
def recoverPending (s : Coordinator) (snapshot : TurnSuspension) (r : SuspensionRecovery)
    (id : String) : SuspensionRecovery :=
  if isShellProcessId id then
    let entry := env.shells.bind (·.entries id)
    if entry.any (·.isRunning) then r
    else r.record id (env.shellContent id) (entry.any (·.stale)) env.now
  else if env.covered s id then r
  else r.record id (subAgentContent snapshot id) false env.now

/-- `recover_suspension`. -/
def recoverSuspension (s : Coordinator) (st : StartupState) (sessionId : String) : StartupState :=
  match st.coordinator.suspensions sessionId with
  | none => st
  | some snapshot =>
    let r := snapshot.pending.foldl (recoverPending env s snapshot)
      { suspension := some snapshot, recent := st.recent sessionId }
    { coordinator :=
        { st.coordinator with
          suspensions := Function.update st.coordinator.suspensions sessionId r.suspension }
      recent := Function.update st.recent sessionId r.recent
      records := st.records ++ r.records.map (sessionId, ·)
      notices := if r.failed.isEmpty then st.notices else st.notices ++ [(sessionId, r.failed)] }

/-- The sessions with a persisted suspension that waits for something, and with a context. -/
def StartupEnv.suspendedIds (s : Coordinator) : List String :=
  env.allSessions.filter fun id =>
    ((s.suspensions id).any fun t => !t.pending.isEmpty) && s.hasContext id

/-- `run_startup`, from the coordinator of the new daemon and the windows of its sessions. -/
def runStartup (s : Coordinator) (recent : String → List (String × Nat)) : StartupState :=
  (env.suspendedIds s).foldl (recoverSuspension env s)
    { coordinator := env.unfinished.foldl (recoverSubAgent env s.hasTombstone) s
      recent := recent }

end

/-! ## The property -/

/-- A task for the id has been started since. -/
def StartedSince (s t : Coordinator) (id : String) : Prop :=
  ∃ new, t.tasks = s.tasks ++ new ∧ ∃ task ∈ new, task.subSessionId = id

/-- The failure of the id has been reported since. -/
def FailedSince (s t : Coordinator) (id : String) : Prop :=
  ∃ new, t.events = s.events ++ new ∧
    ∃ parentSessionId error, DelegationEvent.failed id parentSessionId error ∈ new

/-- The pending task has been recorded as terminal, or is a running command, or belongs to a
sub-agent that was restarted or reported as failed. -/
def Attended (env : StartupEnv) (s : Coordinator) (st : StartupState) (sessionId id : String) :
    Prop :=
  (∃ snapshot, (sessionId, id, TerminalRecord.recorded snapshot) ∈ st.records) ∨
    env.shellRunning id = true ∨
    (∃ sa ∈ env.unfinished, sa.subSessionId = id) ∧
      (StartedSince s st.coordinator id ∨ FailedSince s st.coordinator id)

/-- Every pending task of every persisted suspension whose session can be loaded is attended to. -/
def StrandsNone (env : StartupEnv) (s : Coordinator) (st : StartupState) : Prop :=
  ∀ sessionId ∈ env.allSessions, s.hasContext sessionId = true →
    ∀ t, s.suspensions sessionId = some t → ∀ id ∈ t.pending, Attended env s st sessionId id

/-- The sub-agent is not skipped, and there is a runtime to restart it, or somebody to tell. -/
def Restarts (env : StartupEnv) (s : Coordinator) (sa : UnfinishedSubAgent) : Prop :=
  sa.subSessionId ≠ "" ∧ sa.parentSessionId ≠ "" ∧ env.delegator = true ∧
    if env.needsRecovery s sa.subSessionId then s.runtimeInstalled = true
    else s.eventSender = true

/-- For each pending task that the loop over the sub-agents is to complete, that loop has a sub-agent
which it restarts or reports. -/
def CoversPending (env : StartupEnv) (s : Coordinator) : Prop :=
  ∀ sessionId ∈ env.allSessions, s.hasContext sessionId = true →
    ∀ t, s.suspensions sessionId = some t → ∀ id ∈ t.pending,
      isShellProcessId id = false → env.covered s id = true →
        ∃ sa ∈ env.unfinished, sa.subSessionId = id ∧ Restarts env s sa

/-! ## The loop over the sub-agents -/

/-- What that loop leaves as it is. -/
structure SameDaemon (s c : Coordinator) : Prop where
  suspensions : c.suspensions = s.suspensions
  sessions : c.sessions = s.sessions
  runtimeInstalled : c.runtimeInstalled = s.runtimeInstalled
  eventSender : c.eventSender = s.eventSender

/-- The sub-agent is neither skipped nor left with its tombstone. -/
def Considered (s : Coordinator) (sa : UnfinishedSubAgent) : Prop :=
  sa.subSessionId ≠ "" ∧ sa.parentSessionId ≠ "" ∧ s.hasTombstone sa.subSessionId = false

/-- The sub-agent is restarted. -/
def WillStart (env : StartupEnv) (s : Coordinator) (sa : UnfinishedSubAgent) : Prop :=
  Considered s sa ∧ env.needsRecovery s sa.subSessionId = true ∧ env.delegator = true ∧
    s.runtimeInstalled = true

/-- The sub-agent is reported. -/
def WillFail (env : StartupEnv) (s : Coordinator) (sa : UnfinishedSubAgent) : Prop :=
  Considered s sa ∧ env.needsRecovery s sa.subSessionId = false ∧ env.delegator = true ∧
    s.eventSender = true

/-- From `c` to `d`, tasks were started for exactly these ids, and failures reported of exactly
those. -/
structure Effect (c d : Coordinator) (started failed : String → Prop) : Prop where
  tasks : ∃ new, d.tasks = c.tasks ++ new ∧ ∀ id, (∃ t ∈ new, t.subSessionId = id) ↔ started id
  events : ∃ new, d.events = c.events ++ new ∧
    ∀ id, (∃ parentSessionId error, DelegationEvent.failed id parentSessionId error ∈ new) ↔ failed id

section

variable {env : StartupEnv} {s c d e : Coordinator} {sa : UnfinishedSubAgent}

/-- Nothing is started and nothing reported. -/
lemma Effect.none {started failed : String → Prop} (htasks : d.tasks = c.tasks)
    (hevents : d.events = c.events) (hs : ∀ id, ¬ started id) (hf : ∀ id, ¬ failed id) :
    Effect c d started failed :=
  ⟨⟨[], by simp [htasks], fun id => by simp [hs id]⟩,
    ⟨[], by simp [hevents], fun id => by simp [hf id]⟩⟩

lemma Effect.trans {started failed started' failed' : String → Prop} (h : Effect c d started failed)
    (h' : Effect d e started' failed') :
    Effect c e (fun id => started id ∨ started' id) (fun id => failed id ∨ failed' id) := by
  obtain ⟨⟨ts, hts, hstarted⟩, es, hes, hfailed⟩ := h
  obtain ⟨⟨ts', hts', hstarted'⟩, es', hes', hfailed'⟩ := h'
  refine ⟨⟨ts ++ ts', by rw [hts', hts, List.append_assoc], fun id => ?_⟩,
    ⟨es ++ es', by rw [hes', hes, List.append_assoc], fun id => ?_⟩⟩
  · rw [← hstarted id, ← hstarted' id]
    simp only [List.mem_append, or_and_right, exists_or]
  · rw [← hfailed id, ← hfailed' id]
    simp only [List.mem_append, exists_or]

lemma Effect.congr {started failed started' failed' : String → Prop} (h : Effect c d started failed)
    (hs : ∀ id, started id ↔ started' id) (hf : ∀ id, failed id ↔ failed' id) :
    Effect c d started' failed' := by
  obtain ⟨⟨ts, hts, hstarted⟩, es, hes, hfailed⟩ := h
  exact ⟨⟨ts, hts, fun id => (hstarted id).trans (hs id)⟩,
    ⟨es, hes, fun id => (hfailed id).trans (hf id)⟩⟩

variable (env c sa) in
/-- A failure reaches its parent if sub-agents are enabled and there is a sender. -/
lemma effect_sinkFail (error : String) :
    SameDaemon c (sinkFail env c sa error) ∧
      Effect c (sinkFail env c sa error) (fun _ => False)
        (fun id => (env.delegator = true ∧ c.eventSender = true) ∧ sa.subSessionId = id) := by
  unfold sinkFail Coordinator.send
  by_cases hd : env.delegator = true
  · by_cases hs : c.eventSender = true
    · rw [if_pos hd, if_pos hs]
      refine ⟨⟨rfl, rfl, rfl, rfl⟩, ⟨[], by simp, by simp⟩, ⟨_, rfl, fun id => ?_⟩⟩
      simp [hd, hs, eq_comm]
    · rw [if_pos hd, if_neg hs]
      exact ⟨⟨rfl, rfl, rfl, rfl⟩, .none rfl rfl (by simp) (by simp [hs])⟩
  · rw [if_neg hd]
    exact ⟨⟨rfl, rfl, rfl, rfl⟩, .none rfl rfl (by simp) (by simp [hd])⟩

variable (c sa) in
/-- A recovery starts a task if there is a runtime. -/
lemma effect_recoverAsync (agentName : String) (timeoutSecs : Nat)
    (allowedTools : Option (List String)) (now : Nat) :
    SameDaemon c (c.recoverAsync sa.subSessionId agentName sa.parentSessionId timeoutSecs
        allowedTools now) ∧
      Effect c (c.recoverAsync sa.subSessionId agentName sa.parentSessionId timeoutSecs allowedTools
        now) (fun id => c.runtimeInstalled = true ∧ sa.subSessionId = id) (fun _ => False) := by
  unfold Coordinator.recoverAsync
  dsimp only
  have hrt : (c.registerMailbox sa.subSessionId).runtimeInstalled = c.runtimeInstalled := rfl
  rw [hrt]
  by_cases h : c.runtimeInstalled = true
  · rw [if_pos h]
    refine ⟨⟨rfl, rfl, rfl, rfl⟩, ⟨⟨_, rfl, fun id => ?_⟩, ⟨[], by simp; rfl, by simp⟩⟩⟩
    simp [h]
  · rw [if_neg h]
    exact ⟨⟨rfl, rfl, rfl, rfl⟩, .none rfl rfl (by simp [h]) (by simp)⟩

variable (env sa) in
/-- **One sub-agent** is restarted, or reported, or neither. -/
lemma effect_recoverSubAgent (hsame : SameDaemon s c) :
    SameDaemon s (recoverSubAgent env s.hasTombstone c sa) ∧
      Effect c (recoverSubAgent env s.hasTombstone c sa)
        (fun id => WillStart env s sa ∧ sa.subSessionId = id)
        (fun id => WillFail env s sa ∧ sa.subSessionId = id) := by
  obtain ⟨hsusp, hsess, hrt, hsender⟩ := hsame
  have hneeds : env.needsRecovery c sa.subSessionId = env.needsRecovery s sa.subSessionId := by
    unfold StartupEnv.needsRecovery
    rw [hsess]
  unfold recoverSubAgent WillStart WillFail Considered
  by_cases hskip : sa.subSessionId = "" ∨ sa.parentSessionId = ""
  · rw [if_pos hskip]
    refine ⟨⟨hsusp, hsess, hrt, hsender⟩, .none rfl rfl ?_ ?_⟩ <;>
      (rintro id ⟨⟨⟨hid, hparent, -⟩, -⟩, -⟩; exact hskip.elim hid hparent)
  · rw [if_neg hskip]
    rw [not_or] at hskip
    by_cases htomb : s.hasTombstone sa.subSessionId = true
    · rw [if_pos htomb]
      exact ⟨⟨hsusp, hsess, hrt, hsender⟩, .none rfl rfl (by simp [htomb]) (by simp [htomb])⟩
    · rw [if_neg htomb, hneeds]
      simp only [Bool.not_eq_true] at htomb
      by_cases hneed : env.needsRecovery s sa.subSessionId = false
      · rw [if_pos hneed]
        obtain ⟨⟨h1, h2, h3, h4⟩, heff⟩ := effect_sinkFail env c sa
          (env.failReason c sa.subSessionId)
        refine ⟨⟨h1.trans hsusp, h2.trans hsess, h3.trans hrt, h4.trans hsender⟩,
          heff.congr (fun id => ?_) (fun id => ?_)⟩
        · simp [hneed]
        · simp [hneed, hskip, htomb, hsender]
      · rw [if_neg hneed]
        simp only [Bool.not_eq_false] at hneed
        by_cases hd : env.delegator = true
        · rw [if_pos hd]
          obtain ⟨⟨h1, h2, h3, h4⟩, heff⟩ := effect_recoverAsync c sa sa.agentName
            (env.remainingSecs c sa) sa.allowedTools env.now
          refine ⟨⟨h1.trans hsusp, h2.trans hsess, h3.trans hrt, h4.trans hsender⟩,
            heff.congr (fun id => ?_) (fun id => ?_)⟩
          · simp [hneed, hskip, htomb, hd, hrt]
          · simp [hneed]
        · rw [if_neg hd]
          obtain ⟨⟨h1, h2, h3, h4⟩, heff⟩ := effect_sinkFail env c sa
            "daemon restarts, sub-agents disabled"
          refine ⟨⟨h1.trans hsusp, h2.trans hsess, h3.trans hrt, h4.trans hsender⟩,
            heff.congr (fun id => ?_) (fun id => ?_)⟩
          · simp [hd]
          · simp [hd]

variable (env) in
/-- **The loop over the sub-agents** restarts and reports exactly those it considers. -/
lemma effect_foldl_recoverSubAgent (sas : List UnfinishedSubAgent) (hsame : SameDaemon s c) :
    SameDaemon s (sas.foldl (recoverSubAgent env s.hasTombstone) c) ∧
      Effect c (sas.foldl (recoverSubAgent env s.hasTombstone) c)
        (fun id => ∃ sa ∈ sas, WillStart env s sa ∧ sa.subSessionId = id)
        (fun id => ∃ sa ∈ sas, WillFail env s sa ∧ sa.subSessionId = id) := by
  induction sas generalizing c with
  | nil => exact ⟨hsame, .none rfl rfl (by simp) (by simp)⟩
  | cons sa sas ih =>
    obtain ⟨hsame', heff⟩ := effect_recoverSubAgent env sa hsame
    obtain ⟨hsame'', heff'⟩ := ih hsame'
    refine ⟨hsame'', (heff.trans heff').congr (fun id => ?_) (fun id => ?_)⟩
    · simp only [List.mem_cons, exists_eq_or_imp]
    · simp only [List.mem_cons, exists_eq_or_imp]

end

/-! ## The loop over the suspensions -/

/-- A pending task that `recover_suspension` does not leave alone. -/
def NeedsRecord (env : StartupEnv) (s : Coordinator) (id : String) : Prop :=
  if isShellProcessId id then env.shellRunning id = false else env.covered s id = false

/-- The task is recorded in a recovery. -/
def SuspensionRecovery.Recorded (r : SuspensionRecovery) (id : String) : Prop :=
  ∃ snapshot, (id, TerminalRecord.recorded snapshot) ∈ r.records

/-- The task is pending or recorded. -/
def SuspensionRecovery.Awaits (r : SuspensionRecovery) (id : String) : Prop :=
  (∃ t, r.suspension = some t ∧ id ∈ t.pending) ∨ r.Recorded id

section

variable {env : StartupEnv} {s : Coordinator} {snapshot : TurnSuspension} {r : SuspensionRecovery}
  {id other : String}

variable (snapshot r) in
lemma recoverPending_of_needsRecord (h : NeedsRecord env s id) :
    ∃ content stale, recoverPending env s snapshot r id = r.record id content stale env.now := by
  unfold NeedsRecord StartupEnv.shellRunning at h
  unfold recoverPending
  by_cases hshell : isShellProcessId id = true
  · rw [if_pos hshell, hshell, Bool.true_and] at h
    rw [if_pos hshell]
    exact ⟨_, _, if_neg (by rw [h]; exact Bool.false_ne_true)⟩
  · rw [if_neg hshell] at h
    rw [if_neg hshell]
    exact ⟨_, _, if_neg (by rw [h]; exact Bool.false_ne_true)⟩

lemma recoverPending_of_not_needsRecord (h : ¬ NeedsRecord env s id) :
    recoverPending env s snapshot r id = r := by
  unfold NeedsRecord StartupEnv.shellRunning at h
  unfold recoverPending
  by_cases hshell : isShellProcessId id = true
  · rw [if_pos hshell, hshell, Bool.true_and, Bool.not_eq_false] at h
    rw [if_pos hshell]
    exact if_pos h
  · rw [if_neg hshell, Bool.not_eq_false] at h
    rw [if_neg hshell]
    exact if_pos h

/-- What is recorded stays so. -/
lemma SuspensionRecovery.Recorded.record (h : r.Recorded id) (content : String) (stale : Bool)
    (now : Nat) : (r.record other content stale now).Recorded id :=
  h.imp fun _ hmem => List.mem_append_left _ hmem

variable (other) in
/-- A pending task is recorded, and the other ones are still awaited. -/
lemma SuspensionRecovery.Awaits.record (h : r.Awaits id) (content : String) (stale : Bool)
    (now : Nat) :
    (r.record other content stale now).Awaits id ∧
      (other = id → (r.record other content stale now).Recorded id) := by
  rcases h with ⟨t, ht, hmem⟩ | h
  · by_cases hid : other = id
    · subst hid
      have hrec : (r.record other content stale now).Recorded other := by
        refine ⟨t.collect other .failed content 0, ?_⟩
        unfold SuspensionRecovery.record
        rw [ht, recordTerminal_of_pending hmem]
        simp
      exact ⟨.inr hrec, fun _ => hrec⟩
    · refine ⟨.inl ?_, fun heq => absurd heq hid⟩
      unfold SuspensionRecovery.record
      rw [ht]
      exact pending_recordTerminal (Ne.symm hid) hmem
  · exact ⟨.inr (h.record content stale now), fun _ => h.record content stale now⟩

variable (snapshot) in
/-- **The recovery of a suspension records** every awaited task that it does not leave alone. -/
lemma recorded_foldl_recoverPending (hneeds : NeedsRecord env s id) (ids : List String)
    (h : r.Awaits id) :
    (ids.foldl (recoverPending env s snapshot) r).Awaits id ∧
      (id ∈ ids → (ids.foldl (recoverPending env s snapshot) r).Recorded id) := by
  have hkeep : ∀ (ids : List String) (r : SuspensionRecovery), r.Recorded id →
      (ids.foldl (recoverPending env s snapshot) r).Recorded id := by
    intro ids
    induction ids with
    | nil => exact fun r h => h
    | cons other ids ih =>
      intro r h
      refine ih _ ?_
      by_cases hother : NeedsRecord env s other
      · obtain ⟨content, stale, heq⟩ := recoverPending_of_needsRecord snapshot r hother
        rw [heq]
        exact h.record content stale env.now
      · rwa [recoverPending_of_not_needsRecord hother]
  induction ids generalizing r with
  | nil => exact ⟨h, fun hmem => absurd hmem List.not_mem_nil⟩
  | cons other ids ih =>
    rw [List.foldl_cons]
    by_cases hother : NeedsRecord env s other
    · obtain ⟨content, stale, heq⟩ := recoverPending_of_needsRecord snapshot r hother
      obtain ⟨hawaits, hrec⟩ := h.record other content stale env.now
      rw [heq]
      refine ⟨(ih hawaits).1, fun hmem => ?_⟩
      rcases List.mem_cons.1 hmem with rfl | hmem
      · exact hkeep ids _ (hrec rfl)
      · exact (ih hawaits).2 hmem
    · rw [recoverPending_of_not_needsRecord hother]
      refine ⟨(ih h).1, fun hmem => ?_⟩
      rcases List.mem_cons.1 hmem with rfl | hmem
      · exact absurd hneeds hother
      · exact (ih h).2 hmem

/-- Only tasks that are not left alone get an answer. -/
lemma needsRecord_of_mem_foldl (ids : List String)
    (h : ∀ entry ∈ r.records, NeedsRecord env s entry.1) :
    ∀ entry ∈ (ids.foldl (recoverPending env s snapshot) r).records, NeedsRecord env s entry.1 := by
  induction ids generalizing r with
  | nil => exact h
  | cons other ids ih =>
    refine ih ?_
    by_cases hother : NeedsRecord env s other
    · obtain ⟨content, stale, heq⟩ := recoverPending_of_needsRecord snapshot r hother
      rw [heq]
      intro entry hmem
      rcases List.mem_append.1 hmem with hmem | hmem
      · exact h entry hmem
      · obtain rfl := List.mem_singleton.1 hmem
        exact hother
    · rwa [recoverPending_of_not_needsRecord hother]

end

/-- The task of the session is recorded. -/
def StartupState.Recorded (st : StartupState) (sessionId id : String) : Prop :=
  ∃ snapshot, (sessionId, id, TerminalRecord.recorded snapshot) ∈ st.records

/-- The task of the session is pending or recorded. -/
def StartupState.Awaits (st : StartupState) (sessionId id : String) : Prop :=
  (∃ t, st.coordinator.suspensions sessionId = some t ∧ id ∈ t.pending) ∨ st.Recorded sessionId id

section

variable {env : StartupEnv} {s : Coordinator} {st : StartupState} {sessionId id other : String}

/-- What a session has been answered stays. -/
lemma StartupState.Recorded.recoverSuspension (h : st.Recorded sessionId id) :
    (recoverSuspension env s st other).Recorded sessionId id := by
  unfold MyClaw.recoverSuspension
  cases st.coordinator.suspensions other with
  | none => exact h
  | some snapshot => exact h.imp fun _ hmem => List.mem_append_left _ hmem

variable (other) in
/-- **One suspension**: its awaited tasks are recorded, those of other sessions are still awaited. -/
lemma StartupState.Awaits.recoverSuspension (hneeds : NeedsRecord env s id)
    (h : st.Awaits sessionId id) :
    (recoverSuspension env s st other).Awaits sessionId id ∧
      (other = sessionId → (recoverSuspension env s st other).Recorded sessionId id) := by
  rcases h with ⟨t, ht, hmem⟩ | h
  · by_cases hid : other = sessionId
    · subst hid
      have hrec : (MyClaw.recoverSuspension env s st other).Recorded other id := by
        obtain ⟨snapshot, hsnap⟩ := (recorded_foldl_recoverPending t hneeds t.pending
          (r := { suspension := some t, recent := st.recent other }) (.inl ⟨t, rfl, hmem⟩)).2 hmem
        refine ⟨snapshot, ?_⟩
        unfold MyClaw.recoverSuspension
        rw [ht]
        exact List.mem_append_right _ (List.mem_map.2 ⟨_, hsnap, rfl⟩)
      exact ⟨.inr hrec, fun _ => hrec⟩
    · refine ⟨.inl ⟨t, ?_, hmem⟩, fun heq => absurd heq hid⟩
      unfold MyClaw.recoverSuspension
      cases st.coordinator.suspensions other with
      | none => exact ht
      | some snapshot => exact (Function.update_of_ne (Ne.symm hid) _ _).trans ht
  · exact ⟨.inr h.recoverSuspension, fun _ => h.recoverSuspension⟩

lemma recorded_foldl_recoverSuspension (hneeds : NeedsRecord env s id) (ids : List String)
    (h : st.Awaits sessionId id) (hmem : sessionId ∈ ids) :
    (ids.foldl (recoverSuspension env s) st).Recorded sessionId id := by
  have hkeep : ∀ (ids : List String) (st : StartupState), st.Recorded sessionId id →
      (ids.foldl (recoverSuspension env s) st).Recorded sessionId id := by
    intro ids
    induction ids with
    | nil => exact fun st h => h
    | cons other ids ih => exact fun st h => ih _ h.recoverSuspension
  induction ids generalizing st with
  | nil => exact absurd hmem List.not_mem_nil
  | cons other ids ih =>
    obtain ⟨hawaits, hrec⟩ := h.recoverSuspension other hneeds
    rcases List.mem_cons.1 hmem with rfl | hmem
    · exact hkeep ids _ (hrec rfl)
    · exact ih hawaits hmem

variable (env s st other) in
/-- The loop over the suspensions starts and reports nothing. -/
lemma tasks_recoverSuspension :
    (recoverSuspension env s st other).coordinator.tasks = st.coordinator.tasks ∧
      (recoverSuspension env s st other).coordinator.events = st.coordinator.events := by
  unfold recoverSuspension
  cases st.coordinator.suspensions other <;> exact ⟨rfl, rfl⟩

variable (env s st) in
lemma tasks_foldl_recoverSuspension (ids : List String) :
    (ids.foldl (recoverSuspension env s) st).coordinator.tasks = st.coordinator.tasks ∧
      (ids.foldl (recoverSuspension env s) st).coordinator.events = st.coordinator.events := by
  induction ids generalizing st with
  | nil => exact ⟨rfl, rfl⟩
  | cons other ids ih =>
    obtain ⟨htasks, hevents⟩ := tasks_recoverSuspension env s st other
    exact ⟨(ih _).1.trans htasks, (ih _).2.trans hevents⟩

lemma needsRecord_of_mem_records (ids : List String)
    (h : ∀ entry ∈ st.records, NeedsRecord env s entry.2.1) :
    ∀ entry ∈ (ids.foldl (recoverSuspension env s) st).records, NeedsRecord env s entry.2.1 := by
  induction ids generalizing st with
  | nil => exact h
  | cons other ids ih =>
    refine ih ?_
    unfold recoverSuspension
    cases st.coordinator.suspensions other with
    | none => exact h
    | some snapshot =>
      intro entry hmem
      rcases List.mem_append.1 hmem with hmem | hmem
      · exact h entry hmem
      · obtain ⟨answer, hanswer, rfl⟩ := List.mem_map.1 hmem
        exact needsRecord_of_mem_foldl snapshot.pending (by simp) answer hanswer

end

/-! ## The whole recovery -/

section

variable {env : StartupEnv} {s : Coordinator} {recent : String → List (String × Nat)}

variable (env s recent) in
/-- What the first loop has done is what the whole recovery has done. -/
lemma effect_runStartup :
    Effect s (runStartup env s recent).coordinator
      (fun id => ∃ sa ∈ env.unfinished, WillStart env s sa ∧ sa.subSessionId = id)
      (fun id => ∃ sa ∈ env.unfinished, WillFail env s sa ∧ sa.subSessionId = id) := by
  obtain ⟨-, ⟨ts, hts, hstarted⟩, es, hes, hfailed⟩ :=
    effect_foldl_recoverSubAgent env env.unfinished (⟨rfl, rfl, rfl, rfl⟩ : SameDaemon s s)
  have hkeep := tasks_foldl_recoverSuspension env s
    { coordinator := env.unfinished.foldl (recoverSubAgent env s.hasTombstone) s
      recent := recent } (env.suspendedIds s)
  exact ⟨⟨ts, hkeep.1.trans hts, hstarted⟩, ⟨es, hkeep.2.trans hes, hfailed⟩⟩

lemma startedSince_iff {started failed : String → Prop} {d : Coordinator} {id : String}
    (h : Effect s d started failed) : StartedSince s d id ↔ started id := by
  obtain ⟨⟨ts, hts, hstarted⟩, -⟩ := h
  rw [← hstarted id]
  constructor
  · rintro ⟨new, hnew, hmem⟩
    rwa [List.append_cancel_left (hts.symm.trans hnew)]
  · exact fun hmem => ⟨ts, hts, hmem⟩

lemma failedSince_iff {started failed : String → Prop} {d : Coordinator} {id : String}
    (h : Effect s d started failed) : FailedSince s d id ↔ failed id := by
  obtain ⟨-, es, hes, hfailed⟩ := h
  rw [← hfailed id]
  constructor
  · rintro ⟨new, hnew, hmem⟩
    rwa [List.append_cancel_left (hes.symm.trans hnew)]
  · exact fun hmem => ⟨es, hes, hmem⟩

/-- A covered sub-agent is restarted or reported exactly when it is not skipped and there is what
that takes. -/
lemma restarts_iff {sa : UnfinishedSubAgent} (htomb : s.hasTombstone sa.subSessionId = false) :
    Restarts env s sa ↔ WillStart env s sa ∨ WillFail env s sa := by
  unfold Restarts WillStart WillFail Considered
  cases env.needsRecovery s sa.subSessionId <;> simp [htomb, and_assoc]

/-- A pending task that is not left alone is attended to. -/
lemma recorded_runStartup {sessionId id : String} {t : TurnSuspension}
    (hmem : sessionId ∈ env.allSessions) (hctx : s.hasContext sessionId = true)
    (ht : s.suspensions sessionId = some t) (hid : id ∈ t.pending) (hneeds : NeedsRecord env s id) :
    (runStartup env s recent).Recorded sessionId id := by
  obtain ⟨hsame, -⟩ :=
    effect_foldl_recoverSubAgent env env.unfinished (⟨rfl, rfl, rfl, rfl⟩ : SameDaemon s s)
  refine recorded_foldl_recoverSuspension hneeds _ (.inl ⟨t, ?_, hid⟩) ?_
  · rw [hsame.suspensions, ht]
  · refine List.mem_filter.2 ⟨hmem, ?_⟩
    have hne : t.pending.isEmpty = false := by
      cases hp : t.pending with
      | nil => simp [hp] at hid
      | cons => rfl
    rw [ht, hctx, Option.any_some, hne]
    rfl

end

/-- **Recovery strands no pending task** exactly when the loop over the sub-agents has what it takes
for each pending task that is left to it. -/
theorem strandsNone_iff (env : StartupEnv) (s : Coordinator)
    (recent : String → List (String × Nat)) :
    StrandsNone env s (runStartup env s recent) ↔ CoversPending env s := by
  have heff := effect_runStartup env s recent
  refine forall_congr' fun sessionId => forall_congr' fun hmem => forall_congr' fun hctx =>
    forall_congr' fun t => forall_congr' fun ht => forall_congr' fun id =>
      forall_congr' fun hid => ?_
  unfold Attended
  rw [startedSince_iff heff, failedSince_iff heff]
  constructor
  · intro hatt hshell hcov
    have htomb : s.hasTombstone id = false := by
      unfold StartupEnv.covered at hcov
      simpa using (Bool.and_eq_true_iff.1 hcov).1
    rcases hatt with ⟨snapshot, hrec⟩ | hrun | ⟨-, ⟨sa, hsa, hstart, rfl⟩ | ⟨sa, hsa, hfail, rfl⟩⟩
    · -- a covered sub-agent is left alone
      have hneeds : NeedsRecord env s id :=
        needsRecord_of_mem_records (env.suspendedIds s) (by simp) _ hrec
      unfold NeedsRecord at hneeds
      rw [if_neg (by simp [hshell]), hcov] at hneeds
      cases hneeds
    · unfold StartupEnv.shellRunning at hrun
      rw [hshell] at hrun
      cases hrun
    · exact ⟨sa, hsa, rfl, (restarts_iff htomb).2 (.inl hstart)⟩
    · exact ⟨sa, hsa, rfl, (restarts_iff htomb).2 (.inr hfail)⟩
  · intro hcovers
    by_cases hneeds : NeedsRecord env s id
    · exact .inl (recorded_runStartup hmem hctx ht hid hneeds)
    · right
      unfold NeedsRecord at hneeds
      by_cases hshell : isShellProcessId id = true
      · rw [if_pos hshell, Bool.not_eq_false] at hneeds
        exact .inl hneeds
      · rw [if_neg hshell, Bool.not_eq_false] at hneeds
        obtain ⟨sa, hsa, rfl, hrestarts⟩ := hcovers (by simpa using hshell) hneeds
        have htomb : s.hasTombstone sa.subSessionId = false := by
          unfold StartupEnv.covered at hneeds
          simpa using (Bool.and_eq_true_iff.1 hneeds).1
        refine .inr ⟨⟨sa, hsa, rfl⟩, ?_⟩
        rcases (restarts_iff htomb).1 hrestarts with hstart | hfail
        · exact .inl ⟨sa, hsa, hstart, rfl⟩
        · exact .inr ⟨sa, hsa, hfail, rfl⟩

/-! ## Sub-agents that have been disabled -/

namespace DisabledSubAgents

/-- A session that waits for a sub-agent, whose turn is incomplete. -/
def coordinator : Coordinator :=
  { sessions := fun _ => true
    suspensions := fun id => if id = "p" then some { pending := ["s"] } else none }

/-- The daemon comes back without sub-agents. -/
def env : StartupEnv :=
  { allSessions := ["p", "s"]
    unfinished :=
      [{ agentName := "coder", parentSessionId := "p", subSessionId := "s", timeoutSecs := 600 }]
    histories := fun _ => [.userText "go on"]
    delegator := false, shells := none, now := 0 }

end DisabledSubAgents

open DisabledSubAgents in
/-- **A daemon that comes back without sub-agents** leaves the session waiting for one. -/
theorem not_strandsNone_disabled :
    ¬ StrandsNone env coordinator (runStartup env coordinator fun _ => []) := by
  intro h
  have hatt := h "p" (by decide) rfl _ rfl "s" (by decide)
  have heff := effect_runStartup env coordinator fun _ => []
  unfold Attended at hatt
  rw [startedSince_iff heff, failedSince_iff heff] at hatt
  rcases hatt with ⟨snapshot, hrec⟩ | hrun | ⟨-, ⟨sa, -, ⟨-, -, hd, -⟩, -⟩ | ⟨sa, -, ⟨-, -, hd, -⟩, -⟩⟩
  · have hneeds : NeedsRecord env coordinator "s" :=
      needsRecord_of_mem_records (env.suspendedIds coordinator) (by simp) _ hrec
    revert hneeds
    unfold NeedsRecord
    decide
  · revert hrun
    decide
  · cases hd
  · cases hd

end MyClaw
