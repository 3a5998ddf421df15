import MyClaw.Delegation.Coordinator

set_option autoImplicit false

/-!
# Whole requests to delegate

`spawn_delegate_async` and `resume_timed_out` (`delegation_coordinator/lifecycle.rs`) from their
checks to the entry in the `running` table.  A request that fails is to leave nothing behind, and one
that succeeds is to have started a task which tells the parent how it ends.

`spawn_delegate_async` does all its checks first.  `resume_timed_out` arms the parent before it loads
the sub-session, and `recover_async` registers the inbox before it fetches the runtime and has no
way to report that there is none; its task does not survive a panic of the turn either.

## Main definitions

* `Coordinator.spawnDelegateAsync`, `Coordinator.resumeTimedOut` — the requests.
* `Clean` — a failed request leaves nothing behind, a successful one has started a task.
* `Resumable` — what a request to resume has to find.

## Main results

* `clean_request_iff` — a request is clean exactly when it is not a resumption that fails
  after its checks.
-/

namespace MyClaw

namespace Coordinator

/-- `spawn_delegate_async`. -/
def spawnDelegateAsync (s : Coordinator) (agentName parentSessionId : String) (timeoutSecs : Nat)
    (allowedTools : Option (List String)) (created : Except String String) (now : Nat) :
    Coordinator × Except DelegationError String :=
  match s.checkSpawn agentName parentSessionId created with
  | .error e => (s, .error e)
  | .ok subSessionId =>
    let entry : RunningEntry :=
      { handle := s.next, agentName := agentName, parentSessionId := parentSessionId
        startedAt := now, timeoutSecs := timeoutSecs, allowedTools := allowedTools }
    (((((s.armRegistered parentSessionId subSessionId).registerMailbox subSessionId).launch
      subSessionId parentSessionId true).insertRunning subSessionId entry), .ok subSessionId)

/-- `recover_async`: without a runtime it returns, and its caller does not hear of it. -/
def recoverAsync (s : Coordinator) (subSessionId agentName parentSessionId : String)
    (timeoutSecs : Nat) (allowedTools : Option (List String)) (now : Nat) : Coordinator :=
  let s := s.registerMailbox subSessionId
  if s.runtimeInstalled then
    (s.launch subSessionId parentSessionId false).insertRunning subSessionId
      (s.recoveredEntry agentName parentSessionId timeoutSecs allowedTools now)
  else s

/-- `resume_timed_out`. -/
def resumeTimedOut (s : Coordinator) (subSessionId : String) (extraSecs : Option Nat) (now : Nat) :
    Coordinator × Except DelegationError String :=
  match s.checkResume subSessionId with
  | .error e => (s, .error e)
  | .ok cp =>
    if s.hasContext cp.parentSessionId then
      let s := s.addPendingTask cp.parentSessionId subSessionId
      if s.sessions subSessionId then
        let resumed := resumedCheckpoint subSessionId cp extraSecs now
        ((s.saveCheckpoint resumed).recoverAsync subSessionId cp.agentName cp.parentSessionId
          resumed.timeoutSecs cp.allowedTools now, .ok subSessionId)
      else (s, .error (.other ("sub-agent session '" ++ subSessionId ++ "' not found")))
    else
      (s, .error (.other ("parent session '" ++ cp.parentSessionId ++
        "' not found for sub-agent '" ++ subSessionId ++ "'")))

end Coordinator

/-- A request of the agent. -/
inductive DelegationRequest
  | spawn (agentName parentSessionId : String) (timeoutSecs : Nat)
      (allowedTools : Option (List String)) (created : Except String String)
  | resume (subSessionId : String) (extraSecs : Option Nat)

/-- The state after a request, and its answer. -/
def Coordinator.request (s : Coordinator) (r : DelegationRequest) (now : Nat) :
    Coordinator × Except DelegationError String :=
  match r with
  | .spawn agentName parentSessionId timeoutSecs allowedTools created =>
    s.spawnDelegateAsync agentName parentSessionId timeoutSecs allowedTools created now
  | .resume subSessionId extraSecs => s.resumeTimedOut subSessionId extraSecs now

/-- Suspensions, tables and checkpoints are as before. -/
structure Untouched (s t : Coordinator) : Prop where
  suspensions : t.suspensions = s.suspensions
  running : t.running = s.running
  mailboxes : t.mailboxes = s.mailboxes
  checkpoints : t.checkpoints = s.checkpoints

/-- One task more has been started, for this sub-session, and if there is a sender, it sends a
terminal event for it when its turn ends in the given way. -/
def StartsTask (s t : Coordinator) (subSessionId : String) (exit : TurnExit) : Prop :=
  ∃ task, t.tasks = s.tasks ++ [task] ∧ task.subSessionId = subSessionId ∧
    (s.eventSender = true → ∀ durationSecs sentMessageCount,
      ∃ e, task.exitEvent exit durationSecs sentMessageCount = some e ∧
        e.subSessionId = subSessionId)

/-- A request that fails leaves nothing behind, and one that succeeds has started a task, which
reports the end of its turn. -/
def Clean (s : Coordinator) (outcome : Coordinator × Except DelegationError String)
    (exit : TurnExit) : Prop :=
  match outcome.2 with
  | .error _ => Untouched s outcome.1
  | .ok subSessionId => StartsTask s outcome.1 subSessionId exit

/-- A resumption that has passed its checks, and whose parent there is, finds the sub-session and the
runtime, and its turn does not panic; or it does not find the sub-session and the parent waits for it
already. -/
def Resumable (s : Coordinator) (r : DelegationRequest) (exit : TurnExit) : Prop :=
  match r with
  | .spawn .. => True
  | .resume subSessionId _ =>
    ∀ cp, s.checkResume subSessionId = .ok cp → s.hasContext cp.parentSessionId = true →
      if s.sessions subSessionId then
        s.runtimeInstalled = true ∧ (s.eventSender = true → ∀ payload, exit ≠ .panicked payload)
      else ∃ t, s.suspensions cp.parentSessionId = some t ∧ subSessionId ∈ t.pending

/-! ## What the steps change -/

section

variable (s : Coordinator) {subSessionId parentSessionId : String}

lemma Untouched.refl : Untouched s s := ⟨rfl, rfl, rfl, rfl⟩

/-- A task that is launched reports the end of its turn, if there is a sender, and if the turn has a
task of its own or does not panic. -/
lemma startsTask_of_launch_iff {t u : Coordinator} {layered : Bool} {exit : TurnExit}
    (htasks : t.tasks = s.tasks) (hsender : t.eventSender = s.eventSender)
    (hu : u.tasks = (t.launch subSessionId parentSessionId layered).tasks) :
    StartsTask s u subSessionId exit ↔
      (s.eventSender = true → layered = false → ∀ payload, exit ≠ .panicked payload) := by
  have hnew : u.tasks = s.tasks ++
      [{ no := t.next, subSessionId := subSessionId, parentSessionId := parentSessionId
         layered := layered, eventSender := s.eventSender }] := by
    rw [hu, ← htasks, ← hsender]
    rfl
  unfold StartsTask
  rw [hnew]
  simp only [List.append_cancel_left_eq, List.cons.injEq, and_true, exists_eq_left',
    DelegationTask.exitEvent, DelegationTask.exitResult, true_and]
  refine forall_congr' fun hs => ?_
  rcases exit with result | payload
  · simp [hs]
  · cases layered <;> simp [hs]

/-- Arming a suspension changes nothing exactly when the id is pending in it. -/
lemma addPendingTask_suspensions_iff {sessionId : String} :
    (s.addPendingTask sessionId subSessionId).suspensions = s.suspensions ↔
      ∃ t, s.suspensions sessionId = some t ∧ subSessionId ∈ t.pending := by
  unfold Coordinator.addPendingTask
  rw [Function.update_eq_self_iff]
  rcases s.suspensions sessionId with _ | t
  · simp
  · simp only [armPending, TurnSuspension.addPending, Option.some.injEq, exists_eq_left']
    constructor
    · intro h
      by_contra hnot
      rw [if_neg hnot] at h
      have hlen := congrArg (fun t : TurnSuspension => t.pending.length) h
      simp at hlen
    · intro h
      rw [if_pos h]

end

/-! ## The requests -/

/-- **A new delegation is clean**: it fails before it has any effect. -/
lemma clean_spawn (s : Coordinator) (agentName parentSessionId : String) (timeoutSecs : Nat)
    (allowedTools : Option (List String)) (created : Except String String) (now : Nat)
    (exit : TurnExit) :
    Clean s (s.spawnDelegateAsync agentName parentSessionId timeoutSecs allowedTools created now)
      exit := by
  unfold Coordinator.spawnDelegateAsync
  rcases s.checkSpawn agentName parentSessionId created with e | subSessionId
  · exact Untouched.refl s
  · refine (startsTask_of_launch_iff s (t := (s.armRegistered parentSessionId
      subSessionId).registerMailbox subSessionId) (by simp [Coordinator.registerMailbox])
      (by simp [Coordinator.registerMailbox]) rfl).2 ?_
    intro _ hlayered
    cases hlayered

/-- **A recovery starts a task** exactly when there is a runtime; a panic of the turn takes the task
along. -/
lemma startsTask_recoverAsync_iff {s t : Coordinator}
    {subSessionId agentName parentSessionId : String} {timeoutSecs : Nat}
    {allowedTools : Option (List String)} {now : Nat} {exit : TurnExit}
    (htasks : t.tasks = s.tasks) (hsender : t.eventSender = s.eventSender) :
    StartsTask s (t.recoverAsync subSessionId agentName parentSessionId timeoutSecs allowedTools now)
        subSessionId exit ↔
      t.runtimeInstalled = true ∧
        (s.eventSender = true → ∀ payload, exit ≠ .panicked payload) := by
  unfold Coordinator.recoverAsync
  dsimp only
  have hrt : (t.registerMailbox subSessionId).runtimeInstalled = t.runtimeInstalled := rfl
  rw [hrt]
  split_ifs with h
  · refine (startsTask_of_launch_iff s (t := t.registerMailbox subSessionId) htasks hsender
      rfl).trans ?_
    simp [h]
  · refine iff_of_false ?_ fun hok => h hok.1
    rintro ⟨task, hnew, -, -⟩
    have hlen := congrArg List.length (htasks.symm.trans hnew)
    simp at hlen

/-- **A resumption is clean** exactly when it does not fail after its checks. -/
lemma clean_resume_iff (s : Coordinator) (subSessionId : String) (extraSecs : Option Nat)
    (now : Nat) (exit : TurnExit) :
    Clean s (s.resumeTimedOut subSessionId extraSecs now) exit ↔
      Resumable s (.resume subSessionId extraSecs) exit := by
  unfold Coordinator.resumeTimedOut Resumable
  rcases hcheck : s.checkResume subSessionId with e | cp
  · exact iff_of_true (Untouched.refl s) fun cp h => by rw [hcheck] at h; cases h
  · dsimp only
    simp only [hcheck, Except.ok.injEq, forall_eq']
    by_cases hparent : s.hasContext cp.parentSessionId = true
    · rw [if_pos hparent]
      simp only [hparent, forall_const]
      have hsessions : (s.addPendingTask cp.parentSessionId subSessionId).sessions subSessionId =
          s.sessions subSessionId := rfl
      rw [hsessions]
      by_cases hsub : s.sessions subSessionId = true
      · rw [if_pos hsub, if_pos hsub]
        exact startsTask_recoverAsync_iff rfl rfl
      · rw [if_neg hsub, if_neg hsub, ← addPendingTask_suspensions_iff]
        exact ⟨fun h => h.suspensions, fun h => ⟨h, rfl, rfl, rfl⟩⟩
    · rw [if_neg hparent]
      exact iff_of_true (Untouched.refl s) fun h => absurd h hparent

/-- **A request leaves nothing behind when it fails, and a task when it succeeds**, exactly when it is
not a resumption that fails after its checks. -/
theorem clean_request_iff (s : Coordinator) (r : DelegationRequest) (now : Nat) (exit : TurnExit) :
    Clean s (s.request r now) exit ↔ Resumable s r exit := by
  cases r with
  | spawn agentName parentSessionId timeoutSecs allowedTools created =>
    exact iff_of_true
      (clean_spawn s agentName parentSessionId timeoutSecs allowedTools created now exit) trivial
  | resume subSessionId extraSecs => exact clean_resume_iff s subSessionId extraSecs now exit

/-- A delegation that has timed out, with a parent that waits for nothing; its sub-session is gone. -/
def lostSubSession : Coordinator :=
  { sessions := fun id => id == "p"
    checkpoints := fun _ =>
      some { parentSessionId := "p", subSessionId := "s", agentName := "coder"
             status := "timed_out", startedAt := 0, timeoutSecs := 600 } }

/-- **A resumption without its sub-session fails and leaves the parent waiting** for it. -/
theorem not_clean_lostSubSession :
    ¬ Clean lostSubSession (lostSubSession.request (.resume "s" none) 0)
      (.returned (.ok "done")) := by
  intro h
  have hsusp := congrFun (Untouched.suspensions h) "p"
  exact absurd hsusp (by decide)

end MyClaw
