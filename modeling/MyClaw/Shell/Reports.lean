import MyClaw.Delegation.Coordinator
import MyClaw.Shell.ProcEntry

set_option autoImplicit false

/-!
# The reports of shell processes

`ShellTool::execute` (`tools/shell/shell_tool.rs`) spawns a process, waits for it until a deadline,
and arms it for a completion notice when it still runs then.  A reaper waits for the process,
records its exit in the registry and sends the notice, which the orchestrator collects with
`record_terminal`.  `shell_poll` may remove an entry whose process has ended.  Each of these is a
task of its own, and each access to the registry, to the suspension of the session and to the
channel is a step.

## Main definitions

* `ShellProcess` — one process with its entry, its reaper and its call of `execute`.
* `ShellEvent`, `shellStep` — the machine.
* `ReportsOnce` — the end of each process is reported once, and no process stays pending
  after its notice has been recorded.
* `KeepsReports` — the condition of a step.

## Main results

* `reportsOnce_iff` — a run reports once exactly when each of its steps keeps the reports.
* `not_reportsOnce_lateRegister` — a process that ends between arming and registration.

## Implementation notes

The notice channel is unbounded; a sender that waits for room is one whose `send` comes later.  The
signal of `shell_kill` has no effect of its own, since a process may end at any time.
-/

namespace MyClaw

/-! ## One process -/

/-- Where the reaper of a process is. -/
inductive ReaperPhase
  | unstarted
  /-- `child.wait()`. -/
  | waiting
  /-- The exit is recorded, and a notice is due. -/
  | sending (exitCode : Option Int)
  | done

/-- Where the call of `execute` is. -/
inductive ExecutePhase
  /-- The entry is in the registry. -/
  | inserted
  /-- A background process is pending. -/
  | registered
  /-- The loop that looks at the entry. -/
  | waiting
  /-- The entry was still running at the deadline. -/
  | timedOut
  /-- `mark_notify_on_exit` did not find that the process has ended; `found` says whether it found
  the entry at all. -/
  | armed (found : Bool)
  | returned
  /-- `expect("just-inserted entry must exist")`. -/
  | panicked
  deriving DecidableEq

/-- A spawned process. -/
structure ShellProcess where
  sessionId : String
  background : Bool
  /-- Its entry in the registry. -/
  entry : Option ProcEntry
  /-- The exit code, once it has ended. -/
  exit : Option (Option Int) := none
  reaper : ReaperPhase := .unstarted
  call : ExecutePhase := .inserted
  /-- How many times `execute` has returned its end. -/
  inlined : Nat := 0
  /-- How many notices the reaper has sent. -/
  sent : Nat := 0
  /-- `record_terminal` has been called for its notice. -/
  recorded : Bool := false

/-- `ShellCompletion`. -/
structure ShellCompletion where
  sessionId : String
  processId : String
  content : String
  exitCode : Option Int

/-- A step of one of the tasks around a process. -/
inductive ProcAction
  /-- `spawn_tracked` registers a background process as pending. -/
  | registerSpawned
  /-- `spawn_owned_reaper`; `execute` returns at once for a background process. -/
  | startReaper
  | exit (exitCode : Option Int)
  /-- `set_state` by the reaper. -/
  | setState
  /-- `tx.send(..)` by the reaper. -/
  | send (content : String)
  /-- One turn of the loop of `execute`. -/
  | snapshot (atDeadline : Bool)
  | markNotifyOnExit
  /-- `register_pending` after the deadline. -/
  | register
  | kill
  /-- `shell_poll` with `remove`. -/
  | remove

namespace ShellProcess

/-- The entry is in the registry and says that the process runs. -/
def isRunning (p : ShellProcess) : Bool := p.entry.any (·.isRunning)

/-- What a step does to the process. -/
def act (p : ShellProcess) : ProcAction → ShellProcess
  | .registerSpawned =>
    if p.call = .inserted ∧ p.background = true then { p with call := .registered } else p
  | .startReaper =>
    if p.call = .registered then { p with reaper := .waiting, call := .returned }
    else if p.call = .inserted ∧ p.background = false then
      { p with reaper := .waiting, call := .waiting }
    else p
  | .exit exitCode => if p.exit = none then { p with exit := some exitCode } else p
  | .setState =>
    match p.reaper, p.exit with
    | .waiting, some exitCode =>
      let updated := p.entry.map (·.setState "exited" exitCode)
      { p with
        entry := updated
        reaper := if updated.any (·.notifyOnExit) then .sending exitCode else .done }
    | _, _ => p
  | .send _ =>
    match p.reaper with
    | .sending _ => { p with reaper := .done, sent := p.sent + 1 }
    | _ => p
  | .snapshot atDeadline =>
    if p.call = .waiting then
      match p.entry with
      | some entry =>
        if entry.isRunning then if atDeadline then { p with call := .timedOut } else p
        else { p with call := .returned, inlined := p.inlined + 1 }
      | none => if atDeadline then { p with call := .panicked } else p
    else p
  | .markNotifyOnExit =>
    if p.call = .timedOut then
      match p.entry.map (·.markNotifyOnExit) with
      | none => { p with call := .armed false }
      | some live =>
        if live.isRunning then { p with entry := some live, call := .armed true }
        else { p with entry := some live, call := .returned, inlined := p.inlined + 1 }
    else p
  | .register =>
    match p.call with
    | .armed _ => { p with call := .returned }
    | _ => p
  | .kill => p
  | .remove => if p.isRunning then p else { p with entry := none }

/-- The step calls `add_pending_task`. -/
def registers (p : ShellProcess) : ProcAction → Bool
  | .registerSpawned => p.call = .inserted && p.background
  | .register => p.call = .armed true || p.call = .armed false
  | _ => false

/-- The notice that the step sends. -/
def sends (p : ShellProcess) (processId : String) : ProcAction → Option ShellCompletion
  | .send content =>
    match p.reaper with
    | .sending exitCode =>
      some
        { sessionId := p.sessionId, processId := processId, content := content
          exitCode := exitCode }
    | _ => none
  | _ => none

end ShellProcess

/-! ## The machine -/

/-- The processes, the notice channel, and the suspensions of the sessions. -/
structure ShellState where
  procs : String → Option ShellProcess := fun _ => none
  notices : List ShellCompletion := []
  suspensions : String → Option TurnSuspension := fun _ => none
  recentlyRecordedTerminals : String → List (String × Nat) := fun _ => []

/-- What happens. -/
inductive ShellEvent
  /-- `spawn_tracked` inserts the entry under a fresh id. -/
  | spawn (processId sessionId outputPath : String) (spawnedAtMs : Int) (background : Bool)
  | step (processId : String) (action : ProcAction)
  /-- The orchestrator takes the next notice and calls `record_terminal`. -/
  | record (now : Nat)

/-- The status that `route_shell_completion` gives a process. -/
def statusOfExitCode : Option Int → SubStatus
  | some 0 | none => .completed
  | some _ => .failed

/-- The state after an event. -/
def shellStep (s : ShellState) : ShellEvent → ShellState
  | .spawn processId sessionId outputPath spawnedAtMs background =>
    match s.procs processId with
    | some _ => s
    | none =>
      let entry : ProcEntry :=
        { processId := processId, sessionId := sessionId, spawnedAtMs := spawnedAtMs
          outputPath := outputPath, state := "running", exitCode := none
          notifyOnExit := background }
      let p : ShellProcess :=
        { sessionId := sessionId, background := background, entry := some entry }
      { s with procs := Function.update s.procs processId (some p) }
  | .step processId action =>
    match s.procs processId with
    | none => s
    | some p =>
      { s with
        procs := Function.update s.procs processId (some (p.act action))
        notices := s.notices ++ (p.sends processId action).toList
        suspensions :=
          if p.registers action then
            Function.update s.suspensions p.sessionId
              (some (armPending (s.suspensions p.sessionId) processId))
          else s.suspensions }
  | .record now =>
    match s.notices with
    | [] => s
    | sc :: rest =>
      let r := recordTerminal (s.suspensions sc.sessionId)
        (s.recentlyRecordedTerminals sc.sessionId) sc.processId (statusOfExitCode sc.exitCode)
        sc.content 0 now
      let noted := (s.procs sc.processId).map fun p => { p with recorded := true }
      { procs := Function.update s.procs sc.processId noted
        notices := rest
        suspensions := Function.update s.suspensions sc.sessionId r.1
        recentlyRecordedTerminals :=
          Function.update s.recentlyRecordedTerminals sc.sessionId r.2.1 }

/-! ## The property and its condition -/

/-- The pending list of a suspension. -/
def pendingOf (t : Option TurnSuspension) : List String := (t.map (·.pending)).getD []

/-- `execute` and the reaper have nothing left to do. -/
def ShellProcess.Settled (p : ShellProcess) : Prop :=
  p.reaper = .done ∧ (p.call = .returned ∨ p.call = .panicked)

/-- **Reported once**: at no time is the end of a process reported twice, a settled process has been
reported, and a process whose notice has been recorded is not pending. -/
def ReportsOnce (s : ShellState) : Prop :=
  ∀ id p, s.procs id = some p →
    p.inlined + p.sent ≤ 1 ∧ (p.Settled → p.inlined + p.sent = 1) ∧
      (p.recorded = true → id ∉ pendingOf (s.suspensions p.sessionId))

/-- The condition of a step around one process. -/
def ShellProcess.KeepsReports (p : ShellProcess) : ProcAction → Prop
  | .snapshot true => p.call = .waiting → p.entry ≠ none
  | .register => p.call ≠ .armed false ∧ (p.call = .armed true → p.recorded = false)
  | _ => True

/-- **The condition of a step**: the entry is there when `execute` looks at its deadline, it was
there when the process was armed, and the notice of the process has not been recorded when the
process is registered. -/
def KeepsReports (s : ShellState) : ShellEvent → Prop
  | .step processId action => ∀ p ∈ s.procs processId, p.KeepsReports action
  | _ => True

/-! ## Processes on track -/

namespace ShellProcess

/-- Nothing has been reported. -/
def Unreported (p : ShellProcess) : Prop := p.inlined = 0 ∧ p.sent = 0 ∧ p.recorded = false

/-- The reaper waits for the process, and will send a notice or not. -/
def Watched (p : ShellProcess) (notify : Bool) : Prop :=
  p.reaper = .waiting ∧ ∃ e, p.entry = some e ∧ e.isRunning = true ∧ e.notifyOnExit = notify

/-- No reaper has been started. -/
def Fresh (p : ShellProcess) : Prop :=
  p.reaper = .unstarted ∧ p.Unreported ∧
    ∃ e, p.entry = some e ∧ e.isRunning = true ∧ e.notifyOnExit = p.background

/-- There is no notice, and will be none. -/
def Silent (p : ShellProcess) : Prop :=
  p.Unreported ∧ (p.Watched false ∨ p.reaper = .done ∧ p.isRunning = false)

/-- There is a notice, or will be one. -/
def Announced (p : ShellProcess) : Prop :=
  p.Unreported ∧ p.Watched true ∨
    p.Unreported ∧ (∃ exitCode, p.reaper = .sending exitCode) ∧ p.isRunning = false ∨
    p.reaper = .done ∧ p.isRunning = false ∧ p.inlined = 0 ∧ p.sent = 1

/-- `execute` has returned the end. -/
def Inlined (p : ShellProcess) : Prop :=
  p.reaper = .done ∧ p.isRunning = false ∧ p.inlined = 1 ∧ p.sent = 0 ∧ p.recorded = false

/-- What is known of a process of a good run, by the phase of its call. -/
def OnTrack (p : ShellProcess) : Prop :=
  match p.call with
  | .inserted => p.Fresh
  | .registered => p.Fresh ∧ p.background = true
  | .waiting | .timedOut => p.Silent
  | .armed true => p.Announced
  | .armed false => p.Silent ∧ p.reaper = .done
  | .returned => p.Announced ∨ p.Inlined
  | .panicked => False

variable {p : ShellProcess}

lemma isRunning_of_entry {e : ProcEntry} (h : p.entry = some e) : p.isRunning = e.isRunning := by
  rw [isRunning, h]
  rfl

/-- Where the reaper waits, the entry is there and runs. -/
lemma Silent.done (h : p.Silent) (hrun : p.isRunning = false) : p.reaper = .done := by
  rcases h.2 with ⟨-, e, hentry, hrunning, -⟩ | ⟨hdone, -⟩
  · rw [isRunning_of_entry hentry, hrunning] at hrun
    cases hrun
  · exact hdone

/-- A process on track has not been reported and is not settled, or is announced, or its end has been
returned. -/
lemma OnTrack.stage (h : p.OnTrack) :
    (p.Unreported ∧ ¬ p.Settled) ∨ p.Announced ∨ p.Inlined := by
  have hquiet : p.Unreported → p.call ≠ .returned → p.call ≠ .panicked →
      (p.Unreported ∧ ¬ p.Settled) ∨ p.Announced ∨ p.Inlined := fun hu hreturned hpanicked =>
    .inl ⟨hu, fun hsettled => hsettled.2.elim hreturned hpanicked⟩
  unfold OnTrack at h
  cases hcall : p.call with
  | inserted =>
    rw [hcall] at h
    exact hquiet h.2.1 (by simp [hcall]) (by simp [hcall])
  | registered =>
    rw [hcall] at h
    exact hquiet h.1.2.1 (by simp [hcall]) (by simp [hcall])
  | waiting =>
    rw [hcall] at h
    exact hquiet h.1 (by simp [hcall]) (by simp [hcall])
  | timedOut =>
    rw [hcall] at h
    exact hquiet h.1 (by simp [hcall]) (by simp [hcall])
  | armed found =>
    rw [hcall] at h
    cases found with
    | true => exact .inr (.inl h)
    | false => exact hquiet h.1.1 (by simp [hcall]) (by simp [hcall])
  | returned =>
    rw [hcall] at h
    exact .inr h
  | panicked =>
    rw [hcall] at h
    exact h.elim

lemma Unreported.count (h : p.Unreported) : p.inlined + p.sent = 0 := by rw [h.1, h.2.1]

/-- **A process on track** is reported at most once, and exactly once when it is settled. -/
lemma OnTrack.reports (h : p.OnTrack) :
    p.inlined + p.sent ≤ 1 ∧ (p.Settled → p.inlined + p.sent = 1) := by
  rcases h.stage with ⟨hu, hsettled⟩ | (⟨hu, hwatched, -⟩ | ⟨hu, ⟨exitCode, hsending⟩, -⟩ |
    ⟨-, -, hinlined, hsent⟩) | ⟨-, -, hinlined, hsent, -⟩
  · exact ⟨hu.count.trans_le (Nat.zero_le 1), fun hs => absurd hs hsettled⟩
  · refine ⟨hu.count.trans_le (Nat.zero_le 1), fun hsettled => ?_⟩
    exact absurd (hwatched.symm.trans hsettled.1) (by simp)
  · refine ⟨hu.count.trans_le (Nat.zero_le 1), fun hsettled => ?_⟩
    exact absurd (hsending.symm.trans hsettled.1) (by simp)
  · rw [hinlined, hsent]
    exact ⟨le_rfl, fun _ => rfl⟩
  · rw [hinlined, hsent]
    exact ⟨le_rfl, fun _ => rfl⟩

/-! ### The steps of the reaper -/

lemma Unreported.of_eq {q : ShellProcess} (h : p.Unreported) (hinlined : q.inlined = p.inlined)
    (hsent : q.sent = p.sent) (hrecorded : q.recorded = p.recorded) : q.Unreported :=
  ⟨hinlined.trans h.1, hsent.trans h.2.1, hrecorded.trans h.2.2⟩

lemma act_setState_of_not_waiting (h : p.reaper ≠ .waiting) : p.act .setState = p := by
  rw [act]
  split
  · rename_i hreaper _
    exact absurd hreaper h
  · rfl

/-- A reaper that will send a notice goes on to send it. -/
lemma Announced.setState (h : p.Announced) : (p.act .setState).Announced := by
  rcases h with ⟨hu, hreaper, e, hentry, hrun, hnotify⟩ | ⟨hu, ⟨exitCode, hsending⟩, hrun⟩ | h
  · cases hexit : p.exit with
    | none =>
      have heq : p.act .setState = p := by simp only [act, hreaper, hexit]
      rw [heq]
      exact .inl ⟨hu, hreaper, e, hentry, hrun, hnotify⟩
    | some exitCode =>
      have heq : p.act .setState =
          { p with entry := some (e.setState "exited" exitCode), reaper := .sending exitCode } := by
        simp [act, hreaper, hexit, hentry, ProcEntry.setState, hnotify]
      rw [heq]
      exact .inr (.inl ⟨hu.of_eq rfl rfl rfl, ⟨exitCode, rfl⟩, rfl⟩)
  · rw [act_setState_of_not_waiting (by simp [hsending])]
    exact .inr (.inl ⟨hu, ⟨exitCode, hsending⟩, hrun⟩)
  · rw [act_setState_of_not_waiting (by simp [h.1])]
    exact .inr (.inr h)

/-- A reaper that will send none is done. -/
lemma Silent.setState (h : p.Silent) : (p.act .setState).Silent := by
  obtain ⟨hu, ⟨hreaper, e, hentry, hrun, hnotify⟩ | hdone⟩ := h
  · cases hexit : p.exit with
    | none =>
      have heq : p.act .setState = p := by simp only [act, hreaper, hexit]
      rw [heq]
      exact ⟨hu, .inl ⟨hreaper, e, hentry, hrun, hnotify⟩⟩
    | some exitCode =>
      have heq : p.act .setState =
          { p with entry := some (e.setState "exited" exitCode), reaper := .done } := by
        simp [act, hreaper, hexit, hentry, ProcEntry.setState, hnotify]
      rw [heq]
      exact ⟨hu.of_eq rfl rfl rfl, .inr ⟨rfl, rfl⟩⟩
  · rw [act_setState_of_not_waiting (by simp [hdone.1])]
    exact ⟨hu, .inr hdone⟩

lemma act_send_of_not_sending {content : String} (h : ∀ exitCode, p.reaper ≠ .sending exitCode) :
    p.act (.send content) = p := by
  rw [act]
  split
  · rename_i exitCode hreaper
    exact absurd hreaper (h exitCode)
  · rfl

/-- The notice is sent once. -/
lemma Announced.send (h : p.Announced) (content : String) : (p.act (.send content)).Announced := by
  rcases h with ⟨hu, hwatched⟩ | ⟨hu, ⟨exitCode, hsending⟩, hrun⟩ | h
  · rw [act_send_of_not_sending (by simp [hwatched.1])]
    exact .inl ⟨hu, hwatched⟩
  · have heq : p.act (.send content) = { p with reaper := .done, sent := p.sent + 1 } := by
      simp only [act, hsending]
    rw [heq]
    exact .inr (.inr ⟨rfl, hrun, hu.1, by rw [hu.2.1]⟩)
  · rw [act_send_of_not_sending (by simp [h.1])]
    exact .inr (.inr h)

/-! ### The removal of an entry -/

lemma act_remove_of_running (h : p.isRunning = true) : p.act .remove = p := if_pos h

lemma act_remove_of_ended (h : p.isRunning = false) : p.act .remove = { p with entry := none } :=
  if_neg (by simp [h])

lemma Watched.running {notify : Bool} (h : p.Watched notify) : p.isRunning = true := by
  obtain ⟨-, e, hentry, hrun, -⟩ := h
  rw [isRunning_of_entry hentry, hrun]

lemma Silent.remove (h : p.Silent) : (p.act .remove).Silent := by
  obtain ⟨hu, hwatched | ⟨hdone, hrun⟩⟩ := h
  · rw [act_remove_of_running hwatched.running]
    exact ⟨hu, .inl hwatched⟩
  · rw [act_remove_of_ended hrun]
    exact ⟨hu.of_eq rfl rfl rfl, .inr ⟨hdone, rfl⟩⟩

lemma Announced.remove (h : p.Announced) : (p.act .remove).Announced := by
  rcases h with ⟨hu, hwatched⟩ | ⟨hu, hsending, hrun⟩ | ⟨hdone, hrun, hcounts⟩
  · rw [act_remove_of_running hwatched.running]
    exact .inl ⟨hu, hwatched⟩
  · rw [act_remove_of_ended hrun]
    exact .inr (.inl ⟨hu.of_eq rfl rfl rfl, hsending, rfl⟩)
  · rw [act_remove_of_ended hrun]
    exact .inr (.inr ⟨hdone, rfl, hcounts⟩)

/-! ### One step -/

/-- A step that leaves the call and the reports alone keeps a process on track when it keeps what
may be known of it. -/
lemma OnTrack.of_call {q : ShellProcess} (h : p.OnTrack) (hcall : q.call = p.call)
    (hbackground : q.background = p.background) (hfresh : p.Fresh → q.Fresh)
    (hsilent : p.Silent → q.Silent) (hdone : p.Silent → p.reaper = .done → q.reaper = .done)
    (hannounced : p.Announced → q.Announced) (hinlined : p.Inlined → q.Inlined) : q.OnTrack := by
  unfold OnTrack at h ⊢
  rw [hcall]
  cases hc : p.call with
  | inserted =>
    rw [hc] at h
    exact hfresh h
  | registered =>
    rw [hc] at h
    exact ⟨hfresh h.1, hbackground.trans h.2⟩
  | waiting =>
    rw [hc] at h
    exact hsilent h
  | timedOut =>
    rw [hc] at h
    exact hsilent h
  | armed found =>
    rw [hc] at h
    cases found with
    | true => exact hannounced h
    | false => exact ⟨hsilent h.1, hdone h.1 h.2⟩
  | returned =>
    rw [hc] at h
    exact h.imp hannounced hinlined
  | panicked =>
    rw [hc] at h
    exact h.elim

/-- A look at an entry that has ended returns the end. -/
lemma Silent.inline (h : p.Silent) (hended : p.isRunning = false) {e : ProcEntry}
    (he : e.isRunning = false) :
    ShellProcess.Inlined
      { p with entry := some e, call := .returned, inlined := p.inlined + 1 } :=
  ⟨h.done hended, he, by rw [h.1.1], h.1.2.1, h.1.2.2⟩

/-- **A turn of the loop.** -/
lemma OnTrack.snapshot (h : p.OnTrack) {atDeadline : Bool}
    (ha : p.KeepsReports (.snapshot atDeadline)) : (p.act (.snapshot atDeadline)).OnTrack := by
  by_cases hcall : p.call = .waiting
  · have hsilent : p.Silent := by
      unfold OnTrack at h
      rwa [hcall] at h
    cases hentry : p.entry with
    | none =>
      cases atDeadline with
      | true => exact absurd hentry (ha hcall)
      | false =>
        have heq : p.act (.snapshot false) = p := by simp [act, hentry]
        rwa [heq]
    | some e =>
      by_cases hrun : e.isRunning = true
      · cases atDeadline with
        | true =>
          have heq : p.act (.snapshot true) = { p with call := .timedOut } := by
            simp [act, hcall, hentry, hrun]
          rw [heq]
          exact ⟨hsilent.1.of_eq rfl rfl rfl, hsilent.2⟩
        | false =>
          have heq : p.act (.snapshot false) = p := by simp [act, hentry, hrun]
          rwa [heq]
      · have hended : e.isRunning = false := by simpa using hrun
        have heq : p.act (.snapshot atDeadline) =
            { p with entry := some e, call := .returned, inlined := p.inlined + 1 } := by
          simp [act, hcall, hentry, hended]
        rw [heq]
        exact .inr (hsilent.inline ((isRunning_of_entry hentry).trans hended) hended)
  · have heq : p.act (.snapshot atDeadline) = p := if_neg hcall
    rwa [heq]

/-- **Arming.** -/
lemma OnTrack.markNotifyOnExit (h : p.OnTrack) : (p.act .markNotifyOnExit).OnTrack := by
  by_cases hcall : p.call = .timedOut
  · have hsilent : p.Silent := by
      unfold OnTrack at h
      rwa [hcall] at h
    cases hentry : p.entry with
    | none =>
      have heq : p.act .markNotifyOnExit = { p with call := .armed false } := by
        simp [act, hcall, hentry]
      have hended : p.isRunning = false := by
        rw [isRunning, hentry]
        rfl
      rw [heq]
      exact ⟨⟨hsilent.1.of_eq rfl rfl rfl, hsilent.2⟩, hsilent.done hended⟩
    | some e =>
      by_cases hrun : e.isRunning = true
      · have heq : p.act .markNotifyOnExit =
            { p with entry := some e.markNotifyOnExit, call := .armed true } := by
          simp [act, hcall, hentry, hrun]
        rw [heq]
        rcases hsilent.2 with ⟨hreaper, e', hentry', -, hnotify⟩ | ⟨-, hended⟩
        · obtain rfl := Option.some.inj (hentry.symm.trans hentry')
          have hstate : e.state = "running" := of_decide_eq_true hrun
          refine .inl ⟨hsilent.1.of_eq rfl rfl rfl, hreaper, _, rfl, ?_, ?_⟩
          · rw [ProcEntry.isRunning_markNotifyOnExit, hrun]
          · rw [ProcEntry.markNotifyOnExit, if_pos ⟨hstate, hnotify⟩]
        · rw [isRunning_of_entry hentry, hrun] at hended
          cases hended
      · have hended : e.isRunning = false := by simpa using hrun
        have heq : p.act .markNotifyOnExit =
            { p with
              entry := some e.markNotifyOnExit, call := .returned, inlined := p.inlined + 1 } := by
          simp [act, hcall, hentry, hended]
        rw [heq]
        exact .inr (hsilent.inline ((isRunning_of_entry hentry).trans hended)
          (by rw [ProcEntry.isRunning_markNotifyOnExit, hended]))
  · have heq : p.act .markNotifyOnExit = p := if_neg hcall
    rwa [heq]

/-- **A step that keeps the reports** keeps a process on track. -/
lemma OnTrack.act (h : p.OnTrack) {a : ProcAction} (ha : p.KeepsReports a) : (p.act a).OnTrack := by
  cases a with
  | registerSpawned =>
    rw [ShellProcess.act]
    split_ifs with hcall
    · unfold OnTrack at h ⊢
      rw [hcall.1] at h
      exact ⟨h, hcall.2⟩
    · exact h
  | startReaper =>
    rw [ShellProcess.act]
    split_ifs with hregistered hinserted
    · unfold OnTrack at h
      rw [hregistered] at h
      obtain ⟨⟨-, hu, e, hentry, hrun, hnotify⟩, hbackground⟩ := h
      exact .inl (.inl ⟨hu.of_eq rfl rfl rfl, rfl, e, hentry, hrun, hnotify.trans hbackground⟩)
    · unfold OnTrack at h
      rw [hinserted.1] at h
      obtain ⟨-, hu, e, hentry, hrun, hnotify⟩ := h
      exact ⟨hu.of_eq rfl rfl rfl, .inl ⟨rfl, e, hentry, hrun, hnotify.trans hinserted.2⟩⟩
    · exact h
  | exit exitCode =>
    rw [ShellProcess.act]
    split_ifs
    · exact h.of_call rfl rfl id id (fun _ => id) id id
    · exact h
  | setState =>
    refine h.of_call ?_ ?_ (fun hf => ?_) Silent.setState (fun _ hdone => ?_) Announced.setState
      (fun hi => ?_)
    · rw [ShellProcess.act]
      split <;> rfl
    · rw [ShellProcess.act]
      split <;> rfl
    · rw [act_setState_of_not_waiting (by simp [hf.1])]
      exact hf
    · rw [act_setState_of_not_waiting (by simp [hdone])]
      exact hdone
    · rw [act_setState_of_not_waiting (by simp [hi.1])]
      exact hi
  | send content =>
    refine h.of_call ?_ ?_ (fun hf => ?_) (fun hs => ?_) (fun _ hdone => ?_)
      (fun ha => ha.send content) (fun hi => ?_)
    · rw [ShellProcess.act]
      split <;> rfl
    · rw [ShellProcess.act]
      split <;> rfl
    · rw [act_send_of_not_sending (by simp [hf.1])]
      exact hf
    · rw [act_send_of_not_sending fun exitCode hsending => ?_]
      · exact hs
      · rcases hs.2 with hwatched | hdone
        · exact absurd (hwatched.1.symm.trans hsending) (by simp)
        · exact absurd (hdone.1.symm.trans hsending) (by simp)
    · rw [act_send_of_not_sending (by simp [hdone])]
      exact hdone
    · rw [act_send_of_not_sending (by simp [hi.1])]
      exact hi
  | snapshot atDeadline => exact h.snapshot ha
  | markNotifyOnExit => exact h.markNotifyOnExit
  | register =>
    rw [ShellProcess.act]
    split
    · rename_i found hcall
      unfold OnTrack at h
      rw [hcall] at h
      cases found with
      | true => exact .inl h
      | false => exact absurd hcall ha.1
    · exact h
  | kill => exact h
  | remove =>
    refine h.of_call ?_ ?_ (fun hf => ?_) Silent.remove (fun _ hdone => ?_) Announced.remove
      (fun hi => ?_)
    · rw [ShellProcess.act]
      split_ifs <;> rfl
    · rw [ShellProcess.act]
      split_ifs <;> rfl
    · have hrun : p.isRunning = true := by
        obtain ⟨-, -, e, hentry, hrun, -⟩ := hf
        rw [isRunning_of_entry hentry, hrun]
      rw [act_remove_of_running hrun]
      exact hf
    · rw [ShellProcess.act]
      split_ifs
      · exact hdone
      · exact hdone
    · rw [act_remove_of_ended hi.2.1]
      exact ⟨hi.1, rfl, hi.2.2⟩

/-! ### What a step leaves alone -/

@[simp] lemma sessionId_act (a : ProcAction) : (p.act a).sessionId = p.sessionId := by
  cases a <;> simp only [ShellProcess.act] <;> (repeat' split) <;> rfl

@[simp] lemma recorded_act (a : ProcAction) : (p.act a).recorded = p.recorded := by
  cases a <;> simp only [ShellProcess.act] <;> (repeat' split) <;> rfl

/-- What a step sends is counted. -/
lemma sent_act (id : String) (a : ProcAction) :
    (p.act a).sent = p.sent + (p.sends id a).toList.length := by
  cases a with
  | send content =>
    simp only [ShellProcess.act, sends]
    split <;> rfl
  | _ =>
    simp only [ShellProcess.act, sends]
    (repeat' split) <;> rfl

/-- While a notice is due, nothing has been reported. -/
lemma OnTrack.unreported_of_sending (h : p.OnTrack) {exitCode : Option Int}
    (hreaper : p.reaper = .sending exitCode) : p.Unreported := by
  rcases h.stage with ⟨hu, -⟩ | (⟨hu, -⟩ | ⟨hu, -⟩ | ⟨hdone, -⟩) | ⟨hdone, -⟩
  · exact hu
  · exact hu
  · exact hu
  · exact absurd (hdone.symm.trans hreaper) (by simp)
  · exact absurd (hdone.symm.trans hreaper) (by simp)

/-- What a step sends is the first notice of the process. -/
lemma OnTrack.sends (h : p.OnTrack) {id : String} {a : ProcAction} {sc : ShellCompletion}
    (hsc : sc ∈ p.sends id a) : sc.processId = id ∧ sc.sessionId = p.sessionId ∧ p.sent = 0 := by
  cases a with
  | send content =>
    simp only [ShellProcess.sends] at hsc
    split at hsc
    · rename_i exitCode hreaper
      obtain rfl := Option.some.inj hsc
      exact ⟨rfl, rfl, (h.unreported_of_sending hreaper).2.1⟩
    · cases hsc
  | _ => cases hsc

/-- A registration that keeps the reports comes before the recording. -/
lemma OnTrack.registers (h : p.OnTrack) {a : ProcAction} (ha : p.KeepsReports a)
    (hreg : p.registers a = true) : p.recorded = false := by
  cases a with
  | registerSpawned =>
    rw [ShellProcess.registers, Bool.and_eq_true, decide_eq_true_eq] at hreg
    unfold OnTrack at h
    rw [hreg.1] at h
    exact h.2.1.2.2
  | register =>
    rw [ShellProcess.registers, Bool.or_eq_true, decide_eq_true_eq, decide_eq_true_eq] at hreg
    exact ha.2 (hreg.resolve_right ha.1)
  | _ => cases hreg

/-- A process whose notice was sent stays on track when the notice is recorded. -/
lemma OnTrack.record (h : p.OnTrack) (hsent : p.sent = 1) :
    OnTrack { p with recorded := true } := by
  have hno : ¬ p.Unreported := fun hu => by
    rw [hu.2.1] at hsent
    cases hsent
  have hannounced : p.Announced → Announced { p with recorded := true } := by
    rintro (⟨hu, -⟩ | ⟨hu, -⟩ | hdone)
    · exact absurd hu hno
    · exact absurd hu hno
    · exact .inr (.inr hdone)
  refine h.of_call rfl rfl (fun hf => absurd hf.2.1 hno) (fun hs => absurd hs.1 hno)
    (fun _ hdone => hdone) hannounced fun hi => ?_
  rw [hi.2.2.2.1] at hsent
  cases hsent

end ShellProcess

/-! ## The pending lists -/

section

variable {t : Option TurnSuspension} {id other : String}

lemma mem_pendingOf_armPending :
    other ∈ pendingOf (some (armPending t id)) ↔ other = id ∨ other ∈ pendingOf t := by
  cases t with
  | none => simp [pendingOf, armPending]
  | some t =>
    simp only [pendingOf, armPending, TurnSuspension.addPending, Option.map_some, Option.getD_some]
    split_ifs with hmem
    · exact ⟨.inr, fun h => h.elim (fun heq => heq ▸ hmem) fun h => h⟩
    · simp [or_comm]

/-- `record_terminal` leaves its task out of `pending` and adds none. -/
lemma pendingOf_recordTerminal (t : Option TurnSuspension) (recent : List (String × Nat)) (id : String)
    (status : SubStatus) (content : String) (count now : Nat) :
    id ∉ pendingOf (recordTerminal t recent id status content count now).1 ∧
      ∀ other ∈ pendingOf (recordTerminal t recent id status content count now).1,
        other ∈ pendingOf t := by
  by_cases hmem : id ∈ pendingOf t
  · cases t with
    | none => exact absurd hmem List.not_mem_nil
    | some t =>
      have hmem' : id ∈ t.pending := hmem
      rw [recordTerminal_of_pending hmem']
      simp only [pendingOf, TurnSuspension.collect, Option.map_some, Option.getD_some,
        List.mem_filter]
      exact ⟨fun h => of_decide_eq_true h.2 rfl, fun other h => h.1⟩
  · unfold recordTerminal
    dsimp only
    cases t with
    | none => split_ifs <;> exact ⟨hmem, fun _ h => h⟩
    | some t =>
      have hcollect : ∀ count, id ∉ pendingOf (some (t.collect id status content count)) ∧
          ∀ other ∈ pendingOf (some (t.collect id status content count)),
            other ∈ pendingOf (some t) := by
        intro count
        simp only [pendingOf, TurnSuspension.collect, Option.map_some, Option.getD_some,
          List.mem_filter]
        exact ⟨fun h => of_decide_eq_true h.2 rfl, fun other h => h.1⟩
      split_ifs
      · exact ⟨hmem, fun _ h => h⟩
      · dsimp only
        split_ifs
        · exact ⟨hmem, fun _ h => h⟩
        · exact hcollect count
      · exact ⟨hmem, fun _ h => h⟩
      · dsimp only
        split_ifs
        · exact ⟨hmem, fun _ h => h⟩
        · exact hcollect count

end

/-! ## The invariant of a good run -/

/-- What holds in every state of a good run. -/
structure ReportsInv (s : ShellState) : Prop where
  onTrack : ∀ id p, s.procs id = some p → p.OnTrack
  recorded : ∀ id p, s.procs id = some p → p.recorded = true →
    id ∉ pendingOf (s.suspensions p.sessionId)
  notices : ∀ sc ∈ s.notices, ∃ p, s.procs sc.processId = some p ∧
    p.sessionId = sc.sessionId ∧ p.sent = 1

section

variable {s : ShellState}

/-- A state of a good run reports once. -/
lemma ReportsInv.reportsOnce (h : ReportsInv s) : ReportsOnce s := fun id p hp =>
  ⟨(h.onTrack id p hp).reports.1, (h.onTrack id p hp).reports.2, h.recorded id p hp⟩

/-- **A spawn.** -/
lemma reportsInv_spawn (h : ReportsInv s) (id sessionId outputPath : String) (spawnedAtMs : Int)
    (background : Bool) :
    ReportsInv (shellStep s (.spawn id sessionId outputPath spawnedAtMs background)) := by
  rw [shellStep]
  cases hid : s.procs id with
  | some p => exact h
  | none =>
    dsimp only
    refine ⟨fun other p hp => ?_, fun other p hp hrec => ?_, fun sc hsc => ?_⟩
    · dsimp only at hp
      by_cases hother : other = id
      · subst hother
        rw [Function.update_self] at hp
        obtain rfl := Option.some.inj hp
        exact ⟨rfl, ⟨rfl, rfl, rfl⟩, _, rfl, rfl, rfl⟩
      · rw [Function.update_of_ne hother] at hp
        exact h.onTrack other p hp
    · dsimp only at hp
      by_cases hother : other = id
      · subst hother
        rw [Function.update_self] at hp
        obtain rfl := Option.some.inj hp
        cases hrec
      · rw [Function.update_of_ne hother] at hp
        exact h.recorded other p hp hrec
    · obtain ⟨p, hp, hrest⟩ := h.notices sc hsc
      have hne : sc.processId ≠ id := by
        intro heq
        rw [heq, hid] at hp
        cases hp
      exact ⟨p, (Function.update_of_ne hne ..).trans hp, hrest⟩

/-- **A step around one process.** -/
lemma reportsInv_step (h : ReportsInv s) {id : String} {a : ProcAction}
    (ha : KeepsReports s (.step id a)) : ReportsInv (shellStep s (.step id a)) := by
  rw [shellStep]
  cases hid : s.procs id with
  | none => exact h
  | some p =>
    have htrack := h.onTrack id p hid
    have hkeeps : p.KeepsReports a := ha p hid
    dsimp only
    refine ⟨fun other q hq => ?_, fun other q hq hrec => ?_, fun sc hsc => ?_⟩
    · dsimp only at hq
      by_cases hother : other = id
      · subst hother
        rw [Function.update_self] at hq
        obtain rfl := Option.some.inj hq
        exact htrack.act hkeeps
      · rw [Function.update_of_ne hother] at hq
        exact h.onTrack other q hq
    · dsimp only at hq
      by_cases hother : other = id
      · subst hother
        rw [Function.update_self] at hq
        obtain rfl := Option.some.inj hq
        rw [ShellProcess.recorded_act] at hrec
        have hreg : p.registers a = false := by
          by_contra hreg
          have hno := htrack.registers hkeeps (by simpa using hreg)
          rw [hrec] at hno
          cases hno
        rw [hreg, if_neg Bool.false_ne_true, ShellProcess.sessionId_act]
        exact h.recorded other p hid hrec
      · rw [Function.update_of_ne hother] at hq
        have hold := h.recorded other q hq hrec
        dsimp only
        split_ifs
        · by_cases hsession : q.sessionId = p.sessionId
          · rw [hsession, Function.update_self, mem_pendingOf_armPending, ← hsession]
            exact not_or.2 ⟨hother, hold⟩
          · rw [Function.update_of_ne hsession]
            exact hold
        · exact hold
    · rcases List.mem_append.1 hsc with hsc | hsc
      · obtain ⟨q, hq, hsession, hsent⟩ := h.notices sc hsc
        by_cases hother : sc.processId = id
        · rw [hother, hid] at hq
          obtain rfl := Option.some.inj hq
          refine ⟨p.act a, by dsimp only; rw [hother, Function.update_self], ?_, ?_⟩
          · rw [ShellProcess.sessionId_act, hsession]
          · have hnone : p.sends id a = none := by
              cases hsends : p.sends id a with
              | none => rfl
              | some sc' =>
                have hzero := (htrack.sends hsends).2.2
                rw [hzero] at hsent
                cases hsent
            rw [ShellProcess.sent_act id a, hnone, hsent]
            rfl
        · exact ⟨q, (Function.update_of_ne hother ..).trans hq, hsession, hsent⟩
      · rw [Option.mem_toList] at hsc
        obtain ⟨hsame, hsession, hzero⟩ := htrack.sends hsc
        refine ⟨p.act a, by dsimp only; rw [hsame, Function.update_self], ?_, ?_⟩
        · rw [ShellProcess.sessionId_act, hsession]
        · rw [ShellProcess.sent_act id a, Option.mem_def.1 hsc, hzero]
          rfl

/-- **A recording.** -/
lemma reportsInv_record (h : ReportsInv s) (now : Nat) : ReportsInv (shellStep s (.record now)) := by
  rw [shellStep]
  cases hnotices : s.notices with
  | nil => exact h
  | cons sc rest =>
    obtain ⟨p, hp, hsession, hsent⟩ := h.notices sc (by rw [hnotices]; exact List.mem_cons_self)
    have hpending := pendingOf_recordTerminal (s.suspensions sc.sessionId)
      (s.recentlyRecordedTerminals sc.sessionId) sc.processId (statusOfExitCode sc.exitCode)
      sc.content 0 now
    dsimp only
    rw [hp, Option.map_some]
    refine ⟨fun other q hq => ?_, fun other q hq hrec => ?_, fun sc' hsc' => ?_⟩
    · dsimp only at hq
      by_cases hother : other = sc.processId
      · subst hother
        rw [Function.update_self] at hq
        obtain rfl := Option.some.inj hq
        exact (h.onTrack _ p hp).record hsent
      · rw [Function.update_of_ne hother] at hq
        exact h.onTrack other q hq
    · dsimp only at hq
      by_cases hother : other = sc.processId
      · subst hother
        rw [Function.update_self] at hq
        obtain rfl := Option.some.inj hq
        dsimp only
        rw [hsession, Function.update_self]
        exact hpending.1
      · rw [Function.update_of_ne hother] at hq
        have hold := h.recorded other q hq hrec
        dsimp only
        by_cases hsame : q.sessionId = sc.sessionId
        · rw [hsame, Function.update_self]
          rw [hsame] at hold
          exact fun hmem => hold (hpending.2 other hmem)
        · rw [Function.update_of_ne hsame]
          exact hold
    · obtain ⟨q, hq, hrest⟩ := h.notices sc' (by rw [hnotices]; exact .tail _ hsc')
      by_cases hother : sc'.processId = sc.processId
      · rw [hother, hp] at hq
        obtain rfl := Option.some.inj hq
        exact ⟨{ p with recorded := true }, by dsimp only; rw [hother, Function.update_self], hrest⟩
      · exact ⟨q, (Function.update_of_ne hother ..).trans hq, hrest⟩

/-- **One event** that keeps the reports keeps the invariant. -/
lemma ReportsInv.step (h : ReportsInv s) {e : ShellEvent} (he : KeepsReports s e) :
    ReportsInv (shellStep s e) := by
  cases e with
  | spawn id sessionId outputPath spawnedAtMs background =>
    exact reportsInv_spawn h id sessionId outputPath spawnedAtMs background
  | step id a => exact reportsInv_step h he
  | record now => exact reportsInv_record h now

/-- **A step that does not keep the reports** leaves a process without a report, or pending after
its recording. -/
lemma ReportsInv.keepsReports (h : ReportsInv s) {e : ShellEvent}
    (hnext : ReportsOnce (shellStep s e)) : KeepsReports s e := by
  cases e with
  | spawn id sessionId outputPath spawnedAtMs background => trivial
  | record now => trivial
  | step id a =>
    intro p hp
    have htrack := h.onTrack id p hp
    have hstep : (shellStep s (.step id a)).procs id = some (p.act a) := by
      rw [shellStep, hp]
      exact Function.update_self ..
    obtain ⟨-, hsettled, hrecorded⟩ := hnext id _ hstep
    cases a with
    | snapshot atDeadline =>
      cases atDeadline with
      | false => trivial
      | true =>
        intro hcall hentry
        have heq : p.act (.snapshot true) = { p with call := .panicked } := by
          simp [ShellProcess.act, hcall, hentry]
        have hsilent : p.Silent := by
          unfold ShellProcess.OnTrack at htrack
          rwa [hcall] at htrack
        have hended : p.isRunning = false := by
          rw [ShellProcess.isRunning, hentry]
          rfl
        rw [heq] at hsettled
        have hone := hsettled ⟨hsilent.done hended, .inr rfl⟩
        dsimp only at hone
        rw [hsilent.1.1, hsilent.1.2.1] at hone
        cases hone
    | register =>
      refine ⟨fun hcall => ?_, fun hcall => ?_⟩
      · have heq : p.act .register = { p with call := .returned } := by
          simp [ShellProcess.act, hcall]
        unfold ShellProcess.OnTrack at htrack
        rw [hcall] at htrack
        rw [heq] at hsettled
        have hone := hsettled ⟨htrack.2, .inl rfl⟩
        dsimp only at hone
        rw [htrack.1.1.1, htrack.1.1.2.1] at hone
        cases hone
      · by_contra hrec
        rw [ShellProcess.recorded_act, ShellProcess.sessionId_act] at hrecorded
        refine hrecorded (by simpa using hrec) ?_
        have hregisters : p.registers .register = true := by simp [ShellProcess.registers, hcall]
        have hsusp : (shellStep s (.step id .register)).suspensions p.sessionId =
            some (armPending (s.suspensions p.sessionId) id) := by
          rw [shellStep, hp]
          dsimp only
          rw [if_pos hregisters, Function.update_self]
        rw [hsusp, mem_pendingOf_armPending]
        exact .inl rfl
    | _ => trivial

end

/-! ## Runs -/

/-- No process has been spawned. -/
lemma reportsInv_start : ReportsInv {} where
  onTrack := by rintro id p ⟨⟩
  recorded := by rintro id p ⟨⟩
  notices := by rintro sc ⟨⟩

/-- **The end of each process is reported once**, and no process stays pending after its notice has
been recorded, in every state of a run, exactly when every step of the run keeps the reports. -/
theorem reportsOnce_iff (es : List ShellEvent) :
    Run.Always shellStep ReportsOnce {} es ↔ Run.EachStep shellStep KeepsReports {} es :=
  Run.always_iff_eachStep_of_good (Q := ReportsInv) (fun _ h => h.reportsOnce)
    (fun _ _ h hnext => h.keepsReports hnext) (fun _ _ h he => h.step he) reportsInv_start

/-! ## A process that ends between arming and registration -/

/-- The process is armed at its deadline, ends, and its notice is recorded before `execute` registers
it. -/
def lateRegister : List ShellEvent :=
  [.spawn "sh_1" "s" "sh_1.out" 0 false, .step "sh_1" .startReaper,
    .step "sh_1" (.snapshot true), .step "sh_1" .markNotifyOnExit, .step "sh_1" (.exit (some 0)),
    .step "sh_1" .setState, .step "sh_1" (.send "done"), .record 0, .step "sh_1" .register]

/-- **The process stays pending** after its notice has been recorded. -/
theorem not_reportsOnce_lateRegister : ¬ Run.Always shellStep ReportsOnce {} lateRegister := by
  intro h
  obtain ⟨p, hp, hrecorded, hpending⟩ : ∃ p, (Run.exec shellStep {} lateRegister).procs "sh_1" =
      some p ∧ p.recorded = true ∧
      "sh_1" ∈ pendingOf ((Run.exec shellStep {} lateRegister).suspensions p.sessionId) :=
    ⟨_, rfl, by decide, by decide⟩
  exact (h.last "sh_1" p hp).2.2 hrecorded hpending

end MyClaw
