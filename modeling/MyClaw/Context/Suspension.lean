import MyClaw.Lib.Run

set_option autoImplicit false

/-!
# The suspension of a turn

A turn that has spawned background work is suspended (`agents/turn.rs`,
`agents/session_context/mod.rs`): `add_pending_task` registers a task, `record_terminal` moves it to
the results when it has ended, and `clear_suspension_if_collected` drops the suspension when nothing
is pending any more.  A window of recently recorded ids outlives the suspension.

`record_terminal` takes two locks one after the other, so a call of it is four sections: it looks
whether the id is pending, it looks into the window, it collects the result, and it notes the id in
the window.  The calls that are between two sections are a pool, and every section is an event.

## Main definitions

* `TurnSuspension`, `TerminalRecord` — the data of the source.
* `TerminalCall` — a call of `record_terminal` between two sections.
* `SuspensionEvent`, `suspensionStep` — the machine.
* `recordTerminal` — a call of `record_terminal` that nothing interrupts.

## Main results

* `recordTerminal_of_pending` — a pending task is always recorded.
-/

namespace MyClaw

/-- How a sub-agent ended. -/
inductive SubStatus
  | completed
  | failed
  | timedOut
  deriving DecidableEq

/-- One collected outcome. -/
structure SubResult where
  subSessionId : String
  status : SubStatus
  content : String
  sentMessageCount : Nat
  progress : List String
  deriving DecidableEq

/-- A turn that waits for background work. -/
structure TurnSuspension where
  pending : List String
  results : List SubResult := []
  /-- The progress reports of running tasks, with one entry for each task. -/
  progressBySubSession : List (String × List String) := []
  deriving DecidableEq

/-- What `record_terminal` returns. -/
inductive TerminalRecord
  | recorded (snapshot : TurnSuspension)
  | duplicate
  | noSuspension
  deriving DecidableEq

/-- `RECENTLY_RECORDED_TERMINAL_WINDOW`, in seconds. -/
def recentlyRecordedTerminalWindow : Nat := 3600

namespace TurnSuspension

/-- `add_pending`. -/
def addPending (s : TurnSuspension) (subSessionId : String) : TurnSuspension :=
  if subSessionId ∈ s.pending then s else { s with pending := s.pending ++ [subSessionId] }

/-- A progress report goes to the entry of its task. -/
def addProgress (s : TurnSuspension) (subSessionId text : String) : TurnSuspension :=
  { s with progressBySubSession :=
      s.progressBySubSession.filter (·.1 ≠ subSessionId) ++
        [(subSessionId, (s.progressBySubSession.lookup subSessionId).getD [] ++ [text])] }

/-- The task leaves `pending`, and its result takes its progress reports along. -/
def collect (s : TurnSuspension) (subSessionId : String) (status : SubStatus) (content : String)
    (sentMessageCount : Nat) : TurnSuspension :=
  { pending := s.pending.filter (· ≠ subSessionId)
    results := s.results ++
      [{ subSessionId := subSessionId, status := status, content := content
         sentMessageCount := sentMessageCount
         progress := (s.progressBySubSession.lookup subSessionId).getD [] }]
    progressBySubSession := s.progressBySubSession.filter (·.1 ≠ subSessionId) }

/-- The task was collected and is not pending again. -/
def isCollected (s : TurnSuspension) (subSessionId : String) : Bool :=
  !s.pending.contains subSessionId && s.results.any (·.subSessionId = subSessionId)

end TurnSuspension

/-! ## Calls of `record_terminal` -/

/-- Where a call stands. -/
inductive CallStage
  /-- It has looked whether the id is pending. -/
  | looked (currentlyPending : Bool)
  /-- It has passed or skipped the window. -/
  | passed
  /-- It has collected the result, and the id is not in the window yet. -/
  | collected (snapshot : TurnSuspension)
  deriving DecidableEq

/-- A call between two sections. -/
structure TerminalCall where
  subSessionId : String
  status : SubStatus
  content : String
  sentMessageCount : Nat
  stage : CallStage
  deriving DecidableEq

/-- What registrations and returns have happened. -/
inductive LogEntry
  | registered (subSessionId : String)
  | returned (subSessionId : String) (record : TerminalRecord)
  deriving DecidableEq

/-- The suspension with the window, the calls that have not returned, and the log, newest entry
first. -/
structure SuspensionState where
  turnSuspension : Option TurnSuspension := none
  recentlyRecordedTerminals : List (String × Nat) := []
  calls : List TerminalCall := []
  log : List LogEntry := []

/-- What happens to the suspension. -/
inductive SuspensionEvent
  /-- `add_pending_task`. -/
  | addPendingTask (subSessionId : String)
  /-- `add_progress`. -/
  | addProgress (subSessionId text : String)
  /-- A call of `record_terminal` begins: it looks whether the id is pending. -/
  | look (subSessionId : String) (status : SubStatus) (content : String) (sentMessageCount : Nat)
  /-- A call prunes the window and looks into it, unless the id was pending. -/
  | checkWindow (call : TerminalCall) (now : Nat)
  /-- A call collects the result. -/
  | collect (call : TerminalCall)
  /-- A call notes the id in the window and returns. -/
  | note (call : TerminalCall) (now : Nat)
  /-- `clear_suspension_if_collected`, with what `has_notice_turns_in_flight` says. -/
  | clear (noticeTurnsInFlight : Bool)

namespace SuspensionState

/-- The call is one section further. -/
def advance (s : SuspensionState) (call : TerminalCall) (stage : CallStage) : SuspensionState :=
  { s with calls := { call with stage := stage } :: s.calls.erase call }

/-- The call returns. -/
def finish (s : SuspensionState) (call : TerminalCall) (record : TerminalRecord) :
    SuspensionState :=
  { s with
    calls := s.calls.erase call
    log := .returned call.subSessionId record :: s.log }

/-- `add_pending_task`. -/
def addPendingTask (s : SuspensionState) (subSessionId : String) : SuspensionState :=
  { s with
    turnSuspension := some
      (match s.turnSuspension with
        | some t => t.addPending subSessionId
        | none => { pending := [subSessionId] })
    log := .registered subSessionId :: s.log }

/-- The id is pending. -/
def isPending (s : SuspensionState) (subSessionId : String) : Bool :=
  s.turnSuspension.any fun t => t.pending.contains subSessionId

/-- The section on the window. -/
def checkWindow (s : SuspensionState) (call : TerminalCall) (now : Nat) : SuspensionState :=
  match call.stage with
  | .looked true => s.advance call .passed
  | .looked false =>
    let recent := s.recentlyRecordedTerminals.filter fun entry =>
      now - entry.2 ≤ recentlyRecordedTerminalWindow
    let s := { s with recentlyRecordedTerminals := recent }
    if recent.any (·.1 = call.subSessionId) then s.finish call .duplicate
    else s.advance call .passed
  | _ => s

/-- The section that collects the result. -/
def collect (s : SuspensionState) (call : TerminalCall) : SuspensionState :=
  match call.stage, s.turnSuspension with
  | .passed, none => s.finish call .noSuspension
  | .passed, some t =>
    if t.isCollected call.subSessionId then s.finish call .duplicate
    else
      let t := t.collect call.subSessionId call.status call.content call.sentMessageCount
      { s with turnSuspension := some t }.advance call (.collected t)
  | _, _ => s

/-- The section that notes the id. -/
def note (s : SuspensionState) (call : TerminalCall) (now : Nat) : SuspensionState :=
  match call.stage with
  | .collected snapshot =>
    { s with
      recentlyRecordedTerminals :=
        s.recentlyRecordedTerminals ++ [(call.subSessionId, now)] }.finish call (.recorded snapshot)
  | _ => s

/-- `clear_suspension_if_collected` drops the suspension. -/
def clears (s : SuspensionState) (noticeTurnsInFlight : Bool) : Bool :=
  s.turnSuspension.any fun t => t.pending.isEmpty && !noticeTurnsInFlight

end SuspensionState

/-- The state after an event; a section of a call that is not in the pool, or not at that section,
changes nothing. -/
def suspensionStep (s : SuspensionState) : SuspensionEvent → SuspensionState
  | .addPendingTask subSessionId => s.addPendingTask subSessionId
  | .addProgress subSessionId text =>
    { s with turnSuspension := s.turnSuspension.map (·.addProgress subSessionId text) }
  | .look subSessionId status content sentMessageCount =>
    { s with calls :=
      { subSessionId := subSessionId, status := status, content := content
        sentMessageCount := sentMessageCount
        stage := .looked (s.isPending subSessionId) } :: s.calls }
  | .checkWindow call now => if call ∈ s.calls then s.checkWindow call now else s
  | .collect call => if call ∈ s.calls then s.collect call else s
  | .note call now => if call ∈ s.calls then s.note call now else s
  | .clear noticeTurnsInFlight =>
    if s.clears noticeTurnsInFlight then { s with turnSuspension := none } else s

/-! ## A call that nothing interrupts -/

/-- `record_terminal` without an interruption: the suspension, the window and the answer. -/
def recordTerminal (turnSuspension : Option TurnSuspension) (recent : List (String × Nat))
    (subSessionId : String) (status : SubStatus) (content : String) (sentMessageCount now : Nat) :
    Option TurnSuspension × List (String × Nat) × TerminalRecord :=
  let currentlyPending := turnSuspension.any fun t => t.pending.contains subSessionId
  let recent :=
    if currentlyPending then recent
    else recent.filter fun entry => now - entry.2 ≤ recentlyRecordedTerminalWindow
  if !currentlyPending && recent.any (·.1 = subSessionId) then
    (turnSuspension, recent, .duplicate)
  else
    match turnSuspension with
    | none => (none, recent, .noSuspension)
    | some t =>
      if t.isCollected subSessionId then (some t, recent, .duplicate)
      else
        let t := t.collect subSessionId status content sentMessageCount
        (some t, recent ++ [(subSessionId, now)], .recorded t)

section

variable {t : TurnSuspension} {recent : List (String × Nat)} {subSessionId content : String}
  {status : SubStatus} {sentMessageCount now : Nat}

/-- **A pending task is always recorded.** -/
lemma recordTerminal_of_pending (hmem : subSessionId ∈ t.pending) :
    recordTerminal (some t) recent subSessionId status content sentMessageCount now =
      (some (t.collect subSessionId status content sentMessageCount),
        recent ++ [(subSessionId, now)],
        .recorded (t.collect subSessionId status content sentMessageCount)) := by
  have hpending : t.pending.contains subSessionId = true := by simpa using hmem
  have hcollected : t.isCollected subSessionId = false := by
    rw [TurnSuspension.isCollected, hpending]
    rfl
  unfold recordTerminal
  simp only [Option.any_some, hpending, hcollected, Bool.not_true, Bool.false_and, if_true,
    Bool.false_eq_true, if_false]

/-- The other tasks stay pending. -/
lemma pending_recordTerminal {other : String} (hne : other ≠ subSessionId)
    (hmem : other ∈ t.pending) :
    ∃ u, (recordTerminal (some t) recent subSessionId status content sentMessageCount now).1 =
      some u ∧ other ∈ u.pending := by
  unfold recordTerminal
  dsimp only
  split_ifs
  · exact ⟨t, rfl, hmem⟩
  · exact ⟨t, rfl, hmem⟩
  · exact ⟨_, rfl, by simpa [TurnSuspension.collect] using ⟨hmem, hne⟩⟩
  · exact ⟨t, rfl, hmem⟩
  · exact ⟨t, rfl, hmem⟩
  · exact ⟨_, rfl, by simpa [TurnSuspension.collect] using ⟨hmem, hne⟩⟩

end

end MyClaw
