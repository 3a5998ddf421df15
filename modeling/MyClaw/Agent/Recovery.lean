import MyClaw.Agent.SessionRun
import MyClaw.Session.AbortTail
import MyClaw.Shell.ProcEntry

set_option autoImplicit false

/-!
# Recovery of an interrupted turn

`Agent::run_recovery` (`agents/agent/run_recovery.rs`) looks at the tail of a history after a
restart.  Calls of the last assistant message without a result get one that says what is known
about them, and the model loop goes on from there.  A call is never executed again.  The only open
call of a session may be its deferred `sessions_yield`, which is waited for instead.

## Main definitions

* `runRecovery` — the function up to the point where it hands the session on.
* `LastRound` — an assistant message at the end of a history with tool results behind it.
* `RecoveryCloses` — every open round is closed, and a complete history is left alone.

## Main results

* `runRecovery_closes` — a complete history is left alone, and an open round is closed unless
  its only open call is the deferred yield of the session.
* `live_runRecovery` — what a recovery does to the session is the recovery event of the
  agent's machine.
* `not_recoveryCloses_yield` — a deferred yield without a session context.

## Implementation notes

The model ends where `run_inner` or `park_for_yield` takes the session over; the outcome says which
of them does.  The files of the session beside its history are the exec marker and the entries of
the process table; there are none without a sessions directory.
-/

namespace MyClaw

/-! ## The function -/

/-- What the walk from the end of the history collects. -/
structure RecoveryScan where
  pendingCalls : List ToolCall
  hasTrailingToolResults : Bool
  lastIsUser : Bool

/-- The walk of `run_recovery` from the last message backwards. -/
def recoveryScan (completed : List String) (trailing : Bool) : List ChatMessage → RecoveryScan
  | [] => ⟨[], trailing, false⟩
  | msg :: rest =>
    if msg.role = "tool" then recoveryScan (msg.toolCallId.toList ++ completed) true rest
    else if msg.role = "assistant" then
      ⟨msg.calls.filter fun call => !completed.contains call.id, trailing, false⟩
    else ⟨[], trailing, decide (msg.role = "user")⟩

/-- The files of a session that a recovery reads beside the history. -/
structure ProcDir where
  /-- `.exec_marker`: the id of the call that was being executed. -/
  marker : Option String
  /-- The entries in `.shell_procs`. -/
  entries : List ProcEntry

/-- A session with its files. -/
structure RecoverySite where
  live : Live
  procDir : Option ProcDir

/-- What the caller gets, or who takes the session over. -/
inductive RecoveryOutcome
  /-- `Ok(None)`. -/
  | nothing
  /-- `park_for_yield` waits for an event for this call. -/
  | park (toolCallId : String)
  /-- `run_inner` drives the model loop. -/
  | resume
  deriving DecidableEq

/-- `exec_marker_read`. -/
def execMarkerRead (d : Option ProcDir) : Option String := d.bind (·.marker)

/-- `exec_marker_clear`. -/
def execMarkerClear (d : Option ProcDir) : Option ProcDir := d.map ({ · with marker := none })

/-- `interrupted_restart_cause`. -/
def interruptedRestartCause (isHotSwitch : Bool) : String :=
  if isHotSwitch then "a deployment hot-switch restart" else "a daemon crash/restart"

/-- The text of the result that closes a call, and its error flag. -/
def recoveryResult (isHotSwitch : Bool) (d : Option ProcDir) (call : ToolCall) : String × Bool :=
  let matched := execMarkerRead d = some call.id
  let shellDetail :=
    if matched ∧ call.name = "shell" then d.bind fun dir => latestEntrySummary dir.entries else none
  match shellDetail with
  | some (detail, isError) => ("[recovery] " ++ detail, isError)
  | none =>
    ("[recovery] This tool call was in flight during " ++ interruptedRestartCause isHotSwitch ++
      " — its " ++
      "completion status is unknown and it will not be " ++
      "automatically re-executed, since re-running it could " ++
      "duplicate side effects it may have already produced. Check " ++
      "the actual state (e.g. the relevant files, git log, or logs) " ++
      "before deciding whether to retry.", true)

/-- The only open call is the deferred `sessions_yield` of the session. -/
def AwaitsYield (session : Session) (pendingCalls : List ToolCall) : Prop :=
  ∃ call, pendingCalls = [call] ∧ call.name = "sessions_yield" ∧
    ∃ p ∈ session.pendingYield, p.toolCallId = call.id

/-- Case A: results for the open calls; a marker that names one of them is cleared. -/
def closeInterrupted (J : Serde) (isHotSwitch : Bool) (s : RecoverySite)
    (pendingCalls : List ToolCall) : RecoverySite where
  live := pendingCalls.foldl (fun live call =>
    live.persistResult J call.id call.name (recoveryResult isHotSwitch s.procDir call).1
      (recoveryResult isHotSwitch s.procDir call).2) s.live
  procDir :=
    if pendingCalls.any fun call => execMarkerRead s.procDir = some call.id then
      execMarkerClear s.procDir
    else s.procDir

/-- `run_recovery`; `hasContext` says whether the turn has a live session context to park in. -/
def runRecovery (J : Serde) (isHotSwitch hasContext : Bool) (s : RecoverySite) :
    RecoverySite × RecoveryOutcome :=
  let session := s.live.session
  if session.history = [] then (s, .nothing)
  else
    let scan := recoveryScan [] false session.history.reverse
    let needsCaseA := !scan.pendingCalls.isEmpty
    let needsCaseB := scan.hasTrailingToolResults && scan.pendingCalls.isEmpty
    let needsCaseC := scan.lastIsUser
    if !(needsCaseA || needsCaseB || needsCaseC) then (s, .nothing)
    else
      match scan.pendingCalls with
      | [call] =>
        if call.name = "sessions_yield" ∧ session.pendingYield.any (·.toolCallId = call.id) then
          (s, if hasContext then .park call.id else .nothing)
        else (closeInterrupted J isHotSwitch s [call], .resume)
      | [] => (s, .resume)
      | calls => (closeInterrupted J isHotSwitch s calls, .resume)

/-! ## The property -/

/-- The history ends with the assistant message `msg` and tool results behind it. -/
def LastRound (history before : List ChatMessage) (msg : ChatMessage)
    (after : List ChatMessage) : Prop :=
  history = before ++ msg :: after ∧ msg.role = "assistant" ∧ ∀ m ∈ after, m.role = "tool"

/-- **An open round is closed**: the messages stay, one result for each open call follows them in
the order of the calls, nothing else does, and no call of the round is open any more. -/
def ClosesRound (J : Serde) (isHotSwitch hasContext : Bool) (s : RecoverySite)
    (msg : ChatMessage) (after : List ChatMessage) : Prop :=
  (runRecovery J isHotSwitch hasContext s).2 = .resume ∧
    ∃ text : ToolCall → String × Bool,
      (runRecovery J isHotSwitch hasContext s).1.live.session.history =
        s.live.session.history ++ closingResults text (unansweredCalls msg after) ∧
      ∀ id ∈ msg.callIds, Answered (after ++ closingResults text (unansweredCalls msg after)) id

/-- **Recovery closes the interrupted calls**: it does nothing to a complete history, and closes
every last round with open calls. -/
structure RecoveryCloses (J : Serde) (isHotSwitch hasContext : Bool) (s : RecoverySite) : Prop where
  complete : historyHasIncompleteTurn s.live.session.history = false →
    runRecovery J isHotSwitch hasContext s = (s, .nothing)
  closes : ∀ before msg after, LastRound s.live.session.history before msg after →
    unansweredCalls msg after ≠ [] → ClosesRound J isHotSwitch hasContext s msg after

/-! ## The walk -/

section

variable {J : Serde} {isHotSwitch hasContext : Bool} {s : RecoverySite}

/-- The walk is that of an abort. -/
lemma recoveryScan_eq (completed : List String) (trailing : Bool) (l : List ChatMessage) :
    ((recoveryScan completed trailing l).pendingCalls,
      (recoveryScan completed trailing l).hasTrailingToolResults) =
    openRound completed trailing l := by
  induction l generalizing completed trailing with
  | nil => rfl
  | cons msg rest ih =>
    unfold recoveryScan openRound
    split_ifs
    · exact ih _ _
    · rfl
    · rfl

lemma lastIsUser_recoveryScan {completed : List String} {trailing : Bool}
    {l : List ChatMessage} (h : (recoveryScan completed trailing l).lastIsUser = true) :
    (∃ msg ∈ l.head?, msg.role = "user") ∨
      (recoveryScan completed trailing l).hasTrailingToolResults = true := by
  have htrailing : ∀ completed l, (recoveryScan completed true l).hasTrailingToolResults = true := by
    intro completed l
    induction l generalizing completed with
    | nil => rfl
    | cons msg rest ih =>
      unfold recoveryScan
      split_ifs
      · exact ih _
      · rfl
      · rfl
  cases l with
  | nil => cases h
  | cons msg rest =>
    unfold recoveryScan at h ⊢
    split_ifs at h ⊢ with htool hassistant
    · exact .inr (htrailing _ _)
    · exact .inl ⟨msg, rfl, of_decide_eq_true h⟩

/-- **A complete history** is left alone. -/
theorem runRecovery_of_complete (h : historyHasIncompleteTurn s.live.session.history = false) :
    runRecovery J isHotSwitch hasContext s = (s, .nothing) := by
  by_cases hnil : s.live.session.history = []
  · rw [runRecovery, if_pos hnil]
  · have huser : ¬ EndsWithUser s.live.session.history := by
      rintro ⟨last, hlast, hrole⟩
      rw [historyHasIncompleteTurn, Option.mem_def.1 hlast] at h
      simp [hrole] at h
    have hclosed := (openRound_closed_iff [] false s.live.session.history.reverse).2
      (by rw [← historyHasIncompleteTurn_of_not_user huser, h])
    rw [← recoveryScan_eq, Bool.and_eq_true, Bool.not_eq_true'] at hclosed
    obtain ⟨hcalls, htools⟩ := hclosed
    dsimp only at hcalls htools
    have hlast : (recoveryScan [] false s.live.session.history.reverse).lastIsUser = false := by
      by_contra hne
      rcases lastIsUser_recoveryScan (by simpa using hne) with hhead | htrailing
      · rw [List.head?_reverse] at hhead
        exact huser hhead
      · exact absurd (htools.symm.trans htrailing) Bool.false_ne_true
    rw [runRecovery, if_neg hnil]
    dsimp only
    rw [hcalls, htools, hlast]
    rfl

/-- The walk over a last round. -/
lemma pendingCalls_of_lastRound {before after : List ChatMessage} {msg : ChatMessage}
    (h : LastRound s.live.session.history before msg after) :
    (recoveryScan [] false s.live.session.history.reverse).pendingCalls =
      unansweredCalls msg after := by
  have hlast : LastAssistant s.live.session.history before msg after := by
    refine ⟨h.1, h.2.1, fun m hm hrole => ?_⟩
    exact absurd (hrole.symm.trans (h.2.2 m hm)) (by decide)
  have heq := congrArg Prod.fst (recoveryScan_eq [] false s.live.session.history.reverse)
  rw [openRound_reverse hlast, if_pos h.2.2] at heq
  exact heq

/-! ## Open rounds -/

lemma history_foldl_persistResult (text : ToolCall → String × Bool) (calls : List ToolCall)
    (live : Live) :
    (calls.foldl (fun live call =>
        live.persistResult J call.id call.name (text call).1 (text call).2) live).session.history =
      live.session.history ++ closingResults text calls := by
  induction calls generalizing live with
  | nil => simp [closingResults]
  | cons call calls ih =>
    have hone : (live.persistResult J call.id call.name (text call).1
        (text call).2).session.history = live.session.history ++
          [toolResult call.id (some call.name) (text call).1 (text call).2] := by
      simp only [Live.persistResult, Session.persistLast, Session.addToolResult,
        Session.history_push]
      split
      · rfl
      · split <;> rfl
    rw [List.foldl_cons, ih, hone]
    simp [closingResults]

/-- Results for the open calls answer all calls of the round. -/
lemma answered_closingResults (text : ToolCall → String × Bool) {msg : ChatMessage}
    {after : List ChatMessage} {id : String} (hid : id ∈ msg.callIds) :
    Answered (after ++ closingResults text (unansweredCalls msg after)) id := by
  rw [answered_append]
  by_cases hbefore : Answered after id
  · exact .inl hbefore
  · obtain ⟨call, hcall, rfl⟩ := List.mem_map.1 hid
    refine .inr ⟨_, List.mem_map.2 ⟨call, mem_unansweredCalls.2 ⟨hcall, hbefore⟩, rfl⟩, ?_⟩
    exact ⟨rfl, rfl⟩

/-- **The deferred yield** of the session is not touched. -/
lemma runRecovery_of_awaitsYield {call : ToolCall} {before after : List ChatMessage}
    {msg : ChatMessage} (h : LastRound s.live.session.history before msg after)
    (hcalls : unansweredCalls msg after = [call]) (hname : call.name = "sessions_yield")
    (hpending : ∃ p ∈ s.live.session.pendingYield, p.toolCallId = call.id) :
    runRecovery J isHotSwitch hasContext s =
      (s, if hasContext then .park call.id else .nothing) := by
  have hnil : s.live.session.history ≠ [] := by
    rw [h.1]
    simp
  have hany : (s.live.session.pendingYield.any (·.toolCallId = call.id)) = true := by
    obtain ⟨p, hp, hid⟩ := hpending
    rw [Option.mem_def.1 hp]
    exact decide_eq_true hid
  unfold runRecovery
  simp [if_neg hnil, pendingCalls_of_lastRound h, hcalls, hname, hany]

/-- **Case A**: the open calls of the last round are closed. -/
lemma runRecovery_of_lastRound {before after : List ChatMessage} {msg : ChatMessage}
    (h : LastRound s.live.session.history before msg after)
    (hopen : unansweredCalls msg after ≠ [])
    (hyield : ¬ AwaitsYield s.live.session (unansweredCalls msg after)) :
    runRecovery J isHotSwitch hasContext s =
      (closeInterrupted J isHotSwitch s (unansweredCalls msg after), .resume) := by
  have hnil : s.live.session.history ≠ [] := by
    rw [h.1]
    simp
  unfold runRecovery
  rw [if_neg hnil]
  dsimp only
  rw [pendingCalls_of_lastRound h]
  generalize unansweredCalls msg after = calls at hopen hyield ⊢
  match calls with
  | [] => exact absurd rfl hopen
  | [call] =>
    have hnot : ¬ (call.name = "sessions_yield" ∧
        (s.live.session.pendingYield.any (·.toolCallId = call.id)) = true) := by
      rintro ⟨hname, hany⟩
      obtain ⟨p, hp, hid⟩ := (Option.any_eq_true _ _).1 hany
      exact hyield ⟨call, rfl, hname, p, hp, of_decide_eq_true hid⟩
    simp [hnot]
  | call :: other :: rest => simp

/-- **Recovery closes exactly the interrupted calls.**  It does nothing to a complete history.  An
open round is closed, unless its only open call is the deferred yield of the session, which stays
open: the session is handed to a live context to wait in, or left as it is. -/
theorem runRecovery_closes (J : Serde) (isHotSwitch hasContext : Bool) (s : RecoverySite) :
    (historyHasIncompleteTurn s.live.session.history = false →
      runRecovery J isHotSwitch hasContext s = (s, .nothing)) ∧
    ∀ before msg after, LastRound s.live.session.history before msg after →
      unansweredCalls msg after ≠ [] →
      (¬ AwaitsYield s.live.session (unansweredCalls msg after) →
        ClosesRound J isHotSwitch hasContext s msg after) ∧
      (AwaitsYield s.live.session (unansweredCalls msg after) →
        ∃ call ∈ unansweredCalls msg after, runRecovery J isHotSwitch hasContext s =
          (s, if hasContext then .park call.id else .nothing)) := by
  refine ⟨runRecovery_of_complete, fun before msg after hround hopen => ⟨fun hyield => ?_, ?_⟩⟩
  · rw [ClosesRound, runRecovery_of_lastRound hround hopen hyield]
    exact ⟨rfl, recoveryResult isHotSwitch s.procDir, history_foldl_persistResult _ _ _,
      fun id hid => answered_closingResults _ hid⟩
  · rintro ⟨call, hcalls, hname, hpending⟩
    exact ⟨call, by simp [hcalls], runRecovery_of_awaitsYield hround hcalls hname hpending⟩

/-! ## The event of the agent's machine -/

lemma unansweredTail_eq (completed : List String) (trailing : Bool) (l : List ChatMessage) :
    unansweredTail completed l = (recoveryScan completed trailing l).pendingCalls := by
  induction l generalizing completed trailing with
  | nil => rfl
  | cons msg rest ih =>
    unfold unansweredTail recoveryScan
    split_ifs
    · exact ih _ _
    · rfl
    · rfl

/-- **What a recovery does to the session** is the recovery event of the agent's machine. -/
theorem live_runRecovery (J : Serde) (isHotSwitch hasContext : Bool) (s : RecoverySite) :
    (runRecovery J isHotSwitch hasContext s).1.live =
      agentStep J s.live (.recover (recoveryResult isHotSwitch s.procDir)) := by
  simp only [agentStep, recoveredCalls, unansweredTail_eq [] false]
  by_cases hnil : s.live.session.history = []
  · rw [runRecovery, if_pos hnil, hnil]
    rfl
  · rw [runRecovery, if_neg hnil]
    dsimp only
    generalize hscan : recoveryScan [] false s.live.session.history.reverse = scan
    obtain ⟨calls, trailing, lastIsUser⟩ := scan
    cases calls with
    | nil => cases trailing <;> cases lastIsUser <;> rfl
    | cons call later =>
      cases later with
      | nil =>
        dsimp only [List.isEmpty_cons, Bool.not_false, Bool.true_or, Bool.not_true]
        split_ifs <;> first | rfl | contradiction
      | cons other rest => rfl

end

/-! ## A deferred yield without a session context -/

namespace DeferredYieldSite

/-- The call of the model that waits for an event. -/
def yieldCall : ToolCall := { id := "c1", name := "sessions_yield", arguments := "\x7b\x7d" }

/-- The message that makes the call. -/
def yieldMessage : ChatMessage :=
  { ChatMessage.assistantText "" with toolCalls := some [yieldCall] }

/-- A session that was waiting when the process stopped. -/
def site : RecoverySite where
  live :=
    { dir := { metaJson := none, history := none, archive := fun _ => none }
      session :=
        { history := [ChatMessage.userText "hi", yieldMessage]
          messageIds := [1, 2]
          pendingYield := some { toolCallId := "c1", implicit := false } } }
  procDir := none

lemma lastRound_site : LastRound site.live.session.history [ChatMessage.userText "hi"] yieldMessage
    [] :=
  ⟨rfl, rfl, fun _ h => absurd h List.not_mem_nil⟩

end DeferredYieldSite

open DeferredYieldSite in
/-- **The call stays open**: it is the deferred yield of the session, and there is no context to
wait in. -/
theorem not_recoveryCloses_yield : ¬ RecoveryCloses plainSerde false false site := by
  intro h
  have hcloses := (h.closes _ _ _ lastRound_site (by decide)).1
  have hcalls : unansweredCalls yieldMessage [] = [yieldCall] := by decide
  rw [runRecovery_of_awaitsYield lastRound_site hcalls rfl ⟨_, rfl, rfl⟩] at hcloses
  exact absurd hcloses (by decide)

end MyClaw
