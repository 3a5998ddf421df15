import MyClaw.Agent.Rebuild

set_option autoImplicit false

/-!
# The request that grows with the turn

`run_inner` (`agents/agent/mod.rs`) assembles the request messages once and then extends them next
to the history of the session: each tool batch adds its round to both, a compaction rebuilds the
request, and transient messages go to the request alone.  A `sessions_yield` that is filled inside
its tool frame is written to the history only.

## Main definitions

* `RequestState`, `RequestEvent`, `requestStep` — the turns of a session, with
  what other tasks do while no turn holds it.
* `AgreesAtSend` — a request that is sent carries the results that the history makes.
* `KeepsRequest` — what an event has to satisfy for that.

## Main results

* `RequestInv.step` — what keeps the request and the history together.
* `agreesAtSend_eachStep` — every request of a run agrees with the history when every event
  of the run keeps the two together.
-/

namespace MyClaw

/-! ## The machine -/

/-- Where a turn stands. -/
inductive TurnPhase
  /-- No turn holds the session. -/
  | idle
  /-- The loop of `run_inner`. -/
  | running
  /-- A `sessions_yield` waits inside its tool frame, and the locks are free. -/
  | parked (toolCallId : String)
  deriving DecidableEq

/-- A session, the request of its turn, and what the turn was prepared with. -/
structure RequestState where
  frame : Frame
  systemPrompt : String
  toolNames : List String
  phase : TurnPhase

/-- What happens to a session and the request of its turn. -/
inductive RequestEvent
  /-- `prepare_turn`, with the names of the declared tools. -/
  | begin (systemPrompt : String) (toolNames : List String) (breaker : LoopBreakerCounter)
  /-- A compaction before or after a request; the reminder is inserted again when there is one. -/
  | compact (compactStart compactEnd : Nat) (summary : String) (version : Nat)
      (upToMessage : Int) (summaryTokens : Nat) (reminder : Option String)
  /-- A transient message of `inject_per_round`. -/
  | inject (text : String)
  /-- The request goes to the provider. -/
  | send
  /-- A response with tool calls. -/
  | batch (response : CollectedResponse) (modelId : String) (park : YieldPark)
      (executions : List Execution)
  /-- The parked task wakes. -/
  | wake (outcome : Option String)
  /-- The turn ends, or its task is dropped. -/
  | leave
  /-- The session changes while no turn holds it. -/
  | elsewhere (e : AgentEvent)

/-- The reminder after a compaction stands behind the system message. -/
def insertReminder (reminder : Option String) (messages : List ChatMessage) : List ChatMessage :=
  match reminder, messages with
  | none, messages => messages
  | some text, first :: second :: rest => first :: ChatMessage.userText text :: second :: rest
  | some text, messages => messages ++ [ChatMessage.userText text]

/-- The phase of a turn whose batch has stopped. -/
def phaseAfter : BatchStop → TurnPhase
  | .done .continue => .running
  | .parked toolCallId => .parked toolCallId
  | _ => .idle

namespace RequestState

/-- The request that the history makes now. -/
def rebuilt (s : RequestState) : List ChatMessage :=
  rebuildMessages s.systemPrompt s.toolNames s.frame.session.history

/-- The session of a request state. -/
def live (s : RequestState) : Live := s.frame.live

/-- The state with another session. -/
def withLive (s : RequestState) (l : Live) : RequestState :=
  { s with frame := { s.frame with dir := l.dir, session := l.session } }

end RequestState

/-- The state after an event; an event that is not possible in a phase changes nothing. -/
def requestStep (J : Serde) (s : RequestState) : RequestEvent → RequestState
  | .begin systemPrompt toolNames breaker =>
    if s.phase = .idle then
      { frame :=
          { dir := s.frame.dir, session := s.frame.session
            messages := rebuildMessages systemPrompt toolNames s.frame.session.history
            breaker := breaker }
        systemPrompt := systemPrompt, toolNames := toolNames, phase := .running }
    else s
  | .compact compactStart compactEnd summary version upToMessage summaryTokens reminder =>
    if s.phase = .running ∧ compactStart ≤ compactEnd ∧
        compactEnd ≤ s.frame.session.history.length then
      let s := s.withLive (liveStep J s.live (.compact compactStart compactEnd summary version
        upToMessage summaryTokens false))
      { s with frame := { s.frame with messages := insertReminder reminder s.rebuilt } }
    else s
  | .inject text =>
    if s.phase = .running then
      { s with frame :=
        { s.frame with messages := s.frame.messages ++ [ChatMessage.userText text] } }
    else s
  | .send => s
  | .batch response modelId park executions =>
    if s.phase = .running ∧ response.toolCalls ≠ [] then
      let (frame, stop) := executeToolBatch J s.frame response modelId park executions
      { s with frame := frame, phase := phaseAfter stop }
    else s
  | .wake outcome =>
    match s.phase with
    | .parked toolCallId =>
      let (frame, outcome) := wakeFromPark J s.frame toolCallId outcome
      { s with frame := frame, phase := phaseAfter (.done outcome) }
    | _ => s
  | .leave => { s with phase := .idle }
  | .elsewhere e => if s.phase = .running then s else s.withLive (agentStep J s.live e)

/-- A new session without a turn. -/
def newRequest : RequestState :=
  { frame := { dir := newLive.dir, session := newLive.session, messages := []
               breaker := { config := {} } }
    systemPrompt := "", toolNames := [], phase := .idle }

/-! ## The property and its condition -/

/-- A request that is sent carries for every tool call the results that the rebuilt request
carries. The transient messages of a request carry none. -/
def AgreesAtSend (s : RequestState) : RequestEvent → Prop
  | .send => s.phase = .running →
      ∀ id, Declared s.frame.messages id ∨ Declared s.rebuilt id →
        resultsOf id s.frame.messages = resultsOf id s.rebuilt
  | _ => True

/-- Every call of a batch has run, and none of them has stopped it. -/
def BatchTrace.Continues (t : BatchTrace) : Prop := t.stop = none ∧ t.rest = []

/-- What a batch after which the turn sends another request has to satisfy. -/
structure BatchKeepsRequest (s : RequestState) (response : CollectedResponse) (park : YieldPark)
    (executions : List Execution) : Prop where
  /-- It is not a `sessions_yield` that queued events fill at once. -/
  unfilled : ∀ call content,
    (traceBatch s.frame.breaker response.toolCalls executions).stop = some (.yield, call) →
      park ≠ .live (some content)
  /-- The history has no orphan result for one of its calls. -/
  fresh : (traceBatch s.frame.breaker response.toolCalls executions).Continues →
    ∀ tc ∈ response.toolCalls, Answered s.frame.session.history tc.id →
      Declared s.frame.session.history tc.id
  /-- It calls no send tool that the request does not declare. -/
  declared : (traceBatch s.frame.breaker response.toolCalls executions).Continues →
    ∀ tc ∈ response.toolCalls, tc.name ∈ sendTools → tc.name ∈ s.toolNames
  /-- Its ids are not those of calls that the rebuilt request folds. -/
  unfolded : (traceBatch s.frame.breaker response.toolCalls executions).Continues →
    ∀ tc ∈ response.toolCalls, tc.id ∉ absentIds s.toolNames s.frame.session.history

/-- What an event has to satisfy to keep the request and the history together. -/
def KeepsRequest (s : RequestState) : RequestEvent → Prop
  | .begin .. => s.phase = .idle → unansweredTail [] s.frame.session.history.reverse = []
  | .batch response _ park executions => s.phase = .running → response.toolCalls ≠ [] →
      BatchKeepsRequest s response park executions
  | .wake outcome => ∀ toolCallId content, s.phase = .parked toolCallId → outcome = some content →
      ¬ s.frame.session.pendingYield.any (·.toolCallId = toolCallId)
  | _ => True

/-! ## What a batch adds to both -/

section

variable {J : Serde}

@[simp] lemma history_persistLast (s : Session) (d : SessionDir) :
    (s.persistLast J d).2.history = s.history := by
  unfold Session.persistLast
  split
  · rfl
  · split <;> rfl

lemma history_answeredCall (f : Frame) (call : ToolCall) (ex : Execution) :
    (f.answeredCall J call ex).session.history =
      f.session.history ++ [toolResult call.id (some call.name) (resultContent ex.result).1
        (resultContent ex.result).2] := by
  unfold Frame.answeredCall Frame.flagDelegation Frame.persistResult
  dsimp only
  rw [history_persistLast]
  rfl

lemma messages_answeredCall (f : Frame) (call : ToolCall) (ex : Execution) :
    (f.answeredCall J call ex).messages =
      f.messages ++ [requestResult call.id (resultContent ex.result).1
        (resultContent ex.result).2] := rfl

/-- The calls of a batch that goes on add the same results to the history and to the request. -/
lemma executeCalls_continues {response : CollectedResponse} {park : YieldPark}
    (calls : List ToolCall) (exs : List Execution) {f : Frame}
    (h : (traceBatch f.breaker calls exs).Continues) :
    ∃ rs qs,
      (Frame.executeCalls J response park f calls exs).1.session.history =
        f.session.history ++ rs ∧
      (Frame.executeCalls J response park f calls exs).1.messages = f.messages ++ qs ∧
      (∀ m ∈ rs, m.role = "tool") ∧ toolRows qs = toolRows rs ∧
      rs.map (·.toolCallId) = calls.map fun tc => some tc.id := by
  induction calls generalizing exs f with
  | nil => exact ⟨[], [], by simp [Frame.executeCalls], by simp [Frame.executeCalls], by simp, rfl, rfl⟩
  | cons call rest ih =>
    cases exs with
    | nil => exact absurd h.2 (by simp [traceBatch])
    | cons ex exs =>
      rw [traceBatch] at h
      rw [Frame.executeCalls, executeCall_eq]
      cases hs : callStop f.breaker call ex with
      | some why =>
        rw [hs] at h
        exact absurd h.1 (by simp)
      | none =>
        rw [hs] at h
        obtain ⟨rs, qs, hhist, hmsgs, htools, hrows, hids⟩ :=
          ih exs (f := f.answeredCall J call ex) h
        rw [history_answeredCall, List.append_assoc] at hhist
        rw [messages_answeredCall, List.append_assoc] at hmsgs
        refine ⟨_, _, hhist, hmsgs, ?_, ?_, ?_⟩
        · intro m hm
          rcases List.mem_append.1 hm with hm | hm
          · rw [List.mem_singleton.1 hm]
            rfl
          · exact htools m hm
        · rw [toolRows_append, toolRows_append, hrows]
          rfl
        · rw [List.map_append, hids]
          rfl

/-- A batch after which the turn goes on has run all its calls, or ends with a `sessions_yield`
that queued events fill. -/
lemma continues_of_continue {response : CollectedResponse} {park : YieldPark}
    (calls : List ToolCall) (exs : List Execution) {f : Frame}
    (h : (Frame.executeCalls J response park f calls exs).2 = .done .continue) :
    (traceBatch f.breaker calls exs).Continues ∨
      ∃ call content, (traceBatch f.breaker calls exs).stop = some (.yield, call) ∧
        park = .live (some content) := by
  induction calls generalizing exs f with
  | nil => exact .inl ⟨rfl, rfl⟩
  | cons call rest ih =>
    cases exs with
    | nil => cases h
    | cons ex exs =>
      rw [Frame.executeCalls, executeCall_eq] at h
      rw [traceBatch]
      cases hs : callStop f.breaker call ex with
      | some why =>
        rw [hs] at h
        cases why with
        | loop =>
          obtain ⟨reason, hreason⟩ := exists_reason_of_loop hs
          simp only [hreason, Option.map_some] at h
          cases h
        | yield =>
          refine .inr ⟨call, ?_⟩
          cases park with
          | absent => cases h
          | live answer =>
            cases answer with
            | none => cases h
            | some content => exact ⟨content, rfl, rfl⟩
        | limit => cases h
      | none =>
        rw [hs] at h
        exact ih exs h

/-- A batch that goes on adds its round to the history and to the request. -/
lemma executeToolBatch_continues {f : Frame} {response : CollectedResponse}
    (hne : response.toolCalls ≠ []) (modelId : String) (park : YieldPark) (exs : List Execution)
    (h : (traceBatch f.breaker response.toolCalls exs).Continues) :
    ∃ rs qs,
      (executeToolBatch J f response modelId park exs).1.session.history =
        f.session.history ++ batchAssistant response modelId :: rs ∧
      (executeToolBatch J f response modelId park exs).1.messages =
        f.messages ++ requestAssistant response :: qs ∧
      (∀ m ∈ rs, m.role = "tool") ∧ toolRows qs = toolRows rs ∧
      rs.map (·.toolCallId) = response.toolCalls.map fun tc => some tc.id := by
  unfold executeToolBatch
  dsimp only
  rw [Session.addAssistantWithTools_of_ne_nil _ _ hne]
  obtain ⟨rs, qs, hhist, hmsgs, htools, hrows, hids⟩ := executeCalls_continues (J := J)
    response.toolCalls exs (f := { f with
      dir := ((f.session.push (batchAssistant response modelId)).persistLast J f.dir).1
      session := ((f.session.push (batchAssistant response modelId)).persistLast J f.dir).2
      messages := f.messages ++ [requestAssistant response] }) h
  refine ⟨rs, qs, ?_, ?_, htools, hrows, hids⟩
  · refine hhist.trans ?_
    rw [history_persistLast, Session.history_push, List.append_assoc]
    rfl
  · refine hmsgs.trans ?_
    rw [List.append_assoc]
    rfl

end

/-! ## The invariant -/

/-- Inside a turn no call at the end of the history is unanswered, and the request carries the
results of the rebuilt one. -/
def RequestInv (s : RequestState) : Prop :=
  s.phase = .running →
    unansweredTail [] s.frame.session.history.reverse = [] ∧
      toolRows s.frame.messages = toolRows s.rebuilt

lemma toolRows_insertReminder (reminder : Option String) (messages : List ChatMessage) :
    toolRows (insertReminder reminder messages) = toolRows messages := by
  have huser : ∀ text rest, toolRows (ChatMessage.userText text :: rest) = toolRows rest :=
    fun _ _ => toolRows_cons.trans (if_neg (by simp [ChatMessage.userText]))
  cases reminder with
  | none => rfl
  | some text =>
    cases messages with
    | nil => exact huser text []
    | cons first later =>
      cases later with
      | nil =>
        rw [insertReminder, toolRows_append, huser]
        · exact List.append_nil _
        · simp
      | cons second rest => rw [insertReminder, toolRows_cons, huser, ← toolRows_cons]

/-- A batch keeps the request and the history together. -/
lemma RequestInv.batch {J : Serde} {s : RequestState} (h : RequestInv s)
    (hrun : s.phase = .running) {response : CollectedResponse} (hne : response.toolCalls ≠ [])
    (modelId : String) {park : YieldPark} {exs : List Execution}
    (hk : BatchKeepsRequest s response park exs) :
    RequestInv (requestStep J s (.batch response modelId park exs)) := by
  intro hphase
  obtain ⟨hsettled, hrows⟩ := h hrun
  have hstep : requestStep J s (.batch response modelId park exs) =
      { s with
        frame := (executeToolBatch J s.frame response modelId park exs).1
        phase := phaseAfter (executeToolBatch J s.frame response modelId park exs).2 } :=
    if_pos ⟨hrun, hne⟩
  rw [hstep] at hphase ⊢
  have hstop : (executeToolBatch J s.frame response modelId park exs).2 = .done .continue := by
    revert hphase
    generalize (executeToolBatch J s.frame response modelId park exs).2 = stop
    intro hphase
    match stop, hphase with
    | .done .continue, _ => rfl
  have hcont : (traceBatch s.frame.breaker response.toolCalls exs).Continues := by
    rcases continues_of_continue response.toolCalls exs hstop with hcont | ⟨call, content, hy, hp⟩
    · exact hcont
    · exact absurd hp (hk.unfilled call content hy)
  obtain ⟨rs, qs, hhist, hmsgs, htools, hqs, hids⟩ :=
    executeToolBatch_continues (J := J) hne modelId park exs hcont
  have ha : (batchAssistant response modelId).role = "assistant" := rfl
  have hcalls : (batchAssistant response modelId).calls = response.toolCalls := rfl
  have hcallIds : (batchAssistant response modelId).callIds = response.toolCalls.map (·.id) := rfl
  have hanswers : ∀ m ∈ rs, ∃ id ∈ (batchAssistant response modelId).callIds,
      m.toolCallId = some id := by
    intro m hm
    have hmem : m.toolCallId ∈ response.toolCalls.map fun tc => some tc.id :=
      hids ▸ List.mem_map_of_mem hm
    obtain ⟨tc, htc, hid⟩ := List.mem_map.1 hmem
    exact ⟨tc.id, List.mem_map_of_mem htc, hid.symm⟩
  have hall : (batchAssistant response modelId).callIds ⊆ rs.filterMap (·.toolCallId) := by
    intro id hid
    obtain ⟨tc, htc, rfl⟩ := List.mem_map.1 hid
    have hmem : some tc.id ∈ rs.map (·.toolCallId) := hids ▸ List.mem_map_of_mem htc
    obtain ⟨m, hm, hmid⟩ := List.mem_map.1 hmem
    exact List.mem_filterMap.2 ⟨m, hm, hmid⟩
  constructor
  · dsimp only
    rw [hhist]
    exact unansweredTail_round ha htools hall
  · have hround := toolRows_rebuildMessages_round s.systemPrompt hsettled ha htools hanswers hall
      (by
        intro id hid
        obtain ⟨tc, htc, rfl⟩ := List.mem_map.1 hid
        exact hk.fresh hcont tc htc)
      (hk.declared hcont)
      (by
        intro id hid
        obtain ⟨tc, htc, rfl⟩ := List.mem_map.1 hid
        exact hk.unfolded hcont tc htc)
    have hassistant : toolRows (requestAssistant response :: qs) = toolRows qs :=
      toolRows_cons.trans (if_neg (by simp [requestAssistant, ChatMessage.assistantText]))
    dsimp only [RequestState.rebuilt]
    rw [hhist, hround, hmsgs, toolRows_append, hassistant, hqs, hrows]
    rfl

/-- **Every event that meets the condition keeps the request and the history together.** -/
theorem RequestInv.step {J : Serde} {s : RequestState} (h : RequestInv s) {e : RequestEvent}
    (hk : KeepsRequest s e) : RequestInv (requestStep J s e) := by
  cases e with
  | begin systemPrompt toolNames breaker =>
    rw [requestStep]
    split_ifs with hidle
    · exact fun _ => ⟨hk hidle, rfl⟩
    · exact h
  | compact compactStart compactEnd summary version upToMessage summaryTokens reminder =>
    rw [requestStep]
    split_ifs with hc
    · obtain ⟨hrun, hrange⟩ := hc
      refine fun _ => ⟨?_, toolRows_insertReminder _ _⟩
      have hhist : (liveStep J s.live (.compact compactStart compactEnd summary version upToMessage
          summaryTokens false)).session.history =
            s.frame.session.history.take compactStart ++
              ChatMessage.userText summary :: s.frame.session.history.drop compactEnd := by
        have hrange' : compactStart ≤ compactEnd ∧ compactEnd ≤ s.live.session.history.length :=
          hrange
        rw [liveStep, if_pos hrange']
        rfl
      have hrev : s.frame.session.history.reverse =
          (s.frame.session.history.drop compactEnd).reverse ++
            (s.frame.session.history.take compactEnd).reverse := by
        rw [← List.reverse_append, List.take_append_drop]
      have hsettled := (h hrun).1
      rw [hrev] at hsettled
      dsimp only [RequestState.withLive]
      rw [hhist, List.reverse_append, List.reverse_cons, List.append_assoc]
      obtain ⟨ht, hinert⟩ := inert_userText summary
      exact unansweredTail_stop ht (by simp [ChatMessage.userText]) hsettled
    · exact h
  | inject text =>
    rw [requestStep]
    split_ifs with hrun
    · refine fun _ => ⟨(h hrun).1, ?_⟩
      have huser : toolRows [ChatMessage.userText text] = [] := rfl
      dsimp only
      rw [toolRows_append, huser, List.append_nil]
      exact (h hrun).2
    · exact h
  | send => exact h
  | batch response modelId park exs =>
    by_cases hc : s.phase = .running ∧ response.toolCalls ≠ []
    · exact h.batch hc.1 hc.2 modelId (hk hc.1 hc.2)
    · rw [requestStep, if_neg hc]
      exact h
  | wake outcome =>
    rw [requestStep]
    split
    · rename_i toolCallId hphase
      cases outcome with
      | none => exact fun hrun => by cases hrun
      | some content =>
        have hno := hk toolCallId content hphase rfl
        rw [wakeFromPark]
        dsimp only
        rw [if_neg hno]
        exact fun hrun => by cases hrun
    · exact h
  | leave => exact fun hrun => by cases hrun
  | elsewhere e =>
    rw [requestStep]
    split_ifs with hrun
    · exact h
    · exact fun hrun' => absurd hrun' hrun

/-- A request that is sent under the invariant agrees with the history. -/
lemma RequestInv.agreesAtSend {s : RequestState} (h : RequestInv s) (e : RequestEvent) :
    AgreesAtSend s e := by
  cases e with
  | send =>
    intro hrun id _
    rw [resultsOf, resultsOf, (h hrun).2]
  | _ => trivial

/-- **The request that grows is the rebuilt one**: in a run where every turn begins without an
unanswered call at the end of the history, no `sessions_yield` is filled inside its tool frame, and
no batch reuses the id of an orphan result or of a folded call or calls an undeclared send tool,
every request that is sent carries the tool results of the rebuilt request. -/
theorem agreesAtSend_eachStep (J : Serde) (es : List RequestEvent)
    (h : Run.EachStep (requestStep J) KeepsRequest newRequest es) :
    Run.EachStep (requestStep J) AgreesAtSend newRequest es :=
  Run.eachStep_of_step (P := RequestInv) (fun _ _ hs hk => hs.step hk)
    (fun _ e hs _ => hs.agreesAtSend e) (fun hrun => by cases hrun) h

namespace ToolRound

/-- A response with one call of the shell. -/
def response : CollectedResponse :=
  { text := "", toolCalls := [{ id := "a", name := "shell", arguments := "ls" }] }

/-- The run of the call. -/
def executions : List Execution :=
  [{ result := .ok { success := true, output := "done", error := none }, now := 0 }]

/-- A turn with one tool round. -/
def run : List RequestEvent :=
  [ .elsewhere (.live (.turn (ChatMessage.userText "go"))),
    .begin "system" ["shell"] { config := {} },
    .send,
    .batch response "model" .absent executions,
    .send ]

end ToolRound

/-- Both requests of a turn with a tool round agree with the history. -/
theorem agreesAtSend_eachStep_toolRound :
    Run.EachStep (requestStep plainSerde) AgreesAtSend newRequest ToolRound.run := by
  refine agreesAtSend_eachStep plainSerde ToolRound.run
    ⟨trivial, fun _ => by decide, trivial, fun _ _ => ?_, trivial, trivial⟩
  constructor
  · exact fun _ _ _ => nofun
  · exact fun _ => by decide
  · exact fun _ => by decide
  · exact fun _ => by decide

/-! ## A yield that queued events fill at once -/

namespace FilledYield

/-- A response that yields. -/
def response : CollectedResponse :=
  { text := "", toolCalls := [{ id := "y", name := "sessions_yield", arguments := "" }] }

/-- The run of the yield. -/
def executions : List Execution :=
  [{ result := .ok { success := true, output := "yielded", error := none }, now := 0 }]

/-- A turn whose first response yields while an event is queued, up to its second request. -/
def run : List RequestEvent :=
  [ .elsewhere (.live (.turn (ChatMessage.userText "go"))),
    .begin "system" ["sessions_yield"] { config := {} },
    .send,
    .batch response "model" (.live (some "event")) executions,
    .send ]

end FilledYield

open FilledYield in
/-- The second request declares the call of the yield and carries no result for it, while the
history has the event as its result. -/
theorem not_agreesAtSend_filledYield :
    ¬ Run.EachStep (requestStep plainSerde) AgreesAtSend newRequest FilledYield.run := by
  rintro ⟨-, -, -, -, hsend, -⟩
  exact absurd (hsend (by decide) "y" (.inl (by decide))) (by decide)

end MyClaw
