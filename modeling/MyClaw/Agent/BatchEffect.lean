import MyClaw.Agent.ToolPhase
import MyClaw.Session.Manager

set_option autoImplicit false

/-!
# What a tool batch adds

The trace of a batch says, from its calls and what the tools answer alone, where the batch stops.
A batch adds an assistant message and one tool message for each answered call, to the file and to
the session, and in the session it takes the calls after the stop from the assistant message.

## Main definitions

* `BatchTrace`, `traceBatch` — the calls before the stop, the stop, and the calls
  after it.
* `BatchRan` — what a batch has added to the file and to the session.

## Main results

* `traceBatch_calls` — a trace splits the calls.
* `executeToolBatch_ran` — a batch adds what its trace says.
-/

namespace MyClaw

/-! ## The trace of a batch -/

/-- Why a batch stops at a call that ran. -/
inductive CallStop
  | loop
  | yield
  | limit

/-- The check of the loop breaker after a call. -/
def checkCall (breaker : LoopBreakerCounter) (call : ToolCall) (ex : Execution) :
    Option LoopBreakReason × LoopBreakerCounter :=
  breaker.recordAndCheck call.name call.arguments (resultContent ex.result).1 ex.now

/-- Whether a batch stops at a call: a detected loop, a successful `sessions_yield`, or the hard
limit. -/
def callStop (breaker : LoopBreakerCounter) (call : ToolCall) (ex : Execution) :
    Option CallStop :=
  let (verdict, breaker) := checkCall breaker call ex
  if verdict.isSome then some .loop
  else if isDeferredYield call (resultContent ex.result).2 then some .yield
  else if breaker.totalCalls ≥ breaker.config.maxToolCalls then some .limit
  else none

/-- Where a batch stops. -/
structure BatchTrace where
  /-- The calls that ran before the stop. -/
  ran : List ToolCall
  /-- The call at which the batch stops. -/
  stop : Option (CallStop × ToolCall)
  /-- The calls that did not run. -/
  rest : List ToolCall

/-- The trace of the calls of a batch. -/
def traceBatch (breaker : LoopBreakerCounter) : List ToolCall → List Execution → BatchTrace
  | [], _ => { ran := [], stop := none, rest := [] }
  | call :: rest, [] => { ran := [], stop := none, rest := call :: rest }
  | call :: rest, ex :: exs =>
    match callStop breaker call ex with
    | some why => { ran := [], stop := some (why, call), rest := rest }
    | none =>
      let t := traceBatch (checkCall breaker call ex).2 rest exs
      { t with ran := call :: t.ran }

namespace BatchTrace

/-- The calls that memory strips: those after a stop. The calls after a dropped task stay. -/
def stripped (t : BatchTrace) : List ToolCall := if t.stop.isSome then t.rest else []

/-- The calls that memory keeps. -/
def kept (t : BatchTrace) : List ToolCall :=
  t.ran ++ t.stop.toList.map Prod.snd ++ if t.stop.isSome then [] else t.rest

/-- The ids that get a tool message, given the yield that is pending when the batch starts. -/
def answered (t : BatchTrace) (pending : Option PendingYield) (park : YieldPark) : List String :=
  t.ran.map (·.id) ++
    match t.stop with
    | none => []
    | some (.yield, call) =>
      (pending.map (·.toolCallId)).toList ++
        match park with
        | .live (some _) => [call.id]
        | _ => []
    | some (_, call) => [call.id]

/-- The yield that is pending when the batch has stopped. -/
def pendingAfter (t : BatchTrace) (pending : Option PendingYield) (park : YieldPark) :
    Option PendingYield :=
  match t.stop with
  | some (.yield, call) =>
    match park with
    | .live (some _) => none
    | _ => some { toolCallId := call.id, implicit := false }
  | _ => pending

end BatchTrace

/-- **A trace splits the calls** in those that memory keeps and those that it strips. -/
theorem traceBatch_calls (breaker : LoopBreakerCounter) (calls : List ToolCall)
    (exs : List Execution) :
    (traceBatch breaker calls exs).kept ++ (traceBatch breaker calls exs).stripped = calls := by
  induction calls generalizing breaker exs with
  | nil => simp [traceBatch, BatchTrace.kept, BatchTrace.stripped]
  | cons call rest ih =>
    cases exs with
    | nil => simp [traceBatch, BatchTrace.kept, BatchTrace.stripped]
    | cons ex exs =>
      rw [traceBatch]
      cases hs : callStop breaker call ex with
      | some why => simp [BatchTrace.kept, BatchTrace.stripped]
      | none =>
        have h := ih (checkCall breaker call ex).2 exs
        simp only [BatchTrace.kept, BatchTrace.stripped] at h ⊢
        simp only [List.cons_append, h]

/-! ## Stripped messages -/

/-- A message without its last `count` calls. -/
def stripCalls (count : Nat) (msg : ChatMessage) : ChatMessage :=
  { msg with toolCalls := msg.toolCalls.map fun calls => calls.take (calls.length - count) }

@[simp] lemma role_stripCalls (count : Nat) (msg : ChatMessage) :
    (stripCalls count msg).role = msg.role := rfl

@[simp] lemma stripCalls_zero (msg : ChatMessage) : stripCalls 0 msg = msg := by
  obtain ⟨role, parts, name, id, calls, isError, model, usage⟩ := msg
  cases calls <;> simp [stripCalls]

lemma stripReversed_append {rs : List ChatMessage} (h : ∀ m ∈ rs, m.role = "tool") {a : ChatMessage}
    (ha : a.role = "assistant") (count : Nat) (pre : List ChatMessage) :
    Session.stripReversed count (rs ++ a :: pre) = rs ++ stripCalls count a :: pre := by
  induction rs with
  | nil => simp [Session.stripReversed, ha, stripCalls]
  | cons m rs ih =>
    have hm : m.role ≠ "assistant" := by
      rw [h m List.mem_cons_self]
      decide
    rw [List.cons_append, Session.stripReversed, if_neg hm, ih fun x hx => h x (.tail _ hx),
      List.cons_append]

/-- The calls that `strip_trailing_tool_calls` takes are those of the assistant message in front of
the tool messages at the end. -/
lemma history_stripTrailingToolCalls {s : Session} {pre rs : List ChatMessage} {a : ChatMessage}
    (hs : s.history = pre ++ a :: rs) (ha : a.role = "assistant")
    (hrs : ∀ m ∈ rs, m.role = "tool") (count : Nat) :
    (s.stripTrailingToolCalls count).history = pre ++ stripCalls count a :: rs := by
  unfold Session.stripTrailingToolCalls
  split_ifs with hc
  · rw [hc, stripCalls_zero, hs]
  · have hrev : s.history.reverse = rs.reverse ++ a :: pre.reverse := by simp [hs]
    simp only [hrev]
    rw [stripReversed_append (by simpa using hrs) ha]
    simp

@[simp] lemma messageIds_stripTrailingToolCalls (s : Session) (count : Nat) :
    (s.stripTrailingToolCalls count).messageIds = s.messageIds := by
  unfold Session.stripTrailingToolCalls
  split_ifs <;> rfl

@[simp] lemma pendingYield_stripTrailingToolCalls (s : Session) (count : Nat) :
    (s.stripTrailingToolCalls count).pendingYield = s.pendingYield := by
  unfold Session.stripTrailingToolCalls
  split_ifs <;> rfl

/-! ## What has been added -/

/-- The file and the session with an assistant message `a` and tool messages `rs` more; the session
has `a` without its last `count` calls. -/
structure BatchRan (J : Serde) (d d' : SessionDir) (s s' : Session) (a : ChatMessage)
    (count : Nat) (rs : List ChatMessage) : Prop where
  tidy : ∃ m arch act, Tidy J d' m arch act
  tools : ∀ m ∈ rs, m.role = "tool"
  messages : d'.messages J = d.messages J ++ a :: rs
  history : s'.history = s.history ++ stripCalls count a :: rs
  ids : ∃ ns, s'.messageIds = s.messageIds ++ ns ∧ ns.length = rs.length + 1 ∧ ∀ n ∈ ns, n ≠ 0

section

variable {J : Serde} {d : SessionDir} {s : Session} {a : ChatMessage} {count : Nat}
  {rs : List ChatMessage}

/-- A message pushed onto a session and persisted. -/
lemma persistLast_push_spec (h : ∃ m arch act, Tidy J d m arch act) (s : Session)
    (msg : ChatMessage) :
    ∃ n : Int, n ≠ 0 ∧ (∃ m arch act, Tidy J ((s.push msg).persistLast J d).1 m arch act) ∧
      ((s.push msg).persistLast J d).1.messages J = d.messages J ++ [msg] ∧
      ((s.push msg).persistLast J d).2 =
        { s.push msg with messageIds := s.messageIds ++ [n] } := by
  obtain ⟨m, arch, act, ht⟩ := h
  rw [ht.persistLast_push s msg]
  exact ⟨(m.messageCount : Int) + 1, by omega, ⟨_, _, _, ht.append msg⟩, ht.messages_append msg, rfl⟩

/-- A result that is added and persisted. -/
lemma BatchRan.persistResult {f : Frame} (h : BatchRan J d f.dir s f.session a count rs)
    (toolCallId name content : String) (isError : Bool) :
    BatchRan J d (f.persistResult J toolCallId name content isError).dir s
      (f.persistResult J toolCallId name content isError).session a count
      (rs ++ [toolResult toolCallId (some name) content isError]) := by
  obtain ⟨n, hn, htidy, hfile, hsess⟩ := persistLast_push_spec h.tidy f.session
    (toolResult toolCallId (some name) content isError)
  obtain ⟨ns, hns, hlen, hpos⟩ := h.ids
  simp only [Frame.persistResult, Session.addToolResult]
  refine ⟨htidy, ?_, ?_, ?_, ns ++ [n], ?_, ?_, ?_⟩
  · intro m hm
    rcases List.mem_append.1 hm with hm | hm
    · exact h.tools m hm
    · rw [List.mem_singleton.1 hm]
      rfl
  · rw [hfile, h.messages]
    simp
  · rw [hsess, Session.history_push, h.history]
    simp
  · simp [hsess, hns]
  · simp [hlen]
  · intro k hk
    rcases List.mem_append.1 hk with hk | hk
    · exact hpos k hk
    · rwa [List.mem_singleton.1 hk]

/-- The calls after the stop go, in memory only. -/
lemma BatchRan.strip {s' : Session} {d' : SessionDir} (h : BatchRan J d d' s s' a 0 rs)
    (ha : a.role = "assistant") (count : Nat) :
    BatchRan J d d' s (s'.stripTrailingToolCalls count) a count rs where
  tidy := h.tidy
  tools := h.tools
  messages := h.messages
  history := history_stripTrailingToolCalls (by rw [h.history, stripCalls_zero]) ha h.tools count
  ids := by
    rw [messageIds_stripTrailingToolCalls]
    exact h.ids

@[simp] lemma pendingYield_persistResult (J : Serde) (f : Frame)
    (toolCallId name content : String) (isError : Bool) :
    (f.persistResult J toolCallId name content isError).session.pendingYield =
      f.session.pendingYield := by
  simp only [Frame.persistResult, Session.persistLast, Session.addToolResult]
  split
  · rfl
  · split <;> rfl

/-- Stripping does not touch the result that a detected loop still has to persist. -/
lemma persistLast_stripTrailingToolCalls {s' : Session} {pre : List ChatMessage} {r : ChatMessage}
    (hs : s'.history = pre ++ a :: (rs ++ [r])) (ha : a.role = "assistant")
    (hrs : ∀ m ∈ rs ++ [r], m.role = "tool") (count : Nat) (d' : SessionDir) :
    (s'.stripTrailingToolCalls count).persistLast J d' =
      ((s'.persistLast J d').1, (s'.persistLast J d').2.stripTrailingToolCalls count) := by
  have hlast : (s'.stripTrailingToolCalls count).history.getLast? = s'.history.getLast? := by
    have hr : ∀ x, (pre ++ x :: (rs ++ [r])).getLast? = some r := by
      intro x
      rw [← List.cons_append, ← List.append_assoc, List.getLast?_concat]
    rw [history_stripTrailingToolCalls hs ha hrs, hs, hr, hr]
  unfold Session.persistLast
  rw [hlast]
  cases s'.history.getLast? with
  | none => rfl
  | some msg =>
    dsimp only
    cases d'.appendMessage J msg with
    | none => rfl
    | some p =>
      simp only [messageIds_stripTrailingToolCalls, Prod.mk.injEq, true_and]
      unfold Session.stripTrailingToolCalls
      split_ifs <;> rfl

end

/-! ## The calls of a batch -/

section

variable {J : Serde} {d : SessionDir} {s : Session} {a : ChatMessage} {rs : List ChatMessage}
  {response : CollectedResponse} {park : YieldPark}

/-- A detected loop adds the result of its call. -/
lemma BatchRan.abortLoop {f : Frame} (h : BatchRan J d f.dir s f.session a 0 rs)
    (ha : a.role = "assistant") (call : ToolCall) (content : String) (isError : Bool)
    (remaining : Nat) :
    BatchRan J d (f.abortLoop J call content isError remaining).dir s
      (f.abortLoop J call content isError remaining).session a remaining
      (rs ++ [toolResult call.id (some call.name) content isError]) ∧
    (f.abortLoop J call content isError remaining).session.pendingYield =
      f.session.pendingYield := by
  have hres := h.persistResult call.id call.name content isError
  have hhist : (f.session.addToolResult call.id call.name content isError).history =
      s.history ++ a :: (rs ++ [toolResult call.id (some call.name) content isError]) := by
    rw [Session.addToolResult, Session.history_push, h.history, stripCalls_zero]
    simp
  have hpersist := persistLast_stripTrailingToolCalls (J := J) hhist ha hres.tools remaining f.dir
  have hdir : (f.abortLoop J call content isError remaining).dir =
      (f.persistResult J call.id call.name content isError).dir := by
    simp only [Frame.abortLoop, Frame.pushRequest, hpersist]
    rfl
  have hsession : (f.abortLoop J call content isError remaining).session =
      (f.persistResult J call.id call.name content isError).session.stripTrailingToolCalls
        remaining := by
    simp only [Frame.abortLoop, Frame.pushRequest, hpersist]
    rfl
  rw [hdir, hsession]
  refine ⟨hres.strip ha remaining, ?_⟩
  rw [pendingYield_stripTrailingToolCalls, pendingYield_persistResult]

/-- A deferred yield adds the result that closes an earlier one. -/
lemma BatchRan.deferYield {f : Frame} (h : BatchRan J d f.dir s f.session a 0 rs)
    (call : ToolCall) :
    ∃ qs, BatchRan J d (f.deferYield J call).dir s (f.deferYield J call).session a 0 (rs ++ qs) ∧
      qs.filterMap (·.toolCallId) = (f.session.pendingYield.map (·.toolCallId)).toList ∧
      (f.deferYield J call).session.pendingYield =
        some { toolCallId := call.id, implicit := false } := by
  unfold Frame.deferYield
  cases hp : f.session.pendingYield with
  | none =>
    exact ⟨[], by simpa using ⟨h.tidy, h.tools, h.messages, h.history, h.ids⟩, rfl, rfl⟩
  | some orphaned =>
    have h₀ : BatchRan J d f.dir s { f.session with pendingYield := none } a 0 rs :=
      ⟨h.tidy, h.tools, h.messages, h.history, h.ids⟩
    have h₁ := BatchRan.persistResult
      (f := { f with session := { f.session with pendingYield := none } }) h₀ orphaned.toolCallId
      "sessions_yield" supersededText false
    exact ⟨_, ⟨h₁.tidy, h₁.tools, h₁.messages, h₁.history, h₁.ids⟩, rfl, rfl⟩

/-- The content of queued events is one more result. -/
lemma BatchRan.fillYield {f : Frame} {count : Nat}
    (h : BatchRan J d f.dir s f.session a count rs) (toolCallId content : String) :
    BatchRan J d (f.fillYield J toolCallId content).dir s
      (f.fillYield J toolCallId content).session a count
      (rs ++ [toolResult toolCallId (some "sessions_yield") content false]) ∧
    (f.fillYield J toolCallId content).session.pendingYield = none := by
  have h₀ : BatchRan J d f.dir s { f.session with pendingYield := none } a count rs :=
    ⟨h.tidy, h.tools, h.messages, h.history, h.ids⟩
  exact ⟨BatchRan.persistResult
    (f := { f with session := { f.session with pendingYield := none } }) h₀ .., by
      rw [Frame.fillYield, pendingYield_persistResult]⟩

/-- A successful `sessions_yield`. -/
lemma BatchRan.yieldTurn {f : Frame} (h : BatchRan J d f.dir s f.session a 0 rs)
    (ha : a.role = "assistant") (response : CollectedResponse) (park : YieldPark) (call : ToolCall)
    (remaining : Nat) :
    ∃ qs, BatchRan J d (f.yieldTurn J response park call remaining).1.dir s
        (f.yieldTurn J response park call remaining).1.session a remaining (rs ++ qs) ∧
      qs.filterMap (·.toolCallId) =
        (f.session.pendingYield.map (·.toolCallId)).toList ++
          (match park with
            | .live (some _) => [call.id]
            | _ => []) ∧
      (f.yieldTurn J response park call remaining).1.session.pendingYield =
        match park with
        | .live (some _) => none
        | _ => some { toolCallId := call.id, implicit := false } := by
  obtain ⟨qs, hdefer, hids, hpend⟩ := h.deferYield call
  have hstrip : BatchRan J d ((f.deferYield J call).strip remaining).dir s
      ((f.deferYield J call).strip remaining).session a remaining (rs ++ qs) :=
    hdefer.strip ha remaining
  have hpend' : ((f.deferYield J call).strip remaining).session.pendingYield =
      some { toolCallId := call.id, implicit := false } := by
    rw [Frame.strip, pendingYield_stripTrailingToolCalls, hpend]
  unfold Frame.yieldTurn
  cases park with
  | absent => exact ⟨qs, hstrip, by simpa using hids, hpend'⟩
  | live queued =>
    cases queued with
    | none => exact ⟨qs, hstrip, by simpa using hids, hpend'⟩
    | some content =>
      obtain ⟨hfill, hnone⟩ := hstrip.fillYield call.id content
      rw [List.append_assoc] at hfill
      exact ⟨_, hfill, by simp [hids], hnone⟩

end

section

variable {J : Serde} {d : SessionDir} {s : Session} {a : ChatMessage}
  {response : CollectedResponse} {park : YieldPark}

/-- The frame when the loop breaker has looked at a call. -/
def Frame.checked (f : Frame) (call : ToolCall) (ex : Execution) : Frame :=
  { f.flag call (resultContent ex.result).1 (resultContent ex.result).2 with
    breaker := (checkCall f.breaker call ex).2 }

/-- A call with its result in the request and, persisted, in the session. -/
def Frame.answeredCall (J : Serde) (f : Frame) (call : ToolCall) (ex : Execution) : Frame :=
  (((f.checked call ex).pushRequest call.id (resultContent ex.result).1
    (resultContent ex.result).2).persistResult J call.id call.name (resultContent ex.result).1
      (resultContent ex.result).2).flagDelegation call (resultContent ex.result).2 ex.asyncMode

/-- **One call of a batch**, by the way it stops the batch or not. -/
lemma executeCall_eq (f : Frame) (call : ToolCall) (remaining : Nat) (ex : Execution) :
    f.executeCall J response park call remaining ex =
      match callStop f.breaker call ex with
      | some .loop =>
        ((f.checked call ex).abortLoop J call (resultContent ex.result).1
          (resultContent ex.result).2 remaining,
          (checkCall f.breaker call ex).1.map fun reason => .done (.abort reason))
      | some .yield =>
        (((f.checked call ex).yieldTurn J response park call remaining).1,
          some ((f.checked call ex).yieldTurn J response park call remaining).2)
      | some .limit =>
        ((f.answeredCall J call ex).strip remaining, some (.done (.abort
          (.maxCalls (checkCall f.breaker call ex).2.totalCalls
            (checkCall f.breaker call ex).2.config.maxToolCalls))))
      | none => (f.answeredCall J call ex, none) := by
  have hcheck : f.breaker.recordAndCheck call.name call.arguments (resultContent ex.result).1
      ex.now = checkCall f.breaker call ex := rfl
  have hflag : (f.flag call (resultContent ex.result).1 (resultContent ex.result).2).breaker =
      f.breaker := rfl
  unfold Frame.executeCall callStop
  dsimp only
  rw [hflag, hcheck]
  cases hv : (checkCall f.breaker call ex).1 with
  | some reason => simp [Frame.checked]
  | none =>
    simp only [Option.isSome_none, Bool.false_eq_true, if_false]
    by_cases hy : isDeferredYield call (resultContent ex.result).2 = true
    · simp [hy, Frame.checked]
    · rw [if_neg hy, if_neg hy]
      have hbr : (((({ f.flag call (resultContent ex.result).1 (resultContent ex.result).2 with
          breaker := (checkCall f.breaker call ex).2 } : Frame).pushRequest call.id
            (resultContent ex.result).1 (resultContent ex.result).2).persistResult J call.id
              call.name (resultContent ex.result).1 (resultContent ex.result).2).flagDelegation call
                (resultContent ex.result).2 ex.asyncMode).breaker =
          (checkCall f.breaker call ex).2 := rfl
      rw [hbr]
      by_cases hl : (checkCall f.breaker call ex).2.totalCalls ≥
          (checkCall f.breaker call ex).2.config.maxToolCalls
      · rw [if_pos hl, if_pos hl]
        rfl
      · rw [if_neg hl, if_neg hl]
        rfl

/-- A call that is answered and does not stop the batch. -/
lemma BatchRan.answeredCall {f : Frame} {rs : List ChatMessage}
    (h : BatchRan J d f.dir s f.session a 0 rs) (call : ToolCall) (ex : Execution) :
    BatchRan J d (f.answeredCall J call ex).dir s (f.answeredCall J call ex).session a 0
      (rs ++ [toolResult call.id (some call.name) (resultContent ex.result).1
        (resultContent ex.result).2]) :=
  BatchRan.persistResult
    (f := (f.checked call ex).pushRequest call.id (resultContent ex.result).1
      (resultContent ex.result).2) h ..

lemma pendingYield_answeredCall (f : Frame) (call : ToolCall) (ex : Execution) :
    (f.answeredCall J call ex).session.pendingYield = f.session.pendingYield := by
  unfold Frame.answeredCall Frame.flagDelegation
  rw [pendingYield_persistResult]
  rfl

lemma exists_reason_of_loop {breaker : LoopBreakerCounter} {call : ToolCall} {ex : Execution}
    (h : callStop breaker call ex = some .loop) :
    ∃ reason, (checkCall breaker call ex).1 = some reason := by
  unfold callStop at h
  dsimp only at h
  split_ifs at h with h₁ h₂ h₃
  · exact Option.isSome_iff_exists.1 h₁
  · cases h
  · cases h

/-- **The calls of a batch add what the trace says**: a tool message for each answered id, and the
stripped calls are gone from memory. -/
theorem executeCalls_ran (ha : a.role = "assistant") (response : CollectedResponse)
    (park : YieldPark) (calls : List ToolCall) (exs : List Execution) {f : Frame}
    {rs : List ChatMessage}
    (h : BatchRan J d f.dir s f.session a 0 rs) :
    ∃ qs, BatchRan J d (Frame.executeCalls J response park f calls exs).1.dir s
        (Frame.executeCalls J response park f calls exs).1.session a
        (traceBatch f.breaker calls exs).stripped.length (rs ++ qs) ∧
      qs.filterMap (·.toolCallId) =
        (traceBatch f.breaker calls exs).answered f.session.pendingYield park ∧
      (Frame.executeCalls J response park f calls exs).1.session.pendingYield =
        (traceBatch f.breaker calls exs).pendingAfter f.session.pendingYield park := by
  induction calls generalizing exs f rs with
  | nil => exact ⟨[], by simpa [traceBatch, BatchTrace.stripped, Frame.executeCalls] using h, rfl, rfl⟩
  | cons call rest ih =>
    cases exs with
    | nil =>
      exact ⟨[], by simpa [traceBatch, BatchTrace.stripped, Frame.executeCalls] using h, rfl, rfl⟩
    | cons ex exs =>
      rw [Frame.executeCalls, executeCall_eq, traceBatch]
      cases hs : callStop f.breaker call ex with
      | some why =>
        cases why with
        | loop =>
          obtain ⟨reason, hreason⟩ := exists_reason_of_loop hs
          obtain ⟨hran, hpend⟩ := BatchRan.abortLoop (f := f.checked call ex) h ha call
            (resultContent ex.result).1 (resultContent ex.result).2 rest.length
          simp only [hreason, Option.map_some]
          exact ⟨_, hran, rfl, hpend⟩
        | yield =>
          obtain ⟨qs, hran, hids, hpend⟩ := BatchRan.yieldTurn (f := f.checked call ex)
            h ha response park call rest.length
          exact ⟨qs, hran, hids, hpend⟩
        | limit =>
          have hran := (h.answeredCall call ex).strip ha rest.length
          refine ⟨_, hran, rfl, ?_⟩
          rw [Frame.strip, pendingYield_stripTrailingToolCalls, pendingYield_answeredCall]
          rfl
      | none =>
        have hpend := pendingYield_answeredCall (J := J) f call ex
        obtain ⟨qs, hran, hids, hafter⟩ := ih exs (h.answeredCall call ex)
        rw [hpend] at hids hafter
        rw [List.append_assoc] at hran
        refine ⟨_, hran, ?_, hafter⟩
        simp only [List.filterMap_append, hids]
        rfl

/-- **A batch adds what its trace says**, to a file that is in order. -/
theorem executeToolBatch_ran (f : Frame) (h : ∃ m arch act, Tidy J f.dir m arch act)
    (hne : response.toolCalls ≠ []) (modelId : String) (park : YieldPark) (exs : List Execution) :
    ∃ rs, BatchRan J f.dir (executeToolBatch J f response modelId park exs).1.dir f.session
        (executeToolBatch J f response modelId park exs).1.session
        (batchAssistant response modelId)
        (traceBatch f.breaker response.toolCalls exs).stripped.length rs ∧
      rs.filterMap (·.toolCallId) =
        (traceBatch f.breaker response.toolCalls exs).answered f.session.pendingYield park ∧
      (executeToolBatch J f response modelId park exs).1.session.pendingYield =
        (traceBatch f.breaker response.toolCalls exs).pendingAfter f.session.pendingYield park := by
  obtain ⟨n, hn, htidy, hfile, hsess⟩ := persistLast_push_spec h f.session
    (batchAssistant response modelId)
  have hadd : f.session.addAssistantWithTools response.text response.toolCalls
      response.reasoningContent response.thinkingSignature
      (some (response.actualModel.getD modelId)) response.usage =
        f.session.push (batchAssistant response modelId) :=
    Session.addAssistantWithTools_of_ne_nil _ _ hne ..
  unfold executeToolBatch
  dsimp only
  rw [hadd]
  have hstart : BatchRan J f.dir
      ((f.session.push (batchAssistant response modelId)).persistLast J f.dir).1 f.session
      ((f.session.push (batchAssistant response modelId)).persistLast J f.dir).2
      (batchAssistant response modelId) 0 [] :=
    ⟨htidy, by simp, hfile, by rw [hsess, stripCalls_zero]; rfl, [n], by rw [hsess], rfl, by
      simpa using hn⟩
  have hpend : ((f.session.push (batchAssistant response modelId)).persistLast J
      f.dir).2.pendingYield = f.session.pendingYield := by
    rw [hsess]
    rfl
  obtain ⟨qs, hran, hids, hafter⟩ := executeCalls_ran (f := { f with
      dir := ((f.session.push (batchAssistant response modelId)).persistLast J f.dir).1
      session := ((f.session.push (batchAssistant response modelId)).persistLast J f.dir).2
      messages := f.messages ++ [requestAssistant response] })
    (by rfl : (batchAssistant response modelId).role = "assistant") response park
    response.toolCalls exs hstart
  rw [hpend] at hids hafter
  exact ⟨qs, hran, hids, hafter⟩

end

end MyClaw
