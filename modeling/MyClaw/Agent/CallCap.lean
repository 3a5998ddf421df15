import MyClaw.Agent.BatchEffect

set_option autoImplicit false

/-!
# The cap on tool calls

`max_tool_calls` of the `[loop_breaker]` section caps the tool calls of one turn, with 0 for
unlimited.  The cap is checked twice: `record_and_check` breaks off above a cap that is not 0, and
`execute_tool_batch` stops after a call when the count has reached the cap, whatever the cap is.  So
a cap of 0 stops a turn after its first ordinary call.

## Main definitions

* `ToolTurn`, `toolTurnStep` — a turn as its tool batches.
* `CapMeansLimit` — a turn is only stopped by the cap when there is one and it is reached.
* `SparesUnlimited` — what a batch has to satisfy for that.

## Main results

* `capMeansLimit_always_iff` — the cap means its limit in every state of a turn exactly when
  every batch satisfies this.
-/

namespace MyClaw

/-- The counter of a turn: the `max_tool_calls` of the agent wins over that of the runtime
(`new_counter_with_max`, `new_counter`). -/
def newCounter (config : LoopBreakerConfig) (maxToolCalls : Option Nat) : LoopBreakerCounter :=
  match maxToolCalls with
  | some n => { config := { config with maxToolCalls := n } }
  | none => { config := config }

/-- A batch of a turn: its response, what its tools answer, and the session, the file and the
request as the batch finds them. -/
structure TurnBatch where
  dir : SessionDir
  session : Session
  messages : List ChatMessage
  turnState : TurnState
  response : CollectedResponse
  modelId : String
  park : YieldPark
  executions : List Execution

/-- A turn between two of its batches. -/
structure ToolTurn where
  breaker : LoopBreakerCounter
  /-- The number of calls that the tools of the turn have executed. -/
  executed : Nat := 0
  /-- Where the last batch has stopped. -/
  stop : Option BatchStop := none

/-- A turn that has run no batch. -/
def newToolTurn (config : LoopBreakerConfig) (maxToolCalls : Option Nat) : ToolTurn :=
  { breaker := newCounter config maxToolCalls }

/-- The turn can run one more batch: the last one has gone on, or has parked and can be woken with
content. -/
def ToolTurn.goesOn (t : ToolTurn) : Bool :=
  match t.stop with
  | none => true
  | some (.done .continue) => true
  | some (.parked _) => true
  | some _ => false

/-- The number of calls that ran in a batch. -/
def BatchTrace.executed (t : BatchTrace) : Nat := t.ran.length + t.stop.toList.length

/-- A turn after one more batch; a turn that has ended runs none. -/
def toolTurnStep (J : Serde) (t : ToolTurn) (b : TurnBatch) : ToolTurn :=
  if t.goesOn then
    let (f, stop) := executeToolBatch J
      { dir := b.dir, session := b.session, messages := b.messages, breaker := t.breaker
        turnState := b.turnState } b.response b.modelId b.park b.executions
    { breaker := f.breaker
      executed := t.executed + (traceBatch t.breaker b.response.toolCalls b.executions).executed
      stop := some stop }
  else t

/-- When the turn is aborted for its number of calls, there is a cap, and at least that many calls
have been executed. -/
def CapMeansLimit (t : ToolTurn) : Prop :=
  ∀ count limit, t.stop = some (.done (.abort (.maxCalls count limit))) →
    0 < t.breaker.config.maxToolCalls ∧ t.breaker.config.maxToolCalls ≤ t.executed

/-- Without a cap, the first call that a batch executes is one that a pattern check detects, or a
successful `sessions_yield`. -/
def SparesUnlimited (t : ToolTurn) (b : TurnBatch) : Prop :=
  t.goesOn = true → t.breaker.config.maxToolCalls = 0 →
    match b.response.toolCalls, b.executions with
    | call :: _, ex :: _ =>
      (checkCall t.breaker call ex).1.isSome = true ∨
        isDeferredYield call (resultContent ex.result).2 = true
    | _, _ => True

/-! ## The checks of the loop breaker -/

section

variable {c : LoopBreakerCounter} {count limit : Nat}

lemma checkExactRepeat_ne : c.checkExactRepeat ≠ some (.maxCalls count limit) := by
  unfold LoopBreakerCounter.checkExactRepeat
  cases c.window.reverse with
  | nil => simp
  | cons first rest =>
    dsimp only
    split_ifs <;> simp

lemma checkPingPong_ne : c.checkPingPong ≠ some (.maxCalls count limit) := by
  unfold LoopBreakerCounter.checkPingPong
  dsimp only
  by_cases hshort : c.window.length < 4 ∨ c.config.pingPongRounds < 2 ∨
      c.window.length < c.config.pingPongRounds * 2
  · rw [if_pos hshort]
    simp
  · rw [if_neg hshort]
    rcases List.take (c.config.pingPongRounds * 2) c.window.reverse with _ | ⟨a, _ | ⟨b, tail⟩⟩
    · simp
    · simp
    · dsimp only
      split_ifs <;> simp

lemma checkNoProgress_ne : c.checkNoProgress ≠ some (.maxCalls count limit) := by
  unfold LoopBreakerCounter.checkNoProgress
  cases c.window.reverse with
  | nil => simp
  | cons target rest =>
    dsimp only
    split_ifs <;> simp

/-- **The check of the counter** reports the number of calls only above a cap that is not 0. -/
lemma check_eq_maxCalls (h : c.check = some (.maxCalls count limit)) :
    0 < c.config.maxToolCalls ∧ c.config.maxToolCalls < c.totalCalls := by
  unfold LoopBreakerCounter.check at h
  split_ifs at h with hcap
  · exact hcap
  · simp only [Option.orElse_eq_orElse, Option.orElse_eq_or, Option.or_eq_some_iff] at h
    rcases h with h | ⟨-, h | ⟨-, h⟩⟩
    · exact absurd h checkExactRepeat_ne
    · exact absurd h checkPingPong_ne
    · exact absurd h checkNoProgress_ne

end

/-! ## The calls of a batch -/

section

variable {J : Serde} {response : CollectedResponse} {park : YieldPark}

@[simp] lemma breaker_deferYield (f : Frame) (call : ToolCall) :
    (f.deferYield J call).breaker = f.breaker := by
  unfold Frame.deferYield
  cases f.session.pendingYield <;> rfl

@[simp] lemma breaker_yieldTurn (f : Frame) (call : ToolCall) (remaining : Nat) :
    (f.yieldTurn J response park call remaining).1.breaker = f.breaker := by
  unfold Frame.yieldTurn
  rcases park with _ | _ | content
  · exact breaker_deferYield f call
  · exact breaker_deferYield f call
  · exact breaker_deferYield f call

/-- A call is counted. -/
lemma totalCalls_checkCall (breaker : LoopBreakerCounter) (call : ToolCall) (ex : Execution) :
    (checkCall breaker call ex).2.totalCalls = breaker.totalCalls + 1 := rfl

lemma config_checkCall (breaker : LoopBreakerCounter) (call : ToolCall) (ex : Execution) :
    (checkCall breaker call ex).2.config = breaker.config := rfl

/-- A deferred yield does not abort the batch. -/
lemma yieldTurn_ne_abort (f : Frame) (call : ToolCall) (remaining : Nat) (reason : LoopBreakReason) :
    (f.yieldTurn J response park call remaining).2 ≠ .done (.abort reason) := by
  unfold Frame.yieldTurn
  rcases park with _ | _ | content <;> simp

variable (J response park) in
/-- **A batch counts its calls**, and the configuration stays. -/
lemma executeCalls_breaker (calls : List ToolCall) (exs : List Execution) (f : Frame) :
    (Frame.executeCalls J response park f calls exs).1.breaker.totalCalls =
        f.breaker.totalCalls + (traceBatch f.breaker calls exs).executed ∧
      (Frame.executeCalls J response park f calls exs).1.breaker.config = f.breaker.config := by
  induction calls generalizing exs f with
  | nil => simp [Frame.executeCalls, traceBatch, BatchTrace.executed]
  | cons call rest ih =>
    cases exs with
    | nil => simp [Frame.executeCalls, traceBatch, BatchTrace.executed]
    | cons ex exs =>
      rw [Frame.executeCalls, executeCall_eq, traceBatch]
      cases hs : callStop f.breaker call ex with
      | some why =>
        cases why with
        | loop =>
          obtain ⟨reason, hreason⟩ := exists_reason_of_loop hs
          simp only [hreason, Option.map_some]
          exact ⟨totalCalls_checkCall .., config_checkCall ..⟩
        | yield =>
          dsimp only
          rw [breaker_yieldTurn]
          exact ⟨totalCalls_checkCall .., config_checkCall ..⟩
        | limit => exact ⟨totalCalls_checkCall .., config_checkCall ..⟩
      | none =>
        have hbreaker : (f.answeredCall J call ex).breaker = (checkCall f.breaker call ex).2 := rfl
        obtain ⟨htotal, hconfig⟩ := ih exs (f.answeredCall J call ex)
        rw [hbreaker] at htotal hconfig
        refine ⟨?_, hconfig.trans (config_checkCall ..)⟩
        rw [htotal, totalCalls_checkCall]
        simp only [BatchTrace.executed, List.length_cons]
        omega

/-- **A batch that the cap stops** has reached the cap. -/
lemma le_of_executeCalls_maxCalls (calls : List ToolCall) (exs : List Execution) (f : Frame)
    {count limit : Nat}
    (h : (Frame.executeCalls J response park f calls exs).2 =
      .done (.abort (.maxCalls count limit))) :
    f.breaker.config.maxToolCalls ≤
      f.breaker.totalCalls + (traceBatch f.breaker calls exs).executed := by
  induction calls generalizing exs f with
  | nil => simp [Frame.executeCalls] at h
  | cons call rest ih =>
    cases exs with
    | nil => simp [Frame.executeCalls] at h
    | cons ex exs =>
      rw [Frame.executeCalls, executeCall_eq] at h
      rw [traceBatch]
      cases hs : callStop f.breaker call ex with
      | some why =>
        rw [hs] at h
        cases why with
        | loop =>
          obtain ⟨reason, hreason⟩ := exists_reason_of_loop hs
          simp only [hreason, Option.map_some, BatchStop.done.injEq,
            ToolBatchOutcome.abort.injEq] at h
          have hcap := (check_eq_maxCalls (c := (checkCall f.breaker call ex).2)
            (hreason.trans (congrArg some h))).2
          rw [config_checkCall, totalCalls_checkCall] at hcap
          exact hcap.le
        | yield =>
          dsimp only at h
          exact absurd h (yieldTurn_ne_abort _ _ _ _)
        | limit =>
          have hcap : (checkCall f.breaker call ex).2.totalCalls ≥
              (checkCall f.breaker call ex).2.config.maxToolCalls := by
            unfold callStop at hs
            dsimp only at hs
            split_ifs at hs with h₁ h₂ h₃
            · cases hs
            · cases hs
            · exact h₃
          rw [config_checkCall, totalCalls_checkCall] at hcap
          exact hcap
      | none =>
        rw [hs] at h
        have hle := ih exs (f.answeredCall J call ex) h
        have hbreaker : (f.answeredCall J call ex).breaker = (checkCall f.breaker call ex).2 := rfl
        rw [hbreaker, config_checkCall, totalCalls_checkCall] at hle
        simp only [BatchTrace.executed, List.length_cons] at hle ⊢
        omega

variable (J response park) in
/-- **Without a cap** a batch is stopped by the cap exactly when its first call runs without being
detected and is no successful `sessions_yield`. -/
lemma executeCalls_unlimited (calls : List ToolCall) (exs : List Execution) (f : Frame)
    (hzero : f.breaker.config.maxToolCalls = 0) :
    (∀ count limit, (Frame.executeCalls J response park f calls exs).2 ≠
        .done (.abort (.maxCalls count limit))) ↔
      match calls, exs with
      | call :: _, ex :: _ =>
        (checkCall f.breaker call ex).1.isSome = true ∨
          isDeferredYield call (resultContent ex.result).2 = true
      | _, _ => True := by
  rcases calls with _ | ⟨call, rest⟩
  · simp [Frame.executeCalls]
  · rcases exs with _ | ⟨ex, exs⟩
    · simp [Frame.executeCalls]
    · dsimp only
      rw [Frame.executeCalls, executeCall_eq]
      by_cases hloop : (checkCall f.breaker call ex).1.isSome = true
      · have hs : callStop f.breaker call ex = some .loop := by simp [callStop, hloop]
        obtain ⟨reason, hreason⟩ := exists_reason_of_loop hs
        simp only [hs, hreason, Option.map_some, Option.isSome_some, true_or, iff_true]
        rintro count limit h
        obtain rfl : reason = .maxCalls count limit := by simpa using h
        have hcap := (check_eq_maxCalls (c := (checkCall f.breaker call ex).2) hreason).1
        rw [config_checkCall] at hcap
        omega
      · by_cases hyield : isDeferredYield call (resultContent ex.result).2 = true
        · have hs : callStop f.breaker call ex = some .yield := by simp [callStop, hloop, hyield]
          simp only [hs, hyield, or_true, iff_true]
          exact fun count limit => yieldTurn_ne_abort _ _ _ _
        · have hs : callStop f.breaker call ex = some .limit := by
            simp [callStop, hloop, hyield, config_checkCall, hzero]
          simp [hs, hloop, hyield]

end

/-! ## Turns -/

/-- The counter counts the calls of the turn. -/
def CountsCalls (t : ToolTurn) : Prop := t.breaker.totalCalls = t.executed

section

variable {J : Serde} {t : ToolTurn}

lemma toolTurnStep_of_not_goesOn (h : t.goesOn ≠ true) (b : TurnBatch) :
    toolTurnStep J t b = t := if_neg h

/-- The frame in which the calls of a batch run, the assistant message being written. -/
def TurnBatch.startFrame (J : Serde) (b : TurnBatch) (breaker : LoopBreakerCounter) : Frame :=
  let session := b.session.addAssistantWithTools b.response.text b.response.toolCalls
    b.response.reasoningContent b.response.thinkingSignature
    (some (b.response.actualModel.getD b.modelId)) b.response.usage
  { dir := (session.persistLast J b.dir).1
    session := (session.persistLast J b.dir).2
    messages := b.messages ++ [requestAssistant b.response]
    breaker := breaker
    turnState := b.turnState }

lemma toolTurnStep_of_goesOn (h : t.goesOn = true) (b : TurnBatch) :
    toolTurnStep J t b =
      { breaker := (Frame.executeCalls J b.response b.park (b.startFrame J t.breaker)
          b.response.toolCalls b.executions).1.breaker
        executed := t.executed + (traceBatch t.breaker b.response.toolCalls b.executions).executed
        stop := some (Frame.executeCalls J b.response b.park (b.startFrame J t.breaker)
          b.response.toolCalls b.executions).2 } := if_pos h

/-- **Batches are counted.** -/
lemma CountsCalls.step (h : CountsCalls t) (b : TurnBatch) : CountsCalls (toolTurnStep J t b) := by
  by_cases hgo : t.goesOn = true
  · rw [toolTurnStep_of_goesOn hgo]
    have hcalls := (executeCalls_breaker J b.response b.park b.response.toolCalls
      b.executions (b.startFrame J t.breaker)).1
    show _ = _
    rw [hcalls]
    exact congrArg (· + _) h
  · rwa [toolTurnStep_of_not_goesOn hgo]

/-- **One more batch** keeps the meaning of the cap exactly when it spares an unlimited turn. -/
lemma CountsCalls.capMeansLimit_iff (h : CountsCalls t) (hcap : CapMeansLimit t) (b : TurnBatch) :
    CapMeansLimit (toolTurnStep J t b) ↔ SparesUnlimited t b := by
  by_cases hgo : t.goesOn = true
  · rw [toolTurnStep_of_goesOn hgo]
    have hconfig := (executeCalls_breaker J b.response b.park b.response.toolCalls
      b.executions (b.startFrame J t.breaker)).2
    have hbreaker : (b.startFrame J t.breaker).breaker = t.breaker := rfl
    rw [hbreaker] at hconfig
    rcases Nat.eq_zero_or_pos t.breaker.config.maxToolCalls with hzero | hpos
    · have hiff := executeCalls_unlimited J b.response b.park b.response.toolCalls b.executions
        (b.startFrame J t.breaker) hzero
      rw [SparesUnlimited, forall_prop_of_true hgo, forall_prop_of_true hzero]
      refine Iff.trans ?_ hiff
      refine forall₂_congr fun count limit => ?_
      simp [hconfig, hzero]
    · constructor
      · intro _ _ hzero
        omega
      · intro _ count limit hstop
        have hle := le_of_executeCalls_maxCalls b.response.toolCalls b.executions
          (b.startFrame J t.breaker) (Option.some.inj hstop)
        rw [hbreaker, h] at hle
        rw [hconfig]
        exact ⟨hpos, hle⟩
  · rw [toolTurnStep_of_not_goesOn hgo]
    exact ⟨fun _ hgo' => absurd hgo' hgo, fun _ => hcap⟩

end

/-- **The cap on tool calls**: in every state of a turn, whatever its batches are, the turn is only
aborted for its number of calls under a cap that is not 0 and that is reached, exactly when, without
a cap, no batch executes an ordinary call first. -/
theorem capMeansLimit_always_iff (J : Serde) (config : LoopBreakerConfig)
    (maxToolCalls : Option Nat) (bs : List TurnBatch) :
    Run.Always (toolTurnStep J) CapMeansLimit (newToolTurn config maxToolCalls) bs ↔
      Run.EachStep (toolTurnStep J) SparesUnlimited (newToolTurn config maxToolCalls) bs := by
  refine Run.always_iff_eachStep (I := CountsCalls) (fun _ b h => h.step b)
    (fun _ b h hcap => h.capMeansLimit_iff hcap b) ?_ ?_
  · cases maxToolCalls <;> rfl
  · intro count limit hstop
    cases hstop

/-! ## An unlimited turn -/

namespace UnlimitedTurn

/-- A batch with one shell call, in a new session. -/
def batch : TurnBatch :=
  { dir := SessionDir.createSession, session := {}, messages := [], turnState := {}
    response := { text := "", toolCalls := [{ id := "a", name := "shell", arguments := "ls" }] }
    modelId := "model", park := .absent
    executions := [{ result := .ok { success := true, output := "files", error := none }, now := 0 }] }

end UnlimitedTurn

open UnlimitedTurn in
/-- With `max_tool_calls = 0` the first shell call aborts the turn. -/
theorem not_capMeansLimit_always_unlimited :
    ¬ Run.Always (toolTurnStep plainSerde) CapMeansLimit
      (newToolTurn { maxToolCalls := 0 } none) [batch] := by
  rintro ⟨hfirst, hsecond⟩
  have hspares := (CountsCalls.capMeansLimit_iff (J := plainSerde)
    (t := newToolTurn { maxToolCalls := 0 } none) rfl hfirst batch).1 hsecond rfl rfl
  rcases hspares with hloop | hyield
  · exact absurd hloop (by decide +kernel)
  · exact absurd hyield (by decide +kernel)

end MyClaw
