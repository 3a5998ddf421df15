import MyClaw.Agent.BatchEffect
import MyClaw.Session.RoundTrip

set_option autoImplicit false

/-!
# Runs of an agent's session

The machine of a session that an agent works on: plain messages, tool batches, results for a
pending yield, framework yields, recovery, compactions and restarts, in any order.  A batch that
waits for an event gives up the locks, so what other tasks do meanwhile and the end of the wait are
events of their own.

## Main definitions

* `AgentEvent`, `agentStep` — the machine.
* `AgentInv` — what every event keeps: the file is in order, and memory declares and answers
  nothing that the file does not.

## Main results

* `AgentInv.step` — every event keeps it.
-/

namespace MyClaw

/-! ## The machine -/

/-- A message without tool traffic. -/
def Inert (msg : ChatMessage) : Prop :=
  msg.role ≠ "tool" ∧ (msg.role = "assistant" → msg.calls = [])

instance (msg : ChatMessage) : Decidable (Inert msg) :=
  inferInstanceAs (Decidable (_ ∧ (_ → _)))

/-- What happens to the session of an agent. -/
inductive AgentEvent
  /-- A message, a compaction or a restart; only a message without tool traffic is added so. -/
  | live (e : LiveEvent)
  /-- A tool batch; the counter of the loop breaker belongs to the turn. -/
  | batch (breaker : LoopBreakerCounter) (response : CollectedResponse) (modelId : String)
      (park : YieldPark) (executions : List Execution)
  /-- A parked task wakes. -/
  | wake (toolCallId : String) (outcome : Option String)
  /-- Another task writes the result of the pending yield: queued events or an interjection. -/
  | fill (content : String)
  /-- `insert_implicit_yield`, with the text of a fresh UUID. -/
  | implicitYield (uuid : String)
  /-- `run_recovery`, with the result that it makes up for a call. -/
  | recover (closing : ToolCall → String × Bool)

/-- The session as the frame of a batch. -/
def Live.frame (s : Live) (breaker : LoopBreakerCounter) : Frame :=
  { dir := s.dir, session := s.session, messages := [], breaker := breaker }

/-- The session that a frame works on. -/
def Frame.live (f : Frame) : Live := { dir := f.dir, session := f.session }

/-- `add_tool_result` and `persist_last`. -/
def Live.persistResult (J : Serde) (s : Live) (toolCallId name content : String)
    (isError : Bool) : Live :=
  let (dir, session) := (s.session.addToolResult toolCallId name content isError).persistLast J s.dir
  { dir := dir, session := session }

/-- The pending yield is taken and gets its result. -/
def Live.fillYield (J : Serde) (s : Live) (pending : PendingYield) (content : String) : Live :=
  { s with session := { s.session with pendingYield := none } }.persistResult J pending.toolCallId
    "sessions_yield" content false

/-- The walk of `run_recovery` from the last message backwards: the calls of the last assistant
message that no tool message after it answers. -/
def unansweredTail (completed : List String) : List ChatMessage → List ToolCall
  | [] => []
  | msg :: rest =>
    if msg.role = "tool" then unansweredTail (msg.toolCallId.toList ++ completed) rest
    else if msg.role = "assistant" then
      msg.calls.filter fun call => !completed.contains call.id
    else []

/-- The calls that `run_recovery` closes: none when the only one is the pending yield, which is
waited for instead. -/
def recoveredCalls (session : Session) : List ToolCall :=
  match unansweredTail [] session.history.reverse with
  | [call] =>
    if call.name = "sessions_yield" ∧ session.pendingYield.any (·.toolCallId = call.id) then []
    else [call]
  | calls => calls

/-- The session after an event. -/
def agentStep (J : Serde) (s : Live) : AgentEvent → Live
  | .live (.turn msg) => if Inert msg then liveStep J s (.turn msg) else s
  | .live e => liveStep J s e
  | .batch breaker response modelId park executions =>
    if response.toolCalls = [] then s
    else (executeToolBatch J (s.frame breaker) response modelId park executions).1.live
  | .wake toolCallId outcome =>
    (wakeFromPark J (s.frame { config := {} }) toolCallId outcome).1.live
  | .fill content =>
    match s.session.pendingYield with
    | none => s
    | some pending => s.fillYield J pending content
  | .implicitYield uuid =>
    let (dir, session) := s.session.insertImplicitYield J s.dir (implicitYieldPrefix ++ uuid)
    { dir := dir, session := session }
  | .recover closing =>
    (recoveredCalls s.session).foldl
      (fun s call => s.persistResult J call.id call.name (closing call).1 (closing call).2) s

/-! ## Declared and answered calls of added messages -/

section

variable {ms : List ChatMessage} {id : String}

lemma declared_inert {msg : ChatMessage} (h : Inert msg) : ¬ Declared [msg] id := by
  rintro ⟨m, hm, ha, hid⟩
  rw [List.mem_singleton.1 hm] at ha hid
  simp [ChatMessage.callIds, h.2 ha] at hid

lemma declared_tools {rs : List ChatMessage} (h : ∀ m ∈ rs, m.role = "tool") :
    ¬ Declared rs id := by
  rintro ⟨m, hm, ha, -⟩
  exact absurd (ha.symm.trans (h m hm)) (by decide)

lemma answered_tools {rs : List ChatMessage} (h : ∀ m ∈ rs, m.role = "tool") :
    Answered rs id ↔ id ∈ rs.filterMap (·.toolCallId) := by
  rw [List.mem_filterMap]
  exact exists_congr fun m => and_congr_right fun hm => and_iff_right (h m hm)

lemma declared_assistant {a : ChatMessage} (ha : a.role = "assistant") :
    Declared [a] id ↔ id ∈ a.callIds := by
  simp [Declared, ha]

lemma answered_assistant {a : ChatMessage} (ha : a.role = "assistant") : ¬ Answered [a] id := by
  rintro ⟨m, hm, ht, -⟩
  rw [List.mem_singleton.1 hm, ha] at ht
  exact absurd ht (by decide)

/-- The calls that an assistant message with its results adds. -/
lemma declared_append_round {rs : List ChatMessage} (h : ∀ m ∈ rs, m.role = "tool")
    {a : ChatMessage} (ha : a.role = "assistant") :
    Declared (ms ++ a :: rs) id ↔ Declared ms id ∨ id ∈ a.callIds := by
  rw [declared_append, ← List.singleton_append, declared_append, declared_assistant ha]
  simp [declared_tools h]

/-- The results that an assistant message with its results adds. -/
lemma answered_append_round {rs : List ChatMessage} (h : ∀ m ∈ rs, m.role = "tool")
    {a : ChatMessage} (ha : a.role = "assistant") :
    Answered (ms ++ a :: rs) id ↔ Answered ms id ∨ id ∈ rs.filterMap (·.toolCallId) := by
  rw [answered_append, ← List.singleton_append, answered_append, answered_tools h]
  simp [answered_assistant ha]

end

/-! ## Sessions that grow -/

/-- Messages `ms` were added to the file and messages `ns` in the same number to the session, each
under an id that is not 0. -/
structure Grown (J : Serde) (s s' : Live) (ms ns : List ChatMessage) : Prop where
  tidy : ∃ m arch act, Tidy J s'.dir m arch act
  messages : s'.dir.messages J = s.dir.messages J ++ ms
  history : s'.session.history = s.session.history ++ ns
  ids : ∃ is, s'.session.messageIds = s.session.messageIds ++ is ∧ is.length = ns.length ∧
    ∀ i ∈ is, i ≠ 0

section

variable {J : Serde} {s s' : Live}

lemma Grown.refl (h : ∃ m arch act, Tidy J s.dir m arch act) : Grown J s s [] [] where
  tidy := h
  messages := by simp
  history := by simp
  ids := ⟨[], by simp⟩

lemma Grown.trans {s'' : Live} {ms ns ms' ns' : List ChatMessage} (h : Grown J s s' ms ns)
    (h' : Grown J s' s'' ms' ns') : Grown J s s'' (ms ++ ms') (ns ++ ns') where
  tidy := h'.tidy
  messages := by rw [h'.messages, h.messages, List.append_assoc]
  history := by rw [h'.history, h.history, List.append_assoc]
  ids := by
    obtain ⟨is, his, hlen, hne⟩ := h.ids
    obtain ⟨is', his', hlen', hne'⟩ := h'.ids
    refine ⟨is ++ is', by rw [his', his, List.append_assoc], by simp [hlen, hlen'], ?_⟩
    intro i hi
    exact (List.mem_append.1 hi).elim (hne i) (hne' i)

/-- A message that is pushed and persisted. -/
lemma grown_push (h : ∃ m arch act, Tidy J s.dir m arch act) (msg : ChatMessage) :
    Grown J s { dir := ((s.session.push msg).persistLast J s.dir).1,
                session := ((s.session.push msg).persistLast J s.dir).2 } [msg] [msg] := by
  obtain ⟨n, hn, htidy, hfile, hsess⟩ := persistLast_push_spec h s.session msg
  exact ⟨htidy, hfile, by rw [hsess]; rfl, [n], by rw [hsess], rfl, by simpa using hn⟩

/-- A result that is added and persisted. -/
lemma grown_persistResult (h : ∃ m arch act, Tidy J s.dir m arch act)
    (toolCallId name content : String) (isError : Bool) :
    Grown J s (s.persistResult J toolCallId name content isError)
      [toolResult toolCallId (some name) content isError]
      [toolResult toolCallId (some name) content isError] :=
  grown_push h _

@[simp] lemma pendingYield_live_persistResult (J : Serde) (s : Live)
    (toolCallId name content : String) (isError : Bool) :
    (s.persistResult J toolCallId name content isError).session.pendingYield =
      s.session.pendingYield := by
  simp only [Live.persistResult, Session.persistLast, Session.addToolResult]
  split
  · rfl
  · split <;> rfl

@[simp] lemma pendingYield_fillYield (J : Serde) (s : Live) (pending : PendingYield)
    (content : String) : (s.fillYield J pending content).session.pendingYield = none := by
  rw [Live.fillYield, pendingYield_live_persistResult]

/-- The pending yield gets its result. -/
lemma grown_fillYield (h : ∃ m arch act, Tidy J s.dir m arch act) (pending : PendingYield)
    (content : String) :
    Grown J s (s.fillYield J pending content)
      [toolResult pending.toolCallId (some "sessions_yield") content false]
      [toolResult pending.toolCallId (some "sessions_yield") content false] := by
  have hg := grown_persistResult
    (s := { s with session := { s.session with pendingYield := none } }) h pending.toolCallId
    "sessions_yield" content false
  exact ⟨hg.tidy, hg.messages, hg.history, hg.ids⟩

/-- The results of the calls that a recovery closes. -/
def closingResults (closing : ToolCall → String × Bool) (calls : List ToolCall) :
    List ChatMessage :=
  calls.map fun call => toolResult call.id (some call.name) (closing call).1 (closing call).2

lemma filterMap_closingResults (closing : ToolCall → String × Bool) (calls : List ToolCall) :
    (closingResults closing calls).filterMap (·.toolCallId) = calls.map (·.id) := by
  simp [closingResults, List.filterMap_map, Function.comp_def]

/-- The messages that an event other than a compaction or a restart adds to the file. -/
lemma grown_recover (h : ∃ m arch act, Tidy J s.dir m arch act)
    (closing : ToolCall → String × Bool) (calls : List ToolCall) :
    Grown J s (calls.foldl (fun s call =>
        s.persistResult J call.id call.name (closing call).1 (closing call).2) s)
      (closingResults closing calls) (closingResults closing calls) := by
  induction calls generalizing s with
  | nil => exact Grown.refl h
  | cons call calls ih =>
    have h₁ := grown_persistResult h call.id call.name (closing call).1 (closing call).2
    exact h₁.trans (ih h₁.tidy)

/-- A recovery leaves the pending yield as it is. -/
lemma pendingYield_recover (closing : ToolCall → String × Bool) :
    (agentStep J s (.recover closing)).session.pendingYield = s.session.pendingYield := by
  simp only [agentStep]
  generalize recoveredCalls s.session = calls
  induction calls generalizing s with
  | nil => rfl
  | cons call calls ih => rw [List.foldl_cons, ih, pendingYield_live_persistResult]

/-- The framework's yield is an assistant message with one call. -/
lemma grown_implicitYield (h : ∃ m arch act, Tidy J s.dir m arch act) (uuid : String) :
    ∃ a, a.role = "assistant" ∧
      a.calls = [{ id := implicitYieldPrefix ++ uuid, name := "sessions_yield",
                   arguments := "\x7b\x7d" }] ∧
      Grown J s (agentStep J s (.implicitYield uuid)) [a] [a] ∧
      (agentStep J s (.implicitYield uuid)).session.pendingYield =
        some { toolCallId := implicitYieldPrefix ++ uuid, implicit := true } := by
  set call : ToolCall :=
    { id := implicitYieldPrefix ++ uuid, name := "sessions_yield", arguments := "\x7b\x7d" }
    with hcall
  have hg := grown_push h (Session.assistantWithTools "" [call] none none none none)
  refine ⟨Session.assistantWithTools "" [call] none none none none, rfl, rfl, ?_, rfl⟩
  have hstep : agentStep J s (.implicitYield uuid) =
      { dir := ((s.session.push (Session.assistantWithTools "" [call] none none none
          none)).persistLast J s.dir).1
        session := { ((s.session.push (Session.assistantWithTools "" [call] none none none
          none)).persistLast J s.dir).2 with
            pendingYield :=
              some { toolCallId := implicitYieldPrefix ++ uuid, implicit := true } } } := by
    simp only [agentStep, Session.insertImplicitYield, ← hcall,
      Session.addAssistantWithTools_of_ne_nil s.session "" (List.cons_ne_nil call [])]
  rw [hstep]
  exact ⟨hg.tidy, hg.messages, hg.history, hg.ids⟩

/-- A tool batch, with its trace. -/
lemma grown_batch (h : ∃ m arch act, Tidy J s.dir m arch act) (breaker : LoopBreakerCounter)
    {response : CollectedResponse} (hne : response.toolCalls ≠ []) (modelId : String)
    (park : YieldPark) (exs : List Execution) :
    ∃ rs, (∀ m ∈ rs, m.role = "tool") ∧
      rs.filterMap (·.toolCallId) =
        (traceBatch breaker response.toolCalls exs).answered s.session.pendingYield park ∧
      Grown J s (agentStep J s (.batch breaker response modelId park exs))
        (batchAssistant response modelId :: rs)
        (stripCalls (traceBatch breaker response.toolCalls exs).stripped.length
          (batchAssistant response modelId) :: rs) ∧
      (agentStep J s (.batch breaker response modelId park exs)).session.pendingYield =
        (traceBatch breaker response.toolCalls exs).pendingAfter s.session.pendingYield park := by
  obtain ⟨rs, hran, hids, hpend⟩ := executeToolBatch_ran (s.frame breaker) h hne modelId park exs
  refine ⟨rs, hran.tools, hids, ?_, ?_⟩
  · rw [agentStep, if_neg hne]
    exact ⟨hran.tidy, hran.messages, hran.history, hran.ids⟩
  · rw [agentStep, if_neg hne]
    exact hpend

/-- A parked task that wakes fills the yield that is still the pending one. -/
lemma agentStep_wake (toolCallId : String) (outcome : Option String) :
    agentStep J s (.wake toolCallId outcome) = s ∨
      ∃ content, outcome = some content ∧ agentStep J s (.wake toolCallId outcome) =
        s.fillYield J { toolCallId := toolCallId, implicit := false } content ∧
        s.session.pendingYield.map (·.toolCallId) = some toolCallId := by
  cases outcome with
  | none => exact .inl rfl
  | some content =>
    by_cases hp : s.session.pendingYield.any (·.toolCallId = toolCallId) = true
    · refine .inr ⟨content, rfl, ?_, ?_⟩
      · have hp' : (s.frame { config := {} }).session.pendingYield.any
            (·.toolCallId = toolCallId) = true := hp
        simp only [agentStep, wakeFromPark, hp', if_true]
        rfl
      · simpa [Option.any_eq_true] using hp
    · have hp' : ¬ (s.frame { config := {} }).session.pendingYield.any
          (·.toolCallId = toolCallId) = true := hp
      simp only [agentStep, wakeFromPark, hp']
      exact .inl rfl

end

/-! ## The invariant -/

/-- The file is in order, every message without an id is inert, and memory declares and answers
only what the file does. -/
structure AgentInv (J : Serde) (s : Live) : Prop where
  tidy : ∃ m arch act, Tidy J s.dir m arch act
  ids : s.session.messageIds.length = s.session.history.length
  inert : ∀ p ∈ s.session.messageIds.zip s.session.history, p.1 = 0 → Inert p.2
  declared : ∀ id, Declared s.session.history id → Declared (s.dir.messages J) id
  answered : ∀ id, Answered s.session.history id → Answered (s.dir.messages J) id

section

variable {J : Serde} {s s' : Live}

lemma AgentInv.grown (h : AgentInv J s) {ms ns : List ChatMessage} (hg : Grown J s s' ms ns)
    (hd : ∀ id, Declared ns id → Declared ms id) (ha : ∀ id, Answered ns id → Answered ms id) :
    AgentInv J s' := by
  obtain ⟨is, his, hlen, hne⟩ := hg.ids
  refine ⟨hg.tidy, by rw [his, hg.history, List.length_append, List.length_append, h.ids, hlen],
    ?_, fun id => ?_, fun id => ?_⟩
  · rw [his, hg.history, List.zip_append h.ids]
    intro p hp h₀
    rcases List.mem_append.1 hp with hp | hp
    · exact h.inert p hp h₀
    · exact absurd h₀ (hne p.1 (List.of_mem_zip hp).1)
  · rw [hg.history, hg.messages, declared_append, declared_append]
    exact Or.imp (h.declared id) (hd id)
  · rw [hg.history, hg.messages, answered_append, answered_append]
    exact Or.imp (h.answered id) (ha id)

/-- The calls that memory keeps are calls of the message. -/
lemma callIds_stripCalls_subset (count : Nat) (a : ChatMessage) :
    (stripCalls count a).callIds ⊆ a.callIds := by
  have h : (stripCalls count a).calls = a.calls.take (a.calls.length - count) := by
    cases hc : a.toolCalls <;> simp [stripCalls, ChatMessage.calls, hc]
  unfold ChatMessage.callIds
  rw [h]
  exact List.map_subset _ (List.take_subset _ _)

/-! ## Compaction -/

/-- The rows of memory after a compaction of a range. -/
def compactedRows (s : Live) (compactStart compactEnd : Nat) (summary : String) :
    List (Int × ChatMessage) :=
  (s.session.messageIds.take compactStart ++ 0 :: s.session.messageIds.drop compactEnd).zip
    (s.session.history.take compactStart ++
      ChatMessage.userText summary :: s.session.history.drop compactEnd)

/-- **A compaction** rewrites the file with the rows of memory that have an id. -/
lemma compact_spec (h : ∃ m arch act, Tidy J s.dir m arch act) {compactStart compactEnd : Nat}
    (hrange : compactStart ≤ compactEnd ∧ compactEnd ≤ s.session.history.length)
    (summary : String) (version : Nat) (upToMessage : Int) (summaryTokens : Nat)
    (renumber : Bool) {s' : Live} (hs' : s' = liveStep J s (.compact compactStart compactEnd summary
      version upToMessage summaryTokens renumber)) :
    (∃ m arch act, Tidy J s'.dir m arch act) ∧
      s'.dir.messages J =
        SessionDir.realMessages (compactedRows s compactStart compactEnd summary) ∧
      s'.session.history = s.session.history.take compactStart ++
        ChatMessage.userText summary :: s.session.history.drop compactEnd ∧
      s'.session.messageIds =
        (if renumber then renumberedIds else fun _ => s.session.messageIds.take compactStart ++
          0 :: s.session.messageIds.drop compactEnd)
        (s.session.messageIds.take compactStart ++ 0 ::
          s.session.messageIds.drop compactEnd).length ∧
      s'.session.pendingYield = s.session.pendingYield := by
  obtain ⟨m, arch, act, ht⟩ := h
  have hsum := ht.saveSummary
    { version := version, summary := summary, tokenEstimate := some summaryTokens }
  obtain ⟨m', -, h'⟩ := hsum.rotate (compactedRows s compactStart compactEnd summary)
  have hms := hsum.messages_rotate (J := J) (compactedRows s compactStart compactEnd summary)
  simp only [liveStep, if_pos hrange] at hs'
  subst hs'
  refine ⟨⟨_, _, _, h'⟩, hms, ?_, ?_, ?_⟩ <;> cases renumber <;> rfl

lemma inert_userText (t : String) : Inert (ChatMessage.userText t) := by
  constructor
  · rw [ChatMessage.userText, ChatMessage.role_text]
    decide
  · exact fun _ => rfl

lemma zip_append_sub {ids : List Int} {ms : List ChatMessage} (h : ids.length = ms.length)
    {a b : Nat} {msg : ChatMessage} {p : Int × ChatMessage}
    (hp : p ∈ (ids.take a ++ 0 :: ids.drop b).zip (ms.take a ++ msg :: ms.drop b)) :
    p ∈ ids.zip ms ∨ p = (0, msg) := by
  rw [List.zip_append (by simp [h]), List.zip_cons_cons, List.mem_append, List.mem_cons] at hp
  rcases hp with hp | hp | hp
  · have htake : (ids.take a).zip (ms.take a) = (ids.zip ms).take a := List.take_zipWith.symm
    exact .inl (List.mem_of_mem_take (htake ▸ hp))
  · exact .inr hp
  · have hdrop : (ids.drop b).zip (ms.drop b) = (ids.zip ms).drop b := List.drop_zipWith.symm
    exact .inl (List.mem_of_mem_drop (hdrop ▸ hp))

/-- What the messages with an id declare and answer is what all do, when the others are inert. -/
lemma declared_realMessages {rows : List (Int × ChatMessage)}
    (h : ∀ p ∈ rows, p.1 = 0 → Inert p.2) (id : String) :
    Declared (SessionDir.realMessages rows) id ↔ Declared (rows.map Prod.snd) id := by
  constructor
  · rintro ⟨m, hm, hdecl⟩
    exact ⟨m, (List.filter_sublist.map Prod.snd).subset hm, hdecl⟩
  · rintro ⟨m, hm, ha, hid⟩
    obtain ⟨p, hp, rfl⟩ := List.mem_map.1 hm
    have hp₀ : p.1 ≠ 0 := fun h₀ => by
      simp [ChatMessage.callIds, (h p hp h₀).2 ha] at hid
    exact ⟨p.2, List.mem_map_of_mem (List.mem_filter.2 ⟨hp, by simpa using hp₀⟩), ha, hid⟩

lemma answered_realMessages {rows : List (Int × ChatMessage)}
    (h : ∀ p ∈ rows, p.1 = 0 → Inert p.2) (id : String) :
    Answered (SessionDir.realMessages rows) id ↔ Answered (rows.map Prod.snd) id := by
  constructor
  · rintro ⟨m, hm, hans⟩
    exact ⟨m, (List.filter_sublist.map Prod.snd).subset hm, hans⟩
  · rintro ⟨m, hm, ht, hid⟩
    obtain ⟨p, hp, rfl⟩ := List.mem_map.1 hm
    have hp₀ : p.1 ≠ 0 := fun h₀ => (h p hp h₀).1 ht
    exact ⟨p.2, List.mem_map_of_mem (List.mem_filter.2 ⟨hp, by simpa using hp₀⟩), ht, hid⟩

/-- The rows of a compacted memory without an id are inert, and hold its history. -/
lemma AgentInv.compactedRows (h : AgentInv J s) (compactStart compactEnd : Nat)
    (summary : String) :
    (∀ p ∈ MyClaw.compactedRows s compactStart compactEnd summary, p.1 = 0 → Inert p.2) ∧
      (MyClaw.compactedRows s compactStart compactEnd summary).map Prod.snd =
        s.session.history.take compactStart ++
          ChatMessage.userText summary :: s.session.history.drop compactEnd := by
  constructor
  · intro p hp h₀
    rcases zip_append_sub h.ids hp with hp | rfl
    · exact h.inert p hp h₀
    · exact inert_userText summary
  · exact List.map_snd_zip (by simp [h.ids])

/-- After a compaction memory and file declare and answer the same calls. -/
lemma AgentInv.compact (h : AgentInv J s) {compactStart compactEnd : Nat}
    (hrange : compactStart ≤ compactEnd ∧ compactEnd ≤ s.session.history.length)
    (summary : String) (version : Nat) (upToMessage : Int) (summaryTokens : Nat)
    (renumber : Bool) {s' : Live} (hs' : s' = liveStep J s (.compact compactStart compactEnd summary
      version upToMessage summaryTokens renumber)) :
    AgentInv J s' ∧ ∀ id, (Declared (s'.dir.messages J) id ↔ Declared s'.session.history id) ∧
      (Answered (s'.dir.messages J) id ↔ Answered s'.session.history id) := by
  obtain ⟨htidy, hms, hhist, hids, -⟩ :=
    compact_spec h.tidy hrange summary version upToMessage summaryTokens renumber hs'
  obtain ⟨hinert, hrows⟩ := h.compactedRows compactStart compactEnd summary
  have hdecl : ∀ id, Declared (s'.dir.messages J) id ↔ Declared s'.session.history id := by
    intro id
    rw [hms, declared_realMessages hinert, hrows, hhist]
  have hans : ∀ id, Answered (s'.dir.messages J) id ↔ Answered s'.session.history id := by
    intro id
    rw [hms, answered_realMessages hinert, hrows, hhist]
  refine ⟨⟨htidy, ?_, ?_, fun id => (hdecl id).2, fun id => (hans id).2⟩, fun id =>
    ⟨hdecl id, hans id⟩⟩
  · rw [hids, hhist]
    cases renumber <;> simp [renumberedIds, h.ids]
  · intro p hp h₀
    rw [hids, hhist] at hp
    cases renumber with
    | true =>
      have hmem := (List.of_mem_zip hp).1
      simp only [if_true, renumberedIds, List.mem_map, List.mem_range] at hmem
      obtain ⟨i, -, hi⟩ := hmem
      omega
    | false => exact hinert p hp h₀

/-! ## Restart -/

/-- After a restart memory is the file without orphan results. -/
lemma AgentInv.restart (h : AgentInv J s) :
    AgentInv J { s with session := loadSession J s.dir } := by
  obtain ⟨m, arch, act, ht⟩ := h.tidy
  have hhist := ht.history_loadSession (J := J) ht.startId_pos
  refine ⟨⟨m, arch, act, ht⟩, length_messageIds_loadSession J s.dir, ?_, ?_, ?_⟩
  · intro p hp h₀
    have hpos : p.1 ∈ (loadSession J s.dir).messageIds := (List.of_mem_zip hp).1
    have hrows : ∀ i ∈ (loadSession J s.dir).messageIds, 0 < i := by
      intro i hi
      simp only [loadSession, List.mem_map] at hi
      obtain ⟨r, hr, rfl⟩ := hi
      have hmem : r ∈ s.dir.loadIncremental J 0 := by
        split at hr
        · exact List.mem_of_mem_filter hr
        · exact List.mem_of_mem_filter ((List.rdropWhile_prefix _ _).subset hr)
      simpa [SessionDir.loadIncremental] using (List.mem_filter.1 hmem).2
    have := hrows p.1 hpos
    omega
  · rintro id ⟨msg, hmem, hdecl⟩
    rw [hhist] at hmem
    exact ⟨msg, List.mem_of_mem_filter hmem, hdecl⟩
  · rintro id ⟨msg, hmem, hans⟩
    rw [hhist] at hmem
    exact ⟨msg, List.mem_of_mem_filter hmem, hans⟩

/-- **Every event keeps the invariant.** -/
theorem AgentInv.step (h : AgentInv J s) (e : AgentEvent) :
    AgentInv J (agentStep J s e) := by
  cases e with
  | live e =>
    cases e with
    | turn msg =>
      by_cases hm : Inert msg
      · rw [agentStep, if_pos hm]
        exact h.grown (grown_push h.tidy msg) (fun _ => id) fun _ => id
      · rw [agentStep, if_neg hm]
        exact h
    | compact compactStart compactEnd summary version upToMessage summaryTokens renumber =>
      by_cases hrange : compactStart ≤ compactEnd ∧ compactEnd ≤ s.session.history.length
      · exact (h.compact hrange summary version upToMessage summaryTokens renumber rfl).1
      · have hsame : agentStep J s (.live (.compact compactStart compactEnd summary version
            upToMessage summaryTokens renumber)) = s := if_neg hrange
        rwa [hsame]
    | restart => exact h.restart
  | batch breaker response modelId park exs =>
    by_cases hne : response.toolCalls = []
    · rw [agentStep, if_pos hne]
      exact h
    · obtain ⟨rs, htools, -, hg, -⟩ := grown_batch h.tidy breaker hne modelId park exs
      have ha : (batchAssistant response modelId).role = "assistant" := rfl
      refine h.grown hg (fun id => ?_) fun id => ?_
      · rw [← List.nil_append (_ :: rs), declared_append_round htools
          ((role_stripCalls _ _).trans ha), ← List.nil_append (batchAssistant response modelId :: rs),
          declared_append_round htools ha]
        exact Or.imp_right fun hid => callIds_stripCalls_subset _ _ hid
      · rw [← List.nil_append (_ :: rs), answered_append_round htools
          ((role_stripCalls _ _).trans ha), ← List.nil_append (batchAssistant response modelId :: rs),
          answered_append_round htools ha]
        exact fun hans => hans
  | wake toolCallId outcome =>
    rcases agentStep_wake (J := J) (s := s) toolCallId outcome with heq | ⟨content, -, heq, -⟩
    · rwa [heq]
    · rw [heq]
      exact h.grown (grown_fillYield h.tidy _ content) (fun _ => id) fun _ => id
  | fill content =>
    rw [agentStep]
    cases hp : s.session.pendingYield with
    | none => exact h
    | some pending => exact h.grown (grown_fillYield h.tidy pending content) (fun _ => id) fun _ => id
  | implicitYield uuid =>
    obtain ⟨a, -, -, hg, -⟩ := grown_implicitYield h.tidy uuid
    exact h.grown hg (fun _ => id) fun _ => id
  | recover closing =>
    exact h.grown (grown_recover h.tidy closing _) (fun _ => id) fun _ => id

end

/-- A new session meets the invariant. -/
lemma agentInv_newLive (J : Serde) : AgentInv J newLive := by
  obtain ⟨m, act, h, -, -⟩ := tidy_createSession J
  exact ⟨⟨m, [], act, h⟩, rfl, by simp [newLive], fun id hd => absurd hd (declared_nil id),
    fun id ha => absurd ha (answered_nil id)⟩

end MyClaw
