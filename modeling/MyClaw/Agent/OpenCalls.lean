import MyClaw.Agent.SessionRun

set_option autoImplicit false

/-!
# Open calls in memory and in the file

The file has the assistant message of a batch with all its calls; an early exit strips calls in
memory only.  A stripped call stays open in the file, unless a result answers its id or memory
declares the id elsewhere.

## Main definitions

* `InStep` — a reload finds the open calls that memory has.
* `KeepsInStep` — what an event has to satisfy for that.

## Main results

* `inStep_always_iff` — memory and file have the same open calls in every state of a run
  exactly when every batch of the run strips no call that stays open in the file.
-/

namespace MyClaw

/-- The history that a reload rebuilds has the open calls of the history in memory. -/
def InStep (J : Serde) (s : Live) : Prop :=
  ∀ id, OpenCall (loadSession J s.dir).history id ↔ OpenCall s.session.history id

/-- The ids of a list of calls. -/
def idsOf (calls : List ToolCall) : List String := calls.map (·.id)

/-- A batch strips no call that stays open in the file, and leaves no call open whose id has a
result in the file only. -/
structure BatchInStep (J : Serde) (s : Live) (breaker : LoopBreakerCounter)
    (response : CollectedResponse) (park : YieldPark) (exs : List Execution) : Prop where
  /-- A stripped id is answered, or memory declares it. -/
  stripped : ∀ tc ∈ (traceBatch breaker response.toolCalls exs).stripped,
    tc.id ∈ (traceBatch breaker response.toolCalls exs).answered s.session.pendingYield park ∨
      Answered (s.dir.messages J) tc.id ∨ Declared s.session.history tc.id ∨
      tc.id ∈ idsOf (traceBatch breaker response.toolCalls exs).kept
  /-- An id that memory declares and the batch does not answer has no result in the file that
  memory lacks. -/
  fileOnly : ∀ tc ∈ response.toolCalls,
    tc.id ∉ (traceBatch breaker response.toolCalls exs).answered s.session.pendingYield park →
      (Declared s.session.history tc.id ∨
        tc.id ∈ idsOf (traceBatch breaker response.toolCalls exs).kept) →
      Answered (s.dir.messages J) tc.id → Answered s.session.history tc.id

/-- What an event has to satisfy to keep memory and file in step. -/
def KeepsInStep (J : Serde) (s : Live) : AgentEvent → Prop
  | .batch breaker response _ park exs => BatchInStep J s breaker response park exs
  | .implicitYield uuid => Answered (s.dir.messages J) (implicitYieldPrefix ++ uuid) →
      Answered s.session.history (implicitYieldPrefix ++ uuid)
  | _ => True

section

variable {J : Serde} {s s' : Live}

/-- The open calls of a reload are those of the file. -/
lemma AgentInv.inStep_iff (h : AgentInv J s) :
    InStep J s ↔ ∀ id, OpenCall (s.dir.messages J) id ↔ OpenCall s.session.history id := by
  obtain ⟨m, arch, act, ht⟩ := h.tidy
  unfold InStep
  rw [ht.history_loadSession ht.startId_pos]
  exact forall_congr' fun id => iff_congr openCall_removeOrphanResults Iff.rfl

/-- The calls of a stripped message are those that the trace keeps. -/
lemma callIds_stripped (breaker : LoopBreakerCounter) (response : CollectedResponse)
    (modelId : String) (exs : List Execution) :
    (stripCalls (traceBatch breaker response.toolCalls exs).stripped.length
      (batchAssistant response modelId)).callIds =
        idsOf (traceBatch breaker response.toolCalls exs).kept := by
  have hcalls : (stripCalls (traceBatch breaker response.toolCalls exs).stripped.length
      (batchAssistant response modelId)).calls = response.toolCalls.take
        (response.toolCalls.length - (traceBatch breaker response.toolCalls exs).stripped.length) :=
    rfl
  have hsplit := traceBatch_calls breaker response.toolCalls exs
  have hlen := congrArg List.length hsplit
  rw [List.length_append] at hlen
  have hkept : response.toolCalls.length - (traceBatch breaker response.toolCalls exs).stripped.length =
      (traceBatch breaker response.toolCalls exs).kept.length := by omega
  have htake : response.toolCalls.take (traceBatch breaker response.toolCalls exs).kept.length =
      (traceBatch breaker response.toolCalls exs).kept := by
    generalize traceBatch breaker response.toolCalls exs = t at hsplit
    rw [← hsplit, List.take_left']
    rfl
  unfold ChatMessage.callIds idsOf
  rw [hcalls, hkept, htake]

/-- Results and inert messages that are added to both sides keep them in step. -/
lemma inStep_append {ms ns rs : List ChatMessage}
    (h : ∀ id, OpenCall ms id ↔ OpenCall ns id) (hrs : ∀ id, ¬ Declared rs id) (id : String) :
    OpenCall (ms ++ rs) id ↔ OpenCall (ns ++ rs) id := by
  have hid := h id
  unfold OpenCall at hid ⊢
  simp only [declared_append, answered_append, hrs id, or_false]
  tauto

lemma AgentInv.inStep_grown (h : AgentInv J s) (h' : AgentInv J s') (hs : InStep J s)
    {rs : List ChatMessage} (hg : Grown J s s' rs rs) (hrs : ∀ id, ¬ Declared rs id) :
    InStep J s' := by
  rw [h'.inStep_iff, hg.messages, hg.history]
  exact inStep_append (h.inStep_iff.1 hs) hrs

/-- **A round on both sides**, of which memory declares fewer calls: the sides stay in step exactly
when each id that the round leaves open is open on both sides or on none. -/
lemma openCall_round_iff {ms ns rs : List ChatMessage} {a b : ChatMessage}
    (h : ∀ id, OpenCall ms id ↔ OpenCall ns id) (hans : ∀ id, Answered ns id → Answered ms id)
    (hrs : ∀ m ∈ rs, m.role = "tool") (ha : a.role = "assistant") (hb : b.role = "assistant")
    (hsub : b.callIds ⊆ a.callIds) :
    (∀ id, OpenCall (ms ++ a :: rs) id ↔ OpenCall (ns ++ b :: rs) id) ↔
      ∀ id ∈ a.callIds, id ∉ rs.filterMap (·.toolCallId) →
        ((Declared ns id ∨ id ∈ b.callIds) ∨ Answered ms id) ∧
        ((Declared ns id ∨ id ∈ b.callIds) → Answered ms id → Answered ns id) := by
  refine forall_congr' fun id => ?_
  have hid := h id
  have hsub' : id ∈ b.callIds → id ∈ a.callIds := fun hb => hsub hb
  have hans' := hans id
  unfold OpenCall at hid ⊢
  rw [declared_append_round hrs ha, declared_append_round hrs hb, answered_append_round hrs ha,
    answered_append_round hrs hb]
  by_cases hr : id ∈ rs.filterMap (·.toolCallId)
  · simp only [hr, or_true, not_true, and_false, false_imp_iff, imp_true_iff]
  · by_cases hmem : id ∈ a.callIds
    · simp only [hmem, hr, or_true, or_false, true_and, not_false_eq_true, forall_const]
      by_cases hms : Answered ms id
      · simp only [hms, not_true, false_iff, or_true, true_and, forall_const]
        tauto
      · simp only [hms, not_false_eq_true, true_iff, or_false, false_imp_iff, imp_true_iff, and_true]
        exact and_iff_left fun hn => hms (hans' hn)
    · have hno : id ∉ b.callIds := fun hb => hmem (hsub' hb)
      simp only [hmem, hno, hr, or_false, false_imp_iff, iff_true]
      exact hid

lemma mem_callIds_batch {response : CollectedResponse} {modelId id : String} :
    id ∈ (batchAssistant response modelId).callIds ↔ ∃ tc ∈ response.toolCalls, tc.id = id := by
  simp [ChatMessage.callIds, ChatMessage.calls, batchAssistant, Session.assistantWithTools]

/-- **One batch**: memory and file stay in step exactly when the batch meets its condition. -/
theorem AgentInv.inStep_batch_iff (h : AgentInv J s) (hs : InStep J s)
    (breaker : LoopBreakerCounter) (response : CollectedResponse) (modelId : String)
    (park : YieldPark) (exs : List Execution) :
    InStep J (agentStep J s (.batch breaker response modelId park exs)) ↔
      BatchInStep J s breaker response park exs := by
  by_cases hne : response.toolCalls = []
  · have hsame : agentStep J s (.batch breaker response modelId park exs) = s := if_pos hne
    have hok : BatchInStep J s breaker response park exs :=
      { stripped := by simp [hne, traceBatch, BatchTrace.stripped]
        fileOnly := by simp [hne] }
    rw [hsame]
    exact iff_of_true hs hok
  · obtain ⟨rs, htools, hids, hg, -⟩ := grown_batch h.tidy breaker hne modelId park exs
    have h' := h.step (.batch breaker response modelId park exs)
    have hkept := callIds_stripped breaker response modelId exs
    have hsplit := traceBatch_calls breaker response.toolCalls exs
    rw [h'.inStep_iff, hg.messages, hg.history, openCall_round_iff (h.inStep_iff.1 hs) h.answered
      htools rfl rfl (callIds_stripCalls_subset _ _), hkept, hids]
    constructor
    · intro hall
      have hcall : ∀ tc ∈ response.toolCalls, _ := fun tc htc =>
        hall tc.id (mem_callIds_batch.2 ⟨tc, htc, rfl⟩)
      refine ⟨fun tc htc => ?_, fun tc htc hno => (hcall tc htc hno).2⟩
      have htc' : tc ∈ response.toolCalls := by
        rw [← hsplit]
        exact List.mem_append_right _ htc
      by_cases hin : tc.id ∈
          (traceBatch breaker response.toolCalls exs).answered s.session.pendingYield park
      · exact .inl hin
      · rcases (hcall tc htc' hin).1 with (hd | hk) | ha
        · exact .inr (.inr (.inl hd))
        · exact .inr (.inr (.inr hk))
        · exact .inr (.inl ha)
    · intro hok id hid hno
      obtain ⟨tc, htc, rfl⟩ := mem_callIds_batch.1 hid
      refine ⟨?_, hok.fileOnly tc htc hno⟩
      rw [← hsplit, List.mem_append] at htc
      rcases htc with hk | hst
      · exact .inl (.inr (List.mem_map_of_mem hk))
      · rcases hok.stripped tc hst with hin | ha | hd | hk
        · exact absurd hin hno
        · exact .inr ha
        · exact .inl (.inl hd)
        · exact .inl (.inr hk)

/-- **One event**: memory and file stay in step exactly when the event meets its condition. -/
theorem AgentInv.inStep_agentStep_iff (h : AgentInv J s) (hs : InStep J s) (e : AgentEvent) :
    InStep J (agentStep J s e) ↔ KeepsInStep J s e := by
  have h' := h.step e
  cases e with
  | live e =>
    refine iff_of_true ?_ trivial
    cases e with
    | turn msg =>
      by_cases hm : Inert msg
      · rw [agentStep, if_pos hm] at h' ⊢
        exact h.inStep_grown h' hs (grown_push h.tidy msg) fun id => declared_inert hm
      · rwa [agentStep, if_neg hm]
    | compact compactStart compactEnd summary version upToMessage summaryTokens renumber =>
      by_cases hrange : compactStart ≤ compactEnd ∧ compactEnd ≤ s.session.history.length
      · have heq := (h.compact hrange summary version upToMessage summaryTokens renumber rfl).2
        refine h'.inStep_iff.2 fun id => ?_
        exact and_congr (heq id).1 (not_congr (heq id).2)
      · have hsame : agentStep J s (.live (.compact compactStart compactEnd summary version
            upToMessage summaryTokens renumber)) = s := if_neg hrange
        rwa [hsame]
    | restart => exact fun id => Iff.rfl
  | batch breaker response modelId park exs =>
    exact h.inStep_batch_iff hs breaker response modelId park exs
  | wake toolCallId outcome =>
    refine iff_of_true ?_ trivial
    rcases agentStep_wake (J := J) (s := s) toolCallId outcome with heq | ⟨content, -, heq, -⟩
    · rwa [heq]
    · rw [heq] at h' ⊢
      exact h.inStep_grown h' hs (grown_fillYield h.tidy _ content) fun id =>
        declared_tools (by simp)
  | fill content =>
    refine iff_of_true ?_ trivial
    rw [agentStep] at h' ⊢
    cases hp : s.session.pendingYield with
    | none => exact hs
    | some pending =>
      rw [hp] at h'
      exact h.inStep_grown h' hs (grown_fillYield h.tidy pending content) fun id =>
        declared_tools (by simp)
  | implicitYield uuid =>
    obtain ⟨a, ha, hcalls, hg, -⟩ := grown_implicitYield h.tidy uuid
    have hids : a.callIds = [implicitYieldPrefix ++ uuid] := by
      simp [ChatMessage.callIds, hcalls]
    rw [h'.inStep_iff, hg.messages, hg.history, openCall_round_iff (h.inStep_iff.1 hs) h.answered
      (by simp) ha ha fun _ hid => hid, hids]
    simp [KeepsInStep]
  | recover closing =>
    refine iff_of_true ?_ trivial
    refine h.inStep_grown h' hs (grown_recover h.tidy closing _) fun id => declared_tools ?_
    simp [closingResults]

end

/-- **Open calls in memory and in the file**: in a run of an agent's session, memory and file have
the same open calls in every state exactly when every batch of the run strips only calls whose ids
are answered or still declared in memory, and no call is left open whose id has a result in the file
only. -/
theorem inStep_always_iff (J : Serde) (es : List AgentEvent) :
    Run.Always (agentStep J) (InStep J) newLive es ↔
      Run.EachStep (agentStep J) (KeepsInStep J) newLive es := by
  refine Run.always_iff_eachStep (I := AgentInv J) (fun s e h => h.step e)
    (fun s e h hs => h.inStep_agentStep_iff hs e) (agentInv_newLive J) ?_
  rw [(agentInv_newLive J).inStep_iff]
  intro id
  simp [newLive, SessionDir.createSession, SessionDir.messages]

/-! ## A batch that reaches the hard limit -/

namespace OverLimit

/-- A turn that allows one call. -/
def breaker : LoopBreakerCounter := { config := { maxToolCalls := 1 } }

/-- A response with two calls. -/
def response : CollectedResponse :=
  { text := "", toolCalls :=
      [{ id := "a", name := "shell", arguments := "ls" },
        { id := "b", name := "shell", arguments := "pwd" }] }

/-- The run of the first call. -/
def executions : List Execution :=
  [{ result := .ok { success := true, output := "done", error := none }, now := 0 }]

end OverLimit

open OverLimit in

/-- The call that the hard limit strips from memory stays open in the file. -/
theorem not_inStep_always_overLimit :
    ¬ Run.Always (agentStep plainSerde) (InStep plainSerde) newLive
      [.batch breaker response "model" .absent executions] := by
  rintro ⟨h₀, h₁⟩
  have hok := ((agentInv_newLive plainSerde).inStep_batch_iff h₀ breaker response "model" .absent
    executions).1 h₁
  rcases hok.stripped { id := "b", name := "shell", arguments := "pwd" } (by decide) with
    h | h | h | h
  · exact absurd h (by decide)
  · simp [newLive, SessionDir.createSession, SessionDir.messages] at h
  · simp [newLive] at h
  · exact absurd h (by decide)

end MyClaw
