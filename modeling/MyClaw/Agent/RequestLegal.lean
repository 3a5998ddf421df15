import MyClaw.Agent.Rebuild

set_option autoImplicit false

/-!
# When a rebuilt request is legal

The request that `rebuild_messages` makes is sanitized first and folded behind that: the calls of the
send tools that it does not declare become text, and the results of these calls go
(`agents/agent/tool_filter.rs`).  The results go by their id, whatever tool the call was for.

## Main definitions

* `absentSendTools` — the tools whose calls are folded.
* `IsFold` — a list is another one with some calls turned into text, and the results for some
  ids gone.

## Main results

* `isFold_rebuildMessages` — the request is a fold of the sanitized history.
* `roundsLegal_fold_iff` — when a fold of a legal list is legal.
* `protocolLegal_rebuildMessages_iff` — when the request is legal.
-/

namespace MyClaw

open Blocks

/-! ## Folds -/

/-- A tool message that a fold takes away. -/
def answersOneOf (ids : List String) (m : ChatMessage) : Bool :=
  isTool m && m.toolCallId.any fun id => ids.contains id

/-- `output` is `input` with the calls of the tools `names` gone from the assistant messages, and the
results for `ids`, which have the ids of these calls. -/
structure IsFold (names ids : List String) (f : ChatMessage → ChatMessage)
    (input output : List ChatMessage) : Prop where
  role : ∀ m, (f m).role = m.role
  others : ∀ m, m.role ≠ "assistant" → f m = m
  calls : ∀ m ∈ input, m.role = "assistant" →
    (f m).calls = m.calls.filter fun tc => tc.name ∉ names
  folded : ∀ tc ∈ assistantCalls input, tc.name ∈ names → tc.id ∈ ids
  output_eq : output = (input.map f).filter fun m => !answersOneOf ids m

section

variable {names ids names' ids' : List String} {f g : ChatMessage → ChatMessage}
  {l l' l'' : List ChatMessage}

/-- A list is a fold of itself. -/
lemma IsFold.refl (l : List ChatMessage) : IsFold [] [] id l l where
  role _ := rfl
  others _ _ := rfl
  calls m _ _ := by simp
  folded tc _ h := by simp at h
  output_eq := by
    have hnone : ∀ m, answersOneOf [] m = false := fun m => by simp [answersOneOf]
    simp [hnone]

lemma isTool_of_role {m m' : ChatMessage} (h : m'.role = m.role) : isTool m' = isTool m := by
  rw [isTool, isTool, h]

lemma mem_assistantCalls {tc : ToolCall} : tc ∈ assistantCalls l ↔
    ∃ m ∈ l, m.role = "assistant" ∧ tc ∈ m.calls := by
  simp [assistantCalls, and_assoc]

/-- The calls that a fold leaves. -/
lemma IsFold.assistantCalls_eq (h : IsFold names ids f l l') :
    assistantCalls l' = (assistantCalls l).filter fun tc => tc.name ∉ names := by
  have hall : ∀ m ∈ l.map f, m.role = "assistant" → answersOneOf ids m = false := by
    intro m _ ha
    have ht : isTool m = false := by simp [ha]
    rw [answersOneOf, ht, Bool.false_and]
  rw [h.output_eq, assistantCalls, List.filter_filter]
  have hkept : (l.map f).filter (fun m => decide (m.role = "assistant") && !answersOneOf ids m) =
      (l.map f).filter fun m => decide (m.role = "assistant") := by
    refine List.filter_congr fun m hm => ?_
    by_cases ha : m.role = "assistant"
    · simp [ha, hall m hm ha]
    · simp [ha]
  rw [hkept]
  clear hkept hall
  have hrole := h.role
  have hcalls := h.calls
  clear h
  induction l with
  | nil => rfl
  | cons m l ih =>
    rw [← assistantCalls, List.map_cons, assistantCalls_cons, assistantCalls_cons,
      List.filter_append, hrole, assistantCalls, ih fun m' hm' => hcalls m' (List.mem_cons_of_mem _ hm')]
    split_ifs with ha
    · rw [hcalls m List.mem_cons_self ha]
    · rfl

lemma IsFold.answersOneOf_eq (h : IsFold names ids f l l') (ids' : List String) (m : ChatMessage) :
    answersOneOf ids' (f m) = answersOneOf ids' m := by
  by_cases ha : m.role = "assistant"
  · have ht : isTool m = false := by simp [ha]
    rw [answersOneOf, answersOneOf, isTool_of_role (h.role m), ht, Bool.false_and, Bool.false_and]
  · rw [h.others m ha]

lemma answersOneOf_append (m : ChatMessage) :
    answersOneOf (ids ++ ids') m = (answersOneOf ids m || answersOneOf ids' m) := by
  unfold answersOneOf
  cases m.toolCallId <;> simp [Bool.and_or_distrib_left]

lemma keeps_heads (m : ChatMessage) (hm : isTool m = false) : (!answersOneOf ids m) = true := by
  rw [answersOneOf, hm, Bool.false_and, Bool.not_false]

/-- A fold of a fold. -/
lemma IsFold.trans (h : IsFold names ids f l l') (h' : IsFold names' ids' g l' l'') :
    IsFold (names ++ names') (ids ++ ids') (g ∘ f) l l'' where
  role m := (h'.role _).trans (h.role m)
  others m hm := by
    rw [Function.comp_apply, h.others m hm, h'.others m hm]
  calls m hm ha := by
    have ha' : (f m).role = "assistant" := (h.role m).trans ha
    have hm' : f m ∈ l' := by
      rw [h.output_eq]
      exact List.mem_filter.2 ⟨List.mem_map_of_mem hm, keeps_heads _ (by simp [ha'])⟩
    rw [Function.comp_apply, h'.calls _ hm' ha', h.calls m hm ha, List.filter_filter]
    refine List.filter_congr fun tc _ => ?_
    simp [Bool.and_comm]
  folded tc htc hname := by
    rw [List.mem_append]
    by_cases hfirst : tc.name ∈ names
    · exact .inl (h.folded tc htc hfirst)
    · refine .inr (h'.folded tc ?_ ((List.mem_append.1 hname).resolve_left hfirst))
      rw [h.assistantCalls_eq]
      exact List.mem_filter.2 ⟨htc, by simpa using hfirst⟩
  output_eq := by
    rw [h'.output_eq, h.output_eq, List.filter_map, List.filter_map, List.filter_map, List.map_map,
      List.filter_filter, List.filter_map]
    congr 1
    refine List.filter_congr fun m _ => ?_
    simp only [Function.comp_apply, h'.answersOneOf_eq, h.answersOneOf_eq, answersOneOf_append,
      Bool.not_or, Bool.and_comm]

/-! ## The turns of a fold -/

/-- What a fold does to a turn. -/
def IsFold.turn (h : IsFold names ids f l l') (b : Turn) : Turn :=
  (b.mapHead f fun _ hm => (isTool_of_role (h.role _)).trans hm).filterRun
    fun m => !answersOneOf ids m

lemma IsFold.fixes_tools (h : IsFold names ids f l l') (m : ChatMessage) (hm : isTool m = true) :
    f m = m := by
  refine h.others m fun ha => ?_
  rw [isTool_eq_true, ha] at hm
  exact absurd hm (by decide)

/-- The turns of a fold are those of the list, one by one. -/
lemma IsFold.turns_eq (h : IsFold names ids f l l') : turns l' = (turns l).map h.turn := by
  have hf : ∀ m, isTool m = false → isTool (f m) = false := fun m hm =>
    (isTool_of_role (h.role m)).trans hm
  calc turns l' = turns ((l.map f).filter fun m => !answersOneOf ids m) := congrArg _ h.output_eq
    _ = ((turns l).map (Block.mapHead f hf)).map (Block.filterRun fun m => !answersOneOf ids m) := by
      rw [turns, blocks_filter keeps_heads, blocks_map hf h.fixes_tools]
    _ = (turns l).map h.turn := List.map_map

lemma IsFold.takeWhile_eq (h : IsFold names ids f l l') (hl : l.takeWhile isTool = []) :
    l'.takeWhile isTool = [] := by
  have hf : ∀ m, isTool m = false → isTool (f m) = false := fun m hm =>
    (isTool_of_role (h.role m)).trans hm
  rw [h.output_eq, takeWhile_filter keeps_heads, takeWhile_map hf h.fixes_tools, hl, List.filter_nil]

@[simp] lemma IsFold.role_turn (h : IsFold names ids f l l') (b : Turn) :
    (h.turn b).head.role = b.head.role := h.role _

lemma IsFold.run_turn (h : IsFold names ids f l l') (b : Turn) :
    (h.turn b).run = b.run.filter fun m => !answersOneOf ids m := rfl

lemma IsFold.mem_run_turn (h : IsFold names ids f l l') {b : Turn} {m : ChatMessage} :
    m ∈ (h.turn b).run ↔ m ∈ b.run ∧ ∀ id, m.toolCallId = some id → id ∉ ids := by
  rw [h.run_turn, List.mem_filter]
  refine and_congr_right fun hm => ?_
  rw [answersOneOf, b.run_all m hm, Bool.true_and]
  cases m.toolCallId <;> simp

lemma IsFold.mem_runIds_turn (h : IsFold names ids f l l') {b : Turn} {id : String} :
    id ∈ (h.turn b).runIds ↔ id ∈ b.runIds ∧ id ∉ ids := by
  simp only [Turn.runIds, List.mem_filterMap, h.mem_run_turn]
  constructor
  · rintro ⟨m, ⟨hm, hids⟩, hid⟩
    exact ⟨⟨m, hm, hid⟩, hids id hid⟩
  · rintro ⟨⟨m, hm, hid⟩, hnot⟩
    refine ⟨m, ⟨hm, fun id' hid' => ?_⟩, hid⟩
    rw [hid, Option.some.injEq] at hid'
    exact hid' ▸ hnot

lemma IsFold.callIds_turn (h : IsFold names ids f l l') {b : Turn} (hb : b ∈ turns l)
    (ha : b.head.role = "assistant") {id : String} : id ∈ (h.turn b).head.callIds ↔
      ∃ tc ∈ b.head.calls, tc.name ∉ names ∧ tc.id = id := by
  show id ∈ (f b.head).callIds ↔ _
  simp [ChatMessage.callIds, h.calls _ (head_mem hb) ha, and_assoc]

/-! ## When a fold is legal -/

/-- **The condition**: in a round that a later message follows no call that stays has an id whose
results go. -/
def KeepsIds (names ids : List String) (l : List ChatMessage) : Prop :=
  (turns l).Pairwise fun b _ => b.head.role = "assistant" →
    ∀ tc ∈ b.head.calls, tc.name ∉ names → tc.id ∉ ids

/-- The rules of a list, read off its turns. -/
lemma roundsLegal_turns (l : List ChatMessage) : RoundsLegal l ↔ l.takeWhile isTool = [] ∧
    (∀ b ∈ turns l, ∀ m ∈ b.run, Answers b.head m) ∧ (∀ b ∈ turns l, b.runIds.Nodup) ∧
      ((turns l).Pairwise fun b _ => b.Complete) ∧ (turns l).IsChain Turn.Apart := by
  have hlead : ∀ m ∈ l.takeWhile isTool, isTool m = true := fun m hm => List.mem_takeWhile_imp hm
  conv_lhs => rw [← takeWhile_append_blocks (p := isTool) l]
  exact roundsLegal_iff hlead (turns l)

/-- **When a fold of a legal list is legal**: exactly when no call that stays, and that needs its
result, has an id whose results go. -/
theorem roundsLegal_fold_iff (h : IsFold names ids f l l') (hl : RoundsLegal l) :
    RoundsLegal l' ↔ KeepsIds names ids l := by
  obtain ⟨hlead, hresults, honce, hanswered, halternates⟩ := (roundsLegal_turns l).1 hl
  have hcomplete : ((turns l').Pairwise fun b _ => b.Complete) ↔ KeepsIds names ids l := by
    rw [h.turns_eq, List.pairwise_map]
    constructor
    · refine fun hpairs => hpairs.imp_of_mem fun {b _} hmem _ hb ha tc htc hname hid => ?_
      have hcall : tc.id ∈ (h.turn b).head.callIds :=
        (h.callIds_turn hmem ha).2 ⟨tc, htc, hname, rfl⟩
      exact (h.mem_runIds_turn.1 (hb ((h.role_turn b).trans ha) tc.id hcall)).2 hid
    · refine fun hkeeps => (hkeeps.and hanswered).imp_of_mem fun {b _} hmem _ hb ha id hid => ?_
      have ha' : b.head.role = "assistant" := (h.role_turn b).symm.trans ha
      obtain ⟨tc, htc, hname, rfl⟩ := (h.callIds_turn hmem ha').1 hid
      exact h.mem_runIds_turn.2 ⟨hb.2 ha' tc.id (List.mem_map_of_mem htc), hb.1 ha' tc htc hname⟩
  rw [roundsLegal_turns, hcomplete]
  constructor
  · exact fun hlegal => hlegal.2.2.2.1
  · intro hkeeps
    refine ⟨h.takeWhile_eq hlead, ?_, ?_, hkeeps, ?_⟩
    · rw [h.turns_eq]
      intro b' hb' m hm
      obtain ⟨b, hb, rfl⟩ := List.mem_map.1 hb'
      obtain ⟨hrun, hids⟩ := h.mem_run_turn.1 hm
      obtain ⟨ha, id, hid, hm⟩ := hresults b hb m hrun
      obtain ⟨tc, htc, rfl⟩ := List.mem_map.1 hid
      -- a call whose results go is not answered here
      refine ⟨(h.role_turn b).trans ha, tc.id, (h.callIds_turn hb ha).2 ⟨tc, htc, ?_, rfl⟩, hm⟩
      intro hname
      have hcall : tc ∈ assistantCalls l := mem_assistantCalls.2 ⟨b.head, head_mem hb, ha, htc⟩
      exact hids tc.id hm (h.folded tc hcall hname)
    · rw [h.turns_eq]
      intro b' hb'
      obtain ⟨b, hb, rfl⟩ := List.mem_map.1 hb'
      exact (honce b hb).sublist (List.filter_sublist.filterMap _)
    · rw [h.turns_eq, List.isChain_map]
      refine halternates.imp fun b c hbc hc => ?_
      obtain ⟨hrun, hrole⟩ := hbc ((h.role_turn c).symm.trans hc)
      exact ⟨by rw [h.run_turn, hrun, List.filter_nil], by rwa [h.role_turn]⟩

/-- A fold of a legal history is legal under the same condition. -/
theorem protocolLegal_fold_iff {input : List ChatMessage} (h : IsFold names ids f l l')
    (hl : ProtocolLegal input l) : ProtocolLegal input l' ↔ KeepsIds names ids l := by
  rw [← roundsLegal_fold_iff h hl.rounds]
  refine ⟨fun hlegal => hlegal.rounds, fun hrounds => ⟨hrounds, ?_, fun m hm hs => ?_⟩⟩
  · obtain ⟨m, hm, hu⟩ := hl.user
    have ha : m.role ≠ "assistant" := by rw [hu]; decide
    have ht : isTool m = false := by rw [isTool_eq_false, hu]; decide
    refine ⟨m, ?_, hu⟩
    rw [h.output_eq]
    exact List.mem_filter.2 ⟨List.mem_map.2 ⟨m, hm, h.others m ha⟩, keeps_heads m ht⟩
  · obtain ⟨rest, rfl⟩ : ∃ rest, l = m :: rest := by
      have hhead := hl.systemFirst m hm hs
      cases l with
      | nil => cases hhead
      | cons m' rest => exact ⟨rest, by rw [Option.some.inj hhead]⟩
    have ha : m.role ≠ "assistant" := by rw [hs]; decide
    have ht : isTool m = false := by rw [isTool_eq_false, hs]; decide
    rw [h.output_eq, List.map_cons, h.others m ha, List.filter_cons, if_pos (keeps_heads m ht)]
    rfl

/-! ## The request -/

/-- `fold_absent_tool` is a fold. -/
lemma isFold_foldAbsentTool (toolNames : List String) (toolName label : String)
    (l : List ChatMessage) : ∃ f, IsFold (if toolName ∈ toolNames then [] else [toolName])
      (foldedIds toolNames toolName l) f l (foldAbsentTool toolNames toolName label l) := by
  unfold foldAbsentTool foldedIds
  dsimp only
  by_cases hdeclared : toolName ∈ toolNames
  · simp only [if_pos hdeclared]
    exact ⟨id, .refl l⟩
  · have hids : ∀ tc ∈ assistantCalls l, tc.name ∈ [toolName] → tc.id ∈ callIdsOf toolName l :=
      fun tc htc hname => List.mem_map_of_mem (List.mem_filter.2 ⟨htc, by simpa using hname⟩)
    simp only [if_neg hdeclared]
    split_ifs with hnone
    · have hothers : ∀ tc ∈ assistantCalls l, tc.name ∉ [toolName] := fun tc htc hname => by
        have hid := hids tc htc hname
        rw [hnone] at hid
        exact absurd hid List.not_mem_nil
      rw [hnone]
      refine ⟨id, fun _ => rfl, fun _ _ => rfl, fun m hm ha => ?_,
        fun tc htc hname => absurd hname (hothers tc htc), (IsFold.refl l).output_eq⟩
      refine (List.filter_eq_self.2 fun tc htc => decide_eq_true ?_).symm
      exact hothers tc (mem_assistantCalls.2 ⟨m, hm, ha, htc⟩)
    · refine ⟨foldCalls toolName label (foldedResult l), fun m => role_foldCalls _ _ _ m,
        fun m hm => foldCalls_of_ne _ _ _ hm, fun m _ ha => ?_, hids, rfl⟩
      rw [calls_foldCalls _ _ _ ha]
      exact List.filter_congr fun tc _ => by simp

/-- The send tools that a request does not declare. -/
def absentSendTools (toolNames : List String) : List String :=
  (if "send_message" ∈ toolNames then [] else ["send_message"]) ++
    if "send_media" ∈ toolNames then [] else ["send_media"]

/-- The ids of the calls that are folded in a request. -/
def foldedSendIds (toolNames : List String) (l : List ChatMessage) : List String :=
  foldedIds toolNames "send_message" l ++ foldedIds toolNames "send_media" l

/-- **The request is a fold of the sanitized history.** -/
theorem isFold_rebuildMessages (systemPrompt : String) (toolNames : List String)
    (history : List ChatMessage) :
    ∃ f, IsFold (absentSendTools toolNames)
      (foldedSendIds toolNames (sanitizeHistory (ChatMessage.systemText systemPrompt :: history))) f
      (sanitizeHistory (ChatMessage.systemText systemPrompt :: history))
      (rebuildMessages systemPrompt toolNames history) := by
  rw [rebuildMessages]
  generalize sanitizeHistory (ChatMessage.systemText systemPrompt :: history) = l
  obtain ⟨f, hf⟩ := isFold_foldAbsentTool toolNames "send_message" "消息发送结果" l
  obtain ⟨g, hg⟩ := isFold_foldAbsentTool toolNames "send_media" "媒体发送结果"
    (foldAbsentTool toolNames "send_message" "消息发送结果" l)
  have hids : foldedIds toolNames "send_media"
      (foldAbsentTool toolNames "send_message" "消息发送结果" l) =
        foldedIds toolNames "send_media" l := by
    rw [foldedIds, foldedIds, callIdsOf_foldAbsentTool _ _ _ _ (by decide)]
  rw [hids] at hg
  exact ⟨g ∘ f, hf.trans hg⟩

/-- **When the request is legal**: if the history can be sanitized, exactly when no call that stays, in
a round that a later message follows, has the id of a call that is folded. -/
theorem protocolLegal_rebuildMessages_iff (systemPrompt : String) (toolNames : List String)
    (history : List ChatMessage)
    (hok : SanitizeOk (ChatMessage.systemText systemPrompt :: history)) :
    ProtocolLegal (ChatMessage.systemText systemPrompt :: history)
        (rebuildMessages systemPrompt toolNames history) ↔
      KeepsIds (absentSendTools toolNames)
        (foldedSendIds toolNames (sanitizeHistory (ChatMessage.systemText systemPrompt :: history)))
        (sanitizeHistory (ChatMessage.systemText systemPrompt :: history)) := by
  obtain ⟨f, hf⟩ := isFold_rebuildMessages systemPrompt toolNames history
  exact protocolLegal_fold_iff hf ((protocolLegal_sanitizeHistory_iff _).2 hok)

instance decidableAnswers (head m : ChatMessage) : Decidable (Answers head m) := by
  unfold Answers
  infer_instance

instance decidableKeepsIds (names ids : List String) (l : List ChatMessage) :
    Decidable (KeepsIds names ids l) := by
  unfold KeepsIds
  infer_instance

/-- Two rounds whose calls have one id, the first one of a tool that is not declared later. -/
def sharedId : List ChatMessage :=
  [ ChatMessage.userText "tell them, then look",
    { ChatMessage.assistantText "" with
      toolCalls := some [{ id := "call_0", name := "send_message", arguments := "{}" }] },
    toolResult "call_0" (some "send_message") "sent" false,
    { ChatMessage.assistantText "" with
      toolCalls := some [{ id := "call_0", name := "shell", arguments := "{}" }] },
    toolResult "call_0" (some "shell") "src" false,
    ChatMessage.userText "and now?" ]

/-- The sanitized history is legal, and the request is not: the result of the second call goes too. -/
theorem not_protocolLegal_sharedId :
    SanitizeOk (ChatMessage.systemText "be brief" :: sharedId) ∧
      ¬ ProtocolLegal (ChatMessage.systemText "be brief" :: sharedId)
        (rebuildMessages "be brief" ["shell"] sharedId) := by
  have hok : SanitizeOk (ChatMessage.systemText "be brief" :: sharedId) :=
    ⟨by decide +kernel, by decide +kernel, by decide +kernel, by decide +kernel, by decide +kernel,
      fun _ _ _ => by decide +kernel⟩
  refine ⟨hok, fun h => ?_⟩
  have hkeeps := (protocolLegal_rebuildMessages_iff "be brief" ["shell"] sharedId hok).1 h
  exact absurd hkeeps (by decide +kernel)

end

end MyClaw
