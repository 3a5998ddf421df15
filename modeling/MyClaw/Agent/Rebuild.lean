import MyClaw.Agent.SessionRun
import MyClaw.Session.SanitizeLegal

set_option autoImplicit false

/-!
# The rebuilt request

`rebuild_messages` (`agents/compaction_engine/engine.rs`) assembles the messages of an LLM request
from the history of the session: the system prompt in front, `sanitize_history`, and the fold of
the send tools that the request does not declare.  `prepare_turn` (`agents/agent/mod.rs`) does the
same at the start of a turn.

## Main definitions

* `foldAbsentTool` — calls of a tool that is not declared become text.
* `rebuildMessages` — the request that a history makes.
* `toolRows`, `resultsOf` — the tool results that a list of messages carries.

## Main results

* `toolRows_rebuildMessages` — which results the request carries.
* `toolRows_rebuildMessages_round` — a complete round at the end of the history adds its
  results to those of the request.
-/

namespace MyClaw

open Blocks

/-! ## The model -/

/-- The calls of the assistant messages. -/
def assistantCalls (messages : List ChatMessage) : List ToolCall :=
  (messages.filter fun m => m.role = "assistant").flatMap ChatMessage.calls

/-- The ids of the calls of a tool. -/
def callIdsOf (toolName : String) (messages : List ChatMessage) : List String :=
  ((assistantCalls messages).filter fun tc => tc.name = toolName).map (·.id)

/-- The text of the last result for a call. -/
def foldedResult (messages : List ChatMessage) (id : String) : Option String :=
  ((messages.filter fun m => m.role = "tool" ∧ m.toolCallId = some id).getLast?).map (·.textContent)

/-- An assistant message whose calls of a tool became text, when they have a result with text. -/
def foldCalls (toolName label : String) (results : String → Option String) (msg : ChatMessage) :
    ChatMessage :=
  if msg.role = "assistant" then
    match msg.toolCalls with
    | none => msg
    | some calls =>
      let mine := calls.filter fun tc => tc.name = toolName
      let rest := calls.filter fun tc => tc.name ≠ toolName
      { msg with
        toolCalls := if rest = [] then none else some rest
        parts := msg.parts ++
          (mine.filterMap fun tc => (results tc.id).filter (· ≠ "")).map fun out =>
            .text ("[" ++ label ++ "]: " ++ out) }
  else msg

/-- `fold_absent_tool`: nothing happens when the tool is declared or was not called. -/
def foldAbsentTool (toolNames : List String) (toolName label : String)
    (messages : List ChatMessage) : List ChatMessage :=
  if toolName ∈ toolNames then messages
  else
    let ids := callIdsOf toolName messages
    if ids = [] then messages
    else
      (messages.map (foldCalls toolName label (foldedResult messages))).filter fun m =>
        !(isTool m && m.toolCallId.any fun id => ids.contains id)

/-- `rebuild_messages`. -/
def rebuildMessages (systemPrompt : String) (toolNames : List String)
    (history : List ChatMessage) : List ChatMessage :=
  foldAbsentTool toolNames "send_media" "媒体发送结果"
    (foldAbsentTool toolNames "send_message" "消息发送结果"
      (sanitizeHistory (ChatMessage.systemText systemPrompt :: history)))

/-- The call that a tool message answers, its text, and its error flag. The name of the tool is
left out: a result that grew with the request has none. -/
def resultRow (m : ChatMessage) : Option String × String × Option Bool :=
  (m.toolCallId, m.textContent, m.isError)

/-- The tool results of a list of messages. -/
def toolRows (messages : List ChatMessage) : List (Option String × String × Option Bool) :=
  (messages.filter isTool).map resultRow

/-- The tool results that a list of messages carries for a call. -/
def resultsOf (id : String) (messages : List ChatMessage) : List (String × Option Bool) :=
  ((toolRows messages).filter fun row => row.1 = some id).map Prod.snd

/-! ## Calls and results of lists -/

section

variable {ms ns : List ChatMessage} {m : ChatMessage}

@[simp] lemma toolRows_append : toolRows (ms ++ ns) = toolRows ms ++ toolRows ns := by
  simp [toolRows]

lemma toolRows_cons : toolRows (m :: ms) =
    if m.role = "tool" then resultRow m :: toolRows ms else toolRows ms := by
  by_cases h : m.role = "tool" <;> simp [toolRows, isTool, h]

lemma toolRows_of_tools (h : ∀ m ∈ ms, m.role = "tool") : toolRows ms = ms.map resultRow := by
  rw [toolRows, List.filter_eq_self.2 fun m hm => isTool_eq_true.2 (h m hm)]

@[simp] lemma assistantCalls_append :
    assistantCalls (ms ++ ns) = assistantCalls ms ++ assistantCalls ns := by
  simp [assistantCalls]

lemma assistantCalls_cons : assistantCalls (m :: ms) =
    (if m.role = "assistant" then m.calls else []) ++ assistantCalls ms := by
  by_cases h : m.role = "assistant" <;> simp [assistantCalls, h]

lemma assistantCalls_of_ne (h : ∀ m ∈ ms, m.role = "assistant" → m.calls = []) :
    assistantCalls ms = [] := by
  rw [assistantCalls, List.flatMap_eq_nil_iff]
  intro m hm
  obtain ⟨hm, ha⟩ := List.mem_filter.1 hm
  exact h m hm (by simpa using ha)

lemma assistantCalls_tools (h : ∀ m ∈ ms, m.role = "tool") : assistantCalls ms = [] := by
  refine assistantCalls_of_ne fun m hm ha => ?_
  rw [h m hm] at ha
  exact absurd ha (by decide)

end

/-! ## The fold -/

section

variable (toolNames : List String) (toolName label : String) (messages : List ChatMessage)

/-- The ids of the calls that the fold takes away. -/
def foldedIds : List String := if toolName ∈ toolNames then [] else callIdsOf toolName messages

/-- The results that are left without those for some ids. -/
def rowsWithout (ids : List String) (rows : List (Option String × String × Option Bool)) :
    List (Option String × String × Option Bool) :=
  rows.filter fun row => !row.1.any fun id => ids.contains id

lemma rowsWithout_append (ids : List String)
    (rows rows' : List (Option String × String × Option Bool)) :
    rowsWithout ids (rows ++ rows') = rowsWithout ids rows ++ rowsWithout ids rows' :=
  List.filter_append ..

lemma rowsWithout_rowsWithout (ids ids' : List String)
    (rows : List (Option String × String × Option Bool)) :
    rowsWithout ids' (rowsWithout ids rows) = rowsWithout (ids ++ ids') rows := by
  rw [rowsWithout, rowsWithout, List.filter_filter, rowsWithout]
  refine List.filter_congr fun row _ => ?_
  cases row.1 <;> simp [Bool.and_comm]

lemma rowsWithout_eq_self {ids : List String}
    {rows : List (Option String × String × Option Bool)}
    (h : ∀ row ∈ rows, ∀ id, row.1 = some id → id ∉ ids) : rowsWithout ids rows = rows := by
  refine List.filter_eq_self.2 fun row hrow => ?_
  cases hid : row.1 with
  | none => rfl
  | some id => simpa using h row hrow id hid

@[simp] lemma rowsWithout_nil (rows : List (Option String × String × Option Bool)) :
    rowsWithout [] rows = rows :=
  rowsWithout_eq_self fun _ _ _ _ => List.not_mem_nil

@[simp] lemma role_foldCalls (results : String → Option String) (msg : ChatMessage) :
    (foldCalls toolName label results msg).role = msg.role := by
  unfold foldCalls
  split_ifs
  · split <;> rfl
  · rfl

lemma foldCalls_of_ne (results : String → Option String) {msg : ChatMessage}
    (h : msg.role ≠ "assistant") : foldCalls toolName label results msg = msg := if_neg h

lemma calls_foldCalls (results : String → Option String) {msg : ChatMessage}
    (h : msg.role = "assistant") : (foldCalls toolName label results msg).calls =
      msg.calls.filter fun tc => tc.name ≠ toolName := by
  unfold foldCalls
  rw [if_pos h]
  cases hc : msg.toolCalls with
  | none => simp [ChatMessage.calls, hc]
  | some calls =>
    simp only [ChatMessage.calls, hc, Option.getD_some]
    split_ifs with hrest
    · rw [hrest, Option.getD_none]
    · rfl

/-- The fold takes the results of the folded calls away and no others. -/
lemma toolRows_foldAbsentTool : toolRows (foldAbsentTool toolNames toolName label messages) =
    rowsWithout (foldedIds toolNames toolName messages) (toolRows messages) := by
  unfold foldAbsentTool foldedIds
  dsimp only
  split_ifs with htool hids
  · rw [rowsWithout_nil]
  · rw [hids, rowsWithout_nil]
  · generalize foldedResult messages = results
    generalize callIdsOf toolName messages = ids
    clear hids
    induction messages with
    | nil => rfl
    | cons m l ih =>
      rw [List.map_cons, List.filter_cons, toolRows_cons]
      by_cases ht : m.role = "tool"
      · have ha : m.role ≠ "assistant" := by
          rw [ht]
          decide
        have hm : isTool m = true := isTool_eq_true.2 ht
        have hrow : (resultRow m).1 = m.toolCallId := rfl
        rw [foldCalls_of_ne _ _ _ ha, hm, Bool.true_and, if_pos ht, rowsWithout, List.filter_cons,
          ← rowsWithout, ← ih, hrow]
        split_ifs
        · rw [toolRows_cons, if_pos ht]
        · rfl
      · have hm : isTool (foldCalls toolName label results m) = false := by simpa using ht
        rw [hm, Bool.false_and, Bool.not_false, if_pos rfl, toolRows_cons, role_foldCalls,
          if_neg ht, if_neg ht, ih]

/-- The fold of one tool keeps the calls of another. -/
lemma callIdsOf_foldAbsentTool {other : String} (hne : other ≠ toolName) :
    callIdsOf other (foldAbsentTool toolNames toolName label messages) =
      callIdsOf other messages := by
  unfold foldAbsentTool
  dsimp only
  split_ifs with htool hids
  · rfl
  · rfl
  · have hcalls : ∀ (ids : List String) (results : String → Option String) (l : List ChatMessage),
        assistantCalls ((l.map (foldCalls toolName label results)).filter fun m =>
          !(isTool m && m.toolCallId.any fun id => ids.contains id)) =
            (assistantCalls l).filter fun tc => tc.name ≠ toolName := by
      intro ids results l
      induction l with
      | nil => rfl
      | cons m l ih =>
        rw [List.map_cons, List.filter_cons, assistantCalls_cons, List.filter_append]
        by_cases ha : m.role = "assistant"
        · have hm : isTool (foldCalls toolName label results m) = false := by simp [ha]
          rw [hm, Bool.false_and, Bool.not_false, if_pos rfl, assistantCalls_cons, role_foldCalls,
            if_pos ha, if_pos ha, calls_foldCalls _ _ _ ha, ih]
        · rw [foldCalls_of_ne _ _ _ ha, if_neg ha, List.filter_nil, List.nil_append]
          split_ifs
          · rw [assistantCalls_cons, if_neg ha, List.nil_append, ih]
          · exact ih
    rw [callIdsOf, hcalls, List.filter_filter, callIdsOf]
    congr 1
    refine List.filter_congr fun tc _ => ?_
    by_cases h : tc.name = other
    · simp [h, hne]
    · simp [h]

end

/-! ## The passes that keep calls and results -/

section

variable (l : List ChatMessage)

lemma assistantCalls_closeRounds (o : Option ToolRound) :
    assistantCalls (closeRounds o l) = assistantCalls l := by
  have hclosing : ∀ (o : Option ToolRound) (m : ChatMessage),
      assistantCalls (closing o m) = [] := by
    intro o m
    cases o with
    | none => rfl
    | some r =>
      refine assistantCalls_of_ne fun x hx _ => ?_
      simp only [closing, List.mem_append, List.mem_map] at hx
      rcases hx with ⟨tc, -, rfl⟩ | hx
      · rfl
      · split_ifs at hx
        · rw [List.mem_singleton.1 hx]
          rfl
        · cases hx
  induction l generalizing o with
  | nil => rfl
  | cons m l ih =>
    rw [closeRounds]
    split_ifs with ht
    · rw [assistantCalls_cons, assistantCalls_cons, ih]
    · rw [assistantCalls_append, hclosing, List.nil_append, assistantCalls_cons,
        assistantCalls_cons, ih]

/-- Messages that merge are not tool messages and make no calls. -/
lemma traffic_mergeGo (last : ChatMessage) :
    toolRows (mergeGo last l) = toolRows (last :: l) ∧
      assistantCalls (mergeGo last l) = assistantCalls (last :: l) := by
  induction l generalizing last with
  | nil => exact ⟨rfl, rfl⟩
  | cons m l ih =>
    rw [mergeGo]
    split_ifs with hm
    · obtain ⟨hlast, hmsg, hr⟩ := mergeable_iff.1 hm
      obtain ⟨hrole, hcalls⟩ := canMerge_iff.1 hlast
      obtain ⟨-, hcalls'⟩ := canMerge_iff.1 hmsg
      have ht : last.role ≠ "tool" := by
        rcases hrole with h | h <;> rw [h] <;> decide
      have hj : (mergeMessages last m).role = last.role := rfl
      have hjc : (mergeMessages last m).calls = last.calls := rfl
      obtain ⟨h₁, h₂⟩ := ih (mergeMessages last m)
      rw [h₁, h₂]
      simp only [toolRows_cons, assistantCalls_cons, hj, hjc, ← hr, ht, hcalls, hcalls', if_false,
        ite_self, List.nil_append, and_self]
    · obtain ⟨h₁, h₂⟩ := ih m
      rw [toolRows_cons, assistantCalls_cons, h₁, h₂, ← toolRows_cons, ← assistantCalls_cons]
      exact ⟨rfl, rfl⟩

/-- Merging and the recovery message change neither calls nor results. -/
lemma traffic_finish :
    toolRows (ensureAtLeastOneUser (mergeAdjacentSameRole l)) = toolRows l ∧
      assistantCalls (ensureAtLeastOneUser (mergeAdjacentSameRole l)) = assistantCalls l := by
  have hmerge : toolRows (mergeAdjacentSameRole l) = toolRows l ∧
      assistantCalls (mergeAdjacentSameRole l) = assistantCalls l := by
    cases l with
    | nil => exact ⟨rfl, rfl⟩
    | cons m l => exact traffic_mergeGo l m
  have hensure : ∀ k, toolRows (ensureAtLeastOneUser k) = toolRows k ∧
      assistantCalls (ensureAtLeastOneUser k) = assistantCalls k := by
    intro k
    unfold ensureAtLeastOneUser
    split_ifs with hu hnil
    · exact ⟨rfl, rfl⟩
    · rw [hnil]
      exact ⟨rfl, rfl⟩
    · exact ⟨toolRows_cons.trans (if_neg (by decide)), rfl⟩
  exact ⟨(hensure _).1.trans hmerge.1, (hensure _).2.trans hmerge.2⟩

end

/-! ## The results of a rebuilt request -/

/-- The ids of the calls of send tools that the request does not declare. -/
def absentIds (toolNames : List String) (messages : List ChatMessage) : List String :=
  foldedIds toolNames "send_message" messages ++ foldedIds toolNames "send_media" messages

lemma absentIds_congr {toolNames : List String} {ms ns : List ChatMessage}
    (h : assistantCalls ms = assistantCalls ns) : absentIds toolNames ms = absentIds toolNames ns := by
  simp only [absentIds, foldedIds, callIdsOf, h]

/-- **The results of a rebuilt request**: those of the closed history, without those of the send
tools that are not declared. -/
theorem toolRows_rebuildMessages (systemPrompt : String) (toolNames : List String)
    (history : List ChatMessage) :
    toolRows (rebuildMessages systemPrompt toolNames history) =
      rowsWithout
        (absentIds toolNames (keptHistory (ChatMessage.systemText systemPrompt :: history)))
        (toolRows (closeInterruptedToolRounds
          (keptHistory (ChatMessage.systemText systemPrompt :: history)))) := by
  set kept := keptHistory (ChatMessage.systemText systemPrompt :: history)
  have hsan : sanitizeHistory (ChatMessage.systemText systemPrompt :: history) =
      ensureAtLeastOneUser (mergeAdjacentSameRole (closeInterruptedToolRounds kept)) := rfl
  obtain ⟨hrows, hcalls⟩ := traffic_finish (closeInterruptedToolRounds kept)
  have hclose : assistantCalls (closeInterruptedToolRounds kept) = assistantCalls kept :=
    assistantCalls_closeRounds kept none
  have hids : ∀ name, foldedIds toolNames name
      (ensureAtLeastOneUser (mergeAdjacentSameRole (closeInterruptedToolRounds kept))) =
        foldedIds toolNames name kept := by
    intro name
    simp only [foldedIds, callIdsOf, hcalls, hclose]
  have hmedia : ∀ l : List ChatMessage, foldedIds toolNames "send_media"
      (foldAbsentTool toolNames "send_message" "消息发送结果" l) =
        foldedIds toolNames "send_media" l := by
    intro l
    unfold foldedIds
    rw [callIdsOf_foldAbsentTool _ _ _ _ (by decide)]
  rw [rebuildMessages, toolRows_foldAbsentTool, hmedia, toolRows_foldAbsentTool,
    rowsWithout_rowsWithout, hsan, hrows, hids, hids, absentIds]

/-! ## A round at the end of the history -/

section

variable {history : List ChatMessage} {a : ChatMessage} {rs : List ChatMessage}

/-- The walk of `run_recovery` passes the tool messages at the end. -/
lemma unansweredTail_tools (h : ∀ m ∈ rs, m.role = "tool") (completed : List String)
    (l : List ChatMessage) :
    unansweredTail completed (rs.reverse ++ l) =
      unansweredTail (rs.filterMap (·.toolCallId) ++ completed) l := by
  induction rs generalizing l with
  | nil => rfl
  | cons m rs ih =>
    have hm : m.role = "tool" := h m List.mem_cons_self
    rw [List.reverse_cons, List.append_assoc, ih fun x hx => h x (.tail _ hx), List.singleton_append,
      unansweredTail, if_pos hm]
    cases hid : m.toolCallId <;> simp [hid]

/-- The walk stops at a message of the user or the system, whatever stands before it. -/
lemma unansweredTail_stop {m : ChatMessage} (ht : m.role ≠ "tool") (ha : m.role ≠ "assistant")
    {completed : List String} {l r r' : List ChatMessage}
    (h : unansweredTail completed (l ++ r) = []) :
    unansweredTail completed (l ++ m :: r') = [] := by
  induction l generalizing completed with
  | nil => rw [List.nil_append, unansweredTail, if_neg ht, if_neg ha]
  | cons x l ih =>
    rw [List.cons_append, unansweredTail] at h ⊢
    by_cases hx : x.role = "tool"
    · rw [if_pos hx] at h ⊢
      exact ih h
    · rw [if_neg hx] at h ⊢
      exact h

/-- A round whose calls are all answered leaves no unanswered call at the end. -/
lemma unansweredTail_round (ha : a.role = "assistant") (hrs : ∀ m ∈ rs, m.role = "tool")
    (hids : a.callIds ⊆ rs.filterMap (·.toolCallId)) :
    unansweredTail [] (history ++ a :: rs).reverse = [] := by
  have hrev : (history ++ a :: rs).reverse = rs.reverse ++ a :: history.reverse := by simp
  have ht : a.role ≠ "tool" := by
    rw [ha]
    decide
  rw [hrev, unansweredTail_tools hrs, unansweredTail, if_neg ht, if_pos ha, List.filter_eq_nil_iff]
  intro tc htc
  have hid : tc.id ∈ rs.filterMap (·.toolCallId) := hids (List.mem_map_of_mem htc)
  simp [hid]

/-- The last turn of a history without unanswered calls at its end is complete. -/
lemma missing_getLast (h : unansweredTail [] history.reverse = []) :
    ∀ b ∈ (turns history).getLast?, b.missing = [] := by
  intro b hb
  obtain ⟨bs, hbs⟩ := List.getLast?_eq_some_iff.1 (Option.mem_def.1 hb)
  have hsplit : history.takeWhile isTool ++ (turns history).flatMap Block.elems = history :=
    takeWhile_append_blocks history
  rw [hbs] at hsplit
  have hrev : history.reverse = b.run.reverse ++
      b.head :: (history.takeWhile isTool ++ bs.flatMap Block.elems).reverse := by
    conv_lhs => rw [← hsplit]
    simp [Block.elems]
  rw [hrev, unansweredTail_tools fun m hm => b.role_run hm, unansweredTail,
    if_neg b.role_head] at h
  rw [List.eq_nil_iff_forall_not_mem]
  intro tc htc
  obtain ⟨ha, hcall, hno⟩ := Turn.mem_missing.1 htc
  rw [if_pos ha, List.filter_eq_nil_iff] at h
  have hin := h tc hcall
  exact hno (by simpa [Turn.runIds] using hin)

/-- The first pass takes tool messages out of the runs. -/
lemma turns_removeOrphanResults :
    turns (removeOrphanResults history) = (turns history).map (Turn.kept history) := by
  rw [turns, removeOrphanResults, blocks_filter fun _ => keepsResult_of_not_tool]
  rfl

/-- Nothing is trimmed from a history whose last turn is complete. -/
lemma keptHistory_of_missing (h : ∀ b ∈ (turns history).getLast?, b.missing = []) :
    keptHistory history = removeOrphanResults history := by
  have hl : ∀ m ∈ (removeOrphanResults history).takeWhile isTool, isTool m = true :=
    fun _ hm => List.mem_takeWhile_imp hm
  set ids := fulfilledIds (removeOrphanResults history)
  have hbare : ((turns history).map (Turn.kept history)).rdropWhile (Bare (unfulfilled ids)) =
      (turns history).map (Turn.kept history) := by
    rcases List.eq_nil_or_concat (turns history) with hnil | ⟨bs, b, hbs⟩
    · rw [hnil]
      rfl
    · have hb : b ∈ turns history := by simp [hbs]
      have hmissing : (b.kept history).missing = [] := by
        rw [missing_kept history hb]
        exact h b (by simp [hbs])
      rw [hbs, List.concat_eq_append, List.map_append, List.map_singleton,
        List.rdropWhile_concat_neg]
      intro hbare
      simp only [Bare, unfulfilled, Bool.and_eq_true, decide_eq_true_eq, List.isEmpty_iff] at hbare
      obtain ⟨⟨⟨ha, hne⟩, -⟩, hrun⟩ := hbare
      obtain ⟨tc, htc⟩ := List.exists_mem_of_ne_nil (b.kept history).head.calls (by simpa using hne)
      have hmem : tc ∈ (b.kept history).missing :=
        Turn.mem_missing.2 ⟨ha, htc, by simp [Turn.runIds, hrun]⟩
      rw [hmissing] at hmem
      cases hmem
  have hsplit : (removeOrphanResults history).takeWhile isTool ++
      (turns (removeOrphanResults history)).flatMap Block.elems = removeOrphanResults history :=
    takeWhile_append_blocks _
  rw [turns_removeOrphanResults] at hsplit
  rw [keptHistory, trimUnfulfilledTail, ← hsplit, rdropWhile_eq (fun _ => isTool_of_unfulfilled) hl,
    hsplit, hbare]
  exact hsplit

/-- A turn at the end is closed when it is the last one, and the one before it when it is
complete. -/
lemma closeTurns_concat {bs : List Turn} (h : ∀ b ∈ bs.getLast?, b.missing = []) {c : Turn}
    (hc : c.head.role ≠ "user") : closeTurns (bs ++ [c]) = closeTurns bs ++ [c] := by
  induction bs with
  | nil => rfl
  | cons b bs ih =>
    cases bs with
    | nil =>
      have hclosed : b.closed = b := by
        have hb : b.missing = [] := h b rfl
        ext1
        · rfl
        · simp [Turn.closed, hb]
      simp [closeTurns, hc, hclosed]
    | cons d rest =>
      have hih := ih (by simpa using h)
      rw [List.cons_append] at hih
      simp only [List.cons_append, closeTurns, hih, List.append_assoc]

/-- A complete history is closed apart from the round that follows it. -/
lemma closeInterruptedToolRounds_round (h : ∀ b ∈ (turns history).getLast?, b.missing = [])
    (ha : a.role = "assistant") (hrs : ∀ m ∈ rs, m.role = "tool") :
    closeInterruptedToolRounds (history ++ a :: rs) =
      closeInterruptedToolRounds history ++ a :: rs := by
  have hl : ∀ m ∈ history.takeWhile isTool, isTool m = true := fun _ hm => List.mem_takeWhile_imp hm
  have ht : isTool a = false := by simp [isTool, ha]
  have hu : a.role ≠ "user" := by
    rw [ha]
    decide
  let c : Turn := { head := a, run := rs, head_not := ht
                    run_all := fun m hm => isTool_eq_true.2 (hrs m hm) }
  have hsplit := takeWhile_append_blocks (p := isTool) history
  have hround : history ++ a :: rs =
      history.takeWhile isTool ++ (turns history ++ [c]).flatMap Block.elems := by
    conv_lhs => rw [← hsplit]
    simp [Block.elems, c]
  rw [hround, closeInterruptedToolRounds_turns _ hl, closeTurns_concat h hu]
  conv_rhs => rw [← hsplit]
  rw [closeInterruptedToolRounds_turns _ hl]
  simp [Block.elems, c]

/-- The first pass keeps a round whose results answer its calls, and nothing more of the history
than before. -/
lemma removeOrphanResults_round (ha : a.role = "assistant") (hrs : ∀ m ∈ rs, m.role = "tool")
    (hids : ∀ m ∈ rs, ∃ id ∈ a.callIds, m.toolCallId = some id)
    (hfresh : ∀ id ∈ a.callIds, Answered history id → Declared history id) :
    removeOrphanResults (history ++ a :: rs) = removeOrphanResults history ++ a :: rs := by
  have hknown : ∀ id, id ∈ knownToolIds (history ++ a :: rs) ↔
      id ∈ knownToolIds history ∨ id ∈ a.callIds := by
    intro id
    rw [mem_knownToolIds, mem_knownToolIds, declared_append_round hrs ha]
  have hold : ∀ m ∈ history, keepsResult (knownToolIds (history ++ a :: rs)) m =
      keepsResult (knownToolIds history) m := by
    intro m hm
    rw [Bool.eq_iff_iff, keepsResult_eq_true, keepsResult_eq_true]
    refine forall_congr' fun ht => exists_congr fun id => and_congr_right fun hid => ?_
    rw [hknown]
    refine or_iff_left_of_imp fun hcall => mem_knownToolIds.2 (hfresh id hcall ⟨m, hm, ht, hid⟩)
  have hnew : ∀ m ∈ a :: rs, keepsResult (knownToolIds (history ++ a :: rs)) m = true := by
    intro m hm
    rw [keepsResult_eq_true]
    intro ht
    rcases List.mem_cons.1 hm with rfl | hm
    · rw [ha] at ht
      exact absurd ht (by decide)
    · obtain ⟨id, hcall, hid⟩ := hids m hm
      exact ⟨id, hid, (hknown id).2 (.inr hcall)⟩
  rw [removeOrphanResults, List.filter_append, List.filter_eq_self.2 hnew, removeOrphanResults,
    List.filter_congr hold]

/-- The tools whose calls `rebuild_messages` folds when they are not declared. -/
def sendTools : List String := ["send_message", "send_media"]

/-- **A complete round at the end of a settled history** adds its results to those of the rebuilt
request. -/
theorem toolRows_rebuildMessages_round (systemPrompt : String) {toolNames : List String}
    (hs : unansweredTail [] history.reverse = []) (ha : a.role = "assistant")
    (hrs : ∀ m ∈ rs, m.role = "tool")
    (hids : ∀ m ∈ rs, ∃ id ∈ a.callIds, m.toolCallId = some id)
    (hall : a.callIds ⊆ rs.filterMap (·.toolCallId))
    (hfresh : ∀ id ∈ a.callIds, Answered history id → Declared history id)
    (hsend : ∀ tc ∈ a.calls, tc.name ∈ sendTools → tc.name ∈ toolNames)
    (hfold : ∀ id ∈ a.callIds, id ∉ absentIds toolNames history) :
    toolRows (rebuildMessages systemPrompt toolNames (history ++ a :: rs)) =
      toolRows (rebuildMessages systemPrompt toolNames history) ++ toolRows rs := by
  set system := ChatMessage.systemText systemPrompt with hsystem
  have hsys : ∀ id, (Answered (system :: history) id ↔ Answered history id) ∧
      (Declared (system :: history) id ↔ Declared history id) := by
    intro id
    have ht : system.role ≠ "tool" := by
      rw [hsystem, ChatMessage.systemText, ChatMessage.role_text]
      decide
    have hna : system.role ≠ "assistant" := by
      rw [hsystem, ChatMessage.systemText, ChatMessage.role_text]
      decide
    simp [Answered, Declared, ht, hna]
  have hsettled : unansweredTail [] (system :: history).reverse = [] := by
    rw [List.reverse_cons]
    refine unansweredTail_stop (r := []) ?_ ?_ (by simpa using hs) <;>
    · rw [hsystem, ChatMessage.systemText, ChatMessage.role_text]
      decide
  have hlast := missing_getLast hsettled
  have hsettled' : unansweredTail [] ((system :: history) ++ a :: rs).reverse = [] :=
    unansweredTail_round ha hrs hall
  have hlast' := missing_getLast hsettled'
  -- nothing is trimmed, before and after, and the first pass keeps the round
  have hkept := keptHistory_of_missing hlast
  have hkept' : keptHistory ((system :: history) ++ a :: rs) =
      keptHistory (system :: history) ++ a :: rs := by
    rw [keptHistory_of_missing hlast', hkept, removeOrphanResults_round ha hrs hids]
    intro id hid hans
    exact (hsys id).2.2 (hfresh id hid ((hsys id).1.1 hans))
  have hlastKept : ∀ b ∈ (turns (keptHistory (system :: history))).getLast?, b.missing = [] := by
    rw [hkept, turns_removeOrphanResults, List.getLast?_map]
    intro b hb
    obtain ⟨c, hc, rfl⟩ := Option.mem_map.1 hb
    have hmem : c ∈ turns (system :: history) := List.mem_of_getLast? hc
    exact (missing_kept (system :: history) hmem).trans (hlast c hc)
  have hclose := closeInterruptedToolRounds_round hlastKept ha hrs
  have hcalls : assistantCalls (keptHistory (system :: history)) = assistantCalls history := by
    rw [hkept, removeOrphanResults, assistantCalls, List.filter_filter]
    have hkeep : (system :: history).filter (fun m => decide (m.role = "assistant") &&
        keepsResult (knownToolIds (system :: history)) m) =
          (system :: history).filter fun m => m.role = "assistant" := by
      refine List.filter_congr fun m _ => ?_
      by_cases hm : m.role = "assistant"
      · have ht : isTool m = false := by simp [isTool, hm]
        simp [hm, keepsResult_of_not_tool ht]
      · simp [hm]
    rw [hkeep, ← assistantCalls, assistantCalls_cons]
    rfl
  have habsent : absentIds toolNames (keptHistory (system :: history)) =
      absentIds toolNames history := absentIds_congr hcalls
  have habsent' : absentIds toolNames (keptHistory (system :: history) ++ a :: rs) =
      absentIds toolNames history := by
    have hname : ∀ name ∈ sendTools, foldedIds toolNames name
        (keptHistory (system :: history) ++ a :: rs) = foldedIds toolNames name history := by
      intro name hname
      unfold foldedIds callIdsOf
      split_ifs with htool
      · rfl
      · have hno : a.calls.filter (fun tc => tc.name = name) = [] := by
          rw [List.filter_eq_nil_iff]
          intro tc htc hn
          have hn : tc.name = name := by simpa using hn
          exact htool (hn ▸ hsend tc htc (hn ▸ hname))
        rw [assistantCalls_append, hcalls, assistantCalls_cons, if_pos ha, assistantCalls_tools hrs,
          List.append_nil, List.filter_append, hno, List.append_nil]
    rw [absentIds, hname _ (by decide), hname _ (by decide), absentIds]
  have hrows : rowsWithout (absentIds toolNames history) (toolRows (a :: rs)) = toolRows rs := by
    have hat : a.role ≠ "tool" := by
      rw [ha]
      decide
    rw [toolRows_cons, if_neg hat]
    refine rowsWithout_eq_self fun row hrow id hid => ?_
    rw [toolRows_of_tools hrs] at hrow
    obtain ⟨m, hm, rfl⟩ := List.mem_map.1 hrow
    obtain ⟨id', hcall, hid'⟩ := hids m hm
    have heq : id' = id := Option.some.inj (hid'.symm.trans hid)
    exact heq ▸ hfold id' hcall
  rw [toolRows_rebuildMessages, toolRows_rebuildMessages, ← hsystem, ← List.cons_append, hkept',
    hclose, habsent', habsent, toolRows_append, rowsWithout_append, hrows]

end

end MyClaw
