import MyClaw.Session.Abort

set_option autoImplicit false

/-!
# The tail of a history after an abort

`close_incomplete_turn_on_abort` and `history_has_incomplete_turn` walk a history backwards, each
on its own.  This module compares the two walks on every sequence of roles.  They agree on a tail
of tool results; they part where user messages are dropped from behind an open round, which the
first one then does not look at, and where another message stands behind the last assistant
message, at which both stop.

## Main definitions

* `AnswersLastCalls` — the last assistant message stays where it is, and results for all its
  calls follow it.
* `AbortClosesTail` — what an abort is for.
* `TailClosable` — the condition on the history before the abort.

## Main results

* `openRound_reverse` — what the walk over a tail of a history finds.
* `abortClosesTail_iff` — an abort closes the tail exactly when it is closable.
* `not_abortClosesTail_callThenUser` — a call and a user message.
-/

namespace MyClaw

/-! ## The property and its condition -/

/-- The history ends with a user message. -/
def EndsWithUser (history : List ChatMessage) : Prop :=
  ∃ last ∈ history.getLast?, last.role = "user"

/-- `msg` is the last assistant message of the history, between `before` and `after`. -/
def LastAssistant (history before : List ChatMessage) (msg : ChatMessage)
    (after : List ChatMessage) : Prop :=
  history = before ++ msg :: after ∧ msg.role = "assistant" ∧ ∀ m ∈ after, m.role ≠ "assistant"

/-- The assistant message that was last in the first history keeps its place in the second one, and
results for all its calls follow it there. -/
def AnswersLastCalls (history history' : List ChatMessage) : Prop :=
  ∀ before msg after, LastAssistant history before msg after →
    ∃ after', history' = before ++ msg :: after' ∧ ∀ id ∈ msg.callIds, Answered after' id

/-- **An abort closes the tail**: no turn is open, the calls of the assistant message that was last
are answered, the messages before the user messages at the end stay, and so does the pairing of
messages and ids. -/
structure AbortClosesTail (s : Session) : Prop where
  closed : historyHasIncompleteTurn s.closeIncompleteTurnOnAbort.1.history = false
  answered : AnswersLastCalls s.history s.closeIncompleteTurnOnAbort.1.history
  kept : withoutTrailingUsers s.history <+: s.closeIncompleteTurnOnAbort.1.history
  paired : s.history.length = s.messageIds.length →
    s.closeIncompleteTurnOnAbort.1.history.length =
      s.closeIncompleteTurnOnAbort.1.messageIds.length

/-- **The condition**: user messages at the end do not stand behind an open round, and what follows
the last assistant message is tool results, or has a result for each of its calls. -/
structure TailClosable (history : List ChatMessage) : Prop where
  users : EndsWithUser history →
    ∀ last ∈ (withoutTrailingUsers history).getLast?, EndsRound last
  tools : ∀ before msg after, LastAssistant history before msg after →
    (∀ m ∈ after, m.role = "tool") ∨ ∀ id ∈ msg.callIds, Answered after id

/-! ## The walk over a tail of tool results -/

/-- A call is answered by the first message or by the others. -/
lemma answered_cons {msg : ChatMessage} {ms : List ChatMessage} {id : String} :
    Answered (msg :: ms) id ↔ (msg.role = "tool" ∧ msg.toolCallId = some id) ∨ Answered ms id := by
  simp [Answered]

/-- The order of the messages does not matter. -/
lemma answered_reverse {ms : List ChatMessage} {id : String} :
    Answered ms.reverse id ↔ Answered ms id := by
  simp [Answered]

/-- Messages without an assistant message that are not all tool results stop the walk. -/
lemma openRound_stops {completed : List String} {trailing : Bool} {tail : List ChatMessage}
    (rest : List ChatMessage) (hno : ∀ m ∈ tail, m.role ≠ "assistant")
    (hother : ¬ ∀ m ∈ tail, m.role = "tool") :
    (openRound completed trailing (tail ++ rest)).1 = [] := by
  induction tail generalizing completed trailing with
  | nil => exact absurd (fun m hm => absurd hm List.not_mem_nil) hother
  | cons m tail ih =>
    rw [List.forall_mem_cons] at hno hother
    rw [List.cons_append, openRound]
    by_cases htool : m.role = "tool"
    · rw [if_pos htool]
      exact ih hno.2 fun hall => hother ⟨htool, hall⟩
    · rw [if_neg htool, if_neg hno.1]

/-- **Over tool results** the walk finds the calls of the assistant message before them that have
no result among them, in their order. -/
lemma openRound_tools {completed : List String} {trailing : Bool} {tail : List ChatMessage}
    {msg : ChatMessage} (rest : List ChatMessage) (htools : ∀ m ∈ tail, m.role = "tool")
    (hmsg : msg.role = "assistant") :
    (openRound completed trailing (tail ++ msg :: rest)).1 =
      msg.calls.filter fun call => call.id ∉ completed ∧ ¬ Answered tail call.id := by
  induction tail generalizing completed trailing with
  | nil =>
    have htool : msg.role ≠ "tool" := by
      rw [hmsg]
      decide
    rw [List.nil_append, openRound, if_neg htool, if_pos hmsg]
    simp
  | cons m tail ih =>
    rw [List.forall_mem_cons] at htools
    rw [List.cons_append, openRound, if_pos htools.1, ih htools.2]
    refine List.filter_congr fun call _ => decide_eq_decide.2 ?_
    rw [answered_cons, and_iff_right htools.1]
    cases m.toolCallId with
    | none => simp
    | some id =>
      simp only [Option.toList_some, List.singleton_append, List.mem_cons, not_or,
        Option.some.injEq, eq_comm (a := call.id)]
      tauto

/-- The calls of an assistant message that have no result among the messages after it. -/
def unansweredCalls (msg : ChatMessage) (after : List ChatMessage) : List ToolCall :=
  msg.calls.filter fun call => ¬ Answered after call.id

/-- The calls of a message without an answer behind it. -/
lemma mem_unansweredCalls {msg : ChatMessage} {after : List ChatMessage} {call : ToolCall} :
    call ∈ unansweredCalls msg after ↔ call ∈ msg.calls ∧ ¬ Answered after call.id := by
  rw [unansweredCalls, List.mem_filter, decide_eq_true_eq]

/-- **The walk from the end**: with tool results behind the last assistant message it finds the
calls without a result, in their order, and otherwise nothing. -/
theorem openRound_reverse {history before after : List ChatMessage} {msg : ChatMessage}
    (h : LastAssistant history before msg after) :
    (openRound [] false history.reverse).1 =
      if ∀ m ∈ after, m.role = "tool" then unansweredCalls msg after else [] := by
  obtain ⟨rfl, hmsg, hno⟩ := h
  have hrev : (before ++ msg :: after).reverse = after.reverse ++ msg :: before.reverse := by simp
  rw [hrev]
  split_ifs with htools
  · rw [openRound_tools before.reverse (by simpa using htools) hmsg]
    refine List.filter_congr fun call _ => decide_eq_decide.2 ?_
    rw [answered_reverse, and_iff_right List.not_mem_nil]
  · exact openRound_stops (msg :: before.reverse) (by simpa using hno) (by simpa using htools)

/-- The closing messages answer the calls that the walk finds. -/
lemma answered_closingMessages {history : List ChatMessage} {id : String} :
    Answered (closingMessages history) id ↔
      ∃ call ∈ (openRound [] false history.reverse).1, call.id = id := by
  unfold closingMessages
  dsimp only
  split_ifs with hclosed
  · rw [Bool.and_eq_true, List.isEmpty_iff] at hclosed
    rw [hclosed.1]
    simp
  · have htext : ¬ Answered [ChatMessage.assistantText "（已取消）"] id := by
      rintro ⟨m, hm, hrole, -⟩
      rw [List.mem_singleton.1 hm] at hrole
      exact absurd hrole (by decide)
    rw [answered_append, or_iff_left htext]
    simp [Answered]

/-! ## The two branches -/

/-- **A history that does not end with a user message**: results for the calls of the last
assistant message follow it exactly when tool results do, or all of them are there already. -/
lemma answersLastCalls_closing_iff {history : List ChatMessage} :
    AnswersLastCalls history (history ++ closingMessages history) ↔
      ∀ before msg after, LastAssistant history before msg after →
        (∀ m ∈ after, m.role = "tool") ∨ ∀ id ∈ msg.callIds, Answered after id := by
  refine forall₃_congr fun before msg after => forall_congr' fun hlast => ?_
  have hsplit : history ++ closingMessages history =
      before ++ msg :: (after ++ closingMessages history) := by
    rw [hlast.1]
    simp
  constructor
  · rintro ⟨after', heq, hanswered⟩
    rw [hsplit, List.append_cancel_left_eq, List.cons.injEq] at heq
    obtain ⟨-, rfl⟩ := heq
    refine or_iff_not_imp_left.2 fun htools id hid => ?_
    refine (answered_append.1 (hanswered id hid)).resolve_right fun hclosing => ?_
    obtain ⟨call, hcall, -⟩ := answered_closingMessages.1 hclosing
    rw [openRound_reverse hlast, if_neg htools] at hcall
    exact List.not_mem_nil hcall
  · intro hcond
    refine ⟨_, hsplit, fun id hid => answered_append.2 ?_⟩
    by_cases hbefore : Answered after id
    · exact .inl hbefore
    · have htools := hcond.resolve_right fun hall => hbefore (hall id hid)
      obtain ⟨call, hcall, rfl⟩ := List.mem_map.1 hid
      refine .inr (answered_closingMessages.2 ⟨call, ?_, rfl⟩)
      rw [openRound_reverse hlast, if_pos htools]
      exact mem_unansweredCalls.2 ⟨hcall, hbefore⟩

/-- A user message at the end is dropped. -/
lemma withoutTrailingUsers_concat_user {m : ChatMessage} (history : List ChatMessage)
    (huser : m.role = "user") :
    withoutTrailingUsers (history ++ [m]) = withoutTrailingUsers history :=
  List.rdropWhile_concat_pos _ _ _ (decide_eq_true huser)

/-- Any other one stops the dropping. -/
lemma withoutTrailingUsers_concat_other {m : ChatMessage} (history : List ChatMessage)
    (huser : m.role ≠ "user") : withoutTrailingUsers (history ++ [m]) = history ++ [m] :=
  List.rdropWhile_concat_neg _ _ _ (by simpa using huser)

/-- Dropping the user messages at the end drops no result. -/
lemma answered_withoutTrailingUsers {history : List ChatMessage} {id : String} :
    Answered (withoutTrailingUsers history) id ↔ Answered history id := by
  induction history using List.reverseRecOn with
  | nil => rfl
  | append_singleton history m ih =>
    by_cases huser : m.role = "user"
    · have hno : ¬ Answered [m] id := by
        rintro ⟨n, hn, hrole, -⟩
        rw [List.mem_singleton.1 hn, huser] at hrole
        exact absurd hrole (by decide)
      rw [withoutTrailingUsers_concat_user history huser, ih, answered_append, or_iff_left hno]
    · rw [withoutTrailingUsers_concat_other history huser]

/-- The user messages at the end stand behind the last assistant message. -/
lemma withoutTrailingUsers_append_cons {msg : ChatMessage} (before after : List ChatMessage)
    (hmsg : msg.role ≠ "user") :
    withoutTrailingUsers (before ++ msg :: after) =
      before ++ msg :: withoutTrailingUsers after := by
  induction after using List.reverseRecOn with
  | nil => exact withoutTrailingUsers_concat_other before hmsg
  | append_singleton after m ih =>
    rw [← List.cons_append, ← List.append_assoc]
    by_cases huser : m.role = "user"
    · rw [withoutTrailingUsers_concat_user _ huser, withoutTrailingUsers_concat_user _ huser, ih]
    · rw [withoutTrailingUsers_concat_other _ huser, withoutTrailingUsers_concat_other _ huser]
      simp

/-- **A history that ends with a user message**: nothing is answered, so all results have to be
there already. -/
lemma answersLastCalls_withoutTrailingUsers_iff {history : List ChatMessage}
    (huser : EndsWithUser history) :
    AnswersLastCalls history (withoutTrailingUsers history) ↔
      ∀ before msg after, LastAssistant history before msg after →
        (∀ m ∈ after, m.role = "tool") ∨ ∀ id ∈ msg.callIds, Answered after id := by
  refine forall₃_congr fun before msg after => forall_congr' fun hlast => ?_
  obtain ⟨rfl, hmsg, hno⟩ := hlast
  have hnotUser : msg.role ≠ "user" := by
    rw [hmsg]
    decide
  rw [withoutTrailingUsers_append_cons before after hnotUser]
  -- the user message at the end is no tool result
  have hother : ¬ ∀ m ∈ after, m.role = "tool" := by
    obtain ⟨last, hlast, hrole⟩ := huser
    rcases List.eq_nil_or_concat after with rfl | ⟨init, m, rfl⟩
    · rw [List.getLast?_concat] at hlast
      cases hlast
      exact absurd hrole hnotUser
    · rw [List.concat_eq_append, ← List.cons_append, ← List.append_assoc,
        List.getLast?_concat] at hlast
      obtain rfl := Option.some.inj hlast
      intro htools
      have htool := htools m (by simp)
      rw [hrole] at htool
      exact absurd htool (by decide)
  rw [or_iff_right hother]
  constructor
  · rintro ⟨after', heq, hanswered⟩ id hid
    rw [List.append_cancel_left_eq, List.cons.injEq] at heq
    rw [← answered_withoutTrailingUsers, heq.2]
    exact hanswered id hid
  · intro hanswered
    exact ⟨_, rfl, fun id hid => answered_withoutTrailingUsers.2 (hanswered id hid)⟩

/-- A result keeps messages and ids of one length. -/
lemma length_addToolResult (s : Session) (id name content : String) (e : Bool)
    (h : s.history.length = s.messageIds.length) :
    (s.addToolResult id name content e).history.length =
      (s.addToolResult id name content e).messageIds.length := by
  simp [Session.addToolResult, Session.push, h]

/-- So does a reply. -/
lemma length_addAssistant (s : Session) (text : String)
    (h : s.history.length = s.messageIds.length) :
    (s.addAssistant text).history.length = (s.addAssistant text).messageIds.length := by
  unfold Session.addAssistant
  split_ifs
  · exact h
  · simp [Session.push, h]

/-- Messages and ids are added and dropped in pairs. -/
theorem length_closeIncompleteTurnOnAbort (s : Session)
    (h : s.history.length = s.messageIds.length) :
    s.closeIncompleteTurnOnAbort.1.history.length =
      s.closeIncompleteTurnOnAbort.1.messageIds.length := by
  have hfold : ∀ (calls : List ToolCall) (s : Session), s.history.length = s.messageIds.length →
      (calls.foldl (fun s call =>
        s.addToolResult call.id call.name "cancelled: aborted by user" true) s).history.length =
      (calls.foldl (fun s call =>
        s.addToolResult call.id call.name "cancelled: aborted by user" true) s).messageIds.length := by
    intro calls
    induction calls with
    | nil => exact fun s h => h
    | cons call calls ih => exact fun s h => ih _ (length_addToolResult s _ _ _ _ h)
  unfold Session.closeIncompleteTurnOnAbort
  cases s.history.getLast? with
  | none => exact h
  | some last =>
    dsimp only
    split_ifs
    · have hle : (withoutTrailingUsers s.history).length ≤ s.history.length :=
        (List.rdropWhile_prefix _ _).length_le
      rw [List.rdrop, ← h, Nat.sub_sub_self hle]
      exact (List.length_take_of_le (hle.trans_eq h)).symm
    · exact h
    · exact length_addAssistant _ _ (hfold _ _ h)

/-! ## The exact condition -/

/-- **An abort closes the tail exactly when it is closable.** -/
theorem abortClosesTail_iff (s : Session) : AbortClosesTail s ↔ TailClosable s.history := by
  by_cases huser : EndsWithUser s.history
  · have hhist : s.closeIncompleteTurnOnAbort.1.history = withoutTrailingUsers s.history := by
      obtain ⟨last, hlast, hrole⟩ := huser
      simp [Session.closeIncompleteTurnOnAbort, Option.mem_def.1 hlast, hrole]
    have hclosed := historyHasIncompleteTurn_withoutTrailingUsers s.history
    have hanswers := answersLastCalls_withoutTrailingUsers_iff huser
    rw [← hhist] at hanswers
    constructor
    · intro h
      have hopen := h.closed
      rw [hhist] at hopen
      exact ⟨fun _ => hclosed.1 hopen, hanswers.1 h.answered⟩
    · intro h
      refine ⟨?_, hanswers.2 h.tools, ?_, length_closeIncompleteTurnOnAbort s⟩
      · rw [hhist]
        exact hclosed.2 (h.users huser)
      · rw [hhist]
  · have hhist := (closeIncompleteTurnOnAbort_of_not_user huser).1
    have hanswers : AnswersLastCalls s.history (s.history ++ closingMessages s.history) ↔ _ :=
      answersLastCalls_closing_iff
    rw [← hhist] at hanswers
    refine ⟨fun h => ⟨fun hend => absurd hend huser, hanswers.1 h.answered⟩, fun h =>
      ⟨?_, hanswers.2 h.tools, ?_, length_closeIncompleteTurnOnAbort s⟩⟩
    · rw [hhist]
      exact historyHasIncompleteTurn_closing huser
    · rw [hhist]
      exact (List.rdropWhile_prefix _ _).trans (List.prefix_append _ _)

/-! ## A call and a user message -/

/-- A session whose tool call has no result when a user message comes in. -/
def callThenUser : Session where
  history := [ChatMessage.userText "hi",
    { ChatMessage.assistantText "" with
      toolCalls := some [{ id := "c1", name := "shell", arguments := "\x7b\x7d" }] },
    ChatMessage.userText "again"]
  messageIds := [1, 2, 3]

/-- **The tail stays open**: the user message is dropped, and the call before it is not looked
at. -/
theorem not_abortClosesTail_callThenUser : ¬ AbortClosesTail callThenUser := by
  intro h
  have hclosed := h.closed
  revert hclosed
  decide

end MyClaw
