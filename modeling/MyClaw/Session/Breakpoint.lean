import MyClaw.Session.Types

set_option autoImplicit false

/-!
# Breakpoint detection

`identify_breakpoint` (`agents/session/breakpoint_detect.rs`) walks a history once and keeps the
tool calls that no later tool result answers.  The source keeps them in a `HashMap`; here they are
a list with one entry per id, in an order that nothing depends on.

## Main definitions

* `identifyBreakpoint` — the calls without a later result.
* `OpenCall` — a call that no result of the history answers.

## Main results

* `mem_identifyBreakpoint_of_openCall` — an open call is a breakpoint.
* `declared_of_mem_identifyBreakpoint` — a breakpoint is a declared call.
-/

namespace MyClaw

/-- A tool call that never received a result. -/
structure BreakpointItem where
  toolCallId : String
  toolName : String
  arguments : String
  deriving DecidableEq

/-- `pending_tools.insert(call.id, ..)`: an entry of the same id is replaced. -/
def insertPending (pending : List BreakpointItem) (call : ToolCall) : List BreakpointItem :=
  pending.filter (·.toolCallId ≠ call.id) ++
    [{ toolCallId := call.id, toolName := call.name, arguments := call.arguments }]

/-- One message of the walk. -/
def trackPending (pending : List BreakpointItem) (msg : ChatMessage) : List BreakpointItem :=
  if msg.role = "assistant" then msg.calls.foldl insertPending pending
  else if msg.role = "tool" then
    match msg.toolCallId with
    | some id => pending.filter (·.toolCallId ≠ id)
    | none => pending
  else pending

/-- `identify_breakpoint`: the tool calls that no later tool result answers. -/
def identifyBreakpoint (messages : List ChatMessage) : List BreakpointItem :=
  messages.foldl trackPending []

/-- `sole_sessions_yield_orphan`: the call id when the only breakpoint is a `sessions_yield` call
and it is the pending one. -/
def soleSessionsYieldOrphan (messages : List ChatMessage) (pendingYield : Option PendingYield) :
    Option String :=
  match identifyBreakpoint messages with
  | [item] =>
    if item.toolName = "sessions_yield" then
      (pendingYield.filter fun p => p.toolCallId = item.toolCallId).map fun _ => item.toolCallId
    else none
  | _ => none

/-- The walk of `history_has_incomplete_turn` from the last message backwards: the answered ids so
far, and whether a tool result was passed. -/
def openTail (completed : List String) (trailingTools : Bool) : List ChatMessage → Bool
  | [] => trailingTools
  | msg :: rest =>
    if msg.role = "tool" then openTail (msg.toolCallId.toList ++ completed) true rest
    else if msg.role = "assistant" then
      (msg.callIds.any fun id => !completed.contains id) || trailingTools
    else trailingTools

/-- `history_has_incomplete_turn`: the history ends with a user message, with tool results, or
with an assistant message that has an unanswered call. -/
def historyHasIncompleteTurn (history : List ChatMessage) : Bool :=
  match history.getLast? with
  | none => false
  | some last =>
    if last.role = "user" then true
    else openTail [] false history.reverse

/-! ## Declared and answered calls -/

/-- Some assistant message declares a call with this id. -/
def Declared (messages : List ChatMessage) (id : String) : Prop :=
  ∃ m ∈ messages, m.role = "assistant" ∧ id ∈ m.callIds

/-- Some tool message answers the call with this id. -/
def Answered (messages : List ChatMessage) (id : String) : Prop :=
  ∃ m ∈ messages, m.role = "tool" ∧ m.toolCallId = some id

/-- A declared call that no tool message answers. -/
def OpenCall (messages : List ChatMessage) (id : String) : Prop :=
  Declared messages id ∧ ¬ Answered messages id

instance (messages : List ChatMessage) (id : String) : Decidable (Declared messages id) :=
  inferInstanceAs (Decidable (∃ m ∈ messages, m.role = "assistant" ∧ id ∈ m.callIds))

instance (messages : List ChatMessage) (id : String) : Decidable (Answered messages id) :=
  inferInstanceAs (Decidable (∃ m ∈ messages, m.role = "tool" ∧ m.toolCallId = some id))

@[simp] lemma declared_nil (id : String) : ¬ Declared [] id := by simp [Declared]

@[simp] lemma answered_nil (id : String) : ¬ Answered [] id := by simp [Answered]

/-- A call is declared in one part or the other. -/
lemma declared_append {ms ns : List ChatMessage} {id : String} :
    Declared (ms ++ ns) id ↔ Declared ms id ∨ Declared ns id := by
  simp only [Declared, List.mem_append, or_and_right, exists_or]

/-- So is one answered. -/
lemma answered_append {ms ns : List ChatMessage} {id : String} :
    Answered (ms ++ ns) id ↔ Answered ms id ∨ Answered ns id := by
  simp only [Answered, List.mem_append, or_and_right, exists_or]

/-! ## The walk -/

/-- The ids of the breakpoints. -/
def pendingIds (pending : List BreakpointItem) : List String := pending.map (·.toolCallId)

/-- A result takes its id out of the pending ones. -/
lemma mem_pendingIds_filter {pending : List BreakpointItem} {id other : String} :
    id ∈ pendingIds (pending.filter (·.toolCallId ≠ other)) ↔
      id ∈ pendingIds pending ∧ id ≠ other := by
  simp only [pendingIds, List.mem_map, List.mem_filter, decide_eq_true_eq]
  constructor
  · rintro ⟨item, ⟨hmem, hne⟩, rfl⟩
    exact ⟨⟨item, hmem, rfl⟩, hne⟩
  · rintro ⟨⟨item, hmem, rfl⟩, hne⟩
    exact ⟨item, ⟨hmem, hne⟩, rfl⟩

/-- A call adds its id. -/
lemma mem_pendingIds_insertPending {pending : List BreakpointItem} {call : ToolCall}
    {id : String} :
    id ∈ pendingIds (insertPending pending call) ↔ id ∈ pendingIds pending ∨ id = call.id := by
  have h : pendingIds (insertPending pending call) =
      pendingIds (pending.filter (·.toolCallId ≠ call.id)) ++ [call.id] := by
    simp [pendingIds, insertPending]
  rw [h, List.mem_append, mem_pendingIds_filter, List.mem_singleton]
  by_cases hid : id = call.id <;> simp [hid]

/-- So do several calls. -/
lemma mem_pendingIds_foldl {calls : List ToolCall} {pending : List BreakpointItem}
    {id : String} :
    id ∈ pendingIds (calls.foldl insertPending pending) ↔
      id ∈ pendingIds pending ∨ id ∈ calls.map (·.id) := by
  induction calls generalizing pending with
  | nil => simp
  | cons call calls ih =>
    rw [List.foldl_cons, ih, mem_pendingIds_insertPending, List.map_cons, List.mem_cons, or_assoc]

/-- **One message of the walk**: an assistant message adds the ids it declares, a tool message
removes the id it answers. -/
lemma mem_pendingIds_trackPending {pending : List BreakpointItem} {msg : ChatMessage}
    {id : String} :
    id ∈ pendingIds (trackPending pending msg) ↔
      (msg.role = "assistant" ∧ id ∈ msg.callIds) ∨
        (id ∈ pendingIds pending ∧ ¬ (msg.role = "tool" ∧ msg.toolCallId = some id)) := by
  unfold trackPending
  by_cases ha : msg.role = "assistant"
  · have ht : msg.role ≠ "tool" := by
      rw [ha]
      decide
    rw [if_pos ha, mem_pendingIds_foldl, or_comm]
    simp [ha, ChatMessage.callIds]
  · rw [if_neg ha]
    by_cases ht : msg.role = "tool"
    · rw [if_pos ht]
      cases hid : msg.toolCallId with
      | none => simp [ht]
      | some other =>
        rw [mem_pendingIds_filter]
        simp [ht, eq_comm]
    · rw [if_neg ht]
      simp [ha, ht]

/-- A breakpoint is an earlier breakpoint that is not answered, or a call that the messages
declare; an open call of the messages is always one. -/
lemma mem_pendingIds_foldl_trackPending {messages : List ChatMessage}
    {pending : List BreakpointItem} {id : String} :
    (id ∈ pendingIds (messages.foldl trackPending pending) →
      id ∈ pendingIds pending ∨ Declared messages id) ∧
    (¬ Answered messages id → id ∈ pendingIds pending ∨ Declared messages id →
      id ∈ pendingIds (messages.foldl trackPending pending)) := by
  induction messages generalizing pending with
  | nil => simp
  | cons msg messages ih =>
    have hcons : msg :: messages = [msg] ++ messages := rfl
    have hdecl : Declared [msg] id ↔ msg.role = "assistant" ∧ id ∈ msg.callIds := by
      simp [Declared]
    have hans : Answered [msg] id ↔ msg.role = "tool" ∧ msg.toolCallId = some id := by
      simp [Answered]
    obtain ⟨ih₁, ih₂⟩ := @ih (trackPending pending msg)
    rw [List.foldl_cons]
    rw [mem_pendingIds_trackPending, ← hdecl, ← hans] at ih₁ ih₂
    rw [hcons, declared_append, answered_append]
    constructor
    · intro h
      rcases ih₁ h with (h | h) | h
      · exact .inr (.inl h)
      · exact .inl h.1
      · exact .inr (.inr h)
    · intro hno h
      rw [not_or] at hno
      refine ih₂ hno.2 ?_
      rcases h with h | h | h
      · exact .inl (.inr ⟨h, hno.1⟩)
      · exact .inl (.inl h)
      · exact .inr h

/-- A breakpoint is a declared call. -/
theorem declared_of_mem_identifyBreakpoint {messages : List ChatMessage} {id : String}
    (h : id ∈ pendingIds (identifyBreakpoint messages)) : Declared messages id := by
  rcases mem_pendingIds_foldl_trackPending.1 h with h | h
  · simp [pendingIds] at h
  · exact h

/-- **An open call is a breakpoint.** -/
theorem mem_identifyBreakpoint_of_openCall {messages : List ChatMessage} {id : String}
    (h : OpenCall messages id) : id ∈ pendingIds (identifyBreakpoint messages) :=
  mem_pendingIds_foldl_trackPending.2 h.2 (.inr h.1)

end MyClaw
