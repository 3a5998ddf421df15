import MyClaw.Provider.StreamClients

set_option autoImplicit false

/-!
# How the streams of the clients end

Whether the events that a client sends end once, and with success only if the provider said so.

## Main definitions

* `EndsOnce` — exactly the last event of a list ends a stream.
* `ChatProtocol.marked` — the end marker of the protocol is in one of the lines.
* `NeverTruncatedSuccess` — the events for a reply end once, and with success only if the end
  marker has arrived.
* `ChatClient.EndsWithMarker` — after the end marker nothing follows, and no failure is reported
  before it.
* `ChatProtocol.Clean` — the condition of a reply.

## Main results

* `ChatClient.Lawful.endsOnce_iff` — the events of a client end once exactly when its lines do.
* `neverTruncatedSuccess_iff` — the exact condition, for all four clients and all replies.
* `cut_tool_call_succeeds` — a body of Responses that breaks off in the arguments of a tool call.
-/

namespace MyClaw

/-- The last event of a list ends a stream, and no other one does. -/
def EndsOnce (events : List StreamEvent) : Prop :=
  ∃ body last, events = body ++ [last] ∧ Open body ∧ last.isTerminal = true

lemma endsOnce_singleton {e : StreamEvent} (h : e.isTerminal = true) : EndsOnce [e] :=
  ⟨[], e, rfl, open_nil, h⟩

/-- Events that end nothing do not matter. -/
lemma endsOnce_append_iff {as bs : List StreamEvent} (h : Open as) :
    EndsOnce (as ++ bs) ↔ EndsOnce bs := by
  constructor
  · rintro ⟨body, last, heq, hbody, hlast⟩
    rcases List.eq_nil_or_concat bs with rfl | ⟨bs', e, rfl⟩
    · -- the last event would be one of `as`
      have hmem : last ∈ as := by
        rw [List.append_nil] at heq
        simp [heq]
      exact absurd hlast (by simp [h last hmem])
    · rw [List.concat_eq_append, ← List.append_assoc] at heq
      obtain ⟨hpre, htail⟩ := List.append_inj' heq rfl
      cases htail
      refine ⟨bs', last, List.concat_eq_append, ?_, hlast⟩
      exact fun x hx => hbody x (hpre ▸ List.mem_append_right as hx)
  · rintro ⟨body, last, rfl, hbody, hlast⟩
    exact ⟨as ++ body, last, by simp, (open_append _ _).2 ⟨h, hbody⟩, hlast⟩

/-- Nothing may follow an event that ends the stream. -/
lemma endsOnce_append_cons_iff {body rest : List StreamEvent} {e : StreamEvent} (h : Open body)
    (he : e.isTerminal = true) : EndsOnce (body ++ [e] ++ rest) ↔ rest = [] := by
  rw [List.append_assoc, endsOnce_append_iff h]
  constructor
  · rintro ⟨body', last, heq, hbody', -⟩
    cases body' with
    | nil => exact (List.cons.inj heq).2
    | cons x body' =>
      obtain ⟨rfl, -⟩ := List.cons.inj heq
      exact absurd he (by simp [hbody' e List.mem_cons_self])
  · rintro rfl
    exact endsOnce_singleton he

/-- Events end once; with `done` only if the end marker has arrived; and a tool call without an end
marker after it ends in an error. -/
structure NeverTruncatedSuccess (events : List StreamEvent) (marked : Bool) : Prop where
  endsOnce : EndsOnce events
  honest : ∀ r, .done r ∈ events → marked = true
  cut : marked = false → (∃ e ∈ events, e.isToolCall = true) →
    ∃ message, events.getLast? = some (.error message)

/-- A single error is an honest end. -/
lemma neverTruncatedSuccess_failure {e : StreamEvent} (h : e.isFailure = true) (marked : Bool) :
    NeverTruncatedSuccess [e] marked := by
  cases e with
  | error m => exact ⟨endsOnce_singleton rfl, by simp, fun _ _ => ⟨m, rfl⟩⟩
  | httpError status m =>
    exact ⟨endsOnce_singleton rfl, by simp, by simp [StreamEvent.isToolCall]⟩
  | _ => cases h

/-- A line that yields nothing has no end marker and reports no failure. -/
lemma LineShape.of_nil {finishes fails : Bool} (h : LineShape [] finishes fails) :
    finishes = false ∧ fails = false := by
  generalize hnil : ([] : List StreamEvent) = events at h
  cases h with
  | going body h => exact ⟨rfl, rfl⟩
  | finished body h r => simp at hnil
  | failed body h m => simp at hnil

/-! ## A client -/

namespace ChatClient

variable {σ : Type} (c : ChatClient σ) (ended : σ → Bool) (finishes fails : σ → List Char → Bool)

/-- The client has ended after a line with the end marker, and sends one more event otherwise. -/
structure Lawful : Prop where
  shape : ∀ s line, LineShape (c.line s line).2 (finishes s line) (fails s line)
  ended_next : ∀ s line, ended (c.next s line) = (ended s || finishes s line)
  finish_ended : ∀ s, ended s = true → c.finish s = []
  finish_going : ∀ s, ended s = false → ∃ e, c.finish s = [e] ∧ e.isTerminal = true

/-- Before the end marker no line reports a failure, after it no line yields an event, and the body does
not break off after it. -/
def EndsWithMarker (s : σ) (lines : List (List Char)) (broken : Option String) : Prop :=
  Run.EachStep c.next
      (fun s line => fails s line = false ∧ (ended s = true → (c.line s line).2 = [])) s lines ∧
    (ended (Run.exec c.next s lines) = true → broken = none)

variable {c ended finishes fails}

lemma eventsFrom_cons (s : σ) (line : List Char) (lines : List (List Char))
    (broken : Option String) :
    c.eventsFrom s (line :: lines) broken =
      (c.line s line).2 ++ c.eventsFrom (c.next s line) lines broken := by
  simp [eventsFrom, emitted]

namespace Lawful

variable (h : Lawful c ended finishes fails)
include h

lemma ended_next_of_ended {s : σ} (hs : ended s = true) (line : List Char) :
    ended (c.next s line) = true := by
  rw [h.ended_next, hs, Bool.true_or]

/-- After the end nothing is sent exactly when nothing follows. -/
lemma eventsFrom_eq_nil_iff {s : σ} (hs : ended s = true) (lines : List (List Char))
    (broken : Option String) :
    c.eventsFrom s lines broken = [] ↔ c.EndsWithMarker ended fails s lines broken := by
  induction lines generalizing s with
  | nil =>
    cases broken with
    | none => simp [eventsFrom, emitted, EndsWithMarker, h.finish_ended s hs]
    | some message => simp [eventsFrom, EndsWithMarker, hs]
  | cons line lines ih =>
    rw [eventsFrom_cons, List.append_eq_nil_iff, ih (h.ended_next_of_ended hs line)]
    constructor
    · rintro ⟨hnil, hrest⟩
      have hfails : fails s line = false := (hnil ▸ h.shape s line).of_nil.2
      exact ⟨⟨⟨hfails, fun _ => hnil⟩, hrest.1⟩, hrest.2⟩
    · rintro ⟨⟨⟨-, hnil⟩, hsteps⟩, hbroken⟩
      exact ⟨hnil hs, hsteps, hbroken⟩

/-- Before the end something is still sent. -/
lemma eventsFrom_ne_nil {s : σ} (hs : ended s = false) (lines : List (List Char))
    (broken : Option String) : c.eventsFrom s lines broken ≠ [] := by
  induction lines generalizing s with
  | nil =>
    cases broken with
    | none =>
      obtain ⟨e, he, -⟩ := h.finish_going s hs
      simp [eventsFrom, he]
    | some message => simp [eventsFrom]
  | cons line lines ih =>
    rw [eventsFrom_cons]
    intro hnil
    obtain ⟨hline, hrest⟩ := List.append_eq_nil_iff.1 hnil
    have hfinishes : finishes s line = false := (hline ▸ h.shape s line).of_nil.1
    have hnext : ended (c.next s line) = false := by rw [h.ended_next, hs, hfinishes]; rfl
    exact ih hnext hrest

/-- **The events of a client end once** exactly when nothing follows the end marker and no failure is
reported. -/
theorem endsOnce_iff {s : σ} (hs : ended s = false) (lines : List (List Char))
    (broken : Option String) :
    EndsOnce (c.eventsFrom s lines broken) ↔ c.EndsWithMarker ended fails s lines broken := by
  induction lines generalizing s with
  | nil =>
    cases broken with
    | none =>
      obtain ⟨e, he, hterminal⟩ := h.finish_going s hs
      simpa [eventsFrom, emitted, EndsWithMarker, he] using endsOnce_singleton hterminal
    | some message =>
      simpa [eventsFrom, emitted, EndsWithMarker, hs] using
        endsOnce_singleton (e := .error message) rfl
  | cons line lines ih =>
    rw [eventsFrom_cons]
    have hnext := h.ended_next s line
    have hcons : c.EndsWithMarker ended fails s (line :: lines) broken ↔
        fails s line = false ∧ c.EndsWithMarker ended fails (c.next s line) lines broken := by
      simp [EndsWithMarker, hs, and_assoc]
    rw [hcons]
    generalize hline : (c.line s line).2 = events
    have hshape := h.shape s line
    rw [hline] at hshape
    generalize hfinishes : finishes s line = f at hshape hnext
    generalize fails s line = g at hshape
    rw [hs, Bool.false_or] at hnext
    cases hshape with
    | going body hbody =>
      rw [endsOnce_append_iff hbody, ih hnext]
      simp
    | finished body hbody r =>
      rw [endsOnce_append_cons_iff hbody rfl, h.eventsFrom_eq_nil_iff hnext]
      simp
    | failed body hbody m =>
      rw [endsOnce_append_cons_iff hbody rfl]
      simp [h.eventsFrom_ne_nil hnext]

end Lawful

/-- A `done` among the events of the lines means that the client has ended. -/
lemma Lawful.ended_of_done_mem (h : Lawful c ended finishes fails) {s : σ}
    {lines : List (List Char)} {r : StopReason} (hr : .done r ∈ c.emitted s lines) :
    ended (Run.exec c.next s lines) = true := by
  induction lines generalizing s with
  | nil => cases hr
  | cons line lines ih =>
    rcases List.mem_append.1 hr with hr | hr
    · show ended (Run.exec c.next (c.next s line) lines) = true
      refine Run.exec_of_step (P := fun s => ended s = true)
        (fun s line hs => h.ended_next_of_ended hs line) ?_ lines
      have hshape := h.shape s line
      rw [h.ended_next]
      generalize finishes s line = f at hshape
      generalize fails s line = g at hshape
      generalize (c.line s line).2 = events at hshape hr
      cases hshape with
      | going body hbody => exact absurd (hbody _ hr) (by simp [StreamEvent.isTerminal])
      | finished body hbody r => simp
      | failed body hbody m =>
        rcases List.mem_append.1 hr with hr | hr
        · exact absurd (hbody _ hr) (by simp [StreamEvent.isTerminal])
        · cases List.mem_singleton.1 hr
    · exact ih hr

/-- **The exact condition of a client** whose end marker, when it ends the client, has arrived: its
events end once, and at the end of a body without the marker it does not send `done`. -/
theorem Lawful.honest_iff (h : Lawful c ended finishes fails)
    (hfinish : ∀ s, ended s = false → (∃ m, c.finish s = [.error m]) ∨ ∃ r, c.finish s = [.done r])
    {s : σ} (hs : ended s = false) {lines : List (List Char)} (broken : Option String) {marked : Bool}
    (hmarked : ended (Run.exec c.next s lines) = true → marked = true) :
    NeverTruncatedSuccess (c.eventsFrom s lines broken) marked ↔
      c.EndsWithMarker ended fails s lines broken ∧
        (marked = false → broken = none → ∀ r, c.finish (Run.exec c.next s lines) ≠ [.done r]) := by
  have hgoing (hm : marked = false) : ended (Run.exec c.next s lines) = false := by
    cases hended : ended (Run.exec c.next s lines) with
    | false => rfl
    | true => exact absurd (hmarked hended) (by simp [hm])
  constructor
  · intro hN
    refine ⟨(h.endsOnce_iff hs lines broken).1 hN.endsOnce, ?_⟩
    rintro hm rfl r hr
    have hdone : StreamEvent.done r ∈ c.eventsFrom s lines none := by simp [eventsFrom, hr]
    exact absurd (hN.honest r hdone) (by simp [hm])
  · rintro ⟨hends, hhonest⟩
    refine ⟨(h.endsOnce_iff hs lines broken).2 hends, ?_, ?_⟩
    · intro r hr
      rcases List.mem_append.1 hr with hr | hr
      · exact hmarked (h.ended_of_done_mem hr)
      · cases hm : marked with
        | true => rfl
        | false =>
          cases broken with
          | some message => simp at hr
          | none =>
            rcases hfinish _ (hgoing hm) with ⟨m, hfin⟩ | ⟨r', hfin⟩
            · simp [hfin] at hr
            · exact absurd hfin (hhonest hm rfl r')
    · intro hm _
      cases broken with
      | some message => exact ⟨message, by simp [eventsFrom]⟩
      | none =>
        rcases hfinish _ (hgoing hm) with ⟨m, hfin⟩ | ⟨r, hfin⟩
        · exact ⟨m, by simp [eventsFrom, hfin]⟩
        · exact absurd hfin (hhonest hm rfl r)

/-- The same for a client that sends an error whenever the end marker has not arrived. -/
lemma Lawful.honest_iff_of_error (h : Lawful c ended finishes fails)
    (hfinish : ∀ s, ended s = false → ∃ m, c.finish s = [.error m]) {s : σ} (hs : ended s = false)
    {lines : List (List Char)} (broken : Option String) {marked : Bool}
    (hmarked : ended (Run.exec c.next s lines) = marked) :
    NeverTruncatedSuccess (c.eventsFrom s lines broken) marked ↔
      c.EndsWithMarker ended fails s lines broken := by
  refine (h.honest_iff (fun s hs => .inl (hfinish s hs)) hs broken
    (fun he => hmarked.symm.trans he)).trans (and_iff_left fun hm _ r hr => ?_)
  obtain ⟨m, herror⟩ := hfinish _ (hmarked.trans hm)
  cases herror.symm.trans hr

/-- A client ends by one of its lines. -/
lemma Lawful.ended_exec (h : Lawful c ended finishes fails) {marks : List Char → Bool}
    (hmarks : ∀ s line, finishes s line = marks line) (s : σ) (lines : List (List Char)) :
    ended (Run.exec c.next s lines) = (ended s || lines.any marks) := by
  induction lines generalizing s with
  | nil => simp
  | cons line lines ih => rw [Run.exec_cons, ih, h.ended_next, hmarks, List.any_cons, Bool.or_assoc]

end ChatClient

/-! ## The four clients -/

/-- The client of chat completions sends everything that ends a stream at the end. -/
lemma openaiClient_lawful (env : StreamEnv) :
    (openaiClient env).Lawful (fun _ => false) (fun _ _ => false) (fun _ _ => false) where
  shape s line := by
    refine .going _ fun e he => ?_
    obtain ⟨hmem, hdone⟩ := List.mem_filter.1 he
    have hfailure := not_isFailure_of_mem_parseOpenaiSse env s.toolIndexMap line e hmem
    cases e with
    | done r => cases hdone
    | error m => cases hfailure
    | httpError status m => cases hfailure
    | _ => rfl
  ended_next _ _ := rfl
  finish_ended _ h := by cases h
  finish_going s _ := by
    simp only [openaiClient]
    split
    · refine ⟨_, rfl, ?_⟩
      simp only [resolveStreamOutcome, apply_ite StreamEvent.isTerminal]
      exact ite_self _
    · exact ⟨_, rfl, rfl⟩

lemma anthropicClient_lawful (env : StreamEnv) :
    (anthropicClient env).Lawful AnthropicState.sawTerminal (fun _ => anthropicFinishes env)
      (fun _ _ => false) where
  shape s line := parseAnthropicSse_shape env s.maps line
  ended_next s line := by
    show (s.sawTerminal || !((parseAnthropicSse env s.maps line).2.filterMap doneOf).isEmpty) = _
    rw [(parseAnthropicSse_shape env s.maps line).doneOf_isEmpty, Bool.not_not]
  finish_ended _ h := if_pos h
  finish_going s h := ⟨_, if_neg (by simp [h]), rfl⟩

lemma googleClient_lawful (env : StreamEnv) :
    (googleClient env).Lawful id (fun _ => googleFinishes env) (fun _ _ => false) where
  shape _ line := parseGoogleSse_shape env line
  ended_next s line := by
    show (s || !((parseGoogleSse env line).filterMap doneOf).isEmpty) = _
    rw [(parseGoogleSse_shape env line).doneOf_isEmpty, Bool.not_not]
    rfl
  finish_ended _ h := if_pos h
  finish_going s h := ⟨_, if_neg (by simpa using h), rfl⟩

/-- The data of a line of Responses, with the event that it belongs to. -/
def responsesData (env : StreamEnv) (judge : StreamEnv → String → List Char → Bool)
    (s : ResponsesState) (line : List Char) : Bool :=
  match responsesLine line with
  | .data data => judge env (s.currentEventType.getD "") data
  | _ => false

lemma responsesClient_lawful (env : StreamEnv) :
    (responsesClient env).Lawful ResponsesState.streamCompleted
      (responsesData env responsesFinishes) (responsesData env responsesFails) where
  shape s line := by
    simp only [responsesClient, responsesData]
    cases responsesLine line with
    | data data => exact parseResponsesSse_shape env s.maps _ data
    | _ => exact .nil
  ended_next s line := by
    simp only [ChatClient.next, responsesClient, responsesData]
    cases responsesLine line with
    | data data =>
      have h := (parseResponsesSse_shape env s.maps (s.currentEventType.getD "") data).doneOf_isEmpty
      simp [h]
    | _ => simp
  finish_ended s h := by simp [responsesClient, h]
  finish_going s h := by
    cases htool : s.sawToolCall <;> simp [responsesClient, h, htool, StreamEvent.isTerminal]

/-! ## The end of a reply -/

/-- The event that a line of Responses belongs to, after the line. -/
def responsesEventType (current : Option String) (line : List Char) : Option String :=
  match responsesLine line with
  | .event eventType => some eventType
  | .blank => none
  | _ => current

/-- The end marker of Responses is in one of the lines. -/
def responsesMarked (env : StreamEnv) : Option String → List (List Char) → Bool
  | _, [] => false
  | current, line :: lines =>
    (match responsesLine line with
      | .data data => responsesFinishes env (current.getD "") data
      | _ => false) || responsesMarked env (responsesEventType current line) lines

/-- The end marker of the protocol is in one of the lines: `finish_reason` or `[DONE]`,
`response.completed` or `response.incomplete`, `message_stop` or `stop_reason`, `finishReason`. -/
def ChatProtocol.marked (env : StreamEnv) (p : ChatProtocol) (lines : List (List Char)) : Bool :=
  match p with
  | .chatCompletions =>
    lines.any fun line => dataOf line = some doneSentinel || openaiFinishes env line
  | .responses => responsesMarked env none lines
  | .anthropic => lines.any (anthropicFinishes env)
  | .google => lines.any (googleFinishes env)

/-- The lines that have arrived of a reply. -/
def ChatReply.lines : ChatReply → List (List Char)
  | .stream items => (received items).1
  | _ => []

/-- The condition of a reply.  Chat completions: none.  Anthropic and Google: no line after the one
with the end marker yields an event, and the body does not break off after it.  Responses: the same;
no line reports a failure of the response; and a body without an end marker breaks off with an error
or has no tool call. -/
def ChatProtocol.Clean (env : StreamEnv) (p : ChatProtocol) : ChatReply → Prop
  | .stream items =>
    match p with
    | .chatCompletions => True
    | .responses =>
      (responsesClient env).EndsWithMarker ResponsesState.streamCompleted
          (responsesData env responsesFails) (responsesClient env).start (received items).1
          (received items).2 ∧
        (p.marked env (received items).1 = false → (received items).2 = none →
          ∀ e ∈ (responsesClient env).emitted (responsesClient env).start (received items).1,
            e.isToolCall = false)
    | .anthropic =>
      (anthropicClient env).EndsWithMarker AnthropicState.sawTerminal (fun _ _ => false)
        (anthropicClient env).start (received items).1 (received items).2
    | .google =>
      (googleClient env).EndsWithMarker id (fun _ _ => false) (googleClient env).start
        (received items).1 (received items).2
  | _ => True

/-! ### The end markers -/

/-- What the client of chat completions knows of the end marker. -/
def OpenaiState.marked (s : OpenaiState) : Bool := s.sseStopReason.isSome || s.sawDoneSentinel

lemma openaiState_marked_next (env : StreamEnv) (s : OpenaiState) (line : List Char) :
    ((openaiClient env).next s line).marked =
      (s.marked || (dataOf line = some doneSentinel || openaiFinishes env line)) := by
  have hlast (l : List StopReason) : l.getLast?.isSome = !l.isEmpty := by
    cases l <;> simp [List.getLast?_cons]
  show ((((parseOpenaiSse env s.toolIndexMap line).2.filterMap doneOf).getLast?.or
    s.sseStopReason).isSome || (s.sawDoneSentinel || decide (dataOf line = some doneSentinel))) = _
  rw [Option.isSome_or, hlast, parseOpenaiSse_done_isEmpty, OpenaiState.marked]
  cases openaiFinishes env line <;> cases s.sseStopReason.isSome <;> simp

/-- The client of chat completions knows of the end marker exactly when a line has it. -/
lemma marked_openai (env : StreamEnv) (s : OpenaiState) (lines : List (List Char)) :
    (Run.exec (openaiClient env).next s lines).marked =
      (s.marked || ChatProtocol.marked env .chatCompletions lines) := by
  induction lines generalizing s with
  | nil => simp [ChatProtocol.marked]
  | cons line lines ih =>
    rw [Run.exec_cons, ih, openaiState_marked_next, Bool.or_assoc]
    rfl

lemma currentEventType_next (env : StreamEnv) (s : ResponsesState) (line : List Char) :
    ((responsesClient env).next s line).currentEventType =
      responsesEventType s.currentEventType line := by
  simp only [ChatClient.next, responsesClient, responsesEventType]
  cases responsesLine line <;> rfl

/-- The client of Responses has completed exactly when a line has the end marker. -/
lemma marked_responses (env : StreamEnv) (s : ResponsesState) (lines : List (List Char)) :
    (Run.exec (responsesClient env).next s lines).streamCompleted =
      (s.streamCompleted || responsesMarked env s.currentEventType lines) := by
  induction lines generalizing s with
  | nil => simp [responsesMarked]
  | cons line lines ih =>
    rw [Run.exec_cons, ih, (responsesClient_lawful env).ended_next, currentEventType_next,
      Bool.or_assoc]
    rfl

lemma sawToolCall_next (env : StreamEnv) (s : ResponsesState) (line : List Char) :
    ((responsesClient env).next s line).sawToolCall =
      (s.sawToolCall || ((responsesClient env).line s line).2.any StreamEvent.isToolCall) := by
  simp only [ChatClient.next, responsesClient]
  cases responsesLine line with
  | data data => rfl
  | _ => simp

/-- The client of Responses has seen a tool call exactly when it has sent an event of one. -/
lemma sawToolCall_exec (env : StreamEnv) (s : ResponsesState) (lines : List (List Char)) :
    (Run.exec (responsesClient env).next s lines).sawToolCall =
      (s.sawToolCall || ((responsesClient env).emitted s lines).any StreamEvent.isToolCall) := by
  induction lines generalizing s with
  | nil => simp [ChatClient.emitted]
  | cons line lines ih =>
    rw [Run.exec_cons, ih, sawToolCall_next, ChatClient.emitted, List.any_append, Bool.or_assoc]

/-! ### Success only with an end marker -/

lemma resolveStreamOutcome_cases (sseStopReason : Option StopReason) (sawToolCall : Bool) :
    (∃ m, resolveStreamOutcome sseStopReason sawToolCall = .error m) ∨
      ∃ r, resolveStreamOutcome sseStopReason sawToolCall = .done r := by
  have h (c : Prop) [Decidable c] (m : String) (r : StopReason) :
      (∃ m', (if c then StreamEvent.error m else .done r) = .error m') ∨
        ∃ r', (if c then StreamEvent.error m else .done r) = .done r' := by
    split
    · exact .inl ⟨m, rfl⟩
    · exact .inr ⟨r, rfl⟩
  exact h _ _ _

/-- Whatever the reply is, the client of chat completions ends as it should. -/
lemma openaiClient_honest (env : StreamEnv) (lines : List (List Char)) (broken : Option String) :
    NeverTruncatedSuccess ((openaiClient env).eventsFrom (openaiClient env).start lines broken)
      (ChatProtocol.marked env .chatCompletions lines) := by
  have hfinish (s : OpenaiState) : (openaiClient env).finish s =
      if s.marked then [resolveStreamOutcome s.sseStopReason s.sawToolCall]
      else [.error ("stream closed before completion (no finish_reason / [DONE]; " ++
        "likely upstream truncation)")] := rfl
  refine ((openaiClient_lawful env).honest_iff ?_ rfl broken nofun).2 ⟨⟨?_, nofun⟩, ?_⟩
  · intro s _
    rw [hfinish]
    split
    · rcases resolveStreamOutcome_cases s.sseStopReason s.sawToolCall with ⟨m, h⟩ | ⟨r, h⟩
      · exact .inl ⟨m, congrArg (fun e => [e]) h⟩
      · exact .inr ⟨r, congrArg (fun e => [e]) h⟩
    · exact .inl ⟨_, rfl⟩
  · exact (Run.eachStep_true _ lines).imp fun _ _ _ => ⟨rfl, nofun⟩
  · intro hm _ r
    have hmarked := marked_openai env (openaiClient env).start lines
    rw [hm, Bool.or_false] at hmarked
    have hstart : (openaiClient env).start.marked = false := rfl
    rw [hfinish, hmarked, hstart, if_neg Bool.false_ne_true]
    simp

/-- The client of Responses. -/
lemma responsesClient_honest_iff (env : StreamEnv) (lines : List (List Char))
    (broken : Option String) :
    NeverTruncatedSuccess
        ((responsesClient env).eventsFrom (responsesClient env).start lines broken)
        (ChatProtocol.marked env .responses lines) ↔
      (responsesClient env).EndsWithMarker ResponsesState.streamCompleted
          (responsesData env responsesFails) (responsesClient env).start lines broken ∧
        (ChatProtocol.marked env .responses lines = false → broken = none →
          ∀ e ∈ (responsesClient env).emitted (responsesClient env).start lines,
            e.isToolCall = false) := by
  have hmarked := marked_responses env (responsesClient env).start lines
  have htool := sawToolCall_exec env (responsesClient env).start lines
  have hstart : (responsesClient env).start = {} := rfl
  rw [hstart, Bool.false_or] at hmarked htool
  have hfinish (s : ResponsesState) : (responsesClient env).finish s =
      if s.streamCompleted then [] else if s.sawToolCall then [.done .toolUse]
      else [.error "responses stream closed before completion (no response.completed)"] := rfl
  refine ((responsesClient_lawful env).honest_iff ?_ rfl broken ?_).trans
    (and_congr_right fun _ => ?_)
  · intro s hs
    rw [hfinish, if_neg (by simp [hs])]
    split
    · exact .inr ⟨_, rfl⟩
    · exact .inl ⟨_, rfl⟩
  · exact fun h => hmarked.symm.trans h
  · refine forall_congr' fun hm => forall_congr' fun _ => ?_
    have hgoing : responsesMarked env none lines = false := hm
    rw [hfinish, hstart, hmarked, hgoing, htool, if_neg Bool.false_ne_true]
    cases hany : ((responsesClient env).emitted {} lines).any StreamEvent.isToolCall with
    | false =>
      refine iff_of_true (by simp) fun e he => ?_
      exact Bool.eq_false_iff.2 (List.any_eq_false.1 hany e he)
    | true =>
      obtain ⟨e, he, htrue⟩ := List.any_eq_true.1 hany
      refine iff_of_false (by simp) fun h => ?_
      exact absurd htrue (by simp [h e he])

lemma anthropicClient_honest_iff (env : StreamEnv) (lines : List (List Char))
    (broken : Option String) :
    NeverTruncatedSuccess
        ((anthropicClient env).eventsFrom (anthropicClient env).start lines broken)
        (ChatProtocol.marked env .anthropic lines) ↔
      (anthropicClient env).EndsWithMarker AnthropicState.sawTerminal (fun _ _ => false)
        (anthropicClient env).start lines broken := by
  have hmarked := (anthropicClient_lawful env).ended_exec (fun _ _ => rfl)
    (anthropicClient env).start lines
  exact (anthropicClient_lawful env).honest_iff_of_error
    (fun s hs => ⟨_, if_neg (by simp [hs])⟩) rfl broken hmarked

lemma googleClient_honest_iff (env : StreamEnv) (lines : List (List Char))
    (broken : Option String) :
    NeverTruncatedSuccess ((googleClient env).eventsFrom (googleClient env).start lines broken)
        (ChatProtocol.marked env .google lines) ↔
      (googleClient env).EndsWithMarker id (fun _ _ => false) (googleClient env).start lines
        broken := by
  have hmarked := (googleClient_lawful env).ended_exec (fun _ _ => rfl) (googleClient env).start
    lines
  exact (googleClient_lawful env).honest_iff_of_error
    (fun s hs => ⟨_, if_neg (by simpa using hs)⟩) rfl broken hmarked

/-- **How the streams of the clients end**: the events for a reply end once, and with success only if
the end marker of the protocol has arrived, exactly when the reply meets the condition. -/
theorem neverTruncatedSuccess_iff (env : StreamEnv) (p : ChatProtocol) (reply : ChatReply) :
    NeverTruncatedSuccess (p.events env reply) (p.marked env reply.lines) ↔ p.Clean env reply := by
  cases reply with
  | sendFails message => exact iff_of_true (neverTruncatedSuccess_failure rfl _) trivial
  | sendTimesOut => exact iff_of_true (neverTruncatedSuccess_failure rfl _) trivial
  | httpStatus status statusText body =>
    exact iff_of_true (neverTruncatedSuccess_failure rfl _) trivial
  | stream items =>
    rw [ChatProtocol.events, ChatProtocol.streamEvents_eq, ChatReply.lines]
    cases p with
    | chatCompletions => exact iff_of_true (openaiClient_honest env _ _) trivial
    | responses => exact responsesClient_honest_iff env _ _
    | anthropic => exact anthropicClient_honest_iff env _ _
    | google => exact googleClient_honest_iff env _ _

/-! ### A body that breaks off -/

/-- The data that starts a call. -/
def cutAdded : List Char :=
  ("\x7b\"item\":\x7b\"type\":\"function_call\",\"call_id\":\"c1\",\"name\":\"shell\"\x7d," ++
    "\"output_index\":0\x7d").toList

/-- The data of the first piece of its arguments. -/
def cutDelta : List Char := "\x7b\"delta\":\"\x7b\",\"output_index\":0\x7d".toList

/-- A JSON library that knows these two texts. -/
def cutEnv : StreamEnv where
  fromStr text :=
    if text = cutAdded then
      some (.obj [("item", .obj [("type", .str "function_call"), ("call_id", .str "c1"),
        ("name", .str "shell")]), ("output_index", .num 0)])
    else if text = cutDelta then
      some (.obj [("delta", .str "\x7b"), ("output_index", .num 0)])
    else none
  chunkFromStr _ := none
  toText _ := ""

/-- The body breaks off after the first piece of the arguments. -/
def cutReply : ChatReply :=
  .stream [.ok (("event: response.output_item.added\ndata: ".toList ++ cutAdded ++
    "\n\nevent: response.function_call_arguments.delta\ndata: ".toList ++ cutDelta ++
    "\n\n".toList).map fun c => c.toNat.toUInt8)]

/-- **A cut tool call succeeds**: a body of Responses that breaks off in the arguments of a call ends
with `done`. -/
theorem cut_tool_call_succeeds :
    ¬ NeverTruncatedSuccess (ChatProtocol.events cutEnv .responses cutReply)
      (ChatProtocol.marked cutEnv .responses cutReply.lines) := by
  have hevents : ChatProtocol.events cutEnv .responses cutReply =
      [.toolCallStart "c1" "shell" "", .toolCallDelta 0 "c1" "" "\x7b", .done .toolUse] := by
    decide +kernel
  have hmarked : ChatProtocol.marked cutEnv .responses cutReply.lines = false := by decide +kernel
  intro h
  have hdone := h.honest .toolUse (by simp [hevents])
  rw [hmarked] at hdone
  cases hdone

end MyClaw
