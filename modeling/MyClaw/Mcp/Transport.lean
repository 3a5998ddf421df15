import MyClaw.Mcp.Protocol

set_option autoImplicit false

/-!
# The transports of an MCP server

What `send_and_recv` does for a request with an id, step by step, over each of the three transports
(`mcp/transport/stdio.rs`, `http.rs` and `sse.rs`).  A step ends the call when it has a result.

## Main definitions

* `StdioTransport.recv` — one turn of the loop over the lines of stdout.
* `HttpTransport.reply` — the reply to the POST of a request.
* `SseTransport` — the stream of events, the senders that wait for a response, and the request
  under way.
* `SseTransport.SlotOf` — what the sender of a request has been given.

## Main results

* `StdioTransport.recv_ok_iff`, `HttpTransport.reply_ok_iff`,
  `SseTransport.step_ok_iff` — when a step hands a message back, and which.
* `SseTransport.slotOf_step` — a sender is given a message with the id of its request, or the
  notice that the stream has ended.

## Implementation notes

The server is free: it writes what it wants when it wants.  What the requests say is left out, and so
is to which of the two URLs of the SSE transport they go first; `prepare` says whether there is a second
one.  A line that is not UTF-8 is one that the JSON reader refuses.  The texts of errors are without
their values.
-/

namespace MyClaw

/-- `MAX_LINE_BYTES`. -/
def maxLineBytes : ℕ := 4 * 1024 * 1024

/-- What a step of `send_and_recv` has for the caller, if it ends the call. -/
abbrev CallResult := Option (Except String JsonRpcResponse)

/-! ## Stdio -/

/-- The stdout of the process: the lines that were not read, and whether it is closed. -/
structure StdioTransport where
  stdoutLines : List (List Char)
  closed : Bool

namespace StdioTransport

/-- The message in a line that `recv_raw` lets pass. -/
def lineMessage (env : McpEnv) (line : List Char) : Except String JsonRpcResponse :=
  if maxLineBytes < (line.map Char.utf8Size).sum then .error "MCP response too large"
  else
    match env.fromStr line with
    | none => .error "invalid JSON-RPC response"
    | some m => .ok m

/-- One turn of the loop of `send_and_recv`. -/
def recv (env : McpEnv) (t : StdioTransport) : StdioTransport × CallResult :=
  match t.stdoutLines with
  | [] => (t, if t.closed then some (.error "MCP server closed stdout") else none)
  | line :: lines =>
    ({ t with stdoutLines := lines },
      match lineMessage env line with
      | .error e => some (.error e)
      -- a message without an id is skipped; the id of any other is not looked at
      | .ok m => if m.id = none then none else some (.ok m))

/-- **The first line with an id is the answer**: a turn of the loop hands back the message of the next
line, if it has an id. -/
theorem recv_ok_iff (env : McpEnv) (t : StdioTransport) (m : JsonRpcResponse) :
    (recv env t).2 = some (.ok m) ↔
      ∃ line lines, t.stdoutLines = line :: lines ∧ lineMessage env line = .ok m ∧ m.id ≠ none := by
  unfold recv
  cases hlines : t.stdoutLines with
  | nil => cases t.closed <;> simp
  | cons line lines =>
    have hhead : (∃ l ls, line :: lines = l :: ls ∧ lineMessage env l = .ok m ∧ m.id ≠ none) ↔
        lineMessage env line = .ok m ∧ m.id ≠ none := by
      constructor
      · rintro ⟨_, _, ⟨⟩, h⟩
        exact h
      · exact fun h => ⟨line, lines, rfl, h⟩
    rw [hhead]
    cases hm : lineMessage env line with
    | error e => simp [hm]
    | ok m' =>
      by_cases hid : m'.id = none
      · simp only [hm, if_pos hid]
        constructor
        · nofun
        · rintro ⟨⟨⟩, hne⟩
          exact absurd hid hne
      · simp only [hm, if_neg hid]
        constructor
        · rintro ⟨⟩
          exact ⟨rfl, hid⟩
        · rintro ⟨⟨⟩, -⟩
          rfl

end StdioTransport

/-! ## HTTP -/

/-- The reply to a POST. -/
inductive HttpReply
  /-- There is none: no connection, or it breaks off before the head. -/
  | fails
  /-- A status that is no success. -/
  | status (code : ℕ)
  /-- A body that is no stream of events. -/
  | body (text : List Char)
  /-- A stream of events, up to its end. -/
  | stream (lines : List (List Char))
  /-- The body does not come before its deadline. -/
  | slow
  deriving DecidableEq

/-- The transport keeps the session that the server gave it. -/
structure HttpTransport where
  sessionId : Option String

/-- The message that a reply is read as. -/
def HttpReply.message (env : McpEnv) : HttpReply → Option JsonRpcResponse
  | .body text => if trimChars text = [] then none else env.fromStr (jsonText text)
  | .stream lines => (sseMessages env lines).head?
  | _ => none

namespace HttpTransport

/-- `update_session_id_from_headers`, with the trimmed header. -/
def updateSessionId (t : HttpTransport) (header : Option String) : HttpTransport :=
  match header with
  | some s => if s = "" then t else ⟨some s⟩
  | none => t

/-- The end of `send_and_recv`, with the session header of the reply. -/
def reply (env : McpEnv) (t : HttpTransport) (header : Option String) :
    HttpReply → HttpTransport × CallResult
  | .fails => (t, some (.error "HTTP request to MCP server failed"))
  | .status _ => (t, some (.error "MCP server returned HTTP"))
  | .body text => (t.updateSessionId header, some (parseJsonrpcResponseText env text))
  | .stream lines =>
    (t.updateSessionId header,
      match readFirstJsonrpcFromSse env lines with
      | some m => some (.ok m)
      | none => some (.error "MCP server returned no response in SSE stream"))
  | .slow =>
    (t.updateSessionId header,
      some (.error "timeout waiting for MCP response from streamable HTTP SSE stream"))

/-- **The message of the reply is the answer**, whatever its id. -/
theorem reply_ok_iff (env : McpEnv) (t : HttpTransport) (header : Option String) (r : HttpReply)
    (m : JsonRpcResponse) : (reply env t header r).2 = some (.ok m) ↔ r.message env = some m := by
  cases r with
  | fails => simp [reply, HttpReply.message]
  | status code => simp [reply, HttpReply.message]
  | slow => simp [reply, HttpReply.message]
  | body text =>
    rw [reply, Option.some.injEq, parseJsonrpcResponseText_eq_ok, HttpReply.message]
    by_cases hblank : trimChars text = []
    · simp [hblank]
    · simp [hblank]
  | stream lines =>
    rw [HttpReply.message, reply, readFirstJsonrpcFromSse_eq]
    cases (sseMessages env lines).head? <;> simp

end HttpTransport

/-! ## SSE -/

/-- `SseStreamState`. -/
inductive SseStreamState
  | unknown
  | connected
  | unsupported
  deriving DecidableEq

/-- How far a request has come. -/
inductive SsePoint
  /-- `ensure_connected` waits for the reply to its GET. -/
  | connecting
  /-- The stream is there, or cannot be; the URLs are looked up. -/
  | preparing
  /-- The POST to the first URL is under way; whether there is a second one. -/
  | posting (hasSecondary : Bool)
  /-- The POST to the second URL is under way. -/
  | postingSecond
  /-- The sender of the request is waited for. -/
  | awaiting
  deriving DecidableEq

/-- A POST is under way. -/
def SsePoint.posts : SsePoint → Bool
  | .posting _ | .postingSecond => true
  | _ => false

/-- The locals of `send_and_recv`. -/
structure SseRequest where
  point : SsePoint
  /-- There is a sender for the request: `rx` is some. -/
  registered : Bool := false
  /-- What the sender was given. -/
  slot : Option JsonRpcResponse := none

/-- The reply to the GET of `ensure_connected`. -/
inductive SseGetReply
  | fails
  | status (code : ℕ)
  | notEventStream
  | eventStream
  deriving DecidableEq

/-- The connection: `stream_state`, the reader task with the event that it is in, `pending`, and the
request under way. -/
structure SseTransport where
  streamState : SseStreamState
  reader : Option SseEvent
  pending : List ℕ
  request : Option SseRequest

/-- What the SSE transport waits for. -/
inductive SseStep
  /-- The GET of `ensure_connected` is answered. -/
  | get (r : SseGetReply)
  /-- The URLs are known. -/
  | prepare (hasSecondary : Bool)
  /-- The POST under way is answered. -/
  | reply (r : HttpReply)
  /-- The sender is looked at. -/
  | await
  /-- A line arrives on the stream of events. -/
  | line (text : List Char)
  /-- The stream of events ends. -/
  | close
  deriving DecidableEq

/-- The message that the reader sends to all that wait when the stream ends; its code is
`INTERNAL_ERROR`. -/
def sseClosedNotice : JsonRpcResponse :=
  { id := none, error := some { code := -32603, message := "SSE connection closed" } }

/-- The message of an event for the sender with its id. -/
def SseEvent.addressed (env : McpEnv) (e : SseEvent) : Option (ℕ × JsonRpcResponse) := do
  if e.data = [] || !e.isMessage then none
  let m ← env.fromValue e.data
  let id ← m.id.bind JsonId.asU64
  some (id, m)

/-- The message in the body of a reply to a POST; a body that cannot be read is no answer. -/
def HttpReply.direct (env : McpEnv) : HttpReply → Option JsonRpcResponse
  | .body text =>
    let trimmed := trimChars text
    if trimmed = [] then none
    else
      env.fromStr
        (if decide ("\ndata:".toList <:+: trimmed) || "data:".toList.isPrefixOf trimmed then
          extractJsonFromSseText trimmed
        else trimmed)
  | .stream lines => readFirstJsonrpcFromSse env lines
  | _ => none

namespace SseTransport

/-- A request begins: `ensure_connected` up to its GET. -/
def begin (t : SseTransport) : SseTransport :=
  if t.streamState = .unsupported then { t with request := some { point := .preparing } }
  else if t.reader.isSome then
    { t with streamState := .connected, request := some { point := .preparing } }
  else { t with request := some { point := .connecting } }

/-- The future of the request is dropped: its sender stays in `pending`. -/
def abandon (t : SseTransport) : SseTransport := { t with request := none }

/-- A request ends with an error. -/
def fail (t : SseTransport) (e : String) : SseTransport × CallResult := (t.abandon, some (.error e))

/-- The rest of `ensure_connected`. -/
def get (t : SseTransport) (q : SseRequest) : SseGetReply → SseTransport × CallResult
  | .fails => t.fail "SSE GET to MCP server failed"
  | .status code =>
    if code = 404 ∨ code = 405 then
      ({ t with streamState := .unsupported, request := some { q with point := .preparing } }, none)
    else t.fail "MCP server returned HTTP"
  | .notEventStream =>
    ({ t with streamState := .unsupported, request := some { q with point := .preparing } }, none)
  | .eventStream =>
    ({ t with
        streamState := .connected
        reader := some {}
        request := some { q with point := .preparing } }, none)

/-- The sender of the request is put into `pending`, and the POST is sent. -/
def prepare (t : SseTransport) (id : ℕ) (hasSecondary : Bool) : SseTransport :=
  if t.streamState = .connected then
    { t with
      pending := id :: t.pending.filter (· ≠ id)
      request := some { point := .posting hasSecondary, registered := true } }
  else { t with request := some { point := .posting hasSecondary } }

/-- The sender of the request is taken out of `pending`. -/
def unregister (t : SseTransport) (id : ℕ) (q : SseRequest) : SseTransport :=
  if q.registered then { t with pending := t.pending.filter (· ≠ id) } else t

/-- What follows the loop over the URLs when the last reply was a success. -/
def afterPost (t : SseTransport) (id : ℕ) (q : SseRequest) (direct : Option JsonRpcResponse) :
    SseTransport × CallResult :=
  match direct with
  | some m => ((t.unregister id q).abandon, some (.ok m))
  | none =>
    if q.registered then ({ t with request := some { q with point := .awaiting } }, none)
    else t.fail "MCP server returned no response"

/-- The reply to a POST; `first` says that it went to the first URL, and `hasSecondary` that there is
another one. -/
def reply (env : McpEnv) (t : SseTransport) (id : ℕ) (q : SseRequest) (first hasSecondary : Bool) :
    HttpReply → SseTransport × CallResult
  | .fails => t.fail "SSE POST to MCP server failed"
  | .status code =>
    if (code = 404 ∨ code = 405) ∧ first ∧ hasSecondary then
      ({ t with request := some { q with point := .postingSecond } }, none)
    else (t.unregister id q).fail "MCP server returned HTTP"
  | .slow =>
    if first ∧ hasSecondary then
      ({ t with request := some { q with point := .postingSecond } }, none)
    -- without a deadline of its own the body counts as empty
    else t.afterPost id q none
  | r => t.afterPost id q (r.direct env)

/-- `rx.await`. -/
def await (t : SseTransport) (q : SseRequest) : SseTransport × CallResult :=
  match q.slot with
  | some m => (t.abandon, some (.ok m))
  | none => (t, none)

/-- A message is given to the sender that has its id; only the request under way still listens. -/
def deliver (t : SseTransport) (call : Option ℕ) (id : ℕ) (m : JsonRpcResponse) : SseTransport :=
  if id ∈ t.pending then
    { t with
      pending := t.pending.filter (· ≠ id)
      request := t.request.map fun q =>
        if q.registered ∧ call = some id then { q with slot := some m } else q }
  else t

/-- The reader task takes a line; `handle_sse_event` if it ends an event. -/
def line (env : McpEnv) (t : SseTransport) (call : Option ℕ) (text : List Char) : SseTransport :=
  match t.reader with
  | none => t
  | some e =>
    let (e, ended) := e.line true text
    let t := { t with reader := some e }
    match ended.bind (SseEvent.addressed env) with
    | some (id, m) => t.deliver call id m
    | none => t

/-- The reader task ends: all that wait get the same notice. -/
def close (t : SseTransport) (call : Option ℕ) : SseTransport :=
  match t.reader with
  | none => t
  | some _ =>
    { t with
      reader := none
      pending := []
      request := t.request.map fun q =>
        if q.registered ∧ ∃ id ∈ t.pending, call = some id then
          { q with slot := some sseClosedNotice }
        else q }

/-- One step of the transport, while the call with the id `call` is under way. -/
def step (env : McpEnv) (t : SseTransport) (call : Option ℕ) (e : SseStep) :
    SseTransport × CallResult :=
  match e, call, t.request with
  | .line text, call, _ => (t.line env call text, none)
  | .close, call, _ => (t.close call, none)
  | .get r, some _, some q => if q.point = .connecting then t.get q r else (t, none)
  | .prepare hasSecondary, some id, some q =>
    if q.point = .preparing then (t.prepare id hasSecondary, none) else (t, none)
  | .reply r, some id, some q =>
    match q.point with
    | .posting hasSecondary => t.reply env id q true hasSecondary r
    | .postingSecond => t.reply env id q false true r
    | _ => (t, none)
  | .await, some _, some q => if q.point = .awaiting then t.await q else (t, none)
  | _, _, _ => (t, none)

/-! ### What a step hands back -/

section HandsBack

variable (env : McpEnv) (t : SseTransport) (id : ℕ) (q : SseRequest)

/-- A failure answers no request. -/
lemma fail_ne_ok (e : String) (m : JsonRpcResponse) : (t.fail e).2 ≠ some (.ok m) := nofun

/-- Nor does the GET of the stream. -/
lemma get_ne_ok (r : SseGetReply) (m : JsonRpcResponse) : (t.get q r).2 ≠ some (.ok m) := by
  cases r with
  | status code =>
    simp only [get]
    split
    · nofun
    · exact fail_ne_ok t _ m
  | fails => exact fail_ne_ok t _ m
  | notEventStream => nofun
  | eventStream => nofun

/-- After a POST the answer is the direct one. -/
lemma afterPost_ok_iff (direct : Option JsonRpcResponse) (m : JsonRpcResponse) :
    (t.afterPost id q direct).2 = some (.ok m) ↔ direct = some m := by
  cases direct with
  | some m' => simp [afterPost]
  | none =>
    simp only [afterPost]
    split <;> simp [fail]

/-- A reply is handed back exactly when its body has a message, whatever its id. -/
lemma reply_ok_iff (first hasSecondary : Bool) (r : HttpReply) (m : JsonRpcResponse) :
    (t.reply env id q first hasSecondary r).2 = some (.ok m) ↔ r.direct env = some m := by
  cases r with
  | fails => simp [reply, fail, HttpReply.direct]
  | status code =>
    simp only [reply]
    split <;> simp [fail, HttpReply.direct]
  | slow =>
    simp only [reply]
    split
    · simp [HttpReply.direct]
    · rw [afterPost_ok_iff]
      rfl
  | body text => exact afterPost_ok_iff t id q _ m
  | stream lines => exact afterPost_ok_iff t id q _ m

/-- At the end of the wait the answer is what the slot holds. -/
lemma await_ok_iff (m : JsonRpcResponse) : (t.await q).2 = some (.ok m) ↔ q.slot = some m := by
  unfold await
  cases q.slot <;> simp

/-- **What a step hands back** is the message in the reply to a POST, or what the sender was given. -/
theorem step_ok_iff (e : SseStep) (m : JsonRpcResponse) :
    (t.step env (some id) e).2 = some (.ok m) ↔
      ∃ q, t.request = some q ∧
        ((∃ r, e = .reply r ∧ q.point.posts ∧ r.direct env = some m) ∨
          (e = .await ∧ q.point = .awaiting ∧ q.slot = some m)) := by
  cases hq : t.request with
  | none => cases e <;> simp [step, hq]
  | some q =>
    cases e with
    | line text => simp [step]
    | close => simp [step]
    | prepare hasSecondary =>
      simp only [step, hq]
      split <;> simp
    | get r =>
      simp only [step, hq]
      split
      · simp [get_ne_ok]
      · simp
    | reply r =>
      cases hp : q.point <;> simp [step, hq, hp, reply_ok_iff, SsePoint.posts]
    | await =>
      by_cases hp : q.point = .awaiting <;> simp [step, hq, hp, await_ok_iff]

end HandsBack

/-! ### What a sender is given -/

/-- What the sender of the request has been given has its id, or says that the stream has ended. -/
def SlotOf (t : SseTransport) (id : ℕ) : Prop :=
  ∀ q, t.request = some q → ∀ m, q.slot = some m → m.id = some (.num id) ∨ m = sseClosedNotice

section SlotOf

variable {env : McpEnv} {t : SseTransport} {id : ℕ} {q : SseRequest}

/-- Without a request there is no slot. -/
lemma slotOf_of_request_none (h : t.request = none) : t.SlotOf id := by
  intro q hq
  rw [h] at hq
  cases hq

/-- An empty slot is fine. -/
lemma slotOf_of_slot_none (hq : t.request = some q) (h : q.slot = none) : t.SlotOf id := by
  intro q' hq' m hm
  rw [hq] at hq'
  cases hq'
  rw [h] at hm
  cases hm

/-- So is a slot that is left as it was. -/
lemma slotOf_of_slot_eq {t' : SseTransport} {q' : SseRequest} (h : t.SlotOf id)
    (hq : t.request = some q) (hq' : t'.request = some q') (hslot : q'.slot = q.slot) :
    t'.SlotOf id := by
  intro q'' hq'' m hm
  rw [hq'] at hq''
  cases hq''
  exact h q hq m (hslot ▸ hm)

/-- A failure leaves no slot. -/
lemma slotOf_fail (e : String) : (t.fail e).1.SlotOf id := slotOf_of_request_none rfl

/-- The GET of the stream leaves the slot. -/
lemma slotOf_get (h : t.SlotOf id) (hq : t.request = some q) (r : SseGetReply) :
    (t.get q r).1.SlotOf id := by
  cases r with
  | fails => exact slotOf_fail _
  | status code =>
    simp only [get]
    split
    · exact slotOf_of_slot_eq h hq rfl rfl
    · exact slotOf_fail _
  | notEventStream => exact slotOf_of_slot_eq h hq rfl rfl
  | eventStream => exact slotOf_of_slot_eq h hq rfl rfl

/-- A new sender has an empty slot. -/
lemma slotOf_prepare (hasSecondary : Bool) : (t.prepare id hasSecondary).SlotOf id := by
  unfold prepare
  split
  · exact slotOf_of_slot_none rfl rfl
  · exact slotOf_of_slot_none rfl rfl

/-- A POST that was answered with success leaves the slot. -/
lemma slotOf_afterPost (h : t.SlotOf id) (hq : t.request = some q)
    (direct : Option JsonRpcResponse) : (t.afterPost id q direct).1.SlotOf id := by
  cases direct with
  | some m => exact slotOf_of_request_none rfl
  | none =>
    simp only [afterPost]
    split
    · exact slotOf_of_slot_eq h hq rfl rfl
    · exact slotOf_fail _

/-- Every reply to a POST does. -/
lemma slotOf_reply (h : t.SlotOf id) (hq : t.request = some q) (first hasSecondary : Bool)
    (r : HttpReply) : (t.reply env id q first hasSecondary r).1.SlotOf id := by
  cases r with
  | fails => exact slotOf_fail _
  | status code =>
    simp only [reply]
    split
    · exact slotOf_of_slot_eq h hq rfl rfl
    · exact slotOf_fail _
  | slow =>
    simp only [reply]
    split
    · exact slotOf_of_slot_eq h hq rfl rfl
    · exact slotOf_afterPost h hq none
  | body text => exact slotOf_afterPost h hq _
  | stream lines => exact slotOf_afterPost h hq _

/-- So does the end of the wait. -/
lemma slotOf_await (h : t.SlotOf id) : (t.await q).1.SlotOf id := by
  unfold await
  cases q.slot with
  | some m => exact slotOf_of_request_none rfl
  | none => exact h

/-- A message that is delivered goes to the sender with its id. -/
lemma slotOf_deliver {k : ℕ} {m : JsonRpcResponse} (h : t.SlotOf id) (hm : m.id = some (.num k)) :
    (t.deliver (some id) k m).SlotOf id := by
  unfold deliver
  split
  · intro q' hq' m' hm'
    obtain ⟨q, hq, rfl⟩ := Option.map_eq_some_iff.1 hq'
    split at hm'
    · rename_i hown
      cases hm'
      cases hown.2
      exact .inl hm
    · exact h q hq m' hm'
  · exact h

/-- A message is addressed by its id. -/
lemma addressed_id {e : SseEvent} {k : ℕ} {m : JsonRpcResponse}
    (h : e.addressed env = some (k, m)) : m.id = some (.num k) := by
  unfold SseEvent.addressed at h
  split at h
  · cases h
  · simp only [Option.bind_eq_bind] at h
    obtain ⟨m', -, h⟩ := Option.bind_eq_some_iff.1 h
    obtain ⟨k', hk', h⟩ := Option.bind_eq_some_iff.1 h
    cases h
    obtain ⟨v, hv, hnum⟩ := Option.bind_eq_some_iff.1 hk'
    cases v with
    | num n =>
      cases hnum
      exact hv
    | str s => cases hnum
    | other text => cases hnum

/-- A line of the stream fills the slot of its id only. -/
lemma slotOf_line (h : t.SlotOf id) (text : List Char) : (t.line env (some id) text).SlotOf id := by
  unfold line
  cases t.reader with
  | none => exact h
  | some e =>
    have h' : ({ t with reader := some (e.line true text).1 } : SseTransport).SlotOf id := h
    cases hm : (e.line true text).2.bind (SseEvent.addressed env) with
    | none => simpa [hm] using h'
    | some km =>
      obtain ⟨ended, -, hended⟩ := Option.bind_eq_some_iff.1 hm
      simpa [hm] using slotOf_deliver h' (addressed_id hended)

/-- The end of the stream leaves the slot. -/
lemma slotOf_close (h : t.SlotOf id) : (t.close (some id)).SlotOf id := by
  unfold close
  cases t.reader with
  | none => exact h
  | some e =>
    intro q' hq' m hm
    obtain ⟨q, hq, rfl⟩ := Option.map_eq_some_iff.1 hq'
    split at hm
    · cases hm
      exact .inr rfl
    · exact h q hq m hm

/-- **A sender is given what is for it**: no step puts a message with another id where the request
waits. -/
theorem slotOf_step (h : t.SlotOf id) (e : SseStep) : (t.step env (some id) e).1.SlotOf id := by
  cases hq : t.request with
  | none =>
    cases e with
    | line text => exact slotOf_line h text
    | close => exact slotOf_close h
    | _ => simpa [step, hq] using h
  | some q =>
    cases e with
    | line text => exact slotOf_line h text
    | close => exact slotOf_close h
    | prepare hasSecondary =>
      simp only [step, hq]
      split
      · exact slotOf_prepare hasSecondary
      · exact h
    | get r =>
      simp only [step, hq]
      split
      · exact slotOf_get h hq r
      · exact h
    | reply r =>
      cases hp : q.point with
      | posting hasSecondary => simpa [step, hq, hp] using slotOf_reply h hq true hasSecondary r
      | postingSecond => simpa [step, hq, hp] using slotOf_reply h hq false true r
      | _ => simpa [step, hq, hp] using h
    | await =>
      simp only [step, hq]
      split
      · exact slotOf_await h
      · exact h

end SlotOf

end SseTransport

end MyClaw
