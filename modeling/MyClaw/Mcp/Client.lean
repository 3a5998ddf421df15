import MyClaw.Lib.Run
import MyClaw.Mcp.Transport

set_option autoImplicit false

/-!
# Calls to the tools of an MCP server

`McpServer::call_tool` (`mcp/client.rs`) numbers its requests, sends one at a time and gives up after
a timeout; the transport decides which message of the server is the answer.

## Main definitions

* `McpServerInner.step` — one step of the calls, the transport and the server.
* `McpServerInner.Paired` — every message that was handed back is the response to its request.
* `McpServerInner.OwnAnswer` — the condition of a step.

## Main results

* `McpServerInner.paired_iff` — a run pairs all of them exactly when its steps meet the
  condition.
* `McpServerInner.late_response_shifts_pairing` — a response that comes after its call was
  dropped is handed to the next call.

## Implementation notes

A call that waits for the lock takes no step.  `timeout` stands for the deadlines of a call and of
`recv_raw`, and for a task that is dropped.  `returned` is not kept by the source; it says what
`send_and_recv` has returned.
-/

namespace MyClaw

/-- The transport of a server. -/
inductive McpTransportConn
  | stdio (t : StdioTransport)
  | http (t : HttpTransport)
  | sse (t : SseTransport)

namespace McpTransportConn

/-- `send_and_recv` begins. -/
def begin : McpTransportConn → McpTransportConn
  | .sse t => .sse t.begin
  | conn => conn

/-- The future of `send_and_recv` is dropped: what has arrived stays. -/
def abandon : McpTransportConn → McpTransportConn
  | .sse t => .sse t.abandon
  | conn => conn

end McpTransportConn

/-- `McpServerInner`, with the request of the call that has the lock. -/
structure McpServerInner where
  transport : McpTransportConn
  /-- A `u64` in the program; it does not come round. -/
  nextId : ℕ
  call : Option ℕ
  /-- The requests that were answered, each with the message that was handed back. -/
  returned : List (ℕ × JsonRpcResponse)

/-- What happens. -/
inductive McpEvent
  /-- A call asks for the lock. -/
  | callTool
  /-- The call that has the lock is dropped. -/
  | timeout
  /-- The process writes a line. -/
  | stdoutLine (text : List Char)
  /-- The process closes its stdout. -/
  | stdoutClosed
  /-- The loop over stdout takes its next turn. -/
  | recv
  /-- The POST of the HTTP transport is answered. -/
  | reply (sessionHeader : Option String) (r : HttpReply)
  /-- The SSE transport takes a step. -/
  | sse (e : SseStep)
  deriving DecidableEq

namespace McpServerInner

/-- A connection after the handshake, which used the ids 1 and 2; no request is under way. -/
def connected (conn : McpTransportConn) : McpServerInner := ⟨conn.abandon, 3, none, []⟩

/-- The lock is free: `call_tool` numbers its request, with `fetch_add` on 64 bits. -/
def callTool (s : McpServerInner) : McpServerInner :=
  { s with
    transport := s.transport.begin
    nextId := (s.nextId + 1) % 2 ^ 64
    call := some s.nextId }

/-- The transport has taken a step for the request `id`; a result ends the call. -/
def settle (s : McpServerInner) (id : ℕ) (conn : McpTransportConn) :
    CallResult → McpServerInner
  | none => { s with transport := conn }
  | some (.error _) => { s with transport := conn, call := none }
  | some (.ok m) => { s with transport := conn, call := none, returned := s.returned ++ [(id, m)] }

/-- One step. -/
def step (env : McpEnv) (s : McpServerInner) (e : McpEvent) : McpServerInner :=
  match e, s.transport, s.call with
  | .callTool, _, none => s.callTool
  | .timeout, conn, _ => { s with transport := conn.abandon, call := none }
  | .stdoutLine text, .stdio t, _ =>
    if t.closed then s
    else { s with transport := .stdio { t with stdoutLines := t.stdoutLines ++ [text] } }
  | .stdoutClosed, .stdio t, _ => { s with transport := .stdio { t with closed := true } }
  | .recv, .stdio t, some id => s.settle id (.stdio (t.recv env).1) (t.recv env).2
  | .reply header r, .http t, some id =>
    s.settle id (.http (t.reply env header r).1) (t.reply env header r).2
  | .sse e, .sse t, some id =>
    s.settle id (.sse (t.step env (some id) e).1) (t.step env (some id) e).2
  | .sse e, .sse t, none => { s with transport := .sse (t.step env none e).1 }
  | _, _, _ => s

/-- Every message that was handed back is the response to its request. -/
def Paired (s : McpServerInner) : Prop := ∀ p ∈ s.returned, p.2.Answers p.1

instance : DecidablePred Paired := fun s => inferInstanceAs (Decidable (∀ p ∈ s.returned, _))

/-- The condition of a step.  Of stdio: the line that is read next has no id, or is the response to
the call under way.  Of HTTP, and of an SSE server that answers in the reply to the POST: the message
that the reply is read as is the response to the call.  Of an SSE server that answers on the stream:
what came with the id of the call is a response and no request of the server, and the stream has not
ended while the call waited. -/
def OwnAnswer (env : McpEnv) (s : McpServerInner) (e : McpEvent) : Prop :=
  match e, s.transport, s.call with
  | .recv, .stdio t, some id =>
    ∀ line lines, t.stdoutLines = line :: lines → ∀ m,
      StdioTransport.lineMessage env line = .ok m → m.id ≠ none → m.Answers id
  | .reply _ r, .http _, some id => ∀ m, r.message env = some m → m.Answers id
  | .sse (.reply r), .sse t, some id =>
    ∀ q, t.request = some q → q.point.posts → ∀ m, r.direct env = some m → m.Answers id
  | .sse .await, .sse t, some _ =>
    ∀ q, t.request = some q → q.point = .awaiting → ∀ m, q.slot = some m →
      m.method = none ∧ m ≠ sseClosedNotice
  | _, _, _ => True

/-- What the sender of the call under way was given is for it. -/
def SlotOk (s : McpServerInner) : Prop :=
  ∀ t id, s.transport = .sse t → s.call = some id → t.SlotOf id

section Step

variable (env : McpEnv) {s : McpServerInner}

/-- Only a message that is handed back can break the pairing. -/
lemma paired_settle_iff (hs : s.Paired) (id : ℕ) (conn : McpTransportConn) (r : CallResult) :
    (s.settle id conn r).Paired ↔ ∀ m, r = some (.ok m) → m.Answers id := by
  match r with
  | none => exact ⟨fun _ => nofun, fun _ => hs⟩
  | some (.error _) => exact ⟨fun _ => nofun, fun _ => hs⟩
  | some (.ok m) =>
    constructor
    · rintro h _ ⟨⟩
      exact h (id, m) (by simp [settle])
    · intro h p hp
      rcases List.mem_append.1 hp with hp | hp
      · exact hs p hp
      · cases List.mem_singleton.1 hp
        exact h m rfl

/-- A call that is still under way was so before. -/
lemma call_settle {id k : ℕ} {conn : McpTransportConn} {r : CallResult}
    (h : (s.settle id conn r).call = some k) : s.call = some k := by
  match r with
  | none => exact h
  | some (.error _) => cases h
  | some (.ok _) => cases h

/-- The end of a call leaves the transport as it came out of it. -/
lemma transport_settle (id : ℕ) (conn : McpTransportConn) (r : CallResult) :
    (s.settle id conn r).transport = conn := by
  match r with
  | none => rfl
  | some (.error _) => rfl
  | some (.ok _) => rfl

/-- A request that begins has been given nothing. -/
lemma slotOf_begin (t : SseTransport) (id : ℕ) : t.begin.SlotOf id := by
  unfold SseTransport.begin
  split
  · exact SseTransport.slotOf_of_slot_none rfl rfl
  · split
    · exact SseTransport.slotOf_of_slot_none rfl rfl
    · exact SseTransport.slotOf_of_slot_none rfl rfl

/-- Every step keeps the invariant. -/
lemma slotOk_step (e : McpEvent) (hs : s.SlotOk) : (s.step env e).SlotOk := by
  unfold step
  split
  case h_1 =>
    intro t id ht _
    cases hconn : s.transport with
    | sse t' =>
      rw [callTool, hconn] at ht
      cases ht
      exact slotOf_begin t' id
    | stdio t' =>
      rw [callTool, hconn] at ht
      cases ht
    | http t' =>
      rw [callTool, hconn] at ht
      cases ht
  case h_2 =>
    intro t id _ hcall
    cases hcall
  case h_3 =>
    split
    · exact hs
    · intro t id ht
      cases ht
  case h_4 =>
    intro t id ht
    cases ht
  case h_5 =>
    intro t id ht _
    rw [transport_settle] at ht
    cases ht
  case h_6 =>
    intro t id ht _
    rw [transport_settle] at ht
    cases ht
  case h_7 _ _ _ e t id hconn hcall =>
    intro t' id' ht' hcall'
    rw [transport_settle] at ht'
    cases ht'
    have hid : s.call = some id' := call_settle hcall'
    rw [hcall] at hid
    cases hid
    exact SseTransport.slotOf_step (hs t id hconn hcall) e
  case h_8 _ _ _ e t hconn hcall =>
    intro t' id' _ hcall'
    have hid : s.call = some id' := hcall'
    rw [hcall] at hid
    cases hid
  case h_9 => exact hs

/-- What a step is for the pairing: one that hands nothing back, or the end of one of the three
transports' turns. -/
inductive StepCase (s : McpServerInner) (e : McpEvent) : McpServerInner → Prop
  | silent (s' : McpServerInner) (hreturned : s'.returned = s.returned) (hown : s.OwnAnswer env e) :
    StepCase s e s'
  | stdio (t : StdioTransport) (id : ℕ) (he : e = .recv) (hconn : s.transport = .stdio t)
    (hcall : s.call = some id) :
    StepCase s e (s.settle id (.stdio (t.recv env).1) (t.recv env).2)
  | http (t : HttpTransport) (id : ℕ) (header : Option String) (r : HttpReply)
    (he : e = .reply header r) (hconn : s.transport = .http t) (hcall : s.call = some id) :
    StepCase s e (s.settle id (.http (t.reply env header r).1) (t.reply env header r).2)
  | sse (t : SseTransport) (id : ℕ) (e' : SseStep) (he : e = .sse e') (hconn : s.transport = .sse t)
    (hcall : s.call = some id) :
    StepCase s e (s.settle id (.sse (t.step env (some id) e').1) (t.step env (some id) e').2)

/-- These are the cases of a step. -/
lemma stepCase_step (e : McpEvent) : StepCase env s e (s.step env e) := by
  unfold step
  split
  case h_1 => exact .silent _ rfl trivial
  case h_2 => exact .silent _ rfl trivial
  case h_3 =>
    split
    · exact .silent _ rfl trivial
    · exact .silent _ rfl trivial
  case h_4 => exact .silent _ rfl trivial
  case h_5 _ _ _ t id hconn hcall => exact .stdio t id rfl hconn hcall
  case h_6 _ _ _ header r t id hconn hcall => exact .http t id header r rfl hconn hcall
  case h_7 _ _ _ e t id hconn hcall => exact .sse t id e rfl hconn hcall
  case h_8 _ _ _ e t hconn hcall =>
    exact .silent _ rfl (by cases e <;> simp [OwnAnswer, hcall])
  case h_9 =>
    refine .silent _ rfl ?_
    unfold OwnAnswer
    -- a step that the condition speaks of is one of the other cases
    split <;> grind

/-- **A step keeps the pairing exactly when it meets the condition.** -/
theorem paired_step_iff (e : McpEvent) (hok : s.SlotOk) (hs : s.Paired) :
    (s.step env e).Paired ↔ s.OwnAnswer env e := by
  have hcase : StepCase env s e (s.step env e) := stepCase_step env e
  generalize s.step env e = s' at hcase
  cases hcase with
  | silent _ hreturned hown =>
    have hpaired : s'.Paired := by
      rw [Paired, hreturned]
      exact hs
    exact iff_of_true hpaired hown
  | stdio t id he hconn hcall =>
    rw [paired_settle_iff hs, he]
    simp only [OwnAnswer, hconn, hcall, StdioTransport.recv_ok_iff]
    constructor
    · intro h line lines hlines m hm hid
      exact h m ⟨line, lines, hlines, hm, hid⟩
    · rintro h m ⟨line, lines, hlines, hm, hid⟩
      exact h line lines hlines m hm hid
  | http t id header r he hconn hcall =>
    rw [paired_settle_iff hs, he]
    simp only [OwnAnswer, hconn, hcall, HttpTransport.reply_ok_iff]
  | sse t id e' he hconn hcall =>
    rw [paired_settle_iff hs, he]
    have hslot : t.SlotOf id := hok t id hconn hcall
    cases e' with
    | reply r =>
      simp only [OwnAnswer, hconn, hcall, SseTransport.step_ok_iff]
      constructor
      · intro h q hq hposts m hm
        exact h m ⟨q, hq, .inl ⟨r, rfl, hposts, hm⟩⟩
      · rintro h m ⟨q, hq, ⟨_, ⟨⟩, hposts, hm⟩ | ⟨⟨⟩, -⟩⟩
        exact h q hq hposts m hm
    | await =>
      simp only [OwnAnswer, hconn, hcall, SseTransport.step_ok_iff]
      constructor
      · intro h q hq hpoint m hm
        have hanswers : m.Answers id := h m ⟨q, hq, .inr ⟨trivial, hpoint, hm⟩⟩
        refine ⟨hanswers.1, ?_⟩
        rintro rfl
        cases hanswers.2
      · rintro h m ⟨q, hq, ⟨_, ⟨⟩, -⟩ | ⟨-, hpoint, hm⟩⟩
        obtain ⟨hmethod, hnotice⟩ := h q hq hpoint m hm
        exact ⟨hmethod, (hslot q hq m hm).resolve_right hnotice⟩
    | _ => simp [OwnAnswer, SseTransport.step_ok_iff]

end Step

/-- **The pairing of answers**: from a connection on, every answer that a call gets is the response to
its own request exactly when every step of the run meets the condition. -/
theorem paired_iff (env : McpEnv) (conn : McpTransportConn) (es : List McpEvent) :
    Run.Always (step env) Paired (connected conn) es ↔
      Run.EachStep (step env) (OwnAnswer env) (connected conn) es := by
  refine Run.always_iff_eachStep (fun _ e => slotOk_step env e)
    (fun _ e => paired_step_iff env e) ?_ ?_
  · intro t id _ hcall
    cases hcall
  · exact fun p hp => absurd hp List.not_mem_nil

/-! ### A late response -/

/-- The response to the request 3, and the line that it comes in. -/
def lateResponse : JsonRpcResponse := { id := some (.num 3), result := some "1" }

/-- The line of `lateResponse`. -/
def lateLine : List Char := "\x7b\"jsonrpc\":\"2.0\",\"id\":3,\"result\":1\x7d".toList

/-- A JSON reader that knows one line. -/
def lateEnv : McpEnv where
  fromStr text := if text = lateLine then some lateResponse else none
  fromValue text := if text = lateLine then some lateResponse else none

/-- The first call times out before the process answers; the second call reads that answer. -/
def lateRun : List McpEvent := [.callTool, .timeout, .stdoutLine lateLine, .callTool, .recv]

/-- **A late response shifts the pairing**: it is handed to the call after the one that it is for. -/
theorem late_response_shifts_pairing :
    ¬ Run.Always (step lateEnv) Paired (connected (.stdio ⟨[], false⟩)) lateRun ∧
      (Run.exec (step lateEnv) (connected (.stdio ⟨[], false⟩)) lateRun).returned =
        [(4, lateResponse)] := by
  decide +kernel

end McpServerInner

end MyClaw
