import MyClaw.Lib.Run
import MyClaw.Mcp.Transport

set_option autoImplicit false

/-!
# One request over the SSE transport

A request of `SseTransport::send_and_recv` from its beginning to each of its ways out, while the server
answers as it likes (`mcp/transport/sse.rs`).

## Main definitions

* `SseCall` — the transport, the id of the request, and how often it was accepted.
* `SseCall.OnceAndClean` — the request was accepted once at most, and when it is over nothing
  waits for its id.
* `SseCall.Orderly` — the condition of a step.
* `SseCall.Counted` — how often the request was accepted at each point.

## Main results

* `SseCall.Counted.step` — the count holds at each point of a run.
* `SseCall.onceAndClean_iff` — a request is accepted once and leaves nothing behind exactly when
  every step of its run meets the condition.

## Implementation notes

`accepted` and `late` are not kept by the source. A reply whose body does not come in time has a status of
success.
-/

namespace MyClaw

/-- The POST was answered with a status of success. -/
def HttpReply.isSuccess : HttpReply → Bool
  | .fails | .status _ => false
  | _ => true

/-- A request over the SSE transport; it is over when the transport has none under way. -/
structure SseCall where
  transport : SseTransport
  id : ℕ
  /-- How many POSTs of the request were answered with a status of success. -/
  accepted : ℕ
  /-- The body of the first POST was late, and there was a second URL to go on to. -/
  late : Bool

/-- What happens while a request is under way. -/
inductive SseCallEvent
  /-- The transport takes a step. -/
  | step (e : SseStep)
  /-- `get_message_url` fails. -/
  | invalidUrl
  /-- The caller drops the request: its deadline has passed. -/
  | timeout

namespace SseCall

/-- The request with the id `id` begins. -/
def start (t : SseTransport) (id : ℕ) : SseCall := ⟨t.begin, id, 0, false⟩

/-- A POST of the request is under way. -/
def posting (s : SseCall) : Bool := s.transport.request.any (·.point.posts)

/-- The first POST is under way, and there is a second URL. -/
def hasSecondUrl (s : SseCall) : Bool := s.transport.request.any (·.point = .posting true)

/-- The POST to the second URL is under way. -/
def postingSecond (s : SseCall) : Bool := s.transport.request.any (·.point = .postingSecond)

/-- One step. -/
def step (env : McpEnv) (s : SseCall) : SseCallEvent → SseCall
  | .step e =>
    { s with
      transport := (s.transport.step env (some s.id) e).1
      accepted :=
        match e with
        | .reply r => s.accepted + (s.posting && r.isSuccess).toNat
        | _ => s.accepted
      late := s.late || (s.hasSecondUrl && e = .reply .slow) }
  | .invalidUrl =>
    if s.transport.request.any (·.point = .preparing) then
      { s with transport := s.transport.abandon }
    else s
  | .timeout => { s with transport := s.transport.abandon }

/-- The request was accepted once at most, and when it is over its sender is not in `pending`. -/
def OnceAndClean (s : SseCall) : Prop :=
  s.accepted ≤ 1 ∧ (s.transport.request = none → s.id ∉ s.transport.pending)

instance : DecidablePred OnceAndClean := fun _ => inferInstanceAs (Decidable (_ ∧ _))

/-- The condition of a step. After a late body of the first POST the second one is not answered with a
status of success; and while the sender of the request is in `pending`, no POST fails without an answer
and the caller does not drop the request. -/
def Orderly (s : SseCall) : SseCallEvent → Prop
  | .step (.reply r) =>
    (s.postingSecond = true → s.late = true → r.isSuccess = false) ∧
      (s.posting = true → r = .fails → s.id ∉ s.transport.pending)
  | .timeout => s.transport.request ≠ none → s.id ∉ s.transport.pending
  | _ => True

instance (s : SseCall) (e : SseCallEvent) : Decidable (s.Orderly e) := by
  rcases e with (_ | _ | _ | _ | _ | _) | _ | _ <;> unfold Orderly <;> infer_instance

end SseCall

/-! ### The sender of a request -/

namespace SseTransport

/-- The sender of the request `id` is in `pending` only from its registration until it is given a
message. -/
def SenderPlaced (t : SseTransport) (id : ℕ) : Prop :=
  ∀ q, t.request = some q →
    (q.registered = false → id ∉ t.pending) ∧ (q.slot ≠ none → id ∉ t.pending) ∧
      (q.point = .connecting ∨ q.point = .preparing → q.registered = false)

/-- A request that is over has left nothing in `pending`. -/
def LeftClean (t : SseTransport) (id : ℕ) : Prop := t.request = none → id ∉ t.pending

section Sender

variable {env : McpEnv} {t : SseTransport} {id : ℕ} {q : SseRequest}

/-- Without a request no sender has to be placed. -/
lemma SenderPlaced.of_none (h : t.request = none) : t.SenderPlaced id := by
  intro q hq
  rw [h] at hq
  cases hq

/-- A request that goes on has left nothing yet. -/
lemma LeftClean.of_some {t : SseTransport} (h : t.request = some q) : t.LeftClean id := by
  intro hnone
  rw [h] at hnone
  cases hnone

/-- A request that goes on to another point keeps its sender where it is. -/
lemma SenderPlaced.move {t' : SseTransport} {q' : SseRequest} (h : t.SenderPlaced id)
    (hq : t.request = some q) (hq' : t'.request = some q') (hpending : t'.pending = t.pending)
    (hregistered : q'.registered = q.registered) (hslot : q'.slot = q.slot)
    (hearly : q'.point = .connecting ∨ q'.point = .preparing → q.registered = false) :
    t'.SenderPlaced id := by
  obtain ⟨hun, hgiven, -⟩ := h q hq
  intro q'' hq''
  rw [hq'] at hq''
  cases hq''
  rw [hpending, hregistered, hslot]
  exact ⟨hun, hgiven, hearly⟩

/-- The GET of the stream keeps the sender in its place. -/
lemma senderPlaced_get (h : t.SenderPlaced id) (hq : t.request = some q)
    (hpoint : q.point = .connecting) (r : SseGetReply) :
    (t.get q r).1.SenderPlaced id ∧ (t.get q r).1.LeftClean id := by
  have hregistered : q.registered = false := (h q hq).2.2 (.inl hpoint)
  have hout : id ∉ t.pending := (h q hq).1 hregistered
  cases r with
  | fails => exact ⟨.of_none rfl, fun _ => hout⟩
  | status code =>
    simp only [get]
    split
    · exact ⟨h.move hq rfl rfl rfl rfl fun _ => hregistered, .of_some rfl⟩
    · exact ⟨.of_none rfl, fun _ => hout⟩
  | notEventStream => exact ⟨h.move hq rfl rfl rfl rfl fun _ => hregistered, .of_some rfl⟩
  | eventStream => exact ⟨h.move hq rfl rfl rfl rfl fun _ => hregistered, .of_some rfl⟩

/-- So does the registration of the sender. -/
lemma senderPlaced_prepare (h : t.SenderPlaced id) (hq : t.request = some q)
    (hpoint : q.point = .preparing) (hasSecondary : Bool) :
    (t.prepare id hasSecondary).SenderPlaced id ∧ (t.prepare id hasSecondary).LeftClean id := by
  have hregistered : q.registered = false := (h q hq).2.2 (.inr hpoint)
  have hout : id ∉ t.pending := (h q hq).1 hregistered
  unfold prepare
  split
  · refine ⟨fun q' hq' => ?_, .of_some rfl⟩
    cases hq'
    exact ⟨nofun, fun hslot => absurd rfl hslot, by simp⟩
  · refine ⟨fun q' hq' => ?_, .of_some rfl⟩
    cases hq'
    exact ⟨fun _ => hout, fun _ => hout, fun _ => rfl⟩

/-- A sender that is taken out is out. -/
lemma notMem_unregister (h : t.SenderPlaced id) (hq : t.request = some q) :
    id ∉ (t.unregister id q).pending := by
  unfold unregister
  split
  · simp
  · next hregistered => exact (h q hq).1 (by simpa using hregistered)

/-- So does a POST that was answered with success. -/
lemma senderPlaced_afterPost (h : t.SenderPlaced id) (hq : t.request = some q)
    (direct : Option JsonRpcResponse) :
    (t.afterPost id q direct).1.SenderPlaced id ∧ (t.afterPost id q direct).1.LeftClean id := by
  cases direct with
  | some m => exact ⟨.of_none rfl, fun _ => notMem_unregister h hq⟩
  | none =>
    simp only [afterPost]
    split
    · exact ⟨h.move hq rfl rfl rfl rfl (by simp), .of_some rfl⟩
    · next hregistered =>
      exact ⟨.of_none rfl, fun _ => (h q hq).1 (by simpa using hregistered)⟩

/-- **A reply to a POST** leaves nothing behind, if there is one. -/
lemma senderPlaced_reply (h : t.SenderPlaced id) (hq : t.request = some q)
    (first hasSecondary : Bool) {r : HttpReply} (hr : r ≠ .fails) :
    (t.reply env id q first hasSecondary r).1.SenderPlaced id ∧
      (t.reply env id q first hasSecondary r).1.LeftClean id := by
  cases r with
  | fails => exact absurd rfl hr
  | status code =>
    simp only [reply]
    split
    · exact ⟨h.move hq rfl rfl rfl rfl (by simp), .of_some rfl⟩
    · exact ⟨.of_none rfl, fun _ => notMem_unregister h hq⟩
  | slow =>
    simp only [reply]
    split
    · exact ⟨h.move hq rfl rfl rfl rfl (by simp), .of_some rfl⟩
    · exact senderPlaced_afterPost h hq none
  | body text => exact senderPlaced_afterPost h hq _
  | stream lines => exact senderPlaced_afterPost h hq _

/-- So does the end of the wait. -/
lemma senderPlaced_await (h : t.SenderPlaced id) (hq : t.request = some q) :
    (t.await q).1.SenderPlaced id ∧ (t.await q).1.LeftClean id := by
  unfold await
  cases hslot : q.slot with
  | some m => exact ⟨.of_none rfl, fun _ => (h q hq).2.1 (by simp [hslot])⟩
  | none => exact ⟨h, .of_some hq⟩

/-- So does a message for any id. -/
lemma senderPlaced_deliver (h : t.SenderPlaced id) (k : ℕ) (m : JsonRpcResponse) :
    (t.deliver (some id) k m).SenderPlaced id ∧
      (t.LeftClean id → (t.deliver (some id) k m).LeftClean id) := by
  unfold deliver
  split
  · constructor
    · intro q' hq'
      obtain ⟨q, hq, rfl⟩ := Option.map_eq_some_iff.1 hq'
      obtain ⟨hun, hgiven, hearly⟩ := h q hq
      split
      · next hown =>
        cases hown.2
        exact ⟨fun _ => by simp, fun _ => by simp, hearly⟩
      · exact ⟨fun hr hmem => hun hr (List.mem_filter.1 hmem).1,
          fun hs hmem => hgiven hs (List.mem_filter.1 hmem).1, hearly⟩
    · intro hclean hnone hmem
      exact hclean (Option.map_eq_none_iff.1 hnone) (List.mem_filter.1 hmem).1
  · exact ⟨h, fun hclean => hclean⟩

/-- So does a line of the stream. -/
lemma senderPlaced_line (h : t.SenderPlaced id) (text : List Char) :
    (t.line env (some id) text).SenderPlaced id ∧
      (t.LeftClean id → (t.line env (some id) text).LeftClean id) := by
  unfold line
  cases t.reader with
  | none => exact ⟨h, fun hclean => hclean⟩
  | some e =>
    have h' : ({ t with reader := some (e.line true text).1 } : SseTransport).SenderPlaced id := h
    dsimp only
    cases (e.line true text).2.bind (SseEvent.addressed env) with
    | none => exact ⟨h', fun hclean => hclean⟩
    | some km =>
      obtain ⟨hplaced, hleft⟩ := senderPlaced_deliver h' km.1 km.2
      exact ⟨hplaced, fun hclean => hleft hclean⟩

/-- So does the end of the stream. -/
lemma senderPlaced_close (h : t.SenderPlaced id) :
    (t.close (some id)).SenderPlaced id ∧ (t.LeftClean id → (t.close (some id)).LeftClean id) := by
  unfold close
  cases t.reader with
  | none => exact ⟨h, fun hclean => hclean⟩
  | some e =>
    constructor
    · intro q' hq'
      obtain ⟨q, hq, rfl⟩ := Option.map_eq_some_iff.1 hq'
      refine ⟨fun _ => List.not_mem_nil, fun _ => List.not_mem_nil, ?_⟩
      split
      · exact (h q hq).2.2
      · exact (h q hq).2.2
    · exact fun _ _ => List.not_mem_nil

/-- **A step leaves nothing behind**, unless a POST fails without an answer. -/
lemma senderPlaced_step (h : t.SenderPlaced id) {e : SseStep}
    (he : e = .reply .fails → t.request.any (·.point.posts) = false) :
    (t.step env (some id) e).1.SenderPlaced id ∧
      (t.LeftClean id → (t.step env (some id) e).1.LeftClean id) := by
  cases hq : t.request with
  | none =>
    cases e with
    | line text => exact senderPlaced_line h text
    | close => exact senderPlaced_close h
    | _ => simpa [step, hq] using h
  | some q =>
    have hsame : t.SenderPlaced id ∧ (t.LeftClean id → t.LeftClean id) := ⟨h, fun hclean => hclean⟩
    cases e with
    | line text => exact senderPlaced_line h text
    | close => exact senderPlaced_close h
    | get r =>
      simp only [step, hq]
      split
      · next hpoint => exact (senderPlaced_get h hq hpoint r).imp_right fun hleft _ => hleft
      · exact hsame
    | prepare hasSecondary =>
      simp only [step, hq]
      split
      · next hpoint =>
        exact (senderPlaced_prepare h hq hpoint hasSecondary).imp_right fun hleft _ => hleft
      · exact hsame
    | await =>
      simp only [step, hq]
      split
      · exact (senderPlaced_await h hq).imp_right fun hleft _ => hleft
      · exact hsame
    | reply r =>
      have hr : q.point.posts = true → r ≠ .fails := by
        rintro hposts rfl
        have hnot := he rfl
        rw [hq, Option.any_some, hposts] at hnot
        cases hnot
      simp only [step, hq]
      cases hpoint : q.point with
      | posting hasSecondary =>
        exact (senderPlaced_reply h hq true hasSecondary (hr (by rw [hpoint]; rfl))).imp_right
          fun hleft _ => hleft
      | postingSecond =>
        exact (senderPlaced_reply h hq false true (hr (by rw [hpoint]; rfl))).imp_right
          fun hleft _ => hleft
      | connecting => exact hsame
      | preparing => exact hsame
      | awaiting => exact hsame

/-- A POST that fails without an answer ends the request, and its sender stays where it is. -/
lemma step_reply_fails (hposts : t.request.any (·.point.posts) = true) :
    (t.step env (some id) (.reply .fails)).1 = t.abandon := by
  cases hq : t.request with
  | none =>
    rw [hq] at hposts
    cases hposts
  | some q =>
    rw [hq, Option.any_some] at hposts
    simp only [step, hq]
    cases hpoint : q.point with
    | posting hasSecondary => rfl
    | postingSecond => rfl
    | connecting => rw [hpoint] at hposts; cases hposts
    | preparing => rw [hpoint] at hposts; cases hposts
    | awaiting => rw [hpoint] at hposts; cases hposts

/-- A request begins with its id free. -/
lemma senderPlaced_begin (h : id ∉ t.pending) :
    t.begin.SenderPlaced id ∧ t.begin.LeftClean id := by
  unfold begin
  split
  · refine ⟨fun q hq => ?_, .of_some rfl⟩
    cases hq
    exact ⟨fun _ => h, fun _ => h, fun _ => rfl⟩
  · split
    · refine ⟨fun q hq => ?_, .of_some rfl⟩
      cases hq
      exact ⟨fun _ => h, fun _ => h, fun _ => rfl⟩
    · refine ⟨fun q hq => ?_, .of_some rfl⟩
      cases hq
      exact ⟨fun _ => h, fun _ => h, fun _ => rfl⟩

/-- A request that begins is connecting or preparing. -/
lemma point_begin (hq : t.begin.request = some q) : q.point = .connecting ∨ q.point = .preparing := by
  unfold begin at hq
  split at hq
  · cases hq
    exact .inr rfl
  · split at hq
    · cases hq
      exact .inr rfl
    · cases hq
      exact .inl rfl

end Sender

/-! ### Where a request goes -/

/-- **Where a step leads a request**: the POST is sent again, to the second URL, only after a status that
is no success or after a late body. -/
inductive PointStep (e : SseStep) : SsePoint → SsePoint → Prop
  | stay (p : SsePoint) (he : ∀ r, e = .reply r → p.posts = false) : PointStep e p p
  | connected : PointStep e .connecting .preparing
  | post (hasSecondary : Bool) : PointStep e .preparing (.posting hasSecondary)
  | wait (p : SsePoint) : PointStep e p .awaiting
  | again (r : HttpReply) (he : e = .reply r) (hr : r = .slow ∨ ∃ code, r = .status code) :
    PointStep e (.posting true) .postingSecond

section Points

variable {env : McpEnv} {t : SseTransport} {id : ℕ} {q q' : SseRequest} {e : SseStep}

/-- A message for the sender leaves the request where it is. -/
lemma point_deliver {call : Option ℕ} {k : ℕ} {m : JsonRpcResponse}
    (hq' : (t.deliver call k m).request = some q') :
    ∃ q, t.request = some q ∧ q'.point = q.point := by
  unfold deliver at hq'
  split at hq'
  · obtain ⟨q, hq, rfl⟩ := Option.map_eq_some_iff.1 hq'
    refine ⟨q, hq, ?_⟩
    split <;> rfl
  · exact ⟨q', hq', rfl⟩

/-- A line on the stream of events leaves the request where it is. -/
lemma point_line {call : Option ℕ} {text : List Char} (hq' : (t.line env call text).request = some q') :
    ∃ q, t.request = some q ∧ q'.point = q.point := by
  unfold line at hq'
  split at hq'
  · exact ⟨q', hq', rfl⟩
  · dsimp only at hq'
    split at hq'
    · obtain ⟨q, hq, hpoint⟩ := point_deliver hq'
      exact ⟨q, hq, hpoint⟩
    · exact ⟨q', hq', rfl⟩

/-- The end of the stream of events leaves the request where it is. -/
lemma point_close {call : Option ℕ} (hq' : (t.close call).request = some q') :
    ∃ q, t.request = some q ∧ q'.point = q.point := by
  unfold close at hq'
  split at hq'
  · exact ⟨q', hq', rfl⟩
  · obtain ⟨q, hq, rfl⟩ := Option.map_eq_some_iff.1 hq'
    refine ⟨q, hq, ?_⟩
    split <;> rfl

/-- After the last reply the request is over or waits for its sender. -/
lemma point_afterPost {direct : Option JsonRpcResponse}
    (hq' : (t.afterPost id q direct).1.request = some q') : q'.point = .awaiting := by
  cases direct with
  | some m => cases hq'
  | none =>
    simp only [afterPost] at hq'
    split at hq'
    · cases hq'
      rfl
    · cases hq'

/-- A reply to a POST leads on to the second URL, or to the end of the loop. -/
lemma point_reply {first hasSecondary : Bool} {r : HttpReply}
    (hq' : (t.reply env id q first hasSecondary r).1.request = some q') :
    q'.point = .awaiting ∨ q'.point = .postingSecond ∧ first = true ∧ hasSecondary = true ∧
      (r = .slow ∨ ∃ code, r = .status code) := by
  cases r with
  | fails => cases hq'
  | status code =>
    simp only [reply] at hq'
    split at hq'
    · next hmiss =>
      cases hq'
      exact .inr ⟨rfl, hmiss.2.1, hmiss.2.2, .inr ⟨code, rfl⟩⟩
    · cases hq'
  | slow =>
    simp only [reply] at hq'
    split at hq'
    · next hlate =>
      cases hq'
      exact .inr ⟨rfl, hlate.1, hlate.2, .inl rfl⟩
    · exact .inl (point_afterPost hq')
  | body text => exact .inl (point_afterPost hq')
  | stream lines => exact .inl (point_afterPost hq')

/-- **The points of a step**. -/
lemma pointStep_step (hq' : (t.step env (some id) e).1.request = some q') :
    ∃ q, t.request = some q ∧ PointStep e q.point q'.point := by
  have hstay : ∀ {q : SseRequest}, t.request = some q → q'.point = q.point →
      (∀ r, e = .reply r → q.point.posts = false) →
        ∃ q, t.request = some q ∧ PointStep e q.point q'.point := fun {q} hq hpoint he =>
    ⟨q, hq, hpoint ▸ .stay q.point he⟩
  cases e with
  | line text =>
    obtain ⟨q, hq, hpoint⟩ := point_line hq'
    exact hstay hq hpoint fun _ he => by cases he
  | close =>
    obtain ⟨q, hq, hpoint⟩ := point_close hq'
    exact hstay hq hpoint fun _ he => by cases he
  | get r =>
    cases hq : t.request with
    | none => simp [step, hq] at hq'
    | some q =>
      simp only [step, hq] at hq'
      split at hq'
      · next hpoint =>
        refine ⟨q, rfl, ?_⟩
        rw [hpoint]
        have hpreparing : q'.point = .preparing := by
          cases r with
          | fails => cases hq'
          | status code =>
            simp only [get] at hq'
            split at hq'
            · cases hq'
              rfl
            · cases hq'
          | notEventStream =>
            cases hq'
            rfl
          | eventStream =>
            cases hq'
            rfl
        rw [hpreparing]
        exact .connected
      · exact hq ▸ hstay (hq'.symm ▸ rfl) rfl fun _ he => by cases he
  | prepare hasSecondary =>
    cases hq : t.request with
    | none => simp [step, hq] at hq'
    | some q =>
      simp only [step, hq] at hq'
      split at hq'
      · next hpoint =>
        refine ⟨q, rfl, ?_⟩
        rw [hpoint]
        have hposting : q'.point = .posting hasSecondary := by
          unfold prepare at hq'
          split at hq' <;> cases hq' <;> rfl
        rw [hposting]
        exact .post hasSecondary
      · exact hq ▸ hstay (hq'.symm ▸ rfl) rfl fun _ he => by cases he
  | await =>
    cases hq : t.request with
    | none => simp [step, hq] at hq'
    | some q =>
      simp only [step, hq] at hq'
      split at hq'
      · unfold await at hq'
        split at hq'
        · cases hq'
        · exact hq ▸ hstay hq' rfl fun _ he => by cases he
      · exact hq ▸ hstay hq' rfl fun _ he => by cases he
  | reply r =>
    cases hq : t.request with
    | none => simp [step, hq] at hq'
    | some q =>
      refine ⟨q, rfl, ?_⟩
      have hold : q.point.posts = false → (t.step env (some id) (.reply r)).1.request = some q := by
        intro hposts
        cases hpoint : q.point with
        | posting b => rw [hpoint] at hposts; cases hposts
        | postingSecond => rw [hpoint] at hposts; cases hposts
        | connecting | preparing | awaiting => simp [step, hq, hpoint]
      simp only [step, hq] at hq'
      cases hpoint : q.point with
      | posting hasSecondary =>
        rw [hpoint] at hq'
        rcases point_reply hq' with hnext | ⟨hnext, -, hsecond, hr⟩
        · rw [hnext]
          exact .wait _
        · rw [hnext, show hasSecondary = true from hsecond]
          exact .again r rfl hr
      | postingSecond =>
        rw [hpoint] at hq'
        rcases point_reply hq' with hnext | ⟨-, hfirst, -⟩
        · rw [hnext]
          exact .wait _
        · cases hfirst
      | connecting | preparing | awaiting =>
        have hsame := hold (by rw [hpoint]; rfl)
        rw [hpoint] at hq'
        obtain rfl : q = q' := Option.some.inj (hq.symm.trans hq')
        rw [hpoint]
        exact .stay _ fun _ _ => rfl

end Points

end SseTransport

/-! ### Runs -/

namespace SseCall

variable {env : McpEnv} {s : SseCall}

lemma senderPlaced_step (h : s.transport.SenderPlaced s.id) (e : SseCallEvent) :
    (s.step env e).transport.SenderPlaced (s.step env e).id := by
  cases e with
  | timeout => exact .of_none rfl
  | invalidUrl =>
    simp only [step]
    split
    · exact .of_none rfl
    · exact h
  | step e =>
    by_cases hfails : e = .reply .fails ∧ s.transport.request.any (·.point.posts) = true
    · obtain ⟨rfl, hposts⟩ := hfails
      have hstep : (s.transport.step env (some s.id) (.reply .fails)).1 = s.transport.abandon :=
        SseTransport.step_reply_fails hposts
      exact .of_none (congrArg SseTransport.request hstep)
    · exact (SseTransport.senderPlaced_step h fun he => by simpa [he] using hfails).1

/-- A step that is not a failing POST keeps the request clean, if it is accepted once at most. -/
lemma onceAndClean_step_of_ne {e : SseStep} (h : s.transport.SenderPlaced s.id)
    (hs : s.OnceAndClean)
    (he : e = .reply .fails → s.transport.request.any (·.point.posts) = false) :
    (s.step env (.step e)).OnceAndClean ↔ (s.step env (.step e)).accepted ≤ 1 :=
  and_iff_left ((SseTransport.senderPlaced_step h he).2 hs.2)

/-! ### How often the request is accepted -/

/-- What a point of a request says of the POSTs that were accepted: none before the reply to the first
one, and at the second one the first if its body was late. -/
def CountedAt (s : SseCall) : SsePoint → Prop
  | .connecting | .preparing | .posting _ => s.accepted = 0 ∧ s.late = false
  | .postingSecond => s.accepted = s.late.toNat
  | .awaiting => True

/-- What holds of the POSTs that were accepted. -/
def Counted (s : SseCall) : Prop := ∀ q ∈ s.transport.request, s.CountedAt q.point

/-- A request that is over is not sent again. -/
lemma Counted.of_none (h : s.transport.request = none) : s.Counted := by
  intro q hq
  rw [h] at hq
  cases hq

/-- A step that is no reply to a POST under way counts nothing. -/
lemma step_counts {q : SseRequest} (hq : s.transport.request = some q) {e : SseStep}
    (he : ∀ r, e = .reply r → q.point.posts = false) :
    (s.step env (.step e)).accepted = s.accepted ∧ (s.step env (.step e)).late = s.late := by
  have hposting : ∀ r, e = .reply r → s.posting = false := by
    intro r hr
    rw [posting, hq, Option.any_some]
    exact he r hr
  have hlate : (s.hasSecondUrl && decide (e = .reply .slow)) = false := by
    by_cases hslow : e = .reply .slow
    · have hpoint : q.point ≠ .posting true := by
        intro hpoint
        have hnot := he .slow hslow
        rw [hpoint] at hnot
        cases hnot
      rw [hasSecondUrl, hq, Option.any_some, decide_eq_false hpoint, Bool.false_and]
    · rw [decide_eq_false hslow, Bool.and_false]
  constructor
  · cases e with
    | reply r => simp [step, hposting r rfl]
    | _ => rfl
  · simp only [step]
    rw [hlate, Bool.or_false]

/-- **The count of a step**: a POST is sent again only after a status that accepts nothing, or after a
late body. -/
lemma Counted.step (h : s.Counted) (e : SseCallEvent) : (s.step env e).Counted := by
  cases e with
  | timeout => exact .of_none rfl
  | invalidUrl =>
    simp only [SseCall.step]
    split
    · exact .of_none rfl
    · exact h
  | step e =>
    intro q' hq'
    obtain ⟨q, hq, hnext⟩ := SseTransport.pointStep_step hq'
    have hold : s.CountedAt q.point := h q hq
    generalize hpoint : q.point = p at hnext hold
    generalize q'.point = p' at hnext ⊢
    cases hnext with
    | wait => trivial
    | stay _ he =>
      obtain ⟨haccepted, hlate⟩ := @step_counts env s q hq e (hpoint ▸ he)
      unfold CountedAt at hold ⊢
      rw [haccepted, hlate]
      exact hold
    | connected | post =>
      have hposts : q.point.posts = false := by rw [hpoint]; rfl
      obtain ⟨haccepted, hlate⟩ := @step_counts env s q hq e fun _ _ => hposts
      exact ⟨haccepted.trans hold.1, hlate.trans hold.2⟩
    | again r he hr =>
      subst he
      obtain ⟨hzero, hlate⟩ := hold
      have hposting : s.posting = true := by rw [posting, hq, Option.any_some, hpoint]; rfl
      have hsecond : s.hasSecondUrl = true := by
        rw [hasSecondUrl, hq, Option.any_some, hpoint]
        rfl
      rcases hr with rfl | ⟨code, rfl⟩
      · simp [CountedAt, SseCall.step, hposting, hsecond, hzero, hlate, HttpReply.isSuccess]
      · simp [CountedAt, SseCall.step, hposting, hsecond, hzero, hlate, HttpReply.isSuccess]

/-- **A reply is the second that accepts** exactly if it is a status of success at the second URL, after
a late body at the first. -/
lemma accepted_reply_iff (h : s.Counted) (hs : s.accepted ≤ 1) (r : HttpReply) :
    (s.step env (.step (.reply r))).accepted ≤ 1 ↔
      (s.postingSecond = true → s.late = true → r.isSuccess = false) := by
  cases hq : s.transport.request with
  | none => simpa [step, posting, postingSecond, hq] using hs
  | some q =>
    have hcount : s.CountedAt q.point := h q hq
    cases hpoint : q.point with
    | posting hasSecondary =>
      rw [hpoint] at hcount
      have hzero : s.accepted = 0 := hcount.1
      have hle : (s.posting && r.isSuccess).toNat ≤ 1 := Bool.toNat_le _
      refine iff_of_true ?_ (by simp [postingSecond, hq, hpoint])
      simpa [step, hzero] using hle
    | postingSecond =>
      rw [hpoint] at hcount
      have haccepted : s.accepted = s.late.toNat := hcount
      have hposting : s.posting = true := by rw [posting, hq, Option.any_some, hpoint]; rfl
      have hsecond : s.postingSecond = true := by
        rw [postingSecond, hq, Option.any_some, hpoint]
        rfl
      simp only [step, hposting, hsecond, haccepted, Bool.true_and, true_implies]
      cases s.late <;> cases r.isSuccess <;> decide
    | connecting | preparing | awaiting =>
      simpa [step, posting, postingSecond, hq, hpoint, SsePoint.posts] using hs

/-- **A step keeps the request clean exactly when it meets the condition**. -/
theorem onceAndClean_step_iff (e : SseCallEvent) (h : s.transport.SenderPlaced s.id)
    (hcount : s.Counted) (hs : s.OnceAndClean) : (s.step env e).OnceAndClean ↔ s.Orderly e := by
  cases e with
  | timeout =>
    constructor
    · exact fun hclean _ => hclean.2 rfl
    · intro hclean
      refine ⟨hs.1, fun _ => ?_⟩
      by_cases hover : s.transport.request = none
      · exact hs.2 hover
      · exact hclean hover
  | invalidUrl =>
    refine iff_of_true ?_ trivial
    simp only [step]
    split
    · next hpoint =>
      obtain ⟨q, hq, hpreparing⟩ := (Option.any_eq_true _ _).1 hpoint
      obtain ⟨hout, -, hearly⟩ := h q hq
      exact ⟨hs.1, fun _ => hout (hearly (.inr (by simpa using hpreparing)))⟩
    · exact hs
  | step e =>
    cases e with
    | reply r =>
      have haccepted : (s.step env (.step (.reply r))).accepted ≤ 1 ↔ _ :=
        accepted_reply_iff hcount hs.1 r
      by_cases hfails : s.posting = true ∧ r = .fails
      · obtain ⟨hposting, rfl⟩ := hfails
        have hstep : (s.step env (.step (.reply .fails))).transport = s.transport.abandon :=
          SseTransport.step_reply_fails hposting
        have hclean : (s.step env (.step (.reply .fails))).OnceAndClean ↔
            (s.step env (.step (.reply .fails))).accepted ≤ 1 ∧ s.id ∉ s.transport.pending := by
          refine and_congr_right fun _ => ?_
          rw [hstep]
          exact forall_prop_of_true rfl
        rw [hclean, haccepted]
        exact and_congr_right fun _ => ⟨fun hout _ _ => hout, fun hout => hout hposting rfl⟩
      · rw [onceAndClean_step_of_ne h hs fun he => ?_, haccepted]
        · exact (and_iff_left fun hposting hr => absurd ⟨hposting, hr⟩ hfails).symm
        · cases he
          exact eq_false_of_ne_true fun hposting => hfails ⟨hposting, rfl⟩
    | _ =>
      rw [onceAndClean_step_of_ne h hs (by intro he; cases he)]
      exact iff_of_true hs.1 trivial

/-- **A request is accepted once and leaves nothing behind**, on every way out, exactly when every step
of its run meets the condition.

**Proof sketch.** The sender of the request is in `pending` from its registration until it is given a
message, so it is left behind only by a POST without an answer and by a caller that drops the request.
A POST is sent again only after a status of 404 or 405, which accepts nothing, or after a late body; so a
second one is accepted only after a late body. -/
theorem onceAndClean_iff (env : McpEnv) (t : SseTransport) (id : ℕ) (hid : id ∉ t.pending)
    (es : List SseCallEvent) :
    Run.Always (step env) OnceAndClean (start t id) es ↔
      Run.EachStep (step env) Orderly (start t id) es := by
  obtain ⟨hplaced, hclean⟩ := SseTransport.senderPlaced_begin hid
  have hcounted : (start t id).Counted := by
    intro q hq
    have hpoint : q.point = .connecting ∨ q.point = .preparing := SseTransport.point_begin hq
    rcases hpoint with hpoint | hpoint <;> rw [hpoint] <;> exact ⟨rfl, rfl⟩
  exact Run.always_iff_eachStep (I := fun s => s.transport.SenderPlaced s.id ∧ s.Counted)
    (fun _ e h => ⟨senderPlaced_step h.1 e, h.2.step e⟩)
    (fun _ e h hs => onceAndClean_step_iff e h.1 h.2 hs) ⟨hplaced, hcounted⟩ ⟨Nat.zero_le _, hclean⟩

/-! ### A slow server and a lost connection -/

/-- A JSON reader that reads nothing. -/
def silentEnv : McpEnv where
  fromStr _ := none
  fromValue _ := none

/-- A transport whose stream of events is open. -/
def openTransport : SseTransport := ⟨.connected, some {}, [], none⟩

/-- The first POST is accepted and its body is late; the second one is accepted too. -/
def slowRun : List SseCallEvent :=
  [.step (.prepare true), .step (.reply .slow), .step (.reply (.body []))]

/-- The connection is lost while the POST is under way. -/
def lostRun : List SseCallEvent := [.step (.prepare true), .step (.reply .fails)]

/-- **A slow server runs the tool twice, and a lost connection leaves the sender behind**. -/
theorem not_onceAndClean :
    (Run.exec (step silentEnv) (start openTransport 3) slowRun).accepted = 2 ∧
      (Run.exec (step silentEnv) (start openTransport 3) lostRun).transport.request = none ∧
      3 ∈ (Run.exec (step silentEnv) (start openTransport 3) lostRun).transport.pending ∧
      ¬ Run.Always (step silentEnv) OnceAndClean (start openTransport 3) slowRun := by
  decide

/-- The first URL is not found, the second POST is accepted, and the stream of events ends before its
message comes. -/
theorem onceAndClean_secondUrl :
    Run.Always (step silentEnv) OnceAndClean (start openTransport 3)
      [.step (.prepare true), .step (.reply (.status 404)), .step (.reply (.body [])), .step .close,
        .step .await] :=
  (onceAndClean_iff silentEnv openTransport 3 (by decide) _).2 (by decide)

end SseCall

end MyClaw
