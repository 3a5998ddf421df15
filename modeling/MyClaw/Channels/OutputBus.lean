import MyClaw.Lib.Run
import Mathlib.Data.List.DropRight
import Mathlib.Data.List.Nodup
import Mathlib.Logic.Function.Basic

set_option autoImplicit false

/-!
# The output bus of a session

What a turn streams and what is sent to a client of the WebSocket channel goes through a bus for each
identity (`websocket/server/bus.rs`).  The bus outlives the connections: it forwards to the ones that
have subscribed, keeps the last events and all messages while there is none, and gives them to the
first that subscribes again, which then sends them to itself one by one
(`websocket/server/channel.rs`).

## Main definitions

* `SessionOutputBus`, `WsConnection` — the bus, and a connection with its channel.
* `OutputSystem`, `busStep` — a bus with its connections, and one step of it.
* `MessagesOnce` — where the messages are.
* `MessagesKept`, `ReplaysAll` — no message is lost, and the condition on the steps.

## Main results

* `messagesOnce` — no connection gets a message twice, and what waits was given to nobody.
* `messagesKept_iff` — when no message is lost.
* `queued_until_offline` — what all subscribers were too slow for waits for the last to go.
* `offline_run`, `replaying_subscribe` — what is kept while there is no subscriber, and
  what the next one gets.

## Implementation notes

An output has the number of its push, by which no part of the program goes: it tells two pushes of one
text apart.  The channel of a connection is found by its id, since a connection has one sender; the
loop over the subscribers is that of `retain`, which sends while it goes.
-/

namespace MyClaw

/-! ## The bus -/

/-- Something that was pushed, with the number of the push. -/
structure Pushed (α : Type*) where
  seq : ℕ
  value : α
  deriving DecidableEq

/-- A text that goes to a client. -/
inductive BusFrame (Event : Type*)
  /-- The text of `push_message`. -/
  | message (m : Pushed String)
  /-- A `TurnEvent`, with the `session_id` that was written into it. -/
  | event (e : Pushed Event) (sessionId : Option String)
  /-- A text that does not come from the bus. -/
  | other (text : String)

/-- `SessionOutputBus`; a subscriber is the number of its connection. -/
structure SessionOutputBus (Event : Type*) where
  eventBuffer : List (Pushed Event) := []
  messageQueue : List (Pushed String) := []
  subscribers : List ℕ := []
  sessionId : String := ""

/-- `event_buffer_capacity`. -/
def eventBufferCapacity : ℕ := 256

/-- How far the task of a connection is. -/
inductive ConnStage
  /-- Its two loops run. -/
  | running
  /-- One of them has ended; the channel is still there. -/
  | ended
  /-- The receiver is dropped. -/
  | closed
  deriving DecidableEq

/-- A connection: its channel, what it has to replay to itself, and (a ledger) all that its channel has
accepted. -/
structure WsConnection (Event : Type*) where
  stage : ConnStage := .running
  channel : List (BusFrame Event) := []
  replaying : List (BusFrame Event) := []
  accepted : List (BusFrame Event) := []

/-- The capacity of the channel of a connection. -/
def wsChannelCapacity : ℕ := 64

/-- The result of `try_send`. -/
inductive TrySend
  | ok | full | closed
  deriving DecidableEq

section

variable {Event : Type*}

namespace WsConnection

/-- What `try_send` finds. -/
def readiness (conn : WsConnection Event) : TrySend :=
  if conn.stage = .closed then .closed
  else if wsChannelCapacity ≤ conn.channel.length then .full
  else .ok

/-- `try_send`. -/
def trySend (conn : WsConnection Event) (frame : BusFrame Event) : WsConnection Event :=
  if conn.readiness = .ok then
    { conn with channel := conn.channel ++ [frame], accepted := conn.accepted ++ [frame] }
  else conn

end WsConnection

/-- `subscribers.retain` over a closure that sends: the subscribers that it keeps, and the
connections. -/
def retainSending (keeps : TrySend → Bool) (frame : BusFrame Event) :
    List ℕ → (ℕ → WsConnection Event) → List ℕ × (ℕ → WsConnection Event)
  | [], conns => ([], conns)
  | c :: subscribers, conns =>
    let rest := retainSending keeps frame subscribers
      (Function.update conns c ((conns c).trySend frame))
    (if keeps (conns c).readiness then c :: rest.1 else rest.1, rest.2)

namespace SessionOutputBus

/-- The `session_id` that `push_event` writes into an event. -/
def liveSession (bus : SessionOutputBus Event) : Option String :=
  if bus.sessionId = "" then none else some bus.sessionId

/-- The subscribers behind `subscribe`: a connection is there once. -/
def subscribersWith (bus : SessionOutputBus Event) (c : ℕ) : List ℕ :=
  if c ∈ bus.subscribers then bus.subscribers else bus.subscribers ++ [c]

/-- `drain_messages` and `drain_events`, as the connection sends them. -/
def drained (bus : SessionOutputBus Event) (sessionId : String) : List (BusFrame Event) :=
  bus.messageQueue.map .message ++ bus.eventBuffer.map (.event · (some sessionId))

end SessionOutputBus

/-- The end of `push_event` without subscribers: the oldest event makes room. -/
def keepLast (buffer : List (Pushed Event)) (e : Pushed Event) : List (Pushed Event) :=
  (if eventBufferCapacity ≤ buffer.length then buffer.tail else buffer) ++ [e]

/-- A bus with the connections, the number of pushes, and the messages that were pushed. -/
structure OutputSystem (Event : Type*) where
  bus : SessionOutputBus Event := {}
  conns : ℕ → WsConnection Event := fun _ => {}
  pushes : ℕ := 0
  messages : List (Pushed String) := []

namespace OutputSystem

/-- `SessionOutputBus::push_event`. -/
def pushEvent (s : OutputSystem Event) (event : Event) : OutputSystem Event :=
  let e : Pushed Event := ⟨s.pushes, event⟩
  if s.bus.subscribers ≠ [] then
    let sent := retainSending (· = .ok) (.event e s.bus.liveSession) s.bus.subscribers s.conns
    { s with bus := { s.bus with subscribers := sent.1 }, conns := sent.2, pushes := s.pushes + 1 }
  else
    { s with
      bus := { s.bus with eventBuffer := keepLast s.bus.eventBuffer e }
      pushes := s.pushes + 1 }

/-- `SessionOutputBus::push_message`. -/
def pushMessage (s : OutputSystem Event) (json : String) : OutputSystem Event :=
  let m : Pushed String := ⟨s.pushes, json⟩
  let s' : OutputSystem Event := { s with pushes := s.pushes + 1, messages := s.messages ++ [m] }
  if s.bus.subscribers ≠ [] then
    let sent := retainSending (· ≠ .closed) (.message m) s.bus.subscribers s.conns
    let bus := { s.bus with subscribers := sent.1 }
    if ∃ c ∈ s.bus.subscribers, (s.conns c).readiness = .ok then
      { s' with bus := bus, conns := sent.2 }
    else { s' with bus := { bus with messageQueue := bus.messageQueue ++ [m] }, conns := sent.2 }
  else { s' with bus := { s.bus with messageQueue := s.bus.messageQueue ++ [m] } }

/-- `SessionOutputBus::subscribe`, and both drains if it is the first one. -/
def subscribe (s : OutputSystem Event) (c : ℕ) (sessionId : String) : OutputSystem Event :=
  if s.bus.subscribers = [] then
    { s with
      bus := { subscribers := s.bus.subscribersWith c, sessionId := sessionId }
      conns := Function.update s.conns c
        { s.conns c with replaying := s.bus.drained sessionId } }
  else
    { s with
      bus := { s.bus with subscribers := s.bus.subscribersWith c, sessionId := sessionId } }

/-- One `ws_sender.send(…).await` of the replay; it waits for room. -/
def replay (s : OutputSystem Event) (c : ℕ) : OutputSystem Event :=
  match (s.conns c).replaying with
  | [] => s
  | frame :: rest =>
    if (s.conns c).readiness = .ok then
      { s with conns := Function.update s.conns c
                { (s.conns c).trySend frame with replaying := rest } }
    else s

/-- `SessionOutputBus::detach`. -/
def detach (s : OutputSystem Event) (c : ℕ) : OutputSystem Event :=
  { s with bus := { s.bus with subscribers := s.bus.subscribers.filter (· ≠ c) } }

end OutputSystem

/-- A step of a turn, of another part of the program that sends, or of a connection. -/
inductive BusEvent (Event : Type*)
  | pushEvent (event : Event)
  | pushMessage (json : String)
  /-- The client authenticates, or sends a message. -/
  | subscribe (c : ℕ) (sessionId : String)
  | replay (c : ℕ)
  /-- The connection answers its client, or another bus sends to it. -/
  | other (c : ℕ) (text : String)
  /-- The next text is written to the socket. -/
  | forward (c : ℕ)
  /-- One of the loops of a connection ends, and both are dropped. -/
  | finish (c : ℕ)
  | detach (c : ℕ)
  /-- The task of the connection is dropped. -/
  | close (c : ℕ)

/-- A step.  The handler of a connection is in one place: it takes the next text of its client when it
has replayed everything. -/
def busStep (s : OutputSystem Event) : BusEvent Event → OutputSystem Event
  | .pushEvent event => s.pushEvent event
  | .pushMessage json => s.pushMessage json
  | .subscribe c sessionId =>
    if (s.conns c).stage = .running ∧ (s.conns c).replaying = [] then s.subscribe c sessionId else s
  | .replay c => if (s.conns c).stage = .running then s.replay c else s
  | .other c text =>
    { s with conns := Function.update s.conns c ((s.conns c).trySend (.other text)) }
  | .forward c =>
    if (s.conns c).stage = .running then
      { s with conns := Function.update s.conns c
                { s.conns c with channel := (s.conns c).channel.tail } }
    else s
  | .finish c =>
    if (s.conns c).stage = .running then
      { s with conns := Function.update s.conns c { s.conns c with stage := .ended, replaying := [] } }
    else s
  | .detach c => if (s.conns c).stage = .running then s else s.detach c
  | .close c =>
    if (s.conns c).stage = .running then s
    else
      { s with conns := Function.update s.conns c { s.conns c with stage := .closed, channel := [] } }

/-! ## What a connection gets -/

/-- The messages among the texts. -/
def messagesOf (frames : List (BusFrame Event)) : List (Pushed String) :=
  frames.filterMap fun
    | .message m => some m
    | _ => none

/-- The events among the texts. -/
def eventsOf (frames : List (BusFrame Event)) : List (Pushed Event) :=
  frames.filterMap fun
    | .event e _ => some e
    | _ => none

@[simp] lemma messagesOf_append (frames frames' : List (BusFrame Event)) :
    messagesOf (frames ++ frames') = messagesOf frames ++ messagesOf frames' :=
  List.filterMap_append

@[simp] lemma eventsOf_append (frames frames' : List (BusFrame Event)) :
    eventsOf (frames ++ frames') = eventsOf frames ++ eventsOf frames' :=
  List.filterMap_append

@[simp] lemma messagesOf_nil : messagesOf ([] : List (BusFrame Event)) = [] := rfl

@[simp] lemma eventsOf_nil : eventsOf ([] : List (BusFrame Event)) = [] := rfl

@[simp] lemma messagesOf_map_message (ms : List (Pushed String)) :
    messagesOf (ms.map (.message · : Pushed String → BusFrame Event)) = ms := by
  simp [messagesOf, List.filterMap_map]

@[simp] lemma messagesOf_map_event (es : List (Pushed Event)) (sessionId : Option String) :
    messagesOf (es.map (.event · sessionId)) = [] := by
  simp [messagesOf, List.filterMap_map]

@[simp] lemma eventsOf_map_message (ms : List (Pushed String)) :
    eventsOf (ms.map (.message · : Pushed String → BusFrame Event)) = [] := by
  simp [eventsOf, List.filterMap_map]

@[simp] lemma eventsOf_map_event (es : List (Pushed Event)) (sessionId : Option String) :
    eventsOf (es.map (.event · sessionId)) = es := by
  simp [eventsOf, List.filterMap_map]

/-- What the loop over the subscribers does to each connection. -/
lemma retainSending_spec {keeps : TrySend → Bool} {frame : BusFrame Event} {subscribers : List ℕ}
    {conns : ℕ → WsConnection Event} (hnodup : subscribers.Nodup) :
    (retainSending keeps frame subscribers conns).1 =
        subscribers.filter (fun c => keeps (conns c).readiness) ∧
      ∀ c, (retainSending keeps frame subscribers conns).2 c =
        if c ∈ subscribers then (conns c).trySend frame else conns c := by
  induction subscribers generalizing conns with
  | nil => exact ⟨rfl, fun c => rfl⟩
  | cons d subscribers ih =>
    obtain ⟨hd, hrest⟩ := List.nodup_cons.1 hnodup
    obtain ⟨hkept, hconns⟩ := @ih (Function.update conns d ((conns d).trySend frame)) hrest
    have hsame : ∀ c ∈ subscribers,
        Function.update conns d ((conns d).trySend frame) c = conns c := fun c hc =>
      Function.update_of_ne (ne_of_mem_of_not_mem hc hd) _ _
    constructor
    · have hfilter : subscribers.filter (fun c => keeps
            (Function.update conns d ((conns d).trySend frame) c).readiness) =
          subscribers.filter (fun c => keeps (conns c).readiness) :=
        List.filter_congr fun c hc => by rw [hsame c hc]
      rw [retainSending, List.filter_cons, hkept, hfilter]
    · intro c
      rw [retainSending, hconns]
      by_cases hc : c = d
      · subst hc
        simp [hd]
      · by_cases hmem : c ∈ subscribers
        · simp [hmem, hsame c hmem]
        · simp [hmem, hc]

@[simp] lemma trySend_replaying (conn : WsConnection Event) (frame : BusFrame Event) :
    (conn.trySend frame).replaying = conn.replaying := by
  rw [WsConnection.trySend]
  split_ifs <;> rfl

/-- All that a connection has got, or is about to give to itself. -/
def WsConnection.outlook (conn : WsConnection Event) : List (BusFrame Event) :=
  conn.accepted ++ conn.replaying

lemma trySend_outlook_of_ok {conn : WsConnection Event} (h : conn.readiness = .ok)
    (frame : BusFrame Event) :
    (conn.trySend frame).outlook = conn.accepted ++ frame :: conn.replaying := by
  simp [WsConnection.trySend, WsConnection.outlook, h]

lemma trySend_of_ne_ok {conn : WsConnection Event} (h : conn.readiness ≠ .ok)
    (frame : BusFrame Event) : conn.trySend frame = conn := if_neg h

/-- A text that is no message. -/
lemma messagesOf_trySend {conn : WsConnection Event} {frame : BusFrame Event}
    (hframe : messagesOf [frame] = []) :
    messagesOf (conn.trySend frame).outlook = messagesOf conn.outlook := by
  by_cases h : conn.readiness = .ok
  · rw [trySend_outlook_of_ok h, ← List.singleton_append, messagesOf_append, messagesOf_append,
      hframe, WsConnection.outlook, messagesOf_append]
    rfl
  · rw [trySend_of_ne_ok h]

/-! ## Where the messages are -/

/-- **A message is in one place**: it waits in the queue, or one connection is about to replay it, or
connections have got it, each of them once. -/
structure MessagesOnce (s : OutputSystem Event) : Prop where
  subscribers : s.bus.subscribers.Nodup
  known : ∀ m ∈ s.messages, m.seq < s.pushes
  queued : ∀ m ∈ s.bus.messageQueue, m ∈ s.messages
  given : ∀ c, ∀ m ∈ messagesOf (s.conns c).outlook, m ∈ s.messages
  queue_nodup : s.bus.messageQueue.Nodup
  given_nodup : ∀ c, (messagesOf (s.conns c).outlook).Nodup
  queue_apart : ∀ m ∈ s.bus.messageQueue, ∀ c, m ∉ messagesOf (s.conns c).outlook
  replay_apart : ∀ c, ∀ m ∈ messagesOf (s.conns c).replaying, ∀ d ≠ c,
    m ∉ messagesOf (s.conns d).outlook

variable {s s' : OutputSystem Event}

lemma messagesOnce_fresh : MessagesOnce ({} : OutputSystem Event) where
  subscribers := .nil
  known := by simp
  queued := by simp
  given := by simp [WsConnection.outlook]
  queue_nodup := .nil
  given_nodup := by simp [WsConnection.outlook]
  queue_apart := by simp
  replay_apart := by simp

/-- A step that adds no message to any place. -/
lemma MessagesOnce.mono (h : MessagesOnce s) (hsubscribers : s'.bus.subscribers.Nodup)
    (hqueue : s'.bus.messageQueue = s.bus.messageQueue) (hmessages : s'.messages = s.messages)
    (hpushes : s.pushes ≤ s'.pushes)
    (houtlook : ∀ c, (messagesOf (s'.conns c).outlook).Sublist (messagesOf (s.conns c).outlook))
    (hreplay : ∀ c,
      (messagesOf (s'.conns c).replaying).Sublist (messagesOf (s.conns c).replaying)) :
    MessagesOnce s' where
  subscribers := hsubscribers
  known m hm := Nat.lt_of_lt_of_le (h.known m (hmessages ▸ hm)) hpushes
  queued m hm := by
    rw [hmessages]
    exact h.queued m (hqueue ▸ hm)
  given c m hm := by
    rw [hmessages]
    exact h.given c m ((houtlook c).subset hm)
  queue_nodup := hqueue ▸ h.queue_nodup
  given_nodup c := (h.given_nodup c).sublist (houtlook c)
  queue_apart m hm c hmem := h.queue_apart m (hqueue ▸ hm) c ((houtlook c).subset hmem)
  replay_apart c m hm d hd hmem :=
    h.replay_apart c m ((hreplay c).subset hm) d hd ((houtlook d).subset hmem)

/-- A connection changes, and no message comes to it. -/
lemma MessagesOnce.update (h : MessagesOnce s) {c : ℕ} {conn : WsConnection Event}
    (houtlook : (messagesOf conn.outlook).Sublist (messagesOf (s.conns c).outlook))
    (hreplay : (messagesOf conn.replaying).Sublist (messagesOf (s.conns c).replaying)) :
    MessagesOnce { s with conns := Function.update s.conns c conn } := by
  refine h.mono h.subscribers rfl rfl (Nat.le_refl _) (fun d => ?_) fun d => ?_
  · by_cases hd : d = c
    · subst hd
      simpa using houtlook
    · simp [hd]
  · by_cases hd : d = c
    · subst hd
      simpa using hreplay
    · simp [hd]

lemma MessagesOnce.pushEvent (h : MessagesOnce s) (event : Event) :
    MessagesOnce (s.pushEvent event) := by
  unfold OutputSystem.pushEvent
  split_ifs with hsubscribers
  · dsimp only
    refine h.mono ?_ rfl rfl (Nat.le_succ _) (fun c => ?_) fun c => ?_
    · exact (retainSending_spec h.subscribers).1 ▸ h.subscribers.filter _
    · dsimp only
      rw [(retainSending_spec h.subscribers).2]
      split_ifs
      · rw [messagesOf_trySend rfl]
      · exact .refl _
    · dsimp only
      rw [(retainSending_spec h.subscribers).2]
      split_ifs
      · rw [trySend_replaying]
      · exact .refl _
  · dsimp only
    exact h.mono h.subscribers rfl rfl (Nat.le_succ _) (fun c => .refl _) fun c => .refl _

/-- A message that is given to some connections at once. -/
lemma MessagesOnce.give (h : MessagesOnce s) (json : String) {subscribers : List ℕ}
    (hsubscribers : subscribers.Nodup) {conns : ℕ → WsConnection Event}
    (hconns : ∀ c, conns c = s.conns c ∨
      conns c = (s.conns c).trySend (.message ⟨s.pushes, json⟩)) :
    MessagesOnce { s with
      bus := { s.bus with subscribers := subscribers }, conns := conns
      pushes := s.pushes + 1, messages := s.messages ++ [⟨s.pushes, json⟩] } := by
  have hfresh : (⟨s.pushes, json⟩ : Pushed String) ∉ s.messages := fun hmem =>
    absurd (h.known _ hmem) (Nat.lt_irrefl _)
  have hreplay : ∀ c, (conns c).replaying = (s.conns c).replaying := fun c => by
    rcases hconns c with hc | hc <;> rw [hc]
    exact trySend_replaying _ _
  have houtlook : ∀ c, messagesOf (conns c).outlook = messagesOf (s.conns c).outlook ∨
      messagesOf (conns c).outlook =
        messagesOf (s.conns c).accepted ++ ⟨s.pushes, json⟩ :: messagesOf (s.conns c).replaying :=
    fun c => by
      rcases hconns c with hc | hc
      · exact .inl (by rw [hc])
      · by_cases hok : (s.conns c).readiness = .ok
        · rw [hc, trySend_outlook_of_ok hok, messagesOf_append]
          exact .inr rfl
        · exact .inl (by rw [hc, trySend_of_ne_ok hok])
  have hmem : ∀ c, ∀ m ∈ messagesOf (conns c).outlook,
      m = ⟨s.pushes, json⟩ ∨ m ∈ messagesOf (s.conns c).outlook := fun c m hm => by
    rcases houtlook c with hc | hc <;> rw [hc] at hm
    · exact .inr hm
    · simpa [WsConnection.outlook, or_left_comm] using hm
  have hold : ∀ m ∈ s.messages, ∀ c, m ∉ messagesOf (s.conns c).outlook →
      m ∉ messagesOf (conns c).outlook := fun m hm c hnot hin => by
    rcases hmem c m hin with rfl | hin
    · exact hfresh hm
    · exact hnot hin
  refine ⟨hsubscribers, fun m hm => ?_, fun m hm => ?_, fun c m hm => ?_, h.queue_nodup,
    fun c => ?_, fun m hm c => ?_, fun c m hm d hd => ?_⟩
  · rcases List.mem_append.1 hm with hm | hm
    · exact Nat.lt_succ_of_lt (h.known m hm)
    · rw [List.mem_singleton.1 hm]
      exact Nat.lt_succ_self _
  · exact List.mem_append_left _ (h.queued m hm)
  · rcases hmem c m hm with rfl | hm
    · simp
    · exact List.mem_append_left _ (h.given c m hm)
  · rcases houtlook c with hc | hc
    · exact hc ▸ h.given_nodup c
    · have hnot : (⟨s.pushes, json⟩ : Pushed String) ∉
          messagesOf (s.conns c).accepted ++ messagesOf (s.conns c).replaying := fun hin =>
        hfresh (h.given c _ (by rwa [WsConnection.outlook, messagesOf_append]))
      have hnodup := h.given_nodup c
      rw [WsConnection.outlook, messagesOf_append] at hnodup
      show (messagesOf (conns c).outlook).Nodup
      rw [hc]
      exact List.nodup_middle.2 (List.nodup_cons.2 ⟨hnot, hnodup⟩)
  · exact hold m (h.queued m hm) c (h.queue_apart m hm c)
  · dsimp only at hm
    rw [hreplay] at hm
    have hgiven : m ∈ messagesOf (s.conns c).outlook := by
      rw [WsConnection.outlook, messagesOf_append]
      exact List.mem_append_right _ hm
    exact hold m (h.given c m hgiven) d (h.replay_apart c m hm d hd)

/-- A message that is queued. -/
lemma MessagesOnce.enqueue (h : MessagesOnce s) (json : String) {subscribers : List ℕ}
    (hsubscribers : subscribers.Nodup) :
    MessagesOnce { s with
      bus := { s.bus with
        subscribers := subscribers
        messageQueue := s.bus.messageQueue ++ [⟨s.pushes, json⟩] }
      pushes := s.pushes + 1, messages := s.messages ++ [⟨s.pushes, json⟩] } := by
  have hfresh : (⟨s.pushes, json⟩ : Pushed String) ∉ s.messages := fun hmem =>
    absurd (h.known _ hmem) (Nat.lt_irrefl _)
  refine ⟨hsubscribers, fun m hm => ?_, fun m hm => ?_, fun c m hm => ?_, ?_,
    h.given_nodup, fun m hm c => ?_, h.replay_apart⟩
  · rcases List.mem_append.1 hm with hm | hm
    · exact Nat.lt_succ_of_lt (h.known m hm)
    · rw [List.mem_singleton.1 hm]
      exact Nat.lt_succ_self _
  · rcases List.mem_append.1 hm with hm | hm
    · exact List.mem_append_left _ (h.queued m hm)
    · exact List.mem_append_right _ hm
  · exact List.mem_append_left _ (h.given c m hm)
  · refine List.nodup_append.2 ⟨h.queue_nodup, List.nodup_singleton _, fun m hm m' hm' => ?_⟩
    rw [List.mem_singleton.1 hm']
    exact fun heq => hfresh (heq ▸ h.queued m hm)
  · rcases List.mem_append.1 hm with hm | hm
    · exact h.queue_apart m hm c
    · rw [List.mem_singleton.1 hm]
      exact fun hin => hfresh (h.given c _ hin)

lemma MessagesOnce.pushMessage (h : MessagesOnce s) (json : String) :
    MessagesOnce (s.pushMessage json) := by
  have hspec := @retainSending_spec Event (· ≠ .closed) (.message ⟨s.pushes, json⟩)
    s.bus.subscribers s.conns h.subscribers
  have hnodup : (retainSending (· ≠ .closed) (.message ⟨s.pushes, json⟩) s.bus.subscribers
      s.conns).1.Nodup := hspec.1 ▸ h.subscribers.filter _
  unfold OutputSystem.pushMessage
  dsimp only
  split_ifs with hsubscribers hdelivered
  · refine h.give json hnodup fun c => ?_
    rw [hspec.2]
    split_ifs
    · exact .inr rfl
    · exact .inl rfl
  · have hconns : (retainSending (· ≠ .closed) (.message ⟨s.pushes, json⟩) s.bus.subscribers
        s.conns).2 = s.conns := by
      funext c
      rw [hspec.2]
      split_ifs with hc
      · exact trySend_of_ne_ok (fun hok => hdelivered ⟨c, hc, hok⟩) _
      · rfl
    rw [hconns]
    exact h.enqueue json hnodup
  · exact h.enqueue json h.subscribers

lemma nodup_subscribersWith {bus : SessionOutputBus Event} (h : bus.subscribers.Nodup) (c : ℕ) :
    (bus.subscribersWith c).Nodup := by
  rw [SessionOutputBus.subscribersWith]
  split_ifs with hc
  · exact h
  · refine List.nodup_append.2 ⟨h, List.nodup_singleton _, fun d hd d' hd' => ?_⟩
    rw [List.mem_singleton.1 hd']
    exact ne_of_mem_of_not_mem hd hc

@[simp] lemma messagesOf_drained (bus : SessionOutputBus Event) (sessionId : String) :
    messagesOf (bus.drained sessionId) = bus.messageQueue := by
  simp [SessionOutputBus.drained]

@[simp] lemma eventsOf_drained (bus : SessionOutputBus Event) (sessionId : String) :
    eventsOf (bus.drained sessionId) = bus.eventBuffer := by
  simp [SessionOutputBus.drained]

/-- A first subscriber takes what waits. -/
lemma MessagesOnce.subscribe (h : MessagesOnce s) {c : ℕ} (hreplay : (s.conns c).replaying = [])
    (sessionId : String) : MessagesOnce (s.subscribe c sessionId) := by
  have hnodup := nodup_subscribersWith h.subscribers c
  unfold OutputSystem.subscribe
  split_ifs with hfirst
  · have hgiven : messagesOf (s.conns c).outlook = messagesOf (s.conns c).accepted := by
      rw [WsConnection.outlook, hreplay, List.append_nil]
    have houtlook : messagesOf
          (WsConnection.outlook { s.conns c with replaying := s.bus.drained sessionId }) =
        messagesOf (s.conns c).outlook ++ s.bus.messageQueue := by
      rw [hgiven, WsConnection.outlook, messagesOf_append, messagesOf_drained]
    refine ⟨hnodup, h.known, by simp, fun d m hm => ?_, .nil, fun d => ?_, by simp,
      fun d m hm d' hd' hm' => ?_⟩
    · by_cases hd : d = c
      · subst hd
        simp only [Function.update_self, houtlook, List.mem_append] at hm
        exact hm.elim (h.given d m) (h.queued m)
      · simp only [Function.update_of_ne hd] at hm
        exact h.given d m hm
    · by_cases hd : d = c
      · subst hd
        simp only [Function.update_self, houtlook]
        refine List.nodup_append.2 ⟨h.given_nodup d, h.queue_nodup, fun m hm m' hm' heq => ?_⟩
        exact h.queue_apart m' hm' d (heq ▸ hm)
      · simp only [Function.update_of_ne hd]
        exact h.given_nodup d
    · by_cases hd : d = c
      · subst hd
        simp only [Function.update_self, messagesOf_drained] at hm
        simp only [Function.update_of_ne hd'] at hm'
        exact h.queue_apart m hm d' hm'
      · simp only [Function.update_of_ne hd] at hm
        have hm'' : m ∈ messagesOf (s.conns d).outlook := by
          rw [WsConnection.outlook, messagesOf_append]
          exact List.mem_append_right _ hm
        by_cases hd'c : d' = c
        · subst hd'c
          simp only [Function.update_self, houtlook, List.mem_append] at hm'
          rcases hm' with hm' | hm'
          · exact h.replay_apart d m hm d' hd' hm'
          · exact h.queue_apart m hm' d hm''
        · simp only [Function.update_of_ne hd'c] at hm'
          exact h.replay_apart d m hm d' hd' hm'
  · exact h.mono hnodup rfl rfl (Nat.le_refl _) (fun d => .refl _) fun d => .refl _

/-- What a step of the replay does to the connection. -/
lemma replay_cases (s : OutputSystem Event) (c : ℕ) : s.replay c = s ∨
    ∃ conn, s.replay c = { s with conns := Function.update s.conns c conn } ∧
      conn.outlook = (s.conns c).outlook ∧
        ∃ frame, (s.conns c).replaying = frame :: conn.replaying := by
  unfold OutputSystem.replay
  split
  · exact .inl rfl
  · rename_i frame rest hreplaying
    split_ifs with hok
    · refine .inr ⟨_, rfl, ?_, frame, hreplaying⟩
      simp [WsConnection.outlook, WsConnection.trySend, hok, hreplaying]
    · exact .inl rfl

/-- A step keeps each message in one place. -/
lemma messagesOnce_busStep (e : BusEvent Event) (h : MessagesOnce s) :
    MessagesOnce (busStep s e) := by
  cases e with
  | pushEvent event => exact h.pushEvent event
  | pushMessage json => exact h.pushMessage json
  | subscribe c sessionId =>
    rw [busStep]
    split_ifs with hready
    · exact h.subscribe hready.2 sessionId
    · exact h
  | replay c =>
    rw [busStep]
    split_ifs with hrunning
    · rcases replay_cases s c with hsame | ⟨conn, hstep, houtlook, frame, hreplaying⟩
      · rwa [hsame]
      · rw [hstep]
        refine h.update (by rw [houtlook]) ?_
        rw [hreplaying, ← List.singleton_append, messagesOf_append]
        exact List.sublist_append_right _ _
    · exact h
  | other c text => exact h.update (by rw [messagesOf_trySend rfl]) (by rw [trySend_replaying])
  | forward c =>
    rw [busStep]
    split_ifs with hrunning
    · exact h.update (.refl _) (.refl _)
    · exact h
  | finish c =>
    rw [busStep]
    split_ifs with hrunning
    · refine h.update ?_ (List.nil_sublist _)
      simp only [WsConnection.outlook, List.append_nil, messagesOf_append]
      exact List.sublist_append_left _ _
    · exact h
  | detach c =>
    rw [busStep]
    split_ifs with hrunning
    · exact h
    · exact h.mono (h.subscribers.filter _) rfl rfl (Nat.le_refl _) (fun d => .refl _)
        fun d => .refl _
  | close c =>
    rw [busStep]
    split_ifs with hrunning
    · exact h
    · exact h.update (.refl _) (.refl _)

/-- **No client gets a message twice**: in every state of every run a message waits in the queue, or is
about to be replayed by one connection, or was given to connections, to each of them once. -/
theorem messagesOnce (es : List (BusEvent Event)) : Run.Always busStep MessagesOnce {} es :=
  Run.always_of_forall_step (fun _ e h => messagesOnce_busStep e h) messagesOnce_fresh es

/-! ## When no message is lost -/

/-- Each message that was pushed waits, or was given to a connection. -/
def MessagesKept (s : OutputSystem Event) : Prop :=
  ∀ m ∈ s.messages, m ∈ s.bus.messageQueue ∨ ∃ c, m ∈ messagesOf (s.conns c).outlook

/-- **The condition on the steps**: no connection ends with messages that it has still to replay. -/
def ReplaysAll (s : OutputSystem Event) : BusEvent Event → Prop
  | .finish c => (s.conns c).stage = .running → messagesOf (s.conns c).replaying = []
  | _ => True

/-- A step that takes no message from its place. -/
lemma MessagesKept.mono (h : MessagesKept s) (hmessages : s'.messages = s.messages)
    (hqueue : s.bus.messageQueue ⊆ s'.bus.messageQueue)
    (houtlook : ∀ c, messagesOf (s.conns c).outlook ⊆ messagesOf (s'.conns c).outlook) :
    MessagesKept s' := by
  intro m hm
  rw [hmessages] at hm
  rcases h m hm with hm | ⟨c, hm⟩
  · exact .inl (hqueue hm)
  · exact .inr ⟨c, houtlook c hm⟩

/-- A connection changes, and keeps what it was given. -/
lemma MessagesKept.update (h : MessagesKept s) {c : ℕ} {conn : WsConnection Event}
    (houtlook : messagesOf (s.conns c).outlook ⊆ messagesOf conn.outlook) :
    MessagesKept { s with conns := Function.update s.conns c conn } := by
  refine h.mono rfl (List.Subset.refl _) fun d => ?_
  by_cases hd : d = c
  · subst hd
    simpa using houtlook
  · simp [hd]

lemma messagesOf_trySend_subset (conn : WsConnection Event) (frame : BusFrame Event) :
    messagesOf conn.outlook ⊆ messagesOf (conn.trySend frame).outlook := by
  by_cases h : conn.readiness = .ok
  · intro m hm
    rw [trySend_outlook_of_ok h, ← List.singleton_append]
    simp only [WsConnection.outlook, messagesOf_append, List.mem_append] at hm ⊢
    exact hm.imp_right .inr
  · rw [trySend_of_ne_ok h]
    exact List.Subset.refl _

lemma MessagesKept.pushEvent (h : MessagesKept s) (hnodup : s.bus.subscribers.Nodup)
    (event : Event) : MessagesKept (s.pushEvent event) := by
  unfold OutputSystem.pushEvent
  dsimp only
  split_ifs with hsubscribers
  · refine h.mono rfl (List.Subset.refl _) fun c => ?_
    dsimp only
    rw [(retainSending_spec hnodup).2]
    split_ifs
    · exact messagesOf_trySend_subset _ _
    · exact List.Subset.refl _
  · exact h.mono rfl (List.Subset.refl _) fun c => List.Subset.refl _

lemma MessagesKept.pushMessage (h : MessagesKept s) (hnodup : s.bus.subscribers.Nodup)
    (json : String) : MessagesKept (s.pushMessage json) := by
  have hsent := (@retainSending_spec Event (· ≠ .closed) (.message ⟨s.pushes, json⟩)
    s.bus.subscribers s.conns hnodup).2
  have hstill : ∀ c, messagesOf (s.conns c).outlook ⊆ messagesOf
      ((retainSending (· ≠ .closed) (.message ⟨s.pushes, json⟩) s.bus.subscribers
        s.conns).2 c).outlook := fun c => by
    rw [hsent]
    split_ifs
    · exact messagesOf_trySend_subset _ _
    · exact List.Subset.refl _
  unfold OutputSystem.pushMessage
  dsimp only
  split_ifs with hsubscribers hdelivered
  · intro m hm
    rcases List.mem_append.1 hm with hm | hm
    · exact (h m hm).imp_right fun ⟨c, hc⟩ => ⟨c, hstill c hc⟩
    · obtain ⟨c, hc, hok⟩ := hdelivered
      refine .inr ⟨c, ?_⟩
      dsimp only
      rw [hsent, if_pos hc, trySend_outlook_of_ok hok, messagesOf_append, List.mem_singleton.1 hm]
      exact List.mem_append_right _ List.mem_cons_self
  · intro m hm
    rcases List.mem_append.1 hm with hm | hm
    · exact (h m hm).imp (List.mem_append_left _) fun ⟨c, hc⟩ => ⟨c, hstill c hc⟩
    · exact .inl (List.mem_append_right _ hm)
  · intro m hm
    rcases List.mem_append.1 hm with hm | hm
    · exact (h m hm).imp_left (List.mem_append_left _)
    · exact .inl (List.mem_append_right _ hm)

lemma MessagesKept.subscribe (h : MessagesKept s) {c : ℕ} (hreplay : (s.conns c).replaying = [])
    (sessionId : String) : MessagesKept (s.subscribe c sessionId) := by
  unfold OutputSystem.subscribe
  split_ifs with hfirst
  · intro m hm
    refine .inr ?_
    rcases h m hm with hqueue | ⟨d, hgiven⟩
    · exact ⟨c, by simp [WsConnection.outlook, hqueue]⟩
    · refine ⟨d, ?_⟩
      by_cases hd : d = c
      · subst hd
        rw [WsConnection.outlook, hreplay, List.append_nil] at hgiven
        simp [WsConnection.outlook, hgiven]
      · simpa [hd] using hgiven
  · exact h.mono rfl (List.Subset.refl _) fun d => List.Subset.refl _

/-- A step loses no message exactly when it meets the condition. -/
lemma messagesKept_busStep_iff (e : BusEvent Event) (hI : MessagesOnce s) (h : MessagesKept s) :
    MessagesKept (busStep s e) ↔ ReplaysAll s e := by
  cases e with
  | pushEvent event => exact iff_of_true (h.pushEvent hI.subscribers event) trivial
  | pushMessage json => exact iff_of_true (h.pushMessage hI.subscribers json) trivial
  | subscribe c sessionId =>
    refine iff_of_true ?_ trivial
    rw [busStep]
    split_ifs with hready
    · exact h.subscribe hready.2 sessionId
    · exact h
  | replay c =>
    refine iff_of_true ?_ trivial
    rw [busStep]
    split_ifs with hrunning
    · rcases replay_cases s c with hsame | ⟨conn, hstep, houtlook, -⟩
      · rwa [hsame]
      · rw [hstep]
        exact h.update (by rw [houtlook]; exact List.Subset.refl _)
    · exact h
  | other c text => exact iff_of_true (h.update (messagesOf_trySend_subset _ _)) trivial
  | forward c =>
    refine iff_of_true ?_ trivial
    rw [busStep]
    split_ifs with hrunning
    · exact h.update (List.Subset.refl _)
    · exact h
  | finish c =>
    rw [busStep, ReplaysAll]
    split_ifs with hrunning
    · refine ⟨fun hkept _ => List.eq_nil_iff_forall_not_mem.2 fun m hm => ?_, fun hnone => ?_⟩
      · have hgiven : m ∈ messagesOf (s.conns c).outlook := by
          rw [WsConnection.outlook, messagesOf_append]
          exact List.mem_append_right _ hm
        have hnodup := hI.given_nodup c
        rw [WsConnection.outlook, messagesOf_append] at hnodup
        rcases hkept m (hI.given c m hgiven) with hqueue | ⟨d, hd⟩
        · exact hI.queue_apart m hqueue c hgiven
        · by_cases hdc : d = c
          · subst hdc
            simp only [Function.update_self, WsConnection.outlook, List.append_nil] at hd
            exact (List.nodup_append.1 hnodup).2.2 m hd m hm rfl
          · simp only [Function.update_of_ne hdc] at hd
            exact hI.replay_apart c m hm d hdc hd
      · refine h.update ?_
        rw [WsConnection.outlook, messagesOf_append, hnone hrunning, List.append_nil,
          WsConnection.outlook, List.append_nil]
        exact List.Subset.refl _
    · exact iff_of_true h fun hrunning' => absurd hrunning' hrunning
  | detach c =>
    refine iff_of_true ?_ trivial
    rw [busStep]
    split_ifs with hrunning
    · exact h
    · exact h.mono rfl (List.Subset.refl _) fun d => List.Subset.refl _
  | close c =>
    refine iff_of_true ?_ trivial
    rw [busStep]
    split_ifs with hrunning
    · exact h
    · exact h.update (List.Subset.refl _)

/-- **When no message is lost**: in every state of a run each message that was pushed waits or was
given to a connection, exactly when no connection of the run ends with messages that it has still to
replay. -/
theorem messagesKept_iff (es : List (BusEvent Event)) :
    Run.Always busStep MessagesKept {} es ↔ Run.EachStep busStep ReplaysAll {} es :=
  Run.always_iff_eachStep (I := MessagesOnce) (fun _ e h => messagesOnce_busStep e h)
    (fun _ e hI h => messagesKept_busStep_iff e hI h) messagesOnce_fresh fun m hm => by simp at hm

/-! ## What nobody could take -/

/-- While there is a subscriber, the queue only grows. -/
lemma messageQueue_prefix_busStep (e : BusEvent Event) (honline : s.bus.subscribers ≠ []) :
    s.bus.messageQueue <+: (busStep s e).bus.messageQueue := by
  cases e with
  | pushEvent event =>
    simp only [busStep, OutputSystem.pushEvent, if_pos honline]
    exact List.prefix_rfl
  | pushMessage json =>
    simp only [busStep, OutputSystem.pushMessage, if_pos honline]
    split_ifs
    · exact List.prefix_rfl
    · exact List.prefix_append _ _
  | subscribe c sessionId =>
    simp only [busStep, OutputSystem.subscribe, if_neg honline]
    split_ifs <;> exact List.prefix_rfl
  | replay c =>
    have hqueue : (s.replay c).bus.messageQueue = s.bus.messageQueue := by
      rcases replay_cases s c with hsame | ⟨conn, hstep, -⟩
      · rw [hsame]
      · rw [hstep]
    rw [busStep]
    split_ifs
    · exact ⟨[], by rw [List.append_nil, hqueue]⟩
    · exact List.prefix_rfl
  | other c text => exact List.prefix_rfl
  | forward c => rw [busStep]; split_ifs <;> exact List.prefix_rfl
  | finish c => rw [busStep]; split_ifs <;> exact List.prefix_rfl
  | detach c => rw [busStep]; split_ifs <;> exact List.prefix_rfl
  | close c => rw [busStep]; split_ifs <;> exact List.prefix_rfl

/-- **What all subscribers were too slow for waits for the last to go**: a message in the queue of a
bus that always has a subscriber stays there, and no connection is given it. -/
theorem queued_until_offline (es fs : List (BusEvent Event)) {m : Pushed String}
    (hm : m ∈ (Run.exec busStep {} es).bus.messageQueue)
    (honline : Run.Always busStep (fun s => s.bus.subscribers ≠ []) (Run.exec busStep {} es) fs) :
    m ∈ (Run.exec busStep {} (es ++ fs)).bus.messageQueue ∧
      ∀ c, m ∉ messagesOf ((Run.exec busStep {} (es ++ fs)).conns c).outlook := by
  have hstill : m ∈ (Run.exec busStep {} (es ++ fs)).bus.messageQueue := by
    rw [Run.exec_append]
    generalize Run.exec busStep {} es = s at hm honline
    induction fs generalizing s with
    | nil => exact hm
    | cons e fs ih =>
      obtain ⟨hnow, hrest⟩ := honline
      exact ih _ ((messageQueue_prefix_busStep e hnow).subset hm) hrest
  exact ⟨hstill, (messagesOnce (es ++ fs)).last.queue_apart m hstill⟩

/-- A connection whose channel is full when a message comes, and has room for the next one. -/
def slowClient : List (BusEvent ℕ) :=
  .subscribe 0 "s1" :: List.replicate 64 (.other 0 "pong") ++ [.pushMessage "first"]

/-- The message that came too early waits, although there is room again. -/
theorem queued_slowClient :
    (⟨0, "first"⟩ : Pushed String) ∈ (Run.exec busStep {}
        (slowClient ++ [.forward 0, .pushMessage "second"])).bus.messageQueue ∧
      ∀ c, (⟨0, "first"⟩ : Pushed String) ∉ messagesOf ((Run.exec busStep {}
        (slowClient ++ [.forward 0, .pushMessage "second"])).conns c).outlook :=
  queued_until_offline slowClient [.forward 0, .pushMessage "second"] (by decide +kernel)
    (by decide +kernel)

/-! ## What is kept while nobody is there -/

/-- The event is no `subscribe`. -/
def BusEvent.subscribesNone : BusEvent Event → Bool
  | .subscribe _ _ => false
  | _ => true

/-- The events that a run pushes; the first push has the number `n`. -/
def pushedEvents (n : ℕ) : List (BusEvent Event) → List (Pushed Event)
  | [] => []
  | .pushEvent event :: es => ⟨n, event⟩ :: pushedEvents (n + 1) es
  | .pushMessage _ :: es => pushedEvents (n + 1) es
  | _ :: es => pushedEvents n es

/-- The messages that a run pushes. -/
def pushedMessages (n : ℕ) : List (BusEvent Event) → List (Pushed String)
  | [] => []
  | .pushMessage json :: es => ⟨n, json⟩ :: pushedMessages (n + 1) es
  | .pushEvent _ :: es => pushedMessages (n + 1) es
  | _ :: es => pushedMessages n es

/-- The latest of a list that is cut at each step are the latest of all. -/
lemma rtake_rtake_append {α : Type*} (n : ℕ) (l m : List α) :
    (l.rtake n ++ m).rtake n = (l ++ m).rtake n := by
  rw [List.rtake_eq_reverse_take_reverse, List.rtake_eq_reverse_take_reverse,
    List.rtake_eq_reverse_take_reverse, List.reverse_append, List.reverse_reverse,
    List.reverse_append, List.take_append, List.take_append, List.take_take,
    Nat.min_eq_left (Nat.sub_le _ _)]

/-- A buffer that is not over its capacity keeps the latest events. -/
lemma keepLast_eq_rtake {buffer : List (Pushed Event)} (h : buffer.length ≤ eventBufferCapacity)
    (e : Pushed Event) : keepLast buffer e = (buffer ++ [e]).rtake eventBufferCapacity := by
  rw [keepLast, List.rtake, List.length_append, List.length_singleton]
  split_ifs with hfull
  · have hdrop : buffer.length + 1 - eventBufferCapacity = 1 := by omega
    have hne : buffer ≠ [] := by
      apply List.ne_nil_of_length_pos
      simp only [eventBufferCapacity] at hfull
      omega
    rw [hdrop, List.drop_one, List.tail_append_of_ne_nil hne]
  · have hdrop : buffer.length + 1 - eventBufferCapacity = 0 := by omega
    rw [hdrop, List.drop_zero]

/-- The buffer of events is within its capacity in every state of a run. -/
lemma length_eventBuffer_le (es : List (BusEvent Event)) :
    (Run.exec busStep {} es).bus.eventBuffer.length ≤ eventBufferCapacity := by
  refine Run.exec_of_step
    (P := fun s : OutputSystem Event => s.bus.eventBuffer.length ≤ eventBufferCapacity)
    (fun s e h => ?_) (Nat.zero_le _) es
  cases e with
  | pushEvent event =>
    rw [busStep, OutputSystem.pushEvent]
    split_ifs
    · exact h
    · dsimp only
      rw [keepLast_eq_rtake h, List.rtake, List.length_drop]
      omega
  | pushMessage json =>
    rw [busStep, OutputSystem.pushMessage]
    dsimp only
    split_ifs <;> exact h
  | subscribe c sessionId =>
    rw [busStep, OutputSystem.subscribe]
    split_ifs
    · exact Nat.zero_le _
    · exact h
    · exact h
  | replay c =>
    rw [busStep]
    split_ifs
    · rcases replay_cases s c with hstep | ⟨conn, hstep, -⟩ <;> rw [hstep] <;> exact h
    · exact h
  | other c text => exact h
  | forward c => rw [busStep]; split_ifs <;> exact h
  | finish c => rw [busStep]; split_ifs <;> exact h
  | detach c => rw [busStep]; split_ifs <;> exact h
  | close c => rw [busStep]; split_ifs <;> exact h

/-- **What is kept while there is no subscriber**: the queue has all messages, the buffer the latest
events. -/
theorem offline_run {es : List (BusEvent Event)} (hoffline : s.bus.subscribers = [])
    (hroom : s.bus.eventBuffer.length ≤ eventBufferCapacity)
    (hes : ∀ e ∈ es, e.subscribesNone = true) :
    (Run.exec busStep s es).bus = { s.bus with
      eventBuffer := (s.bus.eventBuffer ++ pushedEvents s.pushes es).rtake eventBufferCapacity
      messageQueue := s.bus.messageQueue ++ pushedMessages s.pushes es } := by
  induction es generalizing s with
  | nil =>
    have hall : s.bus.eventBuffer.rtake eventBufferCapacity = s.bus.eventBuffer := by
      rw [List.rtake, Nat.sub_eq_zero_of_le hroom, List.drop_zero]
    simp [pushedEvents, pushedMessages, hall]
  | cons e es ih =>
    have hrest : ∀ e ∈ es, e.subscribesNone = true := fun e he => hes e (List.mem_cons_of_mem _ he)
    have hsame : ∀ {s' : OutputSystem Event}, s'.bus = s.bus → s'.pushes = s.pushes →
        (Run.exec busStep s' es).bus = { s.bus with
          eventBuffer := (s.bus.eventBuffer ++ pushedEvents s.pushes es).rtake eventBufferCapacity
          messageQueue := s.bus.messageQueue ++ pushedMessages s.pushes es } := by
      intro s' hbus hpushes
      rw [← hbus, ← hpushes]
      exact ih (hbus ▸ hoffline) (hbus ▸ hroom) hrest
    rw [Run.exec_cons]
    cases e with
    | pushEvent event =>
      have hstep : busStep s (.pushEvent event) = { s with
          bus := { s.bus with eventBuffer := keepLast s.bus.eventBuffer ⟨s.pushes, event⟩ }
          pushes := s.pushes + 1 } := if_neg (not_not.2 hoffline)
      have hkeep := keepLast_eq_rtake hroom ⟨s.pushes, event⟩
      have hlength : (keepLast s.bus.eventBuffer ⟨s.pushes, event⟩).length ≤ eventBufferCapacity := by
        rw [hkeep, List.rtake, List.length_drop]
        omega
      have hexec := @ih { s with
        bus := { s.bus with eventBuffer := keepLast s.bus.eventBuffer ⟨s.pushes, event⟩ }
        pushes := s.pushes + 1 } hoffline hlength hrest
      rw [hstep, hexec]
      dsimp only
      rw [hkeep, rtake_rtake_append, List.append_assoc]
      rfl
    | pushMessage json =>
      have hstep : busStep s (.pushMessage json) = { s with
          pushes := s.pushes + 1, messages := s.messages ++ [⟨s.pushes, json⟩]
          bus := { s.bus with
            messageQueue := s.bus.messageQueue ++ [⟨s.pushes, json⟩] } } :=
        if_neg (not_not.2 hoffline)
      have hexec := @ih { s with
        pushes := s.pushes + 1, messages := s.messages ++ [⟨s.pushes, json⟩]
        bus := { s.bus with
          messageQueue := s.bus.messageQueue ++ [⟨s.pushes, json⟩] } } hoffline hroom hrest
      rw [hstep, hexec]
      dsimp only
      rw [List.append_assoc]
      rfl
    | subscribe c sessionId => exact absurd (hes _ List.mem_cons_self) Bool.false_ne_true
    | replay c =>
      rw [busStep]
      split_ifs
      · rcases replay_cases s c with hstep | ⟨conn, hstep, -⟩ <;> rw [hstep] <;>
          exact hsame rfl rfl
      · exact hsame rfl rfl
    | other c text => exact hsame rfl rfl
    | forward c => rw [busStep]; split_ifs <;> exact hsame rfl rfl
    | finish c => rw [busStep]; split_ifs <;> exact hsame rfl rfl
    | detach c =>
      rw [busStep]
      split_ifs
      · exact hsame rfl rfl
      · have hnone : s.bus.subscribers.filter (· ≠ c) = s.bus.subscribers := by
          rw [hoffline, List.filter_nil]
        refine hsame ?_ rfl
        show { s.bus with subscribers := s.bus.subscribers.filter (· ≠ c) } = s.bus
        rw [hnone]
    | close c => rw [busStep]; split_ifs <;> exact hsame rfl rfl

/-- **What a client gets that comes back**: all messages that it has missed, and behind them the latest
events. -/
theorem replaying_subscribe {es : List (BusEvent Event)} {c : ℕ} {sessionId : String}
    (hoffline : s.bus.subscribers = []) (hroom : s.bus.eventBuffer.length ≤ eventBufferCapacity)
    (hes : ∀ e ∈ es, e.subscribesNone = true)
    (hrunning : ((Run.exec busStep s es).conns c).stage = .running)
    (hreplayed : ((Run.exec busStep s es).conns c).replaying = []) :
    ((Run.exec busStep s (es ++ [.subscribe c sessionId])).conns c).replaying =
      (s.bus.messageQueue ++ pushedMessages s.pushes es).map .message ++
        ((s.bus.eventBuffer ++ pushedEvents s.pushes es).rtake eventBufferCapacity).map
          (.event · (some sessionId)) := by
  have hbus := offline_run hoffline hroom hes
  have hnone : (Run.exec busStep s es).bus.subscribers = [] := by rw [hbus, hoffline]
  rw [Run.exec_append, Run.exec_cons, Run.exec_nil, busStep, if_pos ⟨hrunning, hreplayed⟩,
    OutputSystem.subscribe, if_pos hnone]
  simp only [Function.update_self, SessionOutputBus.drained, hbus]

/-- A client that was away for two messages and an event. -/
theorem replaying_afterBreak :
    ((Run.exec busStep ({} : OutputSystem ℕ)
        ([.pushMessage "a", .pushEvent 7, .pushMessage "b"] ++
          [.subscribe 1 "s1"])).conns 1).replaying =
      ([] ++ pushedMessages 0 [.pushMessage "a", .pushEvent 7, .pushMessage "b"]).map .message ++
        (([] ++ pushedEvents 0 [.pushMessage "a", .pushEvent 7, .pushMessage "b"]).rtake
          eventBufferCapacity).map (.event · (some "s1")) :=
  replaying_subscribe rfl (by decide) (by decide) rfl rfl

end

end MyClaw
