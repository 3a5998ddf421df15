import MyClaw.Inbound.Spool

set_option autoImplicit false

/-!
# The inbound debouncer

`InboundDebouncer::push` (`channels/shared/debounce.rs`) spawns a timer and puts the message into a
buffer under the key of its sender and receiver, where it is merged with what is already there; the
timer of the old entry is aborted.  A timer that has slept its window takes the entry of its key and
sends it as one message.  `spawn_listener` (`agents/orchestrator/mod.rs`) receives these messages,
appends each of them to the inbound spool, and hands it to the orchestrator unless the spool knows
its id.

## Main definitions

* `DebounceTimer`, `DebounceBufferEntry` — a timer task and an entry of the buffer.
* `DebounceState`, `DebounceEvent`, `debounceStep` — the machine.
* `DebouncedOnce` — each message is in exactly one envelope, in order, and not merged with
  those of another conversation.
* `KeepsDebounced` — the condition of a step.

## Implementation notes

The messages are text messages and the window is above zero.  `number` and `parts` say which
messages an envelope is made of; no step reads them.  A timer is *woken* while the poll that has
passed its sleep runs, so an abort reaches it at its next suspension only, and *parked* while it
waits for room in the channel.  The listener calls `push` for one message after the other.
-/

namespace MyClaw

/-! ## Messages -/

/-- `ChannelInboundMessage`, of a text message. -/
structure ChannelInboundMessage where
  id : String
  senderId : String
  receiverId : String
  text : String
  timestamp : ℕ
  deriving DecidableEq

/-- `to_persisted`. -/
def ChannelInboundMessage.toPersisted (msg : ChannelInboundMessage) : PersistedChannelMessage :=
  ⟨msg.id, msg.senderId, msg.text⟩

/-- The key of the buffer. -/
def debounceKey (senderId receiverId : String) : String := senderId ++ "|" ++ receiverId

/-- A message with its place in the order of arrival. -/
structure Arrival where
  number : ℕ
  msg : ChannelInboundMessage
  deriving DecidableEq

/-- The key under which a message is buffered. -/
def Arrival.key (a : Arrival) : String := debounceKey a.msg.senderId a.msg.receiverId

/-- Two messages of one sender and receiver. -/
def Arrival.SameConversation (a b : Arrival) : Prop :=
  a.msg.senderId = b.msg.senderId ∧ a.msg.receiverId = b.msg.receiverId

/-- Within a conversation, the first message is the earlier one. -/
def Arrival.Precedes (a b : Arrival) : Prop := a.SameConversation b → a.number < b.number

/-- A message to the listener, and the messages it was made of. -/
structure Merged where
  msg : ChannelInboundMessage
  parts : List Arrival

/-- **A faithful merge**: the messages are of the sender and receiver, and the text is theirs. -/
def Merged.Faithful (m : Merged) : Prop :=
  (∀ a ∈ m.parts, a.msg.senderId = m.msg.senderId ∧ a.msg.receiverId = m.msg.receiverId) ∧
    m.msg.text = "\n".intercalate ((m.parts.map (·.msg.text)).filter (· ≠ ""))

/-! ## The buffer -/

/-- `DebounceBufferEntry`. -/
structure DebounceBufferEntry where
  senderId : String
  receiverId : String
  texts : List String
  firstTs : ℕ
  /-- The handle of a timer task. -/
  timer : ℕ
  parts : List Arrival

namespace DebounceBufferEntry

/-- A new entry. -/
def new (a : Arrival) (handle : ℕ) : DebounceBufferEntry where
  senderId := a.msg.senderId
  receiverId := a.msg.receiverId
  texts := if a.msg.text = "" then [] else [a.msg.text]
  firstTs := a.msg.timestamp
  timer := handle
  parts := [a]

/-- Merge a message into the entry. -/
def merge (entry : DebounceBufferEntry) (a : Arrival) (handle : ℕ) : DebounceBufferEntry :=
  { entry with
    texts := if a.msg.text = "" then entry.texts else entry.texts ++ [a.msg.text]
    timer := handle
    parts := entry.parts ++ [a] }

/-- The message that a timer makes of the entry. -/
def merged (entry : DebounceBufferEntry) : Merged where
  msg :=
    { id := "debounced_" ++ toString entry.firstTs
      senderId := entry.senderId
      receiverId := entry.receiverId
      text := "\n".intercalate entry.texts
      timestamp := entry.firstTs }
  parts := entry.parts

end DebounceBufferEntry

/-! ## Timers -/

/-- Where a timer task is. -/
inductive TimerPhase
  | sleeping
  /-- The sleep is over, and the lock of the buffer comes next. -/
  | woken
  /-- It has taken an entry and sends it; `parked` while it waits for room in the channel. -/
  | sending (m : Merged) (parked : Bool)
  | done

/-- The timer task of one `push`. -/
structure DebounceTimer where
  key : String
  phase : TimerPhase := .sleeping
  aborted : Bool := false

namespace DebounceTimer

/-- The timer will take the entry of its key. -/
def Coming (t : DebounceTimer) : Prop := t.phase = .sleeping ∨ t.phase = .woken

/-- What the timer has taken and not yet sent. -/
def hand (t : DebounceTimer) : List Merged :=
  match t.phase with
  | .sending m _ => [m]
  | _ => []

/-- The timer waits for room in the channel. -/
def Parked (t : DebounceTimer) : Prop := ∃ m, t.phase = .sending m true

/-- `JoinHandle::abort`: a suspended task ends, and a running one at its next suspension. -/
def abort (t : DebounceTimer) : DebounceTimer :=
  match t.phase with
  | .sleeping | .sending _ true => { t with phase := .done }
  | _ => { t with aborted := true }

end DebounceTimer

/-! ## The machine -/

/-- The listener of one account and the capacity of its channel. -/
structure DebounceConfig where
  capacity : ℕ
  channelType : String
  accountId : String

/-- The debouncer, its timers, the channel to the listener, and the spool. -/
structure DebounceState where
  /-- The messages that `push` has been called with. -/
  arrived : List Arrival := []
  /-- The call of `push` that has spawned its timer and not yet locked the buffer. -/
  pushing : Option (Arrival × ℕ) := none
  buffer : List (String × DebounceBufferEntry) := []
  timers : List DebounceTimer := []
  channel : List Merged := []
  spool : InboundSpool
  dir : SpoolDir
  /-- The envelopes that the orchestrator has received, with their numbers in the spool. -/
  envelopes : List (ℕ × Merged) := []

/-- What happens. -/
inductive DebounceEvent
  /-- `push` spawns a timer. -/
  | push (msg : ChannelInboundMessage)
  /-- `push` locks the buffer. -/
  | lock
  /-- A timer has slept its window. -/
  | wake (timer : ℕ)
  /-- A timer locks the buffer and takes the entry of its key. -/
  | take (timer : ℕ)
  /-- A timer polls `tx.send(..)`. -/
  | offer (timer : ℕ)
  /-- The listener receives a message; `writes` tells whether its file can be written. -/
  | receive (now : ℕ) (writes : Bool)

/-- The state after an event. -/
def debounceStep (c : DebounceConfig) (s : DebounceState) : DebounceEvent → DebounceState
  | .push msg =>
    match s.pushing with
    | some _ => s
    | none =>
      let a : Arrival := ⟨s.arrived.length, msg⟩
      { s with
        arrived := s.arrived ++ [a]
        pushing := some (a, s.timers.length)
        timers := s.timers ++ [{ key := a.key }] }
  | .lock =>
    match s.pushing with
    | none => s
    | some (a, handle) =>
      match s.buffer.lookup a.key with
      | some entry =>
        { s with
          pushing := none
          buffer := (a.key, entry.merge a handle) :: s.buffer.filter (·.1 ≠ a.key)
          timers := s.timers.modify entry.timer (·.abort) }
      | none =>
        { s with pushing := none, buffer := (a.key, .new a handle) :: s.buffer }
  | .wake i =>
    match s.timers[i]? with
    | none => s
    | some t =>
      match t.phase with
      | .sleeping => { s with timers := s.timers.set i { t with phase := .woken } }
      | _ => s
  | .take i =>
    match s.timers[i]? with
    | none => s
    | some t =>
      match t.phase with
      | .woken =>
        match s.buffer.lookup t.key with
        | some entry =>
          { s with
            buffer := s.buffer.filter (·.1 ≠ t.key)
            timers := s.timers.set i { t with phase := .sending entry.merged false } }
        | none => { s with timers := s.timers.set i { t with phase := .done } }
      | _ => s
  | .offer i =>
    match s.timers[i]? with
    | none => s
    | some t =>
      match t.phase with
      | .sending m _ =>
        if s.channel.length < c.capacity then
          { s with
            channel := s.channel ++ [m]
            timers := s.timers.set i { t with phase := .done } }
        else if t.aborted then { s with timers := s.timers.set i { t with phase := .done } }
        else { s with timers := s.timers.set i { t with phase := .sending m true } }
      | _ => s
  | .receive now writes =>
    match s.channel with
    | [] => s
    | m :: rest =>
      let r := s.spool.append s.dir c.channelType c.accountId m.msg.toPersisted now writes
      let received := { s with channel := rest, spool := r.2.1, dir := r.2.2 }
      match r.1 with
      | .ok none => received
      | .ok (some seq) => { received with envelopes := s.envelopes ++ [(seq, m)] }
      -- fail-open: the message is delivered without persistence
      | .error _ => { received with envelopes := s.envelopes ++ [(0, m)] }

/-! ## The property and its condition -/

namespace DebounceState

/-- What is in the channel or has come out of it. -/
def sent (s : DebounceState) : List Merged := s.envelopes.map (·.2) ++ s.channel

/-- What the timers hold. -/
def hands (s : DebounceState) : List Merged := s.timers.flatMap (·.hand)

/-- What the timers hold and what they will take. -/
def held (s : DebounceState) : List Merged := s.hands ++ s.buffer.map (·.2.merged)

/-- The messages that have been sent. -/
def sentParts (s : DebounceState) : List Arrival := s.sent.flatMap (·.parts)

/-- The messages that are still to be sent. -/
def waitingParts (s : DebounceState) : List Arrival :=
  s.held.flatMap (·.parts) ++ (s.pushing.map (·.1)).toList

end DebounceState

/-- **Neither lost nor doubled**: each message that has arrived is in exactly one envelope that the
orchestrator has received or that is on its way to it, in the order of its conversation, and with no
message of another conversation. -/
structure DebouncedOnce (s : DebounceState) : Prop where
  once : (s.sentParts ++ s.waitingParts).Perm s.arrived
  /-- Every entry of the buffer will be taken. -/
  attended : ∀ b ∈ s.buffer, ∃ t ∈ s.timers, t.key = b.1 ∧ t.Coming
  faithful : ∀ m ∈ s.sent ++ s.held, m.Faithful
  sorted : s.sentParts.Pairwise Arrival.Precedes
  /-- No message is sent before an earlier one of its conversation. -/
  inOrder : ∀ a ∈ s.sentParts, ∀ b ∈ s.waitingParts, a.Precedes b

/-- What merging a message into an entry must find: the entry is of the same conversation, its timer
does not wait for room in the channel, and some timer is left to take the entry. -/
def KeepsMerge (s : DebounceState) (a : Arrival) (entry : DebounceBufferEntry) : Prop :=
  (entry.senderId = a.msg.senderId ∧ entry.receiverId = a.msg.receiverId) ∧
    (∀ t, s.timers[entry.timer]? = some t → ¬ t.Parked) ∧
    ((∃ t ∈ s.timers.eraseIdx entry.timer, t.key = a.key ∧ t.Coming) ∨
      ∃ t, s.timers[entry.timer]? = some t ∧ t.phase = .woken)

/-- What a new entry must find: a timer that will take it. -/
def KeepsNew (s : DebounceState) (a : Arrival) : Prop :=
  ∃ t ∈ s.timers, t.key = a.key ∧ t.Coming

/-- What a send must find: no other timer holds an earlier message of the conversation, and a timer
that has been aborted finds room in the channel. -/
def KeepsOffer (c : DebounceConfig) (s : DebounceState) (i : ℕ) (t : DebounceTimer) (m : Merged) :
    Prop :=
  if s.channel.length < c.capacity then
    ∀ n ∈ (s.timers.eraseIdx i).flatMap (·.hand), ∀ a ∈ m.parts, ∀ b ∈ n.parts, a.Precedes b
  else t.aborted = false

/-- **The condition of a step**: what merging, inserting and sending must find, and the listener
receives no message whose id the spool knows. -/
def KeepsDebounced (c : DebounceConfig) (s : DebounceState) : DebounceEvent → Prop
  | .lock => ∀ a handle, s.pushing = some (a, handle) →
      (∀ entry, s.buffer.lookup a.key = some entry → KeepsMerge s a entry) ∧
        (s.buffer.lookup a.key = none → KeepsNew s a)
  | .offer i => ∀ t m parked, s.timers[i]? = some t → t.phase = .sending m parked →
      KeepsOffer c s i t m
  | .receive _ _ => ∀ m ∈ s.channel.head?,
      dedupKey c.channelType c.accountId m.msg.id ∉ s.spool.seen
  | _ => True

end MyClaw
