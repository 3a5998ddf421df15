import MyClaw.Context.YieldEvents
import MyClaw.Session.Manager
import MyClaw.Agent.ToolPhase

set_option autoImplicit false

/-!
# The delivery of yield events

The parties around a pending `sessions_yield` (`agents/session_context/mod.rs`): tasks that enqueue
an event, `try_fill_pending_yield`, the task that parks in `park_for_yield`, and a turn that closes
the yield by an interjection or by a newer yield.  They share the event queue, the waiter slot and
the session.  Each access to the queue, to the slot, to a channel or to a file is a step of its own,
so a run is any interleaving of them; only steps under the session lock exclude each other.

## Main definitions

* `YieldState` — what the parties share, the two files, and who is between two steps.
* `YieldOp` — what the section under the session lock does next.
* `YieldState.runOp` — one step of that section.
* `YieldEvent`, `yieldStep` — the parties as events of a machine.
* `YieldTransition` — the steps by their guards.
* `startYield` — a session context after a start, with what the two files hold.

## Main results

* `yieldTransition_yieldStep` — every step is a move of an enabled party, or none.

## Implementation notes

The session lock is the list `holder`: the operations that the task in the locked section has left.
A task that wants the lock is enabled when the list is empty.  An enqueue takes no lock, so its own
write of the queue file is a job in `jobs`.  A waiter names its parked task by a key; the channel
between them is a field of the task, and a task that is cancelled takes its channel with it.

`history` and `historyFile` are `Session.history` and the messages of `history.jsonl`.  Each event
has a number, and the values that the parties pass on carry the numbers of the events in them.  The
fields `next`, `expired`, `lost` and `persisted` belong to the numbers and have no counterpart in
the source; no step depends on them.
-/

namespace MyClaw

open Tokens

/-! ## The state -/

/-- `YieldWaiter`: the call that the waiter is parked on, and the task that it wakes. -/
structure YieldWaiter where
  toolCallId : String
  key : Nat

/-- The channel of a parked task whose receiver is alive. -/
inductive WakeChannel
  | waiting
  /-- The content has been sent and not been written to the history yet. -/
  | sent (content : Tagged String)
  /-- The sender is gone. -/
  | closed
  deriving DecidableEq

/-- The events in a channel. -/
def WakeChannel.carries : WakeChannel → List Nat
  | .sent content => content.carries
  | .waiting | .closed => []

/-- A task in `park_for_yield` that has given up both locks. -/
structure ParkedTask where
  key : Nat
  toolCallId : String
  channel : WakeChannel

/-- On whose behalf the queue is drained. -/
inductive Fill
  /-- `try_fill_pending_yield` with a waiter for the pending call. -/
  | live (pending : PendingYield)
  /-- `try_fill_pending_yield` without one. -/
  | cold (pending : PendingYield)
  /-- `park_for_yield`, before it parks. -/
  | park (toolCallId : String)

/-- A step of the section under the session lock. -/
inductive YieldOp
  /-- The assistant message with the call is added. -/
  | addCall (call : ToolCall)
  /-- The tool phase defers the call, closes a pending one before, and parks. -/
  | defer (toolCallId : String)
  /-- The choice between a replay and a fill. -/
  | gate (pending : PendingYield)
  /-- `mem::take` of the queue. -/
  | takeEvents (fill : Fill)
  /-- The taken events are sorted by age. -/
  | fold (fill : Fill) (events : List (Tagged PendingYieldEvent))
  /-- `push_back` of `enqueue_pending_yield_event`. -/
  | enqueue (event : Tagged PendingYieldEvent)
  /-- The same with the time of the step. -/
  | enqueueFresh (content : Tagged String)
  /-- The content goes to the waiter or to the history. -/
  | deliver (fill : Fill) (content : Tagged String)
  /-- `waiter.tx.send(content)`. -/
  | send (waiter : YieldWaiter) (content : Tagged String)
  /-- `persist_pending_yield_events`: the queue is cloned. -/
  | persistEvents
  /-- The clone is written to the queue file. -/
  | saveEvents (events : List (Tagged PendingYieldEvent))
  /-- `persist_last`. -/
  | persistLast

/-- The write of the queue file by a task that has enqueued an event: nothing yet, or the queue that
it has cloned. -/
abbrev SaveJob := Option (List (Tagged PendingYieldEvent))

/-- What the parties share. -/
structure YieldState where
  /-- `pending_yield_events`. -/
  queue : List (Tagged PendingYieldEvent)
  /-- `yield_waiter`. -/
  waiter : Option YieldWaiter
  parked : List ParkedTask
  nextKey : Nat
  /-- `Session::pending_yield`. -/
  pendingYield : Option PendingYield
  /-- `Session::history`. -/
  history : List (Tagged ChatMessage)
  replayInFlight : Bool
  /-- What the section under the session lock has left to do. -/
  holder : List YieldOp
  /-- `pending_yield_events.json`. -/
  queueFile : List (Tagged PendingYieldEvent)
  /-- The messages of `history.jsonl`. -/
  historyFile : List (Tagged ChatMessage)
  jobs : List SaveJob
  /-- The number of the next event. -/
  next : Nat
  /-- The numbers of the events that a drain found too old. -/
  expired : List Nat
  /-- The numbers of the events that went with a dead receiver. -/
  lost : List Nat
  /-- The numbers that a written queue file has held. -/
  persisted : List Nat

/-- The text of a yield that an interjection closes. -/
def interjectionText (content : String) : String :=
  "The user interrupted the wait and said: " ++ content

/-- The result of a `sessions_yield`. -/
def yieldResult (toolCallId : String) (content : Tagged String) : Tagged ChatMessage where
  val := toolResult toolCallId (some "sessions_yield") content.val false
  carries := content.carries

/-- A message that carries no event. -/
def plainMessage (msg : ChatMessage) : Tagged ChatMessage := { val := msg, carries := [] }

namespace YieldState

/-- The operations come first in the section that runs. -/
def first (s : YieldState) (ops : List YieldOp) : YieldState := { s with holder := ops ++ s.holder }

/-- A message at the end of the history, to be persisted next. -/
def addMessage (s : YieldState) (msg : Tagged ChatMessage) : YieldState :=
  { s with history := s.history ++ [msg] }.first [.persistLast]

/-- `push_back`, then `persist_pending_yield_events`. -/
def pushEvent (s : YieldState) (event : Tagged PendingYieldEvent) : YieldState :=
  { s with queue := s.queue ++ [event] }.first [.persistEvents]

/-- The queue file is replaced. -/
def writeEvents (s : YieldState) (events : List (Tagged PendingYieldEvent)) : YieldState :=
  { s with queueFile := events, persisted := s.persisted ++ carried events }

/-- The sender of a waiter is dropped: its task, when it still waits, wakes up without a content. -/
def dropSender (s : YieldState) (key : Nat) : YieldState :=
  match s.parked.find? (·.key = key) with
  | some task =>
    if task.channel = .waiting then
      { s with
        parked := { task with channel := .closed } :: s.parked.eraseP (·.key = key) }
    else s
  | none => s

/-- The waiter slot is emptied, and its sender dropped. -/
def clearWaiter (s : YieldState) : YieldState :=
  match s.waiter with
  | some waiter => { s.dropSender waiter.key with waiter := none }
  | none => s

/-- `tx.send(content)`: without a receiver the content is dropped. -/
def sendContent (s : YieldState) (waiter : YieldWaiter) (content : Tagged String) : YieldState :=
  match s.parked.find? (·.key = waiter.key) with
  | some task =>
    if task.channel = .waiting then
      { s with
        parked := { task with channel := .sent content } ::
          s.parked.eraseP (·.key = waiter.key) }
    else { s with lost := s.lost ++ content.carries }
  | none => { s with lost := s.lost ++ content.carries }

/-- There was no event: the pending yield stays, and a task that wants to park registers its
waiter. -/
def giveUp (s : YieldState) : Fill → YieldState
  | .live pending | .cold pending => { s with pendingYield := some pending }
  | .park toolCallId =>
    let s := s.clearWaiter
    { s with
      waiter := some { toolCallId := toolCallId, key := s.nextKey }
      parked := { key := s.nextKey, toolCallId := toolCallId, channel := .waiting } :: s.parked
      nextKey := s.nextKey + 1 }

/-- The content of a fill is handed on. -/
def deliverContent (s : YieldState) (content : Tagged String) : Fill → YieldState
  | .live pending =>
    let waiter := s.waiter
    let s := { s with waiter := none, pendingYield := some pending }
    match waiter with
    | some waiter => s.first [.send waiter content]
    | none => s.first [.enqueueFresh content]
  | .cold pending => s.addMessage (yieldResult pending.toolCallId content)
  | .park toolCallId =>
    { s with pendingYield := none }.addMessage (yieldResult toolCallId content)

/-- One step of the section under the session lock, at a time. -/
def runOp (s : YieldState) (now : Nat) : YieldOp → YieldState
  | .addCall call =>
    (s.first [.defer call.id]).addMessage
      (plainMessage (Session.assistantWithTools "" [call] none none none none))
  | .defer toolCallId =>
    let orphaned := s.pendingYield
    let s := { s with pendingYield := some { toolCallId := toolCallId, implicit := false } }
    let s := s.first [.takeEvents (.park toolCallId)]
    match orphaned with
    | some orphaned =>
      s.addMessage (plainMessage
        (toolResult orphaned.toolCallId (some "sessions_yield") supersededText false))
    | none => s
  | .gate pending =>
    let orphan := soleSessionsYieldOrphan (s.history.map (·.val)) (some pending)
    if orphan.isSome ∧ s.queue ≠ [] ∧ s.replayInFlight = false then
      { s with pendingYield := some pending, replayInFlight := true }
    else s.first [.takeEvents (.cold pending)]
  | .takeEvents fill => { s with queue := [] }.first [.persistEvents, .fold fill s.queue]
  | .fold fill events =>
    if events = [] then s.giveUp fill
    else
      let folded := foldEvents now events
      { s with expired := s.expired ++ folded.expired }.first
        (folded.overflow.map YieldOp.enqueue ++ [YieldOp.deliver fill folded.content])
  | .enqueue event => s.pushEvent event
  | .enqueueFresh content =>
    s.pushEvent { val := .fresh content.val now, carries := content.carries }
  | .deliver fill content => s.deliverContent content fill
  | .send waiter content => s.sendContent waiter content
  | .persistEvents => s.first [.saveEvents s.queue]
  | .saveEvents events => s.writeEvents events
  | .persistLast => { s with historyFile := s.historyFile ++ s.history.getLast?.toList }

end YieldState

/-! ## The parties -/

/-- What happens around a pending yield. -/
inductive YieldEvent
  /-- `enqueue_pending_yield_event`: the event is pushed; its job writes the queue file later. -/
  | enqueue (content : String) (now : Nat)
  /-- A job clones the queue. -/
  | cloneQueue (job : Nat)
  /-- A job writes what it has cloned. -/
  | saveQueue (job : Nat)
  /-- `try_fill_pending_yield` takes the session lock. -/
  | tryFill
  /-- A turn calls `sessions_yield`, which closes an older one, and parks. -/
  | yield (call : ToolCall)
  /-- A turn parks on the pending yield: a replay, or the end of a turn that yielded. -/
  | park
  /-- The replay turn ends. -/
  | replayEnds
  /-- A text message of the user closes the pending yield. -/
  | interject (content : String)
  /-- A parked task whose channel has something takes both locks again. -/
  | wake (key : Nat)
  /-- A parked task is cancelled. -/
  | cancel (key : Nat)
  /-- The section under the session lock makes its next step. -/
  | advance (now : Nat)

namespace YieldState

/-- `try_fill_pending_yield`, up to the first access to the queue. -/
def tryFill (s : YieldState) : YieldState :=
  match s.pendingYield with
  | none => s
  | some pending =>
    let s := { s with pendingYield := none }
    if s.waiter.any (·.toolCallId = pending.toolCallId) then
      { s with holder := [.takeEvents (.live pending)] }
    else { s with holder := [.gate pending] }

/-- The interjection branch of `process_turn`. -/
def interject (s : YieldState) (content : String) : YieldState :=
  match s.pendingYield with
  | none => s
  | some pending =>
    let s := { s with pendingYield := none }
    let s := if s.waiter.any (·.toolCallId = pending.toolCallId) then s.clearWaiter else s
    s.addMessage (plainMessage (toolResult pending.toolCallId (some "sessions_yield")
      (interjectionText content) false))

/-- `park_for_yield` after the wait: a content is written when the call is still pending, and queued
again otherwise. -/
def wake (s : YieldState) (task : ParkedTask) : YieldState :=
  match task.channel with
  | .waiting => s
  | .closed => { s with parked := s.parked.eraseP (·.key = task.key) }
  | .sent content =>
    let s := { s with parked := s.parked.eraseP (·.key = task.key) }
    if s.pendingYield.any (·.toolCallId = task.toolCallId) then
      { s with pendingYield := none }.addMessage (yieldResult task.toolCallId content)
    else s.first [.enqueueFresh content]

/-- A parked task is cancelled: its channel, with what is in it, goes. -/
def cancel (s : YieldState) (task : ParkedTask) : YieldState :=
  { s with
    parked := s.parked.eraseP (·.key = task.key)
    lost := s.lost ++ task.channel.carries }

end YieldState

/-- One step of a party. -/
def yieldStep (s : YieldState) : YieldEvent → YieldState
  | .enqueue content now =>
    { s with
      queue := s.queue ++ [{ val := .fresh content now, carries := [s.next] }]
      jobs := s.jobs ++ [none]
      next := s.next + 1 }
  | .cloneQueue job =>
    match s.jobs[job]? with
    | some none => { s with jobs := s.jobs.set job (some s.queue) }
    | _ => s
  | .saveQueue job =>
    match s.jobs[job]? with
    | some (some events) => { s with jobs := s.jobs.eraseIdx job }.writeEvents events
    | _ => s
  | .tryFill => if s.holder.isEmpty then s.tryFill else s
  | .yield call =>
    if s.holder.isEmpty then { s with holder := [.addCall call] } else s
  | .park =>
    match s.holder, s.pendingYield with
    | [], some pending => { s with holder := [.takeEvents (.park pending.toolCallId)] }
    | _, _ => s
  | .replayEnds => { s with replayInFlight := false }
  | .interject content => if s.holder.isEmpty then s.interject content else s
  | .wake key =>
    match s.holder, s.parked.find? (·.key = key) with
    | [], some task => s.wake task
    | _, _ => s
  | .cancel key =>
    match s.parked.find? (·.key = key) with
    | some task => s.cancel task
    | none => s
  | .advance now =>
    match s.holder with
    | op :: rest => { s with holder := rest }.runOp now op
    | [] => s

/-! ## Steps by their guards -/

/-- **A step by its guard**: an enabled party moves, or the state stays as it is. -/
inductive YieldTransition (s : YieldState) : YieldEvent → YieldState → Prop
  | enqueue (content : String) (now : Nat) : YieldTransition s (.enqueue content now)
      { s with
        queue := s.queue ++ [{ val := .fresh content now, carries := [s.next] }]
        jobs := s.jobs ++ [none]
        next := s.next + 1 }
  | cloneQueue (job : Nat) : YieldTransition s (.cloneQueue job)
      { s with jobs := s.jobs.set job (some s.queue) }
  | saveQueue {job : Nat} {events : List (Tagged PendingYieldEvent)}
      (hjob : s.jobs[job]? = some (some events)) : YieldTransition s (.saveQueue job)
      ({ s with jobs := s.jobs.eraseIdx job }.writeEvents events)
  | tryFill (hfree : s.holder = []) : YieldTransition s .tryFill s.tryFill
  | yield (call : ToolCall) (hfree : s.holder = []) :
      YieldTransition s (.yield call) (s.first [.addCall call])
  | park {pending : PendingYield} (hfree : s.holder = []) (hpending : s.pendingYield = some pending) :
      YieldTransition s .park (s.first [.takeEvents (.park pending.toolCallId)])
  | replayEnds : YieldTransition s .replayEnds { s with replayInFlight := false }
  | interject (content : String) (hfree : s.holder = []) :
      YieldTransition s (.interject content) (s.interject content)
  | wake {key : Nat} {task : ParkedTask} (hfree : s.holder = [])
      (htask : s.parked.find? (·.key = key) = some task) :
      YieldTransition s (.wake key) (s.wake task)
  | cancel {key : Nat} {task : ParkedTask} (htask : s.parked.find? (·.key = key) = some task) :
      YieldTransition s (.cancel key) (s.cancel task)
  | advance {op : YieldOp} {rest : List YieldOp} (now : Nat) (hholder : s.holder = op :: rest) :
      YieldTransition s (.advance now) ({ s with holder := rest }.runOp now op)
  | idle (e : YieldEvent)
      (hsave : ∀ job events, e = .saveQueue job → s.jobs[job]? ≠ some (some events))
      (hcancel : ∀ key, e = .cancel key → s.parked.find? (·.key = key) = none)
      (hadvance : ∀ now, e = .advance now → s.holder = []) : YieldTransition s e s

lemma first_of_free {s : YieldState} (h : s.holder = []) (op : YieldOp) :
    { s with holder := [op] } = s.first [op] := by
  rw [YieldState.first, h]
  rfl

/-- Every step is one of these. -/
theorem yieldTransition_yieldStep (s : YieldState) (e : YieldEvent) :
    YieldTransition s e (yieldStep s e) := by
  cases e with
  | enqueue content now => exact .enqueue content now
  | cloneQueue job =>
    unfold yieldStep
    dsimp only
    split
    · exact .cloneQueue job
    · exact .idle _ nofun nofun nofun
  | saveQueue job =>
    unfold yieldStep
    dsimp only
    split
    · rename_i events hjob
      exact .saveQueue hjob
    · rename_i hjob
      refine .idle _ (fun job' events heq => ?_) nofun nofun
      cases heq
      exact hjob events
  | tryFill =>
    unfold yieldStep
    dsimp only
    split_ifs with hfree
    · exact .tryFill (List.isEmpty_iff.1 hfree)
    · exact .idle _ nofun nofun nofun
  | yield call =>
    unfold yieldStep
    dsimp only
    split_ifs with hfree
    · rw [first_of_free (List.isEmpty_iff.1 hfree)]
      exact .yield call (List.isEmpty_iff.1 hfree)
    · exact .idle _ nofun nofun nofun
  | park =>
    unfold yieldStep
    dsimp only
    split
    · rename_i pending hfree hpending
      rw [first_of_free hfree]
      exact .park hfree hpending
    · exact .idle _ nofun nofun nofun
  | replayEnds => exact .replayEnds
  | interject content =>
    unfold yieldStep
    dsimp only
    split_ifs with hfree
    · exact .interject content (List.isEmpty_iff.1 hfree)
    · exact .idle _ nofun nofun nofun
  | wake key =>
    unfold yieldStep
    dsimp only
    split
    · rename_i task hfree htask
      exact .wake hfree htask
    · exact .idle _ nofun nofun nofun
  | cancel key =>
    unfold yieldStep
    dsimp only
    split
    · rename_i task htask
      exact .cancel htask
    · rename_i htask
      refine .idle _ nofun (fun key' heq => ?_) nofun
      cases heq
      exact htask
  | advance now =>
    unfold yieldStep
    dsimp only
    split
    · rename_i op rest hholder
      exact .advance now hholder
    · rename_i hholder
      exact .idle _ nofun nofun fun _ _ => hholder

/-! ## A start -/

/-- The messages that a reload keeps: results that answer no declared call are dropped. -/
def reloadMessages (messages : List (Tagged ChatMessage)) : List (Tagged ChatMessage) :=
  messages.filter fun msg => keepsResult (knownToolIds (messages.map (·.val))) msg.val

/-- The events of a queue file, numbered. -/
def numberEvents (events : List PendingYieldEvent) : List (Tagged PendingYieldEvent) :=
  events.mapIdx fun i event => { val := event, carries := [i] }

lemma carried_numberEvents (events : List PendingYieldEvent) :
    carried (numberEvents events) = List.range events.length := by
  induction events using List.reverseRecOn with
  | nil => rfl
  | append_singleton events event ih =>
    rw [numberEvents, List.mapIdx_concat, carried_append, List.length_append,
      List.length_singleton, List.range_succ, ← ih]
    simp [numberEvents]

/-- A session context after a start: `restore_pending_yield_events` and `load_session`. -/
def startYield (events : List PendingYieldEvent) (messages : List ChatMessage) : YieldState where
  queue := numberEvents events
  waiter := none
  parked := []
  nextKey := 0
  pendingYield := reconstructedYield (identifyBreakpoint messages)
  history := reloadMessages (messages.map plainMessage)
  replayInFlight := false
  holder := []
  queueFile := numberEvents events
  historyFile := messages.map plainMessage
  jobs := []
  next := events.length
  expired := []
  lost := []
  persisted := List.range events.length

end MyClaw
