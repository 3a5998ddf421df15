import MyClaw.Lib.Tokens
import MyClaw.Session.Types

set_option autoImplicit false

/-!
# Pending yield events

An event that may end a `sessions_yield` waits in a queue (`agents/session_context/mod.rs`).  A fill
takes the whole queue: events that are too old are folded into one line, at most twenty of the
others make up the content, and the rest is queued again.  Each event carries its number, and a
content the numbers of the events that went into it.

## Main definitions

* `PendingYieldEvent` — an event with the second it was queued at.
* `formatPendingYieldEvents` — the text of several events.
* `foldEvents` — what `drain_pending_yield_for_fill` makes of the events that it took.

## Main results

* `count_foldEvents` — each event is in the content, queued again, or folded.
-/

namespace MyClaw

open Tokens

/-- `PENDING_YIELD_EXPIRY_SECS`. -/
def pendingYieldExpirySecs : Nat := 24 * 3600

/-- `PENDING_YIELD_FILL_LIMIT`. -/
def pendingYieldFillLimit : Nat := 20

/-- `PendingYieldEvent`. -/
structure PendingYieldEvent where
  content : String
  /-- The second of the enqueue; 0 in a queue file without timestamps. -/
  enqueuedAt : Nat

/-- `PendingYieldEvent::fresh`. -/
def PendingYieldEvent.fresh (content : String) (now : Nat) : PendingYieldEvent :=
  { content := content, enqueuedAt := now }

/-- An event without a timestamp, or one that is older than the limit. -/
def PendingYieldEvent.stale (now : Nat) (event : PendingYieldEvent) : Bool :=
  event.enqueuedAt = 0 || pendingYieldExpirySecs < now - event.enqueuedAt

/-- `format_pending_yield_events`. -/
def formatPendingYieldEvents (events : List PendingYieldEvent) : String :=
  match events with
  | [event] => event.content
  | _ =>
    events.foldl (fun out event => out ++ "- " ++ event.content ++ "\n")
      "Since you yielded, the following happened:\n"

/-- The line that stands for the folded events. -/
def foldedLine (count : Nat) : String :=
  "（另有 " ++ toString count ++ " 条过期通知已折叠，不再展开）"

/-- The content of a fill. -/
def fillContent (fresh expired : List PendingYieldEvent) : String :=
  let content := if fresh = [] then "" else formatPendingYieldEvents fresh
  if expired = [] then content
  else (if content = "" then content else content ++ "\n") ++ foldedLine expired.length

/-- What a drain makes of the events that it took. -/
structure FoldedEvents where
  /-- The content of the fill, with the numbers of the events in it. -/
  content : Tagged String
  /-- The events over the limit. -/
  overflow : List (Tagged PendingYieldEvent)
  /-- The numbers of the folded events. -/
  expired : List Nat

/-- The events that are not too old. -/
def freshEvents (now : Nat) (events : List (Tagged PendingYieldEvent)) :
    List (Tagged PendingYieldEvent) :=
  events.filter fun event => !event.val.stale now

/-- The events that are too old. -/
def staleEvents (now : Nat) (events : List (Tagged PendingYieldEvent)) :
    List (Tagged PendingYieldEvent) :=
  events.filter fun event => event.val.stale now

/-- `drain_pending_yield_for_fill` between the taking of the events and the requeueing. -/
def foldEvents (now : Nat) (events : List (Tagged PendingYieldEvent)) : FoldedEvents :=
  let fresh := (freshEvents now events).take pendingYieldFillLimit
  let expired := staleEvents now events
  { content :=
      { val := fillContent (fresh.map (·.val)) (expired.map (·.val)), carries := carried fresh }
    overflow := (freshEvents now events).drop pendingYieldFillLimit
    expired := carried expired }

/-- **Nothing is lost in a drain**: each event is in the content, over the limit, or folded. -/
theorem count_foldEvents (now : Nat) (events : List (Tagged PendingYieldEvent)) (n : Nat) :
    (foldEvents now events).content.carries.count n +
        (carried (foldEvents now events).overflow).count n +
        (foldEvents now events).expired.count n = (carried events).count n := by
  have hsplit := count_carried_filter (fun event => event.val.stale now) events n
  have htake := count_carried_take pendingYieldFillLimit (freshEvents now events) n
  unfold freshEvents at htake
  simp only [foldEvents, freshEvents, staleEvents]
  omega

end MyClaw
