import MyClaw.Provider.ChatMessage
import Mathlib.Data.List.Infix

set_option autoImplicit false

/-!
# The loop breaker

`LoopBreakerCounter` (`agents/loop_breaker.rs`): a counter of the tool calls of one turn with a
window of the last ones, that detects a repetition after every call.  The moment of a call is an
argument, in nanoseconds, where the source reads a clock.

## Main definitions

* `LoopBreakerCounter.recordAndCheck` — one call with its result is recorded and checked.
-/

namespace MyClaw

/-- The `[loop_breaker]` section of the configuration. -/
structure LoopBreakerConfig where
  maxToolCalls : Nat := 100
  windowSize : Nat := 20
  exactRepeatThreshold : Nat := 3
  pingPongRounds : Nat := 6
  noProgressThreshold : Nat := 5
  relaxedTools : List String := ["shell", "task_update", "task_delete"]
  rapidRepeatWindowSecs : Nat := 60

/-- Why a turn is broken off. -/
inductive LoopBreakReason
  | exactRepeat (tool : String) (count threshold : Nat)
  | pingPong (toolA toolB : String) (rounds : Nat)
  | noProgress (tool : String) (count : Nat)
  | maxCalls (count limit : Nat)
  deriving DecidableEq

/-- A recorded tool call. -/
structure ToolInvocation where
  toolName : String
  argsHash : UInt64
  resultHash : UInt64
  isTimeout : Bool
  timestamp : Nat

/-- The state of the loop breaker in one turn; the window has the latest call last. -/
structure LoopBreakerCounter where
  config : LoopBreakerConfig
  totalCalls : Nat := 0
  window : List ToolInvocation := []

/-- `simple_hash`: FNV-1a over the bytes of a text. -/
def simpleHash (s : String) : UInt64 :=
  s.toUTF8.toList.foldl (fun hash byte => (hash ^^^ byte.toUInt64) * 0x100000001b3)
    0xcbf29ce484222325

/-- `span.as_secs()` of a span in nanoseconds. -/
def asSecs (span : Nat) : Nat := span / 1000000000

/-- Every second element, the first included. -/
def everyOther {α : Type*} : List α → List α
  | [] => []
  | [a] => [a]
  | a :: _ :: rest => a :: everyOther rest

namespace LoopBreakerCounter

/-- The streak of calls like `first`, from the latest call backwards: its length and the moment of
its earliest call. -/
def exactStreak (first : ToolInvocation) : Nat → Nat → List ToolInvocation → Nat × Nat
  | count, start, [] => (count, start)
  | count, start, inv :: rest =>
    if inv.toolName = first.toolName ∧ inv.argsHash = first.argsHash then
      if inv.isTimeout then (count, start)
      else if inv.resultHash ≠ first.resultHash then (count, start)
      else exactStreak first (count + 1) inv.timestamp rest
    else (count, start)

/-- `check_exact_repeat`. -/
def checkExactRepeat (c : LoopBreakerCounter) : Option LoopBreakReason :=
  match c.window.reverse with
  | [] => none
  | first :: rest =>
    if first.isTimeout then none
    else
      let (count, streakStart) := exactStreak first 1 first.timestamp rest
      if count ≥ c.config.exactRepeatThreshold then
        if asSecs (first.timestamp - streakStart) ≥ c.config.rapidRepeatWindowSecs then none
        else some (.exactRepeat first.toolName count c.config.exactRepeatThreshold)
      else none

/-- `check_ping_pong`. -/
def checkPingPong (c : LoopBreakerCounter) : Option LoopBreakReason :=
  let n := c.config.pingPongRounds
  if c.window.length < 4 ∨ n < 2 ∨ c.window.length < n * 2 then none
  else
    let tail := c.window.reverse.take (n * 2)
    match tail with
    | a :: b :: _ =>
      if a.toolName = b.toolName then none
      else if ¬ ((everyOther tail).all fun inv => inv.toolName = a.toolName) ∨
          ¬ ((everyOther (tail.drop 1)).all fun inv => inv.toolName = b.toolName) then none
      else
        let argsA := (everyOther tail).map (·.argsHash)
        let argsB := (everyOther (tail.drop 1)).map (·.argsHash)
        if argsA.eraseDups.length = argsA.length ∧ argsB.eraseDups.length = argsB.length then none
        else some (.pingPong a.toolName b.toolName n)
    | _ => none

/-- The consecutive calls of the same tool with the same result, from the latest backwards;
calls with the arguments of the latest one are passed over. -/
def noProgressCount (target : ToolInvocation) : Nat → List ToolInvocation → Nat
  | count, [] => count
  | count, inv :: rest =>
    if inv.toolName ≠ target.toolName ∨ inv.resultHash ≠ target.resultHash then count
    else if inv.argsHash = target.argsHash then noProgressCount target count rest
    else noProgressCount target (count + 1) rest

/-- `check_no_progress`. -/
def checkNoProgress (c : LoopBreakerCounter) : Option LoopBreakReason :=
  match c.window.reverse with
  | [] => none
  | target :: rest =>
    let count := noProgressCount target 1 rest
    let threshold :=
      if c.config.relaxedTools.any fun t => t = target.toolName then
        max (c.config.noProgressThreshold * 2) 8
      else c.config.noProgressThreshold
    if count ≥ threshold then some (.noProgress target.toolName count) else none

/-- The counter with one more call, the window trimmed. -/
def record (c : LoopBreakerCounter) (toolName args result : String) (now : Nat) :
    LoopBreakerCounter :=
  { c with
    totalCalls := c.totalCalls + 1
    window := (if c.window.length ≥ c.config.windowSize then c.window.drop 1 else c.window) ++
      [{ toolName := toolName
         argsHash := simpleHash args
         resultHash := simpleHash result
         isTimeout := decide ("timed out".toList <:+: result.toList)
         timestamp := now }] }

/-- The checks of `record_and_check`, in their order. -/
def check (c : LoopBreakerCounter) : Option LoopBreakReason :=
  if c.config.maxToolCalls > 0 ∧ c.totalCalls > c.config.maxToolCalls then
    some (.maxCalls c.totalCalls c.config.maxToolCalls)
  else c.checkExactRepeat <|> c.checkPingPong <|> c.checkNoProgress

/-- `record_and_check`: `none` when no loop is detected. -/
def recordAndCheck (c : LoopBreakerCounter) (toolName args result : String) (now : Nat) :
    Option LoopBreakReason × LoopBreakerCounter :=
  let c := c.record toolName args result now
  (c.check, c)

end LoopBreakerCounter

end MyClaw
