import Mathlib.Data.List.Basic

set_option autoImplicit false

/-!
# Delegations

The data of a delegation to a sub-agent (`agents/delegation.rs`, `api/delegation.rs`,
`storage/session.rs`): its status, its durable checkpoint, the event that tells the parent how it
ended, and the error of a sub-agent that was killed by its timer.

## Main definitions

* `DelegationStatus`, `DelegationCheckpoint`, `DelegationEvent` — the data of
  the source.
* `DelegationError` — an error, with the structured one of a timeout apart.
* `settleCheckpoint` — the checkpoint of a delegation that has reached a terminal state.
-/

namespace MyClaw

/-- Where a delegation is in its life. -/
inductive DelegationStatus
  | running
  | idle
  | completed
  | failed
  | timedOut
  | cancelled
  | checkpointed
  deriving DecidableEq

/-- `DelegationStatus::as_str`. -/
def DelegationStatus.asStr : DelegationStatus → String
  | .running => "running"
  | .idle => "idle"
  | .completed => "completed"
  | .failed => "failed"
  | .timedOut => "timed_out"
  | .cancelled => "cancelled"
  | .checkpointed => "checkpointed"

lemma DelegationStatus.asStr_injective : Function.Injective DelegationStatus.asStr := by
  intro a b h
  revert h
  cases a <;> cases b <;> decide

/-- What is kept on disk about a delegation. -/
structure DelegationCheckpoint where
  parentSessionId : String
  subSessionId : String
  agentName : String
  status : String
  startedAt : Nat
  timeoutSecs : Nat
  allowedTools : Option (List String) := none
  lastCheckpoint : Option Nat := none
  deriving DecidableEq

/-- How the parent hears of the end of a delegation. -/
inductive DelegationEvent
  | completed (subSessionId parentSessionId summary : String)
      (durationSecs sentMessageCount : Nat)
  | failed (subSessionId parentSessionId error : String)
  | timedOut (subSessionId parentSessionId : String) (timeoutSecs durationSecs : Nat)

/-- The sub-session that an event is about. -/
def DelegationEvent.subSessionId : DelegationEvent → String
  | .completed id .. => id
  | .failed id .. => id
  | .timedOut id .. => id

/-- `DelegationTimeout`. -/
structure DelegationTimeout where
  agent : String
  secs : Nat
  deriving DecidableEq

/-- An error: the structured one of a timeout, which a caller can downcast to, or a text. -/
inductive DelegationError
  | timeout (t : DelegationTimeout)
  | other (text : String)
  deriving DecidableEq

namespace DelegationError

/-- The text of an error. -/
def text : DelegationError → String
  | .timeout t => "sub-agent '" ++ t.agent ++ "' timed out after " ++ toString t.secs ++ "s"
  | .other text => text

/-- `downcast_ref::<DelegationTimeout>()`. -/
def downcastTimeout : DelegationError → Option DelegationTimeout
  | .timeout t => some t
  | .other _ => none

end DelegationError

/-- `update_delegation_checkpoint_status`: a missing checkpoint is left missing. -/
def tombstone (checkpoint : Option DelegationCheckpoint) (status : DelegationStatus) :
    Option DelegationCheckpoint :=
  checkpoint.map fun cp => { cp with status := status.asStr }

/-- The terminal status that a result stands for. -/
def terminalStatus (result : Except DelegationError String) : DelegationStatus :=
  match result with
  | .ok _ => .completed
  | .error e => if e.downcastTimeout.isSome then .timedOut else .failed

/-- The checkpoint of a delegation that has ended: a completed one is deleted, the others keep it as
a tombstone. -/
def settleCheckpoint (checkpoint : Option DelegationCheckpoint)
    (result : Except DelegationError String) : Option DelegationCheckpoint :=
  if terminalStatus result = .completed then none
  else tombstone checkpoint (terminalStatus result)

/-- The terminal event of a background delegation. -/
def terminalEvent (subSessionId parentSessionId : String) (result : Except DelegationError String)
    (durationSecs sentMessageCount : Nat) : DelegationEvent :=
  match result with
  | .ok summary => .completed subSessionId parentSessionId summary durationSecs sentMessageCount
  | .error e =>
    match e.downcastTimeout with
    | some t => .timedOut subSessionId parentSessionId t.secs durationSecs
    | none => .failed subSessionId parentSessionId e.text

@[simp] lemma subSessionId_terminalEvent (subSessionId parentSessionId : String)
    (result : Except DelegationError String) (durationSecs sentMessageCount : Nat) :
    (terminalEvent subSessionId parentSessionId result durationSecs sentMessageCount).subSessionId =
      subSessionId := by
  unfold terminalEvent
  rcases result with (t | text) | summary <;> rfl

end MyClaw
