import MyClaw.Lib.Run
import Mathlib.Logic.Function.Basic

set_option autoImplicit false

/-!
# The router of `ask_user`

`AskRouter` (`agents/ask_router.rs`): the table of the questions that wait for a reply, one for each
session.  A wait draws a generation, puts its sender into the slot of its session, and waits; the
guard of a wait takes the slot away if it still has its generation.  A message of the user takes the
sender out of the slot and sends.

## Main definitions

* `AskRouter` — the table with its generations: `insert`, `removeIf`, `remove`.
* `Wait`, `Fulfill` — a call of `wait_for_reply` and one of `fulfill`, each as far as
  it has come.
* `AskEvent`, `askStep` — the steps of the calls, in any order.

## Implementation notes

A step is one operation on the table or on a channel; the calls of other tasks run between any two.
Generations are natural numbers: the counter of 64 bits does not come round.  What a run keeps besides,
the newest wait of a session and the waits whose sender was replaced, is not in the source.
-/

namespace MyClaw

/-! ## The table -/

/-- A slot: the generation of a wait, and the wait whose sender it holds. -/
structure PendingAsk where
  generation : ℕ
  wait : ℕ

/-- `AskRouter`. -/
structure AskRouter where
  pending : String → Option PendingAsk
  /-- A `u64` in the program; it does not come round. -/
  nextGen : ℕ

namespace AskRouter

/-- `new`. -/
def new : AskRouter := ⟨fun _ => none, 0⟩

/-- `fetch_add` on the generations. -/
def drawGen (r : AskRouter) : AskRouter := { r with nextGen := r.nextGen + 1 }

/-- `insert`. -/
def insert (r : AskRouter) (sessionId : String) (ask : PendingAsk) : AskRouter :=
  { r with pending := Function.update r.pending sessionId (some ask) }

/-- `remove`. -/
def remove (r : AskRouter) (sessionId : String) : AskRouter :=
  { r with pending := Function.update r.pending sessionId none }

/-- `remove_if`, for a generation: what the guard of a wait does. -/
def removeIf (r : AskRouter) (sessionId : String) (generation : ℕ) : AskRouter :=
  if (r.pending sessionId).any (·.generation = generation) then r.remove sessionId else r

lemma pending_insert (r : AskRouter) (sessionId other : String) (ask : PendingAsk) :
    (r.insert sessionId ask).pending other =
      if other = sessionId then some ask else r.pending other :=
  Function.update_apply ..

lemma pending_remove (r : AskRouter) (sessionId other : String) :
    (r.remove sessionId).pending other = if other = sessionId then none else r.pending other :=
  Function.update_apply ..

lemma pending_removeIf (r : AskRouter) (sessionId other : String) (generation : ℕ) :
    (r.removeIf sessionId generation).pending other =
      if other = sessionId ∧ (r.pending sessionId).any (·.generation = generation) then none
      else r.pending other := by
  rw [removeIf]
  split_ifs with hgen hother hother
  · rw [pending_remove, if_pos hother.1]
  · rw [pending_remove, if_neg fun h => hother ⟨h, hgen⟩]
  · exact absurd hother.2 hgen
  · rfl

end AskRouter

/-! ## Calls -/

variable {M : Type}

/-- A oneshot channel, as its sender has left it. -/
inductive Oneshot (M : Type)
  | empty
  | sent (msg : M)
  | closed

/-- How a wait ends. -/
inductive WaitEnd (M : Type)
  | reply (msg : M)
  | superseded
  | cancelled

/-- How far a wait has come. -/
inductive WaitPhase (M : Type)
  /-- It has its generation, and no slot yet. -/
  | tagged
  /-- It awaits its channel. -/
  | waiting
  /-- Its receiver is dropped, its guard has not run. -/
  | over (e : WaitEnd M)
  /-- Its guard has run. -/
  | done (e : WaitEnd M)

/-- A call of `wait_for_reply`. -/
structure Wait (M : Type) where
  sessionId : String
  generation : ℕ
  channel : Oneshot M
  phase : WaitPhase M

/-- How the wait has ended, if it has. -/
def Wait.outcome (a : Wait M) : Option (WaitEnd M) :=
  match a.phase with
  | .over e => some e
  | .done e => some e
  | _ => none

/-- The wait has its generation and no slot. -/
def Wait.isTagged (a : Wait M) : Bool := a.phase matches .tagged

/-- The wait awaits its channel. -/
def Wait.isWaiting (a : Wait M) : Bool := a.phase matches .waiting

lemma Wait.phase_of_isWaiting {a : Wait M} (h : a.isWaiting = true) : a.phase = .waiting := by
  rw [Wait.isWaiting] at h
  split at h
  · assumption
  · exact absurd h Bool.false_ne_true

lemma Wait.outcome_of_isWaiting {a : Wait M} (h : a.isWaiting = true) : a.outcome = none := by
  rw [Wait.outcome, Wait.phase_of_isWaiting h]

/-- `Sender::send`: the message is lost if the receiver is dropped. -/
def Wait.send (a : Wait M) (msg : M) : Wait M :=
  { a with channel := if a.isWaiting then .sent msg else .closed }

/-- A call of `fulfill`: the wait whose sender it took out of the slot, the newest wait of the
session at that time, and whether it has sent. -/
structure Fulfill (M : Type) where
  sessionId : String
  reply : M
  target : Option ℕ
  newest : Option ℕ
  sent : Bool

/-- What `fulfill` returns. -/
def Fulfill.returns (r : Fulfill M) : Bool := r.target.isSome

/-! ## Runs -/

/-- The router, the calls by their numbers, and what is kept of the run. -/
structure AskState (M : Type) where
  router : AskRouter
  waits : ℕ → Option (Wait M)
  fulfills : ℕ → Option (Fulfill M)
  /-- The wait of the session that was registered last. -/
  newest : String → Option ℕ
  /-- The sender of the wait was replaced in its slot. -/
  superseded : ℕ → Bool

/-- No calls. -/
def AskState.new : AskState M := ⟨.new, fun _ => none, fun _ => none, fun _ => none, fun _ => false⟩

/-- A step of a call. -/
inductive AskEvent (M : Type)
  | call (w : ℕ) (sessionId : String)
  | register (w : ℕ)
  | poll (w : ℕ)
  | cancel (w : ℕ)
  | dropGuard (w : ℕ)
  | fulfill (f : ℕ) (sessionId : String) (reply : M)
  | send (f : ℕ)

namespace AskState

/-- The wait is changed. -/
def setWait (s : AskState M) (w : ℕ) (a : Wait M) : AskState M :=
  { s with waits := Function.update s.waits w (some a) }

lemma waits_setWait (s : AskState M) (w w' : ℕ) (a : Wait M) :
    (s.setWait w a).waits w' = if w' = w then some a else s.waits w' :=
  Function.update_apply ..

/-- A sender that is dropped closes its channel. -/
def dropSender (s : AskState M) (w : ℕ) : AskState M :=
  match s.waits w with
  | some a => { s.setWait w { a with channel := .closed } with
      superseded := Function.update s.superseded w true }
  | none => s

/-- The wait `w` puts its sender into the slot of its session. -/
def register (s : AskState M) (w : ℕ) (a : Wait M) : AskState M :=
  let replaced := s.router.pending a.sessionId
  let s := { s.setWait w { a with phase := .waiting } with
    router := s.router.insert a.sessionId ⟨a.generation, w⟩
    newest := Function.update s.newest a.sessionId (some w) }
  match replaced with
  | some old => s.dropSender old.wait
  | none => s

end AskState

/-- A step of the run; a step that its call is not ready for changes nothing. -/
def askStep (s : AskState M) : AskEvent M → AskState M
  | .call w sessionId =>
    match s.waits w with
    | some _ => s
    | none =>
      { s.setWait w ⟨sessionId, s.router.nextGen, .empty, .tagged⟩ with router := s.router.drawGen }
  | .register w =>
    match s.waits w with
    | some a => if a.isTagged then s.register w a else s
    | none => s
  | .poll w =>
    match s.waits w with
    | some a =>
      if a.isWaiting then
        match a.channel with
        | .empty => s
        | .sent msg => s.setWait w { a with phase := .over (.reply msg) }
        | .closed => s.setWait w { a with phase := .over .superseded }
      else s
    | none => s
  | .cancel w =>
    match s.waits w with
    | some a => if a.isWaiting then s.setWait w { a with phase := .over .cancelled } else s
    | none => s
  | .dropGuard w =>
    match s.waits w with
    | some a =>
      match a.phase with
      | .over e =>
        { s.setWait w { a with phase := .done e } with
          router := s.router.removeIf a.sessionId a.generation }
      | _ => s
    | none => s
  | .fulfill f sessionId reply =>
    match s.fulfills f with
    | some _ => s
    | none =>
      match s.router.pending sessionId with
      | none =>
        { s with
          fulfills := Function.update s.fulfills f
            (some ⟨sessionId, reply, none, s.newest sessionId, true⟩) }
      | some ask =>
        { s with
          router := s.router.remove sessionId
          fulfills := Function.update s.fulfills f
            (some ⟨sessionId, reply, some ask.wait, s.newest sessionId, false⟩) }
  | .send f =>
    match s.fulfills f with
    | some r =>
      if r.sent then s
      else
        match r.target.bind fun w => (s.waits w).map fun a => (w, a) with
        | some (w, a) =>
          { s.setWait w (a.send r.reply) with
            fulfills := Function.update s.fulfills f (some { r with sent := true }) }
        | none => s
    | none => s

end MyClaw
