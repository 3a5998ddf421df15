import MyClaw.Context.YieldMachine
import Mathlib.Data.List.Flatten

set_option autoImplicit false

/-!
# The order of yield events

`drain_pending_yield_for_fill` (`agents/session_context/mod.rs`) empties the queue, sorts what it
took by age, and puts the events over the limit back at the tail, one at a time.  The drains of a
session exclude each other by the session lock.  An enqueue takes only the lock of the queue, so it
may come between any two of these steps.

## Main definitions

* `DrainState`, `drainStep` — producers and the drain as a machine.
* `InArrivalOrder` — the fresh events of the fills so far and the fresh events in the queue
  stand in the order in which they were enqueued.
* `RequeuesInOrder` — no later event waits fresh in the queue when one is put back.

## Main results

* `inArrivalOrder_iff` — a run delivers in arrival order exactly when each of its steps
  requeues in order.
* `not_inArrivalOrder_overtaken` — twenty-one events, and one that comes during the drain.

## Implementation notes

The events are numbered in the order in which they are enqueued.  A requeued event keeps its number
and its timestamp.  The clock of the machine does not go back.
-/

namespace MyClaw

open Tokens

/-! ## The machine -/

/-- Where the drain is. -/
inductive DrainPhase
  | idle
  /-- The queue has been taken and not been sorted by age. -/
  | taken (events : List (Tagged PendingYieldEvent))
  /-- The events over the limit that are still to be put back. -/
  | requeue (overflow : List (Tagged PendingYieldEvent))

/-- The queue, the drain, and the fills so far. -/
structure DrainState where
  /-- The second of the clock. -/
  now : Nat
  queue : List (Tagged PendingYieldEvent)
  phase : DrainPhase
  /-- The numbers of the fresh events in the fills so far. -/
  filled : List Nat
  /-- The number of the next event. -/
  next : Nat

/-- What happens. -/
inductive DrainEvent
  /-- A producer calls `enqueue_pending_yield_event`. -/
  | enqueue (event : PendingYieldEvent)
  /-- Time goes by. -/
  | advance (secs : Nat)
  /-- The drain calls `take_pending_yield_events`. -/
  | take
  /-- The drain reads the clock, sorts the events and settles the content of the fill. -/
  | fold
  /-- The drain puts the next event over the limit back. -/
  | requeue

/-- The drain with these events left to put back; it ends with the last one. -/
def DrainPhase.ofOverflow (overflow : List (Tagged PendingYieldEvent)) : DrainPhase :=
  if overflow = [] then .idle else .requeue overflow

/-- The state after an event; a step of the drain that is not its next one does nothing. -/
def drainStep (s : DrainState) : DrainEvent → DrainState
  | .enqueue event =>
    { s with queue := s.queue ++ [{ val := event, carries := [s.next] }], next := s.next + 1 }
  | .advance secs => { s with now := s.now + secs }
  | .take =>
    match s.phase with
    | .idle => if s.queue = [] then s else { s with queue := [], phase := .taken s.queue }
    | _ => s
  | .fold =>
    match s.phase with
    | .taken events =>
      let folded := foldEvents s.now events
      { s with
        filled := s.filled ++ folded.content.carries
        phase := .ofOverflow folded.overflow }
    | _ => s
  | .requeue =>
    match s.phase with
    | .requeue (event :: rest) =>
      { s with queue := s.queue ++ [event], phase := .ofOverflow rest }
    | _ => s

/-- A session context with a queue from its file. -/
def startDrain (now : Nat) (events : List PendingYieldEvent) : DrainState where
  now := now
  queue := numberEvents events
  phase := .idle
  filled := []
  next := events.length

/-! ## The property and its condition -/

/-- The numbers of the events that are not too old. -/
def freshNumbers (now : Nat) (events : List (Tagged PendingYieldEvent)) : List Nat :=
  carried (freshEvents now events)

/-- **Arrival order**: the fresh events of the fills so far, and then the fresh events in the queue,
stand in the order in which they were enqueued. -/
def InArrivalOrder (s : DrainState) : Prop :=
  (s.filled ++ freshNumbers s.now s.queue).Pairwise (· < ·)

/-- **The condition of a step**: when a fresh event is put back, no event that was enqueued after it
waits fresh in the queue. -/
def RequeuesInOrder (s : DrainState) : DrainEvent → Prop
  | .requeue =>
    match s.phase with
    | .requeue (event :: _) =>
      event.val.stale s.now = false →
        ∀ i ∈ freshNumbers s.now s.queue, ∀ j ∈ event.carries, i < j
    | _ => True
  | _ => True

instance : DecidablePred InArrivalOrder := fun s =>
  inferInstanceAs (Decidable ((s.filled ++ freshNumbers s.now s.queue).Pairwise (· < ·)))

/-! ## Fresh events -/

section

variable {now : Nat} {events rest : List (Tagged PendingYieldEvent)}
  {event : Tagged PendingYieldEvent}

@[simp] lemma freshNumbers_nil : freshNumbers now [] = [] := rfl

@[simp] lemma freshNumbers_append :
    freshNumbers now (events ++ rest) = freshNumbers now events ++ freshNumbers now rest := by
  simp [freshNumbers, freshEvents]

lemma freshNumbers_singleton :
    freshNumbers now [event] = if event.val.stale now then [] else event.carries := by
  by_cases h : event.val.stale now = true <;> simp [freshNumbers, freshEvents, h]

/-- An event that is too old stays too old. -/
lemma stale_mono {e : PendingYieldEvent} {later : Nat} (hle : now ≤ later)
    (h : e.stale now = true) : e.stale later = true := by
  simp only [PendingYieldEvent.stale, Bool.or_eq_true, decide_eq_true_eq] at h ⊢
  omega

/-- Time makes no event fresh. -/
lemma freshNumbers_later {later : Nat} (hle : now ≤ later) :
    (freshNumbers later events).Sublist (freshNumbers now events) := by
  induction events with
  | nil => exact List.Sublist.slnil
  | cons event events ih =>
    rw [← List.singleton_append, freshNumbers_append, freshNumbers_append,
      freshNumbers_singleton, freshNumbers_singleton]
    refine List.Sublist.append ?_ ih
    by_cases h : event.val.stale now = true
    · rw [if_pos h, if_pos (stale_mono hle h)]
    · rw [if_neg h]
      split_ifs
      · exact List.nil_sublist _
      · exact List.Sublist.refl _

/-- What a drain takes into the content and what it puts back are the fresh events in their
order. -/
lemma foldEvents_fresh :
    (foldEvents now events).content.carries ++ freshNumbers now (foldEvents now events).overflow =
      freshNumbers now events := by
  have hdrop : freshNumbers now ((freshEvents now events).drop pendingYieldFillLimit) =
      carried ((freshEvents now events).drop pendingYieldFillLimit) := by
    have hself : freshEvents now ((freshEvents now events).drop pendingYieldFillLimit) =
        (freshEvents now events).drop pendingYieldFillLimit :=
      List.filter_eq_self.2 fun e he =>
        (List.mem_filter.1 (List.mem_of_mem_drop he)).2
    rw [freshNumbers, hself]
  rw [foldEvents, hdrop, freshNumbers, ← carried_append, List.take_append_drop]

end

/-! ## The invariant of an orderly run -/

/-- The events between the queue and the queue. -/
def DrainPhase.inFlight : DrainPhase → List (Tagged PendingYieldEvent)
  | .idle => []
  | .taken events => events
  | .requeue overflow => overflow

@[simp] lemma inFlight_ofOverflow (overflow : List (Tagged PendingYieldEvent)) :
    (DrainPhase.ofOverflow overflow).inFlight = overflow := by
  unfold DrainPhase.ofOverflow
  split_ifs with h
  · exact h.symm
  · rfl

/-- What holds in every state of an orderly run: the fills, the events in flight and the queue, each
two of them in the order of arrival, as far as their order is settled. -/
structure Orderly (s : DrainState) : Prop where
  queued : InArrivalOrder s
  inFlight : (s.filled ++ freshNumbers s.now s.phase.inFlight).Pairwise (· < ·)
  /-- Before the taken events are sorted, every event in the queue came later. -/
  taken : ∀ events, s.phase = .taken events →
    ∀ i ∈ freshNumbers s.now events, ∀ j ∈ freshNumbers s.now s.queue, i < j
  below : ∀ i ∈ s.filled ++ freshNumbers s.now s.phase.inFlight ++ freshNumbers s.now s.queue,
    i < s.next

section

variable {s : DrainState}

/-- An event that arrives is behind the others. -/
lemma orderly_enqueue (h : Orderly s) (event : PendingYieldEvent) :
    Orderly (drainStep s (.enqueue event)) := by
  have hnew : freshNumbers s.now [{ val := event, carries := [s.next] }] = [] ∨
      freshNumbers s.now [{ val := event, carries := [s.next] }] = [s.next] := by
    rw [freshNumbers_singleton]
    split_ifs
    · exact .inl rfl
    · exact .inr rfl
  have hbelow := h.below
  simp only [List.mem_append] at hbelow
  obtain ⟨hqueued, hflight, htaken, -⟩ := h
  refine ⟨?_, hflight, fun events hphase i hi j hj => ?_, fun i hi => ?_⟩
  · simp only [InArrivalOrder, drainStep, freshNumbers_append, ← List.append_assoc]
    refine List.pairwise_append.2 ⟨hqueued, ?_, fun i hi j hj => ?_⟩
    · rcases hnew with hnew | hnew <;> rw [hnew] <;> simp
    · rcases hnew with hnew | hnew
      · rw [hnew] at hj
        exact absurd hj List.not_mem_nil
      · rw [hnew, List.mem_singleton] at hj
        rw [hj]
        rcases List.mem_append.1 hi with hi | hi
        · exact hbelow i (.inl (.inl hi))
        · exact hbelow i (.inr hi)
  · simp only [drainStep, freshNumbers_append, List.mem_append] at hj hphase hi
    rcases hj with hj | hj
    · exact htaken events hphase i hi j hj
    · rcases hnew with hnew | hnew
      · rw [hnew] at hj
        exact absurd hj List.not_mem_nil
      · rw [hnew, List.mem_singleton] at hj
        rw [hj]
        refine hbelow i (.inl (.inr ?_))
        rw [hphase]
        exact hi
  · simp only [drainStep, freshNumbers_append, List.mem_append] at hi ⊢
    rcases hi with hi | hi | hi
    · exact Nat.lt_succ_of_lt (hbelow i (.inl hi))
    · exact Nat.lt_succ_of_lt (hbelow i (.inr hi))
    · rcases hnew with hnew | hnew
      · rw [hnew] at hi
        exact absurd hi List.not_mem_nil
      · rw [hnew, List.mem_singleton] at hi
        rw [hi]
        exact Nat.lt_succ_self _

lemma orderly_advance (h : Orderly s) (secs : Nat) : Orderly (drainStep s (.advance secs)) := by
  have hle : s.now ≤ s.now + secs := Nat.le_add_right _ _
  refine ⟨?_, ?_, fun events hphase i hi j hj => ?_, fun i hi => ?_⟩
  · exact h.queued.sublist ((List.Sublist.refl _).append (freshNumbers_later hle))
  · exact h.inFlight.sublist ((List.Sublist.refl _).append (freshNumbers_later hle))
  · exact h.taken events hphase i ((freshNumbers_later hle).subset hi) j
      ((freshNumbers_later hle).subset hj)
  · refine h.below i ?_
    have hfresh : (freshNumbers (s.now + secs) s.phase.inFlight ++
        freshNumbers (s.now + secs) s.queue).Sublist
          (freshNumbers s.now s.phase.inFlight ++ freshNumbers s.now s.queue) :=
      (freshNumbers_later hle).append (freshNumbers_later hle)
    rw [List.append_assoc]
    refine ((List.Sublist.refl s.filled).append hfresh).subset ?_
    rw [← List.append_assoc]
    exact hi

lemma orderly_take (h : Orderly s) : Orderly (drainStep s .take) := by
  unfold drainStep
  cases hphase : s.phase with
  | taken events => exact h
  | requeue overflow => exact h
  | idle =>
    dsimp only
    split_ifs with hempty
    · exact h
    · have hbelow := h.below
      simp only [hphase, DrainPhase.inFlight, freshNumbers_nil, List.append_nil] at hbelow
      refine ⟨?_, h.queued, fun events _ i _ j hj => absurd hj List.not_mem_nil, ?_⟩
      · have hqueued := h.queued
        unfold InArrivalOrder at hqueued ⊢
        rw [freshNumbers_nil, List.append_nil]
        exact hqueued.sublist (List.sublist_append_left _ _)
      · simpa [DrainPhase.inFlight] using hbelow

/-- A drain takes the events in their order. -/
lemma orderly_fold (h : Orderly s) : Orderly (drainStep s .fold) := by
  unfold drainStep
  cases hphase : s.phase with
  | idle => exact h
  | requeue overflow => exact h
  | taken events =>
    have hflight := h.inFlight
    have hbelow := h.below
    have htaken := h.taken events hphase
    have hsplit : s.filled ++ (foldEvents s.now events).content.carries ++
        freshNumbers s.now (foldEvents s.now events).overflow =
        s.filled ++ freshNumbers s.now events := by
      rw [List.append_assoc, foldEvents_fresh]
    rw [hphase] at hflight hbelow
    refine ⟨?_, ?_, fun events' hphase' => ?_, ?_⟩
    · unfold InArrivalOrder
      refine List.pairwise_append.2 ⟨?_, ?_, fun i hi j hj => ?_⟩
      · exact hflight.sublist (by
          rw [DrainPhase.inFlight, ← hsplit]
          exact List.sublist_append_left _ _)
      · exact (List.pairwise_append.1 h.queued).2.1
      · rcases List.mem_append.1 hi with hi | hi
        · exact (List.pairwise_append.1 h.queued).2.2 i hi j hj
        · refine htaken i ?_ j hj
          rw [← foldEvents_fresh]
          exact List.mem_append_left _ hi
    · dsimp only
      rw [inFlight_ofOverflow, hsplit]
      exact hflight
    · dsimp only [DrainPhase.ofOverflow] at hphase'
      split_ifs at hphase'
    · dsimp only
      rw [inFlight_ofOverflow, hsplit]
      exact hbelow

/-- **An orderly step** that requeues in order leads to an orderly state. -/
lemma orderly_step (h : Orderly s) {e : DrainEvent} (he : RequeuesInOrder s e) :
    Orderly (drainStep s e) := by
  cases e with
  | enqueue event => exact orderly_enqueue h event
  | advance secs => exact orderly_advance h secs
  | take => exact orderly_take h
  | fold => exact orderly_fold h
  | requeue =>
    have hflight := h.inFlight
    have hbelow := h.below
    unfold RequeuesInOrder at he
    unfold drainStep
    match hphase : s.phase with
    | .idle => exact h
    | .taken _ => exact h
    | .requeue [] => exact h
    | .requeue (event :: rest) =>
      rw [hphase] at hflight hbelow he
      rw [DrainPhase.inFlight, ← List.singleton_append, freshNumbers_append] at hflight hbelow
      have hevent : ∀ i ∈ freshNumbers s.now s.queue, ∀ j ∈ freshNumbers s.now [event], i < j := by
        intro i hi j hj
        rw [freshNumbers_singleton] at hj
        split_ifs at hj with hstale
        · exact absurd hj List.not_mem_nil
        · exact he (by simpa using hstale) i hi j hj
      obtain ⟨-, hrest, hcross⟩ := List.pairwise_append.1 hflight
      obtain ⟨hone, -, -⟩ := List.pairwise_append.1 hrest
      refine ⟨?_, ?_, fun events' hphase' => ?_, fun i hi => hbelow i ?_⟩
      · unfold InArrivalOrder
        dsimp only
        rw [freshNumbers_append, ← List.append_assoc]
        refine List.pairwise_append.2 ⟨h.queued, hone, fun i hi j hj => ?_⟩
        rcases List.mem_append.1 hi with hi | hi
        · exact hcross i hi j (List.mem_append_left _ hj)
        · exact hevent i hi j hj
      · dsimp only
        rw [inFlight_ofOverflow]
        exact hflight.sublist ((List.Sublist.refl _).append (List.sublist_append_right _ _))
      · dsimp only [DrainPhase.ofOverflow] at hphase'
        split_ifs at hphase'
      · dsimp only at hi
        rw [inFlight_ofOverflow, freshNumbers_append] at hi
        simp only [List.mem_append] at hi ⊢
        tauto

/-- **A step out of order** leaves the order of arrival. -/
lemma requeuesInOrder_of_inArrivalOrder {e : DrainEvent} (h : InArrivalOrder (drainStep s e)) :
    RequeuesInOrder s e := by
  cases e with
  | requeue =>
    unfold RequeuesInOrder
    dsimp only
    split
    · rename_i event rest hphase
      intro hfresh i hi j hj
      simp only [InArrivalOrder, drainStep, hphase, freshNumbers_append, freshNumbers_singleton,
        hfresh, Bool.false_eq_true, if_false] at h
      obtain ⟨-, hqueue, -⟩ := List.pairwise_append.1 h
      exact (List.pairwise_append.1 hqueue).2.2 i hi j hj
    · trivial
  | _ => trivial

end

/-! ## Runs -/

lemma orderly_startDrain (now : Nat) (events : List PendingYieldEvent) :
    Orderly (startDrain now events) := by
  have hsub : (freshNumbers now (numberEvents events)).Sublist (List.range events.length) := by
    rw [← carried_numberEvents]
    exact List.filter_sublist.flatMap _
  refine ⟨?_, List.Pairwise.nil, fun _ hphase => ?_, fun i hi => ?_⟩
  · exact List.pairwise_lt_range.sublist hsub
  · cases hphase
  · exact List.mem_range.1 (hsub.subset hi)

/-- **Arrival order**: a run delivers the events in the order in which they were enqueued exactly
when, at each of its steps, no later event waits fresh in the queue when a fresh one is put
back. -/
theorem inArrivalOrder_iff (now : Nat) (events : List PendingYieldEvent) (es : List DrainEvent) :
    Run.Always drainStep InArrivalOrder (startDrain now events) es ↔
      Run.EachStep drainStep RequeuesInOrder (startDrain now events) es :=
  Run.always_iff_eachStep_of_good (Q := Orderly) (fun _ hs => hs.queued)
    (fun _ _ _ h => requeuesInOrder_of_inArrivalOrder h) (fun _ _ hs he => orderly_step hs he)
    (orderly_startDrain now events)

/-! ## An event that comes during a drain -/

/-- Twenty-one events of one second are taken, and another one comes before the last of them is put
back. -/
def overtaken : List DrainEvent :=
  [.take, .enqueue (.fresh "later" 1), .fold, .requeue]

/-- **The later event stands before the earlier one.** -/
theorem not_inArrivalOrder_overtaken :
    ¬ Run.Always drainStep InArrivalOrder (startDrain 1 (List.replicate 21 (.fresh "event" 1)))
      overtaken := by
  decide +kernel

end MyClaw
