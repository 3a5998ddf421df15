import MyClaw.Context.YieldMachine

set_option autoImplicit false

/-!
# Each event is delivered once

Every step of every party moves events from one place to another: the queue, the channel of a parked
task, the history, and the hands of the section under the session lock.  The only ways out are the
fold of old events and a channel without a receiver.

## Main definitions

* `whereabouts` — the numbers in all places.
* `EachOnce` — each event that no drain found too old is in exactly one place.
* `KeepsContent` — no content is handed to a dead receiver, and none dies with its receiver.

## Main results

* `accounted_yieldStep` — no step loses track of a number.
* `eachOnce_always_iff` — in every state of a run each event is in exactly one place exactly
  when every step of the run keeps its content.
-/

namespace MyClaw

open Tokens

/-! ## Places -/

/-- The events in the tool results of a history. -/
def delivered (messages : List (Tagged ChatMessage)) : List Nat :=
  carried (messages.filter (·.val.role = "tool"))

/-- The events in the values that an operation works on. -/
def YieldOp.carries : YieldOp → List Nat
  | .fold _ events => carried events
  | .enqueue event => event.carries
  | .enqueueFresh content | .deliver _ content | .send _ content => content.carries
  | .addCall _ | .defer _ | .gate _ | .takeEvents _ | .persistEvents | .saveEvents _
  | .persistLast => []

namespace YieldState

/-- The events in the channels of living receivers. -/
def inChannels (s : YieldState) : List Nat := s.parked.flatMap (·.channel.carries)

/-- The events in the hands of the section under the session lock. -/
def hands (s : YieldState) : List Nat := s.holder.flatMap YieldOp.carries

end YieldState

/-- **The numbers in all places**: the queue, the channels, the tool results of the history, and, while
a section under the session lock moves events, its hands. -/
def whereabouts (s : YieldState) : List Nat :=
  carried s.queue ++ s.inChannels ++ delivered s.history ++ s.hands

/-- Each event that no drain found too old is in exactly one place. -/
def EachOnce (s : YieldState) : Prop :=
  ∀ n < s.next, n ∉ s.expired → (whereabouts s).count n = 1

instance (s : YieldState) : Decidable (EachOnce s) :=
  inferInstanceAs (Decidable (∀ n < s.next, n ∉ s.expired → (whereabouts s).count n = 1))

/-- The task of a waiter still waits for its content. -/
def ReceiverAlive (s : YieldState) (waiter : YieldWaiter) : Prop :=
  ∃ task, s.parked.find? (·.key = waiter.key) = some task ∧ task.channel = .waiting

/-- **The condition on a step**: a parked task is not cancelled while its channel holds an event, and
no event is sent to a waiter whose task is gone. -/
def KeepsContent (s : YieldState) : YieldEvent → Prop
  | .cancel key => ∀ task, s.parked.find? (·.key = key) = some task → task.channel.carries = []
  | .advance _ => ∀ waiter content rest, s.holder = .send waiter content :: rest →
      content.carries = [] ∨ ReceiverAlive s waiter
  | _ => True

/-! ## Accounting -/

/-- A change moves events only, and adds those of `extra`. -/
structure Moves (s s' : YieldState) (extra : List Nat) : Prop where
  count : ∀ n, (whereabouts s').count n + (s'.expired ++ s'.lost).count n =
    (whereabouts s).count n + (s.expired ++ s.lost).count n + extra.count n
  next : s'.next = s.next

lemma delivered_append (ms ns : List (Tagged ChatMessage)) :
    delivered (ms ++ ns) = delivered ms ++ delivered ns := by
  rw [delivered, List.filter_append, carried_append]
  rfl

lemma delivered_plainMessage (msg : ChatMessage) : delivered [plainMessage msg] = [] := by
  unfold delivered
  by_cases htool : msg.role = "tool" <;> simp [plainMessage, htool]

lemma delivered_yieldResult (toolCallId : String) (content : Tagged String) :
    delivered [yieldResult toolCallId content] = content.carries := by
  simp [delivered, yieldResult]

section

variable {s s' s'' : YieldState} {extra extra' : List Nat}

lemma Moves.refl (s : YieldState) : Moves s s [] := ⟨fun _ => rfl, rfl⟩

lemma Moves.trans (h : Moves s s' extra) (h' : Moves s' s'' extra') :
    Moves s s'' (extra ++ extra') := by
  refine ⟨fun n => ?_, h'.next.trans h.next⟩
  have hn := h.count n
  have hn' := h'.count n
  simp only [List.count_append] at hn hn' ⊢
  omega

/-- What is taken out and put in again elsewhere has moved. -/
lemma Moves.replace (h : Moves s s' extra) (h' : Moves s s'' extra) : Moves s' s'' [] := by
  refine ⟨fun n => ?_, h'.next.trans h.next.symm⟩
  have hn := h.count n
  have hn' := h'.count n
  simp only [List.count_append, List.count_nil] at hn hn' ⊢
  omega

/-- **A change of the account**, place by place. -/
lemma moves_of_count (hnext : s'.next = s.next)
    (h : ∀ n, (carried s'.queue).count n + s'.inChannels.count n + (delivered s'.history).count n +
        s'.hands.count n + s'.expired.count n + s'.lost.count n =
      (carried s.queue).count n + s.inChannels.count n + (delivered s.history).count n +
        s.hands.count n + s.expired.count n + s.lost.count n + extra.count n) :
    Moves s s' extra := by
  refine ⟨fun n => ?_, hnext⟩
  have hn := h n
  unfold whereabouts
  simp only [List.count_append]
  omega

lemma moves_first (s : YieldState) (ops : List YieldOp) :
    Moves s (s.first ops) (ops.flatMap YieldOp.carries) := by
  refine moves_of_count rfl fun n => ?_
  simp only [YieldState.first, YieldState.hands, List.flatMap_append, List.count_append,
    YieldState.inChannels]
  omega

lemma moves_addMessage (s : YieldState) (msg : Tagged ChatMessage) :
    Moves s (s.addMessage msg) (delivered [msg]) := by
  refine moves_of_count rfl fun n => ?_
  simp only [YieldState.addMessage, YieldState.first, YieldState.hands, YieldState.inChannels,
    List.flatMap_append, List.count_append, delivered_append, List.flatMap_singleton,
    YieldOp.carries, List.count_nil]
  omega

lemma moves_pushEvent (s : YieldState) (event : Tagged PendingYieldEvent) :
    Moves s (s.pushEvent event) event.carries := by
  refine moves_of_count rfl fun n => ?_
  simp only [YieldState.pushEvent, YieldState.first, YieldState.hands, YieldState.inChannels,
    List.flatMap_append, List.count_append, carried_append, carried_cons, carried_nil,
    List.append_nil, List.flatMap_singleton, YieldOp.carries, List.count_nil]
  omega

/-- A found task is exchanged for another one, or taken out. -/
lemma count_inChannels {key : Nat} {task : ParkedTask}
    (h : s.parked.find? (·.key = key) = some task) (n : Nat) :
    s.inChannels.count n = task.channel.carries.count n +
      ((s.parked.eraseP (·.key = key)).flatMap (·.channel.carries)).count n :=
  count_flatMap_of_find? h n

lemma moves_dropSender (s : YieldState) (key : Nat) : Moves s (s.dropSender key) [] := by
  unfold YieldState.dropSender
  cases htask : s.parked.find? (·.key = key) with
  | none => exact .refl s
  | some task =>
    dsimp only
    split_ifs with hwaits
    · refine moves_of_count rfl fun n => ?_
      rw [count_inChannels htask n, hwaits]
      simp [YieldState.inChannels, YieldState.hands, WakeChannel.carries]
    · exact .refl s

lemma moves_clearWaiter (s : YieldState) : Moves s s.clearWaiter [] := by
  unfold YieldState.clearWaiter
  cases s.waiter with
  | none => exact .refl s
  | some waiter => exact ⟨(moves_dropSender s waiter.key).count, (moves_dropSender s waiter.key).next⟩

lemma moves_sendContent (s : YieldState) (waiter : YieldWaiter) (content : Tagged String) :
    Moves s (s.sendContent waiter content) content.carries := by
  unfold YieldState.sendContent
  cases htask : s.parked.find? (·.key = waiter.key) with
  | none =>
    refine moves_of_count rfl fun n => ?_
    simp only [YieldState.inChannels, YieldState.hands, List.count_append]
    omega
  | some task =>
    dsimp only
    split_ifs with hwaits
    · refine moves_of_count rfl fun n => ?_
      rw [count_inChannels htask n, hwaits]
      simp only [YieldState.inChannels, YieldState.hands, WakeChannel.carries, List.flatMap_cons,
        List.count_append, List.count_nil]
      omega
    · refine moves_of_count rfl fun n => ?_
      simp only [YieldState.inChannels, YieldState.hands, List.count_append]
      omega

lemma moves_giveUp (s : YieldState) (fill : Fill) : Moves s (s.giveUp fill) [] := by
  cases fill with
  | live pending => exact ⟨fun _ => rfl, rfl⟩
  | cold pending => exact ⟨fun _ => rfl, rfl⟩
  | park toolCallId =>
    have h := moves_clearWaiter s
    refine ⟨fun n => ?_, h.next⟩
    rw [← h.count n]
    rfl

lemma moves_deliverContent (s : YieldState) (content : Tagged String) (fill : Fill) :
    Moves s (s.deliverContent content fill) content.carries := by
  cases fill with
  | live pending =>
    unfold YieldState.deliverContent
    cases s.waiter with
    | none =>
      have h := moves_first { s with waiter := none, pendingYield := some pending }
        [.enqueueFresh content]
      simpa [YieldOp.carries] using (⟨h.count, h.next⟩ : Moves s _ _)
    | some waiter =>
      have h := moves_first { s with waiter := none, pendingYield := some pending }
        [.send waiter content]
      simpa [YieldOp.carries] using (⟨h.count, h.next⟩ : Moves s _ _)
  | cold pending =>
    have h := moves_addMessage s (yieldResult pending.toolCallId content)
    rwa [delivered_yieldResult] at h
  | park toolCallId =>
    have h := moves_addMessage { s with pendingYield := none } (yieldResult toolCallId content)
    rw [delivered_yieldResult] at h
    exact ⟨h.count, h.next⟩

/-- **One step of the section** moves what its operation works on. -/
lemma moves_runOp (s : YieldState) (now : Nat) (op : YieldOp) :
    Moves s (s.runOp now op) op.carries := by
  cases op with
  | addCall call =>
    have h := (moves_first s [.defer call.id]).trans (moves_addMessage _
      (plainMessage (Session.assistantWithTools "" [call] none none none none)))
    rwa [delivered_plainMessage] at h
  | defer toolCallId =>
    have hpark := moves_first
      { s with pendingYield := some { toolCallId := toolCallId, implicit := false } }
      [.takeEvents (.park toolCallId)]
    replace hpark : Moves s _ [] := ⟨hpark.count, hpark.next⟩
    unfold YieldState.runOp
    dsimp only
    cases s.pendingYield with
    | none => exact hpark
    | some orphaned =>
      have h := hpark.trans (moves_addMessage _ (plainMessage
        (toolResult orphaned.toolCallId (some "sessions_yield") supersededText false)))
      rwa [delivered_plainMessage] at h
  | gate pending =>
    unfold YieldState.runOp
    dsimp only
    split_ifs
    · exact ⟨fun _ => rfl, rfl⟩
    · exact moves_first s _
  | takeEvents fill =>
    refine moves_of_count rfl fun n => ?_
    simp only [YieldState.runOp, YieldState.first, YieldState.hands, YieldState.inChannels,
      List.flatMap_append, List.flatMap_cons, List.flatMap_nil, List.count_append, YieldOp.carries,
      carried_nil, List.count_nil]
    omega
  | fold fill events =>
    unfold YieldState.runOp
    dsimp only
    split_ifs with hnil
    · subst hnil
      exact moves_giveUp s fill
    · refine moves_of_count rfl fun n => ?_
      have hfold := count_foldEvents now events n
      have hover : ((foldEvents now events).overflow.map YieldOp.enqueue).flatMap YieldOp.carries =
          carried (foldEvents now events).overflow := List.flatMap_map ..
      simp only [YieldState.first, YieldState.hands, YieldState.inChannels, List.flatMap_append,
        hover, List.flatMap_singleton, List.count_append, YieldOp.carries]
      omega
  | enqueue event => exact moves_pushEvent s event
  | enqueueFresh content => exact moves_pushEvent s _
  | deliver fill content => exact moves_deliverContent s content fill
  | send waiter content => exact moves_sendContent s waiter content
  | persistEvents => exact moves_first s _
  | saveEvents events => exact ⟨fun _ => rfl, rfl⟩
  | persistLast => exact ⟨fun _ => rfl, rfl⟩

lemma moves_tryFill (s : YieldState) (h : s.holder = []) : Moves s s.tryFill [] := by
  unfold YieldState.tryFill
  cases s.pendingYield with
  | none => exact .refl s
  | some pending =>
    dsimp only
    refine moves_of_count ?_ fun n => ?_
    · split_ifs <;> rfl
    · split_ifs <;> simp [YieldState.hands, YieldState.inChannels, h, YieldOp.carries]

lemma moves_interject (s : YieldState) (content : String) : Moves s (s.interject content) [] := by
  unfold YieldState.interject
  cases s.pendingYield with
  | none => exact .refl s
  | some pending =>
    dsimp only
    have hcleared : Moves s (if s.waiter.any (·.toolCallId = pending.toolCallId) then
        ({ s with pendingYield := none } : YieldState).clearWaiter
        else { s with pendingYield := none }) [] := by
      split_ifs
      · have h := moves_clearWaiter { s with pendingYield := none }
        exact ⟨h.count, h.next⟩
      · exact ⟨fun _ => rfl, rfl⟩
    have h := hcleared.trans (moves_addMessage _ (plainMessage (toolResult pending.toolCallId
      (some "sessions_yield") (interjectionText content) false)))
    rwa [delivered_plainMessage] at h

lemma moves_cancel {key : Nat} {task : ParkedTask}
    (htask : s.parked.find? (·.key = key) = some task) : Moves s (s.cancel task) [] := by
  have hkey : task.key = key := by simpa using List.find?_some htask
  refine moves_of_count rfl fun n => ?_
  rw [count_inChannels htask n, ← hkey]
  simp only [YieldState.cancel, YieldState.inChannels, YieldState.hands, List.count_append,
    List.count_nil]
  omega

lemma moves_wake {key : Nat} {task : ParkedTask}
    (htask : s.parked.find? (·.key = key) = some task) : Moves s (s.wake task) [] := by
  have hkey : task.key = key := by simpa using List.find?_some htask
  have hout : Moves { s with parked := s.parked.eraseP (·.key = task.key) } s
      task.channel.carries := by
    refine moves_of_count rfl fun n => ?_
    rw [count_inChannels htask n, ← hkey]
    simp only [YieldState.inChannels, YieldState.hands]
    omega
  unfold YieldState.wake
  cases hchannel : task.channel with
  | waiting => exact .refl s
  | closed =>
    rw [hchannel] at hout
    exact hout.replace ⟨fun _ => rfl, rfl⟩
  | sent content =>
    rw [hchannel] at hout
    refine hout.replace ?_
    dsimp only [WakeChannel.carries]
    split_ifs
    · have h := moves_addMessage
        { s with parked := s.parked.eraseP (·.key = task.key), pendingYield := none }
        (yieldResult task.toolCallId content)
      rw [delivered_yieldResult] at h
      exact ⟨h.count, h.next⟩
    · have h := moves_first { s with parked := s.parked.eraseP (·.key = task.key) }
        [.enqueueFresh content]
      simpa [YieldOp.carries] using h

/-- Every step accounts for all events. -/
lemma YieldTransition.accounted {e : YieldEvent} (ht : YieldTransition s e s')
    (h : Accounted (whereabouts s) (s.expired ++ s.lost) s.next) :
    Accounted (whereabouts s') (s'.expired ++ s'.lost) s'.next := by
  have hmove : ∀ {s'}, Moves s s' [] →
      Accounted (whereabouts s') (s'.expired ++ s'.lost) s'.next := by
    intro s' hmoves
    rw [hmoves.next]
    exact h.move hmoves.count
  cases ht with
  | enqueue content now =>
    refine h.issue fun n => ?_
    simp only [whereabouts, YieldState.inChannels, YieldState.hands, carried_append,
      carried_cons, carried_nil, List.append_nil, List.count_append]
    omega
  | cloneQueue job => exact hmove ⟨fun _ => rfl, rfl⟩
  | saveQueue hjob => exact hmove ⟨fun _ => rfl, rfl⟩
  | tryFill hfree => exact hmove (moves_tryFill s hfree)
  | yield call hfree => exact hmove (moves_first s _)
  | park hfree hpending => exact hmove (moves_first s _)
  | replayEnds => exact hmove ⟨fun _ => rfl, rfl⟩
  | interject content hfree => exact hmove (moves_interject s content)
  | wake hfree htask => exact hmove (moves_wake htask)
  | cancel htask => exact hmove (moves_cancel htask)
  | @advance op rest now hholder =>
    have hop : Moves { s with holder := rest } s op.carries := by
      refine moves_of_count rfl fun n => ?_
      simp only [YieldState.hands, YieldState.inChannels, hholder, List.flatMap_cons,
        List.count_append]
      omega
    exact hmove (hop.replace (moves_runOp _ now op))
  | idle => exact h

/-- **No step loses track of a number.** -/
theorem accounted_yieldStep (s : YieldState) (e : YieldEvent)
    (h : Accounted (whereabouts s) (s.expired ++ s.lost) s.next) :
    Accounted (whereabouts (yieldStep s e)) ((yieldStep s e).expired ++ (yieldStep s e).lost)
      (yieldStep s e).next :=
  (yieldTransition_yieldStep s e).accounted h

/-! ## What is lost -/

lemma lost_clearWaiter (s : YieldState) : s.clearWaiter.lost = s.lost := by
  unfold YieldState.clearWaiter YieldState.dropSender
  cases s.waiter with
  | none => rfl
  | some waiter =>
    dsimp only
    cases s.parked.find? (·.key = waiter.key) with
    | none => rfl
    | some task =>
      dsimp only
      split_ifs <;> rfl

lemma lost_giveUp (s : YieldState) (fill : Fill) : (s.giveUp fill).lost = s.lost := by
  cases fill with
  | live pending => rfl
  | cold pending => rfl
  | park toolCallId => exact lost_clearWaiter s

lemma lost_deliverContent (s : YieldState) (content : Tagged String) (fill : Fill) :
    (s.deliverContent content fill).lost = s.lost := by
  cases fill with
  | live pending =>
    unfold YieldState.deliverContent
    cases s.waiter <;> rfl
  | cold pending => rfl
  | park toolCallId => rfl

/-- Only a `send` can lose events. -/
lemma lost_runOp {op : YieldOp} (h : ∀ waiter content, op ≠ .send waiter content) (s : YieldState)
    (now : Nat) : (s.runOp now op).lost = s.lost := by
  cases op with
  | send waiter content => exact absurd rfl (h waiter content)
  | defer toolCallId =>
    unfold YieldState.runOp
    cases s.pendingYield <;> rfl
  | gate pending =>
    unfold YieldState.runOp
    dsimp only
    split_ifs <;> rfl
  | fold fill events =>
    unfold YieldState.runOp
    dsimp only
    split_ifs
    · exact lost_giveUp s fill
    · rfl
  | deliver fill content => exact lost_deliverContent s content fill
  | addCall call => rfl
  | takeEvents fill => rfl
  | enqueue event => rfl
  | enqueueFresh content => rfl
  | persistEvents => rfl
  | saveEvents events => rfl
  | persistLast => rfl

/-- **A send** loses its content exactly when the receiver is gone. -/
lemma lost_sendContent_iff (s : YieldState) (waiter : YieldWaiter) (content : Tagged String)
    (h : s.lost = []) :
    (s.sendContent waiter content).lost = [] ↔
      content.carries = [] ∨ ReceiverAlive s waiter := by
  unfold YieldState.sendContent ReceiverAlive
  cases s.parked.find? (·.key = waiter.key) with
  | none => simp [h]
  | some task =>
    dsimp only
    by_cases hwaits : task.channel = .waiting
    · rw [if_pos hwaits]
      exact iff_of_true h (.inr ⟨task, rfl, hwaits⟩)
    · rw [if_neg hwaits]
      simp [h, hwaits]

lemma lost_tryFill (s : YieldState) : s.tryFill.lost = s.lost := by
  unfold YieldState.tryFill
  cases s.pendingYield with
  | none => rfl
  | some pending =>
    dsimp only
    split_ifs <;> rfl

lemma lost_interject (s : YieldState) (content : String) :
    (s.interject content).lost = s.lost := by
  unfold YieldState.interject
  cases s.pendingYield with
  | none => rfl
  | some pending =>
    dsimp only
    split_ifs
    · exact lost_clearWaiter _
    · rfl

lemma lost_wake (s : YieldState) (task : ParkedTask) : (s.wake task).lost = s.lost := by
  unfold YieldState.wake
  cases task.channel with
  | waiting => rfl
  | closed => rfl
  | sent content =>
    dsimp only
    split_ifs <;> rfl

/-- A step loses no event exactly if it keeps its content. -/
lemma YieldTransition.lost_iff {e : YieldEvent} (ht : YieldTransition s e s') (h : s.lost = []) :
    s'.lost = [] ↔ KeepsContent s e := by
  cases ht with
  | enqueue content now => exact iff_of_true h trivial
  | cloneQueue job => exact iff_of_true h trivial
  | saveQueue hjob => exact iff_of_true h trivial
  | tryFill hfree => exact iff_of_true ((lost_tryFill s).trans h) trivial
  | yield call hfree => exact iff_of_true h trivial
  | park hfree hpending => exact iff_of_true h trivial
  | replayEnds => exact iff_of_true h trivial
  | interject content hfree => exact iff_of_true ((lost_interject s content).trans h) trivial
  | wake hfree htask => exact iff_of_true ((lost_wake s _).trans h) trivial
  | cancel htask => simp [KeepsContent, YieldState.cancel, h, htask]
  | @advance op rest now hholder =>
    unfold KeepsContent
    rw [hholder]
    by_cases hsend : ∃ waiter content, op = .send waiter content
    · obtain ⟨waiter, content, rfl⟩ := hsend
      refine (lost_sendContent_iff { s with holder := rest } waiter content h).trans ?_
      constructor
      · intro halive waiter' content' rest' hop
        cases hop
        exact halive
      · exact fun hkeeps => hkeeps waiter content rest rfl
    · refine iff_of_true ?_ fun waiter content rest' hop => ?_
      · rw [lost_runOp fun waiter content hop => hsend ⟨waiter, content, hop⟩]
        exact h
      · cases hop
        exact absurd ⟨waiter, content, rfl⟩ hsend
  | idle e hsave hcancel hadvance =>
    refine iff_of_true h ?_
    cases e with
    | cancel key =>
      intro task htask
      rw [hcancel key rfl] at htask
      cases htask
    | advance now =>
      intro waiter content rest hholder
      rw [hadvance now rfl] at hholder
      cases hholder
    | enqueue | cloneQueue | saveQueue | tryFill | yield | park | replayEnds | interject | wake =>
      trivial

/-- **One step** loses no event exactly when it keeps its content. -/
theorem lost_yieldStep_iff (s : YieldState) (e : YieldEvent) (h : s.lost = []) :
    (yieldStep s e).lost = [] ↔ KeepsContent s e :=
  (yieldTransition_yieldStep s e).lost_iff h

/-- **Each event is in one place** exactly when none is lost. -/
lemma eachOnce_iff (h : Accounted (whereabouts s) (s.expired ++ s.lost) s.next) :
    EachOnce s ↔ s.lost = [] := by
  constructor
  · intro honce
    rw [List.eq_nil_iff_forall_not_mem]
    intro n hn
    have hspent : n ∈ s.expired ++ s.lost := List.mem_append_right _ hn
    have hlt := h.lt_of_mem_spent hspent
    have hexpired : n ∉ s.expired := by
      intro hmem
      have hcount := h n
      have hpos := List.count_pos_iff.2 hn
      have hpos' := List.count_pos_iff.2 hmem
      rw [if_pos hlt, List.count_append] at hcount
      omega
    exact (h.count_eq_one_iff hlt).1 (honce n hlt hexpired) hspent
  · intro hlost n hn hexpired
    rw [h.count_eq_one_iff hn, hlost, List.append_nil]
    exact hexpired

end

/-! ## Runs -/

/-- Messages of a file carry no events. -/
lemma delivered_of_plain {messages : List (Tagged ChatMessage)}
    (h : ∀ msg ∈ messages, msg.carries = []) : delivered messages = [] := by
  refine List.flatMap_eq_nil_iff.2 fun msg hmsg => h msg (List.mem_of_mem_filter hmsg)

/-- At the start each restored event is in the queue. -/
lemma accounted_startYield (events : List PendingYieldEvent) (messages : List ChatMessage) :
    Accounted (whereabouts (startYield events messages))
      ((startYield events messages).expired ++ (startYield events messages).lost)
      (startYield events messages).next := by
  have hplain : ∀ msg ∈ reloadMessages (messages.map plainMessage), msg.carries = [] := by
    intro msg hmsg
    obtain ⟨msg', -, rfl⟩ := List.mem_map.1 (List.mem_of_mem_filter hmsg)
    rfl
  have hplaces : whereabouts (startYield events messages) = List.range events.length := by
    simp [whereabouts, startYield, YieldState.inChannels, YieldState.hands, carried_numberEvents,
      delivered_of_plain hplain]
  rw [hplaces]
  exact Accounted.range _

/-- **The delivery of yield events**: in every state of a run from any queue file and history, each
event that no drain found too old is in exactly one place exactly when no step of the run cancels a
parked task with an event in its channel or sends an event to a waiter whose task is gone. -/
theorem eachOnce_always_iff (events : List PendingYieldEvent) (messages : List ChatMessage)
    (es : List YieldEvent) :
    Run.Always yieldStep EachOnce (startYield events messages) es ↔
      Run.EachStep yieldStep KeepsContent (startYield events messages) es := by
  refine Run.always_iff_eachStep
    (I := fun s => Accounted (whereabouts s) (s.expired ++ s.lost) s.next)
    (fun s e h => accounted_yieldStep s e h) (fun s e h honce => ?_)
    (accounted_startYield events messages)
    ((eachOnce_iff (accounted_startYield events messages)).2 rfl)
  rw [eachOnce_iff (accounted_yieldStep s e h)]
  exact lost_yieldStep_iff s e ((eachOnce_iff h).1 honce)

/-! ## A cancelled park -/

namespace CancelledPark

/-- The call that the turn parks on. -/
def call : ToolCall := { id := "y", name := "sessions_yield", arguments := "" }

/-- A turn yields and parks, its task is cancelled, and then an event comes. -/
def events : List YieldEvent :=
  .yield call :: List.replicate 7 (.advance 100) ++
    .cancel 0 :: .enqueue "done" 100 :: .tryFill :: List.replicate 6 (.advance 100)

end CancelledPark

open CancelledPark in
/-- **The event is gone**, also when only the moments without a section count: it was taken from the
queue for a waiter whose task no longer exists. -/
theorem not_eachOnce_cancelledPark :
    ¬ Run.Always yieldStep (fun s => s.holder.isEmpty = true → EachOnce s) (startYield [] [])
      events := by
  intro h
  have hlast := h.last
  have hfree : (Run.exec yieldStep (startYield [] []) events).holder.isEmpty = true := by
    decide +kernel
  have hnone : ¬ EachOnce (Run.exec yieldStep (startYield [] []) events) := by decide +kernel
  exact hnone (hlast hfree)

end MyClaw
