import MyClaw.Context.YieldDelivery

set_option autoImplicit false

/-!
# What a section under the session lock does

A step of a section that moves yield events changes memory, may add one message to the history, and
goes on with operations about calls that were known before.  It touches no file, except when it is
one of the two writes.  Every fact about the files over a run is derived from this one.

## Main definitions

* `SectionStep` — what a step of a section can do.
* `Follows` — an operation that a section can go on with.

## Main results

* `sectionStep_runOp` — every operation that writes no file is such a step.
* `sectionStep_tryFill`, `sectionStep_interject`, `sectionStep_wake` — so is
  the first step of each section.
-/

namespace MyClaw

open Tokens

/-! ## The calls and the clones of a section -/

/-- The calls that the messages declare. -/
def knownCalls (messages : List (Tagged ChatMessage)) : List String :=
  knownToolIds (messages.map (·.val))

/-- The call that a fill is for. -/
def Fill.toolCallId : Fill → String
  | .live pending | .cold pending => pending.toolCallId
  | .park toolCallId => toolCallId

/-- The calls that an operation is about. -/
def YieldOp.toolCallIds : YieldOp → List String
  | .defer toolCallId => [toolCallId]
  | .gate pending => [pending.toolCallId]
  | .takeEvents fill | .fold fill _ | .deliver fill _ => [fill.toolCallId]
  | .addCall _ | .enqueue _ | .enqueueFresh _ | .send _ _ | .persistEvents | .saveEvents _
  | .persistLast => []

/-- The calls that the pending yield, the parked tasks and the section are about. -/
def YieldState.toolCallIds (s : YieldState) : List String :=
  (s.pendingYield.map (·.toolCallId)).toList ++ s.parked.map (·.toolCallId) ++
    s.holder.flatMap YieldOp.toolCallIds

/-- The numbers in the clone of the queue that an operation writes. -/
def YieldOp.clones : YieldOp → List Nat
  | .saveEvents events => carried events
  | _ => []

/-! ## What a section does -/

/-- **What a step of a section can do**: it adds `rows` to the history and is about to persist them;
it leaves the files and the jobs alone; and the calls that it is about are those of before, those of
`ids`, or declared by `rows`. -/
structure SectionStep (s s' : YieldState) (ids : List String) (rows : List (Tagged ChatMessage)) :
    Prop where
  history : s'.history = s.history ++ rows
  historyFile : s'.historyFile = s.historyFile
  queueFile : s'.queueFile = s.queueFile
  jobs : s'.jobs = s.jobs
  persisted : s'.persisted = s.persisted
  next : s'.next = s.next
  expired : s.expired ⊆ s'.expired
  holder : ∃ ops, s'.holder = rows.map (fun _ => YieldOp.persistLast) ++ ops ∧
    (YieldOp.persistLast ∈ ops → YieldOp.persistLast ∈ s.holder)
  single : rows.length ≤ 1
  calls : ∀ id ∈ s'.toolCallIds, id ∈ s.toolCallIds ∨ id ∈ ids ∨ id ∈ knownCalls rows
  answers : ∀ msg ∈ rows, msg.carries ≠ [] → ∃ id ∈ ids, msg.val.toolCallId = some id
  clones : ∀ n ∈ s'.holder.flatMap YieldOp.clones,
    n ∈ s.holder.flatMap YieldOp.clones ∨ n ∈ carried s.queue

/-- An operation that a section in `s` can go on with: it is about a call of `ids` or one of before,
and what it writes to the queue file is in the queue. -/
structure Follows (s : YieldState) (ids : List String) (op : YieldOp) : Prop where
  ne : op ≠ .persistLast
  calls : ∀ id ∈ op.toolCallIds, id ∈ s.toolCallIds ∨ id ∈ ids
  clones : ∀ n ∈ op.clones, n ∈ carried s.queue

lemma knownCalls_append (ms ns : List (Tagged ChatMessage)) :
    knownCalls (ms ++ ns) = knownCalls ms ++ knownCalls ns := by
  simp [knownCalls, knownToolIds]

lemma mem_toolCallIds {s : YieldState} {id : String} :
    id ∈ s.toolCallIds ↔ (∃ pending, s.pendingYield = some pending ∧ pending.toolCallId = id) ∨
      (∃ task ∈ s.parked, task.toolCallId = id) ∨ ∃ op ∈ s.holder, id ∈ op.toolCallIds := by
  simp [YieldState.toolCallIds]

section

variable {s s' : YieldState} {ids : List String} {rows : List (Tagged ChatMessage)}

lemma SectionStep.refl (s : YieldState) (ids : List String) : SectionStep s s ids [] where
  history := (List.append_nil _).symm
  historyFile := rfl
  queueFile := rfl
  jobs := rfl
  persisted := rfl
  next := rfl
  expired := List.Subset.refl _
  holder := ⟨s.holder, rfl, id⟩
  single := Nat.zero_le _
  calls := fun _ hid => .inl hid
  answers := by simp
  clones := fun _ hn => .inl hn

lemma SectionStep.calls_or (h : SectionStep s s' ids []) :
    ∀ id ∈ s'.toolCallIds, id ∈ s.toolCallIds ∨ id ∈ ids := by
  intro id hid
  rcases h.calls id hid with h | h | h
  · exact .inl h
  · exact .inr h
  · cases h

lemma mem_toolCallIds_pending {pending : PendingYield} (h : s.pendingYield = some pending) :
    pending.toolCallId ∈ s.toolCallIds := mem_toolCallIds.2 (.inl ⟨pending, h, rfl⟩)

lemma mem_toolCallIds_parked {task : ParkedTask} (h : task ∈ s.parked) :
    task.toolCallId ∈ s.toolCallIds := mem_toolCallIds.2 (.inr (.inl ⟨task, h, rfl⟩))

/-- A change of the pending yield, the slot and the tasks. -/
lemma SectionStep.memory (h : SectionStep s s' ids rows) {waiter : Option YieldWaiter}
    {parked : List ParkedTask} {nextKey : Nat} {pendingYield : Option PendingYield}
    {replayInFlight : Bool} {queue : List (Tagged PendingYieldEvent)} {lost : List Nat}
    (hpending : ∀ pending, pendingYield = some pending →
      pending.toolCallId ∈ s.toolCallIds ∨ pending.toolCallId ∈ ids)
    (hparked : ∀ task ∈ parked, task.toolCallId ∈ s.toolCallIds ∨ task.toolCallId ∈ ids) :
    SectionStep s { s' with
      waiter := waiter, parked := parked, nextKey := nextKey, pendingYield := pendingYield
      replayInFlight := replayInFlight, queue := queue, lost := lost } ids rows := by
  refine { h with calls := fun id hid => ?_ }
  rcases mem_toolCallIds.1 hid with ⟨pending, hsome, rfl⟩ | ⟨task, htask, rfl⟩ | hop
  · exact (hpending pending hsome).imp_right .inl
  · exact (hparked task htask).imp_right .inl
  · exact h.calls id (mem_toolCallIds.2 (.inr (.inr hop)))

/-- More operations come first. -/
lemma SectionStep.first (h : SectionStep s s' ids []) {ops : List YieldOp}
    (hops : ∀ op ∈ ops, Follows s ids op) : SectionStep s (s'.first ops) ids [] := by
  obtain ⟨ops', hholder, hlast⟩ := h.holder
  refine { h with holder := ⟨ops ++ s'.holder, rfl, fun hmem => ?_⟩, calls := fun id hid => ?_,
                  clones := fun n hn => ?_ }
  · rcases List.mem_append.1 hmem with hmem | hmem
    · exact absurd rfl (hops _ hmem).ne
    · exact hlast (by simpa [hholder] using hmem)
  · rcases mem_toolCallIds.1 hid with hid | hid | ⟨op, hop, hid⟩
    · exact h.calls id (mem_toolCallIds.2 (.inl hid))
    · exact h.calls id (mem_toolCallIds.2 (.inr (.inl hid)))
    · rcases List.mem_append.1 hop with hop | hop
      · exact ((hops op hop).calls id hid).imp_right .inl
      · exact h.calls id (mem_toolCallIds.2 (.inr (.inr ⟨op, hop, hid⟩)))
  · obtain ⟨op, hop, hn⟩ := List.mem_flatMap.1 hn
    rcases List.mem_append.1 hop with hop | hop
    · exact .inr ((hops op hop).clones n hn)
    · exact h.clones n (List.mem_flatMap.2 ⟨op, hop, hn⟩)

/-- One more operation comes first. -/
lemma SectionStep.first_one (h : SectionStep s s' ids []) {op : YieldOp} (hop : Follows s ids op) :
    SectionStep s (s'.first [op]) ids [] :=
  h.first fun _ hmem => List.mem_singleton.1 hmem ▸ hop

/-- A message is added after it. -/
lemma SectionStep.addMessage (h : SectionStep s s' ids []) {msg : Tagged ChatMessage}
    (hmsg : msg.carries ≠ [] → ∃ id ∈ ids, msg.val.toolCallId = some id) :
    SectionStep s (s'.addMessage msg) ids [msg] where
  history := by simp [YieldState.addMessage, YieldState.first, h.history]
  historyFile := h.historyFile
  queueFile := h.queueFile
  jobs := h.jobs
  persisted := h.persisted
  next := h.next
  expired := h.expired
  holder := by
    obtain ⟨ops, hholder, hlast⟩ := h.holder
    exact ⟨s'.holder, rfl, fun hmem => hlast (by simpa [hholder] using hmem)⟩
  single := le_rfl
  calls := by
    intro id hid
    have hid' : id ∈ s'.toolCallIds := by
      rcases mem_toolCallIds.1 hid with hid | hid | ⟨op, hop, hid⟩
      · exact mem_toolCallIds.2 (.inl hid)
      · exact mem_toolCallIds.2 (.inr (.inl hid))
      · rcases List.mem_cons.1 hop with rfl | hop
        · cases hid
        · exact mem_toolCallIds.2 (.inr (.inr ⟨op, hop, hid⟩))
    exact (h.calls_or id hid').imp_right .inl
  answers := by simpa using hmsg
  clones := by
    intro n hn
    exact h.clones n (by simpa [YieldState.addMessage, YieldState.first, YieldOp.clones] using hn)

lemma dropSender_eq (s : YieldState) (key : Nat) :
    ∃ parked, s.dropSender key = { s with parked := parked } ∧
      ∀ task ∈ parked, ∃ old ∈ s.parked, old.toolCallId = task.toolCallId := by
  unfold YieldState.dropSender
  cases htask : s.parked.find? (·.key = key) with
  | none => exact ⟨s.parked, rfl, fun task h => ⟨task, h, rfl⟩⟩
  | some task =>
    dsimp only
    split_ifs
    · refine ⟨_, rfl, fun new hnew => ?_⟩
      rcases List.mem_cons.1 hnew with rfl | hnew
      · exact ⟨task, List.mem_of_find?_eq_some htask, rfl⟩
      · exact ⟨new, List.mem_of_mem_eraseP hnew, rfl⟩
    · exact ⟨s.parked, rfl, fun task h => ⟨task, h, rfl⟩⟩

/-- Emptying the slot changes the slot and the channels. -/
lemma clearWaiter_eq (s : YieldState) :
    ∃ parked, s.clearWaiter = { s with waiter := none, parked := parked } ∧
      ∀ task ∈ parked, ∃ old ∈ s.parked, old.toolCallId = task.toolCallId := by
  unfold YieldState.clearWaiter
  cases hwaiter : s.waiter with
  | none =>
    refine ⟨s.parked, ?_, fun task h => ⟨task, h, rfl⟩⟩
    obtain ⟨queue, slot, parked⟩ := s
    cases hwaiter
    rfl
  | some waiter =>
    obtain ⟨parked, heq, hparked⟩ := dropSender_eq s waiter.key
    refine ⟨parked, ?_, hparked⟩
    dsimp only
    rw [heq]

/-- A change of the queue. -/
lemma sectionStep_queue (s : YieldState) (ids : List String)
    (queue : List (Tagged PendingYieldEvent)) :
    SectionStep s { s with queue := queue } ids [] :=
  (SectionStep.refl s ids).memory (fun _ hp => .inl (mem_toolCallIds_pending hp))
    fun _ htask => .inl (mem_toolCallIds_parked htask)

/-- The call becomes the pending one. -/
lemma sectionStep_pending (s : YieldState) {pending : PendingYield} {waiter : Option YieldWaiter}
    {replayInFlight : Bool} (h : pending.toolCallId ∈ ids) :
    SectionStep s { s with
      waiter := waiter, pendingYield := some pending, replayInFlight := replayInFlight } ids [] :=
  (SectionStep.refl s ids).memory (fun _ hp => Option.some.inj hp ▸ .inr h)
    fun _ htask => .inl (mem_toolCallIds_parked htask)

/-- No call is pending any more. -/
lemma sectionStep_clearPending (s : YieldState) (ids : List String) :
    SectionStep s { s with pendingYield := none } ids [] :=
  (SectionStep.refl s ids).memory nofun fun _ htask => .inl (mem_toolCallIds_parked htask)

lemma sectionStep_pushEvent (s : YieldState) (event : Tagged PendingYieldEvent) :
    SectionStep s (s.pushEvent event) [] [] :=
  (sectionStep_queue s [] _).first_one ⟨nofun, nofun, nofun⟩

lemma sectionStep_sendContent (s : YieldState) (waiter : YieldWaiter) (content : Tagged String) :
    SectionStep s (s.sendContent waiter content) [] [] := by
  have hlost : SectionStep s { s with lost := s.lost ++ content.carries } [] [] :=
    (SectionStep.refl s []).memory (fun _ hp => .inl (mem_toolCallIds_pending hp))
      fun _ htask => .inl (mem_toolCallIds_parked htask)
  unfold YieldState.sendContent
  cases htask : s.parked.find? (·.key = waiter.key) with
  | none => exact hlost
  | some task =>
    dsimp only
    split_ifs
    · refine (SectionStep.refl s []).memory (fun _ hp => .inl (mem_toolCallIds_pending hp)) ?_
      intro new hnew
      rcases List.mem_cons.1 hnew with rfl | hnew
      · have hcall := mem_toolCallIds_parked (List.mem_of_find?_eq_some htask)
        exact .inl hcall
      · exact .inl (mem_toolCallIds_parked (List.mem_of_mem_eraseP hnew))
    · exact hlost

lemma sectionStep_giveUp (s : YieldState) (fill : Fill) :
    SectionStep s (s.giveUp fill) [fill.toolCallId] [] := by
  cases fill with
  | live pending | cold pending => exact sectionStep_pending s List.mem_cons_self
  | park toolCallId =>
    obtain ⟨parked, heq, hparked⟩ := clearWaiter_eq s
    unfold YieldState.giveUp
    dsimp only
    rw [heq]
    refine (SectionStep.refl s _).memory (fun _ hp => .inl (mem_toolCallIds_pending hp)) ?_
    intro task htask
    rcases List.mem_cons.1 htask with rfl | htask
    · exact .inr List.mem_cons_self
    · obtain ⟨old, hold, hid⟩ := hparked task htask
      exact .inl (hid ▸ mem_toolCallIds_parked hold)

lemma sectionStep_deliverContent (s : YieldState) (content : Tagged String) (fill : Fill) :
    ∃ rows, SectionStep s (s.deliverContent content fill) [fill.toolCallId] rows := by
  cases fill with
  | live pending =>
    refine ⟨[], ?_⟩
    unfold YieldState.deliverContent
    dsimp only
    have hslot : SectionStep s { s with waiter := none, pendingYield := some pending }
        [pending.toolCallId] [] := sectionStep_pending s List.mem_cons_self
    cases s.waiter with
    | none => exact hslot.first_one ⟨nofun, nofun, nofun⟩
    | some waiter => exact hslot.first_one ⟨nofun, nofun, nofun⟩
  | cold pending =>
    exact ⟨_, (SectionStep.refl s _).addMessage fun _ => ⟨_, List.mem_cons_self, rfl⟩⟩
  | park toolCallId =>
    exact ⟨_, (sectionStep_clearPending s _).addMessage fun _ => ⟨_, List.mem_cons_self, rfl⟩⟩

/-- **One step of the section** that writes no file. -/
lemma sectionStep_runOp (s : YieldState) (now : Nat) {op : YieldOp} (hlast : op ≠ .persistLast)
    (hsave : ∀ events, op ≠ .saveEvents events) :
    ∃ rows, SectionStep s (s.runOp now op) op.toolCallIds rows := by
  cases op with
  | addCall call =>
    have hdefer : SectionStep s (s.first [.defer call.id]) [call.id] [] :=
      (SectionStep.refl s _).first_one ⟨nofun, fun _ hid => .inr hid, nofun⟩
    have hadded : SectionStep s (s.runOp now (.addCall call)) [call.id] _ := hdefer.addMessage nofun
    refine ⟨_, { hadded with calls := fun id hid => ?_, answers := ?_ }⟩
    · rcases hadded.calls id hid with hid | hid | hid
      · exact .inl hid
      · exact .inr (.inr hid)
      · exact .inr (.inr hid)
    · intro msg hmsg hne
      obtain rfl := List.mem_singleton.1 hmsg
      exact absurd rfl hne
  | defer toolCallId =>
    have hpark : SectionStep s
        ({ s with pendingYield := some { toolCallId := toolCallId, implicit := false } }.first
          [.takeEvents (.park toolCallId)]) [toolCallId] [] :=
      (sectionStep_pending s List.mem_cons_self).first_one ⟨nofun, fun _ hid => .inr hid, nofun⟩
    unfold YieldState.runOp
    dsimp only
    cases s.pendingYield with
    | none => exact ⟨_, hpark⟩
    | some orphaned => exact ⟨_, hpark.addMessage nofun⟩
  | gate pending =>
    refine ⟨[], ?_⟩
    unfold YieldState.runOp
    dsimp only
    split_ifs
    · exact sectionStep_pending s List.mem_cons_self
    · exact (SectionStep.refl s _).first_one ⟨nofun, fun _ hid => .inr hid, nofun⟩
  | takeEvents fill =>
    refine ⟨[], (sectionStep_queue s _ []).first ?_⟩
    intro op hop
    rcases List.mem_pair.1 hop with rfl | rfl
    · exact ⟨nofun, nofun, nofun⟩
    · exact ⟨nofun, fun _ hid => .inr hid, nofun⟩
  | fold fill events =>
    refine ⟨[], ?_⟩
    unfold YieldState.runOp
    dsimp only
    split_ifs
    · exact sectionStep_giveUp s fill
    · have hfolded : SectionStep s
          { s with expired := s.expired ++ (foldEvents now events).expired } [fill.toolCallId] [] :=
        { SectionStep.refl s _ with expired := List.subset_append_left _ _ }
      refine hfolded.first fun op hop => ?_
      rcases List.mem_append.1 hop with hop | hop
      · obtain ⟨event, -, rfl⟩ := List.mem_map.1 hop
        exact ⟨nofun, nofun, nofun⟩
      · obtain rfl := List.mem_singleton.1 hop
        exact ⟨nofun, fun _ hid => .inr hid, nofun⟩
  | enqueue event => exact ⟨[], sectionStep_pushEvent s event⟩
  | enqueueFresh content => exact ⟨[], sectionStep_pushEvent s _⟩
  | deliver fill content => exact sectionStep_deliverContent s content fill
  | send waiter content => exact ⟨[], sectionStep_sendContent s waiter content⟩
  | persistEvents =>
    refine ⟨[], (SectionStep.refl s _).first_one ⟨nofun, nofun, fun n hn => hn⟩⟩
  | saveEvents events => exact absurd rfl (hsave events)
  | persistLast => exact absurd rfl hlast

/-! ## What the other parties do under the session lock -/

/-- `try_fill_pending_yield`, up to its first access to the queue. -/
lemma sectionStep_tryFill (h : s.holder = []) : SectionStep s s.tryFill [] [] := by
  unfold YieldState.tryFill
  cases hpending : s.pendingYield with
  | none => exact .refl s []
  | some pending =>
    have hfollows : ∀ fill : Fill, fill.toolCallId = pending.toolCallId →
        Follows s [] (.takeEvents fill) := by
      intro fill hfill
      refine ⟨nofun, fun id hid => ?_, nofun⟩
      obtain rfl := List.mem_singleton.1 hid
      exact .inl (hfill ▸ mem_toolCallIds_pending hpending)
    have hcleared := sectionStep_clearPending s []
    dsimp only
    split_ifs
    · rw [first_of_free (s := { s with pendingYield := none }) h]
      exact hcleared.first_one (hfollows (.live pending) rfl)
    · rw [first_of_free (s := { s with pendingYield := none }) h]
      exact hcleared.first_one ⟨nofun, (hfollows (.cold pending) rfl).calls, nofun⟩

/-- The interjection branch of `process_turn`. -/
lemma sectionStep_interject (s : YieldState) (content : String) :
    ∃ rows, SectionStep s (s.interject content) [] rows := by
  unfold YieldState.interject
  cases s.pendingYield with
  | none => exact ⟨[], .refl s []⟩
  | some pending =>
    have hcleared := sectionStep_clearPending s []
    have hslot : SectionStep s (if s.waiter.any (·.toolCallId = pending.toolCallId) then
        ({ s with pendingYield := none } : YieldState).clearWaiter
        else { s with pendingYield := none }) [] [] := by
      split_ifs
      · obtain ⟨parked, heq, hparked⟩ := clearWaiter_eq { s with pendingYield := none }
        rw [heq]
        refine hcleared.memory nofun fun task htask => ?_
        obtain ⟨old, hold, hid⟩ := hparked task htask
        exact .inl (hid ▸ mem_toolCallIds_parked (s := s) hold)
      · exact hcleared
    exact ⟨_, hslot.addMessage fun hne => absurd rfl hne⟩

/-- `park_for_yield` after the wait. -/
lemma sectionStep_wake (s : YieldState) (task : ParkedTask) :
    ∃ rows, SectionStep s (s.wake task) [task.toolCallId] rows := by
  have hout : SectionStep s { s with parked := s.parked.eraseP (·.key = task.key) }
      [task.toolCallId] [] :=
    (SectionStep.refl s _).memory (fun _ hp => .inl (mem_toolCallIds_pending hp))
      fun _ htask => .inl (mem_toolCallIds_parked (List.mem_of_mem_eraseP htask))
  unfold YieldState.wake
  cases task.channel with
  | waiting => exact ⟨[], .refl s _⟩
  | closed => exact ⟨[], hout⟩
  | sent content =>
    dsimp only
    split_ifs
    · have hcleared : SectionStep s { s with
          parked := s.parked.eraseP (·.key = task.key), pendingYield := none }
          [task.toolCallId] [] :=
        (SectionStep.refl s _).memory nofun
          fun _ htask => .inl (mem_toolCallIds_parked (List.mem_of_mem_eraseP htask))
      exact ⟨_, hcleared.addMessage fun _ => ⟨_, List.mem_cons_self, rfl⟩⟩
    · exact ⟨[], hout.first_one ⟨nofun, nofun, nofun⟩⟩

end

end MyClaw
