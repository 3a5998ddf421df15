import MyClaw.Context.Suspension

set_option autoImplicit false

/-!
# The tasks of a suspension

What the suspension keeps about its tasks over any run of `add_pending_task`, `add_progress`, the
sections of `record_terminal`, the notice counter, the notice queue and
`clear_suspension_if_collected` (`agents/session_context/mod.rs`).  The run is remembered in a
history, and what the suspension should hold is read off that history.

## Main definitions

* `NoticeState`, `noticeStep` — the machine of the suspension with the notice turns.
* `Happening` — what the history remembers.
* `awaited`, `recordings`, `progressSince` — what it says about the tasks.
* `ConservesTasks`, `DropsCollected` — the property of a state and of a step.

## Main results

* `conservesTasks` — every run conserves its tasks, with the progress texts since the later
  of the last recording and the start of the suspension.
* `not_conservesTasks_early` — a text that comes before the suspension is not kept.

## Implementation notes

Each call of the methods other than `record_terminal` is one event.  A recording is the section of
`record_terminal` that appends to the results.
-/

namespace MyClaw

/-! ## The machine -/

/-- `DelegationNotice`. -/
structure DelegationNotice where
  id : String
  content : String
  silencedOverride : Option Bool

/-- What the history of a session remembers. -/
inductive Happening
  /-- A suspension starts. -/
  | started
  | registered (subSessionId : String)
  /-- `add_progress` was called, with a suspension or without one. -/
  | progress (subSessionId text : String)
  | recorded (result : SubResult)
  deriving DecidableEq

/-- The suspension with the counter and the queue of the notice turns, and the history, newest entry
first. -/
structure NoticeState where
  suspension : SuspensionState := {}
  noticeTurnsInFlight : Nat := 0
  delegationNoticeQueue : List DelegationNotice := []
  history : List Happening := []

/-- A call, or a section of `record_terminal`. -/
inductive NoticeEvent
  | addPendingTask (subSessionId : String)
  | addProgress (subSessionId text : String)
  | look (subSessionId : String) (status : SubStatus) (content : String) (sentMessageCount : Nat)
  | checkWindow (call : TerminalCall) (now : Nat)
  | collect (call : TerminalCall)
  | note (call : TerminalCall) (now : Nat)
  | bumpNoticeTurn
  | finishNoticeTurn
  | enqueueDelegationNotice (notice : DelegationNotice)
  | takeDelegationNotices
  | clearSuspensionIfCollected

/-- The result that a call appends. -/
def TurnSuspension.resultOf (t : TurnSuspension) (call : TerminalCall) : SubResult where
  subSessionId := call.subSessionId
  status := call.status
  content := call.content
  sentMessageCount := call.sentMessageCount
  progress := (t.progressBySubSession.lookup call.subSessionId).getD []

/-- The result that the collecting section of a call appends, if it does. -/
def SuspensionState.recordedBy (s : SuspensionState) (call : TerminalCall) : Option SubResult :=
  if call ∈ s.calls ∧ call.stage = .passed then
    s.turnSuspension.bind fun t =>
      if t.isCollected call.subSessionId then none else some (t.resultOf call)
  else none

/-- `has_notice_turns_in_flight`. -/
def NoticeState.hasNoticeTurnsInFlight (s : NoticeState) : Bool :=
  0 < s.noticeTurnsInFlight || !s.delegationNoticeQueue.isEmpty

/-- The state after an event. -/
def noticeStep (s : NoticeState) : NoticeEvent → NoticeState
  | .addPendingTask id =>
    { s with
      suspension := suspensionStep s.suspension (.addPendingTask id)
      history := .registered id ::
        if s.suspension.turnSuspension = none then .started :: s.history else s.history }
  | .addProgress id text =>
    { s with
      suspension := suspensionStep s.suspension (.addProgress id text)
      history := .progress id text :: s.history }
  | .look id status content sentMessageCount =>
    { s with suspension := suspensionStep s.suspension (.look id status content sentMessageCount) }
  | .checkWindow call now =>
    { s with suspension := suspensionStep s.suspension (.checkWindow call now) }
  | .collect call =>
    { s with
      suspension := suspensionStep s.suspension (.collect call)
      history := ((s.suspension.recordedBy call).map .recorded).toList ++ s.history }
  | .note call now => { s with suspension := suspensionStep s.suspension (.note call now) }
  | .bumpNoticeTurn => { s with noticeTurnsInFlight := s.noticeTurnsInFlight + 1 }
  -- `saturating_sub`
  | .finishNoticeTurn => { s with noticeTurnsInFlight := s.noticeTurnsInFlight - 1 }
  | .enqueueDelegationNotice notice =>
    { s with delegationNoticeQueue := s.delegationNoticeQueue ++ [notice] }
  | .takeDelegationNotices => { s with delegationNoticeQueue := [] }
  | .clearSuspensionIfCollected =>
    { s with suspension := suspensionStep s.suspension (.clear s.hasNoticeTurnsInFlight) }

/-! ## What the history says -/

/-- The task was registered, and not recorded since. -/
def awaited (id : String) : List Happening → Bool
  | [] => false
  | .registered other :: earlier => other = id || awaited id earlier
  | .recorded result :: earlier => result.subSessionId ≠ id && awaited id earlier
  | _ :: earlier => awaited id earlier

/-- The recordings of the present suspension, in their order. -/
def recordings : List Happening → List SubResult
  | [] => []
  | .started :: _ => []
  | .recorded result :: earlier => recordings earlier ++ [result]
  | _ :: earlier => recordings earlier

/-- The progress texts of a task since its last recording, or since the start of the present
suspension when that is later. -/
def progressSince (id : String) : List Happening → List String
  | [] => []
  | .started :: _ => []
  | .recorded result :: earlier =>
    if result.subSessionId = id then [] else progressSince id earlier
  | .progress other text :: earlier =>
    if other = id then progressSince id earlier ++ [text] else progressSince id earlier
  | .registered _ :: earlier => progressSince id earlier

/-- The progress texts of a task since its last recording. -/
def progressAdded (id : String) : List Happening → List String
  | [] => []
  | .recorded result :: earlier =>
    if result.subSessionId = id then [] else progressAdded id earlier
  | .progress other text :: earlier =>
    if other = id then progressAdded id earlier ++ [text] else progressAdded id earlier
  | _ :: earlier => progressAdded id earlier

/-- **The tasks are conserved**: `pending` is the registered tasks that were not recorded since, each
once, `results` is the recordings in their order, and each recorded result carries the progress texts
that the history gives for it. -/
structure ConservesTasks (texts : String → List Happening → List String) (s : NoticeState) :
    Prop where
  nodup : ∀ t ∈ s.suspension.turnSuspension, t.pending.Nodup
  pending : ∀ id, awaited id s.history = true ↔ s.suspension.isPending id = true
  results : ∀ t ∈ s.suspension.turnSuspension, t.results = recordings s.history
  progress : ∀ result earlier, .recorded result :: earlier <:+ s.history →
    result.progress = texts result.subSessionId earlier

/-- **The suspension is dropped** only when nothing is pending and no notice turn is in flight or
queued. -/
def DropsCollected (s : NoticeState) (e : NoticeEvent) : Prop :=
  ∀ t, s.suspension.turnSuspension = some t →
    (noticeStep s e).suspension.turnSuspension = none →
      t.pending = [] ∧ s.noticeTurnsInFlight = 0 ∧ s.delegationNoticeQueue = []

/-! ## The parts of a step -/

section

variable {s : SuspensionState} {call : TerminalCall}

@[simp] lemma turnSuspension_advance (stage : CallStage) :
    (s.advance call stage).turnSuspension = s.turnSuspension := rfl

@[simp] lemma turnSuspension_finish (record : TerminalRecord) :
    (s.finish call record).turnSuspension = s.turnSuspension := rfl

lemma turnSuspension_checkWindow (now : Nat) :
    (suspensionStep s (.checkWindow call now)).turnSuspension = s.turnSuspension := by
  rw [suspensionStep]
  by_cases hmem : call ∈ s.calls
  · rw [if_pos hmem, SuspensionState.checkWindow]
    cases call.stage with
    | looked currentlyPending =>
      cases currentlyPending with
      | true => rfl
      | false =>
        dsimp only
        split_ifs <;> rfl
    | passed => rfl
    | collected snapshot => rfl
  · rw [if_neg hmem]

lemma turnSuspension_note (now : Nat) :
    (suspensionStep s (.note call now)).turnSuspension = s.turnSuspension := by
  simp only [suspensionStep, SuspensionState.note]
  split_ifs
  · split <;> rfl
  · rfl

/-- **The collecting section** appends the result of the call and takes its task out of `pending`,
or leaves the suspension as it is. -/
lemma collect_cases (s : SuspensionState) (call : TerminalCall) :
    (s.recordedBy call = none ∧
      (suspensionStep s (.collect call)).turnSuspension = s.turnSuspension) ∨
    ∃ t, s.turnSuspension = some t ∧ s.recordedBy call = some (t.resultOf call) ∧
      (suspensionStep s (.collect call)).turnSuspension =
        some (t.collect call.subSessionId call.status call.content call.sentMessageCount) := by
  by_cases hmem : call ∈ s.calls
  · simp only [suspensionStep, SuspensionState.recordedBy, SuspensionState.collect, hmem, true_and]
    cases hstage : call.stage with
    | looked p => exact .inl ⟨rfl, rfl⟩
    | collected snapshot => exact .inl ⟨rfl, rfl⟩
    | passed =>
      cases hsusp : s.turnSuspension with
      | none => exact .inl ⟨rfl, hsusp⟩
      | some t =>
        by_cases hcol : t.isCollected call.subSessionId = true
        · exact .inl ⟨by simp [hcol], by simp [hcol, hsusp]⟩
        · exact .inr ⟨t, rfl, by simp [hcol], by simp [hcol]⟩
  · refine .inl ⟨if_neg fun h => hmem h.1, ?_⟩
    rw [suspensionStep, if_neg hmem]

end

/-! ## The map of progress reports -/

section

variable {t : TurnSuspension} {id other : String}

/-- The texts of a task in the map. -/
def TurnSuspension.textsOf (t : TurnSuspension) (id : String) : List String :=
  (t.progressBySubSession.lookup id).getD []

lemma lookup_filter_ne (l : List (String × List String)) :
    (l.filter (·.1 ≠ other)).lookup id = if id = other then none else l.lookup id := by
  induction l with
  | nil => simp
  | cons entry l ih =>
    obtain ⟨key, texts⟩ := entry
    by_cases hkey : key = other
    · rw [List.filter_cons_of_neg (by simpa using hkey), ih]
      by_cases hid : id = other
      · rw [if_pos hid, if_pos hid]
      · have hne : (id == key) = false := by simpa [hkey] using hid
        rw [if_neg hid, if_neg hid, List.lookup_cons, hne]
    · rw [List.filter_cons_of_pos (by simpa using hkey), List.lookup_cons, List.lookup_cons, ih]
      by_cases hid : id = key
      · have hne : id ≠ other := hid ▸ hkey
        simp [hid, hkey]
      · have hne : (id == key) = false := by simpa using hid
        rw [hne]

/-- A text is added to its task. -/
lemma textsOf_addProgress (text : String) :
    (t.addProgress other text).textsOf id =
      if other = id then t.textsOf id ++ [text] else t.textsOf id := by
  unfold TurnSuspension.addProgress TurnSuspension.textsOf
  dsimp only
  rw [List.lookup_append, lookup_filter_ne]
  by_cases hid : id = other
  · subst hid
    simp
  · have hne : (id == other) = false := by simpa using hid
    rw [if_neg hid, if_neg (Ne.symm hid), List.lookup_cons, hne]
    simp

/-- A recording takes the texts of its task. -/
lemma textsOf_collect (status : SubStatus) (content : String) (count : Nat) :
    (t.collect other status content count).textsOf id = if other = id then [] else t.textsOf id := by
  unfold TurnSuspension.collect TurnSuspension.textsOf
  dsimp only
  rw [lookup_filter_ne]
  by_cases hid : id = other
  · rw [if_pos hid, if_pos hid.symm]
    rfl
  · rw [if_neg hid, if_neg (Ne.symm hid)]

end

/-! ## The invariant -/

/-- The tasks are conserved, and the map holds the texts of the present suspension. -/
structure TasksInv (s : NoticeState) : Prop extends ConservesTasks progressSince s where
  texts : ∀ t ∈ s.suspension.turnSuspension, ∀ id, t.textsOf id = progressSince id s.history

section

variable {s : NoticeState}

/-- The history gets an entry that is no recording. -/
lemma progress_cons {texts : String → List Happening → List String} {history : List Happening}
    {e : Happening} (he : ∀ result, e ≠ .recorded result)
    (h : ∀ result earlier, .recorded result :: earlier <:+ history →
      result.progress = texts result.subSessionId earlier) (result : SubResult)
    (earlier : List Happening) (hsuffix : .recorded result :: earlier <:+ e :: history) :
    result.progress = texts result.subSessionId earlier := by
  rcases List.suffix_cons_iff.1 hsuffix with heq | hsuffix
  · exact absurd (List.cons.inj heq).1.symm (he result)
  · exact h result earlier hsuffix

/-- A step that leaves the suspension and the history as they are. -/
lemma TasksInv.same (h : TasksInv s) {s' : NoticeState}
    (hsusp : s'.suspension.turnSuspension = s.suspension.turnSuspension)
    (hhist : s'.history = s.history) : TasksInv s' where
  nodup := by
    rw [hsusp]
    exact h.nodup
  pending := by
    unfold SuspensionState.isPending
    rw [hsusp, hhist]
    exact h.pending
  results := by
    rw [hsusp, hhist]
    exact h.results
  progress := by
    rw [hhist]
    exact h.progress
  texts := by
    rw [hsusp, hhist]
    exact h.texts

lemma isPending_of_some {t : TurnSuspension} {u : SuspensionState} (h : u.turnSuspension = some t)
    (id : String) : u.isPending id = true ↔ id ∈ t.pending := by
  simp [SuspensionState.isPending, h]

lemma isPending_of_none {u : SuspensionState} (h : u.turnSuspension = none) (id : String) :
    ¬ u.isPending id = true := by
  simp [SuspensionState.isPending, h]

/-- **A registration.** -/
lemma tasksInv_addPendingTask (h : TasksInv s) (id : String) :
    TasksInv (noticeStep s (.addPendingTask id)) := by
  cases hsusp : s.suspension.turnSuspension with
  | none =>
    have hstep : (noticeStep s (.addPendingTask id)).suspension.turnSuspension =
        some { pending := [id] } := by
      simp [noticeStep, suspensionStep, SuspensionState.addPendingTask, hsusp]
    have hhist : (noticeStep s (.addPendingTask id)).history =
        .registered id :: .started :: s.history := by
      simp [noticeStep, hsusp]
    have hno : ∀ other, awaited other s.history = false := by
      intro other
      rw [← Bool.not_eq_true, h.pending]
      exact isPending_of_none hsusp other
    refine ⟨⟨?_, fun other => ?_, ?_, ?_⟩, ?_⟩
    · rw [hstep]
      rintro t ⟨⟩
      exact List.pairwise_singleton _ id
    · rw [isPending_of_some hstep, hhist]
      simp [awaited, hno, eq_comm]
    · rw [hstep, hhist]
      rintro t ⟨⟩
      rfl
    · rw [hhist]
      exact progress_cons (by simp) (progress_cons (by simp) h.progress)
    · rw [hstep, hhist]
      rintro t ⟨⟩ other
      rfl
  | some t =>
    have hstep : (noticeStep s (.addPendingTask id)).suspension.turnSuspension =
        some (t.addPending id) := by
      simp [noticeStep, suspensionStep, SuspensionState.addPendingTask, hsusp]
    have hhist : (noticeStep s (.addPendingTask id)).history = .registered id :: s.history := by
      simp [noticeStep, hsusp]
    have hmem : ∀ other, other ∈ (t.addPending id).pending ↔ id = other ∨ other ∈ t.pending := by
      intro other
      unfold TurnSuspension.addPending
      split_ifs with hin
      · exact ⟨.inr, fun hor => hor.elim (fun heq => heq ▸ hin) fun hmem => hmem⟩
      · simp [or_comm, eq_comm]
    have hrest : (t.addPending id).results = t.results ∧
        ∀ other, (t.addPending id).textsOf other = t.textsOf other := by
      unfold TurnSuspension.addPending
      split_ifs
      · exact ⟨rfl, fun _ => rfl⟩
      · exact ⟨rfl, fun _ => rfl⟩
    refine ⟨⟨?_, fun other => ?_, ?_, ?_⟩, ?_⟩
    · rw [hstep]
      rintro u ⟨⟩
      unfold TurnSuspension.addPending
      split_ifs with hin
      · exact h.nodup t hsusp
      · exact List.nodup_append.2 ⟨h.nodup t hsusp, List.pairwise_singleton _ id,
          fun a ha b hb heq => hin (by rwa [← List.mem_singleton.1 hb, ← heq])⟩
    · rw [isPending_of_some hstep, hhist, hmem, ← isPending_of_some hsusp, ← h.pending]
      simp [awaited]
    · rw [hstep, hhist]
      rintro u ⟨⟩
      exact hrest.1.trans (h.results t hsusp)
    · rw [hhist]
      exact progress_cons (by simp) h.progress
    · rw [hstep, hhist]
      rintro u ⟨⟩ other
      exact (hrest.2 other).trans (h.texts t hsusp other)

/-- **A progress text.** -/
lemma tasksInv_addProgress (h : TasksInv s) (id text : String) :
    TasksInv (noticeStep s (.addProgress id text)) := by
  have hstep : (noticeStep s (.addProgress id text)).suspension.turnSuspension =
      s.suspension.turnSuspension.map (·.addProgress id text) := rfl
  have hhist : (noticeStep s (.addProgress id text)).history =
      .progress id text :: s.history := rfl
  have hpending : ∀ other, (noticeStep s (.addProgress id text)).suspension.isPending other =
      s.suspension.isPending other := by
    intro other
    unfold SuspensionState.isPending
    rw [hstep]
    cases s.suspension.turnSuspension <;> rfl
  refine ⟨⟨?_, fun other => ?_, ?_, ?_⟩, ?_⟩
  · rw [hstep]
    intro u hu
    obtain ⟨t, ht, rfl⟩ := Option.map_eq_some_iff.1 hu
    exact h.nodup t ht
  · rw [hpending, hhist]
    exact h.pending other
  · rw [hstep, hhist]
    intro u hu
    obtain ⟨t, ht, rfl⟩ := Option.map_eq_some_iff.1 hu
    exact h.results t ht
  · rw [hhist]
    exact progress_cons (by simp) h.progress
  · rw [hstep, hhist]
    intro u hu other
    obtain ⟨t, ht, rfl⟩ := Option.map_eq_some_iff.1 hu
    rw [textsOf_addProgress, h.texts t ht, progressSince]

/-- **A recording.** -/
lemma tasksInv_collect (h : TasksInv s) (call : TerminalCall) :
    TasksInv (noticeStep s (.collect call)) := by
  rcases collect_cases s.suspension call with ⟨hnone, hsame⟩ | ⟨t, ht, hrec, hstep⟩
  · refine h.same hsame ?_
    simp [noticeStep, hnone]
  · have hhist : (noticeStep s (.collect call)).history =
        .recorded (t.resultOf call) :: s.history := by
      simp [noticeStep, hrec]
    have hstep' : (noticeStep s (.collect call)).suspension.turnSuspension =
        some (t.collect call.subSessionId call.status call.content call.sentMessageCount) := hstep
    have hprogress : (t.resultOf call).progress = progressSince call.subSessionId s.history :=
      h.texts t ht call.subSessionId
    refine ⟨⟨?_, fun other => ?_, ?_, fun result earlier hsuffix => ?_⟩, ?_⟩
    · rw [hstep']
      rintro u ⟨⟩
      exact (h.nodup t ht).filter _
    · rw [isPending_of_some hstep', hhist]
      have hawaited := (h.pending other).trans (isPending_of_some ht other)
      simp only [awaited, TurnSuspension.collect, TurnSuspension.resultOf, Bool.and_eq_true,
        List.mem_filter, decide_eq_true_eq, hawaited]
      exact ⟨fun hand => ⟨hand.2, Ne.symm (of_decide_eq_true hand.1)⟩,
        fun hand => ⟨decide_eq_true hand.2.symm, hand.1⟩⟩
    · rw [hstep', hhist]
      rintro u ⟨⟩
      rw [recordings, ← h.results t ht]
      rfl
    · rw [hhist] at hsuffix
      rcases List.suffix_cons_iff.1 hsuffix with heq | hsuffix
      · obtain ⟨hresult, rfl⟩ := List.cons.inj heq
        cases hresult
        exact hprogress
      · exact h.progress result earlier hsuffix
    · rw [hstep', hhist]
      rintro u ⟨⟩ other
      rw [textsOf_collect, h.texts t ht, progressSince]
      rfl

/-- **A drop** of the suspension. -/
lemma tasksInv_clear (h : TasksInv s) : TasksInv (noticeStep s .clearSuspensionIfCollected) := by
  by_cases hclears : s.suspension.clears s.hasNoticeTurnsInFlight = true
  · have hstep : (noticeStep s .clearSuspensionIfCollected).suspension.turnSuspension = none := by
      simp [noticeStep, suspensionStep, hclears]
    obtain ⟨t, ht, hempty⟩ : ∃ t, s.suspension.turnSuspension = some t ∧ t.pending = [] := by
      obtain ⟨t, ht, hcond⟩ := (Option.any_eq_true _ _).1 hclears
      rw [Bool.and_eq_true, List.isEmpty_iff] at hcond
      exact ⟨t, ht, hcond.1⟩
    refine ⟨⟨?_, fun id => ?_, ?_, h.progress⟩, ?_⟩
    · rw [hstep]
      rintro u ⟨⟩
    · have hnot := isPending_of_none hstep id
      have hold : ¬ awaited id s.history = true := by
        rw [h.pending, isPending_of_some ht, hempty]
        exact List.not_mem_nil
      exact iff_of_false hold hnot
    · rw [hstep]
      rintro u ⟨⟩
    · rw [hstep]
      rintro u ⟨⟩
  · refine h.same ?_ rfl
    simp [noticeStep, suspensionStep, hclears]

/-- **One event** keeps the tasks. -/
theorem TasksInv.step (h : TasksInv s) (e : NoticeEvent) : TasksInv (noticeStep s e) := by
  cases e with
  | addPendingTask id => exact tasksInv_addPendingTask h id
  | addProgress id text => exact tasksInv_addProgress h id text
  | look id status content count => exact h.same rfl rfl
  | checkWindow call now => exact h.same (turnSuspension_checkWindow now) rfl
  | collect call => exact tasksInv_collect h call
  | note call now => exact h.same (turnSuspension_note now) rfl
  | bumpNoticeTurn => exact h.same rfl rfl
  | finishNoticeTurn => exact h.same rfl rfl
  | enqueueDelegationNotice notice => exact h.same rfl rfl
  | takeDelegationNotices => exact h.same rfl rfl
  | clearSuspensionIfCollected => exact tasksInv_clear h

/-- **One event** drops only a collected suspension. -/
theorem dropsCollected (s : NoticeState) (e : NoticeEvent) : DropsCollected s e := by
  intro t ht hnone
  cases e with
  | addPendingTask id => simp [noticeStep, suspensionStep, SuspensionState.addPendingTask] at hnone
  | addProgress id text => simp [noticeStep, suspensionStep, ht] at hnone
  | checkWindow call now =>
    exact absurd ((turnSuspension_checkWindow now).symm.trans hnone) (by simp [ht])
  | collect call =>
    rcases collect_cases s.suspension call with ⟨-, hsame⟩ | ⟨u, -, -, hstep⟩
    · exact absurd (hsame.symm.trans hnone) (by simp [ht])
    · exact absurd (hstep.symm.trans hnone) (by simp)
  | note call now => exact absurd ((turnSuspension_note now).symm.trans hnone) (by simp [ht])
  | clearSuspensionIfCollected =>
    by_cases hclears : s.suspension.clears s.hasNoticeTurnsInFlight = true
    · rw [SuspensionState.clears, ht, Option.any_some] at hclears
      simpa [NoticeState.hasNoticeTurnsInFlight] using hclears
    · simp [noticeStep, suspensionStep, hclears, ht] at hnone
  | _ => exact absurd (ht.symm.trans hnone) (by simp)

end

/-! ## Runs -/

/-- Nothing has happened. -/
lemma tasksInv_start : TasksInv {} := by
  refine ⟨⟨?_, fun id => ?_, ?_, fun result earlier hsuffix => ?_⟩, ?_⟩
  · rintro t ⟨⟩
  · exact iff_of_false Bool.false_ne_true Bool.false_ne_true
  · rintro t ⟨⟩
  · exact absurd (List.suffix_nil.1 hsuffix) (List.cons_ne_nil _ _)
  · rintro t ⟨⟩

/-- **Every run conserves its tasks**, and drops only collected suspensions. -/
theorem conservesTasks (es : List NoticeEvent) :
    Run.Always noticeStep (ConservesTasks progressSince) {} es ∧
      Run.EachStep noticeStep DropsCollected {} es := by
  have hinv : Run.Always noticeStep TasksInv {} es :=
    Run.always_of_forall_step (fun s e h => h.step e) tasksInv_start es
  refine ⟨hinv.imp fun s h => h.toConservesTasks, ?_⟩
  exact (Run.eachStep_true {} es).imp fun s e _ => dropsCollected s e

/-! ## A text before the suspension -/

namespace EarlyText

/-- The call that records the task. -/
def call : TerminalCall where
  subSessionId := "sub"
  status := .completed
  content := "done"
  sentMessageCount := 0
  stage := .looked true

/-- A progress text, then the registration, then the recording. -/
def events : List NoticeEvent :=
  [.addProgress "sub" "half", .addPendingTask "sub", .look "sub" .completed "done" 0,
    .checkWindow call 0, .collect { call with stage := .passed }]

end EarlyText

open EarlyText in
/-- **The text is not kept**: the session was not suspended when it came. -/
theorem not_conservesTasks_early :
    ¬ Run.Always noticeStep (ConservesTasks progressAdded) {} events := by
  intro h
  have hprogress := h.last.progress
    { subSessionId := "sub", status := .completed, content := "done", sentMessageCount := 0
      progress := [] }
    [.registered "sub", .started, .progress "sub" "half"] (by decide)
  exact absurd hprogress (by decide)

end MyClaw
