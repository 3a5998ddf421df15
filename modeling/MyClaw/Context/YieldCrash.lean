import MyClaw.Context.YieldSections

set_option autoImplicit false

/-!
# Yield events across a crash

A drain writes the emptied queue to its file before anyone writes the content of the fill to the
history.  In between, the events of the fill are in no file, and a daemon that dies there loses
them.  This file finds the writes of the queue file that open such a gap.

## Main definitions

* `restartYield` — the session context after a crash.
* `CrashSafe` — a crash here loses no event that a queue file has held.
* `inFlight` — the events that are in memory and in no written tool result.
* `SavesInFlight` — a write of the queue file keeps the events in flight.

## Main results

* `crashSafe_iff` — a crash loses nothing exactly when every event in flight that a queue
  file has held is still in it.
* `crashSafe_always_iff` — every moment of a run is safe exactly when every write of the
  queue file in it keeps the events in flight.
-/

namespace MyClaw

open Tokens

/-! ## The property -/

/-- The session context that a restart builds from the two files. -/
def restartYield (s : YieldState) : YieldState :=
  { startYield [] [] with
    queue := s.queueFile
    pendingYield := reconstructedYield (identifyBreakpoint (s.historyFile.map (·.val)))
    history := reloadMessages s.historyFile
    queueFile := s.queueFile
    historyFile := s.historyFile
    next := s.next
    expired := s.expired
    lost := s.lost
    persisted := s.persisted }

/-- **A crash here loses nothing**: each event that a queue file has held and that no drain found
too old is, after the restart, in the queue or in a tool result of the history. -/
def CrashSafe (s : YieldState) : Prop :=
  ∀ n ∈ s.persisted, n ∉ s.expired →
    n ∈ carried (restartYield s).queue ∨ n ∈ delivered (restartYield s).history

instance (s : YieldState) : Decidable (CrashSafe s) :=
  inferInstanceAs (Decidable (∀ n ∈ s.persisted, n ∉ s.expired →
    n ∈ carried (restartYield s).queue ∨ n ∈ delivered (restartYield s).history))

/-- The message that the section under the session lock has still to persist. -/
def YieldState.unwrittenRows (s : YieldState) : List (Tagged ChatMessage) :=
  match s.holder with
  | .persistLast :: _ => s.history.getLast?.toList
  | _ => []

/-- The events of that message. -/
def YieldState.unwritten (s : YieldState) : List Nat := delivered s.unwrittenRows

/-- The events that are in no written tool result: in the queue, in a channel, in the hands of a
section, in a message still to be persisted, or lost with a receiver. -/
def inFlight (s : YieldState) : List Nat :=
  carried s.queue ++ s.inChannels ++ s.hands ++ s.unwritten ++ s.lost

/-- The events in flight that a queue file has held are among `events`. -/
def KeepsInFlight (s : YieldState) (events : List (Tagged PendingYieldEvent)) : Prop :=
  ∀ n ∈ s.persisted, n ∉ s.expired → n ∈ inFlight s → n ∈ carried events

/-- **The condition on a step**: what is written to the queue file keeps the events in flight. -/
def SavesInFlight (s : YieldState) : YieldEvent → Prop
  | .saveQueue job => ∀ events, s.jobs[job]? = some (some events) → KeepsInFlight s events
  | .advance _ => ∀ events rest, s.holder = .saveEvents events :: rest → KeepsInFlight s events
  | _ => True

/-! ## What memory and the history file have in common -/

namespace YieldState

/-- The numbers that the queue file has held, or that are in a clone still to be written. -/
def clones (s : YieldState) : List Nat :=
  s.persisted ++ s.holder.flatMap YieldOp.clones ++ s.jobs.flatMap fun job => carried (job.getD [])

/-- The history file as it is once the section has persisted its last message. -/
def settledFile (s : YieldState) : List (Tagged ChatMessage) := s.historyFile ++ s.unwrittenRows

end YieldState

/-- **Memory and the history file**: the file is behind by the last message at most, and that only
while the section is about to persist it; each call that a party works on is declared; and what
carries an event answers a call that the file declares. -/
structure Mirrors (s : YieldState) : Prop where
  delivered_eq : delivered s.history = delivered s.settledFile
  persistLast : YieldOp.persistLast ∉ s.holder.tail
  known : ∀ id ∈ s.toolCallIds, id ∈ knownCalls s.settledFile
  answers : ∀ msg ∈ s.settledFile, msg.carries ≠ [] →
    keepsResult (knownCalls s.historyFile) msg.val = true
  clones : ∀ n ∈ s.clones, n < s.next

/-! ## The invariant -/

section

variable {s s' : YieldState} {ids : List String} {rows : List (Tagged ChatMessage)}

lemma unwrittenRows_of_not_mem (h : YieldOp.persistLast ∉ s.holder) : s.unwrittenRows = [] := by
  unfold YieldState.unwrittenRows
  split
  · rename_i hholder
    exact absurd (hholder ▸ List.mem_cons_self) h
  · rfl

lemma settledFile_of_not_mem (h : YieldOp.persistLast ∉ s.holder) :
    s.settledFile = s.historyFile := by
  rw [YieldState.settledFile, unwrittenRows_of_not_mem h, List.append_nil]

/-- The message that a section adds is what it has still to persist. -/
lemma SectionStep.unwrittenRows_eq (h : SectionStep s s' ids rows)
    (hlast : YieldOp.persistLast ∉ s.holder) :
    s'.unwrittenRows = rows ∧ YieldOp.persistLast ∉ s'.holder.tail := by
  obtain ⟨ops, hholder, hops⟩ := h.holder
  have hno : YieldOp.persistLast ∉ ops := fun hmem => hlast (hops hmem)
  obtain rfl | ⟨msg, rfl⟩ : rows = [] ∨ ∃ msg, rows = [msg] := by
    have hsingle := h.single
    rcases rows with _ | ⟨msg, _ | ⟨_, _⟩⟩
    · exact .inl rfl
    · exact .inr ⟨msg, rfl⟩
    · simp at hsingle
  · have hno' : YieldOp.persistLast ∉ s'.holder := hholder ▸ hno
    exact ⟨unwrittenRows_of_not_mem hno', fun hmem => hno' (List.mem_of_mem_tail hmem)⟩
  · rw [YieldState.unwrittenRows, hholder, h.history]
    exact ⟨by simp, hno⟩

lemma keepsResult_append {ms ns : List (Tagged ChatMessage)} {msg : ChatMessage}
    (h : keepsResult (knownCalls ms) msg = true) :
    keepsResult (knownCalls (ms ++ ns)) msg = true := by
  rw [keepsResult_eq_true] at h ⊢
  intro htool
  obtain ⟨id, hid, hmem⟩ := h htool
  exact ⟨id, hid, knownCalls_append ms ns ▸ List.mem_append_left _ hmem⟩

/-- **A step of a section** keeps the invariant. -/
lemma Mirrors.sectionStep (h : Mirrors s) (hstep : SectionStep s s' ids rows)
    (hlast : YieldOp.persistLast ∉ s.holder) (hqueue : ∀ n ∈ carried s.queue, n < s.next)
    (hids : ∀ id ∈ ids, id ∈ knownCalls s.historyFile) : Mirrors s' := by
  have hsettled := settledFile_of_not_mem hlast
  obtain ⟨hrows, htail⟩ := hstep.unwrittenRows_eq hlast
  have hsettled' : s'.settledFile = s.historyFile ++ rows := by
    rw [YieldState.settledFile, hstep.historyFile, hrows]
  refine ⟨?_, htail, fun id hid => ?_, fun msg hmsg hne => ?_, fun n hn => ?_⟩
  · rw [hstep.history, hsettled', delivered_append, delivered_append, h.delivered_eq, hsettled]
  · rw [hsettled', knownCalls_append, List.mem_append]
    rcases hstep.calls id hid with hid | hid | hid
    · exact .inl (hsettled ▸ h.known id hid)
    · exact .inl (hids id hid)
    · exact .inr hid
  · rw [hstep.historyFile]
    rw [hsettled', List.mem_append] at hmsg
    rcases hmsg with hmsg | hmsg
    · exact h.answers msg (hsettled ▸ hmsg) hne
    · obtain ⟨id, hid, hcall⟩ := hstep.answers msg hmsg hne
      exact keepsResult_eq_true.2 fun _ => ⟨id, hcall, hids id hid⟩
  · rw [hstep.next]
    simp only [YieldState.clones, hstep.persisted, hstep.jobs, List.mem_append] at hn
    have hold : ∀ m, (m ∈ s.persisted ∨ m ∈ s.holder.flatMap YieldOp.clones) ∨
        m ∈ s.jobs.flatMap (fun job => carried (job.getD [])) → m < s.next := by
      intro m hm
      refine h.clones m ?_
      simpa only [YieldState.clones, List.mem_append] using hm
    rcases hn with (hn | hn) | hn
    · exact hold n (.inl (.inl hn))
    · rcases hstep.clones n hn with hn | hn
      · exact hold n (.inl (.inr hn))
      · exact hqueue n hn
    · exact hold n (.inr hn)

/-- A step that leaves the history, its file and the section alone keeps the invariant. -/
lemma Mirrors.frame (h : Mirrors s) (hhistory : s'.history = s.history)
    (hfile : s'.historyFile = s.historyFile) (hholder : s'.holder = s.holder)
    (hcalls : ∀ id ∈ s'.toolCallIds, id ∈ s.toolCallIds) (hclones : ∀ n ∈ s'.clones, n < s'.next) :
    Mirrors s' := by
  have hsettled : s'.settledFile = s.settledFile := by
    simp only [YieldState.settledFile, YieldState.unwrittenRows, hhistory, hfile, hholder]
  refine ⟨?_, hholder ▸ h.persistLast, fun id hid => ?_, fun msg hmsg hne => ?_, hclones⟩
  · rw [hhistory, hsettled, h.delivered_eq]
  · rw [hsettled]
    exact h.known id (hcalls id hid)
  · rw [hfile]
    exact h.answers msg (hsettled ▸ hmsg) hne

/-- A section that takes its next step, which is not a write of the history, has written it. -/
lemma Mirrors.pop (h : Mirrors s) {op : YieldOp} {rest : List YieldOp}
    (hholder : s.holder = op :: rest) (hop : op ≠ .persistLast) :
    Mirrors { s with holder := rest } ∧ YieldOp.persistLast ∉ rest ∧
      ∀ id ∈ op.toolCallIds, id ∈ knownCalls s.historyFile := by
  have hrest : YieldOp.persistLast ∉ rest := by
    have := h.persistLast
    rwa [hholder] at this
  have hlast : YieldOp.persistLast ∉ s.holder := by
    rw [hholder, List.mem_cons, not_or]
    exact ⟨Ne.symm hop, hrest⟩
  have hsettled := settledFile_of_not_mem hlast
  have hsettled' := settledFile_of_not_mem (s := { s with holder := rest }) hrest
  have hknown : ∀ id ∈ s.toolCallIds, id ∈ knownCalls s.historyFile := hsettled ▸ h.known
  refine ⟨⟨?_, fun hmem => hrest (List.mem_of_mem_tail hmem), fun id hid => ?_,
    fun msg hmsg hne => ?_, fun n hn => h.clones n ?_⟩, hrest, fun id hid => hknown id ?_⟩
  · rw [hsettled', ← hsettled]
    exact h.delivered_eq
  · rw [hsettled']
    refine hknown id (mem_toolCallIds.2 ((mem_toolCallIds.1 hid).imp_right fun hid => ?_))
    refine hid.imp_right fun ⟨op', hop', hid⟩ => ⟨op', ?_, hid⟩
    exact hholder ▸ List.mem_cons_of_mem op hop'
  · rw [hsettled'] at hmsg
    exact h.answers msg (hsettled ▸ hmsg) hne
  · simp only [YieldState.clones, hholder, List.flatMap_cons, List.mem_append] at hn ⊢
    tauto
  · exact mem_toolCallIds.2 (.inr (.inr ⟨op, hholder ▸ List.mem_cons_self, hid⟩))

/-- `persist_last` brings the file up to the history. -/
lemma Mirrors.persistLast_step (h : Mirrors s) (now : Nat) {rest : List YieldOp}
    (hholder : s.holder = .persistLast :: rest) :
    Mirrors ({ s with holder := rest }.runOp now .persistLast) := by
  have hrest : YieldOp.persistLast ∉ rest := by
    have := h.persistLast
    rwa [hholder] at this
  have hfile : s.settledFile = s.historyFile ++ s.history.getLast?.toList := by
    rw [YieldState.settledFile, YieldState.unwrittenRows, hholder]
  have hsettled : ({ s with holder := rest }.runOp now .persistLast).settledFile =
      s.settledFile := by
    rw [settledFile_of_not_mem (by exact hrest), hfile]
    rfl
  refine ⟨?_, fun hmem => hrest (List.mem_of_mem_tail hmem), fun id hid => ?_,
    fun msg hmsg hne => ?_, fun n hn => h.clones n ?_⟩
  · rw [hsettled]
    exact h.delivered_eq
  · rw [hsettled]
    refine h.known id (mem_toolCallIds.2 ((mem_toolCallIds.1 hid).imp_right fun hid => ?_))
    refine hid.imp_right fun ⟨op', hop', hid⟩ => ⟨op', ?_, hid⟩
    exact hholder ▸ List.mem_cons_of_mem _ hop'
  · rw [hsettled] at hmsg
    exact keepsResult_append (h.answers msg hmsg hne)
  · simpa [YieldState.clones, YieldState.runOp, hholder, YieldOp.clones] using hn

lemma lt_of_mem_queue (h : Accounted (whereabouts s) (s.expired ++ s.lost) s.next) {n : Nat}
    (hn : n ∈ carried s.queue) : n < s.next := by
  refine (h.of_mem ?_).1
  unfold whereabouts
  simp only [List.mem_append]
  exact .inl (.inl (.inl hn))

/-- What is written to the queue file was in a clone of the queue. -/
lemma Mirrors.writeEvents (h : Mirrors s) {events : List (Tagged PendingYieldEvent)}
    (hevents : ∀ n ∈ carried events, n < s.next) : Mirrors (s.writeEvents events) := by
  refine h.frame rfl rfl rfl (fun _ hid => hid) fun n hn => ?_
  simp only [YieldState.clones, YieldState.writeEvents, List.mem_append] at hn
  rcases hn with ((hn | hn) | hn) | hn
  · exact h.clones n (by simp [YieldState.clones, hn])
  · exact hevents n hn
  · exact h.clones n (by simp only [YieldState.clones, List.mem_append, hn, or_true, true_or])
  · exact h.clones n (by simp only [YieldState.clones, List.mem_append, hn, or_true])

/-- The queue that a job clones, and the clones of the others. -/
lemma lt_of_mem_jobs {next : Nat} {jobs : List SaveJob} {n : Nat}
    (hjobs : ∀ job ∈ jobs, ∀ m ∈ carried (job.getD []), m < next)
    (hn : n ∈ jobs.flatMap fun job => carried (job.getD [])) : n < next := by
  obtain ⟨job, hjob, hmem⟩ := List.mem_flatMap.1 hn
  exact hjobs job hjob n hmem

/-- Every step keeps the invariant. -/
lemma Mirrors.transition (h : Mirrors s) {e : YieldEvent} (ht : YieldTransition s e s')
    (hacc : Accounted (whereabouts s) (s.expired ++ s.lost) s.next) : Mirrors s' := by
  have hqueue : ∀ n ∈ carried s.queue, n < s.next := fun n hn => lt_of_mem_queue hacc hn
  have hjobs : ∀ job ∈ s.jobs, ∀ m ∈ carried (job.getD []), m < s.next := by
    intro job hmem m hm
    refine h.clones m ?_
    rw [YieldState.clones, List.mem_append]
    exact .inr (List.mem_flatMap.2 ⟨job, hmem, hm⟩)
  have hsection : s.holder = [] → ∀ {ids : List String} {rows : List (Tagged ChatMessage)},
      SectionStep s s' ids rows → (∀ id ∈ ids, id ∈ s.toolCallIds) → Mirrors s' := by
    intro hfree ids rows hstep hids
    have hlast : YieldOp.persistLast ∉ s.holder := by simp [hfree]
    refine h.sectionStep hstep hlast hqueue fun id hid => ?_
    exact settledFile_of_not_mem hlast ▸ h.known id (hids id hid)
  cases ht with
  | enqueue content now =>
    refine h.frame rfl rfl rfl (fun _ hid => hid) fun n hn => ?_
    refine Nat.lt_succ_of_lt (h.clones n ?_)
    simpa [YieldState.clones] using hn
  | cloneQueue job =>
    refine h.frame rfl rfl rfl (fun _ hid => hid) fun n hn => ?_
    rcases List.mem_append.1 hn with hn | hn
    · exact h.clones n (List.mem_append_left _ hn)
    · refine lt_of_mem_jobs (fun job' hmem => ?_) hn
      rcases List.mem_or_eq_of_mem_set hmem with hmem | rfl
      · exact hjobs job' hmem
      · exact hqueue
  | @saveQueue job events hjob =>
    have hremoved : Mirrors { s with jobs := s.jobs.eraseIdx job } := by
      refine h.frame rfl rfl rfl (fun _ hid => hid) fun n hn => ?_
      rcases List.mem_append.1 hn with hn | hn
      · exact h.clones n (List.mem_append_left _ hn)
      · exact lt_of_mem_jobs (fun job' hmem => hjobs job' (List.mem_of_mem_eraseIdx hmem)) hn
    exact hremoved.writeEvents (hjobs _ (List.mem_of_getElem? hjob))
  | tryFill hfree => exact hsection hfree (sectionStep_tryFill hfree) nofun
  | yield call hfree =>
    exact hsection hfree ((SectionStep.refl s []).first_one ⟨nofun, nofun, nofun⟩) nofun
  | @park pending hfree hpending =>
    refine hsection hfree ((SectionStep.refl s [pending.toolCallId]).first_one
      ⟨nofun, fun _ hid => .inr hid, nofun⟩) fun id hid => ?_
    obtain rfl := List.mem_singleton.1 hid
    exact mem_toolCallIds_pending hpending
  | replayEnds => exact h.frame rfl rfl rfl (fun _ hid => hid) h.clones
  | interject content hfree =>
    obtain ⟨rows, hstep⟩ := sectionStep_interject s content
    exact hsection hfree hstep nofun
  | @wake key task hfree htask =>
    obtain ⟨rows, hstep⟩ := sectionStep_wake s task
    refine hsection hfree hstep fun id hid => ?_
    obtain rfl := List.mem_singleton.1 hid
    exact mem_toolCallIds_parked (List.mem_of_find?_eq_some htask)
  | cancel htask =>
    refine h.frame rfl rfl rfl (fun id hid => ?_) h.clones
    rcases mem_toolCallIds.1 hid with hid | ⟨old, hold, rfl⟩ | hid
    · exact mem_toolCallIds.2 (.inl hid)
    · exact mem_toolCallIds_parked (s := s) (List.mem_of_mem_eraseP hold)
    · exact mem_toolCallIds.2 (.inr (.inr hid))
  | @advance op rest now hholder =>
    by_cases hop : op = .persistLast
    · subst hop
      exact h.persistLast_step now hholder
    obtain ⟨hpop, hrest, hids⟩ := h.pop hholder hop
    by_cases hsave : ∃ events, op = .saveEvents events
    · obtain ⟨events, rfl⟩ := hsave
      refine hpop.writeEvents fun n hn => h.clones n ?_
      simp only [YieldState.clones, hholder, List.flatMap_cons, YieldOp.clones, List.mem_append]
      exact .inl (.inr (.inl hn))
    · obtain ⟨rows, hstep⟩ := sectionStep_runOp { s with holder := rest } now hop
        fun events heq => hsave ⟨events, heq⟩
      exact hpop.sectionStep hstep hrest hqueue hids
  | idle => exact h

/-- **Every step keeps the invariant.** -/
theorem mirrors_yieldStep (s : YieldState) (e : YieldEvent)
    (hacc : Accounted (whereabouts s) (s.expired ++ s.lost) s.next) (h : Mirrors s) :
    Mirrors (yieldStep s e) :=
  h.transition (yieldTransition_yieldStep s e) hacc

end

/-- The pending yield that a reload reconstructs is a breakpoint. -/
lemma mem_pendingIds_of_reconstructedYield {breakpoints : List BreakpointItem}
    {pending : PendingYield} (h : reconstructedYield breakpoints = some pending) :
    pending.toolCallId ∈ pendingIds breakpoints := by
  unfold reconstructedYield at h
  split at h
  · split_ifs at h
    cases h
    exact List.mem_cons_self
  · cases h

/-- The invariant holds at a start. -/
lemma mirrors_startYield (events : List PendingYieldEvent) (messages : List ChatMessage) :
    Mirrors (startYield events messages) := by
  have hplain : ∀ msg ∈ messages.map plainMessage, msg.carries = [] := by
    intro msg hmsg
    obtain ⟨msg', -, rfl⟩ := List.mem_map.1 hmsg
    rfl
  have hfile : (startYield events messages).settledFile = messages.map plainMessage :=
    List.append_nil _
  refine ⟨?_, nofun, fun id hid => ?_, fun msg hmsg hne => ?_, fun n hn => ?_⟩
  · rw [hfile, delivered_of_plain hplain]
    exact delivered_of_plain fun msg hmsg => hplain msg (List.mem_of_mem_filter hmsg)
  · rw [hfile]
    have hvals : (messages.map plainMessage).map (·.val) = messages := by
      rw [List.map_map]
      exact List.map_id messages
    rw [knownCalls, hvals, mem_knownToolIds]
    rcases mem_toolCallIds.1 hid with ⟨pending, hpending, rfl⟩ | ⟨task, htask, -⟩ | ⟨op, hop, -⟩
    · exact declared_of_mem_identifyBreakpoint (mem_pendingIds_of_reconstructedYield hpending)
    · cases htask
    · cases hop
  · rw [hfile] at hmsg
    exact absurd (hplain msg hmsg) hne
  · simpa [YieldState.clones, startYield] using hn

/-! ## The crash -/

section

variable {s : YieldState}

/-- A reload keeps the events of the history file. -/
lemma delivered_reloadMessages (h : Mirrors s) (n : Nat) :
    n ∈ delivered (reloadMessages s.historyFile) ↔ n ∈ delivered s.historyFile := by
  simp only [delivered, carried, List.mem_flatMap, List.mem_filter]
  refine exists_congr fun msg => and_congr_left fun hn => and_congr_left fun _ => ?_
  refine ⟨fun hmem => List.mem_of_mem_filter hmem, fun hmem => List.mem_filter.2 ⟨hmem, ?_⟩⟩
  exact h.answers msg (List.mem_append_left _ hmem) (List.ne_nil_of_mem hn)

lemma crashSafe_iff_files (h : Mirrors s) :
    CrashSafe s ↔ ∀ n ∈ s.persisted, n ∉ s.expired →
      n ∈ carried s.queueFile ∨ n ∈ delivered s.historyFile := by
  refine forall₃_congr fun n _ _ => or_congr_right ?_
  exact delivered_reloadMessages h n

lemma Mirrors.lt_of_persisted (h : Mirrors s) {n : Nat} (hn : n ∈ s.persisted) : n < s.next :=
  h.clones n (List.mem_append_left _ (List.mem_append_left _ hn))

/-- **In flight or written**: an event that no drain found too old is in flight exactly when no
written tool result holds it. -/
lemma mem_inFlight_iff (hacc : Accounted (whereabouts s) (s.expired ++ s.lost) s.next)
    (h : Mirrors s) {n : Nat} (hn : n < s.next) (hexpired : n ∉ s.expired) :
    n ∈ inFlight s ↔ n ∉ delivered s.historyFile := by
  have hcount := hacc n
  rw [if_pos hn, List.count_append, List.count_eq_zero.2 hexpired] at hcount
  unfold whereabouts at hcount
  rw [h.delivered_eq, YieldState.settledFile, delivered_append] at hcount
  have hflight : (inFlight s).count n + (delivered s.historyFile).count n = 1 := by
    unfold inFlight YieldState.unwritten
    simp only [List.count_append] at hcount ⊢
    omega
  rw [← List.count_pos_iff, ← List.count_eq_zero]
  omega

/-- **A crash loses nothing** exactly when every event in flight that a queue file has held, and
that no drain found too old, is still in the queue file. -/
theorem crashSafe_iff (hacc : Accounted (whereabouts s) (s.expired ++ s.lost) s.next)
    (h : Mirrors s) : CrashSafe s ↔ KeepsInFlight s s.queueFile := by
  rw [crashSafe_iff_files h]
  refine forall₃_congr fun n hmem hexpired => ?_
  rw [mem_inFlight_iff hacc h (h.lt_of_persisted hmem) hexpired, or_iff_not_imp_right]

end

/-! ## What a step does to the files -/

/-- No write of the queue file: the history file may have grown. -/
structure Quiet (s s' : YieldState) : Prop where
  queueFile : s'.queueFile = s.queueFile
  persisted : s'.persisted = s.persisted
  expired : s.expired ⊆ s'.expired
  historyFile : s.historyFile <+: s'.historyFile

/-- A write of the queue file. -/
structure Writes (s s' : YieldState) (events : List (Tagged PendingYieldEvent)) : Prop where
  queueFile : s'.queueFile = events
  persisted : s'.persisted = s.persisted ++ carried events
  expired : s'.expired = s.expired
  historyFile : s'.historyFile = s.historyFile

section

variable {s s' : YieldState}

lemma Quiet.refl (s : YieldState) : Quiet s s := ⟨rfl, rfl, List.Subset.refl _, List.prefix_refl _⟩

lemma SectionStep.quiet {ids : List String} {rows : List (Tagged ChatMessage)}
    (h : SectionStep s s' ids rows) : Quiet s s' :=
  ⟨h.queueFile, h.persisted, h.expired, ⟨[], (List.append_nil _).trans h.historyFile.symm⟩⟩

/-- **A step writes the queue file or leaves it alone.** -/
lemma YieldTransition.quiet_or_writes {e : YieldEvent} (ht : YieldTransition s e s') :
    (Quiet s s' ∧ SavesInFlight s e) ∨
      ∃ events, Writes s s' events ∧ (SavesInFlight s e ↔ KeepsInFlight s events) := by
  cases ht with
  | enqueue content now => exact .inl ⟨⟨rfl, rfl, List.Subset.refl _, List.prefix_refl _⟩, trivial⟩
  | cloneQueue job => exact .inl ⟨⟨rfl, rfl, List.Subset.refl _, List.prefix_refl _⟩, trivial⟩
  | @saveQueue job events hjob =>
    refine .inr ⟨events, ⟨rfl, rfl, rfl, rfl⟩, fun h => h events hjob, fun h written heq => ?_⟩
    rw [hjob] at heq
    cases heq
    exact h
  | tryFill hfree => exact .inl ⟨(sectionStep_tryFill hfree).quiet, trivial⟩
  | yield call hfree => exact .inl ⟨⟨rfl, rfl, List.Subset.refl _, List.prefix_refl _⟩, trivial⟩
  | park hfree hpending => exact .inl ⟨⟨rfl, rfl, List.Subset.refl _, List.prefix_refl _⟩, trivial⟩
  | replayEnds => exact .inl ⟨⟨rfl, rfl, List.Subset.refl _, List.prefix_refl _⟩, trivial⟩
  | interject content hfree =>
    obtain ⟨rows, hstep⟩ := sectionStep_interject s content
    exact .inl ⟨hstep.quiet, trivial⟩
  | @wake key task hfree htask =>
    obtain ⟨rows, hstep⟩ := sectionStep_wake s task
    exact .inl ⟨hstep.quiet, trivial⟩
  | cancel htask => exact .inl ⟨⟨rfl, rfl, List.Subset.refl _, List.prefix_refl _⟩, trivial⟩
  | @advance op rest now hholder =>
    unfold SavesInFlight
    rw [hholder]
    by_cases hlast : op = .persistLast
    · subst hlast
      exact .inl ⟨⟨rfl, rfl, List.Subset.refl _, List.prefix_append _ _⟩, nofun⟩
    by_cases hsave : ∃ events, op = .saveEvents events
    · obtain ⟨events, rfl⟩ := hsave
      refine .inr ⟨events, ⟨rfl, rfl, rfl, rfl⟩, fun h => h events rest rfl, fun h _ _ heq => ?_⟩
      cases heq
      exact h
    · obtain ⟨rows, hstep⟩ := sectionStep_runOp { s with holder := rest } now hlast
        fun events heq => hsave ⟨events, heq⟩
      refine .inl ⟨⟨hstep.queueFile, hstep.persisted, hstep.expired, ?_⟩, ?_⟩
      · exact ⟨[], (List.append_nil _).trans hstep.historyFile.symm⟩
      · intro events _ heq
        exact absurd ⟨events, (List.cons.inj heq).1⟩ hsave
  | idle e hsave hcancel hadvance =>
    refine .inl ⟨.refl s, ?_⟩
    cases e with
    | saveQueue job => exact fun events hjob => absurd hjob (hsave job events rfl)
    | advance now =>
      intro events rest hholder
      rw [hadvance now rfl] at hholder
      cases hholder
    | enqueue | cloneQueue | cancel | tryFill | yield | park | replayEnds | interject | wake =>
      trivial

/-- A step that writes no queue file takes nothing out of the files. -/
lemma CrashSafe.quiet (hsafe : CrashSafe s) (h : Mirrors s) (h' : Mirrors s')
    (hquiet : Quiet s s') : CrashSafe s' := by
  rw [crashSafe_iff_files h] at hsafe
  rw [crashSafe_iff_files h', hquiet.queueFile, hquiet.persisted]
  intro n hn hlive
  refine (hsafe n hn fun hmem => hlive (hquiet.expired hmem)).imp_right fun hmem => ?_
  obtain ⟨rows, hrows⟩ := hquiet.historyFile
  rw [← hrows, delivered_append]
  exact List.mem_append_left _ hmem

/-- **A write of the queue file** is safe exactly when it keeps the events in flight. -/
lemma Writes.crashSafe_iff {events : List (Tagged PendingYieldEvent)} (hwrites : Writes s s' events)
    (hacc : Accounted (whereabouts s) (s.expired ++ s.lost) s.next) (h : Mirrors s)
    (h' : Mirrors s') : CrashSafe s' ↔ KeepsInFlight s events := by
  have hflight : ∀ n ∈ s.persisted, n ∉ s.expired →
      (n ∈ inFlight s ↔ n ∉ delivered s.historyFile) := fun n hn hexpired =>
    mem_inFlight_iff hacc h (h.lt_of_persisted hn) hexpired
  rw [crashSafe_iff_files h', hwrites.queueFile, hwrites.persisted, hwrites.expired,
    hwrites.historyFile]
  constructor
  · intro hsafe n hn hexpired hmem
    exact (hsafe n (List.mem_append_left _ hn) hexpired).resolve_right
      ((hflight n hn hexpired).1 hmem)
  · intro hkeeps n hn hexpired
    rcases List.mem_append.1 hn with hn | hn
    · by_cases hwritten : n ∈ delivered s.historyFile
      · exact .inr hwritten
      · exact .inl (hkeeps n hn hexpired ((hflight n hn hexpired).2 hwritten))
    · exact .inl hn

end

/-! ## Runs -/

/-- **Crash safety of a run**: from any queue file and history, a daemon that dies at any moment of
the run loses no event that a queue file has held exactly when every write of the queue file in the
run keeps those of them that are in flight. -/
theorem crashSafe_always_iff (events : List PendingYieldEvent) (messages : List ChatMessage)
    (es : List YieldEvent) :
    Run.Always yieldStep CrashSafe (startYield events messages) es ↔
      Run.EachStep yieldStep SavesInFlight (startYield events messages) es := by
  refine Run.always_iff_eachStep
    (I := fun s => Accounted (whereabouts s) (s.expired ++ s.lost) s.next ∧ Mirrors s)
    (fun s e h => ⟨accounted_yieldStep s e h.1, mirrors_yieldStep s e h.1 h.2⟩)
    (fun s e h hsafe => ?_)
    ⟨accounted_startYield events messages, mirrors_startYield events messages⟩ ?_
  · have h' := mirrors_yieldStep s e h.1 h.2
    rcases (yieldTransition_yieldStep s e).quiet_or_writes with
      ⟨hquiet, hsaves⟩ | ⟨written, hwrites, hsaves⟩
    · exact iff_of_true (hsafe.quiet h.2 h' hquiet) hsaves
    · rw [hwrites.crashSafe_iff h.1 h.2 h', hsaves]
  · rw [crashSafe_iff (accounted_startYield events messages) (mirrors_startYield events messages)]
    intro n hn _ _
    exact carried_numberEvents events ▸ hn

/-! ## A crash during a fill -/

namespace CrashedFill

/-- The call that the turn makes. -/
def call : ToolCall := { id := "y", name := "sessions_yield", arguments := "" }

/-- An event is queued and written to the queue file; then a turn yields, and its drain writes the
emptied queue. -/
def events : List YieldEvent :=
  .enqueue "done" 100 :: .cloneQueue 0 :: .saveQueue 0 :: .yield call ::
    List.replicate 6 (.advance 100)

end CrashedFill

open CrashedFill in
/-- **The event is lost** when the daemon dies before the result of the yield is written. -/
theorem not_crashSafe_crashedFill :
    ¬ Run.Always yieldStep CrashSafe (startYield [] []) events := by
  intro h
  have hlast := h.last
  revert hlast
  decide +kernel

end MyClaw
