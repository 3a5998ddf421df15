import MyClaw.Session.Manager
import MyClaw.Storage.Summaries

set_option autoImplicit false

/-!
# The history through compactions and restarts

A live session persists every message it adds, and a compaction replaces a range in memory and
rotates the file.  A restart reads the rows with an id above 0.  The summaries of the active
segment are inserted with id 0, so a restart loses them; nothing else of the history is lost, save
tool results that answer no declared call, which a reload removes.

## Main definitions

* `Live`, `LiveEvent`, `liveStep` — a session with its directory, and its
  turns, compactions and restarts.
* `ReloadsExactly` — a restart rebuilds the history that was in memory.
* `NothingToLose` — no summary in the active segment, no orphan result in memory.

## Main results

* `Mirrored.liveStep` — memory is the file with the recorded summaries between.
* `reloadsExactly_eachStep_iff` — in a run, every restart rebuilds the history exactly when
  every restart finds nothing to lose.
-/

namespace MyClaw

/-! ## The machine -/

/-- A session and its directory. -/
structure Live where
  dir : SessionDir
  session : Session

/-- What happens to a live session. -/
inductive LiveEvent
  /-- A message is added and persisted. -/
  | turn (msg : ChatMessage)
  /-- `apply_compaction`, `save_compaction` and `rotate_history`; the `/compact` command then also
  renumbers the ids in memory. -/
  | compact (compactStart compactEnd : Nat) (summary : String) (version : Nat)
      (upToMessage : Int) (summaryTokens : Nat) (renumber : Bool)
  /-- The process ends and the session is loaded again. -/
  | restart

/-- The ids `1, 2, …` that `/compact` gives to the messages in memory. -/
def renumberedIds (n : Nat) : List Int := (List.range n).map fun (i : Nat) => (i : Int) + 1

/-- The session after an event. A range that does not lie in the history is left out:
`Vec::drain` would panic on it. -/
def liveStep (J : Serde) (s : Live) : LiveEvent → Live
  | .turn msg =>
    let (dir, session) := (s.session.push msg).persistLast J s.dir
    { dir := dir, session := session }
  | .compact compactStart compactEnd summary version upToMessage summaryTokens renumber =>
    if compactStart ≤ compactEnd ∧ compactEnd ≤ s.session.history.length then
      let session := s.session.applyCompaction compactStart compactEnd
        (ChatMessage.userText summary) version upToMessage summaryTokens
      let dir := (s.dir.saveSummary
        { version := version, summary := summary, tokenEstimate := some summaryTokens }
          ).rotateHistoryImpl J (session.messageIds.zip session.history)
      { dir := dir
        session :=
          if renumber then { session with messageIds := renumberedIds session.messageIds.length }
          else session }
    else s
  | .restart => { s with session := loadSession J s.dir }

/-- A new session. -/
def newLive : Live := { dir := SessionDir.createSession, session := {} }

/-! ## The property and its condition -/

/-- A restart rebuilds the history that was in memory. -/
def ReloadsExactly (J : Serde) (s : Live) : LiveEvent → Prop
  | .restart => (loadSession J s.dir).history = s.session.history
  | _ => True

/-- A restart finds no summary in the active segment, and every tool result in memory answers a
call that some assistant message declares. -/
def NothingToLose (s : Live) : LiveEvent → Prop
  | .restart => activeSummaries s.dir = [] ∧ NoOrphanResult s.session.history
  | _ => True

/-! ## Memory mirrors the file -/

/-- **Memory is the file with the recorded summaries between**: the messages of the file stand in
the history in their order, and each further message is a summary of the active segment. -/
structure Mirrored (J : Serde) (s : Live) (m : SessionMeta) (arch : List SegmentRecord)
    (act : SegmentRecord) : Prop where
  tidy : Tidy J s.dir m arch act
  ids : s.session.messageIds.length = s.session.history.length
  sublist : (s.dir.messages J).Sublist s.session.history
  length : s.session.history.length = (s.dir.messages J).length + act.compactions.length

section

variable {J : Serde} {s : Live} {m : SessionMeta} {arch : List SegmentRecord}
  {act : SegmentRecord}

/-- The summaries of the active segment are its compactions. -/
lemma activeSummaries_eq (h : Shape s.dir m arch act) :
    activeSummaries s.dir = act.compactions := by
  simp [activeSummaries, h.metaJson, h.activeSeg]

/-- **One restart**: the history is rebuilt exactly when there is nothing to lose. -/
lemma Mirrored.reloadsExactly_iff (h : Mirrored J s m arch act) (e : LiveEvent) :
    ReloadsExactly J s e ↔ NothingToLose s e := by
  cases e with
  | turn msg => exact Iff.rfl
  | compact => exact Iff.rfl
  | restart =>
    have hfull : s.dir.messages J = s.session.history ↔ act.compactions = [] := by
      have hlen := h.length
      rw [← List.length_eq_zero_iff]
      constructor
      · intro heq
        rw [heq] at hlen
        omega
      · intro hz
        exact h.sublist.eq_of_length (by omega)
    simp only [ReloadsExactly, NothingToLose, h.tidy.history_loadSession h.tidy.startId_pos,
      activeSummaries_eq h.tidy.toShape, ← hfull]
    constructor
    · intro heq
      -- a reload that removes nothing has read every message of the memory
      have hle : (removeOrphanResults (s.dir.messages J)).length ≤ (s.dir.messages J).length :=
        List.length_filter_le _ _
      rw [heq] at hle
      have hms := h.sublist.eq_of_length_le hle
      rw [hms] at heq
      exact ⟨hms, removeOrphanResults_eq_self.1 heq⟩
    · rintro ⟨heq, hno⟩
      rw [← heq] at hno ⊢
      exact removeOrphanResults_eq_self.2 hno

/-! ## Steps -/

/-- A message of a turn keeps disk and memory together. -/
lemma Mirrored.turn (h : Mirrored J s m arch act) (msg : ChatMessage) :
    ∃ m' arch' act', Mirrored J (liveStep J s (.turn msg)) m' arch' act' := by
  have hstep : liveStep J s (.turn msg) =
      { dir := s.dir.apply J (.append msg), session := { s.session.push msg with
        messageIds := s.session.messageIds ++ [(m.messageCount : Int) + 1] } } := by
    simp only [liveStep, h.tidy.persistLast_push (J := J) s.session msg]
  rw [hstep]
  refine ⟨_, _, _, h.tidy.append msg, ?_, ?_, ?_⟩
  · simp [h.ids]
  · simp only [h.tidy.messages_append]
    exact h.sublist.append (List.Sublist.refl [msg])
  · have hlen := h.length
    simp only [h.tidy.messages_append, Session.history_push, List.length_append,
      List.length_singleton, SegmentRecord.incr]
    omega

/-- `save_summary` keeps a directory tidy. -/
lemma Tidy.saveSummary {d : SessionDir} (h : Tidy J d m arch act) (summary : SummaryRecord) :
    Tidy J (d.saveSummary summary) { m with
      compactVersion := summary.version
      compactTokenEstimate := summary.tokenEstimate } arch act where
  metaJson := by simp [SessionDir.saveSummary, SessionDir.modifyMeta, h.metaJson]
  segments := h.segments
  segment_act := h.segment_act
  sorted := h.sorted
  archive := h.archive
  ended := h.ended
  parses := h.parses
  count := h.count
  start := h.start
  below := h.below

/-- A rotation records each survivor as a message or as a summary. -/
lemma length_realMessages_add (version n : Nat) (surviving : List (Int × ChatMessage)) :
    (SessionDir.realMessages surviving).length +
      (SessionDir.newCompactions version n surviving).length = surviving.length := by
  induction surviving generalizing n with
  | nil => rfl
  | cons row rest ih =>
    obtain ⟨id, msg⟩ := row
    by_cases hid : id = 0
    · have hreal : SessionDir.realMessages ((id, msg) :: rest) = SessionDir.realMessages rest := by
        simp [SessionDir.realMessages, hid]
      have := ih n
      rw [hreal]
      simp only [SessionDir.newCompactions, hid, if_true, List.length_cons]
      omega
    · have hreal : SessionDir.realMessages ((id, msg) :: rest) =
          msg :: SessionDir.realMessages rest := by
        simp [SessionDir.realMessages, hid]
      have := ih (n + 1)
      rw [hreal]
      simp only [SessionDir.newCompactions, hid, if_false, List.length_cons]
      omega

/-- The real survivors of a session stand in its history in their order. -/
lemma realMessages_zip_sublist {ids : List Int} {history : List ChatMessage}
    (h : ids.length = history.length) :
    (SessionDir.realMessages (ids.zip history)).Sublist history := by
  have hsub : (SessionDir.realMessages (ids.zip history)).Sublist
      ((ids.zip history).map Prod.snd) := List.filter_sublist.map Prod.snd
  rwa [List.map_snd_zip h.ge] at hsub

/-- A compaction keeps the file as the memory is. -/
lemma Mirrored.compact (h : Mirrored J s m arch act) (compactStart compactEnd : Nat)
    (summary : String) (version : Nat) (upToMessage : Int) (summaryTokens : Nat)
    (renumber : Bool) :
    ∃ m' arch' act', Mirrored J (liveStep J s (.compact compactStart compactEnd summary version
      upToMessage summaryTokens renumber)) m' arch' act' := by
  by_cases hrange : compactStart ≤ compactEnd ∧ compactEnd ≤ s.session.history.length
  · set session := s.session.applyCompaction compactStart compactEnd
      (ChatMessage.userText summary) version upToMessage summaryTokens with hsession
    have hids : session.messageIds.length = session.history.length := by
      simp [hsession, Session.applyCompaction, h.ids]
    have ht := h.tidy.saveSummary
      { version := version, summary := summary, tokenEstimate := some summaryTokens }
    obtain ⟨m', -, h'⟩ := ht.rotate (session.messageIds.zip session.history)
    have hms := ht.messages_rotate (J := J) (session.messageIds.zip session.history)
    have hhist : (liveStep J s (.compact compactStart compactEnd summary version upToMessage
        summaryTokens renumber)).session.history = session.history := by
      simp only [liveStep, if_pos hrange, ← hsession]
      split <;> rfl
    have hdir : (liveStep J s (.compact compactStart compactEnd summary version upToMessage
        summaryTokens renumber)).dir = (s.dir.saveSummary
          { version := version, summary := summary, tokenEstimate := some summaryTokens }).apply J
            (.rotate (session.messageIds.zip session.history)) := by
      simp only [liveStep, if_pos hrange, ← hsession]
      rfl
    refine ⟨m', _, _, ⟨hdir ▸ h', ?_, ?_, ?_⟩⟩
    · rw [hhist]
      simp only [liveStep, if_pos hrange, ← hsession]
      split
      · simp [renumberedIds, hids]
      · exact hids
    · rw [hdir, hms, hhist]
      exact realMessages_zip_sublist hids
    · have hlen := length_realMessages_add version 0 (session.messageIds.zip session.history)
      rw [List.length_zip, hids, min_self] at hlen
      rw [hdir, hms, hhist]
      exact hlen.symm
  · refine ⟨m, arch, act, ?_⟩
    rw [show liveStep J s (.compact compactStart compactEnd summary version upToMessage
      summaryTokens renumber) = s from if_neg hrange]
    exact h

/-- **Steps of a live session**: a turn, a compaction, and a restart that rebuilds the history
exactly, keep the memory a mirror of the file. -/
theorem Mirrored.liveStep (h : Mirrored J s m arch act) (e : LiveEvent)
    (hexact : ReloadsExactly J s e) :
    ∃ m' arch' act', Mirrored J (liveStep J s e) m' arch' act' := by
  cases e with
  | turn msg => exact h.turn msg
  | compact => exact h.compact ..
  | restart =>
    have hnone := ((h.reloadsExactly_iff .restart).1 hexact).1
    rw [activeSummaries_eq h.tidy.toShape] at hnone
    have hlen := h.length
    have hms : s.dir.messages J = s.session.history :=
      h.sublist.eq_of_length (by simp [hlen, hnone])
    refine ⟨m, arch, act, h.tidy, length_messageIds_loadSession J s.dir, ?_, ?_⟩
    · rw [show (MyClaw.liveStep J s .restart).session.history = s.session.history from hexact]
      exact h.sublist
    · rw [show (MyClaw.liveStep J s .restart).session.history = s.session.history from hexact]
      exact hlen

end

/-- A new session mirrors its empty file. -/
lemma mirrored_newLive (J : Serde) : ∃ m arch act, Mirrored J newLive m arch act := by
  obtain ⟨m, act, h, -, hcomp⟩ := tidy_createSession J
  refine ⟨m, [], act, h, rfl, ?_, ?_⟩
  · simp [newLive, SessionDir.createSession, SessionDir.messages]
  · simp [newLive, SessionDir.createSession, SessionDir.messages, hcomp]

/-! ## Runs -/

/-- **The round trip of the history**: in any run of turns, compactions and restarts from a new
session, every restart rebuilds the history that was in memory exactly when every restart finds no
summary in the active segment and no orphan result in memory. -/
theorem reloadsExactly_eachStep_iff (J : Serde) (es : List LiveEvent) :
    Run.EachStep (liveStep J) (ReloadsExactly J) newLive es ↔
      Run.EachStep (liveStep J) NothingToLose newLive es := by
  refine Run.eachStep_iff (I := fun s => ∃ m arch act, Mirrored J s m arch act) ?_ ?_
    (mirrored_newLive J)
  · rintro s e ⟨m, arch, act, h⟩
    exact h.reloadsExactly_iff e
  · rintro s e ⟨m, arch, act, h⟩ hexact
    exact h.liveStep e hexact

/-! ## A compaction and a restart -/

namespace CompactThenRestart

/-- A user message, its answer, and a compaction of the user message. -/
def beforeRestart : List LiveEvent :=
  [.turn (ChatMessage.userText "hello"), .turn (ChatMessage.assistantText "hi"),
    .compact 0 1 "[CONTEXT COMPACTION — REFERENCE ONLY] greeting" 1 1 12 false]

/-- The summary is recorded in the active segment. -/
lemma activeSummaries_beforeRestart (J : Serde) :
    activeSummaries (Run.exec (liveStep J) newLive beforeRestart).dir =
      [{ position := 0, text := "[CONTEXT COMPACTION — REFERENCE ONLY] greeting", version := 1 }] := by
  have htext := ChatMessage.textContent_text "user" "[CONTEXT COMPACTION — REFERENCE ONLY] greeting"
  exact congrArg (fun t => [(⟨0, t, 1⟩ : CompactionEntry)]) htext

/-- They are so before the restart. -/
lemma mirrored_beforeRestart (J : Serde) : ∃ m arch act,
    Mirrored J (Run.exec (liveStep J) newLive beforeRestart) m arch act := by
  obtain ⟨_, _, _, h₀⟩ := mirrored_newLive J
  obtain ⟨_, _, _, h₁⟩ := h₀.turn (ChatMessage.userText "hello")
  obtain ⟨_, _, _, h₂⟩ := h₁.turn (ChatMessage.assistantText "hi")
  exact h₂.compact 0 1 "[CONTEXT COMPACTION — REFERENCE ONLY] greeting" 1 1 12 false

end CompactThenRestart

open CompactThenRestart in
/-- After one compaction a restart rebuilds the history without the summary. -/
theorem not_reloadsExactly_after_compaction :
    ¬ Run.EachStep (liveStep plainSerde) (ReloadsExactly plainSerde) newLive
      (beforeRestart ++ [.restart]) := by
  intro h
  have hlast : ReloadsExactly plainSerde
      (Run.exec (liveStep plainSerde) newLive beforeRestart) .restart := h.2.2.2.1
  obtain ⟨m, arch, act, hm⟩ := mirrored_beforeRestart plainSerde
  have hnone := ((hm.reloadsExactly_iff .restart).1 hlast).1
  rw [activeSummaries_beforeRestart] at hnone
  exact absurd hnone (by simp)

end MyClaw
