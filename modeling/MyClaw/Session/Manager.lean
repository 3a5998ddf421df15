import MyClaw.Session.Sanitize
import MyClaw.Storage.Tidy

set_option autoImplicit false

/-!
# Loading a session

`SessionManager::load_session` (`agents/session/manager.rs`) rebuilds a session from its directory:
the rows of the active segment with an id above 0, sanitized in one of two ways, and the pending
yield when the only unanswered call is a `sessions_yield`.

## Main definitions

* `loadSession` — the session that a restart rebuilds.

## Main results

* `Shape.loadIncremental_zero` — a reload reads the messages of the active file and none of
  the summaries.
* `Shape.history_loadSession` — the reloaded history is those messages without orphan
  results.
-/

namespace MyClaw

/-- The prefix of the call ids that `insert_implicit_yield` makes. -/
def implicitYieldPrefix : String := "call_implicit_yield_"

/-- `tool_call_id.starts_with("call_implicit_yield_")`. -/
def isImplicitYieldId (id : String) : Bool := implicitYieldPrefix.toList.isPrefixOf id.toList

/-- The pending yield that a reload reconstructs from the breakpoints. -/
def reconstructedYield (breakpoints : List BreakpointItem) : Option PendingYield :=
  match breakpoints with
  | [item] =>
    if item.toolName = "sessions_yield" then
      some { toolCallId := item.toolCallId, implicit := isImplicitYieldId item.toolCallId }
    else none
  | _ => none

/-- `load_session`. -/
def loadSession (J : Serde) (d : SessionDir) : Session :=
  let summary := d.loadLatestSummary
  let rows := d.loadIncremental J 0
  let breakpoints := identifyBreakpoint (rows.map Prod.snd)
  let kept :=
    if breakpoints ≠ [] then
      let known := knownToolIds (rows.map Prod.snd)
      rows.filter fun r => keepsResult known r.2
    else sanitizePaired rows
  let history := kept.map Prod.snd
  { history := history
    messageIds := kept.map Prod.fst
    compactVersion := (summary.map (·.version)).getD 0
    summaryMetadata := summary.map fun s =>
      { version := s.version, tokenEstimate := s.tokenEstimate.getD 0, upToMessage := 0 }
    incompleteTurn := historyHasIncompleteTurn history
    pendingYield := reconstructedYield breakpoints }

/-! ## The rows that a reload reads -/

section

variable {J : Serde} {d : SessionDir} {m : SessionMeta} {arch : List SegmentRecord}
  {act : SegmentRecord}

/-- **A reload reads no summary**: the rows with an id above 0 are the messages of the active file,
numbered from its start id on. -/
theorem Shape.loadIncremental_zero (h : Shape d m arch act) (hs : 0 < act.startId) :
    d.loadIncremental J 0 = numberFrom act.startId (d.messages J) := by
  have hrows : (numberFrom act.startId (d.messages J)).filter (fun r => decide ((0 : Int) < r.1)) =
      numberFrom act.startId (d.messages J) := by
    rw [List.filter_eq_self]
    intro r hr
    obtain ⟨i, hi, rfl⟩ := List.mem_mapIdx.1 hr
    simp only [decide_eq_true_eq]
    omega
  rw [← hrows, SessionDir.loadIncremental, SessionDir.readHistoryWithIds]
  simp only [h.metaJson, h.activeSeg, Option.map_some, Option.getD_some]
  cases hc : d.history with
  | none =>
    rw [filter_insertCompactions (by simp)]
    simp [SessionDir.messages, hc, numberFrom]
  | some c =>
    rw [filter_insertCompactions (by simp)]
    simp [SessionDir.messages, hc]

/-! ## The history that a reload rebuilds -/

/-- The messages of the rows that are kept. -/
lemma map_snd_filter_snd (p : ChatMessage → Bool) (rows : List (Int × ChatMessage)) :
    (rows.filter fun r => p r.2).map Prod.snd = (rows.map Prod.snd).filter p := by
  rw [List.filter_map]
  rfl

/-- When no call is open, no assistant message at the end has only unanswered calls. -/
lemma unfulfilled_eq_false_of_identifyBreakpoint_eq_nil {history : List ChatMessage}
    (h : identifyBreakpoint history = []) {msg : ChatMessage} (hm : msg ∈ history) :
    unfulfilled (fulfilledIds (removeOrphanResults history)) msg = false := by
  by_contra hu
  simp only [Bool.not_eq_false, unfulfilled, Bool.and_eq_true, decide_eq_true_eq,
    Bool.not_eq_true', List.isEmpty_eq_false_iff, List.all_eq_true] at hu
  obtain ⟨⟨hrole, hne⟩, hall⟩ := hu
  obtain ⟨tc, htc⟩ := List.exists_mem_of_ne_nil _ hne
  have hdecl : Declared history tc.id :=
    ⟨msg, hm, hrole, List.mem_map.2 ⟨tc, htc, rfl⟩⟩
  have hno : ¬ Answered history tc.id := by
    rintro ⟨r, hr, hrt, hrid⟩
    -- the answering message is no orphan, so the filter keeps it
    have hkept : r ∈ removeOrphanResults history := by
      rw [removeOrphanResults, List.mem_filter]
      exact ⟨hr, keepsResult_eq_true.2 fun _ => ⟨tc.id, hrid, mem_knownToolIds.2 hdecl⟩⟩
    have hful : tc.id ∈ fulfilledIds (removeOrphanResults history) :=
      mem_fulfilledIds.2 ⟨r, hkept, hrt, hrid⟩
    have := hall tc htc
    simp [hful] at this
  have := mem_identifyBreakpoint_of_openCall ⟨hdecl, hno⟩
  rw [h] at this
  simp [pendingIds] at this

/-- `sanitize_paired` on a history without breakpoints removes the orphan results only. -/
lemma map_snd_sanitizePaired {rows : List (Int × ChatMessage)}
    (h : identifyBreakpoint (rows.map Prod.snd) = []) :
    (sanitizePaired rows).map Prod.snd = removeOrphanResults (rows.map Prod.snd) := by
  have hresult : ((rows.filter fun p => keepsResult (knownToolIds (rows.map Prod.snd)) p.2).map
      Prod.snd) = removeOrphanResults (rows.map Prod.snd) := map_snd_filter_snd _ _
  simp only [sanitizePaired, hresult]
  rw [List.rdropWhile_eq_self_iff.2, hresult]
  intro hne
  have hmem := List.getLast_mem hne
  have hraw := (List.mem_filter.1 hmem).1
  rw [unfulfilled_eq_false_of_identifyBreakpoint_eq_nil h (List.mem_map_of_mem hraw)]
  decide

/-- **The reloaded history** is the messages of the active file without the orphan results. -/
theorem Shape.history_loadSession (h : Shape d m arch act) (hs : 0 < act.startId) :
    (loadSession J d).history = removeOrphanResults (d.messages J) := by
  simp only [loadSession, h.loadIncremental_zero hs]
  split
  case isTrue =>
    rw [map_snd_filter_snd, map_snd_numberFrom]
    rfl
  case isFalse hb =>
    rw [not_not, map_snd_numberFrom] at hb
    rw [map_snd_sanitizePaired (by rw [map_snd_numberFrom]; exact hb), map_snd_numberFrom]

/-- The pending yield of a reload comes from the messages of the active file. -/
theorem Shape.pendingYield_loadSession (h : Shape d m arch act) (hs : 0 < act.startId) :
    (loadSession J d).pendingYield =
      reconstructedYield (identifyBreakpoint (d.messages J)) := by
  simp only [loadSession, h.loadIncremental_zero hs, map_snd_numberFrom]

/-- **A reload keeps the open calls** of the active file: only results of calls that no message
declares are dropped. -/
theorem openCall_removeOrphanResults {history : List ChatMessage} {id : String} :
    OpenCall (removeOrphanResults history) id ↔ OpenCall history id := by
  have hdecl : Declared (removeOrphanResults history) id ↔ Declared history id := by
    simp only [Declared, removeOrphanResults, List.mem_filter, and_assoc]
    refine exists_congr fun m => and_congr_right fun _ => and_iff_right_of_imp ?_
    rintro ⟨ha, -⟩
    exact keepsResult_eq_true.2 fun ht => absurd (ha.symm.trans ht) (by decide)
  unfold OpenCall
  rw [hdecl]
  refine and_congr_right fun hd => not_congr ?_
  constructor
  · rintro ⟨m, hm, hans⟩
    exact ⟨m, List.mem_of_mem_filter hm, hans⟩
  · rintro ⟨m, hm, ht, hid⟩
    exact ⟨m, List.mem_filter.2 ⟨hm, keepsResult_eq_true.2 fun _ =>
      ⟨id, hid, mem_knownToolIds.2 hd⟩⟩, ht, hid⟩

/-- Ids and messages of a reloaded session are paired. -/
lemma length_messageIds_loadSession (J : Serde) (d : SessionDir) :
    (loadSession J d).messageIds.length = (loadSession J d).history.length := by
  simp [loadSession]

/-! ## Persisting a message -/

/-- A message that is added and persisted is one more line of the file, and its slot gets the id
that the append returns. -/
theorem Shape.persistLast_push (h : Shape d m arch act) (s : Session) (msg : ChatMessage) :
    (s.push msg).persistLast J d = (d.apply J (.append msg),
      { s.push msg with messageIds := s.messageIds ++ [(m.messageCount : Int) + 1] }) := by
  have hid := h.appendMessage_id (J := J) msg
  have hset : Session.setLast (s.messageIds ++ [0]) ((m.messageCount : Int) + 1) =
      s.messageIds ++ [(m.messageCount : Int) + 1] := by simp [Session.setLast]
  cases ha : d.appendMessage J msg with
  | none => simp [ha] at hid
  | some p =>
    simp only [ha, Option.map_some, Option.some.injEq] at hid
    simp [Session.persistLast, Session.push, SessionDir.apply, ha, hid, hset]

end

end MyClaw
