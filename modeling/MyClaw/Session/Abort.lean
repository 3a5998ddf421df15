import MyClaw.Session.Breakpoint
import MyClaw.Storage.Summaries
import Mathlib.Data.List.DropRight

set_option autoImplicit false

/-!
# Aborting an interrupted turn

The abort button of the retry prompt (`agents/orchestrator/inbound.rs`, interceptor `Callback`)
closes the open tail of a history: user messages at the end are dropped, and an open tool round is
filled with cancelled results and closed by an assistant message.  The caller then repeats the
change on disk, and counts the messages to keep in memory, where the compaction summaries stand
among the messages, while the file has none of them.

## Main definitions

* `Session.closeIncompleteTurnOnAbort` — the change in memory.
* `abortCallback` — the abort branch, with the change on disk.
* `AbortSettles` — the backend yields the history in memory, and it has no open turn.
* `AbortsCleanly` — the condition on the state before the abort.

## Main results

* `messages_truncateMessages` — what a truncation leaves of the messages of the file.
* `abortSettles_iff` — from a session whose history is the one on disk, an abort settles it
  exactly when it aborts cleanly.
* `not_abortSettles_summaryThenUser` — a summary, an answer and a user message.

## Implementation notes

The session lock is taken with `try_lock`, so the branch does nothing while a turn holds it; `locked`
says whether that is the case.  The persistence hook of the session is the JSON-file backend.
-/

namespace MyClaw

open Lines

/-! ## The change in memory -/

/-- The walk of `close_incomplete_turn_on_abort` from the last message backwards: the calls of the
last assistant message that no result after it answers, and whether there are results after it. -/
def openRound (completed : List String) (trailingTools : Bool) :
    List ChatMessage → List ToolCall × Bool
  | [] => ([], trailingTools)
  | msg :: rest =>
    if msg.role = "tool" then openRound (msg.toolCallId.toList ++ completed) true rest
    else if msg.role = "assistant" then
      (msg.calls.filter fun call => !completed.contains call.id, trailingTools)
    else ([], trailingTools)

/-- The messages that stay when the user messages at the end are dropped. -/
def withoutTrailingUsers (history : List ChatMessage) : List ChatMessage :=
  history.rdropWhile (·.role = "user")

/-- `close_incomplete_turn_on_abort`: the closed session and the number of dropped messages. -/
def Session.closeIncompleteTurnOnAbort (s : Session) : Session × Nat :=
  match s.history.getLast? with
  | none => ({ s with incompleteTurn := false }, 0)
  | some last =>
    if last.role = "user" then
      let kept := withoutTrailingUsers s.history
      let removed := s.history.length - kept.length
      ({ s with
          history := kept
          messageIds := s.messageIds.rdrop removed
          incompleteTurn := false }, removed)
    else
      let (pendingCalls, hasTrailingTools) := openRound [] false s.history.reverse
      if pendingCalls.isEmpty && !hasTrailingTools then ({ s with incompleteTurn := false }, 0)
      else
        let s := pendingCalls.foldl (fun s call =>
          s.addToolResult call.id call.name "cancelled: aborted by user" true) s
        ({ s.addAssistant "（已取消）" with incompleteTurn := false }, 0)

/-! ## The abort branch -/

/-- `persist_message` of the message at an index, with the id of the append in its slot. -/
def persistAt (J : Serde) (p : SessionDir × Session) (idx : Nat) : SessionDir × Session :=
  match p.2.history[idx]? with
  | none => p
  | some msg =>
    match p.1.appendMessage J msg with
    | none => p
    | some (d, id) => (d, { p.2 with messageIds := p.2.messageIds.set idx id })

/-- The abort branch of the `Callback` interceptor. -/
def abortCallback (J : Serde) (locked : Bool) (d : SessionDir) (s : Session) :
    SessionDir × Session :=
  if locked then (d, s)
  else
    let beforeLen := s.history.length
    let (s, removed) := s.closeIncompleteTurnOnAbort
    let s := { s with incompleteTurn := false }
    if 0 < removed then (d.truncateMessages (beforeLen - removed), s)
    else if beforeLen < s.history.length then
      (List.range' beforeLen (s.history.length - beforeLen)).foldl (persistAt J) (d, s)
    else (d, s)

/-! ## The property and its condition -/

/-- **Memory and disk agree after an abort**, on a history without an open turn. -/
def AbortSettles (J : Serde) (locked : Bool) (d : SessionDir) (s : Session) : Prop :=
  (abortCallback J locked d s).1.loadMessages J = (abortCallback J locked d s).2.history ∧
    historyHasIncompleteTurn ((abortCallback J locked d s).1.loadMessages J) = false

/-- The messages that the first `k` non-empty lines of the file hold. -/
def firstMessages (J : Serde) (d : SessionDir) (k : Nat) : List ChatMessage :=
  (((splitLF (d.history.getD [])).filter (· ≠ [])).take k).filterMap J.readLine

/-- The first `k` lines, read with the summaries that find their place among them, make `k`
messages. -/
def KeepsLines (J : Serde) (d : SessionDir) (k : Nat) : Prop :=
  (firstMessages J d k).length + placed (activeSummaries d) (firstMessages J d k).length = k

/-- A message that ends no open round: no tool result, and no assistant message with calls. -/
def EndsRound (msg : ChatMessage) : Prop :=
  msg.role ≠ "tool" ∧ (msg.role = "assistant" → msg.callIds = [])

/-- The messages that close the open round at the end of a history; none if there is no such
round. -/
def closingMessages (history : List ChatMessage) : List ChatMessage :=
  let (pendingCalls, hasTrailingTools) := openRound [] false history.reverse
  if pendingCalls.isEmpty && !hasTrailingTools then []
  else
    pendingCalls.map (fun call =>
      toolResult call.id (some call.name) "cancelled: aborted by user" true) ++
      [ChatMessage.assistantText "（已取消）"]

/-- Appended messages are read after those of the file: the first one does not run into an open
line, and no summary that had no place so far gets one. -/
def TakesMessages (J : Serde) (d : SessionDir) (new : List ChatMessage) : Prop :=
  (∀ first ∈ new.head?, J.readLine (openLine (d.history.getD [])) = none ∧
    J.readLine (openLine (d.history.getD []) ++ J.toString first) = some first) ∧
  placed (activeSummaries d) ((d.messages J).length + new.length) =
    placed (activeSummaries d) (d.messages J).length

/-- **The condition**: while a turn holds the lock there is no open turn; user messages at the end
come after a closed round, and the lines to keep are counted right; and the file takes the messages
that close an open round. -/
def AbortsCleanly (J : Serde) (locked : Bool) (d : SessionDir) (s : Session) : Prop :=
  if locked then historyHasIncompleteTurn s.history = false
  else if ∃ last ∈ s.history.getLast?, last.role = "user" then
    KeepsLines J d (withoutTrailingUsers s.history).length ∧
      ∀ last ∈ (withoutTrailingUsers s.history).getLast?, EndsRound last
  else TakesMessages J d (closingMessages s.history)

/-! ## Truncation and appends on disk -/

section

variable {J : Serde} {d : SessionDir} {m : SessionMeta}

/-- The first item that is updated is the one that is found. -/
lemma find?_updateFirst {α : Type*} {p : α → Bool} {f : α → α} (hf : ∀ a, p (f a) = p a)
    (l : List α) : (updateFirst p f l).find? p = (l.find? p).map f := by
  induction l with
  | nil => rfl
  | cons a l ih =>
    unfold updateFirst
    by_cases hp : p a = true
    · rw [if_pos hp, List.find?_cons_of_pos (by rw [hf, hp]), List.find?_cons_of_pos hp]
      rfl
    · rw [if_neg hp, List.find?_cons_of_neg hp, List.find?_cons_of_neg hp, ih]

/-- A change of the active record's counter keeps its summaries. -/
lemma summaries_updateActive {f : SegmentRecord → SegmentRecord}
    (hsegment : ∀ s, (f s).segment = s.segment) (hcomps : ∀ s, (f s).compactions = s.compactions) :
    (m.updateActive f).summaries = m.summaries := by
  unfold SessionMeta.summaries SessionMeta.activeSeg SessionMeta.updateActive
  rw [find?_updateFirst fun s => by rw [hsegment], Option.map_map]
  exact congrArg (Option.getD · []) (congrArg (Option.map · _) (funext hcomps))

/-- No line has a line feed. -/
lemma lineList_splitLF (c : Bytes) : LineList (splitLF c) := by
  obtain ⟨ls, t, hl, ht, rfl⟩ := exists_unlines_append c
  rw [splitLF_unlines_append hl ht]
  exact hl.append fun l hmem => by rwa [List.mem_singleton.1 hmem]

/-- **What a truncation leaves**: the messages of the first lines. -/
theorem messages_truncateMessages (J : Serde) (d : SessionDir) (k : Nat) :
    (d.truncateMessages k).messages J = firstMessages J d k := by
  unfold SessionDir.truncateMessages firstMessages
  cases hc : d.history with
  | none => simp [SessionDir.messages, hc, splitLF]
  | some content =>
    dsimp only [Option.getD_some]
    split_ifs with hle
    · rw [List.take_of_length_le hle, filterMap_filter_ne_nil, filterMap_splitLF]
      simp [SessionDir.messages, hc]
    · have hlines : LineList (((splitLF content).filter (· ≠ [])).take k) :=
        (lineList_splitLF content).sublist ((List.take_sublist _ _).trans List.filter_sublist)
      exact J.messages_joinLines hlines

/-- The first lines hold the first messages. -/
lemma firstMessages_isPrefix (J : Serde) (d : SessionDir) (k : Nat) :
    firstMessages J d k <+: d.messages J := by
  have hall : d.messages J =
      ((splitLF (d.history.getD [])).filter (· ≠ [])).filterMap J.readLine := by
    rw [filterMap_filter_ne_nil, filterMap_splitLF, messages_eq_getD]
  rw [hall]
  exact (List.take_prefix _ _).filterMap _

/-- A truncation keeps the summaries of the metadata. -/
lemma truncateMessages_metaJson (hm : d.metaJson = some m) (k : Nat) :
    ∃ m', (d.truncateMessages k).metaJson = some m' ∧ m'.summaries = m.summaries := by
  unfold SessionDir.truncateMessages
  cases d.history with
  | none => exact ⟨m, hm, rfl⟩
  | some content =>
    dsimp only
    split_ifs
    · exact ⟨m, hm, rfl⟩
    · refine ⟨_, by rw [SessionDir.modifyMeta, hm]; rfl, ?_⟩
      exact summaries_updateActive (m := m) (f := fun s => { s with count := k }) (fun _ => rfl)
        fun _ => rfl

/-- One append: the summaries stay, and the line comes after the content. -/
lemma apply_append_of_metaJson (hm : d.metaJson = some m) (msg : ChatMessage) :
    ∃ m', (d.apply J (.append msg)).metaJson = some m' ∧ m'.summaries = m.summaries ∧
      (d.apply J (.append msg)).history =
        some (d.history.getD [] ++ (J.toString msg ++ [lf])) := by
  obtain ⟨metaJson, history, archive⟩ := d
  simp only at hm
  subst hm
  exact ⟨_, rfl, summaries_updateActive (fun _ => rfl) fun _ => rfl, rfl⟩

/-- **Appends** write their lines after the content and keep the summaries. -/
lemma foldl_append (new : List ChatMessage) (hm : d.metaJson = some m) :
    ∃ m', (new.foldl (fun d msg => d.apply J (.append msg)) d).metaJson = some m' ∧
      m'.summaries = m.summaries ∧
      (new.foldl (fun d msg => d.apply J (.append msg)) d).history.getD [] =
        d.history.getD [] ++ J.writeMessages new := by
  induction new generalizing d m with
  | nil => exact ⟨m, hm, rfl, by simp [Serde.writeMessages, unlines]⟩
  | cons msg new ih =>
    obtain ⟨m₁, hm₁, hsum₁, hhist₁⟩ := apply_append_of_metaJson (J := J) hm msg
    obtain ⟨m₂, hm₂, hsum₂, hhist₂⟩ := ih hm₁
    refine ⟨m₂, hm₂, hsum₂.trans hsum₁, ?_⟩
    rw [List.foldl_cons, hhist₂, hhist₁]
    simp [Serde.writeMessages, unlines]

/-- A file that ends with a line feed. -/
lemma ended_append_lf (c : Bytes) : Ended (c ++ [lf]) := .inr List.getLast?_concat

/-- **Messages after appends**: only the first record can run into an open line. -/
lemma messages_append_writeMessages (J : Serde) (c : Bytes) (first : ChatMessage)
    (rest : List ChatMessage) :
    ∃ ms, J.messages c = ms ++ (J.readLine (openLine c)).toList ∧
      J.messages (c ++ J.writeMessages (first :: rest)) =
        ms ++ (J.readLine (openLine c ++ J.toString first)).toList ++ rest := by
  obtain ⟨ms, hc, hfirst⟩ := messages_append J c first
  refine ⟨ms, hc, ?_⟩
  have hsplit : c ++ J.writeMessages (first :: rest) =
      c ++ (J.toString first ++ [lf]) ++ J.writeMessages rest := by
    simp [Serde.writeMessages, unlines]
  have hended : Ended (c ++ (J.toString first ++ [lf])) := by
    rw [← List.append_assoc]
    exact ended_append_lf _
  rw [hsplit, J.messages_eq, rawLines_append_of_ended hended, List.filterMap_append,
    ← J.messages_eq, ← J.messages_eq, J.messages_writeMessages, hfirst]

/-! ## Open tails -/

/-- A tail that was found open stays open. -/
lemma openTail_true (completed : List String) (l : List ChatMessage) :
    openTail completed true l = true := by
  induction l generalizing completed with
  | nil => rfl
  | cons msg rest ih =>
    unfold openTail
    split_ifs
    · exact ih _
    · exact Bool.or_true _
    · rfl

/-- The walk over the open round finds nothing exactly when the tail is closed. -/
lemma openRound_closed_iff (completed : List String) (trailing : Bool) (l : List ChatMessage) :
    ((openRound completed trailing l).1.isEmpty && !(openRound completed trailing l).2) = true ↔
      openTail completed trailing l = false := by
  induction l generalizing completed trailing with
  | nil => cases trailing <;> simp [openRound, openTail]
  | cons msg rest ih =>
    unfold openTail openRound
    split_ifs
    · exact ih _ _
    · simp [ChatMessage.callIds]
    · cases trailing <;> simp

/-- A history that does not end with a user message has an open turn when its tail is open. -/
lemma historyHasIncompleteTurn_of_not_user {history : List ChatMessage}
    (h : ¬ ∃ last ∈ history.getLast?, last.role = "user") :
    historyHasIncompleteTurn history = openTail [] false history.reverse := by
  unfold historyHasIncompleteTurn
  cases hlast : history.getLast? with
  | none =>
    rw [List.getLast?_eq_none_iff.1 hlast]
    rfl
  | some last => exact if_neg fun hrole => h ⟨last, hlast, hrole⟩

/-- Before any result is read, the last message decides. -/
lemma openTail_nil_iff (l : List ChatMessage) :
    openTail [] false l = false ↔ ∀ last ∈ l.head?, EndsRound last := by
  cases l with
  | nil => exact iff_of_true rfl (by simp)
  | cons msg rest =>
    unfold openTail EndsRound
    split_ifs with htool hassistant
    · simp [openTail_true, htool]
    · simp [hassistant, List.eq_nil_iff_forall_not_mem]
    · simp [htool, hassistant]

/-- What stays does not end with a user message. -/
lemma not_user_withoutTrailingUsers (history : List ChatMessage) :
    ¬ ∃ last ∈ (withoutTrailingUsers history).getLast?, last.role = "user" := by
  rintro ⟨last, hlast, hrole⟩
  obtain ⟨hne, rfl⟩ := List.mem_getLast?_eq_getLast hlast
  exact List.rdropWhile_last_not _ _ hne (decide_eq_true hrole)

/-- What stays has no open turn exactly when its last message ends no open round. -/
lemma historyHasIncompleteTurn_withoutTrailingUsers (history : List ChatMessage) :
    historyHasIncompleteTurn (withoutTrailingUsers history) = false ↔
      ∀ last ∈ (withoutTrailingUsers history).getLast?, EndsRound last := by
  rw [historyHasIncompleteTurn_of_not_user (not_user_withoutTrailingUsers history),
    openTail_nil_iff, List.head?_reverse]

/-- A history whose open round is closed has no open turn. -/
lemma historyHasIncompleteTurn_closing {history : List ChatMessage}
    (h : ¬ ∃ last ∈ history.getLast?, last.role = "user") :
    historyHasIncompleteTurn (history ++ closingMessages history) = false := by
  unfold closingMessages
  dsimp only
  split_ifs with hclosed
  · rw [List.append_nil, historyHasIncompleteTurn_of_not_user h]
    exact (openRound_closed_iff _ _ _).1 hclosed
  · rw [← List.append_assoc]
    have hlast : ¬ ∃ last ∈ (history ++ ((openRound [] false history.reverse).1.map fun call =>
        toolResult call.id (some call.name) "cancelled: aborted by user" true) ++
          [ChatMessage.assistantText "（已取消）"]).getLast?, last.role = "user" := by
      rw [List.getLast?_concat]
      rintro ⟨last, hlast, hrole⟩
      cases hlast
      exact absurd hrole (by decide)
    rw [historyHasIncompleteTurn_of_not_user hlast, List.reverse_concat, openTail_nil_iff]
    rintro last hlast
    cases hlast
    exact ⟨by decide, fun _ => rfl⟩

/-! ## The branch -/

/-- Closure messages are added in memory. -/
lemma history_foldl_addToolResult (calls : List ToolCall) (s : Session) :
    (calls.foldl (fun s call =>
        s.addToolResult call.id call.name "cancelled: aborted by user" true) s).history =
      s.history ++ calls.map fun call =>
        toolResult call.id (some call.name) "cancelled: aborted by user" true := by
  induction calls generalizing s with
  | nil => simp
  | cons call calls ih =>
    rw [List.foldl_cons, ih]
    simp [Session.addToolResult]

/-- **In memory** an open round is closed by the closing messages. -/
lemma closeIncompleteTurnOnAbort_of_not_user {s : Session}
    (h : ¬ ∃ last ∈ s.history.getLast?, last.role = "user") :
    s.closeIncompleteTurnOnAbort.1.history = s.history ++ closingMessages s.history ∧
      s.closeIncompleteTurnOnAbort.2 = 0 := by
  unfold Session.closeIncompleteTurnOnAbort closingMessages
  cases hlast : s.history.getLast? with
  | none =>
    rw [List.getLast?_eq_none_iff.1 hlast]
    exact ⟨rfl, rfl⟩
  | some last =>
    dsimp only
    rw [if_neg fun hrole => h ⟨last, hlast, hrole⟩]
    split_ifs with hclosed
    · exact ⟨(List.append_nil _).symm, rfl⟩
    · refine ⟨?_, rfl⟩
      have hblank : isBlank "（已取消）" = false := by decide
      simp [Session.addAssistant, hblank, history_foldl_addToolResult]

/-- **On disk** the messages from an index on are appended. -/
lemma foldl_persistAt (new old : List ChatMessage) (d : SessionDir) (s : Session)
    (h : s.history = old ++ new) :
    ((List.range' old.length new.length).foldl (persistAt J) (d, s)).1 =
        new.foldl (fun d msg => d.apply J (.append msg)) d ∧
      ((List.range' old.length new.length).foldl (persistAt J) (d, s)).2.history = s.history := by
  induction new generalizing old d s with
  | nil => exact ⟨rfl, rfl⟩
  | cons msg new ih =>
    have hmsg : s.history[old.length]? = some msg := by rw [h]; simp
    obtain ⟨hdir, hhist⟩ : (persistAt J (d, s) old.length).1 = d.apply J (.append msg) ∧
        (persistAt J (d, s) old.length).2.history = s.history := by
      unfold persistAt
      simp only [hmsg, SessionDir.apply]
      cases d.appendMessage J msg <;> exact ⟨rfl, rfl⟩
    have hold : (persistAt J (d, s) old.length).2.history = old ++ [msg] ++ new := by
      rw [hhist, h]
      simp
    obtain ⟨ih₁, ih₂⟩ := ih (old ++ [msg]) (persistAt J (d, s) old.length).1 _ hold
    rw [List.length_append, List.length_singleton] at ih₁ ih₂
    rw [List.length_cons, List.range'_succ, List.foldl_cons, List.foldl_cons, ← hdir, ← hhist]
    exact ⟨ih₁, ih₂⟩

/-- The branch on a history that does not end with a user message. -/
lemma abortCallback_of_not_user {d : SessionDir} {s : Session}
    (h : ¬ ∃ last ∈ s.history.getLast?, last.role = "user") :
    (abortCallback J false d s).1 =
        (closingMessages s.history).foldl (fun d msg => d.apply J (.append msg)) d ∧
      (abortCallback J false d s).2.history = s.history ++ closingMessages s.history := by
  obtain ⟨hhist, hzero⟩ := closeIncompleteTurnOnAbort_of_not_user h
  unfold abortCallback
  rw [if_neg Bool.false_ne_true]
  dsimp only
  rw [hzero, if_neg (Nat.lt_irrefl 0)]
  generalize s.closeIncompleteTurnOnAbort.1 = closed at hhist ⊢
  have hlen : closed.history.length = s.history.length + (closingMessages s.history).length := by
    rw [hhist, List.length_append]
  rw [hlen, Nat.add_sub_cancel_left]
  by_cases hnil : closingMessages s.history = []
  · rw [if_neg (by simp [hnil]), hnil]
    exact ⟨rfl, by rw [hhist, hnil]⟩
  · have hpos := List.length_pos_iff.2 hnil
    rw [if_pos (by omega)]
    obtain ⟨hdir, hkeep⟩ := foldl_persistAt (J := J) (closingMessages s.history) s.history d
      { closed with incompleteTurn := false } hhist
    exact ⟨hdir, hkeep.trans hhist⟩

/-- A user message at the end is dropped. -/
lemma length_withoutTrailingUsers_lt {history : List ChatMessage}
    (h : ∃ last ∈ history.getLast?, last.role = "user") :
    (withoutTrailingUsers history).length < history.length := by
  refine lt_of_le_of_ne (List.rdropWhile_prefix _ _).length_le fun heq => ?_
  have hself : withoutTrailingUsers history = history :=
    (List.rdropWhile_prefix _ _).eq_of_length heq
  refine not_user_withoutTrailingUsers history ?_
  rwa [hself]

/-- The branch on a history that ends with a user message. -/
lemma abortCallback_of_user {d : SessionDir} {s : Session}
    (h : ∃ last ∈ s.history.getLast?, last.role = "user") :
    (abortCallback J false d s).1 =
        d.truncateMessages (withoutTrailingUsers s.history).length ∧
      (abortCallback J false d s).2.history = withoutTrailingUsers s.history := by
  have hlt := length_withoutTrailingUsers_lt h
  obtain ⟨last, hlast, hrole⟩ := h
  unfold abortCallback Session.closeIncompleteTurnOnAbort
  rw [if_neg Bool.false_ne_true]
  simp only [Option.mem_def.1 hlast, hrole, if_true]
  rw [if_pos (by omega), Nat.sub_sub_self hlt.le]
  exact ⟨rfl, rfl⟩

/-! ## Memory and disk after the abort -/

/-- **Dropped user messages** are dropped on disk exactly when the lines to keep are counted
right. -/
lemma loadMessages_truncateMessages_iff {history : List ChatMessage} (hm : d.metaJson = some m)
    (h : d.loadMessages J = history) :
    (d.truncateMessages (withoutTrailingUsers history).length).loadMessages J =
        withoutTrailingUsers history ↔
      KeepsLines J d (withoutTrailingUsers history).length := by
  obtain ⟨m', hm', hsum⟩ := truncateMessages_metaJson hm (withoutTrailingUsers history).length
  rw [loadMessages_eq hm', hsum, messages_truncateMessages, KeepsLines, activeSummaries_of_metaJson hm,
    ← length_withSummaries]
  constructor
  · exact congrArg List.length
  · intro hlen
    have hread := withSummaries_isPrefix m.summaries
      (firstMessages_isPrefix J d (withoutTrailingUsers history).length)
    rw [← loadMessages_eq hm, h] at hread
    have hkept : withoutTrailingUsers history <+: history := List.rdropWhile_prefix _ _
    exact (List.prefix_of_prefix_length_le hread hkept hlen.le).eq_of_length hlen

/-- What a reader yields holds the messages of the file that are no user messages, in order. -/
lemma filter_withSummaries (comps : List CompactionEntry) (ms : List ChatMessage) :
    (withSummaries comps ms).filter (·.role ≠ "user") = ms.filter (·.role ≠ "user") := by
  induction comps generalizing ms with
  | nil => rfl
  | cons comp comps ih =>
    rw [withSummaries_cons, ih]
    unfold insertSummary
    split_ifs
    · exact filter_insertIdx_of_neg (by simp [ChatMessage.userText]) _ _
    · rfl

/-- A file that ends with a user message is read as a history that does. -/
lemma user_getLast_withSummaries (comps : List CompactionEntry) {ms : List ChatMessage}
    (h : ∃ last ∈ ms.getLast?, last.role = "user") :
    ∃ last ∈ (withSummaries comps ms).getLast?, last.role = "user" := by
  induction comps generalizing ms with
  | nil => exact h
  | cons comp comps ih =>
    refine ih ?_
    obtain ⟨last, hlast, hrole⟩ := h
    obtain ⟨init, rfl⟩ := List.getLast?_eq_some_iff.1 hlast
    unfold insertSummary
    split_ifs with hle
    · rcases Nat.lt_or_ge init.length comp.position with hlt | hle'
      · have hend : comp.position = (init ++ [last]).length := by
          rw [List.length_append, List.length_singleton] at hle ⊢
          omega
        rw [hend, List.insertIdx_length_self]
        exact ⟨_, List.getLast?_concat, rfl⟩
      · rw [insertIdx_append_of_le _ _ hle']
        exact ⟨_, List.getLast?_concat, hrole⟩
    · exact ⟨last, hlast, hrole⟩

/-- The messages that close a round are no user messages. -/
lemma filter_closingMessages (history : List ChatMessage) :
    (closingMessages history).filter (·.role ≠ "user") = closingMessages history := by
  rw [List.filter_eq_self]
  unfold closingMessages
  dsimp only
  split_ifs
  · simp
  · intro msg hmsg
    rcases List.mem_append.1 hmsg with hmsg | hmsg
    · obtain ⟨call, -, rfl⟩ := List.mem_map.1 hmsg
      simp
    · rw [List.mem_singleton.1 hmsg]
      decide

/-- An option that gets an item that passes is this item. -/
lemma eq_some_of_filter_toList {α : Type*} {p : α → Bool} {o g : Option α} {a : α}
    (h : g.toList.filter p = o.toList.filter p ++ [a]) : g = some a ∧ ∀ x ∈ o, p x = false := by
  have hlen := congrArg List.length h
  rw [List.length_append, List.length_singleton] at hlen
  have hg : (g.toList.filter p).length ≤ 1 :=
    (List.length_filter_le _ _).trans (by cases g <;> simp)
  have ho : o.toList.filter p = [] := List.length_eq_zero_iff.1 (by omega)
  rw [ho, List.nil_append] at h
  constructor
  · cases g with
    | none => cases h
    | some b =>
      have hmem : a ∈ (some b).toList := List.mem_of_mem_filter (h ▸ List.mem_singleton_self a)
      rw [List.mem_singleton.1 hmem]
  · intro x hx
    simpa using List.filter_eq_nil_iff.1 ho x (Option.mem_toList.2 hx)

/-- **The closing messages** are read after the history exactly when the file takes them. -/
lemma loadMessages_foldl_append_iff {history : List ChatMessage} (hm : d.metaJson = some m)
    (h : d.loadMessages J = history) (huser : ¬ ∃ last ∈ history.getLast?, last.role = "user") :
    ((closingMessages history).foldl (fun d msg => d.apply J (.append msg)) d).loadMessages J =
        history ++ closingMessages history ↔
      TakesMessages J d (closingMessages history) := by
  have hnew := filter_closingMessages history
  generalize closingMessages history = new at hnew ⊢
  obtain ⟨m', hm', hsum, hcontent⟩ := foldl_append (J := J) new hm
  rw [loadMessages_eq hm', hsum, messages_eq_getD, hcontent, TakesMessages,
    activeSummaries_of_metaJson hm]
  rw [loadMessages_eq hm] at h
  cases new with
  | nil =>
    have hnil : d.history.getD [] ++ J.writeMessages [] = d.history.getD [] := by
      simp [Serde.writeMessages, unlines]
    rw [hnil, ← messages_eq_getD, h]
    simp
  | cons first rest =>
    obtain ⟨ms, hold, hall⟩ := messages_append_writeMessages J (d.history.getD []) first rest
    rw [← messages_eq_getD] at hold
    rw [hall]
    have htakes : ∀ hnone : J.readLine (openLine (d.history.getD [])) = none,
        ∀ hfirst : J.readLine (openLine (d.history.getD []) ++ J.toString first) = some first,
        (withSummaries m.summaries
            (ms ++ (J.readLine (openLine (d.history.getD []) ++ J.toString first)).toList ++ rest) =
          history ++ first :: rest ↔
        placed m.summaries ((d.messages J).length + (first :: rest).length) =
          placed m.summaries (d.messages J).length) := by
      intro hnone hfirst
      rw [hnone, Option.toList_none, List.append_nil] at hold
      rw [hfirst, Option.toList_some, List.append_assoc, List.singleton_append, ← hold, ← h]
      exact withSummaries_append_iff _ _ _
    constructor
    · intro heq
      -- the messages that are no user messages tell the summaries from the new messages
      have hfilter := congrArg (List.filter (·.role ≠ "user")) heq
      rw [filter_withSummaries, List.filter_append, List.filter_append, List.filter_append, hnew,
        ← h, filter_withSummaries, hold, List.filter_append, List.append_assoc, List.append_assoc]
        at hfilter
      have hrest : rest.filter (·.role ≠ "user") = rest := by
        rw [List.filter_eq_self] at hnew ⊢
        exact fun msg hmsg => hnew msg (List.mem_cons_of_mem _ hmsg)
      have htail := List.append_cancel_left hfilter
      rw [hrest, ← List.singleton_append, ← List.append_assoc] at htail
      obtain ⟨hfirst, hopen⟩ := eq_some_of_filter_toList (List.append_cancel_right htail)
      have hnone : J.readLine (openLine (d.history.getD [])) = none := by
        rw [Option.eq_none_iff_forall_not_mem]
        intro msg hmsg
        refine huser (h ▸ user_getLast_withSummaries _ ⟨msg, ?_, by simpa using hopen msg hmsg⟩)
        rw [hold, Option.mem_def.1 hmsg]
        exact List.getLast?_concat
      refine ⟨fun first' hfirst' => ?_, (htakes hnone hfirst).1 heq⟩
      cases hfirst'
      exact ⟨hnone, hfirst⟩
    · rintro ⟨hfirst, hplaced⟩
      obtain ⟨hnone, hsome⟩ := hfirst first rfl
      exact (htakes hnone hsome).2 hplaced

end

/-- **An abort settles a session** whose history is the one on disk exactly when it aborts
cleanly. -/
theorem abortSettles_iff (J : Serde) (locked : Bool) (d : SessionDir) (s : Session)
    (h : d.loadMessages J = s.history) :
    AbortSettles J locked d s ↔ AbortsCleanly J locked d s := by
  unfold AbortSettles AbortsCleanly
  cases locked with
  | true =>
    rw [if_pos rfl]
    exact ⟨fun hsettles => h ▸ hsettles.2, fun hcomplete => ⟨h, h ▸ hcomplete⟩⟩
  | false =>
    rw [if_neg Bool.false_ne_true]
    cases hm : d.metaJson with
    | none =>
      have hload : d.loadMessages J = [] := by
        simp [SessionDir.loadMessages, SessionDir.readHistoryWithIds, hm]
      have hnil : s.history = [] := h.symm.trans hload
      have huser : ¬ ∃ last ∈ s.history.getLast?, last.role = "user" := by simp [hnil]
      obtain ⟨hdir, hhist⟩ := abortCallback_of_not_user (J := J) (d := d) huser
      rw [if_neg huser, hdir, hhist, hnil]
      exact iff_of_true ⟨hload, congrArg historyHasIncompleteTurn hload⟩ ⟨by simp [closingMessages,
        openRound], rfl⟩
    | some m =>
      by_cases huser : ∃ last ∈ s.history.getLast?, last.role = "user"
      · obtain ⟨hdir, hhist⟩ := abortCallback_of_user (J := J) (d := d) huser
        rw [if_pos huser, ← historyHasIncompleteTurn_withoutTrailingUsers,
          ← loadMessages_truncateMessages_iff hm h, hdir, hhist]
        exact and_congr_right fun heq => by rw [heq]
      · obtain ⟨hdir, hhist⟩ := abortCallback_of_not_user (J := J) (d := d) huser
        rw [if_neg huser, ← loadMessages_foldl_append_iff hm h huser, hdir, hhist]
        exact and_iff_left_of_imp fun heq => heq ▸ historyHasIncompleteTurn_closing huser

/-! ## Files of readable lines -/

/-- The first lines of a written file hold the first messages. -/
lemma firstMessages_writeMessages {J : Serde} {d : SessionDir} {ms : List ChatMessage}
    (h : d.history = some (J.writeMessages ms)) (k : Nat) : firstMessages J d k = ms.take k := by
  have hne : ∀ msg, J.toString msg ≠ [] := by
    intro msg hnil
    have hread := J.readLine_toString msg
    rw [hnil, J.readLine_nil] at hread
    cases hread
  have hlines : (splitLF (J.writeMessages ms)).filter (· ≠ []) = ms.map J.toString := by
    have hsplit := splitLF_unlines_append (J.lineList_map_toString ms) (List.not_mem_nil (a := lf))
    rw [List.append_nil] at hsplit
    rw [Serde.writeMessages, hsplit, List.filter_append]
    have hself : (ms.map J.toString).filter (· ≠ []) = ms.map J.toString := by
      rw [List.filter_eq_self]
      intro l hl
      obtain ⟨msg, -, rfl⟩ := List.mem_map.1 hl
      simpa using hne msg
    rw [hself]
    simp
  rw [firstMessages, h, Option.getD_some, hlines, ← List.map_take, List.filterMap_map]
  simp

/-! ## A summary, an answer and a user message -/

namespace SummaryThenUser

/-- A session after a compaction: the summary is in the record, the file has an answer and a user
message. -/
noncomputable def dir : SessionDir where
  metaJson := some
    { messageCount := 3, segment := 1, compactVersion := 1, compactTokenEstimate := none
      segments :=
        [{ segment := 0, startId := 1, count := 1 },
          { segment := 1, startId := 2, count := 2
            compactions := [{ position := 0, text := "summary", version := 1 }] }] }
  history := some (plainSerde.writeMessages
    [ChatMessage.assistantText "hi", ChatMessage.userText "again"])
  archive := fun _ => none

/-- The session in memory: no answer has come to the last message. -/
def session : Session where
  history := [ChatMessage.userText "summary", ChatMessage.assistantText "hi",
    ChatMessage.userText "again"]
  messageIds := [0, 2, 3]

/-- The directory of the run holds its history. -/
lemma loadMessages_dir : dir.loadMessages plainSerde = session.history := by
  have hmessages : dir.messages plainSerde =
      [ChatMessage.assistantText "hi", ChatMessage.userText "again"] := by
    rw [SessionDir.messages, dir, Option.map_some, Option.getD_some,
      plainSerde.messages_writeMessages]
  rw [loadMessages_eq (m := _) rfl, hmessages]
  rfl

end SummaryThenUser

open SummaryThenUser in
/-- The exact condition for a session with a summary. -/
theorem abortSettles_iff_summaryThenUser :
    AbortSettles plainSerde false dir session ↔ AbortsCleanly plainSerde false dir session :=
  abortSettles_iff plainSerde false dir session loadMessages_dir

open SummaryThenUser in
/-- **The user message stays on disk**: two messages are to be kept, and the file without its
summary has no more. -/
theorem not_abortSettles_summaryThenUser :
    dir.loadMessages plainSerde = session.history ∧ ¬ AbortSettles plainSerde false dir session := by
  refine ⟨loadMessages_dir, fun hsettles => ?_⟩
  have huser : ∃ last ∈ session.history.getLast?, last.role = "user" := ⟨_, rfl, rfl⟩
  obtain ⟨hdir, hhist⟩ := abortCallback_of_user (J := plainSerde) (d := dir) huser
  have hsame := hsettles.1
  rw [hdir, hhist, loadMessages_truncateMessages_iff rfl loadMessages_dir, KeepsLines,
    firstMessages_writeMessages rfl] at hsame
  exact absurd hsame (by decide)

end MyClaw
