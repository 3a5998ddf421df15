import MyClaw.Storage.JsonFile

set_option autoImplicit false

/-!
# What each backend operation does to a well-formed session directory

A session that was created by `create_session` keeps a segment table of the form
`archived ++ [active]`, with strictly increasing segment numbers, and has no archive file of the
active segment or a later one (`Shape`).  On such a directory every operation is described
by one equation for the directory and one for the messages of the active file; the later files use
these and do not unfold an operation again.

## Main definitions

* `Shape` — the form of a session directory.
* `openLine` — the last line of a file that is not ended by a newline.

## Main results

* `nthParseableLineIndex_of_messages` — the sequence index of a message leads to its line.
* `Shape.apply_append`, `apply_removeLast`, `apply_delete`, `apply_update`,
  `apply_truncate`, `apply_rotate` — the equation of each operation.
* `exists_shape_apply` — every operation keeps the form.
-/

namespace MyClaw

open Lines

/-! ## The index of a line -/

section Index

variable (J : Serde)

/-- The sequence index of a message leads to the line that holds it. -/
lemma nthParseableLineIndex_of_messages :
    ∀ {lines : List Bytes} {xs : List ChatMessage} {msg : ChatMessage} {ys : List ChatMessage},
    lines.filterMap J.readLine = xs ++ msg :: ys →
    ∃ pre line post, lines = pre ++ line :: post ∧
      nthParseableLineIndex J lines xs.length = some pre.length ∧
      pre.filterMap J.readLine = xs ∧ J.readLine line = some msg ∧
      post.filterMap J.readLine = ys
  | [], xs, msg, ys, h => by simp at h
  | l :: lines, xs, msg, ys, h => by
    cases hl : J.readLine l with
    | none =>
      rw [List.filterMap_cons_none hl] at h
      obtain ⟨pre, line, post, rfl, hidx, hpre, hline, hpost⟩ :=
        nthParseableLineIndex_of_messages h
      refine ⟨l :: pre, line, post, rfl, ?_, ?_, hline, hpost⟩
      · simp [nthParseableLineIndex, hl, hidx]
      · rw [List.filterMap_cons_none hl, hpre]
    | some m =>
      rw [List.filterMap_cons_some hl] at h
      cases xs with
      | nil =>
        simp only [List.nil_append, List.cons.injEq] at h
        obtain ⟨rfl, rfl⟩ := h
        exact ⟨[], l, lines, rfl, by simp [nthParseableLineIndex, hl], rfl, hl, rfl⟩
      | cons x xs =>
        simp only [List.cons_append, List.cons.injEq] at h
        obtain ⟨rfl, h⟩ := h
        obtain ⟨pre, line, post, rfl, hidx, hpre, hline, hpost⟩ :=
          nthParseableLineIndex_of_messages h
        refine ⟨l :: pre, line, post, rfl, ?_, ?_, hline, hpost⟩
        · simp [nthParseableLineIndex, hl, hidx]
        · rw [List.filterMap_cons_some hl, hpre]

/-- A sequence index beyond the messages leads to no line. -/
lemma nthParseableLineIndex_eq_none :
    ∀ {lines : List Bytes} {n : Nat}, (lines.filterMap J.readLine).length ≤ n →
    nthParseableLineIndex J lines n = none
  | [], _, _ => rfl
  | l :: lines, n, h => by
    cases hl : J.readLine l with
    | none =>
      rw [List.filterMap_cons_none hl] at h
      simp [nthParseableLineIndex, hl, nthParseableLineIndex_eq_none h]
    | some m =>
      rw [List.filterMap_cons_some hl, List.length_cons] at h
      obtain ⟨k, rfl⟩ : ∃ k, n = k + 1 := ⟨n - 1, by omega⟩
      simp [nthParseableLineIndex, hl,
        nthParseableLineIndex_eq_none (show (lines.filterMap J.readLine).length ≤ k by omega)]

end Index

/-! ## The active file -/

/-- The last line of a file that no newline ends; empty for an ended file. -/
def openLine (c : Bytes) : Bytes := (splitLF c).getLastD []

lemma openLine_unlines_append {ls : List Bytes} {t : Bytes} (hl : LineList ls) (ht : lf ∉ t) :
    openLine (unlines ls ++ t) = t := by
  rw [openLine, splitLF_unlines_append hl ht]
  simp

/-- A tail holds the message that can be read from it, if any. -/
lemma filterMap_tailLine (J : Serde) (t : Bytes) :
    (tailLine t).filterMap J.readLine = (J.readLine t).toList := by
  unfold tailLine
  split
  case isTrue h => simp [h]
  case isFalse h => cases hr : J.readLine t <;> simp [hr]

/-- The lines between newlines hold the messages of a file, the empty piece at the end none. -/
lemma filterMap_splitLF (J : Serde) (c : Bytes) :
    (splitLF c).filterMap J.readLine = J.messages c := by
  obtain ⟨ls, t, hl, ht, rfl⟩ := exists_unlines_append c
  rw [splitLF_unlines_append hl ht, J.messages_eq, rawLines_unlines_append hl ht,
    List.filterMap_append, List.filterMap_append, filterMap_tailLine]
  cases hr : J.readLine t <;> simp [hr]

/-- **Messages after an append**: the messages of the ended lines stay, and the new record is read
together with the open line in front of it. -/
lemma messages_append (J : Serde) (c : Bytes) (msg : ChatMessage) :
    ∃ ms, J.messages c = ms ++ (J.readLine (openLine c)).toList ∧
      J.messages (c ++ (J.toString msg ++ [lf])) =
        ms ++ (J.readLine (openLine c ++ J.toString msg)).toList := by
  obtain ⟨ls, t, hl, ht, rfl⟩ := exists_unlines_append c
  refine ⟨ls.filterMap J.readLine, ?_, ?_⟩
  · rw [J.messages_eq, rawLines_unlines_append hl ht, openLine_unlines_append hl ht,
      List.filterMap_append, filterMap_tailLine]
  · rw [J.messages_eq, rawLines_append_glued hl ht (J.lf_notMem_toString msg),
      openLine_unlines_append hl ht, List.filterMap_append]
    cases hr : J.readLine (t ++ J.toString msg) <;> simp [hr]

/-- A record appended to an ended file is one more message of it. -/
lemma messages_append_of_ended (J : Serde) {c : Bytes} (hc : Ended c) (msg : ChatMessage) :
    J.messages (c ++ (J.toString msg ++ [lf])) = J.messages c ++ [msg] := by
  rw [J.messages_eq, rawLines_append_line hc (J.lf_notMem_toString msg), List.filterMap_append,
    ← J.messages_eq]
  simp

/-- Non-empty lines are the lines that can hold a message. -/
lemma filterMap_filter_ne_nil (J : Serde) (ls : List Bytes) :
    (ls.filter (· ≠ [])).filterMap J.readLine = ls.filterMap J.readLine := by
  rw [List.filterMap_filter]
  apply List.filterMap_congr
  intro l _
  by_cases h : l = [] <;> simp [h]

/-! ## The segment table -/

lemma updateFirst_append_singleton {α : Type*} {p : α → Bool} {f : α → α} {as : List α} {a : α}
    (has : ∀ b ∈ as, p b = false) (ha : p a = true) :
    updateFirst p f (as ++ [a]) = as ++ [f a] := by
  induction as with
  | nil => simp [updateFirst, ha]
  | cons b bs ih =>
    have hb : p b = false := has b (by simp)
    simp [updateFirst, hb, ih fun c hc => has c (List.mem_cons_of_mem _ hc)]

/-- **The form of a session directory**: `meta.json` is there, its table ends with the record of
the active segment, segment numbers increase, and no archive file of the active segment or a later
one exists. -/
structure Shape (d : SessionDir) (m : SessionMeta) (arch : List SegmentRecord)
    (act : SegmentRecord) : Prop where
  metaJson : d.metaJson = some m
  segments : m.segments = arch ++ [act]
  segment_act : act.segment = m.segment
  sorted : m.segments.Pairwise fun s t => s.segment < t.segment
  archive : ∀ n, m.segment ≤ n → d.archive n = none

/-- The record that a rotation archives. -/
def archivedRecord (d : SessionDir) (act : SegmentRecord) : SegmentRecord :=
  { segment := act.segment, startId := act.startId, count := SessionDir.archivedCount d.history }

/-- The record that a rotation starts the new segment with. -/
def rotatedRecord (d : SessionDir) (m : SessionMeta) (act : SegmentRecord)
    (surviving : List (Int × ChatMessage)) : SegmentRecord :=
  { segment := m.segment + 1
    startId := act.startId + SessionDir.archivedCount d.history
    count := (SessionDir.realMessages surviving).length
    compactions := SessionDir.newCompactions m.compactVersion 0 surviving }

namespace Shape

variable {J : Serde} {d : SessionDir} {m : SessionMeta} {arch : List SegmentRecord}
  {act : SegmentRecord}

/-- The archived records have smaller numbers than the active one. -/
lemma lt_segment (h : Shape d m arch act) {s : SegmentRecord} (hs : s ∈ arch) :
    s.segment < m.segment := by
  have hp := h.sorted
  rw [h.segments, List.pairwise_append] at hp
  rw [← h.segment_act]
  exact hp.2.2 s hs act (by simp)

lemma activeSeg (h : Shape d m arch act) : m.activeSeg = some act := by
  rw [SessionMeta.activeSeg, h.segments, List.find?_append, List.find?_eq_none.2]
  · simp [h.segment_act]
  · intro s hs
    have := h.lt_segment hs
    simp only [beq_iff_eq]
    omega

lemma startId (h : Shape d m arch act) : d.startId = act.startId := by
  simp [SessionDir.startId, h.metaJson, h.activeSeg]

lemma updateActive (h : Shape d m arch act) (f : SegmentRecord → SegmentRecord) :
    m.updateActive f = { m with segments := arch ++ [f act] } := by
  rw [SessionMeta.updateActive, h.segments, updateFirst_append_singleton]
  · intro s hs
    have := h.lt_segment hs
    simp only [beq_eq_false_iff_ne]
    omega
  · simp [h.segment_act]

/-- The form is kept when only the active record, the counter and the active file change. -/
lemma modify (h : Shape d m arch act) (act' : SegmentRecord) (n : Nat) (file : Option Bytes)
    (hact : act'.segment = act.segment) :
    Shape { d with
        metaJson := some { m with messageCount := n, segments := arch ++ [act'] }
        history := file }
      { m with messageCount := n, segments := arch ++ [act'] } arch act' where
  metaJson := rfl
  segments := rfl
  segment_act := by rw [hact, h.segment_act]
  sorted := by
    have hp := h.sorted
    rw [h.segments, List.pairwise_append] at hp
    simp only [List.pairwise_append, List.mem_singleton, forall_eq]
    refine ⟨hp.1, by simp, fun s hs => ?_⟩
    rw [hact]
    exact hp.2.2 s hs act (by simp)
  archive := h.archive

/-- The sum of the archived counts, as `truncate_messages` computes it. -/
lemma archivedTotal (h : Shape d m arch act) :
    ((m.segments.filter (·.segment ≠ m.segment)).map (·.count)).sum =
      (arch.map (·.count)).sum := by
  have harch : arch.filter (fun s => decide (s.segment ≠ m.segment)) = arch := by
    rw [List.filter_eq_self]
    intro s hs
    have := h.lt_segment hs
    simp only [decide_eq_true_eq]
    omega
  rw [h.segments, List.filter_append, harch]
  simp [h.segment_act]

/-! ## The operations -/

/-- `append_message`: the record goes to the end of the file, and both counters go up by one. -/
lemma apply_append (h : Shape d m arch act) (msg : ChatMessage) :
    d.apply J (.append msg) = { d with
      metaJson := some { m with
        messageCount := m.messageCount + 1, segments := arch ++ [act.incr] }
      history := some (d.history.getD [] ++ (J.toString msg ++ [lf])) } := by
  have hn : ((m.messageCount : Int) + 1).toNat = m.messageCount + 1 := by omega
  have hact : updateFirst (fun s => s.segment == m.segment) SegmentRecord.incr m.segments =
      arch ++ [act.incr] := congrArg SessionMeta.segments (h.updateActive SegmentRecord.incr)
  simp only [SessionDir.apply, SessionDir.appendMessage, h.metaJson, SessionDir.modifyMeta,
    Option.map_some, Option.getD_some, SessionMeta.updateActive, hn,
    hact]

/-- The id that `append_message` returns is one more than the global `message_count`. -/
lemma appendMessage_id (h : Shape d m arch act) (msg : ChatMessage) :
    (d.appendMessage J msg).map Prod.snd = some ((m.messageCount : Int) + 1) := by
  simp [SessionDir.appendMessage, h.metaJson]

/-- `remove_last_message` on a file with lines: the last line goes, and both counters go down by
one, not below 0. -/
lemma apply_removeLast (h : Shape d m arch act) {c : Bytes} (hc : d.history = some c)
    (hl : rawLines c ≠ []) :
    d.apply J .removeLast = { d with
      metaJson := some { m with
        messageCount := m.messageCount - 1, segments := arch ++ [act.decr] }
      history := some (joinLines (rawLines c).dropLast) } := by
  simp [SessionDir.apply, SessionDir.removeLastMessage, hc, hl, SessionDir.modifyMeta, h.metaJson,
    h.updateActive]

/-- `remove_last_message` without lines changes nothing. -/
lemma apply_removeLast_of_nil (hl : ∀ c, d.history = some c → rawLines c = []) :
    d.apply J .removeLast = d := by
  cases hc : d.history with
  | none => simp [SessionDir.apply, SessionDir.removeLastMessage, hc]
  | some c => simp [SessionDir.apply, SessionDir.removeLastMessage, hc, hl c hc]

/-- `delete_message_by_id` of a message of the active segment: its line goes, and the segment's
count goes down by one. -/
lemma apply_delete (h : Shape d m arch act) {c : Bytes} (hc : d.history = some c)
    {xs ys : List ChatMessage} {msg : ChatMessage} (hms : J.messages c = xs ++ msg :: ys) :
    ∃ c', d.apply J (.delete (act.startId + xs.length)) = { d with
        metaJson := some { m with segments := arch ++ [act.decr] }
        history := some c' } ∧ J.messages c' = xs ++ ys ∧ Ended c' ∧
      ∀ l ∈ rawLines c', l ∈ rawLines c := by
  rw [J.messages_eq] at hms
  obtain ⟨pre, line, post, hlines, hidx, hpre, -, hpost⟩ :=
    nthParseableLineIndex_of_messages J hms
  have hll : LineList (pre ++ post) := by
    refine (lineList_rawLines c).sublist ?_
    rw [hlines]
    exact (List.Sublist.refl pre).append (List.sublist_cons_self line post)
  refine ⟨joinLines (pre ++ post), ?_, ?_, ended_joinLines _, ?_⟩
  · have hlt : ¬ act.startId + (xs.length : Int) < act.startId := by omega
    have hsub : (act.startId + (xs.length : Int) - act.startId).toNat = xs.length := by omega
    have herase : (rawLines c).eraseIdx pre.length = pre ++ post := by
      simp [hlines, List.eraseIdx_append_of_length_le]
    simp only [SessionDir.apply, SessionDir.deleteMessageById, hc, h.startId, hlt, if_false, hsub,
      hidx, herase, SessionDir.modifyMeta, h.metaJson, Option.map_some, h.updateActive]
  · rw [J.messages_joinLines hll, List.filterMap_append, hpre, hpost]
  · intro l hl
    rw [rawLines_joinLines hll, List.mem_append] at hl
    rw [hlines, List.mem_append, List.mem_cons]
    exact hl.imp_right .inr

/-- An id that is no message's id names no line. -/
lemma nthParseableLineIndex_of_notMem {c : Bytes} (hc : d.history = some c) {id start : Int}
    (hid : id < start ∨ start + (d.messages J).length ≤ id) (hlt : ¬ id < start) :
    nthParseableLineIndex J (rawLines c) (id - start).toNat = none := by
  have hlen : ((rawLines c).filterMap J.readLine).length ≤ (id - start).toNat := by
    simp only [SessionDir.messages, hc, Option.map_some, Option.getD_some, J.messages_eq] at hid
    omega
  exact nthParseableLineIndex_eq_none J hlen

/-- `delete_message_by_id` of any other id changes nothing. -/
lemma apply_delete_of_notMem (h : Shape d m arch act) {id : Int}
    (hid : id < act.startId ∨ act.startId + (d.messages J).length ≤ id) :
    d.apply J (.delete id) = d := by
  cases hc : d.history with
  | none => simp [SessionDir.apply, SessionDir.deleteMessageById, hc]
  | some c =>
    simp only [SessionDir.apply, SessionDir.deleteMessageById, hc, h.startId]
    by_cases hlt : id < act.startId
    · simp [hlt]
    · simp [hlt, nthParseableLineIndex_of_notMem hc hid hlt]

/-- `update_message` of a message of the active segment: its line is replaced. -/
lemma updateMessage_eq (h : Shape d m arch act) {c : Bytes} (hc : d.history = some c)
    {xs ys : List ChatMessage} {msg : ChatMessage} (hms : J.messages c = xs ++ msg :: ys)
    (new : ChatMessage) :
    ∃ c', d.updateMessage J (act.startId + xs.length) new =
        ({ d with history := some c' }, true) ∧ J.messages c' = xs ++ new :: ys ∧ Ended c' ∧
      ∀ l ∈ rawLines c', l ∈ rawLines c ∨ l = J.toString new := by
  rw [J.messages_eq] at hms
  obtain ⟨pre, line, post, hlines, hidx, hpre, -, hpost⟩ :=
    nthParseableLineIndex_of_messages J hms
  have hll : LineList (pre ++ J.toString new :: post) := by
    intro l hl
    rw [List.mem_append, List.mem_cons] at hl
    have hmem : ∀ l ∈ rawLines c, lf ∉ l := lineList_rawLines c
    rw [hlines] at hmem
    rcases hl with hl | rfl | hl
    · exact hmem l (by simp [hl])
    · exact J.lf_notMem_toString new
    · exact hmem l (by simp [hl])
  refine ⟨joinLines (pre ++ J.toString new :: post), ?_, ?_, ended_joinLines _, ?_⟩
  · have hlt : ¬ act.startId + (xs.length : Int) < act.startId := by omega
    have hsub : (act.startId + (xs.length : Int) - act.startId).toNat = xs.length := by omega
    have hset : (rawLines c).set pre.length (J.toString new) =
        pre ++ J.toString new :: post := by
      simp [hlines]
    simp only [SessionDir.updateMessage, hc, h.startId, hlt, if_false, hsub, hidx, hset]
  · rw [J.messages_joinLines hll, List.filterMap_append, hpre,
      List.filterMap_cons_some (J.readLine_toString new), hpost]
  · intro l hl
    rw [rawLines_joinLines hll, List.mem_append, List.mem_cons] at hl
    rw [hlines, List.mem_append, List.mem_cons]
    rcases hl with hl | rfl | hl
    · exact .inl (.inl hl)
    · exact .inr rfl
    · exact .inl (.inr (.inr hl))

/-- The directory after `update_message` of a message of the active segment. -/
lemma apply_update (h : Shape d m arch act) {c : Bytes} (hc : d.history = some c)
    {xs ys : List ChatMessage} {msg : ChatMessage} (hms : J.messages c = xs ++ msg :: ys)
    (new : ChatMessage) :
    ∃ c', d.apply J (.update (act.startId + xs.length) new) = { d with history := some c' } ∧
      J.messages c' = xs ++ new :: ys ∧ Ended c' ∧
      ∀ l ∈ rawLines c', l ∈ rawLines c ∨ l = J.toString new := by
  obtain ⟨c', heq, hrest⟩ := h.updateMessage_eq hc hms new
  exact ⟨c', congrArg Prod.fst heq, hrest⟩

/-- `update_message` of any other id changes nothing. -/
lemma apply_update_of_notMem (h : Shape d m arch act) {id : Int} (new : ChatMessage)
    (hid : id < act.startId ∨ act.startId + (d.messages J).length ≤ id) :
    d.apply J (.update id new) = d := by
  cases hc : d.history with
  | none => simp [SessionDir.apply, SessionDir.updateMessage, hc]
  | some c =>
    simp only [SessionDir.apply, SessionDir.updateMessage, hc, h.startId]
    by_cases hlt : id < act.startId
    · simp [hlt]
    · simp [hlt, nthParseableLineIndex_of_notMem hc hid hlt]

/-- `truncate_messages` below the number of non-empty lines: the first `k` of them stay, the
segment's count is `k`, and `message_count` is set to the total of the table. -/
lemma apply_truncate (h : Shape d m arch act) {c : Bytes} (hc : d.history = some c) {k : Nat}
    (hk : k < ((splitLF c).filter (· ≠ [])).length) :
    d.apply J (.truncate k) = { d with
      metaJson := some { m with
        messageCount := (arch.map (·.count)).sum + k
        segments := arch ++ [{ act with count := k }] }
      history := some (joinLines (((splitLF c).filter (· ≠ [])).take k)) } := by
  have htotal := h.archivedTotal
  simp only [SessionDir.apply, SessionDir.truncateMessages, hc, Nat.not_le.2 hk, if_false,
    SessionDir.modifyMeta, h.metaJson, Option.map_some, h.updateActive, htotal]

/-- `truncate_messages` at or above the number of non-empty lines changes nothing. -/
lemma apply_truncate_of_le {k : Nat}
    (hk : ∀ c, d.history = some c → ((splitLF c).filter (· ≠ [])).length ≤ k) :
    d.apply J (.truncate k) = d := by
  cases hc : d.history with
  | none => simp [SessionDir.apply, SessionDir.truncateMessages, hc]
  | some c => simp only [SessionDir.apply, SessionDir.truncateMessages, hc, hk c hc, if_true]

/-- `rotate_history_impl`: the active file and its record are archived, a new segment starts right
after it, and `message_count` stays. -/
lemma apply_rotate (h : Shape d m arch act) (surviving : List (Int × ChatMessage)) :
    d.apply J (.rotate surviving) =
      { metaJson := some { m with
          segments := (arch ++ [archivedRecord d act]) ++ [rotatedRecord d m act surviving]
          segment := m.segment + 1 }
        history := if surviving = [] then none
          else some (J.writeMessages (SessionDir.realMessages surviving))
        archive := Function.update d.archive m.segment d.history } := by
  have hstart : SessionDir.archivedStartId m = act.startId := by
    simp [SessionDir.archivedStartId, h.activeSeg]
  have hkept : m.segments.filter
      (fun s => decide (s.segment ≠ m.segment ∧ s.segment ≠ m.segment + 1)) = arch := by
    rw [h.segments, List.filter_append, List.filter_eq_self.2]
    · simp [h.segment_act]
    · intro s hs
      have := h.lt_segment hs
      simp only [decide_eq_true_eq]
      omega
  simp only [SessionDir.apply, SessionDir.rotateHistoryImpl, h.metaJson, hstart, hkept,
    archivedRecord, rotatedRecord, h.segment_act]
  cases hc : d.history with
  | some c => rfl
  | none =>
    have hself : Function.update d.archive m.segment none = d.archive := by
      rw [← h.archive m.segment le_rfl, Function.update_eq_self]
    rw [hself]

/-- A rotation keeps the form. -/
lemma rotate (h : Shape d m arch act) (surviving : List (Int × ChatMessage)) :
    ∃ m', m'.messageCount = m.messageCount ∧
      Shape (d.apply J (.rotate surviving)) m' (arch ++ [archivedRecord d act])
        (rotatedRecord d m act surviving) := by
  refine ⟨_, ?_, ⟨by rw [h.apply_rotate], rfl, rfl, ?_, ?_⟩⟩
  · rfl
  · have hp := h.sorted
    rw [h.segments, List.pairwise_append] at hp
    simp only [List.pairwise_append, List.mem_singleton, forall_eq, List.mem_append,
      List.pairwise_singleton, true_and]
    refine ⟨⟨hp.1, fun s hs => ?_⟩, ?_⟩
    · exact hp.2.2 s hs act (by simp)
    · rintro s (hs | rfl)
      · have := h.lt_segment hs
        simp only [rotatedRecord]
        omega
      · simp [rotatedRecord, archivedRecord, h.segment_act]
  · intro n hn
    rw [h.apply_rotate]
    have hne : n ≠ m.segment := by
      simp only at hn
      omega
    simp only [Function.update_of_ne hne]
    exact h.archive n (by simp only at hn; omega)

end Shape

/-- An id in the range of the active segment is the id of one of its messages. -/
lemma exists_message_of_id {J : Serde} {d : SessionDir} {start id : Int}
    (hid : ¬ (id < start ∨ start + (d.messages J).length ≤ id)) :
    ∃ c xs msg ys, d.history = some c ∧ J.messages c = xs ++ msg :: ys ∧
      id = start + xs.length := by
  cases hc : d.history with
  | none =>
    simp only [SessionDir.messages, hc, Option.map_none, Option.getD_none, List.length_nil] at hid
    omega
  | some c =>
    simp only [SessionDir.messages, hc, Option.map_some, Option.getD_some] at hid
    have hn : (id - start).toNat < (J.messages c).length := by omega
    refine ⟨c, (J.messages c).take (id - start).toNat, (J.messages c)[(id - start).toNat],
      (J.messages c).drop ((id - start).toNat + 1), rfl, ?_, ?_⟩
    · simp
    · rw [List.length_take]
      omega

/-- The table that `create_session` writes. -/
lemma shape_createSession : ∃ m arch act, Shape SessionDir.createSession m arch act :=
  ⟨_, [], _, rfl, rfl, rfl, by simp, fun _ _ => rfl⟩

/-- **Every operation keeps the form of the directory.** -/
theorem exists_shape_apply (J : Serde) {d : SessionDir}
    (h : ∃ m arch act, Shape d m arch act) (op : Op) :
    ∃ m arch act, Shape (d.apply J op) m arch act := by
  obtain ⟨m, arch, act, h⟩ := h
  -- the operations below a rotation change the active record, the counter and the file only
  cases op with
  | append msg => exact ⟨_, _, _, h.apply_append (J := J) msg ▸ h.modify act.incr _ _ rfl⟩
  | update id msg =>
    by_cases hid : id < act.startId ∨ act.startId + (d.messages J).length ≤ id
    · exact ⟨m, arch, act, (h.apply_update_of_notMem msg hid).symm ▸ h⟩
    · obtain ⟨c, xs, old, ys, hc, hms, rfl⟩ := exists_message_of_id hid
      obtain ⟨c', heq, -⟩ := h.apply_update hc hms msg
      refine ⟨m, arch, act, ?_⟩
      rw [heq]
      exact ⟨h.metaJson, h.segments, h.segment_act, h.sorted, h.archive⟩
  | delete id =>
    by_cases hid : id < act.startId ∨ act.startId + (d.messages J).length ≤ id
    · exact ⟨m, arch, act, (h.apply_delete_of_notMem hid).symm ▸ h⟩
    · obtain ⟨c, xs, old, ys, hc, hms, rfl⟩ := exists_message_of_id hid
      obtain ⟨c', heq, -⟩ := h.apply_delete hc hms
      exact ⟨_, _, _, heq ▸ h.modify act.decr m.messageCount _ rfl⟩
  | removeLast =>
    by_cases hl : ∀ c, d.history = some c → rawLines c = []
    · exact ⟨m, arch, act, (Shape.apply_removeLast_of_nil (J := J) hl).symm ▸ h⟩
    · push Not at hl
      obtain ⟨c, hc, hne⟩ := hl
      exact ⟨_, _, _, h.apply_removeLast (J := J) hc hne ▸ h.modify act.decr _ _ rfl⟩
  | truncate k =>
    by_cases hk : ∀ c, d.history = some c → ((splitLF c).filter (· ≠ [])).length ≤ k
    · exact ⟨m, arch, act, (Shape.apply_truncate_of_le (J := J) hk).symm ▸ h⟩
    · push Not at hk
      obtain ⟨c, hc, hlt⟩ := hk
      exact ⟨_, _, _, h.apply_truncate (J := J) hc hlt ▸
        h.modify { act with count := k } _ _ rfl⟩
  | rotate surviving =>
    obtain ⟨m', -, h'⟩ := h.rotate (J := J) surviving
    exact ⟨m', _, _, h'⟩

end MyClaw
