import MyClaw.Storage.Tidy

set_option autoImplicit false

/-!
# Edits beside torn lines

A process that is killed during a write leaves a line that is not UTF-8 or does not parse.  The
reader (`read_history_with_ids`) skips such a line and counts the others; the editor
(`update_message`) splits the file by itself and finds the line of an id with
`nth_parseable_line_index`.  Both agree on every content.

## Main definitions

* `EditsInPlace` — the row of the id is replaced, every other row and every other line stays.

## Main results

* `updateMessage_inPlace` — an edit of a row that was read is one in its place.
* `updateMessage_inPlace_torn` — a file that starts with a torn line.
-/

namespace MyClaw

open Lines

/-- **An edit in its place**: the row of the id has the new message, every other row is as before and
in the same order, and of the lines of the file only the one that held the message is replaced. -/
structure EditsInPlace (J : Serde) (d : SessionDir) (id : Int) (msg new : ChatMessage) : Prop where
  found : (d.updateMessage J id new).2 = true
  rows : (d.updateMessage J id new).1.readHistoryWithIds J =
    (d.readHistoryWithIds J).map fun row => if row.1 = id then (id, new) else row
  lines : ∃ pre line post, rawLines (d.history.getD []) = pre ++ line :: post ∧
    J.readLine line = some msg ∧
    rawLines ((d.updateMessage J id new).1.history.getD []) = pre ++ J.toString new :: post

/-! ## Rows -/

section

variable {id : Int} {new : ChatMessage} {rows : List (Int × ChatMessage)}

/-- The summaries are inserted between the rows, whatever these hold. -/
lemma map_insertCompactions (hid : id ≠ 0) (comps : List CompactionEntry)
    (rows : List (Int × ChatMessage)) :
    (insertCompactions comps rows).map (fun row => if row.1 = id then (id, new) else row) =
      insertCompactions comps
        (rows.map fun row => if row.1 = id then (id, new) else row) := by
  unfold insertCompactions
  induction comps generalizing rows with
  | nil => rfl
  | cons comp comps ih =>
    rw [List.foldl_cons, List.foldl_cons, ih, List.length_map]
    by_cases hpos : comp.position ≤ rows.length
    · rw [if_pos hpos, if_pos hpos, List.map_insertIdx, if_neg (Ne.symm hid)]
    · rw [if_neg hpos, if_neg hpos]

/-- A row that is no summary comes from the file. -/
lemma mem_of_mem_insertCompactions {comps : List CompactionEntry} {row : Int × ChatMessage}
    (hid : row.1 ≠ 0) (h : row ∈ insertCompactions comps rows) : row ∈ rows := by
  have hmem : row ∈ (insertCompactions comps rows).filter (·.1 ≠ 0) :=
    List.mem_filter.2 ⟨h, decide_eq_true hid⟩
  rw [filter_insertCompactions (fun _ => decide_eq_false (not_not_intro rfl))] at hmem
  exact List.mem_of_mem_filter hmem

/-- A numbered row splits the messages at its own. -/
lemma exists_append_of_mem_numberFrom {start : Int} {ms : List ChatMessage} {msg : ChatMessage}
    (h : (id, msg) ∈ numberFrom start ms) :
    ∃ xs ys, ms = xs ++ msg :: ys ∧ id = start + xs.length := by
  obtain ⟨i, hi, heq⟩ := List.mem_mapIdx.1 h
  obtain ⟨hid, hmsg⟩ := Prod.mk.inj heq
  refine ⟨ms.take i, ms.drop (i + 1), ?_, ?_⟩
  · rw [← hmsg, List.cons_getElem_drop_succ, List.take_append_drop]
  · rw [List.length_take_of_le hi.le, hid]

/-- One message of the numbered rows is replaced. -/
lemma map_numberFrom_append (start : Int) (xs ys : List ChatMessage) (msg new : ChatMessage) :
    (numberFrom start (xs ++ msg :: ys)).map
        (fun row => if row.1 = start + xs.length then (start + xs.length, new) else row) =
      numberFrom start (xs ++ new :: ys) := by
  unfold numberFrom
  refine List.ext_getElem (by simp) fun i hi hi' => ?_
  simp only [List.getElem_map, List.getElem_mapIdx, List.getElem_append]
  by_cases hlen : i = xs.length
  · subst hlen
    simp
  · have hne : ¬ start + (i : Int) = start + xs.length := by omega
    rw [if_neg hne]
    split_ifs with hlt
    · rfl
    · obtain ⟨k, hk⟩ : ∃ k, i - xs.length = k + 1 := ⟨i - xs.length - 1, by omega⟩
      simp only [hk, List.getElem_cons_succ]

end

/-! ## The edit -/

/-- **Torn lines never misdirect an edit**: on every content, an update of a row that was read is an
edit in its place. -/
theorem updateMessage_inPlace (J : Serde) (d : SessionDir) (id : Int) (msg new : ChatMessage)
    (hrow : (id, msg) ∈ d.readHistoryWithIds J) (hid : id ≠ 0) : EditsInPlace J d id msg new := by
  have hread := hrow
  unfold SessionDir.readHistoryWithIds at hread
  cases hm : d.metaJson with
  | none =>
    rw [hm] at hread
    exact absurd hread List.not_mem_nil
  | some m =>
    cases hc : d.history with
    | none =>
      rw [hm, hc] at hread
      exact absurd (mem_of_mem_insertCompactions hid hread) List.not_mem_nil
    | some content =>
      rw [hm, hc] at hread
      obtain ⟨xs, ys, hms, hpos⟩ :=
        exists_append_of_mem_numberFrom (mem_of_mem_insertCompactions hid hread)
      have hstart : d.startId = (m.activeSeg.map SegmentRecord.startId).getD 1 := by
        rw [SessionDir.startId, hm]
        rfl
      rw [← hstart] at hpos
      have hraw := hms
      rw [J.messages_eq] at hraw
      obtain ⟨pre, line, post, hlines, hidx, hpre, hline, hpost⟩ :=
        nthParseableLineIndex_of_messages J hraw
      have hset : (rawLines content).set pre.length (J.toString new) =
          pre ++ J.toString new :: post := by
        rw [hlines]
        simp
      have hnew : d.updateMessage J id new =
          ({ d with history := some (joinLines (pre ++ J.toString new :: post)) }, true) := by
        have hlt : ¬ d.startId + (xs.length : Int) < d.startId := by omega
        have hsub : (d.startId + (xs.length : Int) - d.startId).toNat = xs.length := by omega
        rw [SessionDir.updateMessage, hc, hpos]
        dsimp only
        rw [if_neg hlt, hsub, hidx]
        dsimp only
        rw [hset]
      have hll : LineList (pre ++ J.toString new :: post) := by
        have hmem := lineList_rawLines content
        rw [hlines] at hmem
        intro l hl
        rcases List.mem_append.1 hl with hl | hl
        · exact hmem l (List.mem_append_left _ hl)
        · rcases List.mem_cons.1 hl with rfl | hl
          · exact J.lf_notMem_toString new
          · exact hmem l (List.mem_append_right _ (.tail _ hl))
      refine ⟨by rw [hnew], ?_, pre, line, post, by rw [hc]; exact hlines, hline, ?_⟩
      · rw [hnew, SessionDir.readHistoryWithIds, SessionDir.readHistoryWithIds, hm, hc]
        dsimp only
        rw [map_insertCompactions hid, J.messages_joinLines hll, List.filterMap_append,
          List.filterMap_cons_some (J.readLine_toString new), hpre, hpost, hms, hpos, hstart,
          map_numberFrom_append]
      · rw [hnew]
        exact rawLines_joinLines hll

/-! ## A torn line before a message -/

namespace TornFile

/-- A byte that starts no UTF-8 sequence. -/
def torn : Bytes := [0xFF]

/-- A session whose file has a torn line and then a message. -/
noncomputable def dir : SessionDir :=
  { SessionDir.createSession with
    history := some (joinLines [torn, plainSerde.toString (ChatMessage.userText "m1")]) }

lemma readHistoryWithIds_dir :
    dir.readHistoryWithIds plainSerde = [(1, ChatMessage.userText "m1")] := by
  have htorn : plainSerde.readLine torn = none := if_neg (by decide)
  have hlines : LineList [torn, plainSerde.toString (ChatMessage.userText "m1")] := by
    intro l hl
    rcases List.mem_pair.1 hl with hl | hl
    · rw [hl]
      decide
    · rw [hl]
      exact plainSerde.lf_notMem_toString _
  have hmessages : plainSerde.messages
      (joinLines [torn, plainSerde.toString (ChatMessage.userText "m1")]) =
      [ChatMessage.userText "m1"] := by
    rw [plainSerde.messages_joinLines hlines, List.filterMap_cons_none htorn,
      List.filterMap_cons_some (plainSerde.readLine_toString _), List.filterMap_nil]
  rw [SessionDir.readHistoryWithIds, dir]
  dsimp only [SessionDir.createSession]
  rw [hmessages]
  rfl

end TornFile

open TornFile in
/-- The message after the torn line is edited, and not the torn line. -/
theorem updateMessage_inPlace_torn :
    EditsInPlace plainSerde dir 1 (ChatMessage.userText "m1") (ChatMessage.userText "m1, edited") :=
  updateMessage_inPlace plainSerde dir 1 _ _ (by rw [readHistoryWithIds_dir]; simp) (by decide)

end MyClaw
