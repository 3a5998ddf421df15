import MyClaw.Storage.Segments

set_option autoImplicit false

/-!
# Tidy directories

A directory that only the operations have written is tidy: every line of the active file is ended
and holds a message, the segment table counts exactly, and the segments fill the ids from 1 on.
Appends and rotations, the two operations of a running session, keep a directory tidy, and their
effect on the messages of the active file is one equation each.

## Main definitions

* `Tidy` — a well-formed directory without torn lines and with exact counts.

## Main results

* `Tidy.append`, `Tidy.rotate` — the directory after an append and a rotation.
* `Tidy.messages_append`, `Shape.messages_rotate` — its messages.
-/

namespace MyClaw

open Lines

/-! ## Rows -/

section Rows

variable (J : Serde)

lemma numberFrom_append (start : Int) (ms : List ChatMessage) (m : ChatMessage) :
    numberFrom start (ms ++ [m]) = numberFrom start ms ++ [(start + ms.length, m)] := by
  simp [numberFrom, List.mapIdx_concat]

lemma map_snd_numberFrom (start : Int) (ms : List ChatMessage) :
    (numberFrom start ms).map Prod.snd = ms := by
  apply List.ext_getElem
  · simp [numberFrom]
  · intro i h₁ h₂
    simp [numberFrom]

/-- Rows numbered from a positive id on have no id 0. -/
lemma numberFrom_ne_zero {start : Int} (hs : 0 < start) (ms : List ChatMessage) :
    ∀ r ∈ numberFrom start ms, r.1 ≠ 0 := by
  intro r hr
  obtain ⟨i, hi, rfl⟩ := List.mem_mapIdx.1 hr
  simp only [ne_eq]
  omega

/-- Inserting an element that a filter drops does not change what the filter keeps. -/
lemma filter_insertIdx_of_neg {α : Type*} {p : α → Bool} {a : α} (ha : p a = false) :
    ∀ (i : Nat) (l : List α), (l.insertIdx i a).filter p = l.filter p
  | 0, l => by simp [ha]
  | _ + 1, [] => rfl
  | i + 1, b :: l => by
    rw [List.insertIdx_succ_cons, List.filter_cons, List.filter_cons,
      filter_insertIdx_of_neg ha i l]

/-- The inserted summaries are rows with id 0. -/
lemma filter_insertCompactions {p : Int × ChatMessage → Bool} (hp : ∀ msg, p (0, msg) = false)
    (comps : List CompactionEntry) (rows : List (Int × ChatMessage)) :
    (insertCompactions comps rows).filter p = rows.filter p := by
  induction comps generalizing rows with
  | nil => rfl
  | cons comp comps ih =>
    refine (ih _).trans ?_
    dsimp only
    split
    case isTrue => exact filter_insertIdx_of_neg (hp _) _ rows
    case isFalse => rfl

end Rows

/-! ## Tidy directories -/

/-- A directory reached by operations alone: every line of the active file holds a message and is
ended, the table counts exactly, and the segments fill the ids from 1 on. -/
structure Tidy (J : Serde) (d : SessionDir) (m : SessionMeta) (arch : List SegmentRecord)
    (act : SegmentRecord) : Prop extends Shape d m arch act where
  ended : Ended (d.history.getD [])
  parses : ∀ l ∈ rawLines (d.history.getD []), (J.readLine l).isSome
  count : act.count = (d.messages J).length
  start : act.startId = 1 + ((arch.map (·.count)).sum : Nat)
  below : ∀ s ∈ arch, s.startId + s.count ≤ act.startId

lemma messages_eq_getD (J : Serde) (d : SessionDir) :
    d.messages J = J.messages (d.history.getD []) := by
  cases hc : d.history <;> simp [SessionDir.messages, hc]

namespace Tidy

variable {J : Serde} {d : SessionDir} {m : SessionMeta} {arch : List SegmentRecord}
  {act : SegmentRecord}

lemma startId_pos (h : Tidy J d m arch act) : 0 < act.startId := by
  rw [h.start]
  omega

/-- In a tidy file there are as many lines as messages. -/
lemma length_rawLines (h : Tidy J d m arch act) :
    (rawLines (d.history.getD [])).length = (d.messages J).length := by
  rw [messages_eq_getD, J.messages_eq]
  exact (length_filterMap_eq_iff _ _).2 h.parses

/-- No line of a tidy file is empty. -/
lemma filter_splitLF (h : Tidy J d m arch act) :
    (splitLF (d.history.getD [])).filter (· ≠ []) = rawLines (d.history.getD []) := by
  have hne : ∀ l ∈ rawLines (d.history.getD []), l ≠ [] := by
    rintro l hl rfl
    have := h.parses [] hl
    simp at this
  obtain ⟨ls, t, hls, ht, hc⟩ := exists_unlines_append (d.history.getD [])
  have hended := h.ended
  rw [hc, ended_unlines_append ht] at hended
  subst hended
  rw [hc, rawLines_unlines_append hls ht] at hne ⊢
  simp only [tailLine, if_true, List.append_nil] at hne ⊢
  rw [← List.append_nil (unlines ls), splitLF_unlines_append hls ht, List.filter_append,
    List.filter_eq_self.2 fun l hl => by simpa using hne l hl]
  simp

/-- A change of the active file, its count and the global counter keeps a directory tidy when the
new lines hold messages and are counted. -/
lemma modify (h : Tidy J d m arch act) (n k : Nat) {c : Bytes} (hended : Ended c)
    (hparses : ∀ l ∈ rawLines c, (J.readLine l).isSome) (hk : k = (J.messages c).length) :
    Tidy J { d with
        metaJson := some { m with
          messageCount := n, segments := arch ++ [{ act with count := k }] }
        history := some c }
      { m with messageCount := n, segments := arch ++ [{ act with count := k }] } arch
      { act with count := k } where
  toShape := h.toShape.modify { act with count := k } n (some c) rfl
  ended := hended
  parses := hparses
  count := by simpa [SessionDir.messages] using hk
  start := h.start
  below := h.below

/-- **After an append** the active record counts one message more. -/
theorem append (h : Tidy J d m arch act) (msg : ChatMessage) :
    Tidy J (d.apply J (.append msg))
      { m with messageCount := m.messageCount + 1, segments := arch ++ [act.incr] } arch
      act.incr := by
  have hended : Ended (d.history.getD [] ++ (J.toString msg ++ [lf])) := by
    right
    rw [← List.append_assoc, List.getLast?_concat]
  have hms := messages_append_of_ended J h.ended msg
  have hlines := rawLines_append_line h.ended (J.lf_notMem_toString msg)
  have ht := h.modify (m.messageCount + 1) (act.count + 1) hended
    (by
      intro l hl
      rw [hlines, List.mem_append, List.mem_singleton] at hl
      rcases hl with hl | rfl
      · exact h.parses l hl
      · simp)
    (by rw [hms, List.length_append, h.count, messages_eq_getD]; rfl)
  exact h.apply_append (J := J) msg ▸ ht

/-- The messages after an append. -/
lemma messages_append (h : Tidy J d m arch act) (msg : ChatMessage) :
    (d.apply J (.append msg)).messages J = d.messages J ++ [msg] := by
  rw [h.apply_append (J := J) msg, messages_eq_getD J d]
  exact messages_append_of_ended J h.ended msg

/-- What a rotation of a tidy directory counts is its messages. -/
lemma archivedCount_eq (h : Tidy J d m arch act) :
    SessionDir.archivedCount d.history = (d.messages J).length := by
  have hparses := h.parses
  cases hc : d.history with
  | none => simp [SessionDir.archivedCount, SessionDir.messages, hc]
  | some c =>
    simp only [hc, Option.getD_some] at hparses
    simp only [SessionDir.messages, hc, Option.map_some, Option.getD_some]
    refine (archivedCount_eq_iff J c).2 (.inl fun l hl _ => ?_)
    obtain ⟨r, hr, rfl | rfl⟩ := exists_rawLine_of_mem_strLines hl
    · exact hparses _ hr
    · rw [J.crInsensitive_readLine.stripCR]
      exact hparses r hr

end Tidy

/-- The messages after a rotation are the real survivors. -/
lemma Shape.messages_rotate {J : Serde} {d : SessionDir} {m : SessionMeta}
    {arch : List SegmentRecord} {act : SegmentRecord} (h : Shape d m arch act)
    (surviving : List (Int × ChatMessage)) :
    (d.apply J (.rotate surviving)).messages J = SessionDir.realMessages surviving := by
  rw [h.apply_rotate]
  by_cases hs : surviving = []
  · simp [SessionDir.messages, SessionDir.realMessages, hs]
  · simp [SessionDir.messages, hs]

/-- **After a rotation** the archived record follows the older ones and the new active record
counts the real survivors. -/
theorem Tidy.rotate {J : Serde} {d : SessionDir} {m : SessionMeta} {arch : List SegmentRecord}
    {act : SegmentRecord} (h : Tidy J d m arch act) (surviving : List (Int × ChatMessage)) :
    ∃ m', m'.messageCount = m.messageCount ∧
      Tidy J (d.apply J (.rotate surviving)) m' (arch ++ [archivedRecord d act])
        (rotatedRecord d m act surviving) := by
  obtain ⟨m', hm', h'⟩ := h.toShape.rotate (J := J) surviving
  have heq := h.apply_rotate (J := J) surviving
  have hlines : rawLines ((d.apply J (.rotate surviving)).history.getD []) =
      (SessionDir.realMessages surviving).map J.toString := by
    rw [heq]
    by_cases hs : surviving = []
    · simp [SessionDir.realMessages, hs]
    · simp only [hs, if_false, Option.getD_some, Serde.writeMessages, ← joinLines_eq_unlines]
      exact rawLines_joinLines (J.lineList_map_toString _)
  refine ⟨m', hm', ⟨h', ?_, ?_, ?_, ?_, ?_⟩⟩
  · rw [heq]
    by_cases hs : surviving = []
    · simp [hs, Ended]
    · simp only [hs, if_false, Option.getD_some, Serde.writeMessages, ← joinLines_eq_unlines]
      exact ended_joinLines _
  · intro l hl
    rw [hlines] at hl
    obtain ⟨msg, -, rfl⟩ := List.mem_map.1 hl
    simp
  · rw [h.messages_rotate]
    rfl
  · simp only [rotatedRecord, archivedRecord, h.start, List.map_append, List.sum_append,
      List.map_cons, List.map_nil, List.sum_singleton]
    push_cast
    omega
  · intro s hs
    simp only [rotatedRecord]
    rcases List.mem_append.1 hs with hs | hs
    · have := h.below s hs
      omega
    · rw [List.mem_singleton.1 hs]
      rfl

/-- A new session is tidy. -/
lemma tidy_createSession (J : Serde) :
    ∃ m act, Tidy J SessionDir.createSession m [] act ∧ m.messageCount = 0 ∧
      act.compactions = [] := by
  refine ⟨_, _, ⟨⟨rfl, rfl, rfl, by simp, fun _ _ => rfl⟩, .inl rfl, ?_, rfl, by simp, ?_⟩, rfl,
    rfl⟩
  · simp [SessionDir.createSession]
  · simp

end MyClaw
