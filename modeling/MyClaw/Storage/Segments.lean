import MyClaw.Lib.Run
import MyClaw.Storage.Shape
import MyClaw.Storage.PlainSerde
import Mathlib.Data.List.Chain

set_option autoImplicit false

/-!
# The segment table as a partition of the global ids

The records of `meta.segments` claim an interval of global ids each.  The table is a partition when,
in the order of the segment numbers, each record starts where its predecessor ends and counts the
messages that its own file really holds.  `append_message`, `remove_last_message` and
`truncate_messages` keep the count by arithmetic, `rotate_history_impl` recounts it from the raw
file, and both are right only for files whose lines all hold messages.

## Main definitions

* `Partition` — the table of a directory is a partition.
* `SegEvent`, `segStep` — an operation, or a torn write anywhere in the active file.
* `SegOk` — the lines that a step miscounts are not there.

## Main results

* `partition_segStep_iff` — a step from a partition leads to a partition exactly when
  `SegOk` holds of it.
* `partition_always_iff` — a run keeps the partition exactly when all of its steps meet
  `SegOk`.
-/

namespace MyClaw

open Lines

/-! ## The property -/

/-- `t` continues the ids of `s`. -/
def Adjacent (s t : SegmentRecord) : Prop :=
  t.startId = s.startId + s.count ∧ (0 < s.count → s.startId < t.startId)

/-- The file of a segment: the active file or an archived one. -/
def segmentFile (d : SessionDir) (m : SessionMeta) (s : SegmentRecord) : Option Bytes :=
  if s.segment = m.segment then d.history else d.archive s.segment

/-- The number of messages that a file holds, none when it is missing. -/
def messageTotal (J : Serde) (file : Option Bytes) : Nat := ((file.map J.messages).getD []).length

/-- **Partition**: ordered by segment number, each record continues the ids of the one before it,
and each record counts the messages of its file. -/
def Partition (J : Serde) (d : SessionDir) : Prop :=
  ∀ m, d.metaJson = some m →
    (m.segments.mergeSort fun s t => decide (s.segment ≤ t.segment)).IsChain Adjacent ∧
    ∀ s ∈ m.segments, s.count = messageTotal J (segmentFile d m s)

/-! ## Steps -/

/-- A step of a session's history: an operation, or a torn write, which changes the bytes of the
active file and none of its messages. -/
inductive SegEvent
  | op (op : Op)
  | torn (content : Bytes)

/-- The directory after a step. A write that changed the messages is no torn line, and is left
out. -/
def segStep (J : Serde) (d : SessionDir) : SegEvent → SessionDir
  | .op op => d.apply J op
  | .torn content =>
    if J.messages content = d.messages J then { d with history := some content } else d

/-- A torn write replaces the bytes of the active file. -/
lemma segStep_torn {J : Serde} {d : SessionDir} {content : Bytes}
    (h : J.messages content = d.messages J) :
    segStep J d (.torn content) = { d with history := some content } := if_pos h

/-- The lines that a step miscounts are not there:
* an append is read as a message together with the open line it lands on, which holds none itself;
* the line that `remove_last_message` drops holds a message, or no line does;
* the lines that `truncate_messages` keeps hold messages, unless it keeps them all;
* every non-empty line of a rotated file holds a message, or the file is not UTF-8 and holds
  none. -/
def SegOk (J : Serde) (d : SessionDir) : SegEvent → Prop
  | .op (.append msg) =>
    let open_ := openLine (d.history.getD [])
    J.readLine open_ = none ∧ (J.readLine (open_ ++ J.toString msg)).isSome
  | .op .removeLast => ∀ c, d.history = some c →
    J.messages c = [] ∨ ∃ l, (rawLines c).getLast? = some l ∧ (J.readLine l).isSome
  | .op (.truncate k) => ∀ c, d.history = some c →
    let lines := (splitLF c).filter (· ≠ [])
    lines.length ≤ k ∨ ∀ l ∈ lines.take k, (J.readLine l).isSome
  | .op (.rotate _) => ∀ c, d.history = some c →
    (∀ l ∈ strLines c, l ≠ [] → (J.readLine l).isSome) ∨
      ((∃ l ∈ rawLines c, validUtf8 l = false) ∧ J.messages c = [])
  | .op (.update _ _) | .op (.delete _) | .torn _ => True

/-! ## The partition of a well-formed directory -/

section

variable {J : Serde} {d d' : SessionDir} {m m' : SessionMeta} {arch : List SegmentRecord}
  {act act' : SegmentRecord}

/-- The table of a well-formed directory is in order. -/
lemma Shape.mergeSort_eq (h : Shape d m arch act) :
    m.segments.mergeSort (fun s t => decide (s.segment ≤ t.segment)) = arch ++ [act] := by
  rw [List.mergeSort_of_pairwise, h.segments]
  exact h.sorted.imp fun hst => by simpa using hst.le

/-- The partition of a well-formed directory, read off its table. -/
lemma Shape.partition_iff (h : Shape d m arch act) :
    Partition J d ↔ (arch ++ [act]).IsChain Adjacent ∧
      (∀ s ∈ arch, s.count = messageTotal J (d.archive s.segment)) ∧
      act.count = (d.messages J).length := by
  have harch : ∀ s ∈ arch, segmentFile d m s = d.archive s.segment := fun s hs =>
    if_neg (h.lt_segment hs).ne
  have hact : segmentFile d m act = d.history := if_pos h.segment_act
  simp only [Partition, h.metaJson, Option.some.injEq, forall_eq', h.mergeSort_eq]
  simp only [h.segments, List.mem_append, List.mem_singleton]
  refine and_congr_right fun _ => ?_
  constructor
  · intro hc
    refine ⟨fun s hs => ?_, ?_⟩
    · rw [hc s (.inl hs), harch s hs]
    · rw [hc act (.inr rfl), hact]
      rfl
  · rintro ⟨hs, ha⟩ s (hsm | rfl)
    · rw [hs s hsm, harch s hsm]
    · rw [ha, hact]
      rfl

/-- A chain does not see the count of its last record. -/
lemma isChain_congr_last (hstart : act'.startId = act.startId) :
    (arch ++ [act']).IsChain Adjacent ↔ (arch ++ [act]).IsChain Adjacent := by
  simp only [List.isChain_append, List.isChain_singleton, List.head?_cons, Option.mem_def,
    Option.some.injEq, forall_eq', Adjacent, hstart]

/-- **Steps inside a segment**: when only the active record, not its start, and the active file
change, the partition comes down to the new count. -/
lemma Shape.partition_modify (h : Shape d m arch act) (h' : Shape d' m' arch act')
    (hP : Partition J d) (hstart : act'.startId = act.startId) (harch : d'.archive = d.archive) :
    Partition J d' ↔ act'.count = (d'.messages J).length := by
  obtain ⟨hchain, hcount, -⟩ := h.partition_iff.1 hP
  rw [h'.partition_iff, isChain_congr_last hstart, harch]
  exact ⟨fun hq => hq.2.2, fun hq => ⟨hchain, hcount, hq⟩⟩

/-- A directory that differs in bytes only, not in messages, has the same partition. -/
lemma Shape.partition_file (h : Shape d m arch act) (hP : Partition J d) (c : Bytes)
    (hc : J.messages c = d.messages J) : Partition J { d with history := some c } := by
  have h' : Shape { d with history := some c } m arch act :=
    ⟨h.metaJson, h.segments, h.segment_act, h.sorted, h.archive⟩
  rw [h.partition_modify h' hP rfl rfl, (h.partition_iff.1 hP).2.2]
  simp [SessionDir.messages, hc]

/-! ## One step -/

/-- An append counts one message more. -/
lemma Shape.partition_append_iff (h : Shape d m arch act) (hP : Partition J d)
    (msg : ChatMessage) :
    Partition J (d.apply J (.append msg)) ↔ SegOk J d (.op (.append msg)) := by
  have hcount := (h.partition_iff.1 hP).2.2
  have h' := h.apply_append (J := J) msg ▸ h.modify act.incr _ _ rfl
  rw [h.partition_modify h' hP rfl (by rw [h.apply_append])]
  obtain ⟨ms, hold, hnew⟩ := messages_append J (d.history.getD []) msg
  have hmsgs : d.messages J = J.messages (d.history.getD []) := by
    cases hc : d.history <;> simp [SessionDir.messages, hc]
  have hmsgs' : (d.apply J (.append msg)).messages J =
      J.messages (d.history.getD [] ++ (J.toString msg ++ [lf])) := by
    rw [h.apply_append]
    rfl
  rw [hmsgs', hnew]
  simp only [SegmentRecord.incr, hcount, hmsgs, hold, List.length_append, SegOk]
  cases J.readLine (openLine (d.history.getD [])) with
  | none => cases J.readLine (openLine (d.history.getD []) ++ J.toString msg) <;> simp
  | some old =>
    -- the open line held a message, which the glued line at best replaces
    cases J.readLine (openLine (d.history.getD []) ++ J.toString msg) with
    | none =>
      simp
      omega
    | some new => simp

/-- `remove_last_message` counts one message less. -/
lemma Shape.partition_removeLast_iff (h : Shape d m arch act) (hP : Partition J d) :
    Partition J (d.apply J .removeLast) ↔ SegOk J d (.op .removeLast) := by
  have hcount := (h.partition_iff.1 hP).2.2
  by_cases hl : ∀ c, d.history = some c → rawLines c = []
  · rw [Shape.apply_removeLast_of_nil hl]
    refine ⟨fun _ c hc => .inl ?_, fun _ => hP⟩
    rw [J.messages_eq, hl c hc, List.filterMap_nil]
  · push Not at hl
    obtain ⟨c, hc, hne⟩ := hl
    have h' := h.apply_removeLast (J := J) hc hne ▸ h.modify act.decr _ _ rfl
    rw [h.partition_modify h' hP rfl (by rw [h.apply_removeLast hc hne])]
    obtain ⟨ls, l, hls⟩ := List.eq_nil_or_concat (rawLines c) |>.resolve_left hne
    rw [List.concat_eq_append] at hls
    have hll : LineList ls := by
      refine (lineList_rawLines c).sublist ?_
      rw [hls]
      exact List.sublist_append_left ls [l]
    have hmsgs' : (d.apply J .removeLast).messages J = ls.filterMap J.readLine := by
      rw [h.apply_removeLast hc hne]
      simp only [SessionDir.messages, Option.map_some, Option.getD_some, hls,
        List.dropLast_concat]
      exact J.messages_joinLines hll
    have hmsgs : J.messages c = ls.filterMap J.readLine ++ (J.readLine l).toList := by
      rw [J.messages_eq, hls, List.filterMap_append]
      cases hr : J.readLine l <;> simp [hr]
    simp only [SessionDir.messages, hc, Option.map_some, Option.getD_some] at hcount
    rw [hmsgs']
    simp only [SegmentRecord.decr, hcount, SegOk, hc, Option.some.injEq, forall_eq', hmsgs, hls,
      List.getLast?_concat, exists_eq_left', List.length_append]
    -- the dropped line holds a message, or the count stays where it was
    cases hr : J.readLine l with
    | none =>
      simp only [Option.toList_none, List.length_nil, Nat.add_zero, List.append_nil,
        Option.isSome_none, Bool.false_eq_true, or_false]
      rw [← List.length_eq_zero_iff]
      omega
    | some msg => simp

/-- `delete_message_by_id` keeps the partition. -/
lemma Shape.partition_delete (h : Shape d m arch act) (hP : Partition J d) (id : Int) :
    Partition J (d.apply J (.delete id)) := by
  have hcount := (h.partition_iff.1 hP).2.2
  by_cases hid : id < act.startId ∨ act.startId + (d.messages J).length ≤ id
  · rw [h.apply_delete_of_notMem hid]
    exact hP
  · obtain ⟨c, xs, old, ys, hc, hms, rfl⟩ := exists_message_of_id hid
    obtain ⟨c', heq, hms', -, -⟩ := h.apply_delete hc hms
    have h' := heq ▸ h.modify act.decr m.messageCount (some c') rfl
    rw [h.partition_modify h' hP rfl (by rw [heq]), heq]
    simp only [SessionDir.messages, hc, Option.map_some, Option.getD_some, hms] at hcount
    simp [SegmentRecord.decr, hcount, SessionDir.messages, hms']

/-- `update_message` keeps the partition. -/
lemma Shape.partition_update (h : Shape d m arch act) (hP : Partition J d) (id : Int)
    (msg : ChatMessage) : Partition J (d.apply J (.update id msg)) := by
  have hcount := (h.partition_iff.1 hP).2.2
  by_cases hid : id < act.startId ∨ act.startId + (d.messages J).length ≤ id
  · rw [h.apply_update_of_notMem msg hid]
    exact hP
  · obtain ⟨c, xs, old, ys, hc, hms, rfl⟩ := exists_message_of_id hid
    obtain ⟨c', heq, hms', -, -⟩ := h.apply_update hc hms msg
    have h' : Shape (d.apply J (.update (act.startId + xs.length) msg)) m arch act := by
      rw [heq]
      exact ⟨h.metaJson, h.segments, h.segment_act, h.sorted, h.archive⟩
    rw [h.partition_modify h' hP rfl (by rw [heq]), heq, hcount]
    simp [SessionDir.messages, hc, hms, hms']

/-- `truncate_messages` counts the lines that it keeps. -/
lemma Shape.partition_truncate_iff (h : Shape d m arch act) (hP : Partition J d) (k : Nat) :
    Partition J (d.apply J (.truncate k)) ↔ SegOk J d (.op (.truncate k)) := by
  by_cases hk : ∀ c, d.history = some c → ((splitLF c).filter (· ≠ [])).length ≤ k
  · rw [Shape.apply_truncate_of_le hk]
    exact ⟨fun _ c hc => .inl (hk c hc), fun _ => hP⟩
  · push Not at hk
    obtain ⟨c, hc, hlt⟩ := hk
    have h' := h.apply_truncate (J := J) hc hlt ▸ h.modify { act with count := k } _ _ rfl
    rw [h.partition_modify h' hP rfl (by rw [h.apply_truncate hc hlt])]
    set kept := ((splitLF c).filter (· ≠ [])).take k with hkept
    have hll : LineList kept := by
      obtain ⟨ls, t, hl, ht, rfl⟩ := exists_unlines_append c
      have hs : LineList (splitLF (unlines ls ++ t)) := by
        rw [splitLF_unlines_append hl ht]
        exact hl.append (by simpa [LineList] using ht)
      exact hs.sublist ((List.take_sublist k _).trans List.filter_sublist)
    have hmsgs' : (d.apply J (.truncate k)).messages J = kept.filterMap J.readLine := by
      rw [h.apply_truncate hc hlt]
      simp only [SessionDir.messages, Option.map_some, Option.getD_some]
      exact J.messages_joinLines hll
    have hlen : kept.length = k := by
      rw [hkept, List.length_take]
      omega
    have hnle : ¬ ((splitLF c).filter (· ≠ [])).length ≤ k := by omega
    simp only [SegOk, hc, Option.some.injEq, forall_eq', hnle, false_or]
    rw [hmsgs', ← hkept, ← length_filterMap_eq_iff, hlen]

/-- What a rotation counts is the messages of the file exactly when the file has no line that is
not empty and holds none, or is not UTF-8 and holds none at all. -/
lemma archivedCount_eq_iff (J : Serde) (c : Bytes) :
    SessionDir.archivedCount (some c) = (J.messages c).length ↔
      (∀ l ∈ strLines c, l ≠ [] → (J.readLine l).isSome) ∨
        ((∃ l ∈ rawLines c, validUtf8 l = false) ∧ J.messages c = []) := by
  have hutf := validUtf8_iff_rawLines c
  simp only [SessionDir.archivedCount]
  by_cases hv : validUtf8 c = true
  · have hno : ¬ ∃ l ∈ rawLines c, validUtf8 l = false := by
      rintro ⟨l, hl, hf⟩
      rw [hutf.1 hv l hl] at hf
      exact absurd hf (by decide)
    rw [if_pos hv, Serde.messages, ← filterMap_filter_ne_nil, length_filterMap_eq_iff]
    simp [hno]
  · have hex : ∃ l ∈ rawLines c, validUtf8 l = false := by
      by_contra hno
      push Not at hno
      exact hv (hutf.2 fun l hl => by simpa using hno l hl)
    rw [if_neg hv, eq_comm, List.length_eq_zero_iff]
    constructor
    · exact fun hms => .inr ⟨hex, hms⟩
    · rintro (hall | ⟨-, hms⟩)
      · -- a line that is not UTF-8 would be a non-empty line that holds no message
        obtain ⟨l, hl, hf⟩ := hex
        exfalso
        have hread : J.readLine l = none := by simp [Serde.readLine, hf]
        obtain ⟨ls, t, hls, ht, rfl⟩ := exists_unlines_append c
        rw [rawLines_unlines_append hls ht, List.mem_append] at hl
        rw [strLines_unlines_append hls ht] at hall
        have hstrip : validUtf8 (stripCR l) = validUtf8 l :=
          CRInsensitive.stripCR (f := validUtf8) Serde.validUtf8_cr l
        have hnil : ∀ u : Bytes, validUtf8 u = false → u ≠ [] := by
          rintro u hu rfl
          exact absurd hu (by decide)
        rcases hl with hl | hl
        · have := hall (stripCR l) (by simp [List.mem_map_of_mem hl])
            (hnil _ (hstrip.trans hf))
          rw [J.crInsensitive_readLine.stripCR, hread] at this
          exact absurd this (by decide)
        · have := hall l (by simp [hl]) (hnil l hf)
          rw [hread] at this
          exact absurd this (by decide)
      · exact hms

/-- A rotation recounts the file that it archives. -/
lemma Shape.partition_rotate_iff (h : Shape d m arch act) (hP : Partition J d)
    (surviving : List (Int × ChatMessage)) :
    Partition J (d.apply J (.rotate surviving)) ↔ SegOk J d (.op (.rotate surviving)) := by
  obtain ⟨hchain, hcounts, hcount⟩ := h.partition_iff.1 hP
  obtain ⟨m', -, h'⟩ := h.rotate (J := J) surviving
  have hactive : (rotatedRecord d m act surviving).count =
      ((d.apply J (.rotate surviving)).messages J).length := by
    rw [h.apply_rotate]
    by_cases hs : surviving = []
    · simp [rotatedRecord, SessionDir.messages, SessionDir.realMessages, hs]
    · simp [rotatedRecord, SessionDir.messages, hs]
  have harchive : ∀ s ∈ arch,
      s.count = messageTotal J ((d.apply J (.rotate surviving)).archive s.segment) := by
    intro s hs
    rw [h.apply_rotate]
    simp only [Function.update_of_ne (h.lt_segment hs).ne]
    exact hcounts s hs
  have hfile : (d.apply J (.rotate surviving)).archive act.segment = d.history := by
    rw [h.apply_rotate, h.segment_act]
    simp
  have hlinks : (arch ++ [archivedRecord d act] ++ [rotatedRecord d m act surviving]).IsChain
      Adjacent := by
    have hstart : (archivedRecord d act).startId = act.startId := rfl
    rw [List.isChain_append, isChain_congr_last hstart]
    refine ⟨hchain, List.isChain_singleton _, ?_⟩
    intro s hs t ht
    rw [List.getLast?_concat, Option.mem_some] at hs
    rw [List.head?_cons, Option.mem_some] at ht
    subst hs ht
    refine ⟨rfl, fun hpos => ?_⟩
    simp only [archivedRecord, rotatedRecord] at hpos ⊢
    omega
  have hiff : Partition J (d.apply J (.rotate surviving)) ↔
      SessionDir.archivedCount d.history = messageTotal J d.history := by
    rw [h'.partition_iff]
    constructor
    · rintro ⟨-, hq, -⟩
      have := hq (archivedRecord d act) (by simp)
      rwa [show (archivedRecord d act).segment = act.segment from rfl, hfile] at this
    · intro hq
      refine ⟨hlinks, fun s hs => ?_, hactive⟩
      rcases List.mem_append.1 hs with hs | hs
      · exact harchive s hs
      · rw [List.mem_singleton.1 hs]
        rw [show (archivedRecord d act).segment = act.segment from rfl, hfile]
        exact hq
  rw [hiff]
  cases hc : d.history with
  | none => simp [SessionDir.archivedCount, messageTotal, SegOk, hc]
  | some c =>
    simp only [SegOk, hc, Option.some.injEq, forall_eq']
    exact archivedCount_eq_iff J c

end

/-- **One step**: from a partition, a step leads to a partition exactly when the lines that it
miscounts are not there. -/
theorem partition_segStep_iff (J : Serde) (d : SessionDir) (e : SegEvent)
    (hshape : ∃ m arch act, Shape d m arch act) (hP : Partition J d) :
    Partition J (segStep J d e) ↔ SegOk J d e := by
  obtain ⟨m, arch, act, h⟩ := hshape
  cases e with
  | op op =>
    cases op with
    | append msg => exact h.partition_append_iff hP msg
    | update id msg => exact iff_of_true (h.partition_update hP id msg) trivial
    | delete id => exact iff_of_true (h.partition_delete hP id) trivial
    | removeLast => exact h.partition_removeLast_iff hP
    | truncate k => exact h.partition_truncate_iff hP k
    | rotate surviving => exact h.partition_rotate_iff hP surviving
  | torn content =>
    refine iff_of_true ?_ trivial
    simp only [segStep]
    split
    case isTrue hc => exact h.partition_file hP content hc
    case isFalse => exact hP

/-- Every step keeps the form of the directory. -/
lemma exists_shape_segStep (J : Serde) (d : SessionDir) (e : SegEvent)
    (h : ∃ m arch act, Shape d m arch act) : ∃ m arch act, Shape (segStep J d e) m arch act := by
  cases e with
  | op op => exact exists_shape_apply J h op
  | torn content =>
    obtain ⟨m, arch, act, h⟩ := h
    simp only [segStep]
    split
    · exact ⟨m, arch, act, h.metaJson, h.segments, h.segment_act, h.sorted, h.archive⟩
    · exact ⟨m, arch, act, h⟩

/-- A new session has the partition of no messages. -/
lemma partition_createSession (J : Serde) : Partition J SessionDir.createSession := by
  intro m hm
  obtain rfl := Option.some.inj hm
  simp [SessionDir.createSession, segmentFile, messageTotal]

/-! ## Runs -/

/-- **The segment table through a run**: from a new session, and with torn lines anywhere, the
table is a partition in every state of a run exactly when every step of the run finds none of the
lines that it miscounts. -/
theorem partition_always_iff (J : Serde) (es : List SegEvent) :
    Run.Always (segStep J) (Partition J) SessionDir.createSession es ↔
      Run.EachStep (segStep J) (SegOk J) SessionDir.createSession es :=
  Run.always_iff_eachStep (exists_shape_segStep J) (partition_segStep_iff J) shape_createSession
    (partition_createSession J)

/-! ## A torn line and a rotation -/

namespace TornRotation

/-- The message of the run. -/
def hello : ChatMessage := ChatMessage.userText "hello"

/-- The first eleven bytes of a record, up to a role cut short. -/
def fragment : Bytes := [0x7B, 0x22, 0x72, 0x6F, 0x6C, 0x65, 0x22, 0x3A, 0x22, 0x75, 0x73]

/-- The file of one message and a record cut short by a killed append. -/
noncomputable def content : Bytes := unlines [plainSerde.toString hello] ++ fragment

/-- One message is appended, the next append is killed halfway, and the history is rotated. -/
noncomputable def events : List SegEvent :=
  [.op (.append hello), .torn content, .op (.rotate [])]

lemma lf_notMem_fragment : lf ∉ fragment := by decide

lemma lineList_hello : LineList [plainSerde.toString hello] := by
  intro l hl
  rw [List.mem_singleton.1 hl]
  exact plainSerde.lf_notMem_toString hello

lemma readLine_fragment : plainSerde.readLine fragment = none :=
  plainSerde_readLine_eq_none (b := 0x73) rfl (by decide)

lemma messages_content : plainSerde.messages content = [hello] := by
  rw [plainSerde.messages_eq, content, rawLines_unlines_append lineList_hello lf_notMem_fragment,
    List.filterMap_append, filterMap_tailLine, readLine_fragment]
  simp

/-- The file after the first append. -/
lemma history_append (J : Serde) :
    (segStep J SessionDir.createSession (.op (.append hello))).history =
      some ([] ++ (J.toString hello ++ [lf])) := rfl

lemma messages_append_hello (J : Serde) :
    (segStep J SessionDir.createSession (.op (.append hello))).messages J = [hello] := by
  have hended : Ended [] := .inl rfl
  simp only [SessionDir.messages, history_append, Option.map_some, Option.getD_some]
  rw [messages_append_of_ended J hended, J.messages_nil]
  rfl

end TornRotation

open TornRotation in
/-- One message, one record cut short and a rotation: the archived record counts two messages in a
file that holds one. -/
theorem not_partition_always_tornRotation :
    ¬ Run.Always (segStep plainSerde) (Partition plainSerde) SessionDir.createSession events := by
  rw [events, Run.always_iff_eachStep (exists_shape_segStep plainSerde)
    (partition_segStep_iff plainSerde) shape_createSession (partition_createSession plainSerde)]
  have htorn : (segStep plainSerde (segStep plainSerde SessionDir.createSession
      (.op (.append hello))) (.torn content)).history = some content := by
    rw [segStep_torn (messages_content.trans (messages_append_hello plainSerde).symm)]
  rintro ⟨-, -, hrotate, -⟩
  rcases hrotate content htorn with hall | ⟨-, hnone⟩
  · have hmem : fragment ∈ strLines content := by
      rw [content, strLines_unlines_append lineList_hello lf_notMem_fragment]
      simp [mem_tailLine, fragment]
    have := hall fragment hmem (by decide)
    rw [readLine_fragment] at this
    exact absurd this (by decide)
  · rw [messages_content] at hnone
    exact absurd hnone (by simp)

end MyClaw
