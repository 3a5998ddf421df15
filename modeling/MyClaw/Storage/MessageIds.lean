import MyClaw.Storage.Tidy

set_option autoImplicit false

/-!
# Message ids

`append_message` returns one more than the global `message_count`; every other operation finds a
message by the start id of the active segment and the position of its line.  The two counts start
together and drift apart: a rotation renumbers the survivors after the ids already given out and
leaves `message_count` alone, `delete_message_by_id` takes a line away and leaves `message_count`
alone, and `remove_last_message` cannot take `message_count` below 0.

## Main definitions

* `realRows` — the rows of the active segment that are no summaries.
* `AppendIdentifies` — the id that an append returns is the id of the appended message.
* `drift` — how far a run has moved the two counts apart.

## Main results

* `Tidy.driftRun` — what every operation does to the two counts.
* `appendIdentifies_iff` — after any run, the id that an append returns identifies the
  message exactly when the drift is 0.
-/

namespace MyClaw

open Lines

/-! ## The property -/

/-- The rows of the active segment under their global ids; summaries, which have id 0, left
out. -/
def realRows (J : Serde) (d : SessionDir) : List (Int × ChatMessage) :=
  (d.readHistoryWithIds J).filter (·.1 ≠ 0)

/-- **An append identifies its message**: the rows after it are the rows before it and the message
under the returned id; an update with that id replaces that row and no other, and a query with it
answers from that message. -/
def AppendIdentifies (J : Serde) (d : SessionDir) (msg : ChatMessage) : Prop :=
  ∃ d' id, d.appendMessage J msg = some (d', id) ∧
    realRows J d' = realRows J d ++ [(id, msg)] ∧
    (∀ new, (d'.updateMessage J id new).2 = true ∧
      realRows J (d'.updateMessage J id new).1 = realRows J d ++ [(id, new)]) ∧
    d'.queryMessage J id = some (msg.role, SessionDir.preview msg.textContent)

/-! ## The ghost count -/

/-- What an operation adds to the drift. -/
def driftStep (J : Serde) (d : SessionDir) (drift : Int) : Op → Int
  | .append _ | .update _ _ => drift
  | .delete id =>
    if d.startId ≤ id ∧ id < d.startId + (d.messages J).length then drift - 1 else drift
  | .removeLast =>
    if d.messages J ≠ [] ∧ (d.metaJson.map SessionMeta.messageCount) = some 0 then drift - 1
    else drift
  | .truncate keepCount => if keepCount < (d.messages J).length then 0 else drift
  | .rotate surviving => drift + (SessionDir.realMessages surviving).length

/-- A step of the directory together with the drift. -/
def driftRun (J : Serde) (s : SessionDir × Int) (op : Op) : SessionDir × Int :=
  (s.1.apply J op, driftStep J s.1 s.2 op)

/-- **The drift of a run** from a new session: since the last truncation that cut something, the
real messages that rotations carried over, less the messages deleted by id and those removed from
the end when `message_count` was 0. -/
def drift (J : Serde) (ops : List Op) : Int :=
  (Run.exec (driftRun J) (SessionDir.createSession, 0) ops).2

lemma exec_driftRun_fst (J : Serde) (s : SessionDir × Int) (ops : List Op) :
    (Run.exec (driftRun J) s ops).1 = Run.exec (SessionDir.apply J) s.1 ops := by
  induction ops generalizing s with
  | nil => rfl
  | cons op ops ih => exact ih (driftRun J s op)

/-- The real rows of a well-formed directory are its messages, numbered from the start id on. -/
lemma Shape.realRows_eq {d : SessionDir} {m : SessionMeta} {arch : List SegmentRecord}
    {act : SegmentRecord} (J : Serde) (h : Shape d m arch act) (hs : 0 < act.startId) :
    realRows J d = numberFrom act.startId (d.messages J) := by
  have hrows : (numberFrom act.startId (d.messages J)).filter (·.1 ≠ 0) =
      numberFrom act.startId (d.messages J) := by
    rw [List.filter_eq_self]
    intro r hr
    simpa using numberFrom_ne_zero hs _ r hr
  rw [← hrows, realRows, SessionDir.readHistoryWithIds]
  simp only [h.metaJson, h.activeSeg, Option.map_some, Option.getD_some]
  cases hc : d.history with
  | none =>
    rw [filter_insertCompactions (by simp)]
    simp [SessionDir.messages, hc, numberFrom]
  | some c =>
    rw [filter_insertCompactions (by simp)]
    simp [SessionDir.messages, hc]

namespace Tidy

variable {J : Serde} {d : SessionDir} {m : SessionMeta} {arch : List SegmentRecord}
  {act : SegmentRecord}

/-! ## What every operation does to the two counts -/

/-- The next id that a read would give out, against the next id that an append returns. -/
def Drifted (J : Serde) (d : SessionDir) (m : SessionMeta) (act : SegmentRecord) (g : Int) : Prop :=
  act.startId + (d.messages J).length = m.messageCount + 1 + g

variable {g : Int}

/-- An append moves both counts by one. -/
lemma drifted_append (h : Tidy J d m arch act) (hg : Drifted J d m act g) (msg : ChatMessage) :
    ∃ m' arch' act', Tidy J (d.apply J (.append msg)) m' arch' act' ∧
      Drifted J (d.apply J (.append msg)) m' act' g := by
  refine ⟨_, _, _, h.append msg, ?_⟩
  simp only [Drifted, h.messages_append, List.length_append, List.length_singleton,
    SegmentRecord.incr] at hg ⊢
  push_cast
  omega

/-- A deletion by id takes a message away and leaves `message_count` alone. -/
lemma drifted_delete (h : Tidy J d m arch act) (hg : Drifted J d m act g) (id : Int) :
    ∃ m' arch' act', Tidy J (d.apply J (.delete id)) m' arch' act' ∧
      Drifted J (d.apply J (.delete id)) m' act' (driftStep J d g (.delete id)) := by
  by_cases hid : id < act.startId ∨ act.startId + (d.messages J).length ≤ id
  · have hstep : driftStep J d g (.delete id) = g := by
      simp only [driftStep, h.startId]
      rw [if_neg (by omega)]
    rw [h.apply_delete_of_notMem hid, hstep]
    exact ⟨m, arch, act, h, hg⟩
  · have hstep : driftStep J d g (.delete id) = g - 1 := by
      simp only [driftStep, h.startId]
      rw [if_pos (by omega)]
    obtain ⟨c, xs, old, ys, hc, hms, rfl⟩ := exists_message_of_id hid
    obtain ⟨c', heq, hms', hended, hsub⟩ := h.apply_delete hc hms
    have hparses := h.parses
    simp only [hc, Option.getD_some] at hparses
    have hcount := h.count
    simp only [SessionDir.messages, hc, Option.map_some, Option.getD_some, hms] at hcount
    have ht := h.modify m.messageCount (act.count - 1) hended
      (fun l hl => hparses l (hsub l hl)) (by simp [hms', hcount])
    refine ⟨_, _, _, heq ▸ ht, ?_⟩
    rw [hstep]
    simp only [Drifted, heq, SessionDir.messages, hc, Option.map_some, Option.getD_some, hms, hms',
      List.length_append, List.length_cons] at hg ⊢
    push_cast at hg ⊢
    omega

/-- A replaced message moves neither count. -/
lemma drifted_update (h : Tidy J d m arch act) (hg : Drifted J d m act g) (id : Int)
    (msg : ChatMessage) :
    ∃ m' arch' act', Tidy J (d.apply J (.update id msg)) m' arch' act' ∧
      Drifted J (d.apply J (.update id msg)) m' act' g := by
  by_cases hid : id < act.startId ∨ act.startId + (d.messages J).length ≤ id
  · rw [h.apply_update_of_notMem msg hid]
    exact ⟨m, arch, act, h, hg⟩
  · obtain ⟨c, xs, old, ys, hc, hms, rfl⟩ := exists_message_of_id hid
    obtain ⟨c', heq, hms', hended, hsub⟩ := h.apply_update hc hms msg
    have hparses := h.parses
    simp only [hc, Option.getD_some] at hparses
    have hlen : (J.messages c').length = (d.messages J).length := by
      simp [SessionDir.messages, hc, hms, hms']
    refine ⟨m, arch, act, ?_, ?_⟩
    · rw [heq]
      refine ⟨⟨h.metaJson, h.segments, h.segment_act, h.sorted, h.archive⟩, hended, ?_, ?_,
        h.start, h.below⟩
      · intro l hl
        rcases hsub l hl with hl | rfl
        · exact hparses l hl
        · simp
      · rw [h.count, ← hlen]
        rfl
    · rw [Drifted, ← hlen] at hg
      rw [heq]
      exact hg

/-- `remove_last_message` moves both counts by one, unless `message_count` is 0 already. -/
lemma drifted_removeLast (h : Tidy J d m arch act) (hg : Drifted J d m act g) :
    ∃ m' arch' act', Tidy J (d.apply J .removeLast) m' arch' act' ∧
      Drifted J (d.apply J .removeLast) m' act' (driftStep J d g .removeLast) := by
  have hlen := h.length_rawLines
  by_cases hnil : d.messages J = []
  · have hstep : driftStep J d g .removeLast = g := by simp [driftStep, hnil]
    have hl : ∀ c, d.history = some c → rawLines c = [] := by
      intro c hc
      rw [hnil, hc] at hlen
      simpa using hlen
    rw [Shape.apply_removeLast_of_nil hl, hstep]
    exact ⟨m, arch, act, h, hg⟩
  · obtain ⟨c, hc⟩ : ∃ c, d.history = some c := by
      cases hc : d.history with
      | none => simp [SessionDir.messages, hc] at hnil
      | some c => exact ⟨c, rfl⟩
    have hparses := h.parses
    simp only [hc, Option.getD_some] at hparses hlen
    have hne : rawLines c ≠ [] := by
      intro h0
      rw [h0, List.length_nil, eq_comm, List.length_eq_zero_iff] at hlen
      exact hnil hlen
    have hll : LineList (rawLines c).dropLast :=
      (lineList_rawLines c).sublist (List.dropLast_sublist _)
    have hsub : ∀ l ∈ (rawLines c).dropLast, (J.readLine l).isSome := fun l hl =>
      hparses l (List.mem_of_mem_dropLast hl)
    have hms' : (J.messages (joinLines (rawLines c).dropLast)).length =
        (d.messages J).length - 1 := by
      rw [J.messages_joinLines hll, ← (length_filterMap_eq_iff _ _).2 hsub, List.length_dropLast,
        hlen]
    have hpos : 0 < (d.messages J).length := List.length_pos_iff.2 hnil
    have ht := h.modify (m.messageCount - 1) (act.count - 1)
      (ended_joinLines (rawLines c).dropLast)
      (by rw [rawLines_joinLines hll]; exact hsub) (by rw [hms', h.count])
    have heq := h.apply_removeLast (J := J) hc hne
    refine ⟨_, _, _, heq ▸ ht, ?_⟩
    simp only [Drifted, driftStep, h.metaJson, Option.map_some, Option.some.injEq, heq] at hg ⊢
    rw [show SessionDir.messages J { d with
        metaJson := some { m with
          messageCount := m.messageCount - 1, segments := arch ++ [act.decr] }
        history := some (joinLines (rawLines c).dropLast) } =
      J.messages (joinLines (rawLines c).dropLast) from rfl, hms']
    by_cases hz : m.messageCount = 0
    · rw [if_pos ⟨hnil, hz⟩]
      omega
    · rw [if_neg (by simp [hz])]
      omega

/-- A truncation that cuts something sets `message_count` to the total of the table, so that the
two counts agree after it. -/
lemma drifted_truncate (h : Tidy J d m arch act) (hg : Drifted J d m act g) (k : Nat) :
    ∃ m' arch' act', Tidy J (d.apply J (.truncate k)) m' arch' act' ∧
      Drifted J (d.apply J (.truncate k)) m' act' (driftStep J d g (.truncate k)) := by
  have hlen := h.length_rawLines
  by_cases hk : k < (d.messages J).length
  · have hstep : driftStep J d g (.truncate k) = 0 := by simp [driftStep, hk]
    obtain ⟨c, hc⟩ : ∃ c, d.history = some c := by
      cases hc : d.history with
      | none => simp [SessionDir.messages, hc] at hk
      | some c => exact ⟨c, rfl⟩
    have hfilter := h.filter_splitLF
    have hparses := h.parses
    simp only [hc, Option.getD_some] at hparses hlen hfilter
    have hsub : ∀ l ∈ (rawLines c).take k, (J.readLine l).isSome := fun l hl =>
      hparses l (List.mem_of_mem_take hl)
    have hll : LineList ((rawLines c).take k) :=
      (lineList_rawLines c).sublist (List.take_sublist k _)
    have hms' : (J.messages (joinLines ((rawLines c).take k))).length = k := by
      rw [J.messages_joinLines hll, ← (length_filterMap_eq_iff _ _).2 hsub, List.length_take, hlen]
      omega
    have heq := h.apply_truncate (J := J) hc (k := k) (by rw [hfilter, hlen]; exact hk)
    rw [hfilter] at heq
    have ht := h.modify ((arch.map (·.count)).sum + k) k (ended_joinLines ((rawLines c).take k))
      (by rw [rawLines_joinLines hll]; exact hsub) hms'.symm
    refine ⟨_, _, _, heq ▸ ht, ?_⟩
    rw [hstep, heq]
    simp only [Drifted, SessionDir.messages, Option.map_some, Option.getD_some, hms', h.start]
    push_cast
    omega
  · have hstep : driftStep J d g (.truncate k) = g := by simp [driftStep, hk]
    have hle : ∀ c, d.history = some c → ((splitLF c).filter (· ≠ [])).length ≤ k := by
      intro c hc
      have hfilter := h.filter_splitLF
      simp only [hc, Option.getD_some] at hfilter hlen
      rw [hfilter, hlen]
      omega
    rw [Shape.apply_truncate_of_le hle, hstep]
    exact ⟨m, arch, act, h, hg⟩

/-- A rotation gives the survivors new ids and leaves `message_count` alone. -/
lemma drifted_rotate (h : Tidy J d m arch act) (hg : Drifted J d m act g)
    (surviving : List (Int × ChatMessage)) :
    ∃ m' arch' act', Tidy J (d.apply J (.rotate surviving)) m' arch' act' ∧
      Drifted J (d.apply J (.rotate surviving)) m' act'
        (driftStep J d g (.rotate surviving)) := by
  obtain ⟨m', hm', h'⟩ := h.rotate surviving
  refine ⟨m', _, _, h', ?_⟩
  simp only [Drifted, driftStep, h.messages_rotate, hm', rotatedRecord, h.archivedCount_eq] at hg ⊢
  omega

/-- **Every operation on the two counts**: a tidy directory stays tidy, and the counts move apart
by the drift of the operation. -/
theorem driftRun (h : Tidy J d m arch act) (hg : Drifted J d m act g) (op : Op) :
    ∃ m' arch' act', Tidy J (d.apply J op) m' arch' act' ∧
      Drifted J (d.apply J op) m' act' (driftStep J d g op) := by
  cases op with
  | append msg => exact h.drifted_append hg msg
  | update id msg => exact h.drifted_update hg id msg
  | delete id => exact h.drifted_delete hg id
  | removeLast => exact h.drifted_removeLast hg
  | truncate k => exact h.drifted_truncate hg k
  | rotate surviving => exact h.drifted_rotate hg surviving

end Tidy

/-- A new session is tidy, and its two counts agree. -/
lemma drifted_createSession (J : Serde) : ∃ m arch act,
    Tidy J SessionDir.createSession m arch act ∧
      Tidy.Drifted J SessionDir.createSession m act 0 := by
  obtain ⟨m, act, h, hm, -⟩ := tidy_createSession J
  refine ⟨m, [], act, h, ?_⟩
  simp [Tidy.Drifted, h.start, hm, SessionDir.createSession, SessionDir.messages]

/-- After any run from a new session the directory is tidy, and its two counts are apart by the
drift of the run. -/
theorem tidy_exec (J : Serde) (ops : List Op) : ∃ m arch act,
    Tidy J (Run.exec (SessionDir.apply J) SessionDir.createSession ops) m arch act ∧
      Tidy.Drifted J (Run.exec (SessionDir.apply J) SessionDir.createSession ops) m act
        (drift J ops) := by
  have hstep : ∀ (s : SessionDir × Int) (op : Op),
      (∃ m arch act, Tidy J s.1 m arch act ∧ Tidy.Drifted J s.1 m act s.2) →
      ∃ m arch act, Tidy J (driftRun J s op).1 m arch act ∧
        Tidy.Drifted J (driftRun J s op).1 m act (driftRun J s op).2 := by
    rintro s op ⟨m, arch, act, h, hg⟩
    exact h.driftRun hg op
  have hrun := Run.exec_of_step hstep (s := (SessionDir.createSession, 0)) (drifted_createSession J) ops
  rw [exec_driftRun_fst] at hrun
  exact hrun

/-! ## The id of an appended message -/

section Append

variable {J : Serde} {d : SessionDir} {m : SessionMeta} {arch : List SegmentRecord}
  {act : SegmentRecord}

/-- A query with the id of the last message of a tidy directory answers from that message. -/
lemma Tidy.queryMessage_last (h : Tidy J d m arch act) {ms : List ChatMessage}
    {msg : ChatMessage} (hms : d.messages J = ms ++ [msg]) :
    d.queryMessage J (act.startId + ms.length) =
      some (msg.role, SessionDir.preview msg.textContent) := by
  obtain ⟨c, hc⟩ : ∃ c, d.history = some c := by
    cases hc : d.history with
    | none => simp [SessionDir.messages, hc] at hms
    | some c => exact ⟨c, rfl⟩
  have hcount := h.count
  rw [hms, List.length_append, List.length_singleton] at hcount
  simp only [SessionDir.messages, hc, Option.map_some, Option.getD_some] at hms
  have hfind : m.segments.find? (fun s => decide
      (s.startId ≤ act.startId + (ms.length : Int) ∧
        act.startId + (ms.length : Int) < s.startId + s.count)) = some act := by
    rw [h.segments, List.find?_append, List.find?_eq_none.2]
    · have hlt : act.startId + (ms.length : Int) < act.startId + act.count := by omega
      have hle : act.startId ≤ act.startId + (ms.length : Int) := by omega
      simpa [hle] using hlt
    · intro s hs
      have := h.below s hs
      simp only [decide_eq_true_eq, not_and]
      omega
  have hsub : (act.startId + (ms.length : Int) - act.startId).toNat = ms.length := by omega
  obtain ⟨pre, line, post, hlines, hidx, -, hline, -⟩ :=
    nthParseableLineIndex_of_messages J ((filterMap_splitLF J c).trans hms)
  have hget : (splitLF c)[pre.length]? = some line := by simp [hlines]
  simp only [SessionDir.queryMessage, h.metaJson, hfind, h.segment_act, hc, hsub, hidx, hget, hline,
    Option.bind_eq_bind, Option.bind_some, beq_self_eq_true, if_true]

/-- An update with the id of the last message of a tidy directory replaces that row. -/
lemma Tidy.updateMessage_last (h : Tidy J d m arch act) {ms : List ChatMessage}
    {msg : ChatMessage} (hms : d.messages J = ms ++ [msg]) (new : ChatMessage) :
    (d.updateMessage J (act.startId + ms.length) new).2 = true ∧
      realRows J (d.updateMessage J (act.startId + ms.length) new).1 =
        numberFrom act.startId (ms ++ [new]) := by
  obtain ⟨c, hc⟩ : ∃ c, d.history = some c := by
    cases hc : d.history with
    | none => simp [SessionDir.messages, hc] at hms
    | some c => exact ⟨c, rfl⟩
  simp only [SessionDir.messages, hc, Option.map_some, Option.getD_some] at hms
  obtain ⟨c', heq, hms', -⟩ := h.updateMessage_eq hc hms new
  have hshape : Shape { d with history := some c' } m arch act :=
    ⟨h.metaJson, h.segments, h.segment_act, h.sorted, h.archive⟩
  rw [heq]
  refine ⟨rfl, ?_⟩
  rw [hshape.realRows_eq J h.startId_pos]
  simp [SessionDir.messages, hms']

/-- On a tidy directory the returned id identifies the appended message exactly when the next id
of a read is one more than `message_count`. -/
lemma Tidy.appendIdentifies_iff_drifted (h : Tidy J d m arch act) (msg : ChatMessage) :
    AppendIdentifies J d msg ↔ Drifted J d m act 0 := by
  -- the directory after the append, its messages and its rows
  have h' := h.append msg
  have hms' := h.messages_append msg
  have hd' : d.appendMessage J msg =
      some (d.apply J (.append msg), (m.messageCount : Int) + 1) := by
    have hid := h.appendMessage_id (J := J) msg
    cases ha : d.appendMessage J msg with
    | none => simp [ha] at hid
    | some p =>
      simp only [ha, Option.map_some, Option.some.injEq] at hid
      simp [SessionDir.apply, ha, ← hid]
  have hrows : realRows J d = numberFrom act.startId (d.messages J) :=
    h.realRows_eq J h.startId_pos
  have hstart : act.incr.startId = act.startId := rfl
  have hrows' : realRows J (d.apply J (.append msg)) =
      realRows J d ++ [(act.startId + (d.messages J).length, msg)] := by
    rw [h'.realRows_eq J h'.startId_pos, hms', hrows, numberFrom_append, hstart]
  simp only [AppendIdentifies, hd', Option.some.injEq, Prod.mk.injEq, Drifted, Int.add_zero]
  constructor
  · rintro ⟨d'', id, ⟨rfl, rfl⟩, hr, -⟩
    rw [hrows'] at hr
    have := List.append_cancel_left hr
    simpa using this
  · intro heq
    rw [← heq]
    refine ⟨_, _, ⟨rfl, rfl⟩, hrows', fun new => ?_, ?_⟩
    · have hu := h'.updateMessage_last hms' new
      rwa [numberFrom_append, hstart, ← hrows] at hu
    · have hq := h'.queryMessage_last hms'
      rwa [hstart] at hq

/-- On a tidy directory whose counts are apart by `g` the returned id identifies the appended
message exactly when `g` is 0. -/
lemma Tidy.appendIdentifies_iff_drift {g : Int} (h : Tidy J d m arch act)
    (hg : Drifted J d m act g) (msg : ChatMessage) : AppendIdentifies J d msg ↔ g = 0 := by
  rw [h.appendIdentifies_iff_drifted]
  simp only [Drifted] at hg ⊢
  omega

end Append

/-- **Message ids**: after any run of operations from a new session, the id that an append returns
is the id under which the message is read, updated and queried exactly when the drift of the run
is 0. -/
theorem appendIdentifies_iff (J : Serde) (ops : List Op) (msg : ChatMessage) :
    AppendIdentifies J (Run.exec (SessionDir.apply J) SessionDir.createSession ops) msg ↔
      drift J ops = 0 := by
  obtain ⟨m, arch, act, h, hg⟩ := tidy_exec J ops
  exact h.appendIdentifies_iff_drift hg msg

namespace DeleteThenAppend

/-- Two messages. -/
def twoAppends : List Op :=
  [.append (ChatMessage.userText "one"), .append (ChatMessage.userText "two")]

/-- The directory that holds them. -/
lemma messages_twoAppends (J : Serde) :
    (Run.exec (SessionDir.apply J) SessionDir.createSession twoAppends).messages J =
      [ChatMessage.userText "one", ChatMessage.userText "two"] := by
  have hfile : (Run.exec (SessionDir.apply J) SessionDir.createSession twoAppends).history =
      some ([] ++ (J.toString (ChatMessage.userText "one") ++ [lf]) ++
        (J.toString (ChatMessage.userText "two") ++ [lf])) := rfl
  have hended : Ended ([] ++ (J.toString (ChatMessage.userText "one") ++ [lf])) := by
    right
    rw [← List.append_assoc, List.getLast?_concat]
  simp only [SessionDir.messages, hfile, Option.map_some, Option.getD_some]
  rw [messages_append_of_ended J hended, messages_append_of_ended J (.inl rfl)]
  simp

lemma drift_delete (J : Serde) : drift J (twoAppends ++ [.delete 1]) = -1 := by
  have hstart : (Run.exec (SessionDir.apply J) SessionDir.createSession twoAppends).startId = 1 :=
    rfl
  have hdrift : drift J (twoAppends ++ [.delete 1]) =
      driftStep J (Run.exec (SessionDir.apply J) SessionDir.createSession twoAppends) 0
        (.delete 1) := rfl
  rw [hdrift, driftStep, hstart, messages_twoAppends]
  decide

end DeleteThenAppend

open DeleteThenAppend in
/-- Two messages are appended and the first is deleted by its id; the next append returns 3 for
the message that is read under id 2. -/
theorem not_appendIdentifies_after_delete :
    ¬ AppendIdentifies plainSerde (Run.exec (SessionDir.apply plainSerde)
      SessionDir.createSession (twoAppends ++ [.delete 1])) (ChatMessage.userText "three") := by
  obtain ⟨m, arch, act, h, hg⟩ := tidy_exec plainSerde (twoAppends ++ [.delete 1])
  rw [h.appendIdentifies_iff_drift hg, drift_delete]
  decide

end MyClaw
