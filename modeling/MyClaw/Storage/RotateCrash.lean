import MyClaw.Storage.Summaries

set_option autoImplicit false

/-!
# A crash in the middle of a rotation

`rotate_history_impl` changes two files and the archive one after the other: the active
`history.jsonl` is renamed into the archive, a new one is created and filled line by line, and
`meta.json` with the new segment record is written last.  A crash after any of these operations
leaves a directory that `read_history_with_ids` reads through the record of the old segment.  This
file lists the operations, shows that together they are the rotation, and finds exactly the
rotations of which every prefix reads as the old history or as the new one.

## Main definitions

* `FileOp` — one operation on the files of a session, and `FileOp.run`, its effect.
* `rotateOps` — the operations of `rotate_history_impl`, in the order of the source.
* `CrashAtomic` — after every prefix the reader yields the old messages or the new ones.
* `RotatesAtomically` — the condition on the directory and the survivors.

## Main results

* `exec_rotateOps` — all operations together are `rotate_history_impl`.
* `crashAtomic_iff` — a rotation is crash-atomic exactly when it rotates atomically: in
  particular at most one real message survives.
* `not_crashAtomic_twoMessages` — two messages and a summary.

## Implementation notes

`meta.json` is written to a temporary file that is then renamed, so it is one operation.  The blobs
that the rotation externalizes and sweeps are no part of the model; the sweep keeps its place in the
list without an effect.
-/

namespace MyClaw

open Lines

/-! ## The operations of a rotation -/

/-- One operation of a rotation on the files of a session. -/
inductive FileOp
  /-- `fs::create_dir_all` of the archive directory. -/
  | createArchiveDir
  /-- `fs::rename` of `history.jsonl` to the archive file of a segment. -/
  | renameToArchive (segment : Nat)
  /-- `fs::File::create` of `history.jsonl`. -/
  | createHistory
  /-- `writeln!` of one message. -/
  | writeLine (json : Bytes)
  /-- `flush` and `sync_all`. -/
  | syncHistory
  /-- `sweep_blobs`. -/
  | sweepBlobs
  /-- `write_meta`. -/
  | writeMeta (m : SessionMeta)

/-- The directory after an operation. -/
def FileOp.run (d : SessionDir) : FileOp → SessionDir
  | .createArchiveDir | .syncHistory | .sweepBlobs => d
  | .renameToArchive segment =>
    match d.history with
    | none => d
    | some content =>
      { d with history := none, archive := Function.update d.archive segment (some content) }
  | .createHistory => { d with history := some [] }
  | .writeLine json => { d with history := some (d.history.getD [] ++ (json ++ [lf])) }
  | .writeMeta m => { d with metaJson := some m }

section

variable (J : Serde) (d : SessionDir) (m : SessionMeta) (surviving : List (Int × ChatMessage))

/-- The record of the archived segment. -/
def rotatedArchived : SegmentRecord where
  segment := m.segment
  startId := SessionDir.archivedStartId m
  count := SessionDir.archivedCount d.history

/-- The record of the new active segment. -/
def rotatedActive : SegmentRecord where
  segment := m.segment + 1
  startId := (rotatedArchived d m).startId + (rotatedArchived d m).count
  count := (SessionDir.realMessages surviving).length
  compactions := SessionDir.newCompactions m.compactVersion 0 surviving

/-- The `meta.json` of the rotation. -/
def rotatedMeta : SessionMeta :=
  { m with
    segments := m.segments.filter (fun s => s.segment ≠ m.segment ∧ s.segment ≠ m.segment + 1) ++
      [rotatedArchived d m] ++ [rotatedActive d m surviving]
    segment := m.segment + 1 }

/-- The active file goes to the archive, if it exists. -/
def archiveOps : List FileOp :=
  if d.history.isSome then [.createArchiveDir, .renameToArchive m.segment] else []

/-- The new file is created and filled, if anything survives. -/
def surviveOps : List FileOp :=
  if surviving = [] then []
  else
    .createHistory ::
      ((SessionDir.realMessages surviving).map (fun msg => .writeLine (J.toString msg)) ++
        [.syncHistory])

/-- The operations of `rotate_history_impl`, in order. -/
def rotateOps : List FileOp :=
  match d.metaJson with
  | none => []
  | some m =>
    archiveOps d m ++ (surviveOps J surviving ++
      [.sweepBlobs, .writeMeta (rotatedMeta d m surviving)])

end

variable {J : Serde} {d : SessionDir} {m : SessionMeta} {surviving : List (Int × ChatMessage)}

/-- The archive operations leave no active file. -/
lemma exec_archiveOps :
    Run.exec FileOp.run d (archiveOps d m) =
      { d with
        history := none
        archive := match d.history with
          | none => d.archive
          | some content => Function.update d.archive m.segment (some content) } := by
  obtain ⟨metaJson, history, archive⟩ := d
  cases history <;> rfl

lemma exec_writeLines (ms : List ChatMessage) (d : SessionDir) {content : Bytes}
    (h : d.history = some content) :
    Run.exec FileOp.run d (ms.map fun msg => .writeLine (J.toString msg)) =
      { d with history := some (content ++ J.writeMessages ms) } := by
  induction ms generalizing d content with
  | nil =>
    obtain ⟨metaJson, history, archive⟩ := d
    simp only at h
    simp [h, Serde.writeMessages, unlines]
  | cons msg ms ih =>
    rw [List.map_cons, Run.exec_cons, ih _ rfl]
    simp [FileOp.run, h, Serde.writeMessages, unlines]

/-- The new file holds the real messages of the survivors. -/
lemma exec_surviveOps (d : SessionDir) :
    Run.exec FileOp.run d (surviveOps J surviving) =
      { d with
        history := if surviving = [] then d.history
          else some (J.writeMessages (SessionDir.realMessages surviving)) } := by
  unfold surviveOps
  by_cases hs : surviving = []
  · rw [if_pos hs, if_pos hs]
    rfl
  · rw [if_neg hs, if_neg hs, Run.exec_cons, Run.exec_append, exec_writeLines _ _ rfl]
    rfl

/-- **The operations are the rotation.** -/
theorem exec_rotateOps (J : Serde) (d : SessionDir) (surviving : List (Int × ChatMessage)) :
    Run.exec FileOp.run d (rotateOps J d surviving) = d.rotateHistoryImpl J surviving := by
  unfold rotateOps SessionDir.rotateHistoryImpl
  cases hm : d.metaJson with
  | none => rfl
  | some m =>
    dsimp only
    rw [Run.exec_append, Run.exec_append, exec_archiveOps, exec_surviveOps]
    rfl

/-! ## The property -/

/-- A directory reads as the history before a rotation or as the one after it. -/
def ReadsOldOrNew (J : Serde) (d : SessionDir) (surviving : List (Int × ChatMessage))
    (d' : SessionDir) : Prop :=
  d'.loadMessages J = d.loadMessages J ∨
    d'.loadMessages J = (d.rotateHistoryImpl J surviving).loadMessages J

/-- **Crash-atomic**: after every prefix of the operations the reader yields the messages of the
old history or those of the new one. -/
def CrashAtomic (J : Serde) (d : SessionDir) (surviving : List (Int × ChatMessage)) : Prop :=
  Run.Always FileOp.run (ReadsOldOrNew J d surviving) d (rotateOps J d surviving)

/-- What the survivors read as under a record with their own summaries. -/
def survivingMessages (m : SessionMeta) (surviving : List (Int × ChatMessage)) :
    List ChatMessage :=
  withSummaries (SessionDir.newCompactions m.compactVersion 0 surviving)
    (SessionDir.realMessages surviving)

/-- **The condition**: at most one real message survives.  When none does, the old file holds no
message, or the old summaries alone are the survivors.  When one does, the empty new file and the
one with this message are read under the old record, and one of the two readings has to be the old
history and the other one the survivors. -/
def RotatesAtomically (J : Serde) (d : SessionDir) (surviving : List (Int × ChatMessage)) : Prop :=
  ∀ m, d.metaJson = some m →
    match SessionDir.realMessages surviving with
    | [] => d.messages J = [] ∨ withSummaries m.summaries [] = survivingMessages m surviving
    | [msg] =>
      d.messages J = [] ∧ withSummaries m.summaries [msg] = survivingMessages m surviving ∨
        d.messages J = [msg] ∧ withSummaries m.summaries [] = survivingMessages m surviving
    | _ => False

/-! ## The readings of the prefixes -/

/-- The new record is the active one of the new `meta.json`. -/
lemma summaries_rotatedMeta :
    (rotatedMeta d m surviving).summaries =
      SessionDir.newCompactions m.compactVersion 0 surviving := by
  have hkept : ∀ s ∈ m.segments.filter
      (fun s => s.segment ≠ m.segment ∧ s.segment ≠ m.segment + 1),
      ¬ (s.segment == m.segment + 1) = true := by
    intro s hs
    have hne := of_decide_eq_true (List.mem_filter.1 hs).2
    simpa using hne.2
  unfold SessionMeta.summaries SessionMeta.activeSeg rotatedMeta
  rw [List.append_assoc, List.find?_append, List.find?_eq_none.2 hkept]
  simp [rotatedArchived, rotatedActive]

/-- After the whole rotation the reader yields the survivors. -/
lemma loadMessages_rotate (hm : d.metaJson = some m) :
    (d.rotateHistoryImpl J surviving).loadMessages J = survivingMessages m surviving := by
  rw [← exec_rotateOps]
  unfold rotateOps
  rw [hm]
  dsimp only
  rw [Run.exec_append, Run.exec_append, exec_archiveOps, exec_surviveOps]
  refine (loadMessages_eq (m := rotatedMeta d m surviving) rfl).trans ?_
  rw [summaries_rotatedMeta, survivingMessages]
  refine congrArg _ ?_
  by_cases hs : surviving = []
  · subst hs
    rfl
  · simp [SessionDir.messages, FileOp.run, hs]

/-- A reading under the record of the old segment is one of the two. -/
def ReadsAsEither (J : Serde) (d : SessionDir) (m : SessionMeta)
    (surviving : List (Int × ChatMessage)) (ms : List ChatMessage) : Prop :=
  ms = d.messages J ∨ withSummaries m.summaries ms = survivingMessages m surviving

/-- As long as `meta.json` is the old one, the reader goes by the messages of the file. -/
lemma reads_iff {d' : SessionDir} (hm : d.metaJson = some m) (hm' : d'.metaJson = some m) :
    ReadsOldOrNew J d surviving d' ↔ ReadsAsEither J d m surviving (d'.messages J) := by
  rw [ReadsOldOrNew, loadMessages_rotate hm, loadMessages_eq hm, loadMessages_eq hm',
    (withSummaries_injective m.summaries).eq_iff, ReadsAsEither]

/-- **The lines of the new file**, one after the other. -/
lemma always_writeLines {P : SessionDir → Prop} (ms : List ChatMessage) (d : SessionDir)
    {content : Bytes} (h : d.history = some content) :
    Run.Always FileOp.run P d (ms.map fun msg => .writeLine (J.toString msg)) ↔
      ∀ k ≤ ms.length, P { d with history := some (content ++ J.writeMessages (ms.take k)) } := by
  induction ms generalizing d content with
  | nil =>
    obtain ⟨metaJson, history, archive⟩ := d
    simp only at h
    simp [h, Serde.writeMessages, unlines]
  | cons msg ms ih =>
    rw [List.map_cons, Run.always_cons, ih _ rfl]
    obtain ⟨metaJson, history, archive⟩ := d
    simp only at h
    subst h
    constructor
    · rintro ⟨hd, hrest⟩ k hk
      cases k with
      | zero => simpa [Serde.writeMessages, unlines] using hd
      | succ k =>
        simpa [FileOp.run, Serde.writeMessages, unlines] using hrest k (Nat.le_of_succ_le_succ hk)
    · intro hall
      refine ⟨by simpa [Serde.writeMessages, unlines] using hall 0 (Nat.zero_le _), fun k hk => ?_⟩
      simpa [FileOp.run, Serde.writeMessages, unlines] using hall (k + 1) (Nat.succ_le_succ hk)

/-- The archive operations pass through the old directory and the one without an active file. -/
lemma always_archiveOps {P : SessionDir → Prop} (hP : P d) :
    Run.Always FileOp.run P d (archiveOps d m) ↔
      P (Run.exec FileOp.run d (archiveOps d m)) := by
  refine ⟨Run.Always.last, fun h => ?_⟩
  unfold archiveOps at h ⊢
  by_cases hsome : d.history.isSome = true
  · rw [if_pos hsome] at h ⊢
    exact ⟨hP, hP, h⟩
  · rw [if_neg hsome]
    exact hP

/-- The new file passes through its prefixes. -/
lemma always_surviveOps {P : SessionDir → Prop} (hne : surviving ≠ []) :
    Run.Always FileOp.run P d (surviveOps J surviving) ↔
      P d ∧ ∀ k ≤ (SessionDir.realMessages surviving).length,
        P { d with
            history := some (J.writeMessages ((SessionDir.realMessages surviving).take k)) } := by
  unfold surviveOps
  rw [if_neg hne, Run.always_cons, Run.always_append, exec_writeLines _ _ rfl,
    always_writeLines _ _ rfl]
  refine and_congr_right fun _ => ⟨And.left, fun h => ⟨h, ?_⟩⟩
  have hlast := h _ (Nat.le_refl _)
  rw [List.take_length] at hlast
  exact ⟨hlast, hlast⟩

/-- **The prefixes of a rotation** are read as the prefixes of the surviving real messages. -/
lemma crashAtomic_iff_prefixes (hm : d.metaJson = some m) :
    CrashAtomic J d surviving ↔
      ∀ k ≤ (SessionDir.realMessages surviving).length,
        ReadsAsEither J d m surviving ((SessionDir.realMessages surviving).take k) := by
  have hdone := exec_rotateOps J d surviving
  unfold CrashAtomic
  unfold rotateOps at hdone ⊢
  rw [hm] at hdone ⊢
  dsimp only at hdone ⊢
  rw [Run.exec_append, Run.exec_append] at hdone
  rw [Run.always_append, Run.always_append, always_archiveOps (.inl rfl)]
  have hempty : (Run.exec FileOp.run d (archiveOps d m)).metaJson = some m ∧
      (Run.exec FileOp.run d (archiveOps d m)).messages J = [] := by
    rw [exec_archiveOps]
    exact ⟨hm, rfl⟩
  obtain ⟨hmeta, hmessages⟩ := hempty
  generalize Run.exec FileOp.run d (archiveOps d m) = d₁ at hdone hmeta hmessages ⊢
  -- The first two parts end where the next one starts, and the last write ends the rotation.
  have htail : ∀ _ : Run.Always FileOp.run (ReadsOldOrNew J d surviving) d₁
        (surviveOps J surviving),
      Run.Always FileOp.run (ReadsOldOrNew J d surviving)
        (Run.exec FileOp.run d₁ (surviveOps J surviving))
        [.sweepBlobs, .writeMeta (rotatedMeta d m surviving)] :=
    fun h => ⟨h.last, h.last, .inr (by rw [← hdone]; rfl)⟩
  refine Iff.trans ⟨fun h => h.2.1, fun h => ⟨h.head, h, htail h⟩⟩ ?_
  by_cases hne : surviving = []
  · subst hne
    refine (reads_iff hm hmeta).trans ?_
    rw [hmessages]
    exact ⟨fun h k _ => (List.take_nil (i := k)).symm ▸ h, fun h => h 0 (Nat.le_refl _)⟩
  · rw [always_surviveOps hne]
    have hlines : ∀ k, ReadsOldOrNew J d surviving
          { d₁ with
            history := some (J.writeMessages ((SessionDir.realMessages surviving).take k)) } ↔
        ReadsAsEither J d m surviving ((SessionDir.realMessages surviving).take k) := by
      intro k
      refine (reads_iff hm ?_).trans ?_
      · exact hmeta
      · simp [SessionDir.messages]
    simp only [hlines]
    refine ⟨And.right, fun h => ⟨?_, h⟩⟩
    refine (reads_iff hm hmeta).2 ?_
    rw [hmessages]
    exact h 0 (Nat.zero_le _)

/-- Prefixes of different lengths cannot all be read as one of two histories. -/
lemma readsAsEither_prefixes_iff :
    (∀ k ≤ (SessionDir.realMessages surviving).length,
        ReadsAsEither J d m surviving ((SessionDir.realMessages surviving).take k)) ↔
      match SessionDir.realMessages surviving with
      | [] => d.messages J = [] ∨ withSummaries m.summaries [] = survivingMessages m surviving
      | [msg] =>
        d.messages J = [] ∧ withSummaries m.summaries [msg] = survivingMessages m surviving ∨
          d.messages J = [msg] ∧ withSummaries m.summaries [] = survivingMessages m surviving
      | _ => False := by
  unfold ReadsAsEither
  have hinj : ∀ {ms ms'}, withSummaries m.summaries ms = survivingMessages m surviving →
      withSummaries m.summaries ms' = survivingMessages m surviving → ms = ms' :=
    fun h h' => withSummaries_injective m.summaries (h.trans h'.symm)
  rcases SessionDir.realMessages surviving with _ | ⟨msg, _ | ⟨msg', rest⟩⟩
  · constructor
    · intro h
      exact (h 0 (Nat.le_refl _)).imp Eq.symm id
    · rintro h k -
      rw [List.take_nil]
      exact h.imp Eq.symm id
  · constructor
    · intro h
      have h0 := h 0 (Nat.zero_le _)
      have h1 := h 1 (Nat.le_refl _)
      simp only [List.take_zero, List.take_succ_cons] at h0 h1
      rcases h0 with h0 | h0
      · rcases h1 with h1 | h1
        · simp [← h0] at h1
        · exact .inl ⟨h0.symm, h1⟩
      · rcases h1 with h1 | h1
        · exact .inr ⟨h1.symm, h0⟩
        · exact absurd (hinj h0 h1) (by simp)
    · rintro (⟨hold, hnew⟩ | ⟨hold, hnew⟩) k hk
      · rcases k with _ | k
        · exact .inl hold.symm
        · exact .inr (by simpa using hnew)
      · rcases k with _ | k
        · exact .inr hnew
        · exact .inl (by simp [hold])
  · refine iff_of_false (fun h => ?_) id
    have h0 := h 0 (Nat.zero_le _)
    have h1 := h 1 (by simp)
    have h2 := h 2 (by simp)
    simp only [List.take_zero, List.take_succ_cons] at h0 h1 h2
    rcases h0 with h0 | h0 <;> rcases h1 with h1 | h1 <;> rcases h2 with h2 | h2
    all_goals first
      | exact absurd (h0.trans h1.symm) (by simp)
      | exact absurd (h0.trans h2.symm) (by simp)
      | exact absurd (h1.trans h2.symm) (by simp)
      | exact absurd (hinj h0 h1) (by simp)
      | exact absurd (hinj h0 h2) (by simp)
      | exact absurd (hinj h1 h2) (by simp)

/-- **Crash-atomicity of a rotation**: it holds exactly when the rotation rotates atomically. -/
theorem crashAtomic_iff (J : Serde) (d : SessionDir) (surviving : List (Int × ChatMessage)) :
    CrashAtomic J d surviving ↔ RotatesAtomically J d surviving := by
  unfold RotatesAtomically
  cases hm : d.metaJson with
  | none =>
    refine iff_of_true ?_ fun m h => by cases h
    unfold CrashAtomic rotateOps
    rw [hm]
    exact .inl rfl
  | some m =>
    rw [crashAtomic_iff_prefixes hm, readsAsEither_prefixes_iff]
    simp only [Option.some.injEq, forall_eq']

/-! ## A crash after the rename -/

namespace TwoMessages

/-- The first message, which the compaction folds. -/
def hello : ChatMessage := ChatMessage.userText "hello"

/-- The second message, which survives. -/
def world : ChatMessage := ChatMessage.userText "world"

/-- A session with two messages. -/
noncomputable def dir : SessionDir where
  metaJson := some
    { messageCount := 2, segment := 0, compactVersion := 1, compactTokenEstimate := none
      segments := [{ segment := 0, startId := 1, count := 2 }] }
  history := some (plainSerde.writeMessages [hello, world])
  archive := fun _ => none

/-- A summary in the place of the first message, and the second message. -/
def survivors : List (Int × ChatMessage) := [(0, ChatMessage.userText "summary"), (2, world)]

end TwoMessages

open TwoMessages in
/-- **A crash right after the rename** leaves a session without its two messages, and without the
summary and the message that were to survive. -/
theorem not_crashAtomic_twoMessages : ¬ CrashAtomic plainSerde dir survivors := by
  intro h
  have hread := (crashAtomic_iff_prefixes rfl).1 h 0 (Nat.zero_le _)
  rw [List.take_zero] at hread
  rcases hread with hold | hnew
  · have hmessages : dir.messages plainSerde = [hello, world] := by
      rw [SessionDir.messages, dir, Option.map_some, Option.getD_some,
        plainSerde.messages_writeMessages]
    rw [hmessages] at hold
    cases hold
  · exact absurd (congrArg List.length hnew) (by decide)

end MyClaw
