import MyClaw.Storage.Tidy
import Mathlib.Data.List.InsertIdx
import Mathlib.Tactic.SplitIfs

set_option autoImplicit false

/-!
# Summaries among messages

`read_history_with_ids` inserts the compaction summaries of the active segment into the messages of
the file.  This file describes the result for the messages alone: how many summaries find their
place, that more messages of the file never change what stands before them, and that different
messages are never read alike.

## Main definitions

* `withSummaries` — messages with the summaries of a segment record among them.
* `placed` — the number of summaries that find their place among so many messages.

## Main results

* `loadMessages_eq` — what the reader yields.
* `withSummaries_isPrefix` — the reading of a prefix is a prefix of the reading.
* `withSummaries_injective` — under one record, different messages are read differently.
* `withSummaries_append_iff` — new messages come after the old reading exactly when no
  further summary finds its place.
-/

namespace MyClaw

/-- A summary at its recorded position, if that position exists yet. -/
def insertSummary (result : List ChatMessage) (comp : CompactionEntry) : List ChatMessage :=
  if comp.position ≤ result.length then
    result.insertIdx comp.position (ChatMessage.userText comp.text)
  else result

/-- The messages that a reader makes of those of the file. -/
def withSummaries (comps : List CompactionEntry) (ms : List ChatMessage) : List ChatMessage :=
  comps.foldl insertSummary ms

/-- The number of summaries that find their place among `n` messages. -/
def placed : List CompactionEntry → Nat → Nat
  | [], _ => 0
  | comp :: comps, n => if comp.position ≤ n then placed comps (n + 1) + 1 else placed comps n

/-- The summaries that the active segment records. -/
def activeSummaries (d : SessionDir) : List CompactionEntry :=
  ((d.metaJson.bind SessionMeta.activeSeg).map SegmentRecord.compactions).getD []

/-- The summaries of the active segment of a `meta.json`. -/
def SessionMeta.summaries (m : SessionMeta) : List CompactionEntry :=
  (m.activeSeg.map SegmentRecord.compactions).getD []

@[simp] lemma withSummaries_cons (comp : CompactionEntry) (comps : List CompactionEntry)
    (ms : List ChatMessage) :
    withSummaries (comp :: comps) ms = withSummaries comps (insertSummary ms comp) := rfl

variable {J : Serde} {d : SessionDir} {m : SessionMeta} {comp : CompactionEntry}
  {ms ms' : List ChatMessage}

lemma activeSummaries_of_metaJson (hm : d.metaJson = some m) : activeSummaries d = m.summaries := by
  rw [activeSummaries, hm]
  rfl

/-! ## The reader -/

lemma map_snd_insertCompactions (comps : List CompactionEntry) (rows : List (Int × ChatMessage)) :
    (insertCompactions comps rows).map Prod.snd = withSummaries comps (rows.map Prod.snd) := by
  unfold insertCompactions
  induction comps generalizing rows with
  | nil => rfl
  | cons comp comps ih =>
    rw [List.foldl_cons, withSummaries_cons, ih, insertSummary, List.length_map]
    by_cases hpos : comp.position ≤ rows.length
    · rw [if_pos hpos, if_pos hpos, List.map_insertIdx]
    · rw [if_neg hpos, if_neg hpos]

/-- **What the reader yields** for the messages of the file and the summaries of the record. -/
theorem loadMessages_eq (hm : d.metaJson = some m) :
    d.loadMessages J = withSummaries m.summaries (d.messages J) := by
  unfold SessionDir.loadMessages SessionDir.readHistoryWithIds SessionDir.messages
  rw [hm]
  cases hc : d.history with
  | none => exact map_snd_insertCompactions _ _
  | some content =>
    dsimp only
    rw [map_snd_insertCompactions, map_snd_numberFrom]
    rfl

/-! ## One summary -/

lemma insertSummary_of_le (h : comp.position ≤ ms.length) :
    insertSummary ms comp = ms.insertIdx comp.position (ChatMessage.userText comp.text) :=
  if_pos h

lemma insertSummary_of_lt (h : ms.length < comp.position) : insertSummary ms comp = ms :=
  if_neg (Nat.not_le.2 h)

lemma length_insertSummary_of_le (h : comp.position ≤ ms.length) :
    (insertSummary ms comp).length = ms.length + 1 := by
  rw [insertSummary_of_le h, List.length_insertIdx_of_le_length h]

lemma insertIdx_append_of_le {α : Type*} (a : α) :
    ∀ {i : Nat} {l : List α} (t : List α), i ≤ l.length →
      (l ++ t).insertIdx i a = l.insertIdx i a ++ t
  | 0, _, _, _ => rfl
  | _ + 1, [], _, h => absurd h (Nat.not_succ_le_zero _)
  | i + 1, b :: l, t, h => by
    rw [List.cons_append, List.insertIdx_succ_cons, List.insertIdx_succ_cons, List.cons_append,
      insertIdx_append_of_le a t (Nat.le_of_succ_le_succ h)]

lemma insertIdx_append_of_lt {α : Type*} (a : α) :
    ∀ {i : Nat} {l : List α} (t : List α), l.length < i → ∃ t', (l ++ t).insertIdx i a = l ++ t'
  | _, [], t, _ => ⟨_, rfl⟩
  | 0, _ :: _, _, h => absurd h (Nat.not_lt_zero _)
  | i + 1, b :: l, t, h => by
    obtain ⟨t', ht'⟩ := insertIdx_append_of_lt a t (Nat.lt_of_succ_lt_succ h)
    exact ⟨t', by rw [List.cons_append, List.insertIdx_succ_cons, ht', List.cons_append]⟩

/-- A summary with a place among fewer messages takes the same place among more. -/
lemma insertSummary_append_of_le (t : List ChatMessage) (h : comp.position ≤ ms.length) :
    insertSummary (ms ++ t) comp = insertSummary ms comp ++ t := by
  have h' : comp.position ≤ (ms ++ t).length := h.trans (by simp)
  rw [insertSummary_of_le h, insertSummary_of_le h', insertIdx_append_of_le _ t h]

/-- A summary without a place among fewer messages comes after them among more. -/
lemma insertSummary_isPrefix (t : List ChatMessage) :
    insertSummary ms comp <+: insertSummary (ms ++ t) comp := by
  rcases Nat.lt_or_ge ms.length comp.position with hlt | hle
  · rw [insertSummary_of_lt hlt]
    unfold insertSummary
    split_ifs
    · obtain ⟨t', ht'⟩ := insertIdx_append_of_lt (ChatMessage.userText comp.text) t hlt
      exact ⟨t', ht'.symm⟩
    · exact List.prefix_append ms t
  · rw [insertSummary_append_of_le t hle]
    exact List.prefix_append _ t

/-! ## All summaries -/

/-- **The reading of a prefix** is a prefix of the reading. -/
theorem withSummaries_isPrefix (comps : List CompactionEntry) (h : ms <+: ms') :
    withSummaries comps ms <+: withSummaries comps ms' := by
  induction comps generalizing ms ms' with
  | nil => exact h
  | cons comp comps ih =>
    obtain ⟨t, rfl⟩ := h
    exact ih (insertSummary_isPrefix t)

lemma length_withSummaries (comps : List CompactionEntry) (ms : List ChatMessage) :
    (withSummaries comps ms).length = ms.length + placed comps ms.length := by
  induction comps generalizing ms with
  | nil => rfl
  | cons comp comps ih =>
    rw [withSummaries_cons, ih, placed]
    by_cases hle : comp.position ≤ ms.length
    · rw [if_pos hle, length_insertSummary_of_le hle]
      omega
    · rw [if_neg hle, insertSummary_of_lt (Nat.not_le.1 hle)]

/-- Among more messages no fewer summaries find their place. -/
lemma placed_mono (comps : List CompactionEntry) {n n' : Nat} (h : n ≤ n') :
    placed comps n ≤ placed comps n' := by
  induction comps generalizing n n' with
  | nil => exact Nat.le_refl 0
  | cons comp comps ih =>
    unfold placed
    split_ifs with hle hle'
    · exact Nat.succ_le_succ (ih (Nat.succ_le_succ h))
    · omega
    · exact (ih (Nat.le_succ_of_le h)).trans (Nat.le_succ _)
    · exact ih h

/-- As many messages read alike only when they are the same. -/
lemma eq_of_withSummaries_eq (comps : List CompactionEntry) (hlen : ms.length = ms'.length)
    (h : withSummaries comps ms = withSummaries comps ms') : ms = ms' := by
  induction comps generalizing ms ms' with
  | nil => exact h
  | cons comp comps ih =>
    rcases Nat.lt_or_ge ms.length comp.position with hlt | hle
    · have hlt' : ms'.length < comp.position := hlen ▸ hlt
      rw [withSummaries_cons, withSummaries_cons, insertSummary_of_lt hlt,
        insertSummary_of_lt hlt'] at h
      exact ih hlen h
    · have hle' : comp.position ≤ ms'.length := hlen ▸ hle
      have heq := ih (by rw [length_insertSummary_of_le hle, length_insertSummary_of_le hle', hlen])
        h
      rw [insertSummary_of_le hle, insertSummary_of_le hle'] at heq
      exact List.insertIdx_injective _ _ heq

/-- **One record, one reading**: different messages under one segment record are read
differently. -/
theorem withSummaries_injective (comps : List CompactionEntry) :
    Function.Injective (withSummaries comps) := by
  intro ms ms' h
  refine eq_of_withSummaries_eq comps ?_ h
  have hlen := congrArg List.length h
  rw [length_withSummaries, length_withSummaries] at hlen
  rcases Nat.lt_trichotomy ms.length ms'.length with hlt | heq | hgt
  · have := placed_mono comps hlt.le
    omega
  · exact heq
  · have := placed_mono comps hgt.le
    omega

/-- **New messages** come after the old reading exactly when no further summary finds its place. -/
theorem withSummaries_append_iff (comps : List CompactionEntry) (ms new : List ChatMessage) :
    withSummaries comps (ms ++ new) = withSummaries comps ms ++ new ↔
      placed comps (ms.length + new.length) = placed comps ms.length := by
  constructor
  · intro h
    have hlen := congrArg List.length h
    rw [List.length_append, length_withSummaries, length_withSummaries, List.length_append] at hlen
    omega
  · induction comps generalizing ms with
    | nil => exact fun _ => rfl
    | cons comp comps ih =>
      intro h
      unfold placed at h
      rcases Nat.lt_or_ge ms.length comp.position with hlt | hle
      · rw [if_neg (Nat.not_le.2 hlt)] at h
        by_cases hle' : comp.position ≤ ms.length + new.length
        · rw [if_pos hle'] at h
          have := placed_mono comps (show ms.length ≤ ms.length + new.length + 1 by omega)
          omega
        · rw [if_neg hle'] at h
          have hlt' : (ms ++ new).length < comp.position := by
            rw [List.length_append]
            exact Nat.not_le.1 hle'
          rw [withSummaries_cons, withSummaries_cons, insertSummary_of_lt hlt,
            insertSummary_of_lt hlt', ih ms h]
      · rw [if_pos hle, if_pos (hle.trans (Nat.le_add_right _ _))] at h
        rw [withSummaries_cons, withSummaries_cons, insertSummary_append_of_le new hle]
        refine ih _ ?_
        rw [length_insertSummary_of_le hle]
        have hcomm : ms.length + 1 + new.length = ms.length + new.length + 1 := by omega
        rw [hcomm]
        omega

end MyClaw
