import MyClaw.Compaction.Engine

set_option autoImplicit false

/-!
# What a compaction drops

The range that a compaction removes and the messages that its summary is made from are computed
separately.  At a boundary they agree: the summary before the range is removed and given as the
previous summary, and what follows it is removed and given as messages.  A full fold removes from the
first message on, but gives only the last summary and what follows it: messages before a summary that
is not the first message are dropped without having been summarised.

## Main definitions

* `RemovedWasGiven` — each removed message was given, as a message or as the previous summary.
* `LosesPrefix` — a full fold meets a summary with messages before it and after it.

## Main results

* `removedWasGiven_iff` — the first holds exactly when the second does not.
-/

namespace MyClaw

/-- Each message that the result removes is part of what its summary is made from: as the previous
summary, or as one of the messages. -/
def RemovedWasGiven (history : List ChatMessage) (r : CompactionResult) : Prop :=
  ∃ previous : Option ChatMessage, r.input.existingSummary = previous.map (·.textContent) ∧
    (slice history r.compactStart r.compactEnd).Sublist (previous.toList ++ r.input.toCompact)

/-- There is no boundary, or nothing to fold before it. -/
def FoldsAll (history : List ChatMessage) (boundary : Option Nat) : Prop :=
  ∀ b ∈ boundary, min b (foldEnd history) ≤
    (findIncrementalRange history (min b (foldEnd history))).compactStart

/-- Everything is folded, and the last summary of it has messages before it and after it. -/
def LosesPrefix (history : List ChatMessage) (boundary : Option Nat) : Prop :=
  FoldsAll history boundary ∧
    ∃ idx, rposition isSummary (history.take (foldEnd history)) = some idx ∧ 0 < idx ∧
      idx + 1 < foldEnd history

section

variable {env : CompactionEnv} {history : List ChatMessage} {r : CompactionResult}

/-- The range of a compaction is what it gives: the summary, and what follows it. -/
lemma slice_findIncrementalRange (history : List ChatMessage) (boundary : Nat) :
    ∃ previous : Option ChatMessage,
      (findIncrementalRange history boundary).existingSummary = previous.map (·.textContent) ∧
      slice history (findIncrementalRange history boundary).replaceStart boundary =
        previous.toList ++
          slice history (findIncrementalRange history boundary).compactStart boundary := by
  cases hpos : rposition isSummary (history.take boundary) with
  | none =>
    rw [findIncrementalRange_none hpos]
    exact ⟨none, rfl, rfl⟩
  | some idx =>
    rw [findIncrementalRange_some hpos]
    have hlt := rposition_lt hpos
    rw [List.length_take, Nat.lt_min] at hlt
    have hget : history[idx]? = some history[idx] := List.getElem?_eq_getElem hlt.2
    exact ⟨some history[idx], by rw [hget], slice_eq_cons hget hlt.1⟩

/-- **At a boundary** nothing is dropped. -/
lemma removedWasGiven_executeCompaction {boundary : Nat} {compressBudget : Option Nat}
    (h : executeCompaction env history boundary compressBudget = .ok r) :
    RemovedWasGiven history r := by
  obtain ⟨hstart, hend, hinput, -⟩ := executeCompaction_ok h
  obtain ⟨previous, hprevious, hslice⟩ :=
    slice_findIncrementalRange history (min boundary (foldEnd history))
  refine ⟨previous, by rw [hinput]; exact hprevious, ?_⟩
  rw [hstart, hend, hslice, hinput]

lemma executeFullFoldCompaction_isOk (hne : history ≠ []) (hfold : foldEnd history ≠ 0)
    (budget : Nat) : ∃ r, executeFullFoldCompaction env history budget = .ok r := by
  unfold executeFullFoldCompaction
  dsimp only
  rw [if_neg (by simp [hne, hfold])]
  split_ifs with hrange
  · exact ⟨_, rfl⟩
  · cases hexec : executeCompaction env history (foldEnd history) (some budget) with
    | ok r => exact ⟨_, rfl⟩
    | error e =>
      obtain ⟨-, hempty⟩ := executeCompaction_error hexec
      rw [min_self] at hempty
      rw [compactEnd_findIncrementalRange] at hrange
      have hlen := congrArg List.length hempty
      rw [length_slice foldEnd_le, List.length_nil] at hlen
      omega

/-- **A full fold** drops nothing exactly when no summary of what it folds has messages before it and
after it. -/
lemma removedWasGiven_executeFullFoldCompaction {budget : Nat}
    (h : executeFullFoldCompaction env history budget = .ok r) :
    RemovedWasGiven history r ↔
      ¬ ∃ idx, rposition isSummary (history.take (foldEnd history)) = some idx ∧ 0 < idx ∧
        idx + 1 < foldEnd history := by
  obtain ⟨hstart, hend, hinput⟩ := executeFullFoldCompaction_ok h
  unfold RemovedWasGiven
  rw [hstart, hend]
  cases hpos : rposition isSummary (history.take (foldEnd history)) with
  | none =>
    refine iff_of_true ?_ (by simp)
    rw [findIncrementalRange_none hpos] at hinput
    dsimp only at hinput
    split_ifs at hinput <;> exact ⟨none, by rw [hinput]; rfl, by rw [hinput]; exact .refl _⟩
  | some idx =>
    have hlt := rposition_lt hpos
    rw [List.length_take, Nat.lt_min] at hlt
    rw [findIncrementalRange_some hpos] at hinput
    dsimp only at hinput
    by_cases hlast : foldEnd history ≤ idx + 1
    · -- the last summary is the last message: everything is given
      rw [if_pos hlast] at hinput
      refine iff_of_true ⟨none, by rw [hinput]; rfl, by rw [hinput]; exact .refl _⟩ ?_
      rintro ⟨idx', heq, -, hlt'⟩
      cases heq
      omega
    · rw [if_neg hlast] at hinput
      by_cases hzero : idx = 0
      · subst hzero
        obtain ⟨previous, hprevious, hslice⟩ :=
          slice_findIncrementalRange history (foldEnd history)
        rw [findIncrementalRange_some hpos] at hprevious hslice
        refine iff_of_true ⟨previous, by rw [hinput]; exact hprevious, ?_⟩ ?_
        · rw [hinput, hslice]
        · rintro ⟨idx', heq, hpos', -⟩
          cases heq
          exact absurd hpos' (lt_irrefl 0)
      · -- more messages are removed than given
        refine iff_of_false ?_ (not_not.2 ⟨idx, rfl, Nat.pos_of_ne_zero hzero, by omega⟩)
        rintro ⟨previous, -, hsub⟩
        have hlen := hsub.length_le
        rw [hinput, length_slice foldEnd_le, List.length_append, length_slice foldEnd_le] at hlen
        have hprevious : previous.toList.length ≤ 1 := by cases previous <;> simp
        omega

/-- An empty slice is one that ends where it begins. -/
lemma slice_findIncrementalRange_eq_nil {boundary : Nat} :
    slice history (findIncrementalRange history (min boundary (foldEnd history))).compactStart
        (min boundary (foldEnd history)) = [] ↔
      min boundary (foldEnd history) ≤
        (findIncrementalRange history (min boundary (foldEnd history))).compactStart := by
  rw [← List.length_eq_zero_iff, length_slice ((min_le_right _ _).trans foldEnd_le)]
  omega

lemma isEmptyCompactError_noContent : isEmptyCompactError noContentToCompact = true := by
  unfold isEmptyCompactError
  simp

end

/-- **Nothing is dropped unsummarised**: whatever the history, the boundary, the budget and the
summarizer are, this holds exactly when no full fold meets a summary with messages before it and after
it. -/
theorem removedWasGiven_iff (env : CompactionEnv) (history : List ChatMessage)
    (boundary : Option Nat) (budget : Nat) :
    (∀ r, compactOutcome env history boundary budget = .ok r → RemovedWasGiven history r) ↔
      ¬ LosesPrefix history boundary := by
  have hfull : FoldsAll history boundary →
      compactOutcome env history boundary budget =
        executeFullFoldCompaction env history budget := by
    intro hall
    cases boundary with
    | none => rfl
    | some b =>
      unfold compactOutcome
      dsimp only
      cases hexec : executeCompaction env history b (some budget) with
      | ok r =>
        obtain ⟨-, -, -, hne⟩ := executeCompaction_ok hexec
        exact absurd (slice_findIncrementalRange_eq_nil.2 (hall b rfl)) hne
      | error e =>
        dsimp only
        rw [(executeCompaction_error hexec).1, if_pos isEmptyCompactError_noContent]
  by_cases hall : FoldsAll history boundary
  · rw [hfull hall]
    by_cases hempty : history = [] ∨ foldEnd history = 0
    · refine iff_of_true (fun r hr => ?_) ?_
      · unfold executeFullFoldCompaction at hr
        rw [if_pos hempty] at hr
        cases hr
      · rintro ⟨-, idx, hpos, -, hlt⟩
        rcases hempty with rfl | hzero
        · cases hpos
        · omega
    · rw [not_or] at hempty
      obtain ⟨r, hr⟩ : ∃ r, executeFullFoldCompaction env history budget = .ok r :=
        executeFullFoldCompaction_isOk hempty.1 hempty.2 budget
      rw [hr]
      simp only [Except.ok.injEq, forall_eq']
      rw [removedWasGiven_executeFullFoldCompaction hr]
      exact not_congr (by simp [LosesPrefix, hall])
  · refine iff_of_true (fun r hr => ?_) fun h => hall h.1
    cases boundary with
    | none => exact absurd (fun b hb => by cases hb) hall
    | some b =>
      unfold compactOutcome at hr
      dsimp only at hr
      cases hexec : executeCompaction env history b (some budget) with
      | ok r' =>
        rw [hexec] at hr
        cases hr
        exact removedWasGiven_executeCompaction hexec
      | error e =>
        refine absurd (fun b' hb' => ?_) hall
        cases hb'
        exact slice_findIncrementalRange_eq_nil.1 (executeCompaction_error hexec).2

namespace LostPrefix

/-- An environment that folds to a fixed text. -/
def env : CompactionEnv :=
  { doSummarize := fun _ _ => .ok "merged", hardFoldHistory := fun _ => "folded"
    appendEvidenceIndex := fun summary _ _ _ _ => summary
    estimateMessageTokens := fun m => m.textContent.length, markerForFile := fun path _ => path }

/-- A turn, a summary, and an answer. -/
def history : List ChatMessage :=
  [.userText "hello", .userText (compactionMarker ++ " greetings"), .assistantText "hi"]

end LostPrefix

open LostPrefix in
/-- **A message before the summary is dropped**: the full fold removes all three messages, and gives
the last two. -/
theorem not_removedWasGiven_lostPrefix :
    ¬ ∀ r, compactOutcome env history none 1000 = .ok r → RemovedWasGiven history r := by
  intro h
  obtain ⟨r, hr⟩ : ∃ r, executeFullFoldCompaction env history 1000 = .ok r :=
    executeFullFoldCompaction_isOk (by decide) (by decide +kernel) 1000
  have hgiven := (removedWasGiven_executeFullFoldCompaction hr).1 (h r hr)
  exact hgiven ⟨1, by decide +kernel, by decide, by decide +kernel⟩

end MyClaw
