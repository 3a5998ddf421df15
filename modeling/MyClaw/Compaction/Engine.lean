import MyClaw.Compaction.Fold
import Mathlib.Data.List.Infix

set_option autoImplicit false

/-!
# The compaction of a history

`agents/compaction_engine/engine.rs`: `execute_compaction` folds the messages after the last summary
up to a boundary, `execute_full_fold_compaction` folds everything that may be folded when there is no
boundary or nothing before it, and the last resort folds it without a summarizer.  The caller puts
the summary in the place of the range that the result names.

A result carries what its summary was made from, so that the removed range can be compared with it.
The summarizer, and the texts and estimates that no range depends on, are parameters.

## Main definitions

* `executeCompaction`, `executeFullFoldCompaction`, `compactOutcome` — the
  ways to a result.
* `applyResult`, `lastResort` — what becomes of the session.
-/

namespace MyClaw

/-- What a summary is made from. -/
structure CompactionInput where
  toCompact : List ChatMessage
  existingSummary : Option String

/-- The summarizer, and the texts and estimates that no range depends on. -/
structure CompactionEnv where
  /-- `do_summarize`: the rounds with the model. -/
  doSummarize : List ChatMessage → Option String → Except String String
  hardFoldHistory : List ChatMessage → String
  /-- `append_evidence_index`, with the messages, the start, the end and the boundary. -/
  appendEvidenceIndex : String → List ChatMessage → Nat → Nat → Nat → String
  estimateMessageTokens : ChatMessage → Nat
  markerForFile : String → Option String → String

/-- `CompactionResult`, with what its summary was made from. -/
structure CompactionResult where
  compactStart : Nat
  compactEnd : Nat
  summary : String
  summaryTokens : Nat
  removedTokens : Nat
  compactedCount : Nat
  input : CompactionInput

/-- `HARD_PRIOR_SUMMARY_CHARS`. -/
def hardPriorSummaryChars : Nat := 6000

/-- `str::trim`. -/
def trimText (text : String) : String :=
  String.ofList ((text.toList.dropWhile isWhiteSpace).reverse.dropWhile isWhiteSpace).reverse

/-- `truncate_chars`. -/
def truncateChars (text : String) (max : Nat) : String :=
  if text.length ≤ max then text else String.ofList (text.toList.take (max - 1)) ++ "…"

/-- `strip_prefix` of the marker, if it is there. -/
def stripMarker (text : String) : String :=
  if startsWithMarker text then String.ofList (text.toList.drop compactionMarker.length) else text

/-- The error of a compaction that has nothing to fold. -/
def noContentToCompact : String := "no content to compact"

/-- `is_empty_compact_error`. -/
def isEmptyCompactError (e : String) : Bool := decide (noContentToCompact.toList <:+: e.toList)

section

variable (env : CompactionEnv)

/-- `strip_images`. -/
def stripImages (m : ChatMessage) : ChatMessage :=
  { m with parts := m.parts.map fun part =>
      match part with
      | .file path mimeType _ _ => .text (env.markerForFile path mimeType)
      | part => part }

/-- `summarize`: an empty text is an error. -/
def summarize (input : CompactionInput) : Except String String :=
  match env.doSummarize (input.toCompact.map (stripImages env)) input.existingSummary with
  | .ok text => if isBlank text then .error "summarize returned empty text" else .ok text
  | .error e => .error e

/-- The fold without a summarizer: the previous summary is kept, cut to its budget. -/
def hardFoldBody (input : CompactionInput) : String :=
  let body := env.hardFoldHistory input.toCompact
  match input.existingSummary with
  | none => body
  | some existing =>
    let existing := trimText (stripMarker existing)
    if existing = "" then body
    else "## Prior Summary\n" ++ truncateChars existing hardPriorSummaryChars ++
      "\n\n## Folded Updates\n" ++ body

/-- The tokens of some messages. -/
def estimateTokens (messages : List ChatMessage) : Nat :=
  (messages.map env.estimateMessageTokens).sum

/-- The summary of an input: the summarizer is not asked when the slice is over its budget, and not
needed when it fails. -/
def makeSummary (input : CompactionInput) (compressBudget : Option Nat) : String :=
  let sliceTokens := estimateTokens env input.toCompact
  if compressBudget.any fun b => b = 0 || b < sliceTokens then hardFoldBody env input
  else
    match summarize env input with
    | .ok text => text
    | .error _ => hardFoldBody env input

/-- `execute_compaction`. -/
def executeCompaction (history : List ChatMessage) (boundary : Nat) (compressBudget : Option Nat) :
    Except String CompactionResult :=
  let boundary := min boundary (foldEnd history)
  let range := findIncrementalRange history boundary
  let toCompact := slice history range.compactStart range.compactEnd
  if toCompact = [] then .error noContentToCompact
  else
    let input : CompactionInput := { toCompact := toCompact, existingSummary := range.existingSummary }
    let summary := env.appendEvidenceIndex (makeSummary env input compressBudget) toCompact
      range.compactStart range.compactEnd boundary
    .ok
      { compactStart := range.replaceStart, compactEnd := range.compactEnd, summary := summary
        summaryTokens := env.estimateMessageTokens (.userText summary)
        removedTokens := estimateTokens env (slice history range.replaceStart range.compactEnd)
        compactedCount := toCompact.length, input := input }

/-- `execute_full_fold_compaction`. -/
def executeFullFoldCompaction (history : List ChatMessage) (compressBudget : Nat) :
    Except String CompactionResult :=
  if history = [] ∨ foldEnd history = 0 then .error noContentToCompact
  else
    let range := findIncrementalRange history (foldEnd history)
    if range.compactEnd ≤ range.compactStart then
      let input : CompactionInput :=
        { toCompact := history.take (foldEnd history), existingSummary := none }
      let summary := env.hardFoldHistory input.toCompact
      .ok
        { compactStart := 0, compactEnd := foldEnd history, summary := summary
          summaryTokens := env.estimateMessageTokens (.userText summary)
          removedTokens := estimateTokens env (history.take (foldEnd history))
          compactedCount := foldEnd history, input := input }
    else
      match executeCompaction env history (foldEnd history) (some compressBudget) with
      | .error e => .error e
      | .ok r =>
        let compactEnd := min r.compactEnd (foldEnd history)
        .ok
          { r with
            compactStart := 0
            compactEnd := compactEnd
            removedTokens := estimateTokens env (history.take compactEnd)
            compactedCount := compactEnd }

/-- The part of `maybe_compact` that finds a result: a full fold when there is no boundary, or
nothing to fold before it. -/
def compactOutcome (history : List ChatMessage) (boundary : Option Nat) (compressBudget : Nat) :
    Except String CompactionResult :=
  match boundary with
  | some boundary =>
    match executeCompaction env history boundary (some compressBudget) with
    | .ok r => .ok r
    | .error e =>
      if isEmptyCompactError e then executeFullFoldCompaction env history compressBudget
      else .error e
  | none => executeFullFoldCompaction env history compressBudget

/-- The part of `maybe_compact` that puts the summary into the session; `tasks` is the state of the
task board. -/
def applyResult (s : Session) (r : CompactionResult) (tasks : Option String) : Session :=
  let text := compactionMarker ++ " " ++ r.summary ++
    (match tasks with
      | some tasks => "\n\n" ++ tasks
      | none => "")
  s.applyCompaction r.compactStart r.compactEnd (.userText text) (s.compactVersion + 1)
    (s.messageIds[r.compactEnd - 1]?.getD 0) r.summaryTokens

/-- The last resort of `compact_until_fit`: nothing when there is nothing before the open turn. -/
def lastResort (s : Session) : Option Session :=
  if s.history = [] ∨ foldEnd s.history = 0 then none
  else
    let summaryMsg : ChatMessage := .userText
      (compactionMarker ++ " " ++ env.hardFoldHistory (s.history.take (foldEnd s.history)))
    some (s.applyCompaction 0 (foldEnd s.history) summaryMsg (s.compactVersion + 1)
      (s.messageIds[foldEnd s.history - 1]?.getD 0) (env.estimateMessageTokens summaryMsg))

end

/-! ## What a result says -/

section

variable {env : CompactionEnv} {history : List ChatMessage} {boundary : Nat}
  {compressBudget : Option Nat} {r : CompactionResult}

/-- **A compaction at a boundary** replaces the last summary and what follows it up to the boundary,
and its summary is made from just these. -/
lemma executeCompaction_ok (h : executeCompaction env history boundary compressBudget = .ok r) :
    let range := findIncrementalRange history (min boundary (foldEnd history))
    r.compactStart = range.replaceStart ∧ r.compactEnd = min boundary (foldEnd history) ∧
      r.input = { toCompact := slice history range.compactStart (min boundary (foldEnd history))
                  existingSummary := range.existingSummary } ∧
      slice history range.compactStart (min boundary (foldEnd history)) ≠ [] := by
  unfold executeCompaction at h
  dsimp only at h
  rw [compactEnd_findIncrementalRange] at h
  split_ifs at h with hempty
  cases h
  exact ⟨rfl, rfl, rfl, hempty⟩

lemma executeCompaction_error {e : String}
    (h : executeCompaction env history boundary compressBudget = .error e) :
    e = noContentToCompact ∧
      slice history (findIncrementalRange history (min boundary (foldEnd history))).compactStart
        (min boundary (foldEnd history)) = [] := by
  unfold executeCompaction at h
  dsimp only at h
  rw [compactEnd_findIncrementalRange] at h
  split_ifs at h with hempty
  cases h
  exact ⟨rfl, hempty⟩

/-- **A full fold** replaces everything that may be folded; its summary is made from all of it when
nothing follows the last summary, and from the last summary and what follows it otherwise. -/
lemma executeFullFoldCompaction_ok {budget : Nat}
    (h : executeFullFoldCompaction env history budget = .ok r) :
    r.compactStart = 0 ∧ r.compactEnd = foldEnd history ∧
      (if foldEnd history ≤ (findIncrementalRange history (foldEnd history)).compactStart then
        r.input = { toCompact := history.take (foldEnd history), existingSummary := none }
      else
        r.input =
          { toCompact := slice history
              (findIncrementalRange history (foldEnd history)).compactStart (foldEnd history)
            existingSummary :=
              (findIncrementalRange history (foldEnd history)).existingSummary }) := by
  unfold executeFullFoldCompaction at h
  dsimp only at h
  rw [compactEnd_findIncrementalRange] at h
  by_cases hempty : history = [] ∨ foldEnd history = 0
  · rw [if_pos hempty] at h
    cases h
  · rw [if_neg hempty] at h
    by_cases hrange : foldEnd history ≤ (findIncrementalRange history (foldEnd history)).compactStart
    · rw [if_pos hrange] at h
      cases h
      refine ⟨rfl, rfl, ?_⟩
      rw [if_pos hrange]
    · rw [if_neg hrange] at h
      cases hexec : executeCompaction env history (foldEnd history) (some budget) with
      | error e => simp [hexec] at h
      | ok r' =>
        rw [hexec] at h
        cases h
        obtain ⟨-, hend, hinput, -⟩ := executeCompaction_ok hexec
        rw [min_self] at hend hinput
        refine ⟨rfl, by dsimp only; rw [hend, min_self], ?_⟩
        rw [if_neg hrange]
        exact hinput

end

end MyClaw
