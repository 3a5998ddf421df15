import MyClaw.Session.Types

set_option autoImplicit false

/-!
# Ranges of a compaction

Which part of a history a compaction may fold (`agents/compaction_engine/fold.rs`): the messages
after the last summary, up to a boundary, and never the open turn of the user, which is the streak
of user messages that the history ends with.

## Main definitions

* `findIncrementalRange` — the range that a compaction folds, with the summary before it.
* `openUserProtectedFrom` — where the open turn of the user begins.

## Main results

* `findIncrementalRange_some`, `findIncrementalRange_none` — the range with and
  without a summary.
* `openUserProtectedFrom_lt` — the open turn is inside the history.
-/

namespace MyClaw

/-- What the text of a summary begins with. -/
def compactionMarker : String := "[CONTEXT COMPACTION — REFERENCE ONLY]"

/-- The text is that of a summary. -/
def startsWithMarker (text : String) : Bool := compactionMarker.isPrefixOf text

/-- `rposition`: the last position at which a predicate holds. -/
def rposition {α : Type*} (p : α → Bool) : List α → Option Nat
  | [] => none
  | a :: l =>
    match rposition p l with
    | some i => some (i + 1)
    | none => if p a then some 0 else none

/-- The message is a summary. -/
def isSummary (m : ChatMessage) : Bool := m.role = "user" && startsWithMarker m.textContent

/-- Where the replaced part and the folded part of a history begin, where both end, and the text of
the summary between them. -/
structure IncrementalRange where
  replaceStart : Nat
  compactStart : Nat
  compactEnd : Nat
  existingSummary : Option String

/-- `find_incremental_range`. -/
def findIncrementalRange (history : List ChatMessage) (boundary : Nat) : IncrementalRange :=
  match rposition isSummary (history.take boundary) with
  | some idx =>
    { replaceStart := idx, compactStart := idx + 1, compactEnd := boundary
      existingSummary := history[idx]?.map (·.textContent) }
  | none =>
    { replaceStart := 0, compactStart := 0, compactEnd := boundary, existingSummary := none }

/-- Where the streak of user messages at the end begins. -/
def streakStart (history : List ChatMessage) : Nat :=
  history.length - (history.reverse.takeWhile (·.role = "user")).length

/-- `open_user_protected_from`: where the open turn of the user begins; the summaries that a streak
begins with do not belong to it. -/
def openUserProtectedFrom (history : List ChatMessage) : Option Nat :=
  if streakStart history = history.length then none
  else
    let protectedFrom := streakStart history +
      ((history.drop (streakStart history)).takeWhile (startsWithMarker ·.textContent)).length
    if history.length ≤ protectedFrom then none else some protectedFrom

/-- Where a fold of everything that may be folded ends. -/
def foldEnd (history : List ChatMessage) : Nat :=
  (openUserProtectedFrom history).getD history.length

/-- The messages from one position up to another. -/
def slice (history : List ChatMessage) (start stop : Nat) : List ChatMessage :=
  (history.take stop).drop start

/-! ## Positions -/

section

variable {α : Type*} {p : α → Bool} {l : List α} {i : Nat}

lemma rposition_lt (h : rposition p l = some i) : i < l.length := by
  induction l generalizing i with
  | nil => cases h
  | cons a l ih =>
    unfold rposition at h
    cases hrest : rposition p l with
    | some j =>
      rw [hrest] at h
      cases h
      simpa using ih hrest
    | none =>
      rw [hrest] at h
      dsimp only at h
      split_ifs at h
      cases h
      simp

end

section

variable {history : List ChatMessage} {boundary idx : Nat}

lemma findIncrementalRange_some (h : rposition isSummary (history.take boundary) = some idx) :
    findIncrementalRange history boundary =
      { replaceStart := idx, compactStart := idx + 1, compactEnd := boundary
        existingSummary := history[idx]?.map (·.textContent) } := by
  unfold findIncrementalRange
  rw [h]

lemma findIncrementalRange_none (h : rposition isSummary (history.take boundary) = none) :
    findIncrementalRange history boundary =
      { replaceStart := 0, compactStart := 0, compactEnd := boundary, existingSummary := none } := by
  unfold findIncrementalRange
  rw [h]

@[simp] lemma compactEnd_findIncrementalRange :
    (findIncrementalRange history boundary).compactEnd = boundary := by
  cases h : rposition isSummary (history.take boundary) with
  | some idx => rw [findIncrementalRange_some h]
  | none => rw [findIncrementalRange_none h]

/-- **The open turn is inside the history.** -/
lemma openUserProtectedFrom_lt {protectedFrom : Nat}
    (h : openUserProtectedFrom history = some protectedFrom) : protectedFrom < history.length := by
  unfold openUserProtectedFrom at h
  dsimp only at h
  split_ifs at h with hstreak hlen
  cases h
  omega

lemma foldEnd_le : foldEnd history ≤ history.length := by
  unfold foldEnd
  cases h : openUserProtectedFrom history with
  | none => simp
  | some p => simpa using (openUserProtectedFrom_lt h).le

@[simp] lemma length_slice {start stop : Nat} (hstop : stop ≤ history.length) :
    (slice history start stop).length = stop - start := by
  simp [slice, hstop]

/-- A slice that begins with a message. -/
lemma slice_eq_cons {stop : Nat} {m : ChatMessage} (hm : history[idx]? = some m)
    (hlt : idx < stop) : slice history idx stop = m :: slice history (idx + 1) stop := by
  unfold slice
  have hget : (history.take stop)[idx]? = some m := by rw [List.getElem?_take_of_lt hlt, hm]
  obtain ⟨hidx, rfl⟩ := List.getElem?_eq_some_iff.1 hget
  exact List.drop_eq_getElem_cons hidx

end

end MyClaw
