import MyClaw.Channels.FenceTables
import MyClaw.Memory.FileText

set_option autoImplicit false

/-!
# Lines that are joined again

What becomes of lines that a program takes from a text and joins with newlines.  A carriage return
before a newline belongs to the line break, so that a line that still ends in one loses it, unless
it is the last one.

## Main definitions

* `isBlankLine`, `startsWhite` — blank lines and indented ones.
* `fullLines` — the lines of a text that are not blank.
* `KeepsReturns` — no line that another one follows ends in a carriage return.

## Main results

* `fullLines_intercalate` — the lines are the same again if they keep their returns.
* `returnsIn_fullLines_le`, `keepsReturns_of_returnsIn` — else there are fewer returns.
-/

namespace MyClaw

/-- `line.starts_with(char::is_whitespace)`. -/
def startsWhite (line : List Char) : Bool := line.head?.any isWhiteSpace

/-- `line.trim().is_empty()`. -/
def isBlankLine (line : List Char) : Bool := (trimChars line).isEmpty

/-- The lines of a text that are not blank. -/
def fullLines (text : List Char) : List (List Char) := (textLines text).filter (! isBlankLine ·)

/-- No line that another one follows ends in a carriage return, blank ones apart. -/
def KeepsReturns (lines : List (List Char)) : Prop :=
  ∀ line ∈ lines.dropLast, isBlankLine line ∨ line.getLast? ≠ some '\r'

variable {a b line text : List Char} {lines : List (List Char)}

/-! ## Blank lines -/

/-- A line is blank if it is white space. -/
lemma isBlankLine_iff : isBlankLine line = true ↔ ∀ c ∈ line, isWhiteSpace c = true := by
  rw [isBlankLine, List.isEmpty_iff]
  constructor
  · intro h c hc
    rcases mem_trimChars_or hc with hmem | hwhite
    · rw [h] at hmem
      exact absurd hmem List.not_mem_nil
    · exact hwhite
  · intro h
    exact trimChars_eq_nil (List.all_eq_true.2 fun c hc => h c (trimChars_subset line hc))

lemma isBlankLine_append : isBlankLine (a ++ b) = (isBlankLine a && isBlankLine b) := by
  rw [Bool.eq_iff_iff, Bool.and_eq_true, isBlankLine_iff, isBlankLine_iff, isBlankLine_iff]
  exact List.forall_mem_append

/-- A blank line is empty or indented. -/
lemma startsWhite_of_isBlankLine (h : isBlankLine line = true) : line = [] ∨ startsWhite line := by
  cases line with
  | nil => exact .inl rfl
  | cons c line => exact .inr (isBlankLine_iff.1 h c List.mem_cons_self)

/-! ## The lines of joined lines -/

/-- A line that a newline ends, without its carriage return. -/
def stripReturn (line : List Char) : List Char :=
  if line.getLast? = some '\r' then line.dropLast else line

lemma isBlankLine_stripReturn : isBlankLine (stripReturn line) = isBlankLine line := by
  rw [stripReturn]
  split_ifs with h
  · obtain ⟨front, rfl⟩ := List.getLast?_eq_some_iff.1 h
    rw [List.dropLast_concat, isBlankLine_append, show isBlankLine ['\r'] = true from rfl,
      Bool.and_true]
  · rfl

/-- A line of a text has no newline. -/
lemma newline_notMem_of_mem_textLines (h : line ∈ textLines text) : '\n' ∉ line := by
  rw [textLines_eq] at h
  obtain ⟨fence, hfence, rfl⟩ := List.mem_map.1 h
  have hnot := newline_notMem_of_mem_fenceLines hfence
  rw [lineText]
  split_ifs
  · exact fun hmem => hnot (List.dropLast_subset _ hmem)
  · exact hnot

/-- The lines of one line. -/
lemma fullLines_singleton (h : '\n' ∉ line) :
    fullLines (['\n'].intercalate [line]) = [line].filter (! isBlankLine ·) := by
  rw [List.intercalate_singleton, fullLines, textLines_of_notMem h]
  split_ifs with hnil
  · rw [hnil]
    rfl
  · rfl

/-- The first of several lines. -/
lemma fullLines_cons_cons (h : '\n' ∉ a) :
    fullLines (['\n'].intercalate (a :: b :: lines)) =
      [stripReturn a].filter (! isBlankLine ·) ++ fullLines (['\n'].intercalate (b :: lines)) := by
  rw [List.intercalate_cons_cons, List.append_assoc, List.singleton_append, fullLines,
    textLines_append_newline h, fullLines]
  exact List.filter_append (p := (! isBlankLine ·)) [stripReturn a] _

/-- **Lines that keep their returns are the same again.** -/
theorem fullLines_intercalate (hnew : ∀ line ∈ lines, '\n' ∉ line) (h : KeepsReturns lines) :
    fullLines (['\n'].intercalate lines) = lines.filter (! isBlankLine ·) := by
  induction lines with
  | nil => rfl
  | cons a lines ih =>
    have ha := hnew a List.mem_cons_self
    cases lines with
    | nil => exact fullLines_singleton ha
    | cons b lines =>
      rw [KeepsReturns, List.dropLast_cons_cons, List.forall_mem_cons] at h
      have hstrip : [stripReturn a].filter (! isBlankLine ·) = [a].filter (! isBlankLine ·) := by
        rcases h.1 with hblank | hlast
        · simp [isBlankLine_stripReturn, hblank]
        · rw [stripReturn, if_neg hlast]
      rw [fullLines_cons_cons ha, hstrip, ih
        (fun line hline => hnew line (List.mem_cons_of_mem _ hline)) h.2]
      exact (List.filter_append (p := (! isBlankLine ·)) [a] _).symm

/-- There are as many of them in any case. -/
lemma length_fullLines_intercalate (hnew : ∀ line ∈ lines, '\n' ∉ line) :
    (fullLines (['\n'].intercalate lines)).length = (lines.filter (! isBlankLine ·)).length := by
  induction lines with
  | nil => rfl
  | cons a lines ih =>
    have ha := hnew a List.mem_cons_self
    cases lines with
    | nil => rw [fullLines_singleton ha]
    | cons b lines =>
      have hlen : ([stripReturn a].filter (! isBlankLine ·)).length =
          ([a].filter (! isBlankLine ·)).length := by
        simp only [List.filter_cons, isBlankLine_stripReturn]
        split <;> rfl
      rw [fullLines_cons_cons ha, List.length_append, hlen,
        ih fun line hline => hnew line (List.mem_cons_of_mem _ hline), ← List.length_append]
      exact congrArg _ (List.filter_append (p := (! isBlankLine ·)) [a] _).symm

/-! ## Returns -/

/-- The carriage returns at the end of a line. -/
def returns (line : List Char) : ℕ := (line.reverse.takeWhile (· = '\r')).length

/-- The carriage returns at the ends of lines. -/
def returnsIn (lines : List (List Char)) : ℕ := (lines.map returns).sum

@[simp] lemma returnsIn_nil : returnsIn [] = 0 := rfl

@[simp] lemma returnsIn_cons (line : List Char) (lines : List (List Char)) :
    returnsIn (line :: lines) = returns line + returnsIn lines := rfl

@[simp] lemma returnsIn_append (ls ms : List (List Char)) :
    returnsIn (ls ++ ms) = returnsIn ls + returnsIn ms := by
  rw [returnsIn, List.map_append, List.sum_append]
  rfl

/-- What stands in front of a line that is not blank does not matter. -/
lemma returns_append (h : isBlankLine b = false) : returns (a ++ b) = returns b := by
  rw [returns, List.reverse_append, List.takeWhile_append, if_neg ?_, returns]
  intro hlen
  have hall := (List.takeWhile_prefix _).eq_of_length hlen
  rw [List.takeWhile_eq_self_iff] at hall
  have hblank : isBlankLine b = true := by
    refine isBlankLine_iff.2 fun c hc => ?_
    have hreturn := hall c (List.mem_reverse.2 hc)
    rw [of_decide_eq_true hreturn]
    rfl
  rw [h] at hblank
  exact absurd hblank Bool.false_ne_true

/-- Nor do texts in front of several such lines. -/
lemma returnsIn_zipWith {fronts : List (List Char)} (hlen : fronts.length = lines.length)
    (h : ∀ line ∈ lines, isBlankLine line = false) :
    returnsIn (List.zipWith (· ++ ·) fronts lines) = returnsIn lines := by
  induction lines generalizing fronts with
  | nil => rw [List.zipWith_nil_right]
  | cons line lines ih =>
    obtain ⟨front, fronts, rfl⟩ := List.exists_cons_of_length_eq_add_one hlen
    rw [List.forall_mem_cons] at h
    rw [List.zipWith_cons_cons, returnsIn_cons, returnsIn_cons, returns_append h.1,
      ih (Nat.succ.inj hlen) h.2]

/-- The carriage return before a newline is lost. -/
lemma returns_stripReturn :
    returns line = returns (stripReturn line) + if line.getLast? = some '\r' then 1 else 0 := by
  rw [stripReturn]
  split_ifs with h
  · obtain ⟨front, rfl⟩ := List.getLast?_eq_some_iff.1 h
    rw [List.dropLast_concat, returns, List.reverse_concat]
    rfl
  · rfl

/-- Lines that are joined have no more returns, and as many only if they keep them. -/
lemma returnsIn_fullLines (hnew : ∀ line ∈ lines, '\n' ∉ line) :
    returnsIn (fullLines (['\n'].intercalate lines)) ≤ returnsIn (lines.filter (! isBlankLine ·)) ∧
      (returnsIn (lines.filter (! isBlankLine ·)) ≤ returnsIn (fullLines (['\n'].intercalate lines)) →
        KeepsReturns lines) := by
  induction lines with
  | nil => exact ⟨le_rfl, fun _ => nofun⟩
  | cons a lines ih =>
    have ha := hnew a List.mem_cons_self
    cases lines with
    | nil => exact ⟨(congrArg _ (fullLines_singleton ha)).le, fun _ => nofun⟩
    | cons b lines =>
      obtain ⟨hle, hkeeps⟩ := ih fun line hline => hnew line (List.mem_cons_of_mem _ hline)
      have hstrip := @returns_stripReturn a
      rw [fullLines_cons_cons ha, KeepsReturns, List.dropLast_cons_cons, List.forall_mem_cons,
        List.filter_cons (p := (! isBlankLine ·)) (x := a), List.filter_cons]
      rw [isBlankLine_stripReturn]
      cases hblank : isBlankLine a with
      | true => exact ⟨hle, fun h => ⟨.inl rfl, hkeeps h⟩⟩
      | false =>
        simp only [Bool.not_false, if_true, List.filter_nil, returnsIn_append, returnsIn_cons,
          returnsIn_nil]
        refine ⟨by omega, fun h => ?_⟩
        split_ifs at hstrip with hlast
        · omega
        · exact ⟨.inr hlast, hkeeps (by omega)⟩

/-- Lines that are joined have no more returns. -/
lemma returnsIn_fullLines_le (hnew : ∀ line ∈ lines, '\n' ∉ line) :
    returnsIn (fullLines (['\n'].intercalate lines)) ≤ returnsIn (lines.filter (! isBlankLine ·)) :=
  (returnsIn_fullLines hnew).1

/-- **Lines that have as many returns when they are joined keep them.** -/
theorem keepsReturns_of_returnsIn (hnew : ∀ line ∈ lines, '\n' ∉ line)
    (h : returnsIn (lines.filter (! isBlankLine ·)) ≤
      returnsIn (fullLines (['\n'].intercalate lines))) : KeepsReturns lines :=
  (returnsIn_fullLines hnew).2 h

end MyClaw
