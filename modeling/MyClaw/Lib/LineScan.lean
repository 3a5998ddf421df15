import MyClaw.Lib.Chars
import Mathlib.Data.List.TakeWhile

set_option autoImplicit false

/-!
# Scans of a text line by line

A scan reads a text line by line: each line takes it from one state to the next one.  What is seen at a
position of the text depends on the state before its line and on the state after it.  This file has what
a scan sees of a text that is put together from parts which do not end at the ends of lines.

## Main definitions

* `LineScan.firstLine`, `LineScan.lastLine` — the line that a text starts with, and the one it ends in.
* `LineScan.before`, `LineScan.after` — the state at the start of the last line, and at the end.
* `LineScan.seenAt` — what is seen at a position.

## Main results

* `LineScan.seenAt_append`, `LineScan.after_append` — the second of two parts is seen as by itself
  if its first line is read as the same.
* `LineScan.seenAt_append_congr` — the first of two parts is seen as with another second part if its
  last line is. -/

namespace Chars

/-- A text without a newline is a line that may still be going on. -/
lemma cutLines_of_notMem {text : List Char} (h : '\n' ∉ text) : cutLines text = ([], text) := by
  induction text with
  | nil => rfl
  | cons c text ih =>
    rw [List.mem_cons, not_or] at h
    rw [cutLines, ih h.2]
    simp [Ne.symm h.1]

/-- A line that ends, and the text after it. -/
lemma cutLines_append_newline {line text : List Char} (h : '\n' ∉ line) :
    cutLines (line ++ '\n' :: text) = (line :: (cutLines text).1, (cutLines text).2) := by
  induction line with
  | nil => simp [cutLines]
  | cons c line ih =>
    rw [List.mem_cons, not_or] at h
    rw [List.cons_append, cutLines, ih h.2]
    simp [Ne.symm h.1]

/-- The lines that have ended, and the last one. -/
lemma cutLines_eq_splitOn (text : List Char) :
    (cutLines text).1 ++ [(cutLines text).2] = text.splitOn '\n' := by
  induction text with
  | nil => rfl
  | cons c text ih =>
    rw [cutLines, List.splitOn_cons_eq_if_modifyHead, ← ih]
    dsimp only
    by_cases hc : c = '\n'
    · rw [if_pos hc, if_pos (beq_iff_eq.2 hc)]
      rfl
    · rw [if_neg hc, if_neg (mt beq_iff_eq.1 hc)]
      cases (cutLines text).1 <;> rfl

/-- **Induction on the lines of a text**. -/
theorem lines_induction {motive : List Char → Prop} (hlast : ∀ line, '\n' ∉ line → motive line)
    (hline : ∀ line text, '\n' ∉ line → motive text → motive (line ++ '\n' :: text))
    (text : List Char) : motive text := by
  induction hlength : text.length using Nat.strong_induction_on generalizing text with
  | _ n ih =>
    subst hlength
    by_cases hmem : '\n' ∈ text
    · obtain ⟨line, rest, rfl, hnone⟩ := List.eq_append_cons_of_mem hmem
      refine hline line rest hnone (ih _ ?_ rest rfl)
      simp only [List.length_append, List.length_cons]
      omega
    · exact hlast text hmem

/-- The line that may still be going on has no newline. -/
lemma newline_notMem_cutLines (text : List Char) : '\n' ∉ (cutLines text).2 := by
  induction text using lines_induction with
  | hlast line hline => rwa [cutLines_of_notMem hline]
  | hline line text hline ih => rwa [cutLines_append_newline hline]

/-- The lines that end have no newline. -/
lemma newline_notMem_of_mem_cutLines {line text : List Char} (h : line ∈ (cutLines text).1) :
    '\n' ∉ line := by
  induction text using lines_induction with
  | hlast last hlast =>
    rw [cutLines_of_notMem hlast] at h
    cases h
  | hline first text hfirst ih =>
    rw [cutLines_append_newline hfirst] at h
    rcases List.mem_cons.1 h with rfl | hmem
    · exact hfirst
    · exact ih hmem

end Chars

namespace LineScan

open Chars

/-- The line that a text starts with. -/
def firstLine (text : List Char) : List Char := text.takeWhile (· ≠ '\n')

/-- The line that a text ends in. -/
def lastLine (text : List Char) : List Char := (cutLines text).2

variable {a b line text : List Char}

lemma firstLine_append_newline (h : '\n' ∉ line) : firstLine (line ++ '\n' :: text) = line := by
  unfold firstLine
  rw [List.takeWhile_append_of_pos (by simpa using fun c hc => ne_of_mem_of_not_mem hc h)]
  simp

lemma firstLine_append_of_notMem (h : '\n' ∉ a) : firstLine (a ++ b) = a ++ firstLine b :=
  List.takeWhile_append_of_pos (by simpa using fun c hc => ne_of_mem_of_not_mem hc h)

lemma firstLine_append_of_mem (h : '\n' ∈ a) : firstLine (a ++ b) = firstLine a := by
  obtain ⟨line, rest, rfl, hline⟩ := List.eq_append_cons_of_mem h
  rw [List.append_assoc, List.cons_append, firstLine_append_newline hline,
    firstLine_append_newline hline]

lemma firstLine_of_notMem (h : '\n' ∉ a) : firstLine a = a := by
  simpa [firstLine] using firstLine_append_of_notMem (b := []) h

lemma lastLine_of_notMem (h : '\n' ∉ a) : lastLine a = a := by
  rw [lastLine, cutLines_of_notMem h]

lemma newline_notMem_lastLine (text : List Char) : '\n' ∉ lastLine text :=
  newline_notMem_cutLines text

/-- The line that a text ends in when it goes on without a newline. -/
lemma lastLine_append (h : '\n' ∉ b) : lastLine (a ++ b) = lastLine a ++ b := by
  have hlast : '\n' ∉ (cutLines a).2 ++ b := by
    rw [List.mem_append, not_or]
    exact ⟨newline_notMem_cutLines a, h⟩
  rw [lastLine, cutLines_append, cutLines_of_notMem hlast]
  rfl

variable {S β : Type*} (step : S → List Char → S) (view : S → S → β)

/-- The state at the start of the last line. -/
def before (s : S) (text : List Char) : S := (cutLines text).1.foldl step s

/-- The state at the end. -/
def after (s : S) (text : List Char) : S := step (before step s text) (lastLine text)

/-- What is seen at a position: of the state before its line, and the one after it. -/
def seenAt (s : S) (text : List Char) (i : ℕ) : β :=
  let state := before step s (text.take i)
  view state (step state (lastLine (text.take i) ++ firstLine (text.drop i)))

variable {step view} {s s' : S} {i : ℕ}

lemma before_of_notMem (h : '\n' ∉ a) : before step s a = s := by
  rw [before, cutLines_of_notMem h]
  rfl

/-- A text that goes on without a newline is still in its last line. -/
lemma before_append_of_notMem (h : '\n' ∉ b) : before step s (a ++ b) = before step s a := by
  have hlast : '\n' ∉ (cutLines a).2 ++ b := by
    rw [List.mem_append, not_or]
    exact ⟨newline_notMem_cutLines a, h⟩
  rw [before, cutLines_append, cutLines_of_notMem hlast, List.append_nil]
  rfl

/-- A text that goes on with the rest of its last line and other lines. -/
lemma before_append_newline (h : '\n' ∉ line) :
    before step s (a ++ (line ++ '\n' :: b)) =
      before step (step (before step s a) (lastLine a ++ line)) b := by
  have hlast : '\n' ∉ (cutLines a).2 ++ line := by
    rw [List.mem_append, not_or]
    exact ⟨newline_notMem_cutLines a, h⟩
  rw [before, cutLines_append, ← List.append_assoc, cutLines_append_newline hlast,
    List.foldl_append]
  rfl

lemma lastLine_append_newline (h : '\n' ∉ line) : lastLine (a ++ (line ++ '\n' :: b)) = lastLine b := by
  have hlast : '\n' ∉ (cutLines a).2 ++ line := by
    rw [List.mem_append, not_or]
    exact ⟨newline_notMem_cutLines a, h⟩
  rw [lastLine, cutLines_append, ← List.append_assoc, cutLines_append_newline hlast]
  rfl

/-- The last line is the end of the text. -/
lemma lastLine_isSuffix (text : List Char) : lastLine text <:+ text := by
  induction text using lines_induction with
  | hlast line hline => rw [lastLine_of_notMem hline]
  | hline line text hline ih =>
    have hlast : lastLine ([] ++ (line ++ '\n' :: text)) = lastLine text :=
      lastLine_append_newline hline
    rw [List.nil_append] at hlast
    rw [hlast]
    exact ih.trans ((List.suffix_cons '\n' text).trans (List.suffix_append line _))

/-- A text of lines that do nothing leaves the state as it is. -/
lemma before_eq_self {p : Char → Prop} (hstep : ∀ line, (∀ c ∈ line, p c) → step s line = s)
    (h : ∀ c ∈ text, p c) : before step s text = s := by
  induction text using lines_induction with
  | hlast line hline => exact before_of_notMem hline
  | hline line text hline ih =>
    have hbefore : before step s ([] ++ (line ++ '\n' :: text)) = before step (step s line) text :=
      before_append_newline hline
    rw [List.nil_append] at hbefore
    rw [hbefore, hstep line fun c hc => h c (List.mem_append_left _ hc)]
    exact ih fun c hc => h c (List.mem_append_right _ (List.mem_cons_of_mem _ hc))

/-- **The second of two parts is seen as by itself** if its first line, read with the end of the first
part in front, leads to the same state. -/
theorem seenAt_append (hstate : before step s a = s')
    (hstep : step s' (lastLine a ++ firstLine b) = step s' (firstLine b)) :
    seenAt step view s (a ++ b) (a.length + i) = seenAt step view s' b i := by
  have hb : b.take i ++ b.drop i = b := List.take_append_drop i b
  simp only [seenAt, List.take_length_add_append, List.drop_length_add_append]
  by_cases hline : '\n' ∈ b.take i
  · obtain ⟨line, rest, htake, hnone⟩ := List.eq_append_cons_of_mem hline
    have hfirst : firstLine b = line := by
      rw [← hb, htake, List.append_assoc, List.cons_append, firstLine_append_newline hnone]
    rw [hfirst] at hstep
    have hself : before step s' ([] ++ (line ++ '\n' :: rest)) = before step (step s' line) rest :=
      before_append_newline hnone
    have hlast : lastLine ([] ++ (line ++ '\n' :: rest)) = lastLine rest :=
      lastLine_append_newline hnone
    rw [List.nil_append] at hself hlast
    rw [htake, before_append_newline hnone, lastLine_append_newline hnone, hself, hlast, hstate,
      hstep]
  · have hfirst : firstLine b = b.take i ++ firstLine (b.drop i) := by
      rw [← firstLine_append_of_notMem hline, hb]
    rw [before_append_of_notMem hline, before_of_notMem hline, lastLine_append hline,
      lastLine_of_notMem hline, hstate, List.append_assoc, ← hfirst, hstep]

/-- The second of two parts leads to the state that it leads to by itself. -/
theorem after_append (hstate : before step s a = s')
    (hstep : step s' (lastLine a ++ firstLine b) = step s' (firstLine b)) :
    after step s (a ++ b) = after step s' b := by
  by_cases hline : '\n' ∈ b
  · obtain ⟨line, rest, rfl, hnone⟩ := List.eq_append_cons_of_mem hline
    rw [firstLine_append_newline hnone] at hstep
    have hself : before step s' ([] ++ (line ++ '\n' :: rest)) = before step (step s' line) rest :=
      before_append_newline hnone
    have hlast : lastLine ([] ++ (line ++ '\n' :: rest)) = lastLine rest :=
      lastLine_append_newline hnone
    rw [List.nil_append] at hself hlast
    rw [after, after, before_append_newline hnone, lastLine_append_newline hnone, hself, hlast, hstate,
      hstep]
  · rw [firstLine_of_notMem hline] at hstep
    rw [after, after, before_append_of_notMem hline, before_of_notMem hline, lastLine_append hline,
      lastLine_of_notMem hline, hstate, hstep]

/-- **The first of two parts is seen as with another second part** if its last line is. -/
theorem seenAt_append_congr {b' : List Char} (hi : i < a.length)
    (hlast : lastLine a ≠ [] →
      view (before step s a) (step (before step s a) (lastLine a ++ firstLine b)) =
        view (before step s a) (step (before step s a) (lastLine a ++ firstLine b'))) :
    seenAt step view s (a ++ b) i = seenAt step view s (a ++ b') i := by
  have ha : a.take i ++ a.drop i = a := List.take_append_drop i a
  simp only [seenAt, List.take_append_of_le_length hi.le, List.drop_append_of_le_length hi.le]
  by_cases hline : '\n' ∈ a.drop i
  · rw [firstLine_append_of_mem hline, firstLine_append_of_mem hline]
  · have hbefore : before step s (a.take i ++ a.drop i) = before step s (a.take i) :=
      before_append_of_notMem hline
    have hlastLine : lastLine (a.take i ++ a.drop i) = lastLine (a.take i) ++ a.drop i :=
      lastLine_append hline
    rw [ha] at hbefore hlastLine
    have hrest : a.drop i ≠ [] := by
      rw [Ne, List.drop_eq_nil_iff]
      omega
    have hne : lastLine a ≠ [] := by
      rw [hlastLine]
      exact List.append_ne_nil_of_right_ne_nil _ hrest
    rw [firstLine_append_of_notMem hline, firstLine_append_of_notMem hline, ← List.append_assoc,
      ← List.append_assoc, ← hlastLine, ← hbefore]
    exact hlast hne

/-- A part without a newline is seen by the line that it is in. -/
lemma seenAt_append_of_notMem (hline : '\n' ∉ b.take i) :
    seenAt step view s (a ++ b) (a.length + i) =
      view (before step s a) (step (before step s a) (lastLine a ++ firstLine b)) := by
  have hfirst : firstLine b = b.take i ++ firstLine (b.drop i) := by
    rw [← firstLine_append_of_notMem hline, List.take_append_drop]
  simp only [seenAt, List.take_length_add_append, List.drop_length_add_append]
  rw [before_append_of_notMem hline, lastLine_append hline, List.append_assoc, ← hfirst]

end LineScan
