import MyClaw.Lib.Split
import MyClaw.Tools.FileRead
import MyClaw.Tools.Task

set_option autoImplicit false

/-!
# Editing a file

`file_edit` (`tools/file_ops.rs`) replaces a text that the file must have once, and shows the lines of
the first place before and after.  It counts the places as `str::matches` does, from the left and without
overlaps.

## Main definitions

* `editOutcome` — what is written, or why nothing is.
* `replacementHunk`, `Hunk.shown`, `Hunk.apply` — the lines of the first place, as
  they are shown, and how a reader of a patch puts them in.
* `fileEdit` — the result of the tool.

## Main results

* `uniqueWhenWritten_iff` — for which texts the edit keeps the promise that there is one place.
* `hunkApplies_iff` — when the lines that are shown are all that has changed.
* `editOutcome_undo_iff` — when the reverse edit brings the file back.

## Implementation notes

The path is the one that `validate_path` has resolved and `is_path_protected` lets pass.  The hash and
what the file has after the writing are inputs; the errors of the disk are left out.
-/

namespace MyClaw

open Holes

/-! ## The edit -/

/-- The arguments of an edit, its path apart. -/
structure EditArgs where
  oldString : List Char
  newString : List Char
  replaceAll : Bool

/-- How often `str::matches` finds a text; the empty one is between any two characters. -/
def matchCount (pat text : List Char) : ℕ :=
  if pat = [] then text.length + 1 else placeCount pat text

/-- `str::replace`. -/
def replaceEvery (old new text : List Char) : List Char :=
  if old = [] then (text.flatMap fun c => new ++ [c]) ++ new else Holes.replaceAll old new text

/-- `str::replacen` for one place. -/
def replaceOnce (old new text : List Char) : List Char :=
  match cutFirst old text with
  | some (before, behind) => before ++ new ++ behind
  | none => text

/-- What an edit does. -/
inductive EditOutcome
  /-- There is no place. -/
  | notFound
  /-- There are several places. -/
  | notUnique (count : ℕ)
  /-- The file is written. -/
  | write (content : List Char)
  deriving DecidableEq

/-- The decision of `file_edit`. -/
def editOutcome (args : EditArgs) (content : List Char) : EditOutcome :=
  let count := matchCount args.oldString content
  if count = 0 then .notFound
  else if 1 < count ∧ args.replaceAll = false then .notUnique count
  else if args.replaceAll then .write (replaceEvery args.oldString args.newString content)
  else .write (replaceOnce args.oldString args.newString content)

/-! ## The lines that are shown -/

/-- The lines around the first place, before and after the edit. -/
structure Hunk where
  line : ℕ
  contextBefore : List (List Char)
  minus : List (List Char)
  plus : List (List Char)
  contextAfter : List (List Char)

/-- A slice of lines. -/
def lineSlice (lines : List (List Char)) (start stop : ℕ) : Except Panic (List (List Char)) :=
  if start ≤ stop ∧ stop ≤ lines.length then .ok ((lines.take stop).drop start) else .error .slice

/-- The text behind the last newline. -/
def lastLine (text : List Char) : List Char := (text.reverse.takeWhile (· ≠ '\n')).reverse

/-- The text up to and with the last newline. -/
def upToLastLine (text : List Char) : List Char := (text.reverse.dropWhile (· ≠ '\n')).reverse

/-- `find_line_number`. -/
def findLineNumber (haystack needle : List Char) : ℕ :=
  match cutFirst needle haystack with
  | some (before, _) => before.count '\n' + 1
  | none => 0

/-- The lines of `replacement_context_diff`, as they are in the file. -/
def replacementHunk (content old new : List Char) : Except Panic (Option Hunk) :=
  match cutFirst old content with
  | none => .ok none
  | some (before, behind) =>
    let lineEnd := behind.takeWhile (· ≠ '\n')
    let startLineNumber := (upToLastLine before).count '\n' + 1
    let oldFull := lastLine before ++ old ++ lineEnd
    let newFull := lastLine before ++ new ++ lineEnd
    let allLines := textLines content
    let startIdx := startLineNumber - 1
    let endIdx := min (startIdx + (oldFull.splitOn '\n').length) allLines.length
    (lineSlice allLines (startIdx - 3) startIdx).bind fun contextBefore =>
      (lineSlice allLines endIdx (min (endIdx + 3) allLines.length)).map fun contextAfter =>
        some ⟨startLineNumber, contextBefore, oldFull.splitOn '\n', newFull.splitOn '\n', contextAfter⟩

/-- A line of `replacement_context_diff`, cut to 200 characters. -/
def shownLine (line : List Char) : List Char := (truncateLine (String.ofList line) 200).toList

/-- The lines of `replacement_context_diff`, as they are shown. -/
def Hunk.shown (h : Hunk) : Hunk where
  line := h.line
  contextBefore := h.contextBefore.map shownLine
  minus := h.minus.map shownLine
  plus := h.plus.map shownLine
  contextAfter := h.contextAfter.map shownLine

/-- A line behind its mark. -/
def diffLine (mark : Char) (line : List Char) : List Char := mark :: line ++ ['\n']

/-- The text of the lines. -/
def Hunk.text (h : Hunk) : List Char :=
  "--- before\n+++ after\n".toList ++ "@@ line ".toList ++ decimal h.line ++ " @@\n".toList ++
    h.contextBefore.flatMap (diffLine ' ') ++ h.minus.flatMap (diffLine '-') ++
      h.plus.flatMap (diffLine '+') ++ h.contextAfter.flatMap (diffLine ' ')

/-- `replacement_context_diff`. -/
def replacementContextDiff (content old new : List Char) : Except Panic (List Char) :=
  (replacementHunk content old new).map fun hunk => (hunk.map fun h => h.shown.text).getD []

/-- `FileEditTool::execute`, for a file with this content that reads as `written` after the writing. -/
def fileEdit (sha256Hex : List Char → String) (path : String) (args : EditArgs)
    (content written : List Char) : Except Panic ToolResult :=
  let bytes (text : List Char) := toString (StrSlice.byteLen text)
  match editOutcome args content with
  | .notFound => .ok ⟨false, "", some "old_string not found in file"⟩
  | .notUnique count => .ok
    { success := false
      output := "old_string found " ++ toString count
        ++ " times, must be unique (or set replace_all=true)"
      error := some ("old_string matched " ++ toString count
        ++ " times, expected exactly 1 (set replace_all=true to replace all)") }
  | .write newContent =>
    if written ≠ newContent then .ok
      { success := false
        output := "write verification failed for " ++ path ++ "; expected_hash="
          ++ sha256Hex newContent ++ "; actual_hash=" ++ sha256Hex written ++ "; expected_bytes="
          ++ bytes newContent ++ "; actual_bytes=" ++ bytes written
        error := some "write verification failed: readback differs from intended content" }
    else
      let replacedCount := if args.replaceAll then matchCount args.oldString content else 1
      (replacementContextDiff content args.oldString args.newString).map fun diff =>
        { success := true
          output := "replaced " ++ toString replacedCount ++ " occurrence(s) in " ++ path
            ++ " (first match line " ++ toString (findLineNumber content args.oldString)
            ++ "); bytes " ++ bytes content ++ " -> " ++ bytes written ++ "; sha256 "
            ++ sha256Hex content ++ " -> " ++ sha256Hex written ++ "; verified_readback=true\n"
            ++ String.ofList diff
          error := none }

/-! ## The promise of one place -/

section Places

variable {old new content : List Char}

/-- A place of a text in another one. -/
def IsPlace (pat text : List Char) (i : ℕ) : Prop := i ≤ text.length ∧ pat <+: text.drop i

/-- Without `replace_all` the file is written exactly if one place is counted. -/
lemma editOutcome_eq_write_iff {written : List Char} :
    editOutcome ⟨old, new, false⟩ content = .write written ↔
      matchCount old content = 1 ∧ replaceOnce old new content = written := by
  rw [editOutcome]
  dsimp only
  split_ifs with hzero hmany hall
  · exact iff_of_false nofun fun h => absurd (h.1.symm.trans hzero) Nat.one_ne_zero
  · exact iff_of_false nofun fun h => absurd (h.1 ▸ hmany.1) (Nat.lt_irrefl 1)
  · exact absurd hall nofun
  · have hone : matchCount old content = 1 := by
      have : ¬ 1 < matchCount old content := fun h => hmany ⟨h, rfl⟩
      omega
    rw [EditOutcome.write.injEq]
    exact ⟨fun h => ⟨hone, h⟩, And.right⟩

/-- One place is counted exactly if the text is not found again behind the first place. -/
lemma matchCount_eq_one_iff (hold : old ≠ []) :
    matchCount old content = 1 ↔
      ∃ parts, cutFirst old content = some parts ∧ ¬ old <:+: parts.2 := by
  rw [matchCount, if_neg hold]
  cases hcut : cutFirst old content with
  | none =>
    have hnone := findText_eq_none_iff.1 (Option.map_eq_none_iff.1 hcut)
    rw [(placeCount_eq_zero_iff hold).2 hnone]
    exact iff_of_false Nat.zero_ne_one nofun
  | some parts =>
    rw [placeCount_of_cutFirst hold hcut, Nat.succ_inj, placeCount_eq_zero_iff hold]
    constructor
    · exact fun h => ⟨parts, rfl, h⟩
    · rintro ⟨parts', heq, h⟩
      rwa [Option.some.inj heq]

/-- A text that does not overlap itself is found once only if it has one place. -/
lemma existsUnique_isPlace (hold : old ≠ []) (h : matchCount old content = 1)
    (hborder : ∀ k, 0 < k → k < old.length → ¬ old.drop k <+: old) :
    ∃! i, IsPlace old content i := by
  obtain ⟨parts, hcut, hbehind⟩ := (matchCount_eq_one_iff hold).1 h
  obtain ⟨i, hi, rfl⟩ := Option.map_eq_some_iff.1 hcut
  obtain ⟨hpre, hfirst⟩ := findText_spec hi
  have hpos := List.length_pos_iff.2 hold
  have hlen := hpre.length_le
  rw [List.length_drop] at hlen
  refine ⟨i, ⟨by omega, hpre⟩, fun j ⟨hj, hplace⟩ => ?_⟩
  by_contra hne
  have hlt : i < j := by
    rcases Nat.lt_or_gt_of_ne hne with hlt | hgt
    · exact absurd hplace (hfirst j hlt)
    · exact hgt
  have hdrop : content.drop j = (content.drop i).drop (j - i) := by
    rw [List.drop_drop, Nat.add_sub_cancel' hlt.le]
  rcases Nat.lt_or_ge (j - i) old.length with hover | hfar
  · -- the second place begins within the first one
    obtain ⟨rest, hrest⟩ := hpre
    rw [hdrop, ← hrest, List.drop_append_of_le_length hover.le] at hplace
    refine hborder (j - i) (by omega) hover ?_
    refine List.prefix_of_prefix_length_le (List.prefix_append _ _) hplace ?_
    rw [List.length_drop]
    omega
  · -- it is behind the first one
    refine hbehind (hplace.isInfix.trans ?_)
    rw [hdrop, List.drop_drop]
    exact (List.drop_suffix_drop_left content (by omega)).isInfix

/-- **When the edit keeps its promise of one place**: exactly for the texts that do not overlap
themselves.  The places are counted without overlaps, so for any other text there is a file with two
places in which the first is replaced. -/
theorem uniqueWhenWritten_iff (old : List Char) :
    (∀ content new written, editOutcome ⟨old, new, false⟩ content = .write written →
      ∃! i, IsPlace old content i) ↔
        ∀ k, 0 < k → k < old.length → ¬ old.drop k <+: old := by
  constructor
  · intro h k hk hlt hborder
    have hold : old ≠ [] := List.ne_nil_of_length_pos (hk.trans hlt)
    have hfirst : old <+: old.take k ++ old := by
      obtain ⟨rest, hrest⟩ := hborder
      refine ⟨rest, ?_⟩
      calc old ++ rest = (old.take k ++ old.drop k) ++ rest := by rw [List.take_append_drop]
        _ = old.take k ++ old := by rw [List.append_assoc, hrest]
    have hcut : cutFirst old (old.take k ++ old) = some ([], (old.take k ++ old).drop old.length) := by
      have hfind : findText old (old.take k ++ old) = some 0 :=
        (findText_eq_some_iff hold).2 ⟨hfirst, fun j hj => absurd hj (Nat.not_lt_zero j)⟩
      rw [cutFirst, hfind, Option.map_some, List.take_zero, Nat.zero_add]
    have hone : matchCount old (old.take k ++ old) = 1 :=
      (matchCount_eq_one_iff hold).2 ⟨_, hcut, fun hsub => by
        have hle := hsub.length_le
        rw [List.length_drop, List.length_append, List.length_take] at hle
        omega⟩
    obtain ⟨i, -, honly⟩ := h _ [] _ (editOutcome_eq_write_iff.2 ⟨hone, rfl⟩)
    have hzero : 0 = i := honly 0 ⟨Nat.zero_le _, hfirst⟩
    have hlater : k = i := honly k ⟨by rw [List.length_append, List.length_take]; omega, by
      rw [List.drop_append_of_le_length (by rw [List.length_take]; omega), List.drop_take,
        Nat.sub_self, List.take_zero, List.nil_append]⟩
    omega
  · intro hborder content new written hwritten
    obtain ⟨hone, -⟩ := editOutcome_eq_write_iff.1 hwritten
    by_cases hold : old = []
    · rw [matchCount, if_pos hold] at hone
      obtain rfl : content = [] := List.length_eq_zero_iff.1 (by omega)
      exact ⟨0, ⟨le_rfl, hold ▸ List.nil_prefix⟩, fun j hj => Nat.le_zero.1 hj.1⟩
    · exact existsUnique_isPlace hold hone hborder

end Places

/-! ## The lines that change -/

/-- The lines with those of a hunk put in, for a text that has the lines it takes out. -/
def Hunk.apply (h : Hunk) (lines : List (List Char)) : Option (List (List Char)) :=
  if h.minus <+: lines.drop (h.line - 1) then
    some (lines.take (h.line - 1) ++ h.plus ++ lines.drop (h.line - 1 + h.minus.length))
  else none

section Lines

variable {before behind text : List Char}

lemma upToLastLine_append_lastLine (text : List Char) : upToLastLine text ++ lastLine text = text := by
  rw [upToLastLine, lastLine, ← List.reverse_append, List.takeWhile_append_dropWhile,
    List.reverse_reverse]

/-- The last line begins the text or stands behind a newline. -/
lemma upToLastLine_cases (text : List Char) :
    upToLastLine text = [] ∨ ∃ front, upToLastLine text = front ++ ['\n'] := by
  have hnot := List.head?_dropWhile_not (· ≠ '\n') text.reverse
  rw [upToLastLine]
  cases hdrop : text.reverse.dropWhile (· ≠ '\n') with
  | nil => exact .inl rfl
  | cons c rest =>
    rw [hdrop] at hnot
    have hc : c = '\n' := by simpa using hnot
    exact .inr ⟨rest.reverse, by rw [hc, List.reverse_cons]⟩

/-- The rest of a line ends the text or stands before a newline. -/
lemma dropWhile_newline_cases (text : List Char) :
    text.dropWhile (· ≠ '\n') = [] ∨ ∃ rest, text.dropWhile (· ≠ '\n') = '\n' :: rest := by
  have hnot := List.head?_dropWhile_not (· ≠ '\n') text
  cases hdrop : text.dropWhile (· ≠ '\n') with
  | nil => exact .inl rfl
  | cons c rest =>
    rw [hdrop] at hnot
    have hc : c = '\n' := by simpa using hnot
    exact .inr ⟨rest, by rw [hc]⟩

/-- Whole lines before a text. -/
lemma exists_lines_before (before : List Char) :
    ∃ lines, lines.length = (upToLastLine before).count '\n' ∧
      ∀ text, (before ++ text).splitOn '\n' = lines ++ (lastLine before ++ text).splitOn '\n' := by
  rcases upToLastLine_cases before with hnil | ⟨front, hfront⟩
  · refine ⟨[], by rw [hnil]; rfl, fun text => ?_⟩
    have hbefore := upToLastLine_append_lastLine before
    rw [hnil, List.nil_append] at hbefore
    rw [hbefore, List.nil_append]
  · refine ⟨front.splitOn '\n', ?_, fun text => ?_⟩
    · rw [List.splitOn_eq_splitOnP, Split.length_splitOnP, hfront, List.count_append,
        List.count_singleton_self, List.count]
    · have hbefore : before ++ text = front ++ '\n' :: (lastLine before ++ text) := by
        calc before ++ text = upToLastLine before ++ lastLine before ++ text := by
              rw [upToLastLine_append_lastLine]
          _ = front ++ '\n' :: (lastLine before ++ text) := by
              rw [hfront, List.append_assoc, List.append_assoc, List.singleton_append]
      rw [hbefore]
      exact List.splitOn_append_cons_self _ _

/-- Whole lines behind a text. -/
lemma exists_lines_behind (behind : List Char) :
    ∃ lines, ∀ text, (text ++ behind).splitOn '\n' =
      (text ++ behind.takeWhile (· ≠ '\n')).splitOn '\n' ++ lines := by
  have hbehind : behind.takeWhile (· ≠ '\n') ++ behind.dropWhile (· ≠ '\n') = behind :=
    List.takeWhile_append_dropWhile
  rcases dropWhile_newline_cases behind with hnil | ⟨rest, hrest⟩
  · rw [hnil, List.append_nil] at hbehind
    exact ⟨[], fun text => by rw [hbehind, List.append_nil]⟩
  · refine ⟨rest.splitOn '\n', fun text => ?_⟩
    rw [hrest] at hbehind
    rw [← List.splitOn_append_cons_self, List.append_assoc, hbehind]

/-- The lines of a place stand between whole lines, whatever is put there. -/
lemma exists_lines_around (before behind : List Char) :
    ∃ above below : List (List Char), above.length = (upToLastLine before).count '\n' ∧
      ∀ text, (before ++ text ++ behind).splitOn '\n' =
        above ++ (lastLine before ++ text ++ behind.takeWhile (· ≠ '\n')).splitOn '\n' ++ below := by
  obtain ⟨above, hlen, habove⟩ := exists_lines_before before
  obtain ⟨below, hbelow⟩ := exists_lines_behind behind
  exact ⟨above, below, hlen, fun text => by
    rw [List.append_assoc, habove, ← List.append_assoc, hbelow, List.append_assoc above]⟩

/-- There are at least as many lines as newlines. -/
lemma count_le_length_textLines (text : List Char) : text.count '\n' ≤ (textLines text).length := by
  have hlen := congrArg List.length (Chars.cutLines_eq_splitOn text)
  rw [List.length_append, List.splitOn_eq_splitOnP, Split.length_splitOnP, ← List.count] at hlen
  rw [textLines, List.length_append, List.length_map, ← Nat.succ.inj hlen]
  exact Nat.le_add_right _ _

/-- A hunk is put into the lines that it was taken from. -/
lemma Hunk.apply_append {h : Hunk} {above below : List (List Char)}
    (hline : above.length = h.line - 1) :
    h.apply (above ++ h.minus ++ below) = some (above ++ h.plus ++ below) := by
  have hpre : h.minus <+: (above ++ h.minus ++ below).drop (h.line - 1) := by
    rw [← hline, List.append_assoc, List.drop_left]
    exact List.prefix_append _ _
  rw [Hunk.apply, if_pos hpre, ← hline, ← List.length_append, List.drop_left, List.append_assoc above,
    List.take_left]

variable {old new content : List Char}

/-- A line of at most 200 characters is shown as it is. -/
lemma shownLine_of_length_le {line : List Char} (hline : '\n' ∉ line) (hlen : line.length ≤ 200) :
    shownLine line = line := by
  have hfirst : (textLines line).headD [] = line := by
    rw [textLines_of_notMem hline]
    split_ifs with hnil
    · exact hnil.symm
    · rfl
  simp only [shownLine, truncateLine, String.toList_ofList, hfirst, if_pos hlen]

/-- Lines of at most 200 characters are put in as they are shown. -/
lemma Hunk.apply_shown {h : Hunk} (hlines : ∀ line ∈ h.minus ++ h.plus, '\n' ∉ line)
    (hlen : ∀ line ∈ h.minus ++ h.plus, line.length ≤ 200) (lines : List (List Char)) :
    h.shown.apply lines = h.apply lines := by
  have hsame : ∀ line ∈ h.minus ++ h.plus, shownLine line = line :=
    fun line hline => shownLine_of_length_le (hlines line hline) (hlen line hline)
  have hminus : h.minus.map shownLine = h.minus :=
    (List.map_congr_left fun line hline => hsame line (List.mem_append_left _ hline)).trans
      (List.map_id' h.minus)
  have hplus : h.plus.map shownLine = h.plus :=
    (List.map_congr_left fun line hline => hsame line (List.mem_append_right _ hline)).trans
      (List.map_id' h.plus)
  simp only [Hunk.apply, Hunk.shown, hminus, hplus]

/-- The lines of a place are found without a panic, and put in they give the text with this place
replaced. -/
lemma replacementHunk_spec (hcut : cutFirst old content = some (before, behind)) :
    ∃ hunk, replacementHunk content old new = .ok (some hunk) ∧
      hunk.line = findLineNumber content old ∧ (∀ line ∈ hunk.minus ++ hunk.plus, '\n' ∉ line) ∧
        hunk.apply (content.splitOn '\n') = some ((before ++ new ++ behind).splitOn '\n') := by
  have hcontent : content = before ++ old ++ behind := append_of_cutFirst hcut
  have hcount : (upToLastLine before).count '\n' = before.count '\n' := by
    have hlast : '\n' ∉ lastLine before := fun hmem => by
      have := List.mem_takeWhile_imp (List.mem_reverse.1 hmem)
      simp at this
    have hsum := congrArg (List.count '\n') (upToLastLine_append_lastLine before)
    rwa [List.count_append, List.count_eq_zero.2 hlast, Nat.add_zero] at hsum
  have hroom : before.count '\n' ≤ (textLines content).length := by
    refine le_trans ?_ (count_le_length_textLines content)
    rw [hcontent, List.count_append, List.count_append]
    omega
  rw [replacementHunk, hcut]
  dsimp only
  rw [hcount, Nat.add_sub_cancel, lineSlice, if_pos ⟨Nat.sub_le _ _, hroom⟩, Except.bind, lineSlice,
    if_pos ⟨by omega, by omega⟩]
  refine ⟨_, rfl, ?_, ?_, ?_⟩
  · rw [findLineNumber, hcut]
  · intro line hline hmem
    dsimp only at hline
    rw [List.splitOn_eq_splitOnP, List.splitOn_eq_splitOnP, List.mem_append] at hline
    have hno := hline.elim Split.eq_false_of_mem_splitOnP Split.eq_false_of_mem_splitOnP _ hmem
    simp at hno
  · obtain ⟨above, below, hlen, haround⟩ := exists_lines_around before behind
    rw [hcontent, haround old, haround new]
    exact Hunk.apply_append (hlen.trans hcount)

end Lines

/-! ## All that has changed -/

section Changed

variable {before behind content written : List Char} {args : EditArgs}

/-- A file that is written has a first place. -/
lemma exists_cutFirst (h : editOutcome args content = .write written) :
    ∃ before behind, cutFirst args.oldString content = some (before, behind) := by
  cases hcut : cutFirst args.oldString content with
  | some parts => exact ⟨parts.1, parts.2, rfl⟩
  | none =>
    have hnone := findText_eq_none_iff.1 (Option.map_eq_none_iff.1 hcut)
    have hold : args.oldString ≠ [] := fun hnil => hnone (hnil ▸ List.nil_infix)
    have hzero : matchCount args.oldString content = 0 := by
      rw [matchCount, if_neg hold, placeCount_eq_zero_iff hold]
      exact hnone
    rw [editOutcome, if_pos hzero] at h
    exact absurd h nofun

/-- With `replace_all` the file is written exactly if there is a place. -/
lemma editOutcome_all_eq_write_iff {old new : List Char} :
    editOutcome ⟨old, new, true⟩ content = .write written ↔
      matchCount old content ≠ 0 ∧ replaceEvery old new content = written := by
  rw [editOutcome]
  dsimp only
  by_cases hzero : matchCount old content = 0
  · rw [if_pos hzero]
    exact iff_of_false nofun fun h => h.1 hzero
  · rw [if_neg hzero, if_neg fun h => absurd h.2 nofun, if_pos rfl, EditOutcome.write.injEq]
    exact ⟨fun h => ⟨hzero, h⟩, And.right⟩

/-- The empty text is between any two characters. -/
lemma length_replaceEvery_nil (new text : List Char) :
    (replaceEvery [] new text).length = (text.length + 1) * new.length + text.length := by
  rw [replaceEvery, if_pos rfl, List.length_append, List.length_flatMap]
  simp only [List.length_append, List.length_singleton, List.map_const', List.sum_replicate_nat]
  rw [Nat.mul_add, Nat.add_mul, Nat.mul_one, Nat.one_mul, Nat.add_right_comm]

/-- When no more than the first place has been replaced. -/
lemma written_eq_iff (h : editOutcome args content = .write written)
    (hcut : cutFirst args.oldString content = some (before, behind)) :
    written = before ++ args.newString ++ behind ↔
      (args.replaceAll = true →
        matchCount args.oldString content = 1 ∨ args.newString = args.oldString) := by
  obtain ⟨old, new, all⟩ := args
  dsimp only at hcut ⊢
  cases all with
  | false =>
    obtain ⟨-, rfl⟩ := editOutcome_eq_write_iff.1 h
    refine iff_of_true ?_ nofun
    rw [replaceOnce, hcut]
  | true =>
    obtain ⟨hsome, rfl⟩ := editOutcome_all_eq_write_iff.1 h
    rw [forall_prop_of_true rfl]
    by_cases hold : old = []
    · subst hold
      have hparts : (([] : List Char), content) = (before, behind) := by
        cases content <;> exact Option.some.inj hcut
      obtain ⟨rfl, rfl⟩ := Prod.mk.inj hparts
      rw [matchCount, if_pos rfl, List.nil_append]
      constructor
      · intro heq
        have hlen := congrArg List.length heq
        rw [length_replaceEvery_nil, List.length_append, Nat.add_mul, Nat.one_mul] at hlen
        have hmul : content.length * new.length = 0 := by omega
        rcases Nat.mul_eq_zero.1 hmul with hzero | hzero
        · exact .inl (by omega)
        · exact .inr (List.length_eq_zero_iff.1 hzero)
      · rintro (hone | rfl)
        · obtain rfl : content = [] := List.length_eq_zero_iff.1 (by omega)
          rw [replaceEvery, if_pos rfl, List.append_nil]
          rfl
        · rw [replaceEvery, if_pos rfl, List.nil_append, List.append_nil]
          exact List.flatMap_singleton' content
    · rw [replaceEvery, if_neg hold, replaceAll_of_cutFirst hold hcut, List.append_assoc,
        List.append_cancel_left_eq, List.append_cancel_left_eq, replaceAll_eq_self_iff hold,
        matchCount, if_neg hold, placeCount_of_cutFirst hold hcut, Nat.succ_inj,
        placeCount_eq_zero_iff hold]
      tauto

/-- **When the lines that are shown are all that has changed**: an edit that writes the file returns
lines, from the line that it names; if none of those it takes out or puts in has more than 200 characters,
then put into the lines of the file they give the file that is written exactly if `replace_all` had no
second place to replace, or nothing to change.

**Proof sketch.** The lines of the first place stand between whole lines of the file, whatever is put
there (`exists_lines_around`), so that the hunk gives the file with this place replaced
(`replacementHunk_spec`); that is the written file exactly if there is no other place to replace
(`written_eq_iff`).  Lines of at most 200 characters are shown as they are (`Hunk.apply_shown`). -/
theorem hunkApplies_iff (sha256Hex : List Char → String) (path : String)
    (h : editOutcome args content = .write written) :
    ∃ hunk result front, replacementHunk content args.oldString args.newString = .ok (some hunk) ∧
      fileEdit sha256Hex path args content written = .ok result ∧ result.success = true ∧
      result.output = front ++ String.ofList hunk.shown.text ∧
      hunk.shown.line = findLineNumber content args.oldString ∧
        ((∀ line ∈ hunk.minus ++ hunk.plus, line.length ≤ 200) →
          (hunk.shown.apply (content.splitOn '\n') = some (written.splitOn '\n') ↔
            (args.replaceAll = true →
              matchCount args.oldString content = 1 ∨ args.newString = args.oldString))) := by
  obtain ⟨before, behind, hcut⟩ := exists_cutFirst h
  obtain ⟨hunk, hhunk, hline, hnewline, happly⟩ := @replacementHunk_spec _ _ _ args.newString _ hcut
  have hdiff : replacementContextDiff content args.oldString args.newString =
      .ok hunk.shown.text := by
    rw [replacementContextDiff, hhunk]
    rfl
  obtain ⟨front, hfront⟩ : ∃ front, fileEdit sha256Hex path args content written =
      .ok ⟨true, front ++ String.ofList hunk.shown.text, none⟩ := by
    rw [fileEdit, h]
    dsimp only
    rw [if_neg (not_not.2 rfl), hdiff]
    exact ⟨_, rfl⟩
  refine ⟨hunk, _, front, hhunk, hfront, rfl, rfl, hline, fun hlen => ?_⟩
  rw [Hunk.apply_shown hnewline hlen, happly, ← written_eq_iff h hcut, Option.some.injEq]
  constructor
  · intro hlines
    have htext := congrArg (['\n'].intercalate) hlines
    rw [List.intercalate_splitOn, List.intercalate_splitOn] at htext
    exact htext.symm
  · intro heq
    rw [heq]

end Changed

/-- The edit of a greeting. -/
theorem hunkApplies_greeting :
    ∃ hunk result front,
      replacementHunk "a\nhi b\n".toList "hi".toList "hey".toList = .ok (some hunk) ∧
      fileEdit (fun _ => "") "f" ⟨"hi".toList, "hey".toList, false⟩ "a\nhi b\n".toList
        "a\nhey b\n".toList = .ok result ∧ result.success = true ∧
      result.output = front ++ String.ofList hunk.shown.text ∧
      hunk.shown.line = findLineNumber "a\nhi b\n".toList "hi".toList ∧
        ((∀ line ∈ hunk.minus ++ hunk.plus, line.length ≤ 200) →
          (hunk.shown.apply ("a\nhi b\n".toList.splitOn '\n') =
              some ("a\nhey b\n".toList.splitOn '\n') ↔
            (false = true →
              matchCount "hi".toList "a\nhi b\n".toList = 1 ∨ "hey".toList = "hi".toList))) :=
  @hunkApplies_iff _ _ ⟨"hi".toList, "hey".toList, false⟩ (fun _ => "") "f" (by decide)

/-! ## The reverse edit -/

section Undo

variable {old new content written before behind : List Char}

/-- A text stands behind what is before it. -/
lemma prefix_drop_of_append {text pat front rest : List Char} (h : text = front ++ pat ++ rest) :
    pat <+: text.drop front.length := by
  rw [h, List.append_assoc, List.drop_left]
  exact List.prefix_append _ _

/-- The first place is not behind another one. -/
lemma length_le_of_cutFirst {text pat front rest : List Char} {parts : List Char × List Char}
    (hcut : cutFirst pat text = some parts) (h : text = front ++ pat ++ rest) :
    parts.1.length ≤ front.length := by
  obtain ⟨i, hi, rfl⟩ := Option.map_eq_some_iff.1 hcut
  have hle : (text.take i).length ≤ i := by
    rw [List.length_take]
    exact Nat.min_le_left _ _
  by_contra hlt
  dsimp only at hlt
  exact (findText_spec hi).2 front.length (by omega) (prefix_drop_of_append h)

/-- Where the file is brought back, the reverse edit has found the place of the edit. -/
lemma eq_of_replaceOnce (hcut : cutFirst old content = some (before, behind))
    {parts : List Char × List Char} (hparts : cutFirst new (before ++ new ++ behind) = some parts)
    (hback : parts.1 ++ old ++ parts.2 = content) : parts = (before, behind) := by
  have hlen : parts.1.length = before.length :=
    le_antisymm (length_le_of_cutFirst hparts rfl) (length_le_of_cutFirst hcut hback.symm)
  have hagain : before ++ new ++ behind = parts.1 ++ new ++ parts.2 := append_of_cutFirst hparts
  have hlens : (before ++ new).length = (parts.1 ++ new).length := by
    rw [List.length_append, List.length_append, hlen]
  obtain ⟨hfront, hrest⟩ := List.append_inj hagain hlens
  exact Prod.ext (List.append_cancel_right hfront).symm hrest.symm

/-- **When the reverse edit brings the file back**: exactly if the new text is found first at the place of
the edit, and not behind it. -/
theorem editOutcome_undo_iff (hnew : new ≠ [])
    (h : editOutcome ⟨old, new, false⟩ content = .write written)
    (hcut : cutFirst old content = some (before, behind)) :
    editOutcome ⟨new, old, false⟩ written = .write content ↔
      ¬ new <:+: before ++ new.dropLast ∧ ¬ new <:+: behind := by
  obtain ⟨-, hwritten⟩ := editOutcome_eq_write_iff.1 h
  rw [replaceOnce, hcut] at hwritten
  dsimp only at hwritten
  rw [editOutcome_eq_write_iff, ← hwritten, ← cutFirst_append_iff hnew, matchCount_eq_one_iff hnew]
  constructor
  · rintro ⟨⟨parts, hparts, hnot⟩, hback⟩
    rw [replaceOnce, hparts] at hback
    obtain rfl := eq_of_replaceOnce hcut hparts hback
    exact ⟨hparts, hnot⟩
  · rintro ⟨hparts, hnot⟩
    refine ⟨⟨_, hparts, hnot⟩, ?_⟩
    rw [replaceOnce, hparts]
    exact (append_of_cutFirst hcut).symm

/-- A greeting that is put back. -/
theorem editOutcome_undo_greeting :
    editOutcome ⟨"hey".toList, "hi".toList, false⟩ "a\nhey b\n".toList =
        .write "a\nhi b\n".toList ↔
      ¬ "hey".toList <:+: "a\n".toList ++ "hey".toList.dropLast ∧
        ¬ "hey".toList <:+: " b\n".toList :=
  @editOutcome_undo_iff "hi".toList "hey".toList _ _ _ _ (by decide) (by decide) (by decide)

end Undo

end MyClaw
