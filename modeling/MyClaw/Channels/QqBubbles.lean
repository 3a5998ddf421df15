import MyClaw.Channels.QqBold
import MyClaw.Channels.FenceChunks
import MyClaw.Channels.Turns
import MyClaw.Lib.Split
import MyClaw.Text.Lines

set_option autoImplicit false

/-!
# The bubbles of the QQ bot

The QQ client lays a long message out wrongly, so `split_by_visual_lines`
(`channels/qqbot/channel/text.rs`) cuts it at blank lines into bubbles of at most so many lines, as they
are estimated.  It does not cut within a block of code, nor between two rows of a table.

## Main definitions

* `stripInternalTags` — what the model thinks is left out of a message.
* `estimateVisualLines` — the lines that a text takes on the screen.
* `bubbleStep`, `splitByVisualLines` — the loop over the paragraphs, and the bubbles.

## Main results

* `visible_splitByVisualLines` — no character is lost but white space.
* `even_fenceCount_of_mem_dropLast` — each bubble that another one follows closes its blocks.

## Implementation notes

Widths are counted in halves.  The quotient of two such numbers is rounded up as the program does with
floating point numbers, which represent them exactly.
-/

namespace MyClaw

/-! ## Tags -/

/-- The tags of `strip_internal_tags`. -/
def internalTags : List (List Char × List Char) :=
  [("<thinking>".toList, "</thinking>".toList), ("<think>".toList, "</think>".toList),
    ("<system-reminder>".toList, "</system-reminder>".toList),
    ("<previous_response>".toList, "</previous_response>".toList)]

/-- The loop that takes blocks out; an unclosed one is taken out to the end, or stays with what
follows. -/
def removeBlocks (opening closing : List Char) (unclosed : Bool) : ℕ → List Char → List Char
  | 0, text => text
  | fuel + 1, text =>
    match Holes.cutFirst opening text with
    | none => text
    | some (before, behind) =>
      match Holes.cutFirst closing (opening ++ behind) with
      | some (_, behind) => removeBlocks opening closing unclosed fuel (before ++ behind)
      | none => if unclosed then before else text

/-- `strip_internal_tags`. -/
def stripInternalTags (text : List Char) : List Char :=
  let result := internalTags.foldl (fun result (opening, closing) =>
    let result := removeBlocks opening closing true result.length result
    Holes.replaceAll closing [] (Holes.replaceAll opening [] result)) text
  trimChars (removeBlocks "`think`".toList "`/think`".toList false result.length result)

/-! ## Estimates -/

/-- `QQ_CHARS_PER_LINE`, in halves. -/
def qqHalvesPerLine : ℕ := 40

/-- `QQ_MAX_VISUAL_LINES_PER_BUBBLE`. -/
def qqMaxVisualLinesPerBubble : ℕ := 30

/-- `display_width`, in halves. -/
def halfWidth (s : List Char) : ℕ := (s.map fun c => if c.toNat < 128 then 1 else 2).sum

/-- The lines on the screen of a line of the text. -/
def visualLines (line : List Char) : ℕ :=
  if trimChars line = [] then 1
  else max ((halfWidth line + (qqHalvesPerLine - 1)) / qqHalvesPerLine) 1

/-- `estimate_visual_lines`. -/
def estimateVisualLines (text : List Char) : ℕ := ((textLines text).map visualLines).sum

/-! ## Bubbles -/

/-- `is_gfm_table_line`. -/
def isGfmTableLine (line : List Char) : Bool :=
  let trimmed := trimChars line
  trimmed ≠ [] && (trimmed.head? = some '|' ||
    (trimmed.all (['-', '|', ':', ' ', '\t'].contains ·) && trimmed.contains '-'))

/-- `is_fence_line`. -/
def isFenceLine (line : List Char) : Bool :=
  let trimmed := line.dropWhile isBlankChar
  "```".toList.isPrefixOf trimmed || "~~~".toList.isPrefixOf trimmed

/-- The paragraphs of a text: `split` at two newlines. -/
def paragraphs : List Char → List (List Char)
  | [] => [[]]
  | '\n' :: '\n' :: rest => [] :: paragraphs rest
  | c :: rest => (paragraphs rest).modifyHead (c :: ·)

/-- The paragraphs with their costs, the later ones with the blank line before them. -/
def partCosts : List (List Char) → List (List Char × ℕ)
  | [] => []
  | part :: parts =>
    (part, estimateVisualLines part) :: parts.map fun part => (part, 1 + estimateVisualLines part)

/-- What the loop carries: the bubbles that are done, the present one with its cost, and whether the
text is in a block of code. -/
structure BubbleState where
  chunks : List (List Char) := []
  current : List Char := []
  cost : ℕ := 0
  inCode : Bool := false

/-- The loop over the lines of a paragraph. -/
def codeAfter (inCode : Bool) (part : List Char) : Bool :=
  (textLines part).foldl (fun inCode line => if isFenceLine line then !inCode else inCode) inCode

/-- The present bubble ends in a row of a table, and the paragraph begins with one. -/
def breaksTable (current part : List Char) : Bool :=
  current ≠ [] && (textLines current).getLast?.any isGfmTableLine &&
    (textLines part).head?.any isGfmTableLine

/-- The present bubble is done. -/
def BubbleState.split (s : BubbleState) : BubbleState :=
  { s with chunks := s.chunks ++ [trimEnd s.current], current := [], cost := 0 }

/-- A paragraph more in the present bubble. -/
def BubbleState.push (s : BubbleState) (part : List Char × ℕ) : BubbleState :=
  { s with
    current := (if s.current = [] then [] else s.current ++ ['\n', '\n']) ++ part.1
    cost := s.cost + part.2
    inCode := codeAfter s.inCode part.1 }

/-- One turn of the loop of `split_by_visual_lines`. -/
def bubbleStep (maxLines : ℕ) (s : BubbleState) (part : List Char × ℕ) : BubbleState :=
  if s.current ≠ [] ∧ s.inCode = false ∧ breaksTable s.current part.1 = false ∧
      maxLines < s.cost + part.2 then
    s.split.push part
  else s.push part

/-- `split_by_visual_lines`. -/
def splitByVisualLines (text : List Char) (maxLines : ℕ) : List (List Char) :=
  let costs := partCosts (paragraphs text)
  if (costs.map (·.2)).sum ≤ maxLines then [text]
  else
    let s := costs.foldl (bubbleStep maxLines) {}
    let chunks := if trimChars s.current ≠ [] then s.chunks ++ [trimEnd s.current] else s.chunks
    if chunks = [] then [text] else chunks

/-! ## Paragraphs -/

variable {text part : List Char} {maxLines : ℕ}

lemma paragraphs_ne_nil (text : List Char) : paragraphs text ≠ [] := by
  induction text using paragraphs.induct with
  | case1 => exact List.cons_ne_nil _ _
  | case2 rest _ => exact List.cons_ne_nil _ _
  | case3 c rest hnot ih =>
    rw [paragraphs]
    · exact mt List.modifyHead_eq_nil_iff.1 ih
    · exact hnot

/-- The characters of the paragraphs are those of the text. -/
lemma visible_paragraphs (text : List Char) : (paragraphs text).flatMap visible = visible text := by
  induction text using paragraphs.induct with
  | case1 => rfl
  | case2 rest ih =>
    rw [paragraphs, List.flatMap_cons, ih]
    rfl
  | case3 c rest hnot ih =>
    obtain ⟨part, parts, hparts⟩ := List.exists_cons_of_ne_nil (paragraphs_ne_nil rest)
    rw [paragraphs]
    · rw [hparts, List.flatMap_cons] at ih
      rw [hparts, List.modifyHead_cons, List.flatMap_cons, ← List.singleton_append, visible_append,
        List.append_assoc, ih, ← visible_append, List.singleton_append]
    · exact hnot

lemma map_fst_partCosts (parts : List (List Char)) : (partCosts parts).map (·.1) = parts := by
  cases parts with
  | nil => rfl
  | cons part parts =>
    rw [partCosts, List.map_cons, List.map_map]
    exact congrArg (part :: ·) (List.map_id' parts)

/-! ## No character is lost -/

lemma visible_eq_nil_of_trimChars (h : trimChars text = []) : visible text = [] := by
  have hblank : isBlankLine text = true := by rw [isBlankLine, h]; rfl
  refine List.filter_eq_nil_iff.2 fun c hc => ?_
  rw [isBlankLine_iff.1 hblank c hc]
  exact Bool.false_ne_true

/-- The characters of the bubbles, the present one included. -/
def BubbleState.visible (s : BubbleState) : List Char :=
  s.chunks.flatMap MyClaw.visible ++ MyClaw.visible s.current

lemma BubbleState.visible_split (s : BubbleState) : s.split.visible = s.visible := by
  unfold BubbleState.visible BubbleState.split
  rw [List.flatMap_append, List.flatMap_singleton, visible_trimEnd]
  exact List.append_nil _

lemma BubbleState.visible_push (s : BubbleState) (part : List Char × ℕ) :
    (s.push part).visible = s.visible ++ MyClaw.visible part.1 := by
  have hcurrent : MyClaw.visible (s.push part).current =
      MyClaw.visible s.current ++ MyClaw.visible part.1 := by
    unfold BubbleState.push
    dsimp only
    split_ifs with h
    · rw [h]
      rfl
    · rw [visible_append, visible_append]
      exact congrArg (· ++ _) (List.append_nil _)
  unfold BubbleState.visible
  rw [hcurrent, ← List.append_assoc]
  rfl

lemma visible_bubbleStep (s : BubbleState) (part : List Char × ℕ) :
    (bubbleStep maxLines s part).visible = s.visible ++ visible part.1 := by
  rw [bubbleStep]
  split_ifs
  · rw [BubbleState.visible_push, BubbleState.visible_split]
  · exact BubbleState.visible_push s part

/-- What the loop has in its bubbles. -/
lemma visible_foldl_bubbleStep (s : BubbleState) (parts : List (List Char × ℕ)) :
    (parts.foldl (bubbleStep maxLines) s).visible =
      s.visible ++ (parts.map (·.1)).flatMap visible := by
  induction parts generalizing s with
  | nil => exact (List.append_nil _).symm
  | cons part parts ih =>
    rw [List.foldl_cons, ih, visible_bubbleStep, List.map_cons, List.flatMap_cons, List.append_assoc]

/-- **No character is lost** but white space, and the others stay in their order. -/
theorem visible_splitByVisualLines (text : List Char) (maxLines : ℕ) :
    (splitByVisualLines text maxLines).flatMap visible = visible text := by
  have hwhole : [text].flatMap visible = visible text := List.flatMap_singleton ..
  have hloop : ((partCosts (paragraphs text)).foldl (bubbleStep maxLines) {}).visible = _ :=
    visible_foldl_bubbleStep {} (partCosts (paragraphs text))
  rw [map_fst_partCosts, visible_paragraphs] at hloop
  rw [splitByVisualLines]
  dsimp only
  generalize (partCosts (paragraphs text)).foldl (bubbleStep maxLines) {} = s at hloop ⊢
  change s.visible = visible text at hloop
  have hchunks : (if trimChars s.current ≠ [] then s.chunks ++ [trimEnd s.current]
      else s.chunks).flatMap visible = visible text := by
    rw [← hloop, BubbleState.visible]
    split_ifs with htrim
    · rw [List.flatMap_append, List.flatMap_singleton, visible_trimEnd]
    · rw [visible_eq_nil_of_trimChars (not_not.1 htrim), List.append_nil]
  generalize (if trimChars s.current ≠ [] then s.chunks ++ [trimEnd s.current] else s.chunks) = chunks
    at hchunks ⊢
  split_ifs
  · exact hwhole
  · exact hwhole
  · exact hchunks

/-! ## Blocks of code -/

/-- The fence lines of a text. -/
def fenceCount (text : List Char) : ℕ := (textLines text).countP isFenceLine

section Fences

variable {a b line : List Char} {w : Char}

/-- A character that a pattern does not have, at the end of a line, makes no prefix of it. -/
lemma prefix_append_singleton_iff {pat : List Char} (hw : w ∉ pat) :
    pat <+: line ++ [w] ↔ pat <+: line := by
  refine ⟨fun h => ?_, fun h => h.trans (List.prefix_append _ _)⟩
  rcases List.prefix_concat_iff.1 h with heq | hpre
  · exact absurd (heq ▸ List.mem_append_right line List.mem_cons_self) hw
  · exact hpre

/-- White space at its end neither makes nor breaks a fence line. -/
lemma isFenceLine_append (hw : isWhiteSpace w = true) (line : List Char) :
    isFenceLine (line ++ [w]) = isFenceLine line := by
  have hsame {pat : List Char} (hpat : pat.any isWhiteSpace = false) :
      pat.isPrefixOf ((line ++ [w]).dropWhile isBlankChar) =
        pat.isPrefixOf (line.dropWhile isBlankChar) := by
    have hmem : w ∉ pat := fun h => List.any_eq_false.1 hpat w h hw
    rw [Bool.eq_iff_iff, List.isPrefixOf_iff_prefix, List.isPrefixOf_iff_prefix, List.dropWhile_append]
    split_ifs with hempty
    · rw [List.isEmpty_iff.1 hempty, List.dropWhile_cons]
      split_ifs
      · exact Iff.rfl
      · exact @prefix_append_singleton_iff [] w pat hmem
    · exact prefix_append_singleton_iff hmem
  rw [isFenceLine, isFenceLine, hsame (by decide), hsame (by decide)]

lemma isFenceLine_stripReturn (line : List Char) :
    isFenceLine (stripReturn line) = isFenceLine line := by
  rw [stripReturn]
  split_ifs with h
  · obtain ⟨front, rfl⟩ := List.getLast?_eq_some_iff.1 h
    rw [List.dropLast_concat, isFenceLine_append (by decide)]
  · rfl

/-- The fence lines are among the parts that the newlines leave. -/
lemma fenceCount_eq (text : List Char) : fenceCount text = (text.splitOn '\n').countP isFenceLine := by
  have hstrip (lines : List (List Char)) :
      (lines.map stripReturn).countP isFenceLine = lines.countP isFenceLine := by
    rw [List.countP_map]
    exact List.countP_congr fun line _ => by rw [Function.comp_apply, isFenceLine_stripReturn]
  have hlines : textLines text = (Chars.cutLines text).1.map stripReturn ++
      if (Chars.cutLines text).2 = [] then [] else [(Chars.cutLines text).2] := rfl
  rw [fenceCount, hlines, ← Chars.cutLines_eq_splitOn, List.countP_append, List.countP_append, hstrip]
  split_ifs with hlast
  · rw [hlast]
    rfl
  · rfl

lemma fenceCount_append_newline (a b : List Char) :
    fenceCount (a ++ '\n' :: b) = fenceCount a + fenceCount b := by
  rw [fenceCount_eq, fenceCount_eq, fenceCount_eq, List.splitOn_append_cons_self, List.countP_append]

/-- White space at its end adds no fence line to a text. -/
lemma fenceCount_append_white {white : List Char} (h : ∀ c ∈ white, isWhiteSpace c = true)
    (text : List Char) : fenceCount (text ++ white) = fenceCount text := by
  induction white generalizing text with
  | nil => rw [List.append_nil]
  | cons w white ih =>
    have hone : fenceCount (text ++ [w]) = fenceCount text := by
      by_cases hw : w = '\n'
      · rw [hw, fenceCount_append_newline]
        rfl
      · obtain ⟨parts, last, hlast, happend⟩ := Split.exists_splitOn_append '\n' text
        have htext := happend []
        have hlast' : '\n' ∉ last ++ [w] := by
          rw [List.mem_append, List.mem_singleton, not_or]
          exact ⟨hlast, Ne.symm hw⟩
        rw [List.append_nil, List.append_nil, List.splitOn_eq_singleton hlast] at htext
        rw [fenceCount_eq, fenceCount_eq, happend, htext, List.splitOn_eq_singleton hlast',
          List.countP_append, List.countP_append, List.countP_singleton, List.countP_singleton,
          isFenceLine_append (h w List.mem_cons_self)]
    rw [← List.singleton_append, ← List.append_assoc,
      ih (fun c hc => h c (List.mem_cons_of_mem w hc)), hone]

lemma fenceCount_trimEnd (text : List Char) : fenceCount (trimEnd text) = fenceCount text := by
  obtain ⟨white, htext, hwhite⟩ := trimEnd_append text
  conv_rhs => rw [htext]
  exact (fenceCount_append_white hwhite _).symm

/-- The block that is open after a paragraph. -/
lemma codeAfter_eq (inCode : Bool) (part : List Char) :
    codeAfter inCode part = (inCode ^^ (fenceCount part).bodd) := by
  rw [codeAfter, fenceCount]
  induction textLines part generalizing inCode with
  | nil => rw [List.foldl_nil, List.countP_nil, Nat.bodd_zero, Bool.xor_false]
  | cons line lines ih =>
    rw [List.foldl_cons, ih, List.countP_cons]
    cases isFenceLine line with
    | true => simp [Nat.bodd_succ]
    | false => simp

end Fences

/-- Each bubble that is done closes its blocks of code, and the present one leaves that open which the
loop is in. -/
structure BubbleState.Closes (s : BubbleState) : Prop where
  chunks : ∀ chunk ∈ s.chunks, (fenceCount chunk).bodd = false
  current : (fenceCount s.current).bodd = s.inCode

lemma BubbleState.Closes.split {s : BubbleState} (h : s.Closes) (hcode : s.inCode = false) :
    s.split.Closes where
  chunks chunk hchunk := by
    rcases List.mem_append.1 hchunk with hchunk | hchunk
    · exact h.chunks chunk hchunk
    · rw [List.mem_singleton.1 hchunk, fenceCount_trimEnd, h.current, hcode]
  current := by
    change (fenceCount []).bodd = s.inCode
    rw [hcode]
    rfl

lemma BubbleState.Closes.push {s : BubbleState} (h : s.Closes) (part : List Char × ℕ) :
    (s.push part).Closes where
  chunks := h.chunks
  current := by
    have hcurrent : fenceCount (s.push part).current = fenceCount s.current + fenceCount part.1 := by
      unfold BubbleState.push
      dsimp only
      split_ifs with hnil
      · rw [hnil, List.nil_append]
        exact (Nat.zero_add _).symm
      · have happend : s.current ++ ['\n', '\n'] ++ part.1 =
            (s.current ++ '\n' :: []) ++ '\n' :: part.1 := by simp
        rw [happend, fenceCount_append_newline, fenceCount_append_newline]
        rfl
    rw [hcurrent, Nat.bodd_add, h.current]
    exact (codeAfter_eq _ _).symm

lemma BubbleState.Closes.step {s : BubbleState} (h : s.Closes) (part : List Char × ℕ) :
    (bubbleStep maxLines s part).Closes := by
  rw [bubbleStep]
  split_ifs with hsplit
  · exact (h.split hsplit.2.1).push part
  · exact h.push part

/-- The bubbles that another one follows are done. -/
lemma mem_chunks_of_mem_dropLast {s : BubbleState} {chunk : List Char}
    (h : chunk ∈ (splitByVisualLines text maxLines).dropLast)
    (hs : (partCosts (paragraphs text)).foldl (bubbleStep maxLines) {} = s) : chunk ∈ s.chunks := by
  have hwhole : chunk ∉ [text].dropLast := List.not_mem_nil
  rw [splitByVisualLines, hs] at h
  dsimp only at h
  by_cases hsum : ((partCosts (paragraphs text)).map (·.2)).sum ≤ maxLines
  · rw [if_pos hsum] at h
    exact absurd h hwhole
  · rw [if_neg hsum] at h
    by_cases htrim : trimChars s.current ≠ []
    · rw [if_pos htrim, if_neg (List.append_ne_nil_of_right_ne_nil _ (List.cons_ne_nil _ _)),
        List.dropLast_concat] at h
      exact h
    · rw [if_neg htrim] at h
      by_cases hnil : s.chunks = []
      · rw [if_pos hnil] at h
        exact absurd h hwhole
      · rw [if_neg hnil] at h
        exact List.dropLast_subset _ h

/-- **Each bubble that another one follows closes its blocks of code**: it has an even number of fence
lines. -/
theorem even_fenceCount_of_mem_dropLast {chunk : List Char}
    (h : chunk ∈ (splitByVisualLines text maxLines).dropLast) : Even (fenceCount chunk) := by
  have hloop : ((partCosts (paragraphs text)).foldl (bubbleStep maxLines) {}).Closes :=
    List.foldlRecOn _ _ ⟨nofun, rfl⟩ fun s hs part _ => hs.step part
  have hbodd := hloop.chunks chunk (mem_chunks_of_mem_dropLast h rfl)
  rw [Nat.even_iff, Nat.mod_two_of_bodd, hbodd]
  rfl

/-- The block stays whole, though a blank line and the limit stand in it. -/
theorem even_fenceCount_block :
    "```\nlet a;\n\nlet b;\n```".toList ∈
        (splitByVisualLines "```\nlet a;\n\nlet b;\n```\n\ndone".toList 2).dropLast ∧
      Even (fenceCount "```\nlet a;\n\nlet b;\n```".toList) :=
  have hmem : "```\nlet a;\n\nlet b;\n```".toList ∈
      (splitByVisualLines "```\nlet a;\n\nlet b;\n```\n\ndone".toList 2).dropLast := by
    decide +kernel
  ⟨hmem, even_fenceCount_of_mem_dropLast hmem⟩

end MyClaw
