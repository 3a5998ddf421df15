import MyClaw.Channels.FenceCuts

set_option autoImplicit false

/-!
# Heads of tables and fences

The head of a table that the splitter repeats in front of a chunk (`open_table_header` in
`channels/message/chunking.rs`).  It comes from the end of the chunk before; if no block of code is open
there, the head opens none either.

## Main results

* `closedBy_eq_false_of_mem` — a row of a table closes no block of code.
* `tableScan_eq_some` — the lines that the search for a table ends in.
* `openTableHeader_before` — the head of a table that is repeated opens no block of code.
-/

namespace MyClaw

open LineScan

/-! ## Lines that close no block of code -/

/-- A character that a line which closes a block of code does not have. -/
def NoFenceChar (c : Char) : Prop := c ≠ ' ' ∧ c ≠ '\t' ∧ c ≠ '`' ∧ c ≠ '~'

/-- **A line that has another character** than blanks and markers closes no block of code. -/
lemma closedBy_eq_false_of_mem {c : Char} {line : List Char} (hc : NoFenceChar c) (hmem : c ∈ line)
    (fc : FenceCarry) : fc.closedBy line = false := by
  unfold FenceCarry.closedBy
  split
  · rename_i fl hfl
    obtain ⟨⟨hmarker, -⟩, hclosing, -, -, n, -, rfl⟩ := parseFenceLine_eq_some hfl
    by_contra hclosed
    simp only [Bool.not_eq_false, Bool.and_eq_true] at hclosed
    have hblank := hclosed.1.1
    rw [hclosing, List.all_eq_true] at hblank
    rcases List.mem_append.1 hmem with hin | hin
    · exact hc.1 (List.eq_of_mem_replicate hin)
    · rcases List.mem_append.1 hin with hin | hin
      · have heq := List.eq_of_mem_replicate hin
        rcases hmarker with hm | hm
        · exact hc.2.2.1 (heq.trans hm)
        · exact hc.2.2.2 (heq.trans hm)
      · have hblank := hblank c hin
        simp only [isBlankChar, Bool.or_eq_true, decide_eq_true_eq] at hblank
        rcases hblank with hb | hb
        · exact hc.1 hb
        · exact hc.2.1 hb
  · rfl

/-- A block of code stays open over lines that do not close it. -/
lemma foldl_fenceStep_of_not_closed {lines : List (List Char)} (fc : FenceCarry)
    (h : ∀ line ∈ lines, ∀ fc : FenceCarry, fc.closedBy line = false) :
    lines.foldl fenceStep (some fc) = some fc := by
  induction lines with
  | nil => rfl
  | cons line lines ih =>
    have hline : fenceStep (some fc) line = some fc := by
      rw [fenceStep, h line (List.mem_cons_self ..)]
      simp
    rw [List.foldl_cons, hline, ih fun line hline => h line (List.mem_cons_of_mem _ hline)]

/-- A line with no marker opens no block of code. -/
lemma parseFenceLine_eq_none {line : List Char} (h : ∀ c ∈ line, c ≠ '`' ∧ c ≠ '~') :
    parseFenceLine line = none := by
  by_contra hsome
  obtain ⟨fl, hfl⟩ := Option.ne_none_iff_exists'.1 hsome
  obtain ⟨hback, htilde⟩ := h fl.marker (marker_mem_of_parseFenceLine hfl).1
  exact (parseFenceLine_eq_some hfl).1.1.elim hback htilde

/-- A line of white space does nothing. -/
lemma fenceStep_of_isWhiteSpace {line : List Char} (h : ∀ c ∈ line, isWhiteSpace c = true)
    (opened : Option FenceCarry) : fenceStep opened line = opened := by
  have hline : parseFenceLine line = none := by
    refine parseFenceLine_eq_none fun c hc => ?_
    have hspace := h c hc
    constructor <;>
    · rintro rfl
      exact absurd hspace (by decide)
  cases opened with
  | none => rw [fenceStep, hline, Option.map_none]
  | some fc => rw [fenceStep, FenceCarry.closedBy, hline]; rfl

/-! ## Rows -/

variable {line : List Char}

/-- A character that is not dropped in front is in the rest. -/
lemma mem_dropWhile_or {p : Char → Bool} {c : Char} (h : c ∈ line) :
    c ∈ line.dropWhile p ∨ p c = true := by
  rw [← List.takeWhile_append_dropWhile (p := p) (l := line)] at h
  rcases List.mem_append.1 h with hfront | hrest
  · exact Or.inr (List.mem_takeWhile_imp hfront)
  · exact Or.inl hrest

/-- A character that is trimmed off is white space. -/
lemma mem_trimChars_or {c : Char} (h : c ∈ line) : c ∈ trimChars line ∨ isWhiteSpace c = true := by
  unfold trimChars
  rw [List.mem_reverse]
  rcases mem_dropWhile_or (p := isWhiteSpace) h with hfront | hspace
  · exact mem_dropWhile_or (List.mem_reverse.2 hfront)
  · exact Or.inr hspace

/-- A row of a table has a bar. -/
lemma mem_of_isTableRow (h : isTableRow line = true) : '|' ∈ line := by
  simp only [isTableRow, Bool.and_eq_true] at h
  exact trimChars_subset line (by simpa using h.2)

/-- The line below the head of a table has a dash, and no marker. -/
lemma spec_of_isTableDelimiter (h : isTableDelimiter line = true) :
    '-' ∈ line ∧ ∀ c ∈ line, c ≠ '`' ∧ c ≠ '~' := by
  simp only [isTableDelimiter, Bool.and_eq_true, List.all_eq_true] at h
  refine ⟨trimChars_subset line (by simpa using h.2), fun c hc => ?_⟩
  rcases mem_trimChars_or hc with hin | hspace
  · have hchar := h.1.2 c hin
    constructor <;>
    · rintro rfl
      simp at hchar
  · constructor <;>
    · rintro rfl
      exact absurd hspace (by decide)

/-- **The lines that the search for a table ends in**: a row, the line below it, and rows. -/
lemma tableScan_eq_some {lines : List (List Char)} {h d : List Char}
    (hscan : tableScan none none lines = some (h, d)) :
    ∃ earlier rows, lines = earlier ++ h :: d :: rows ∧ isTableRow h = true ∧
      isTableDelimiter d = true ∧ ∀ row ∈ rows, isTableRow row = true := by
  suffices hall : ∀ (lines : List (List Char)) table prev, tableScan table prev lines = some (h, d) →
      (table = some (h, d) ∧ ∀ row ∈ lines, isTableRow row = true) ∨
      ∃ rows, isTableRow h = true ∧ isTableDelimiter d = true ∧ (∀ row ∈ rows, isTableRow row = true) ∧
        ((prev = some h ∧ lines = d :: rows) ∨ ∃ earlier, lines = earlier ++ h :: d :: rows) by
    rcases hall lines none none hscan with ⟨hnone, -⟩ | ⟨rows, hhead, hdelim, hrows, hlines⟩
    · cases hnone
    · rcases hlines with ⟨hnone, -⟩ | ⟨earlier, hlines⟩
      · cases hnone
      · exact ⟨earlier, rows, hlines, hhead, hdelim, hrows⟩
  intro lines
  induction lines with
  | nil => exact fun table prev htable => Or.inl ⟨htable, nofun⟩
  | cons line lines ih =>
    intro table prev hscan
    unfold tableScan at hscan
    dsimp only at hscan
    rcases ih _ _ hscan with ⟨htable, hrows⟩ | ⟨rows, hhead, hdelim, hrows, hlines⟩
    · split at htable
      · rename_i table' hfilter
        obtain ⟨hfrom, hrow⟩ := Option.filter_eq_some_iff.1 hfilter
        refine Or.inl ⟨hfrom.trans htable, fun row hrow' => ?_⟩
        rcases List.mem_cons.1 hrow' with rfl | hmem
        · exact hrow
        · exact hrows row hmem
      · split_ifs at htable with hstarts
        obtain ⟨rfl, rfl⟩ := Prod.mk.inj (Option.some.inj htable)
        exact Or.inr ⟨lines, hstarts.2, hstarts.1, hrows, Or.inl ⟨rfl, rfl⟩⟩
      · cases htable
    · refine Or.inr ⟨rows, hhead, hdelim, hrows, Or.inr ?_⟩
      rcases hlines with ⟨hprev, rfl⟩ | ⟨earlier, rfl⟩
      · obtain rfl := Option.some.inj hprev
        exact ⟨[], rfl⟩
      · exact ⟨line :: earlier, rfl⟩

/-! ## The head that is repeated -/

/-- A line as `str::lines` has it. -/
def lineText (line : List Char × Bool) : List Char :=
  if line.2 = true ∧ line.1.getLast? = some '\r' then line.1.dropLast else line.1

/-- The lines that `str::lines` gives are those that the fences are scanned in. -/
lemma textLines_eq (text : List Char) : textLines text = (fenceLines text).map lineText := by
  unfold textLines fenceLines
  dsimp only
  rw [List.map_append, List.map_map]
  congr 1
  · exact List.map_congr_left fun line _ => by simp [lineText]
  · split <;> simp [lineText]

lemma newline_notMem_of_mem_fenceLines {text : List Char} {line : List Char × Bool}
    (h : line ∈ fenceLines text) : '\n' ∉ line.1 := by
  unfold fenceLines at h
  dsimp only at h
  rcases List.mem_append.1 h with hmem | hmem
  · obtain ⟨line, hline, rfl⟩ := List.mem_map.1 hmem
    exact Chars.newline_notMem_of_mem_cutLines hline
  · split at hmem
    · cases hmem
    · rw [List.mem_singleton.1 hmem]
      exact Chars.newline_notMem_cutLines text

lemma lineText_subset (line : List Char × Bool) : lineText line ⊆ line.1 := by
  unfold lineText
  split
  · exact List.dropLast_subset line.1
  · exact List.Subset.refl _

/-- A line with a bar that opens no block of code opens none without the return at its end. -/
lemma parseFenceLine_lineText {line : List Char × Bool} (hbar : '|' ∈ lineText line)
    (h : parseFenceLine line.1 = none) : parseFenceLine (lineText line) = none := by
  unfold lineText at hbar ⊢
  split at hbar
  · rename_i hreturn
    rw [if_pos hreturn]
    by_contra hsome
    obtain ⟨fl, hfl⟩ := Option.ne_none_iff_exists'.1 hsome
    obtain ⟨⟨hmarker, hlen⟩, -, hhead, hinfo, n, hn, hform⟩ := parseFenceLine_eq_some hfl
    have hlen : 3 ≤ fl.len := hlen
    have hmarker : fl.marker = '`' ∨ fl.marker = '~' := hmarker
    -- the bar is behind the markers, so that the return is not the first character there
    have hrest : fl.rest ≠ [] := by
      intro hnil
      rw [hform, hnil] at hbar
      simp only [List.append_nil, List.mem_append, List.mem_replicate] at hbar
      rcases hbar with ⟨-, hbar⟩ | ⟨-, hbar⟩
      · exact absurd hbar (by decide)
      · rcases hmarker with hm | hm <;>
        · rw [hm] at hbar
          exact absurd hbar (by decide)
    have hline : line.1 = List.replicate n ' ' ++
        (List.replicate fl.len fl.marker ++ (fl.rest ++ ['\r'])) := by
      obtain ⟨front, hfront⟩ := List.getLast?_eq_some_iff.1 hreturn.2
      rw [hfront, List.dropLast_concat] at hform
      rw [hfront, hform]
      simp
    rw [hline, parseFenceLine_of_form hn hmarker hlen] at h
    · cases h
    · rwa [List.head?_append_of_ne_nil _ hrest]
    · intro hback hmem
      rcases List.mem_append.1 hmem with hmem | hmem
      · exact hinfo hback hmem
      · exact absurd (List.mem_singleton.1 hmem) (by decide)
  · rename_i hreturn
    rwa [if_neg hreturn]

/-- **The head of a table that is repeated opens no block of code** if none is open at the end of the
chunk that it comes from. -/
theorem openTableHeader_before {chunk rest header : List Char}
    (hend : after fenceStep none chunk = none) (h : openTableHeader chunk rest = some header) :
    before fenceStep none header = none ∧ lastLine header = [] := by
  obtain ⟨hd, dl, hscan, rfl⟩ : ∃ hd dl, tableScan none none (textLines chunk) = some (hd, dl) ∧
      header = hd ++ ['\n'] ++ dl ++ ['\n'] := by
    unfold openTableHeader at h
    split at h
    · cases h
    · split_ifs at h
      obtain ⟨⟨hd, dl⟩, hscan, rfl⟩ := Option.map_eq_some_iff.1 h
      exact ⟨hd, dl, hscan, rfl⟩
  obtain ⟨earlier, rows, hlines, hhead, hdelim, hrows⟩ := tableScan_eq_some hscan
  rw [textLines_eq] at hlines
  obtain ⟨earlier', later, hsplit, -, hlater⟩ := List.map_eq_append_iff.1 hlines
  obtain ⟨x, below, rfl, rfl, hbelow⟩ := List.map_eq_cons_iff.1 hlater
  obtain ⟨y, rows', rfl, rfl, rfl⟩ := List.map_eq_cons_iff.1 hbelow
  have hnewline (line : List Char × Bool) (hmem : line ∈ x :: y :: rows') : '\n' ∉ lineText line :=
    fun hin => newline_notMem_of_mem_fenceLines
      (hsplit ▸ List.mem_append_right _ hmem) (lineText_subset line hin)
  have hx := mem_of_isTableRow hhead
  obtain ⟨hdash, hmarkers⟩ := spec_of_isTableDelimiter hdelim
  have hopen : ∀ line ∈ (y :: rows').map (·.1), ∀ fc : FenceCarry, fc.closedBy line = false := by
    intro line hmem fc
    obtain ⟨row, hrow, rfl⟩ := List.mem_map.1 hmem
    rcases List.mem_cons.1 hrow with rfl | hrow
    · exact closedBy_eq_false_of_mem (by unfold NoFenceChar; decide) (lineText_subset _ hdash) fc
    · have hbar := mem_of_isTableRow (hrows _ (List.mem_map_of_mem hrow))
      exact closedBy_eq_false_of_mem (by unfold NoFenceChar; decide) (lineText_subset _ hbar) fc
  have hfold := foldl_fenceLines none chunk
  rw [hend, hsplit, List.map_append, List.map_cons, List.foldl_append, List.foldl_cons] at hfold
  generalize (earlier'.map (·.1)).foldl fenceStep none = opened at hfold
  have hafter : fenceStep opened x.1 = none := by
    by_contra hsome
    obtain ⟨fc, hfc⟩ := Option.ne_none_iff_exists'.1 hsome
    rw [hfc, foldl_fenceStep_of_not_closed fc hopen] at hfold
    cases hfold
  have hline : parseFenceLine x.1 = none := by
    cases opened with
    | none => exact Option.map_eq_none_iff.1 hafter
    | some fc =>
      rw [fenceStep, closedBy_eq_false_of_mem (by unfold NoFenceChar; decide)
        (lineText_subset x hx)] at hafter
      cases hafter
  have hheadStep : fenceStep none (lineText x) = none := by
    rw [fenceStep, parseFenceLine_lineText hx hline, Option.map_none]
  have hbelowStep : fenceStep none (lineText y) = none := by
    rw [fenceStep, parseFenceLine_eq_none hmarkers, Option.map_none]
  have hheadLine := hnewline x (List.mem_cons_self ..)
  have hbelowLine := hnewline y (List.mem_cons_of_mem _ (List.mem_cons_self ..))
  have hheader : lineText x ++ ['\n'] ++ lineText y ++ ['\n'] =
      [] ++ (lineText x ++ '\n' :: ([] ++ (lineText y ++ '\n' :: []))) := by simp
  have hnil : before fenceStep none ([] : List Char) = none := rfl
  have hlast : lastLine ([] : List Char) = [] := rfl
  constructor
  · rw [hheader, before_append_newline hheadLine, hnil, hlast, List.nil_append, hheadStep,
      before_append_newline hbelowLine, hnil, hlast, List.nil_append, hbelowStep, hnil]
  · rw [hheader, lastLine_append_newline hheadLine, lastLine_append_newline hbelowLine, hlast]

end MyClaw
