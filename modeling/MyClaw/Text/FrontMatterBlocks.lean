import MyClaw.Text.FrontMatter

set_option autoImplicit false

/-!
# Front matter that is read and split

When the readers of front matter return, and when a block that is taken out of a text and what is
left of the text have all the lines of the text.

## Main definitions

* `SplitsExactly` — the lines that are left, the opener and the lines of the block, indented
  again, are the lines of the text.
* `ReadsAndSplits` — no reader panics, and a single block is split exactly.
* `blockStart`, `insideBlock`, `outsideBlock` — the lines behind the line that
  a block is read from, and the lines in and outside of a single block.
* `BlockWhole`, `FrontMatterSound` — the condition on the text.

## Main results

* `noPanic_extractYamlBlock_iff` — a block is read without a panic unless the indentation of its
  first line ends within a character of another one.
* `splitsExactly_iff` — a single block is split exactly if it is whole.
* `readsAndSplits_iff` — the readers return and split exactly on sound front matter.
* `not_readsAndSplits_openQuote` — a value of one quote stops the program.
-/

namespace MyClaw

open StrSlice

variable {key line text yaml : List Char} {lines block before after : List (List Char)} {w : ℕ}

/-! ## The lines of a block -/

/-- The unindented line starts with the key. -/
def namesKey (key line : List Char) : Bool :=
  ! startsWhite line && (afterKey key (trimEnd line)).isSome

/-- The unindented line opens a block of the key. -/
def opensBlock (key line : List Char) : Bool := ! startsWhite line && isOpener key line

/-- A line that does not end the block that is taken out. -/
def isContinuation (line : List Char) : Bool := isBlankLine line || startsWhite line

/-- The indentation of the first line that is not blank. -/
def blockIndent (lines : List (List Char)) : ℕ :=
  ((lines.find? (! isBlankLine ·)).map indentOf).getD 0

/-- A line that does not end the block that is read. -/
def staysInBlock (w : ℕ) (line : List Char) : Bool :=
  isBlankLine line || (decide (indentOf line ≠ 0) && decide (w ≤ indentOf line))

/-- A line of the block that is read, without its indentation. -/
def dedent (w : ℕ) (line : List Char) : Except Panic (List Char) :=
  if isBlankLine line then .ok [] else sliceFrom line w

/-- The lines behind the line that a block is read from. -/
def blockStart (key : List Char) (lines : List (List Char)) : Option (List (List Char)) :=
  match lines.dropWhile (! namesKey key ·) with
  | [] => none
  | first :: after => if isOpener key first then some after else none

/-- The lines between the first opener and the end of its block. -/
def insideBlock (key : List Char) (lines : List (List Char)) : List (List Char) :=
  (lines.dropWhile (! opensBlock key ·)).tail.takeWhile isContinuation

/-- The lines before the first opener and behind its block. -/
def outsideBlock (key : List Char) (lines : List (List Char)) : List (List Char) :=
  lines.takeWhile (! opensBlock key ·) ++
    (lines.dropWhile (! opensBlock key ·)).tail.dropWhile isContinuation

/-- A line that goes on is read without its indentation. -/
lemma blockLines_cons_of_staysInBlock (h : staysInBlock w line = true) :
    blockLines (some w) (line :: lines) =
      (dedent w line).bind fun b => (blockLines (some w) lines).map (b :: ·) := by
  rw [blockLines, dedent]
  by_cases hblank : isBlankLine line = true
  · rw [if_pos hblank, if_pos hblank]
    rfl
  · have hind : indentOf line ≠ 0 ∧ w ≤ indentOf line := by simpa [staysInBlock, hblank] using h
    rw [if_neg hblank, if_neg hblank]
    simp only [Option.getD_some, if_neg hind.1, if_neg (not_lt.2 hind.2)]

/-- Another line ends the block. -/
lemma blockLines_cons_of_not_staysInBlock (h : ¬ staysInBlock w line = true) :
    blockLines (some w) (line :: lines) = .ok [] := by
  have hblank : ¬ isBlankLine line = true := fun hblank => h (by rw [staysInBlock, hblank]; rfl)
  have hend : indentOf line ≠ 0 → indentOf line < w := by simpa [staysInBlock, hblank] using h
  rw [blockLines, if_neg hblank]
  by_cases hzero : indentOf line = 0
  · simp only [if_pos hzero]
  · simp only [Option.getD_some, if_neg hzero, if_pos (hend hzero)]

/-- The first line that is not blank sets the indentation. -/
lemma blockLines_none (lines : List (List Char)) :
    blockLines none lines = blockLines (some (blockIndent lines)) lines := by
  induction lines with
  | nil => rfl
  | cons line lines ih =>
    rw [blockLines, blockLines, blockIndent, List.find?_cons]
    split_ifs with hblank
    · rw [hblank, ih]
      rfl
    · simp only [hblank, Bool.not_false]
      rfl

/-- The lines of the block that is read are those that go on, without their indentation. -/
lemma blockLines_some_eq_ok_iff :
    blockLines (some w) lines = .ok block ↔
      List.Forall₂ (fun line b => dedent w line = .ok b) (lines.takeWhile (staysInBlock w)) block := by
  induction lines generalizing block with
  | nil =>
    rw [blockLines, List.takeWhile_nil, List.forall₂_nil_left_iff, Except.ok.injEq]
    exact eq_comm
  | cons line lines ih =>
    by_cases hgoes : staysInBlock w line = true
    · rw [blockLines_cons_of_staysInBlock hgoes, List.takeWhile_cons_of_pos hgoes,
        List.forall₂_cons_left_iff]
      cases hline : dedent w line with
      | error e => exact iff_of_false nofun (by rintro ⟨b, rest, hb, -⟩; exact absurd hb nofun)
      | ok b =>
        rw [Except.bind]
        cases hrest : blockLines (some w) lines with
        | error e =>
          refine iff_of_false nofun ?_
          rintro ⟨b, rest, -, hrest', -⟩
          exact absurd (hrest.symm.trans (ih.2 hrest')) nofun
        | ok rest =>
          rw [Except.map, Except.ok.injEq]
          constructor
          · rintro rfl
            exact ⟨b, rest, rfl, ih.1 hrest, rfl⟩
          · rintro ⟨b', rest', hb, hrest', rfl⟩
            obtain rfl := Except.ok.inj hb
            obtain rfl := Except.ok.inj (hrest.symm.trans (ih.2 hrest'))
            rfl
    · rw [blockLines_cons_of_not_staysInBlock hgoes, List.takeWhile_cons_of_neg hgoes,
        List.forall₂_nil_left_iff, Except.ok.injEq]
      exact eq_comm

/-- A line can lose its indentation: it is blank, or the indentation ends between two characters. -/
def CutsAt (w : ℕ) (line : List Char) : Prop := isBlankLine line ∨ (splitAt? w line).isSome

lemma exists_dedent_iff : (∃ b, dedent w line = .ok b) ↔ CutsAt w line := by
  rw [dedent, CutsAt]
  split_ifs with hblank
  · exact iff_of_true ⟨[], rfl⟩ (.inl hblank)
  · rw [or_iff_right hblank, sliceFrom]
    cases splitAt? w line with
    | none => simp
    | some parts => exact iff_of_true ⟨parts.2, rfl⟩ rfl

/-- Each of several lines has its image exactly when there is a list of images. -/
lemma exists_forall₂_iff {α β : Type*} {R : α → β → Prop} {l : List α} :
    (∃ m, List.Forall₂ R l m) ↔ ∀ a ∈ l, ∃ b, R a b := by
  induction l with
  | nil => exact iff_of_true ⟨[], .nil⟩ nofun
  | cons a l ih =>
    rw [List.forall_mem_cons, ← ih]
    constructor
    · rintro ⟨m, hm⟩
      obtain ⟨b, m, hab, hlm, rfl⟩ := List.forall₂_cons_left_iff.1 hm
      exact ⟨⟨b, hab⟩, m, hlm⟩
    · rintro ⟨⟨b, hab⟩, m, hlm⟩
      exact ⟨b :: m, .cons hab hlm⟩

/-- The lines of a block are read without a panic if they can lose the indentation. -/
lemma noPanic_blockLines_iff :
    NoPanic (blockLines none lines) ↔
      ∀ line ∈ lines.takeWhile (staysInBlock (blockIndent lines)), CutsAt (blockIndent lines) line := by
  rw [blockLines_none, NoPanic]
  simp only [blockLines_some_eq_ok_iff, exists_forall₂_iff, exists_dedent_iff]

/-- A block is read from the first line that names the key, if nothing follows the key on it. -/
lemma extractBlockLoop_eq (key : List Char) (lines : List (List Char)) :
    extractBlockLoop key lines =
      match blockStart key lines with
      | none => .ok none
      | some after =>
        (blockLines none after).map fun block =>
          if block.all isBlankLine then none else some (['\n'].intercalate block) := by
  induction lines with
  | nil => rfl
  | cons line lines ih =>
    rw [extractBlockLoop]
    split_ifs with hwhite
    · rw [ih, blockStart, blockStart, List.dropWhile_cons_of_pos (by simp [namesKey, hwhite])]
    · cases hafter : afterKey key (trimEnd line) with
      | none =>
        simp only
        rw [ih, blockStart, blockStart, List.dropWhile_cons_of_pos (by simp [namesKey, hafter])]
      | some rest =>
        have hnames : namesKey key line = true := by simp [namesKey, hafter, hwhite]
        rw [blockStart, List.dropWhile_cons_of_neg (by simp [hnames])]
        cases hblank : isBlankLine rest <;> simp [isOpener, hafter, hblank]

/-- The lines behind the opener are lines of the text. -/
lemma subset_of_blockStart (h : blockStart key lines = some after) : after ⊆ lines := by
  rw [blockStart] at h
  split at h
  · exact absurd h nofun
  · rename_i first after' hdrop
    split_ifs at h
    obtain rfl := Option.some.inj h
    exact fun line hline =>
      (List.dropWhile_suffix _).subset (hdrop ▸ List.mem_cons_of_mem first hline)

/-- **A block is read without a panic unless the indentation of its first line ends within a character
of another one.** -/
theorem noPanic_extractYamlBlock_iff :
    NoPanic (extractYamlBlock yaml key) ↔
      ∀ after ∈ blockStart key (textLines yaml),
        ∀ line ∈ after.takeWhile (staysInBlock (blockIndent after)),
          CutsAt (blockIndent after) line := by
  rw [extractYamlBlock, extractBlockLoop_eq]
  cases blockStart key (textLines yaml) with
  | none => exact iff_of_true (noPanic_ok none) nofun
  | some after =>
    simp only [noPanic_map_iff, noPanic_blockLines_iff, Option.mem_def, Option.some.injEq]
    exact ⟨fun h _ heq => heq ▸ h, fun h => h after rfl⟩

/-! ## Indentation -/

/-- The indentation is the white space in front. -/
lemma indentOf_eq (line : List Char) : indentOf line = byteLen (line.takeWhile isWhiteSpace) := by
  rw [indentOf]
  conv_lhs => rw [← List.takeWhile_append_dropWhile (p := isWhiteSpace) (l := line), byteLen_append]
  rw [List.takeWhile_append_dropWhile, Nat.add_sub_cancel]

/-- An indented line starts with white space. -/
lemma indentOf_ne_zero_iff : indentOf line ≠ 0 ↔ startsWhite line = true := by
  rw [indentOf_eq, Ne, byteLen_eq_zero_iff]
  cases line with
  | nil => exact iff_of_false (not_not.2 rfl) nofun
  | cons c line =>
    rw [List.takeWhile_cons, startsWhite, List.head?_cons, Option.any_some]
    split_ifs with hc
    · exact iff_of_true nofun hc
    · exact iff_of_false (not_not.2 rfl) hc

/-- The indentation of a block is that of its lines. -/
lemma blockIndent_takeWhile : blockIndent (lines.takeWhile isContinuation) = blockIndent lines := by
  induction lines with
  | nil => rfl
  | cons line lines ih =>
    by_cases hcont : isContinuation line = true
    · rw [List.takeWhile_cons_of_pos hcont, blockIndent, blockIndent, List.find?_cons,
        List.find?_cons]
      cases isBlankLine line with
      | true => exact ih
      | false => rfl
    · have hnot : isBlankLine line = false ∧ startsWhite line = false := by
        simpa [isContinuation] using hcont
      have hzero : indentOf line = 0 := by
        by_contra hne
        exact Bool.false_ne_true (hnot.2.symm.trans (indentOf_ne_zero_iff.1 hne))
      rw [List.takeWhile_cons_of_neg hcont, blockIndent, blockIndent, List.find?_cons, hnot.1]
      exact hzero.symm

/-- A narrower front is the front of a wider one. -/
lemma takeWhile_takeWhile_of_imp {α : Type*} {p q : α → Bool} {l : List α}
    (h : ∀ a, p a = true → q a = true) : (l.takeWhile q).takeWhile p = l.takeWhile p := by
  rw [List.takeWhile_takeWhile]
  congr 1
  funext a
  by_cases hp : p a = true
  · simp [hp, h a hp]
  · simp [hp]

/-- What is cut within the indentation is white space. -/
lemma isBlankLine_of_byteLen_le {p b : List Char} (h : byteLen p ≤ indentOf (p ++ b)) :
    isBlankLine p = true := by
  rw [indentOf_eq] at h
  have hpre : p <+: (p ++ b).takeWhile isWhiteSpace := by
    rcases List.prefix_or_prefix_of_prefix (List.prefix_append p b)
      (List.takeWhile_prefix isWhiteSpace (l := p ++ b)) with hpre | ⟨r, hr⟩
    · exact hpre
    · have hlen := congrArg byteLen hr
      rw [byteLen_append] at hlen
      have hnil : r = [] := byteLen_eq_zero_iff.1 (by omega)
      rw [hnil, List.append_nil] at hr
      rw [hr]
  exact isBlankLine_iff.2 fun c hc => List.mem_takeWhile_imp (hpre.subset hc)

/-- A line of a block and what is read of it. -/
def Dedented (w : ℕ) (line b : List Char) : Prop :=
  (isBlankLine line = true ∧ b = []) ∨
    (isBlankLine b = false ∧ ∃ p, line = p ++ b ∧ byteLen p = w ∧ isBlankLine p = true)

lemma dedented_of_dedent {b : List Char} (hgoes : staysInBlock w line = true)
    (h : dedent w line = .ok b) :
    Dedented w line b := by
  rw [dedent] at h
  split_ifs at h with hblank
  · exact .inl ⟨hblank, (Except.ok.inj h).symm⟩
  · obtain ⟨p, rfl, hlen⟩ := sliceFrom_eq_ok_iff.1 h
    have hind : w ≤ indentOf (p ++ b) := by
      simp only [staysInBlock, hblank, Bool.false_or, Bool.and_eq_true, decide_eq_true_eq] at hgoes
      exact hgoes.2
    have hp := isBlankLine_of_byteLen_le (hlen.trans_le hind)
    rw [isBlankLine_append, hp, Bool.true_and, Bool.not_eq_true] at hblank
    exact .inr ⟨hblank, p, rfl, hlen, hp⟩

/-- A line is blank exactly when what is read of it is. -/
lemma Dedented.isBlankLine_eq {b : List Char} (h : Dedented w line b) :
    isBlankLine b = isBlankLine line := by
  rcases h with ⟨hblank, rfl⟩ | ⟨hb, p, rfl, -, hp⟩
  · rw [hblank]
    rfl
  · rw [isBlankLine_append, hp, Bool.true_and]

lemma forall₂_dedented
    (h : List.Forall₂ (fun line b => dedent w line = .ok b) lines block)
    (hgoes : ∀ line ∈ lines, staysInBlock w line = true) : List.Forall₂ (Dedented w) lines block := by
  induction h with
  | nil => exact .nil
  | cons hline _ ih =>
    rw [List.forall_mem_cons] at hgoes
    exact .cons (dedented_of_dedent hgoes.1 hline) (ih hgoes.2)

/-! ## What is read of the lines of a block -/

section

variable (h : List.Forall₂ (Dedented w) lines block)

include h

/-- The lines of the block are indented again. -/
lemma exists_indents :
    ∃ indents : List (List Char), (∀ indent ∈ indents, byteLen indent = w ∧ isBlankLine indent = true) ∧
      indents.length = (block.filter (! isBlankLine ·)).length ∧
      List.zipWith (· ++ ·) indents (block.filter (! isBlankLine ·)) =
        lines.filter (! isBlankLine ·) := by
  induction h with
  | nil => exact ⟨[], nofun, rfl, rfl⟩
  | @cons line b lines block hline _ ih =>
    obtain ⟨indents, hmem, hlen, hzip⟩ := ih
    rw [List.filter_cons, List.filter_cons, hline.isBlankLine_eq]
    rcases hline with ⟨hblank, -⟩ | ⟨hb, p, rfl, hp⟩
    · rw [hblank]
      exact ⟨indents, hmem, hlen, hzip⟩
    · rw [isBlankLine_append, hp.2, hb]
      exact ⟨p :: indents, List.forall_mem_cons.2 ⟨hp, hmem⟩, congrArg (· + 1) hlen,
        congrArg ((p ++ b) :: ·) hzip⟩

lemma length_filter_of_dedented :
    (block.filter (! isBlankLine ·)).length = (lines.filter (! isBlankLine ·)).length := by
  obtain ⟨indents, -, hlen, hzip⟩ := exists_indents h
  rw [← hzip, List.length_zipWith, hlen, min_self]

lemma returnsIn_filter_of_dedented :
    returnsIn (block.filter (! isBlankLine ·)) = returnsIn (lines.filter (! isBlankLine ·)) := by
  obtain ⟨indents, -, hlen, hzip⟩ := exists_indents h
  rw [← hzip, returnsIn_zipWith hlen fun b hb => ?_]
  simpa using (List.mem_filter.1 hb).2

lemma newline_notMem_of_dedented (hnew : ∀ line ∈ lines, '\n' ∉ line) :
    ∀ b ∈ block, '\n' ∉ b := by
  induction h with
  | nil => exact nofun
  | cons hline _ ih =>
    rw [List.forall_mem_cons] at hnew ⊢
    refine ⟨?_, ih hnew.2⟩
    rcases hline with ⟨-, rfl⟩ | ⟨-, p, rfl, -⟩
    · exact List.not_mem_nil
    · exact fun hmem => hnew.1 (List.mem_append_right p hmem)

/-- The lines keep their returns exactly when what is read of them does. -/
lemma keepsReturns_iff_of_dedented : KeepsReturns block ↔ KeepsReturns lines := by
  induction h with
  | nil => exact Iff.rfl
  | @cons line b lines block hline hrest ih =>
    cases hrest with
    | nil => exact Iff.rfl
    | cons =>
      have hlast : isBlankLine b ∨ b.getLast? ≠ some '\r' ↔
          isBlankLine line ∨ line.getLast? ≠ some '\r' := by
        rw [hline.isBlankLine_eq]
        rcases hline with ⟨hblank, -⟩ | ⟨hb, p, rfl, -⟩
        · exact iff_of_true (.inl hblank) (.inl hblank)
        · have hne : b ≠ [] := by
            rintro rfl
            exact absurd hb nofun
          rw [List.getLast?_append_of_ne_nil p hne]
      rw [KeepsReturns, KeepsReturns, List.dropLast_cons_cons, List.dropLast_cons_cons,
        List.forall_mem_cons, List.forall_mem_cons]
      exact and_congr hlast ih

end

/-! ## Blocks that are split exactly -/

/-- The lines that a block is read from. -/
def readLines (key : List Char) (lines : List (List Char)) : List (List Char) :=
  match blockStart key lines with
  | none => []
  | some after => after.takeWhile (staysInBlock (blockIndent after))

/-- The lines of the text without the block, the opener and the lines of the block, which are indented
again, are the lines of the text. -/
def SplitsExactly (key text : List Char) : Prop :=
  ∃ block opener indents,
    extractYamlBlock text key = .ok block ∧ opener ∈ textLines text ∧ opensBlock key opener = true ∧
    (∃ w, ∀ indent ∈ indents, byteLen indent = w ∧ isBlankLine indent = true) ∧
    indents.length = (fullLines (block.getD [])).length ∧
    (fullLines (stripYamlBlock text key) ++
        opener :: List.zipWith (· ++ ·) indents (fullLines (block.getD []))).Perm (fullLines text)

/-- A block is taken out and read as the same lines: no line before it names the key, no line of it is
indented less than its first one, and no line of it or of the rest loses a carriage return. -/
structure BlockWhole (key : List Char) (lines : List (List Char)) : Prop where
  first : (∀ line ∈ insideBlock key lines, isBlankLine line = true) ∨
    ∀ line ∈ lines.takeWhile (! opensBlock key ·), namesKey key line = false
  indented : ∀ line ∈ insideBlock key lines,
    isBlankLine line = true ∨ blockIndent (insideBlock key lines) ≤ indentOf line
  inside : KeepsReturns (insideBlock key lines)
  outside : KeepsReturns (outsideBlock key lines)

/-- What is read of the lines of a block. -/
lemma exists_of_extractYamlBlock {block : Option (List Char)}
    (h : extractYamlBlock text key = .ok block) :
    ∃ read w, List.Forall₂ (Dedented w) (readLines key (textLines text)) read ∧
      (∀ b ∈ read, '\n' ∉ b) ∧ fullLines (block.getD []) = fullLines (['\n'].intercalate read) := by
  rw [extractYamlBlock, extractBlockLoop_eq] at h
  rw [readLines]
  cases hstart : blockStart key (textLines text) with
  | none =>
    rw [hstart] at h
    obtain rfl := Except.ok.inj h
    exact ⟨[], 0, .nil, nofun, rfl⟩
  | some after =>
    simp only [hstart] at h
    cases hread : blockLines none after with
    | error e => rw [hread] at h; exact absurd h nofun
    | ok read =>
      rw [hread] at h
      obtain rfl := Except.ok.inj h
      rw [blockLines_none, blockLines_some_eq_ok_iff] at hread
      have hded := forall₂_dedented hread fun line hline => List.mem_takeWhile_imp hline
      have hafter : ∀ line ∈ after, '\n' ∉ line := fun line hline =>
        newline_notMem_of_mem_textLines (subset_of_blockStart hstart hline)
      have hnew := newline_notMem_of_dedented hded fun line hline =>
        hafter line (List.takeWhile_subset _ hline)
      refine ⟨read, _, hded, hnew, ?_⟩
      beta_reduce
      split_ifs with hall
      · have hlen := length_fullLines_intercalate hnew
        rw [List.filter_eq_nil_iff.2 fun b hb => by simp [List.all_eq_true.1 hall b hb]] at hlen
        exact (List.length_eq_zero_iff.1 hlen).symm
      · rfl

/-- Lines that do not open a block stay. -/
lemma stripLines_append {rest : List (List Char)}
    (h : ∀ line ∈ lines, opensBlock key line = false) :
    stripLines key false (lines ++ rest) = lines ++ stripLines key false rest := by
  induction lines with
  | nil => rfl
  | cons line lines ih =>
    rw [List.forall_mem_cons] at h
    rw [List.cons_append, stripLines, ih h.2, if_neg (fun hin => Bool.false_ne_true hin.1)]
    split_ifs with hwhite hopener
    · rfl
    · exact absurd h.1 (by simp [opensBlock, hwhite, hopener])
    · rfl

/-- In a block, the lines up to its end are taken out. -/
lemma stripLines_true (h : ∀ line ∈ lines, opensBlock key line = false) :
    stripLines key true lines = lines.dropWhile isContinuation := by
  induction lines with
  | nil => rfl
  | cons line lines ih =>
    by_cases hcont : isContinuation line = true
    · rw [stripLines, if_pos ⟨rfl, by simpa [isContinuation] using hcont⟩,
        ih (List.forall_mem_cons.1 h).2, List.dropWhile_cons_of_pos hcont]
    · have hnot : isBlankLine line = false ∧ startsWhite line = false := by
        simpa [isContinuation] using hcont
      have hsame : stripLines key true (line :: lines) = stripLines key false (line :: lines) := by
        simp [stripLines, hnot.1, hnot.2]
      have hall : stripLines key false (line :: lines ++ []) =
          line :: lines ++ stripLines key false [] := stripLines_append h
      rw [List.append_nil, stripLines, List.append_nil] at hall
      rw [hsame, hall, List.dropWhile_cons_of_neg hcont]

/-- All lines of a block that are indented enough go on. -/
lemma takeWhile_staysInBlock_eq_self (hcont : ∀ line ∈ lines, isContinuation line = true)
    (hind : ∀ line ∈ lines, isBlankLine line = true ∨ w ≤ indentOf line) :
    lines.takeWhile (staysInBlock w) = lines := by
  refine List.takeWhile_eq_self_iff.2 fun line hline => ?_
  have hcont' := hcont line hline
  rw [isContinuation, Bool.or_eq_true] at hcont'
  simp only [staysInBlock, Bool.or_eq_true, Bool.and_eq_true, decide_eq_true_eq]
  rcases hind line hline with hblank | hle
  · exact .inl hblank
  · exact hcont'.imp id fun hwhite => ⟨indentOf_ne_zero_iff.2 hwhite, hle⟩

section

variable {opener : List Char} (hbefore : ∀ line ∈ before, opensBlock key line = false)
  (hopens : opensBlock key opener = true) (hafter : ∀ line ∈ after, opensBlock key line = false)

include hbefore hopens

lemma takeWhile_not_opensBlock :
    (before ++ opener :: after).takeWhile (! opensBlock key ·) = before := by
  rw [List.takeWhile_append_of_pos fun line hline => by rw [hbefore line hline]; rfl,
    List.takeWhile_cons_of_neg (by simp [hopens]), List.append_nil]

lemma dropWhile_not_opensBlock :
    (before ++ opener :: after).dropWhile (! opensBlock key ·) = opener :: after := by
  rw [List.dropWhile_append_of_pos fun line hline => by rw [hbefore line hline]; rfl,
    List.dropWhile_cons_of_neg (by simp [hopens])]

lemma insideBlock_eq :
    insideBlock key (before ++ opener :: after) = after.takeWhile isContinuation := by
  rw [insideBlock, dropWhile_not_opensBlock hbefore hopens, List.tail_cons]

lemma outsideBlock_eq :
    outsideBlock key (before ++ opener :: after) = before ++ after.dropWhile isContinuation := by
  rw [outsideBlock, takeWhile_not_opensBlock hbefore hopens,
    dropWhile_not_opensBlock hbefore hopens, List.tail_cons]

/-- A block is read from the opener unless a line before it names the key. -/
lemma blockStart_eq :
    blockStart key (before ++ opener :: after) =
      if ∀ line ∈ before, namesKey key line = false then some after else none := by
  have hparts : startsWhite opener = false ∧ isOpener key opener = true := by
    simpa [opensBlock] using hopens
  have hnames : namesKey key opener = true := by
    have hsome : (afterKey key (trimEnd opener)).isSome := by
      have h := hparts.2
      rw [isOpener] at h
      cases hrest : afterKey key (trimEnd opener) with
      | none => rw [hrest] at h; exact absurd h nofun
      | some rest => rfl
    rw [namesKey, hparts.1, hsome]
    rfl
  rw [blockStart]
  split_ifs with hall
  · rw [List.dropWhile_append_of_pos fun line hline => by rw [hall line hline]; rfl,
      List.dropWhile_cons_of_neg (by simp [hnames])]
    exact if_pos hparts.2
  · have hne : before.dropWhile (! namesKey key ·) ≠ [] := by
      rw [Ne, List.dropWhile_eq_nil_iff]
      simpa using hall
    obtain ⟨first, rest, hdrop⟩ := List.exists_cons_of_ne_nil hne
    have hfirst : namesKey key first = true := by
      simpa [hdrop] using List.head_dropWhile_not (! namesKey key ·) hne
    have hmem : first ∈ before :=
      (List.dropWhile_suffix (! namesKey key ·)).subset (hdrop ▸ List.mem_cons_self)
    have hnot : isOpener key first = false := by
      have h := hbefore first hmem
      rw [namesKey, Bool.and_eq_true] at hfirst
      rwa [opensBlock, hfirst.1, Bool.true_and] at h
    have hdropAll : (before ++ opener :: after).dropWhile (! namesKey key ·) =
        first :: (rest ++ opener :: after) := by
      rw [List.dropWhile_append, hdrop]
      rfl
    rw [hdropAll]
    exact if_neg (by rw [hnot]; exact Bool.false_ne_true)

/-- The lines outside a block and in it are the lines. -/
lemma filter_perm_of_opener (hfull : isBlankLine opener = false) :
    ((outsideBlock key (before ++ opener :: after)).filter (! isBlankLine ·) ++
      opener :: (insideBlock key (before ++ opener :: after)).filter (! isBlankLine ·)).Perm
      ((before ++ opener :: after).filter (! isBlankLine ·)) := by
  rw [outsideBlock_eq hbefore hopens, insideBlock_eq hbefore hopens, List.filter_append,
    List.filter_append, List.filter_cons_of_pos (by rw [hfull]; rfl), List.append_assoc]
  refine List.Perm.append_left _ (List.perm_append_comm.trans (.of_eq ?_))
  rw [List.cons_append, ← List.filter_append, List.takeWhile_append_dropWhile]

/-- The lines that are read are the first ones of the block. -/
lemma readLines_eq :
    readLines key (before ++ opener :: after) =
      if ∀ line ∈ before, namesKey key line = false then
        after.takeWhile (staysInBlock (blockIndent after)) else [] := by
  rw [readLines, blockStart_eq hbefore hopens]
  split_ifs <;> rfl

include hafter

/-- What is taken out of the text is the block. -/
lemma stripLines_eq :
    stripLines key false (before ++ opener :: after) =
      outsideBlock key (before ++ opener :: after) := by
  have hparts : startsWhite opener = false ∧ isOpener key opener = true := by
    simpa [opensBlock] using hopens
  rw [stripLines_append hbefore, stripLines, if_neg (fun hin => Bool.false_ne_true hin.1),
    if_neg (by simp [hparts.1]), if_pos hparts.2, stripLines_true hafter,
    outsideBlock_eq hbefore hopens]

omit hafter

/-- The lines that are read, in terms of the block. -/
lemma readLines_eq_insideBlock :
    readLines key (before ++ opener :: after) =
      if ∀ line ∈ before, namesKey key line = false then
        (insideBlock key (before ++ opener :: after)).takeWhile
          (staysInBlock (blockIndent (insideBlock key (before ++ opener :: after)))) else [] := by
  have hcont {w : ℕ} (line : List Char) (h : staysInBlock w line = true) :
      isContinuation line = true := by
    simp only [staysInBlock, isContinuation, Bool.or_eq_true, Bool.and_eq_true, decide_eq_true_eq]
      at h ⊢
    exact h.imp id fun hind => indentOf_ne_zero_iff.1 hind.1
  rw [readLines_eq hbefore hopens, insideBlock_eq hbefore hopens, blockIndent_takeWhile,
    takeWhile_takeWhile_of_imp hcont]

/-- All lines of the block are read exactly when it is reached and no line is indented less. -/
lemma readLines_whole_iff :
    ((readLines key (before ++ opener :: after)).filter (! isBlankLine ·)).length =
        ((insideBlock key (before ++ opener :: after)).filter (! isBlankLine ·)).length ↔
      ((∀ line ∈ insideBlock key (before ++ opener :: after), isBlankLine line = true) ∨
        ∀ line ∈ before, namesKey key line = false) ∧
      ∀ line ∈ insideBlock key (before ++ opener :: after), isBlankLine line = true ∨
        blockIndent (insideBlock key (before ++ opener :: after)) ≤ indentOf line := by
  have hinside : ∀ line ∈ insideBlock key (before ++ opener :: after), isContinuation line = true := by
    rw [insideBlock_eq hbefore hopens]
    exact fun line hline => List.mem_takeWhile_imp hline
  rw [readLines_eq_insideBlock hbefore hopens]
  generalize insideBlock key (before ++ opener :: after) = inside at hinside
  have hblank : (inside.filter (! isBlankLine ·)).length = 0 ↔
      ∀ line ∈ inside, isBlankLine line = true := by
    rw [List.length_eq_zero_iff, List.filter_eq_nil_iff]
    simp
  split_ifs with hfirst
  · rw [and_iff_right (Or.inr hfirst)]
    constructor
    · intro hlen line hline
      have hsplit := congrArg (fun l => (l.filter (! isBlankLine ·)).length)
        (List.takeWhile_append_dropWhile (p := staysInBlock (blockIndent inside)) (l := inside))
      simp only [List.filter_append, List.length_append] at hsplit
      have hnil : inside.dropWhile (staysInBlock (blockIndent inside)) = [] := by
        by_contra hne
        have hhead := List.head_dropWhile_not (staysInBlock (blockIndent inside)) hne
        have hnone : (inside.dropWhile (staysInBlock (blockIndent inside))).filter
            (! isBlankLine ·) = [] :=
          List.length_eq_zero_iff.1 (by omega)
        have hempty := List.filter_eq_nil_iff.1 hnone _ (List.head_mem hne)
        rw [staysInBlock, Bool.or_eq_false_iff] at hhead
        exact hempty (by rw [hhead.1]; rfl)
      have hgoes := List.dropWhile_eq_nil_iff.1 hnil line hline
      simp only [staysInBlock, Bool.or_eq_true, Bool.and_eq_true, decide_eq_true_eq] at hgoes
      exact hgoes.imp id And.right
    · intro hind
      rw [takeWhile_staysInBlock_eq_self hinside hind]
  · rw [or_iff_left hfirst, List.filter_nil, List.length_nil, eq_comm, hblank]
    exact ⟨fun h => ⟨h, fun line hline => .inl (h line hline)⟩, And.left⟩

/-- If all lines of the block are read, they are its lines that are not blank, and they keep their
returns as the block does. -/
lemma readLines_of_whole
    (hfirst : (∀ line ∈ insideBlock key (before ++ opener :: after), isBlankLine line = true) ∨
      ∀ line ∈ before, namesKey key line = false)
    (hind : ∀ line ∈ insideBlock key (before ++ opener :: after), isBlankLine line = true ∨
      blockIndent (insideBlock key (before ++ opener :: after)) ≤ indentOf line) :
    (readLines key (before ++ opener :: after)).filter (! isBlankLine ·) =
        (insideBlock key (before ++ opener :: after)).filter (! isBlankLine ·) ∧
      (KeepsReturns (readLines key (before ++ opener :: after)) ↔
        KeepsReturns (insideBlock key (before ++ opener :: after))) := by
  have hinside : ∀ line ∈ insideBlock key (before ++ opener :: after), isContinuation line = true := by
    rw [insideBlock_eq hbefore hopens]
    exact fun line hline => List.mem_takeWhile_imp hline
  have hread : readLines key (before ++ opener :: after) ⊆
      insideBlock key (before ++ opener :: after) := by
    rw [readLines_eq_insideBlock hbefore hopens]
    split_ifs
    · exact List.takeWhile_subset _
    · exact List.nil_subset _
  rcases hfirst with hblank | hfirst
  · refine ⟨?_, iff_of_true (fun line hline => .inl ?_) fun line hline => .inl ?_⟩
    · rw [List.filter_eq_nil_iff.2 fun line hline => by simp [hblank line (hread hline)],
        List.filter_eq_nil_iff.2 fun line hline => by simp [hblank line hline]]
    · exact hblank line (hread (List.dropLast_subset _ hline))
    · exact hblank line (List.dropLast_subset _ hline)
  · rw [readLines_eq_insideBlock hbefore hopens, if_pos hfirst, takeWhile_staysInBlock_eq_self
      hinside hind]
    exact ⟨rfl, Iff.rfl⟩

end

/-- An opener is not blank. -/
lemma isBlankLine_of_opensBlock (h : opensBlock key line = true) : isBlankLine line = false := by
  rw [opensBlock, Bool.and_eq_true, Bool.not_eq_true'] at h
  by_contra hblank
  rcases startsWhite_of_isBlankLine (Bool.not_eq_false _ ▸ hblank) with rfl | hwhite
  · have hopener := h.2
    rw [isOpener] at hopener
    cases hrest : afterKey key (trimEnd []) with
    | none => rw [hrest] at hopener; exact absurd hopener nofun
    | some rest => exact absurd (exists_of_stripPrefix hrest) (by simp [trimEnd])
  · exact Bool.false_ne_true (h.1.symm.trans hwhite)

/-- The text around a single opener. -/
lemma exists_of_countP_eq_one {α : Type*} {p : α → Bool} {l : List α} (h : l.countP p = 1) :
    ∃ before a after, l = before ++ a :: after ∧ (∀ x ∈ before, p x = false) ∧ p a = true ∧
      ∀ x ∈ after, p x = false := by
  rw [List.countP_eq_length_filter, List.length_eq_one_iff] at h
  obtain ⟨a, ha⟩ := h
  obtain ⟨before, after, rfl, hbefore, hp, hafter⟩ := List.filter_eq_cons_iff.1 ha
  refine ⟨before, a, after, rfl, fun x hx => Bool.eq_false_iff.2 (hbefore x hx), hp, fun x hx => ?_⟩
  exact Bool.eq_false_iff.2 (List.filter_eq_nil_iff.1 hafter x hx)

/-- **A single block is split exactly if it is whole.**

Each line is accounted for by counting: a text that is put together has a line of its own for each line
that is not blank, so all lines of the block have to be read, and then no carriage return may be
lost. -/
theorem splitsExactly_iff (hone : (textLines text).countP (opensBlock key) = 1)
    (hok : NoPanic (extractYamlBlock text key)) :
    SplitsExactly key text ↔ BlockWhole key (textLines text) := by
  obtain ⟨block, hblock⟩ := hok
  obtain ⟨read, w, hded, hread, hfull⟩ := exists_of_extractYamlBlock hblock
  have hnew : ∀ line ∈ textLines text, '\n' ∉ line := fun _ => newline_notMem_of_mem_textLines
  obtain ⟨before, opener, after, hlines, hbefore, hopens, hafter⟩ := exists_of_countP_eq_one hone
  have hperm := @filter_perm_of_opener key before after opener hbefore hopens
    (isBlankLine_of_opensBlock hopens)
  have hwhole := @readLines_whole_iff key before after opener hbefore hopens
  have hsame := @readLines_of_whole key before after opener hbefore hopens
  have htake := @takeWhile_not_opensBlock key before after opener hbefore hopens
  have hstrip : stripYamlBlock text key =
      ['\n'].intercalate (outsideBlock key (textLines text)) := by
    rw [stripYamlBlock, hlines, stripLines_eq hbefore hopens hafter]
  have hout : ∀ line ∈ outsideBlock key (textLines text), '\n' ∉ line := by
    intro line hline
    refine hnew line ?_
    rw [hlines, outsideBlock_eq hbefore hopens, List.mem_append] at hline
    rw [hlines, List.mem_append]
    exact hline.imp id fun h => List.mem_cons_of_mem _ ((List.dropWhile_suffix _).subset h)
  rw [← hlines] at hperm hwhole hsame htake
  have hlenRead := length_fullLines_intercalate hread
  have hlenOut := length_fullLines_intercalate hout
  rw [length_filter_of_dedented hded] at hlenRead
  constructor
  · rintro ⟨block', opener', indents, hblock', hmem, hopens', ⟨w', hindents⟩, hlen, hsplit⟩
    obtain rfl := Except.ok.inj (hblock.symm.trans hblock')
    rw [hfull] at hlen hsplit
    rw [hstrip] at hsplit
    have hopener : opener' = opener := by
      rw [hlines, List.mem_append, List.mem_cons] at hmem
      rcases hmem with hmem | rfl | hmem
      · exact absurd ((hbefore _ hmem).symm.trans hopens') Bool.false_ne_true
      · rfl
      · exact absurd ((hafter _ hmem).symm.trans hopens') Bool.false_ne_true
    subst hopener
    have hboth := hsplit.trans (hperm.symm : (fullLines text).Perm _)
    have hcount := hboth.length_eq
    simp only [List.length_append, List.length_cons, List.length_zipWith] at hcount
    obtain ⟨hfirst, hind⟩ := hwhole.1 (by omega)
    have hreturns : returnsIn _ = returnsIn _ := (hboth.map returns).sum_nat
    rw [returnsIn_append, returnsIn_append, returnsIn_cons, returnsIn_cons,
      returnsIn_zipWith hlen fun b hb => by simpa using (List.mem_filter.1 hb).2] at hreturns
    have hle := returnsIn_fullLines_le hout
    have hle' := returnsIn_fullLines_le hread
    rw [returnsIn_filter_of_dedented hded] at hle'
    obtain ⟨hfilter, hkeeps⟩ := hsame hfirst hind
    rw [hfilter] at hle'
    refine ⟨htake ▸ hfirst, hind, hkeeps.1 ((keepsReturns_iff_of_dedented hded).1 ?_), ?_⟩
    · refine keepsReturns_of_returnsIn hread ?_
      rw [returnsIn_filter_of_dedented hded, hfilter]
      omega
    · exact keepsReturns_of_returnsIn hout (by omega)
  · rintro ⟨hfirst, hind, hinside, houtside⟩
    rw [htake] at hfirst
    obtain ⟨hfilter, hkeeps⟩ := hsame hfirst hind
    have hkeepsRead : KeepsReturns read := (keepsReturns_iff_of_dedented hded).2 (hkeeps.2 hinside)
    obtain ⟨indents, hindents, hlen, hzip⟩ := exists_indents hded
    have hmem : opener ∈ textLines text :=
      hlines ▸ List.mem_append_right before List.mem_cons_self
    refine ⟨block, opener, indents, hblock, hmem, hopens, ⟨w, hindents⟩, ?_, ?_⟩
    · rw [hfull, fullLines_intercalate hread hkeepsRead, hlen]
    · rw [hfull, fullLines_intercalate hread hkeepsRead, hzip, hfilter, hstrip,
        fullLines_intercalate hout houtside]
      exact hperm

/-- A line that is indented less than the first one is neither left nor read. -/
example :
    stripYamlBlock "m:\n  a: 1\n b: 2".toList "m".toList = [] ∧
      extractYamlBlock "m:\n  a: 1\n b: 2".toList "m".toList = .ok (some "a: 1".toList) := by
  decide

/-! ## The condition -/

/-- The readers of front matter return, and split off a single block exactly. -/
structure ReadsAndSplits (key text : List Char) : Prop where
  frontMatter : NoPanic (parseFrontMatter text)
  string : NoPanic (extractYamlString text key)
  list : NoPanic (extractYamlList text key)
  bool : ∀ toLowercase, NoPanic (extractYamlBool toLowercase text key)
  block : NoPanic (extractYamlBlock text key)
  splits : (textLines text).countP (opensBlock key) = 1 → SplitsExactly key text

/-- No value under the key is a single quote, the lines of its block can lose their indentation, and a
single block is whole. -/
structure FrontMatterSound (key : List Char) (lines : List (List Char)) : Prop where
  value : ∀ value ∈ keyValue key lines, ¬ LoneQuote value
  items : ∀ item ∈ listItems key lines, ¬ LoneQuote item
  cuts : ∀ after ∈ blockStart key lines,
    ∀ line ∈ after.takeWhile (staysInBlock (blockIndent after)), CutsAt (blockIndent after) line
  whole : lines.countP (opensBlock key) = 1 → BlockWhole key lines

/-- **The readers return and split exactly on sound front matter, and on no other one.** -/
theorem readsAndSplits_iff (key text : List Char) :
    ReadsAndSplits key text ↔ FrontMatterSound key (textLines text) := by
  constructor
  · intro h
    exact {
      value := noPanic_extractYamlString_iff.1 h.string
      items := noPanic_extractYamlList_iff.1 h.list
      cuts := noPanic_extractYamlBlock_iff.1 h.block
      whole := fun hone => (splitsExactly_iff hone h.block).1 (h.splits hone) }
  · intro h
    have hblock : NoPanic (extractYamlBlock text key) := noPanic_extractYamlBlock_iff.2 h.cuts
    exact {
      frontMatter := noPanic_parseFrontMatter text
      string := noPanic_extractYamlString_iff.2 h.value
      list := noPanic_extractYamlList_iff.2 h.items
      bool := fun _ => noPanic_extractYamlBool_iff.2 h.value
      block := hblock
      splits := fun hone => (splitsExactly_iff hone hblock).2 (h.whole hone) }

/-- A value of one quote stops the program. -/
theorem not_readsAndSplits_openQuote : ¬ ReadsAndSplits "name".toList "name: \"".toList :=
  fun h => noPanic_extractYamlString_iff.1 h.string ['"'] rfl (.inl rfl)

end MyClaw
