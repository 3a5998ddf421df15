import MyClaw.Lib.StrSlice
import MyClaw.Text.Lines

set_option autoImplicit false

/-!
# Front matter

The readers of the front matter of skills, agents and scheduled tasks (`str_utils.rs`): the text between
two lines `---`, a value, a list or a nested block under a key.  Values lose their quotes and the
lines of a block their indentation by slices at byte positions.

## Main definitions

* `parseFrontMatter` — the front matter and the body of a file.
* `extractYamlString`, `extractYamlList`, `extractYamlBool` — values under a key.
* `extractYamlBlock`, `stripYamlBlock` — a nested block, and the text without it.
* `keyValue`, `listItems` — the value and the items that stand under a key.

## Main results

* `noPanic_parseFrontMatter` — the front matter is found without a panic.
* `noPanic_extractYamlString_iff`, `noPanic_extractYamlList_iff`,
  `noPanic_extractYamlBool_iff` — values are read without a panic unless one is a single quote.

## Implementation notes

A peeked iterator of lines is a flag, or the list of the lines that are left.  Lower case is a
parameter. -/

namespace MyClaw

open StrSlice

/-! ## Front matter and body -/

/-- `str::find`: the byte offset of the first place of a text. -/
def findBytes (pat text : List Char) : Option ℕ :=
  (Holes.findText pat text).map fun i => byteLen (text.take i)

/-- What is found stands behind as many bytes. -/
lemma exists_of_findBytes {pat text : List Char} {n : ℕ} (h : findBytes pat text = some n) :
    ∃ i rest, Holes.findText pat text = some i ∧ text = text.take i ++ pat ++ rest ∧
      byteLen (text.take i) = n := by
  obtain ⟨i, hi, rfl⟩ := Option.map_eq_some_iff.1 h
  obtain ⟨rest, hrest⟩ := (Holes.findText_spec hi).1
  exact ⟨i, rest, hi, by rw [List.append_assoc, hrest, List.take_append_drop], rfl⟩

/-- `parse_front_matter`. -/
def parseFrontMatter (content : List Char) : Except Panic (List Char × List Char) :=
  let trimmed := trimChars content
  if ¬ "---".toList <+: trimmed then .ok ([], trimmed)
  else do
    let rest ← sliceFrom trimmed 3
    match findBytes "\n---".toList rest with
    | some stop =>
      let frontMatter ← sliceBetween trimmed 3 (3 + stop)
      let body ← sliceFrom trimmed (3 + stop + 4)
      return (trimChars frontMatter, trimChars body)
    | none => return ([], trimmed)

/-! ## Values -/

/-- The value between two quotes of one kind, else the value. -/
def unquote (value : List Char) : Except Panic (List Char) :=
  if (value.head? = some '"' ∧ value.getLast? = some '"') ∨
      (value.head? = some '\'' ∧ value.getLast? = some '\'') then
    sliceBetween value 1 (byteLen value - 1)
  else .ok value

/-- What follows the key on a line. -/
def afterKey (key line : List Char) : Option (List Char) := Chars.stripPrefix (key ++ [':']) line

/-- The loop of `extract_yaml_string`. -/
def stringLoop (key : List Char) : List (List Char) → Except Panic (Option (List Char))
  | [] => .ok none
  | line :: lines =>
    match afterKey key (trimChars line) with
    | some rest => (unquote (trimChars rest)).map some
    | none => stringLoop key lines

/-- `extract_yaml_string`. -/
def extractYamlString (yaml key : List Char) : Except Panic (Option (List Char)) :=
  stringLoop key (textLines yaml)

/-- `str::trim_matches`. -/
def trimMatches (p : Char → Bool) (text : List Char) : List Char :=
  ((text.dropWhile p).reverse.dropWhile p).reverse

/-- The items of a list on one line. -/
def inlineItems (rest : List Char) : List (List Char) :=
  (((trimMatches (fun c => c = '[' || c = ']') rest).splitOn ',').map fun s =>
    trimMatches (fun c => c = '"' || c = '\'') (trimChars s)).filter (· ≠ [])

/-- The loop of `extract_yaml_list`. -/
def listLoop (key : List Char) (inList : Bool) (items : List (List Char)) :
    List (List Char) → Except Panic (List (List Char))
  | [] => .ok items
  | line :: lines =>
    let trimmed := trimChars line
    if inList then
      match Chars.stripPrefix "- ".toList trimmed with
      | some item =>
        (unquote (trimChars item)).bind fun item => listLoop key true (items ++ [item]) lines
      | none =>
        if trimmed ≠ [] ∧ trimmed.head? ≠ some '#' then .ok items
        else listLoop key true items lines
    else
      match afterKey key trimmed with
      | some rest =>
        if (trimChars rest).head? = some '[' then .ok (inlineItems (trimChars rest))
        else listLoop key (trimChars rest = []) items lines
      | none => listLoop key false items lines

/-- `extract_yaml_list`. -/
def extractYamlList (yaml key : List Char) : Except Panic (List (List Char)) :=
  listLoop key false [] (textLines yaml)

/-- `extract_yaml_bool`. -/
def extractYamlBool (toLowercase : List Char → List Char) (yaml key : List Char) :
    Except Panic (Option Bool) :=
  (extractYamlString yaml key).map fun value =>
    value.bind fun v =>
      let lower := String.ofList (toLowercase v)
      if lower = "true" ∨ lower = "yes" ∨ lower = "on" then some true
      else if lower = "false" ∨ lower = "no" ∨ lower = "off" then some false
      else none

/-! ## Where values panic -/

/-- A value of one quote. -/
def LoneQuote (value : List Char) : Prop := value = ['"'] ∨ value = ['\'']

/-- The value of the first line that starts with the key. -/
def keyValue (key : List Char) (lines : List (List Char)) : Option (List Char) :=
  (lines.findSome? fun line => afterKey key (trimChars line)).map trimChars

/-- A list stands on the line, or behind it. -/
def opensList (key line : List Char) : Bool :=
  (afterKey key (trimChars line)).any fun rest =>
    (trimChars rest).isEmpty || (trimChars rest).head? = some '['

/-- What the line has as an item of a list. -/
def listItem (line : List Char) : Option (List Char) :=
  (Chars.stripPrefix "- ".toList (trimChars line)).map trimChars

/-- A list goes on at the line: it is an item, blank or a comment. -/
def isListLine (line : List Char) : Bool :=
  (listItem line).isSome || (trimChars line).isEmpty || (trimChars line).head? = some '#'

/-- The items of the list that stands behind the first line that opens one. -/
def listItems (key : List Char) (lines : List (List Char)) : List (List Char) :=
  match lines.dropWhile (! opensList key ·) with
  | [] => []
  | opener :: lines =>
    if (afterKey key (trimChars opener)).any (trimChars · = []) then
      (lines.takeWhile isListLine).filterMap listItem
    else []

section

variable {key yaml value : List Char} {lines items : List (List Char)}

/-- A prefix is stripped from a text that has it. -/
lemma exists_of_stripPrefix {start text rest : List Char}
    (h : Chars.stripPrefix start text = some rest) :
    text = start ++ rest := by
  rw [Chars.stripPrefix] at h
  split_ifs at h with hpre
  obtain ⟨t, rfl⟩ := hpre
  rw [List.drop_left, Option.some.injEq] at h
  rw [h]

/-- **Front matter is found without a panic**: the text that is found is cut at its own places. -/
theorem noPanic_parseFrontMatter (content : List Char) : NoPanic (parseFrontMatter content) := by
  rw [parseFrontMatter]
  by_cases hpre : "---".toList <+: trimChars content
  · rw [if_neg (not_not.2 hpre)]
    obtain ⟨rest, hrest⟩ := hpre
    rw [← hrest]
    have hthree : byteLen "---".toList = 3 := rfl
    have hfour : byteLen "\n---".toList = 4 := rfl
    have hfrom : sliceFrom ("---".toList ++ rest) 3 = .ok rest := sliceFrom_append "---".toList rest
    refine noPanic_bind_iff.2 ⟨rest, hfrom, ?_⟩
    split
    · rename_i stop hstop
      obtain ⟨i, body, -, hsplit, rfl⟩ := exists_of_findBytes hstop
      rw [List.append_assoc] at hsplit
      have hfront :
          sliceBetween ("---".toList ++ rest) 3 (3 + byteLen (rest.take i)) = .ok (rest.take i) := by
        have h := sliceBetween_append "---".toList (rest.take i) ("\n---".toList ++ body)
        rwa [List.append_assoc, ← hsplit, hthree] at h
      have hbehind :
          sliceFrom ("---".toList ++ rest) (3 + byteLen (rest.take i) + 4) = .ok body := by
        have h := sliceFrom_append ("---".toList ++ rest.take i ++ "\n---".toList) body
        rwa [byteLen_append, byteLen_append, hthree, hfour, List.append_assoc, List.append_assoc,
          ← hsplit] at h
      exact noPanic_bind_iff.2 ⟨_, hfront, noPanic_bind_iff.2 ⟨_, hbehind, noPanic_ok _⟩⟩
    · exact noPanic_ok _
  · rw [if_pos hpre]
    exact noPanic_ok _

/-- Quotes are taken off without a panic unless the value is one quote. -/
lemma noPanic_unquote_iff : NoPanic (unquote value) ↔ ¬ LoneQuote value := by
  have hquoted (q : Char) (hq : q.utf8Size = 1) (hhead : value.head? = some q)
      (hlast : value.getLast? = some q) :
      NoPanic (sliceBetween value 1 (byteLen value - 1)) ↔ value ≠ [q] := by
    obtain ⟨front, rfl⟩ := List.getLast?_eq_some_iff.1 hlast
    cases front with
    | nil =>
      refine iff_of_false ?_ (not_not.2 rfl)
      rw [List.nil_append, byteLen_cons, hq]
      exact not_noPanic_error _
    | cons d front =>
      obtain rfl := Option.some.inj hhead
      refine iff_of_true ⟨front, ?_⟩ (by simp)
      have h := sliceBetween_append [d] front [d]
      rw [byteLen_cons, byteLen_nil, hq] at h
      rw [List.cons_append, byteLen_cons, byteLen_append, byteLen_cons, byteLen_nil, hq]
      exact (Nat.add_sub_cancel (1 + byteLen front) 1) ▸ h
  rw [unquote]
  split_ifs with h
  · rcases h with ⟨hhead, hlast⟩ | ⟨hhead, hlast⟩
    · rw [hquoted '"' rfl hhead hlast, LoneQuote, not_or]
      exact (and_iff_left (by rintro rfl; simp at hhead)).symm
    · rw [hquoted '\'' rfl hhead hlast, LoneQuote, not_or]
      exact (and_iff_right (by rintro rfl; simp at hhead)).symm
  · refine iff_of_true (noPanic_ok _) fun hlone => h ?_
    rcases hlone with rfl | rfl
    · exact .inl ⟨rfl, rfl⟩
    · exact .inr ⟨rfl, rfl⟩

/-- The loop takes the value of the first line that starts with the key. -/
lemma stringLoop_eq (key : List Char) (lines : List (List Char)) :
    stringLoop key lines =
      match keyValue key lines with
      | some value => (unquote value).map some
      | none => .ok none := by
  induction lines with
  | nil => rfl
  | cons line lines ih =>
    rw [stringLoop, keyValue, List.findSome?_cons]
    cases afterKey key (trimChars line) with
    | some rest => rfl
    | none => exact ih

/-- **A value is read without a panic unless it is one quote.** -/
theorem noPanic_extractYamlString_iff :
    NoPanic (extractYamlString yaml key) ↔
      ∀ value ∈ keyValue key (textLines yaml), ¬ LoneQuote value := by
  rw [extractYamlString, stringLoop_eq]
  cases keyValue key (textLines yaml) with
  | none => simp
  | some value => simp [noPanic_unquote_iff]

/-- A truth value is read without a panic unless it is one quote. -/
theorem noPanic_extractYamlBool_iff {toLowercase : List Char → List Char} :
    NoPanic (extractYamlBool toLowercase yaml key) ↔
      ∀ value ∈ keyValue key (textLines yaml), ¬ LoneQuote value := by
  rw [extractYamlBool, noPanic_map_iff, noPanic_extractYamlString_iff]

/-- In a list, the items up to its end must not be one quote. -/
lemma noPanic_listLoop_true_iff :
    NoPanic (listLoop key true items lines) ↔
      ∀ item ∈ (lines.takeWhile isListLine).filterMap listItem, ¬ LoneQuote item := by
  induction lines generalizing items with
  | nil => simp [listLoop]
  | cons line lines ih =>
    cases hitem : Chars.stripPrefix "- ".toList (trimChars line) with
    | some rest =>
      have hsome : listItem line = some (trimChars rest) := by rw [listItem, hitem]; rfl
      have hline : isListLine line := by rw [isListLine, hsome]; rfl
      simp only [listLoop, if_true, hitem]
      rw [List.takeWhile_cons_of_pos hline, List.filterMap_cons_some hsome, List.forall_mem_cons,
        ← noPanic_unquote_iff, noPanic_bind_iff]
      constructor
      · rintro ⟨item, hok, hrest⟩
        exact ⟨⟨item, hok⟩, ih.1 hrest⟩
      · rintro ⟨⟨item, hok⟩, hrest⟩
        exact ⟨item, hok, ih.2 hrest⟩
    | none =>
      have hnone : listItem line = none := by rw [listItem, hitem]; rfl
      simp only [listLoop, if_true, hitem]
      split_ifs with hend
      · have hline : ¬ isListLine line := by simp [isListLine, hnone, hend.1, hend.2]
        rw [List.takeWhile_cons_of_neg hline]
        exact iff_of_true (noPanic_ok _) (by simp)
      · have hline : isListLine line := by
          rw [not_and_or, not_not, not_not] at hend
          rcases hend with hblank | hcomment
          · simp [isListLine, hblank]
          · simp [isListLine, hcomment]
        rw [List.takeWhile_cons_of_pos hline, List.filterMap_cons_none hnone, ih]

/-- Before a list, the items that stand under the key must not be one quote. -/
lemma noPanic_listLoop_false_iff :
    NoPanic (listLoop key false items lines) ↔ ∀ item ∈ listItems key lines, ¬ LoneQuote item := by
  induction lines with
  | nil => simp [listLoop, listItems]
  | cons line lines ih =>
    rw [listLoop, if_neg Bool.false_ne_true, listItems]
    cases hafter : afterKey key (trimChars line) with
    | none =>
      have hopens : opensList key line = false := by simp [opensList, hafter]
      rw [List.dropWhile_cons_of_pos (by simp [hopens])]
      exact ih
    | some rest =>
      by_cases hempty : trimChars rest = []
      · have hopens : opensList key line = true := by simp [opensList, hafter, hempty]
        rw [List.dropWhile_cons_of_neg (by simp [hopens])]
        simp [hempty, hafter, noPanic_listLoop_true_iff]
      · by_cases hinline : (trimChars rest).head? = some '['
        · have hopens : opensList key line = true := by simp [opensList, hafter, hinline]
          rw [List.dropWhile_cons_of_neg (by simp [hopens])]
          simp [hempty, hafter, hinline]
        · have hopens : opensList key line = false := by simp [opensList, hafter, hempty, hinline]
          rw [List.dropWhile_cons_of_pos (by simp [hopens])]
          simp only [hempty, hinline, if_false, decide_false]
          exact ih

/-- **A list is read without a panic unless one of its items is one quote.** -/
theorem noPanic_extractYamlList_iff :
    NoPanic (extractYamlList yaml key) ↔
      ∀ item ∈ listItems key (textLines yaml), ¬ LoneQuote item := noPanic_listLoop_false_iff

end

/-! ## Blocks -/

/-- The line opens a block of the key: nothing follows the key on it. -/
def isOpener (key line : List Char) : Bool := (afterKey key (trimEnd line)).any isBlankLine

/-- The loops of `strip_yaml_block`, in a block or not. -/
def stripLines (key : List Char) : Bool → List (List Char) → List (List Char)
  | _, [] => []
  | inBlock, line :: lines =>
    if inBlock ∧ (isBlankLine line ∨ startsWhite line) then stripLines key true lines
    else if startsWhite line then line :: stripLines key false lines
    else if isOpener key line then stripLines key true lines
    else line :: stripLines key false lines

/-- `strip_yaml_block`. -/
def stripYamlBlock (yaml key : List Char) : List Char :=
  ['\n'].intercalate (stripLines key false (textLines yaml))

/-- The bytes of white space at the front of a line. -/
def indentOf (line : List Char) : ℕ := byteLen line - byteLen (line.dropWhile isWhiteSpace)

/-- The loop over the lines of a block. -/
def blockLines : Option ℕ → List (List Char) → Except Panic (List (List Char))
  | _, [] => .ok []
  | indent, next :: lines =>
    if isBlankLine next then (blockLines indent lines).map ([] :: ·)
    else
      let thisIndent := indentOf next
      if thisIndent = 0 then .ok []
      else
        let indent := indent.getD thisIndent
        if thisIndent < indent then .ok []
        else
          (sliceFrom next indent).bind fun line => (blockLines (some indent) lines).map (line :: ·)

/-- The loop of `extract_yaml_block`. -/
def extractBlockLoop (key : List Char) : List (List Char) → Except Panic (Option (List Char))
  | [] => .ok none
  | line :: lines =>
    if startsWhite line then extractBlockLoop key lines
    else
      match afterKey key (trimEnd line) with
      | none => extractBlockLoop key lines
      | some rest =>
        if ¬ isBlankLine rest then .ok none
        else
          (blockLines none lines).map fun block =>
            if block.all isBlankLine then none else some (['\n'].intercalate block)

/-- `extract_yaml_block`. -/
def extractYamlBlock (yaml key : List Char) : Except Panic (Option (List Char)) :=
  extractBlockLoop key (textLines yaml)

end MyClaw
