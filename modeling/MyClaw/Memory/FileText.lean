import MyClaw.Lib.Holes
import MyClaw.Lib.LineScan
import MyClaw.Memory.Manage

set_option autoImplicit false

/-!
# The text of a memory file

How `memory_manage` writes a file (`build_frontmatter` in `tools/memory_tool/format.rs`) and how
`parse_memory_file` (`memory/mod.rs`) reads it again.  The values are written as JSON texts, but read by
their first colon, without their quotes and, for the tags, between the commas.

## Main definitions

* `MemoryValues`, `buildFrontmatter`, `MemoryValues.fileText` — what is written.
* `parseMemoryText` — what is read.

## Main results

* `parseMemoryText_fileText` — a file that was written is read as the values without their
  quotes, the escapes staying in them.

## Implementation notes

Reading the file from the disk is left out; the links of an entry are those of its content.
-/

namespace MyClaw

/-! ## What is written -/

/-- The values of an entry, its content apart. -/
structure MemoryValues where
  name : String
  description : String
  tags : List String
  memType : String
  inject : String
  createdAt : String
  updatedAt : Option String
  scope : MemoryScope
  userId : Option String

/-- `build_frontmatter`. -/
def buildFrontmatter (v : MemoryValues) : List Char :=
  "---\nname: ".toList ++ yamlScalar v.name ++
    "\nscope: ".toList ++ v.scope.text.toList ++
    "\ntype: ".toList ++ yamlScalar v.memType ++
    "\ninject: ".toList ++ v.inject.toList ++
    "\ncreated_at: ".toList ++ yamlScalar v.createdAt ++
    (if v.scope = .user then
      match v.userId with
      | some uid => "\nuser_id: ".toList ++ yamlScalar uid
      | none => "\nuser_id: unknown".toList
    else []) ++
    "\ndescription: ".toList ++ yamlScalar v.description ++
    (match v.updatedAt with
      | some ua => "\nupdated_at: ".toList ++ yamlScalar ua
      | none => []) ++
    (if v.tags = [] then []
    else "\ntags: [".toList ++ [',', ' '].intercalate (v.tags.map yamlScalar) ++ [']']) ++
    "\n---\n\n".toList

/-- The file of an entry. -/
def MemoryValues.fileText (v : MemoryValues) (content : String) : List Char :=
  buildFrontmatter v ++ content.toList

/-! ## What is read -/

/-- The values that the lines of a frontmatter give. -/
structure FrontValues where
  name : Option String := none
  scope : Option String := none
  userId : Option String := none
  description : Option String := none
  summary : Option String := none
  abstractVal : Option String := none
  tags : List String := []
  memType : Option String := none
  inject : Option String := none
  createdAt : Option String := none
  updatedAt : Option String := none

/-- A value under its key. -/
def FrontValues.set (front : FrontValues) (key : String) (value : List Char) : FrontValues :=
  let text := some (String.ofList value)
  if key = "name" then { front with name := text }
  else if key = "scope" then { front with scope := text }
  else if key = "user_id" then { front with userId := text }
  else if key = "description" then { front with description := text }
  else if key = "summary" then { front with summary := text }
  else if key = "abstract" then { front with abstractVal := text }
  else if key = "tags" then { front with tags := parseTags value }
  else if key = "type" then { front with memType := text }
  else if key = "inject" then { front with inject := text }
  else if key = "created_at" then { front with createdAt := text }
  else if key = "updated_at" then { front with updatedAt := text }
  else front

/-- One line of a frontmatter. -/
def readFrontLine (front : FrontValues) (line : List Char) : FrontValues :=
  match splitOnce ':' (trimChars line) with
  | some (key, value) =>
    front.set (String.ofList (trimChars key)) (stripYamlQuotes (trimChars value))
  | none => front

/-- `parse_memory_file`, of the text of the file. -/
def parseMemoryText (raw : List Char) : Option MemoryFields :=
  let trimmed := trimChars raw
  if ¬ "---".toList <+: trimmed then none
  else
    let rest := (trimmed.drop 3).dropWhile fun c => c = '\r' || c = '\n'
    match Holes.findText "\n---".toList rest with
    | none => none
    | some stop =>
      let front := (textLines (rest.take stop)).foldl readFrontLine {}
      let content := String.ofList (trimChars (rest.drop (stop + 4)))
      match front.name, front.memType with
      | some name, some memType =>
        some
          { name := name
            scope := front.scope
            userId := front.userId
            memType := memType
            inject := front.inject.getD "search"
            description := ((front.description.or front.summary).or front.abstractVal).getD ""
            tags := front.tags
            createdAt := front.createdAt.getD ""
            updatedAt := front.updatedAt
            content := content }
      | _, _ => none

/-! ## Trimming -/

section Trim

variable {a b : List Char}

/-- What is around a text that begins and ends with other characters than white space. -/
lemma trimChars_append_right {c d : Char} (hc : isWhiteSpace c = false) (hd : isWhiteSpace d = false) :
    trimChars (c :: a ++ [d] ++ b) = c :: a ++ [d] ++ trimEnd b := by
  have hfront : (c :: a ++ [d] ++ b).dropWhile isWhiteSpace = c :: a ++ [d] ++ b :=
    List.dropWhile_cons_of_neg (by simp [hc])
  rw [trimChars, hfront, List.reverse_append, List.dropWhile_append]
  by_cases hb : (b.reverse.dropWhile isWhiteSpace).isEmpty
  · have hrest : (c :: a ++ [d]).reverse.dropWhile isWhiteSpace = (c :: a ++ [d]).reverse := by
      rw [List.reverse_append]
      exact List.dropWhile_cons_of_neg (by simp [hd])
    rw [if_pos hb, hrest, List.reverse_reverse, trimEnd, List.isEmpty_iff.1 hb]
    simp
  · rw [if_neg hb, List.reverse_append, List.reverse_reverse]
    rfl

/-- White space in front does not matter. -/
lemma trimChars_white_append (h : a.all isWhiteSpace = true) :
    trimChars (a ++ b) = trimChars b := by
  rw [trimChars, List.dropWhile_append_of_pos (List.all_eq_true.1 h)]
  rfl

/-- White space at the end does not matter. -/
lemma trimChars_append_white (h : b.all isWhiteSpace = true) :
    trimChars (a ++ b) = trimChars a := by
  rw [List.all_eq_true] at h
  have hb : b.dropWhile isWhiteSpace = [] := List.dropWhile_eq_nil_iff.2 h
  rw [trimChars, trimChars, List.dropWhile_append]
  split_ifs with hnil
  · rw [hb, List.isEmpty_iff.1 hnil]
  · rw [List.reverse_append, List.dropWhile_append_of_pos fun c hc => h c (List.mem_reverse.1 hc)]

/-- What is left of a text when the white space at its end is removed. -/
lemma trimChars_trimEnd (text : List Char) : trimChars (trimEnd text) = trimChars text := by
  have hsplit : text = trimEnd text ++ (text.reverse.takeWhile isWhiteSpace).reverse := by
    rw [trimEnd, ← List.reverse_append, List.takeWhile_append_dropWhile, List.reverse_reverse]
  conv_rhs => rw [hsplit]
  refine (trimChars_append_white (List.all_eq_true.2 fun c hc => ?_)).symm
  simpa using List.mem_takeWhile_imp (List.mem_reverse.1 hc)

end Trim

/-! ## Lines -/

/-- A line of a frontmatter. -/
def frontLine (key : String) (value : List Char) : List Char := key.toList ++ ':' :: ' ' :: value

/-- The lines of a frontmatter. -/
def frontLines (v : MemoryValues) : List (List Char) :=
  [frontLine "name" (yamlScalar v.name), frontLine "scope" v.scope.text.toList,
    frontLine "type" (yamlScalar v.memType), frontLine "inject" v.inject.toList,
    frontLine "created_at" (yamlScalar v.createdAt)] ++
  (if v.scope = .user then [frontLine "user_id" ((v.userId.map yamlScalar).getD "unknown".toList)]
    else []) ++
  [frontLine "description" (yamlScalar v.description)] ++
  (match v.updatedAt with
    | some ua => [frontLine "updated_at" (yamlScalar ua)]
    | none => []) ++
  (if v.tags = [] then []
    else [frontLine "tags" ('[' :: [',', ' '].intercalate (v.tags.map yamlScalar) ++ [']'])])

/-- The frontmatter, by its lines. -/
lemma buildFrontmatter_eq (v : MemoryValues) : buildFrontmatter v =
    "---\n".toList ++ ['\n'].intercalate (frontLines v) ++ "\n---\n\n".toList := by
  obtain ⟨name, description, tags, memType, inject, createdAt, updatedAt, scope, userId⟩ := v
  unfold buildFrontmatter frontLines frontLine
  dsimp only
  cases scope <;> cases userId <;> cases updatedAt <;> by_cases ht : tags = [] <;>
    simp [ht, List.intercalate_cons_cons]

/-- A key of a frontmatter: a text without a colon and without white space at its ends. -/
structure IsFrontKey (key : String) : Prop where
  starts : ∃ c rest, key.toList = c :: rest ∧ isWhiteSpace c = false
  colon : ':' ∉ key.toList
  trimmed : trimChars key.toList = key.toList

/-- A line gives its value, whatever white space is around that. -/
lemma readFrontLine_frontLine (front : FrontValues) {key : String} (h : IsFrontKey key)
    (value : List Char) :
    readFrontLine front (frontLine key value) = front.set key (stripYamlQuotes (trimChars value)) := by
  obtain ⟨c, rest, hkey, hc⟩ := h.starts
  have hline : frontLine key value = c :: rest ++ [':'] ++ ' ' :: value := by
    rw [frontLine, hkey]
    simp
  have hspace : trimChars (' ' :: value) = trimChars value :=
    trimChars_white_append (a := [' ']) rfl
  rw [readFrontLine, hline, trimChars_append_right hc (by decide), List.append_assoc,
    List.singleton_append, ← hkey, splitOnce_append h.colon]
  dsimp only
  rw [h.trimmed, String.ofList_toList, trimChars_trimEnd, hspace]

/-- A carriage return at the end of a line does not matter. -/
lemma readFrontLine_stripReturn (front : FrontValues) (line : List Char) :
    readFrontLine front (if line.getLast? = some '\r' then line.dropLast else line) =
      readFrontLine front line := by
  split_ifs with h
  · obtain ⟨before, rfl⟩ := List.getLast?_eq_some_iff.1 h
    rw [List.dropLast_concat, readFrontLine, readFrontLine, trimChars_append_white rfl]
  · rfl

/-- The first line of a text. -/
lemma textLines_append_newline {line text : List Char} (h : '\n' ∉ line) :
    textLines (line ++ '\n' :: text) =
      (if line.getLast? = some '\r' then line.dropLast else line) :: textLines text := by
  rw [textLines, Chars.cutLines_append_newline h]
  rfl

/-- A text without a newline. -/
lemma textLines_of_notMem {text : List Char} (h : '\n' ∉ text) :
    textLines text = if text = [] then [] else [text] := by
  rw [textLines, Chars.cutLines_of_notMem h]
  rfl

/-- The lines of a frontmatter are read one by one. -/
lemma foldl_readFrontLine (front : FrontValues) {lines : List (List Char)}
    (h : ∀ line ∈ lines, '\n' ∉ line) :
    (textLines (['\n'].intercalate lines)).foldl readFrontLine front =
      lines.foldl readFrontLine front := by
  induction lines generalizing front with
  | nil => rfl
  | cons line lines ih =>
    have hline := h line List.mem_cons_self
    cases lines with
    | nil =>
      rw [List.intercalate_singleton, textLines_of_notMem hline]
      split_ifs with hnil
      · rw [hnil]
        rfl
      · rfl
    | cons next lines =>
      rw [List.intercalate_cons_cons, List.append_assoc, List.singleton_append,
        textLines_append_newline hline, List.foldl_cons, readFrontLine_stripReturn, List.foldl_cons]
      exact ih _ fun l hl => h l (List.mem_cons_of_mem _ hl)

/-! ## A file that was written -/

/-- A hexadecimal digit. -/
lemma digitChar_mem {n : ℕ} (h : n < 16) : Nat.digitChar n ∈ "0123456789abcdef".toList :=
  (by decide : ∀ m < 16, Nat.digitChar m ∈ "0123456789abcdef".toList) n h

/-- What an escape is made of. -/
def escapeAlphabet : List Char := "\"\\nrtbfu".toList ++ "0123456789abcdef".toList

/-- A character as it is written: itself, or an escape. -/
lemma escapeChar_cases (c : Char) :
    (escapeChar c = [c] ∧ c ≠ '"' ∧ c ≠ '\\' ∧ 32 ≤ c.toNat) ∨
      (2 ≤ (escapeChar c).length ∧ escapeChar c ⊆ escapeAlphabet ∧
        (c = '"' ∨ c = '\\' ∨ c.toNat < 32)) := by
  unfold escapeChar
  split_ifs with hquote hslash hnewline hreturn htab hback hfeed hlow
  · exact .inr ⟨by decide, by decide, .inl hquote⟩
  · exact .inr ⟨by decide, by decide, .inr (.inl hslash)⟩
  · exact .inr ⟨by decide, by decide, .inr (.inr (by rw [hnewline]; decide))⟩
  · exact .inr ⟨by decide, by decide, .inr (.inr (by rw [hreturn]; decide))⟩
  · exact .inr ⟨by decide, by decide, .inr (.inr (by rw [htab]; decide))⟩
  · exact .inr ⟨by decide, by decide, .inr (.inr (by omega))⟩
  · exact .inr ⟨by decide, by decide, .inr (.inr (by omega))⟩
  · refine .inr ⟨by simp, List.append_subset.2 ⟨by decide, ?_⟩, .inr (.inr hlow)⟩
    have hhigh := digitChar_mem (by omega : c.toNat / 16 < 16)
    have hdigit := digitChar_mem (by omega : c.toNat % 16 < 16)
    intro d hd
    refine List.mem_append_right _ ?_
    rcases List.mem_cons.1 hd with rfl | hd
    · exact hhigh
    · exact List.mem_singleton.1 hd ▸ hdigit
  · exact .inl ⟨rfl, hquote, hslash, by omega⟩

/-- An escaped character is no newline. -/
lemma newline_notMem_escapeChar (c : Char) : '\n' ∉ escapeChar c := by
  intro h
  rcases escapeChar_cases c with ⟨heq, -, -, hlow⟩ | ⟨-, hsub, -⟩
  · rw [heq, List.mem_singleton] at h
    rw [← h] at hlow
    exact absurd hlow (by decide)
  · exact absurd (hsub h) (by decide)

/-- A value that is written has no newline. -/
lemma newline_notMem_yamlScalar (value : String) : '\n' ∉ yamlScalar value := by
  rw [yamlScalar, List.cons_append, List.mem_cons, List.mem_append, List.mem_flatMap]
  rintro (h | ⟨c, -, h⟩ | h)
  · exact absurd h (by decide)
  · exact newline_notMem_escapeChar c h
  · exact absurd (List.mem_singleton.1 h) (by decide)

/-- The quotes around a value stay outermost. -/
lemma trimChars_yamlScalar (value : String) : trimChars (yamlScalar value) = yamlScalar value := by
  have h := trimChars_append_right (a := value.toList.flatMap escapeChar) (b := []) (c := '"')
    (d := '"') (by decide) (by decide)
  simpa [yamlScalar, trimEnd] using h

/-- The tags of an entry, as they are written. -/
def tagsText (tags : List String) : List Char :=
  '[' :: [',', ' '].intercalate (tags.map yamlScalar) ++ [']']

/-- The values as they are read again. -/
def MemoryValues.readFields (v : MemoryValues) (content : String) : MemoryFields where
  name := reread v.name
  scope := some v.scope.text
  userId := if v.scope = .user then some ((v.userId.map reread).getD "unknown") else none
  memType := reread v.memType
  inject := String.ofList (stripYamlQuotes (trimChars v.inject.toList))
  description := reread v.description
  tags := if v.tags = [] then [] else parseTags (tagsText v.tags)
  createdAt := reread v.createdAt
  updatedAt := v.updatedAt.map reread
  content := String.ofList (trimChars content.toList)

/-- The keys that are written. -/
def frontKeys : List String :=
  ["name", "scope", "type", "inject", "created_at", "user_id", "description", "updated_at", "tags"]

/-- A line that is written gives its value under its key. -/
lemma readFrontLine_of_mem (front : FrontValues) {key : String} (h : key ∈ frontKeys)
    (value : List Char) :
    readFrontLine front (frontLine key value) = front.set key (stripYamlQuotes (trimChars value)) := by
  refine readFrontLine_frontLine front ?_ value
  simp only [frontKeys, List.mem_cons, List.not_mem_nil, or_false] at h
  rcases h with rfl | rfl | rfl | rfl | rfl | rfl | rfl | rfl | rfl <;>
    exact ⟨⟨_, _, rfl, by decide⟩, by decide, by decide⟩

/-- The brackets around the tags stay outermost. -/
lemma trimChars_tagsText (tags : List String) : trimChars (tagsText tags) = tagsText tags := by
  have h := trimChars_append_right (a := [',', ' '].intercalate (tags.map yamlScalar)) (b := [])
    (c := '[') (d := ']') (by decide) (by decide)
  simpa [tagsText, trimEnd] using h

/-- Tags that are written have no newline. -/
lemma newline_notMem_tagsText (tags : List String) : '\n' ∉ tagsText tags := by
  have hscalars : '\n' ∉ [',', ' '].intercalate (tags.map yamlScalar) := by
    induction tags with
    | nil => exact List.not_mem_nil
    | cons tag tags ih =>
      cases tags with
      | nil => simpa using newline_notMem_yamlScalar tag
      | cons next tags =>
        rw [List.map_cons, List.map_cons, List.intercalate_cons_cons, ← List.map_cons, List.mem_append,
          List.mem_append]
        rintro ((h | h) | h)
        · exact newline_notMem_yamlScalar tag h
        · exact absurd h (by decide)
        · exact ih h
  rw [tagsText, List.cons_append, List.mem_cons, List.mem_append]
  rintro (h | h | h)
  · exact absurd h (by decide)
  · exact hscalars h
  · exact absurd (List.mem_singleton.1 h) (by decide)

/-- The values that the lines of a frontmatter give. -/
lemma foldl_frontLines (v : MemoryValues) :
    (frontLines v).foldl readFrontLine {} =
      { name := some (reread v.name)
        scope := some v.scope.text
        userId := if v.scope = .user then some ((v.userId.map reread).getD "unknown") else none
        description := some (reread v.description)
        tags := if v.tags = [] then [] else parseTags (tagsText v.tags)
        memType := some (reread v.memType)
        inject := some (String.ofList (stripYamlQuotes (trimChars v.inject.toList)))
        createdAt := some (reread v.createdAt)
        updatedAt := v.updatedAt.map reread } := by
  have hscope : stripYamlQuotes (trimChars v.scope.text.toList) = v.scope.text.toList := by
    cases v.scope <;> decide
  have hunknown : stripYamlQuotes (trimChars "unknown".toList) = "unknown".toList := by decide
  have htags : stripYamlQuotes (tagsText v.tags) = tagsText v.tags := by
    unfold stripYamlQuotes tagsText
    rw [if_neg (by simp)]
  have hcore (front : FrontValues) :
      [frontLine "name" (yamlScalar v.name), frontLine "scope" v.scope.text.toList,
        frontLine "type" (yamlScalar v.memType), frontLine "inject" v.inject.toList,
        frontLine "created_at" (yamlScalar v.createdAt)].foldl readFrontLine front =
      { front with
        name := some (reread v.name)
        scope := some v.scope.text
        memType := some (reread v.memType)
        inject := some (String.ofList (stripYamlQuotes (trimChars v.inject.toList)))
        createdAt := some (reread v.createdAt) } := by
    simp only [List.foldl_cons, List.foldl_nil]
    rw [readFrontLine_of_mem _ (by decide), readFrontLine_of_mem _ (by decide),
      readFrontLine_of_mem _ (by decide), readFrontLine_of_mem _ (by decide),
      readFrontLine_of_mem _ (by decide), hscope, trimChars_yamlScalar, trimChars_yamlScalar,
      trimChars_yamlScalar]
    simp [FrontValues.set, reread]
  have huser (front : FrontValues) (hnone : front.userId = none) :
      (if v.scope = .user then [frontLine "user_id" ((v.userId.map yamlScalar).getD "unknown".toList)]
        else []).foldl readFrontLine front =
      { front with
        userId := if v.scope = .user then some ((v.userId.map reread).getD "unknown") else none } := by
    split_ifs
    · rw [List.foldl_cons, List.foldl_nil, readFrontLine_of_mem _ (by decide)]
      cases v.userId with
      | none => rw [Option.map_none, Option.getD_none, hunknown]; rfl
      | some uid => rw [Option.map_some, Option.getD_some, trimChars_yamlScalar]; rfl
    · rw [← hnone]
      rfl
  have hupdated (front : FrontValues) (hnone : front.updatedAt = none) :
      (match v.updatedAt with
        | some ua => [frontLine "updated_at" (yamlScalar ua)]
        | none => []).foldl readFrontLine front =
      { front with updatedAt := v.updatedAt.map reread } := by
    cases v.updatedAt with
    | none =>
      obtain ⟨⟩ := front
      subst hnone
      rfl
    | some ua =>
      rw [List.foldl_cons, List.foldl_nil, readFrontLine_of_mem _ (by decide), trimChars_yamlScalar]
      rfl
  have htag (front : FrontValues) (hnil : front.tags = []) :
      (if v.tags = [] then [] else [frontLine "tags" (tagsText v.tags)]).foldl readFrontLine front =
        { front with tags := if v.tags = [] then [] else parseTags (tagsText v.tags) } := by
    split_ifs
    · rw [← hnil]
      rfl
    · rw [List.foldl_cons, List.foldl_nil, readFrontLine_of_mem _ (by decide), trimChars_tagsText,
        htags]
      rfl
  have hdescription (front : FrontValues) :
      [frontLine "description" (yamlScalar v.description)].foldl readFrontLine front =
        { front with description := some (reread v.description) } := by
    rw [List.foldl_cons, List.foldl_nil, readFrontLine_of_mem _ (by decide), trimChars_yamlScalar]
    rfl
  rw [frontLines, List.foldl_append, List.foldl_append, List.foldl_append, List.foldl_append, hcore,
    huser _ rfl, hdescription, hupdated _ rfl, ← tagsText, htag _ rfl]

/-- A line of a frontmatter has a key and a value on one line. -/
lemma mem_frontLines {v : MemoryValues} (h : '\n' ∉ v.inject.toList) :
    ∀ line ∈ frontLines v, ∃ key ∈ frontKeys, ∃ value, line = frontLine key value ∧ '\n' ∉ value := by
  intro line hline
  rw [frontLines, List.mem_append, List.mem_append, List.mem_append, List.mem_append] at hline
  rcases hline with (((hline | hline) | hline) | hline) | hline
  · simp only [List.mem_cons, List.not_mem_nil, or_false] at hline
    have hscope : '\n' ∉ v.scope.text.toList := by cases v.scope <;> decide
    rcases hline with rfl | rfl | rfl | rfl | rfl
    · exact ⟨_, by decide, _, rfl, newline_notMem_yamlScalar _⟩
    · exact ⟨_, by decide, _, rfl, hscope⟩
    · exact ⟨_, by decide, _, rfl, newline_notMem_yamlScalar _⟩
    · exact ⟨_, by decide, _, rfl, h⟩
    · exact ⟨_, by decide, _, rfl, newline_notMem_yamlScalar _⟩
  · split_ifs at hline
    · refine ⟨_, by decide, _, List.mem_singleton.1 hline, ?_⟩
      cases v.userId with
      | none => decide
      | some uid => exact newline_notMem_yamlScalar uid
    · exact absurd hline List.not_mem_nil
  · exact ⟨_, by decide, _, List.mem_singleton.1 hline, newline_notMem_yamlScalar _⟩
  · cases hua : v.updatedAt with
    | none =>
      rw [hua] at hline
      exact absurd hline List.not_mem_nil
    | some ua =>
      rw [hua] at hline
      exact ⟨_, by decide, _, List.mem_singleton.1 hline, newline_notMem_yamlScalar _⟩
  · split_ifs at hline
    · exact absurd hline List.not_mem_nil
    · exact ⟨_, by decide, _, List.mem_singleton.1 hline, newline_notMem_tagsText _⟩

/-- No line of a frontmatter has a newline. -/
lemma newline_notMem_frontLines {v : MemoryValues} (h : '\n' ∉ v.inject.toList) :
    ∀ line ∈ frontLines v, '\n' ∉ line := by
  intro line hline
  obtain ⟨key, hkey, value, rfl, hvalue⟩ := mem_frontLines h line hline
  have hkeys : ∀ k ∈ frontKeys, '\n' ∉ k.toList := by decide
  rw [frontLine, List.mem_append, List.mem_cons, List.mem_cons]
  rintro (hmem | hmem | hmem | hmem)
  · exact hkeys key hkey hmem
  · exact absurd hmem (by decide)
  · exact absurd hmem (by decide)
  · exact hvalue hmem

/-- Every line of a frontmatter starts with a letter. -/
lemma frontLines_start {v : MemoryValues} (h : '\n' ∉ v.inject.toList) :
    ∀ line ∈ frontLines v, ∃ c rest, line = c :: rest ∧ c ≠ '-' := by
  intro line hline
  obtain ⟨key, hkey, value, rfl, -⟩ := mem_frontLines h line hline
  have hkeys : ∀ k ∈ frontKeys, k.toList ≠ [] ∧ k.toList.head? ≠ some '-' := by decide
  obtain ⟨hnil, hhead⟩ := hkeys key hkey
  obtain ⟨c, rest, hrest⟩ := List.exists_cons_of_ne_nil hnil
  refine ⟨c, rest ++ ':' :: ' ' :: value, by rw [frontLine, hrest]; rfl, fun hc => hhead ?_⟩
  rw [hrest, hc]
  rfl

/-- **A file that was written** is read as the values without their quotes, whatever its content is. -/
theorem parseMemoryText_fileText {v : MemoryValues} (h : '\n' ∉ v.inject.toList) (content : String) :
    parseMemoryText (v.fileText content) = some (v.readFields content) := by
  have htrim : trimChars (v.fileText content) =
      "---".toList ++ '\n' :: (['\n'].intercalate (frontLines v) ++ "\n---".toList ++
        trimEnd ("\n\n".toList ++ content.toList)) := by
    have happ := trimChars_append_right (a := "--\n".toList ++ ['\n'].intercalate (frontLines v) ++
      "\n--".toList) (b := "\n\n".toList ++ content.toList) (c := '-') (d := '-') (by decide)
      (by decide)
    rw [MemoryValues.fileText, buildFrontmatter_eq]
    simpa using happ
  have hfind : Holes.findText "\n---".toList (['\n'].intercalate (frontLines v) ++ "\n---".toList ++
      trimEnd ("\n\n".toList ++ content.toList)) = some (['\n'].intercalate (frontLines v)).length :=
    Holes.findText_intercalate (newline_notMem_frontLines h) (frontLines_start h)
  have hdrop : ('\n' :: (['\n'].intercalate (frontLines v) ++ "\n---".toList ++
      trimEnd ("\n\n".toList ++ content.toList))).dropWhile (fun c => c = '\r' || c = '\n') =
        ['\n'].intercalate (frontLines v) ++ "\n---".toList ++
          trimEnd ("\n\n".toList ++ content.toList) := by
    rw [List.dropWhile_cons_of_pos (by decide)]
    obtain ⟨rest, hrest⟩ : ∃ rest, ['\n'].intercalate (frontLines v) = 'n' :: rest := ⟨_, rfl⟩
    rw [hrest]
    exact List.dropWhile_cons_of_neg (by decide)
  have hcontent : trimChars (trimEnd ("\n\n".toList ++ content.toList)) = trimChars content.toList := by
    rw [trimChars_trimEnd, trimChars_white_append rfl]
  have hthree (text : List Char) : ("---".toList ++ text).drop 3 = text := rfl
  rw [parseMemoryText]
  dsimp only
  rw [htrim, if_neg (not_not.2 (List.prefix_append _ _)), hthree, hdrop, hfind]
  dsimp only
  rw [List.append_assoc, List.take_left' rfl, foldl_readFrontLine _ (newline_notMem_frontLines h),
    foldl_frontLines, ← List.append_assoc, List.drop_left' (by simp), hcontent]
  rfl

end MyClaw
