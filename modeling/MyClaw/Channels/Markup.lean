import Mathlib.Data.List.Nodup
import MyClaw.Channels.Fences

set_option autoImplicit false

/-!
# Inline markers, links and tables

What the splitter of long messages keeps whole, or repeats on both sides of a cut: markers of bold,
struck-out and code text, links, and the head of a table (`channels/message/chunking.rs`).

## Main definitions

* `openInlineMarkers` — the inline markers open at a position of a text.
* `linkStartBefore` — the beginning of the link that a position lies in.
* `openTableHeader` — the head of the table that continues after a chunk.

## Main results

* `MarkersPlaced.openInlineMarkers` — no marker is open twice.
* `MarkersPlaced.measure_tokens_le` — the tokens of the open markers fit the reserve.

## Implementation notes

Characters are read from the list that is left of the text, with the position of its first one. The
loop of the table search keeps its header and its delimiter in one option, which is its flag too.
-/

namespace MyClaw

/-- `Marker`. -/
inductive Marker
  | bold
  | strike
  | code
  deriving DecidableEq

/-- `token`. -/
def Marker.token : Marker → List Char
  | .bold => "**".toList
  | .strike => "~~".toList
  | .code => "`".toList

/-- The tokens of a list of markers. -/
def markerTokens (markers : List Marker) : List Char := markers.flatMap Marker.token

/-- `inline_reserve`. -/
def inlineReserve (unit : LenUnit) : ℕ := measure "**~~`".toList unit

/-- `toggle_marker`. -/
def toggleMarker (stack : List Marker) (m : Marker) : List Marker :=
  if m ∈ stack then (stack.reverse.erase m).reverse else stack ++ [m]

/-- The loop of `open_inline_markers`, from the position `i` on. -/
def inlineMarkersFrom (regions : List FenceRegion) (upto : ℕ) :
    ℕ → List Marker → List Char → List Marker
  | _, stack, [] => stack
  | i, stack, c :: rest =>
    if upto ≤ i then stack
    else if (regionContaining regions i).isSome then inlineMarkersFrom regions upto (i + 1) stack rest
    else if stack.getLast? = some .code then
      -- inside code only the backtick that closes it counts
      inlineMarkersFrom regions upto (i + 1) (if c = '`' then stack.dropLast else stack) rest
    else
      match c, rest with
      | '~', '~' :: rest => inlineMarkersFrom regions upto (i + 2) (toggleMarker stack .strike) rest
      | '*', '*' :: rest => inlineMarkersFrom regions upto (i + 2) (toggleMarker stack .bold) rest
      | '`', rest => inlineMarkersFrom regions upto (i + 1) (stack ++ [.code]) rest
      | _, rest => inlineMarkersFrom regions upto (i + 1) stack rest

/-- `open_inline_markers`. -/
def openInlineMarkers (chars : List Char) (upto : ℕ) (start : List Marker)
    (regions : List FenceRegion) : List Marker :=
  inlineMarkersFrom regions upto 0 start chars

/-- `LINK_SCAN_WINDOW`. -/
def linkScanWindow : ℕ := 4096

/-- `parse_link_end`. -/
def parseLinkEnd (chars : List Char) (start : ℕ) : Option ℕ :=
  let text := chars.drop (start + 1)
  let label := text.takeWhile fun c => c ≠ ']' && c ≠ '\n'
  match text.drop label.length with
  | ']' :: '(' :: text =>
    let url := text.takeWhile fun c => c ≠ ')' && c ≠ '\n'
    match text.drop url.length with
    | ')' :: _ => some (start + 1 + label.length + 2 + url.length + 1)
    | _ => none
  | _ => none

/-- The loop of `link_start_before`, from the position before `p` down to `lo`. -/
def linkStartFrom (chars : List Char) (index lo : ℕ) : ℕ → Option ℕ
  | 0 => none
  | p + 1 =>
    if p + 1 ≤ lo then none
    else if chars[p]? = some '[' ∧ (parseLinkEnd chars p).any (p < index && index < ·) then some p
    else linkStartFrom chars index lo p

/-- `link_start_before`. -/
def linkStartBefore (chars : List Char) (index : ℕ) : Option ℕ :=
  linkStartFrom chars index (index - linkScanWindow) (min index chars.length)

/-- `str::lines`. -/
def textLines (text : List Char) : List (List Char) :=
  let (lines, rest) := Chars.cutLines text
  let stripReturn (line : List Char) :=
    if line.getLast? = some '\r' then line.dropLast else line
  lines.map stripReturn ++ if rest = [] then [] else [rest]

/-- `is_table_row`. -/
def isTableRow (line : List Char) : Bool :=
  let t := trimChars line
  t ≠ [] && t.contains '|'

/-- `is_table_delimiter`. -/
def isTableDelimiter (line : List Char) : Bool :=
  let t := trimChars line
  t ≠ [] && t.all (fun c => c = '-' || c = '|' || c = ':' || c = ' ' || c = '\t') && t.contains '-'

/-- The loop of `open_table_header`: the table that the lines read end in, and the last line read. -/
def tableScan : Option (List Char × List Char) → Option (List Char) → List (List Char) →
    Option (List Char × List Char)
  | table, _, [] => table
  | table, prev, line :: lines =>
    let table := table.filter fun _ => isTableRow line
    let table :=
      match table, prev with
      | some table, _ => some table
      | none, some p => if isTableDelimiter line ∧ isTableRow p then some (p, line) else none
      | none, none => none
    tableScan table (some line) lines

/-- `open_table_header`. -/
def openTableHeader (chunk rest : List Char) : Option (List Char) :=
  match (textLines rest).find? (trimChars · ≠ []) with
  | none => none
  | some next =>
    if !isTableRow next then none
    else
      (tableScan none none (textLines chunk)).map fun (header, delimiter) =>
        header ++ ['\n'] ++ delimiter ++ ['\n']

/-! ## Open markers -/

/-- No marker is open twice, and nothing is open inside code. -/
structure MarkersPlaced (stack : List Marker) : Prop where
  nodup : stack.Nodup
  code_last : .code ∈ stack → stack.getLast? = some .code

namespace MarkersPlaced

lemma nil : MarkersPlaced [] := ⟨List.nodup_nil, by simp⟩

/-- A marker other than code is opened or closed outside code. -/
lemma toggle {stack : List Marker} (h : MarkersPlaced stack) (hout : stack.getLast? ≠ some .code)
    {m : Marker} (hm : m ≠ .code) : MarkersPlaced (toggleMarker stack m) := by
  have hcode : .code ∉ stack := fun hmem => hout (h.code_last hmem)
  unfold toggleMarker
  split
  · refine ⟨List.nodup_reverse.2 ((List.nodup_reverse.2 h.nodup).erase m), fun hmem => ?_⟩
    have hmem := List.mem_of_mem_erase (List.mem_reverse.1 hmem)
    exact absurd (List.mem_reverse.1 hmem) hcode
  · next hnew =>
    refine ⟨h.nodup.append (List.nodup_singleton m) (by simpa using hnew), fun hmem => ?_⟩
    rcases List.mem_append.1 hmem with hmem | hmem
    · exact absurd hmem hcode
    · exact absurd (List.mem_singleton.1 hmem).symm hm

lemma push_code {stack : List Marker} (h : MarkersPlaced stack)
    (hout : stack.getLast? ≠ some .code) : MarkersPlaced (stack ++ [.code]) := by
  have hcode : .code ∉ stack := fun hmem => hout (h.code_last hmem)
  exact ⟨h.nodup.append (List.nodup_singleton _) (by simpa using hcode), fun _ => by simp⟩

lemma pop_code {stack : List Marker} (h : MarkersPlaced stack)
    (hin : stack.getLast? = some .code) : MarkersPlaced stack.dropLast := by
  obtain ⟨before, rfl⟩ := List.getLast?_eq_some_iff.1 hin
  have hnodup := List.nodup_append.1 h.nodup
  rw [List.dropLast_concat]
  exact ⟨hnodup.1, fun hmem => absurd rfl (hnodup.2.2 _ hmem _ (List.mem_singleton.2 rfl))⟩

lemma inlineMarkersFrom (regions : List FenceRegion) (upto i : ℕ) (stack : List Marker)
    (chars : List Char) (h : MarkersPlaced stack) :
    MarkersPlaced (inlineMarkersFrom regions upto i stack chars) := by
  fun_induction MyClaw.inlineMarkersFrom regions upto i stack chars with
  | case1 => exact h
  | case2 => exact h
  | case3 _ _ _ _ _ _ ih => exact ih h
  | case4 i stack c rest _ _ hin ih =>
    refine ih ?_
    split
    · exact h.pop_code hin
    · exact h
  | case5 _ _ _ _ hout _ ih => exact ih (h.toggle hout (by decide))
  | case6 _ _ _ _ hout _ ih => exact ih (h.toggle hout (by decide))
  | case7 _ _ _ _ hout _ ih => exact ih (h.push_code hout)
  | case8 => rename_i ih; exact ih h

/-- **No marker is open twice** at a position of a text. -/
theorem openInlineMarkers {start : List Marker} (h : MarkersPlaced start) (chars : List Char)
    (upto : ℕ) (regions : List FenceRegion) :
    MarkersPlaced (openInlineMarkers chars upto start regions) :=
  inlineMarkersFrom regions upto 0 start chars h

end MarkersPlaced

lemma inlineReserve_eq (unit : LenUnit) : inlineReserve unit = 5 := by
  cases unit <;> decide

lemma measure_markerTokens (markers : List Marker) (unit : LenUnit) :
    measure (markerTokens markers) unit =
      2 * markers.count .bold + 2 * markers.count .strike + markers.count .code := by
  induction markers with
  | nil => rfl
  | cons m markers ih =>
    have htoken : measure m.token unit = if m = .code then 1 else 2 := by
      cases m <;> cases unit <;> decide
    have hcons : markerTokens (m :: markers) = m.token ++ markerTokens markers := rfl
    rw [hcons, measure_append, ih, htoken]
    cases m <;> simp <;> omega

lemma measure_markerTokens_reverse (markers : List Marker) (unit : LenUnit) :
    measure (markerTokens markers.reverse) unit = measure (markerTokens markers) unit := by
  simp [measure_markerTokens]

/-- **The tokens of the open markers fit the reserve**. -/
theorem MarkersPlaced.measure_tokens_le {markers : List Marker} (h : MarkersPlaced markers)
    (unit : LenUnit) : measure (markerTokens markers) unit ≤ inlineReserve unit := by
  have hcount := List.nodup_iff_count_le_one.1 h.nodup
  have hbold := hcount .bold
  have hstrike := hcount .strike
  have hcode := hcount .code
  rw [measure_markerTokens, inlineReserve_eq]
  omega

/-! ## Links -/

lemma linkStartFrom_lt {chars : List Char} {index lo p a : ℕ}
    (h : linkStartFrom chars index lo p = some a) : a < p := by
  induction p with
  | zero => cases h
  | succ p ih =>
    unfold linkStartFrom at h
    split at h
    · cases h
    · split at h
      · cases h
        exact Nat.lt_succ_self _
      · exact Nat.lt_succ_of_lt (ih h)

/-- The link that a position lies in begins before the position. -/
lemma linkStartBefore_lt {chars : List Char} {index a : ℕ}
    (h : linkStartBefore chars index = some a) : a < index :=
  (linkStartFrom_lt h).trans_le (Nat.min_le_left _ _)

end MyClaw
