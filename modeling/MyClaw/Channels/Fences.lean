import MyClaw.Lib.Chars
import MyClaw.Scheduler.Timing

set_option autoImplicit false

/-!
# Lengths and fenced regions of a message

The units in which a channel measures a message, and the regions of a text that lie between the lines
that open and close a block of code (`channels/message/chunking.rs`).

## Main definitions

* `measure` — the length of a text in a unit.
* `FenceCarry` — what is needed to close a block of code and to open it again.
* `scanFenceRegions` — the fenced regions of a text.

## Main results

* `scanFenceRegions_pairwise` — the regions follow one another.

## Implementation notes

Texts are lists of characters, and positions count characters, as in the source.
-/

namespace MyClaw

/-- `LenUnit`. -/
inductive LenUnit
  | codepoints
  | utf16Units
  | bytes

/-- `char_cost`. -/
def charCost (unit : LenUnit) (c : Char) : ℕ :=
  match unit with
  | .codepoints => 1
  | .utf16Units => if c.toNat < 0x10000 then 1 else 2
  | .bytes => c.utf8Size

/-- `measure`. -/
def measure (s : List Char) (unit : LenUnit) : ℕ := (s.map (charCost unit)).sum

/-- `trim_end`. -/
def trimEnd (s : List Char) : List Char := (s.reverse.dropWhile isWhiteSpace).reverse

/-- A blank or a tab. -/
def isBlankChar (c : Char) : Bool := c = ' ' || c = '\t'

/-- The text without blanks and tabs at its ends. -/
def trimBlanks (s : List Char) : List Char :=
  ((s.dropWhile isBlankChar).reverse.dropWhile isBlankChar).reverse

@[simp] lemma measure_nil (unit : LenUnit) : measure [] unit = 0 := rfl

@[simp] lemma measure_cons (c : Char) (s : List Char) (unit : LenUnit) :
    measure (c :: s) unit = charCost unit c + measure s unit := rfl

@[simp] lemma measure_append (s t : List Char) (unit : LenUnit) :
    measure (s ++ t) unit = measure s unit + measure t unit := by
  simp [measure]

lemma charCost_pos (unit : LenUnit) (c : Char) : 0 < charCost unit c := by
  cases unit with
  | codepoints => exact Nat.one_pos
  | utf16Units =>
    unfold charCost
    dsimp only
    split <;> omega
  | bytes => exact c.utf8Size_pos

/-- A part of a text is no longer than the text. -/
lemma measure_le_of_sublist {s t : List Char} (h : s.Sublist t) (unit : LenUnit) :
    measure s unit ≤ measure t unit := by
  induction h with
  | slnil => exact Nat.le_refl _
  | cons c _ ih => exact ih.trans (Nat.le_add_left _ _)
  | cons_cons c _ ih => exact Nat.add_le_add_left ih _

lemma trimEnd_isPrefix (s : List Char) : trimEnd s <+: s := by
  have h : s.reverse.dropWhile isWhiteSpace <:+ s.reverse := List.dropWhile_suffix _
  simpa [trimEnd] using List.reverse_prefix.2 h

lemma measure_trimEnd_le (s : List Char) (unit : LenUnit) :
    measure (trimEnd s) unit ≤ measure s unit :=
  measure_le_of_sublist (trimEnd_isPrefix s).sublist unit

/-! ## Fences -/

/-- `FenceCarry`. -/
structure FenceCarry where
  marker : Char
  len : ℕ
  info : List Char
  deriving DecidableEq

/-- `open_line`. -/
def FenceCarry.openLine (fc : FenceCarry) : List Char :=
  List.replicate fc.len fc.marker ++ fc.info ++ ['\n']

/-- `close_suffix`. -/
def FenceCarry.closeSuffix (fc : FenceCarry) : List Char :=
  '\n' :: List.replicate fc.len fc.marker

/-- `FenceLine`, with the text after the markers. -/
structure FenceLine where
  marker : Char
  len : ℕ
  rest : List Char
  isClosingCandidate : Bool

/-- `parse_fence_line`. -/
def parseFenceLine (line : List Char) : Option FenceLine :=
  let text := line.drop (min 3 (line.takeWhile (· = ' ')).length)
  match text with
  | [] => none
  | marker :: _ =>
    if marker ≠ '`' ∧ marker ≠ '~' then none
    else
      let len := (text.takeWhile (· = marker)).length
      if len < 3 then none
      else
        let rest := text.drop len
        let isClosingCandidate := rest.all isBlankChar
        if marker = '`' ∧ rest.contains '`' ∧ !isClosingCandidate then none
        else some { marker, len, rest, isClosingCandidate }

/-- `FenceRegion`; `end_` is its end. -/
structure FenceRegion where
  start : ℕ
  bodyStart : ℕ
  end_ : ℕ
  closed : Bool
  carry : FenceCarry
  deriving DecidableEq

/-- The carry of the line that opens a region. -/
def FenceLine.carry (fl : FenceLine) : FenceCarry :=
  { marker := fl.marker
    len := fl.len
    info := if fl.isClosingCandidate then [] else trimBlanks fl.rest }

/-- The line closes a region with this carry. -/
def FenceCarry.closedBy (carry : FenceCarry) (line : List Char) : Bool :=
  match parseFenceLine line with
  | some fl => fl.isClosingCandidate && fl.marker = carry.marker && carry.len ≤ fl.len
  | none => false

/-- The lines of a text; whether a newline ends each. -/
def fenceLines (text : List Char) : List (List Char × Bool) :=
  let (lines, rest) := Chars.cutLines text
  lines.map (·, true) ++ if rest = [] then [] else [(rest, false)]

/-- The loop of `scan_fence_regions`, from the position `i` on. -/
def scanLines : ℕ → Option (ℕ × ℕ × FenceCarry) → List (List Char × Bool) → List FenceRegion
  | i, some (start, bodyStart, carry), [] => [⟨start, bodyStart, i, false, carry⟩]
  | _, none, [] => []
  | i, some (start, bodyStart, carry), (line, ended) :: lines =>
    let afterLine := i + line.length + ended.toNat
    if carry.closedBy line then
      ⟨start, bodyStart, afterLine, true, carry⟩ :: scanLines afterLine none lines
    else scanLines afterLine (some (start, bodyStart, carry)) lines
  | i, none, (line, ended) :: lines =>
    let afterLine := i + line.length + ended.toNat
    scanLines afterLine ((parseFenceLine line).map fun fl => (i, afterLine, fl.carry)) lines

/-- `scan_fence_regions`. -/
def scanFenceRegions (text : List Char) (startCarry : Option FenceCarry) : List FenceRegion :=
  scanLines 0 (startCarry.map fun fc => (0, 0, fc)) (fenceLines text)

/-- `trailing_open_carry`. -/
def trailingOpenCarry (text : List Char) (startCarry : Option FenceCarry) : Option FenceCarry :=
  (scanFenceRegions text startCarry).getLast?.bind fun r =>
    if !r.closed ∧ r.end_ = text.length then some r.carry else none

/-- `region_containing`. -/
def regionContaining (regions : List FenceRegion) (pos : ℕ) : Option FenceRegion :=
  regions.find? fun r => r.start ≤ pos ∧ pos < r.end_

/-! ### The order of the regions -/

private lemma forall_mem_none {α : Type*} (p : α → Prop) : ∀ o ∈ (none : Option α), p o := by
  intro o ho
  cases ho

/-- The regions that a scan finds begin where it is in a region, or after its position. -/
lemma start_le_of_mem_scanLines {i : ℕ} {opened : Option (ℕ × ℕ × FenceCarry)}
    {lines : List (List Char × Bool)} {low : ℕ} (hi : low ≤ i)
    (hopened : ∀ o ∈ opened, low ≤ o.1) : ∀ r ∈ scanLines i opened lines, low ≤ r.start := by
  induction lines generalizing i opened low with
  | nil =>
    cases opened with
    | none => nofun
    | some o =>
      intro r hr
      cases List.mem_singleton.1 hr
      exact hopened o rfl
  | cons line lines ih =>
    obtain ⟨line, ended⟩ := line
    have hafter : low ≤ i + line.length + ended.toNat := by omega
    cases opened with
    | none =>
      refine ih hafter fun o ho => ?_
      obtain ⟨fl, -, rfl⟩ := Option.map_eq_some_iff.1 ho
      exact hi
    | some o =>
      obtain ⟨start, bodyStart, carry⟩ := o
      unfold scanLines
      dsimp only
      split
      · intro r hr
        rcases List.mem_cons.1 hr with rfl | hr
        · exact hopened _ rfl
        · exact ih hafter (forall_mem_none _) r hr
      · exact ih hafter hopened

lemma scanLines_pairwise (i : ℕ) (opened : Option (ℕ × ℕ × FenceCarry))
    (lines : List (List Char × Bool)) :
    (scanLines i opened lines).Pairwise fun a b => a.end_ ≤ b.start := by
  induction lines generalizing i opened with
  | nil => cases opened <;> simp [scanLines]
  | cons line lines ih =>
    obtain ⟨line, ended⟩ := line
    cases opened with
    | none => exact ih _ _
    | some o =>
      obtain ⟨start, bodyStart, carry⟩ := o
      unfold scanLines
      dsimp only
      split
      · exact List.pairwise_cons.2
          ⟨start_le_of_mem_scanLines (Nat.le_refl _) (forall_mem_none _), ih _ _⟩
      · exact ih _ _

/-- The opening line of a region comes before its body. -/
lemma start_le_bodyStart_of_mem_scanLines {i : ℕ} {opened : Option (ℕ × ℕ × FenceCarry)}
    {lines : List (List Char × Bool)} (hopened : ∀ o ∈ opened, o.1 ≤ o.2.1) :
    ∀ r ∈ scanLines i opened lines, r.start ≤ r.bodyStart := by
  induction lines generalizing i opened with
  | nil =>
    cases opened with
    | none => nofun
    | some o =>
      intro r hr
      cases List.mem_singleton.1 hr
      exact hopened o rfl
  | cons line lines ih =>
    obtain ⟨line, ended⟩ := line
    cases opened with
    | none =>
      refine ih fun o ho => ?_
      obtain ⟨fl, -, rfl⟩ := Option.map_eq_some_iff.1 ho
      show i ≤ i + line.length + ended.toNat
      omega
    | some o =>
      obtain ⟨start, bodyStart, carry⟩ := o
      unfold scanLines
      dsimp only
      split
      · intro r hr
        rcases List.mem_cons.1 hr with rfl | hr
        · exact hopened _ rfl
        · exact ih (forall_mem_none _) r hr
      · exact ih hopened

lemma start_le_bodyStart {text : List Char} {startCarry : Option FenceCarry} {r : FenceRegion}
    (hr : r ∈ scanFenceRegions text startCarry) : r.start ≤ r.bodyStart := by
  refine start_le_bodyStart_of_mem_scanLines (fun o ho => ?_) r hr
  obtain ⟨fc, -, rfl⟩ := Option.map_eq_some_iff.1 ho
  exact Nat.le_refl 0

/-- **The regions follow one another**. -/
theorem scanFenceRegions_pairwise (text : List Char) (startCarry : Option FenceCarry) :
    (scanFenceRegions text startCarry).Pairwise fun a b => a.end_ ≤ b.start :=
  scanLines_pairwise _ _ _

/-- A region at the beginning of a text is the one that contains each of its positions. -/
lemma regionContaining_of_start_eq_zero {text : List Char} {startCarry : Option FenceCarry}
    {r : FenceRegion} (hr : r ∈ scanFenceRegions text startCarry) (hstart : r.start = 0) {pos : ℕ}
    (hpos : pos < r.end_) : regionContaining (scanFenceRegions text startCarry) pos = some r := by
  obtain ⟨before, after, hsplit⟩ := List.append_of_mem hr
  have horder := scanFenceRegions_pairwise text startCarry
  rw [hsplit] at horder ⊢
  have hbefore : ∀ a ∈ before, ¬(a.start ≤ pos ∧ pos < a.end_) := by
    intro a ha hin
    have hle := (List.pairwise_append.1 horder).2.2 a ha r (List.mem_cons_self ..)
    omega
  rw [regionContaining, List.find?_append, List.find?_eq_none.2 (by simpa using hbefore),
    Option.none_or, List.find?_cons_of_pos (by simp [hstart, hpos])]

end MyClaw
