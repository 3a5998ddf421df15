import MyClaw.Lib.LineScan
import MyClaw.Channels.Fences

set_option autoImplicit false

/-!
# Fences as states of a scan

The regions that `scan_fence_regions` finds (`channels/message/chunking.rs`), as what a scan of the text
line by line sees: the block of code that is open before a line, and the one that is open after it.

## Main definitions

* `fenceStep` — what a line does to the block of code that is open.
* `inFence` — whether a position lies in a block of code, its first and last lines included.

## Main results

* `trailingOpenCarry_eq` — what `trailing_open_carry` finds is the last state of the scan.
* `lineRegion` — the region that a position lies in, from the states around its line.
* `isSome_regionContaining` — a position lies in a region exactly when the scan sees it in one.
-/

namespace MyClaw

open LineScan

/-! ## The scan -/

/-- What a line does to the block of code that is open. -/
def fenceStep : Option FenceCarry → List Char → Option FenceCarry
  | some carry, line => if carry.closedBy line then none else some carry
  | none, line => (parseFenceLine line).map FenceLine.carry

/-- A line lies in a block of code if one is open before it or after it. -/
def fenceView (opened closed : Option FenceCarry) : Bool := opened.isSome || closed.isSome

/-- Whether a position lies in a block of code. -/
def inFence (startCarry : Option FenceCarry) (text : List Char) (i : ℕ) : Bool :=
  seenAt fenceStep fenceView startCarry text i

/-- The number of characters of lines, with the newlines that end them. -/
def linesLength (lines : List (List Char × Bool)) : ℕ :=
  (lines.map fun line => line.1.length + line.2.toNat).sum

@[simp] lemma linesLength_cons (line : List Char × Bool) (lines : List (List Char × Bool)) :
    linesLength (line :: lines) = line.1.length + line.2.toNat + linesLength lines := rfl

@[simp] lemma linesLength_append (lines lines' : List (List Char × Bool)) :
    linesLength (lines ++ lines') = linesLength lines + linesLength lines' := by
  simp [linesLength]

/-- A text has the characters of its lines. -/
lemma linesLength_cutLines (text : List Char) :
    linesLength ((Chars.cutLines text).1.map (·, true)) + (lastLine text).length = text.length := by
  induction text with
  | nil => rfl
  | cons c text ih =>
    unfold lastLine at ih ⊢
    rw [Chars.cutLines]
    by_cases hc : c = '\n'
    · simp only [hc, if_true, List.map_cons, linesLength_cons, List.length_nil, List.length_cons,
        Bool.toNat_true]
      omega
    · cases hlines : (Chars.cutLines text).1 with
      | nil =>
        rw [hlines] at ih
        simp only [hc, if_false, hlines, List.map_nil, List.length_cons] at ih ⊢
        omega
      | cons line lines =>
        rw [hlines] at ih
        simp only [hc, if_false, hlines, List.map_cons, linesLength_cons, List.length_cons] at ih ⊢
        omega

lemma linesLength_fenceLines (text : List Char) : linesLength (fenceLines text) = text.length := by
  have hlength := linesLength_cutLines text
  unfold fenceLines
  unfold lastLine at hlength
  by_cases hrest : (Chars.cutLines text).2 = []
  · simp only [hrest, if_true, List.append_nil, List.length_nil] at hlength ⊢
    omega
  · simp only [hrest, if_false, linesLength_append, linesLength_cons, Bool.toNat_false] at hlength ⊢
    simpa [linesLength] using hlength

/-- A line without a character does nothing. -/
lemma fenceStep_nil (opened : Option FenceCarry) : fenceStep opened [] = opened := by
  cases opened <;> rfl

/-- The last state of the scan, from the lines that the source reads. -/
lemma foldl_fenceLines (startCarry : Option FenceCarry) (text : List Char) :
    ((fenceLines text).map (·.1)).foldl fenceStep startCarry = after fenceStep startCarry text := by
  unfold after before lastLine fenceLines
  by_cases hrest : (Chars.cutLines text).2 = []
  · simp only [hrest, if_true, List.append_nil, List.map_map, Function.comp_def, List.map_id',
      fenceStep_nil]
  · simp only [hrest, if_false, List.map_append, List.map_map, Function.comp_def, List.map_id',
      List.foldl_append, List.map_cons, List.map_nil, List.foldl_cons, List.foldl_nil]

/-- The last region of a scan that is open at the end is the block of code that is open there. -/
lemma getLast?_scanLines (i : ℕ) (opened : Option (ℕ × ℕ × FenceCarry))
    (lines : List (List Char × Bool)) :
    ((scanLines i opened lines).getLast?.bind fun r =>
        if !r.closed ∧ r.end_ = i + linesLength lines then some r.carry else none) =
      (lines.map (·.1)).foldl fenceStep (opened.map (·.2.2)) := by
  induction lines generalizing i opened with
  | nil =>
    cases opened with
    | none => rfl
    | some o => simp [scanLines, linesLength]
  | cons line lines ih =>
    obtain ⟨line, ended⟩ := line
    have hlength : i + linesLength ((line, ended) :: lines) =
        i + line.length + ended.toNat + linesLength lines := by
      rw [linesLength_cons, Nat.add_assoc, Nat.add_assoc, Nat.add_assoc]
    rw [hlength]
    cases opened with
    | none =>
      have hrest := ih (i + line.length + ended.toNat)
        ((parseFenceLine line).map fun fl => (i, i + line.length + ended.toNat, fl.carry))
      rw [Option.map_map] at hrest
      exact hrest
    | some o =>
      obtain ⟨start, bodyStart, carry⟩ := o
      unfold scanLines
      simp only [List.map_cons, List.foldl_cons, Option.map_some, fenceStep]
      split
      · have hrest := ih (i + line.length + ended.toNat) none
        rw [Option.map_none] at hrest
        rw [← hrest]
        cases hscan : scanLines (i + line.length + ended.toNat) none lines with
        | nil => rfl
        | cons r rs => rw [List.getLast?_cons_cons]
      · exact ih _ _

/-- **What is open at the end of a text** is the last state of the scan. -/
theorem trailingOpenCarry_eq (text : List Char) (startCarry : Option FenceCarry) :
    trailingOpenCarry text startCarry = after fenceStep startCarry text := by
  have hlast := getLast?_scanLines 0 (startCarry.map fun fc => (0, 0, fc)) (fenceLines text)
  rw [linesLength_fenceLines, Nat.zero_add, Option.map_map, foldl_fenceLines] at hlast
  unfold trailingOpenCarry scanFenceRegions
  rw [hlast]
  cases startCarry <;> rfl

/-! ## The region at a position -/

/-- A scan in a region finds this region first, and it has the next line. -/
lemma scanLines_open (i start bodyStart : ℕ) (carry : FenceCarry) (lines : List (List Char × Bool)) :
    ∃ r rest, scanLines i (some (start, bodyStart, carry)) lines = r :: rest ∧ r.start = start ∧
      r.carry = carry ∧ i + linesLength (lines.take 1) ≤ r.end_ := by
  induction lines generalizing i with
  | nil => exact ⟨_, _, rfl, rfl, rfl, le_rfl⟩
  | cons line lines ih =>
    obtain ⟨line, ended⟩ := line
    have hlength : linesLength (((line, ended) :: lines).take 1) = line.length + ended.toNat := by
      simp [linesLength]
    unfold scanLines
    dsimp only
    split
    · exact ⟨_, _, rfl, rfl, rfl, by dsimp only; omega⟩
    · obtain ⟨r, rest, hscan, hstart, hcarry, hend⟩ := ih (i + line.length + ended.toNat)
      exact ⟨r, rest, hscan, hstart, hcarry, by omega⟩

/-- What a scan finds at a position of a line, from the states around the line. -/
structure LineRegion (regions : List FenceRegion) (pos lineStart : ℕ)
    (opened : Option (ℕ × ℕ × FenceCarry)) (state next : Option FenceCarry) : Prop where
  /-- A block of code that is open before the line. -/
  isOpen : ∀ fc, state = some fc → ∃ r, regionContaining regions pos = some r ∧ r.carry = fc ∧
    (r.start < lineStart ∨ ∃ o, opened = some o ∧ r.start = o.1)
  /-- A block of code that the line opens. -/
  opens : ∀ fc, state = none → next = some fc → ∃ r, regionContaining regions pos = some r ∧
    r.carry = fc ∧ r.start = lineStart
  /-- A line outside. -/
  outside : state = none → next = none → regionContaining regions pos = none

/-- The region at a position of the line that is read next. -/
lemma lineRegion_scanLines_cons {i pos : ℕ} {opened : Option (ℕ × ℕ × FenceCarry)} {line : List Char}
    {ended : Bool} {lines : List (List Char × Bool)} (hopened : ∀ o, opened = some o → o.1 ≤ i)
    (hpos : i ≤ pos) (hlt : pos < i + line.length + ended.toNat) :
    LineRegion (scanLines i opened ((line, ended) :: lines)) pos i opened (opened.map (·.2.2))
      (fenceStep (opened.map (·.2.2)) line) := by
  cases opened with
  | some o =>
    obtain ⟨start, bodyStart, carry⟩ := o
    have hstart := hopened _ rfl
    refine ⟨fun fc hfc => ?_, (by rintro _ ⟨⟩), (by rintro ⟨⟩)⟩
    obtain ⟨r, rest, hscan, hr, hcarry, hend⟩ :=
      scanLines_open i start bodyStart carry ((line, ended) :: lines)
    have hlength : linesLength (((line, ended) :: lines).take 1) = line.length + ended.toNat := by
      simp [linesLength]
    refine ⟨r, ?_, hcarry.trans (Option.some.inj hfc), Or.inr ⟨_, rfl, hr⟩⟩
    rw [hscan, regionContaining, List.find?_cons_of_pos]
    simp only [decide_eq_true_eq]
    dsimp only at hstart
    omega
  | none =>
    refine ⟨(by rintro _ ⟨⟩), fun fc _ hnext => ?_, fun _ hnext => ?_⟩
    · obtain ⟨fl, hfl, rfl⟩ := Option.map_eq_some_iff.1 hnext
      obtain ⟨r, rest, hscan, hr, hcarry, hend⟩ := scanLines_open (i + line.length + ended.toNat) i
        (i + line.length + ended.toNat) fl.carry lines
      refine ⟨r, ?_, hcarry, hr⟩
      rw [scanLines, hfl, Option.map_some, hscan, regionContaining, List.find?_cons_of_pos]
      simp only [decide_eq_true_eq]
      omega
    · have hline : parseFenceLine line = none := Option.map_eq_none_iff.1 hnext
      rw [scanLines, hline, Option.map_none, regionContaining, List.find?_eq_none]
      intro r hr hin
      have hlater := start_le_of_mem_scanLines le_rfl (fun _ ho => absurd ho (by simp)) r hr
      simp only [decide_eq_true_eq] at hin
      omega

/-- The number of characters of lines that newlines end. -/
def endedLength (lines : List (List Char)) : ℕ := linesLength (lines.map (·, true))

@[simp] lemma endedLength_cons (line : List Char) (lines : List (List Char)) :
    endedLength (line :: lines) = line.length + 1 + endedLength lines := rfl

/-- A region that has ended before a position is not the one at the position. -/
lemma regionContaining_cons_of_end_le {r : FenceRegion} {regions : List FenceRegion} {pos : ℕ}
    (h : r.end_ ≤ pos) : regionContaining (r :: regions) pos = regionContaining regions pos := by
  rw [regionContaining, List.find?_cons_of_neg]
  · rfl
  · simp only [decide_eq_true_eq]
    omega

/-- **The region at a position of a line**, from the state that the lines before it lead to.

**Proof sketch.** Induction on the lines before it.  A line that closes a block of code puts out its
region, which has ended before the position; any other line leaves the scan to go on. -/
theorem lineRegion_scanLines {i pos : ℕ} {opened : Option (ℕ × ℕ × FenceCarry)}
    (earlier : List (List Char)) {line : List Char} {ended : Bool} {lines : List (List Char × Bool)}
    (hopened : ∀ o, opened = some o → o.1 ≤ i) (hpos : i + endedLength earlier ≤ pos)
    (hlt : pos < i + endedLength earlier + line.length + ended.toNat) :
    LineRegion (scanLines i opened (earlier.map (·, true) ++ (line, ended) :: lines)) pos
      (i + endedLength earlier) opened (earlier.foldl fenceStep (opened.map (·.2.2)))
      (fenceStep (earlier.foldl fenceStep (opened.map (·.2.2))) line) := by
  induction earlier generalizing i opened with
  | nil => exact lineRegion_scanLines_cons hopened hpos hlt
  | cons first earlier ih =>
    rw [endedLength_cons, ← Nat.add_assoc, ← Nat.add_assoc] at hpos hlt ⊢
    rw [List.map_cons, List.cons_append, List.foldl_cons]
    cases opened with
    | none =>
      have hopened' : ∀ o, ((parseFenceLine first).map fun fl =>
          (i, i + first.length + 1, fl.carry)) = some o → o.1 ≤ i + first.length + 1 := by
        intro o ho
        obtain ⟨fl, -, rfl⟩ := Option.map_eq_some_iff.1 ho
        dsimp only
        omega
      have hrest := ih hopened' hpos hlt
      rw [Option.map_map] at hrest
      refine ⟨fun fc hfc => ?_, hrest.opens, hrest.outside⟩
      obtain ⟨r, hr, hcarry, hstart⟩ := hrest.isOpen fc hfc
      refine ⟨r, hr, hcarry, Or.inl (hstart.elim id ?_)⟩
      rintro ⟨o, ho, hro⟩
      obtain ⟨fl, -, rfl⟩ := Option.map_eq_some_iff.1 ho
      rw [hro]
      dsimp only
      omega
    | some o =>
      obtain ⟨start, bodyStart, carry⟩ := o
      have hstart := hopened _ rfl
      rw [Option.map_some, fenceStep, scanLines]
      dsimp only at hstart ⊢
      split
      · have hnone : ∀ o, (none : Option (ℕ × ℕ × FenceCarry)) = some o →
            o.1 ≤ i + first.length + 1 := by rintro _ ⟨⟩
        have hrest := ih hnone hpos hlt
        have hskip (r : FenceRegion) (hr : r.end_ = i + first.length + 1)
            (regions : List FenceRegion) :
            regionContaining (r :: regions) pos = regionContaining regions pos :=
          regionContaining_cons_of_end_le (by omega)
        refine ⟨fun fc hfc => ?_, fun fc hs hn => ?_, fun hs hn => ?_⟩
        · obtain ⟨r, hr, hcarry, hrs⟩ := hrest.isOpen fc hfc
          refine ⟨r, (hskip _ rfl _).trans hr, hcarry, Or.inl (hrs.resolve_right ?_)⟩
          rintro ⟨o, ho, -⟩
          cases ho
        · obtain ⟨r, hr, hcarry, hrs⟩ := hrest.opens fc hs hn
          exact ⟨r, (hskip _ rfl _).trans hr, hcarry, hrs⟩
        · exact (hskip _ rfl _).trans (hrest.outside hs hn)
      · have hopened' : ∀ o, some (start, bodyStart, carry) = some o → o.1 ≤ i + first.length + 1 := by
          intro o ho
          cases ho
          dsimp only
          omega
        exact ih hopened' hpos hlt

/-- The lines of a text around a position. -/
lemma fenceLines_at {text : List Char} {i : ℕ} (hi : i < text.length) :
    ∃ ended lines, fenceLines text = (Chars.cutLines (text.take i)).1.map (·, true) ++
        (lastLine (text.take i) ++ firstLine (text.drop i), ended) :: lines ∧
      0 < (firstLine (text.drop i)).length + ended.toNat := by
  have htext : text.take i ++ text.drop i = text := List.take_append_drop i text
  have hdrop : text.drop i ≠ [] := by
    rw [Ne, List.drop_eq_nil_iff]
    omega
  generalize text.take i = start at htext ⊢
  generalize text.drop i = rest at htext hdrop ⊢
  have hstart := newline_notMem_lastLine start
  by_cases hline : '\n' ∈ rest
  · obtain ⟨line, later, rfl, hnone⟩ := List.eq_append_cons_of_mem hline
    have hboth : '\n' ∉ lastLine start ++ line := by
      rw [List.mem_append, not_or]
      exact ⟨hstart, hnone⟩
    have hcut : Chars.cutLines text = ((Chars.cutLines start).1 ++
        (lastLine start ++ line) :: (Chars.cutLines later).1, (Chars.cutLines later).2) := by
      rw [← htext, Chars.cutLines_append, ← List.append_assoc]
      unfold lastLine at hboth ⊢
      rw [Chars.cutLines_append_newline hboth]
    refine ⟨true, fenceLines later, ?_, Nat.succ_pos _⟩
    rw [fenceLines, hcut, firstLine_append_newline hnone]
    simp only [fenceLines, List.map_append, List.map_cons, List.append_assoc, List.cons_append]
  · have hboth : '\n' ∉ lastLine start ++ rest := by
      rw [List.mem_append, not_or]
      exact ⟨hstart, hline⟩
    have hcut : Chars.cutLines text = ((Chars.cutLines start).1, lastLine start ++ rest) := by
      rw [← htext, Chars.cutLines_append]
      unfold lastLine at hboth ⊢
      rw [Chars.cutLines_of_notMem hboth, List.append_nil]
    have hne : lastLine start ++ rest ≠ [] := List.append_ne_nil_of_right_ne_nil _ hdrop
    refine ⟨false, [], ?_, ?_⟩
    · rw [fenceLines, hcut, firstLine_of_notMem hline]
      simp only [if_neg hne]
    · rw [firstLine_of_notMem hline]
      exact Nat.add_pos_left (List.length_pos_iff.2 hdrop) _

/-- **The region at a position of a text**, from the states around its line. -/
theorem lineRegion {text : List Char} {i : ℕ} (startCarry : Option FenceCarry) (hi : i < text.length) :
    LineRegion (scanFenceRegions text startCarry) i (i - (lastLine (text.take i)).length)
      (startCarry.map fun fc => (0, 0, fc)) (before fenceStep startCarry (text.take i))
      (fenceStep (before fenceStep startCarry (text.take i))
        (lastLine (text.take i) ++ firstLine (text.drop i))) := by
  obtain ⟨ended, lines, hlines, hpos⟩ := fenceLines_at hi
  have hlength := linesLength_cutLines (text.take i)
  rw [List.length_take, Nat.min_eq_left hi.le] at hlength
  have hstart : i - (lastLine (text.take i)).length =
      0 + endedLength (Chars.cutLines (text.take i)).1 := by
    unfold endedLength
    omega
  have hopened : ∀ o, (startCarry.map fun fc => (0, 0, fc)) = some o → o.1 ≤ 0 := by
    intro o ho
    obtain ⟨fc, -, rfl⟩ := Option.map_eq_some_iff.1 ho
    exact le_rfl
  have hle : 0 + endedLength (Chars.cutLines (text.take i)).1 ≤ i := by omega
  have hlt : i < 0 + endedLength (Chars.cutLines (text.take i)).1 +
      (lastLine (text.take i) ++ firstLine (text.drop i)).length + ended.toNat := by
    rw [List.length_append]
    unfold endedLength
    omega
  have hregion : LineRegion (scanLines 0 (startCarry.map fun fc => (0, 0, fc))
      ((Chars.cutLines (text.take i)).1.map (·, true) ++ (_, ended) :: lines)) i _ _ _ _ :=
    lineRegion_scanLines _ hopened hle hlt
  have hmap : (startCarry.map fun fc => (0, 0, fc)).map (·.2.2) = startCarry := by
    cases startCarry <;> rfl
  rw [hmap, ← hlines, ← hstart] at hregion
  exact hregion

/-- **A position is in a region** exactly when the scan sees it in a block of code. -/
theorem isSome_regionContaining {text : List Char} {i : ℕ} (startCarry : Option FenceCarry)
    (hi : i < text.length) :
    (regionContaining (scanFenceRegions text startCarry) i).isSome = inFence startCarry text i := by
  have hregion := lineRegion startCarry hi
  simp only [inFence, seenAt]
  generalize before fenceStep startCarry (text.take i) = state at hregion ⊢
  cases hstate : state with
  | some fc =>
    obtain ⟨r, hr, -⟩ := hregion.isOpen fc hstate
    rw [hr]
    rfl
  | none =>
    rw [hstate] at hregion
    cases hnext : fenceStep none (lastLine (text.take i) ++ firstLine (text.drop i)) with
    | some fc =>
      obtain ⟨r, hr, -⟩ := hregion.opens fc rfl hnext
      rw [hr]
      rfl
    | none =>
      rw [hregion.outside rfl hnext]
      rfl

end MyClaw
