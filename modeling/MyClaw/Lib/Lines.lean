import Mathlib.Data.List.Basic

set_option autoImplicit false

/-!
# Newline-delimited byte files

The line structure of a byte file, in the three readings that a program can have of it: the
pieces between newlines (`Lines.splitLF`), those pieces without the empty one after a final
newline (`Lines.rawLines`), and the lines of a text reader, which also drops the carriage return
of a `\r\n` ending (`Lines.strLines`).  UTF-8 validity is a byte-at-a-time automaton, so that a
newline, which is always a character of its own, cuts a file into independent halves.

## Main definitions

* `Lines.validUtf8` — whether a byte string is well-formed UTF-8.
* `Lines.rawLines`, `Lines.strLines` — the two notions of line.
* `Lines.joinLines` — the lines written back, each ended by a newline.

## Main results

* `Lines.exists_unlines_append` — every file is a list of ended lines and an unended tail.
* `Lines.rawLines_joinLines` — reading back what was written.
* `Lines.validUtf8_iff_rawLines` — a file is UTF-8 exactly when each of its lines is.
* `Lines.filterMap_strLines` — a reader that ignores a trailing carriage return sees the same
  entries in both notions of line.
-/

namespace Lines

/-- A byte string. -/
abbrev Bytes := List UInt8

/-- The newline byte. -/
def lf : UInt8 := 10

/-- The carriage-return byte. -/
def cr : UInt8 := 13

/-! ## UTF-8 -/

/-- Where the UTF-8 automaton stands between bytes: how many continuation bytes are owed, and
which range the next of them must lie in. -/
inductive Utf8State
  /-- Between characters. -/
  | start
  /-- One continuation byte owed. -/
  | tail1
  /-- Two continuation bytes owed. -/
  | tail2
  /-- Three continuation bytes owed. -/
  | tail3
  /-- After `E0`: the next byte excludes the overlong forms. -/
  | afterE0
  /-- After `ED`: the next byte excludes the surrogates. -/
  | afterED
  /-- After `F0`: the next byte excludes the overlong forms. -/
  | afterF0
  /-- After `F4`: the next byte excludes what lies above `U+10FFFF`. -/
  | afterF4
  /-- A byte was refused. -/
  | bad
  deriving DecidableEq

/-- The state after one more byte. -/
def Utf8State.next : Utf8State → UInt8 → Utf8State
  | .start, b =>
    if b ≤ 0x7F then .start
    else if 0xC2 ≤ b ∧ b ≤ 0xDF then .tail1
    else if b = 0xE0 then .afterE0
    else if b = 0xED then .afterED
    else if 0xE1 ≤ b ∧ b ≤ 0xEF then .tail2
    else if b = 0xF0 then .afterF0
    else if 0xF1 ≤ b ∧ b ≤ 0xF3 then .tail3
    else if b = 0xF4 then .afterF4
    else .bad
  | .tail1, b => if 0x80 ≤ b ∧ b ≤ 0xBF then .start else .bad
  | .tail2, b => if 0x80 ≤ b ∧ b ≤ 0xBF then .tail1 else .bad
  | .tail3, b => if 0x80 ≤ b ∧ b ≤ 0xBF then .tail2 else .bad
  | .afterE0, b => if 0xA0 ≤ b ∧ b ≤ 0xBF then .tail1 else .bad
  | .afterED, b => if 0x80 ≤ b ∧ b ≤ 0x9F then .tail1 else .bad
  | .afterF0, b => if 0x90 ≤ b ∧ b ≤ 0xBF then .tail2 else .bad
  | .afterF4, b => if 0x80 ≤ b ∧ b ≤ 0x8F then .tail2 else .bad
  | .bad, _ => .bad

/-- The state after a byte string. -/
def utf8Run (s : Utf8State) (bs : Bytes) : Utf8State := bs.foldl Utf8State.next s

/-- Well-formed UTF-8: the automaton ends between characters. -/
def validUtf8 (bs : Bytes) : Bool := utf8Run .start bs == .start

@[simp] lemma validUtf8_nil : validUtf8 [] = true := rfl

/-- Nothing follows a refused byte. -/
lemma utf8Run_bad (bs : Bytes) : utf8Run .bad bs = .bad := by
  induction bs with
  | nil => rfl
  | cons b bs ih => exact ih

/-- A newline is a character of its own: it is accepted between characters and nowhere else. -/
lemma next_lf (s : Utf8State) : s.next lf = if s = .start then .start else .bad := by
  cases s <;> decide

/-- A newline cuts a byte string into halves that are UTF-8 or not independently. -/
lemma validUtf8_append_lf (as bs : Bytes) :
    validUtf8 (as ++ lf :: bs) = (validUtf8 as && validUtf8 bs) := by
  have h : utf8Run .start (as ++ lf :: bs) =
      utf8Run ((utf8Run .start as).next lf) bs := by
    simp [utf8Run, List.foldl_append]
  unfold validUtf8
  rw [h, next_lf]
  by_cases ha : utf8Run .start as = .start
  · simp [ha]
  · simp [ha, utf8Run_bad, show (utf8Run .start as == .start) = false by simpa using ha]

/-! ## Pieces between newlines -/

/-- The pieces of a file between its newlines; a file that ends in a newline has an empty last
piece. -/
def splitLF (c : Bytes) : List Bytes := c.splitOn lf

/-- Lines, each followed by a newline. -/
def unlines (ls : List Bytes) : Bytes := ls.flatMap (· ++ [lf])

/-- No line of `ls` contains a newline. -/
def LineList (ls : List Bytes) : Prop := ∀ l ∈ ls, lf ∉ l

@[simp] lemma unlines_nil : unlines [] = [] := rfl

@[simp] lemma unlines_cons (l : Bytes) (ls : List Bytes) :
    unlines (l :: ls) = l ++ lf :: unlines ls := by simp [unlines]

lemma unlines_append (ls ms : List Bytes) : unlines (ls ++ ms) = unlines ls ++ unlines ms := by
  simp [unlines]

lemma LineList.append {ls ms : List Bytes} (hl : LineList ls) (hm : LineList ms) :
    LineList (ls ++ ms) := by
  intro l h
  rcases List.mem_append.1 h with h | h
  · exact hl l h
  · exact hm l h

lemma LineList.sublist {ls ms : List Bytes} (hm : LineList ms) (h : ls.Sublist ms) :
    LineList ls := fun l hl => hm l (h.subset hl)

lemma intercalate_append_singleton (ls : List Bytes) (t : Bytes) :
    [lf].intercalate (ls ++ [t]) = unlines ls ++ t := by
  induction ls with
  | nil => simp [List.intercalate]
  | cons l ls ih =>
    cases ls with
    | nil => simp [List.intercalate, unlines]
    | cons m ms =>
      have h : [lf].intercalate (l :: m :: ms ++ [t]) =
          l ++ [lf] ++ [lf].intercalate (m :: ms ++ [t]) := by
        simp [List.intercalate]
      rw [h, ih]
      simp

/-- Ended lines and an unended tail come apart again. -/
lemma splitLF_unlines_append {ls : List Bytes} {t : Bytes} (hl : LineList ls) (ht : lf ∉ t) :
    splitLF (unlines ls ++ t) = ls ++ [t] := by
  rw [← intercalate_append_singleton, splitLF]
  apply List.splitOn_intercalate
  · intro l h
    rcases List.mem_append.1 h with h | h
    · exact hl l h
    · rw [List.mem_singleton.1 h]
      exact ht
  · simp

/-- **Shape of a file**: every byte string is a list of ended lines and an unended tail. -/
theorem exists_unlines_append (c : Bytes) :
    ∃ ls t, LineList ls ∧ lf ∉ t ∧ c = unlines ls ++ t := by
  induction c with
  | nil => exact ⟨[], [], by simp [LineList], by simp, rfl⟩
  | cons b c ih =>
    obtain ⟨ls, t, hl, ht, rfl⟩ := ih
    by_cases hb : b = lf
    · subst hb
      refine ⟨[] :: ls, t, ?_, ht, by simp⟩
      intro l h
      rcases List.mem_cons.1 h with rfl | h
      · simp
      · exact hl l h
    · cases ls with
      | nil => exact ⟨[], b :: t, hl, by simp [Ne.symm hb, ht], by simp⟩
      | cons l ls =>
        refine ⟨(b :: l) :: ls, t, ?_, ht, by simp⟩
        intro m h
        rcases List.mem_cons.1 h with rfl | h
        · simp [Ne.symm hb, hl l (by simp)]
        · exact hl m (List.mem_cons_of_mem _ h)

/-! ## Lines -/

/-- The tail of a file, as a list of at most one line: an empty tail is no line. -/
def tailLine (t : Bytes) : List Bytes := if t = [] then [] else [t]

/-- The pieces between newlines, without the empty piece after a final newline. -/
def rawLines (c : Bytes) : List Bytes :=
  let lines := splitLF c
  if lines.getLast? = some [] then lines.dropLast else lines

/-- A line without the carriage return at its end, if it has one. -/
def stripCR (l : Bytes) : Bytes := if l.getLast? = some cr then l.dropLast else l

/-- The lines of a text reader: an ended line loses the carriage return of its ending, an unended
last line keeps it, and there is no empty line after a final newline. -/
def strLines (c : Bytes) : List Bytes :=
  let lines := splitLF c
  lines.dropLast.map stripCR ++ tailLine (lines.getLastD [])

/-- Lines written back to a file: nothing for no line, otherwise the lines joined by newlines and
a newline at the end. -/
def joinLines (ls : List Bytes) : Bytes :=
  if ls = [] then [] else [lf].intercalate ls ++ [lf]

/-- A file whose last line is ended; an empty file is one. -/
def Ended (c : Bytes) : Prop := c.getLast? = none ∨ c.getLast? = some lf

lemma mem_tailLine {l t : Bytes} : l ∈ tailLine t ↔ t ≠ [] ∧ l = t := by
  unfold tailLine
  split <;> simp_all

lemma rawLines_unlines_append {ls : List Bytes} {t : Bytes} (hl : LineList ls) (ht : lf ∉ t) :
    rawLines (unlines ls ++ t) = ls ++ tailLine t := by
  unfold rawLines tailLine
  rw [splitLF_unlines_append hl ht]
  by_cases h : t = [] <;> simp [h]

lemma strLines_unlines_append {ls : List Bytes} {t : Bytes} (hl : LineList ls) (ht : lf ∉ t) :
    strLines (unlines ls ++ t) = ls.map stripCR ++ tailLine t := by
  unfold strLines
  rw [splitLF_unlines_append hl ht]
  simp

lemma joinLines_eq_unlines (ls : List Bytes) : joinLines ls = unlines ls := by
  unfold joinLines
  rcases List.eq_nil_or_concat ls with rfl | ⟨ms, l, rfl⟩
  · rfl
  · rw [if_neg (by simp), List.concat_eq_append, intercalate_append_singleton, unlines_append]
    simp

/-- **Write and read back**: the lines of a file written from a list of lines are that list. -/
theorem rawLines_joinLines {ls : List Bytes} (hl : LineList ls) :
    rawLines (joinLines ls) = ls := by
  have h := rawLines_unlines_append (t := []) hl (by simp)
  rw [joinLines_eq_unlines]
  simpa [tailLine] using h

@[simp] lemma rawLines_nil : rawLines [] = [] :=
  rawLines_joinLines (show LineList [] by simp [LineList])

/-- The lines of a file contain no newline. -/
lemma lineList_rawLines (c : Bytes) : LineList (rawLines c) := by
  obtain ⟨ls, t, hl, ht, rfl⟩ := exists_unlines_append c
  rw [rawLines_unlines_append hl ht]
  refine hl.append ?_
  intro l h
  rw [(mem_tailLine.1 h).2]
  exact ht

/-- The tail of a file is empty exactly when its last line is ended. -/
lemma ended_unlines_append {ls : List Bytes} {t : Bytes} (ht : lf ∉ t) :
    Ended (unlines ls ++ t) ↔ t = [] := by
  rcases List.eq_nil_or_concat t with rfl | ⟨u, b, rfl⟩
  · rcases List.eq_nil_or_concat ls with rfl | ⟨ms, l, rfl⟩
    · simp [Ended]
    · simp [Ended, unlines_append]
  · have hb : b ≠ lf := by
      rintro rfl
      exact ht (by simp)
    simp [Ended, ← List.append_assoc, hb]

lemma ended_joinLines (ls : List Bytes) : Ended (joinLines ls) := by
  rw [joinLines_eq_unlines, ← List.append_nil (unlines ls)]
  exact (ended_unlines_append (by simp)).2 rfl

/-- An ended file and what is appended to it have their lines side by side. -/
lemma rawLines_append_of_ended {c : Bytes} (hc : Ended c) (d : Bytes) :
    rawLines (c ++ d) = rawLines c ++ rawLines d := by
  obtain ⟨ls, t, hl, ht, rfl⟩ := exists_unlines_append c
  obtain rfl := (ended_unlines_append ht).1 hc
  obtain ⟨ms, u, hm, hu, rfl⟩ := exists_unlines_append d
  rw [List.append_nil, ← List.append_assoc, ← unlines_append,
    rawLines_unlines_append (hl.append hm) hu, rawLines_unlines_append hm hu,
    ← List.append_nil (unlines ls), rawLines_unlines_append hl (by simp)]
  simp [tailLine]

/-- One line written to the end of an ended file is one more line of it. -/
lemma rawLines_append_line {c l : Bytes} (hc : Ended c) (hl : lf ∉ l) :
    rawLines (c ++ (l ++ [lf])) = rawLines c ++ [l] := by
  have h : l ++ [lf] = joinLines [l] := by simp [joinLines_eq_unlines]
  rw [rawLines_append_of_ended hc, h, rawLines_joinLines]
  simpa [LineList] using hl

/-- One line written to the end of a file whose last line is not ended is glued to that line. -/
lemma rawLines_append_glued {ls : List Bytes} {t l : Bytes} (hls : LineList ls) (ht : lf ∉ t)
    (hl : lf ∉ l) : rawLines (unlines ls ++ t ++ (l ++ [lf])) = ls ++ [t ++ l] := by
  have h : unlines ls ++ t ++ (l ++ [lf]) = unlines (ls ++ [t ++ l]) ++ [] := by
    simp [unlines_append]
  have hm : LineList (ls ++ [t ++ l]) := hls.append (by simp [LineList, ht, hl])
  rw [h, rawLines_unlines_append hm (by simp)]
  simp [tailLine]

/-! ## What a reader sees -/

/-- A reader of lines that ignores a carriage return at the end. -/
def CRInsensitive {α : Type*} (f : Bytes → α) : Prop := ∀ l, f (l ++ [cr]) = f l

lemma CRInsensitive.stripCR {α : Type*} {f : Bytes → α} (hf : CRInsensitive f) (l : Bytes) :
    f (Lines.stripCR l) = f l := by
  unfold Lines.stripCR
  split
  case isTrue h =>
    obtain ⟨m, rfl⟩ := List.getLast?_eq_some_iff.1 h
    simpa using (hf m).symm
  case isFalse => rfl

/-- A reader that ignores a carriage return at the end of a line sees the same entries in both
notions of line. -/
theorem filterMap_strLines {α : Type*} {f : Bytes → Option α} (hf : CRInsensitive f)
    (c : Bytes) : (strLines c).filterMap f = (rawLines c).filterMap f := by
  obtain ⟨ls, t, hl, ht, rfl⟩ := exists_unlines_append c
  rw [strLines_unlines_append hl ht, rawLines_unlines_append hl ht, List.filterMap_append,
    List.filterMap_append, List.filterMap_map]
  have h : f ∘ Lines.stripCR = f := funext hf.stripCR
  rw [h]

/-- A line of a text reader is a raw line, perhaps without its carriage return. -/
lemma exists_rawLine_of_mem_strLines {l c : Bytes} (h : l ∈ strLines c) :
    ∃ r ∈ rawLines c, l = r ∨ l = Lines.stripCR r := by
  obtain ⟨ls, t, hl, ht, rfl⟩ := exists_unlines_append c
  rw [strLines_unlines_append hl ht, List.mem_append] at h
  rw [rawLines_unlines_append hl ht]
  rcases h with h | h
  · obtain ⟨r, hr, rfl⟩ := List.mem_map.1 h
    exact ⟨r, List.mem_append_left _ hr, .inr rfl⟩
  · exact ⟨l, List.mem_append_right _ h, .inl rfl⟩

/-- As many entries as lines come from lines that hold an entry each. -/
lemma length_filterMap_eq_iff {α β : Type*} (f : α → Option β) (ls : List α) :
    ls.length = (ls.filterMap f).length ↔ ∀ l ∈ ls, (f l).isSome := by
  induction ls with
  | nil => simp
  | cons l ls ih =>
    have hle := List.length_filterMap_le f ls
    cases hl : f l with
    | none =>
      rw [List.filterMap_cons_none hl]
      simp only [List.length_cons, List.mem_cons, forall_eq_or_imp, hl, Option.isSome_none,
        Bool.false_eq_true, false_and, iff_false]
      omega
    | some b =>
      rw [List.filterMap_cons_some hl]
      simp [hl, ih]

/-- A file is UTF-8 exactly when each of its lines is. -/
theorem validUtf8_iff_rawLines (c : Bytes) :
    validUtf8 c = true ↔ ∀ l ∈ rawLines c, validUtf8 l = true := by
  obtain ⟨ls, t, hl, ht, rfl⟩ := exists_unlines_append c
  rw [rawLines_unlines_append hl ht]
  clear hl
  induction ls with
  | nil =>
    by_cases h : t = [] <;> simp [tailLine, h]
  | cons l ls ih =>
    rw [unlines_cons, List.append_assoc, List.cons_append, validUtf8_append_lf, Bool.and_eq_true,
      ih]
    simp

end Lines
