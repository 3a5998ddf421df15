import MyClaw.Lib.Split
import MyClaw.Scheduler.Timing

set_option autoImplicit false

/-!
# Weekday fields of cron expressions

A weekday field is a list of items, each a star, a number or a range, with a step or without one.  What
it denotes depends on the numbering: in Unix Sunday is 0, and also 7; the parser that the scheduler
uses counts from 1 for Sunday to 7 for Saturday.

## Main definitions

* `WeekdayItem`, `fieldText` — an item, and the text of a field.
* `WeekdayItem.unixDays`, `unixDays` — the days in Unix numbering.
* `cronDays` — the days of a text as the parser reads it, if it accepts the text.

## Main results

* `cronDays_fieldText` — the parser reads a field item by item.

## Implementation notes

The parser is third-party code: it accepts a list of values and ascending ranges with a step for each,
and a value with a step goes on to the end of the week.  Days are counted from 0 for Sunday.
-/

namespace MyClaw

/-! ## Fields -/

/-- An item without its step. -/
inductive WeekdayBase
  | all
  | value (n : ℕ)
  | range (first last : ℕ)

/-- An item of a weekday field. -/
structure WeekdayItem where
  base : WeekdayBase
  step : Option ℕ

/-- The numbers are those of days in Unix numbering, the range ascends, and the step is a step. -/
structure WeekdayItem.IsUnix (item : WeekdayItem) : Prop where
  value_le : ∀ n, item.base = .value n → n ≤ 7
  range_le : ∀ first last, item.base = .range first last → first ≤ last ∧ last ≤ 7
  step_pos : ∀ s ∈ item.step, 0 < s

/-- A number as a text. -/
def numberText (n : ℕ) : List Char := (toString n).toList

/-- The text of an item without its step. -/
def WeekdayBase.text : WeekdayBase → List Char
  | .all => ['*']
  | .value n => numberText n
  | .range first last => numberText first ++ '-' :: numberText last

/-- The text of a step, with its slash. -/
def stepText : Option ℕ → List Char
  | none => []
  | some s => '/' :: numberText s

/-- The text of an item. -/
def WeekdayItem.text (item : WeekdayItem) : List Char := item.base.text ++ stepText item.step

/-- The text of a field. -/
def fieldText (items : List WeekdayItem) : List Char := [','].intercalate (items.map (·.text))

/-! ## Days -/

/-- A set of weekdays, from 0 for Sunday. -/
abbrev DaySet := Fin 7 → Bool

/-- A number is met on the way from the first one to the last one. -/
def inSteps (first last step k : ℕ) : Bool := first ≤ k && k ≤ last && (k - first) % step = 0

/-- The days of an item in Unix numbering. -/
def WeekdayItem.unixDays (item : WeekdayItem) : DaySet := fun d =>
  let step := item.step.getD 1
  match item.base with
  | .all => inSteps 0 6 step d
  | .value n => inSteps (n % 7) (if item.step.isSome then 6 else n % 7) step d
  -- the number 7 is Sunday again
  | .range first last => inSteps first last step d || inSteps first last step (d + 7)

/-- The days of a field in Unix numbering. -/
def unixDays (items : List WeekdayItem) : DaySet := fun d => items.any (·.unixDays d)

/-- The days of an item as the parser numbers them, if it accepts the item. -/
def WeekdayItem.cronDays (item : WeekdayItem) : Option DaySet :=
  let step := item.step.getD 1
  if step = 0 then none
  else
    match item.base with
    | .all => some fun d => inSteps 1 7 step (d + 1)
    | .value n =>
      if 1 ≤ n ∧ n ≤ 7 then
        some fun d => inSteps n (if item.step.isSome then 7 else n) step (d + 1)
      else none
    | .range first last =>
      if 1 ≤ first ∧ first ≤ last ∧ last ≤ 7 then some fun d => inSteps first last step (d + 1)
      else none

/-- A number, in the grammar of the parser. -/
def parseNumber (text : List Char) : Option ℕ :=
  if text = [] ∨ text.any (fun c => !c.isDigit) = true then none
  else some (Nat.ofDigitChars 10 text 0)

/-- An item without its step, in the grammar of the parser. -/
def parseBase (text : List Char) : Option WeekdayBase :=
  if text = ['*'] then some .all
  else
    match splitOnce '-' text with
    | some (first, last) => do some (.range (← parseNumber first) (← parseNumber last))
    | none => (parseNumber text).map .value

/-- An item, in the grammar of the parser. -/
def parseItem (text : List Char) : Option WeekdayItem :=
  match splitOnce '/' text with
  | some (base, step) => do some ⟨← parseBase base, some (← parseNumber step)⟩
  | none => (parseBase text).map (⟨·, none⟩)

/-- The days of the items, if the parser accepts them all. -/
def daysOfItems (items : List WeekdayItem) : Option DaySet :=
  if items.all (·.cronDays.isSome) then
    some fun d => items.any fun item => item.cronDays.any (· d)
  else none

/-- The days of a text as the parser reads it. -/
def cronDays (text : List Char) : Option DaySet :=
  ((text.splitOnP (· = ',')).mapM parseItem).bind daysOfItems

/-! ## Texts -/

/-- A number in decimal digits. -/
lemma numberText_eq (n : ℕ) : numberText n = Nat.toDigits 10 n := by
  rw [numberText, Nat.toString_eq_ofList_toDigits, String.toList_ofList]

/-- It has a digit. -/
lemma numberText_ne_nil (n : ℕ) : numberText n ≠ [] := by
  rw [numberText_eq]
  exact Nat.toDigits_ne_nil

lemma isDigit_of_mem_numberText {n : ℕ} {c : Char} (h : c ∈ numberText n) : c.isDigit = true := by
  rw [numberText_eq] at h
  exact Nat.isDigit_of_mem_toDigits (by decide) (by decide) h

/-- A sign or a separator is not in a number. -/
lemma notMem_numberText {c : Char} (h : c.isDigit = false) (n : ℕ) : c ∉ numberText n := by
  intro hc
  rw [isDigit_of_mem_numberText hc] at h
  cases h

lemma any_not_isDigit_numberText (n : ℕ) : (numberText n).any (fun c => !c.isDigit) = false := by
  rw [List.any_eq_false]
  intro c hc
  simp [isDigit_of_mem_numberText hc]

@[simp] lemma parseNumber_numberText (n : ℕ) : parseNumber (numberText n) = some n := by
  unfold parseNumber
  rw [if_neg]
  · rw [numberText_eq, Nat.ofDigitChars_ten_toDigits]
  · rw [not_or, any_not_isDigit_numberText]
    exact ⟨numberText_ne_nil n, Bool.false_ne_true⟩

/-- What the text of an item without its step is made of. -/
lemma WeekdayBase.mem_text {base : WeekdayBase} {c : Char} (h : c ∈ base.text) :
    c = '*' ∨ c = '-' ∨ c.isDigit = true := by
  cases base with
  | all => exact .inl (List.mem_singleton.1 h)
  | value n => exact .inr (.inr (isDigit_of_mem_numberText h))
  | range first last =>
    rcases List.mem_append.1 h with h | h
    · exact .inr (.inr (isDigit_of_mem_numberText h))
    · rcases List.mem_cons.1 h with h | h
      · exact .inr (.inl h)
      · exact .inr (.inr (isDigit_of_mem_numberText h))

/-- A base has no slash. -/
lemma WeekdayBase.slash_notMem (base : WeekdayBase) : '/' ∉ base.text := by
  intro h
  rcases WeekdayBase.mem_text h with h | h | h <;> revert h <;> decide

/-- Nor is it empty. -/
lemma WeekdayBase.text_ne_nil (base : WeekdayBase) : base.text ≠ [] := by
  cases base with
  | all => exact List.cons_ne_nil _ _
  | value n => exact numberText_ne_nil n
  | range first last => exact List.append_ne_nil_of_left_ne_nil (numberText_ne_nil _) _

/-- What the text of an item is made of. -/
lemma WeekdayItem.mem_text {item : WeekdayItem} {c : Char} (h : c ∈ item.text) :
    c = '*' ∨ c = '-' ∨ c = '/' ∨ c.isDigit = true := by
  rcases List.mem_append.1 h with h | h
  · rcases WeekdayBase.mem_text h with h | h | h
    · exact .inl h
    · exact .inr (.inl h)
    · exact .inr (.inr (.inr h))
  · cases hstep : item.step with
    | none => simp [hstep, stepText] at h
    | some s =>
      rw [hstep] at h
      rcases List.mem_cons.1 h with h | h
      · exact .inr (.inr (.inl h))
      · exact .inr (.inr (.inr (isDigit_of_mem_numberText h)))

/-- An item has no comma. -/
lemma WeekdayItem.comma_notMem (item : WeekdayItem) : ',' ∉ item.text := by
  intro h
  rcases WeekdayItem.mem_text h with h | h | h | h <;> revert h <;> decide

/-! ## The parser on the text of a field -/

@[simp] lemma parseBase_text (base : WeekdayBase) : parseBase base.text = some base := by
  have hstar : ∀ n, '*' ∉ numberText n := notMem_numberText (by decide)
  have hminus : ∀ n, '-' ∉ numberText n := notMem_numberText (by decide)
  unfold parseBase
  cases base with
  | all => rfl
  | value n =>
    have hne : numberText n ≠ ['*'] := fun h => hstar n (by simp [h])
    simp [WeekdayBase.text, if_neg hne, splitOnce_of_notMem (hminus n)]
  | range first last =>
    have hne : numberText first ++ '-' :: numberText last ≠ ['*'] := fun h => by
      have hmem : '-' ∈ ['*'] := h ▸ List.mem_append_right _ List.mem_cons_self
      revert hmem
      decide
    simp [WeekdayBase.text, if_neg hne, splitOnce_append (hminus first)]

@[simp] lemma parseItem_text (item : WeekdayItem) : parseItem item.text = some item := by
  obtain ⟨base, step⟩ := item
  unfold parseItem WeekdayItem.text
  cases step with
  | none => simp [stepText, splitOnce_of_notMem base.slash_notMem]
  | some s => simp [stepText, splitOnce_append base.slash_notMem]

/-- Items are read back. -/
lemma mapM_parseItem (items : List WeekdayItem) :
    (items.map (·.text)).mapM parseItem = some items := by
  induction items with
  | nil => rfl
  | cons item items ih => simp [ih]

/-- **The parser reads a field item by item.** -/
theorem cronDays_fieldText {items : List WeekdayItem} (hitems : items ≠ []) :
    cronDays (fieldText items) = daysOfItems items := by
  have hsplit : (fieldText items).splitOnP (· = ',') = items.map (·.text) := by
    refine Split.splitOnP_intercalate (by decide) (by simpa using hitems) ?_
    intro part hpart c hc
    obtain ⟨item, -, rfl⟩ := List.mem_map.1 hpart
    exact decide_eq_false fun heq => item.comma_notMem (heq ▸ hc)
  rw [cronDays, hsplit, mapM_parseItem, Option.bind_some]

/-- A field is accepted exactly when all items are; it denotes the days of any of them. -/
lemma daysOfItems_eq_some_iff {items : List WeekdayItem} {days : DaySet} :
    daysOfItems items = some days ↔ (∀ item ∈ items, item.cronDays.isSome = true) ∧
      ∀ d, days d = true ↔ ∃ item ∈ items, ∃ set ∈ item.cronDays, set d = true := by
  have hdays : days = (fun d => items.any fun item => item.cronDays.any (· d)) ↔
      ∀ d, days d = true ↔ ∃ item ∈ items, ∃ set ∈ item.cronDays, set d = true := by
    rw [funext_iff]
    refine forall_congr' fun d => ?_
    rw [Bool.eq_iff_iff, List.any_eq_true]
    simp only [Option.any_eq_true, Option.mem_def]
  unfold daysOfItems
  split
  · rename_i hall
    rw [List.all_eq_true] at hall
    rw [Option.some_inj, eq_comm, hdays, and_iff_right hall]
  · rename_i hall
    rw [List.all_eq_true] at hall
    simp only [reduceCtorEq, false_iff, not_and]
    exact fun h => absurd h hall

end MyClaw
