import MyClaw.Scheduler.WeekdayFields

set_option autoImplicit false

/-!
# The weekdays of a normalized expression

`normalize_weekday_unix` (`scheduling_types/job_types.rs`) splits the weekday field at the slashes
before it splits at the commas, and leaves what follows the first slash alone: this is the step of
the first item that has one, and with it the items after it.  What follows a later slash is shifted,
and with it the steps there.

## Main definitions

* `placedItems` — the items of a field, with the number of slashes before each.
* `WeekdayItem.atPlace` — what becomes of an item behind so many slashes.
* `PreservesWeekdays` — the normalized expression denotes the days of the original one.
* `WeekdayItem.Plain`, `ReadAsMeant` — the items that are read as they are meant.

## Main results

* `weekdayField_normalize` — the weekday field of a normalized expression.
* `preservesWeekdays_iff` — exactly when the days are preserved.
-/

namespace MyClaw

/-! ## The shift of an item -/

/-- An item without its step, shifted. -/
def WeekdayBase.shifted : WeekdayBase → WeekdayBase
  | .all => .all
  | .value n => .value (shiftWeekdayNum n)
  | .range first last => .range (shiftWeekdayNum first) (shiftWeekdayNum last)

/-- What becomes of an item behind some slashes: behind one slash its numbers stay; its step stays when
there is no slash before, and is shifted like a weekday else. -/
def WeekdayItem.atPlace (slashes : ℕ) (item : WeekdayItem) : WeekdayItem where
  base := if slashes = 1 then item.base else item.base.shifted
  step := if slashes = 0 then item.step else item.step.map shiftWeekdayNum

/-- The items of a field, with the number of slashes before each. -/
def placedItems : ℕ → List WeekdayItem → List (ℕ × WeekdayItem)
  | _, [] => []
  | slashes, item :: items =>
    (slashes, item) :: placedItems (if item.step.isSome then slashes + 1 else slashes) items

/-- The items of a normalized field. -/
def shiftedItems (slashes : ℕ) (items : List WeekdayItem) : List WeekdayItem :=
  (placedItems slashes items).map fun p => p.2.atPlace p.1

/-! ## The property -/

/-- The weekday field of an expression of six fields. -/
def weekdayField (schedule : String) : Option (List Char) :=
  match (schedule.toList.splitOnP isWhiteSpace).filter (· ≠ []) with
  | [_, _, _, _, _, weekday] => some weekday
  | _ => none

/-- **The schedule is preserved**: the parser reads the weekday field of the normalized expression
as the days of the original one in Unix numbering. -/
def PreservesWeekdays (schedule : String) (items : List WeekdayItem) : Prop :=
  ∃ text, weekdayField (normalizeWeekdayUnix schedule) = some text ∧
    cronDays text = some (unixDays items)

/-- There is no slash before the item, and it is no range from another day to 7. -/
def WeekdayItem.Plain (slashes : ℕ) (item : WeekdayItem) : Prop :=
  slashes = 0 ∧ ∀ first, item.base = .range first 7 → first = 7

/-- **The items are read as they are meant**: those behind a slash, and the ranges to 7, are accepted as
they are shifted; every day that they get is meant by some item, and every day that they mean is got by
some item. -/
def ReadAsMeant (items : List WeekdayItem) : Prop :=
  ∀ p ∈ placedItems 0 items, p.2.Plain p.1 ∨
    ∃ set ∈ (p.2.atPlace p.1).cronDays, (∀ d, set d = true → unixDays items d = true) ∧
      ∀ d, p.2.unixDays d = true →
        ∃ q ∈ placedItems 0 items, ∃ set' ∈ (q.2.atPlace q.1).cronDays, set' d = true

/-! ## Texts -/

/-- `u32` from the text of a number. -/
lemma parseU32_numberText (n : ℕ) :
    parseU32 (numberText n) = if n < 2 ^ 32 then some n else none := by
  have hhead : (numberText n).head? ≠ some '+' := fun h =>
    notMem_numberText (by decide) n (List.mem_of_mem_head? h)
  unfold parseU32 parseUnsigned
  simp only [if_neg hhead]
  rw [if_neg]
  · rw [← Nat.ofDigitChars_eq_foldl, numberText_eq, Nat.ofDigitChars_ten_toDigits]
    exact if_congr (by omega) rfl rfl
  · rw [not_or, any_not_isDigit_numberText]
    exact ⟨numberText_ne_nil n, Bool.false_ne_true⟩

/-- Numbers from 8 on stay. -/
lemma shiftWeekdayNum_of_le {n : ℕ} (h : 8 ≤ n) : shiftWeekdayNum n = n := by
  unfold shiftWeekdayNum
  rw [if_neg (by omega), if_neg (by omega)]

lemma shiftWeekdayItem_numberText (n : ℕ) :
    shiftWeekdayItem (numberText n) = numberText (shiftWeekdayNum n) := by
  have hsplit : splitOnce '-' (numberText n) = none :=
    splitOnce_of_notMem (notMem_numberText (by decide) n)
  have hparse := parseU32_numberText n
  by_cases hn : n < 2 ^ 32
  · rw [if_pos hn] at hparse
    simp only [shiftWeekdayItem, hsplit, hparse]
    rfl
  · rw [if_neg hn] at hparse
    simp only [shiftWeekdayItem, hsplit, hparse]
    rw [shiftWeekdayNum_of_le (by omega)]

/-- The numbers of an item without its step are shifted. -/
lemma shiftWeekdayItem_text {item : WeekdayItem} (h : item.IsUnix) :
    shiftWeekdayItem item.base.text = item.base.shifted.text := by
  cases hbase : item.base with
  | all => rfl
  | value n => exact shiftWeekdayItem_numberText n
  | range first last =>
    obtain ⟨hle, hlast⟩ := h.range_le first last hbase
    have hsplit : splitOnce '-' (numberText first ++ '-' :: numberText last) =
        some (numberText first, numberText last) :=
      splitOnce_append (notMem_numberText (by decide) first)
    have hparse := parseU32_numberText first
    have hparse' := parseU32_numberText last
    rw [if_pos (by omega)] at hparse hparse'
    simp only [shiftWeekdayItem, WeekdayBase.text, hsplit, hparse, hparse']
    rfl

/-! ## The shift of a field -/

section

variable {atom rest : List Char} {slashes : ℕ}

/-- What becomes of the segments of a text behind some slashes. -/
def shiftSegments (slashes : ℕ) (text : List Char) : List Char :=
  ['/'].intercalate ((text.splitOnP (· = '/')).mapIdx fun i segment =>
    if slashes + i = 1 then segment else shiftWeekdaySegment segment)

/-- A segment of one item. -/
lemma shiftWeekdaySegment_of_notMem (h : ',' ∉ atom) :
    shiftWeekdaySegment atom = shiftWeekdayItem atom := by
  have hsplit : atom.splitOnP (· = ',') = [atom] :=
    List.splitOnP_eq_singleton fun c hc => decide_eq_false fun heq => h (heq ▸ hc)
  rw [shiftWeekdaySegment, hsplit, List.map_singleton, List.intercalate_singleton]

/-- A segment of several. -/
lemma shiftWeekdaySegment_comma (h : ',' ∉ atom) :
    shiftWeekdaySegment (atom ++ ',' :: rest) =
      shiftWeekdayItem atom ++ ',' :: shiftWeekdaySegment rest := by
  have hsplit : (atom ++ ',' :: rest).splitOnP (· = ',') = atom :: rest.splitOnP (· = ',') :=
    List.splitOnP_append_cons_of_forall_mem
      (fun c hc => decide_eq_false fun (heq : c = ',') => h (heq ▸ hc)) ',' (by decide) rest
  have hne : (rest.splitOnP (· = ',')).map shiftWeekdayItem ≠ [] := by
    simp
  rw [shiftWeekdaySegment, hsplit, List.map_cons, List.intercalate_cons_of_ne_nil hne,
    List.append_assoc, List.singleton_append, shiftWeekdaySegment]

/-- The last segment. -/
lemma shiftSegments_of_notMem (h : '/' ∉ atom) :
    shiftSegments slashes atom = if slashes = 1 then atom else shiftWeekdaySegment atom := by
  have hsplit : atom.splitOnP (· = '/') = [atom] :=
    List.splitOnP_eq_singleton fun c hc => decide_eq_false fun heq => h (heq ▸ hc)
  rw [shiftSegments, hsplit]
  simp [List.intercalate_singleton]

/-- A segment, and those behind the next slash. -/
lemma shiftSegments_slash (h : '/' ∉ atom) :
    shiftSegments slashes (atom ++ '/' :: rest) =
      (if slashes = 1 then atom else shiftWeekdaySegment atom) ++
        '/' :: shiftSegments (slashes + 1) rest := by
  have hsplit : (atom ++ '/' :: rest).splitOnP (· = '/') = atom :: rest.splitOnP (· = '/') :=
    List.splitOnP_append_cons_of_forall_mem
      (fun c hc => decide_eq_false fun (heq : c = '/') => h (heq ▸ hc)) '/' (by decide) rest
  have hne : (rest.splitOnP (· = '/')).mapIdx (fun i segment =>
      if slashes + 1 + i = 1 then segment else shiftWeekdaySegment segment) ≠ [] := by
    simp
  have hindex : (fun i (segment : List Char) =>
      if slashes + (i + 1) = 1 then segment else shiftWeekdaySegment segment) =
      fun i segment => if slashes + 1 + i = 1 then segment else shiftWeekdaySegment segment := by
    funext i segment
    rw [show slashes + (i + 1) = slashes + 1 + i by omega]
  rw [shiftSegments, hsplit, List.mapIdx_cons, hindex, List.intercalate_cons_of_ne_nil hne,
    List.append_assoc, List.singleton_append, shiftSegments]
  rfl

/-- An item, and what follows the comma behind it. -/
lemma shiftSegments_comma (hslash : '/' ∉ atom) (hcomma : ',' ∉ atom) :
    shiftSegments slashes (atom ++ ',' :: rest) =
      (if slashes = 1 then atom else shiftWeekdayItem atom) ++ ',' :: shiftSegments slashes rest := by
  obtain ⟨first, more, hrest⟩ := List.exists_cons_of_ne_nil (List.splitOnP_ne_nil (· = '/') rest)
  have hsplit : (atom ++ ',' :: rest).splitOnP (· = '/') = (atom ++ ',' :: first) :: more := by
    have hleft : ∀ c ∈ atom ++ [','], decide (c = '/') = false := by
      intro c hc
      refine decide_eq_false fun heq => ?_
      subst heq
      rcases List.mem_append.1 hc with hc | hc
      · exact hslash hc
      · revert hc
        decide
    rw [List.append_cons, Split.splitOnP_append_left hleft, hrest, List.modifyHead_cons,
      ← List.append_cons]
  have hhead : (if slashes + 0 = 1 then atom ++ ',' :: first
      else shiftWeekdaySegment (atom ++ ',' :: first)) =
      (if slashes = 1 then atom else shiftWeekdayItem atom) ++
        ',' :: if slashes = 1 then first else shiftWeekdaySegment first := by
    rw [Nat.add_zero]
    split
    · rfl
    · exact shiftWeekdaySegment_comma hcomma
  have hpush : ∀ (a b : List Char) (l : List (List Char)),
      ['/'].intercalate ((a ++ b) :: l) = a ++ ['/'].intercalate (b :: l) := by
    intro a b l
    cases l with
    | nil => rw [List.intercalate_singleton, List.intercalate_singleton]
    | cons x l => simp [List.intercalate_cons_cons]
  rw [shiftSegments, shiftSegments, hsplit, hrest, List.mapIdx_cons, List.mapIdx_cons, hhead,
    Nat.add_zero, List.append_cons, hpush, List.append_assoc]
  rfl

end

/-- What becomes of an item without its step, behind some slashes. -/
lemma base_atPlace {item : WeekdayItem} (h : item.IsUnix) (slashes : ℕ) :
    (if slashes = 1 then item.base.text else shiftWeekdayItem item.base.text) =
      (item.atPlace slashes).base.text := by
  unfold WeekdayItem.atPlace
  simp only
  split
  · rfl
  · exact shiftWeekdayItem_text h

/-- What becomes of a step. -/
lemma step_atPlace (slashes s : ℕ) :
    (if slashes + 1 = 1 then numberText s else shiftWeekdayItem (numberText s)) =
      numberText (if slashes = 0 then s else shiftWeekdayNum s) := by
  rw [shiftWeekdayItem_numberText]
  by_cases h : slashes = 0 <;> simp [h]

/-- A base has no comma. -/
lemma WeekdayBase.comma_notMem (base : WeekdayBase) : ',' ∉ base.text := by
  intro h
  rcases WeekdayBase.mem_text h with h | h | h <;> revert h <;> decide

/-- **A field is shifted** item by item. -/
theorem shiftSegments_fieldText {items : List WeekdayItem} (hunix : ∀ item ∈ items, item.IsUnix)
    (hitems : items ≠ []) (slashes : ℕ) :
    shiftSegments slashes (fieldText items) = fieldText (shiftedItems slashes items) := by
  have hslash : ∀ n, '/' ∉ numberText n := notMem_numberText (by decide)
  have hcomma : ∀ n, ',' ∉ numberText n := notMem_numberText (by decide)
  induction items generalizing slashes with
  | nil => exact absurd rfl hitems
  | cons item items ih =>
    have hbase := base_atPlace (hunix item List.mem_cons_self) slashes
    cases items with
    | nil =>
      have htext : fieldText [item] = item.base.text ++ stepText item.step := by
        simp [fieldText, WeekdayItem.text]
      rw [htext]
      cases hstep : item.step with
      | none =>
        rw [stepText, List.append_nil, shiftSegments_of_notMem item.base.slash_notMem,
          shiftWeekdaySegment_of_notMem item.base.comma_notMem, hbase]
        simp [shiftedItems, placedItems, fieldText, WeekdayItem.text, WeekdayItem.atPlace, hstep,
          stepText]
      | some s =>
        rw [stepText, shiftSegments_slash item.base.slash_notMem,
          shiftWeekdaySegment_of_notMem item.base.comma_notMem, hbase,
          shiftSegments_of_notMem (hslash s), shiftWeekdaySegment_of_notMem (hcomma s),
          step_atPlace]
        by_cases h : slashes = 0 <;>
          simp [shiftedItems, placedItems, fieldText, WeekdayItem.text, WeekdayItem.atPlace, hstep,
            stepText, h]
    | cons next items =>
      have htext : fieldText (item :: next :: items) =
          item.base.text ++ (stepText item.step ++ ',' :: fieldText (next :: items)) := by
        simp [fieldText, WeekdayItem.text, List.intercalate_cons_cons]
      have ih' := ih (fun x hx => hunix x (List.mem_cons_of_mem _ hx)) (List.cons_ne_nil _ _)
      rw [htext]
      cases hstep : item.step with
      | none =>
        rw [stepText, List.nil_append, shiftSegments_comma item.base.slash_notMem
          item.base.comma_notMem, hbase, ih' slashes]
        simp [shiftedItems, placedItems, fieldText, WeekdayItem.text, WeekdayItem.atPlace, hstep,
          stepText, List.intercalate_cons_cons]
      | some s =>
        rw [stepText, List.cons_append, shiftSegments_slash item.base.slash_notMem,
          shiftWeekdaySegment_of_notMem item.base.comma_notMem, hbase,
          shiftSegments_comma (hslash s) (hcomma s), step_atPlace, ih' (slashes + 1)]
        by_cases h : slashes = 0 <;>
          simp [shiftedItems, placedItems, fieldText, WeekdayItem.text, WeekdayItem.atPlace, hstep,
            stepText, h, List.intercalate_cons_cons]

/-! ## The shift of an expression -/

/-- A digit is no space. -/
lemma not_isWhiteSpace_of_isDigit {c : Char} (h : c.isDigit = true) : isWhiteSpace c = false := by
  rw [Char.isDigit, Bool.and_eq_true, decide_eq_true_eq, decide_eq_true_eq] at h
  obtain ⟨hlow, hhigh⟩ := h
  have hlow' : 48 ≤ c.toNat := hlow
  have hhigh' : c.toNat ≤ 57 := hhigh
  simp only [isWhiteSpace, Bool.or_eq_false_iff, Bool.and_eq_false_iff, decide_eq_false_iff_not,
    beq_eq_false_iff_ne]
  omega

/-- There is no white space in a field. -/
lemma not_isWhiteSpace_of_mem_fieldText {items : List WeekdayItem} {c : Char}
    (h : c ∈ fieldText items) : isWhiteSpace c = false := by
  induction items with
  | nil => cases h
  | cons item items ih =>
    have hitem : c ∈ item.text → isWhiteSpace c = false := by
      intro hc
      rcases WeekdayItem.mem_text hc with rfl | rfl | rfl | hc
      · decide
      · decide
      · decide
      · exact not_isWhiteSpace_of_isDigit hc
    cases items with
    | nil => exact hitem (by simpa [fieldText] using h)
    | cons next items =>
      have htext : fieldText (item :: next :: items) =
          item.text ++ ',' :: fieldText (next :: items) := by
        simp [fieldText, List.intercalate_cons_cons]
      rw [htext] at h
      rcases List.mem_append.1 h with h | h
      · exact hitem h
      · rcases List.mem_cons.1 h with rfl | h
        · decide
        · exact ih h

lemma fieldText_ne_nil {items : List WeekdayItem} (hitems : items ≠ []) : fieldText items ≠ [] := by
  have hitem : ∀ item : WeekdayItem, item.text ≠ [] := fun item =>
    List.append_ne_nil_of_left_ne_nil item.base.text_ne_nil _
  cases items with
  | nil => exact absurd rfl hitems
  | cons item items =>
    cases items with
    | nil => simpa [fieldText] using hitem item
    | cons next items => simp [fieldText, List.intercalate_cons_cons, hitem item]

lemma shiftedItems_ne_nil {items : List WeekdayItem} (hitems : items ≠ []) (slashes : ℕ) :
    shiftedItems slashes items ≠ [] := by
  cases items with
  | nil => exact absurd rfl hitems
  | cons item items => exact List.cons_ne_nil _ _

/-- **The weekday field of a normalized expression.** -/
theorem weekdayField_normalize {schedule : String} {items : List WeekdayItem}
    (hunix : ∀ item ∈ items, item.IsUnix) (hitems : items ≠ [])
    (hfield : weekdayField schedule = some (fieldText items)) :
    weekdayField (normalizeWeekdayUnix schedule) = some (fieldText (shiftedItems 0 items)) := by
  have hshift := shiftSegments_fieldText hunix hitems 0
  have hparts : ∀ part ∈ (schedule.toList.splitOnP isWhiteSpace).filter (· ≠ []),
      part ≠ [] ∧ ∀ c ∈ part, isWhiteSpace c = false := fun part hpart =>
    ⟨of_decide_eq_true (List.mem_filter.1 hpart).2,
      Split.eq_false_of_mem_splitOnP (List.mem_filter.1 hpart).1⟩
  unfold weekdayField at hfield
  split at hfield
  · rename_i sec min hour day month weekday hsplit
    obtain rfl := Option.some.inj hfield
    by_cases hstar : fieldText items = ['*']
    · -- a star stays, and is what it would become
      have hnormal : normalizeWeekdayUnix schedule = schedule := by
        unfold normalizeWeekdayUnix
        simp only [hsplit, hstar, if_true]
      have hsame : fieldText (shiftedItems 0 items) = ['*'] := by
        rw [← hshift, hstar]
        decide
      rw [hnormal, hsame, ← hstar, weekdayField, hsplit]
    · have hnormal : normalizeWeekdayUnix schedule = String.ofList ([' '].intercalate
          [sec, min, hour, day, month, fieldText (shiftedItems 0 items)]) := by
        rw [← hshift]
        unfold normalizeWeekdayUnix shiftSegments
        simp only [hsplit, if_neg hstar, Nat.zero_add]
      rw [hsplit] at hparts
      have hnew : ∀ part ∈ [sec, min, hour, day, month, fieldText (shiftedItems 0 items)],
          part ≠ [] ∧ ∀ c ∈ part, isWhiteSpace c = false := by
        intro part hpart
        simp only [List.mem_cons, List.not_mem_nil, or_false] at hpart hparts
        by_cases hlast : part = fieldText (shiftedItems 0 items)
        · rw [hlast]
          exact ⟨fieldText_ne_nil (shiftedItems_ne_nil hitems 0),
            fun c hc => not_isWhiteSpace_of_mem_fieldText hc⟩
        · exact hparts part (by tauto)
      have hsplit' : ([' '].intercalate [sec, min, hour, day, month,
          fieldText (shiftedItems 0 items)]).splitOnP isWhiteSpace =
            [sec, min, hour, day, month, fieldText (shiftedItems 0 items)] :=
        Split.splitOnP_intercalate (by decide) (List.cons_ne_nil _ _) fun part hpart =>
          (hnew part hpart).2
      have hfilter : [sec, min, hour, day, month, fieldText (shiftedItems 0 items)].filter (· ≠ []) =
          [sec, min, hour, day, month, fieldText (shiftedItems 0 items)] :=
        List.filter_eq_self.2 fun part hpart => decide_eq_true (hnew part hpart).1
      rw [hnormal, weekdayField, String.toList_ofList, hsplit', hfilter]
  · cases hfield

/-! ## The result -/

lemma inSteps_succ (first last step k : ℕ) :
    inSteps (first + 1) (last + 1) step (k + 1) = inSteps first last step k := by
  simp [inSteps]

/-- The shift of a weekday. -/
lemma shiftWeekdayNum_eq {n : ℕ} (h : n ≤ 7) : shiftWeekdayNum n = n % 7 + 1 := by
  unfold shiftWeekdayNum
  split
  · omega
  · rw [if_pos (by omega)]
    omega

/-- A range that does not go on to the next Sunday. -/
lemma range_unixDays {first last step : ℕ} (hlast : last ≤ 7) (hseven : last = 7 → first = 7)
    (hle : first ≤ last) (d : Fin 7) :
    inSteps (shiftWeekdayNum first) (shiftWeekdayNum last) step (d + 1) =
      (inSteps first last step d || inSteps first last step (d + 7)) := by
  rw [shiftWeekdayNum_eq (by omega), shiftWeekdayNum_eq hlast, inSteps_succ]
  by_cases heq : last = 7
  · obtain rfl := hseven heq
    subst heq
    by_cases hd : d.val = 0
    · simp [inSteps, hd]
    · have hlt := d.isLt
      rw [Bool.eq_iff_iff]
      simp only [inSteps, Bool.or_eq_true, Bool.and_eq_true, decide_eq_true_eq]
      omega
  · have hfirst : first % 7 = first := Nat.mod_eq_of_lt (by omega)
    have hlast' : last % 7 = last := Nat.mod_eq_of_lt (by omega)
    have hnext : inSteps first last step (d + 7) = false := by
      simp only [inSteps, Bool.and_eq_false_iff, decide_eq_false_iff_not]
      omega
    rw [hfirst, hlast', hnext, Bool.or_false]

/-- **A plain item** gets the days that it means. -/
lemma cronDays_atPlace_of_plain {item : WeekdayItem} {slashes : ℕ} (hunix : item.IsUnix)
    (hplain : item.Plain slashes) : (item.atPlace slashes).cronDays = some item.unixDays := by
  obtain ⟨rfl, hseven⟩ := hplain
  have hstep : item.step.getD 1 ≠ 0 := by
    cases hs : item.step with
    | none => exact Nat.one_ne_zero
    | some s => exact Nat.pos_iff_ne_zero.1 (hunix.step_pos s hs)
  have hplace : item.atPlace 0 = ⟨item.base.shifted, item.step⟩ := by
    simp [WeekdayItem.atPlace]
  rw [hplace, WeekdayItem.cronDays]
  simp only [if_neg hstep]
  cases hbase : item.base with
  | all =>
    simp only [WeekdayBase.shifted, Option.some_inj]
    funext d
    rw [WeekdayItem.unixDays, hbase]
    exact inSteps_succ 0 6 _ d
  | value n =>
    have hn := shiftWeekdayNum_eq (hunix.value_le n hbase)
    simp only [WeekdayBase.shifted, hn]
    rw [if_pos (by omega), Option.some_inj]
    funext d
    rw [WeekdayItem.unixDays, hbase]
    have hlast : (if item.step.isSome = true then 7 else n % 7 + 1) =
        (if item.step.isSome = true then 6 else n % 7) + 1 := by
      split <;> rfl
    rw [hlast]
    exact inSteps_succ _ _ _ _
  | range first last =>
    obtain ⟨hle, hlast⟩ := hunix.range_le first last hbase
    have hfirst' := shiftWeekdayNum_eq (Nat.le_trans hle hlast)
    have hlast' := shiftWeekdayNum_eq hlast
    have hseven' : last = 7 → first = 7 := fun h => hseven first (h ▸ hbase)
    simp only [WeekdayBase.shifted]
    rw [if_pos, Option.some_inj]
    · funext d
      rw [WeekdayItem.unixDays, hbase]
      exact range_unixDays hlast hseven' hle d
    · rw [hfirst', hlast']
      by_cases h : last = 7
      · rw [hseven' h, h]
        decide
      · omega

/-- The items in their places. -/
lemma map_snd_placed (slashes : ℕ) (items : List WeekdayItem) :
    (placedItems slashes items).map (·.2) = items := by
  induction items generalizing slashes with
  | nil => rfl
  | cons item items ih => rw [placedItems, List.map_cons, ih]

/-- **The days of a normalized expression**: they are those of the original one in Unix numbering
exactly when each item is read as it is meant. -/
theorem preservesWeekdays_iff (schedule : String) (items : List WeekdayItem)
    (hunix : ∀ item ∈ items, item.IsUnix) (hitems : items ≠ [])
    (hfield : weekdayField schedule = some (fieldText items)) :
    PreservesWeekdays schedule items ↔ ReadAsMeant items := by
  have hcron : PreservesWeekdays schedule items ↔
      daysOfItems (shiftedItems 0 items) = some (unixDays items) := by
    unfold PreservesWeekdays
    rw [weekdayField_normalize hunix hitems hfield]
    simp only [Option.some_inj, exists_eq_left']
    rw [cronDays_fieldText (shiftedItems_ne_nil hitems 0)]
  have hmem : ∀ p ∈ placedItems 0 items, p.2 ∈ items := fun p hp => by
    have hsnd := List.mem_map_of_mem (f := (·.2)) hp
    rwa [map_snd_placed] at hsnd
  have hplaced : ∀ item ∈ items, ∃ p ∈ placedItems 0 items, p.2 = item := fun item hitem => by
    rw [← map_snd_placed 0 items] at hitem
    exact List.mem_map.1 hitem
  have hplain : ∀ p ∈ placedItems 0 items, p.2.Plain p.1 →
      (p.2.atPlace p.1).cronDays = some p.2.unixDays := fun p hp h =>
    cronDays_atPlace_of_plain (hunix p.2 (hmem p hp)) h
  have hshifted : ∀ item, item ∈ shiftedItems 0 items ↔
      ∃ p ∈ placedItems 0 items, p.2.atPlace p.1 = item := fun item => List.mem_map
  rw [hcron, daysOfItems_eq_some_iff]
  constructor
  · rintro ⟨haccepted, hdays⟩ p hp
    obtain ⟨set, hset⟩ := Option.isSome_iff_exists.1 (haccepted _ ((hshifted _).2 ⟨p, hp, rfl⟩))
    refine .inr ⟨set, hset, fun d hd => ?_, fun d hd => ?_⟩
    · exact (hdays d).2 ⟨_, (hshifted _).2 ⟨p, hp, rfl⟩, set, hset, hd⟩
    · have hmeant : unixDays items d = true := List.any_eq_true.2 ⟨p.2, hmem p hp, hd⟩
      obtain ⟨item, hitem, set', hset', hd'⟩ := (hdays d).1 hmeant
      obtain ⟨q, hq, rfl⟩ := (hshifted item).1 hitem
      exact ⟨q, hq, set', hset', hd'⟩
  · intro hread
    refine ⟨fun item hitem => ?_, fun d => ⟨fun hd => ?_, ?_⟩⟩
    · obtain ⟨p, hp, rfl⟩ := (hshifted item).1 hitem
      rcases hread p hp with h | ⟨set, hset, -⟩
      · rw [hplain p hp h]
        rfl
      · rw [hset]
        rfl
    · obtain ⟨item, hitem, hday⟩ := List.any_eq_true.1 hd
      obtain ⟨p, hp, rfl⟩ := hplaced item hitem
      rcases hread p hp with h | ⟨-, -, -, hcovered⟩
      · exact ⟨_, (hshifted _).2 ⟨p, hp, rfl⟩, _, hplain p hp h, hday⟩
      · obtain ⟨q, hq, set', hset', hd'⟩ := hcovered d hday
        exact ⟨_, (hshifted _).2 ⟨q, hq, rfl⟩, set', hset', hd'⟩
    · rintro ⟨item, hitem, set, hset, hd⟩
      obtain ⟨p, hp, rfl⟩ := (hshifted item).1 hitem
      rcases hread p hp with h | ⟨set', hset', hmeant, -⟩
      · rw [hplain p hp h] at hset
        obtain rfl := Option.some.inj hset
        exact List.any_eq_true.2 ⟨p.2, hmem p hp, hd⟩
      · rw [hset'] at hset
        obtain rfl := Option.some.inj hset
        exact hmeant d hd

/-- A list of a range with a step and of a number before it. -/
theorem preservesWeekdays_iff_plain :
    PreservesWeekdays "0 0 9 * * 0,2-6/2" [⟨.value 0, none⟩, ⟨.range 2 6, some 2⟩] ↔
      ReadAsMeant [⟨.value 0, none⟩, ⟨.range 2 6, some 2⟩] :=
  preservesWeekdays_iff "0 0 9 * * 0,2-6/2" _ (by
    intro item hitem
    simp only [List.mem_cons, List.not_mem_nil, or_false] at hitem
    rcases hitem with rfl | rfl
    · exact ⟨by rintro n ⟨⟩; decide, nofun, nofun⟩
    · exact ⟨nofun, by rintro a b ⟨⟩; decide, by rintro s ⟨⟩; decide⟩)
    (List.cons_ne_nil _ _) (by decide +kernel)

/-- The range from Friday to Sunday is turned into one that does not ascend. -/
theorem not_preservesWeekdays : ¬ ∀ (schedule : String) (items : List WeekdayItem),
    (∀ item ∈ items, item.IsUnix) → items ≠ [] →
      weekdayField schedule = some (fieldText items) → PreservesWeekdays schedule items := by
  intro h
  obtain ⟨text, htext, hdays⟩ := h "0 0 9 * * 5-7" [⟨.range 5 7, none⟩] (by
    intro item hitem
    obtain rfl := List.mem_singleton.1 hitem
    exact ⟨nofun, by rintro a b ⟨⟩; decide, nofun⟩)
    (List.cons_ne_nil _ _) (by decide +kernel)
  have hfield : weekdayField (normalizeWeekdayUnix "0 0 9 * * 5-7") = some ['6', '-', '1'] := by
    decide +kernel
  rw [hfield] at htext
  obtain rfl := Option.some.inj htext
  have hrejected : (cronDays ['6', '-', '1']).isSome = false := by decide +kernel
  rw [hdays] at hrejected
  cases hrejected

end MyClaw
