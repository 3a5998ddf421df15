import MyClaw.Context.ReminderRuns

set_option autoImplicit false

/-!
# What a session has been told of the date and the level

Of the lists the history is read again line by line; of the date and of the autonomy level it is only asked
whether a text occurs in it (`diff_date`, `diff_autonomy` in `agents/attachment.rs`).  A date that has
changed is told with another text than the one that is looked for, and a level is looked for wherever it
stands, so the manager does not know what was told last.

## Main definitions

* `DayLedger` — the days that are known in a session.
* `MarkedEvent` — the events whose texts have no such mark.

## Main results

* `tellsDate_run` — which turns say what day it is, and how.
* `tellsDate_again` — a day that came while the program ran is told by every turn.
* `tellsAutonomy_run` — a level is told exactly by the first turn that has it.

## Implementation notes

A run in which the history is rewritten has no such law: what is known then is what is left.
-/

namespace MyClaw

/-! ## Texts without marks -/

/-- A text without the beginning of a mark. -/
def Unmarked (text : List Char) : Prop :=
  ¬ "Current date: ".toList <:+: text ∧ ¬ "Current autonomy: **".toList <:+: text

instance (text : List Char) : Decidable (Unmarked text) := instDecidableAnd

/-- The texts of a turn have no mark. -/
structure UnmarkedFacts (facts : TurnFacts) : Prop where
  skills : ∀ skill ∈ facts.skills, Unmarked (skillLine skill)
  agents : ∀ agent ∈ facts.agents, Unmarked (agentLine agent)
  others : ∀ other ∈ facts.others, ∀ line ∈ other.lines, Unmarked line

/-- A plain name that is no date. -/
def UndatedName (name : List Char) : Prop := PlainName name ∧ ¬ "Current date: ".toList <:+: name

/-- A plain event whose texts have no mark, other than rewriting the history. -/
def MarkedEvent (s : ReminderState) (e : ReminderEvent) : Prop :=
  PlainEvent UndatedName s e ∧
    match e with
    | .turn facts user => UnmarkedFacts facts ∧ Unmarked user
    | .other msgs => ∀ msg ∈ msgs, Unmarked msg.text
    | .rewrite _ => False
    | _ => True

/-- A mark, and what is looked for: its text is told of the date or of the level only. -/
structure IsMark (mark : List Char) : Prop where
  nonempty : mark ≠ []
  newline : '\n' ∉ mark
  told : ∀ text, Unmarked text → ¬ mark <:+: text

lemma isMark_dateMarker (today : LocalDate) : IsMark (dateMarker today.date) where
  nonempty := List.append_ne_nil_of_left_ne_nil (by decide) _
  newline := List.not_mem_append (by decide) fun h => absurd (today.date_chars _ h) (by decide)
  told := fun _ htext hmark => htext.1 ((List.prefix_append _ _).isInfix.trans hmark)

lemma isMark_autonomyMarker (level : PermissionMode) : IsMark (autonomyMarker level) where
  nonempty := by cases level <;> decide
  newline := by cases level <;> decide
  told := fun _ htext hmark => htext.2 (List.IsInfix.trans (by cases level <;> decide) hmark)

section Lines

variable {p : Pending} {user mark : List Char}

/-- The line about a level. -/
def autonomyLine (level : PermissionMode) : List Char :=
  autonomyMarker level ++ ". ".toList ++ level.explanation.toList

/-- Both marks have a capital. -/
lemma unmarked_of_notMem {text : List Char} (h : 'C' ∉ text) : Unmarked text :=
  ⟨fun hmark => h (hmark.subset (by decide)), fun hmark => h (hmark.subset (by decide))⟩

/-- What is struck has no mark. -/
lemma unmarked_removedLine {name : List Char} (h : UndatedName name) : Unmarked (removedLine name) := by
  have hline : removedLine name = "- ~".toList ++ '~' :: (name ++ '~' :: ['~']) := by
    simp [removedLine]
  constructor
  · rw [hline, Split.infix_append_cons_iff (by decide), Split.infix_append_cons_iff (by decide)]
    rintro (hmark | hmark | hmark)
    · exact absurd hmark (by decide)
    · exact h.2 hmark
    · exact absurd hmark (by decide)
  · intro hmark
    have hstar : '*' ∈ removedLine name := hmark.subset (by decide)
    have hname := h.1.star
    simp [hline, hname] at hstar

/-- Lines of a list without a mark. -/
lemma unmarked_list {header : List Char} {intro intro' : String} {removed : List (List Char)}
    {added : List (List Char)} (hheader : Unmarked header) (hintro : Unmarked intro.toList)
    (hintro' : Unmarked intro'.toList) (hremoved : ∀ name ∈ removed, UndatedName name)
    (hadded : ∀ line ∈ added, Unmarked line) :
    ∀ line ∈ header :: (removedLines intro removed ++ addedLines intro' added), Unmarked line := by
  refine List.forall_mem_cons.2 ⟨hheader, List.forall_mem_append.2 ⟨?_, ?_⟩⟩
  · rw [removedLines]
    split_ifs
    · exact fun _ hline => absurd hline List.not_mem_nil
    · refine List.forall_mem_append.2 ⟨List.forall_mem_cons.2 ⟨hintro, List.forall_mem_map.2
        fun name hname => unmarked_removedLine (hremoved name hname)⟩, ?_⟩
      exact List.forall_mem_singleton.2 (by decide)
  · rw [addedLines]
    split_ifs
    · exact fun _ hline => absurd hline List.not_mem_nil
    · exact List.forall_mem_cons.2 ⟨hintro', hadded⟩

/-- The texts of a reminder have no mark. -/
structure UnmarkedPending (p : Pending) : Prop where
  skills : ∀ delta, p.skills = some delta →
    (∀ skill ∈ delta.1, Unmarked (skillLine skill)) ∧ ∀ name ∈ delta.2, UndatedName name
  agents : ∀ delta, p.agents = some delta →
    (∀ agent ∈ delta.1, Unmarked (agentLine agent)) ∧ ∀ name ∈ delta.2, UndatedName name
  others : ∀ other ∈ p.others, ∀ line ∈ other.lines, Unmarked line

/-- The section of the skills has no mark. -/
lemma unmarked_renderSkills {added : List Skill} {removed : List (List Char)}
    (hadded : ∀ skill ∈ added, Unmarked (skillLine skill)) (hremoved : ∀ name ∈ removed, UndatedName name) :
    ∀ line ∈ renderSkills added removed, Unmarked line := by
  refine unmarked_list (unmarked_of_notMem (by decide)) (unmarked_of_notMem ?_) (unmarked_of_notMem ?_)
    hremoved (List.forall_mem_map.2 hadded)
  · refine notMem_toList (rfl : _ = String.ofList _) ?_
    decide
  · refine notMem_toList (rfl : _ = String.ofList _) ?_
    decide

/-- The section of the sub-agents has no mark. -/
lemma unmarked_renderAgents {added : List (List Char × List Char)} {removed : List (List Char)}
    (hadded : ∀ agent ∈ added, Unmarked (agentLine agent))
    (hremoved : ∀ name ∈ removed, UndatedName name) :
    ∀ line ∈ renderAgents added removed, Unmarked line := by
  refine unmarked_list (unmarked_of_notMem (by decide)) (unmarked_of_notMem ?_) (unmarked_of_notMem ?_)
    hremoved (List.forall_mem_map.2 hadded)
  · refine notMem_toList (rfl : _ = String.ofList _) ?_
    decide
  · refine notMem_toList (rfl : _ = String.ofList _) ?_
    decide

/-- The other sections have no mark. -/
lemma unmarked_other {other : OtherSection} (h : ∀ line ∈ other.lines, Unmarked line) :
    ∀ line ∈ other.render, Unmarked line := by
  cases other with
  | memory added =>
    have hintro : 'C' ∉ memoryIntro.toList := by
      refine notMem_toList (rfl : _ = String.ofList _) ?_
      decide
    exact List.forall_mem_cons.2 ⟨unmarked_of_notMem (by decide),
      List.forall_mem_cons.2 ⟨unmarked_of_notMem hintro, h⟩⟩
  | drafts lines => exact List.forall_mem_cons.2 ⟨unmarked_of_notMem (by decide), h⟩

/-- A mark in a section is in the line about the date or in the one about the level. -/
lemma mark_mem_sections (hmark : IsMark mark) (h : UnmarkedPending p) {lines : List (List Char)}
    (hlines : lines ∈ p.sections) {line : List Char} (hline : line ∈ lines) (hfound : mark <:+: line) :
    p.date = some line ∨ ∃ level, p.autonomy = some level ∧ line = autonomyLine level := by
  simp only [Pending.sections, List.mem_append, List.mem_map, Option.mem_toList] at hlines
  rcases hlines with (((⟨line', hdate, rfl⟩ | ⟨level, hlevel, rfl⟩) | ⟨delta, hdelta, rfl⟩) |
    ⟨delta, hdelta, rfl⟩) | ⟨other, hother, rfl⟩
  · rw [List.mem_singleton.1 hline]
    exact .inl hdate
  · have hheader : Unmarked "## Autonomy Level Changed".toList := by decide
    rw [renderAutonomy, List.mem_cons, List.mem_cons, List.mem_singleton] at hline
    rcases hline with rfl | rfl | rfl
    · exact absurd hfound (hmark.told _ hheader)
    · exact absurd hfound (hmark.told _ (by decide))
    · exact .inr ⟨level, hlevel, rfl⟩
  · obtain ⟨hadded, hremoved⟩ := h.skills delta hdelta
    exact absurd hfound (hmark.told line (unmarked_renderSkills hadded hremoved line hline))
  · obtain ⟨hadded, hremoved⟩ := h.agents delta hdelta
    exact absurd hfound (hmark.told line (unmarked_renderAgents hadded hremoved line hline))
  · exact absurd hfound (hmark.told line (unmarked_other (h.others other hother) line hline))

/-- A line of a section is a line of the message. -/
lemma mem_lines {lines : List (List Char)} {line : List Char} (hlines : lines ∈ p.sections)
    (hline : line ∈ lines) : line ∈ p.lines := by
  rw [Pending.lines, if_neg (List.ne_nil_of_mem hlines)]
  exact List.mem_cons_of_mem _ (List.mem_append_left _ (Split.mem_intercalate_of_mem hline hlines))

/-- A message has a mark exactly if it is told. -/
lemma mark_infix_turnText_iff (hmark : IsMark mark) (h : UnmarkedPending p) (huser : Unmarked user) :
    mark <:+: turnText p user ↔ (∃ line, p.date = some line ∧ mark <:+: line) ∨
      ∃ level, p.autonomy = some level ∧ mark <:+: autonomyLine level := by
  rw [turnText_eq, Split.infix_intercalate_iff hmark.newline hmark.nonempty]
  constructor
  · rintro ⟨line, hline, hfound⟩
    have htold : Unmarked line → False := fun hline => hmark.told line hline hfound
    rcases List.mem_append.1 hline with hline | hline
    · rw [Pending.lines] at hline
      split_ifs at hline
      · cases hline
      · rcases List.mem_cons.1 hline with rfl | hline
        · exact (htold (by decide)).elim
        · rcases List.mem_append.1 hline with hline | hline
          · rcases Split.mem_intercalate hline with hline | ⟨lines, hlines, hline⟩
            · rw [List.mem_singleton.1 hline] at htold
              exact (htold (by decide)).elim
            · rcases mark_mem_sections hmark h hlines hline hfound with hdate | ⟨level, hlevel, rfl⟩
              · exact .inl ⟨line, hdate, hfound⟩
              · exact .inr ⟨level, hlevel, hfound⟩
          · have hclose : ∀ line ∈ ["</system-reminder>".toList, []], Unmarked line := by decide
            exact (htold (hclose line hline)).elim
    · rw [List.mem_singleton.1 hline] at htold
      exact (htold huser).elim
  · rintro (⟨line, hdate, hfound⟩ | ⟨level, hlevel, hfound⟩)
    · have hsection : [line] ∈ p.sections := by simp [Pending.sections, hdate]
      exact ⟨line, List.mem_append_left _ (mem_lines hsection List.mem_cons_self), hfound⟩
    · have hsection : renderAutonomy level ∈ p.sections := by simp [Pending.sections, hlevel]
      have hline : autonomyLine level ∈ renderAutonomy level := by simp [renderAutonomy, autonomyLine]
      exact ⟨_, List.mem_append_left _ (mem_lines hsection hline), hfound⟩

/-- A message with a line about the date or the level is a reminder. -/
lemma reminder_infix_turnText (h : p.sections ≠ []) : "<system-reminder>".toList <:+: turnText p user := by
  rw [turnText, if_neg h]
  exact (List.prefix_append _ _).isInfix

end Lines

/-! ## The two marks -/

section Marks

variable {today day : LocalDate} {level level' : PermissionMode}

/-- The explanation of a level has no mark. -/
lemma capital_notMem_explanation : 'C' ∉ level.explanation.toList := by
  cases level
  · refine notMem_toList (rfl : _ = String.ofList _) ?_
    decide
  · refine notMem_toList (rfl : _ = String.ofList _) ?_
    decide
  · refine notMem_toList (rfl : _ = String.ofList _) ?_
    decide

/-- The line about a level, from its first character. -/
lemma autonomyLine_eq : ∃ rest, autonomyLine level = 'C' :: rest ∧ 'C' ∉ rest := by
  have hmarker : autonomyMarker level = 'C' :: (autonomyMarker level).tail := by cases level <;> rfl
  have htail : 'C' ∉ (autonomyMarker level).tail := by cases level <;> decide
  refine ⟨(autonomyMarker level).tail ++ ". ".toList ++ level.explanation.toList, ?_, ?_⟩
  · rw [autonomyLine, hmarker]
    rfl
  · exact List.not_mem_append (List.not_mem_append htail (by decide)) capital_notMem_explanation

/-- A line about a level says this one. -/
lemma autonomyMarker_infix_iff : autonomyMarker level <:+: autonomyLine level' ↔ level = level' := by
  constructor
  · intro hfound
    obtain ⟨rest, hline, hrest⟩ := @autonomyLine_eq level'
    have hprefix : autonomyMarker level <+: autonomyLine level' := by
      rw [hline, List.infix_cons_iff] at hfound
      rw [hline]
      refine hfound.resolve_right fun hfound => hrest (hfound.subset ?_)
      cases level <;> decide
    have htake : (autonomyMarker level).take 21 = (autonomyMarker level').take 21 := by
      have hlong : ∀ l, 21 ≤ (autonomyMarker l).length := fun l => by cases l <;> decide
      obtain ⟨after, hafter⟩ := hprefix
      have htake := congrArg (List.take 21) hafter
      rwa [List.take_append_of_le_length (hlong level), autonomyLine, List.append_assoc,
        List.take_append_of_le_length (hlong level')] at htake
    revert htake
    cases level <;> cases level' <;> decide
  · rintro rfl
    rw [autonomyLine, List.append_assoc]
    exact (List.prefix_append _ _).isInfix

lemma weekday_chars (today : LocalDate) : '*' ∉ today.weekday ∧ 'C' ∉ today.weekday := by
  have hall : ∀ weekday ∈ weekdays, '*' ∉ weekday ∧ 'C' ∉ weekday := by decide
  exact hall _ today.weekday_mem

/-- The line about a date that has changed has neither mark. -/
lemma dateLine_true : '*' ∉ dateLine true today ∧ 'C' ∉ dateLine true today := by
  have hline : dateLine true today = "The date has changed. Today's date is now ".toList ++ today.date ++
      " (".toList ++ today.weekday ++ ").".toList := rfl
  obtain ⟨hstar, hcapital⟩ := weekday_chars today
  rw [hline]
  constructor
  · have hdate : '*' ∉ today.date := fun h => absurd (today.date_chars _ h) (by decide)
    have hopen : '*' ∉ "The date has changed. Today's date is now ".toList := by
      refine notMem_toList (rfl : _ = String.ofList _) ?_
      decide
    exact List.not_mem_append (List.not_mem_append (List.not_mem_append (List.not_mem_append hopen
      hdate) (by decide)) hstar) (by decide)
  · have hdate : 'C' ∉ today.date := fun h => absurd (today.date_chars _ h) (by decide)
    have hopen : 'C' ∉ "The date has changed. Today's date is now ".toList := by
      refine notMem_toList (rfl : _ = String.ofList _) ?_
      decide
    exact List.not_mem_append (List.not_mem_append (List.not_mem_append (List.not_mem_append hopen
      hdate) (by decide)) hcapital) (by decide)

/-- The line about a date: no other place of it looks like the beginning of a mark. -/
lemma dateLine_false (today : LocalDate) : ∃ before after,
    dateLine false today = dateMarker today.date ++ (before ++ 'T' :: 'C' :: after) ∧
      ('*' ∉ before ∧ 'C' ∉ before) ∧ ('*' ∉ after ∧ 'C' ∉ after) ∧ after.head? ≠ some 'u' := by
  obtain ⟨hstar, hcapital⟩ := weekday_chars today
  have hoffset : ∀ c, c ∉ "+-0123456789".toList → c ∉ today.offset := fun c hc hmem =>
    hc (today.offset_chars c hmem)
  refine ⟨" (".toList ++ (today.weekday ++ ", U".toList),
    today.offset ++ "). Use this for any date-relative references.".toList, ?_, ⟨?_, ?_⟩, ⟨?_, ?_⟩, ?_⟩
  · have hzone : ", UTC".toList = ", U".toList ++ ['T', 'C'] := by decide
    have hline : dateLine false today = dateMarker today.date ++ " (".toList ++ today.weekday ++
        ", UTC".toList ++ today.offset ++ "). Use this for any date-relative references.".toList := rfl
    rw [hline, hzone]
    generalize "). Use this for any date-relative references.".toList = close
    simp only [List.append_assoc, List.cons_append, List.nil_append]
  · exact List.not_mem_append (by decide) (List.not_mem_append hstar (by decide))
  · exact List.not_mem_append (by decide) (List.not_mem_append hcapital (by decide))
  · refine List.not_mem_append (hoffset _ (by decide)) (notMem_toList (rfl : _ = String.ofList _) ?_)
    decide
  · refine List.not_mem_append (hoffset _ (by decide)) (notMem_toList (rfl : _ = String.ofList _) ?_)
    decide
  · cases hchars : today.offset with
    | nil => decide
    | cons c rest =>
      have hc : c ≠ 'u' := fun heq => hoffset 'u' (by decide) (hchars ▸ heq ▸ List.mem_cons_self)
      exact fun h => hc (Option.some.inj h)

/-- A line about the date does not say a level. -/
lemma not_autonomyMarker_infix_dateLine {changed : Bool} :
    ¬ autonomyMarker level <:+: dateLine changed today := by
  intro hfound
  have hmem : '*' ∈ dateLine changed today := hfound.subset (by cases level <;> decide)
  have hdate : '*' ∉ today.date := fun h => absurd (today.date_chars _ h) (by decide)
  cases changed with
  | true => exact dateLine_true.1 hmem
  | false =>
    obtain ⟨before, after, hline, hbefore, hafter, -⟩ := dateLine_false today
    rw [hline] at hmem
    refine absurd hmem (List.not_mem_append (List.not_mem_append (by decide) hdate)
      (List.not_mem_append hbefore.1 ?_))
    simp [hafter.1]

/-- A line about a level does not say a date. -/
lemma not_dateMarker_infix_autonomyLine : ¬ dateMarker today.date <:+: autonomyLine level := by
  intro hfound
  obtain ⟨rest, hline, hrest⟩ := @autonomyLine_eq level
  rw [hline, List.infix_cons_iff, ← hline] at hfound
  rcases hfound with ⟨after, hafter⟩ | hfound
  · have hdate : (dateMarker today.date ++ after).take 10 = "Current da".toList := by
      unfold dateMarker
      rw [List.append_assoc]
      exact List.take_append_of_le_length (by decide)
    have hlevel : (autonomyLine level).take 10 = "Current au".toList := by
      have hlong : 10 ≤ (autonomyMarker level).length := by cases level <;> decide
      have hmarker : (autonomyMarker level).take 10 = "Current au".toList := by
        cases level <;> decide
      unfold autonomyLine
      rw [List.append_assoc, List.take_append_of_le_length hlong, hmarker]
    rw [hafter, hlevel] at hdate
    exact absurd hdate (by decide)
  · exact hrest (hfound.subset (List.mem_append_left _ (by decide)))

/-- A line about the date says this one, unless it has changed. -/
lemma dateMarker_infix_iff {changed : Bool} :
    dateMarker day.date <:+: dateLine changed today ↔ changed = false ∧ day.date = today.date := by
  have hcapital : 'C' ∈ dateMarker day.date := List.mem_append_left _ (by decide)
  have hdate : 'C' ∉ today.date := fun h => absurd (today.date_chars _ h) (by decide)
  constructor
  · intro hfound
    cases changed with
    | true => exact absurd (hfound.subset hcapital) dateLine_true.2
    | false =>
      obtain ⟨before, after, hline, hbefore, hafter, hu⟩ := dateLine_false today
      have hnotT : 'T' ∉ dateMarker day.date :=
        List.not_mem_append (by decide) fun h => absurd (day.date_chars _ h) (by decide)
      rw [hline, ← List.append_assoc, Split.infix_append_cons_iff hnotT] at hfound
      refine ⟨rfl, ?_⟩
      rcases hfound with hfound | hfound
      · have hmarker : dateMarker today.date ++ before =
            'C' :: ("urrent date: ".toList ++ (today.date ++ before)) := rfl
        have htail : 'C' ∉ "urrent date: ".toList ++ (today.date ++ before) :=
          List.not_mem_append (by decide) (List.not_mem_append hdate hbefore.2)
        rw [hmarker, List.infix_cons_iff, ← hmarker] at hfound
        have hprefix := hfound.resolve_right fun hfound => htail (hfound.subset hcapital)
        unfold dateMarker at hprefix
        rw [List.append_assoc, List.prefix_append_right_inj] at hprefix
        have hlength : day.date.length = today.date.length := day.length_date.trans today.length_date.symm
        exact (List.prefix_of_prefix_length_le hprefix (List.prefix_append _ _) hlength.le).eq_of_length
          hlength
      · rw [List.infix_cons_iff] at hfound
        rcases hfound with ⟨rest, hrest⟩ | hfound
        · have hmarker : dateMarker day.date ++ rest =
              'C' :: 'u' :: ("rrent date: ".toList ++ (day.date ++ rest)) := rfl
          rw [hmarker] at hrest
          exact absurd (congrArg List.head? (List.cons.inj hrest).2.symm) hu
        · exact absurd (hfound.subset hcapital) hafter.2
  · rintro ⟨rfl, heq⟩
    obtain ⟨before, after, hline, -⟩ := dateLine_false today
    rw [hline, heq]
    exact (List.prefix_append _ _).isInfix

end Marks

/-! ## Which messages have a mark -/

section Mentions

variable {history msgs : List HistoryText} {mark : List Char} {p : Pending} {user : List Char}
  {facts : TurnFacts} {last : Option (List Char)} {announced : AnnouncedState}

lemma mentions_append : mentions (history ++ msgs) mark ↔ mentions history mark ∨ mentions msgs mark := by
  simp only [mentions, List.mem_append, or_and_right, exists_or]

/-- Messages without marks are no matter. -/
lemma not_mentions_unmarked (hmark : IsMark mark) (h : ∀ msg ∈ msgs, Unmarked msg.text) :
    ¬ mentions msgs mark := by
  rintro ⟨msg, hmsg, -, hfound⟩
  exact hmark.told msg.text (h msg hmsg) hfound

/-- The message of a turn has the marks that are told. -/
lemma mentions_turnText_iff (hmark : IsMark mark) (h : UnmarkedPending p) (huser : Unmarked user) :
    mentions [⟨"user", turnText p user⟩] mark ↔ (∃ line, p.date = some line ∧ mark <:+: line) ∨
      ∃ level, p.autonomy = some level ∧ mark <:+: autonomyLine level := by
  rw [← mark_infix_turnText_iff hmark h huser, mentions]
  constructor
  · rintro ⟨msg, hmsg, -, hfound⟩
    rwa [List.mem_singleton.1 hmsg] at hfound
  · intro hfound
    refine ⟨_, List.mem_singleton_self _, reminder_infix_turnText fun hnil => ?_, hfound⟩
    rw [turnText, if_pos hnil] at hfound
    exact hmark.told user huser hfound

/-- What a turn without marks tells has none besides. -/
lemma unmarkedPending_diffAll (hfacts : UnmarkedFacts facts)
    (hannounced : rebuildFromHistory history = some announced)
    (hplain : PlainNames UndatedName announced) (hp : diffAll last facts history = some p) :
    UnmarkedPending p := by
  rw [diffAll, hannounced] at hp
  cases hp
  refine ⟨fun delta hdelta => ?_, fun delta hdelta => ?_, hfacts.others⟩
  · obtain ⟨hadded, hremoved⟩ := of_diffList hdelta
    exact ⟨fun skill hskill => hfacts.skills skill (hadded skill hskill),
      fun name hname => hplain.1 name (hremoved name hname)⟩
  · obtain ⟨hadded, hremoved⟩ := of_diffList hdelta
    exact ⟨fun agent hagent => hfacts.agents agent (hadded agent hagent),
      fun name hname => hplain.2 name (hremoved name hname)⟩

/-- After a turn its day is known if no day was told since the program started. -/
lemma mentions_date_turn (hfacts : UnmarkedFacts facts) (huser : Unmarked user)
    (hannounced : rebuildFromHistory history = some announced)
    (hplain : PlainNames UndatedName announced) (hp : diffAll last facts history = some p)
    (day : LocalDate) :
    mentions (history ++ [⟨"user", turnText p user⟩]) (dateMarker day.date) ↔
      mentions history (dateMarker day.date) ∨ (last = none ∧ day.date = facts.today.date) := by
  rw [mentions_append, mentions_turnText_iff (isMark_dateMarker day)
    (unmarkedPending_diffAll hfacts hannounced hplain hp) huser]
  have hdate : p.date = diffDate last facts.today history := by
    rw [diffAll, hannounced] at hp
    cases hp
    rfl
  rw [hdate, diffDate]
  constructor
  · rintro (hold | ⟨line, hline, hfound⟩ | ⟨level, -, hfound⟩)
    · exact .inl hold
    · split_ifs at hline
      cases hline
      obtain ⟨hnone, heq⟩ := dateMarker_infix_iff.1 hfound
      exact .inr ⟨Option.isNone_iff_eq_none.1 (Option.isSome_eq_false_iff.1 hnone), heq⟩
    · exact absurd hfound not_dateMarker_infix_autonomyLine
  · rintro (hold | ⟨rfl, heq⟩)
    · exact .inl hold
    · by_cases hold : mentions history (dateMarker facts.today.date)
      · exact .inl (heq ▸ hold)
      · refine .inr (.inl ⟨_, if_neg hold, dateMarker_infix_iff.2 ⟨rfl, heq⟩⟩)

/-- After a turn its level is known. -/
lemma mentions_autonomy_turn (hfacts : UnmarkedFacts facts) (huser : Unmarked user)
    (hannounced : rebuildFromHistory history = some announced)
    (hplain : PlainNames UndatedName announced) (hp : diffAll last facts history = some p)
    (level : PermissionMode) :
    mentions (history ++ [⟨"user", turnText p user⟩]) (autonomyMarker level) ↔
      mentions history (autonomyMarker level) ∨ facts.autonomy = level := by
  rw [mentions_append, mentions_turnText_iff (isMark_autonomyMarker level)
    (unmarkedPending_diffAll hfacts hannounced hplain hp) huser]
  have hparts : p.date = diffDate last facts.today history ∧
      p.autonomy = diffAutonomy facts.autonomy history := by
    rw [diffAll, hannounced] at hp
    cases hp
    exact ⟨rfl, rfl⟩
  rw [hparts.1, hparts.2, diffAutonomy]
  constructor
  · rintro (hold | ⟨line, hline, hfound⟩ | ⟨level', hlevel, hfound⟩)
    · exact .inl hold
    · rw [diffDate] at hline
      split_ifs at hline
      cases hline
      exact absurd hfound not_autonomyMarker_infix_dateLine
    · split_ifs at hlevel
      cases hlevel
      exact .inr (autonomyMarker_infix_iff.1 hfound).symm
  · rintro (hold | rfl)
    · exact .inl hold
    · by_cases hold : mentions history (autonomyMarker facts.autonomy)
      · exact .inl hold
      · exact .inr (.inr ⟨_, if_neg hold, autonomyMarker_infix_iff.2 rfl⟩)

end Mentions

/-! ## The days of a session -/

/-- What is known of the days: whether the program has told one since it started, and which ones the
history speaks of. -/
structure DayLedger where
  started : Bool := false
  days : List (List Char) := []

/-- A day is known from then on if it is the first one that is told since the program started. -/
def DayLedger.step (l : DayLedger) : ReminderEvent → DayLedger
  | .turn facts _ => ⟨true, if l.started then l.days else l.days ++ [facts.today.date]⟩
  | .unrecorded _ => ⟨true, l.days⟩
  | .other _ => l
  | .rewrite _ => l
  | .restart => ⟨false, l.days⟩

/-- A session and what is known of its days. -/
structure KnowsDays (s : ReminderState) (l : DayLedger) : Prop where
  plain : ∀ msg ∈ s.history, ReadsPlain UndatedName msg
  started : s.lastInjectedDate.isSome = l.started
  days : ∀ day : LocalDate, mentions s.history (dateMarker day.date) ↔ day.date ∈ l.days

section Days

variable {s : ReminderState} {l : DayLedger} {es fs : List ReminderEvent}

/-- A step of the session is a step of the ledger. -/
lemma KnowsDays.step (h : KnowsDays s l) {e : ReminderEvent} (he : MarkedEvent s e) :
    KnowsDays (reminderStep s e) (l.step e) := by
  have hplain := readsPlain_step (fun _ => And.left) h.plain he.1
  obtain ⟨announced, hannounced, hnames⟩ := exists_rebuild h.plain
  have hdiff : ∀ facts, ∃ p, diffAll s.lastInjectedDate facts s.history = some p := fun facts => by
    rw [diffAll, hannounced]
    exact ⟨_, rfl⟩
  cases e with
  | turn facts user =>
    obtain ⟨p, hp⟩ := hdiff facts
    have hstep : reminderStep s (.turn facts user) =
        ⟨s.history ++ [⟨"user", turnText p user⟩], some facts.today.date⟩ := by
      rw [reminderStep, hp]
    rw [hstep] at hplain ⊢
    refine ⟨hplain, rfl, fun day => ?_⟩
    rw [mentions_date_turn he.2.1 he.2.2 hannounced hnames hp, h.days, DayLedger.step, ← h.started]
    cases s.lastInjectedDate <;> simp
  | unrecorded facts =>
    obtain ⟨p, hp⟩ := hdiff facts
    have hstep : reminderStep s (.unrecorded facts) =
        { s with lastInjectedDate := some facts.today.date } := by
      rw [reminderStep, hp]
    rw [hstep] at hplain ⊢
    exact ⟨hplain, rfl, h.days⟩
  | other msgs =>
    refine ⟨hplain, h.started, fun day => ?_⟩
    have hother := not_mentions_unmarked (isMark_dateMarker day) he.2
    rw [reminderStep, mentions_append, or_iff_left hother, h.days]
    rfl
  | rewrite history => exact he.2.elim
  | restart => exact ⟨hplain, rfl, h.days⟩

/-- A run of the session is a run of the ledger. -/
theorem knowsDays_run (h : KnowsDays s l) (hes : Run.EachStep reminderStep MarkedEvent s es) :
    KnowsDays (Run.exec reminderStep s es) (Run.exec DayLedger.step l es) := by
  induction es generalizing s l with
  | nil => exact h
  | cons e es ih => exact ih (h.step hes.1) hes.2

lemma knowsDays_init : KnowsDays {} {} where
  plain := nofun
  started := rfl
  days := fun _ => iff_of_false (fun ⟨_, hmsg, _⟩ => List.not_mem_nil hmsg) List.not_mem_nil

/-- **Which turns say what day it is.**  A turn says nothing of a day that is known; else it says that the
date has changed if the program has told a day since it started, and what date it is if not. -/
theorem tellsDate_run (hes : Run.EachStep reminderStep MarkedEvent {} es) (today : LocalDate) :
    diffDate (Run.exec reminderStep {} es).lastInjectedDate today
        (Run.exec reminderStep {} es).history =
      if today.date ∈ (Run.exec DayLedger.step {} es).days then none
      else some (dateLine (Run.exec DayLedger.step {} es).started today) := by
  have hknows := knowsDays_run knowsDays_init hes
  rw [diffDate, hknows.started]
  exact if_congr (hknows.days today) rfl rfl

/-- While the program runs no further day gets known. -/
lemma ledger_running (hstarted : l.started = true) (hfs : .restart ∉ fs) :
    Run.exec DayLedger.step l fs = l := by
  induction fs with
  | nil => rfl
  | cons e fs ih =>
    have hstep : l.step e = l := by
      obtain ⟨started, days⟩ := l
      obtain rfl : started = true := hstarted
      cases e with
      | restart => exact absurd List.mem_cons_self hfs
      | _ => rfl
    rw [Run.exec_cons, hstep]
    exact ih fun hmem => hfs (List.mem_cons_of_mem _ hmem)

/-- The day after. -/
def aTuesday : TurnFacts :=
  { aMonday with
    today :=
      { aMonday.today with
        date := "2025-01-07".toList
        weekday := "Tuesday".toList
        length_date := by decide
        date_chars := forall_mem_of_all (by decide)
        weekday_mem := by decide } }

/-- The same day with all tools. -/
def aFullMonday : TurnFacts := { aMonday with autonomy := .full }

/-- A turn without skills, sub-agents and other sections has no mark. -/
lemma markedEvent_turn {facts : TurnFacts} {user : List Char} (hskills : facts.skills = [])
    (hagents : facts.agents = []) (hothers : facts.others = []) (hplain : InertText user)
    (hunmarked : Unmarked user) : MarkedEvent s (.turn facts user) := by
  refine ⟨⟨⟨?_, ?_, ?_⟩, hplain⟩, ⟨?_, ?_, ?_⟩, hunmarked⟩
  · rw [hskills]
    exact fun _ h => absurd h List.not_mem_nil
  · rw [hagents]
    exact fun _ h => absurd h List.not_mem_nil
  · rw [hothers]
    exact fun _ h => absurd h List.not_mem_nil
  · rw [hskills]
    exact fun _ h => absurd h List.not_mem_nil
  · rw [hagents]
    exact fun _ h => absurd h List.not_mem_nil
  · rw [hothers]
    exact fun _ h => absurd h List.not_mem_nil

end Days

/-! ## The levels of a session -/

section Levels

variable {s : ReminderState} {es : List ReminderEvent}

/-- A step makes a level known exactly if it is a turn that has it. -/
lemma mentions_autonomy_step (h : ∀ msg ∈ s.history, ReadsPlain UndatedName msg) {e : ReminderEvent}
    (he : MarkedEvent s e) {level : PermissionMode} :
    mentions (reminderStep s e).history (autonomyMarker level) ↔
      mentions s.history (autonomyMarker level) ∨
        ∃ facts user, .turn facts user = e ∧ facts.autonomy = level := by
  obtain ⟨announced, hannounced, hnames⟩ := exists_rebuild h
  have hnoTurn : (∀ facts user, .turn facts user ≠ e) →
      ¬ ∃ facts user, .turn facts user = e ∧ facts.autonomy = level :=
    fun hne ⟨facts, user, heq, _⟩ => hne facts user heq
  cases e with
  | turn facts user =>
    obtain ⟨p, hp⟩ : ∃ p, diffAll s.lastInjectedDate facts s.history = some p := by
      rw [diffAll, hannounced]
      exact ⟨_, rfl⟩
    rw [reminderStep, hp]
    dsimp only
    rw [mentions_autonomy_turn he.2.1 he.2.2 hannounced hnames hp]
    refine or_congr Iff.rfl ⟨fun hlevel => ⟨facts, user, rfl, hlevel⟩, ?_⟩
    rintro ⟨facts', user', heq, hlevel⟩
    cases heq
    exact hlevel
  | unrecorded facts =>
    rw [or_iff_left (hnoTurn fun _ _ heq => by cases heq), reminderStep]
    split <;> rfl
  | other msgs =>
    rw [or_iff_left (hnoTurn fun _ _ heq => by cases heq), reminderStep, mentions_append,
      or_iff_left (not_mentions_unmarked (isMark_autonomyMarker level) he.2)]
  | rewrite history => exact he.2.elim
  | restart =>
    rw [or_iff_left (hnoTurn fun _ _ heq => by cases heq)]
    rfl

/-- A level is known from the first turn on that has it. -/
lemma mentions_autonomy_run (h : ∀ msg ∈ s.history, ReadsPlain UndatedName msg)
    (hes : Run.EachStep reminderStep MarkedEvent s es) (level : PermissionMode) :
    mentions (Run.exec reminderStep s es).history (autonomyMarker level) ↔
      mentions s.history (autonomyMarker level) ∨
        ∃ facts user, .turn facts user ∈ es ∧ facts.autonomy = level := by
  induction es generalizing s with
  | nil => simp
  | cons e es ih =>
    have hplain := readsPlain_step (fun _ => And.left) h hes.1.1
    have hstep : mentions (reminderStep s e).history (autonomyMarker level) ↔
        mentions s.history (autonomyMarker level) ∨
          ∃ facts user, .turn facts user = e ∧ facts.autonomy = level := mentions_autonomy_step h hes.1
    rw [Run.exec_cons, ih hplain hes.2, hstep, or_assoc]
    simp only [List.mem_cons, or_and_right, exists_or]

/-- **A level is told exactly by the first turn that has it**: a turn whose level is the one of some turn
before says nothing of it, even if another level was in force since. -/
theorem tellsAutonomy_run (hes : Run.EachStep reminderStep MarkedEvent {} es) (level : PermissionMode) :
    diffAutonomy level (Run.exec reminderStep {} es).history = none ↔
      ∃ facts user, .turn facts user ∈ es ∧ facts.autonomy = level := by
  have hempty : ¬ mentions [] (autonomyMarker level) := fun ⟨_, hmsg, _⟩ => List.not_mem_nil hmsg
  have hknown := mentions_autonomy_run (fun _ hmsg => absurd hmsg List.not_mem_nil) hes level
  rw [or_iff_right hempty] at hknown
  rw [← hknown, diffAutonomy]
  split_ifs with hmentions
  · exact iff_of_true rfl hmentions
  · exact iff_of_false nofun hmentions

/-- After a turn with all tools the way back to the default is not told. -/
theorem tellsAutonomy_aMonday : diffAutonomy .default (Run.exec reminderStep {}
    [.turn aMonday "hi".toList, .turn aFullMonday "all tools".toList]).history = none := by
  have hes : Run.EachStep reminderStep MarkedEvent {}
      [.turn aMonday "hi".toList, .turn aFullMonday "all tools".toList] :=
    ⟨markedEvent_turn rfl rfl rfl (by decide) (by decide),
      markedEvent_turn rfl rfl rfl (by decide) (by decide), trivial⟩
  exact (tellsAutonomy_run hes .default).2 ⟨aMonday, _, List.mem_cons_self, rfl⟩

end Levels

end MyClaw
