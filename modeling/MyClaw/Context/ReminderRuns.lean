import MyClaw.Context.Reminder
import MyClaw.Lib.Run
import MyClaw.Lib.Split

set_option autoImplicit false

/-!
# Reminders over the turns of a session

The attachment manager of a session over many turns (`agents/attachment.rs`, with its callers in
`agents/session_context/mod.rs` and `agents/agent/injections.rs`): each turn compares what there is with
what the history has announced, writes what is different in front of the text of the user, and adds both
to the history as one message.

## Main definitions

* `TurnFacts`, `Pending` — what a turn finds, and what is new in it.
* `turnText` — the message that a turn adds to the history.
* `ReminderState`, `reminderStep` — the history with the manager.
* `PlainEvent` — the events whose texts are read as they are meant.

## Main results

* `readReminder_turnText` — what the message of a turn announces, for every text of the user.
* `announced_run` — each turn tells the difference to the turn before.
* `silenced_run` — a line `- ~~` of a user silences the session.

## Implementation notes

What the memory index and the backlog of draft skills add is part of what a turn finds.  The date, the
weekday and the offset are the texts that the formats of `diff_date` make.  A turn whose diffs panic leaves
the session as it is: the lists are compared first.
-/

namespace MyClaw

attribute [local instance] lawfulBEq_text

/-! ## The manager -/

/-- `PermissionMode`. -/
inductive PermissionMode
  | full | default | readOnly
  deriving DecidableEq

/-- The label of a level in a reminder. -/
def PermissionMode.label : PermissionMode → String
  | .full => "full"
  | .default => "default"
  | .readOnly => "read_only"

/-- What `render_autonomy` says of a level. -/
def PermissionMode.explanation : PermissionMode → String
  | .full => "All tools are permitted. No restrictions apply."
  | .readOnly => "Autonomy is now READ-ONLY. You may only use read-only tools (file_read, list_dir, search, web_search, etc.). Shell execution, file writes, HTTP calls, and agent delegation are blocked."
  | .default => "Autonomy is set to default. Safe tools are permitted; avoid destructive operations without user confirmation."

/-- A section that the history is not read for. -/
inductive OtherSection
  /-- The lines of `diff_memory`. -/
  | memory (added : List (List Char))
  /-- The lines about draft skills. -/
  | drafts (lines : List (List Char))

/-- The line below the header of the memories. -/
def memoryIntro : String :=
  "The following memories are loaded and must be obeyed. For project context and reference docs, use memory_list() to browse, memory_search(query) to find."

/-- `render_memory`, `render_skill_draft_backlog`. -/
def OtherSection.render : OtherSection → List (List Char)
  | .memory added => "## Memory".toList :: memoryIntro.toList :: added
  | .drafts lines => "## Draft Skills Pending Review".toList :: lines

/-- The days of a week, as `%A` writes them. -/
def weekdays : List (List Char) :=
  ["Monday", "Tuesday", "Wednesday", "Thursday", "Friday", "Saturday", "Sunday"].map String.toList

/-- A day as `diff_date` writes it: the date as `%Y-%m-%d`, the weekday, and the offset of the time zone
with its sign. -/
structure LocalDate where
  date : List Char
  weekday : List Char
  offset : List Char
  length_date : date.length = 10
  date_chars : ∀ c ∈ date, c ∈ "-0123456789".toList
  weekday_mem : weekday ∈ weekdays
  offset_chars : ∀ c ∈ offset, c ∈ "+-0123456789".toList

/-- What a turn finds: the day, the autonomy level, the skills, the sub-agents with their descriptions,
and the other sections. -/
structure TurnFacts where
  today : LocalDate
  autonomy : PermissionMode
  skills : List Skill
  agents : List (List Char × List Char)
  others : List OtherSection := []

/-- The pending deltas: what is new, and of a list also what is gone. -/
structure Pending where
  date : Option (List Char)
  autonomy : Option PermissionMode
  skills : Option (List Skill × List (List Char))
  agents : Option (List (List Char × List Char) × List (List Char))
  others : List OtherSection

/-- A message with a reminder has the marker. -/
def mentions (history : List HistoryText) (marker : List Char) : Prop :=
  ∃ msg ∈ history, "<system-reminder>".toList <:+: msg.text ∧ marker <:+: msg.text

instance (history : List HistoryText) (marker : List Char) : Decidable (mentions history marker) :=
  List.decidableBEx _ _

/-- What a reminder has to say for a date to be known. -/
def dateMarker (date : List Char) : List Char := "Current date: ".toList ++ date

/-- The line about the date, on a change and else. -/
def dateLine (changed : Bool) (today : LocalDate) : List Char :=
  if changed then
    "The date has changed. Today's date is now ".toList ++ today.date ++ " (".toList ++
      today.weekday ++ ").".toList
  else
    dateMarker today.date ++ " (".toList ++ today.weekday ++ ", UTC".toList ++ today.offset ++
      "). Use this for any date-relative references.".toList

/-- `diff_date`, with the date that was injected last. -/
def diffDate (last : Option (List Char)) (today : LocalDate) (history : List HistoryText) :
    Option (List Char) :=
  if mentions history (dateMarker today.date) then none else some (dateLine last.isSome today)

/-- What a reminder has to say for a level to be known. -/
def autonomyMarker (level : PermissionMode) : List Char :=
  ("Current autonomy: **" ++ level.label ++ "**").toList

/-- `diff_autonomy`. -/
def diffAutonomy (level : PermissionMode) (history : List HistoryText) : Option PermissionMode :=
  if mentions history (autonomyMarker level) then none else some level

/-- What is new in a list and what is gone, if anything is. -/
def diffList {β : Type*} [DecidableEq β] (key : β → List Char) (current : List β)
    (announced : List (List Char)) : Option (List β × List (List Char)) :=
  let added := current.filter fun b => key b ∉ announced
  let removed := announced.filter fun name => name ∉ current.map key
  if added = [] ∧ removed = [] then none else some (added, removed)

/-- The diffs of a turn; `none` is a panic. -/
def diffAll (last : Option (List Char)) (facts : TurnFacts) (history : List HistoryText) :
    Option Pending :=
  (rebuildFromHistory history).map fun announced =>
    { date := diffDate last facts.today history
      autonomy := diffAutonomy facts.autonomy history
      skills := diffList Skill.name facts.skills announced.skills
      agents := diffList Prod.fst facts.agents announced.agents
      others := facts.others }

/-- `render_autonomy`. -/
def renderAutonomy (level : PermissionMode) : List (List Char) :=
  ["## Autonomy Level Changed".toList, [],
    autonomyMarker level ++ ". ".toList ++ level.explanation.toList]

/-- The sections of a reminder. -/
def Pending.sections (p : Pending) : List (List (List Char)) :=
  (p.date.toList.map fun line => [line]) ++ p.autonomy.toList.map renderAutonomy ++
    (p.skills.toList.map fun delta => renderSkills delta.1 delta.2) ++
      (p.agents.toList.map fun delta => renderAgents delta.1 delta.2) ++
        p.others.map OtherSection.render

/-- A section as it is joined. -/
def sectionText (lines : List (List Char)) : List Char := ['\n'].intercalate lines

/-- `build_text`, in front of the text of the user. -/
def turnText (p : Pending) (user : List Char) : List Char :=
  if p.sections = [] then user
  else
    "<system-reminder>".toList ++ '\n' ::
      (['\n', '\n'].intercalate (p.sections.map sectionText) ++ '\n' ::
        ("</system-reminder>".toList ++ '\n' :: '\n' :: user))

/-! ## The machine -/

/-- The history of a session, and the date that its manager injected last. -/
structure ReminderState where
  history : List HistoryText := []
  lastInjectedDate : Option (List Char) := none

/-- What happens to a session. -/
inductive ReminderEvent
  /-- A turn with the text of a user. -/
  | turn (facts : TurnFacts) (user : List Char)
  /-- A reminder is made and not written to the history: the user only says "continue" and nothing is
  open, or the history was compacted in the middle of a turn. -/
  | unrecorded (facts : TurnFacts)
  /-- Other messages. -/
  | other (msgs : List HistoryText)
  /-- The history is compacted or rolled back. -/
  | rewrite (history : List HistoryText)
  /-- The program starts again. -/
  | restart

/-- A step; one that panics changes nothing. -/
def reminderStep (s : ReminderState) : ReminderEvent → ReminderState
  | .turn facts user =>
    match diffAll s.lastInjectedDate facts s.history with
    | none => s
    | some p => ⟨s.history ++ [⟨"user", turnText p user⟩], some facts.today.date⟩
  | .unrecorded facts =>
    match diffAll s.lastInjectedDate facts s.history with
    | none => s
    | some _ => { s with lastInjectedDate := some facts.today.date }
  | .other msgs => { s with history := s.history ++ msgs }
  | .rewrite history => { s with history := history }
  | .restart => { s with lastInjectedDate := none }

/-! ## A history that makes it panic -/

/-- A message of the history makes the manager panic. -/
def Poisoned (s : ReminderState) : Prop := ∃ msg ∈ s.history, msg.Poisonous

/-- The event takes no message out of the history. -/
def ReminderEvent.keepsHistory : ReminderEvent → Bool
  | .rewrite _ => false
  | _ => true

/-- The messages that an event adds besides those of the users. -/
def ReminderEvent.otherMsgs : ReminderEvent → List HistoryText
  | .other msgs => msgs
  | _ => []

section Poisoned

variable {s : ReminderState}

lemma diffAll_eq_none_iff {last : Option (List Char)} {facts : TurnFacts}
    {history : List HistoryText} :
    diffAll last facts history = none ↔ ∃ msg ∈ history, msg.Poisonous := by
  rw [diffAll, Option.map_eq_none_iff, rebuildFromHistory_eq_none_iff]

/-- A poisoned session takes no turn, and stays poisoned. -/
lemma Poisoned.step (h : Poisoned s) {e : ReminderEvent} (he : e.keepsHistory = true) :
    Poisoned (reminderStep s e) ∧ (reminderStep s e).history = s.history ++ e.otherMsgs := by
  have hpanic : ∀ facts, diffAll s.lastInjectedDate facts s.history = none := fun facts =>
    diffAll_eq_none_iff.2 h
  cases e with
  | turn facts user =>
    rw [reminderStep, hpanic]
    exact ⟨h, (List.append_nil _).symm⟩
  | unrecorded facts =>
    rw [reminderStep, hpanic]
    exact ⟨h, (List.append_nil _).symm⟩
  | other msgs =>
    obtain ⟨msg, hmsg, hpoison⟩ := h
    exact ⟨⟨msg, List.mem_append_left _ hmsg, hpoison⟩, rfl⟩
  | rewrite history => cases he
  | restart => exact ⟨h, (List.append_nil _).symm⟩

/-- A poisoned session takes no turn any more: whatever the users write and however often the program
starts again, none of their messages is added to the history until it is rewritten. -/
lemma poisoned_run (h : Poisoned s) {es : List ReminderEvent}
    (hes : ∀ e ∈ es, e.keepsHistory = true) :
    (Run.exec reminderStep s es).history = s.history ++ es.flatMap ReminderEvent.otherMsgs := by
  induction es generalizing s with
  | nil => exact (List.append_nil _).symm
  | cons e es ih =>
    obtain ⟨hstill, hhistory⟩ := h.step (hes e List.mem_cons_self)
    rw [Run.exec_cons, ih hstill fun e' he' => hes e' (List.mem_cons_of_mem _ he'), hhistory,
      List.flatMap_cons, List.append_assoc]

end Poisoned

/-! ## The lines of a message -/

/-- The lines in front of the text of the user. -/
def Pending.lines (p : Pending) : List (List Char) :=
  if p.sections = [] then []
  else
    "<system-reminder>".toList :: ([[]].intercalate p.sections ++ ["</system-reminder>".toList, []])

section Lines

variable {p : Pending} {user : List Char} {s : Option ReminderSection × AnnouncedState}

/-- No section is without lines. -/
lemma ne_nil_of_mem_sections {lines : List (List Char)} (h : lines ∈ p.sections) : lines ≠ [] := by
  simp only [Pending.sections, List.mem_append, List.mem_map, Option.mem_toList] at h
  rcases h with (((⟨_, _, rfl⟩ | ⟨_, _, rfl⟩) | ⟨_, _, rfl⟩) | ⟨_, _, rfl⟩) | ⟨other, _, rfl⟩
  · exact List.cons_ne_nil _ _
  · exact List.cons_ne_nil _ _
  · exact List.cons_ne_nil _ _
  · exact List.cons_ne_nil _ _
  · cases other <;> exact List.cons_ne_nil _ _

/-- The message is its lines in front of the text. -/
lemma turnText_eq : turnText p user = ['\n'].intercalate (p.lines ++ [user]) := by
  rw [turnText, Pending.lines]
  split_ifs with h
  · rw [List.nil_append, List.intercalate_singleton]
  · have hne : [[]].intercalate p.sections ≠ [] := by
      obtain ⟨lines, rest, hrest⟩ := List.exists_cons_of_ne_nil h
      obtain ⟨line, lines', rfl⟩ := List.exists_cons_of_ne_nil
        (ne_nil_of_mem_sections (hrest ▸ List.mem_cons_self))
      rw [hrest, List.intercalate_cons_cons_left]
      exact List.cons_ne_nil _ _
    have hgroups : ['\n', '\n'].intercalate (p.sections.map sectionText) =
        ['\n'].intercalate ([[]].intercalate p.sections) :=
      Split.intercalate_groups fun _ hlines => ne_nil_of_mem_sections hlines
    rw [hgroups, List.cons_append, List.intercalate_cons_of_ne_nil (by simp), List.append_assoc,
      List.append_assoc, Split.intercalate_append hne (by simp)]
    simp

/-- A text is read line by line, and then the rest of it. -/
lemma readReminderLines_intercalate {lines : List (List Char)} (h : ∀ line ∈ lines, '\n' ∉ line) :
    readReminderLines s (['\n'].intercalate (lines ++ [user])) =
      (lines.foldlM readReminderLine s).bind (readReminderLines · user) := by
  induction lines generalizing s with
  | nil => rw [List.nil_append, List.intercalate_singleton]; rfl
  | cons line lines ih =>
    rw [List.cons_append, List.intercalate_cons_of_ne_nil (by simp), List.append_assoc,
      List.singleton_append, readReminderLines_append_newline (h line List.mem_cons_self),
      List.foldlM_cons]
    cases readReminderLine s line with
    | none => rfl
    | some s' => exact ih fun l hl => h l (List.mem_cons_of_mem _ hl)

/-- A line that opens no section and belongs to no list. -/
lemma readReminderLine_other {line : List Char} (h : InertLine line)
    (hserver : ¬ "### ".toList <+: trimChars line) : readReminderLine s line = some s := by
  rw [readReminderLine]
  simp only [h.1]
  rw [if_neg fun hstruck => h.2.1 hstruck.1, if_neg h.2.2, if_neg fun hmcp => hserver hmcp.2]

/-- The lines of sections are read one section after another. -/
lemma foldlM_sections {sections : List (List (List Char))} :
    ([[]].intercalate sections).foldlM readReminderLine s =
      sections.foldlM (fun s lines => lines.foldlM readReminderLine s) s := by
  induction sections generalizing s with
  | nil => rfl
  | cons lines sections ih =>
    cases sections with
    | nil =>
      rw [List.intercalate_singleton, List.foldlM_cons]
      exact (bind_pure _).symm
    | cons next sections =>
      have hblank : ∀ s, readReminderLine s [] = some s := fun _ =>
        readReminderLine_other (by decide) (by decide)
      rw [List.intercalate_cons_cons, List.append_assoc]
      refine (List.foldlM_append ..).trans (bind_congr fun s' => ?_)
      rw [List.singleton_append, List.foldlM_cons, hblank]
      exact ih

end Lines

/-! ## What a reminder announces -/

/-- The names after what is told of a list. -/
def applyDelta {β : Type*} (key : β → List Char) (delta : Option (List β × List (List Char)))
    (names : List (List Char)) : List (List Char) :=
  match delta with
  | none => names
  | some (added, removed) =>
    added.foldl (fun names b => insertName (key b) names) (names.filter (· ∉ removed))

/-- What is announced after a reminder. -/
def Pending.announce (p : Pending) (announced : AnnouncedState) : AnnouncedState :=
  { announced with
    skills := applyDelta Skill.name p.skills announced.skills
    agents := applyDelta Prod.fst p.agents announced.agents }

/-- The section that the text of the user falls into. -/
def Pending.lastSection (p : Pending) : Option ReminderSection :=
  if p.others ≠ [] then none
  else if p.agents.isSome then some .agents
  else if p.skills.isSome then some .skills
  else none

/-- A line of another section that is passed over. -/
structure PassedOver (line : List Char) : Prop where
  newline : '\n' ∉ line
  header : sectionHeader (trimChars line) = none ∨ sectionHeader (trimChars line) = some none
  strikes : ¬ StrikesNothing line

/-- The lines of another section. -/
def OtherSection.lines : OtherSection → List (List Char)
  | .memory added => added
  | .drafts lines => lines

/-- Reminders whose lines are read as they are meant. -/
structure PlainPending (p : Pending) : Prop where
  date : ∀ line, p.date = some line → '\n' ∉ line ∧ InertLine line
  skills : ∀ delta, p.skills = some delta →
    (∀ skill ∈ delta.1, PlainSkill skill) ∧ ∀ name ∈ delta.2, PlainName name
  agents : ∀ delta, p.agents = some delta →
    (∀ agent ∈ delta.1, PlainAgent agent) ∧ ∀ name ∈ delta.2, PlainName name
  others : ∀ other ∈ p.others, ∀ line ∈ other.lines, PassedOver line

section Reading

variable {p : Pending} {s : Option ReminderSection × AnnouncedState} {announced : AnnouncedState}

/-- A line that is no header changes the names of the present section at most. -/
lemma eq_update_of_readReminderLine {line : List Char} {s' : Option ReminderSection × AnnouncedState}
    (hheader : sectionHeader (trimChars line) = none) (h : readReminderLine s line = some s') :
    ∃ f, s' = (s.1, s.2.update s.1 f) := by
  have hsame : ∃ f, s = (s.1, s.2.update s.1 f) := ⟨fun names => names, by rw [update_id]⟩
  rw [readReminderLine] at h
  simp only [hheader] at h
  split_ifs at h
  · split at h
    · cases h
    · split_ifs at h <;> cases h
      · exact hsame
      · exact ⟨_, rfl⟩
  · split at h <;> cases h
    · exact hsame
    · exact ⟨_, rfl⟩
  · cases h
    exact hsame
  · cases h
    exact ⟨_, rfl⟩
  · cases h
    exact hsame

/-- A line that is passed over, outside the lists. -/
lemma readReminderLine_passedOver {line : List Char} (h : PassedOver line) :
    readReminderLine (none, announced) line = some (none, announced) := by
  rcases h.header with hheader | hheader
  · obtain ⟨s', hs'⟩ := Option.ne_none_iff_exists'.1
      (mt (@readReminderLine_eq_none_iff (none, announced) line).1 h.strikes)
    obtain ⟨f, rfl⟩ := eq_update_of_readReminderLine hheader hs'
    exact hs'
  · rw [readReminderLine]
    simp only [hheader]

/-- A header opens its section. -/
lemma readReminderLine_header {line : List Char} {current : Option ReminderSection}
    (h : sectionHeader (trimChars line) = some current) :
    readReminderLine s line = some (current, s.2) := by
  rw [readReminderLine]
  simp only [h]

/-- The other sections are passed over. -/
lemma foldlM_other {other : OtherSection} (h : ∀ line ∈ other.lines, PassedOver line) :
    other.render.foldlM readReminderLine s = some (none, s.2) := by
  have hlines : ∀ lines : List (List Char), (∀ line ∈ lines, PassedOver line) →
      lines.foldlM readReminderLine (none, s.2) = some (none, s.2) := by
    intro lines hlines
    induction lines with
    | nil => rfl
    | cons line lines ih =>
      rw [List.foldlM_cons, readReminderLine_passedOver (hlines line List.mem_cons_self)]
      exact ih fun l hl => hlines l (List.mem_cons_of_mem _ hl)
  cases other with
  | memory added =>
    have hheader : sectionHeader (trimChars "## Memory".toList) = some none := by decide
    have hintro : InertLine memoryIntro.toList := by
      refine inertLine_toList (rfl : _ = String.ofList _) ?_
      decide
    rw [OtherSection.render, List.foldlM_cons, readReminderLine_header hheader, Option.bind_eq_bind,
      Option.bind_some, List.foldlM_cons, @readReminderLine_inert _ (none, s.2) hintro nofun]
    exact hlines added h
  | drafts lines =>
    have hheader : sectionHeader (trimChars "## Draft Skills Pending Review".toList) = some none := by
      decide
    rw [OtherSection.render, List.foldlM_cons, readReminderLine_header hheader]
    exact hlines lines h

/-- The section about the level is passed over. -/
lemma foldlM_renderAutonomy {level : PermissionMode} :
    (renderAutonomy level).foldlM readReminderLine s = some (none, s.2) := by
  have hheader : sectionHeader (trimChars "## Autonomy Level Changed".toList) = some none := by decide
  have hlines : ∀ line ∈ [[], autonomyMarker level ++ ". ".toList ++ level.explanation.toList],
      InertLine line := by
    refine List.forall_mem_cons.2 ⟨by decide, List.forall_mem_singleton.2 ?_⟩
    rw [autonomyMarker, String.toList_append, String.toList_append, List.append_assoc,
      List.append_assoc, List.append_assoc]
    refine inertLine_toList_append (rfl : _ = String.ofList _) ?_ _
    decide
  rw [renderAutonomy, List.foldlM_cons, readReminderLine_header hheader, Option.bind_eq_bind,
    Option.bind_some]
  exact foldlM_inert hlines nofun

/-- The line about the date is passed over. -/
lemma foldlM_date (h : PlainPending p) :
    (p.date.toList.map fun line => [line]).foldlM (fun s lines => lines.foldlM readReminderLine s)
      (none, announced) = some (none, announced) := by
  cases hdate : p.date with
  | none => rfl
  | some line =>
    have hline := readReminderLine_inert (s := (none, announced)) (h.date line hdate).2 nofun
    simp [hline]

/-- So is the section about the level. -/
lemma foldlM_autonomy :
    (p.autonomy.toList.map renderAutonomy).foldlM (fun s lines => lines.foldlM readReminderLine s)
      (none, announced) = some (none, announced) := by
  cases p.autonomy with
  | none => rfl
  | some level => simp [foldlM_renderAutonomy]

/-- The section of the skills, if there is one. -/
lemma foldlM_skills (h : PlainPending p) :
    (p.skills.toList.map fun delta => renderSkills delta.1 delta.2).foldlM
        (fun s lines => lines.foldlM readReminderLine s) s =
      some (if p.skills.isSome then some .skills else s.1,
        { s.2 with skills := applyDelta Skill.name p.skills s.2.skills }) := by
  cases hskills : p.skills with
  | none => rfl
  | some delta =>
    have hdelta := h.skills delta hskills
    simp only [Option.toList_some, List.map_singleton, List.foldlM_cons, List.foldlM_nil, bind_pure]
    exact foldlM_renderSkills hdelta.1 hdelta.2

/-- The section of the sub-agents, if there is one. -/
lemma foldlM_agents (h : PlainPending p) :
    (p.agents.toList.map fun delta => renderAgents delta.1 delta.2).foldlM
        (fun s lines => lines.foldlM readReminderLine s) s =
      some (if p.agents.isSome then some .agents else s.1,
        { s.2 with agents := applyDelta Prod.fst p.agents s.2.agents }) := by
  cases hagents : p.agents with
  | none => rfl
  | some delta =>
    have hdelta := h.agents delta hagents
    simp only [Option.toList_some, List.map_singleton, List.foldlM_cons, List.foldlM_nil, bind_pure]
    exact foldlM_renderAgents hdelta.1 hdelta.2

/-- The other sections, if there are any. -/
lemma foldlM_others {others : List OtherSection}
    (h : ∀ other ∈ others, ∀ line ∈ other.lines, PassedOver line) :
    (others.map OtherSection.render).foldlM (fun s lines => lines.foldlM readReminderLine s) s =
      some (if others ≠ [] then none else s.1, s.2) := by
  induction others generalizing s with
  | nil => rfl
  | cons other others ih =>
    rw [List.map_cons, List.foldlM_cons, foldlM_other (h other List.mem_cons_self),
      Option.bind_eq_bind, Option.bind_some, ih fun o ho => h o (List.mem_cons_of_mem _ ho),
      if_pos (List.cons_ne_nil _ _), ite_self]

/-- The sections of a reminder are read as they are meant. -/
lemma foldlM_plainPending (h : PlainPending p) :
    p.sections.foldlM (fun s lines => lines.foldlM readReminderLine s) (none, announced) =
      some (p.lastSection, p.announce announced) := by
  simp only [Pending.sections, List.foldlM_append, foldlM_date h, foldlM_autonomy,
    foldlM_skills h, foldlM_agents h, foldlM_others h.others, Option.bind_eq_bind, Option.bind_some]
  rfl

/-- A character is not in a text that is written out without it. -/
lemma notMem_toList {c : Char} {text : String} {chars : List Char} (h : text = String.ofList chars)
    (hc : c ∉ chars) : c ∉ text.toList := by
  rwa [h, String.toList_ofList]

/-- A text whose white space is folded is one line. -/
lemma newline_notMem_foldWhiteSpace (text : List Char) : '\n' ∉ foldWhiteSpace text := by
  intro h
  rcases Split.mem_intercalate h with h | ⟨part, hpart, h⟩
  · exact absurd h (by decide)
  · have hwhite := Split.eq_false_of_mem_splitOnP (List.mem_filter.1 hpart).1 _ h
    exact absurd hwhite (by decide)

/-- The line of a plain skill is one line. -/
lemma newline_notMem_skillLine {skill : Skill} (h : PlainSkill skill) : '\n' ∉ skillLine skill := by
  have hname := h.name.newline
  have hsummary := newline_notMem_foldWhiteSpace skill.injectedSummary
  have hdetails : '\n' ∉ skillDetails skill := by
    rw [skillDetails, List.mem_append, not_or]
    constructor
    · split_ifs
      · exact List.not_mem_nil
      · simp [hsummary]
    · cases hwhen : skill.whenToUse with
      | none => exact List.not_mem_nil
      | some w => simp [h.whenToUse w hwhen]
  simp [skillLine, hname, hdetails]

/-- The line of a plain sub-agent is one line. -/
lemma newline_notMem_agentLine {agent : List Char × List Char} (h : PlainAgent agent) :
    '\n' ∉ agentLine agent := by
  have hname := h.name.newline
  have hdescription := h.description
  rw [agentLine]
  split_ifs <;> simp [hname, hdescription]

/-- Lines of a list. -/
lemma newline_notMem_list {header : List Char} {intro intro' : String} {removed : List (List Char)}
    {added : List (List Char)} (hheader : '\n' ∉ header) (hintro : '\n' ∉ intro.toList)
    (hintro' : '\n' ∉ intro'.toList) (hremoved : ∀ name ∈ removed, PlainName name)
    (hadded : ∀ line ∈ added, '\n' ∉ line) :
    ∀ line ∈ header :: (removedLines intro removed ++ addedLines intro' added), '\n' ∉ line := by
  have hgone : ∀ line ∈ removedLines intro removed, '\n' ∉ line := by
    intro line hline
    rw [removedLines] at hline
    split_ifs at hline
    · cases hline
    · simp only [List.cons_append, List.mem_cons, List.mem_append, List.mem_map, List.not_mem_nil,
        or_false] at hline
      rcases hline with rfl | ⟨name, hname, rfl⟩ | rfl
      · exact hintro
      · have hname := (hremoved name hname).newline
        simp [removedLine, hname]
      · exact List.not_mem_nil
  have hnew : ∀ line ∈ addedLines intro' added, '\n' ∉ line := by
    intro line hline
    rw [addedLines] at hline
    split_ifs at hline
    · cases hline
    · rcases List.mem_cons.1 hline with rfl | hline
      · exact hintro'
      · exact hadded line hline
  intro line hline
  rcases List.mem_cons.1 hline with rfl | hline
  · exact hheader
  · exact (List.mem_append.1 hline).elim (hgone line) (hnew line)

/-- The lines about the level. -/
lemma newline_notMem_renderAutonomy {level : PermissionMode} :
    ∀ line ∈ renderAutonomy level, '\n' ∉ line := by
  have hexplanation : '\n' ∉ level.explanation.toList := by
    cases level
    · refine notMem_toList (rfl : _ = String.ofList _) ?_
      decide
    · refine notMem_toList (rfl : _ = String.ofList _) ?_
      decide
    · refine notMem_toList (rfl : _ = String.ofList _) ?_
      decide
  have hmarker : '\n' ∉ autonomyMarker level ++ ". ".toList := by cases level <;> decide
  simp only [renderAutonomy, List.forall_mem_cons]
  exact ⟨by decide, List.not_mem_nil, List.not_mem_append hmarker hexplanation, nofun⟩

/-- The lines of another section. -/
lemma newline_notMem_other {other : OtherSection} (h : ∀ line ∈ other.lines, PassedOver line) :
    ∀ line ∈ other.render, '\n' ∉ line := by
  cases other with
  | memory added =>
    have hintro : '\n' ∉ memoryIntro.toList := by
      refine notMem_toList (rfl : _ = String.ofList _) ?_
      decide
    simp only [OtherSection.render, List.forall_mem_cons]
    exact ⟨by decide, hintro, fun line hline => (h line hline).newline⟩
  | drafts lines =>
    simp only [OtherSection.render, List.forall_mem_cons]
    exact ⟨by decide, fun line hline => (h line hline).newline⟩

/-- No line of a section has a newline. -/
lemma newline_notMem_sections (h : PlainPending p) {lines : List (List Char)} (hlines : lines ∈ p.sections) :
    ∀ line ∈ lines, '\n' ∉ line := by
  simp only [Pending.sections, List.mem_append, List.mem_map, Option.mem_toList] at hlines
  rcases hlines with (((⟨line, hline, rfl⟩ | ⟨level, _, rfl⟩) | ⟨delta, hdelta, rfl⟩) |
    ⟨delta, hdelta, rfl⟩) | ⟨other, hother, rfl⟩
  · exact List.forall_mem_singleton.2 (h.date _ hline).1
  · exact newline_notMem_renderAutonomy
  · obtain ⟨hadded, hremoved⟩ := h.skills delta hdelta
    refine newline_notMem_list (by decide) ?_ ?_ hremoved (List.forall_mem_map.2 fun skill hskill =>
      newline_notMem_skillLine (hadded skill hskill))
    · refine notMem_toList (rfl : _ = String.ofList _) ?_
      decide
    · refine notMem_toList (rfl : _ = String.ofList _) ?_
      decide
  · obtain ⟨hadded, hremoved⟩ := h.agents delta hdelta
    refine newline_notMem_list (by decide) ?_ ?_ hremoved (List.forall_mem_map.2 fun agent hagent =>
      newline_notMem_agentLine (hadded agent hagent))
    · refine notMem_toList (rfl : _ = String.ofList _) ?_
      decide
    · refine notMem_toList (rfl : _ = String.ofList _) ?_
      decide
  · exact newline_notMem_other (h.others other hother)

/-- No line of a reminder has a newline. -/
lemma newline_notMem_lines (h : PlainPending p) : ∀ line ∈ p.lines, '\n' ∉ line := by
  rw [Pending.lines]
  split_ifs
  · nofun
  · refine List.forall_mem_cons.2 ⟨by decide, List.forall_mem_append.2 ⟨fun line hline => ?_, by decide⟩⟩
    rcases Split.mem_intercalate hline with hblank | ⟨lines, hlines, hline⟩
    · rw [List.mem_singleton.1 hblank]
      exact List.not_mem_nil
    · exact newline_notMem_sections h hlines line hline

/-- **A message is read as it is meant**: its lists are announced, and the text of the user is read as
lines of the list that was told last. -/
theorem readReminder_turnText (h : PlainPending p) (user : List Char) :
    readReminder announced ⟨"user", turnText p user⟩ =
      if p.sections = [] then readReminder announced ⟨"user", user⟩
      else (readReminderLines (p.lastSection, p.announce announced) user).map Prod.snd := by
  split_ifs with hnil
  · rw [turnText, if_pos hnil]
  · have hreminder : HistoryText.isReminder ⟨"user", turnText p user⟩ = true := by
      rw [HistoryText.isReminder, turnText, if_neg hnil]
      simp
    have hopen : ∀ s, readReminderLine s "<system-reminder>".toList = some s := fun _ =>
      readReminderLine_other (by decide) (by decide)
    have hclose : ∀ s, ["</system-reminder>".toList, []].foldlM readReminderLine s = some s :=
      fun s => by
        rw [List.foldlM_cons, readReminderLine_other (by decide) (by decide), Option.bind_eq_bind,
          Option.bind_some, List.foldlM_cons, readReminderLine_other (by decide) (by decide)]
        rfl
    rw [readReminder, if_pos hreminder, turnText_eq, readReminderLines_intercalate
      (newline_notMem_lines h), Pending.lines, if_neg hnil, List.foldlM_cons, hopen,
      Option.bind_eq_bind, Option.bind_some, List.foldlM_append, foldlM_sections,
      foldlM_plainPending h, Option.bind_eq_bind, Option.bind_some, hclose, Option.bind_some]

end Reading

/-! ## Runs of plain turns -/

/-- A text of a user that is passed over in every list. -/
def InertText (text : List Char) : Prop := ∀ line ∈ textLines text, InertLine line

instance (text : List Char) : Decidable (InertText text) := List.decidableBAll _ _

/-- A message that announces nothing. -/
def HistoryText.Plain (msg : HistoryText) : Prop := msg.isReminder = true → InertText msg.text

/-- What a turn finds can be told: its names meet a condition. -/
structure PlainFacts (P : List Char → Prop) (facts : TurnFacts) : Prop where
  skills : ∀ skill ∈ facts.skills, PlainSkill skill ∧ P skill.name
  agents : ∀ agent ∈ facts.agents, PlainAgent agent ∧ P agent.1
  others : ∀ other ∈ facts.others, ∀ line ∈ other.lines, PassedOver line

/-- An event whose texts are read as they are meant; a history is rewritten with messages that it has and
messages that announce nothing. -/
def PlainEvent (P : List Char → Prop) (s : ReminderState) : ReminderEvent → Prop
  | .turn facts user => PlainFacts P facts ∧ InertText user
  | .unrecorded _ => True
  | .other msgs => ∀ msg ∈ msgs, msg.Plain
  | .rewrite history => ∀ msg ∈ history, msg ∈ s.history ∨ msg.Plain
  | .restart => True

/-- The announced names meet a condition. -/
def PlainNames (P : List Char → Prop) (announced : AnnouncedState) : Prop :=
  (∀ name ∈ announced.skills, P name) ∧ ∀ name ∈ announced.agents, P name

/-- A message that announces names which meet a condition. -/
def ReadsPlain (P : List Char → Prop) (msg : HistoryText) : Prop :=
  ∀ announced, PlainNames P announced →
    ∃ announced', readReminder announced msg = some announced' ∧ PlainNames P announced'

section Plain

variable {P : List Char → Prop} {announced : AnnouncedState} {history : List HistoryText}
  {facts : TurnFacts} {last : Option (List Char)} {user : List Char} {p : Pending} {s : ReminderState}

/-- A plain text changes nothing that is announced. -/
lemma readReminderLines_plainText {s : Option ReminderSection × AnnouncedState}
    (h : InertText user) (hs : s.1 ≠ some .mcp) : readReminderLines s user = some s :=
  foldlM_inert h hs

lemma readReminder_plain {msg : HistoryText} (h : msg.Plain) :
    readReminder announced msg = some announced := by
  rw [readReminder]
  split_ifs with hreminder
  · rw [@readReminderLines_plainText _ (none, announced) (h hreminder) (Option.some_ne_none _).symm]
    rfl
  · rfl

/-- What a history announces meets the condition if each of its messages does. -/
lemma exists_rebuild (h : ∀ msg ∈ history, ReadsPlain P msg) :
    ∃ announced, rebuildFromHistory history = some announced ∧ PlainNames P announced := by
  suffices hfold : ∀ announced, PlainNames P announced →
      ∃ announced', history.foldlM readReminder announced = some announced' ∧
        PlainNames P announced' from hfold {} ⟨nofun, nofun⟩
  induction history with
  | nil => exact fun announced hplain => ⟨announced, rfl, hplain⟩
  | cons msg history ih =>
    intro announced hplain
    obtain ⟨announced', hread, hplain'⟩ := h msg List.mem_cons_self announced hplain
    rw [List.foldlM_cons, hread]
    exact ih (fun m hm => h m (List.mem_cons_of_mem _ hm)) announced' hplain'

/-- The names after what is told of a list are the names that there are. -/
lemma mem_applyDelta_diffList {β : Type*} [DecidableEq β] {key : β → List Char} {current : List β}
    {names : List (List Char)} {n : List Char} :
    n ∈ applyDelta key (diffList key current names) names ↔ n ∈ current.map key := by
  have hadded : n ∈ (current.filter fun b => key b ∉ names).map key ↔ n ∈ current.map key ∧ n ∉ names := by
    simp only [List.mem_map, List.mem_filter, decide_eq_true_eq]
    constructor
    · rintro ⟨b, ⟨hb, hnew⟩, rfl⟩
      exact ⟨⟨b, hb, rfl⟩, hnew⟩
    · rintro ⟨⟨b, hb, rfl⟩, hnew⟩
      exact ⟨b, ⟨hb, hnew⟩, rfl⟩
  rw [diffList]
  split_ifs with hsame
  · rw [hsame.1] at hadded
    have hnone : n ∈ current.map key → n ∈ names := fun hn => by
      by_contra hnot
      exact List.not_mem_nil (hadded.2 ⟨hn, hnot⟩)
    refine ⟨fun hn => ?_, hnone⟩
    by_contra hnot
    have hgone : n ∈ names.filter fun name => name ∉ current.map key :=
      List.mem_filter.2 ⟨hn, decide_eq_true hnot⟩
    rw [hsame.2] at hgone
    exact List.not_mem_nil hgone
  · have hkeys : (∃ b ∈ current.filter fun b => key b ∉ names, n = key b) ↔
        n ∈ current.map key ∧ n ∉ names := by
      rw [← hadded, List.mem_map]
      exact exists_congr fun b => and_congr_right fun _ => eq_comm
    rw [applyDelta, mem_foldl_insertName, hkeys]
    simp only [List.mem_filter, decide_eq_true_eq]
    by_cases hn : n ∈ current.map key <;> by_cases hold : n ∈ names <;> simp [hn, hold]

/-- What is told of a list comes from the list and the names before it. -/
lemma of_diffList {β : Type*} [DecidableEq β] {key : β → List Char} {current : List β}
    {names : List (List Char)} {delta : List β × List (List Char)}
    (h : diffList key current names = some delta) :
    (∀ b ∈ delta.1, b ∈ current) ∧ ∀ name ∈ delta.2, name ∈ names := by
  rw [diffList] at h
  split_ifs at h
  cases h
  exact ⟨fun b hb => List.mem_of_mem_filter hb, fun name hname => List.mem_of_mem_filter hname⟩

/-- What is told of a list leaves names that meet the condition. -/
lemma forall_mem_applyDelta {β : Type*} {key : β → List Char}
    {delta : Option (List β × List (List Char))} {names : List (List Char)}
    (hnames : ∀ name ∈ names, P name) (hdelta : ∀ d, delta = some d → ∀ b ∈ d.1, P (key b)) :
    ∀ name ∈ applyDelta key delta names, P name := by
  intro name hname
  cases delta with
  | none => exact hnames name hname
  | some d =>
    rcases mem_foldl_insertName.1 hname with hname | ⟨b, hb, rfl⟩
    · exact hnames name (List.mem_of_mem_filter hname)
    · exact hdelta d rfl b hb

/-- The line about the date is one line, and inert. -/
lemma plain_dateLine (changed : Bool) (today : LocalDate) :
    '\n' ∉ dateLine changed today ∧ InertLine (dateLine changed today) := by
  have hdate : '\n' ∉ today.date := fun h => absurd (today.date_chars _ h) (by decide)
  have hoffset : '\n' ∉ today.offset := fun h => absurd (today.offset_chars _ h) (by decide)
  have hweekday : '\n' ∉ today.weekday := by
    have hall : ∀ weekday ∈ weekdays, '\n' ∉ weekday := by decide
    exact hall _ today.weekday_mem
  rw [dateLine]
  split_ifs
  · have hopen : '\n' ∉ "The date has changed. Today's date is now ".toList := by
      refine notMem_toList (rfl : _ = String.ofList _) ?_
      decide
    constructor
    · exact List.not_mem_append (List.not_mem_append (List.not_mem_append (List.not_mem_append hopen
        hdate) (by decide)) hweekday) (by decide)
    · rw [List.append_assoc, List.append_assoc, List.append_assoc]
      refine inertLine_toList_append (rfl : _ = String.ofList _) ?_ _
      decide
  · have hclose : '\n' ∉ "). Use this for any date-relative references.".toList := by
      refine notMem_toList (rfl : _ = String.ofList _) ?_
      decide
    unfold dateMarker
    constructor
    · exact List.not_mem_append (List.not_mem_append (List.not_mem_append (List.not_mem_append
        (List.not_mem_append (List.not_mem_append (by decide) hdate) (by decide)) hweekday)
          (by decide)) hoffset) hclose
    · rw [List.append_assoc, List.append_assoc, List.append_assoc, List.append_assoc,
        List.append_assoc]
      refine inertLine_toList_append (rfl : _ = String.ofList _) ?_ _
      decide

/-- What a plain turn tells is read as it is meant. -/
lemma plainPending_diffAll (hP : ∀ name, P name → PlainName name) (hfacts : PlainFacts P facts)
    (hannounced : rebuildFromHistory history = some announced) (hplain : PlainNames P announced)
    (hp : diffAll last facts history = some p) : PlainPending p := by
  rw [diffAll, hannounced] at hp
  cases hp
  refine ⟨fun line hline => ?_, fun delta hdelta => ?_, fun delta hdelta => ?_, hfacts.others⟩
  · rw [diffDate] at hline
    split_ifs at hline
    cases hline
    exact plain_dateLine _ _
  · obtain ⟨hadded, hremoved⟩ := of_diffList hdelta
    exact ⟨fun skill hskill => (hfacts.skills skill (hadded skill hskill)).1,
      fun name hname => hP name (hplain.1 name (hremoved name hname))⟩
  · obtain ⟨hadded, hremoved⟩ := of_diffList hdelta
    exact ⟨fun agent hagent => (hfacts.agents agent (hadded agent hagent)).1,
      fun name hname => hP name (hplain.2 name (hremoved name hname))⟩

/-- A reminder does not say what the servers are. -/
lemma lastSection_ne_mcp : p.lastSection ≠ some .mcp := by
  rw [Pending.lastSection]
  split_ifs <;> nofun

/-- The message of a plain turn announces what is told, and nothing else. -/
lemma readReminder_plainTurn (h : PlainPending p) (huser : InertText user) :
    readReminder announced ⟨"user", turnText p user⟩ = some (p.announce announced) := by
  rw [readReminder_turnText h user]
  split_ifs with hnil
  · have hplain : HistoryText.Plain ⟨"user", user⟩ := fun _ => huser
    have hskills : p.skills = none := by
      by_contra hsome
      obtain ⟨delta, hdelta⟩ := Option.ne_none_iff_exists'.1 hsome
      rw [Pending.sections, hdelta] at hnil
      simp at hnil
    have hagents : p.agents = none := by
      by_contra hsome
      obtain ⟨delta, hdelta⟩ := Option.ne_none_iff_exists'.1 hsome
      rw [Pending.sections, hdelta] at hnil
      simp at hnil
    rw [readReminder_plain hplain, Pending.announce, hskills, hagents]
    rfl
  · rw [@readReminderLines_plainText _ (p.lastSection, p.announce announced) huser lastSection_ne_mcp]
    rfl

/-- The message of a plain turn announces names that meet the condition. -/
lemma readsPlain_turn (hP : ∀ name, P name → PlainName name) (hfacts : PlainFacts P facts)
    (huser : InertText user) (hhistory : ∀ msg ∈ history, ReadsPlain P msg)
    (hp : diffAll last facts history = some p) : ReadsPlain P ⟨"user", turnText p user⟩ := by
  obtain ⟨announced, hannounced, hplain⟩ := exists_rebuild hhistory
  have hpending := plainPending_diffAll hP hfacts hannounced hplain hp
  have hadded : (∀ d, p.skills = some d → ∀ skill ∈ d.1, P skill.name) ∧
      ∀ d, p.agents = some d → ∀ agent ∈ d.1, P agent.1 := by
    rw [diffAll, hannounced] at hp
    cases hp
    exact ⟨fun d hd skill hskill => (hfacts.skills skill ((of_diffList hd).1 skill hskill)).2,
      fun d hd agent hagent => (hfacts.agents agent ((of_diffList hd).1 agent hagent)).2⟩
  exact fun announced' hplain' => ⟨_, readReminder_plainTurn hpending huser,
    forall_mem_applyDelta hplain'.1 hadded.1, forall_mem_applyDelta hplain'.2 hadded.2⟩

lemma readsPlain_of_plain {msg : HistoryText} (h : msg.Plain) : ReadsPlain P msg :=
  fun announced hplain => ⟨announced, readReminder_plain h, hplain⟩

/-- A plain event keeps a history that announces names which meet the condition. -/
lemma readsPlain_step (hP : ∀ name, P name → PlainName name) {e : ReminderEvent}
    (h : ∀ msg ∈ s.history, ReadsPlain P msg) (he : PlainEvent P s e) :
    ∀ msg ∈ (reminderStep s e).history, ReadsPlain P msg := by
  cases e with
  | turn facts user =>
    rw [reminderStep]
    split
    · exact h
    · rename_i p hp
      exact List.forall_mem_append.2 ⟨h, List.forall_mem_singleton.2
        (readsPlain_turn hP he.1 he.2 h hp)⟩
  | unrecorded facts =>
    rw [reminderStep]
    split <;> exact h
  | other msgs =>
    exact List.forall_mem_append.2 ⟨h, fun msg hmsg => readsPlain_of_plain (he msg hmsg)⟩
  | rewrite history => exact fun msg hmsg => (he msg hmsg).elim (h msg) readsPlain_of_plain
  | restart => exact h

/-- The history of a plain run announces names that meet the condition. -/
theorem readsPlain_run (hP : ∀ name, P name → PlainName name) {es : List ReminderEvent}
    (hes : Run.EachStep reminderStep (PlainEvent P) {} es) :
    ∀ msg ∈ (Run.exec reminderStep {} es).history, ReadsPlain P msg :=
  have hempty : ∀ msg ∈ ({} : ReminderState).history, ReadsPlain P msg := fun _ hmsg => nomatch hmsg
  (Run.always_of_step (fun _ _ => readsPlain_step hP) hempty hes).last

end Plain

/-! ## What is announced after a turn -/

lemma forall_mem_of_all {chars allowed : List Char} (h : chars.all (· ∈ allowed) = true) :
    ∀ c ∈ chars, c ∈ allowed := fun c hc => of_decide_eq_true (List.all_eq_true.1 h c hc)

/-- A Monday without skills and sub-agents. -/
def aMonday : TurnFacts where
  today :=
    { date := "2025-01-06".toList
      weekday := "Monday".toList
      offset := "+8".toList
      length_date := by decide
      date_chars := forall_mem_of_all (by decide)
      weekday_mem := by decide
      offset_chars := forall_mem_of_all (by decide) }
  autonomy := .default
  skills := []
  agents := []

/-- The same day with a skill and a sub-agent. -/
def busyMonday : TurnFacts :=
  { aMonday with
    skills := [⟨"pdf".toList, "Reads PDF files.".toList, none⟩]
    agents := [("coder".toList, "Writes code.".toList)] }

/-- An event between two turns: nothing is announced. -/
def ReminderEvent.Quiet : ReminderEvent → Prop
  | .other msgs => ∀ msg ∈ msgs, msg.Plain
  | .unrecorded _ => True
  | .restart => True
  | .turn _ _ => False
  | .rewrite _ => False

/-- What is told of a list is the difference to the list before. -/
def TellsDifference {β : Type*} (key : β → List Char) (before now : List β)
    (delta : Option (List β × List (List Char))) : Prop :=
  match delta with
  | none => ∀ n, n ∈ now.map key ↔ n ∈ before.map key
  | some (added, removed) =>
    (added = now.filter fun b => key b ∉ before.map key) ∧
      (∀ n, n ∈ removed ↔ n ∈ before.map key ∧ n ∉ now.map key) ∧
        ¬ ∀ n, n ∈ now.map key ↔ n ∈ before.map key

section Announced

variable {s : ReminderState} {facts next : TurnFacts} {user : List Char}

/-- Between two turns the history announces the same. -/
lemma rebuild_quiet {es : List ReminderEvent} (hes : ∀ e ∈ es, e.Quiet) :
    rebuildFromHistory (Run.exec reminderStep s es).history = rebuildFromHistory s.history := by
  have hplain : ∀ (msgs : List HistoryText), (∀ msg ∈ msgs, msg.Plain) →
      ∀ announced, msgs.foldlM readReminder announced = some announced := by
    intro msgs hmsgs announced
    induction msgs with
    | nil => rfl
    | cons msg msgs ih =>
      rw [List.foldlM_cons, readReminder_plain (hmsgs msg List.mem_cons_self)]
      exact ih fun m hm => hmsgs m (List.mem_cons_of_mem _ hm)
  have hstep : ∀ (s : ReminderState) (e : ReminderEvent), e.Quiet →
      rebuildFromHistory (reminderStep s e).history = rebuildFromHistory s.history := by
    intro s e he
    cases e with
    | turn facts user => exact he.elim
    | unrecorded facts => rw [reminderStep]; split <;> rfl
    | other msgs =>
      rw [reminderStep, rebuildFromHistory, List.foldlM_append, ← rebuildFromHistory]
      cases rebuildFromHistory s.history with
      | none => rfl
      | some announced => exact hplain msgs he announced
    | rewrite history => exact he.elim
    | restart => rfl
  induction es generalizing s with
  | nil => rfl
  | cons e es ih =>
    rw [Run.exec_cons, ih fun e' he' => hes e' (List.mem_cons_of_mem _ he'),
      hstep s e (hes e List.mem_cons_self)]

/-- What is told of a list, from the names that are announced. -/
lemma tellsDifference_diffList {β : Type*} [DecidableEq β] {key : β → List Char} {before now : List β}
    {names : List (List Char)} (h : ∀ n, n ∈ names ↔ n ∈ before.map key) :
    TellsDifference key before now (diffList key now names) := by
  have hadded : (now.filter fun b => key b ∉ names) = now.filter fun b => key b ∉ before.map key :=
    List.filter_congr fun b _ => decide_eq_decide.2 (not_congr (h (key b)))
  have hremoved : ∀ n, n ∈ names.filter (fun name => name ∉ now.map key) ↔
      n ∈ before.map key ∧ n ∉ now.map key := fun n => by
    rw [List.mem_filter, h, decide_eq_true_iff]
  have hempty : (∀ n, n ∈ now.map key ↔ n ∈ before.map key) ↔
      (now.filter fun b => key b ∉ before.map key) = [] ∧
        (names.filter fun name => name ∉ now.map key) = [] := by
    simp only [List.filter_eq_nil_iff, decide_eq_true_eq, not_not, h]
    exact ⟨fun hiff => ⟨fun b hb => (hiff _).1 (List.mem_map_of_mem hb), fun n => (hiff n).2⟩,
      fun ⟨hnew, hgone⟩ n => ⟨fun hn => by
        obtain ⟨b, hb, rfl⟩ := List.mem_map.1 hn
        exact hnew b hb, hgone n⟩⟩
  rw [diffList, hadded]
  split_ifs with hsame
  · exact hempty.2 hsame
  · exact ⟨rfl, hremoved, fun hiff => hsame (hempty.1 hiff)⟩

/-- **Each turn tells the difference to the turn before.**  In a run of a session whose texts are read
as they are meant, whatever was compacted, rolled back or left out before, and whether or not the program
started again since: of the skills and of the sub-agents a turn tells exactly which ones are new and which
ones are gone since the turn before, and nothing if they are the same. -/
theorem announced_run {es between : List ReminderEvent}
    (hes : Run.EachStep reminderStep (PlainEvent PlainName) {} es)
    (hfacts : PlainFacts PlainName facts) (huser : InertText user)
    (hbetween : ∀ e ∈ between, e.Quiet) (last : Option (List Char)) :
    ∃ p, diffAll last next
        (Run.exec reminderStep {} (es ++ .turn facts user :: between)).history = some p ∧
      TellsDifference Skill.name facts.skills next.skills p.skills ∧
        TellsDifference Prod.fst facts.agents next.agents p.agents := by
  have hhistory := readsPlain_run (fun _ => id) hes
  obtain ⟨announced, hannounced, hplain⟩ := exists_rebuild hhistory
  rw [Run.exec_append, Run.exec_cons]
  generalize Run.exec reminderStep {} es = s at *
  obtain ⟨p, hp⟩ : ∃ p, diffAll s.lastInjectedDate facts s.history = some p := by
    rw [diffAll, hannounced]
    exact ⟨_, rfl⟩
  have hpending := plainPending_diffAll (fun _ => id) hfacts hannounced hplain hp
  have hafter : rebuildFromHistory (reminderStep s (.turn facts user)).history =
      some (p.announce announced) := by
    rw [reminderStep, hp]
    dsimp only
    rw [rebuildFromHistory, List.foldlM_append, ← rebuildFromHistory, hannounced, Option.bind_eq_bind,
      Option.bind_some, List.foldlM_cons, readReminder_plainTurn hpending huser]
    rfl
  have hskills : ∀ n, n ∈ (p.announce announced).skills ↔ n ∈ facts.skills.map Skill.name := by
    rw [diffAll, hannounced] at hp
    cases hp
    exact fun n => mem_applyDelta_diffList
  have hagents : ∀ n, n ∈ (p.announce announced).agents ↔ n ∈ facts.agents.map Prod.fst := by
    rw [diffAll, hannounced] at hp
    cases hp
    exact fun n => mem_applyDelta_diffList
  rw [diffAll, rebuild_quiet hbetween, hafter]
  exact ⟨_, rfl, tellsDifference_diffList hskills, tellsDifference_diffList hagents⟩

lemma plainFacts_aMonday : PlainFacts PlainName aMonday := ⟨nofun, nofun, nofun⟩

lemma plainFacts_busyMonday : PlainFacts PlainName busyMonday where
  skills := List.forall_mem_singleton.2 ⟨⟨by decide, nofun⟩, by decide⟩
  agents := List.forall_mem_singleton.2 ⟨⟨by decide, by decide, by decide⟩, by decide⟩
  others := nofun

/-- A skill and a sub-agent come and go. -/
theorem announced_busyMonday :
    ∃ p, diffAll none aMonday (Run.exec reminderStep {}
        [.turn aMonday "hello".toList, .turn busyMonday "- buy milk".toList, .restart]).history = some p ∧
      TellsDifference Skill.name busyMonday.skills aMonday.skills p.skills ∧
        TellsDifference Prod.fst busyMonday.agents aMonday.agents p.agents := by
  have huser : InertText "hello".toList := by decide
  have huser' : InertText "- buy milk".toList := by decide
  have hbetween : ∀ e ∈ [ReminderEvent.restart], e.Quiet := List.forall_mem_singleton.2 trivial
  exact @announced_run busyMonday aMonday "- buy milk".toList [.turn aMonday "hello".toList] [.restart]
    ⟨⟨plainFacts_aMonday, huser⟩, trivial⟩ plainFacts_busyMonday huser' hbetween none

end Announced

/-! ## A text that silences the session -/

section Silenced

variable {p : Pending} {facts : TurnFacts} {user : List Char}

/-- The message of a turn makes every later turn panic exactly if a line of the user does and the message
begins with a reminder. -/
lemma poisonous_turnText_iff (h : PlainPending p) :
    HistoryText.Poisonous ⟨"user", turnText p user⟩ ↔
      (p.sections ≠ [] ∨ HistoryText.isReminder ⟨"user", user⟩ = true) ∧
        ∃ line ∈ textLines user, StrikesNothing line := by
  rw [← @readReminder_eq_none_iff {}, readReminder_turnText h]
  split_ifs with hnil
  · rw [readReminder_eq_none_iff, HistoryText.Poisonous, or_iff_right (not_not.2 hnil)]
  · rw [Option.map_eq_none_iff, readReminderLines, @foldlM_eq_none_iff _ _ readReminderLine StrikesNothing
      (fun _ _ => readReminderLine_eq_none_iff), and_iff_right (Or.inl hnil)]

end Silenced

end MyClaw
