import MyClaw.Memory.FileText

set_option autoImplicit false

/-!
# Reminders in the history

Each turn puts a `<system-reminder>` in front of the text of the user: the date, the autonomy level, and
what skills and sub-agents there are that the history does not speak of yet (`agents/attachment.rs`).
Which ones the history speaks of is read from its reminders again, line by line, each time.

## Main definitions

* `readReminderLine`, `readReminder` — how a line and a reminder are read.
* `rebuildFromHistory` — what a history has announced.
* `renderSkills`, `renderAgents` — the lines of a list.
* `StrikesNothing` — the lines that `rebuild_from_history` panics on.

## Main results

* `rebuildFromHistory_eq_none_iff` — when it panics.
* `foldlM_renderSkills`, `foldlM_renderAgents` — a list that is written is read again.

## Implementation notes

A set of names is a list of them, so an order is fixed where the program has none.  `none` is a panic:
`unwrap` of a suffix that is not there.
-/

namespace MyClaw

/-! ## Reading -/

/-- The lists that a reminder speaks of. -/
inductive ReminderSection
  | skills | agents | mcp
  deriving DecidableEq

/-- `AnnouncedState`. -/
structure AnnouncedState where
  skills : List (List Char) := []
  agents : List (List Char) := []
  mcp : List (List Char) := []

/-- Texts are equal if their characters are. -/
lemma lawfulBEq_text : LawfulBEq (List Char) := inferInstance

attribute [local instance] lawfulBEq_text

/-- `HashSet::insert`. -/
def insertName (name : List Char) (names : List (List Char)) : List (List Char) :=
  if name ∈ names then names else names ++ [name]

/-- `HashSet::remove`. -/
def removeName (name : List Char) (names : List (List Char)) : List (List Char) :=
  names.filter (· ≠ name)

/-- The names of the present section change. -/
def AnnouncedState.update (announced : AnnouncedState) (current : Option ReminderSection)
    (f : List (List Char) → List (List Char)) : AnnouncedState :=
  match current with
  | some .skills => { announced with skills := f announced.skills }
  | some .agents => { announced with agents := f announced.agents }
  | some .mcp => { announced with mcp := f announced.mcp }
  | none => announced

/-- The section that a header opens; a header of something else opens none. -/
def sectionHeader (trimmed : List Char) : Option (Option ReminderSection) :=
  if "## Skills".toList <+: trimmed then some (some .skills)
  else if "## Available Sub-Agents".toList <+: trimmed then some (some .agents)
  else if "## MCP Server Instructions".toList <+: trimmed then some (some .mcp)
  else if "## ".toList <+: trimmed then some none
  else none

/-- The text without `ending` if it ends so. -/
def stripSuffix (ending text : List Char) : Option (List Char) :=
  if ending <:+ text then some (text.take (text.length - ending.length)) else none

/-- The name that a line `- **…**` has in a section. -/
def addedName (current : Option ReminderSection) (raw : List Char) : Option (List Char) :=
  if raw = [] then none
  else
    match current with
    | some .skills => some raw
    | some .agents => some (trimChars (raw.takeWhile (· ≠ ':')))
    | _ => none

/-- A line of a reminder, with the present section. -/
def readReminderLine (s : Option ReminderSection × AnnouncedState) (line : List Char) :
    Option (Option ReminderSection × AnnouncedState) :=
  let trimmed := trimChars line
  match sectionHeader trimmed with
  | some current => some (current, s.2)
  | none =>
    if "- ~~".toList <+: trimmed ∧ "~~".toList <:+ trimmed then
      match (Chars.stripPrefix "- ~~".toList trimmed).bind (stripSuffix "~~".toList) with
      | none => none
      | some inner =>
        let name := trimChars inner
        if name = [] then some s else some (s.1, s.2.update s.1 (removeName name))
    else if "- **".toList <+: trimmed then
      let rest := trimmed.drop 4
      match (Holes.findText "**".toList rest).bind fun i => addedName s.1 (rest.take i) with
      | none => some s
      | some name => some (s.1, s.2.update s.1 (insertName name))
    else if s.1 = some .mcp ∧ "### ".toList <+: trimmed then
      let name := trimChars (trimmed.drop 4)
      if name = [] then some s else some (s.1, s.2.update s.1 (insertName name))
    else some s

/-- The loop over the lines of a text. -/
def readReminderLines (s : Option ReminderSection × AnnouncedState) (text : List Char) :
    Option (Option ReminderSection × AnnouncedState) :=
  (textLines text).foldlM readReminderLine s

/-- The role and the `text_content` of a message. -/
structure HistoryText where
  role : String
  text : List Char

/-- A message that `rebuild_from_history` reads. -/
def HistoryText.isReminder (msg : HistoryText) : Bool :=
  decide ("<system-reminder>".toList <+: msg.text) && msg.role == "user"

/-- A message adds to what is announced. -/
def readReminder (announced : AnnouncedState) (msg : HistoryText) : Option AnnouncedState :=
  if msg.isReminder then (readReminderLines (none, announced) msg.text).map Prod.snd else some announced

/-- `rebuild_from_history`. -/
def rebuildFromHistory (history : List HistoryText) : Option AnnouncedState :=
  history.foldlM readReminder {}

/-! ## Writing -/

/-- `Skill`, as far as a reminder shows it. -/
structure Skill where
  name : List Char
  description : List Char
  whenToUse : Option (List Char) := none
  deriving DecidableEq

/-- `MAX_INJECTED_DESCRIPTION_CHARS`. -/
def maxInjectedDescriptionChars : ℕ := 1024

/-- `injected_summary`. -/
def Skill.injectedSummary (skill : Skill) : List Char :=
  if skill.description.length ≤ maxInjectedDescriptionChars then skill.description
  else skill.description.take (maxInjectedDescriptionChars - 3) ++ "...".toList

/-- `split_whitespace`, joined by blanks. -/
def foldWhiteSpace (text : List Char) : List Char :=
  [' '].intercalate ((text.splitOnP isWhiteSpace).filter (· ≠ []))

/-- What follows the name of a skill that is new. -/
def skillDetails (skill : Skill) : List Char :=
  let summary := foldWhiteSpace skill.injectedSummary
  (if summary = [] then [] else ": ".toList ++ summary) ++
    match skill.whenToUse with
    | none => []
    | some w => " (trigger: ".toList ++ w ++ ")".toList

/-- The line of a skill that is new. -/
def skillLine (skill : Skill) : List Char :=
  "- **".toList ++ (skill.name ++ "**".toList) ++ skillDetails skill

/-- The line of a sub-agent that is new. -/
def agentLine (agent : List Char × List Char) : List Char :=
  "- **".toList ++ (if agent.2 = [] then agent.1 else agent.1 ++ ": ".toList ++ agent.2) ++
    "**".toList

/-- The line of a name that is gone. -/
def removedLine (name : List Char) : List Char := "- ~~".toList ++ name ++ "~~".toList

/-- The names that are gone, below the line that says so. -/
def removedLines (intro : String) (removed : List (List Char)) : List (List Char) :=
  if removed = [] then [] else intro.toList :: removed.map removedLine ++ [[]]

/-- What is new, below the line that says how to use it. -/
def addedLines (intro : String) (added : List (List Char)) : List (List Char) :=
  if added = [] then [] else intro.toList :: added

/-- `render_skills`. -/
def renderSkills (added : List Skill) (removed : List (List Char)) : List (List Char) :=
  "## Skills".toList ::
    (removedLines "The following skills are no longer available:" removed ++
      addedLines "Skills provide behavioral instructions for specific tasks. Use the `skill_view` tool to load a skill's full instructions when needed."
        (added.map skillLine))

/-- `render_agents`. -/
def renderAgents (added : List (List Char × List Char)) (removed : List (List Char)) :
    List (List Char) :=
  "## Available Sub-Agents".toList ::
    (removedLines "The following sub-agents are no longer available:" removed ++
      addedLines "Use `agent_delegate(agent=\"name\", task=\"...\", mode=\"sync\"/\"async\")` to delegate."
        (added.map agentLine))

/-! ## Lines that are read as they are -/

section Reading

variable {line text : List Char} {s : Option ReminderSection × AnnouncedState}

lemma readReminderLine_of_trim {line' : List Char} (h : trimChars line = trimChars line') :
    readReminderLine s line = readReminderLine s line' := by
  rw [readReminderLine, h, ← readReminderLine]

/-- A text is read line by line. -/
lemma readReminderLines_append_newline (h : '\n' ∉ line) :
    readReminderLines s (line ++ '\n' :: text) = (readReminderLine s line).bind (readReminderLines · text) := by
  have hline : trimChars (if line.getLast? = some '\r' then line.dropLast else line) =
      trimChars line := by
    split_ifs with hlast
    · obtain ⟨before, rfl⟩ := List.getLast?_eq_some_iff.1 hlast
      rw [List.dropLast_concat, trimChars_append_white rfl]
    · rfl
  rw [readReminderLines, textLines_append_newline h, List.foldlM_cons, readReminderLine_of_trim hline]
  rfl

/-- Every header begins with a hash. -/
lemma sectionHeader_eq_none {trimmed : List Char} (h : trimmed.head? ≠ some '#') :
    sectionHeader trimmed = none := by
  have hne : ∀ header : List Char, header.head? = some '#' → ¬ header <+: trimmed := by
    rintro (_ | ⟨c, header⟩) hhead ⟨rest, rfl⟩
    · cases hhead
    · exact h hhead
  rw [sectionHeader, if_neg (hne _ (by decide)), if_neg (hne _ (by decide)),
    if_neg (hne _ (by decide)), if_neg (hne _ (by decide))]

/-- A header is not a line of a list. -/
lemma sectionHeader_dash (rest : List Char) : sectionHeader ('-' :: rest) = none :=
  sectionHeader_eq_none (by simp)

/-- A line that is no header and no line of a list. -/
def InertLine (line : List Char) : Prop :=
  sectionHeader (trimChars line) = none ∧ ¬ "- ~~".toList <+: trimChars line ∧
    ¬ "- **".toList <+: trimChars line

instance (line : List Char) : Decidable (InertLine line) := instDecidableAnd

/-- A line is inert from its first character. -/
lemma inertLine_of_head (h : line.head?.any fun c => ! isWhiteSpace c && c != '#' && c != '-') :
    InertLine line := by
  cases line with
  | nil => cases h
  | cons c rest =>
    obtain ⟨⟨hwhite, hhash⟩, hdash⟩ : (isWhiteSpace c = false ∧ c ≠ '#') ∧ c ≠ '-' := by simpa using h
    have hprefix : trimChars (c :: rest) <+: c :: rest := by
      rw [trimChars, List.dropWhile_cons_of_neg (by simpa using hwhite)]
      exact trimEnd_isPrefix _
    have hfirst : ∀ mark : List Char, mark.head? = some '-' → ¬ mark <+: trimChars (c :: rest) := by
      rintro (_ | ⟨d, mark⟩) hhead hmark
      · cases hhead
      · exact hdash ((List.cons_prefix_cons.1 (hmark.trans hprefix)).1.symm.trans
          (Option.some.inj hhead))
    refine ⟨sectionHeader_eq_none fun hhead => ?_, hfirst _ (by decide), hfirst _ (by decide)⟩
    obtain ⟨after, hafter⟩ := List.head?_eq_some_iff.1 hhead
    rw [hafter] at hprefix
    exact hhash (List.cons_prefix_cons.1 hprefix).1.symm

/-- A line that begins with a text is inert from the first character of that. -/
lemma inertLine_toList_append {begin : String} {chars : List Char} (h : begin = String.ofList chars)
    (hhead : chars.head?.any fun c => ! isWhiteSpace c && c != '#' && c != '-') (rest : List Char) :
    InertLine (begin.toList ++ rest) := by
  rw [h, String.toList_ofList]
  cases chars with
  | nil => cases hhead
  | cons c chars => exact inertLine_of_head hhead

lemma inertLine_toList {text : String} {chars : List Char} (h : text = String.ofList chars)
    (hhead : chars.head?.any fun c => ! isWhiteSpace c && c != '#' && c != '-') :
    InertLine text.toList := by
  have hline := inertLine_toList_append h hhead []
  rwa [List.append_nil] at hline

/-- An inert line is passed over, outside the section of the servers. -/
lemma readReminderLine_inert (h : InertLine line) (hs : s.1 ≠ some .mcp) :
    readReminderLine s line = some s := by
  rw [readReminderLine]
  simp only [h.1]
  rw [if_neg fun hstruck => h.2.1 hstruck.1, if_neg h.2.2, if_neg fun hmcp => hs hmcp.1]

/-- Lines of which each is inert are passed over together. -/
lemma foldlM_inert {lines : List (List Char)} (h : ∀ line ∈ lines, InertLine line)
    (hs : s.1 ≠ some .mcp) : lines.foldlM readReminderLine s = some s := by
  induction lines with
  | nil => rfl
  | cons line lines ih =>
    rw [List.foldlM_cons, readReminderLine_inert (h line List.mem_cons_self) hs]
    exact ih fun l hl => h l (List.mem_cons_of_mem _ hl)

end Reading

/-! ## When reading panics -/

section Panics

variable {s : Option ReminderSection × AnnouncedState} {line : List Char}

/-- A struck line without room for both marks: nothing is left for the second `unwrap`. -/
def StrikesNothing (line : List Char) : Prop :=
  trimChars line = "- ~~".toList ∨ trimChars line = "- ~~~".toList

instance (line : List Char) : Decidable (StrikesNothing line) := instDecidableOr

lemma stripSuffix_eq_none_iff {ending text : List Char} :
    stripSuffix ending text = none ↔ ¬ ending <:+ text := by
  rw [stripSuffix]
  split_ifs with h <;> simp [h]

/-- The two marks of a struck line overlap exactly in two texts. -/
lemma stripped_eq_none_iff {text : List Char} (hpre : "- ~~".toList <+: text)
    (hsuf : "~~".toList <:+ text) :
    (Chars.stripPrefix "- ~~".toList text).bind (stripSuffix "~~".toList) = none ↔
      text = "- ~~".toList ∨ text = "- ~~~".toList := by
  obtain ⟨rest, rfl⟩ := hpre
  have hstrip : Chars.stripPrefix "- ~~".toList ("- ~~".toList ++ rest) = some rest := by
    rw [Chars.stripPrefix, if_pos (List.prefix_append _ _), List.drop_left]
  rw [hstrip, Option.bind_some, stripSuffix_eq_none_iff]
  constructor
  · intro hno
    match rest with
    | [] => exact .inl rfl
    | [c] =>
      have hlast := hsuf.getLast (by decide)
      refine .inr ?_
      have hc : c = '~' := by simpa using hlast.symm
      rw [hc]
      rfl
    | c :: d :: rest =>
      refine absurd ?_ hno
      exact List.suffix_of_suffix_length_le hsuf (List.suffix_append _ _) (by simp)
  · rintro (h | h)
    · obtain rfl : rest = [] := List.append_cancel_left (h.trans (List.append_nil _).symm)
      decide
    · obtain rfl : rest = ['~'] := List.append_cancel_left (h.trans rfl)
      decide

/-- Whether a line makes the loop panic does not depend on what was read before. -/
lemma readReminderLine_eq_none_iff : readReminderLine s line = none ↔ StrikesNothing line := by
  rw [readReminderLine, StrikesNothing]
  generalize trimChars line = trimmed
  dsimp only
  by_cases hstruck : "- ~~".toList <+: trimmed ∧ "~~".toList <:+ trimmed
  · have hheader : sectionHeader trimmed = none := by
      obtain ⟨rest, rfl⟩ := hstruck.1
      exact sectionHeader_dash _
    rw [hheader]
    dsimp only
    rw [if_pos hstruck, ← stripped_eq_none_iff hstruck.1 hstruck.2]
    split
    · rename_i hnone
      exact iff_of_true rfl hnone
    · rename_i inner hsome
      rw [hsome]
      split_ifs <;> simp
  · have hother : ¬ (trimmed = "- ~~".toList ∨ trimmed = "- ~~~".toList) := by
      rintro (rfl | rfl)
      · exact hstruck (by decide)
      · exact hstruck (by decide)
    refine iff_of_false ?_ hother
    rw [if_neg hstruck]
    split
    · simp
    · split_ifs
      · split <;> simp
      · simp
      · simp
      · simp

/-- A loop over lines stops exactly at a line that stops it, if that does not depend on the state. -/
lemma foldlM_eq_none_iff {σ α : Type*} {f : σ → α → Option σ} {bad : α → Prop}
    (hf : ∀ s a, f s a = none ↔ bad a) {l : List α} {s : σ} :
    l.foldlM f s = none ↔ ∃ a ∈ l, bad a := by
  induction l generalizing s with
  | nil => simp
  | cons a l ih =>
    simp only [List.mem_cons, exists_eq_or_imp, ← hf s a, List.foldlM_cons]
    cases h : f s a with
    | none => exact iff_of_true rfl (.inl rfl)
    | some s' => simpa using ih

/-- A message that makes every later turn panic. -/
def HistoryText.Poisonous (msg : HistoryText) : Prop :=
  msg.isReminder = true ∧ ∃ line ∈ textLines msg.text, StrikesNothing line

lemma readReminder_eq_none_iff {announced : AnnouncedState} {msg : HistoryText} :
    readReminder announced msg = none ↔ msg.Poisonous := by
  rw [readReminder, HistoryText.Poisonous]
  split_ifs with h
  · rw [Option.map_eq_none_iff, readReminderLines, @foldlM_eq_none_iff _ _ readReminderLine StrikesNothing
      (fun _ _ => readReminderLine_eq_none_iff)]
    exact (and_iff_right h).symm
  · exact iff_of_false nofun fun hp => h hp.1

/-- **When `rebuild_from_history` panics**: exactly when a message that begins with a reminder, the text
of the user behind it included, has a line `- ~~` or `- ~~~`. -/
theorem rebuildFromHistory_eq_none_iff (history : List HistoryText) :
    rebuildFromHistory history = none ↔ ∃ msg ∈ history, msg.Poisonous :=
  @foldlM_eq_none_iff _ _ readReminder HistoryText.Poisonous
    (fun _ _ => readReminder_eq_none_iff) history {}

end Panics

/-! ## Lines of a list -/

section Lists

variable {current : Option ReminderSection} {announced : AnnouncedState} {name : List Char}

/-- A name that a line of a list can carry. -/
structure PlainName (name : List Char) : Prop where
  nonempty : name ≠ []
  trimmed : trimChars name = name
  newline : '\n' ∉ name
  star : '*' ∉ name

instance (name : List Char) : Decidable (PlainName name) :=
  decidable_of_iff (name ≠ [] ∧ trimChars name = name ∧ '\n' ∉ name ∧ '*' ∉ name)
    ⟨fun ⟨h₁, h₂, h₃, h₄⟩ => ⟨h₁, h₂, h₃, h₄⟩, fun ⟨h₁, h₂, h₃, h₄⟩ => ⟨h₁, h₂, h₃, h₄⟩⟩

lemma update_update (f g : List (List Char) → List (List Char)) :
    (announced.update current f).update current g = announced.update current (g ∘ f) := by
  rcases current with _ | _ | _ | _ <;> rfl

lemma update_id : announced.update current (fun names => names) = announced := by
  rcases current with _ | _ | _ | _ <;> rfl

lemma trimChars_removedLine (name : List Char) : trimChars (removedLine name) = removedLine name := by
  have hsplit : removedLine name = '-' :: (" ~~".toList ++ name ++ ['~']) ++ ['~'] ++ [] := by
    simp [removedLine]
  rw [hsplit, trimChars_append_right (by decide) (by decide)]
  rfl

/-- A struck name is removed. -/
lemma readReminderLine_removedLine (h : PlainName name) :
    readReminderLine (current, announced) (removedLine name) =
      some (current, announced.update current (removeName name)) := by
  have hpre : "- ~~".toList <+: removedLine name := by
    rw [removedLine, List.append_assoc]
    exact List.prefix_append _ _
  have hsuf : "~~".toList <:+ removedLine name := List.suffix_append _ _
  have hinner : (Chars.stripPrefix "- ~~".toList (removedLine name)).bind
      (stripSuffix "~~".toList) = some name := by
    rw [Chars.stripPrefix, if_pos hpre, removedLine, List.append_assoc, List.drop_left,
      Option.bind_some, stripSuffix, if_pos (List.suffix_append _ _), List.length_append,
      Nat.add_sub_cancel, List.take_left]
  have hheader : sectionHeader (removedLine name) = none := sectionHeader_dash _
  rw [readReminderLine, trimChars_removedLine]
  simp only [hheader, if_pos (And.intro hpre hsuf), hinner, h.trimmed, if_neg h.nonempty]

/-- The names that are gone are removed. -/
lemma foldlM_removedLine {names : List (List Char)} (h : ∀ name ∈ names, PlainName name) :
    (names.map removedLine).foldlM readReminderLine (current, announced) =
      some (current, announced.update current (·.filter (· ∉ names))) := by
  induction names generalizing announced with
  | nil => simp [update_id]
  | cons name names ih =>
    rw [List.map_cons, List.foldlM_cons, readReminderLine_removedLine (h name List.mem_cons_self)]
    refine (ih fun n hn => h n (List.mem_cons_of_mem _ hn)).trans ?_
    rw [update_update]
    refine congrArg (fun f => some (current, announced.update current f)) (funext fun l => ?_)
    rw [Function.comp_apply, removeName, List.filter_filter]
    refine List.filter_congr fun n _ => ?_
    simp [Bool.and_comm]

/-- A line that begins with a name between stars. -/
lemma readReminderLine_starred {rest raw : List Char} (hname : '*' ∉ name)
    (hraw : (Holes.findText "**".toList (rest ++ "**".toList)).map
      (fun i => (name ++ rest ++ "**".toList).take (i + name.length)) = some raw) (tail : List Char) :
    readReminderLine (current, announced)
        ("- **".toList ++ (name ++ rest ++ "**".toList) ++ tail) =
      match addedName current raw with
      | none => some (current, announced)
      | some name => some (current, announced.update current (insertName name)) := by
  obtain ⟨i, hi, rfl⟩ := Option.map_eq_some_iff.1 hraw
  have hplace : i + "**".toList.length ≤ (rest ++ "**".toList).length := by
    have hlen := (Holes.findText_spec hi).1.length_le
    rw [List.length_drop] at hlen
    have hpos : 0 < "**".toList.length := by decide
    omega
  have htrim : trimChars ("- **".toList ++ (name ++ rest ++ "**".toList) ++ tail) =
      "- **".toList ++ (name ++ rest ++ "**".toList ++ trimEnd tail) := by
    have hsplit : "- **".toList ++ (name ++ rest ++ "**".toList) ++ tail =
        '-' :: (" **".toList ++ name ++ rest ++ ['*']) ++ ['*'] ++ tail := by simp
    rw [hsplit, trimChars_append_right (by decide) (by decide)]
    simp
  have hfind : Holes.findText "**".toList (name ++ rest ++ "**".toList ++ trimEnd tail) =
      some (i + name.length) := by
    have hlocal : Holes.findText "**".toList (rest ++ "**".toList ++ trimEnd tail) = some i :=
      (Holes.findText_append_iff (by decide) hplace).2 hi
    have hskip : Holes.findText "**".toList (name ++ (rest ++ "**".toList ++ trimEnd tail)) =
        (Holes.findText "**".toList (rest ++ "**".toList ++ trimEnd tail)).map (· + name.length) :=
      Holes.findText_append_left (by decide) fun c hc hmem => by
        obtain rfl : c = '*' := by simpa using hmem
        exact hname hc
    rw [hlocal] at hskip
    simpa only [List.append_assoc, Option.map_some] using hskip
  have htake : (name ++ rest ++ "**".toList ++ trimEnd tail).take (i + name.length) =
      (name ++ rest ++ "**".toList).take (i + name.length) := by
    refine List.take_append_of_le_length ?_
    simp only [List.length_append] at hplace ⊢
    omega
  have hheader : sectionHeader ("- **".toList ++ (name ++ rest ++ "**".toList ++ trimEnd tail)) =
      none := sectionHeader_dash _
  have hstruck : ¬ ("- ~~".toList <+:
        "- **".toList ++ (name ++ rest ++ "**".toList ++ trimEnd tail) ∧
      "~~".toList <:+ "- **".toList ++ (name ++ rest ++ "**".toList ++ trimEnd tail)) := by
    rintro ⟨hpre, -⟩
    have hpre' : "- ~~".toList <+: "- **".toList :=
      List.prefix_of_prefix_length_le hpre (List.prefix_append _ _) (by decide)
    exact absurd hpre' (by decide)
  have hdrop : ("- **".toList ++ (name ++ rest ++ "**".toList ++ trimEnd tail)).drop 4 =
      name ++ rest ++ "**".toList ++ trimEnd tail := by
    show List.drop "- **".toList.length _ = _
    exact List.drop_left
  rw [readReminderLine, htrim]
  simp only [hheader, if_neg hstruck, if_pos (List.prefix_append _ _), hdrop, hfind,
    Option.bind_some, htake]

/-- A skill whose line is read as its name. -/
structure PlainSkill (skill : Skill) : Prop where
  name : PlainName skill.name
  whenToUse : ∀ w, skill.whenToUse = some w → '\n' ∉ w

/-- A sub-agent whose line is read as its name. -/
structure PlainAgent (agent : List Char × List Char) : Prop where
  name : PlainName agent.1
  colon : ':' ∉ agent.1
  description : '\n' ∉ agent.2

/-- The line of a skill announces the skill. -/
lemma readReminderLine_skillLine {skill : Skill} (h : PlainSkill skill) :
    readReminderLine (some .skills, announced) (skillLine skill) =
      some (some .skills, announced.update (some .skills) (insertName skill.name)) := by
  have hraw : (Holes.findText "**".toList ([] ++ "**".toList)).map
      (fun i => (skill.name ++ [] ++ "**".toList).take (i + skill.name.length)) =
        some skill.name := by
    have hfind : Holes.findText "**".toList ([] ++ "**".toList) = some 0 := by decide
    rw [hfind, Option.map_some, Nat.zero_add, List.append_nil, List.take_left]
  have hline : skillLine skill =
      "- **".toList ++ (skill.name ++ [] ++ "**".toList) ++ skillDetails skill := by
    rw [skillLine, List.append_nil]
  rw [hline, readReminderLine_starred h.name.star hraw, addedName, if_neg h.name.nonempty]

/-- The line of a sub-agent announces it, whatever stars its description has. -/
lemma readReminderLine_agentLine {agent : List Char × List Char} (h : PlainAgent agent) :
    readReminderLine (some .agents, announced) (agentLine agent) =
      some (some .agents, announced.update (some .agents) (insertName agent.1)) := by
  obtain ⟨rest, hrest, hcolon⟩ : ∃ rest : List Char,
      (if agent.2 = [] then agent.1 else agent.1 ++ ": ".toList ++ agent.2) = agent.1 ++ rest ∧
        (rest = [] ∨ ∃ d, rest = ':' :: d) := by
    split_ifs with hnil
    · exact ⟨[], (List.append_nil _).symm, .inl rfl⟩
    · exact ⟨": ".toList ++ agent.2, List.append_assoc _ _ _, .inr ⟨_, rfl⟩⟩
  obtain ⟨i, hi⟩ : ∃ i, Holes.findText "**".toList (rest ++ "**".toList) = some i := by
    refine Option.ne_none_iff_exists'.1 fun hnone => ?_
    exact Holes.findText_eq_none_iff.1 hnone ⟨rest, [], by rw [List.append_nil]⟩
  have htake : (agent.1 ++ rest ++ "**".toList).take (i + agent.1.length) =
      agent.1 ++ (rest ++ "**".toList).take i := by
    rw [List.append_assoc, Nat.add_comm, List.take_length_add_append]
  have hcut : ((rest ++ "**".toList).take i).takeWhile (· ≠ ':') = [] := by
    rcases hcolon with rfl | ⟨d, rfl⟩
    · have hzero : i = 0 := by
        have hfind : Holes.findText "**".toList ([] ++ "**".toList) = some 0 := by decide
        exact Option.some.inj (hi.symm.trans hfind)
      rw [hzero]
      rfl
    · cases i with
      | zero => rfl
      | succ i => exact List.takeWhile_cons_of_neg (by simp)
  have hname : (agent.1 ++ (rest ++ "**".toList).take i).takeWhile (· ≠ ':') = agent.1 := by
    rw [List.takeWhile_append_of_pos fun c hc => decide_eq_true (ne_of_mem_of_not_mem hc h.colon),
      hcut, List.append_nil]
  have hline : agentLine agent = "- **".toList ++ (agent.1 ++ rest ++ "**".toList) ++ [] := by
    rw [agentLine, hrest, List.append_nil, List.append_assoc, List.append_assoc]
  have hne : agent.1 ++ (rest ++ "**".toList).take i ≠ [] :=
    List.append_ne_nil_of_left_ne_nil h.name.nonempty _
  rw [hline, readReminderLine_starred h.name.star (by rw [hi, Option.map_some, htake]), addedName,
    if_neg hne, hname, h.name.trimmed]

/-- Lines that announce one name each. -/
lemma foldlM_announce {β : Type*} {sec : ReminderSection} {toLine key : β → List Char} {bs : List β}
    (h : ∀ b ∈ bs, ∀ announced, readReminderLine (some sec, announced) (toLine b) =
      some (some sec, announced.update (some sec) (insertName (key b)))) :
    (bs.map toLine).foldlM readReminderLine (some sec, announced) = some (some sec,
      announced.update (some sec) fun names => bs.foldl (fun names b => insertName (key b) names) names) := by
  induction bs generalizing announced with
  | nil => rw [List.map_nil, List.foldlM_nil]; exact congrArg (fun a => some (some sec, a)) update_id.symm
  | cons b bs ih =>
    rw [List.map_cons, List.foldlM_cons, h b List.mem_cons_self]
    refine (ih fun b' hb' => h b' (List.mem_cons_of_mem _ hb')).trans ?_
    rw [update_update]
    rfl

/-- **A list that is written is read again**: what is gone is removed, what is new is inserted. -/
lemma foldlM_list {β : Type*} {sec : ReminderSection} {toLine key : β → List Char} {bs : List β}
    {header : List Char} {removed : List (List Char)} {intro intro' : String}
    (hheader : sectionHeader (trimChars header) = some (some sec)) (hsec : sec ≠ .mcp)
    (hintro : InertLine intro.toList) (hintro' : InertLine intro'.toList)
    (hremoved : ∀ name ∈ removed, PlainName name)
    (hadded : ∀ b ∈ bs, ∀ announced, readReminderLine (some sec, announced) (toLine b) =
      some (some sec, announced.update (some sec) (insertName (key b)))) :
    (header :: (removedLines intro removed ++ addedLines intro' (bs.map toLine))).foldlM
        readReminderLine (current, announced) =
      some (some sec, announced.update (some sec) fun names =>
        bs.foldl (fun names b => insertName (key b) names) (names.filter (· ∉ removed))) := by
  have hmcp : some sec ≠ some ReminderSection.mcp := fun h => hsec (Option.some.inj h)
  have hopen : readReminderLine (current, announced) header = some (some sec, announced) := by
    rw [readReminderLine]
    simp only [hheader]
  have hgone : (removedLines intro removed).foldlM readReminderLine (some sec, announced) =
      some (some sec, announced.update (some sec) (·.filter (· ∉ removed))) := by
    rw [removedLines]
    split_ifs with hnil
    · rw [hnil]
      simp [update_id]
    · rw [List.cons_append, List.foldlM_cons, readReminderLine_inert hintro hmcp]
      refine (List.foldlM_append ..).trans ?_
      rw [foldlM_removedLine hremoved]
      exact @foldlM_inert (some sec, _) [[]] (by decide) hmcp
  have hnew : ∀ announced, (addedLines intro' (bs.map toLine)).foldlM readReminderLine
      (some sec, announced) = some (some sec, announced.update (some sec) fun names =>
        bs.foldl (fun names b => insertName (key b) names) names) := by
    intro announced
    rw [← foldlM_announce hadded, addedLines]
    split_ifs with hnil
    · rw [hnil]
    · rw [List.foldlM_cons, readReminderLine_inert hintro' hmcp]
      rfl
  rw [List.foldlM_cons, hopen]
  refine (List.foldlM_append ..).trans ?_
  rw [hgone]
  refine (hnew _).trans ?_
  rw [update_update]
  rfl

lemma mem_insertName {n : List Char} {names : List (List Char)} :
    n ∈ insertName name names ↔ n ∈ names ∨ n = name := by
  rw [insertName]
  split_ifs with h
  · exact ⟨.inl, fun hn => hn.elim id fun heq => heq ▸ h⟩
  · simp

lemma mem_foldl_insertName {β : Type*} {key : β → List Char} {bs : List β} {n : List Char}
    {names : List (List Char)} :
    n ∈ bs.foldl (fun names b => insertName (key b) names) names ↔ n ∈ names ∨ ∃ b ∈ bs, n = key b := by
  induction bs generalizing names with
  | nil => simp
  | cons b bs ih =>
    rw [List.foldl_cons, ih, mem_insertName, or_assoc]
    simp

/-- The section of the skills. -/
theorem foldlM_renderSkills {added : List Skill} {removed : List (List Char)}
    (hadded : ∀ skill ∈ added, PlainSkill skill) (hremoved : ∀ name ∈ removed, PlainName name) :
    (renderSkills added removed).foldlM readReminderLine (current, announced) =
      some (some .skills, announced.update (some .skills) fun names =>
        added.foldl (fun names skill => insertName skill.name names)
          (names.filter (· ∉ removed))) := by
  refine foldlM_list (by decide) (by decide) ?_ ?_ hremoved fun skill hskill _ =>
    readReminderLine_skillLine (hadded skill hskill)
  · refine inertLine_toList (rfl : _ = String.ofList _) ?_
    decide
  · refine inertLine_toList (rfl : _ = String.ofList _) ?_
    decide

/-- The section of the sub-agents. -/
theorem foldlM_renderAgents {added : List (List Char × List Char)} {removed : List (List Char)}
    (hadded : ∀ agent ∈ added, PlainAgent agent) (hremoved : ∀ name ∈ removed, PlainName name) :
    (renderAgents added removed).foldlM readReminderLine (current, announced) =
      some (some .agents, announced.update (some .agents) fun names =>
        added.foldl (fun names agent => insertName agent.1 names)
          (names.filter (· ∉ removed))) := by
  refine foldlM_list (by decide) (by decide) ?_ ?_ hremoved fun agent hagent _ =>
    readReminderLine_agentLine (hadded agent hagent)
  · refine inertLine_toList (rfl : _ = String.ofList _) ?_
    decide
  · refine inertLine_toList (rfl : _ = String.ofList _) ?_
    decide

end Lists

end MyClaw
