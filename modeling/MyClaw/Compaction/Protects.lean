import MyClaw.Compaction.Engine

set_option autoImplicit false

/-!
# Compaction protects the open turn

Whatever way a compaction takes, what it replaces ends before the open turn of the user, so the
messages of that turn stay, with their ids.

## Main definitions

* `Session.rows` — the messages of a session with their ids.
* `CompactionPath`, `compactPath` — the ways to compact a session.
* `Protects` — one range before the open turn is replaced, and every other row stays.

## Main results

* `compactPath_protects` — every way does.
-/

namespace MyClaw

/-- The messages of a session with their ids. -/
def Session.rows (s : Session) : List (Int × ChatMessage) := s.messageIds.zip s.history

/-- The ways to compact a session. -/
inductive CompactionPath
  | atBoundary (boundary : Nat) (compressBudget : Option Nat) (tasks : Option String)
  | fullFold (compressBudget : Nat) (tasks : Option String)
  | lastResort

/-- The session after a compaction that finds something to fold. -/
def compactPath (env : CompactionEnv) (s : Session) : CompactionPath → Option Session
  | .atBoundary boundary compressBudget tasks =>
    match executeCompaction env s.history boundary compressBudget with
    | .ok r => some (applyResult s r tasks)
    | .error _ => none
  | .fullFold compressBudget tasks =>
    match executeFullFoldCompaction env s.history compressBudget with
    | .ok r => some (applyResult s r tasks)
    | .error _ => none
  | .lastResort => lastResort env s

/-- Ids and messages stay parallel, one range before the open turn is replaced by a summary, every
other row stays, and those of the open turn are the last ones. -/
structure Protects (s t : Session) : Prop where
  parallel : t.messageIds.length = t.history.length
  replaced : ∃ start stop summary, start ≤ stop ∧ stop ≤ foldEnd s.history ∧
    t.rows = s.rows.take start ++ (0, summary) :: s.rows.drop stop
  openTurn : ∀ protectedFrom, openUserProtectedFrom s.history = some protectedFrom →
    s.rows.drop protectedFrom <:+ t.rows

/-! ## One compaction -/

section

variable {env : CompactionEnv} {s t : Session} {start stop : Nat}

/-- What `apply_compaction` does to the rows. -/
lemma rows_applyCompaction (hids : s.messageIds.length = s.history.length) (summary : ChatMessage)
    (version : Nat) (upToMessage : Int) (tokens : Nat) :
    (s.applyCompaction start stop summary version upToMessage tokens).rows =
      s.rows.take start ++ (0, summary) :: s.rows.drop stop := by
  unfold Session.applyCompaction Session.rows
  dsimp only
  rw [List.zip_append (by simp [hids]), List.zip_cons_cons, List.zip, List.take_zipWith,
    List.drop_zipWith]

/-- **A range before the open turn** can be replaced. -/
lemma protects_applyCompaction (hids : s.messageIds.length = s.history.length)
    (hstart : start ≤ stop) (hstop : stop ≤ foldEnd s.history) (summary : ChatMessage)
    (version : Nat) (upToMessage : Int) (tokens : Nat) :
    Protects s (s.applyCompaction start stop summary version upToMessage tokens) where
  parallel := by simp [Session.applyCompaction, hids]
  replaced := ⟨start, stop, summary, hstart, hstop, rows_applyCompaction hids ..⟩
  openTurn protectedFrom hp := by
    have hfold : foldEnd s.history = protectedFrom := by simp [foldEnd, hp]
    rw [rows_applyCompaction hids, ← List.take_append_drop (protectedFrom - stop) (s.rows.drop stop),
      List.drop_drop, Nat.add_sub_cancel' (hfold ▸ hstop), ← List.cons_append, ← List.append_assoc]
    exact List.suffix_append _ _

lemma protects_applyResult (hids : s.messageIds.length = s.history.length) {r : CompactionResult}
    (hstart : r.compactStart ≤ r.compactEnd) (hstop : r.compactEnd ≤ foldEnd s.history)
    (tasks : Option String) : Protects s (applyResult s r tasks) :=
  protects_applyCompaction hids hstart hstop ..

/-- The range at a boundary ends before the open turn. -/
lemma range_of_executeCompaction {history : List ChatMessage} {boundary : Nat}
    {compressBudget : Option Nat} {r : CompactionResult}
    (h : executeCompaction env history boundary compressBudget = .ok r) :
    r.compactStart ≤ r.compactEnd ∧ r.compactEnd ≤ foldEnd history := by
  obtain ⟨hstart, hend, -, -⟩ := executeCompaction_ok h
  refine ⟨?_, hend ▸ min_le_right _ _⟩
  rw [hstart, hend]
  cases hpos : rposition isSummary (history.take (min boundary (foldEnd history))) with
  | none => simp [findIncrementalRange_none hpos]
  | some idx =>
    rw [findIncrementalRange_some hpos]
    have hlt := rposition_lt hpos
    rw [List.length_take] at hlt
    dsimp only
    omega

lemma range_of_executeFullFoldCompaction {history : List ChatMessage} {compressBudget : Nat}
    {r : CompactionResult} (h : executeFullFoldCompaction env history compressBudget = .ok r) :
    r.compactStart ≤ r.compactEnd ∧ r.compactEnd ≤ foldEnd history := by
  obtain ⟨hstart, hend, -⟩ := executeFullFoldCompaction_ok h
  exact ⟨hstart ▸ Nat.zero_le _, hend.le⟩

lemma lastResort_protects (hids : s.messageIds.length = s.history.length)
    (h : lastResort env s = some t) : Protects s t := by
  unfold lastResort at h
  dsimp only at h
  split_ifs at h
  cases h
  exact protects_applyCompaction hids (Nat.zero_le _) le_rfl ..

end

/-- **Compaction protects the open user turn**, whatever way it takes: the rows from
`open_user_protected_from` on are the last ones of the compacted session, every row outside the
replaced range is kept with its id, and ids and messages stay parallel. -/
theorem compactPath_protects (env : CompactionEnv) (s : Session)
    (hids : s.messageIds.length = s.history.length) (path : CompactionPath) (t : Session)
    (h : compactPath env s path = some t) : Protects s t := by
  cases path with
  | atBoundary boundary compressBudget tasks =>
    unfold compactPath at h
    cases hexec : executeCompaction env s.history boundary compressBudget with
    | error e => simp [hexec] at h
    | ok r =>
      simp only [hexec, Option.some.injEq] at h
      subst h
      obtain ⟨hstart, hstop⟩ := range_of_executeCompaction hexec
      exact protects_applyResult hids hstart hstop tasks
  | fullFold compressBudget tasks =>
    unfold compactPath at h
    cases hexec : executeFullFoldCompaction env s.history compressBudget with
    | error e => simp [hexec] at h
    | ok r =>
      simp only [hexec, Option.some.injEq] at h
      subst h
      obtain ⟨hstart, hstop⟩ := range_of_executeFullFoldCompaction hexec
      exact protects_applyResult hids hstart hstop tasks
  | lastResort => exact lastResort_protects hids h

namespace OpenTurnExample

/-- An environment that folds to a fixed text. -/
def env : CompactionEnv :=
  { doSummarize := fun _ _ => .ok "greetings", hardFoldHistory := fun _ => "folded"
    appendEvidenceIndex := fun summary _ _ _ _ => summary
    estimateMessageTokens := fun m => m.textContent.length, markerForFile := fun path _ => path }

/-- A finished turn, and an open one. -/
def session : Session :=
  { history := [.userText "hello", .assistantText "hi", .userText "and now?"]
    messageIds := [1, 2, 3] }

end OpenTurnExample

open OpenTurnExample in
/-- The finished turn is folded, and the open one stays. -/
theorem compactPath_protects_example :
    Protects session (session.applyCompaction 0 2
      (.userText (compactionMarker ++ " folded")) 1 2
      (env.estimateMessageTokens (.userText (compactionMarker ++ " folded")))) :=
  compactPath_protects env session rfl .lastResort _ (by decide +kernel)

end MyClaw
