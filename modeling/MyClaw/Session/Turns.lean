import MyClaw.Lib.Blocks
import MyClaw.Session.Sanitize

set_option autoImplicit false

/-!
# The sanitizing passes, turn by turn

A turn is a message that is not a tool message with the run of tool messages right after it.  The
passes of `sanitize_history` that insert and merge messages act on turns: closing a round extends
the run of its turn and may put a turn behind it, and merging joins a turn without a run with the
next one.

## Main definitions

* `Turn` — a message and the run of tool messages after it.
* `closeTurns`, `mergeTurns` — the two passes on turns.

## Main results

* `closeInterruptedToolRounds_turns`, `mergeAdjacentSameRole_turns` — the passes on
  the list are the passes on its turns.
* `forall_closeTurns`, `forall_mergeAll` — what every turn of the result satisfies.
-/

namespace MyClaw

open Blocks

/-- A tool message. -/
def isTool (m : ChatMessage) : Bool := decide (m.role = "tool")

@[simp] lemma isTool_eq_true {m : ChatMessage} : isTool m = true ↔ m.role = "tool" := by
  simp [isTool]

@[simp] lemma isTool_eq_false {m : ChatMessage} : isTool m = false ↔ m.role ≠ "tool" := by
  simp [isTool]

/-- A message that is not a tool message, with the tool messages right after it. -/
abbrev Turn := Block isTool

/-- The turns of a history. -/
abbrev turns (l : List ChatMessage) : List Turn := blocks isTool l

namespace Turn

/-- The head of a turn is no result. -/
lemma role_head (b : Turn) : b.head.role ≠ "tool" := isTool_eq_false.1 b.head_not

/-- What follows it is. -/
lemma role_run (b : Turn) {m : ChatMessage} (h : m ∈ b.run) : m.role = "tool" :=
  isTool_eq_true.1 (b.run_all m h)

/-- The ids that the run of a turn answers. -/
def runIds (b : Turn) : List String := b.run.filterMap (·.toolCallId)

/-- The round that a turn opens, with the ids that its run answers. -/
def openRound (b : Turn) : Option ToolRound :=
  (ToolRound.openedBy b.head).map fun r => { r with fulfilled := b.runIds }

/-- The calls that the run of a turn does not answer. -/
def missing (b : Turn) : List ToolCall :=
  match b.openRound with
  | none => []
  | some r => r.missing

/-- A turn whose head is no reply with calls opens no round. -/
lemma openRound_eq_none {b : Turn} :
    b.openRound = none ↔ (b.head.role = "assistant" → b.head.calls = []) := by
  unfold openRound ToolRound.openedBy
  split_ifs with h
  · simp [h]
  · simpa [not_and_or, imp_iff_not_or] using h

/-- The calls of a turn that have no result. -/
lemma mem_missing {b : Turn} {tc : ToolCall} :
    tc ∈ b.missing ↔ b.head.role = "assistant" ∧ tc ∈ b.head.calls ∧ tc.id ∉ b.runIds := by
  unfold missing openRound ToolRound.openedBy
  by_cases h : b.head.role = "assistant" ∧ b.head.calls ≠ []
  · simp [h, ToolRound.missing]
  · simp only [h, if_false, Option.map_none, List.not_mem_nil, false_iff]
    rintro ⟨ha, htc, -⟩
    exact h ⟨ha, List.ne_nil_of_mem htc⟩

/-- The turn with a cancelled result for each unanswered call. -/
def closed (b : Turn) : Turn :=
  { b with
    run := b.run ++ b.missing.map cancelledResult
    run_all := by
      intro m hm
      rcases List.mem_append.1 hm with hm | hm
      · exact b.run_all m hm
      · obtain ⟨tc, -, rfl⟩ := List.mem_map.1 hm
        rfl }

@[simp] lemma head_closed (b : Turn) : b.closed.head = b.head := rfl

/-- The ids of the results of a closed turn. -/
lemma runIds_closed (b : Turn) : b.closed.runIds = b.runIds ++ b.missing.map (·.id) := by
  have h : (b.missing.map cancelledResult).filterMap (·.toolCallId) = b.missing.map (·.id) := by
    simp [List.filterMap_map, Function.comp_def, cancelledResult]
  simp only [runIds, closed, List.filterMap_append, h]

/-- The turn that the placeholder makes. -/
def continuation : Turn :=
  { head := placeholder, run := [], head_not := rfl, run_all := by simp }

/-- Two neighbouring turns, the first without a run, whose heads become one message. -/
def join (b c : Turn) : Turn :=
  { head := mergeMessages b.head c.head
    run := c.run
    head_not := b.head_not
    run_all := c.run_all }

@[simp] lemma role_head_join (b c : Turn) : (b.join c).head.role = b.head.role := rfl

@[simp] lemma calls_head_join (b c : Turn) : (b.join c).head.calls = b.head.calls := rfl

@[simp] lemma run_join (b c : Turn) : (b.join c).run = c.run := rfl

end Turn

/-! ## Closing rounds -/

/-- Step 5 on turns: every turn but the last is closed, and a placeholder stands between a round
and a user message. -/
def closeTurns : List Turn → List Turn
  | [] => []
  | [b] => [b]
  | b :: c :: rest =>
    b.closed ::
      ((if b.openRound.isSome ∧ c.head.role = "user" then [Turn.continuation] else []) ++
        closeTurns (c :: rest))

/-- Results are passed on, and count for the round. -/
lemma closeRounds_run (o : Option ToolRound) (run rest : List ChatMessage)
    (h : ∀ m ∈ run, isTool m = true) :
    closeRounds o (run ++ rest) =
      run ++ closeRounds (o.map fun r =>
        { r with fulfilled := r.fulfilled ++ run.filterMap (·.toolCallId) }) rest := by
  induction run generalizing o with
  | nil => cases o <;> simp
  | cons m run ih =>
    have hm : m.role = "tool" := isTool_eq_true.1 (h m List.mem_cons_self)
    rw [List.cons_append, closeRounds, if_pos hm, ih _ fun x hx => h x (.tail _ hx),
      Option.map_map, List.cons_append]
    congr 3
    cases o <;> cases hid : m.toolCallId <;> simp [ToolRound.answer, hid]

/-- What is put in before the next message. -/
lemma closing_openRound (b : Turn) (next : ChatMessage) :
    closing b.openRound next = b.missing.map cancelledResult ++
      (if b.openRound.isSome ∧ next.role = "user" then [Turn.continuation] else []).flatMap
        Block.elems := by
  cases ho : b.openRound with
  | none => simp [closing, Turn.missing, ho]
  | some r =>
    by_cases hu : next.role = "user" <;>
      simp [closing, Turn.missing, ho, hu, Turn.continuation, Block.elems]

/-- The pass on a list of turns, inside of which the round `o` is still open. -/
lemma closeRounds_turns (o : Option ToolRound) (bs : List Turn) :
    closeRounds o (bs.flatMap Block.elems) =
      (bs.head?.elim [] fun b => closing o b.head) ++ (closeTurns bs).flatMap Block.elems := by
  induction bs generalizing o with
  | nil => rfl
  | cons b bs ih =>
    have hopen : ((ToolRound.openedBy b.head).map fun r =>
        { r with fulfilled := r.fulfilled ++ b.run.filterMap (·.toolCallId) }) = b.openRound := by
      unfold Turn.openRound ToolRound.openedBy
      split_ifs <;> simp [Turn.runIds]
    have hb : closeRounds o ((b :: bs).flatMap Block.elems) =
        closing o b.head ++ b.head :: (b.run ++ closeRounds b.openRound (bs.flatMap Block.elems)) := by
      rw [List.flatMap_cons, Block.elems, List.cons_append, closeRounds, if_neg b.role_head,
        closeRounds_run _ _ _ b.run_all, hopen]
    rw [hb, ih]
    cases bs with
    | nil => simp [closeTurns, Block.elems]
    | cons c rest =>
      simp only [List.head?_cons, Option.elim_some, closing_openRound, closeTurns,
        List.flatMap_cons, List.flatMap_append]
      simp [Block.elems, Turn.closed]

/-- **Step 5 acts on the turns of a history.** -/
theorem closeInterruptedToolRounds_turns (lead : List ChatMessage)
    (hl : ∀ m ∈ lead, isTool m = true) (bs : List Turn) :
    closeInterruptedToolRounds (lead ++ bs.flatMap Block.elems) =
      lead ++ (closeTurns bs).flatMap Block.elems := by
  rw [closeInterruptedToolRounds, closeRounds_run _ _ _ hl, Option.map_none, closeRounds_turns]
  cases bs <;> simp [closing]

/-- What every turn satisfies after the pass. -/
lemma forall_closeTurns {Q : Turn → Prop} (hcont : Q Turn.continuation)
    (hclosed : ∀ b, Q b.closed → Q b) (bs : List Turn) :
    (∀ b ∈ closeTurns bs, Q b) ↔ (∀ b ∈ bs, Q b) ∧ bs.Pairwise fun b _ => Q b.closed := by
  induction bs with
  | nil => simp [closeTurns]
  | cons b bs ih =>
    cases bs with
    | nil => simp [closeTurns]
    | cons c rest =>
      have hmid : ∀ x ∈ (if b.openRound.isSome ∧ c.head.role = "user" then [Turn.continuation]
          else []), Q x := by
        split_ifs <;> simp [hcont]
      simp only [closeTurns, List.forall_mem_cons, List.forall_mem_append] at ih ⊢
      rw [ih, List.pairwise_cons (a := b)]
      constructor
      · rintro ⟨hb, -, hall, hpair⟩
        exact ⟨⟨hclosed b hb, hall⟩, fun _ _ => hb, hpair⟩
      · rintro ⟨⟨-, hall⟩, hb, hpair⟩
        exact ⟨hb c List.mem_cons_self, hmid, hall, hpair⟩

/-- The first turn of the result has the first head. -/
lemma head_closeTurns (c : Turn) (rest : List Turn) :
    ∃ y ys, closeTurns (c :: rest) = y :: ys ∧ y.head = c.head := by
  cases rest with
  | nil => exact ⟨c, [], rfl, rfl⟩
  | cons d rest => exact ⟨c.closed, _, rfl, rfl⟩

/-! ## Merging -/

/-- The turns after `b`, the last turn written. -/
def mergeTurns : Turn → List Turn → List Turn
  | b, [] => [b]
  | b, c :: rest =>
    if b.run = [] ∧ mergeable b.head c.head then mergeTurns (b.join c) rest
    else b :: mergeTurns c rest

/-- Step 6 on turns. -/
def mergeAll : List Turn → List Turn
  | [] => []
  | b :: rest => mergeTurns b rest

/-- Two messages are merged if both can be and they have one role. -/
lemma mergeable_iff {last msg : ChatMessage} :
    mergeable last msg = true ↔
      canMerge last = true ∧ canMerge msg = true ∧ last.role = msg.role := by
  simp only [mergeable, Bool.and_eq_true, decide_eq_true_eq]
  tauto

/-- What can be merged. -/
lemma canMerge_iff {m : ChatMessage} :
    canMerge m = true ↔ (m.role = "user" ∨ m.role = "assistant") ∧ m.calls = [] := by
  simp [canMerge, List.isEmpty_iff]

/-- A result is never merged. -/
lemma canMerge_eq_false_of_tool {m : ChatMessage} (h : m.role = "tool") : canMerge m = false := by
  simp [canMerge, h]

/-- A tool message is written as it is. -/
lemma mergeGo_tool {t : ChatMessage} (ht : t.role = "tool") (l : List ChatMessage) :
    mergeGo t l = t :: mergeAdjacentSameRole l := by
  cases l with
  | nil => rfl
  | cons m l =>
    have hno : ¬ mergeable t m = true := by simp [mergeable_iff, canMerge_eq_false_of_tool ht]
    rw [mergeGo, if_neg hno, mergeAdjacentSameRole]

/-- The results in front are passed on. -/
lemma mergeAdjacentSameRole_run (run rest : List ChatMessage)
    (h : ∀ m ∈ run, isTool m = true) :
    mergeAdjacentSameRole (run ++ rest) = run ++ mergeAdjacentSameRole rest := by
  induction run with
  | nil => rfl
  | cons t run ih =>
    have ht : t.role = "tool" := isTool_eq_true.1 (h t List.mem_cons_self)
    rw [List.cons_append, mergeAdjacentSameRole, mergeGo_tool ht, List.cons_append,
      ih fun x hx => h x (.tail _ hx)]

/-- A message in front of a non-empty run is written as it is. -/
lemma mergeGo_run {m : ChatMessage} {run : List ChatMessage} (h : ∀ t ∈ run, isTool t = true)
    (hne : run ≠ []) (rest : List ChatMessage) :
    mergeGo m (run ++ rest) = m :: (run ++ mergeAdjacentSameRole rest) := by
  cases run with
  | nil => exact absurd rfl hne
  | cons t run =>
    have ht : t.role = "tool" := isTool_eq_true.1 (h t List.mem_cons_self)
    have hno : ¬ mergeable m t = true := by simp [mergeable_iff, canMerge_eq_false_of_tool ht]
    rw [← mergeAdjacentSameRole_run _ _ h, List.cons_append, mergeGo, if_neg hno,
      mergeAdjacentSameRole]

/-- Merging messages merges their turns. -/
lemma mergeGo_turns (b : Turn) (bs : List Turn) :
    mergeGo b.head (b.run ++ bs.flatMap Block.elems) =
      (mergeTurns b bs).flatMap Block.elems := by
  induction bs generalizing b with
  | nil =>
    by_cases hrun : b.run = []
    · simp [mergeTurns, mergeGo, hrun, Block.elems]
    · rw [mergeGo_run b.run_all hrun]
      simp [mergeTurns, mergeAdjacentSameRole, Block.elems]
  | cons c rest ih =>
    by_cases hrun : b.run = []
    · rw [hrun, List.nil_append, List.flatMap_cons, Block.elems, List.cons_append, mergeGo,
        mergeTurns]
      by_cases hm : mergeable b.head c.head = true
      · rw [if_pos hm, if_pos ⟨hrun, hm⟩]
        exact ih (b.join c)
      · rw [if_neg hm, if_neg fun h => hm h.2, List.flatMap_cons, ← ih c, Block.elems, hrun]
        rfl
    · have hrest : mergeAdjacentSameRole ((c :: rest).flatMap Block.elems) =
          (mergeTurns c rest).flatMap Block.elems := ih c
      rw [mergeGo_run b.run_all hrun, mergeTurns, if_neg fun h => hrun h.1, hrest]
      rfl

/-- **Step 6 acts on the turns of a history.** -/
theorem mergeAdjacentSameRole_turns (lead : List ChatMessage)
    (hl : ∀ m ∈ lead, isTool m = true) (bs : List Turn) :
    mergeAdjacentSameRole (lead ++ bs.flatMap Block.elems) =
      lead ++ (mergeAll bs).flatMap Block.elems := by
  rw [mergeAdjacentSameRole_run _ _ hl]
  cases bs with
  | nil => rfl
  | cons b rest => rw [mergeAll, ← mergeGo_turns]; rfl

/-- What every turn satisfies after merging, for a property of a joined turn that is the property
of both its parts. -/
lemma forall_mergeAll {Q : Turn → Prop}
    (hjoin : ∀ b c : Turn, b.run = [] → mergeable b.head c.head = true →
      (Q (b.join c) ↔ Q b ∧ Q c)) (bs : List Turn) :
    (∀ b ∈ mergeAll bs, Q b) ↔ ∀ b ∈ bs, Q b := by
  have hgo : ∀ (bs : List Turn) (b : Turn),
      (∀ x ∈ mergeTurns b bs, Q x) ↔ Q b ∧ ∀ x ∈ bs, Q x := by
    intro bs
    induction bs with
    | nil => simp [mergeTurns]
    | cons c rest ih =>
      intro b
      rw [mergeTurns, List.forall_mem_cons]
      by_cases hm : b.run = [] ∧ mergeable b.head c.head = true
      · rw [if_pos hm, ih, hjoin b c hm.1 hm.2, and_assoc]
      · rw [if_neg hm, List.forall_mem_cons, ih]
  cases bs with
  | nil => rfl
  | cons b rest => rw [mergeAll, hgo, List.forall_mem_cons]

/-- The first turn of the result has the first role and the first calls. -/
lemma head_mergeTurns (b : Turn) (bs : List Turn) :
    ∃ y ys, mergeTurns b bs = y :: ys ∧ y.head.role = b.head.role ∧ y.head.calls = b.head.calls := by
  induction bs generalizing b with
  | nil => exact ⟨b, [], rfl, rfl, rfl⟩
  | cons c rest ih =>
    rw [mergeTurns]
    split_ifs with hm
    · exact ih (b.join c)
    · exact ⟨b, _, rfl, rfl, rfl⟩

end MyClaw
