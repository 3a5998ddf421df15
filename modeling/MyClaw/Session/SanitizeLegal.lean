import MyClaw.Session.Turns

set_option autoImplicit false

/-!
# When a sanitized history is legal for a provider

Providers want every tool result in the run right after the message that declares its call, every
round closed before the conversation goes on, and user messages that stand apart.  The passes of
`sanitize_history` ask a weaker question on the way: a result is kept when *some* assistant message
declares its call, wherever it stands.  The theorem of this file says for which histories the
passes reach what the providers want.

## Main definitions

* `ProtocolLegal` — what a provider accepts.
* `SanitizeOk` — what a history has to satisfy for that.

## Main results

* `protocolLegal_sanitizeHistory_iff` — the sanitized history is legal exactly when the
  history satisfies `SanitizeOk`.
-/

namespace MyClaw

open Blocks

/-- A tool message that answers a call of the assistant message `head`. -/
def Answers (head m : ChatMessage) : Prop :=
  head.role = "assistant" ∧ ∃ id ∈ head.callIds, m.toolCallId = some id

/-- Every call of an assistant message is answered in the run after it. -/
def Turn.Complete (b : Turn) : Prop := b.head.role = "assistant" → ∀ id ∈ b.head.callIds, id ∈ b.runIds

/-- The rules about rounds and neighbours. -/
structure RoundsLegal (l : List ChatMessage) : Prop where
  /-- No tool message stands in front of the first other message. -/
  noLead : l.takeWhile isTool = []
  /-- A tool message answers a call of the message that its run follows. -/
  results : ∀ b ∈ turns l, ∀ m ∈ b.run, Answers b.head m
  /-- No call is answered twice in a run. -/
  once : ∀ b ∈ turns l, b.runIds.Nodup
  /-- Every round that a later message follows is complete. -/
  answered : (turns l).Pairwise fun b _ => b.Complete
  /-- A user message follows neither a tool message nor a user message. -/
  alternates : l.IsChain fun x y => y.role = "user" → x.role ≠ "tool" ∧ x.role ≠ "user"

/-- A history that a provider accepts, made from `input`. -/
structure ProtocolLegal (input output : List ChatMessage) : Prop where
  rounds : RoundsLegal output
  /-- There is a user message. -/
  user : ∃ m ∈ output, m.role = "user"
  /-- A system message that was first stays first. -/
  systemFirst : ∀ m, input.head? = some m → m.role = "system" → output.head? = some m

/-- What a history has to satisfy so that the passes make it legal. -/
structure SanitizeOk (history : List ChatMessage) : Prop where
  /-- In front of the first other message no tool message answers a declared call. -/
  noLead : ∀ m ∈ history.takeWhile isTool, keepsResult (knownToolIds history) m = false
  /-- A tool message that answers a declared call stands in the run after a message that declares
  it. -/
  results : ∀ b ∈ turns history, ∀ m ∈ b.run,
    keepsResult (knownToolIds history) m = true → Answers b.head m
  /-- No declared call is answered twice in a run. -/
  once : ∀ b ∈ turns history,
    ((b.run.filter (keepsResult (knownToolIds history))).filterMap (·.toolCallId)).Nodup
  /-- The unanswered calls of a message have different ids, unless only tool messages and
  assistant messages with unanswered calls follow it. -/
  closable : (turns history).Pairwise fun b c =>
    unfulfilled (fulfilledIds history) c.head = false → (b.missing.map (·.id)).Nodup
  /-- Two user messages with at most tool messages between them declare no calls. -/
  users : (turns history).IsChain fun b c =>
    b.head.role = "user" → c.head.role = "user" → b.head.calls = [] ∧ c.head.calls = []
  /-- A history that starts with a system message has a user message. -/
  system : ∀ m, history.head? = some m → m.role = "system" → ∃ u ∈ history, u.role = "user"

/-! ## The rules on turns -/

/-- A user message may follow this turn. -/
def Turn.Apart (b c : Turn) : Prop := c.head.role = "user" → b.run = [] ∧ b.head.role ≠ "user"

/-- A user message may follow this turn, or merges with it. -/
def Turn.Joinable (b c : Turn) : Prop :=
  c.head.role = "user" → b.run = [] ∧ (b.head.role = "user" → b.head.calls = [] ∧ c.head.calls = [])

/-- A turn ends with neither a result nor a user message. -/
lemma Turn.role_last (b : Turn) :
    b.last.role ≠ "tool" ∧ b.last.role ≠ "user" ↔ b.run = [] ∧ b.head.role ≠ "user" := by
  rcases List.eq_nil_or_concat b.run with hrun | ⟨r, x, hrun⟩
  · simp [Block.last, hrun, b.role_head]
  · have hx : x.role = "tool" := b.role_run (by simp [hrun])
    simp [Block.last, hrun, hx]

/-- The rules of a list, read off its turns. -/
lemma roundsLegal_iff {lead : List ChatMessage} (hl : ∀ m ∈ lead, isTool m = true)
    (bs : List Turn) :
    RoundsLegal (lead ++ bs.flatMap Block.elems) ↔
      lead = [] ∧ (∀ b ∈ bs, ∀ m ∈ b.run, Answers b.head m) ∧ (∀ b ∈ bs, b.runIds.Nodup) ∧
        (bs.Pairwise fun b _ => b.Complete) ∧ bs.IsChain Turn.Apart := by
  have htake := takeWhile_append hl bs
  have hblocks := blocks_append hl bs
  have hR : ∀ x y : ChatMessage, isTool y = true →
      (y.role = "user" → x.role ≠ "tool" ∧ x.role ≠ "user") := by
    intro x y hy hu
    rw [isTool_eq_true.1 hy] at hu
    exact absurd hu (by decide)
  have hchain : (bs.flatMap Block.elems).IsChain
      (fun x y => y.role = "user" → x.role ≠ "tool" ∧ x.role ≠ "user") ↔
        bs.IsChain Turn.Apart := by
    rw [isChain_flatMap hR]
    simp only [Turn.role_last]
    rfl
  constructor
  · intro h
    have hlead : lead = [] := htake.symm.trans h.noLead
    have halt := h.alternates
    rw [hlead, List.nil_append, hchain] at halt
    exact ⟨hlead, hblocks ▸ h.results, hblocks ▸ h.once, hblocks ▸ h.answered, halt⟩
  · rintro ⟨hlead, hres, honce, hans, halt⟩
    exact
      { noLead := htake.trans hlead
        results := by rwa [turns, hblocks]
        once := by rwa [turns, hblocks]
        answered := by rwa [turns, hblocks]
        alternates := by rwa [hlead, List.nil_append, hchain] }

/-! ## Merging -/

section Merge

variable {b c : Turn}

/-- Messages that are merged have no calls. -/
lemma calls_of_mergeable (h : mergeable b.head c.head = true) :
    b.head.calls = [] ∧ c.head.calls = [] ∧ b.head.role = c.head.role := by
  obtain ⟨hb, hc, hr⟩ := mergeable_iff.1 h
  exact ⟨(canMerge_iff.1 hb).2, (canMerge_iff.1 hc).2, hr⟩

/-- A message without calls has no answer. -/
lemma not_answers_of_calls {head m : ChatMessage} (h : head.calls = []) : ¬ Answers head m := by
  simp [Answers, ChatMessage.callIds, h]

/-- Its turn is complete. -/
lemma complete_of_calls (h : b.head.calls = []) : b.Complete := by
  simp [Turn.Complete, ChatMessage.callIds, h]

/-- Merging keeps which results answer their turns. -/
lemma results_mergeAll (bs : List Turn) :
    (∀ b ∈ mergeAll bs, ∀ m ∈ b.run, Answers b.head m) ↔ ∀ b ∈ bs, ∀ m ∈ b.run, Answers b.head m := by
  refine forall_mergeAll (fun b c hrun hm => ?_) bs
  obtain ⟨hb, hc, -⟩ := calls_of_mergeable hm
  have hj : (b.join c).head.calls = [] := hb
  simp [hrun, not_answers_of_calls hj, not_answers_of_calls hc]

/-- It keeps which are answered once. -/
lemma once_mergeAll (bs : List Turn) :
    (∀ b ∈ mergeAll bs, b.runIds.Nodup) ↔ ∀ b ∈ bs, b.runIds.Nodup := by
  refine forall_mergeAll (fun b c hrun _ => ?_) bs
  simp [Turn.runIds, hrun]

/-- If every turn that another follows is complete, so is it after merging. -/
lemma pairwise_mergeTurns (bs : List Turn) (b : Turn)
    (h : (b :: bs).Pairwise fun b _ => b.Complete) :
    (mergeTurns b bs).Pairwise fun b _ => b.Complete := by
  induction bs generalizing b with
  | nil => simp [mergeTurns]
  | cons c rest ih =>
    rw [List.pairwise_cons] at h
    rw [mergeTurns]
    split_ifs with hm
    · refine ih _ (List.pairwise_cons.2 ⟨fun _ _ => ?_, (List.pairwise_cons.1 h.2).2⟩)
      exact complete_of_calls (calls_of_mergeable hm.2).1
    · exact List.pairwise_cons.2 ⟨fun _ _ => h.1 c List.mem_cons_self, ih c h.2⟩

/-- The same of a whole history. -/
lemma answered_mergeAll {bs : List Turn} (h : bs.Pairwise fun b _ => b.Complete) :
    (mergeAll bs).Pairwise fun b _ => b.Complete := by
  cases bs with
  | nil => exact h
  | cons b rest => exact pairwise_mergeTurns rest b h

/-- For turns that do not merge, `Joinable` is `Apart`. -/
lemma apart_iff_joinable (hm : ¬ (b.run = [] ∧ mergeable b.head c.head = true)) :
    b.Apart c ↔ b.Joinable c := by
  unfold Turn.Apart Turn.Joinable
  refine forall_congr' fun hc => and_congr_right fun hrun => ?_
  refine ⟨fun hb hu => absurd hu hb, fun hcalls hb => hm ⟨hrun, ?_⟩⟩
  obtain ⟨h₁, h₂⟩ := hcalls hb
  rw [mergeable_iff, canMerge_iff, canMerge_iff]
  exact ⟨⟨.inl hb, h₁⟩, ⟨.inl hc, h₂⟩, hb.trans hc.symm⟩

/-- **Merging sets user messages apart** exactly when neighbouring ones can merge. -/
lemma isChain_mergeTurns (bs : List Turn) (b : Turn) :
    (mergeTurns b bs).IsChain Turn.Apart ↔ (b :: bs).IsChain Turn.Joinable := by
  induction bs generalizing b with
  | nil => simp [mergeTurns]
  | cons c rest ih =>
    rw [mergeTurns, List.isChain_cons_cons]
    by_cases hm : b.run = [] ∧ mergeable b.head c.head = true
    · obtain ⟨hb, hc, hr⟩ := calls_of_mergeable hm.2
      have hbc : b.Joinable c := fun _ => ⟨hm.1, fun _ => ⟨hb, hc⟩⟩
      have hjoin : ∀ d, (b.join c).Joinable d ↔ c.Joinable d := by
        intro d
        simp only [Turn.Joinable, Turn.run_join, Turn.role_head_join, Turn.calls_head_join, hb, hc,
          hr]
      rw [if_pos hm, ih, List.isChain_cons, List.isChain_cons]
      simp only [hjoin, hbc, true_and]
    · obtain ⟨y, ys, hy, hrole, -⟩ := head_mergeTurns c rest
      have hby : b.Apart y ↔ b.Apart c := by simp only [Turn.Apart, hrole]
      rw [if_neg hm, ← ih c, ← apart_iff_joinable hm, hy, List.isChain_cons_cons, hby]

/-- Merging sets user messages apart if neighbours can be joined. -/
lemma alternates_mergeAll (bs : List Turn) :
    (mergeAll bs).IsChain Turn.Apart ↔ bs.IsChain Turn.Joinable := by
  cases bs with
  | nil => simp [mergeAll]
  | cons b rest => exact isChain_mergeTurns rest b

end Merge

/-! ## Closing rounds -/

/-- A cancelled result answers its turn. -/
lemma answers_cancelledResult {b : Turn} {tc : ToolCall} (h : tc ∈ b.missing) :
    Answers b.head (cancelledResult tc) := by
  obtain ⟨ha, hc, -⟩ := Turn.mem_missing.1 h
  exact ⟨ha, tc.id, List.mem_map_of_mem hc, rfl⟩

/-- The results of a closed turn answer it if those of the turn do. -/
lemma results_closed (b : Turn) :
    (∀ m ∈ b.closed.run, Answers b.closed.head m) ↔ ∀ m ∈ b.run, Answers b.head m := by
  simp only [Turn.closed, List.forall_mem_append, List.forall_mem_map]
  exact and_iff_left fun tc htc => answers_cancelledResult htc

/-- It is answered once if the turn was and its missing calls have different ids. -/
lemma once_closed (b : Turn) :
    b.closed.runIds.Nodup ↔ b.runIds.Nodup ∧ (b.missing.map (·.id)).Nodup := by
  rw [Turn.runIds_closed, List.nodup_append]
  refine and_congr_right fun _ => and_iff_left ?_
  rintro id hid _ hmiss rfl
  obtain ⟨tc, htc, rfl⟩ := List.mem_map.1 hmiss
  exact (Turn.mem_missing.1 htc).2.2 hid

/-- It is complete. -/
lemma complete_closed (b : Turn) : b.closed.Complete := by
  intro ha id hid
  rw [Turn.runIds_closed, List.mem_append]
  obtain ⟨tc, htc, rfl⟩ := List.mem_map.1 hid
  by_cases hrun : tc.id ∈ b.runIds
  · exact .inl hrun
  · exact .inr (List.mem_map_of_mem (Turn.mem_missing.2 ⟨ha, htc, hrun⟩))

/-- The same of all turns, for the answers. -/
lemma results_closeTurns (bs : List Turn) :
    (∀ b ∈ closeTurns bs, ∀ m ∈ b.run, Answers b.head m) ↔
      ∀ b ∈ bs, ∀ m ∈ b.run, Answers b.head m := by
  rw [forall_closeTurns (by simp [Turn.continuation]) fun b h => (results_closed b).1 h]
  simp only [results_closed]
  exact and_iff_left_of_imp fun h => List.pairwise_of_forall_mem_list fun b hb _ _ => h b hb

/-- The same, for answers that are given once. -/
lemma once_closeTurns (bs : List Turn) :
    (∀ b ∈ closeTurns bs, b.runIds.Nodup) ↔
      (∀ b ∈ bs, b.runIds.Nodup) ∧ bs.Pairwise fun b _ => (b.missing.map (·.id)).Nodup := by
  rw [forall_closeTurns (by simp [Turn.continuation, Turn.runIds]) fun b h => ((once_closed b).1 h).1]
  simp only [once_closed, List.pairwise_and_iff]
  refine and_congr_right fun h => and_iff_right ?_
  exact List.pairwise_of_forall_mem_list fun b hb _ _ => h b hb

/-- Every round that a later message follows is complete after the pass. -/
lemma answered_closeTurns (bs : List Turn) : (closeTurns bs).Pairwise fun b _ => b.Complete := by
  induction bs with
  | nil => simp [closeTurns]
  | cons b bs ih =>
    cases bs with
    | nil => simp [closeTurns]
    | cons c rest =>
      rw [closeTurns, List.pairwise_cons]
      refine ⟨fun _ _ => complete_closed b, ?_⟩
      split_ifs
      · exact List.pairwise_cons.2 ⟨fun _ _ => complete_of_calls rfl, ih⟩
      · exact ih

/-- Two neighbouring user messages declare no calls. -/
def Turn.UsersJoin (b c : Turn) : Prop :=
  b.head.role = "user" → c.head.role = "user" → b.head.calls = [] ∧ c.head.calls = []

/-- A turn whose run answers its own calls has no run when it opens no round. -/
lemma run_eq_nil_of_openRound {b : Turn} (h : ∀ m ∈ b.run, Answers b.head m)
    (ho : b.openRound = none) : b.run = [] := by
  rw [List.eq_nil_iff_forall_not_mem]
  intro m hm
  exact not_answers_of_calls (Turn.openRound_eq_none.1 ho (h m hm).1) (h m hm)

/-- The neighbours of a closed turn. -/
lemma joinable_closed_iff {b c : Turn} (h : ∀ m ∈ b.run, Answers b.head m)
    (hno : ¬ (b.openRound.isSome ∧ c.head.role = "user")) : b.closed.Joinable c ↔ b.UsersJoin c := by
  unfold Turn.Joinable Turn.UsersJoin
  rw [Turn.head_closed, ← imp.swap]
  refine forall_congr' fun hc => and_iff_right ?_
  have ho : b.openRound = none := by simpa [hc] using hno
  simp [Turn.closed, run_eq_nil_of_openRound h ho, Turn.missing, ho]

/-- Closed turns can be joined exactly if those of users can. -/
lemma alternates_closeTurns {bs : List Turn} (h : ∀ b ∈ bs, ∀ m ∈ b.run, Answers b.head m) :
    (closeTurns bs).IsChain Turn.Joinable ↔ bs.IsChain Turn.UsersJoin := by
  induction bs with
  | nil => simp [closeTurns]
  | cons b bs ih =>
    cases bs with
    | nil => simp [closeTurns]
    | cons c rest =>
      have ih := ih fun x hx => h x (List.mem_cons_of_mem _ hx)
      obtain ⟨y, ys, hy, hhead⟩ := head_closeTurns c rest
      rw [closeTurns, List.isChain_cons_cons, ← ih, hy]
      have hjoin : ∀ x : Turn, x.Joinable y ↔ x.Joinable c := by
        intro x
        simp only [Turn.Joinable, hhead]
      by_cases hopen : b.openRound.isSome ∧ c.head.role = "user"
      · have hu : b.UsersJoin c := by
          intro hb
          have ho : b.openRound = none := Turn.openRound_eq_none.2 fun ha => by
            rw [hb] at ha
            exact absurd ha (by decide)
          simp [ho] at hopen
        have hbefore : b.closed.Joinable Turn.continuation := fun hr => absurd hr (by decide)
        have hafter : Turn.continuation.Joinable c :=
          fun _ => ⟨rfl, fun hr => absurd hr (by decide)⟩
        rw [if_pos hopen, List.singleton_append, List.isChain_cons_cons, List.isChain_cons_cons,
          hjoin]
        exact ⟨fun hall => ⟨hu, hall.2.2⟩, fun hall => ⟨hbefore, hafter, hall.2⟩⟩
      · rw [if_neg hopen, List.nil_append, List.isChain_cons_cons, hjoin,
          joinable_closed_iff (h b List.mem_cons_self) hopen]

/-! ## Orphan results and the unanswered tail -/

section Kept

variable (history : List ChatMessage)

/-- The part of a turn that the first pass keeps. -/
def Turn.kept (b : Turn) : Turn := b.filterRun (keepsResult (knownToolIds history))

/-- The history after the first two passes. -/
def keptHistory : List ChatMessage := trimUnfulfilledTail (removeOrphanResults history)

/-- A message that is no result is kept. -/
lemma keepsResult_of_not_tool {known : List String} {m : ChatMessage} (h : isTool m = false) :
    keepsResult known m = true := by
  rw [keepsResult, if_neg (isTool_eq_false.1 h)]

/-- An unfulfilled message is no result. -/
lemma isTool_of_unfulfilled {ids : List String} {m : ChatMessage} (h : unfulfilled ids m = true) :
    isTool m = false := by
  have ha : m.role = "assistant" := by
    simp only [unfulfilled, Bool.and_eq_true, decide_eq_true_eq] at h
    exact h.1.1
  rw [isTool_eq_false, ha]
  decide

/-- The turns after the first two passes: runs without orphan results, and without the turns at the
end whose calls are all unanswered. -/
lemma turns_keptHistory :
    turns (keptHistory history) =
      ((turns history).map (Turn.kept history)).rdropWhile
        (Bare (unfulfilled (fulfilledIds (removeOrphanResults history)))) := by
  rw [keptHistory, trimUnfulfilledTail, turns, blocks_rdropWhile fun _ => isTool_of_unfulfilled,
    removeOrphanResults, blocks_filter fun _ => keepsResult_of_not_tool]
  rfl

/-- The results at the front after the first two passes. -/
lemma takeWhile_keptHistory :
    (keptHistory history).takeWhile isTool =
      (history.takeWhile isTool).filter (keepsResult (knownToolIds history)) := by
  rw [keptHistory, trimUnfulfilledTail, takeWhile_rdropWhile fun _ => isTool_of_unfulfilled,
    removeOrphanResults, takeWhile_filter fun _ => keepsResult_of_not_tool]

/-- The first pass keeps every result of a declared call. -/
lemma mem_fulfilledIds_removeOrphanResults {id : String} (h : Declared history id) :
    id ∈ fulfilledIds (removeOrphanResults history) ↔ id ∈ fulfilledIds history := by
  simp only [mem_fulfilledIds, Answered, removeOrphanResults, List.mem_filter, keepsResult_eq_true,
    mem_knownToolIds]
  constructor
  · rintro ⟨m, ⟨hm, -⟩, ht, hid⟩
    exact ⟨m, hm, ht, hid⟩
  · rintro ⟨m, hm, ht, hid⟩
    exact ⟨m, ⟨hm, fun _ => ⟨id, hid, h⟩⟩, ht, hid⟩

/-- The first pass leaves unfulfilled what was. -/
lemma unfulfilled_removeOrphanResults {m : ChatMessage} (h : m ∈ history) :
    unfulfilled (fulfilledIds (removeOrphanResults history)) m =
      unfulfilled (fulfilledIds history) m := by
  by_cases ha : m.role = "assistant"
  · have hall : (m.calls.all fun tc =>
          !(fulfilledIds (removeOrphanResults history)).contains tc.id) =
        m.calls.all fun tc => !(fulfilledIds history).contains tc.id := by
      rw [Bool.eq_iff_iff, List.all_eq_true, List.all_eq_true]
      refine forall₂_congr fun tc htc => ?_
      have hdecl : Declared history tc.id := ⟨m, h, ha, List.mem_map_of_mem htc⟩
      simp [mem_fulfilledIds_removeOrphanResults history hdecl]
    simp only [unfulfilled, hall]
  · simp [unfulfilled, ha]

/-- The run of a turn answers the same calls of the turn after the first pass. -/
lemma missing_kept {b : Turn} (h : b ∈ turns history) : (b.kept history).missing = b.missing := by
  unfold Turn.missing Turn.openRound ToolRound.openedBy
  by_cases ho : b.head.role = "assistant" ∧ b.head.calls ≠ []
  · have hids : ∀ tc ∈ b.head.calls, (tc.id ∈ (b.kept history).runIds ↔ tc.id ∈ b.runIds) := by
      intro tc htc
      have hdecl : Declared history tc.id :=
        ⟨b.head, head_mem h, ho.1, List.mem_map_of_mem htc⟩
      simp only [Turn.runIds, Turn.kept, Block.run_filterRun, List.mem_filterMap, List.mem_filter,
        keepsResult_eq_true, mem_knownToolIds]
      constructor
      · rintro ⟨m, ⟨hm, -⟩, hid⟩
        exact ⟨m, hm, hid⟩
      · rintro ⟨m, hm, hid⟩
        exact ⟨m, ⟨hm, fun _ => ⟨tc.id, hid, hdecl⟩⟩, hid⟩
    have hhead : (b.kept history).head = b.head := rfl
    simp only [hhead, ho, ne_eq, not_false_eq_true, and_self, if_true, Option.map_some,
      ToolRound.missing]
    refine List.filter_congr fun tc htc => ?_
    simp [hids tc htc]
  · have hhead : (b.kept history).head = b.head := rfl
    simp [hhead, ho]

/-- The passes up to merging reach the rules about rounds exactly when the kept turns satisfy what
the last two passes need. -/
lemma roundsLegal_merged (k : List ChatMessage) :
    RoundsLegal (mergeAdjacentSameRole (closeInterruptedToolRounds k)) ↔
      k.takeWhile isTool = [] ∧ (∀ b ∈ turns k, ∀ m ∈ b.run, Answers b.head m) ∧
        ((∀ b ∈ turns k, b.runIds.Nodup) ∧
          (turns k).Pairwise fun b _ => (b.missing.map (·.id)).Nodup) ∧
        (turns k).IsChain Turn.UsersJoin := by
  have hl : ∀ m ∈ k.takeWhile isTool, isTool m = true := fun _ hm => List.mem_takeWhile_imp hm
  conv_lhs => rw [← takeWhile_append_blocks (p := isTool) k]
  rw [closeInterruptedToolRounds_turns _ hl, mergeAdjacentSameRole_turns _ hl,
    roundsLegal_iff hl, results_mergeAll, once_mergeAll, alternates_mergeAll, results_closeTurns,
    once_closeTurns]
  refine and_congr_right fun _ => and_congr_right fun hres => and_congr_right fun _ => ?_
  rw [alternates_closeTurns hres]
  exact and_iff_right (answered_mergeAll (answered_closeTurns _))

/-- What the last two passes need, read off the turns of the history. -/
lemma kept_iff :
    ((keptHistory history).takeWhile isTool = [] ∧
        (∀ b ∈ turns (keptHistory history), ∀ m ∈ b.run, Answers b.head m) ∧
        ((∀ b ∈ turns (keptHistory history), b.runIds.Nodup) ∧
          (turns (keptHistory history)).Pairwise fun b _ => (b.missing.map (·.id)).Nodup) ∧
        (turns (keptHistory history)).IsChain Turn.UsersJoin) ↔
      (∀ m ∈ history.takeWhile isTool, keepsResult (knownToolIds history) m = false) ∧
        (∀ b ∈ turns history, ∀ m ∈ b.run,
          keepsResult (knownToolIds history) m = true → Answers b.head m) ∧
        ((∀ b ∈ turns history,
            ((b.run.filter (keepsResult (knownToolIds history))).filterMap (·.toolCallId)).Nodup) ∧
          (turns history).Pairwise fun b c =>
            unfulfilled (fulfilledIds history) c.head = false → (b.missing.map (·.id)).Nodup) ∧
        (turns history).IsChain Turn.UsersJoin := by
  have hbare : ∀ b : Turn, Bare (unfulfilled (fulfilledIds (removeOrphanResults history))) b = true →
      b.run = [] ∧ b.head.role = "assistant" := by
    intro b hb
    simp only [Bare, unfulfilled, Bool.and_eq_true, decide_eq_true_eq, List.isEmpty_iff] at hb
    exact ⟨hb.2, hb.1.1.1⟩
  have hresults : (∀ b ∈ turns (keptHistory history), ∀ m ∈ b.run, Answers b.head m) ↔
      ∀ b ∈ turns history, ∀ m ∈ b.run,
        keepsResult (knownToolIds history) m = true → Answers b.head m := by
    rw [turns_keptHistory, forall_mem_rdropWhile fun b hb => by simp [(hbare b hb).1]]
    simp [Turn.kept]
  have honce : (∀ b ∈ turns (keptHistory history), b.runIds.Nodup) ↔ ∀ b ∈ turns history,
      ((b.run.filter (keepsResult (knownToolIds history))).filterMap (·.toolCallId)).Nodup := by
    rw [turns_keptHistory,
      forall_mem_rdropWhile fun b hb => by simp [Turn.runIds, (hbare b hb).1]]
    simp [Turn.kept, Turn.runIds]
  have husers : (turns (keptHistory history)).IsChain Turn.UsersJoin ↔
      (turns history).IsChain Turn.UsersJoin := by
    rw [turns_keptHistory, isChain_rdropWhile, List.isChain_map]
    · rfl
    · intro b c hc _ hu
      rw [(hbare c hc).2] at hu
      exact absurd hu (by decide)
  rw [takeWhile_keptHistory, List.filter_eq_nil_iff, hresults, honce, husers]
  simp only [Bool.not_eq_true]
  refine and_congr_right fun _ => and_congr_right fun hres => and_congr_left fun _ =>
    and_congr_right fun _ => ?_
  -- an assistant message without an answered call has no run, since results stand at their calls
  have hunf : ∀ c ∈ turns history,
      (Bare (unfulfilled (fulfilledIds (removeOrphanResults history))) (c.kept history) = false ↔
        unfulfilled (fulfilledIds history) c.head = false) := by
    intro c hc
    rw [← unfulfilled_removeOrphanResults history (head_mem hc), Bare]
    have hhead : (c.kept history).head = c.head := rfl
    rw [hhead, Bool.and_eq_false_iff, or_iff_left_of_imp]
    intro hrun
    obtain ⟨m, hm⟩ := List.exists_mem_of_ne_nil _ (by simpa using hrun)
    obtain ⟨hm, hkeep⟩ := List.mem_filter.1 hm
    obtain ⟨-, id, hid, hmid⟩ := hres c hc m hm hkeep
    obtain ⟨tc, htc, rfl⟩ := List.mem_map.1 hid
    have hful : tc.id ∈ fulfilledIds (removeOrphanResults history) :=
      mem_fulfilledIds.2 ⟨m, List.mem_filter.2 ⟨run_mem hc hm, hkeep⟩, c.role_run hm, hmid⟩
    simp only [unfulfilled, Bool.and_eq_false_iff, List.all_eq_false]
    exact .inr ⟨tc, htc, by simp [hful]⟩
  rw [turns_keptHistory, pairwise_rdropWhile, List.pairwise_map]
  refine List.Pairwise.iff_of_mem fun {b c} hb hc => ?_
  rw [hunf c hc, missing_kept history hb]

end Kept

/-! ## The user message and the first message -/

/-- What no inserted message is occurs after closing the rounds exactly when it does before. -/
lemma exists_closeRounds {P : ChatMessage → Prop} (hcancel : ∀ tc, ¬P (cancelledResult tc))
    (hplace : ¬P placeholder) (o : Option ToolRound) (l : List ChatMessage) :
    (∃ m ∈ closeRounds o l, P m) ↔ ∃ m ∈ l, P m := by
  induction l generalizing o with
  | nil => simp [closeRounds]
  | cons m l ih =>
    have hclosing : ∀ x ∈ closing o m, ¬P x := by
      cases o with
      | none => simp [closing]
      | some r =>
        simp only [closing, List.mem_append, List.mem_map]
        rintro x (⟨tc, -, rfl⟩ | hx)
        · exact hcancel tc
        · split_ifs at hx
          · rw [List.mem_singleton.1 hx]
            exact hplace
          · cases hx
    rw [closeRounds]
    split_ifs with ht
    · simp [ih]
    · simp only [List.mem_append, List.mem_cons, or_and_right, exists_or, exists_eq_left, ih]
      refine or_iff_right ?_
      rintro ⟨x, hx, hP⟩
      exact hclosing x hx hP

/-- What a merged message is exactly when one of the two is occurs after merging exactly when it does
before. -/
lemma exists_mergeGo {P : ChatMessage → Prop}
    (hjoin : ∀ a b, mergeable a b = true → (P (mergeMessages a b) ↔ P a ∨ P b)) (last : ChatMessage)
    (l : List ChatMessage) : (∃ m ∈ mergeGo last l, P m) ↔ P last ∨ ∃ m ∈ l, P m := by
  induction l generalizing last with
  | nil => simp [mergeGo]
  | cons m l ih =>
    rw [mergeGo]
    split_ifs with hm
    · simp [ih, hjoin last m hm, or_assoc]
    · simp [ih]

/-- What a merge has if one of its messages has it. -/
lemma exists_mergeAdjacentSameRole {P : ChatMessage → Prop}
    (hjoin : ∀ a b, mergeable a b = true → (P (mergeMessages a b) ↔ P a ∨ P b))
    (l : List ChatMessage) : (∃ m ∈ mergeAdjacentSameRole l, P m) ↔ ∃ m ∈ l, P m := by
  cases l with
  | nil => rfl
  | cons m l => simp [mergeAdjacentSameRole, exists_mergeGo hjoin]

/-- No pass before the last adds or removes the only user message. -/
lemma exists_user_merged (history : List ChatMessage) :
    (∃ m ∈ mergeAdjacentSameRole (closeInterruptedToolRounds (keptHistory history)),
      m.role = "user") ↔ ∃ m ∈ history, m.role = "user" := by
  have hjoin : ∀ a b, mergeable a b = true →
      ((mergeMessages a b).role = "user" ↔ a.role = "user" ∨ b.role = "user") := by
    intro a b hm
    have hr : a.role = b.role := (mergeable_iff.1 hm).2.2
    have hj : (mergeMessages a b).role = a.role := rfl
    rw [hj, hr, or_self]
  rw [exists_mergeAdjacentSameRole hjoin, closeInterruptedToolRounds,
    exists_closeRounds (by simp [cancelledResult]) (by simp [placeholder, ChatMessage.assistantText])]
  constructor
  · rintro ⟨m, hm, hu⟩
    exact ⟨m, List.mem_of_mem_filter ((List.rdropWhile_prefix _ _).subset hm), hu⟩
  · rintro ⟨m, hm, hu⟩
    have ht : m.role ≠ "tool" := by
      rw [hu]
      decide
    have hkeep : m ∈ removeOrphanResults history :=
      List.mem_filter.2 ⟨hm, keepsResult_of_not_tool (isTool_eq_false.2 ht)⟩
    have hsplit := List.rdropWhile_append_rtakeWhile
      (p := unfulfilled (fulfilledIds (removeOrphanResults history)))
      (l := removeOrphanResults history)
    rw [← hsplit, List.mem_append] at hkeep
    rcases hkeep with hkeep | hdrop
    · exact ⟨m, hkeep, hu⟩
    · have hunf := List.mem_rtakeWhile_imp hdrop
      simp [unfulfilled, hu] at hunf

/-- A first system message is the first message of every pass before the last. -/
lemma head?_merged {history : List ChatMessage} {m : ChatMessage} (h : history.head? = some m)
    (hs : m.role = "system") :
    (mergeAdjacentSameRole (closeInterruptedToolRounds (keptHistory history))).head? = some m := by
  obtain ⟨rest, rfl⟩ := List.head?_eq_some_iff.1 h
  have ht : m.role ≠ "tool" := by
    rw [hs]
    decide
  have hm : canMerge m = false := by simp [canMerge, hs]
  have hkept : ∃ l, keptHistory (m :: rest) = m :: l := by
    have hremove : removeOrphanResults (m :: rest) =
        m :: rest.filter (keepsResult (knownToolIds (m :: rest))) := by
      rw [removeOrphanResults, List.filter_cons_of_pos]
      exact keepsResult_of_not_tool (isTool_eq_false.2 ht)
    have hunf : unfulfilled (fulfilledIds (removeOrphanResults (m :: rest))) m = false := by
      simp [unfulfilled, hs]
    have hne : keptHistory (m :: rest) ≠ [] := by
      intro hnil
      rw [keptHistory, trimUnfulfilledTail, List.rdropWhile_eq_nil_iff] at hnil
      have hall := hnil m (by simp [hremove])
      rw [hunf] at hall
      exact absurd hall (by decide)
    have hprefix : keptHistory (m :: rest) <+: removeOrphanResults (m :: rest) :=
      List.rdropWhile_prefix _ _
    obtain ⟨x, l, hl⟩ := List.exists_cons_of_ne_nil hne
    rw [hl, hremove] at hprefix
    exact ⟨l, by rw [hl, (List.cons_prefix_cons.1 hprefix).1]⟩
  obtain ⟨l, hl⟩ := hkept
  rw [hl, closeInterruptedToolRounds, closeRounds, if_neg ht]
  simp only [closing, List.nil_append, mergeAdjacentSameRole]
  cases closeRounds (ToolRound.openedBy m) l with
  | nil => rfl
  | cons x xs =>
    have hno : ¬ mergeable m x = true := by simp [mergeable_iff, hm]
    rw [mergeGo, if_neg hno]
    rfl

/-! ## The recovery message -/

/-- There is a user message in the end. -/
lemma exists_user_ensureAtLeastOneUser (l : List ChatMessage) :
    ∃ m ∈ ensureAtLeastOneUser l, m.role = "user" := by
  unfold ensureAtLeastOneUser
  split_ifs with hu hnil
  · simpa using hu
  · exact ⟨recoveryEmpty, List.mem_singleton.2 rfl, rfl⟩
  · exact ⟨recoveryPrefix, List.mem_cons_self, rfl⟩

/-- A user message in front neither makes nor mends a violation of the rules about rounds. -/
lemma roundsLegal_cons {u : ChatMessage} {l : List ChatMessage} (hu : u.role = "user")
    (hno : ∀ m ∈ l, m.role ≠ "user") : RoundsLegal (u :: l) ↔ RoundsLegal l := by
  have ht : isTool u = false := by simp [isTool, hu]
  have ha : ∀ m, ¬ Answers u m := fun m h => by
    rw [Answers, hu] at h
    exact absurd h.1 (by decide)
  have hl : ∀ m ∈ l.takeWhile isTool, isTool m = true := fun _ hm => List.mem_takeWhile_imp hm
  let b : Turn := { head := u, run := l.takeWhile isTool, head_not := ht, run_all := hl }
  have hcons : u :: l = [] ++ (b :: turns l).flatMap Block.elems := by
    rw [List.nil_append, List.flatMap_cons, Block.elems, List.cons_append,
      takeWhile_append_blocks]
  have hsplit := takeWhile_append_blocks (p := isTool) l
  have hb : b.Complete := fun h => by
    rw [show b.head.role = "user" from hu] at h
    exact absurd h (by decide)
  have hapart : (b :: turns l).IsChain Turn.Apart ↔ (turns l).IsChain Turn.Apart := by
    rw [List.isChain_cons]
    refine and_iff_right fun y hy hyu => ?_
    exact absurd hyu (hno _ (head_mem (List.mem_of_mem_head? hy)))
  conv_rhs => rw [← hsplit]
  rw [hcons, roundsLegal_iff (by simp), roundsLegal_iff hl, hapart, List.pairwise_cons]
  simp only [List.forall_mem_cons, hb, implies_true, true_and]
  have hbrun : (∀ m ∈ b.run, Answers b.head m) ↔ l.takeWhile isTool = [] := by
    rw [List.eq_nil_iff_forall_not_mem]
    exact forall₂_congr fun m _ => iff_false_intro (ha m)
  rw [hbrun, and_assoc]
  refine and_congr_right fun hlead => and_congr_right fun _ => and_congr_left fun _ => ?_
  refine and_iff_right ?_
  simp [Turn.runIds, b, hlead]

/-- That message touches no round. -/
lemma roundsLegal_ensureAtLeastOneUser (l : List ChatMessage) :
    RoundsLegal (ensureAtLeastOneUser l) ↔ RoundsLegal l := by
  unfold ensureAtLeastOneUser
  split_ifs with hu hnil
  · rfl
  · rw [hnil]
    exact roundsLegal_cons rfl (by simp)
  · refine roundsLegal_cons rfl fun m hm hmu => hu ?_
    rw [List.any_eq_true]
    exact ⟨m, hm, by simpa using hmu⟩

/-- The last pass keeps a first system message exactly when there is a user message. -/
lemma head?_ensureAtLeastOneUser {l : List ChatMessage} {m : ChatMessage} (h : l.head? = some m)
    (hs : m.role = "system") :
    (ensureAtLeastOneUser l).head? = some m ↔ ∃ u ∈ l, u.role = "user" := by
  unfold ensureAtLeastOneUser
  split_ifs with hu hnil
  · simpa [h] using hu
  · simp [hnil] at h
  · have hno : ¬ ∃ u ∈ l, u.role = "user" := by simpa using hu
    simp only [hno, iff_false, List.head?_cons, Option.some.injEq]
    rintro rfl
    exact absurd hs (by decide)

/-! ## The theorem -/

/-- **When `sanitize_history` makes a history legal**: results of declared calls stand in the run
after their call and only once, the unanswered calls of a closed round have different ids,
neighbouring user messages declare no calls, and a first system message is not alone with messages
of the assistant. -/
theorem protocolLegal_sanitizeHistory_iff (history : List ChatMessage) :
    ProtocolLegal history (sanitizeHistory history) ↔ SanitizeOk history := by
  have hrounds : RoundsLegal (sanitizeHistory history) ↔ _ :=
    (roundsLegal_ensureAtLeastOneUser _).trans
      ((roundsLegal_merged (keptHistory history)).trans (kept_iff history))
  have hsystem : ∀ m, history.head? = some m → m.role = "system" →
      ((sanitizeHistory history).head? = some m ↔ ∃ u ∈ history, u.role = "user") := by
    intro m hm hs
    rw [← exists_user_merged history]
    exact head?_ensureAtLeastOneUser (head?_merged hm hs) hs
  constructor
  · intro h
    obtain ⟨hlead, hres, ⟨honce, hclose⟩, husers⟩ := hrounds.1 h.rounds
    exact
      { noLead := hlead
        results := hres
        once := honce
        closable := hclose
        users := husers
        system := fun m hm hs => (hsystem m hm hs).1 (h.systemFirst m hm hs) }
  · intro h
    exact
      { rounds := hrounds.2 ⟨h.noLead, h.results, ⟨h.once, h.closable⟩, h.users⟩
        user := exists_user_ensureAtLeastOneUser _
        systemFirst := fun m hm hs => (hsystem m hm hs).2 (h.system m hm hs) }

/-- A call that is answered only after the next user message. -/
def lateResult : List ChatMessage :=
  [ ChatMessage.userText "start",
    { ChatMessage.assistantText "" with
      toolCalls := some [{ id := "y", name := "shell", arguments := "" }] },
    ChatMessage.userText "more",
    toolResult "y" (some "shell") "done" false ]

/-- The late result is declared, so it is kept, and it is not adjacent, so its call is cancelled:
the sanitized history has a tool message after a user message. -/
theorem not_protocolLegal_lateResult :
    ¬ ∀ history, ProtocolLegal history (sanitizeHistory history) := by
  intro h
  have hstray : ∃ b ∈ turns (sanitizeHistory lateResult), ∃ m ∈ b.run,
      b.head.role ≠ "assistant" := by decide
  obtain ⟨b, hb, m, hm, hrole⟩ := hstray
  exact hrole ((h lateResult).rounds.results b hb m hm).1

end MyClaw
