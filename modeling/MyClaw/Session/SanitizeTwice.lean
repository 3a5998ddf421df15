import MyClaw.Session.SanitizeLegal

set_option autoImplicit false

/-!
# Sanitizing a sanitized history

`sanitize_history` (`agents/session/session_override.rs`) is a pipeline of passes, each of which
changes a history in its own way.  This file says which histories no pass changes, and that the
pipeline makes such a history of every history.

## Main definitions

* `Sanitized` — a history that no pass changes.

## Main results

* `Sanitized.eq_self` — the passes leave such a history as it is.
* `sanitized_sanitizeHistory` — the passes give such a history.
* `sanitizeHistory_idem` — sanitizing twice is sanitizing once.
-/

namespace MyClaw

open Blocks

/-- The round of a turn is closed, and set apart from a user message after it. -/
def Turn.Settled (b c : Turn) : Prop := b.missing = [] ∧ ¬(b.openRound.isSome ∧ c.head.role = "user")

/-- Two turns whose heads do not become one message. -/
def Turn.Unmergeable (b c : Turn) : Prop := ¬(b.run = [] ∧ mergeable b.head c.head = true)

/-- A history that no pass changes. -/
structure Sanitized (history : List ChatMessage) : Prop where
  results : NoOrphanResult history
  tail : ∀ m, history.getLast? = some m → unfulfilled (fulfilledIds history) m = false
  rounds : (turns history).IsChain Turn.Settled
  apart : (turns history).IsChain Turn.Unmergeable
  user : ∃ m ∈ history, m.role = "user"

/-! ## What the passes leave as it is -/

/-- A turn that misses nothing is closed already. -/
lemma Turn.closed_eq_self {b : Turn} (h : b.missing = []) : b.closed = b := by
  ext1
  · rfl
  · show b.run ++ b.missing.map cancelledResult = b.run
    rw [h, List.map_nil, List.append_nil]

/-- Turns that are settled are left. -/
lemma closeTurns_eq_self {bs : List Turn} (h : bs.IsChain Turn.Settled) : closeTurns bs = bs := by
  induction bs with
  | nil => rfl
  | cons b bs ih =>
    cases bs with
    | nil => rfl
    | cons c rest =>
      obtain ⟨⟨hmissing, hopen⟩, hrest⟩ := List.isChain_cons_cons.1 h
      rw [closeTurns, if_neg hopen, List.nil_append, ih hrest, Turn.closed_eq_self hmissing]

/-- Turns that do not merge are left. -/
lemma mergeTurns_eq_self {b : Turn} {bs : List Turn} (h : (b :: bs).IsChain Turn.Unmergeable) :
    mergeTurns b bs = b :: bs := by
  induction bs generalizing b with
  | nil => rfl
  | cons c rest ih =>
    obtain ⟨hapart, hrest⟩ := List.isChain_cons_cons.1 h
    rw [mergeTurns, if_neg hapart, ih hrest]

/-- The same of a whole history. -/
lemma mergeAll_eq_self {bs : List Turn} (h : bs.IsChain Turn.Unmergeable) : mergeAll bs = bs := by
  cases bs with
  | nil => rfl
  | cons b rest => exact mergeTurns_eq_self h

/-- **The passes leave a sanitized history as it is**. -/
theorem Sanitized.eq_self {history : List ChatMessage} (h : Sanitized history) :
    sanitizeHistory history = history := by
  have hremove : removeOrphanResults history = history := removeOrphanResults_eq_self.2 h.results
  have htrim : trimUnfulfilledTail history = history := by
    rw [trimUnfulfilledTail, List.rdropWhile_eq_self_iff]
    intro hne
    rw [h.tail _ (List.getLast?_eq_getLast_of_ne_nil hne)]
    exact Bool.false_ne_true
  have hl : ∀ m ∈ history.takeWhile isTool, isTool m = true := fun _ hm => List.mem_takeWhile_imp hm
  have hsplit := takeWhile_append_blocks (p := isTool) history
  have hclose : closeInterruptedToolRounds history = history := by
    have hturns := closeInterruptedToolRounds_turns _ hl (turns history)
    rwa [closeTurns_eq_self h.rounds, hsplit] at hturns
  have hmerge : mergeAdjacentSameRole history = history := by
    have hturns := mergeAdjacentSameRole_turns _ hl (turns history)
    rwa [mergeAll_eq_self h.apart, hsplit] at hturns
  have huser : (history.any fun m => m.role = "user") = true := by
    obtain ⟨m, hm, hu⟩ := h.user
    rw [List.any_eq_true]
    exact ⟨m, hm, by simpa using hu⟩
  rw [sanitizeHistory, hremove, htrim, hclose, hmerge, ensureAtLeastOneUser, if_pos huser]

/-! ## The turns of the result -/

/-- A closed turn misses nothing. -/
lemma Turn.missing_closed (b : Turn) : b.closed.missing = [] := by
  rw [List.eq_nil_iff_forall_not_mem]
  intro tc htc
  obtain ⟨ha, hcall, hnot⟩ := Turn.mem_missing.1 htc
  exact hnot (complete_closed b ha tc.id (List.mem_map_of_mem hcall))

/-- A round is opened by a reply with calls. -/
lemma Turn.openRound_isSome {b : Turn} :
    b.openRound.isSome = true ↔ b.head.role = "assistant" ∧ b.head.calls ≠ [] := by
  rw [Option.isSome_iff_ne_none, Ne, Turn.openRound_eq_none, Classical.not_imp]

/-- A turn whose head has no calls is settled. -/
lemma Turn.settled_of_calls {b : Turn} (h : b.head.calls = []) (c : Turn) : b.Settled c := by
  refine ⟨?_, fun hopen => (Turn.openRound_isSome.1 hopen.1).2 h⟩
  rw [List.eq_nil_iff_forall_not_mem]
  intro tc htc
  have hcall := (Turn.mem_missing.1 htc).2.1
  rw [h] at hcall
  cases hcall

/-- Closed turns are settled. -/
lemma settled_closeTurns (bs : List Turn) : (closeTurns bs).IsChain Turn.Settled := by
  induction bs with
  | nil => exact List.isChain_nil
  | cons b bs ih =>
    cases bs with
    | nil => exact List.isChain_singleton b
    | cons c rest =>
      obtain ⟨y, ys, hy, hhead⟩ := head_closeTurns c rest
      rw [closeTurns]
      by_cases hopen : b.openRound.isSome ∧ c.head.role = "user"
      · rw [if_pos hopen, List.singleton_append, List.isChain_cons_cons]
        have hrole : Turn.continuation.head.role ≠ "user" := by decide
        refine ⟨⟨b.missing_closed, fun hu => hrole hu.2⟩, ?_⟩
        rw [hy] at ih ⊢
        exact List.isChain_cons_cons.2 ⟨Turn.settled_of_calls rfl y, ih⟩
      · rw [if_neg hopen, List.nil_append]
        rw [hy] at ih ⊢
        refine List.isChain_cons_cons.2 ⟨⟨b.missing_closed, fun hu => hopen ⟨?_, hhead ▸ hu.2⟩⟩, ih⟩
        have hround := Turn.openRound_isSome.1 hu.1
        rw [Turn.head_closed] at hround
        exact Turn.openRound_isSome.2 hround

/-- Merging keeps the turns settled. -/
lemma settled_mergeTurns {b : Turn} {bs : List Turn} (h : (b :: bs).IsChain Turn.Settled) :
    (mergeTurns b bs).IsChain Turn.Settled := by
  induction bs generalizing b with
  | nil => exact List.isChain_singleton b
  | cons c rest ih =>
    obtain ⟨hb, hrest⟩ := List.isChain_cons_cons.1 h
    rw [mergeTurns]
    split_ifs with hm
    · refine ih ?_
      have hcalls : (b.join c).head.calls = [] := (calls_of_mergeable hm.2).1
      exact List.isChain_cons.2 ⟨fun d _ => Turn.settled_of_calls hcalls d,
        (List.isChain_cons.1 hrest).2⟩
    · obtain ⟨y, ys, hy, hrole, -⟩ := head_mergeTurns c rest
      have ih := ih hrest
      rw [hy] at ih ⊢
      exact List.isChain_cons_cons.2 ⟨⟨hb.1, hrole ▸ hb.2⟩, ih⟩

/-- Merged turns do not merge again. -/
lemma unmergeable_mergeTurns (b : Turn) (bs : List Turn) :
    (mergeTurns b bs).IsChain Turn.Unmergeable := by
  induction bs generalizing b with
  | nil => exact List.isChain_singleton b
  | cons c rest ih =>
    rw [mergeTurns]
    split_ifs with hm
    · exact ih (b.join c)
    · obtain ⟨y, ys, hy, hrole, hcalls⟩ := head_mergeTurns c rest
      have ih := ih c
      rw [hy] at ih ⊢
      refine List.isChain_cons_cons.2 ⟨fun hboth => hm ⟨hboth.1, ?_⟩, ih⟩
      have hmerge := hboth.2
      rwa [mergeable_iff, canMerge_iff, canMerge_iff, hrole, hcalls, ← canMerge_iff, ← canMerge_iff,
        ← mergeable_iff] at hmerge

/-- The turns after closing and merging. -/
lemma turns_merged (k : List ChatMessage) :
    turns (mergeAdjacentSameRole (closeInterruptedToolRounds k)) = mergeAll (closeTurns (turns k)) := by
  have hl : ∀ m ∈ k.takeWhile isTool, isTool m = true := fun _ hm => List.mem_takeWhile_imp hm
  conv_lhs => rw [← takeWhile_append_blocks (p := isTool) k]
  rw [closeInterruptedToolRounds_turns _ hl, mergeAdjacentSameRole_turns _ hl, turns,
    blocks_append hl]

/-- After the two passes neighbours are settled. -/
lemma settled_merged (k : List ChatMessage) :
    (turns (mergeAdjacentSameRole (closeInterruptedToolRounds k))).IsChain Turn.Settled := by
  rw [turns_merged]
  have hsettled := settled_closeTurns (turns k)
  cases hbs : closeTurns (turns k) with
  | nil => exact List.isChain_nil
  | cons b rest =>
    rw [hbs] at hsettled
    exact settled_mergeTurns hsettled

/-- And they do not merge. -/
lemma unmergeable_merged (k : List ChatMessage) :
    (turns (mergeAdjacentSameRole (closeInterruptedToolRounds k))).IsChain Turn.Unmergeable := by
  rw [turns_merged]
  cases closeTurns (turns k) with
  | nil => exact List.isChain_nil
  | cons b rest => exact unmergeable_mergeTurns b rest

/-! ## The results and the last message of the result -/

variable {history : List ChatMessage}

/-- The first pass leaves no orphan result. -/
lemma noOrphanResult_removeOrphanResults (history : List ChatMessage) :
    NoOrphanResult (removeOrphanResults history) := by
  intro m hm ht
  obtain ⟨hmem, hkeep⟩ := List.mem_filter.1 hm
  obtain ⟨id, hid, hknown⟩ := keepsResult_eq_true.1 hkeep ht
  obtain ⟨a, ha, hrole, hcall⟩ := mem_knownToolIds.1 hknown
  have htool : isTool a = false := by
    rw [isTool_eq_false, hrole]
    decide
  exact ⟨id, hid, a, List.mem_filter.2 ⟨ha, keepsResult_of_not_tool htool⟩, hrole, hcall⟩

/-- The messages that the second pass removes are unanswered messages of the assistant. -/
lemma mem_trimUnfulfilledTail_or {m : ChatMessage} (h : m ∈ history) :
    m ∈ trimUnfulfilledTail history ∨ unfulfilled (fulfilledIds history) m = true := by
  have hsplit := List.rdropWhile_append_rtakeWhile (p := unfulfilled (fulfilledIds history))
      (l := history)
  rw [← hsplit, List.mem_append] at h
  exact h.imp_right List.mem_rtakeWhile_imp

/-- The trim of the tail takes no result away. -/
lemma fulfilledIds_subset_trim (history : List ChatMessage) :
    fulfilledIds history ⊆ fulfilledIds (trimUnfulfilledTail history) := by
  intro id hid
  obtain ⟨m, hm, ht, hmid⟩ := mem_fulfilledIds.1 hid
  refine mem_fulfilledIds.2 ⟨m, (mem_trimUnfulfilledTail_or hm).resolve_right fun hunf => ?_, ht, hmid⟩
  exact absurd ht (isTool_eq_false.1 (isTool_of_unfulfilled hunf))

/-- The second pass leaves no orphan result. -/
lemma noOrphanResult_keptHistory (history : List ChatMessage) :
    NoOrphanResult (keptHistory history) := by
  intro m hm ht
  have hmem : m ∈ removeOrphanResults history := (List.rdropWhile_prefix _ _).subset hm
  obtain ⟨id, hid, a, ha, hrole, hcall⟩ := noOrphanResult_removeOrphanResults history m hmem ht
  refine ⟨id, hid, a, (mem_trimUnfulfilledTail_or ha).resolve_right fun hunf => ?_, hrole, hcall⟩
  -- the message is answered by this result
  obtain ⟨tc, htc, rfl⟩ := List.mem_map.1 hcall
  simp only [unfulfilled, Bool.and_eq_true, List.all_eq_true] at hunf
  have hnot := hunf.2 tc htc
  have hful : tc.id ∈ fulfilledIds (removeOrphanResults history) :=
    mem_fulfilledIds.2 ⟨m, hmem, ht, hid⟩
  simp [hful] at hnot

/-- Fewer messages are unfulfilled when more calls are answered. -/
lemma unfulfilled_mono {ids ids' : List String} (hsub : ids ⊆ ids') {m : ChatMessage}
    (h : unfulfilled ids' m = true) : unfulfilled ids m = true := by
  simp only [unfulfilled, Bool.and_eq_true, List.all_eq_true] at h ⊢
  refine ⟨h.1, fun tc htc => ?_⟩
  have hnot : tc.id ∉ ids' := by simpa using h.2 tc htc
  simpa using fun hmem => hnot (hsub hmem)

/-- Closing rounds removes no message. -/
lemma subset_closeRounds (o : Option ToolRound) (l : List ChatMessage) : l ⊆ closeRounds o l := by
  induction l generalizing o with
  | nil => exact List.nil_subset _
  | cons m l ih =>
    rw [closeRounds]
    split_ifs with ht
    · exact List.cons_subset_cons m (ih _)
    · exact List.subset_append_of_subset_right _ (List.cons_subset_cons m (ih _))

/-- The tool messages after closing the rounds: those before, and cancelled results of calls. -/
lemma mem_closeRounds {o : Option ToolRound} {l : List ChatMessage} {m : ChatMessage}
    (h : m ∈ closeRounds o l) (ht : m.role = "tool") :
    m ∈ l ∨ ∃ tc, m = cancelledResult tc ∧
      ((∃ r, o = some r ∧ tc ∈ r.calls) ∨ ∃ a ∈ l, a.role = "assistant" ∧ tc ∈ a.calls) := by
  induction l generalizing o with
  | nil => cases h
  | cons x l ih =>
    rw [closeRounds] at h
    split_ifs at h with hx
    · rcases List.mem_cons.1 h with rfl | h
      · exact Or.inl (List.mem_cons_self ..)
      · rcases ih h with hl | ⟨tc, rfl, ⟨r, hr, htc⟩ | ⟨a, ha, hcall⟩⟩
        · exact Or.inl (List.mem_cons_of_mem _ hl)
        · obtain ⟨r, rfl, rfl⟩ := Option.map_eq_some_iff.1 hr
          exact Or.inr ⟨tc, rfl, Or.inl ⟨r, rfl, htc⟩⟩
        · exact Or.inr ⟨tc, rfl, Or.inr ⟨a, List.mem_cons_of_mem _ ha, hcall⟩⟩
    · rcases List.mem_append.1 h with h | h
      · cases o with
        | none => cases h
        | some r =>
          rcases List.mem_append.1 h with h | h
          · obtain ⟨tc, htc, rfl⟩ := List.mem_map.1 h
            exact Or.inr ⟨tc, rfl, Or.inl ⟨r, rfl, List.mem_of_mem_filter htc⟩⟩
          · split_ifs at h
            · rw [List.mem_singleton.1 h] at ht
              exact absurd ht (by decide)
            · cases h
      · rcases List.mem_cons.1 h with rfl | h
        · exact absurd ht hx
        · rcases ih h with hl | ⟨tc, rfl, ⟨r, hr, htc⟩ | ⟨a, ha, hcall⟩⟩
          · exact Or.inl (List.mem_cons_of_mem _ hl)
          · unfold ToolRound.openedBy at hr
            split_ifs at hr with hopen
            cases hr
            exact Or.inr ⟨tc, rfl, Or.inr ⟨x, List.mem_cons_self .., hopen.1, htc⟩⟩
          · exact Or.inr ⟨tc, rfl, Or.inr ⟨a, List.mem_cons_of_mem _ ha, hcall⟩⟩

/-- The last message after closing the rounds is the one before. -/
lemma getLast?_closeRounds (o : Option ToolRound) (l : List ChatMessage) :
    (closeRounds o l).getLast? = l.getLast? := by
  induction l generalizing o with
  | nil => rfl
  | cons m l ih =>
    rw [closeRounds]
    split_ifs
    · rw [List.getLast?_cons, ih, ← List.getLast?_cons]
    · rw [List.getLast?_append_of_ne_nil _ (by simp), List.getLast?_cons, ih, ← List.getLast?_cons]

/-- A merge is not empty. -/
lemma mergeGo_ne_nil (last : ChatMessage) (l : List ChatMessage) : mergeGo last l ≠ [] := by
  induction l generalizing last with
  | nil => exact List.cons_ne_nil _ _
  | cons m l ih =>
    rw [mergeGo]
    split_ifs
    · exact ih _
    · exact List.cons_ne_nil _ _

/-- The last message after merging is the one before, or has no calls. -/
lemma getLast?_mergeGo {last m : ChatMessage} {l : List ChatMessage}
    (h : (mergeGo last l).getLast? = some m) (hcalls : m.calls ≠ []) :
    (last :: l).getLast? = some m := by
  induction l generalizing last with
  | nil => exact h
  | cons x l ih =>
    rw [mergeGo] at h
    split_ifs at h with hm
    · have hlast := ih h
      have hjoin : (mergeMessages last x).calls = [] := (canMerge_iff.1 (mergeable_iff.1 hm).1).2
      cases l with
      | nil =>
        have heq : mergeMessages last x = m := Option.some.inj hlast
        rw [← heq] at hcalls
        exact absurd hjoin hcalls
      | cons y l => rwa [List.getLast?_cons_cons] at hlast ⊢
    · obtain ⟨y, ys, hgo⟩ := List.exists_cons_of_ne_nil (mergeGo_ne_nil x l)
      rw [hgo, List.getLast?_cons_cons, ← hgo] at h
      rw [List.getLast?_cons_cons]
      exact ih h

/-- Merging keeps the calls that are declared. -/
lemma declared_mergeAdjacentSameRole (l : List ChatMessage) (id : String) :
    Declared (mergeAdjacentSameRole l) id ↔ Declared l id := by
  refine exists_mergeAdjacentSameRole (P := fun m => m.role = "assistant" ∧ id ∈ m.callIds)
    (fun a b hm => ?_) l
  obtain ⟨ha, hb, -⟩ := mergeable_iff.1 hm
  have hcalls : a.calls = [] := (canMerge_iff.1 ha).2
  have hcalls' : b.calls = [] := (canMerge_iff.1 hb).2
  have hjoin : (mergeMessages a b).calls = [] := hcalls
  simp [ChatMessage.callIds, hcalls, hcalls', hjoin]

/-- Merging keeps the tool messages. -/
lemma mem_mergeAdjacentSameRole {l : List ChatMessage} {m : ChatMessage} (ht : m.role = "tool") :
    m ∈ mergeAdjacentSameRole l ↔ m ∈ l := by
  have hjoin : ∀ a b, mergeable a b = true → (mergeMessages a b = m ↔ a = m ∨ b = m) := by
    intro a b hm
    have hnot {x : ChatMessage} (hx : canMerge x = true) : x ≠ m := by
      rintro rfl
      rw [canMerge_eq_false_of_tool ht] at hx
      cases hx
    obtain ⟨ha, hb, -⟩ := mergeable_iff.1 hm
    have hboth : canMerge (mergeMessages a b) = true := ha
    simp [hnot ha, hnot hb, hnot hboth]
  simpa using exists_mergeAdjacentSameRole (P := (· = m)) hjoin l

/-! ## Sanitizing gives a sanitized history -/

/-- The history before the last pass. -/
lemma noOrphanResult_merged (history : List ChatMessage) :
    NoOrphanResult (mergeAdjacentSameRole (closeInterruptedToolRounds (keptHistory history))) := by
  have hdecl (id : String) (h : Declared (keptHistory history) id) :
      Declared (mergeAdjacentSameRole (closeInterruptedToolRounds (keptHistory history))) id := by
    rw [declared_mergeAdjacentSameRole]
    obtain ⟨a, ha, hcall⟩ := h
    exact ⟨a, subset_closeRounds none _ ha, hcall⟩
  intro m hm ht
  rcases mem_closeRounds ((mem_mergeAdjacentSameRole ht).1 hm) ht with hk |
    ⟨tc, rfl, hround | ⟨a, ha, hcall⟩⟩
  · obtain ⟨id, hid, hknown⟩ := noOrphanResult_keptHistory history m hk ht
    exact ⟨id, hid, hdecl id hknown⟩
  · obtain ⟨r, hr, -⟩ := hround
    cases hr
  · exact ⟨tc.id, rfl, hdecl tc.id ⟨a, ha, hcall.1, List.mem_map_of_mem hcall.2⟩⟩

/-- The last of the merged messages is not unfulfilled. -/
lemma tail_merged (history : List ChatMessage) (m : ChatMessage)
    (h : (mergeAdjacentSameRole (closeInterruptedToolRounds (keptHistory history))).getLast? = some m) :
    unfulfilled (fulfilledIds (mergeAdjacentSameRole
      (closeInterruptedToolRounds (keptHistory history)))) m = false := by
  by_contra hunf
  rw [Bool.not_eq_false] at hunf
  have hcalls : m.calls ≠ [] := by
    intro hnil
    simp [unfulfilled, hnil] at hunf
  -- the message is the last one that the second pass keeps
  have hlast : (keptHistory history).getLast? = some m := by
    rw [← getLast?_closeRounds none]
    change (closeInterruptedToolRounds (keptHistory history)).getLast? = some m
    cases hclose : closeInterruptedToolRounds (keptHistory history) with
    | nil =>
      rw [hclose] at h
      cases h
    | cons x l =>
      rw [hclose] at h
      exact getLast?_mergeGo h hcalls
  have hsub : fulfilledIds (removeOrphanResults history) ⊆ fulfilledIds (mergeAdjacentSameRole
      (closeInterruptedToolRounds (keptHistory history))) := by
    intro id hid
    obtain ⟨t, hmem, ht, htid⟩ := mem_fulfilledIds.1 (fulfilledIds_subset_trim _ hid)
    exact mem_fulfilledIds.2
      ⟨t, (mem_mergeAdjacentSameRole ht).2 (subset_closeRounds none _ hmem), ht, htid⟩
  have hne : keptHistory history ≠ [] := by
    intro hnil
    rw [hnil] at hlast
    cases hlast
  have hnot := List.rdropWhile_last_not (unfulfilled (fulfilledIds (removeOrphanResults history)))
    (removeOrphanResults history) hne
  have heq : (keptHistory history).getLast hne = m := by
    rw [List.getLast?_eq_getLast_of_ne_nil hne] at hlast
    exact Option.some.inj hlast
  exact hnot (heq ▸ unfulfilled_mono hsub hunf)

/-- A user message in front of a history without one makes a sanitized history of one that only lacks a
user message. -/
lemma Sanitized.cons {u : ChatMessage} (hu : u.role = "user") (hcalls : u.calls = [])
    (hno : ∀ m ∈ history, m.role ≠ "user") (hresults : NoOrphanResult history)
    (htail : ∀ m, history.getLast? = some m → unfulfilled (fulfilledIds history) m = false)
    (hrounds : (turns history).IsChain Turn.Settled)
    (hapart : (turns history).IsChain Turn.Unmergeable) : Sanitized (u :: history) := by
  have htool : isTool u = false := by
    rw [isTool_eq_false, hu]
    decide
  obtain ⟨b, hturns, hhead⟩ : ∃ b : Turn, turns (u :: history) = b :: turns history ∧ b.head = u := by
    rw [turns, blocks, dif_neg (by simp [htool])]
    exact ⟨_, rfl, rfl⟩
  have hfulfilled : fulfilledIds (u :: history) = fulfilledIds history := by
    simp [fulfilledIds, hu]
  refine ⟨fun m hm ht => ?_, fun m hm => ?_, ?_, ?_, u, List.mem_cons_self .., hu⟩
  · rcases List.mem_cons.1 hm with rfl | hmem
    · rw [hu] at ht
      exact absurd ht (by decide)
    · obtain ⟨id, hid, a, ha, hcall⟩ := hresults m hmem ht
      exact ⟨id, hid, a, List.mem_cons_of_mem _ ha, hcall⟩
  · rw [hfulfilled]
    rw [List.getLast?_cons] at hm
    cases hlast : history.getLast? with
    | some x =>
      rw [hlast] at hm
      exact htail m (hlast.trans hm)
    | none =>
      rw [hlast] at hm
      obtain rfl : u = m := Option.some.inj hm
      simp [unfulfilled, hu]
  · rw [hturns]
    exact List.isChain_cons.2 ⟨fun c _ => Turn.settled_of_calls (hhead ▸ hcalls) c, hrounds⟩
  · rw [hturns]
    refine List.isChain_cons.2 ⟨fun c hc hboth => ?_, hapart⟩
    have hrole := (mergeable_iff.1 hboth.2).2.2
    rw [hhead, hu] at hrole
    exact hno c.head (head_mem (List.mem_of_mem_head? hc)) hrole.symm

/-- The last pass makes a sanitized history of one that only lacks a user message. -/
lemma Sanitized.ensure (hresults : NoOrphanResult history)
    (htail : ∀ m, history.getLast? = some m → unfulfilled (fulfilledIds history) m = false)
    (hrounds : (turns history).IsChain Turn.Settled)
    (hapart : (turns history).IsChain Turn.Unmergeable) :
    Sanitized (ensureAtLeastOneUser history) := by
  unfold ensureAtLeastOneUser
  split_ifs with hu hnil
  · refine ⟨hresults, htail, hrounds, hapart, ?_⟩
    simpa using hu
  · subst hnil
    exact Sanitized.cons rfl rfl (by simp) hresults htail hrounds hapart
  · exact Sanitized.cons rfl rfl (by simpa using hu) hresults htail hrounds hapart

/-- **The passes give a sanitized history**. -/
theorem sanitized_sanitizeHistory (history : List ChatMessage) : Sanitized (sanitizeHistory history) :=
  Sanitized.ensure (noOrphanResult_merged history) (tail_merged history) (settled_merged _)
    (unmergeable_merged _)

/-- **Sanitizing twice is sanitizing once**. -/
theorem sanitizeHistory_idem (history : List ChatMessage) :
    sanitizeHistory (sanitizeHistory history) = sanitizeHistory history :=
  (sanitized_sanitizeHistory history).eq_self

end MyClaw
