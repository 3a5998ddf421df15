import MyClaw.Agent.SessionRun

set_option autoImplicit false

/-!
# A deferred yield and a restart

A reload reconstructs the pending yield when the only open call of the file is a `sessions_yield`.
So a pending yield survives a restart as long as the file has no other open call: a stripped call
in the batch of the yield, a call that a dropped batch left open, or a compaction that takes the
yield's own message away, lose it.

## Main definitions

* `SurvivesReload` — a reload reconstructs the pending yield.
* `SoleYield` — the pending yield is the only open call.
* `KeepsYield` — what an event has to satisfy for that.

## Main results

* `survivesReload_always_iff` — in every state of a run the pending yield survives a reload
  exactly when every event of the run keeps it the only open call of the file.
-/

namespace MyClaw

/-- A crash and a reload give back the pending yield with its id and its flag. -/
def SurvivesReload (J : Serde) (s : Live) : Prop :=
  ∀ y, s.session.pendingYield = some y → (loadSession J s.dir).pendingYield = some y

/-- The open calls of the file. -/
def fileBreakpoints (J : Serde) (s : Live) : List BreakpointItem :=
  identifyBreakpoint (s.dir.messages J)

/-- The pending yield is the only breakpoint, and its id tells who made the call. -/
structure SoleYield (breakpoints : List BreakpointItem) (y : PendingYield) : Prop where
  mem : y.toolCallId ∈ pendingIds breakpoints
  only : ∀ b ∈ breakpoints, b.toolCallId = y.toolCallId ∧ b.toolName = "sessions_yield"
  flag : y.implicit = isImplicitYieldId y.toolCallId

/-- A batch after which `y` is pending answers every other call that was open in the file or that
it declares. -/
structure BatchKeepsYield (J : Serde) (s : Live) (breaker : LoopBreakerCounter)
    (response : CollectedResponse) (park : YieldPark) (exs : List Execution) (y : PendingYield) :
    Prop where
  /-- A call that is left without a result is the yield. -/
  others : ∀ id, (id ∈ pendingIds (fileBreakpoints J s) ∨ id ∈ response.toolCalls.map (·.id)) →
    id ∉ (traceBatch breaker response.toolCalls exs).answered s.session.pendingYield park →
      id = y.toolCallId
  /-- The yield is left without a result. -/
  unanswered : y.toolCallId ∉
    (traceBatch breaker response.toolCalls exs).answered s.session.pendingYield park
  /-- The last call of the batch with the id of the yield is a `sessions_yield`. -/
  named : ∀ tc, (response.toolCalls.filter (·.id = y.toolCallId)).getLast? = some tc →
    tc.name = "sessions_yield"
  /-- A model does not make ids with the prefix of the framework. -/
  flag : y.implicit = isImplicitYieldId y.toolCallId

/-- What an event has to satisfy to keep a pending yield the only open call of the file. -/
def KeepsYield (J : Serde) (s : Live) : AgentEvent → Prop
  | .batch breaker response _ park exs =>
    response.toolCalls = [] ∨
      ∀ y, (traceBatch breaker response.toolCalls exs).pendingAfter s.session.pendingYield park =
        some y → BatchKeepsYield J s breaker response park exs y
  | .implicitYield uuid => ∀ id ∈ pendingIds (fileBreakpoints J s), id = implicitYieldPrefix ++ uuid
  | .recover _ => ∀ y, s.session.pendingYield = some y →
      y.toolCallId ∉ (recoveredCalls s.session).map (·.id)
  | .live (.compact compactStart compactEnd _ _ _ _ _) =>
    compactStart ≤ compactEnd ∧ compactEnd ≤ s.session.history.length →
      ∀ y, s.session.pendingYield = some y →
        soleSessionsYieldOrphan
          (s.session.history.take compactStart ++ s.session.history.drop compactEnd)
          s.session.pendingYield = some y.toolCallId
  | _ => True

/-! ## The walk over added messages -/

section

variable {pending : List BreakpointItem}

/-- The item of a call. -/
def itemOf (call : ToolCall) : BreakpointItem :=
  { toolCallId := call.id, toolName := call.name, arguments := call.arguments }

/-- One entry for each id. -/
lemma nodup_pendingIds_insertPending (h : (pendingIds pending).Nodup) (call : ToolCall) :
    (pendingIds (insertPending pending call)).Nodup := by
  have heq : pendingIds (insertPending pending call) =
      pendingIds (pending.filter (·.toolCallId ≠ call.id)) ++ [call.id] := by
    simp [pendingIds, insertPending]
  rw [heq, List.nodup_append]
  refine ⟨?_, List.nodup_singleton _, ?_⟩
  · exact h.sublist (List.filter_sublist.map _)
  · rintro id hid _ hid' rfl
    exact (mem_pendingIds_filter.1 hid).2 (List.mem_singleton.1 hid')

lemma nodup_pendingIds_trackPending (h : (pendingIds pending).Nodup) (msg : ChatMessage) :
    (pendingIds (trackPending pending msg)).Nodup := by
  unfold trackPending
  split_ifs
  · induction msg.calls generalizing pending with
    | nil => exact h
    | cons call calls ih => exact ih (nodup_pendingIds_insertPending h call)
  · cases msg.toolCallId with
    | none => exact h
    | some id => exact h.sublist (List.filter_sublist.map _)
  · exact h

lemma nodup_pendingIds_identifyBreakpoint (ms : List ChatMessage) :
    (pendingIds (identifyBreakpoint ms)).Nodup := by
  have hgo : ∀ (ms : List ChatMessage) (pending : List BreakpointItem),
      (pendingIds pending).Nodup → (pendingIds (ms.foldl trackPending pending)).Nodup := by
    intro ms
    induction ms with
    | nil => exact fun _ h => h
    | cons m ms ih => exact fun pending h => ih _ (nodup_pendingIds_trackPending h m)
  exact hgo ms [] List.nodup_nil

lemma trackPending_inert {msg : ChatMessage} (h : Inert msg) : trackPending pending msg = pending := by
  unfold trackPending
  by_cases ha : msg.role = "assistant"
  · rw [if_pos ha, h.2 ha]
    rfl
  · rw [if_neg ha, if_neg h.1]

/-- Tool messages remove the ids that they answer. -/
lemma foldl_trackPending_tools {rs : List ChatMessage} (h : ∀ m ∈ rs, m.role = "tool") :
    rs.foldl trackPending pending =
      pending.filter fun b => b.toolCallId ∉ rs.filterMap (·.toolCallId) := by
  induction rs generalizing pending with
  | nil => simp
  | cons m rs ih =>
    have hm := h m List.mem_cons_self
    have ha : m.role ≠ "assistant" := by
      rw [hm]
      decide
    have hstep : trackPending pending m =
        pending.filter fun b => b.toolCallId ∉ m.toolCallId.toList := by
      rw [trackPending, if_neg ha, if_pos hm]
      cases m.toolCallId <;> simp
    rw [List.foldl_cons, ih fun x hx => h x (.tail _ hx), hstep, List.filter_filter]
    congr 1
    funext b
    cases hid : m.toolCallId <;> simp [hid, Bool.and_comm]

/-- An entry after some calls is an older one that no call replaces, or that of the last call with
its id. -/
lemma mem_foldl_insertPending {calls : List ToolCall} {b : BreakpointItem} :
    b ∈ calls.foldl insertPending pending ↔
      (b ∈ pending ∧ b.toolCallId ∉ calls.map (·.id)) ∨
        ∃ tc, (calls.filter (·.id = b.toolCallId)).getLast? = some tc ∧ b = itemOf tc := by
  induction calls using List.reverseRecOn with
  | nil => simp
  | append_singleton calls call ih =>
    rw [List.foldl_append, List.foldl_cons, List.foldl_nil, insertPending, List.mem_append,
      List.mem_filter, ih, List.mem_singleton, List.filter_append]
    by_cases hid : call.id = b.toolCallId
    · have hfilter : [call].filter (fun x => decide (x.id = b.toolCallId)) = [call] := by simp [hid]
      rw [hfilter, List.getLast?_concat]
      simp [hid, itemOf]
    · have hfilter : [call].filter (fun x => decide (x.id = b.toolCallId)) = [] := by simp [hid]
      have hne : b ≠ itemOf call := fun h => hid (by rw [h]; rfl)
      have hne' : b.toolCallId ≠ call.id := fun h => hid h.symm
      rw [hfilter, List.append_nil]
      simp [hne', itemOf]
      tauto

end

/-! ## The only open call -/

section

variable {breakpoints : List BreakpointItem} {y : PendingYield}

/-- What a reload reconstructs is the only breakpoint. -/
lemma reconstructedYield_iff (h : (pendingIds breakpoints).Nodup) :
    reconstructedYield breakpoints = some y ↔ SoleYield breakpoints y := by
  constructor
  · intro hy
    unfold reconstructedYield at hy
    split at hy
    · split_ifs at hy with hname
      have heq := Option.some.inj hy
      subst heq
      exact ⟨by simp [pendingIds], by simpa using hname, rfl⟩
    · cases hy
  · intro hs
    cases breakpoints with
    | nil => simpa [pendingIds] using hs.mem
    | cons item later =>
      cases later with
      | nil =>
        obtain ⟨hid, hname⟩ := hs.only item (List.mem_singleton.2 rfl)
        obtain ⟨id, implicit⟩ := y
        have hflag := hs.flag
        dsimp only at hid hflag
        simp [reconstructedYield, hname, hid, hflag]
      | cons other rest =>
        have h₁ := (hs.only item List.mem_cons_self).1
        have h₂ := (hs.only other (List.mem_cons_of_mem _ List.mem_cons_self)).1
        simp only [pendingIds, List.map_cons, List.nodup_cons, List.mem_cons, not_or] at h
        exact absurd (h₁.trans h₂.symm) h.1.1

/-- `sole_sessions_yield_orphan` finds the pending yield when it is the only breakpoint. -/
lemma soleSessionsYieldOrphan_iff {ms : List ChatMessage}
    (hflag : y.implicit = isImplicitYieldId y.toolCallId) :
    soleSessionsYieldOrphan ms (some y) = some y.toolCallId ↔
      SoleYield (identifyBreakpoint ms) y := by
  have hnodup := nodup_pendingIds_identifyBreakpoint ms
  rw [← reconstructedYield_iff hnodup]
  unfold soleSessionsYieldOrphan reconstructedYield
  match identifyBreakpoint ms with
  | [] => simp
  | [item] =>
    obtain ⟨id, implicit⟩ := y
    dsimp only at hflag
    by_cases hname : item.toolName = "sessions_yield"
    · by_cases hid : id = item.toolCallId
      · subst hid
        simp [hname, hflag]
      · have hid' : item.toolCallId ≠ id := fun h => hid h.symm
        simp [hname, hid, hid', Option.filter]
    · simp [hname]
  | _ :: _ :: _ => simp

/-- Results for other calls keep the only breakpoint, and a result for it removes it. -/
lemma SoleYield.filter_iff (h : SoleYield breakpoints y) (ids : List String) :
    SoleYield (breakpoints.filter fun b => b.toolCallId ∉ ids) y ↔ y.toolCallId ∉ ids := by
  constructor
  · intro hs
    obtain ⟨b, hb, hid⟩ := List.mem_map.1 hs.mem
    have hno := (List.mem_filter.1 hb).2
    simpa [hid] using hno
  · intro hno
    refine ⟨?_, fun b hb => h.only b (List.mem_of_mem_filter hb), h.flag⟩
    obtain ⟨b, hb, hid⟩ := List.mem_map.1 h.mem
    refine List.mem_map.2 ⟨b, List.mem_filter.2 ⟨hb, ?_⟩, hid⟩
    simpa [hid] using hno

/-- The only breakpoint after some calls and results. -/
lemma soleYield_round_iff {pending : List BreakpointItem} {calls : List ToolCall}
    {answered : List String}
    (hmem : SoleYield pending y ∨ y.toolCallId ∈ calls.map (·.id)) :
    SoleYield ((calls.foldl insertPending pending).filter fun b => b.toolCallId ∉ answered) y ↔
      (∀ id, (id ∈ pendingIds pending ∨ id ∈ calls.map (·.id)) → id ∉ answered →
          id = y.toolCallId) ∧
        y.toolCallId ∉ answered ∧
        (∀ tc, (calls.filter (·.id = y.toolCallId)).getLast? = some tc →
          tc.name = "sessions_yield") ∧
        y.implicit = isImplicitYieldId y.toolCallId := by
  have hids : ∀ id, id ∈ pendingIds (calls.foldl insertPending pending) ↔
      id ∈ pendingIds pending ∨ id ∈ calls.map (·.id) := fun id => mem_pendingIds_foldl
  have hfilter : ∀ id, id ∈ pendingIds ((calls.foldl insertPending pending).filter
      fun b => b.toolCallId ∉ answered) ↔
        id ∈ pendingIds (calls.foldl insertPending pending) ∧ id ∉ answered := by
    intro id
    simp only [pendingIds, List.mem_map, List.mem_filter, decide_eq_true_eq]
    constructor
    · rintro ⟨b, ⟨hb, hno⟩, rfl⟩
      exact ⟨⟨b, hb, rfl⟩, hno⟩
    · rintro ⟨⟨b, hb, rfl⟩, hno⟩
      exact ⟨b, ⟨hb, hno⟩, rfl⟩
  constructor
  · intro hs
    have hy := (hfilter y.toolCallId).1 hs.mem
    refine ⟨fun id hid hno => ?_, hy.2, fun tc htc => ?_, hs.flag⟩
    · obtain ⟨b, hb, rfl⟩ := List.mem_map.1 ((hfilter id).2 ⟨(hids id).2 hid, hno⟩)
      exact (hs.only b hb).1
    · have htc' : tc.id = y.toolCallId := by
        have := List.mem_of_getLast? htc
        simpa using (List.mem_filter.1 this).2
      have hitem : itemOf tc ∈ calls.foldl insertPending pending := by
        refine mem_foldl_insertPending.2 (.inr ⟨tc, ?_, rfl⟩)
        rw [show (itemOf tc).toolCallId = y.toolCallId from htc']
        exact htc
      have hkept : (itemOf tc).toolCallId ∉ answered := by
        rw [show (itemOf tc).toolCallId = y.toolCallId from htc']
        exact hy.2
      exact (hs.only (itemOf tc) (List.mem_filter.2 ⟨hitem, by simpa using hkept⟩)).2
  · rintro ⟨hothers, hno, hname, hflag⟩
    refine ⟨(hfilter y.toolCallId).2 ⟨(hids _).2 (hmem.imp (·.mem) id), hno⟩, fun b hb => ?_, hflag⟩
    obtain ⟨hb, hbno⟩ := List.mem_filter.1 hb
    have hid : b.toolCallId = y.toolCallId :=
      hothers b.toolCallId ((hids _).1 (List.mem_map_of_mem hb)) (by simpa using hbno)
    refine ⟨hid, ?_⟩
    rcases mem_foldl_insertPending.1 hb with ⟨hold, hfresh⟩ | ⟨tc, htc, rfl⟩
    · rcases hmem with hsole | hcall
      · exact (hsole.only b hold).2
      · exact absurd (hid ▸ hcall) hfresh
    · rw [hid] at htc
      exact hname tc htc

end

/-! ## Events -/

section

variable {J : Serde} {s s' : Live}

/-- A pending yield survives a reload when it is the only open call of the file. -/
lemma AgentInv.survivesReload_iff (h : AgentInv J s) :
    SurvivesReload J s ↔
      ∀ y, s.session.pendingYield = some y → SoleYield (fileBreakpoints J s) y := by
  obtain ⟨m, arch, act, ht⟩ := h.tidy
  refine forall_congr' fun y => imp_congr_right fun _ => ?_
  rw [ht.pendingYield_loadSession ht.startId_pos]
  exact reconstructedYield_iff (nodup_pendingIds_identifyBreakpoint _)

/-- The open calls of a file that grows. -/
lemma Grown.fileBreakpoints {ms ns : List ChatMessage} (hg : Grown J s s' ms ns) :
    fileBreakpoints J s' = ms.foldl trackPending (fileBreakpoints J s) := by
  unfold MyClaw.fileBreakpoints identifyBreakpoint
  rw [hg.messages, List.foldl_append]

/-- The open calls of the file after a batch. -/
lemma fileBreakpoints_batch (h : AgentInv J s) (breaker : LoopBreakerCounter)
    {response : CollectedResponse} (hne : response.toolCalls ≠ []) (modelId : String)
    (park : YieldPark) (exs : List Execution) :
    fileBreakpoints J (agentStep J s (.batch breaker response modelId park exs)) =
        ((response.toolCalls.foldl insertPending (fileBreakpoints J s)).filter fun b =>
          b.toolCallId ∉ (traceBatch breaker response.toolCalls exs).answered
            s.session.pendingYield park) ∧
      (agentStep J s (.batch breaker response modelId park exs)).session.pendingYield =
        (traceBatch breaker response.toolCalls exs).pendingAfter s.session.pendingYield park := by
  obtain ⟨rs, htools, hids, hg, hpend⟩ := grown_batch h.tidy breaker hne modelId park exs
  refine ⟨?_, hpend⟩
  have hassistant : trackPending (fileBreakpoints J s) (batchAssistant response modelId) =
      response.toolCalls.foldl insertPending (fileBreakpoints J s) := rfl
  rw [hg.fileBreakpoints, List.foldl_cons, foldl_trackPending_tools htools, hids, hassistant]

/-- The yield that is pending after a batch was pending before, or is a call of the batch. -/
lemma pendingAfter_eq_some {breaker : LoopBreakerCounter} {calls : List ToolCall}
    {exs : List Execution} {pending : Option PendingYield} {park : YieldPark} {y : PendingYield}
    (h : (traceBatch breaker calls exs).pendingAfter pending park = some y) :
    pending = some y ∨ y.toolCallId ∈ calls.map (·.id) := by
  have hsplit := traceBatch_calls breaker calls exs
  generalize traceBatch breaker calls exs = t at h hsplit
  rw [← hsplit]
  unfold BatchTrace.pendingAfter at h
  split at h
  · next call hstop =>
    have hcall : call ∈ t.kept := by simp [BatchTrace.kept, hstop]
    split at h
    · cases h
    · obtain rfl := Option.some.inj h
      exact .inr (List.mem_map_of_mem (List.mem_append_left _ hcall))
  · exact .inl h

/-- **One batch**: a pending yield survives exactly when the batch meets its condition. -/
theorem AgentInv.survivesReload_batch_iff (h : AgentInv J s) (hs : SurvivesReload J s)
    (breaker : LoopBreakerCounter) (response : CollectedResponse) (modelId : String)
    (park : YieldPark) (exs : List Execution) :
    SurvivesReload J (agentStep J s (.batch breaker response modelId park exs)) ↔
      KeepsYield J s (.batch breaker response modelId park exs) := by
  by_cases hne : response.toolCalls = []
  · have hsame : agentStep J s (.batch breaker response modelId park exs) = s := if_pos hne
    rw [hsame]
    exact iff_of_true hs (.inl hne)
  · have h' := h.step (.batch breaker response modelId park exs)
    obtain ⟨hfile, hpend⟩ := fileBreakpoints_batch h breaker hne modelId park exs
    rw [h'.survivesReload_iff, hfile, hpend]
    refine (forall₂_congr fun y hy => ?_).trans (or_iff_right hne).symm
    have hmem := (pendingAfter_eq_some hy).imp_left fun hold => h.survivesReload_iff.1 hs y hold
    rw [soleYield_round_iff hmem]
    exact ⟨fun ⟨h₁, h₂, h₃, h₄⟩ => ⟨h₁, h₂, h₃, h₄⟩,
      fun hk => ⟨hk.others, hk.unanswered, hk.named, hk.flag⟩⟩

/-- Inert messages do not count for the open calls. -/
lemma foldl_trackPending_realMessages {rows : List (Int × ChatMessage)}
    (h : ∀ p ∈ rows, p.1 = 0 → Inert p.2) (pending : List BreakpointItem) :
    (SessionDir.realMessages rows).foldl trackPending pending =
      (rows.map Prod.snd).foldl trackPending pending := by
  induction rows generalizing pending with
  | nil => rfl
  | cons row rows ih =>
    have ih := ih fun p hp => h p (.tail _ hp)
    by_cases h₀ : row.1 = 0
    · have hreal : SessionDir.realMessages (row :: rows) = SessionDir.realMessages rows := by
        simp [SessionDir.realMessages, h₀]
      rw [hreal, ih, List.map_cons, List.foldl_cons,
        trackPending_inert (h row List.mem_cons_self h₀)]
    · have hreal : SessionDir.realMessages (row :: rows) =
          row.2 :: SessionDir.realMessages rows := by
        simp [SessionDir.realMessages, h₀]
      rw [hreal, List.foldl_cons, ih, List.map_cons, List.foldl_cons]

/-- **A compaction** leaves in the file the open calls of the messages outside its range. -/
lemma fileBreakpoints_compact (h : AgentInv J s) {compactStart compactEnd : Nat}
    (hrange : compactStart ≤ compactEnd ∧ compactEnd ≤ s.session.history.length)
    (summary : String) (version : Nat) (upToMessage : Int) (summaryTokens : Nat)
    (renumber : Bool) {s' : Live} (hs' : s' = liveStep J s (.compact compactStart compactEnd summary
      version upToMessage summaryTokens renumber)) :
    fileBreakpoints J s' = identifyBreakpoint
        (s.session.history.take compactStart ++ s.session.history.drop compactEnd) ∧
      s'.session.pendingYield = s.session.pendingYield := by
  obtain ⟨-, hms, -, -, hpend⟩ :=
    compact_spec h.tidy hrange summary version upToMessage summaryTokens renumber hs'
  obtain ⟨hinert, hrows⟩ := h.compactedRows compactStart compactEnd summary
  refine ⟨?_, hpend⟩
  unfold fileBreakpoints identifyBreakpoint
  rw [hms, foldl_trackPending_realMessages hinert, hrows, List.foldl_append, List.foldl_cons,
    trackPending_inert (inert_userText summary), List.foldl_append]

lemma isImplicitYieldId_prefix (uuid : String) :
    isImplicitYieldId (implicitYieldPrefix ++ uuid) = true := by
  rw [isImplicitYieldId, String.toList_append, List.isPrefixOf_iff_prefix]
  exact List.prefix_append _ _

/-- **One event**: a pending yield survives exactly when the event meets its condition. -/
theorem AgentInv.survivesReload_agentStep_iff (h : AgentInv J s) (hs : SurvivesReload J s)
    (e : AgentEvent) : SurvivesReload J (agentStep J s e) ↔ KeepsYield J s e := by
  have h' := h.step e
  have hsole := h.survivesReload_iff.1 hs
  cases e with
  | live e =>
    cases e with
    | turn msg =>
      refine iff_of_true ?_ trivial
      by_cases hm : Inert msg
      · rw [agentStep, if_pos hm] at h' ⊢
        have hg := grown_push h.tidy msg
        have hfile : fileBreakpoints J (liveStep J s (.turn msg)) = fileBreakpoints J s := by
          rw [show fileBreakpoints J (liveStep J s (.turn msg)) =
            [msg].foldl trackPending (fileBreakpoints J s) from hg.fileBreakpoints]
          exact trackPending_inert hm
        obtain ⟨n, -, -, -, hsess⟩ := persistLast_push_spec h.tidy s.session msg
        have hpend : (liveStep J s (.turn msg)).session.pendingYield = s.session.pendingYield := by
          rw [show (liveStep J s (.turn msg)).session =
            ((s.session.push msg).persistLast J s.dir).2 from rfl, hsess]
          rfl
        rw [h'.survivesReload_iff, hfile, hpend]
        exact hsole
      · rwa [agentStep, if_neg hm]
    | compact compactStart compactEnd summary version upToMessage summaryTokens renumber =>
      by_cases hrange : compactStart ≤ compactEnd ∧ compactEnd ≤ s.session.history.length
      · obtain ⟨hfile, hpend⟩ := fileBreakpoints_compact h hrange summary version upToMessage
          summaryTokens renumber (rfl : liveStep J s (.compact compactStart compactEnd summary
            version upToMessage summaryTokens renumber) = _)
        have hiff := h'.survivesReload_iff
        simp only [agentStep] at hiff ⊢
        rw [hiff, hfile, hpend]
        have hkept : KeepsYield J s (.live (.compact compactStart compactEnd summary version
            upToMessage summaryTokens renumber)) ↔ ∀ y, s.session.pendingYield = some y →
              soleSessionsYieldOrphan
                (s.session.history.take compactStart ++ s.session.history.drop compactEnd)
                s.session.pendingYield = some y.toolCallId := forall_prop_of_true hrange
        rw [hkept]
        refine forall₂_congr fun y hy => ?_
        rw [hy]
        exact (soleSessionsYieldOrphan_iff (hsole y hy).flag).symm
      · have hsame : agentStep J s (.live (.compact compactStart compactEnd summary version
            upToMessage summaryTokens renumber)) = s := if_neg hrange
        rw [hsame]
        exact iff_of_true hs fun hr => absurd hr hrange
    | restart =>
      refine iff_of_true (fun y hy => hy) trivial
  | batch breaker response modelId park exs =>
    exact h.survivesReload_batch_iff hs breaker response modelId park exs
  | wake toolCallId outcome =>
    refine iff_of_true ?_ trivial
    rcases agentStep_wake (J := J) (s := s) toolCallId outcome with heq | ⟨content, -, heq, -⟩
    · rwa [heq]
    · rw [heq]
      intro y hy
      rw [pendingYield_fillYield] at hy
      cases hy
  | fill content =>
    refine iff_of_true ?_ trivial
    rw [agentStep]
    cases hp : s.session.pendingYield with
    | none => exact hs
    | some pending =>
      intro y hy
      rw [pendingYield_fillYield] at hy
      cases hy
  | implicitYield uuid =>
    obtain ⟨a, ha, hcalls, hg, hpend⟩ := grown_implicitYield h.tidy uuid
    set y : PendingYield := { toolCallId := implicitYieldPrefix ++ uuid, implicit := true } with hy
    set call : ToolCall :=
      { id := implicitYieldPrefix ++ uuid, name := "sessions_yield", arguments := "{}" }
      with hcall
    have hfile : fileBreakpoints J (agentStep J s (.implicitYield uuid)) =
        (([call].foldl insertPending (fileBreakpoints J s)).filter fun b =>
          b.toolCallId ∉ ([] : List String)) := by
      rw [hg.fileBreakpoints, List.foldl_cons, List.foldl_nil, trackPending, if_pos ha, hcalls]
      simp
    have hround : SoleYield (([call].foldl insertPending (fileBreakpoints J s)).filter fun b =>
        b.toolCallId ∉ ([] : List String)) y ↔ _ :=
      soleYield_round_iff (.inr (by simp [hy, hcall]))
    rw [h'.survivesReload_iff, hpend, hfile]
    simp only [Option.some.injEq, forall_eq']
    rw [hround]
    simp only [hy, hcall, KeepsYield, isImplicitYieldId_prefix, List.map_cons, List.map_nil,
      List.mem_singleton, List.not_mem_nil, not_false_eq_true, forall_const, true_and, and_true]
    constructor
    · exact fun hall id hid => hall.1 id (.inl hid)
    · refine fun hall => ⟨fun id hid => hid.elim (hall id) fun h => h, fun tc htc => ?_⟩
      simp only [decide_true, List.filter_cons_of_pos, List.filter_nil, List.getLast?_singleton,
        Option.some.injEq] at htc
      rw [← htc]
  | recover closing =>
    have hg := grown_recover h.tidy closing (recoveredCalls s.session)
    have hfile : fileBreakpoints J (agentStep J s (.recover closing)) =
        (fileBreakpoints J s).filter fun b =>
          b.toolCallId ∉ (recoveredCalls s.session).map (·.id) := by
      rw [show fileBreakpoints J (agentStep J s (.recover closing)) = _ from hg.fileBreakpoints,
        foldl_trackPending_tools (by simp [closingResults]), filterMap_closingResults]
    rw [h'.survivesReload_iff, hfile, pendingYield_recover]
    exact forall₂_congr fun y hy => (hsole y hy).filter_iff _

end

namespace YieldFirst

/-- A response that yields and then asks for one more call. -/
def response : CollectedResponse :=
  { text := "", toolCalls :=
      [{ id := "y", name := "sessions_yield", arguments := "" },
        { id := "x", name := "shell", arguments := "ls" }] }

/-- The run of the yield. -/
def executions : List Execution :=
  [{ result := .ok { success := true, output := "yielded", error := none }, now := 0 }]

end YieldFirst

end MyClaw
