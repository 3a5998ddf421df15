import MyClaw.Context.Suspension

set_option autoImplicit false

/-!
# One notice for a terminal event

Callers of `record_terminal` send a notice unless it returns `Duplicate`.  Three stores keep a
second call from returning anything else: the results of the suspension, the window of recent ids,
and the list of pending tasks.  An id is in the results before it is in the window, so a suspension
that is dropped in between takes the only trace of it away.

## Main definitions

* `AtMostOneNotice` — since its last registration at most one call for an id has returned
  something other than `Duplicate`.
* `KeepsOneNotice` — what an event has to satisfy for that.
* `NoticeInv` — where the trace of a registered id is.

## Main results

* `NoticeInv.step` — every event that meets the condition keeps the invariant.
* `atMostOneNotice_always` — at most one notice in every run within the window whose events
  all meet the condition.
-/

namespace MyClaw

/-! ## The property and its condition -/

/-- How many calls for an id have returned something other than `Duplicate` since its last
registration, in a log with the newest entry first. -/
def noticesSince (id : String) : List LogEntry → Nat
  | [] => 0
  | .registered other :: log => if other = id then 0 else noticesSince id log
  | .returned other record :: log =>
    (if other = id ∧ record ≠ .duplicate then 1 else 0) + noticesSince id log

/-- At most one notice for a registered id. -/
def AtMostOneNotice (s : SuspensionState) : Prop :=
  ∀ id, .registered id ∈ s.log → noticesSince id s.log ≤ 1

/-- The call has collected a result that it has not noted yet. -/
def TerminalCall.isCollecting (c : TerminalCall) : Bool :=
  match c.stage with
  | .collected _ => true
  | _ => false

/-- The window does not stop the call any more. -/
def TerminalCall.pastWindow (c : TerminalCall) : Bool :=
  match c.stage with
  | .looked currentlyPending => currentlyPending
  | _ => true

/-- The suspension is dropped, and an id is registered again, only when no call is on its way that
this could mislead. -/
def KeepsOneNotice (s : SuspensionState) : SuspensionEvent → Prop
  | .clear noticeTurnsInFlight => s.clears noticeTurnsInFlight = true →
      ∀ c ∈ s.calls, .registered c.subSessionId ∈ s.log → c.pastWindow = false
  | .addPendingTask id => ∀ c ∈ s.calls, c.subSessionId = id → c.isCollecting = false
  | _ => True

/-- The moments of an event lie within the window, counted from the start of the run. -/
def WithinWindow : SuspensionEvent → Prop
  | .checkWindow _ now => now ≤ recentlyRecordedTerminalWindow
  | .note _ now => now ≤ recentlyRecordedTerminalWindow
  | _ => True

/-! ## The invariant -/

namespace SuspensionState

/-- The id has a collected result. -/
def InResults (s : SuspensionState) (id : String) : Prop :=
  ∃ t, s.turnSuspension = some t ∧ ∃ r ∈ t.results, r.subSessionId = id

/-- The id is in the window. -/
def InWindow (s : SuspensionState) (id : String) : Prop :=
  ∃ entry ∈ s.recentlyRecordedTerminals, entry.1 = id

end SuspensionState

/-- The number of calls for an id that have collected and not returned. -/
def collecting (id : String) (calls : List TerminalCall) : Nat :=
  calls.countP fun c => decide (c.subSessionId = id) && c.isCollecting

/-- **Where the trace of an id is.** -/
structure NoticeInv (s : SuspensionState) : Prop where
  /-- A pending id has no notice, and none on its way. -/
  fresh : ∀ id, s.isPending id = true → noticesSince id s.log = 0 ∧ collecting id s.calls = 0
  /-- A registered id has at most one notice, with those on their way. -/
  once : ∀ id, .registered id ∈ s.log → noticesSince id s.log + collecting id s.calls ≤ 1
  /-- A registered id that is not pending is in the results, or it is in the window and no call for
  it is past the window. -/
  settled : ∀ id, .registered id ∈ s.log → s.isPending id = false →
    s.InResults id ∨ s.InWindow id ∧ ∀ c ∈ s.calls, c.subSessionId = id → c.pastWindow = false
  /-- An id in the results is in the window, or a call is about to put it there. -/
  noted : ∀ id, s.InResults id → s.InWindow id ∨ collecting id s.calls ≠ 0

section

variable {s : SuspensionState} {call : TerminalCall} {id : String}

/-! ## Pools of calls and logs -/

lemma collecting_cons (c : TerminalCall) (calls : List TerminalCall) :
    collecting id (c :: calls) =
      collecting id calls + if c.subSessionId = id ∧ c.isCollecting = true then 1 else 0 := by
  rw [collecting, List.countP_cons]
  simp [collecting]

/-- A call of the pool and the others. -/
lemma collecting_erase {calls : List TerminalCall} (h : call ∈ calls) :
    collecting id calls = collecting id (calls.erase call) +
      if call.subSessionId = id ∧ call.isCollecting = true then 1 else 0 := by
  rw [← collecting_cons]
  exact (List.perm_cons_erase h).countP_eq _

lemma isCollecting_le_pastWindow (h : call.isCollecting = true) : call.pastWindow = true := by
  unfold TerminalCall.isCollecting at h
  unfold TerminalCall.pastWindow
  cases hs : call.stage <;> simp_all

/-- A pool without a call past the window has none that is collecting. -/
lemma collecting_eq_zero {calls : List TerminalCall}
    (h : ∀ c ∈ calls, c.subSessionId = id → c.isCollecting = false) : collecting id calls = 0 := by
  refine List.countP_eq_zero.2 fun c hc => ?_
  rw [Bool.and_eq_true, decide_eq_true_eq]
  rintro ⟨hid, hcol⟩
  rw [h c hc hid] at hcol
  cases hcol

lemma noticesSince_returned (other : String) (record : TerminalRecord) (log : List LogEntry) :
    noticesSince id (.returned other record :: log) =
      (if other = id ∧ record ≠ .duplicate then 1 else 0) + noticesSince id log := rfl

lemma registered_mem_returned {other : String} {record : TerminalRecord} {log : List LogEntry} :
    LogEntry.registered id ∈ .returned other record :: log ↔ .registered id ∈ log := by
  simp

/-! ## Steps that leave no trace -/

/-- The stores, the notices and the calls that are collecting stay as they are. -/
structure SameTrace (s s' : SuspensionState) : Prop where
  pending : ∀ id, s'.isPending id = s.isPending id
  results : ∀ id, s'.InResults id ↔ s.InResults id
  window : ∀ id, s'.InWindow id ↔ s.InWindow id
  notices : ∀ id, noticesSince id s'.log = noticesSince id s.log
  registered : ∀ id, .registered id ∈ s'.log ↔ .registered id ∈ s.log
  collecting : ∀ id, collecting id s'.calls = collecting id s.calls

/-- A step that leaves no trace keeps the invariant when no call for an id whose only trace is the
window gets past the window. -/
lemma NoticeInv.sameTrace {s' : SuspensionState} (h : NoticeInv s) (hsame : SameTrace s s')
    (hpast : ∀ id, .registered id ∈ s.log → ¬ s.InResults id → s.InWindow id →
      (∀ c ∈ s.calls, c.subSessionId = id → c.pastWindow = false) → s.isPending id = false →
        ∀ c ∈ s'.calls, c.subSessionId = id → c.pastWindow = false) : NoticeInv s' where
  fresh id hp := by
    rw [hsame.notices, hsame.collecting]
    exact h.fresh id (hsame.pending id ▸ hp)
  once id hr := by
    rw [hsame.notices, hsame.collecting]
    exact h.once id ((hsame.registered id).1 hr)
  settled id hr hp := by
    have hr' := (hsame.registered id).1 hr
    have hp' : s.isPending id = false := hsame.pending id ▸ hp
    rw [hsame.results, hsame.window]
    by_cases hres : s.InResults id
    · exact .inl hres
    · obtain ⟨hwin, hno⟩ := (h.settled id hr' hp').resolve_left hres
      exact .inr ⟨hwin, hpast id hr' hres hwin hno hp'⟩
  noted id hres := by
    rw [hsame.window, hsame.collecting]
    exact h.noted id ((hsame.results id).1 hres)

/-- A call in the pool that goes to a stage in which it is not collecting. -/
lemma sameTrace_advance (hmem : call ∈ s.calls) (hno : call.isCollecting = false)
    {stage : CallStage} (hstage : ({ call with stage := stage } : TerminalCall).isCollecting = false) :
    SameTrace s (s.advance call stage) where
  pending _ := rfl
  results _ := Iff.rfl
  window _ := Iff.rfl
  notices _ := rfl
  registered _ := Iff.rfl
  collecting id := by
    rw [SuspensionState.advance, collecting_cons, collecting_erase hmem, hno, hstage]

/-- A call in the pool that is not collecting returns `Duplicate`. -/
lemma sameTrace_duplicate (hmem : call ∈ s.calls) (hno : call.isCollecting = false) :
    SameTrace s (s.finish call .duplicate) where
  pending _ := rfl
  results _ := Iff.rfl
  window _ := Iff.rfl
  notices id := by
    rw [SuspensionState.finish, noticesSince_returned]
    simp
  registered id := registered_mem_returned
  collecting id := by
    rw [collecting_erase hmem, hno]
    simp [SuspensionState.finish]

/-! ## One lemma for each event -/

lemma isPending_addPendingTask (other : String) :
    (s.addPendingTask other).isPending id = true ↔ id = other ∨ s.isPending id = true := by
  unfold SuspensionState.addPendingTask SuspensionState.isPending
  cases s.turnSuspension with
  | none => simp
  | some t =>
    simp only [Option.any_some, TurnSuspension.addPending, List.contains_iff_mem]
    split_ifs with hmem
    · exact ⟨.inr, fun h => h.elim (fun heq => heq ▸ hmem) fun h => h⟩
    · rw [List.mem_append, List.mem_singleton, or_comm]

/-- A registration keeps the invariant, if no call collects the task. -/
lemma NoticeInv.addPendingTask (h : NoticeInv s) (other : String)
    (hk : ∀ c ∈ s.calls, c.subSessionId = other → c.isCollecting = false) :
    NoticeInv (s.addPendingTask other) := by
  have hlog : (s.addPendingTask other).log = .registered other :: s.log := rfl
  have hcalls : (s.addPendingTask other).calls = s.calls := rfl
  have hzero : noticesSince other (.registered other :: s.log) = 0 := by simp [noticesSince]
  have hsame : ∀ id, id ≠ other →
      noticesSince id (.registered other :: s.log) = noticesSince id s.log := by
    intro id hne
    rw [noticesSince, if_neg fun heq => hne heq.symm]
  have hresults : ∀ id, (s.addPendingTask other).InResults id ↔ s.InResults id := by
    intro id
    unfold SuspensionState.addPendingTask SuspensionState.InResults
    cases s.turnSuspension with
    | none => simp
    | some t =>
      have hres : (t.addPending other).results = t.results := by
        unfold TurnSuspension.addPending
        split_ifs <;> rfl
      simp [hres]
  refine ⟨fun id hp => ?_, fun id hr => ?_, fun id hr hp => ?_, fun id hres => ?_⟩
  · rw [hlog, hcalls]
    by_cases hid : id = other
    · subst hid
      exact ⟨hzero, collecting_eq_zero hk⟩
    · rw [hsame id hid]
      exact h.fresh id (((isPending_addPendingTask other).1 hp).resolve_left hid)
  · rw [hlog] at hr
    rw [hlog, hcalls]
    by_cases hid : id = other
    · subst hid
      rw [hzero, collecting_eq_zero hk]
      omega
    · rw [hsame id hid]
      refine h.once id ?_
      simpa [hid] using hr
  · rw [hlog] at hr
    have hno : ¬ (id = other ∨ s.isPending id = true) := by
      rw [← isPending_addPendingTask, hp]
      decide
    obtain ⟨hid, hp'⟩ := not_or.1 hno
    rw [hresults]
    exact h.settled id (by simpa [hid] using hr) (by simpa using hp')
  · exact h.noted id ((hresults id).1 hres)

lemma sameTrace_addProgress (other text : String) :
    SameTrace s { s with turnSuspension := s.turnSuspension.map (·.addProgress other text) } where
  pending id := by
    unfold SuspensionState.isPending
    cases s.turnSuspension <;> rfl
  results id := by
    unfold SuspensionState.InResults
    cases s.turnSuspension with
    | none => simp
    | some t => simp [TurnSuspension.addProgress]
  window _ := Iff.rfl
  notices _ := rfl
  registered _ := Iff.rfl
  collecting _ := rfl

/-- A call begins. -/
lemma NoticeInv.look (h : NoticeInv s) (other : String) (status : SubStatus) (content : String)
    (sentMessageCount : Nat) :
    NoticeInv (suspensionStep s (.look other status content sentMessageCount)) := by
  refine h.sameTrace ⟨fun _ => rfl, fun _ => Iff.rfl, fun _ => Iff.rfl, fun _ => rfl,
    fun _ => Iff.rfl, fun id => ?_⟩ fun id _ _ _ hno hp c hc hid => ?_
  · rw [suspensionStep, collecting_cons]
    simp [TerminalCall.isCollecting]
  · rcases List.mem_cons.1 hc with rfl | hc
    · have heq : other = id := hid
      subst heq
      exact hp
    · exact hno c hc hid

/-- Within the window nothing is pruned. -/
lemma prune_eq_self {now : Nat} (hnow : now ≤ recentlyRecordedTerminalWindow)
    (recent : List (String × Nat)) :
    (recent.filter fun entry => now - entry.2 ≤ recentlyRecordedTerminalWindow) = recent := by
  refine List.filter_eq_self.2 fun entry _ => ?_
  rw [decide_eq_true_eq]
  omega

/-- A call looks into the window. -/
lemma NoticeInv.checkWindow (h : NoticeInv s) (hmem : call ∈ s.calls) {now : Nat}
    (hnow : now ≤ recentlyRecordedTerminalWindow) : NoticeInv (s.checkWindow call now) := by
  unfold SuspensionState.checkWindow
  cases hstage : call.stage with
  | looked currentlyPending =>
    have hno : call.isCollecting = false := by simp [TerminalCall.isCollecting, hstage]
    have hadvance : SameTrace s (s.advance call .passed) := sameTrace_advance hmem hno rfl
    cases currentlyPending with
    | true =>
      -- the call was past the window before this section
      refine h.sameTrace hadvance fun id _ _ _ hold _ c hc hid => ?_
      rcases List.mem_cons.1 hc with rfl | hc
      · have hpast := hold call hmem hid
        simp [TerminalCall.pastWindow, hstage] at hpast
      · exact hold c (List.mem_of_mem_erase hc) hid
    | false =>
      simp only [prune_eq_self hnow]
      split_ifs with hwin
      · exact h.sameTrace (sameTrace_duplicate hmem hno) fun id _ _ _ hold _ c hc hid =>
          hold c (List.mem_of_mem_erase hc) hid
      · refine h.sameTrace hadvance fun id _ _ hwindow hold _ c hc hid => ?_
        rcases List.mem_cons.1 hc with rfl | hc
        · obtain ⟨entry, hentry, heq⟩ := hwindow
          refine absurd (List.any_eq_true.2 ⟨entry, hentry, ?_⟩) hwin
          simpa [heq] using hid.symm
        · exact hold c (List.mem_of_mem_erase hc) hid
  | passed => exact h
  | collected snapshot => exact h

/-- A call collects its result, or returns. -/
lemma NoticeInv.collect (h : NoticeInv s) (hmem : call ∈ s.calls) : NoticeInv (s.collect call) := by
  unfold SuspensionState.collect
  cases hstage : call.stage with
  | looked currentlyPending => exact h
  | collected snapshot => exact h
  | passed =>
    have hno : call.isCollecting = false := by simp [TerminalCall.isCollecting, hstage]
    have hpast : call.pastWindow = true := by simp [TerminalCall.pastWindow, hstage]
    cases hsusp : s.turnSuspension with
    | none =>
      -- no registered id is left: the only trace of one would be the window, which the call has passed
      have hnone : ∀ id, ¬ s.InResults id := by
        rintro id ⟨t, ht, -⟩
        rw [hsusp] at ht
        cases ht
      have hpend : ∀ id, s.isPending id = false := by simp [SuspensionState.isPending, hsusp]
      have hunreg : .registered call.subSessionId ∉ s.log := by
        intro hr
        have hout := ((h.settled _ hr (hpend _)).resolve_left (hnone _)).2 call hmem rfl
        rw [hpast] at hout
        cases hout
      have hlog : ∀ id, .registered id ∈ s.log →
          noticesSince id (.returned call.subSessionId .noSuspension :: s.log) =
            noticesSince id s.log := by
        intro id hr
        have hne : ¬ call.subSessionId = id := fun heq => hunreg (heq ▸ hr)
        rw [noticesSince_returned, if_neg fun hcon => hne hcon.1, Nat.zero_add]
      have hcol : ∀ id, collecting id (s.calls.erase call) = collecting id s.calls := by
        intro id
        rw [collecting_erase hmem, hno]
        simp
      refine ⟨fun id hp => ?_, fun id hr => ?_, fun id hr _ => ?_, fun id hres => ?_⟩
      · exact absurd hp (by simp [SuspensionState.isPending, SuspensionState.finish, hsusp])
      · have hr' := registered_mem_returned.1 hr
        exact (hlog id hr').symm ▸ (hcol id).symm ▸ h.once id hr'
      · have hr' := registered_mem_returned.1 hr
        obtain ⟨hwin, hold⟩ := (h.settled id hr' (hpend id)).resolve_left (hnone id)
        exact .inr ⟨hwin, fun c hc hid => hold c (List.mem_of_mem_erase hc) hid⟩
      · exact absurd hres (hnone id)
    | some t =>
      simp only
      split_ifs with hcollected
      · exact h.sameTrace (sameTrace_duplicate hmem hno) fun id _ _ _ hold _ c hc hid =>
          hold c (List.mem_of_mem_erase hc) hid
      · set t' := t.collect call.subSessionId call.status call.content call.sentMessageCount
        set s' := ({ s with turnSuspension := some t' } : SuspensionState).advance call
          (.collected t') with hs'
        have hpend : ∀ id, s'.isPending id = true ↔
            s.isPending id = true ∧ id ≠ call.subSessionId := by
          intro id
          simp [hs', SuspensionState.isPending, SuspensionState.advance, hsusp, t',
            TurnSuspension.collect]
        have hres : ∀ id, s'.InResults id ↔ s.InResults id ∨ id = call.subSessionId := by
          intro id
          simp [hs', SuspensionState.InResults, SuspensionState.advance, hsusp, t',
            TurnSuspension.collect, or_and_right, exists_or, eq_comm]
        have hcol : ∀ id, collecting id s'.calls =
            collecting id s.calls + if id = call.subSessionId then 1 else 0 := by
          intro id
          rw [hs', SuspensionState.advance, collecting_cons, collecting_erase hmem, hno]
          simp [TerminalCall.isCollecting, eq_comm]
        -- a registered id that gets here is pending: its trace would have stopped the call
        have hfresh : .registered call.subSessionId ∈ s.log →
            noticesSince call.subSessionId s.log = 0 ∧ collecting call.subSessionId s.calls = 0 := by
          intro hr
          cases hp : s.isPending call.subSessionId with
          | true => exact h.fresh _ hp
          | false =>
            rcases h.settled _ hr hp with ⟨t₀, ht₀, r, hr₀, hid⟩ | ⟨-, hold⟩
            · rw [hsusp, Option.some.injEq] at ht₀
              subst ht₀
              refine absurd ?_ hcollected
              rw [TurnSuspension.isCollected, Bool.and_eq_true, List.any_eq_true]
              refine ⟨?_, r, hr₀, by simpa using hid⟩
              simpa [SuspensionState.isPending, hsusp] using hp
            · have hout := hold call hmem rfl
              rw [hpast] at hout
              cases hout
        refine ⟨fun id hp => ?_, fun id hr => ?_, fun id hr hp => ?_, fun id hin => ?_⟩
        · obtain ⟨hp', hne⟩ := (hpend id).1 hp
          rw [hcol, if_neg hne]
          exact h.fresh id hp'
        · rw [hcol]
          by_cases hid : id = call.subSessionId
          · subst hid
            obtain ⟨hn, hc⟩ := hfresh hr
            have hlog : s'.log = s.log := rfl
            rw [hlog, hn, hc]
            simp
          · rw [if_neg hid]
            exact h.once id hr
        · rw [hres]
          by_cases hid : id = call.subSessionId
          · exact .inl (.inr hid)
          · have hp' : s.isPending id = false := by
              rw [Bool.eq_false_iff]
              intro htrue
              rw [(hpend id).2 ⟨htrue, hid⟩] at hp
              cases hp
            rcases h.settled id hr hp' with hin | ⟨hwin, hold⟩
            · exact .inl (.inl hin)
            · refine .inr ⟨hwin, fun c hc hcid => ?_⟩
              rcases List.mem_cons.1 hc with rfl | hc
              · exact absurd hcid.symm hid
              · exact hold c (List.mem_of_mem_erase hc) hcid
        · rw [hcol]
          rcases (hres id).1 hin with hin | hid
          · exact (h.noted id hin).imp_right fun hne => by omega
          · rw [if_pos hid]
            exact .inr (by omega)

/-- A call notes its id and returns. -/
lemma NoticeInv.note (h : NoticeInv s) (hmem : call ∈ s.calls) (now : Nat) :
    NoticeInv (s.note call now) := by
  unfold SuspensionState.note
  cases hstage : call.stage with
  | looked currentlyPending => exact h
  | passed => exact h
  | collected snapshot =>
    have hyes : call.isCollecting = true := by simp [TerminalCall.isCollecting, hstage]
    dsimp only
    set s' := ({ s with recentlyRecordedTerminals :=
      s.recentlyRecordedTerminals ++ [(call.subSessionId, now)] } : SuspensionState).finish call
        (.recorded snapshot) with hs'
    have hwin : ∀ id, s'.InWindow id ↔ s.InWindow id ∨ id = call.subSessionId := by
      intro id
      simp [hs', SuspensionState.InWindow, SuspensionState.finish, or_and_right, exists_or, eq_comm]
    -- what the notices gain, the calls that are collecting lose
    have hnotices : ∀ id, noticesSince id s'.log =
        noticesSince id s.log + if id = call.subSessionId then 1 else 0 := by
      intro id
      rw [hs', SuspensionState.finish, noticesSince_returned, Nat.add_comm]
      simp [eq_comm]
    have hcol : ∀ id, collecting id s.calls =
        collecting id s'.calls + if id = call.subSessionId then 1 else 0 := by
      intro id
      rw [collecting_erase hmem, hyes]
      simp [hs', SuspensionState.finish, eq_comm]
    refine ⟨fun id hp => ?_, fun id hr => ?_, fun id hr hp => ?_, fun id hin => ?_⟩
    · obtain ⟨hn, hc⟩ := h.fresh id hp
      have hc' := hcol id
      rw [hnotices]
      omega
    · have honce := h.once id (registered_mem_returned.1 hr)
      have hc' := hcol id
      rw [hnotices]
      omega
    · rw [hwin]
      rcases h.settled id (registered_mem_returned.1 hr) hp with hin | ⟨hw, hold⟩
      · exact .inl hin
      · exact .inr ⟨.inl hw, fun c hc hid => hold c (List.mem_of_mem_erase hc) hid⟩
    · rw [hwin]
      by_cases hid : id = call.subSessionId
      · exact .inl (.inr hid)
      · have hc' := hcol id
        rw [if_neg hid, Nat.add_zero] at hc'
        rw [← hc']
        exact (h.noted id hin).imp_left .inl

/-- The suspension is dropped. -/
lemma NoticeInv.clear (h : NoticeInv s) {noticeTurnsInFlight : Bool}
    (hclear : s.clears noticeTurnsInFlight = true)
    (hk : ∀ c ∈ s.calls, .registered c.subSessionId ∈ s.log → c.pastWindow = false) :
    NoticeInv { s with turnSuspension := none } := by
  have hpend : ∀ id, s.isPending id = false := by
    intro id
    unfold SuspensionState.clears at hclear
    unfold SuspensionState.isPending
    cases hs : s.turnSuspension with
    | none => rfl
    | some t =>
      rw [hs, Option.any_some, Bool.and_eq_true, List.isEmpty_iff] at hclear
      simp [hclear.1]
  refine ⟨fun id hp => ?_, h.once, fun id hr _ => ?_, fun id hin => ?_⟩
  · cases hp
  · have hno : ∀ c ∈ s.calls, c.subSessionId = id → c.pastWindow = false := by
      rintro c hc rfl
      exact hk c hc hr
    refine .inr ⟨?_, hno⟩
    rcases h.settled id hr (hpend id) with hin | ⟨hwin, -⟩
    · refine (h.noted id hin).resolve_right fun hne => hne (collecting_eq_zero fun c hc hid => ?_)
      rw [Bool.eq_false_iff]
      intro hcol
      have hout := hno c hc hid
      rw [isCollecting_le_pastWindow hcol] at hout
      cases hout
    · exact hwin
  · obtain ⟨t, ht, -⟩ := hin
    cases ht

/-- **Every event that meets the condition keeps the invariant.** -/
theorem NoticeInv.step (h : NoticeInv s) {e : SuspensionEvent} (hwin : WithinWindow e)
    (hk : KeepsOneNotice s e) : NoticeInv (suspensionStep s e) := by
  cases e with
  | addPendingTask other => exact h.addPendingTask other hk
  | addProgress other text =>
    exact h.sameTrace (sameTrace_addProgress other text) fun _ _ _ _ hold _ => hold
  | look other status content sentMessageCount => exact h.look other status content sentMessageCount
  | checkWindow call now =>
    rw [suspensionStep]
    split_ifs with hmem
    · exact h.checkWindow hmem hwin
    · exact h
  | collect call =>
    rw [suspensionStep]
    split_ifs with hmem
    · exact h.collect hmem
    · exact h
  | note call now =>
    rw [suspensionStep]
    split_ifs with hmem
    · exact h.note hmem now
    · exact h
  | clear noticeTurnsInFlight =>
    rw [suspensionStep]
    split_ifs with hclear
    · exact h.clear hclear (hk hclear)
    · exact h

end

lemma noticeInv_new : NoticeInv {} where
  fresh _ hp := by cases hp
  once _ hr := by cases hr
  settled _ hr := by cases hr
  noted _ hin := by
    obtain ⟨t, ht, -⟩ := hin
    cases ht

/-- **At most one notice for a terminal event**: in a run within the window, in which the suspension
is dropped only while no call for a registered id is past the window, and an id is registered only
while no call for it has collected and not returned, at most one call for an id returns something
other than `Duplicate` after each of its registrations. -/
theorem atMostOneNotice_always (es : List SuspensionEvent) (hwin : ∀ e ∈ es, WithinWindow e)
    (h : Run.EachStep suspensionStep KeepsOneNotice {} es) :
    Run.Always suspensionStep AtMostOneNotice {} es := by
  refine (Run.always_of_step (P := NoticeInv) (fun s e hs hC => hs.step hC.1 hC.2) noticeInv_new
    (h.and_mem hwin)).imp fun s hs id hr => ?_
  have honce := hs.once id hr
  omega

/-! ## A suspension that is dropped between two sections -/

namespace ClearBetween

/-- A call for the task at a stage. -/
def call (stage : CallStage) : TerminalCall :=
  { subSessionId := "t", status := .completed, content := "done", sentMessageCount := 0
    stage := stage }

/-- What the first call has collected. -/
def collected : TurnSuspension :=
  ({ pending := ["t"] } : TurnSuspension).collect "t" .completed "done" 0

/-- The first call has collected its result when a second one looks into the window; then the
suspension is dropped. -/
def run : List SuspensionEvent :=
  [ .addPendingTask "t",
    .look "t" .completed "done" 0,
    .checkWindow (call (.looked true)) 0,
    .collect (call .passed),
    .look "t" .completed "done" 0,
    .checkWindow (call (.looked false)) 0,
    .clear false,
    .collect (call .passed),
    .note (call (.collected collected)) 0 ]

/-- One call, which has returned when the suspension is dropped, and one more. -/
def quiet : List SuspensionEvent :=
  [ .addPendingTask "t",
    .look "t" .completed "done" 0,
    .checkWindow (call (.looked true)) 0,
    .collect (call .passed),
    .note (call (.collected collected)) 0,
    .clear false,
    .look "t" .completed "done" 0,
    .checkWindow (call (.looked false)) 0 ]

end ClearBetween

/-- A second call after the suspension is gone returns `Duplicate`. -/
theorem atMostOneNotice_always_quiet :
    Run.Always suspensionStep AtMostOneNotice {} ClearBetween.quiet := by
  refine atMostOneNotice_always ClearBetween.quiet ?_ ?_
  · simp [ClearBetween.quiet, WithinWindow]
  · refine ⟨?_, trivial, trivial, trivial, trivial, fun _ => ?_, trivial, trivial, trivial⟩
    · exact fun c hc => by cases hc
    · have hnil : ((Run.exec suspensionStep {} (ClearBetween.quiet.take 5)).calls) = [] := by decide
      exact fun c hc => by
        have hc' : c ∈ (Run.exec suspensionStep {} (ClearBetween.quiet.take 5)).calls := hc
        rw [hnil] at hc'
        cases hc'

/-- The second call finds no suspension and the first one has recorded its result: two notices. -/
theorem not_atMostOneNotice_clearBetween :
    ¬ ∀ es, (∀ e ∈ es, WithinWindow e) → Run.Always suspensionStep AtMostOneNotice {} es := by
  intro h
  have hrun := (h ClearBetween.run (by simp [ClearBetween.run, WithinWindow])).last "t" (by decide)
  exact absurd hrun (by decide)

end MyClaw
