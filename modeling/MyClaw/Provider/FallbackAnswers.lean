import MyClaw.Provider.Fallback

set_option autoImplicit false

/-!
# One answer for each request

Whether the content that a request of a fallback chain forwards comes from one attempt.  A retry of
the same model looks at whether something was sent already; a rotation of the credential and a
failover do not, so that the answer of the next attempt is appended to what was sent.

## Main definitions

* `SingleAnswer` — all content comes from the attempt that was announced last.
* `FallbackWorld.KeepsAnswer` — no attempt starts its answer after another one was given up
  with content sent.

## Main results

* `FallbackChatProvider.singleAnswer_iff` — every request of a run forwards one answer
  exactly when every step keeps it.
* `FallbackChatProvider.failover_mixes_answers` — a failover in the middle of a stream, and
  the response that the caller makes of it.
-/

namespace MyClaw

/-- The attempt of the last announcement. -/
def lastAnnounced (sent : List SentEvent) : Option ℕ :=
  (sent.filter (·.event.isAnnouncement)).getLast?.bind (·.attempt)

/-- All content comes from one attempt, the one announced last. -/
def SingleAnswer (sent : List SentEvent) : Prop :=
  ∀ x ∈ sent, x.event.isContent → x.attempt.isSome ∧ x.attempt = lastAnnounced sent

instance (sent : List SentEvent) : Decidable (SingleAnswer sent) := by
  unfold SingleAnswer
  infer_instance

/-- Some content was sent. -/
def HasContent (sent : List SentEvent) : Prop := ∃ x ∈ sent, x.event.isContent

/-- The request is between two streams. -/
def ChatPoint.isBetween : ChatPoint → Bool
  | .streaming .. | .finished _ => false
  | _ => true

/-- The input is the first event of an attempt that is not an error. -/
def ChatTask.startsAnswer (t : ChatTask) (input : ChatInput) : Bool :=
  match t.point, input with
  | .streaming _ _ false, .event _ e => !e.isFailure
  | _, _ => false

/-- The step does not start an answer after one that was given up with content sent. -/
def FallbackWorld.KeepsAnswer (w : FallbackWorld) : FallbackEvent → Prop
  | .task i input => ∀ t ∈ w.tasks[i]?, t.startsAnswer input → t.abandoned = false
  | _ => True

/-! ## What was sent, with one more event -/

section Sent

variable {sent : List SentEvent} {x : SentEvent}

lemma lastAnnounced_append_announcement (h : x.event.isAnnouncement) :
    lastAnnounced (sent ++ [x]) = x.attempt := by
  simp [lastAnnounced, List.filter_append, h]

lemma lastAnnounced_append_of_not (h : x.event.isAnnouncement = false) :
    lastAnnounced (sent ++ [x]) = lastAnnounced sent := by
  simp [lastAnnounced, List.filter_append, h]

lemma hasContent_append :
    HasContent (sent ++ [x]) ↔ HasContent sent ∨ x.event.isContent := by
  simp [HasContent, or_and_right, exists_or]

/-- An event that is neither content nor an announcement makes no difference. -/
lemma singleAnswer_append_of_quiet (hc : x.event.isContent = false)
    (ha : x.event.isAnnouncement = false) : SingleAnswer (sent ++ [x]) ↔ SingleAnswer sent := by
  unfold SingleAnswer
  rw [lastAnnounced_append_of_not ha]
  simp [or_imp, forall_and, hc]

/-- A further event of the attempt that was announced last. -/
lemma singleAnswer_append_of_last {a : ℕ} (hx : x.attempt = some a)
    (hlast : lastAnnounced sent = some a) (h : SingleAnswer sent) : SingleAnswer (sent ++ [x]) := by
  have hlast' : lastAnnounced (sent ++ [x]) = some a := by
    by_cases ha : x.event.isAnnouncement
    · rw [lastAnnounced_append_announcement ha, hx]
    · rw [lastAnnounced_append_of_not (by simpa using ha), hlast]
  intro y hy hcontent
  rw [hlast']
  rcases List.mem_append.1 hy with hy | hy
  · exact hlast ▸ h y hy hcontent
  · exact List.mem_singleton.1 hy ▸ ⟨by simp [hx], hx⟩

/-- The announcement of an attempt that has sent nothing leaves one answer exactly when there is no
content yet. -/
lemma singleAnswer_append_announcement {a : ℕ} (ha : x.event.isAnnouncement)
    (hc : x.event.isContent = false) (hx : x.attempt = some a)
    (hfresh : ∀ y ∈ sent, ∀ b ∈ y.attempt, b < a) :
    SingleAnswer (sent ++ [x]) ↔ ¬ HasContent sent := by
  unfold SingleAnswer
  rw [lastAnnounced_append_announcement ha, hx]
  constructor
  · rintro h ⟨y, hy, hcontent⟩
    obtain ⟨-, hattempt⟩ := h y (List.mem_append_left _ hy) hcontent
    exact absurd (hfresh y hy a hattempt) (lt_irrefl a)
  · intro h y hy hcontent
    rcases List.mem_append.1 hy with hy | hy
    · exact absurd ⟨y, hy, hcontent⟩ h
    · rw [List.mem_singleton.1 hy, hc] at hcontent
      cases hcontent

end Sent

/-! ## The numbers of the attempts -/

/-- What a request has sent, against its attempts. -/
structure AnswerInv (t : ChatTask) : Prop where
  le_attempts : ∀ x ∈ t.sent, ∀ a ∈ x.attempt, a ≤ t.attempts
  fresh : ∀ lap saw, t.point = .streaming lap saw false →
    saw = false ∧ t.answering = false ∧ ∀ x ∈ t.sent, ∀ a ∈ x.attempt, a < t.attempts
  announced : ∀ lap saw, t.point = .streaming lap saw true →
    saw = true ∧ lastAnnounced t.sent = some t.attempts
  content : HasContent t.sent ↔ t.abandoned ∨ t.answering
  between : t.point.isBetween → t.answering → t.abandoned

namespace AnswerInv

variable {t u : ChatTask}

lemma start (chain : List FallbackEntry) : AnswerInv (ChatTask.start chain) where
  le_attempts := nofun
  fresh := nofun
  announced := nofun
  content := by simp [ChatTask.start, HasContent]
  between := nofun

/-- Outside a stream there is no attempt at work. -/
lemma of_not_streaming (hpoint : ∀ lap saw announced, u.point ≠ .streaming lap saw announced)
    (hle : ∀ x ∈ u.sent, ∀ a ∈ x.attempt, a ≤ u.attempts)
    (hcontent : HasContent u.sent ↔ u.abandoned ∨ u.answering)
    (hbetween : u.point.isBetween → u.answering → u.abandoned) : AnswerInv u where
  le_attempts := hle
  fresh lap saw heq := absurd heq (hpoint lap saw false)
  announced lap saw heq := absurd heq (hpoint lap saw true)
  content := hcontent
  between := hbetween

/-- Content was sent exactly if some was given up, before an attempt is at work. -/
lemma hasContent_iff_abandoned (h : AnswerInv t) (hnone : t.answering → t.abandoned) :
    HasContent t.sent ↔ t.abandoned := by
  rw [h.content]
  exact ⟨fun ha => ha.elim id hnone, .inl⟩

/-- A step to a place between two streams that sends nothing, and gives up what the attempt sent. -/
lemma leave (h : AnswerInv t) (hsent : u.sent = t.sent) (hattempts : u.attempts = t.attempts)
    (hanswering : u.answering = t.answering)
    (habandoned : u.abandoned = (t.abandoned || t.answering)) (hpoint : u.point.isBetween) :
    AnswerInv u := by
  refine of_not_streaming (fun lap saw announced heq => ?_) ?_ ?_ fun _ hans => ?_
  · rw [heq] at hpoint
    cases hpoint
  · rw [hsent, hattempts]
    exact h.le_attempts
  · rw [hsent, hanswering, habandoned, h.content, Bool.or_eq_true, or_assoc, or_self]
  · rw [habandoned, ← hanswering, hans, Bool.or_true]

/-- The same where there is nothing to give up. -/
lemma move (h : AnswerInv t) (hsent : u.sent = t.sent) (hattempts : u.attempts = t.attempts)
    (hanswering : u.answering = t.answering) (habandoned : u.abandoned = t.abandoned)
    (hnone : t.answering → t.abandoned) (hpoint : u.point.isBetween) : AnswerInv u := by
  refine h.leave hsent hattempts hanswering ?_ hpoint
  rw [habandoned]
  cases ha : t.answering with
  | false => exact (Bool.or_false _).symm
  | true => rw [hnone ha, Bool.or_true]

/-- A request that ends with an error of its own or of the attempt. -/
lemma finish {x : SentEvent} {result : ChatEnd} (h : AnswerInv t)
    (hsent : u.sent = t.sent ++ [x]) (hx : ∀ a ∈ x.attempt, a ≤ t.attempts)
    (hc : x.event.isContent = false) (hattempts : u.attempts = t.attempts)
    (hanswering : u.answering = t.answering) (habandoned : u.abandoned = t.abandoned)
    (hpoint : u.point = .finished result) : AnswerInv u := by
  refine of_not_streaming (fun lap saw announced heq => ?_) (fun y hy a ha => ?_) ?_
    fun hbetween => ?_
  · rw [hpoint] at heq
    cases heq
  · rw [hattempts]
    rcases List.mem_append.1 (hsent ▸ hy) with hy | hy
    · exact h.le_attempts y hy a ha
    · exact hx a (List.mem_singleton.1 hy ▸ ha)
  · rw [hsent, hasContent_append, hanswering, habandoned, h.content, hc]
    simp
  · rw [hpoint] at hbetween
    cases hbetween

/-- The end of a stream. -/
lemma complete (h : AnswerInv t) : AnswerInv { t with point := .finished .completed } where
  le_attempts := h.le_attempts
  fresh := nofun
  announced := nofun
  content := h.content
  between := nofun

lemma refuse (h : AnswerInv t) (error : ClassifiedError) {e : StreamEvent}
    (hc : e.isContent = false) : AnswerInv (t.refuse error e) :=
  h.finish rfl (by simp) hc rfl rfl rfl rfl

lemma endChain (h : AnswerInv t) (now : ℕ) : AnswerInv (t.endChain now) :=
  h.finish rfl (by simp) rfl rfl rfl rfl rfl

lemma pass (h : AnswerInv t) (entry : FallbackEntry) (outcome : Outcome)
    (rest : List FallbackEntry) : AnswerInv (t.pass entry outcome rest) :=
  h.leave rfl rfl rfl rfl rfl

/-- A request whose task has panicked. -/
lemma crash (h : AnswerInv t) (why : Panic) : AnswerInv (t.crash why) where
  le_attempts := h.le_attempts
  fresh := nofun
  announced := nofun
  content := h.content
  between := nofun

/-- The entry is passed after a call that may panic. -/
lemma afterPass (h : AnswerInv t) (call : Except Panic Unit × FallbackShared) (entry : FallbackEntry)
    (outcome : Outcome) (rest : List FallbackEntry) :
    AnswerInv (t.after call (t.pass entry outcome rest)).2 :=
  ChatTask.after_of (P := fun p => AnswerInv p.2) (h.pass entry outcome rest) h.crash

lemma failOver (h : AnswerInv t) (sh : FallbackShared) (env : FallbackEnv) (now : ℕ) (lap : Lap)
    (error : ClassifiedError) {e : StreamEvent} (hc : e.isContent = false) :
    AnswerInv (t.failOver sh env now lap error e).2 := by
  unfold ChatTask.failOver
  split
  · exact h.afterPass ..
  · exact h.refuse error hc

lemma gate (h : AnswerInv t) (hnone : t.answering → t.abandoned) (sh : FallbackShared) (now : ℕ)
    (entry : FallbackEntry) (rest : List FallbackEntry) :
    AnswerInv (t.gate sh now entry rest).2 := by
  have htry : AnswerInv (t.tryEntry sh entry rest) := by
    unfold ChatTask.tryEntry
    dsimp only
    split
    · exact ⟨h.le_attempts, nofun, nofun, h.content, nofun⟩
    · refine h.move rfl rfl rfl rfl hnone ?_
      dsimp only
      split <;> rfl
  unfold ChatTask.gate
  split
  · exact h.crash .poison
  · split
    · split
      · exact h.move rfl rfl rfl rfl hnone rfl
      · exact htry
    · exact htry

/-- The call of a provider begins an attempt that has sent nothing. -/
lemma opened (h : AnswerInv t) (hnone : t.answering → t.abandoned) {key : Option String}
    (hpoint : t.point.isBetween) :
    AnswerInv { t with attempts := t.attempts + 1, usedKey := key, answering := false } := by
  refine of_not_streaming (fun lap saw announced heq => ?_) (fun x hx a ha => ?_) ?_
    fun _ hans => absurd hans Bool.false_ne_true
  · rw [show t.point = _ from heq] at hpoint
    cases hpoint
  · exact (h.le_attempts x hx a ha).trans (Nat.le_succ _)
  · simpa using h.hasContent_iff_abandoned hnone

/-- The stream of an attempt is there. -/
lemma streaming (h : AnswerInv t) (hnone : t.answering → t.abandoned) {key : Option String}
    (lap : Lap) :
    AnswerInv { t with
      attempts := t.attempts + 1, usedKey := key, answering := false
      point := .streaming lap false false } where
  le_attempts x hx a ha := (h.le_attempts x hx a ha).trans (Nat.le_succ _)
  fresh lap' saw heq := by
    injection heq with _ hsaw
    exact ⟨hsaw.symm, rfl, fun x hx a ha => Nat.lt_succ_of_le (h.le_attempts x hx a ha)⟩
  announced lap' saw heq := by
    injection heq with _ _ hann
    cases hann
  content := by simpa using h.hasContent_iff_abandoned hnone
  between hpoint := by cases hpoint

/-- A retry has nothing to give up. -/
lemma retryOrFailOver (h : AnswerInv t) {saw : Bool} (hnone : saw = false → t.answering →
    t.abandoned) (sh : FallbackShared) (env : FallbackEnv) (now : ℕ) (lap : Lap)
    (error : ClassifiedError) {e : StreamEvent} (hc : e.isContent = false) :
    AnswerInv (t.retryOrFailOver sh env now lap saw error e).2 := by
  unfold ChatTask.retryOrFailOver
  split
  · rename_i hretry
    have hsaw : saw = false := by simpa using (Bool.and_eq_true_iff.1 hretry).2
    exact h.move rfl rfl rfl rfl (hnone hsaw) rfl
  · exact h.failOver _ _ _ _ _ hc

/-- An error in the stream: only a rotation and a failover leave content behind. -/
lemma streamFailed (h : AnswerInv t) {lap : Lap} {saw announced : Bool}
    (hpoint : t.point = .streaming lap saw announced) (sh : FallbackShared) (env : FallbackEnv)
    (m : Moment) (status : ℕ) (text : String) {e : StreamEvent} (hc : e.isContent = false) :
    AnswerInv (t.streamFailed sh env m lap saw status text e).2 := by
  have hnone : saw = false → t.answering → t.abandoned := by
    intro hsaw hanswering
    cases announced with
    | false =>
      rw [(h.fresh _ _ hpoint).2.1] at hanswering
      cases hanswering
    | true => exact absurd (hsaw ▸ (h.announced _ _ hpoint).1) Bool.false_ne_true
  dsimp only [ChatTask.streamFailed]
  split
  · split
    · exact h.leave rfl rfl rfl rfl rfl
    · exact h.retryOrFailOver hnone _ _ _ _ _ hc
  · exact h.retryOrFailOver hnone _ _ _ _ _ hc

/-- An event is forwarded. -/
lemma forward (h : AnswerInv t) {lap : Lap} {saw announced : Bool}
    (hpoint : t.point = .streaming lap saw announced) (e : StreamEvent) :
    AnswerInv (t.forward lap announced e) where
  le_attempts x hx a ha := by
    rcases ChatTask.mem_sent_forward hx with hx | hx
    · exact h.le_attempts x hx a ha
    · rw [hx] at ha
      exact (Option.some.inj ha).ge
  fresh lap' saw' heq := by
    injection heq with _ _ hann
    cases hann
  announced lap' saw' heq := by
    injection heq with _ hsaw
    refine ⟨hsaw.symm, ?_⟩
    have hlast : lastAnnounced (t.forward lap announced e).sent = some t.attempts := by
      by_cases he : e.isAnnouncement
      · exact lastAnnounced_append_announcement he
      · refine (lastAnnounced_append_of_not (by simpa using he)).trans ?_
        cases announced with
        | false => exact lastAnnounced_append_announcement rfl
        | true => simpa using (h.announced _ _ hpoint).2
    exact hlast
  content := by
    have hsent : HasContent (t.forward lap announced e).sent
        ↔ HasContent t.sent ∨ e.isContent := by
      cases announced with
      | false =>
        rw [ChatTask.sent_forward_first, hasContent_append, hasContent_append]
        simp [StreamEvent.isContent]
      | true => rw [ChatTask.sent_forward_next, hasContent_append]
    rw [hsent, h.content, or_assoc]
    simp [ChatTask.forward]
  between hbetween := by cases hbetween

end AnswerInv

/-- Every step keeps the numbers of the attempts. -/
lemma AnswerInv.step {t : ChatTask} (h : AnswerInv t) (sh : FallbackShared) (env : FallbackEnv)
    (input : ChatInput) : AnswerInv (t.step sh env input).2 := by
  have hnone : t.point.isBetween → t.answering → t.abandoned := h.between
  unfold ChatTask.step
  split
  · exact h.endChain _
  · rename_i hpoint
    exact h.gate (hnone (by rw [hpoint]; rfl)) ..
  · rename_i lap m error hpoint
    have hb : t.point.isBetween := by rw [hpoint]; rfl
    cases error with
    | some text => exact (h.opened (hnone hb) hb).retryOrFailOver nofun _ _ _ _ _ rfl
    | none => exact h.streaming (hnone hb) lap
  · rename_i hpoint
    exact h.streamFailed hpoint _ _ _ _ _ rfl
  · rename_i hpoint
    exact h.streamFailed hpoint _ _ _ _ _ rfl
  · rename_i hpoint
    exact h.forward hpoint _
  · exact h.complete
  · rename_i r oldKey m hpoint
    have hnext : AnswerInv { t with point := .choosing r } :=
      h.move rfl rfl rfl rfl (hnone (by rw [hpoint]; rfl)) rfl
    exact ChatTask.after_of (P := fun p => AnswerInv p.2) hnext h.crash
  · rename_i hpoint
    unfold ChatTask.choose
    split
    · exact h.crash .poison
    · refine h.move rfl rfl rfl rfl (hnone (by rw [hpoint]; rfl)) ?_
      dsimp only
      split <;> rfl
  · rename_i hpoint
    refine h.move rfl rfl rfl rfl (hnone (by rw [hpoint]; rfl)) ?_
    dsimp only [ChatTask.setKey]
    split <;> rfl
  · exact h.afterPass ..
  · exact h.afterPass ..
  · exact h

/-! ## One answer -/

/-- Nothing more was sent, or one error. -/
def AtMostError (sent sent' : List SentEvent) : Prop :=
  sent' = sent ∨ ∃ x : SentEvent, x.event.isFailure ∧ sent' = sent ++ [x]

/-- An error leaves one answer where there was one. -/
lemma AtMostError.singleAnswer_congr {sent sent' : List SentEvent} (h : AtMostError sent sent') :
    SingleAnswer sent' ↔ SingleAnswer sent := by
  obtain rfl | ⟨x, hx, rfl⟩ := h
  · exact Iff.rfl
  · cases he : x.event <;> rw [he] at hx <;>
      first | exact singleAnswer_append_of_quiet (by rw [he]; rfl) (by rw [he]; rfl) | cases hx

section Quiet

variable {t : ChatTask} {sh : FallbackShared} {env : FallbackEnv}

/-- A call that may panic sends nothing. -/
lemma sent_after {call : Except Panic Unit × FallbackShared} {next : ChatTask}
    (hnext : next.sent = t.sent) : (t.after call next).2.sent = t.sent :=
  ChatTask.after_of (P := fun p => p.2.sent = t.sent) hnext fun _ => rfl

lemma atMostError_gate {now : ℕ} {entry : FallbackEntry} {rest : List FallbackEntry} :
    AtMostError t.sent (t.gate sh now entry rest).2.sent := by
  unfold ChatTask.gate
  split
  · exact .inl rfl
  · split
    · split
      · exact .inl rfl
      · exact .inl rfl
    · exact .inl rfl

lemma atMostError_failOver {now : ℕ} {lap : Lap} {error : ClassifiedError} {e : StreamEvent}
    (he : e.isFailure) : AtMostError t.sent (t.failOver sh env now lap error e).2.sent := by
  unfold ChatTask.failOver
  split
  · exact .inl (sent_after rfl)
  · exact .inr ⟨_, he, rfl⟩

lemma atMostError_retryOrFailOver {now : ℕ} {lap : Lap} {saw : Bool} {error : ClassifiedError}
    {e : StreamEvent} (he : e.isFailure) :
    AtMostError t.sent (t.retryOrFailOver sh env now lap saw error e).2.sent := by
  unfold ChatTask.retryOrFailOver
  split
  · exact .inl rfl
  · exact atMostError_failOver he

lemma atMostError_streamFailed {m : Moment} {lap : Lap} {saw : Bool} {status : ℕ} {text : String}
    {e : StreamEvent} (he : e.isFailure) :
    AtMostError t.sent (t.streamFailed sh env m lap saw status text e).2.sent := by
  dsimp only [ChatTask.streamFailed]
  split
  · split
    · exact .inl rfl
    · exact atMostError_retryOrFailOver he
  · exact atMostError_retryOrFailOver he

/-- A step that forwards nothing sends one error at most. -/
lemma atMostError_step {input : ChatInput} (hquiet : ∀ lap saw announced m e,
    t.point = .streaming lap saw announced → input = .event m e → e.isFailure) :
    AtMostError t.sent (t.step sh env input).2.sent := by
  unfold ChatTask.step
  split
  · exact .inr ⟨_, rfl, rfl⟩
  · exact atMostError_gate
  · rename_i error _
    cases error with
    | some text => exact atMostError_retryOrFailOver rfl
    | none => exact .inl rfl
  · exact atMostError_streamFailed rfl
  · exact atMostError_streamFailed rfl
  · rename_i lap saw announced m e hhttp herror hpoint
    have hfail : e.isFailure := hquiet _ _ _ m e hpoint rfl
    cases e with
    | error message => exact absurd rfl (herror message)
    | httpError status message => exact absurd rfl (hhttp status message)
    | _ => cases hfail
  · exact .inl rfl
  · exact .inl (sent_after rfl)
  · unfold ChatTask.choose
    split <;> exact .inl rfl
  · exact .inl rfl
  · exact .inl (sent_after rfl)
  · exact .inl (sent_after rfl)
  · exact .inl rfl

end Quiet

/-- A forwarded event is one that is not an error. -/
lemma step_forward {t : ChatTask} {lap : Lap} {saw announced : Bool}
    (hpoint : t.point = .streaming lap saw announced) {e : StreamEvent} (he : e.isFailure = false)
    (sh : FallbackShared) (env : FallbackEnv) (m : Moment) :
    t.step sh env (.event m e) = (sh, t.forward lap announced e) := by
  unfold ChatTask.step
  rw [hpoint]
  cases e <;> first | rfl | cases he

/-- The first event of an attempt leaves one answer exactly when there was no content. -/
lemma singleAnswer_forward_first_iff {t : ChatTask} {lap : Lap} {e : StreamEvent}
    (hfresh : ∀ x ∈ t.sent, ∀ a ∈ x.attempt, a < t.attempts) :
    SingleAnswer (t.forward lap false e).sent ↔ ¬ HasContent t.sent := by
  have hannounced := singleAnswer_append_announcement
    (x := ⟨some t.attempts, .modelUsed lap.entry.modelId⟩) rfl rfl rfl hfresh
  rw [ChatTask.sent_forward_first]
  constructor
  · rintro hall ⟨y, hy, hcontent⟩
    have hlast : lastAnnounced (t.sent ++ [⟨some t.attempts, .modelUsed lap.entry.modelId⟩]
        ++ [⟨some t.attempts, e⟩]) = some t.attempts := by
      by_cases ha : e.isAnnouncement
      · exact lastAnnounced_append_announcement ha
      · rw [lastAnnounced_append_of_not (by simpa using ha)]
        exact lastAnnounced_append_announcement rfl
    obtain ⟨-, hattempt⟩ := hall y (by simp [hy]) hcontent
    exact absurd (hfresh y hy _ (hattempt.trans hlast)) (lt_irrefl _)
  · intro hnone
    exact singleAnswer_append_of_last rfl (lastAnnounced_append_announcement rfl)
      (hannounced.2 hnone)

/-- **The step**: from one answer, a step leads to one answer exactly when it does not start another
answer after content was given up. -/
lemma singleAnswer_step_iff {t : ChatTask} (h : AnswerInv t) (hone : SingleAnswer t.sent)
    (sh : FallbackShared) (env : FallbackEnv) (input : ChatInput) :
    SingleAnswer (t.step sh env input).2.sent
      ↔ (t.startsAnswer input → t.abandoned = false) := by
  by_cases hforward : ∃ lap saw announced m e, t.point = .streaming lap saw announced
      ∧ input = .event m e ∧ e.isFailure = false
  · obtain ⟨lap, saw, announced, m, e, hpoint, rfl, he⟩ := hforward
    rw [step_forward hpoint he]
    cases announced with
    | false =>
      obtain ⟨-, hanswering, hfresh⟩ := h.fresh _ _ hpoint
      have hstarts : t.startsAnswer (.event m e) = true := by
        simp [ChatTask.startsAnswer, hpoint, he]
      rw [singleAnswer_forward_first_iff hfresh, h.content, hanswering, hstarts]
      simp
    | true =>
      have hstarts : t.startsAnswer (.event m e) = false := by
        simp [ChatTask.startsAnswer, hpoint]
      rw [ChatTask.sent_forward_next, hstarts]
      exact iff_of_true (singleAnswer_append_of_last rfl (h.announced _ _ hpoint).2 hone) nofun
  · have hquiet : ∀ lap saw announced m e, t.point = .streaming lap saw announced →
        input = .event m e → e.isFailure := by
      intro lap saw announced m e hpoint hinput
      by_contra he
      exact hforward ⟨lap, saw, announced, m, e, hpoint, hinput, by simpa using he⟩
    have hstarts : t.startsAnswer input = false := by
      by_contra hstarts
      unfold ChatTask.startsAnswer at hstarts
      split at hstarts
      · rename_i hpoint
        exact hstarts (by rw [hquiet _ _ _ _ _ hpoint rfl]; rfl)
      · exact hstarts rfl
    rw [(atMostError_step hquiet).singleAnswer_congr, hstarts]
    exact iff_of_true hone nofun

/-! ## The response of the caller -/

namespace FallbackChatProvider

variable (fb : FallbackChatProvider) (env : FallbackEnv)

/-- **One answer**: in a run of the requests of a chain, every request forwards the content of a
single attempt, the one announced last, exactly when no attempt starts its answer after an attempt
of the same request was given up with content sent. -/
theorem singleAnswer_iff (pools : ℕ → CredentialPool) (keys : ℕ → String)
    (es : List FallbackEvent) :
    Run.Always (fb.step env) (fun w => ∀ t ∈ w.tasks, SingleAnswer t.sent)
        (FallbackWorld.start pools keys) es
      ↔ Run.EachStep (fb.step env) FallbackWorld.KeepsAnswer
        (FallbackWorld.start pools keys) es := by
  refine Run.always_iff_eachStep (I := fun w => ∀ t ∈ w.tasks, AnswerInv t) ?_ ?_
    (by simp) (by simp)
  · exact fun w e h => forall_tasks_step (.start _) (fun t input ht => ht.step _ _ _) e h
  · intro w e hinv hone
    cases e with
    | chat =>
      refine iff_of_true (fun t ht => ?_) trivial
      rcases List.mem_append.1 ht with ht | ht
      · exact hone t ht
      · obtain rfl : t = ChatTask.start fb.chain := List.mem_singleton.1 ht
        intro x hx
        cases hx
    | outside pools keys poisoned => exact iff_of_true hone trivial
    | task i input =>
      cases hi : w.tasks[i]? with
      | none =>
        rw [step_task_none fb env hi]
        exact iff_of_true hone fun t ht => by simp [hi] at ht
      | some t =>
        have ht : t ∈ w.tasks := List.mem_of_getElem? hi
        have hstep := singleAnswer_step_iff (hinv t ht) (hone t ht) w.shared env input
        have hcond : w.KeepsAnswer (.task i input)
            ↔ (t.startsAnswer input → t.abandoned = false) := by
          simp [FallbackWorld.KeepsAnswer, hi]
        rw [step_task fb env hi, hcond, ← hstep]
        constructor
        · intro hall
          exact hall _ (List.mem_set (List.getElem?_eq_some_iff.1 hi).1 _)
        · intro hnew u hu
          rcases List.mem_or_eq_of_mem_set hu with hu | hu
          · exact hone u hu
          · exact hu ▸ hnew

/-! ## A failover in the middle of a stream -/

section Mixed

/-- Two models without credential pools. -/
def twoModels : FallbackChatProvider where
  chain := [⟨0, "glm-5.2", "glm", none, none⟩, ⟨1, "qwen3.7-plus", "qwen", none, none⟩]
  nonempty := nofun

/-- The stream of the first model breaks off after a delta, and the second model answers. -/
def brokenStream : List FallbackEvent :=
  let m : Moment := ⟨0, 0, 0⟩
  [.chat, .task 0 (.proceed m),
    .task 0 (.opened m none), .task 0 (.event m (.delta "The answer is ")),
    .task 0 (.event m (.error "connection reset")), .task 0 (.proceed m),
    .task 0 (.opened m none), .task 0 (.event m (.delta "It is 42.")),
    .task 0 (.event m (.done .endTurn)), .task 0 .streamEnd]

/-- **Two answers in one response**: the content of the first attempt is followed by that of the
second, and the caller makes one text of both, under the name of the second model. -/
theorem failover_mixes_answers :
    ¬ (∀ t ∈ (twoModels.plainRun brokenStream).tasks, SingleAnswer t.sent)
      ∧ (twoModels.plainRun brokenStream).tasks.map (fun t => collectStream {} (t.sent.map (·.event)))
        = [.ok ({ text := "The answer is It is 42.", actualModel := some "qwen3.7-plus" },
            .endTurn)] := by
  decide +kernel

end Mixed

end FallbackChatProvider

end MyClaw
