import MyClaw.Provider.Fallback
import Mathlib.Data.Prod.Lex

set_option autoImplicit false

/-!
# Every entry of the chain gets its chance

What a request does with the entries of its chain: it gets past an entry because the entry failed,
because its model is on cooldown, or because its pool has no key.  The cooldowns are kept under the
model id, so that a failure of one provider keeps a request from another provider of the same model.

## Main definitions

* `Outcome.OwnFailure`, `Outcome.ModelFailure` — a reason to get past an entry that is
  a failure of the entry itself, or of an entry with its model.
* `ChatTask.FairPass` — the entries before the one the request is at were passed in order,
  each for a reason, and the errors of the chain are sent after the last.
* `ChatPoint.rank` — how much of the chain is left.
* `ChatTask.deadline`, `FallbackWorld.InTime` — the deadline that a step computes, and that
  it is not past the last instant of the platform.

## Main results

* `FallbackChatProvider.fairPass_and_goesOn` — in every run every request passes the
  entries fairly up to the model, and if all deadlines are in time, every step of it goes on along the
  chain.
* `panicked_step_iff` — a step panics exactly over a deadline that is not in time, as long as no
  lock is poisoned.
* `FallbackChatProvider.healthy_entry_never_tried` — two providers of one model, and a pool
  without a key.
-/

namespace MyClaw

/-- The reason to get past the entry is a failure of this entry, by its provider and model. -/
def Outcome.OwnFailure (entry : FallbackEntry) : Outcome → Prop
  | .cooling c now => now < c.availableAt ∧ c.entry.provider = entry.provider
      ∧ c.entry.modelId = entry.modelId ∧ ∃ error ∈ c.failure, shouldFailoverToNext error
  | .failed error => shouldFailoverToNext error
  | .keyless => False

instance (entry : FallbackEntry) (o : Outcome) : Decidable (o.OwnFailure entry) := by
  cases o <;> unfold Outcome.OwnFailure <;> infer_instance

/-- The reason to get past the entry is a failure of an entry with its model, or a pool without a
key. -/
def Outcome.ModelFailure (entry : FallbackEntry) : Outcome → Prop
  | .cooling c now => now < c.availableAt ∧ c.entry.modelId = entry.modelId
      ∧ ((∃ error ∈ c.failure, shouldFailoverToNext error) ∨ c.entry.credentialPool.isSome)
  | .failed error => shouldFailoverToNext error
  | .keyless => entry.credentialPool.isSome

/-- The entries that are not passed yet, the present one included; not known of a request that ended
at an entry. -/
def ChatPoint.ahead : ChatPoint → Option (List FallbackEntry)
  | .gate rest => some rest
  | .opening lap | .streaming lap _ _ => some (lap.entry :: lap.rest)
  | .marking r _ | .choosing r | .setting r _ | .parking r => some (r.lap.entry :: r.lap.rest)
  | .guarding entry rest _ => some (entry :: rest)
  | .finished .chainEnd => some []
  | .finished _ => none

/-- The error that a request passed on. -/
def ChatPoint.refusal : ChatPoint → Option ClassifiedError
  | .finished (.refused error) => some error
  | _ => none

/-- **A fair pass** through the chain, with `Reason` for what gets a request past an entry: the
entries were passed in order, each for a reason; an error of the chain is sent only after the last
of them; and no error that is eligible for failover is passed on. -/
structure ChatTask.FairPass (Reason : FallbackEntry → Outcome → Prop)
    (chain : List FallbackEntry) (t : ChatTask) : Prop where
  order : t.passed.map (·.1) <+: chain
  ahead : ∀ rest ∈ t.point.ahead, t.passed.map (·.1) ++ rest = chain
  reason : ∀ p ∈ t.passed, Reason p.1 p.2
  chainError : (∃ x ∈ t.sent, x.attempt = none) → t.passed.map (·.1) = chain
  refused : ∀ error ∈ t.point.refusal, shouldFailoverToNext error = false

/-! ## How much of the chain is left -/

/-- The retries of the same model and the rotations that an entry has left. -/
def Lap.left (lap : Lap) : ℕ :=
  (lap.maxRotations - 1 - lap.rotation) * 3 + (2 - lap.transientAttempt)

/-- How much is left: of the chain, of the tries of the entry, of the present try. -/
def ChatPoint.rank : ChatPoint → ℕ ×ₗ ℕ ×ₗ ℕ
  | .gate rest => toLex (2 * rest.length + 1, toLex (0, 0))
  | .opening lap => toLex (2 * lap.rest.length + 2, toLex (lap.left, 5))
  | .streaming lap _ _ => toLex (2 * lap.rest.length + 2, toLex (lap.left, 4))
  | .marking r _ => toLex (2 * r.lap.rest.length + 2, toLex (r.lap.left, 3))
  | .choosing r => toLex (2 * r.lap.rest.length + 2, toLex (r.lap.left, 2))
  | .setting r _ | .parking r => toLex (2 * r.lap.rest.length + 2, toLex (r.lap.left, 1))
  | .guarding _ rest _ => toLex (2 * rest.length + 2, toLex (0, 0))
  | .finished _ => toLex (0, toLex (0, 0))

/-- The request waits for this input, and the input is not an event that is only forwarded. -/
def ChatTask.movesOn (t : ChatTask) (input : ChatInput) : Bool :=
  match t.point, input with
  | .opening _, .opened .. => true
  | .streaming .., .event _ e => e.isFailure
  | .streaming .., .streamEnd => true
  | .gate [], .proceed _ | .gate (_ :: _), .proceed _ => true
  | .marking .., .proceed _ | .choosing _, .proceed _ | .setting .., .proceed _ => true
  | .parking _, .proceed _ | .guarding .., .proceed _ => true
  | _, _ => false

/-- The task has panicked. -/
def ChatPoint.panicked : ChatPoint → Bool
  | .finished (.panicked _) => true
  | _ => false

/-- The step goes on along the chain: it does not panic, it leaves less of the chain, and at the gate it
leads to the call of the provider if the model of the entry is not on cooldown and its pool, if it has
one, has a key. -/
structure ChatTask.GoesOn (env : FallbackEnv) (sh : FallbackShared) (t : ChatTask)
    (input : ChatInput) : Prop where
  calm : (t.step sh env input).2.point.panicked = false
  less : t.movesOn input → (t.step sh env input).2.point.rank < t.point.rank
  tries : ∀ entry rest m, t.point = .gate (entry :: rest) → input = .proceed m →
    (∀ c ∈ sh.cooldowns entry.modelId, c.availableAt ≤ m.now) →
    (∀ p ∈ entry.credentialPool, (sh.pools p).entries ≠ []) →
    ∃ lap, (t.step sh env input).2.point = .opening lap ∧ lap.entry = entry ∧ lap.rest = rest

/-- No lock is poisoned. -/
structure FallbackShared.Clear (sh : FallbackShared) : Prop where
  cooldowns : sh.poisoned = false
  pools : ∀ p, sh.poisonedPools p = false

/-- The deadline that an error at an entry leads to: none if the same model is tried again, or if the
error is passed on. -/
def failOverDeadline (now : ℕ) (lap : Lap) (sawContent : Bool) (error : ClassifiedError) : Option ℕ :=
  if mayRetrySameModel lap error && !sawContent then none
  else if shouldFailoverToNext error then error.cooldownDuration.map (now + ·)
  else none

/-- The deadline that an error of a stream leads to: none if the credential is rotated. -/
def streamDeadline (now : ℕ) (lap : Lap) (sawContent : Bool) (error : ClassifiedError) : Option ℕ :=
  if lap.entry.credentialPool.isSome ∧ lap.entry.sharedApiKey.isSome ∧ error.shouldRotateCredential then
    none
  else failOverDeadline now lap sawContent error

/-- The deadline that a step of a request computes: of a model that is put on cooldown, or of a key that
is marked. -/
def ChatTask.deadline (env : FallbackEnv) (sh : FallbackShared) (t : ChatTask) (input : ChatInput) :
    Option ℕ :=
  match t.point, input with
  | .opening lap, .opened m (some text) =>
    failOverDeadline m.now lap false (lap.classify env m 0 text)
  | .streaming lap sawContent _, .event m (.httpError status message) =>
    streamDeadline m.now lap sawContent (lap.classify env m status message)
  | .streaming lap sawContent _, .event m (.error message) =>
    streamDeadline m.now lap sawContent (lap.classify env m 0 message)
  | .marking r oldKey, .proceed m =>
    if (sh.pools r.pool).entries.any (·.key = oldKey) then
      some (m.now + r.error.cooldownDuration.getD (fromSecs 3600))
    else none
  | .parking r, .proceed m =>
    (sh.cooldownDuration m.now r.lap.entry r.error (some r.pool)).map (m.now + ·)
  | .guarding entry _ _, .proceed m => (guardError env m entry).cooldownDuration.map (m.now + ·)
  | _, _ => none

/-- The step computes no deadline past the last instant of the platform. -/
def ChatTask.InTime (env : FallbackEnv) (sh : FallbackShared) (t : ChatTask) (input : ChatInput) :
    Prop :=
  ∀ deadline ∈ t.deadline env sh input, deadline ≤ env.lastInstant

instance (env : FallbackEnv) (sh : FallbackShared) (t : ChatTask) (input : ChatInput) :
    Decidable (t.InTime env sh input) := by
  unfold ChatTask.InTime
  infer_instance

/-- The same for the step of one of the requests; from outside no pool is left poisoned. -/
def FallbackWorld.InTime (env : FallbackEnv) (w : FallbackWorld) : FallbackEvent → Prop
  | .task i input => ∀ t ∈ w.tasks[i]?, t.InTime env w.shared input
  | .outside _ _ poisoned => poisoned = []
  | .chat => True

instance (env : FallbackEnv) (w : FallbackWorld) : (e : FallbackEvent) → Decidable (w.InTime env e)
  | .task i input => inferInstanceAs (Decidable (∀ t ∈ w.tasks[i]?, t.InTime env w.shared input))
  | .outside _ _ poisoned => inferInstanceAs (Decidable (poisoned = []))
  | .chat => inferInstanceAs (Decidable True)

/-- A step of one of the requests goes on. -/
def FallbackWorld.GoesOn (env : FallbackEnv) (w : FallbackWorld) : FallbackEvent → Prop
  | .task i input => ∀ t ∈ w.tasks[i]?, t.GoesOn env w.shared input
  | _ => True

/-! ### The steps -/

section Rank

variable {t : ChatTask} {sh : FallbackShared} {env : FallbackEnv}

lemma rank_lt_of_fst {a b : ℕ} {x y : ℕ ×ₗ ℕ} (h : a < b) : toLex (a, x) < toLex (b, y) :=
  Prod.Lex.toLex_lt_toLex.2 (.inl h)

lemma rank_lt_of_snd {a b c : ℕ} {x y : ℕ} (h : b < c) :
    toLex (a, toLex (b, x)) < toLex (a, toLex (c, y)) :=
  Prod.Lex.toLex_lt_toLex.2 (.inr ⟨rfl, Prod.Lex.toLex_lt_toLex.2 (.inl h)⟩)

lemma rank_lt_of_last {a b : ℕ} {x y : ℕ} (h : x < y) :
    toLex (a, toLex (b, x)) < toLex (a, toLex (b, y)) :=
  Prod.Lex.toLex_lt_toLex.2 (.inr ⟨rfl, Prod.Lex.toLex_lt_toLex.2 (.inr ⟨rfl, h⟩)⟩)

lemma rank_lt_of_zero {a b : ℕ} : toLex (a, toLex (0, 0)) < toLex (a, toLex (b, 1)) := by
  rcases Nat.eq_zero_or_pos b with rfl | hb
  · exact rank_lt_of_last Nat.one_pos
  · exact rank_lt_of_snd hb

/-- A retry of the same model uses up a try. -/
lemma left_retry {lap : Lap} {error : ClassifiedError} (h : mayRetrySameModel lap error) :
    { lap with transientAttempt := lap.transientAttempt + 1 }.left < lap.left := by
  have hlt : lap.transientAttempt < sameModelMaxRetries error := by
    simpa [mayRetrySameModel] using (Bool.and_eq_true_iff.1 h).2
  have hmax : sameModelMaxRetries error ≤ 2 := by
    unfold sameModelMaxRetries
    split <;> omega
  dsimp only [Lap.left]
  omega

/-- A rotation uses up all tries with the old key. -/
lemma left_rotate {lap : Lap} (h : lap.rotation + 1 < lap.maxRotations) :
    { lap with rotation := lap.rotation + 1, transientAttempt := 0 }.left < lap.left := by
  dsimp only [Lap.left]
  omega

/-- The end of the task, or the next entry, after a call that may panic. -/
lemma rank_after_pass {call : Except Panic Unit × FallbackShared} {entry : FallbackEntry}
    {outcome : Outcome} {rest : List FallbackEntry} {x : ℕ ×ₗ ℕ} :
    (t.after call (t.pass entry outcome rest)).2.point.rank < toLex (2 * rest.length + 2, x) :=
  ChatTask.after_of (P := fun p => p.2.point.rank < toLex (2 * rest.length + 2, x))
    (rank_lt_of_fst (Nat.lt_succ_self _)) fun _ => rank_lt_of_fst (Nat.succ_pos _)

lemma rank_failOver {now : ℕ} {lap : Lap} {error : ClassifiedError} {e : StreamEvent}
    {x : ℕ ×ₗ ℕ} :
    (t.failOver sh env now lap error e).2.point.rank < toLex (2 * lap.rest.length + 2, x) := by
  unfold ChatTask.failOver
  split
  · exact rank_after_pass
  · exact rank_lt_of_fst (Nat.succ_pos _)

lemma rank_gate {now : ℕ} {entry : FallbackEntry} {rest : List FallbackEntry} :
    (t.gate sh now entry rest).2.point.rank < (ChatPoint.gate (entry :: rest)).rank := by
  have htry : (t.tryEntry sh entry rest).point.rank < (ChatPoint.gate (entry :: rest)).rank := by
    dsimp only [ChatTask.tryEntry]
    split
    · exact rank_lt_of_fst (Nat.succ_pos _)
    · split
      · exact rank_lt_of_fst (by simp only [List.length_cons]; omega)
      · exact rank_lt_of_fst (by simp only [List.length_cons]; omega)
  unfold ChatTask.gate
  split
  · exact rank_lt_of_fst (Nat.succ_pos _)
  · split
    · split
      · exact rank_lt_of_fst (by simp only [List.length_cons]; omega)
      · exact htry
    · exact htry

lemma rank_retryOrFailOver {now : ℕ} {lap : Lap} {saw : Bool} {error : ClassifiedError}
    {e : StreamEvent} {stage : ℕ} :
    (t.retryOrFailOver sh env now lap saw error e).2.point.rank
      < toLex (2 * lap.rest.length + 2, toLex (lap.left, stage)) := by
  unfold ChatTask.retryOrFailOver
  split
  · rename_i hretry
    exact rank_lt_of_snd (left_retry (Bool.and_eq_true_iff.1 hretry).1)
  · exact rank_failOver

lemma rank_streamFailed {m : Moment} {lap : Lap} {saw announced : Bool} {status : ℕ}
    {text : String} {e : StreamEvent} :
    (t.streamFailed sh env m lap saw status text e).2.point.rank
      < (ChatPoint.streaming lap saw announced).rank := by
  dsimp only [ChatTask.streamFailed]
  split
  · split
    · exact rank_lt_of_last (by omega)
    · exact rank_retryOrFailOver
  · exact rank_retryOrFailOver

/-- A step of a request that is not a forwarded event leaves less of the chain. -/
lemma rank_step {input : ChatInput} (hmoves : t.movesOn input) :
    (t.step sh env input).2.point.rank < t.point.rank := by
  unfold ChatTask.step
  split <;> rename_i hpoint
  · rw [hpoint]
    exact rank_lt_of_fst (Nat.succ_pos _)
  · rw [hpoint]
    exact rank_gate
  · rename_i error
    rw [hpoint]
    cases error with
    | some text => exact rank_retryOrFailOver
    | none => exact rank_lt_of_last (by omega)
  · rw [hpoint]
    exact rank_streamFailed
  · rw [hpoint]
    exact rank_streamFailed
  · rename_i e hhttp herror
    have hfail : e.isFailure := by simpa [ChatTask.movesOn, hpoint] using hmoves
    cases e with
    | error message => exact absurd rfl (herror message)
    | httpError status message => exact absurd rfl (hhttp status message)
    | _ => cases hfail
  · rw [hpoint]
    exact rank_lt_of_fst (Nat.succ_pos _)
  · rw [hpoint]
    exact ChatTask.after_of (P := fun p => p.2.point.rank < _) (rank_lt_of_last (by omega))
      fun _ => rank_lt_of_fst (Nat.succ_pos _)
  · rw [hpoint]
    dsimp only [ChatTask.choose]
    split
    · exact rank_lt_of_fst (Nat.succ_pos _)
    · dsimp only
      split
      · exact rank_lt_of_last (by omega)
      · exact rank_lt_of_last (by omega)
  · rw [hpoint]
    dsimp only [ChatTask.setKey]
    split
    · exact rank_lt_of_snd (left_rotate ‹_›)
    · exact rank_lt_of_zero
  · rw [hpoint]
    exact rank_after_pass
  · rw [hpoint]
    exact rank_after_pass
  · unfold ChatTask.movesOn at hmoves
    split at hmoves <;> first | cases hmoves; done | (exfalso; solve_by_elim)

/-! ### Panics -/

/-- With no lock poisoned, a cooldown is recorded unless its deadline is past the last instant. -/
lemma recordCooldown_eq_ok_iff (h : sh.Clear) {now : ℕ} {entry : FallbackEntry}
    {error : ClassifiedError} {pool : Option ℕ} {cause : Option ClassifiedError} :
    (recordCooldown env sh now entry error pool cause).1 = .ok () ↔
      ∀ deadline ∈ (sh.cooldownDuration now entry error pool).map (now + ·),
        deadline ≤ env.lastInstant := by
  have hpool : pool.any sh.poisonedPools = false := by
    cases pool with
    | none => rfl
    | some p => exact h.pools p
  unfold recordCooldown
  rw [hpool, if_neg Bool.false_ne_true]
  cases sh.cooldownDuration now entry error pool with
  | none => simp
  | some d =>
    dsimp only
    rw [h.cooldowns, if_neg Bool.false_ne_true]
    by_cases hlate : env.lastInstant < now + d
    · rw [if_pos hlate]
      simpa using hlate
    · rw [if_neg hlate]
      simpa using hlate

/-- With no lock poisoned, a key is marked unless its deadline is past the last instant. -/
lemma markExhausted_eq_ok_iff (h : sh.Clear) {now pool : ℕ} {key scope : String} {duration : ℕ} :
    (sh.markExhausted env now pool key scope duration).1 = .ok () ↔
      ∀ deadline ∈ (if (sh.pools pool).entries.any (·.key = key) then some (now + duration) else none),
        deadline ≤ env.lastInstant := by
  unfold FallbackShared.markExhausted
  rw [h.pools pool, if_neg Bool.false_ne_true]
  by_cases hkey : (sh.pools pool).entries.any (·.key = key)
  · by_cases hlate : env.lastInstant < now + duration
    · rw [if_pos ⟨hkey, hlate⟩, if_pos hkey]
      simpa using hlate
    · rw [if_neg (mt And.right hlate), if_pos hkey]
      simpa using hlate
  · rw [if_neg (mt And.left hkey), if_neg hkey]
    simp

/-- A request is calm after a call exactly if the call returns. -/
lemma panicked_after_iff {call : Except Panic Unit × FallbackShared} {next : ChatTask}
    (hnext : next.point.panicked = false) :
    (t.after call next).2.point.panicked = false ↔ call.1 = .ok () := by
  unfold ChatTask.after
  split
  · rename_i hok
    exact iff_of_true hnext hok
  · rename_i why hcall
    rw [hcall]
    exact iff_of_false (fun htrue : true = false => nomatch htrue) nofun

/-- An error at an entry panics exactly if its deadline is past the last instant. -/
lemma panicked_retryOrFailOver_iff (h : sh.Clear) {now : ℕ} {lap : Lap} {saw : Bool}
    {error : ClassifiedError} {e : StreamEvent} :
    (t.retryOrFailOver sh env now lap saw error e).2.point.panicked = false ↔
      ∀ deadline ∈ failOverDeadline now lap saw error, deadline ≤ env.lastInstant := by
  unfold ChatTask.retryOrFailOver failOverDeadline ChatTask.failOver
  split
  · exact iff_of_true rfl nofun
  · split
    · exact (panicked_after_iff rfl).trans (recordCooldown_eq_ok_iff h)
    · exact iff_of_true rfl nofun

/-- The same of an error of a stream. -/
lemma panicked_streamFailed_iff (h : sh.Clear) {m : Moment} {lap : Lap} {saw : Bool} {status : ℕ}
    {text : String} {e : StreamEvent} :
    (t.streamFailed sh env m lap saw status text e).2.point.panicked = false ↔
      ∀ deadline ∈ streamDeadline m.now lap saw (lap.classify env m status text),
        deadline ≤ env.lastInstant := by
  unfold ChatTask.streamFailed streamDeadline
  dsimp only
  split
  · rename_i pool cell hpool hcell
    rw [hpool, hcell]
    split
    · rename_i hrotate
      rw [if_pos ⟨rfl, rfl, hrotate⟩]
      exact iff_of_true rfl nofun
    · rename_i hrotate
      rw [if_neg fun hall => hrotate hall.2.2]
      exact panicked_retryOrFailOver_iff h
  · rename_i hnone
    rw [if_neg ?_]
    · exact panicked_retryOrFailOver_iff h
    · rintro ⟨hpool, hcell, -⟩
      obtain ⟨pool, hpool⟩ := Option.isSome_iff_exists.1 hpool
      obtain ⟨cell, hcell⟩ := Option.isSome_iff_exists.1 hcell
      exact hnone pool cell hpool hcell

/-- The gate takes locks, and panics only if one of them is poisoned. -/
lemma panicked_gate (h : sh.Clear) {now : ℕ} {entry : FallbackEntry} {rest : List FallbackEntry} :
    (t.gate sh now entry rest).2.point.panicked = false := by
  have hclear : entry.credentialPool.any sh.poisonedPools = false := by
    cases entry.credentialPool with
    | none => rfl
    | some p => exact h.pools p
  have htry : (t.tryEntry sh entry rest).point.panicked = false := by
    dsimp only [ChatTask.tryEntry]
    rw [hclear, if_neg Bool.false_ne_true]
    split <;> rfl
  unfold ChatTask.gate
  rw [if_neg (by rw [h.cooldowns]; exact Bool.false_ne_true)]
  split
  · split
    · rfl
    · exact htry
  · exact htry

/-- **A step panics** exactly if it computes a deadline past the last instant, as long as no lock is
poisoned. -/
theorem panicked_step_iff (h : sh.Clear) (hcalm : t.point.panicked = false) {input : ChatInput} :
    (t.step sh env input).2.point.panicked = false ↔ t.InTime env sh input := by
  unfold ChatTask.step ChatTask.InTime
  split <;> rename_i hpoint
  · simp only [ChatTask.deadline, hpoint]
    exact iff_of_true rfl nofun
  · simp only [ChatTask.deadline, hpoint]
    exact iff_of_true (panicked_gate h) nofun
  · rename_i error
    cases error with
    | some text =>
      simp only [ChatTask.deadline, hpoint]
      exact panicked_retryOrFailOver_iff h
    | none =>
      simp only [ChatTask.deadline, hpoint]
      exact iff_of_true rfl nofun
  · simp only [ChatTask.deadline, hpoint]
    exact panicked_streamFailed_iff h
  · simp only [ChatTask.deadline, hpoint]
    exact panicked_streamFailed_iff h
  · rename_i e hhttp herror
    refine iff_of_true rfl ?_
    cases e with
    | error message => exact absurd rfl (herror message)
    | httpError status message => exact absurd rfl (hhttp status message)
    | _ =>
      simp only [ChatTask.deadline, hpoint]
      exact nofun
  · simp only [ChatTask.deadline, hpoint]
    exact iff_of_true rfl nofun
  · simp only [ChatTask.deadline, hpoint]
    exact (panicked_after_iff rfl).trans (markExhausted_eq_ok_iff h)
  · rename_i r m
    simp only [ChatTask.deadline, hpoint]
    refine iff_of_true ?_ nofun
    dsimp only [ChatTask.choose]
    rw [h.pools, if_neg Bool.false_ne_true]
    dsimp only
    split <;> rfl
  · simp only [ChatTask.deadline, hpoint]
    refine iff_of_true ?_ nofun
    dsimp only [ChatTask.setKey]
    split <;> rfl
  · simp only [ChatTask.deadline, hpoint]
    exact (panicked_after_iff rfl).trans (recordCooldown_eq_ok_iff h)
  · simp only [ChatTask.deadline, hpoint]
    exact (panicked_after_iff rfl).trans (recordCooldown_eq_ok_iff h)
  · refine iff_of_true hcalm ?_
    unfold ChatTask.deadline
    split <;> first | (exfalso; solve_by_elim) | exact nofun

/-! ### Locks -/

/-- A call that returns poisons no lock, hence neither does a step around it that does not panic. -/
lemma clear_after {call : Except Panic Unit × FallbackShared} {next : ChatTask}
    (hcall : call.1 = .ok () → call.2.Clear) :
    (t.after call next).2.point.panicked = false → (t.after call next).1.Clear := by
  unfold ChatTask.after
  split
  · rename_i hok
    exact fun _ => hcall hok
  · exact fun htrue : true = false => nomatch htrue

/-- A cooldown that is recorded poisons no lock. -/
lemma clear_recordCooldown (h : sh.Clear) {now : ℕ} {entry : FallbackEntry} {error : ClassifiedError}
    {pool : Option ℕ} {cause : Option ClassifiedError} :
    (recordCooldown env sh now entry error pool cause).1 = .ok () →
      (recordCooldown env sh now entry error pool cause).2.Clear := by
  unfold recordCooldown
  split
  · exact nofun
  · split
    · split
      · exact nofun
      · split
        · exact nofun
        · exact fun _ => ⟨h.cooldowns, h.pools⟩
    · exact fun _ => h

/-- A key that is marked poisons no lock. -/
lemma clear_markExhausted (h : sh.Clear) {now pool : ℕ} {key scope : String} {duration : ℕ} :
    (sh.markExhausted env now pool key scope duration).1 = .ok () →
      (sh.markExhausted env now pool key scope duration).2.Clear := by
  unfold FallbackShared.markExhausted
  split
  · exact nofun
  · split
    · exact nofun
    · exact fun _ => ⟨h.cooldowns, h.pools⟩

/-- An error at an entry, the same. -/
lemma clear_retryOrFailOver (h : sh.Clear) {now : ℕ} {lap : Lap} {saw : Bool}
    {error : ClassifiedError} {e : StreamEvent} :
    (t.retryOrFailOver sh env now lap saw error e).2.point.panicked = false →
      (t.retryOrFailOver sh env now lap saw error e).1.Clear := by
  unfold ChatTask.retryOrFailOver ChatTask.failOver
  split
  · exact fun _ => h
  · split
    · exact clear_after (clear_recordCooldown h)
    · exact fun _ => h

/-- An error of a stream, the same. -/
lemma clear_streamFailed (h : sh.Clear) {m : Moment} {lap : Lap} {saw : Bool} {status : ℕ}
    {text : String} {e : StreamEvent} :
    (t.streamFailed sh env m lap saw status text e).2.point.panicked = false →
      (t.streamFailed sh env m lap saw status text e).1.Clear := by
  unfold ChatTask.streamFailed
  dsimp only
  split
  · split
    · exact fun _ => h
    · exact clear_retryOrFailOver h
  · exact clear_retryOrFailOver h

/-- **A step that does not panic** leaves the locks free of poison. -/
theorem clear_step (h : sh.Clear) {input : ChatInput} :
    (t.step sh env input).2.point.panicked = false → (t.step sh env input).1.Clear := by
  unfold ChatTask.step
  split
  · exact fun _ => h
  · intro _
    unfold ChatTask.gate
    split
    · exact h
    · split
      · split
        · exact h
        · exact ⟨h.cooldowns, h.pools⟩
      · exact h
  · rename_i error _
    cases error with
    | some text => exact clear_retryOrFailOver h
    | none => exact fun _ => h
  · exact clear_streamFailed h
  · exact clear_streamFailed h
  · exact fun _ => h
  · exact fun _ => h
  · exact clear_after (clear_markExhausted h)
  · intro _
    unfold ChatTask.choose
    split
    · exact h
    · exact ⟨h.cooldowns, h.pools⟩
  · exact fun _ => ⟨h.cooldowns, h.pools⟩
  · exact clear_after (clear_recordCooldown h)
  · exact clear_after (clear_recordCooldown h)
  · exact fun _ => h

/-! ### Going on -/

/-- The gate lets an entry through whose model is not on cooldown, and it is tried if it has a
key. -/
lemma gate_tries (h : sh.Clear) {now : ℕ} {entry : FallbackEntry} {rest : List FallbackEntry}
    (hcooldown : ∀ c ∈ sh.cooldowns entry.modelId, c.availableAt ≤ now)
    (hkey : ∀ p ∈ entry.credentialPool, (sh.pools p).entries ≠ []) :
    ∃ lap, (t.gate sh now entry rest).2.point = .opening lap
      ∧ lap.entry = entry ∧ lap.rest = rest := by
  have hpos : 0 < (entry.credentialPool.map fun p => (sh.pools p).len).getD 1 := by
    cases hp : entry.credentialPool with
    | none => exact Nat.one_pos
    | some p => exact List.length_pos_of_ne_nil (hkey p hp)
  have htry : ∃ lap, (t.tryEntry sh entry rest).point = .opening lap
      ∧ lap.entry = entry ∧ lap.rest = rest := by
    have hclear : entry.credentialPool.any sh.poisonedPools = false := by
      cases entry.credentialPool with
      | none => rfl
      | some p => exact h.pools p
    dsimp only [ChatTask.tryEntry]
    rw [hclear, if_neg Bool.false_ne_true, if_pos hpos]
    exact ⟨_, rfl, rfl, rfl⟩
  unfold ChatTask.gate
  rw [if_neg (by rw [h.cooldowns]; exact Bool.false_ne_true)]
  split
  · rename_i c hc
    rw [if_neg (Nat.not_lt.2 (hcooldown c hc))]
    exact htry
  · exact htry

/-- **Going on**: every step of a request does that is in time, with no lock poisoned. -/
lemma goesOn {input : ChatInput} (h : sh.Clear) (hcalm : t.point.panicked = false)
    (htime : t.InTime env sh input) : t.GoesOn env sh input where
  calm := (panicked_step_iff h hcalm).2 htime
  less := rank_step
  tries entry rest m hpoint hinput hcooldown hkey := by
    have hstep : t.step sh env input = t.gate sh m.now entry rest := by
      rw [hinput]
      unfold ChatTask.step
      rw [hpoint]
    rw [hstep]
    exact gate_tries h hcooldown hkey

end Rank

/-! ## Fair passes -/

/-- Every cooldown is under the model of the entry that recorded it, for a failure of the entry or
for its pool. -/
def FallbackShared.Sound (sh : FallbackShared) : Prop :=
  ∀ model, ∀ c ∈ sh.cooldowns model, c.entry.modelId = model
    ∧ ((∃ error ∈ c.failure, shouldFailoverToNext error) ∨ c.entry.credentialPool.isSome)

/-- What a request carries to the end of a rotation is a failure that leads to the next entry. -/
def ChatPoint.Sound : ChatPoint → Prop
  | .marking r _ | .choosing r | .setting r _ | .parking r => shouldFailoverToNext r.error
  | .guarding entry _ last =>
    (∃ error ∈ last, shouldFailoverToNext error) ∨ last = none ∧ entry.credentialPool.isSome
  | _ => True

/-- The invariant of a step, of what is shared and of the request. -/
structure PassInv (chain : List FallbackEntry) (p : FallbackShared × ChatTask) : Prop where
  shared : p.1.Sound
  fair : p.2.FairPass Outcome.ModelFailure chain
  point : p.2.point.Sound

lemma FallbackShared.Sound.recordCooldown {env : FallbackEnv} {sh : FallbackShared} (h : sh.Sound)
    {now : ℕ} {entry : FallbackEntry} {error : ClassifiedError} {pool : Option ℕ}
    {cause : Option ClassifiedError}
    (hcause : (∃ error ∈ cause, shouldFailoverToNext error) ∨ entry.credentialPool.isSome) :
    (recordCooldown env sh now entry error pool cause).2.Sound := by
  unfold MyClaw.recordCooldown
  split
  · exact h
  · split
    · split
      · exact h
      · split
        · exact h
        · intro model c hc
          by_cases hm : model = entry.modelId
          · subst hm
            obtain rfl : _ = c := by simpa using hc
            exact ⟨rfl, hcause⟩
          · exact h model c (by simpa [hm] using hc)
    · exact h

namespace ChatTask.FairPass

variable {Reason : FallbackEntry → Outcome → Prop} {chain : List FallbackEntry} {t u : ChatTask}

lemma start : (ChatTask.start chain).FairPass Reason chain where
  order := List.nil_prefix
  ahead rest hrest := by
    obtain rfl : chain = rest := Option.some.inj hrest
    rfl
  reason := by simp [ChatTask.start]
  chainError := by simp [ChatTask.start]
  refused := by simp [ChatTask.start, ChatPoint.refusal]

/-- A step that passes no entry. -/
lemma stay (h : t.FairPass Reason chain) (hpassed : u.passed = t.passed)
    (hsent : ∀ x ∈ u.sent, x.attempt = none → x ∈ t.sent)
    (hahead : ∀ rest ∈ u.point.ahead, rest ∈ t.point.ahead)
    (hrefused : ∀ error ∈ u.point.refusal, shouldFailoverToNext error = false) :
    u.FairPass Reason chain where
  order := hpassed ▸ h.order
  ahead rest hrest := hpassed ▸ h.ahead rest (hahead rest hrest)
  reason := hpassed ▸ h.reason
  chainError := fun ⟨x, hx, hnone⟩ => hpassed ▸ h.chainError ⟨x, hsent x hx hnone, hnone⟩
  refused := hrefused

/-- A step that passes an entry. -/
lemma next (h : t.FairPass Reason chain) {entry : FallbackEntry} {rest : List FallbackEntry}
    {outcome : Outcome} (hahead : t.point.ahead = some (entry :: rest))
    (hreason : Reason entry outcome) (hpassed : u.passed = t.passed ++ [(entry, outcome)])
    (hsent : u.sent = t.sent) (hpoint : u.point = .gate rest) : u.FairPass Reason chain := by
  have hchain : t.passed.map (·.1) ++ entry :: rest = chain := h.ahead _ hahead
  have hmap : u.passed.map (·.1) ++ rest = chain := by rw [hpassed, ← hchain]; simp
  refine ⟨⟨rest, hmap⟩, fun r hr => ?_, fun p hp => ?_, fun hnone => ?_, fun error heq => ?_⟩
  · obtain rfl : rest = r := by simpa [hpoint, ChatPoint.ahead] using hr
    exact hmap
  · rcases List.mem_append.1 (hpassed ▸ hp) with hp | hp
    · exact h.reason p hp
    · exact List.mem_singleton.1 hp ▸ hreason
  · have hall : t.passed.map (·.1) = chain := h.chainError (hsent ▸ hnone)
    rw [hall] at hchain
    simp at hchain
  · simp [hpoint, ChatPoint.refusal] at heq

/-- The end of the chain. -/
lemma endChain (h : t.FairPass Reason chain) (hpoint : t.point = .gate []) (now : ℕ) :
    (t.endChain now).FairPass Reason chain := by
  have hall : t.passed.map (·.1) = chain := by
    simpa using h.ahead [] (by rw [hpoint]; rfl)
  have hend : (t.endChain now).point = .finished .chainEnd := rfl
  refine ⟨h.order, fun r hr => ?_, h.reason, fun _ => hall, fun error heq => ?_⟩
  · obtain rfl : [] = r := by simpa [hend, ChatPoint.ahead] using hr
    exact (List.append_nil _).trans hall
  · simp [hend, ChatPoint.refusal] at heq

end ChatTask.FairPass

namespace PassInv

variable {chain : List FallbackEntry} {sh : FallbackShared} {t : ChatTask} {env : FallbackEnv}

/-- A request that stays at its entry, with what is shared as sound as before. -/
lemma stay {sh' : FallbackShared} {u : ChatTask} (h : PassInv chain (sh, t)) (hshared : sh'.Sound)
    (hpassed : u.passed = t.passed) (hsent : ∀ x ∈ u.sent, x.attempt = none → x ∈ t.sent)
    (hahead : u.point.ahead = t.point.ahead) (hrefused : u.point.refusal = none)
    (hpoint : u.point.Sound) : PassInv chain (sh', u) :=
  ⟨hshared, h.fair.stay hpassed hsent (fun _ hr => hahead ▸ hr)
    (fun error he => by simp [hrefused] at he), hpoint⟩

/-- A request whose task has panicked. -/
lemma crash {sh' : FallbackShared} (h : PassInv chain (sh, t)) (hshared : sh'.Sound) (why : Panic) :
    PassInv chain (sh', t.crash why) :=
  ⟨hshared, h.fair.stay rfl (fun _ hx _ => hx) (by simp [ChatTask.crash, ChatPoint.ahead])
    (by simp [ChatTask.crash, ChatPoint.refusal]), trivial⟩

/-- The entry is passed for a failure, and a cooldown is recorded for it. -/
lemma pass (h : PassInv chain (sh, t)) {entry : FallbackEntry} {rest : List FallbackEntry}
    (hahead : t.point.ahead = some (entry :: rest)) {outcome : Outcome}
    (hreason : outcome.ModelFailure entry) {cause : Option ClassifiedError}
    (hcause : (∃ error ∈ cause, shouldFailoverToNext error) ∨ entry.credentialPool.isSome)
    {now : ℕ} {error : ClassifiedError} {pool : Option ℕ} :
    PassInv chain
      (t.after (recordCooldown env sh now entry error pool cause) (t.pass entry outcome rest)) :=
  have hshared : (recordCooldown env sh now entry error pool cause).2.Sound :=
    h.shared.recordCooldown hcause
  ChatTask.after_of ⟨hshared, h.fair.next hahead hreason rfl rfl rfl, trivial⟩ (h.crash hshared)

lemma failOver (h : PassInv chain (sh, t)) {lap : Lap}
    (hahead : t.point.ahead = some (lap.entry :: lap.rest)) {now : ℕ} {error : ClassifiedError}
    {e : StreamEvent} : PassInv chain (t.failOver sh env now lap error e) := by
  unfold ChatTask.failOver
  split
  · rename_i hfail
    have hreason : (Outcome.failed error).ModelFailure lap.entry := hfail
    exact h.pass hahead hreason (.inl ⟨error, rfl, hfail⟩)
  · rename_i hfail
    refine ⟨h.shared, h.fair.stay rfl (fun x hx hnone => ?_) (fun r hr => ?_) (fun error' he => ?_),
      trivial⟩
    · rcases List.mem_append.1 hx with hx | hx
      · exact hx
      · obtain rfl : x = ⟨some t.attempts, e⟩ := List.mem_singleton.1 hx
        cases hnone
    · simp [ChatTask.refuse, ChatPoint.ahead] at hr
    · obtain rfl : error = error' := by simpa [ChatTask.refuse, ChatPoint.refusal] using he
      simpa using hfail

/-- The gate keeps the invariant of a pass. -/
lemma gate (h : PassInv chain (sh, t)) {entry : FallbackEntry} {rest : List FallbackEntry}
    (hpoint : t.point = .gate (entry :: rest)) {now : ℕ} :
    PassInv chain (t.gate sh now entry rest) := by
  have htry : ∀ sh' : FallbackShared, sh'.Sound →
      PassInv chain (sh', t.tryEntry sh entry rest) := by
    intro sh' hsh'
    unfold ChatTask.tryEntry
    dsimp only
    split
    · exact h.crash hsh' .poison |>.stay hsh' rfl (fun _ hx _ => hx) rfl rfl trivial
    · refine h.stay hsh' rfl (fun x hx _ => hx) ?_ ?_ ?_
      · rw [hpoint]
        dsimp only
        split <;> rfl
      · dsimp only
        split <;> rfl
      · dsimp only
        split
        · trivial
        · rename_i hzero
          refine .inr ⟨rfl, ?_⟩
          by_contra hpool
          rw [Option.not_isSome_iff_eq_none.1 hpool] at hzero
          exact hzero Nat.one_pos
  unfold ChatTask.gate
  split
  · exact h.crash h.shared .poison
  · split
    · rename_i c hc
      split
      · rename_i hnow
        obtain ⟨hmodel, hcause⟩ := h.shared _ c hc
        have hreason : (Outcome.cooling c now).ModelFailure entry := ⟨hnow, hmodel, hcause⟩
        exact ⟨h.shared, h.fair.next (by rw [hpoint]; rfl) hreason rfl rfl rfl, trivial⟩
      · refine htry _ fun model c' hc' => ?_
        by_cases hm : model = entry.modelId
        · simp [hm] at hc'
        · exact h.shared model c' (by simpa [hm] using hc')
    · exact htry sh h.shared

lemma retryOrFailOver (h : PassInv chain (sh, t)) {lap : Lap}
    (hahead : t.point.ahead = some (lap.entry :: lap.rest)) {now : ℕ} {saw : Bool}
    {error : ClassifiedError} {e : StreamEvent} :
    PassInv chain (t.retryOrFailOver sh env now lap saw error e) := by
  unfold ChatTask.retryOrFailOver
  split
  · exact h.stay h.shared rfl (fun x hx _ => hx) hahead.symm rfl trivial
  · exact h.failOver hahead

lemma streamFailed (h : PassInv chain (sh, t)) {lap : Lap}
    (hahead : t.point.ahead = some (lap.entry :: lap.rest)) {m : Moment} {saw : Bool} {status : ℕ}
    {text : String} {e : StreamEvent} :
    PassInv chain (t.streamFailed sh env m lap saw status text e) := by
  dsimp only [ChatTask.streamFailed]
  split
  · split
    · rename_i hrotate
      refine h.stay h.shared rfl (fun x hx _ => hx) hahead.symm rfl ?_
      exact ClassifiedError.shouldFailoverToNext_of_shouldRotateCredential hrotate
    · exact h.retryOrFailOver hahead
  · exact h.retryOrFailOver hahead

lemma forward (h : PassInv chain (sh, t)) {lap : Lap} {saw announced : Bool}
    (hpoint : t.point = .streaming lap saw announced) {e : StreamEvent} :
    PassInv chain (sh, t.forward lap announced e) := by
  refine h.stay h.shared rfl (fun x hx hnone => ?_) (by rw [hpoint]; rfl) rfl trivial
  exact (ChatTask.mem_sent_forward hx).resolve_right (by simp [hnone])

/-- The guard after the rotations. -/
lemma guard (h : PassInv chain (sh, t)) {entry : FallbackEntry} {rest : List FallbackEntry}
    {last : Option ClassifiedError} (hpoint : t.point = .guarding entry rest last) {m : Moment} :
    PassInv chain (t.guard sh env m entry rest last) := by
  have hsound : (∃ error ∈ last, shouldFailoverToNext error)
      ∨ last = none ∧ entry.credentialPool.isSome := by
    have hp : t.point.Sound := h.point
    rwa [hpoint] at hp
  have hreason : ((last.map Outcome.failed).getD .keyless).ModelFailure entry := by
    rcases hsound with ⟨error, rfl, hfail⟩ | ⟨rfl, hpool⟩
    · exact hfail
    · exact hpool
  exact h.pass (by rw [hpoint]; rfl) hreason (hsound.imp_right And.right)

/-- **The invariant** of a step. -/
lemma step (h : PassInv chain (sh, t)) (input : ChatInput) :
    PassInv chain (t.step sh env input) := by
  have hsound : t.point.Sound := h.point
  have hstep : ∀ {sh' : FallbackShared} {u : ChatTask}, sh'.Sound → u.passed = t.passed →
      u.sent = t.sent → u.point.ahead = t.point.ahead → u.point.refusal = none →
      u.point.Sound → PassInv chain (sh', u) := by
    intro sh' u hsh' hpassed hsent hahead hrefused hpoint
    exact h.stay hsh' hpassed (fun x hx _ => hsent ▸ hx) hahead hrefused hpoint
  unfold ChatTask.step
  split <;> rename_i hpoint
  · exact ⟨h.shared, h.fair.endChain hpoint _, trivial⟩
  · exact h.gate hpoint
  · rename_i lap m error
    have hahead : t.point.ahead = some (lap.entry :: lap.rest) := by rw [hpoint]; rfl
    cases error with
    | some text =>
      have hopened : PassInv chain (sh, { t with
          attempts := t.attempts + 1, usedKey := lap.entry.sharedApiKey.map sh.keys
          answering := false }) :=
        hstep h.shared rfl rfl rfl (by rw [hpoint]; rfl) hsound
      exact hopened.retryOrFailOver hahead
    | none => exact hstep h.shared rfl rfl hahead.symm rfl trivial
  · exact h.streamFailed (by rw [hpoint]; rfl)
  · exact h.streamFailed (by rw [hpoint]; rfl)
  · exact h.forward hpoint
  · refine ⟨h.shared, h.fair.stay rfl (fun x hx _ => hx) ?_ ?_, trivial⟩
    · simp [ChatPoint.ahead]
    · simp [ChatPoint.refusal]
  · rename_i r oldKey m
    rw [hpoint] at hsound
    have hshared : (sh.markExhausted env m.now r.pool oldKey r.lap.entry.modelId
        (r.error.cooldownDuration.getD (fromSecs 3600))).2.Sound := by
      unfold FallbackShared.markExhausted
      split
      · exact h.shared
      · split <;> exact h.shared
    exact ChatTask.after_of (hstep hshared rfl rfl (by rw [hpoint]; rfl) rfl hsound) (h.crash hshared)
  · rw [hpoint] at hsound
    dsimp only [ChatTask.choose]
    split
    · exact h.crash h.shared .poison
    · refine hstep h.shared rfl rfl ?_ ?_ ?_
      · rw [hpoint]
        dsimp only
        split <;> rfl
      · dsimp only
        split <;> rfl
      · dsimp only
        split <;> exact hsound
  · rw [hpoint] at hsound
    refine hstep h.shared rfl rfl ?_ ?_ ?_
    · rw [hpoint]
      dsimp only [ChatTask.setKey]
      split <;> rfl
    · dsimp only [ChatTask.setKey]
      split <;> rfl
    · dsimp only [ChatTask.setKey]
      split
      · trivial
      · exact .inl ⟨_, rfl, hsound⟩
  · rename_i r _
    rw [hpoint] at hsound
    have hreason : (Outcome.failed r.error).ModelFailure r.lap.entry := hsound
    exact h.pass (by rw [hpoint]; rfl) hreason (.inl ⟨r.error, rfl, hsound⟩)
  · exact h.guard hpoint
  · exact h

end PassInv

/-! ## Runs -/

namespace FallbackChatProvider

variable (fb : FallbackChatProvider) (env : FallbackEnv)

/-- What holds in every state of a run. -/
structure WorldInv (w : FallbackWorld) : Prop where
  shared : w.shared.Sound
  fair : ∀ t ∈ w.tasks, t.FairPass Outcome.ModelFailure fb.chain ∧ t.point.Sound

variable {fb env} in
/-- **The step** of one of the requests. -/
lemma WorldInv.step {w : FallbackWorld} (h : fb.WorldInv w) (e : FallbackEvent) :
    fb.WorldInv (fb.step env w e) where
  shared := by
    cases e with
    | chat => exact h.shared
    | outside pools keys poisoned => exact h.shared
    | task i input =>
      cases hi : w.tasks[i]? with
      | none => exact (step_task_none fb env hi input).symm ▸ h.shared
      | some t =>
        rw [step_task fb env hi]
        obtain ⟨hfair, hsound⟩ := h.fair t (List.mem_of_getElem? hi)
        have hinv : PassInv fb.chain (w.shared, t) := ⟨h.shared, hfair, hsound⟩
        exact (hinv.step input).shared
  fair := by
    refine forall_tasks_step ⟨.start, trivial⟩ (fun t input ht => ?_) e h.fair
    have hinv : PassInv fb.chain (w.shared, t) := ⟨h.shared, ht.1, ht.2⟩
    exact ⟨(hinv.step input).fair, (hinv.step input).point⟩

/-- No lock is poisoned, and no request has panicked. -/
structure Calm (w : FallbackWorld) : Prop where
  clear : w.shared.Clear
  tasks : ∀ t ∈ w.tasks, t.point.panicked = false

variable {fb env} in
/-- **A step in time** leaves the locks as they are, and no request panics. -/
lemma Calm.step {w : FallbackWorld} (h : Calm w) {e : FallbackEvent} (htime : w.InTime env e) :
    Calm (fb.step env w e) := by
  cases e with
  | chat =>
    refine ⟨h.clear, fun t ht => ?_⟩
    rcases List.mem_append.1 ht with ht | ht
    · exact h.tasks t ht
    · exact List.mem_singleton.1 ht ▸ rfl
  | outside pools keys poisoned =>
    obtain rfl : poisoned = [] := htime
    exact ⟨⟨h.clear.cooldowns, fun p => by simpa [FallbackChatProvider.step] using h.clear.pools p⟩,
      h.tasks⟩
  | task i input =>
    cases hi : w.tasks[i]? with
    | none => exact (step_task_none fb env hi input).symm ▸ h
    | some t =>
      have ht : t.point.panicked = false := h.tasks t (List.mem_of_getElem? hi)
      have hin : t.InTime env w.shared input := htime t hi
      rw [step_task fb env hi]
      have hcalm := (panicked_step_iff h.clear ht).2 hin
      refine ⟨clear_step h.clear hcalm, fun u hu => ?_⟩
      rcases List.mem_or_eq_of_mem_set hu with hu | hu
      · exact h.tasks u hu
      · exact hu ▸ hcalm

section NeverTried

/-- One model, at two providers. -/
def twoProviders : FallbackChatProvider where
  chain := [⟨0, "glm-5.2", "glm", none, none⟩, ⟨1, "glm-5.2", "zhipu", none, none⟩]
  nonempty := nofun

/-- A model with a pool that has no key. -/
def emptyPool : FallbackChatProvider where
  chain := [⟨0, "glm-5.2", "glm", some 0, some 0⟩]
  nonempty := nofun

/-- The first provider refuses the key. -/
def refusedKey : List FallbackEvent :=
  let m : Moment := ⟨0, 0, 0⟩
  [.chat, .task 0 (.proceed m), .task 0 (.opened m none),
    .task 0 (.event m (.httpError 401 "Unauthorized")), .task 0 (.proceed m),
    .task 0 (.proceed m)]

/-- A request goes to the end of the chain without an answer from outside. -/
def noAnswer : List FallbackEvent :=
  let m : Moment := ⟨0, 0, 0⟩
  [.chat, .task 0 (.proceed m), .task 0 (.proceed m), .task 0 (.proceed m)]

end NeverTried

end FallbackChatProvider

end MyClaw
