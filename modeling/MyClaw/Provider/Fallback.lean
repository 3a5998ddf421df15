import MyClaw.Provider.ChatStream
import MyClaw.Provider.CredentialPool
import MyClaw.Provider.ErrorClass
import MyClaw.Lib.Run
import MyClaw.Lib.StrSlice

set_option autoImplicit false

/-!
# The fallback chain

`FallbackChatProvider` (`providers/fallback.rs`): the task that a chat request spawns, with its three
loops over entries, credential rotations and retries of the same model, as a machine that takes one
step at a time.  Requests of one chain share the cooldowns; the credential pools and the key cells
are shared with other chains too.

## Main definitions

* `FallbackEntry`, `FallbackChatProvider` — an entry and the chain.
* `FallbackShared` — the cooldowns, the pools and the key cells.
* `recordCooldown` — a deadline is put into the cooldowns, or the addition panics.
* `ChatTask.step` — one step of a request.
* `FallbackChatProvider.step` — one step of the requests of a chain.

## Main results

* `ChatTask.mem_sent_forward` — what a request has sent after it forwards an event.
* `FallbackChatProvider.forall_tasks_step` — what holds of every request after a step.

## Implementation notes

A step is what runs between two points at which another request may come in between: a lock that is
taken, an event that arrives.  The sleeps before a retry are left out, since nothing but time passes
in them.  `attempts`, `usedKey`, `passed`, `answering` and `abandoned` of a request and `entry` and
`failure` of a cooldown are not kept by the source; they say what happened.

The cooldowns and each pool are behind a lock.  A deadline past the last instant of the platform panics
while the lock is held and leaves it poisoned; a request that takes a poisoned lock panics, too, and its
stream ends without an event.
-/

namespace MyClaw

open StrSlice

/-- What a chain takes from elsewhere: the classification of errors, and the last `Instant` of the
platform. -/
structure FallbackEnv extends ErrorEnv where
  lastInstant : ℕ

/-- The seconds of an instant are an `i64`. -/
def FallbackEnv.plain : FallbackEnv := ⟨.plain, 2 ^ 63 * 1000000000 - 1⟩

/-- An entry of the chain; the provider, the pool and the key cell are named by numbers. -/
structure FallbackEntry where
  provider : ℕ
  modelId : String
  providerId : String
  credentialPool : Option ℕ
  sharedApiKey : Option ℕ

/-- The provider with its chain, that `FallbackChatProvider::new` wants nonempty. -/
structure FallbackChatProvider where
  chain : List FallbackEntry
  nonempty : chain ≠ []

/-- The deadline under a model id, with the entry that recorded it and the failure for which it did;
no failure if the entry had no key to try. -/
structure Cooldown where
  availableAt : ℕ
  entry : FallbackEntry
  failure : Option ClassifiedError

/-- What requests share. -/
structure FallbackShared where
  cooldowns : String → Option Cooldown
  pools : ℕ → CredentialPool
  keys : ℕ → String
  /-- A panic has left the lock of the cooldowns poisoned. -/
  poisoned : Bool
  /-- The same of the lock of a pool. -/
  poisonedPools : ℕ → Bool

/-- The clocks and the random number that a step reads. -/
structure Moment where
  now : ℕ
  wallClock : ℕ
  random : ℕ

/-- How a request got past an entry of the chain. -/
inductive Outcome
  /-- Its model was on cooldown. -/
  | cooling (cooldown : Cooldown) (now : ℕ)
  /-- It failed, with this error last. -/
  | failed (error : ClassifiedError)
  /-- Its pool had no key, so that it was not tried. -/
  | keyless

/-- The variables of the loops while the request is at an entry. -/
structure Lap where
  entry : FallbackEntry
  rest : List FallbackEntry
  maxRotations : ℕ
  rotation : ℕ
  transientAttempt : ℕ

/-- A rotation of the credential of an entry. -/
structure Rotation where
  lap : Lap
  pool : ℕ
  cell : ℕ
  error : ClassifiedError

/-- How a request ends. -/
inductive ChatEnd
  /-- The stream of an entry ended. -/
  | completed
  /-- An error was passed on. -/
  | refused (error : ClassifiedError)
  /-- The last entry was passed. -/
  | chainEnd
  /-- The task has panicked. -/
  | panicked (why : Panic)

/-- The place that a request has come to. -/
inductive ChatPoint
  /-- Before the cooldown gate, with the entries to come. -/
  | gate (rest : List FallbackEntry)
  /-- Before the call of the provider. -/
  | opening (lap : Lap)
  /-- In the stream of the provider. -/
  | streaming (lap : Lap) (sawContent modelAnnounced : Bool)
  /-- Before `mark_exhausted`; the key has been read. -/
  | marking (r : Rotation) (oldKey : String)
  /-- Before `next_credential`. -/
  | choosing (r : Rotation)
  /-- Before the new key is set. -/
  | setting (r : Rotation) (newKey : String)
  /-- No key is left; before the cooldown is recorded. -/
  | parking (r : Rotation)
  /-- At the guard after the rotations, with the error of the last. -/
  | guarding (entry : FallbackEntry) (rest : List FallbackEntry) (last : Option ClassifiedError)
  | finished (result : ChatEnd)

/-- An event that was sent to the caller, with the attempt that it comes from; none for an error of
the chain itself. -/
structure SentEvent where
  attempt : Option ℕ
  event : StreamEvent
  deriving DecidableEq

/-- The task of a request. -/
structure ChatTask where
  point : ChatPoint
  anyAttempted : Bool
  soonestCooling : Option ℕ
  sent : List SentEvent
  /-- The calls of a provider so far; the number of the latest. -/
  attempts : ℕ
  /-- The key that was in the cell of the entry at the latest call of a provider. -/
  usedKey : Option String
  /-- The entries that the request got past. -/
  passed : List (FallbackEntry × Outcome)
  /-- The latest attempt has produced content. -/
  answering : Bool
  /-- An attempt that had produced content was given up. -/
  abandoned : Bool

/-- What a request waits for. -/
inductive ChatInput
  /-- Nothing: a lock is taken, the clock is read. -/
  | proceed (m : Moment)
  /-- `entry.provider.chat(req)` returns, with the text of its error if it has one. -/
  | opened (m : Moment) (error : Option String)
  | event (m : Moment) (e : StreamEvent)
  | streamEnd

/-! ## Retries, cooldowns and the end of the chain -/

/-- The error that is made of a status and a text at an entry. -/
def Lap.classify (lap : Lap) (env : FallbackEnv) (m : Moment) (status : ℕ) (text : String) :
    ClassifiedError :=
  (ClassifiedError.classify env.toErrorEnv m.wallClock lap.entry.providerId status text).withProvider
    lap.entry.providerId lap.entry.modelId

/-- `same_model_max_retries`. -/
def sameModelMaxRetries (error : ClassifiedError) : ℕ :=
  match error.category with
  | .rateLimit => 1
  | _ => 2

/-- The condition of a retry of the same model, without the look at the content. -/
def mayRetrySameModel (lap : Lap) (error : ClassifiedError) : Bool :=
  error.shouldSameModelRetry && decide (lap.transientAttempt < sameModelMaxRetries error)

/-- The duration that `record_cooldown` takes: that of the pool, or that of the error. -/
def FallbackShared.cooldownDuration (sh : FallbackShared) (now : ℕ) (entry : FallbackEntry)
    (error : ClassifiedError) (pool : Option ℕ) : Option ℕ :=
  (pool.bind fun p => (sh.pools p).soonestRecovery now entry.modelId).or error.cooldownDuration

/-- `record_cooldown`, of an entry and for a cause. -/
def recordCooldown (env : FallbackEnv) (sh : FallbackShared) (now : ℕ) (entry : FallbackEntry)
    (error : ClassifiedError) (pool : Option ℕ) (cause : Option ClassifiedError) :
    Except Panic Unit × FallbackShared :=
  if pool.any sh.poisonedPools then (.error .poison, sh)
  else
    match sh.cooldownDuration now entry error pool with
    | some d =>
      if sh.poisoned then (.error .poison, sh)
      -- The addition panics while the cooldowns are held.
      else if env.lastInstant < now + d then (.error .overflow, { sh with poisoned := true })
      else
        (.ok (), { sh with
          cooldowns := Function.update sh.cooldowns entry.modelId (some ⟨now + d, entry, cause⟩) })
    | none => (.ok (), sh)

/-- `SharedCredentialPool::mark_exhausted`; only for a key of the pool is a deadline computed. -/
def FallbackShared.markExhausted (sh : FallbackShared) (env : FallbackEnv) (now pool : ℕ)
    (key scope : String) (duration : ℕ) : Except Panic Unit × FallbackShared :=
  if sh.poisonedPools pool then (.error .poison, sh)
  -- The addition panics while the pool is held.
  else if (sh.pools pool).entries.any (·.key = key) ∧ env.lastInstant < now + duration then
    (.error .overflow, { sh with poisonedPools := Function.update sh.poisonedPools pool true })
  else
    (.ok (), { sh with
      pools := Function.update sh.pools pool
        ((sh.pools pool).markExhausted now key scope duration) })

/-- The error of the guard after the rotations. -/
def guardError (env : FallbackEnv) (m : Moment) (entry : FallbackEntry) : ClassifiedError :=
  ClassifiedError.classify env.toErrorEnv m.wallClock entry.providerId 503 "all credentials exhausted"

/-- `CHAIN_EXHAUSTED_TAG` with its text. -/
def chainExhaustedMessage : String :=
  "fallback_chain_exhausted: All providers in fallback chain failed with retryable errors"

/-- `CHAIN_ALL_COOLING_TAG` with its text. -/
def chainAllCoolingMessage (waitSecs : ℕ) : String :=
  "fallback_chain_all_cooling: all providers on cooldown, retry in " ++ toString waitSecs ++ "s"

namespace ChatTask

/-- The task that `chat` spawns. -/
def start (chain : List FallbackEntry) : ChatTask where
  point := .gate chain
  anyAttempted := false
  soonestCooling := none
  sent := []
  attempts := 0
  usedKey := none
  passed := []
  answering := false
  abandoned := false

/-- Go on to the entries after this one; what the attempt has produced is given up. -/
def pass (t : ChatTask) (entry : FallbackEntry) (outcome : Outcome) (rest : List FallbackEntry) :
    ChatTask :=
  { t with
    point := .gate rest
    passed := t.passed ++ [(entry, outcome)]
    abandoned := t.abandoned || t.answering }

/-- The task panics; nothing more is sent. -/
def crash (t : ChatTask) (why : Panic) : ChatTask := { t with point := .finished (.panicked why) }

/-- What comes after a call that may panic. -/
def after (t : ChatTask) (call : Except Panic Unit × FallbackShared) (next : ChatTask) :
    FallbackShared × ChatTask :=
  match call.1 with
  | .ok () => (call.2, next)
  | .error why => (call.2, t.crash why)

/-- Pass an error on and stop. -/
def refuse (t : ChatTask) (error : ClassifiedError) (e : StreamEvent) : ChatTask :=
  { t with point := .finished (.refused error), sent := t.sent ++ [⟨some t.attempts, e⟩] }

/-- After the last entry. -/
def endChain (t : ChatTask) (now : ℕ) : ChatTask :=
  let waitSecs := (t.soonestCooling.map fun at_ => (at_ - now) / 1000000000).getD 0
  let message := if t.anyAttempted then chainExhaustedMessage else chainAllCoolingMessage waitSecs
  { t with point := .finished .chainEnd, sent := t.sent ++ [⟨none, .error message⟩] }

/-- The cooldown gate lets the entry through. -/
def tryEntry (t : ChatTask) (sh : FallbackShared) (entry : FallbackEntry)
    (rest : List FallbackEntry) : ChatTask :=
  let maxRotations := (entry.credentialPool.map fun p => (sh.pools p).len).getD 1
  { t with
    anyAttempted := true
    point :=
      if entry.credentialPool.any sh.poisonedPools then .finished (.panicked .poison)
      else if 0 < maxRotations then .opening ⟨entry, rest, maxRotations, 0, 0⟩
      else .guarding entry rest none }

/-- The cooldown gate. -/
def gate (t : ChatTask) (sh : FallbackShared) (now : ℕ) (entry : FallbackEntry)
    (rest : List FallbackEntry) : FallbackShared × ChatTask :=
  if sh.poisoned then (sh, t.crash .poison)
  else
    match sh.cooldowns entry.modelId with
    | some c =>
      if now < c.availableAt then
        (sh, { t with
          soonestCooling := some ((t.soonestCooling.map (min · c.availableAt)).getD c.availableAt)
          point := .gate rest
          passed := t.passed ++ [(entry, .cooling c now)] })
      else
        ({ sh with cooldowns := Function.update sh.cooldowns entry.modelId none },
          t.tryEntry sh entry rest)
    | none => (sh, t.tryEntry sh entry rest)

/-- An error that is not tried again with the same model: the next entry, or the end. -/
def failOver (t : ChatTask) (sh : FallbackShared) (env : FallbackEnv) (now : ℕ) (lap : Lap)
    (error : ClassifiedError) (e : StreamEvent) : FallbackShared × ChatTask :=
  if shouldFailoverToNext error then
    t.after (recordCooldown env sh now lap.entry error none (some error))
      (t.pass lap.entry (.failed error) lap.rest)
  else (sh, t.refuse error e)

/-- Try the same model again, if nothing was sent, or fail over. -/
def retryOrFailOver (t : ChatTask) (sh : FallbackShared) (env : FallbackEnv) (now : ℕ) (lap : Lap)
    (sawContent : Bool) (error : ClassifiedError) (e : StreamEvent) : FallbackShared × ChatTask :=
  if mayRetrySameModel lap error && !sawContent then
    (sh, { t with point := .opening { lap with transientAttempt := lap.transientAttempt + 1 } })
  else t.failOver sh env now lap error e

/-- The call of the provider has failed; nothing was sent. -/
def setupFailed (t : ChatTask) (sh : FallbackShared) (env : FallbackEnv) (m : Moment) (lap : Lap)
    (text : String) : FallbackShared × ChatTask :=
  t.retryOrFailOver sh env m.now lap false (lap.classify env m 0 text) (.error text)

/-- The stream has produced an error: rotate the credential, or do as above. -/
def streamFailed (t : ChatTask) (sh : FallbackShared) (env : FallbackEnv) (m : Moment) (lap : Lap)
    (sawContent : Bool) (status : ℕ) (text : String) (e : StreamEvent) :
    FallbackShared × ChatTask :=
  let error := lap.classify env m status text
  match lap.entry.credentialPool, lap.entry.sharedApiKey with
  | some pool, some cell =>
    if error.shouldRotateCredential then
      (sh, { t with
        point := .marking ⟨lap, pool, cell, error⟩ (sh.keys cell)
        abandoned := t.abandoned || t.answering })
    else t.retryOrFailOver sh env m.now lap sawContent error e
  | _, _ => t.retryOrFailOver sh env m.now lap sawContent error e

/-- Any other event is forwarded; the first one of an attempt is announced. -/
def forward (t : ChatTask) (lap : Lap) (modelAnnounced : Bool) (e : StreamEvent) : ChatTask :=
  let announcement : List SentEvent :=
    if modelAnnounced then [] else [⟨some t.attempts, .modelUsed lap.entry.modelId⟩]
  { t with
    point := .streaming lap true true
    sent := t.sent ++ announcement ++ [⟨some t.attempts, e⟩]
    answering := t.answering || e.isContent }

/-- The old key is marked, for an hour if the error has no cooldown. -/
def mark (t : ChatTask) (sh : FallbackShared) (env : FallbackEnv) (now : ℕ) (r : Rotation)
    (oldKey : String) : FallbackShared × ChatTask :=
  t.after (sh.markExhausted env now r.pool oldKey r.lap.entry.modelId
    (r.error.cooldownDuration.getD (fromSecs 3600))) { t with point := .choosing r }

/-- `next_credential`. -/
def choose (t : ChatTask) (sh : FallbackShared) (m : Moment) (r : Rotation) :
    FallbackShared × ChatTask :=
  if sh.poisonedPools r.pool then (sh, t.crash .poison)
  else
    let next := (sh.pools r.pool).nextCredential m.now m.random r.lap.entry.modelId
    ({ sh with pools := Function.update sh.pools r.pool next.2 },
      { t with point :=
        match next.1 with
        | some newKey => .setting r newKey
        | none => .parking r })

/-- The new key is set, and the loop over the rotations goes on as long as it may. -/
def setKey (t : ChatTask) (sh : FallbackShared) (r : Rotation) (newKey : String) :
    FallbackShared × ChatTask :=
  ({ sh with keys := Function.update sh.keys r.cell newKey },
    { t with point :=
      if r.lap.rotation + 1 < r.lap.maxRotations then
        .opening { r.lap with rotation := r.lap.rotation + 1, transientAttempt := 0 }
      else .guarding r.lap.entry r.lap.rest (some r.error) })

/-- Every credential is exhausted: the cooldown is that of the pool. -/
def park (t : ChatTask) (sh : FallbackShared) (env : FallbackEnv) (now : ℕ) (r : Rotation) :
    FallbackShared × ChatTask :=
  t.after (recordCooldown env sh now r.lap.entry r.error (some r.pool) (some r.error))
    (t.pass r.lap.entry (.failed r.error) r.lap.rest)

/-- The guard after the rotations. -/
def guard (t : ChatTask) (sh : FallbackShared) (env : FallbackEnv) (m : Moment)
    (entry : FallbackEntry) (rest : List FallbackEntry) (last : Option ClassifiedError) :
    FallbackShared × ChatTask :=
  t.after (recordCooldown env sh m.now entry (guardError env m entry) none last)
    (t.pass entry ((last.map .failed).getD .keyless) rest)

/-- One step of a request; an input that it does not wait for changes nothing. -/
def step (t : ChatTask) (sh : FallbackShared) (env : FallbackEnv) (input : ChatInput) :
    FallbackShared × ChatTask :=
  match t.point, input with
  | .gate [], .proceed m => (sh, t.endChain m.now)
  | .gate (entry :: rest), .proceed m => t.gate sh m.now entry rest
  | .opening lap, .opened m error =>
    let t := { t with
      attempts := t.attempts + 1
      usedKey := lap.entry.sharedApiKey.map sh.keys
      answering := false }
    match error with
    | some text => t.setupFailed sh env m lap text
    | none => (sh, { t with point := .streaming lap false false })
  | .streaming lap sawContent _, .event m (.httpError status message) =>
    t.streamFailed sh env m lap sawContent status message (.httpError status message)
  | .streaming lap sawContent _, .event m (.error message) =>
    t.streamFailed sh env m lap sawContent 0 message (.error message)
  | .streaming lap _ modelAnnounced, .event _ e => (sh, t.forward lap modelAnnounced e)
  | .streaming _ _ _, .streamEnd => (sh, { t with point := .finished .completed })
  | .marking r oldKey, .proceed m => t.mark sh env m.now r oldKey
  | .choosing r, .proceed m => t.choose sh m r
  | .setting r newKey, .proceed _ => t.setKey sh r newKey
  | .parking r, .proceed m => t.park sh env m.now r
  | .guarding entry rest last, .proceed m => t.guard sh env m entry rest last
  | _, _ => (sh, t)

/-! ## A call that may panic -/

variable {t next : ChatTask} {call : Except Panic Unit × FallbackShared}

/-- After a call that may panic the request goes on, or its task is gone. -/
lemma after_of {P : FallbackShared × ChatTask → Prop} (hnext : P (call.2, next))
    (hcrash : ∀ why, P (call.2, t.crash why)) : P (t.after call next) := by
  unfold after
  split
  · exact hnext
  · exact hcrash _

/-! ## What a forwarded event adds -/

/-- The first event of an attempt comes after its announcement. -/
lemma sent_forward_first (t : ChatTask) (lap : Lap) (e : StreamEvent) :
    (t.forward lap false e).sent
      = t.sent ++ [⟨some t.attempts, .modelUsed lap.entry.modelId⟩] ++ [⟨some t.attempts, e⟩] :=
  rfl

/-- The events after it come alone. -/
lemma sent_forward_next (t : ChatTask) (lap : Lap) (e : StreamEvent) :
    (t.forward lap true e).sent = t.sent ++ [⟨some t.attempts, e⟩] := by
  simp [ChatTask.forward]

/-- A forwarded event is one of the present attempt. -/
lemma mem_sent_forward {t : ChatTask} {lap : Lap} {announced : Bool} {e : StreamEvent}
    {x : SentEvent} (h : x ∈ (t.forward lap announced e).sent) :
    x ∈ t.sent ∨ x.attempt = some t.attempts := by
  cases announced with
  | false =>
    rw [sent_forward_first] at h
    rcases List.mem_append.1 h with h | h
    · rcases List.mem_append.1 h with h | h
      · exact .inl h
      · exact .inr (List.mem_singleton.1 h ▸ rfl)
    · exact .inr (List.mem_singleton.1 h ▸ rfl)
  | true =>
    rw [sent_forward_next] at h
    rcases List.mem_append.1 h with h | h
    · exact .inl h
    · exact .inr (List.mem_singleton.1 h ▸ rfl)

end ChatTask

/-! ## The requests of a chain -/

/-- The requests of a chain with what they share. -/
structure FallbackWorld where
  shared : FallbackShared
  tasks : List ChatTask

/-- What happens to the requests of a chain. -/
inductive FallbackEvent
  /-- A request is made. -/
  | chat
  /-- A request takes a step. -/
  | task (i : ℕ) (input : ChatInput)
  /-- Pools and key cells are changed from outside the chain; a panic there leaves pools poisoned. -/
  | outside (pools : ℕ → CredentialPool) (keys : ℕ → String) (poisoned : List ℕ)

/-- A chain before its first request: no model is on cooldown. -/
def FallbackWorld.start (pools : ℕ → CredentialPool) (keys : ℕ → String) : FallbackWorld :=
  ⟨⟨fun _ => none, pools, keys, false, fun _ => false⟩, []⟩

@[simp] lemma FallbackWorld.tasks_start (pools : ℕ → CredentialPool) (keys : ℕ → String) :
    (FallbackWorld.start pools keys).tasks = [] := rfl

namespace FallbackChatProvider

variable (fb : FallbackChatProvider) (env : FallbackEnv)

/-- One step of the requests of a chain. -/
def step (w : FallbackWorld) : FallbackEvent → FallbackWorld
  | .chat => { w with tasks := w.tasks ++ [ChatTask.start fb.chain] }
  | .task i input =>
    match w.tasks[i]? with
    | none => w
    | some t =>
      let (shared, t) := t.step w.shared env input
      { shared, tasks := w.tasks.set i t }
  | .outside pools keys poisoned =>
    { w with shared := { w.shared with
        pools, keys, poisonedPools := fun p => w.shared.poisonedPools p || decide (p ∈ poisoned) } }

/-- The state in which a run ends whose pools have no keys. -/
def plainRun (es : List FallbackEvent) : FallbackWorld :=
  Run.exec (fb.step .plain) (.start (fun _ => .new [] .fillFirst) fun _ => "") es

variable {fb env} {w : FallbackWorld}

variable (fb env) in
lemma step_task {i : ℕ} {t : ChatTask} (h : w.tasks[i]? = some t) (input : ChatInput) :
    fb.step env w (.task i input)
      = ⟨(t.step w.shared env input).1, w.tasks.set i (t.step w.shared env input).2⟩ := by
  simp [step, h]

variable (fb env) in
lemma step_task_none {i : ℕ} (h : w.tasks[i]? = none) (input : ChatInput) :
    fb.step env w (.task i input) = w := by
  simp [step, h]

/-- **All requests after a step**: a new one is at the start, one may have taken its step, the others
are as they were. -/
theorem forall_tasks_step {P : ChatTask → Prop} (hstart : P (ChatTask.start fb.chain))
    (hstep : ∀ t input, P t → P (t.step w.shared env input).2) (e : FallbackEvent)
    (h : ∀ t ∈ w.tasks, P t) : ∀ t ∈ (fb.step env w e).tasks, P t := by
  cases e with
  | chat =>
    intro t ht
    rcases List.mem_append.1 ht with ht | ht
    · exact h t ht
    · exact List.mem_singleton.1 ht ▸ hstart
  | task i input =>
    cases hi : w.tasks[i]? with
    | none => exact (step_task_none fb env hi input).symm ▸ h
    | some t =>
      rw [step_task fb env hi]
      intro u hu
      rcases List.mem_or_eq_of_mem_set hu with hu | hu
      · exact h u hu
      · exact hu ▸ hstep t input (h t (List.mem_of_getElem? hi))
  | outside pools keys poisoned => exact h

end FallbackChatProvider

end MyClaw
