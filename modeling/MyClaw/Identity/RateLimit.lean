import MyClaw.Lib.FixedWindow
import MyClaw.Lib.Run
import Mathlib.Data.List.Induction

set_option autoImplicit false

/-!
# The rate limiter

`KnownUsersRegistry::check_and_record` (`identity/known_users/registry.rs`) counts the messages of all
senders in one fixed window and those of each sender in one of its own.

## Main definitions

* `RateRegistry.checkAndRecord` — the verdict on a message, and the users that are known.
* `RateRun` — the registry with the calls so far and their verdicts.
* `Calm` — a sequence of calls that never reaches the limit of all senders.

## Main results

* `fixed_windows_bound` — what a window of 60 s admits, and what isolates the senders.
* `rejected_messages_count` — two windows of a sender next to each other let in twice its
  limit, and messages that are rejected use up the limit of all senders.

## Implementation notes

The clock is read once in a call here; the source reads it once for each of the two windows and once for
the user.  The users are kept in the order in which the map has them.
-/

namespace MyClaw

/-! ## The registry -/

/-- `SENDER_LIMIT_PER_MIN`. -/
def senderLimitPerMin : ℕ := 30

/-- `GLOBAL_LIMIT_PER_MIN`. -/
def globalLimitPerMin : ℕ := 300

/-- `WINDOW_MS`. -/
def windowMs : ℕ := 60000

/-- `MAX_USERS`. -/
def maxUsers : ℕ := 10000

/-- `KnownUser`. -/
structure KnownUser where
  channel : String
  account : String
  userId : String
  messageCount : ℕ
  firstSeenMs : ℕ
  lastSeenMs : ℕ
  scope : String

/-- A call of `check_and_record`, with its time. -/
structure RateCall where
  now : ℕ
  channel : String
  account : String
  userId : String
  scope : String

/-- `routing_key`; a sender is a routing key. -/
def routingKey (channel account userId : String) : String :=
  channel ++ ":" ++ account ++ ":" ++ userId

/-- The sender of a message. -/
def RateCall.sender (call : RateCall) : String := routingKey call.channel call.account call.userId

/-- What became of a message. -/
inductive RateVerdict
  | allowed
  /-- The limit of all senders is used up. -/
  | globalLimit
  /-- The limit of the sender is used up. -/
  | senderLimit
  deriving DecidableEq

/-- The registry, its part about known users and rates. -/
structure RateRegistry where
  users : List (String × KnownUser)
  /-- The count and the start of the window of a sender. -/
  rateBuckets : String → Option (ℕ × ℕ)
  /-- A `u32` that wraps around. -/
  globalCount : ℕ
  globalWindowStart : ℕ

/-- The first user that was seen longest ago. -/
def oldestUser : List (String × KnownUser) → Option (String × KnownUser)
  | [] => none
  | u :: l =>
    match oldestUser l with
    | none => some u
    | some v => if v.2.lastSeenMs < u.2.lastSeenMs then some v else some u

/-- What `check_rate_limit_sender` makes of a bucket. -/
def checkBucket (now : ℕ) (bucket : Option (ℕ × ℕ)) : (ℕ × ℕ) × Bool :=
  let (count, windowStart) := bucket.getD (0, now)
  let (count, windowStart) :=
    if windowMs < now - windowStart then (0, now) else (count, windowStart)
  if senderLimitPerMin ≤ count then ((count, windowStart), false)
  else ((count + 1, windowStart), true)

namespace RateRegistry

/-- A registry in which nothing has happened. -/
def new : RateRegistry := ⟨[], fun _ => none, 0, 0⟩

/-- `insert_or_update`. -/
def insertOrUpdate (r : RateRegistry) (call : RateCall) : RateRegistry :=
  let rk := call.sender
  let known := r.users.any (·.1 = rk)
  let users :=
    if !known ∧ maxUsers ≤ r.users.length then
      match oldestUser r.users with
      | some oldest => r.users.filter (·.1 ≠ oldest.1)
      | none => r.users
    else r.users
  { r with users :=
      if known then
        users.map fun u =>
          if u.1 = rk then
            (rk, { u.2 with
              messageCount := u.2.messageCount + 1, lastSeenMs := call.now, scope := call.scope })
          else u
      else users ++
        [(rk, ⟨call.channel, call.account, call.userId, 1, call.now, call.now, call.scope⟩)] }

/-- `check_rate_limit_global`. -/
def checkRateLimitGlobal (r : RateRegistry) (now : ℕ) : RateRegistry × Bool :=
  let r := if windowMs < now - r.globalWindowStart then
    { r with globalCount := 0, globalWindowStart := now } else r
  ({ r with globalCount := (r.globalCount + 1) % 2 ^ 32 }, decide (r.globalCount < globalLimitPerMin))

/-- `check_rate_limit_sender`. -/
def checkRateLimitSender (r : RateRegistry) (now : ℕ) (rk : String) : RateRegistry × Bool :=
  let (bucket, allowed) := checkBucket now (r.rateBuckets rk)
  ({ r with rateBuckets := Function.update r.rateBuckets rk (some bucket) }, allowed)

/-- `check_and_record`. -/
def checkAndRecord (r : RateRegistry) (call : RateCall) : RateRegistry × RateVerdict :=
  let (r, allowed) := r.checkRateLimitGlobal call.now
  if allowed then
    let (r, allowed) := r.checkRateLimitSender call.now call.sender
    if allowed then (r.insertOrUpdate call, .allowed) else (r, .senderLimit)
  else (r, .globalLimit)

end RateRegistry

/-! ## Runs -/

/-- A registry with the calls so far. -/
structure RateRun where
  registry : RateRegistry
  log : List (RateCall × RateVerdict)

namespace RateRun

/-- Before the first call. -/
def start : RateRun := ⟨.new, []⟩

/-- One call. -/
def step (w : RateRun) (call : RateCall) : RateRun :=
  let (registry, verdict) := w.registry.checkAndRecord call
  ⟨registry, w.log ++ [(call, verdict)]⟩

/-- The calls in order. -/
def run (calls : List RateCall) : RateRun := Run.exec step start calls

/-- The times of the messages that were let through, of all senders. -/
def allowedTimes (w : RateRun) : List ℕ :=
  (w.log.filter fun x => decide (x.2 = .allowed)).map (·.1.now)

/-- The same for one sender. -/
def allowedTimesOf (w : RateRun) (rk : String) : List ℕ :=
  (w.log.filter fun x => decide (x.2 = .allowed ∧ x.1.sender = rk)).map (·.1.now)

/-- The verdicts on the messages of a sender. -/
def verdictsOf (w : RateRun) (rk : String) : List RateVerdict :=
  (w.log.filter fun x => decide (x.1.sender = rk)).map (·.2)

/-- The calls without those of a sender that its own limit rejects. -/
def dropRejected (calls : List RateCall) (rk : String) : List RateCall :=
  ((run calls).log.filter fun x => !decide (x.1.sender = rk ∧ x.2 = .senderLimit)).map (·.1)

end RateRun

/-- Calls are made one after the other. -/
def Ordered (calls : List RateCall) : Prop := calls.Pairwise (·.now ≤ ·.now)

/-- The number of the calls in a window of the length of a limiter that starts at `a`. -/
def callsInWindow (calls : List RateCall) (a : ℕ) : ℕ :=
  calls.countP fun c => decide (a ≤ c.now ∧ c.now ≤ a + windowMs)

/-- No window has more calls than the limit of all senders. -/
def Calm (calls : List RateCall) : Prop := ∀ a, callsInWindow calls a ≤ globalLimitPerMin

/-! ## One call -/

namespace RateRegistry

/-- The start of the global window when a call comes in. -/
def windowStartAt (r : RateRegistry) (now : ℕ) : ℕ :=
  if windowMs < now - r.globalWindowStart then now else r.globalWindowStart

/-- The count of the global window when a call comes in. -/
def countAt (r : RateRegistry) (now : ℕ) : ℕ :=
  if windowMs < now - r.globalWindowStart then 0 else r.globalCount

variable {r : RateRegistry} {call : RateCall}

/-- **What a call does**: the global window counts it in any case; the bucket of the sender is looked at
only if that lets it through. -/
lemma checkAndRecord_cases (r : RateRegistry) (call : RateCall) :
    (r.checkAndRecord call).1.globalWindowStart = r.windowStartAt call.now ∧
      (r.checkAndRecord call).1.globalCount = (r.countAt call.now + 1) % 2 ^ 32 ∧
      (globalLimitPerMin ≤ r.countAt call.now ∧ (r.checkAndRecord call).2 = .globalLimit ∧
          (r.checkAndRecord call).1.rateBuckets = r.rateBuckets ∨
        r.countAt call.now < globalLimitPerMin ∧
          (r.checkAndRecord call).2 = (if (checkBucket call.now (r.rateBuckets call.sender)).2
            then .allowed else .senderLimit) ∧
          (r.checkAndRecord call).1.rateBuckets = Function.update r.rateBuckets call.sender
            (some (checkBucket call.now (r.rateBuckets call.sender)).1)) := by
  have hglobal : (r.checkRateLimitGlobal call.now).1
      = ⟨r.users, r.rateBuckets, (r.countAt call.now + 1) % 2 ^ 32, r.windowStartAt call.now⟩ := by
    unfold checkRateLimitGlobal countAt windowStartAt
    split <;> rfl
  have hpass : (r.checkRateLimitGlobal call.now).2
      = decide (r.countAt call.now < globalLimitPerMin) := by
    unfold checkRateLimitGlobal countAt
    split <;> rfl
  unfold checkAndRecord
  by_cases hlt : r.countAt call.now < globalLimitPerMin
  · simp only [hpass, hlt, decide_true, if_true, hglobal, checkRateLimitSender]
    cases hbucket : (checkBucket call.now (r.rateBuckets call.sender)).2 with
    | true => exact ⟨rfl, rfl, .inr ⟨trivial, rfl, rfl⟩⟩
    | false => exact ⟨rfl, rfl, .inr ⟨trivial, rfl, rfl⟩⟩
  · simp only [hpass, hlt, decide_false, Bool.false_eq_true, if_false, hglobal]
    exact ⟨trivial, trivial, .inl ⟨Nat.le_of_not_lt hlt, trivial, trivial⟩⟩

end RateRegistry

/-! ## The calls so far -/

namespace RateRun

variable {calls : List RateCall} {call : RateCall} {rk : String}

lemma run_append : run (calls ++ [call]) = (run calls).step call := Run.exec_append ..

/-- The log has the calls in their order. -/
lemma calls_of_log (calls : List RateCall) : (run calls).log.map (·.1) = calls := by
  induction calls using List.reverseRecOn with
  | nil => rfl
  | append_singleton calls call ih => rw [run_append, step, List.map_append, ih]; rfl

/-- The verdict on the last call. -/
lemma log_append : (run (calls ++ [call])).log
    = (run calls).log ++ [(call, ((run calls).registry.checkAndRecord call).2)] := by
  rw [run_append]
  rfl

lemma registry_append : (run (calls ++ [call])).registry
    = ((run calls).registry.checkAndRecord call).1 := by
  rw [run_append]
  rfl

lemma allowedTimes_append : (run (calls ++ [call])).allowedTimes = (run calls).allowedTimes
    ++ (if ((run calls).registry.checkAndRecord call).2 = .allowed then [call.now] else []) := by
  unfold allowedTimes
  rw [log_append, List.filter_append, List.map_append]
  by_cases h : ((run calls).registry.checkAndRecord call).2 = .allowed <;> simp [h]

lemma allowedTimesOf_append : (run (calls ++ [call])).allowedTimesOf rk
    = (run calls).allowedTimesOf rk
      ++ (if ((run calls).registry.checkAndRecord call).2 = .allowed ∧ call.sender = rk
        then [call.now] else []) := by
  unfold allowedTimesOf
  rw [log_append, List.filter_append, List.map_append]
  by_cases h : ((run calls).registry.checkAndRecord call).2 = .allowed ∧ call.sender = rk <;> simp [h]

lemma verdictsOf_append : (run (calls ++ [call])).verdictsOf rk = (run calls).verdictsOf rk
      ++ (if call.sender = rk then [((run calls).registry.checkAndRecord call).2] else []) := by
  unfold verdictsOf
  rw [log_append, List.filter_append, List.map_append]
  by_cases h : call.sender = rk <;> simp [h]

end RateRun

/-! ## Windows of the calls -/

section Windows

variable {calls : List RateCall} {call : RateCall}

lemma Ordered.of_append (h : Ordered (calls ++ [call])) :
    Ordered calls ∧ ∀ c ∈ calls, c.now ≤ call.now := by
  obtain ⟨hcalls, -, hlast⟩ := List.pairwise_append.1 h
  exact ⟨hcalls, fun c hc => hlast c hc call List.mem_cons_self⟩

lemma callsInWindow_append_le (a : ℕ) :
    callsInWindow calls a ≤ callsInWindow (calls ++ [call]) a := by
  unfold callsInWindow
  rw [List.countP_append]
  omega

/-- **The global count** is that of the calls since its window started, in a run with fewer calls in a
window than the counter can count. -/
structure CountInv (calls : List RateCall) (r : RateRegistry) : Prop where
  count : r.globalCount = calls.countP fun c => decide (r.globalWindowStart ≤ c.now)
  bound : ∀ c ∈ calls, c.now ≤ r.globalWindowStart + windowMs
  started : r.globalWindowStart = 0 ∨ ∃ c ∈ calls, c.now = r.globalWindowStart

/-- The present window is as old as the last call at most. -/
lemma CountInv.start_le {r : RateRegistry} (h : CountInv calls r)
    (hlast : ∀ c ∈ calls, c.now ≤ call.now) : r.globalWindowStart ≤ call.now := by
  rcases h.started with h | ⟨c, hc, h⟩
  · omega
  · exact h ▸ hlast c hc

/-- All calls since the start of the present window are in it. -/
lemma CountInv.count_le {r : RateRegistry} (h : CountInv calls r) (hcall : call.now ≤
    r.globalWindowStart + windowMs) (hlast : ∀ c ∈ calls, c.now ≤ call.now) :
    r.globalCount + 1 ≤ callsInWindow (calls ++ [call]) r.globalWindowStart := by
  have hle := h.start_le hlast
  have hsame : calls.countP (fun c => decide (r.globalWindowStart ≤ c.now))
      = callsInWindow calls r.globalWindowStart := by
    refine List.countP_congr fun c hc => ?_
    have hbound := h.bound c hc
    simp only [decide_eq_true_eq]
    omega
  have hone : callsInWindow [call] r.globalWindowStart = 1 := by
    simp [callsInWindow, hle, hcall]
  have happend : callsInWindow (calls ++ [call]) r.globalWindowStart
      = callsInWindow calls r.globalWindowStart + callsInWindow [call] r.globalWindowStart :=
    List.countP_append
  rw [h.count, hsame, happend, hone]

/-- The invariant holds in every run. -/
lemma countInv (hordered : Ordered calls) (hsmall : ∀ a, callsInWindow calls a < 2 ^ 32) :
    CountInv calls (RateRun.run calls).registry := by
  induction calls using List.reverseRecOn with
  | nil => exact ⟨rfl, nofun, .inl rfl⟩
  | append_singleton calls call ih =>
    obtain ⟨hcalls, hlast⟩ := hordered.of_append
    have h := ih hcalls fun a => Nat.lt_of_le_of_lt (callsInWindow_append_le a) (hsmall a)
    obtain ⟨hstart, hcount, -⟩ := (RateRun.run calls).registry.checkAndRecord_cases call
    rw [RateRun.registry_append]
    unfold RateRegistry.windowStartAt at hstart
    unfold RateRegistry.countAt at hcount
    by_cases hover : windowMs < call.now - (RateRun.run calls).registry.globalWindowStart
    · -- a new window, with this call in it
      rw [if_pos hover] at hstart hcount
      have hold : calls.countP (fun c => decide (call.now ≤ c.now)) = 0 := by
        refine List.countP_eq_zero.2 fun c hc => ?_
        have hbound := h.bound c hc
        simp only [decide_eq_true_eq]
        omega
      constructor
      · rw [hcount, hstart, List.countP_append, hold]
        simp
      · intro c hc
        rw [hstart]
        rcases List.mem_append.1 hc with hc | hc
        · have hle := hlast c hc
          omega
        · rw [List.mem_singleton.1 hc]
          omega
      · exact .inr ⟨call, by simp, hstart.symm⟩
    · rw [if_neg hover] at hstart hcount
      have hcall : call.now ≤ (RateRun.run calls).registry.globalWindowStart + windowMs := by omega
      have hle := h.start_le hlast
      have hlt : (RateRun.run calls).registry.globalCount + 1 < 2 ^ 32 :=
        Nat.lt_of_le_of_lt (h.count_le hcall hlast) (hsmall _)
      constructor
      · rw [hcount, hstart, Nat.mod_eq_of_lt hlt, List.countP_append, h.count]
        simp [hle]
      · intro c hc
        rw [hstart]
        rcases List.mem_append.1 hc with hc | hc
        · exact h.bound c hc
        · rw [List.mem_singleton.1 hc]
          exact hcall
      · rw [hstart]
        rcases h.started with h | ⟨c, hc, h⟩
        · exact .inl h
        · exact .inr ⟨c, List.mem_append_left _ hc, h⟩

/-- **The limit of all senders**: the window admits its limit at most. -/
lemma globalWindow (hordered : Ordered calls) (hsmall : ∀ a, callsInWindow calls a < 2 ^ 32) :
    FixedWindow.Inv globalLimitPerMin windowMs (RateRun.run calls).allowedTimes
      (RateRun.run calls).registry.globalWindowStart
      (min (RateRun.run calls).registry.globalCount globalLimitPerMin) := by
  induction calls using List.reverseRecOn with
  | nil => exact .start ..
  | append_singleton calls call ih =>
    obtain ⟨hcalls, hlast⟩ := hordered.of_append
    have hsmall' : ∀ a, callsInWindow calls a < 2 ^ 32 := fun a =>
      Nat.lt_of_le_of_lt (callsInWindow_append_le a) (hsmall a)
    have h := ih hcalls hsmall'
    have hinv := countInv hcalls hsmall'
    obtain ⟨hstart, hcount, hcases⟩ := (RateRun.run calls).registry.checkAndRecord_cases call
    rw [RateRun.registry_append, RateRun.allowedTimes_append, hstart, hcount]
    -- the window in which the call comes in
    have hpresent : FixedWindow.Inv globalLimitPerMin windowMs (RateRun.run calls).allowedTimes
        ((RateRun.run calls).registry.windowStartAt call.now)
        (min ((RateRun.run calls).registry.countAt call.now) globalLimitPerMin) ∧
        (RateRun.run calls).registry.windowStartAt call.now ≤ call.now ∧
        call.now ≤ (RateRun.run calls).registry.windowStartAt call.now + windowMs ∧
        (RateRun.run calls).registry.countAt call.now + 1 < 2 ^ 32 := by
      unfold RateRegistry.windowStartAt RateRegistry.countAt
      by_cases hover : windowMs < call.now - (RateRun.run calls).registry.globalWindowStart
      · simp only [if_pos hover]
        refine ⟨?_, Nat.le_refl _, by omega, by omega⟩
        rw [Nat.zero_min]
        exact h.restart (by omega)
      · have hcall : call.now ≤ (RateRun.run calls).registry.globalWindowStart + windowMs := by omega
        simp only [if_neg hover]
        exact ⟨h, hinv.start_le hlast, hcall,
          Nat.lt_of_le_of_lt (hinv.count_le hcall hlast) (hsmall _)⟩
    obtain ⟨hpresent, hlow, hhigh, hlt⟩ := hpresent
    rw [Nat.mod_eq_of_lt hlt]
    rcases hcases with ⟨hfull, hverdict, -⟩ | ⟨hfree, hverdict, -⟩
    · rw [hverdict, if_neg (by decide), List.append_nil]
      exact hpresent.mono (by omega) (Nat.min_le_right ..)
    · by_cases hallowed : ((RateRun.run calls).registry.checkAndRecord call).2 = .allowed
      · rw [if_pos hallowed]
        rw [Nat.min_eq_left (Nat.le_of_lt hfree)] at hpresent
        rw [Nat.min_eq_left hfree]
        exact hpresent.accept hlow hhigh hfree
      · rw [if_neg hallowed, List.append_nil]
        exact hpresent.mono (by omega) (Nat.min_le_right ..)

/-- What is known of the bucket of a sender. -/
def BucketInv (calls : List RateCall) (times : List ℕ) : Option (ℕ × ℕ) → Prop
  | none => times = []
  | some (count, windowStart) =>
    FixedWindow.Inv senderLimitPerMin windowMs times windowStart count ∧
      ∃ c ∈ calls, c.now = windowStart

/-- The bucket after a message of its sender. -/
lemma BucketInv.check {times : List ℕ} {bucket : Option (ℕ × ℕ)} (h : BucketInv calls times bucket)
    (hlast : ∀ c ∈ calls, c.now ≤ call.now) :
    BucketInv (calls ++ [call])
      (times ++ if (checkBucket call.now bucket).2 then [call.now] else [])
      (some (checkBucket call.now bucket).1) := by
  -- the window in which the message comes in
  have hpresent : ∃ count windowStart, checkBucket call.now bucket
        = (if senderLimitPerMin ≤ count then ((count, windowStart), false)
          else ((count + 1, windowStart), true)) ∧
      FixedWindow.Inv senderLimitPerMin windowMs times windowStart count ∧
      windowStart ≤ call.now ∧ call.now ≤ windowStart + windowMs ∧
      ∃ c ∈ calls ++ [call], c.now = windowStart := by
    cases bucket with
    | none =>
      have htimes : times = [] := h
      refine ⟨0, call.now, ?_, htimes ▸ .start .., Nat.le_refl _, Nat.le_add_right .., call, by simp,
        rfl⟩
      simp [checkBucket]
    | some b =>
      obtain ⟨hwindow, c, hc, hstart⟩ := h
      have hle : b.2 ≤ call.now := hstart ▸ hlast c hc
      by_cases hover : windowMs < call.now - b.2
      · refine ⟨0, call.now, ?_, hwindow.restart (by omega), Nat.le_refl _, Nat.le_add_right .., call,
          by simp, rfl⟩
        simp [checkBucket, hover]
      · refine ⟨b.1, b.2, ?_, hwindow, hle, by omega, c, List.mem_append_left _ hc, hstart⟩
        simp [checkBucket, hover]
  obtain ⟨count, windowStart, hcheck, hwindow, hlow, hhigh, hstart⟩ := hpresent
  rw [hcheck]
  by_cases hfull : senderLimitPerMin ≤ count
  · rw [if_pos hfull]
    simp only [Bool.false_eq_true, if_false, List.append_nil]
    exact ⟨hwindow, hstart⟩
  · rw [if_neg hfull]
    exact ⟨hwindow.accept hlow hhigh (Nat.lt_of_not_le hfull), hstart⟩

/-- **The limit of a sender**: its window admits its limit at most. -/
lemma senderWindow (hordered : Ordered calls) (rk : String) :
    BucketInv calls ((RateRun.run calls).allowedTimesOf rk)
      ((RateRun.run calls).registry.rateBuckets rk) := by
  induction calls using List.reverseRecOn with
  | nil => rfl
  | append_singleton calls call ih =>
    obtain ⟨hcalls, hlast⟩ := hordered.of_append
    have h := ih hcalls
    have hgrow : ∀ {times bucket}, BucketInv calls times bucket →
        BucketInv (calls ++ [call]) times bucket := by
      intro times bucket hb
      cases bucket with
      | none => exact hb
      | some b =>
        obtain ⟨hwindow, c, hc, hstart⟩ := hb
        exact ⟨hwindow, c, List.mem_append_left _ hc, hstart⟩
    obtain ⟨-, -, hcases⟩ := (RateRun.run calls).registry.checkAndRecord_cases call
    rw [RateRun.registry_append, RateRun.allowedTimesOf_append]
    rcases hcases with ⟨-, hverdict, hbuckets⟩ | ⟨-, hverdict, hbuckets⟩
    · rw [hbuckets, hverdict, if_neg (by simp), List.append_nil]
      exact hgrow h
    · rw [hbuckets]
      by_cases hsender : call.sender = rk
      · subst hsender
        rw [Function.update_self]
        have hcheck := h.check hlast
        rw [hverdict]
        cases hok : (checkBucket call.now
            ((RateRun.run calls).registry.rateBuckets call.sender)).2 with
        | true => simpa [hok] using hcheck
        | false => simpa [hok] using hcheck
      · rw [Function.update_of_ne (Ne.symm hsender), if_neg (fun h' => hsender h'.2), List.append_nil]
        exact hgrow h

/-! ## Senders apart from each other -/

/-- One message of a sender that is limited by itself only. -/
def soloStep (x : Option (ℕ × ℕ) × List RateVerdict) (call : RateCall) :
    Option (ℕ × ℕ) × List RateVerdict :=
  let (bucket, allowed) := checkBucket call.now x.1
  (some bucket, x.2 ++ [if allowed then .allowed else .senderLimit])

/-- The bucket and the verdicts of a sender that is limited by itself only. -/
def solo (calls : List RateCall) : Option (ℕ × ℕ) × List RateVerdict :=
  calls.foldl soloStep (none, [])

lemma Calm.of_append (h : Calm (calls ++ [call])) : Calm calls := fun a =>
  Nat.le_trans (callsInWindow_append_le a) (h a)

/-- In a calm run a call finds room in the global window. -/
lemma Calm.countAt_lt (hcalm : Calm (calls ++ [call])) (hordered : Ordered (calls ++ [call])) :
    (RateRun.run calls).registry.countAt call.now < globalLimitPerMin := by
  obtain ⟨hcalls, hlast⟩ := hordered.of_append
  have hsmall : ∀ a, callsInWindow calls a < 2 ^ 32 := fun a =>
    Nat.lt_of_le_of_lt (hcalm.of_append a) (by decide)
  have hinv := countInv hcalls hsmall
  unfold RateRegistry.countAt
  split
  · decide
  · exact Nat.lt_of_lt_of_le (Nat.lt_succ_self _)
      (Nat.le_trans (hinv.count_le (by omega) hlast) (hcalm _))

/-- **Isolation**: in a calm run every sender has the verdicts that its own messages alone would
have. -/
lemma Calm.solo_eq (hcalm : Calm calls) (hordered : Ordered calls) (rk : String) :
    ((RateRun.run calls).registry.rateBuckets rk, (RateRun.run calls).verdictsOf rk)
      = solo (calls.filter fun c => decide (c.sender = rk)) := by
  induction calls using List.reverseRecOn with
  | nil => rfl
  | append_singleton calls call ih =>
    have h := ih hcalm.of_append hordered.of_append.1
    obtain ⟨-, -, hcases⟩ := (RateRun.run calls).registry.checkAndRecord_cases call
    obtain ⟨-, hverdict, hbuckets⟩ := hcases.resolve_left fun hfull =>
      absurd (hcalm.countAt_lt hordered) (Nat.not_lt.2 hfull.1)
    rw [RateRun.registry_append, RateRun.verdictsOf_append, List.filter_append, hbuckets]
    by_cases hsender : call.sender = rk
    · subst hsender
      have hone : [call].filter (fun c => decide (c.sender = call.sender)) = [call] := by simp
      rw [hone, solo, List.foldl_append, ← solo, ← h, Function.update_self, if_pos rfl, hverdict]
      rfl
    · have hnone : [call].filter (fun c => decide (c.sender = rk)) = [] := by simp [hsender]
      rw [hnone, List.append_nil, ← h, Function.update_of_ne (Ne.symm hsender), if_neg hsender,
        List.append_nil]

lemma dropRejected_sublist (calls : List RateCall) (rk : String) :
    (RateRun.dropRejected calls rk).Sublist calls := by
  have h : (RateRun.dropRejected calls rk).Sublist ((RateRun.run calls).log.map (·.1)) :=
    List.filter_sublist.map _
  rwa [RateRun.calls_of_log] at h

/-- The messages of the other senders are all still there. -/
lemma filter_dropRejected {rk rk' : String} (hne : rk' ≠ rk) :
    (RateRun.dropRejected calls rk).filter (fun c => decide (c.sender = rk'))
      = calls.filter fun c => decide (c.sender = rk') := by
  have hkeep : ∀ l : List (RateCall × RateVerdict),
      ((l.filter fun x => !decide (x.1.sender = rk ∧ x.2 = .senderLimit)).map (·.1)).filter
          (fun c => decide (c.sender = rk'))
        = (l.map (·.1)).filter fun c => decide (c.sender = rk') := by
    intro l
    induction l with
    | nil => rfl
    | cons x l ih =>
      by_cases hdrop : x.1.sender = rk ∧ x.2 = .senderLimit
      · have hother : ¬ x.1.sender = rk' := fun h => hne (h.symm.trans hdrop.1)
        simp only [List.filter_cons, hdrop, and_self, decide_true, Bool.not_true, Bool.false_eq_true,
          if_false, List.map_cons, ih]
        rw [if_neg (by simpa [hdrop.1] using Ne.symm hne)]
      · simp only [List.filter_cons, hdrop, decide_false, Bool.not_false, if_true, List.map_cons, ih]
  rw [RateRun.dropRejected, hkeep, RateRun.calls_of_log]

end Windows

/-- **What the windows bound**: for calls one after the other, of which fewer come in one window
than the counter can count, no window of the length of a limiter admits more than twice its limit,
and its own window, from its start, not more than its limit; and as long as no window has more calls
than the limit of all senders, the verdicts on the messages of others are the same without those
messages of a sender that its own limit rejects. -/
theorem fixed_windows_bound (calls : List RateCall) (hordered : Ordered calls)
    (hsmall : ∀ a, callsInWindow calls a < 2 ^ 32) :
    (∀ a rk, ((RateRun.run calls).allowedTimesOf rk).countP
        (fun t => decide (a ≤ t ∧ t ≤ a + windowMs)) ≤ 2 * senderLimitPerMin) ∧
      (∀ a, (RateRun.run calls).allowedTimes.countP
        (fun t => decide (a ≤ t ∧ t ≤ a + windowMs)) ≤ 2 * globalLimitPerMin) ∧
      (∀ rk, ∀ b ∈ (RateRun.run calls).registry.rateBuckets rk,
        ((RateRun.run calls).allowedTimesOf rk).countP (fun t => decide (b.2 ≤ t))
          ≤ senderLimitPerMin) ∧
      (RateRun.run calls).allowedTimes.countP
        (fun t => decide ((RateRun.run calls).registry.globalWindowStart ≤ t)) ≤ globalLimitPerMin ∧
      (Calm calls → ∀ rk rk', rk' ≠ rk →
        (RateRun.run (RateRun.dropRejected calls rk)).verdictsOf rk'
          = (RateRun.run calls).verdictsOf rk') := by
  have hglobal := globalWindow hordered hsmall
  refine ⟨fun a rk => ?_, hglobal.window, fun rk b hb => ?_, ?_, fun hcalm rk rk' hne => ?_⟩
  · have hsender := senderWindow hordered rk
    cases hb : (RateRun.run calls).registry.rateBuckets rk with
    | none =>
      rw [hb] at hsender
      rw [show (RateRun.run calls).allowedTimesOf rk = [] from hsender]
      exact Nat.zero_le _
    | some b =>
      rw [hb] at hsender
      exact hsender.1.window a
  · have hsender := senderWindow hordered rk
    rw [Option.mem_def.1 hb] at hsender
    exact Nat.le_trans hsender.1.current hsender.1.le_limit
  · exact Nat.le_trans hglobal.current hglobal.le_limit
  · have hsub := dropRejected_sublist calls rk
    have hcalm' : Calm (RateRun.dropRejected calls rk) := fun a =>
      Nat.le_trans (hsub.countP_le) (hcalm a)
    have h := hcalm.solo_eq hordered rk'
    have h' := hcalm'.solo_eq (hordered.sublist hsub) rk'
    rw [filter_dropRejected hne] at h'
    exact (congrArg Prod.snd h').trans (congrArg Prod.snd h).symm

/-! ## Two windows, and two senders -/

/-- A message of a user of one account. -/
def messageAt (userId : String) (now : ℕ) : RateCall := ⟨now, "qqbot", "x", userId, "c2c"⟩

/-- A first message, 29 at the end of its window, and 30 at the start of the next. -/
def twoWindows : List RateCall :=
  messageAt "a" 100000 :: (List.replicate 29 (messageAt "a" 160000) ++
    List.replicate 30 (messageAt "a" 160001))

/-- 300 messages of one sender, and then one of another. -/
def flood : List RateCall :=
  List.replicate 300 (messageAt "a" 100000) ++ [messageAt "b" 100000]

/-- **The limits do not hold as they stand**: a window of 60 s admits 59 messages of one sender; and
without the messages of one sender that its own limit rejects, another sender's message passes that is
rejected with them. -/
theorem rejected_messages_count :
    ((RateRun.run twoWindows).allowedTimesOf (messageAt "a" 0).sender).countP
        (fun t => decide (110000 ≤ t ∧ t ≤ 110000 + windowMs)) = 59 ∧
      (RateRun.run flood).verdictsOf (messageAt "b" 0).sender = [.globalLimit] ∧
      (RateRun.run (RateRun.dropRejected flood (messageAt "a" 0).sender)).verdictsOf
        (messageAt "b" 0).sender = [.allowed] := by
  decide +kernel

theorem twoWindows_bound :
    ((RateRun.run twoWindows).allowedTimesOf (messageAt "a" 0).sender).countP
      (fun t => decide (110000 ≤ t ∧ t ≤ 110000 + windowMs)) ≤ 2 * senderLimitPerMin :=
  (fixed_windows_bound twoWindows (by unfold Ordered; decide +kernel) fun _ =>
    Nat.lt_of_le_of_lt List.countP_le_length (by decide)).1 110000 (messageAt "a" 0).sender

end MyClaw
