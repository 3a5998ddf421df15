import MyClaw.Lib.Entry
import MyClaw.Provider.ErrorClass
import MyClaw.Text.FrontMatter
import Mathlib.Algebra.Order.Floor.Ring
import Mathlib.Data.Rat.Floor

set_option autoImplicit false

/-!
# Cooldowns of search providers

`SearchProviderCooldown` (`tools/search_cooldown.rs`): the status, the body and the delay that are read
from the error text of a search provider, and the table of the times until which the providers are
skipped.

## Main definitions

* `SearchEnv` — JSON, regular expressions and the clock, which the source takes from elsewhere.
* `parseHttpError`, `parseSearchCooldown` — what is read from an error text.
* `SearchEnv.retryAfterOfJson` — the delay that `error_class.rs` reads from a JSON body.
* `SearchProviderCooldown` — the table behind its lock, with `isCooledDown`, `record` and
  `classifyAndRecord`.

## Implementation notes

Times and durations are in nanoseconds; the wall clock counts from 1970.  A panic while the table is
held poisons the lock, and every later use of the table panics. -/

namespace MyClaw

open StrSlice

/-- What the cooldowns take from elsewhere. -/
structure SearchEnv where
  /-- `str::to_lowercase`. -/
  toLowercase : String → String
  /-- `serde_json::from_str`. -/
  parseJson : String → Option JsonValue
  /-- `Value::as_f64` of a number that is not an integer without a sign. -/
  asF64 : String → ℚ
  /-- `Regex::captures`: the first group of the first match. -/
  capture : String → String → Option String
  /-- `DateTime::parse_from_rfc3339` and `timestamp`. -/
  timestamp : String → Option ℤ
  /-- The last `Instant` of the platform. -/
  lastInstant : ℕ

variable (env : SearchEnv)

/-! ## Numbers -/

/-- The largest `u64`. -/
def maxU64 : ℕ := 2 ^ 64 - 1

/-- `f as u64`. -/
def truncate (f : ℚ) : ℕ := min ⌊f⌋.toNat maxU64

/-! ## The delay of a classified error -/

/-- `json_get_seconds`. -/
def jsonGetSeconds (json : JsonValue) (key : String) : Option ℕ := do
  let val ← json.get key
  let secs ← match val with
    | .num n => some n
    | .otherNum text => some (truncate (env.asF64 text))
    | _ => none
  if 0 < secs then some (fromSecs secs) else none

/-- The duration of a reset time; values over `10^12` are milliseconds. -/
def resetTime (n : ℕ) : ℕ := if 1000000000000 < n then n * 1000000 else fromSecs n

/-- `reset.checked_sub(now).filter(|d| !d.is_zero())`. -/
def untilReset (wallClock reset : ℕ) : Option ℕ :=
  if wallClock < reset then some (reset - wallClock) else none

/-- `json_get_reset_at`. -/
def jsonGetResetAt (wallClock : ℕ) (json : JsonValue) (key : String) : Option ℕ := do
  match ← json.get key with
  | .num n => untilReset wallClock (resetTime n)
  | .otherNum text => untilReset wallClock (resetTime (truncate (env.asF64 text)))
  | .str s =>
    match parseUnsigned maxU64 s.toList with
    | some n => untilReset wallClock (resetTime n)
    | none => (env.timestamp s).bind fun t => untilReset wallClock (fromSecs t.toNat)
  | _ => none

/-- `extract_retry_after_from_value`. -/
def extractRetryAfterFromValue (wallClock : ℕ) (json : JsonValue) : Option ℕ :=
  (["retry_after", "retry-after", "resets_in_seconds", "resets_in", "reset_after",
      "reset_in_seconds"].findSome? (jsonGetSeconds env json)).or
    (["reset_at", "resets_at", "resetAt", "resetsAt"].findSome? (jsonGetResetAt env wallClock json))

/-- `extract_retry_after`, for a body that is not empty. -/
def SearchEnv.retryAfterOfJson (wallClock : ℕ) (body : String) : Option ℕ :=
  (env.parseJson body).bind fun json =>
    (extractRetryAfterFromValue env wallClock json).or
      ((json.get "error").bind (extractRetryAfterFromValue env wallClock))

/-- What the classification of an error takes from elsewhere. -/
def SearchEnv.errorEnv : ErrorEnv := ⟨env.toLowercase, env.retryAfterOfJson⟩

/-! ## Reading an error text -/

/-- `parse_http_error`. -/
def parseHttpError (msg : List Char) : Except Panic (Option ℕ × List Char) :=
  match findBytes "HTTP ".toList msg with
  | none => .ok (none, msg)
  | some pos =>
    (sliceFrom msg (pos + 5)).bind fun rest =>
      if 3 ≤ byteLen rest then
        (sliceTo rest 3).bind fun digits =>
          match parseUnsigned 65535 digits with
          | none => .ok (none, msg)
          | some code =>
            match findBytes [':'] rest with
            | none => .ok (some code, [])
            | some i => (sliceFrom rest (i + 1)).map fun body => (some code, trimChars body)
      else .ok (none, msg)

/-- `extract_json_seconds`. -/
def extractJsonSeconds (json : JsonValue) (key : String) : Option ℕ := do
  let val ← json.get key
  let secs ← match val with
    | .num n => some n
    | .otherNum text => if 0 < env.asF64 text then some (truncate (env.asF64 text)) else none
    | _ => none
  if 0 < secs then some (fromSecs secs) else none

/-- `extract_regex_seconds`. -/
def extractRegexSeconds (re text : String) : Option ℕ := do
  let group ← env.capture re text
  let secs ← parseUnsigned maxU64 group.toList
  if 0 < secs then some (fromSecs secs) else none

/-- The pattern of `retry after 60s`. -/
def retryPattern : String := "(?i)retry\\s+(?:after|in)\\s+(\\d+)\\s*s"

/-- The pattern of `try again in 60 seconds`. -/
def tryAgainPattern : String := "(?i)try again in\\s+(\\d+)\\s*seconds?"

/-- A keyword of a rate limit occurs. -/
def hasRateLimitKeyword (lower : String) : Bool :=
  strContains lower "too many requests" || strContains lower "rate limit"
    || strContains lower "rate_limit" || strContains lower "quota exceeded"
    || strContains lower "quota_exceeded"

/-- `parse_search_cooldown`. -/
def parseSearchCooldown (body : String) : Option ℕ :=
  if body = "" then none
  else
    ((env.parseJson body).bind fun json =>
        (extractJsonSeconds env json "retry_after").or
          ((extractJsonSeconds env json "retry-after").or
            ((json.get "error").bind fun error =>
              (extractJsonSeconds env error "retry_after").or
                (extractJsonSeconds env error "retry-after")))).or
      ((extractRegexSeconds env retryPattern body).or
        ((extractRegexSeconds env tryAgainPattern body).or
          (if hasRateLimitKeyword (env.toLowercase body) then some (fromSecs 3600) else none)))

/-! ## The table -/

/-- `SearchProviderCooldown`. -/
structure SearchProviderCooldown where
  /-- The time until which a provider is skipped. -/
  inner : Entry.Table String ℕ
  /-- A panic has left the lock poisoned. -/
  poisoned : Bool

namespace SearchProviderCooldown

/-- `new`. -/
def new : SearchProviderCooldown := ⟨∅, false⟩

/-- `is_cooled_down`, at a time. -/
def isCooledDown (cd : SearchProviderCooldown) (now : ℕ) (provider : String) : Except Panic Bool :=
  if cd.poisoned then .error .poison
  else .ok ((cd.inner.lookup provider).any fun stop => decide (now < stop))

/-- `record`, at a time. -/
def record (cd : SearchProviderCooldown) (now : ℕ) (provider : String) (duration : ℕ) :
    Except Panic Unit × SearchProviderCooldown :=
  if cd.poisoned then (.error .poison, cd)
  -- The addition panics while the table is held.
  else if env.lastInstant < now + duration then (.error .overflow, { cd with poisoned := true })
  else
    (.ok (), { cd with
      inner := Entry.upsert provider (now + duration)
        (fun e => if e < now + duration then now + duration else e) cd.inner })

/-- `classify_and_record`, at a time and a wall-clock time. -/
def classifyAndRecord (cd : SearchProviderCooldown) (now wallClock : ℕ) (provider : String)
    (errorMsg : List Char) : Except Panic FailoverReason × SearchProviderCooldown :=
  match parseHttpError errorMsg with
  | .error e => (.error e, cd)
  | .ok (status, body) =>
    let classified := match status with
      | some code => ClassifiedError.classify env.errorEnv wallClock "" code (String.ofList body)
      | none => ClassifiedError.classify env.errorEnv wallClock "" 0 (String.ofList errorMsg)
    match (parseSearchCooldown env (String.ofList body)).or classified.cooldown with
    | some duration =>
      let (outcome, cd) := cd.record env now provider duration
      (outcome.map fun _ => classified.reason, cd)
    | none => (.ok classified.reason, cd)

end SearchProviderCooldown

end MyClaw
