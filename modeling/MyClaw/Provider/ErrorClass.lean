import Mathlib.Data.List.Infix

set_option autoImplicit false

/-!
# Classified errors

`ClassifiedError::classify` (`providers/error_class.rs`): from the vendor, the HTTP status and the
body of an error to a category, and from the category to the recovery flags that the fallback chain
acts on.  Durations are in nanoseconds.  The Unicode lowercasing of a vendor id and the search for a
retry-after field in a JSON body are parameters; the second reads the wall clock.

## Main definitions

* `ErrorCategory`, `ClassifiedError` — the outcome of the classification.
* `ClassifiedError.classify` — the pipeline: tag, status, vendor codes, default.
* `ClassifiedError.shouldSameModelRetry`, `shouldFailoverToNext` — the two decisions
  of the fallback chain besides the rotation of a credential.

## Main results

* `ClassifiedError.shouldFailoverToNext_of_shouldRotateCredential` — an error that rotates is
  eligible for failover.
-/

namespace MyClaw

/-- `str::contains`. -/
def strContains (s pat : String) : Bool := decide (pat.toList <:+: s.toList)

/-- `str::to_ascii_lowercase`. -/
def toAsciiLowercase (s : String) : String := String.ofList (s.toList.map Char.toLower)

/-- `Duration::from_secs`. -/
def fromSecs (secs : ℕ) : ℕ := secs * 1000000000

/-- The category of an error. -/
inductive ErrorCategory
  | auth
  | authPermanent
  | billing
  | rateLimit
  | overloaded
  | serverError
  | timeout
  | modelNotFound
  | contextOverflow
  | payloadTooLarge
  | formatError
  | contentPolicy
  | toolCallLost

/-- `FailoverReason`, kept by the source for backward compatibility. -/
inductive FailoverReason
  | auth
  | authPermanent
  | billing
  | rateLimit
  | overloaded
  | serverError
  | timeout
  | contextOverflow
  | payloadTooLarge
  | modelNotFound
  | formatError
  | contentPolicy
  | toolCallLost
  | unknown

/-- `FailoverReason::from`. -/
def FailoverReason.ofCategory : ErrorCategory → FailoverReason
  | .auth => .auth
  | .authPermanent => .authPermanent
  | .billing => .billing
  | .rateLimit => .rateLimit
  | .overloaded => .overloaded
  | .serverError => .serverError
  | .timeout => .timeout
  | .contextOverflow => .contextOverflow
  | .payloadTooLarge => .payloadTooLarge
  | .modelNotFound => .modelNotFound
  | .formatError => .formatError
  | .contentPolicy => .contentPolicy
  | .toolCallLost => .toolCallLost

/-- Recovery hints derived from a category. -/
structure RecoveryHints where
  retry : Bool
  cooldown : Option ℕ
  report : Bool

/-- `recovery_hints_for`. -/
def recoveryHintsFor (category : ErrorCategory) (retryAfter : Option ℕ) : RecoveryHints :=
  match category with
  | .auth => ⟨false, some (fromSecs 1800), false⟩
  | .authPermanent => ⟨false, some (fromSecs (86400 * 7)), true⟩
  | .billing => ⟨false, retryAfter.or (some (fromSecs (5 * 3600))), true⟩
  | .rateLimit => ⟨true, retryAfter.or (some (fromSecs 60)), false⟩
  | .overloaded => ⟨true, retryAfter.or (some (fromSecs 30)), false⟩
  | .serverError => ⟨true, retryAfter.or (some (fromSecs 300)), false⟩
  | .timeout => ⟨true, retryAfter.or (some (fromSecs 120)), false⟩
  | .contextOverflow => ⟨false, none, true⟩
  | .payloadTooLarge => ⟨false, none, true⟩
  | .modelNotFound => ⟨false, none, false⟩
  | .formatError => ⟨false, none, true⟩
  -- The chain may continue; the same model is never asked again.
  | .contentPolicy => ⟨true, none, true⟩
  | .toolCallLost => ⟨false, none, true⟩

/-- The classification of an error. -/
structure ClassifiedError where
  category : ErrorCategory
  reason : FailoverReason
  statusCode : Option ℕ
  provider : Option String
  model : Option String
  message : String
  retryAfter : Option ℕ
  retryable : Bool
  shouldCompress : Bool
  shouldRotateCredential : Bool
  shouldFallback : Bool
  cooldown : Option ℕ

/-- What the classification takes from elsewhere: `str::to_lowercase`, and the part of
`extract_retry_after` that reads a body as JSON at a wall-clock time. -/
structure ErrorEnv where
  toLowercase : String → String
  retryAfterOfJson : ℕ → String → Option ℕ

/-- No body has a retry-after field, and vendor ids are ASCII. -/
def ErrorEnv.plain : ErrorEnv := ⟨toAsciiLowercase, fun _ _ => none⟩

/-! ## The layers of the pipeline -/

/-- `classify_http`. -/
def classifyHttp (status : ℕ) : Option ErrorCategory :=
  match status with
  | 401 | 403 => some .auth
  | 404 => some .modelNotFound
  | 413 => some .payloadTooLarge
  | 500 | 502 => some .serverError
  | 503 | 529 => some .overloaded
  | 504 => some .timeout
  | _ => none

/-- `is_billing_quota_body`. -/
def isBillingQuotaBody (bodyLower : String) : Bool :=
  strContains bodyLower "usage_limit_reached"
    || strContains bodyLower "insufficient_quota"
    || strContains bodyLower "quota_exceeded"
    || strContains bodyLower "billing_not_active"
    || strContains bodyLower "exceeded_current_quota"

/-- `is_content_policy_body`. -/
def isContentPolicyBody (bodyLower : String) : Bool :=
  strContains bodyLower "data_inspection_failed"
    || strContains bodyLower "content_policy_violation"
    || strContains bodyLower "content_filter"

/-- `body_contains_code`: the numeric form without and with a space, and the quoted form. -/
def bodyContainsCode (body : String) (code : ℕ) : Bool :=
  strContains body ("\"code\":" ++ toString code)
    || strContains body ("\"code\": " ++ toString code)
    || strContains body ("\"code\":\"" ++ toString code ++ "\"")

/-- `classify_provider`. -/
def classifyProvider (env : ErrorEnv) (provider : String) (status : ℕ) (body : String) :
    Option ErrorCategory :=
  let lp := env.toLowercase provider
  let bl := toAsciiLowercase body
  let isGlm := strContains lp "glm" || strContains lp "zhipu"
  match status with
  | 429 =>
    if isBillingQuotaBody bl then some .billing
    else if isGlm && (bodyContainsCode body 1305 || bodyContainsCode body 1312) then
      some .overloaded
    else if isGlm && (bodyContainsCode body 1308 || bodyContainsCode body 1309) then
      some .billing
    else if strContains lp "openai" && strContains bl "insufficient_quota" then some .billing
    else none
  | 400 =>
    if isGlm && bodyContainsCode body 1261 then some .contextOverflow
    else if strContains body "context_length_exceeded" then some .contextOverflow
    else if isContentPolicyBody bl then some .contentPolicy
    else none
  | _ => none

/-- `extract_retry_after`. -/
def extractRetryAfter (env : ErrorEnv) (wallClock : ℕ) (body : String) : Option ℕ :=
  if body = "" then none else env.retryAfterOfJson wallClock body

/-- `TOOL_CALL_PARSE_LOSS_TAG`. -/
def toolCallParseLossTag : String := "tool_call_parse_loss"

namespace ClassifiedError

/-- `ClassifiedError::from_parts`. -/
def fromParts (category : ErrorCategory) (status : ℕ) (provider message : String)
    (retryAfter : Option ℕ) : ClassifiedError :=
  let hints := recoveryHintsFor category retryAfter
  { category
    reason := .ofCategory category
    statusCode := if 0 < status then some status else none
    provider := if provider = "" then none else some provider
    model := none
    message
    retryAfter
    retryable := hints.retry
    shouldCompress := category matches .contextOverflow | .payloadTooLarge
    shouldRotateCredential := category matches .auth | .billing | .rateLimit
    shouldFallback := category matches .auth | .authPermanent | .billing | .rateLimit
      | .modelNotFound | .overloaded | .serverError | .timeout | .contentPolicy
    cooldown := hints.cooldown }

/-- The category that the layers after the tag give. -/
def categoryOf (env : ErrorEnv) (provider : String) (status : ℕ) (body : String) : ErrorCategory :=
  match classifyHttp status with
  | some category => category
  | none =>
    if status = 0 then .timeout
    else (classifyProvider env provider status body).getD
      (if status = 400 then .formatError else .rateLimit)

/-- `ClassifiedError::classify`, at a wall-clock time. -/
def classify (env : ErrorEnv) (wallClock : ℕ) (provider : String) (status : ℕ) (body : String) :
    ClassifiedError :=
  if status = 0 && strContains body toolCallParseLossTag then
    fromParts .toolCallLost status provider body none
  else
    let message := if body = "" then "HTTP " ++ toString status else body
    fromParts (categoryOf env provider status body) status provider message
      (extractRetryAfter env wallClock body)

/-- `ClassifiedError::with_provider`. -/
def withProvider (e : ClassifiedError) (provider model : String) : ClassifiedError :=
  { e with provider := some provider, model := some model }

/-- `ClassifiedError::recovery_hints`. -/
def recoveryHints (e : ClassifiedError) : RecoveryHints := recoveryHintsFor e.category e.retryAfter

/-- `ClassifiedError::cooldown_duration`. -/
def cooldownDuration (e : ClassifiedError) : Option ℕ := e.cooldown

/-- `ClassifiedError::is_long_cooldown`: longer than `LONG_COOLDOWN_THRESHOLD`. -/
def isLongCooldown (e : ClassifiedError) : Bool :=
  (e.cooldownDuration.map fun d => decide (fromSecs 60 < d)).getD false

/-- `ClassifiedError::should_same_model_retry`. -/
def shouldSameModelRetry (e : ClassifiedError) : Bool :=
  match e.category with
  | .overloaded | .serverError | .timeout => true
  | .rateLimit => !e.isLongCooldown
  | _ => false

end ClassifiedError

/-- `should_failover_to_next` (`providers/fallback.rs`). -/
def shouldFailoverToNext (e : ClassifiedError) : Bool := e.shouldFallback || e.recoveryHints.retry

/-! ## What the flags of a classified error say about each other -/

namespace ClassifiedError

/-- A classification is an assembly of parts. -/
lemma classify_eq_fromParts (env : ErrorEnv) (wallClock : ℕ) (provider : String) (status : ℕ)
    (body : String) : ∃ category message retryAfter,
      classify env wallClock provider status body
        = fromParts category status provider message retryAfter := by
  unfold classify
  split
  · exact ⟨_, _, _, rfl⟩
  · exact ⟨_, _, _, rfl⟩

/-- **What rotates fails over**: when the pool has no key left, the chain goes on. -/
theorem shouldFailoverToNext_of_shouldRotateCredential {env : ErrorEnv} {wallClock : ℕ}
    {provider : String} {status : ℕ} {body : String}
    (h : (classify env wallClock provider status body).shouldRotateCredential) :
    shouldFailoverToNext (classify env wallClock provider status body) := by
  obtain ⟨category, message, retryAfter, heq⟩ :=
    classify_eq_fromParts env wallClock provider status body
  rw [heq] at h ⊢
  cases category <;> first | exact absurd h Bool.false_ne_true | rfl

end ClassifiedError

end MyClaw
