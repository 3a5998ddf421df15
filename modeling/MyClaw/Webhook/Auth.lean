import MyClaw.Lib.Run
import MyClaw.Lib.Utf8
import MyClaw.Scheduler.Types
import Mathlib.Algebra.Order.Group.Unbundled.Int

set_option autoImplicit false

/-!
# The authentication of a webhook

A route of the kind `hmac` accepts two versions of a request.  Without a timestamp header the signature
covers the body; with one it covers a text made of the timestamp and the lossy reading of the body, and
the timestamp must be near the clock.  Both versions use one key, and nothing in what is signed says
which version it is for.

## Main definitions

* `verifyHmacSignature`, `authenticate` — the check of a signature and of a request.
* `SignedRequest` — what the holder of the secret signs, and the text that the signature covers.
* `webhookStep`, `Unforged` — runs of signatures and requests; a signature that verifies
  has been made by the holder of the secret.
* `BindsBody` — a request that is accepted has been signed as a request of its version, and is
  near its timestamp.
* `KeepsApart` — what an event has to satisfy for that.

## Main results

* `verifyHmacSignature_iff` — a signature verifies exactly when it is the one for the text.
* `SignedRequest.message_stamped_inj` — the covered text determines timestamp and body.
* `bindsBody_iff` — a run binds every body exactly when each of its requests keeps the versions
  apart.

## Implementation notes

Texts of headers and bodies are octets.  Time is in nanoseconds.  HMAC-SHA256, which takes keys of any
length, is a parameter.
-/

namespace MyClaw

/-- The octets of an ASCII text. -/
def ascii (text : String) : List UInt8 := text.toList.map fun c => c.toNat.toUInt8

/-- The third-party parts: the code of a message under a key, and the seconds that are a date. -/
structure WebhookEnv where
  mac : List UInt8 → List UInt8 → List UInt8
  isDate : ℤ → Bool

/-! ## The check of a signature -/

/-- A digit of a code. -/
def hexDigit (n : UInt8) : UInt8 := if n < 10 then 48 + n else 87 + n

/-- `hex::encode`. -/
def hexEncode (code : List UInt8) : List UInt8 :=
  code.flatMap fun b => [hexDigit (b / 16), hexDigit (b % 16)]

/-- The header that carries the signature of a text. -/
def signatureHeader (env : WebhookEnv) (secret text : List UInt8) : List UInt8 :=
  ascii "sha256=" ++ hexEncode (env.mac secret text)

/-- `verify_hmac_signature`. -/
def verifyHmacSignature (env : WebhookEnv) (body secret headerValue : List UInt8) : Bool :=
  let expected := signatureHeader env secret body
  if expected.length ≠ headerValue.length then false
  else (List.zipWith (· ^^^ ·) expected headerValue).foldl (· ||| ·) 0 = 0

lemma foldl_or_eq_zero_iff (l : List UInt8) (d : UInt8) :
    l.foldl (· ||| ·) d = 0 ↔ d = 0 ∧ ∀ x ∈ l, x = 0 := by
  induction l generalizing d with
  | nil => simp
  | cons x l ih =>
    rw [List.foldl_cons, ih, UInt8.or_eq_zero_iff]
    simp [and_assoc]

/-- Texts of one length whose octets differ nowhere are the same. -/
lemma zipWith_xor_eq_zero_iff (a b : List UInt8) (h : a.length = b.length) :
    (∀ x ∈ List.zipWith (· ^^^ ·) a b, x = 0) ↔ a = b := by
  induction a generalizing b with
  | nil => simpa using (List.eq_nil_of_length_eq_zero h.symm).symm
  | cons x a ih =>
    cases b with
    | nil => cases h
    | cons y b =>
      simp only [List.zipWith_cons_cons, List.mem_cons, forall_eq_or_imp, UInt8.xor_eq_zero_iff,
        List.cons.injEq]
      rw [ih b (Nat.succ.inj h)]

/-- **A signature verifies** exactly when it is the one for the text. -/
lemma verifyHmacSignature_iff {env : WebhookEnv} {body secret headerValue : List UInt8} :
    verifyHmacSignature env body secret headerValue = true ↔
      headerValue = signatureHeader env secret body := by
  unfold verifyHmacSignature
  simp only
  split
  · rename_i hlen
    refine iff_of_false Bool.false_ne_true fun heq => hlen ?_
    rw [heq]
  · rename_i hlen
    rw [not_ne_iff] at hlen
    rw [decide_eq_true_iff, foldl_or_eq_zero_iff, zipWith_xor_eq_zero_iff _ _ hlen]
    simp [eq_comm]

/-! ## The check of a request -/

/-- `i64` from a sign and digits. -/
def parseDigits (negative : Bool) (digits : List UInt8) : Option ℤ :=
  if digits = [] ∨ digits.any (fun d => d < 48 || 57 < d) = true then none
  else
    let n : ℤ := digits.foldl (fun acc d => 10 * acc + (d.toNat - 48)) 0
    let value := if negative then -n else n
    if -2 ^ 63 ≤ value ∧ value < 2 ^ 63 then some value else none

/-- `i64` from a text. -/
def parseI64 : List UInt8 → Option ℤ
  | 43 :: digits => parseDigits false digits
  | 45 :: digits => parseDigits true digits
  | digits => parseDigits false digits

/-- The kinds of authentication. -/
inductive WebhookAuth
  | hmac
  | bearer

/-- What the authentication reads of a route. -/
structure WebhookRoute where
  secret : List UInt8
  auth : WebhookAuth

/-- The headers of a request that are texts, and its body. -/
structure WebhookRequest where
  /-- `X-Hub-Signature-256`. -/
  signature : Option (List UInt8)
  authorization : Option (List UInt8)
  /-- `X-MyClaw-Timestamp`. -/
  timestamp : Option (List UInt8)
  body : List UInt8

/-- Why a request is turned away. -/
inductive AuthError
  | misconfigured
  | staleTimestamp
  | invalidSignature
  | missingSignature
  | invalidToken
  deriving DecidableEq

/-- The status and the text of the response. -/
def AuthError.response : AuthError → ℕ × String
  | .misconfigured => (500, "route misconfigured")
  | .staleTimestamp => (401, "stale timestamp")
  | .invalidSignature => (401, "invalid signature")
  | .missingSignature => (401, "missing signature")
  | .invalidToken => (401, "invalid token")

/-- `WEBHOOK_V2_MAX_SKEW_SECS`. -/
def maxSkewSecs : ℤ := 300

/-- A second, in nanoseconds. -/
def second : ℤ := 1000000000

/-- The whole seconds between a timestamp and the clock, the largest number if it is no date. -/
def skewSecs (env : WebhookEnv) (now : ℤ) (ts : List UInt8) : ℤ :=
  match (parseI64 ts).filter env.isDate with
  | some t => |(now - t * second).tdiv second|
  | none => 2 ^ 63 - 1

/-- The text that the second version signs. -/
def stampedText (ts body : List UInt8) : List UInt8 := ascii "v2:" ++ ts ++ 58 :: body

/-- The signature of a request verifies for a text. -/
def WebhookRequest.verifies (env : WebhookEnv) (secret text : List UInt8) (req : WebhookRequest) :
    Bool :=
  (req.signature.map (verifyHmacSignature env text secret)).getD false

/-- The authentication step of `handle_request`. -/
def authenticate (env : WebhookEnv) (route : WebhookRoute) (now : ℤ) (req : WebhookRequest) :
    Except AuthError Unit :=
  if route.secret = [] then .error .misconfigured
  else
    match route.auth with
    | .hmac =>
      match req.timestamp with
      | some ts =>
        if maxSkewSecs < skewSecs env now ts then .error .staleTimestamp
        else if req.verifies env route.secret (stampedText ts (Utf8.lossy req.body)) then .ok ()
        else .error .invalidSignature
      | none =>
        match req.signature with
        | some signature =>
          if verifyHmacSignature env req.body route.secret signature then .ok ()
          else .error .invalidSignature
        | none => .error .missingSignature
    | .bearer =>
      if req.authorization = some (ascii "Bearer " ++ route.secret) then .ok ()
      else .error .invalidToken

/-! ## What is signed -/

/-- A timestamp: a text that is read as a number. -/
structure Timestamp where
  text : List UInt8
  seconds : ℤ
  parses : parseI64 text = some seconds
  deriving DecidableEq

/-- The timestamp of a text. -/
def Timestamp.ofText? (text : List UInt8) : Option Timestamp :=
  match h : parseI64 text with
  | some seconds => some ⟨text, seconds, h⟩
  | none => none

/-- A request as the holder of the secret signs it, in the first version or in the second. -/
inductive SignedRequest
  | plain (body : List UInt8)
  | stamped (stamp : Timestamp) (body : List UInt8)
  deriving DecidableEq

/-- The text that the signature covers. -/
def SignedRequest.message : SignedRequest → List UInt8
  | .plain body => body
  | .stamped stamp body => stampedText stamp.text body

/-- What happens at a route: its holder signs a request, or a request arrives. -/
inductive WebhookEvent
  | sign (r : SignedRequest)
  | request (now : ℤ) (req : WebhookRequest)

/-- The requests that have been signed. -/
def webhookStep (signed : List SignedRequest) : WebhookEvent → List SignedRequest
  | .sign r => signed ++ [r]
  | .request _ _ => signed

/-- **The code is ideal**: a signature that verifies for a text has been made for it. -/
def Unforged (env : WebhookEnv) (secret : List UInt8) (signed : List SignedRequest) :
    WebhookEvent → Prop
  | .sign _ => True
  | .request _ req => ∀ text, req.verifies env secret text = true →
    ∃ r ∈ signed, r.message = text

/-- The clock is at most 300 seconds from the timestamp. -/
def Timestamp.isNear (stamp : Timestamp) (now : ℤ) : Bool :=
  |now - stamp.seconds * second| ≤ maxSkewSecs * second

/-- **The signature binds the body**: a request that is accepted without a timestamp carries a body that
was signed as such, and one that is accepted with a timestamp carries a body that was signed with this
timestamp, at most 300 seconds from it. -/
def BindsBody (env : WebhookEnv) (route : WebhookRoute) (signed : List SignedRequest) :
    WebhookEvent → Prop
  | .sign _ => True
  | .request now req => authenticate env route now req = .ok () →
    (req.timestamp = none → .plain req.body ∈ signed) ∧
      ∀ ts ∈ req.timestamp, ∃ stamp ∈ Timestamp.ofText? ts,
        .stamped stamp req.body ∈ signed ∧ stamp.isNear now = true

instance (env : WebhookEnv) (route : WebhookRoute) (signed : List SignedRequest)
    (e : WebhookEvent) : Decidable (BindsBody env route signed e) := by
  cases e <;> unfold BindsBody <;> infer_instance

/-- The request is of the second version. -/
def SignedRequest.isStamped : SignedRequest → Bool
  | .plain _ => false
  | .stamped _ _ => true

/-- The clock is in the second after the 300 seconds, which the whole seconds do not count. -/
def Timestamp.inLastSecond (stamp : Timestamp) (now : ℤ) : Bool :=
  maxSkewSecs * second < |now - stamp.seconds * second| &&
    |now - stamp.seconds * second| < (maxSkewSecs + 1) * second

/-- A body with its own signature is not the text of a request of the second version, unless it was
signed as a body too. -/
def PlainApart (env : WebhookEnv) (route : WebhookRoute) (signed : List SignedRequest)
    (req : WebhookRequest) : Prop :=
  req.verifies env route.secret req.body = true →
    (∃ r ∈ signed, r.isStamped = true ∧ r.message = req.body) → .plain req.body ∈ signed

/-- A body with the signature of its text was signed with this timestamp; or it is valid UTF-8 and
nobody has signed the text as a body.  And it does not arrive in the second after the 300 seconds. -/
def StampedApart (env : WebhookEnv) (route : WebhookRoute) (signed : List SignedRequest) (now : ℤ)
    (req : WebhookRequest) (ts : List UInt8) : Prop :=
  req.verifies env route.secret (stampedText ts (Utf8.lossy req.body)) = true →
    skewSecs env now ts ≤ maxSkewSecs → ∀ stamp ∈ Timestamp.ofText? ts,
      (.stamped stamp req.body ∈ signed ∨ Utf8.isValid req.body = true ∧
        .plain (stampedText ts (Utf8.lossy req.body)) ∉ signed) ∧
      stamp.inLastSecond now = false

/-- **The versions are kept apart** by a request. -/
def KeepsApart (env : WebhookEnv) (route : WebhookRoute) (signed : List SignedRequest) :
    WebhookEvent → Prop
  | .sign _ => True
  | .request now req => route.secret ≠ [] →
    (req.timestamp = none → PlainApart env route signed req) ∧
      ∀ ts ∈ req.timestamp, StampedApart env route signed now req ts

/-! ## Timestamps -/

section

variable {env : WebhookEnv} {route : WebhookRoute} {now : ℤ} {req : WebhookRequest}
  {ts : List UInt8} {signed : List SignedRequest}

lemma colon_notMem_of_parseDigits {negative : Bool} {t : ℤ}
    (h : parseDigits negative ts = some t) : 58 ∉ ts := by
  intro hmem
  have hbad : ts = [] ∨ ts.any (fun d => d < 48 || 57 < d) = true :=
    .inr (List.any_eq_true.2 ⟨58, hmem, by decide⟩)
  unfold parseDigits at h
  rw [if_pos hbad] at h
  cases h

/-- A number has no colon. -/
lemma colon_notMem_of_parseI64 {t : ℤ} (h : parseI64 ts = some t) : 58 ∉ ts := by
  unfold parseI64 at h
  split at h
  · simpa using colon_notMem_of_parseDigits h
  · simpa using colon_notMem_of_parseDigits h
  · exact colon_notMem_of_parseDigits h

/-- The first separator splits a text in one way. -/
lemma append_separator_inj {sep : UInt8} {x x' z z' : List UInt8} (hx : sep ∉ x) (hx' : sep ∉ x')
    (h : x ++ sep :: z = x' ++ sep :: z') : x = x' ∧ z = z' := by
  induction x generalizing x' with
  | nil =>
    cases x' with
    | nil => exact ⟨rfl, (List.cons.inj h).2⟩
    | cons b x' => exact absurd ((List.cons.inj h).1 ▸ List.mem_cons_self) hx'
  | cons b x ih =>
    cases x' with
    | nil => exact absurd ((List.cons.inj h).1 ▸ List.mem_cons_self) hx
    | cons b' x' =>
      obtain ⟨hb, htail⟩ := List.cons.inj h
      obtain ⟨hsame, hz⟩ := ih (fun hmem => hx (List.mem_cons_of_mem _ hmem))
        (fun hmem => hx' (List.mem_cons_of_mem _ hmem)) htail
      exact ⟨by rw [hb, hsame], hz⟩

lemma Timestamp.ext_text {stamp stamp' : Timestamp} (h : stamp.text = stamp'.text) :
    stamp = stamp' := by
  obtain ⟨text, seconds, parses⟩ := stamp
  obtain ⟨text', seconds', parses'⟩ := stamp'
  obtain rfl : text = text' := h
  obtain rfl : seconds = seconds' := Option.some.inj (parses.symm.trans parses')
  rfl

/-- **The covered text** of the second version determines timestamp and body. -/
lemma SignedRequest.message_stamped_inj {stamp stamp' : Timestamp} {body body' : List UInt8}
    (h : stampedText stamp.text body = stampedText stamp'.text body') :
    stamp = stamp' ∧ body = body' := by
  unfold stampedText at h
  rw [List.append_assoc, List.append_assoc] at h
  obtain ⟨htext, hbody⟩ := append_separator_inj (colon_notMem_of_parseI64 stamp.parses)
    (colon_notMem_of_parseI64 stamp'.parses) (List.append_cancel_left h)
  exact ⟨Timestamp.ext_text htext, hbody⟩

/-- A text that is a number is the timestamp with this text. -/
lemma Timestamp.ofText?_eq_some {stamp : Timestamp} (h : ofText? ts = some stamp) :
    stamp.text = ts := by
  unfold ofText? at h
  split at h
  · obtain rfl := Option.some.inj h
    rfl
  · cases h

/-- The whole seconds are at most 300 before the end of the second after them. -/
lemma tdiv_second_le_iff (d : ℤ) :
    |d.tdiv second| ≤ maxSkewSecs ↔ |d| < (maxSkewSecs + 1) * second := by
  unfold second maxSkewSecs
  rw [Int.abs_eq_natAbs, Int.abs_eq_natAbs, Int.natAbs_tdiv]
  show ((d.natAbs / 1000000000 : ℕ) : ℤ) ≤ 300 ↔ (d.natAbs : ℤ) < (300 + 1) * 1000000000
  omega

/-- What the check of the skew lets through. -/
lemma stamp_of_skewSecs_le (h : skewSecs env now ts ≤ maxSkewSecs) :
    ∃ stamp, Timestamp.ofText? ts = some stamp ∧
      |now - stamp.seconds * second| < (maxSkewSecs + 1) * second := by
  unfold skewSecs at h
  split at h
  · rename_i t hdate
    have hparse : parseI64 ts = some t := (Option.filter_eq_some_iff.1 hdate).1
    refine ⟨⟨ts, t, hparse⟩, ?_, (tdiv_second_le_iff _).1 h⟩
    unfold Timestamp.ofText?
    split
    · rename_i s hs
      obtain rfl : s = t := Option.some.inj (hs.symm.trans hparse)
      rfl
    · rename_i hnone
      rw [hnone] at hparse
      cases hparse
  · exact absurd h (by decide)

lemma isNear_iff {stamp : Timestamp}
    (h : |now - stamp.seconds * second| < (maxSkewSecs + 1) * second) :
    stamp.isNear now = true ↔ stamp.inLastSecond now = false := by
  unfold Timestamp.isNear Timestamp.inLastSecond
  simp [h]

/-! ## The two versions -/

/-- What is accepted without a timestamp. -/
lemma authenticate_plain_iff (hauth : route.auth = .hmac) (hts : req.timestamp = none) :
    authenticate env route now req = .ok () ↔
      route.secret ≠ [] ∧ req.verifies env route.secret req.body = true := by
  unfold authenticate WebhookRequest.verifies
  rw [hauth, hts]
  by_cases hsecret : route.secret = []
  · simp [hsecret]
  · cases req.signature with
    | none => simp [hsecret]
    | some signature =>
      cases hv : verifyHmacSignature env req.body route.secret signature <;> simp [hsecret, hv]

/-- What is accepted with a timestamp. -/
lemma authenticate_stamped_iff (hauth : route.auth = .hmac) (hts : req.timestamp = some ts) :
    authenticate env route now req = .ok () ↔
      route.secret ≠ [] ∧ skewSecs env now ts ≤ maxSkewSecs ∧
        req.verifies env route.secret (stampedText ts (Utf8.lossy req.body)) = true := by
  unfold authenticate
  rw [hauth, hts]
  by_cases hsecret : route.secret = []
  · simp [hsecret]
  · by_cases hskew : maxSkewSecs < skewSecs env now ts
    · simp [hsecret, hskew]
    · cases hv : req.verifies env route.secret (stampedText ts (Utf8.lossy req.body)) <;>
        simp [hsecret, hskew, hv, not_lt.1 hskew]

/-- **The step lemma**: a request binds its body exactly when it keeps the versions apart. -/
lemma bindsBody_step_iff (hauth : route.auth = .hmac) {e : WebhookEvent}
    (hU : Unforged env route.secret signed e) :
    BindsBody env route signed e ↔ KeepsApart env route signed e := by
  cases e with
  | sign r => exact Iff.rfl
  | request now req =>
    simp only [BindsBody, KeepsApart]
    cases hts : req.timestamp with
    | none =>
      rw [authenticate_plain_iff hauth hts]
      constructor
      · intro h hsecret
        exact ⟨fun _ hverifies _ => (h ⟨hsecret, hverifies⟩).1 rfl, fun _ hnone => nomatch hnone⟩
      · rintro h ⟨hsecret, hverifies⟩
        refine ⟨fun _ => ?_, fun _ hnone => nomatch hnone⟩
        obtain ⟨r, hr, hmessage⟩ := hU req.body hverifies
        cases r with
        | plain body =>
          obtain rfl : body = req.body := hmessage
          exact hr
        | stamped stamp body => exact (h hsecret).1 rfl hverifies ⟨_, hr, rfl, hmessage⟩
    | some ts =>
      rw [authenticate_stamped_iff hauth hts]
      constructor
      · intro h hsecret
        refine ⟨(nomatch ·), fun _ hsome hverifies hskew stamp hstamp => ?_⟩
        obtain rfl := Option.some.inj hsome
        obtain ⟨stamp', hstamp', hmem, hnear⟩ := (h ⟨hsecret, hskew, hverifies⟩).2 ts rfl
        obtain rfl : stamp' = stamp := Option.some.inj (hstamp'.symm.trans hstamp)
        obtain ⟨other, hother, hbefore⟩ := stamp_of_skewSecs_le hskew
        obtain rfl : other = stamp' := Option.some.inj (hother.symm.trans hstamp)
        exact ⟨.inl hmem, (isNear_iff hbefore).1 hnear⟩
      · rintro h ⟨hsecret, hskew, hverifies⟩
        refine ⟨(nomatch ·), fun _ hsome => ?_⟩
        obtain rfl := Option.some.inj hsome
        obtain ⟨stamp, hstamp, hbefore⟩ := stamp_of_skewSecs_le hskew
        obtain ⟨hcase, hlast⟩ := (h hsecret).2 ts rfl hverifies hskew stamp hstamp
        refine ⟨stamp, hstamp, ?_, (isNear_iff hbefore).2 hlast⟩
        rcases hcase with hmem | ⟨hvalid, hplain⟩
        · exact hmem
        · -- what was signed is this text, and not as a body
          rw [(Utf8.lossy_eq_self_iff _).2 hvalid] at hverifies hplain
          obtain ⟨r, hr, hmessage⟩ := hU _ hverifies
          cases r with
          | plain body =>
            obtain rfl : body = stampedText ts req.body := hmessage
            exact absurd hr hplain
          | stamped stamp' body =>
            obtain rfl := Timestamp.ofText?_eq_some hstamp
            obtain ⟨rfl, rfl⟩ := SignedRequest.message_stamped_inj hmessage
            exact hr

end

/-- **The signature binds the body**, on a route of the kind `hmac` and in every run in which no
signature is forged, exactly when every request keeps the versions apart. -/
theorem bindsBody_iff (env : WebhookEnv) (route : WebhookRoute) (hauth : route.auth = .hmac)
    (signed : List SignedRequest) (es : List WebhookEvent)
    (hU : Run.EachStep webhookStep (Unforged env route.secret) signed es) :
    Run.EachStep webhookStep (BindsBody env route) signed es ↔
      Run.EachStep webhookStep (KeepsApart env route) signed es :=
  Run.eachStep_congr (fun _ _ => bindsBody_step_iff hauth) hU

/-! ## An ideal code -/

/-- Read a digit of a code. -/
def hexValue (digit : UInt8) : UInt8 := if digit < 58 then digit - 48 else digit - 87

/-- Read a code. -/
def hexDecode : List UInt8 → List UInt8
  | high :: low :: rest => (hexValue high * 16 + hexValue low) :: hexDecode rest
  | _ => []

lemma hexValue_hexDigit (b : UInt8) :
    hexValue (hexDigit (b / 16)) * 16 + hexValue (hexDigit (b % 16)) = b := by
  have hall : ∀ n : Fin 256,
      hexValue (hexDigit (UInt8.ofFin n / 16)) * 16 + hexValue (hexDigit (UInt8.ofFin n % 16)) =
        UInt8.ofFin n := by decide +kernel
  exact hall b.toFin

@[simp] lemma hexDecode_hexEncode (code : List UInt8) : hexDecode (hexEncode code) = code := by
  induction code with
  | nil => rfl
  | cons b code ih =>
    show (hexValue (hexDigit (b / 16)) * 16 + hexValue (hexDigit (b % 16))) ::
      hexDecode (hexEncode code) = b :: code
    rw [hexValue_hexDigit, ih]

/-- With a code that has no collisions, a signature is for one text. -/
lemma signatureHeader_inj {env : WebhookEnv} {secret text text' : List UInt8}
    (hmac : Function.Injective (env.mac secret))
    (h : signatureHeader env secret text = signatureHeader env secret text') : text = text' := by
  unfold signatureHeader at h
  have hcode := congrArg hexDecode (List.append_cancel_left h)
  rw [hexDecode_hexEncode, hexDecode_hexEncode] at hcode
  exact hmac hcode

/-- A request is signed, and its signature arrives with a timestamp and a body of anyone's choice. -/
def signedThenSent (env : WebhookEnv) (secret : List UInt8) (r : SignedRequest) (now : ℤ)
    (ts : Option (List UInt8)) (body : List UInt8) : List WebhookEvent :=
  [.sign r, .request now ⟨some (signatureHeader env secret r.message), none, ts, body⟩]

/-- With a code that has no collisions, nothing is forged then. -/
lemma unforged_signedThenSent {env : WebhookEnv} {secret : List UInt8}
    (hmac : Function.Injective (env.mac secret)) (r : SignedRequest) (now : ℤ)
    (ts : Option (List UInt8)) (body : List UInt8) :
    Run.EachStep webhookStep (Unforged env secret) []
      (signedThenSent env secret r now ts body) := by
  refine ⟨trivial, fun text hverifies => ⟨r, List.mem_singleton_self r, ?_⟩, trivial⟩
  exact signatureHeader_inj hmac (verifyHmacSignature_iff.1 hverifies)

/-- An ideal code: the key, with its length, and the message. -/
def idealEnv : WebhookEnv where
  mac := fun secret message => secret.length.toUInt8 :: (secret ++ message)
  isDate := fun t => -8334601228800 ≤ t && t ≤ 8210266876799

lemma idealEnv_mac_injective (secret : List UInt8) : Function.Injective (idealEnv.mac secret) :=
  fun _ _ h => List.append_cancel_left (List.cons.inj h).2

/-- A route with a secret. -/
def hmacRoute : WebhookRoute := ⟨ascii "key", .hmac⟩

/-- A timestamp in 2023. -/
def stamp2023 : Timestamp := ⟨ascii "1700000000", 1700000000, by decide +kernel⟩

/-- A request of the second version that arrives ten seconds later. -/
theorem bindsBody_iff_sent :
    Run.EachStep webhookStep (BindsBody idealEnv hmacRoute) []
        (signedThenSent idealEnv hmacRoute.secret (.stamped stamp2023 (ascii "run"))
          (1700000010 * second) (some stamp2023.text) (ascii "run")) ↔
      Run.EachStep webhookStep (KeepsApart idealEnv hmacRoute) []
        (signedThenSent idealEnv hmacRoute.secret (.stamped stamp2023 (ascii "run"))
          (1700000010 * second) (some stamp2023.text) (ascii "run")) :=
  bindsBody_iff idealEnv hmacRoute rfl [] _
    (unforged_signedThenSent (idealEnv_mac_injective _) _ _ _ _)

/-- **Signatures that are moved**, none of them forged: the text of a request of the second version is
accepted as a body a day later, when the header is left out; a body is accepted as the text of a request
of the second version; an octet that is no UTF-8 is accepted for the replacement character; and a
request is accepted 300.5 seconds after its timestamp. -/
theorem signature_moved :
    (∀ r now ts body, Run.EachStep webhookStep (Unforged idealEnv hmacRoute.secret) []
      (signedThenSent idealEnv hmacRoute.secret r now ts body)) ∧
    ¬ Run.EachStep webhookStep (BindsBody idealEnv hmacRoute) []
      (signedThenSent idealEnv hmacRoute.secret (.stamped stamp2023 (ascii "run"))
        (1700086400 * second) none (ascii "v2:1700000000:run")) ∧
    ¬ Run.EachStep webhookStep (BindsBody idealEnv hmacRoute) []
      (signedThenSent idealEnv hmacRoute.secret (.plain (ascii "v2:1700000000:run"))
        (1700000000 * second) (some stamp2023.text) (ascii "run")) ∧
    ¬ Run.EachStep webhookStep (BindsBody idealEnv hmacRoute) []
      (signedThenSent idealEnv hmacRoute.secret (.stamped stamp2023 Utf8.replacement)
        (1700000000 * second) (some stamp2023.text) [0xFF]) ∧
    ¬ Run.EachStep webhookStep (BindsBody idealEnv hmacRoute) []
      (signedThenSent idealEnv hmacRoute.secret (.stamped stamp2023 (ascii "run"))
        (1700000300 * second + 500000000) (some stamp2023.text) (ascii "run")) :=
  ⟨unforged_signedThenSent (idealEnv_mac_injective _), by decide +kernel, by decide +kernel,
    by decide +kernel, by decide +kernel⟩

end MyClaw
