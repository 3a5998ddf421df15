import MyClaw.Tools.SearchCooldown

set_option autoImplicit false

/-!
# Search failover and error texts

When an error text of a search provider leaves the cooldowns working: the call returns, the lock is not
poisoned, and no cooldown is shortened.

## Main definitions

* `StatusCuts` — the third byte behind `HTTP ` ends a character, if there is one.
* `statusAndBody`, `errorDelays` — the status and the body of an error text, and the
  delays in the order in which they count.
* `CooldownCall`, `RunSafe` — the calls on the cooldowns, and a run in which each call
  returns, keeps the lock and shortens nothing.
* `TimedCall.Fits` — the condition on a call.

## Main results

* `parseHttpError_eq` — what is read of an error text, or the panic.
* `cooldown_eq` — the cooldown that is recorded is the first delay of the error text.
* `runSafe_iff` — a run is safe exactly when each call fits.
* `not_runSafe_noEntry` — an error text with a sign of four bytes behind `HTTP `.
-/

namespace MyClaw

open StrSlice

variable {env : SearchEnv} {msg : List Char}

/-! ## Status and body -/

/-- What follows the first `HTTP `. -/
def afterHttp (msg : List Char) : Option (List Char) :=
  (Holes.findText "HTTP ".toList msg).map fun i => msg.drop (i + 5)

/-- The third byte behind `HTTP ` ends a character, if there is one. -/
def StatusCuts (msg : List Char) : Prop :=
  ∀ rest ∈ afterHttp msg, byteLen rest < 3 ∨ (splitAt? 3 rest).isSome

instance (msg : List Char) : Decidable (StatusCuts msg) :=
  match h : afterHttp msg with
  | none => .isTrue (by simp [StatusCuts, h])
  | some rest =>
    decidable_of_iff (byteLen rest < 3 ∨ (splitAt? 3 rest).isSome) (by simp [StatusCuts, h])

/-- The status of an error text and what follows the colon behind it, or the text. -/
def statusAndBody (msg : List Char) : Option ℕ × List Char :=
  match afterHttp msg with
  | none => (none, msg)
  | some rest =>
    match (splitAt? 3 rest).bind fun parts => parseUnsigned 65535 parts.1 with
    | none => (none, msg)
    | some code => (some code, trimChars (rest.dropWhile (· ≠ ':')).tail)

/-- What follows the first colon. -/
lemma colonBody_eq (code : ℕ) (rest : List Char) :
    (match findBytes [':'] rest with
      | none => .ok (some code, [])
      | some i => (sliceFrom rest (i + 1)).map fun body => (some code, trimChars body)) =
      (.ok (some code, trimChars (rest.dropWhile (· ≠ ':')).tail) :
        Except Panic (Option ℕ × List Char)) := by
  cases hfind : findBytes [':'] rest with
  | none =>
    have hnot : ':' ∉ rest := by
      rwa [findBytes, Option.map_eq_none_iff, Holes.findText_eq_none_iff,
        List.singleton_infix_iff] at hfind
    have hdrop : rest.dropWhile (· ≠ ':') = [] :=
      List.dropWhile_eq_nil_iff.2 fun c hc => by
        simpa using fun heq : c = ':' => hnot (heq ▸ hc)
    rw [hdrop]
    rfl
  | some n =>
    obtain ⟨i, -, hi, -, hlen⟩ := exists_of_findBytes hfind
    obtain ⟨front, body, rfl, hnot, rfl⟩ := Holes.findText_singleton_iff.1 hi
    rw [List.take_left] at hlen
    have hslice : sliceFrom (front ++ ':' :: body) (n + 1) = .ok body := by
      have h := sliceFrom_append (front ++ [':']) body
      rwa [byteLen_append, hlen, List.append_assoc] at h
    have hdrop : (front ++ ':' :: body).dropWhile (· ≠ ':') = ':' :: body := by
      rw [List.dropWhile_append_of_pos fun c hc => by simpa using ne_of_mem_of_not_mem hc hnot]
      rfl
    simp only [hslice, hdrop]
    rfl

/-- **The status and the body of an error text are read if the third byte behind `HTTP ` ends a
character**, and else the program stops. -/
theorem parseHttpError_eq (msg : List Char) :
    parseHttpError msg = if StatusCuts msg then .ok (statusAndBody msg) else .error .slice := by
  rw [parseHttpError]
  cases hfind : findBytes "HTTP ".toList msg with
  | none =>
    have hafter : afterHttp msg = none := by
      rw [findBytes, Option.map_eq_none_iff] at hfind
      rw [afterHttp, hfind]
      rfl
    rw [if_pos (by simp [StatusCuts, hafter]), statusAndBody, hafter]
  | some n =>
    obtain ⟨i, rest, hi, hsplit, hlen⟩ := exists_of_findBytes hfind
    have hrest : msg.drop (i + 5) = rest := by
      have htake : msg.drop i = "HTTP ".toList ++ rest := by
        refine (List.append_right_inj (msg.take i)).1 ?_
        rw [List.take_append_drop, ← List.append_assoc, ← hsplit]
      rw [← List.drop_drop, htake]
      rfl
    have hafter : afterHttp msg = some rest := by
      rw [afterHttp, hi, Option.map_some, hrest]
    have hslice : sliceFrom msg (n + 5) = .ok rest := by
      have h := sliceFrom_append (msg.take i ++ "HTTP ".toList) rest
      rwa [← hsplit, byteLen_append, hlen] at h
    have hcuts : StatusCuts msg ↔ byteLen rest < 3 ∨ (splitAt? 3 rest).isSome := by
      simp [StatusCuts, hafter]
    simp only [hslice, Except.bind, statusAndBody, hafter]
    split_ifs with hlong hok hok
    · obtain ⟨⟨digits, tail⟩, hsome⟩ :=
        Option.isSome_iff_exists.1 ((hcuts.1 hok).resolve_left (not_lt.2 hlong))
      simp only [sliceTo, hsome, Option.bind_some]
      cases parseUnsigned 65535 digits with
      | none => rfl
      | some code => exact colonBody_eq code rest
    · rw [hcuts, not_or, Bool.not_eq_true, Option.isSome_eq_false_iff, Option.isNone_iff_eq_none] at hok
      rw [sliceTo, hok.2]
    · have hnone : splitAt? 3 rest = none := by
        by_contra hne
        obtain ⟨⟨digits, tail⟩, hsome⟩ := Option.ne_none_iff_exists'.1 hne
        obtain ⟨rfl, hthree⟩ := splitAt?_eq_some_iff.1 hsome
        rw [byteLen_append] at hlong
        omega
      rw [hnone]
      rfl
    · exact absurd (hcuts.2 (.inl (not_le.1 hlong))) hok

/-! ## Delays -/

section

variable (env)

/-- The values in which a reset is looked for: a JSON body and its error. -/
def resetValues (body : String) : List JsonValue :=
  (env.parseJson body).toList.flatMap fun json => json :: (json.get "error").toList

/-- The delays until a reset that a body names. -/
def resetDelays (wallClock : ℕ) (body : String) : List ℕ :=
  (resetValues env body).flatMap fun json =>
    ["retry_after", "retry-after", "resets_in_seconds", "resets_in", "reset_after",
        "reset_in_seconds"].filterMap (jsonGetSeconds env json) ++
      ["reset_at", "resets_at", "resetAt", "resetsAt"].filterMap (jsonGetResetAt env wallClock json)

/-- The delays that a body asks for. -/
def askedDelays (body : String) : List ℕ :=
  (resetValues env body).flatMap (fun json =>
      ["retry_after", "retry-after"].filterMap (extractJsonSeconds env json)) ++
    [retryPattern, tryAgainPattern].filterMap (extractRegexSeconds env · body) ++
    if hasRateLimitKeyword (env.toLowercase body) then [fromSecs 3600] else []

/-- The category of an error. -/
def errorCategory (status : ℕ) (body : String) : ErrorCategory :=
  if status = 0 && strContains body toolCallParseLossTag then .toolCallLost
  else ClassifiedError.categoryOf env.errorEnv "" status body

/-- The delays of an error text, the first of which counts: those that its body asks for, and the one of
its category. -/
def errorDelays (wallClock : ℕ) (msg : List Char) : List ℕ :=
  let status := (statusAndBody msg).1.getD 0
  let body := String.ofList (statusAndBody msg).2
  if body = "" then (recoveryHintsFor (errorCategory env status body) none).cooldown.toList
  else
    askedDelays env body ++ (recoveryHintsFor (errorCategory env status body)
      (resetDelays env wallClock body).head?).cooldown.toList

end

/-- The delay that the classification reads is the first one until a reset. -/
lemma retryAfterOfJson_eq (wallClock : ℕ) (body : String) :
    env.retryAfterOfJson wallClock body = (resetDelays env wallClock body).head? := by
  have hvalue (json : JsonValue) :
      extractRetryAfterFromValue env wallClock json =
        (["retry_after", "retry-after", "resets_in_seconds", "resets_in", "reset_after",
            "reset_in_seconds"].filterMap (jsonGetSeconds env json) ++
          ["reset_at", "resets_at", "resetAt", "resetsAt"].filterMap
            (jsonGetResetAt env wallClock json)).head? := by
    rw [List.head?_append, List.head?_filterMap, List.head?_filterMap]
    rfl
  rw [SearchEnv.retryAfterOfJson, resetDelays, resetValues, List.head?_flatMap]
  simp only [← hvalue]
  cases env.parseJson body with
  | none => rfl
  | some json =>
    simp only [Option.toList_some, List.flatMap_cons, List.flatMap_nil, List.append_nil,
      List.findSome?_cons, Option.bind_some]
    cases extractRetryAfterFromValue env wallClock json with
    | some d => rfl
    | none => cases json.get "error" <;> simp

/-- The delay that is read from a JSON body is the first one in it. -/
lemma head?_jsonDelays (body : String) :
    ((resetValues env body).flatMap fun json =>
        ["retry_after", "retry-after"].filterMap (extractJsonSeconds env json)).head? =
      (env.parseJson body).bind fun json =>
        (extractJsonSeconds env json "retry_after").or
          ((extractJsonSeconds env json "retry-after").or
            ((json.get "error").bind fun error =>
              (extractJsonSeconds env error "retry_after").or
                (extractJsonSeconds env error "retry-after"))) := by
  have hvalue (json : JsonValue) :
      (["retry_after", "retry-after"].filterMap (extractJsonSeconds env json)).head? =
        (extractJsonSeconds env json "retry_after").or
          (extractJsonSeconds env json "retry-after") := by
    rw [List.head?_filterMap, List.findSome?_cons]
    cases extractJsonSeconds env json "retry_after" with
    | some d => rfl
    | none =>
      rw [List.findSome?_cons, Option.none_or]
      cases extractJsonSeconds env json "retry-after" <;> rfl
  rw [resetValues, List.head?_flatMap]
  simp only [hvalue]
  cases env.parseJson body with
  | none => rfl
  | some json =>
    simp only [Option.toList_some, List.flatMap_cons, List.flatMap_nil, List.append_nil,
      List.findSome?_cons, Option.bind_some]
    cases extractJsonSeconds env json "retry_after" with
    | some d => rfl
    | none =>
      cases extractJsonSeconds env json "retry-after" with
      | some d => rfl
      | none => cases json.get "error" <;> simp

/-- The delay that is read from a body is the first one that it asks for. -/
lemma parseSearchCooldown_eq {body : String} (h : body ≠ "") :
    parseSearchCooldown env body = (askedDelays env body).head? := by
  have hregex : ([retryPattern, tryAgainPattern].filterMap (extractRegexSeconds env · body)).head? =
      (extractRegexSeconds env retryPattern body).or
        (extractRegexSeconds env tryAgainPattern body) := by
    rw [List.head?_filterMap, List.findSome?_cons]
    cases extractRegexSeconds env retryPattern body with
    | some d => rfl
    | none =>
      rw [List.findSome?_cons, Option.none_or]
      cases extractRegexSeconds env tryAgainPattern body <;> rfl
  have hkeyword (b : Bool) : (if b then [fromSecs 3600] else []).head? =
      if b then some (fromSecs 3600) else none := by
    cases b <;> rfl
  rw [parseSearchCooldown, if_neg h, askedDelays, List.head?_append, List.head?_append,
    head?_jsonDelays, hregex, hkeyword, Option.or_assoc, Option.or_assoc]

/-- The cooldown of a classified error is that of its category. -/
lemma cooldown_classify (wallClock status : ℕ) (body : String) :
    (ClassifiedError.classify env.errorEnv wallClock "" status body).cooldown =
      (recoveryHintsFor (errorCategory env status body)
        (extractRetryAfter env.errorEnv wallClock body)).cooldown := by
  rw [ClassifiedError.classify, errorCategory]
  by_cases htag : (decide (status = 0) && strContains body toolCallParseLossTag) = true
  · rw [if_pos htag, if_pos htag]
    rfl
  · rw [if_neg htag, if_neg htag]
    rfl

/-- **The cooldown that is recorded is the first delay of the error text.** -/
theorem cooldown_eq (wallClock : ℕ) (msg : List Char) :
    (parseSearchCooldown env (String.ofList (statusAndBody msg).2)).or
        (ClassifiedError.classify env.errorEnv wallClock "" ((statusAndBody msg).1.getD 0)
          (String.ofList (statusAndBody msg).2)).cooldown =
      (errorDelays env wallClock msg).head? := by
  have htoList (d : Option ℕ) : d.toList.head? = d := by cases d <;> rfl
  simp only [errorDelays]
  rw [cooldown_classify, extractRetryAfter]
  split_ifs with hbody
  · rw [parseSearchCooldown, if_pos hbody, htoList]
    rfl
  · rw [parseSearchCooldown_eq hbody, List.head?_append, htoList, ← retryAfterOfJson_eq]
    rfl

/-! ## Calls -/

/-- A call on the cooldowns. -/
inductive CooldownCall
  | isCooledDown (provider : String)
  | record (provider : String) (duration : ℕ)
  | classifyAndRecord (provider : String) (errorMsg : List Char)

/-- A call at a time and a wall-clock time. -/
structure TimedCall where
  now : ℕ
  wallClock : ℕ
  call : CooldownCall

namespace TimedCall

/-- Whether the call returns, and the cooldowns behind it. -/
def run (env : SearchEnv) (c : TimedCall) (cd : SearchProviderCooldown) :
    Except Panic Unit × SearchProviderCooldown :=
  match c.call with
  | .isCooledDown provider => ((cd.isCooledDown c.now provider).map fun _ => (), cd)
  | .record provider duration => cd.record env c.now provider duration
  | .classifyAndRecord provider errorMsg =>
    let (outcome, cd) := cd.classifyAndRecord env c.now c.wallClock provider errorMsg
    (outcome.map fun _ => (), cd)

/-- The deadline is a time of the clock, and the status of an error text can be cut. -/
def Fits (env : SearchEnv) (c : TimedCall) : Prop :=
  match c.call with
  | .isCooledDown _ => True
  | .record _ duration => c.now + duration ≤ env.lastInstant
  | .classifyAndRecord _ errorMsg =>
    StatusCuts errorMsg ∧
      ∀ delay ∈ (errorDelays env c.wallClock errorMsg).head?, c.now + delay ≤ env.lastInstant

end TimedCall

/-- The call returns, leaves the lock as it was and shortens no cooldown. -/
structure CallSafe (env : SearchEnv) (c : TimedCall) (cd : SearchProviderCooldown) : Prop where
  returns : NoPanic (c.run env cd).1
  lock : (c.run env cd).2.poisoned = false
  kept : ∀ provider, ∀ stop ∈ cd.inner.lookup provider,
    ∃ stop' ∈ (c.run env cd).2.inner.lookup provider, stop ≤ stop'

/-- Each call of a run is safe. -/
def RunSafe (env : SearchEnv) : List TimedCall → SearchProviderCooldown → Prop
  | [], _ => True
  | c :: cs, cd => CallSafe env c cd ∧ RunSafe env cs (c.run env cd).2

section

variable {cd : SearchProviderCooldown} {now : ℕ} {provider : String}

/-- A record returns if its deadline is a time of the clock, and poisons the lock otherwise. -/
lemma record_eq (h : cd.poisoned = false) (duration : ℕ) :
    cd.record env now provider duration =
      if now + duration ≤ env.lastInstant then
        (.ok (), { cd with
          inner := Entry.upsert provider (now + duration)
            (fun e => if e < now + duration then now + duration else e) cd.inner })
      else (.error .overflow, { cd with poisoned := true }) := by
  rw [SearchProviderCooldown.record, if_neg (by rw [h]; exact Bool.false_ne_true)]
  split_ifs with hlt hle hle
  · exact absurd hle (not_le.2 hlt)
  · rfl
  · rfl
  · exact absurd (not_lt.1 hlt) hle

/-- **A record extends a cooldown and never shortens one.** -/
theorem exists_lookup_upsert {table : Entry.Table String ℕ} {deadline stop : ℕ} {other : String}
    (h : stop ∈ table.lookup other) :
    ∃ stop' ∈ (Entry.upsert provider deadline
      (fun e => if e < deadline then deadline else e) table).lookup other, stop ≤ stop' := by
  rw [Option.mem_def] at h
  by_cases hprovider : other = provider
  · refine ⟨if stop < deadline then deadline else stop, ?_, ?_⟩
    · rw [Entry.lookup_upsert, if_pos hprovider, ← hprovider, h]
      rfl
    · split_ifs with hlt
      · exact hlt.le
      · exact le_rfl
  · exact ⟨stop, by rw [Entry.lookup_upsert, if_neg hprovider, h]; rfl, le_rfl⟩

/-- An error text is classified, and its first delay is recorded. -/
lemma classifyAndRecord_eq (hcuts : StatusCuts msg) (wallClock : ℕ) :
    ∃ reason, cd.classifyAndRecord env now wallClock provider msg =
      match (errorDelays env wallClock msg).head? with
      | some delay =>
        ((cd.record env now provider delay).1.map fun _ => reason,
          (cd.record env now provider delay).2)
      | none => (.ok reason, cd) := by
  have hcooldown := @cooldown_eq env wallClock msg
  have hbody : (statusAndBody msg).1 = none → (statusAndBody msg).2 = msg := by
    rw [statusAndBody]
    split
    · exact fun _ => rfl
    · split
      · exact fun _ => rfl
      · exact fun h => by cases h
  rw [SearchProviderCooldown.classifyAndRecord, parseHttpError_eq, if_pos hcuts]
  cases hstatus : (statusAndBody msg).1 with
  | none =>
    rw [hstatus, hbody hstatus] at hcooldown
    simp only [hstatus, hbody hstatus]
    exact ⟨_, by rw [← hcooldown]; rfl⟩
  | some code =>
    rw [hstatus] at hcooldown
    simp only [hstatus]
    exact ⟨_, by rw [← hcooldown]; rfl⟩

end

/-- A call that leaves the cooldowns as they are is safe if it returns. -/
lemma callSafe_of_run_eq {c : TimedCall} {cd : SearchProviderCooldown} (h : cd.poisoned = false)
    (hrun : c.run env cd = (.ok (), cd)) : CallSafe env c cd := by
  refine ⟨?_, ?_, fun provider stop hstop => ⟨stop, ?_, le_rfl⟩⟩
  · rw [hrun]
    exact noPanic_ok ()
  · rw [hrun]
    exact h
  · rwa [hrun]

/-- So is one that records a deadline. -/
lemma callSafe_of_run_eq_upsert {c : TimedCall} {cd : SearchProviderCooldown} {provider : String}
    {deadline : ℕ} (h : cd.poisoned = false)
    (hrun : c.run env cd = (.ok (), { cd with
      inner := Entry.upsert provider deadline (fun e => if e < deadline then deadline else e)
        cd.inner })) : CallSafe env c cd := by
  refine ⟨?_, ?_, fun other stop hstop => ?_⟩
  · rw [hrun]
    exact noPanic_ok ()
  · rw [hrun]
    exact h
  · rw [hrun]
    exact exists_lookup_upsert hstop

/-- **A call is safe exactly when it fits**, as long as the lock is not poisoned. -/
theorem callSafe_iff {c : TimedCall} {cd : SearchProviderCooldown} (h : cd.poisoned = false) :
    CallSafe env c cd ↔ c.Fits env := by
  obtain ⟨now, wallClock, call⟩ := c
  cases call with
  | isCooledDown provider =>
    have hrun : TimedCall.run env ⟨now, wallClock, .isCooledDown provider⟩ cd = (.ok (), cd) := by
      simp [TimedCall.run, SearchProviderCooldown.isCooledDown, h, Except.map]
    exact iff_of_true (callSafe_of_run_eq h hrun) trivial
  | record provider duration =>
    have hrun : TimedCall.run env ⟨now, wallClock, .record provider duration⟩ cd =
        cd.record env now provider duration := rfl
    rw [record_eq h] at hrun
    rw [TimedCall.Fits]
    split_ifs at hrun with hle
    · exact iff_of_true (callSafe_of_run_eq_upsert h hrun) hle
    · exact iff_of_false (fun hsafe => not_noPanic_error _ (hrun ▸ hsafe.returns)) hle
  | classifyAndRecord provider errorMsg =>
    by_cases hcuts : StatusCuts errorMsg
    · obtain ⟨reason, heq⟩ := @classifyAndRecord_eq env errorMsg cd now provider hcuts wallClock
      have hrun : TimedCall.run env ⟨now, wallClock, .classifyAndRecord provider errorMsg⟩ cd =
          (((cd.classifyAndRecord env now wallClock provider errorMsg).1.map fun _ => ()),
            (cd.classifyAndRecord env now wallClock provider errorMsg).2) := rfl
      have hfits : TimedCall.Fits env ⟨now, wallClock, .classifyAndRecord provider errorMsg⟩ ↔
          ∀ delay ∈ (errorDelays env wallClock errorMsg).head?, now + delay ≤ env.lastInstant :=
        and_iff_right hcuts
      rw [heq] at hrun
      rw [hfits]
      cases hdelay : (errorDelays env wallClock errorMsg).head? with
      | none =>
        rw [hdelay] at hrun
        exact iff_of_true (callSafe_of_run_eq h hrun) nofun
      | some delay =>
        simp only [hdelay, record_eq h] at hrun
        simp only [Option.mem_def, Option.some.injEq, forall_eq']
        split_ifs at hrun with hle
        · exact iff_of_true (callSafe_of_run_eq_upsert h hrun) hle
        · exact iff_of_false (fun hsafe => not_noPanic_error _ (hrun ▸ hsafe.returns)) hle
    · refine iff_of_false (fun hsafe => ?_) fun hfits => hcuts hfits.1
      have hrun : TimedCall.run env ⟨now, wallClock, .classifyAndRecord provider errorMsg⟩ cd =
          (.error .slice, cd) := by
        simp only [TimedCall.run, SearchProviderCooldown.classifyAndRecord, parseHttpError_eq,
          if_neg hcuts, Except.map]
      exact not_noPanic_error _ (hrun ▸ hsafe.returns)

/-- **A run is safe exactly when each of its calls fits.** -/
theorem runSafe_iff (env : SearchEnv) (calls : List TimedCall) :
    RunSafe env calls .new ↔ ∀ c ∈ calls, c.Fits env := by
  have hrun (cd : SearchProviderCooldown) (h : cd.poisoned = false) :
      RunSafe env calls cd ↔ ∀ c ∈ calls, c.Fits env := by
    induction calls generalizing cd with
    | nil => exact iff_of_true trivial nofun
    | cons c calls ih =>
      rw [RunSafe, List.forall_mem_cons]
      constructor
      · rintro ⟨hsafe, hrest⟩
        exact ⟨(callSafe_iff h).1 hsafe, (ih _ hsafe.lock).1 hrest⟩
      · rintro ⟨hfits, hrest⟩
        have hsafe := (callSafe_iff h).2 hfits
        exact ⟨hsafe, (ih _ hsafe.lock).2 hrest⟩
  exact hrun .new rfl

/-- No JSON, no matches, and a clock that ends. -/
def SearchEnv.plain : SearchEnv where
  toLowercase := toAsciiLowercase
  parseJson _ := none
  asF64 _ := 0
  capture _ _ := none
  timestamp _ := none
  lastInstant := fromSecs (2 ^ 63 - 1)

/-- A sign of four bytes behind `HTTP ` stops the program. -/
theorem not_runSafe_noEntry :
    ¬ RunSafe .plain [⟨0, 0, .classifyAndRecord "glm" "search failed: HTTP 🚫".toList⟩] .new :=
  fun h => absurd ((runSafe_iff _ _).1 h _ List.mem_cons_self).1 (by decide)

end MyClaw
