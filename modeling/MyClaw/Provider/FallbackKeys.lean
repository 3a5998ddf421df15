import MyClaw.Provider.Fallback

set_option autoImplicit false

/-!
# Which key a rotation benches

A request that fails on its key reads the key cell of the entry once more and marks the key that it
finds there (`providers/fallback.rs`); the pool then hands out another key, which is stored in the
cell.  In between, other requests read and store in the same cell.

## Main definitions

* `CredentialPool.Exhausted` — a key of a pool is exhausted for a scope.
* `FallbackWorld.RotatesRight` — a step marks only the key its attempt was sent with, and
  stores only a key that is not exhausted.
* `FallbackWorld.Unmoved` — a failure finds its own key in the cell, and no key is marked that
  another request is about to store.

## Main results

* `FallbackChatProvider.rotatesRight_of_unmoved` — runs whose steps are all unmoved rotate right.
* `unmoved_of_oneRequest` — the steps of a request that is alone in its chain are.
* `rotation_benches_healthy_key` — two requests that fail on one key bench two.
-/

namespace MyClaw

/-! ## Exhausted keys -/

namespace CredentialPool

/-- A key has an exhaustion for a scope that has not expired. -/
def Exhausted (pool : CredentialPool) (now : ℕ) (scope key : String) : Prop :=
  ∃ e ∈ pool.entries, e.key = key ∧ (e.exhaustedUntil scope).any (now < ·)

instance (pool : CredentialPool) (now : ℕ) (scope key : String) :
    Decidable (pool.Exhausted now scope key) := by
  unfold Exhausted
  infer_instance

/-- A key has no exhaustion for a scope. -/
def Free (pool : CredentialPool) (scope key : String) : Prop :=
  ∀ e ∈ pool.entries, e.key = key → e.exhaustedUntil scope = none

/-- No key is listed twice. -/
def Distinct (pool : CredentialPool) : Prop := (pool.entries.map (·.key)).Nodup

instance (pool : CredentialPool) : Decidable pool.Distinct :=
  inferInstanceAs (Decidable (List.Nodup _))

variable {pool : CredentialPool} {now : ℕ} {scope scope' key key' : String}

lemma Free.not_exhausted (h : pool.Free scope key) : ¬ pool.Exhausted now scope key := by
  rintro ⟨e, he, hkey, hany⟩
  rw [h e he hkey] at hany
  cases hany

/-- Entries that all come from entries of the same key, without a new exhaustion. -/
lemma Free.of_entries {pool' : CredentialPool} (h : pool.Free scope key)
    (hfrom : ∀ e' ∈ pool'.entries, ∃ e ∈ pool.entries, e.key = e'.key ∧
      (e.exhaustedUntil scope = none → e'.exhaustedUntil scope = none)) :
    pool'.Free scope key := by
  intro e' he' hkey
  obtain ⟨e, he, heq, hnone⟩ := hfrom e' he'
  exact hnone (h e he (heq.trans hkey))

end CredentialPool

namespace CredentialEntry

variable {now : ℕ} {scope scope' : String} {e : CredentialEntry}

@[simp] lemma key_refresh : (e.refresh now scope).key = e.key := by
  unfold refresh
  split
  · split <;> rfl
  · rfl

/-- A refresh brings no exhaustion. -/
lemma exhaustedUntil_refresh_eq_none (h : e.exhaustedUntil scope' = none) :
    (e.refresh now scope).exhaustedUntil scope' = none := by
  unfold refresh
  split
  · split
    · by_cases hscope : scope' = scope
      · simp [hscope]
      · simp [Function.update_of_ne hscope, h]
    · exact h
  · exact h

end CredentialEntry

namespace CredentialPool

variable {pool : CredentialPool} {now random : ℕ} {scope scope' key key' : String}

/-- What `next_credential` does: without an active entry it only refreshes; else it hands out the key
of one and counts its use. -/
lemma nextCredential_cases (pool : CredentialPool) (now random : ℕ) (scope : String) :
    (pool.nextCredential now random scope = (none, pool.refresh now scope)) ∨
      ∃ idx e, (pool.refresh now scope).entries[idx]? = some e ∧ e.exhaustedUntil scope = none ∧
        (pool.nextCredential now random scope).1 = some e.key ∧
        (pool.nextCredential now random scope).2.entries
          = (pool.refresh now scope).entries.modify idx (CredentialEntry.use now) := by
  unfold nextCredential
  cases hidx : (pool.refresh now scope).selectIdx random
      ((pool.refresh now scope).activeIndices scope) with
  | none => exact .inl (by simp [hidx])
  | some idx =>
    obtain ⟨e, he, hnone⟩ := mem_activeIndices.1 (mem_of_selectIdx hidx)
    exact .inr ⟨idx, e, he, by simpa using hnone, by simp [hidx, he], by simp [hidx]⟩

variable (pool now scope) in
lemma keys_refresh : (pool.refresh now scope).entries.map (·.key) = pool.entries.map (·.key) := by
  simp [refresh, Function.comp_def]

/-- An entry that was or was not used, with its place. -/
lemma mem_modify_use {l : List CredentialEntry} {idx : ℕ} {e' : CredentialEntry}
    (h : e' ∈ l.modify idx (CredentialEntry.use now)) :
    ∃ (i : ℕ) (e : CredentialEntry), l[i]? = some e ∧ e.key = e'.key ∧
      e'.exhaustedUntil = e.exhaustedUntil := by
  obtain ⟨i, hi, rfl⟩ := List.mem_iff_getElem.1 h
  have hlen : i < l.length := by simpa using hi
  refine ⟨i, l[i], List.getElem?_eq_getElem hlen, ?_, ?_⟩
  · rw [List.getElem_modify]
    split <;> rfl
  · rw [List.getElem_modify]
    split <;> rfl

/-- An entry of the pool that `next_credential` leaves is an old one, refreshed and perhaps used. -/
lemma mem_entries_nextCredential {e' : CredentialEntry}
    (h : e' ∈ (pool.nextCredential now random scope).2.entries) :
    ∃ e ∈ pool.entries, e.key = e'.key ∧
      e'.exhaustedUntil = (e.refresh now scope).exhaustedUntil := by
  rcases pool.nextCredential_cases now random scope with hnext | ⟨idx, _, -, -, -, hentries⟩
  · rw [hnext] at h
    obtain ⟨e, he, rfl⟩ := List.mem_map.1 h
    exact ⟨e, he, CredentialEntry.key_refresh.symm, rfl⟩
  · rw [hentries] at h
    obtain ⟨i, e₁, he₁, hkey, hex⟩ := mem_modify_use h
    obtain ⟨e, he, rfl⟩ := List.mem_map.1 (List.mem_of_getElem? he₁)
    exact ⟨e, he, CredentialEntry.key_refresh.symm.trans hkey, hex⟩

/-- `next_credential` exhausts no key. -/
lemma Free.nextCredential (h : pool.Free scope' key) :
    (pool.nextCredential now random scope).2.Free scope' key := by
  refine h.of_entries fun e' he' => ?_
  obtain ⟨e, he, hkey, hex⟩ := mem_entries_nextCredential he'
  exact ⟨e, he, hkey, fun hnone => hex ▸ CredentialEntry.exhaustedUntil_refresh_eq_none hnone⟩

/-- Marking one key leaves the others free. -/
lemma Free.markExhausted {duration : ℕ} (h : pool.Free scope' key)
    (hne : key' ≠ key ∨ scope ≠ scope') :
    (pool.markExhausted now key' scope duration).Free scope' key := by
  intro e he hkey
  rcases FirstMatch.mem_update he with he | ⟨b, hb, rfl⟩
  · exact h e he hkey
  · have hbkey : b.key = key' := by simpa using List.find?_some hb
    have hscope : scope' ≠ scope :=
      (hne.resolve_left fun hk => hk (hbkey.symm.trans hkey)).symm
    simpa [Function.update_of_ne hscope] using h b (List.mem_of_find?_eq_some hb) hkey

@[simp] lemma keys_nextCredential :
    (pool.nextCredential now random scope).2.entries.map (·.key) = pool.entries.map (·.key) := by
  rcases pool.nextCredential_cases now random scope with hnext | ⟨idx, _, -, -, -, hentries⟩
  · rw [hnext]
    exact keys_refresh pool now scope
  · rw [hentries, ← keys_refresh pool now scope]
    refine List.ext_getElem (by simp) fun i hi hi' => ?_
    rw [List.getElem_map, List.getElem_map, List.getElem_modify]
    split <;> rfl

@[simp] lemma keys_markExhausted {duration : ℕ} :
    (pool.markExhausted now key scope duration).entries.map (·.key) = pool.entries.map (·.key) :=
  FirstMatch.map_key_update fun _ => rfl

/-- **What is handed out**: the key of an entry without an exhaustion, hence a free key if no key is
listed twice. -/
lemma free_of_nextCredential (hdistinct : pool.Distinct)
    (h : (pool.nextCredential now random scope).1 = some key) :
    (pool.nextCredential now random scope).2.Free scope key := by
  rcases pool.nextCredential_cases now random scope with hnext | ⟨idx, e, he, hnone, hkey, hentries⟩
  · rw [hnext] at h
    cases h
  · have hek : e.key = key := Option.some.inj (hkey.symm.trans h)
    intro e' he' hk
    rw [hentries] at he'
    obtain ⟨i, e₁, he₁, hkey₁, hex⟩ := mem_modify_use he'
    have hat : ∀ {j : ℕ} {a : CredentialEntry}, (pool.refresh now scope).entries[j]? = some a →
        (pool.entries.map (·.key))[j]? = some a.key := by
      intro j a ha
      rw [← keys_refresh pool now scope, List.getElem?_map, ha]
      rfl
    -- the keys of the two entries agree, so the entries are in one place
    have hsame : idx = i := by
      have hidx := hat he
      have hi := hat he₁
      rw [hek, ← hk, ← hkey₁, ← hi] at hidx
      exact (List.getElem?_inj (List.getElem?_eq_some_iff.1 (hat he)).1 hdistinct).1 hidx
    subst hsame
    rw [hex, Option.some.inj (he₁.symm.trans he), hnone]

end CredentialPool

/-! ## What a step rotates -/

/-- The status and the text of an error event. -/
def StreamEvent.failure : StreamEvent → Option (ℕ × String)
  | .httpError status message => some (status, message)
  | .error message => some (0, message)
  | _ => none

/-- The cell whose key is rotated after this input. -/
def ChatTask.rotates (env : FallbackEnv) (t : ChatTask) : ChatInput → Option ℕ
  | .event m e =>
    match t.point, e.failure with
    | .streaming lap _ _, some (status, text) =>
      if lap.entry.credentialPool.isSome ∧
          (lap.classify env m status text).shouldRotateCredential then
        lap.entry.sharedApiKey
      else none
    | _, _ => none
  | _ => none

/-- The key that this input marks, with its pool and the model. -/
def ChatTask.marks (t : ChatTask) (input : ChatInput) : Option (ℕ × String × String) :=
  match t.point, input with
  | .marking r oldKey, .proceed _ => some (r.pool, r.lap.entry.modelId, oldKey)
  | _, _ => none

/-- The key that a request is about to store, with its pool and the model. -/
def ChatTask.claims (t : ChatTask) : Option (ℕ × String × String) :=
  match t.point with
  | .setting r newKey => some (r.pool, r.lap.entry.modelId, newKey)
  | _ => none

/-- What is asked of a step: the key that is marked is the one that the attempt was sent with, and
the key that is stored is not exhausted. -/
def ChatTask.RotatesRight (env : FallbackEnv) (sh : FallbackShared) (t : ChatTask) (input : ChatInput) :
    Prop :=
  match t.point, input with
  | .marking _ oldKey, .proceed _ => t.usedKey = some oldKey
  | .setting r _, .proceed m =>
    let sh' := (t.step sh env input).1
    ¬ (sh'.pools r.pool).Exhausted m.now r.lap.entry.modelId (sh'.keys r.cell)
  | _, _ => True

instance (env : FallbackEnv) (sh : FallbackShared) (t : ChatTask) (input : ChatInput) :
    Decidable (t.RotatesRight env sh input) := by
  unfold ChatTask.RotatesRight
  split <;> infer_instance

namespace FallbackWorld

/-- A step rotates right, whichever request takes it. -/
def RotatesRight (env : FallbackEnv) (w : FallbackWorld) : FallbackEvent → Prop
  | .task i input => ∀ t ∈ w.tasks[i]?, t.RotatesRight env w.shared input
  | _ => True

instance (env : FallbackEnv) (w : FallbackWorld) (e : FallbackEvent) :
    Decidable (w.RotatesRight env e) := by
  cases e <;> unfold RotatesRight <;> infer_instance

/-- A failure for which the credential is rotated finds in the cell the key that its attempt was sent
with, and no key is marked that another request is about to store. -/
def Unmoved (env : FallbackEnv) (w : FallbackWorld) : FallbackEvent → Prop
  | .task i input => ∀ t ∈ w.tasks[i]?,
      (∀ cell ∈ t.rotates env input, t.usedKey = some (w.shared.keys cell)) ∧
      ∀ key ∈ t.marks input, ∀ u ∈ w.tasks, u.claims ≠ some key
  | _ => True

instance (env : FallbackEnv) (w : FallbackWorld) (e : FallbackEvent) : Decidable (w.Unmoved env e) := by
  cases e <;> unfold Unmoved <;> infer_instance

/-- The same of a change from outside: no key is listed twice, and a key that a request is about to
store stays free. -/
def UnmovedOutside (w : FallbackWorld) : FallbackEvent → Prop
  | .outside pools _ _ => (∀ p, (pools p).Distinct) ∧
      ∀ u ∈ w.tasks, ∀ c ∈ u.claims, (pools c.1).Free c.2.1 c.2.2
  | _ => True

end FallbackWorld

/-! ## What a step does to the keys -/

/-- The key that a request has read for the mark. -/
def ChatPoint.oldKey : ChatPoint → Option String
  | .marking _ oldKey => some oldKey
  | _ => none

namespace ChatTask

/-- A request that is about to mark no key and to store none. -/
def Settled (t : ChatTask) : Prop := t.point.oldKey = none ∧ t.claims = none

variable {t : ChatTask} {sh : FallbackShared} {env : FallbackEnv} {input : ChatInput}

/-- A cooldown changes no pool. -/
@[simp] lemma pools_recordCooldown {now : ℕ} {entry : FallbackEntry} {error : ClassifiedError}
    {pool : Option ℕ} {cause : Option ClassifiedError} :
    (recordCooldown env sh now entry error pool cause).2.pools = sh.pools := by
  unfold recordCooldown
  split
  · rfl
  · split
    · split
      · rfl
      · split <;> rfl
    · rfl

/-- What a step with the outcome `x` does to the pools and to the keys that the request works with. -/
inductive KeyStep (t : ChatTask) (sh : FallbackShared) (env : FallbackEnv) (input : ChatInput)
    (x : FallbackShared × ChatTask) : Prop
  /-- Nothing. -/
  | stay (hpools : x.1.pools = sh.pools) (htask : x.2 = t)
  /-- The request goes on to a place where it works with no key. -/
  | settle (hpools : x.1.pools = sh.pools) (hsettled : x.2.Settled)
  /-- The key in the cell is read. -/
  | read (cell : ℕ) (hpools : x.1.pools = sh.pools) (hcell : cell ∈ t.rotates env input)
      (hold : x.2.point.oldKey = some (sh.keys cell)) (hclaims : x.2.claims = none)
      (hused : x.2.usedKey = t.usedKey)
  /-- A key is marked. -/
  | mark (now pool duration : ℕ) (model key : String)
      (hmarks : t.marks input = some (pool, model, key))
      (hpools : x.1.pools
        = Function.update sh.pools pool ((sh.pools pool).markExhausted now key model duration))
      (hsettled : x.2.Settled)
  /-- A key is handed out. -/
  | choose (now random pool : ℕ) (model : String)
      (hpools : x.1.pools
        = Function.update sh.pools pool ((sh.pools pool).nextCredential now random model).2)
      (hold : x.2.point.oldKey = none)
      (hclaims : x.2.claims
        = ((sh.pools pool).nextCredential now random model).1.map fun key => (pool, model, key))

namespace KeyStep

/-- A cooldown is recorded, and the entry is passed or the task is gone. -/
lemma afterCooldown {u : ChatTask} {now : ℕ} {entry : FallbackEntry} {error : ClassifiedError}
    {pool : Option ℕ} {cause : Option ClassifiedError} {outcome : Outcome}
    {rest : List FallbackEntry} :
    t.KeyStep sh env input
      (u.after (recordCooldown env sh now entry error pool cause) (u.pass entry outcome rest)) :=
  after_of (.settle pools_recordCooldown ⟨rfl, rfl⟩) fun _ => .settle pools_recordCooldown ⟨rfl, rfl⟩

lemma gate {now : ℕ} {entry : FallbackEntry} {rest : List FallbackEntry} :
    t.KeyStep sh env input (t.gate sh now entry rest) := by
  have htry : (t.tryEntry sh entry rest).Settled := by
    unfold tryEntry Settled claims
    dsimp only
    split
    · exact ⟨rfl, rfl⟩
    · split <;> exact ⟨rfl, rfl⟩
  unfold ChatTask.gate
  split
  · exact .settle rfl ⟨rfl, rfl⟩
  · split
    · split
      · exact .settle rfl ⟨rfl, rfl⟩
      · exact .settle rfl htry
    · exact .settle rfl htry

lemma retryOrFailOver {u : ChatTask} {now : ℕ} {lap : Lap} {saw : Bool} {error : ClassifiedError}
    {e : StreamEvent} : t.KeyStep sh env input (u.retryOrFailOver sh env now lap saw error e) := by
  unfold ChatTask.retryOrFailOver
  split
  · exact .settle rfl ⟨rfl, rfl⟩
  · unfold failOver
    split
    · exact afterCooldown
    · exact .settle rfl ⟨rfl, rfl⟩

/-- After a failed stream the key in the cell is read for the mark, if the credential is to be
rotated. -/
lemma streamFailed {m : Moment} {lap : Lap} {saw announced : Bool} {status : ℕ} {text : String}
    {e : StreamEvent} (hpoint : t.point = .streaming lap saw announced)
    (he : e.failure = some (status, text)) :
    t.KeyStep sh env (.event m e) (t.streamFailed sh env m lap saw status text e) := by
  unfold ChatTask.streamFailed
  dsimp only
  split
  · rename_i pool cell hpool hcell
    by_cases hrotate : (lap.classify env m status text).shouldRotateCredential
    · rw [if_pos hrotate]
      refine .read cell rfl ?_ rfl rfl rfl
      simp only [rotates, hpoint, he, hpool, hcell]
      rw [if_pos ⟨rfl, hrotate⟩]
      rfl
    · rw [if_neg hrotate]
      exact retryOrFailOver
  · exact retryOrFailOver

/-- The key is marked, unless the lock is poisoned or its deadline is past the last instant. -/
lemma marking {now : ℕ} {r : Rotation} {oldKey : String}
    (hmarks : t.marks input = some (r.pool, r.lap.entry.modelId, oldKey)) :
    t.KeyStep sh env input (t.mark sh env now r oldKey) := by
  unfold ChatTask.mark FallbackShared.markExhausted
  split
  · exact .settle rfl ⟨rfl, rfl⟩
  · split
    · exact .settle rfl ⟨rfl, rfl⟩
    · exact .mark _ _ _ _ _ hmarks rfl ⟨rfl, rfl⟩

lemma choosing {m : Moment} {r : Rotation} : t.KeyStep sh env input (t.choose sh m r) := by
  unfold ChatTask.choose
  split
  · exact .settle rfl ⟨rfl, rfl⟩
  · refine .choose m.now m.random r.pool r.lap.entry.modelId rfl ?_ ?_
    · dsimp only
      split <;> rfl
    · dsimp only [claims]
      cases ((sh.pools r.pool).nextCredential m.now m.random r.lap.entry.modelId).1 <;> rfl

end KeyStep

/-- **What a step can do**: the pools change only by a mark and by a choice, a key is read for a mark
only from the cell, and a key is about to be stored only after it was handed out. -/
theorem keyStep (t : ChatTask) (sh : FallbackShared) (env : FallbackEnv) (input : ChatInput) :
    t.KeyStep sh env input (t.step sh env input) := by
  unfold step
  split
  · exact .settle rfl ⟨rfl, rfl⟩
  · exact .gate
  · rename_i error _
    cases error with
    | some text => exact .retryOrFailOver
    | none => exact .settle rfl ⟨rfl, rfl⟩
  · rename_i hpoint
    exact .streamFailed hpoint rfl
  · rename_i hpoint
    exact .streamFailed hpoint rfl
  · exact .settle rfl ⟨rfl, rfl⟩
  · exact .settle rfl ⟨rfl, rfl⟩
  · rename_i r oldKey m hpoint
    have hmarks : t.marks (.proceed m) = some (r.pool, r.lap.entry.modelId, oldKey) := by
      simp only [marks, hpoint]
    exact .marking hmarks
  · exact .choosing
  · refine .settle rfl ?_
    unfold Settled claims setKey
    dsimp only
    split <;> exact ⟨rfl, rfl⟩
  · exact .afterCooldown
  · exact .afterCooldown
  · exact .stay rfl rfl

end ChatTask

/-! ## Runs -/

/-- The keys that the requests work with: one that was read for a mark is the one of the attempt, one
that is about to be stored is free; no pool lists a key twice. -/
structure FallbackWorld.KeyInv (w : FallbackWorld) : Prop where
  distinct : ∀ p, (w.shared.pools p).Distinct
  used : ∀ t ∈ w.tasks, ∀ key ∈ t.point.oldKey, t.usedKey = some key
  free : ∀ t ∈ w.tasks, ∀ c ∈ t.claims, (w.shared.pools c.1).Free c.2.1 c.2.2

/-- The other requests and the one that took its step. -/
lemma FallbackWorld.KeyInv.of_step {w : FallbackWorld} (h : w.KeyInv) {i : ℕ}
    {x : FallbackShared × ChatTask}
    (hdistinct : ∀ p, (x.1.pools p).Distinct)
    (hfree : ∀ u ∈ w.tasks, ∀ c ∈ u.claims, (x.1.pools c.1).Free c.2.1 c.2.2)
    (hused' : ∀ key ∈ x.2.point.oldKey, x.2.usedKey = some key)
    (hfree' : ∀ c ∈ x.2.claims, (x.1.pools c.1).Free c.2.1 c.2.2) :
    FallbackWorld.KeyInv ⟨x.1, w.tasks.set i x.2⟩ where
  distinct := hdistinct
  used u hu := by
    rcases List.mem_or_eq_of_mem_set hu with hu | rfl
    · exact h.used u hu
    · exact hused'
  free u hu := by
    rcases List.mem_or_eq_of_mem_set hu with hu | rfl
    · exact hfree u hu
    · exact hfree'

namespace FallbackChatProvider

variable {fb : FallbackChatProvider} {env : FallbackEnv} {w : FallbackWorld}

/-- One pool is replaced by another with the same keys. -/
lemma distinct_update {pools : ℕ → CredentialPool} (h : ∀ p, (pools p).Distinct) {pool : ℕ}
    {new : CredentialPool}
    (hkeys : new.entries.map (·.key) = (pools pool).entries.map (·.key)) (p : ℕ) :
    (Function.update pools pool new p).Distinct := by
  by_cases hp : p = pool
  · subst hp
    rw [Function.update_self, CredentialPool.Distinct, hkeys]
    exact h p
  · rw [Function.update_of_ne hp]
    exact h p

/-- The step of one request keeps the keys in order. -/
lemma keyInv_task (h : w.KeyInv) {i : ℕ} {t : ChatTask} (hi : w.tasks[i]? = some t)
    {input : ChatInput} (hC : w.Unmoved env (.task i input)) :
    (fb.step env w (.task i input)).KeyInv := by
  have ht : t ∈ w.tasks := List.mem_of_getElem? hi
  obtain ⟨hown, hmark⟩ := hC t (by rw [hi]; rfl)
  rw [step_task fb env hi]
  have hstep : t.KeyStep w.shared env input (t.step w.shared env input) := t.keyStep ..
  cases hstep with
  | stay hpools htask =>
    refine h.of_step (hpools ▸ h.distinct) (hpools ▸ h.free) ?_ ?_
    · rw [htask]
      exact h.used t ht
    · rw [htask, hpools]
      exact h.free t ht
  | settle hpools hsettled =>
    refine h.of_step (hpools ▸ h.distinct) (hpools ▸ h.free) ?_ ?_
    · rw [hsettled.1]
      exact nofun
    · rw [hsettled.2]
      exact nofun
  | read cell hpools hcell hold hclaims hused =>
    refine h.of_step (hpools ▸ h.distinct) (hpools ▸ h.free) ?_ ?_
    · rw [hold, hused, hown cell hcell]
      exact fun key hkey => hkey
    · rw [hclaims]
      exact nofun
  | mark now pool duration model key hmarks hpools hsettled =>
    refine h.of_step ?_ (fun u hu c hc => ?_) ?_ ?_
    · rw [hpools]
      exact distinct_update h.distinct CredentialPool.keys_markExhausted
    · rw [hpools]
      by_cases hp : c.1 = pool
      · rw [hp, Function.update_self]
        refine CredentialPool.Free.markExhausted (hp ▸ h.free u hu c hc) ?_
        -- another key or another model: the request is not about to store the one that is marked
        by_contra hsame
        push Not at hsame
        refine hmark _ hmarks u hu ?_
        rw [hc, ← hp, hsame.1, hsame.2]
      · rw [Function.update_of_ne hp]
        exact h.free u hu c hc
    · rw [hsettled.1]
      exact nofun
    · rw [hsettled.2]
      exact nofun
  | choose now random pool model hpools hold hclaims =>
    refine h.of_step ?_ (fun u hu c hc => ?_) ?_ ?_
    · rw [hpools]
      exact distinct_update h.distinct CredentialPool.keys_nextCredential
    · rw [hpools]
      by_cases hp : c.1 = pool
      · rw [hp, Function.update_self]
        exact CredentialPool.Free.nextCredential (hp ▸ h.free u hu c hc)
      · rw [Function.update_of_ne hp]
        exact h.free u hu c hc
    · rw [hold]
      exact nofun
    · rw [hclaims, hpools]
      intro c hc
      obtain ⟨key, hkey, rfl⟩ := Option.map_eq_some_iff.1 hc
      rw [Function.update_self]
      exact CredentialPool.free_of_nextCredential (h.distinct pool) hkey

/-- Every unmoved step keeps the keys in order. -/
lemma keyInv_step (h : w.KeyInv) {e : FallbackEvent} (hout : w.UnmovedOutside e)
    (hC : w.Unmoved env e) : (fb.step env w e).KeyInv := by
  cases e with
  | chat =>
    have hmem : ∀ {u : ChatTask}, u ∈ (fb.step env w .chat).tasks →
        u ∈ w.tasks ∨ u = ChatTask.start fb.chain := fun hu =>
      (List.mem_append.1 hu).imp_right List.mem_singleton.1
    refine ⟨h.distinct, fun u hu => ?_, fun u hu => ?_⟩
    · rcases hmem hu with hu | rfl
      · exact h.used u hu
      · exact nofun
    · rcases hmem hu with hu | rfl
      · exact h.free u hu
      · exact nofun
  | task i input =>
    cases hi : w.tasks[i]? with
    | none => exact (step_task_none fb env hi input).symm ▸ h
    | some t => exact keyInv_task h hi hC
  | outside pools keys poisoned => exact ⟨hout.1, h.used, hout.2⟩

/-- With the keys in order every step rotates right. -/
lemma rotatesRight_of_keyInv (h : w.KeyInv) (e : FallbackEvent) : w.RotatesRight env e := by
  cases e with
  | task i input =>
    intro t hi
    have ht : t ∈ w.tasks := List.mem_of_getElem? hi
    unfold ChatTask.RotatesRight
    split
    · rename_i r oldKey m hpoint
      exact h.used t ht oldKey (by rw [hpoint]; rfl)
    · rename_i r newKey m hpoint
      have hclaims : t.claims = some (r.pool, r.lap.entry.modelId, newKey) := by
        simp only [ChatTask.claims, hpoint]
      have hstep : t.step w.shared env (.proceed m) = t.setKey w.shared r newKey := by
        simp only [ChatTask.step, hpoint]
      rw [hstep]
      simpa [ChatTask.setKey] using (h.free t ht _ hclaims).not_exhausted
    · trivial
  | _ => trivial

/-- No request, no key. -/
lemma keyInv_start {pools : ℕ → CredentialPool} (keys : ℕ → String)
    (hpools : ∀ p, (pools p).Distinct) : (FallbackWorld.start pools keys).KeyInv where
  distinct := hpools
  used t ht := by simp at ht
  free t ht := by simp at ht

/-- **Only the failing key is benched** in every run in which each failure finds its own key in the
cell and no key is marked that another request is about to store. -/
theorem rotatesRight_of_unmoved (fb : FallbackChatProvider) (env : FallbackEnv)
    (pools : ℕ → CredentialPool) (keys : ℕ → String) (es : List FallbackEvent)
    (hpools : ∀ p, (pools p).Distinct)
    (h : Run.EachStep (fb.step env) (fun w e => w.UnmovedOutside e ∧ w.Unmoved env e)
      (.start pools keys) es) :
    Run.EachStep (fb.step env) (FallbackWorld.RotatesRight env) (.start pools keys) es :=
  Run.eachStep_of_step (fun _ _ hinv hC => keyInv_step hinv hC.1 hC.2)
    (fun _ e hinv _ => rotatesRight_of_keyInv hinv e) (keyInv_start keys hpools) h

end FallbackChatProvider

/-! ## A request alone in its chain -/

/-- In a stream, the key of the attempt is still in the cell of the entry. -/
def ChatTask.KeyInCell (p : FallbackShared × ChatTask) : Prop :=
  ∀ lap saw announced, p.2.point = .streaming lap saw announced →
    p.2.usedKey = lap.entry.sharedApiKey.map p.1.keys

namespace ChatTask.KeyInCell

variable {t : ChatTask} {sh : FallbackShared} {env : FallbackEnv} {p : FallbackShared × ChatTask}

/-- Outside a stream there is nothing to say. -/
lemma of_not_streaming (h : ∀ lap saw announced, p.2.point ≠ .streaming lap saw announced) :
    KeyInCell p :=
  fun lap saw announced hpoint => absurd hpoint (h lap saw announced)

/-- A call that may panic leads out of the stream. -/
lemma after {call : Except Panic Unit × FallbackShared} {next : ChatTask}
    (h : ∀ lap saw announced, next.point ≠ .streaming lap saw announced) :
    KeyInCell (t.after call next) :=
  after_of (of_not_streaming h) fun _ => of_not_streaming nofun

/-- So does an error at an entry. -/
lemma retryOrFailOver {now : ℕ} {lap : Lap} {saw : Bool} {error : ClassifiedError}
    {e : StreamEvent} : KeyInCell (t.retryOrFailOver sh env now lap saw error e) := by
  unfold ChatTask.retryOrFailOver ChatTask.failOver
  split
  · exact of_not_streaming nofun
  · split
    · exact after nofun
    · exact of_not_streaming nofun

/-- And an error of a stream. -/
lemma streamFailed {m : Moment} {lap : Lap} {saw : Bool} {status : ℕ} {text : String}
    {e : StreamEvent} : KeyInCell (t.streamFailed sh env m lap saw status text e) := by
  unfold ChatTask.streamFailed
  dsimp only
  split
  · split
    · exact of_not_streaming nofun
    · exact retryOrFailOver
  · exact retryOrFailOver

/-- The gate leads to no stream. -/
lemma gate {now : ℕ} {entry : FallbackEntry} {rest : List FallbackEntry} :
    KeyInCell (t.gate sh now entry rest) := by
  have htry (sh' : FallbackShared) : KeyInCell (sh', t.tryEntry sh entry rest) := by
    refine of_not_streaming fun lap saw announced => ?_
    unfold tryEntry
    dsimp only
    split
    · exact nofun
    · split <;> exact nofun
  unfold ChatTask.gate
  split
  · exact of_not_streaming nofun
  · split
    · split
      · exact of_not_streaming nofun
      · exact htry _
    · exact htry _

/-- **A request alone** finds its key in the cell after each of its steps. -/
lemma step (h : KeyInCell (sh, t)) (input : ChatInput) : KeyInCell (t.step sh env input) := by
  unfold ChatTask.step
  split <;> rename_i hpoint
  · exact of_not_streaming nofun
  · exact gate
  · rename_i error
    cases error with
    | some text => exact retryOrFailOver
    | none =>
      rintro lap saw announced heq
      obtain ⟨rfl, -, -⟩ := ChatPoint.streaming.inj heq
      rfl
  · exact streamFailed
  · exact streamFailed
  · rintro lap saw announced heq
    obtain ⟨rfl, -, -⟩ := ChatPoint.streaming.inj heq
    exact h _ _ _ hpoint
  · exact of_not_streaming nofun
  · exact after nofun
  · refine of_not_streaming fun lap saw announced => ?_
    unfold ChatTask.choose
    split
    · exact nofun
    · dsimp only
      split <;> exact nofun
  · refine of_not_streaming fun lap saw announced => ?_
    unfold ChatTask.setKey
    dsimp only
    split <;> exact nofun
  · exact after nofun
  · exact after nofun
  · exact h

end ChatTask.KeyInCell

namespace FallbackWorld

/-- Nothing but the steps of one request happens. -/
def OneRequest (w : FallbackWorld) : FallbackEvent → Prop
  | .chat => w.tasks = []
  | .task .. => True
  | .outside .. => False

/-- One request at most, with its key in the cell. -/
structure AloneInv (w : FallbackWorld) : Prop where
  alone : w.tasks.length ≤ 1
  key : ∀ t ∈ w.tasks, ChatTask.KeyInCell (w.shared, t)

variable {fb : FallbackChatProvider} {env : FallbackEnv} {w : FallbackWorld} {e : FallbackEvent}

/-- A step of the one request. -/
lemma AloneInv.step (h : w.AloneInv) (hone : w.OneRequest e) : (fb.step env w e).AloneInv := by
  cases e with
  | chat =>
    have hnil : w.tasks = [] := hone
    have htasks : (fb.step env w .chat).tasks = [ChatTask.start fb.chain] := by
      simp [FallbackChatProvider.step, hnil]
    refine ⟨by rw [htasks]; exact le_rfl, fun t ht => ?_⟩
    rw [htasks, List.mem_singleton] at ht
    subst ht
    exact .of_not_streaming fun _ _ _ hpoint => by cases hpoint
  | outside => cases hone
  | task i input =>
    cases hi : w.tasks[i]? with
    | none => exact (FallbackChatProvider.step_task_none fb env hi input).symm ▸ h
    | some t =>
      rw [FallbackChatProvider.step_task fb env hi]
      have hstep : ChatTask.KeyInCell (t.step w.shared env input) :=
        (h.key t (List.mem_of_getElem? hi)).step input
      obtain ⟨rfl, htasks⟩ : i = 0 ∧ w.tasks = [t] := by
        obtain ⟨hlt, hget⟩ := List.getElem?_eq_some_iff.1 hi
        have hlen := h.alone
        obtain ⟨u, hu⟩ : ∃ u, w.tasks = [u] := List.length_eq_one_iff.1 (by omega)
        have hzero : i = 0 := by omega
        subst hzero
        exact ⟨rfl, by rw [hu] at hi; simpa [hu] using hi⟩
      refine ⟨by simp [htasks], fun u hu => ?_⟩
      have hnew : u = (t.step w.shared env input).2 := by simpa [htasks] using hu
      rw [hnew]
      exact hstep

/-- The one request finds its own key, and no other one is about to store a key. -/
lemma AloneInv.unmoved (h : w.AloneInv) (hone : w.OneRequest e) :
    w.UnmovedOutside e ∧ w.Unmoved env e := by
  cases e with
  | chat => exact ⟨trivial, trivial⟩
  | outside => cases hone
  | task i input =>
    refine ⟨trivial, fun t hi => ⟨fun cell hcell => ?_, fun key hkey u hu => ?_⟩⟩
    · unfold ChatTask.rotates at hcell
      split at hcell
      · split at hcell
        · rename_i lap _ _ _ _ hpoint _
          split at hcell
          · rw [h.key t (List.mem_of_getElem? hi) _ _ _ hpoint, Option.mem_def.1 hcell]
            rfl
          · cases hcell
        · cases hcell
      · cases hcell
    · have hsame : u = t := by
        obtain ⟨hlt, hget⟩ := List.getElem?_eq_some_iff.1 hi
        have hlen := h.alone
        obtain ⟨v, hv⟩ : ∃ v, w.tasks = [v] := List.length_eq_one_iff.1 (by omega)
        have ht : t = v := List.mem_singleton.1 (hv ▸ List.mem_of_getElem? hi)
        exact (List.mem_singleton.1 (hv ▸ hu)).trans ht.symm
      subst hsame
      unfold ChatTask.marks at hkey
      split at hkey
      · rename_i hpoint
        simp [ChatTask.claims, hpoint]
      · cases hkey

end FallbackWorld

/-- **A request alone in its chain** meets the condition in every step. -/
theorem unmoved_of_oneRequest (fb : FallbackChatProvider) (env : FallbackEnv)
    (pools : ℕ → CredentialPool) (keys : ℕ → String) {es : List FallbackEvent}
    (h : Run.EachStep (fb.step env) FallbackWorld.OneRequest (.start pools keys) es) :
    Run.EachStep (fb.step env) (fun w e => w.UnmovedOutside e ∧ w.Unmoved env e)
      (.start pools keys) es :=
  have hstart : (FallbackWorld.start pools keys).AloneInv := ⟨Nat.zero_le 1, by simp⟩
  Run.eachStep_of_step (fun _ _ hinv hone => hinv.step hone)
    (fun _ _ hinv hone => hinv.unmoved hone) hstart h

/-! ## Two requests on one key -/

/-- One entry with a pool and a key cell. -/
def pooledModel : FallbackChatProvider where
  chain := [⟨0, "m", "p", some 0, some 0⟩]
  nonempty := by simp

/-- Pools of three keys. -/
def threeKeys (_ : ℕ) : CredentialPool := .new ["k1", "k2", "k3"] .fillFirst

/-- Nobody but the requests of the chain changes anything. -/
def FallbackEvent.isInside : FallbackEvent → Bool
  | .outside .. => false
  | _ => true

/-- Both requests are sent with the first key and fail on it; the second fails after the first has
rotated to the second key. -/
def sharedFailure : List FallbackEvent :=
  [.chat, .chat, .task 0 (.proceed ⟨1, 0, 0⟩), .task 1 (.proceed ⟨2, 0, 0⟩),
    .task 0 (.opened ⟨3, 0, 0⟩ none), .task 1 (.opened ⟨4, 0, 0⟩ none),
    .task 0 (.event ⟨5, 0, 0⟩ (.httpError 429 "rate limit")),
    .task 0 (.proceed ⟨6, 0, 0⟩), .task 0 (.proceed ⟨7, 0, 0⟩), .task 0 (.proceed ⟨8, 0, 0⟩),
    .task 1 (.event ⟨9, 0, 0⟩ (.httpError 429 "rate limit")), .task 1 (.proceed ⟨10, 0, 0⟩)]

/-- **A healthy key is benched**: two requests are sent with one key and fail on it; the second marks
the key that the first has just rotated to. -/
theorem rotation_benches_healthy_key :
    (∀ e ∈ sharedFailure, e.isInside) ∧
      ¬ Run.EachStep (pooledModel.step .plain) (FallbackWorld.RotatesRight .plain)
        (.start threeKeys fun _ => "k1") sharedFailure := by
  decide +kernel

/-- The first request rotates to the second key before the second request is sent, and the second
rotates on to the third. -/
def orderlyFailures : List FallbackEvent :=
  [.chat, .chat, .task 0 (.proceed ⟨1, 0, 0⟩), .task 0 (.opened ⟨3, 0, 0⟩ none),
    .task 0 (.event ⟨5, 0, 0⟩ (.httpError 429 "rate limit")), .task 1 (.proceed ⟨2, 0, 0⟩),
    .task 0 (.proceed ⟨6, 0, 0⟩), .task 0 (.proceed ⟨7, 0, 0⟩), .task 0 (.proceed ⟨8, 0, 0⟩),
    .task 1 (.opened ⟨9, 0, 0⟩ none), .task 1 (.event ⟨10, 0, 0⟩ (.httpError 429 "rate limit")),
    .task 1 (.proceed ⟨11, 0, 0⟩), .task 1 (.proceed ⟨12, 0, 0⟩), .task 1 (.proceed ⟨13, 0, 0⟩),
    .task 0 (.opened ⟨14, 0, 0⟩ none), .task 0 .streamEnd]

theorem rotatesRight_orderlyFailures :
    Run.EachStep (pooledModel.step .plain) (FallbackWorld.RotatesRight .plain)
      (.start threeKeys fun _ => "k1") orderlyFailures := by
  refine FallbackChatProvider.rotatesRight_of_unmoved pooledModel .plain threeKeys _ orderlyFailures
    (fun _ => (by decide : (threeKeys 0).Distinct)) ?_
  have hunmoved : Run.EachStep (pooledModel.step .plain) (FallbackWorld.Unmoved .plain)
      (.start threeKeys fun _ => "k1") orderlyFailures := by decide +kernel
  have hinside : ∀ e ∈ orderlyFailures, e.isInside := by decide
  refine (hunmoved.and_mem hinside).imp fun w e h => ⟨?_, h.2⟩
  cases e with
  | outside => cases h.1
  | _ => trivial

end MyClaw
