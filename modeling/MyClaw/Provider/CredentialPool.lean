import MyClaw.Lib.FirstMatch

set_option autoImplicit false

/-!
# The credential pool

`CredentialPool` (`providers/credential_pool.rs`): the API keys of one provider, each with the
moments until which it is exhausted for a scope.  Instants and durations are in nanoseconds; where
the source reads a clock or a random number, the number is an argument.

## Main definitions

* `CredentialPool.nextCredential` — the key that the strategy selects among the keys that are
  not exhausted for the scope.
* `CredentialPool.markExhausted` — the first entry with a key is exhausted for a scope.
* `CredentialPool.soonestRecovery` — the time until a key of the pool recovers.

## Main results

* `CredentialPool.nextCredential_eq_none_iff` — no key is given out exactly when every key has
  an exhaustion for the scope that has not expired.
-/

namespace MyClaw

/-- A key of a pool; an exhaustion is kept for each scope. -/
structure CredentialEntry where
  key : String
  exhaustedUntil : String → Option ℕ
  lastUsed : Option ℕ
  /-- A `u64` in the program; it does not come round. -/
  useCount : ℕ

/-- How the next key is selected. -/
inductive RotationStrategy
  | fillFirst
  | roundRobin
  | random
  | leastUsed
  deriving DecidableEq

/-- The keys of a provider with the strategy of their rotation. -/
structure CredentialPool where
  entries : List CredentialEntry
  strategy : RotationStrategy
  /-- A `usize` that wraps around. -/
  roundRobinIdx : UInt64

/-- The first of the numbers with the smallest key, as `Iterator::min_by_key` has it. -/
def minByKey (key : ℕ → ℕ) : List ℕ → Option ℕ
  | [] => none
  | i :: l =>
    match minByKey key l with
    | none => some i
    | some j => if key j < key i then some j else some i

/-- An exhaustion that has expired is dropped. -/
def CredentialEntry.refresh (now : ℕ) (scope : String) (e : CredentialEntry) : CredentialEntry :=
  match e.exhaustedUntil scope with
  | some until_ =>
    if until_ ≤ now then { e with exhaustedUntil := Function.update e.exhaustedUntil scope none }
    else e
  | none => e

/-- An entry is handed out. -/
def CredentialEntry.use (now : ℕ) (e : CredentialEntry) : CredentialEntry :=
  { e with lastUsed := some now, useCount := e.useCount + 1 }

namespace CredentialPool

/-- `CredentialPool::new`. -/
def new (keys : List String) (strategy : RotationStrategy) : CredentialPool where
  entries := keys.map fun key => ⟨key, fun _ => none, none, 0⟩
  strategy
  roundRobinIdx := 0

/-- `CredentialPool::len`. -/
def len (pool : CredentialPool) : ℕ := pool.entries.length

/-- `CredentialPool::refresh`. -/
def refresh (pool : CredentialPool) (now : ℕ) (scope : String) : CredentialPool :=
  { pool with entries := pool.entries.map (CredentialEntry.refresh now scope) }

/-- The places of the entries without an exhaustion for the scope. -/
def activeIndices (pool : CredentialPool) (scope : String) : List ℕ :=
  (pool.entries.zipIdx.filter fun p => (p.1.exhaustedUntil scope).isNone).map (·.2)

/-- The place that the strategy selects among the active ones. -/
def selectIdx (pool : CredentialPool) (random : ℕ) (active : List ℕ) : Option ℕ :=
  match pool.strategy with
  | .fillFirst => active.head?
  | .roundRobin => active[pool.roundRobinIdx.toNat % active.length]?
  | .random => active[random % active.length]?
  | .leastUsed => minByKey (fun i => ((pool.entries[i]?).map (·.useCount)).getD 0) active

/-- The round-robin index moves on when the strategy has used it. -/
def advance (pool : CredentialPool) : CredentialPool :=
  if pool.strategy = .roundRobin then { pool with roundRobinIdx := pool.roundRobinIdx + 1 }
  else pool

/-- `CredentialPool::next_credential`. -/
def nextCredential (pool : CredentialPool) (now random : ℕ) (scope : String) :
    Option String × CredentialPool :=
  let pool := pool.refresh now scope
  match pool.selectIdx random (pool.activeIndices scope) with
  | none => (none, pool)
  | some idx =>
    ((pool.entries[idx]?).map (·.key),
      { pool.advance with entries := pool.entries.modify idx (CredentialEntry.use now) })

/-- `CredentialPool::mark_exhausted`; its reason is only logged. -/
def markExhausted (pool : CredentialPool) (now : ℕ) (key scope : String) (duration : ℕ) :
    CredentialPool :=
  { pool with
    entries := FirstMatch.update (·.key) key
      (fun e => { e with
        exhaustedUntil := Function.update e.exhaustedUntil scope (some (now + duration)) })
      pool.entries }

/-- `CredentialPool::soonest_recovery`. -/
def soonestRecovery (pool : CredentialPool) (now : ℕ) (scope : String) : Option ℕ :=
  (((pool.entries.filterMap fun e => e.exhaustedUntil scope).filter fun u => decide (now < u)).map
    fun u => u - now).min?

end CredentialPool

/-! ## When no key is given out -/

lemma minByKey_eq_none_iff {key : ℕ → ℕ} {l : List ℕ} : minByKey key l = none ↔ l = [] := by
  cases l with
  | nil => simp [minByKey]
  | cons i l =>
    unfold minByKey
    cases minByKey key l with
    | none => simp
    | some j => by_cases h : key j < key i <;> simp [h]

/-- An entry is exhausted after a refresh exactly when its exhaustion has not expired. -/
lemma CredentialEntry.exhaustedUntil_refresh_isNone_iff {now : ℕ} {scope : String}
    {e : CredentialEntry} :
    ((e.refresh now scope).exhaustedUntil scope).isNone
      ↔ ∀ u ∈ e.exhaustedUntil scope, u ≤ now := by
  unfold refresh
  cases h : e.exhaustedUntil scope with
  | none => simp [h]
  | some u => by_cases hu : u ≤ now <;> simp [h, hu]

/-- The smallest is one of the numbers. -/
lemma mem_of_minByKey {key : ℕ → ℕ} {l : List ℕ} {i : ℕ} (h : minByKey key l = some i) :
    i ∈ l := by
  induction l with
  | nil => cases h
  | cons j l ih =>
    unfold minByKey at h
    cases hl : minByKey key l with
    | none =>
      have hj : j = i := by simpa [hl] using h
      exact hj ▸ List.mem_cons_self
    | some k =>
      by_cases hk : key k < key j
      · have hki : k = i := by simpa [hl, hk] using h
        exact List.mem_cons_of_mem _ (ih (hki ▸ hl))
      · have hj : j = i := by simpa [hl, hk] using h
        exact hj ▸ List.mem_cons_self

namespace CredentialPool

lemma mem_activeIndices {pool : CredentialPool} {scope : String} {i : ℕ} :
    i ∈ pool.activeIndices scope
      ↔ ∃ e, pool.entries[i]? = some e ∧ (e.exhaustedUntil scope).isNone := by
  unfold activeIndices
  constructor
  · intro h
    obtain ⟨⟨e, j⟩, hp, rfl⟩ := List.mem_map.1 h
    obtain ⟨he, hnone⟩ := List.mem_filter.1 hp
    exact ⟨e, List.mem_zipIdx_iff_getElem?.1 he, hnone⟩
  · rintro ⟨e, he, hnone⟩
    exact List.mem_map.2 ⟨(e, i),
      List.mem_filter.2 ⟨List.mem_zipIdx_iff_getElem?.2 he, hnone⟩, rfl⟩

/-- The place that is selected is an active one. -/
lemma mem_of_selectIdx {pool : CredentialPool} {random i : ℕ} {active : List ℕ}
    (h : pool.selectIdx random active = some i) : i ∈ active := by
  unfold selectIdx at h
  cases hs : pool.strategy with
  | fillFirst => exact List.mem_of_head? (by simpa [hs] using h)
  | roundRobin => exact List.mem_of_getElem? (by simpa [hs] using h)
  | random => exact List.mem_of_getElem? (by simpa [hs] using h)
  | leastUsed => exact mem_of_minByKey (by simpa [hs] using h)

/-- The strategy selects a place whenever there is an active one. -/
lemma selectIdx_eq_none_iff {pool : CredentialPool} {random : ℕ} {active : List ℕ} :
    pool.selectIdx random active = none ↔ active = [] := by
  unfold selectIdx
  cases active with
  | nil => cases pool.strategy <;> simp [minByKey]
  | cons i l =>
    have hlt : ∀ n : ℕ, n % (l.length + 1) < l.length + 1 := fun n => Nat.mod_lt n (Nat.succ_pos _)
    cases pool.strategy with
    | fillFirst => simp
    | roundRobin => simpa using hlt _
    | random => simpa using hlt _
    | leastUsed => simp [minByKey_eq_none_iff]

/-- **No key is left**: none is given out exactly when every key has an exhaustion for the scope that
has not expired. -/
theorem nextCredential_eq_none_iff {pool : CredentialPool} {now random : ℕ} {scope : String} :
    (pool.nextCredential now random scope).1 = none
      ↔ ∀ e ∈ pool.entries, ∃ u, e.exhaustedUntil scope = some u ∧ now < u := by
  have hexpired : ∀ e : CredentialEntry, ((e.refresh now scope).exhaustedUntil scope).isNone = false
      ↔ ∃ u, e.exhaustedUntil scope = some u ∧ now < u := by
    intro e
    rw [← Bool.not_eq_true, CredentialEntry.exhaustedUntil_refresh_isNone_iff]
    simp
  have hnil : (pool.refresh now scope).activeIndices scope = []
      ↔ ∀ e ∈ pool.entries, ∃ u, e.exhaustedUntil scope = some u ∧ now < u := by
    constructor
    · intro h e he
      rw [← hexpired, ← Bool.not_eq_true]
      intro hnone
      obtain ⟨i, hi, rfl⟩ := List.mem_iff_getElem.1 he
      have hmem : i ∈ (pool.refresh now scope).activeIndices scope :=
        mem_activeIndices.2 ⟨_, by simp [refresh, hi], hnone⟩
      rw [h] at hmem
      cases hmem
    · intro h
      refine List.eq_nil_iff_forall_not_mem.2 fun i hi => ?_
      obtain ⟨e, he, hnone⟩ := mem_activeIndices.1 hi
      obtain ⟨e₀, he₀, rfl⟩ := List.mem_map.1 (List.mem_of_getElem? he)
      rw [(hexpired e₀).2 (h e₀ he₀)] at hnone
      cases hnone
  have hsel : (pool.refresh now scope).selectIdx random
      ((pool.refresh now scope).activeIndices scope) = none
        ↔ (pool.refresh now scope).activeIndices scope = [] := selectIdx_eq_none_iff
  rw [← hnil, ← hsel]
  unfold nextCredential
  cases hidx : (pool.refresh now scope).selectIdx random
      ((pool.refresh now scope).activeIndices scope) with
  | none => simp [hidx]
  | some i =>
    obtain ⟨e, he, -⟩ := mem_activeIndices.1 (mem_of_selectIdx hidx)
    simp [hidx, he]

end CredentialPool

end MyClaw
