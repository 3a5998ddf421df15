import MyClaw.Provider.FallbackKeys

set_option autoImplicit false

/-!
# Runs of the credential pool

What `next_credential` answers after any calls of `mark_exhausted` and `next_credential`
(`providers/credential_pool.rs`).  A key is kept back until the moment that its last mark for the scope
names; an earlier mark with a later moment is forgotten.

## Main definitions

* `PoolRun`, `poolStep` — the pool with its clock and the marks that it was given.
* `LastBenched`, `EverBenched` — a key is benched by its last mark, or by any.
* `PoolSound` — the answers respect what is benched.

## Main results

* `poolSound_run` — the answers of every run respect the last marks.
* `not_poolSound_shorterMark` — a mark with a shorter duration takes an earlier one back.

## Implementation notes

`marks` is not kept by the source; it says which calls there were, the last one first.
-/

namespace MyClaw

/-! ## The machine -/

/-- A call of `mark_exhausted`, with the moment until which it marks the key. -/
structure PoolMark where
  key : String
  scope : String
  until_ : ℕ
  deriving DecidableEq

/-- The pool, the clock, and the marks. -/
structure PoolRun where
  pool : CredentialPool
  now : ℕ
  marks : List PoolMark

/-- A call after some time. -/
inductive PoolEvent
  | mark (elapsed : ℕ) (key scope : String) (duration : ℕ)
  | next (elapsed random : ℕ) (scope : String)

/-- The state before the first call. -/
def PoolRun.start (keys : List String) (strategy : RotationStrategy) : PoolRun where
  pool := .new keys strategy
  now := 0
  marks := []

/-- What a call does. -/
def poolStep (s : PoolRun) : PoolEvent → PoolRun
  | .mark elapsed key scope duration =>
    let now := s.now + elapsed
    { pool := s.pool.markExhausted now key scope duration
      now := now
      marks := ⟨key, scope, now + duration⟩ :: s.marks }
  | .next elapsed random scope =>
    let now := s.now + elapsed
    { pool := (s.pool.nextCredential now random scope).2, now := now, marks := s.marks }

/-! ## The property -/

/-- The last mark of a key for a scope. -/
def lastMark (marks : List PoolMark) (key scope : String) : Option PoolMark :=
  marks.find? fun m => m.key = key ∧ m.scope = scope

/-- **Benched by the last mark.** -/
def LastBenched (marks : List PoolMark) (key scope : String) (now : ℕ) : Prop :=
  ∃ m ∈ lastMark marks key scope, now < m.until_

/-- **Benched by some mark.** -/
def EverBenched (marks : List PoolMark) (key scope : String) (now : ℕ) : Prop :=
  ∃ m ∈ marks, m.key = key ∧ m.scope = scope ∧ now < m.until_

/-- **Sound answers**, whenever and for whichever scope the pool is asked next: a key that is handed
out is one of the pool and is not benched; none is handed out only if all are benched; and a mark for
one scope does not change the answer for another. -/
structure PoolSound (benched : List PoolMark → String → String → ℕ → Prop) (keys : List String)
    (s : PoolRun) : Prop where
  rested : ∀ elapsed random scope key,
    (s.pool.nextCredential (s.now + elapsed) random scope).1 = some key →
      key ∈ keys ∧ ¬ benched s.marks key scope (s.now + elapsed)
  exhausted : ∀ elapsed random scope,
    (s.pool.nextCredential (s.now + elapsed) random scope).1 = none →
      ∀ key ∈ keys, benched s.marks key scope (s.now + elapsed)
  scopes : ∀ elapsed key other duration later random scope, other ≠ scope →
    ((s.pool.markExhausted (s.now + elapsed) key other duration).nextCredential
        (s.now + elapsed + later) random scope).1 =
      (s.pool.nextCredential (s.now + elapsed + later) random scope).1

/-- What holds between the pool and the marks: an entry has the moment of the last mark of its key, or
none where this moment has passed. -/
structure PoolInv (keys : List String) (s : PoolRun) : Prop where
  keys : s.pool.entries.map (·.key) = keys
  lastMarks : ∀ e ∈ s.pool.entries, ∀ scope,
    e.exhaustedUntil scope = (lastMark s.marks e.key scope).map (·.until_) ∨
      e.exhaustedUntil scope = none ∧ ¬ LastBenched s.marks e.key scope s.now

/-! ## What an answer depends on -/

namespace CredentialPool

variable {pool pool' : CredentialPool} {now random : ℕ} {scope : String}

/-- What `next_credential` looks at in an entry. -/
def view (scope : String) (e : CredentialEntry) : String × ℕ × Option ℕ :=
  (e.key, e.useCount, e.exhaustedUntil scope)

/-- What a refresh does to it. -/
lemma view_refresh (e : CredentialEntry) :
    view scope (e.refresh now scope) =
      ((view scope e).1, (view scope e).2.1, (view scope e).2.2.filter (now < ·)) := by
  unfold CredentialEntry.refresh
  cases h : e.exhaustedUntil scope with
  | none => simp [view, h]
  | some u =>
    by_cases hu : u ≤ now
    · simp [view, h, hu, Option.filter_some]
    · simp [view, h, hu, Option.filter_some, Nat.lt_of_not_le hu]

lemma activeIndices_eq :
    pool.activeIndices scope =
      ((pool.entries.map (view scope)).zipIdx.filter fun p => p.1.2.2.isNone).map (·.2) := by
  rw [activeIndices, List.zipIdx_map, List.filter_map, List.map_map]
  rfl

/-- **The answer** depends on the strategy, the round-robin index and the views of the entries. -/
lemma nextCredential_congr (hstrategy : pool'.strategy = pool.strategy)
    (hidx : pool'.roundRobinIdx = pool.roundRobinIdx)
    (hviews : pool'.entries.map (view scope) = pool.entries.map (view scope)) :
    (pool'.nextCredential now random scope).1 = (pool.nextCredential now random scope).1 := by
  have hrefresh : (pool'.refresh now scope).entries.map (view scope) =
      (pool.refresh now scope).entries.map (view scope) := by
    have hfilter : ∀ p : CredentialPool, (p.refresh now scope).entries.map (view scope) =
        (p.entries.map (view scope)).map fun v => (v.1, v.2.1, v.2.2.filter (now < ·)) := by
      intro p
      rw [refresh, List.map_map, List.map_map]
      exact List.map_congr_left fun e _ => view_refresh e
    rw [hfilter, hfilter, hviews]
  have hactive : (pool'.refresh now scope).activeIndices scope =
      (pool.refresh now scope).activeIndices scope := by
    rw [activeIndices_eq, activeIndices_eq, hrefresh]
  have hat : ∀ i : ℕ, ((pool'.refresh now scope).entries[i]?).map (view scope) =
      ((pool.refresh now scope).entries[i]?).map (view scope) := by
    intro i
    rw [← List.getElem?_map, ← List.getElem?_map, hrefresh]
  have hcount : ∀ i : ℕ, ((pool'.refresh now scope).entries[i]?).map (·.useCount) =
      ((pool.refresh now scope).entries[i]?).map (·.useCount) := by
    intro i
    simpa [Function.comp_def, view] using
      congrArg (Option.map fun v : String × ℕ × Option ℕ => v.2.1) (hat i)
  have hkey : ∀ i : ℕ, ((pool'.refresh now scope).entries[i]?).map (·.key) =
      ((pool.refresh now scope).entries[i]?).map (·.key) := by
    intro i
    simpa [Function.comp_def, view] using
      congrArg (Option.map fun v : String × ℕ × Option ℕ => v.1) (hat i)
  have hselect : (pool'.refresh now scope).selectIdx random
        ((pool'.refresh now scope).activeIndices scope) =
      (pool.refresh now scope).selectIdx random ((pool.refresh now scope).activeIndices scope) := by
    rw [hactive, selectIdx, selectIdx]
    simp only [hcount]
    simp only [refresh, hstrategy, hidx]
  unfold nextCredential
  dsimp only
  rw [hselect]
  split
  · rfl
  · exact hkey _

/-- **A mark for one scope** does not change the answer for another. -/
lemma nextCredential_markExhausted_of_ne {other key : String} {marked duration : ℕ}
    (h : other ≠ scope) :
    ((pool.markExhausted marked key other duration).nextCredential now random scope).1 =
      (pool.nextCredential now random scope).1 := by
  refine nextCredential_congr rfl rfl (FirstMatch.map_update fun e => ?_)
  simp [view, Function.update_of_ne h.symm]

end CredentialPool

/-! ## The pool and the marks -/

section

variable {keys : List String} {s : PoolRun} {marks : List PoolMark} {key scope : String} {now : ℕ}

lemma lastMark_cons (m : PoolMark) :
    lastMark (m :: marks) key scope =
      if m.key = key ∧ m.scope = scope then some m else lastMark marks key scope := by
  unfold lastMark
  rw [List.find?_cons]
  by_cases h : m.key = key ∧ m.scope = scope <;> simp [h]

/-- What is not benched now will not be later. -/
lemma LastBenched.of_le {later : ℕ} (h : LastBenched marks key scope later) (hle : now ≤ later) :
    LastBenched marks key scope now := by
  obtain ⟨m, hm, hlt⟩ := h
  exact ⟨m, hm, hle.trans_lt hlt⟩

lemma exhaustedUntil_refresh (e : CredentialEntry) :
    (e.refresh now scope).exhaustedUntil scope = (e.exhaustedUntil scope).filter (now < ·) :=
  congrArg (fun v => v.2.2) (CredentialPool.view_refresh e)

lemma exhaustedUntil_refresh_of_ne {other : String} (h : other ≠ scope) (e : CredentialEntry) :
    (e.refresh now scope).exhaustedUntil other = e.exhaustedUntil other := by
  unfold CredentialEntry.refresh
  split
  · split
    · simp [Function.update_of_ne h]
    · rfl
  · rfl

/-- **The entries tell what is benched**, from now on. -/
lemma PoolInv.benched_iff (h : PoolInv keys s) {e : CredentialEntry} (he : e ∈ s.pool.entries)
    (hnow : s.now ≤ now) :
    (∃ u, e.exhaustedUntil scope = some u ∧ now < u) ↔ LastBenched s.marks e.key scope now := by
  rcases h.lastMarks e he scope with hlast | ⟨hnone, hrested⟩
  · constructor
    · rintro ⟨u, hu, hlt⟩
      obtain ⟨m, hm, rfl⟩ := Option.map_eq_some_iff.1 (hlast.symm.trans hu)
      exact ⟨m, hm, hlt⟩
    · rintro ⟨m, hm, hlt⟩
      exact ⟨m.until_, by rw [hlast, hm, Option.map_some], hlt⟩
  · constructor
    · rintro ⟨u, hu, -⟩
      rw [hnone] at hu
      cases hu
    · exact fun hbenched => absurd (hbenched.of_le hnow) hrested

/-- A refreshed entry is free exactly when its key is not benched. -/
lemma PoolInv.refresh_eq_none_iff (h : PoolInv keys s) {e : CredentialEntry}
    (he : e ∈ s.pool.entries) (hnow : s.now ≤ now) :
    (e.refresh now scope).exhaustedUntil scope = none ↔ ¬ LastBenched s.marks e.key scope now := by
  rw [← h.benched_iff he hnow, exhaustedUntil_refresh]
  cases e.exhaustedUntil scope with
  | none => simp
  | some u => simp [Option.filter_some]

/-- **Sound answers** follow. -/
lemma PoolInv.sound (h : PoolInv keys s) : PoolSound LastBenched keys s where
  rested elapsed random scope key hkey := by
    rcases s.pool.nextCredential_cases (s.now + elapsed) random scope with
      hnext | ⟨idx, e, he, hnone, hanswer, -⟩
    · rw [hnext] at hkey
      cases hkey
    · obtain rfl := Option.some.inj (hanswer.symm.trans hkey)
      obtain ⟨e, hmem, rfl⟩ := List.mem_map.1 (List.mem_of_getElem? he)
      rw [CredentialEntry.key_refresh]
      refine ⟨h.keys ▸ List.mem_map_of_mem hmem, ?_⟩
      exact (h.refresh_eq_none_iff hmem (Nat.le_add_right _ _)).1 hnone
  exhausted elapsed random scope hnone key hkey := by
    rw [← h.keys] at hkey
    obtain ⟨e, he, rfl⟩ := List.mem_map.1 hkey
    exact (h.benched_iff he (Nat.le_add_right _ _)).1
      (CredentialPool.nextCredential_eq_none_iff.1 hnone e he)
  scopes _ _ _ _ _ _ _ hne := CredentialPool.nextCredential_markExhausted_of_ne hne

/-! ## Steps and runs -/

lemma poolInv_start (keys : List String) (strategy : RotationStrategy) :
    PoolInv keys (.start keys strategy) where
  keys := by simp [PoolRun.start, CredentialPool.new, Function.comp_def]
  lastMarks e he scope := by
    obtain ⟨key, -, rfl⟩ := List.mem_map.1 he
    exact .inl rfl

/-- Time passes. -/
lemma PoolInv.entry_of_le (h : PoolInv keys s) {e : CredentialEntry} (he : e ∈ s.pool.entries)
    (scope : String) (hnow : s.now ≤ now) :
    e.exhaustedUntil scope = (lastMark s.marks e.key scope).map (·.until_) ∨
      e.exhaustedUntil scope = none ∧ ¬ LastBenched s.marks e.key scope now :=
  (h.lastMarks e he scope).imp_right fun hrested =>
    ⟨hrested.1, fun hbenched => hrested.2 (hbenched.of_le hnow)⟩

/-- **A mark.** -/
lemma PoolInv.mark (h : PoolInv keys s) (hkeys : keys.Nodup) (elapsed : ℕ) (key scope : String)
    (duration : ℕ) : PoolInv keys (poolStep s (.mark elapsed key scope duration)) where
  keys := CredentialPool.keys_markExhausted.trans h.keys
  lastMarks e' he' scope' := by
    have hdistinct : (s.pool.entries.map (·.key)).Nodup := h.keys ▸ hkeys
    rw [poolStep, CredentialPool.markExhausted] at he'
    dsimp only at he'
    rw [FirstMatch.update_eq_map hdistinct] at he'
    obtain ⟨e, he, rfl⟩ := List.mem_map.1 he'
    have hold := h.entry_of_le he scope' (Nat.le_add_right s.now elapsed)
    simp only [poolStep, LastBenched, lastMark_cons] at hold ⊢
    by_cases hkey : e.key = key
    · rw [if_pos hkey]
      by_cases hscope : scope' = scope
      · left
        simp [hkey, hscope]
      · simpa [hkey, hscope, Ne.symm hscope] using hold
    · rw [if_neg hkey]
      simpa [Ne.symm hkey] using hold

/-- **An answer.** -/
lemma PoolInv.next (h : PoolInv keys s) (elapsed random : ℕ) (scope : String) :
    PoolInv keys (poolStep s (.next elapsed random scope)) where
  keys := CredentialPool.keys_nextCredential.trans h.keys
  lastMarks e' he' scope' := by
    obtain ⟨e, he, hkey, hex⟩ := CredentialPool.mem_entries_nextCredential he'
    have hold := h.entry_of_le he scope' (Nat.le_add_right s.now elapsed)
    rw [hex, ← hkey]
    by_cases hscope : scope' = scope
    · subst hscope
      by_cases hnone : (e.refresh (s.now + elapsed) scope').exhaustedUntil scope' = none
      · exact .inr ⟨hnone, (h.refresh_eq_none_iff he (Nat.le_add_right _ _)).1 hnone⟩
      · obtain ⟨u, hu⟩ := Option.ne_none_iff_exists'.1 hnone
        rw [exhaustedUntil_refresh, Option.filter_eq_some_iff] at hu
        rw [exhaustedUntil_refresh, Option.filter_eq_some_iff.2 hu, ← hu.1]
        exact hold.imp_right fun hrested => absurd (hu.1.symm.trans hrested.1) (by simp)
    · rw [exhaustedUntil_refresh_of_ne hscope]
      exact hold

/-- **The answers of every run** respect the last marks, if no key is listed twice. -/
theorem poolSound_run (keys : List String) (hkeys : keys.Nodup) (strategy : RotationStrategy)
    (es : List PoolEvent) :
    Run.Always poolStep (PoolSound LastBenched keys) (.start keys strategy) es := by
  have hinv : Run.Always poolStep (PoolInv keys) (.start keys strategy) es := by
    refine Run.always_of_step (C := fun _ _ => True) (fun s e h _ => ?_) (poolInv_start keys strategy)
      (Run.eachStep_true _ es)
    cases e with
    | mark elapsed key scope duration => exact h.mark hkeys elapsed key scope duration
    | next elapsed random scope => exact h.next elapsed random scope
  exact hinv.imp fun s h => h.sound

end

/-- Two keys, one of them marked twice. -/
theorem poolSound_run_twoKeys :
    Run.Always poolStep (PoolSound LastBenched ["a", "b"]) (.start ["a", "b"] .roundRobin)
      [.mark 0 "a" "m" 100, .mark 0 "a" "m" 10, .next 50 0 "m"] :=
  poolSound_run ["a", "b"] (by decide) .roundRobin _

/-- **A shorter mark takes an earlier one back**: the key is handed out while the first mark of it still
runs. -/
theorem not_poolSound_shorterMark :
    ¬ ∀ (keys : List String) (strategy : RotationStrategy) (es : List PoolEvent),
      Run.Always poolStep (PoolSound EverBenched keys) (.start keys strategy) es := by
  intro h
  have hsound := (h ["a"] .fillFirst [.mark 0 "a" "m" 100, .mark 0 "a" "m" 10]).last
  have hrested := (hsound.rested 50 0 "m" "a" (by decide)).2
  exact hrested ⟨⟨"a", "m", 100⟩, by decide, rfl, rfl, by decide⟩

end MyClaw
