import MyClaw.Compaction.Engine
import Mathlib.Data.List.TakeWhile

set_option autoImplicit false

/-!
# Work units and the boundary of a compaction

`scheduling_runtime/work_unit.rs`: a work unit is an assistant message with the results of its calls
and the user message before it.  A compaction boundary is the beginning of a unit; the messages before
it are summarized, and they are what the budget limits.

## Main definitions

* `extractWorkUnits` — the units of a history.
* `findCompactionBoundaryForBudget` — the boundary, none inside if the source panics.
* `KeepsRounds` — no tool result is kept whose call is not.
* `AnsweredInRound`, `LatestBoundary` — rounds without a user message inside; the last
  beginning of a unit before which the messages fit the budget.

## Main results

* `userStart_mono` — units begin in the order of their assistant messages.
* `findCompactionBoundaryForBudget_latest` — what the walk over the units finds.
* `compactionBoundary_law` — it is the latest boundary and keeps the rounds whole.
-/

namespace MyClaw

/-! ## Units -/

/-- `WorkUnit`. -/
structure WorkUnit where
  /-- The user message before the assistant message. -/
  userStart : ℕ
  /-- The assistant message. -/
  start : ℕ
  /-- Its last result, or itself. -/
  stop : ℕ
  deriving DecidableEq

/-- The last user message before a position, else the position. -/
def userStart (history : List ChatMessage) (start : ℕ) : ℕ :=
  (rposition (·.role = "user") (history.take start)).getD start

/-- The message is a result of one of these calls. -/
def ChatMessage.answersOneOf (ids : List String) (m : ChatMessage) : Bool :=
  m.role = "tool" && m.toolCallId.any (· ∈ ids)

/-- The loop of `extract_work_units` from a position on. -/
def extractLoop (history : List ChatMessage) : ℕ → ℕ → List WorkUnit
  | 0, _ => []
  | fuel + 1, i =>
    match history[i]? with
    | none => []
    | some m =>
      if m.role ≠ "assistant" then extractLoop history fuel (i + 1)
      else if m.callIds = [] then
        ⟨userStart history i, i, i⟩ :: extractLoop history fuel (i + 1)
      else
        let results := ((history.drop (i + 1)).takeWhile (·.answersOneOf m.callIds)).length
        ⟨userStart history i, i, i + results⟩ :: extractLoop history fuel (i + results + 1)

/-- `extract_work_units`. -/
def extractWorkUnits (history : List ChatMessage) : List WorkUnit :=
  extractLoop history history.length 0

/-! ## The boundary -/

/-- `prev`: up to where the tokens have been counted when the loop comes to a number of units. -/
def previousBoundary (units : List WorkUnit) (count : ℕ) : Option ℕ :=
  if count = 1 then some 0 else units[count - 1]?.map (·.userStart)

/-- The loop of `find_compaction_boundary_for_budget` over the numbers of units to fold; none if there
is no such unit. -/
def boundaryLoop (env : CompactionEnv) (history : List ChatMessage) (units : List WorkUnit)
    (compressBudget : ℕ) : List ℕ → ℕ → Option ℕ → Option (Option ℕ)
  | [], _, best => some best
  | count :: counts, prefixTokens, best => do
    let prev ← previousBoundary units count
    let boundary ← units[count]?.map (·.userStart)
    let prefixTokens := prefixTokens + estimateTokens env (slice history prev boundary)
    if prefixTokens ≤ compressBudget then
      boundaryLoop env history units compressBudget counts prefixTokens (some boundary)
    else some best

/-- `find_compaction_boundary_for_budget`. -/
def findCompactionBoundaryForBudget (env : CompactionEnv) (history : List ChatMessage)
    (compressBudget retainWorkUnits : ℕ) : Option (Option ℕ) :=
  let units := extractWorkUnits history
  if units.length ≤ retainWorkUnits then some none
  else
    let maxCompressCount := units.length - retainWorkUnits
    boundaryLoop env history units compressBudget (List.range' 1 maxCompressCount) 0 none

/-! ## The property -/

/-- The message of a position has this role. -/
def roleAt (history : List ChatMessage) (role : String) (k : ℕ) : Prop :=
  ∃ m ∈ history[k]?, m.role = role

/-- The assistant message of a position declares a call. -/
def declaresAt (history : List ChatMessage) (id : String) (i : ℕ) : Prop :=
  ∃ m ∈ history[i]?, m.role = "assistant" ∧ id ∈ m.callIds

/-- The call that the tool result of a position answers. -/
def resultAt (history : List ChatMessage) (j : ℕ) : Option String :=
  history[j]?.bind fun m => if m.role = "tool" then m.toolCallId else none

/-- **Each tool result follows the message that declares its call.** -/
def FollowsCall (history : List ChatMessage) : Prop :=
  ∀ j < history.length, ∀ id ∈ resultAt history j, ∃ i < j, declaresAt history id i

/-- There is no user message between two positions, and no assistant message unless a user message
precedes. -/
def InOneRound (history : List ChatMessage) (i j : ℕ) : Prop :=
  (∀ k < j, i < k → ¬ roleAt history "user" k) ∧
    ((∃ k < i, roleAt history "user" k) ∨ ∀ k < j, i < k → ¬ roleAt history "assistant" k)

/-- **Each tool result follows the message that declares its call**, in the same round. -/
def AnsweredInRound (history : List ChatMessage) : Prop :=
  ∀ j < history.length, ∀ id ∈ resultAt history j,
    ∃ i < j, declaresAt history id i ∧ InOneRound history i j

/-- **The rounds are whole**: the call of each tool result that is kept is kept. -/
def KeepsRounds (history : List ChatMessage) (boundary : ℕ) : Prop :=
  ∀ j < history.length, boundary ≤ j → ∀ id ∈ resultAt history j,
    ∃ i < j, boundary ≤ i ∧ declaresAt history id i

/-- The messages before a boundary fit the budget. -/
def PrefixFits (env : CompactionEnv) (history : List ChatMessage) (compressBudget boundary : ℕ) :
    Prop := estimateTokens env (history.take boundary) ≤ compressBudget

/-- **The latest boundary**: the beginning of a unit, not the first one and followed by as many units as
are to be retained, before which the messages fit the budget; before no later one do they. -/
def LatestBoundary (env : CompactionEnv) (history : List ChatMessage)
    (compressBudget retainWorkUnits : ℕ) : Option ℕ → Prop
  | some boundary =>
    ∃ k u, 1 ≤ k ∧ k + retainWorkUnits ≤ (extractWorkUnits history).length ∧
      (extractWorkUnits history)[k]? = some u ∧ u.userStart = boundary ∧
      PrefixFits env history compressBudget boundary ∧
      ∀ k' u', k < k' → k' + retainWorkUnits ≤ (extractWorkUnits history).length →
        (extractWorkUnits history)[k']? = some u' →
          ¬ PrefixFits env history compressBudget u'.userStart
  | none =>
    ∀ k u, 1 ≤ k → k + retainWorkUnits ≤ (extractWorkUnits history).length →
      (extractWorkUnits history)[k]? = some u → ¬ PrefixFits env history compressBudget u.userStart

instance (history : List ChatMessage) (role : String) (k : ℕ) : Decidable (roleAt history role k) :=
  inferInstanceAs (Decidable (∃ m ∈ history[k]?, _))

instance (history : List ChatMessage) (id : String) (i : ℕ) : Decidable (declaresAt history id i) :=
  inferInstanceAs (Decidable (∃ m ∈ history[i]?, _))

instance (history : List ChatMessage) : Decidable (FollowsCall history) :=
  inferInstanceAs (Decidable (∀ j < history.length, _))

instance (history : List ChatMessage) (i j : ℕ) : Decidable (InOneRound history i j) :=
  inferInstanceAs (Decidable (_ ∧ _))

instance (history : List ChatMessage) : Decidable (AnsweredInRound history) :=
  inferInstanceAs (Decidable (∀ j < history.length, _))

instance (history : List ChatMessage) (boundary : ℕ) : Decidable (KeepsRounds history boundary) :=
  inferInstanceAs (Decidable (∀ j < history.length, _))

/-! ## Where units begin -/

section

variable {α : Type*} {p : α → Bool} {l : List α} {i : ℕ}

lemma rposition_eq_none (h : rposition p l = none) : ∀ a ∈ l, p a = false := by
  induction l with
  | nil => nofun
  | cons b l ih =>
    unfold rposition at h
    cases hrest : rposition p l with
    | some j => simp [hrest] at h
    | none =>
      have hb : p b = false := by simpa [hrest] using h
      simpa [hb] using ih hrest

/-- The last position at which a predicate holds. -/
lemma rposition_eq_some (h : rposition p l = some i) :
    (∃ a ∈ l[i]?, p a = true) ∧ ∀ k a, i < k → l[k]? = some a → p a = false := by
  induction l generalizing i with
  | nil => cases h
  | cons b l ih =>
    unfold rposition at h
    cases hrest : rposition p l with
    | some j =>
      rw [hrest] at h
      obtain rfl := Option.some.inj h
      obtain ⟨hfound, hlater⟩ := ih hrest
      refine ⟨by simpa using hfound, fun k a hk hget => ?_⟩
      cases k with
      | zero => omega
      | succ k => exact hlater k a (by omega) (by simpa using hget)
    | none =>
      have hb : p b = true ∧ i = 0 := by
        simp only [hrest] at h
        split at h
        · rename_i hp
          exact ⟨hp, (Option.some.inj h).symm⟩
        · cases h
      obtain ⟨hp, rfl⟩ := hb
      refine ⟨⟨b, rfl, hp⟩, fun k a hk hget => ?_⟩
      cases k with
      | zero => omega
      | succ k => exact rposition_eq_none hrest a (List.mem_of_getElem? (by simpa using hget))

end

section

variable {history : List ChatMessage} {s s' k : ℕ}

/-- A unit begins at the last user message before its assistant message, or at that one. -/
lemma userStart_cases (history : List ChatMessage) (s : ℕ) :
    (userStart history s < s ∧ roleAt history "user" (userStart history s)) ∨
      userStart history s = s ∧ ∀ k < s, ¬ roleAt history "user" k := by
  unfold userStart
  cases h : rposition (·.role = "user") (history.take s) with
  | some u =>
    obtain ⟨m, hm, hrole⟩ := (rposition_eq_some h).1
    have hlt := rposition_lt h
    rw [List.length_take] at hlt
    rw [List.getElem?_take_of_lt (by omega)] at hm
    exact .inl ⟨by simpa using by omega, m, hm, of_decide_eq_true hrole⟩
  | none =>
    refine .inr ⟨rfl, ?_⟩
    rintro k hk ⟨m, hm, hrole⟩
    have hget : (history.take s)[k]? = some m := by rw [List.getElem?_take_of_lt hk, hm]
    have hfalse := rposition_eq_none h m (List.mem_of_getElem? hget)
    simp [hrole] at hfalse

/-- There is no user message between the beginning of a unit and its assistant message. -/
lemma not_user_of_lt (hlow : userStart history s < k) (hhigh : k < s) :
    ¬ roleAt history "user" k := by
  unfold userStart at hlow
  cases h : rposition (·.role = "user") (history.take s) with
  | some u =>
    rintro ⟨m, hm, hrole⟩
    rw [h] at hlow
    have hget : (history.take s)[k]? = some m := by rw [List.getElem?_take_of_lt hhigh, hm]
    have hfalse := (rposition_eq_some h).2 k m (by simpa using hlow) hget
    simp [hrole] at hfalse
  | none =>
    rw [h] at hlow
    simp only [Option.getD_none] at hlow
    omega

lemma userStart_le (history : List ChatMessage) (s : ℕ) : userStart history s ≤ s := by
  rcases userStart_cases history s with ⟨hlt, -⟩ | ⟨heq, -⟩
  · exact Nat.le_of_lt hlt
  · exact Nat.le_of_eq heq

/-- **Units begin in the order of their assistant messages.** -/
lemma userStart_mono (h : s ≤ s') : userStart history s ≤ userStart history s' := by
  by_contra hlt
  rw [Nat.not_le] at hlt
  have hle := userStart_le history s
  rcases userStart_cases history s with ⟨hs, huser⟩ | ⟨heq, hnone⟩
  · exact not_user_of_lt hlt (by omega) huser
  · rcases userStart_cases history s' with ⟨-, huser⟩ | ⟨heq', -⟩
    · exact hnone _ (by omega) huser
    · omega

/-! ## The units of a history -/

/-- What a unit is made of. -/
structure WorkUnit.BelongsTo (u : WorkUnit) (history : List ChatMessage) : Prop where
  userStart_eq : u.userStart = MyClaw.userStart history u.start
  assistant : roleAt history "assistant" u.start

/-- The units that the loop finds from a position on. -/
lemma extractLoop_units (history : List ChatMessage) (fuel i : ℕ) :
    (∀ u ∈ extractLoop history fuel i, u.BelongsTo history ∧ i ≤ u.start) ∧
      ((extractLoop history fuel i).map (·.start)).Pairwise (· < ·) := by
  induction fuel generalizing i with
  | zero => exact ⟨nofun, List.Pairwise.nil⟩
  | succ fuel ih =>
    -- a unit that starts here, before those of the rest
    have hcons : ∀ (m : ChatMessage) (n stop : ℕ), history[i]? = some m → m.role = "assistant" →
        (∀ u ∈ ⟨userStart history i, i, stop⟩ :: extractLoop history fuel (i + n + 1),
          u.BelongsTo history ∧ i ≤ u.start) ∧
        ((⟨userStart history i, i, stop⟩ :: extractLoop history fuel (i + n + 1)).map
          (·.start)).Pairwise (· < ·) := by
      intro m n stop hm hrole
      obtain ⟨hunits, hsorted⟩ := ih (i + n + 1)
      constructor
      · intro u hu
        rcases List.mem_cons.1 hu with rfl | hu
        · exact ⟨⟨rfl, m, hm, hrole⟩, Nat.le_refl _⟩
        · exact ⟨(hunits u hu).1, by have := (hunits u hu).2; omega⟩
      · rw [List.map_cons, List.pairwise_cons]
        refine ⟨fun x hx => ?_, hsorted⟩
        obtain ⟨u, hu, rfl⟩ := List.mem_map.1 hx
        have := (hunits u hu).2
        simp only
        omega
    unfold extractLoop
    cases hm : history[i]? with
    | none => exact ⟨nofun, List.Pairwise.nil⟩
    | some m =>
      simp only
      split
      · obtain ⟨hunits, hsorted⟩ := ih (i + 1)
        exact ⟨fun u hu => ⟨(hunits u hu).1, by have := (hunits u hu).2; omega⟩, hsorted⟩
      · rename_i hrole
        rw [not_ne_iff] at hrole
        split
        · exact hcons m 0 i hm hrole
        · exact hcons m _ _ hm hrole

/-- A later unit begins no earlier. -/
lemma userStart_le_of_lt {u u' : WorkUnit} {k' : ℕ} (hu : (extractWorkUnits history)[k]? = some u)
    (hu' : (extractWorkUnits history)[k']? = some u') (hk : k ≤ k') :
    u.userStart ≤ u'.userStart := by
  obtain ⟨hunits, hsorted⟩ := extractLoop_units history history.length 0
  have hstart := (hunits u (List.mem_of_getElem? hu)).1.userStart_eq
  have hstart' := (hunits u' (List.mem_of_getElem? hu')).1.userStart_eq
  rw [hstart, hstart']
  refine userStart_mono ?_
  rcases Nat.eq_or_lt_of_le hk with rfl | hlt
  · rw [hu] at hu'
    obtain rfl := Option.some.inj hu'
    exact Nat.le_refl _
  · obtain ⟨hk, rfl⟩ := List.getElem?_eq_some_iff.1 hu
    obtain ⟨hk', rfl⟩ := List.getElem?_eq_some_iff.1 hu'
    have hlt' := List.pairwise_iff_getElem.1 hsorted k k' (by rw [List.length_map]; exact hk)
      (by rw [List.length_map]; exact hk') hlt
    rw [List.getElem_map, List.getElem_map] at hlt'
    exact Nat.le_of_lt hlt'

/-! ## Rounds -/

/-- **A unit begins between rounds**: the call of a tool result after it is after it. -/
lemma keepsRounds_userStart (h : AnsweredInRound history) {u : WorkUnit}
    (hu : u ∈ extractWorkUnits history) : KeepsRounds history u.userStart := by
  obtain ⟨hstart, hassistant⟩ := ((extractLoop_units history history.length 0).1 u hu).1
  intro j hj hle id hid
  obtain ⟨i, hij, hdeclares, hnouser, hnoassistant⟩ := h j hj id hid
  refine ⟨i, hij, ?_, hdeclares⟩
  by_contra hlt
  rw [Nat.not_le] at hlt
  -- the message at which the unit begins is not the result
  have hresult : ∀ role, role ≠ "tool" → ¬ roleAt history role j := by
    rintro role hrole ⟨m, hm, rfl⟩
    simp only [resultAt, Option.mem_def.1 hm, Option.bind_some, if_neg hrole] at hid
    cases hid
  rcases userStart_cases history u.start with ⟨-, huser⟩ | ⟨heq, hnone⟩
  · rw [← hstart] at huser
    rcases Nat.eq_or_lt_of_le hle with heq | hlt'
    · exact hresult "user" (by decide) (heq ▸ huser)
    · exact hnouser _ hlt' hlt huser
  · rw [← hstart] at heq
    rw [← heq] at hassistant hnone
    rcases hnoassistant with ⟨k, hk, huser⟩ | hnoassistant
    · exact hnone k (by omega) huser
    · rcases Nat.eq_or_lt_of_le hle with heq' | hlt'
      · exact hresult "assistant" (by decide) (heq' ▸ hassistant)
      · exact hnoassistant _ hlt' hlt hassistant

end

/-! ## The walk over the units -/

section

variable {env : CompactionEnv} {history : List ChatMessage} {budget a b : ℕ}

/-- The messages up to a boundary, from an earlier one. -/
lemma estimateTokens_take (h : a ≤ b) :
    estimateTokens env (history.take b) =
      estimateTokens env (history.take a) + estimateTokens env (slice history a b) := by
  have hsplit : history.take b = history.take a ++ slice history a b := by
    have htake := List.take_append_drop a (history.take b)
    rw [List.take_take, Nat.min_eq_left h] at htake
    exact htake.symm
  rw [hsplit, estimateTokens, estimateTokens, estimateTokens, List.map_append, List.sum_append]

/-- What comes before an earlier boundary fits too. -/
lemma PrefixFits.mono (hfits : PrefixFits env history budget b) (h : a ≤ b) :
    PrefixFits env history budget a := by
  unfold PrefixFits at hfits ⊢
  rw [estimateTokens_take h] at hfits
  omega

/-- What the loop finds: the last of the first units that fit, if it comes to one. -/
lemma boundaryLoop_eq (env : CompactionEnv) (history : List ChatMessage) (budget n count tokens : ℕ)
    (best : Option ℕ) (prev : ℕ) (hcount : 1 ≤ count)
    (hbound : count + n ≤ (extractWorkUnits history).length)
    (hprev : previousBoundary (extractWorkUnits history) count = some prev)
    (htokens : tokens = estimateTokens env (history.take prev)) :
    ∃ found ≤ n,
      boundaryLoop env history (extractWorkUnits history) budget (List.range' count n) tokens best =
        some (if found = 0 then best else
          (extractWorkUnits history)[count + found - 1]?.map (·.userStart)) ∧
      (∀ k u, count ≤ k → k < count + found → (extractWorkUnits history)[k]? = some u →
        PrefixFits env history budget u.userStart) ∧
      ∀ u, found < n → (extractWorkUnits history)[count + found]? = some u →
        ¬ PrefixFits env history budget u.userStart := by
  induction n generalizing count tokens best prev with
  | zero => exact ⟨0, Nat.le_refl _, rfl, fun k u _ _ => by omega, fun u _ => by omega⟩
  | succ n ih =>
    obtain ⟨u, hu⟩ : ∃ u, (extractWorkUnits history)[count]? = some u :=
      ⟨_, List.getElem?_eq_getElem (by omega)⟩
    have hle : prev ≤ u.userStart := by
      unfold previousBoundary at hprev
      split at hprev
      · obtain rfl := Option.some.inj hprev
        exact Nat.zero_le _
      · obtain ⟨v, hv, rfl⟩ := Option.map_eq_some_iff.1 hprev
        exact userStart_le_of_lt hv hu (by omega)
    have hsum : tokens + estimateTokens env (slice history prev u.userStart) =
        estimateTokens env (history.take u.userStart) := by
      rw [htokens, ← estimateTokens_take hle]
    rw [List.range'_succ, boundaryLoop]
    simp only [hprev, hu, Option.map_some, Option.bind_eq_bind, Option.bind_some, hsum]
    split
    · rename_i hfits
      obtain ⟨found, hfound, hloop, hbefore, hafter⟩ := ih (count + 1) _ (some u.userStart)
        u.userStart (by omega) (by omega) (by simp [previousBoundary, hu]; omega) rfl
      refine ⟨found + 1, by omega, ?_, ?_, ?_⟩
      · rw [hloop, if_neg (Nat.succ_ne_zero _)]
        split
        · rename_i hzero
          simp [hzero, hu]
        · rw [show count + 1 + found - 1 = count + (found + 1) - 1 by omega]
      · intro k v hk hlt hv
        rcases Nat.eq_or_lt_of_le hk with rfl | hk
        · rw [hu] at hv
          obtain rfl := Option.some.inj hv
          exact hfits
        · exact hbefore k v hk (by omega) hv
      · intro v hlt hv
        exact hafter v (by omega) (by rw [← hv]; congr 1; omega)
    · rename_i hfits
      refine ⟨0, Nat.zero_le _, rfl, fun k v _ _ => by omega, fun v _ hv => ?_⟩
      rw [Nat.add_zero, hu] at hv
      obtain rfl := Option.some.inj hv
      exact hfits

/-- **The walk finds the latest boundary**, if a unit is to be retained. -/
theorem findCompactionBoundaryForBudget_latest (env : CompactionEnv) (history : List ChatMessage)
    (budget : ℕ) {retain : ℕ} (hretain : 1 ≤ retain) :
    ∃ r, findCompactionBoundaryForBudget env history budget retain = some r ∧
      LatestBoundary env history budget retain r := by
  unfold findCompactionBoundaryForBudget
  simp only
  split
  · exact ⟨none, rfl, fun k u _ _ => by omega⟩
  · obtain ⟨found, hfound, hloop, hbefore, hafter⟩ := boundaryLoop_eq env history budget
      ((extractWorkUnits history).length - retain) 1 0 none 0 (Nat.le_refl _) (by omega) rfl rfl
    -- behind the first boundary that does not fit no other one does
    have hnone : ∀ k u, found < k → k + retain ≤ (extractWorkUnits history).length →
        (extractWorkUnits history)[k]? = some u → ¬ PrefixFits env history budget u.userStart := by
      intro k u hk hle hu hfits
      obtain ⟨v, hv⟩ : ∃ v, (extractWorkUnits history)[1 + found]? = some v :=
        ⟨_, List.getElem?_eq_getElem (by omega)⟩
      exact hafter v (by omega) hv (hfits.mono (userStart_le_of_lt hv hu (by omega)))
    refine ⟨_, hloop, ?_⟩
    split
    · rename_i hzero
      exact fun k u hk => hnone k u (by omega)
    · rename_i hpos
      obtain ⟨u, hu⟩ : ∃ u, (extractWorkUnits history)[found]? = some u :=
        ⟨_, List.getElem?_eq_getElem (by omega)⟩
      rw [show 1 + found - 1 = found by omega, hu, Option.map_some]
      exact ⟨found, u, by omega, by omega, hu, rfl, hbefore found u (by omega) (by omega) hu,
        fun k' u' hk' => hnone k' u' hk'⟩

/-- **The boundary of a compaction**: in a history whose rounds have no user message inside, it leaves
no tool result without its call, and it is the latest one before which the messages fit the budget. -/
theorem compactionBoundary_law (env : CompactionEnv) (history : List ChatMessage)
    (budget retain : ℕ) (hretain : 1 ≤ retain) (hanswered : AnsweredInRound history) :
    ∃ r, findCompactionBoundaryForBudget env history budget retain = some r ∧
      LatestBoundary env history budget retain r ∧ ∀ boundary ∈ r, KeepsRounds history boundary := by
  obtain ⟨r, hr, hlatest⟩ := findCompactionBoundaryForBudget_latest env history budget hretain
  refine ⟨r, hr, hlatest, ?_⟩
  rintro boundary rfl
  obtain ⟨k, u, -, -, hu, rfl, -⟩ := hlatest
  exact keepsRounds_userStart hanswered (List.mem_of_getElem? hu)

end

/-! ## A budget for what is kept -/

/-- The messages after a boundary fit the budget. -/
def SuffixFits (env : CompactionEnv) (history : List ChatMessage) (compressBudget boundary : ℕ) :
    Prop := estimateTokens env (history.drop boundary) ≤ compressBudget

instance (env : CompactionEnv) (history : List ChatMessage) (budget boundary : ℕ) :
    Decidable (SuffixFits env history budget boundary) := inferInstanceAs (Decidable (_ ≤ _))

/-- An estimate of one token for each message. -/
def oneTokenEach : CompactionEnv where
  doSummarize _ _ := .ok "summary"
  hardFoldHistory _ := "folded"
  appendEvidenceIndex summary _ _ _ _ := summary
  estimateMessageTokens _ := 1
  markerForFile path _ := path

/-- Two calls in one message, then three more questions with their answers. -/
def answeredHistory : List ChatMessage :=
  [.userText "a",
    { ChatMessage.assistantText "" with toolCalls := some [⟨"c1", "list", ""⟩, ⟨"c2", "read", ""⟩] },
    { ChatMessage.text "tool" "x" with toolCallId := some "c1" },
    { ChatMessage.text "tool" "y" with toolCallId := some "c2" },
    .userText "b", .assistantText "b", .userText "c", .assistantText "c"]

/-- The boundary of a history with a round of two calls. -/
theorem compactionBoundary_law_twoCalls :
    ∃ r, findCompactionBoundaryForBudget oneTokenEach answeredHistory 5 1 = some r ∧
      LatestBoundary oneTokenEach answeredHistory 5 1 r ∧
        ∀ boundary ∈ r, KeepsRounds answeredHistory boundary :=
  compactionBoundary_law oneTokenEach answeredHistory 5 1 (by decide) (by decide)

/-- A user message between a call and its result. -/
def interruptedHistory : List ChatMessage :=
  [.userText "a",
    { ChatMessage.assistantText "" with toolCalls := some [⟨"c1", "list", ""⟩] },
    .userText "b",
    { ChatMessage.text "tool" "x" with toolCallId := some "c1" },
    .assistantText "b"]

/-- The boundary can be inside a round that a user message interrupts; what follows it need not fit the
budget; and what follows an earlier unit may fit it. -/
theorem not_compactionBoundary_suffix :
    (¬ ∀ env history budget retain boundary, 1 ≤ retain → FollowsCall history →
      findCompactionBoundaryForBudget env history budget retain = some (some boundary) →
        KeepsRounds history boundary) ∧
    (¬ ∀ env history budget retain boundary, 1 ≤ retain → FollowsCall history →
      findCompactionBoundaryForBudget env history budget retain = some (some boundary) →
        boundary ∉ ((extractWorkUnits history).getLast?.map (·.userStart)) →
          SuffixFits env history budget boundary) ∧
    ¬ ∀ env history budget retain boundary, 1 ≤ retain → FollowsCall history →
      findCompactionBoundaryForBudget env history budget retain = some (some boundary) →
        ∀ u ∈ extractWorkUnits history, u.userStart < boundary →
          ¬ SuffixFits env history budget u.userStart := by
  refine ⟨fun h => ?_, fun h => ?_, fun h => ?_⟩
  · have hrounds := h oneTokenEach interruptedHistory 9 1 2 (by decide) (by decide) (by decide)
    revert hrounds
    decide
  · have hsuffix := h oneTokenEach
      [.userText "a", .assistantText "a", .userText "b", .assistantText "b", .userText "c",
        .assistantText "c"] 2 1 2 (by decide) (by decide) (by decide) (by decide)
    revert hsuffix
    decide
  · have hearlier := h oneTokenEach answeredHistory 9 1 6 (by decide) (by decide) (by decide)
      ⟨0, 1, 3⟩ (by decide) (by decide)
    revert hearlier
    decide

/-! ## The boundary that the engine asks for -/

end MyClaw
