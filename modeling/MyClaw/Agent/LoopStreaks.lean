import MyClaw.Agent.LoopBreaker
import Mathlib.Data.Set.Function

set_option autoImplicit false

/-!
# Streaks in the loop breaker

What `record_and_check` (`agents/loop_breaker.rs`) reports after a run of calls.  Equal calls that
follow each other quickly are a loop; calls that each bring another result are progress.  The gate
for polling looks at all equal calls at the end of the window, not only at as many as the threshold
asks for: calls that come slowly hide the quick ones behind them.

## Main definitions

* `LoopCall`, `LoopBreakerCounter.report` — a call, and what the last call of a run
  returns.
* `TightEnd` — a run ends in as many equal calls as the threshold asks for, in quick succession.
* `endStreak` — the equal calls at the end of the window.
* `HashesApart` — the texts of the run have different hashes.
* `CatchesLoops` — what the loop breaker owes a turn.

## Main results

* `reverse_window_runCalls` — the window has the last calls.
* `exactStreak_eq` — the streak is what the calls at the end have in common.
* `TightEnd.isSome_report` — a tight streak is caught.
* `catchesLoops` — quick loops are caught, and progress is spared.
* `not_catchesLoops` — a slow call before the quick ones lets them pass.
-/

namespace MyClaw

/-- A call with its result, and when it is recorded. -/
structure LoopCall where
  toolName : String
  args : String
  result : String
  now : ℕ

namespace LoopCall

/-- `result.contains("timed out")`. -/
def timedOut (c : LoopCall) : Bool := decide ("timed out".toList <:+: c.result.toList)

/-- The call as it is recorded. -/
def invocation (c : LoopCall) : ToolInvocation :=
  ⟨c.toolName, simpleHash c.args, simpleHash c.result, c.timedOut, c.now⟩

/-- The call is the same as the last one, and did not time out. -/
def repeats (last c : LoopCall) : Bool :=
  c.toolName = last.toolName && c.args = last.args && !c.timedOut && c.result = last.result

end LoopCall

namespace LoopBreakerCounter

/-- A counter after a run of calls. -/
def runCalls (config : LoopBreakerConfig) (calls : List LoopCall) : LoopBreakerCounter :=
  calls.foldl (fun c call => (c.recordAndCheck call.toolName call.args call.result call.now).2)
    { config := config }

/-- What the last call of a run returns. -/
def report (config : LoopBreakerConfig) (calls : List LoopCall) : Option LoopBreakReason :=
  (runCalls config calls).check

end LoopBreakerCounter

open LoopBreakerCounter

variable {config : LoopBreakerConfig} {calls : List LoopCall} {call last : LoopCall}

/-! ## The window -/

lemma runCalls_append : runCalls config (calls ++ [call]) =
    (runCalls config calls).record call.toolName call.args call.result call.now := by
  rw [runCalls, List.foldl_append]
  rfl

lemma config_runCalls : (runCalls config calls).config = config := by
  induction calls using List.reverseRecOn with
  | nil => rfl
  | append_singleton calls call ih => rw [runCalls_append, LoopBreakerCounter.record, ih]

/-- **The window has the last calls.** -/
lemma window_runCalls (h : 1 ≤ config.windowSize) : (runCalls config calls).window =
    (calls.drop (calls.length - config.windowSize)).map LoopCall.invocation := by
  induction calls using List.reverseRecOn with
  | nil => rw [List.drop_nil]; rfl
  | append_singleton calls call ih =>
    have hlen : (runCalls config calls).window.length =
        calls.length - (calls.length - config.windowSize) := by
      rw [ih, List.length_map, List.length_drop]
    have hdrop : calls.length + 1 - config.windowSize ≤ calls.length := by omega
    rw [runCalls_append, LoopBreakerCounter.record, config_runCalls, List.length_append,
      List.length_singleton, List.drop_append_of_le_length hdrop, List.map_append]
    split_ifs with hfull
    · have hshift : calls.length - config.windowSize + 1 = calls.length + 1 - config.windowSize := by
        omega
      rw [ih, ← List.map_drop, List.drop_drop, hshift]
      rfl
    · have hshift : calls.length - config.windowSize = calls.length + 1 - config.windowSize := by
        omega
      rw [ih, hshift]
      rfl

/-- The window backwards, the latest call first. -/
lemma reverse_window_runCalls (h : 1 ≤ config.windowSize) :
    (runCalls config calls).window.reverse =
      (calls.reverse.take config.windowSize).map LoopCall.invocation := by
  rw [window_runCalls h, ← List.map_reverse, List.reverse_drop]
  congr 1
  rcases Nat.le_total config.windowSize calls.length with hle | hle
  · rw [Nat.sub_sub_self hle]
  · rw [Nat.sub_eq_zero_of_le hle, List.take_of_length_le (by simp),
      List.take_of_length_le (by simpa using hle)]

/-! ## Streaks -/

/-- Two calls that the loop breaker takes for the same one, the other of which did not time out. -/
def ToolInvocation.repeats (first inv : ToolInvocation) : Bool :=
  inv.toolName = first.toolName && inv.argsHash = first.argsHash && !inv.isTimeout &&
    inv.resultHash = first.resultHash

/-- **The streak** is what the calls before have in common with the first one. -/
lemma exactStreak_eq (first : ToolInvocation) (count start : ℕ) (rest : List ToolInvocation) :
    exactStreak first count start rest =
      (count + (rest.takeWhile first.repeats).length,
        ((rest.takeWhile first.repeats).getLast?.map (·.timestamp)).getD start) := by
  induction rest generalizing count start with
  | nil => rfl
  | cons inv rest ih =>
    rw [exactStreak]
    split_ifs with hsame htimeout hresult
    · have hrepeats : first.repeats inv = false := by simp [ToolInvocation.repeats, htimeout]
      rw [List.takeWhile_cons_of_neg (by simp [hrepeats])]
      rfl
    · have hrepeats : first.repeats inv = false := by simp [ToolInvocation.repeats, hresult]
      rw [List.takeWhile_cons_of_neg (by simp [hrepeats])]
      rfl
    · have hrepeats : first.repeats inv = true := by
        simp_all [ToolInvocation.repeats]
      rw [ih, List.takeWhile_cons_of_pos hrepeats, List.length_cons, List.getLast?_cons,
        Option.map_some, Option.getD_some]
      refine Prod.ext (by dsimp only; omega) ?_
      cases (rest.takeWhile first.repeats).getLast? with
      | none => rfl
      | some inv => rfl
    · have hrepeats : first.repeats inv = false := by
        rw [ToolInvocation.repeats]
        simp_all
      rw [List.takeWhile_cons_of_neg (by simp [hrepeats])]
      rfl

/-- The equal calls at the end of the window, the latest first. -/
def endStreak (config : LoopBreakerConfig) (calls : List LoopCall) : List LoopCall :=
  match calls.reverse.take config.windowSize with
  | [] => []
  | last :: earlier => last :: earlier.takeWhile last.repeats

/-- The calls follow each other within the window for polling. -/
def QuickCalls (config : LoopBreakerConfig) (calls : List LoopCall) : Prop :=
  ∀ a ∈ calls, ∀ b ∈ calls, b.now - a.now < config.rapidRepeatWindowSecs * 1000000000

instance (config : LoopBreakerConfig) (calls : List LoopCall) : Decidable (QuickCalls config calls) :=
  inferInstanceAs (Decidable (∀ a ∈ calls, ∀ b ∈ calls, _))

/-- The run ends in as many equal calls as the threshold asks for, none of which timed out, and
these are quick. -/
def TightEnd (config : LoopBreakerConfig) (calls : List LoopCall) : Prop :=
  ∃ streak, streak <:+ calls ∧ streak.length = config.exactRepeatThreshold ∧
    (∀ a ∈ streak, ∀ b ∈ streak, a.toolName = b.toolName ∧ a.args = b.args ∧ a.result = b.result) ∧
    (∀ a ∈ streak, a.timedOut = false) ∧ QuickCalls config streak

/-- The texts of the run have different hashes. -/
def HashesApart (calls : List LoopCall) : Prop :=
  Set.InjOn simpleHash {text | ∃ c ∈ calls, text = c.args ∨ text = c.result}

/-- Hashes that are apart tell calls apart. -/
lemma HashesApart.repeats (h : HashesApart calls) (hlast : last ∈ calls) (hcall : call ∈ calls) :
    last.invocation.repeats call.invocation = last.repeats call := by
  have hargs : simpleHash call.args = simpleHash last.args ↔ call.args = last.args :=
    h.eq_iff ⟨call, hcall, .inl rfl⟩ ⟨last, hlast, .inl rfl⟩
  have hresult : simpleHash call.result = simpleHash last.result ↔ call.result = last.result :=
    h.eq_iff ⟨call, hcall, .inr rfl⟩ ⟨last, hlast, .inr rfl⟩
  have hrepeats : last.invocation.repeats call.invocation =
      (decide (call.toolName = last.toolName) && decide (simpleHash call.args = simpleHash last.args) &&
        !call.timedOut && decide (simpleHash call.result = simpleHash last.result)) := rfl
  rw [hrepeats, LoopCall.repeats, decide_eq_decide.2 hargs, decide_eq_decide.2 hresult]

/-- The calls at the end of the window, with what the loop breaker makes of them. -/
lemma takeWhile_invocations (h : HashesApart calls) (hlast : last ∈ calls) {earlier : List LoopCall}
    (hearlier : earlier ⊆ calls) :
    (earlier.map LoopCall.invocation).takeWhile last.invocation.repeats =
      (earlier.takeWhile last.repeats).map LoopCall.invocation := by
  induction earlier with
  | nil => rfl
  | cons call earlier ih =>
    obtain ⟨hcall, hrest⟩ := List.cons_subset.1 hearlier
    have hsame := h.repeats hlast hcall
    rw [List.map_cons, List.takeWhile_cons, List.takeWhile_cons, hsame]
    split_ifs
    · rw [ih hrest, List.map_cons]
    · rfl

/-- The part of the run that the window has. -/
lemma take_reverse_subset (config : LoopBreakerConfig) (calls : List LoopCall) :
    calls.reverse.take config.windowSize ⊆ calls := fun _ hc =>
  List.mem_reverse.1 (List.mem_of_mem_take hc)

section Reports

variable {earlier : List LoopCall}

/-- **The exact check in terms of the calls.** -/
lemma checkExactRepeat_runCalls (hsize : 1 ≤ config.windowSize) (h : HashesApart calls)
    (hwindow : calls.reverse.take config.windowSize = last :: earlier)
    (hlast : last.timedOut = false) :
    (runCalls config calls).checkExactRepeat =
      if config.exactRepeatThreshold ≤ (endStreak config calls).length then
        if config.rapidRepeatWindowSecs ≤
            asSecs (last.now - (((endStreak config calls).getLast?.map (·.now)).getD 0)) then none
        else
          some (.exactRepeat last.toolName (endStreak config calls).length config.exactRepeatThreshold)
      else none := by
  have hsub : last :: earlier ⊆ calls := hwindow ▸ take_reverse_subset config calls
  obtain ⟨hmem, hearlier⟩ := List.cons_subset.1 hsub
  have hstreak : endStreak config calls = last :: earlier.takeWhile last.repeats := by
    rw [endStreak, hwindow]
  have hstart : ((earlier.takeWhile last.repeats).map LoopCall.invocation).getLast?.map
        (·.timestamp) = ((earlier.takeWhile last.repeats).getLast?).map (·.now) := by
    rw [List.getLast?_map, Option.map_map]
    rfl
  have hlength : (endStreak config calls).length = 1 + (earlier.takeWhile last.repeats).length := by
    rw [hstreak, List.length_cons, Nat.add_comm]
  have hfirst : ((endStreak config calls).getLast?.map (·.now)).getD 0 =
      (((earlier.takeWhile last.repeats).getLast?).map (·.now)).getD last.now := by
    rw [hstreak, List.getLast?_cons, Option.map_some, Option.getD_some]
    cases (earlier.takeWhile last.repeats).getLast? with
    | none => rfl
    | some c => rfl
  rw [LoopBreakerCounter.checkExactRepeat, reverse_window_runCalls hsize, hwindow, List.map_cons]
  dsimp only
  rw [exactStreak_eq, takeWhile_invocations h hmem hearlier, hstart, List.length_map,
    config_runCalls, hlength, hfirst, if_neg]
  · rfl
  · exact Bool.eq_false_iff.1 hlast

/-- A tight end is part of the streak in the window. -/
lemma TightEnd.le_length_endStreak (h : TightEnd config calls)
    (hthreshold : 1 ≤ config.exactRepeatThreshold)
    (hsize : config.exactRepeatThreshold ≤ config.windowSize)
    (hwindow : calls.reverse.take config.windowSize = last :: earlier) :
    last.timedOut = false ∧ config.exactRepeatThreshold ≤ (endStreak config calls).length := by
  obtain ⟨streak, hsuffix, hlength, hsame, htimely, -⟩ := h
  have hhead : streak.reverse <+: last :: earlier := by
    rw [← hwindow]
    refine List.prefix_of_prefix_length_le (List.reverse_prefix.2 hsuffix) (List.take_prefix _ _) ?_
    rw [List.length_take, List.length_reverse, hlength, List.length_reverse, ← hlength]
    exact Nat.le_min.2 ⟨hlength ▸ hsize, hsuffix.length_le⟩
  obtain ⟨c, rest, hrev⟩ : ∃ c rest, streak.reverse = c :: rest := by
    refine List.exists_cons_of_ne_nil fun hnil => ?_
    rw [List.reverse_eq_nil_iff] at hnil
    rw [hnil] at hlength
    exact absurd hthreshold (hlength ▸ Nat.not_succ_le_zero 0)
  have hmem (a : LoopCall) (ha : a ∈ c :: rest) : a ∈ streak := List.mem_reverse.1 (hrev ▸ ha)
  rw [hrev, List.cons_prefix_cons] at hhead
  obtain ⟨rfl, more, rfl⟩ := hhead
  have hc : c ∈ streak := hmem c List.mem_cons_self
  have hrepeats : ∀ a ∈ rest, c.repeats a = true := by
    intro a ha
    have hin : a ∈ streak := hmem a (List.mem_cons_of_mem _ ha)
    obtain ⟨htool, hargs, hresult⟩ := hsame a hin c hc
    simp [LoopCall.repeats, htool, hargs, hresult, htimely a hin]
  refine ⟨htimely c hc, ?_⟩
  rw [endStreak, hwindow, ← hlength, ← List.length_reverse, hrev]
  dsimp only
  rw [List.takeWhile_append_of_pos hrepeats, List.length_cons, List.length_cons, List.length_append]
  exact Nat.succ_le_succ (Nat.le_add_right _ _)

/-- **A tight end is caught** if all equal calls at the end of the window are quick. -/
theorem TightEnd.isSome_report (h : TightEnd config calls)
    (hthreshold : 1 ≤ config.exactRepeatThreshold)
    (hsize : config.exactRepeatThreshold ≤ config.windowSize) (happart : HashesApart calls)
    (hquick : QuickCalls config (endStreak config calls)) : (report config calls).isSome = true := by
  cases hwindow : calls.reverse.take config.windowSize with
  | nil =>
    obtain ⟨streak, hsuffix, hlength, -⟩ := h
    have hcalls := hsuffix.length_le
    rw [List.take_eq_nil_iff, List.reverse_eq_nil_iff] at hwindow
    rcases hwindow with hzero | hnil
    · omega
    · rw [hnil, List.length_nil] at hcalls
      omega
  | cons last earlier =>
    obtain ⟨htimely, hcount⟩ := h.le_length_endStreak hthreshold hsize hwindow
    have hstreak : endStreak config calls = last :: earlier.takeWhile last.repeats := by
      rw [endStreak, hwindow]
    have hspan : asSecs (last.now - (((endStreak config calls).getLast?.map (·.now)).getD 0)) <
        config.rapidRepeatWindowSecs := by
      obtain ⟨first, hfirst⟩ : ∃ first, (endStreak config calls).getLast? = some first := by
        rw [hstreak, List.getLast?_cons]
        exact ⟨_, rfl⟩
      have hlast : last ∈ endStreak config calls := hstreak ▸ List.mem_cons_self
      have hsecs := hquick first (List.mem_of_getLast? hfirst) last hlast
      rw [hfirst, Option.map_some, Option.getD_some]
      exact Nat.div_lt_of_lt_mul (Nat.mul_comm _ _ ▸ hsecs)
    rw [report, LoopBreakerCounter.check]
    split_ifs
    · rfl
    · rw [checkExactRepeat_runCalls (hthreshold.trans hsize) happart hwindow htimely, if_pos hcount,
        if_neg (Nat.not_le.2 hspan)]
      rfl

/-! ## Progress -/

/-- A call whose result is new has no streak. -/
lemma takeWhile_of_fresh (h : HashesApart calls) (hlast : last ∈ calls) (hearlier : earlier ⊆ calls)
    (hfresh : ∀ c ∈ earlier, c.result ≠ last.result) :
    ∀ inv ∈ earlier.map LoopCall.invocation, inv.resultHash ≠ last.invocation.resultHash := by
  intro inv hinv heq
  obtain ⟨c, hc, rfl⟩ := List.mem_map.1 hinv
  exact hfresh c hc (h ⟨c, hearlier hc, .inr rfl⟩ ⟨last, hlast, .inr rfl⟩ heq)

lemma noProgressCount_of_fresh {target : ToolInvocation} {rest : List ToolInvocation} (count : ℕ)
    (h : ∀ inv ∈ rest, inv.resultHash ≠ target.resultHash) :
    noProgressCount target count rest = count := by
  cases rest with
  | nil => rfl
  | cons inv rest => rw [noProgressCount, if_pos (.inr (h inv List.mem_cons_self))]

lemma exactStreak_of_fresh {first : ToolInvocation} {rest : List ToolInvocation} (count start : ℕ)
    (h : ∀ inv ∈ rest, inv.resultHash ≠ first.resultHash) :
    exactStreak first count start rest = (count, start) := by
  cases rest with
  | nil => rfl
  | cons inv rest =>
    have hrepeats : first.repeats inv = false := by
      simp [ToolInvocation.repeats, h inv List.mem_cons_self]
    rw [exactStreak_eq, List.takeWhile_cons_of_neg (Bool.eq_false_iff.1 hrepeats)]
    rfl

lemma checkPingPong_eq (c : LoopBreakerCounter) :
    c.checkPingPong = none ∨ ∃ a b rounds, c.checkPingPong = some (.pingPong a b rounds) := by
  rw [LoopBreakerCounter.checkPingPong]
  dsimp only
  split
  · exact .inl rfl
  · split
    · split
      · exact .inl rfl
      · split
        · exact .inl rfl
        · split
          · exact .inl rfl
          · exact .inr ⟨_, _, _, rfl⟩
    · exact .inl rfl

/-- What the last call of a run with a new result can return. -/
lemma report_of_fresh (hthreshold : 2 ≤ config.exactRepeatThreshold) (hsize : 1 ≤ config.windowSize)
    (happart : HashesApart calls) (hwindow : calls.reverse.take config.windowSize = last :: earlier)
    (hfresh : ∀ c ∈ earlier, c.result ≠ last.result) :
    (runCalls config calls).checkExactRepeat = none ∧
      ∀ reason, (runCalls config calls).checkNoProgress = some reason →
        reason = .noProgress last.toolName 1 ∧ config.noProgressThreshold ≤ 1 ∧
          last.toolName ∉ config.relaxedTools := by
  have hsub : last :: earlier ⊆ calls := hwindow ▸ take_reverse_subset config calls
  obtain ⟨hmem, hearlier⟩ := List.cons_subset.1 hsub
  have hnew := takeWhile_of_fresh happart hmem hearlier hfresh
  have hreverse : (runCalls config calls).window.reverse =
      last.invocation :: earlier.map LoopCall.invocation := by
    rw [reverse_window_runCalls hsize, hwindow, List.map_cons]
  constructor
  · rw [LoopBreakerCounter.checkExactRepeat, hreverse]
    dsimp only
    rw [exactStreak_of_fresh _ _ hnew, config_runCalls, if_neg (Nat.not_le.2 hthreshold)]
    split_ifs
    · rfl
    · rfl
  · intro reason hreason
    rw [LoopBreakerCounter.checkNoProgress, hreverse] at hreason
    dsimp only at hreason
    rw [noProgressCount_of_fresh _ hnew, config_runCalls] at hreason
    split_ifs at hreason with hrelaxed hreached hreached
    · exact absurd ((Nat.le_max_right _ 8).trans hreached) (by decide)
    · refine ⟨(Option.some.inj hreason).symm, hreached, fun htool => hrelaxed ?_⟩
      exact List.any_eq_true.2 ⟨last.toolName, htool, decide_eq_true rfl⟩

end Reports

/-- **A loop is caught, and progress is spared.** -/
structure CatchesLoops (config : LoopBreakerConfig) (calls : List LoopCall) : Prop where
  /-- A tight end is caught if all equal calls at the end of the window are quick. -/
  caught : TightEnd config calls → QuickCalls config (endStreak config calls) →
    (report config calls).isSome = true
  /-- Where every call brings another result, no call is an exact repeat, and one is without
  progress only if its tool is not relaxed and the threshold asks for no more than one call. -/
  spared : calls.Pairwise (·.result ≠ ·.result) → ∀ run, run <+: calls →
    (∀ tool count threshold, report config run ≠ some (.exactRepeat tool count threshold)) ∧
      ∀ tool count, report config run = some (.noProgress tool count) →
        config.noProgressThreshold ≤ 1 ∧ tool ∉ config.relaxedTools

/-- A part of a run has fewer texts. -/
lemma HashesApart.subset (h : HashesApart calls) {run : List LoopCall} (hrun : run ⊆ calls) :
    HashesApart run :=
  Set.InjOn.mono (fun _ htext => htext.imp fun _ hc => ⟨hrun hc.1, hc.2⟩) h

/-- **The loop breaker catches quick loops and spares progress**, for every configuration and every run
whose texts have different hashes. -/
theorem catchesLoops (hthreshold : 2 ≤ config.exactRepeatThreshold)
    (hsize : config.exactRepeatThreshold ≤ config.windowSize) (happart : HashesApart calls) :
    CatchesLoops config calls where
  caught htight hquick := htight.isSome_report (Nat.le_of_succ_le hthreshold) hsize happart hquick
  spared hfresh run hrun := by
    have hone : 1 ≤ config.windowSize := (Nat.le_of_succ_le hthreshold).trans hsize
    have hwindow := hfresh.sublist hrun.sublist
    have hreverse : (run.reverse.take config.windowSize).Pairwise (·.result ≠ ·.result) :=
      (List.pairwise_reverse.2 (hwindow.imp fun h => h.symm)).sublist (List.take_sublist _ _)
    cases hlast : run.reverse.take config.windowSize with
    | nil =>
      obtain rfl : run = [] := by
        rw [List.take_eq_nil_iff, List.reverse_eq_nil_iff] at hlast
        exact hlast.resolve_left (Nat.ne_of_gt hone)
      have hnone : report config [] = none := by
        rw [report, LoopBreakerCounter.check, if_neg fun h => Nat.not_lt_zero _ h.2]
        rfl
      rw [hnone]
      exact ⟨nofun, nofun⟩
    | cons last earlier =>
      rw [hlast, List.pairwise_cons] at hreverse
      obtain ⟨hexact, hprogress⟩ := report_of_fresh hthreshold hone (happart.subset hrun.subset) hlast
        fun c hc => (hreverse.1 c hc).symm
      rw [report, LoopBreakerCounter.check]
      split_ifs
      · exact ⟨nofun, nofun⟩
      · rw [hexact]
        rcases checkPingPong_eq (runCalls config run) with hnone | ⟨a, b, rounds, hsome⟩
        · rw [hnone]
          refine ⟨fun tool count threshold heq => ?_, fun tool count heq => ?_⟩
          · exact absurd (hprogress _ heq).1 nofun
          · obtain ⟨hreason, hlow, hstrict⟩ := hprogress _ heq
            obtain ⟨rfl, -⟩ := LoopBreakReason.noProgress.inj hreason
            exact ⟨hlow, hstrict⟩
        · rw [hsome]
          exact ⟨nofun, nofun⟩

/-- The same command, with the same answer. -/
def poll (now : ℕ) : LoopCall := ⟨"shell", "x", "x", now⟩

/-- A command whose answer is new. -/
def freshCall (result : String) : LoopCall := ⟨"shell", "x", result, 0⟩

lemma hashesApart_of_texts {texts : Set String} (h : Set.InjOn simpleHash texts)
    (hcalls : ∀ c ∈ calls, c.args ∈ texts ∧ c.result ∈ texts) : HashesApart calls := by
  refine Set.InjOn.mono (fun text htext => ?_) h
  obtain ⟨c, hc, rfl | rfl⟩ := htext
  · exact (hcalls c hc).1
  · exact (hcalls c hc).2

/-- Three quick calls are caught; two calls with different answers are spared. -/
theorem catchesLoops_quick :
    (report {} [poll 0, poll 1, poll 2]).isSome = true ∧
      ∀ tool count, report {} [freshCall "x", freshCall "y"] ≠ some (.noProgress tool count) := by
  have hquick : HashesApart [poll 0, poll 1, poll 2] :=
    hashesApart_of_texts (Set.injOn_singleton _ "x") (by decide)
  have hfresh : HashesApart [freshCall "x", freshCall "y"] := by
    refine hashesApart_of_texts (Set.injOn_pair.2 fun heq => ?_)
      (by simp [freshCall] : ∀ c ∈ [freshCall "x", freshCall "y"],
        c.args ∈ ({"x", "y"} : Set String) ∧ c.result ∈ ({"x", "y"} : Set String))
    exact absurd heq (by decide +kernel)
  constructor
  · exact (@catchesLoops {} _ (by decide) (by decide) hquick).caught
      ⟨[poll 0, poll 1, poll 2], List.suffix_rfl, rfl, by decide, by decide, by decide⟩ (by decide)
  · intro tool count heq
    have hspared := (@catchesLoops {} _ (by decide) (by decide) hfresh).spared (by decide) _
        List.prefix_rfl
    exact absurd (hspared.2 tool count heq).1 (by decide)

/-- A slow call before three quick ones. -/
def slowStart : List LoopCall :=
  [poll 0, poll 100000000000, poll 101000000000, poll 102000000000]

/-- **A slow call before the quick ones lets them pass**, and with a threshold of one call every call is
without progress. -/
theorem not_catchesLoops :
    (¬∀ (config : LoopBreakerConfig) (calls : List LoopCall), 2 ≤ config.exactRepeatThreshold →
        config.exactRepeatThreshold ≤ config.windowSize → HashesApart calls →
        calls.Pairwise (·.now ≤ ·.now) → TightEnd config calls → (report config calls).isSome = true) ∧
      ¬∀ (config : LoopBreakerConfig) (calls : List LoopCall), 2 ≤ config.exactRepeatThreshold →
        config.exactRepeatThreshold ≤ config.windowSize → HashesApart calls →
        calls.Pairwise (·.now ≤ ·.now) → calls.Pairwise (·.result ≠ ·.result) →
        calls.length ≤ config.maxToolCalls →
        ∀ tool count, report config calls ≠ some (.noProgress tool count) := by
  constructor
  · intro h
    have hcaught := h {} slowStart (by decide) (by decide)
      (hashesApart_of_texts (Set.injOn_singleton _ "x") (by decide)) (by decide)
      ⟨slowStart.drop 1, List.drop_suffix 1 _, rfl, by decide, by decide, by decide⟩
    exact absurd hcaught (by decide +kernel)
  · intro h
    refine h { noProgressThreshold := 1 } [⟨"f", "x", "x", 0⟩] (by decide) (by decide)
      (hashesApart_of_texts (Set.injOn_singleton _ "x") (by decide)) (by decide) (by decide) (by decide)
      "f" 1 ?_
    decide +kernel

end MyClaw
