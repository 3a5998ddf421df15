import MyClaw.Scheduler.Types
import Mathlib.Algebra.Order.Group.Unbundled.Int
import Mathlib.Data.Int.ModEq

set_option autoImplicit false

/-!
# The next run of a job

`compute_next_run` derives the next run from the schedule and the last run; without a last run it
takes the current time, and a one-shot job that has run has no next run.  A tick sends the jobs that
are enabled, have a schedule, are due and are inside their active hours.

## Main definitions

* `normalizeWeekdayUnix` — the weekday field of a cron expression, renumbered.
* `computeNextRun` — the next run.
* `isActiveHours` — whether the current time is inside the active hours.
* `JobEntry.isDue` — whether a tick sends the job.

## Main results

* `computeNextRun_every`, `computeNextRun_atTime`, `computeNextRun_cron` — the next run for
  each kind of schedule.
-/

namespace MyClaw

/-! ## Cron expressions -/

/-- `u32` from a text. -/
def parseU32 (text : List Char) : Option ℕ := parseUnsigned (2 ^ 32 - 1) text

/-- `shift_weekday_num`: from 0 for Sunday to 1 for Sunday. -/
def shiftWeekdayNum (n : ℕ) : ℕ :=
  if n = 0 ∨ n = 7 then 1 else if n ≤ 6 then n + 1 else n

/-- `shift_weekday_item`: a number, a range of numbers, or a name. -/
def shiftWeekdayItem (item : List Char) : List Char :=
  match splitOnce '-' item with
  | some (first, last) =>
    match parseU32 first, parseU32 last with
    | some s, some e =>
      (toString (shiftWeekdayNum s)).toList ++ '-' :: (toString (shiftWeekdayNum e)).toList
    | _, _ => item
  | none =>
    match parseU32 item with
    | some n => (toString (shiftWeekdayNum n)).toList
    | none => item

/-- `shift_weekday_segment`: the items between commas. -/
def shiftWeekdaySegment (segment : List Char) : List Char :=
  List.intercalate [','] ((segment.splitOnP (· = ',')).map shiftWeekdayItem)

/-- `normalize_weekday_unix`: shift the weekdays of an expression of six fields; a step stays. -/
def normalizeWeekdayUnix (schedule : String) : String :=
  let parts := (schedule.toList.splitOnP isWhiteSpace).filter (· ≠ [])
  match parts with
  | [sec, min, hour, day, month, weekday] =>
    if weekday = ['*'] then schedule
    else
      let segments := (weekday.splitOnP (· = '/')).mapIdx fun i segment =>
        if i = 1 then segment else shiftWeekdaySegment segment
      String.ofList
        (List.intercalate [' '] [sec, min, hour, day, month, List.intercalate ['/'] segments])
  | _ => schedule

/-! ## The next run -/

/-- `compute_next_run`.  The sum of an interval wraps at 64 bits. -/
def computeNextRun (env : SchedulerEnv) (spec : Option ScheduleSpec) (lastRun : Option Stamp)
    (tz : String) (now : ℤ) : Option Stamp :=
  match spec.map ScheduleSpec.toKind with
  | none => none
  | some (.every intervalMs) =>
    let base := (lastRun.bind Stamp.time?).getD now
    let next := Int.bmod (base + intervalMs) (2 ^ 64)
    if env.representable next then some (.moment next) else none
  | some (.atTime time) =>
    if lastRun.isSome then none else time.time?.map .moment
  | some (.cron expr) =>
    let base := (lastRun.bind Stamp.time?).getD now
    (env.cronAfter (normalizeWeekdayUnix expr) tz base).map .moment

/-! ## Active hours -/

/-- `parse_hhmm`. -/
def parseHhmm (text : List Char) : Option ℕ := do
  let (h, m) ← splitOnce ':' text
  let hours ← parseU32 (trimChars h)
  let mins ← parseU32 (trimChars m)
  if 24 < hours ∨ 60 ≤ mins ∨ (hours = 24 ∧ 0 < mins) then none else some (hours * 60 + mins)

/-- `parse_hours`: start and end, in minutes of the day. -/
def parseHours (text : List Char) : Option (ℕ × ℕ) := do
  let (start, stop) ← splitOnce '-' text
  let s ← parseHhmm (trimChars start)
  let e ← parseHhmm (trimChars stop)
  some (s, e)

/-- `is_active_hours`. -/
def isActiveHours (env : SchedulerEnv) (activeHours : Option String) (tz : String) (now : ℤ) :
    Bool :=
  match activeHours.bind fun hours => parseHours hours.toList with
  | none => true
  | some (start, stop) => start ≤ env.minuteOfDay tz now && env.minuteOfDay tz now < stop

/-- A next run that is not in the future. -/
def reached (next : Option Stamp) (now : ℤ) : Bool :=
  match next.bind Stamp.time? with
  | some t => t ≤ now
  | none => false

/-- What has been reached stays reached. -/
lemma reached_mono {next : Option Stamp} {now later : ℤ} (h : reached next now = true)
    (hle : now ≤ later) : reached next later = true := by
  unfold reached at h ⊢
  cases ht : next.bind Stamp.time? with
  | none => simp [ht] at h
  | some t =>
    have hle' : t ≤ now := by simpa [ht] using h
    simpa using hle'.trans hle

/-- The present is reached. -/
@[simp] lemma reached_now (now : ℤ) : reached (some (.moment now)) now = true := by
  simp [reached]

namespace JobEntry

/-- The time zone of the job. -/
def zone (job : JobEntry) (timezone : String) : String := job.tz.getD timezone

/-- The next run of the job, computed again. -/
def computedNext (env : SchedulerEnv) (timezone : String) (now : ℤ) (job : JobEntry) :
    Option Stamp :=
  computeNextRun env job.schedule job.lastRunAt (job.zone timezone) now

/-- The job with its next run computed again. -/
def reschedule (env : SchedulerEnv) (timezone : String) (now : ℤ) (job : JobEntry) : JobEntry :=
  { job with nextRunAt := job.computedNext env timezone now }

/-- The next run of the job is not in the future. -/
def nextReached (job : JobEntry) (now : ℤ) : Bool := reached job.nextRunAt now

/-- A tick sends the job. -/
def isDue (env : SchedulerEnv) (timezone : String) (now : ℤ) (job : JobEntry) : Bool :=
  job.enabled && job.schedule.isSome && job.nextReached now &&
    isActiveHours env job.activeHours (job.zone timezone) now

end JobEntry

section

variable {env : SchedulerEnv} {spec : ScheduleSpec} {lastRun : Option Stamp} {tz : String} {now : ℤ}

/-- The next run of an interval. -/
lemma computeNextRun_every {intervalMs : ℕ} (h : spec.toKind = .every intervalMs) :
    computeNextRun env (some spec) lastRun tz now =
      if env.representable (Int.bmod ((lastRun.bind Stamp.time?).getD now + intervalMs) (2 ^ 64))
      then some (.moment (Int.bmod ((lastRun.bind Stamp.time?).getD now + intervalMs) (2 ^ 64)))
      else none := by
  simp [computeNextRun, h]

/-- That of a moment. -/
lemma computeNextRun_atTime {time : Stamp} (h : spec.toKind = .atTime time) :
    computeNextRun env (some spec) lastRun tz now =
      if lastRun.isSome then none else time.time?.map .moment := by
  simp [computeNextRun, h]

/-- That of a cron expression. -/
lemma computeNextRun_cron {expr : String} (h : spec.toKind = .cron expr) :
    computeNextRun env (some spec) lastRun tz now =
      (env.cronAfter (normalizeWeekdayUnix expr) tz
        ((lastRun.bind Stamp.time?).getD now)).map .moment := by
  simp [computeNextRun, h]

end

example : normalizeWeekdayUnix "0 0 9 * * 1-5" = "0 0 9 * * 2-6" := by decide +kernel

example : parseHours "08:00-24:00".toList = some (480, 1440) := by decide +kernel

end MyClaw
