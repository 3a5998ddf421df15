import MyClaw.Lib.FirstMatch
import MyClaw.Scheduler.Timing
import MyClaw.Scheduler.Store

set_option autoImplicit false

/-!
# The operations of the scheduler

Jobs are kept in memory under a lock and written out at the end of each operation.  Edits assign
their fields before they check whether a manual trigger is allowed, and before they save; ticks and
results ignore a save that fails.

## Main definitions

* `Scheduler` — the jobs in memory, the root on disk and the modification time last seen.
* `JobUpdate.apply`, `JobUpdate.assign` — the fields an update assigns.
* `Scheduler.addJob`, `updateJob`, `removeJob`, `setEnabled`, `markRunResult`,
  `drainAutoDelete`, `maybeReload`, `migrateFromMarkdown`, `markTick` — the operations.
* `EditError` — why an edit is refused, with its text.

## Main results

* `Scheduler.updateJob_jobs` — what an update does to the jobs in memory.
* `Scheduler.job?_modify_self`, `job?_markTick` — the job of an id after a change.
* `Scheduler.StoresOwn` — an operation stores no job that it does not leave in memory.
* `JobUpdate.apply_eq_assign` — an update, each field assigned once.

## Implementation notes

A lock section is one operation here.  The run log of a job, which is a file of its own that no
scheduling decision reads, is a parameter of the removal audit.
-/

namespace MyClaw

/-- The scheduler: memory, disk, and the modification time of the root at the last load. -/
structure Scheduler where
  jobs : List JobEntry
  root : JobsRoot
  lastMtime : Option ℕ
  timezone : String

/-- Why an edit fails. -/
inductive EditError
  | nameRequired
  | paused (id : String)
  | noSchedule (id : String) (name : Option String)
  | save
  deriving DecidableEq

/-- The text of the error; that of a save is the file system's. -/
def EditError.text : EditError → Option String
  | .nameRequired => some "job name is required (design §3.4)"
  | .paused id => some ("job '" ++ id ++ "' is paused; resume it first")
  | .noSchedule id name =>
    some ("job '" ++ id ++ "' has no schedule (webhook-only): 'run' needs a timer channel — " ++
      "POST its /hooks/" ++ name.getD "?" ++ " route instead")
  | .save => none

/-- What is kept of a job that is removed. -/
structure JobRemovalAudit where
  id : String
  name : String
  runLogCount : ℕ
  lastStatus : Option RunStatus
  lastOutputPreview : Option String

/-- `JobRemovalAudit::capture`; the run log has its newest record first. -/
def JobRemovalAudit.capture (id : String) (name : Option String) (runLog : List RunRecord) :
    JobRemovalAudit where
  id := id
  name := name.getD id
  runLogCount := runLog.length
  lastStatus := runLog.head?.map (·.status)
  lastOutputPreview := runLog.head?.map (·.outputPreview)

/-- A job of the old cron directory, as its front matter and body say. -/
structure MarkdownJob where
  stem : String
  schedule : Option String
  target : Option String
  activeHours : Option String
  /-- The body without the white space around it. -/
  prompt : String
  deriving DecidableEq

/-- `parse_target_string`. -/
def parseTargetString (target : String) : DeliveryConfig :=
  if target = "none" then { mode := .none }
  else if target = "last" ∨ target = "" then {}
  else
    match splitOnce ':' target.toList with
    | some (channel, account) =>
      { mode := .fixed
        channel := some (String.ofList channel)
        accountId := some (String.ofList account) }
    | none => { mode := .fixed, channel := some target }

/-- `ScheduleSpec::describe`. -/
def ScheduleSpec.describe (spec : ScheduleSpec) : String :=
  match spec.toKind with
  | .cron expr => expr
  | .every intervalMs => "every " ++ toString intervalMs ++ "ms"
  | .atTime (.text content) => "at " ++ content
  | .atTime (.moment ms) => "at " ++ toString ms

/-! ## The fields of an update -/

namespace JobUpdate

variable (env : SchedulerEnv) (timezone : String) (now : ℤ)

/-- The first fields, up to `enabled`: those that the next run depends on, among others. -/
def applyTiming (u : JobUpdate) (job : JobEntry) : JobEntry :=
  let job := match u.name with
    | some name => { job with name := some name }
    | none => job
  let job := if u.scheduleChanged then
      { job with schedule := u.schedule.join }.reschedule env timezone now
    else job
  let job := match u.prompt with
    | some prompt => { job with prompt := prompt }
    | none => job
  let job := match u.tz with
    | some tz => { job with tz := some tz }.reschedule env timezone now
    | none => job
  let job := match u.activeHours with
    | some hours => { job with activeHours := some hours }
    | none => job
  match u.enabled with
  | some true => { job with enabled := true }.reschedule env timezone now
  | some false => { job with enabled := false, nextRunAt := none }
  | none => job

/-- The other fields, from `delivery` on. -/
def applyRest (u : JobUpdate) (job : JobEntry) : JobEntry :=
  { job with
    delivery := u.delivery.getD job.delivery
    webhook := if u.webhookChanged then u.webhook.join else job.webhook
    enabledTools := u.enabledTools.or job.enabledTools
    disabledTools := u.disabledTools.or job.disabledTools
    retry := u.retry.or job.retry
    failureAlert := u.failureAlert.or job.failureAlert
    maxRuns := u.maxRuns.getD job.maxRuns
    deleteAfterRun := u.deleteAfterRun.getD job.deleteAfterRun
    model := u.model.getD job.model
    provider := u.provider.getD job.provider }

/-- All fields, before the manual trigger. -/
def apply (u : JobUpdate) (job : JobEntry) : JobEntry :=
  u.applyRest (u.applyTiming env timezone now job)

/-- The schedule after an update. -/
def newSchedule (u : JobUpdate) (job : JobEntry) : Option ScheduleSpec :=
  if u.scheduleChanged then u.schedule.join else job.schedule

/-- The time zone after an update. -/
def newZone (u : JobUpdate) (job : JobEntry) : String := (u.tz.or job.tz).getD timezone

/-- The update derives the next run again. -/
def recomputes (u : JobUpdate) : Bool :=
  u.enabled ≠ some false && (u.scheduleChanged || u.tz.isSome || u.enabled = some true)

/-- The next run after an update without a manual trigger. -/
def newNextRun (u : JobUpdate) (job : JobEntry) : Option Stamp :=
  if u.enabled = some false then none
  else if u.recomputes then
    computeNextRun env (u.newSchedule job) job.lastRunAt (u.newZone timezone job) now
  else job.nextRunAt

/-- The fields of an update, each assigned at most once, and a next run. -/
def assign (u : JobUpdate) (nextRunAt : Option Stamp) (job : JobEntry) : JobEntry :=
  { job with
    name := u.name.or job.name
    schedule := u.newSchedule job
    prompt := u.prompt.getD job.prompt
    tz := u.tz.or job.tz
    activeHours := u.activeHours.or job.activeHours
    enabled := u.enabled.getD job.enabled
    nextRunAt := nextRunAt
    delivery := u.delivery.getD job.delivery
    webhook := if u.webhookChanged then u.webhook.join else job.webhook
    enabledTools := u.enabledTools.or job.enabledTools
    disabledTools := u.disabledTools.or job.disabledTools
    retry := u.retry.or job.retry
    failureAlert := u.failureAlert.or job.failureAlert
    maxRuns := u.maxRuns.getD job.maxRuns
    deleteAfterRun := u.deleteAfterRun.getD job.deleteAfterRun
    model := u.model.getD job.model
    provider := u.provider.getD job.provider }

end JobUpdate

/-! ## The result of a run -/

namespace JobEntry

/-- The counters of consecutive failures after a run. -/
def countStatus (job : JobEntry) : RunStatus → JobEntry
  | .ok => { job with consecutiveErrors := 0, consecutiveSkipped := 0 }
  | .error | .timeout =>
    { job with consecutiveErrors := job.consecutiveErrors + 1, consecutiveSkipped := 0 }
  | .skipped =>
    { job with
      consecutiveSkipped := job.consecutiveSkipped + 1
      consecutiveErrors :=
        if (job.failureAlert.map (·.includeSkipped)).getD false then job.consecutiveErrors + 1
        else job.consecutiveErrors }

/-- A failure alert is due. -/
def shouldAlert (job : JobEntry) (now : ℤ) : Bool :=
  match job.failureAlert with
  | none => false
  | some alert =>
    alert.after ≤ job.consecutiveErrors &&
      match job.lastFailureAlertAt with
      | none => true
      | some last =>
        let lastTime := last.time?.getD (now - 24 * 3600 * 1000)
        (alert.cooldownSecs : ℤ) * 1000 ≤ now - lastTime

/-- The text of the alert. -/
def alertText (job : JobEntry) (record : RunRecord) : String :=
  "⚠️ Cron job '" ++ job.name.getD job.id ++ "' (" ++ job.id ++ ") has failed " ++
    toString job.consecutiveErrors ++ " consecutive times. Last error: " ++
    record.error.getD "unknown"

/-- The job has completed as many runs as it may. -/
def reachedMaxRuns (job : JobEntry) : Bool :=
  match job.maxRuns with
  | some m => m ≤ job.completedRuns
  | none => false

/-- The run is counted, and a job that is through is disabled. -/
def countRun (job : JobEntry) (record : RunRecord) : JobEntry :=
  let runs := job.lastRuns ++ [record]
  let job := { job with
    lastRuns := runs.drop (runs.length - 10), completedRuns := job.completedRuns + 1 }
  let job :=
    -- a job that is to be deleted is left to the next tick
    if job.reachedMaxRuns && !job.deleteAfterRun then
      { job with enabled := false, nextRunAt := none }
    else job
  if (job.schedule.map ScheduleSpec.isAt).getD false then { job with enabled := false } else job

/-- The run is noted: it is the last one, the next run is counted from it, and so are failures. -/
def noteRun (env : SchedulerEnv) (timezone : String) (now : ℤ) (record : RunRecord)
    (job : JobEntry) : JobEntry :=
  ({ job with lastRunAt := some record.runAt }.reschedule env timezone now).countStatus record.status

/-- The alert is noted if one is due. -/
def noteAlert (now : ℤ) (job : JobEntry) : JobEntry :=
  if job.shouldAlert now then { job with lastFailureAlertAt := some (.moment now) } else job

/-- The job after the result of a run. -/
def withResult (env : SchedulerEnv) (timezone : String) (now : ℤ) (record : RunRecord)
    (job : JobEntry) : JobEntry :=
  ((job.noteRun env timezone now record).noteAlert now).countRun record

/-- The job after a tick has sent it. -/
def ticked (env : SchedulerEnv) (timezone : String) (now : ℤ) (job : JobEntry) : JobEntry :=
  { job with lastRunAt := some (.moment now) }.reschedule env timezone now

/-- The job is deleted at the next tick. -/
def isSpent (job : JobEntry) : Bool := job.reachedMaxRuns && job.deleteAfterRun

end JobEntry

/-! ## The operations -/

namespace Scheduler

variable (env : SchedulerEnv) (s : Scheduler) (now : ℤ) (fault : SaveFault)

/-- The job that operations on an id find. -/
def job? (id : String) : Option JobEntry := s.jobs.find? (·.id = id)

/-- Change the job of an id in memory. -/
def modify (id : String) (f : JobEntry → JobEntry) : Scheduler :=
  { s with jobs := FirstMatch.update JobEntry.id id f s.jobs }

/-- Save: whether it succeeds, and the scheduler after it. -/
def save : Bool × Scheduler :=
  let r := saveToDisk s.root s.jobs fault
  (r.1, { s with root := r.2 })

/-- Save, and return an error when it fails. -/
def saved {α : Type} (result : α) : Except EditError α × Scheduler :=
  (if (s.save fault).1 then .ok result else .error .save, (s.save fault).2)

/-- `add_job`.  `freshId` is the identifier that is generated for a job without one. -/
def addJob (entry : JobEntry) (freshId : String) : Except EditError String × Scheduler :=
  if isBlank (entry.name.getD "") then (.error .nameRequired, s)
  else
    let id := if entry.id = "" then freshId else entry.id
    let entry := { entry with
      id := id
      createdAt := entry.createdAt.or (some (.moment now))
      nextRunAt := computeNextRun env entry.schedule none (entry.zone s.timezone) now }
    { s with jobs := s.jobs ++ [entry] }.saved fault id

/-- `update_job`. -/
def updateJob (id : String) (u : JobUpdate) : Except EditError Bool × Scheduler :=
  match s.job? id with
  | none => (.ok false, s)
  | some job =>
    let changed := s.modify id (u.apply env s.timezone now)
    if u.triggerNow then
      let job := u.apply env s.timezone now job
      if !job.enabled then (.error (.paused id), changed)
      else if job.schedule.isNone then (.error (.noSchedule id job.name), changed)
      else
        (s.modify id fun job =>
          { u.apply env s.timezone now job with nextRunAt := some (.moment now) }).saved fault true
    else changed.saved fault true

/-- `remove_job`, given the run log of the job. -/
def removeJob (id : String) (runLog : List RunRecord) :
    Except EditError (Option JobRemovalAudit) × Scheduler :=
  match s.job? id with
  | none => (.ok none, s)
  | some job =>
    { s with jobs := s.jobs.filter (·.id ≠ id) }.saved fault
      (some (JobRemovalAudit.capture id job.name runLog))

/-- `mark_run_result`: the alert to send, and the scheduler after it; a failing save is ignored. -/
def markRunResult (id : String) (record : RunRecord) : Option String × Scheduler :=
  match s.job? id with
  | none => (none, s)
  | some job =>
    let noted := job.noteRun env s.timezone now record
    (if noted.shouldAlert now then some (noted.alertText record) else none,
      ((s.modify id (·.withResult env s.timezone now record)).save fault).2)

/-- `drain_auto_delete`: the ids of the jobs deleted; a failing save is ignored. -/
def drainAutoDelete : List String × Scheduler :=
  let ids := (s.jobs.filter JobEntry.isSpent).map (·.id)
  if ids = [] then ([], s)
  else (ids, ({ s with jobs := s.jobs.filter (·.id ∉ ids) }.save fault).2)

/-- `maybe_reload`. -/
def maybeReload (unreadable : List String) : Scheduler :=
  if s.root.mtime = s.lastMtime then s
  else { s with jobs := loadJobs env s.root unreadable, lastMtime := s.root.mtime }

/-- The job of a file of the old cron directory. -/
def migrated (freshId : String) (file : MarkdownJob) (schedule : String) : JobEntry where
  id := freshId
  schedule := some (.kind (.cron schedule))
  prompt := file.prompt
  name := some file.stem
  activeHours := file.activeHours
  delivery := parseTargetString (file.target.getD "last")

/-- One file of the old cron directory. -/
def migrateFile (jobs : List JobEntry) (freshId : String) (file : MarkdownJob) : List JobEntry :=
  match file.schedule with
  | none => jobs
  | some schedule =>
    if file.prompt = "" then jobs
    else if jobs.any fun j =>
        (j.schedule.map ScheduleSpec.describe) = some schedule && j.prompt = file.prompt then jobs
    else jobs ++ [migrated freshId file schedule]

/-- `migrate_from_markdown`, the files with the identifiers generated for them; a failing save is
ignored. -/
def migrateFromMarkdown (files : List (String × MarkdownJob)) : ℕ × Scheduler :=
  let jobs := files.foldl (fun jobs f => migrateFile jobs f.1 f.2) s.jobs
  let count := jobs.length - s.jobs.length
  if 0 < count then (count, ({ s with jobs := jobs }.save fault).2) else (0, s)

/-- The jobs that a tick sends. -/
def dueJobs : List JobEntry := s.jobs.filter (·.isDue env s.timezone now)

/-- The end of a tick: mark the jobs it has sent; a failing save is ignored. -/
def markTick (ids : List String) : Scheduler :=
  if ids = [] then s
  else ((ids.foldl (fun t id => t.modify id (·.ticked env s.timezone now)) s).save fault).2

/-- `Scheduler::new` on a root. -/
def start (root : JobsRoot) (timezone : String) (unreadable : List String) : Scheduler :=
  let jobs := loadJobs env root unreadable
  ⟨jobs, root, if jobs = [] then none else root.mtime, timezone⟩

/-! ## What the operations do to the jobs in memory -/

section

variable {env s now fault} {id other : String} {f : JobEntry → JobEntry} {job : JobEntry}

@[simp] lemma save_jobs : (s.save fault).2.jobs = s.jobs := rfl

@[simp] lemma saved_jobs {α : Type} (result : α) : (s.saved fault result).2.jobs = s.jobs := rfl

@[simp] lemma modify_jobs : (s.modify id f).jobs = FirstMatch.update JobEntry.id id f s.jobs := rfl

/-- A job is found by the jobs alone. -/
lemma job?_congr {s' : Scheduler} (h : s'.jobs = s.jobs) : s'.job? id = s.job? id := by
  unfold job?
  rw [h]

/-- The job that is modified. -/
lemma job?_modify_self (hf : ∀ j, (f j).id = j.id) :
    (s.modify id f).job? id = (s.job? id).map f := FirstMatch.find?_update_self hf

/-- Any other job. -/
lemma job?_modify_of_ne (hf : ∀ j, (f j).id = j.id) (h : other ≠ id) :
    (s.modify id f).job? other = s.job? other := FirstMatch.find?_update_of_ne hf h

/-- A job is found under its id. -/
lemma job?_id (h : s.job? id = some job) : job.id = id := by
  simpa using List.find?_some h

/-- It is one of the jobs. -/
lemma job?_mem (h : s.job? id = some job) : job ∈ s.jobs := List.mem_of_find?_eq_some h

end

end Scheduler

namespace JobUpdate

variable {env : SchedulerEnv} {timezone : String} {now : ℤ} {u : JobUpdate} {job : JobEntry}

/-- **An update** assigns each field once, and the next run that comes of them. -/
lemma apply_eq_assign :
    u.apply env timezone now job = u.assign (u.newNextRun env timezone now job) job := by
  unfold apply applyRest applyTiming assign newNextRun recomputes newSchedule newZone
  cases u.name <;> cases u.prompt <;> cases u.tz <;> cases u.activeHours <;>
    cases u.scheduleChanged <;> rcases u.enabled with _ | _ | _ <;> rfl

@[simp] lemma apply_id : (u.apply env timezone now job).id = job.id := by
  rw [apply_eq_assign]
  rfl

@[simp] lemma apply_schedule : (u.apply env timezone now job).schedule = u.newSchedule job := by
  rw [apply_eq_assign]
  rfl

@[simp] lemma apply_zone :
    (u.apply env timezone now job).zone timezone = u.newZone timezone job := by
  rw [apply_eq_assign]
  rfl

@[simp] lemma apply_enabled :
    (u.apply env timezone now job).enabled = u.enabled.getD job.enabled := by
  rw [apply_eq_assign]
  rfl

/-- The next run after an update. -/
lemma apply_nextRunAt :
    (u.apply env timezone now job).nextRunAt = u.newNextRun env timezone now job := by
  rw [apply_eq_assign]
  rfl

/-- An update that only enables or disables. -/
lemma apply_onlyEnabled (enabled : Bool) :
    ({ enabled := some enabled } : JobUpdate).apply env timezone now job =
      if enabled then { job with enabled := true }.reschedule env timezone now
      else { job with enabled := false, nextRunAt := none } := by
  cases enabled <;> rfl

end JobUpdate

namespace JobEntry

variable {env : SchedulerEnv} {timezone : String} {now : ℤ} {job : JobEntry} {record : RunRecord}

@[simp] lemma countRun_id : (job.countRun record).id = job.id := by
  unfold countRun
  simp only
  split <;> split <;> rfl

@[simp] lemma noteRun_id : (job.noteRun env timezone now record).id = job.id := by
  unfold noteRun
  cases record.status <;> rfl

@[simp] lemma noteAlert_id : (job.noteAlert now).id = job.id := by
  unfold noteAlert
  split <;> rfl

@[simp] lemma withResult_id : (job.withResult env timezone now record).id = job.id := by
  unfold withResult
  simp

end JobEntry

namespace Scheduler

section

variable (env : SchedulerEnv) (s : Scheduler) (now : ℤ) (fault : SaveFault) (id : String)

/-- A result changes the job it is for. -/
lemma markRunResult_jobs (record : RunRecord) :
    (s.markRunResult env now fault id record).2.jobs =
      FirstMatch.update JobEntry.id id (·.withResult env s.timezone now record) s.jobs := by
  unfold markRunResult
  cases h : s.job? id with
  | none => exact (FirstMatch.update_of_find?_none h).symm
  | some job => rfl

/-- **An update in memory**: the fields it assigns, also when it is refused or not saved; and the
current time, if a manual trigger is accepted. -/
lemma updateJob_jobs (u : JobUpdate) :
    ∃ f : JobEntry → JobEntry,
      (s.updateJob env now fault id u).2.jobs = FirstMatch.update JobEntry.id id f s.jobs ∧
      (f = u.apply env s.timezone now ∧
          (u.triggerNow = true → ∀ job ∈ s.job? id, (u.apply env s.timezone now job).enabled = false ∨
            (u.apply env s.timezone now job).schedule = none) ∨
        u.triggerNow = true ∧
          f = fun job => { u.apply env s.timezone now job with nextRunAt := some (.moment now) }) := by
  unfold updateJob
  cases h : s.job? id with
  | none =>
    exact ⟨_, (FirstMatch.update_of_find?_none h).symm, .inl ⟨rfl, fun _ job hj => by cases hj⟩⟩
  | some job =>
    simp only
    split
    · rename_i htrigger
      split
      · rename_i henabled
        refine ⟨_, rfl, .inl ⟨rfl, fun _ old hold => ?_⟩⟩
        obtain rfl := Option.some.inj hold
        exact .inl (by simpa using henabled)
      · split
        · rename_i hschedule
          refine ⟨_, rfl, .inl ⟨rfl, fun _ old hold => ?_⟩⟩
          obtain rfl := Option.some.inj hold
          exact .inr (Option.isNone_iff_eq_none.1 hschedule)
        · exact ⟨_, rfl, .inr ⟨htrigger, rfl⟩⟩
    · rename_i htrigger
      exact ⟨_, rfl, .inl ⟨rfl, fun ht => absurd ht htrigger⟩⟩

end

variable {env : SchedulerEnv} {s : Scheduler} {now : ℤ} {fault : SaveFault} {id other : String}

/-- The marks of a tick leave old jobs and marked ones. -/
lemma mem_foldl_modify {f : JobEntry → JobEntry} (hf : ∀ j, (f j).id = j.id)
    (hff : ∀ j, f (f j) = f j) {ids : List String} {s : Scheduler} {job : JobEntry}
    (h : job ∈ (ids.foldl (fun s id => s.modify id f) s).jobs) :
    job ∈ s.jobs ∨ ∃ id ∈ ids, ∃ old, s.job? id = some old ∧ job = f old := by
  induction ids generalizing s with
  | nil => exact .inl h
  | cons i ids ih =>
    rcases ih h with h | ⟨id, hid, old, hold, rfl⟩
    · rcases FirstMatch.mem_update h with h | ⟨old, hold, rfl⟩
      · exact .inl h
      · exact .inr ⟨i, List.mem_cons_self, old, hold, rfl⟩
    · by_cases heq : id = i
      · subst heq
        rw [job?_modify_self hf] at hold
        obtain ⟨old', hold', rfl⟩ := Option.map_eq_some_iff.1 hold
        exact .inr ⟨id, List.mem_cons_self, old', hold', hff old'⟩
      · rw [job?_modify_of_ne hf heq] at hold
        exact .inr ⟨id, List.mem_cons_of_mem _ hid, old, hold, rfl⟩

/-- Changes of jobs write nothing. -/
lemma foldl_modify_root (ids : List String) (f : JobEntry → JobEntry) (s : Scheduler) :
    (ids.foldl (fun s id => s.modify id f) s).root = s.root := by
  induction ids generalizing s with
  | nil => rfl
  | cons i ids ih => exact ih _

/-- They leave the zone. -/
lemma foldl_modify_timezone (ids : List String) (f : JobEntry → JobEntry) (s : Scheduler) :
    (ids.foldl (fun s id => s.modify id f) s).timezone = s.timezone := by
  induction ids generalizing s with
  | nil => rfl
  | cons i ids ih => exact ih _

/-- The marks of a tick reach the jobs it has sent. -/
lemma job?_foldl_modify {f : JobEntry → JobEntry} (hf : ∀ j, (f j).id = j.id)
    (hff : ∀ j, f (f j) = f j) (ids : List String) (s : Scheduler) (id : String) :
    (ids.foldl (fun s id => s.modify id f) s).job? id =
      if id ∈ ids then (s.job? id).map f else s.job? id := by
  induction ids generalizing s with
  | nil => simp
  | cons i ids ih =>
    rw [List.foldl_cons, ih]
    by_cases hi : id = i
    · subst hi
      rw [job?_modify_self hf, Option.map_map]
      have hcomp : f ∘ f = f := funext hff
      simp [hcomp]
    · rw [job?_modify_of_ne hf hi]
      simp [hi]

/-- **The end of a tick** for one job. -/
lemma job?_markTick (ids : List String) (id : String) :
    (s.markTick env now fault ids).job? id =
      if id ∈ ids then (s.job? id).map (·.ticked env s.timezone now) else s.job? id := by
  unfold markTick
  split
  · rename_i h
    simp [h]
  · exact job?_foldl_modify (f := (·.ticked env s.timezone now)) (fun _ => rfl) (fun _ => rfl) ids s
      id

/-- A deletion leaves the jobs of other ids. -/
lemma job?_filter (p : JobEntry → Bool) (hp : ∀ j ∈ s.jobs, j.id = id → p j = true) :
    ({ s with jobs := s.jobs.filter p } : Scheduler).job? id = s.job? id := by
  unfold job?
  rw [List.find?_filter]
  generalize s.jobs = jobs at hp
  induction jobs with
  | nil => rfl
  | cons j jobs ih =>
    have ih' := ih fun x hx => hp x (List.mem_cons_of_mem _ hx)
    by_cases hid : j.id = id
    · simp [hid, hp j List.mem_cons_self hid]
    · simpa [hid] using ih'

/-- A deletion of all jobs of an id. -/
lemma job?_filter_none (p : JobEntry → Bool) (hp : ∀ j ∈ s.jobs, j.id = id → p j = false) :
    ({ s with jobs := s.jobs.filter p } : Scheduler).job? id = none := by
  unfold job?
  rw [List.find?_eq_none]
  intro j hj hid
  have hj' := List.mem_filter.1 hj
  rw [hp j hj'.1 (by simpa using hid)] at hj'
  exact absurd hj'.2 (by decide)

/-! ## What the operations store -/

/-- Going from one state to the other stores no job that the second does not have in memory, and
leaves the zone. -/
def StoresOwn (s s' : Scheduler) : Prop :=
  s'.timezone = s.timezone ∧
    ∀ job ∈ s'.root.stored, job ∈ s.root.stored ∨ ∃ j ∈ s'.jobs, job = j.serialized

/-- Nothing was stored. -/
lemma StoresOwn.refl (s : Scheduler) : s.StoresOwn s := ⟨rfl, fun _ => .inl⟩

/-- A change in memory and a save of it. -/
lemma storesOwn_save {t : Scheduler} (htimezone : t.timezone = s.timezone)
    (hroot : t.root = s.root) : s.StoresOwn (t.save fault).2 :=
  ⟨htimezone, fun _ h => hroot ▸ mem_stored_saveToDisk h⟩

/-- A change in memory only. -/
lemma storesOwn_modify {f : JobEntry → JobEntry} : s.StoresOwn (s.modify id f) :=
  ⟨rfl, fun _ => .inl⟩

section

variable (env s now fault id)

/-- A new job stores its own. -/
lemma storesOwn_addJob (entry : JobEntry) (freshId : String) :
    s.StoresOwn (s.addJob env now fault entry freshId).2 := by
  unfold addJob
  split
  · exact .refl s
  · exact storesOwn_save rfl rfl

/-- So does an update. -/
lemma storesOwn_updateJob (u : JobUpdate) : s.StoresOwn (s.updateJob env now fault id u).2 := by
  unfold updateJob
  split
  · exact .refl s
  · simp only
    split
    · split
      · exact storesOwn_modify
      · split
        · exact storesOwn_modify
        · exact storesOwn_save rfl rfl
    · exact storesOwn_save rfl rfl

/-- So does a removal. -/
lemma storesOwn_removeJob (runLog : List RunRecord) :
    s.StoresOwn (s.removeJob fault id runLog).2 := by
  unfold removeJob
  split
  · exact .refl s
  · exact storesOwn_save rfl rfl

/-- So does a result. -/
lemma storesOwn_markRunResult (record : RunRecord) :
    s.StoresOwn (s.markRunResult env now fault id record).2 := by
  unfold markRunResult
  split
  · exact .refl s
  · exact storesOwn_save rfl rfl

/-- So do deletions. -/
lemma storesOwn_drainAutoDelete : s.StoresOwn (s.drainAutoDelete fault).2 := by
  unfold drainAutoDelete
  simp only
  split
  · exact .refl s
  · exact storesOwn_save rfl rfl

/-- So does a migration. -/
lemma storesOwn_migrateFromMarkdown (files : List (String × MarkdownJob)) :
    s.StoresOwn (s.migrateFromMarkdown fault files).2 := by
  unfold migrateFromMarkdown
  simp only
  split
  · exact storesOwn_save rfl rfl
  · exact .refl s

/-- So does a reload. -/
lemma storesOwn_maybeReload (unreadable : List String) :
    s.StoresOwn (s.maybeReload env unreadable) := by
  unfold maybeReload
  split
  · exact .refl s
  · exact ⟨rfl, fun _ => .inl⟩

/-- So does the end of a tick. -/
lemma storesOwn_markTick (ids : List String) : s.StoresOwn (s.markTick env now fault ids) := by
  unfold markTick
  split
  · exact .refl s
  · exact storesOwn_save (foldl_modify_timezone ids _ s) (foldl_modify_root ids _ s)

end

end Scheduler

end MyClaw
