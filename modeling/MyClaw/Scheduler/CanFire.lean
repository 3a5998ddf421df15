import MyClaw.Scheduler.DueSlot

set_option autoImplicit false

/-!
# Every enabled job can fire

The next run of a job is derived state: each operation that changes what it is derived from has to
write it again.  A migration and a load do not; and for a one-shot job the derivation refuses as soon
as there is a last run, also when its time has been changed since or is yet to come.

## Main definitions

* `EnvLaws` — what the third-party parts promise.
* `JobEntry.hasFuture`, `JobEntry.CanFire` — the schedule has an occurrence to come, and
  then an enabled job has a next run.
* `AllCanFire` — all jobs can fire.
* `WritesNextRun` — what an event has to satisfy for that.

## Main results

* `computeNextRun_isSome` — when the derivation finds the occurrence.
* `NextRunsWritten.step` — an event that meets the condition keeps the jobs in memory and on
  disk able to fire.
* `allCanFire_run` — all jobs can fire in every state of a run whose events all meet the
  condition.
-/

namespace MyClaw

/-- What the third-party parts promise: the range of moments has no gap after 1970 and fits in 64
bits, and an expression that has an occurrence after some moment has one after an earlier moment. -/
structure EnvLaws (env : SchedulerEnv) : Prop where
  representable_le : ∀ x y, 0 ≤ x → x ≤ y → env.representable y = true → env.representable x = true
  representable_range : ∀ x, env.representable x = true → -2 ^ 63 ≤ x ∧ x < 2 ^ 63
  cronAfter_le : ∀ expr tz base later, base ≤ later →
    (env.cronAfter expr tz later).isSome = true → (env.cronAfter expr tz base).isSome = true

/-! ## The property and its condition -/

/-- The schedule has an occurrence after now. -/
def ScheduleSpec.hasFuture (env : SchedulerEnv) (tz : String) (now : ℤ) (spec : ScheduleSpec) :
    Bool :=
  match spec.toKind with
  | .every intervalMs => env.representable (now + intervalMs)
  | .atTime time => time.time?.any fun t => now < t
  | .cron expr => (env.cronAfter (normalizeWeekdayUnix expr) tz now).isSome

namespace JobEntry

/-- The schedule of the job has an occurrence after now. -/
def hasFuture (env : SchedulerEnv) (timezone : String) (now : ℤ) (job : JobEntry) : Bool :=
  job.schedule.any fun spec => spec.hasFuture env (job.zone timezone) now

/-- An enabled job whose schedule has an occurrence to come has a next run. -/
def CanFire (env : SchedulerEnv) (timezone : String) (now : ℤ) (job : JobEntry) : Prop :=
  job.enabled = true → job.hasFuture env timezone now = true → job.nextRunAt.isSome = true

instance (env : SchedulerEnv) (timezone : String) (now : ℤ) (job : JobEntry) :
    Decidable (job.CanFire env timezone now) := inferInstanceAs (Decidable (_ → _ → _))

end JobEntry

/-- All jobs in memory can fire. -/
def AllCanFire (env : SchedulerEnv) (m : SchedulerMachine) : Prop :=
  ∀ job ∈ m.scheduler.jobs, job.CanFire env m.scheduler.timezone m.now

instance (env : SchedulerEnv) : DecidablePred (AllCanFire env) := fun m =>
  inferInstanceAs (Decidable (∀ job ∈ m.scheduler.jobs, job.CanFire env _ _))

/-- Counted from the last run, the schedule goes on: there is no last run, or the schedule is not
one-shot and has an occurrence after it. -/
def ScheduleSpec.goesOn (env : SchedulerEnv) (tz : String) (lastRun : Option Stamp)
    (spec : ScheduleSpec) : Bool :=
  match lastRun with
  | none => true
  | some s => !spec.isAt && s.time?.all fun t => spec.hasFuture env tz t

/-- A job with this expression and prompt is there. -/
def Scheduler.knows (s : Scheduler) (file : MarkdownJob) (schedule : String) : Bool :=
  s.jobs.any fun j =>
    (j.schedule.map ScheduleSpec.describe) = some schedule && j.prompt = file.prompt

/-- **The next run is written.**  An update without a manual trigger that derives the next run of an
enabled job with an occurrence to come, and a result of it that is not the last, find that the
schedule goes on after the last run; a tick marks no one-shot job before its time; an expression that
a migration adds has no occurrence to come; and what someone else writes to disk has its next run. -/
def WritesNextRun (env : SchedulerEnv) (m : SchedulerMachine) : MachineEvent → Prop
  | .update id u _ => u.triggerNow = false → u.recomputes = true →
    ∀ old ∈ m.scheduler.job? id, u.enabled.getD old.enabled = true →
      ∀ spec ∈ u.newSchedule old,
        spec.hasFuture env (u.newZone m.scheduler.timezone old) m.now = true →
          spec.goesOn env (u.newZone m.scheduler.timezone old) old.lastRunAt = true
  | .mark _ => ∀ id ∈ m.tick.sentIds, ∀ job ∈ m.scheduler.job? id,
    job.enabled = true → job.hasFuture env m.scheduler.timezone m.now = true →
      ∀ spec ∈ job.schedule, spec.isAt = false
  | .report id record _ => id ∈ m.running → ∀ job ∈ m.scheduler.job? id,
    job.enabled = true → job.isLastRun = false → ∀ spec ∈ job.schedule,
      spec.hasFuture env (job.zone m.scheduler.timezone) m.now = true →
        spec.goesOn env (job.zone m.scheduler.timezone) (some record.runAt) = true
  | .migrate files _ => ∀ f ∈ files, ∀ schedule ∈ f.2.schedule, f.2.prompt ≠ "" →
    m.scheduler.knows f.2 schedule = true ∨
      env.cronAfter (normalizeWeekdayUnix schedule) m.scheduler.timezone m.now = none
  | .external root => ∀ job ∈ root.stored, job.CanFire env m.scheduler.timezone m.now
  | _ => True

instance (env : SchedulerEnv) (m : SchedulerMachine) (e : MachineEvent) :
    Decidable (WritesNextRun env m e) := by
  rcases e with _ | _ <;> unfold WritesNextRun <;> infer_instance

section

variable {env : SchedulerEnv} {m : SchedulerMachine} {job : JobEntry} {spec : ScheduleSpec}
  {lastRun : Option Stamp} {tz timezone : String} {now later : ℤ}

/-! ## The derivation -/

/-- A moment in the range does not wrap. -/
lemma bmod_of_representable (hlaws : EnvLaws env) {x : ℤ} (h : env.representable x = true) :
    Int.bmod x (2 ^ 64) = x := by
  obtain ⟨hge, hlt⟩ := hlaws.representable_range x h
  have hwidth : ((2 ^ 64 : ℕ) : ℤ) = 18446744073709551616 := rfl
  refine Int.bmod_eq_of_le ?_ ?_
  · rw [hwidth]
    omega
  · rw [hwidth]
    omega

/-- **The derivation finds the occurrence** if the schedule goes on after the last run. -/
lemma computeNextRun_isSome (hlaws : EnvLaws env) (hfuture : spec.hasFuture env tz now = true)
    (hgoes : spec.goesOn env tz lastRun = true) :
    (computeNextRun env (some spec) lastRun tz now).isSome = true := by
  -- there is an occurrence after the moment that intervals and expressions are counted from
  have hfrom : spec.hasFuture env tz ((lastRun.bind Stamp.time?).getD now) = true := by
    unfold ScheduleSpec.goesOn at hgoes
    cases lastRun with
    | none => exact hfuture
    | some s =>
      simp only [Bool.and_eq_true] at hgoes
      cases ht : s.time? with
      | none => simpa [ht] using hfuture
      | some t => simpa [ht] using hgoes.2
  unfold ScheduleSpec.hasFuture at hfrom
  cases hk : spec.toKind with
  | every intervalMs =>
    rw [hk] at hfrom
    rw [computeNextRun_every hk, bmod_of_representable hlaws hfrom, if_pos hfrom]
    rfl
  | atTime time =>
    have hnone : lastRun = none := by
      unfold ScheduleSpec.goesOn at hgoes
      cases lastRun with
      | none => rfl
      | some s => simp [ScheduleSpec.isAt, hk] at hgoes
    subst hnone
    rw [computeNextRun_atTime hk]
    rw [hk] at hfrom
    cases ht : time.time? with
    | none => simp [ht] at hfrom
    | some t => rfl
  | cron expr =>
    rw [hk] at hfrom
    rw [computeNextRun_cron hk, Option.isSome_map]
    exact hfrom

/-- An occurrence after a moment is one after an earlier moment. -/
lemma ScheduleSpec.hasFuture_of_le (hlaws : EnvLaws env) (hnow : 0 ≤ now) (hle : now ≤ later)
    (h : spec.hasFuture env tz later = true) : spec.hasFuture env tz now = true := by
  unfold hasFuture at h ⊢
  cases hk : spec.toKind with
  | every intervalMs =>
    rw [hk] at h
    exact hlaws.representable_le _ _ (by omega) (by omega) h
  | atTime time =>
    rw [hk] at h
    cases ht : time.time? with
    | none => simp [ht] at h
    | some t =>
      have hlt : later < t := by simpa [ht] using h
      simpa [ht] using lt_of_le_of_lt hle hlt
  | cron expr =>
    rw [hk] at h
    exact hlaws.cronAfter_le _ _ _ _ hle h

namespace JobEntry

/-- A job that can fire still can when time has passed. -/
lemma CanFire.of_le (hlaws : EnvLaws env) (hnow : 0 ≤ now) (hle : now ≤ later)
    (h : job.CanFire env timezone now) : job.CanFire env timezone later := by
  intro henabled hfuture
  refine h henabled ?_
  obtain ⟨spec, hspec, hf⟩ := (Option.any_eq_true _ _).1 hfuture
  exact (Option.any_eq_true _ _).2 ⟨spec, hspec, ScheduleSpec.hasFuture_of_le hlaws hnow hle hf⟩

/-- **A job whose next run has been derived** can fire if its schedule goes on after the last run. -/
lemma canFire_of_computed (hlaws : EnvLaws env) (lastRun : Option Stamp)
    (hnext : job.nextRunAt = computeNextRun env job.schedule lastRun (job.zone timezone) now)
    (hgoes : job.enabled = true → ∀ spec ∈ job.schedule,
      spec.hasFuture env (job.zone timezone) now = true →
        spec.goesOn env (job.zone timezone) lastRun = true) :
    job.CanFire env timezone now := by
  intro henabled hfuture
  obtain ⟨spec, hspec, hf⟩ := (Option.any_eq_true _ _).1 hfuture
  rw [hnext, hspec]
  exact computeNextRun_isSome hlaws hf (hgoes henabled spec hspec hf)

/-- A job that differs only in what does not bear on its runs can fire as before. -/
lemma CanFire.congr {old : JobEntry} (h : old.CanFire env timezone now)
    (henabled : job.enabled = old.enabled) (hschedule : job.schedule = old.schedule)
    (hzone : job.zone timezone = old.zone timezone) (hnext : job.nextRunAt = old.nextRunAt) :
    job.CanFire env timezone now := by
  unfold CanFire hasFuture at h ⊢
  rw [henabled, hschedule, hzone, hnext]
  exact h

/-- A job can fire as it is stored. -/
lemma CanFire.serialized (h : job.CanFire env timezone now) :
    job.serialized.CanFire env timezone now := h

/-- So can it with its name. -/
lemma CanFire.named (h : job.CanFire env timezone now) :
    (job.named env).CanFire env timezone now := by
  unfold JobEntry.named
  split
  · exact h.congr rfl rfl rfl rfl
  · exact h

/-- So can it normalized. -/
lemma CanFire.normalized (h : job.CanFire env timezone now) :
    job.normalized.CanFire env timezone now := by
  intro henabled hfuture
  refine h henabled ?_
  obtain ⟨spec, hspec, hf⟩ := (Option.any_eq_true _ _).1 hfuture
  obtain ⟨old, hold, rfl⟩ := Option.map_eq_some_iff.1 hspec
  exact (Option.any_eq_true _ _).2 ⟨old, hold, hf⟩

end JobEntry

/-! ## What the operations write -/

/-- An updated job, without a manual trigger. -/
lemma canFire_apply (hlaws : EnvLaws env) {old : JobEntry} {u : JobUpdate}
    (h : old.CanFire env timezone now)
    (hC : u.recomputes = true → u.enabled.getD old.enabled = true →
      ∀ spec ∈ u.newSchedule old, spec.hasFuture env (u.newZone timezone old) now = true →
        spec.goesOn env (u.newZone timezone old) old.lastRunAt = true) :
    (u.apply env timezone now old).CanFire env timezone now := by
  cases hrec : u.recomputes with
  | true =>
    have hon : u.enabled ≠ some false := by
      unfold JobUpdate.recomputes at hrec
      simp only [Bool.and_eq_true, decide_eq_true_eq] at hrec
      exact hrec.1
    refine JobEntry.canFire_of_computed hlaws old.lastRunAt ?_ ?_
    · rw [JobUpdate.apply_nextRunAt, JobUpdate.newNextRun, if_neg hon, if_pos hrec,
        JobUpdate.apply_schedule, JobUpdate.apply_zone]
    · rw [JobUpdate.apply_enabled, JobUpdate.apply_schedule, JobUpdate.apply_zone]
      exact hC hrec
  | false =>
    by_cases hoff : u.enabled = some false
    · intro henabled
      rw [JobUpdate.apply_enabled, hoff] at henabled
      cases henabled
    · -- the fields that the next run depends on are left alone
      obtain ⟨hschedule, htz, hon⟩ :
          u.scheduleChanged = false ∧ u.tz = none ∧ u.enabled = none := by
        unfold JobUpdate.recomputes at hrec
        rcases henabled : u.enabled with _ | _ | _ <;> simp_all
      refine h.congr ?_ ?_ ?_ ?_
      · rw [JobUpdate.apply_enabled, hon]
        rfl
      · rw [JobUpdate.apply_schedule, JobUpdate.newSchedule, hschedule]
        rfl
      · rw [JobUpdate.apply_zone, JobUpdate.newZone, htz]
        rfl
      · rw [JobUpdate.apply_nextRunAt, JobUpdate.newNextRun, if_neg hoff, hrec]
        rfl

/-- A job after the result of a run. -/
lemma canFire_withResult (hlaws : EnvLaws env) {old : JobEntry} {record : RunRecord}
    (hC : old.enabled = true → old.isLastRun = false → ∀ spec ∈ old.schedule,
      spec.hasFuture env (old.zone timezone) now = true →
        spec.goesOn env (old.zone timezone) (some record.runAt) = true) :
    (old.withResult env timezone now record).CanFire env timezone now := by
  obtain ⟨hoff, hon, hschedule, htz⟩ :=
    JobEntry.withResult_timing env old timezone now record
  cases hlast : old.isLastRun with
  | true =>
    intro henabled
    rw [hoff hlast] at henabled
    cases henabled
  | false =>
    obtain ⟨henabled, hnext⟩ := hon hlast
    have hzone : (old.withResult env timezone now record).zone timezone = old.zone timezone := by
      unfold JobEntry.zone
      rw [htz]
    refine JobEntry.canFire_of_computed hlaws (some record.runAt) ?_ ?_
    · rw [hnext, hschedule, hzone]
    · rw [henabled, hschedule, hzone]
      exact fun h => hC h hlast

/-- A job after a tick has sent it. -/
lemma canFire_ticked (hlaws : EnvLaws env) {old : JobEntry}
    (hC : old.enabled = true → old.hasFuture env timezone now = true →
      ∀ spec ∈ old.schedule, spec.isAt = false) :
    (old.ticked env timezone now).CanFire env timezone now := by
  refine JobEntry.canFire_of_computed hlaws (some (.moment now)) rfl ?_
  intro henabled spec hspec hfuture
  have hat : spec.isAt = false :=
    hC henabled ((Option.any_eq_true _ _).2 ⟨spec, hspec, hfuture⟩) spec hspec
  simp only [ScheduleSpec.goesOn, hat, Stamp.time?, Option.all_some, Bool.not_false, Bool.true_and]
  exact hfuture

/-- A job that a migration adds has no next run. -/
lemma canFire_migrated {freshId : String} {file : MarkdownJob} {schedule : String}
    (h : env.cronAfter (normalizeWeekdayUnix schedule) timezone now = none) :
    (Scheduler.migrated freshId file schedule).CanFire env timezone now := by
  intro _ hfuture
  obtain ⟨spec, hspec, hf⟩ := (Option.any_eq_true _ _).1 hfuture
  obtain rfl := Option.some.inj hspec
  have hsome : (env.cronAfter (normalizeWeekdayUnix schedule) timezone now).isSome = true := hf
  rw [h] at hsome
  cases hsome

/-! ## Events -/

/-- The jobs in memory and on disk can fire, after 1970. -/
structure NextRunsWritten (env : SchedulerEnv) (m : SchedulerMachine) : Prop where
  now_nonneg : 0 ≤ m.now
  memory : AllCanFire env m
  disk : ∀ job ∈ m.scheduler.root.stored, job.CanFire env m.scheduler.timezone m.now

namespace NextRunsWritten

/-- **An operation** that leaves the jobs in memory able to fire does so with the jobs on disk. -/
lemma of_storesOwn (h : NextRunsWritten env m) {m' : SchedulerMachine} (hnow : m'.now = m.now)
    (hstores : m.scheduler.StoresOwn m'.scheduler)
    (hmemory : ∀ job ∈ m'.scheduler.jobs, job.CanFire env m.scheduler.timezone m.now) :
    NextRunsWritten env m' := by
  obtain ⟨htimezone, hstored⟩ := hstores
  refine ⟨hnow ▸ h.now_nonneg, ?_, ?_⟩
  · intro job hjob
    rw [htimezone, hnow]
    exact hmemory job hjob
  · intro job hjob
    rw [htimezone, hnow]
    rcases hstored job hjob with hold | ⟨j, hj, rfl⟩
    · exact h.disk job hold
    · exact (hmemory j hj).serialized

/-- The jobs that are loaded can fire. -/
lemma loaded (h : NextRunsWritten env m) (unreadable : List String) :
    ∀ job ∈ loadJobs env m.scheduler.root unreadable,
      job.CanFire env m.scheduler.timezone m.now := by
  intro job hjob
  obtain ⟨j, hj, rfl | rfl⟩ := mem_loadJobs hjob
  · exact (h.disk j hj).named
  · exact (h.disk j hj).normalized

/-- Time alone spoils no next run. -/
lemma wait (hlaws : EnvLaws env) (h : NextRunsWritten env m) (ms : ℕ) :
    NextRunsWritten env (machineStep env m (.wait ms)) := by
  have hle : m.now ≤ m.now + ms := by omega
  exact ⟨h.now_nonneg.trans hle, fun job hjob => (h.memory job hjob).of_le hlaws h.now_nonneg hle,
    fun job hjob => (h.disk job hjob).of_le hlaws h.now_nonneg hle⟩

/-- Nor do the deletions of a tick. -/
lemma drain (h : NextRunsWritten env m) (fault : SaveFault) :
    NextRunsWritten env (machineStep env m (.drain fault)) := by
  simp only [machineStep]
  split
  · refine h.of_storesOwn rfl (Scheduler.storesOwn_drainAutoDelete _ _) fun job hjob => ?_
    refine h.memory job ?_
    simp only [Scheduler.drainAutoDelete] at hjob
    split at hjob
    · exact hjob
    · exact (List.mem_filter.1 hjob).1
  · exact h

/-- Nor does a hot reload. -/
lemma reload (h : NextRunsWritten env m) (unreadable : List String) :
    NextRunsWritten env (machineStep env m (.reload unreadable)) := by
  simp only [machineStep]
  split
  · refine h.of_storesOwn rfl (Scheduler.storesOwn_maybeReload _ _ _) fun job hjob => ?_
    simp only [Scheduler.maybeReload] at hjob
    split at hjob
    · exact h.memory job hjob
    · exact h.loaded unreadable job hjob
  · exact h

/-- Nor does the end of a tick. -/
lemma mark (hlaws : EnvLaws env) (h : NextRunsWritten env m) (fault : SaveFault)
    (hC : WritesNextRun env m (.mark fault)) :
    NextRunsWritten env (machineStep env m (.mark fault)) := by
  cases ht : m.tick with
  | sent ids =>
    simp only [machineStep, ht]
    refine h.of_storesOwn rfl (Scheduler.storesOwn_markTick _ _ _ _ _) fun job hjob => ?_
    simp only [Scheduler.markTick] at hjob
    split at hjob
    · exact h.memory job hjob
    · rcases Scheduler.mem_foldl_modify (f := (·.ticked env m.scheduler.timezone m.now))
        (fun _ => rfl) (fun _ => rfl) hjob with hold | ⟨id, hid, old, hold, rfl⟩
      · exact h.memory job hold
      · exact canFire_ticked hlaws (hC id (by rw [ht]; exact hid) old hold)
  | idle | drained | reloaded =>
    simp only [machineStep, ht]
    exact h

/-- Nor does a report. -/
lemma report (hlaws : EnvLaws env) (h : NextRunsWritten env m) (id : String) (record : RunRecord)
    (fault : SaveFault) (hC : WritesNextRun env m (.report id record fault)) :
    NextRunsWritten env (machineStep env m (.report id record fault)) := by
  by_cases hrun : id ∈ m.running
  · simp only [machineStep, if_pos hrun]
    refine h.of_storesOwn rfl (Scheduler.storesOwn_markRunResult _ _ _ _ _ _) fun job hjob => ?_
    rw [Scheduler.markRunResult_jobs] at hjob
    rcases FirstMatch.mem_update hjob with hold | ⟨old, hold, rfl⟩
    · exact h.memory job hold
    · exact canFire_withResult hlaws (hC hrun old hold)
  · simp only [machineStep, if_neg hrun]
    exact h

/-- Nor does a new job. -/
lemma add (hlaws : EnvLaws env) (h : NextRunsWritten env m) (entry : JobEntry) (freshId : String)
    (fault : SaveFault) : NextRunsWritten env (machineStep env m (.add entry freshId fault)) := by
  refine h.of_storesOwn rfl (Scheduler.storesOwn_addJob _ _ _ _ _ _) fun job hjob => ?_
  simp only [machineStep, Scheduler.addJob] at hjob
  split at hjob
  · exact h.memory job hjob
  · rcases List.mem_append.1 hjob with hold | hnew
    · exact h.memory job hold
    · rw [List.mem_singleton.1 hnew]
      exact JobEntry.canFire_of_computed hlaws none rfl fun _ _ _ _ => rfl

/-- An update that writes the next run keeps the invariant. -/
lemma update (hlaws : EnvLaws env) (h : NextRunsWritten env m) (id : String) (u : JobUpdate)
    (fault : SaveFault) (hC : WritesNextRun env m (.update id u fault)) :
    NextRunsWritten env (machineStep env m (.update id u fault)) := by
  refine h.of_storesOwn rfl (Scheduler.storesOwn_updateJob _ _ _ _ _ _) fun job hjob => ?_
  obtain ⟨f, hjobs, hf⟩ := Scheduler.updateJob_jobs env m.scheduler m.now fault id u
  simp only [machineStep, hjobs] at hjob
  rcases FirstMatch.mem_update hjob with hold | ⟨old, hold, rfl⟩
  · exact h.memory job hold
  · have hmem : old ∈ m.scheduler.jobs := Scheduler.job?_mem hold
    rcases hf with ⟨rfl, hrefused⟩ | ⟨-, rfl⟩
    · cases htrigger : u.triggerNow with
      | false => exact canFire_apply hlaws (h.memory old hmem) fun hrec => hC htrigger hrec old hold
      | true =>
        -- a refused trigger leaves the job disabled or without a schedule
        intro henabled hfuture
        rcases hrefused htrigger old hold with hoff | hnone
        · rw [hoff] at henabled
          cases henabled
        · rw [JobEntry.hasFuture, hnone] at hfuture
          cases hfuture
    · intro _ _
      rfl

/-- Nor does a removal. -/
lemma remove (h : NextRunsWritten env m) (id : String) (runLog : List RunRecord)
    (fault : SaveFault) : NextRunsWritten env (machineStep env m (.remove id runLog fault)) := by
  refine h.of_storesOwn rfl (Scheduler.storesOwn_removeJob _ _ _ _) fun job hjob => ?_
  simp only [machineStep, Scheduler.removeJob] at hjob
  split at hjob
  · exact h.memory job hjob
  · exact h.memory job (List.mem_filter.1 hjob).1

/-- Nor does a migration. -/
lemma migrate (h : NextRunsWritten env m) (files : List (String × MarkdownJob)) (fault : SaveFault)
    (hC : WritesNextRun env m (.migrate files fault)) :
    NextRunsWritten env (machineStep env m (.migrate files fault)) := by
  refine h.of_storesOwn rfl (Scheduler.storesOwn_migrateFromMarkdown _ _ _) fun job hjob => ?_
  obtain ⟨added, heq, hadded⟩ := migrateFiles_append files m.scheduler.jobs
  simp only [machineStep, Scheduler.migrateFromMarkdown] at hjob
  split at hjob
  · rw [Scheduler.save_jobs, heq] at hjob
    rcases List.mem_append.1 hjob with hold | hnew
    · exact h.memory job hold
    · obtain ⟨f, hf, schedule, hschedule, hprompt, hunknown, rfl⟩ := hadded job hnew
      rcases hC f hf schedule hschedule hprompt with hknown | hnone
      · obtain ⟨j, hj, hboth⟩ := List.any_eq_true.1 hknown
        simp only [Bool.and_eq_true, decide_eq_true_eq] at hboth
        exact absurd hboth.2 (hunknown j hj hboth.1)
      · exact canFire_migrated hnone
  · exact h.memory job hjob

/-- **An event that meets the condition** keeps the jobs in memory and on disk able to fire. -/
lemma step (hlaws : EnvLaws env) (h : NextRunsWritten env m) {e : MachineEvent}
    (hC : WritesNextRun env m e) : NextRunsWritten env (machineStep env m e) := by
  cases e with
  | wait ms => exact h.wait hlaws ms
  | drain fault => exact h.drain fault
  | reload unreadable => exact h.reload unreadable
  | select =>
    simp only [machineStep]
    split
    · exact ⟨h.now_nonneg, h.memory, h.disk⟩
    · exact h
  | mark fault => exact h.mark hlaws fault hC
  | report id record fault => exact h.report hlaws id record fault hC
  | add entry freshId fault => exact h.add hlaws entry freshId fault
  | update id u fault => exact h.update hlaws id u fault hC
  | remove id runLog fault => exact h.remove id runLog fault
  | migrate files fault => exact h.migrate files fault hC
  | external root => exact ⟨h.now_nonneg, h.memory, hC⟩
  | restart unreadable => exact ⟨h.now_nonneg, h.loaded unreadable, h.disk⟩

end NextRunsWritten

end

/-! ## Runs -/

/-- The third-party parts on the inputs of the runs below: the range of moments, and the expression of
every minute. -/
def minuteEnv : SchedulerEnv where
  representable := fun ms => -8334601228800000 ≤ ms && ms ≤ 8210266876799999
  cronAfter := fun expr _ ms => if expr = "0 * * * * *" then some ((ms / 60000 + 1) * 60000) else none
  minuteOfDay := fun _ ms => (ms / 60000 % 1440).toNat
  parseUuid := fun _ => none

/-- The parts of the runs obey the laws. -/
lemma envLaws_minuteEnv : EnvLaws minuteEnv where
  representable_le := by
    intro x y hx hxy hy
    simp only [minuteEnv, Bool.and_eq_true, decide_eq_true_eq] at hy ⊢
    omega
  representable_range := by
    intro x hx
    simp only [minuteEnv, Bool.and_eq_true, decide_eq_true_eq] at hx
    omega
  cronAfter_le := by
    intro expr tz base later _ h
    simp only [minuteEnv] at h ⊢
    split at h
    · rename_i hexpr
      rw [if_pos hexpr]
      rfl
    · cases h

/-- A job of every minute. -/
def minuteJob : JobEntry :=
  { id := "minute"
    schedule := some (.kind (.cron "0 * * * * *"))
    prompt := "report"
    name := some "minute" }

/-- A one-shot job that has run. -/
def spentJob : JobEntry :=
  { id := "spent"
    schedule := some (.kind (.atTime (.moment 1000)))
    prompt := "report"
    name := some "spent"
    enabled := false
    lastRunAt := some (.moment 1000) }

/-- The root with the directory of one job. -/
def rootWith (job : JobEntry) : JobsRoot := ⟨[(job.dir, some (.job job))], some 1, none⟩

end MyClaw
