import MyClaw.Scheduler.Machine

set_option autoImplicit false

/-!
# The cap on the runs of a job

A job with `max_runs` is disabled, or deleted at the next tick, when a run reports that brings it to
the cap.  A tick sends what is due and does not look at the cap, so the runs that have not reported
are not counted by anyone.

## Main definitions

* `LeavesJob` — the event is no edit of the job.
* `WithinMaxRuns` — no more triggers than the cap have been sent.
* `StartsReported` — a tick that finds the job due has started with all its runs reported.
* `RunsAccounted` — the triggers sent are the completed runs and those that have not
  reported.
* `SpentStops` — a job at its cap is disabled, or left to the next tick to delete.

## Main results

* `RunsAccounted.step` — the account is kept as long as nobody edits the job.
* `SpentStops.step` — so is the stop at the cap, by `mark_run_result` and `drain_auto_delete`.
* `withinMaxRuns_run` — the cap bounds the triggers of a run in which every tick that finds the
  job due has started with all its runs reported.
* `not_withinMaxRuns_select` — a tick that finds the job due while the runs that have not
  reported fill the cap exceeds it.
-/

namespace MyClaw

/-- What the cap of a job depends on: the cap, the counter and the two flags. -/
def JobEntry.capState (job : JobEntry) : Option ℕ × ℕ × Bool × Bool :=
  (job.maxRuns, job.completedRuns, job.enabled, job.deleteAfterRun)

/-- The event does not edit the job: it is no edit by the user, no change of the directory by hand and
no new process, and a reload finds the job once, with the cap, the counter and the flags that memory
has. -/
def LeavesJob (env : SchedulerEnv) (id : String) (m : SchedulerMachine) : MachineEvent → Prop
  | .add entry freshId _ => (if entry.id = "" then freshId else entry.id) ≠ id
  | .update other _ _ => other ≠ id
  | .remove other _ _ => other ≠ id
  | .migrate files _ => ∀ f ∈ files, f.1 ≠ id
  | .reload unreadable => m.tick = .drained →
    ((m.scheduler.maybeReload env unreadable).jobs.map (·.id)).count id ≤ 1 ∧
      ∀ job ∈ (m.scheduler.maybeReload env unreadable).job? id, ∃ old ∈ m.scheduler.job? id,
        old.capState = job.capState
  | .external _ => False
  | .restart _ => False
  | _ => True

instance (env : SchedulerEnv) (id : String) (m : SchedulerMachine) (e : MachineEvent) :
    Decidable (LeavesJob env id m e) := by
  rcases e with _ | _ <;> unfold LeavesJob <;> infer_instance

/-- No more triggers than the cap have been sent for the job. -/
def WithinMaxRuns (id : String) (max : ℕ) (m : SchedulerMachine) : Prop := sentCount m id ≤ max

instance (id : String) (max : ℕ) : DecidablePred (WithinMaxRuns id max) := fun m =>
  inferInstanceAs (Decidable (sentCount m id ≤ max))

/-- A tick that finds the job due has started with no run of it unreported: none is unreported when the
tick collects what is due, and a result that brings a job with `delete_after_run` to its cap does not
come after the tick has deleted the spent jobs. -/
def StartsReported (env : SchedulerEnv) (id : String) (m : SchedulerMachine) : MachineEvent → Prop
  | .select => m.tick = .reloaded → 0 < dueCount env m id → runningCount m id = 0
  | .report other _ _ => other = id → m.tick = .drained ∨ m.tick = .reloaded →
    ∀ job ∈ m.scheduler.job? id, job.deleteAfterRun = true →
      ∀ max ∈ job.maxRuns, job.completedRuns + 1 < max
  | _ => True

instance (env : SchedulerEnv) (id : String) (m : SchedulerMachine) (e : MachineEvent) :
    Decidable (StartsReported env id m e) := by
  rcases e with _ | _ <;> unfold StartsReported <;> infer_instance

/-- **The account of the runs**: the job has the cap, and the triggers sent for it are its completed
runs and those that have not reported. -/
def RunsAccounted (id : String) (max : ℕ) (m : SchedulerMachine) : Prop :=
  ∀ job ∈ m.scheduler.job? id, job.maxRuns = some max ∧
    sentCount m id = job.completedRuns + runningCount m id

/-- **A spent job stops**: the job is in memory once at most, and at its cap it is disabled, or it is to be
deleted by the next tick; one that is past its deletions finds no such job. -/
structure SpentStops (id : String) (max : ℕ) (m : SchedulerMachine) : Prop where
  once : (m.scheduler.jobs.map (·.id)).count id ≤ 1
  stops : ∀ job ∈ m.scheduler.job? id, max ≤ job.completedRuns →
    job.enabled = false ∨ job.deleteAfterRun = true ∧ m.tick ≠ .drained ∧ m.tick ≠ .reloaded

section

variable {env : SchedulerEnv} {m : SchedulerMachine} {id : String} {max : ℕ}

/-! ## The counters of a job -/

/-- A result counts one run. -/
lemma JobEntry.countRun_maxRuns (job : JobEntry) (record : RunRecord) :
    (job.countRun record).maxRuns = job.maxRuns ∧
      (job.countRun record).completedRuns = job.completedRuns + 1 := by
  unfold countRun
  simp only
  split <;> split <;> exact ⟨rfl, rfl⟩

/-- What is noted of a run before it is counted leaves the fields of the cap. -/
lemma JobEntry.noteAlert_noteRun_cap (env : SchedulerEnv) (timezone : String) (now : ℤ)
    (record : RunRecord) (job : JobEntry) :
    let noted := (job.noteRun env timezone now record).noteAlert now
    noted.maxRuns = job.maxRuns ∧ noted.completedRuns = job.completedRuns ∧
      noted.deleteAfterRun = job.deleteAfterRun ∧ noted.schedule = job.schedule ∧
      noted.tz = job.tz ∧ noted.enabled = job.enabled ∧
      noted.nextRunAt = computeNextRun env job.schedule (some record.runAt) (job.zone timezone)
        now := by
  unfold noteAlert noteRun
  cases record.status <;> simp only <;> split <;> exact ⟨rfl, rfl, rfl, rfl, rfl, rfl, rfl⟩

/-- A result counts one run, and the cap stays. -/
lemma JobEntry.withResult_maxRuns (env : SchedulerEnv) (timezone : String) (now : ℤ)
    (record : RunRecord) (job : JobEntry) :
    (job.withResult env timezone now record).maxRuns = job.maxRuns ∧
      (job.withResult env timezone now record).completedRuns = job.completedRuns + 1 := by
  obtain ⟨hmax, hruns, -⟩ := noteAlert_noteRun_cap env timezone now record job
  obtain ⟨hmax', hruns'⟩ := countRun_maxRuns ((job.noteRun env timezone now record).noteAlert now)
    record
  exact ⟨hmax'.trans hmax, by rw [withResult, hruns', hruns]⟩

/-- The account depends on the job, the triggers and the runs only. -/
lemma RunsAccounted.congr {m' : SchedulerMachine} (h : RunsAccounted id max m)
    (hjob : m'.scheduler.job? id = m.scheduler.job? id) (hsent : m'.sent = m.sent)
    (hrunning : m'.running = m.running) : RunsAccounted id max m' := by
  unfold RunsAccounted sentCount runningCount at h ⊢
  rw [hjob, hsent, hrunning]
  exact h

/-- Without the job there is nothing to account for. -/
lemma runsAccounted_of_none (h : m.scheduler.job? id = none) : RunsAccounted id max m := by
  intro job hjob
  rw [h] at hjob
  cases hjob

/-! ## Operations that leave the job alone -/

/-- New jobs hide none. -/
lemma job?_append {s : Scheduler} {jobs : List JobEntry} (h : ∀ j ∈ jobs, j.id ≠ id) :
    ({ s with jobs := s.jobs ++ jobs } : Scheduler).job? id = s.job? id := by
  unfold Scheduler.job?
  have hnone : jobs.find? (·.id = id) = none := by
    rw [List.find?_eq_none]
    exact fun j hj hid => h j hj (by simpa using hid)
  rw [List.find?_append, hnone, Option.or_none]

/-- A new job leaves the others. -/
lemma job?_addJob {s : Scheduler} {now : ℤ} {fault : SaveFault} {entry : JobEntry}
    {freshId : String} (h : (if entry.id = "" then freshId else entry.id) ≠ id) :
    (s.addJob env now fault entry freshId).2.job? id = s.job? id := by
  unfold Scheduler.addJob
  split
  · rfl
  · exact job?_append (s := s) fun j hj => by
      rw [List.mem_singleton.1 hj]
      exact h

/-- So does an update. -/
lemma job?_updateJob {s : Scheduler} {now : ℤ} {fault : SaveFault} {other : String} {u : JobUpdate}
    (h : other ≠ id) : (s.updateJob env now fault other u).2.job? id = s.job? id := by
  obtain ⟨f, hjobs, hf⟩ := Scheduler.updateJob_jobs env s now fault other u
  have hid : ∀ j, (f j).id = j.id := by
    rcases hf with ⟨rfl, -⟩ | ⟨-, rfl⟩ <;> intro j <;> simp
  rw [Scheduler.job?_congr (s := s.modify other f) hjobs]
  exact Scheduler.job?_modify_of_ne hid (Ne.symm h)

/-- So does a removal. -/
lemma job?_removeJob {s : Scheduler} {fault : SaveFault} {other : String}
    {runLog : List RunRecord} (h : other ≠ id) :
    (s.removeJob fault other runLog).2.job? id = s.job? id := by
  unfold Scheduler.removeJob
  cases s.job? other with
  | none => rfl
  | some job =>
    refine Scheduler.job?_filter _ fun j _ hid => ?_
    rw [hid]
    simpa using Ne.symm h

/-- A file of a migration adds at most one job: with a prompt, and an expression that no job with this
prompt has. -/
lemma migrateFile_cases (jobs : List JobEntry) (freshId : String) (file : MarkdownJob) :
    Scheduler.migrateFile jobs freshId file = jobs ∨
      ∃ schedule, file.schedule = some schedule ∧ file.prompt ≠ "" ∧
        (∀ j ∈ jobs, j.schedule.map ScheduleSpec.describe = some schedule →
          j.prompt ≠ file.prompt) ∧
        Scheduler.migrateFile jobs freshId file =
          jobs ++ [Scheduler.migrated freshId file schedule] := by
  unfold Scheduler.migrateFile
  cases file.schedule with
  | none => exact .inl rfl
  | some schedule =>
    simp only
    split
    · exact .inl rfl
    · rename_i hprompt
      split
      · exact .inl rfl
      · rename_i hany
        refine .inr ⟨schedule, rfl, hprompt, fun j hj hdescribe heq => hany ?_, rfl⟩
        exact List.any_eq_true.2 ⟨j, hj, by simp [hdescribe, heq]⟩

/-- The jobs that a migration adds. -/
lemma migrateFiles_append (files : List (String × MarkdownJob)) (jobs : List JobEntry) :
    ∃ added, files.foldl (fun jobs f => Scheduler.migrateFile jobs f.1 f.2) jobs = jobs ++ added ∧
      ∀ j ∈ added, ∃ f ∈ files, ∃ schedule, f.2.schedule = some schedule ∧ f.2.prompt ≠ "" ∧
        (∀ i ∈ jobs, i.schedule.map ScheduleSpec.describe = some schedule →
          i.prompt ≠ f.2.prompt) ∧
        j = Scheduler.migrated f.1 f.2 schedule := by
  induction files generalizing jobs with
  | nil => exact ⟨[], by simp, by simp⟩
  | cons f files ih =>
    obtain ⟨added, heq, hadded⟩ := ih (Scheduler.migrateFile jobs f.1 f.2)
    have hgrows : ∀ i ∈ jobs, i ∈ Scheduler.migrateFile jobs f.1 f.2 := by
      intro i hi
      rcases migrateFile_cases jobs f.1 f.2 with hsame | ⟨_, _, _, _, hnew⟩
      · rw [hsame]
        exact hi
      · rw [hnew]
        exact List.mem_append_left _ hi
    have hrest : ∀ j ∈ added, ∃ g ∈ f :: files, ∃ schedule, g.2.schedule = some schedule ∧
        g.2.prompt ≠ "" ∧ (∀ i ∈ jobs, i.schedule.map ScheduleSpec.describe = some schedule →
          i.prompt ≠ g.2.prompt) ∧ j = Scheduler.migrated g.1 g.2 schedule := fun j hj => by
      obtain ⟨g, hg, schedule, hschedule, hprompt, hunknown, rfl⟩ := hadded j hj
      exact ⟨g, List.mem_cons_of_mem _ hg, schedule, hschedule, hprompt,
        fun i hi => hunknown i (hgrows i hi), rfl⟩
    rw [List.foldl_cons, heq]
    rcases migrateFile_cases jobs f.1 f.2 with hsame | ⟨schedule, hschedule, hprompt, hunknown, hnew⟩
    · exact ⟨added, by rw [hsame], hrest⟩
    · refine ⟨Scheduler.migrated f.1 f.2 schedule :: added, by rw [hnew]; simp, fun j hj => ?_⟩
      rcases List.mem_cons.1 hj with hj | hj
      · exact ⟨f, List.mem_cons_self, schedule, hschedule, hprompt, hunknown, hj⟩
      · exact hrest j hj

/-- So does a migration. -/
lemma job?_migrateFromMarkdown {s : Scheduler} {fault : SaveFault}
    {files : List (String × MarkdownJob)} (h : ∀ f ∈ files, f.1 ≠ id) :
    (s.migrateFromMarkdown fault files).2.job? id = s.job? id := by
  obtain ⟨added, heq, hadded⟩ := migrateFiles_append files s.jobs
  unfold Scheduler.migrateFromMarkdown
  simp only
  split
  · rw [heq]
    refine job?_append (s := s) fun j hj => ?_
    obtain ⟨f, hf, schedule, -, -, -, rfl⟩ := hadded j hj
    exact h f hf
  · rfl

/-- A deletion of spent jobs takes the job or leaves it. -/
lemma job?_drainAutoDelete (s : Scheduler) (fault : SaveFault) (id : String) :
    (s.drainAutoDelete fault).2.job? id = s.job? id ∨
      (s.drainAutoDelete fault).2.job? id = none := by
  unfold Scheduler.drainAutoDelete
  simp only
  split
  · exact .inl rfl
  · by_cases hid : id ∈ (s.jobs.filter JobEntry.isSpent).map (·.id)
    · refine .inr (Scheduler.job?_filter_none _ fun j _ hj => ?_)
      rw [hj]
      exact decide_eq_false fun h => h hid
    · refine .inl (Scheduler.job?_filter _ fun j _ hj => ?_)
      rw [hj]
      exact decide_eq_true hid

/-- Without the job nothing of it is due. -/
lemma job?_of_dueCount (h : 0 < dueCount env m id) : ∃ job, m.scheduler.job? id = some job := by
  obtain ⟨j, hj, hid⟩ := List.countP_pos_iff.1 h
  have hmem : j ∈ m.scheduler.jobs := (List.mem_filter.1 hj).1
  cases hfind : m.scheduler.job? id with
  | some job => exact ⟨job, rfl⟩
  | none => exact absurd hid (by simpa using List.find?_eq_none.1 hfind j hmem)

/-! ## The account -/

/-- A tick that sends keeps the account. -/
lemma RunsAccounted.select (h : RunsAccounted id max m) :
    RunsAccounted id max (machineStep env m .select) := by
  by_cases ht : m.tick = .reloaded
  · obtain ⟨hsent, hrunning⟩ := sentCount_select env id ht
    have hjob : (machineStep env m .select).scheduler = m.scheduler := by
      simp [machineStep, ht]
    intro job hj
    rw [hjob] at hj
    obtain ⟨hmax, hcount⟩ := h job hj
    exact ⟨hmax, by omega⟩
  · simp only [machineStep, if_neg ht]
    exact h

/-- A report takes a run from those that have not reported to the completed ones. -/
lemma RunsAccounted.report (h : RunsAccounted id max m) (other : String) (record : RunRecord)
    (fault : SaveFault) : RunsAccounted id max (machineStep env m (.report other record fault)) := by
  by_cases hrun : other ∈ m.running
  · simp only [machineStep, if_pos hrun]
    have hjobs := Scheduler.markRunResult_jobs env m.scheduler m.now fault other record
    intro job hj
    rw [Scheduler.job?_congr (s := m.scheduler.modify other
      (·.withResult env m.scheduler.timezone m.now record)) hjobs] at hj
    by_cases hid : id = other
    · subst hid
      rw [Scheduler.job?_modify_self fun _ => JobEntry.withResult_id] at hj
      obtain ⟨old, hold, rfl⟩ := Option.map_eq_some_iff.1 hj
      obtain ⟨hmax, hcount⟩ := h old hold
      obtain ⟨hmax', hruns⟩ := JobEntry.withResult_maxRuns env m.scheduler.timezone m.now
        record old
      refine ⟨hmax'.trans hmax, ?_⟩
      have hpos : 0 < m.running.count id := List.count_pos_iff.2 hrun
      show sentCount m id = _ + (m.running.erase id).count id
      rw [List.count_erase_self, hruns, hcount, runningCount]
      omega
    · rw [Scheduler.job?_modify_of_ne (fun _ => JobEntry.withResult_id) hid] at hj
      obtain ⟨hmax, hcount⟩ := h job hj
      refine ⟨hmax, ?_⟩
      show sentCount m id = _ + (m.running.erase other).count id
      rw [List.count_erase_of_ne hid]
      exact hcount
  · simp only [machineStep, if_neg hrun]
    exact h

/-- The end of a tick touches neither the cap nor the counter. -/
lemma RunsAccounted.mark (h : RunsAccounted id max m) (fault : SaveFault) :
    RunsAccounted id max (machineStep env m (.mark fault)) := by
  cases ht : m.tick with
  | sent ids =>
    simp only [machineStep, ht]
    intro job hj
    rw [Scheduler.job?_markTick] at hj
    split at hj
    · obtain ⟨old, hold, rfl⟩ := Option.map_eq_some_iff.1 hj
      exact h old hold
    · exact h job hj
  | idle | drained | reloaded =>
    simp only [machineStep, ht]
    exact h

/-- A reload that finds the job as memory has it keeps the account. -/
lemma RunsAccounted.reload (h : RunsAccounted id max m) {unreadable : List String}
    (hU : LeavesJob env id m (.reload unreadable)) :
    RunsAccounted id max (machineStep env m (.reload unreadable)) := by
  by_cases ht : m.tick = .drained
  · simp only [machineStep, if_pos ht]
    intro job hj
    obtain ⟨old, hold, hstate⟩ := (hU ht).2 job hj
    obtain ⟨hmax, hcount⟩ := h old hold
    obtain ⟨hmaxRuns, hruns, -⟩ : old.maxRuns = job.maxRuns ∧ old.completedRuns = job.completedRuns ∧
        (old.enabled, old.deleteAfterRun) = (job.enabled, job.deleteAfterRun) := by
      simpa [JobEntry.capState] using hstate
    exact ⟨hmaxRuns ▸ hmax, hruns ▸ hcount⟩
  · simp only [machineStep, if_neg ht]
    exact h

/-- **The account is kept** by every event that leaves the job alone. -/
lemma RunsAccounted.step (h : RunsAccounted id max m) {e : MachineEvent}
    (hU : LeavesJob env id m e) : RunsAccounted id max (machineStep env m e) := by
  cases e with
  | wait ms => exact h.congr rfl rfl rfl
  | drain fault =>
    simp only [machineStep]
    split
    · rcases job?_drainAutoDelete m.scheduler fault id with hsame | hnone
      · exact h.congr hsame rfl rfl
      · exact runsAccounted_of_none hnone
    · exact h
  | reload unreadable => exact h.reload hU
  | select => exact h.select
  | mark fault => exact h.mark fault
  | report other record fault => exact h.report other record fault
  | add entry freshId fault => exact h.congr (job?_addJob hU) rfl rfl
  | update other u fault => exact h.congr (job?_updateJob hU) rfl rfl
  | remove other runLog fault => exact h.congr (job?_removeJob hU) rfl rfl
  | migrate files fault => exact h.congr (job?_migrateFromMarkdown hU) rfl rfl
  | external root => exact hU.elim
  | restart unreadable => exact hU.elim

/-! ## The stop at the cap -/

/-- A run that brings the job to its cap disables it, unless it is to be deleted. -/
lemma JobEntry.countRun_spent {job : JobEntry} {record : RunRecord} (hmax : job.maxRuns = some max)
    (hspent : max ≤ job.completedRuns + 1) (hdelete : job.deleteAfterRun = false) :
    (job.countRun record).enabled = false := by
  unfold countRun
  simp only
  split
  · split <;> rfl
  · rename_i hroom
    refine absurd ?_ hroom
    simp only [reachedMaxRuns, hmax, hdelete, Bool.not_false, Bool.and_true]
    exact decide_eq_true hspent

/-- The count of a run leaves the deletion of the job as it was ordered. -/
lemma JobEntry.countRun_deleteAfterRun (job : JobEntry) (record : RunRecord) :
    (job.countRun record).deleteAfterRun = job.deleteAfterRun := by
  unfold countRun
  simp only
  split <;> split <;> rfl

/-- **A result stops a spent job**: it is disabled then, or it was to be deleted. -/
lemma JobEntry.withResult_spent (env : SchedulerEnv) (timezone : String) (now : ℤ)
    {record : RunRecord} {job : JobEntry} (hmax : job.maxRuns = some max)
    (hspent : max ≤ job.completedRuns + 1) :
    (job.withResult env timezone now record).enabled = false ∨ job.deleteAfterRun = true ∧
      (job.withResult env timezone now record).deleteAfterRun = true := by
  obtain ⟨hmax', hruns, hdelete, -⟩ := noteAlert_noteRun_cap env timezone now record job
  cases h : job.deleteAfterRun with
  | false => exact .inl (countRun_spent (hmax'.trans hmax) (hruns.symm ▸ hspent) (hdelete.trans h))
  | true => exact .inr ⟨rfl, (countRun_deleteAfterRun _ record).trans (hdelete.trans h)⟩

/-- The stop depends on the jobs and on the place of the tick only. -/
lemma SpentStops.congr {m' : SchedulerMachine} (h : SpentStops id max m)
    (honce : (m'.scheduler.jobs.map (·.id)).count id ≤ (m.scheduler.jobs.map (·.id)).count id)
    (hjob : m'.scheduler.job? id = m.scheduler.job? id) (htick : m'.tick = m.tick) :
    SpentStops id max m' where
  once := honce.trans h.once
  stops := by
    rw [hjob, htick]
    exact h.stops

/-- Jobs of other ids that come in. -/
lemma count_append_of_ne {jobs added : List JobEntry} (h : ∀ j ∈ added, j.id ≠ id) :
    ((jobs ++ added).map (·.id)).count id = (jobs.map (·.id)).count id := by
  rw [List.map_append, List.count_append, Nat.add_eq_left, List.count_eq_zero]
  intro hmem
  obtain ⟨j, hj, hid⟩ := List.mem_map.1 hmem
  exact h j hj hid

/-- Jobs that go. -/
lemma count_filter_le (p : JobEntry → Bool) (jobs : List JobEntry) :
    ((jobs.filter p).map (·.id)).count id ≤ (jobs.map (·.id)).count id :=
  (List.filter_sublist.map _).count_le _

/-- A change of jobs in memory leaves their ids. -/
lemma ids_foldl_modify {f : JobEntry → JobEntry} (hf : ∀ j, (f j).id = j.id) (ids : List String)
    (s : Scheduler) :
    (ids.foldl (fun s id => s.modify id f) s).jobs.map (·.id) = s.jobs.map (·.id) := by
  induction ids generalizing s with
  | nil => rfl
  | cons i ids ih => exact (ih (s.modify i f)).trans (FirstMatch.map_key_update hf)

/-- The end of a tick leaves the ids. -/
lemma ids_markTick (s : Scheduler) (now : ℤ) (fault : SaveFault) (ids : List String) :
    (s.markTick env now fault ids).jobs.map (·.id) = s.jobs.map (·.id) := by
  unfold Scheduler.markTick
  split
  · rfl
  · exact ids_foldl_modify (f := (·.ticked env s.timezone now)) (fun _ => rfl) ids s

/-- **A tick begins**: the spent jobs that are to be deleted go, so that what is left at its cap is
disabled. -/
lemma SpentStops.drain (h : SpentStops id max m) (hmax : ∀ job ∈ m.scheduler.job? id,
    job.maxRuns = some max) (fault : SaveFault) :
    SpentStops id max (machineStep env m (.drain fault)) := by
  by_cases ht : m.tick = .idle
  · simp only [machineStep, if_pos ht]
    have honce : ((m.scheduler.drainAutoDelete fault).2.jobs.map (·.id)).count id ≤ 1 := by
      unfold Scheduler.drainAutoDelete
      simp only
      split
      · exact h.once
      · exact (count_filter_le _ _).trans h.once
    refine ⟨honce, fun job hj hspent => ?_⟩
    rcases job?_drainAutoDelete m.scheduler fault id with hsame | hnone
    · have hold : m.scheduler.job? id = some job := hsame.symm.trans hj
      rcases h.stops job hold hspent with hoff | ⟨hdelete, -⟩
      · exact .inl hoff
      · -- a spent job of this id would have been deleted
        have hisSpent : job.isSpent = true := by
          simp only [JobEntry.isSpent, JobEntry.reachedMaxRuns, hmax job hold, hdelete, Bool.and_true]
          exact decide_eq_true hspent
        have hmem : id ∈ (m.scheduler.jobs.filter JobEntry.isSpent).map (·.id) :=
          List.mem_map.2 ⟨job, List.mem_filter.2 ⟨Scheduler.job?_mem hold, hisSpent⟩,
            Scheduler.job?_id hold⟩
        have hgone : (m.scheduler.drainAutoDelete fault).2.job? id = none := by
          unfold Scheduler.drainAutoDelete
          simp only [if_neg (List.ne_nil_of_mem hmem)]
          refine Scheduler.job?_filter_none _ fun j _ hid => ?_
          rw [hid]
          exact decide_eq_false fun hnot => hnot hmem
        rw [hgone] at hj
        cases hj
    · rw [hnone] at hj
      cases hj
  · simp only [machineStep, if_neg ht]
    exact h

/-- A reload that finds the job as memory has it. -/
lemma SpentStops.reload (h : SpentStops id max m) {unreadable : List String}
    (hU : LeavesJob env id m (.reload unreadable)) :
    SpentStops id max (machineStep env m (.reload unreadable)) := by
  by_cases ht : m.tick = .drained
  · simp only [machineStep, if_pos ht]
    obtain ⟨honce, hsame⟩ := hU ht
    refine ⟨honce, fun job hj hspent => ?_⟩
    obtain ⟨old, hold, hstate⟩ := hsame job hj
    obtain ⟨-, hruns, henabled, -⟩ : old.maxRuns = job.maxRuns ∧
        old.completedRuns = job.completedRuns ∧ old.enabled = job.enabled ∧
          old.deleteAfterRun = job.deleteAfterRun := by
      simpa [JobEntry.capState] using hstate
    rcases h.stops old hold (hruns ▸ hspent) with hoff | ⟨-, hnot, -⟩
    · exact .inl (henabled ▸ hoff)
    · exact absurd ht hnot
  · simp only [machineStep, if_neg ht]
    exact h

/-- A tick that sends leaves the jobs. -/
lemma SpentStops.select (h : SpentStops id max m) :
    SpentStops id max (machineStep env m .select) := by
  by_cases ht : m.tick = .reloaded
  · simp only [machineStep, if_pos ht]
    refine ⟨h.once, fun job hj hspent => (h.stops job hj hspent).imp_right ?_⟩
    exact fun hdelete => absurd ht hdelete.2.2
  · simp only [machineStep, if_neg ht]
    exact h

/-- The end of a tick leaves the counter and the flags. -/
lemma SpentStops.mark (h : SpentStops id max m) (fault : SaveFault) :
    SpentStops id max (machineStep env m (.mark fault)) := by
  cases ht : m.tick with
  | sent ids =>
    simp only [machineStep, ht]
    refine ⟨(ids_markTick m.scheduler m.now fault ids).symm ▸ h.once, fun job hj hspent => ?_⟩
    rw [Scheduler.job?_markTick] at hj
    have hstops : ∀ old ∈ m.scheduler.job? id, max ≤ old.completedRuns →
        old.enabled = false ∨ old.deleteAfterRun = true := fun old hold hle =>
      (h.stops old hold hle).imp_right And.left
    split at hj
    · obtain ⟨old, hold, rfl⟩ := Option.map_eq_some_iff.1 hj
      exact (hstops old hold hspent).imp_right fun hdelete => ⟨hdelete, by simp⟩
    · exact (hstops job hj hspent).imp_right fun hdelete => ⟨hdelete, by simp⟩
  | idle | drained | reloaded =>
    simp only [machineStep, ht]
    exact h

/-- **A report** that brings the job to its cap disables it, or comes before the deletions of the next
tick. -/
lemma SpentStops.report (h : SpentStops id max m) (hmax : ∀ job ∈ m.scheduler.job? id,
    job.maxRuns = some max) {other : String} {record : RunRecord} {fault : SaveFault}
    (hC : StartsReported env id m (.report other record fault)) :
    SpentStops id max (machineStep env m (.report other record fault)) := by
  by_cases hrun : other ∈ m.running
  · simp only [machineStep, if_pos hrun]
    have hjobs := Scheduler.markRunResult_jobs env m.scheduler m.now fault other record
    refine ⟨?_, fun job hj hspent => ?_⟩
    · rw [hjobs, FirstMatch.map_key_update fun _ => JobEntry.withResult_id]
      exact h.once
    rw [Scheduler.job?_congr (s := m.scheduler.modify other
      (·.withResult env m.scheduler.timezone m.now record)) hjobs] at hj
    by_cases hid : id = other
    · subst hid
      rw [Scheduler.job?_modify_self fun _ => JobEntry.withResult_id] at hj
      obtain ⟨old, hold, rfl⟩ := Option.map_eq_some_iff.1 hj
      obtain ⟨-, hruns⟩ := JobEntry.withResult_maxRuns env m.scheduler.timezone m.now record old
      have hspent' : max ≤ old.completedRuns + 1 := hruns ▸ hspent
      have hstops : (old.withResult env m.scheduler.timezone m.now record).enabled = false ∨ _ :=
        JobEntry.withResult_spent env m.scheduler.timezone m.now (hmax old hold) hspent'
      rcases hstops with hoff | ⟨hdelete, hdelete'⟩
      · exact .inl hoff
      · refine .inr ⟨hdelete', fun ht => ?_, fun ht => ?_⟩
        · exact absurd (hC rfl (.inl ht) old hold hdelete max (hmax old hold)) (Nat.not_lt.2 hspent')
        · exact absurd (hC rfl (.inr ht) old hold hdelete max (hmax old hold)) (Nat.not_lt.2 hspent')
    · rw [Scheduler.job?_modify_of_ne (fun _ => JobEntry.withResult_id) hid] at hj
      exact h.stops job hj hspent
  · simp only [machineStep, if_neg hrun]
    exact h

/-- **A spent job stops** after every event that leaves the job alone and is in time. -/
lemma SpentStops.step (h : SpentStops id max m) (hmax : ∀ job ∈ m.scheduler.job? id,
    job.maxRuns = some max) {e : MachineEvent} (hU : LeavesJob env id m e)
    (hC : StartsReported env id m e) : SpentStops id max (machineStep env m e) := by
  cases e with
  | wait ms => exact h.congr le_rfl rfl rfl
  | drain fault => exact h.drain hmax fault
  | reload unreadable => exact h.reload hU
  | select => exact h.select
  | mark fault => exact h.mark fault
  | report other record fault => exact h.report hmax hC
  | add entry freshId fault =>
    refine h.congr ?_ (job?_addJob hU) rfl
    simp only [machineStep, Scheduler.addJob]
    split
    · exact le_rfl
    · exact (count_append_of_ne fun j hj => List.mem_singleton.1 hj ▸ hU).le
  | update other u fault =>
    obtain ⟨f, hjobs, hf⟩ := Scheduler.updateJob_jobs env m.scheduler m.now fault other u
    have hid : ∀ j, (f j).id = j.id := by
      rcases hf with ⟨rfl, -⟩ | ⟨-, rfl⟩ <;> intro j <;> simp
    refine h.congr (le_of_eq ?_) (job?_updateJob hU) rfl
    simp only [machineStep, hjobs]
    rw [FirstMatch.map_key_update hid]
  | remove other runLog fault =>
    refine h.congr ?_ (job?_removeJob hU) rfl
    simp only [machineStep, Scheduler.removeJob]
    split
    · exact le_rfl
    · exact count_filter_le _ _
  | migrate files fault =>
    refine h.congr ?_ (job?_migrateFromMarkdown hU) rfl
    obtain ⟨added, heq, hadded⟩ := migrateFiles_append files m.scheduler.jobs
    simp only [machineStep, Scheduler.migrateFromMarkdown]
    split
    · refine ((congrArg (fun jobs => (jobs.map JobEntry.id).count id) heq).trans
        (count_append_of_ne fun j hj => ?_)).le
      obtain ⟨f, hf, schedule, -, -, -, rfl⟩ := hadded j hj
      exact hU f hf
    · exact le_rfl
  | external root => exact hU.elim
  | restart unreadable => exact hU.elim

/-! ## The cap -/

/-- Only a tick that sends adds triggers. -/
lemma sentCount_step {e : MachineEvent} (he : e ≠ .select) :
    sentCount (machineStep env m e) id = sentCount m id := by
  have hsent : (machineStep env m e).sent = m.sent := by
    cases e with
    | select => exact absurd rfl he
    | wait ms => rfl
    | drain fault =>
      simp only [machineStep]
      split <;> rfl
    | reload unreadable =>
      simp only [machineStep]
      split <;> rfl
    | mark fault =>
      simp only [machineStep]
      split <;> rfl
    | report other record fault =>
      simp only [machineStep]
      split <;> rfl
    | add entry freshId fault => rfl
    | update other u fault => rfl
    | remove other runLog fault => rfl
    | migrate files fault => rfl
    | external root => rfl
    | restart unreadable => rfl
  rw [sentCount, hsent, sentCount]

/-- A job that is in memory once is sent once. -/
lemma dueCount_le_one (honce : (m.scheduler.jobs.map (·.id)).count id ≤ 1) :
    dueCount env m id ≤ 1 := by
  have hle : (m.scheduler.dueJobs env m.now).countP (·.id = id) ≤
      m.scheduler.jobs.countP (·.id = id) := List.filter_sublist.countP_le
  rw [List.count, List.countP_map] at honce
  refine hle.trans (le_trans (le_of_eq ?_) honce)
  exact List.countP_congr fun j _ => by simp

/-- The entry that is due is the one that is found, and it is enabled. -/
lemma enabled_of_dueCount (honce : (m.scheduler.jobs.map (·.id)).count id ≤ 1)
    (hdue : 0 < dueCount env m id) : ∃ job, m.scheduler.job? id = some job ∧ job.enabled = true := by
  obtain ⟨j, hj, hid⟩ := List.countP_pos_iff.1 hdue
  obtain ⟨hmem, hisDue⟩ := List.mem_filter.1 hj
  obtain ⟨job, hjob⟩ := job?_of_dueCount hdue
  have hsame : job = j := by
    obtain ⟨pre, suf, hsplit⟩ := List.append_of_mem (Scheduler.job?_mem hjob)
    rw [hsplit] at honce hmem
    rcases List.mem_append.1 hmem with hpre | hsuf
    · have hcount : 0 < (pre.map (·.id)).count id :=
        List.count_pos_iff.2 (List.mem_map.2 ⟨j, hpre, by simpa using hid⟩)
      rw [List.map_append, List.count_append, List.map_cons, Scheduler.job?_id hjob,
        List.count_cons_self] at honce
      omega
    · rcases List.mem_cons.1 hsuf with heq | hsuf
      · exact heq.symm
      · have hcount : 0 < (suf.map (·.id)).count id :=
          List.count_pos_iff.2 (List.mem_map.2 ⟨j, hsuf, by simpa using hid⟩)
        rw [List.map_append, List.count_append, List.map_cons, Scheduler.job?_id hjob,
          List.count_cons_self] at honce
        omega
  refine ⟨job, hjob, ?_⟩
  unfold JobEntry.isDue at hisDue
  simp only [Bool.and_eq_true] at hisDue
  exact hsame ▸ hisDue.1.1.1

/-- **A tick stays within the cap** if all runs of the job have reported when it finds the job due: a job
at its cap would be disabled or gone. -/
lemma WithinMaxRuns.step (h : RunsAccounted id max m) (hspent : SpentStops id max m)
    (hP : WithinMaxRuns id max m) {e : MachineEvent} (hC : StartsReported env id m e) :
    WithinMaxRuns id max (machineStep env m e) := by
  by_cases he : e = .select
  · subst he
    by_cases ht : m.tick = .reloaded
    · obtain ⟨hsent, -⟩ := sentCount_select env id ht
      unfold WithinMaxRuns at hP ⊢
      rw [hsent]
      by_cases hdue : 0 < dueCount env m id
      · obtain ⟨job, hjob, henabled⟩ := enabled_of_dueCount hspent.once hdue
        obtain ⟨-, hcount⟩ := h job hjob
        have hroom : job.completedRuns < max := by
          by_contra hfull
          rcases hspent.stops job hjob (Nat.not_lt.1 hfull) with hoff | ⟨-, -, hnot⟩
          · exact absurd (henabled.symm.trans hoff) nofun
          · exact hnot ht
        have hone : dueCount env m id ≤ 1 := dueCount_le_one hspent.once
        have hnone := hC ht hdue
        omega
      · omega
    · simp only [machineStep, if_neg ht]
      exact hP
  · unfold WithinMaxRuns at hP ⊢
    rwa [sentCount_step he]

end

/-- The third-party parts on the inputs of the runs below: moments near 1970 are representable, and
the zone is UTC. -/
def plainEnv : SchedulerEnv where
  representable := fun _ => true
  cronAfter := fun _ _ _ => none
  minuteOfDay := fun _ ms => (ms / 60000 % 1440).toNat
  parseUuid := fun _ => none

/-- A job of every minute that may run once. -/
def onceJob : JobEntry :=
  { id := "once"
    schedule := some (.kind (.every 60000))
    prompt := "report"
    name := some "once"
    nextRunAt := some (.moment 60000)
    maxRuns := some 1 }

/-- A process with this job, its directory as it was saved. -/
def withJob (job : JobEntry) (now : ℤ) : SchedulerMachine :=
  startMachine ⟨[job], ⟨[(job.dir, some (.job job))], some 1, none⟩, some 1, "UTC"⟩ now

/-- A record of a run that went well. -/
def okRecord (now : ℤ) : RunRecord := ⟨.moment now, .ok, some "cron", 10, "done", none⟩

end MyClaw
