import MyClaw.Scheduler.MaxRuns

set_option autoImplicit false

/-!
# Edits that fail

An edit changes the jobs in memory before it knows whether it will succeed: an update assigns its
fields before it checks a manual trigger, and every edit saves last.  Nothing is taken back, neither
in memory nor of the files that were written before the one that failed.

## Main definitions

* `JobEdit`, `Scheduler.edit` — the three edits.
* `FailedEditUnchanged` — if the edit fails, memory and disk are as before.
* `JobUpdate.Keeps` — the fields of an update that are set have the values of the job.
* `NothingToTakeBack` — when a failing edit has nothing to take back.

## Main results

* `JobUpdate.assign_eq_self_iff` — an update leaves the job as it is exactly when the job has
  its values.
* `failedEdit_unchanged_iff` — a failing edit changes nothing exactly when it has nothing to
  take back.
-/

namespace MyClaw

/-- An edit of the jobs. -/
inductive JobEdit
  | add (entry : JobEntry) (freshId : String)
  | update (id : String) (u : JobUpdate)
  | remove (id : String) (runLog : List RunRecord)

/-- The error of a result. -/
def errorOf {α : Type} : Except EditError α → Option EditError
  | .ok _ => none
  | .error e => some e

/-- An edit: its error, and the scheduler after it. -/
def Scheduler.edit (env : SchedulerEnv) (s : Scheduler) (now : ℤ) (fault : SaveFault) :
    JobEdit → Option EditError × Scheduler
  | .add entry freshId =>
    let r := s.addJob env now fault entry freshId
    (errorOf r.1, r.2)
  | .update id u =>
    let r := s.updateJob env now fault id u
    (errorOf r.1, r.2)
  | .remove id runLog =>
    let r := s.removeJob fault id runLog
    (errorOf r.1, r.2)

/-- The jobs in memory and the store are as before. -/
def Scheduler.Unchanged (s s' : Scheduler) : Prop :=
  s'.jobs = s.jobs ∧ s'.root.dirs = s.root.dirs ∧ s'.root.legacy = s.root.legacy

instance (s s' : Scheduler) : Decidable (s.Unchanged s') := inferInstanceAs (Decidable (_ ∧ _))

/-- If the edit fails, it changes nothing. -/
def FailedEditUnchanged (env : SchedulerEnv) (s : Scheduler) (now : ℤ) (fault : SaveFault)
    (e : JobEdit) : Prop :=
  (s.edit env now fault e).1.isSome = true → s.Unchanged (s.edit env now fault e).2

instance (env : SchedulerEnv) (s : Scheduler) (now : ℤ) (fault : SaveFault) (e : JobEdit) :
    Decidable (FailedEditUnchanged env s now fault e) := inferInstanceAs (Decidable (_ → _))

/-! ## The condition -/

namespace JobUpdate

/-- The manual trigger is refused: the job comes out disabled or without a schedule. -/
def refuses (u : JobUpdate) (job : JobEntry) : Bool :=
  u.triggerNow && (!u.enabled.getD job.enabled || (u.newSchedule job).isNone)

/-- The next run after the update. -/
def finalNextRun (env : SchedulerEnv) (timezone : String) (now : ℤ) (u : JobUpdate)
    (job : JobEntry) : Option Stamp :=
  if u.triggerNow && !u.refuses job then some (.moment now) else u.newNextRun env timezone now job

/-- The job has the values that the update assigns, and this next run. -/
structure Keeps (u : JobUpdate) (nextRunAt : Option Stamp) (job : JobEntry) : Prop where
  schedule : u.scheduleChanged = true → job.schedule = u.schedule.join
  prompt : ∀ x ∈ u.prompt, job.prompt = x
  name : ∀ x ∈ u.name, job.name = some x
  tz : ∀ x ∈ u.tz, job.tz = some x
  activeHours : ∀ x ∈ u.activeHours, job.activeHours = some x
  enabled : ∀ x ∈ u.enabled, job.enabled = x
  nextRun : job.nextRunAt = nextRunAt
  delivery : ∀ x ∈ u.delivery, job.delivery = x
  enabledTools : ∀ x ∈ u.enabledTools, job.enabledTools = some x
  disabledTools : ∀ x ∈ u.disabledTools, job.disabledTools = some x
  retry : ∀ x ∈ u.retry, job.retry = some x
  failureAlert : ∀ x ∈ u.failureAlert, job.failureAlert = some x
  maxRuns : ∀ x ∈ u.maxRuns, job.maxRuns = x
  deleteAfterRun : ∀ x ∈ u.deleteAfterRun, job.deleteAfterRun = x
  model : ∀ x ∈ u.model, job.model = x
  provider : ∀ x ∈ u.provider, job.provider = x
  webhook : u.webhookChanged = true → job.webhook = u.webhook.join

end JobUpdate

/-- The file operations of a save that fails. -/
def SaveFault.done (fault : SaveFault) (jobs : List JobEntry) : List StoreOp :=
  (saveOps jobs).take (fault.failsAfter.getD 0)

/-- **Nothing to take back**: a new job is refused for its name or saved; a job that is there to be
removed is saved away; an update of a job that is there finds its values in the job if the trigger is
refused or the save fails, and a save that fails has changed no file before. -/
def NothingToTakeBack (env : SchedulerEnv) (s : Scheduler) (now : ℤ) (fault : SaveFault) :
    JobEdit → Prop
  | .add entry _ =>
    isBlank (entry.name.getD "") = true ∨ fault.fails (s.jobs ++ [entry]) = false
  | .update id u => ∀ job ∈ s.job? id,
    u.refuses job = true ∨ fault.fails s.jobs = true →
      u.Keeps (u.finalNextRun env s.timezone now job) job ∧
        (u.refuses job = false → ChangesNothing s.root (fault.done s.jobs))
  | .remove id _ =>
    s.job? id = none ∨ fault.fails (s.jobs.filter (·.id ≠ id)) = false

/-! ## Fields that stay -/

section

variable {α : Type} {a b : Option α} {x y : α}

/-- A value is put first in vain if it is the other one. -/
lemma or_eq_right_iff : a.or b = b ↔ ∀ x ∈ a, b = some x := by
  cases a with
  | none => simp
  | some x => simp [eq_comm]

/-- The same of a default. -/
lemma getD_eq_right_iff : a.getD y = y ↔ ∀ x ∈ a, y = x := by
  cases a with
  | none => simp
  | some x => simp [eq_comm]

lemma ite_eq_right_iff' {c : Bool} : (if c then x else y) = y ↔ (c = true → y = x) := by
  cases c <;> simp [eq_comm]

end

namespace JobUpdate

variable {u : JobUpdate} {job : JobEntry} {nextRunAt : Option Stamp}

/-- **An update leaves the job as it is** exactly when the job has its values. -/
lemma assign_eq_self_iff : u.assign nextRunAt job = job ↔ u.Keeps nextRunAt job := by
  unfold assign newSchedule
  rw [JobEntry.mk.injEq]
  simp only [or_eq_right_iff, getD_eq_right_iff, ite_eq_right_iff', true_and, and_true]
  constructor
  · rintro ⟨hschedule, hprompt, hname, htz, hhours, henabled, hnext, hdelivery, hon, hoff, hretry,
      halert, hmax, hdelete, hmodel, hprovider, hwebhook⟩
    exact ⟨hschedule, hprompt, hname, htz, hhours, henabled, hnext.symm, hdelivery, hon, hoff,
      hretry, halert, hmax, hdelete, hmodel, hprovider, hwebhook⟩
  · intro h
    exact ⟨h.schedule, h.prompt, h.name, h.tz, h.activeHours, h.enabled, h.nextRun.symm,
      h.delivery, h.enabledTools, h.disabledTools, h.retry, h.failureAlert, h.maxRuns,
      h.deleteAfterRun, h.model, h.provider, h.webhook⟩

end JobUpdate

/-! ## Saves that fail -/

/-- Whether a save fails depends on how many jobs it writes only. -/
lemma SaveFault.fails_congr {fault : SaveFault} {jobs jobs' : List JobEntry}
    (h : jobs.length = jobs'.length) : fault.fails jobs = fault.fails jobs' := by
  have hops : ∀ l : List JobEntry, (saveOps l).length = 2 * l.length + 1 := by
    intro l
    unfold saveOps
    induction l with
    | nil => rfl
    | cons job l ih =>
      simp only [List.length_cons, List.flatMap_cons, List.length_append] at ih ⊢
      simp only [List.length_nil]
      omega
  unfold fails
  rw [hops, hops, h]

namespace Scheduler

variable {env : SchedulerEnv} {s t : Scheduler} {now : ℤ} {fault : SaveFault} {id : String}

/-- A save reports its fault. -/
lemma errorOf_saved {α : Type} (result : α) :
    (errorOf (t.saved fault result).1).isSome = fault.fails t.jobs := by
  unfold saved save
  cases hf : fault.fails t.jobs with
  | true =>
    rw [saveToDisk_failed hf]
    rfl
  | false =>
    rw [saveToDisk_ok hf]
    rfl

/-- The store after a save that fails. -/
lemma saved_root_of_fails {α : Type} (result : α) (hf : fault.fails t.jobs = true) :
    (t.saved fault result).2.root = runAll t.root (fault.done t.jobs) := by
  unfold saved save
  rw [saveToDisk_failed hf]
  rfl

end Scheduler

/-- File operations leave the legacy file. -/
lemma legacy_runAll (r : JobsRoot) (ops : List StoreOp) : (runAll r ops).legacy = r.legacy := by
  unfold runAll
  induction ops generalizing r with
  | nil => rfl
  | cons op ops ih =>
    rw [List.foldl_cons, ih]
    cases op with
    | createRoot => rfl
    | mkdir d =>
      simp only [StoreOp.run]
      split <;> rfl
    | write d job => rfl

/-- **A change in memory that is then saved**: if the save fails, memory and store are as before
exactly when the change is none and the files written before the failure are as before. -/
lemma failedSave_unchanged_iff {α : Type} (s t : Scheduler) (fault : SaveFault) (result : α)
    (hroot : t.root = s.root) :
    ((errorOf (t.saved fault result).1).isSome = true → s.Unchanged (t.saved fault result).2) ↔
      (fault.fails t.jobs = true →
        t.jobs = s.jobs ∧ ChangesNothing s.root (fault.done t.jobs)) := by
  rw [Scheduler.errorOf_saved]
  refine imp_congr_right fun hf => ?_
  unfold Scheduler.Unchanged
  rw [Scheduler.saved_jobs, Scheduler.saved_root_of_fails result hf, hroot, dirs_runAll_eq_iff,
    legacy_runAll]
  exact and_congr_right fun _ => and_iff_left rfl

/-! ## The three edits -/

section

variable {env : SchedulerEnv} {s : Scheduler} {now : ℤ} {fault : SaveFault}

/-- A job with a name is added and saved. -/
lemma addJob_eq (env : SchedulerEnv) (s : Scheduler) (now : ℤ) (fault : SaveFault)
    (entry : JobEntry) (freshId : String) (h : ¬ isBlank (entry.name.getD "") = true) :
    ∃ added id, s.addJob env now fault entry freshId =
      { s with jobs := s.jobs ++ [added] }.saved fault id := by
  unfold Scheduler.addJob
  rw [if_neg h]
  exact ⟨_, _, rfl⟩

/-- A failed addition. -/
lemma failedAdd_unchanged_iff (entry : JobEntry) (freshId : String) :
    FailedEditUnchanged env s now fault (.add entry freshId) ↔
      NothingToTakeBack env s now fault (.add entry freshId) := by
  unfold FailedEditUnchanged
  simp only [NothingToTakeBack, Scheduler.edit]
  by_cases hblank : isBlank (entry.name.getD "") = true
  · refine iff_of_true (fun _ => ?_) (.inl hblank)
    simp only [Scheduler.addJob, if_pos hblank]
    exact ⟨rfl, rfl, rfl⟩
  · obtain ⟨added, id, heq⟩ := addJob_eq env s now fault entry freshId hblank
    simp only [heq]
    refine (failedSave_unchanged_iff s { s with jobs := s.jobs ++ [added] } fault id rfl).trans ?_
    have hlen : fault.fails (s.jobs ++ [added]) = fault.fails (s.jobs ++ [entry]) :=
      SaveFault.fails_congr (by simp)
    have hmore : s.jobs ++ [added] ≠ s.jobs := by simp
    simp [hlen, hmore, hblank]

/-- A failed removal. -/
lemma failedRemove_unchanged_iff (id : String) (runLog : List RunRecord) :
    FailedEditUnchanged env s now fault (.remove id runLog) ↔
      NothingToTakeBack env s now fault (.remove id runLog) := by
  unfold FailedEditUnchanged
  simp only [NothingToTakeBack, Scheduler.edit, Scheduler.removeJob]
  cases hjob : s.job? id with
  | none => simp [errorOf]
  | some job =>
    refine (failedSave_unchanged_iff s { s with jobs := s.jobs.filter (·.id ≠ id) } fault
      (some (JobRemovalAudit.capture id job.name runLog)) rfl).trans ?_
    have hless : s.jobs.filter (·.id ≠ id) ≠ s.jobs := by
      intro heq
      have hkept := List.filter_eq_self.1 heq job (Scheduler.job?_mem hjob)
      simp [Scheduler.job?_id hjob] at hkept
    simp only [hless, false_and, imp_false, Bool.not_eq_true, reduceCtorEq, false_or]

/-- **An update** of a job that is there assigns its fields, and then refuses the trigger or saves. -/
lemma updateJob_eq (env : SchedulerEnv) (now : ℤ) (fault : SaveFault) {id : String} (u : JobUpdate)
    {job : JobEntry} (hjob : s.job? id = some job) :
    (u.refuses job = true → ∃ e, s.updateJob env now fault id u =
        (.error e, s.modify id fun _ => u.assign (u.finalNextRun env s.timezone now job) job)) ∧
      (u.refuses job = false → s.updateJob env now fault id u =
        (s.modify id fun _ => u.assign (u.finalNextRun env s.timezone now job) job).saved fault
          true) := by
  have hmodify : ∀ f : JobEntry → JobEntry,
      f job = u.assign (u.finalNextRun env s.timezone now job) job →
        s.modify id f
          = s.modify id fun _ => u.assign (u.finalNextRun env s.timezone now job) job := by
    intro f hf
    unfold Scheduler.modify
    rw [FirstMatch.update_congr
      (g := fun _ => u.assign (u.finalNextRun env s.timezone now job) job) hjob hf]
  unfold Scheduler.updateJob
  rw [hjob]
  have hon : (u.apply env s.timezone now job).enabled = u.enabled.getD job.enabled :=
    JobUpdate.apply_enabled
  have hschedule : (u.apply env s.timezone now job).schedule = u.newSchedule job :=
    JobUpdate.apply_schedule
  cases htrigger : u.triggerNow with
  | false =>
    have hsame : u.finalNextRun env s.timezone now job = u.newNextRun env s.timezone now job := by
      simp [JobUpdate.finalNextRun, htrigger]
    have hrefuses : u.refuses job = false := by simp [JobUpdate.refuses, htrigger]
    rw [hmodify (u.apply env s.timezone now) (by rw [hsame]; exact JobUpdate.apply_eq_assign)]
    simp [hrefuses]
  | true =>
    cases hrefuses : u.refuses job with
    | true =>
      have hsame : u.finalNextRun env s.timezone now job = u.newNextRun env s.timezone now job := by
        simp [JobUpdate.finalNextRun, hrefuses]
      rw [hmodify (u.apply env s.timezone now) (by rw [hsame]; exact JobUpdate.apply_eq_assign)]
      refine ⟨fun _ => ?_, (nomatch ·)⟩
      simp only [if_true]
      split
      · exact ⟨_, rfl⟩
      · split
        · exact ⟨_, rfl⟩
        · rename_i hoff hnone
          rw [hon] at hoff
          rw [hschedule] at hnone
          simp [JobUpdate.refuses, htrigger, hoff, hnone] at hrefuses
    | false =>
      have hnow : u.finalNextRun env s.timezone now job = some (.moment now) := by
        simp [JobUpdate.finalNextRun, htrigger, hrefuses]
      obtain ⟨henabled, hsome⟩ :
          u.enabled.getD job.enabled = true ∧ (u.newSchedule job).isNone = false := by
        simpa [JobUpdate.refuses, htrigger] using hrefuses
      have haccepted := hmodify
        (fun job => { u.apply env s.timezone now job with nextRunAt := some (.moment now) })
        (by rw [hnow, JobUpdate.apply_eq_assign]; rfl)
      refine ⟨(nomatch ·), fun _ => ?_⟩
      rw [← haccepted]
      simp [henabled, hsome]

/-- A failed update changes nothing exactly if nothing is to be taken back. -/
lemma failedUpdate_unchanged_iff (id : String) (u : JobUpdate) :
    FailedEditUnchanged env s now fault (.update id u) ↔
      NothingToTakeBack env s now fault (.update id u) := by
  unfold FailedEditUnchanged
  simp only [NothingToTakeBack, Scheduler.edit]
  cases hjob : s.job? id with
  | none => simp [Scheduler.updateJob, hjob, errorOf]
  | some job =>
    have hkeeps : (s.modify id fun _ => u.assign (u.finalNextRun env s.timezone now job) job).jobs =
        s.jobs ↔ u.Keeps (u.finalNextRun env s.timezone now job) job := by
      rw [Scheduler.modify_jobs, FirstMatch.update_eq_self_iff hjob, JobUpdate.assign_eq_self_iff]
    obtain ⟨hrefused, hsaved⟩ := updateJob_eq env now fault u hjob
    cases hrefuses : u.refuses job with
    | true =>
      obtain ⟨e, heq⟩ := hrefused hrefuses
      rw [heq]
      simp only [errorOf, Option.isSome_some, true_implies, Scheduler.Unchanged, hkeeps]
      constructor
      · rintro ⟨hkeep, -, -⟩ old hold -
        obtain rfl := Option.some.inj hold
        exact ⟨hkeep, fun h => by rw [hrefuses] at h; cases h⟩
      · intro h
        exact ⟨(h job rfl (.inl hrefuses)).1, rfl, rfl⟩
    | false =>
      rw [hsaved hrefuses]
      refine (failedSave_unchanged_iff s
        (s.modify id fun _ => u.assign (u.finalNextRun env s.timezone now job) job) fault true
        rfl).trans ?_
      have hfails : fault.fails (s.modify id fun _ =>
          u.assign (u.finalNextRun env s.timezone now job) job).jobs = fault.fails s.jobs :=
        SaveFault.fails_congr FirstMatch.length_update
      rw [hfails]
      constructor
      · intro h old hold hcase
        obtain rfl := Option.some.inj hold
        obtain ⟨hsame, hnothing⟩ :=
          h (hcase.resolve_left (by rw [hrefuses]; exact Bool.false_ne_true))
        rw [hsame] at hnothing
        exact ⟨hkeeps.1 hsame, fun _ => hnothing⟩
      · intro h hf
        obtain ⟨hkeep, hnothing⟩ := h job rfl (.inr hf)
        have hsame := hkeeps.2 hkeep
        rw [hsame]
        exact ⟨rfl, hnothing hrefuses⟩

/-- **A failing edit changes nothing** exactly when it has nothing to take back. -/
theorem failedEdit_unchanged_iff (env : SchedulerEnv) (s : Scheduler) (now : ℤ)
    (fault : SaveFault) (e : JobEdit) :
    FailedEditUnchanged env s now fault e ↔ NothingToTakeBack env s now fault e := by
  cases e with
  | add entry freshId => exact failedAdd_unchanged_iff entry freshId
  | update id u => exact failedUpdate_unchanged_iff id u
  | remove id runLog => exact failedRemove_unchanged_iff id runLog

end

/-- **Edits that fail and leave something behind**: a refused trigger leaves the job paused with a new
prompt; a job that cannot be saved stays in memory; and a job whose removal cannot be saved is gone
from memory. -/
theorem failed_edit_changes :
    ¬ FailedEditUnchanged plainEnv (withJob onceJob 0).scheduler 0 {}
        (.update "once" { prompt := some "other", enabled := some false, triggerNow := true }) ∧
      ¬ FailedEditUnchanged plainEnv (withJob onceJob 0).scheduler 0 { failsAfter := some 0 }
        (.add { onceJob with id := "second" } "") ∧
      ¬ FailedEditUnchanged plainEnv (withJob onceJob 0).scheduler 0 { failsAfter := some 0 }
        (.remove "once" []) := by
  decide +kernel

end MyClaw
