import MyClaw.Scheduler.MaxRuns

set_option autoImplicit false

/-!
# Due slots

The next run of a job is written by three parties: a tick counts it from the time it marks the job, a
result from the time of the run, an edit from the last run or from now.  None of them looks whether
the slot that is there has been served.  The machine here notes, beside the scheduler, which jobs are
owed a trigger: those that were due, or had a manual trigger accepted, since they were last sent.

## Main definitions

* `DueWorld`, `dueStep` — the machine with the ids that are owed a trigger.
* `TickOrEdit` — the ticks, manual triggers, pauses and results.
* `ServesOwed` — a tick sends every job that is owed a trigger.
* `KeepsSlot` — what an event has to satisfy for that.

## Main results

* `OwedDue.step` — an event that meets the condition leaves the owed jobs due.
* `servesOwed_run` — every tick serves what is owed in a run whose events all meet it.
-/

namespace MyClaw

/-- The scheduler, and the ids of the jobs that are owed a trigger. -/
structure DueWorld where
  machine : SchedulerMachine
  owed : List String

/-- The ids that the tick has sent and not marked yet. -/
def TickPhase.sentIds : TickPhase → List String
  | .sent ids => ids
  | _ => []

/-- The job of an id is enabled. -/
def SchedulerMachine.isEnabled (m : SchedulerMachine) (id : String) : Bool :=
  (m.scheduler.job? id).any (·.enabled)

/-- The ids of the jobs that are due.  A job that the tick at work has just sent is not due again
before the tick has marked it. -/
def dueIds (env : SchedulerEnv) (m : SchedulerMachine) : List String :=
  (m.scheduler.jobs.map (·.id)).filter fun id =>
    (m.scheduler.job? id).any (·.isDue env m.scheduler.timezone m.now) && id ∉ m.tick.sentIds

/-- The ids that the event sends. -/
def sentIds (env : SchedulerEnv) (m : SchedulerMachine) : MachineEvent → List String
  | .select => if m.tick = .reloaded then (m.scheduler.dueJobs env m.now).map (·.id) else []
  | _ => []

/-- The ids whose manual trigger the event accepts. -/
def triggeredIds (env : SchedulerEnv) (m : SchedulerMachine) : MachineEvent → List String
  | .update id u fault =>
    if u.triggerNow && (m.scheduler.updateJob env m.now fault id u).1 = .ok true then [id] else []
  | _ => []

/-- One event: what was owed and is not sent stays owed while the job is enabled. -/
def dueStep (env : SchedulerEnv) (w : DueWorld) (e : MachineEvent) : DueWorld :=
  let m := machineStep env w.machine e
  { machine := m
    owed := (w.owed.filter (· ∉ sentIds env w.machine e) ++ triggeredIds env w.machine e ++
      dueIds env m).filter m.isEnabled }

/-- The start of a run: what is due is owed. -/
def startDue (env : SchedulerEnv) (m : SchedulerMachine) : DueWorld := ⟨m, dueIds env m⟩

/-! ## The property and its condition -/

/-- The event belongs to a tick, is a manual trigger, a pause or a resumption, or the result of a
run. -/
def TickOrEdit : MachineEvent → Prop
  | .wait _ | .drain _ | .reload _ | .select | .mark _ | .report _ _ _ => True
  | .update _ u _ => u.triggerNow = true ∨ ∃ enabled, u = { enabled := some enabled }
  | _ => False

/-- **No due slot is lost**: a tick sends every job that is owed a trigger, if it is enabled, has a
schedule and is inside its active hours. -/
def ServesOwed (env : SchedulerEnv) (w : DueWorld) : MachineEvent → Prop
  | .select => w.machine.tick = .reloaded → ∀ id ∈ w.owed, ∀ job ∈ w.machine.scheduler.job? id,
    job.enabled = true → job.schedule.isSome = true →
      isActiveHours env job.activeHours (job.zone w.machine.scheduler.timezone) w.machine.now =
        true → id ∈ sentIds env w.machine .select
  | _ => True

instance (env : SchedulerEnv) (w : DueWorld) (e : MachineEvent) :
    Decidable (ServesOwed env w e) := by
  rcases e with _ | _ <;> unfold ServesOwed <;> infer_instance

/-- The run that reports is the last one: the job is a one-shot job, or it comes to its cap and is
kept. -/
def JobEntry.isLastRun (job : JobEntry) : Bool :=
  (job.schedule.map ScheduleSpec.isAt).getD false ||
    (job.maxRuns.any fun m => m ≤ job.completedRuns + 1) && !job.deleteAfterRun

/-- The next run, counted from this last run, is still due. -/
def JobEntry.staysDue (env : SchedulerEnv) (timezone : String) (now : ℤ) (lastRun : Option Stamp)
    (job : JobEntry) : Bool :=
  reached (computeNextRun env job.schedule lastRun (job.zone timezone) now) now

/-- **The slot is kept**: while a job is owed a trigger, a run of it that reports is the last one or
leaves it due, an edit that resumes it leaves it due, so does the mark of a tick, and a reload finds
it due. -/
def KeepsSlot (env : SchedulerEnv) (w : DueWorld) : MachineEvent → Prop
  | .report id record _ => id ∈ w.machine.running → id ∈ w.owed →
    ∀ job ∈ w.machine.scheduler.job? id, job.isLastRun = true ∨
      job.staysDue env w.machine.scheduler.timezone w.machine.now (some record.runAt) = true
  | .update id u _ => u.triggerNow = false → u.enabled = some true → id ∈ w.owed →
    ∀ job ∈ w.machine.scheduler.job? id,
      job.staysDue env w.machine.scheduler.timezone w.machine.now job.lastRunAt = true
  | .mark _ => ∀ id ∈ w.machine.tick.sentIds, id ∈ w.owed →
    ∀ job ∈ w.machine.scheduler.job? id,
      job.staysDue env w.machine.scheduler.timezone w.machine.now
        (some (.moment w.machine.now)) = true
  | .reload unreadable => w.machine.tick = .drained → ∀ id ∈ w.owed,
    ∀ job ∈ (w.machine.scheduler.maybeReload env unreadable).job? id,
      job.enabled = true → job.schedule.isSome = true → job.nextReached w.machine.now = true
  | _ => True

instance (env : SchedulerEnv) (w : DueWorld) (e : MachineEvent) :
    Decidable (KeepsSlot env w e) := by
  rcases e with _ | _ <;> unfold KeepsSlot <;> infer_instance

/-- Every job that is owed a trigger is due, if it is enabled and has a schedule. -/
def OwedDue (w : DueWorld) : Prop :=
  ∀ id ∈ w.owed, ∀ job ∈ w.machine.scheduler.job? id, job.enabled = true →
    job.schedule.isSome = true → job.nextReached w.machine.now = true

section

variable {env : SchedulerEnv} {w : DueWorld} {id : String} {job : JobEntry}

/-! ## What a result writes -/

/-- The cap after one more run. -/
lemma JobEntry.reachedMaxRuns_succ (job : JobEntry) (runs : List RunRecord) :
    { job with lastRuns := runs, completedRuns := job.completedRuns + 1 }.reachedMaxRuns =
      job.maxRuns.any fun m => m ≤ job.completedRuns + 1 := by
  unfold reachedMaxRuns
  cases job.maxRuns <;> rfl

/-- The count of a run disables the job after its last run, and leaves the next run otherwise. -/
lemma JobEntry.countRun_timing (job : JobEntry) (record : RunRecord) :
    (job.isLastRun = true → (job.countRun record).enabled = false) ∧
      (job.isLastRun = false → (job.countRun record).enabled = job.enabled ∧
        (job.countRun record).nextRunAt = job.nextRunAt) ∧
      (job.countRun record).schedule = job.schedule ∧ (job.countRun record).tz = job.tz := by
  unfold countRun isLastRun
  simp only [reachedMaxRuns_succ]
  by_cases hcap : (job.maxRuns.any fun m => m ≤ job.completedRuns + 1) && !job.deleteAfterRun
  · simp only [hcap, if_true]
    by_cases hat : (job.schedule.map ScheduleSpec.isAt).getD false = true <;> simp [hat]
  · rw [Bool.not_eq_true] at hcap
    simp only [hcap, Bool.false_eq_true, if_false]
    by_cases hat : (job.schedule.map ScheduleSpec.isAt).getD false = true <;> simp [hat]

/-- **What a result writes**: it disables the job after its last run; otherwise the job is enabled as
before, and the next run is counted from the time of this one. -/
lemma JobEntry.withResult_timing (env : SchedulerEnv) (job : JobEntry) (timezone : String) (now : ℤ)
    (record : RunRecord) :
    (job.isLastRun = true → (job.withResult env timezone now record).enabled = false) ∧
      (job.isLastRun = false → (job.withResult env timezone now record).enabled = job.enabled ∧
        (job.withResult env timezone now record).nextRunAt =
          computeNextRun env job.schedule (some record.runAt) (job.zone timezone) now) ∧
      (job.withResult env timezone now record).schedule = job.schedule ∧
      (job.withResult env timezone now record).tz = job.tz := by
  obtain ⟨hmax, hruns, hdelete, hschedule, htz, henabled, hnext⟩ :=
    noteAlert_noteRun_cap env timezone now record job
  obtain ⟨hoff, hon, hsame, hsameTz⟩ :=
    countRun_timing ((job.noteRun env timezone now record).noteAlert now) record
  have hlast : ((job.noteRun env timezone now record).noteAlert now).isLastRun = job.isLastRun := by
    unfold isLastRun
    rw [hschedule, hmax, hruns, hdelete]
  rw [hlast] at hoff hon
  refine ⟨hoff, fun h => ?_, hsame.trans hschedule, hsameTz.trans htz⟩
  obtain ⟨he, hn⟩ := hon h
  exact ⟨he.trans henabled, hn.trans hnext⟩

/-! ## One step -/

/-- An id that is owed a trigger after a step was owed before and not sent, or had a manual trigger
accepted, or is due now. -/
lemma mem_owed_dueStep {e : MachineEvent} (h : id ∈ (dueStep env w e).owed) :
    (id ∈ w.owed ∧ id ∉ sentIds env w.machine e ∨ id ∈ triggeredIds env w.machine e ∨
      id ∈ dueIds env (machineStep env w.machine e)) ∧
      (machineStep env w.machine e).isEnabled id = true := by
  have h' := List.mem_filter.1 h
  refine ⟨?_, h'.2⟩
  rcases List.mem_append.1 h'.1 with h₁ | h₁
  · rcases List.mem_append.1 h₁ with h₂ | h₂
    · have h₃ := List.mem_filter.1 h₂
      exact .inl ⟨h₃.1, by simpa using h₃.2⟩
    · exact .inr (.inl h₂)
  · exact .inr (.inr h₁)

/-- What is due has a next run that is reached. -/
lemma nextReached_of_mem_dueIds {m : SchedulerMachine} (h : id ∈ dueIds env m)
    (hj : m.scheduler.job? id = some job) : job.nextReached m.now = true := by
  have h' := (List.mem_filter.1 h).2
  rw [hj, Option.any_some, Bool.and_eq_true] at h'
  have hdue := h'.1
  unfold JobEntry.isDue at hdue
  simp only [Bool.and_eq_true] at hdue
  exact hdue.1.2

/-- **Step rule**: an event leaves the owed jobs due if it leaves those due that it does not send. -/
lemma OwedDue.of_kept {e : MachineEvent}
    (hkept : ∀ id, id ∈ w.owed ∨ id ∈ triggeredIds env w.machine e →
      ∀ job ∈ (machineStep env w.machine e).scheduler.job? id, job.enabled = true →
        job.schedule.isSome = true →
          job.nextReached (machineStep env w.machine e).now = true) :
    OwedDue (dueStep env w e) := by
  intro id hid job hj henabled hschedule
  obtain ⟨hfrom, -⟩ := mem_owed_dueStep hid
  rcases hfrom with ⟨howed, -⟩ | htriggered | hdue
  · exact hkept id (.inl howed) job hj henabled hschedule
  · exact hkept id (.inr htriggered) job hj henabled hschedule
  · exact nextReached_of_mem_dueIds hdue hj

/-- An event that leaves the jobs alone, time passing at most. -/
lemma OwedDue.of_same (h : OwedDue w) {e : MachineEvent}
    (hnone : triggeredIds env w.machine e = [])
    (hjob : ∀ id, (machineStep env w.machine e).scheduler.job? id = w.machine.scheduler.job? id ∨
      (machineStep env w.machine e).scheduler.job? id = none)
    (hnow : w.machine.now ≤ (machineStep env w.machine e).now) : OwedDue (dueStep env w e) := by
  refine OwedDue.of_kept fun id hid job hj henabled hschedule => ?_
  have howed : id ∈ w.owed := by
    rcases hid with hid | hid
    · exact hid
    · rw [hnone] at hid
      cases hid
  rcases hjob id with hsame | hgone
  · rw [hsame] at hj
    exact reached_mono (h id howed job hj henabled hschedule) hnow
  · rw [hgone] at hj
    cases hj

/-- A result, if the job is not owed a trigger or it keeps the slot. -/
lemma OwedDue.report (h : OwedDue w) (other : String) (record : RunRecord) (fault : SaveFault)
    (hC : KeepsSlot env w (.report other record fault)) :
    OwedDue (dueStep env w (.report other record fault)) := by
  by_cases hrun : other ∈ w.machine.running
  · refine OwedDue.of_kept fun id hid job hj henabled hschedule => ?_
    have howed : id ∈ w.owed := hid.resolve_right (by simp [triggeredIds])
    simp only [machineStep, if_pos hrun] at hj ⊢
    rw [Scheduler.job?_congr (s := w.machine.scheduler.modify other
      (·.withResult env w.machine.scheduler.timezone w.machine.now record))
      (Scheduler.markRunResult_jobs env _ _ fault other record)] at hj
    by_cases heq : id = other
    · subst heq
      rw [Scheduler.job?_modify_self fun _ => JobEntry.withResult_id] at hj
      obtain ⟨old, hold, rfl⟩ := Option.map_eq_some_iff.1 hj
      obtain ⟨hoff, hon, -⟩ := JobEntry.withResult_timing env old
        w.machine.scheduler.timezone w.machine.now record
      cases hlast : old.isLastRun with
      | true =>
        rw [hoff hlast] at henabled
        cases henabled
      | false =>
        have hstays := (hC hrun howed old hold).resolve_left (by simp [hlast])
        unfold JobEntry.nextReached
        rw [(hon hlast).2]
        exact hstays
    · rw [Scheduler.job?_modify_of_ne (fun _ => JobEntry.withResult_id) heq] at hj
      exact h id howed job hj henabled hschedule
  · refine h.of_same rfl (fun id => .inl ?_) (le_of_eq ?_)
    · simp only [machineStep, if_neg hrun]
    · simp only [machineStep, if_neg hrun]

/-- A manual trigger, accepted or not, and a pause or resumption that keeps the slot. -/
lemma OwedDue.update (h : OwedDue w) (other : String) (u : JobUpdate) (fault : SaveFault)
    (hL : TickOrEdit (.update other u fault)) (hC : KeepsSlot env w (.update other u fault)) :
    OwedDue (dueStep env w (.update other u fault)) := by
  refine OwedDue.of_kept fun id hid job hj henabled hschedule => ?_
  simp only [machineStep] at hj ⊢
  obtain ⟨f, hjobs, hf⟩ := Scheduler.updateJob_jobs env w.machine.scheduler w.machine.now fault
    other u
  have hfid : ∀ j, (f j).id = j.id := by
    rcases hf with ⟨rfl, -⟩ | ⟨-, rfl⟩ <;> intro j <;> simp
  rw [Scheduler.job?_congr (s := w.machine.scheduler.modify other f) hjobs] at hj
  by_cases heq : id = other
  · subst heq
    rw [Scheduler.job?_modify_self hfid] at hj
    obtain ⟨old, hold, rfl⟩ := Option.map_eq_some_iff.1 hj
    rcases hf with ⟨rfl, hrefused⟩ | ⟨-, rfl⟩
    · rcases hL with htrigger | ⟨enabled, rfl⟩
      · -- a refused trigger leaves the job disabled or without a schedule
        rcases hrefused htrigger old hold with hoff | hnone
        · rw [hoff] at henabled
          cases henabled
        · rw [hnone] at hschedule
          cases hschedule
      · have howed : id ∈ w.owed := hid.resolve_right (by simp [triggeredIds])
        rw [JobUpdate.apply_onlyEnabled] at henabled ⊢
        cases enabled with
        | true =>
          have hstays := hC rfl rfl howed old hold
          simp only [if_true]
          exact hstays
        | false => cases henabled
    · exact reached_now _
  · rw [Scheduler.job?_modify_of_ne hfid heq] at hj
    have howed : id ∈ w.owed := by
      refine hid.resolve_right fun hmem => ?_
      simp only [triggeredIds] at hmem
      split at hmem
      · exact heq (List.mem_singleton.1 hmem)
      · cases hmem
    exact h id howed job hj henabled hschedule

/-- The end of a tick, if it keeps the slots of manual triggers that came after it had sent. -/
lemma OwedDue.mark (h : OwedDue w) (fault : SaveFault) (hC : KeepsSlot env w (.mark fault)) :
    OwedDue (dueStep env w (.mark fault)) := by
  cases ht : w.machine.tick with
  | sent ids =>
    refine OwedDue.of_kept fun id hid job hj henabled hschedule => ?_
    have howed : id ∈ w.owed := hid.resolve_right (by simp [triggeredIds])
    simp only [machineStep, ht] at hj ⊢
    rw [Scheduler.job?_markTick] at hj
    split at hj
    · rename_i hmem
      obtain ⟨old, hold, rfl⟩ := Option.map_eq_some_iff.1 hj
      exact hC id (by rw [ht]; exact hmem) howed old hold
    · exact h id howed job hj henabled hschedule
  | idle | drained | reloaded =>
    refine h.of_same rfl (fun id => .inl ?_) (le_of_eq ?_)
    · simp only [machineStep, ht]
    · simp only [machineStep, ht]

/-- **An event that keeps the slots** leaves the owed jobs due. -/
lemma OwedDue.step (h : OwedDue w) {e : MachineEvent} (hL : TickOrEdit e)
    (hC : KeepsSlot env w e) : OwedDue (dueStep env w e) := by
  cases e with
  | wait ms =>
    refine h.of_same rfl (fun _ => .inl rfl) ?_
    simp [machineStep]
  | drain fault =>
    refine h.of_same rfl (fun id => ?_) (le_of_eq ?_)
    · simp only [machineStep]
      split
      · exact job?_drainAutoDelete _ _ _
      · exact .inl rfl
    · simp only [machineStep]
      split <;> rfl
  | reload unreadable =>
    by_cases ht : w.machine.tick = .drained
    · refine OwedDue.of_kept fun id hid job hj henabled hschedule => ?_
      have howed : id ∈ w.owed := hid.resolve_right (by simp [triggeredIds])
      simp only [machineStep, if_pos ht] at hj ⊢
      exact hC ht id howed job hj henabled hschedule
    · refine h.of_same rfl (fun id => .inl ?_) (le_of_eq ?_)
      · simp only [machineStep, if_neg ht]
      · simp only [machineStep, if_neg ht]
  | select =>
    refine h.of_same rfl (fun id => .inl ?_) (le_of_eq ?_)
    · simp only [machineStep]
      split <;> rfl
    · simp only [machineStep]
      split <;> rfl
  | mark fault => exact h.mark fault hC
  | report other record fault => exact h.report other record fault hC
  | update other u fault => exact h.update other u fault hL hC
  | add entry freshId fault => exact hL.elim
  | remove other runLog fault => exact hL.elim
  | migrate files fault => exact hL.elim
  | external root => exact hL.elim
  | restart unreadable => exact hL.elim

/-- A tick sends the owed jobs that are due. -/
lemma OwedDue.servesOwed (h : OwedDue w) (e : MachineEvent) : ServesOwed env w e := by
  cases e with
  | select =>
    intro ht id hid job hj henabled hschedule hactive
    have hdue : job.isDue env w.machine.scheduler.timezone w.machine.now = true := by
      unfold JobEntry.isDue
      simp [henabled, hschedule, hactive, h id hid job hj henabled hschedule]
    unfold sentIds
    rw [if_pos ht]
    refine List.mem_map.2 ⟨job, List.mem_filter.2 ⟨Scheduler.job?_mem hj, hdue⟩, ?_⟩
    exact Scheduler.job?_id hj
  | _ => trivial

end

/-! ## Runs -/

/-- A job of every ten minutes that is due at the start. -/
def tenMinuteJob : JobEntry :=
  { id := "ten"
    schedule := some (.kind (.every 600000))
    prompt := "report"
    name := some "ten"
    nextRunAt := some (.moment 0) }

end MyClaw
