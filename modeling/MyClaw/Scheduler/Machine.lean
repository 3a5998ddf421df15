import MyClaw.Lib.Run
import MyClaw.Scheduler.Core

set_option autoImplicit false

/-!
# The scheduler as a machine

A tick takes the lock several times: it drops the jobs that are spent, reloads, collects the due jobs
and lets the lock go to send them, and then marks them.  Runs report their results, and edits come
in, between any two of these.

## Main definitions

* `TickPhase`, `SchedulerMachine` — how far the tick has come, and the machine.
* `MachineEvent`, `machineStep` — its events.
* `sentCount`, `runningCount` — the triggers sent for a job, and its runs that have not
  reported.

## Main results

* `sentCount_select` — what a tick adds to the triggers of a job.
-/

namespace MyClaw

/-- How far a tick has come. -/
inductive TickPhase
  | idle
  /-- Spent jobs have been deleted. -/
  | drained
  /-- The jobs have been reloaded if the root had changed. -/
  | reloaded
  /-- The due jobs, those of these ids, have been sent. -/
  | sent (ids : List String)
  deriving DecidableEq

/-- The scheduler with its clock in milliseconds, its tick, the triggers it has sent, and the jobs of
the runs that have not reported. -/
structure SchedulerMachine where
  scheduler : Scheduler
  now : ℤ
  tick : TickPhase
  sent : List CronTrigger
  running : List String

/-- What happens to the scheduler. -/
inductive MachineEvent
  /-- Time passes. -/
  | wait (ms : ℕ)
  /-- A tick begins with `drain_auto_delete`. -/
  | drain (fault : SaveFault)
  /-- The tick calls `maybe_reload`. -/
  | reload (unreadable : List String)
  /-- The tick collects the due jobs and sends them. -/
  | select
  /-- The tick marks the jobs it has sent. -/
  | mark (fault : SaveFault)
  /-- A run reports its result. -/
  | report (id : String) (record : RunRecord) (fault : SaveFault)
  | add (entry : JobEntry) (freshId : String) (fault : SaveFault)
  | update (id : String) (u : JobUpdate) (fault : SaveFault)
  | remove (id : String) (runLog : List RunRecord) (fault : SaveFault)
  | migrate (files : List (String × MarkdownJob)) (fault : SaveFault)
  /-- Someone else changes the root. -/
  | external (root : JobsRoot)
  /-- The process ends, and a new one loads the root. -/
  | restart (unreadable : List String)
  deriving DecidableEq

/-- One event. -/
def machineStep (env : SchedulerEnv) (m : SchedulerMachine) : MachineEvent → SchedulerMachine
  | .wait ms => { m with now := m.now + ms }
  | .drain fault =>
    if m.tick = .idle then
      { m with scheduler := (m.scheduler.drainAutoDelete fault).2, tick := .drained }
    else m
  | .reload unreadable =>
    if m.tick = .drained then
      { m with scheduler := m.scheduler.maybeReload env unreadable, tick := .reloaded }
    else m
  | .select =>
    if m.tick = .reloaded then
      let due := m.scheduler.dueJobs env m.now
      { m with
        tick := .sent (due.map (·.id))
        sent := m.sent ++ due.map (·.trigger env)
        running := m.running ++ due.map (·.id) }
    else m
  | .mark fault =>
    match m.tick with
    | .sent ids =>
      { m with scheduler := m.scheduler.markTick env m.now fault ids, tick := .idle }
    | _ => m
  | .report id record fault =>
    if id ∈ m.running then
      { m with
        scheduler := (m.scheduler.markRunResult env m.now fault id record).2
        running := m.running.erase id }
    else m
  | .add entry freshId fault =>
    { m with scheduler := (m.scheduler.addJob env m.now fault entry freshId).2 }
  | .update id u fault =>
    { m with scheduler := (m.scheduler.updateJob env m.now fault id u).2 }
  | .remove id runLog fault =>
    { m with scheduler := (m.scheduler.removeJob fault id runLog).2 }
  | .migrate files fault =>
    { m with scheduler := (m.scheduler.migrateFromMarkdown fault files).2 }
  | .external root => { m with scheduler := { m.scheduler with root := root } }
  | .restart unreadable =>
    { m with
      scheduler := .start env m.scheduler.root m.scheduler.timezone unreadable
      tick := .idle
      running := [] }

/-- The scheduler when its process starts. -/
def startMachine (scheduler : Scheduler) (now : ℤ) : SchedulerMachine :=
  ⟨scheduler, now, .idle, [], []⟩

/-- How many triggers have been sent for a job. -/
def sentCount (m : SchedulerMachine) (id : String) : ℕ := m.sent.countP (·.jobId = id)

/-- How many runs of a job have not reported. -/
def runningCount (m : SchedulerMachine) (id : String) : ℕ := m.running.count id

/-- How many entries of a job a tick would send. -/
def dueCount (env : SchedulerEnv) (m : SchedulerMachine) (id : String) : ℕ :=
  (m.scheduler.dueJobs env m.now).countP (·.id = id)

/-- **A tick that sends** adds the due entries of a job to its triggers and to its runs. -/
lemma sentCount_select (env : SchedulerEnv) {m : SchedulerMachine} (id : String)
    (h : m.tick = .reloaded) :
    sentCount (machineStep env m .select) id = sentCount m id + dueCount env m id ∧
      runningCount (machineStep env m .select) id = runningCount m id + dueCount env m id := by
  simp only [machineStep, h, if_true, sentCount, runningCount, dueCount]
  constructor
  · rw [List.countP_append, List.countP_map]
    rfl
  · rw [List.count_append, List.count_eq_countP (l := (m.scheduler.dueJobs env m.now).map _),
      List.countP_map]
    congr 1

end MyClaw
