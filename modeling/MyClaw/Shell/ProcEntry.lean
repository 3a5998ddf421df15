import Mathlib.Data.List.Basic
import Mathlib.Data.List.Sort

set_option autoImplicit false

/-!
# Entries of the process table

One tracked shell invocation (`tools/shell/proc_entry.rs`), in the registry in memory and in a file
beside the session.

## Main definitions

* `ProcEntry` — the entry.
* `ProcEntry.setState`, `ProcEntry.markNotifyOnExit` — the two edits.
* `latestEntrySummary` — what a recovery says about an interrupted `shell` call.

## Main results

* `ProcEntry.isRunning_markNotifyOnExit` — arming a process does not change its state.
-/

namespace MyClaw

/-- A tracked shell process. -/
structure ProcEntry where
  processId : String
  sessionId : String
  spawnedAtMs : Int
  outputPath : String
  /-- "running", "exited", "killed" or "lost_on_restart". -/
  state : String
  exitCode : Option Int
  /-- The exit of the process wakes the session with a completion notice. -/
  notifyOnExit : Bool

namespace ProcEntry

/-- `is_running`. -/
def isRunning (e : ProcEntry) : Bool := e.state = "running"

/-- `set_state` on an entry of the registry. -/
def setState (e : ProcEntry) (state : String) (exitCode : Option Int) : ProcEntry :=
  { e with state := state, exitCode := exitCode }

/-- `mark_notify_on_exit` on an entry of the registry: only a process that still runs is armed. -/
def markNotifyOnExit (e : ProcEntry) : ProcEntry :=
  if e.state = "running" ∧ e.notifyOnExit = false then { e with notifyOnExit := true } else e

/-- **Arming a process does not change its state.** -/
@[simp] theorem isRunning_markNotifyOnExit (e : ProcEntry) :
    e.markNotifyOnExit.isRunning = e.isRunning := by
  unfold markNotifyOnExit isRunning
  split_ifs <;> rfl

end ProcEntry

/-- `{:?}` of an optional exit code. -/
def debugExitCode : Option Int → String
  | none => "None"
  | some code => "Some(" ++ toString code ++ ")"

/-- `latest_entry_summary`: what happened to the process of the session that was spawned last, and
whether that is an error. -/
def latestEntrySummary (entries : List ProcEntry) : Option (String × Bool) :=
  (entries.mergeSort fun a b => a.spawnedAtMs ≤ b.spawnedAtMs).getLast?.map fun entry =>
    if entry.state = "running" then
      ("This shell command is still running (process_id=" ++ entry.processId ++ ") — it " ++
        "survived a deployment hot-switch restart and was NOT re-executed to avoid " ++
        "running it twice. Call sessions_yield to suspend and be woken when it " ++
        "finishes, shell_poll for an instant peek, or shell_kill to stop it.", false)
    else if entry.state = "lost_on_restart" then
      ("This shell command's process was terminated together with the previous " ++
        "daemon process (a non-hot-switch restart reclaims the whole process group) " ++
        "— it is confirmed to NOT have completed, and there is no captured output " ++
        "(process_id=" ++ entry.processId ++ ", output_path=" ++ entry.outputPath ++
        "). If you still need this, it's " ++
        "safe to re-run — there is no risk of a second copy already running — just " ++
        "make sure re-running it is idempotent (won't duplicate side effects such as " ++
        "a commit or a request that may already have gone out from a prior part of " ++
        "the same command).", true)
    else
      ("This shell command's process is no longer running (state=" ++ entry.state ++
        ", exit_code=" ++ debugExitCode entry.exitCode ++
        ", process_id=" ++ entry.processId ++ ", output_path=" ++ entry.outputPath ++
        ") — it was adopted across a " ++
        "deployment hot-switch restart, so its real exit code could not be captured. " ++
        "Check the output before deciding whether to re-run it.", true)

end MyClaw
