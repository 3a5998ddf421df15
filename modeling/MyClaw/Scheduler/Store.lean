import MyClaw.Scheduler.Types
import Mathlib.Data.List.Induction
import Mathlib.Data.List.Sort

set_option autoImplicit false

/-!
# The jobs directory

Each job has a directory of its own with a `meta.json`.  A save writes the file of every job in
memory and then removes every directory with a `meta.json` that belongs to none of them; a load skips
what does not parse.  A reload compares the modification time of the root, which changes when a
directory appears or goes and not when a file in one is edited.

## Main definitions

* `MetaContent`, `JobsRoot` — the content of a `meta.json`, and the root.
* `saveToDisk` — `save_to_disk_inner`, as the list of its file operations with a point where
  they fail.
* `loadJobsFromDirs`, `loadJobs` — the loader, and with its legacy fallback.

## Main results

* `saveToDisk_failed`, `saveToDisk_ok` — the two ways a save can go.
* `mem_stored_saveToDisk` — a save stores no job that was neither stored nor in memory.
* `mem_loadJobs` — a load finds stored jobs only.
-/

namespace MyClaw

/-- The content of a `meta.json`: what it parses to after the legacy fields have been folded, or a
text that is no job. -/
inductive MetaContent
  | job (entry : JobEntry)
  | malformed (content : String)
  deriving DecidableEq

/-- The root of the jobs: its directories, each with its `meta.json` if it has one. -/
structure JobsRoot where
  dirs : List (String × Option MetaContent)
  /-- The modification time, none while the root does not exist. -/
  mtime : Option ℕ
  /-- The jobs in the legacy file, if it is there and parses. -/
  legacy : Option (List JobEntry)
  deriving DecidableEq

namespace JobsRoot

/-- The names of the directories. -/
def names (r : JobsRoot) : List String := r.dirs.map (·.1)

/-- A later modification time. -/
def touched (r : JobsRoot) : Option ℕ := some (r.mtime.getD 0 + 1)

end JobsRoot

/-! ## Saving -/

/-- The job as it is written: the run history stays in memory. -/
def JobEntry.serialized (job : JobEntry) : JobEntry := { job with lastRuns := [] }

/-- The directory of a job. -/
def JobEntry.dir (job : JobEntry) : String := dirName job.id

/-- A file operation of a save. -/
inductive StoreOp
  /-- Create the root. -/
  | createRoot
  /-- Create the directory of a job. -/
  | mkdir (dir : String)
  /-- Write the `meta.json` of a job and rename it into place. -/
  | write (dir : String) (job : JobEntry)

/-- A file operation that succeeds. -/
def StoreOp.run (r : JobsRoot) : StoreOp → JobsRoot
  | .createRoot => { r with mtime := some (r.mtime.getD 0) }
  | .mkdir dir =>
    if dir ∈ r.names then r else { r with dirs := r.dirs ++ [(dir, none)], mtime := r.touched }
  | .write dir job =>
    { r with dirs := r.dirs.map fun p =>
        if p.1 = dir then (dir, some (.job job.serialized)) else p }

/-- The file operations for the jobs in memory, in order. -/
def saveOps (jobs : List JobEntry) : List StoreOp :=
  .createRoot :: jobs.flatMap fun job => [.mkdir job.dir, .write job.dir job]

/-- File operations that succeed, one after the other. -/
def runAll (r : JobsRoot) (ops : List StoreOp) : JobsRoot := ops.foldl StoreOp.run r

/-- Where a save fails: the number of operations that succeed, if not all; and the directories that
cannot be removed. -/
structure SaveFault where
  failsAfter : Option ℕ := none
  undeletable : List String := []
  deriving DecidableEq

/-- The save fails before it has written all jobs. -/
def SaveFault.fails (fault : SaveFault) (jobs : List JobEntry) : Bool :=
  match fault.failsAfter with
  | some k => k < (saveOps jobs).length
  | none => false

/-- The directory stays when those of the jobs are kept: it is one of them, it has no `meta.json`, or
it cannot be removed. -/
def staysAfterPrune (kept undeletable : List String) (p : String × Option MetaContent) : Bool :=
  p.2.isNone || p.1 ∈ kept || p.1 ∈ undeletable

/-- Remove the directories with a `meta.json` that belong to no job. -/
def JobsRoot.prune (r : JobsRoot) (kept undeletable : List String) : JobsRoot :=
  let left := r.dirs.filter (staysAfterPrune kept undeletable)
  if left = r.dirs then r else { r with dirs := left, mtime := r.touched }

/-- `save_to_disk_inner`: whether it succeeds, and the root after it. -/
def saveToDisk (r : JobsRoot) (jobs : List JobEntry) (fault : SaveFault) : Bool × JobsRoot :=
  if fault.fails jobs then (false, runAll r ((saveOps jobs).take (fault.failsAfter.getD 0)))
  else (true, (runAll r (saveOps jobs)).prune (jobs.map JobEntry.dir) fault.undeletable)

/-- A save that fails midway. -/
lemma saveToDisk_failed {r : JobsRoot} {jobs : List JobEntry} {fault : SaveFault}
    (h : fault.fails jobs = true) :
    saveToDisk r jobs fault =
      (false, runAll r ((saveOps jobs).take (fault.failsAfter.getD 0))) := by
  simp [saveToDisk, h]

/-- A save that succeeds. -/
lemma saveToDisk_ok {r : JobsRoot} {jobs : List JobEntry} {fault : SaveFault}
    (h : fault.fails jobs = false) :
    saveToDisk r jobs fault =
      (true, (runAll r (saveOps jobs)).prune (jobs.map JobEntry.dir) fault.undeletable) := by
  simp [saveToDisk, h]

/-! ## Loading -/

/-- The job with a name: one without a name is given its uuid. -/
def JobEntry.named (env : SchedulerEnv) (job : JobEntry) : JobEntry :=
  if isBlank (job.name.getD "") then { job with name := some (bareDirName env job.id) } else job

/-- What the loader makes of a `meta.json`. -/
def MetaContent.load (env : SchedulerEnv) : MetaContent → Option JobEntry
  | .job entry => some (entry.named env)
  | .malformed _ => none

/-- The order of the loader. -/
def byId (jobs : List JobEntry) : List JobEntry := jobs.insertionSort (·.id ≤ ·.id)

/-- `load_jobs_from_dirs`.  The files in the directories `unreadable` cannot be read. -/
def loadJobsFromDirs (env : SchedulerEnv) (r : JobsRoot) (unreadable : List String) :
    List JobEntry :=
  byId (r.dirs.filterMap fun p =>
    if p.1 ∈ unreadable then none else p.2.bind (MetaContent.load env))

/-- `normalize_schedule_specs` on one job. -/
def JobEntry.normalized (job : JobEntry) : JobEntry :=
  { job with schedule := job.schedule.map fun spec => .kind spec.toKind }

/-- The jobs of the directories, or of the legacy file when there are none. -/
def loadJobs (env : SchedulerEnv) (r : JobsRoot) (unreadable : List String) : List JobEntry :=
  let jobs := loadJobsFromDirs env r unreadable
  if jobs = [] then (r.legacy.map fun old => old.map JobEntry.normalized).getD [] else jobs

/-! ## The stored jobs -/

/-- The job in a `meta.json`. -/
def MetaContent.job? : MetaContent → Option JobEntry
  | .job entry => some entry
  | .malformed _ => none

/-- The jobs on disk: those of the directories and those of the legacy file. -/
def JobsRoot.stored (r : JobsRoot) : List JobEntry :=
  (r.dirs.filterMap fun p => p.2.bind MetaContent.job?) ++ r.legacy.getD []

section

variable {env : SchedulerEnv} {r : JobsRoot} {job : JobEntry} {jobs : List JobEntry}

/-- What is stored, and where. -/
lemma JobsRoot.mem_stored : job ∈ r.stored ↔
    (∃ dir, (dir, some (.job job)) ∈ r.dirs) ∨ ∃ old ∈ r.legacy, job ∈ old := by
  unfold stored
  rw [List.mem_append, List.mem_filterMap]
  refine or_congr ⟨?_, ?_⟩ ?_
  · rintro ⟨⟨dir, content⟩, hmem, hjob⟩
    match content, hjob with
    | some (.job entry), hjob =>
      obtain rfl : entry = job := Option.some.inj hjob
      exact ⟨dir, hmem⟩
  · rintro ⟨dir, hmem⟩
    exact ⟨_, hmem, rfl⟩
  · cases r.legacy with
    | none => simp
    | some old => simp

/-- One file operation stores no job but the one it writes. -/
lemma StoreOp.mem_stored_run {op : StoreOp} (h : job ∈ (StoreOp.run r op).stored) :
    job ∈ r.stored ∨ ∃ dir j, op = .write dir j ∧ job = j.serialized := by
  rw [JobsRoot.mem_stored] at h ⊢
  rcases h with ⟨dir, hmem⟩ | ⟨old, hlegacy, hjob⟩
  · cases op with
    | createRoot => exact .inl (.inl ⟨dir, hmem⟩)
    | mkdir d =>
      simp only [run] at hmem
      split at hmem
      · exact .inl (.inl ⟨dir, hmem⟩)
      · rcases List.mem_append.1 hmem with hmem | hmem
        · exact .inl (.inl ⟨dir, hmem⟩)
        · cases List.mem_singleton.1 hmem
    | write d j =>
      obtain ⟨p, hp, heq⟩ := List.mem_map.1 hmem
      split at heq
      · cases heq
        exact .inr ⟨_, j, rfl, rfl⟩
      · exact .inl (.inl ⟨dir, heq ▸ hp⟩)
  · refine .inl (.inr ⟨old, ?_, hjob⟩)
    cases op with
    | createRoot => exact hlegacy
    | mkdir d =>
      simp only [run] at hlegacy
      split at hlegacy <;> exact hlegacy
    | write d j => exact hlegacy

/-- What is stored was there or was written. -/
lemma mem_stored_runAll {ops : List StoreOp} (h : job ∈ (runAll r ops).stored) :
    job ∈ r.stored ∨ ∃ dir j, .write dir j ∈ ops ∧ job = j.serialized := by
  unfold runAll at h
  induction ops generalizing r with
  | nil => exact .inl h
  | cons op ops ih =>
    rcases ih h with h | ⟨dir, j, hmem, heq⟩
    · rcases StoreOp.mem_stored_run h with h | ⟨dir, j, rfl, heq⟩
      · exact .inl h
      · exact .inr ⟨dir, j, List.mem_cons_self, heq⟩
    · exact .inr ⟨dir, j, List.mem_cons_of_mem _ hmem, heq⟩

/-- A save writes the jobs in memory only. -/
lemma write_mem_saveOps {dir : String} (h : .write dir job ∈ saveOps jobs) :
    job ∈ jobs ∧ dir = job.dir := by
  unfold saveOps at h
  rcases List.mem_cons.1 h with h | h
  · cases h
  · obtain ⟨j, hj, hop⟩ := List.mem_flatMap.1 h
    rcases List.mem_pair.1 hop with hop | hop <;> cases hop
    exact ⟨hj, rfl⟩

/-- A prune stores nothing. -/
lemma JobsRoot.mem_stored_prune {kept undeletable : List String}
    (h : job ∈ (r.prune kept undeletable).stored) : job ∈ r.stored := by
  unfold prune at h
  simp only at h
  split at h
  · exact h
  · rw [mem_stored] at h ⊢
    refine h.imp_left ?_
    rintro ⟨dir, hmem⟩
    exact ⟨dir, (List.mem_filter.1 hmem).1⟩

/-- **A save** stores no job that was neither stored nor in memory. -/
lemma mem_stored_saveToDisk {fault : SaveFault} (h : job ∈ (saveToDisk r jobs fault).2.stored) :
    job ∈ r.stored ∨ ∃ j ∈ jobs, job = j.serialized := by
  have hrun : ∀ ops, (∀ op ∈ ops, op ∈ saveOps jobs) → job ∈ (runAll r ops).stored →
      job ∈ r.stored ∨ ∃ j ∈ jobs, job = j.serialized := by
    intro ops hops h
    rcases mem_stored_runAll h with h | ⟨dir, j, hmem, heq⟩
    · exact .inl h
    · exact .inr ⟨j, (write_mem_saveOps (hops _ hmem)).1, heq⟩
  cases hf : fault.fails jobs with
  | true =>
    rw [saveToDisk_failed hf] at h
    exact hrun _ (fun _ => List.mem_of_mem_take) h
  | false =>
    rw [saveToDisk_ok hf] at h
    exact hrun _ (fun _ => id) (JobsRoot.mem_stored_prune h)

/-- **A load** finds stored jobs, with a name for those of the directories and the schedule in its
new form for those of the legacy file. -/
lemma mem_loadJobs {unreadable : List String} (h : job ∈ loadJobs env r unreadable) :
    ∃ j ∈ r.stored, job = j.named env ∨ job = j.normalized := by
  unfold loadJobs at h
  simp only at h
  split at h
  · cases hlegacy : r.legacy with
    | none => simp [hlegacy] at h
    | some old =>
      rw [hlegacy] at h
      obtain ⟨j, hj, rfl⟩ := List.mem_map.1 h
      exact ⟨j, JobsRoot.mem_stored.2 (.inr ⟨old, hlegacy, hj⟩), .inr rfl⟩
  · unfold loadJobsFromDirs byId at h
    rw [List.mem_insertionSort] at h
    obtain ⟨⟨dir, content⟩, hmem, hload⟩ := List.mem_filterMap.1 h
    split at hload
    · cases hload
    · match content, hload with
      | some (.job entry), hload =>
        obtain rfl : entry.named env = job := Option.some.inj hload
        exact ⟨entry, JobsRoot.mem_stored.2 (.inl ⟨dir, hmem⟩), .inl rfl⟩

end

/-! ## What file operations leave in a directory -/

/-- The job last written to a directory. -/
def lastWrite (dir : String) (ops : List StoreOp) : Option JobEntry :=
  ops.foldl (fun last op =>
    match op with
    | .write d job => if d = dir then some job else last
    | _ => last) none

/-- A directory that was there, after file operations. -/
def afterWrites (ops : List StoreOp) (p : String × Option MetaContent) :
    String × Option MetaContent :=
  match lastWrite p.1 ops with
  | some job => (p.1, some (.job job.serialized))
  | none => p

section

variable {r : JobsRoot} {dir : String} {content : MetaContent} {jobs : List JobEntry}
  {ops : List StoreOp}

@[simp] lemma lastWrite_concat (op : StoreOp) :
    lastWrite dir (ops ++ [op]) =
      match op with
      | .write d job => if d = dir then some job else lastWrite dir ops
      | _ => lastWrite dir ops := by
  simp [lastWrite, List.foldl_append]

@[simp] lemma afterWrites_fst (p : String × Option MetaContent) : (afterWrites ops p).1 = p.1 := by
  unfold afterWrites
  split <;> rfl

/-- The last write is a write. -/
lemma lastWrite_mem {job : JobEntry} (h : lastWrite dir ops = some job) : .write dir job ∈ ops := by
  induction ops using List.reverseRecOn with
  | nil => cases h
  | append_singleton ops op ih =>
    rw [lastWrite_concat] at h
    rw [List.mem_append]
    cases op with
    | createRoot => exact .inl (ih h)
    | mkdir d => exact .inl (ih h)
    | write d j =>
      simp only at h
      split at h
      · rename_i hd
        subst hd
        obtain rfl := Option.some.inj h
        exact .inr (List.mem_singleton_self _)
      · exact .inl (ih h)

lemma afterWrites_concat_write (d : String) (job : JobEntry) (p : String × Option MetaContent) :
    afterWrites (ops ++ [.write d job]) p =
      if p.1 = d then (d, some (.job job.serialized)) else afterWrites ops p := by
  unfold afterWrites
  rw [lastWrite_concat]
  by_cases hp : p.1 = d
  · simp [hp]
  · have hne : ¬ d = p.1 := Ne.symm hp
    simp [hp, hne]

lemma afterWrites_concat_createRoot : afterWrites (ops ++ [.createRoot]) = afterWrites ops := by
  unfold afterWrites
  simp only [lastWrite_concat]

lemma afterWrites_concat_mkdir (d : String) :
    afterWrites (ops ++ [.mkdir d]) = afterWrites ops := by
  unfold afterWrites
  simp only [lastWrite_concat]

/-- One operation more. -/
lemma runAll_concat (op : StoreOp) : runAll r (ops ++ [op]) = StoreOp.run (runAll r ops) op := by
  simp [runAll, List.foldl_append]

/-- No name is lost. -/
lemma StoreOp.names_subset_run (op : StoreOp) (h : dir ∈ r.names) :
    dir ∈ (StoreOp.run r op).names := by
  cases op with
  | createRoot => exact h
  | mkdir d =>
    simp only [run]
    split
    · exact h
    · simp only [JobsRoot.names, List.map_append, List.mem_append]
      exact .inl h
  | write d job =>
    obtain ⟨p, hp, rfl⟩ := List.mem_map.1 h
    refine List.mem_map.2 ⟨_, List.mem_map.2 ⟨p, hp, rfl⟩, ?_⟩
    split
    · rename_i hd
      exact hd.symm
    · rfl

/-- Nor by several operations. -/
lemma names_subset_runAll (ops : List StoreOp) (h : dir ∈ r.names) : dir ∈ (runAll r ops).names := by
  unfold runAll
  induction ops generalizing r with
  | nil => exact h
  | cons op ops ih => exact ih (StoreOp.names_subset_run op h)

/-- A directory that is created is there. -/
lemma mem_names_runAll_of_mkdir (h : .mkdir dir ∈ ops) : dir ∈ (runAll r ops).names := by
  obtain ⟨before, rest, rfl⟩ := List.append_of_mem h
  have hmade : dir ∈ (StoreOp.run (runAll r before) (.mkdir dir)).names := by
    simp only [StoreOp.run]
    split
    · assumption
    · simp [JobsRoot.names]
  have hsplit : runAll r (before ++ .mkdir dir :: rest) =
      runAll (StoreOp.run (runAll r before) (.mkdir dir)) rest := by
    simp [runAll, List.foldl_append]
  rw [hsplit]
  exact names_subset_runAll rest hmade

/-- A directory that was there holds the job last written to it. -/
lemma afterWrites_mem_runAll {p : String × Option MetaContent} (h : p ∈ r.dirs) :
    afterWrites ops p ∈ (runAll r ops).dirs := by
  induction ops using List.reverseRecOn with
  | nil => exact h
  | append_singleton ops op ih =>
    rw [runAll_concat]
    cases op with
    | createRoot =>
      rw [afterWrites_concat_createRoot]
      exact ih
    | mkdir d =>
      rw [afterWrites_concat_mkdir]
      simp only [StoreOp.run]
      split
      · exact ih
      · exact List.mem_append_left _ ih
    | write d job =>
      rw [afterWrites_concat_write]
      refine List.mem_map.2 ⟨afterWrites ops p, ih, ?_⟩
      rw [afterWrites_fst]

/-- **File operations** leave the directories that were there, each with the job last written to it,
and new ones that hold nothing but jobs that were written. -/
lemma mem_dirs_runAll {p : String × Option MetaContent} (h : p ∈ (runAll r ops).dirs) :
    (∃ q ∈ r.dirs, p = afterWrites ops q) ∨
      p.1 ∉ r.names ∧ ∀ c ∈ p.2, ∃ job, .write p.1 job ∈ ops ∧ c = .job job.serialized := by
  induction ops using List.reverseRecOn generalizing p with
  | nil => exact .inl ⟨p, h, rfl⟩
  | append_singleton ops op ih =>
    rw [runAll_concat] at h
    have hmono : ∀ {q : String × Option MetaContent},
        (∀ c ∈ q.2, ∃ job, .write q.1 job ∈ ops ∧ c = .job job.serialized) →
          ∀ c ∈ q.2, ∃ job, .write q.1 job ∈ ops ++ [op] ∧ c = .job job.serialized := by
      intro q hq c hc
      obtain ⟨job, hjob, heq⟩ := hq c hc
      exact ⟨job, List.mem_append_left _ hjob, heq⟩
    cases op with
    | createRoot =>
      rw [afterWrites_concat_createRoot]
      exact (ih h).imp_right fun ⟨hnew, hwritten⟩ => ⟨hnew, hmono hwritten⟩
    | mkdir d =>
      rw [afterWrites_concat_mkdir]
      simp only [StoreOp.run] at h
      split at h
      · exact (ih h).imp_right fun ⟨hnew, hwritten⟩ => ⟨hnew, hmono hwritten⟩
      · rename_i hd
        rcases List.mem_append.1 h with h | h
        · exact (ih h).imp_right fun ⟨hnew, hwritten⟩ => ⟨hnew, hmono hwritten⟩
        · obtain rfl := List.mem_singleton.1 h
          exact .inr ⟨fun hmem => hd (names_subset_runAll ops hmem), fun c hc => by cases hc⟩
    | write d job =>
      obtain ⟨x, hx, rfl⟩ := List.mem_map.1 h
      rcases ih hx with ⟨q, hq, rfl⟩ | ⟨hnew, hwritten⟩
      · refine .inl ⟨q, hq, ?_⟩
        rw [afterWrites_concat_write, afterWrites_fst]
      · right
        split
        · rename_i hd
          refine ⟨hd ▸ hnew, fun c hc => ⟨job, ?_, (Option.some.inj hc).symm⟩⟩
          exact List.mem_append_right _ (List.mem_singleton_self _)
        · exact ⟨hnew, hmono hwritten⟩

/-- Without new directories. -/
lemma dirs_runAll_of_known (h : ∀ d, .mkdir d ∈ ops → d ∈ r.names) :
    (runAll r ops).dirs = r.dirs.map (afterWrites ops) := by
  induction ops using List.reverseRecOn with
  | nil => exact (List.map_id r.dirs).symm
  | append_singleton ops op ih =>
    have hold := ih fun d hd => h d (List.mem_append_left _ hd)
    rw [runAll_concat]
    cases op with
    | createRoot =>
      rw [afterWrites_concat_createRoot]
      exact hold
    | mkdir d =>
      have hd : d ∈ (runAll r ops).names := names_subset_runAll ops (h d (by simp))
      rw [afterWrites_concat_mkdir]
      simp only [StoreOp.run, if_pos hd]
      exact hold
    | write d job =>
      simp only [StoreOp.run, hold, List.map_map]
      refine List.map_congr_left fun p _ => ?_
      rw [afterWrites_concat_write, Function.comp_apply, afterWrites_fst]

/-- The file operations change no directory: those they create are there, and each holds the job last
written to it. -/
def ChangesNothing (r : JobsRoot) (ops : List StoreOp) : Prop :=
  (∀ op ∈ ops, ∀ d, op = .mkdir d → d ∈ r.names) ∧
    ∀ p ∈ r.dirs, ∀ job ∈ lastWrite p.1 ops, p.2 = some (.job job.serialized)

/-- **File operations leave the directories as they are** exactly when they change none. -/
lemma dirs_runAll_eq_iff : (runAll r ops).dirs = r.dirs ↔ ChangesNothing r ops := by
  have hkept : ∀ p, afterWrites ops p = p ↔
      ∀ job ∈ lastWrite p.1 ops, p.2 = some (.job job.serialized) := by
    intro p
    unfold afterWrites
    cases lastWrite p.1 ops with
    | none => simp
    | some job =>
      obtain ⟨d, c⟩ := p
      simp [eq_comm]
  have hmap : r.dirs.map (afterWrites ops) = r.dirs ↔ ∀ p ∈ r.dirs, afterWrites ops p = p := by
    simpa using List.map_inj_left (l := r.dirs) (f := afterWrites ops) (g := id)
  constructor
  · intro h
    have hknown : ∀ d, .mkdir d ∈ ops → d ∈ r.names := by
      intro d hd
      have hmade := mem_names_runAll_of_mkdir (r := r) hd
      unfold JobsRoot.names at hmade ⊢
      rwa [h] at hmade
    rw [dirs_runAll_of_known hknown] at h
    refine ⟨fun op hop d heq => hknown d (heq ▸ hop), fun p hp => (hkept p).1 ?_⟩
    exact hmap.1 h p hp
  · rintro ⟨hknown, hsame⟩
    rw [dirs_runAll_of_known fun d hd => hknown _ hd d rfl]
    exact hmap.2 fun p hp => (hkept p).2 (hsame p hp)

end

end MyClaw
