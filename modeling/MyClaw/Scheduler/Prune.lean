import MyClaw.Scheduler.CanFire
import MyClaw.Scheduler.FailedEdit

set_option autoImplicit false

/-!
# What a save deletes

A save writes every job in memory and removes every directory with a `meta.json` that belongs to none
of them.  Memory knows the directories from the last load only: a directory that was added by hand
since, a file that was edited in place, which no reload notices, and a file that the loader skipped
are overwritten or removed with the rest.

## Main definitions

* `JobsRoot.files` — the `meta.json` files.
* `StoreWorld`, `storeStep` — the machine with the history of its directory: the files
  that it has loaded or written, those that it has not, and the jobs that were removed.
* `DeletesOnlyRemoved` — a save leaves each file unless its job was removed or it was loaded.
* `Spares`, `SparesUnread` — a save leaves a file; it leaves those that were not loaded.

## Main results

* `mem_files_saveToDisk_iff` — a save leaves a file exactly when it spares it.
* `root_of_saves`, `root_of_saves_none` — what an event does to the directory.
* `StoreTracked.step` — every file has been loaded or written, or is among the unread ones.
* `deletesOnlyRemoved_iff` — a run deletes only what was removed or loaded exactly when every
  save in it spares the unread files of the other jobs.
-/

namespace MyClaw

/-- The `meta.json` files, each with its directory. -/
def JobsRoot.files (r : JobsRoot) : List (String × MetaContent) :=
  r.dirs.filterMap fun p => p.2.map (p.1, ·)

/-- The file operations that a save carries out. -/
def SaveFault.carriedOut (fault : SaveFault) (jobs : List JobEntry) : List StoreOp :=
  if fault.fails jobs then fault.done jobs else saveOps jobs

/-- The save leaves the file: it writes nothing else to its directory, and does not remove it. -/
def Spares (fault : SaveFault) (jobs : List JobEntry) (f : String × MetaContent) : Prop :=
  (∀ job ∈ lastWrite f.1 (fault.carriedOut jobs), f.2 = .job job.serialized) ∧
    (fault.fails jobs = false → f.1 ∈ jobs.map JobEntry.dir ∨ f.1 ∈ fault.undeletable)

/-- The files that file operations write. -/
def writtenFiles (ops : List StoreOp) : List (String × MetaContent) :=
  ops.filterMap fun op =>
    match op with
    | .write dir job => some (dir, .job job.serialized)
    | _ => none

section

variable {r : JobsRoot} {ops : List StoreOp} {f : String × MetaContent} {jobs : List JobEntry}
  {fault : SaveFault}

/-- The directories with a file. -/
lemma JobsRoot.mem_files : f ∈ r.files ↔ (f.1, some f.2) ∈ r.dirs := by
  unfold files
  rw [List.mem_filterMap]
  constructor
  · rintro ⟨⟨dir, content⟩, hmem, hf⟩
    obtain ⟨c, rfl, rfl⟩ := Option.map_eq_some_iff.1 hf
    exact hmem
  · intro h
    exact ⟨_, h, rfl⟩

/-- File operations leave a file exactly when they write nothing else to its directory. -/
lemma mem_files_runAll_iff (h : f ∈ r.files) :
    f ∈ (runAll r ops).files ↔ ∀ job ∈ lastWrite f.1 ops, f.2 = .job job.serialized := by
  rw [JobsRoot.mem_files] at h ⊢
  constructor
  · intro hmem job hjob
    rcases mem_dirs_runAll hmem with ⟨q, -, heq⟩ | ⟨hnew, -⟩
    · have hname : q.1 = f.1 := by rw [← afterWrites_fst q, ← heq]
      unfold afterWrites at heq
      rw [hname, Option.mem_def.1 hjob] at heq
      exact Option.some.inj (congrArg Prod.snd heq)
    · exact absurd (List.mem_map.2 ⟨_, h, rfl⟩) hnew
  · intro hsame
    have hmem : afterWrites ops (f.1, some f.2) ∈ (runAll r ops).dirs := afterWrites_mem_runAll h
    have hstays : afterWrites ops (f.1, some f.2) = (f.1, some f.2) := by
      unfold afterWrites
      cases hlast : lastWrite f.1 ops with
      | none => rfl
      | some job => rw [hsame job hlast]
    rwa [hstays] at hmem

/-- A file after file operations was there or has been written. -/
lemma mem_files_of_runAll (h : f ∈ (runAll r ops).files) : f ∈ r.files ∨ f ∈ writtenFiles ops := by
  have hwritten : ∀ job, .write f.1 job ∈ ops → f.2 = .job job.serialized → f ∈ writtenFiles ops := by
    intro job hmem heq
    refine List.mem_filterMap.2 ⟨_, hmem, ?_⟩
    simp only [← heq]
  rw [JobsRoot.mem_files] at h
  rcases mem_dirs_runAll h with ⟨q, hq, heq⟩ | ⟨-, hnew⟩
  · have hname : q.1 = f.1 := by rw [← afterWrites_fst q, ← heq]
    unfold afterWrites at heq
    cases hlast : lastWrite q.1 ops with
    | none =>
      rw [hlast] at heq
      exact .inl (JobsRoot.mem_files.2 (heq ▸ hq))
    | some job =>
      rw [hlast] at heq
      refine .inr (hwritten job ?_ (Option.some.inj (congrArg Prod.snd heq)))
      exact hname ▸ lastWrite_mem hlast
  · obtain ⟨job, hmem, heq⟩ := hnew f.2 rfl
    exact .inr (hwritten job hmem heq)

/-- What a prune leaves. -/
lemma JobsRoot.mem_files_prune_iff {kept undeletable : List String} :
    f ∈ (r.prune kept undeletable).files ↔
      f ∈ r.files ∧ (f.1 ∈ kept ∨ f.1 ∈ undeletable) := by
  have hdirs : (r.prune kept undeletable).dirs =
      r.dirs.filter (staysAfterPrune kept undeletable) := by
    unfold prune
    simp only
    split
    · rename_i hsame
      exact hsame.symm
    · rfl
  rw [mem_files, mem_files, hdirs, List.mem_filter]
  refine and_congr_right fun _ => ?_
  simp [staysAfterPrune]

/-- **A save leaves a file** exactly when it spares it. -/
lemma mem_files_saveToDisk_iff (h : f ∈ r.files) :
    f ∈ (saveToDisk r jobs fault).2.files ↔ Spares fault jobs f := by
  unfold Spares SaveFault.carriedOut
  cases hf : fault.fails jobs with
  | true =>
    rw [saveToDisk_failed hf]
    refine (mem_files_runAll_iff h).trans ?_
    simp [SaveFault.done]
  | false =>
    rw [saveToDisk_ok hf, JobsRoot.mem_files_prune_iff, mem_files_runAll_iff h]
    simp

/-- A file after a save was there or has been written. -/
lemma mem_files_of_saveToDisk (h : f ∈ (saveToDisk r jobs fault).2.files) :
    f ∈ r.files ∨ f ∈ writtenFiles (fault.carriedOut jobs) := by
  unfold SaveFault.carriedOut
  cases hf : fault.fails jobs with
  | true =>
    rw [saveToDisk_failed hf] at h
    exact mem_files_of_runAll h
  | false =>
    rw [saveToDisk_ok hf, JobsRoot.mem_files_prune_iff] at h
    exact mem_files_of_runAll h.1

end

/-! ## The directory and its history -/

/-- The save that an event makes, if it makes one. -/
def saves (m : SchedulerMachine) : MachineEvent → Option SaveFault
  | .drain fault =>
    if m.tick = .idle ∧ m.scheduler.jobs.filter JobEntry.isSpent ≠ [] then some fault else none
  | .mark fault => if m.tick.sentIds = [] then none else some fault
  | .report id _ fault =>
    if id ∈ m.running ∧ (m.scheduler.job? id).isSome then some fault else none
  | .add entry _ fault => if isBlank (entry.name.getD "") then none else some fault
  | .update id u fault =>
    match m.scheduler.job? id with
    | none => none
    | some job => if u.refuses job then none else some fault
  | .remove id _ fault => if (m.scheduler.job? id).isSome then some fault else none
  | .migrate files fault =>
    if m.scheduler.jobs.length <
        (files.foldl (fun jobs f => Scheduler.migrateFile jobs f.1 f.2) m.scheduler.jobs).length
    then some fault else none
  | _ => none

/-- The files that a load reads. -/
def JobsRoot.readable (r : JobsRoot) (unreadable : List String) : List (String × MetaContent) :=
  r.files.filter fun f => f.1 ∉ unreadable && f.2.job?.isSome

/-- The files that an event loads. -/
def loadedFiles (m : SchedulerMachine) : MachineEvent → List (String × MetaContent)
  | .reload unreadable =>
    if m.tick = .drained ∧ m.scheduler.root.mtime ≠ m.scheduler.lastMtime then
      m.scheduler.root.readable unreadable
    else []
  | .restart unreadable => m.scheduler.root.readable unreadable
  | _ => []

/-- The directories of the jobs that an event removes by `remove_job` or `drain_auto_delete`. -/
def removedDirs (m : SchedulerMachine) : MachineEvent → List String
  | .drain fault =>
    if m.tick = .idle then (m.scheduler.drainAutoDelete fault).1.map dirName else []
  | .remove id _ _ => if (m.scheduler.job? id).isSome then [dirName id] else []
  | _ => []

/-- The machine with the history of its directory. -/
structure StoreWorld where
  machine : SchedulerMachine
  /-- The files that have been loaded or written. -/
  known : List (String × MetaContent)
  /-- The files that someone else has put there and that have not been loaded or written. -/
  unread : List (String × MetaContent)
  /-- The directories of the jobs that were removed. -/
  removed : List String

/-- The files that an event loads or writes. -/
def touchedFiles (env : SchedulerEnv) (m : SchedulerMachine) (e : MachineEvent) :
    List (String × MetaContent) :=
  loadedFiles m e ++
    match saves m e with
    | some fault => writtenFiles (fault.carriedOut (machineStep env m e).scheduler.jobs)
    | none => []

/-- The files that someone else puts there. -/
def putFiles : MachineEvent → List (String × MetaContent)
  | .external root => root.files
  | _ => []

/-- One event, with the history. -/
def storeStep (env : SchedulerEnv) (w : StoreWorld) (e : MachineEvent) : StoreWorld where
  machine := machineStep env w.machine e
  known := w.known ++ touchedFiles env w.machine e
  unread :=
    (w.unread ++ (putFiles e).filter (· ∉ w.known)).filter (· ∉ touchedFiles env w.machine e)
  removed := w.removed ++ removedDirs w.machine e

/-- The history starts when the process loads the directory. -/
def startStore (env : SchedulerEnv) (root : JobsRoot) (timezone : String) (unreadable : List String)
    (now : ℤ) : StoreWorld where
  machine := startMachine (.start env root timezone unreadable) now
  known := root.readable unreadable
  unread := root.files.filter (· ∉ root.readable unreadable)
  removed := []

/-- **A save deletes or overwrites only what was removed**, or has been loaded before. -/
def DeletesOnlyRemoved (env : SchedulerEnv) (w : StoreWorld) (e : MachineEvent) : Prop :=
  (saves w.machine e).isSome = true → ∀ f ∈ w.machine.scheduler.root.files,
    f ∈ (storeStep env w e).machine.scheduler.root.files ∨
      f.1 ∈ (storeStep env w e).removed ∨ f ∈ w.known

instance (env : SchedulerEnv) (w : StoreWorld) (e : MachineEvent) :
    Decidable (DeletesOnlyRemoved env w e) := inferInstanceAs (Decidable (_ → _))

/-- The save of an event spares the unread files, those of removed jobs apart. -/
def SparesUnread (env : SchedulerEnv) (w : StoreWorld) (e : MachineEvent) : Prop :=
  ∀ fault ∈ saves w.machine e, ∀ f ∈ w.unread, f ∈ w.machine.scheduler.root.files →
    f.1 ∈ w.removed ++ removedDirs w.machine e ∨
      Spares fault (machineStep env w.machine e).scheduler.jobs f

/-! ## What an event does to the directory -/

section

variable {env : SchedulerEnv} {m : SchedulerMachine} {w : StoreWorld} {e : MachineEvent}

/-- **An event that saves** saves the jobs it leaves in memory. -/
lemma root_of_saves {fault : SaveFault} (h : saves m e = some fault) :
    (machineStep env m e).scheduler.root =
      (saveToDisk m.scheduler.root (machineStep env m e).scheduler.jobs fault).2 := by
  cases e with
  | wait ms => cases h
  | reload unreadable => cases h
  | select => cases h
  | external root => cases h
  | restart unreadable => cases h
  | drain fault' =>
    simp only [saves] at h
    split at h
    · rename_i hcase
      obtain ⟨hidle, hspent⟩ := hcase
      obtain rfl := Option.some.inj h
      have hids : (m.scheduler.jobs.filter JobEntry.isSpent).map (·.id) ≠ [] := by
        simpa using hspent
      simp only [machineStep, if_pos hidle, Scheduler.drainAutoDelete, if_neg hids]
      rfl
    · cases h
  | mark fault' =>
    simp only [saves] at h
    split at h
    · cases h
    · rename_i hids
      obtain rfl := Option.some.inj h
      cases ht : m.tick with
      | sent ids =>
        rw [ht] at hids
        simp only [machineStep, ht, Scheduler.markTick]
        rw [if_neg (show ids ≠ [] from hids)]
        exact congrArg (fun r => (saveToDisk r _ fault').2) (Scheduler.foldl_modify_root ids _ _)
      | idle | drained | reloaded => exact absurd (by rw [ht]; rfl) hids
  | report id record fault' =>
    simp only [saves] at h
    split at h
    · rename_i hcase
      obtain ⟨hrun, hjob⟩ := hcase
      obtain rfl := Option.some.inj h
      obtain ⟨job, hjob⟩ := Option.isSome_iff_exists.1 hjob
      simp only [machineStep, if_pos hrun, Scheduler.markRunResult, hjob]
      rfl
    · cases h
  | add entry freshId fault' =>
    simp only [saves] at h
    split at h
    · cases h
    · rename_i hname
      obtain rfl := Option.some.inj h
      obtain ⟨added, id, heq⟩ := addJob_eq env m.scheduler m.now fault' entry freshId hname
      simp only [machineStep, heq]
      rfl
  | update id u fault' =>
    simp only [saves] at h
    cases hjob : m.scheduler.job? id with
    | none =>
      rw [hjob] at h
      cases h
    | some job =>
      rw [hjob] at h
      simp only at h
      split at h
      · cases h
      · rename_i hrefuses
        obtain rfl := Option.some.inj h
        simp only [machineStep,
          (updateJob_eq env m.now fault' u hjob).2 (Bool.eq_false_iff.2 hrefuses)]
        rfl
  | remove id runLog fault' =>
    simp only [saves] at h
    split at h
    · rename_i hjob
      obtain rfl := Option.some.inj h
      obtain ⟨job, hjob⟩ := Option.isSome_iff_exists.1 hjob
      simp only [machineStep, Scheduler.removeJob, hjob]
      rfl
    · cases h
  | migrate files fault' =>
    simp only [saves] at h
    split at h
    · rename_i hmore
      obtain rfl := Option.some.inj h
      simp only [machineStep, Scheduler.migrateFromMarkdown]
      rw [if_pos (by omega)]
      rfl
    · cases h

/-- **An event that does not save** leaves the directory to others. -/
lemma root_of_saves_none (h : saves m e = none) (he : ∀ root, e ≠ .external root) :
    (machineStep env m e).scheduler.root = m.scheduler.root := by
  cases e with
  | wait ms => rfl
  | external root => exact absurd rfl (he root)
  | restart unreadable => rfl
  | reload unreadable =>
    simp only [machineStep, Scheduler.maybeReload]
    split
    · split <;> rfl
    · rfl
  | select =>
    simp only [machineStep]
    split <;> rfl
  | drain fault =>
    simp only [saves] at h
    split at h
    · cases h
    · rename_i hcase
      simp only [machineStep]
      split
      · rename_i hidle
        have hids : (m.scheduler.jobs.filter JobEntry.isSpent).map (·.id) = [] := by
          by_contra hne
          exact hcase ⟨hidle, by simpa using hne⟩
        simp only [Scheduler.drainAutoDelete, if_pos hids]
      · rfl
  | mark fault =>
    simp only [saves] at h
    split at h
    · rename_i hids
      cases ht : m.tick with
      | sent ids =>
        rw [ht] at hids
        simp only [machineStep, ht, Scheduler.markTick]
        rw [if_pos (show ids = [] from hids)]
      | idle | drained | reloaded => simp only [machineStep, ht]
    · cases h
  | report id record fault =>
    simp only [saves] at h
    split at h
    · cases h
    · rename_i hcase
      simp only [machineStep]
      split
      · rename_i hrun
        have hjob : m.scheduler.job? id = none := by
          rw [← Option.not_isSome_iff_eq_none]
          exact fun hjob => hcase ⟨hrun, hjob⟩
        simp only [Scheduler.markRunResult, hjob]
      · rfl
  | add entry freshId fault =>
    simp only [saves] at h
    split at h
    · rename_i hname
      simp only [machineStep, Scheduler.addJob, if_pos hname]
    · cases h
  | update id u fault =>
    simp only [saves] at h
    cases hjob : m.scheduler.job? id with
    | none => simp only [machineStep, Scheduler.updateJob, hjob]
    | some job =>
      rw [hjob] at h
      simp only at h
      split at h
      · rename_i hrefuses
        obtain ⟨error, heq⟩ := (updateJob_eq env m.now fault u hjob).1 hrefuses
        simp only [machineStep, heq]
        rfl
      · cases h
  | remove id runLog fault =>
    simp only [saves] at h
    split at h
    · cases h
    · rename_i hjob
      rw [Option.not_isSome_iff_eq_none] at hjob
      simp only [machineStep, Scheduler.removeJob, hjob]
  | migrate files fault =>
    simp only [saves] at h
    split at h
    · cases h
    · rename_i hmore
      simp only [machineStep, Scheduler.migrateFromMarkdown]
      rw [if_neg (by omega)]

/-! ## The history -/

/-- Every file has been loaded or written, or is among the unread ones, and these have not. -/
structure StoreTracked (w : StoreWorld) : Prop where
  files : ∀ f ∈ w.machine.scheduler.root.files, f ∈ w.known ∨ f ∈ w.unread
  unread : ∀ f ∈ w.unread, f ∉ w.known

/-- The files after an event were there, or were put there, or have been written. -/
lemma files_machineStep {f : String × MetaContent}
    (h : f ∈ (machineStep env m e).scheduler.root.files) :
    f ∈ m.scheduler.root.files ∨ f ∈ putFiles e ∨ f ∈ touchedFiles env m e := by
  cases hs : saves m e with
  | some fault =>
    rw [root_of_saves hs] at h
    rcases mem_files_of_saveToDisk h with h | h
    · exact .inl h
    · refine .inr (.inr (List.mem_append_right _ ?_))
      rw [hs]
      exact h
  | none =>
    by_cases he : ∃ root, e = .external root
    · obtain ⟨root, rfl⟩ := he
      exact .inr (.inl h)
    · rw [root_of_saves_none hs fun root heq => he ⟨root, heq⟩] at h
      exact .inl h

/-- **The history is kept** by every event. -/
lemma StoreTracked.step (h : StoreTracked w) (e : MachineEvent) :
    StoreTracked (storeStep env w e) where
  files := by
    intro f hf
    by_cases htouched : f ∈ touchedFiles env w.machine e
    · exact .inl (List.mem_append_right _ htouched)
    · have hcases : f ∈ w.known ∨ f ∈ w.unread ++ (putFiles e).filter (· ∉ w.known) := by
        by_cases hknown : f ∈ w.known
        · exact .inl hknown
        · right
          rw [List.mem_append]
          rcases files_machineStep hf with hold | hput | htouch
          · exact .inl ((h.files f hold).resolve_left hknown)
          · exact .inr (List.mem_filter.2 ⟨hput, by simpa using hknown⟩)
          · exact absurd htouch htouched
      rcases hcases with hknown | hunread
      · exact .inl (List.mem_append_left _ hknown)
      · exact .inr (List.mem_filter.2 ⟨hunread, by simpa using htouched⟩)
  unread := by
    intro f hf hknown
    obtain ⟨hf, htouched⟩ := List.mem_filter.1 hf
    rcases List.mem_append.1 hknown with hknown | hknown
    · rcases List.mem_append.1 hf with hf | hf
      · exact h.unread f hf hknown
      · exact absurd hknown (by simpa using (List.mem_filter.1 hf).2)
    · exact absurd hknown (by simpa using htouched)

/-- A save deletes only what was removed or loaded exactly when it spares the unread files. -/
lemma StoreTracked.deletesOnlyRemoved_iff_spares (h : StoreTracked w) (e : MachineEvent) :
    DeletesOnlyRemoved env w e ↔ SparesUnread env w e := by
  unfold DeletesOnlyRemoved SparesUnread
  cases hs : saves w.machine e with
  | none => simp
  | some fault =>
    have hleft : ∀ f ∈ w.machine.scheduler.root.files,
        f ∈ (storeStep env w e).machine.scheduler.root.files ↔
          Spares fault (machineStep env w.machine e).scheduler.jobs f := by
      intro f hf
      show f ∈ (machineStep env w.machine e).scheduler.root.files ↔ _
      rw [root_of_saves hs]
      exact mem_files_saveToDisk_iff hf
    constructor
    · rintro hdeletes fault' hfault f hunread hf
      obtain rfl := Option.some.inj hfault
      rcases hdeletes rfl f hf with hstays | hremoved | hknown
      · exact .inr ((hleft f hf).1 hstays)
      · exact .inl hremoved
      · exact absurd hknown (h.unread f hunread)
    · intro hspares _ f hf
      rcases h.files f hf with hknown | hunread
      · exact .inr (.inr hknown)
      · rcases hspares fault rfl f hunread hf with hremoved | hspared
        · exact .inr (.inl hremoved)
        · exact .inl ((hleft f hf).2 hspared)

end

/-! ## Runs -/

/-- **Only what was removed or loaded is deleted**, in a run from a load of any directory, exactly
when every save of the run spares the files of the other jobs that someone else has put there and that
have not been loaded since. -/
theorem deletesOnlyRemoved_iff (env : SchedulerEnv) (root : JobsRoot) (timezone : String)
    (unreadable : List String) (now : ℤ) (es : List MachineEvent) :
    Run.EachStep (storeStep env) (DeletesOnlyRemoved env)
        (startStore env root timezone unreadable now) es ↔
      Run.EachStep (storeStep env) (SparesUnread env)
        (startStore env root timezone unreadable now) es := by
  have h₀ : StoreTracked (startStore env root timezone unreadable now) := by
    constructor
    · intro f hf
      by_cases hknown : f ∈ root.readable unreadable
      · exact .inl hknown
      · exact .inr (List.mem_filter.2 ⟨hf, by simpa using hknown⟩)
    · intro f hf
      show f ∉ root.readable unreadable
      simpa using (List.mem_filter.1 hf).2
  exact Run.eachStep_iff (fun _ e h => h.deletesOnlyRemoved_iff_spares e) (fun _ e h _ => h.step e) h₀

/-- The directory of a job next to another file. -/
def rootBeside (job : JobEntry) (file : String × MetaContent) (mtime : ℕ) : JobsRoot :=
  ⟨[(job.dir, some (.job job)), (file.1, some file.2)], some mtime, none⟩

/-- **Files that a save deletes or overwrites** without having loaded them: a directory that was added
by hand since the load, a `meta.json` that does not parse, and one that was edited in place. -/
theorem save_deletes_unloaded :
    ¬ Run.EachStep (storeStep plainEnv) (DeletesOnlyRemoved plainEnv)
        (startStore plainEnv (rootWith onceJob) "UTC" [] 0)
        [.external (rootBeside onceJob ("hand", .job { onceJob with id := "hand" }) 2),
          .update "once" { prompt := some "other" } {}] ∧
      ¬ Run.EachStep (storeStep plainEnv) (DeletesOnlyRemoved plainEnv)
        (startStore plainEnv (rootBeside onceJob ("broken", .malformed "\x7b") 1) "UTC" [] 0)
        [.update "once" { prompt := some "other" } {}] ∧
      ¬ Run.EachStep (storeStep plainEnv) (DeletesOnlyRemoved plainEnv)
        (startStore plainEnv (rootWith onceJob) "UTC" [] 0)
        [.external (rootWith { onceJob with prompt := "edited" }), .drain {}, .reload [],
          .update "once" { activeHours := some "08:00-18:00" } {}] := by
  decide +kernel

end MyClaw
