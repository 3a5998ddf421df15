import MyClaw.Inbound.Spool
import Mathlib.Logic.Function.Basic
import Mathlib.Data.List.Perm.Basic

set_option autoImplicit false

/-!
# The replayers of one routing key

Three tasks replay the pending entries of a routing key: the task of `recover_inbound_spool`, the
second phase of `recover_active_session`, and the pre-hook that runs before a new message of the key
is dispatched.  Each takes its own snapshot of the pending entries and then, one entry after the
other, hands the entry to `replay_one_sync` and marks it done once the turn has returned.  Nothing
orders the three: a snapshot taken while another replayer is at work has the entries of that one.

## Main definitions

* `Replayer`, `ReplayState` — the place a replayer has come to, and the three of a key
  with the spool and the main loop.
* `ReplayEvent`, `replayStep` — the machine.
* `ReplayedOnce` — no entry has been handed over twice.
* `SnapshotFresh` — what a snapshot has to satisfy for that.

## Main results

* `owedOnce_iff` — no entry has been or will be handed over twice exactly when all snapshots
  are fresh.
* `replayedOnce_run` — each entry is handed over at most once in every run whose snapshots
  are all fresh.
* `snapshotFresh_of_undisturbed` — they are, where each is taken while no replayer is at work
  and no mark fails.

## Implementation notes

The main loop awaits the dispatch of a message, so there is one pre-hook at a time.  Messages of other
keys pass through the same loop; they replay and mark other entries, and are left out.
-/

namespace MyClaw

/-- The place that a replayer has come to. -/
inductive Replayer
  /-- Not started, or finished. -/
  | off
  /-- Started; the snapshot has not been taken.  The first phase of `recover_active_session` is
  here. -/
  | ready
  /-- Between two entries of the snapshot, with those to come. -/
  | between (left : List SpoolEntry)
  /-- In the turn of an entry. -/
  | turn (entry : SpoolEntry) (left : List SpoolEntry)
  deriving DecidableEq

/-- The numbers of the entries that the replayer will hand over. -/
def Replayer.owes : Replayer → List ℕ
  | .off | .ready => []
  | .between left | .turn _ left => left.map (·.seq)

/-- The tasks that replay the entries of one key. -/
inductive ReplayerId
  /-- The task that `recover_inbound_spool` spawns. -/
  | spoolTask
  /-- `recover_active_session`. -/
  | recoverTask
  /-- The pre-hook of `DispatchTurn`, in the main loop. -/
  | preHook
  deriving DecidableEq

/-- How far `run_startup` has come. -/
inductive StartupStage
  | recovery
  | spool
  | finished
  deriving DecidableEq

/-- A message on its way to the main loop; the number is zero if it is not in the spool. -/
structure SpoolEnvelope where
  seq : ℕ
  msg : PersistedChannelMessage

/-- The replayers of one key, with the spool, the messages that have arrived and the main loop. -/
structure ReplayState where
  channel : String
  account : String
  senderId : String
  store : InboundSpool
  dir : SpoolDir
  replayer : ReplayerId → Replayer
  stage : StartupStage
  queue : List SpoolEnvelope
  /-- The message whose dispatch the main loop awaits. -/
  dispatching : Option SpoolEnvelope
  /-- The numbers of the entries handed to `replay_one_sync`, in order. -/
  handed : List ℕ

namespace ReplayState

/-- Put a replayer at a place. -/
def place (s : ReplayState) (id : ReplayerId) (r : Replayer) : ReplayState :=
  { s with replayer := Function.update s.replayer id r }

/-- The pending entries of the key. -/
def pendingForKey (s : ReplayState) : List SpoolEntry :=
  s.store.pendingFor s.channel s.account s.senderId

/-- The numbers of the entries that the replayers will hand over. -/
def owes (s : ReplayState) : List ℕ :=
  (s.replayer .spoolTask).owes ++ (s.replayer .recoverTask).owes ++ (s.replayer .preHook).owes

end ReplayState

/-- `should_recover_active_session`. -/
def shouldRecoverActiveSession (active nonempty incomplete suspended : Bool) : Bool :=
  active && nonempty && incomplete && !suspended

/-- The steps of the replayers, of the startup and of the main loop. -/
inductive ReplayEvent
  /-- `run_startup` looks at the session of the key. -/
  | startRecovery (active nonempty incomplete suspended hasChannel : Bool)
  /-- `recover_inbound_spool` looks at it. -/
  | startSpoolTask (active nonempty incomplete : Bool)
  /-- `recover_active_session` finds no channel. -/
  | giveUp
  /-- A replayer takes its snapshot. -/
  | snapshot (id : ReplayerId)
  /-- A replayer hands over its next entry, or it is through. -/
  | hand (id : ReplayerId)
  /-- The turn has returned, and the entry is marked. -/
  | turnReturns (id : ReplayerId) (reads writes : Bool)
  /-- A message of the key arrives; attachments bypass the spool. -/
  | arrive (msg : PersistedChannelMessage) (hasFiles : Bool) (now : ℕ) (writes : Bool)
  /-- The main loop takes the next message; an interceptor before `DispatchTurn` may stop it. -/
  | dispatch (stopped : Bool)
  /-- The dispatch returns, and the message is marked. -/
  | dispatchReturns (reads writes : Bool)

/-- The message takes the pre-hook: it is not a replayed one. -/
def SpoolEnvelope.fresh (env : SpoolEnvelope) : Bool := !env.msg.id.startsWith "replay:"

/-- One step. -/
def replayStep (s : ReplayState) : ReplayEvent → ReplayState
  | .startRecovery active nonempty incomplete suspended hasChannel =>
    if s.stage = .recovery then
      let s := { s with stage := .spool }
      if shouldRecoverActiveSession active nonempty incomplete suspended && hasChannel then
        s.place .recoverTask .ready
      else s
    else s
  | .startSpoolTask active nonempty incomplete =>
    if s.stage = .spool then
      let s := { s with stage := .finished }
      -- the incomplete turn is left to `recover_active_session`
      if s.pendingForKey ≠ [] ∧ active = true ∧ (nonempty && incomplete) = false then
        s.place .spoolTask .ready
      else s
    else s
  | .giveUp => if s.replayer .recoverTask = .ready then s.place .recoverTask .off else s
  | .snapshot id =>
    if s.replayer id = .ready then s.place id (.between s.pendingForKey) else s
  | .hand id =>
    match s.replayer id with
    | .between [] => s.place id .off
    | .between (e :: left) =>
      { s.place id (.turn e left) with handed := s.handed ++ [e.seq] }
    | _ => s
  | .turnReturns id reads writes =>
    match s.replayer id with
    | .turn e left =>
      let r := s.store.markDone s.dir e.seq reads writes
      { s.place id (.between left) with store := r.2.1, dir := r.2.2 }
    | _ => s
  | .arrive msg hasFiles now writes =>
    if hasFiles then { s with queue := s.queue ++ [⟨0, msg⟩] }
    else
      let r := s.store.append s.dir s.channel s.account { msg with senderId := s.senderId } now writes
      let s := { s with store := r.2.1, dir := r.2.2 }
      match r.1 with
      | .ok (some seq) => { s with queue := s.queue ++ [⟨seq, msg⟩] }
      | .ok none => s
      | .error _ => { s with queue := s.queue ++ [⟨0, msg⟩] }
  | .dispatch stopped =>
    match s.dispatching, s.queue with
    | none, env :: rest =>
      let s := { s with dispatching := some env, queue := rest }
      if !stopped && env.fresh then s.place .preHook .ready else s
    | _, _ => s
  | .dispatchReturns reads writes =>
    match s.dispatching, s.replayer .preHook with
    | some env, .off =>
      if env.seq = 0 then { s with dispatching := none }
      else
        let r := s.store.markDone s.dir env.seq reads writes
        { s with dispatching := none, store := r.2.1, dir := r.2.2 }
    | _, _ => s

/-- The start of a process on a spool directory. -/
def startReplay (channel account senderId : String) (d : SpoolDir) (unreadable : List ℕ) :
    ReplayState where
  channel := channel
  account := account
  senderId := senderId
  store := .openDir d unreadable
  dir := d
  replayer := fun _ => .off
  stage := .recovery
  queue := []
  dispatching := none
  handed := []

/-! ## The property and its condition -/

/-- No entry has been handed over twice. -/
def ReplayedOnce (s : ReplayState) : Prop := s.handed.Nodup

instance (s : ReplayState) : Decidable (ReplayedOnce s) := inferInstanceAs (Decidable (List.Nodup _))

/-- No entry has been handed over twice, or will be by the snapshots that are there. -/
def OwedOnce (s : ReplayState) : Prop := (s.handed ++ s.owes).Nodup

/-- **The snapshot is fresh**: no entry in it has been handed over before or waits in the snapshot of
another replayer. -/
def SnapshotFresh (s : ReplayState) : ReplayEvent → Prop
  | .snapshot id => s.replayer id = .ready →
    ∀ e ∈ s.pendingForKey, e.seq ∉ s.handed ∧ e.seq ∉ s.owes
  | _ => True

instance (s : ReplayState) (e : ReplayEvent) : Decidable (SnapshotFresh s e) := by
  cases e <;> unfold SnapshotFresh <;> infer_instance

/-- The pending entries have different numbers, none above the counter, which has not gone back. -/
structure PendingApart (s : ReplayState) : Prop where
  apart : (s.store.pending.map (·.seq)).Nodup
  bounded : ∀ e ∈ s.store.pending, e.seq ≤ s.store.seq
  baseline : s.store.baselineSeq ≤ s.store.seq

section

variable {s : ReplayState} {id : ReplayerId} {r : Replayer}

/-! ## What the replayers owe -/

/-- The numbers that the replayers other than `id` will hand over. -/
def ReplayState.owedByOthers (s : ReplayState) : ReplayerId → List ℕ
  | .spoolTask => (s.replayer .recoverTask).owes ++ (s.replayer .preHook).owes
  | .recoverTask => (s.replayer .spoolTask).owes ++ (s.replayer .preHook).owes
  | .preHook => (s.replayer .spoolTask).owes ++ (s.replayer .recoverTask).owes

/-- What is owed, split at one replayer. -/
lemma ReplayState.owes_perm (s : ReplayState) (id : ReplayerId) :
    s.owes.Perm ((s.replayer id).owes ++ s.owedByOthers id) := by
  cases id with
  | spoolTask => exact .of_eq (List.append_assoc _ _ _)
  | recoverTask =>
    have hswap : ((s.replayer .spoolTask).owes ++ (s.replayer .recoverTask).owes).Perm
        ((s.replayer .recoverTask).owes ++ (s.replayer .spoolTask).owes) := List.perm_append_comm
    have h := hswap.append_right (s.replayer .preHook).owes
    rwa [List.append_assoc (s.replayer .recoverTask).owes] at h
  | preHook => exact List.perm_append_comm

/-- A replayer that moves changes what it owes, and nothing else. -/
lemma ReplayState.owes_place (s : ReplayState) (id : ReplayerId) (r : Replayer) :
    (s.place id r).owes.Perm (r.owes ++ s.owedByOthers id) := by
  have hothers : (s.place id r).owedByOthers id = s.owedByOthers id := by
    cases id <;> simp [place, owedByOthers]
  have hself : (s.place id r).replayer id = r := Function.update_self _ _ _
  have h := (s.place id r).owes_perm id
  rwa [hself, hothers] at h

/-- No entry is owed twice, split at one replayer. -/
lemma owedOnce_iff_others (s : ReplayState) (id : ReplayerId) :
    OwedOnce s ↔ (s.handed ++ ((s.replayer id).owes ++ s.owedByOthers id)).Nodup :=
  ((s.owes_perm id).append_left _).nodup_iff

lemma owedOnce_place (s : ReplayState) (id : ReplayerId) (r : Replayer) :
    OwedOnce (s.place id r) ↔ (s.handed ++ (r.owes ++ s.owedByOthers id)).Nodup :=
  ((s.owes_place id r).append_left _).nodup_iff

/-- A replayer that owes nothing more owes nothing twice. -/
lemma OwedOnce.place (h : OwedOnce s) (hr : r.owes.Sublist (s.replayer id).owes) :
    OwedOnce (s.place id r) := by
  rw [owedOnce_place]
  exact ((owedOnce_iff_others s id).1 h).sublist
    ((List.Sublist.refl _).append (hr.append (List.Sublist.refl _)))

/-- The numbers of the key's pending entries are different. -/
lemma PendingApart.pendingForKey (h : PendingApart s) : (s.pendingForKey.map (·.seq)).Nodup := by
  have hperm := List.perm_insertionSort (fun a b : SpoolEntry => a.seq ≤ b.seq)
    (s.store.pending.filter fun e => e.seq ≤ s.store.baselineSeq)
  have hall : (s.store.pendingEntries.map (·.seq)).Nodup :=
    (hperm.map _).nodup_iff.2 (h.apart.sublist (List.filter_sublist.map _))
  exact hall.sublist (List.filter_sublist.map _)

/-- **A snapshot** keeps every entry owed once exactly when it is fresh. -/
lemma owedOnce_snapshot (hI : PendingApart s) (h : OwedOnce s) (hready : s.replayer id = .ready) :
    OwedOnce (s.place id (.between s.pendingForKey)) ↔
      ∀ e ∈ s.pendingForKey, e.seq ∉ s.handed ∧ e.seq ∉ s.owes := by
  have howes : s.owes.Perm (s.owedByOthers id) := by
    have := s.owes_perm id
    rwa [hready] at this
  have hbefore : (s.handed ++ s.owedByOthers id).Nodup := by
    have := (owedOnce_iff_others s id).1 h
    rwa [hready] at this
  have hpending := hI.pendingForKey
  rw [owedOnce_place]
  show (s.handed ++ (s.pendingForKey.map (·.seq) ++ s.owedByOthers id)).Nodup ↔ _
  constructor
  · intro hnd e he
    have hmem : e.seq ∈ s.pendingForKey.map (·.seq) := List.mem_map_of_mem he
    obtain ⟨-, hright, hdisj⟩ := List.nodup_append'.1 hnd
    refine ⟨fun hh => hdisj hh (List.mem_append_left _ hmem), fun ho => ?_⟩
    exact (List.nodup_append'.1 hright).2.2 hmem (howes.mem_iff.1 ho)
  · intro hfresh
    obtain ⟨hhanded, hothers, hdisj⟩ := List.nodup_append'.1 hbefore
    refine List.nodup_append'.2 ⟨hhanded, List.nodup_append'.2 ⟨hpending, hothers, ?_⟩, ?_⟩
    · intro n hn ho
      obtain ⟨e, he, rfl⟩ := List.mem_map.1 hn
      exact (hfresh e he).2 (howes.mem_iff.2 ho)
    · intro n hh hn
      rcases List.mem_append.1 hn with hn | hn
      · obtain ⟨e, he, rfl⟩ := List.mem_map.1 hn
        exact (hfresh e he).1 hh
      · exact hdisj hh hn

/-- Handing an entry over moves it from what is owed to what is handed. -/
lemma owedOnce_hand {e : SpoolEntry} {left : List SpoolEntry}
    (hid : s.replayer id = .between (e :: left)) (h : OwedOnce s) :
    OwedOnce { s.place id (.turn e left) with handed := s.handed ++ [e.seq] } := by
  have hbefore := (owedOnce_iff_others s id).1 h
  rw [hid] at hbefore
  have hperm : (s.handed ++ [e.seq] ++ (left.map (·.seq) ++ s.owedByOthers id)).Nodup := by
    simpa [Replayer.owes] using hbefore
  exact (((s.owes_place id (.turn e left)).append_left _).nodup_iff).2 hperm

/-! ## One step -/

/-- What the replayers owe depends on their places only. -/
lemma OwedOnce.congr {s' : ReplayState} (h : OwedOnce s) (hhanded : s'.handed = s.handed)
    (hreplayer : s'.replayer = s.replayer) : OwedOnce s' := by
  unfold OwedOnce ReplayState.owes at h ⊢
  rwa [hhanded, hreplayer]

/-- **The step lemma**: after a step every entry is owed once exactly when the step takes no stale
snapshot. -/
lemma owedOnce_step (hI : PendingApart s) (h : OwedOnce s) (e : ReplayEvent) :
    OwedOnce (replayStep s e) ↔ SnapshotFresh s e := by
  cases e with
  | snapshot id =>
    simp only [replayStep, SnapshotFresh]
    split
    · rename_i hready
      rw [owedOnce_snapshot hI h hready]
      exact ⟨fun hf _ => hf, fun hf => hf hready⟩
    · rename_i hready
      exact iff_of_true h fun hr => absurd hr hready
  | startRecovery active nonempty incomplete suspended hasChannel =>
    refine iff_of_true ?_ trivial
    simp only [replayStep]
    split
    · split
      · exact OwedOnce.place (h.congr rfl rfl) (List.nil_sublist _)
      · exact h.congr rfl rfl
    · exact h
  | startSpoolTask active nonempty incomplete =>
    refine iff_of_true ?_ trivial
    simp only [replayStep]
    split
    · split
      · exact OwedOnce.place (h.congr rfl rfl) (List.nil_sublist _)
      · exact h.congr rfl rfl
    · exact h
  | giveUp =>
    refine iff_of_true ?_ trivial
    simp only [replayStep]
    split
    · exact h.place (List.nil_sublist _)
    · exact h
  | hand id =>
    refine iff_of_true ?_ trivial
    simp only [replayStep]
    split
    · exact h.place (List.nil_sublist _)
    · rename_i e left hid
      exact owedOnce_hand hid h
    · exact h
  | turnReturns id reads writes =>
    refine iff_of_true ?_ trivial
    simp only [replayStep]
    split
    · rename_i e left hid
      have hplace : OwedOnce (s.place id (.between left)) := by
        refine h.place ?_
        rw [hid]
        exact List.Sublist.refl _
      exact hplace.congr rfl rfl
    · exact h
  | arrive msg hasFiles now writes =>
    refine iff_of_true ?_ trivial
    simp only [replayStep]
    split
    · exact h.congr rfl rfl
    · split <;> exact h.congr rfl rfl
  | dispatch stopped =>
    refine iff_of_true ?_ trivial
    simp only [replayStep]
    split
    · split
      · exact OwedOnce.place (h.congr rfl rfl) (List.nil_sublist _)
      · exact h.congr rfl rfl
    · exact h
  | dispatchReturns reads writes =>
    refine iff_of_true ?_ trivial
    simp only [replayStep]
    split
    · split <;> exact h.congr rfl rfl
    · exact h

/-! ## The pending entries stay apart -/

lemma PendingApart.congr {s' : ReplayState} (h : PendingApart s) (hstore : s'.store = s.store) :
    PendingApart s' := by
  constructor
  · rw [hstore]
    exact h.apart
  · rw [hstore]
    exact h.bounded
  · rw [hstore]
    exact h.baseline

/-- A mark only takes an entry away. -/
lemma PendingApart.markDone {s' : ReplayState} {seq : ℕ} {reads writes : Bool}
    (h : PendingApart s) (hstore : s'.store = (s.store.markDone s.dir seq reads writes).2.1) :
    PendingApart s' := by
  rcases s.store.markDone_cases s.dir seq reads writes with ⟨e, -, -, heq⟩ | ⟨-, heq⟩
  · rw [heq] at hstore
    constructor
    · rw [hstore]
      exact h.apart.sublist (List.filter_sublist.map _)
    · rw [hstore]
      exact fun x hx => h.bounded x (List.mem_filter.1 hx).1
    · rw [hstore]
      exact h.baseline
  · rw [heq] at hstore
    exact h.congr hstore

/-- An append adds an entry with the next number. -/
lemma PendingApart.append {s' : ReplayState} {channel account : String}
    {msg : PersistedChannelMessage} {now : ℕ} {writes : Bool} (h : PendingApart s)
    (hstore : s'.store = (s.store.append s.dir channel account msg now writes).2.1) :
    PendingApart s' := by
  by_cases hdup : dedupKey channel account msg.id ∈ s.store.seen
  · rw [InboundSpool.append_duplicate hdup] at hstore
    exact h.congr hstore
  · cases writes with
    | false =>
      rw [InboundSpool.append_failed hdup] at hstore
      constructor
      · rw [hstore]
        exact h.apart
      · rw [hstore]
        exact fun x hx => Nat.le_succ_of_le (h.bounded x hx)
      · rw [hstore]
        exact Nat.le_succ_of_le h.baseline
    | true =>
      rw [InboundSpool.append_accepted hdup] at hstore
      constructor
      · rw [hstore]
        simp only [List.map_append, List.map_cons, List.map_nil]
        refine List.nodup_append'.2 ⟨h.apart, List.nodup_singleton _, ?_⟩
        intro n hn hlast
        obtain ⟨x, hx, rfl⟩ := List.mem_map.1 hn
        have hle := h.bounded x hx
        have heq := List.mem_singleton.1 hlast
        omega
      · rw [hstore]
        intro x hx
        rcases List.mem_append.1 hx with hx | hx
        · exact Nat.le_succ_of_le (h.bounded x hx)
        · rw [List.mem_singleton.1 hx]
      · rw [hstore]
        exact Nat.le_succ_of_le h.baseline

/-- No step repeats a number among the pending entries. -/
lemma PendingApart.step (h : PendingApart s) (e : ReplayEvent) :
    PendingApart (replayStep s e) := by
  cases e with
  | turnReturns id reads writes =>
    simp only [replayStep]
    split
    · exact h.markDone rfl
    · exact h
  | dispatchReturns reads writes =>
    simp only [replayStep]
    split
    · split
      · exact h.congr rfl
      · exact h.markDone rfl
    · exact h
  | arrive msg hasFiles now writes =>
    simp only [replayStep]
    split
    · exact h.congr rfl
    · split <;> exact h.append rfl
  | startRecovery active nonempty incomplete suspended hasChannel =>
    simp only [replayStep]
    split
    · split <;> exact h.congr rfl
    · exact h
  | startSpoolTask active nonempty incomplete =>
    simp only [replayStep]
    split
    · split <;> exact h.congr rfl
    · exact h
  | giveUp =>
    simp only [replayStep]
    split
    · exact h.congr rfl
    · exact h
  | snapshot id =>
    simp only [replayStep]
    split
    · exact h.congr rfl
    · exact h
  | hand id =>
    simp only [replayStep]
    split
    · exact h.congr rfl
    · exact h.congr rfl
    · exact h
  | dispatch stopped =>
    simp only [replayStep]
    split
    · split <;> exact h.congr rfl
    · exact h

end

/-! ## When a snapshot is fresh -/

/-- The replayer is not between its snapshot and its end. -/
def Replayer.idle : Replayer → Bool
  | .off | .ready => true
  | .between _ | .turn _ _ => false

/-- **Nothing disturbs a replay**: a snapshot is taken while no replayer is at work, and the mark behind
a turn does not fail. -/
def Undisturbed (s : ReplayState) : ReplayEvent → Prop
  | .snapshot _ => ∀ id, (s.replayer id).idle = true
  | .turnReturns id reads writes => ∀ e left, s.replayer id = .turn e left →
    (s.store.markDone s.dir e.seq reads writes).1 = .ok true
  | _ => True

/-- The replayer may be started by a later step. -/
def ReplayState.mayStart (s : ReplayState) : ReplayerId → Prop
  | .recoverTask => s.stage = .recovery
  | .spoolTask => s.stage ≠ .finished
  | .preHook => s.dispatching = none

/-- A replayer that may be started has not been, or has ended. -/
def StartedInOrder (s : ReplayState) : Prop := ∀ id, s.mayStart id → s.replayer id = .off

/-- Each entry that was handed over and is still pending is in a turn. -/
def HandedMarked (s : ReplayState) : Prop :=
  ∀ n ∈ s.handed, n ∈ s.pendingForKey.map (·.seq) →
    ∃ id e left, s.replayer id = .turn e left ∧ e.seq = n

section

variable {s : ReplayState} {id : ReplayerId} {r : Replayer}

lemma ReplayState.mem_pendingForKey {e : SpoolEntry} : e ∈ s.pendingForKey ↔
    (e ∈ s.store.pending ∧ e.seq ≤ s.store.baselineSeq) ∧
      e.channel = s.channel ∧ e.account = s.account ∧ e.msg.senderId = s.senderId := by
  have hperm := List.perm_insertionSort (fun a b : SpoolEntry => a.seq ≤ b.seq)
    (s.store.pending.filter fun e => e.seq ≤ s.store.baselineSeq)
  rw [pendingForKey, InboundSpool.pendingFor, List.mem_filter, decide_eq_true_eq]
  refine and_congr_left' (hperm.mem_iff.trans ?_)
  rw [List.mem_filter, decide_eq_true_eq]

/-- A replayer that has been started may go anywhere. -/
lemma StartedInOrder.place (h : StartedInOrder s) (hid : s.replayer id ≠ .off) :
    StartedInOrder (s.place id r) := by
  intro other hmay
  have hne : other ≠ id := by
    rintro rfl
    exact hid (h other (by cases other <;> exact hmay))
  exact (Function.update_of_ne hne _ _).trans (h other (by cases other <;> exact hmay))

/-- Fewer replayers may be started, and those that may have not moved. -/
lemma StartedInOrder.congr {s' : ReplayState} (h : StartedInOrder s)
    (hsame : ∀ id, s'.mayStart id → s.mayStart id ∧ s'.replayer id = s.replayer id) :
    StartedInOrder s' :=
  fun id hmay => (hsame id hmay).2.trans (h id (hsame id hmay).1)

/-- No step starts a replayer that is at work. -/
lemma StartedInOrder.step (h : StartedInOrder s) (e : ReplayEvent) :
    StartedInOrder (replayStep s e) := by
  cases e with
  | startRecovery active nonempty incomplete suspended hasChannel =>
    simp only [replayStep]
    split
    · split <;> exact h.congr fun id hmay => by
        cases id <;> simp_all [ReplayState.mayStart, ReplayState.place]
    · exact h
  | startSpoolTask active nonempty incomplete =>
    simp only [replayStep]
    split
    · split <;> exact h.congr fun id hmay => by
        cases id <;> simp_all [ReplayState.mayStart, ReplayState.place]
    · exact h
  | giveUp =>
    simp only [replayStep]
    split
    · exact h.place (by simp [*])
    · exact h
  | snapshot id =>
    simp only [replayStep]
    split
    · exact h.place (by simp [*])
    · exact h
  | hand id =>
    simp only [replayStep]
    split
    · exact h.place (by simp [*])
    · exact (h.place (by simp [*])).congr fun other hmay => ⟨by cases other <;> exact hmay, rfl⟩
    · exact h
  | turnReturns id reads writes =>
    simp only [replayStep]
    split
    · exact (h.place (by simp [*])).congr fun other hmay => ⟨by cases other <;> exact hmay, rfl⟩
    · exact h
  | arrive msg hasFiles now writes =>
    simp only [replayStep]
    split
    · exact h.congr fun other hmay => ⟨by cases other <;> exact hmay, rfl⟩
    · split <;> exact h.congr fun other hmay => ⟨by cases other <;> exact hmay, rfl⟩
  | dispatch stopped =>
    simp only [replayStep]
    split
    · split <;> exact h.congr fun id hmay => by
        cases id <;> simp_all [ReplayState.mayStart, ReplayState.place]
    · exact h
  | dispatchReturns reads writes =>
    simp only [replayStep]
    split
    · rename_i hhook
      split <;> exact fun id hmay => by
        cases id with
        | preHook => exact hhook
        | spoolTask => exact h .spoolTask hmay
        | recoverTask => exact h .recoverTask hmay
    · exact h

/-- A replayer that is in no turn may go anywhere. -/
lemma HandedMarked.place (h : HandedMarked s) (hid : ∀ e left, s.replayer id ≠ .turn e left) :
    HandedMarked (s.place id r) := by
  intro n hn hpending
  obtain ⟨id', e, left, hturn, hseq⟩ := h n hn hpending
  have hne : id' ≠ id := by
    rintro rfl
    exact hid e left hturn
  exact ⟨id', e, left, (Function.update_of_ne hne _ _).trans hturn, hseq⟩

/-- Fewer entries are pending, and the replayers have not moved. -/
lemma HandedMarked.fewer {s' : ReplayState} (h : HandedMarked s) (hhanded : s'.handed = s.handed)
    (hreplayer : s'.replayer = s.replayer)
    (hpending : ∀ e ∈ s'.pendingForKey, e ∈ s.pendingForKey) : HandedMarked s' := by
  intro n hn hmem
  rw [hreplayer]
  obtain ⟨e, he, rfl⟩ := List.mem_map.1 hmem
  exact h _ (hhanded ▸ hn) (List.mem_map_of_mem (hpending e he))

/-- What is pending after a mark was pending before. -/
lemma mem_pendingForKey_of_markDone {s' : ReplayState} {seq : ℕ} {reads writes : Bool} {e : SpoolEntry}
    (hkey : (s'.channel, s'.account, s'.senderId) = (s.channel, s.account, s.senderId))
    (hstore : s'.store = (s.store.markDone s.dir seq reads writes).2.1) (he : e ∈ s'.pendingForKey) :
    e ∈ s.pendingForKey := by
  simp only [Prod.mk.injEq] at hkey
  rw [ReplayState.mem_pendingForKey, hkey.1, hkey.2.1, hkey.2.2, hstore] at he
  rw [ReplayState.mem_pendingForKey]
  rcases s.store.markDone_cases s.dir seq reads writes with ⟨x, -, -, heq⟩ | ⟨-, heq⟩
  · rw [heq] at he
    exact ⟨⟨(List.mem_filter.1 he.1.1).1, he.1.2⟩, he.2⟩
  · rwa [heq] at he

/-- A message that arrives is in no snapshot. -/
lemma mem_pendingForKey_of_append {s' : ReplayState} {channel account : String}
    {msg : PersistedChannelMessage} {now : ℕ} {writes : Bool} {e : SpoolEntry}
    (hkey : (s'.channel, s'.account, s'.senderId) = (s.channel, s.account, s.senderId))
    (hbase : s.store.baselineSeq ≤ s.store.seq)
    (hstore : s'.store = (s.store.append s.dir channel account msg now writes).2.1)
    (he : e ∈ s'.pendingForKey) : e ∈ s.pendingForKey := by
  simp only [Prod.mk.injEq] at hkey
  rw [ReplayState.mem_pendingForKey, hkey.1, hkey.2.1, hkey.2.2, hstore] at he
  rw [ReplayState.mem_pendingForKey]
  by_cases hdup : dedupKey channel account msg.id ∈ s.store.seen
  · rwa [InboundSpool.append_duplicate hdup] at he
  · cases writes with
    | false => rwa [InboundSpool.append_failed hdup] at he
    | true =>
      rw [InboundSpool.append_accepted hdup] at he
      obtain ⟨⟨hmem, hle⟩, hrest⟩ := he
      refine ⟨⟨(List.mem_append.1 hmem).resolve_right fun hlast => ?_, hle⟩, hrest⟩
      rw [List.mem_singleton.1 hlast] at hle
      dsimp only at hle
      omega

/-- A step that nothing disturbs keeps each entry that was handed over in its turn or marked. -/
lemma HandedMarked.step (h : HandedMarked s) (hI : PendingApart s) (hstart : StartedInOrder s)
    (e : ReplayEvent) (he : Undisturbed s e) :
    HandedMarked (replayStep s e) := by
  have hoff {id : ReplayerId} (hid : s.replayer id = .off) (e : SpoolEntry) (left : List SpoolEntry) :
      s.replayer id ≠ .turn e left := by simp [hid]
  cases e with
  | startRecovery active nonempty incomplete suspended hasChannel =>
    simp only [replayStep]
    split
    · rename_i hstage
      split
      · exact (h.place (hoff (hstart .recoverTask hstage))).fewer rfl rfl fun _ => id
      · exact h.fewer rfl rfl fun _ => id
    · exact h
  | startSpoolTask active nonempty incomplete =>
    simp only [replayStep]
    split
    · rename_i hstage
      split
      · exact (h.place (hoff (hstart .spoolTask (by simp [ReplayState.mayStart, hstage])))).fewer rfl rfl fun _ => id
      · exact h.fewer rfl rfl fun _ => id
    · exact h
  | giveUp =>
    simp only [replayStep]
    split
    · exact h.place (by simp [*])
    · exact h
  | snapshot id =>
    simp only [replayStep]
    split
    · exact h.place (by simp [*])
    · exact h
  | hand id =>
    simp only [replayStep]
    split
    · exact h.place (by simp [*])
    · rename_i x left hbetween
      have hplaced : HandedMarked (s.place id (.turn x left)) := h.place (by simp [hbetween])
      intro n hn hpending
      rcases List.mem_append.1 hn with hn | hn
      · exact hplaced n hn hpending
      · exact ⟨id, x, left, Function.update_self _ _ _, (List.mem_singleton.1 hn).symm⟩
    · exact h
  | turnReturns id reads writes =>
    simp only [replayStep]
    split
    · rename_i x left hturn
      have hmarked := he x left hturn
      rcases s.store.markDone_cases s.dir x.seq reads writes with ⟨y, -, -, heq⟩ | ⟨hnot, -⟩
      · intro n hn hpending
        obtain ⟨z, hz, rfl⟩ := List.mem_map.1 hpending
        have hne : z.seq ≠ x.seq := by
          rw [ReplayState.mem_pendingForKey, heq] at hz
          simpa using (List.mem_filter.1 hz.1.1).2
        have hbefore : z ∈ s.pendingForKey :=
          mem_pendingForKey_of_markDone (by rfl) (by rfl) hz
        obtain ⟨id', x', left', hturn', hseq⟩ := h _ hn (List.mem_map_of_mem hbefore)
        have hother : id' ≠ id := by
          rintro rfl
          rw [hturn] at hturn'
          cases hturn'
          exact hne hseq.symm
        exact ⟨id', x', left', (Function.update_of_ne hother _ _).trans hturn', hseq⟩
      · exact absurd hmarked hnot
    · exact h
  | arrive msg hasFiles now writes =>
    simp only [replayStep]
    split
    · exact h.fewer rfl rfl fun _ => id
    · split <;> exact h.fewer rfl rfl fun _ => mem_pendingForKey_of_append rfl hI.baseline rfl
  | dispatch stopped =>
    simp only [replayStep]
    split
    · rename_i hnone _
      split
      · exact (h.place (hoff (hstart .preHook hnone))).fewer rfl rfl fun _ => id
      · exact h.fewer rfl rfl fun _ => id
    · exact h
  | dispatchReturns reads writes =>
    simp only [replayStep]
    split
    · split
      · exact h.fewer rfl rfl fun _ => id
      · exact h.fewer rfl rfl fun _ => mem_pendingForKey_of_markDone rfl rfl
    · exact h

end

/-! ## Runs -/

section

variable {channel account senderId : String} {d : SpoolDir} {unreadable : List ℕ}

/-- A directory has one file of each name. -/
lemma startReplay_apart (hd : d.names.Nodup) :
    PendingApart (startReplay channel account senderId d unreadable) := by
  have hperm := List.perm_insertionSort (fun a b : SpoolEntry => a.seq ≤ b.seq)
    ((d.entries.filter fun e => e.seq ∉ unreadable).filter fun e => e.status = .pending)
  constructor
  · have hentries : (d.entries.map (·.seq)).Nodup := hd.sublist (List.sublist_append_left _ _)
    exact (hperm.map _).nodup_iff.2
      (hentries.sublist ((List.filter_sublist.trans List.filter_sublist).map _))
  · intro e he
    have he' := (List.mem_filter.1 (hperm.mem_iff.1 he)).1
    exact SpoolDir.le_maxSeq (List.mem_filter.1 he').1
  · exact Nat.le_refl _

/-- **Owed once**: in a run no entry has been or will be handed over twice exactly when all its
snapshots are fresh. -/
theorem owedOnce_iff (hd : d.names.Nodup) (es : List ReplayEvent) :
    Run.Always replayStep OwedOnce (startReplay channel account senderId d unreadable) es ↔
      Run.EachStep replayStep SnapshotFresh (startReplay channel account senderId d unreadable) es :=
  Run.always_iff_eachStep (fun _ e hI => hI.step e) (fun _ e hI h => owedOnce_step hI h e)
    (startReplay_apart hd) List.nodup_nil

/-- **Replayed once**: whatever the replayers, the startup and the main loop do, no entry is handed
over twice if every snapshot is fresh when it is taken. -/
theorem replayedOnce_run (hd : d.names.Nodup) (es : List ReplayEvent)
    (hC : Run.EachStep replayStep SnapshotFresh
      (startReplay channel account senderId d unreadable) es) :
    Run.Always replayStep ReplayedOnce (startReplay channel account senderId d unreadable) es :=
  ((owedOnce_iff hd es).2 hC).imp fun _ h => h.sublist (List.sublist_append_left _ _)

/-- **When all snapshots are fresh**: where each is taken while no replayer is at work, and no mark
behind a turn fails. -/
theorem snapshotFresh_of_undisturbed (hd : d.names.Nodup) (es : List ReplayEvent)
    (h : Run.EachStep replayStep Undisturbed (startReplay channel account senderId d unreadable) es) :
    Run.EachStep replayStep SnapshotFresh (startReplay channel account senderId d unreadable) es := by
  refine Run.eachStep_of_step
    (P := fun s => PendingApart s ∧ StartedInOrder s ∧ HandedMarked s) ?_ ?_
    ⟨startReplay_apart hd, fun _ _ => rfl, fun _ hn => by cases hn⟩ h
  · rintro s e ⟨hI, hstart, hmarked⟩ he
    exact ⟨hI.step e, hstart.step e, hmarked.step hI hstart e he⟩
  · rintro s e ⟨-, -, hmarked⟩ he
    cases e with
    | snapshot id =>
      intro _ x hx
      refine ⟨fun hh => ?_, fun ho => ?_⟩
      · obtain ⟨id', e, left, hturn, -⟩ := hmarked _ hh (List.mem_map_of_mem hx)
        have hidle := he id'
        rw [hturn] at hidle
        cases hidle
      · have hnone (id' : ReplayerId) : (s.replayer id').owes = [] := by
          have hidle := he id'
          cases hr : s.replayer id' with
          | off | ready => rfl
          | between _ | turn _ _ => simp [hr, Replayer.idle] at hidle
        simp [ReplayState.owes, hnone] at ho
    | _ => trivial

end

/-- A directory with two messages of one sender that were not handled before the process ended. -/
def twoPending : SpoolDir :=
  ⟨[⟨1, "telegram", "bot", ⟨"m1", "user", "hello"⟩, .pending, 0⟩,
    ⟨2, "telegram", "bot", ⟨"m2", "user", "again"⟩, .pending, 5⟩], []⟩

/-- The startup replays both messages, and a third one arrives afterwards. -/
theorem replayedOnce_run_startup :
    Run.Always replayStep ReplayedOnce (startReplay "telegram" "bot" "user" twoPending [])
      [.startRecovery true true false false true, .startSpoolTask true true false,
        .snapshot .spoolTask, .hand .spoolTask, .turnReturns .spoolTask true true,
        .hand .spoolTask, .turnReturns .spoolTask true true, .hand .spoolTask,
        .arrive ⟨"m3", "user", "more"⟩ false 10 true, .dispatch false, .snapshot .preHook,
        .hand .preHook, .dispatchReturns true true] :=
  replayedOnce_run (by decide +kernel) _ (by decide +kernel)

/-- **A message during the replay**: the startup task is in the turn of the first entry when a new
message of the sender arrives; the pre-hook hands the same entry over again, while its file is still
pending. -/
theorem replay_hands_over_twice :
    ¬ Run.Always replayStep ReplayedOnce (startReplay "telegram" "bot" "user" twoPending [])
        [.startRecovery true true false false true, .startSpoolTask true true false,
          .snapshot .spoolTask, .hand .spoolTask,
          .arrive ⟨"m3", "user", "more"⟩ false 10 true, .dispatch false, .snapshot .preHook,
          .hand .preHook] ∧
      let s := Run.exec replayStep (startReplay "telegram" "bot" "user" twoPending [])
        [.startRecovery true true false false true, .startSpoolTask true true false,
          .snapshot .spoolTask, .hand .spoolTask,
          .arrive ⟨"m3", "user", "more"⟩ false 10 true, .dispatch false, .snapshot .preHook,
          .hand .preHook]
      s.handed = [1, 1] ∧ (s.dir.read 1).map (·.status) = some .pending := by
  decide +kernel

end MyClaw
