import MyClaw.Inbound.Spool
import MyClaw.Lib.FirstMatch
import MyClaw.Lib.Keyed

set_option autoImplicit false

/-!
# The queue of completion notices

`CompletionNoticeStore` (`agents/orchestrator/completion_queue.rs`) keeps the notices of delegations
that have not reached the history of their session: one file for each, and a table in memory that is
built from the files when the store is opened.  An id is remembered for the life of the process, also
after its notice has been delivered.

## Main definitions

* `CompletionNoticeEntry`, `NoticeDir` — a notice, and the directory.
* `CompletionNoticeStore` — the store in memory, with `openDir`, `append`, `markDelivered`,
  `pendingEntries`.
* `NoticeRun`, `noticeQueueStep` — the store with a ledger of the notices it owes.
* `PendingExact`, `NoticeLaw` — what the calls answer.

## Main results

* `noticeQueue_run` — every run keeps the law.
* `not_appendsAgain` — a delivered id is not persisted again before the store is reopened.

## Implementation notes

The file `{seq}.json` is named by the number of the entry in it, as in the inbound spool; files that do
not parse are kept by their number.  A write goes to a temporary file that is renamed at the end: a
crash in it, or before a file is removed, is a reopening.
-/

namespace MyClaw

/-! ## Notices and their files -/

/-- `DeliveryState`. -/
inductive DeliveryState
  | pending
  /-- Only in files of older versions. -/
  | delivered
  deriving DecidableEq

/-- `CompletionNoticeEntry`. -/
structure CompletionNoticeEntry where
  seq : ℕ
  id : String
  subSessionId : String
  parentSessionId : String
  status : Option String
  content : String
  silencedOverride : Option Bool
  sentMessageCount : ℕ
  enqueuedAt : ℕ
  deliveryState : DeliveryState
  deriving DecidableEq

/-- The entry as `append` writes it. -/
def CompletionNoticeEntry.numbered (e : CompletionNoticeEntry) (seq : ℕ) : CompletionNoticeEntry :=
  { e with seq := seq, deliveryState := .pending }

/-- The directory: the entries in its files, and the numbers of the files that do not parse. -/
structure NoticeDir where
  entries : List CompletionNoticeEntry
  corrupt : List ℕ
  distinct : (entries.map (·.seq)).Nodup

namespace NoticeDir

/-- The numbers in the names of the files. -/
def names (d : NoticeDir) : List ℕ := d.entries.map (·.seq) ++ d.corrupt

/-- The largest number of a file name, zero without files. -/
def maxSeq (d : NoticeDir) : ℕ := d.names.foldr max 0

/-- The files whose entries meet a condition; the others are removed. -/
def keep (d : NoticeDir) (p : CompletionNoticeEntry → Bool) : NoticeDir where
  entries := d.entries.filter p
  corrupt := d.corrupt
  distinct := d.distinct.sublist (List.filter_sublist.map _)

/-- `remove_file`. -/
def remove (d : NoticeDir) (seq : ℕ) : NoticeDir :=
  { d.keep (·.seq ≠ seq) with corrupt := d.corrupt.filter (· ≠ seq) }

/-- `write_entry`: the file of the entry's number holds the entry. -/
def writeEntry (d : NoticeDir) (e : CompletionNoticeEntry) : NoticeDir where
  entries := (d.remove e.seq).entries ++ [e]
  corrupt := (d.remove e.seq).corrupt
  distinct := by
    rw [List.map_append, List.nodup_append]
    refine ⟨(d.remove e.seq).distinct, List.nodup_singleton _, ?_⟩
    intro n hn m hm hnm
    obtain ⟨x, hx, rfl⟩ := List.mem_map.1 hn
    obtain rfl := List.mem_singleton.1 hm
    exact of_decide_eq_true (List.mem_filter.1 hx).2 hnm

/-- The entries that are still to be delivered. -/
def pending (d : NoticeDir) : List CompletionNoticeEntry :=
  d.entries.filter (·.deliveryState = .pending)

end NoticeDir

/-! ## The store -/

/-- `CompletionNoticeStore`, without its directory. -/
structure CompletionNoticeStore where
  /-- The last number assigned; a `u64` in the program, which does not come round. -/
  seq : ℕ
  /-- The ids known in this process. -/
  seen : List String
  /-- The pending entries. -/
  pending : List CompletionNoticeEntry

namespace CompletionNoticeStore

/-- The order of the pending entries. -/
def bySeq (es : List CompletionNoticeEntry) : List CompletionNoticeEntry :=
  es.insertionSort (·.seq ≤ ·.seq)

/-- `open`: build the store from the files, in the order in which the directory lists them.  The files
of the numbers `unreadable` are skipped, as are those that do not parse; their numbers count. -/
def openDir (d : NoticeDir) (order : List CompletionNoticeEntry) (unreadable : List ℕ) :
    CompletionNoticeStore :=
  let parsed := order.filter fun e => e.seq ∉ unreadable
  { seq := d.maxSeq
    seen := parsed.map (·.id)
    pending := bySeq (parsed.filter (·.deliveryState = .pending)) }

/-- The directory after `open`: the tombstones that it can read and remove are gone. -/
def openedDir (d : NoticeDir) (unreadable stuck : List ℕ) : NoticeDir :=
  d.keep fun e => e.deliveryState = .pending ∨ e.seq ∈ unreadable ∨ e.seq ∈ stuck

/-- `append`: the outcome, the store and the directory.  `writes` tells whether the file can be
written. -/
def append (st : CompletionNoticeStore) (d : NoticeDir) (e : CompletionNoticeEntry)
    (writes : Bool) : Except IoError (Option ℕ) × CompletionNoticeStore × NoticeDir :=
  if e.id ∈ st.seen then (.ok none, st, d)
  else
    let seq := st.seq + 1
    -- the id and the number are taken before the file is written
    let taken := { st with seen := st.seen ++ [e.id], seq := seq }
    if writes then
      (.ok (some seq), { taken with pending := taken.pending ++ [e.numbered seq] },
        d.writeEntry (e.numbered seq))
    else (.error .failed, taken, d)

/-- `mark_delivered`: the outcome, the store and the directory.  `removes` tells whether the file can be
removed. -/
def markDelivered (st : CompletionNoticeStore) (d : NoticeDir) (id : String) (removes : Bool) :
    Except IoError Bool × CompletionNoticeStore × NoticeDir :=
  match st.pending.find? (·.id = id) with
  | none => (.ok false, st, d)
  | some entry =>
    -- the entry leaves the table before its file is removed
    let left := { st with pending := st.pending.eraseP (·.id = id) }
    if removes = true ∨ entry.seq ∉ d.names then (.ok true, left, d.remove entry.seq)
    else (.error .failed, left, d)

/-- `pending`. -/
def pendingEntries (st : CompletionNoticeStore) : List CompletionNoticeEntry := bySeq st.pending

end CompletionNoticeStore

/-! ## The machine -/

/-- A notice that the store has accepted and not delivered; `held` if the process knows of it. -/
structure OwedNotice where
  entry : CompletionNoticeEntry
  held : Bool

/-- The notice that the process knows of under an id is taken off. -/
def setAside (id : String) (ledger : List OwedNotice) : List OwedNotice :=
  FirstMatch.update (fun o => (o.entry.id, o.held)) (id, true) (fun o => { o with held := false })
    ledger

/-- The store and the directory, with what the calls have answered. -/
structure NoticeRun where
  store : CompletionNoticeStore
  dir : NoticeDir
  /-- The notices whose `append` returned a number and for which no `mark_delivered` has returned
  true, in the order of their appends. -/
  ledger : List OwedNotice
  /-- The ids that the last `open` has read. -/
  opened : List String
  /-- The ids that this process has accepted, and those whose write has failed. -/
  accepted : List String
  failed : List String

/-- A call, with what the file system does; a reopening is a restart of the process. -/
inductive NoticeCall
  | append (e : CompletionNoticeEntry) (writes : Bool)
  | markDelivered (id : String) (removes : Bool)
  | reopen (order : List CompletionNoticeEntry) (unreadable stuck : List ℕ)

/-- The process is restarted. -/
def NoticeRun.reopen (s : NoticeRun) (order : List CompletionNoticeEntry)
    (unreadable stuck : List ℕ) : NoticeRun where
  store := .openDir s.dir order unreadable
  dir := CompletionNoticeStore.openedDir s.dir unreadable stuck
  ledger := s.ledger.map fun o => { o with held := o.entry.seq ∉ unreadable }
  opened := (order.filter fun e => e.seq ∉ unreadable).map (·.id)
  accepted := []
  failed := []

/-- A directory, as the first process opens it. -/
def NoticeRun.start (d : NoticeDir) : NoticeRun :=
  NoticeRun.reopen
    { store := ⟨0, [], []⟩
      dir := d
      ledger := (CompletionNoticeStore.bySeq d.pending).map (⟨·, true⟩)
      opened := []
      accepted := []
      failed := [] } d.entries [] []

/-- What a call does; the ledger follows its answer. -/
def noticeQueueStep (s : NoticeRun) : NoticeCall → NoticeRun
  | .append e writes =>
    match s.store.append s.dir e writes with
    | (.ok (some seq), store, dir) =>
      { s with
        store := store
        dir := dir
        ledger := s.ledger ++ [⟨e.numbered seq, true⟩]
        accepted := s.accepted ++ [e.id] }
    | (.ok none, store, dir) => { s with store := store, dir := dir }
    | (.error _, store, dir) =>
      { s with store := store, dir := dir, failed := s.failed ++ [e.id] }
  | .markDelivered id removes =>
    match s.store.markDelivered s.dir id removes with
    | (.ok true, store, dir) =>
      { s with
        store := store
        dir := dir
        ledger := s.ledger.eraseP fun o => o.entry.id = id ∧ o.held = true }
    | (.ok false, store, dir) => { s with store := store, dir := dir }
    | (.error _, store, dir) =>
      { s with store := store, dir := dir, ledger := setAside id s.ledger }
  | .reopen order unreadable stuck =>
    if order.Perm s.dir.entries then s.reopen order unreadable stuck else s

/-! ## The property -/

/-- The notices of the ledger. -/
def NoticeRun.owed (s : NoticeRun) : List CompletionNoticeEntry := s.ledger.map (·.entry)

/-- The notices of the ledger that the process knows of. -/
def NoticeRun.heldEntries (s : NoticeRun) : List CompletionNoticeEntry :=
  (s.ledger.filter (·.held)).map (·.entry)

/-- **The pending notices** are those of the ledger, in the order of their numbers. -/
def PendingExact (s : NoticeRun) : Prop :=
  s.store.pendingEntries = s.heldEntries ∧ (s.heldEntries.map (·.seq)).Pairwise (· < ·)

/-- **What a call answers and changes.**  An id that the process has accepted, or has found at its
start, is not appended again; one that it has not tried is, if the file can be written.  A mark
takes a pending notice.  What is found at a restart is what is owed, and the tombstones. -/
def NoticeLaw (s : NoticeRun) : NoticeCall → Prop
  | .append e writes =>
    let r := s.store.append s.dir e writes
    (e.id ∈ s.opened ∨ e.id ∈ s.accepted → r = (.ok none, s.store, s.dir)) ∧
      (e.id ∉ s.opened → e.id ∉ s.accepted → e.id ∉ s.failed →
        if writes = true then
          ∃ seq, r.1 = .ok (some seq) ∧
            r.2.1.pendingEntries = s.store.pendingEntries ++ [e.numbered seq]
        else
          r.1 = .error .failed ∧ r.2.1.pendingEntries = s.store.pendingEntries ∧ r.2.2 = s.dir)
  | .markDelivered id removes =>
    (s.store.markDelivered s.dir id removes).1 =
      if ∃ e ∈ s.store.pendingEntries, e.id = id then
        if removes = true then .ok true else .error .failed
      else .ok false
  | .reopen order unreadable stuck =>
    order.Perm s.dir.entries → ∀ id,
      id ∈ (noticeQueueStep s (.reopen order unreadable stuck)).opened ↔
        (∃ o ∈ s.ledger, o.entry.id = id ∧ o.entry.seq ∉ unreadable) ∨
          ∃ e ∈ s.dir.entries, e.deliveryState = .delivered ∧ e.id = id ∧ e.seq ∉ unreadable

/-- **At least once, with ids used again**: an id that is not pending is appended, if the file can be
written. -/
def AppendsAgain (s : NoticeRun) : NoticeCall → Prop
  | .append e writes => writes = true → e.id ∉ s.store.pending.map (·.id) →
    (s.store.append s.dir e writes).1 ≠ .ok none
  | _ => True

instance (s : NoticeRun) (e : NoticeCall) : Decidable (AppendsAgain s e) := by
  cases e <;> unfold AppendsAgain <;> infer_instance

/-! ## The directory -/

namespace NoticeDir

variable {d : NoticeDir} {e : CompletionNoticeEntry} {n : ℕ}

private lemma le_foldr_max_names {ns : List ℕ} (h : n ∈ ns) : n ≤ ns.foldr max 0 := by
  induction ns with
  | nil => cases h
  | cons m ms ih =>
    rw [List.foldr_cons]
    rcases List.mem_cons.1 h with h | h
    · exact h ▸ le_max_left _ _
    · exact (ih h).trans (le_max_right _ _)

lemma name_le_maxSeq (h : n ∈ d.names) : n ≤ d.maxSeq := le_foldr_max_names h

lemma seq_mem_names (h : e ∈ d.entries) : e.seq ∈ d.names :=
  List.mem_append_left _ (List.mem_map_of_mem h)

lemma names_remove (h : n ∈ (d.remove e.seq).names) : n ∈ d.names := by
  rcases List.mem_append.1 h with h | h
  · exact List.mem_append_left _ ((List.filter_sublist.map _).subset h)
  · exact List.mem_append_right _ (List.mem_of_mem_filter h)

/-- A new number takes no file away. -/
lemma pending_writeEntry (hnew : ∀ m ∈ d.names, m < e.seq) (hstate : e.deliveryState = .pending) :
    (d.writeEntry e).pending = d.pending ++ [e] := by
  have hkeep : (d.remove e.seq).entries = d.entries := by
    refine List.filter_eq_self.2 fun x hx => decide_eq_true fun heq => ?_
    exact Nat.lt_irrefl _ (heq ▸ hnew _ (seq_mem_names hx))
  simp [pending, writeEntry, hkeep, hstate]

lemma names_writeEntry (h : n ∈ (d.writeEntry e).names) : n ∈ d.names ∨ n = e.seq := by
  simp only [names, writeEntry, List.map_append, List.map_cons, List.map_nil, List.mem_append,
    List.mem_singleton] at h
  rcases h with (h | h) | h
  · exact .inl (names_remove (List.mem_append_left _ h))
  · exact .inr h
  · exact .inl (names_remove (List.mem_append_right _ h))

lemma pending_remove (d : NoticeDir) (n : ℕ) :
    (d.remove n).pending = d.pending.filter (·.seq ≠ n) := by
  simp only [pending, remove, keep, List.filter_filter]
  exact List.filter_congr fun x _ => Bool.and_comm _ _

end NoticeDir

namespace CompletionNoticeStore

variable {st : CompletionNoticeStore} {d : NoticeDir} {e : CompletionNoticeEntry} {id : String}
  {es fs : List CompletionNoticeEntry}

lemma append_duplicate (h : e.id ∈ st.seen) (writes : Bool) :
    st.append d e writes = (.ok none, st, d) := by
  simp [append, h]

/-- A write that fails leaves the id among the ids seen. -/
lemma append_failed (h : e.id ∉ st.seen) :
    st.append d e false =
      (.error .failed, { st with seen := st.seen ++ [e.id], seq := st.seq + 1 }, d) := by
  simp [append, h]

lemma append_accepted (h : e.id ∉ st.seen) :
    st.append d e true =
      (.ok (some (st.seq + 1)),
        { seq := st.seq + 1
          seen := st.seen ++ [e.id]
          pending := st.pending ++ [e.numbered (st.seq + 1)] },
        d.writeEntry (e.numbered (st.seq + 1))) := by
  simp [append, h]

lemma markDelivered_none (h : st.pending.find? (·.id = id) = none) (removes : Bool) :
    st.markDelivered d id removes = (.ok false, st, d) := by
  rw [markDelivered, h]

/-- The entry is in memory, and its file is there. -/
lemma markDelivered_some (h : st.pending.find? (·.id = id) = some e) (hfile : e.seq ∈ d.names)
    (removes : Bool) :
    st.markDelivered d id removes =
      if removes = true then
        (.ok true, { st with pending := st.pending.eraseP (·.id = id) }, d.remove e.seq)
      else (.error .failed, { st with pending := st.pending.eraseP (·.id = id) }, d) := by
  rw [markDelivered, h]
  simp [hfile]

lemma bySeq_eq_self (h : (es.map (·.seq)).Pairwise (· < ·)) : bySeq es = es :=
  ((List.pairwise_map.1 h).imp fun hlt => Nat.le_of_lt hlt).insertionSort_eq

/-- The order of distinct numbers does not depend on the order of the files. -/
lemma bySeq_eq_of_perm (hperm : es.Perm fs) (h : (fs.map (·.seq)).Pairwise (· < ·)) :
    bySeq es = fs := by
  have hsorted : (bySeq es).Pairwise (fun a b => a.seq ≤ b.seq) :=
    List.pairwise_insertionSort _ es
  have hfs := List.pairwise_map.1 h
  have hperm' : (bySeq es).Perm fs := (List.perm_insertionSort _ es).trans hperm
  refine hperm'.eq_of_pairwise (fun a b ha hb hab hba => ?_) hsorted
    (hfs.imp fun hlt => Nat.le_of_lt hlt)
  -- two entries of one number are the same
  have hseq : a.seq = b.seq := Nat.le_antisymm hab hba
  have hnodup : (fs.map (·.seq)).Nodup := h.imp fun hlt => Nat.ne_of_lt hlt
  exact List.inj_on_of_nodup_map hnodup (hperm'.mem_iff.1 ha) hb hseq

/-- Distinct numbers in their order. -/
lemma ascending_bySeq (h : (es.map (·.seq)).Nodup) : ((bySeq es).map (·.seq)).Pairwise (· < ·) := by
  have hsorted : (bySeq es).Pairwise (fun a b => a.seq ≤ b.seq) :=
    List.pairwise_insertionSort _ es
  have hnodup : ((bySeq es).map (·.seq)).Nodup :=
    ((List.perm_insertionSort _ es).map _).nodup_iff.2 h
  rw [List.pairwise_map]
  exact (hsorted.and (List.pairwise_map.1 hnodup)).imp fun hab =>
    Nat.lt_of_le_of_ne hab.1 hab.2

end CompletionNoticeStore

/-! ## The invariant -/

/-- **Memory and files agree with the ledger.** -/
structure NoticeQueueInv (s : NoticeRun) : Prop where
  memory : s.store.pending = s.heldEntries
  files : s.dir.pending.Perm s.owed
  ascending : (s.owed.map (·.seq)).Pairwise (· < ·)
  bounded : ∀ n ∈ s.dir.names, n ≤ s.store.seq
  seen : ∀ id, id ∈ s.store.seen ↔ id ∈ s.opened ∨ id ∈ s.accepted ∨ id ∈ s.failed

namespace NoticeQueueInv

variable {s : NoticeRun}

lemma ascending_held (h : NoticeQueueInv s) : (s.heldEntries.map (·.seq)).Pairwise (· < ·) := by
  exact h.ascending.sublist ((List.filter_sublist.map _).map _)

/-- What is pending in memory is pending for the caller. -/
lemma pendingEntries_eq (h : NoticeQueueInv s) : s.store.pendingEntries = s.heldEntries := by
  rw [CompletionNoticeStore.pendingEntries, h.memory]
  exact CompletionNoticeStore.bySeq_eq_self h.ascending_held

lemma pendingExact (h : NoticeQueueInv s) : PendingExact s :=
  ⟨h.pendingEntries_eq, h.ascending_held⟩

lemma seq_mem_names (h : NoticeQueueInv s) {e : CompletionNoticeEntry} (he : e ∈ s.owed) :
    e.seq ∈ s.dir.names :=
  NoticeDir.seq_mem_names (List.mem_of_mem_filter (h.files.mem_iff.2 he))

lemma seq_le (h : NoticeQueueInv s) {e : CompletionNoticeEntry} (he : e ∈ s.owed) :
    e.seq ≤ s.store.seq := h.bounded _ (h.seq_mem_names he)

/-- A notice is appended, with the next number. -/
lemma accept (h : NoticeQueueInv s) (e : CompletionNoticeEntry) :
    NoticeQueueInv { s with
      store :=
        { seq := s.store.seq + 1
          seen := s.store.seen ++ [e.id]
          pending := s.store.pending ++ [e.numbered (s.store.seq + 1)] }
      dir := s.dir.writeEntry (e.numbered (s.store.seq + 1))
      ledger := s.ledger ++ [⟨e.numbered (s.store.seq + 1), true⟩]
      accepted := s.accepted ++ [e.id] } where
  memory := by simp [NoticeRun.heldEntries, h.memory]
  files := by
    rw [NoticeDir.pending_writeEntry (fun m hm => Nat.lt_succ_of_le (h.bounded m hm)) rfl,
      NoticeRun.owed, List.map_append]
    exact h.files.append_right _
  ascending := by
    rw [NoticeRun.owed, List.map_append, List.map_append, List.pairwise_append]
    refine ⟨h.ascending, List.pairwise_singleton _ _, fun n hn m hm => ?_⟩
    obtain ⟨e', he', rfl⟩ := List.mem_map.1 hn
    obtain rfl := List.mem_singleton.1 hm
    exact Nat.lt_succ_of_le (h.seq_le he')
  bounded n hn := by
    rcases NoticeDir.names_writeEntry hn with hn | hn
    · exact Nat.le_succ_of_le (h.bounded n hn)
    · exact Nat.le_of_eq hn
  seen id := by
    have hseen := h.seen id
    simp only [List.mem_append, List.mem_singleton]
    tauto

/-- A write has failed. -/
lemma fail (h : NoticeQueueInv s) (id : String) :
    NoticeQueueInv { s with
      store := { s.store with seq := s.store.seq + 1, seen := s.store.seen ++ [id] }
      failed := s.failed ++ [id] } where
  memory := h.memory
  files := h.files
  ascending := h.ascending
  bounded n hn := Nat.le_succ_of_le (h.bounded n hn)
  seen id' := by
    have hseen := h.seen id'
    simp only [List.mem_append, List.mem_singleton]
    tauto

lemma append (h : NoticeQueueInv s) (e : CompletionNoticeEntry) (writes : Bool) :
    NoticeQueueInv (noticeQueueStep s (.append e writes)) := by
  by_cases hid : e.id ∈ s.store.seen
  · simp only [noticeQueueStep, CompletionNoticeStore.append_duplicate hid]
    exact h
  · cases writes with
    | true =>
      simp only [noticeQueueStep, CompletionNoticeStore.append_accepted hid]
      exact h.accept e
    | false =>
      simp only [noticeQueueStep, CompletionNoticeStore.append_failed hid]
      exact h.fail e.id

/-- The notice that a mark takes, in the ledger. -/
lemma find_held (h : NoticeQueueInv s) {id : String} {e : CompletionNoticeEntry}
    (hfind : s.store.pending.find? (·.id = id) = some e) :
    ∃ o ∈ s.ledger, s.ledger.find? (fun o => o.entry.id = id ∧ o.held = true) = some o ∧
      o.entry = e := by
  rw [h.memory, NoticeRun.heldEntries, List.find?_map, List.find?_filter] at hfind
  obtain ⟨o, ho, rfl⟩ := Option.map_eq_some_iff.1 hfind
  have hsame : s.ledger.find? (fun o => o.entry.id = id ∧ o.held = true) = some o := by
    rw [← ho]
    congr 1
    funext x
    simp [and_comm]
  exact ⟨o, List.mem_of_find?_eq_some hsame, hsame, rfl⟩

/-- A notice is delivered, and its file removed. -/
lemma deliver (h : NoticeQueueInv s) {id : String} {e : CompletionNoticeEntry}
    (hfind : s.store.pending.find? (·.id = id) = some e) :
    NoticeQueueInv { s with
      store := { s.store with pending := s.store.pending.eraseP (·.id = id) }
      dir := s.dir.remove e.seq
      ledger := s.ledger.eraseP fun o => o.entry.id = id ∧ o.held = true } where
  memory := by
    have hand : (fun o : OwedNotice => decide (o.entry.id = id ∧ o.held = true)) =
        fun o => decide (o.entry.id = id) && o.held := by
      funext o
      simp
    simp only [NoticeRun.heldEntries, hand, Keyed.filter_eraseP_and]
    rw [h.memory, NoticeRun.heldEntries, List.eraseP_map]
    rfl
  files := by
    obtain ⟨o, -, ho, rfl⟩ := h.find_held hfind
    have hnodup : (s.ledger.map (·.entry.seq)).Nodup := by
      have hasc := h.ascending
      rw [NoticeRun.owed, List.map_map] at hasc
      exact hasc.imp fun hlt => Nat.ne_of_lt hlt
    have hfilter : (s.ledger.filter fun x => x.entry.seq ≠ o.entry.seq).map (·.entry) =
        s.owed.filter fun x => x.seq ≠ o.entry.seq := by
      rw [NoticeRun.owed, List.filter_map]
      rfl
    rw [NoticeDir.pending_remove, NoticeRun.owed, Keyed.eraseP_eq_filter hnodup ho, hfilter]
    exact h.files.filter _
  ascending := h.ascending.sublist ((List.eraseP_sublist.map _).map _)
  bounded n hn := h.bounded n (NoticeDir.names_remove hn)
  seen := h.seen

lemma map_entry_setAside (id : String) (ledger : List OwedNotice) :
    (setAside id ledger).map (·.entry) = ledger.map (·.entry) :=
  FirstMatch.map_update fun _ => rfl

/-- What is taken off is the first notice of the id that the process knows of. -/
lemma filter_held_setAside (id : String) (ledger : List OwedNotice) :
    (setAside id ledger).filter (·.held) =
      (ledger.filter (·.held)).eraseP fun o => o.entry.id = id := by
  induction ledger with
  | nil => rfl
  | cons o ledger ih =>
    unfold setAside FirstMatch.update
    unfold setAside at ih
    cases hheld : o.held with
    | false => simp [hheld, ih]
    | true => by_cases hid : o.entry.id = id <;> simp [hheld, hid, ih]

/-- A notice is taken off, and its file stays. -/
lemma takeOff (h : NoticeQueueInv s) (id : String) :
    NoticeQueueInv { s with
      store := { s.store with pending := s.store.pending.eraseP (·.id = id) }
      ledger := setAside id s.ledger } where
  memory := by
    simp only [NoticeRun.heldEntries, filter_held_setAside]
    rw [h.memory, NoticeRun.heldEntries, List.eraseP_map]
    rfl
  files := by
    rw [NoticeRun.owed, map_entry_setAside]
    exact h.files
  ascending := by
    rw [NoticeRun.owed, map_entry_setAside]
    exact h.ascending
  bounded := h.bounded
  seen := h.seen

lemma markDelivered (h : NoticeQueueInv s) (id : String) (removes : Bool) :
    NoticeQueueInv (noticeQueueStep s (.markDelivered id removes)) := by
  cases hfind : s.store.pending.find? (·.id = id) with
  | none =>
    simp only [noticeQueueStep, CompletionNoticeStore.markDelivered_none hfind]
    exact h
  | some e =>
    obtain ⟨o, ho, -, rfl⟩ := h.find_held hfind
    have hmark := CompletionNoticeStore.markDelivered_some hfind
      (h.seq_mem_names (List.mem_map_of_mem ho)) removes
    cases removes with
    | true =>
      rw [if_pos rfl] at hmark
      simp only [noticeQueueStep, hmark]
      exact h.deliver hfind
    | false =>
      rw [if_neg Bool.false_ne_true] at hmark
      simp only [noticeQueueStep, hmark]
      exact h.takeOff id

lemma owed_reopen (s : NoticeRun) (order : List CompletionNoticeEntry) (unreadable stuck : List ℕ) :
    (s.reopen order unreadable stuck).owed = s.owed := by
  rw [NoticeRun.owed, NoticeRun.reopen, List.map_map]
  rfl

lemma pending_reopen (s : NoticeRun) (order : List CompletionNoticeEntry)
    (unreadable stuck : List ℕ) :
    (s.reopen order unreadable stuck).dir.pending = s.dir.pending := by
  simp only [NoticeRun.reopen, CompletionNoticeStore.openedDir, NoticeDir.pending, NoticeDir.keep,
    List.filter_filter]
  refine List.filter_congr fun x _ => ?_
  by_cases hx : x.deliveryState = .pending <;> simp [hx]

/-- The process is restarted on files that hold what is owed, in any order. -/
lemma of_reopen (hfiles : s.dir.pending.Perm s.owed) (hasc : (s.owed.map (·.seq)).Pairwise (· < ·))
    {order : List CompletionNoticeEntry} (horder : order.Perm s.dir.entries)
    (unreadable stuck : List ℕ) : NoticeQueueInv (s.reopen order unreadable stuck) where
  memory := by
    have hheld : (s.reopen order unreadable stuck).heldEntries =
        s.owed.filter fun e => e.seq ∉ unreadable := by
      simp only [NoticeRun.heldEntries, NoticeRun.reopen, NoticeRun.owed, List.filter_map,
        List.map_map]
      rfl
    rw [hheld]
    refine CompletionNoticeStore.bySeq_eq_of_perm ?_ (hasc.sublist (List.filter_sublist.map _))
    have hperm : ((order.filter fun e => e.seq ∉ unreadable).filter
        (·.deliveryState = .pending)).Perm (s.dir.pending.filter fun e => e.seq ∉ unreadable) := by
      rw [NoticeDir.pending, List.filter_filter, List.filter_filter]
      refine (horder.filter _).trans (.of_eq (List.filter_congr fun x _ => ?_))
      exact Bool.and_comm _ _
    exact hperm.trans (hfiles.filter _)
  files := by
    rw [owed_reopen, pending_reopen]
    exact hfiles
  ascending := by
    rw [owed_reopen]
    exact hasc
  bounded n hn := by
    refine NoticeDir.name_le_maxSeq ?_
    rcases List.mem_append.1 hn with hn | hn
    · exact List.mem_append_left _ ((List.filter_sublist.map _).subset hn)
    · exact List.mem_append_right _ hn
  seen id := by
    simp [NoticeRun.reopen, CompletionNoticeStore.openDir]

lemma start (d : NoticeDir) : NoticeQueueInv (.start d) := by
  have howed : ((CompletionNoticeStore.bySeq d.pending).map fun e => (⟨e, true⟩ : OwedNotice)).map
      (·.entry) = CompletionNoticeStore.bySeq d.pending := by
    rw [List.map_map]
    exact List.map_id _
  refine of_reopen ?_ ?_ (List.Perm.refl _) [] []
  · rw [NoticeRun.owed, howed]
    exact (List.perm_insertionSort _ _).symm
  · rw [NoticeRun.owed, howed]
    exact CompletionNoticeStore.ascending_bySeq (d.distinct.sublist (List.filter_sublist.map _))

/-- **A call** keeps memory and files in agreement with the ledger. -/
theorem step (h : NoticeQueueInv s) (e : NoticeCall) : NoticeQueueInv (noticeQueueStep s e) := by
  cases e with
  | append e writes => exact h.append e writes
  | markDelivered id removes => exact h.markDelivered id removes
  | reopen order unreadable stuck =>
    simp only [noticeQueueStep]
    split
    · rename_i horder
      exact of_reopen h.files h.ascending horder unreadable stuck
    · exact h

/-- An append meets the law. -/
lemma law_append (h : NoticeQueueInv s) (e : CompletionNoticeEntry) (writes : Bool) :
    NoticeLaw s (.append e writes) := by
  have hafter := (h.append e writes).pendingEntries_eq
  constructor
  · intro hknown
    have hseen : e.id ∈ s.store.seen := (h.seen e.id).2 (by tauto)
    exact CompletionNoticeStore.append_duplicate hseen writes
  · intro hopened haccepted hfailed
    have hseen : e.id ∉ s.store.seen := fun hmem => by
      have hthree := (h.seen e.id).1 hmem
      tauto
    cases writes with
    | true =>
      rw [if_pos rfl]
      simp only [noticeQueueStep, CompletionNoticeStore.append_accepted hseen] at hafter
      rw [CompletionNoticeStore.append_accepted hseen]
      refine ⟨s.store.seq + 1, rfl, hafter.trans ?_⟩
      rw [h.pendingEntries_eq]
      simp [NoticeRun.heldEntries]
    | false =>
      rw [if_neg Bool.false_ne_true, CompletionNoticeStore.append_failed hseen]
      exact ⟨rfl, rfl, rfl⟩

lemma law_markDelivered (h : NoticeQueueInv s) (id : String) (removes : Bool) :
    NoticeLaw s (.markDelivered id removes) := by
  unfold NoticeLaw
  simp only
  rw [h.pendingEntries_eq, ← h.memory]
  cases hfind : s.store.pending.find? (·.id = id) with
  | none =>
    rw [CompletionNoticeStore.markDelivered_none hfind, if_neg]
    rintro ⟨e, he, hid⟩
    exact List.find?_eq_none.1 hfind e he (decide_eq_true hid)
  | some e =>
    have hmem : e ∈ s.store.pending := List.mem_of_find?_eq_some hfind
    have hid : e.id = id := by simpa using List.find?_some hfind
    obtain ⟨o, ho, -, rfl⟩ := h.find_held hfind
    rw [if_pos ⟨_, hmem, hid⟩, CompletionNoticeStore.markDelivered_some hfind
      (h.seq_mem_names (List.mem_map_of_mem ho))]
    split <;> rfl

/-- A restart meets the law. -/
lemma law_reopen (h : NoticeQueueInv s) (order : List CompletionNoticeEntry)
    (unreadable stuck : List ℕ) : NoticeLaw s (.reopen order unreadable stuck) := by
  intro horder id
  have hopened : (noticeQueueStep s (.reopen order unreadable stuck)).opened =
      (order.filter fun e => e.seq ∉ unreadable).map (·.id) := by
    simp only [noticeQueueStep, if_pos horder]
    rfl
  rw [hopened, List.mem_map]
  constructor
  · rintro ⟨e, he, rfl⟩
    obtain ⟨hmem, hread⟩ := List.mem_filter.1 he
    have hentry : e ∈ s.dir.entries := horder.mem_iff.1 hmem
    cases hstate : e.deliveryState with
    | delivered => exact .inr ⟨e, hentry, hstate, rfl, of_decide_eq_true hread⟩
    | pending =>
      have hpending : e ∈ s.dir.pending := List.mem_filter.2 ⟨hentry, decide_eq_true hstate⟩
      obtain ⟨o, ho, rfl⟩ := List.mem_map.1 (h.files.mem_iff.1 hpending)
      exact .inl ⟨o, ho, rfl, of_decide_eq_true hread⟩
  · rintro (⟨o, ho, rfl, hread⟩ | ⟨e, he, -, rfl, hread⟩)
    · have hpending : o.entry ∈ s.dir.pending := h.files.mem_iff.2 (List.mem_map_of_mem ho)
      exact ⟨o.entry, List.mem_filter.2
        ⟨horder.mem_iff.2 (List.mem_of_mem_filter hpending), decide_eq_true hread⟩, rfl⟩
    · exact ⟨e, List.mem_filter.2 ⟨horder.mem_iff.2 he, decide_eq_true hread⟩, rfl⟩

lemma law (h : NoticeQueueInv s) (e : NoticeCall) : NoticeLaw s e := by
  cases e with
  | append e writes => exact h.law_append e writes
  | markDelivered id removes => exact h.law_markDelivered id removes
  | reopen order unreadable stuck => exact h.law_reopen order unreadable stuck

end NoticeQueueInv

/-! ## Runs -/

/-- **The queue of notices**: over every sequence of appends, marks and restarts, from any directory,
the pending notices are those that were accepted and not delivered, in the order of their numbers, and
every call answers as it should. -/
theorem noticeQueue_run (d : NoticeDir) (calls : List NoticeCall) :
    Run.Always noticeQueueStep PendingExact (.start d) calls ∧
      Run.EachStep noticeQueueStep NoticeLaw (.start d) calls := by
  constructor
  · have hinv : Run.Always noticeQueueStep NoticeQueueInv (.start d) calls :=
      Run.always_of_forall_step (fun _ e h => h.step e) (.start d) calls
    exact hinv.imp fun _ h => h.pendingExact
  · exact Run.eachStep_of_step (fun _ e (h : NoticeQueueInv _) _ => h.step e)
      (fun _ e h _ => h.law e) (.start d) (Run.eachStep_true _ calls)

/-- The notice of a delegation that is resumed under its id. -/
def resumedNotice : CompletionNoticeEntry where
  seq := 0
  id := "delegation:s1"
  subSessionId := "s1"
  parentSessionId := "main"
  status := some "completed"
  content := "done"
  silencedOverride := none
  sentMessageCount := 0
  enqueuedAt := 0
  deliveryState := .pending

/-- A notice is delivered, and another one with its id is appended in the same process. -/
theorem not_appendsAgain : ¬ ∀ (d : NoticeDir) (calls : List NoticeCall),
    Run.EachStep noticeQueueStep AppendsAgain (.start d) calls := by
  intro h
  have hstep := h ⟨[], [], List.nodup_nil⟩ [.append resumedNotice true,
    .markDelivered "delegation:s1" true, .append resumedNotice true]
  revert hstep
  decide

end MyClaw
