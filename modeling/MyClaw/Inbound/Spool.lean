import MyClaw.Lib.Run
import Mathlib.Data.List.Sort
import Mathlib.Data.List.Infix

set_option autoImplicit false

/-!
# The inbound spool

An inbound message is written to a directory of its own, one file for each message, before it enters
the event loop, and its file becomes a tombstone once the dispatch of the message has returned.  The
store keeps a counter, the keys it has seen and the pending entries in memory; all three are built
from the directory when the store is opened.

## Main definitions

* `SpoolEntry`, `SpoolDir` — a persisted message, and the directory.
* `InboundSpool` — the store in memory, with `openDir`, `append`, `markDone`,
  `pendingEntries`, `pendingFor` and `compactIfNeeded`.

## Main results

* `InboundSpool.append_accepted`, `append_duplicate`, `append_failed` — the three ways an
  append can go.
* `InboundSpool.markDone_cases` — a mark writes a tombstone or changes nothing.

## Implementation notes

The file `{seq}.json` is named by the number of the entry in it, so the directory is the list of the
entries in its files; files that do not parse are kept by their number.  A write goes to a temporary
file that is renamed at the end: it replaces the file or leaves it alone.  Sequence numbers are
natural numbers, the counter of the source has 64 bits.
-/

namespace MyClaw

/-- The state of a persisted message. -/
inductive SpoolStatus
  /-- Written when the message was received; its dispatch has not returned. -/
  | pending
  /-- The dispatch has returned; the file stays as a tombstone. -/
  | done
  deriving DecidableEq

/-- The serializable form of an inbound message. -/
structure PersistedChannelMessage where
  id : String
  senderId : String
  text : String
  deriving DecidableEq

/-- One persisted inbound message. -/
structure SpoolEntry where
  seq : ℕ
  channel : String
  account : String
  msg : PersistedChannelMessage
  status : SpoolStatus
  /-- Unix seconds when the entry was appended. -/
  createdAt : ℕ
  deriving DecidableEq

/-- The key under which a message is known, the parts separated by NUL. -/
def dedupKey (channel account msgId : String) : String :=
  channel ++ "\x00" ++ account ++ "\x00" ++ msgId

/-- The key of an entry. -/
def SpoolEntry.key (e : SpoolEntry) : String := dedupKey e.channel e.account e.msg.id

/-- The entry as a tombstone. -/
def SpoolEntry.tombstone (e : SpoolEntry) : SpoolEntry := { e with status := .done }

@[simp] lemma SpoolEntry.tombstone_seq (e : SpoolEntry) : e.tombstone.seq = e.seq := rfl

@[simp] lemma SpoolEntry.tombstone_key (e : SpoolEntry) : e.tombstone.key = e.key := rfl

@[simp] lemma SpoolEntry.tombstone_status (e : SpoolEntry) : e.tombstone.status = .done := rfl

@[simp] lemma SpoolEntry.tombstone_createdAt (e : SpoolEntry) :
    e.tombstone.createdAt = e.createdAt := rfl

/-! ## The directory -/

/-- The spool directory: the entries in its files, and the numbers of the files that do not parse. -/
structure SpoolDir where
  entries : List SpoolEntry
  corrupt : List ℕ

namespace SpoolDir

/-- The numbers in the names of the files. -/
def names (d : SpoolDir) : List ℕ := d.entries.map (·.seq) ++ d.corrupt

/-- The entry in the file of this number, if there is one that parses. -/
def read (d : SpoolDir) (seq : ℕ) : Option SpoolEntry := d.entries.find? (·.seq = seq)

/-- Write a new file. -/
def create (d : SpoolDir) (e : SpoolEntry) : SpoolDir := { d with entries := d.entries ++ [e] }

/-- Replace the file of the entry's number. -/
def replace (d : SpoolDir) (e : SpoolEntry) : SpoolDir :=
  { d with entries := d.entries.map fun x => if x.seq = e.seq then e else x }

/-- `write_entry`: the file of the entry's number holds the entry. -/
def writeEntry (d : SpoolDir) (e : SpoolEntry) : SpoolDir :=
  if e.seq ∈ d.names then { d.replace e with corrupt := d.corrupt.filter (· ≠ e.seq) }
  else d.create e

/-- Remove the files of these entries. -/
def removeAll (d : SpoolDir) (removed : List SpoolEntry) : SpoolDir :=
  { d with entries := d.entries.filter fun e => e ∉ removed }

/-- The largest number of a file name, zero without files. -/
def maxSeq (d : SpoolDir) : ℕ := d.names.foldr max 0

private lemma le_foldr_max {n : ℕ} {ns : List ℕ} (h : n ∈ ns) : n ≤ ns.foldr max 0 := by
  induction ns with
  | nil => cases h
  | cons m ms ih =>
    rw [List.foldr_cons]
    rcases List.mem_cons.1 h with h | h
    · exact h ▸ le_max_left _ _
    · exact (ih h).trans (le_max_right _ _)

lemma le_maxSeq {d : SpoolDir} {e : SpoolEntry} (h : e ∈ d.entries) : e.seq ≤ d.maxSeq :=
  le_foldr_max (List.mem_append_left _ (List.mem_map_of_mem h))

end SpoolDir

/-! ## The store -/

/-- The store in memory. -/
structure InboundSpool where
  /-- The last number assigned. -/
  seq : ℕ
  /-- The largest number at open: later entries are not replayed. -/
  baselineSeq : ℕ
  /-- The keys known in this process. -/
  seen : List String
  /-- The pending entries. -/
  pending : List SpoolEntry

/-- An operation of the file system has failed. -/
inductive IoError
  | failed
  deriving DecidableEq

/-- Seven days, in seconds. -/
def tombstoneSecs : ℕ := 7 * 24 * 3600

/-- More files than this are compacted. -/
def compactFiles : ℕ := 5000

namespace InboundSpool

/-- The order of the pending entries. -/
def bySeq (es : List SpoolEntry) : List SpoolEntry := es.insertionSort (·.seq ≤ ·.seq)

/-- `open`: build the store from the directory.  The files of the numbers `unreadable` cannot be
read and are skipped, as are those that do not parse; their numbers count. -/
def openDir (d : SpoolDir) (unreadable : List ℕ) : InboundSpool :=
  let parsed := d.entries.filter fun e => e.seq ∉ unreadable
  { seq := d.maxSeq
    baselineSeq := d.maxSeq
    seen := parsed.map (·.key)
    pending := bySeq (parsed.filter fun e => e.status = .pending) }

/-- `append`: the outcome, the store and the directory.  `writes` tells whether the file can be
written. -/
def append (st : InboundSpool) (d : SpoolDir) (channel account : String)
    (msg : PersistedChannelMessage) (now : ℕ) (writes : Bool) :
    Except IoError (Option ℕ) × InboundSpool × SpoolDir :=
  let key := dedupKey channel account msg.id
  if key ∈ st.seen then (.ok none, st, d)
  else
    let seq := st.seq + 1
    let entry : SpoolEntry := ⟨seq, channel, account, msg, .pending, now⟩
    -- the key and the number are taken before the file is written
    let taken := { st with seen := st.seen ++ [key], seq := seq }
    if writes then
      (.ok (some seq), { taken with pending := taken.pending ++ [entry] }, d.writeEntry entry)
    else (.error .failed, taken, d)

/-- `mark_done`: the outcome, the store and the directory. -/
def markDone (st : InboundSpool) (d : SpoolDir) (seq : ℕ) (reads writes : Bool) :
    Except IoError Bool × InboundSpool × SpoolDir :=
  if seq ∉ d.names then (.ok false, st, d)
  else if reads = false then (.error .failed, st, d)
  else
    match d.read seq with
    | none => (.error .failed, st, d)
    | some entry =>
      if entry.status = .done then (.ok false, st, d)
      else if writes then
        (.ok true, { st with pending := st.pending.filter (·.seq ≠ seq) },
          d.writeEntry entry.tombstone)
      else (.error .failed, st, d)

/-- `pending`: the entries to replay, those of the time before the store was opened. -/
def pendingEntries (st : InboundSpool) : List SpoolEntry :=
  bySeq (st.pending.filter fun e => e.seq ≤ st.baselineSeq)

/-- `pending_for`: the entries to replay for one routing key. -/
def pendingFor (st : InboundSpool) (channel account senderId : String) : List SpoolEntry :=
  st.pendingEntries.filter fun e =>
    e.channel = channel ∧ e.account = account ∧ e.msg.senderId = senderId

end InboundSpool

/-- The tombstone is older than seven days. -/
def SpoolEntry.Expired (e : SpoolEntry) (now : ℕ) : Prop := tombstoneSecs < now - e.createdAt

instance (e : SpoolEntry) (now : ℕ) : Decidable (e.Expired now) :=
  inferInstanceAs (Decidable (_ < _))

/-- The tombstones that `compact_if_needed` removes: all it can read and remove, if the directory
has too many files or a tombstone has expired. -/
def SpoolDir.compacted (d : SpoolDir) (now : ℕ) (unreadable stuck : List ℕ) : List SpoolEntry :=
  let files := d.entries.filter fun e => e.seq ∉ unreadable
  let tombstones := files.filter fun e => e.status = .done
  -- the oldest tombstone has expired exactly when one of them has
  if compactFiles < files.length ∨ ∃ e ∈ tombstones, e.Expired now then
    tombstones.filter fun e => e.seq ∉ stuck
  else []

/-- `compact_if_needed`: the directory after it.  The store in memory stays as it is. -/
def SpoolDir.compactIfNeeded (d : SpoolDir) (now : ℕ) (unreadable stuck : List ℕ) : SpoolDir :=
  d.removeAll (d.compacted now unreadable stuck)

/-- A compaction removes tombstones of the directory. -/
lemma SpoolDir.mem_compacted {d : SpoolDir} {now : ℕ} {unreadable stuck : List ℕ} {e : SpoolEntry}
    (h : e ∈ d.compacted now unreadable stuck) : e ∈ d.entries ∧ e.status = .done := by
  unfold compacted at h
  simp only at h
  split at h
  · simp only [List.mem_filter, decide_eq_true_eq] at h
    exact ⟨h.1.1.1, h.1.2⟩
  · cases h

namespace InboundSpool

variable {st : InboundSpool} {d : SpoolDir} {channel account : String}
  {msg : PersistedChannelMessage} {now : ℕ} {writes : Bool}

lemma append_duplicate (h : dedupKey channel account msg.id ∈ st.seen) :
    st.append d channel account msg now writes = (.ok none, st, d) := by
  simp [append, h]

/-- A write that fails leaves the key among the keys seen. -/
lemma append_failed (h : dedupKey channel account msg.id ∉ st.seen) :
    st.append d channel account msg now false =
      (.error .failed,
        { st with seen := st.seen ++ [dedupKey channel account msg.id], seq := st.seq + 1 }, d) := by
  simp [append, h]

lemma append_accepted (h : dedupKey channel account msg.id ∉ st.seen) :
    st.append d channel account msg now true =
      (.ok (some (st.seq + 1)),
        { st with
          seen := st.seen ++ [dedupKey channel account msg.id]
          seq := st.seq + 1
          pending := st.pending ++ [⟨st.seq + 1, channel, account, msg, .pending, now⟩] },
        d.writeEntry ⟨st.seq + 1, channel, account, msg, .pending, now⟩) := by
  simp [append, h]

/-- **What a mark does**: it writes the tombstone of a pending entry, or it changes nothing. -/
lemma markDone_cases (st : InboundSpool) (d : SpoolDir) (seq : ℕ) (reads writes : Bool) :
    (∃ e, d.read seq = some e ∧ e.status = .pending ∧
      st.markDone d seq reads writes =
        (.ok true, { st with pending := st.pending.filter (·.seq ≠ seq) },
          d.writeEntry e.tombstone)) ∨
    ((st.markDone d seq reads writes).1 ≠ .ok true ∧
      (st.markDone d seq reads writes).2 = (st, d)) := by
  unfold markDone
  split
  · exact .inr ⟨by simp, rfl⟩
  · split
    · exact .inr ⟨by simp, rfl⟩
    · cases hread : d.read seq with
      | none => exact .inr ⟨by simp, rfl⟩
      | some e =>
        simp only
        split
        · exact .inr ⟨by simp, rfl⟩
        · rename_i hstatus
          have hpending : e.status = .pending := by
            cases hs : e.status with
            | pending => rfl
            | done => exact absurd hs hstatus
          split
          · exact .inl ⟨e, rfl, hpending, rfl⟩
          · exact .inr ⟨by simp, rfl⟩

end InboundSpool

end MyClaw
