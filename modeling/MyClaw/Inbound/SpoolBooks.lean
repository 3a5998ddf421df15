import MyClaw.Inbound.Spool

set_option autoImplicit false

/-!
# The books of the inbound spool

Over appends, marks, compactions and reopens in any order the spool has to number its messages
upwards, to know every message it has taken, and to hand back after a reopen exactly what has not been
marked.  What a store knows after a reopen is what the directory still says: the last number from the
highest file name, the known keys from the files.  A compaction removes all tombstones at once, young
ones and the highest file included, and an append that fails has already noted its key.

## Main definitions

* `SpoolWorld`, `SpoolEvent`, `spoolStep` — the store, its directory and the
  clock, with the ledger of what has been accepted and marked.
* `KeepsBooks` — what the outcome of an operation has to be, by the ledger.
* `SparesBooks` — what an operation has to satisfy for that.
* `SpoolInv` — directory and memory agree with the ledger.

## Main results

* `SpoolInv.step` — an operation that meets the condition keeps the agreement.
* `keepsBooks_run` — the books are kept in every run whose operations all meet it.
-/

namespace MyClaw

/-! ## Runs -/

/-- The spool with its directory, the clock in seconds, and the ledger: every entry that an append
has accepted, in order, marked when a mark has returned `true`. -/
structure SpoolWorld where
  store : InboundSpool
  dir : SpoolDir
  now : ℕ
  ledger : List SpoolEntry

/-- The operations on the spool, with what the file system makes of them. -/
inductive SpoolEvent
  /-- `append`: the file can be written or not. -/
  | append (channel account : String) (msg : PersistedChannelMessage) (writes : Bool)
  /-- `mark_done`: the file can be read, and written. -/
  | markDone (seq : ℕ) (reads writes : Bool)
  /-- `compact_if_needed`: files that cannot be read, and files that cannot be removed. -/
  | compact (unreadable stuck : List ℕ)
  /-- The process ends, and a new one opens the spool; files that cannot be read. -/
  | reopen (unreadable : List ℕ)
  /-- Time passes. -/
  | wait (secs : ℕ)

/-- The tombstone of the entry if it has the number. -/
def SpoolEntry.marked (seq : ℕ) (e : SpoolEntry) : SpoolEntry :=
  if e.seq = seq then e.tombstone else e

@[simp] lemma SpoolEntry.marked_seq (n : ℕ) (e : SpoolEntry) : (e.marked n).seq = e.seq := by
  unfold marked
  split <;> rfl

@[simp] lemma SpoolEntry.marked_key (n : ℕ) (e : SpoolEntry) : (e.marked n).key = e.key := by
  unfold marked
  split <;> rfl

/-- The ledger after an append with this outcome. -/
def ledgerAppend (ledger : List SpoolEntry) (channel account : String)
    (msg : PersistedChannelMessage) (now : ℕ) :
    Except IoError (Option ℕ) → List SpoolEntry
  | .ok (some seq) => ledger ++ [⟨seq, channel, account, msg, .pending, now⟩]
  | _ => ledger

/-- One operation. -/
def spoolStep (w : SpoolWorld) : SpoolEvent → SpoolWorld
  | .append channel account msg writes =>
    let r := w.store.append w.dir channel account msg w.now writes
    { w with
      store := r.2.1
      dir := r.2.2
      ledger := ledgerAppend w.ledger channel account msg w.now r.1 }
  | .markDone seq reads writes =>
    let r := w.store.markDone w.dir seq reads writes
    { w with
      store := r.2.1
      dir := r.2.2
      ledger := if r.1 = .ok true then w.ledger.map (·.marked seq) else w.ledger }
  | .compact unreadable stuck => { w with dir := w.dir.compactIfNeeded w.now unreadable stuck }
  | .reopen unreadable => { w with store := .openDir w.dir unreadable }
  | .wait secs => { w with now := w.now + secs }

/-- The spool on a new directory. -/
def newSpool (now : ℕ) : SpoolWorld := ⟨.openDir ⟨[], []⟩ [], ⟨[], []⟩, now, []⟩

/-! ## The property and its condition -/

/-- The entry is pending, or its tombstone is not older than seven days. -/
def SpoolEntry.Remembered (e : SpoolEntry) (now : ℕ) : Prop :=
  e.status = .done → ¬ e.Expired now

instance (e : SpoolEntry) (now : ℕ) : Decidable (e.Remembered now) :=
  inferInstanceAs (Decidable (_ → _))

/-- The entries of a ledger that have not been marked. -/
def unmarked (ledger : List SpoolEntry) : List SpoolEntry :=
  ledger.filter fun e => e.status = .pending

/-- **The books are kept** by an operation: an accepted message gets a number above all earlier ones;
a message that has been accepted before is a duplicate while it is remembered; an append that fails
leaves keys, pending entries and directory as they were, so that a redelivery is accepted; after a
reopen the entries to replay are those not marked, in order. -/
def KeepsBooks (w : SpoolWorld) : SpoolEvent → Prop
  | .append channel account msg writes =>
    let r := w.store.append w.dir channel account msg w.now writes
    (∀ seq, r.1 = .ok (some seq) → ∀ e ∈ w.ledger, e.seq < seq) ∧
      ((∃ e ∈ w.ledger, e.key = dedupKey channel account msg.id ∧ e.Remembered w.now) →
        r.1 = .ok none) ∧
      (r.1 = .error .failed →
        r.2.1.seen = w.store.seen ∧ r.2.1.pending = w.store.pending ∧ r.2.2 = w.dir ∧
          ∃ seq, (r.2.1.append r.2.2 channel account msg w.now true).1 = .ok (some seq))
  | .reopen unreadable =>
    (InboundSpool.openDir w.dir unreadable).pendingEntries = unmarked w.ledger
  | _ => True

/-- The operation spares the books: an append that reaches the disk can write; a compaction removes
expired tombstones only; a reopen finds the file of the last number assigned, and it can read all
files but those of expired tombstones. -/
def SparesBooks (w : SpoolWorld) : SpoolEvent → Prop
  | .append channel account msg writes =>
    dedupKey channel account msg.id ∈ w.store.seen ∨ writes = true
  | .compact unreadable stuck => ∀ e ∈ w.dir.compacted w.now unreadable stuck, e.Expired w.now
  | .reopen unreadable =>
    w.store.seq ≤ w.dir.maxSeq ∧
      ∀ e ∈ w.dir.entries, e.seq ∈ unreadable → e.status = .done ∧ e.Expired w.now
  | _ => True

instance (w : SpoolWorld) (e : SpoolEvent) : Decidable (SparesBooks w e) := by
  cases e <;> unfold SparesBooks <;> infer_instance

/-! ## The invariant -/

/-- **Directory and memory agree with the ledger.** -/
structure SpoolInv (w : SpoolWorld) : Prop where
  /-- The numbers of the ledger increase. -/
  increasing : w.ledger.Pairwise (·.seq < ·.seq)
  /-- No number of the ledger is above the counter. -/
  numbered : ∀ e ∈ w.ledger, e.seq ≤ w.store.seq
  /-- The directory holds a part of the ledger, in its order. -/
  filed : w.dir.entries.Sublist w.ledger
  /-- All files parse. -/
  parses : w.dir.corrupt = []
  /-- What is remembered has its file. -/
  kept : ∀ e ∈ w.ledger, e.Remembered w.now → e ∈ w.dir.entries
  /-- What is remembered is among the keys seen. -/
  seen : ∀ e ∈ w.ledger, e.Remembered w.now → e.key ∈ w.store.seen

lemma newSpool_inv (now : ℕ) : SpoolInv (newSpool now) where
  increasing := List.Pairwise.nil
  numbered := by simp [newSpool]
  filed := List.Sublist.refl _
  parses := rfl
  kept := by simp [newSpool]
  seen := by simp [newSpool]

section

variable {w : SpoolWorld}

/-- What is pending is remembered. -/
lemma SpoolEntry.remembered_of_pending {e : SpoolEntry} (h : e.status = .pending) (now : ℕ) :
    e.Remembered now := by
  intro hdone
  rw [h] at hdone
  cases hdone

/-- A tombstone is forgotten, not remembered again. -/
lemma SpoolEntry.Remembered.of_add {e : SpoolEntry} {now secs : ℕ}
    (h : e.Remembered (now + secs)) : e.Remembered now := by
  intro hdone hexp
  refine h hdone ?_
  unfold SpoolEntry.Expired at hexp ⊢
  omega

/-- Two entries of the ledger with one number are one entry. -/
lemma SpoolInv.eq_of_seq (h : SpoolInv w) {a b : SpoolEntry} (ha : a ∈ w.ledger)
    (hb : b ∈ w.ledger) (hseq : a.seq = b.seq) : a = b := by
  have hinj : (w.ledger.map (·.seq)).Nodup :=
    (List.pairwise_map.2 (h.increasing.imp fun hlt => Nat.ne_of_lt hlt))
  exact List.inj_on_of_nodup_map hinj ha hb hseq

/-- The next number is no file name. -/
lemma SpoolInv.next_notMem (h : SpoolInv w) : w.store.seq + 1 ∉ w.dir.names := by
  unfold SpoolDir.names
  rw [h.parses, List.append_nil]
  intro hmem
  obtain ⟨e, he, hseq⟩ := List.mem_map.1 hmem
  have hle := h.numbered e (h.filed.subset he)
  omega

/-- A list in the order of its numbers is sorted already. -/
lemma bySeq_eq {es : List SpoolEntry} (h : es.Pairwise (·.seq < ·.seq)) :
    InboundSpool.bySeq es = es :=
  (h.imp fun hlt => Nat.le_of_lt hlt).insertionSort_eq

/-! ## One operation at a time -/

/-- The pending entries of the directory are those of the ledger. -/
lemma SpoolInv.unmarked_eq (h : SpoolInv w) : unmarked w.dir.entries = unmarked w.ledger := by
  have hsub : (unmarked w.dir.entries).Sublist (unmarked w.ledger) := h.filed.filter _
  have hnodup : (unmarked w.ledger).Nodup :=
    (h.increasing.filter _).imp fun hlt heq => Nat.ne_of_lt hlt (congrArg _ heq)
  have hsubset : unmarked w.ledger ⊆ unmarked w.dir.entries := by
    intro e he
    have hm := List.mem_filter.1 he
    have hstatus : e.status = .pending := by simpa using hm.2
    exact List.mem_filter.2
      ⟨h.kept e hm.1 (SpoolEntry.remembered_of_pending hstatus _), hm.2⟩
  exact hsub.eq_of_length_le (List.subperm_of_subset hnodup hsubset).length_le

/-- A reopen that reads all files but those of tombstones finds the pending entries of the
ledger. -/
lemma SpoolInv.openDir_pendingEntries (h : SpoolInv w) {unreadable : List ℕ}
    (hread : ∀ e ∈ w.dir.entries, e.seq ∈ unreadable → e.status = .done) :
    (InboundSpool.openDir w.dir unreadable).pendingEntries = unmarked w.ledger := by
  have hpending : (w.dir.entries.filter fun e => e.seq ∉ unreadable).filter
      (fun e => e.status = .pending) = unmarked w.dir.entries := by
    rw [List.filter_filter]
    refine List.filter_congr fun e he => ?_
    by_cases hu : e.seq ∈ unreadable
    · simp [hread e he hu]
    · simp [hu]
  have hsorted : (unmarked w.ledger).Pairwise (·.seq < ·.seq) := h.increasing.filter _
  have hbase : ∀ e ∈ unmarked w.ledger, e.seq ≤ w.dir.maxSeq := by
    intro e he
    rw [← h.unmarked_eq] at he
    exact SpoolDir.le_maxSeq (List.mem_filter.1 he).1
  have hall : (unmarked w.ledger).filter (fun e => e.seq ≤ w.dir.maxSeq) = unmarked w.ledger :=
    List.filter_eq_self.2 fun e he => by simpa using hbase e he
  show InboundSpool.bySeq ((InboundSpool.bySeq _).filter _) = _
  rw [hpending, h.unmarked_eq, bySeq_eq hsorted]
  show InboundSpool.bySeq ((unmarked w.ledger).filter fun e => e.seq ≤ w.dir.maxSeq) = _
  rw [hall, bySeq_eq hsorted]

/-- An accepted append takes the next number in the ledger, in memory and in the directory. -/
lemma SpoolInv.append (h : SpoolInv w) {channel account : String} {msg : PersistedChannelMessage}
    {writes : Bool} (hC : SparesBooks w (.append channel account msg writes)) :
    SpoolInv (spoolStep w (.append channel account msg writes)) := by
  by_cases hdup : dedupKey channel account msg.id ∈ w.store.seen
  · simp only [spoolStep, InboundSpool.append_duplicate hdup, ledgerAppend]
    exact h
  · obtain rfl : writes = true := hC.resolve_left hdup
    simp only [spoolStep, InboundSpool.append_accepted hdup, ledgerAppend]
    have hnew : w.dir.writeEntry ⟨w.store.seq + 1, channel, account, msg, .pending, w.now⟩ =
        w.dir.create ⟨w.store.seq + 1, channel, account, msg, .pending, w.now⟩ := by
      unfold SpoolDir.writeEntry
      rw [if_neg h.next_notMem]
    rw [hnew]
    constructor
    · refine List.pairwise_append.2 ⟨h.increasing, List.pairwise_singleton _ _, ?_⟩
      intro a ha b hb
      obtain rfl := List.mem_singleton.1 hb
      exact Nat.lt_succ_of_le (h.numbered a ha)
    · intro e he
      rcases List.mem_append.1 he with he | he
      · exact Nat.le_succ_of_le (h.numbered e he)
      · obtain rfl := List.mem_singleton.1 he
        exact le_rfl
    · exact h.filed.append (List.Sublist.refl _)
    · exact h.parses
    · intro e he hrem
      rcases List.mem_append.1 he with he | he
      · exact List.mem_append_left _ (h.kept e he hrem)
      · exact List.mem_append_right _ he
    · intro e he hrem
      rcases List.mem_append.1 he with he | he
      · exact List.mem_append_left _ (h.seen e he hrem)
      · obtain rfl := List.mem_singleton.1 he
        exact List.mem_append_right _ List.mem_cons_self

/-- A mark turns the entry into its tombstone in the ledger and in the directory. -/
lemma SpoolInv.markDone (h : SpoolInv w) (seq : ℕ) (reads writes : Bool) :
    SpoolInv (spoolStep w (.markDone seq reads writes)) := by
  rcases w.store.markDone_cases w.dir seq reads writes with ⟨e, hread, hstatus, heq⟩ | ⟨hne, heq⟩
  · have he : e ∈ w.dir.entries := List.mem_of_find?_eq_some hread
    have hseq : e.seq = seq := by simpa using List.find?_some hread
    have hname : e.tombstone.seq ∈ w.dir.names :=
      List.mem_append_left _ (List.mem_map.2 ⟨e, he, rfl⟩)
    have hentries : (w.dir.writeEntry e.tombstone).entries =
        w.dir.entries.map (·.marked seq) := by
      unfold SpoolDir.writeEntry
      rw [if_pos hname]
      refine List.map_congr_left fun x hx => ?_
      unfold SpoolEntry.marked
      by_cases hx' : x.seq = seq
      · -- the number is that of one entry only
        have : x = e := h.eq_of_seq (h.filed.subset hx) (h.filed.subset he) (hx'.trans hseq.symm)
        subst this
        simp [hx']
      · simp [hx', hseq]
    have hback : ∀ a ∈ w.ledger, (a.marked seq).Remembered w.now → a.Remembered w.now := by
      intro a _ hrem
      unfold SpoolEntry.marked at hrem
      split at hrem
      · exact fun _ => hrem rfl
      · exact hrem
    simp only [spoolStep, heq, if_true]
    constructor
    · exact List.pairwise_map.2 (h.increasing.imp fun hlt => by simpa using hlt)
    · intro x hx
      obtain ⟨a, ha, rfl⟩ := List.mem_map.1 hx
      rw [SpoolEntry.marked_seq]
      exact h.numbered a ha
    · show (w.dir.writeEntry e.tombstone).entries.Sublist _
      rw [hentries]
      exact h.filed.map _
    · show (w.dir.writeEntry e.tombstone).corrupt = []
      unfold SpoolDir.writeEntry
      rw [if_pos hname]
      simp [h.parses]
    · intro x hx hrem
      obtain ⟨a, ha, rfl⟩ := List.mem_map.1 hx
      show _ ∈ (w.dir.writeEntry e.tombstone).entries
      rw [hentries]
      exact List.mem_map_of_mem (h.kept a ha (hback a ha hrem))
    · intro x hx hrem
      obtain ⟨a, ha, rfl⟩ := List.mem_map.1 hx
      rw [SpoolEntry.marked_key]
      exact h.seen a ha (hback a ha hrem)
  · simp only [spoolStep, heq, if_neg hne]
    exact h

/-- **An operation that spares the books** keeps the agreement. -/
lemma SpoolInv.step (h : SpoolInv w) {e : SpoolEvent} (hC : SparesBooks w e) :
    SpoolInv (spoolStep w e) := by
  cases e with
  | append channel account msg writes => exact h.append hC
  | markDone seq reads writes => exact h.markDone seq reads writes
  | compact unreadable stuck =>
    refine ⟨h.increasing, h.numbered, List.filter_sublist.trans h.filed, h.parses, ?_, h.seen⟩
    intro e he hrem
    refine List.mem_filter.2 ⟨h.kept e he hrem, ?_⟩
    rw [decide_eq_true_eq]
    intro hremoved
    exact hrem (SpoolDir.mem_compacted hremoved).2 (hC e hremoved)
  | reopen unreadable =>
    refine ⟨h.increasing, ?_, h.filed, h.parses, h.kept, ?_⟩
    · exact fun e he => (h.numbered e he).trans hC.1
    · intro e he hrem
      refine List.mem_map_of_mem (List.mem_filter.2 ⟨h.kept e he hrem, ?_⟩)
      rw [decide_eq_true_eq]
      intro hu
      obtain ⟨hdone, hexp⟩ := hC.2 e (h.kept e he hrem) hu
      exact hrem hdone hexp
  | wait secs =>
    exact ⟨h.increasing, h.numbered, h.filed, h.parses, fun e he hrem => h.kept e he hrem.of_add,
      fun e he hrem => h.seen e he hrem.of_add⟩

/-- Where directory and memory agree with the ledger, an operation that spares the books keeps
them. -/
lemma SpoolInv.keepsBooks (h : SpoolInv w) {e : SpoolEvent} (hC : SparesBooks w e) :
    KeepsBooks w e := by
  cases e with
  | append channel account msg writes =>
    by_cases hdup : dedupKey channel account msg.id ∈ w.store.seen
    · simp [KeepsBooks, InboundSpool.append_duplicate hdup]
    · obtain rfl : writes = true := hC.resolve_left hdup
      simp only [KeepsBooks, InboundSpool.append_accepted hdup]
      refine ⟨?_, ?_, by simp⟩
      · rintro seq hseq e he
        obtain rfl : w.store.seq + 1 = seq := by simpa using hseq
        exact Nat.lt_succ_of_le (h.numbered e he)
      · rintro ⟨e, he, hkey, hrem⟩
        exact absurd (hkey ▸ h.seen e he hrem) hdup
  | reopen unreadable => exact h.openDir_pendingEntries fun e he hu => (hC.2 e he hu).1
  | markDone seq reads writes => trivial
  | compact unreadable stuck => trivial
  | wait secs => trivial

end

/-! ## Whole runs -/

/-- **The spool keeps its books** in every run on a new directory whose operations all spare them. -/
theorem keepsBooks_run (now : ℕ) (es : List SpoolEvent)
    (hC : Run.EachStep spoolStep SparesBooks (newSpool now) es) :
    Run.EachStep spoolStep KeepsBooks (newSpool now) es :=
  Run.eachStep_of_step (fun _ _ h hC => h.step hC) (fun _ _ h hC => h.keepsBooks hC)
    (newSpool_inv now) hC

/-- A first message. -/
def helloMessage : PersistedChannelMessage := ⟨"m1", "user", "hello"⟩

/-- A second message. -/
def againMessage : PersistedChannelMessage := ⟨"m2", "user", "again"⟩

/-- Two messages, one of them handled and forgotten after eight days, across a reopen. -/
theorem keepsBooks_run_twoMessages :
    Run.EachStep spoolStep KeepsBooks (newSpool 0)
      [.append "telegram" "bot" helloMessage true, .markDone 1 true true, .wait (8 * 24 * 3600),
        .append "telegram" "bot" againMessage true, .compact [] [], .reopen [],
        .append "telegram" "bot" helloMessage true] :=
  keepsBooks_run 0 _ (by decide +kernel)

/-- **Three ways to lose the books**: an append that fails has noted its key; a compaction removes a
tombstone of one minute with one of eight days, and its message is accepted again after a reopen; a
compaction removes the only file, and its number is assigned again after a reopen. -/
theorem spool_loses_books :
    ¬ Run.EachStep spoolStep KeepsBooks (newSpool 0)
        [.append "telegram" "bot" helloMessage false] ∧
      ¬ Run.EachStep spoolStep KeepsBooks (newSpool 0)
        [.append "telegram" "bot" helloMessage true, .wait (8 * 24 * 3600),
          .append "telegram" "bot" againMessage true, .markDone 1 true true,
          .markDone 2 true true, .wait 60, .compact [] [], .reopen [],
          .append "telegram" "bot" againMessage true] ∧
      ¬ Run.EachStep spoolStep KeepsBooks (newSpool 0)
        [.append "telegram" "bot" helloMessage true, .markDone 1 true true,
          .wait (8 * 24 * 3600), .compact [] [], .reopen [],
          .append "telegram" "bot" againMessage true] := by
  refine ⟨fun h => ?_, fun h => ?_, fun h => ?_⟩
  · exact absurd (h.1.2.2 (by decide +kernel)).1 (by decide +kernel)
  · obtain ⟨-, -, -, -, -, -, -, -, hlast, -⟩ := h
    exact absurd (hlast.2.1 (by decide +kernel)) (by decide +kernel)
  · obtain ⟨-, -, -, -, -, hlast, -⟩ := h
    exact absurd (hlast.1 1 (by decide +kernel)) (by decide +kernel)

end MyClaw
