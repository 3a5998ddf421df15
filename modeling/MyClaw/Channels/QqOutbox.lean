import MyClaw.Channels.QqBubbles
import MyClaw.Lib.Entry
import MyClaw.Lib.Run
import Mathlib.Data.List.Perm.Subperm

set_option autoImplicit false

/-!
# The outbox of the QQ bot

`send_message` (`channels/qqbot/channel/mod.rs`) merges what is sent to one recipient within a window
of time: the first text of a window starts a task that sleeps and then sends all of them as one message
(`DeliverDebouncer` in `channels/qqbot/flow.rs`, `send_plain_text_chunked` in
`channels/qqbot/channel/api.rs`), and each caller waits for the result.  A message with buttons is sent
at once, beside the window.

## Main definitions

* `qqRecipient`, `qqPieces` — where a message goes, and what it is cut into.
* `QqOutbox`, `qqOutboxStep` — the windows, the tasks and the deliveries.
* `QqDelivery.Delivers` — what a delivery has to do with the calls it is made for.

## Main results

* `qqOutbox_calls` — each call is answered once, or a task will go on with it.
* `qqOutbox_deliveries` — a message has the texts of its calls in their order, and its answer
  says whether all its pieces were taken.
* `nodup_reserved_iff` — when no number is given to two pieces.

## Implementation notes

The answer of the reply limiter and that of the platform are inputs.  The messages with files are left
out but for the numbers they take.  The prefix of a recipient chooses the address that a piece is posted
to.  The machine is given the pieces of each text: those of `qqPieces`, where the splitter ends.
-/

namespace MyClaw

/-! ## Messages and pieces -/

/-- A message without files. -/
structure QqMessage where
  receiver : String
  replyTo : Option String := none
  text : List Char
  buttons : List (String × String) := []

/-- The recipient has the prefix of its kind. -/
def hasQqPrefix (recipient : String) : Bool :=
  "c2c:".toList.isPrefixOf recipient.toList || "group:".toList.isPrefixOf recipient.toList

/-- The recipient that `send_message` reads off a message. -/
def qqRecipient (raw : String) : Option String :=
  if raw = "" then none else if hasQqPrefix raw then some raw else some ("c2c:" ++ raw)

/-- The pieces of a text: its bubbles, cut at the limit of `ChannelCapabilities::qqbot`; none if the
splitter does not end on one of them. -/
def qqPieces (fuel : ℕ) (text : List Char) : Option (List (List Char)) :=
  let sanitized := sanitizeQqMarkdown (stripInternalTags text)
  ((splitByVisualLines sanitized qqMaxVisualLinesPerBubble).mapM fun bubble =>
    splitMessageChunk fuel bubble 2000 .codepoints).map List.flatten

/-- The number of the piece `i` of a message that began when `n` numbers were given out. -/
def msgSeq (n i : ℕ) : ℕ := (1 + n + i) % 2 ^ 32

/-- A piece that the platform has taken. -/
structure QqPart where
  recipient : String
  text : List Char
  msgId : String
  msgSeq : ℕ
  keyboard : List (String × String)
  deriving DecidableEq

/-! ## The machine -/

/-- `PendingDeliver`, with the calls that wait. -/
structure PendingDeliver where
  texts : List (List Char) := []
  msgId : String := ""
  waiters : List ℕ := []

/-- A message on its way: the calls it is for, the pieces that are left and those that were taken.  A
message with buttons has its numbers from the beginning. -/
structure QqDelivery where
  recipient : String
  text : List Char
  msgId : String
  waiters : List ℕ
  buttons : List (String × String) := []
  base : Option ℕ := none
  rest : List (List Char)
  accepted : List QqPart := []

/-- The channel: the windows, the tasks that sleep, the messages on their way, and how many numbers
`next_msg_seq` has given out; and the ledgers of the calls, of what was taken, of the messages that are
done with their answers, of the calls without recipient, and of the numbers of each message. -/
structure QqOutbox where
  pending : Entry.Table String PendingDeliver := ∅
  sleeping : List String := []
  running : List QqDelivery := []
  counter : ℕ := 0
  calls : List QqMessage := []
  sent : List QqPart := []
  finished : List (QqDelivery × Bool) := []
  refused : List ℕ := []
  reserved : List (List ℕ) := []

/-- What may happen next. -/
inductive QqEvent
  /-- A call of `send_message`; the limiter allows a passive reply or not. -/
  | send (message : QqMessage) (passive : Bool)
  /-- The task of a window wakes up. -/
  | wake (recipient : String) (passive : Bool)
  /-- The next piece of a message is posted. -/
  | post (i : ℕ) (ok : Bool)
  /-- A message with files takes a number, for a file or for its text without pieces. -/
  | file (used : Bool)

namespace QqOutbox

/-- `enqueue`, by the call `call`. -/
def enqueue (s : QqOutbox) (call : ℕ) (recipient : String) (text : List Char) (msgId : String) :
    QqOutbox :=
  { s with
    pending := Entry.upsert recipient {} (fun entry =>
      { texts := entry.texts ++ [text]
        msgId := if msgId = "" then entry.msgId else msgId
        waiters := entry.waiters ++ [call] }) s.pending
    sleeping :=
      if s.pending.lookup recipient = none then s.sleeping ++ [recipient] else s.sleeping }

/-- A message goes on its way; one without pieces is done. -/
def start (s : QqOutbox) (d : QqDelivery) : QqOutbox :=
  if d.rest = [] then { s with finished := s.finished ++ [(d, true)] }
  else { s with running := s.running ++ [d] }

/-- The numbers of `used` pieces are given out at once. -/
def reserve (s : QqOutbox) (used : ℕ) : QqOutbox :=
  { s with
    counter := s.counter + 1
    reserved := s.reserved ++ [(List.range used).map (msgSeq s.counter)] }

variable (pieces : List Char → List (List Char)) (enabled : Bool) (separator : List Char)

/-- A message that is sent at once. -/
def sendDirect (s : QqOutbox) (call : ℕ) (recipient : String) (message : QqMessage) (passive : Bool) :
    QqOutbox :=
  (s.reserve (pieces message.text).length).start
    { recipient := recipient
      text := message.text
      msgId := if passive then message.replyTo.getD "" else ""
      waiters := [call]
      buttons := message.buttons
      base := some s.counter
      rest := pieces message.text }

/-- `send_message`. -/
def send (s : QqOutbox) (message : QqMessage) (passive : Bool) : QqOutbox :=
  let call := s.calls.length
  let s := { s with calls := s.calls ++ [message] }
  match qqRecipient message.receiver with
  | none => { s with refused := s.refused ++ [call] }
  | some recipient =>
    if enabled ∧ message.buttons = [] ∧ trimChars message.text ≠ [] then
      s.enqueue call recipient message.text (message.replyTo.getD "")
    else s.sendDirect pieces call recipient message passive

/-- The task of a window goes on. -/
def wake (s : QqOutbox) (recipient : String) (passive : Bool) : QqOutbox :=
  if recipient ∈ s.sleeping then
    let s := { s with sleeping := s.sleeping.erase recipient }
    match s.pending.lookup recipient with
    | none => s
    | some entry =>
      { s with pending := s.pending.erase recipient }.start
        { recipient := recipient
          text := separator.intercalate entry.texts
          msgId := if passive then entry.msgId else ""
          waiters := entry.waiters
          rest := pieces (separator.intercalate entry.texts) }
  else s

/-- A message without numbers takes one for its next piece. -/
def takeNumber (s : QqOutbox) (d : QqDelivery) : QqOutbox :=
  if d.base = none then s.reserve 1 else s

/-- The number of the next piece. -/
def nextNumber (s : QqOutbox) (d : QqDelivery) : ℕ :=
  match d.base with
  | some base => msgSeq base d.accepted.length
  | none => msgSeq s.counter 0

/-- The next piece of `d` as it is posted; the keyboard goes with the last piece of a reply. -/
def nextPart (s : QqOutbox) (d : QqDelivery) (piece : List Char) (rest : List (List Char)) :
    QqPart where
  recipient := d.recipient
  text := piece
  msgId := d.msgId
  msgSeq := s.nextNumber d
  keyboard := if rest = [] ∧ d.msgId ≠ "" then d.buttons else []

/-- A piece is posted; the callers have their answer with the last one or the first that fails. -/
def post (s : QqOutbox) (i : ℕ) (ok : Bool) : QqOutbox :=
  match s.running[i]? with
  | none => s
  | some d =>
    match d.rest with
    | [] => s
    | piece :: rest =>
      let part := s.nextPart d piece rest
      let s := { s.takeNumber d with running := s.running.eraseIdx i }
      if ok then
        { s with sent := s.sent ++ [part] }.start
          { d with rest := rest, accepted := d.accepted ++ [part] }
      else { s with finished := s.finished ++ [(d, false)] }

end QqOutbox

/-- A step. -/
def qqOutboxStep (pieces : List Char → List (List Char)) (enabled : Bool) (separator : List Char)
    (s : QqOutbox) : QqEvent → QqOutbox
  | .send message passive => s.send pieces enabled message passive
  | .wake recipient passive => s.wake pieces separator recipient passive
  | .post i ok => s.post i ok
  | .file used => s.reserve used.toNat

/-! ## Each call is in one place -/

section

variable {pieces : List Char → List (List Char)} {enabled : Bool} {separator : List Char}
variable {s : QqOutbox} {d : QqDelivery} {call n : ℕ} {recipient msgId : String} {text : List Char}

namespace QqOutbox

/-- The calls that have an answer. -/
def answered (s : QqOutbox) : List ℕ := s.refused ++ s.finished.flatMap (·.1.waiters)

/-- The calls whose message is on its way. -/
def sending (s : QqOutbox) : List ℕ := s.running.flatMap (·.waiters)

/-- The calls in a window. -/
def waiting (s : QqOutbox) : List ℕ := (Entry.toList s.pending).flatMap (·.2.waiters)

/-- How often a call is answered, on its way or in a window. -/
def places (s : QqOutbox) (call : ℕ) : ℕ :=
  s.answered.count call + s.sending.count call + s.waiting.count call

/-- What holds in every state of a run. -/
structure Placed (s : QqOutbox) : Prop where
  places : ∀ call, s.places call = (List.range s.calls.length).count call
  /-- Each window has a task that sleeps. -/
  drivers : s.sleeping.Perm s.pending.keys
  busy : ∀ d ∈ s.running, d.rest ≠ []

/-- The message takes its calls along. -/
lemma places_start (s : QqOutbox) (d : QqDelivery) (call : ℕ) :
    (s.start d).places call = s.places call + d.waiters.count call := by
  rw [start]
  split_ifs
  · simp only [places, answered, sending, waiting, List.flatMap_append, List.flatMap_singleton,
      List.count_append]
    omega
  · simp only [places, answered, sending, waiting, List.flatMap_append, List.flatMap_singleton,
      List.count_append]
    omega

lemma waiting_of_lookup {entry : PendingDeliver} (h : s.pending.lookup recipient = some entry) :
    s.waiting.Perm
      (entry.waiters ++ (Entry.toList (s.pending.erase recipient)).flatMap (·.2.waiters)) :=
  (Entry.toList_perm h).flatMap_right _

lemma waiting_enqueue :
    (s.enqueue call recipient text msgId).waiting.Perm (call :: s.waiting) := by
  have hinsert : (s.enqueue call recipient text msgId).waiting =
      (((s.pending.lookup recipient).getD {}).waiters ++ [call]) ++
        (Entry.toList (s.pending.erase recipient)).flatMap (·.2.waiters) := rfl
  rw [hinsert]
  cases h : s.pending.lookup recipient with
  | none =>
    rw [Entry.erase_of_vacant h]
    exact .refl _
  | some entry =>
    rw [Option.getD_some, List.append_assoc, List.singleton_append]
    exact List.perm_middle.trans ((waiting_of_lookup h).symm.cons call)

lemma places_enqueue (other : ℕ) : (s.enqueue call recipient text msgId).places other =
    s.places other + [call].count other := by
  have hwaiting : (s.enqueue call recipient text msgId).waiting.Perm (call :: s.waiting) :=
    waiting_enqueue
  have hcount := hwaiting.count_eq other
  rw [← List.singleton_append, List.count_append] at hcount
  rw [places, hcount]
  change s.answered.count other + s.sending.count other + _ = _
  rw [places]
  omega

lemma drivers_enqueue (h : s.sleeping.Perm s.pending.keys) :
    (s.enqueue call recipient text msgId).sleeping.Perm
      (s.enqueue call recipient text msgId).pending.keys := by
  unfold enqueue
  dsimp only
  rw [Entry.upsert, AList.keys_insert]
  split_ifs with hvacant
  · rw [List.erase_of_not_mem (AList.lookup_eq_none.1 hvacant)]
    exact List.perm_append_comm.trans (h.cons recipient)
  · have hmem : recipient ∈ s.pending.keys := by
      by_contra hnot
      exact hvacant (AList.lookup_eq_none.2 hnot)
    exact h.trans (List.perm_cons_erase hmem)

/-- A message goes on its way with calls that are nowhere else. -/
lemma placed_start
    (hplaces : ∀ call, s.places call + d.waiters.count call = (List.range s.calls.length).count call)
    (hdrivers : s.sleeping.Perm s.pending.keys) (hbusy : ∀ d ∈ s.running, d.rest ≠ []) :
    (s.start d).Placed := by
  have hcalls : (s.start d).calls = s.calls := by
    rw [start]
    split_ifs <;> rfl
  have hsame : (s.start d).sleeping = s.sleeping ∧ (s.start d).pending = s.pending := by
    rw [start]
    split_ifs <;> exact ⟨rfl, rfl⟩
  refine ⟨fun call => ?_, ?_, ?_⟩
  · rw [places_start, hcalls, hplaces]
  · rw [hsame.1, hsame.2]
    exact hdrivers
  · intro other hother
    rw [start] at hother
    split_ifs at hother with hrest
    · exact hbusy other hother
    · rcases List.mem_append.1 hother with hold | hnew
      · exact hbusy other hold
      · rw [List.mem_singleton.1 hnew]
        exact hrest

lemma count_range_succ (n call : ℕ) :
    (List.range (n + 1)).count call = (List.range n).count call + [n].count call := by
  rw [List.range_succ, List.count_append]

/-- A new call is in one place. -/
lemma Placed.send (h : s.Placed) (message : QqMessage) (passive : Bool) :
    (s.send pieces enabled message passive).Placed := by
  have hlength : (s.calls ++ [message]).length = s.calls.length + 1 := List.length_append
  unfold QqOutbox.send
  dsimp only
  split
  · refine ⟨fun call => ?_, h.drivers, h.busy⟩
    change (s.refused ++ [s.calls.length] ++ s.finished.flatMap (·.1.waiters)).count call +
      s.sending.count call + s.waiting.count call =
        (List.range (s.calls ++ [message]).length).count call
    have hbefore := h.places call
    rw [QqOutbox.places, answered, List.count_append] at hbefore
    rw [hlength, count_range_succ, List.count_append, List.count_append]
    omega
  · split_ifs
    · refine ⟨fun call => ?_, drivers_enqueue h.drivers, h.busy⟩
      rw [places_enqueue]
      change s.places call + _ = (List.range (s.calls ++ [message]).length).count call
      rw [hlength, count_range_succ, h.places]
    · refine placed_start (fun call => ?_) h.drivers h.busy
      change s.places call + _ = (List.range (s.calls ++ [message]).length).count call
      rw [hlength, count_range_succ, h.places]

/-- A window that is taken leaves each call in one place. -/
lemma Placed.wake (h : s.Placed) (recipient : String) (passive : Bool) :
    (s.wake pieces separator recipient passive).Placed := by
  unfold QqOutbox.wake
  dsimp only
  by_cases hsleeping : recipient ∈ s.sleeping
  · rw [if_pos hsleeping]
    have hmem : recipient ∈ s.pending := h.drivers.mem_iff.1 hsleeping
    obtain ⟨entry, hentry⟩ := Option.isSome_iff_exists.1 (AList.lookup_isSome.2 hmem)
    rw [hentry]
    dsimp only
    refine placed_start (fun call => ?_) ?_ h.busy
    · have hbefore := h.places call
      have hcount := (waiting_of_lookup hentry).count_eq call
      rw [List.count_append] at hcount
      change s.answered.count call + s.sending.count call +
        ((Entry.toList (s.pending.erase recipient)).flatMap (·.2.waiters)).count call +
          entry.waiters.count call = _
      rw [QqOutbox.places, hcount] at hbefore
      rw [← hbefore]
      omega
    · change (s.sleeping.erase recipient).Perm (s.pending.erase recipient).keys
      rw [AList.keys_erase]
      exact h.drivers.erase recipient
  · rw [if_neg hsleeping]
    exact h

/-- A post leaves each call in one place. -/
lemma Placed.post (h : s.Placed) (i : ℕ) (ok : Bool) : (s.post i ok).Placed := by
  unfold QqOutbox.post
  split
  · exact h
  · rename_i d hd
    have hrunning := Keyed.perm_of_getElem? hd
    have hbusy : ∀ d ∈ s.running.eraseIdx i, d.rest ≠ [] := fun d hd =>
      h.busy d (List.mem_of_mem_eraseIdx hd)
    have hplaces (call : ℕ) : s.answered.count call +
        ((s.running.eraseIdx i).flatMap (·.waiters)).count call + s.waiting.count call +
          d.waiters.count call = (List.range s.calls.length).count call := by
      have hbefore := h.places call
      have hcount := (hrunning.flatMap_right (·.waiters)).count_eq call
      rw [List.flatMap_cons, List.count_append] at hcount
      rw [QqOutbox.places, sending, hcount] at hbefore
      rw [← hbefore]
      omega
    split
    · exact h
    · rename_i piece rest hrest
      have hsame : (s.takeNumber d).answered = s.answered ∧ (s.takeNumber d).waiting = s.waiting ∧
          (s.takeNumber d).calls = s.calls ∧ (s.takeNumber d).sleeping = s.sleeping ∧
            (s.takeNumber d).pending = s.pending := by
        rw [takeNumber]
        split_ifs <;> exact ⟨rfl, rfl, rfl, rfl, rfl⟩
      obtain ⟨hanswered, hwaiting, hcalls, hsleeping, hpending⟩ := hsame
      have hdrivers : (s.takeNumber d).sleeping.Perm (s.takeNumber d).pending.keys := by
        rw [hsleeping, hpending]
        exact h.drivers
      dsimp only
      split_ifs
      · refine placed_start (fun call => ?_) hdrivers hbusy
        change (s.takeNumber d).answered.count call +
          ((s.running.eraseIdx i).flatMap (·.waiters)).count call +
            (s.takeNumber d).waiting.count call + d.waiters.count call =
              (List.range (s.takeNumber d).calls.length).count call
        rw [hanswered, hwaiting, hcalls, hplaces]
      · refine ⟨fun call => ?_, hdrivers, hbusy⟩
        change ((s.takeNumber d).refused ++
          ((s.takeNumber d).finished ++ [(d, false)]).flatMap (·.1.waiters)).count call +
            ((s.running.eraseIdx i).flatMap (·.waiters)).count call +
              (s.takeNumber d).waiting.count call =
                (List.range (s.takeNumber d).calls.length).count call
        rw [List.flatMap_append, List.flatMap_singleton, ← List.append_assoc, List.count_append]
        change (s.takeNumber d).answered.count call + d.waiters.count call + _ + _ = _
        rw [hanswered, hwaiting, hcalls, ← hplaces]
        omega

end QqOutbox

/-- **Each call is answered once, or a task will go on with it**: in every state of a run a call is
among those that have their answer, or in a message that still has a piece to be posted, or in a window
whose task sleeps; and each window has one task. -/
theorem qqOutbox_calls (pieces : List Char → List (List Char)) (enabled : Bool) (separator : List Char)
    (es : List QqEvent) :
    let s := Run.exec (qqOutboxStep pieces enabled separator) {} es
    (s.answered ++ s.sending ++ s.waiting).Perm (List.range s.calls.length) ∧
      (∀ d ∈ s.running, d.rest ≠ []) ∧ s.sleeping.Perm s.pending.keys ∧ s.sleeping.Nodup := by
  have hplaced : (Run.exec (qqOutboxStep pieces enabled separator) {} es).Placed := by
    refine Run.exec_of_step (fun s e h => ?_) ⟨fun call => rfl, .refl _, nofun⟩ es
    cases e with
    | send message passive => exact h.send message passive
    | wake recipient passive => exact h.wake recipient passive
    | post i ok => exact h.post i ok
    | file used => exact ⟨h.places, h.drivers, h.busy⟩
  intro s
  refine ⟨List.perm_iff_count.2 fun call => ?_, hplaced.busy, hplaced.drivers, ?_⟩
  · rw [List.count_append, List.count_append]
    exact hplaced.places call
  · exact hplaced.drivers.nodup_iff.2 s.pending.keys_nodup

/-! ## What a message is made of -/

/-- The messages of the calls `waiters`, in their order, are for one recipient. -/
structure Merges (calls : List QqMessage) (recipient : String) (waiters : List ℕ)
    (messages : List QqMessage) : Prop where
  ordered : waiters.Pairwise (· < ·)
  calls : waiters.map (calls[·]?) = messages.map some
  recipient : ∀ message ∈ messages, qqRecipient message.receiver = some recipient

/-- A message has the texts of its calls; the pieces that were taken, with those that are left, are the
pieces of its text, and they went to its recipient as a reply to its message. -/
structure QqDelivery.Delivers (pieces : List Char → List (List Char)) (separator : List Char)
    (calls : List QqMessage) (d : QqDelivery) : Prop where
  merges : ∃ messages, Merges calls d.recipient d.waiters messages ∧
    d.text = separator.intercalate (messages.map (·.text))
  parts : d.accepted.map (·.text) ++ d.rest = pieces d.text
  address : ∀ part ∈ d.accepted, part.recipient = d.recipient ∧ part.msgId = d.msgId

section

variable {calls messages : List QqMessage} {waiters : List ℕ}

/-- The calls of a message have been made. -/
lemma Merges.lt_length (h : Merges calls recipient waiters messages) (hcall : call ∈ waiters) :
    call < calls.length := by
  have hmem : calls[call]? ∈ messages.map some := h.calls ▸ List.mem_map_of_mem hcall
  obtain ⟨message, -, hmessage⟩ := List.mem_map.1 hmem
  exact (List.getElem?_eq_some_iff.1 hmessage.symm).1

/-- A later call changes nothing. -/
lemma Merges.later (h : Merges calls recipient waiters messages) (message : QqMessage) :
    Merges (calls ++ [message]) recipient waiters messages where
  ordered := h.ordered
  calls := by
    rw [← h.calls]
    exact List.map_congr_left fun call hcall => List.getElem?_append_left (h.lt_length hcall)
  recipient := h.recipient

/-- The next call joins a window. -/
lemma Merges.push (h : Merges calls recipient waiters messages) {message : QqMessage}
    (hmessage : qqRecipient message.receiver = some recipient) :
    Merges (calls ++ [message]) recipient (waiters ++ [calls.length]) (messages ++ [message]) where
  ordered := by
    rw [List.pairwise_append]
    refine ⟨h.ordered, List.pairwise_singleton _ _, fun call hcall last hlast => ?_⟩
    rw [List.mem_singleton.1 hlast]
    exact h.lt_length hcall
  calls := by
    rw [List.map_append, List.map_append, (h.later message).calls, List.map_singleton,
      List.map_singleton, List.getElem?_concat_length]
  recipient other hother := by
    rcases List.mem_append.1 hother with hold | hnew
    · exact h.recipient other hold
    · rw [List.mem_singleton.1 hnew]
      exact hmessage

lemma Merges.nil (calls : List QqMessage) (recipient : String) : Merges calls recipient [] [] :=
  ⟨.nil, rfl, nofun⟩

lemma QqDelivery.Delivers.later (h : d.Delivers pieces separator calls) (message : QqMessage) :
    d.Delivers pieces separator (calls ++ [message]) := by
  obtain ⟨messages, hmerges, htext⟩ := h.merges
  exact ⟨⟨messages, hmerges.later message, htext⟩, h.parts, h.address⟩

end

namespace QqOutbox

/-- What holds in every state of a run; `hand` has a message that the step at hand has taken out of the
list. -/
structure Faithful (pieces : List Char → List (List Char)) (separator : List Char) (s : QqOutbox)
    (hand : List QqDelivery) : Prop where
  pending : ∀ recipient entry, s.pending.lookup recipient = some entry →
    ∃ messages, Merges s.calls recipient entry.waiters messages ∧
      entry.texts = messages.map (·.text)
  running : ∀ d ∈ hand ++ s.running, d.Delivers pieces separator s.calls
  finished : ∀ p ∈ s.finished, p.1.Delivers pieces separator s.calls ∧ (p.2 = true ↔ p.1.rest = [])
  sent : ∀ part, s.sent.count part =
    (s.finished.flatMap (·.1.accepted)).count part +
      ((hand ++ s.running).flatMap (·.accepted)).count part

lemma faithful_empty : ({} : QqOutbox).Faithful pieces separator [] where
  pending recipient entry hentry := by
    rw [AList.lookup_empty] at hentry
    exact absurd hentry nofun
  running _ hd := absurd hd List.not_mem_nil
  finished _ hp := absurd hp List.not_mem_nil
  sent _ := rfl

lemma Faithful.start (h : s.Faithful pieces separator [d]) :
    (s.start d).Faithful pieces separator [] := by
  rw [QqOutbox.start]
  split_ifs with hrest
  · refine ⟨h.pending, fun other hother => h.running other (List.mem_cons_of_mem d hother), ?_, ?_⟩
    · intro p hp
      rcases List.mem_append.1 hp with hold | hnew
      · exact h.finished p hold
      · rw [List.mem_singleton.1 hnew]
        exact ⟨h.running d List.mem_cons_self, iff_of_true rfl hrest⟩
    · intro part
      have hsent := h.sent part
      simp only [List.flatMap_append, List.flatMap_singleton, List.count_append, List.nil_append]
        at hsent ⊢
      omega
  · refine ⟨h.pending, fun other hother => h.running other ?_, h.finished, ?_⟩
    · rw [List.nil_append] at hother
      rcases List.mem_append.1 hother with hold | hnew
      · exact List.mem_cons_of_mem d hold
      · exact List.mem_singleton.1 hnew ▸ List.mem_cons_self
    · intro part
      have hsent := h.sent part
      simp only [List.flatMap_append, List.flatMap_singleton, List.count_append, List.nil_append]
        at hsent ⊢
      omega

/-- A message that fails is done. -/
lemma Faithful.fail (h : s.Faithful pieces separator [d]) (hrest : d.rest ≠ []) :
    { s with finished := s.finished ++ [(d, false)] }.Faithful pieces separator [] where
  pending := h.pending
  running other hother := h.running other (List.mem_cons_of_mem d hother)
  finished p hp := by
    rcases List.mem_append.1 hp with hold | hnew
    · exact h.finished p hold
    · rw [List.mem_singleton.1 hnew]
      exact ⟨h.running d List.mem_cons_self, iff_of_false nofun hrest⟩
  sent part := by
    have hsent := h.sent part
    simp only [List.flatMap_append, List.flatMap_singleton, List.count_append, List.nil_append]
      at hsent ⊢
    omega

/-- A message is taken out of the list. -/
lemma Faithful.take (h : s.Faithful pieces separator []) {i : ℕ} (hd : s.running[i]? = some d) :
    { s with running := s.running.eraseIdx i }.Faithful pieces separator [d] where
  pending := h.pending
  running other hother := by
    refine h.running other ((Keyed.perm_of_getElem? hd).mem_iff.2 hother)
  finished := h.finished
  sent part := by
    have hcount := ((Keyed.perm_of_getElem? hd).flatMap_right (·.accepted)).count_eq part
    rw [h.sent part, List.nil_append, hcount]
    rfl

/-- The platform takes a piece of the message at hand. -/
lemma Faithful.accept (h : s.Faithful pieces separator [d]) {piece : List Char}
    {rest : List (List Char)} {part : QqPart} (hrest : d.rest = piece :: rest)
    (htext : part.text = piece) (hrecipient : part.recipient = d.recipient)
    (hmsgId : part.msgId = d.msgId) :
    { s with sent := s.sent ++ [part] }.Faithful pieces separator
      [{ d with rest := rest, accepted := d.accepted ++ [part] }] where
  pending := h.pending
  running other hother := by
    rcases List.mem_cons.1 hother with rfl | hold
    · have hd := h.running d List.mem_cons_self
      refine ⟨hd.merges, ?_, fun other hother => ?_⟩
      · rw [← hd.parts, hrest, List.map_append, List.map_singleton, htext, List.append_assoc]
        rfl
      · rcases List.mem_append.1 hother with hbefore | hnew
        · exact hd.address other hbefore
        · rw [List.mem_singleton.1 hnew]
          exact ⟨hrecipient, hmsgId⟩
    · exact h.running other (List.mem_cons_of_mem d hold)
  finished := h.finished
  sent other := by
    have hsent := h.sent other
    simp only [List.flatMap_cons, List.cons_append, List.nil_append, List.count_append] at hsent ⊢
    omega

/-- A call is made. -/
lemma Faithful.later (h : s.Faithful pieces separator []) (message : QqMessage) :
    { s with calls := s.calls ++ [message] }.Faithful pieces separator [] where
  pending recipient entry hentry := by
    obtain ⟨messages, hmerges, htexts⟩ := h.pending recipient entry hentry
    exact ⟨messages, hmerges.later message, htexts⟩
  running d hd := (h.running d hd).later message
  finished p hp := ⟨(h.finished p hp).1.later message, (h.finished p hp).2⟩
  sent := h.sent

/-- A call joins a window. -/
lemma Faithful.enqueue (h : s.Faithful pieces separator []) {message : QqMessage}
    (hmessage : qqRecipient message.receiver = some recipient) (msgId : String) :
    ({ s with calls := s.calls ++ [message] }.enqueue s.calls.length recipient message.text
      msgId).Faithful pieces separator [] where
  pending other entry hentry := by
    have hlookup : (Entry.upsert recipient {} _ s.pending).lookup other = some entry := hentry
    rw [Entry.lookup_upsert] at hlookup
    by_cases hsame : other = recipient
    · rw [if_pos hsame] at hlookup
      subst hsame
      obtain rfl := Option.some.inj hlookup
      have hbefore : ∃ messages,
          Merges s.calls other ((s.pending.lookup other).getD {}).waiters messages ∧
            ((s.pending.lookup other).getD {}).texts = messages.map (·.text) := by
        cases hother : s.pending.lookup other with
        | none => exact ⟨[], .nil _ _, rfl⟩
        | some entry => exact h.pending other entry hother
      obtain ⟨messages, hmerges, htexts⟩ := hbefore
      refine ⟨messages ++ [message], hmerges.push hmessage, ?_⟩
      rw [List.map_append, List.map_singleton, ← htexts]
    · rw [if_neg hsame] at hlookup
      exact (h.later message).pending other entry hlookup
  running := (h.later message).running
  finished := (h.later message).finished
  sent := h.sent

/-- Nothing but the numbers has changed. -/
lemma Faithful.reserve (h : s.Faithful pieces separator []) (used : ℕ) :
    (s.reserve used).Faithful pieces separator [] := ⟨h.pending, h.running, h.finished, h.sent⟩

/-- A message that has sent nothing is taken in hand. -/
lemma Faithful.hold (h : s.Faithful pieces separator []) (hd : d.Delivers pieces separator s.calls)
    (hnone : d.accepted = []) : s.Faithful pieces separator [d] where
  pending := h.pending
  running other hother := by
    rcases List.mem_cons.1 hother with rfl | hold
    · exact hd
    · exact h.running other hold
  finished := h.finished
  sent part := by
    rw [h.sent part, List.cons_append, List.flatMap_cons, hnone]
    rfl

lemma Faithful.send (h : s.Faithful pieces separator []) (message : QqMessage) (passive : Bool) :
    (s.send pieces enabled message passive).Faithful pieces separator [] := by
  have hlater := h.later message
  unfold QqOutbox.send
  dsimp only
  split
  · exact ⟨hlater.pending, hlater.running, hlater.finished, hlater.sent⟩
  · rename_i recipient hrecipient
    split_ifs
    · exact h.enqueue hrecipient _
    · have hmerges := (Merges.nil s.calls recipient).push hrecipient
      refine Faithful.start ((hlater.reserve _).hold ⟨⟨[message], hmerges, ?_⟩, rfl, nofun⟩ rfl)
      exact (List.append_nil _).symm

lemma Faithful.wake (h : s.Faithful pieces separator []) (recipient : String) (passive : Bool) :
    (s.wake pieces separator recipient passive).Faithful pieces separator [] := by
  unfold QqOutbox.wake
  dsimp only
  by_cases hsleeping : recipient ∈ s.sleeping
  · rw [if_pos hsleeping]
    cases hentry : s.pending.lookup recipient with
    | none => exact ⟨h.pending, h.running, h.finished, h.sent⟩
    | some entry =>
      dsimp only
      obtain ⟨messages, hmerges, htexts⟩ := h.pending recipient entry hentry
      have herase : { s with
          sleeping := s.sleeping.erase recipient
          pending := s.pending.erase recipient }.Faithful pieces separator [] := by
        refine ⟨fun other entry hother => ?_, h.running, h.finished, h.sent⟩
        rw [Entry.lookup_erase_eq] at hother
        split_ifs at hother
        exact h.pending other entry hother
      refine Faithful.start (herase.hold ⟨⟨messages, hmerges, ?_⟩, rfl, nofun⟩ rfl)
      exact congrArg separator.intercalate htexts
  · rw [if_neg hsleeping]
    exact h

lemma Faithful.post (h : s.Faithful pieces separator []) (i : ℕ) (ok : Bool) :
    (s.post i ok).Faithful pieces separator [] := by
  unfold QqOutbox.post
  split
  · exact h
  · rename_i d hd
    split
    · exact h
    · rename_i piece rest hrest
      have hnumber : (s.takeNumber d).Faithful pieces separator [] ∧
          (s.takeNumber d).running = s.running := by
        rw [takeNumber]
        split_ifs
        · exact ⟨h.reserve 1, rfl⟩
        · exact ⟨h, rfl⟩
      have htake := hnumber.1.take (d := d) (by rw [hnumber.2]; exact hd)
      rw [hnumber.2] at htake
      dsimp only
      split_ifs
      · exact (htake.accept hrest rfl rfl rfl).start
      · exact htake.fail (by rw [hrest]; exact List.cons_ne_nil _ _)

end QqOutbox

/-- **A message has the texts of its calls**: it is for the recipient of them all, they are in their
order, and the pieces that the platform has taken are the first ones of its text.  A message is answered
with success exactly when all were taken, and nothing else is sent. -/
theorem qqOutbox_deliveries (pieces : List Char → List (List Char)) (enabled : Bool)
    (separator : List Char) (es : List QqEvent) :
    let s := Run.exec (qqOutboxStep pieces enabled separator) {} es
    (∀ d ∈ s.running, d.Delivers pieces separator s.calls) ∧
      (∀ p ∈ s.finished, p.1.Delivers pieces separator s.calls ∧ (p.2 = true ↔ p.1.rest = [])) ∧
        s.sent.Perm ((s.finished.map (·.1) ++ s.running).flatMap (·.accepted)) := by
  have hfaithful : (Run.exec (qqOutboxStep pieces enabled separator) {} es).Faithful pieces separator
      [] := by
    refine Run.exec_of_step (P := fun s : QqOutbox => s.Faithful pieces separator []) (fun s e h => ?_)
      QqOutbox.faithful_empty es
    cases e with
    | send message passive => exact h.send message passive
    | wake recipient passive => exact h.wake recipient passive
    | post i ok => exact h.post i ok
    | file used => exact h.reserve _
  intro s
  refine ⟨hfaithful.running, hfaithful.finished, List.perm_iff_count.2 fun part => ?_⟩
  rw [List.flatMap_append, List.flatMap_map, List.count_append]
  exact hfaithful.sent part

/-! ## The numbers of the pieces -/

/-- The numbers that a message has from the beginning and has not used. -/
def QqDelivery.unused (d : QqDelivery) : List ℕ :=
  match d.base with
  | some base => (List.range' d.accepted.length d.rest.length).map (msgSeq base)
  | none => []

/-- A message after the platform has taken its next piece. -/
def QqDelivery.taken (d : QqDelivery) (part : QqPart) (rest : List (List Char)) : QqDelivery :=
  { d with rest := rest, accepted := d.accepted ++ [part] }

/-- What the next piece of a message takes from its numbers. -/
lemma QqDelivery.unused_eq {piece : List Char} {rest : List (List Char)} {base : ℕ} {part : QqPart}
    (hbase : d.base = some base) (hrest : d.rest = piece :: rest) :
    d.unused = msgSeq base d.accepted.length :: (d.taken part rest).unused := by
  have htaken : (d.taken part rest).base = some base := hbase
  unfold QqDelivery.unused
  rw [hbase, htaken, hrest]
  dsimp only [QqDelivery.taken]
  rw [List.length_append, List.length_singleton, List.length_cons, List.range'_succ, List.map_cons]

lemma QqDelivery.unused_of_none (hbase : d.base = none) : d.unused = [] := by
  unfold QqDelivery.unused
  rw [hbase]

namespace QqOutbox

/-- What holds of the numbers in every state of a run. -/
structure Numbered (s : QqOutbox) (hand : List QqDelivery) : Prop where
  counter : s.counter = s.reserved.length
  reserved : ∀ i numbers, s.reserved[i]? = some numbers →
    numbers = (List.range numbers.length).map (msgSeq i)
  sent : ∀ n, (s.sent.map (·.msgSeq)).count n + ((hand ++ s.running).flatMap (·.unused)).count n ≤
    s.reserved.flatten.count n

lemma numbered_empty : ({} : QqOutbox).Numbered [] where
  counter := rfl
  reserved _ _ h := absurd h nofun
  sent _ := Nat.le_refl _

/-- Numbers are given out, for a message at hand or for none. -/
lemma Numbered.reserve (h : s.Numbered []) (used : ℕ) {hand : List QqDelivery}
    (hhand : ∀ n, (hand.flatMap (·.unused)).count n ≤
      ((List.range used).map (msgSeq s.counter)).count n) : (s.reserve used).Numbered hand where
  counter := by
    change s.counter + 1 = (s.reserved ++ [_]).length
    rw [List.length_append, List.length_singleton, h.counter]
  reserved i numbers hi := by
    rcases Nat.lt_or_ge i s.reserved.length with hlt | hge
    · exact h.reserved i numbers ((List.getElem?_append_left hlt).symm.trans hi)
    · have hlast : [(List.range used).map (msgSeq s.counter)][i - s.reserved.length]? = some numbers :=
        (List.getElem?_append_right hge).symm.trans hi
      obtain ⟨hindex, hnumbers⟩ := List.getElem?_eq_some_iff.1 hlast
      have heq : i = s.counter := by
        rw [List.length_singleton] at hindex
        rw [h.counter]
        omega
      rw [← hnumbers, List.getElem_singleton, List.length_map, List.length_range, heq]
  sent n := by
    have hsent := h.sent n
    have hnew := hhand n
    change (s.sent.map (·.msgSeq)).count n + ((hand ++ s.running).flatMap (·.unused)).count n ≤
      (s.reserved ++ [(List.range used).map (msgSeq s.counter)]).flatten.count n
    rw [List.flatten_append, List.flatten_singleton, List.count_append, List.flatMap_append,
      List.count_append]
    rw [List.nil_append] at hsent
    omega

lemma Numbered.start (h : s.Numbered [d]) : (s.start d).Numbered [] := by
  have hsent (n : ℕ) : (s.sent.map (·.msgSeq)).count n +
      (d.unused.count n + (s.running.flatMap (·.unused)).count n) ≤ s.reserved.flatten.count n := by
    rw [← List.count_append]
    exact h.sent n
  rw [QqOutbox.start]
  split_ifs
  · refine ⟨h.counter, h.reserved, fun n => Nat.le_trans ?_ (hsent n)⟩
    exact Nat.add_le_add_left (Nat.le_add_left _ _) _
  · refine ⟨h.counter, h.reserved, fun n => Nat.le_trans (Nat.le_of_eq ?_) (hsent n)⟩
    rw [List.nil_append, List.flatMap_append, List.flatMap_singleton, List.count_append,
      Nat.add_comm (d.unused.count n)]

lemma Numbered.send (h : s.Numbered []) (message : QqMessage) (passive : Bool) :
    (s.send pieces enabled message passive).Numbered [] := by
  have hlater : { s with calls := s.calls ++ [message] }.Numbered [] := ⟨h.counter, h.reserved, h.sent⟩
  unfold QqOutbox.send
  dsimp only
  split
  · exact ⟨h.counter, h.reserved, h.sent⟩
  · split_ifs
    · exact ⟨h.counter, h.reserved, h.sent⟩
    · refine Numbered.start (hlater.reserve _ fun n => ?_)
      rw [List.flatMap_singleton, List.range_eq_range']
      exact Nat.le_refl _

lemma Numbered.wake (h : s.Numbered []) (recipient : String) (passive : Bool) :
    (s.wake pieces separator recipient passive).Numbered [] := by
  unfold QqOutbox.wake
  dsimp only
  by_cases hsleeping : recipient ∈ s.sleeping
  · rw [if_pos hsleeping]
    cases s.pending.lookup recipient with
    | none => exact ⟨h.counter, h.reserved, h.sent⟩
    | some entry => exact Numbered.start ⟨h.counter, h.reserved, h.sent⟩
  · rw [if_neg hsleeping]
    exact h

/-- The number of the next piece is given out, and what is left of the message is behind it. -/
lemma Numbered.next (h : s.Numbered []) {i : ℕ} (hd : s.running[i]? = some d) {piece : List Char}
    {rest : List (List Char)} (hrest : d.rest = piece :: rest) (part : QqPart) :
    (s.takeNumber d).Numbered [] ∧ (s.takeNumber d).sent = s.sent ∧
      (s.takeNumber d).running = s.running ∧
      ∀ n, (s.sent.map (·.msgSeq)).count n +
        ((d.taken part rest).unused.count n +
          ((s.running.eraseIdx i).flatMap (·.unused)).count n + [s.nextNumber d].count n) ≤
        (s.takeNumber d).reserved.flatten.count n := by
  have hrunning (n : ℕ) := ((Keyed.perm_of_getElem? hd).flatMap_right (·.unused)).count_eq n
  simp only [List.flatMap_cons, List.count_append] at hrunning
  rw [takeNumber]
  cases hbase : d.base with
  | none =>
    rw [if_pos rfl]
    refine ⟨h.reserve 1 fun n => Nat.zero_le _, rfl, rfl, fun n => ?_⟩
    have hunused : (d.taken part rest).unused = [] := QqDelivery.unused_of_none hbase
    have hnumber : [s.nextNumber d] = (List.range 1).map (msgSeq s.counter) := by
      rw [nextNumber, hbase]
      rfl
    have hsent := h.sent n
    rw [List.nil_append, hrunning n] at hsent
    change _ ≤ (s.reserved ++ [(List.range 1).map (msgSeq s.counter)]).flatten.count n
    rw [hunused, hnumber, List.flatten_append, List.flatten_singleton, List.count_append]
    simp only [List.count_nil]
    omega
  | some base =>
    rw [if_neg nofun]
    refine ⟨h, rfl, rfl, fun n => ?_⟩
    have hnumber : s.nextNumber d = msgSeq base d.accepted.length := by
      rw [nextNumber, hbase]
    have hsent := h.sent n
    rw [List.nil_append, hrunning n, @QqDelivery.unused_eq d piece rest base part hbase hrest,
      ← List.singleton_append, List.count_append] at hsent
    rw [hnumber]
    omega

lemma Numbered.post (h : s.Numbered []) (i : ℕ) (ok : Bool) : (s.post i ok).Numbered [] := by
  unfold QqOutbox.post
  split
  · exact h
  · rename_i d hd
    split
    · exact h
    · rename_i piece rest hrest
      obtain ⟨hnumber, hsent, -, hcount⟩ := h.next hd hrest (s.nextPart d piece rest)
      dsimp only
      split_ifs
      · refine Numbered.start ⟨hnumber.counter, hnumber.reserved, fun n => ?_⟩
        have hn := hcount n
        change (((s.takeNumber d).sent ++ [s.nextPart d piece rest]).map (·.msgSeq)).count n + _ ≤ _
        rw [List.map_append, List.map_singleton, List.count_append, List.flatMap_append,
          List.flatMap_singleton, List.count_append, hsent]
        change _ + [s.nextNumber d].count n +
          ((d.taken (s.nextPart d piece rest) rest).unused.count n + _) ≤ _
        dsimp only
        omega
      · refine ⟨hnumber.counter, hnumber.reserved, fun n => ?_⟩
        have hn := hcount n
        change ((s.takeNumber d).sent.map (·.msgSeq)).count n +
          ((s.running.eraseIdx i).flatMap (·.unused)).count n ≤ _
        rw [hsent]
        dsimp only
        omega

end QqOutbox

/-- Two messages share no number, unless the first one reaches the second. -/
lemma disjoint_msgSeq_iff {i j m k : ℕ} (hij : i < j) (hi : i + m < 2 ^ 32) (hj : j + k < 2 ^ 32) :
    ((List.range m).map (msgSeq i)).Disjoint ((List.range k).map (msgSeq j)) ↔
      (k ≠ 0 → i + m ≤ j) := by
  have hfirst {a : ℕ} (ha : a < m) : msgSeq i a = 1 + i + a := Nat.mod_eq_of_lt (by omega)
  have hlater {b : ℕ} (hb : b < k) : msgSeq j b = 1 + j + b := Nat.mod_eq_of_lt (by omega)
  rw [List.disjoint_left]
  constructor
  · intro hdisjoint hk
    by_contra hreaches
    have hmem : msgSeq i (j - i) ∈ (List.range m).map (msgSeq i) :=
      List.mem_map_of_mem (List.mem_range.2 (by omega))
    refine hdisjoint hmem (List.mem_map.2 ⟨0, List.mem_range.2 (by omega), ?_⟩)
    rw [hfirst (by omega), hlater (by omega)]
    omega
  · rintro hbehind n hn hn'
    obtain ⟨a, ha, rfl⟩ := List.mem_map.1 hn
    obtain ⟨b, hb, heq⟩ := List.mem_map.1 hn'
    rw [List.mem_range] at ha hb
    rw [hfirst ha, hlater hb] at heq
    have hle := hbehind (by omega)
    omega

/-- The numbers of the messages are distinct if those of two messages always are. -/
lemma QqOutbox.nodup_flatten_iff {reserved : List (List ℕ)}
    (hreserved : ∀ i numbers, reserved[i]? = some numbers →
      numbers = (List.range numbers.length).map (msgSeq i))
    (hsmall : ∀ numbers ∈ reserved, reserved.length + numbers.length < 2 ^ 32) :
    reserved.flatten.Nodup ↔ ∀ (i j : ℕ) (first later : List ℕ), i < j → reserved[i]? = some first →
      reserved[j]? = some later → later ≠ [] → i + first.length ≤ j := by
  have hfits {i : ℕ} {numbers : List ℕ} (hi : reserved[i]? = some numbers) :
      i + numbers.length < 2 ^ 32 := by
    have hsum := hsmall numbers (List.mem_of_getElem? hi)
    have hlt := (List.getElem?_eq_some_iff.1 hi).1
    omega
  have hdisjoint {i j : ℕ} {first later : List ℕ} (hij : i < j) (hi : reserved[i]? = some first)
      (hj : reserved[j]? = some later) :
      first.Disjoint later ↔ (later ≠ [] → i + first.length ≤ j) := by
    have h := disjoint_msgSeq_iff hij (hfits hi) (hfits hj)
    rwa [← hreserved i first hi, ← hreserved j later hj, Ne, List.length_eq_zero_iff] at h
  have hnodup : ∀ numbers ∈ reserved, numbers.Nodup := by
    intro numbers hmem
    obtain ⟨i, hi⟩ := List.mem_iff_getElem?.1 hmem
    have hlt := hfits hi
    rw [hreserved i numbers hi]
    refine List.nodup_range.map_on fun a ha b hb heq => ?_
    rw [List.mem_range] at ha hb
    rw [msgSeq, msgSeq, Nat.mod_eq_of_lt (by omega), Nat.mod_eq_of_lt (by omega)] at heq
    omega
  rw [List.nodup_flatten, and_iff_right hnodup, List.pairwise_iff_getElem]
  constructor
  · intro h i j first later hij hi hj
    obtain ⟨hilt, rfl⟩ := List.getElem?_eq_some_iff.1 hi
    obtain ⟨hjlt, rfl⟩ := List.getElem?_eq_some_iff.1 hj
    exact (hdisjoint hij hi hj).1 (h i j hilt hjlt hij)
  · intro h i j hilt hjlt hij
    have hi := List.getElem?_eq_getElem hilt
    have hj := List.getElem?_eq_getElem hjlt
    exact (hdisjoint hij hi hj).2 (h i j _ _ hij hi hj)

/-- **When no number is given to two pieces**: exactly when no message takes so many numbers at once
that they reach those of a later one; for the counter goes on by one for each message.  The numbers of
what the platform has taken are among those that were given out. -/
theorem nodup_reserved_iff (pieces : List Char → List (List Char)) (enabled : Bool)
    (separator : List Char) (es : List QqEvent)
    (hsmall : ∀ numbers ∈ (Run.exec (qqOutboxStep pieces enabled separator) {} es).reserved,
      (Run.exec (qqOutboxStep pieces enabled separator) {} es).reserved.length + numbers.length <
        2 ^ 32) :
    let s := Run.exec (qqOutboxStep pieces enabled separator) {} es
    (s.sent.map (·.msgSeq)).Subperm s.reserved.flatten ∧
      (s.reserved.flatten.Nodup ↔ ∀ (i j : ℕ) (first later : List ℕ), i < j →
        s.reserved[i]? = some first → s.reserved[j]? = some later → later ≠ [] →
          i + first.length ≤ j) := by
  have hnumbered : (Run.exec (qqOutboxStep pieces enabled separator) {} es).Numbered [] := by
    refine Run.exec_of_step (P := fun s : QqOutbox => s.Numbered []) (fun s e h => ?_)
      QqOutbox.numbered_empty es
    cases e with
    | send message passive => exact h.send message passive
    | wake recipient passive => exact h.wake recipient passive
    | post i ok => exact h.post i ok
    | file used => exact h.reserve _ fun n => Nat.zero_le _
  generalize Run.exec (qqOutboxStep pieces enabled separator) {} es = s at hsmall hnumbered ⊢
  refine ⟨List.subperm_ext_iff.2 fun n _ => Nat.le_trans (Nat.le_add_right _ _) (hnumbered.sent n), ?_⟩
  exact QqOutbox.nodup_flatten_iff hnumbered.reserved hsmall

end

/-- The text of a call. -/
def QqEvent.texts : QqEvent → List (List Char)
  | .send message _ => [message.text]
  | _ => []

/-- A reply of two bubbles with a button, and a short one behind it. -/
def twoReplies : List QqEvent :=
  [.send
    { receiver := "u"
      text := (List.replicate 16 ['a']).intersperse ['\n', '\n'] |>.flatten
      buttons := [("ok", "ok")] } false,
    .send { receiver := "u", text := ['b'], buttons := [("ok", "ok")] } false]

/-- The second piece of the first reply has the number of the second reply. -/
theorem not_nodup_reserved_twoReplies :
    ∃ pieces : List Char → List (List Char),
      (∀ text ∈ twoReplies.flatMap QqEvent.texts, qqPieces 40 text = some (pieces text)) ∧
        ¬(Run.exec (qqOutboxStep pieces true ['\n']) {} twoReplies).reserved.flatten.Nodup := by
  refine ⟨fun text => (qqPieces 40 text).getD [], by decide +kernel, fun h => ?_⟩
  have hspec := nodup_reserved_iff (fun text => (qqPieces 40 text).getD []) true ['\n'] twoReplies
    (by decide +kernel)
  have hreach := hspec.2.1 h 0 1 [1, 2] [2] (by decide) (by decide +kernel) (by decide +kernel)
    (List.cons_ne_nil _ _)
  exact absurd hreach (by decide)

end MyClaw
