import MyClaw.Lib.Run
import Mathlib.Data.List.Nodup

set_option autoImplicit false

/-!
# The user mailbox

The messages of other users wait in the mailbox of `KnownUsersRegistry`
(`identity/known_users/registry.rs`), which is written to disk now and then.  A turn of the recipient
drains it and stashes what it has drained on the session (`agents/orchestrator/inbound.rs`); the next
request to the model takes the stash (`agents/agent/injections.rs`).

## Main definitions

* `MailWorld.step` — one step of the senders, the turns, the flush and the daemon.
* `MailWorld.ExactlyOnce` — a mail that was flushed waits or was put into one request.
* `MailWorld.CrashesInTime` — a crash falls well between the drains, the requests and the
  flushes.
* `MailWorld.LosesNothing` — the condition of a step.

## Main results

* `MailWorld.DiskInv.step` — the file has, of the mails that were flushed, those of the mailbox and those
  that were drained since the last flush.
* `MailWorld.exactlyOnce_of_losesNothing` — every mail is put into one request in runs whose
  steps all meet the condition.
* `MailWorld.crash_repeats_mail` — a crash soon after a request repeats the mail; one soon
  after a flush loses it.

## Implementation notes

A mail waits as long as it is in the mailbox, in the hands of a turn that has drained it, or in the
stash of a session.  The number of a mail is that of its push: `msg_id` is fresh.  The ids are those
that the resolver gives.  `saved`, `unsaved`, `requested`, `drained` and `torn` are not kept by the
source; they say what happened. -/

namespace MyClaw

/-- `UserMail`, with its recipient; `msg_id` is the number of the push. -/
structure UserMail where
  to_ : String
  msgId : ℕ
  senderUserId : String
  senderNickname : String
  text : String
  sentAt : ℕ
  deriving DecidableEq

/-- How far a turn has come. -/
inductive MailPoint
  /-- The mailbox was drained. -/
  | drained
  /-- What was drained is on the session. -/
  | running
  | finished
  deriving DecidableEq

/-- A turn with what it has drained. -/
structure MailTurn where
  session : String
  mails : List UserMail
  point : MailPoint

/-- The mails that only the turn has. -/
def MailTurn.held (t : MailTurn) : List UserMail :=
  match t.point with
  | .drained => t.mails
  | _ => []

/-- The mailbox, its file, the sessions and the turns. -/
structure MailWorld where
  /-- `user_mailbox`: all queues in one, each in its order. -/
  userMailbox : List UserMail
  dirty : Bool
  /-- The mailbox in the file; none if the file cannot be read. -/
  file : Option (List UserMail)
  /-- `turn_injections` of the sessions. -/
  turnInjections : List (String × UserMail)
  turns : List MailTurn
  nextId : ℕ
  /-- The mails whose push was followed by a flush. -/
  saved : List UserMail
  /-- The mails that were pushed since. -/
  unsaved : List UserMail
  /-- What was put into the requests. -/
  requested : List UserMail
  /-- The mails that were drained since the last flush that wrote the file. -/
  drained : List UserMail
  /-- A write has been cut short since the last flush that wrote the file. -/
  torn : Bool

/-- What happens to the mails. -/
inductive MailEvent
  | push (to_ senderUserId senderNickname text : String) (sentAt : ℕ)
  /-- Anything else in the registry changes. -/
  | touch
  /-- A turn of the user begins. -/
  | turn (session user : String)
  | stash (i : ℕ)
  /-- A turn makes a request to the model. -/
  | request (i : ℕ)
  /-- A turn ends, or its task is dropped. -/
  | finish (i : ℕ)
  /-- A session leaves memory. -/
  | dropSession (session : String)
  | flush
  /-- The file cannot be written, or is cut short. -/
  | flushError (truncated : Bool)
  /-- The daemon stops and is started again. -/
  | crash

namespace MailWorld

/-- A daemon without mail. -/
def start : MailWorld := ⟨[], false, none, [], [], 0, [], [], [], [], false⟩

/-- `push_user_mail`. -/
def push (w : MailWorld) (mail : UserMail) : MailWorld :=
  { w with
    dirty := true
    userMailbox := w.userMailbox ++ [mail]
    nextId := w.nextId + 1
    unsaved := w.unsaved ++ [mail] }

/-- `drain_user_mail`, by a turn that begins. -/
def drain (w : MailWorld) (session user : String) : MailWorld :=
  let mails := w.userMailbox.filter (·.to_ = user)
  { w with
    userMailbox := w.userMailbox.filter (·.to_ ≠ user)
    dirty := w.dirty || !mails.isEmpty
    drained := w.drained ++ mails
    turns := w.turns ++ [⟨session, mails, .drained⟩] }

/-- `stash_turn_injections`. -/
def stash (w : MailWorld) (i : ℕ) (t : MailTurn) : MailWorld :=
  { w with
    turnInjections := w.turnInjections ++ t.held.map (t.session, ·)
    turns := w.turns.set i { t with point := .running } }

/-- The request takes what the session has. -/
def request (w : MailWorld) (session : String) : MailWorld :=
  { w with
    turnInjections := w.turnInjections.filter (·.1 ≠ session)
    requested := w.requested ++ (w.turnInjections.filter (·.1 = session)).map (·.2) }

/-- `flush`. -/
def flush (w : MailWorld) : MailWorld :=
  if w.dirty then
    { w with
      dirty := false
      file := some w.userMailbox
      saved := w.saved ++ w.unsaved
      unsaved := []
      drained := []
      torn := false }
  else w

/-- The mails of the file as `load_from_disk` finds them. -/
def fromDisk (w : MailWorld) : List UserMail := w.file.getD []

/-- The daemon starts again; what was in memory is gone. -/
def crash (w : MailWorld) : MailWorld :=
  { w with
    userMailbox := w.fromDisk
    dirty := false
    turnInjections := []
    turns := []
    unsaved := []
    drained := [] }

/-- One step; one that is not possible changes nothing. -/
def step (w : MailWorld) : MailEvent → MailWorld
  | .push to_ senderUserId senderNickname text sentAt =>
    w.push ⟨to_, w.nextId, senderUserId, senderNickname, text, sentAt⟩
  | .touch => { w with dirty := true }
  | .turn session user => w.drain session user
  | .stash i =>
    match w.turns[i]? with
    | some t => if t.point = .drained then w.stash i t else w
    | none => w
  | .request i =>
    match w.turns[i]? with
    | some t => if t.point = .running then w.request t.session else w
    | none => w
  | .finish i =>
    match w.turns[i]? with
    | some t => { w with turns := w.turns.set i { t with point := .finished } }
    | none => w
  | .dropSession session =>
    { w with turnInjections := w.turnInjections.filter (·.1 ≠ session) }
  | .flush => w.flush
  | .flushError truncated =>
    if w.dirty ∧ truncated then { w with file := none, torn := true } else w
  | .crash => w.crash

/-- The mails that wait in memory. -/
def waiting (w : MailWorld) : List UserMail :=
  w.userMailbox ++ w.turnInjections.map (·.2) ++ w.turns.flatMap MailTurn.held

/-- Every mail whose push was followed by a flush either waits and is in no request, or waits no more
and was put into one. -/
def ExactlyOnce (w : MailWorld) : Prop :=
  ∀ x ∈ w.saved, (x ∈ w.waiting ∧ w.requested.count x = 0) ∨
    (x ∉ w.waiting ∧ w.requested.count x = 1)

instance (w : MailWorld) : Decidable w.ExactlyOnce := by
  unfold ExactlyOnce
  infer_instance

/-- **A crash at a good moment**, against the last flush that wrote the file.  If no write was cut short
since, no mail was drained since and put into a request already, and none that was drained before waits
for its request still; after a write that was cut short no flushed mail waits. -/
def CrashesInTime (w : MailWorld) : Prop :=
  if w.torn then ∀ x ∈ w.saved, x ∉ w.waiting
  else (∀ x ∈ w.drained, x ∈ w.saved → x ∉ w.requested) ∧
    ∀ x ∈ w.saved, x ∈ w.waiting → x ∉ w.userMailbox → x ∈ w.drained

instance (w : MailWorld) : Decidable w.CrashesInTime := by
  unfold CrashesInTime
  infer_instance

/-- The condition of a step: a turn does not end with mails in its hands, a session does not leave
memory with mails on it, and a crash comes at a good moment. -/
def LosesNothing (w : MailWorld) : MailEvent → Prop
  | .finish i => ∀ t ∈ w.turns[i]?, t.held = []
  | .dropSession session => w.turnInjections.filter (·.1 = session) = []
  | .crash => w.CrashesInTime
  | _ => True

instance (w : MailWorld) (e : MailEvent) : Decidable (w.LosesNothing e) := by
  cases e <;> unfold LosesNothing <;> infer_instance

/-! ## Every mail in one place -/

/-- Every mail is in one place, and the file has none that is unknown. -/
structure MailInv (w : MailWorld) : Prop where
  one : ∀ x ∈ w.saved ++ w.unsaved, w.waiting.count x + w.requested.count x = 1
  known : ∀ x ∈ w.waiting, x ∈ w.saved ++ w.unsaved
  nodup : w.fromDisk.Nodup
  onDisk : ∀ x ∈ w.fromDisk, x ∈ w.saved
  fresh : ∀ x ∈ w.saved ++ w.unsaved ++ w.requested, x.msgId < w.nextId
  marked : w.unsaved ≠ [] → w.dirty

/-- **The file against the mailbox**: after a write that was cut short it has nothing; else it has, of the
mails that were flushed, those of the mailbox and those that were drained since the last flush. -/
structure DiskInv (w : MailWorld) : Prop where
  torn : w.torn = true → w.fromDisk = []
  whole : w.torn = false →
    ∀ x ∈ w.saved, x ∈ w.fromDisk ↔ x ∈ w.userMailbox ∨ x ∈ w.drained

/-! ## Counting -/

section Count

variable {α β : Type*} [DecidableEq α] (x : α)

/-- What is taken and what is left. -/
lemma count_filter_add_not (p : β → Bool) (f : β → α) (l : List β) :
    ((l.filter p).map f).count x + ((l.filter fun b => !p b).map f).count x = (l.map f).count x := by
  induction l with
  | nil => rfl
  | cons b l ih =>
    by_cases hb : p b
    · simp only [List.filter_cons, hb, List.map_cons, List.count_cons, if_true, Bool.not_true,
        Bool.false_eq_true, if_false]
      omega
    · simp only [List.filter_cons, hb, List.map_cons, List.count_cons, Bool.not_false,
        Bool.false_eq_true, if_false, if_true]
      omega

/-- One item of a list is replaced. -/
lemma count_flatMap_set (f : β → List α) {l : List β} {i : ℕ} {b : β} (h : l[i]? = some b) (b' : β) :
    ((l.set i b').flatMap f).count x + (f b).count x = (l.flatMap f).count x + (f b').count x := by
  induction l generalizing i with
  | nil => cases h
  | cons c l ih =>
    cases i with
    | zero =>
      have hc : c = b := by simpa using h
      subst hc
      simp only [List.set_cons_zero, List.flatMap_cons, List.count_append]
      omega
    | succ i =>
      have hrest := ih (i := i) (by simpa using h)
      simp only [List.set_cons_succ, List.flatMap_cons, List.count_append]
      omega

end Count

/-! ## The steps -/

variable {w : MailWorld} {x : UserMail}

lemma count_waiting : w.waiting.count x = w.userMailbox.count x
    + (w.turnInjections.map (·.2)).count x + (w.turns.flatMap MailTurn.held).count x := by
  simp [waiting, List.count_append, Nat.add_assoc]

/-- Steps that only move mails between places keep them in order. -/
lemma MailInv.of_counts {w' : MailWorld} (h : w.MailInv)
    (hcount : ∀ x, w'.waiting.count x + w'.requested.count x
      = w.waiting.count x + w.requested.count x)
    (hwaiting : ∀ x ∈ w'.waiting, x ∈ w.waiting)
    (hrequested : ∀ x ∈ w'.requested, x ∈ w.requested ∨ x ∈ w.waiting)
    (hsaved : w'.saved = w.saved) (hunsaved : w'.unsaved = w.unsaved) (hfile : w'.file = w.file)
    (hnext : w'.nextId = w.nextId) (hdirty : w.dirty → w'.dirty) : w'.MailInv where
  one x hx := by
    rw [hcount]
    exact h.one x (by rw [← hsaved, ← hunsaved]; exact hx)
  known x hx := by
    rw [hsaved, hunsaved]
    exact h.known x (hwaiting x hx)
  nodup := by
    rw [fromDisk, hfile]
    exact h.nodup
  onDisk x hx := by
    rw [hsaved]
    exact h.onDisk x (by rw [fromDisk, ← hfile]; exact hx)
  fresh x hx := by
    rw [hnext]
    rw [hsaved, hunsaved] at hx
    rcases List.mem_append.1 hx with hx | hx
    · exact h.fresh x (List.mem_append_left _ hx)
    · rcases hrequested x hx with hx | hx
      · exact h.fresh x (List.mem_append_right _ hx)
      · exact h.fresh x (List.mem_append_left _ (h.known x hx))
  marked hne := hdirty (h.marked (hunsaved ▸ hne))

/-- An item that is counted is a member. -/
lemma mem_of_count_le {l l' : List UserMail} (h : ∀ x, l.count x ≤ l'.count x) {x : UserMail}
    (hx : x ∈ l) : x ∈ l' :=
  List.count_pos_iff.1 (Nat.lt_of_lt_of_le (List.count_pos_iff.2 hx) (h x))

/-- A mail that is pushed has a new number. -/
lemma MailInv.push (h : w.MailInv) (hx : x.msgId = w.nextId) : (w.push x).MailInv := by
  have hnew : x ∉ w.saved ++ w.unsaved ++ w.requested := by
    intro hmem
    have hlt := h.fresh x hmem
    omega
  have hwaiting : x ∉ w.waiting := fun hmem =>
    hnew (List.mem_append_left _ (h.known x hmem))
  have hcount : ∀ y, (w.push x).waiting.count y = w.waiting.count y + [x].count y := by
    intro y
    simp only [count_waiting, MailWorld.push, List.count_append]
    omega
  constructor
  · intro y hy
    rw [hcount]
    rcases List.mem_append.1 (by simpa [MailWorld.push] using hy : y ∈ (w.saved ++ w.unsaved) ++ [x])
      with hy | hy
    · have hne : ¬ x = y := by
        rintro rfl
        exact hnew (List.mem_append_left _ hy)
      have hone := h.one y hy
      simp only [MailWorld.push, List.count_singleton, beq_iff_eq, hne, if_false]
      omega
    · rw [List.mem_singleton.1 hy]
      have h₁ : w.waiting.count x = 0 := List.count_eq_zero.2 hwaiting
      have h₂ : w.requested.count x = 0 :=
        List.count_eq_zero.2 fun hmem => hnew (List.mem_append_right _ hmem)
      simp [MailWorld.push, h₁, h₂]
  · intro y hy
    have hy' : y ∈ w.waiting ∨ y = x := by
      rw [← List.count_pos_iff, hcount] at hy
      by_cases hyx : y = x
      · exact .inr hyx
      · left
        have hzero : [x].count y = 0 := List.count_eq_zero.2 (by simpa using hyx)
        exact List.count_pos_iff.1 (by omega)
    rcases hy' with hy | rfl
    · have hmem := h.known y hy
      simp only [MailWorld.push]
      rw [← List.append_assoc]
      exact List.mem_append_left _ hmem
    · simp [MailWorld.push]
  · exact h.nodup
  · exact h.onDisk
  · intro y hy
    have hy' : y ∈ w.saved ++ w.unsaved ++ w.requested ∨ y = x := by
      simp only [MailWorld.push, List.mem_append, List.mem_singleton] at hy ⊢
      tauto
    show y.msgId < w.nextId + 1
    rcases hy' with hy | rfl
    · have hlt := h.fresh y hy
      omega
    · omega
  · exact fun _ => rfl

lemma MailInv.drain (h : w.MailInv) (session user : String) : (w.drain session user).MailInv := by
  have hcount : ∀ x, (w.drain session user).waiting.count x = w.waiting.count x := by
    intro x
    have hparts := count_filter_add_not x (fun m : UserMail => decide (m.to_ = user)) id w.userMailbox
    have hheld : [MailTurn.mk session (w.userMailbox.filter (·.to_ = user)) .drained].flatMap
        MailTurn.held = w.userMailbox.filter (·.to_ = user) := by simp [MailTurn.held]
    simp only [List.map_id] at hparts
    simp only [count_waiting, MailWorld.drain, List.flatMap_append, List.count_append, hheld, ne_eq,
      decide_not]
    omega
  refine h.of_counts (fun x => by rw [hcount]; rfl) (fun x => ?_) (fun x => .inl) rfl rfl rfl rfl ?_
  · exact mem_of_count_le fun y => Nat.le_of_eq (hcount y)
  · intro hdirty
    simp [MailWorld.drain, hdirty]

lemma MailInv.stash (h : w.MailInv) {i : ℕ} {t : MailTurn} (hi : w.turns[i]? = some t) :
    (w.stash i t).MailInv := by
  have hcount : ∀ x, (w.stash i t).waiting.count x = w.waiting.count x := by
    intro x
    have hset := count_flatMap_set x MailTurn.held hi { t with point := .running }
    have hnone : (MailTurn.held { t with point := .running }).count x = 0 := rfl
    simp only [count_waiting, MailWorld.stash, List.map_append, List.map_map, Function.comp_def,
      List.map_id', List.count_append]
    omega
  exact h.of_counts (fun x => by rw [hcount]; rfl)
    (fun x => mem_of_count_le fun y => Nat.le_of_eq (hcount y))
    (fun x => .inl) rfl rfl rfl rfl id

/-- A request takes its mails along. -/
lemma MailInv.request (h : w.MailInv) (session : String) : (w.request session).MailInv := by
  have hparts : ∀ x, ((w.turnInjections.filter (·.1 = session)).map (·.2)).count x
      + ((w.turnInjections.filter (·.1 ≠ session)).map (·.2)).count x
        = (w.turnInjections.map (·.2)).count x := by
    intro x
    have hparts := count_filter_add_not x (fun m : String × UserMail => decide (m.1 = session)) (·.2)
      w.turnInjections
    simpa only [ne_eq, decide_not] using hparts
  refine h.of_counts (fun x => ?_) (fun x => mem_of_count_le fun y => ?_) (fun x hx => ?_) rfl rfl
    rfl rfl id
  · have := hparts x
    simp only [count_waiting, MailWorld.request, List.count_append]
    omega
  · have := hparts y
    simp only [count_waiting, MailWorld.request]
    omega
  · rcases List.mem_append.1 hx with hx | hx
    · exact .inl hx
    · obtain ⟨p, hp, rfl⟩ := List.mem_map.1 hx
      refine .inr (List.mem_append_left _ (List.mem_append_right _ ?_))
      exact List.mem_map.2 ⟨p, (List.mem_filter.1 hp).1, rfl⟩

lemma MailInv.finish (h : w.MailInv) {i : ℕ} {t : MailTurn} (hi : w.turns[i]? = some t)
    (hheld : t.held = []) :
    MailInv { w with turns := w.turns.set i { t with point := .finished } } := by
  have hcount : ∀ x, (waiting { w with turns := w.turns.set i { t with point := .finished } }).count x
      = w.waiting.count x := by
    intro x
    have hset := count_flatMap_set x MailTurn.held hi { t with point := .finished }
    have hnone : (MailTurn.held { t with point := .finished }).count x = 0 := rfl
    have hzero : t.held.count x = 0 := by rw [hheld]; rfl
    simp only [count_waiting]
    omega
  exact h.of_counts (fun x => by rw [hcount])
    (fun x => mem_of_count_le fun y => Nat.le_of_eq (hcount y))
    (fun x => .inl) rfl rfl rfl rfl id

/-- A flush keeps the invariant. -/
lemma MailInv.flush (h : w.MailInv) : w.flush.MailInv := by
  unfold MailWorld.flush
  split
  · have hmailbox : ∀ x ∈ w.userMailbox, x ∈ w.waiting := fun x hx =>
      List.mem_append_left _ (List.mem_append_left _ hx)
    constructor
    · intro x hx
      exact h.one x (by simpa using hx)
    · intro x hx
      simpa using h.known x hx
    · rw [fromDisk, Option.getD_some, List.nodup_iff_count_le_one]
      intro x
      by_cases hx : x ∈ w.userMailbox
      · have hone := h.one x (h.known x (hmailbox x hx))
        rw [count_waiting] at hone
        omega
      · rw [List.count_eq_zero.2 hx]
        omega
    · intro x hx
      exact h.known x (hmailbox x (by simpa [fromDisk] using hx))
    · intro x hx
      exact h.fresh x (by simpa using hx)
    · exact fun hne => absurd rfl hne
  · exact h

lemma MailInv.unreadable (h : w.MailInv) : MailInv { w with file := none, torn := true } :=
  ⟨h.one, h.known, List.nodup_nil, nofun, h.fresh, h.marked⟩

/-- At a crash whose file has what no request has. -/
lemma MailInv.crash (h : w.MailInv) (hC : ∀ x ∈ w.saved, x ∈ w.fromDisk ↔ x ∉ w.requested) :
    w.crash.MailInv := by
  have hwaiting : w.crash.waiting = w.fromDisk := by simp [waiting, MailWorld.crash]
  have hsaved : w.crash.saved ++ w.crash.unsaved = w.saved := by simp [MailWorld.crash]
  constructor
  · intro x hx
    rw [hsaved] at hx
    rw [hwaiting]
    have hone := h.one x (List.mem_append_left _ hx)
    show w.fromDisk.count x + w.requested.count x = 1
    by_cases hdisk : x ∈ w.fromDisk
    · rw [List.count_eq_one_of_mem h.nodup hdisk, List.count_eq_zero.2 ((hC x hx).1 hdisk)]
    · have hpos : 0 < w.requested.count x :=
        List.count_pos_iff.2 (not_not.1 fun hreq => hdisk ((hC x hx).2 hreq))
      rw [List.count_eq_zero.2 hdisk]
      omega
  · intro x hx
    rw [hsaved]
    exact h.onDisk x (hwaiting ▸ hx)
  · exact h.nodup
  · exact h.onDisk
  · intro x hx
    refine h.fresh x ?_
    rw [hsaved] at hx
    rcases List.mem_append.1 hx with hx | hx
    · exact List.mem_append_left _ (List.mem_append_left _ hx)
    · exact List.mem_append_right _ hx
  · exact fun hne => absurd rfl hne

/-- A flushed mail waits exactly if no request has it. -/
lemma MailInv.mem_waiting_iff (h : w.MailInv) (hx : x ∈ w.saved) :
    x ∈ w.waiting ↔ x ∉ w.requested := by
  have hone := h.one x (List.mem_append_left _ hx)
  rw [← List.count_pos_iff, ← List.count_eq_zero]
  omega

/-- **A crash is in time** exactly if the file has, of the mails that were flushed, those that no request
has. -/
lemma DiskInv.crashesInTime_iff (hdisk : w.DiskInv) (h : w.MailInv) :
    w.CrashesInTime ↔ ∀ x ∈ w.saved, x ∈ w.fromDisk ↔ x ∉ w.requested := by
  unfold CrashesInTime
  cases htorn : w.torn with
  | true =>
    rw [if_pos rfl, hdisk.torn htorn]
    refine forall₂_congr fun x hx => ?_
    rw [h.mem_waiting_iff hx, iff_false_left List.not_mem_nil]
  | false =>
    rw [if_neg Bool.false_ne_true]
    constructor
    · rintro ⟨hafter, hbefore⟩ x hx
      rw [hdisk.whole htorn x hx]
      constructor
      · rintro (hmailbox | hdrained)
        · exact (h.mem_waiting_iff hx).1 (List.mem_append_left _ (List.mem_append_left _ hmailbox))
        · exact hafter x hdrained hx
      · intro hnot
        by_cases hmailbox : x ∈ w.userMailbox
        · exact .inl hmailbox
        · exact .inr (hbefore x hx ((h.mem_waiting_iff hx).2 hnot) hmailbox)
    · intro hall
      have hfile := fun x hx => (hdisk.whole htorn x hx).symm.trans (hall x hx)
      exact ⟨fun x hdrained hx => (hfile x hx).1 (.inr hdrained), fun x hx hwaits hnot =>
        ((hfile x hx).2 ((h.mem_waiting_iff hx).1 hwaits)).resolve_left hnot⟩

/-- Steps that leave the file, the mailbox and what was drained from it. -/
lemma DiskInv.congr {w' : MailWorld} (h : w.DiskInv) (hfile : w'.file = w.file)
    (hmailbox : w'.userMailbox = w.userMailbox) (hsaved : w'.saved = w.saved)
    (hdrained : w'.drained = w.drained) (htorn : w'.torn = w.torn) : w'.DiskInv := by
  have hdisk : w'.fromDisk = w.fromDisk := by rw [fromDisk, hfile, fromDisk]
  constructor
  · rw [htorn, hdisk]
    exact h.torn
  · rw [htorn, hdisk, hmailbox, hsaved, hdrained]
    exact h.whole

/-- A new mail is on no disk yet. -/
lemma DiskInv.push (hdisk : w.DiskInv) (h : w.MailInv) (hx : x.msgId = w.nextId) :
    (w.push x).DiskInv where
  torn := hdisk.torn
  whole htorn y hy := by
    have hlt : y.msgId < w.nextId :=
      h.fresh y (List.mem_append_left _ (List.mem_append_left _ hy))
    have hne : y ≠ x := by
      rintro rfl
      omega
    have hmailbox : y ∈ (w.push x).userMailbox ↔ y ∈ w.userMailbox := by
      simp [MailWorld.push, hne]
    rw [hmailbox]
    exact hdisk.whole htorn y hy

/-- What a turn drains stays on disk. -/
lemma DiskInv.drain (hdisk : w.DiskInv) (session user : String) :
    (w.drain session user).DiskInv where
  torn := hdisk.torn
  whole htorn y hy := by
    have hparts : (y ∈ (w.drain session user).userMailbox ∨ y ∈ (w.drain session user).drained) ↔
        y ∈ w.userMailbox ∨ y ∈ w.drained := by
      by_cases hto : y.to_ = user
      · simp [MailWorld.drain, hto, or_comm]
      · simp [MailWorld.drain, hto]
    rw [hparts]
    exact hdisk.whole htorn y hy

/-- A flush that writes leaves the mailbox on disk. -/
lemma DiskInv.flush (hdisk : w.DiskInv) : w.flush.DiskInv := by
  unfold MailWorld.flush
  split
  · refine ⟨nofun, fun _ x _ => ?_⟩
    rw [or_iff_left List.not_mem_nil]
    exact Iff.rfl
  · exact hdisk

/-- The daemon that starts again has in its mailbox what is on disk. -/
lemma DiskInv.crash (hdisk : w.DiskInv) : w.crash.DiskInv where
  torn := hdisk.torn
  whole _ x _ := by
    change x ∈ w.fromDisk ↔ x ∈ w.fromDisk ∨ x ∈ []
    rw [or_iff_left List.not_mem_nil]

/-- **The file follows the mailbox** in every step. -/
lemma DiskInv.step (hdisk : w.DiskInv) (h : w.MailInv) (e : MailEvent) : (w.step e).DiskInv := by
  cases e with
  | push to_ senderUserId senderNickname text sentAt => exact hdisk.push h rfl
  | touch => exact hdisk.congr rfl rfl rfl rfl rfl
  | turn session user => exact hdisk.drain session user
  | stash i =>
    dsimp only [MailWorld.step]
    split
    · split
      · exact hdisk.congr rfl rfl rfl rfl rfl
      · exact hdisk
    · exact hdisk
  | request i =>
    dsimp only [MailWorld.step]
    split
    · split
      · exact hdisk.congr rfl rfl rfl rfl rfl
      · exact hdisk
    · exact hdisk
  | finish i =>
    dsimp only [MailWorld.step]
    split
    · exact hdisk.congr rfl rfl rfl rfl rfl
    · exact hdisk
  | dropSession session => exact hdisk.congr rfl rfl rfl rfl rfl
  | flush => exact hdisk.flush
  | flushError truncated =>
    dsimp only [MailWorld.step]
    split
    · exact ⟨fun _ => rfl, nofun⟩
    · exact hdisk
  | crash => exact hdisk.crash

/-- Every step that loses nothing keeps each mail in one place. -/
lemma MailInv.step (h : w.MailInv) (hdisk : w.DiskInv) {e : MailEvent} (hC : w.LosesNothing e) :
    (w.step e).MailInv := by
  cases e with
  | push to_ senderUserId senderNickname text sentAt => exact h.push rfl
  | touch => exact ⟨h.one, h.known, h.nodup, h.onDisk, h.fresh, fun _ => rfl⟩
  | turn session user => exact h.drain session user
  | stash i =>
    cases hi : w.turns[i]? with
    | none => simpa [MailWorld.step, hi] using h
    | some t =>
      by_cases ht : t.point = .drained
      · simpa [MailWorld.step, hi, ht] using h.stash hi
      · simpa [MailWorld.step, hi, ht] using h
  | request i =>
    cases hi : w.turns[i]? with
    | none => simpa [MailWorld.step, hi] using h
    | some t =>
      by_cases ht : t.point = .running
      · simpa [MailWorld.step, hi, ht] using h.request t.session
      · simpa [MailWorld.step, hi, ht] using h
  | finish i =>
    cases hi : w.turns[i]? with
    | none => simpa [MailWorld.step, hi] using h
    | some t => simpa [MailWorld.step, hi] using h.finish hi (hC t hi)
  | dropSession session =>
    have hnone : w.turnInjections.filter (·.1 ≠ session) = w.turnInjections := by
      rw [List.filter_eq_self]
      intro p hp
      have hnot : p ∉ w.turnInjections.filter (·.1 = session) := by
        rw [hC]
        exact List.not_mem_nil
      simpa [hp] using hnot
    show MailInv { w with turnInjections := w.turnInjections.filter (·.1 ≠ session) }
    rw [hnone]
    exact h
  | flush => exact h.flush
  | flushError truncated =>
    dsimp only [MailWorld.step]
    split
    · exact h.unreadable
    · exact h
  | crash => exact h.crash ((hdisk.crashesInTime_iff h).1 hC)

/-- With each mail in one place, a mail that was flushed waits or was put into one request. -/
lemma MailInv.exactlyOnce (h : w.MailInv) : w.ExactlyOnce := by
  intro x hx
  have hone := h.one x (List.mem_append_left _ hx)
  by_cases hwaiting : x ∈ w.waiting
  · have hpos := List.count_pos_iff.2 hwaiting
    exact .inl ⟨hwaiting, by omega⟩
  · rw [List.count_eq_zero.2 hwaiting] at hone
    exact .inr ⟨hwaiting, by omega⟩

/-- **A crash that is not in time** repeats a mail or loses it. -/
theorem exactlyOnce_crash_iff (hdisk : w.DiskInv) (h : w.MailInv) :
    w.crash.ExactlyOnce ↔ w.CrashesInTime := by
  have hwaiting : w.crash.waiting = w.fromDisk := by simp [waiting, MailWorld.crash]
  rw [hdisk.crashesInTime_iff h]
  refine ⟨fun hall x hx => ?_, fun hC => (h.crash hC).exactlyOnce⟩
  rcases hall x hx with ⟨hon, hnone⟩ | ⟨hoff, hone⟩
  · exact iff_of_true (hwaiting ▸ hon) (List.count_eq_zero.1 hnone)
  · exact iff_of_false (hwaiting ▸ hoff) (not_not.2 (List.count_pos_iff.1 (hone ▸ Nat.one_pos)))

/-- The mail that the runs push. -/
def hello : UserMail := ⟨"bob", 0, "alice", "@alice", "hello", 1⟩

/-- A mail is flushed, drained and put into a request; then the daemon crashes, and a turn drains the
mail that the file still has. -/
def repeatedMail : List MailEvent :=
  [.push "bob" "alice" "@alice" "hello" 1, .flush, .turn "s" "bob", .stash 0, .request 0, .crash,
    .turn "s" "bob", .stash 0, .request 0]

/-- A mail is flushed and drained, the drained mailbox is flushed, and the daemon crashes before the
request. -/
def lostMail : List MailEvent :=
  [.push "bob" "alice" "@alice" "hello" 1, .flush, .turn "s" "bob", .flush, .crash]

/-- A crash before the drain, and one after the flush that follows the request. -/
def carefulMail : List MailEvent :=
  [.push "bob" "alice" "@alice" "hello" 1, .flush, .crash, .turn "s" "bob", .stash 0, .request 0,
    .finish 0, .flush, .crash, .turn "s" "bob", .stash 0, .request 0, .finish 0]

end MailWorld

end MyClaw
