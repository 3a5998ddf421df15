import MyClaw.Channels.Debounce
import MyClaw.Lib.Keyed

set_option autoImplicit false

/-!
# Runs of the inbound debouncer

In a run whose steps all meet `KeepsDebounced` every message is in one envelope, and a step that
does not meet it loses a message, leaves an entry of the buffer without a timer, merges two
conversations or lets a message overtake an earlier one.

## Main definitions

* `DebounceInv` — what holds in every state of a good run.

## Main results

* `debouncedOnce_iff` — a run keeps its messages exactly when each of its steps does.
* `not_debouncedOnce_sameMillisecond` — two messages with one timestamp.
-/

namespace MyClaw

/-! ## Entries and timers -/

namespace DebounceBufferEntry

variable {entry : DebounceBufferEntry} {a : Arrival} {handle : ℕ}

/-- The texts of an entry are those of its messages that are not empty. -/
def TextsOfParts (entry : DebounceBufferEntry) : Prop :=
  entry.texts = (entry.parts.map (·.msg.text)).filter (· ≠ "")

lemma textsOfParts_new : (new a handle).TextsOfParts := by
  unfold TextsOfParts new
  by_cases htext : a.msg.text = "" <;> simp [htext]

lemma TextsOfParts.merge (h : entry.TextsOfParts) : (entry.merge a handle).TextsOfParts := by
  unfold TextsOfParts at h ⊢
  unfold DebounceBufferEntry.merge
  by_cases htext : a.msg.text = "" <;> simp [htext, h]

lemma faithful_new : (new a handle).merged.Faithful := by
  refine ⟨fun b hb => ?_, congrArg ("\n".intercalate ·) textsOfParts_new⟩
  obtain rfl := List.mem_singleton.1 hb
  exact ⟨rfl, rfl⟩

/-- Merging a message of the same conversation is faithful. -/
lemma faithful_merge (h : entry.merged.Faithful) (htexts : entry.TextsOfParts)
    (ha : entry.senderId = a.msg.senderId ∧ entry.receiverId = a.msg.receiverId) :
    (entry.merge a handle).merged.Faithful := by
  refine ⟨fun b hb => ?_, congrArg ("\n".intercalate ·) htexts.merge⟩
  rcases List.mem_append.1 hb with hb | hb
  · exact h.1 b hb
  · obtain rfl := List.mem_singleton.1 hb
    exact ⟨ha.1.symm, ha.2.symm⟩

end DebounceBufferEntry

namespace DebounceTimer

variable {t : DebounceTimer}

@[simp] lemma key_abort : t.abort.key = t.key := by
  unfold abort
  split <;> rfl

/-- A timer that does not wait for room keeps what it holds when it is aborted. -/
lemma hand_abort_of_not_parked (h : ¬ t.Parked) : t.abort.hand = t.hand := by
  unfold abort
  split
  · rename_i hphase
    simp [hand, hphase]
  · rename_i m hphase
    exact absurd ⟨m, hphase⟩ h
  · rfl

/-- A timer that waits for room loses it. -/
lemma hand_abort_of_parked {m : Merged} (h : t.phase = .sending m true) :
    t.abort.hand = [] ∧ t.hand = [m] := by
  simp [abort, hand, h]

lemma coming_abort (h : t.phase = .woken) : t.abort.Coming := by
  simp [abort, Coming, h]

/-- After an abort, only a timer that was past its sleep still comes. -/
lemma phase_of_coming_abort (h : t.abort.Coming) : t.phase = .woken := by
  unfold abort Coming at h
  split at h
  · simp at h
  · simp at h
  · rename_i hsleeping _
    exact h.resolve_left hsleeping

lemma hand_of_coming (h : t.Coming) : t.hand = [] := by
  rcases h with h | h <;> simp [hand, h]

end DebounceTimer

/-! ## The invariant -/

/-- What holds in every state of a good run. -/
structure DebounceInv (s : DebounceState) : Prop extends DebouncedOnce s where
  numbered : ∀ a ∈ s.arrived, a.number < s.arrived.length
  formed : ∀ m ∈ s.sent ++ s.held, m.parts ≠ [] ∧ m.parts.Pairwise (·.number < ·.number)
  keys : (s.buffer.map (·.1)).Nodup
  keyed : ∀ b ∈ s.buffer, b.1 = debounceKey b.2.senderId b.2.receiverId ∧ b.2.TextsOfParts ∧
    ∃ t, s.timers[b.2.timer]? = some t ∧ t.key = b.1
  pushed : ∀ a handle, s.pushing = some (a, handle) →
    (∃ t, s.timers[handle]? = some t ∧ t.key = a.key) ∧
      ∀ b ∈ s.sentParts ++ s.held.flatMap (·.parts), b.number < a.number
  /-- A timer holds what came before the entries of the buffer. -/
  handsFirst : ∀ m ∈ s.hands, ∀ b ∈ s.buffer, ∀ x ∈ m.parts, ∀ y ∈ b.2.parts, x.Precedes y

section

variable {c : DebounceConfig} {s s' : DebounceState} {i : ℕ} {t u : DebounceTimer}

lemma Arrival.key_eq_of_same {a b : Arrival} (h : a.SameConversation b) : a.key = b.key := by
  rw [Arrival.key, Arrival.key, h.1, h.2]

lemma Arrival.precedes_of_lt {a b : Arrival} (h : a.number < b.number) : a.Precedes b := fun _ => h

/-- What is lost of the messages that are carried is missed. -/
lemma not_once_of_lost (lost : List Arrival) (h : (s.sentParts ++ s.waitingParts).Perm s.arrived)
    (hlost : (s.sentParts ++ s.waitingParts).Perm (s'.sentParts ++ s'.waitingParts ++ lost))
    (harrived : s'.arrived = s.arrived) (hne : lost ≠ []) : ¬ DebouncedOnce s' := by
  intro hnext
  have hlen := (hlost.symm.trans h).length_eq
  have hlen' := hnext.once.length_eq
  rw [harrived] at hlen'
  rw [List.length_append, hlen'] at hlen
  exact hne (List.eq_nil_of_length_eq_zero (by omega))

/-- The message that a timer would make of an entry of the buffer. -/
lemma merged_mem {b : String × DebounceBufferEntry} (hb : b ∈ s.buffer) :
    b.2.merged ∈ s.sent ++ s.held :=
  List.mem_append_right _ (List.mem_append_right _ (List.mem_map_of_mem hb))

/-- The key of a part is the key of its entry. -/
lemma DebounceInv.key_of_part (h : DebounceInv s) {b : String × DebounceBufferEntry}
    (hb : b ∈ s.buffer) {x : Arrival} (hx : x ∈ b.2.parts) : x.key = b.1 := by
  have hfaithful := h.faithful b.2.merged (merged_mem hb)
  obtain ⟨hsender, hreceiver⟩ := hfaithful.1 x hx
  rw [(h.keyed b hb).1, Arrival.key, hsender, hreceiver]
  rfl

/-! ## A step of one timer -/

lemma hands_perm (h : s.timers[i]? = some t) :
    s.hands.Perm (t.hand ++ (s.timers.eraseIdx i).flatMap (·.hand)) := by
  have hperm := (Keyed.perm_of_getElem? h).flatMap_right (·.hand)
  rwa [List.flatMap_cons] at hperm

lemma hands_set_perm (h : s.timers[i]? = some t) (u : DebounceTimer) :
    ((s.timers.set i u).flatMap (·.hand)).Perm
      (u.hand ++ (s.timers.eraseIdx i).flatMap (·.hand)) := by
  have hperm := (Keyed.set_perm h u).flatMap_right (·.hand)
  rwa [List.flatMap_cons] at hperm

/-- A timer that comes is left as it was or is the one that changed. -/
lemma attended_set (h : s.timers[i]? = some t) {k : String}
    (hk : ∃ t ∈ s.timers, t.key = k ∧ t.Coming) (hu : t.key = k → t.Coming → u.key = k ∧ u.Coming) :
    ∃ t ∈ s.timers.set i u, t.key = k ∧ t.Coming := by
  obtain ⟨r, hr, hkey, hcoming⟩ := hk
  have hset := (Keyed.set_perm h u).symm.subset
  rcases List.mem_cons.1 ((Keyed.perm_of_getElem? h).subset hr) with rfl | hother
  · exact ⟨u, hset List.mem_cons_self, hu hkey hcoming⟩
  · exact ⟨r, hset (List.mem_cons_of_mem _ hother), hkey, hcoming⟩

/-- A timer that keeps its key is found where it was. -/
lemma timer_set (h : s.timers[i]? = some t) (hkey : u.key = t.key) {j : ℕ} {k : String}
    (hj : ∃ r, s.timers[j]? = some r ∧ r.key = k) :
    ∃ r, (s.timers.set i u)[j]? = some r ∧ r.key = k := by
  obtain ⟨r, hr, hrkey⟩ := hj
  obtain ⟨d, hd, hdkey⟩ := Keyed.getElem?_set_keeps (f := (·.key)) h hkey hr
  exact ⟨d, hd, hdkey.trans hrkey⟩

/-- **A timer changes its phase** and keeps what it holds. -/
lemma DebounceInv.retimed (h : DebounceInv s) (ht : s.timers[i]? = some t) (hkey : u.key = t.key)
    (hhand : u.hand = t.hand)
    (hcoming : t.Coming → u.Coming ∨ ∀ b ∈ s.buffer, b.1 ≠ t.key) :
    DebounceInv { s with timers := s.timers.set i u } := by
  set s' : DebounceState := { s with timers := s.timers.set i u } with hs'
  have hhands : s'.hands.Perm s.hands := by
    refine (hands_set_perm ht u).trans ?_
    rw [hhand]
    exact (hands_perm ht).symm
  have hheld : s'.held.Perm s.held := hhands.append_right _
  have hparts : (s'.held.flatMap (·.parts)).Perm (s.held.flatMap (·.parts)) :=
    hheld.flatMap_right _
  have hwaiting : s'.waitingParts.Perm s.waitingParts := hparts.append_right _
  have hall : ∀ m, m ∈ s'.sent ++ s'.held → m ∈ s.sent ++ s.held := fun m hm =>
    (hheld.append_left s.sent).subset hm
  exact {
    once := (hwaiting.append_left _).trans h.once
    attended := fun b hb => attended_set ht (h.attended b hb) fun hk hc =>
      ⟨hkey.trans hk, (hcoming hc).resolve_right fun hno => hno b hb hk.symm⟩
    faithful := fun m hm => h.faithful m (hall m hm)
    sorted := h.sorted
    inOrder := fun a ha b hb => h.inOrder a ha b (hwaiting.subset hb)
    numbered := h.numbered
    formed := fun m hm => h.formed m (hall m hm)
    keys := h.keys
    keyed := fun b hb => by
      obtain ⟨hkeyed, htexts, hr⟩ := h.keyed b hb
      exact ⟨hkeyed, htexts, timer_set ht hkey hr⟩
    pushed := fun a handle hpush => by
      obtain ⟨hr, hless⟩ := h.pushed a handle hpush
      exact ⟨timer_set ht hkey hr, fun b hb =>
        hless b ((hparts.append_left s.sentParts).subset hb)⟩
    handsFirst := fun m hm => h.handsFirst m (hhands.subset hm) }

/-! ## Waking, taking and sending -/

/-- **Waking.** -/
lemma DebounceInv.wake (h : DebounceInv s) (i : ℕ) : DebounceInv (debounceStep c s (.wake i)) := by
  rw [debounceStep]
  split
  · exact h
  · rename_i t ht
    split
    · rename_i hphase
      exact h.retimed ht rfl (by simp [DebounceTimer.hand, hphase]) fun _ => .inl (.inr rfl)
    · exact h

/-- **Taking an entry.** -/
lemma DebounceInv.takeEntry (h : DebounceInv s) (ht : s.timers[i]? = some t)
    (hphase : t.phase = .woken) {entry : DebounceBufferEntry}
    (hentry : s.buffer.lookup t.key = some entry) :
    DebounceInv { s with
      buffer := s.buffer.filter (·.1 ≠ t.key)
      timers := s.timers.set i { t with phase := .sending entry.merged false } } := by
  set u : DebounceTimer := { t with phase := .sending entry.merged false } with hu
  set s' : DebounceState :=
    { s with buffer := s.buffer.filter (·.1 ≠ t.key), timers := s.timers.set i u } with hs'
  have hkey : u.key = t.key := rfl
  have hbuffer := Keyed.perm_of_lookup h.keys hentry
  have hmem : (t.key, entry) ∈ s.buffer := hbuffer.symm.subset List.mem_cons_self
  have hsub : ∀ b ∈ s'.buffer, b ∈ s.buffer ∧ b.1 ≠ t.key := fun b hb =>
    ⟨(List.mem_filter.1 hb).1, of_decide_eq_true (List.mem_filter.1 hb).2⟩
  have hhands : s'.hands.Perm (entry.merged :: s.hands) := by
    refine (hands_set_perm ht u).trans ?_
    have hold := hands_perm ht
    rw [DebounceTimer.hand_of_coming (.inr hphase), List.nil_append] at hold
    exact hold.symm.cons _
  have hheld : s'.held.Perm s.held := by
    have hmap := hbuffer.map (·.2.merged)
    rw [List.map_cons] at hmap
    calc s'.held
        _ = s'.hands ++ s'.buffer.map (·.2.merged) := rfl
        _ |>.Perm ((entry.merged :: s.hands) ++ s'.buffer.map (·.2.merged)) :=
          hhands.append_right _
        _ |>.Perm (s.hands ++ entry.merged :: s'.buffer.map (·.2.merged)) :=
          List.perm_middle.symm
        _ |>.Perm s.held := hmap.symm.append_left _
  have hparts : (s'.held.flatMap (·.parts)).Perm (s.held.flatMap (·.parts)) :=
    hheld.flatMap_right _
  have hwaiting : s'.waitingParts.Perm s.waitingParts := hparts.append_right _
  have hall : ∀ m, m ∈ s'.sent ++ s'.held → m ∈ s.sent ++ s.held := fun m hm =>
    (hheld.append_left s.sent).subset hm
  exact {
    once := (hwaiting.append_left _).trans h.once
    attended := fun b hb => attended_set ht (h.attended b (hsub b hb).1) fun hk _ =>
      absurd hk.symm (hsub b hb).2
    faithful := fun m hm => h.faithful m (hall m hm)
    sorted := h.sorted
    inOrder := fun a ha b hb => h.inOrder a ha b (hwaiting.subset hb)
    numbered := h.numbered
    formed := fun m hm => h.formed m (hall m hm)
    keys := h.keys.sublist (List.filter_sublist.map _)
    keyed := fun b hb => by
      obtain ⟨hkeyed, htexts, hr⟩ := h.keyed b (hsub b hb).1
      exact ⟨hkeyed, htexts, timer_set ht hkey hr⟩
    pushed := fun a handle hpush => by
      obtain ⟨hr, hless⟩ := h.pushed a handle hpush
      exact ⟨timer_set ht hkey hr, fun b hb =>
        hless b ((hparts.append_left s.sentParts).subset hb)⟩
    handsFirst := fun m hm b hb x hx y hy hsame => by
      rcases List.mem_cons.1 (hhands.subset hm) with rfl | hm
      · -- entries of two keys have no conversation in common
        have hx := h.key_of_part hmem hx
        have hy := h.key_of_part (hsub b hb).1 hy
        rw [Arrival.key_eq_of_same hsame, hy] at hx
        exact absurd hx (hsub b hb).2
      · exact h.handsFirst m hm b (hsub b hb).1 x hx y hy hsame }

/-- **Taking.** -/
lemma DebounceInv.take (h : DebounceInv s) (i : ℕ) : DebounceInv (debounceStep c s (.take i)) := by
  rw [debounceStep]
  split
  · exact h
  · rename_i t ht
    split
    · rename_i hphase
      split
      · rename_i entry hentry
        exact h.takeEntry ht hphase hentry
      · rename_i hnone
        refine h.retimed ht rfl (by simp [DebounceTimer.hand, hphase]) fun _ => .inr ?_
        exact fun b hb heq => Keyed.notMem_of_lookup hnone (heq ▸ List.mem_map_of_mem hb)
    · exact h

/-! ## Pushing -/

/-- A message that arrives is later than those that have arrived. -/
lemma DebounceInv.number_lt (h : DebounceInv s) {b : Arrival}
    (hb : b ∈ s.sentParts ++ s.waitingParts) : b.number < s.arrived.length :=
  h.numbered b (h.once.subset hb)

/-- **A message arrives.** -/
lemma DebounceInv.push (h : DebounceInv s) (msg : ChannelInboundMessage) :
    DebounceInv (debounceStep c s (.push msg)) := by
  rw [debounceStep]
  cases hpushing : s.pushing with
  | some r => exact h
  | none =>
    set a : Arrival := ⟨s.arrived.length, msg⟩ with ha
    set s' : DebounceState :=
      { s with
        arrived := s.arrived ++ [a]
        pushing := some (a, s.timers.length)
        timers := s.timers ++ [{ key := a.key }] } with hs'
    have hwaiting : s.waitingParts = s.held.flatMap (·.parts) := by
      rw [DebounceState.waitingParts, hpushing]
      exact List.append_nil _
    have hhands : s'.hands = s.hands := by
      rw [DebounceState.hands, hs', List.flatMap_append]
      exact List.append_nil _
    have hheld : s'.held = s.held := by rw [DebounceState.held, hhands, DebounceState.held]
    have hwaiting' : s'.waitingParts = s.waitingParts ++ [a] := by
      rw [DebounceState.waitingParts, hheld, hwaiting]
      rfl
    have hget : ∀ {j : ℕ} {r : DebounceTimer}, s.timers[j]? = some r → s'.timers[j]? = some r := by
      intro j r hr
      rw [hs', List.getElem?_append_left (List.getElem?_eq_some_iff.1 hr).1]
      exact hr
    exact {
      once := by
        rw [hwaiting', ← List.append_assoc]
        exact h.once.append_right _
      attended := fun b hb => by
        obtain ⟨r, hr, hrest⟩ := h.attended b hb
        exact ⟨r, List.mem_append_left _ hr, hrest⟩
      faithful := fun m hm => h.faithful m (by rwa [hheld] at hm)
      sorted := h.sorted
      inOrder := fun x hx y hy => by
        rw [hwaiting'] at hy
        rcases List.mem_append.1 hy with hy | hy
        · exact h.inOrder x hx y hy
        · obtain rfl := List.mem_singleton.1 hy
          exact fun _ => h.number_lt (List.mem_append_left _ hx)
      numbered := fun b hb => by
        rw [hs', List.length_append, List.length_singleton]
        rcases List.mem_append.1 hb with hb | hb
        · exact Nat.lt_succ_of_lt (h.numbered b hb)
        · obtain rfl := List.mem_singleton.1 hb
          exact Nat.lt_succ_self _
      formed := fun m hm => h.formed m (by rwa [hheld] at hm)
      keys := h.keys
      keyed := fun b hb => by
        obtain ⟨hkeyed, htexts, r, hr, hrkey⟩ := h.keyed b hb
        exact ⟨hkeyed, htexts, r, hget hr, hrkey⟩
      pushed := fun b handle hpush => by
        obtain ⟨rfl, rfl⟩ := Prod.mk.inj (Option.some.inj hpush)
        refine ⟨⟨{ key := a.key }, List.getElem?_concat_length, rfl⟩, fun b hb => ?_⟩
        rw [hheld, ← hwaiting] at hb
        exact h.number_lt hb
      handsFirst := fun m hm => h.handsFirst m (hhands ▸ hm) }

/-- The buffer after `push` has put `entry` under the key of its message. -/
lemma DebounceInv.locked (h : DebounceInv s) {a : Arrival} {handle : ℕ}
    (hpushing : s.pushing = some (a, handle)) {entry : DebounceBufferEntry}
    {rest : List (String × DebounceBufferEntry)} {timers : List DebounceTimer} (old : List Arrival)
    (hhands : (timers.flatMap (·.hand)).Perm s.hands)
    (hparts : entry.parts = old ++ [a])
    (hbuffer : (s.buffer.flatMap (·.2.parts)).Perm (old ++ rest.flatMap (·.2.parts)))
    (hrest : ∀ b ∈ rest, b ∈ s.buffer) (hkeys : (((a.key, entry) :: rest).map (·.1)).Nodup)
    (hold : old.Pairwise (·.number < ·.number))
    (holdFirst : ∀ m ∈ s.hands, ∀ x ∈ m.parts, ∀ y ∈ old, x.Precedes y)
    (hfaithful : entry.merged.Faithful) (htexts : entry.TextsOfParts)
    (hkeyed : a.key = debounceKey entry.senderId entry.receiverId) (hhandle : entry.timer = handle)
    (hget : ∀ (j : ℕ) (r : DebounceTimer), s.timers[j]? = some r →
      ∃ d, timers[j]? = some d ∧ d.key = r.key)
    (hattended : ∀ b ∈ (a.key, entry) :: rest, ∃ t ∈ timers, t.key = b.1 ∧ t.Coming) :
    DebounceInv { s with pushing := none, buffer := (a.key, entry) :: rest, timers := timers } := by
  set s' : DebounceState :=
    { s with pushing := none, buffer := (a.key, entry) :: rest, timers := timers } with hs'
  obtain ⟨⟨r, hr, hrkey⟩, hless⟩ := h.pushed a handle hpushing
  have hheldParts : ∀ x ∈ old, x ∈ s.held.flatMap (·.parts) := fun x hx => by
    rw [DebounceState.held, List.flatMap_append, List.flatMap_map]
    exact List.mem_append_right _ (hbuffer.symm.subset (List.mem_append_left _ hx))
  have hwaiting : s'.waitingParts.Perm s.waitingParts := by
    have hhandParts := hhands.flatMap_right (·.parts)
    rw [DebounceState.waitingParts, DebounceState.waitingParts, DebounceState.held,
      DebounceState.held, List.flatMap_append, List.flatMap_append, List.flatMap_map,
      List.flatMap_map, hpushing]
    refine List.perm_iff_count.2 fun x => ?_
    have hhand := hhandParts.count_eq x
    have hbuf := hbuffer.count_eq x
    simp only [hs', DebounceState.hands, DebounceBufferEntry.merged, List.count_append,
      List.flatMap_cons, hparts, Option.map_none, Option.toList_none, List.count_nil,
      Option.map_some, Option.toList_some] at hhand hbuf ⊢
    omega
  have hmem : ∀ m, m ∈ s'.sent ++ s'.held → m ∈ s.sent ++ s.held ∨ m = entry.merged := by
    intro m hm
    rcases List.mem_append.1 hm with hm | hm
    · exact .inl (List.mem_append_left _ hm)
    rcases List.mem_append.1 hm with hm | hm
    · exact .inl (List.mem_append_right _ (List.mem_append_left _ (hhands.subset hm)))
    obtain ⟨b, hb, rfl⟩ := List.mem_map.1 hm
    rcases List.mem_cons.1 hb with rfl | hb
    · exact .inr rfl
    · exact .inl (List.mem_append_right _ (List.mem_append_right _
        (List.mem_map_of_mem (hrest b hb))))
  exact {
    once := (hwaiting.append_left _).trans h.once
    attended := hattended
    faithful := fun m hm => (hmem m hm).elim (h.faithful m) fun heq => heq ▸ hfaithful
    sorted := h.sorted
    inOrder := fun x hx y hy => h.inOrder x hx y (hwaiting.subset hy)
    numbered := h.numbered
    formed := fun m hm => by
      rcases hmem m hm with hm | rfl
      · exact h.formed m hm
      · rw [DebounceBufferEntry.merged, hparts]
        refine ⟨List.append_ne_nil_of_right_ne_nil _ (List.cons_ne_nil _ _), ?_⟩
        refine List.pairwise_append.2 ⟨hold, List.pairwise_singleton _ _, fun x hx y hy => ?_⟩
        obtain rfl := List.mem_singleton.1 hy
        exact hless x (List.mem_append_right _ (hheldParts x hx))
    keys := hkeys
    keyed := fun b hb => by
      rcases List.mem_cons.1 hb with rfl | hb
      · obtain ⟨d, hd, hdkey⟩ := hget handle r hr
        exact ⟨hkeyed, htexts, d, by rw [hhandle]; exact hd, hdkey.trans hrkey⟩
      · obtain ⟨hkeyed, htexts, q, hq, hqkey⟩ := h.keyed b (hrest b hb)
        obtain ⟨d, hd, hdkey⟩ := hget _ q hq
        exact ⟨hkeyed, htexts, d, hd, hdkey.trans hqkey⟩
    pushed := by rintro b handle' ⟨⟩
    handsFirst := fun m hm b hb x hx y hy => by
      have hhand : m ∈ s.hands := hhands.subset hm
      rcases List.mem_cons.1 hb with rfl | hb
      · rw [hparts] at hy
        rcases List.mem_append.1 hy with hy | hy
        · exact holdFirst m hhand x hx y hy
        · obtain rfl := List.mem_singleton.1 hy
          exact fun _ => hless x (List.mem_append_right _
            (List.mem_flatMap.2 ⟨m, List.mem_append_left _ hhand, hx⟩))
      · exact h.handsFirst m hhand b (hrest b hb) x hx y hy }

/-- **A new entry.** -/
lemma DebounceInv.lockNew (h : DebounceInv s) {a : Arrival} {handle : ℕ}
    (hpushing : s.pushing = some (a, handle)) (hnone : s.buffer.lookup a.key = none)
    (hkeeps : KeepsNew s a) :
    DebounceInv { s with pushing := none, buffer := (a.key, .new a handle) :: s.buffer } := by
  refine h.locked hpushing [] (.refl _) rfl (.refl _) (fun b hb => hb) ?_ .nil
    (fun _ _ _ _ _ hy => absurd hy List.not_mem_nil) DebounceBufferEntry.faithful_new
    DebounceBufferEntry.textsOfParts_new rfl rfl (fun j r hr => ⟨r, hr, rfl⟩) fun b hb => ?_
  · exact List.nodup_cons.2 ⟨Keyed.notMem_of_lookup hnone, h.keys⟩
  · rcases List.mem_cons.1 hb with rfl | hb
    · exact hkeeps
    · exact h.attended b hb

/-- **A merge.** -/
lemma DebounceInv.lockMerge (h : DebounceInv s) {a : Arrival} {handle : ℕ}
    (hpushing : s.pushing = some (a, handle)) {entry : DebounceBufferEntry}
    (hentry : s.buffer.lookup a.key = some entry) (hkeeps : KeepsMerge s a entry) :
    DebounceInv { s with
      pushing := none
      buffer := (a.key, entry.merge a handle) :: s.buffer.filter (·.1 ≠ a.key)
      timers := s.timers.modify entry.timer (·.abort) } := by
  obtain ⟨hsame, hparked, hleft⟩ := hkeeps
  have hbuffer := Keyed.perm_of_lookup h.keys hentry
  have hmem : (a.key, entry) ∈ s.buffer := hbuffer.symm.subset List.mem_cons_self
  obtain ⟨hkeyed, htexts, t, ht, htkey⟩ := h.keyed _ hmem
  have hheld := merged_mem hmem
  have hhand := DebounceTimer.hand_abort_of_not_parked (hparked t ht)
  have hold : entry.parts.Pairwise (·.number < ·.number) := (h.formed _ hheld).2
  have holdFirst : ∀ m ∈ s.hands, ∀ x ∈ m.parts, ∀ y ∈ entry.parts, x.Precedes y :=
    fun m hm x hx y hy => h.handsFirst m hm _ hmem x hx y hy
  have hfaithful : (entry.merge a handle).merged.Faithful :=
    DebounceBufferEntry.faithful_merge (h.faithful _ hheld) htexts hsame
  have hkey : a.key =
      debounceKey (entry.merge a handle).senderId (entry.merge a handle).receiverId := hkeyed
  rw [Keyed.modify_eq_set ht]
  refine h.locked hpushing entry.parts ?_ rfl ?_ (fun b hb => (List.mem_filter.1 hb).1)
    (Keyed.nodup_cons_filter_ne h.keys) hold holdFirst hfaithful htexts.merge hkey rfl
    (fun j r hr => timer_set ht DebounceTimer.key_abort ⟨r, hr, rfl⟩) fun b hb => ?_
  · refine (hands_set_perm ht t.abort).trans ?_
    rw [hhand]
    exact (hands_perm ht).symm
  · have hparts := hbuffer.flatMap_right (·.2.parts)
    rwa [List.flatMap_cons] at hparts
  · have hset := (Keyed.set_perm ht t.abort).symm.subset
    rcases List.mem_cons.1 hb with rfl | hb
    · rcases hleft with ⟨r, hr, hrest⟩ | ⟨r, hr, hwoken⟩
      · exact ⟨r, hset (List.mem_cons_of_mem _ hr), hrest⟩
      · rw [ht] at hr
        obtain rfl := Option.some.inj hr
        exact ⟨t.abort, hset List.mem_cons_self, DebounceTimer.key_abort.trans htkey,
          DebounceTimer.coming_abort hwoken⟩
    · obtain ⟨hb, hne⟩ := List.mem_filter.1 hb
      exact attended_set ht (h.attended b hb) fun hk _ =>
        absurd (hk.symm.trans htkey) (of_decide_eq_true hne)

/-- **Locking.** -/
lemma DebounceInv.lock (h : DebounceInv s) (hkeeps : KeepsDebounced c s .lock) :
    DebounceInv (debounceStep c s .lock) := by
  rw [debounceStep]
  cases hpushing : s.pushing with
  | none => exact h
  | some r =>
    obtain ⟨a, handle⟩ := r
    obtain ⟨hmerge, hnew⟩ := hkeeps a handle hpushing
    dsimp only
    cases hentry : s.buffer.lookup a.key with
    | some entry => exact h.lockMerge hpushing hentry (hmerge entry hentry)
    | none => exact h.lockNew hpushing hentry (hnew hentry)

/-! ## Sending and receiving -/

/-- **A send that finds room.** -/
lemma DebounceInv.offerRoom (h : DebounceInv s) (ht : s.timers[i]? = some t) {m : Merged}
    {parked : Bool} (hphase : t.phase = .sending m parked)
    (hkeeps : ∀ n ∈ (s.timers.eraseIdx i).flatMap (·.hand), ∀ a ∈ m.parts, ∀ b ∈ n.parts,
      a.Precedes b) :
    DebounceInv { s with
      channel := s.channel ++ [m]
      timers := s.timers.set i { t with phase := .done } } := by
  set s' : DebounceState :=
    { s with
      channel := s.channel ++ [m]
      timers := s.timers.set i { t with phase := .done } } with hs'
  have hkey : ({ t with phase := .done } : DebounceTimer).key = t.key := rfl
  have hhand : t.hand = [m] := by simp [DebounceTimer.hand, hphase]
  have hhands : s.hands.Perm (m :: s'.hands) := by
    refine (hands_perm ht).trans ?_
    rw [hhand]
    exact (hands_set_perm ht { t with phase := .done }).symm.cons m
  have hothers : ∀ n ∈ s'.hands, n ∈ (s.timers.eraseIdx i).flatMap (·.hand) := fun n hn =>
    (hands_set_perm ht { t with phase := .done }).subset hn
  have hheld : s.held.Perm (m :: s'.held) := hhands.append_right _
  have hmem : m ∈ s.held := hheld.symm.subset List.mem_cons_self
  have hsent : s'.sent = s.sent ++ [m] := (List.append_assoc ..).symm
  have hsentParts : s'.sentParts = s.sentParts ++ m.parts := by
    rw [DebounceState.sentParts, hsent, List.flatMap_append, List.flatMap_singleton]
    rfl
  have hparts : (s.held.flatMap (·.parts)).Perm (m.parts ++ s'.held.flatMap (·.parts)) := by
    have hperm := hheld.flatMap_right (·.parts)
    rwa [List.flatMap_cons] at hperm
  have hwaiting : s.waitingParts.Perm (m.parts ++ s'.waitingParts) := by
    have hperm := hparts.append_right ((s.pushing.map (·.1)).toList)
    rwa [List.append_assoc] at hperm
  have hall : ∀ n, n ∈ s'.sent ++ s'.held → n ∈ s.sent ++ s.held := by
    intro n hn
    rw [hsent, List.append_assoc] at hn
    exact (hheld.append_left s.sent).symm.subset hn
  have hformed := h.formed m (List.mem_append_right _ hmem)
  have hmine : ∀ x ∈ m.parts, ∀ y ∈ s'.waitingParts, x.Precedes y := by
    intro x hx y hy
    rcases List.mem_append.1 hy with hy | hy
    · obtain ⟨n, hn, hyn⟩ := List.mem_flatMap.1 hy
      rcases List.mem_append.1 hn with hn | hn
      · exact hkeeps n (hothers n hn) x hx y hyn
      · obtain ⟨b, hb, rfl⟩ := List.mem_map.1 hn
        exact h.handsFirst m (hhands.symm.subset List.mem_cons_self) b hb x hx y hyn
    · obtain ⟨r, hr, rfl⟩ := Option.map_eq_some_iff.1 (Option.mem_toList.1 hy)
      exact fun _ => (h.pushed r.1 r.2 hr).2 x
        (List.mem_append_right _ (List.mem_flatMap.2 ⟨m, hmem, hx⟩))
  exact {
    once := by
      rw [hsentParts, List.append_assoc]
      exact (hwaiting.symm.append_left _).trans h.once
    attended := fun b hb => attended_set ht (h.attended b hb) fun _ hc => by
      have hnil := DebounceTimer.hand_of_coming hc
      rw [hhand] at hnil
      cases hnil
    faithful := fun n hn => h.faithful n (hall n hn)
    sorted := by
      rw [hsentParts]
      refine List.pairwise_append.2 ⟨h.sorted, hformed.2.imp Arrival.precedes_of_lt, ?_⟩
      exact fun x hx y hy => h.inOrder x hx y (hwaiting.symm.subset (List.mem_append_left _ hy))
    inOrder := fun x hx y hy => by
      rw [hsentParts] at hx
      rcases List.mem_append.1 hx with hx | hx
      · exact h.inOrder x hx y (hwaiting.symm.subset (List.mem_append_right _ hy))
      · exact hmine x hx y hy
    numbered := h.numbered
    formed := fun n hn => h.formed n (hall n hn)
    keys := h.keys
    keyed := fun b hb => by
      obtain ⟨hkeyed, htexts, hr⟩ := h.keyed b hb
      exact ⟨hkeyed, htexts, timer_set ht hkey hr⟩
    pushed := fun a handle hpush => by
      obtain ⟨hr, hless⟩ := h.pushed a handle hpush
      refine ⟨timer_set ht hkey hr, fun b hb => ?_⟩
      rw [hsentParts, List.append_assoc] at hb
      exact hless b ((hparts.append_left s.sentParts).symm.subset hb)
    handsFirst := fun n hn => h.handsFirst n (hhands.symm.subset (List.mem_cons_of_mem _ hn)) }

/-- **Sending.** -/
lemma DebounceInv.offer (h : DebounceInv s) (hkeeps : KeepsDebounced c s (.offer i)) :
    DebounceInv (debounceStep c s (.offer i)) := by
  rw [debounceStep]
  cases ht : s.timers[i]? with
  | none => exact h
  | some t =>
    dsimp only
    split
    · rename_i m parked hphase
      have hoffer := hkeeps t m parked ht hphase
      rw [KeepsOffer] at hoffer
      by_cases hroom : s.channel.length < c.capacity
      · rw [if_pos hroom] at hoffer ⊢
        exact h.offerRoom ht hphase hoffer
      · rw [if_neg hroom] at hoffer ⊢
        rw [hoffer, if_neg Bool.false_ne_true]
        have hnot : ¬ t.Coming := by simp [DebounceTimer.Coming, hphase]
        exact h.retimed ht rfl (by simp [DebounceTimer.hand, hphase]) fun hc => absurd hc hnot
    · exact h

/-- **An envelope for the orchestrator.** -/
lemma DebounceInv.deliver (h : DebounceInv s) {m : Merged} {rest : List Merged}
    (hchannel : s.channel = m :: rest) (seq : ℕ) (spool : InboundSpool) (dir : SpoolDir) :
    DebounceInv { s with
      channel := rest, spool := spool, dir := dir, envelopes := s.envelopes ++ [(seq, m)] } := by
  set s' : DebounceState :=
    { s with
      channel := rest, spool := spool, dir := dir, envelopes := s.envelopes ++ [(seq, m)] } with hs'
  have hsent : s'.sent = s.sent := by
    rw [DebounceState.sent, DebounceState.sent, hchannel, hs', List.map_append, List.map_singleton,
      List.append_assoc]
    rfl
  have hsentParts : s'.sentParts = s.sentParts := by
    rw [DebounceState.sentParts, hsent, DebounceState.sentParts]
  exact {
    once := by
      rw [hsentParts]
      exact h.once
    attended := h.attended
    faithful := by
      rw [hsent]
      exact h.faithful
    sorted := by
      rw [hsentParts]
      exact h.sorted
    inOrder := by
      rw [hsentParts]
      exact h.inOrder
    numbered := h.numbered
    formed := by
      rw [hsent]
      exact h.formed
    keys := h.keys
    keyed := h.keyed
    pushed := by
      rw [hsentParts]
      exact h.pushed
    handsFirst := h.handsFirst }

/-- **Receiving.** -/
lemma DebounceInv.receive (h : DebounceInv s) {now : ℕ} {writes : Bool}
    (hkeeps : KeepsDebounced c s (.receive now writes)) :
    DebounceInv (debounceStep c s (.receive now writes)) := by
  rw [debounceStep]
  cases hchannel : s.channel with
  | nil => exact h
  | cons m rest =>
    have hnew : dedupKey c.channelType c.accountId m.msg.toPersisted.id ∉ s.spool.seen :=
      hkeeps m (by rw [hchannel]; rfl)
    dsimp only
    cases writes with
    | true =>
      rw [InboundSpool.append_accepted hnew]
      exact h.deliver hchannel _ _ _
    | false =>
      rw [InboundSpool.append_failed hnew]
      exact h.deliver hchannel _ _ _

/-- **One event** that keeps the messages keeps the invariant. -/
lemma DebounceInv.step (h : DebounceInv s) {e : DebounceEvent} (he : KeepsDebounced c s e) :
    DebounceInv (debounceStep c s e) := by
  cases e with
  | push msg => exact h.push msg
  | lock => exact h.lock he
  | wake i => exact h.wake i
  | take i => exact h.take i
  | offer i => exact h.offer he
  | receive now writes => exact h.receive he

/-! ## Steps that do not keep the messages -/

/-- A merge that is good in the next state was good. -/
lemma DebounceInv.keepsMerge (h : DebounceInv s) {a : Arrival} {handle : ℕ}
    (hpushing : s.pushing = some (a, handle)) {entry : DebounceBufferEntry}
    (hentry : s.buffer.lookup a.key = some entry) (hnext : DebouncedOnce { s with
      pushing := none
      buffer := (a.key, entry.merge a handle) :: s.buffer.filter (·.1 ≠ a.key)
      timers := s.timers.modify entry.timer (·.abort) }) : KeepsMerge s a entry := by
  have hbuffer := Keyed.perm_of_lookup h.keys hentry
  obtain ⟨-, -, t, ht, htkey⟩ := h.keyed _ (hbuffer.symm.subset List.mem_cons_self)
  rw [Keyed.modify_eq_set ht] at hnext
  refine ⟨?_, fun r hr hparked => ?_, ?_⟩
  · have hmem : (entry.merge a handle).merged ∈ s.sent ++ (s.timers.set entry.timer
        t.abort).flatMap (·.hand) ++ ((a.key, entry.merge a handle) ::
          s.buffer.filter (·.1 ≠ a.key)).map (·.2.merged) :=
      List.mem_append_right _ List.mem_cons_self
    rw [List.append_assoc] at hmem
    have hfaithful := (hnext.faithful _ hmem).1 a
      (List.mem_append_right _ (List.mem_singleton_self a))
    exact ⟨hfaithful.1.symm, hfaithful.2.symm⟩
  · rw [ht] at hr
    obtain rfl := Option.some.inj hr
    obtain ⟨m, hphase⟩ := hparked
    obtain ⟨hnil, hhand⟩ := DebounceTimer.hand_abort_of_parked hphase
    have hold := hands_perm ht
    have hnew := hands_set_perm ht t.abort
    rw [hhand] at hold
    rw [hnil, List.nil_append] at hnew
    have hm : m ∈ s.hands := hold.symm.subset List.mem_cons_self
    refine absurd hnext (not_once_of_lost m.parts h.once ?_ rfl
      (h.formed m (List.mem_append_right _ (List.mem_append_left _ hm))).1)
    refine List.perm_iff_count.2 fun x => ?_
    have hx := (hold.flatMap_right (·.parts)).count_eq x
    have hx' := (hnew.flatMap_right (·.parts)).count_eq x
    have hb := (hbuffer.flatMap_right (·.2.parts)).count_eq x
    simp only [DebounceState.sentParts, DebounceState.waitingParts, DebounceState.held,
      DebounceState.sent, DebounceState.hands, DebounceBufferEntry.merged,
      DebounceBufferEntry.merge, List.count_append, List.flatMap_append, List.flatMap_cons,
      List.flatMap_map, List.singleton_append, hpushing, Option.map_none,
      Option.toList_none, List.count_nil, Option.map_some, Option.toList_some] at hx hx' hb ⊢
    omega
  · obtain ⟨r, hr, hrkey, hcoming⟩ := hnext.attended _ List.mem_cons_self
    rcases List.mem_cons.1 ((Keyed.set_perm ht t.abort).subset hr) with rfl | hother
    · exact .inr ⟨t, ht, DebounceTimer.phase_of_coming_abort hcoming⟩
    · exact .inl ⟨r, hother, hrkey, hcoming⟩

/-- A send that is good in the next state was good. -/
lemma DebounceInv.keepsOffer (h : DebounceInv s) {m : Merged} {parked : Bool}
    (ht : s.timers[i]? = some t) (hphase : t.phase = .sending m parked)
    (hnext : DebouncedOnce (debounceStep c s (.offer i))) : KeepsOffer c s i t m := by
  have hhand : t.hand = [m] := by simp [DebounceTimer.hand, hphase]
  have hold := hands_perm ht
  rw [hhand] at hold
  have hnew : ((s.timers.set i { t with phase := .done }).flatMap (·.hand)).Perm
      ((s.timers.eraseIdx i).flatMap (·.hand)) := hands_set_perm ht { t with phase := .done }
  rw [KeepsOffer]
  rw [debounceStep, ht] at hnext
  dsimp only at hnext
  rw [hphase] at hnext
  dsimp only at hnext
  by_cases hroom : s.channel.length < c.capacity
  · rw [if_pos hroom]
    rw [if_pos hroom] at hnext
    intro n hn x hx y hy
    refine hnext.inOrder x ?_ y ?_
    · exact List.mem_flatMap.2
        ⟨m, List.mem_append_right _ (List.mem_append_right _ (List.mem_singleton_self m)), hx⟩
    · exact List.mem_append_left _
        (List.mem_flatMap.2 ⟨n, List.mem_append_left _ (hnew.symm.subset hn), hy⟩)
  · rw [if_neg hroom]
    rw [if_neg hroom] at hnext
    by_contra haborted
    rw [Bool.not_eq_false] at haborted
    rw [if_pos haborted] at hnext
    have hm : m ∈ s.hands := hold.symm.subset List.mem_cons_self
    refine absurd hnext (not_once_of_lost m.parts h.once ?_ rfl
      (h.formed m (List.mem_append_right _ (List.mem_append_left _ hm))).1)
    refine List.perm_iff_count.2 fun x => ?_
    have hx := (hold.flatMap_right (·.parts)).count_eq x
    have hx' := (hnew.flatMap_right (·.parts)).count_eq x
    simp only [DebounceState.sentParts, DebounceState.waitingParts, DebounceState.held,
      DebounceState.sent, DebounceState.hands, List.count_append, List.flatMap_append,
      List.flatMap_cons, List.singleton_append] at hx hx' ⊢
    omega

/-- A message whose id the spool knows is lost. -/
lemma DebounceInv.keepsReceive (h : DebounceInv s) {now : ℕ} {writes : Bool}
    (hnext : DebouncedOnce (debounceStep c s (.receive now writes))) :
    KeepsDebounced c s (.receive now writes) := by
  intro m hm
  cases hchannel : s.channel with
  | nil =>
    rw [hchannel] at hm
    cases hm
  | cons n rest =>
    rw [hchannel] at hm
    obtain rfl := Option.some.inj hm
    intro hseen
    rw [debounceStep, hchannel] at hnext
    dsimp only at hnext
    have hdrop : dedupKey c.channelType c.accountId n.msg.toPersisted.id ∈ s.spool.seen := hseen
    rw [InboundSpool.append_duplicate hdrop] at hnext
    have hsent : n ∈ s.sent := by
      rw [DebounceState.sent, hchannel]
      exact List.mem_append_right _ List.mem_cons_self
    refine absurd hnext (not_once_of_lost n.parts h.once ?_ rfl
      (h.formed n (List.mem_append_left _ hsent)).1)
    refine List.perm_iff_count.2 fun x => ?_
    simp only [DebounceState.sentParts, DebounceState.waitingParts, DebounceState.held,
      DebounceState.sent, DebounceState.hands, hchannel, List.count_append, List.flatMap_append,
      List.flatMap_cons]
    omega

/-- **A step that does not keep the messages** breaks the property. -/
lemma DebounceInv.keepsDebounced (h : DebounceInv s) {e : DebounceEvent}
    (hnext : DebouncedOnce (debounceStep c s e)) : KeepsDebounced c s e := by
  cases e with
  | push msg => trivial
  | lock =>
    intro a handle hpushing
    rw [debounceStep, hpushing] at hnext
    dsimp only at hnext
    refine ⟨fun entry hentry => ?_, fun hnone => ?_⟩
    · rw [hentry] at hnext
      exact h.keepsMerge hpushing hentry hnext
    · rw [hnone] at hnext
      exact hnext.attended _ List.mem_cons_self
  | wake i => trivial
  | take i => trivial
  | offer i =>
    intro t m parked ht hphase
    exact h.keepsOffer ht hphase hnext
  | receive now writes => exact h.keepsReceive hnext

end

/-! ## Runs -/

/-- Nothing has arrived. -/
lemma debounceInv_start (spool : InboundSpool) (dir : SpoolDir) :
    DebounceInv { spool := spool, dir := dir } where
  once := .refl _
  attended := by simp
  faithful := by simp [DebounceState.sent, DebounceState.held, DebounceState.hands]
  sorted := .nil
  inOrder := by simp [DebounceState.sentParts, DebounceState.sent]
  numbered := by simp
  formed := by simp [DebounceState.sent, DebounceState.held, DebounceState.hands]
  keys := .nil
  keyed := by simp
  pushed := by simp
  handsFirst := by simp

/-- **Every message is in exactly one envelope**, in order and with its own conversation only, in
every state of a run, exactly when every step of the run keeps the messages. -/
theorem debouncedOnce_iff (c : DebounceConfig) (spool : InboundSpool) (dir : SpoolDir)
    (es : List DebounceEvent) :
    Run.Always (debounceStep c) DebouncedOnce { spool := spool, dir := dir } es ↔
      Run.EachStep (debounceStep c) (KeepsDebounced c) { spool := spool, dir := dir } es :=
  Run.always_iff_eachStep_of_good (Q := DebounceInv) (fun _ h => h.toDebouncedOnce)
    (fun _ _ h hnext => h.keepsDebounced hnext) (fun _ _ h he => h.step he)
    (debounceInv_start spool dir)

/-! ## Two messages of one millisecond -/

/-- Two users write in the same millisecond, and both windows pass. -/
def sameMillisecond : List DebounceEvent :=
  [.push ⟨"1", "anna", "room", "hello", 5⟩, .lock, .push ⟨"2", "ben", "room", "hi", 5⟩, .lock,
    .wake 0, .take 0, .offer 0, .wake 1, .take 1, .offer 1, .receive 0 true, .receive 0 true]

/-- **The second message is dropped** as a duplicate of the first. -/
theorem not_debouncedOnce_sameMillisecond :
    ¬ Run.Always (debounceStep ⟨100, "telegram", "bot"⟩) DebouncedOnce
      { spool := .openDir ⟨[], []⟩ [], dir := ⟨[], []⟩ } sameMillisecond := by
  intro h
  have hlen := h.last.once.length_eq
  revert hlen
  decide

end MyClaw
