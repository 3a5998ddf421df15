import MyClaw.Channels.OutputBus

set_option autoImplicit false

/-!
# The order of the events on an output bus

A connection that subscribes to a bus without subscribers takes what the bus has kept, and sends it to
itself after it has let the bus go: while it does, the bus sends to it too.

## Main definitions

* `EventsInOrder` — each connection gets the events in the order in which they were pushed.
* `OvertakesNone` — the condition on the steps.

## Main results

* `eventsInOrder_iff` — when no event overtakes another one.
-/

namespace MyClaw

section

variable {Event : Type*} {s s' : OutputSystem Event}

/-! ## The order of the events -/

/-- The bus keeps events only when it has no subscriber, and newer ones than any connection was given. -/
structure EventsBuffered (s : OutputSystem Event) : Prop where
  subscribers : s.bus.subscribers.Nodup
  given : ∀ c, ∀ e ∈ eventsOf (s.conns c).outlook, e.seq < s.pushes
  buffered : ∀ e ∈ s.bus.eventBuffer, e.seq < s.pushes
  ordered : s.bus.eventBuffer.Pairwise (·.seq < ·.seq)
  offline : s.bus.subscribers ≠ [] → s.bus.eventBuffer = []
  newer : ∀ e ∈ s.bus.eventBuffer, ∀ c, ∀ e' ∈ eventsOf (s.conns c).outlook, e'.seq < e.seq

/-- Each connection gets the events in the order in which they were pushed. -/
def EventsInOrder (s : OutputSystem Event) : Prop :=
  ∀ c, (eventsOf (s.conns c).outlook).Pairwise (·.seq < ·.seq)

/-- **The condition on the steps**: no event is pushed to a subscriber that has room and has still to
replay events. -/
def OvertakesNone (s : OutputSystem Event) : BusEvent Event → Prop
  | .pushEvent _ => ∀ c ∈ s.bus.subscribers, (s.conns c).readiness = .ok →
      eventsOf (s.conns c).replaying = []
  | _ => True

lemma eventsBuffered_fresh : EventsBuffered ({} : OutputSystem Event) where
  subscribers := .nil
  given := by simp [WsConnection.outlook]
  buffered := by simp
  ordered := .nil
  offline _ := rfl
  newer := by simp

/-- A text that is no event. -/
lemma eventsOf_trySend {conn : WsConnection Event} {frame : BusFrame Event}
    (hframe : eventsOf [frame] = []) :
    eventsOf (conn.trySend frame).outlook = eventsOf conn.outlook := by
  by_cases h : conn.readiness = .ok
  · rw [trySend_outlook_of_ok h, ← List.singleton_append, eventsOf_append, eventsOf_append,
      hframe, WsConnection.outlook, eventsOf_append]
    rfl
  · rw [trySend_of_ne_ok h]

/-- An event that is pushed to a connection. -/
lemma eventsOf_trySend_event {conn : WsConnection Event} (h : conn.readiness = .ok)
    (e : Pushed Event) (sessionId : Option String) :
    eventsOf (conn.trySend (.event e sessionId)).outlook =
      eventsOf conn.accepted ++ e :: eventsOf conn.replaying := by
  rw [trySend_outlook_of_ok h, eventsOf_append]
  rfl

/-- A step that pushes no event and does not empty the buffer. -/
lemma EventsBuffered.mono (h : EventsBuffered s) (hsubscribers : s'.bus.subscribers.Nodup)
    (hbuffer : s'.bus.eventBuffer = s.bus.eventBuffer) (hpushes : s.pushes ≤ s'.pushes)
    (honline : s'.bus.subscribers ≠ [] → s.bus.subscribers ≠ [])
    (houtlook : ∀ c, (eventsOf (s'.conns c).outlook).Sublist (eventsOf (s.conns c).outlook)) :
    EventsBuffered s' where
  subscribers := hsubscribers
  given c e he := Nat.lt_of_lt_of_le (h.given c e ((houtlook c).subset he)) hpushes
  buffered e he := Nat.lt_of_lt_of_le (h.buffered e (hbuffer ▸ he)) hpushes
  ordered := hbuffer ▸ h.ordered
  offline hne := by
    rw [hbuffer]
    exact h.offline (honline hne)
  newer e he c e' he' := h.newer e (hbuffer ▸ he) c e' ((houtlook c).subset he')

/-- A connection changes, and no event comes to it. -/
lemma EventsBuffered.update (h : EventsBuffered s) {c : ℕ} {conn : WsConnection Event}
    (houtlook : (eventsOf conn.outlook).Sublist (eventsOf (s.conns c).outlook)) :
    EventsBuffered { s with conns := Function.update s.conns c conn } := by
  refine h.mono h.subscribers rfl (Nat.le_refl _) id fun d => ?_
  by_cases hd : d = c
  · subst hd
    simpa using houtlook
  · simp [hd]

lemma mem_keepLast {buffer : List (Pushed Event)} {e e' : Pushed Event}
    (h : e' ∈ keepLast buffer e) : e' ∈ buffer ∨ e' = e := by
  rw [keepLast] at h
  rcases List.mem_append.1 h with h | h
  · split_ifs at h
    · exact .inl (List.mem_of_mem_tail h)
    · exact .inl h
  · exact .inr (List.mem_singleton.1 h)

/-- An event goes to the subscribers or into the buffer. -/
lemma EventsBuffered.pushEvent (h : EventsBuffered s) (event : Event) :
    EventsBuffered (s.pushEvent event) := by
  unfold OutputSystem.pushEvent
  dsimp only
  split_ifs with hsubscribers
  · have hspec := @retainSending_spec Event (· = .ok) (.event ⟨s.pushes, event⟩ s.bus.liveSession)
      s.bus.subscribers s.conns h.subscribers
    have hempty : s.bus.eventBuffer = [] := h.offline hsubscribers
    refine ⟨hspec.1 ▸ h.subscribers.filter _, fun c e he => ?_, ?_, ?_, fun _ => hempty, ?_⟩
    · have hmem : e = ⟨s.pushes, event⟩ ∨ e ∈ eventsOf (s.conns c).outlook := by
        dsimp only at he
        rw [hspec.2] at he
        split_ifs at he
        · by_cases hok : (s.conns c).readiness = .ok
          · rw [eventsOf_trySend_event hok] at he
            simpa [WsConnection.outlook, or_left_comm] using he
          · rw [trySend_of_ne_ok hok] at he
            exact .inr he
        · exact .inr he
      rcases hmem with rfl | hold
      · exact Nat.lt_succ_self _
      · exact Nat.lt_succ_of_lt (h.given c e hold)
    · simp [hempty]
    · simp [hempty]
    · simp [hempty]
  · refine ⟨h.subscribers, fun c e he => Nat.lt_succ_of_lt (h.given c e he), fun e he => ?_, ?_,
      fun hne => absurd hne hsubscribers, fun e he c e' he' => ?_⟩
    · rcases mem_keepLast he with hold | rfl
      · exact Nat.lt_succ_of_lt (h.buffered e hold)
      · exact Nat.lt_succ_self _
    · refine List.pairwise_append.2 ⟨?_, List.pairwise_singleton _ _, fun e he e' he' => ?_⟩
      · split_ifs
        · exact h.ordered.tail
        · exact h.ordered
      · rw [List.mem_singleton.1 he']
        split_ifs at he
        · exact h.buffered e (List.mem_of_mem_tail he)
        · exact h.buffered e he
    · rcases mem_keepLast he with hold | rfl
      · exact h.newer e hold c e' he'
      · exact h.given c e' he'

lemma EventsBuffered.pushMessage (h : EventsBuffered s) (json : String) :
    EventsBuffered (s.pushMessage json) := by
  have hspec := @retainSending_spec Event (· ≠ .closed) (.message ⟨s.pushes, json⟩)
    s.bus.subscribers s.conns h.subscribers
  have hsame : ∀ c, eventsOf ((retainSending (· ≠ .closed) (.message ⟨s.pushes, json⟩)
      s.bus.subscribers s.conns).2 c).outlook = eventsOf (s.conns c).outlook := fun c => by
    rw [hspec.2]
    split_ifs
    · exact eventsOf_trySend rfl
    · rfl
  have hnodup : (retainSending (· ≠ .closed) (.message ⟨s.pushes, json⟩) s.bus.subscribers
      s.conns).1.Nodup := hspec.1 ▸ h.subscribers.filter _
  unfold OutputSystem.pushMessage
  dsimp only
  split_ifs with hsubscribers hdelivered
  · exact h.mono hnodup rfl (Nat.le_succ _) (fun _ => hsubscribers) fun c => by rw [hsame]
  · exact h.mono hnodup rfl (Nat.le_succ _) (fun _ => hsubscribers) fun c => by rw [hsame]
  · exact h.mono h.subscribers rfl (Nat.le_succ _) id fun c => .refl _

lemma EventsBuffered.subscribe (h : EventsBuffered s) {c : ℕ}
    (hreplay : (s.conns c).replaying = []) (sessionId : String) :
    EventsBuffered (s.subscribe c sessionId) := by
  have hnodup := nodup_subscribersWith h.subscribers c
  unfold OutputSystem.subscribe
  split_ifs with hfirst
  · refine ⟨hnodup, fun d e he => ?_, by simp, .nil, fun _ => rfl, by simp⟩
    by_cases hd : d = c
    · subst hd
      simp only [Function.update_self, WsConnection.outlook, eventsOf_append, eventsOf_drained,
        List.mem_append] at he
      refine he.elim (fun hold => h.given d e ?_) (h.buffered e)
      rwa [WsConnection.outlook, hreplay, List.append_nil]
    · simp only [Function.update_of_ne hd] at he
      exact h.given d e he
  · exact h.mono hnodup rfl (Nat.le_refl _) (fun _ => hfirst) fun d => .refl _

/-- A step keeps what is known of the buffer. -/
lemma eventsBuffered_busStep (e : BusEvent Event) (h : EventsBuffered s) :
    EventsBuffered (busStep s e) := by
  cases e with
  | pushEvent event => exact h.pushEvent event
  | pushMessage json => exact h.pushMessage json
  | subscribe c sessionId =>
    rw [busStep]
    split_ifs with hready
    · exact h.subscribe hready.2 sessionId
    · exact h
  | replay c =>
    rw [busStep]
    split_ifs with hrunning
    · rcases replay_cases s c with hsame | ⟨conn, hstep, houtlook, -⟩
      · rwa [hsame]
      · rw [hstep]
        exact h.update (by rw [houtlook])
    · exact h
  | other c text => exact h.update (by rw [eventsOf_trySend rfl])
  | forward c =>
    rw [busStep]
    split_ifs with hrunning
    · exact h.update (.refl _)
    · exact h
  | finish c =>
    rw [busStep]
    split_ifs with hrunning
    · refine h.update ?_
      simp only [WsConnection.outlook, List.append_nil, eventsOf_append]
      exact List.sublist_append_left _ _
    · exact h
  | detach c =>
    rw [busStep]
    split_ifs with hrunning
    · exact h
    · refine h.mono (h.subscribers.filter _) rfl (Nat.le_refl _) (fun hne hnil => hne ?_)
        fun d => .refl _
      show s.bus.subscribers.filter _ = []
      rw [hnil, List.filter_nil]
  | close c =>
    rw [busStep]
    split_ifs with hrunning
    · exact h
    · exact h.update (.refl _)

/-- A step after which the connections have got no other events than before. -/
lemma EventsInOrder.mono (h : EventsInOrder s)
    (houtlook : ∀ c, (eventsOf (s'.conns c).outlook).Sublist (eventsOf (s.conns c).outlook)) :
    EventsInOrder s' := fun c => (h c).sublist (houtlook c)

/-- A connection changes, and no event comes to it. -/
lemma EventsInOrder.update (h : EventsInOrder s) {c : ℕ} {conn : WsConnection Event}
    (houtlook : (eventsOf conn.outlook).Sublist (eventsOf (s.conns c).outlook)) :
    EventsInOrder { s with conns := Function.update s.conns c conn } := by
  refine h.mono fun d => ?_
  by_cases hd : d = c
  · subst hd
    simpa using houtlook
  · simp [hd]

/-- An event that is pushed stays behind the older ones exactly when no subscriber that takes it has to
replay older ones. -/
lemma eventsInOrder_pushEvent_iff (hI : EventsBuffered s) (h : EventsInOrder s) (event : Event) :
    EventsInOrder (s.pushEvent event) ↔ OvertakesNone s (.pushEvent event) := by
  unfold OutputSystem.pushEvent
  dsimp only
  split_ifs with hsubscribers
  · have hsent := (@retainSending_spec Event (· = .ok)
      (.event ⟨s.pushes, event⟩ s.bus.liveSession) s.bus.subscribers s.conns hI.subscribers).2
    have hreplayed : ∀ c, ∀ e ∈ eventsOf (s.conns c).replaying, e.seq < s.pushes := fun c e he =>
      hI.given c e (by
        rw [WsConnection.outlook, eventsOf_append]
        exact List.mem_append_right _ he)
    constructor
    · intro horder c hc hok
      refine List.eq_nil_iff_forall_not_mem.2 fun e he => ?_
      have hpairwise := horder c
      dsimp only at hpairwise
      rw [hsent, if_pos hc, eventsOf_trySend_event hok] at hpairwise
      have hlater := List.rel_of_pairwise_cons (List.pairwise_append.1 hpairwise).2.1 he
      have hearlier := hreplayed c e he
      dsimp only at hlater
      omega
    · intro hnone c
      dsimp only
      rw [hsent]
      split_ifs with hc
      · by_cases hok : (s.conns c).readiness = .ok
        · have hpairwise := h c
          rw [WsConnection.outlook, eventsOf_append, hnone c hc hok, List.append_nil] at hpairwise
          rw [eventsOf_trySend_event hok, hnone c hc hok]
          refine List.pairwise_append.2 ⟨hpairwise, List.pairwise_singleton _ _, fun e he e' he' => ?_⟩
          rw [List.mem_singleton.1 he']
          refine hI.given c e ?_
          rw [WsConnection.outlook, eventsOf_append]
          exact List.mem_append_left _ he
        · rw [trySend_of_ne_ok hok]
          exact h c
      · exact h c
  · refine iff_of_true (h.mono fun c => .refl _) fun c hc => ?_
    rw [not_not.1 hsubscribers] at hc
    exact absurd hc List.not_mem_nil

/-- A step keeps the events in order exactly when it meets the condition. -/
lemma eventsInOrder_busStep_iff (e : BusEvent Event) (hI : EventsBuffered s) (h : EventsInOrder s) :
    EventsInOrder (busStep s e) ↔ OvertakesNone s e := by
  cases e with
  | pushEvent event => exact eventsInOrder_pushEvent_iff hI h event
  | pushMessage json =>
    refine iff_of_true (h.mono fun c => ?_) trivial
    have hsent := (@retainSending_spec Event (· ≠ .closed) (.message ⟨s.pushes, json⟩)
      s.bus.subscribers s.conns hI.subscribers).2
    simp only [busStep, OutputSystem.pushMessage]
    split_ifs
    · dsimp only
      rw [hsent]
      split_ifs
      · rw [eventsOf_trySend rfl]
      · exact .refl _
    · dsimp only
      rw [hsent]
      split_ifs
      · rw [eventsOf_trySend rfl]
      · exact .refl _
    · exact .refl _
  | subscribe c sessionId =>
    refine iff_of_true ?_ trivial
    rw [busStep]
    split_ifs with hready
    · unfold OutputSystem.subscribe
      split_ifs with hfirst
      · intro d
        by_cases hd : d = c
        · subst hd
          have hgiven : eventsOf (s.conns d).outlook = eventsOf (s.conns d).accepted := by
            rw [WsConnection.outlook, hready.2, List.append_nil]
          have horder := h d
          rw [hgiven] at horder
          simp only [Function.update_self, WsConnection.outlook, eventsOf_append, eventsOf_drained]
          exact List.pairwise_append.2 ⟨horder, hI.ordered, fun e he e' he' =>
            hI.newer e' he' d e (hgiven ▸ he)⟩
        · simp only [Function.update_of_ne hd]
          exact h d
      · exact h.mono fun d => .refl _
    · exact h
  | replay c =>
    refine iff_of_true ?_ trivial
    rw [busStep]
    split_ifs with hrunning
    · rcases replay_cases s c with hsame | ⟨conn, hstep, houtlook, -⟩
      · rwa [hsame]
      · rw [hstep]
        exact h.update (by rw [houtlook])
    · exact h
  | other c text => exact iff_of_true (h.update (by rw [eventsOf_trySend rfl])) trivial
  | forward c =>
    refine iff_of_true ?_ trivial
    rw [busStep]
    split_ifs with hrunning
    · exact h.update (.refl _)
    · exact h
  | finish c =>
    refine iff_of_true ?_ trivial
    rw [busStep]
    split_ifs with hrunning
    · refine h.update ?_
      simp only [WsConnection.outlook, List.append_nil, eventsOf_append]
      exact List.sublist_append_left _ _
    · exact h
  | detach c =>
    refine iff_of_true ?_ trivial
    rw [busStep]
    split_ifs with hrunning
    · exact h
    · exact h.mono fun d => .refl _
  | close c =>
    refine iff_of_true ?_ trivial
    rw [busStep]
    split_ifs with hrunning
    · exact h
    · exact h.update (.refl _)

/-- **When no event overtakes another one**: in every state of a run each connection has got, and is
about to replay, the events in the order in which they were pushed, exactly when no event of the run
was pushed to a subscriber that took it in the middle of the replay of older ones. -/
theorem eventsInOrder_iff (es : List (BusEvent Event)) :
    Run.Always busStep EventsInOrder {} es ↔ Run.EachStep busStep OvertakesNone {} es :=
  Run.always_iff_eachStep (I := EventsBuffered) (fun _ e h => eventsBuffered_busStep e h)
    (fun _ e hI h => eventsInOrder_busStep_iff e hI h) eventsBuffered_fresh fun c => by
      simp [WsConnection.outlook]

end

end MyClaw
