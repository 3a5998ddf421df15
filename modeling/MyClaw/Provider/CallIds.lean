import MyClaw.Provider.StreamClients
import MyClaw.Session.Sanitize
import Mathlib.Data.List.Nodup
import Mathlib.Data.List.Pairwise

set_option autoImplicit false

/-!
# The ids of tool calls

The tool calls that a session records (`agents/agent/stream_collect.rs`, `tool_phase.rs`) have the ids
that the parser of the provider gave them.  The passes over a history ask only whether an id is
answered somewhere (`agents/session/session_override.rs`).

## Main definitions

* `recordedCalls` — the calls that are recorded for a response.
* `CallsPaired` — the ids are distinct, so that a call counts as answered only if it is.
* `Placed` — every piece of arguments is for the call at its place.
* `wireIds`, `googleNames` — the ids that providers gave, and the functions that Google
  called.

## Main results

* `recordedIds_eq` — the ids of a response are those of the calls that it started.
* `placed_anthropic` — this protocol places every piece.
* `callsPaired_iff` — the calls of a session are paired exactly when no function of Google was
  called twice and no id of a provider looks like one that is made up.
* `google_repeats_id` — two calls of one function.
-/

namespace MyClaw

/-! ## What a response records -/

/-- A response: the protocol and the reply. -/
abbrev ModelResponse := ChatProtocol × ChatReply

/-- The events of a response. -/
def responseEvents (env : StreamEnv) (r : ModelResponse) : List StreamEvent := r.1.events env r.2

/-- The tool calls that are recorded for a response; a response that fails records none. -/
def recordedCalls (env : StreamEnv) (r : ModelResponse) : List ToolCall :=
  match collectStream {} (responseEvents env r) with
  | .ok (c, _) => c.toolCalls
  | .error _ => []

/-- The id of an event that starts a call. -/
def startId : StreamEvent → Option String
  | .toolCallStart id _ _ => some id
  | _ => none

/-- The name of an event that starts a call. -/
def startName : StreamEvent → Option String
  | .toolCallStart _ name _ => some name
  | _ => none

/-- The events that are read. -/
def readEvents (events : List StreamEvent) : List StreamEvent :=
  events.takeWhile fun e => !e.isTerminal

/-- The events of a response that are read, if it does not fail. -/
def collectedEvents (env : StreamEnv) (r : ModelResponse) : List StreamEvent :=
  match collectStream {} (responseEvents env r) with
  | .ok _ => readEvents (responseEvents env r)
  | .error _ => []

/-- Every piece of arguments is for the call at its place: after calls with the ids `ids`, its place is
that of one of them, and it has the id of that call or none. -/
def PlacedFrom : List String → List StreamEvent → Prop
  | _, [] => True
  | ids, .toolCallStart id _ _ :: events => PlacedFrom (ids ++ [id]) events
  | ids, .toolCallDelta index id _ _ :: events =>
    (∃ own, ids[index]? = some own ∧ (id = "" ∨ id = own)) ∧ PlacedFrom ids events
  | ids, _ :: events => PlacedFrom ids events

/-- The same for the events of a response. -/
def Placed (events : List StreamEvent) : Prop := PlacedFrom [] events

lemma placedFrom_append (ids : List String) (as bs : List StreamEvent) :
    PlacedFrom ids (as ++ bs) ↔ PlacedFrom ids as ∧ PlacedFrom (ids ++ as.filterMap startId) bs := by
  induction as generalizing ids with
  | nil => simp [PlacedFrom]
  | cons e as ih =>
    cases e <;> simp [PlacedFrom, startId, ih, List.filterMap_cons, and_assoc]

/-! ### The ids of the collected calls -/

/-- A piece of arguments for the call at its place changes no id. -/
lemma ids_addCallDelta {calls : List ToolCall} {index : ℕ} {id own name delta : String}
    (hown : (calls.map ToolCall.id)[index]? = some own) (hid : id = "" ∨ id = own) :
    (addCallDelta calls index id name delta).map ToolCall.id = calls.map ToolCall.id := by
  obtain ⟨hlt, rfl⟩ := List.getElem?_eq_some_iff.1 hown
  have hlt' : index < calls.length := by simpa using hlt
  have hfill : index + 1 - calls.length = 0 := by omega
  refine List.ext_getElem? fun i => ?_
  simp only [addCallDelta, hfill, List.replicate_zero, List.append_nil, List.getElem?_map,
    List.getElem?_modify]
  by_cases hi : index = i
  · subst hi
    rw [List.getElem?_eq_getElem hlt']
    rcases hid with rfl | rfl <;> simp
  · cases calls[i]? <;> simp [hi]

lemma ids_endCall (id name arguments : String) (calls : List ToolCall) :
    (endCall id name arguments calls).map ToolCall.id = calls.map ToolCall.id := by
  induction calls with
  | nil => rfl
  | cons call calls ih =>
    unfold endCall
    split
    · rfl
    · simp [ih]

/-- An event records the call that it starts. -/
lemma ids_absorb {c : Collected} {e : StreamEvent}
    (h : PlacedFrom (c.toolCalls.map ToolCall.id) [e]) :
    (c.absorb e).toolCalls.map ToolCall.id =
      c.toolCalls.map ToolCall.id ++ [e].filterMap startId := by
  cases e with
  | toolCallStart id name arguments => simp [Collected.absorb, startId]
  | toolCallDelta index id name delta =>
    obtain ⟨⟨own, hown, hid⟩, -⟩ := h
    simpa [Collected.absorb, startId, List.filterMap_cons] using ids_addCallDelta hown hid
  | toolCallEnd id name arguments => simp [Collected.absorb, startId, ids_endCall]
  | thinking text => by_cases htext : text = "" <;> simp [Collected.absorb, startId, htext]
  | _ => simp [Collected.absorb, startId]

/-- The calls of a stream are the ones that it starts. -/
lemma ids_collectStream {c d : Collected} {reason : StopReason} {events : List StreamEvent}
    (h : collectStream c events = .ok (d, reason))
    (hplaced : PlacedFrom (c.toolCalls.map ToolCall.id) (readEvents events)) :
    d.toolCalls.map ToolCall.id =
      c.toolCalls.map ToolCall.id ++ (readEvents events).filterMap startId := by
  induction events generalizing c with
  | nil => cases h
  | cons e events ih =>
    cases hterminal : e.isTerminal with
    | true =>
      cases e with
      | done r =>
        cases h
        simp [readEvents, StreamEvent.isTerminal]
      | error m => cases h
      | httpError status m => cases h
      | _ => cases hterminal
    | false =>
      have hread : readEvents (e :: events) = [e] ++ readEvents events := by
        simp [readEvents, hterminal]
      have hgo : collectStream (c.absorb e) events = .ok (d, reason) := by
        cases e <;> first | exact h | cases hterminal
      rw [hread, placedFrom_append] at hplaced
      have habsorb := ids_absorb hplaced.1
      rw [ih hgo (habsorb ▸ hplaced.2), habsorb, hread, List.filterMap_append, List.append_assoc]

/-- **The ids of a response** are those of the calls that it started. -/
theorem recordedIds_eq {env : StreamEnv} {r : ModelResponse} (h : Placed (collectedEvents env r)) :
    (recordedCalls env r).map ToolCall.id = (collectedEvents env r).filterMap startId := by
  unfold recordedCalls
  unfold collectedEvents at h ⊢
  cases hcollect : collectStream {} (responseEvents env r) with
  | error e => rfl
  | ok d =>
    rw [hcollect] at h
    simpa using ids_collectStream hcollect h

/-! ### The protocols that place every piece -/

/-- Events that neither start a call nor bring a piece of one. -/
def WithoutCalls (events : List StreamEvent) : Prop := ∀ e ∈ events, e.isToolStartOrDelta = false

@[simp] lemma withoutCalls_nil : WithoutCalls [] := nofun

@[simp] lemma withoutCalls_cons (e : StreamEvent) (es : List StreamEvent) :
    WithoutCalls (e :: es) ↔ e.isToolStartOrDelta = false ∧ WithoutCalls es := List.forall_mem_cons

@[simp] lemma withoutCalls_append (as bs : List StreamEvent) :
    WithoutCalls (as ++ bs) ↔ WithoutCalls as ∧ WithoutCalls bs := List.forall_mem_append

lemma WithoutCalls.startIds {events : List StreamEvent} (h : WithoutCalls events) :
    events.filterMap startId = [] := by
  refine List.filterMap_eq_nil_iff.2 fun e he => ?_
  have hquiet := h e he
  cases e <;> first | rfl | cases hquiet

lemma WithoutCalls.placedFrom {events : List StreamEvent} (h : WithoutCalls events)
    (ids : List String) : PlacedFrom ids events := by
  induction events with
  | nil => trivial
  | cons e events ih =>
    obtain ⟨he, hrest⟩ := (withoutCalls_cons e events).1 h
    cases e <;> first | exact ih hrest | cases he

lemma lookup_cons_eq {α : Type} (k k' : ℕ) (v : α) (m : List (ℕ × α)) :
    ((k, v) :: m).lookup k' = if k' = k then some v else m.lookup k' := by
  rw [List.lookup_cons]
  by_cases h : k' = k
  · simp [h]
  · simp [beq_false_of_ne h, h]

lemma lookup_mapInsert {α : Type} (k k' : ℕ) (v : α) (m : List (ℕ × α)) :
    (mapInsert k v m).lookup k' = if k' = k then some v else m.lookup k' := by
  rw [mapInsert, lookup_cons_eq]
  split
  · rfl
  · rename_i hk
    induction m with
    | nil => rfl
    | cons entry m ih =>
      obtain ⟨key, value⟩ := entry
      by_cases hkey : key = k
      · rw [List.filter_cons_of_neg (by simp [hkey]), ih, lookup_cons_eq, if_neg (hkey ▸ hk)]
      · rw [List.filter_cons_of_pos (by simp [hkey]), lookup_cons_eq, lookup_cons_eq, ih]

/-- What the maps of the parser of Anthropic say of the calls that it has started. -/
structure AnthropicPlaces (maps : AnthropicMaps) (ids : List String) : Prop where
  next : maps.nextToolIndex = ids.length
  place : ∀ i call, maps.toolIndexMap.lookup i = some call →
    ∃ k, maps.anthropicToToolIndex.lookup i = some k ∧ ids[k]? = some call.1

lemma placed_anthropicBlockStart {maps : AnthropicMaps} {ids : List String}
    (h : AnthropicPlaces maps ids) (evt : JsonValue) :
    PlacedFrom ids (anthropicBlockStart maps evt).2 ∧
      AnthropicPlaces (anthropicBlockStart maps evt).1
        (ids ++ (anthropicBlockStart maps evt).2.filterMap startId) := by
  unfold anthropicBlockStart
  split
  · rename_i index cb _ _
    dsimp only
    split
    · refine ⟨trivial, ⟨by simp [startId, h.next], ?_⟩⟩
      intro i call hcall
      simp only [lookup_mapInsert] at hcall ⊢
      by_cases hi : i = index
      · rw [if_pos hi] at hcall ⊢
        cases hcall
        exact ⟨_, rfl, by simp [startId, h.next]⟩
      · rw [if_neg hi] at hcall ⊢
        obtain ⟨k, hk, hid⟩ := h.place i call hcall
        have hlt : k < ids.length := (List.getElem?_eq_some_iff.1 hid).1
        exact ⟨k, hk, by rw [List.getElem?_append_left hlt, hid]⟩
    · simpa [PlacedFrom] using h
  · simpa [PlacedFrom] using h

lemma withoutCalls_blockText (make : String → StreamEvent)
    (hmake : ∀ s, (make s).isToolStartOrDelta = false) (key : String) (delta : JsonValue) :
    WithoutCalls (blockText make key delta) := by
  unfold blockText
  dsimp only
  split
  · exact withoutCalls_nil
  · simp [hmake]

lemma placed_anthropicBlockDelta {maps : AnthropicMaps} {ids : List String}
    (h : AnthropicPlaces maps ids) (evt : JsonValue) :
    PlacedFrom ids (anthropicBlockDelta maps evt) ∧
      (anthropicBlockDelta maps evt).filterMap startId = [] := by
  have hquiet {events : List StreamEvent} (hq : WithoutCalls events) :
      PlacedFrom ids events ∧ events.filterMap startId = [] :=
    ⟨hq.placedFrom ids, hq.startIds⟩
  unfold anthropicBlockDelta
  split
  · exact hquiet withoutCalls_nil
  · dsimp only
    split
    · exact hquiet (withoutCalls_blockText .delta (fun _ => rfl) _ _)
    split
    · exact hquiet (withoutCalls_blockText .thinking (fun _ => rfl) _ _)
    split
    · exact hquiet (withoutCalls_blockText .thinkingSignature (fun _ => rfl) _ _)
    split
    · split
      · exact hquiet withoutCalls_nil
      · rename_i index id name hlookup
        obtain ⟨i, -, hi⟩ := Option.bind_eq_some_iff.1 hlookup
        obtain ⟨call, hcall, heq⟩ := Option.map_eq_some_iff.1 hi
        cases heq
        obtain ⟨k, hk, hid⟩ := h.place index (id, name) hcall
        refine ⟨⟨⟨id, ?_, .inr rfl⟩, trivial⟩, rfl⟩
        rw [hk]
        exact hid
    · exact hquiet withoutCalls_nil

lemma withoutCalls_anthropicUsage (evt : JsonValue) : WithoutCalls (anthropicUsage evt) := by
  unfold anthropicUsage
  cases ((evt.get "message").bind (JsonValue.get "usage")).or (evt.get "usage") <;>
    simp [StreamEvent.isToolStartOrDelta]

/-- A line of Anthropic places every piece. -/
lemma placed_parseAnthropicSse {maps : AnthropicMaps} {ids : List String}
    (h : AnthropicPlaces maps ids) (env : StreamEnv) (line : List Char) :
    PlacedFrom ids (parseAnthropicSse env maps line).2 ∧
      AnthropicPlaces (parseAnthropicSse env maps line).1
        (ids ++ (parseAnthropicSse env maps line).2.filterMap startId) := by
  have hquiet {events : List StreamEvent} (hq : WithoutCalls events) :
      PlacedFrom ids events ∧ AnthropicPlaces maps (ids ++ events.filterMap startId) := by
    rw [hq.startIds, List.append_nil]
    exact ⟨hq.placedFrom ids, h⟩
  unfold parseAnthropicSse
  split
  · exact hquiet withoutCalls_nil
  · split
    · exact hquiet withoutCalls_nil
    · rename_i evt _ _ _ _
      split
      · exact placed_anthropicBlockStart h evt
      split
      · obtain ⟨hplaced, hstarts⟩ := placed_anthropicBlockDelta h evt
        refine ⟨hplaced, ?_⟩
        rw [hstarts, List.append_nil]
        exact h
      split
      · exact hquiet (withoutCalls_anthropicUsage evt)
      split
      · refine hquiet ((withoutCalls_append _ _).2 ⟨withoutCalls_anthropicUsage evt, ?_⟩)
        cases anthropicStop evt <;> simp [StreamEvent.isToolStartOrDelta]
      split
      · exact hquiet (by simp [StreamEvent.isToolStartOrDelta])
      · exact hquiet withoutCalls_nil

lemma placed_anthropic_emitted (env : StreamEnv) {s : AnthropicState} {ids : List String}
    (h : AnthropicPlaces s.maps ids) (lines : List (List Char)) :
    PlacedFrom ids ((anthropicClient env).emitted s lines) := by
  induction lines generalizing s ids with
  | nil => trivial
  | cons line lines ih =>
    obtain ⟨hplaced, hnext⟩ := placed_parseAnthropicSse h env line
    exact (placedFrom_append _ _ _).2 ⟨hplaced, ih hnext⟩

/-- A reply that is no stream has no call, and neither has the end of a stream. -/
lemma placed_of_emitted {σ : Type} {c : ChatClient σ} {lines : List (List Char)}
    (h : Placed (c.emitted c.start lines)) (hfinish : ∀ s, WithoutCalls (c.finish s))
    (broken : Option String) : Placed (c.eventsFrom c.start lines broken) := by
  refine (placedFrom_append _ _ _).2 ⟨h, ?_⟩
  cases broken with
  | some message => exact WithoutCalls.placedFrom (by simp [StreamEvent.isToolStartOrDelta]) _
  | none => exact (hfinish _).placedFrom _

/-- **Anthropic places every piece**: the place is kept with the block. -/
theorem placed_anthropic (env : StreamEnv) (reply : ChatReply) :
    Placed (responseEvents env (.anthropic, reply)) := by
  cases reply with
  | stream items =>
    rw [responseEvents, ChatProtocol.events, ChatProtocol.streamEvents_eq]
    have hstart : AnthropicPlaces {} [] := ⟨rfl, fun _ _ h => by cases h⟩
    refine placed_of_emitted (placed_anthropic_emitted env hstart _) (fun s => ?_) _
    simp only [anthropicClient]
    split <;> simp [StreamEvent.isToolStartOrDelta]
  | _ =>
    refine WithoutCalls.placedFrom ?_ []
    simp [responseEvents, ChatProtocol.events, StreamEvent.isToolStartOrDelta]

/-- Calls whose ids are made up from their names. -/
def MadeUp (events : List StreamEvent) : Prop :=
  ∀ e ∈ events, e.isToolStartOrDelta = false ∨
    ∃ name args, e = .toolCallStart (googleCallId name) name args

lemma WithoutCalls.madeUp {events : List StreamEvent} (h : WithoutCalls events) : MadeUp events :=
  fun e he => .inl (h e he)

lemma madeUp_append {as bs : List StreamEvent} (ha : MadeUp as) (hb : MadeUp bs) :
    MadeUp (as ++ bs) := List.forall_mem_append.2 ⟨ha, hb⟩

lemma MadeUp.placedFrom {events : List StreamEvent} (h : MadeUp events) (ids : List String) :
    PlacedFrom ids events := by
  induction events generalizing ids with
  | nil => trivial
  | cons e events ih =>
    have hrest : MadeUp events := fun x hx => h x (List.mem_cons_of_mem e hx)
    rcases h e List.mem_cons_self with he | ⟨name, args, rfl⟩
    · cases e <;> first | exact ih hrest ids | cases he
    · exact ih hrest _

lemma MadeUp.startIds {events : List StreamEvent} (h : MadeUp events) :
    events.filterMap startId = (events.filterMap startName).map googleCallId := by
  induction events with
  | nil => rfl
  | cons e events ih =>
    have hrest := ih fun x hx => h x (List.mem_cons_of_mem e hx)
    rcases h e List.mem_cons_self with he | ⟨name, args, rfl⟩
    · cases e <;> first | exact hrest | cases he
    · simp [startId, startName, hrest]

lemma withoutCalls_googleSignature (part : JsonValue) : WithoutCalls (googleSignature part) := by
  unfold googleSignature
  cases part.strAt "thoughtSignature" <;> simp [StreamEvent.isToolStartOrDelta]

lemma withoutCalls_googleText (part : JsonValue) : WithoutCalls (googleText part) := by
  unfold googleText
  split
  · exact withoutCalls_nil
  · split
    · exact withoutCalls_nil
    · split
      · simpa [StreamEvent.isToolStartOrDelta] using withoutCalls_googleSignature part
      · simp [StreamEvent.isToolStartOrDelta]

lemma madeUp_googleCall (env : StreamEnv) (part : JsonValue) : MadeUp (googleCall env part) := by
  unfold googleCall
  split
  · nofun
  · refine madeUp_append ?_ (withoutCalls_googleSignature part).madeUp
    split
    · nofun
    · intro e he
      exact .inr ⟨_, _, List.mem_singleton.1 he⟩

lemma madeUp_parseGoogleSse (env : StreamEnv) (line : List Char) :
    MadeUp (parseGoogleSse env line) := by
  unfold parseGoogleSse
  split
  · nofun
  · rename_i evt _
    have husage : WithoutCalls (googleUsage evt) := by
      unfold googleUsage
      cases evt.get "usageMetadata" <;> simp [StreamEvent.isToolStartOrDelta]
    refine madeUp_append husage.madeUp ?_
    split
    · nofun
    · rename_i candidate _
      refine madeUp_append ?_ (WithoutCalls.madeUp ?_)
      · intro e he
        obtain ⟨part, -, he⟩ := List.mem_flatMap.1 he
        exact madeUp_append (withoutCalls_googleText part).madeUp (madeUp_googleCall env part) e he
      · cases candidate.strAt "finishReason" <;> simp [StreamEvent.isToolStartOrDelta]

/-- The events of a response of Google. -/
lemma madeUp_google (env : StreamEnv) (reply : ChatReply) :
    MadeUp (responseEvents env (.google, reply)) := by
  cases reply with
  | stream items =>
    rw [responseEvents, ChatProtocol.events, ChatProtocol.streamEvents_eq]
    refine madeUp_append ?_ (WithoutCalls.madeUp ?_)
    · generalize (googleClient env).start = s
      generalize (received items).1 = lines
      induction lines generalizing s with
      | nil => nofun
      | cons line lines ih => exact madeUp_append (madeUp_parseGoogleSse env line) (ih _)
    · split
      · simp [StreamEvent.isToolStartOrDelta]
      · simp only [googleClient]
        split <;> simp [StreamEvent.isToolStartOrDelta]
  | _ =>
    refine WithoutCalls.madeUp ?_
    simp [responseEvents, ChatProtocol.events, StreamEvent.isToolStartOrDelta]

/-! ## The calls of a session -/

/-- The messages of a round: the calls of a response, and the results that some of them have. -/
def roundMessages (r : List ToolCall × List ToolCall) : List ChatMessage :=
  { ChatMessage.assistantText "" with toolCalls := some r.1 } ::
    r.2.map fun call => toolResult call.id (some call.name) "" false

/-- The ids of the calls are distinct, and in every history of these rounds a call whose id is answered
has a result of its own. -/
structure CallsPaired (rounds : List (List ToolCall)) : Prop where
  distinct : (rounds.flatten.map ToolCall.id).Nodup
  answered : ∀ history : List (List ToolCall × List ToolCall), history.map Prod.fst = rounds →
    (∀ r ∈ history, ∀ call ∈ r.2, call ∈ r.1) → ∀ r ∈ history, ∀ call ∈ r.1,
      call.id ∈ fulfilledIds (history.flatMap roundMessages) → call ∈ r.2

lemma mem_fulfilledIds_rounds {history : List (List ToolCall × List ToolCall)} {id : String}
    (h : id ∈ fulfilledIds (history.flatMap roundMessages)) :
    ∃ r ∈ history, ∃ call ∈ r.2, call.id = id := by
  obtain ⟨m, hm, hid⟩ := List.mem_filterMap.1 h
  obtain ⟨hmem, htool⟩ := List.mem_filter.1 hm
  obtain ⟨r, hr, hm⟩ := List.mem_flatMap.1 hmem
  rcases List.mem_cons.1 hm with rfl | hm
  · cases hid
  · obtain ⟨call, hcall, rfl⟩ := List.mem_map.1 hm
    exact ⟨r, hr, call, hcall, Option.some.inj hid⟩

/-- Distinct ids are all that the passes over a history need. -/
lemma callsPaired_iff_nodup (rounds : List (List ToolCall)) :
    CallsPaired rounds ↔ (rounds.flatten.map ToolCall.id).Nodup := by
  refine ⟨CallsPaired.distinct, fun h => ⟨h, ?_⟩⟩
  rintro history rfl hown r hr call hcall hfulfilled
  obtain ⟨r', hr', call', hcall', hid⟩ := mem_fulfilledIds_rounds hfulfilled
  have hcalls : (history.flatMap Prod.fst).Nodup := by
    rw [List.flatMap_def]
    exact h.of_map _
  have hmem {q : List ToolCall × List ToolCall} (hq : q ∈ history) {c : ToolCall} (hc : c ∈ q.1) :
      c ∈ (history.map Prod.fst).flatten :=
    List.mem_flatten.2 ⟨q.1, List.mem_map_of_mem hq, hc⟩
  obtain rfl : call' = call :=
    List.inj_on_of_nodup_map h (hmem hr' (hown r' hr' call' hcall')) (hmem hr hcall) hid
  by_cases hrr : r' = r
  · exact hrr ▸ hcall'
  · -- the call would be in two rounds
    have hsymm : Std.Symm (Function.onFun List.Disjoint
        (Prod.fst : List ToolCall × List ToolCall → List ToolCall)) := ⟨fun _ _ hd _ hb ha => hd ha hb⟩
    have hdisjoint := (List.nodup_flatMap.1 hcalls).2.forall hr' hr hrr
    exact absurd hcall (hdisjoint (hown r' hr' call' hcall'))

/-- The ids that the providers gave: those of the calls that are recorded for the responses of the
three protocols that have ids. -/
def wireIds (env : StreamEnv) (rs : List ModelResponse) : List String :=
  (rs.filter fun r => r.1 ≠ .google).flatMap fun r => (collectedEvents env r).filterMap startId

/-- The functions that the responses of Google call. -/
def googleNames (env : StreamEnv) (rs : List ModelResponse) : List String :=
  (rs.filter fun r => r.1 = .google).flatMap fun r => (collectedEvents env r).filterMap startName

lemma collectedEvents_prefix (env : StreamEnv) (r : ModelResponse) :
    ∃ rest, collectedEvents env r ++ rest = responseEvents env r := by
  unfold collectedEvents
  split
  · exact List.takeWhile_prefix _
  · exact ⟨_, rfl⟩

lemma placed_collected {env : StreamEnv} {r : ModelResponse} (h : Placed (responseEvents env r)) :
    Placed (collectedEvents env r) := by
  obtain ⟨rest, hrest⟩ := collectedEvents_prefix env r
  rw [← hrest] at h
  exact ((placedFrom_append [] _ _).1 h).1

lemma startIds_google (env : StreamEnv) {r : ModelResponse} (h : r.1 = .google) :
    (collectedEvents env r).filterMap startId =
      ((collectedEvents env r).filterMap startName).map googleCallId := by
  obtain ⟨p, reply⟩ := r
  cases h
  obtain ⟨rest, hrest⟩ := collectedEvents_prefix env (.google, reply)
  refine MadeUp.startIds fun e he => madeUp_google env reply e ?_
  rw [← hrest]
  exact List.mem_append_left rest he

lemma googleCallId_injective : Function.Injective googleCallId := by
  intro a b h
  have hlist := congrArg String.toList h
  simp only [googleCallId, String.toList_append] at hlist
  exact String.toList_inj.1 (List.append_cancel_left hlist)

/-- The ids of a session, those that providers gave first. -/
lemma sessionIds_perm (env : StreamEnv) (rs : List ModelResponse)
    (hplaced : ∀ r ∈ rs, Placed (collectedEvents env r)) :
    ((rs.map (recordedCalls env)).flatten.map ToolCall.id).Perm
      (wireIds env rs ++ (googleNames env rs).map googleCallId) := by
  have hids : (rs.map (recordedCalls env)).flatten.map ToolCall.id =
      rs.flatMap fun r => (collectedEvents env r).filterMap startId := by
    rw [← List.flatMap_def, List.map_flatMap]
    exact List.flatMap_congr fun r hr => recordedIds_eq (hplaced r hr)
  have hgoogle : (googleNames env rs).map googleCallId =
      (rs.filter fun r => r.1 = .google).flatMap fun r =>
        (collectedEvents env r).filterMap startId := by
    rw [googleNames, List.map_flatMap]
    refine List.flatMap_congr fun r hr => (startIds_google env ?_).symm
    simpa using (List.mem_filter.1 hr).2
  rw [hids, hgoogle, wireIds, ← List.flatMap_append]
  refine List.Perm.flatMap_right _ (List.Perm.symm ?_)
  simpa using List.filter_append_perm (fun r : ModelResponse => decide (r.1 ≠ .google)) rs

/-- **The calls of a session**: if the ids that the providers gave are distinct, and chat completions
and Responses place their pieces, then the calls are paired exactly when Google called no function
twice and none of the given ids is one that is made up for a call of Google. -/
theorem callsPaired_iff (env : StreamEnv) (rs : List ModelResponse)
    (hunique : (wireIds env rs).Nodup)
    (hplaced : ∀ r ∈ rs, r.1 = .chatCompletions ∨ r.1 = .responses →
      Placed (collectedEvents env r)) :
    CallsPaired (rs.map (recordedCalls env)) ↔
      (googleNames env rs).Nodup ∧
        ∀ name ∈ googleNames env rs, googleCallId name ∉ wireIds env rs := by
  have hall : ∀ r ∈ rs, Placed (collectedEvents env r) := by
    rintro ⟨p, reply⟩ hr
    cases p
    case chatCompletions => exact hplaced _ hr (.inl rfl)
    case responses => exact hplaced _ hr (.inr rfl)
    case anthropic => exact placed_collected (placed_anthropic env reply)
    case google => exact placed_collected ((madeUp_google env reply).placedFrom [])
  rw [callsPaired_iff_nodup, (sessionIds_perm env rs hall).nodup_iff, List.nodup_append]
  constructor
  · rintro ⟨-, hgoogle, hdisjoint⟩
    refine ⟨hgoogle.of_map _, fun name hname hwire => ?_⟩
    exact hdisjoint _ hwire _ (List.mem_map_of_mem hname) rfl
  · rintro ⟨hnames, hclash⟩
    refine ⟨hunique, hnames.map googleCallId_injective, ?_⟩
    rintro id hid _ hmade rfl
    obtain ⟨name, hname, rfl⟩ := List.mem_map.1 hmade
    exact hclash name hname hid

/-! ### Two sessions -/

/-- The text of a chunk of Google that calls `shell`. -/
def shellChunk : List Char :=
  ("\x7b\"candidates\":[\x7b\"content\":\x7b\"parts\":[\x7b\"functionCall\":" ++
    "\x7b\"name\":\"shell\"\x7d\x7d]\x7d,\"finishReason\":\"STOP\"\x7d]\x7d").toList

/-- The text of a chunk of chat completions that calls `shell`. -/
def callChunk : List Char :=
  ("\x7b\"choices\":[\x7b\"delta\":\x7b\"tool_calls\":[\x7b\"index\":0,\"id\":\"call_1\"," ++
    "\"function\":\x7b\"name\":\"shell\",\"arguments\":\"\"\x7d\x7d]\x7d," ++
    "\"finish_reason\":\"tool_calls\"\x7d]\x7d").toList

/-- A JSON library that knows these two texts. -/
def shellEnv : StreamEnv where
  fromStr text :=
    if text = shellChunk then
      some (.obj [("candidates", .arr [.obj
        [("content", .obj [("parts", .arr [.obj
          [("functionCall", .obj [("name", .str "shell")])]])]),
         ("finishReason", .str "STOP")]])])
    else none
  chunkFromStr text :=
    if text = callChunk then
      some
        { choices := [{
            delta := { toolCalls := some [{
              index := 0
              id := some "call_1"
              function := some { name := some "shell", arguments := some "" } }] }
            finishReason := some "tool_calls" }] }
    else none
  toText _ := ""

/-- A body with one line. -/
def oneLine (text : List Char) : ChatReply :=
  .stream [.ok (("data: ".toList ++ text ++ ['\n']).map fun c => c.toNat.toUInt8)]

/-- One response of chat completions and one of Google. -/
def mixedSession : List ModelResponse :=
  [(.chatCompletions, oneLine callChunk), (.google, oneLine shellChunk)]

/-- What the chunk of chat completions comes to. -/
lemma collectedEvents_callChunk : collectedEvents shellEnv (.chatCompletions, oneLine callChunk) =
    [.toolCallStart "call_1" "shell" ""] := by
  decide +kernel

/-- What the chunk of Google is recorded as. -/
lemma recordedCalls_shellChunk : recordedCalls shellEnv (.google, oneLine shellChunk) =
    [⟨"google_shell", "shell", "{}"⟩] := by
  decide +kernel

lemma collectedEvents_shellChunk : collectedEvents shellEnv (.google, oneLine shellChunk) =
    [.toolCallStart "google_shell" "shell" "{}"] := by
  decide +kernel

theorem callsPaired_mixedSession : CallsPaired (mixedSession.map (recordedCalls shellEnv)) := by
  have hwire : wireIds shellEnv mixedSession = ["call_1"] := by
    rw [wireIds, mixedSession]
    simp [collectedEvents_callChunk, startId]
  have hnames : googleNames shellEnv mixedSession = ["shell"] := by
    rw [googleNames, mixedSession]
    simp [collectedEvents_shellChunk, startName]
  refine (callsPaired_iff shellEnv mixedSession (by simp [hwire]) ?_).2
    ⟨by simp [hnames], by rw [hwire, hnames]; decide⟩
  intro r hr hprotocol
  simp only [mixedSession, List.mem_cons, List.not_mem_nil, or_false] at hr
  rcases hr with rfl | rfl
  · rw [collectedEvents_callChunk]
    trivial
  · rcases hprotocol with h | h <;> cases h

/-- **Google repeats an id**: the second round that calls a function has the id of the first one. -/
theorem google_repeats_id :
    (wireIds shellEnv [(.google, oneLine shellChunk), (.google, oneLine shellChunk)]).Nodup ∧
      ¬ CallsPaired ([(.google, oneLine shellChunk), (.google, oneLine shellChunk)].map
        (recordedCalls shellEnv)) := by
  refine ⟨by simp [wireIds], fun h => ?_⟩
  have hdistinct := h.distinct
  rw [List.map_cons, List.map_singleton, recordedCalls_shellChunk] at hdistinct
  exact absurd hdistinct (by decide)

end MyClaw
