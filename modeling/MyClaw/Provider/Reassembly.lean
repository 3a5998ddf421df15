import MyClaw.Provider.CallIds

set_option autoImplicit false

/-!
# Tool calls in pieces

The tool calls of chat completions come in pieces, each under an index.  `parse_openai_sse`
(`providers/protocols/openai/chat_completions.rs`) makes events of them and `collect_stream`
(`agents/agent/stream_collect.rs`) puts the calls together: starts by their order, deltas by their
index.

## Main definitions

* `Pieces` — the first deltas of the indices, and the later deltas with text.
* `Pieces.reassembled` — the calls that were sent.
* `Pieces.Carries` — what a delta carries in a stream of tool calls.
* `Pieces.Placed`, `Pieces.Agrees` — the condition under which the calls come out.

## Main results

* `collectStream_reassembles_iff` — the calls of a stream come out exactly under the condition.
* `not_reassembled` — a single call with an index other than 0 does not come out.
-/

namespace MyClaw

/-! ## The deltas -/

namespace TcDelta

/-- The id, empty if there is none. -/
def callId (tc : TcDelta) : String := tc.id.getD ""

/-- The name, if there is one. -/
def name? (tc : TcDelta) : Option String := tc.function.bind FuncDelta.name

/-- The name, empty if there is none. -/
def callName (tc : TcDelta) : String := tc.name?.getD ""

/-- The text of the arguments, empty if there is none. -/
def text (tc : TcDelta) : String := (tc.function.bind FuncDelta.arguments).getD ""

/-- A call as its first delta gives it. -/
def call (tc : TcDelta) : ToolCall := ⟨tc.callId, tc.callName, tc.text⟩

end TcDelta

/-- The first deltas of the indices in their order, and the later deltas with text, each with the
first one of its index. -/
structure Pieces where
  firsts : List TcDelta := []
  laters : List (TcDelta × TcDelta) := []

namespace Pieces

/-- The first delta of an index. -/
def first? (s : Pieces) (index : ℕ) : Option TcDelta := s.firsts.find? (·.index = index)

/-- One more delta. -/
def step (s : Pieces) (tc : TcDelta) : Pieces :=
  match s.first? tc.index with
  | none => { s with firsts := s.firsts ++ [tc] }
  | some first => if tc.text = "" then s else { s with laters := s.laters ++ [(first, tc)] }

/-- The later deltas of an index. -/
def latersOf (s : Pieces) (index : ℕ) : List (TcDelta × TcDelta) := s.laters.filter (·.2.index = index)

/-- The texts of some later deltas, one behind the other. -/
def textOf (l : List (TcDelta × TcDelta)) : String := l.foldl (fun text p => text ++ p.2.text) ""

/-- One call for each index, in the order in which they start: the id and the name of its first
delta, and the texts of all its deltas. -/
def reassembled (s : Pieces) : List ToolCall := s.firsts.map fun first =>
  { first.call with arguments := first.text ++ textOf (s.latersOf first.index) }

/-- What a delta carries: the first of an index its id and name, a later one no other id or name. -/
def Carries (s : Pieces) (tc : TcDelta) : Prop :=
  match s.first? tc.index with
  | none => tc.callId ≠ "" ∧ tc.name?.isSome = true
  | some first => (tc.callId = "" ∨ tc.callId = first.callId) ∧
      (tc.callName = "" ∨ tc.callName = first.callName)

instance (s : Pieces) (tc : TcDelta) : Decidable (s.Carries tc) := by
  unfold Carries
  split <;> infer_instance

/-- A later delta does not repeat both the id and the name, and there is a call at the place that is its
index. -/
def Placed (s : Pieces) (tc : TcDelta) : Prop :=
  (s.first? tc.index).isSome = true → ¬(tc.callId ≠ "" ∧ tc.name?.isSome = true) ∧
    (tc.text ≠ "" → tc.index < s.firsts.length)

instance (s : Pieces) (tc : TcDelta) : Decidable (s.Placed tc) := by
  unfold Placed
  infer_instance

/-- The later deltas of one index have the text of those of the index of a call, and no other id or name
than the call. -/
def AgreesWith (s : Pieces) (index : ℕ) (first : TcDelta) : Prop :=
  textOf (s.latersOf index) = textOf (s.latersOf first.index) ∧
    ∀ p ∈ s.latersOf index, p.1.callId = first.callId ∧
      (p.2.callName = "" ∨ p.2.callName = first.callName)

instance (s : Pieces) (index : ℕ) (first : TcDelta) : Decidable (s.AgreesWith index first) :=
  inferInstanceAs (Decidable (_ ∧ _))

/-- The later deltas whose index is the place of a call agree with the call. -/
def Agrees (s : Pieces) : Prop := ∀ place first, s.firsts[place]? = some first →
  s.AgreesWith place first

lemma agrees_iff {s : Pieces} : s.Agrees ↔
    ∀ place, ∀ h : place < s.firsts.length, s.AgreesWith place s.firsts[place] :=
  ⟨fun h place hlt => h place _ (List.getElem?_eq_getElem hlt), fun h place first hfirst => by
    obtain ⟨hlt, rfl⟩ := List.getElem?_eq_some_iff.1 hfirst
    exact h place hlt⟩

instance (s : Pieces) : Decidable s.Agrees := decidable_of_iff _ agrees_iff.symm

end Pieces

/-- The condition of a stream of deltas. -/
def Reassembles (deltas : List TcDelta) : Prop :=
  Run.EachStep Pieces.step Pieces.Placed {} deltas ∧ (Run.exec Pieces.step {} deltas).Agrees

instance (deltas : List TcDelta) : Decidable (Reassembles deltas) := inferInstanceAs (Decidable (_ ∧ _))

/-! ## The events of a delta -/

/-- What an event makes of the calls. -/
def absorbCalls (calls : List ToolCall) (e : StreamEvent) : List ToolCall :=
  (({ toolCalls := calls } : Collected).absorb e).toolCalls

/-- One delta: the ids of the indices, and the calls. -/
def absorbDelta (s : List (ℕ × String) × List ToolCall) (tc : TcDelta) :
    List (ℕ × String) × List ToolCall :=
  ((parseOpenaiToolCall s.1 tc).1, (parseOpenaiToolCall s.1 tc).2.foldl absorbCalls s.2)

/-- The tool-call deltas of a line. -/
def toolDeltas (env : StreamEnv) (line : List Char) : List TcDelta :=
  match (payloadOf line).bind env.chunkFromStr with
  | none => []
  | some chunk => chunk.choices.flatMap fun choice => choice.delta.toolCalls.getD []

lemma toolCalls_absorb (c : Collected) (e : StreamEvent) :
    (c.absorb e).toolCalls = absorbCalls c.toolCalls e := by
  cases e with
  | thinking text => by_cases h : text = "" <;> simp [absorbCalls, Collected.absorb, h]
  | _ => rfl

lemma toolCalls_foldl_absorb (es : List StreamEvent) (c : Collected) :
    (es.foldl Collected.absorb c).toolCalls = es.foldl absorbCalls c.toolCalls := by
  induction es generalizing c with
  | nil => rfl
  | cons e es ih => rw [List.foldl_cons, List.foldl_cons, ih, toolCalls_absorb]

/-- Text, reasoning and ends of a turn change no call. -/
lemma foldl_absorbCalls_of_notTool {es : List StreamEvent} (h : ∀ e ∈ es, e.isToolCall = false)
    (calls : List ToolCall) : es.foldl absorbCalls calls = calls := by
  induction es with
  | nil => rfl
  | cons e es ih =>
    have he : absorbCalls calls e = calls := by
      have htool := h e List.mem_cons_self
      cases e with
      | toolCallStart => cases htool
      | toolCallDelta => cases htool
      | toolCallEnd => cases htool
      | thinking text => by_cases htext : text = "" <;> simp [absorbCalls, Collected.absorb, htext]
      | _ => rfl
    rw [List.foldl_cons, he, ih fun e he => h e (List.mem_cons_of_mem _ he)]

/-- The events that a client holds back change no call. -/
lemma foldl_absorbCalls_filter (es : List StreamEvent) (calls : List ToolCall) :
    (es.filter fun e => (doneOf e).isNone).foldl absorbCalls calls = es.foldl absorbCalls calls := by
  induction es generalizing calls with
  | nil => rfl
  | cons e es ih =>
    cases e with
    | done reason => exact ih calls
    | _ => exact ih _

lemma parseOpenaiToolCalls_exec (ids : List (ℕ × String)) (tcs : List TcDelta) (calls : List ToolCall) :
    ((parseOpenaiToolCalls ids tcs).1, (parseOpenaiToolCalls ids tcs).2.foldl absorbCalls calls) =
      Run.exec absorbDelta (ids, calls) tcs := by
  induction tcs generalizing ids calls with
  | nil => rfl
  | cons tc tcs ih =>
    rw [Run.exec_cons, absorbDelta, ← ih, parseOpenaiToolCalls]
    exact congrArg (Prod.mk _) (List.foldl_append ..)

lemma notTool_openaiText (delta : ChunkDelta) : ∀ e ∈ openaiText delta, e.isToolCall = false := by
  intro e he
  rcases List.mem_append.1 he with he | he
  · split at he
    · split at he <;> simp_all [StreamEvent.isToolCall]
    · cases he
  · split at he
    · split at he <;> simp_all [StreamEvent.isToolCall]
    · cases he

lemma parseOpenaiChoice_exec (ids : List (ℕ × String)) (choice : ChunkChoice) (calls : List ToolCall) :
    ((parseOpenaiChoice ids choice).1, (parseOpenaiChoice ids choice).2.foldl absorbCalls calls) =
      Run.exec absorbDelta (ids, calls) (choice.delta.toolCalls.getD []) := by
  rw [← parseOpenaiToolCalls_exec]
  refine congrArg (Prod.mk _) ?_
  have hmore (calls : List StreamEvent) :
      ∀ e ∈ (if calls = [] then openaiText choice.delta else ([] : List StreamEvent)),
        e.isToolCall = false := by
    intro e he
    split_ifs at he
    · exact notTool_openaiText choice.delta e he
    · cases he
  rw [parseOpenaiChoice, List.foldl_append, List.foldl_append, foldl_absorbCalls_of_notTool (hmore _)]
  cases choice.finishReason <;> rfl

lemma parseOpenaiChoices_exec (ids : List (ℕ × String)) (choices : List ChunkChoice)
    (calls : List ToolCall) :
    ((parseOpenaiChoices ids choices).1, (parseOpenaiChoices ids choices).2.foldl absorbCalls calls) =
      Run.exec absorbDelta (ids, calls) (choices.flatMap fun c => c.delta.toolCalls.getD []) := by
  induction choices generalizing ids calls with
  | nil => rfl
  | cons choice choices ih =>
    rw [List.flatMap_cons, Run.exec_append, ← parseOpenaiChoice_exec, ← ih, parseOpenaiChoices]
    exact congrArg (Prod.mk _) (List.foldl_append ..)

/-- **The events of a line** are those of its deltas. -/
lemma parseOpenaiSse_exec (env : StreamEnv) (ids : List (ℕ × String)) (line : List Char)
    (calls : List ToolCall) :
    ((parseOpenaiSse env ids line).1, (parseOpenaiSse env ids line).2.foldl absorbCalls calls) =
      Run.exec absorbDelta (ids, calls) (toolDeltas env line) := by
  unfold parseOpenaiSse toolDeltas
  cases (payloadOf line).bind env.chunkFromStr with
  | none => rfl
  | some chunk =>
    dsimp only
    split_ifs with hchoices
    · rw [hchoices]
      cases chunk.usage <;> rfl
    · exact parseOpenaiChoices_exec ids chunk.choices calls

/-- **The calls of a stream** are put together from its deltas. -/
lemma foldl_emitted_exec (env : StreamEnv) (lines : List (List Char)) (s : OpenaiState)
    (calls : List ToolCall) :
    ((openaiClient env).emitted s lines).foldl absorbCalls calls =
      (Run.exec absorbDelta (s.toolIndexMap, calls) (lines.flatMap (toolDeltas env))).2 := by
  induction lines generalizing s calls with
  | nil => rfl
  | cons line lines ih =>
    have hline := parseOpenaiSse_exec env s.toolIndexMap line calls
    rw [ChatClient.emitted, List.foldl_append, ih, List.flatMap_cons, Run.exec_append, ← hline]
    have hevents : ((openaiClient env).line s line).2.foldl absorbCalls calls =
        (parseOpenaiSse env s.toolIndexMap line).2.foldl absorbCalls calls :=
      foldl_absorbCalls_filter _ calls
    rw [hevents]
    rfl

/-! ## The calls as they come out -/

namespace Pieces

variable {s : Pieces} {tc first : TcDelta} {ids : List (ℕ × String)} {calls : List ToolCall}

/-- A later delta, put into a call. -/
def add (call : ToolCall) (p : TcDelta × TcDelta) : ToolCall :=
  { id := p.1.callId
    name := if p.2.callName = "" then call.name else p.2.callName
    arguments := call.arguments ++ p.2.text }

/-- The calls where every later delta goes to the place that is its index. -/
def built (s : Pieces) : List ToolCall :=
  s.firsts.mapIdx fun place first => (s.latersOf place).foldl add first.call

/-- The deltas are in order: what the parser and the pieces know of them. -/
structure Known (s : Pieces) (ids : List (ℕ × String)) : Prop where
  distinct : (s.firsts.map TcDelta.index).Nodup
  named : ∀ first ∈ s.firsts, first.callId ≠ "" ∧ ids.lookup first.index = some first.callId
  later : ∀ p ∈ s.laters, s.first? p.2.index = some p.1 ∧
    (p.2.callName = "" ∨ p.2.callName = p.1.callName)

lemma first?_eq_none (h : s.first? tc.index = none) : tc.index ∉ s.firsts.map TcDelta.index := by
  rintro hmem
  obtain ⟨f, hf, hindex⟩ := List.mem_map.1 hmem
  have hne := List.find?_eq_none.1 h f hf
  exact hne (decide_eq_true hindex)

lemma first?_spec {index : ℕ} (h : s.first? index = some first) :
    first ∈ s.firsts ∧ first.index = index := by
  have hindex := List.find?_some h
  exact ⟨List.mem_of_find?_eq_some h, of_decide_eq_true hindex⟩

lemma step_of_none (h : s.first? tc.index = none) :
    s.step tc = { s with firsts := s.firsts ++ [tc] } := by
  rw [step, h]

lemma step_of_some (h : s.first? tc.index = some first) (htext : tc.text ≠ "") :
    s.step tc = { s with laters := s.laters ++ [(first, tc)] } := by
  rw [step, h]
  exact if_neg htext

lemma step_of_quiet (h : s.first? tc.index = some first) (htext : tc.text = "") : s.step tc = s := by
  rw [step, h]
  exact if_pos htext

/-! ### The parser -/

/-- A delta with an id and a name starts a call. -/
lemma absorbDelta_start (hid : tc.callId ≠ "") (hname : tc.name?.isSome = true) :
    absorbDelta (ids, calls) tc = (mapInsert tc.index tc.callId ids, calls ++ [tc.call]) := by
  have hparse : parseOpenaiToolCall ids tc =
      (mapInsert tc.index tc.callId ids, [.toolCallStart tc.callId tc.callName tc.text]) :=
    if_pos ⟨hid, hname⟩
  rw [absorbDelta, hparse]
  rfl

/-- Any other delta without text is passed over. -/
lemma absorbDelta_quiet (hno : ¬(tc.callId ≠ "" ∧ tc.name?.isSome = true)) (htext : tc.text = "") :
    absorbDelta (ids, calls) tc = (ids, calls) := by
  have hparse : parseOpenaiToolCall ids tc = (ids, []) :=
    (if_neg hno).trans (if_neg (not_not.2 htext))
  rw [absorbDelta, hparse]
  rfl

/-- Any other delta with text goes to the place that is its index, with the id of the index. -/
lemma absorbDelta_later {id : String} (hno : ¬(tc.callId ≠ "" ∧ tc.name?.isSome = true))
    (htext : tc.text ≠ "") (hlookup : ids.lookup tc.index = some id)
    (hid : tc.callId = "" ∨ tc.callId = id) :
    (absorbDelta (ids, calls) tc).2 = addCallDelta calls tc.index id tc.callName tc.text ∧
      ∀ k, (absorbDelta (ids, calls) tc).1.lookup k = ids.lookup k := by
  by_cases hempty : tc.callId = ""
  · have hparse : parseOpenaiToolCall ids tc = (ids, [.toolCallDelta tc.index
        ((ids.lookup tc.index).getD "") tc.callName tc.text]) :=
      (if_neg hno).trans ((if_pos htext).trans (if_pos hempty))
    rw [absorbDelta, hparse, hlookup]
    exact ⟨rfl, fun _ => rfl⟩
  · have hsame : tc.callId = id := hid.resolve_left hempty
    have hparse : parseOpenaiToolCall ids tc = (mapInsert tc.index tc.callId ids,
        [.toolCallDelta tc.index tc.callId tc.callName tc.text]) :=
      (if_neg hno).trans ((if_pos htext).trans (if_neg hempty))
    rw [absorbDelta, hparse, hsame]
    refine ⟨rfl, fun k => ?_⟩
    rw [lookup_mapInsert]
    split_ifs with hk
    · rw [hk, hlookup]
    · rfl

lemma length_addCallDelta (index : ℕ) (id name delta : String) :
    (addCallDelta calls index id name delta).length = max calls.length (index + 1) := by
  simp only [addCallDelta, List.length_modify, List.length_append, List.length_replicate]
  omega

/-! ### A step -/

/-- What the parser knows of the deltas, and the pieces of each other. -/
lemma Known.start (h : s.Known ids) (hnone : s.first? tc.index = none) (hid : tc.callId ≠ "") :
    Known { s with firsts := s.firsts ++ [tc] } (mapInsert tc.index tc.callId ids) where
  distinct := by
    rw [List.map_append]
    exact h.distinct.append (List.nodup_singleton _) (by simpa using first?_eq_none hnone)
  named := by
    intro first hfirst
    rw [lookup_mapInsert]
    rcases List.mem_append.1 hfirst with hold | hnew
    · have hne : first.index ≠ tc.index := fun heq =>
        first?_eq_none hnone (heq ▸ List.mem_map_of_mem hold)
      rw [if_neg hne]
      exact h.named first hold
    · rw [List.mem_singleton.1 hnew, if_pos rfl]
      exact ⟨hid, rfl⟩
  later := by
    intro p hp
    obtain ⟨hfirst, hname⟩ := h.later p hp
    refine ⟨?_, hname⟩
    have hfind : s.firsts.find? (·.index = p.2.index) = some p.1 := hfirst
    rw [first?, List.find?_append, hfind]
    rfl

lemma Known.congr {ids' : List (ℕ × String)} (h : s.Known ids)
    (hids : ∀ k, ids'.lookup k = ids.lookup k) : s.Known ids' :=
  ⟨h.distinct, fun first hfirst => by rw [hids]; exact h.named first hfirst, h.later⟩

lemma Known.more (h : s.Known ids) (hfirst : s.first? tc.index = some first)
    (hname : tc.callName = "" ∨ tc.callName = first.callName) :
    Known { s with laters := s.laters ++ [(first, tc)] } ids where
  distinct := h.distinct
  named := h.named
  later := by
    intro p hp
    rcases List.mem_append.1 hp with hold | hnew
    · exact h.later p hold
    · rw [List.mem_singleton.1 hnew]
      exact ⟨hfirst, hname⟩

/-- What the parser makes of a later delta. -/
lemma absorbDelta_cases (h : s.Known ids) (hcarries : s.Carries tc)
    (hfirst : s.first? tc.index = some first) :
    ((tc.callId ≠ "" ∧ tc.name?.isSome = true) ∧
        absorbDelta (ids, calls) tc = (mapInsert tc.index first.callId ids, calls ++ [tc.call])) ∨
      ¬(tc.callId ≠ "" ∧ tc.name?.isSome = true) ∧
        (tc.text = "" ∧ absorbDelta (ids, calls) tc = (ids, calls) ∨
          tc.text ≠ "" ∧ (absorbDelta (ids, calls) tc).2 =
              addCallDelta calls tc.index first.callId tc.callName tc.text ∧
            ∀ k, (absorbDelta (ids, calls) tc).1.lookup k = ids.lookup k) := by
  rw [Carries, hfirst] at hcarries
  obtain ⟨hmem, hindex⟩ := first?_spec hfirst
  have hlookup : ids.lookup tc.index = some first.callId := hindex ▸ (h.named first hmem).2
  by_cases hstart : tc.callId ≠ "" ∧ tc.name?.isSome = true
  · refine .inl ⟨hstart, ?_⟩
    rw [absorbDelta_start hstart.1 hstart.2, hcarries.1.resolve_left hstart.1]
  · refine .inr ⟨hstart, ?_⟩
    by_cases htext : tc.text = ""
    · exact .inl ⟨htext, absorbDelta_quiet hstart htext⟩
    · exact .inr ⟨htext, absorbDelta_later hstart htext hlookup hcarries.1⟩

/-- **What is known** stays known. -/
lemma Known.step (h : s.Known ids) (hcarries : s.Carries tc) :
    (s.step tc).Known (absorbDelta (ids, calls) tc).1 := by
  cases hfirst : s.first? tc.index with
  | none =>
    rw [Carries, hfirst] at hcarries
    rw [step_of_none hfirst, absorbDelta_start hcarries.1 hcarries.2]
    exact h.start hfirst hcarries.1
  | some first =>
    have hids : ∀ k, (absorbDelta (ids, calls) tc).1.lookup k = ids.lookup k := by
      intro k
      rcases absorbDelta_cases h hcarries hfirst with ⟨-, heq⟩ | ⟨-, ⟨-, heq⟩ | ⟨-, -, hids⟩⟩
      · obtain ⟨hmem, hindex⟩ := first?_spec hfirst
        rw [heq, lookup_mapInsert]
        split_ifs with hk
        · rw [hk, ← hindex, (h.named first hmem).2]
        · rfl
      · rw [heq]
      · exact hids k
    by_cases htext : tc.text = ""
    · rw [step_of_quiet hfirst htext]
      exact h.congr hids
    · rw [Carries, hfirst] at hcarries
      rw [step_of_some hfirst htext]
      exact (h.more hfirst hcarries.2).congr hids

/-- A later delta starts no index. -/
lemma firsts_step (hfirst : s.first? tc.index = some first) : (s.step tc).firsts = s.firsts := by
  by_cases htext : tc.text = ""
  · rw [step_of_quiet hfirst htext]
  · rw [step_of_some hfirst htext]

/-- The calls that come out, and the indices: a step adds no fewer calls than indices. -/
lemma excess_step (h : s.Known ids) (hcarries : s.Carries tc) :
    calls.length + (s.step tc).firsts.length ≤
      (absorbDelta (ids, calls) tc).2.length + s.firsts.length := by
  cases hfirst : s.first? tc.index with
  | none =>
    rw [Carries, hfirst] at hcarries
    rw [step_of_none hfirst, absorbDelta_start hcarries.1 hcarries.2, List.length_append,
      List.length_append, List.length_singleton, List.length_singleton]
    omega
  | some first =>
    rw [firsts_step hfirst]
    refine Nat.add_le_add_right ?_ _
    rcases absorbDelta_cases h hcarries hfirst with ⟨-, heq⟩ | ⟨-, ⟨-, heq⟩ | ⟨-, heq, -⟩⟩
    · rw [heq, List.length_append]
      exact Nat.le_add_right ..
    · rw [heq]
    · rw [heq, length_addCallDelta]
      exact Nat.le_max_left ..

/-- **A delta that is not placed** makes a call too many. -/
lemma excess_of_not_placed (h : s.Known ids) (hcarries : s.Carries tc) (hplaced : ¬s.Placed tc)
    (hlength : calls.length = s.firsts.length) :
    (s.step tc).firsts.length < (absorbDelta (ids, calls) tc).2.length := by
  cases hfirst : s.first? tc.index with
  | none =>
    rw [Placed, hfirst] at hplaced
    exact absurd nofun hplaced
  | some first =>
    rw [Placed, hfirst] at hplaced
    rw [firsts_step hfirst]
    rcases absorbDelta_cases h hcarries hfirst with ⟨-, heq⟩ | ⟨hno, ⟨htext, -⟩ | ⟨-, heq, -⟩⟩
    · rw [heq, List.length_append, List.length_singleton]
      omega
    · exact absurd (fun _ => ⟨hno, fun h => absurd htext h⟩) hplaced
    · have hbeyond : ¬tc.index < s.firsts.length := fun hlt => hplaced fun _ => ⟨hno, fun _ => hlt⟩
      rw [heq, length_addCallDelta]
      omega

lemma addCallDelta_of_lt {index : ℕ} (hlt : index < calls.length) (id name delta : String) :
    addCallDelta calls index id name delta = calls.modify index fun call =>
      { id := if id = "" then call.id else id
        name := if name = "" then call.name else name
        arguments := call.arguments ++ delta } := by
  rw [addCallDelta, Nat.sub_eq_zero_of_le hlt, List.replicate_zero, List.append_nil]

lemma getElem?_built (place : ℕ) : s.built[place]? =
    s.firsts[place]?.map fun first => (s.latersOf place).foldl add first.call := List.getElem?_mapIdx ..

lemma length_built : s.built.length = s.firsts.length := List.length_mapIdx ..

lemma latersOf_append_of_eq {place : ℕ} (h : tc.index = place) :
    latersOf { s with laters := s.laters ++ [(first, tc)] } place = s.latersOf place ++
      [(first, tc)] := by
  rw [latersOf, List.filter_append, List.filter_cons_of_pos (by simpa using h)]
  rfl

lemma latersOf_append_of_ne {place : ℕ} (h : ¬tc.index = place) :
    latersOf { s with laters := s.laters ++ [(first, tc)] } place = s.latersOf place := by
  rw [latersOf, List.filter_append, List.filter_cons_of_neg (by simpa using h)]
  exact List.append_nil _

/-- **A delta that is placed** goes to the place that is its index. -/
lemma built_step (h : s.Known ids) (hcarries : s.Carries tc) (hplaced : s.Placed tc)
    (hbelow : ∀ p ∈ s.laters, p.2.index < s.firsts.length) :
    (absorbDelta (ids, s.built) tc).2 = (s.step tc).built ∧
      ∀ p ∈ (s.step tc).laters, p.2.index < (s.step tc).firsts.length := by
  cases hfirst : s.first? tc.index with
  | none =>
    rw [Carries, hfirst] at hcarries
    rw [step_of_none hfirst, absorbDelta_start hcarries.1 hcarries.2]
    constructor
    · have hnone : s.latersOf s.firsts.length = [] := by
        refine List.filter_eq_nil_iff.2 fun p hp hindex => ?_
        exact absurd (hbelow p hp) (Nat.not_lt.2 (of_decide_eq_true hindex).ge)
      show s.built ++ [tc.call] = List.mapIdx _ (s.firsts ++ [tc])
      rw [List.mapIdx_concat]
      refine congrArg (s.built ++ [·]) ?_
      exact (congrArg (List.foldl add tc.call) hnone).symm
    · intro p hp
      rw [List.length_append]
      exact Nat.lt_add_right _ (hbelow p hp)
  | some first =>
    rw [Placed, hfirst] at hplaced
    obtain ⟨hno, hlt⟩ := hplaced rfl
    rcases absorbDelta_cases h hcarries hfirst with ⟨hstart, -⟩ | ⟨-, ⟨htext, heq⟩ | ⟨htext, heq, -⟩⟩
    · exact absurd hstart hno
    · rw [step_of_quiet hfirst htext, heq]
      exact ⟨rfl, hbelow⟩
    · rw [step_of_some hfirst htext, heq]
      constructor
      · rw [addCallDelta_of_lt (length_built ▸ hlt htext)]
        refine List.ext_getElem? fun place => ?_
        rw [List.getElem?_modify, getElem?_built, getElem?_built]
        have hid : first.callId ≠ "" := (h.named first (first?_spec hfirst).1).1
        cases s.firsts[place]? with
        | none => rfl
        | some f =>
          refine congrArg some ?_
          dsimp only
          by_cases hplace : tc.index = place
          · rw [if_pos hplace, latersOf_append_of_eq hplace, List.foldl_append]
            exact congrArg (ToolCall.mk · _ _) (if_neg hid)
          · rw [if_neg hplace, latersOf_append_of_ne hplace]
      · intro p hp
        rcases List.mem_append.1 hp with hold | hnew
        · exact hbelow p hold
        · rw [List.mem_singleton.1 hnew]
          exact hlt htext

/-! ### A run -/

/-- Once there is a call too many, there is one at the end. -/
lemma excess_run (deltas : List TcDelta) (h : s.Known ids)
    (hcarries : Run.EachStep Pieces.step Carries s deltas) (hexcess : s.firsts.length < calls.length) :
    (Run.exec Pieces.step s deltas).firsts.length <
      (Run.exec absorbDelta (ids, calls) deltas).2.length := by
  induction deltas generalizing s ids calls with
  | nil => exact hexcess
  | cons tc deltas ih =>
    have hstep : calls.length + (s.step tc).firsts.length ≤
        (absorbDelta (ids, calls) tc).2.length + s.firsts.length := excess_step h hcarries.1
    have hmore : (s.step tc).firsts.length < (absorbDelta (ids, calls) tc).2.length := by omega
    exact ih (h.step hcarries.1) hcarries.2 hmore

/-- What is known stays known in a run. -/
lemma known_run (deltas : List TcDelta) (h : s.Known ids)
    (hcarries : Run.EachStep Pieces.step Carries s deltas) :
    (Run.exec Pieces.step s deltas).Known (Run.exec absorbDelta (ids, calls) deltas).1 := by
  induction deltas generalizing s ids calls with
  | nil => exact h
  | cons tc deltas ih => exact ih (h.step hcarries.1) hcarries.2

/-- **The calls that come out of a run** are those where every later delta goes to the place that is its
index, if all deltas are placed, and are too many otherwise. -/
theorem run_built (deltas : List TcDelta) (h : s.Known ids)
    (hcarries : Run.EachStep Pieces.step Carries s deltas)
    (hbelow : ∀ p ∈ s.laters, p.2.index < s.firsts.length) :
    (Run.EachStep Pieces.step Placed s deltas → (Run.exec absorbDelta (ids, s.built) deltas).2 =
      (Run.exec Pieces.step s deltas).built) ∧
    (¬Run.EachStep Pieces.step Placed s deltas → (Run.exec Pieces.step s deltas).firsts.length <
      (Run.exec absorbDelta (ids, s.built) deltas).2.length) := by
  induction deltas generalizing s ids with
  | nil => exact ⟨fun _ => rfl, fun hno => absurd trivial hno⟩
  | cons tc deltas ih =>
    rw [Run.exec_cons, Run.exec_cons, Run.eachStep_cons]
    have hknown : (s.step tc).Known (absorbDelta (ids, s.built) tc).1 := h.step hcarries.1
    by_cases hplaced : s.Placed tc
    · obtain ⟨hcalls, hbelow⟩ := built_step h hcarries.1 hplaced hbelow
      have hstate : absorbDelta (ids, s.built) tc =
          ((absorbDelta (ids, s.built) tc).1, (s.step tc).built) := Prod.ext rfl hcalls
      obtain ⟨hbuilt, hexcess⟩ := ih hknown hcarries.2 hbelow
      rw [hstate]
      exact ⟨fun h => hbuilt h.2, fun h => hexcess fun h' => h ⟨hplaced, h'⟩⟩
    · have hmany := excess_of_not_placed h hcarries.1 hplaced length_built
      exact ⟨fun h => absurd h.1 hplaced, fun _ => excess_run deltas hknown hcarries.2 hmany⟩

/-! ### The calls at the end -/

lemma textOf_cons (p : TcDelta × TcDelta) (l : List (TcDelta × TcDelta)) :
    textOf (p :: l) = p.2.text ++ textOf l := by
  have hfrom (start : String) : l.foldl (fun text p => text ++ p.2.text) start = start ++ textOf l := by
    unfold textOf
    induction l generalizing start with
    | nil => exact String.append_empty.symm
    | cons q l ih =>
      rw [List.foldl_cons, List.foldl_cons, ih (start ++ _), ih ("" ++ _), String.empty_append,
        String.append_assoc]
  rw [textOf, List.foldl_cons, hfrom, String.empty_append]

variable {g : TcDelta} {l : List (TcDelta × TcDelta)}

lemma arguments_foldl_add (l : List (TcDelta × TcDelta)) (call : ToolCall) :
    (l.foldl add call).arguments = call.arguments ++ textOf l := by
  induction l generalizing call with
  | nil => exact String.append_empty.symm
  | cons p l ih => rw [List.foldl_cons, ih, textOf_cons, ← String.append_assoc]; rfl

/-- Later deltas of one index give a call the id of this index. -/
lemma id_foldl_add (hfirst : ∀ p ∈ l, p.1 = g) (call : ToolCall) :
    (l.foldl add call).id = if l = [] then call.id else g.callId := by
  induction l generalizing call with
  | nil => rfl
  | cons p l ih =>
    have hp : (add call p).id = g.callId := congrArg TcDelta.callId (hfirst p List.mem_cons_self)
    rw [List.foldl_cons, ih (fun q hq => hfirst q (List.mem_cons_of_mem _ hq)), hp, ite_self,
      if_neg (List.cons_ne_nil _ _)]

/-- Later deltas of one index give a call the name of this index, if one of them has it. -/
lemma name_foldl_add (hname : ∀ p ∈ l, p.2.callName = "" ∨ p.2.callName = g.callName)
    (call : ToolCall) : (l.foldl add call).name =
      if ∀ p ∈ l, p.2.callName = "" then call.name else g.callName := by
  induction l generalizing call with
  | nil => simp
  | cons p l ih =>
    have hp : (add call p).name = if p.2.callName = "" then call.name else p.2.callName := rfl
    rw [List.foldl_cons, ih (fun q hq => hname q (List.mem_cons_of_mem _ hq)), hp]
    by_cases hall : ∀ q ∈ l, q.2.callName = ""
    · rw [if_pos hall]
      by_cases hempty : p.2.callName = ""
      · rw [if_pos hempty, if_pos fun q hq => (List.mem_cons.1 hq).elim (fun h => h ▸ hempty) (hall q)]
      · rw [if_neg hempty, if_neg fun h => hempty (h p List.mem_cons_self)]
        exact (hname p List.mem_cons_self).resolve_left hempty
    · rw [if_neg hall, if_neg fun h => hall fun q hq => h q (List.mem_cons_of_mem _ hq)]

/-- A call comes out as it was sent if the deltas whose index is its place agree with it. -/
lemma foldl_add_eq_iff (hfirst : ∀ p ∈ l, p.1 = g)
    (hname : ∀ p ∈ l, p.2.callName = "" ∨ p.2.callName = g.callName) (text : String) :
    l.foldl add first.call = { first.call with arguments := first.text ++ text } ↔
      textOf l = text ∧ ∀ p ∈ l, p.1.callId = first.callId ∧
        (p.2.callName = "" ∨ p.2.callName = first.callName) := by
  have hfields : l.foldl add first.call = { first.call with arguments := first.text ++ text } ↔
      ((l.foldl add first.call).id = first.callId ∧ (l.foldl add first.call).name = first.callName) ∧
        (l.foldl add first.call).arguments = first.text ++ text := by
    rw [ToolCall.mk.injEq, and_assoc]
    rfl
  have hid : (if l = [] then first.callId else g.callId) = first.callId ↔
      ∀ p ∈ l, p.1.callId = first.callId := by
    split_ifs with hnil
    · simp [hnil]
    · obtain ⟨p, hp⟩ := List.exists_mem_of_ne_nil l hnil
      exact ⟨fun h q hq => hfirst q hq ▸ h, fun h => hfirst p hp ▸ h p hp⟩
  have hnames : (if ∀ p ∈ l, p.2.callName = "" then first.callName else g.callName) =
      first.callName ↔ ∀ p ∈ l, p.2.callName = "" ∨ p.2.callName = first.callName := by
    split_ifs with hall
    · simp only [true_iff]
      exact fun p hp => .inl (hall p hp)
    · constructor
      · exact fun h p hp => h ▸ hname p hp
      · intro h
        obtain ⟨p, hp, hnamed⟩ := by simpa only [not_forall] using hall
        exact ((hname p hp).resolve_left hnamed).symm.trans ((h p hp).resolve_left hnamed)
  have harguments : first.call.arguments ++ textOf l = first.text ++ text ↔ textOf l = text :=
    String.append_right_inj first.text
  rw [hfields, id_foldl_add hfirst, name_foldl_add hname, arguments_foldl_add, harguments, and_comm]
  refine and_congr_right fun _ => ?_
  rw [forall₂_and]
  exact and_congr hid hnames

/-- **The calls that come out** are those that were sent if and only if the deltas agree. -/
theorem built_eq_reassembled_iff (h : s.Known ids) : s.built = s.reassembled ↔ s.Agrees := by
  have hplaces : s.built = s.reassembled ↔ ∀ place first, s.firsts[place]? = some first →
      (s.latersOf place).foldl add first.call =
        { first.call with arguments := first.text ++ textOf (s.latersOf first.index) } := by
    rw [List.ext_getElem?_iff]
    refine forall_congr' fun place => ?_
    rw [getElem?_built, reassembled, List.getElem?_map]
    cases s.firsts[place]? with
    | none => simp
    | some first => simp
  rw [hplaces, Agrees]
  refine forall_congr' fun place => forall_congr' fun first => forall_congr' fun _ => ?_
  -- the later deltas of one index have the same first one
  have hlater : ∀ p ∈ s.latersOf place, s.first? place = some p.1 ∧
      (p.2.callName = "" ∨ p.2.callName = p.1.callName) := by
    intro p hp
    obtain ⟨hmem, hindex⟩ := List.mem_filter.1 hp
    exact of_decide_eq_true hindex ▸ h.later p hmem
  have hsame : ∀ p ∈ s.latersOf place, p.1 = (s.first? place).getD first := by
    intro p hp
    rw [(hlater p hp).1]
    rfl
  exact foldl_add_eq_iff hsame (fun p hp => hsame p hp ▸ (hlater p hp).2) _

end Pieces

/-! ## The calls of a stream -/

/-- A stream that is not ended before is collected as a whole. -/
lemma collectStream_append_done {es : List StreamEvent} (h : Open es) (c : Collected)
    (reason : StopReason) :
    collectStream c (es ++ [.done reason]) = .ok (es.foldl Collected.absorb c, reason) := by
  induction es generalizing c with
  | nil => rfl
  | cons e es ih =>
    have he := h e List.mem_cons_self
    have hes : Open es := fun e' he' => h e' (List.mem_cons_of_mem _ he')
    cases e with
    | done => cases he
    | error => cases he
    | httpError => cases he
    | _ => exact ih hes _

/-- What a client of chat completions sends for its lines does not end the stream. -/
lemma open_emitted (env : StreamEnv) (lines : List (List Char)) (s : OpenaiState) :
    Open ((openaiClient env).emitted s lines) := by
  induction lines generalizing s with
  | nil => exact open_nil
  | cons line lines ih =>
    refine (open_append _ _).2 ⟨fun e he => ?_, ih _⟩
    obtain ⟨hmem, hdone⟩ := List.mem_filter.1 he
    have hfailure := not_isFailure_of_mem_parseOpenaiSse env s.toolIndexMap line e hmem
    cases e with
    | done => cases hdone
    | error => cases hfailure
    | httpError => cases hfailure
    | _ => rfl

/-- The calls that are collected from the lines of a stream. -/
def collectedCalls (env : StreamEnv) (lines : List (List Char)) (reason : StopReason) :
    Except CollectError (List ToolCall) :=
  (collectStream {} ((openaiClient env).emitted (openaiClient env).start lines ++
    [.done reason])).map (·.1.toolCalls)

/-- **Streamed tool calls are reassembled** if and only if no later delta repeats both the id and
the name, each later delta with text finds a call at the place that is its index, and the deltas
agree. -/
theorem collectStream_reassembles_iff (env : StreamEnv) (lines : List (List Char)) (reason : StopReason)
    (h : Run.EachStep Pieces.step Pieces.Carries {} (lines.flatMap (toolDeltas env))) :
    collectedCalls env lines reason =
        .ok (Run.exec Pieces.step {} (lines.flatMap (toolDeltas env))).reassembled ↔
      Reassembles (lines.flatMap (toolDeltas env)) := by
  have hcalls : collectedCalls env lines reason =
      .ok (Run.exec absorbDelta ([], []) (lines.flatMap (toolDeltas env))).2 := by
    rw [collectedCalls, collectStream_append_done (open_emitted env lines _), Except.map,
      toolCalls_foldl_absorb, foldl_emitted_exec]
    rfl
  rw [hcalls, Except.ok.injEq, Reassembles]
  generalize lines.flatMap (toolDeltas env) = deltas at h ⊢
  have hstart : Pieces.Known {} [] := ⟨List.nodup_nil, nofun, nofun⟩
  have hknown : (Run.exec Pieces.step {} deltas).Known (Run.exec absorbDelta ([], []) deltas).1 :=
    Pieces.known_run deltas hstart h
  have hempty : Pieces.built {} = [] := rfl
  obtain ⟨hbuilt, hexcess⟩ := Pieces.run_built deltas hstart h nofun
  rw [hempty] at hbuilt hexcess
  by_cases hplaced : Run.EachStep Pieces.step Pieces.Placed {} deltas
  · rw [hbuilt hplaced, Pieces.built_eq_reassembled_iff hknown]
    exact ⟨fun h => ⟨hplaced, h⟩, fun h => h.2⟩
  · have hmany := hexcess hplaced
    refine ⟨fun heq => ?_, fun h => absurd h.1 hplaced⟩
    rw [heq, Pieces.reassembled, List.length_map] at hmany
    exact absurd hmany (Nat.lt_irrefl _)

/-- A library that reads a digit as a chunk with the delta of that number. -/
private def deltaEnv (deltas : List TcDelta) : StreamEnv where
  fromStr _ := none
  chunkFromStr data := data.head?.map fun c =>
    { choices := [{ delta := { toolCalls := some (deltas[c.toNat - '0'.toNat]?).toList } }] }
  toText _ := ""

/-- Two calls in four deltas that interleave. -/
private def twoCalls : StreamEnv :=
  deltaEnv [⟨0, some "a", some ⟨some "f", none⟩⟩, ⟨1, some "b", some ⟨some "g", some "["⟩⟩,
    ⟨0, none, some ⟨none, some "7"⟩⟩, ⟨1, some "b", some ⟨none, some "]"⟩⟩]

/-- One call in two deltas, with the index 1. -/
private def oneCall : StreamEnv :=
  deltaEnv [⟨1, some "a", some ⟨some "f", some "["⟩⟩, ⟨1, none, some ⟨none, some "]"⟩⟩]

/-- Two calls come out if their indices are 0 and 1 in this order. -/
theorem collectStream_reassembles_two :
    let lines := ["data: 0".toList, "data: 1".toList, "data: 2".toList, "data: 3".toList]
    collectedCalls twoCalls lines .toolUse =
      .ok (Run.exec Pieces.step {} (lines.flatMap (toolDeltas twoCalls))).reassembled :=
  (collectStream_reassembles_iff twoCalls
    ["data: 0".toList, "data: 1".toList, "data: 2".toList, "data: 3".toList] .toolUse
    (by decide +kernel)).2 (by decide +kernel)

/-- **A single call does not come out** if its index is 1: its later text goes to a second call,
without a name. -/
theorem not_reassembled :
    let lines := ["data: 0".toList, "data: 1".toList]
    Run.EachStep Pieces.step Pieces.Carries {} (lines.flatMap (toolDeltas oneCall)) ∧
      collectedCalls oneCall lines .toolUse = .ok [⟨"a", "f", "["⟩, ⟨"a", "", "]"⟩] ∧
      (Run.exec Pieces.step {} (lines.flatMap (toolDeltas oneCall))).reassembled =
        [⟨"a", "f", "[]"⟩] := by
  decide +kernel

end MyClaw
