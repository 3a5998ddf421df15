import MyClaw.Lib.Holes
import MyClaw.Lib.Json
import MyClaw.Session.Types

set_option autoImplicit false

/-!
# The prompt of a webhook job

`handle_request` (`scheduling_runtime/webhook/server.rs`) renders the template of a job with the
payload, puts the whole payload and the event type in the places that are reserved for them, and
appends the payload.  The rendering goes first, over every place of the template; the two
replacements go over the text that it left.

## Main definitions

* `renderTemplate`, `navigateJsonValue` — the rendering and the paths.
* `prettyPayload`, `extractEventType`, `buildPrompt` — the prompt.
* `standsFor`, `onePassText`, `RendersInOnePass` — what a place of the template is
  for, and the prompt in which each place has just that.
* `ReservedAgree`, `QuietText` — the payload's own values in the reserved places, and no
  reserved place in the text that is meant.
* `NoneLeft`, `OneSided` — no reserved place in the rendered text, and texts of which one
  is nowhere longer.

## Main results

* `renderTemplate_eq` — the loop of the rendering is a scan from the left.
* `replaceReserved_eq_self_iff` — when the two replacements change nothing.
* `rendersInOnePass_iff` — when the prompt is rendered in one pass.

## Implementation notes

A place of the template goes from the first `{{` to the next `}}`.  A text is a list of
characters; the source's offsets are byte offsets of the same places.  The texts that `serde_json`
writes are a parameter. -/

namespace MyClaw

open Holes

/-! ## The rendering -/

/-- The texts that `serde_json` writes for a value. -/
structure JsonWriter where
  /-- `serde_json::to_string`. -/
  compact : JsonValue → List Char
  /-- `serde_json::to_string_pretty`. -/
  pretty : JsonValue → List Char
  /-- No text is empty. -/
  pretty_ne_nil : ∀ v, pretty v ≠ []
  /-- No JSON text starts with two braces. -/
  pretty_braces : ∀ v, ¬ ['{', '{'] <+: pretty v

/-- `usize` from a text. -/
def parseUsize (text : List Char) : Option ℕ := parseUnsigned (2 ^ 64 - 1) text

/-- The item of an array. -/
def arrayItem (index : ℕ) : JsonValue → Option JsonValue
  | .arr items => items[index]?
  | _ => none

/-- The value at an index between brackets. -/
def navigateIndex (current : JsonValue) (idx : List Char) : Option JsonValue :=
  (parseUsize (idx.dropWhile (· = '['))).bind fun i => arrayItem i current

/-- The value at a segment of a path: a field, or a field and indices. -/
def navigateSegment (current : JsonValue) (segment : List Char) : Option JsonValue :=
  if '[' ∈ segment then
    let field := segment.takeWhile (· ≠ '[')
    let rest := segment.dropWhile (· ≠ '[')
    (if field = [] then some current else current.get (String.ofList field)).bind fun value =>
      ((rest.splitOnP (· = ']')).filter (· ≠ [])).foldlM navigateIndex value
  else current.get (String.ofList segment)

/-- `navigate_json_value`. -/
def navigateJsonValue (val : JsonValue) (path : List Char) : Option JsonValue :=
  (path.splitOnP (· = '.')).foldlM navigateSegment val

variable (json : JsonWriter) (payload : JsonValue)

/-- The text that a value is rendered to. -/
def valueText : Option JsonValue → List Char
  | some (.str s) => s.toList
  | some (.num n) => (toString n).toList
  | some (.otherNum text) => text.toList
  | some (.bool b) => (toString b).toList
  | some .null => []
  | some other => json.compact other
  | none => []

/-- The text for what stands in a place of the template. -/
def pathText (inner : List Char) : List Char :=
  valueText json (navigateJsonValue payload (trimChars inner))

/-- The opening of a place. -/
def placeOpening : List Char := ['{', '{']

/-- The closing of a place. -/
def placeClosing : List Char := ['}', '}']

/-- The loop of `render_template`; the scan goes on at `start`. -/
def renderLoop : ℕ → List Char → ℕ → List Char
  | 0, result, _ => result
  | fuel + 1, result, start =>
    match findText placeOpening (result.drop start) with
    | none => result
    | some o =>
      let absOpen := start + o
      match findText placeClosing (result.drop absOpen) with
      | none => result
      | some c =>
        let absClose := absOpen + c
        let key := (result.take absClose).drop (absOpen + 2)
        let replacement := pathText json payload key
        renderLoop fuel (result.take absOpen ++ replacement ++ result.drop (absClose + 2))
          (absOpen + replacement.length)

/-- `render_template`. -/
def renderTemplate (template : List Char) : List Char :=
  renderLoop json payload template.length template 0

/-! ## The prompt -/

/-- `pretty_payload`. -/
def prettyPayload (maxChars : ℕ) : List Char :=
  let s := json.pretty payload
  if s.length ≤ maxChars then s else s.take maxChars ++ "\n…[truncated]".toList

/-- `extract_event_type`. -/
def extractEventType (eventHeader : Option (List Char)) : Option (List Char) :=
  match eventHeader.filter (· ≠ []) with
  | some h => some h
  | none => (((payload.get "event_type").or (payload.get "type")).bind JsonValue.asStr).map
      String.toList

/-- The name of the place for the whole payload. -/
def payloadName : List Char := "payload".toList

/-- The name of the place for the event type. -/
def eventTypeName : List Char := "event_type".toList

/-- A place with its name. -/
def placeText (name : List Char) : List Char := placeOpening ++ name ++ placeClosing

/-- The two replacements on the rendered text. -/
def replaceReserved (eventType : Option (List Char)) (prompt : List Char) : List Char :=
  if placeText payloadName <:+: prompt then
    replaceAll (placeText payloadName) (prettyPayload json payload 4000) prompt
  else
    match eventType with
    | some et => replaceAll (placeText eventTypeName) et prompt
    | none => prompt

/-- The prompt that `handle_request` builds. -/
def buildPrompt (template : List Char) (payloadOff : Bool) (eventHeader : Option (List Char)) :
    List Char :=
  let prompt := replaceReserved json payload (extractEventType payload eventHeader)
    (renderTemplate json payload template)
  if !payloadOff ∧ ¬ placeText payloadName <:+: template then
    let appendix := prettyPayload json payload 4000
    if appendix ≠ [] then prompt ++ ("\n\n--- webhook payload ---\n".toList ++ appendix) else prompt
  else prompt

/-! ## The prompt that is meant -/

/-- What a place of the template stands for. -/
def standsFor (eventType : Option (List Char)) (inner : List Char) : List Char :=
  if inner = payloadName then prettyPayload json payload 4000
  else if inner = eventTypeName then eventType.getD (pathText json payload inner)
  else pathText json payload inner

/-- The places of a template, from the left. -/
def templatePieces (template : List Char) : List (Holes.Piece Char (List Char)) :=
  cut (between placeOpening placeClosing) 0 template

/-- The template with each place filled once. -/
def onePassText (eventType : Option (List Char)) (template : List Char) : List Char :=
  fill (standsFor json payload eventType) (templatePieces template)

/-- The appendix with the payload. -/
def payloadAppendix (template : List Char) (payloadOff : Bool) : List Char :=
  if payloadOff = false ∧ ¬ placeText payloadName <:+: template then
    "\n\n--- webhook payload ---\n".toList ++ prettyPayload json payload 4000
  else []

/-- The prompt is the template with each place filled once, and the appendix. -/
def RendersInOnePass (template : List Char) (payloadOff : Bool) (eventHeader : Option (List Char)) :
    Prop :=
  buildPrompt json payload template payloadOff eventHeader =
    onePassText json payload (extractEventType payload eventHeader) template ++
      payloadAppendix json payload template payloadOff

/-- In each reserved place, the payload's own value of that name is what the place stands for. -/
def ReservedAgree (eventType : Option (List Char)) (template : List Char) : Prop :=
  ∀ inner ∈ names (templatePieces template),
    pathText json payload inner = standsFor json payload eventType inner

/-- The text that is meant has no reserved place in it; one for the event type may stand for itself. -/
def QuietText (eventType : Option (List Char)) (template : List Char) : Prop :=
  ¬ placeText payloadName <:+: onePassText json payload eventType template ∧
    ∀ et, eventType = some et →
      placeText eventTypeName <:+: onePassText json payload eventType template →
        et = placeText eventTypeName

/-! ## The loop is a scan -/

variable {json payload} {template : List Char} {payloadOff : Bool} {eventType : Option (List Char)}

/-- The opening text has no character of the closing one. -/
lemma placeOpening_placeClosing : ∀ x ∈ placeOpening, x ∉ placeClosing := by
  simp [placeOpening, placeClosing]

/-- A closing text is found after the opening one. -/
lemma findText_placeClosing {text : List Char} {o c : ℕ} (hopen : findText placeOpening text = some o)
    (hclose : findText placeClosing (text.drop o) = some c) :
    ∃ j, c = j + 2 ∧ findText placeClosing (text.drop (o + 2)) = some j := by
  obtain ⟨rest, hrest⟩ := (findText_spec hopen).1
  have hdrop : text.drop (o + 2) = rest := by
    rw [← List.drop_drop, ← hrest]
    rfl
  rw [← hrest, findText_append_left (by decide) placeOpening_placeClosing] at hclose
  obtain ⟨j, hj, rfl⟩ := Option.map_eq_some_iff.1 hclose
  exact ⟨j, rfl, hdrop ▸ hj⟩

/-- Without a closing text at or after the opening one there is none after it. -/
lemma findText_placeClosing_none {text : List Char} {o : ℕ}
    (hopen : findText placeOpening text = some o)
    (hclose : findText placeClosing (text.drop o) = none) :
    findText placeClosing (text.drop (o + 2)) = none := by
  obtain ⟨rest, hrest⟩ := (findText_spec hopen).1
  have hdrop : text.drop (o + 2) = rest := by
    rw [← List.drop_drop, ← hrest]
    rfl
  rw [← hrest, findText_append_left (by decide) placeOpening_placeClosing, Option.map_eq_none_iff]
    at hclose
  exact hdrop ▸ hclose

/-- What the loop reads and writes at a place, with what it has rendered before in front. -/
lemma renderLoop_step (fuel : ℕ) {done rest : List Char} {o j : ℕ}
    (hopen : findText placeOpening rest = some o)
    (hclose : findText placeClosing (rest.drop o) = some (j + 2)) :
    renderLoop json payload (fuel + 1) (done ++ rest) done.length =
      renderLoop json payload fuel
        ((done ++ rest.take o ++ pathText json payload ((rest.drop (o + 2)).take j)) ++
          rest.drop (o + 2 + j + 2))
        (done ++ rest.take o ++ pathText json payload ((rest.drop (o + 2)).take j)).length := by
  have ho : o ≤ rest.length := by
    have hle := (findText_spec hopen).1.length_le
    rw [List.length_drop, placeOpening, List.length_cons] at hle
    omega
  have hkey : ((done ++ rest).take (done.length + o + (j + 2))).drop (done.length + o + 2) =
      (rest.drop (o + 2)).take j := by
    rw [List.drop_take, Nat.add_assoc _ o 2, List.drop_length_add_append]
    congr 1
    omega
  have hrest : (done ++ rest).drop (done.length + o + (j + 2) + 2) = rest.drop (o + 2 + j + 2) := by
    rw [Nat.add_assoc, Nat.add_assoc, List.drop_length_add_append]
    congr 1
    omega
  rw [renderLoop, List.drop_left, hopen]
  simp only [List.drop_length_add_append, List.take_length_add_append, hclose, hkey, hrest]
  congr 1
  simp only [List.length_append, List.length_take, Nat.min_eq_left ho]

/-- The loop keeps what it has rendered, and scans the rest. -/
lemma renderLoop_append {fuel : ℕ} {done rest : List Char} (hfuel : rest.length ≤ fuel) :
    renderLoop json payload fuel (done ++ rest) done.length =
      done ++ fill (pathText json payload) (templatePieces rest) := by
  induction fuel generalizing done rest with
  | zero =>
    rw [List.eq_nil_of_length_eq_zero (Nat.le_zero.1 hfuel)]
    rfl
  | succ fuel ih =>
    cases hopen : findText placeOpening rest with
    | none =>
      rw [renderLoop, List.drop_left, hopen, templatePieces, fill_cut_between_of_none (by decide)]
      simp [hopen]
    | some o =>
      cases hclose : findText placeClosing (rest.drop o) with
      | none =>
        have hnone := findText_placeClosing_none hopen hclose
        rw [templatePieces, fill_cut_between_of_none (by decide)]
        · simp only [renderLoop, List.drop_left, hopen, List.drop_length_add_append, hclose]
        · intro i hi
          obtain rfl := Option.some.inj (hopen.symm.trans hi)
          exact hnone
      | some c =>
        obtain ⟨j, rfl, hj⟩ := findText_placeClosing hopen hclose
        have hlen : (rest.drop (o + 2 + j + 2)).length ≤ fuel := by
          rw [List.length_drop]
          omega
        rw [renderLoop_step fuel hopen hclose, ih hlen, List.append_assoc, List.append_assoc]
        simp only [templatePieces]
        rw [fill_cut_between (by decide) hopen hj]
        rfl

/-- **The loop of the rendering is a scan from the left**: each place is filled with the text of its
path, and what has been filled in is not read again. -/
theorem renderTemplate_eq :
    renderTemplate json payload template =
      fill (pathText json payload) (templatePieces template) := by
  have hloop : renderLoop json payload template.length ([] ++ template) ([] : List Char).length =
      [] ++ fill (pathText json payload) (templatePieces template) := renderLoop_append le_rfl
  exact hloop

/-! ## The reserved places -/

/-- There is always an appendix to add. -/
lemma prettyPayload_ne_nil (maxChars : ℕ) : prettyPayload json payload maxChars ≠ [] := by
  simp only [prettyPayload]
  split
  · exact json.pretty_ne_nil payload
  · exact List.append_ne_nil_of_right_ne_nil _ (by decide)

/-- The payload in full is not its own place. -/
lemma prettyPayload_ne_placeText : prettyPayload json payload 4000 ≠ placeText payloadName := by
  simp only [prettyPayload]
  split
  · intro h
    exact json.pretty_braces payload (h ▸ by decide)
  · rename_i hlong
    intro h
    have hlen := congrArg List.length h
    rw [List.length_append, List.length_take, Nat.min_eq_left (not_le.1 hlong).le] at hlen
    have hplace : (placeText payloadName).length = 11 := by decide
    omega

/-- The two replacements change nothing exactly when neither has something to replace by another
text. -/
lemma replaceReserved_eq_self_iff {prompt : List Char} :
    replaceReserved json payload eventType prompt = prompt ↔
      ¬ placeText payloadName <:+: prompt ∧
        ∀ et, eventType = some et → placeText eventTypeName <:+: prompt →
          et = placeText eventTypeName := by
  unfold replaceReserved
  split
  · rename_i hplace
    rw [replaceAll_eq_self_iff (by decide)]
    exact ⟨fun h => absurd (h hplace) prettyPayload_ne_placeText, fun h => absurd hplace h.1⟩
  · rename_i hplace
    cases eventType with
    | none => exact ⟨fun _ => ⟨hplace, nofun⟩, fun _ => rfl⟩
    | some et =>
      simp only
      rw [replaceAll_eq_self_iff (by decide)]
      exact ⟨fun h => ⟨hplace, fun _ he => Option.some.inj he ▸ h⟩, fun h => h.2 et rfl⟩

/-- The prompt is the rendered text after the replacements, with the appendix. -/
lemma buildPrompt_eq (eventHeader : Option (List Char)) :
    buildPrompt json payload template payloadOff eventHeader =
      replaceReserved json payload (extractEventType payload eventHeader)
          (renderTemplate json payload template) ++
        payloadAppendix json payload template payloadOff := by
  simp only [buildPrompt, payloadAppendix, prettyPayload_ne_nil, Bool.not_eq_true', ne_eq,
    not_false_eq_true, if_true]
  split
  · rfl
  · rw [List.append_nil]

/-- The appendix is always the one that is meant. -/
lemma rendersInOnePass_iff_text {eventHeader : Option (List Char)} :
    RendersInOnePass json payload template payloadOff eventHeader ↔
      replaceReserved json payload (extractEventType payload eventHeader)
          (renderTemplate json payload template) =
        onePassText json payload (extractEventType payload eventHeader) template := by
  rw [RendersInOnePass, buildPrompt_eq]
  exact ⟨List.append_cancel_right, fun h => by rw [h]⟩

/-- With the payload's own values in the reserved places, the rendering leaves the text that is
meant. -/
lemma renderTemplate_eq_onePassText (h : ReservedAgree json payload eventType template) :
    renderTemplate json payload template = onePassText json payload eventType template := by
  rw [renderTemplate_eq, onePassText, fill_congr h]

variable (json payload) in
/-- The rendered text has no reserved place left. -/
def NoneLeft (eventType : Option (List Char)) (template : List Char) : Prop :=
  ¬ placeText payloadName <:+: renderTemplate json payload template ∧
    ∀ et, eventType = some et →
      ¬ placeText eventTypeName <:+: renderTemplate json payload template

variable (json payload) in
/-- The payload's own values in the places are nowhere longer than what the places stand for, or nowhere
shorter. -/
def OneSided (eventType : Option (List Char)) (template : List Char) : Prop :=
  (∀ inner ∈ names (templatePieces template),
      (pathText json payload inner).length ≤ (standsFor json payload eventType inner).length) ∨
    ∀ inner ∈ names (templatePieces template),
      (standsFor json payload eventType inner).length ≤ (pathText json payload inner).length

/-- One-sided texts are equal exactly when they agree at each place. -/
lemma reservedAgree_iff (hsided : OneSided json payload eventType template) :
    ReservedAgree json payload eventType template ↔
      renderTemplate json payload template = onePassText json payload eventType template := by
  rw [renderTemplate_eq, onePassText]
  rcases hsided with hle | hle
  · exact (fill_eq_iff hle).symm
  · rw [eq_comm, fill_eq_iff hle]
    exact forall₂_congr fun _ _ => eq_comm

/-- **A prompt is rendered in one pass** if the payload's own value in each reserved place is what the
place stands for, and the text that is meant has no reserved place in it.  Where the first holds, or
where the rendering leaves no reserved place and the texts cannot balance, it is rendered so only
then. -/
theorem rendersInOnePass_iff (json : JsonWriter) (payload : JsonValue) (template : List Char)
    (payloadOff : Bool) (eventHeader : Option (List Char)) :
    let eventType := extractEventType payload eventHeader
    (ReservedAgree json payload eventType template ∧ QuietText json payload eventType template →
        RendersInOnePass json payload template payloadOff eventHeader) ∧
      (ReservedAgree json payload eventType template ∨
          NoneLeft json payload eventType template ∧ OneSided json payload eventType template →
        RendersInOnePass json payload template payloadOff eventHeader →
          ReservedAgree json payload eventType template ∧
            QuietText json payload eventType template) := by
  intro eventType
  have hquiet (hagree : ReservedAgree json payload eventType template) :
      RendersInOnePass json payload template payloadOff eventHeader ↔
        QuietText json payload eventType template := by
    rw [rendersInOnePass_iff_text, renderTemplate_eq_onePassText hagree]
    exact replaceReserved_eq_self_iff
  refine ⟨fun h => (hquiet h.1).2 h.2, fun h honce => ?_⟩
  have hagree : ReservedAgree json payload eventType template := by
    rcases h with hagree | ⟨hleft, hsided⟩
    · exact hagree
    · have hself : replaceReserved json payload eventType (renderTemplate json payload template) =
          renderTemplate json payload template :=
        replaceReserved_eq_self_iff.2 ⟨hleft.1, fun et het hplace => absurd hplace (hleft.2 et het)⟩
      rw [rendersInOnePass_iff_text, hself] at honce
      exact (reservedAgree_iff hsided).2 honce
  exact ⟨hagree, (hquiet hagree).1 honce⟩

/-- The writer, on objects with at most one text. -/
def oneFieldWriter : JsonWriter where
  compact
    | .obj [(key, .str s)] => '{' :: '"' :: key.toList ++ "\":\"".toList ++ s.toList ++ ['"', '}']
    | _ => ['{', '}']
  pretty
    | .obj [(key, .str s)] =>
      '{' :: "\n  \"".toList ++ key.toList ++ "\": \"".toList ++ s.toList ++ ['"', '\n', '}']
    | _ => ['{', '}']
  pretty_ne_nil v := by split <;> simp
  pretty_braces v := by
    split
    · simp [List.cons_prefix_cons]
    · decide

/-- A place for a field is rendered in one pass. -/
theorem rendersInOnePass_iff_world :
    RendersInOnePass oneFieldWriter (.obj [("name", .str "world")]) "Hello {{name}}!".toList true none :=
  (rendersInOnePass_iff oneFieldWriter (.obj [("name", .str "world")]) "Hello {{name}}!".toList true
    none).1 ⟨by unfold ReservedAgree; decide +kernel, by decide +kernel, nofun⟩

/-- The place for the whole payload is not: it is taken for a field of the payload, and the prompt is
empty. -/
theorem not_rendersInOnePass :
    ¬ ∀ (json : JsonWriter) (payload : JsonValue) (template : List Char) (payloadOff : Bool)
      (eventHeader : Option (List Char)),
        RendersInOnePass json payload template payloadOff eventHeader := by
  intro h
  have honce := h oneFieldWriter (.obj []) "{{payload}}".toList false none
  have hcode : buildPrompt oneFieldWriter (.obj []) "{{payload}}".toList false none = [] := by
    decide +kernel
  have hmeant : onePassText oneFieldWriter (.obj []) none "{{payload}}".toList = ['{', '}'] := by
    decide +kernel
  have hnone : extractEventType (.obj []) none = none := by decide +kernel
  rw [RendersInOnePass, hcode, hnone, hmeant] at honce
  exact absurd honce (List.cons_ne_nil _ _).symm

end MyClaw
