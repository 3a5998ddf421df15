import MyClaw.Lib.Split
import MyClaw.Memory.FileText
import MyClaw.Memory.Frame

set_option autoImplicit false

/-!
# Memory files written and read again

When an entry that `memory_manage` has written is read with the values that it was written with, and
keeps its metadata over any number of replacements of its content.  The values are written with the
escapes of JSON and read without removing them, and tags are read between commas.

## Main definitions

* `AcceptedMemory` — the values that the tool accepts.
* `ReadsBack` — what is read are those values.
* `MemoryRewrite`, `rewriteText` — a replacement of the content of a file.
* `IsPlain`, `AcceptedMemory.Plain` — values without a character that JSON escapes, tags
  without a comma.

## Main results

* `parseTags_tagsText_eq_iff` — which tags are read as they were written.
* `roundTrips_iff` — which entries are read as they were written and keep their metadata.
-/

namespace MyClaw

/-! ## The values of an action -/

/-- The values that the tool accepts for an entry. -/
structure AcceptedMemory extends MemoryValues where
  name_ok : validateName name = .ok ()
  tags_ok : ∀ tag ∈ tags, tag ≠ ""
  inject_ok : inject = "always" ∨ inject = "search"
  userId_ok : userId.isSome

/-- The values of a replacement: those of the entry, unless they are overridden. -/
def replacedValues (env : MemoryEnv) (existing : MemoryFields) (name : String) (args : JsonValue)
    (userId content : String) : MemoryValues where
  name := name
  description :=
    if (args.strAt "description").isSome ∨ (args.strAt "summary").isSome then
      resolveDescription args content
    else existing.description
  tags :=
    if ((args.get "tags").bind JsonValue.asArray).isSome then resolveTags args else existing.tags
  memType := (normalizeOptionalFilter env (args.strAt "memory_type")).getD existing.memType
  inject :=
    match args.strAt "inject" with
    | some "always" => "always"
    | some "search" => "search"
    | _ => existing.inject
  createdAt := existing.createdAt
  updatedAt := some env.today
  scope := resolveScope args
  userId := some userId

section Actions

variable {env : MemoryEnv} {io : MemoryIo} {s : MemoryStore} {userId name : String}
  {args : JsonValue}

variable (env name args userId) in
/-- The policy of a replacement is on one line if that of the entry is. -/
lemma inject_replacedValues {existing : MemoryFields} (h : '\n' ∉ existing.inject.toList)
    (content : String) :
    '\n' ∉ (replacedValues env existing name args userId content).inject.toList := by
  unfold replacedValues
  dsimp only
  split
  · decide
  · decide
  · exact h

end Actions

/-! ## Values that are read as they are written -/

/-- A text without a character that JSON escapes. -/
def IsPlain (text : String) : Prop := ∀ c ∈ text.toList, c ≠ '"' ∧ c ≠ '\\' ∧ 32 ≤ c.toNat

/-- Characters are written as they are exactly if none is escaped. -/
lemma flatMap_escapeChar_eq_self_iff {text : List Char} :
    text.flatMap escapeChar = text ↔ ∀ c ∈ text, c ≠ '"' ∧ c ≠ '\\' ∧ 32 ≤ c.toNat := by
  have hlength (l : List Char) : l.length ≤ (l.flatMap escapeChar).length := by
    induction l with
    | nil => exact le_rfl
    | cons c l ih =>
      have hc : 1 ≤ (escapeChar c).length := by
        rcases escapeChar_cases c with ⟨heq, -⟩ | ⟨hlong, -⟩
        · rw [heq]
          exact le_rfl
        · omega
      rw [List.flatMap_cons, List.length_append, List.length_cons]
      omega
  induction text with
  | nil => simp
  | cons c text ih =>
    rw [List.flatMap_cons, List.forall_mem_cons]
    rcases escapeChar_cases c with ⟨heq, hplain⟩ | ⟨hlong, -, hescaped⟩
    · rw [heq, List.singleton_append, List.cons.injEq, and_iff_right rfl, and_iff_right hplain]
      exact ih
    · constructor
      · intro h
        have hsum := congrArg List.length h
        rw [List.length_append, List.length_cons] at hsum
        have hle := hlength text
        omega
      · rintro ⟨⟨hquote, hslash, hlow⟩, -⟩
        rcases hescaped with h | h | h
        · exact absurd h hquote
        · exact absurd h hslash
        · omega

/-- **A value is read as it was written** if it is plain. -/
theorem reread_eq_self_iff (value : String) : reread value = value ↔ IsPlain value := by
  rw [reread_eq, IsPlain, ← flatMap_escapeChar_eq_self_iff, ← String.toList_inj, String.toList_ofList]

/-- A value that is read is empty only if it was written so. -/
lemma reread_ne_empty {value : String} (h : value ≠ "") : reread value ≠ "" := by
  rw [reread_eq, Ne, ← String.toList_inj, String.toList_ofList]
  intro hnil
  obtain ⟨c, rest, hvalue⟩ := List.exists_cons_of_ne_nil fun hnil => h (String.toList_inj.1 hnil)
  rw [hvalue, List.flatMap_cons, String.toList_empty, List.append_eq_nil_iff] at hnil
  rcases escapeChar_cases c with ⟨heq, -⟩ | ⟨hlong, -⟩
  · rw [heq] at hnil
    exact List.cons_ne_nil _ _ hnil.1
  · rw [hnil.1] at hlong
    exact absurd hlong (by decide)

/-- A comma is written as it is. -/
lemma mem_of_comma_mem_yamlScalar {value : String} (h : ',' ∈ yamlScalar value) :
    ',' ∈ value.toList := by
  rw [yamlScalar, List.cons_append, List.mem_cons, List.mem_append, List.mem_flatMap,
    List.mem_singleton] at h
  rcases h with h | ⟨c, hc, h⟩ | h
  · exact absurd h (by decide)
  · rcases escapeChar_cases c with ⟨heq, -⟩ | ⟨-, hsub, -⟩
    · rw [heq, List.mem_singleton] at h
      exact h ▸ hc
    · exact absurd (hsub h) (by decide)
  · exact absurd h (by decide)

/-- Without its quotes a text has no other characters. -/
lemma stripYamlQuotes_subset (text : List Char) : stripYamlQuotes text ⊆ text := by
  unfold stripYamlQuotes
  split_ifs
  · exact ((List.dropLast_sublist _).trans (List.tail_sublist _)).subset
  · exact List.Subset.refl _

/-- A tag that is read between two commas. -/
def readTag (text : List Char) : String := String.ofList (stripYamlQuotes (trimChars text))

/-- The brackets are removed. -/
lemma parseTags_tagsText_eq (tags : List String) : parseTags (tagsText tags) =
    ((([',', ' '].intercalate (tags.map yamlScalar)).splitOn ',').map readTag).filter (· ≠ "") := by
  have hlast : (tagsText tags).getLast? = some ']' := List.getLast?_concat
  have hinner : (tagsText tags).tail.dropLast = [',', ' '].intercalate (tags.map yamlScalar) :=
    List.dropLast_concat
  rw [parseTags, trimChars_tagsText, if_pos ⟨rfl, hlast⟩, hinner]
  rfl

/-- The parts between the commas, if no tag has one. -/
lemma intercalate_eq {first : List Char} {rest : List (List Char)} :
    [',', ' '].intercalate (first :: rest) = [','].intercalate (first :: rest.map (' ' :: ·)) := by
  induction rest generalizing first with
  | nil => rfl
  | cons next rest ih =>
    rw [List.map_cons, List.intercalate_cons_cons, ih, List.intercalate_cons_cons]
    cases rest with
    | nil => simp
    | cons p rest => simp [List.intercalate_cons_cons]

/-- Tags without a comma are read one by one. -/
lemma parseTags_tagsText {tags : List String} (hne : ∀ tag ∈ tags, tag ≠ "") (hnil : tags ≠ [])
    (hcomma : ∀ tag ∈ tags, ',' ∉ tag.toList) : parseTags (tagsText tags) = tags.map reread := by
  obtain ⟨first, rest, rfl⟩ := List.exists_cons_of_ne_nil hnil
  have hscalar : ∀ tag ∈ first :: rest, ',' ∉ yamlScalar tag := fun tag htag h =>
    hcomma tag htag (mem_of_comma_mem_yamlScalar h)
  have hread (tag : String) : readTag (yamlScalar tag) = reread tag := by
    rw [readTag, trimChars_yamlScalar, reread]
  have hspace (tag : String) : readTag (' ' :: yamlScalar tag) = reread tag := by
    rw [← hread, readTag, readTag, ← List.singleton_append, trimChars_white_append rfl]
  have hrest : ((rest.map yamlScalar).map (' ' :: ·)).map readTag = rest.map reread := by
    rw [List.map_map, List.map_map]
    exact List.map_congr_left fun tag _ => hspace tag
  rw [parseTags_tagsText_eq, List.map_cons, intercalate_eq, List.splitOn_intercalate _ ?_
    (List.cons_ne_nil _ _), List.map_cons, hread, hrest, ← List.map_cons]
  · refine List.filter_eq_self.2 fun text htext => ?_
    obtain ⟨tag, htag, rfl⟩ := List.mem_map.1 htext
    exact decide_eq_true (reread_ne_empty (hne tag htag))
  · intro part hpart
    rcases List.mem_cons.1 hpart with rfl | hpart
    · exact hscalar first List.mem_cons_self
    · obtain ⟨_, hscalars, rfl⟩ := List.mem_map.1 hpart
      obtain ⟨tag, htag, rfl⟩ := List.mem_map.1 hscalars
      rw [List.mem_cons, not_or]
      exact ⟨by decide, hscalar tag (List.mem_cons_of_mem _ htag)⟩

/-- No tag that is read has a comma. -/
lemma comma_notMem_parseTags {tags : List String} {tag : String} (h : tag ∈ parseTags (tagsText tags)) :
    ',' ∉ tag.toList := by
  rw [parseTags_tagsText_eq] at h
  obtain ⟨text, htext, rfl⟩ := List.mem_map.1 (List.mem_of_mem_filter h)
  intro hcomma
  rw [readTag, String.toList_ofList] at hcomma
  have hsep := Split.eq_false_of_mem_splitOnP (p := (· == ',')) htext ','
    (trimChars_subset text (stripYamlQuotes_subset _ hcomma))
  exact absurd hsep (by decide)

/-- **The tags are read as they were written** if they are plain and have no comma. -/
theorem parseTags_tagsText_eq_iff {tags : List String} (hne : ∀ tag ∈ tags, tag ≠ "") :
    (if tags = [] then [] else parseTags (tagsText tags)) = tags ↔
      ∀ tag ∈ tags, IsPlain tag ∧ ',' ∉ tag.toList := by
  by_cases hnil : tags = []
  · simp [hnil]
  have hself : tags.map reread = tags ↔ ∀ tag ∈ tags, reread tag = tag := by
    conv_lhs => rhs; rw [← List.map_id tags]
    exact List.map_inj_left
  rw [if_neg hnil]
  constructor
  · intro h
    have hcomma : ∀ tag ∈ tags, ',' ∉ tag.toList := fun tag htag =>
      comma_notMem_parseTags (by rw [h]; exact htag)
    rw [parseTags_tagsText hne hnil hcomma] at h
    intro tag htag
    refine ⟨(reread_eq_self_iff tag).1 ?_, hcomma tag htag⟩
    exact hself.1 h tag htag
  · intro h
    rw [parseTags_tagsText hne hnil fun tag htag => (h tag htag).2]
    exact hself.2 fun tag htag => (reread_eq_self_iff tag).2 (h tag htag).1

/-! ## The round trip -/

/-- What is read of an entry are the values that were accepted for it, and its content without the white
space around it. -/
structure ReadsBack (v : AcceptedMemory) (content : String) (f : MemoryFields) : Prop where
  name : f.name = v.name
  description : f.description = v.description
  tags : f.tags = v.tags
  memType : f.memType = v.memType
  inject : f.inject = v.inject
  createdAt : f.createdAt = v.createdAt
  scope : f.scope = some v.scope.text
  userId : v.scope = .user → f.userId = v.userId
  content : f.content = String.ofList (trimChars content.toList)

/-- The metadata of an entry that a replacement has to keep. -/
structure KeepsMetadata (v : MemoryValues) (f : MemoryFields) : Prop where
  description : f.description = v.description
  tags : f.tags = v.tags
  memType : f.memType = v.memType
  createdAt : f.createdAt = v.createdAt

/-- A replacement of the content of an entry. -/
structure MemoryRewrite where
  today : String
  args : JsonValue
  userId : String
  content : String

/-- The arguments override neither the description nor the tags nor the type. -/
structure OverridesNothing (env : MemoryEnv) (args : JsonValue) : Prop where
  description : args.strAt "description" = none
  summary : args.strAt "summary" = none
  tags : (args.get "tags").bind JsonValue.asArray = none
  memType : normalizeOptionalFilter env (args.strAt "memory_type") = none

/-- The file of an entry after a replacement. -/
def rewriteText (env : MemoryEnv) (text : List Char) (r : MemoryRewrite) : List Char :=
  match parseMemoryText text with
  | some existing =>
    (replacedValues { env with today := r.today } existing existing.name r.args r.userId
      r.content).fileText r.content
  | none => text

/-- Metadata without an escaped character, and tags without a comma. -/
structure PlainMetadata (v : MemoryValues) : Prop where
  description : IsPlain v.description
  tags : ∀ tag ∈ v.tags, IsPlain tag ∧ ',' ∉ tag.toList
  memType : IsPlain v.memType
  createdAt : IsPlain v.createdAt

/-- **Values that are read as they are written**: no character that JSON escapes in the description, the
type, the tags, the date and, in the scope of a user, the user's id, and no comma in a tag. -/
structure AcceptedMemory.Plain (v : AcceptedMemory) : Prop extends PlainMetadata v.toMemoryValues where
  userId : v.scope = .user → ∀ uid ∈ v.userId, IsPlain uid

section RoundTrip

variable {v : AcceptedMemory} {content : String}

/-- The policy of an accepted entry is read as it was written. -/
lemma AcceptedMemory.inject_readFields (v : AcceptedMemory) (content : String) :
    (v.readFields content).inject = v.inject := by
  have hread : (v.readFields content).inject =
      String.ofList (stripYamlQuotes (trimChars v.inject.toList)) := rfl
  rw [hread]
  rcases v.inject_ok with h | h <;> rw [h] <;> decide

/-- The policy of an accepted entry is on one line. -/
lemma AcceptedMemory.newline_notMem_inject (v : AcceptedMemory) : '\n' ∉ v.inject.toList := by
  rcases v.inject_ok with h | h <;> rw [h] <;> decide

/-- The metadata is read as it was written if it is plain. -/
lemma keepsMetadata_readFields_iff {v : MemoryValues} (htags : ∀ tag ∈ v.tags, tag ≠ "")
    (content : String) : KeepsMetadata v (v.readFields content) ↔ PlainMetadata v := by
  constructor
  · intro h
    exact ⟨(reread_eq_self_iff _).1 h.description, (parseTags_tagsText_eq_iff htags).1 h.tags,
      (reread_eq_self_iff _).1 h.memType, (reread_eq_self_iff _).1 h.createdAt⟩
  · intro h
    exact ⟨(reread_eq_self_iff _).2 h.description, (parseTags_tagsText_eq_iff htags).2 h.tags,
      (reread_eq_self_iff _).2 h.memType, (reread_eq_self_iff _).2 h.createdAt⟩

/-- **An entry is read as it was written** if its values are plain. -/
theorem readsBack_readFields_iff (v : AcceptedMemory) (content : String) :
    ReadsBack v content (v.readFields content) ↔ v.Plain := by
  obtain ⟨uid, huid⟩ := Option.isSome_iff_exists.1 v.userId_ok
  have huser : (v.scope = .user → (v.readFields content).userId = v.userId) ↔
      (v.scope = .user → ∀ u ∈ v.userId, IsPlain u) := by
    refine forall_congr' fun hscope => ?_
    rw [MemoryValues.readFields, if_pos hscope, huid, Option.map_some, Option.getD_some,
      Option.some.injEq, reread_eq_self_iff]
    simp
  constructor
  · intro h
    have hmeta := (keepsMetadata_readFields_iff v.tags_ok content).1
      ⟨h.description, h.tags, h.memType, h.createdAt⟩
    exact ⟨hmeta, huser.1 h.userId⟩
  · intro h
    have hmeta := (keepsMetadata_readFields_iff v.tags_ok content).2 h.toPlainMetadata
    exact ⟨reread_name v.name_ok, hmeta.description, hmeta.tags, hmeta.memType,
      v.inject_readFields content, hmeta.createdAt, rfl, huser.2 h.userId, rfl⟩

/-- A replacement that overrides nothing keeps the metadata of a plain entry, and the entry plain. -/
lemma rewriteText_keeps (env : MemoryEnv) {text : List Char} {f : MemoryFields}
    (htext : parseMemoryText text = some f) (hkeeps : KeepsMetadata v.toMemoryValues f)
    (hplain : PlainMetadata v.toMemoryValues) (hinject : '\n' ∉ f.inject.toList) {r : MemoryRewrite}
    (hr : OverridesNothing env r.args) :
    ∃ f', parseMemoryText (rewriteText env text r) = some f' ∧ KeepsMetadata v.toMemoryValues f' ∧
      '\n' ∉ f'.inject.toList := by
  -- the values that are written are those of the entry
  let w := replacedValues { env with today := r.today } f f.name r.args r.userId r.content
  have hdescription : w.description = v.description := by
    refine Eq.trans (if_neg ?_) hkeeps.description
    rw [hr.description, hr.summary]
    decide
  have htags : w.tags = v.tags := by
    refine Eq.trans (if_neg ?_) hkeeps.tags
    rw [hr.tags]
    decide
  have hmemType : w.memType = v.memType := by
    refine Eq.trans ?_ hkeeps.memType
    exact congrArg (Option.getD · f.memType) hr.memType
  have hcreatedAt : w.createdAt = v.createdAt := hkeeps.createdAt
  have hw : PlainMetadata w :=
    ⟨hdescription ▸ hplain.description, htags ▸ hplain.tags, hmemType ▸ hplain.memType,
      hcreatedAt ▸ hplain.createdAt⟩
  have hwritten := inject_replacedValues { env with today := r.today } r.userId f.name r.args hinject
    r.content
  have hread : parseMemoryText (rewriteText env text r) = some (w.readFields r.content) := by
    rw [rewriteText, htext]
    exact parseMemoryText_fileText hwritten r.content
  have hback := (keepsMetadata_readFields_iff (htags ▸ v.tags_ok) r.content).2 hw
  refine ⟨_, hread, ⟨hback.description.trans hdescription, hback.tags.trans htags,
    hback.memType.trans hmemType, hback.createdAt.trans hcreatedAt⟩, fun hmem => hwritten ?_⟩
  rw [MemoryValues.readFields, String.toList_ofList] at hmem
  exact trimChars_subset _ (stripYamlQuotes_subset _ hmem)

/-- **Any number of replacements** that override nothing keep the metadata of a plain entry. -/
lemma foldl_rewriteText_keeps (env : MemoryEnv) (hplain : PlainMetadata v.toMemoryValues)
    (rewrites : List MemoryRewrite) (hnothing : ∀ r ∈ rewrites, OverridesNothing env r.args)
    {text : List Char} {f : MemoryFields} (htext : parseMemoryText text = some f)
    (hkeeps : KeepsMetadata v.toMemoryValues f) (hinject : '\n' ∉ f.inject.toList) :
    ∃ f', parseMemoryText (rewrites.foldl (rewriteText env) text) = some f' ∧
      KeepsMetadata v.toMemoryValues f' := by
  induction rewrites generalizing text f with
  | nil => exact ⟨f, htext, hkeeps⟩
  | cons r rewrites ih =>
    obtain ⟨f', hf', hkeeps', hinject'⟩ := rewriteText_keeps env htext hkeeps hplain hinject
      (hnothing r List.mem_cons_self)
    exact ih (fun r hr => hnothing r (List.mem_cons_of_mem _ hr)) hf' hkeeps' hinject'

end RoundTrip

/-- **An accepted entry is read as it was written, and keeps its metadata over any number of
replacements,** exactly if its values are plain. -/
theorem roundTrips_iff (env : MemoryEnv) (v : AcceptedMemory) (content : String) :
    ((∃ f, parseMemoryText (v.fileText content) = some f ∧ ReadsBack v content f) ∧
      ∀ rewrites : List MemoryRewrite, (∀ r ∈ rewrites, OverridesNothing env r.args) →
        ∃ f, parseMemoryText (rewrites.foldl (rewriteText env) (v.fileText content)) = some f ∧
          KeepsMetadata v.toMemoryValues f) ↔
      v.Plain := by
  have hread := parseMemoryText_fileText v.newline_notMem_inject content
  constructor
  · rintro ⟨⟨f, hf, hback⟩, -⟩
    rw [hread, Option.some.injEq] at hf
    subst hf
    exact (readsBack_readFields_iff v content).1 hback
  · intro h
    have hback := (readsBack_readFields_iff v content).2 h
    refine ⟨⟨_, hread, hback⟩, fun rewrites hnothing => ?_⟩
    refine foldl_rewriteText_keeps env h.toPlainMetadata rewrites hnothing hread
      ⟨hback.description, hback.tags, hback.memType, hback.createdAt⟩ ?_
    rw [v.inject_readFields content]
    exact v.newline_notMem_inject

/-- A note whose description has quotes and whose tag has a comma. -/
def quotedNote : AcceptedMemory where
  name := "note"
  description := "say \"hi\""
  tags := ["a,b"]
  memType := "project"
  inject := "search"
  createdAt := "2025-01-01"
  updatedAt := none
  scope := .agent
  userId := some "anna"
  name_ok := by decide
  tags_ok := by decide
  inject_ok := .inr rfl
  userId_ok := rfl

/-- A replacement of its content on the next day. -/
def nextDay : MemoryRewrite := ⟨"2025-01-02", .obj [], "anna", "body"⟩

/-- **The escapes stay in the description,** and a replacement doubles them; the tag falls apart. -/
theorem not_roundTrips_quotedNote :
    (parseMemoryText (quotedNote.fileText "body")).map (fun f => (f.description, f.tags)) =
        some ("say \\\"hi\\\"", ["\"a", "b\""]) ∧
      (parseMemoryText (rewriteText plainMemoryEnv (quotedNote.fileText "body") nextDay)).map
          (·.description) = some "say \\\\\\\"hi\\\\\\\"" ∧
      ¬ ∃ f, parseMemoryText (quotedNote.fileText "body") = some f ∧ ReadsBack quotedNote "body" f := by
  have hread : parseMemoryText (quotedNote.fileText "body") = some (quotedNote.readFields "body") :=
    parseMemoryText_fileText quotedNote.newline_notMem_inject "body"
  have hfields : (quotedNote.readFields "body").description = "say \\\"hi\\\"" := by decide
  refine ⟨?_, ?_, ?_⟩
  · rw [hread]
    decide
  · rw [rewriteText, hread]
    dsimp only
    rw [parseMemoryText_fileText (by decide)]
    decide
  · rintro ⟨f, hf, hback⟩
    rw [hread, Option.some.injEq] at hf
    have hdescription := hback.description
    rw [← hf, hfields] at hdescription
    exact absurd hdescription (by decide)

end MyClaw
