import MyClaw.Lib.Json

set_option autoImplicit false

/-!
# Tool schemas for Google

`sanitize_schema_for_google` (`providers/protocols/google/message_rendering.rs`) takes out of the schema of
a tool the keywords that Google does not know, and sees to it that whatever has a `required` is an object.
It goes down into the members of an object and into the items of an array, and takes every object that it
finds for a schema: the object that has the parameters of a tool under their names as well.

## Main definitions

* `sanitizeSchemaForGoogle` — the pass.
* `googleAccepts` — a value in which no object has what Google rejects.

## Main results

* `googleAccepts_sanitize_iff` — when its result is accepted.
* `keepsParameters_iff` — when a tool keeps its parameters.

## Implementation notes

The members of an object are a list; the program has them ordered by name.  Whether an object is given a
type is seen from its members before the pass goes down into them, as in the program; the type is put there
afterwards, since a text is not gone down into.
-/

namespace MyClaw

/-! ## The pass -/

/-- The keywords that Google does not know. -/
def googleRejects : List String :=
  ["additionalProperties", "$schema", "$defs", "definitions", "exclusiveMinimum", "exclusiveMaximum",
    "anyOf", "oneOf"]

/-- `Map::insert`. -/
def insertMember (key : String) (v : JsonValue) (members : List (String × JsonValue)) :
    List (String × JsonValue) :=
  if key ∈ members.map Prod.fst then members.map fun m => if m.1 = key then (key, v) else m
  else members ++ [(key, v)]

/-- Members with a `required` that are not those of an object. -/
def needsObjectType (members : List (String × JsonValue)) : Bool :=
  decide ("required" ∈ members.map Prod.fst) &&
    decide (((JsonValue.obj members).get "type").bind JsonValue.asStr ≠ some "object")

/-- The `type` that members with a `required` get. -/
def pairRequired (needs : Bool) (members : List (String × JsonValue)) : List (String × JsonValue) :=
  if needs then insertMember "type" (.str "object") members else members

mutual

/-- `sanitize_schema_for_google`. -/
def sanitizeSchemaForGoogle : JsonValue → JsonValue
  | .obj members =>
    .obj (pairRequired (needsObjectType (members.filter (·.1 ∉ googleRejects))) (sanitizeMembers members))
  | v => v

/-- The members that are left, gone down into. -/
def sanitizeMembers : List (String × JsonValue) → List (String × JsonValue)
  | [] => []
  | m :: members =>
    if m.1 ∈ googleRejects then sanitizeMembers members else sanitizeMember m :: sanitizeMembers members

/-- A member that is gone down into. -/
def sanitizeMember : String × JsonValue → String × JsonValue
  | (key, .arr items) => (key, .arr (sanitizeItems items))
  | (key, v) => (key, sanitizeSchemaForGoogle v)

/-- The items of an array. -/
def sanitizeItems : List JsonValue → List JsonValue
  | [] => []
  | v :: items => sanitizeSchemaForGoogle v :: sanitizeItems items

end

/-! ## What Google accepts -/

mutual

/-- No object has a keyword that Google rejects, or a `required` without the type of an object. -/
def googleAccepts : JsonValue → Bool
  | .obj members =>
    members.all (·.1 ∉ googleRejects) && ! needsObjectType members && googleAcceptsMembers members
  | .arr items => googleAcceptsItems items
  | _ => true

/-- The same of the members of an object. -/
def googleAcceptsMembers : List (String × JsonValue) → Bool
  | [] => true
  | m :: members => googleAcceptsMember m && googleAcceptsMembers members

/-- The same of a member. -/
def googleAcceptsMember : String × JsonValue → Bool
  | (_, v) => googleAccepts v

/-- The same of the items of an array. -/
def googleAcceptsItems : List JsonValue → Bool
  | [] => true
  | v :: items => googleAccepts v && googleAcceptsItems items

end

section Lists

variable {members : List (String × JsonValue)} {items : List JsonValue}

lemma sanitizeMembers_eq (members : List (String × JsonValue)) :
    sanitizeMembers members = (members.filter (·.1 ∉ googleRejects)).map sanitizeMember := by
  induction members with
  | nil => rfl
  | cons m members ih =>
    rw [sanitizeMembers, ih]
    split_ifs with h
    · rw [List.filter_cons_of_neg (by simpa using h)]
    · rw [List.filter_cons_of_pos (by simpa using h), List.map_cons]

lemma sanitizeItems_eq (items : List JsonValue) :
    sanitizeItems items = items.map sanitizeSchemaForGoogle := by
  induction items with
  | nil => rfl
  | cons v items ih => rw [sanitizeItems, ih, List.map_cons]

lemma googleAcceptsMembers_iff :
    googleAcceptsMembers members = true ↔ ∀ m ∈ members, googleAccepts m.2 = true := by
  induction members with
  | nil => simp [googleAcceptsMembers]
  | cons m members ih =>
    obtain ⟨key, v⟩ := m
    rw [googleAcceptsMembers, googleAcceptsMember, Bool.and_eq_true, ih, List.forall_mem_cons]

lemma googleAcceptsItems_iff :
    googleAcceptsItems items = true ↔ ∀ v ∈ items, googleAccepts v = true := by
  induction items with
  | nil => simp [googleAcceptsItems]
  | cons v items ih => rw [googleAcceptsItems, Bool.and_eq_true, ih, List.forall_mem_cons]

lemma googleAccepts_obj_iff : googleAccepts (.obj members) = true ↔
    (∀ m ∈ members, m.1 ∉ googleRejects) ∧ needsObjectType members = false ∧
      ∀ m ∈ members, googleAccepts m.2 = true := by
  rw [googleAccepts, Bool.and_eq_true, Bool.and_eq_true, googleAcceptsMembers_iff, and_assoc]
  simp

lemma sanitizeMember_fst (m : String × JsonValue) : (sanitizeMember m).1 = m.1 := by
  obtain ⟨key, v⟩ := m
  cases v <;> rfl

lemma asStr_sanitizeMember (m : String × JsonValue) : (sanitizeMember m).2.asStr = m.2.asStr := by
  obtain ⟨key, v⟩ := m
  cases v <;> rfl

/-- Going down changes neither the names nor the texts of the members. -/
lemma needsObjectType_map_sanitizeMember (members : List (String × JsonValue)) :
    needsObjectType (members.map sanitizeMember) = needsObjectType members := by
  have hkeys : (members.map sanitizeMember).map Prod.fst = members.map Prod.fst := by
    rw [List.map_map]
    exact List.map_congr_left fun m _ => sanitizeMember_fst m
  have htype : ((JsonValue.obj (members.map sanitizeMember)).get "type").bind JsonValue.asStr =
      ((JsonValue.obj members).get "type").bind JsonValue.asStr := by
    have hfind : (members.map sanitizeMember).find? (fun m => m.1 = "type") =
        (members.find? fun m => m.1 = "type").map sanitizeMember := by
      rw [List.find?_map]
      refine congrArg (Option.map sanitizeMember) (congrArg (List.find? · members) (funext fun m => ?_))
      rw [Function.comp_apply, sanitizeMember_fst]
    rw [JsonValue.get, JsonValue.get, hfind]
    cases members.find? fun m => m.1 = "type" with
    | none => rfl
    | some m => exact asStr_sanitizeMember m
  rw [needsObjectType, hkeys, htype, ← needsObjectType]

lemma mem_insertMember {key : String} {v : JsonValue} {m : String × JsonValue} :
    m ∈ insertMember key v members ↔ (m ∈ members ∧ m.1 ≠ key) ∨ m = (key, v) := by
  rw [insertMember]
  split_ifs with h
  · rw [List.mem_map]
    constructor
    · rintro ⟨m', hm', rfl⟩
      split_ifs with hkey
      · exact .inr rfl
      · exact .inl ⟨hm', hkey⟩
    · rintro (⟨hm, hkey⟩ | rfl)
      · exact ⟨m, hm, if_neg hkey⟩
      · obtain ⟨m', hm', hkey⟩ := List.mem_map.1 h
        exact ⟨m', hm', if_pos hkey⟩
  · rw [List.mem_append, List.mem_singleton]
    refine or_congr_left ⟨fun hm => ⟨hm, fun hkey => h ?_⟩, And.left⟩
    exact hkey ▸ List.mem_map_of_mem hm

lemma get_insertMember (key : String) (v : JsonValue) :
    (JsonValue.obj (insertMember key v members)).get key = some v := by
  rw [JsonValue.get, insertMember]
  split_ifs with h
  · have hfind : (members.map fun m => if m.1 = key then (key, v) else m).find? (fun m => m.1 = key) =
        (members.find? fun m => m.1 = key).map fun m => if m.1 = key then (key, v) else m := by
      rw [List.find?_map]
      refine congrArg (Option.map _) (congrArg (List.find? · members) (funext fun m => ?_))
      rw [Function.comp_apply]
      split_ifs with hkey
      · simp [hkey]
      · rfl
    obtain ⟨m, hm⟩ : ∃ m, members.find? (fun m => m.1 = key) = some m := by
      obtain ⟨m, hm, hkey⟩ := List.mem_map.1 h
      exact Option.isSome_iff_exists.1 (List.find?_isSome.2 ⟨m, hm, decide_eq_true hkey⟩)
    have hkey : m.1 = key := by simpa using List.find?_some hm
    rw [hfind, hm, Option.map_some, if_pos hkey, Option.map_some]
  · have hnone : members.find? (fun m => m.1 = key) = none := by
      rw [List.find?_eq_none]
      exact fun m hm hkey => h (List.mem_map.2 ⟨m, hm, of_decide_eq_true hkey⟩)
    rw [List.find?_append, hnone]
    simp

/-- An object with a `required` gets the type of one. -/
lemma needsObjectType_pairRequired :
    needsObjectType (pairRequired (needsObjectType members) members) = false := by
  rw [pairRequired]
  split_ifs with h
  · rw [needsObjectType, get_insertMember]
    simp [JsonValue.asStr]
  · simpa using h

end Lists

/-! ## The members of a result -/

section Members

variable {members : List (String × JsonValue)}

/-- The members of a result have names that Google knows. -/
lemma fst_notMem_sanitizeMembers : ∀ m ∈ sanitizeMembers members, m.1 ∉ googleRejects := by
  rw [sanitizeMembers_eq]
  refine List.forall_mem_map.2 fun m hm => ?_
  rw [sanitizeMember_fst]
  exact of_decide_eq_true (List.mem_filter.1 hm).2

/-- The type that a `required` needs takes the place of what was there. -/
lemma forall_mem_pairRequired_iff {P : String × JsonValue → Prop} {needs : Bool}
    (htype : P ("type", .str "object")) : (∀ m ∈ pairRequired needs members, P m) ↔
      ∀ m ∈ members, ¬ (needs = true ∧ m.1 = "type") → P m := by
  rw [pairRequired]
  split_ifs with hneeds
  · constructor
    · exact fun h m hm hkey => h m (mem_insertMember.2 (.inl ⟨hm, fun heq => hkey ⟨hneeds, heq⟩⟩))
    · intro h m hm
      rcases mem_insertMember.1 hm with ⟨hm, hkey⟩ | rfl
      · exact h m hm fun hboth => hkey hboth.2
      · exact htype
  · exact forall₂_congr fun m hm => ⟨fun h _ => h, fun h => h fun hboth => hneeds hboth.1⟩

/-- The result of the pass needs no type. -/
lemma needsObjectType_sanitize :
    needsObjectType (pairRequired (needsObjectType (members.filter (·.1 ∉ googleRejects)))
      (sanitizeMembers members)) = false := by
  rw [sanitizeMembers_eq, ← needsObjectType_map_sanitizeMember (members.filter _)]
  exact needsObjectType_pairRequired

end Members

/-! ## When the result is accepted -/

mutual

/-- What the pass does not go down into is accepted: arrays that are items of arrays. -/
def leftoversAccepted : JsonValue → Bool
  | .obj members =>
    leftoversAcceptedMembers (needsObjectType (members.filter (·.1 ∉ googleRejects))) members
  | .arr items => googleAcceptsItems items
  | _ => true

/-- The same of members; one that is taken out or written over does not matter. -/
def leftoversAcceptedMembers (needs : Bool) : List (String × JsonValue) → Bool
  | [] => true
  | m :: members =>
    (decide (m.1 ∈ googleRejects) || (needs && decide (m.1 = "type")) || leftoversAcceptedMember m) &&
      leftoversAcceptedMembers needs members

/-- The same of a member. -/
def leftoversAcceptedMember : String × JsonValue → Bool
  | (_, .arr items) => leftoversAcceptedItems items
  | (_, v) => leftoversAccepted v

/-- The same of the items of an array. -/
def leftoversAcceptedItems : List JsonValue → Bool
  | [] => true
  | v :: items => leftoversAccepted v && leftoversAcceptedItems items

end

section Accepted

variable {members : List (String × JsonValue)} {items : List JsonValue} {needs : Bool}

lemma leftoversAcceptedItems_iff :
    leftoversAcceptedItems items = true ↔ ∀ v ∈ items, leftoversAccepted v = true := by
  induction items with
  | nil => simp [leftoversAcceptedItems]
  | cons v items ih => rw [leftoversAcceptedItems, Bool.and_eq_true, ih, List.forall_mem_cons]

lemma leftoversAcceptedMembers_iff : leftoversAcceptedMembers needs members = true ↔
    ∀ m ∈ members, m.1 ∉ googleRejects → ¬ (needs = true ∧ m.1 = "type") →
      leftoversAcceptedMember m = true := by
  induction members with
  | nil => simp [leftoversAcceptedMembers]
  | cons m members ih =>
    rw [leftoversAcceptedMembers, Bool.and_eq_true, ih, List.forall_mem_cons]
    refine and_congr_left fun _ => ?_
    simp only [Bool.or_eq_true, Bool.and_eq_true, decide_eq_true_eq]
    tauto

/-- The result is accepted exactly if what the pass leaves alone is. -/
lemma accepts_sanitize (v : JsonValue) :
    googleAccepts (sanitizeSchemaForGoogle v) = leftoversAccepted v ∧
      ∀ key, googleAccepts (sanitizeMember (key, v)).2 = leftoversAcceptedMember (key, v) := by
  induction v using JsonValue.induction_on with
  | obj members ih =>
    have haccepts : googleAccepts (sanitizeSchemaForGoogle (.obj members)) =
        leftoversAccepted (.obj members) := by
      have hnames : ∀ needs, ∀ m ∈ pairRequired needs (sanitizeMembers members), m.1 ∉ googleRejects :=
        fun needs => (forall_mem_pairRequired_iff (by decide)).2 fun m hm _ =>
          fst_notMem_sanitizeMembers m hm
      rw [Bool.eq_iff_iff, sanitizeSchemaForGoogle, googleAccepts_obj_iff, and_iff_right (hnames _),
        and_iff_right needsObjectType_sanitize,
        @forall_mem_pairRequired_iff _ (fun m => googleAccepts m.2 = true) _ rfl, sanitizeMembers_eq,
        List.forall_mem_map, leftoversAccepted, leftoversAcceptedMembers_iff]
      simp only [List.mem_filter, decide_eq_true_eq, sanitizeMember_fst, and_imp]
      exact forall₂_congr fun m hm => by rw [(ih m hm).2 m.1]
    exact ⟨haccepts, fun _ => haccepts⟩
  | arr items ih =>
    refine ⟨rfl, fun key => ?_⟩
    rw [Bool.eq_iff_iff, sanitizeMember, leftoversAcceptedMember, googleAccepts, googleAcceptsItems_iff,
      leftoversAcceptedItems_iff, sanitizeItems_eq, List.forall_mem_map]
    exact forall₂_congr fun v hv => by rw [(ih v hv).1]
  | _ => exact ⟨rfl, fun _ => rfl⟩

/-- **When Google accepts the result**: exactly if it accepts the arrays that are items of arrays, which the
pass does not go down into. -/
theorem googleAccepts_sanitize_iff (v : JsonValue) :
    googleAccepts (sanitizeSchemaForGoogle v) = true ↔ leftoversAccepted v = true := by
  rw [(accepts_sanitize v).1]

end Accepted

/-! ## The parameters of a tool -/

/-- The object with the parameters of a tool under their names. -/
def propertiesOf (schema : JsonValue) : List (String × JsonValue) :=
  match schema.get "properties" with
  | some (.obj members) => members
  | _ => []

/-- A schema is an object. -/
def isSchema : JsonValue → Bool
  | .obj _ => true
  | _ => false

/-- Names that a parameter must not have. -/
def takenForKeywords : List String := "required" :: googleRejects

section Parameters

variable {schema : JsonValue} {members : List (String × JsonValue)} {key : String}

/-- A member with another name is still there. -/
lemma find?_pairRequired {needs : Bool} (htype : key ≠ "type") :
    (pairRequired needs members).find? (fun m => m.1 = key) = members.find? fun m => m.1 = key := by
  rw [pairRequired, insertMember]
  split_ifs with _ hmem
  · have hcomp : ((fun m => decide (m.1 = key)) ∘ fun m : String × JsonValue =>
        if m.1 = "type" then ("type", .str "object") else m) = fun m => decide (m.1 = key) := by
      refine funext fun m => ?_
      rw [Function.comp_apply]
      split_ifs with hm
      · rw [hm]
      · rfl
    rw [List.find?_map, hcomp]
    cases hm : members.find? fun m => m.1 = key with
    | none => rfl
    | some m =>
      have hkey : m.1 = key := by simpa using List.find?_some hm
      rw [Option.map_some, if_neg (hkey ▸ htype)]
  · rw [List.find?_append]
    simp [htype.symm]
  · rfl

/-- A member that is neither taken out nor written over is gone down into. -/
lemma get_sanitize (hkey : key ∉ googleRejects) (htype : key ≠ "type") :
    (sanitizeSchemaForGoogle (.obj members)).get key =
      ((JsonValue.obj members).get key).map fun v => (sanitizeMember (key, v)).2 := by
  have hfilter : ∀ m : String × JsonValue, decide (m.1 ∉ googleRejects) = true ∧ decide (m.1 = key) = true ↔
      decide (m.1 = key) = true := fun m => by
    simp only [decide_eq_true_eq]
    exact and_iff_right_of_imp fun heq => heq ▸ hkey
  have hfind : (sanitizeMembers members).find? (fun m => m.1 = key) =
      (members.find? fun m => m.1 = key).map sanitizeMember := by
    rw [sanitizeMembers_eq, List.find?_map, List.find?_filter]
    refine congrArg (Option.map sanitizeMember) (congrArg (List.find? · members) (funext fun m => ?_))
    rw [Function.comp_apply, sanitizeMember_fst, Bool.eq_iff_iff, decide_eq_true_iff]
    exact hfilter m
  rw [sanitizeSchemaForGoogle, JsonValue.get, find?_pairRequired htype, hfind, JsonValue.get]
  cases hm : members.find? fun m => m.1 = key with
  | none => rfl
  | some m =>
    obtain rfl : m.1 = key := by simpa using List.find?_some hm
    rfl

/-- The parameters after the pass. -/
lemma propertiesOf_sanitize : propertiesOf (sanitizeSchemaForGoogle schema) =
    pairRequired (needsObjectType ((propertiesOf schema).filter (·.1 ∉ googleRejects)))
      (sanitizeMembers (propertiesOf schema)) := by
  cases schema with
  | obj members =>
    rw [propertiesOf, get_sanitize (by decide) (by decide), propertiesOf]
    cases hget : (JsonValue.obj members).get "properties" with
    | none => rfl
    | some v => cases v <;> rfl
  | _ => rfl

/-- The pass leaves a schema a schema. -/
lemma isSchema_sanitizeMember (m : String × JsonValue) : isSchema (sanitizeMember m).2 = isSchema m.2 := by
  obtain ⟨key, v⟩ := m
  cases v <;> rfl

/-- **When a tool keeps its parameters**: a tool whose parameters all have schemas has the same ones after
the pass, each with a schema, exactly if none of them is named like a keyword that Google does not know, or
`required`. -/
theorem keepsParameters_iff (h : ∀ m ∈ propertiesOf schema, isSchema m.2 = true) :
    ((propertiesOf (sanitizeSchemaForGoogle schema)).map Prod.fst = (propertiesOf schema).map Prod.fst ∧
        ∀ m ∈ propertiesOf (sanitizeSchemaForGoogle schema), isSchema m.2 = true) ↔
      ∀ name ∈ (propertiesOf schema).map Prod.fst, name ∉ takenForKeywords := by
  rw [propertiesOf_sanitize]
  generalize propertiesOf schema = members at h ⊢
  constructor
  · rintro ⟨hnames, hschemas⟩ name hname htaken
    have hknown : name ∉ googleRejects := by
      rw [← hnames] at hname
      obtain ⟨m, hm, rfl⟩ := List.mem_map.1 hname
      exact (forall_mem_pairRequired_iff (by decide)).2 (fun m hm _ => fst_notMem_sanitizeMembers m hm) m hm
    obtain rfl : name = "required" := (List.mem_cons.1 htaken).resolve_right hknown
    have hneeds : needsObjectType (members.filter (·.1 ∉ googleRejects)) = true := by
      obtain ⟨m, hm, hmkey⟩ := List.mem_map.1 hname
      have hkept : "required" ∈ (members.filter (·.1 ∉ googleRejects)).map Prod.fst :=
        List.mem_map.2 ⟨m, List.mem_filter.2 ⟨hm, decide_eq_true (hmkey ▸ hknown)⟩, hmkey⟩
      have htype : ((JsonValue.obj (members.filter (·.1 ∉ googleRejects))).get "type").bind
          JsonValue.asStr = none := by
        rw [JsonValue.get]
        cases hfind : (members.filter (·.1 ∉ googleRejects)).find? fun m => m.1 = "type" with
        | none => rfl
        | some m =>
          have hschema := h m (List.mem_of_mem_filter (List.mem_of_find?_eq_some hfind))
          rw [Option.map_some, Option.bind_some]
          cases hv : m.2 with
          | str text =>
            rw [hv] at hschema
            cases hschema
          | _ => rfl
      rw [needsObjectType, decide_eq_true hkept, htype]
      rfl
    have htype := hschemas ("type", .str "object") (by
      rw [hneeds, pairRequired, if_pos rfl]
      exact mem_insertMember.2 (.inr rfl))
    exact absurd htype (by decide)
  · intro hnames
    have hfilter : members.filter (·.1 ∉ googleRejects) = members := List.filter_eq_self.2 fun m hm =>
      decide_eq_true fun hmem => hnames m.1 (List.mem_map_of_mem hm) (List.mem_cons_of_mem _ hmem)
    have hneeds : needsObjectType members = false := by
      have hrequired : "required" ∉ members.map Prod.fst := fun hmem =>
        hnames "required" hmem List.mem_cons_self
      rw [needsObjectType, decide_eq_false hrequired, Bool.false_and]
    rw [hfilter, hneeds, sanitizeMembers_eq, hfilter, pairRequired, if_neg Bool.false_ne_true,
      List.map_map]
    refine ⟨List.map_congr_left fun m _ => sanitizeMember_fst m, List.forall_mem_map.2 fun m hm => ?_⟩
    rw [isSchema_sanitizeMember]
    exact h m hm

/-- A tool with a parameter `required`. -/
theorem keepsParameters_required :
    ¬ ((propertiesOf (sanitizeSchemaForGoogle (.obj [("properties", .obj [("required", .obj [])])]))).map
        Prod.fst = ["required"] ∧
      ∀ m ∈ propertiesOf (sanitizeSchemaForGoogle (.obj [("properties", .obj [("required", .obj [])])])),
        isSchema m.2 = true) := by
  have hschemas : ∀ m ∈ propertiesOf (.obj [("properties", .obj [("required", .obj [])])]),
      isSchema m.2 = true := by decide
  exact (keepsParameters_iff hschemas).not.2 fun h => h "required" (by decide) List.mem_cons_self

end Parameters

end MyClaw
